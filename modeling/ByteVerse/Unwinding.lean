/-
  What an observer of a run sees, and when it depends on his own inputs alone.

  `collect step f` reads off along a run what `f` makes of each of its steps.  An observer sees
  `out`; what concerns him of the events is `view`.  To show that what he sees depends on his view
  alone, give a machine of his own that is fed nothing else (`own`, `ownOut`) and relate the states
  of the system to the states of that machine (`collect_eq_replay`).  Two runs with the same view
  then show him the same (`same_view_same_out`), whatever else happens in them.
-/
import ByteVerse.Run

namespace ByteVerse.Run

variable {σ ε τ α ω : Type}

/-- What `f` reads off the steps of a run. -/
def collect (step : σ → ε → Option σ) (f : σ → ε → List α) : σ → List ε → List α
  | _, [] => []
  | s, e :: es =>
    match step s e with
    | none => []
    | some s' => f s e ++ collect step f s' es

/-- What the observer's own machine shows when it is fed a list of inputs. -/
def replay (own : τ → α → τ) (ownOut : τ → α → List ω) : τ → List α → List ω
  | _, [] => []
  | t, a :: as => ownOut t a ++ replay own ownOut (own t a) as

section Unwinding

variable {step : σ → ε → Option σ} {good : σ → ε → Prop} {view : σ → ε → List α}
  {out : σ → ε → List ω} {own : τ → α → τ} {ownOut : τ → α → List ω} {R : σ → τ → Prop}

theorem replay_append (t : τ) (as bs : List α) :
    replay own ownOut t (as ++ bs) =
      replay own ownOut t as ++ replay own ownOut (as.foldl own t) bs := by
  induction as generalizing t with
  | nil => rfl
  | cons a as ih =>
    show ownOut t a ++ replay own ownOut (own t a) (as ++ bs) = _
    rw [ih, ← List.append_assoc]
    rfl

/-- **The unwinding rule.**  Each good step shows the observer what his own machine shows on the
    step's view, and keeps the two related; then so does each run of good steps. -/
theorem collect_eq_replay
    (hstep : ∀ s e s' t, R s t → good s e → step s e = some s' →
      out s e = replay own ownOut t (view s e) ∧ R s' ((view s e).foldl own t))
    {s : σ} {t : τ} {es : List ε} (hrel : R s t) (h : Along step good s es) :
    collect step out s es = replay own ownOut t (collect step view s es) := by
  induction es generalizing s t with
  | nil => rfl
  | cons e es ih =>
    unfold collect
    rcases hs : step s e with _ | s'
    · rfl
    · obtain ⟨hg, hrest⟩ := h s' hs
      obtain ⟨hout, hrel'⟩ := hstep s e s' t hrel hg hs
      simp only
      rw [replay_append, hout, ih hrel' hrest]

/-- Runs from states related to one state of the observer's machine, with the same view, show him
    the same. -/
theorem same_view_same_out
    (hstep : ∀ s e s' t, R s t → good s e → step s e = some s' →
      out s e = replay own ownOut t (view s e) ∧ R s' ((view s e).foldl own t))
    {s₁ s₂ : σ} {t : τ} {es₁ es₂ : List ε} (hrel₁ : R s₁ t) (hrel₂ : R s₂ t)
    (h₁ : Along step good s₁ es₁) (h₂ : Along step good s₂ es₂)
    (hview : collect step view s₁ es₁ = collect step view s₂ es₂) :
    collect step out s₁ es₁ = collect step out s₂ es₂ := by
  rw [collect_eq_replay hstep hrel₁ h₁, collect_eq_replay hstep hrel₂ h₂, hview]

end Unwinding
end ByteVerse.Run
