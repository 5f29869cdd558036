/-
  Runs of a deterministic event system, over arbitrary states and events.

  A system is a step function `step : σ → ε → Option σ`: the state after one event, `none` when
  the event cannot happen there.  Two predicates read a run off a list of events:

  * `Throughout step P s es`: `P` holds in every state the run visits, its first one included;
  * `Along step good s es`: every step the run takes is `good` in the state it is taken from.

  The rules relate the two.  `throughout_of_along` is the invariant rule: an invariant that every
  good step preserves holds throughout a run whose steps are all good.  `throughout_iff_along`
  is its exact form, for the case where in addition a bad step always breaks the property: then
  the property holds throughout a run IF AND ONLY IF all its steps are good.
-/
import Mathlib.Logic.Basic

namespace ByteVerse.Run

variable {σ ε : Type}

/-- The state at the end of a run; `none` when one of the events cannot happen. -/
def run (step : σ → ε → Option σ) : σ → List ε → Option σ
  | s, [] => some s
  | s, e :: es => (step s e).bind fun s' => run step s' es

/-- `P` holds in every state of the run. -/
def Throughout (step : σ → ε → Option σ) (P : σ → Prop) : σ → List ε → Prop
  | s, [] => P s
  | s, e :: es => P s ∧ ∀ s', step s e = some s' → Throughout step P s' es

/-- Every step that the run takes is `good` in the state before it. -/
def Along (step : σ → ε → Option σ) (good : σ → ε → Prop) : σ → List ε → Prop
  | _, [] => True
  | s, e :: es => ∀ s', step s e = some s' → good s e ∧ Along step good s' es

instance decidableAlong (step : σ → ε → Option σ) (good : σ → ε → Prop)
    [∀ s e, Decidable (good s e)] : ∀ s es, Decidable (Along step good s es)
  | _, [] => isTrue trivial
  | s, e :: es =>
    match h : step s e with
    | none => isTrue fun s' hs' => by
        rw [h] at hs'
        cases hs'
    | some s₁ =>
      have := decidableAlong step good s₁ es
      decidable_of_iff (good s e ∧ Along step good s₁ es)
        ⟨fun hg s' hs' => (Option.some.inj (h.symm.trans hs')) ▸ hg, fun hall => hall s₁ h⟩

section Rules

variable {step : σ → ε → Option σ} {P Inv : σ → Prop} {good : σ → ε → Prop}

theorem run_cons {s s'' : σ} {e : ε} {es : List ε} (h : run step s (e :: es) = some s'') :
    ∃ s', step s e = some s' ∧ run step s' es = some s'' :=
  Option.bind_eq_some_iff.mp h

/-- A run splits at any of its states. -/
theorem run_append (s : σ) (es fs : List ε) :
    run step s (es ++ fs) = (run step s es).bind fun s' => run step s' fs := by
  induction es generalizing s with
  | nil => rfl
  | cons e es ih =>
    show (step s e).bind _ = ((step s e).bind _).bind _
    cases step s e with
    | none => rfl
    | some s' => exact ih s'

theorem throughout_head {s : σ} {es : List ε} (h : Throughout step P s es) : P s := by
  cases es with
  | nil => exact h
  | cons e es => exact h.1

/-- What holds throughout a run holds at its end. -/
theorem throughout_last {s s' : σ} {es : List ε} (h : Throughout step P s es)
    (hr : run step s es = some s') : P s' := by
  induction es generalizing s with
  | nil =>
    obtain rfl : s = s' := Option.some.inj hr
    exact h
  | cons e es ih =>
    obtain ⟨s₁, h₁, hr₁⟩ := run_cons hr
    exact ih (h.2 s₁ h₁) hr₁

theorem throughout_mono {Q : σ → Prop} (hPQ : ∀ s, P s → Q s) {s : σ} {es : List ε}
    (h : Throughout step P s es) : Throughout step Q s es := by
  induction es generalizing s with
  | nil => exact hPQ s h
  | cons e es ih => exact ⟨hPQ s h.1, fun s' hs' => ih (h.2 s' hs')⟩

/-- A run of a second system over the same states, whose good steps are those of the first: what holds
    throughout the one holds throughout the other. -/
theorem throughout_map {ε' : Type} {step' : σ → ε' → Option σ} {good : σ → ε' → Prop} {f : ε' → ε}
    (hstep : ∀ s e, good s e → step' s e = step s (f e)) {s : σ} {es : List ε'}
    (hgood : Along step' good s es) (h : Throughout step P s (es.map f)) : Throughout step' P s es := by
  induction es generalizing s with
  | nil => exact h
  | cons e es ih =>
    refine ⟨h.1, fun s' hs' => ?_⟩
    obtain ⟨hg, hrest⟩ := hgood s' hs'
    refine ih hrest (h.2 s' ?_)
    rwa [← hstep s e hg]

theorem along_mono {good' : σ → ε → Prop} (hgg : ∀ s e, good s e → good' s e) {s : σ}
    {es : List ε} (h : Along step good s es) : Along step good' s es := by
  induction es generalizing s with
  | nil => trivial
  | cons e es ih =>
    intro s' hs'
    exact ⟨hgg s e (h s' hs').1, ih (h s' hs').2⟩

theorem along_and {good' : σ → ε → Prop} {s : σ} {es : List ε} (h : Along step good s es)
    (h' : Along step good' s es) : Along step (fun s e => good s e ∧ good' s e) s es := by
  induction es generalizing s with
  | nil => trivial
  | cons e es ih =>
    intro s' hs'
    exact ⟨⟨(h s' hs').1, (h' s' hs').1⟩, ih (h s' hs').2 (h' s' hs').2⟩

/-- The step that a run takes after its first events `es`. -/
theorem along_at {s s' s'' : σ} {es fs : List ε} {e : ε} (h : Along step good s (es ++ e :: fs))
    (hr : run step s es = some s') (hs : step s' e = some s'') : good s' e := by
  induction es generalizing s with
  | nil =>
    obtain rfl : s = s' := Option.some.inj hr
    exact (h s'' hs).1
  | cons e' es ih =>
    obtain ⟨s₁, h₁, hr₁⟩ := run_cons hr
    exact ih (h s₁ h₁).2 hr₁

/-- A condition on the events alone holds along every run of such events. -/
theorem along_of_forall {ok : ε → Prop} {s : σ} {es : List ε} (h : ∀ e ∈ es, ok e) :
    Along step (fun _ e => ok e) s es := by
  induction es generalizing s with
  | nil => trivial
  | cons e es ih =>
    intro s' _
    exact ⟨h e List.mem_cons_self, ih fun e' he' => h e' (List.mem_cons_of_mem e he')⟩

/-- **The invariant rule**: what good steps preserve holds throughout a run of good steps. -/
theorem throughout_of_along
    (hstep : ∀ s e s', Inv s → good s e → step s e = some s' → Inv s') {s : σ} {es : List ε}
    (h0 : Inv s) (h : Along step good s es) : Throughout step Inv s es := by
  induction es generalizing s with
  | nil => exact h0
  | cons e es ih =>
    refine ⟨h0, fun s' hs' => ?_⟩
    obtain ⟨hg, hrest⟩ := h s' hs'
    exact ih (hstep s e s' h0 hg hs') hrest

/-- What the invariant gives of each good step holds along a run of good steps. -/
theorem along_of_inv {Q : σ → ε → Prop}
    (hstep : ∀ s e s', Inv s → good s e → step s e = some s' → Inv s')
    (hQ : ∀ s e, Inv s → good s e → Q s e) {s : σ} {es : List ε} (h0 : Inv s)
    (h : Along step good s es) : Along step Q s es := by
  induction es generalizing s with
  | nil => trivial
  | cons e es ih =>
    intro s' hs'
    obtain ⟨hg, hrest⟩ := h s' hs'
    exact ⟨hQ s e h0 hg, ih (hstep s e s' h0 hg hs') hrest⟩

/-- Two conditions on steps that agree where the invariant holds. -/
theorem along_congr {good' : σ → ε → Prop} (hstep : ∀ s e s', Inv s → step s e = some s' → Inv s')
    (hgood : ∀ s e, Inv s → (good s e ↔ good' s e)) {s : σ} {es : List ε} (h0 : Inv s) :
    Along step good s es ↔ Along step good' s es := by
  constructor
  · intro h
    exact along_of_inv (fun s e s' hs _ => hstep s e s' hs) (fun s e hs => (hgood s e hs).mp) h0 h
  · intro h
    exact along_of_inv (fun s e s' hs _ => hstep s e s' hs) (fun s e hs => (hgood s e hs).mpr) h0 h

/-- The invariant rule for a system whose every step preserves the invariant. -/
theorem throughout_of_inv (hstep : ∀ s e s', Inv s → step s e = some s' → Inv s') {s : σ}
    {es : List ε} (h0 : Inv s) : Throughout step Inv s es := by
  induction es generalizing s with
  | nil => exact h0
  | cons e es ih => exact ⟨h0, fun s' hs' => ih (hstep s e s' h0 hs')⟩

/-- Two properties of states that agree where the invariant holds. -/
theorem throughout_congr {Q : σ → Prop} (hstep : ∀ s e s', Inv s → step s e = some s' → Inv s')
    (hPQ : ∀ s, Inv s → (P s ↔ Q s)) {s : σ} {es : List ε} (h0 : Inv s) :
    Throughout step P s es ↔ Throughout step Q s es := by
  induction es generalizing s with
  | nil => exact hPQ s h0
  | cons e es ih =>
    exact and_congr (hPQ s h0) (forall_congr' fun s' => imp_congr_right fun hs' =>
      ih (hstep s e s' h0 hs'))

/-- **The exact rule.**  `Inv` implies `P` and is preserved by good steps; a bad step out of an
    `Inv` state lands outside `P`.  Then `P` holds throughout exactly the runs of good steps. -/
theorem throughout_iff_along (hP : ∀ s, Inv s → P s)
    (hstep : ∀ s e s', Inv s → good s e → step s e = some s' → Inv s')
    (hbad : ∀ s e s', Inv s → ¬ good s e → step s e = some s' → ¬ P s') {s : σ} {es : List ε}
    (h0 : Inv s) : Throughout step P s es ↔ Along step good s es := by
  constructor
  · intro h
    induction es generalizing s with
    | nil => trivial
    | cons e es ih =>
      intro s' hs'
      have hrest := h.2 s' hs'
      -- were the step bad, the very next state would already be outside `P`
      have hg : good s e := Classical.byContradiction fun hb =>
        hbad s e s' h0 hb hs' (throughout_head hrest)
      exact ⟨hg, ih (hstep s e s' h0 hg hs') hrest⟩
  · intro h
    exact throughout_mono hP (throughout_of_along hstep h0 h)

/-- **The exact rule for a property of steps.**  Good steps preserve `Inv`, and in an `Inv` state the
    property holds of a step iff the step is good. -/
theorem along_iff_along {Q : σ → ε → Prop}
    (hstep : ∀ s e s', Inv s → good s e → step s e = some s' → Inv s')
    (hiff : ∀ s e s', Inv s → step s e = some s' → (Q s e ↔ good s e)) {s : σ} {es : List ε}
    (h0 : Inv s) : Along step Q s es ↔ Along step good s es := by
  constructor
  · intro h
    induction es generalizing s with
    | nil => trivial
    | cons e es ih =>
      intro s' hs'
      obtain ⟨hq, hrest⟩ := h s' hs'
      have hg : good s e := (hiff s e s' h0 hs').mp hq
      exact ⟨hg, ih (hstep s e s' h0 hg hs') hrest⟩
  · intro h
    induction es generalizing s with
    | nil => trivial
    | cons e es ih =>
      intro s' hs'
      obtain ⟨hg, hrest⟩ := h s' hs'
      exact ⟨(hiff s e s' h0 hs').mpr hg, ih (hstep s e s' h0 hg hs') hrest⟩

/-- Two conditions that agree on the good steps out of `Inv` states, along a run of good steps. -/
theorem along_iff_of_along {Q R : σ → ε → Prop}
    (hstep : ∀ s e s', Inv s → good s e → step s e = some s' → Inv s')
    (hiff : ∀ s e s', Inv s → good s e → step s e = some s' → (Q s e ↔ R s e)) {s : σ}
    {es : List ε} (h0 : Inv s) (h : Along step good s es) :
    Along step Q s es ↔ Along step R s es := by
  induction es generalizing s with
  | nil => exact Iff.rfl
  | cons e es ih =>
    refine forall_congr' fun s' => imp_congr_right fun hs' => ?_
    obtain ⟨hg, hrest⟩ := h s' hs'
    exact and_congr (hiff s e s' h0 hg hs') (ih (hstep s e s' h0 hg hs') hrest)

end Rules

/-! ## Counting loops -/

/-- The rule of a loop that counts from 0 to `n`: what its body takes from one index to the next
    holds of `n` at the end. -/
theorem loop_rule {P : Nat → σ → Prop} {g : σ → Nat → σ} {n : Nat} {s : σ} (h0 : P 0 s)
    (hstep : ∀ i s, i < n → P i s → P (i + 1) (g s i)) : P n ((List.range n).foldl g s) := by
  induction n with
  | zero => exact h0
  | succ n ih =>
    rw [List.range_succ, List.foldl_append]
    exact hstep n _ (Nat.lt_succ_self n) (ih fun i s hi => hstep i s (Nat.lt_succ_of_lt hi))

end ByteVerse.Run
