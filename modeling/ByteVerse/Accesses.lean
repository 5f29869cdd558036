/-
  Traces of memory accesses, over arbitrary cells and values.

  A piece of code that reads and writes arrays is described by the list of its accesses, in order:

  * `Within region trace`: every cell accessed lies in the region;
  * `replay trace m`: the memory after the writes of the trace.

  `Within` splits along the trace (`within_append`, `within_cons`).  `replay_of_within` is the frame
  rule: what lies outside the region keeps its value.  `replay_copy` describes a loop that stores the
  values `v 0, v 1, ...` at distinct cells `f 0, f 1, ...`; `loopTrace` one whose accesses depend on a
  state that the rounds change.
-/
import Mathlib.Data.List.Basic
import Mathlib.Logic.Function.Basic

namespace ByteVerse.Accesses

/-- One access: a read, or a write of a value. -/
inductive Access (κ α : Type) where
  | read (cell : κ)
  | write (cell : κ) (value : α)
  deriving DecidableEq

variable {κ α : Type}

namespace Access

/-- The cell accessed. -/
@[simp] def cell : Access κ α → κ
  | read c => c
  | write c _ => c

/-- The access is a write to the cell. -/
def WritesTo (c : κ) : Access κ α → Prop
  | read _ => False
  | write c' _ => c' = c

/-- The memory after the access. -/
def store [DecidableEq κ] (m : κ → α) : Access κ α → κ → α
  | read _ => m
  | write c v => fun c' => if c' = c then v else m c'

end Access

/-- Every cell accessed lies in the region. -/
def Within (region : κ → Prop) (trace : List (Access κ α)) : Prop := ∀ a ∈ trace, region a.cell

/-- The memory after the writes of a trace. -/
def replay [DecidableEq κ] (trace : List (Access κ α)) (m : κ → α) : κ → α :=
  trace.foldl Access.store m

/-! ## Regions -/

section Regions

variable {region region' : κ → Prop} {trace trace' : List (Access κ α)} {a : Access κ α}

@[simp] theorem within_nil : Within region ([] : List (Access κ α)) := by
  intro a ha
  cases ha

@[simp] theorem within_cons : Within region (a :: trace) ↔ region a.cell ∧ Within region trace :=
  List.forall_mem_cons

@[simp] theorem within_append :
    Within region (trace ++ trace') ↔ Within region trace ∧ Within region trace' :=
  List.forall_mem_append

theorem within_flatMap {β : Type} {l : List β} {f : β → List (Access κ α)} :
    Within region (l.flatMap f) ↔ ∀ b ∈ l, Within region (f b) := by
  constructor
  · intro h b hb a ha
    exact h a (List.mem_flatMap.mpr ⟨b, hb, ha⟩)
  · intro h a ha
    obtain ⟨b, hb, ha⟩ := List.mem_flatMap.mp ha
    exact h b hb a ha

/-- A copy loop: the cells `f 0, f 1, ...` get the values `v 0, v 1, ...`, each read from its
    source before. -/
def copy (source : Nat → κ) (f : Nat → κ) (v : Nat → α) (n : Nat) : List (Access κ α) :=
  (List.range n).flatMap fun i => [.read (source i), .write (f i) (v i)]

/-- A loop that reads the cells `f 0, f 1, ...`. -/
def loadAll (f : Nat → κ) (n : Nat) : List (Access κ α) := (List.range n).map fun i => .read (f i)

/-- A loop that stores the values `v 0, v 1, ...` at the cells `f 0, f 1, ...`. -/
def storeAll (f : Nat → κ) (v : Nat → α) (n : Nat) : List (Access κ α) :=
  (List.range n).map fun i => .write (f i) (v i)

@[simp] theorem within_loadAll {f : Nat → κ} {n : Nat} :
    Within region (loadAll f n : List (Access κ α)) ↔ ∀ i < n, region (f i) := by
  unfold Within loadAll
  simp only [List.forall_mem_map, List.mem_range, Access.cell]

@[simp] theorem within_storeAll {f : Nat → κ} {v : Nat → α} {n : Nat} :
    Within region (storeAll f v n) ↔ ∀ i < n, region (f i) := by
  unfold Within storeAll
  simp only [List.forall_mem_map, List.mem_range, Access.cell]

/-- The first round of a copy loop. -/
theorem copy_succ (source f : Nat → κ) (v : Nat → α) (n : Nat) :
    copy source f v (n + 1) = .read (source 0) :: .write (f 0) (v 0) ::
      copy (fun i => source (i + 1)) (fun i => f (i + 1)) (fun i => v (i + 1)) n := by
  unfold copy
  rw [List.range_succ_eq_map, List.flatMap_cons, List.flatMap_map]
  rfl

theorem within_copy {region : κ → Prop} {source f : Nat → κ} {v : Nat → α} {n : Nat} :
    Within region (copy source f v n) ↔ ∀ i < n, region (source i) ∧ region (f i) := by
  unfold copy
  rw [within_flatMap]
  simp only [List.mem_range, within_cons, Access.cell, within_nil, and_true]

end Regions

/-! ## The memory afterwards -/

section Replay

variable [DecidableEq κ] {trace trace' : List (Access κ α)} {m : κ → α} {c : κ}

@[simp] theorem replay_nil : replay ([] : List (Access κ α)) m = m := rfl

@[simp] theorem replay_read : replay (.read c :: trace) m = replay trace m := rfl

theorem replay_write (v : α) :
    replay (.write c v :: trace) m = replay trace fun c' => if c' = c then v else m c' := rfl

theorem replay_update (v : α) :
    replay (.write c v :: trace) m = replay trace (Function.update m c v) := by
  rw [replay_write]
  congr 1
  funext c'
  exact (Function.update_apply m c v c').symm

theorem replay_append : replay (trace ++ trace') m = replay trace' (replay trace m) :=
  List.foldl_append

/-- A cell that is not written keeps its value. -/
theorem replay_of_not_written (h : ∀ a ∈ trace, ¬ a.WritesTo c) : replay trace m c = m c := by
  induction trace generalizing m with
  | nil => rfl
  | cons a trace ih =>
    have hrest : ∀ b ∈ trace, ¬ b.WritesTo c := fun b hb => h b (List.mem_cons_of_mem _ hb)
    cases a with
    | read d => exact ih hrest
    | write d v =>
      have hne : ¬ d = c := h _ List.mem_cons_self
      exact (ih hrest).trans (if_neg fun heq => hne heq.symm)

/-- A cell that is written, with one value only, has that value. -/
theorem replay_of_written {v : α} (hw : .write c v ∈ trace)
    (hall : ∀ v', .write c v' ∈ trace → v' = v) : replay trace m c = v := by
  induction trace generalizing m with
  | nil => cases hw
  | cons a trace ih =>
    have hrest : ∀ v', .write c v' ∈ trace → v' = v := fun v' h =>
      hall v' (List.mem_cons_of_mem _ h)
    by_cases hlater : .write c v ∈ trace
    · exact ih hlater hrest
    · -- it is the first access, and no later one writes the cell
      obtain rfl : .write c v = a := (List.mem_cons.mp hw).resolve_right hlater
      rw [replay_write, replay_of_not_written]
      · exact if_pos rfl
      · intro b hb hbw
        cases b with
        | read d => exact hbw
        | write d v' =>
          obtain rfl : d = c := hbw
          rw [hrest v' hb] at hb
          exact hlater hb

/-- **The frame rule**: outside the region of a trace nothing changes. -/
theorem replay_of_within (region : κ → Prop) (h : Within region trace) (hc : ¬ region c) :
    replay trace m c = m c := by
  refine replay_of_not_written fun a ha hw => hc ?_
  have hcell := h a ha
  cases a with
  | read d => exact hw.elim
  | write d v =>
    have heq : d = c := hw
    rwa [← heq]

@[simp] theorem replay_loadAll (f : Nat → κ) (n : Nat) : replay (loadAll f n) m = m := by
  funext c
  refine replay_of_not_written ?_
  unfold loadAll
  intro a ha
  obtain ⟨i, -, rfl⟩ := List.mem_map.mp ha
  exact not_false

theorem replay_storeAll {f : Nat → κ} (hf : Function.Injective f) (v : Nat → α) {n i : Nat}
    (hi : i < n) : replay (storeAll f v n) m (f i) = v i := by
  unfold storeAll
  refine replay_of_written (List.mem_map.mpr ⟨i, List.mem_range.mpr hi, rfl⟩) ?_
  intro v' hv'
  obtain ⟨j, -, hj⟩ := List.mem_map.mp hv'
  injection hj with hcell hvalue
  rw [← hvalue, hf hcell]

theorem replay_copy {source f : Nat → κ} (hf : Function.Injective f) (v : Nat → α) (n i : Nat) :
    replay (copy source f v n) m (f i) = if i < n then v i else m (f i) := by
  induction n with
  | zero => rfl
  | succ n ih =>
    unfold copy at ih ⊢
    rw [List.range_succ, List.flatMap_append, replay_append, List.flatMap_singleton, replay_read,
      replay_write, replay_nil]
    simp only [hf.eq_iff, ih]
    by_cases hin : i = n
    · rw [if_pos hin, if_pos (by omega), hin]
    · rw [if_neg hin]
      by_cases hlt : i < n
      · rw [if_pos hlt, if_pos (by omega)]
      · rw [if_neg hlt, if_neg (by omega)]

end Replay

/-! ## Loops over a state -/

section Loops

variable {σ ι : Type} {region : κ → Prop} {g : σ → ι → σ} {body : σ → ι → List (Access κ α)}

/-- The accesses of a loop with body `g`, each round's depending on the state it finds. -/
def loopTrace (g : σ → ι → σ) (body : σ → ι → List (Access κ α)) : List ι → σ → List (Access κ α)
  | [], _ => []
  | i :: l, s => body s i ++ loopTrace g body l (g s i)

theorem within_loopTrace {l : List ι} (h : ∀ s, ∀ i ∈ l, Within region (body s i)) (s : σ) :
    Within region (loopTrace g body l s) := by
  induction l generalizing s with
  | nil => exact within_nil
  | cons i l ih =>
    refine within_append.mpr ⟨h s i List.mem_cons_self, ?_⟩
    exact ih (fun s j hj => h s j (List.mem_cons_of_mem i hj)) (g s i)

/-- When every round does its accesses and nothing else, so does the loop. -/
theorem foldl_loopTrace {perform : σ → Access κ α → σ}
    (h : ∀ s i, g s i = (body s i).foldl perform s) (l : List ι) (s : σ) :
    l.foldl g s = (loopTrace g body l s).foldl perform s := by
  induction l generalizing s with
  | nil => rfl
  | cons i l ih =>
    rw [List.foldl_cons, loopTrace, List.foldl_append, ← h s i]
    exact ih (g s i)

end Loops

end ByteVerse.Accesses
