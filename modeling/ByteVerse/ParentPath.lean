/-
  Following a parent function from a node up to a given ancestor, over an arbitrary type.

  `Follows parent a b l`: going from `a` to `parent a`, `parent (parent a)`, ... one meets `b`
  for the first time after the nodes `l` (`a` first, `b` last).  The list is determined by the
  ends (`Follows.unique`), repeats no node (`Follows.nodup`) and depends on `parent` only at its
  nodes other than `b` (`Follows.congr`).
-/
import Mathlib.Data.List.Nodup
import Mathlib.Logic.Function.Basic

namespace ByteVerse.ParentPath

variable {α : Type}

/-- The nodes met by following `parent` from the first node up to the second. -/
inductive Follows (parent : α → α) : α → α → List α → Prop
  | stop (b : α) : Follows parent b b [b]
  | up {a b : α} {l : List α} (hab : a ≠ b) (h : Follows parent (parent a) b l) :
      Follows parent a b (a :: l)

variable {parent parent' : α → α} {a b : α} {l l' : List α}

/-- The path starts at its first end. -/
theorem Follows.eq_cons (h : Follows parent a b l) : ∃ l', l = a :: l' := by
  cases h with
  | stop => exact ⟨[], rfl⟩
  | up hab h => exact ⟨_, rfl⟩

theorem Follows.head_mem (h : Follows parent a b l) : a ∈ l := by
  obtain ⟨l', rfl⟩ := h.eq_cons
  exact List.mem_cons_self

theorem Follows.last_mem (h : Follows parent a b l) : b ∈ l := by
  induction h with
  | stop b => exact List.mem_singleton_self b
  | up _ _ ih => exact List.mem_cons_of_mem _ ih

/-- The two ends determine the path. -/
theorem Follows.unique (h : Follows parent a b l) (h' : Follows parent a b l') : l = l' := by
  induction h generalizing l' with
  | stop b =>
    cases h' with
    | stop => rfl
    | up hab _ => exact absurd rfl hab
  | up hab _ ih =>
    cases h' with
    | stop => exact absurd rfl hab
    | up _ h' => rw [ih h']

/-- From a path that has reached its end there is nothing more to follow. -/
theorem Follows.eq_singleton (h : Follows parent b b l) : l = [b] :=
  h.unique (Follows.stop b)

/-- A path that has not reached its end goes on from the parent. -/
theorem Follows.tail (h : Follows parent a b l) (hab : a ≠ b) :
    ∃ l', l = a :: l' ∧ Follows parent (parent a) b l' := by
  cases h with
  | stop => exact absurd rfl hab
  | up _ h => exact ⟨_, rfl, h⟩

/-- Every node of a path starts a path to the same end, no longer than the whole. -/
theorem Follows.suffix (h : Follows parent a b l) {c : α} (hc : c ∈ l) :
    ∃ l', Follows parent c b l' ∧ l'.length ≤ l.length := by
  induction h with
  | stop b =>
    obtain rfl := List.mem_singleton.mp hc
    exact ⟨[c], Follows.stop c, Nat.le_refl _⟩
  | @up a b l hab h ih =>
    rcases List.mem_cons.mp hc with rfl | hc
    · exact ⟨c :: l, Follows.up hab h, Nat.le_refl _⟩
    · obtain ⟨l', hl', hlen⟩ := ih hc
      exact ⟨l', hl', Nat.le_succ_of_le hlen⟩

/-- A path meets no node twice: the path from the second meeting would be the whole path. -/
theorem Follows.nodup (h : Follows parent a b l) : l.Nodup := by
  induction h with
  | stop b => exact List.nodup_singleton b
  | @up a b l hab h ih =>
    refine List.nodup_cons.mpr ⟨fun ha => ?_, ih⟩
    obtain ⟨l', hl', hlen⟩ := h.suffix ha
    have heq : l' = a :: l := hl'.unique (Follows.up hab h)
    rw [heq, List.length_cons] at hlen
    omega

/-- The path depends on the parents of its nodes only, and not on the parent of its end. -/
theorem Follows.congr (h : Follows parent a b l)
    (hp : ∀ c ∈ l, c ≠ b → parent' c = parent c) : Follows parent' a b l := by
  induction h with
  | stop b => exact Follows.stop b
  | @up a b l hab h ih =>
    refine Follows.up hab ?_
    rw [hp a List.mem_cons_self hab]
    exact ih fun c hc => hp c (List.mem_cons_of_mem a hc)

/-- The parent of a node other than the end is on the path. -/
theorem Follows.parent_mem (h : Follows parent a b l) {c : α} (hc : c ∈ l) (hcb : c ≠ b) :
    parent c ∈ l := by
  induction h with
  | stop b => exact absurd (List.mem_singleton.mp hc) hcb
  | @up a b l hab h ih =>
    rcases List.mem_cons.mp hc with rfl | hc
    · exact List.mem_cons_of_mem c h.head_mem
    · exact List.mem_cons_of_mem a (ih hc hcb)

end ByteVerse.ParentPath
