/-
  Tables of slots handed out lowest-free-first, over an arbitrary `used : Nat → Bool`.

  * `firstFree used lo hi`: the lowest free slot in `lo ≤ i < hi`, `none` when there is none;
  * `usedCount used n`: how many of the slots `0 .. n-1` are used;
  * `Packed used n`: the used slots among `0 .. n-1` are an initial segment, so that comparing an
    index with the COUNT is the same as asking whether the slot is used.

  Taking the lowest free slot keeps a table packed; releasing a used slot keeps it packed exactly
  when it is the last one (`packed_release_iff`).
-/
import Mathlib.Data.List.Basic
import Mathlib.Logic.Function.Basic

namespace ByteVerse.SlotTable

/-- The lowest free slot `i` with `lo ≤ i < hi`: a `for` loop that breaks at the first free one. -/
def firstFree (used : Nat → Bool) (lo hi : Nat) : Option Nat :=
  (List.range' lo (hi - lo)).find? fun i => !used i

/-- The number of used slots among `0 .. n-1`. -/
def usedCount (used : Nat → Bool) (n : Nat) : Nat := (List.range n).countP used

/-- The used slots among `0 .. n-1` are exactly the first `usedCount used n` ones. -/
def Packed (used : Nat → Bool) (n : Nat) : Prop :=
  ∀ i, i < n → (used i = true ↔ i < usedCount used n)

/-! ## The lowest free slot -/

theorem firstFree_eq_some_iff {used : Nat → Bool} {lo hi i : Nat} :
    firstFree used lo hi = some i ↔
      lo ≤ i ∧ i < hi ∧ used i = false ∧ ∀ j, lo ≤ j → j < i → used j = true := by
  unfold firstFree
  rw [List.find?_range'_eq_some]
  simp only [List.mem_range'_1, Bool.not_eq_true', Bool.not_not]
  constructor
  · rintro ⟨hfree, ⟨hlo, hhi⟩, hbelow⟩
    exact ⟨hlo, by omega, hfree, hbelow⟩
  · rintro ⟨hlo, hhi, hfree, hbelow⟩
    exact ⟨hfree, ⟨hlo, by omega⟩, hbelow⟩

theorem firstFree_eq_none_iff {used : Nat → Bool} {lo hi : Nat} :
    firstFree used lo hi = none ↔ ∀ i, lo ≤ i → i < hi → used i = true := by
  unfold firstFree
  rw [List.find?_eq_none]
  simp only [List.mem_range'_1, Bool.not_eq_true', Bool.not_eq_false]
  constructor
  · intro h i hlo hhi
    exact h i ⟨hlo, by omega⟩
  · rintro h i ⟨hlo, hhi⟩
    exact h i hlo (by omega)

/-! ## The count -/

theorem usedCount_succ (used : Nat → Bool) (n : Nat) :
    usedCount used (n + 1) = usedCount used n + if used n then 1 else 0 := by
  simp [usedCount, List.range_succ, List.countP_append, List.countP_cons]

theorem usedCount_le (used : Nat → Bool) (n : Nat) : usedCount used n ≤ n := by
  have h : (List.range n).countP used ≤ (List.range n).length := List.countP_le_length
  rwa [List.length_range] at h

theorem usedCount_congr {used used' : Nat → Bool} {n : Nat} (h : ∀ i, i < n → used i = used' i) :
    usedCount used n = usedCount used' n := by
  induction n with
  | zero => rfl
  | succ n ih =>
    rw [usedCount_succ, usedCount_succ, ih fun i hi => h i (by omega), h n (by omega)]

/-- Marking a slot moves the count by exactly that slot's change. -/
theorem usedCount_update (used : Nat → Bool) {i n : Nat} (b : Bool) (hi : i < n) :
    usedCount (Function.update used i b) n + (if used i then 1 else 0)
      = usedCount used n + (if b then 1 else 0) := by
  induction n with
  | zero => omega
  | succ n ih =>
    rw [usedCount_succ, usedCount_succ]
    rcases Nat.lt_or_ge i n with hlt | hge
    · have h := ih hlt
      rw [Function.update_of_ne (show n ≠ i by omega)]
      omega
    · obtain rfl : i = n := by omega
      have hcount : usedCount (Function.update used i b) i = usedCount used i :=
        usedCount_congr fun j hj => Function.update_of_ne (show j ≠ i by omega) b used
      rw [hcount, Function.update_self]
      omega

theorem usedCount_take {used : Nat → Bool} {i n : Nat} (hi : i < n) (hfree : used i = false) :
    usedCount (Function.update used i true) n = usedCount used n + 1 := by
  have h := usedCount_update used true hi
  simpa [hfree] using h

theorem usedCount_release {used : Nat → Bool} {i n : Nat} (hi : i < n) (hused : used i = true) :
    usedCount (Function.update used i false) n + 1 = usedCount used n := by
  have h := usedCount_update used false hi
  simpa [hused] using h

/-- The table is full exactly when every slot is used. -/
theorem usedCount_eq_iff {used : Nat → Bool} {n : Nat} :
    usedCount used n = n ↔ ∀ i, i < n → used i = true := by
  induction n with
  | zero => exact ⟨fun _ i hi => absurd hi (Nat.not_lt_zero i), fun _ => rfl⟩
  | succ n ih =>
    have hle := usedCount_le used n
    rw [usedCount_succ]
    constructor
    · intro h i hi
      cases hn : used n with
      | false => rw [hn] at h; simp at h; omega
      | true =>
        rw [hn] at h
        rcases Nat.lt_or_ge i n with hlt | hge
        · exact ih.mp (by simpa using h) i hlt
        · obtain rfl : i = n := by omega
          exact hn
    · intro h
      rw [ih.mpr fun i hi => h i (by omega), h n (by omega)]
      rfl

/-- Slots `0 .. m-1` used means the count is at least `m`. -/
theorem le_usedCount {used : Nat → Bool} {m n : Nat} (hmn : m ≤ n)
    (h : ∀ i, i < m → used i = true) : m ≤ usedCount used n := by
  induction n with
  | zero => omega
  | succ n ih =>
    rw [usedCount_succ]
    rcases Nat.lt_or_ge n m with hlt | hge
    · obtain rfl : m = n + 1 := by omega
      have hcount := usedCount_eq_iff.mpr fun i (hi : i < n) => h i (by omega)
      rw [hcount, h n (by omega)]
      simp
    · have := ih hge
      omega

/-! ## Packed tables -/

/-- In a packed table the lowest free slot is the one right after the used ones. -/
theorem Packed.firstFree_eq {used : Nat → Bool} {lo n i : Nat} (hp : Packed used n)
    (hlo : lo ≤ usedCount used n) (hi : firstFree used lo n = some i) :
    i = usedCount used n := by
  obtain ⟨hloi, hin, hfree, hbelow⟩ := firstFree_eq_some_iff.mp hi
  have hge : usedCount used n ≤ i := by
    by_contra hlt
    have hused := (hp i hin).mpr (by omega)
    rw [hfree] at hused
    cases hused
  rcases Nat.eq_or_lt_of_le hge with heq | hlt
  · exact heq.symm
  · -- a lower slot `usedCount` would be used, against packedness
    have hused := hbelow (usedCount used n) hlo hlt
    have := (hp _ (by omega)).mp hused
    omega

/-- Taking the lowest free slot keeps a table packed. -/
theorem Packed.take {used : Nat → Bool} {lo n i : Nat} (hp : Packed used n)
    (hlo : lo ≤ usedCount used n) (hi : firstFree used lo n = some i) :
    Packed (Function.update used i true) n := by
  have hieq := hp.firstFree_eq hlo hi
  obtain ⟨-, hin, hfree, -⟩ := firstFree_eq_some_iff.mp hi
  intro j hj
  rw [usedCount_take hin hfree]
  by_cases hji : j = i
  · subst hji
    rw [Function.update_self]
    exact ⟨fun _ => by omega, fun _ => rfl⟩
  · rw [Function.update_of_ne hji, hp j hj]
    omega

/-- **Releasing a used slot keeps a packed table packed exactly when it is the last one.** -/
theorem Packed.release_iff {used : Nat → Bool} {n i : Nat} (hp : Packed used n) (hi : i < n)
    (hused : used i = true) :
    Packed (Function.update used i false) n ↔ i + 1 = usedCount used n := by
  have hlt := (hp i hi).mp hused
  have hcount := usedCount_release hi hused
  have hle := usedCount_le used n
  constructor
  · intro h
    -- the slot below the old count is still used unless it is `i` itself
    have hlast := h (usedCount used n - 1) (by omega)
    by_contra hne
    rw [Function.update_of_ne (by omega), hp _ (by omega)] at hlast
    omega
  · intro heq j hj
    by_cases hji : j = i
    · subst hji
      rw [Function.update_self]
      simp
      omega
    · rw [Function.update_of_ne hji, hp j hj]
      omega

end ByteVerse.SlotTable
