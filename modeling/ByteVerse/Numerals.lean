/-
  Numerals in a radix, over an arbitrary type of digit characters.

  `numeral b digit n` is the canonical numeral of `n`: the digits of `Nat.digits`, most significant
  first, and one digit for zero.  `parse b value` reads a numeral.  It gives the number back, also when
  zeros are put in front (`parse_zeros_append_numeral`); a number below `b ^ k` has at most `k` digits
  (`length_numeral_le`), and a numeral has no leading zero (`head_numeral`).  `IsNumeral` says all that
  of a text without the digits.
-/
import Mathlib.Data.Nat.Digits.Lemmas

namespace ByteVerse.Numerals

variable {α : Type}

/-- The numeral of `n` in radix `b`, with `digit d` for the digit `d`. -/
def numeral (b : Nat) (digit : Nat → α) (n : Nat) : List α :=
  if n = 0 then [digit 0] else ((Nat.digits b n).map digit).reverse

/-- The digits `cs` behind a number. -/
def parseFrom (b : Nat) (value : α → Option Nat) (n : Nat) : List α → Option Nat
  | [] => some n
  | c :: cs =>
    match value c with
    | none => none
    | some d => if d < b then parseFrom b value (b * n + d) cs else none

/-- The number that a text of digits in radix `b` stands for; `none` when it is empty or no numeral. -/
def parse (b : Nat) (value : α → Option Nat) (cs : List α) : Option Nat :=
  if cs.isEmpty then none else parseFrom b value 0 cs

section Numeral

variable {b : Nat} {digit : Nat → α} {value : α → Option Nat} {n : Nat}

theorem numeral_ne_nil (b : Nat) (digit : Nat → α) (n : Nat) : numeral b digit n ≠ [] := by
  unfold numeral
  split
  · exact List.cons_ne_nil _ _
  · rename_i hn
    rw [ne_eq, List.reverse_eq_nil_iff, List.map_eq_nil_iff, Nat.digits_eq_nil_iff_eq_zero]
    exact hn

/-- Every character of a numeral is a digit of its radix. -/
theorem mem_numeral (hb : 1 < b) {c : α} (hc : c ∈ numeral b digit n) : ∃ d < b, c = digit d := by
  unfold numeral at hc
  split at hc
  · exact ⟨0, by omega, List.mem_singleton.mp hc⟩
  · rw [List.mem_reverse] at hc
    obtain ⟨d, hd, rfl⟩ := List.mem_map.mp hc
    exact ⟨d, Nat.digits_lt_base hb hd, rfl⟩

theorem length_numeral_le (hb : 1 < b) {k : Nat} (hk : 0 < k) (hn : n < b ^ k) :
    (numeral b digit n).length ≤ k := by
  unfold numeral
  split
  · exact hk
  · rw [List.length_reverse, List.length_map]
    exact (Nat.digits_length_le_iff hb n).mpr hn

/-- A number other than zero has no leading zero. -/
theorem head_numeral (hdigit : ∀ d < b, digit d = digit 0 → d = 0) (hb : 1 < b) (hn : n ≠ 0) :
    (numeral b digit n).head? ≠ some (digit 0) := by
  intro hhead
  rw [numeral, if_neg hn, List.head?_reverse, List.getLast?_map, Option.map_eq_some_iff] at hhead
  obtain ⟨d, hd, hzero⟩ := hhead
  have hne : Nat.digits b n ≠ [] := Nat.digits_ne_nil_iff_ne_zero.mpr hn
  rw [List.getLast?_eq_some_getLast hne] at hd
  obtain rfl := Option.some.inj hd
  have hlt := Nat.digits_lt_base hb (List.getLast_mem hne)
  exact Nat.getLast_digit_ne_zero b hn (hdigit _ hlt hzero)

/-! ## Reading a numeral -/

theorem parseFrom_append (cs cs' : List α) :
    parseFrom b value n (cs ++ cs') = (parseFrom b value n cs).bind fun m => parseFrom b value m cs' := by
  induction cs generalizing n with
  | nil => rfl
  | cons c cs ih =>
    rw [List.cons_append, parseFrom, parseFrom]
    rcases value c with _ | d
    · rfl
    · simp only
      split
      · exact ih
      · rfl

/-- Digits, least significant first. -/
theorem parseFrom_reverse (hvalue : ∀ d < b, value (digit d) = some d) {ds : List Nat}
    (hds : ∀ d ∈ ds, d < b) :
    parseFrom b value 0 (ds.map digit).reverse = some (Nat.ofDigits b ds) := by
  induction ds with
  | nil => rfl
  | cons d ds ih =>
    obtain ⟨hd, hrest⟩ := List.forall_mem_cons.mp hds
    rw [List.map_cons, List.reverse_cons, parseFrom_append, ih hrest, Option.bind_some, parseFrom,
      hvalue d hd]
    simp only [if_pos hd, parseFrom]
    rw [Nat.ofDigits_cons, Nat.add_comm]

/-- **A numeral read back**, also with zeros in front. -/
theorem parse_zeros_append_numeral (hvalue : ∀ d < b, value (digit d) = some d) (hb : 1 < b) (k : Nat) :
    parse b value (List.replicate k (digit 0) ++ numeral b digit n) = some n := by
  have hne : List.replicate k (digit 0) ++ numeral b digit n ≠ [] :=
    List.append_ne_nil_of_right_ne_nil _ (numeral_ne_nil b digit n)
  -- its digits, least significant first
  obtain ⟨ds, htext, hds, hn⟩ : ∃ ds : List Nat,
      List.replicate k (digit 0) ++ numeral b digit n = (ds.map digit).reverse ∧
        (∀ d ∈ ds, d < b) ∧ Nat.ofDigits b ds = n := by
    unfold numeral
    by_cases hzero : n = 0
    · refine ⟨List.replicate (k + 1) 0, ?_, ?_, ?_⟩
      · rw [if_pos hzero, List.map_replicate, List.reverse_replicate, List.replicate_succ']
      · intro d hd
        rw [List.eq_of_mem_replicate hd]
        omega
      · rw [Nat.ofDigits_replicate_zero, hzero]
    · refine ⟨Nat.digits b n ++ List.replicate k 0, ?_, ?_, ?_⟩
      · rw [if_neg hzero, List.map_append, List.reverse_append, List.map_replicate,
          List.reverse_replicate]
      · intro d hd
        rcases List.mem_append.mp hd with hd | hd
        · exact Nat.digits_lt_base hb hd
        · rw [List.eq_of_mem_replicate hd]
          omega
      · rw [Nat.ofDigits_append_replicate_zero, Nat.ofDigits_digits]
  rw [parse, if_neg (by simpa using hne), htext, parseFrom_reverse hvalue hds, hn]

/-- A text is the canonical numeral of a number: its characters are digits of the radix, the first of
    them is no zero unless it is the only one, and it is read as that number. -/
structure IsNumeral (b : Nat) (digit : Nat → α) (value : α → Option Nat) (n : Nat) (cs : List α) :
    Prop where
  digits : ∀ c ∈ cs, ∃ d < b, c = digit d
  canonical : cs = [digit 0] ∨ cs.head? ≠ some (digit 0)
  parses : parse b value cs = some n

theorem isNumeral_numeral (hvalue : ∀ d < b, value (digit d) = some d) (hb : 1 < b) (n : Nat) :
    IsNumeral b digit value n (numeral b digit n) := by
  refine ⟨fun c hc => mem_numeral hb hc, ?_, parse_zeros_append_numeral hvalue hb 0⟩
  by_cases hn : n = 0
  · exact Or.inl (if_pos hn)
  · refine Or.inr (head_numeral (fun d hd heq => ?_) hb hn)
    have hzero := hvalue d hd
    rw [heq, hvalue 0 (by omega)] at hzero
    exact (Option.some.inj hzero).symm

end Numeral

end ByteVerse.Numerals
