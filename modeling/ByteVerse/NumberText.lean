/-
  Numbers as text: `itoa`, `strrev`, `strlen` and `puts` of `lib.c`, and the conversions of `printf`.

  Memory is a function from addresses to bytes.  `itoa` writes the digits least significant first,
  then a NUL, and has `strrev` reverse them in place; so after its loop the memory holds the digits of
  `Nat.digits`, and after it the numeral (`itoa_spec`), whatever was in the buffer before.  The loops
  are given as many rounds as the longest numeral needs, 32 digits in radix 2, and `none` is a loop that
  has not ended by then; the radixes from 2 to 36 never get there.
-/
import ByteVerse.Numerals
import Mathlib.Data.List.GetD

set_option linter.unusedVariables false

namespace ByteVerse

open Numerals

/-! ## The functions -/

/-- `"0123456789ABCDEFGHIJKLMNOPQRSTUVWXYZ"`. -/
def lookup : List UInt8 :=
  [48, 49, 50, 51, 52, 53, 54, 55, 56, 57, 65, 66, 67, 68, 69, 70, 71, 72, 73, 74, 75, 76, 77, 78, 79,
    80, 81, 82, 83, 84, 85, 86, 87, 88, 89, 90]

def digitChar (d : Nat) : UInt8 := lookup.getD d 0

/-- The digit loop of `itoa`, from `newbuf` on: the pointer behind the digits, and the memory. -/
def itoaLoop (radix : UInt32) :
    Nat → UInt32 → Int → (Int → UInt8) → Option (Int × (Int → UInt8))
  | 0, newval, newbuf, m => if newval = 0 then some (newbuf, m) else none
  | rounds + 1, newval, newbuf, m =>
    if newval = 0 then some (newbuf, m)
    else
      itoaLoop radix rounds (newval / radix) (newbuf + 1)
        (Function.update m newbuf (digitChar (newval % radix).toNat))

/-- `strlen` of the string at address `s`; it looks at `rounds` bytes at most. -/
def strlenAt (m : Int → UInt8) (s : Int) (rounds : Nat) : Option Nat :=
  (List.range rounds).find? fun i => m (s + i) = 0

/-- The loop of `strrev`. -/
def strrevLoop (s : Int) : Nat → Int → Int → (Int → UInt8) → Option (Int → UInt8)
  | 0, beg, fin, m => if beg < fin then none else some m
  | rounds + 1, beg, fin, m =>
    if beg < fin then
      let tmp := m (s + fin)
      let m := Function.update m (s + fin) (m (s + beg))
      strrevLoop s rounds (beg + 1) (fin - 1) (Function.update m (s + beg) tmp)
    else some m

/-- The number of bytes that the longest numeral of 32 bits takes with its NUL. -/
def maxNumeral : Nat := 33

def strrev (s : Int) (m : Int → UInt8) : Option (Int → UInt8) :=
  (strlenAt m s maxNumeral).bind fun len => strrevLoop s len 0 ((len : Int) - 1) m

/-- `itoa(value, buf, radix)`: the memory after it. -/
def itoa (value : UInt32) (buf : Int) (radix : UInt32) (m : Int → UInt8) : Option (Int → UInt8) :=
  if value = 0 then some (Function.update (Function.update m buf 48) (buf + 1) 0)
  else
    (itoaLoop radix 32 value buf m).bind fun (newbuf, m) => strrev buf (Function.update m newbuf 0)

/-- The characters that `puts(s)` prints. -/
def putsText (m : Int → UInt8) (s : Int) : Option (List UInt8) :=
  (strlenAt m s maxNumeral).map fun len => (List.range len).map fun i => m (s + (i : Nat))

/-! ## The conversions of `printf` -/

/-- `%u`; `conv_buf` is not initialised. -/
def unsignedText (v : UInt32) (convBuf : Int → UInt8) : Option (List UInt8) :=
  (itoa v 0 10 convBuf).bind fun m => putsText m 0

/-- `%d`: the sign bit is looked at, and the negation is that of 32 bits. -/
def signedText (v : UInt32) (convBuf : Int → UInt8) : Option (List UInt8) :=
  if v.toInt32 < 0 then (itoa (-v) 1 10 (Function.update convBuf 0 45)).bind fun m => putsText m 0
  else (itoa v 0 10 convBuf).bind fun m => putsText m 0

/-- `%x`. -/
def hexText (v : UInt32) (convBuf : Int → UInt8) : Option (List UInt8) :=
  (itoa v 0 16 convBuf).bind fun m => putsText m 0

/-- The loop of `%#x` that writes zeros in front of the digits at `conv_buf[8]`. -/
def padZeros (starting : Nat) (m : Int → UInt8) : Int → UInt8 :=
  (List.range' starting (8 - starting)).foldl (fun m (i : Nat) => Function.update m i 48) m

/-- `%#x`: as many zeros as the eight digits lack, from `conv_buf[starting_index]` on. -/
def alternateText (v : UInt32) (convBuf : Int → UInt8) : Option (List UInt8) :=
  (itoa v 8 16 convBuf).bind fun m =>
    (strlenAt m 8 maxNumeral).bind fun starting => putsText (padZeros starting m) starting

/-! ## Strings in memory -/

/-- At address `s` the memory holds a string. -/
structure HoldsString (m : Int → UInt8) (s : Int) (cs : List UInt8) : Prop where
  chars : ∀ i (h : i < cs.length), m (s + i) = cs[i]
  nul : m (s + cs.length) = 0
  noNul : 0 ∉ cs

section Strings

variable {m : Int → UInt8} {s : Int} {cs : List UInt8}

theorem HoldsString.strlenAt (h : HoldsString m s cs) {rounds : Nat} (hroom : cs.length < rounds) :
    strlenAt m s rounds = some cs.length := by
  rw [ByteVerse.strlenAt, List.find?_range_eq_some]
  refine ⟨?_, List.mem_range.mpr hroom, fun i hi => ?_⟩
  · simpa using h.nul
  · have hne : m (s + i) ≠ 0 := by
      rw [h.chars i hi]
      exact fun hzero => h.noNul (hzero ▸ List.getElem_mem hi)
    simpa using hne

theorem HoldsString.putsText (h : HoldsString m s cs) (hroom : cs.length < maxNumeral) :
    putsText m s = some cs := by
  rw [ByteVerse.putsText, h.strlenAt hroom, Option.map_some, Option.some.injEq]
  refine List.ext_getElem (by simp) fun i h₁ h₂ => ?_
  rw [List.getElem_map, List.getElem_range]
  exact h.chars i h₂

/-- `m'` is `m` with a text written at address `s`. -/
def Stored (m m' : Int → UInt8) (s : Int) (cs : List UInt8) : Prop :=
  ∀ p, m' p = if s ≤ p ∧ p < s + cs.length then cs.getD (p - s).toNat 0 else m p

theorem Stored.nil (m : Int → UInt8) (s : Int) : Stored m m s [] :=
  fun p => (if_neg (by rw [List.length_nil]; omega)).symm

/-- The first character, and the rest behind it. -/
theorem Stored.cons {m' : Int → UInt8} {c : UInt8} (h : Stored (Function.update m s c) m' (s + 1) cs) :
    Stored m m' s (c :: cs) := by
  intro p
  rw [h p, List.length_cons]
  by_cases hp : p = s
  · rw [if_neg (by omega), if_pos (by omega), hp, Function.update_self, Int.sub_self]
    rfl
  by_cases hrest : s + 1 ≤ p ∧ p < s + 1 + cs.length
  · rw [if_pos hrest, if_pos (by omega), show (p - s).toNat = (p - (s + 1)).toNat + 1 by omega,
      List.getD_cons_succ]
  · rw [if_neg hrest, if_neg (by omega), Function.update_of_ne hp]

/-- A text that ends with a NUL. -/
theorem Stored.holdsString {m' : Int → UInt8} (h : Stored m m' s cs) (hnul : 0 ∉ cs) :
    HoldsString (Function.update m' (s + cs.length) 0) s cs := by
  refine ⟨fun i hi => ?_, Function.update_self _ _ _, hnul⟩
  rw [Function.update_of_ne (by omega), h, if_pos (by omega),
    show (s + (i : Int) - s).toNat = i by omega, List.getD_eq_getElem cs 0 hi]

end Strings

/-! ## `strrev` -/

section Reverse

variable {m : Int → UInt8} {s : Int} {cs : List UInt8}

/-- The loop ends, with the bytes from `beg` to `fin` in the opposite order. -/
theorem strrevLoop_spec (s : Int) (rounds : Nat) :
    ∀ (beg fin : Int) (m : Int → UInt8), fin - beg ≤ 2 * rounds →
      ∃ m', strrevLoop s rounds beg fin m = some m' ∧
        ∀ p, m' p = if s + beg ≤ p ∧ p ≤ s + fin then m (2 * s + beg + fin - p) else m p := by
  -- a loop that does not begin leaves at most one byte to be reversed
  have hended : ∀ (beg fin : Int) (m : Int → UInt8), ¬ beg < fin → ∀ p,
      m p = if s + beg ≤ p ∧ p ≤ s + fin then m (2 * s + beg + fin - p) else m p := by
    intro beg fin m hle p
    by_cases hp : s + beg ≤ p ∧ p ≤ s + fin
    · rw [if_pos hp, show 2 * s + beg + fin - p = p by omega]
    · rw [if_neg hp]
  induction rounds with
  | zero =>
    intro beg fin m hrounds
    have hle : ¬ beg < fin := by omega
    exact ⟨m, if_neg hle, hended beg fin m hle⟩
  | succ rounds ih =>
    intro beg fin m hrounds
    by_cases hlt : beg < fin
    · obtain ⟨m', hloop, hbytes⟩ := ih (beg + 1) (fin - 1)
        (Function.update (Function.update m (s + fin) (m (s + beg))) (s + beg) (m (s + fin))) (by omega)
      refine ⟨m', (if_pos hlt).trans hloop, fun p => ?_⟩
      rw [hbytes]
      by_cases hfirst : p = s + beg
      · rw [if_neg (by omega), if_pos (by omega), hfirst, Function.update_self]
        congr 1
        omega
      by_cases hlast : p = s + fin
      · rw [if_neg (by omega), if_pos (by omega), hlast, Function.update_of_ne (by omega),
          Function.update_self]
        congr 1
        omega
      by_cases hinside : s + (beg + 1) ≤ p ∧ p ≤ s + (fin - 1)
      · rw [if_pos hinside, if_pos (by omega), Function.update_of_ne (by omega),
          Function.update_of_ne (by omega)]
        congr 1
        omega
      · rw [if_neg hinside, if_neg (by omega), Function.update_of_ne hfirst,
          Function.update_of_ne hlast]
    · exact ⟨m, if_neg hlt, hended beg fin m hlt⟩

/-- **`strrev`** reverses a string in place. -/
theorem strrev_spec (h : HoldsString m s cs) (hroom : cs.length < maxNumeral) :
    ∃ m', strrev s m = some m' ∧ HoldsString m' s cs.reverse ∧
      ∀ p, p < s ∨ s + cs.length ≤ p → m' p = m p := by
  obtain ⟨m', hloop, hbytes⟩ := strrevLoop_spec s cs.length 0 (cs.length - 1) m (by omega)
  refine ⟨m', ?_, ⟨fun i hi => ?_, ?_, ?_⟩, fun p hp => ?_⟩
  · rw [strrev, h.strlenAt hroom]
    exact hloop
  · rw [List.length_reverse] at hi
    rw [hbytes, if_pos (by omega), List.getElem_reverse]
    have hchar := h.chars (cs.length - 1 - i) (by omega)
    rw [← hchar]
    congr 1
    omega
  · rw [List.length_reverse, hbytes, if_neg (by omega)]
    exact h.nul
  · rw [List.mem_reverse]
    exact h.noNul
  · rw [hbytes, if_neg (by omega)]

end Reverse

/-! ## `itoa` -/

section Itoa

variable {radix : UInt32}

/-- What a digit means. -/
def digitValue (c : UInt8) : Option Nat :=
  if 48 ≤ c ∧ c ≤ 57 then some (c.toNat - 48)
  else if 65 ≤ c ∧ c ≤ 90 then some (c.toNat - 55)
  else none

/-- The characters of the table mean their places in it. -/
theorem digitValue_digitChar {d : Nat} (hd : d < 36) : digitValue (digitChar d) = some d := by
  revert d
  decide

theorem digitChar_ne_nul {d : Nat} (hd : d < 36) : digitChar d ≠ 0 := by
  revert d
  decide

/-- The digit loop ends, with the digits in memory, least significant first. -/
theorem itoaLoop_spec (hradix : 2 ≤ radix.toNat) (rounds : Nat) :
    ∀ {newval : UInt32} (newbuf : Int) (m : Int → UInt8), newval.toNat < radix.toNat ^ rounds →
      let ds := (Nat.digits radix.toNat newval.toNat).map digitChar
      ∃ m', itoaLoop radix rounds newval newbuf m = some (newbuf + ds.length, m') ∧
        Stored m m' newbuf ds := by
  have hzero : ∀ {newbuf : Int} {m : Int → UInt8}, Stored m m newbuf
      ((Nat.digits radix.toNat (0 : UInt32).toNat).map digitChar) := by
    intro newbuf m
    rw [show (0 : UInt32).toNat = 0 from rfl, Nat.digits_zero]
    exact Stored.nil m newbuf
  induction rounds with
  | zero =>
    intro newval newbuf m hlt
    obtain rfl : newval = 0 := UInt32.toNat_inj.mp (by rw [Nat.pow_zero] at hlt; exact Nat.lt_one_iff.mp hlt)
    exact ⟨m, by simp [itoaLoop], hzero⟩
  | succ rounds ih =>
    intro newval newbuf m hlt
    by_cases hend : newval = 0
    · subst hend
      exact ⟨m, by simp [itoaLoop], hzero⟩
    · have hpos : newval.toNat ≠ 0 := fun h => hend (UInt32.toNat_inj.mp h)
      have hdigits : Nat.digits radix.toNat newval.toNat =
          (newval % radix).toNat :: Nat.digits radix.toNat (newval / radix).toNat := by
        rw [UInt32.toNat_mod, UInt32.toNat_div]
        exact Nat.digits_def' hradix (Nat.pos_of_ne_zero hpos)
      have hrest : (newval / radix).toNat < radix.toNat ^ rounds := by
        rw [UInt32.toNat_div]
        exact Nat.div_lt_of_lt_mul (by rwa [Nat.pow_succ, Nat.mul_comm] at hlt)
      obtain ⟨m', hloop, hstored⟩ := ih (newbuf + 1)
        (Function.update m newbuf (digitChar (newval % radix).toNat)) hrest
      rw [hdigits, List.map_cons]
      refine ⟨m', ?_, hstored.cons⟩
      rw [itoaLoop, if_neg hend, hloop, List.length_cons]
      congr 2
      omega

/-- The radixes that the table of digits is made for. -/
def ValidRadix (radix : UInt32) : Prop := 2 ≤ radix.toNat ∧ radix.toNat ≤ 36

theorem value_lt_pow (hradix : 2 ≤ radix.toNat) (v : UInt32) : v.toNat < radix.toNat ^ 32 :=
  lt_of_lt_of_le v.toNat_lt (Nat.pow_le_pow_left hradix 32)

/-- A numeral of 32 bits and its NUL take 33 bytes at most. -/
theorem length_numeral_lt (hradix : ValidRadix radix) (v : UInt32) :
    (numeral radix.toNat digitChar v.toNat).length < maxNumeral :=
  Nat.lt_succ_of_le (length_numeral_le hradix.1 (by decide) (value_lt_pow hradix.1 v))

theorem nul_not_mem_numeral (hradix : ValidRadix radix) (n : Nat) :
    (0 : UInt8) ∉ numeral radix.toNat digitChar n := by
  intro hmem
  obtain ⟨d, hd, hnul⟩ := mem_numeral hradix.1 hmem
  exact digitChar_ne_nul (lt_of_lt_of_le hd hradix.2) hnul.symm

/-- **`itoa`** returns, with the numeral at `buf`, and the bytes around it untouched. -/
theorem itoa_spec (hradix : ValidRadix radix) (v : UInt32) (buf : Int) (m : Int → UInt8) :
    let cs := numeral radix.toNat digitChar v.toNat
    ∃ m', itoa v buf radix m = some m' ∧ HoldsString m' buf cs ∧
      ∀ p, p < buf ∨ buf + cs.length < p → m' p = m p := by
  intro cs
  by_cases hzero : v = 0
  · have hcs : cs = [48] := by
      show numeral radix.toNat digitChar v.toNat = [48]
      rw [hzero]
      rfl
    refine ⟨_, if_pos hzero, ?_, fun p hp => ?_⟩
    · rw [hcs]
      refine ⟨fun i hi => ?_, Function.update_self _ _ _, by decide⟩
      obtain rfl : i = 0 := Nat.lt_one_iff.mp hi
      rw [Function.update_of_ne (by omega), Int.ofNat_zero, Int.add_zero, Function.update_self]
      rfl
    · rw [hcs, List.length_singleton] at hp
      rw [Function.update_of_ne (by omega), Function.update_of_ne (by omega)]
  · have hpos : v.toNat ≠ 0 := fun h => hzero (UInt32.toNat_inj.mp h)
    obtain ⟨m₁, hloop, hstored⟩ := itoaLoop_spec hradix.1 32 buf m (value_lt_pow hradix.1 v)
    have hcs : cs = ((Nat.digits radix.toNat v.toNat).map digitChar).reverse := if_neg hpos
    have hroom : cs.length < maxNumeral := length_numeral_lt hradix v
    have hnul : (0 : UInt8) ∉ cs := nul_not_mem_numeral hradix v.toNat
    generalize (Nat.digits radix.toNat v.toNat).map digitChar = ds at hloop hstored hcs
    rw [hcs, List.length_reverse] at hroom
    rw [hcs, List.mem_reverse] at hnul
    obtain ⟨m', hrev, hholds, hframe⟩ := strrev_spec (hstored.holdsString hnul) hroom
    refine ⟨m', ?_, hcs ▸ hholds, fun p hp => ?_⟩
    · rw [itoa, if_neg hzero, hloop]
      exact hrev
    · rw [hcs, List.length_reverse] at hp
      rw [hframe p (by omega), Function.update_of_ne (by omega), hstored, if_neg (by omega)]

end Itoa

/-! ## The conversions -/

section Conversions

variable (v : UInt32) (convBuf : Int → UInt8)

theorem validRadix_ten : ValidRadix 10 := ⟨by decide, by decide⟩
theorem validRadix_sixteen : ValidRadix 16 := ⟨by decide, by decide⟩

/-- A numeral that is converted at the front of the buffer. -/
theorem itoa_putsText {radix : UInt32} (hradix : ValidRadix radix) :
    ((itoa v 0 radix convBuf).bind fun m => putsText m 0) =
      some (numeral radix.toNat digitChar v.toNat) := by
  obtain ⟨m, hitoa, hholds, -⟩ := itoa_spec hradix v 0 convBuf
  rw [hitoa]
  exact hholds.putsText (length_numeral_lt hradix v)

theorem unsignedText_eq : unsignedText v convBuf = some (numeral 10 digitChar v.toNat) :=
  itoa_putsText v convBuf validRadix_ten

theorem hexText_eq : hexText v convBuf = some (numeral 16 digitChar v.toNat) :=
  itoa_putsText v convBuf validRadix_sixteen

/-- The value as a signed number. -/
def signedValue (v : UInt32) : Int := v.toInt32.toInt

theorem signedValue_eq :
    signedValue v = if 2 ^ 31 ≤ v.toNat then (v.toNat : Int) - 2 ^ 32 else (v.toNat : Int) := by
  have hlt := v.toNat_lt
  have hbits : signedValue v = v.toBitVec.toInt := rfl
  rw [hbits, BitVec.toInt_eq_toNat_cond]
  show (if 2 * v.toNat < 2 ^ 32 then (v.toNat : Int) else (v.toNat : Int) - (2 ^ 32 : Nat)) = _
  split <;> split <;> omega

/-- The sign bit. -/
theorem toInt32_neg_iff : v.toInt32 < 0 ↔ signedValue v < 0 := Int32.lt_iff_toInt_lt

/-- The numeral of a signed number. -/
def signedNumeral (n : Int) : List UInt8 :=
  if n < 0 then 45 :: numeral 10 digitChar n.natAbs else numeral 10 digitChar n.natAbs

/-- `%d`.  The negation of 32 bits gives the absolute value, that of -2^31 too. -/
theorem signedText_eq : signedText v convBuf = some (signedNumeral (signedValue v)) := by
  have hlt := v.toNat_lt
  have hvalue := signedValue_eq v
  unfold signedText signedNumeral
  by_cases hneg : signedValue v < 0
  · rw [if_pos ((toInt32_neg_iff v).mpr hneg), if_pos hneg]
    have habs : (-v).toNat = (signedValue v).natAbs := by
      rw [UInt32.toNat_neg, show UInt32.size = 2 ^ 32 from rfl]
      split at hvalue
      · rw [Nat.mod_eq_of_lt (by omega)]
        omega
      · omega
    have hten : (numeral 10 digitChar (-v).toNat).length ≤ 10 :=
      length_numeral_le (by decide) (by decide) (lt_trans (-v).toNat_lt (by decide))
    obtain ⟨m, hitoa, hholds, hframe⟩ := itoa_spec validRadix_ten (-v) 1 (Function.update convBuf 0 45)
    have hholds : HoldsString m 1 (numeral 10 digitChar (-v).toNat) := hholds
    have hsigned : HoldsString m 0 (45 :: numeral 10 digitChar (-v).toNat) := by
      refine ⟨fun i hi => ?_, ?_, ?_⟩
      · cases i with
        | zero =>
          rw [Int.ofNat_zero, Int.add_zero, hframe 0 (by omega), Function.update_self]
          rfl
        | succ i =>
          rw [List.getElem_cons_succ]
          have hchar := hholds.chars i (by rw [List.length_cons] at hi; exact Nat.lt_of_succ_lt_succ hi)
          rw [← hchar]
          congr 1
          omega
      · have hnul := hholds.nul
        rw [← hnul]
        congr 1
        rw [List.length_cons]
        show (0 : Int) + (_ + 1 : Nat) = 1 + _
        omega
      · rw [List.mem_cons, not_or]
        exact ⟨by decide, nul_not_mem_numeral validRadix_ten _⟩
    rw [hitoa, ← habs]
    refine hsigned.putsText ?_
    rw [List.length_cons]
    simp only [maxNumeral]
    omega
  · rw [if_neg (mt (toInt32_neg_iff v).mp hneg), if_neg hneg, itoa_putsText v convBuf validRadix_ten]
    have habs : v.toNat = (signedValue v).natAbs := by
      split at hvalue <;> omega
    rw [← habs]
    rfl

/-- -2^31. -/
example : signedText 0x80000000 (fun _ => 0) =
    some [45, 50, 49, 52, 55, 52, 56, 51, 54, 52, 56] := by
  decide +kernel

theorem padZeros_apply (starting : Nat) (m : Int → UInt8) (p : Int) :
    padZeros starting m p = if starting ≤ p ∧ p < 8 then 48 else m p := by
  have hloop : ∀ (n start : Nat) (m : Int → UInt8),
      (List.range' start n).foldl (fun m (i : Nat) => Function.update m (i : Int) 48) m p =
        if (start : Int) ≤ p ∧ p < (start + n : Nat) then 48 else m p := by
    intro n
    induction n with
    | zero =>
      intro start m
      exact (if_neg (by omega)).symm
    | succ n ih =>
      intro start m
      rw [List.range'_succ, List.foldl_cons, ih]
      by_cases hfirst : p = start
      · rw [if_neg (by omega), if_pos (by omega), hfirst, Function.update_self]
      by_cases hrest : ((start + 1 : Nat) : Int) ≤ p ∧ p < (start + 1 + n : Nat)
      · rw [if_pos hrest, if_pos (by omega)]
      · rw [if_neg hrest, if_neg (by omega), Function.update_of_ne hfirst]
  rw [padZeros, hloop]
  by_cases hp : (starting : Int) ≤ p ∧ p < 8
  · rw [if_pos (by omega), if_pos hp]
  · rw [if_neg (by omega), if_neg hp]

/-- `%#x`: the zeros are written between the end of the digits, seen from the front of the buffer, and
    their beginning at `conv_buf[8]`. -/
theorem alternateText_eq :
    let cs := numeral 16 digitChar v.toNat
    alternateText v convBuf = some (List.replicate (8 - cs.length) 48 ++ cs) := by
  intro cs
  have height : cs.length ≤ 8 := length_numeral_le (by decide) (by decide) v.toNat_lt
  obtain ⟨m, hitoa, hholds, -⟩ := itoa_spec validRadix_sixteen v 8 convBuf
  have hholds : HoldsString m 8 cs := hholds
  have hpadded : HoldsString (padZeros cs.length m) cs.length (List.replicate (8 - cs.length) 48 ++ cs) := by
    refine ⟨fun i hi => ?_, ?_, ?_⟩
    · rw [List.length_append, List.length_replicate] at hi
      rw [padZeros_apply]
      by_cases hzero : i < 8 - cs.length
      · rw [if_pos (by omega), List.getElem_append_left (by rwa [List.length_replicate]),
          List.getElem_replicate]
      · rw [if_neg (by omega), List.getElem_append_right (by rw [List.length_replicate]; omega),
          ← hholds.chars]
        congr 1
        rw [List.length_replicate]
        omega
    · rw [padZeros_apply, List.length_append, List.length_replicate, if_neg (by omega), ← hholds.nul]
      congr 1
      omega
    · rw [List.mem_append, not_or]
      refine ⟨fun hmem => ?_, hholds.noNul⟩
      exact absurd (List.eq_of_mem_replicate hmem) (by decide)
  rw [alternateText, hitoa, Option.bind_some, hholds.strlenAt (by simp only [maxNumeral]; omega)]
  refine hpadded.putsText ?_
  rw [List.length_append, List.length_replicate]
  simp only [maxNumeral]
  omega

end Conversions

end ByteVerse
