/-
  Fields of a machine word, as a C compiler lays out bit-fields.

  A field is `len` bits from bit `lo` on.  `put` is the assignment to it: it truncates the value and
  leaves the other bits of the word.  So after `put` the field reads the truncated value
  (`get_put_self`) and a field apart from it what it read before (`get_put_of_apart`), and a word is
  determined by fields that cover it (`eq_of_layout`).
-/
import Mathlib.Algebra.Ring.Nat
import Mathlib.Data.List.Basic

namespace ByteVerse.BitFields

structure BitField where
  lo : Nat
  len : Nat
  deriving DecidableEq

variable {w : Nat} {f g : BitField}

def BitField.get (f : BitField) (x : BitVec w) : Nat := (x.extractLsb' f.lo f.len).toNat

/-- The assignment `x.f = v`. -/
def BitField.put (f : BitField) (v : Nat) (x : BitVec w) : BitVec w :=
  (x &&& ~~~((BitVec.allOnes f.len).setWidth w <<< f.lo)) |||
    (BitVec.ofNat f.len v).setWidth w <<< f.lo

/-- The field lies within a word of `w` bits. -/
def BitField.Within (f : BitField) (w : Nat) : Prop := f.lo + f.len ≤ w

def BitField.Apart (f g : BitField) : Prop := f.lo + f.len ≤ g.lo ∨ g.lo + g.len ≤ f.lo

instance (f : BitField) (w : Nat) : Decidable (f.Within w) := inferInstanceAs (Decidable (_ ≤ _))

instance (f g : BitField) : Decidable (f.Apart g) := inferInstanceAs (Decidable (_ ∨ _))

theorem getLsbD_put (f : BitField) (v : Nat) (x : BitVec w) {i : Nat} (hi : i < w) :
    (f.put v x).getLsbD i =
      if f.lo ≤ i ∧ i < f.lo + f.len then v.testBit (i - f.lo) else x.getLsbD i := by
  simp only [BitField.put, BitVec.getLsbD_or, BitVec.getLsbD_and, BitVec.getLsbD_not,
    BitVec.getLsbD_shiftLeft, BitVec.getLsbD_setWidth, BitVec.getLsbD_allOnes, BitVec.getLsbD_ofNat]
  by_cases hlo : f.lo ≤ i
  · by_cases hlen : i < f.lo + f.len
    · rw [if_pos ⟨hlo, hlen⟩]
      simp [hi, Nat.not_lt.mpr hlo, show i - f.lo < w by omega, show i - f.lo < f.len by omega]
    · rw [if_neg (fun h => hlen h.2)]
      simp [hi, show ¬ i - f.lo < f.len by omega]
  · rw [if_neg (fun h => hlo h.1)]
    simp [hi, Nat.lt_of_not_le hlo]

theorem get_put_self (v : Nat) (x : BitVec w) (h : f.Within w) :
    f.get (f.put v x) = v % 2 ^ f.len := by
  rw [BitField.get, ← BitVec.toNat_ofNat]
  congr 1
  ext i hi
  have hin : f.lo + i < w := by
    have hw : f.lo + f.len ≤ w := h
    omega
  rw [BitVec.getElem_extractLsb', getLsbD_put f v x hin, if_pos (by omega), Nat.add_sub_cancel_left,
    ← BitVec.getLsbD_eq_getElem, BitVec.getLsbD_ofNat]
  simp [hi]

theorem get_put_of_apart (v : Nat) (x : BitVec w) (hf : f.Within w) (h : f.Apart g) :
    f.get (g.put v x) = f.get x := by
  unfold BitField.get
  congr 1
  ext i hi
  have hin : f.lo + i < w := by
    have hw : f.lo + f.len ≤ w := hf
    omega
  rw [BitVec.getElem_extractLsb', BitVec.getElem_extractLsb', getLsbD_put g v x hin, if_neg]
  rcases h with h | h <;> omega

/-- Fields that cover the word determine it. -/
theorem eq_of_layout {x y : BitVec w} (fields : List BitField)
    (hcover : ∀ i < w, ∃ f ∈ fields, f.lo ≤ i ∧ i < f.lo + f.len)
    (h : ∀ f ∈ fields, f.get x = f.get y) : x = y := by
  refine BitVec.eq_of_getLsbD_eq fun i hi => ?_
  obtain ⟨f, hf, hlo, hhi⟩ := hcover i hi
  have hbits : x.extractLsb' f.lo f.len = y.extractLsb' f.lo f.len := BitVec.eq_of_toNat_eq (h f hf)
  have hbit := congrArg (BitVec.getLsbD · (i - f.lo)) hbits
  simpa [show i - f.lo < f.len by omega, Nat.add_sub_cancel' hlo] using hbit

end ByteVerse.BitFields
