/-
  Little-endian 32-bit words in a byte-addressed memory.

  Addresses wrap at 2^32, so a stack may lie anywhere.  `words m a n` reads `n` words from `a` on; it
  depends on their `4 * n` bytes only (`words_congr`) and splits at any of them (`words_add`).
  `words_write_below` is the rule for a push: the word written just below a row of words goes in front
  of it, as long as the row does not reach round the memory to it.
-/
import Mathlib.Algebra.Ring.Nat
import Mathlib.Data.List.Basic

namespace ByteVerse.Words

abbrev Word := BitVec 32

abbrev Memory := Word → BitVec 8

/-- Byte number `i` of a word, the lowest one first. -/
def byte (w : Word) (i : Nat) : BitVec 8 := w.extractLsb' (8 * i) 8

def readWord (m : Memory) (a : Word) : Word := m (a + 3) ++ m (a + 2) ++ m (a + 1) ++ m a

def writeWord (m : Memory) (a w : Word) : Memory := fun x =>
  if (x - a).toNat < 4 then byte w (x - a).toNat else m x

/-- The `n` words from `a` on. -/
def words (m : Memory) (a : Word) : Nat → List Word
  | 0 => []
  | n + 1 => readWord m a :: words m (a + 4) n

/-- The address of word number `n` behind `a`. -/
def wordAt (a : Word) (n : Nat) : Word := a + 4 * BitVec.ofNat 32 n

@[simp] theorem wordAt_zero (a : Word) : wordAt a 0 = a := by
  simp [wordAt]

theorem wordAt_succ (a : Word) (n : Nat) : wordAt (a + 4) n = wordAt a (n + 1) := by
  unfold wordAt
  rw [BitVec.ofNat_add]
  bv_omega

@[simp] theorem length_words (m : Memory) (a : Word) (n : Nat) : (words m a n).length = n := by
  induction n generalizing a with
  | zero => rfl
  | succ n ih => rw [words, List.length_cons, ih]

/-! ## Reading after writing -/

theorem append_bytes (w : Word) : byte w 3 ++ byte w 2 ++ byte w 1 ++ byte w 0 = w := by
  ext i hi
  simp only [byte, BitVec.getElem_append, BitVec.getElem_extractLsb']
  repeat' split
  all_goals
    rw [← BitVec.getLsbD_eq_getElem]
    congr 1
    omega

theorem writeWord_of_outside {m : Memory} {a x : Word} (w : Word) (h : ¬ (x - a).toNat < 4) :
    writeWord m a w x = m x := if_neg h

theorem writeWord_at (m : Memory) (a w : Word) {i : Nat} (hi : i < 4) :
    writeWord m a w (a + BitVec.ofNat 32 i) = byte w i := by
  have hoff : (a + BitVec.ofNat 32 i - a).toNat = i := by
    bv_omega
  rw [writeWord, hoff, if_pos hi]

@[simp] theorem readWord_writeWord (m : Memory) (a w : Word) : readWord (writeWord m a w) a = w := by
  have h0 : writeWord m a w a = byte w 0 := by
    simpa using writeWord_at m a w (show 0 < 4 by omega)
  have h1 : writeWord m a w (a + 1) = byte w 1 := writeWord_at m a w (show 1 < 4 by omega)
  have h2 : writeWord m a w (a + 2) = byte w 2 := writeWord_at m a w (show 2 < 4 by omega)
  have h3 : writeWord m a w (a + 3) = byte w 3 := writeWord_at m a w (show 3 < 4 by omega)
  rw [readWord, h0, h1, h2, h3]
  exact append_bytes w

/-! ## Rows of words -/

theorem words_congr {m m' : Memory} {a : Word} {n : Nat}
    (h : ∀ i < 4 * n, m' (a + BitVec.ofNat 32 i) = m (a + BitVec.ofNat 32 i)) :
    words m' a n = words m a n := by
  induction n generalizing a with
  | zero => rfl
  | succ n ih =>
    have hread : readWord m' a = readWord m a := by
      have h0 : m' a = m a := by simpa using h 0 (by omega)
      have h1 : m' (a + 1) = m (a + 1) := h 1 (by omega)
      have h2 : m' (a + 2) = m (a + 2) := h 2 (by omega)
      have h3 : m' (a + 3) = m (a + 3) := h 3 (by omega)
      rw [readWord, readWord, h0, h1, h2, h3]
    have hrest : words m' (a + 4) n = words m (a + 4) n := by
      refine ih fun i hi => ?_
      have hshift : a + 4 + BitVec.ofNat 32 i = a + BitVec.ofNat 32 (i + 4) := by
        rw [BitVec.ofNat_add]
        bv_omega
      rw [hshift]
      exact h (i + 4) (by omega)
    rw [words, words, hread, hrest]

theorem words_add (m : Memory) (a : Word) (k n : Nat) :
    words m a (k + n) = words m a k ++ words m (wordAt a k) n := by
  induction k generalizing a with
  | zero => rw [Nat.zero_add, wordAt_zero, words, List.nil_append]
  | succ k ih => rw [Nat.add_right_comm, words, words, ih, List.cons_append, wordAt_succ]

/-- A word written just below a row of words goes in front of it. -/
theorem words_write_below (m : Memory) (a w : Word) {n : Nat} (hn : 4 * (n + 1) ≤ 2 ^ 32) :
    words (writeWord m (a - 4) w) (a - 4) (n + 1) = w :: words m a n := by
  have hrest : words (writeWord m (a - 4) w) a n = words m a n := by
    refine words_congr fun i hi => ?_
    refine writeWord_of_outside w ?_
    bv_omega
  rw [words, readWord_writeWord, BitVec.sub_add_cancel, hrest]

end ByteVerse.Words
