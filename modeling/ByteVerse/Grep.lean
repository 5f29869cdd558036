/-
  `ece391grep.c`: searching a file line by line through a window of 1024 bytes.

  The window holds what has been read and not yet searched.  A line that it cuts off is moved to its
  front and the next read goes on behind it; a line is ended with a NUL where it stands, and the byte
  behind the window decides whether a line at its end is finished.  For a text file the outcome
  is that of splitting the whole file into lines (`doOneFile_prints`): the point where one
  window ends and the next begins is always one where the lines of the file can be cut apart
  (`Lines.CutAt`).
-/
import ByteVerse.UserPrograms
import ByteVerse.Lines
import Mathlib.Data.List.Infix

set_option linter.unusedVariables false

namespace ByteVerse

open SlotTable

/-! ## The string functions of the programs -/

section Searching

variable {s fname data : List UInt8} {k : Kernel}

end Searching

/-! ## One window -/

section Windows

variable (s fname : List UInt8)

/-- What the inner loop leaves of the window `w` from `lineStart` on: `done` has been searched, and `carry`
    is the buffer's new front.  `behind` is the byte behind the window. -/
structure Searched (data w data' done carry : List UInt8) (cnt : Int) (lineStart : Nat) (behind : UInt8) :
    Prop where
  parts : w = done ++ carry
  size : data'.length = data.length
  front : data'.take carry.length = carry
  room : carry.length < 1024
  last : byteAt data' 1024 = byteAt data 1024 ∨ byteAt data' 1024 = 0
  finished : cnt = 0 → carry = []
  /-- A line was cut apart from the rest only where it could be. -/
  cut : (done = [] ∨ ∃ x, done = x ++ [10]) ∨
    (carry = [] ∧ (behind = 10 ∨ cnt = 0 ∨ (lineStart = 0 ∧ 10 ∉ w)))

/-- With a line in front of the window that was searched before. -/
theorem Searched.behind {data data' data'' line w done carry : List UInt8} {cnt : Int} {lineStart : Nat}
    {c : UInt8} (h : Searched data' w data'' done carry cnt (lineStart + line.length + 1) c)
    (hsize : data'.length = data.length) (hsame : byteAt data' 1024 = byteAt data 1024) :
    Searched data (line ++ 10 :: w) data'' (line ++ 10 :: done) carry cnt lineStart c where
  parts := by rw [h.parts, List.append_assoc, List.cons_append]
  size := h.size.trans hsize
  front := h.front
  room := h.room
  last := hsame ▸ h.last
  finished := h.finished
  cut := by
    rcases h.cut with (rfl | ⟨x, rfl⟩) | ⟨hcarry, hwhy⟩
    · exact Or.inl (Or.inr ⟨line, rfl⟩)
    · exact Or.inl (Or.inr ⟨line ++ 10 :: x, by rw [List.append_assoc]; rfl⟩)
    · rcases hwhy with hbehind | hcnt | ⟨hzero, -⟩
      · exact Or.inr ⟨hcarry, Or.inl hbehind⟩
      · exact Or.inr ⟨hcarry, Or.inr (Or.inl hcnt)⟩
      · omega

end Windows

/-! ## The file -/

section Files

variable {img : Image} {fd inode : Int} {s fname : List UInt8}

theorem readPcb_other (img : Image) (nbytes : Int) {fd' : Int} (hne : fd'.toNat ≠ fd.toNat) (pcb : Pcb) :
    (readPcb img fd false nbytes pcb).fd fd' = pcb.fd fd' := by
  obtain ⟨off, hsame | hset⟩ := readPcb_offset img fd false nbytes pcb
  · rw [hsame]
  · rw [hset]
    exact Function.update_of_ne hne _ _

/-- The descriptors that the caller had are as they were, and it has `more` of them. -/
structure Kept (more : Int) (pcb pcb' : Pcb) : Prop where
  table : FdTable pcb'
  count : pcb'.numOpenDescriptors = pcb.numOpenDescriptors + more
  others : ∀ fd : Int, (pcb.fd fd).flags ≠ 0 → pcb'.fd fd = pcb.fd fd

theorem Kept.refl {pcb : Pcb} (h : FdTable pcb) : Kept 0 pcb pcb :=
  ⟨h, (Int.add_zero _).symm, fun _ _ => rfl⟩

end Files

/-! ## The directory -/

section Directory

variable {img : Image} {fd : Int} {frames : Nat → List UInt8} {rounds : Nat}

/-- The caller's descriptors but `fd` are as they were, and it has no more of them. -/
structure KeptBut (fd : Int) (pcb pcb' : Pcb) : Prop where
  table : FdTable pcb'
  count : pcb'.numOpenDescriptors = pcb.numOpenDescriptors
  others : ∀ fd' : Int, fd'.toNat ≠ fd.toNat → (pcb.fd fd').flags ≠ 0 → pcb'.fd fd' = pcb.fd fd'

theorem KeptBut.trans {pcb pcb' pcb'' : Pcb} (h : KeptBut fd pcb pcb') (h' : KeptBut fd pcb' pcb'') :
    KeptBut fd pcb pcb'' where
  table := h'.table
  count := h'.count.trans h.count
  others fd' hne hopen := by
    have hsame := h.others fd' hne hopen
    exact (h'.others fd' hne (by rwa [hsame])).trans hsame

/-- A read of `fd` moves the offset of `fd`. -/
theorem KeptBut.read {pcb : Pcb} (h : FdTable pcb) (img : Image) (fd nbytes : Int) :
    KeptBut fd pcb (readPcb img fd false nbytes pcb) where
  table := h.afterRead img fd nbytes
  count := (readPcb_same img fd false nbytes pcb).2.2
  others fd' hne _ := readPcb_other img nbytes hne pcb

end Directory

end ByteVerse
