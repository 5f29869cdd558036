/-
  Whether the calls that fill a buffer respect its size.

  `read` passes the size on to one of four functions, and `getargs` is given one.  `file_read` and
  `terminal_read` stop at it, `rtc_read` stores nothing; `dir_read` and `getargs` copy 32 bytes
  whatever it is.  `size_respected_iff` says when that is too much.
-/
import ByteVerse.DirectoryListing
import ByteVerse.ExecuteContract

set_option linter.unusedVariables false

namespace ByteVerse

open SlotTable

/-! ## Stores to a buffer -/

/-- The caller's memory from `buf` on, after these bytes have been stored there. -/
def storedAt (bytes : List UInt8) (memory : Nat → UInt8) (i : Nat) : UInt8 :=
  bytes.getD i (memory i)

/-- Whatever was there, the memory from index `nbytes` on is as before. -/
def KeepsBeyond (nbytes : Int) (bytes : List UInt8) : Prop :=
  ∀ memory i, nbytes ≤ (i : Nat) → storedAt bytes memory i = memory i

/-- The call stays inside the buffer and returns at most its size. -/
def RespectsSize (nbytes : Int) (result : Int × List UInt8) : Prop :=
  KeepsBeyond nbytes result.2 ∧ result.1 ≤ nbytes

theorem keepsBeyond_iff {nbytes : Int} (h0 : 0 ≤ nbytes) (bytes : List UInt8) :
    KeepsBeyond nbytes bytes ↔ (bytes.length : Int) ≤ nbytes := by
  constructor
  · intro h
    by_contra hlong
    have hi : nbytes.toNat < bytes.length := by omega
    -- a memory that differs from the byte stored at the first index behind the buffer
    have hkeep := h (fun i => if bytes.getD i 0 = 0 then 1 else 0) nbytes.toNat (by omega)
    unfold storedAt at hkeep
    rw [List.getD_eq_getElem _ _ hi, List.getD_eq_getElem _ _ hi] at hkeep
    split at hkeep
    · rename_i hzero
      rw [hzero] at hkeep
      cases hkeep
    · rename_i hne
      exact hne hkeep
  · intro h memory i hi
    exact List.getD_eq_default _ _ (by omega)

/-! ## The four functions behind `read` -/

/-- The byte loop of `read_data` stores and counts no more than is asked for, also when it fails. -/
theorem readDataLoop_size (img : Image) (inode : Inode) (offset : Int) {length : Int} :
    ∀ (fuel : Nat) (n : Int), n ≤ length → -1 ≤ length →
      ((readDataLoop img inode offset length fuel n).2.length : Int) ≤ length - n ∧
        (readDataLoop img inode offset length fuel n).1 ≤ length := by
  intro fuel
  induction fuel with
  | zero =>
    intro n hn _
    exact ⟨by show (0 : Int) ≤ length - n; omega, hn⟩
  | succ fuel ih =>
    intro n hn hlength
    simp only [readDataLoop]
    split
    · rename_i hmore
      split
      · exact ⟨by show (0 : Int) ≤ length - n; omega, hlength⟩
      split
      · exact ⟨by show (0 : Int) ≤ length - n; omega, hlength⟩
      · obtain ⟨hbytes, hret⟩ := ih (n + 1) (by omega) hlength
        refine ⟨?_, hret⟩
        rw [List.length_cons]
        omega
    · exact ⟨by show (0 : Int) ≤ length - n; omega, hn⟩

theorem readData_size (img : Image) (inode offset : Int) {length : Int} (h0 : 0 ≤ length) :
    RespectsSize length (readData img inode offset length) := by
  unfold RespectsSize
  rw [keepsBeyond_iff h0]
  unfold readData
  split
  · exact ⟨h0, by show (-1 : Int) ≤ length; omega⟩
  · obtain ⟨hbytes, hret⟩ := readDataLoop_size img (img.inodes inode) offset
      ((img.inodes inode).length - offset).toNat 0 h0 (by omega)
    rw [Int.sub_zero] at hbytes
    exact ⟨hbytes, hret⟩

theorem fileRead_size (img : Image) (fd : Int) {nbytes : Int} (h0 : 0 ≤ nbytes) (pcb : Pcb) :
    RespectsSize nbytes (fileRead img fd nbytes pcb).2 := by
  have hfailed : ∀ bytes, KeepsBeyond nbytes bytes → RespectsSize nbytes (-1, bytes) := fun bytes h =>
    ⟨h, by show (-1 : Int) ≤ nbytes; omega⟩
  have hdata := readData_size img (pcb.fd fd).inodeNum (pcb.fd fd).fileOffset h0
  have hnothing : KeepsBeyond nbytes [] := (keepsBeyond_iff h0 []).mpr h0
  unfold fileRead
  split
  · exact hfailed [] hnothing
  · simp only
    split
    · exact hfailed [] hnothing
    · split
      · exact hfailed _ hdata.1
      · exact hdata

/-- The copy loop of `terminal_read` stops at the size. -/
theorem terminalReadLoop_size (termBuffer : Int → UInt8) (nbytes : Int) :
    ∀ (fuel : Nat) (i : Int), i ≤ nbytes →
      ((terminalReadLoop termBuffer nbytes fuel i).2.length : Int) ≤ nbytes - i ∧
        (terminalReadLoop termBuffer nbytes fuel i).1 ≤ nbytes := by
  intro fuel
  induction fuel with
  | zero =>
    intro i hi
    exact ⟨by show (0 : Int) ≤ nbytes - i; omega, hi⟩
  | succ fuel ih =>
    intro i hi
    simp only [terminalReadLoop]
    split
    · rename_i hlt
      split
      · exact ⟨by show (1 : Int) ≤ nbytes - i; omega, hi⟩
      · obtain ⟨hbytes, hret⟩ := ih (i + 1) (by omega)
        refine ⟨?_, hret⟩
        rw [List.length_cons]
        omega
    · exact ⟨by show (0 : Int) ≤ nbytes - i; omega, hi⟩

theorem terminalRead_size {s v : Fin 3} {nbytes : Int} (h0 : 0 ≤ nbytes) {inp inp' : Input}
    {result : Int × List UInt8} (h : terminalRead s v nbytes inp = some (inp', result)) :
    RespectsSize nbytes result := by
  obtain ⟨-, rfl, -⟩ := terminalRead_eq_some h
  obtain ⟨hbytes, hret⟩ := terminalReadLoop_size inp.termBuffer nbytes nbytes.toNat 0 h0
  exact ⟨(keepsBeyond_iff h0 _).mpr (by omega), hret⟩

/-- The descriptor is one of the directory, and there is an entry left to deliver. -/
def EntryLeft (img : Image) (pcb : Pcb) (fd : Int) : Prop :=
  readTarget pcb fd false = some .dirRead ∧ (pcb.fd fd).inodeNum = 0 ∧
    (pcb.fd fd).fileOffset < img.dirCount

theorem length_nameBytes (d : Dentry) : (nameBytes d).length = filenameLen := by
  rw [nameBytes, List.length_map, List.length_range]

/-- `dir_read` stores 32 bytes when there is an entry left, and nothing otherwise. -/
theorem dirRead_size (img : Image) {fd nbytes : Int} (h0 : 0 ≤ nbytes) {pcb : Pcb}
    (htarget : readTarget pcb fd false = some .dirRead) :
    RespectsSize nbytes (dirRead img fd pcb).2 ↔ (EntryLeft img pcb fd → filenameLen ≤ nbytes) := by
  have hbounds : ¬ outOfBounds pcb fd = true := by
    intro hout
    rw [readTarget, if_pos hout] at htarget
    cases htarget
  have hnothing : ∀ ret, ret ≤ nbytes → RespectsSize nbytes (ret, []) := fun ret hret =>
    ⟨(keepsBeyond_iff h0 []).mpr h0, hret⟩
  unfold dirRead
  rw [if_neg hbounds]
  simp only
  split
  · rename_i hinode
    exact iff_of_true (hnothing _ (by omega)) fun hleft => absurd hleft.2.1 hinode
  · rename_i hinode
    split
    · rename_i hend
      exact iff_of_true (hnothing _ h0) fun hleft => absurd hleft.2.2 (by omega)
    · rename_i hentry
      have hlt : (pcb.fd fd).fileOffset < img.dirCount := by omega
      rw [readDentryByIndex, if_pos hlt]
      simp only
      rw [RespectsSize, keepsBeyond_iff h0, length_nameBytes]
      constructor
      · intro h hleft
        exact h.1
      · intro h
        have hsize := h ⟨htarget, Decidable.not_not.mp hinode, hlt⟩
        have hcut := Nat.min_le_right
          (strlen (img.direntries (pcb.fd fd).fileOffset.toNat).filename.toList) filenameLen
        exact ⟨hsize, by omega⟩

/-! ## The two calls -/

/-- `read` of a buffer of `nbytes` bytes, if it returns, respects the size. -/
def ReadRespectsSize (img : Image) (fd nbytes : Int) (k : Kernel) : Prop :=
  ∀ result, (sysRead img fd false nbytes k).2 = some result → RespectsSize nbytes result

/-- `getargs` stays inside a buffer of `nbytes` bytes. -/
def GetargsRespectsSize (nbytes : Int) (k : Kernel) : Prop :=
  KeepsBeyond nbytes (getargs false k.procs).2

theorem read_respects_iff (img : Image) (fd : Int) {nbytes : Int} (h0 : 0 ≤ nbytes) (k : Kernel) :
    ReadRespectsSize img fd nbytes k ↔ (EntryLeft img (callerPcb k) fd → filenameLen ≤ nbytes) := by
  have hother : readTarget (callerPcb k) fd false ≠ some .dirRead →
      (EntryLeft img (callerPcb k) fd → filenameLen ≤ nbytes) := fun hne hleft =>
    absurd hleft.1 hne
  have hnothing : ∀ ret, ret ≤ nbytes → RespectsSize nbytes (ret, []) := fun ret hret =>
    ⟨(keepsBeyond_iff h0 []).mpr h0, hret⟩
  unfold ReadRespectsSize
  rcases htarget : readTarget (callerPcb k) fd false with _ | f
  · refine iff_of_true (fun result hresult => ?_) (hother (by rw [htarget]; decide))
    rw [sysRead_none htarget] at hresult
    obtain rfl := Option.some.inj hresult
    exact hnothing _ (by omega)
  cases f with
  | fileRead =>
    refine iff_of_true (fun result hresult => ?_) (hother (by rw [htarget]; decide))
    rw [sysRead_fileRead htarget] at hresult
    obtain rfl := Option.some.inj hresult
    exact fileRead_size img fd h0 _
  | dirRead =>
    rw [← dirRead_size img h0 htarget, sysRead_dirRead htarget]
    constructor
    · intro h
      exact h _ rfl
    · intro h result hresult
      rwa [← Option.some.inj hresult]
  | rtcRead =>
    refine iff_of_true (fun result hresult => ?_) (hother (by rw [htarget]; decide))
    rw [sysRead_some htarget] at hresult
    simp only [callRead] at hresult
    split at hresult
    · cases hresult
    · obtain rfl := Option.some.inj hresult
      exact hnothing _ h0
  | terminalRead =>
    refine iff_of_true (fun result hresult => ?_) (hother (by rw [htarget]; decide))
    rw [sysRead_some htarget] at hresult
    simp only [callRead] at hresult
    split at hresult
    · cases hresult
    · rename_i heq
      obtain rfl := Option.some.inj hresult
      exact terminalRead_size h0 heq

/-- **The size of the buffer is respected** by `read` exactly when there is no directory entry to be
    delivered or the buffer has 32 bytes, and by `getargs` exactly when there are no arguments or
    the buffer has 32 bytes: for every state (in which the array `args` that `getargs` copies has its
    32 bytes), every descriptor and every size. -/
theorem size_respected_iff (img : Image) (k : Kernel)
    (hargs : (k.procs.pcbs (getargsPid k.procs)).args.length = filenameLen) (fd nbytes : Int)
    (h0 : 0 ≤ nbytes) :
    (ReadRespectsSize img fd nbytes k ↔
      (EntryLeft img (callerPcb k) fd → filenameLen ≤ nbytes)) ∧
    (GetargsRespectsSize nbytes k ↔
      (byteAt (k.procs.pcbs (getargsPid k.procs)).args 0 ≠ 0 → filenameLen ≤ nbytes)) := by
  refine ⟨read_respects_iff img fd h0 k, ?_⟩
  unfold GetargsRespectsSize
  rw [keepsBeyond_iff h0]
  unfold getargs
  rw [if_neg Bool.false_ne_true]
  simp only
  split
  · rename_i hnone
    exact iff_of_true h0 fun hsome => absurd hnone hsome
  · rename_i hsome
    rw [hargs]
    exact ⟨fun h _ => h, fun h => h hsome⟩

/-- The first shell, which has no arguments, reads ten characters from its keyboard. -/
theorem shell_respects_size :
    ReadRespectsSize smallImage 0 10 (shellKernel smallImage) ∧
      GetargsRespectsSize 10 (shellKernel smallImage) := by
  have h := size_respected_iff smallImage (shellKernel smallImage) (by decide +kernel) 0 10 (by decide)
  have hstdin : readTarget (callerPcb (shellKernel smallImage)) 0 false = some .terminalRead := by
    decide +kernel
  refine ⟨h.1.mpr fun hleft => ?_, h.2.mpr fun hargs => absurd ?_ hargs⟩
  · have hdir := hleft.1
    rw [hstdin] at hdir
    cases hdir
  · decide +kernel

/-- One byte of the directory: `shell` is stored with its zeros up to 32 bytes, and 5 returned. -/
theorem directory_overruns_buffer : ¬ ReadRespectsSize smallImage 2 1 (listingKernel smallImage) := by
  intro h
  have hleft : EntryLeft smallImage (callerPcb (listingKernel smallImage)) 2 :=
    ⟨by decide +kernel, by decide +kernel, by decide +kernel⟩
  have hsize := (read_respects_iff smallImage 2 (by decide) (listingKernel smallImage)).mp h hleft
  exact absurd hsize (by decide)

end ByteVerse
