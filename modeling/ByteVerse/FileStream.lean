/-
  Reading a regular file in pieces.

  `fileContent` is what a file is: the bytes its data blocks hold, in order.  `read_data` copies them
  one by one from an offset on (`readData_spec`), `file_read` keeps the offset in the descriptor, and
  so what the reads of one descriptor return, put together, is a prefix of the file however the
  reads are split, and whatever is read from other descriptors in between, also of the same file
  (`streams_exact`).
-/
import ByteVerse.DescriptorTable

set_option linter.unusedVariables false

namespace ByteVerse

open SlotTable Run

/-! ## The content of a file -/

/-- Byte `i` of a file. -/
def fileByte (img : Image) (inode : Inode) (i : Int) : UInt8 :=
  img.block (inode.dataBlockNum (i.tdiv size4KB)) (i.tmod size4KB)

/-- All its bytes. -/
def fileContent (img : Image) (inode : Inode) : List UInt8 :=
  (List.range inode.length.toNat).map fun i => fileByte img inode (i : Nat)

theorem length_fileContent (img : Image) (inode : Inode) :
    (fileContent img inode).length = inode.length.toNat := by
  rw [fileContent, List.length_map, List.length_range]

/-- The content from a position inside the file on starts with the byte there. -/
theorem drop_fileContent {img : Image} {inode : Inode} {p : Nat} (hp : (p : Int) < inode.length) :
    (fileContent img inode).drop p =
      fileByte img inode p :: (fileContent img inode).drop (p + 1) := by
  have hlen : p < (fileContent img inode).length := by
    rw [length_fileContent]
    omega
  rw [List.drop_eq_getElem_cons hlen]
  congr 1
  simp only [fileContent, List.getElem_map, List.getElem_range]

theorem drop_fileContent_of_le {img : Image} {inode : Inode} {p : Nat}
    (hp : inode.length ≤ (p : Int)) : (fileContent img inode).drop p = [] := by
  refine List.drop_of_length_le ?_
  rw [length_fileContent]
  omega

/-! ## `read_data` -/

/-- The byte loop from `numWritten` on, with enough fuel for the rest of the file: unless it comes to
    a block that is not in the image, it writes the bytes that follow, up to `length` in all. -/
theorem readDataLoop_spec (img : Image) (inode : Inode) (length : Int) (p : Nat) :
    ∀ (fuel numWritten : Nat), inode.length - p - numWritten ≤ fuel →
      let r := readDataLoop img inode p length fuel numWritten
      r.1 = -1 ∨
        (r.2 = ((fileContent img inode).drop (p + numWritten)).take (length - numWritten).toNat ∧
          r.1 = numWritten + r.2.length) := by
  intro fuel
  induction fuel with
  | zero =>
    intro numWritten hfuel
    refine Or.inr ⟨?_, ?_⟩
    · rw [drop_fileContent_of_le (by omega), List.take_nil]
      rfl
    · show (numWritten : Int) = numWritten + 0
      omega
  | succ fuel ih =>
    intro numWritten hfuel
    simp only [readDataLoop]
    split
    · rename_i hmore
      split
      · exact Or.inl rfl
      split
      · exact Or.inl rfl
      · have hnext := ih (numWritten + 1) (by omega)
        simp only at hnext
        rw [show ((numWritten + 1 : Nat) : Int) = numWritten + 1 from rfl] at hnext
        rcases hnext with hbad | ⟨hbytes, hret⟩
        · exact Or.inl hbad
        · refine Or.inr ⟨?_, ?_⟩
          · have hpos : (p + numWritten : Nat) < inode.length := by omega
            have hcomm : (numWritten : Int) + p = (p + numWritten : Nat) := by omega
            rw [drop_fileContent hpos, hcomm,
              show (length - (numWritten : Int)).toNat = (length - (numWritten + 1)).toNat + 1 by omega,
              List.take_succ_cons, Nat.add_assoc, ← hbytes]
            rfl
          · show _ = (numWritten : Int) + ((_ :: _ : List UInt8).length : Nat)
            rw [hret, List.length_cons]
            omega
    · rename_i hstop
      refine Or.inr ⟨?_, ?_⟩
      · by_cases hend : inode.length ≤ (p + numWritten : Nat)
        · rw [drop_fileContent_of_le hend, List.take_nil]
        · rw [show (length - (numWritten : Int)).toNat = 0 by omega, List.take_zero]
      · show (numWritten : Int) = numWritten + 0
        omega

/-- **What `read_data` returns**, unless it is -1: the bytes of the file from the offset on, up to
    `length` of them, and their number. -/
theorem readData_spec {img : Image} {inode : Int} {p : Nat} {length : Int}
    (h : (readData img inode p length).1 ≠ -1) :
    let bytes := ((fileContent img (img.inodes inode)).drop p).take length.toNat
    readData img inode p length = ((bytes.length : Int), bytes) := by
  unfold readData at h ⊢
  split at h
  · exact absurd rfl h
  · rename_i hinode
    rw [if_neg hinode]
    have hspec := readDataLoop_spec img (img.inodes inode) length p
      ((img.inodes inode).length - p).toNat 0 (by omega)
    simp only at hspec
    rcases hspec with hbad | ⟨hbytes, hret⟩
    · exact absurd hbad h
    · rw [Nat.add_zero, show (length - ((0 : Nat) : Int)).toNat = length.toNat by omega] at hbytes
      refine Prod.ext ?_ hbytes
      exact hret.trans (by rw [hbytes]; omega)

/-- Every block that a byte of the file lies in is a block of the image. -/
def BlocksInImage (img : Image) (inode : Inode) : Prop :=
  ∀ i, 0 ≤ i → i < inode.length → inode.dataBlockNum (i.tdiv size4KB) ≤ img.dataCount

/-- On such a file the loop does not fail: the block index is never past the last block. -/
theorem readDataLoop_ne_neg_one {img : Image} {inode : Inode} (hblocks : BlocksInImage img inode)
    {offset length : Int} (hoffset : 0 ≤ offset) :
    ∀ (fuel : Nat) (numWritten : Int), 0 ≤ numWritten →
      (readDataLoop img inode offset length fuel numWritten).1 ≠ -1 := by
  intro fuel
  induction fuel with
  | zero =>
    intro numWritten h0
    show numWritten ≠ -1
    omega
  | succ fuel ih =>
    intro numWritten h0
    simp only [readDataLoop]
    split
    · rename_i hmore
      have hindex : ¬ (numWritten + offset).tdiv size4KB > inode.length.tdiv size4KB := by
        rw [Int.tdiv_eq_ediv_of_nonneg (by omega), Int.tdiv_eq_ediv_of_nonneg (by omega)]
        simp only [size4KB]
        omega
      rw [if_neg hindex, if_neg (by have := hblocks (numWritten + offset) (by omega) hmore.1; omega)]
      exact ih (numWritten + 1) (by omega)
    · show numWritten ≠ -1
      omega

theorem readData_ne_neg_one {img : Image} {inode : Int} (hinode : inode < img.inodeCount)
    (hblocks : BlocksInImage img (img.inodes inode)) {offset length : Int} (hoffset : 0 ≤ offset) :
    (readData img inode offset length).1 ≠ -1 := by
  unfold readData
  rw [if_neg (by omega)]
  exact readDataLoop_ne_neg_one hblocks hoffset _ 0 (Int.le_refl 0)

/-! ## Reads over a set of descriptors -/

/-- The process and what its reads have returned: for each descriptor the bytes, put together, the
    sum of the returned counts, and the sum of the `nbytes` asked for. -/
structure Streams where
  kernel : Kernel
  data : Int → List UInt8
  returned : Int → Int
  asked : Int → Int

/-- No read has been made yet. -/
def startStreams (k : Kernel) : Streams :=
  { kernel := k, data := fun _ => [], returned := fun _ => 0, asked := fun _ => 0 }

/-- One call of `read` that returns, and not -1.  (The devices whose reads can wait are the terminal and
    the clock.) -/
def readStep (img : Image) (st : Streams) (call : Int × Int) : Option Streams :=
  let (fd, nbytes) := call
  match sysRead img fd false nbytes st.kernel with
  | (_, none) => none
  | (k, some (ret, buf)) =>
    if ret = -1 then none
    else some
      { kernel := k
        data := Function.update st.data fd (st.data fd ++ buf.take ret.toNat)
        returned := Function.update st.returned fd (st.returned fd + ret)
        asked := Function.update st.asked fd (st.asked fd + nbytes) }

/-- Descriptor `fd` of the process is that of a regular file with this inode, at an offset. -/
def FileFd (pcb : Pcb) (fd : Int) (inode offset : Int) : Prop :=
  0 ≤ fd ∧ pcb.fd fd = { fops := some fOps, inodeNum := inode, fileOffset := offset, flags := 1 }

/-- What the reads of one regular-file descriptor have returned is right. -/
structure StreamExact (img : Image) (fd inode : Int) (st : Streams) : Prop where
  data : st.data fd = (fileContent img (img.inodes inode)).take (st.asked fd).toNat
  returned : st.returned fd = (st.data fd).length
  offset : FileFd (callerPcb st.kernel) fd inode (st.data fd).length
  bound : (st.data fd).length ≤ (fileContent img (img.inodes inode)).length
  /-- A further read does not wait: where it makes no step it has returned -1. -/
  returns : ∀ nbytes, readStep img st (fd, nbytes) = none →
    ∃ buf, (sysRead img fd false nbytes st.kernel).2 = some (-1, buf)
  /-- On a file of a well-formed image it does not return -1 either. -/
  succeeds : inode ≠ 0 → inode < img.inodeCount → BlocksInImage img (img.inodes inode) →
    fd < (callerPcb st.kernel).numOpenDescriptors → ∀ nbytes, readStep img st (fd, nbytes) ≠ none
  /-- At the end of the file a further read that does not fail returns 0. -/
  exhausted : (st.data fd).length = (fileContent img (img.inodes inode)).length →
    ∀ nbytes st', readStep img st (fd, nbytes) = some st' → st'.returned fd = st.returned fd

/-- Reading goes on where it stopped. -/
theorem take_append_take_drop (l : List UInt8) (a n : Nat) :
    l.take a ++ (l.drop (l.take a).length).take n = l.take (a + n) := by
  rw [List.take_add, List.length_take]
  rcases Nat.le_total a l.length with h | h
  · rw [Nat.min_eq_left h]
  · rw [Nat.min_eq_right h, List.drop_length, List.drop_of_length_le h]

/-- The caller's PCB after `read`. -/
theorem callerPcb_sysRead (img : Image) (fd : Int) (nullBuf : Bool) (nbytes : Int) (k : Kernel) :
    callerPcb (sysRead img fd nullBuf nbytes k).1 = readPcb img fd nullBuf nbytes (callerPcb k) :=
  @fdStep_callerPcb img k _ (.read fd nullBuf nbytes) rfl

/-- A read of another descriptor leaves this one alone. -/
theorem FileFd.readPcb {pcb : Pcb} {fd fd' inode offset : Int} (h : FileFd pcb fd inode offset)
    (hfd' : 0 ≤ fd') (hne : fd ≠ fd') (img : Image) (nullBuf : Bool) (nbytes : Int) :
    FileFd (readPcb img fd' nullBuf nbytes pcb) fd inode offset := by
  refine ⟨h.1, ?_⟩
  have hslot : fd.toNat ≠ fd'.toNat := by
    have := h.1
    omega
  obtain ⟨off, heq | heq⟩ := readPcb_offset img fd' nullBuf nbytes pcb
  · rw [heq]
    exact h.2
  · rw [heq]
    exact (Function.update_of_ne hslot _ _).trans h.2

/-- A descriptor that `read` does not refuse is not negative. -/
theorem nonneg_of_readTarget {pcb : Pcb} {fd : Int} {nullBuf : Bool} {f : ReadFn}
    (h : readTarget pcb fd nullBuf = some f) : 0 ≤ fd := by
  unfold readTarget outOfBounds at h
  by_contra hneg
  rw [if_pos (by simp; omega)] at h
  cases h

theorem readTarget_of_ret {img : Image} {fd nbytes ret : Int} {buf : List UInt8} {k k' : Kernel}
    (h : sysRead img fd false nbytes k = (k', some (ret, buf))) (hret : ret ≠ -1) :
    ∃ f, readTarget (callerPcb k) fd false = some f := by
  unfold sysRead at h
  simp only at h
  split at h
  · obtain ⟨-, hr⟩ := Prod.mk.inj h
    exact absurd (Prod.mk.inj (Option.some.inj hr)).1.symm hret
  · rename_i f htarget
    exact ⟨f, htarget⟩

/-- The result of a `read` that dispatches to `file_read`, and of one that dispatches to `dir_read`. -/
theorem sysRead_fileRead {img : Image} {fd nbytes : Int} {k : Kernel}
    (h : readTarget (callerPcb k) fd false = some .fileRead) :
    (sysRead img fd false nbytes k).2 = some (fileRead img fd nbytes (callerPcb k)).2 := by
  rw [sysRead_some h]
  rfl

theorem sysRead_dirRead {img : Image} {fd nbytes : Int} {k : Kernel}
    (h : readTarget (callerPcb k) fd false = some .dirRead) :
    (sysRead img fd false nbytes k).2 = some (dirRead img fd (callerPcb k)).2 := by
  rw [sysRead_some h]
  rfl

/-- **One `read` of a regular-file descriptor**, if it does not fail: it returns what follows the
    offset, up to `nbytes` bytes, and moves the offset behind it. -/
theorem sysRead_file {img : Image} {fd inode nbytes ret : Int} {p : Nat} {buf : List UInt8}
    {k k' : Kernel} (hfile : FileFd (callerPcb k) fd inode p)
    (h : sysRead img fd false nbytes k = (k', some (ret, buf))) (hret : ret ≠ -1) :
    buf = ((fileContent img (img.inodes inode)).drop p).take nbytes.toNat ∧ ret = buf.length ∧
      FileFd (callerPcb k') fd inode (p + buf.length : Nat) := by
  obtain ⟨f, htarget⟩ := readTarget_of_ret h hret
  have hpcb : callerPcb k' = readPcb img fd false nbytes (callerPcb k) := by
    rw [← callerPcb_sysRead, h]
  have hf : f = .fileRead := by
    unfold readTarget at htarget
    rw [hfile.2] at htarget
    split at htarget
    · cases htarget
    · exact (Option.some.inj htarget).symm
  subst hf
  have hcall : fileRead img fd nbytes (callerPcb k) =
      (readPcb img fd false nbytes (callerPcb k), ret, buf) := by
    refine Prod.ext ?_ (Option.some.inj ((sysRead_fileRead htarget).symm.trans (congrArg Prod.snd h)))
    rw [readPcb, htarget]
  rw [← hpcb] at hcall
  unfold fileRead at hcall
  rw [hfile.2] at hcall
  simp only at hcall
  split at hcall
  · exact absurd (congrArg (fun r => r.2.1) hcall).symm hret
  split at hcall
  · exact absurd (congrArg (fun r => r.2.1) hcall).symm hret
  split at hcall
  · exact absurd (congrArg (fun r => r.2.1) hcall).symm hret
  · rename_i hread
    have hspec := readData_spec hread
    simp only at hspec
    rw [hspec] at hcall
    obtain ⟨hnew, hcall⟩ := Prod.mk.inj hcall
    obtain ⟨rfl, rfl⟩ := Prod.mk.inj hcall
    refine ⟨rfl, rfl, hfile.1, ?_⟩
    rw [← hnew]
    show Function.update _ fd.toNat _ fd.toNat = _
    rw [Function.update_self]
    rfl

/-- A regular-file descriptor has no other `read` than `file_read`. -/
theorem FileFd.target {pcb : Pcb} {fd inode offset : Int} (h : FileFd pcb fd inode offset) :
    readTarget pcb fd false = if outOfBounds pcb fd then none else some .fileRead := by
  unfold readTarget
  rw [h.2]
  rfl

/-- A `read` of such a descriptor returns: -1, or what `file_read` does. -/
theorem FileFd.returns {fd inode offset : Int} {k : Kernel} (h : FileFd (callerPcb k) fd inode offset)
    (img : Image) (nbytes : Int) :
    (sysRead img fd false nbytes k).2 =
      some (if outOfBounds (callerPcb k) fd then (-1, []) else (fileRead img fd nbytes (callerPcb k)).2) := by
  have htarget := h.target
  split at htarget
  · rename_i hout
    rw [if_pos hout, sysRead_none htarget]
  · rename_i hin
    rw [if_neg hin, sysRead_fileRead htarget]

variable {img : Image} {fd inode : Int}

theorem readStep_eq {st st' : Streams} {fd nbytes : Int}
    (h : readStep img st (fd, nbytes) = some st') :
    ∃ ret buf, sysRead img fd false nbytes st.kernel = (st'.kernel, some (ret, buf)) ∧ ret ≠ -1 ∧
      st'.data = Function.update st.data fd (st.data fd ++ buf.take ret.toNat) ∧
      st'.returned = Function.update st.returned fd (st.returned fd + ret) ∧
      st'.asked = Function.update st.asked fd (st.asked fd + nbytes) := by
  unfold readStep at h
  simp only at h
  split at h
  · cases h
  · rename_i k ret buf heq
    split at h
    · cases h
    · rename_i hret
      obtain rfl := Option.some.inj h
      exact ⟨ret, buf, heq, hret, rfl, rfl, rfl⟩

/-- A call that makes no step has returned -1, or waits. -/
theorem readStep_eq_none {st : Streams} {fd nbytes ret : Int} {buf : List UInt8}
    (hread : (sysRead img fd false nbytes st.kernel).2 = some (ret, buf)) :
    readStep img st (fd, nbytes) = none ↔ ret = -1 := by
  unfold readStep
  simp only
  generalize sysRead img fd false nbytes st.kernel = r at hread
  obtain ⟨k, result⟩ := r
  obtain rfl : result = some (ret, buf) := hread
  simp only
  split
  · rename_i hret
    exact iff_of_true rfl hret
  · rename_i hret
    exact iff_of_false nofun hret

/-- The position of a stream is the end of what it has returned. -/
structure StreamAt (img : Image) (fd inode : Int) (st : Streams) : Prop where
  data : st.data fd = (fileContent img (img.inodes inode)).take (st.asked fd).toNat
  returned : st.returned fd = (st.data fd).length
  offset : FileFd (callerPcb st.kernel) fd inode (st.data fd).length
  asked : 0 ≤ st.asked fd

/-- The step lemma, for a read of this descriptor and of another one. -/
theorem StreamAt.step {st st' : Streams} {call : Int × Int} (h : StreamAt img fd inode st)
    (hn : 0 ≤ call.2) (hstep : readStep img st call = some st') : StreamAt img fd inode st' := by
  obtain ⟨fd', nbytes⟩ := call
  obtain ⟨ret, buf, hread, hret, hdata, hreturned, hasked⟩ := readStep_eq hstep
  by_cases hfd : fd' = fd
  · subst hfd
    obtain ⟨hbuf, hlen, hfile⟩ := sysRead_file h.offset hread hret
    have htake : buf.take ret.toNat = buf := List.take_of_length_le (by omega)
    have hdata' : st'.data fd' = st.data fd' ++ buf := by
      rw [hdata, Function.update_self, htake]
    refine ⟨?_, ?_, ?_, ?_⟩
    · rw [hdata', hbuf, hasked, Function.update_self, Int.toNat_add h.asked hn]
      conv => lhs; rw [h.data]
      exact take_append_take_drop _ _ _
    · rw [hdata', hreturned, Function.update_self, h.returned, hlen, List.length_append]
      omega
    · rw [hdata', List.length_append]
      exact hfile
    · rw [hasked, Function.update_self]
      exact Int.add_nonneg h.asked hn
  · have hne : fd ≠ fd' := fun heq => hfd heq.symm
    obtain ⟨f, htarget⟩ := readTarget_of_ret hread hret
    have hpcb : callerPcb st'.kernel = readPcb img fd' false nbytes (callerPcb st.kernel) := by
      rw [← callerPcb_sysRead, hread]
    refine ⟨?_, ?_, ?_, ?_⟩
    · rw [hdata, hasked, Function.update_of_ne hne, Function.update_of_ne hne]
      exact h.data
    · rw [hdata, hreturned, Function.update_of_ne hne, Function.update_of_ne hne]
      exact h.returned
    · rw [hpcb, hdata, Function.update_of_ne hne]
      exact h.offset.readPcb (nonneg_of_readTarget htarget) hne img false nbytes
    · rw [hasked, Function.update_of_ne hne]
      exact h.asked

/-- At the end of the file there is nothing left to return. -/
theorem StreamAt.exact {st : Streams} (h : StreamAt img fd inode st) :
    StreamExact img fd inode st where
  data := h.data
  returned := h.returned
  offset := h.offset
  bound := by
    rw [h.data]
    exact List.length_take_le' _ _
  returns nbytes hnone := by
    have hread := h.offset.returns img nbytes
    generalize (if outOfBounds (callerPcb st.kernel) fd then _ else _ : Int × List UInt8) = r at hread
    obtain ⟨ret, buf⟩ := r
    obtain rfl := (readStep_eq_none hread).mp hnone
    exact ⟨buf, hread⟩
  succeeds hinode hcount hblocks hopen nbytes hnone := by
    have hin : outOfBounds (callerPcb st.kernel) fd = false := by
      have h0 := h.offset.1
      simp only [outOfBounds, Bool.or_eq_false_iff, decide_eq_false_iff_not]
      omega
    have hread := h.offset.returns img nbytes
    have hdata : (readData img inode (st.data fd).length nbytes).1 ≠ -1 :=
      readData_ne_neg_one hcount hblocks (Int.natCast_nonneg _)
    rw [hin, if_neg Bool.false_ne_true, fileRead, hin, if_neg Bool.false_ne_true, h.offset.2] at hread
    simp only [hinode, hdata, if_false] at hread
    exact hdata ((readStep_eq_none hread).mp hnone)
  exhausted hend nbytes st' hstep := by
    obtain ⟨ret, buf, hread, hret, -, hreturned, -⟩ := readStep_eq hstep
    obtain ⟨hbuf, hlen, -⟩ := sysRead_file h.offset hread hret
    rw [hend, List.drop_length, List.take_nil] at hbuf
    rw [hreturned, Function.update_self, hlen, hbuf]
    exact Int.add_zero _

/-- **Streams.**  For every sequence of reads of a process, with nonnegative `nbytes` and none of them
    returning -1, on whatever descriptors: what has been returned on each freshly opened descriptor
    of a regular file is, after every call, the prefix of the file whose length is the sum of its
    `nbytes` or the whole file; the offset is the number of bytes returned, never more than the
    length of the file; reads of it always return, on a file of a well-formed image without failing;
    and at the end of the file they return 0. -/
theorem streams_exact (img : Image) (k : Kernel) (calls : List (Int × Int))
    (hn : ∀ call ∈ calls, 0 ≤ call.2) :
    Throughout (readStep img)
      (fun st => ∀ fd inode, FileFd (callerPcb k) fd inode 0 → StreamExact img fd inode st)
      (startStreams k) calls := by
  have hrun : Throughout (readStep img)
      (fun st => ∀ fd inode, FileFd (callerPcb k) fd inode 0 → StreamAt img fd inode st)
      (startStreams k) calls := by
    refine throughout_of_along (fun st call st' h hgood hstep fd inode hfresh =>
      (h fd inode hfresh).step hgood hstep) (fun fd inode hfresh => ?_)
      (along_of_forall hn)
    exact ⟨(List.take_zero).symm, rfl, hfresh, Int.le_refl 0⟩
  exact throughout_mono (fun st h fd inode hfresh => (h fd inode hfresh).exact) hrun

/-! ### Where fresh descriptors come from -/

/-- `open` of an entry it has functions for makes a fresh descriptor at offset 0, and leaves those of
    the process alone. -/
theorem openFd_fresh {pcb : Pcb} (h : FdTable pcb) {filename : List UInt8} {d : Dentry} {len : Nat}
    (hlookup : readDentryByName img filename = some (d, len)) {fops : FileOps} {inode : Int}
    (htarget : openTarget d = some (fops, inode)) (hroom : pcb.numOpenDescriptors < 8) :
    ∃ i : Nat, (openFd img filename pcb).2 = i ∧
      (openFd img filename pcb).1.numOpenDescriptors = pcb.numOpenDescriptors + 1 ∧
      i < pcb.numOpenDescriptors + 1 ∧
      (openFd img filename pcb).1.fd i =
        { fops := some fops, inodeNum := inode, fileOffset := 0, flags := 1 } ∧
      ∀ fd, (pcb.fd fd).flags ≠ 0 →
        fd.toNat ≠ i ∧ (openFd img filename pcb).1.fd fd = pcb.fd fd := by
  obtain ⟨i, hi, hslot, hi8⟩ := h.freeSlot hroom
  have hopen : openFd img filename pcb =
      (setFd i { fops := some fops, inodeNum := inode, fileOffset := 0, flags := 1 }
        (pcb.numOpenDescriptors + 1) pcb, (i : Int)) := by
    unfold openFd
    rw [if_neg (show ¬ pcb.numOpenDescriptors ≥ numFds by simp only [numFds]; omega), hlookup]
    simp only [htarget, hslot]
  obtain ⟨h2, -, hfree, hbelow⟩ := firstFree_eq_some_iff.mp hi
  rw [hopen]
  refine ⟨i, rfl, rfl, ?_, Function.update_self _ _ _, fun fd hopened => ?_⟩
  · -- the slots below the lowest free one are all open
    have hcount : i ≤ usedCount pcb.isOpen 8 := le_usedCount (Nat.le_of_lt hi8) fun j hj => by
      rcases (show j = 0 ∨ j = 1 ∨ 2 ≤ j by omega) with rfl | rfl | h2j
      · exact h.stdin.1
      · exact h.stdout.1
      · exact hbelow j h2j hj
    rw [h.count]
    omega
  · have hne : fd.toNat ≠ i := by
      intro heq
      rw [← heq] at hfree
      have hclosed : (pcb.fileDescArr fd.toNat).flags = 0 := by simpa [Pcb.isOpen] using hfree
      exact hopened hclosed
    exact ⟨hne, Function.update_of_ne hne _ _⟩

/-- `open` of a regular file. -/
theorem openFd_fileFd {pcb : Pcb} (h : FdTable pcb) {filename : List UInt8} {d : Dentry} {len : Nat}
    (hlookup : readDentryByName img filename = some (d, len)) (htype : d.filetype = fileFiletype)
    (hroom : pcb.numOpenDescriptors < 8) :
    ∃ i : Nat, (openFd img filename pcb).2 = i ∧ i < (openFd img filename pcb).1.numOpenDescriptors ∧
      FileFd (openFd img filename pcb).1 i d.inodeNum 0 ∧
      ∀ fd inode off, FileFd pcb fd inode off → FileFd (openFd img filename pcb).1 fd inode off := by
  have htarget : openTarget d = some (fOps, d.inodeNum) := by
    unfold openTarget
    rw [htype]
    rfl
  obtain ⟨i, hret, hnum, hlt, hfd, hothers⟩ := openFd_fresh h hlookup htarget hroom
  refine ⟨i, hret, by rw [hnum]; exact hlt, ⟨Int.natCast_nonneg i, hfd⟩, ?_⟩
  intro fd inode off hfile
  have hopened : (pcb.fd fd).flags ≠ 0 := by
    rw [hfile.2]
    exact Int.one_ne_zero
  exact ⟨hfile.1, (hothers fd hopened).2.trans hfile.2⟩

/-- A new process that has opened `shell` twice. -/
def twoShells : Kernel :=
  let k := newProcess (initialKernel blankMemory) [] 1
  let k := { k with procs := (sysOpen smallImage k.schedTerm [115, 104, 101, 108, 108] k.procs).1 }
  { k with procs := (sysOpen smallImage k.schedTerm [115, 104, 101, 108, 108] k.procs).1 }

/-- Reads of both descriptors in turn, across the end of the file. -/
theorem two_streams_exact :
    ∃ st, run (readStep smallImage) (startStreams twoShells) [(2, 10), (3, 28), (2, 30)] = some st ∧
      StreamExact smallImage 2 1 st ∧ StreamExact smallImage 3 1 st := by
  have hsome : (run (readStep smallImage) (startStreams twoShells)
      [(2, 10), (3, 28), (2, 30)]).isSome = true := by decide +kernel
  obtain ⟨st, hst⟩ := Option.isSome_iff_exists.mp hsome
  have hexact := throughout_last
    (streams_exact smallImage twoShells [(2, 10), (3, 28), (2, 30)] (by decide)) hst
  exact ⟨st, hst, hexact 2 1 ⟨by decide, by decide +kernel⟩, hexact 3 1 ⟨by decide, by decide +kernel⟩⟩

end ByteVerse
