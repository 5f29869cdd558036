/-
  From the directory listing to the contents of a file.

  A program lists the directory with `read`, terminates each name it gets, opens it and reads the
  file until `read` returns 0.  `listAndRead` is that chain for one name.  The names make no trouble:
  `dir_read` delivers 32 bytes without a terminator, and `open` compares 32 bytes
  (`readDentryByName_listed`).  The inode numbers do: `file_read` takes the number 0 for the mark of
  a descriptor that is not a file, so a regular file with that number, which the format allows, is
  listed and opened and cannot be read (`listed_file_read_iff`).
-/
import ByteVerse.FileStream
import ByteVerse.CommandLine

set_option linter.unusedVariables false

namespace ByteVerse

open SlotTable Run

/-! ## Well-formed images -/

/-- What an image has to satisfy: at most 63 entries with distinct names that are not empty, inode
    numbers of regular files below the count, and data blocks below theirs. -/
structure WellFormed (img : Image) : Prop where
  entries : 0 ≤ img.dirCount ∧ img.dirCount ≤ 63
  named : ∀ i : Nat, i < img.dirCount → (img.direntries i).name ≠ []
  distinct : ∀ i j : Nat, i < img.dirCount → j < img.dirCount →
    (img.direntries i).name = (img.direntries j).name → i = j
  inode : ∀ i : Nat, i < img.dirCount → (img.direntries i).filetype = fileFiletype →
    0 ≤ (img.direntries i).inodeNum ∧ (img.direntries i).inodeNum < img.inodeCount
  length : ∀ n, 0 ≤ n → n < img.inodeCount → 0 ≤ (img.inodes n).length
  blocks : ∀ n, 0 ≤ n → n < img.inodeCount → ∀ i, 0 ≤ i → i < (img.inodes n).length →
    0 ≤ (img.inodes n).dataBlockNum (i.tdiv size4KB) ∧
      (img.inodes n).dataBlockNum (i.tdiv size4KB) < img.dataCount

theorem WellFormed.blocksInImage {img : Image} (h : WellFormed img) {n : Int} (h0 : 0 ≤ n)
    (hn : n < img.inodeCount) : BlocksInImage img (img.inodes n) :=
  fun i hi hlen => Int.le_of_lt (h.blocks n h0 hn i hi hlen).2

/-! ## The chain of calls -/

/-- Read a descriptor until `read` returns 0; `none` when it returns -1, or waits, or when the fuel
    (the number of reads) runs out. -/
def readToEnd (img : Image) (fd nbytes : Int) : Nat → Kernel → Option (List UInt8)
  | 0, _ => none
  | fuel + 1, k =>
    match sysRead img fd false nbytes k with
    | (_, none) => none
    | (k, some (ret, buf)) =>
      if ret = 0 then some []
      else if ret = -1 then none
      else (readToEnd img fd nbytes fuel k).map (buf.take ret.toNat ++ ·)

/-- Take the next name from directory descriptor `dirFd`, open it, and read it to the end. -/
def listAndRead (img : Image) (dirFd nbytes : Int) (fuel : Nat) (k : Kernel) :
    Option (List UInt8) :=
  match sysRead img dirFd false filenameLen k with
  | (_, none) => none
  | (k, some (cnt, buf)) =>
    if cnt ≤ 0 then none
    else
      let r := sysOpen img k.schedTerm (buf.take cnt.toNat ++ [0]) k.procs
      if r.2 = -1 then none
      else readToEnd img r.2 nbytes fuel { k with procs := r.1 }

/-- Descriptor `fd` of the process is one of the directory, and its next entry is `i`. -/
def DirFd (pcb : Pcb) (fd i : Int) : Prop :=
  0 ≤ fd ∧ fd < pcb.numOpenDescriptors ∧
    pcb.fd fd = { fops := some dOps, inodeNum := 0, fileOffset := i, flags := 1 }

/-! ## The name -/

variable {img : Image}

/-- A name of at most 32 bytes finds its own entry. -/
theorem readDentryByName_listed (h : WellFormed img) {i : Nat} (hi : i < img.dirCount) :
    readDentryByName img ((img.direntries i).name ++ [0]) =
      some (img.direntries i, (img.direntries i).name.length) := by
  have htext : (text ((img.direntries i).name ++ [0])).take filenameLen = (img.direntries i).name := by
    have hne : ∀ b ∈ (img.direntries i).name, b ≠ 0 := fun b hb => ne_zero_of_mem_text hb
    rw [text_append_zero hne]
    exact List.take_of_length_le (img.direntries i).name_length_le
  have hfind : (List.range img.dirCount.toNat).find? (fun j =>
      dentryMatches ((img.direntries i).name ++ [0]) (img.direntries j)) = some i := by
    rw [List.find?_range_eq_some]
    refine ⟨(dentryMatches_iff _ _).mpr htext.symm, List.mem_range.mpr (by omega), fun j hj => ?_⟩
    rw [Bool.not_eq_true', Bool.eq_false_iff, ne_eq, dentryMatches_iff, htext]
    intro heq
    have hji := h.distinct j i (by omega) hi heq
    omega
  unfold readDentryByName
  rw [hfind]
  have hlen : strlen (img.direntries i).filename.toList = (img.direntries i).name.length := rfl
  simp only [hlen, Nat.min_eq_left (img.direntries i).name_length_le]

/-- `strncpy` fills the buffer up with zeros. -/
theorem nameBytes_eq (d : Dentry) :
    nameBytes d = d.name ++ List.replicate (filenameLen - d.name.length) 0 := by
  have hle := d.name_length_le
  refine List.ext_getElem ?_ fun j h₁ h₂ => ?_
  · rw [nameBytes, List.length_map, List.length_range, List.length_append, List.length_replicate]
    omega
  · simp only [nameBytes, List.getElem_map, List.getElem_range]
    rw [List.getElem_append]
    split
    · rename_i hj
      exact List.getD_eq_getElem _ 0 hj
    · rename_i hj
      rw [List.getElem_replicate, List.getD_eq_default _ 0 (by omega)]

/-- Cut to the returned length, it is the name. -/
theorem take_nameBytes (d : Dentry) : (nameBytes d).take d.name.length = d.name := by
  rw [nameBytes_eq, List.take_left]

/-- A descriptor below the count is not refused. -/
theorem outOfBounds_of_lt {pcb : Pcb} {fd : Int} (h0 : 0 ≤ fd) (hlt : fd < pcb.numOpenDescriptors) :
    outOfBounds pcb fd = false := by
  simp only [outOfBounds, Bool.or_eq_false_iff, decide_eq_false_iff_not]
  omega

theorem readTarget_of_lt {pcb : Pcb} {fd : Int} (h0 : 0 ≤ fd) (hlt : fd < pcb.numOpenDescriptors) :
    readTarget pcb fd false = (pcb.fd fd).fops.bind FileOps.read := by
  unfold readTarget
  rw [outOfBounds_of_lt h0 hlt]
  rfl

theorem DirFd.readTarget {pcb : Pcb} {fd c : Int} (h : DirFd pcb fd c) :
    readTarget pcb fd false = some .dirRead := by
  rw [readTarget_of_lt h.1 h.2.1, h.2.2]
  rfl

/-- `dir_read` in front of an entry. -/
theorem dirRead_entry {pcb : Pcb} {fd : Int} {i : Nat} (h : DirFd pcb fd i) (hi : i < img.dirCount) :
    dirRead img fd pcb =
      (setFd fd.toNat { pcb.fd fd with fileOffset := (i : Int) + 1 } pcb.numOpenDescriptors pcb,
        ((img.direntries i).name.length : Int), nameBytes (img.direntries i)) := by
  obtain ⟨h0, hlt, hfd⟩ := h
  have hlen : strlen (img.direntries i).filename.toList = (img.direntries i).name.length := rfl
  unfold dirRead
  rw [outOfBounds_of_lt h0 hlt, hfd]
  simp only [readDentryByIndex, if_pos hi, Int.toNat_natCast, hlen,
    Nat.min_eq_left (img.direntries i).name_length_le]
  rw [if_neg Bool.false_ne_true, if_neg (by simp), if_neg (by omega)]

/-- **One `read` of the directory**: the name of the next entry, and its length. -/
theorem sysRead_dir {k : Kernel} {fd : Int} (nbytes : Int) {i : Nat} (hdir : DirFd (callerPcb k) fd i)
    (hi : i < img.dirCount) :
    (sysRead img fd false nbytes k).2 =
      some (((img.direntries i).name.length : Int), nameBytes (img.direntries i)) := by
  rw [sysRead_dirRead hdir.readTarget, dirRead_entry hdir hi]

/-! ## Reading to the end -/

/-- A `read` of a regular file that can be read. -/
theorem sysRead_file_ok {k : Kernel} {fd inode : Int} (nbytes : Int) {p : Nat}
    (hfile : FileFd (callerPcb k) fd inode p) (hlt : fd < (callerPcb k).numOpenDescriptors)
    (hne : inode ≠ 0) (hinode : inode < img.inodeCount)
    (hblocks : BlocksInImage img (img.inodes inode)) :
    let bytes := ((fileContent img (img.inodes inode)).drop p).take nbytes.toNat
    (sysRead img fd false nbytes k).2 = some ((bytes.length : Int), bytes) := by
  have htarget : readTarget (callerPcb k) fd false = some .fileRead := by
    rw [readTarget_of_lt hfile.1 hlt, hfile.2]
    rfl
  have hread : (readData img inode p nbytes).1 ≠ -1 :=
    readData_ne_neg_one hinode hblocks (Int.natCast_nonneg p)
  intro bytes
  rw [sysRead_fileRead htarget]
  unfold fileRead
  rw [outOfBounds_of_lt hfile.1 hlt, hfile.2]
  simp only [if_neg hne, if_neg hread, Bool.false_eq_true, if_false]
  rw [readData_spec hread]

/-- Reads of a regular file until 0 return all that follows the offset: each of them but the last
    returns something. -/
theorem readToEnd_file {fd inode nbytes : Int} (hn : 0 < nbytes) (hne : inode ≠ 0)
    (hinode : inode < img.inodeCount) (hblocks : BlocksInImage img (img.inodes inode)) :
    ∀ (fuel : Nat) (k : Kernel) (p : Nat), FileFd (callerPcb k) fd inode p →
      fd < (callerPcb k).numOpenDescriptors →
      (fileContent img (img.inodes inode)).length - p < fuel →
      readToEnd img fd nbytes fuel k = some ((fileContent img (img.inodes inode)).drop p) := by
  intro fuel
  induction fuel with
  | zero => intro k p _ _ hfuel; omega
  | succ fuel ih =>
    intro k p hfile hlt hfuel
    have hret := sysRead_file_ok nbytes hfile hlt hne hinode hblocks
    simp only at hret
    generalize hread : sysRead img fd false nbytes k = r at hret
    obtain ⟨k', result⟩ := r
    simp only at hret
    subst hret
    simp only [readToEnd, hread]
    by_cases hend : (fileContent img (img.inodes inode)).length ≤ p
    · rw [List.drop_of_length_le hend, List.take_nil]
      exact if_pos rfl
    · have hlen : (((fileContent img (img.inodes inode)).drop p).take nbytes.toNat).length =
          min nbytes.toNat ((fileContent img (img.inodes inode)).length - p) := by
        rw [List.length_take, List.length_drop]
      have hstep := sysRead_file hfile hread (by omega)
      have hcount : (callerPcb k').numOpenDescriptors = (callerPcb k).numOpenDescriptors := by
        have hpcb : callerPcb k' = readPcb img fd false nbytes (callerPcb k) := by
          rw [← callerPcb_sysRead, hread]
        rw [hpcb]
        exact (readPcb_same img fd false nbytes _).2.2
      rw [if_neg (by omega), if_neg (by omega),
        ih k' _ hstep.2.2 (by rw [hcount]; exact hlt) (by omega)]
      rw [Option.map_some, Int.toNat_natCast, List.take_length, ← List.drop_drop]
      exact congrArg some (List.prefix_iff_eq_append.mp (List.take_prefix _ _))

/-- A descriptor with inode number 0 is not read at all. -/
theorem readToEnd_zero {k : Kernel} {fd nbytes off : Int} (hfile : FileFd (callerPcb k) fd 0 off)
    (hlt : fd < (callerPcb k).numOpenDescriptors) (fuel : Nat) :
    readToEnd img fd nbytes fuel k = none := by
  cases fuel with
  | zero => rfl
  | succ fuel =>
    have htarget : readTarget (callerPcb k) fd false = some .fileRead := by
      rw [readTarget_of_lt hfile.1 hlt, hfile.2]
      rfl
    have hret : (sysRead img fd false nbytes k).2 = some (-1, []) := by
      rw [sysRead_fileRead htarget, fileRead, hfile.2]
      split <;> rfl
    generalize hread : sysRead img fd false nbytes k = r at hret
    obtain ⟨k', result⟩ := r
    simp only at hret
    subst hret
    simp only [readToEnd, hread]
    rfl

/-! ## Every listed file -/

/-- The chain up to the first read of the file: the entry's file is open, at offset 0. -/
theorem listAndRead_eq (hwf : WellFormed img) {k : Kernel} (htable : FdTable (callerPcb k))
    (hroom : (callerPcb k).numOpenDescriptors < 8) {dirFd : Int} {i : Nat}
    (hi : i < img.dirCount) (hdir : DirFd (callerPcb k) dirFd i)
    (htype : (img.direntries i).filetype = fileFiletype) (nbytes : Int) :
    ∃ k' fd, (∀ fuel, listAndRead img dirFd nbytes fuel k = readToEnd img fd nbytes fuel k') ∧
      FileFd (callerPcb k') fd (img.direntries i).inodeNum 0 ∧
      fd < (callerPcb k').numOpenDescriptors := by
  have hret := sysRead_dir filenameLen hdir hi
  generalize hread : sysRead img dirFd false filenameLen k = r at hret
  obtain ⟨k₁, result⟩ := r
  simp only at hret
  subst hret
  have hpcb : callerPcb k₁ = readPcb img dirFd false filenameLen (callerPcb k) := by
    rw [← callerPcb_sysRead, hread]
  have htable₁ : FdTable (callerPcb k₁) := by
    have hstep : fdStep img k (.read dirFd false filenameLen) = some k₁ := by
      show some _ = _
      rw [hread]
    exact htable.step hstep
  have hroom₁ : (callerPcb k₁).numOpenDescriptors < 8 := by
    rw [hpcb, (readPcb_same img dirFd false filenameLen _).2.2]
    exact hroom
  obtain ⟨fd, hfd, hlt, hfile, -⟩ :=
    openFd_fileFd htable₁ (readDentryByName_listed hwf hi) htype hroom₁
  have hname : 0 < (img.direntries i).name.length := List.length_pos_iff.mpr (hwf.named i hi)
  let r := sysOpen img k₁.schedTerm ((img.direntries i).name ++ [0]) k₁.procs
  have hopened : callerPcb { k₁ with procs := r.1 } =
      (openFd img ((img.direntries i).name ++ [0]) (callerPcb k₁)).1 :=
    setPcb_running k₁.procs k₁.schedTerm _
  refine ⟨{ k₁ with procs := r.1 }, fd, fun fuel => ?_, ?_, ?_⟩
  · simp only [listAndRead, hread]
    rw [if_neg (by omega), Int.toNat_natCast, take_nameBytes]
    have hr : r.2 = fd := hfd
    rw [show sysOpen img k₁.schedTerm ((img.direntries i).name ++ [0]) k₁.procs = r from rfl, hr,
      if_neg (by omega)]
  · rw [hopened]
    exact hfile
  · rw [hopened]
    exact hlt

/-- **Every listed file can be read, except for inode number 0.**  For every well-formed image, every
    entry of a regular file, every process that has the directory open at that entry and a free
    descriptor, and every buffer size: listing the name, opening it and reading until 0 yields the
    bytes of the entry's inode exactly when the inode number is not 0. -/
theorem listed_file_read_iff (hwf : WellFormed img) (k : Kernel) (htable : FdTable (callerPcb k))
    (hroom : (callerPcb k).numOpenDescriptors < 8) (dirFd : Int) (i : Nat)
    (hi : i < img.dirCount) (hdir : DirFd (callerPcb k) dirFd i)
    (htype : (img.direntries i).filetype = fileFiletype) (nbytes : Int) (hn : 0 < nbytes) :
    let content := fileContent img (img.inodes (img.direntries i).inodeNum)
    (∀ fuel, content.length < fuel → listAndRead img dirFd nbytes fuel k = some content) ↔
      (img.direntries i).inodeNum ≠ 0 := by
  intro content
  obtain ⟨k', fd, hchain, hfile, hlt⟩ := listAndRead_eq hwf htable hroom hi hdir htype nbytes
  obtain ⟨h0, hcount⟩ := hwf.inode i hi htype
  constructor
  · intro hall hzero
    rw [hzero] at hfile
    have hread := hall (content.length + 1) (Nat.lt_succ_self _)
    rw [hchain, readToEnd_zero hfile hlt] at hread
    cases hread
  · intro hne fuel hfuel
    rw [hchain, readToEnd_file hn hne hcount (hwf.blocksInImage h0 hcount) fuel k' 0 hfile hlt hfuel,
      List.drop_zero]

/-! ### A listing of two entries -/

/-- The directory, and a file `shell` of 28 bytes with the given inode number. -/
def shellImage (inodeNum : Int) : Image :=
  { smallImage with
    dirCount := 2
    direntries := fun i => if i = 0 then dotEntry else { shellEntry with inodeNum := inodeNum }
    inodes := fun _ => { length := 28, dataBlockNum := fun _ => 0 } }

theorem shellImage_wellFormed {inodeNum : Int} (h : inodeNum = 0 ∨ inodeNum = 1) :
    WellFormed (shellImage inodeNum) := by
  have htwo : ∀ i : Nat, (i : Int) < (shellImage inodeNum).dirCount → i = 0 ∨ i = 1 := by
    intro i hi
    have hlt : (i : Int) < 2 := hi
    omega
  refine ⟨(show (0 : Int) ≤ 2 ∧ (2 : Int) ≤ 63 by decide), fun i hi => ?_,
    fun i j hi hj heq => ?_, fun i hi htype => ?_, fun n _ _ => (show (0 : Int) ≤ 28 by decide),
    fun n _ _ i _ _ => (show (0 : Int) ≤ 0 ∧ (0 : Int) < 1 by decide)⟩
  · rcases htwo i hi with rfl | rfl
    · show dotEntry.name ≠ []
      decide
    · show shellEntry.name ≠ []
      decide
  · have hne : dotEntry.name ≠ shellEntry.name := by decide
    rcases htwo i hi with rfl | rfl <;> rcases htwo j hj with rfl | rfl
    · rfl
    · exact absurd heq hne
    · exact absurd heq.symm hne
    · rfl
  · rcases htwo i hi with rfl | rfl
    · cases htype
    · show 0 ≤ inodeNum ∧ inodeNum < 2
      omega

/-- A new process that has opened the directory and read its first entry. -/
def listingKernel (img : Image) : Kernel :=
  let k := newProcess (initialKernel blankMemory) [] 1
  let k := { k with procs := (sysOpen img k.schedTerm [46] k.procs).1 }
  (sysRead img 2 false filenameLen k).1

theorem listingKernel_ready {inodeNum : Int} (h : inodeNum = 0 ∨ inodeNum = 1) :
    FdTable (callerPcb (listingKernel (shellImage inodeNum))) ∧
      (callerPcb (listingKernel (shellImage inodeNum))).numOpenDescriptors < 8 ∧
      DirFd (callerPcb (listingKernel (shellImage inodeNum))) 2 1 := by
  rcases h with rfl | rfl
  · refine ⟨⟨by decide +kernel, by decide +kernel, by decide +kernel⟩, by decide +kernel, by decide, ?_⟩
    decide +kernel
  · refine ⟨⟨by decide +kernel, by decide +kernel, by decide +kernel⟩, by decide +kernel, by decide, ?_⟩
    decide +kernel

/-- With inode number 1 the 28 bytes are read. -/
theorem shell_is_read :
    listAndRead (shellImage 1) 2 10 29 (listingKernel (shellImage 1)) =
      some (fileContent (shellImage 1) ((shellImage 1).inodes 1)) := by
  obtain ⟨htable, hroom, hdir⟩ := listingKernel_ready (Or.inr rfl)
  have hread := (listed_file_read_iff (shellImage_wellFormed (Or.inr rfl)) _ htable hroom 2 1
    (by decide) hdir rfl 10 (by decide)).mpr (by decide)
  exact hread 29 (by decide)

/-- With inode number 0 the same file cannot be read. -/
theorem inode_zero_unreadable :
    WellFormed (shellImage 0) ∧
      ¬ ∃ fuel, listAndRead (shellImage 0) 2 10 fuel (listingKernel (shellImage 0)) =
        some (fileContent (shellImage 0) ((shellImage 0).inodes 0)) := by
  have hwf := shellImage_wellFormed (Or.inl rfl)
  obtain ⟨htable, hroom, hdir⟩ := listingKernel_ready (Or.inl rfl)
  obtain ⟨k', fd, hchain, hfile, hlt⟩ :=
    listAndRead_eq hwf htable hroom (show ((1 : Nat) : Int) < 2 by decide) hdir rfl 10
  refine ⟨hwf, ?_⟩
  rintro ⟨fuel, hread⟩
  rw [hchain, readToEnd_zero hfile hlt] at hread
  cases hread

end ByteVerse
