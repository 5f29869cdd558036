/-
  `ece391cat.c` and `ece391ls.c` over the kernel.

  Both read a descriptor until `read` returns 0 and write what they get to the standard output.  Put
  together with what the kernel's `read` and `write` do, that is what the user is told: `cat` prints
  the bytes of the file that `getargs` names, and all of them, or why it cannot (`cat_prints`); `ls` prints the
  names of the directory in order, one a row (`ls_prints`).
-/
import ByteVerse.UserCalls

set_option linter.unusedVariables false

namespace ByteVerse

open SlotTable

/-! ## The programs -/

/-- The loop that `cat` and `ls` share: `finish` makes of a piece in the buffer what is written. -/
def copyLoop (img : Image) (nbytes : Int) (failed : List UInt8)
    (finish : Int → List UInt8 → List UInt8 × Int) (fd : Int) : Nat → List UInt8 → UserM Int
  | 0, _ => fun _ => none
  | fuel + 1, buf => do
    let r ← ece391Read img fd nbytes
    let buf := overwrite r.2 buf
    if r.1 = 0 then pure 0
    else if r.1 = -1 then
      ece391Fdputs 1 failed
      pure 3
    else
      let out := finish r.1 buf
      let ret ← ece391Write 1 out.1 out.2
      if ret = -1 then pure 3 else copyLoop img nbytes failed finish fd fuel out.1

def catLoop (img : Image) : Int → Nat → List UInt8 → UserM Int :=
  copyLoop img 1024 (literal "file read failed\n") fun cnt buf => (buf, cnt)

def lsLoop (img : Image) : Int → Nat → List UInt8 → UserM Int :=
  copyLoop img 32 (literal "directory entry read failed\n") fun cnt buf => (buf.set cnt.toNat 10, cnt + 1)

/-- `main` of `cat`; `buf` is the buffer as its stack frame has it. -/
def catMain (img : Image) (fuel : Nat) (buf : List UInt8) : UserM Int := do
  let r ← ece391Getargs
  let buf := overwrite r.2 buf
  if r.1 ≠ 0 then
    ece391Fdputs 1 (literal "could not read arguments\n")
    pure 3
  else
    let fd ← ece391Open img buf
    if fd = -1 then
      ece391Fdputs 1 (literal "file not found\n")
      pure 2
    else catLoop img fd fuel buf

/-- `main` of `ls`. -/
def lsMain (img : Image) (fuel : Nat) (buf : List UInt8) : UserM Int := do
  let fd ← ece391Open img (literal ".")
  if fd = -1 then
    ece391Fdputs 1 (literal "directory open failed\n")
    pure 2
  else lsLoop img fd fuel buf

/-! ## What a descriptor delivers -/

/-- What a read of a file or of the directory returns. -/
def readResult (img : Image) (f : ReadFn) (fd nbytes : Int) (pcb : Pcb) : Int × List UInt8 :=
  match f with
  | .dirRead => (dirRead img fd pcb).2
  | _ => (fileRead img fd nbytes pcb).2

/-- Reads of `nbytes` bytes deliver these pieces, none of them empty, and then the end. -/
inductive Delivers (img : Image) (fd nbytes : Int) : Pcb → List (List UInt8) → Prop
  | done {pcb : Pcb} {f : ReadFn} {stored : List UInt8} (htarget : readTarget pcb fd false = some f)
      (hf : f = .fileRead ∨ f = .dirRead) (hresult : readResult img f fd nbytes pcb = (0, stored)) :
      Delivers img fd nbytes pcb []
  | piece {pcb : Pcb} {f : ReadFn} {stored piece : List UInt8} {pieces : List (List UInt8)}
      (htarget : readTarget pcb fd false = some f) (hf : f = .fileRead ∨ f = .dirRead)
      (hresult : readResult img f fd nbytes pcb = ((piece.length : Int), stored)) (hpiece : piece ≠ [])
      (hleading : piece <+: stored) (hfits : stored.length ≤ nbytes.toNat)
      (hrest : Delivers img fd nbytes (readPcb img fd false nbytes pcb) pieces) :
      Delivers img fd nbytes pcb (piece :: pieces)

section Copying

variable {img : Image} {fd nbytes : Int} {k : Kernel}

theorem sysRead_result {f : ReadFn} (htarget : readTarget (callerPcb k) fd false = some f)
    (hf : f = .fileRead ∨ f = .dirRead) :
    (sysRead img fd false nbytes k).2 = some (readResult img f fd nbytes (callerPcb k)) := by
  rcases hf with rfl | rfl
  · exact sysRead_fileRead htarget
  · exact sysRead_dirRead htarget

theorem FdTable.afterRead {pcb : Pcb} (h : FdTable pcb) (img : Image) (fd nbytes : Int) :
    FdTable (readPcb img fd false nbytes pcb) := by
  obtain ⟨hopen, hfops, hnum⟩ := readPcb_same img fd false nbytes pcb
  constructor
  · rw [hnum, hopen]
    exact h.count
  · rw [hopen, hfops]
    exact h.stdin
  · rw [hopen, hfops]
    exact h.stdout

/-- The loop prints the pieces, each as `decorate` has it.  `Good` is what the rounds keep of the buffer. -/
theorem copyLoop_prints {failed : List UInt8} {finish : Int → List UInt8 → List UInt8 × Int}
    {Good : List UInt8 → Prop} {decorate : List UInt8 → List UInt8}
    (hfinish : ∀ piece stored buf : List UInt8, Good buf → piece <+: stored → stored.length ≤ nbytes.toNat →
      let out := finish piece.length (overwrite stored buf)
      Good out.1 ∧ writtenBytes out.1 out.2 = decorate piece ∧ out.2 ≠ -1)
    {pcb : Pcb} {pieces : List (List UInt8)} (h : Delivers img fd nbytes pcb pieces) :
    ∀ {k : Kernel} {buf : List UInt8} {fuel : Nat}, callerPcb k = pcb → FdTable pcb → Good buf →
      pieces.length < fuel →
      ∃ k', copyLoop img nbytes failed finish fd fuel buf k = some (0, k') ∧
        Outputs k k' (pieces.flatMap decorate) := by
  induction h with
  | @done pcb f stored htarget hf hresult =>
    intro k buf fuel hpcb htable hgood hfuel
    obtain ⟨fuel, rfl⟩ : ∃ n, fuel = n + 1 := ⟨fuel - 1, by omega⟩
    subst hpcb
    obtain ⟨k₁, hcall, -, -, hprints⟩ :=
      read_prints img htarget hf nbytes ((sysRead_result htarget hf).trans (congrArg some hresult))
    refine ⟨k₁, ?_, hprints⟩
    rw [copyLoop, UserM.bind_some hcall, if_pos rfl]
    rfl
  | @piece pcb f stored piece pieces htarget hf hresult hpiece hleading hfits hrest ih =>
    intro k buf fuel hpcb htable hgood hfuel
    obtain ⟨fuel, rfl⟩ : ∃ n, fuel = n + 1 := ⟨fuel - 1, by omega⟩
    subst hpcb
    obtain ⟨k₁, hcall, hpcb₁, -, hprints⟩ :=
      read_prints img htarget hf nbytes ((sysRead_result htarget hf).trans (congrArg some hresult))
    obtain ⟨hgood', hwritten, hret⟩ := hfinish piece stored buf hgood hleading hfits
    have htable₁ : FdTable (callerPcb k₁) := hpcb₁ ▸ htable.afterRead img fd nbytes
    obtain ⟨k₂, hwrite, hpcb₂, hprints₂⟩ := write_prints htable₁
      (finish piece.length (overwrite stored buf)).1 (finish piece.length (overwrite stored buf)).2
    obtain ⟨k₃, hloop, hprints₃⟩ := ih (hpcb₂.trans hpcb₁) (htable.afterRead img fd nbytes) hgood'
      (Nat.lt_of_succ_lt_succ hfuel)
    refine ⟨k₃, ?_, ?_⟩
    · have hlen : 0 < piece.length := List.length_pos_iff.mpr hpiece
      rw [copyLoop, UserM.bind_some hcall, if_neg (by simp; omega), if_neg (by omega),
        UserM.bind_some hwrite, if_neg hret]
      exact hloop
    · rw [List.flatMap_cons, ← hwritten]
      exact (hprints.trans hprints₂).trans hprints₃

/-! ### Files and the directory -/

variable {pcb : Pcb} {inode : Int}

/-- `file_read` of a file that can be read. -/
theorem fileRead_ok {p : Nat} (hfile : FileFd pcb fd inode p) (hlt : fd < pcb.numOpenDescriptors)
    (hne : inode ≠ 0) (hinode : inode < img.inodeCount) (hblocks : BlocksInImage img (img.inodes inode))
    (nbytes : Int) :
    let bytes := ((fileContent img (img.inodes inode)).drop p).take nbytes.toNat
    fileRead img fd nbytes pcb =
      (setFd fd.toNat { pcb.fd fd with fileOffset := (p : Int) + bytes.length } pcb.numOpenDescriptors pcb,
        (bytes.length : Int), bytes) := by
  intro bytes
  have hread : (readData img inode p nbytes).1 ≠ -1 :=
    readData_ne_neg_one hinode hblocks (Int.natCast_nonneg p)
  unfold fileRead
  rw [outOfBounds_of_lt hfile.1 hlt, hfile.2]
  simp only [if_neg hne, if_neg hread, Bool.false_eq_true, if_false]
  rw [readData_spec hread]

/-- A read of it, and where it leaves the descriptor. -/
theorem read_fileFd {p : Nat} (hfile : FileFd pcb fd inode p) (hlt : fd < pcb.numOpenDescriptors)
    (hne : inode ≠ 0) (hinode : inode < img.inodeCount) (hblocks : BlocksInImage img (img.inodes inode))
    (nbytes : Int) :
    let bytes := ((fileContent img (img.inodes inode)).drop p).take nbytes.toNat
    readTarget pcb fd false = some .fileRead ∧
      readResult img .fileRead fd nbytes pcb = ((bytes.length : Int), bytes) ∧
      FileFd (readPcb img fd false nbytes pcb) fd inode (p + bytes.length : Nat) := by
  intro bytes
  have htarget : readTarget pcb fd false = some .fileRead := by
    rw [readTarget_of_lt hfile.1 hlt, hfile.2]
    rfl
  have hresult := fileRead_ok hfile hlt hne hinode hblocks nbytes
  refine ⟨htarget, congrArg Prod.snd hresult, hfile.1, ?_⟩
  rw [readPcb, htarget]
  simp only [hresult]
  show Function.update _ fd.toNat _ fd.toNat = _
  rw [Function.update_self, hfile.2]
  rfl

/-- A regular file delivers its bytes. -/
theorem delivers_file (hn : 0 < nbytes) (hne : inode ≠ 0) (hinode : inode < img.inodeCount)
    (hblocks : BlocksInImage img (img.inodes inode)) (n : Nat) :
    ∀ {pcb : Pcb} {p : Nat}, FileFd pcb fd inode p → fd < pcb.numOpenDescriptors →
      (fileContent img (img.inodes inode)).length - p ≤ n →
      ∃ pieces, Delivers img fd nbytes pcb pieces ∧ pieces.length ≤ n ∧
        pieces.flatten = (fileContent img (img.inodes inode)).drop p := by
  induction n with
  | zero =>
    intro pcb p hfile hlt hend
    obtain ⟨htarget, hresult, -⟩ := read_fileFd hfile hlt hne hinode hblocks nbytes
    have hdrop : (fileContent img (img.inodes inode)).drop p = [] := List.drop_of_length_le (by omega)
    simp only [hdrop, List.take_nil] at hresult
    exact ⟨[], .done htarget (.inl rfl) hresult, Nat.le_refl 0, hdrop.symm⟩
  | succ n ih =>
    intro pcb p hfile hlt hleft
    obtain ⟨htarget, hresult, hnext⟩ := read_fileFd hfile hlt hne hinode hblocks nbytes
    generalize hpiece : ((fileContent img (img.inodes inode)).drop p).take nbytes.toNat = piece at hresult hnext
    have hlen : piece.length = min nbytes.toNat ((fileContent img (img.inodes inode)).length - p) := by
      rw [← hpiece, List.length_take, List.length_drop]
    by_cases hend : (fileContent img (img.inodes inode)).length ≤ p
    · have hdrop : (fileContent img (img.inodes inode)).drop p = [] := List.drop_of_length_le hend
      have hnone : piece = [] := List.eq_nil_of_length_eq_zero (by omega)
      subst hnone
      exact ⟨[], .done htarget (.inl rfl) hresult, Nat.zero_le _, hdrop.symm⟩
    · have hcount := (readPcb_same img fd false nbytes pcb).2.2
      obtain ⟨pieces, hdelivers, hnum, hflat⟩ := ih hnext (by rw [hcount]; exact hlt) (by omega)
      refine ⟨piece :: pieces, .piece htarget (.inl rfl) hresult ?_ (List.prefix_refl _) (by omega) hdelivers,
        Nat.succ_le_succ hnum, ?_⟩
      · exact List.ne_nil_of_length_pos (by omega)
      · rw [List.flatten_cons, hflat, ← List.drop_drop]
        have hleading : piece <+: (fileContent img (img.inodes inode)).drop p := hpiece ▸ List.take_prefix _ _
        exact List.prefix_iff_eq_append.mp hleading

/-- A read of the directory in front of an entry. -/
theorem read_dirFd {i : Nat} (hdir : DirFd pcb fd i) (hi : i < img.dirCount) (nbytes : Int) :
    readResult img .dirRead fd nbytes pcb =
        (((img.direntries i).name.length : Int), nameBytes (img.direntries i)) ∧
      DirFd (readPcb img fd false nbytes pcb) fd (i + 1 : Nat) := by
  have hresult := dirRead_entry hdir hi
  refine ⟨congrArg Prod.snd hresult, hdir.1, ?_⟩
  rw [readPcb, hdir.readTarget]
  simp only [hresult]
  refine ⟨hdir.2.1, ?_⟩
  show Function.update _ fd.toNat _ fd.toNat = _
  rw [Function.update_self, hdir.2.2]
  rfl

/-- And behind the last one. -/
theorem read_dirFd_end {i : Nat} (hdir : DirFd pcb fd i) (hi : img.dirCount ≤ i) (nbytes : Int) :
    readResult img .dirRead fd nbytes pcb = (0, []) := by
  have hend : listingEntry img i = (0, []) := if_neg (by omega)
  rw [← hend]
  exact congrArg Prod.snd (dirRead_end hdir hi)

/-- The directory delivers its names. -/
theorem delivers_dir (hwf : WellFormed img) (hn : filenameLen ≤ nbytes.toNat) (n : Nat) :
    ∀ {pcb : Pcb} {i : Nat}, DirFd pcb fd i → i + n = img.dirCount.toNat →
      Delivers img fd nbytes pcb ((List.range' i n).map fun j => (img.direntries j).name) := by
  induction n with
  | zero =>
    intro pcb i hdir hi
    exact .done hdir.readTarget (.inr rfl) (read_dirFd_end hdir (by omega) nbytes)
  | succ n ih =>
    intro pcb i hdir hi
    have hlt : (i : Int) < img.dirCount := by omega
    obtain ⟨hresult, hnext⟩ := read_dirFd hdir hlt nbytes
    refine .piece hdir.readTarget (.inr rfl) hresult (hwf.named i hlt) ?_ ?_ (ih hnext (by omega))
    · rw [nameBytes_eq]
      exact List.prefix_append _ _
    · rw [nameBytes, List.length_map, List.length_range]
      exact hn

end Copying

/-! ## `cat` -/

/-- The names of the directory, in order. -/
def entryNames (img : Image) : List (List UInt8) :=
  (List.range img.dirCount.toNat).map fun j => (img.direntries j).name

/-- The return value of `cat` and what it prints, for the file that its arguments name. -/
def catAnswer (img : Image) (args : Int × List UInt8) (buf : List UInt8) : Int × List UInt8 :=
  if args.1 ≠ 0 then (3, text (literal "could not read arguments\n"))
  else
    match readDentryByName img (overwrite args.2 buf) with
    | none => (2, text (literal "file not found\n"))
    | some (d, _) =>
      if d.filetype = fileFiletype then
        if d.inodeNum = 0 then (3, text (literal "file read failed\n"))
        else (0, fileContent img (img.inodes d.inodeNum))
      else if d.filetype = dirFiletype then (0, (entryNames img).flatten)
      else (2, text (literal "file not found\n"))

section Cat

variable {img : Image} {k : Kernel} {fd : Int}

theorem readDentryByName_mem {fname : List UInt8} {d : Dentry} {n : Nat}
    (h : readDentryByName img fname = some (d, n)) : ∃ i : Nat, i < img.dirCount ∧ d = img.direntries i := by
  unfold readDentryByName at h
  split at h
  case h_1 i hfind =>
    have hi := List.mem_range.mp (List.mem_of_find?_eq_some hfind)
    exact ⟨i, by omega, (congrArg Prod.fst (Option.some.inj h)).symm⟩
  case h_2 => cases h

/-- The rounds of `cat` write the pieces as they are. -/
theorem catLoop_prints {pieces : List (List UInt8)} (h : Delivers img fd 1024 (callerPcb k) pieces)
    (htable : FdTable (callerPcb k)) {fuel : Nat} (hfuel : pieces.length < fuel) (buf : List UInt8) :
    ∃ k', catLoop img fd fuel buf k = some (0, k') ∧ Outputs k k' pieces.flatten := by
  have hfinish : ∀ piece stored buf : List UInt8, (fun _ : List UInt8 => True) buf → piece <+: stored →
      stored.length ≤ (1024 : Int).toNat →
      let out : List UInt8 × Int := (overwrite stored buf, piece.length)
      True ∧ writtenBytes out.1 out.2 = id piece ∧ out.2 ≠ -1 := by
    intro piece stored buf _ hleading _
    refine ⟨trivial, ?_, by simp⟩
    have hle := hleading.length_le
    refine (writtenBytes_of_le ?_).trans ?_
    · rw [overwrite, List.length_append]
      omega
    · rw [overwrite, List.take_append_of_le_length hle]
      exact (List.prefix_iff_eq_take.mp hleading).symm
  obtain ⟨k', hrun, hprints⟩ := @copyLoop_prints img fd 1024 (literal "file read failed\n")
    (fun cnt buf => (buf, cnt)) (fun _ => True) id hfinish _ _ h k buf fuel rfl htable trivial hfuel
  rw [List.flatMap_id] at hprints
  exact ⟨k', hrun, hprints⟩

/-- A first read that fails. -/
theorem catLoop_fails (htable : FdTable (callerPcb k)) {f : ReadFn}
    (htarget : readTarget (callerPcb k) fd false = some f) (hf : f = .fileRead ∨ f = .dirRead)
    (hresult : readResult img f fd 1024 (callerPcb k) = (-1, [])) (fuel : Nat) (buf : List UInt8) :
    ∃ k', catLoop img fd (fuel + 1) buf k = some (3, k') ∧
      Outputs k k' (text (literal "file read failed\n")) := by
  obtain ⟨k₁, hcall, hpcb, -, hprints⟩ :=
    read_prints img htarget hf 1024 ((sysRead_result htarget hf).trans (congrArg some hresult))
  have htable₁ : FdTable (callerPcb k₁) := hpcb ▸ htable.afterRead img fd 1024
  obtain ⟨k₂, hputs, -, hprints₂⟩ := fdputs_prints htable₁ (literal "file read failed\n")
  refine ⟨k₂, ?_, hprints.trans hprints₂⟩
  rw [catLoop, copyLoop, UserM.bind_some hcall, if_neg (by decide), if_pos rfl, UserM.bind_some hputs]
  rfl

end Cat

/-- `cat`, whatever `getargs` delivers to it, on every well-formed image, for a process with a free
    descriptor: it prints the bytes of the file of that name, all of them and in order, or the names of the
    directory, or the one message that says why not, and returns the value that goes with it; the
    screen goes on with that text, if it has no backspace in it.  (The clock is left out: a read of it
    waits.) -/
theorem cat_prints {img : Image} (hwf : WellFormed img) {k : Kernel} (htable : FdTable (callerPcb k))
    (hroom : (callerPcb k).numOpenDescriptors < 8) (buf : List UInt8)
    (hclock : ∀ d n, readDentryByName img (overwrite (getargs false k.procs).2 buf) = some (d, n) →
      d.filetype ≠ userFiletype) :
    ∃ bound, ∀ fuel, bound ≤ fuel → ∃ k',
      catMain img fuel buf k = some ((catAnswer img (getargs false k.procs) buf).1, k') ∧
      Outputs k k' (catAnswer img (getargs false k.procs) buf).2 ∧
      ∀ before, ShowsRows k.schedTerm k.con (screenRows before) →
        8 ∉ (catAnswer img (getargs false k.procs) buf).2 →
        ShowsRows k.schedTerm k'.con
          (screenRows (before ++ (catAnswer img (getargs false k.procs) buf).2)) := by
  suffices h : ∃ bound, ∀ fuel, bound ≤ fuel → ∃ k',
      catMain img fuel buf k = some ((catAnswer img (getargs false k.procs) buf).1, k') ∧
      Outputs k k' (catAnswer img (getargs false k.procs) buf).2 by
    obtain ⟨bound, hbound⟩ := h
    refine ⟨bound, fun fuel hfuel => ?_⟩
    obtain ⟨k', hrun, hprints⟩ := hbound fuel hfuel
    exact ⟨k', hrun, hprints, fun before hshows hout => hprints.shows hout hshows⟩
  generalize hargs : getargs false k.procs = args
  rw [hargs] at hclock
  have hcall : ece391Getargs k = some (args, k) := by
    rw [← hargs]
    rfl
  unfold catAnswer
  by_cases hret : args.1 ≠ 0
  · -- no arguments
    obtain ⟨k', hputs, -, hprints⟩ := fdputs_prints htable (literal "could not read arguments\n")
    refine ⟨0, fun fuel _ => ⟨k', ?_, ?_⟩⟩
    · rw [if_pos hret, catMain, UserM.bind_some hcall, if_pos hret, UserM.bind_some hputs]
      rfl
    · rwa [if_pos hret]
  simp only [if_neg hret]
  generalize hname : overwrite args.2 buf = fname at hclock ⊢
  obtain ⟨k₁, hopen, hpcb, hprints₁⟩ := open_prints img k fname
  have hstart : ∀ fuel, catMain img fuel buf k =
      (if (openFd img fname (callerPcb k)).2 = -1 then do
        ece391Fdputs 1 (literal "file not found\n")
        pure 2
      else catLoop img (openFd img fname (callerPcb k)).2 fuel fname) k₁ := by
    intro fuel
    rw [catMain, UserM.bind_some hcall, if_neg hret, hname, UserM.bind_some hopen]
  have htable₁ : FdTable (callerPcb k₁) := hpcb ▸ htable.afterOpen img fname
  have hrefused : (openFd img fname (callerPcb k)).2 = -1 → ∃ bound, ∀ fuel, bound ≤ fuel → ∃ k',
      catMain img fuel buf k = some (2, k') ∧ Outputs k k' (text (literal "file not found\n")) := by
    intro hopened
    obtain ⟨k₂, hputs, -, hprints₂⟩ := fdputs_prints htable₁ (literal "file not found\n")
    refine ⟨0, fun fuel _ => ⟨k₂, ?_, hprints₁.trans hprints₂⟩⟩
    rw [hstart, if_pos hopened, UserM.bind_some hputs]
    rfl
  have hloop : ∀ {pieces : List (List UInt8)}, (openFd img fname (callerPcb k)).2 ≠ -1 →
      Delivers img (openFd img fname (callerPcb k)).2 1024 (callerPcb k₁) pieces →
      ∃ bound, ∀ fuel, bound ≤ fuel → ∃ k',
        catMain img fuel buf k = some (0, k') ∧ Outputs k k' pieces.flatten := by
    intro pieces hopened hdelivers
    refine ⟨pieces.length + 1, fun fuel hfuel => ?_⟩
    obtain ⟨k₂, hrun, hprints₂⟩ := catLoop_prints hdelivers htable₁ hfuel fname
    refine ⟨k₂, ?_, hprints₁.trans hprints₂⟩
    rw [hstart, if_neg hopened]
    exact hrun
  rcases hlookup : readDentryByName img fname with _ | ⟨d, n⟩
  · refine hrefused ?_
    rw [openFd, if_neg (by simp only [numFds]; omega), hlookup]
  obtain ⟨i, hi, hd⟩ := readDentryByName_mem hlookup
  simp only
  by_cases hfile : d.filetype = fileFiletype
  · rw [if_pos hfile]
    obtain ⟨j, hret, hlt, hfd, -⟩ := openFd_fileFd htable hlookup hfile hroom
    rw [← hpcb] at hlt hfd
    have hopened : (openFd img fname (callerPcb k)).2 ≠ -1 := by omega
    by_cases hzero : d.inodeNum = 0
    · rw [if_pos hzero]
      have htarget : readTarget (callerPcb k₁) j false = some .fileRead := by
        rw [readTarget_of_lt (Int.natCast_nonneg j) hlt, hfd.2]
        rfl
      have hfails : readResult img .fileRead j 1024 (callerPcb k₁) = (-1, []) := by
        show (fileRead img j 1024 (callerPcb k₁)).2 = _
        rw [fileRead, outOfBounds_of_lt (Int.natCast_nonneg j) hlt, hfd.2, hzero]
        rfl
      refine ⟨1, fun fuel hfuel => ?_⟩
      obtain ⟨fuel, rfl⟩ : ∃ n, fuel = n + 1 := ⟨fuel - 1, by omega⟩
      obtain ⟨k₂, hrun, hprints₂⟩ := catLoop_fails htable₁ htarget (.inl rfl) hfails fuel fname
      refine ⟨k₂, ?_, hprints₁.trans hprints₂⟩
      rw [hstart, if_neg hopened, hret]
      exact hrun
    · rw [if_neg hzero]
      obtain ⟨h0, hcount⟩ := hwf.inode i hi (hd ▸ hfile)
      rw [← hd] at h0 hcount
      obtain ⟨pieces, hdelivers, -, hflat⟩ := delivers_file (show (0 : Int) < 1024 by decide) hzero hcount
        (hwf.blocksInImage h0 hcount) _ hfd hlt (Nat.le_refl _)
      rw [← hret] at hdelivers
      rw [List.drop_zero] at hflat
      rw [← hflat]
      exact hloop hopened hdelivers
  rw [if_neg hfile]
  by_cases hdir : d.filetype = dirFiletype
  · rw [if_pos hdir]
    have htarget : openTarget d = some (dOps, 0) := by
      rw [openTarget, hdir]
      rfl
    obtain ⟨j, hret, hnum, hlt, hfd, -⟩ := openFd_fresh htable hlookup htarget hroom
    have hdirFd : DirFd (callerPcb k₁) j (0 : Nat) := by
      rw [hpcb]
      exact ⟨Int.natCast_nonneg j, by rw [hnum]; exact hlt, hfd⟩
    have hdelivers := delivers_dir hwf (show filenameLen ≤ (1024 : Int).toNat by decide) img.dirCount.toNat hdirFd
      (Nat.zero_add _)
    rw [← List.range_eq_range', ← hret] at hdelivers
    exact hloop (by omega) hdelivers
  · rw [if_neg hdir]
    refine hrefused ?_
    have htarget : openTarget d = none := by
      rw [openTarget, if_neg (hclock d n hlookup), if_neg hdir, if_neg hfile]
    rw [openFd, if_neg (by simp only [numFds]; omega), hlookup]
    simp only [htarget]

/-- The first process, with these arguments and nothing open but its terminal. -/
def firstProcess (args : List UInt8) : Kernel := newProcess (initialKernel blankMemory) args 0

/-- The arguments `shell`. -/
def catArgs : List UInt8 := literal "shell" ++ List.replicate 27 0

/-- `cat shell` prints the 28 bytes of `shell`. -/
theorem cat_prints_shell :
    ∃ bound, ∀ fuel, bound ≤ fuel → ∃ k',
      catMain (shellImage 1) fuel (List.replicate 1024 0) (firstProcess catArgs) = some (0, k') ∧
      Outputs (firstProcess catArgs) k' (fileContent (shellImage 1) ((shellImage 1).inodes 1)) := by
  have hargs : getargs false (firstProcess catArgs).procs = (0, catArgs) := by
    decide +kernel
  have hfound : readDentryByName (shellImage 1) (overwrite catArgs (List.replicate 1024 0)) =
      some (shellEntry, 5) := by decide +kernel
  have hanswer : catAnswer (shellImage 1) (0, catArgs) (List.replicate 1024 0) =
      (0, fileContent (shellImage 1) ((shellImage 1).inodes 1)) := by decide +kernel
  obtain ⟨bound, hbound⟩ := cat_prints (shellImage_wellFormed (Or.inr rfl)) (k := firstProcess catArgs)
    ⟨by decide +kernel, by decide +kernel, by decide +kernel⟩ (by decide +kernel) (List.replicate 1024 0) (by
      intro d n hlookup
      rw [hargs, hfound] at hlookup
      obtain ⟨rfl, -⟩ := Prod.mk.inj (Option.some.inj hlookup)
      decide)
  rw [hargs, hanswer] at hbound
  refine ⟨bound, fun fuel hfuel => ?_⟩
  obtain ⟨k', hrun, hprints, -⟩ := hbound fuel hfuel
  exact ⟨k', hrun, hprints⟩

/-! ## `ls` -/

/-- The return value of `ls` and what it prints. -/
def lsAnswer (img : Image) : Int × List UInt8 :=
  match readDentryByName img (literal ".") with
  | none => (2, text (literal "directory open failed\n"))
  | some _ => (0, (entryNames img).flatMap (· ++ [10]))

section Ls

variable {img : Image} {k : Kernel} {fd : Int}

/-- The newline goes behind the name, into the byte that `SBUFSIZE - 1` leaves over. -/
theorem writtenBytes_newline {piece stored buf : List UInt8} (hbuf : buf.length = 33)
    (hleading : piece <+: stored) (hfits : stored.length ≤ 32) :
    ((overwrite stored buf).set piece.length 10).length = 33 ∧
      writtenBytes ((overwrite stored buf).set piece.length 10) ((piece.length : Int) + 1) = piece ++ [10] := by
  have hlen : (overwrite stored buf).length = 33 := by
    rw [overwrite, List.length_append, List.length_drop]
    omega
  have hle := hleading.length_le
  have htake : (overwrite stored buf).take piece.length = piece := by
    rw [overwrite, List.take_append_of_le_length hle]
    exact (List.prefix_iff_eq_take.mp hleading).symm
  constructor
  · rw [List.length_set, hlen]
  · have hwritten : writtenBytes ((overwrite stored buf).set piece.length 10) (piece.length + 1 : Nat) =
        ((overwrite stored buf).set piece.length 10).take (piece.length + 1) :=
      writtenBytes_of_le (by rw [List.length_set]; omega)
    refine hwritten.trans ?_
    rw [List.set_eq_take_append_cons_drop, if_pos (by omega), htake, List.take_length_add_append]
    rfl

theorem lsLoop_prints {pieces : List (List UInt8)} (h : Delivers img fd 32 (callerPcb k) pieces)
    (htable : FdTable (callerPcb k)) {fuel : Nat} (hfuel : pieces.length < fuel) {buf : List UInt8}
    (hbuf : buf.length = 33) :
    ∃ k', lsLoop img fd fuel buf k = some (0, k') ∧ Outputs k k' (pieces.flatMap (· ++ [10])) := by
  refine @copyLoop_prints img fd 32 (literal "directory entry read failed\n")
    (fun cnt buf => (buf.set cnt.toNat 10, cnt + 1)) (fun buf => buf.length = 33) (· ++ [10])
    ?_ _ _ h k buf fuel rfl htable hbuf hfuel
  intro piece stored buf hbuf hleading hfits
  obtain ⟨hlen, hwritten⟩ := writtenBytes_newline hbuf hleading hfits
  refine ⟨hlen, hwritten, ?_⟩
  show (piece.length : Int) + 1 ≠ -1
  omega

end Ls

/-- `ls`, on every well-formed image whose `.` is the directory, for a process with a free descriptor: it
    prints the names of the directory in order, one a row, with nothing behind the last one; and it
    says so when there is no `.`.  The screen goes on with that text, if no name has a backspace in it. -/
theorem ls_prints {img : Image} (hwf : WellFormed img) {k : Kernel} (htable : FdTable (callerPcb k))
    (hroom : (callerPcb k).numOpenDescriptors < 8) (buf : List UInt8) (hbuf : buf.length = 33)
    (hdot : ∀ d n, readDentryByName img (literal ".") = some (d, n) → d.filetype = dirFiletype)
    {fuel : Nat} (hfuel : img.dirCount.toNat < fuel) :
    ∃ k', lsMain img fuel buf k = some ((lsAnswer img).1, k') ∧ Outputs k k' (lsAnswer img).2 ∧
      ∀ before, ShowsRows k.schedTerm k.con (screenRows before) → 8 ∉ (lsAnswer img).2 →
        ShowsRows k.schedTerm k'.con (screenRows (before ++ (lsAnswer img).2)) := by
  suffices h : ∃ k', lsMain img fuel buf k = some ((lsAnswer img).1, k') ∧ Outputs k k' (lsAnswer img).2 by
    obtain ⟨k', hrun, hprints⟩ := h
    exact ⟨k', hrun, hprints, fun before hshows hout => hprints.shows hout hshows⟩
  obtain ⟨k₁, hopen, hpcb, hprints₁⟩ := open_prints img k (literal ".")
  have htable₁ : FdTable (callerPcb k₁) := hpcb ▸ htable.afterOpen img (literal ".")
  unfold lsAnswer
  rcases hlookup : readDentryByName img (literal ".") with _ | ⟨d, n⟩
  · -- no such entry
    have hrefused : (openFd img (literal ".") (callerPcb k)).2 = -1 := by
      rw [openFd, if_neg (by simp only [numFds]; omega), hlookup]
    obtain ⟨k₂, hputs, -, hprints₂⟩ := fdputs_prints htable₁ (literal "directory open failed\n")
    refine ⟨k₂, ?_, hprints₁.trans hprints₂⟩
    rw [lsMain, UserM.bind_some hopen, if_pos hrefused, UserM.bind_some hputs]
    rfl
  · have htarget : openTarget d = some (dOps, 0) := by
      rw [openTarget, hdot d n hlookup]
      rfl
    obtain ⟨j, hret, hnum, hlt, hfd, -⟩ := openFd_fresh htable hlookup htarget hroom
    have hdirFd : DirFd (callerPcb k₁) j (0 : Nat) := by
      rw [hpcb]
      exact ⟨Int.natCast_nonneg j, by rw [hnum]; exact hlt, hfd⟩
    have hdelivers := delivers_dir hwf (show filenameLen ≤ (32 : Int).toNat by decide) img.dirCount.toNat hdirFd
      (Nat.zero_add _)
    rw [← List.range_eq_range'] at hdelivers
    obtain ⟨k₂, hrun, hprints₂⟩ := lsLoop_prints hdelivers htable₁
      (by rw [List.length_map, List.length_range]; exact hfuel) hbuf
    refine ⟨k₂, ?_, hprints₁.trans hprints₂⟩
    rw [lsMain, UserM.bind_some hopen, hret, if_neg (by omega)]
    exact hrun

/-- A listing of two entries. -/
theorem ls_prints_two :
    ∃ k', lsMain (shellImage 1) 3 (List.replicate 33 0) (firstProcess []) = some (0, k') ∧
      Outputs (firstProcess []) k' (literal ".\nshell\n") := by
  have hfound : readDentryByName (shellImage 1) (literal ".") = some (dotEntry, 1) := by decide +kernel
  have hanswer : lsAnswer (shellImage 1) = (0, literal ".\nshell\n") := by decide +kernel
  obtain ⟨k', hrun, hprints, -⟩ := ls_prints (shellImage_wellFormed (Or.inr rfl)) (k := firstProcess [])
    ⟨by decide +kernel, by decide +kernel, by decide +kernel⟩ (by decide +kernel) (List.replicate 33 0) rfl (by
      intro d n hlookup
      rw [hfound] at hlookup
      obtain ⟨rfl, -⟩ := Prod.mk.inj (Option.some.inj hlookup)
      rfl) (show (2 : Int).toNat < 3 by decide)
  rw [hanswer] at hrun hprints
  exact ⟨k', hrun, hprints⟩

end ByteVerse
