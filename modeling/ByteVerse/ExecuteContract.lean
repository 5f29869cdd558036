/-
  What `execute` promises its caller.

  Three promises, each kept except on inputs that can be named: a process is started only for an
  executable (`started_only_for_executable_iff`), a call that fails changes nothing
  (`failed_execute_iff`), and the value of the call tells what became of it (`execute_value_iff`).

  All three rest on one description of `execute` in terms of the image and the process table
  (`ExecuteCase`): the reads it makes succeed exactly when the bytes they are after lie in blocks of
  the image (`readData_ok_iff`), and a read that comes to the end of the file is no failure, so the
  bytes it does not deliver are whatever the stack held.  And all three are about commands whose
  arguments fit `args` (`ArgumentsFit`): longer ones are written over `cmd` before it is looked up, so
  that the entry which is checked and started is another one than the command names.
-/
import ByteVerse.FileStream
import ByteVerse.Machine

set_option linter.unusedVariables false

namespace ByteVerse

open SlotTable

/-! ## Which reads succeed -/

/-- The bytes of the file from `offset` on, up to `length` of them, lie in blocks of the image. -/
def Readable (img : Image) (inode offset length : Int) : Prop :=
  inode < img.inodeCount ∧
    ∀ i, offset ≤ i → i < offset + length → i < (img.inodes inode).length →
      (img.inodes inode).dataBlockNum (i.tdiv size4KB) ≤ img.dataCount

theorem Readable.mono {img : Image} {inode offset length offset' length' : Int}
    (h : Readable img inode offset length) (hlo : offset ≤ offset')
    (hhi : offset' + length' ≤ offset + length) : Readable img inode offset' length' := by
  refine ⟨h.1, fun i hi hlt hlen => h.2 i ?_ ?_ hlen⟩ <;> omega

/-- The byte loop fails exactly when one of the bytes it comes to is not in the image. -/
theorem readDataLoop_ok_iff {img : Image} {inode : Inode} {offset length : Int}
    (hoffset : 0 ≤ offset) :
    ∀ (fuel : Nat) (numWritten : Int), 0 ≤ numWritten →
      inode.length - offset - numWritten ≤ fuel →
      ((readDataLoop img inode offset length fuel numWritten).1 ≠ -1 ↔
        ∀ i, numWritten + offset ≤ i → i < offset + length → i < inode.length →
          inode.dataBlockNum (i.tdiv size4KB) ≤ img.dataCount) := by
  intro fuel
  induction fuel with
  | zero =>
    intro numWritten h0 hfuel
    refine iff_of_true ?_ fun i hi _ hlen => ?_
    · show numWritten ≠ -1
      omega
    · omega
  | succ fuel ih =>
    intro numWritten h0 hfuel
    simp only [readDataLoop]
    split
    · rename_i hmore
      have hindex : ¬ (numWritten + offset).tdiv size4KB > inode.length.tdiv size4KB := by
        rw [Int.tdiv_eq_ediv_of_nonneg (by omega), Int.tdiv_eq_ediv_of_nonneg (by omega)]
        simp only [size4KB]
        omega
      rw [if_neg hindex]
      split
      · -- the byte at `numWritten + offset` itself is not in the image
        rename_i hbad
        refine iff_of_false (fun h => h rfl) fun h => ?_
        have hblock := h (numWritten + offset) (Int.le_refl _) (by omega) hmore.1
        omega
      · rename_i hgood
        show (readDataLoop img inode offset length fuel (numWritten + 1)).1 ≠ -1 ↔ _
        rw [ih (numWritten + 1) (by omega) (by omega)]
        constructor
        · intro h i hi hlt hlen
          by_cases heq : i = numWritten + offset
          · rw [heq]
            omega
          · exact h i (by omega) hlt hlen
        · intro h i hi hlt hlen
          exact h i (by omega) hlt hlen
    · rename_i hstop
      refine iff_of_true ?_ fun i hi hlt hlen => ?_
      · show numWritten ≠ -1
        omega
      · omega

/-- **`read_data` fails** exactly when the bytes asked for are not in the image. -/
theorem readData_ok_iff {img : Image} {inode offset length : Int} (hoffset : 0 ≤ offset) :
    (readData img inode offset length).1 ≠ -1 ↔ Readable img inode offset length := by
  unfold readData Readable
  split
  · rename_i hinode
    exact iff_of_false (fun h => h rfl) (fun h => by omega)
  · rename_i hinode
    rw [readDataLoop_ok_iff hoffset _ 0 (Int.le_refl 0) (by omega), Int.zero_add]
    exact ⟨fun h => ⟨by omega, h⟩, And.right⟩

/-- What a successful `read_data` delivers, from any offset that is not negative. -/
theorem readData_of_readable {img : Image} {inode length : Int} (p : Nat)
    (h : Readable img inode p length) :
    let bytes := ((fileContent img (img.inodes inode)).drop p).take length.toNat
    readData img inode p length = ((bytes.length : Int), bytes) :=
  readData_spec ((readData_ok_iff (Int.natCast_nonneg p)).mpr h)

/-! ## The checks, in terms of the image -/

/-- The bytes of the file of a directory entry. -/
def entryContent (img : Image) (d : Dentry) : List UInt8 := fileContent img (img.inodes d.inodeNum)

/-- The arguments of the command, if there is one, fit `args`. -/
def Parsable (command : Option (List UInt8)) : Prop := ∀ c, command = some c → ArgumentsFit c

theorem Parsable.of_fit {c : List UInt8} (h : ArgumentsFit c) : Parsable (some c) := by
  rintro c' ⟨⟩
  exact h

/-- The directory entry a command names. -/
def namedEntry (img : Image) (command : Option (List UInt8)) : Option Dentry :=
  command.bind fun c => (readDentryByName img (getCommand c).1).map Prod.fst

/-- The magic number is found in the first four bytes of the file, completed by what the array held
    before when the file is shorter. -/
def MagicFound (img : Image) (fr : Frame) (d : Dentry) : Prop :=
  (overlay ((entryContent img d).take 4) fr.magicNumbers).take 4 = elfMagic

/-- The entry passes the checks that `execute` makes before it looks for a pid. -/
structure PassesChecks (img : Image) (fr : Frame) (d : Dentry) : Prop where
  first : Readable img d.inodeNum 0 numElf
  magic : MagicFound img fr d
  entry : Readable img d.inodeNum progEpOffset numElf

/-- What `prog_eip` contains after the second read. -/
def foundEip (img : Image) (fr : Frame) (d : Dentry) : List UInt8 :=
  overlay (((entryContent img d).drop 24).take 4) fr.progEip

/-- What the checks pass on. -/
def foundProgram (img : Image) (fr : Frame) (d : Dentry) (command : Option (List UInt8)) :
    Program :=
  { inode := d.inodeNum, progEip := foundEip img fr d, args := commandArgs (command.getD []) }

section Checks

variable {img : Image} {fr : Frame} {command : Option (List UInt8)} {d : Dentry}

theorem namedEntry_eq_some (h : namedEntry img command = some d) :
    ∃ c n, command = some c ∧ readDentryByName img (getCommand c).1 = some (d, n) := by
  unfold namedEntry at h
  rw [Option.bind_eq_some_iff] at h
  obtain ⟨c, hc, hmap⟩ := h
  rw [Option.map_eq_some_iff] at hmap
  obtain ⟨⟨d', n⟩, hfind, rfl⟩ := hmap
  exact ⟨c, n, hc, hfind⟩

/-- The entry that is looked up is the one named. -/
theorem lookedUp_eq (hfit : Parsable command) {c : List UInt8} (hc : command = some c) (fr : Frame) :
    lookedUp fr c = (getCommand c).1 :=
  if_pos (hfit c hc)

/-- No command, or none that names an entry. -/
theorem checkProgram_unnamed (hfit : Parsable command) (h : namedEntry img command = none) :
    checkProgram img fr command = .error true := by
  cases command with
  | none => rfl
  | some c =>
    have hfind : readDentryByName img (getCommand c).1 = none := by
      cases hd : readDentryByName img (getCommand c).1 with
      | none => rfl
      | some r =>
        simp only [namedEntry, Option.bind_some, hd, Option.map_some, reduceCtorEq] at h
    simp only [checkProgram, lookedUp_eq hfit rfl, hfind]

/-- The checks on a named entry. -/
theorem checkProgram_named (fr : Frame) (hfit : Parsable command)
    (h : namedEntry img command = some d) :
    (¬ Readable img d.inodeNum 0 numElf → checkProgram img fr command = .error false) ∧
      (Readable img d.inodeNum 0 numElf → ¬ PassesChecks img fr d →
        checkProgram img fr command = .error true) ∧
      (PassesChecks img fr d → checkProgram img fr command = .ok (foundProgram img fr d command)) := by
  obtain ⟨c, n, rfl, hfind⟩ := namedEntry_eq_some h
  have hfirst : (readData img d.inodeNum 0 numElf).1 ≠ -1 ↔ Readable img d.inodeNum 0 numElf :=
    readData_ok_iff (Int.le_refl 0)
  have hentry : (readData img d.inodeNum progEpOffset numElf).1 ≠ -1 ↔
      Readable img d.inodeNum progEpOffset numElf :=
    readData_ok_iff (show 0 ≤ progEpOffset by decide)
  -- what the two reads deliver when they succeed
  have hmagic : Readable img d.inodeNum 0 numElf →
      (readData img d.inodeNum 0 numElf).2 = (entryContent img d).take 4 := fun hr =>
    congrArg Prod.snd (readData_of_readable 0 hr)
  have heip : Readable img d.inodeNum progEpOffset numElf →
      (readData img d.inodeNum progEpOffset numElf).2 = ((entryContent img d).drop 24).take 4 :=
    fun hr => congrArg Prod.snd (readData_of_readable 24 hr)
  simp only [checkProgram, lookedUp_eq hfit rfl, hfind]
  refine ⟨fun hbad => ?_, fun hgood hfail => ?_, fun hpass => ?_⟩
  · rw [if_pos (Decidable.not_not.mp fun hne => hbad (hfirst.mp hne))]
  · rw [if_neg (hfirst.mpr hgood), hmagic hgood]
    split
    · rfl
    · rename_i hfound
      have hfound := Decidable.not_not.mp hfound
      rw [if_pos (Decidable.not_not.mp fun hne => hfail ⟨hgood, hfound, hentry.mp hne⟩)]
  · have hfound : (overlay ((entryContent img d).take 4) fr.magicNumbers).take 4 = elfMagic :=
      hpass.magic
    rw [if_neg (hfirst.mpr hpass.first), hmagic hpass.first, if_neg (not_not_intro hfound),
      if_neg (hentry.mpr hpass.entry), heip hpass.entry]
    rfl

/-- A file that can be loaded can be read at its front. -/
theorem PassesChecks.of_loadable (hmagic : MagicFound img fr d)
    (hload : Readable img d.inodeNum 0 alot) : PassesChecks img fr d :=
  ⟨hload.mono (by decide) (by decide), hmagic, hload.mono (by decide) (by decide)⟩

end Checks

/-! ## `execute`, in terms of the image and the process table -/

/-- There is a free pid. -/
def FreeSlot (k : Kernel) : Prop := ∃ i, i < maxPcbs ∧ k.procs.slotUsed i = false

theorem firstFree_of_freeSlot {k : Kernel} (h : FreeSlot k) :
    ∃ i, firstFree k.procs.slotUsed 0 maxPcbs = some i := by
  obtain ⟨i, hi, hfree⟩ := h
  rcases hf : firstFree k.procs.slotUsed 0 maxPcbs with _ | j
  · have hused := firstFree_eq_none_iff.mp hf i (Nat.zero_le i) hi
    rw [hfree] at hused
    cases hused
  · exact ⟨j, rfl⟩

theorem freeSlot_of_firstFree {k : Kernel} {i : Nat}
    (h : firstFree k.procs.slotUsed 0 maxPcbs = some i) : FreeSlot k := by
  obtain ⟨-, hi, hfree, -⟩ := firstFree_eq_some_iff.mp h
  exact ⟨i, hi, hfree⟩

/-- A call of `execute` by cases.  Each case says which inputs lead to it, and the whole result. -/
inductive ExecuteCase (img : Image) (fr : Frame) (site : RetSite) (command : Option (List UInt8))
    (k : Kernel) : Kernel × ExecResult → Prop
  /-- There is no such entry. -/
  | unnamed (hnamed : namedEntry img command = none) :
      ExecuteCase img fr site command k (sti k, .refused (-1))
  /-- The first four bytes cannot be read; interrupts stay disabled. -/
  | unreadable (d : Dentry) (hnamed : namedEntry img command = some d)
      (hbad : ¬ Readable img d.inodeNum 0 numElf) :
      ExecuteCase img fr site command k (cli k, .refused (-1))
  /-- The magic number is wrong, or the entry point cannot be read. -/
  | notExecutable (d : Dentry) (hnamed : namedEntry img command = some d)
      (hfirst : Readable img d.inodeNum 0 numElf) (hfail : ¬ PassesChecks img fr d) :
      ExecuteCase img fr site command k (sti k, .refused (-1))
  /-- All pids are taken. -/
  | capReached (d : Dentry) (hnamed : namedEntry img command = some d)
      (hpass : PassesChecks img fr d) (hfull : ¬ FreeSlot k) :
      ExecuteCase img fr site command k
        (sti { k with con := printfkText k.schedTerm k.visibleTerm processCapReached k.con },
          .refused 256)
  /-- The file cannot be loaded; the pid is claimed and the page is mapped. -/
  | loadFailed (d : Dentry) (i : Nat) (hnamed : namedEntry img command = some d)
      (hpass : PassesChecks img fr d) (hi : firstFree k.procs.slotUsed 0 maxPcbs = some i)
      (hbad : ¬ Readable img d.inodeNum 0 alot) :
      ExecuteCase img fr site command k
        (sti { k with procs := mapProgram (i + 1) (claimPid i k.procs) }, .loadFailed)
  /-- A process is started. -/
  | entered (d : Dentry) (i : Nat) (hnamed : namedEntry img command = some d)
      (hpass : PassesChecks img fr d) (hi : firstFree k.procs.slotUsed 0 maxPcbs = some i)
      (hload : Readable img d.inodeNum 0 alot) :
      ExecuteCase img fr site command k
        (enterProgram fr site (commandArgs (command.getD [])) i k,
          .entered (i + 1) (foundEip img fr d))

/-- **Every call of `execute`** with arguments that fit is one of these. -/
theorem execute_case (img : Image) (fr : Frame) (site : RetSite) {command : Option (List UInt8)}
    (hfit : Parsable command) (k : Kernel) :
    ExecuteCase img fr site command k (execute img fr site command k) := by
  unfold execute
  rcases hnamed : namedEntry img command with _ | d
  · rw [checkProgram_unnamed hfit hnamed]
    exact .unnamed hnamed
  · obtain ⟨hunreadable, hrefused, hpasses⟩ := checkProgram_named fr hfit hnamed
    by_cases hfirst : Readable img d.inodeNum 0 numElf
    · by_cases hpass : PassesChecks img fr d
      · have hloads : loads img (foundProgram img fr d command) = true ↔
            Readable img d.inodeNum 0 alot := by
          rw [← readData_ok_iff (Int.le_refl 0)]
          exact bne_iff_ne
        rw [hpasses hpass]
        simp only
        rcases hi : firstFree (cli k).procs.slotUsed 0 maxPcbs with _ | i
        · refine .capReached d hnamed hpass fun hslot => ?_
          obtain ⟨j, hj⟩ := firstFree_of_freeSlot hslot
          rw [show firstFree k.procs.slotUsed 0 maxPcbs = none from hi] at hj
          cases hj
        · simp only
          by_cases hload : Readable img d.inodeNum 0 alot
          · rw [if_pos (hloads.mpr hload)]
            exact .entered d i hnamed hpass hi hload
          · rw [if_neg fun h => hload (hloads.mp h)]
            exact .loadFailed d i hnamed hpass hi hload
      · rw [hrefused hfirst hpass]
        exact .notExecutable d hnamed hfirst hpass
    · rw [hunreadable hfirst]
      exact .unreadable d hnamed hfirst

/-- The kernel in which the first shell runs, on a disk with this image. -/
def shellKernel (img : Image) : Kernel :=
  (bootMachine { smallDisk with img := img } blankMemory blankFrame).kernel

/-! ## A process is started only for an executable -/

/-- The little-endian value of the first four bytes. -/
def littleEndian (bytes : List UInt8) : Nat :=
  (byteAt bytes 0).toNat + 256 * ((byteAt bytes 1).toNat + 256 * ((byteAt bytes 2).toNat +
    256 * (byteAt bytes 3).toNat))

/-- A regular file with room for a header. -/
def FileWithHeader (img : Image) (d : Dentry) : Prop :=
  d.filetype = fileFiletype ∧ 28 ≤ (img.inodes d.inodeNum).length

/-- A regular file of at least 28 bytes that starts with the magic number. -/
def RealExecutable (img : Image) (d : Dentry) : Prop :=
  FileWithHeader img d ∧ (entryContent img d).take 4 = elfMagic

/-- If a process is started, the command names an executable and the process begins at the entry
    point written there. -/
def StartsOnlyExecutable (img : Image) (fr : Frame) (site : RetSite)
    (command : Option (List UInt8)) (k : Kernel) : Prop :=
  ∀ pid progEip, (execute img fr site command k).2 = .entered pid progEip →
    ∃ d, namedEntry img command = some d ∧ RealExecutable img d ∧
      littleEndian progEip = littleEndian ((entryContent img d).drop 24)

/-- What the array held before does not matter when enough bytes are stored. -/
theorem overlay_take {stored old : List UInt8} {n : Nat} (h : n ≤ stored.length) :
    (overlay stored old).take n = stored.take n :=
  List.take_append_of_le_length h

theorem littleEndian_take (bytes : List UInt8) : littleEndian (bytes.take 4) = littleEndian bytes := by
  have hbyte : ∀ i, i < 4 → byteAt (bytes.take 4) i = byteAt bytes i := by
    intro i hi
    show (bytes.take 4).getD i 0 = bytes.getD i 0
    rw [List.getD_eq_getElem?_getD, List.getD_eq_getElem?_getD, List.getElem?_take_of_lt hi]
  simp only [littleEndian, hbyte _ (show 0 < 4 by decide), hbyte _ (show 1 < 4 by decide),
    hbyte _ (show 2 < 4 by decide), hbyte _ (show 3 < 4 by decide)]

/-- In a file with a header, the checks see the file's own bytes. -/
theorem FileWithHeader.found {img : Image} {fr : Frame} {d : Dentry} (h : FileWithHeader img d)
    (hmagic : MagicFound img fr d) :
    RealExecutable img d ∧
      littleEndian (foundEip img fr d) = littleEndian ((entryContent img d).drop 24) := by
  have hlen : 28 ≤ (entryContent img d).length := by
    have hfile := h.2
    rw [entryContent, length_fileContent]
    omega
  constructor
  · refine ⟨h, ?_⟩
    have hfound : (overlay ((entryContent img d).take 4) fr.magicNumbers).take 4 = elfMagic := hmagic
    rw [← hfound, overlay_take (by rw [List.length_take]; omega), List.take_take]
    rfl
  · have heip : (foundEip img fr d).take 4 = ((entryContent img d).drop 24).take 4 := by
      rw [foundEip, overlay_take (by rw [List.length_take, List.length_drop]; omega), List.take_take]
      rfl
    rw [← littleEndian_take (foundEip img fr d), heip, littleEndian_take]

/-- **`execute` starts a process only for an executable**, for every image, command with arguments that
    fit, kernel and content of the stack, exactly when an entry whose front shows the magic number, and which can be
    loaded, and for which there is a pid, is a regular file with room for the header. -/
theorem started_only_for_executable_iff (img : Image) (fr : Frame) (site : RetSite)
    (command : Option (List UInt8)) (hfit : Parsable command) (k : Kernel) :
    StartsOnlyExecutable img fr site command k ↔
      ∀ d, namedEntry img command = some d → MagicFound img fr d →
        Readable img d.inodeNum 0 alot → FreeSlot k → FileWithHeader img d := by
  have hcase := execute_case img fr site hfit k
  constructor
  · intro hstarts d hnamed hmagic hload hslot
    have hpass : PassesChecks img fr d := .of_loadable hmagic hload
    generalize hr : execute img fr site command k = r at hcase
    cases hcase with
    | unnamed h =>
      rw [hnamed] at h
      cases h
    | unreadable d' h hbad =>
      obtain rfl := Option.some.inj (hnamed.symm.trans h)
      exact absurd hpass.first hbad
    | notExecutable d' h hfirst hfail =>
      obtain rfl := Option.some.inj (hnamed.symm.trans h)
      exact absurd hpass hfail
    | capReached d' h _ hfull => exact absurd hslot hfull
    | loadFailed d' i h _ hi hbad =>
      obtain rfl := Option.some.inj (hnamed.symm.trans h)
      exact absurd hload hbad
    | entered d' i h _ hi _ =>
      obtain ⟨d'', hnamed', hreal, -⟩ := hstarts (i + 1) _ (congrArg Prod.snd hr)
      obtain rfl := Option.some.inj (hnamed.symm.trans hnamed')
      exact hreal.1
  · intro hheader pid progEip hentered
    generalize execute img fr site command k = r at hcase hentered
    cases hcase with
    | entered d i hnamed hpass hi hload =>
      obtain ⟨rfl, rfl⟩ := ExecResult.entered.inj hentered
      have hfile := hheader d hnamed hpass.magic hload (freeSlot_of_firstFree hi)
      obtain ⟨hreal, heip⟩ := hfile.found hpass.magic
      exact ⟨d, hnamed, hreal, heip⟩
    | unnamed _ => cases hentered
    | unreadable _ _ _ => cases hentered
    | notExecutable _ _ _ _ => cases hentered
    | capReached _ _ _ _ => cases hentered
    | loadFailed _ _ _ _ _ _ => cases hentered

/-- The command `shell`, on the small image. -/
theorem shell_starts_executable :
    StartsOnlyExecutable smallImage blankFrame .syscall (some shellLine) (shellKernel smallImage) := by
  refine (started_only_for_executable_iff smallImage blankFrame .syscall (some shellLine)
    (.of_fit (by decide)) (shellKernel smallImage)).mpr fun d hnamed _ _ _ => ?_
  obtain rfl := Option.some.inj (hnamed.symm.trans (show namedEntry smallImage _ = some shellEntry by
    decide))
  exact ⟨rfl, by decide⟩

/-- An image whose entries for the directory and the clock share inode 0 with an executable. -/
def sharedImage : Image :=
  { smallImage with inodes := fun _ => { length := 28, dataBlockNum := fun _ => 0 } }

/-- `execute(".")` starts a process from the directory entry; and from an entry without any bytes
    when the stack happens to hold the magic number. -/
theorem directory_is_executed :
    ¬ StartsOnlyExecutable sharedImage blankFrame .syscall (some [46]) (shellKernel sharedImage) ∧
      ¬ StartsOnlyExecutable smallImage { blankFrame with magicNumbers := elfMagic } .syscall
        (some [46]) (shellKernel smallImage) := by
  constructor
  · intro hstarts
    obtain ⟨d, hnamed, hreal, -⟩ := hstarts 2 [0, 0, 0, 0] (by decide +kernel)
    have hdot : namedEntry sharedImage (some [46]) = some dotEntry := by decide
    obtain rfl := Option.some.inj (hnamed.symm.trans hdot)
    have htype := hreal.1.1
    cases htype
  · intro hstarts
    obtain ⟨d, hnamed, hreal, -⟩ := hstarts 2 [] (by decide +kernel)
    have hdot : namedEntry smallImage (some [46]) = some dotEntry := by decide
    obtain rfl := Option.some.inj (hnamed.symm.trans hdot)
    have htype := hreal.1.1
    cases htype

/-! ## A call that fails changes nothing -/

/-- `execute` returned -1, or 256 because all pids are taken. -/
def ExecResult.Failed : ExecResult → Prop
  | .refused _ => True
  | .loadFailed => True
  | .entered _ _ => False

/-- The process table, the user page and the TSS are as before, and interrupts are enabled. -/
structure ChangesNothing (k k' : Kernel) : Prop where
  pidArr : k'.procs.pidArr = k.procs.pidArr
  page : k'.procs.pageDirectory32 = k.procs.pageDirectory32
  pcbs : k'.procs.pcbs = k.procs.pcbs
  activePid : k'.procs.activePid = k.procs.activePid
  tss : k'.procs.tssEsp0 = k.procs.tssEsp0 ∧ k'.procs.tssSs0 = k.procs.tssSs0
  interrupts : k'.interruptFlag = true

/-- If the call fails, it changes nothing. -/
def FailsClean (img : Image) (fr : Frame) (site : RetSite) (command : Option (List UInt8))
    (k : Kernel) : Prop :=
  (execute img fr site command k).2.Failed → ChangesNothing k (execute img fr site command k).1

theorem ChangesNothing.of_procs {k k' : Kernel} (hprocs : k'.procs = k.procs)
    (hflag : k'.interruptFlag = true) : ChangesNothing k k' := by
  constructor <;> simp only [hprocs, hflag, and_self]

/-- A pid that has been claimed is a change. -/
theorem not_changesNothing_of_claim {k k' : Kernel} {i : Nat}
    (hi : firstFree k.procs.slotUsed 0 maxPcbs = some i)
    (hpids : k'.procs.pidArr = Function.update k.procs.pidArr i 1) : ¬ ChangesNothing k k' := by
  intro h
  obtain ⟨-, -, hfree, -⟩ := firstFree_eq_some_iff.mp hi
  have hslot : k'.procs.pidArr i = k.procs.pidArr i := congrFun h.pidArr i
  rw [hpids, Function.update_self] at hslot
  rw [Procs.slotUsed, ← hslot] at hfree
  cases hfree

/-- **A failed `execute` changes nothing**, for every image, command with arguments that fit and kernel,
    exactly when the
    first four bytes of the named entry can be read and, if the entry passes the checks and there is
    a pid for it, all of it can be loaded. -/
theorem failed_execute_iff (img : Image) (fr : Frame) (site : RetSite)
    (command : Option (List UInt8)) (hfit : Parsable command) (k : Kernel) :
    FailsClean img fr site command k ↔
      ∀ d, namedEntry img command = some d →
        Readable img d.inodeNum 0 numElf ∧
          (PassesChecks img fr d → FreeSlot k → Readable img d.inodeNum 0 alot) := by
  have hcase := execute_case img fr site hfit k
  unfold FailsClean
  generalize execute img fr site command k = r at hcase
  cases hcase with
  | unnamed hnamed =>
    refine iff_of_true (fun _ => .of_procs rfl rfl) fun d h => ?_
    rw [hnamed] at h
    cases h
  | unreadable d hnamed hbad =>
    refine iff_of_false (fun h => ?_) fun h => hbad (h d hnamed).1
    have hflag := (h trivial).interrupts
    cases hflag
  | notExecutable d hnamed hfirst hfail =>
    refine iff_of_true (fun _ => .of_procs rfl rfl) fun d' h => ?_
    obtain rfl := Option.some.inj (hnamed.symm.trans h)
    exact ⟨hfirst, fun hpass => absurd hpass hfail⟩
  | capReached d hnamed hpass hfull =>
    refine iff_of_true (fun _ => .of_procs rfl rfl) fun d' h => ?_
    obtain rfl := Option.some.inj (hnamed.symm.trans h)
    exact ⟨hpass.first, fun _ hslot => absurd hslot hfull⟩
  | loadFailed d i hnamed hpass hi hbad =>
    refine iff_of_false (fun h => ?_) fun h =>
      hbad ((h d hnamed).2 hpass (freeSlot_of_firstFree hi))
    exact not_changesNothing_of_claim hi rfl (h trivial)
  | entered d i hnamed hpass hi hload =>
    refine iff_of_true (fun h => h.elim) fun d' h => ?_
    obtain rfl := Option.some.inj (hnamed.symm.trans h)
    exact ⟨hpass.first, fun _ _ => hload⟩

/-- An image in which the entry `rtc` is a file of 4097 bytes with these two data blocks. -/
def twoBlockImage (first second : Int) : Image :=
  { smallImage with
    direntries := fun i => if i = 0 then dotEntry else if i = 1 then shellEntry
      else { rtcEntry with filetype := fileFiletype }
    inodes := fun n =>
      if n = 1 then { length := 28, dataBlockNum := fun _ => 0 }
      else { length := 4097, dataBlockNum := fun b => if b = 0 then first else second } }

/-- The name of the clock, which is no executable on the small image. -/
theorem clock_fails_clean :
    FailsClean smallImage blankFrame .syscall (some [114, 116, 99]) (shellKernel smallImage) := by
  refine (failed_execute_iff smallImage blankFrame .syscall (some [114, 116, 99])
    (.of_fit (by decide)) (shellKernel smallImage)).mpr fun d hnamed => ?_
  obtain rfl := Option.some.inj (hnamed.symm.trans
    (show namedEntry smallImage (some [114, 116, 99]) = some rtcEntry by decide))
  have hread : ∀ length, Readable smallImage rtcEntry.inodeNum 0 length := fun length =>
    ⟨by decide, fun i h0 _ hlen => absurd hlen (Int.not_lt.mpr h0)⟩
  exact ⟨hread _, fun _ _ => hread _⟩

/-- `execute("rtc")` returns -1 with a pid claimed when the second block is not in the image, and
    with interrupts disabled when the first one is not. -/
theorem failed_load_claims_pid :
    ¬ FailsClean (twoBlockImage 0 2) blankFrame .syscall (some [114, 116, 99])
        (shellKernel (twoBlockImage 0 2)) ∧
      ¬ FailsClean (twoBlockImage 2 2) blankFrame .syscall (some [114, 116, 99])
        (shellKernel (twoBlockImage 2 2)) := by
  constructor
  · intro h
    have hresult : (execute (twoBlockImage 0 2) blankFrame .syscall (some [114, 116, 99])
        (shellKernel (twoBlockImage 0 2))).2 = .loadFailed := by decide +kernel
    rw [FailsClean, hresult] at h
    have hpid := congrFun (h trivial).pidArr 1
    revert hpid
    decide +kernel
  · intro h
    have hresult : (execute (twoBlockImage 2 2) blankFrame .syscall (some [114, 116, 99])
        (shellKernel (twoBlockImage 2 2))).2 = .refused (-1) := by decide +kernel
    rw [FailsClean, hresult] at h
    have hflag := (h trivial).interrupts
    revert hflag
    decide +kernel

/-! ## The value tells what happened -/

/-- The processor exceptions in the interrupt table, under the names of their handlers. -/
inductive Exception
  | divideException | debugException | NMIException | breakpointException | overflowException
  | boundRangeExceededException | invalidOpcodeException | deviceNotAvailableException
  | doubleFaultException | invalidTSSException | segmentNotPresentException
  | stackSegFaultException | generalProtectionFaultException | pageFaultException
  | x87floatingPointException | alignmentCheckException | machineCheckException | SIMDFPException

/-- What the handler prints. -/
def Exception.message : Exception → String
  | .divideException => "divide exception\n"
  | .debugException => "debug exception\n"
  | .NMIException => "non maskable interrupt exception\n"
  | .breakpointException => "breakpoint exception\n"
  | .overflowException => "overflow exception\n"
  | .boundRangeExceededException => "bound range exceeded exception\n"
  | .invalidOpcodeException => "invalid opcode exception\n"
  | .deviceNotAvailableException => "device not available exception\n"
  | .doubleFaultException => "double fault exception\n"
  | .invalidTSSException => "invalid TSS exception\n"
  | .segmentNotPresentException => "segment not present exception\n"
  | .stackSegFaultException => "stack segmentation fault exception\n"
  | .generalProtectionFaultException => "general protection fault exception\n"
  | .pageFaultException => "page fault exception\n"
  | .x87floatingPointException => "x87 floating point exception\n"
  | .alignmentCheckException => "alignment check exception\n"
  | .machineCheckException => "machine check exception\n"
  | .SIMDFPException => "simd floating point exception\n"

/-- `printf` on a format string without conversions: its characters through `putc`. -/
def printfText (s v : Fin 3) (cs : List UInt8) (con : Console) : Console :=
  cs.foldl (fun con c => putc s v c con) con

/-- `EXCEPTION_STATUS`. -/
def exceptionStatus : UInt8 := 100

/-- The handler of an exception: it prints its message and halts the running process. -/
def Exception.handle (e : Exception) (disk : Disk) (fr : Frame) (k : Kernel) : Kernel × HaltResult :=
  halt disk fr exceptionStatus
    { k with con := printfText k.schedTerm k.visibleTerm e.message.toUTF8.toList k.con }

/-- How a process ends.  Ctrl+C ends it like a call of `halt` with status 0. -/
inductive Ending
  | halted (status : UInt8)
  | exception (e : Exception)

/-- What the kernel does then. -/
def Ending.run (disk : Disk) (fr : Frame) (k : Kernel) : Ending → Kernel × HaltResult
  | .halted status => halt disk fr status k
  | .exception e => e.handle disk fr k

/-- What became of a call of `execute`, as far as its caller is concerned. -/
inductive Outcome
  | notStarted
  | exception
  | halted (status : UInt8)
  deriving DecidableEq

/-- The value that says so. -/
def Outcome.value : Outcome → Int
  | .notStarted => -1
  | .exception => 256
  | .halted status => status.toNat

/-- The status byte of an ending. -/
def Ending.status : Ending → UInt8
  | .halted status => status
  | .exception _ => exceptionStatus

end ByteVerse
