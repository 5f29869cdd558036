/-
  The descriptor table of a process, over every sequence of calls the process makes on it.

  `open` looks for the lowest slot whose `flags` are zero, without a guard for finding none; what
  saves it is the count.  `FdTable` is the invariant: the count is the number of open slots, and
  stdin and stdout stay open.  It holds of a PCB that `build_pcb` has initialised, every call keeps
  it, and under it `open` is total (`descriptor_table_correct`).

  The same count is the upper bound that `read`, `write` and `close` compare a descriptor WITH.
  That is right only while the open slots are an initial segment of the table (`Packed`).  `open`
  keeps the table packed; `close` does exactly when nothing above the closed slot is open.  Hence
  `held_descriptors_usable_iff`: what a process holds stays usable throughout a sequence of calls
  iff each close in it is of the highest open descriptor.
-/
import ByteVerse.Terminal
import ByteVerse.Run

set_option linter.unusedVariables false

namespace ByteVerse

open SlotTable Run

/-! ## The calls of a process on its descriptors -/

/-- A system call on descriptors, with any arguments; a `read` into memory of the caller's own. -/
inductive FdCall
  | openFile (filename : List UInt8)
  | close (fd : Int)
  | read (fd : Int) (nullBuf : Bool) (nbytes : Int)
  | write (fd : Int) (buf : Option (List UInt8)) (nbytes : Int)

/-- The calling process makes one call. -/
def fdStep (img : Image) (k : Kernel) : FdCall → Option Kernel
  | .openFile filename => some { k with procs := (sysOpen img k.schedTerm filename k.procs).1 }
  | .close fd => some { k with procs := (sysClose k.schedTerm fd k.procs).1 }
  | .read fd nullBuf nbytes => some (sysRead img fd nullBuf nbytes k).1
  | .write fd buf nbytes => some (sysWrite fd buf nbytes k).1

/-- The PCB of the process that is making the calls. -/
def callerPcb (k : Kernel) : Pcb := k.procs.running k.schedTerm

/-- What a call does to the caller's PCB. -/
def pcbAfter (img : Image) (pcb : Pcb) : FdCall → Pcb
  | .openFile filename => (openFd img filename pcb).1
  | .close fd => (closeFd fd pcb).1
  | .read fd nullBuf nbytes => readPcb img fd nullBuf nbytes pcb
  | .write _ _ _ => pcb

theorem openFd_same (img : Image) (filename : List UInt8) (pcb : Pcb) :
    SameButFds pcb (openFd img filename pcb).1 := by
  unfold openFd
  split
  · exact SameButFds.refl _
  split
  · exact SameButFds.refl _
  simp only
  split
  · exact SameButFds.refl _
  · exact ⟨_, _, rfl⟩

theorem closeFd_same (fd : Int) (pcb : Pcb) : SameButFds pcb (closeFd fd pcb).1 := by
  unfold closeFd
  split
  · exact SameButFds.refl _
  split
  · exact SameButFds.refl _
  · exact ⟨_, _, rfl⟩

theorem readPcb_sameButFds (img : Image) (fd : Int) (nullBuf : Bool) (nbytes : Int) (pcb : Pcb) :
    SameButFds pcb (readPcb img fd nullBuf nbytes pcb) := by
  obtain ⟨off, hpcb | hpcb⟩ := readPcb_offset img fd nullBuf nbytes pcb
  · exact ⟨_, _, hpcb⟩
  · exact ⟨_, _, hpcb⟩

/-- A call changes descriptors of the caller at most. -/
theorem pcbAfter_same (img : Image) (pcb : Pcb) (c : FdCall) : SameButFds pcb (pcbAfter img pcb c) := by
  cases c with
  | openFile filename => exact openFd_same img filename pcb
  | close fd => exact closeFd_same fd pcb
  | read fd nullBuf nbytes => exact readPcb_sameButFds img fd nullBuf nbytes pcb
  | write fd buf nbytes => exact SameButFds.refl _

theorem fdStep_callerPcb {img : Image} {k k' : Kernel} {c : FdCall}
    (h : fdStep img k c = some k') : callerPcb k' = pcbAfter img (callerPcb k) c := by
  cases c with
  | openFile filename =>
    obtain rfl := Option.some.inj h
    exact setPcb_running k.procs k.schedTerm _
  | close fd =>
    obtain rfl := Option.some.inj h
    exact setPcb_running k.procs k.schedTerm _
  | read fd nullBuf nbytes =>
    obtain rfl := Option.some.inj h
    show (sysRead img fd nullBuf nbytes k).1.procs.running _ = _
    rw [sysRead_schedTerm, sysRead_procs]
    exact setPcb_running (updateFilePcb _ k.procs) k.schedTerm _
  | write fd buf nbytes =>
    obtain rfl := Option.some.inj h
    show (sysWrite fd buf nbytes k).1.procs.running _ = _
    rw [sysWrite_schedTerm, sysWrite_procs]
    rfl

/-! ## The invariant of the table -/

/-- The count is the number of open slots, and the first two are stdin and stdout. -/
structure FdTable (pcb : Pcb) : Prop where
  count : pcb.numOpenDescriptors = usedCount pcb.isOpen 8
  stdin : pcb.isOpen 0 = true ∧ (pcb.fileDescArr 0).fops = some stdinFops
  stdout : pcb.isOpen 1 = true ∧ (pcb.fileDescArr 1).fops = some stdoutFops

theorem FdTable.bounds {pcb : Pcb} (h : FdTable pcb) :
    2 ≤ pcb.numOpenDescriptors ∧ pcb.numOpenDescriptors ≤ 8 := by
  have hle := usedCount_le pcb.isOpen 8
  have hge : 2 ≤ usedCount pcb.isOpen 8 := le_usedCount (by omega) fun i hi => by
    rcases (show i = 0 ∨ i = 1 by omega) with rfl | rfl
    · exact h.stdin.1
    · exact h.stdout.1
  rw [h.count]
  omega

theorem setFd_isOpen (i : Nat) (d : Fd) (num : Int) (pcb : Pcb) :
    (setFd i d num pcb).isOpen = Function.update pcb.isOpen i (d.flags != 0) := by
  funext j
  show ((Function.update pcb.fileDescArr i d j).flags != 0) = _
  by_cases hji : j = i
  · subst hji
    rw [Function.update_self, Function.update_self]
  · rw [Function.update_of_ne hji, Function.update_of_ne hji]
    rfl

/-- A store above stdin and stdout keeps the invariant when it keeps the count right. -/
theorem FdTable.setFd {pcb : Pcb} (h : FdTable pcb) {i : Nat} (hi : 2 ≤ i) {d : Fd} {num : Int}
    (hnum : num = usedCount (Function.update pcb.isOpen i (d.flags != 0)) 8) :
    FdTable (setFd i d num pcb) where
  count := by rw [setFd_isOpen]; exact hnum
  stdin := by
    rw [setFd_isOpen, Function.update_of_ne (show 0 ≠ i by omega)]
    show _ ∧ (Function.update pcb.fileDescArr i d 0).fops = _
    rw [Function.update_of_ne (show 0 ≠ i by omega)]
    exact h.stdin
  stdout := by
    rw [setFd_isOpen, Function.update_of_ne (show 1 ≠ i by omega)]
    show _ ∧ (Function.update pcb.fileDescArr i d 1).fops = _
    rw [Function.update_of_ne (show 1 ≠ i by omega)]
    exact h.stdout

/-- `build_pcb` establishes the invariant. -/
theorem buildPcb_fdTable (s : Fin 3) (args : List UInt8) (pid : Nat) (ps : Procs) :
    FdTable ((buildPcb s args pid ps).running s) := by
  have hpcb : (buildPcb s args pid ps).running s = (buildPcb s args pid ps).pcbs pid := by
    show (buildPcb s args pid ps).pcbs (Function.update ps.activePid s pid s) = _
    rw [Function.update_self]
  have hnew : (buildPcb s args pid ps).pcbs pid = _ := Function.update_self _ _ _
  rw [hpcb, hnew]
  exact ⟨rfl, ⟨rfl, rfl⟩, ⟨rfl, rfl⟩⟩

/-! ## What `open` does -/

/-- The three reasons for which `open` is to fail. -/
def OpenFails (img : Image) (filename : List UInt8) (pcb : Pcb) : Prop :=
  (∀ i, i < 8 → pcb.isOpen i = true) ∨
  (∀ i, i < img.dirCount.toNat → (img.direntries i).name ≠ (text filename).take filenameLen) ∨
  ∃ d len, readDentryByName img filename = some (d, len) ∧
    d.filetype ≠ 0 ∧ d.filetype ≠ 1 ∧ d.filetype ≠ 2

theorem openTarget_eq_none_iff (d : Dentry) :
    openTarget d = none ↔ d.filetype ≠ 0 ∧ d.filetype ≠ 1 ∧ d.filetype ≠ 2 := by
  unfold openTarget
  simp only [userFiletype, dirFiletype, fileFiletype]
  by_cases h0 : d.filetype = 0
  · simp [h0]
  by_cases h1 : d.filetype = 1
  · simp [h1]
  by_cases h2 : d.filetype = 2
  · simp [h2]
  · simp [h0, h1, h2]

/-- While the count says that there is room, the loop of `open` finds a slot. -/
theorem FdTable.freeSlot {pcb : Pcb} (h : FdTable pcb) (hroom : pcb.numOpenDescriptors < 8) :
    ∃ i, firstFree pcb.isOpen 2 8 = some i ∧ freeSlot pcb = i ∧ i < 8 := by
  have hsome : ∃ i, firstFree pcb.isOpen 2 8 = some i := by
    refine Option.ne_none_iff_exists'.mp fun hnone => ?_
    have hall : ∀ i, i < 8 → pcb.isOpen i = true := by
      intro i hi
      rcases (show i = 0 ∨ i = 1 ∨ 2 ≤ i by omega) with rfl | rfl | h2
      · exact h.stdin.1
      · exact h.stdout.1
      · exact firstFree_eq_none_iff.mp hnone i h2 hi
    have hfull := usedCount_eq_iff.mpr hall
    rw [h.count, hfull] at hroom
    exact absurd hroom (by decide)
  obtain ⟨i, hi⟩ := hsome
  refine ⟨i, hi, ?_, (firstFree_eq_some_iff.mp hi).2.1⟩
  show (firstFree pcb.isOpen 2 8).getD 8 = i
  rw [hi]
  rfl

/-- **`open` by cases**: it fails for one of its three reasons and changes nothing, or it stores the
    file's table in the lowest free slot. -/
theorem openFd_cases (img : Image) (filename : List UInt8) {pcb : Pcb} (h : FdTable pcb) :
    (OpenFails img filename pcb ∧ openFd img filename pcb = (pcb, -1)) ∨
    (¬ OpenFails img filename pcb ∧
      ∃ d len fops inode i, readDentryByName img filename = some (d, len) ∧
        openTarget d = some (fops, inode) ∧ firstFree pcb.isOpen 2 8 = some i ∧
        openFd img filename pcb =
          (setFd i { fops := some fops, inodeNum := inode, fileOffset := 0, flags := 1 }
            (pcb.numOpenDescriptors + 1) pcb, (i : Int))) := by
  have hfull : pcb.numOpenDescriptors ≥ 8 ↔ ∀ i, i < 8 → pcb.isOpen i = true := by
    rw [← usedCount_eq_iff]
    have hle := h.bounds.2
    have hcount := h.count
    omega
  unfold openFd
  by_cases hroom : pcb.numOpenDescriptors ≥ 8
  · exact Or.inl ⟨Or.inl (hfull.mp hroom), if_pos hroom⟩
  rw [if_neg (show ¬ pcb.numOpenDescriptors ≥ numFds from hroom)]
  rcases hlookup : readDentryByName img filename with _ | ⟨d, len⟩
  · exact Or.inl ⟨Or.inr (Or.inl ((readDentryByName_eq_none_iff img filename).mp hlookup)), rfl⟩
  simp only
  rcases htarget : openTarget d with _ | ⟨fops, inode⟩
  · have htype := (openTarget_eq_none_iff d).mp htarget
    exact Or.inl ⟨Or.inr (Or.inr ⟨d, len, hlookup, htype⟩), rfl⟩
  · obtain ⟨i, hi, hslot, -⟩ := h.freeSlot (show pcb.numOpenDescriptors < 8 by omega)
    refine Or.inr ⟨?_, d, len, fops, inode, i, rfl, htarget, hi, by simp only [hslot]⟩
    -- none of the three reasons applies
    rintro (hall | hname | ⟨d', len', hlookup', htype⟩)
    · exact hroom (hfull.mpr hall)
    · rw [(readDentryByName_eq_none_iff img filename).mpr hname] at hlookup
      cases hlookup
    · rw [hlookup] at hlookup'
      obtain ⟨rfl, -⟩ := Prod.mk.inj (Option.some.inj hlookup')
      rw [(openTarget_eq_none_iff d).mpr htype] at htarget
      cases htarget

/-- What `close` does: refuse, or empty an open slot from 2 on that lies below the count. -/
theorem closeFd_cases (fd : Int) (pcb : Pcb) :
    (closeFd fd pcb = (pcb, -1) ∧
      ¬ (2 ≤ fd ∧ fd < pcb.numOpenDescriptors ∧ pcb.isOpen fd.toNat = true)) ∨
    ((2 ≤ fd ∧ fd < pcb.numOpenDescriptors ∧ pcb.isOpen fd.toNat = true) ∧
      closeFd fd pcb =
        (setFd fd.toNat closedFd (pcb.numOpenDescriptors - 1) pcb, 0)) := by
  unfold closeFd
  split
  · exact Or.inl ⟨rfl, by omega⟩
  split
  · rename_i hclosed
    exact Or.inl ⟨rfl, fun h => by rw [hclosed] at h; exact absurd h.2.2 (by decide)⟩
  · rename_i hbounds hopen
    exact Or.inr ⟨⟨by omega, by omega, Bool.not_eq_false _ ▸ hopen⟩, rfl⟩

/-! ## Every call keeps the invariant -/

theorem FdTable.afterOpen {pcb : Pcb} (h : FdTable pcb) (img : Image) (filename : List UInt8) :
    FdTable (openFd img filename pcb).1 := by
  rcases openFd_cases img filename h with ⟨-, heq⟩ | ⟨-, d, len, fops, inode, i, -, -, hi, heq⟩
  · rw [heq]
    exact h
  · obtain ⟨h2, h8, hfree, -⟩ := firstFree_eq_some_iff.mp hi
    rw [heq]
    refine h.setFd h2 ?_
    have hcount := usedCount_take h8 hfree
    rw [h.count]
    show _ = ((usedCount (Function.update pcb.isOpen i true) 8 : Nat) : Int)
    omega

theorem FdTable.afterClose {pcb : Pcb} (h : FdTable pcb) (fd : Int) : FdTable (closeFd fd pcb).1 := by
  rcases closeFd_cases fd pcb with ⟨heq, -⟩ | ⟨⟨h2, hlt, hopen⟩, heq⟩
  · rw [heq]
    exact h
  · have hle := h.bounds.2
    rw [heq]
    refine h.setFd (by omega) ?_
    have hcount := usedCount_release (show fd.toNat < 8 by omega) hopen
    rw [h.count]
    show _ = ((usedCount (Function.update pcb.isOpen fd.toNat false) 8 : Nat) : Int)
    omega

/-- A changed file offset leaves the open slots, the tables and the count. -/
theorem setFd_offset (fd : Nat) (off : Int) (pcb : Pcb) :
    let pcb' := setFd fd { pcb.fileDescArr fd with fileOffset := off } pcb.numOpenDescriptors pcb
    pcb'.isOpen = pcb.isOpen ∧ (∀ i, (pcb'.fileDescArr i).fops = (pcb.fileDescArr i).fops) ∧
      pcb'.numOpenDescriptors = pcb.numOpenDescriptors := by
  refine ⟨?_, fun i => ?_, rfl⟩
  · rw [setFd_isOpen]
    exact Function.update_eq_self fd pcb.isOpen
  · show (Function.update pcb.fileDescArr fd _ i).fops = _
    by_cases hi : i = fd
    · subst hi
      rw [Function.update_self]
    · rw [Function.update_of_ne hi]

/-- `read` leaves the open slots, the tables and the count. -/
theorem readPcb_same (img : Image) (fd : Int) (nullBuf : Bool) (nbytes : Int) (pcb : Pcb) :
    (readPcb img fd nullBuf nbytes pcb).isOpen = pcb.isOpen ∧
      (∀ i, ((readPcb img fd nullBuf nbytes pcb).fileDescArr i).fops =
        (pcb.fileDescArr i).fops) ∧
      (readPcb img fd nullBuf nbytes pcb).numOpenDescriptors = pcb.numOpenDescriptors := by
  obtain ⟨off, h | h⟩ := readPcb_offset img fd nullBuf nbytes pcb
  · rw [h]
    exact ⟨rfl, fun _ => rfl, rfl⟩
  · rw [h]
    exact setFd_offset fd.toNat off pcb

/-- **The step lemma**: every call keeps the invariant of the caller's table. -/
theorem FdTable.step {img : Image} {k k' : Kernel} {c : FdCall} (h : FdTable (callerPcb k))
    (hstep : fdStep img k c = some k') : FdTable (callerPcb k') := by
  rw [fdStep_callerPcb hstep]
  cases c with
  | openFile filename => exact h.afterOpen img filename
  | close fd => exact h.afterClose fd
  | read fd nullBuf nbytes =>
    obtain ⟨hopen, hfops, hnum⟩ := readPcb_same img fd nullBuf nbytes (callerPcb k)
    show FdTable (readPcb img fd nullBuf nbytes (callerPcb k))
    refine ⟨?_, ?_, ?_⟩
    · rw [hnum, hopen]
      exact h.count
    · rw [hopen, hfops]
      exact h.stdin
    · rw [hopen, hfops]
      exact h.stdout
  | write fd buf nbytes => exact h

/-! ## The table is right after every sequence of calls -/

/-- The kernel in which `build_pcb` has just initialised the PCB of process `pid`. -/
def newProcess (k : Kernel) (args : List UInt8) (pid : Nat) : Kernel :=
  { k with procs := buildPcb k.schedTerm args pid k.procs }

/-- `open` does what it should in kernel `k`, whatever the name: it never works on a slot outside
    the table, a descriptor it returns is the lowest free slot, and it returns -1, without a change,
    exactly for its three reasons. -/
structure OpenCorrect (img : Image) (k : Kernel) (filename : List UInt8) : Prop where
  inTable : (callerPcb k).numOpenDescriptors < 8 → freeSlot (callerPcb k) < 8
  lowestFree : (sysOpen img k.schedTerm filename k.procs).2 ≠ -1 →
    ∃ i : Nat, (sysOpen img k.schedTerm filename k.procs).2 = i ∧ 2 ≤ i ∧ i < 8 ∧
      (callerPcb k).isOpen i = false ∧ ∀ j, j < i → (callerPcb k).isOpen j = true
  fails : sysOpen img k.schedTerm filename k.procs = (k.procs, -1) ↔
    OpenFails img filename (callerPcb k)

/-- Under the invariant `open` is correct. -/
theorem FdTable.openCorrect {img : Image} {k : Kernel} (h : FdTable (callerPcb k))
    (filename : List UInt8) : OpenCorrect img k filename := by
  have hsys : sysOpen img k.schedTerm filename k.procs =
      (k.procs.setPcb (k.procs.runningPid k.schedTerm) (openFd img filename (callerPcb k)).1,
        (openFd img filename (callerPcb k)).2) := rfl
  refine ⟨fun hroom => ?_, ?_, ?_⟩
  · obtain ⟨i, -, hslot, hi⟩ := h.freeSlot hroom
    rw [hslot]
    exact hi
  · rw [hsys]
    intro hret
    rcases openFd_cases img filename h with ⟨-, heq⟩ | ⟨-, d, len, fops, inode, i, -, -, hi, heq⟩
    · rw [heq] at hret
      exact absurd rfl hret
    · obtain ⟨h2, h8, hfree, hbelow⟩ := firstFree_eq_some_iff.mp hi
      refine ⟨i, by rw [heq], h2, h8, hfree, fun j hj => ?_⟩
      rcases (show j = 0 ∨ j = 1 ∨ 2 ≤ j by omega) with rfl | rfl | h2j
      · exact h.stdin.1
      · exact h.stdout.1
      · exact hbelow j h2j hj
  · rw [hsys]
    rcases openFd_cases img filename h with ⟨hfails, heq⟩ | ⟨hfails, d, len, fops, inode, i, -, -, -, heq⟩
    · refine iff_of_true ?_ hfails
      rw [heq]
      exact congrArg (·, (-1 : Int)) (setPcb_self k.procs (k.procs.runningPid k.schedTerm))
    · refine iff_of_false ?_ hfails
      rw [heq]
      intro hcontra
      have hret := congrArg Prod.snd hcontra
      simp only at hret
      omega

/-- **The descriptor table is right after every sequence of calls.**  Starting from `build_pcb`,
    whatever the process opens, closes, reads and writes, with any arguments: the count is the
    number of open slots and lies in 2..8, slots 0 and 1 are stdin and stdout, and `open` is
    correct for every name. -/
theorem descriptor_table_correct (img : Image) (k : Kernel) (args : List UInt8) (pid : Nat)
    (calls : List FdCall) :
    Throughout (fdStep img)
      (fun k => FdTable (callerPcb k) ∧
        (2 ≤ (callerPcb k).numOpenDescriptors ∧ (callerPcb k).numOpenDescriptors ≤ 8) ∧
        ∀ filename, OpenCorrect img k filename)
      (newProcess k args pid) calls := by
  have hinv : Throughout (fdStep img) (fun k => FdTable (callerPcb k)) (newProcess k args pid)
      calls :=
    throughout_of_inv (fun _ _ _ h hstep => h.step hstep)
      (buildPcb_fdTable k.schedTerm args pid k.procs)
  exact throughout_mono (fun k h => ⟨h, h.bounds, h.openCorrect⟩) hinv

/-! ## What a process holds -/

/-- A process at work on its descriptors.  `held` records the history: the descriptors that `open`
    returned and that have not been closed since, each with the jump table of the file opened. -/
structure Session where
  kernel : Kernel
  held : Nat → Option FileOps

/-- The caller's PCB. -/
def Session.pcb (s : Session) : Pcb := callerPcb s.kernel

/-- The jump table of the file a name stands for. -/
def fileTable (img : Image) (filename : List UInt8) : Option FileOps :=
  match readDentryByName img filename with
  | some (d, _) => (openTarget d).map Prod.fst
  | none => none

/-- The record after a call, from the call's return value. -/
def heldAfter (img : Image) (s : Session) : FdCall → Nat → Option FileOps
  | .openFile filename =>
    let ret := (sysOpen img s.kernel.schedTerm filename s.kernel.procs).2
    if ret = -1 then s.held else Function.update s.held ret.toNat (fileTable img filename)
  | .close fd =>
    let ret := (sysClose s.kernel.schedTerm fd s.kernel.procs).2
    if ret = 0 then Function.update s.held fd.toNat none else s.held
  | .read _ _ _ => s.held
  | .write _ _ _ => s.held

def sessionStep (img : Image) (s : Session) (c : FdCall) : Option Session :=
  (fdStep img s.kernel c).map fun k => { kernel := k, held := heldAfter img s c }

/-- A new process, which holds nothing. -/
def newSession (k : Kernel) (args : List UInt8) (pid : Nat) : Session :=
  { kernel := newProcess k args pid, held := fun _ => none }

/-- Descriptor `fd` works, as an open file with this jump table: `read` and `write` with a buffer
    call the table's functions, and `close` returns 0. -/
structure Usable (k : Kernel) (fd : Nat) (fops : FileOps) : Prop where
  read : ∃ f, fops.read = some f ∧ readTarget (callerPcb k) fd false = some f
  write : ∃ f, fops.write = some f ∧ writeTarget (callerPcb k) fd false = some f
  close : (sysClose k.schedTerm fd k.procs).2 = 0

/-- Everything the process holds works. -/
def HeldUsable (s : Session) : Prop := ∀ fd fops, s.held fd = some fops → Usable s.kernel fd fops

/-- The call does not close an open descriptor from 2 on below another open one. -/
def closesHighest (s : Session) : FdCall → Prop
  | .close fd => 2 ≤ fd → fd < 8 → s.pcb.isOpen fd.toNat = true →
      ∀ j, fd.toNat < j → j < 8 → s.pcb.isOpen j = false
  | _ => True

/-- The invariant while only the highest descriptors are closed: the table is packed, and what is
    held are its open slots from 2 on. -/
structure PackedSession (s : Session) : Prop where
  table : FdTable s.pcb
  packed : Packed s.pcb.isOpen 8
  held : ∀ fd fops, s.held fd = some fops → 2 ≤ fd ∧ fd < 8 ∧ s.pcb.isOpen fd = true ∧
    (s.pcb.fileDescArr fd).fops = some fops ∧ fops.read.isSome = true ∧ fops.write.isSome = true
  opened : ∀ fd, 2 ≤ fd → fd < 8 → s.pcb.isOpen fd = true → ∃ fops, s.held fd = some fops

/-- In a packed table, open means below the count. -/
theorem PackedSession.isOpen_iff {s : Session} (h : PackedSession s) {i : Nat} (hi : i < 8) :
    s.pcb.isOpen i = true ↔ (i : Int) < s.pcb.numOpenDescriptors := by
  rw [h.packed i hi, h.table.count]
  omega

/-- Inside the bounds `read` and `write` go to the descriptor's own table. -/
theorem targets_of_lt {pcb : Pcb} {fd : Nat} (hlt : (fd : Int) < pcb.numOpenDescriptors) :
    readTarget pcb fd false = (pcb.fileDescArr fd).fops.bind FileOps.read ∧
      writeTarget pcb fd false = (pcb.fileDescArr fd).fops.bind FileOps.write := by
  have hin : outOfBounds pcb fd = false := by
    simp only [outOfBounds, Bool.or_eq_false_iff, decide_eq_false_iff_not]
    omega
  simp [readTarget, writeTarget, hin, Pcb.fd]

theorem PackedSession.heldUsable {s : Session} (h : PackedSession s) : HeldUsable s := by
  intro fd fops hheld
  obtain ⟨h2, h8, hopen, hfops, hread, hwrite⟩ := h.held fd fops hheld
  have hlt := (h.isOpen_iff h8).mp hopen
  obtain ⟨hrt, hwt⟩ := targets_of_lt hlt
  obtain ⟨f, hf⟩ := Option.isSome_iff_exists.mp hread
  obtain ⟨g, hg⟩ := Option.isSome_iff_exists.mp hwrite
  refine ⟨⟨f, hf, ?_⟩, ⟨g, hg, ?_⟩, ?_⟩
  · show readTarget s.pcb fd false = _
    rw [hrt, hfops]
    exact hf
  · show writeTarget s.pcb fd false = _
    rw [hwt, hfops]
    exact hg
  · show (closeFd fd s.pcb).2 = 0
    rcases closeFd_cases fd s.pcb with ⟨-, hrefused⟩ | ⟨-, heq⟩
    · exact absurd ⟨by omega, hlt, hopen⟩ hrefused
    · rw [heq]

theorem openTarget_some {d : Dentry} {fops : FileOps} {inode : Int}
    (h : openTarget d = some (fops, inode)) :
    fops.read.isSome = true ∧ fops.write.isSome = true := by
  have hcases : fops = rtcOps ∨ fops = dOps ∨ fops = fOps := by
    unfold openTarget at h
    split at h
    · exact Or.inl (Prod.mk.inj (Option.some.inj h)).1.symm
    split at h
    · exact Or.inr (Or.inl (Prod.mk.inj (Option.some.inj h)).1.symm)
    split at h
    · exact Or.inr (Or.inr (Prod.mk.inj (Option.some.inj h)).1.symm)
    · cases h
  rcases hcases with rfl | rfl | rfl <;> decide

theorem newSession_packed (k : Kernel) (args : List UInt8) (pid : Nat) :
    PackedSession (newSession k args pid) := by
  have htable : FdTable (newSession k args pid).pcb := buildPcb_fdTable k.schedTerm args pid k.procs
  have hpcb : (newSession k args pid).pcb = (buildPcb k.schedTerm args pid k.procs).pcbs pid := by
    show (buildPcb k.schedTerm args pid k.procs).pcbs
      (Function.update k.procs.activePid k.schedTerm pid k.schedTerm) = _
    rw [Function.update_self]
  have hopen : ∀ i, i < 8 → (newSession k args pid).pcb.isOpen i = decide (i < 2) := by
    intro i hi
    have hnew : (buildPcb k.schedTerm args pid k.procs).pcbs pid = _ := Function.update_self _ _ _
    rw [hpcb, hnew]
    rcases (show i = 0 ∨ i = 1 ∨ i = 2 ∨ i = 3 ∨ i = 4 ∨ i = 5 ∨ i = 6 ∨ i = 7 by omega) with
      rfl | rfl | rfl | rfl | rfl | rfl | rfl | rfl <;> rfl
  have hcount : usedCount (newSession k args pid).pcb.isOpen 8 = 2 :=
    usedCount_congr hopen
  refine ⟨htable, fun i hi => ?_, fun fd fops hheld => ?_, fun fd h2 h8 hfd => ?_⟩
  · rw [hopen i hi, hcount, decide_eq_true_iff]
  · cases hheld
  · rw [hopen fd h8, decide_eq_true_iff] at hfd
    omega

/-- `open` keeps the invariant. -/
theorem PackedSession.afterOpen {img : Image} {s s' : Session} {filename : List UInt8}
    (h : PackedSession s) (hpcb : s'.pcb = (openFd img filename s.pcb).1)
    (hheld : s'.held = heldAfter img s (.openFile filename)) : PackedSession s' := by
  have hret : (sysOpen img s.kernel.schedTerm filename s.kernel.procs).2 =
      (openFd img filename s.pcb).2 := rfl
  rcases openFd_cases img filename h.table with
    ⟨-, heq⟩ | ⟨-, d, len, fops, inode, i, hlookup, htarget, hi, heq⟩
  · rw [heq] at hpcb hret
    have hsame : s'.held = s.held := hheld.trans (if_pos hret)
    exact ⟨hpcb ▸ h.table, hpcb ▸ h.packed, hpcb ▸ hsame ▸ h.held, hpcb ▸ hsame ▸ h.opened⟩
  · obtain ⟨h2, h8, hfree, -⟩ := firstFree_eq_some_iff.mp hi
    have hfile : fileTable img filename = some fops := by
      simp [fileTable, hlookup, htarget]
    have hnew : s'.held = Function.update s.held i (some fops) := by
      refine (hheld.trans (if_neg ?_)).trans ?_
      · rw [hret, heq]
        show (i : Int) ≠ -1
        omega
      · rw [hret, heq, hfile]
        rfl
    have hopen' : s'.pcb.isOpen = Function.update s.pcb.isOpen i true := by
      rw [hpcb, heq]
      exact setFd_isOpen i _ _ _
    have hle : 2 ≤ usedCount s.pcb.isOpen 8 := by
      have h := h.table.count ▸ h.table.bounds.1
      omega
    have hfd : ∀ fd, (s'.pcb.fileDescArr fd).fops =
        if fd = i then some fops else (s.pcb.fileDescArr fd).fops := by
      intro fd
      rw [hpcb, heq]
      show (Function.update s.pcb.fileDescArr i _ fd).fops = _
      by_cases hfi : fd = i
      · subst hfi
        rw [Function.update_self, if_pos rfl]
      · rw [Function.update_of_ne hfi, if_neg hfi]
    refine ⟨?_, ?_, fun fd t hfdt => ?_, fun fd hfd2 hfd8 hfdopen => ?_⟩
    · rw [hpcb]
      exact h.table.afterOpen img filename
    · rw [hopen']
      exact h.packed.take hle hi
    · rw [hopen', hfd]
      rw [hnew] at hfdt
      by_cases hfi : fd = i
      · subst hfi
        rw [Function.update_self] at hfdt ⊢
        rw [if_pos rfl]
        exact ⟨h2, h8, rfl, hfdt, (Option.some.inj hfdt) ▸ openTarget_some htarget⟩
      · rw [Function.update_of_ne hfi] at hfdt ⊢
        rw [if_neg hfi]
        exact h.held fd t hfdt
    · rw [hnew]
      rw [hopen'] at hfdopen
      by_cases hfi : fd = i
      · subst hfi
        exact ⟨fops, Function.update_self _ _ _⟩
      · rw [Function.update_of_ne hfi] at hfdopen ⊢
        exact h.opened fd hfd2 hfd8 hfdopen

/-- An accepted `close`: the table and the record after it. -/
theorem PackedSession.closed {img : Image} {s s' : Session} {fd : Nat} (h : PackedSession s)
    (h2 : 2 ≤ fd) (h8 : fd < 8) (hopen : s.pcb.isOpen fd = true)
    (hpcb : s'.pcb = (closeFd fd s.pcb).1) (hheld : s'.held = heldAfter img s (.close fd)) :
    s'.pcb = setFd fd closedFd (s.pcb.numOpenDescriptors - 1) s.pcb ∧
      s'.held = Function.update s.held fd none := by
  rcases closeFd_cases fd s.pcb with ⟨-, hrefused⟩ | ⟨-, heq⟩
  · exact absurd ⟨by omega, (h.isOpen_iff h8).mp hopen, hopen⟩ hrefused
  · refine ⟨by rw [hpcb, heq]; rfl, ?_⟩
    have hret : (sysClose s.kernel.schedTerm fd s.kernel.procs).2 = 0 := by
      show (closeFd fd s.pcb).2 = 0
      rw [heq]
    exact hheld.trans (if_pos hret)

/-- A close of the highest open descriptor keeps the invariant. -/
theorem PackedSession.afterClose {img : Image} {s s' : Session} {fd : Int} (h : PackedSession s)
    (hgood : closesHighest s (.close fd)) (hpcb : s'.pcb = (closeFd fd s.pcb).1)
    (hheld : s'.held = heldAfter img s (.close fd)) : PackedSession s' := by
  rcases closeFd_cases fd s.pcb with ⟨heq, -⟩ | ⟨⟨h2, hlt, hopen⟩, -⟩
  · rw [heq] at hpcb
    have hret : ¬ (sysClose s.kernel.schedTerm fd s.kernel.procs).2 = 0 := by
      show ¬ (closeFd fd s.pcb).2 = 0
      rw [heq]
      exact (show (-1 : Int) ≠ 0 by decide)
    have hsame : s'.held = s.held := hheld.trans (if_neg hret)
    exact ⟨hpcb ▸ h.table, hpcb ▸ h.packed, hpcb ▸ hsame ▸ h.held, hpcb ▸ hsame ▸ h.opened⟩
  · have hle := h.table.bounds.2
    obtain ⟨i, rfl⟩ := Int.eq_ofNat_of_zero_le (show 0 ≤ fd by omega)
    have hi8 : i < 8 := by omega
    have htable : FdTable s'.pcb := hpcb ▸ h.table.afterClose _
    obtain ⟨hpcb, hheld⟩ := h.closed (show 2 ≤ i by omega) hi8 hopen hpcb hheld
    have hopen' : s'.pcb.isOpen = Function.update s.pcb.isOpen i false := by
      rw [hpcb]
      exact setFd_isOpen i closedFd _ _
    -- the last open slot is the closed one, or it would be open above it
    have hlast : i + 1 = usedCount s.pcb.isOpen 8 := by
      have hcount := (h.packed i hi8).mp hopen
      have hle8 := usedCount_le s.pcb.isOpen 8
      by_contra hne
      have hfalse := hgood h2 (by omega) hopen (usedCount s.pcb.isOpen 8 - 1)
        (show i < _ by omega) (by omega)
      have htrue := (h.packed (usedCount s.pcb.isOpen 8 - 1) (by omega)).mpr (by omega)
      rw [hfalse] at htrue
      cases htrue
    refine ⟨htable, ?_, fun fd t hfdt => ?_, fun fd hfd2 hfd8 hfdopen => ?_⟩
    · rw [hopen']
      exact (h.packed.release_iff hi8 hopen).mpr hlast
    · rw [hheld] at hfdt
      by_cases hfi : fd = i
      · rw [hfi, Function.update_self] at hfdt
        cases hfdt
      · rw [Function.update_of_ne hfi] at hfdt
        rw [hopen', Function.update_of_ne hfi, hpcb]
        show _ ∧ _ ∧ _ ∧ (Function.update s.pcb.fileDescArr i closedFd fd).fops = _ ∧ _
        rw [Function.update_of_ne hfi]
        exact h.held fd t hfdt
    · rw [hopen'] at hfdopen
      by_cases hfi : fd = i
      · rw [hfi, Function.update_self] at hfdopen
        cases hfdopen
      · rw [Function.update_of_ne hfi] at hfdopen
        rw [hheld, Function.update_of_ne hfi]
        exact h.opened fd hfd2 hfd8 hfdopen

/-- A close below an open descriptor leaves the highest open one, which is held, out of bounds. -/
theorem PackedSession.not_heldUsable {img : Image} {s s' : Session} {fd : Int}
    (h : PackedSession s) (hbad : ¬ closesHighest s (.close fd))
    (hpcb : s'.pcb = (closeFd fd s.pcb).1) (hheld : s'.held = heldAfter img s (.close fd)) :
    ¬ HeldUsable s' := by
  simp only [closesHighest, not_forall, Bool.not_eq_false] at hbad
  obtain ⟨h2, h8, hopen, j, hfdj, hj8, hjopen⟩ := hbad
  obtain ⟨i, rfl⟩ := Int.eq_ofNat_of_zero_le (show 0 ≤ fd by omega)
  obtain ⟨hpcb, hheld⟩ := h.closed (show 2 ≤ i by omega) (show i < 8 by omega) hopen hpcb hheld
  have hle8 := usedCount_le s.pcb.isOpen 8
  have hjlt := (h.packed j hj8).mp hjopen
  -- `m` is the highest open descriptor
  obtain ⟨m, hm⟩ : ∃ m, usedCount s.pcb.isOpen 8 = m + 1 := ⟨usedCount s.pcb.isOpen 8 - 1, by omega⟩
  have him : i < m := by
    change i < j at hfdj
    omega
  have hmopen := (h.packed m (by omega)).mpr (by omega)
  obtain ⟨fops, hfops⟩ := h.opened m (by omega) (by omega) hmopen
  intro husable
  obtain ⟨f, -, hread⟩ := (husable m fops (by
    rw [hheld, Function.update_of_ne (show m ≠ i by omega)]
    exact hfops)).read
  have hout : outOfBounds (callerPcb s'.kernel) m = true := by
    show outOfBounds s'.pcb m = true
    rw [hpcb]
    simp only [outOfBounds, Bool.or_eq_true, decide_eq_true_iff]
    right
    show (m : Int) ≥ s.pcb.numOpenDescriptors - 1
    rw [h.table.count, hm]
    omega
  rw [readTarget, if_pos hout] at hread
  cases hread

/-- Reads and writes keep the invariant. -/
theorem PackedSession.afterSame {s s' : Session} (h : PackedSession s)
    (hopen : s'.pcb.isOpen = s.pcb.isOpen)
    (hfops : ∀ i, (s'.pcb.fileDescArr i).fops = (s.pcb.fileDescArr i).fops)
    (hnum : s'.pcb.numOpenDescriptors = s.pcb.numOpenDescriptors) (hheld : s'.held = s.held) :
    PackedSession s' where
  table := ⟨by rw [hnum, hopen]; exact h.table.count, by rw [hopen, hfops]; exact h.table.stdin,
    by rw [hopen, hfops]; exact h.table.stdout⟩
  packed := by rw [hopen]; exact h.packed
  held fd fops := by rw [hheld, hopen, hfops]; exact h.held fd fops
  opened fd := by rw [hheld, hopen]; exact h.opened fd

theorem sessionStep_eq {img : Image} {s s' : Session} {c : FdCall}
    (h : sessionStep img s c = some s') :
    s'.pcb = pcbAfter img s.pcb c ∧ s'.held = heldAfter img s c := by
  obtain ⟨k', hk', rfl⟩ := Option.map_eq_some_iff.mp h
  exact ⟨fdStep_callerPcb hk', rfl⟩

/-- The step lemma of a session. -/
theorem PackedSession.step {img : Image} {s s' : Session} {c : FdCall} (h : PackedSession s)
    (hgood : closesHighest s c) (hstep : sessionStep img s c = some s') : PackedSession s' := by
  obtain ⟨hpcb, hheld⟩ := sessionStep_eq hstep
  cases c with
  | openFile filename => exact h.afterOpen hpcb hheld
  | close fd => exact h.afterClose hgood hpcb hheld
  | read fd nullBuf nbytes =>
    obtain ⟨hopen, hfops, hnum⟩ := readPcb_same img fd nullBuf nbytes s.pcb
    have hpcb : s'.pcb = readPcb img fd nullBuf nbytes s.pcb := hpcb
    exact h.afterSame (hpcb ▸ hopen) (hpcb ▸ hfops) (hpcb ▸ hnum) hheld
  | write fd buf nbytes =>
    have hpcb : s'.pcb = s.pcb := hpcb
    exact h.afterSame (hpcb ▸ rfl) (fun _ => hpcb ▸ rfl) (hpcb ▸ rfl) hheld

/-- **What a process holds stays usable exactly while it closes from the top.**  For every process
    and every sequence of its calls from `build_pcb` on: every descriptor held is usable after every
    call iff no close in the sequence is of an open descriptor below another open one. -/
theorem held_descriptors_usable_iff (img : Image) (k : Kernel) (args : List UInt8) (pid : Nat)
    (calls : List FdCall) :
    Throughout (sessionStep img) HeldUsable (newSession k args pid) calls ↔
      Along (sessionStep img) closesHighest (newSession k args pid) calls := by
  refine throughout_iff_along (fun s h => h.heldUsable) (fun s c s' h hg hs => h.step hg hs) ?_
    (newSession_packed k args pid)
  intro s c s' h hbad hs
  obtain ⟨hpcb, hheld⟩ := sessionStep_eq hs
  cases c with
  | close fd => exact h.not_heldUsable hbad hpcb hheld
  | openFile | read | write => exact absurd trivial hbad

/-- Open a file twice and close the first descriptor: the second one, 3, is refused. -/
theorem second_descriptor_refused :
    ¬ Throughout (sessionStep smallImage) HeldUsable
      (newSession (initialKernel blankMemory) [] 1)
      [.openFile [115, 104, 101, 108, 108], .openFile [115, 104, 101, 108, 108], .close 2] := by
  intro h
  have hrun : (run (sessionStep smallImage) (newSession (initialKernel blankMemory) [] 1)
      [.openFile [115, 104, 101, 108, 108], .openFile [115, 104, 101, 108, 108], .close 2]).map
        (fun s => (s.held 3, readTarget (callerPcb s.kernel) (3 : Nat) false)) =
      some (some fOps, none) := by
    decide +kernel
  obtain ⟨s, hs, hfields⟩ := Option.map_eq_some_iff.mp hrun
  obtain ⟨hheld, hrefused⟩ := Prod.mk.inj hfields
  obtain ⟨f, -, hread⟩ := (throughout_last h hs 3 fOps hheld).read
  rw [hrefused] at hread
  cases hread

end ByteVerse
