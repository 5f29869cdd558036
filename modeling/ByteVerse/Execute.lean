/-
  `execute`, `halt` and `getargs` of `system_calls.c`.

  The statements of `execute` and `halt` that touch the process table are definitions of their
  own (`claimPid`, `mapProgram`, `buildPcb`, ..., `freePid`, `closeAll`, ...): the system calls
  run them to completion, and a preempted call has run some of them.

  A program is a file; its bytes in user memory are not kept, only whether loading it succeeds.
  `execute` does not return when it succeeds: it leaves a frame on its caller's kernel stack and
  enters the program.  `halt` finds that frame through `ESP_prev`/`EBP_prev` and makes that call of
  `execute` return; `RetSite` says what is above it.
-/
import ByteVerse.Descriptors

set_option linter.unusedVariables false

namespace ByteVerse

open SlotTable

/-! ## The command line -/

/-- The separators of a command: blank and newline. -/
def isSeparator (c : UInt8) : Bool := c == 32 || c == 10

/-- `command[i]`: the byte at offset `i` of the memory the command pointer leads to. -/
def byteAt (command : List UInt8) (i : Nat) : UInt8 := command.getD i 0

/-- `getCommand`: the characters before the first separator among the first 32 bytes (a NUL does
    not stop it), and the index where the arguments start. -/
def getCommand (command : List UInt8) : List UInt8 × Nat :=
  match (List.range filenameLen).find? fun i => isSeparator (byteAt command i) with
  | none => ((List.range filenameLen).map (byteAt command), filenameLen)
  | some i =>
    ((List.range i).map (byteAt command), i + ((command.drop i).takeWhile isSeparator).length)

/-- `getArguments` into a cleared buffer of 32 bytes: the text from `startIndex` on.  These are the 32
    bytes of `args`; the copy has no bound, and what does not fit goes past their end. -/
def getArguments (command : List UInt8) (startIndex : Nat) : List UInt8 :=
  let arguments := text (command.drop startIndex)
  (List.range filenameLen).map fun i => arguments.getD i 0

/-- The arguments of a command fit `args`. -/
def ArgumentsFit (command : List UInt8) : Prop :=
  (text (command.drop (getCommand command).2)).length ≤ filenameLen

instance (command : List UInt8) : Decidable (ArgumentsFit command) :=
  inferInstanceAs (Decidable (_ ≤ _))

/-- `cmd` when the entry is looked up: the word that `getCommand` has found, unless `getArguments` has
    written over it since. -/
def lookedUp (fr : Frame) (command : List UInt8) : List UInt8 :=
  if ArgumentsFit command then (getCommand command).1 else fr.cmd

/-! ## The checks before a process is made -/

@[simp] def numElf : Int := 4
@[simp] def progEpOffset : Int := 24
@[simp] def alot : Int := 10000000

/-- `MAGICB0 .. MAGICB3`. -/
def elfMagic : List UInt8 := [0x7F, 0x45, 0x4C, 0x46]

/-- A local array after `read_data` has stored some bytes at its front. -/
def overlay (stored old : List UInt8) : List UInt8 := stored ++ old.drop stored.length

/-- The 32 bytes of `args` that `execute` prepares for a command. -/
def commandArgs (command : List UInt8) : List UInt8 := getArguments command (getCommand command).2

/-- What the checks of `execute` find: the program's inode, its entry point and the arguments. -/
structure Program where
  inode : Int
  progEip : List UInt8
  args : List UInt8

/-- `execute` up to the search for a pid.  `error b` is the return value -1, with interrupts
    enabled again exactly when `b` (the failed read of the magic numbers forgets to).  Arguments so
    long that they run over the saved registers and the return address too are not followed. -/
def checkProgram (img : Image) (fr : Frame) (command : Option (List UInt8)) : Except Bool Program :=
  match command with
  | none => .error true
  | some command =>
    match readDentryByName img (lookedUp fr command) with
    | none => .error true
    | some (executingFile, _) =>
      let magic := readData img executingFile.inodeNum 0 numElf
      if magic.1 = -1 then .error false
      else if (overlay magic.2 fr.magicNumbers).take 4 ≠ elfMagic then .error true
      else
        let eip := readData img executingFile.inodeNum progEpOffset numElf
        if eip.1 = -1 then .error true
        else
          .ok { inode := executingFile.inodeNum
                progEip := overlay eip.2 fr.progEip
                args := commandArgs command }

/-- The copy of the program to its page succeeds. -/
def loads (img : Image) (prog : Program) : Bool := (readData img prog.inode 0 alot).1 != -1

/-! ## The statements of `execute` on the process table -/

/-- Slot `i` of `pid_arr` is taken; it stands for pid `i + 1`. -/
def Procs.slotUsed (ps : Procs) (i : Nat) : Bool := ps.pidArr i != 0

/-- The frame of the 4 MB page of process `pid`. -/
def userFrame (pid : Nat) : Int := (mb8 + ((pid : Int) - 1) * mb4) / mb4

/-- `get_active_kernel_stack_addr`. -/
def getActiveKernelStackAddr (pid : Nat) : Int := mb8 - ((pid : Int) - 1) * kb8 - 4

/-- `pid_arr[i] = 1`. -/
def claimPid (i : Nat) (ps : Procs) : Procs := { ps with pidArr := Function.update ps.pidArr i 1 }

/-- `page_directory[32].pde_4mb.frame = ...` for the new process. -/
def mapProgram (pid : Nat) (ps : Procs) : Procs := { ps with pageDirectory32 := userFrame pid }

def stdinFd : Fd := { fops := some stdinFops, inodeNum := 0, fileOffset := 0, flags := 1 }
def stdoutFd : Fd := { fops := some stdoutFops, inodeNum := 0, fileOffset := 0, flags := 1 }

/-- The descriptors of a new process: stdin and stdout open, the others closed. -/
def initialFds (i : Nat) : Fd := if i = 0 then stdinFd else if i = 1 then stdoutFd else closedFd

/-- The parent `build_pcb` records: a process whose pid is the terminal's `base_pid` is its own
    parent, any other one has the terminal's active process for a parent. -/
def parentOf (s : Fin 3) (pid : Nat) (ps : Procs) : Nat :=
  if pid = ps.basePid s then pid else ps.activePid s

/-- `build_pcb` (on descriptor slots below 8). -/
def buildPcb (s : Fin 3) (args : List UInt8) (pid : Nat) (ps : Procs) : Procs :=
  let old := ps.pcbs pid
  let pcb : Pcb :=
    { old with
      pid := pid
      parentPid := parentOf s pid ps
      args := args
      prevTssESP0 := ps.tssEsp0
      prevTssSS := ps.tssSs0
      fileDescArr := fun i => if i < numFds.toNat then initialFds i else old.fileDescArr i
      numOpenDescriptors := 2 }
  updateFilePcb pid { ps.setPcb pid pcb with activePid := Function.update ps.activePid s pid }

/-- `pcb->ESP_prev = par_esp; pcb->EBP_prev = par_ebp`. -/
def saveFrame (pid : Nat) (fr : Frame) (site : RetSite) (ps : Procs) : Procs :=
  ps.setPcb pid { ps.pcbs pid with espPrev := fr.esp, ebpPrev := fr.ebp, retSite := site }

/-- The TSS switch: the kernel stack of the terminal's active process, also noted in its PCB. -/
def setTss (s : Fin 3) (pid : Nat) (ps : Procs) : Procs :=
  let esp0 := getActiveKernelStackAddr (ps.activePid s)
  { ps.setPcb pid { ps.pcbs pid with tssEsp0 := esp0 } with tssSs0 := kernelDS, tssEsp0 := esp0 }

/-- `execute` on the process table, from the claim of slot `i` to the TSS switch. -/
def startProcess (s : Fin 3) (fr : Frame) (site : RetSite) (args : List UInt8) (i : Nat)
    (ps : Procs) : Procs :=
  setTss s (i + 1) (saveFrame (i + 1) fr site
    (buildPcb s args (i + 1) (mapProgram (i + 1) (claimPid i ps))))

/-- The PCB of a process that `execute` has just started. -/
def newPcb (s : Fin 3) (fr : Frame) (site : RetSite) (args : List UInt8) (pid : Nat) (ps : Procs) :
    Pcb :=
  { ps.pcbs pid with
    pid := pid
    parentPid := parentOf s pid ps
    args := args
    espPrev := fr.esp
    ebpPrev := fr.ebp
    retSite := site
    prevTssESP0 := ps.tssEsp0
    prevTssSS := ps.tssSs0
    tssEsp0 := getActiveKernelStackAddr pid
    fileDescArr := fun i => if i < numFds.toNat then initialFds i else (ps.pcbs pid).fileDescArr i
    numOpenDescriptors := 2 }

/-- **What `execute` does to the process table**, all statements together. -/
theorem startProcess_eq (s : Fin 3) (fr : Frame) (site : RetSite) (args : List UInt8) (i : Nat)
    (ps : Procs) :
    startProcess s fr site args i ps =
      { ps with
        pidArr := Function.update ps.pidArr i 1
        pcbs := Function.update ps.pcbs (i + 1) (newPcb s fr site args (i + 1) ps)
        activePid := Function.update ps.activePid s (i + 1)
        filePcb := i + 1
        pageDirectory32 := userFrame (i + 1)
        tssEsp0 := getActiveKernelStackAddr (i + 1)
        tssSs0 := kernelDS } := by
  simp only [startProcess, setTss, saveFrame, buildPcb, mapProgram, claimPid, updateFilePcb,
    Procs.setPcb, newPcb, parentOf, Function.update_self, Function.update_idem]
  rfl

/-! ## `execute` -/

/-- What became of a call of `execute`. -/
inductive ExecResult
  /-- It returned this value before it had claimed a pid. -/
  | refused (retVal : Int)
  /-- It returned -1 with the pid claimed and the page mapped, because loading failed. -/
  | loadFailed
  /-- It entered a program, as this process. -/
  | entered (pid : Nat) (progEip : List UInt8)
  deriving DecidableEq

/-- `"Process Cap Reached: "`. -/
def processCapReached : List UInt8 :=
  [80, 114, 111, 99, 101, 115, 115, 32, 67, 97, 112, 32, 82, 101, 97, 99, 104, 101, 100, 58, 32]

/-- `execute`, called from `site` with the activation record `fr`. -/
def execute (img : Image) (fr : Frame) (site : RetSite) (command : Option (List UInt8))
    (k : Kernel) : Kernel × ExecResult :=
  let k := cli k
  match checkProgram img fr command with
  | .error reenable => (if reenable then sti k else k, .refused (-1))
  | .ok prog =>
    match firstFree k.procs.slotUsed 0 maxPcbs with
    | none =>
      let con := printfkText k.schedTerm k.visibleTerm processCapReached k.con
      (sti { k with con := con }, .refused 256)
    | some i =>
      if loads img prog then
        (sti { k with procs := startProcess k.schedTerm fr site prog.args i k.procs },
          .entered (i + 1) prog.progEip)
      else (sti { k with procs := mapProgram (i + 1) (claimPid i k.procs) }, .loadFailed)

/-- `"shell"`, with the memory behind the literal. -/
def shellCommand (disk : Disk) (caller : ShellCaller) : List UInt8 :=
  [115, 104, 101, 108, 108] ++ disk.behindShell caller

/-- `execute((uint8_t*)"shell")`. -/
def executeShell (disk : Disk) (caller : ShellCaller) (fr : Frame) (site : RetSite) (k : Kernel) :
    Kernel × ExecResult :=
  execute disk.img fr site (some (shellCommand disk caller)) k

/-! ## The statements of `halt` on the process table -/

/-- `RETURN_EXCEPTION` for `EXCEPTION_STATUS`, the (signed) status byte itself otherwise. -/
def haltRetVal (status : UInt8) : Int := if status = 100 then 256 else signed status

/-- `pid_arr[pid_num - 1] = 0`. -/
def freePid (pid : Nat) (ps : Procs) : Procs :=
  { ps with pidArr := Function.update ps.pidArr (pid - 1) 0 }

/-- `close(i)` for all eight descriptors. -/
def closeAll (s : Fin 3) (ps : Procs) : Procs :=
  (List.range numFds.toNat).foldl (fun ps (i : Nat) => (sysClose s i ps).1) ps

/-- The page of the parent. -/
def mapParent (pid : Nat) (ps : Procs) : Procs :=
  { ps with pageDirectory32 := userFrame (ps.pcbs pid).parentPid }

/-- `tss.ss0 = current_pcb->prev_tss_SS; tss.esp0 = current_pcb->prev_tss_ESP0`. -/
def restoreTss (pid : Nat) (ps : Procs) : Procs :=
  { ps with tssSs0 := (ps.pcbs pid).prevTssSS, tssEsp0 := (ps.pcbs pid).prevTssESP0 }

/-- `terminals[sched_term].active_pid = current_pcb->parent_pid`. -/
def activateParent (s : Fin 3) (pid : Nat) (ps : Procs) : Procs :=
  { ps with activePid := Function.update ps.activePid s (ps.pcbs pid).parentPid }

/-- `halt` on the process table from the closing of the descriptors on, with `current_pcb` the PCB
    of `pid`. -/
def haltTail (s : Fin 3) (pid : Nat) (ps : Procs) : Procs :=
  activateParent s pid (restoreTss pid (mapParent pid (closeAll s ps)))

/-- Two PCBs that differ in their descriptors at most. -/
def SameButFds (pcb pcb' : Pcb) : Prop :=
  ∃ arr num, pcb' = { pcb with fileDescArr := arr, numOpenDescriptors := num }

theorem SameButFds.refl (pcb : Pcb) : SameButFds pcb pcb := ⟨_, _, rfl⟩

theorem SameButFds.trans {pcb pcb' pcb'' : Pcb} (h : SameButFds pcb pcb')
    (h' : SameButFds pcb' pcb'') : SameButFds pcb pcb'' := by
  obtain ⟨arr, num, rfl⟩ := h
  obtain ⟨arr', num', rfl⟩ := h'
  exact ⟨arr', num', rfl⟩

/-- What `execute` stores in a PCB once and for all: nothing else ever writes these fields. -/
structure Origin where
  pid : Nat
  parentPid : Nat
  args : List UInt8
  espPrev : Nat
  ebpPrev : Nat
  retSite : RetSite
  prevTssESP0 : Int

def Pcb.origin (pcb : Pcb) : Origin :=
  { pid := pcb.pid, parentPid := pcb.parentPid, args := pcb.args, espPrev := pcb.espPrev
    ebpPrev := pcb.ebpPrev, retSite := pcb.retSite, prevTssESP0 := pcb.prevTssESP0 }

theorem SameButFds.origin_eq {pcb pcb' : Pcb} (h : SameButFds pcb pcb') :
    pcb'.origin = pcb.origin := by
  obtain ⟨arr, num, rfl⟩ := h
  rfl

theorem SameButFds.tssEsp0_eq {pcb pcb' : Pcb} (h : SameButFds pcb pcb') :
    pcb'.tssEsp0 = pcb.tssEsp0 := by
  obtain ⟨arr, num, rfl⟩ := h
  rfl

/-- `close` changes the caller's descriptors and nothing else. -/
theorem sysClose_same (s : Fin 3) (fd : Int) (ps : Procs) :
    ∃ pcb, SameButFds (ps.running s) pcb ∧
      (sysClose s fd ps).1 = ps.setPcb (ps.runningPid s) pcb := by
  refine ⟨(closeFd fd (ps.running s)).1, ?_, rfl⟩
  unfold closeFd
  split
  · exact SameButFds.refl _
  split
  · exact SameButFds.refl _
  · exact ⟨_, _, rfl⟩

/-- So does closing them all. -/
theorem closeAll_same (s : Fin 3) (ps : Procs) :
    ∃ pcb, SameButFds (ps.running s) pcb ∧ closeAll s ps = ps.setPcb (ps.runningPid s) pcb := by
  unfold closeAll
  generalize List.range numFds.toNat = fds
  induction fds generalizing ps with
  | nil => exact ⟨ps.running s, SameButFds.refl _, (setPcb_self ps _).symm⟩
  | cons fd fds ih =>
    obtain ⟨pcb, hsame, hclose⟩ := sysClose_same s fd ps
    obtain ⟨pcb', hsame', hrest⟩ := ih (sysClose s fd ps).1
    rw [hclose, setPcb_running] at hsame'
    refine ⟨pcb', hsame.trans hsame', ?_⟩
    show List.foldl _ (sysClose s fd ps).1 fds = _
    rw [hrest, hclose]
    exact congrArg (fun pcbs => { ps with pcbs := pcbs })
      (Function.update_idem pcb pcb' ps.pcbs)

/-- **What `halt` does to the process table** from the closing of the descriptors on: it loads the
    context that the PCB of `pid` names, and apart from descriptors leaves the PCBs alone. -/
theorem haltTail_eq (s : Fin 3) (pid : Nat) (ps : Procs) :
    ∃ pcbs : Nat → Pcb, (∀ p, SameButFds (ps.pcbs p) (pcbs p)) ∧
      haltTail s pid ps =
        { ps with
          pcbs := pcbs
          pageDirectory32 := userFrame (ps.pcbs pid).parentPid
          tssSs0 := (ps.pcbs pid).prevTssSS
          tssEsp0 := (ps.pcbs pid).prevTssESP0
          activePid := Function.update ps.activePid s (ps.pcbs pid).parentPid } := by
  obtain ⟨pcb, hsame, hclose⟩ := closeAll_same s ps
  have hpcbs : ∀ p, SameButFds (ps.pcbs p) ((closeAll s ps).pcbs p) := by
    intro p
    rw [hclose]
    show SameButFds _ (Function.update ps.pcbs (ps.runningPid s) pcb p)
    by_cases hp : p = ps.runningPid s
    · rw [hp, Function.update_self]
      exact hsame
    · rw [Function.update_of_ne hp]
      exact SameButFds.refl _
  refine ⟨(closeAll s ps).pcbs, hpcbs, ?_⟩
  obtain ⟨arr, num, hpid⟩ := hpcbs pid
  simp only [haltTail, activateParent, restoreTss, mapParent, hpid]
  rw [hclose]
  rfl

/-! ## `halt` -/

/-- What became of a call of `halt`. -/
inductive HaltResult
  /-- The last base process of the terminal: `halt` has executed the shell again, as this process,
      and is waiting for it in the middle of its body. -/
  | restarted (pid : Nat)
  /-- It made the `execute` call that this PCB names return `retVal`. -/
  | returned (pid : Nat) (retVal : Int)
  deriving DecidableEq

/-- `halt` from the closing of the descriptors to the jump. -/
def haltReturn (pid : Nat) (retVal : Int) (k : Kernel) : Kernel × HaltResult :=
  (sti { k with procs := haltTail k.schedTerm pid k.procs }, .returned pid retVal)

/-- `halt`.  A base process executes the shell in its place; only when that fails does it go on
    like any other. -/
def halt (disk : Disk) (fr : Frame) (status : UInt8) (k : Kernel) : Kernel × HaltResult :=
  let k := cli k
  let retVal := haltRetVal status
  let pid := k.procs.activePid k.schedTerm
  let k := { k with procs := freePid pid k.procs }
  if (k.procs.pcbs pid).pid = k.procs.basePid k.schedTerm then
    match executeShell disk .halt fr (.halt pid retVal) k with
    | (k, .entered newPid _) => (k, .restarted newPid)
    | (k, _) => haltReturn pid retVal k
  else haltReturn pid retVal k

/-- `halt`, with the pid and the processes behind its first statements named. -/
theorem halt_eq (disk : Disk) (fr : Frame) (status : UInt8) (k : Kernel) (pid : Nat) (freed : Procs)
    (hpid : pid = k.procs.activePid k.schedTerm) (hfreed : freed = freePid pid k.procs) :
    halt disk fr status k =
      if (k.procs.pcbs pid).pid = k.procs.basePid k.schedTerm then
        match executeShell disk .halt fr (.halt pid (haltRetVal status)) { cli k with procs := freed } with
        | (k, .entered newPid _) => (k, .restarted newPid)
        | (k, _) => haltReturn pid (haltRetVal status) k
      else haltReturn pid (haltRetVal status) { cli k with procs := freed } := by
  subst hpid hfreed
  rfl

/-! ## Live processes -/

/-- `pid` is a pid and marked as used. -/
def Procs.live (ps : Procs) (pid : Nat) : Prop :=
  1 ≤ pid ∧ pid ≤ maxPcbs ∧ ps.slotUsed (pid - 1) = true

section Live

variable {ps ps' : Procs}

theorem live_of_claim {i : Nat} (hi : i < maxPcbs) (hpids : ps'.pidArr = Function.update ps.pidArr i 1)
    (p : Nat) : ps'.live p ↔ ps.live p ∨ p = i + 1 := by
  simp only [Procs.live, Procs.slotUsed, hpids, maxPcbs] at *
  by_cases hp : p - 1 = i
  · rw [hp, Function.update_self]
    simp
    omega
  · rw [Function.update_of_ne hp]
    constructor
    · exact Or.inl
    · rintro (h | h)
      · exact h
      · omega

theorem live_freePid {pid : Nat} (hpid : 1 ≤ pid) (p : Nat) :
    (freePid pid ps).live p ↔ ps.live p ∧ p ≠ pid := by
  simp only [Procs.live, Procs.slotUsed, freePid]
  by_cases hp : p - 1 = pid - 1
  · rw [hp, Function.update_self]
    simp
    omega
  · rw [Function.update_of_ne hp]
    constructor
    · exact fun h => ⟨h, by omega⟩
    · exact And.left

/-- A free slot below six stands for a pid that is not live. -/
theorem not_live_of_free {i : Nat} (h : ps.slotUsed i = false) : ¬ ps.live (i + 1) := by
  intro hlive
  have hused := hlive.2.2
  rw [Nat.add_sub_cancel, h] at hused
  cases hused

/-- The fields of the table after a process has been started in slot `i` of the table `ps`. -/
theorem startProcess_pcbs_of_ne {s : Fin 3} {fr : Frame} {site : RetSite} {args : List UInt8}
    {i p : Nat} (hp : p ≠ i + 1) :
    (startProcess s fr site args i ps).pcbs p = ps.pcbs p := by
  rw [startProcess_eq]
  exact Function.update_of_ne hp _ _

theorem startProcess_pcbs_self (s : Fin 3) (fr : Frame) (site : RetSite) (args : List UInt8)
    (i : Nat) (ps : Procs) :
    (startProcess s fr site args i ps).pcbs (i + 1) = newPcb s fr site args (i + 1) ps := by
  rw [startProcess_eq]
  exact Function.update_self _ _ _

theorem live_startProcess {s : Fin 3} {fr : Frame} {site : RetSite} {args : List UInt8} {i : Nat}
    (hi : i < maxPcbs) (p : Nat) :
    (startProcess s fr site args i ps).live p ↔ ps.live p ∨ p = i + 1 :=
  live_of_claim hi (by rw [startProcess_eq]) p

theorem freed_slot_self (pid : Nat) (ps : Procs) :
    (freePid pid ps).slotUsed (pid - 1) = false := by
  show (Function.update ps.pidArr (pid - 1) 0 (pid - 1) != 0) = false
  rw [Function.update_self]
  rfl

/-- The other slots are as they were. -/
theorem freed_slot_of_ne {pid i : Nat} (hi : i ≠ pid - 1) :
    (freePid pid ps).slotUsed i = ps.slotUsed i := by
  show (Function.update ps.pidArr (pid - 1) 0 i != 0) = _
  rw [Function.update_of_ne hi]
  rfl

theorem haltTail_origin (s : Fin 3) (pid : Nat) (ps : Procs) (p : Nat) :
    ((haltTail s pid ps).pcbs p).origin = (ps.pcbs p).origin := by
  obtain ⟨pcbs, hpcbs, htail⟩ := haltTail_eq s pid ps
  rw [htail]
  exact (hpcbs p).origin_eq

end Live

/-! ## `getargs` -/

/-- The pid whose PCB `getargs` looks at: the index of the first free slot, 6 when there is none. -/
def getargsPid (ps : Procs) : Nat := (firstFree ps.slotUsed 0 maxPcbs).getD maxPcbs

/-- `getargs`: the return value and the bytes stored in `buf`. -/
def getargs (nullBuf : Bool) (ps : Procs) : Int × List UInt8 :=
  if nullBuf then (-1, [])
  else
    let pcb := ps.pcbs (getargsPid ps)
    if byteAt pcb.args 0 = 0 then (-1, [])
    else (0, pcb.args)

end ByteVerse
