/-
  The machine as a step relation: the processes on the three terminals execute programs and halt,
  and the timer preempts them, each call and each tick taken as atomic.

  Control flow is not in the kernel's data, so the state carries it: `ctl t` says where the flow of
  terminal `t` stands when it runs.  Normally its active process runs its program.  When `halt`
  makes the `execute` call of an older `halt` return (`RetSite.halt`), the flow is back in the
  middle of that `halt`.  It is `lost` when what runs is not the active process any more: after a
  return to `entry` or to a `scheduler` call of long ago, to a kernel stack that another process
  has taken over, out of an older `halt`, or when a terminal's first shell could not be started.

  The state also records the births of processes: for each pid, which process executed it, and the
  argument string it was executed with.  Nothing in the kernel reads that record.

  `step_cases` says once what an event does to the process table; the invariants of the process
  table, of the memory context and of the arguments are proved from it.
-/
import ByteVerse.Terminal
import ByteVerse.Run

set_option linter.unusedVariables false

namespace ByteVerse

open SlotTable

/-! ## State and events -/

/-- Where the control flow of a terminal stands. -/
inductive Ctl
  | running
  | halting (currentPcb : Nat) (retVal : Int)
  | lost
  deriving DecidableEq

/-- How the process with a pid came about: the pid and the serial number of the process that
    executed it, its own serial number, and its argument string. -/
structure Birth where
  parent : Nat
  parentSerial : Nat
  serial : Nat
  args : List UInt8

structure Machine where
  kernel : Kernel
  ctl : Fin 3 → Ctl
  births : Nat → Birth
  /-- The number of processes executed so far. -/
  executed : Nat

def Machine.procs (m : Machine) : Procs := m.kernel.procs

/-- The scheduled terminal. -/
def Machine.term (m : Machine) : Fin 3 := m.kernel.schedTerm

/-- The process of the scheduled terminal. -/
def Machine.active (m : Machine) : Nat := m.procs.activePid m.term

/-- The record after process `parent` has executed `pid`. -/
def Machine.bear (m : Machine) (pid parent : Nat) (args : List UInt8) : Nat → Birth :=
  Function.update m.births pid
    { parent := parent, parentSerial := (m.births parent).serial, serial := m.executed + 1
      args := args }

inductive Event
  /-- The running process calls `execute`. -/
  | execute (command : Option (List UInt8)) (fr : Frame)
  /-- The running process calls `halt`; `fr` is for the shell it may execute. -/
  | halt (status : UInt8) (fr : Frame)
  /-- A `halt` whose own `execute` call has returned goes on to its end. -/
  | resumeHalt
  /-- A timer interrupt. -/
  | tick (esp ebp : Nat) (fr : Frame)

/-! ## The step function -/

/-- Where the flow goes when the `execute` call that the PCB of `pid` names returns. -/
def landing (ps : Procs) (pid : Nat) : Ctl :=
  match (ps.pcbs pid).retSite with
  -- a process with the pid of the base shell is its own parent, whoever executed it
  | .syscall => if (ps.pcbs pid).parentPid = pid then .lost else .running
  | .halt currentPcb retVal =>
    -- that `halt` is on the stack of a dead process: it is still there if the pid was not reused
    if ps.slotUsed (currentPcb - 1) then .lost else .halting currentPcb retVal
  | .entry => .lost
  | .scheduler => .lost

theorem landing_of_syscall {ps : Procs} {pid : Nat} (h : (ps.pcbs pid).retSite = .syscall)
    (hparent : (ps.pcbs pid).parentPid ≠ pid) : landing ps pid = .running := by
  unfold landing
  rw [h]
  exact if_neg hparent

/-- The scheduled terminal's control flow after a call. -/
def Machine.goTo (m : Machine) (k : Kernel) (ctl : Ctl) : Machine :=
  { m with kernel := k, ctl := Function.update m.ctl k.schedTerm ctl }

/-- The arguments of a shell that the kernel executes. -/
def shellArgs (disk : Disk) (caller : ShellCaller) : List UInt8 :=
  commandArgs (shellCommand disk caller)

/-- One event.  Nothing happens on a terminal whose control flow is lost. -/
def step (disk : Disk) (m : Machine) : Event → Option Machine
  | .execute command fr =>
    if m.ctl m.term = .running then
      match execute disk.img fr .syscall command m.kernel with
      | (k, .entered pid _) =>
        some { m with
          kernel := k
          births := m.bear pid m.active (commandArgs (command.getD []))
          executed := m.executed + 1 }
      -- it returns to its caller, with or without a pid claimed
      | (k, _) => some { m with kernel := k }
    else none
  | .halt status fr =>
    if m.ctl m.term = .running then
      match halt disk fr status m.kernel with
      | (k, .restarted pid) =>
        some { m with
          kernel := k
          births := m.bear pid m.active (shellArgs disk .halt)
          executed := m.executed + 1 }
      | (k, .returned pid _) => some (m.goTo k (landing k.procs pid))
    else none
  | .resumeHalt =>
    match m.ctl m.term with
    | .halting currentPcb retVal =>
      some (m.goTo (haltReturn currentPcb retVal m.kernel).1 .lost)
    | _ => none
  | .tick esp ebp fr =>
    if m.ctl m.term = .lost then none
    else
      match scheduler disk esp ebp fr m.kernel with
      | (k, .switched) => some { m with kernel := k }
      | (k, .started (.entered pid _)) =>
        some { m with
          kernel := k
          births := m.bear pid pid (shellArgs disk .scheduler)
          executed := m.executed + 1 }
      | (k, .started _) => some (m.goTo k .lost)

/-- The machine in which `entry` has just executed the first shell. -/
def bootMachine (disk : Disk) (pw : PowerOn) (fr : Frame) : Machine where
  kernel := (boot disk pw fr).1
  ctl := fun _ => .running
  -- a pid that no process has had yet is recorded with what its PCB happens to contain
  births := Function.update
    (fun pid => { parent := 0, parentSerial := 0, serial := 0, args := (pw.pcbs pid).args }) 1
    { parent := 1, parentSerial := 0, serial := 1, args := shellArgs disk .entry }
  executed := 1

/-! ## What `execute` and `halt` can do -/

/-- The file system has an executable shell: `execute("shell")` passes every check and loads. -/
def ShellLoads (disk : Disk) : Prop :=
  ∀ caller fr, ∃ prog, checkProgram disk.img fr (some (shellCommand disk caller)) = .ok prog ∧
    loads disk.img prog = true

theorem smallDisk_shellLoads : ShellLoads smallDisk := by
  intro caller fr
  have hlooked : lookedUp fr shellLine = (getCommand shellLine).1 :=
    if_pos (show ArgumentsFit shellLine by decide)
  have hcheck : ∃ prog, checkProgram smallImage fr (some shellLine) = .ok prog ∧ prog.inode = 1 := by
    unfold checkProgram
    simp only [hlooked]
    exact ⟨_, rfl, rfl⟩
  obtain ⟨prog, hprog, hinode⟩ := hcheck
  refine ⟨prog, hprog, ?_⟩
  show ((readData smallImage prog.inode 0 alot).1 != -1) = true
  rw [hinode]
  decide +kernel

/-- A program passes the checks with a command, and gets that command's arguments. -/
theorem checkProgram_ok {img : Image} {fr : Frame} {command : Option (List UInt8)}
    {prog : Program} (h : checkProgram img fr command = .ok prog) :
    ∃ c, command = some c ∧ prog.args = commandArgs c := by
  unfold checkProgram at h
  split at h
  · cases h
  · rename_i c
    refine ⟨c, rfl, ?_⟩
    split at h
    · cases h
    · simp only at h
      split at h
      · cases h
      split at h
      · cases h
      split at h
      · cases h
      · cases h
        rfl

/-- The kernel in which `execute` has started a process in slot `i` for the scheduled terminal. -/
def enterProgram (fr : Frame) (site : RetSite) (args : List UInt8) (i : Nat) (k : Kernel) : Kernel :=
  { k with interruptFlag := true, procs := startProcess k.schedTerm fr site args i k.procs }

/-- The command leads `execute` to a file that passes its checks and cannot be loaded. -/
def loadFails (img : Image) (fr : Frame) (command : Option (List UInt8)) : Bool :=
  match checkProgram img fr command with
  | .error _ => false
  | .ok prog => !loads img prog

/-- **`execute` by cases**: refused with the process table unchanged, failed in loading with the
    lowest free slot claimed, or a new process in it. -/
theorem execute_cases (img : Image) (fr : Frame) (site : RetSite) (command : Option (List UInt8))
    (k : Kernel) :
    (∃ k' retVal, execute img fr site command k = (k', .refused retVal) ∧ k'.procs = k.procs ∧
      k'.schedTerm = k.schedTerm) ∨
    (∃ k' i, execute img fr site command k = (k', .loadFailed) ∧ loadFails img fr command = true ∧
      firstFree k.procs.slotUsed 0 maxPcbs = some i ∧
      k'.procs = mapProgram (i + 1) (claimPid i k.procs) ∧ k'.schedTerm = k.schedTerm) ∨
    ∃ c i eip, command = some c ∧ firstFree k.procs.slotUsed 0 maxPcbs = some i ∧
      execute img fr site command k =
        (enterProgram fr site (commandArgs c) i k, .entered (i + 1) eip) := by
  unfold execute
  rcases hcheck : checkProgram img fr command with reenable | prog
  · refine Or.inl ⟨_, _, rfl, ?_, ?_⟩ <;> cases reenable <;> rfl
  · simp only
    rcases hfree : firstFree (cli k).procs.slotUsed 0 maxPcbs with _ | i
    · exact Or.inl ⟨_, _, rfl, rfl, rfl⟩
    · simp only
      split
      · obtain ⟨c, hc, hargs⟩ := checkProgram_ok hcheck
        refine Or.inr (Or.inr ⟨c, i, prog.progEip, hc, hfree, ?_⟩)
        rw [← hargs]
        rfl
      · rename_i hloads
        have hfails : loadFails img fr command = true := by
          unfold loadFails
          rw [hcheck]
          simpa using hloads
        exact Or.inr (Or.inl ⟨_, i, rfl, hfails, hfree, rfl, rfl⟩)

/-- With a good disk the kernel's own `execute` of a shell succeeds when there is a free pid, and is
    refused otherwise. -/
theorem executeShell_cases {disk : Disk} (hshell : ShellLoads disk) (caller : ShellCaller) (fr : Frame)
    (site : RetSite) (k : Kernel) :
    (∃ i eip, firstFree k.procs.slotUsed 0 maxPcbs = some i ∧
      executeShell disk caller fr site k =
        (enterProgram fr site (shellArgs disk caller) i k, .entered (i + 1) eip)) ∨
    (firstFree k.procs.slotUsed 0 maxPcbs = none ∧
      ∃ k', executeShell disk caller fr site k = (k', .refused 256) ∧ k'.procs = k.procs ∧
        k'.schedTerm = k.schedTerm) := by
  obtain ⟨prog, hcheck, hloads⟩ := hshell caller fr
  obtain ⟨c, hc, hargs⟩ := checkProgram_ok hcheck
  obtain rfl := Option.some.inj hc
  unfold executeShell execute shellArgs
  rw [hcheck, ← hargs]
  simp only
  rcases hfree : firstFree (cli k).procs.slotUsed 0 maxPcbs with _ | i
  · exact Or.inr ⟨hfree, _, rfl, rfl, rfl⟩
  · refine Or.inl ⟨i, prog.progEip, hfree, ?_⟩
    simp only [hloads, if_true]
    rfl

/-- The end of `halt`: what it returns, and what it does to the process table. -/
theorem haltReturn_kernel (pid : Nat) (retVal : Int) (k : Kernel) :
    ∃ k', haltReturn pid retVal k = (k', .returned pid retVal) ∧
      k'.procs = haltTail k.schedTerm pid k.procs ∧ k'.schedTerm = k.schedTerm := by
  unfold haltReturn
  generalize haltTail k.schedTerm pid k.procs = ps
  exact ⟨_, rfl, rfl, rfl⟩

/-- `halt` by cases: a base process whose shell is executed again, or the end of `halt`. -/
theorem halt_cases {disk : Disk} (hshell : ShellLoads disk) (fr : Frame) (status : UInt8)
    (k : Kernel) :
    let s := k.schedTerm
    let pid := k.procs.activePid s
    let freed := freePid pid k.procs
    ((k.procs.pcbs pid).pid = k.procs.basePid s ∧
      ∃ i, firstFree freed.slotUsed 0 maxPcbs = some i ∧
        halt disk fr status k =
          (enterProgram fr (.halt pid (haltRetVal status)) (shellArgs disk .halt) i
            { cli k with procs := freed }, .restarted (i + 1))) ∨
    (((k.procs.pcbs pid).pid = k.procs.basePid s →
        firstFree freed.slotUsed 0 maxPcbs = none) ∧
      ∃ k', halt disk fr status k = (k', .returned pid (haltRetVal status)) ∧
        k'.procs = haltTail s pid freed ∧ k'.schedTerm = s) := by
  intro s pid freed
  have hhalt := halt_eq disk fr status k pid freed rfl rfl
  by_cases hbase : (k.procs.pcbs pid).pid = k.procs.basePid s
  · rw [if_pos hbase] at hhalt
    rcases executeShell_cases hshell .halt fr (.halt pid (haltRetVal status))
      { cli k with procs := freed } with ⟨i, eip, hi, heq⟩ | ⟨hnone, k', heq, hprocs, hterm⟩
    · rw [heq] at hhalt
      exact Or.inl ⟨hbase, i, hi, hhalt⟩
    · rw [heq] at hhalt
      obtain ⟨k'', hend, hprocs', hterm'⟩ := haltReturn_kernel pid (haltRetVal status) k'
      refine Or.inr ⟨fun _ => hnone, k'', hhalt.trans hend, ?_, hterm'.trans hterm⟩
      rw [hprocs', hprocs, hterm]
      rfl
  · rw [if_neg hbase] at hhalt
    obtain ⟨k', hend, hprocs, hterm⟩ :=
      haltReturn_kernel pid (haltRetVal status) { cli k with procs := freed }
    exact Or.inr ⟨fun h => absurd h hbase, k', hhalt.trans hend, hprocs, hterm⟩

/-- `scheduler` by cases: a context switch, or a terminal that is started, or one that cannot be. -/
theorem scheduler_cases {disk : Disk} (hshell : ShellLoads disk) (esp ebp : Nat) (fr : Frame)
    (k : Kernel) :
    let s := nextTerm k.schedTerm
    let opened := savePreempted k.schedTerm esp ebp (openTerminal s k.procs)
    (k.procs.status s ≠ 0 ∧ ∃ k', scheduler disk esp ebp fr k = (k', .switched) ∧
      k'.procs = switchContext k.schedTerm s esp ebp k.procs ∧ k'.schedTerm = s) ∨
    (k.procs.status s = 0 ∧ ∃ i eip k', firstFree k.procs.slotUsed 0 maxPcbs = some i ∧
      scheduler disk esp ebp fr k = (k', .started (.entered (i + 1) eip)) ∧
      k'.procs = startProcess s fr .scheduler (shellArgs disk .scheduler) i opened ∧ k'.schedTerm = s) ∨
    (k.procs.status s = 0 ∧ firstFree k.procs.slotUsed 0 maxPcbs = none ∧
      ∃ k', scheduler disk esp ebp fr k = (k', .started (.refused 256)) ∧
        k'.procs = opened ∧ k'.schedTerm = s) := by
  intro s opened
  by_cases hstatus : k.procs.status s = 0
  · right
    -- the kernel in which the shell is executed
    obtain ⟨k₁, hterm₁, hprocs₁, hsched⟩ : ∃ k₁ : Kernel, k₁.schedTerm = s ∧ k₁.procs = opened ∧
        scheduler disk esp ebp fr k = ((executeShell disk .scheduler fr .scheduler k₁).1,
          .started (executeShell disk .scheduler fr .scheduler k₁).2) :=
      ⟨_, rfl, rfl, if_pos hstatus⟩
    rcases executeShell_cases hshell .scheduler fr .scheduler k₁ with
      ⟨i, eip, hi, heq⟩ | ⟨hnone, k', heq, hprocs, hterm⟩
    · rw [heq] at hsched
      rw [hprocs₁] at hi
      refine Or.inl ⟨hstatus, i, eip, _, hi, hsched, ?_, hterm₁⟩
      show startProcess k₁.schedTerm fr .scheduler (shellArgs disk .scheduler) i k₁.procs = _
      rw [hterm₁, hprocs₁]
    · rw [heq] at hsched
      rw [hprocs₁] at hnone
      exact Or.inr ⟨hstatus, hnone, k', hsched, hprocs.trans hprocs₁, hterm.trans hterm₁⟩
  · exact Or.inl ⟨hstatus, _, if_neg hstatus, rfl, rfl⟩

/-! ## What an event does to the process table -/

/-- The process table and control flow of `m'` after an event of `m`, by cases.  In each of them
    `s` is the scheduled terminal and `p` its active process before the event. -/
inductive TableStep (disk : Disk) (m m' : Machine) : Event → Prop
  /-- `execute` is refused. -/
  | refused (command : Option (List UInt8)) (fr : Frame)
      (hterm : m'.term = m.term) (hprocs : m'.procs = m.procs) (hctl : m'.ctl = m.ctl)
      (hbirths : m'.births = m.births) :
      TableStep disk m m' (.execute command fr)
  /-- `execute` claims the lowest free slot and fails to load the program. -/
  | loadFailed (command : Option (List UInt8)) (fr : Frame) (i : Nat)
      (hfails : loadFails disk.img fr command = true)
      (hi : firstFree m.procs.slotUsed 0 maxPcbs = some i)
      (hterm : m'.term = m.term) (hprocs : m'.procs = mapProgram (i + 1) (claimPid i m.procs))
      (hctl : m'.ctl = m.ctl) (hbirths : m'.births = m.births) :
      TableStep disk m m' (.execute command fr)
  /-- `execute` starts a child in the lowest free slot. -/
  | entered (command : List UInt8) (fr : Frame) (i : Nat)
      (hrunning : m.ctl m.term = .running)
      (hi : firstFree m.procs.slotUsed 0 maxPcbs = some i)
      (hterm : m'.term = m.term)
      (hprocs : m'.procs =
        startProcess m.term fr .syscall (commandArgs command) i m.procs)
      (hctl : m'.ctl = m.ctl)
      (hbirths : m'.births = m.bear (i + 1) m.active (commandArgs command)) :
      TableStep disk m m' (.execute (some command) fr)
  /-- A base process halts, and the shell is executed again in the lowest free slot. -/
  | restarted (status : UInt8) (fr : Frame) (i : Nat)
      (hrunning : m.ctl m.term = .running)
      (hbase : (m.procs.pcbs m.active).pid = m.procs.basePid m.term)
      (hi : firstFree (freePid m.active m.procs).slotUsed 0 maxPcbs = some i)
      (hterm : m'.term = m.term)
      (hprocs : m'.procs = startProcess m.term fr (.halt m.active (haltRetVal status))
        (shellArgs disk .halt) i (freePid m.active m.procs))
      (hctl : m'.ctl = m.ctl)
      (hbirths : m'.births = m.bear (i + 1) m.active (shellArgs disk .halt)) :
      TableStep disk m m' (.halt status fr)
  /-- A process halts and its `execute` call returns. -/
  | returned (status : UInt8) (fr : Frame)
      (hrunning : m.ctl m.term = .running)
      (hbase : (m.procs.pcbs m.active).pid = m.procs.basePid m.term →
        firstFree (freePid m.active m.procs).slotUsed 0 maxPcbs = none)
      (hterm : m'.term = m.term)
      (hprocs : m'.procs = haltTail m.term m.active (freePid m.active m.procs))
      (hctl : m'.ctl = Function.update m.ctl m.term (landing m'.procs m.active))
      (hbirths : m'.births = m.births) :
      TableStep disk m m' (.halt status fr)
  /-- An older `halt` goes on. -/
  | resumed (currentPcb : Nat) (retVal : Int)
      (hhalting : m.ctl m.term = .halting currentPcb retVal)
      (hterm : m'.term = m.term)
      (hprocs : m'.procs = haltTail m.term currentPcb m.procs)
      (hctl : m'.ctl = Function.update m.ctl m.term .lost)
      (hbirths : m'.births = m.births) :
      TableStep disk m m' .resumeHalt
  /-- A tick switches to the next terminal. -/
  | switched (esp ebp : Nat) (fr : Frame)
      (hstatus : m.procs.status (nextTerm m.term) ≠ 0)
      (hterm : m'.term = nextTerm m.term)
      (hprocs : m'.procs = switchContext m.term (nextTerm m.term) esp ebp m.procs)
      (hctl : m'.ctl = m.ctl) (hbirths : m'.births = m.births) :
      TableStep disk m m' (.tick esp ebp fr)
  /-- A tick starts the next terminal. -/
  | started (esp ebp : Nat) (fr : Frame) (i : Nat)
      (hstatus : m.procs.status (nextTerm m.term) = 0)
      (hi : firstFree m.procs.slotUsed 0 maxPcbs = some i)
      (hterm : m'.term = nextTerm m.term)
      (hprocs : m'.procs = startProcess (nextTerm m.term) fr .scheduler (shellArgs disk .scheduler) i
        (savePreempted m.term esp ebp (openTerminal (nextTerm m.term) m.procs)))
      (hctl : m'.ctl = m.ctl)
      (hbirths : m'.births = m.bear (i + 1) (i + 1) (shellArgs disk .scheduler)) :
      TableStep disk m m' (.tick esp ebp fr)
  /-- A tick cannot start the next terminal, there being no free pid. -/
  | notStarted (esp ebp : Nat) (fr : Frame)
      (hstatus : m.procs.status (nextTerm m.term) = 0)
      (hnone : firstFree m.procs.slotUsed 0 maxPcbs = none)
      (hterm : m'.term = nextTerm m.term)
      (hprocs : m'.procs =
        savePreempted m.term esp ebp (openTerminal (nextTerm m.term) m.procs))
      (hctl : m'.ctl = Function.update m.ctl (nextTerm m.term) .lost)
      (hbirths : m'.births = m.births) :
      TableStep disk m m' (.tick esp ebp fr)

/-- **The inversion lemma**: an event does one of nine things to the process table. -/
theorem step_cases {disk : Disk} (hshell : ShellLoads disk) {m m' : Machine} {e : Event}
    (h : step disk m e = some m') : TableStep disk m m' e := by
  cases e with
  | execute command fr =>
    simp only [step] at h
    split at h
    · rename_i hrunning
      rcases execute_cases disk.img fr .syscall command m.kernel with
        ⟨k', retVal, heq, hprocs, hterm⟩ | ⟨k', i, heq, hfails, hi, hprocs, hterm⟩ |
        ⟨c, i, eip, rfl, hi, heq⟩
      · rw [heq] at h
        cases h
        exact .refused command fr hterm hprocs rfl rfl
      · rw [heq] at h
        cases h
        exact .loadFailed command fr i hfails hi hterm hprocs rfl rfl
      · rw [heq] at h
        cases h
        exact .entered c fr i hrunning hi rfl rfl rfl rfl
    · cases h
  | halt status fr =>
    simp only [step] at h
    split at h
    · rename_i hrunning
      rcases halt_cases hshell fr status m.kernel with
        ⟨hbase, i, hi, heq⟩ | ⟨hbase, k', heq, hprocs, hterm⟩
      · rw [heq] at h
        cases h
        exact .restarted status fr i hrunning hbase hi rfl rfl rfl rfl
      · rw [heq] at h
        cases h
        refine .returned status fr hrunning hbase hterm hprocs ?_ rfl
        show Function.update m.ctl k'.schedTerm _ = _
        rw [hterm]
        rfl
    · cases h
  | resumeHalt =>
    simp only [step] at h
    split at h
    · rename_i currentPcb retVal hhalting
      obtain ⟨k', hend, hprocs, hterm⟩ := haltReturn_kernel currentPcb retVal m.kernel
      rw [hend] at h
      cases h
      refine .resumed currentPcb retVal hhalting hterm hprocs ?_ rfl
      show Function.update m.ctl k'.schedTerm _ = _
      rw [hterm]
      rfl
    · cases h
  | tick esp ebp fr =>
    simp only [step] at h
    split at h
    · cases h
    · rcases scheduler_cases hshell esp ebp fr m.kernel with
        ⟨hstatus, k', heq, hprocs, hterm⟩ | ⟨hstatus, i, eip, k', hi, heq, hprocs, hterm⟩ |
        ⟨hstatus, hnone, k', heq, hprocs, hterm⟩
      · rw [heq] at h
        cases h
        exact .switched esp ebp fr hstatus hterm hprocs rfl rfl
      · rw [heq] at h
        cases h
        exact .started esp ebp fr i hstatus hi hterm hprocs rfl rfl
      · rw [heq] at h
        cases h
        refine .notStarted esp ebp fr hstatus hnone hterm hprocs ?_ rfl
        show Function.update m.ctl k'.schedTerm _ = _
        rw [hterm]
        rfl

/-- No `execute` fails to load its program behind the claim of a pid: either the command does not lead
    to such a file, or all pids are taken. -/
def noFailedLoad (disk : Disk) (m : Machine) : Event → Prop
  | .execute command fr =>
    loadFails disk.img fr command = true → ∀ i, i < maxPcbs → m.procs.slotUsed i = true
  | _ => True

instance (disk : Disk) (m : Machine) : ∀ e, Decidable (noFailedLoad disk m e)
  | .execute _ _ => inferInstanceAs (Decidable (_ → ∀ i, i < _ → _))
  | .halt _ _ => inferInstanceAs (Decidable True)
  | .resumeHalt => inferInstanceAs (Decidable True)
  | .tick _ _ _ => inferInstanceAs (Decidable True)

theorem not_noFailedLoad {disk : Disk} {m : Machine} {command : Option (List UInt8)} {fr : Frame}
    {i : Nat} (hfails : loadFails disk.img fr command = true)
    (hi : firstFree m.procs.slotUsed 0 maxPcbs = some i) :
    ¬ noFailedLoad disk m (.execute command fr) := by
  intro h
  obtain ⟨-, hi6, hfree, -⟩ := firstFree_eq_some_iff.mp hi
  rw [h hfails i hi6] at hfree
  cases hfree

/-- A failed load does nothing else to the process table than claim a pid and map its page. -/
theorem step_failedLoad {disk : Disk} {m m' : Machine} {command : Option (List UInt8)} {fr : Frame}
    (hbad : ¬ noFailedLoad disk m (.execute command fr))
    (hstep : step disk m (.execute command fr) = some m') :
    ∃ i, firstFree m.procs.slotUsed 0 maxPcbs = some i ∧
      m'.procs = mapProgram (i + 1) (claimPid i m.procs) := by
  simp only [noFailedLoad, not_forall, Bool.not_eq_true] at hbad
  obtain ⟨hfails, j, hj, hfree⟩ := hbad
  unfold loadFails at hfails
  split at hfails
  · cases hfails
  rename_i prog hcheck
  have hload : loads disk.img prog = false := by simpa using hfails
  rcases hi : firstFree m.procs.slotUsed 0 maxPcbs with _ | i
  · rw [firstFree_eq_none_iff.mp hi j (Nat.zero_le j) hj] at hfree
    cases hfree
  have hi' : firstFree (cli m.kernel).procs.slotUsed 0 maxPcbs = some i := hi
  refine ⟨i, rfl, ?_⟩
  simp only [step, execute, hcheck, hi', hload, Bool.false_eq_true, if_false] at hstep
  split at hstep
  · rw [← Option.some.inj hstep]
    rfl
  · cases hstep

/-- Boot starts the first shell in the first slot. -/
theorem boot_kernel {disk : Disk} (hshell : ShellLoads disk) (pw : PowerOn) (fr : Frame) :
    (boot disk pw fr).1 = enterProgram fr .entry (shellArgs disk .entry) 0 (initialKernel pw) := by
  have hfirst : firstFree (initialKernel pw).procs.slotUsed 0 maxPcbs = some 0 := rfl
  rcases executeShell_cases hshell .entry fr .entry (initialKernel pw) with
    ⟨i, eip, hi, heq⟩ | ⟨hnone, -⟩
  · obtain rfl : i = 0 := Option.some.inj (hi.symm.trans hfirst)
    exact congrArg Prod.fst heq
  · rw [hfirst] at hnone
    cases hnone

/-- At boot the first shell is process 1, on terminal 0. -/
theorem bootMachine_procs {disk : Disk} (hshell : ShellLoads disk) (pw : PowerOn) (fr : Frame) :
    (bootMachine disk pw fr).procs = startProcess 0 fr .entry (shellArgs disk .entry) 0 (initialProcs pw) ∧
      (bootMachine disk pw fr).term = 0 := by
  have hboot := boot_kernel hshell pw fr
  exact ⟨congrArg Kernel.procs hboot, congrArg Kernel.schedTerm hboot⟩

/-- The pids of the three terminals at boot. -/
theorem mem_boot_pids {t : Fin 3} {p : Nat} (hp : p ∈ (if t = 0 then [1] else [] : List Nat)) :
    t = 0 ∧ p = 1 := by
  by_cases ht : t = 0
  · rw [if_pos ht] at hp
    exact ⟨ht, List.mem_singleton.mp hp⟩
  · rw [if_neg ht] at hp
    cases hp

end ByteVerse
