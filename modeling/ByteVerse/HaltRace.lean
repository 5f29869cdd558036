/-
  `halt` and `execute` statement by statement, on three terminals, with a tick wherever interrupts
  are enabled.

  Both calls disable interrupts at once.  `execute` enables them again when it has nothing left to do
  but to enter the program.  `halt` frees its pid first of all, and enables interrupts before its
  last statement, the jump, which reads `ESP_prev` and `EBP_prev` from the PCB of that pid.  A tick
  between the two lets another terminal have the pid, its PCB and its kernel stack.  A base shell's
  `halt` executes the shell again and waits in the middle of its body: its pid is free meanwhile
  unless the shell has got the same one.

  Without interruption the statements are `execute` and `halt` (`execute_uninterrupted`,
  `halt_uninterrupted`).  `HaltSafe` is what a halt needs; `sparesHalts` excludes a tick in that
  window, and the restart of a base shell under another pid.
-/
import ByteVerse.Machine

set_option linter.unusedVariables false

namespace ByteVerse

open SlotTable Run

/-! ## The statements of the two calls -/

/-- A call of `execute` that has claimed a pid. -/
structure ExecCall where
  pid : Nat
  site : RetSite
  fr : Frame
  prog : Program

/-- The statements of `execute` after the claim. -/
inductive ExecStmt
  | mapPage | loadFile | buildPcb | saveFrame | switchTss | enableInterrupts | iret
  deriving DecidableEq

def execBody : List ExecStmt :=
  [.mapPage, .loadFile, .buildPcb, .saveFrame, .switchTss, .enableInterrupts, .iret]

/-- A call of `halt`: the pid it has found active (`current_pcb` is that process's PCB), its
    `ret_val`, and the activation record of the `execute` it may call.  `saved` is for the record
    only: the stack registers that the parent's `execute` saved when it started the process. -/
structure HaltCall where
  pid : Nat
  retVal : Int
  fr : Frame
  saved : Nat × Nat

/-- The statements of `halt` after `cli`.  The jump loads `ESP_prev` and `EBP_prev`. -/
inductive HaltStmt
  | freePid | checkBase | closeAll | mapParent | restoreTss | activateParent | enableInterrupts | jump
  deriving DecidableEq

/-- The statements from the closing of the descriptors on. -/
def haltRest : List HaltStmt :=
  [.closeAll, .mapParent, .restoreTss, .activateParent, .enableInterrupts, .jump]

def haltBody : List HaltStmt := .freePid :: .checkBase :: haltRest

/-- What a statement of `execute` does to the process table. -/
def ExecCall.effect (s : Fin 3) (c : ExecCall) : ExecStmt → Procs → Procs
  | .mapPage => mapProgram c.pid
  | .buildPcb => ByteVerse.buildPcb s c.prog.args c.pid
  | .saveFrame => ByteVerse.saveFrame c.pid c.fr c.site
  | .switchTss => setTss s c.pid
  | .loadFile | .enableInterrupts | .iret => id

/-- What a statement of `halt` does to the process table. -/
def HaltCall.effect (s : Fin 3) (c : HaltCall) : HaltStmt → Procs → Procs
  | .freePid => ByteVerse.freePid c.pid
  | .closeAll => ByteVerse.closeAll s
  | .mapParent => ByteVerse.mapParent c.pid
  | .restoreTss => ByteVerse.restoreTss c.pid
  | .activateParent => ByteVerse.activateParent s c.pid
  | .checkBase | .enableInterrupts | .jump => id

/-- The table that the rest of a call of `execute` leaves behind. -/
def ExecCall.finish (s : Fin 3) (c : ExecCall) (todo : List ExecStmt) (ps : Procs) : Procs :=
  todo.foldl (fun ps st => c.effect s st ps) ps

def HaltCall.finish (s : Fin 3) (c : HaltCall) (todo : List HaltStmt) (ps : Procs) : Procs :=
  todo.foldl (fun ps st => c.effect s st ps) ps

/-- All statements of `execute` together. -/
theorem ExecCall.finish_body (s : Fin 3) (fr : Frame) (site : RetSite) (prog : Program) (i : Nat)
    (ps : Procs) :
    ExecCall.finish s { pid := i + 1, site := site, fr := fr, prog := prog } execBody
      (claimPid i ps) = startProcess s fr site prog.args i ps :=
  rfl

/-- And those of `halt`. -/
theorem HaltCall.finish_rest (s : Fin 3) (c : HaltCall) (ps : Procs) :
    c.finish s haltRest ps = haltTail s c.pid ps :=
  rfl

/-! ## The machine -/

/-- Where the process of a terminal is when the terminal is scheduled: in its program, before the
    statements `todo` of a call, or nowhere the model knows of (`Ctl.lost`). -/
inductive CallFlow
  | user
  | starting (c : ExecCall) (todo : List ExecStmt)
  | halting (c : HaltCall) (todo : List HaltStmt)
  | lost

/-- The kernel and the flow of each terminal.  `suspended` are the halts that wait for a shell they
    have executed, the latest first.  Two fields are for the record: `given`, the terminal whose
    `execute` was last given a pid, and `saved`, the stack registers that it saved. -/
structure HaltRace where
  kernel : Kernel
  flow : Fin 3 → CallFlow
  suspended : Fin 3 → List HaltCall
  given : Nat → Fin 3
  saved : Nat → Nat × Nat

namespace HaltRace

def procs (m : HaltRace) : Procs := m.kernel.procs

/-- The scheduled terminal. -/
def term (m : HaltRace) : Fin 3 := m.kernel.schedTerm

def active (m : HaltRace) : Nat := m.procs.activePid m.term

def setFlow (m : HaltRace) (f : CallFlow) : HaltRace :=
  { m with flow := fun t => if t = m.term then f else m.flow t }

def setProcs (m : HaltRace) (ps : Procs) : HaltRace :=
  { m with kernel := { m.kernel with procs := ps } }

/-- A call of `execute` returns to `site`.  The program it returns to runs with interrupts enabled:
    the gate's `iret` restores its flags. -/
def returnTo (m : HaltRace) : RetSite → HaltRace
  | .syscall => { m.setFlow .user with kernel := sti m.kernel }
  | .halt _ _ =>
    match m.suspended m.term with
    | c :: cs =>
      { m.setFlow (.halting c haltRest) with suspended := Function.update m.suspended m.term cs }
    | [] => m.setFlow .lost
  | .entry => m.setFlow .lost
  | .scheduler => m.setFlow .lost

/-- `pid_arr[i] = 1`, on the way to the rest of `execute`. -/
def claim (m : HaltRace) (site : RetSite) (fr : Frame) (prog : Program) (i : Nat) : HaltRace :=
  { (m.setProcs (claimPid i m.procs)).setFlow
      (.starting { pid := i + 1, site := site, fr := fr, prog := prog } execBody) with
    given := Function.update m.given (i + 1) m.term }

/-- A call of `execute`, up to the claim. -/
def callExecute (disk : Disk) (site : RetSite) (command : Option (List UInt8)) (fr : Frame)
    (m : HaltRace) : HaltRace :=
  let k := cli m.kernel
  match checkProgram disk.img fr command with
  | .error reenable => returnTo { m with kernel := if reenable then sti k else k } site
  | .ok prog =>
    match firstFree k.procs.slotUsed 0 maxPcbs with
    | none =>
      let con := printfkText k.schedTerm k.visibleTerm processCapReached k.con
      returnTo { m with kernel := sti { k with con := con } } site
    | some i => claim { m with kernel := k } site fr prog i

/-- One statement of `execute`, before the statements `todo`. -/
def execStatement (disk : Disk) (c : ExecCall) (st : ExecStmt) (todo : List ExecStmt)
    (m : HaltRace) : HaltRace :=
  let next := (m.setProcs (c.effect m.term st m.procs)).setFlow (.starting c todo)
  match st with
  | .loadFile =>
    if loads disk.img c.prog then next else returnTo { m with kernel := sti m.kernel } c.site
  | .saveFrame => { next with saved := Function.update m.saved c.pid (c.fr.esp, c.fr.ebp) }
  | .enableInterrupts => { next with kernel := sti m.kernel }
  -- the flags it loads have interrupts enabled
  | .iret => { m.setFlow .user with kernel := sti m.kernel }
  | .mapPage | .buildPcb | .switchTss => next

/-- One statement of `halt`. -/
def haltStatement (disk : Disk) (c : HaltCall) (st : HaltStmt) (todo : List HaltStmt)
    (m : HaltRace) : HaltRace :=
  let next := (m.setProcs (c.effect m.term st m.procs)).setFlow (.halting c todo)
  match st with
  | .checkBase =>
    if (m.procs.pcbs c.pid).pid = m.procs.basePid m.term then
      callExecute disk (.halt c.pid c.retVal) (some (shellCommand disk .halt)) c.fr
        { m with suspended := Function.update m.suspended m.term (c :: m.suspended m.term) }
    else next
  | .enableInterrupts => { next with kernel := sti m.kernel }
  | .jump =>
    match landing m.procs c.pid with
    | .running => m.returnTo .syscall
    | .halting currentPcb retVal => m.returnTo (.halt currentPcb retVal)
    | .lost => m.setFlow .lost
  | .freePid | .closeAll | .mapParent | .restoreTss | .activateParent => next

/-- `scheduler`, up to the claim of the `execute` it may call. -/
def schedule (disk : Disk) (esp ebp : Nat) (fr : Frame) (m : HaltRace) : HaltRace :=
  let running := m.term
  let s := nextTerm running
  let k : Kernel :=
    { m.kernel with schedTerm := s, con := mapScreen s m.kernel.visibleTerm m.kernel.con }
  if k.procs.status s = 0 then
    let k : Kernel := { k with
      procs := savePreempted running esp ebp (openTerminal s k.procs)
      con := clear s k.visibleTerm k.con }
    callExecute disk .scheduler (some (shellCommand disk .scheduler)) fr { m with kernel := k }
  else { m with kernel := { k with procs := switchContext running s esp ebp k.procs } }

end HaltRace

inductive HaltEvent
  /-- The running process calls `execute`. -/
  | execute (command : Option (List UInt8)) (fr : Frame)
  /-- The running process calls `halt`; `fr` is for the shell it may execute. -/
  | halt (status : UInt8) (fr : Frame)
  /-- The next statement of the call that the running process is in. -/
  | statement
  /-- A timer interrupt. -/
  | tick (esp ebp : Nat) (fr : Frame)

/-- One event.  A tick is possible whenever interrupts are enabled.  `scheduler` itself is not
    interrupted, but the `execute` of a terminal's first shell goes on statement by statement. -/
def haltRaceStep (disk : Disk) (m : HaltRace) : HaltEvent → Option HaltRace
  | .execute command fr =>
    match m.flow m.term with
    | .user => some (m.callExecute disk .syscall command fr)
    | _ => none
  | .halt status fr =>
    match m.flow m.term with
    | .user =>
      let c : HaltCall :=
        { pid := m.active, retVal := haltRetVal status, fr := fr, saved := m.saved m.active }
      some { m.setFlow (.halting c haltBody) with kernel := cli m.kernel }
    | _ => none
  | .statement =>
    match m.flow m.term with
    | .starting c (st :: todo) => some (m.execStatement disk c st todo)
    | .halting c (st :: todo) => some (m.haltStatement disk c st todo)
    | _ => none
  | .tick esp ebp fr =>
    match m.flow m.term with
    | .lost => none
    | _ => if m.kernel.interruptFlag then some (m.schedule disk esp ebp fr) else none

/-- The machine in which `entry` has just executed the first shell. -/
def bootRace (disk : Disk) (pw : PowerOn) (fr : Frame) : HaltRace where
  kernel := (boot disk pw fr).1
  flow := fun _ => .user
  suspended := fun _ => []
  given := fun _ => 0
  saved := Function.update (fun pid => ((pw.pcbs pid).espPrev, (pw.pcbs pid).ebpPrev)) 1
    (fr.esp, fr.ebp)

/-! ## Without interruption -/

section Uninterrupted

variable {disk : Disk} {m : HaltRace}

theorem run_statement {c : ExecCall} {st : ExecStmt} {todo : List ExecStmt}
    (hflow : m.flow m.term = .starting c (st :: todo)) (es : List HaltEvent) :
    run (haltRaceStep disk) m (.statement :: es) =
      run (haltRaceStep disk) (m.execStatement disk c st todo) es := by
  have hstep : haltRaceStep disk m .statement = some (m.execStatement disk c st todo) := by
    simp only [haltRaceStep, hflow]
  show (haltRaceStep disk m .statement).bind _ = _
  rw [hstep]
  rfl

theorem run_haltStatement {c : HaltCall} {st : HaltStmt} {todo : List HaltStmt}
    (hflow : m.flow m.term = .halting c (st :: todo)) (es : List HaltEvent) :
    run (haltRaceStep disk) m (.statement :: es) =
      run (haltRaceStep disk) (m.haltStatement disk c st todo) es := by
  have hstep : haltRaceStep disk m .statement = some (m.haltStatement disk c st todo) := by
    simp only [haltRaceStep, hflow]
  show (haltRaceStep disk m .statement).bind _ = _
  rw [hstep]
  rfl

/-- A statement of `execute` up to the TSS switch. -/
theorem execStatement_table {c : ExecCall} {st : ExecStmt} (todo : List ExecStmt)
    (hst : st ≠ .enableInterrupts ∧ st ≠ .iret) (hloads : loads disk.img c.prog = true) :
    (m.execStatement disk c st todo).kernel =
        { m.kernel with procs := c.effect m.term st m.procs } ∧
      (m.execStatement disk c st todo).flow = (m.setFlow (.starting c todo)).flow ∧
      (m.execStatement disk c st todo).given = m.given := by
  cases st with
  | enableInterrupts => exact absurd rfl hst.1
  | iret => exact absurd rfl hst.2
  | mapPage | buildPcb | saveFrame | switchTss => exact ⟨rfl, rfl, rfl⟩
  | loadFile =>
    have hnext : m.execStatement disk c .loadFile todo =
        (m.setProcs (c.effect m.term .loadFile m.procs)).setFlow (.starting c todo) :=
      if_pos hloads
    rw [hnext]
    exact ⟨rfl, rfl, rfl⟩

/-- Statements of `execute` up to the TSS switch, one after the other. -/
theorem run_starting {c : ExecCall} (hloads : loads disk.img c.prog = true) (todo rest : List ExecStmt)
    (htodo : ∀ st ∈ todo, st ≠ .enableInterrupts ∧ st ≠ .iret)
    (hflow : m.flow m.term = .starting c (todo ++ rest)) :
    ∃ m', (∀ es, run (haltRaceStep disk) m (List.replicate todo.length .statement ++ es) =
        run (haltRaceStep disk) m' es) ∧
      m'.kernel = { m.kernel with procs := c.finish m.term todo m.procs } ∧
      m'.flow m.term = .starting c rest ∧ (∀ t, t ≠ m.term → m'.flow t = m.flow t) ∧
      m'.given = m.given := by
  induction todo generalizing m with
  | nil => exact ⟨m, fun _ => rfl, rfl, hflow, fun _ _ => rfl, rfl⟩
  | cons st todo ih =>
    obtain ⟨hkernel, hflows, hgiven⟩ := execStatement_table (m := m) (todo ++ rest)
      (htodo st List.mem_cons_self) hloads
    generalize hm₁ : m.execStatement disk c st (todo ++ rest) = m₁ at hkernel hflows hgiven
    have hterm : m₁.term = m.term := by
      show m₁.kernel.schedTerm = _
      rw [hkernel]
      rfl
    have hprocs : m₁.procs = c.effect m.term st m.procs := congrArg Kernel.procs hkernel
    obtain ⟨m', hrun, hkernel', hflow', hother, hgiven'⟩ :=
      ih (m := m₁) (fun st hst => htodo st (List.mem_cons_of_mem _ hst)) (by
        rw [hflows, hterm]
        exact if_pos rfl)
    rw [hterm] at hflow' hother
    refine ⟨m', ?_, ?_, hflow', ?_, hgiven'.trans hgiven⟩
    · intro es
      rw [← hrun es, ← hm₁]
      exact run_statement hflow _
    · rw [hkernel', hprocs, hterm, hkernel]
      rfl
    · intro t ht
      rw [hother t ht, hflows]
      exact if_neg ht

/-- **Without interruption the statements of `execute` are `execute`.** -/
theorem execute_uninterrupted (hflow : m.flow m.term = .user) {command : Option (List UInt8)}
    {fr : Frame} {prog : Program} (hcheck : checkProgram disk.img fr command = .ok prog)
    {i : Nat} (hi : firstFree m.procs.slotUsed 0 maxPcbs = some i)
    (hloads : loads disk.img prog = true) :
    ∃ m', run (haltRaceStep disk) m (.execute command fr :: List.replicate 7 .statement) = some m' ∧
      m'.kernel = (execute disk.img fr .syscall command m.kernel).1 ∧
      m'.flow m.term = .user := by
  have hi' : firstFree (cli m.kernel).procs.slotUsed 0 maxPcbs = some i := hi
  have hexecute : (execute disk.img fr .syscall command m.kernel).1 =
      sti { m.kernel with procs := startProcess m.term fr .syscall prog.args i m.procs } := by
    unfold execute
    rw [hcheck]
    simp only [hi', hloads, if_true]
    rfl
  have hcall : haltRaceStep disk m (.execute command fr) =
      some (HaltRace.claim { m with kernel := cli m.kernel } .syscall fr prog i) := by
    simp only [haltRaceStep, hflow]
    unfold HaltRace.callExecute
    rw [hcheck]
    simp only [hi']
  obtain ⟨c, hc⟩ : ∃ c : ExecCall, c = { pid := i + 1, site := .syscall, fr := fr, prog := prog } :=
    ⟨_, rfl⟩
  obtain ⟨m₁, hrun, hkernel, hflow₁, -, -⟩ :=
    run_starting (m := HaltRace.claim { m with kernel := cli m.kernel } .syscall fr prog i)
      (c := c) (by rw [hc]; exact hloads) (execBody.take 5) [.enableInterrupts, .iret] (by decide)
      (by rw [hc]; exact if_pos rfl)
  have hterm₁ : m₁.term = m.term := by
    show m₁.kernel.schedTerm = _
    rw [hkernel]
    rfl
  have hflow₁' : m₁.flow m₁.term = .starting c [.enableInterrupts, .iret] := hterm₁.symm ▸ hflow₁
  refine ⟨(m₁.execStatement disk c .enableInterrupts [.iret]).execStatement disk c .iret [],
    ?_, ?_, ?_⟩
  · show (haltRaceStep disk m _).bind _ = _
    rw [hcall]
    refine (hrun [.statement, .statement]).trans ?_
    rw [run_statement hflow₁', run_statement (if_pos rfl)]
    rfl
  · rw [hexecute]
    show sti (sti m₁.kernel) = _
    rw [hkernel, hc]
    rfl
  · rw [← hterm₁]
    exact if_pos rfl

/-- A statement of `halt` other than the check and the jump. -/
theorem haltStatement_table (disk : Disk) {c : HaltCall} {st : HaltStmt} (todo : List HaltStmt)
    (hst : st ≠ .checkBase ∧ st ≠ .jump) :
    m.haltStatement disk c st todo =
      { (m.setProcs (c.effect m.term st m.procs)).setFlow (.halting c todo) with
        kernel := { m.kernel with
          procs := c.effect m.term st m.procs
          interruptFlag := m.kernel.interruptFlag || decide (st = .enableInterrupts) } } := by
  have hflag : m.kernel.interruptFlag = (m.kernel.interruptFlag || false) := (Bool.or_false _).symm
  cases st with
  | checkBase => exact absurd rfl hst.1
  | jump => exact absurd rfl hst.2
  | enableInterrupts =>
    have htrue : (m.kernel.interruptFlag || true) = true := Bool.or_true _
    show _ = HaltRace.mk { m.kernel with interruptFlag := m.kernel.interruptFlag || true } _ _ _ _
    rw [htrue]
    rfl
  | freePid | closeAll | mapParent | restoreTss | activateParent =>
    show _ = HaltRace.mk { m.kernel with
      procs := _, interruptFlag := m.kernel.interruptFlag || false } _ _ _ _
    rw [← hflag]
    rfl

/-- Statements of `halt` other than these, one after the other. -/
theorem run_halting (disk : Disk) {c : HaltCall} (todo rest : List HaltStmt)
    (htodo : ∀ st ∈ todo, st ≠ .checkBase ∧ st ≠ .jump)
    (hflow : m.flow m.term = .halting c (todo ++ rest)) :
    ∃ m', (∀ es, run (haltRaceStep disk) m (List.replicate todo.length .statement ++ es) =
        run (haltRaceStep disk) m' es) ∧
      m'.kernel = { m.kernel with
        procs := c.finish m.term todo m.procs
        interruptFlag := m.kernel.interruptFlag || decide (.enableInterrupts ∈ todo) } ∧
      m'.flow m.term = .halting c rest := by
  induction todo generalizing m with
  | nil =>
    refine ⟨m, fun _ => rfl, ?_, hflow⟩
    show m.kernel = { m.kernel with interruptFlag := m.kernel.interruptFlag || false }
    rw [Bool.or_false]
  | cons st todo ih =>
    have hstep := haltStatement_table disk (m := m) (c := c) (todo ++ rest)
      (htodo st List.mem_cons_self)
    generalize hm₁ : m.haltStatement disk c st (todo ++ rest) = m₁ at hstep
    have hterm : m₁.term = m.term := by
      rw [hstep]
      rfl
    obtain ⟨m', hrun, hkernel, hflow'⟩ :=
      ih (m := m₁) (fun st hst => htodo st (List.mem_cons_of_mem _ hst)) (by
        rw [hstep]
        exact if_pos rfl)
    refine ⟨m', ?_, ?_, hterm ▸ hflow'⟩
    · intro es
      rw [← hrun es, ← hm₁]
      exact run_haltStatement hflow _
    · have hmem : decide (.enableInterrupts ∈ st :: todo) =
          (decide (st = .enableInterrupts) || decide (.enableInterrupts ∈ todo)) := by
        rw [Bool.eq_iff_iff]
        simp only [decide_eq_true_eq, Bool.or_eq_true, List.mem_cons]
        exact or_congr_left ⟨Eq.symm, Eq.symm⟩
      rw [hkernel, hmem, ← Bool.or_assoc, hstep]
      rfl

/-- **So are those of `halt`**, up to the jump, for a process that is not a base shell. -/
theorem halt_uninterrupted (hflow : m.flow m.term = .user) (status : UInt8) (fr : Frame)
    (hbase : (m.procs.pcbs m.active).pid ≠ m.procs.basePid m.term) :
    ∃ m' c, run (haltRaceStep disk) m (.halt status fr :: List.replicate 7 .statement) = some m' ∧
      m'.kernel = (halt disk fr status m.kernel).1 ∧ m'.flow m.term = .halting c [.jump] ∧
      c.pid = m.active := by
  have hhalt : halt disk fr status m.kernel = haltReturn m.active (haltRetVal status)
      { cli m.kernel with procs := freePid m.active m.procs } := if_neg hbase
  obtain ⟨c, hc, hpid⟩ : ∃ c : HaltCall, c =
      { pid := m.active, retVal := haltRetVal status, fr := fr, saved := m.saved m.active } ∧
      c.pid = m.active := ⟨_, rfl, rfl⟩
  obtain ⟨m₁, hm₁⟩ : ∃ m₁, m₁ =
      { m.setFlow (.halting c haltBody) with kernel := cli m.kernel } := ⟨_, rfl⟩
  have hcall : haltRaceStep disk m (.halt status fr) = some m₁ := by
    simp only [haltRaceStep, hflow, hm₁, hc]
  have hflow₁ : m₁.flow m₁.term = .halting c ([.freePid] ++ .checkBase :: haltRest) := by
    rw [hm₁]
    exact if_pos rfl
  obtain ⟨m₂, hrun₂, hkernel₂, hflow₂⟩ :=
    run_halting disk [.freePid] (.checkBase :: haltRest) (by decide) hflow₁
  have hprocs₂ : m₂.procs = freePid m.active m.procs := by
    show m₂.kernel.procs = _
    rw [hkernel₂, ← hpid, hm₁]
    rfl
  have hterm₁ : m₁.term = m.term := by
    rw [hm₁]
    rfl
  have hterm₂ : m₂.term = m.term := by
    show m₂.kernel.schedTerm = _
    rw [hkernel₂]
    exact hterm₁
  have hcheck : m₂.haltStatement disk c .checkBase haltRest =
      (m₂.setProcs m₂.procs).setFlow (.halting c haltRest) := by
    refine if_neg ?_
    rw [hprocs₂, hterm₂, hpid]
    exact hbase
  obtain ⟨m₃, hrun₃, hkernel₃, hflow₃⟩ :=
    run_halting disk (m := (m₂.setProcs m₂.procs).setFlow (.halting c haltRest))
      haltRest.dropLast [.jump] (by decide) (if_pos rfl)
  refine ⟨m₃, c, ?_, ?_, ?_, hpid⟩
  · show (haltRaceStep disk m _).bind _ = _
    rw [hcall]
    refine (hrun₂ (List.replicate 6 .statement)).trans ?_
    have hflow₂' : m₂.flow m₂.term = .halting c (.checkBase :: haltRest) := by
      rw [hterm₂, ← hterm₁]
      exact hflow₂
    refine (run_haltStatement hflow₂' (List.replicate 5 .statement)).trans ?_
    rw [hcheck]
    exact hrun₃ []
  · rw [hhalt, hkernel₃]
    show { m₂.kernel with
      procs := haltTail m₂.term c.pid m₂.procs
      interruptFlag := m₂.kernel.interruptFlag || true } = _
    rw [Bool.or_true, hprocs₂, hterm₂, hkernel₂, hpid, hm₁]
    rfl
  · rw [← hterm₂]
    exact hflow₃

end Uninterrupted

/-! ## What a halt needs -/

/-- The halts of terminal `t` that have not jumped yet. -/
def HaltRace.openHalts (m : HaltRace) (t : Fin 3) : List HaltCall :=
  match m.flow t with
  | .halting c _ => c :: m.suspended t
  | _ => m.suspended t

/-- `ESP_prev` and `EBP_prev`. -/
def Pcb.frame (pcb : Pcb) : Nat × Nat := (pcb.espPrev, pcb.ebpPrev)

/-- The pid of an open halt has not been given to an `execute` of another terminal, and a halt that
    is about to jump finds in its PCB what the parent's `execute` saved. -/
structure HaltSafe (m : HaltRace) : Prop where
  pids : ∀ t, ∀ c ∈ m.openHalts t, m.given c.pid = t
  frames : ∀ t c, m.flow t = .halting c [.jump] → (m.procs.pcbs c.pid).frame = c.saved

def CallFlow.isHalting : CallFlow → Bool
  | .halting _ _ => true
  | _ => false

/-- No tick falls into a `halt` that has enabled interrupts and not jumped yet, a tick that starts a
    terminal finds a free pid, and a base shell that halts has no free slot below its own. -/
def sparesHalts (m : HaltRace) : HaltEvent → Prop
  | .tick _ _ _ => (m.flow m.term).isHalting = false ∧
      (m.procs.status (nextTerm m.term) = 0 → ∃ i, i < maxPcbs ∧ m.procs.slotUsed i = false)
  | .halt _ _ => m.active = m.procs.basePid m.term →
      ∀ i, i + 1 < m.active → m.procs.slotUsed i = true
  | _ => True

end ByteVerse
