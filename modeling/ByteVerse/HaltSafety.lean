/-
  No pid is reused before the halt that freed it has jumped, along the runs that spare the halts.

  The invariant looks at the process table that the call in progress is about to leave behind:
  between two statements with interrupts disabled only that call goes on, so what a statement does
  is to come closer to that table, and a call as a whole takes a settled table to a settled one
  (`OwnPaths`).  `window_reused` is the other side: in any state in which a halt is about to jump, a
  tick and an `execute` are enough.
-/
import ByteVerse.Context
import ByteVerse.OwnPaths

set_option linter.unusedVariables false

namespace ByteVerse

open SlotTable Run ParentPath

variable {ps : Procs} {s : Fin 3}

/-! ## The invariant -/

variable {disk : Disk} {m m' : HaltRace}

def HaltRace.Settled (m : HaltRace) (ps : Procs) : Prop :=
  ByteVerse.Settled m.given m.suspended m.term ps

/-- The program loads; a system call may find out that it does not, with no harm done so far. -/
def LoadsOrReturns (disk : Disk) (m : HaltRace) (c : ExecCall) : Prop :=
  loads disk.img c.prog = true ∨ (c.site = .syscall ∧ m.Settled m.procs)

/-- What the scheduled terminal is doing, and the table this is about to leave behind. -/
inductive HaltPhase (disk : Disk) (m : HaltRace) : Prop
  | user (hflow : m.flow m.term = .user) (hflag : m.kernel.interruptFlag = true)
      (hdone : m.Settled m.procs)
  | mapping (c : ExecCall) (hflow : m.flow m.term = .starting c execBody)
      (hflag : m.kernel.interruptFlag = false) (hdone : m.Settled (c.finish m.term execBody m.procs))
      (hload : LoadsOrReturns disk m c)
  | loading (c : ExecCall) (hflow : m.flow m.term = .starting c execBody.tail)
      (hflag : m.kernel.interruptFlag = false)
      (hdone : m.Settled (c.finish m.term execBody.tail m.procs)) (hload : LoadsOrReturns disk m c)
  | building (c : ExecCall) (todo : List ExecStmt)
      (hflow : m.flow m.term = .starting c (todo ++ [.enableInterrupts, .iret]))
      (htodo : ∀ st ∈ todo, st = .buildPcb ∨ st = .saveFrame ∨ st = .switchTss)
      (hflag : m.kernel.interruptFlag = false) (hdone : m.Settled (c.finish m.term todo m.procs))
  | entering (c : ExecCall) (hflow : m.flow m.term = .starting c [.iret])
      (hflag : m.kernel.interruptFlag = true) (hdone : m.Settled m.procs)
  | freeing (c : HaltCall) (hflow : m.flow m.term = .halting c haltBody)
      (hsaved : m.saved c.pid = c.saved) (hdone : m.Settled m.procs) (hpid : c.pid = m.active)
      (hplace : c.pid = m.procs.basePid m.term → ∀ i, i + 1 < c.pid → m.procs.slotUsed i = true)
  | checking (c : HaltCall) (ps : Procs)
      (hflow : m.flow m.term = .halting c (.checkBase :: haltRest))
      (hsaved : m.saved c.pid = c.saved) (hprocs : m.procs = freePid c.pid ps)
      (hdone : m.Settled ps) (hpid : c.pid = ps.activePid m.term)
      (hplace : c.pid = ps.basePid m.term → ∀ i, i + 1 < c.pid → ps.slotUsed i = true)
  | returning (c : HaltCall) (todo : List HaltStmt)
      (hflow : m.flow m.term = .halting c (todo ++ [.jump]))
      (htodo : ∀ st ∈ todo, st ≠ .checkBase ∧ st ≠ .jump) (hsaved : m.saved c.pid = c.saved)
      (hdone : m.Settled (c.finish m.term todo m.procs)) (hgiven : m.given c.pid = m.term)
      (hsite : (m.procs.pcbs c.pid).retSite = .syscall)
      (hparent : (m.procs.pcbs c.pid).parentPid ≠ c.pid)

/-- The invariant: every PCB has the stack registers that were saved in it last, and the terminals
    that are not scheduled were left in their programs or on the way into them. -/
structure HaltInv (disk : Disk) (m : HaltRace) : Prop where
  frames : ∀ p, (m.procs.pcbs p).frame = m.saved p
  others : ∀ t, t ≠ m.term → m.flow t = .user ∨ ∃ c, m.flow t = .starting c [.iret]
  phase : HaltPhase disk m

/-- In every phase some table is going to be left behind. -/
theorem HaltPhase.settled (h : HaltPhase disk m) : ∃ ps, m.Settled ps := by
  cases h with
  | user _ _ hdone => exact ⟨_, hdone⟩
  | mapping _ _ _ hdone _ => exact ⟨_, hdone⟩
  | loading _ _ _ hdone _ => exact ⟨_, hdone⟩
  | building _ _ _ _ _ hdone => exact ⟨_, hdone⟩
  | entering _ _ _ hdone => exact ⟨_, hdone⟩
  | freeing _ _ _ hdone _ _ => exact ⟨_, hdone⟩
  | checking _ _ _ _ _ hdone _ _ => exact ⟨_, hdone⟩
  | returning _ _ _ _ _ hdone _ _ _ => exact ⟨_, hdone⟩

/-- A halt in progress has its terminal's pid, and the registers it was called with. -/
theorem HaltPhase.halting (h : HaltPhase disk m) {c : HaltCall} {todo : List HaltStmt}
    (hflow : m.flow m.term = .halting c todo) :
    m.given c.pid = m.term ∧ m.saved c.pid = c.saved := by
  cases h with
  | user hflow' | mapping _ hflow' | loading _ hflow' | building _ _ hflow' | entering _ hflow' =>
    rw [hflow'] at hflow
    cases hflow
  | freeing c' hflow' hsaved hdone hpid hplace =>
    rw [hflow'] at hflow
    cases hflow
    obtain ⟨l, hl⟩ := hdone.paths m.term hdone.started
    rw [hpid]
    exact ⟨hl.active.given, hpid ▸ hsaved⟩
  | checking c' ps hflow' hsaved hprocs hdone hpid hplace =>
    rw [hflow'] at hflow
    cases hflow
    obtain ⟨l, hl⟩ := hdone.paths m.term hdone.started
    rw [hpid]
    exact ⟨hl.active.given, hpid ▸ hsaved⟩
  | returning c' todo' hflow' htodo hsaved hdone hgiven hsite hparent =>
    rw [hflow'] at hflow
    cases hflow
    exact ⟨hgiven, hsaved⟩

/-- **What the invariant is for.** -/
theorem HaltInv.safe (h : HaltInv disk m) : HaltSafe m := by
  constructor
  · intro t c hc
    obtain ⟨ps, hps⟩ := h.phase.settled
    -- a suspended halt is the base shell's, whose pid is on its terminal's path
    have hsuspended : c ∈ m.suspended t → m.given c.pid = t := by
      intro hc
      obtain ⟨hstatus, hpid⟩ := hps.suspended t c hc
      obtain ⟨l, hl⟩ := hps.paths t hstatus
      rw [hpid]
      exact hl.base.given
    unfold HaltRace.openHalts at hc
    split at hc
    · rename_i c' todo hflow
      rcases List.mem_cons.mp hc with rfl | hc
      · by_cases ht : t = m.term
        · subst ht
          exact (h.phase.halting hflow).1
        · rcases h.others t ht with hother | ⟨c', hother⟩ <;> rw [hother] at hflow <;> cases hflow
      · exact hsuspended hc
    · exact hsuspended hc
  · intro t c hflow
    rw [h.frames]
    by_cases ht : t = m.term
    · subst ht
      exact (h.phase.halting hflow).2
    · rcases h.others t ht with hother | ⟨c', hother⟩ <;> rw [hother] at hflow <;> cases hflow

/-! ## What a statement keeps -/

theorem frame_of_origin {pcb pcb' : Pcb} (h : pcb'.origin = pcb.origin) : pcb'.frame = pcb.frame :=
  congrArg (fun o : Origin => (o.espPrev, o.ebpPrev)) h

theorem setPcb_frame {pid : Nat} {pcb : Pcb} (h : pcb.frame = (ps.pcbs pid).frame) (p : Nat) :
    ((ps.setPcb pid pcb).pcbs p).frame = (ps.pcbs p).frame := by
  show (Function.update ps.pcbs pid pcb p).frame = _
  by_cases hp : p = pid
  · rw [hp, Function.update_self]
    exact h
  · rw [Function.update_of_ne hp]

/-- Only one statement of `execute` stores stack registers for `halt`. -/
theorem ExecCall.effect_frame (c : ExecCall) {st : ExecStmt} (hst : st ≠ .saveFrame) (p : Nat) :
    ((c.effect s st ps).pcbs p).frame = (ps.pcbs p).frame := by
  cases st with
  | saveFrame => exact absurd rfl hst
  | buildPcb =>
    show ((ps.setPcb c.pid _).pcbs p).frame = _
    refine setPcb_frame ?_ p
    rfl
  | switchTss =>
    show ((ps.setPcb c.pid _).pcbs p).frame = _
    refine setPcb_frame ?_ p
    rfl
  | mapPage | loadFile | enableInterrupts | iret => rfl

theorem ExecCall.saveFrame_frame (c : ExecCall) (p : Nat) :
    ((c.effect s .saveFrame ps).pcbs p).frame =
      Function.update (fun p => (ps.pcbs p).frame) c.pid (c.fr.esp, c.fr.ebp) p := by
  show (Function.update ps.pcbs c.pid _ p).frame = _
  by_cases hp : p = c.pid
  · rw [hp, Function.update_self, Function.update_self]
    rfl
  · rw [Function.update_of_ne hp, Function.update_of_ne hp]

/-- No statement of `halt` changes what `execute` has stored. -/
theorem HaltCall.effect_origin (c : HaltCall) (st : HaltStmt) (p : Nat) :
    ((c.effect s st ps).pcbs p).origin = (ps.pcbs p).origin := by
  cases st with
  | closeAll =>
    obtain ⟨pcb, hsame, hclose⟩ := closeAll_same s ps
    show ((ByteVerse.closeAll s ps).pcbs p).origin = _
    rw [hclose]
    show (Function.update ps.pcbs (ps.runningPid s) pcb p).origin = _
    by_cases hp : p = ps.runningPid s
    · rw [hp, Function.update_self]
      exact hsame.origin_eq
    · rw [Function.update_of_ne hp]
  | freePid | checkBase | mapParent | restoreTss | activateParent | enableInterrupts | jump => rfl

theorem others_setFlow (f : CallFlow)
    (h : ∀ t, t ≠ m.term → m.flow t = .user ∨ ∃ c, m.flow t = .starting c [.iret]) :
    ∀ t, t ≠ m.term →
      (m.setFlow f).flow t = .user ∨ ∃ c, (m.setFlow f).flow t = .starting c [.iret] := by
  intro t ht
  show (if t = m.term then f else m.flow t) = _ ∨ ∃ c, (if t = m.term then f else m.flow t) = _
  rw [if_neg ht]
  exact h t ht

/-! ## The steps -/

/-- Back in the program. -/
theorem HaltInv.returned (hframes : ∀ p, (m.procs.pcbs p).frame = m.saved p)
    (hothers : ∀ t, t ≠ m.term → m.flow t = .user ∨ ∃ c, m.flow t = .starting c [.iret])
    (hdone : m.Settled m.procs) : HaltInv disk (m.returnTo .syscall) := by
  refine ⟨hframes, others_setFlow .user hothers, ?_⟩
  exact .user (if_pos rfl) rfl hdone

/-- A call of `execute` that has claimed slot `i`. -/
theorem HaltInv.claimed {site : RetSite} {fr : Frame} {prog : Program} {i : Nat}
    (hframes : ∀ p, (m.procs.pcbs p).frame = m.saved p)
    (hothers : ∀ t, t ≠ m.term → m.flow t = .user ∨ ∃ c, m.flow t = .starting c [.iret])
    (hdone : ByteVerse.Settled (Function.update m.given (i + 1) m.term) m.suspended m.term
      (startProcess m.term fr site prog.args i m.procs))
    (hload : loads disk.img prog = true ∨ (site = .syscall ∧
      ByteVerse.Settled (Function.update m.given (i + 1) m.term) m.suspended m.term
        (claimPid i m.procs))) :
    HaltInv disk (HaltRace.claim { m with kernel := cli m.kernel } site fr prog i) := by
  refine ⟨hframes, others_setFlow (m := { m with kernel := cli m.kernel }) _ hothers, ?_⟩
  rw [← ExecCall.finish_body] at hdone
  exact .mapping { pid := i + 1, site := site, fr := fr, prog := prog } (if_pos rfl) rfl hdone hload

/-- `execute` by cases: it returns at once, or claims the lowest free slot. -/
theorem callExecute_cases (disk : Disk) (site : RetSite) (command : Option (List UInt8)) (fr : Frame)
    (m : HaltRace) :
    (∃ k, m.callExecute disk site command fr = HaltRace.returnTo { m with kernel := k } site ∧
      k.procs = m.procs ∧ k.schedTerm = m.term) ∨
    ∃ prog i, firstFree m.procs.slotUsed 0 maxPcbs = some i ∧
      m.callExecute disk site command fr =
        HaltRace.claim { m with kernel := cli m.kernel } site fr prog i := by
  unfold HaltRace.callExecute
  rcases hcheck : checkProgram disk.img fr command with reenable | prog
  · refine Or.inl ⟨_, rfl, ?_, ?_⟩ <;> cases reenable <;> rfl
  · simp only
    rcases hfree : firstFree (cli m.kernel).procs.slotUsed 0 maxPcbs with _ | i
    · exact Or.inl ⟨_, rfl, rfl, rfl⟩
    · exact Or.inr ⟨prog, i, hfree, rfl⟩

/-- The kernel's own `execute` of a shell claims the lowest free slot when there is one. -/
theorem callExecute_shell (hshell : ShellLoads disk) (caller : ShellCaller) (site : RetSite)
    (fr : Frame) {i : Nat} (hi : firstFree m.procs.slotUsed 0 maxPcbs = some i) :
    ∃ prog, loads disk.img prog = true ∧
      m.callExecute disk site (some (shellCommand disk caller)) fr =
        HaltRace.claim { m with kernel := cli m.kernel } site fr prog i := by
  obtain ⟨prog, hcheck, hloads⟩ := hshell caller fr
  refine ⟨prog, hloads, ?_⟩
  have hi' : firstFree (cli m.kernel).procs.slotUsed 0 maxPcbs = some i := hi
  unfold HaltRace.callExecute
  rw [hcheck]
  simp only [hi']

/-- The running process calls `execute`. -/
theorem HaltInv.execute (h : HaltInv disk m) (hdone : m.Settled m.procs)
    (command : Option (List UInt8)) (fr : Frame) :
    HaltInv disk (m.callExecute disk .syscall command fr) := by
  rcases callExecute_cases disk .syscall command fr m with
    ⟨k, heq, hprocs, hterm⟩ | ⟨prog, i, hi, heq⟩
  · rw [heq]
    have hprocs' : HaltRace.procs { m with kernel := k } = m.procs := hprocs
    have hterm' : HaltRace.term { m with kernel := k } = m.term := hterm
    refine HaltInv.returned ?_ ?_ ?_
    · rw [hprocs']
      exact h.frames
    · rw [hterm']
      exact h.others
    · rw [HaltRace.Settled, hprocs', hterm']
      exact hdone
  · rw [heq]
    obtain ⟨-, hi6, hfree, -⟩ := firstFree_eq_some_iff.mp hi
    refine HaltInv.claimed h.frames h.others (hdone.child hi) (Or.inr ⟨rfl, ?_⟩)
    -- a claimed pid that no process has yet is on no path
    refine hdone.kept rfl rfl rfl ?_ hdone.started
    intro t p hp
    have hne : p ≠ i + 1 := fun heq => not_live_of_free hfree (heq ▸ hp.live)
    exact ⟨rfl, (live_of_claim hi6 rfl p).mpr (Or.inl hp.live), Function.update_of_ne hne _ _⟩

/-- A tick. -/
theorem HaltInv.tick (hshell : ShellLoads disk) (h : HaltInv disk m) (hdone : m.Settled m.procs)
    (hflow : m.flow m.term = .user ∨ ∃ c, m.flow m.term = .starting c [.iret])
    (hflag : m.kernel.interruptFlag = true)
    (hpid : m.procs.status (nextTerm m.term) = 0 → ∃ i, i < maxPcbs ∧ m.procs.slotUsed i = false)
    (esp ebp : Nat) (fr : Frame) : HaltInv disk (m.schedule disk esp ebp fr) := by
  have hothers : ∀ t, t ≠ nextTerm m.term →
      m.flow t = .user ∨ ∃ c, m.flow t = .starting c [.iret] := by
    intro t _
    by_cases ht : t = m.term
    · rw [ht]
      exact hflow
    · exact h.others t ht
  by_cases hstatus : m.procs.status (nextTerm m.term) = 0
  · obtain ⟨j, hj, hfree⟩ := hpid hstatus
    obtain ⟨i, hi⟩ : ∃ i, firstFree m.procs.slotUsed 0 maxPcbs = some i := by
      rcases hfirst : firstFree m.procs.slotUsed 0 maxPcbs with _ | i
      · rw [firstFree_eq_none_iff.mp hfirst j (Nat.zero_le _) hj] at hfree
        cases hfree
      · exact ⟨i, rfl⟩
    -- the kernel in which the shell is executed
    obtain ⟨m₁, hsched, hterm, hprocs, hrest⟩ : ∃ m₁ : HaltRace,
        m.schedule disk esp ebp fr =
          m₁.callExecute disk .scheduler (some (shellCommand disk .scheduler)) fr ∧
        m₁.term = nextTerm m.term ∧
        m₁.procs = savePreempted m.term esp ebp (openTerminal (nextTerm m.term) m.procs) ∧
        m₁.flow = m.flow ∧ m₁.suspended = m.suspended ∧ m₁.given = m.given ∧ m₁.saved = m.saved :=
      ⟨_, if_pos hstatus, rfl, rfl, rfl, rfl, rfl, rfl⟩
    obtain ⟨hflow₁, hsuspended, hgiven, hsaved⟩ := hrest
    have hi₁ : firstFree m₁.procs.slotUsed 0 maxPcbs = some i := by
      rw [hprocs]
      exact hi
    obtain ⟨prog, hloads, hcall⟩ := callExecute_shell hshell .scheduler .scheduler fr hi₁
    rw [hsched, hcall]
    refine HaltInv.claimed ?_ ?_ ?_ (Or.inl hloads)
    · intro p
      show (m₁.procs.pcbs p).frame = m₁.saved p
      rw [hprocs, hsaved, ← h.frames p]
      exact frame_of_origin
        (savePreempted_origin m.term esp ebp (openTerminal (nextTerm m.term) m.procs) p)
    · show ∀ t, t ≠ m₁.term → m₁.flow t = _ ∨ ∃ c, m₁.flow t = _
      rw [hterm, hflow₁]
      exact hothers
    · show ByteVerse.Settled (Function.update m₁.given (i + 1) m₁.term) m₁.suspended m₁.term
        (startProcess m₁.term fr .scheduler prog.args i m₁.procs)
      rw [hterm, hprocs, hgiven, hsuspended]
      exact hdone.shell hstatus hi
  · have hsched : m.schedule disk esp ebp fr =
        { m with kernel := { m.kernel with
            schedTerm := nextTerm m.term
            con := mapScreen (nextTerm m.term) m.kernel.visibleTerm m.kernel.con
            procs := switchContext m.term (nextTerm m.term) esp ebp m.procs } } := if_neg hstatus
    rw [hsched]
    have hsettled : ByteVerse.Settled m.given m.suspended (nextTerm m.term)
        (switchContext m.term (nextTerm m.term) esp ebp m.procs) := hdone.switched hstatus esp ebp
    refine ⟨?_, hothers, ?_⟩
    · intro p
      rw [← h.frames p]
      exact frame_of_origin (switchContext_origin _ _ _ _ _ p)
    · rcases h.others _ (nextTerm_ne m.term) with hnext | ⟨c, hnext⟩
      · exact .user hnext hflag hsettled
      · exact .entering c hnext hflag hsettled

/-- A statement of `execute`. -/
theorem HaltInv.execStep (h : HaltInv disk m) {c : ExecCall} {st : ExecStmt} {todo : List ExecStmt}
    (hflow : m.flow m.term = .starting c (st :: todo)) :
    HaltInv disk (m.execStatement disk c st todo) := by
  cases h.phase with
  | user hflow' | freeing _ hflow' | checking _ _ hflow' | returning _ _ hflow' =>
    rw [hflow'] at hflow
    cases hflow
  | mapping c' hflow' hflag hdone hload =>
    rw [hflow'] at hflow
    obtain ⟨rfl, hbody⟩ := CallFlow.starting.inj hflow
    obtain ⟨rfl, rfl⟩ := List.cons.inj hbody
    refine ⟨h.frames, others_setFlow _ h.others, .loading c' (if_pos rfl) hflag hdone ?_⟩
    refine hload.imp id fun ⟨hsite, hset⟩ => ⟨hsite, ?_⟩
    exact hset.kept rfl rfl rfl (fun _ _ hp => ⟨rfl, hp.live, rfl⟩) hset.started
  | loading c' hflow' hflag hdone hload =>
    rw [hflow'] at hflow
    obtain ⟨rfl, hbody⟩ := CallFlow.starting.inj hflow
    obtain ⟨rfl, rfl⟩ := List.cons.inj hbody
    unfold HaltRace.execStatement
    simp only
    split
    · refine ⟨h.frames, others_setFlow _ h.others,
        .building c' [.buildPcb, .saveFrame, .switchTss] (if_pos rfl) ?_ hflag hdone⟩
      intro st hst
      simpa using hst
    · rename_i hfails
      obtain ⟨hsite, hset⟩ := hload.resolve_left hfails
      rw [hsite]
      exact HaltInv.returned (m := { m with kernel := sti m.kernel }) h.frames h.others hset
  | building c' todo' hflow' htodo hflag hdone =>
    rw [hflow'] at hflow
    obtain ⟨rfl, hbody⟩ := CallFlow.starting.inj hflow
    cases todo' with
    | nil =>
      obtain ⟨rfl, rfl⟩ := List.cons.inj hbody
      exact ⟨h.frames, others_setFlow _ h.others,
        .entering c' (if_pos rfl) rfl hdone⟩
    | cons st' rest =>
      obtain ⟨rfl, htail⟩ := List.cons.inj hbody
      obtain rfl : rest ++ [.enableInterrupts, .iret] = todo := htail
      have hrest : ∀ st ∈ rest, st = .buildPcb ∨ st = .saveFrame ∨ st = .switchTss :=
        fun st hst => htodo st (List.mem_cons_of_mem _ hst)
      have hkept : st' ≠ .saveFrame →
          ∀ p, ((c'.effect m.term st' m.procs).pcbs p).frame = m.saved p :=
        fun hst p => (c'.effect_frame hst p).trans (h.frames p)
      rcases htodo st' List.mem_cons_self with rfl | rfl | rfl
      · exact ⟨hkept (by decide), others_setFlow _ h.others,
          .building c' rest (if_pos rfl) hrest hflag hdone⟩
      · refine ⟨?_, others_setFlow _ h.others,
          .building c' rest (if_pos rfl) hrest hflag hdone⟩
        intro p
        show _ = Function.update m.saved c'.pid (c'.fr.esp, c'.fr.ebp) p
        rw [← funext h.frames]
        exact c'.saveFrame_frame (s := m.term) p
      · exact ⟨hkept (by decide), others_setFlow _ h.others,
          .building c' rest (if_pos rfl) hrest hflag hdone⟩
  | entering c' hflow' hflag hdone =>
    rw [hflow'] at hflow
    cases hflow
    exact ⟨h.frames, others_setFlow _ h.others, .user (if_pos rfl) rfl hdone⟩

/-- A base shell that has freed its slot finds it free, and finds no lower one. -/
theorem firstFree_freed {pid : Nat} (hlive : ps.live pid)
    (hplace : ∀ i, i + 1 < pid → ps.slotUsed i = true) :
    firstFree (freePid pid ps).slotUsed 0 maxPcbs = some (pid - 1) := by
  obtain ⟨hpos, hle, -⟩ := hlive
  refine firstFree_eq_some_iff.mpr ⟨Nat.zero_le _, by omega, freed_slot_self pid ps, ?_⟩
  intro j _ hj
  rw [freed_slot_of_ne (by omega)]
  exact hplace j (by omega)

/-- A statement of `halt`. -/
theorem HaltInv.haltStep (hshell : ShellLoads disk) (h : HaltInv disk m) {c : HaltCall}
    {st : HaltStmt} {todo : List HaltStmt} (hflow : m.flow m.term = .halting c (st :: todo)) :
    HaltInv disk (m.haltStatement disk c st todo) := by
  cases h.phase with
  | user hflow' | mapping _ hflow' | loading _ hflow' | building _ _ hflow' | entering _ hflow' =>
    rw [hflow'] at hflow
    cases hflow
  | freeing c' hflow' hsaved hdone hpid hplace =>
    rw [hflow'] at hflow
    obtain ⟨rfl, hbody⟩ := CallFlow.halting.inj hflow
    obtain ⟨rfl, rfl⟩ := List.cons.inj hbody
    exact ⟨h.frames, others_setFlow _ h.others,
      .checking c' m.procs (if_pos rfl) hsaved rfl hdone hpid hplace⟩
  | checking c' ps hflow' hsaved hprocs hdone hpid hplace =>
    rw [hflow'] at hflow
    obtain ⟨rfl, hbody⟩ := CallFlow.halting.inj hflow
    obtain ⟨rfl, rfl⟩ := List.cons.inj hbody
    obtain ⟨l, hl⟩ := hdone.paths m.term hdone.started
    have hlive : ps.live c'.pid := hpid ▸ hl.active.live
    have hknown : (m.procs.pcbs c'.pid).pid = c'.pid := by
      rw [hprocs, hpid]
      exact hl.active.pid
    have hbasePid : m.procs.basePid = ps.basePid := by
      rw [hprocs]
      rfl
    unfold HaltRace.haltStatement
    simp only
    rw [hknown, hbasePid]
    split
    · rename_i hbase
      have hi := firstFree_freed hlive (hplace hbase)
      rw [← hprocs] at hi
      obtain ⟨prog, hloads, hcall⟩ := callExecute_shell hshell .halt (.halt c'.pid c'.retVal) c'.fr
        (m := { m with
          suspended := Function.update m.suspended m.term (c' :: m.suspended m.term) }) hi
      rw [hcall]
      refine HaltInv.claimed h.frames h.others ?_ (Or.inl hloads)
      have hpid' : c'.pid - 1 + 1 = ps.activePid m.term := by
        rw [← hpid]
        have := hlive.1
        omega
      show ByteVerse.Settled (Function.update m.given (c'.pid - 1 + 1) m.term)
        (Function.update m.suspended m.term (c' :: m.suspended m.term)) m.term
        (startProcess m.term c'.fr _ prog.args (c'.pid - 1) m.procs)
      rw [hprocs]
      exact hdone.restart (hpid.symm.trans hbase) hpid' hpid
    · rename_i hbase
      rw [hpid] at hbase
      obtain ⟨hsite, hparent⟩ := hl.active_landing hbase
      have hpcbs : m.procs.pcbs = ps.pcbs := by
        rw [hprocs]
        rfl
      refine ⟨h.frames, others_setFlow _ h.others,
        .returning c' haltRest.dropLast (if_pos rfl) ?_ hsaved ?_ ?_ ?_ ?_⟩
      · decide
      · show ByteVerse.Settled m.given m.suspended m.term (haltTail m.term c'.pid m.procs)
        rw [hprocs, hpid]
        exact hdone.returned hbase
      · rw [hpid]
        exact hl.active.given
      · show (m.procs.pcbs c'.pid).retSite = _
        rw [hpcbs, hpid]
        exact hsite
      · show (m.procs.pcbs c'.pid).parentPid ≠ _
        rw [hpcbs, hpid]
        exact hparent
  | returning c' todo' hflow' htodo hsaved hdone hgiven hsite hparent =>
    rw [hflow'] at hflow
    obtain ⟨rfl, hbody⟩ := CallFlow.halting.inj hflow
    cases todo' with
    | nil =>
      obtain ⟨rfl, rfl⟩ := List.cons.inj hbody
      unfold HaltRace.haltStatement
      simp only [landing_of_syscall hsite hparent]
      exact HaltInv.returned h.frames h.others hdone
    | cons st' rest =>
      obtain ⟨rfl, htail⟩ := List.cons.inj hbody
      obtain rfl : rest ++ [.jump] = todo := htail
      obtain ⟨hcheck, hjump⟩ := htodo st' List.mem_cons_self
      have horigin : ∀ p, ((c'.effect m.term st' m.procs).pcbs p).origin = (m.procs.pcbs p).origin :=
        c'.effect_origin st'
      rw [haltStatement_table disk _ ⟨hcheck, hjump⟩]
      refine ⟨?_, others_setFlow _ h.others, .returning c' rest (if_pos rfl)
        (fun st hst => htodo st (List.mem_cons_of_mem _ hst)) hsaved hdone hgiven ?_ ?_⟩
      · exact fun p => (frame_of_origin (horigin p)).trans (h.frames p)
      · exact (congrArg Origin.retSite (horigin c'.pid)).trans hsite
      · exact fun heq => hparent ((congrArg Origin.parentPid (horigin c'.pid)).symm.trans heq)

/-- **The step lemma.** -/
theorem HaltInv.step (hshell : ShellLoads disk) (h : HaltInv disk m) {e : HaltEvent}
    (hspares : sparesHalts m e) (hstep : haltRaceStep disk m e = some m') : HaltInv disk m' := by
  -- in its program a process has interrupts enabled and a settled table
  have huser : m.flow m.term = .user → m.kernel.interruptFlag = true ∧ m.Settled m.procs := by
    intro hflow
    cases h.phase with
    | user _ hflag hdone => exact ⟨hflag, hdone⟩
    | mapping _ hflow' | loading _ hflow' | building _ _ hflow' | entering _ hflow'
    | freeing _ hflow' | checking _ _ hflow' | returning _ _ hflow' =>
      rw [hflow'] at hflow
      cases hflow
  cases e with
  | execute command fr =>
    simp only [haltRaceStep] at hstep
    split at hstep
    · rename_i hflow
      cases hstep
      exact h.execute (huser hflow).2 command fr
    · cases hstep
  | halt status fr =>
    simp only [haltRaceStep] at hstep
    split at hstep
    · rename_i hflow
      cases hstep
      refine ⟨h.frames, others_setFlow _ h.others, ?_⟩
      exact .freeing _ (if_pos rfl) rfl (huser hflow).2 rfl hspares
    · cases hstep
  | statement =>
    simp only [haltRaceStep] at hstep
    split at hstep
    · rename_i c st todo hflow
      cases hstep
      exact h.execStep hflow
    · rename_i c st todo hflow
      cases hstep
      exact h.haltStep hshell hflow
    · cases hstep
  | tick esp ebp fr =>
    obtain ⟨hhalting, hpid⟩ := hspares
    simp only [haltRaceStep] at hstep
    split at hstep
    · cases hstep
    · split at hstep
      · rename_i hflag
        cases hstep
        cases h.phase with
        | user hflow _ hdone => exact h.tick hshell hdone (Or.inl hflow) hflag hpid esp ebp fr
        | entering c hflow _ hdone =>
          exact h.tick hshell hdone (Or.inr ⟨c, hflow⟩) hflag hpid esp ebp fr
        | mapping _ _ hoff | loading _ _ hoff | building _ _ _ _ hoff =>
          rw [hoff] at hflag
          cases hflag
        | freeing _ hflow | checking _ _ hflow | returning _ _ hflow =>
          rw [hflow] at hhalting
          cases hhalting
      · cases hstep

/-- At boot the first shell is process 1 of terminal 0. -/
theorem bootRace_haltInv (hshell : ShellLoads disk) (pw : PowerOn) (fr : Frame) :
    HaltInv disk (bootRace disk pw fr) := by
  obtain ⟨hprocs, hterm, hflag⟩ : (bootRace disk pw fr).procs =
      startProcess 0 fr .entry (shellArgs disk .entry) 0 (initialProcs pw) ∧
      (bootRace disk pw fr).term = 0 ∧ (bootRace disk pw fr).kernel.interruptFlag = true := by
    have hboot := boot_kernel hshell pw fr
    exact ⟨congrArg Kernel.procs hboot, congrArg Kernel.schedTerm hboot,
      congrArg Kernel.interruptFlag hboot⟩
  have hstatus : ∀ t, (bootRace disk pw fr).procs.status t = if t = 0 then 1 else 0 := by
    intro t
    rw [hprocs, startProcess_eq]
    rfl
  constructor
  · intro p
    rw [hprocs]
    show _ = Function.update (fun pid => (pw.pcbs pid).frame) 1 (fr.esp, fr.ebp) p
    by_cases hp : p = 1
    · rw [hp, startProcess_pcbs_self 0 fr .entry (shellArgs disk .entry) 0, Function.update_self]
      rfl
    · rw [startProcess_pcbs_of_ne hp, Function.update_of_ne hp]
      rfl
  · exact fun _ _ => Or.inl rfl
  · refine .user rfl hflag ⟨?_, ?_, ?_⟩
    · intro t ht
      obtain rfl : t = 0 := Classical.byContradiction fun h => ht (by rw [hstatus, if_neg h])
      have hpath : OwnPath (bootRace disk pw fr).procs
          (Function.update (bootRace disk pw fr).given 1 0) 0 [0 + 1] :=
        ownPath_base (i := 0) (by decide) rfl hprocs
      have hgiven : Function.update (bootRace disk pw fr).given 1 0 = (bootRace disk pw fr).given :=
        Function.update_eq_self_iff.mpr rfl
      rw [hgiven] at hpath
      exact ⟨_, hpath⟩
    · intro t c hc
      cases hc
    · rw [hterm, hstatus]
      decide

/-! ## Runs -/

instance (m : HaltRace) : ∀ e, Decidable (sparesHalts m e)
  | .tick _ _ _ => inferInstanceAs (Decidable (_ ∧ (_ → _)))
  | .halt _ _ =>
    -- the slots below a pid are finitely many
    decidable_of_iff (m.active = m.procs.basePid m.term →
        ∀ i, i < m.active - 1 → m.procs.slotUsed i = true)
      ⟨fun h heq i hi => h heq i (by omega), fun h heq i hi => h heq i (by omega)⟩
  | .execute _ _ => inferInstanceAs (Decidable True)
  | .statement => inferInstanceAs (Decidable True)

/-- **No pid is reused too early along the runs that spare the halts.**  With an executable shell in
    the file system, from boot, by any interleaving of the statements of `execute` and `halt` with
    ticks: if no tick falls between the `sti` of a halt and its jump, each terminal that starts
    finds a free pid and no base shell halts with a free slot below its own, then in every state no
    other terminal has been given the pid of an open halt, and a halt about to jump finds the stack
    registers that its parent's `execute` saved. -/
theorem pid_not_reused (disk : Disk) (hshell : ShellLoads disk) (pw : PowerOn) (fr : Frame)
    (events : List HaltEvent)
    (hspares : Along (haltRaceStep disk) sparesHalts (bootRace disk pw fr) events) :
    Throughout (haltRaceStep disk) HaltSafe (bootRace disk pw fr) events := by
  refine throughout_mono (fun _ h => HaltInv.safe h) (throughout_of_along ?_
    (bootRace_haltInv hshell pw fr) hspares)
  intro m e m' h hgood hstep
  exact h.step hshell hgood hstep

/-- An `execute` on terminal 0 with these registers, and the halt of its process up to the jump. -/
def executeAndHalt (esp ebp : Nat) : List HaltEvent :=
  .execute (some shellLine) { blankFrame with esp := esp, ebp := ebp } ::
    List.replicate 7 .statement ++ .halt 0 blankFrame :: List.replicate 7 .statement

/-- The whole halt, and a tick after it. -/
theorem pid_not_reused_at_rest :
    Throughout (haltRaceStep smallDisk) HaltSafe (bootRace smallDisk blankMemory blankFrame)
      (executeAndHalt 1 2 ++ [.statement, .tick 0 0 blankFrame]) :=
  pid_not_reused smallDisk smallDisk_shellLoads blankMemory blankFrame _ (by decide +kernel)

/-- Two ticks start terminals 1 and 2. -/
def startTerminals : List HaltEvent :=
  .tick 0 0 blankFrame :: List.replicate 7 .statement ++
    .tick 0 0 blankFrame :: List.replicate 7 .statement ++ [.tick 0 0 blankFrame]

/-- **What a tick into the window does.**  In any state in which a halt is about to jump and its pid
    is the lowest free one: if the next terminal runs its program and that executes a shell, this
    is given the pid, and the halt is going to load the stack registers that this `execute` saves. -/
theorem window_reused (hshell : ShellLoads disk) (caller : ShellCaller) {c : HaltCall}
    (hflow : m.flow m.term = .halting c [.jump]) (hflag : m.kernel.interruptFlag = true)
    (hstatus : m.procs.status (nextTerm m.term) ≠ 0) (hnext : m.flow (nextTerm m.term) = .user)
    {i : Nat} (hi : firstFree m.procs.slotUsed 0 maxPcbs = some i) (hpid : c.pid = i + 1)
    (esp ebp : Nat) (fr fr' : Frame) :
    ∃ m', run (haltRaceStep disk) m [.tick esp ebp fr,
        .execute (some (shellCommand disk caller)) fr', .statement, .statement, .statement, .statement] =
          some m' ∧
      m'.flow m.term = .halting c [.jump] ∧ m'.given c.pid = nextTerm m.term ∧
      (m'.procs.pcbs c.pid).frame = (fr'.esp, fr'.ebp) := by
  obtain ⟨m₁, hm₁⟩ : ∃ m₁, m₁ = m.schedule disk esp ebp fr := ⟨_, rfl⟩
  have htick : haltRaceStep disk m (.tick esp ebp fr) = some m₁ := by
    simp only [haltRaceStep, hflow, hflag, if_true]
    rw [hm₁]
  have hsched : m.schedule disk esp ebp fr =
      { m with kernel := { m.kernel with
          schedTerm := nextTerm m.term
          con := mapScreen (nextTerm m.term) m.kernel.visibleTerm m.kernel.con
          procs := switchContext m.term (nextTerm m.term) esp ebp m.procs } } := if_neg hstatus
  rw [hsched] at hm₁
  have hterm : m₁.term = nextTerm m.term := by
    rw [hm₁]
    rfl
  have hflow₁ : m₁.flow = m.flow := by rw [hm₁]
  have hi₁ : firstFree m₁.procs.slotUsed 0 maxPcbs = some i := by
    rw [hm₁]
    show firstFree (switchContext m.term (nextTerm m.term) esp ebp m.procs).slotUsed 0 maxPcbs = _
    rw [switchContext_eq]
    exact hi
  obtain ⟨prog, hloads, hcall⟩ := callExecute_shell hshell caller .syscall fr' hi₁
  have hexecute : haltRaceStep disk m₁ (.execute (some (shellCommand disk caller)) fr') =
      some (HaltRace.claim { m₁ with kernel := cli m₁.kernel } .syscall fr' prog i) := by
    simp only [haltRaceStep, hterm, hflow₁, hnext, hcall]
  obtain ⟨m₂, hm₂⟩ : ∃ m₂, m₂ =
      HaltRace.claim { m₁ with kernel := cli m₁.kernel } .syscall fr' prog i := ⟨_, rfl⟩
  rw [← hm₂] at hexecute
  have hterm₂ : m₂.term = nextTerm m.term := by
    rw [hm₂]
    exact hterm
  have hflow₂ : m₂.flow m₂.term =
      .starting { pid := i + 1, site := .syscall, fr := fr', prog := prog } execBody := by
    rw [hm₂]
    exact if_pos rfl
  obtain ⟨m', hrun, hkernel, -, hother, hgiven⟩ :=
    run_starting (c := { pid := i + 1, site := .syscall, fr := fr', prog := prog }) hloads
      (execBody.take 4) (execBody.drop 4) (by decide) hflow₂
  refine ⟨m', ?_, ?_, ?_, ?_⟩
  · show (haltRaceStep disk m _).bind _ = _
    rw [htick]
    show (haltRaceStep disk m₁ _).bind _ = _
    rw [hexecute]
    exact hrun []
  · have hne : m.term ≠ m₂.term := fun heq => nextTerm_ne m.term (hterm₂.symm.trans heq.symm)
    have hkept : m₂.flow m.term = m₁.flow m.term := by
      rw [hm₂]
      exact if_neg (hterm.symm ▸ (nextTerm_ne m.term).symm)
    rw [hother _ hne, hkept, hflow₁]
    exact hflow
  · rw [hgiven, hm₂, hpid, ← hterm]
    exact Function.update_self _ _ _
  · rw [hpid]
    show (m'.kernel.procs.pcbs (i + 1)).frame = _
    rw [hkernel]
    exact (ExecCall.saveFrame_frame (s := m₂.term) _ (i + 1)).trans (Function.update_self _ _ _)

/-- Terminal 0 is about to jump and terminal 1 runs its program: what the reuse of pid 4 needs of the
    state, and the stack registers that the halting process has saved. -/
def jumpWindow (m : HaltRace) : Option (Bool × Nat × Nat) :=
  match m.flow 0, m.flow 1 with
  | .halting c [.jump], .user =>
    some (decide (m.term = 0) && m.kernel.interruptFlag && decide (m.procs.status 1 ≠ 0) &&
      decide (firstFree m.procs.slotUsed 0 maxPcbs = some 3) && decide (c.pid = 4), c.saved)
  | _, _ => none

/-- Process 4 of terminal 0 halts; a tick falls between its `sti` and its jump, and the shell of
    terminal 1 executes a shell, which is process 4.  The halt is going to load the stack registers
    3 and 4, which that `execute` has saved, and not its parent's 1 and 2. -/
theorem pid_reused_before_jump :
    let events : List HaltEvent := startTerminals ++ executeAndHalt 1 2 ++
      [.tick 0 0 blankFrame,
        .execute (some shellLine) { blankFrame with esp := 3, ebp := 4 },
        .statement, .statement, .statement, .statement]
    ¬ Throughout (haltRaceStep smallDisk) HaltSafe (bootRace smallDisk blankMemory blankFrame)
        events ∧
      ∃ m c, run (haltRaceStep smallDisk) (bootRace smallDisk blankMemory blankFrame) events =
          some m ∧
        m.flow 0 = .halting c [.jump] ∧ c.saved = (1, 2) ∧
        (m.procs.pcbs c.pid).frame = (3, 4) ∧ m.given c.pid = 1 := by
  intro events
  -- the state before the tick
  have hbefore : (run (haltRaceStep smallDisk) (bootRace smallDisk blankMemory blankFrame)
      (startTerminals ++ executeAndHalt 1 2)).map jumpWindow = some (some (true, (1, 2))) := by
    decide +kernel
  obtain ⟨m, hm, hfields⟩ := Option.map_eq_some_iff.mp hbefore
  unfold jumpWindow at hfields
  split at hfields
  · rename_i c hflow hnext
    obtain ⟨hstate, hsaved⟩ := Prod.mk.inj (Option.some.inj hfields)
    simp only [Bool.and_eq_true, decide_eq_true_eq] at hstate
    obtain ⟨⟨⟨⟨hterm, hflag⟩, hstatus⟩, hfree⟩, hpid⟩ := hstate
    rw [← hterm] at hflow
    have hone : nextTerm m.term = 1 := by
      rw [hterm]
      rfl
    obtain ⟨m', hrun, hflow', hgiven, hframe⟩ := window_reused smallDisk_shellLoads .entry hflow hflag
      (hone.symm ▸ hstatus) (hone.symm ▸ hnext) hfree hpid 0 0 blankFrame
      { blankFrame with esp := 3, ebp := 4 }
    rw [hterm] at hflow'
    rw [hone] at hgiven
    have hall : run (haltRaceStep smallDisk) (bootRace smallDisk blankMemory blankFrame) events =
        some m' := by
      rw [run_append, hm]
      exact hrun
    refine ⟨fun h => ?_, m', c, hall, hflow', hsaved, hframe, hgiven⟩
    have heq := (throughout_last h hall).frames 0 c hflow'
    rw [hsaved, hframe] at heq
    cases heq
  · cases hfields

end ByteVerse
