/-
  Ctrl+C, which `keyboard_handler` answers with `halt(0)`.

  The handler runs in an interrupt, on top of whichever process is scheduled, and `halt` works on the
  active process of `sched_term`.  What the user is looking at is `visible_term`.  So the key ends the
  right process when the two are the same, and otherwise one on a terminal that is not even shown.

  The machine of `Machine.lean` gets two more kinds of events here: keys, and the running process's
  calls on its descriptors.  In the runs that keep the process table consistent `ctrlC_iff` says
  exactly which Ctrl+C events do what they should.
-/
import ByteVerse.ProcessTable
import ByteVerse.DescriptorTable
import ByteVerse.Reader

set_option linter.unusedVariables false

namespace ByteVerse

open SlotTable Run ParentPath

/-! ## Keys and calls -/

inductive KeyedEvent
  | process (e : Event)
  /-- The running process makes a call on its descriptors. -/
  | call (c : FdCall)
  /-- A keyboard interrupt; `fr` is for the shell that `halt` may execute. -/
  | key (scanCode : UInt8) (fr : Frame)

/-- The machine with another kernel, the processes being the same. -/
def Machine.withKernel (m : Machine) (k : Kernel) : Machine := { m with kernel := k }

/-- The machine as the `switch` of `keyboard_handler` and the branches behind it leave it. -/
def Machine.keyed (m : Machine) (scanCode : UInt8) : Machine :=
  m.withKernel { m.kernel with
    input := (keyboardInput m.kernel.visibleTerm m.kernel.input scanCode).1 }

/-- What the key asks for. -/
def Machine.asks (m : Machine) (scanCode : UInt8) : KeyAction :=
  (keyboardInput m.kernel.visibleTerm m.kernel.input scanCode).2

def keyedStep (disk : Disk) (m : Machine) : KeyedEvent → Option Machine
  | .process e => step disk m e
  | .call c =>
    if m.ctl m.term = .running then (fdStep disk.img m.kernel c).map m.withKernel else none
  | .key scanCode fr =>
    let keyed := m.keyed scanCode
    match keyAction (m.asks scanCode) keyed.kernel with
    | some k => some (keyed.withKernel k)
    -- `halt` in the process that the interrupt has interrupted
    | none => step disk keyed (.halt 0 fr)

/-- A key is handled by `keyboard_handler`. -/
theorem keyedStep_handler {disk : Disk} {m m' : Machine} {scanCode : UInt8} {fr : Frame}
    (h : keyedStep disk m (.key scanCode fr) = some m') :
    m'.kernel = keyboardHandler disk fr scanCode m.kernel := by
  have hhandler : keyboardHandler disk fr scanCode m.kernel =
      match keyAction (m.asks scanCode) (m.keyed scanCode).kernel with
      | some k => k
      | none => (halt disk fr 0 (m.keyed scanCode).kernel).1 := rfl
  rw [hhandler]
  simp only [keyedStep] at h
  split at h
  · obtain rfl := Option.some.inj h
    rfl
  · simp only [step] at h
    split at h
    · split at h
      · rename_i heq
        cases h
        rw [heq]
      · rename_i heq
        cases h
        rw [heq]
        rfl
    · cases h

/-! ## What Ctrl+C should do -/

/-- `pid` is on the path from the active process of terminal `t` to its base process. -/
def Procs.belongs (ps : Procs) (t : Fin 3) (pid : Nat) : Prop :=
  ps.status t ≠ 0 ∧ ∃ l, Follows ps.parent (ps.activePid t) (ps.basePid t) l ∧ pid ∈ l

/-- Terminal `t` and its processes are as before. -/
structure Untouched (m m' : Machine) (t : Fin 3) : Prop where
  active : m'.procs.activePid t = m.procs.activePid t
  live : ∀ p, m.procs.belongs t p → (m'.procs.live p ↔ m.procs.live p)
  pcbs : ∀ p, m.procs.belongs t p → m'.procs.pcbs p = m.procs.pcbs p
  births : ∀ p, m.procs.belongs t p → m'.births p = m.births p

/-- The active process of terminal `v` is gone.  Its parent is the active one now, or a new shell if
    it was the base process; and that process runs. -/
structure EndsProcess (disk : Disk) (m m' : Machine) (v : Fin 3) : Prop where
  child : m.procs.activePid v ≠ m.procs.basePid v →
    ¬ m'.procs.live (m.procs.activePid v) ∧
      m'.procs.activePid v = m.procs.parent (m.procs.activePid v)
  base : m.procs.activePid v = m.procs.basePid v →
    m'.procs.live (m'.procs.activePid v) ∧
      (m'.births (m'.procs.activePid v)).serial = m.executed + 1 ∧
      (m'.births (m'.procs.activePid v)).args = shellArgs disk .halt ∧
      (m'.procs.activePid v = m.procs.activePid v ∨ ¬ m'.procs.live (m.procs.activePid v))
  running : m'.ctl v = .running

/-- C pressed with Ctrl down. -/
def isCtrlC (m : Machine) : KeyedEvent → Prop
  | .key scanCode _ => scanCode = cKeyPress ∧ m.kernel.input.ctrlFlag = 1
  | _ => False

/-- A Ctrl+C ends the process of the visible terminal, if that has been started, and touches no other
    terminal. -/
def CtrlCRight (disk : Disk) (m : Machine) (e : KeyedEvent) : Prop :=
  isCtrlC m e → ∀ m', keyedStep disk m e = some m' →
    (m.procs.status m.kernel.visibleTerm ≠ 0 → EndsProcess disk m m' m.kernel.visibleTerm) ∧
      ∀ t, t ≠ m.kernel.visibleTerm → Untouched m m' t

/-- Neither a pending function key swallows the C, nor is it typed because Shift is held. -/
def ReachesHalt (inp : Input) : Prop :=
  ¬ (inp.altFlag ≠ 0 ∧ inp.fKeyPressed ≠ 0) ∧ (inp.shiftFlag ≠ 1 ∨ ¬ inp.bufferIndex < bufferLimit)

instance (inp : Input) : Decidable (ReachesHalt inp) := inferInstanceAs (Decidable (_ ∧ _))

/-- The condition: the scheduled terminal is the visible one, when Ctrl+C comes to `halt` at all. -/
def endsVisible (m : Machine) (e : KeyedEvent) : Prop :=
  isCtrlC m e →
    if ReachesHalt m.kernel.input then m.term = m.kernel.visibleTerm
    else m.procs.status m.kernel.visibleTerm = 0

/-- The steps that keep the process table consistent; a Ctrl+C is a `halt`. -/
def keepsTableKeyed (disk : Disk) (m : Machine) : KeyedEvent → Prop
  | .process e => keepsTable disk m e
  | .call _ => True
  | .key scanCode fr => m.asks scanCode = .halt → keepsTable disk m (.halt 0 fr)

instance (m : Machine) : ∀ e, Decidable (isCtrlC m e)
  | .key _ _ => inferInstanceAs (Decidable (_ ∧ _))
  | .process _ => isFalse id
  | .call _ => isFalse id

instance (m : Machine) (e : KeyedEvent) : Decidable (endsVisible m e) :=
  inferInstanceAs (Decidable (_ → _))

/-! ## What the C key asks for -/

theorem ctrlC_asks {m : Machine} (hctrl : m.kernel.input.ctrlFlag = 1) :
    m.asks cKeyPress = .halt ↔ ReachesHalt m.kernel.input := by
  have hkey : keyboardInput m.kernel.visibleTerm m.kernel.input cKeyPress = _ :=
    keyboardInput_rest m.kernel.visibleTerm (by decide)
  rw [Machine.asks, hkey]
  by_cases hchord : m.kernel.input.altFlag ≠ 0 ∧ m.kernel.input.fKeyPressed ≠ 0
  · have hctrl0 : m.kernel.input.ctrlFlag ≠ 0 := by
      rw [hctrl]
      decide
    rw [if_pos (show (pressModifier m.kernel.input cKeyPress).modifiers.Chord from
      ⟨hctrl0, hchord⟩)]
    refine iff_of_false (show chordAction cKeyPress ≠ .halt by decide) ?_
    rintro ⟨hnot, -⟩
    exact hnot hchord
  rw [if_neg (show ¬ (pressModifier m.kernel.input cKeyPress).modifiers.Chord from
    fun h => hchord h.2)]
  by_cases hroom : m.kernel.input.bufferIndex < bufferLimit
  · have hline : lineKey m.kernel.visibleTerm (pressModifier m.kernel.input cKeyPress) cKeyPress =
        typeKey m.kernel.input cKeyPress := if_pos hroom
    rw [hline]
    by_cases hshift : m.kernel.input.shiftFlag = 1
    · have htype : (typeKey m.kernel.input cKeyPress).2 = .echo
          [if ~~~m.kernel.input.capsFlag = 0 then scanToAscii cKeyPress
            else scanToAsciiCaps cKeyPress] := congrArg Prod.snd (if_pos hshift)
      rw [htype]
      refine iff_of_false nofun ?_
      rintro ⟨-, hnot | hnot⟩
      · exact hnot hshift
      · exact hnot hroom
    · have htype : typeKey m.kernel.input cKeyPress =
          ({ m.kernel.input with lineFlag := m.kernel.input.lineFlag + 1 }, .halt) :=
        (if_neg hshift).trans (if_pos hctrl)
      rw [htype]
      exact iff_of_true rfl ⟨hchord, Or.inl hshift⟩
  · have hline : lineKey m.kernel.visibleTerm (pressModifier m.kernel.input cKeyPress) cKeyPress =
        fullKey m.kernel.input cKeyPress := if_neg hroom
    have hfull : fullKey m.kernel.input cKeyPress = (m.kernel.input, .halt) := if_pos hctrl
    rw [hline, hfull]
    exact iff_of_true rfl ⟨hchord, Or.inr hroom⟩

/-- The other calls of the handler leave the processes alone. -/
theorem keyAction_procs {action : KeyAction} {k k' : Kernel} (h : keyAction action k = some k') :
    k'.procs = k.procs ∧ k'.schedTerm = k.schedTerm := by
  cases action with
  | nothing =>
    cases h
    exact ⟨rfl, rfl⟩
  | echo cs =>
    cases h
    exact ⟨rfl, rfl⟩
  | cleark =>
    cases h
    exact ⟨rfl, rfl⟩
  | switchTerminal n =>
    obtain rfl := Option.some.inj h
    refine ⟨?_, (switchTerminal_input n k).1⟩
    unfold switchTerminal
    simp only
    split <;> rfl
  | halt => cases h

theorem keyAction_eq_none {action : KeyAction} {k : Kernel} :
    keyAction action k = none ↔ action = .halt := by
  cases action <;> simp [keyAction]

/-! ## What calls leave alone -/

/-- **What a call does to the process table**: the descriptors of the caller, and `file_pcb`. -/
theorem fdStep_procs {img : Image} {k k' : Kernel} {c : FdCall} (h : fdStep img k c = some k') :
    (∃ f, k'.procs = { k.procs.setPcb (k.procs.runningPid k.schedTerm)
      (pcbAfter img (k.procs.running k.schedTerm) c) with filePcb := f }) ∧
      k'.schedTerm = k.schedTerm := by
  cases c with
  | openFile filename =>
    obtain rfl := Option.some.inj h
    exact ⟨⟨_, rfl⟩, rfl⟩
  | close fd =>
    obtain rfl := Option.some.inj h
    exact ⟨⟨_, rfl⟩, rfl⟩
  | read fd nullBuf nbytes =>
    obtain rfl := Option.some.inj h
    refine ⟨⟨_, sysRead_procs img fd nullBuf nbytes k⟩, sysRead_schedTerm img fd nullBuf nbytes k⟩
  | write fd buf nbytes =>
    obtain rfl := Option.some.inj h
    have hself := setPcb_self k.procs (k.procs.runningPid k.schedTerm)
    exact ⟨⟨_, (sysWrite_procs fd buf nbytes k).trans (congrArg (updateFilePcb _) hself.symm)⟩,
      sysWrite_schedTerm fd buf nbytes k⟩

/-! ## The invariant -/

variable {path : Fin 3 → List Nat} {m m' : Machine}

/-- The invariant of consistent tables depends on what `execute` stored in the PCBs, and not on the
    descriptors. -/
theorem TableInv.same (h : TableInv m path) (hterm : m'.term = m.term)
    (hstatus : m'.procs.status = m.procs.status) (hactive : m'.procs.activePid = m.procs.activePid)
    (hbase : m'.procs.basePid = m.procs.basePid) (hpids : m'.procs.pidArr = m.procs.pidArr)
    (horigin : ∀ p, (m'.procs.pcbs p).origin = (m.procs.pcbs p).origin)
    (hctl : m'.ctl = m.ctl) (hbirths : m'.births = m.births) : TableInv m' path := by
  have hparent : ∀ p, m'.procs.parent p = m.procs.parent p := fun p =>
    congrArg Origin.parentPid (horigin p)
  have hlive : ∀ p, m'.procs.live p ↔ m.procs.live p := fun p => by
    simp only [Procs.live, Procs.slotUsed, hpids]
  refine ⟨h.paths.congr hstatus hactive hbase hpids hparent, fun t p hp hb => ?_, fun p hp => ?_,
    fun t p hp hb => ?_, fun t => hctl ▸ h.running t, ?_⟩
  · rw [hbase] at hb
    rw [ExecutedByParent, hparent, hlive, hbirths]
    exact h.executed t p hp hb
  · exact (congrArg Origin.pid (horigin p)).trans (h.pid p ((hlive p).mp hp))
  · rw [hbase] at hb
    exact (congrArg Origin.retSite (horigin p)).trans (h.site t p hp hb)
  · rw [hterm, hstatus]
    exact h.started

/-- No process is recorded with a serial number still to come. -/
def SerialsBelow (m : Machine) : Prop := ∀ p, (m.births p).serial ≤ m.executed

theorem SerialsBelow.bear (h : SerialsBelow m) {pid parent : Nat} {args : List UInt8}
    (hbirths : m'.births = m.bear pid parent args) (hexecuted : m'.executed = m.executed + 1) :
    SerialsBelow m' := by
  intro p
  rw [hbirths, hexecuted]
  by_cases hp : p = pid
  · rw [hp, Machine.bear, Function.update_self]
  · rw [bear_of_ne hp]
    exact Nat.le_succ_of_le (h p)

theorem SerialsBelow.step {disk : Disk} (h : SerialsBelow m) {e : Event}
    (hstep : step disk m e = some m') : SerialsBelow m' := by
  cases e with
  | execute command fr =>
    simp only [ByteVerse.step] at hstep
    split at hstep
    · split at hstep
      · cases hstep
        exact h.bear rfl rfl
      · cases hstep
        exact h
    · cases hstep
  | halt status fr =>
    simp only [ByteVerse.step] at hstep
    split at hstep
    · split at hstep
      · cases hstep
        exact h.bear rfl rfl
      · cases hstep
        exact h
    · cases hstep
  | resumeHalt =>
    simp only [ByteVerse.step] at hstep
    split at hstep
    · cases hstep
      exact h
    · cases hstep
  | tick esp ebp fr =>
    simp only [ByteVerse.step] at hstep
    split at hstep
    · cases hstep
    · split at hstep
      · cases hstep
        exact h
      · cases hstep
        exact h.bear rfl rfl
      · cases hstep
        exact h

/-- The invariant of the runs that keep the table. -/
structure KeyedInv (m : Machine) : Prop where
  table : ∃ path, TableInv m path
  serials : SerialsBelow m

/-! ## What a `halt` that keeps the table does -/

/-- The end of `halt` leaves the PCBs other than the caller's. -/
theorem haltTail_pcbs_of_ne {s : Fin 3} {pid p : Nat} {ps : Procs} (hp : p ≠ ps.activePid s) :
    (haltTail s pid ps).pcbs p = ps.pcbs p := by
  obtain ⟨pcb, -, hclose⟩ := closeAll_same s ps
  show (closeAll s ps).pcbs p = _
  rw [hclose]
  exact Function.update_of_ne hp _ _

/-- The processes of a terminal, in a consistent table. -/
theorem TableInv.mem_path (h : TableInv m path) {t : Fin 3} {p : Nat}
    (hp : m.procs.belongs t p) : p ∈ path t := by
  obtain ⟨hstatus, l, hfollows, hmem⟩ := hp
  rwa [hfollows.unique (h.paths.follows t hstatus)] at hmem

/-- A process of another terminal than the scheduled one. -/
theorem TableInv.belongs_ne (h : TableInv m path) {t : Fin 3} (ht : t ≠ m.term) {p : Nat}
    (hp : m.procs.belongs t p) : p ≠ m.active := by
  rintro rfl
  exact h.paths.disjoint t m.term ht _ (h.mem_path hp) h.active_mem

theorem TableInv.active_belongs (h : TableInv m path) : m.procs.belongs m.term m.active :=
  ⟨h.started, path m.term, h.paths.follows m.term h.started, h.active_mem⟩

/-- The parent of a process that is not a base shell is another process. -/
theorem TableInv.parent_ne (h : TableInv m path) (hbase : m.active ≠ m.procs.basePid m.term) :
    m.procs.parent m.active ≠ m.active := by
  intro heq
  obtain ⟨l, hl, hrest⟩ := (h.paths.follows m.term h.started).tail hbase
  have hnodup := (h.paths.follows m.term h.started).nodup
  rw [hl] at hnodup
  refine (List.nodup_cons.mp hnodup).1 ?_
  rw [show m.procs.parent (m.procs.activePid m.term) = m.procs.activePid m.term from heq] at hrest
  exact hrest.head_mem

/-- **A `halt` ends the process of the scheduled terminal** and touches no other terminal. -/
theorem TableInv.halt_right {disk : Disk} (hshell : ShellLoads disk) (h : TableInv m path)
    {status : UInt8} {fr : Frame} (hkeeps : keepsTable disk m (.halt status fr))
    (hstep : step disk m (.halt status fr) = some m') :
    EndsProcess disk m m' m.term ∧ ∀ t, t ≠ m.term → Untouched m m' t := by
  have hrunning : ∀ t, m'.ctl t = .running := by
    obtain ⟨path', h'⟩ := h.good_step hshell hkeeps hstep
    exact h'.running
  have hexecuted : ∀ pid args, m'.births = m.bear pid m.active args →
      (m'.births pid).serial = m.executed + 1 ∧ (m'.births pid).args = args := by
    intro pid args hbirths
    rw [hbirths, Machine.bear, Function.update_self]
    exact ⟨rfl, rfl⟩
  cases step_cases hshell hstep with
  | restarted _ _ i _ hbase hi hterm hprocs hctl hbirths =>
    have hactive : m.active = m.procs.basePid m.term := (h.pid _ h.active_live).symm.trans hbase
    have hpid : i + 1 = m.active := by
      rcases h.restart_pid hi with heq | ⟨hlt, hfree⟩
      · exact heq
      · rw [hkeeps hactive i hlt] at hfree
        cases hfree
    obtain ⟨-, hi6, -, -⟩ := firstFree_eq_some_iff.mp hi
    have hlive : ∀ p, m'.procs.live p ↔ m.procs.live p := by
      intro p
      rw [hprocs, live_startProcess hi6, live_freePid h.active_live.1, hpid]
      constructor
      · rintro (⟨hl, -⟩ | hp)
        · exact hl
        · exact hp ▸ h.active_live
      · intro hl
        by_cases hp : p = m.active
        · exact Or.inr hp
        · exact Or.inl ⟨hl, hp⟩
    have hsame : m'.procs.activePid = Function.update m.procs.activePid m.term (i + 1) := by
      rw [hprocs, startProcess_eq]
      rfl
    refine ⟨⟨fun hne => absurd hactive hne, fun _ => ?_, hrunning m.term⟩, fun t ht => ⟨?_, ?_, ?_, ?_⟩⟩
    · rw [hsame, Function.update_self]
      obtain ⟨hserial, hargs⟩ := hexecuted _ _ hbirths
      exact ⟨(hlive _).mpr (hpid ▸ h.active_live), hserial, hargs, Or.inl hpid⟩
    · rw [hsame, Function.update_of_ne ht]
    · intro p _
      exact hlive p
    · intro p hp
      rw [hprocs, startProcess_pcbs_of_ne (hpid ▸ h.belongs_ne ht hp)]
      rfl
    · intro p hp
      rw [hbirths, bear_of_ne (hpid ▸ h.belongs_ne ht hp)]
  | returned _ _ _ hbase hterm hprocs hctl hbirths =>
    have hnotbase := h.returned_not_base hbase
    have hsame : m'.procs.activePid =
        Function.update m.procs.activePid m.term (m.procs.parent m.active) := by
      obtain ⟨pcbs, -, htail⟩ := haltTail_eq m.term m.active (freePid m.active m.procs)
      rw [hprocs, htail]
      rfl
    have hlive : ∀ p, m'.procs.live p ↔ m.procs.live p ∧ p ≠ m.active := by
      intro p
      obtain ⟨pcbs, -, htail⟩ := haltTail_eq m.term m.active (freePid m.active m.procs)
      rw [hprocs, htail]
      exact live_freePid h.active_live.1 p
    refine ⟨⟨fun _ => ⟨fun hl => ((hlive _).mp hl).2 rfl, ?_⟩, fun heq => absurd heq hnotbase,
      hrunning m.term⟩, fun t ht => ⟨?_, ?_, ?_, ?_⟩⟩
    · rw [hsame, Function.update_self]
      rfl
    · rw [hsame, Function.update_of_ne ht]
    · intro p hp
      rw [hlive]
      exact and_iff_left (h.belongs_ne ht hp)
    · intro p hp
      have hne : p ≠ (freePid m.active m.procs).activePid m.term := h.belongs_ne ht hp
      rw [hprocs, haltTail_pcbs_of_ne hne]
      rfl
    · intro p _
      rw [hbirths]

/-- It does touch the scheduled terminal. -/
theorem TableInv.halt_touches {disk : Disk} (hshell : ShellLoads disk) (h : TableInv m path)
    (hserials : SerialsBelow m) {status : UInt8} {fr : Frame}
    (hkeeps : keepsTable disk m (.halt status fr))
    (hstep : step disk m (.halt status fr) = some m') : ¬ Untouched m m' m.term := by
  intro huntouched
  obtain ⟨hends, -⟩ := h.halt_right hshell hkeeps hstep
  have hactive := huntouched.active
  by_cases hbase : m.active = m.procs.basePid m.term
  · obtain ⟨-, hserial, -⟩ := hends.base hbase
    rw [hactive] at hserial
    have hnew : (m'.births m.active).serial = m.executed + 1 := hserial
    have hbelow := hserials m.active
    rw [huntouched.births _ h.active_belongs] at hnew
    omega
  · obtain ⟨-, hparent⟩ := hends.child hbase
    exact h.parent_ne hbase (hparent.symm.trans hactive)

/-! ## Steps -/

theorem KeyedInv.keyed (h : KeyedInv m) (scanCode : UInt8) : KeyedInv (m.keyed scanCode) := by
  obtain ⟨path, htable⟩ := h.table
  exact ⟨⟨path, htable.same rfl rfl rfl rfl rfl (fun _ => rfl) rfl rfl⟩, h.serials⟩

/-- A key that does not halt leaves the machine's processes. -/
theorem keyed_of_action {scanCode : UInt8} {k : Kernel}
    (hk : keyAction (m.asks scanCode) (m.keyed scanCode).kernel = some k) :
    ((m.keyed scanCode).withKernel k).procs = m.procs ∧
      ((m.keyed scanCode).withKernel k).term = m.term := by
  obtain ⟨hprocs, hterm⟩ := keyAction_procs hk
  exact ⟨hprocs, hterm⟩

/-- **The step lemma.** -/
theorem KeyedInv.step {disk : Disk} (hshell : ShellLoads disk) (h : KeyedInv m) {e : KeyedEvent}
    (hkeeps : keepsTableKeyed disk m e) (hstep : keyedStep disk m e = some m') : KeyedInv m' := by
  obtain ⟨path, htable⟩ := h.table
  cases e with
  | process e => exact ⟨htable.good_step hshell hkeeps hstep, h.serials.step hstep⟩
  | call c =>
    simp only [keyedStep] at hstep
    split at hstep
    · obtain ⟨k, hk, rfl⟩ := Option.map_eq_some_iff.mp hstep
      obtain ⟨⟨f, hprocs⟩, hterm⟩ := fdStep_procs hk
      refine ⟨⟨path, htable.same hterm ?_ ?_ ?_ ?_ (fun p => ?_) rfl rfl⟩, h.serials⟩
      · exact (congrArg Procs.status hprocs).trans rfl
      · exact (congrArg Procs.activePid hprocs).trans rfl
      · exact (congrArg Procs.basePid hprocs).trans rfl
      · exact (congrArg Procs.pidArr hprocs).trans rfl
      · show (k.procs.pcbs p).origin = (m.kernel.procs.pcbs p).origin
        rw [hprocs]
        show (Function.update m.kernel.procs.pcbs _ _ p).origin = _
        by_cases hp : p = m.kernel.procs.runningPid m.kernel.schedTerm
        · rw [hp, Function.update_self]
          exact (pcbAfter_same disk.img _ c).origin_eq
        · rw [Function.update_of_ne hp]
    · cases hstep
  | key scanCode fr =>
    simp only [keyedStep] at hstep
    split at hstep
    · rename_i k hk
      obtain rfl := Option.some.inj hstep
      obtain ⟨hprocs, hterm⟩ := keyed_of_action hk
      refine ⟨⟨path, htable.same hterm ?_ ?_ ?_ ?_ (fun p => ?_) rfl rfl⟩, h.serials⟩
      · rw [hprocs]
      · rw [hprocs]
      · rw [hprocs]
      · rw [hprocs]
      · rw [hprocs]
    · rename_i hnone
      obtain ⟨path', htable'⟩ := (h.keyed scanCode).table
      have hkeyed : keepsTable disk (m.keyed scanCode) (.halt 0 fr) := hkeeps (keyAction_eq_none.mp hnone)
      exact ⟨htable'.good_step hshell hkeyed hstep, (h.keyed scanCode).serials.step hstep⟩

/-- **One Ctrl+C**, in a state with a consistent table. -/
theorem KeyedInv.ctrlC_iff {disk : Disk} (hshell : ShellLoads disk) (h : KeyedInv m) {e : KeyedEvent}
    (hkeeps : keepsTableKeyed disk m e) (hstep : keyedStep disk m e = some m') :
    CtrlCRight disk m e ↔ endsVisible m e := by
  refine imp_congr_right fun hctrlC => ?_
  cases e with
  | process | call => exact hctrlC.elim
  | key scanCode fr =>
    obtain ⟨hc, hctrl⟩ := hctrlC
    subst hc
    have hreaches := ctrlC_asks hctrl
    have hstep' := hstep
    simp only [keyedStep] at hstep
    split at hstep
    · -- the C is swallowed or typed, and every process goes on
      rename_i k hk
      obtain rfl := Option.some.inj hstep
      obtain ⟨hprocs, hterm⟩ := keyed_of_action hk
      have hnot : ¬ ReachesHalt m.kernel.input := by
        intro hr
        rw [hreaches.mpr hr] at hk
        cases hk
      rw [if_neg hnot]
      obtain ⟨path, htable⟩ := h.table
      constructor
      · intro hright
        by_contra hstarted
        obtain ⟨hends, -⟩ := hright _ hstep'
        have hends := hends hstarted
        by_cases hbase : m.procs.activePid m.kernel.visibleTerm =
            m.procs.basePid m.kernel.visibleTerm
        · obtain ⟨-, hserial, -⟩ := hends.base hbase
          have hbelow : (m.births (((m.keyed cKeyPress).withKernel k).procs.activePid
            m.kernel.visibleTerm)).serial ≤ m.executed := h.serials _
          have hnew : (m.births (((m.keyed cKeyPress).withKernel k).procs.activePid
            m.kernel.visibleTerm)).serial = m.executed + 1 := hserial
          omega
        · refine (hends.child hbase).1 ?_
          rw [hprocs]
          exact (htable.paths.active_live hstarted).1
      · intro hstopped m'' hm''
        obtain rfl := Option.some.inj (hstep'.symm.trans hm'')
        refine ⟨fun hstarted => absurd hstopped hstarted, fun t _ => ⟨?_, ?_, ?_, fun _ _ => rfl⟩⟩
        · rw [hprocs]
        · intro p _
          rw [hprocs]
        · intro p _
          rw [hprocs]
    · rename_i hnone
      have hhalt := keyAction_eq_none.mp hnone
      rw [if_pos (hreaches.mp hhalt)]
      obtain ⟨path, htable⟩ := (h.keyed cKeyPress).table
      have hkeyed : keepsTable disk (m.keyed cKeyPress) (.halt 0 fr) := hkeeps hhalt
      obtain ⟨hends, hothers⟩ := htable.halt_right hshell hkeyed hstep
      constructor
      · intro hright
        by_contra hne
        have huntouched := (hright _ hstep').2 m.term hne
        refine htable.halt_touches hshell (h.keyed cKeyPress).serials hkeyed hstep ?_
        exact ⟨huntouched.active, huntouched.live, huntouched.pcbs, huntouched.births⟩
      · intro hsame m'' hm''
        obtain rfl := Option.some.inj (hstep'.symm.trans hm'')
        refine ⟨fun _ => ?_, fun t ht => ?_⟩
        · rw [← hsame]
          exact ⟨hends.child, hends.base, hends.running⟩
        · obtain ⟨hactive, hlive, hpcbs, hbirths⟩ := hothers t (fun heq => ht (heq.trans hsame))
          exact ⟨hactive, hlive, hpcbs, hbirths⟩

/-! ## Runs -/

theorem bootMachine_keyedInv {disk : Disk} (hshell : ShellLoads disk) (pw : PowerOn) (fr : Frame) :
    KeyedInv (bootMachine disk pw fr) := by
  refine ⟨⟨_, bootMachine_tableInv hshell pw fr⟩, fun p => ?_⟩
  have hbirths : (bootMachine disk pw fr).births = Function.update
      (fun pid => { parent := 0, parentSerial := 0, serial := 0, args := (pw.pcbs pid).args }) 1
      { parent := 1, parentSerial := 0, serial := 1, args := shellArgs disk .entry } := rfl
  have hexecuted : (bootMachine disk pw fr).executed = 1 := rfl
  rw [hbirths, hexecuted]
  by_cases hp : p = 1
  · rw [hp, Function.update_self]
  · rw [Function.update_of_ne hp]
    exact Nat.zero_le 1

/-- **Ctrl+C.**  With an executable shell in the file system: in a run from boot, by any interleaving of
    keys, calls, executes, halts and ticks that keeps the process table consistent, every Ctrl+C ends
    the process that the user is looking at, and touches no other terminal, exactly when each of them
    comes while the visible terminal is the scheduled one and gets as far as `halt` (or the visible
    terminal has no process yet, and it does not). -/
theorem ctrlC_ends_visible_iff (disk : Disk) (hshell : ShellLoads disk) (pw : PowerOn) (fr : Frame)
    (events : List KeyedEvent)
    (hkeeps : Along (keyedStep disk) (keepsTableKeyed disk) (bootMachine disk pw fr) events) :
    Along (keyedStep disk) (CtrlCRight disk) (bootMachine disk pw fr) events ↔
      Along (keyedStep disk) endsVisible (bootMachine disk pw fr) events := by
  refine along_iff_of_along ?_ ?_ (bootMachine_keyedInv hshell pw fr) hkeeps
  · intro m e m' h hkeeps hstep
    exact h.step hshell hkeeps hstep
  · intro m e m' h hkeeps hstep
    exact h.ctrlC_iff hshell hkeeps hstep

/-- Ctrl+C on the first shell. -/
theorem ctrlC_restarts_first_shell :
    Along (keyedStep smallDisk) (CtrlCRight smallDisk) (bootMachine smallDisk blankMemory blankFrame)
      [.key 0x1D blankFrame, .key 0x2E blankFrame] := by
  have hactive : (keyedStep smallDisk (bootMachine smallDisk blankMemory blankFrame)
      (.key 0x1D blankFrame)).map Machine.active = some 1 := by
    decide +kernel
  have hkeeps : Along (keyedStep smallDisk) (keepsTableKeyed smallDisk)
      (bootMachine smallDisk blankMemory blankFrame)
      [.key 0x1D blankFrame, .key 0x2E blankFrame] := by
    intro m hm
    rw [hm] at hactive
    have hone : m.active = 1 := Option.some.inj hactive
    refine ⟨fun hhalt => absurd hhalt (by decide +kernel), fun m' _ => ⟨fun _ _ i hi => ?_, trivial⟩⟩
    omega
  exact (ctrlC_ends_visible_iff smallDisk smallDisk_shellLoads blankMemory blankFrame _ hkeeps).mpr
    (by decide +kernel)

/-- One tick after boot terminal 1 is scheduled and terminal 0 still visible: Ctrl+C restarts the
    shell that nobody looks at. -/
theorem ctrlC_kills_hidden_shell :
    ¬ Along (keyedStep smallDisk) (CtrlCRight smallDisk) (bootMachine smallDisk blankMemory blankFrame)
      [.process (.tick 0 0 blankFrame), .key 0x1D blankFrame, .key 0x2E blankFrame] := by
  intro h
  have hbefore : (run (keyedStep smallDisk) (bootMachine smallDisk blankMemory blankFrame)
      [.process (.tick 0 0 blankFrame), .key 0x1D blankFrame]).map
        (fun m => (m.kernel.visibleTerm, m.kernel.input.ctrlFlag, m.procs.status 0,
          m.procs.activePid 0, m.procs.basePid 0, m.executed)) = some (0, 1, 1, 1, 1, 2) := by
    decide +kernel
  have hafter : (run (keyedStep smallDisk) (bootMachine smallDisk blankMemory blankFrame)
      ([.process (.tick 0 0 blankFrame), .key 0x1D blankFrame] ++ [.key 0x2E blankFrame])).map
        (fun m => (m.births (m.procs.activePid 0)).serial) = some 1 := by
    decide +kernel
  obtain ⟨m, hm, hfields⟩ := Option.map_eq_some_iff.mp hbefore
  obtain ⟨m', hm', hserial⟩ := Option.map_eq_some_iff.mp hafter
  rw [run_append, hm] at hm'
  obtain ⟨m'', hstep, hlast⟩ := run_cons hm'
  obtain rfl := Option.some.inj hlast
  simp only [Prod.mk.injEq] at hfields
  obtain ⟨hvisible, hctrl, hstatus, hactive, hbase, hexecuted⟩ := hfields
  have hright := along_at h hm hstep ⟨rfl, hctrl⟩ _ hstep
  rw [hvisible, hstatus] at hright
  obtain ⟨-, hnew, -⟩ := (hright.1 (by decide)).base (hactive.trans hbase.symm)
  rw [hserial, hexecuted] at hnew
  cases hnew

end ByteVerse
