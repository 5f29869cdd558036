/-
  The pids that the kernel follows, over all runs of the machine.

  `scheduler` and `halt` take pids out of PCBs: of the active process, of its parent, of the process
  that an older `halt` was about.  All of them are pids of processes that `execute` has built at some
  time, and so between 1 and 6 — also in the runs in which the process table does not stay consistent,
  or in which a pid is claimed for a program that cannot be loaded.  What they are used for is the
  frame of the program's page, which is therefore never any other.
-/
import ByteVerse.Context
import ByteVerse.KeyboardHalt

set_option linter.unusedVariables false

namespace ByteVerse

open SlotTable Run

/-- The processes `built` have pids and PCBs, and what the PCBs name is built too.  A live pid need not
    be: `execute` may have claimed it and failed to load the program. -/
structure BuiltTable (ps : Procs) (built : Nat → Prop) : Prop where
  bound : ∀ p, built p → 1 ≤ p ∧ p ≤ maxPcbs
  pid : ∀ p, built p → (ps.pcbs p).pid = p
  parent : ∀ p, built p → built (ps.pcbs p).parentPid
  site : ∀ p currentPcb retVal, built p → (ps.pcbs p).retSite = .halt currentPcb retVal →
    built currentPcb

/-- The control flow can be lost on the scheduled terminal only, and nothing but that terminal can have
    an active pid that no process was built with. -/
structure BuiltInv (m : Machine) (built : Nat → Prop) : Prop where
  table : BuiltTable m.procs built
  active : ∀ t, m.procs.status t ≠ 0 → m.ctl t ≠ .lost → built (m.procs.activePid t)
  halting : ∀ t currentPcb retVal, m.ctl t = .halting currentPcb retVal → built currentPcb
  lost : ∀ t, m.ctl t = .lost → t = m.term
  started : m.procs.status m.term ≠ 0
  page : ∃ p, (1 ≤ p ∧ p ≤ maxPcbs) ∧ m.procs.pageDirectory32 = userFrame p

variable {ps ps' : Procs} {m m' : Machine} {built : Nat → Prop}

/-- A table with the same PCBs, descriptors and saved registers apart. -/
theorem BuiltTable.congr (h : BuiltTable ps built)
    (horigin : ∀ p, (ps'.pcbs p).origin = (ps.pcbs p).origin) : BuiltTable ps' built where
  bound := h.bound
  pid p hp := (congrArg Origin.pid (horigin p)).trans (h.pid p hp)
  parent p hp := by
    have hparent : (ps'.pcbs p).parentPid = (ps.pcbs p).parentPid :=
      congrArg Origin.parentPid (horigin p)
    rw [hparent]
    exact h.parent p hp
  site p currentPcb retVal hp hsite :=
    h.site p currentPcb retVal hp ((congrArg Origin.retSite (horigin p)).symm.trans hsite)

/-- `execute` builds one process more. -/
theorem BuiltTable.executed (h : BuiltTable ps built) {s : Fin 3} {fr : Frame} {site : RetSite}
    {args : List UInt8} {i : Nat} (hi : i < maxPcbs)
    (hparent : parentOf s (i + 1) ps = i + 1 ∨ built (parentOf s (i + 1) ps))
    (hsite : ∀ currentPcb retVal, site = .halt currentPcb retVal → built currentPcb) :
    BuiltTable (startProcess s fr site args i ps) fun p => built p ∨ p = i + 1 := by
  have hself := startProcess_pcbs_self s fr site args i ps
  have hother : ∀ p, p ≠ i + 1 → (startProcess s fr site args i ps).pcbs p = ps.pcbs p :=
    fun p hp => startProcess_pcbs_of_ne hp
  refine ⟨?_, ?_, ?_, ?_⟩
  · rintro p (hp | rfl)
    · exact h.bound p hp
    · exact ⟨by omega, by omega⟩
  · intro p hp
    by_cases hpi : p = i + 1
    · rw [hpi, hself]
      rfl
    · rw [hother p hpi]
      exact h.pid p (hp.resolve_right hpi)
  · intro p hp
    by_cases hpi : p = i + 1
    · rw [hpi, hself]
      exact hparent.symm
    · rw [hother p hpi]
      exact Or.inl (h.parent p (hp.resolve_right hpi))
  · intro p currentPcb retVal hp hret
    by_cases hpi : p = i + 1
    · rw [hpi, hself] at hret
      exact Or.inl (hsite currentPcb retVal hret)
    · rw [hother p hpi] at hret
      exact Or.inl (h.site p currentPcb retVal (hp.resolve_right hpi) hret)

theorem BuiltTable.freed (h : BuiltTable ps built) (pid : Nat) : BuiltTable (freePid pid ps) built :=
  h.congr fun p => rfl

theorem BuiltTable.afterHalt (h : BuiltTable ps built) (s : Fin 3) (pid : Nat) :
    BuiltTable (haltTail s pid ps) built :=
  h.congr (haltTail_origin s pid ps)

/-- The end of a `halt` goes to the parent of a built process. -/
theorem BuiltTable.halt_fields (h : BuiltTable ps built) (s : Fin 3) {pid : Nat} (hpid : built pid)
    (hactive : ∀ t, ps.status t ≠ 0 → built (ps.activePid t)) :
    (∀ t, (haltTail s pid ps).status t ≠ 0 → built ((haltTail s pid ps).activePid t)) ∧
      ∃ p, (1 ≤ p ∧ p ≤ maxPcbs) ∧ (haltTail s pid ps).pageDirectory32 = userFrame p := by
  obtain ⟨pcbs, -, htail⟩ := haltTail_eq s pid ps
  rw [htail]
  refine ⟨fun t ht => ?_, _, h.bound _ (h.parent pid hpid), rfl⟩
  show built (Function.update ps.activePid s (ps.pcbs pid).parentPid t)
  by_cases hts : t = s
  · rw [hts, Function.update_self]
    exact h.parent pid hpid
  · rw [Function.update_of_ne hts]
    exact hactive t ht

theorem haltTail_status (s : Fin 3) (pid : Nat) (ps : Procs) :
    (haltTail s pid ps).status = ps.status := by
  obtain ⟨pcbs, -, htail⟩ := haltTail_eq s pid ps
  rw [htail]

/-- Where a `halt` lands is about a built process. -/
theorem BuiltTable.lands (h : BuiltTable ps built) {pid : Nat} (hpid : built pid)
    {currentPcb : Nat} {retVal : Int} (hland : landing ps pid = .halting currentPcb retVal) :
    built currentPcb := by
  unfold landing at hland
  split at hland
  · split at hland <;> cases hland
  · rename_i hsite
    split at hland
    · cases hland
    · cases hland
      exact h.site pid _ _ hpid hsite
  · cases hland
  · cases hland

/-- The invariant of a machine in which one process has just been started on the terminal it runs. -/
theorem BuiltInv.enter (h : BuiltInv m built) {s : Fin 3} {fr : Frame} {site : RetSite}
    {args : List UInt8} {i : Nat} (hi : i < maxPcbs) (htable : BuiltTable ps built)
    (hps : m'.procs = startProcess s fr site args i ps) (hterm : m'.term = s)
    (hctl : m'.ctl = m.ctl) (hnone : ∀ t, m.ctl t ≠ .lost)
    (hactive : ∀ t, t ≠ s → ps.status t ≠ 0 → built (ps.activePid t)) (hstarted : ps.status s ≠ 0)
    (hparent : parentOf s (i + 1) ps = i + 1 ∨ built (parentOf s (i + 1) ps))
    (hsite : ∀ currentPcb retVal, site = .halt currentPcb retVal → built currentPcb) :
    BuiltInv m' fun p => built p ∨ p = i + 1 := by
  obtain ⟨hstatus, -, htop, -, hpage, -⟩ := startProcess_fields hps
  refine ⟨?_, ?_, ?_, ?_, ?_, i + 1, ⟨Nat.le_add_left 1 i, hi⟩, hpage⟩
  · rw [hps]
    exact htable.executed hi hparent hsite
  · intro t ht _
    rw [hstatus] at ht
    rw [htop]
    by_cases hts : t = s
    · rw [hts, Function.update_self]
      exact Or.inr rfl
    · rw [Function.update_of_ne hts]
      exact Or.inl (hactive t hts ht)
  · intro t currentPcb retVal ht
    rw [hctl] at ht
    exact Or.inl (h.halting t currentPcb retVal ht)
  · intro t ht
    rw [hctl] at ht
    exact absurd ht (hnone t)
  · rw [hterm, hstatus]
    exact hstarted

/-- The parent that `build_pcb` records is the process itself or the terminal's active one. -/
theorem parentOf_cases (s : Fin 3) (pid : Nat) (ps : Procs) :
    parentOf s pid ps = pid ∨ parentOf s pid ps = ps.activePid s := by
  unfold parentOf
  split
  · exact Or.inl rfl
  · exact Or.inr rfl

/-- Nothing happens on a terminal whose control flow is lost. -/
theorem step_not_lost {disk : Disk} {e : Event} (hstep : step disk m e = some m') :
    m.ctl m.term ≠ .lost := by
  intro hlost
  cases e <;> simp [step, hlost] at hstep

/-- As long as the flow of the scheduled terminal is not lost, none is. -/
theorem BuiltInv.none_lost (h : BuiltInv m built) (hterm : m.ctl m.term ≠ .lost) (t : Fin 3) :
    m.ctl t ≠ .lost :=
  fun hlost => hterm (h.lost t hlost ▸ hlost)

/-- After an event that sets the flow of the terminal it leaves scheduled, only that one can be lost. -/
theorem lost_of_update {s : Fin 3} {ctl : Ctl} (hctl : m'.ctl = Function.update m.ctl s ctl)
    (hterm : m'.term = s) (hnone : ∀ t, m.ctl t ≠ .lost) (t : Fin 3) (ht : m'.ctl t = .lost) :
    t = m'.term := by
  rw [hctl] at ht
  by_cases hts : t = s
  · rw [hts, hterm]
  · rw [Function.update_of_ne hts] at ht
    exact absurd ht (hnone t)

/-- **The step lemma.** -/
theorem BuiltInv.step {disk : Disk} (hshell : ShellLoads disk) (h : BuiltInv m built) {e : Event}
    (hstep : step disk m e = some m') : ∃ built', BuiltInv m' built' := by
  have hnone := h.none_lost (step_not_lost hstep)
  have hall : ∀ t, m.procs.status t ≠ 0 → built (m.procs.activePid t) := fun t ht =>
    h.active t ht (hnone t)
  have hcaller : built m.active := hall _ h.started
  cases step_cases hshell hstep with
  | refused _ _ hterm hprocs hctl =>
    refine ⟨built, ?_, ?_, ?_, ?_, ?_, ?_⟩
    · rw [hprocs]
      exact h.table
    · rw [hprocs, hctl]
      exact h.active
    · rw [hctl]
      exact h.halting
    · rw [hctl, hterm]
      exact h.lost
    · rw [hprocs, hterm]
      exact h.started
    · rw [hprocs]
      exact h.page
  | loadFailed _ _ i _ hi hterm hprocs hctl =>
    obtain ⟨-, hi6, -, -⟩ := firstFree_eq_some_iff.mp hi
    refine ⟨built, ?_, ?_, ?_, ?_, ?_, ?_⟩
    · rw [hprocs]
      exact h.table.congr fun p => rfl
    · rw [hprocs, hctl]
      exact h.active
    · rw [hctl]
      exact h.halting
    · rw [hctl, hterm]
      exact h.lost
    · rw [hprocs, hterm]
      exact h.started
    · rw [hprocs]
      exact ⟨i + 1, ⟨Nat.le_add_left 1 i, hi6⟩, rfl⟩
  | entered _ _ i _ hi hterm hprocs hctl =>
    obtain ⟨-, hi6, -, -⟩ := firstFree_eq_some_iff.mp hi
    refine ⟨_, h.enter hi6 h.table hprocs hterm hctl hnone (fun t _ => hall t) h.started ?_ ?_⟩
    · refine (parentOf_cases m.term (i + 1) m.procs).imp id fun hparent => ?_
      rw [hparent]
      exact hcaller
    · intro currentPcb retVal hsite
      cases hsite
  | restarted _ _ i _ _ hi hterm hprocs hctl =>
    obtain ⟨-, hi6, -, -⟩ := firstFree_eq_some_iff.mp hi
    have htable := h.table.freed m.active
    refine ⟨_, h.enter hi6 htable hprocs hterm hctl hnone (fun t _ => hall t) h.started ?_ ?_⟩
    · refine (parentOf_cases m.term (i + 1) (freePid m.active m.procs)).imp id fun hparent => ?_
      rw [hparent]
      exact hcaller
    · intro currentPcb retVal hsite
      cases hsite
      exact hcaller
  | returned _ _ _ _ hterm hprocs hctl =>
    have htable := h.table.freed m.active
    obtain ⟨hactive, hpage⟩ := htable.halt_fields m.term hcaller hall
    have htail := htable.afterHalt m.term m.active
    rw [← hprocs] at hactive hpage htail
    refine ⟨built, htail, fun t ht _ => hactive t ht, ?_, ?_, ?_, hpage⟩
    · intro t currentPcb retVal ht
      rw [hctl] at ht
      by_cases hterm' : t = m.term
      · rw [hterm', Function.update_self] at ht
        exact htail.lands hcaller ht
      · rw [Function.update_of_ne hterm'] at ht
        exact h.halting t currentPcb retVal ht
    · exact lost_of_update hctl hterm hnone
    · rw [hprocs, haltTail_status, hterm]
      exact h.started
  | resumed currentPcb retVal hhalting hterm hprocs hctl =>
    have hbuilt := h.halting m.term currentPcb retVal hhalting
    obtain ⟨hactive, hpage⟩ := h.table.halt_fields m.term hbuilt hall
    have htail := h.table.afterHalt m.term currentPcb
    rw [← hprocs] at hactive hpage htail
    refine ⟨built, htail, fun t ht _ => hactive t ht, ?_, ?_, ?_, hpage⟩
    · intro t currentPcb' retVal' ht
      rw [hctl] at ht
      by_cases hterm' : t = m.term
      · rw [hterm', Function.update_self] at ht
        cases ht
      · rw [Function.update_of_ne hterm'] at ht
        exact h.halting t currentPcb' retVal' ht
    · exact lost_of_update hctl hterm hnone
    · rw [hprocs, haltTail_status, hterm]
      exact h.started
  | switched esp ebp _ hstatus hterm hprocs hctl =>
    have hnext := hall _ hstatus
    have hfields := switchContext_eq m.term (nextTerm m.term) esp ebp m.procs
    rw [← hprocs] at hfields
    refine ⟨built, ?_, ?_, ?_, ?_, ?_, ?_⟩
    · refine h.table.congr fun p => ?_
      rw [hprocs]
      exact switchContext_origin m.term (nextTerm m.term) esp ebp m.procs p
    · rw [hfields, hctl]
      exact h.active
    · rw [hctl]
      exact h.halting
    · intro t ht
      rw [hctl] at ht
      exact absurd ht (hnone t)
    · rw [hfields, hterm]
      exact hstatus
    · rw [hfields]
      exact ⟨_, h.table.bound _ hnext, congrArg userFrame (h.table.pid _ hnext)⟩
  | started esp ebp _ i hstatus hi hterm hprocs hctl =>
    obtain ⟨-, hi6, -, -⟩ := firstFree_eq_some_iff.mp hi
    have htable : BuiltTable (savePreempted m.term esp ebp (openTerminal (nextTerm m.term) m.procs))
        built := by
      refine h.table.congr fun p => ?_
      exact savePreempted_origin m.term esp ebp (openTerminal (nextTerm m.term) m.procs) p
    have hpid : firstShellPid m.procs = i + 1 := by
      rw [firstShellPid, hi]
    refine ⟨_, h.enter hi6 htable hprocs hterm hctl hnone ?_ ?_ ?_ ?_⟩
    · intro t ht hs
      have hs' : Function.update m.procs.status (nextTerm m.term) 1 t ≠ 0 := hs
      show built (Function.update m.procs.activePid (nextTerm m.term) _ t)
      rw [Function.update_of_ne ht] at hs' ⊢
      exact hall t hs'
    · show Function.update m.procs.status (nextTerm m.term) 1 (nextTerm m.term) ≠ 0
      rw [Function.update_self]
      exact Nat.one_ne_zero
    · left
      rw [parentOf, if_pos]
      show i + 1 = Function.update m.procs.basePid (nextTerm m.term) (firstShellPid m.procs) _
      rw [Function.update_self, hpid]
    · intro currentPcb retVal hsite
      cases hsite
  | notStarted esp ebp _ hstatus _ hterm hprocs hctl =>
    -- the terminal is given the last pid, whatever that one is
    refine ⟨built, ?_, ?_, ?_, ?_, ?_, ?_⟩
    · rw [hprocs]
      refine h.table.congr fun p => ?_
      exact savePreempted_origin m.term esp ebp (openTerminal (nextTerm m.term) m.procs) p
    · rw [hprocs, hctl]
      intro t hs hlost
      have hs' : Function.update m.procs.status (nextTerm m.term) 1 t ≠ 0 := hs
      show built (Function.update m.procs.activePid (nextTerm m.term) (firstShellPid m.procs) t)
      by_cases ht : t = nextTerm m.term
      · rw [ht, Function.update_self] at hlost
        exact absurd rfl hlost
      · rw [Function.update_of_ne ht] at hs' ⊢
        exact hall t hs'
    · intro t currentPcb retVal ht
      rw [hctl] at ht
      by_cases hterm' : t = nextTerm m.term
      · rw [hterm', Function.update_self] at ht
        cases ht
      · rw [Function.update_of_ne hterm'] at ht
        exact h.halting t currentPcb retVal ht
    · exact lost_of_update hctl hterm hnone
    · rw [hprocs, hterm]
      show Function.update m.procs.status (nextTerm m.term) 1 (nextTerm m.term) ≠ 0
      rw [Function.update_self]
      exact Nat.one_ne_zero
    · rw [hprocs]
      exact h.page

/-- Descriptors, console and input do not matter. -/
theorem BuiltInv.same (h : BuiltInv m built) (hterm : m'.term = m.term)
    (hstatus : m'.procs.status = m.procs.status) (hactive : m'.procs.activePid = m.procs.activePid)
    (hpage : m'.procs.pageDirectory32 = m.procs.pageDirectory32)
    (horigin : ∀ p, (m'.procs.pcbs p).origin = (m.procs.pcbs p).origin) (hctl : m'.ctl = m.ctl) :
    BuiltInv m' built := by
  refine ⟨h.table.congr horigin, ?_, ?_, ?_, ?_, ?_⟩
  · rw [hstatus, hactive, hctl]
    exact h.active
  · rw [hctl]
    exact h.halting
  · rw [hctl, hterm]
    exact h.lost
  · rw [hstatus, hterm]
    exact h.started
  · rw [hpage]
    exact h.page

/-- Keys and calls, too. -/
theorem BuiltInv.keyedStep {disk : Disk} (hshell : ShellLoads disk) (h : BuiltInv m built)
    {e : KeyedEvent} (hstep : keyedStep disk m e = some m') : ∃ built', BuiltInv m' built' := by
  cases e with
  | process e => exact h.step hshell hstep
  | call c =>
    simp only [ByteVerse.keyedStep] at hstep
    split at hstep
    · obtain ⟨k, hk, rfl⟩ := Option.map_eq_some_iff.mp hstep
      obtain ⟨⟨f, hprocs⟩, hterm⟩ := fdStep_procs hk
      refine ⟨built, h.same hterm ?_ ?_ ?_ (fun p => ?_) rfl⟩
      · exact (congrArg Procs.status hprocs).trans rfl
      · exact (congrArg Procs.activePid hprocs).trans rfl
      · exact (congrArg Procs.pageDirectory32 hprocs).trans rfl
      · show (k.procs.pcbs p).origin = (m.kernel.procs.pcbs p).origin
        rw [hprocs]
        show (Function.update m.kernel.procs.pcbs _ _ p).origin = _
        by_cases hp : p = m.kernel.procs.runningPid m.kernel.schedTerm
        · rw [hp, Function.update_self]
          exact (pcbAfter_same disk.img _ c).origin_eq
        · rw [Function.update_of_ne hp]
    · cases hstep
  | key scanCode fr =>
    simp only [ByteVerse.keyedStep] at hstep
    split at hstep
    · rename_i k hk
      obtain rfl := Option.some.inj hstep
      obtain ⟨hprocs, hterm⟩ := keyed_of_action hk
      refine ⟨built, h.same hterm ?_ ?_ ?_ (fun p => ?_) rfl⟩ <;> rw [hprocs]
    · have hkeyed : BuiltInv (m.keyed scanCode) built := h.same rfl rfl rfl rfl (fun _ => rfl) rfl
      exact hkeyed.step hshell hstep

theorem bootMachine_builtInv {disk : Disk} (hshell : ShellLoads disk) (pw : PowerOn) (fr : Frame) :
    ∃ built, BuiltInv (bootMachine disk pw fr) built := by
  obtain ⟨hprocs, hterm⟩ := bootMachine_procs hshell pw fr
  obtain ⟨hstatus, -, htop, -, hpage, -⟩ := startProcess_fields hprocs
  have hnone : BuiltTable (initialProcs pw) fun _ => False := by
    exact ⟨fun p hp => hp.elim, fun p hp => hp.elim, fun p hp => hp.elim, fun p _ _ hp => hp.elim⟩
  refine ⟨fun p => False ∨ p = 1, ?_, ?_, ?_, ?_, ?_, 1, by decide, hpage⟩
  · rw [hprocs]
    refine hnone.executed (by decide) (Or.inl rfl) fun currentPcb retVal hsite => ?_
    cases hsite
  · intro t ht _
    rw [hstatus] at ht
    rw [htop]
    by_cases ht0 : t = 0
    · rw [ht0, Function.update_self]
      exact Or.inr rfl
    · exact absurd (if_neg ht0) ht
  · intro t currentPcb retVal ht
    cases ht
  · intro t ht
    cases ht
  · rw [hterm, hstatus]
    exact Nat.one_ne_zero

end ByteVerse
