/-
  The memory context: `page_directory[32]` and `tss.esp0`, written in four places, partly from
  values that other processes saved long before.

  Behind a terminal's active process stands a stack of suspended ones: each waits in the `execute`
  call that started the process above it (`ProcessStack`).  Every process above the bottom has a
  parent below it, and its PCB holds that parent's kernel stack for `halt` to load.  The process at
  the bottom is a base shell, or a shell that `halt` has executed in the place of one.

  A base shell never returns: its `halt` executes the shell again.  A shell that took the place of a
  base shell under another pid does return, into the middle of the `halt` that executed it, and that
  `halt` then loads what the dead process's PCB says.  `context_loaded` is the invariant for runs
  in which this does not happen.
-/
import Mathlib.Data.List.Nodup
import ByteVerse.Machine

set_option linter.unusedVariables false

namespace ByteVerse

open SlotTable Run

/-- The loaded context is that of the scheduled terminal's active process, and every other started
    terminal's active process has its own pid and kernel stack in its PCB. -/
structure ContextLoaded (m : Machine) : Prop where
  page : m.procs.pageDirectory32 = userFrame m.active
  stack : m.procs.tssEsp0 = getActiveKernelStackAddr m.active
  saved : ∀ t, t ≠ m.term → m.procs.status t ≠ 0 →
    (m.procs.pcbs (m.procs.activePid t)).pid = m.procs.activePid t ∧
      (m.procs.pcbs (m.procs.activePid t)).tssEsp0 =
        getActiveKernelStackAddr (m.procs.activePid t)

/-- A tick that starts a terminal finds a free pid. -/
def startsWithFreePid (m : Machine) : Event → Prop
  | .tick _ _ _ => m.procs.status (nextTerm m.term) = 0 →
      ∃ i, i < maxPcbs ∧ m.procs.slotUsed i = false
  | _ => True

/-- A process that halts is not a shell which a `halt` executed under another pid than `base_pid`. -/
def haltsInPlace (m : Machine) : Event → Prop
  | .halt _ _ => m.active = m.procs.basePid m.term ∨
      ∀ currentPcb retVal, (m.procs.pcbs m.active).retSite ≠ .halt currentPcb retVal
  | _ => True

instance (m : Machine) : ∀ e, Decidable (startsWithFreePid m e)
  | .tick _ _ _ => inferInstanceAs (Decidable (_ → _))
  | .execute _ _ => inferInstanceAs (Decidable True)
  | .halt _ _ => inferInstanceAs (Decidable True)
  | .resumeHalt => inferInstanceAs (Decidable True)

/-! ## The processes of a terminal -/

/-- The processes of terminal `t`, the topmost first, each waiting for the one above it. -/
inductive ProcessStack (ps : Procs) (t : Fin 3) : List Nat → Prop
  | bottom (p : Nat)
      (h : p = ps.basePid t ∨ ∃ currentPcb retVal, (ps.pcbs p).retSite = .halt currentPcb retVal) :
      ProcessStack ps t [p]
  | above (p q : Nat) (l : List Nat) (hparent : (ps.pcbs p).parentPid = q)
      (hstack : (ps.pcbs p).prevTssESP0 = getActiveKernelStackAddr q)
      (hsite : (ps.pcbs p).retSite = .syscall) (h : ProcessStack ps t (q :: l)) :
      ProcessStack ps t (p :: q :: l)

variable {ps ps' : Procs} {m m' : Machine} {stack : Fin 3 → List Nat}

/-- A stack depends on what `execute` stored in the PCBs of its processes. -/
theorem ProcessStack.congr {t : Fin 3} {l : List Nat} (h : ProcessStack ps t l)
    (hbase : ps'.basePid t = ps.basePid t)
    (horigin : ∀ p ∈ l, (ps'.pcbs p).origin = (ps.pcbs p).origin) : ProcessStack ps' t l := by
  induction h with
  | bottom p h =>
    have hsite := congrArg Origin.retSite (horigin p (List.mem_singleton_self p))
    refine .bottom p (h.imp (fun h => h.trans hbase.symm) ?_)
    rintro ⟨currentPcb, retVal, h⟩
    exact ⟨currentPcb, retVal, hsite.trans h⟩
  | above p q l hparent hstack hsite h ih =>
    have ho := horigin p List.mem_cons_self
    exact .above p q l ((congrArg Origin.parentPid ho).trans hparent)
      ((congrArg Origin.prevTssESP0 ho).trans hstack) ((congrArg Origin.retSite ho).trans hsite)
      (ih fun p' hp' => horigin p' (List.mem_cons_of_mem p hp'))

/-- The stacks of the three terminals: each headed by the active process, of live processes that
    know their own pid, and no process in two places. -/
structure StackTable (ps : Procs) (stack : Fin 3 → List Nat) : Prop where
  isStack : ∀ t, ps.status t ≠ 0 → ProcessStack ps t (stack t)
  head : ∀ t, ps.status t ≠ 0 → ∃ l, stack t = ps.activePid t :: l
  stopped : ∀ t, ps.status t = 0 → stack t = []
  live : ∀ t, ∀ p ∈ stack t, ps.live p
  pid : ∀ t, ∀ p ∈ stack t, (ps.pcbs p).pid = p
  nodup : ∀ t, (stack t).Nodup
  disjoint : ∀ t u, t ≠ u → ∀ p ∈ stack t, p ∉ stack u

/-- The invariant. -/
structure ContextInv (m : Machine) (stack : Fin 3 → List Nat) : Prop where
  table : StackTable m.procs stack
  context : ContextLoaded m
  running : ∀ t, m.ctl t = .running
  started : m.procs.status m.term ≠ 0

theorem StackTable.active_mem (h : StackTable ps stack) {t : Fin 3} (ht : ps.status t ≠ 0) :
    ps.activePid t ∈ stack t := by
  obtain ⟨l, hl⟩ := h.head t ht
  rw [hl]
  exact List.mem_cons_self

/-- Terminal `s` gets a new stack; the other two keep theirs, and the PCBs on them. -/
theorem StackTable.change (h : StackTable ps stack) (s : Fin 3) (l : List Nat)
    (hstatus : ∀ t, t ≠ s → ps'.status t = ps.status t)
    (hactive : ∀ t, t ≠ s → ps'.activePid t = ps.activePid t)
    (hbase : ∀ t, t ≠ s → ps'.basePid t = ps.basePid t)
    (horigin : ∀ t, t ≠ s → ∀ p ∈ stack t, (ps'.pcbs p).origin = (ps.pcbs p).origin)
    (hlive : ∀ t, t ≠ s → ∀ p ∈ stack t, ps'.live p)
    (hstarted : ps'.status s ≠ 0) (hstack : ProcessStack ps' s (ps'.activePid s :: l))
    (hnodup : (ps'.activePid s :: l).Nodup)
    (hnew : ∀ p ∈ ps'.activePid s :: l, ps'.live p ∧ (ps'.pcbs p).pid = p ∧
      ∀ t, t ≠ s → p ∉ stack t) :
    StackTable ps' (Function.update stack s (ps'.activePid s :: l)) where
  isStack t ht := by
    by_cases hts : t = s
    · rw [hts, Function.update_self]
      exact hstack
    · rw [Function.update_of_ne hts]
      exact (h.isStack t (hstatus t hts ▸ ht)).congr (hbase t hts) (horigin t hts)
  head t ht := by
    by_cases hts : t = s
    · rw [hts, Function.update_self]
      exact ⟨l, rfl⟩
    · rw [Function.update_of_ne hts, hactive t hts]
      exact h.head t (hstatus t hts ▸ ht)
  stopped t ht := by
    by_cases hts : t = s
    · exact absurd ht (hts ▸ hstarted)
    · rw [Function.update_of_ne hts]
      exact h.stopped t (hstatus t hts ▸ ht)
  live t p hp := by
    by_cases hts : t = s
    · rw [hts, Function.update_self] at hp
      exact (hnew p hp).1
    · rw [Function.update_of_ne hts] at hp
      exact hlive t hts p hp
  pid t p hp := by
    by_cases hts : t = s
    · rw [hts, Function.update_self] at hp
      exact (hnew p hp).2.1
    · rw [Function.update_of_ne hts] at hp
      exact (congrArg Origin.pid (horigin t hts p hp)).trans (h.pid t p hp)
  nodup t := by
    by_cases hts : t = s
    · rw [hts, Function.update_self]
      exact hnodup
    · rw [Function.update_of_ne hts]
      exact h.nodup t
  disjoint t u htu p hp := by
    by_cases hts : t = s
    · subst hts
      rw [Function.update_self] at hp
      rw [Function.update_of_ne (Ne.symm htu)]
      exact (hnew p hp).2.2 u (Ne.symm htu)
    · rw [Function.update_of_ne hts] at hp
      by_cases hus : u = s
      · rw [hus, Function.update_self]
        exact fun hpu => (hnew p hpu).2.2 t hts hp
      · rw [Function.update_of_ne hus]
        exact h.disjoint t u htu p hp

/-- The stacks depend on a few fields only. -/
theorem StackTable.congr (h : StackTable ps stack) (hstatus : ps'.status = ps.status)
    (hactive : ps'.activePid = ps.activePid) (hbase : ps'.basePid = ps.basePid)
    (hpids : ps'.pidArr = ps.pidArr)
    (horigin : ∀ p, (ps'.pcbs p).origin = (ps.pcbs p).origin) : StackTable ps' stack where
  isStack t ht := (h.isStack t (hstatus ▸ ht)).congr (by rw [hbase]) fun p _ => horigin p
  head t ht := by rw [hactive]; exact h.head t (hstatus ▸ ht)
  stopped t ht := h.stopped t (hstatus ▸ ht)
  live t p hp := by simpa only [Procs.live, Procs.slotUsed, hpids] using h.live t p hp
  pid t p hp := (congrArg Origin.pid (horigin p)).trans (h.pid t p hp)
  nodup := h.nodup
  disjoint := h.disjoint

/-! ## The steps -/

/-- The fields that `startProcess` sets for terminal `s`. -/
theorem startProcess_fields {s : Fin 3} {fr : Frame} {site : RetSite} {args : List UInt8} {i : Nat}
    (hps' : ps' = startProcess s fr site args i ps) :
    ps'.status = ps.status ∧ ps'.basePid = ps.basePid ∧
      ps'.activePid = Function.update ps.activePid s (i + 1) ∧
      ps'.pcbs (i + 1) = newPcb s fr site args (i + 1) ps ∧
      ps'.pageDirectory32 = userFrame (i + 1) ∧
      ps'.tssEsp0 = getActiveKernelStackAddr (i + 1) := by
  have hnew := startProcess_pcbs_self s fr site args i ps
  rw [← hps'] at hnew
  refine ⟨?_, ?_, ?_, hnew, ?_, ?_⟩ <;> rw [hps', startProcess_eq]

/-- `execute` under another pid than the terminal's `base_pid`: the new process goes on top. -/
theorem StackTable.child (h : StackTable ps stack) {s : Fin 3} {fr : Frame} {args : List UInt8}
    {i : Nat} (hps' : ps' = startProcess s fr .syscall args i ps) (hi : i < maxPcbs)
    (hfree : ps.slotUsed i = false) (hstarted : ps.status s ≠ 0) (hne : i + 1 ≠ ps.basePid s)
    (htss : ps.tssEsp0 = getActiveKernelStackAddr (ps.activePid s)) :
    ∃ stack', StackTable ps' stack' := by
  have hdead := not_live_of_free hfree
  have hnot : ∀ t, i + 1 ∉ stack t := fun t hp => hdead (h.live t _ hp)
  obtain ⟨hstatus, hbase, hactive, hnew, -, -⟩ := startProcess_fields hps'
  have htop : ps'.activePid s = i + 1 := by rw [hactive, Function.update_self]
  have horigin : ∀ t, ∀ p ∈ stack t, (ps'.pcbs p).origin = (ps.pcbs p).origin := fun t p hp => by
    rw [hps', startProcess_pcbs_of_ne fun heq => hnot t (heq ▸ hp)]
  have hlive : ∀ p, ps'.live p ↔ ps.live p ∨ p = i + 1 := fun p => hps' ▸ live_startProcess hi p
  obtain ⟨l, hl⟩ := h.head s hstarted
  refine ⟨_, h.change s (stack s) (fun t _ => by rw [hstatus]) (fun t ht => ?_)
    (fun t _ => by rw [hbase]) (fun t _ => horigin t)
    (fun t _ p hp => (hlive p).mpr (Or.inl (h.live t p hp))) (hstatus ▸ hstarted) ?_ ?_ ?_⟩
  · rw [hactive, Function.update_of_ne ht]
  · have hold := (h.isStack s hstarted).congr (by rw [hbase]) (horigin s)
    rw [htop]
    rw [hl] at hold ⊢
    refine .above _ _ l ?_ ?_ ?_ hold <;> rw [hnew]
    · exact if_neg hne
    · exact htss
    · rfl
  · rw [htop]
    exact List.nodup_cons.mpr ⟨hnot s, h.nodup s⟩
  · rw [htop]
    intro p hp
    rcases List.mem_cons.mp hp with rfl | hp
    · exact ⟨(hlive _).mpr (Or.inr rfl), by rw [hnew]; rfl, fun t _ => hnot t⟩
    · exact ⟨(hlive p).mpr (Or.inl (h.live s p hp)),
        (congrArg Origin.pid (horigin s p hp)).trans (h.pid s p hp),
        fun t ht hpt => h.disjoint s t (Ne.symm ht) p hp hpt⟩

/-- A process at the bottom: `execute` under the terminal's `base_pid`, or from `halt`.  The table
    `ps` it starts from agrees with `ps₀`, where the stacks are right, on the other terminals. -/
theorem StackTable.bottom {ps₀ : Procs} (h : StackTable ps₀ stack) {s : Fin 3} {fr : Frame}
    {site : RetSite} {args : List UInt8} {i : Nat}
    (hps' : ps' = startProcess s fr site args i ps) (hi : i < maxPcbs)
    (hfree : ps.slotUsed i = false) (hstarted : ps.status s ≠ 0)
    (hstatus₀ : ∀ t, t ≠ s → ps.status t = ps₀.status t)
    (hactive₀ : ∀ t, t ≠ s → ps.activePid t = ps₀.activePid t)
    (hbase₀ : ∀ t, t ≠ s → ps.basePid t = ps₀.basePid t)
    (horigin₀ : ∀ p, (ps.pcbs p).origin = (ps₀.pcbs p).origin)
    (hlive₀ : ∀ t, t ≠ s → ∀ p ∈ stack t, ps.live p)
    (hbottom : i + 1 = ps.basePid s ∨ ∃ currentPcb retVal, site = .halt currentPcb retVal) :
    ∃ stack', StackTable ps' stack' := by
  have hdead := not_live_of_free hfree
  have hnot : ∀ t, t ≠ s → i + 1 ∉ stack t := fun t ht hp => hdead (hlive₀ t ht _ hp)
  obtain ⟨hstatus, hbase, hactive, hnew, -, -⟩ := startProcess_fields hps'
  have htop : ps'.activePid s = i + 1 := by rw [hactive, Function.update_self]
  have hlive : ∀ p, ps'.live p ↔ ps.live p ∨ p = i + 1 := fun p => hps' ▸ live_startProcess hi p
  refine ⟨_, h.change s [] (fun t ht => by rw [hstatus, hstatus₀ t ht]) (fun t ht => ?_)
    (fun t ht => by rw [hbase, hbase₀ t ht]) (fun t ht p hp => ?_)
    (fun t ht p hp => (hlive p).mpr (Or.inl (hlive₀ t ht p hp))) (hstatus ▸ hstarted) ?_ ?_ ?_⟩
  · rw [hactive, Function.update_of_ne ht, hactive₀ t ht]
  · rw [hps', startProcess_pcbs_of_ne fun heq => hnot t ht (heq ▸ hp)]
    exact horigin₀ p
  · rw [htop]
    refine .bottom _ ?_
    rw [hnew, hbase]
    exact hbottom
  · exact List.nodup_singleton _
  · rw [htop]
    intro p hp
    obtain rfl := List.mem_singleton.mp hp
    exact ⟨(hlive _).mpr (Or.inr rfl), by rw [hnew]; rfl, hnot⟩

/-- The context after `startProcess`, on terminal `s`. -/
theorem contextLoaded_start {s : Fin 3} {fr : Frame} {site : RetSite} {args : List UInt8} {i : Nat}
    (hprocs : m'.procs = startProcess s fr site args i ps) (hterm : m'.term = s)
    (hsaved : ∀ t, t ≠ s → ps.status t ≠ 0 → ps.activePid t ≠ i + 1 ∧
      (ps.pcbs (ps.activePid t)).pid = ps.activePid t ∧
      (ps.pcbs (ps.activePid t)).tssEsp0 = getActiveKernelStackAddr (ps.activePid t)) :
    ContextLoaded m' := by
  obtain ⟨hstatus, -, hactive, -, hpage, hstack⟩ := startProcess_fields hprocs
  have htop : m'.active = i + 1 := by
    show m'.procs.activePid m'.term = _
    rw [hterm, hactive, Function.update_self]
  refine ⟨by rw [hpage, htop], by rw [hstack, htop], fun t ht hs => ?_⟩
  rw [hterm] at ht
  rw [hstatus] at hs
  obtain ⟨hne, hpid, htss⟩ := hsaved t ht hs
  rw [hactive, Function.update_of_ne ht, hprocs, startProcess_pcbs_of_ne hne]
  exact ⟨hpid, htss⟩

theorem ContextInv.active_mem (h : ContextInv m stack) : m.active ∈ stack m.term :=
  h.table.active_mem h.started

theorem ContextInv.active_live (h : ContextInv m stack) : m.procs.live m.active :=
  h.table.live _ _ h.active_mem

/-- Two started terminals have different active processes. -/
theorem StackTable.active_ne (h : StackTable ps stack) {t u : Fin 3} (htu : t ≠ u)
    (ht : ps.status t ≠ 0) (hu : ps.status u ≠ 0) : ps.activePid t ≠ ps.activePid u := by
  intro heq
  exact h.disjoint t u htu _ (h.active_mem ht) (heq ▸ h.active_mem hu)

theorem ContextInv.entered (h : ContextInv m stack) {fr : Frame} {args : List UInt8} {i : Nat}
    (hi : firstFree m.procs.slotUsed 0 maxPcbs = some i) (hterm : m'.term = m.term)
    (hprocs : m'.procs = startProcess m.term fr .syscall args i m.procs)
    (hctl : m'.ctl = m.ctl) : ∃ stack', ContextInv m' stack' := by
  obtain ⟨-, hi6, hfree, -⟩ := firstFree_eq_some_iff.mp hi
  have hdead := not_live_of_free hfree
  have htable : ∃ stack', StackTable m'.procs stack' := by
    by_cases hbase : i + 1 = m.procs.basePid m.term
    · exact h.table.bottom hprocs hi6 hfree h.started (fun _ _ => rfl) (fun _ _ => rfl)
        (fun _ _ => rfl) (fun _ => rfl) (fun t _ => h.table.live t) (Or.inl hbase)
    · exact h.table.child hprocs hi6 hfree h.started hbase h.context.stack
  obtain ⟨stack', htable⟩ := htable
  refine ⟨stack', htable, ?_, fun t => hctl ▸ h.running t, ?_⟩
  · refine contextLoaded_start hprocs hterm fun t ht hs => ⟨fun heq => ?_, h.context.saved t ht hs⟩
    exact hdead (heq ▸ h.table.live t _ (h.table.active_mem hs))
  · rw [hterm, (startProcess_fields hprocs).1]
    exact h.started

theorem ContextInv.restarted (h : ContextInv m stack) {fr : Frame} {args : List UInt8} {i : Nat}
    {retVal : Int} (hi : firstFree (freePid m.active m.procs).slotUsed 0 maxPcbs = some i)
    (hterm : m'.term = m.term)
    (hprocs : m'.procs =
      startProcess m.term fr (.halt m.active retVal) args i (freePid m.active m.procs))
    (hctl : m'.ctl = m.ctl) : ∃ stack', ContextInv m' stack' := by
  obtain ⟨-, hi6, hfree, -⟩ := firstFree_eq_some_iff.mp hi
  have hdead := not_live_of_free hfree
  -- the processes of the other terminals are still live
  have hlive : ∀ t, t ≠ m.term → ∀ p ∈ stack t, (freePid m.active m.procs).live p :=
    fun t ht p hp => (live_freePid h.active_live.1 p).mpr ⟨h.table.live t p hp, fun heq =>
      h.table.disjoint t m.term ht p hp (heq ▸ h.active_mem)⟩
  obtain ⟨stack', htable⟩ := h.table.bottom hprocs hi6 hfree h.started (fun _ _ => rfl)
    (fun _ _ => rfl) (fun _ _ => rfl) (fun _ => rfl) hlive (Or.inr ⟨_, _, rfl⟩)
  refine ⟨stack', htable, ?_, fun t => hctl ▸ h.running t, ?_⟩
  · refine contextLoaded_start hprocs hterm fun t ht hs => ⟨fun heq => ?_, h.context.saved t ht hs⟩
    exact hdead (heq ▸ hlive t ht _ (h.table.active_mem hs))
  · rw [hterm, (startProcess_fields hprocs).1]
    exact h.started

/-- `halt` of a process that returns: the process below it on the stack is active again, in the
    context that the PCB on top held for it. -/
theorem ContextInv.returned (h : ContextInv m stack)
    (hnotbase : m.active ≠ m.procs.basePid m.term)
    (hsite : ∀ currentPcb retVal, (m.procs.pcbs m.active).retSite ≠ .halt currentPcb retVal)
    (hterm : m'.term = m.term)
    (hprocs : m'.procs = haltTail m.term m.active (freePid m.active m.procs))
    (hctl : m'.ctl = Function.update m.ctl m.term (landing m'.procs m.active)) :
    ∃ stack', ContextInv m' stack' := by
  obtain ⟨l, hl⟩ := h.table.head m.term h.started
  have hstack : ProcessStack m.procs m.term (m.active :: l) := hl ▸ h.table.isStack m.term h.started
  have hnodup : (m.active :: l).Nodup := by
    have hnd := h.table.nodup m.term
    rw [hl] at hnd
    exact hnd
  cases hstack with
  | bottom _ hbottom =>
    rcases hbottom with hbase | ⟨currentPcb, retVal, heq⟩
    · exact absurd hbase hnotbase
    · exact absurd heq (hsite currentPcb retVal)
  | above _ q l hparent hprev hsys hrest =>
    obtain ⟨pcbs, hpcbs, htail⟩ := haltTail_eq m.term m.active (freePid m.active m.procs)
    rw [htail] at hprocs
    have horigin : ∀ p, (m'.procs.pcbs p).origin = (m.procs.pcbs p).origin := fun p => by
      rw [hprocs]
      exact (hpcbs p).origin_eq
    have htss : ∀ p, (m'.procs.pcbs p).tssEsp0 = (m.procs.pcbs p).tssEsp0 := fun p => by
      rw [hprocs]
      exact (hpcbs p).tssEsp0_eq
    have hlive : ∀ p, m'.procs.live p ↔ m.procs.live p ∧ p ≠ m.active := fun p => by
      rw [hprocs]
      exact live_freePid h.active_live.1 p
    have hstatus : m'.procs.status = m.procs.status := by rw [hprocs]; rfl
    have hbase : m'.procs.basePid = m.procs.basePid := by rw [hprocs]; rfl
    have hactive : m'.procs.activePid = Function.update m.procs.activePid m.term q := by
      rw [hprocs, ← hparent]
      rfl
    have htop : m'.procs.activePid m.term = q := by rw [hactive, Function.update_self]
    have hmem : ∀ p, p ∈ q :: l → p ∈ stack m.term := fun p hp => by
      rw [hl]
      exact List.mem_cons_of_mem _ hp
    have hne : ∀ p, p ∈ q :: l → p ≠ m.active := fun p hp heq =>
      (List.nodup_cons.mp hnodup).1 (heq ▸ hp)
    have hother : ∀ t, t ≠ m.term → ∀ p ∈ stack t, p ≠ m.active := fun t ht p hp heq =>
      h.table.disjoint t m.term ht p hp (heq ▸ h.active_mem)
    have htable : StackTable m'.procs
        (Function.update stack m.term (m'.procs.activePid m.term :: l)) :=
      h.table.change m.term l (fun t _ => by rw [hstatus])
      (fun t ht => by rw [hactive, Function.update_of_ne ht]) (fun t _ => by rw [hbase])
      (fun t _ p _ => horigin p)
      (fun t ht p hp => (hlive p).mpr ⟨h.table.live t p hp, hother t ht p hp⟩)
      (hstatus ▸ h.started)
      (htop.symm ▸ hrest.congr (by rw [hbase]) fun p _ => horigin p)
      (htop.symm ▸ (List.nodup_cons.mp hnodup).2)
      (htop.symm ▸ fun p hp => ⟨(hlive p).mpr ⟨h.table.live _ p (hmem p hp), hne p hp⟩,
        (congrArg Origin.pid (horigin p)).trans (h.table.pid _ p (hmem p hp)),
        fun t ht hpt => h.table.disjoint t m.term ht p hpt (hmem p hp)⟩)
    refine ⟨_, htable, ⟨?_, ?_, fun t ht hs => ?_⟩, fun t => ?_, by rw [hterm, hstatus]; exact h.started⟩
    · show m'.procs.pageDirectory32 = userFrame (m'.procs.activePid m'.term)
      rw [hterm, htop, ← hparent, hprocs]
      rfl
    · show m'.procs.tssEsp0 = getActiveKernelStackAddr (m'.procs.activePid m'.term)
      rw [hterm, htop, ← hprev, hprocs]
      rfl
    · rw [hterm] at ht
      rw [hstatus] at hs
      rw [hactive, Function.update_of_ne ht, htss]
      obtain ⟨hpid, hsaved⟩ := h.context.saved t ht hs
      exact ⟨(congrArg Origin.pid (horigin _)).trans hpid, hsaved⟩
    · rw [hctl]
      by_cases ht : t = m.term
      · rw [ht, Function.update_self]
        refine landing_of_syscall ((congrArg Origin.retSite (horigin m.active)).trans hsys) fun heq => ?_
        have hq : q = m.active :=
          hparent.symm.trans ((congrArg Origin.parentPid (horigin m.active)).symm.trans heq)
        exact hne q List.mem_cons_self hq
      · rw [Function.update_of_ne ht]
        exact h.running t

/-- `nextTerm` really is another terminal. -/
theorem nextTerm_ne (s : Fin 3) : nextTerm s ≠ s := by
  revert s
  decide

/-- A tick that switches context: the next process's own values are loaded, and the preempted
    process's are saved. -/
theorem ContextInv.switched (h : ContextInv m stack) {esp ebp : Nat}
    (hstatus : m.procs.status (nextTerm m.term) ≠ 0) (hterm : m'.term = nextTerm m.term)
    (hprocs : m'.procs = switchContext m.term (nextTerm m.term) esp ebp m.procs)
    (hctl : m'.ctl = m.ctl) : ContextInv m' stack := by
  have horigin : ∀ p, (m'.procs.pcbs p).origin = (m.procs.pcbs p).origin := fun p => by
    rw [hprocs]
    exact switchContext_origin _ _ _ _ _ _
  rw [switchContext_eq] at hprocs
  have hactive : m'.procs.activePid = m.procs.activePid := by rw [hprocs]
  have htable : StackTable m'.procs stack :=
    h.table.congr (by rw [hprocs]) hactive (by rw [hprocs]) (by rw [hprocs]) horigin
  have hne : m.procs.activePid (nextTerm m.term) ≠ m.procs.activePid m.term :=
    h.table.active_ne (nextTerm_ne m.term) hstatus h.started
  obtain ⟨hpid, htss⟩ := h.context.saved (nextTerm m.term) (nextTerm_ne m.term) hstatus
  refine ⟨htable, ⟨?_, ?_, fun t ht hs => ?_⟩, fun t => hctl ▸ h.running t,
    by rw [hterm, hprocs]; exact hstatus⟩
  · show m'.procs.pageDirectory32 = userFrame (m'.procs.activePid m'.term)
    rw [hterm, hactive, hprocs]
    exact congrArg userFrame hpid
  · show m'.procs.tssEsp0 = getActiveKernelStackAddr (m'.procs.activePid m'.term)
    rw [hterm, hactive, hprocs]
    exact (if_neg hne).trans htss
  · have hs : m.procs.status t ≠ 0 := by
      rw [hprocs] at hs
      exact hs
    rw [hactive]
    refine ⟨(congrArg Origin.pid (horigin _)).trans
      (h.table.pid t _ (h.table.active_mem hs)), ?_⟩
    rw [hprocs]
    show (Function.update m.procs.pcbs (m.procs.activePid m.term) _ _).tssEsp0 = _
    by_cases hts : t = m.term
    · rw [hts, Function.update_self]
      exact h.context.stack
    · rw [Function.update_of_ne (h.table.active_ne hts hs h.started)]
      exact (h.context.saved t hts hs).2

/-- A tick that starts the next terminal. -/
theorem ContextInv.startedTerm (h : ContextInv m stack) {esp ebp : Nat} {fr : Frame}
    {args : List UInt8} {i : Nat} (hi : firstFree m.procs.slotUsed 0 maxPcbs = some i)
    (hterm : m'.term = nextTerm m.term)
    (hprocs : m'.procs = startProcess (nextTerm m.term) fr .scheduler args i
      (savePreempted m.term esp ebp (openTerminal (nextTerm m.term) m.procs)))
    (hctl : m'.ctl = m.ctl) : ∃ stack', ContextInv m' stack' := by
  obtain ⟨-, hi6, hfree, -⟩ := firstFree_eq_some_iff.mp hi
  have hdead := not_live_of_free hfree
  have hpid : firstShellPid m.procs = i + 1 := by
    unfold firstShellPid
    rw [hi]
  obtain ⟨opened, hopened⟩ : ∃ ps, ps = savePreempted m.term esp ebp
    (openTerminal (nextTerm m.term) m.procs) := ⟨_, rfl⟩
  rw [← hopened] at hprocs
  have hother : ∀ t, t ≠ nextTerm m.term → opened.status t = m.procs.status t ∧
      opened.activePid t = m.procs.activePid t ∧ opened.basePid t = m.procs.basePid t := by
    intro t ht
    rw [hopened]
    exact ⟨Function.update_of_ne ht _ _, Function.update_of_ne ht _ _, Function.update_of_ne ht _ _⟩
  have hself : opened.status (nextTerm m.term) = 1 ∧
      opened.basePid (nextTerm m.term) = i + 1 := by
    rw [hopened, ← hpid]
    exact ⟨Function.update_self _ _ _, Function.update_self _ _ _⟩
  have hpcbs : opened.pcbs = Function.update m.procs.pcbs (m.procs.activePid m.term)
      { m.procs.pcbs (m.procs.activePid m.term) with
        esp := esp, ebp := ebp, tssEsp0 := m.procs.tssEsp0 } := by
    have hrun : (openTerminal (nextTerm m.term) m.procs).activePid m.term =
        m.procs.activePid m.term := Function.update_of_ne (Ne.symm (nextTerm_ne m.term)) _ _
    rw [hopened, savePreempted, hrun]
    rfl
  have horigin : ∀ p, (opened.pcbs p).origin = (m.procs.pcbs p).origin := fun p => by
    rw [hopened]
    exact savePreempted_origin _ _ _ _ p
  have hslots : opened.slotUsed = m.procs.slotUsed := by rw [hopened]; rfl
  have hlive : ∀ p, opened.live p ↔ m.procs.live p := fun p => by
    rw [Procs.live, Procs.live, hslots]
  obtain ⟨stack', htable⟩ := h.table.bottom hprocs hi6 (hslots ▸ hfree)
    (by rw [hself.1]; decide) (fun t ht => (hother t ht).1) (fun t ht => (hother t ht).2.1)
    (fun t ht => (hother t ht).2.2) horigin (fun t _ p hp => (hlive p).mpr (h.table.live t p hp))
    (Or.inl hself.2.symm)
  refine ⟨stack', htable, ?_, fun t => hctl ▸ h.running t, ?_⟩
  · refine contextLoaded_start hprocs hterm fun t ht hs => ?_
    obtain ⟨hstatus, hactive, -⟩ := hother t ht
    rw [hstatus] at hs
    rw [hactive]
    refine ⟨fun heq => hdead (heq ▸ h.table.live t _ (h.table.active_mem hs)),
      (congrArg Origin.pid (horigin _)).trans (h.table.pid t _ (h.table.active_mem hs)), ?_⟩
    rw [hpcbs]
    by_cases hts : t = m.term
    · rw [hts, Function.update_self]
      exact h.context.stack
    · rw [Function.update_of_ne (h.table.active_ne hts hs h.started)]
      exact (h.context.saved t hts hs).2
  · rw [hterm, (startProcess_fields hprocs).1, hself.1]
    decide

/-- **The step lemma.** -/
theorem ContextInv.step {disk : Disk} (hshell : ShellLoads disk) (h : ContextInv m stack)
    {e : Event} (hload : noFailedLoad disk m e) (hpid : startsWithFreePid m e)
    (hplace : haltsInPlace m e) (hstep : ByteVerse.step disk m e = some m') : ∃ stack', ContextInv m' stack' := by
  cases step_cases hshell hstep with
  | refused command fr hterm hprocs hctl hbirths =>
    have hactive : m'.active = m.active := by
      rw [Machine.active, Machine.active, hprocs, hterm]
    refine ⟨stack, hprocs ▸ h.table, ⟨?_, ?_, ?_⟩, fun t => hctl ▸ h.running t, ?_⟩
    · rw [hprocs, hactive]
      exact h.context.page
    · rw [hprocs, hactive]
      exact h.context.stack
    · rw [hprocs, hterm]
      exact h.context.saved
    · rw [hprocs, hterm]
      exact h.started
  | loadFailed command fr i hfails hi hterm hprocs hctl hbirths =>
    exact absurd hload (not_noFailedLoad hfails hi)
  | entered command fr i hrunning hi hterm hprocs hctl hbirths =>
    exact h.entered hi hterm hprocs hctl
  | restarted status fr i hrunning hbase hi hterm hprocs hctl hbirths =>
    exact h.restarted hi hterm hprocs hctl
  | returned status fr hrunning hbase hterm hprocs hctl hbirths =>
    obtain ⟨hpos, hle, -⟩ := h.active_live
    have hnotbase : m.active ≠ m.procs.basePid m.term := by
      intro heq
      have hnone := hbase ((h.table.pid _ _ h.active_mem).trans heq)
      have hused := firstFree_eq_none_iff.mp hnone (m.active - 1) (Nat.zero_le _) (by omega)
      rw [freed_slot_self] at hused
      cases hused
    exact h.returned hnotbase (hplace.resolve_left hnotbase) hterm hprocs hctl
  | resumed currentPcb retVal hhalting hterm hprocs hctl hbirths =>
    rw [h.running] at hhalting
    cases hhalting
  | switched esp ebp fr hstatus hterm hprocs hctl hbirths =>
    exact ⟨stack, h.switched hstatus hterm hprocs hctl⟩
  | started esp ebp fr i hstatus hi hterm hprocs hctl hbirths =>
    exact h.startedTerm hi hterm hprocs hctl
  | notStarted esp ebp fr hstatus hnone hterm hprocs hctl hbirths =>
    obtain ⟨i, hi, hfree⟩ := hpid hstatus
    rw [firstFree_eq_none_iff.mp hnone i (Nat.zero_le _) hi] at hfree
    cases hfree

/-- Before the first shell there are no stacks. -/
theorem bootMachine_contextInv {disk : Disk} (hshell : ShellLoads disk) (pw : PowerOn)
    (fr : Frame) : ∃ stack, ContextInv (bootMachine disk pw fr) stack := by
  obtain ⟨hprocs, hterm⟩ := bootMachine_procs hshell pw fr
  obtain ⟨hstatus, hbase, hactive, hnew, hpage, hstack⟩ := startProcess_fields hprocs
  have hstopped : ∀ t, t ≠ 0 → (bootMachine disk pw fr).procs.status t = 0 := fun t ht => by
    rw [hstatus]
    exact if_neg ht
  have htop : (bootMachine disk pw fr).procs.activePid 0 = 1 := by
    rw [hactive, Function.update_self]
  have hlive : (bootMachine disk pw fr).procs.live 1 := by
    rw [hprocs]
    exact (live_startProcess (by simp) 1).mpr (Or.inr rfl)
  refine ⟨fun t => if t = 0 then [1] else [], ⟨fun t ht => ?_, fun t ht => ?_, fun t ht => ?_,
    fun t p hp => ?_, fun t p hp => ?_, fun t => ?_, fun t u htu p hp hpu => ?_⟩,
    ⟨?_, ?_, fun t ht hs => ?_⟩, fun t => rfl, ?_⟩
  · obtain rfl : t = 0 := Classical.byContradiction fun h => ht (hstopped t h)
    refine .bottom 1 (Or.inl ?_)
    rw [hbase]
    rfl
  · obtain rfl : t = 0 := Classical.byContradiction fun h => ht (hstopped t h)
    exact ⟨[], by rw [htop]; rfl⟩
  · refine if_neg fun h => ?_
    rw [h, hstatus] at ht
    cases ht
  · rw [(mem_boot_pids hp).2]
    exact hlive
  · rw [(mem_boot_pids hp).2, hnew]
    rfl
  · by_cases ht : t = 0
    · rw [if_pos ht]
      exact List.nodup_singleton 1
    · rw [if_neg ht]
      exact List.nodup_nil
  · exact htu ((mem_boot_pids hp).1.trans (mem_boot_pids hpu).1.symm)
  · show _ = userFrame ((bootMachine disk pw fr).procs.activePid (bootMachine disk pw fr).term)
    rw [hterm, htop, hpage]
  · show _ = getActiveKernelStackAddr
      ((bootMachine disk pw fr).procs.activePid (bootMachine disk pw fr).term)
    rw [hterm, htop, hstack]
  · rw [hterm] at ht
    exact absurd (hstopped t ht) hs
  · rw [hterm, hstatus]
    exact (show (1 : Nat) ≠ 0 by decide)

/-- **The context is loaded along the runs whose halts are in place.**  With an executable shell in
    the file system, a free pid for each terminal that starts, and no `execute` that fails behind its
    mapping: in every run from boot in which no process halts that is a shell executed by `halt` under
    another pid than `base_pid`, the context of the active process is loaded in every state, and those
    of the other terminals are saved. -/
theorem context_loaded (disk : Disk) (hshell : ShellLoads disk) (pw : PowerOn) (fr : Frame)
    (events : List Event)
    (hload : Along (step disk) (noFailedLoad disk) (bootMachine disk pw fr) events)
    (hpid : Along (step disk) startsWithFreePid (bootMachine disk pw fr) events)
    (hplace : Along (step disk) haltsInPlace (bootMachine disk pw fr) events) :
    Throughout (step disk) ContextLoaded (bootMachine disk pw fr) events := by
  have hcontext : ∀ m, (∃ stack, ContextInv m stack) → ContextLoaded m := fun m ⟨stack, h⟩ =>
    h.context
  refine throughout_mono hcontext (throughout_of_along ?_ (bootMachine_contextInv hshell pw fr)
    (along_and hload (along_and hpid hplace)))
  rintro m e m' ⟨stack, h⟩ ⟨hload, hpid, hplace⟩ hstep
  exact h.step hshell hload hpid hplace hstep

/-- A tick and a halt of the base shell it starts. -/
theorem context_loaded_restart :
    Throughout (step smallDisk) ContextLoaded (bootMachine smallDisk blankMemory blankFrame)
      [.tick 0 0 blankFrame, .halt 0 blankFrame] := by
  refine context_loaded smallDisk smallDisk_shellLoads blankMemory blankFrame _ (by decide +kernel)
    (by decide +kernel) ?_
  intro m hm
  refine ⟨trivial, fun m' _ => ⟨Or.inl ?_, trivial⟩⟩
  have hfields : (step smallDisk (bootMachine smallDisk blankMemory blankFrame)
      (.tick 0 0 blankFrame)).map (fun m => decide (m.active = m.procs.basePid m.term)) =
      some true := by
    decide +kernel
  rw [hm] at hfields
  exact of_decide_eq_true (Option.some.inj hfields)

/-- The base shell 3 of terminal 1 is executed again as process 2.  When that one halts, the `halt` of
    process 3 goes on, and loads the kernel stack that the terminal's first shell found: terminal
    0's. -/
theorem stale_context_restored :
    let events : List Event :=
      [.execute (some shellLine) blankFrame, .tick 0 0 blankFrame,
        .tick 0 0 blankFrame, .tick 0 0 blankFrame, .halt 0 blankFrame, .tick 0 0 blankFrame,
        .halt 0 blankFrame, .halt 0 blankFrame, .resumeHalt]
    Along (step smallDisk) (noFailedLoad smallDisk) (bootMachine smallDisk blankMemory blankFrame)
        events ∧
      Along (step smallDisk) startsWithFreePid (bootMachine smallDisk blankMemory blankFrame) events ∧
      ¬ Throughout (step smallDisk) ContextLoaded (bootMachine smallDisk blankMemory blankFrame)
        events := by
  refine ⟨by decide +kernel, by decide +kernel, fun h => ?_⟩
  have hrun : (run (step smallDisk) (bootMachine smallDisk blankMemory blankFrame)
      [.execute (some shellLine) blankFrame, .tick 0 0 blankFrame,
        .tick 0 0 blankFrame, .tick 0 0 blankFrame, .halt 0 blankFrame, .tick 0 0 blankFrame,
        .halt 0 blankFrame, .halt 0 blankFrame, .resumeHalt]).map
        (fun m => (m.active, decide (m.procs.tssEsp0 = getActiveKernelStackAddr 3))) =
      some (3, false) := by
    decide +kernel
  obtain ⟨m, hm, hfields⟩ := Option.map_eq_some_iff.mp hrun
  obtain ⟨hactive, htss⟩ := Prod.mk.inj hfields
  have hstack := (throughout_last h hm).stack
  rw [hactive] at hstack
  exact of_decide_eq_false htss hstack

end ByteVerse
