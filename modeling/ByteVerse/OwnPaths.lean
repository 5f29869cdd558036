/-
  The processes that belong to a terminal: the path from its active process through the parents to
  its base shell, all of them live and given to an `execute` of this terminal last (`OwnPath`).  As
  a pid is given to one terminal at a time, the paths of different terminals are disjoint.

  `Settled` collects them for a process table, and says of the halts that wait for a shell that they
  are base shells' halts.  Each lemma says what one call or tick as a whole makes of a settled table.
-/
import ByteVerse.ProcessTable
import ByteVerse.HaltRace

set_option linter.unusedVariables false

namespace ByteVerse

open SlotTable Run ParentPath

/-! ## Each terminal owns the processes of its path -/

variable {ps ps' : Procs} {given given' : Nat → Fin 3} {s t : Fin 3} {l : List Nat}

/-- A live process that terminal `t` was given and no other terminal has been given since. -/
structure OwnPid (ps : Procs) (given : Nat → Fin 3) (t : Fin 3) (p : Nat) : Prop where
  live : ps.live p
  pid : (ps.pcbs p).pid = p
  given : given p = t
  site : p ≠ ps.basePid t → (ps.pcbs p).retSite = .syscall

/-- The processes of terminal `t`, from the active one through the parents to the base shell. -/
structure OwnPath (ps : Procs) (given : Nat → Fin 3) (t : Fin 3) (l : List Nat) : Prop where
  follows : Follows ps.parent (ps.activePid t) (ps.basePid t) l
  own : ∀ p ∈ l, OwnPid ps given t p

/-- What a call in progress leaves behind: paths of the started terminals, the scheduled one among
    them, and only base shells' halts waiting. -/
structure Settled (given : Nat → Fin 3) (suspended : Fin 3 → List HaltCall) (s : Fin 3)
    (ps : Procs) : Prop where
  paths : ∀ t, ps.status t ≠ 0 → ∃ l, OwnPath ps given t l
  suspended : ∀ t, ∀ c ∈ suspended t, ps.status t ≠ 0 ∧ c.pid = ps.basePid t
  started : ps.status s ≠ 0

theorem OwnPath.active (h : OwnPath ps given t l) : OwnPid ps given t (ps.activePid t) :=
  h.own _ h.follows.head_mem

theorem OwnPath.base (h : OwnPath ps given t l) : OwnPid ps given t (ps.basePid t) :=
  h.own _ h.follows.last_mem

/-- A path depends on the terminal's own pids and on what concerns its processes. -/
theorem OwnPath.kept (h : OwnPath ps given t l) (hactive : ps'.activePid t = ps.activePid t)
    (hbase : ps'.basePid t = ps.basePid t)
    (hkept : ∀ p ∈ l, (ps'.pcbs p).origin = (ps.pcbs p).origin ∧ ps'.live p ∧ given' p = given p) :
    OwnPath ps' given' t l := by
  constructor
  · rw [hactive, hbase]
    exact h.follows.congr fun p hp _ => congrArg Origin.parentPid (hkept p hp).1
  · intro p hp
    obtain ⟨horigin, hlive, hgiven⟩ := hkept p hp
    constructor
    · exact hlive
    · exact (congrArg Origin.pid horigin).trans (h.own p hp).pid
    · exact hgiven.trans (h.own p hp).given
    · intro hne
      rw [hbase] at hne
      exact (congrArg Origin.retSite horigin).trans ((h.own p hp).site hne)

/-- The settled table after a change that concerns terminal `s` only. -/
theorem Settled.change {suspended : Fin 3 → List HaltCall} {u : Fin 3}
    (h : Settled given suspended u ps) (s : Fin 3)
    (hstatus : ∀ t, t ≠ s → ps'.status t = ps.status t)
    (hactive : ∀ t, t ≠ s → ps'.activePid t = ps.activePid t)
    (hbase : ∀ t, t ≠ s → ps'.basePid t = ps.basePid t)
    (hkept : ∀ t, t ≠ s → ∀ p, OwnPid ps given t p →
      (ps'.pcbs p).origin = (ps.pcbs p).origin ∧ ps'.live p ∧ given' p = given p)
    (hstarted : ps'.status s ≠ 0) (hpath : ∃ l, OwnPath ps' given' s l)
    (hsuspended : ∀ c ∈ suspended s, c.pid = ps'.basePid s) : Settled given' suspended s ps' := by
  constructor
  · intro t ht
    by_cases hts : t = s
    · rw [hts]
      exact hpath
    · obtain ⟨l, hl⟩ := h.paths t (hstatus t hts ▸ ht)
      exact ⟨l, hl.kept (hactive t hts) (hbase t hts) fun p hp => hkept t hts p (hl.own p hp)⟩
  · intro t c hc
    by_cases hts : t = s
    · subst hts
      exact ⟨hstarted, hsuspended c hc⟩
    · rw [hstatus t hts, hbase t hts]
      exact h.suspended t c hc
  · exact hstarted

/-- The settled table after a change that concerns no terminal's processes. -/
theorem Settled.kept {suspended : Fin 3 → List HaltCall} {u : Fin 3}
    (h : Settled given suspended u ps) (hstatus : ps'.status = ps.status)
    (hactive : ps'.activePid = ps.activePid) (hbase : ps'.basePid = ps.basePid)
    (hkept : ∀ t p, OwnPid ps given t p →
      (ps'.pcbs p).origin = (ps.pcbs p).origin ∧ ps'.live p ∧ given' p = given p)
    (hstarted : ps.status s ≠ 0) : Settled given' suspended s ps' := by
  constructor
  · intro t ht
    obtain ⟨l, hl⟩ := h.paths t (hstatus ▸ ht)
    exact ⟨l, hl.kept (by rw [hactive]) (by rw [hbase]) fun p hp => hkept t p (hl.own p hp)⟩
  · intro t c hc
    rw [hstatus, hbase]
    exact h.suspended t c hc
  · rw [hstatus]
    exact hstarted

/-- `execute` in a free slot leaves the other processes alone. -/
theorem OwnPid.start {fr : Frame} {site : RetSite} {args : List UInt8} {i p : Nat}
    (h : OwnPid ps given t p) (hi : i < maxPcbs) (hfree : ps.slotUsed i = false)
    (hps' : ps' = startProcess s fr site args i ps) :
    (ps'.pcbs p).origin = (ps.pcbs p).origin ∧ ps'.live p ∧
      Function.update given (i + 1) s p = given p := by
  have hp : p ≠ i + 1 := fun heq => not_live_of_free hfree (heq ▸ h.live)
  refine ⟨?_, ?_, Function.update_of_ne hp _ _⟩
  · rw [hps', startProcess_pcbs_of_ne hp]
  · rw [hps', live_startProcess hi]
    exact Or.inl h.live

/-- The new process is its terminal's. -/
theorem ownPid_start {fr : Frame} {site : RetSite} {args : List UInt8} {i : Nat}
    (hi : i < maxPcbs) (hps' : ps' = startProcess s fr site args i ps)
    (hsite : i + 1 ≠ ps.basePid s → site = .syscall) :
    OwnPid ps' (Function.update given (i + 1) s) s (i + 1) := by
  have hnew := startProcess_pcbs_self s fr site args i ps
  rw [← hps'] at hnew
  constructor
  · rw [hps', live_startProcess hi]
    exact Or.inr rfl
  · rw [hnew]
    rfl
  · exact Function.update_self _ _ _
  · intro hne
    rw [hnew]
    refine hsite fun heq => hne ?_
    rw [heq, hps', startProcess_eq]

/-! ## The tables that calls leave behind -/

section Tables

variable {suspended : Fin 3 → List HaltCall}

/-- A child goes on top of its terminal's path. -/
theorem Settled.child (h : Settled given suspended s ps) {fr : Frame} {args : List UInt8} {i : Nat}
    (hi : firstFree ps.slotUsed 0 maxPcbs = some i) :
    Settled (Function.update given (i + 1) s) suspended s
      (startProcess s fr .syscall args i ps) := by
  obtain ⟨-, hi6, hfree, -⟩ := firstFree_eq_some_iff.mp hi
  have hdead := not_live_of_free hfree
  generalize hps' : startProcess s fr .syscall args i ps = ps'
  have hps' := hps'.symm
  obtain ⟨hstatus, hbase, hactive⟩ : ps'.status = ps.status ∧ ps'.basePid = ps.basePid ∧
      ps'.activePid = Function.update ps.activePid s (i + 1) := by
    rw [hps', startProcess_eq]
    exact ⟨rfl, rfl, rfl⟩
  obtain ⟨l, hl⟩ := h.paths s h.started
  have hne : i + 1 ≠ ps.basePid s := fun heq => hdead (heq ▸ hl.base.live)
  have hold : ∀ t, ∀ p, OwnPid ps given t p → (ps'.pcbs p).origin = (ps.pcbs p).origin ∧
      ps'.live p ∧ Function.update given (i + 1) s p = given p := by
    intro t p hp
    exact hp.start hi6 hfree hps'
  refine h.change s (fun t _ => by rw [hstatus]) ?_ (fun t _ => by rw [hbase]) (fun t _ => hold t)
    (hstatus ▸ h.started) ⟨(i + 1) :: l, ?_, ?_⟩ ?_
  · intro t ht
    rw [hactive, Function.update_of_ne ht]
  · rw [hactive, Function.update_self, hbase]
    have hparent : ps'.parent (i + 1) = ps.activePid s := by
      show (ps'.pcbs (i + 1)).parentPid = _
      rw [hps', startProcess_pcbs_self]
      exact if_neg hne
    refine Follows.up hne ?_
    rw [hparent]
    exact hl.follows.congr fun p hp _ => congrArg Origin.parentPid (hold s p (hl.own p hp)).1
  · intro p hp
    rcases List.mem_cons.mp hp with rfl | hp
    · exact ownPid_start hi6 hps' fun _ => rfl
    · obtain ⟨horigin, hlive, hgiven⟩ := hold s p (hl.own p hp)
      constructor
      · exact hlive
      · exact (congrArg Origin.pid horigin).trans (hl.own p hp).pid
      · exact hgiven.trans (hl.own p hp).given
      · intro hb
        rw [hbase] at hb
        exact (congrArg Origin.retSite horigin).trans ((hl.own p hp).site hb)
  · intro c hc
    rw [hbase]
    exact (h.suspended s c hc).2

/-- A shell started under its terminal's `base_pid` is alone on the path. -/
theorem ownPath_base {fr : Frame} {site : RetSite} {args : List UInt8} {i : Nat}
    (hi : i < maxPcbs) (hbase : ps.basePid s = i + 1)
    (hps' : ps' = startProcess s fr site args i ps) :
    OwnPath ps' (Function.update given (i + 1) s) s [i + 1] := by
  have hfields : ps'.activePid s = i + 1 ∧ ps'.basePid s = i + 1 := by
    rw [hps', startProcess_eq]
    exact ⟨Function.update_self _ _ _, hbase⟩
  constructor
  · rw [hfields.1, hfields.2]
    exact Follows.stop _
  · intro p hp
    obtain rfl := List.mem_singleton.mp hp
    exact ownPid_start hi hps' fun hne => absurd hbase.symm hne

/-- The first shell of the next terminal. -/
theorem Settled.shell {u : Fin 3} (h : Settled given suspended u ps)
    (hstatus : ps.status (nextTerm u) = 0) {esp ebp : Nat} {fr : Frame} {args : List UInt8}
    {i : Nat} (hi : firstFree ps.slotUsed 0 maxPcbs = some i) :
    Settled (Function.update given (i + 1) (nextTerm u)) suspended (nextTerm u)
      (startProcess (nextTerm u) fr .scheduler args i
        (savePreempted u esp ebp (openTerminal (nextTerm u) ps))) := by
  obtain ⟨-, hi6, hfree, -⟩ := firstFree_eq_some_iff.mp hi
  have hpid : firstShellPid ps = i + 1 := by
    unfold firstShellPid
    rw [hi]
  generalize hopened : savePreempted u esp ebp (openTerminal (nextTerm u) ps) = opened
  have hopened := hopened.symm
  have horigin : ∀ p, (opened.pcbs p).origin = (ps.pcbs p).origin := by
    intro p
    rw [hopened]
    exact savePreempted_origin u esp ebp (openTerminal (nextTerm u) ps) p
  have hslots : opened.pidArr = ps.pidArr := by
    rw [hopened]
    rfl
  have hbase : opened.basePid (nextTerm u) = i + 1 := by
    rw [hopened, ← hpid]
    exact Function.update_self _ _ _
  generalize hps' : startProcess (nextTerm u) fr .scheduler args i opened = ps'
  have hps' := hps'.symm
  have hfields : ps'.status = opened.status ∧ ps'.basePid = opened.basePid ∧
      ps'.activePid = Function.update opened.activePid (nextTerm u) (i + 1) := by
    rw [hps', startProcess_eq]
    exact ⟨rfl, rfl, rfl⟩
  obtain ⟨hstatus', hbase', hactive'⟩ := hfields
  refine h.change (nextTerm u) ?_ ?_ ?_ ?_ ?_ ⟨_, ownPath_base hi6 hbase hps'⟩ ?_
  · intro t ht
    rw [hstatus', hopened]
    exact Function.update_of_ne ht _ _
  · intro t ht
    rw [hactive', Function.update_of_ne ht, hopened]
    exact Function.update_of_ne ht _ _
  · intro t ht
    rw [hbase', hopened]
    exact Function.update_of_ne ht _ _
  · intro t _ p hp
    have hp' : p ≠ i + 1 := fun heq => not_live_of_free hfree (heq ▸ hp.live)
    refine ⟨?_, ?_, Function.update_of_ne hp' _ _⟩
    · rw [hps', startProcess_pcbs_of_ne hp']
      exact horigin p
    · rw [hps', live_startProcess hi6]
      refine Or.inl ?_
      rw [Procs.live, Procs.slotUsed, hslots]
      exact hp.live
  · rw [hstatus', hopened]
    show Function.update ps.status (nextTerm u) 1 (nextTerm u) ≠ 0
    rw [Function.update_self]
    decide
  · intro c hc
    exact absurd hstatus (h.suspended _ c hc).1

/-- A base shell that is executed again under its own pid. -/
theorem Settled.restart (h : Settled given suspended s ps)
    (hbase : ps.activePid s = ps.basePid s) {fr : Frame} {site : RetSite} {args : List UInt8}
    {i : Nat} (hi : i + 1 = ps.activePid s) {c : HaltCall} (hc : c.pid = ps.activePid s) :
    Settled (Function.update given (i + 1) s) (Function.update suspended s (c :: suspended s)) s
      (startProcess s fr site args i (freePid c.pid ps)) := by
  obtain ⟨l, hl⟩ := h.paths s h.started
  obtain ⟨hpos, hle, -⟩ := hl.active.live
  have hi6 : i < maxPcbs := by omega
  generalize hps' : startProcess s fr site args i (freePid c.pid ps) = ps'
  have hps' := hps'.symm
  have hfields : ps'.status = ps.status ∧ ps'.basePid = ps.basePid ∧
      ps'.activePid = Function.update ps.activePid s (i + 1) := by
    rw [hps', startProcess_eq]
    exact ⟨rfl, rfl, rfl⟩
  obtain ⟨hstatus, hbase', hactive⟩ := hfields
  have hbefore : Settled given (Function.update suspended s (c :: suspended s)) s ps := by
    refine ⟨h.paths, ?_, h.started⟩
    intro t c' hc'
    by_cases ht : t = s
    · subst ht
      rw [Function.update_self] at hc'
      rcases List.mem_cons.mp hc' with rfl | hc'
      · exact ⟨h.started, hc.trans hbase⟩
      · exact h.suspended t c' hc'
    · rw [Function.update_of_ne ht] at hc'
      exact h.suspended t c' hc'
  refine hbefore.change s (fun t _ => by rw [hstatus]) ?_ (fun t _ => by rw [hbase']) ?_
    (hstatus ▸ h.started) ⟨_, ownPath_base hi6 ?_ hps'⟩ ?_
  · intro t ht
    rw [hactive, Function.update_of_ne ht]
  · intro t ht p hp
    -- the pid is this terminal's
    have hne : p ≠ ps.activePid s := fun heq => ht (hp.given.symm.trans (heq ▸ hl.active.given))
    have hp' : p ≠ i + 1 := hi ▸ hne
    refine ⟨?_, ?_, Function.update_of_ne hp' _ _⟩
    · rw [hps', startProcess_pcbs_of_ne hp']
      rfl
    · rw [hps', live_startProcess hi6, live_freePid (by omega)]
      exact Or.inl ⟨hp.live, hc ▸ hne⟩
  · show ps.basePid s = i + 1
    rw [hi, hbase]
  · intro c' hc'
    rw [hbase']
    exact (hbefore.suspended s c' hc').2

/-- The halting process leaves its path to its parent. -/
theorem Settled.returned (h : Settled given suspended s ps)
    (hbase : ps.activePid s ≠ ps.basePid s) :
    Settled given suspended s (haltTail s (ps.activePid s) (freePid (ps.activePid s) ps)) := by
  obtain ⟨l, hl⟩ := h.paths s h.started
  obtain ⟨rest, hrest, hfollows⟩ := hl.follows.tail hbase
  have hnodup : ps.activePid s ∉ rest := by
    have hnd := hl.follows.nodup
    rw [hrest] at hnd
    exact (List.nodup_cons.mp hnd).1
  obtain ⟨pcbs, hpcbs, htail⟩ := haltTail_eq s (ps.activePid s) (freePid (ps.activePid s) ps)
  generalize hps' : haltTail s (ps.activePid s) (freePid (ps.activePid s) ps) = ps'
  have hps' := hps'.symm
  rw [htail] at hps'
  have horigin : ∀ p, (ps'.pcbs p).origin = (ps.pcbs p).origin := by
    intro p
    rw [hps']
    exact (hpcbs p).origin_eq
  have hlive : ∀ p, ps'.live p ↔ ps.live p ∧ p ≠ ps.activePid s := by
    intro p
    rw [hps']
    exact live_freePid hl.active.live.1 p
  have hfields : ps'.status = ps.status ∧ ps'.basePid = ps.basePid ∧
      ps'.activePid = Function.update ps.activePid s (ps.parent (ps.activePid s)) := by
    rw [hps']
    exact ⟨rfl, rfl, rfl⟩
  obtain ⟨hstatus, hbase', hactive⟩ := hfields
  refine h.change s (fun t _ => by rw [hstatus]) ?_ (fun t _ => by rw [hbase']) ?_
    (hstatus ▸ h.started) ⟨rest, ?_, ?_⟩ ?_
  · intro t ht
    rw [hactive, Function.update_of_ne ht]
  · intro t ht p hp
    refine ⟨horigin p, (hlive p).mpr ⟨hp.live, ?_⟩, rfl⟩
    intro heq
    exact ht (hp.given.symm.trans (heq ▸ hl.active.given))
  · rw [hactive, Function.update_self, hbase']
    exact hfollows.congr fun p _ _ => congrArg Origin.parentPid (horigin p)
  · intro p hp
    have hown := hl.own p (hrest ▸ List.mem_cons_of_mem _ hp)
    constructor
    · exact (hlive p).mpr ⟨hown.live, fun heq => hnodup (heq ▸ hp)⟩
    · exact (congrArg Origin.pid (horigin p)).trans hown.pid
    · exact hown.given
    · intro hb
      rw [hbase'] at hb
      exact (congrArg Origin.retSite (horigin p)).trans (hown.site hb)
  · intro c hc
    rw [hbase']
    exact (h.suspended s c hc).2

/-- A process that is not a base shell was executed by a system call of another one. -/
theorem OwnPath.active_landing (hl : OwnPath ps given s l) (hbase : ps.activePid s ≠ ps.basePid s) :
    (ps.pcbs (ps.activePid s)).retSite = .syscall ∧
      (ps.pcbs (ps.activePid s)).parentPid ≠ ps.activePid s := by
  refine ⟨hl.active.site hbase, fun heq => ?_⟩
  obtain ⟨rest, hrest, hfollows⟩ := hl.follows.tail hbase
  have hnd := hl.follows.nodup
  rw [hrest] at hnd
  have hparent : ps.parent (ps.activePid s) = ps.activePid s := heq
  rw [hparent] at hfollows
  exact (List.nodup_cons.mp hnd).1 hfollows.head_mem

/-- A tick that switches to another started terminal. -/
theorem Settled.switched {u : Fin 3} (h : Settled given suspended u ps)
    (hstatus : ps.status (nextTerm u) ≠ 0) (esp ebp : Nat) :
    Settled given suspended (nextTerm u) (switchContext u (nextTerm u) esp ebp ps) := by
  refine h.kept ?_ ?_ ?_ ?_ hstatus
  · rw [switchContext_eq]
  · rw [switchContext_eq]
  · rw [switchContext_eq]
  · intro t p hp
    refine ⟨switchContext_origin _ _ _ _ _ _, ?_, rfl⟩
    rw [switchContext_eq]
    exact hp.live

end Tables

end ByteVerse
