/-
  The process table: `pid_arr`, `active_pid`, `base_pid` and `parent_pid`, maintained separately by
  `execute`, `halt` and `scheduler`, and what they say about each other.

  `Consistent` is the abstract picture: each started terminal has a path of processes, from its
  active one through the parents up to its base shell; the paths are disjoint and make up the live
  processes; and every process but a base shell was executed by the live process that its PCB
  names as its parent.

  Two steps can destroy it.  A tick that starts a terminal while all six pids are taken gives it
  the pid of a process of another terminal.  And `halt` of a base shell frees its pid and executes
  the shell again in the lowest free slot, but does not tell `base_pid`: that is right only if no
  lower slot is free.  `process_table_consistent_iff` says that these are all: a run keeps the table
  consistent iff none of its steps is one of the two.

  The record of births is checked against the PCBs at the end: `getargs` does not look at the active
  process at all, but infers a pid from the first free slot.
-/
import ByteVerse.Machine
import ByteVerse.ParentPath

set_option linter.unusedVariables false

namespace ByteVerse

open SlotTable Run ParentPath

/-! ## Live processes and their paths -/

/-- `parent_pid` of a process. -/
def Procs.parent (ps : Procs) (pid : Nat) : Nat := (ps.pcbs pid).parentPid

/-- The live processes, sorted by terminal: the path of a started terminal leads from its active
    process through the parents to its base process. -/
structure TablePaths (ps : Procs) (path : Fin 3 → List Nat) : Prop where
  follows : ∀ t, ps.status t ≠ 0 → Follows ps.parent (ps.activePid t) (ps.basePid t) (path t)
  stopped : ∀ t, ps.status t = 0 → path t = []
  disjoint : ∀ t u, t ≠ u → ∀ p ∈ path t, p ∉ path u
  live_iff : ∀ p, ps.live p ↔ ∃ t, p ∈ path t

/-- The parent named by the PCB of `pid` is live, and it is the process that executed `pid`. -/
def ExecutedByParent (m : Machine) (pid : Nat) : Prop :=
  m.procs.live (m.procs.parent pid) ∧ (m.births pid).parent = m.procs.parent pid ∧
    (m.births pid).parentSerial = (m.births (m.procs.parent pid)).serial

/-- The process table is consistent. -/
def Consistent (m : Machine) : Prop :=
  ∃ path, TablePaths m.procs path ∧
    ∀ t, ∀ p ∈ path t, p ≠ m.procs.basePid t → ExecutedByParent m p

variable {ps ps' : Procs} {path : Fin 3 → List Nat}

theorem TablePaths.live_of_mem (h : TablePaths ps path) {t : Fin 3} {p : Nat} (hp : p ∈ path t) :
    ps.live p :=
  (h.live_iff p).mpr ⟨t, hp⟩

theorem TablePaths.active_mem (h : TablePaths ps path) {t : Fin 3} (ht : ps.status t ≠ 0) :
    ps.activePid t ∈ path t :=
  (h.follows t ht).head_mem

/-- The active and the base process of a started terminal are live. -/
theorem TablePaths.active_live (h : TablePaths ps path) {t : Fin 3} (ht : ps.status t ≠ 0) :
    ps.live (ps.activePid t) ∧ ps.live (ps.basePid t) :=
  ⟨h.live_of_mem (h.active_mem ht), h.live_of_mem (h.follows t ht).last_mem⟩

/-- Terminal `s` gets a new path; nothing changes for the other two. -/
theorem TablePaths.change (h : TablePaths ps path) (s : Fin 3) (l : List Nat)
    (hstatus : ∀ t, t ≠ s → ps'.status t = ps.status t)
    (hactive : ∀ t, t ≠ s → ps'.activePid t = ps.activePid t)
    (hbase : ∀ t, t ≠ s → ps'.basePid t = ps.basePid t)
    (hparent : ∀ t, t ≠ s → ∀ p ∈ path t, ps'.parent p = ps.parent p)
    (hstarted : ps'.status s ≠ 0)
    (hfollows : Follows ps'.parent (ps'.activePid s) (ps'.basePid s) l)
    (hdisjoint : ∀ t, t ≠ s → ∀ p ∈ path t, p ∉ l)
    (hlive : ∀ p, ps'.live p ↔ p ∈ l ∨ ∃ t, t ≠ s ∧ p ∈ path t) :
    TablePaths ps' (Function.update path s l) where
  follows t ht := by
    by_cases hts : t = s
    · rw [hts, Function.update_self]
      exact hfollows
    · rw [Function.update_of_ne hts, hactive t hts, hbase t hts]
      rw [hstatus t hts] at ht
      exact (h.follows t ht).congr fun p hp _ => hparent t hts p hp
  stopped t ht := by
    by_cases hts : t = s
    · exact absurd ht (hts ▸ hstarted)
    · rw [Function.update_of_ne hts]
      exact h.stopped t (hstatus t hts ▸ ht)
  disjoint t u htu p hp := by
    by_cases hts : t = s
    · subst hts
      rw [Function.update_self] at hp
      rw [Function.update_of_ne (Ne.symm htu)]
      exact fun hpu => hdisjoint u (Ne.symm htu) p hpu hp
    · rw [Function.update_of_ne hts] at hp
      by_cases hus : u = s
      · rw [hus, Function.update_self]
        exact hdisjoint t hts p hp
      · rw [Function.update_of_ne hus]
        exact h.disjoint t u htu p hp
  live_iff p := by
    rw [hlive p]
    constructor
    · rintro (hp | ⟨t, hts, hp⟩)
      · exact ⟨s, by rwa [Function.update_self]⟩
      · exact ⟨t, by rwa [Function.update_of_ne hts]⟩
    · rintro ⟨t, hp⟩
      by_cases hts : t = s
      · rw [hts, Function.update_self] at hp
        exact Or.inl hp
      · rw [Function.update_of_ne hts] at hp
        exact Or.inr ⟨t, hts, hp⟩

/-- The paths depend on a few fields only. -/
theorem TablePaths.congr (h : TablePaths ps path) (hstatus : ps'.status = ps.status)
    (hactive : ps'.activePid = ps.activePid) (hbase : ps'.basePid = ps.basePid)
    (hpids : ps'.pidArr = ps.pidArr) (hparent : ∀ p, ps'.parent p = ps.parent p) :
    TablePaths ps' path where
  follows t ht := by
    rw [hactive, hbase]
    exact (h.follows t (hstatus ▸ ht)).congr fun p _ _ => hparent p
  stopped t ht := h.stopped t (hstatus ▸ ht)
  disjoint := h.disjoint
  live_iff p := by
    rw [← h.live_iff p]
    simp only [Procs.live, Procs.slotUsed, hpids]

/-! ## The invariant of consistent runs -/

/-- The invariant: the table is consistent, each live PCB knows its own pid, the processes other
    than base shells were executed by a system call, and no terminal's control flow has strayed. -/
structure TableInv (m : Machine) (path : Fin 3 → List Nat) : Prop where
  paths : TablePaths m.procs path
  executed : ∀ t, ∀ p ∈ path t, p ≠ m.procs.basePid t → ExecutedByParent m p
  pid : ∀ p, m.procs.live p → (m.procs.pcbs p).pid = p
  site : ∀ t, ∀ p ∈ path t, p ≠ m.procs.basePid t → (m.procs.pcbs p).retSite = .syscall
  running : ∀ t, m.ctl t = .running
  started : m.procs.status m.term ≠ 0

theorem TableInv.consistent {m : Machine} {path : Fin 3 → List Nat} (h : TableInv m path) :
    Consistent m :=
  ⟨path, h.paths, h.executed⟩

/-- The steps that keep the table consistent: a tick that starts a terminal finds a free pid, a base
    shell that halts has no free slot below its own, and no program that is executed fails to load. -/
def keepsTable (disk : Disk) (m : Machine) : Event → Prop
  | .tick _ _ _ => m.procs.status (nextTerm m.term) = 0 → ∃ i, i < maxPcbs ∧ m.procs.slotUsed i = false
  | .halt _ _ => m.active = m.procs.basePid m.term →
      ∀ i, i + 1 < m.active → m.procs.slotUsed i = true
  | .execute command fr => noFailedLoad disk m (.execute command fr)
  | .resumeHalt => True

variable {m m' : Machine}

theorem TableInv.active_mem (h : TableInv m path) : m.active ∈ path m.term :=
  h.paths.active_mem h.started

theorem TableInv.active_live (h : TableInv m path) : m.procs.live m.active :=
  h.paths.live_of_mem h.active_mem

/-- The step has changed nothing lasting about the processes other than `q`. -/
structure OnlyPid (m m' : Machine) (q : Nat) : Prop where
  origin : ∀ p, p ≠ q → (m'.procs.pcbs p).origin = (m.procs.pcbs p).origin
  births : ∀ p, p ≠ q → m'.births p = m.births p
  live : ∀ p, p ≠ q → (m'.procs.live p ↔ m.procs.live p)

theorem OnlyPid.parent_eq {q : Nat} (h : OnlyPid m m' q) {p : Nat} (hp : p ≠ q) :
    m'.procs.parent p = m.procs.parent p :=
  congrArg Origin.parentPid (h.origin p hp)

/-- Another process than `q`, with another parent, is still executed by its parent. -/
theorem OnlyPid.executed {p q : Nat} (h : OnlyPid m m' q) (hp : p ≠ q)
    (hparent : m.procs.parent p ≠ q) (hexec : ExecutedByParent m p) : ExecutedByParent m' p := by
  obtain ⟨hlive, hborn, hserial⟩ := hexec
  rw [ExecutedByParent, h.parent_eq hp, h.births p hp, h.births _ hparent, h.live _ hparent]
  exact ⟨hlive, hborn, hserial⟩

/-- The invariant after a step that concerns `q` alone. -/
theorem TableInv.after (h : TableInv m path) {path' : Fin 3 → List Nat} {q : Nat}
    (honly : OnlyPid m m' q) (hpaths : TablePaths m'.procs path')
    (hold : ∀ t, ∀ p ∈ path' t, p ≠ q → p ≠ m'.procs.basePid t →
      p ∈ path t ∧ p ≠ m.procs.basePid t ∧ m.procs.parent p ≠ q)
    (hnew : ∀ t, q ∈ path' t → q ≠ m'.procs.basePid t →
      ExecutedByParent m' q ∧ (m'.procs.pcbs q).retSite = .syscall)
    (hpid : m'.procs.live q → (m'.procs.pcbs q).pid = q)
    (hrunning : ∀ t, m'.ctl t = .running) (hstarted : m'.procs.status m'.term ≠ 0) :
    TableInv m' path' where
  paths := hpaths
  executed t p hp hb := by
    by_cases hpq : p = q
    · exact hpq ▸ (hnew t (hpq ▸ hp) (hpq ▸ hb)).1
    · obtain ⟨hp, hb, hparent⟩ := hold t p hp hpq hb
      exact honly.executed hpq hparent (h.executed t p hp hb)
  pid p hp := by
    by_cases hpq : p = q
    · exact hpq ▸ hpid (hpq ▸ hp)
    · exact (congrArg Origin.pid (honly.origin p hpq)).trans (h.pid p ((honly.live p hpq).mp hp))
  site t p hp hb := by
    by_cases hpq : p = q
    · exact hpq ▸ (hnew t (hpq ▸ hp) (hpq ▸ hb)).2
    · obtain ⟨hp, hb, -⟩ := hold t p hp hpq hb
      exact (congrArg Origin.retSite (honly.origin p hpq)).trans (h.site t p hp hb)
  running := hrunning
  started := hstarted

/-! ## What the good steps do -/

theorem bear_of_ne {pid parent p : Nat} {args : List UInt8} (hp : p ≠ pid) :
    m.bear pid parent args p = m.births p :=
  Function.update_of_ne hp _ _

/-- `execute`: the new process goes on top of its terminal's path. -/
theorem TableInv.entered (h : TableInv m path) {fr : Frame} {args : List UInt8} {i : Nat}
    (hi : firstFree m.procs.slotUsed 0 maxPcbs = some i) (hterm : m'.term = m.term)
    (hprocs : m'.procs = startProcess m.term fr .syscall args i m.procs)
    (hctl : m'.ctl = m.ctl) (hbirths : m'.births = m.bear (i + 1) m.active args) :
    TableInv m' (Function.update path m.term ((i + 1) :: path m.term)) := by
  obtain ⟨-, hi6, hfree, -⟩ := firstFree_eq_some_iff.mp hi
  have hdead := not_live_of_free hfree
  have hnot : ∀ t, i + 1 ∉ path t := fun t hp => hdead (h.paths.live_of_mem hp)
  have hbase : ∀ t, m'.procs.basePid t = m.procs.basePid t := fun t => by
    rw [hprocs, startProcess_eq]
  have hactive : ∀ t, m'.procs.activePid t =
      Function.update m.procs.activePid m.term (i + 1) t := fun t => by
    rw [hprocs, startProcess_eq]
  have hstatus : m'.procs.status = m.procs.status := by rw [hprocs, startProcess_eq]
  have hne : ∀ t, m.procs.status t ≠ 0 → i + 1 ≠ m.procs.basePid t := fun t ht heq =>
    hdead (heq ▸ (h.paths.active_live ht).2)
  have honly : OnlyPid m m' (i + 1) := by
    refine ⟨fun p hp => ?_, fun p hp => ?_, fun p hp => ?_⟩
    · rw [hprocs, startProcess_pcbs_of_ne hp]
    · rw [hbirths, bear_of_ne hp]
    · rw [hprocs, live_startProcess hi6]
      exact ⟨fun hl => hl.resolve_right hp, Or.inl⟩
  have hparent : m'.procs.parent (i + 1) = m.active := by
    show (m'.procs.pcbs (i + 1)).parentPid = _
    rw [hprocs, startProcess_pcbs_self]
    exact if_neg (hne m.term h.started)
  have hpaths : TablePaths m'.procs (Function.update path m.term ((i + 1) :: path m.term)) := by
    refine h.paths.change m.term _ (fun t _ => by rw [hstatus]) (fun t ht => ?_) (fun t _ => hbase t)
      (fun t _ p hp => honly.parent_eq fun heq => hnot t (heq ▸ hp)) (hstatus ▸ h.started) ?_ ?_ ?_
    · rw [hactive, Function.update_of_ne ht]
    · rw [hactive, Function.update_self, hbase]
      refine Follows.up (hne m.term h.started) ?_
      rw [hparent]
      exact (h.paths.follows m.term h.started).congr fun p hp _ =>
        honly.parent_eq fun heq => hnot m.term (heq ▸ hp)
    · intro t ht p hp hmem
      rcases List.mem_cons.mp hmem with heq | hmem
      · exact hnot t (heq ▸ hp)
      · exact h.paths.disjoint t m.term ht p hp hmem
    · intro p
      rw [hprocs, live_startProcess hi6, h.paths.live_iff, List.mem_cons]
      constructor
      · rintro (⟨t, hp⟩ | hp)
        · by_cases ht : t = m.term
          · exact Or.inl (Or.inr (ht ▸ hp))
          · exact Or.inr ⟨t, ht, hp⟩
        · exact Or.inl (Or.inl hp)
      · rintro ((hp | hp) | ⟨t, -, hp⟩)
        · exact Or.inr hp
        · exact Or.inl ⟨m.term, hp⟩
        · exact Or.inl ⟨t, hp⟩
  refine h.after honly hpaths (fun t p hp hpq hb => ?_) (fun t hq hb => ⟨?_, ?_⟩) (fun _ => ?_)
    (fun t => hctl ▸ h.running t) (by rw [hterm, hstatus]; exact h.started)
  · have hp : p ∈ path t := by
      by_cases ht : t = m.term
      · rw [ht, Function.update_self] at hp
        exact ht ▸ (List.mem_cons.mp hp).resolve_left hpq
      · rwa [Function.update_of_ne ht] at hp
    rw [hbase] at hb
    exact ⟨hp, hb, fun heq => hdead (heq ▸ (h.executed t p hp hb).1)⟩
  · have hactivene : m.active ≠ i + 1 := fun heq => hdead (heq ▸ h.active_live)
    rw [ExecutedByParent, hparent, hbirths, bear_of_ne hactivene, honly.live _ hactivene]
    refine ⟨h.active_live, ?_, ?_⟩ <;> rw [Machine.bear, Function.update_self]
  · rw [hprocs, startProcess_pcbs_self]
    rfl
  · rw [hprocs, startProcess_pcbs_self]
    rfl

/-- `halt` of a process that is not a base shell: its parent is active again. -/
theorem TableInv.returned (h : TableInv m path) (hnotbase : m.active ≠ m.procs.basePid m.term)
    (hterm : m'.term = m.term)
    (hprocs : m'.procs = haltTail m.term m.active (freePid m.active m.procs))
    (hctl : m'.ctl = Function.update m.ctl m.term (landing m'.procs m.active))
    (hbirths : m'.births = m.births) : ∃ path', TableInv m' path' := by
  -- the rest of the path, from the parent on
  have hfollows : Follows m.procs.parent m.active (m.procs.basePid m.term) (path m.term) :=
    h.paths.follows m.term h.started
  obtain ⟨l, hl, hrest⟩ : ∃ l, path m.term = m.active :: l ∧
      Follows m.procs.parent (m.procs.parent m.active) (m.procs.basePid m.term) l :=
    hfollows.tail hnotbase
  have hnodup : m.active ∉ l := by
    have hnd := hfollows.nodup
    rw [hl] at hnd
    exact (List.nodup_cons.mp hnd).1
  obtain ⟨pcbs, hpcbs, htail⟩ := haltTail_eq m.term m.active (freePid m.active m.procs)
  rw [htail] at hprocs
  have horigin : ∀ p, (m'.procs.pcbs p).origin = (m.procs.pcbs p).origin := fun p => by
    rw [hprocs]
    exact (hpcbs p).origin_eq
  have hparent : ∀ p, m'.procs.parent p = m.procs.parent p := fun p =>
    congrArg Origin.parentPid (horigin p)
  have hlive : ∀ p, m'.procs.live p ↔ m.procs.live p ∧ p ≠ m.active := fun p => by
    rw [hprocs]
    exact live_freePid h.active_live.1 p
  have honly : OnlyPid m m' m.active :=
    ⟨fun p _ => horigin p, fun p _ => by rw [hbirths], fun p hp => by rw [hlive]; exact and_iff_left hp⟩
  have hstatus : m'.procs.status = m.procs.status := by rw [hprocs]; rfl
  have hbase : m'.procs.basePid = m.procs.basePid := by rw [hprocs]; rfl
  have hactive : m'.procs.activePid =
      Function.update m.procs.activePid m.term (m.procs.parent m.active) := by
    rw [hprocs]
    rfl
  have hother : ∀ t, t ≠ m.term → m.active ∉ path t := fun t ht =>
    h.paths.disjoint m.term t (Ne.symm ht) _ h.active_mem
  have hpaths : TablePaths m'.procs (Function.update path m.term l) := by
    refine h.paths.change m.term l (fun t _ => by rw [hstatus]) (fun t ht => ?_)
      (fun t _ => by rw [hbase]) (fun t _ p _ => hparent p) (hstatus ▸ h.started) ?_ ?_ ?_
    · rw [hactive, Function.update_of_ne ht]
    · rw [hactive, Function.update_self, hbase]
      exact hrest.congr fun p _ _ => hparent p
    · intro t ht p hp hmem
      exact h.paths.disjoint t m.term ht p hp (hl ▸ List.mem_cons_of_mem _ hmem)
    · intro p
      rw [hlive, h.paths.live_iff]
      constructor
      · rintro ⟨⟨t, hp⟩, hne⟩
        by_cases ht : t = m.term
        · rw [ht, hl] at hp
          exact Or.inl ((List.mem_cons.mp hp).resolve_left hne)
        · exact Or.inr ⟨t, ht, hp⟩
      · rintro (hp | ⟨t, ht, hp⟩)
        · exact ⟨⟨m.term, hl ▸ List.mem_cons_of_mem _ hp⟩, fun heq => hnodup (heq ▸ hp)⟩
        · exact ⟨⟨t, hp⟩, fun heq => hother t ht (heq ▸ hp)⟩
  have hgone : ∀ t, m.active ∉ Function.update path m.term l t := by
    intro t
    by_cases ht : t = m.term
    · rw [ht, Function.update_self]
      exact hnodup
    · rw [Function.update_of_ne ht]
      exact hother t ht
  have hsite : (m.procs.pcbs m.active).retSite = .syscall :=
    h.site m.term m.active h.active_mem hnotbase
  refine ⟨Function.update path m.term l,
    h.after honly hpaths (fun t p hp hpq hb => ?_) (fun t hq _ => absurd hq (hgone t))
      (fun hq => absurd rfl ((hlive _).mp hq).2) (fun t => ?_) (by rw [hterm, hstatus]; exact h.started)⟩
  · rw [hbase] at hb
    -- the parent of a process of the path is on the path too
    have hmem : p ∈ path t ∧ m.procs.parent p ≠ m.active := by
      by_cases ht : t = m.term
      · rw [ht, Function.update_self] at hp
        rw [ht] at hb
        exact ⟨ht ▸ hl ▸ List.mem_cons_of_mem _ hp,
          fun heq => hnodup (heq ▸ hrest.parent_mem hp hb)⟩
      · rw [Function.update_of_ne ht] at hp
        have hstarted : m.procs.status t ≠ 0 := fun h0 => by
          rw [h.paths.stopped t h0] at hp
          cases hp
        exact ⟨hp, fun heq => hother t ht (heq ▸ (h.paths.follows t hstarted).parent_mem hp hb)⟩
    exact ⟨hmem.1, hb, hmem.2⟩
  · rw [hctl]
    by_cases ht : t = m.term
    · rw [ht, Function.update_self]
      refine landing_of_syscall ((congrArg Origin.retSite (horigin m.active)).trans hsite) fun heq => ?_
      have hself : m.procs.parent m.active = m.active := (hparent m.active).symm.trans heq
      exact hnodup (hself ▸ hrest.head_mem)
    · rw [Function.update_of_ne ht]
      exact h.running t

/-- `halt` of a base shell with no free slot below its own: the shell is back under the same pid. -/
theorem TableInv.restarted (h : TableInv m path) {fr : Frame} {site : RetSite} {args : List UInt8}
    (hbase : m.active = m.procs.basePid m.term)
    (hterm : m'.term = m.term)
    (hprocs : m'.procs =
      startProcess m.term fr site args (m.active - 1) (freePid m.active m.procs))
    (hctl : m'.ctl = m.ctl) (hbirths : m'.births = m.bear m.active m.active args) :
    TableInv m' path := by
  obtain ⟨hpos, hle, hused⟩ := h.active_live
  have hpid : m.active - 1 + 1 = m.active := by omega
  have hi6 : m.active - 1 < maxPcbs := by omega
  have hpath : path m.term = [m.active] := by
    have hfollows := h.paths.follows m.term h.started
    rw [← hbase] at hfollows
    exact Follows.eq_singleton hfollows
  have hfields : m'.procs.status = m.procs.status ∧ m'.procs.basePid = m.procs.basePid ∧
      m'.procs.activePid = Function.update m.procs.activePid m.term m.active := by
    rw [hprocs, startProcess_eq, hpid]
    exact ⟨rfl, rfl, rfl⟩
  obtain ⟨hstatus, hbase', hactive⟩ := hfields
  have hpcbs : ∀ p, p ≠ m.active → m'.procs.pcbs p = m.procs.pcbs p := fun p hp => by
    rw [hprocs, startProcess_pcbs_of_ne (by omega)]
    rfl
  have hnew : m'.procs.pcbs m.active =
      newPcb m.term fr site args m.active (freePid m.active m.procs) := by
    have h := startProcess_pcbs_self m.term fr site args (m.active - 1) (freePid m.active m.procs)
    rwa [hpid, ← hprocs] at h
  have hlive : ∀ p, m'.procs.live p ↔ m.procs.live p := fun p => by
    rw [hprocs, live_startProcess hi6, live_freePid hpos, hpid]
    constructor
    · rintro (⟨hl, -⟩ | rfl)
      · exact hl
      · exact h.active_live
    · intro hl
      by_cases hp : p = m.active
      · exact Or.inr hp
      · exact Or.inl ⟨hl, hp⟩
  have honly : OnlyPid m m' m.active := by
    refine ⟨fun p hp => by rw [hpcbs p hp], fun p hp => ?_, fun p _ => hlive p⟩
    rw [hbirths, bear_of_ne hp]
  have hother : ∀ t, t ≠ m.term → m.active ∉ path t := fun t ht =>
    h.paths.disjoint m.term t (Ne.symm ht) _ h.active_mem
  have hpaths : TablePaths m'.procs (Function.update path m.term [m.active]) := by
    refine h.paths.change m.term _ (fun t _ => by rw [hstatus]) (fun t ht => ?_)
      (fun t _ => by rw [hbase'])
      (fun t ht p hp => honly.parent_eq fun heq => hother t ht (heq ▸ hp)) (hstatus ▸ h.started)
      ?_ ?_ ?_
    · rw [hactive, Function.update_of_ne ht]
    · rw [hactive, Function.update_self, hbase', ← hbase]
      exact Follows.stop _
    · intro t ht p hp hmem
      exact hother t ht (List.mem_singleton.mp hmem ▸ hp)
    · intro p
      rw [hlive, h.paths.live_iff]
      constructor
      · rintro ⟨t, hp⟩
        by_cases ht : t = m.term
        · exact Or.inl (hpath ▸ ht ▸ hp)
        · exact Or.inr ⟨t, ht, hp⟩
      · rintro (hp | ⟨t, -, hp⟩)
        · exact ⟨m.term, hpath.symm ▸ hp⟩
        · exact ⟨t, hp⟩
  rw [← hpath, Function.update_eq_self] at hpaths
  refine h.after honly hpaths (fun t p hp hpq hb => ?_) (fun t hq hb => ?_) (fun _ => ?_)
    (fun t => hctl ▸ h.running t) (by rw [hterm, hstatus]; exact h.started)
  · rw [hbase'] at hb
    have ht : t ≠ m.term := fun ht => by
      rw [ht, hpath] at hp
      exact hpq (List.mem_singleton.mp hp)
    have hstarted : m.procs.status t ≠ 0 := fun h0 => by
      rw [h.paths.stopped t h0] at hp
      cases hp
    exact ⟨hp, hb, fun heq => hother t ht (heq ▸ (h.paths.follows t hstarted).parent_mem hp hb)⟩
  · have ht : t = m.term := Classical.byContradiction fun ht => hother t ht hq
    rw [ht, hbase'] at hb
    exact absurd hbase hb
  · rw [hnew]
    rfl

/-- A tick that switches context. -/
theorem TableInv.switched (h : TableInv m path) {esp ebp : Nat}
    (hstatus : m.procs.status (nextTerm m.term) ≠ 0) (hterm : m'.term = nextTerm m.term)
    (hprocs : m'.procs = switchContext m.term (nextTerm m.term) esp ebp m.procs)
    (hctl : m'.ctl = m.ctl) (hbirths : m'.births = m.births) : TableInv m' path := by
  have horigin : ∀ p, (m'.procs.pcbs p).origin = (m.procs.pcbs p).origin := fun p => by
    rw [hprocs]
    exact switchContext_origin _ _ _ _ _ _
  have hparent : ∀ p, m'.procs.parent p = m.procs.parent p := fun p =>
    congrArg Origin.parentPid (horigin p)
  rw [switchContext_eq] at hprocs
  have hpaths : TablePaths m'.procs path :=
    h.paths.congr (by rw [hprocs]) (by rw [hprocs]) (by rw [hprocs]) (by rw [hprocs]) hparent
  have hlive : ∀ p, m'.procs.live p ↔ m.procs.live p := fun p => by
    rw [hpaths.live_iff, h.paths.live_iff]
  have hbase : m'.procs.basePid = m.procs.basePid := by rw [hprocs]
  refine ⟨hpaths, fun t p hp hb => ?_, fun p hp => ?_, fun t p hp hb => ?_,
    fun t => hctl ▸ h.running t, by rw [hterm, hprocs]; exact hstatus⟩
  · rw [hbase] at hb
    rw [ExecutedByParent, hparent, hlive, hbirths]
    exact h.executed t p hp hb
  · exact (congrArg Origin.pid (horigin p)).trans (h.pid p ((hlive p).mp hp))
  · rw [hbase] at hb
    exact (congrArg Origin.retSite (horigin p)).trans (h.site t p hp hb)

/-- A tick that starts the next terminal, with a free pid. -/
theorem TableInv.startedTerm (h : TableInv m path) {esp ebp : Nat} {fr : Frame} {args : List UInt8}
    {i : Nat} (hstatus : m.procs.status (nextTerm m.term) = 0)
    (hi : firstFree m.procs.slotUsed 0 maxPcbs = some i) (hterm : m'.term = nextTerm m.term)
    (hprocs : m'.procs = startProcess (nextTerm m.term) fr .scheduler args i
      (savePreempted m.term esp ebp (openTerminal (nextTerm m.term) m.procs)))
    (hctl : m'.ctl = m.ctl) (hbirths : m'.births = m.bear (i + 1) (i + 1) args) :
    TableInv m' (Function.update path (nextTerm m.term) [i + 1]) := by
  obtain ⟨-, hi6, hfree, -⟩ := firstFree_eq_some_iff.mp hi
  have hdead := not_live_of_free hfree
  have hnot : ∀ t, i + 1 ∉ path t := fun t hp => hdead (h.paths.live_of_mem hp)
  have hpid : firstShellPid m.procs = i + 1 := by
    unfold firstShellPid
    rw [hi]
  have horigin : ∀ p, p ≠ i + 1 → (m'.procs.pcbs p).origin = (m.procs.pcbs p).origin := by
    intro p hp
    rw [hprocs, startProcess_pcbs_of_ne hp]
    exact savePreempted_origin m.term esp ebp (openTerminal (nextTerm m.term) m.procs) p
  have hnew := startProcess_pcbs_self (nextTerm m.term) fr .scheduler args i
    (savePreempted m.term esp ebp (openTerminal (nextTerm m.term) m.procs))
  rw [← hprocs] at hnew
  have hlive : ∀ p, m'.procs.live p ↔ m.procs.live p ∨ p = i + 1 := fun p => by
    rw [hprocs, live_startProcess hi6]
    rfl
  have honly : OnlyPid m m' (i + 1) := by
    refine ⟨horigin, fun p hp => ?_, fun p hp => ?_⟩
    · rw [hbirths, bear_of_ne hp]
    · rw [hlive]
      exact ⟨fun hl => hl.resolve_right hp, Or.inl⟩
  have hfields : m'.procs.status = Function.update m.procs.status (nextTerm m.term) 1 ∧
      m'.procs.basePid = Function.update m.procs.basePid (nextTerm m.term) (i + 1) ∧
      m'.procs.activePid = Function.update m.procs.activePid (nextTerm m.term) (i + 1) := by
    rw [hprocs, startProcess_eq, ← hpid]
    refine ⟨rfl, rfl, ?_⟩
    show Function.update (Function.update _ _ _) _ _ = _
    rw [Function.update_idem]
  obtain ⟨hstatus', hbase, hactive⟩ := hfields
  have hstarted : m'.procs.status (nextTerm m.term) ≠ 0 := by
    rw [hstatus', Function.update_self]
    decide
  have hpaths : TablePaths m'.procs (Function.update path (nextTerm m.term) [i + 1]) := by
    refine h.paths.change (nextTerm m.term) _ (fun t ht => ?_) (fun t ht => ?_) (fun t ht => ?_)
      (fun t _ p hp => honly.parent_eq fun heq => hnot t (heq ▸ hp)) hstarted ?_ ?_ ?_
    · rw [hstatus', Function.update_of_ne ht]
    · rw [hactive, Function.update_of_ne ht]
    · rw [hbase, Function.update_of_ne ht]
    · rw [hactive, hbase, Function.update_self, Function.update_self]
      exact Follows.stop _
    · intro t _ p hp hmem
      exact hnot t (List.mem_singleton.mp hmem ▸ hp)
    · intro p
      rw [hlive, h.paths.live_iff, List.mem_singleton, or_comm]
      refine or_congr_right ⟨?_, fun ⟨t, _, hp⟩ => ⟨t, hp⟩⟩
      rintro ⟨t, hp⟩
      refine ⟨t, fun ht => ?_, hp⟩
      rw [ht, h.paths.stopped _ hstatus] at hp
      cases hp
  refine h.after honly hpaths (fun t p hp hpq hb => ?_) (fun t hq hb => ?_) (fun _ => ?_)
    (fun t => hctl ▸ h.running t) (hterm ▸ hstarted)
  · have ht : t ≠ nextTerm m.term := fun ht => by
      rw [ht, Function.update_self] at hp
      exact hpq (List.mem_singleton.mp hp)
    rw [Function.update_of_ne ht] at hp
    rw [hbase, Function.update_of_ne ht] at hb
    exact ⟨hp, hb, fun heq => hdead (heq ▸ (h.executed t p hp hb).1)⟩
  · have ht : t = nextTerm m.term := Classical.byContradiction fun ht => by
      rw [Function.update_of_ne ht] at hq
      exact hnot t hq
    rw [ht, hbase, Function.update_self] at hb
    exact absurd rfl hb
  · rw [hnew]
    rfl

/-- Boot establishes the invariant. -/
theorem bootMachine_tableInv {disk : Disk} (hshell : ShellLoads disk) (pw : PowerOn) (fr : Frame) :
    TableInv (bootMachine disk pw fr) fun t => if t = 0 then [1] else [] := by
  obtain ⟨hprocs, hterm⟩ := bootMachine_procs hshell pw fr
  have hlive : ∀ p, (bootMachine disk pw fr).procs.live p ↔ p = 1 := by
    intro p
    rw [hprocs, live_startProcess (by simp)]
    refine or_iff_right fun hl => ?_
    have hused := hl.2.2
    cases hused
  have hstatus : ∀ t, (bootMachine disk pw fr).procs.status t = if t = 0 then 1 else 0 := fun t => by
    rw [hprocs, startProcess_eq]
    rfl
  have hbase : (bootMachine disk pw fr).procs.basePid 0 = 1 := by
    rw [hprocs, startProcess_eq]
    rfl
  have hactive : (bootMachine disk pw fr).procs.activePid 0 = 1 := by
    rw [hprocs, startProcess_eq]
    rfl
  refine ⟨⟨fun t ht => ?_, fun t ht => ?_, fun t u htu p hp hpu => ?_, fun p => ?_⟩,
    fun t p hp hb => ?_, fun p hp => ?_, fun t p hp hb => ?_, fun t => rfl, ?_⟩
  · obtain rfl : t = 0 := Classical.byContradiction fun h => ht (by rw [hstatus, if_neg h])
    rw [hactive, hbase]
    exact Follows.stop 1
  · refine if_neg fun h => ?_
    rw [hstatus, if_pos h] at ht
    cases ht
  · exact htu ((mem_boot_pids hp).1.trans (mem_boot_pids hpu).1.symm)
  · rw [hlive]
    refine ⟨fun h => ⟨0, ?_⟩, fun ⟨t, hp⟩ => (mem_boot_pids hp).2⟩
    rw [h]
    exact List.mem_singleton_self 1
  · obtain ⟨rfl, rfl⟩ := mem_boot_pids hp
    exact absurd hbase.symm hb
  · obtain rfl := (hlive p).mp hp
    rw [hprocs, startProcess_pcbs_self]
    rfl
  · obtain ⟨rfl, rfl⟩ := mem_boot_pids hp
    exact absurd hbase.symm hb
  · rw [hterm, hstatus]
    decide

/-- A base shell that halts has freed its own slot: it is restarted under its own pid or a lower
    one. -/
theorem TableInv.restart_pid (h : TableInv m path) {i : Nat}
    (hi : firstFree (freePid m.active m.procs).slotUsed 0 maxPcbs = some i) :
    i + 1 = m.active ∨ i + 1 < m.active ∧ m.procs.slotUsed i = false := by
  obtain ⟨hpos, hle, -⟩ := h.active_live
  obtain ⟨-, hi6, hfree, hbelow⟩ := firstFree_eq_some_iff.mp hi
  have hge : i ≤ m.active - 1 := by
    by_contra hlt
    have hused := hbelow (m.active - 1) (Nat.zero_le _) (by omega)
    rw [freed_slot_self] at hused
    cases hused
  by_cases heq : i = m.active - 1
  · exact Or.inl (by omega)
  · rw [freed_slot_of_ne heq] at hfree
    exact Or.inr ⟨by omega, hfree⟩

/-- A halting process either is a base shell that gets restarted, or is none and returns. -/
theorem TableInv.returned_not_base (h : TableInv m path)
    (hbase : (m.procs.pcbs m.active).pid = m.procs.basePid m.term →
      firstFree (freePid m.active m.procs).slotUsed 0 maxPcbs = none) :
    m.active ≠ m.procs.basePid m.term := by
  intro heq
  have hnone := hbase ((h.pid _ h.active_live).trans heq)
  have hused := firstFree_eq_none_iff.mp hnone (m.active - 1) (Nat.zero_le _) (by
    obtain ⟨hpos, hle, -⟩ := h.active_live
    omega)
  rw [freed_slot_self] at hused
  cases hused

/-- **The step lemma**: a good step keeps the invariant. -/
theorem TableInv.good_step {disk : Disk} (hshell : ShellLoads disk) (h : TableInv m path) {e : Event}
    (hgood : keepsTable disk m e) (hstep : step disk m e = some m') : ∃ path', TableInv m' path' := by
  cases step_cases hshell hstep with
  | refused command fr hterm hprocs hctl hbirths =>
    refine ⟨path, ?_, fun t p hp hb => ?_, ?_, ?_, fun t => hctl ▸ h.running t, ?_⟩
    · rw [hprocs]
      exact h.paths
    · rw [ExecutedByParent, hprocs, hbirths]
      exact h.executed t p hp (hprocs ▸ hb)
    · rw [hprocs]
      exact h.pid
    · rw [hprocs]
      exact h.site
    · rw [hprocs, hterm]
      exact h.started
  | loadFailed command fr i hfails hi hterm hprocs hctl hbirths =>
    exact absurd hgood (not_noFailedLoad hfails hi)
  | entered command fr i hrunning hi hterm hprocs hctl hbirths =>
    exact ⟨_, h.entered hi hterm hprocs hctl hbirths⟩
  | restarted status fr i hrunning hbase hi hterm hprocs hctl hbirths =>
    have hactive : m.active = m.procs.basePid m.term := (h.pid _ h.active_live).symm.trans hbase
    have hpid : i + 1 = m.active := by
      rcases h.restart_pid hi with heq | ⟨hlt, hfree⟩
      · exact heq
      · rw [hgood hactive i hlt] at hfree
        cases hfree
    obtain rfl : i = m.active - 1 := by omega
    rw [hpid] at hbirths
    exact ⟨path, h.restarted hactive hterm hprocs hctl hbirths⟩
  | returned status fr hrunning hbase hterm hprocs hctl hbirths =>
    exact h.returned (h.returned_not_base hbase) hterm hprocs hctl hbirths
  | resumed currentPcb retVal hhalting hterm hprocs hctl hbirths =>
    rw [h.running] at hhalting
    cases hhalting
  | switched esp ebp fr hstatus hterm hprocs hctl hbirths =>
    exact ⟨path, h.switched hstatus hterm hprocs hctl hbirths⟩
  | started esp ebp fr i hstatus hi hterm hprocs hctl hbirths =>
    exact ⟨_, h.startedTerm hstatus hi hterm hprocs hctl hbirths⟩
  | notStarted esp ebp fr hstatus hnone hterm hprocs hctl hbirths =>
    obtain ⟨i, hi, hfree⟩ := hgood hstatus
    rw [firstFree_eq_none_iff.mp hnone i (Nat.zero_le _) hi] at hfree
    cases hfree

/-! ## What the bad steps do -/

/-- A base shell restarted under a lower pid leaves `base_pid` pointing to a dead process. -/
theorem TableInv.restarted_lower (h : TableInv m path) {fr : Frame} {site : RetSite}
    {args : List UInt8} {i : Nat} (hbase : m.active = m.procs.basePid m.term)
    (hi : firstFree (freePid m.active m.procs).slotUsed 0 maxPcbs = some i) (hlt : i + 1 ≠ m.active)
    (hterm : m'.term = m.term)
    (hprocs : m'.procs = startProcess m.term fr site args i (freePid m.active m.procs)) :
    ¬ Consistent m' := by
  rintro ⟨path', hpaths, -⟩
  have hfields : m'.procs.status = m.procs.status ∧ m'.procs.basePid = m.procs.basePid := by
    rw [hprocs, startProcess_eq]
    exact ⟨rfl, rfl⟩
  have hlive := (hpaths.active_live (show m'.procs.status m.term ≠ 0 by
    rw [hfields.1]
    exact h.started)).2
  rw [hfields.2, ← hbase, hprocs, live_startProcess (firstFree_eq_some_iff.mp hi).2.1,
    live_freePid h.active_live.1] at hlive
  rcases hlive with ⟨-, hne⟩ | heq
  · exact hne rfl
  · exact hlt heq.symm

/-- A terminal started without a free pid gets pid 6, which belongs to another terminal. -/
theorem TableInv.notStarted (h : TableInv m path) {esp ebp : Nat}
    (hstatus : m.procs.status (nextTerm m.term) = 0)
    (hnone : firstFree m.procs.slotUsed 0 maxPcbs = none)
    (hprocs : m'.procs = savePreempted m.term esp ebp (openTerminal (nextTerm m.term) m.procs)) :
    ¬ Consistent m' := by
  rintro ⟨path', hpaths, -⟩
  have hpid : firstShellPid m.procs = 6 := by
    unfold firstShellPid
    rw [hnone]
    rfl
  have hfields : m'.procs.status = Function.update m.procs.status (nextTerm m.term) 1 ∧
      m'.procs.basePid = Function.update m.procs.basePid (nextTerm m.term) 6 ∧
      m'.procs.activePid = Function.update m.procs.activePid (nextTerm m.term) 6 := by
    rw [hprocs, ← hpid]
    exact ⟨rfl, rfl, rfl⟩
  obtain ⟨hstatus', hbase, hactive⟩ := hfields
  have hparent : ∀ p, m'.procs.parent p = m.procs.parent p := fun p => by
    have horigin := savePreempted_origin m.term esp ebp (openTerminal (nextTerm m.term) m.procs) p
    rw [← hprocs] at horigin
    exact congrArg Origin.parentPid horigin
  -- process 6 is live, so it is on the path of a terminal that was started before
  have hlive : m.procs.live 6 :=
    ⟨by decide, by decide, firstFree_eq_none_iff.mp hnone 5 (by decide) (by decide)⟩
  obtain ⟨u, hu⟩ := (h.paths.live_iff 6).mp hlive
  have hne : u ≠ nextTerm m.term := fun heq => by
    rw [heq, h.paths.stopped _ hstatus] at hu
    cases hu
  have hstarted : m.procs.status u ≠ 0 := fun h0 => by
    rw [h.paths.stopped u h0] at hu
    cases hu
  have hold : Follows m'.procs.parent (m.procs.activePid u) (m.procs.basePid u) (path u) :=
    (h.paths.follows u hstarted).congr fun p _ _ => hparent p
  have hsame := hpaths.follows u (by rw [hstatus', Function.update_of_ne hne]; exact hstarted)
  rw [hactive, hbase, Function.update_of_ne hne, Function.update_of_ne hne] at hsame
  have hnew := hpaths.active_mem (show m'.procs.status (nextTerm m.term) ≠ 0 by
    rw [hstatus', Function.update_self]
    decide)
  rw [hactive, Function.update_self] at hnew
  exact hpaths.disjoint (nextTerm m.term) u (Ne.symm hne) 6 hnew (hsame.unique hold ▸ hu)

/-- A pid that is claimed for a program that cannot be loaded is on no terminal's path. -/
theorem TableInv.loadFailed (h : TableInv m path) {i : Nat}
    (hi : firstFree m.procs.slotUsed 0 maxPcbs = some i)
    (hprocs : m'.procs = mapProgram (i + 1) (claimPid i m.procs)) : ¬ Consistent m' := by
  rintro ⟨path', hpaths, -⟩
  obtain ⟨-, hi6, hfree, -⟩ := firstFree_eq_some_iff.mp hi
  have hfields : m'.procs.status = m.procs.status ∧ m'.procs.basePid = m.procs.basePid ∧
      m'.procs.activePid = m.procs.activePid ∧ m'.procs.pcbs = m.procs.pcbs := by
    rw [hprocs]
    exact ⟨rfl, rfl, rfl, rfl⟩
  obtain ⟨hstatus, hbase, hactive, hpcbs⟩ := hfields
  have hlive : m'.procs.live (i + 1) := by
    refine ⟨Nat.le_add_left 1 i, by omega, ?_⟩
    rw [hprocs]
    show (Function.update m.procs.pidArr i 1 (i + 1 - 1) != 0) = true
    rw [Nat.add_sub_cancel, Function.update_self]
    rfl
  obtain ⟨t, ht⟩ := (hpaths.live_iff (i + 1)).mp hlive
  have hstarted : m'.procs.status t ≠ 0 := fun h0 => by
    rw [hpaths.stopped t h0] at ht
    cases ht
  have hnew := hpaths.follows t hstarted
  rw [hstatus] at hstarted
  have hold : Follows m'.procs.parent (m.procs.activePid t) (m.procs.basePid t) (path t) :=
    (h.paths.follows t hstarted).congr fun p _ _ => by
      rw [Procs.parent, Procs.parent, hpcbs]
  rw [hactive, hbase] at hnew
  exact not_live_of_free hfree (h.paths.live_of_mem (hnew.unique hold ▸ ht))

/-- A bad step lands in an inconsistent state. -/
theorem TableInv.bad_step {disk : Disk} (hshell : ShellLoads disk) (h : TableInv m path) {e : Event}
    (hbad : ¬ keepsTable disk m e) (hstep : step disk m e = some m') : ¬ Consistent m' := by
  cases step_cases hshell hstep with
  | resumed => exact absurd trivial hbad
  | refused | loadFailed | entered =>
    obtain ⟨i, hi, hprocs⟩ := step_failedLoad hbad hstep
    exact h.loadFailed hi hprocs
  | restarted status fr i hrunning hbase hi hterm hprocs hctl hbirths =>
    have hactive : m.active = m.procs.basePid m.term := (h.pid _ h.active_live).symm.trans hbase
    simp only [keepsTable, not_forall, Bool.not_eq_true] at hbad
    obtain ⟨-, j, hj, hfree⟩ := hbad
    refine h.restarted_lower hactive hi (fun heq => ?_) hterm hprocs
    have hused := (firstFree_eq_some_iff.mp hi).2.2.2 j (Nat.zero_le _) (by omega)
    rw [freed_slot_of_ne (by omega), hfree] at hused
    cases hused
  | returned status fr hrunning hbase hterm hprocs hctl hbirths =>
    exact absurd (fun heq => absurd heq (h.returned_not_base hbase)) hbad
  | switched esp ebp fr hstatus hterm hprocs hctl hbirths =>
    exact absurd (fun h0 => absurd h0 hstatus) hbad
  | started esp ebp fr i hstatus hi hterm hprocs hctl hbirths =>
    obtain ⟨-, hi6, hfree, -⟩ := firstFree_eq_some_iff.mp hi
    exact absurd (fun _ => ⟨i, hi6, hfree⟩) hbad
  | notStarted esp ebp fr hstatus hnone hterm hprocs hctl hbirths =>
    exact h.notStarted hstatus hnone hprocs

/-! ## Consistency over runs -/

/-- **The process table is consistent exactly along the good runs.**  With an executable shell in
    the file system: in a run from boot, by any interleaving of executes, halts and ticks, the table
    is consistent in every state iff every tick that starts a terminal finds a free pid and every
    base shell that halts has no free slot below its own. -/
theorem process_table_consistent_iff (disk : Disk) (hshell : ShellLoads disk) (pw : PowerOn)
    (fr : Frame) (events : List Event) :
    Throughout (step disk) Consistent (bootMachine disk pw fr) events ↔
      Along (step disk) (keepsTable disk) (bootMachine disk pw fr) events := by
  have hconsistent : ∀ m, (∃ path, TableInv m path) → Consistent m := fun m ⟨path, h⟩ =>
    h.consistent
  refine throughout_iff_along hconsistent ?_ ?_ ⟨_, bootMachine_tableInv hshell pw fr⟩
  · rintro m e m' ⟨path, h⟩ hgood hstep
    exact h.good_step hshell hgood hstep
  · rintro m e m' ⟨path, h⟩ hbad hstep
    exact h.bad_step hshell hbad hstep

/-- The first tick after boot finds a free pid. -/
theorem consistent_after_first_tick :
    Throughout (step smallDisk) Consistent (bootMachine smallDisk blankMemory blankFrame)
      [.tick 0 0 blankFrame] :=
  (process_table_consistent_iff smallDisk smallDisk_shellLoads blankMemory blankFrame _).mpr
    fun _ _ => ⟨fun _ => ⟨1, by decide, by decide +kernel⟩, trivial⟩

/-- Process 2 runs on terminal 0, the shells 3 and 4 on the other two.  Process 2 halts; then the
    base shell 3 halts and is executed again as process 2, while `base_pid` stays 3. -/
theorem base_shell_restarted_lower :
    ¬ Throughout (step smallDisk) Consistent (bootMachine smallDisk blankMemory blankFrame)
      [.execute (some shellLine) blankFrame, .tick 0 0 blankFrame,
        .tick 0 0 blankFrame, .tick 0 0 blankFrame, .halt 0 blankFrame, .tick 0 0 blankFrame,
        .halt 0 blankFrame] := by
  intro h
  have hrun : (run (step smallDisk) (bootMachine smallDisk blankMemory blankFrame)
      [.execute (some shellLine) blankFrame, .tick 0 0 blankFrame,
        .tick 0 0 blankFrame, .tick 0 0 blankFrame, .halt 0 blankFrame, .tick 0 0 blankFrame,
        .halt 0 blankFrame]).map
        (fun m => (m.procs.status 1, m.procs.basePid 1, m.procs.slotUsed 2)) =
      some (1, 3, false) := by
    decide +kernel
  obtain ⟨m, hm, hfields⟩ := Option.map_eq_some_iff.mp hrun
  obtain ⟨hstatus, hrest⟩ := Prod.mk.inj hfields
  obtain ⟨hbase, hfree⟩ := Prod.mk.inj hrest
  obtain ⟨path, hpaths, -⟩ := throughout_last h hm
  have hlive := (hpaths.active_live (show m.procs.status 1 ≠ 0 by rw [hstatus]; decide)).2
  rw [hbase] at hlive
  exact not_live_of_free hfree hlive

/-! ## `getargs` and the record of births -/

/-- The argument string in every PCB is the one its process was executed with. -/
def ArgsRecorded (m : Machine) : Prop := ∀ p, (m.procs.pcbs p).args = (m.births p).args

theorem ArgsRecorded.start (h : ArgsRecorded m) {s : Fin 3} {fr : Frame} {site : RetSite}
    {args : List UInt8} {i parent : Nat} (hps : ∀ p, (ps.pcbs p).origin = (m.procs.pcbs p).origin)
    (hprocs : m'.procs = startProcess s fr site args i ps)
    (hbirths : m'.births = m.bear (i + 1) parent args) : ArgsRecorded m' := by
  intro p
  rw [hprocs, hbirths]
  by_cases hp : p = i + 1
  · rw [hp, startProcess_pcbs_self, Machine.bear, Function.update_self]
    rfl
  · rw [startProcess_pcbs_of_ne hp, bear_of_ne hp]
    exact (congrArg Origin.args (hps p)).trans (h p)

theorem ArgsRecorded.same (h : ArgsRecorded m)
    (hps : ∀ p, (m'.procs.pcbs p).origin = (m.procs.pcbs p).origin)
    (hbirths : m'.births = m.births) : ArgsRecorded m' := by
  intro p
  rw [hbirths]
  exact (congrArg Origin.args (hps p)).trans (h p)

/-- Every step keeps the record right: `args` is written when a process is born, and only then. -/
theorem ArgsRecorded.step {disk : Disk} (hshell : ShellLoads disk) (h : ArgsRecorded m) {e : Event}
    (hstep : step disk m e = some m') : ArgsRecorded m' := by
  cases step_cases hshell hstep with
  | refused command fr hterm hprocs hctl hbirths => exact h.same (fun p => by rw [hprocs]) hbirths
  | loadFailed command fr i hfails hi hterm hprocs hctl hbirths =>
    exact h.same (fun p => by rw [hprocs]; rfl) hbirths
  | entered command fr i hrunning hi hterm hprocs hctl hbirths =>
    exact h.start (fun _ => rfl) hprocs hbirths
  | restarted status fr i hrunning hbase hi hterm hprocs hctl hbirths =>
    refine h.start (fun p => ?_) hprocs hbirths
    rfl
  | returned status fr hrunning hbase hterm hprocs hctl hbirths =>
    exact h.same (fun p => by rw [hprocs]; exact haltTail_origin _ _ _ p) hbirths
  | resumed currentPcb retVal hhalting hterm hprocs hctl hbirths =>
    exact h.same (fun p => by rw [hprocs]; exact haltTail_origin _ _ _ p) hbirths
  | switched esp ebp fr hstatus hterm hprocs hctl hbirths =>
    exact h.same (fun p => by rw [hprocs]; exact switchContext_origin _ _ _ _ _ p) hbirths
  | started esp ebp fr i hstatus hi hterm hprocs hctl hbirths =>
    refine h.start (fun p => ?_) hprocs hbirths
    exact savePreempted_origin m.term esp ebp (openTerminal (nextTerm m.term) m.procs) p
  | notStarted esp ebp fr hstatus hnone hterm hprocs hctl hbirths =>
    refine h.same (fun p => ?_) hbirths
    rw [hprocs]
    exact savePreempted_origin m.term esp ebp (openTerminal (nextTerm m.term) m.procs) p

theorem bootMachine_argsRecorded {disk : Disk} (hshell : ShellLoads disk) (pw : PowerOn)
    (fr : Frame) : ArgsRecorded (bootMachine disk pw fr) := by
  obtain ⟨hprocs, -⟩ := bootMachine_procs hshell pw fr
  have hbirths : (bootMachine disk pw fr).births = Function.update
      (fun pid => { parent := 0, parentSerial := 0, serial := 0, args := (pw.pcbs pid).args }) 1
      { parent := 1, parentSerial := 0, serial := 1, args := shellArgs disk .entry } := rfl
  intro p
  rw [hprocs, hbirths]
  by_cases hp : p = 1
  · rw [hp, startProcess_pcbs_self 0 fr .entry (shellArgs disk .entry) 0, Function.update_self]
    rfl
  · rw [startProcess_pcbs_of_ne hp, Function.update_of_ne hp]
    rfl

/-- What `getargs` is to return to a process executed with these arguments: 0 and the arguments, or
    -1 when there are none. -/
def expectedArgs (args : List UInt8) : Int × List UInt8 :=
  if byteAt args 0 = 0 then (-1, []) else (0, args)

/-- The slots `0 .. n-1` are used and slot `n` is not, or there is none. -/
def LeadingUsed (ps : Procs) (n : Nat) : Prop :=
  n ≤ maxPcbs ∧ (∀ i, i < n → ps.slotUsed i = true) ∧ (n < maxPcbs → ps.slotUsed n = false)

/-- The running process has the highest pid before the first free one, or the process that has it
    was executed with the same arguments (or neither with any). -/
def lastBeforeFree (m : Machine) : Prop :=
  ∀ n, LeadingUsed m.procs n →
    n = m.active ∨ (m.births n).args = (m.births m.active).args ∨
      (byteAt (m.births n).args 0 = 0 ∧ byteAt (m.births m.active).args 0 = 0)

/-- `getargs` takes the pid of the last used slot before the first free one. -/
theorem leadingUsed_iff (ps : Procs) (n : Nat) : LeadingUsed ps n ↔ n = getargsPid ps := by
  have hleading : LeadingUsed ps (getargsPid ps) := by
    unfold getargsPid
    rcases hfree : firstFree ps.slotUsed 0 maxPcbs with _ | i
    · have hall := firstFree_eq_none_iff.mp hfree
      exact ⟨Nat.le_refl _, fun i hi => hall i (Nat.zero_le i) hi, fun h => absurd h (Nat.lt_irrefl _)⟩
    · obtain ⟨-, hi, hi0, hbelow⟩ := firstFree_eq_some_iff.mp hfree
      exact ⟨Nat.le_of_lt hi, fun j hj => hbelow j (Nat.zero_le j) hj, fun _ => hi0⟩
  constructor
  · rintro ⟨hle, hused, hfree⟩
    obtain ⟨hle', hused', hfree'⟩ := hleading
    rcases Nat.lt_trichotomy n (getargsPid ps) with hlt | heq | hgt
    · have := hused' n hlt
      rw [hfree (by omega)] at this
      cases this
    · exact heq
    · have := hused (getargsPid ps) hgt
      rw [hfree' (by omega)] at this
      cases this
  · rintro rfl
    exact hleading

/-- **When `getargs` is right.**  In every state reachable from boot in which a process runs: it gets
    back the arguments it was executed with iff it has the highest pid before the first free one, or
    the process that has it was executed with the same arguments. -/
theorem getargs_correct_iff (disk : Disk) (hshell : ShellLoads disk) (pw : PowerOn) (fr : Frame)
    (events : List Event) (m : Machine)
    (hrun : run (step disk) (bootMachine disk pw fr) events = some m)
    (hrunning : m.ctl m.term = .running) :
    getargs false m.procs = expectedArgs (m.births m.active).args ↔ lastBeforeFree m := by
  have hrecorded : ArgsRecorded m :=
    throughout_last (throughout_of_inv (fun _ _ _ h hs => ArgsRecorded.step hshell h hs)
      (bootMachine_argsRecorded hshell pw fr)) hrun
  have hget : getargs false m.procs = expectedArgs (m.births (getargsPid m.procs)).args := by
    rw [← hrecorded]
    rfl
  have hall : lastBeforeFree m ↔ getargsPid m.procs = m.active ∨
      (m.births (getargsPid m.procs)).args = (m.births m.active).args ∨
      (byteAt (m.births (getargsPid m.procs)).args 0 = 0 ∧
        byteAt (m.births m.active).args 0 = 0) := by
    unfold lastBeforeFree
    simp only [leadingUsed_iff, forall_eq]
  rw [hget, hall]
  unfold expectedArgs
  constructor
  · intro h
    split at h
    · rename_i h0
      split at h
      · rename_i h0'
        exact Or.inr (Or.inr ⟨h0, h0'⟩)
      · cases h
    · split at h
      · cases h
      · exact Or.inr (Or.inl (Prod.mk.inj h).2)
  · rintro (heq | heq | ⟨h0, h0'⟩)
    · rw [heq]
    · rw [heq]
    · rw [if_pos h0, if_pos h0']

/-- `shell a`. -/
def shellWithArgument : List UInt8 := [115, 104, 101, 108, 108, 32, 97, 0]

/-- A process that runs alone gets its arguments. -/
theorem getargs_of_only_child :
    ∃ m, run (step smallDisk) (bootMachine smallDisk blankMemory blankFrame)
        [.execute (some shellWithArgument) blankFrame] = some m ∧
      getargs false m.procs = expectedArgs (m.births m.active).args := by
  have hrun : (run (step smallDisk) (bootMachine smallDisk blankMemory blankFrame)
      [.execute (some shellWithArgument) blankFrame]).map
        (fun m => (decide (m.ctl m.term = .running), getargsPid m.procs, m.active)) =
      some (true, 2, 2) := by
    decide +kernel
  obtain ⟨m, hm, hfields⟩ := Option.map_eq_some_iff.mp hrun
  obtain ⟨hrunning, hrest⟩ := Prod.mk.inj hfields
  obtain ⟨hpid, hactive⟩ := Prod.mk.inj hrest
  refine ⟨m, hm, (getargs_correct_iff smallDisk smallDisk_shellLoads blankMemory blankFrame _ m hm
    (of_decide_eq_true hrunning)).mpr fun n hn => Or.inl ?_⟩
  rw [(leadingUsed_iff _ _).mp hn, hpid, hactive]

/-- Process 2 was executed as `shell a`, and shells 3 and 4 have been started on the other terminals:
    `getargs` tells process 2 that it has no arguments, because process 4 has none. -/
theorem getargs_reads_another_process :
    ∃ m, run (step smallDisk) (bootMachine smallDisk blankMemory blankFrame)
        [.execute (some shellWithArgument) blankFrame, .tick 0 0 blankFrame, .tick 0 0 blankFrame,
          .tick 0 0 blankFrame] = some m ∧
      m.ctl m.term = .running ∧ getargs false m.procs ≠ expectedArgs (m.births m.active).args := by
  have hrun : (run (step smallDisk) (bootMachine smallDisk blankMemory blankFrame)
      [.execute (some shellWithArgument) blankFrame, .tick 0 0 blankFrame, .tick 0 0 blankFrame,
        .tick 0 0 blankFrame]).map
        (fun m => (decide (m.ctl m.term = .running), (getargs false m.procs).1,
          (expectedArgs (m.births m.active).args).1)) =
      some (true, -1, 0) := by
    decide +kernel
  obtain ⟨m, hm, hfields⟩ := Option.map_eq_some_iff.mp hrun
  obtain ⟨hrunning, hrest⟩ := Prod.mk.inj hfields
  obtain ⟨hgot, hwant⟩ := Prod.mk.inj hrest
  refine ⟨m, hm, of_decide_eq_true hrunning, fun heq => ?_⟩
  rw [heq, hwant] at hgot
  cases hgot

end ByteVerse
