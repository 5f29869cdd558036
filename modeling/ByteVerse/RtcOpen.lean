/-
  The rate that a program finds when it opens the RTC.

  `rtc_open` sets the interval of the terminal to 512 ticks, and `rtc_ops` has it as its `open`.  But
  the system call `open` calls neither of them: both calls are commented out.  So a program that opens
  the RTC file gets the interval that the last accepted `rtc_write` on its terminal left, of whatever
  program that was; `close`, `halt` and `execute` do not touch it either.

  The run carries the history that matters: the last frequency accepted on each terminal, and which
  processes have opened the RTC and set no rate since.  `open_interval_iff` says when such a process
  has its 512 ticks, and when two histories are the same to it.
-/
import ByteVerse.DescriptorTable
import ByteVerse.Machine
import ByteVerse.Unwinding
import ByteVerse.VirtualRtc

set_option linter.unusedVariables false

namespace ByteVerse

open SlotTable Run

/-! ## Programs that use the RTC -/

inductive RtcEvent
  /-- The running process makes a system call on its descriptors. -/
  | call (c : FdCall)
  /-- It executes a program or halts, or the timer preempts it. -/
  | process (e : Event)
  /-- A tick of the hardware RTC. -/
  | rtcTick

def useStep (disk : Disk) (m : Machine) : RtcEvent → Option Machine
  | .call c =>
    if m.ctl m.term = .running then (fdStep disk.img m.kernel c).map fun k => { m with kernel := k }
    else none
  | .process e => step disk m e
  | .rtcTick => some { m with kernel := { m.kernel with rtc := rtcHandler m.term m.kernel.rtc } }

/-- `open` finds the name, of the type of the RTC, and there is a descriptor left. -/
def opensRtc (img : Image) (pcb : Pcb) : FdCall → Bool
  | .openFile filename =>
    decide (pcb.numOpenDescriptors < numFds) &&
      match readDentryByName img filename with
      | some (myDentry, _) => decide (myDentry.filetype = userFiletype)
      | none => false
  | _ => false

/-- The call gets to `rtc_write`. -/
def callsRtcWrite (pcb : Pcb) : FdCall → Bool
  | .write fd buf _ => writeTarget pcb fd buf.isNone == some .rtcWrite
  | _ => false

/-- The frequency of an `rtc_write` that is accepted. -/
def setsRate (pcb : Pcb) : FdCall → Option Int
  | .write fd buf nbytes =>
    if callsRtcWrite pcb (.write fd buf nbytes) ∧ acceptsFrequency (int32At (buf.getD [])) then
      some (int32At (buf.getD []))
    else none
  | _ => none

structure RtcRun where
  machine : Machine
  /-- The frequency of the last `rtc_write` accepted on each terminal. -/
  lastRate : Fin 3 → Option Int
  /-- The process, by its serial number, has opened the RTC and no `rtc_write` of it has been
      accepted since. -/
  opened : Nat → Bool

/-- The serial number of the process of terminal `t`. -/
def RtcRun.program (r : RtcRun) (t : Fin 3) : Nat := (r.machine.births (r.machine.procs.activePid t)).serial

/-- Its interval between virtual interrupts, in hardware ticks. -/
def RtcRun.interval (r : RtcRun) (t : Fin 3) : Int := r.machine.kernel.rtc.counterFreqRate t

def RtcRun.pcb (r : RtcRun) : Pcb := callerPcb r.machine.kernel

/-- The history after an event that leads to `m`. -/
def RtcRun.next (r : RtcRun) (img : Image) (m : Machine) : RtcEvent → RtcRun
  | .call c =>
    let t := r.machine.term
    if opensRtc img r.pcb c then
      { r with machine := m, opened := Function.update r.opened (r.program t) true }
    else
      match setsRate r.pcb c with
      | some f =>
        { machine := m
          lastRate := Function.update r.lastRate t (some f)
          opened := Function.update r.opened (r.program t) false }
      | none => { r with machine := m }
  | _ => { r with machine := m }

def rtcStep (disk : Disk) (r : RtcRun) (e : RtcEvent) : Option RtcRun :=
  (useStep disk r.machine e).map fun m => r.next disk.img m e

/-- After boot nobody has opened the RTC or set a rate. -/
def bootRtc (disk : Disk) (pw : PowerOn) (fr : Frame) : RtcRun :=
  { machine := bootMachine disk pw fr, lastRate := fun _ => none, opened := fun _ => false }

/-! ## The property and the condition -/

/-- The interval that the last accepted frequency leaves. -/
def intervalOf : Option Int → Int
  | none => 512
  | some f => rtcMax.tdiv f

/-- A program that has opened the RTC and set no rate has 512 ticks. -/
def HasDefault (r : RtcRun) : Prop := ∀ t, r.opened (r.program t) = true → r.interval t = 512

/-- The last frequency accepted on its terminal was 2, or there was none. -/
def HistoryDefault (r : RtcRun) : Prop :=
  ∀ t, r.opened (r.program t) = true → r.lastRate t = none ∨ r.lastRate t = some 2

/-- The events of a run but the calls of `rtc_write`. -/
def otherEvents (disk : Disk) : RtcRun → List RtcEvent → List RtcEvent :=
  collect (rtcStep disk) fun r e =>
    match e with
    | .call c => if callsRtcWrite r.pcb c then [] else [e]
    | _ => [e]

/-- Two runs that differ in calls of `rtc_write` only, and end with the program of terminal `t` having
    opened the RTC and set no rate. -/
structure OpensAlike (disk : Disk) (start : RtcRun) (t : Fin 3) (es es' : List RtcEvent)
    (r r' : RtcRun) : Prop where
  first : run (rtcStep disk) start es = some r
  second : run (rtcStep disk) start es' = some r'
  others : otherEvents disk start es = otherEvents disk start es'
  opened : r.opened (r.program t) = true
  opened' : r'.opened (r'.program t) = true

/-! ## What sets the interval -/

section Interval

variable {disk : Disk} {img : Image} {k k' : Kernel} {r r' : RtcRun}

theorem rtcHandler_rate (s : Fin 3) (rtc : Rtc) :
    (rtcHandler s rtc).counterFreqRate = rtc.counterFreqRate := by
  unfold rtcHandler
  simp only
  split <;> rfl

theorem rtcRead_rate {s : Fin 3} {rtc rtc' : Rtc} (h : rtcRead s rtc = some rtc') :
    rtc'.counterFreqRate = rtc.counterFreqRate := by
  unfold rtcRead at h
  split at h
  · cases h
  · obtain rfl := Option.some.inj h
    rfl

theorem sysRead_rate (fd : Int) (nullBuf : Bool) (nbytes : Int) (k : Kernel) :
    (sysRead img fd nullBuf nbytes k).1.rtc.counterFreqRate = k.rtc.counterFreqRate := by
  rcases htarget : readTarget (k.procs.running k.schedTerm) fd nullBuf with _ | f
  · rw [sysRead_none htarget]
  · rw [sysRead_some htarget]
    cases f with
    | fileRead | dirRead => rfl
    | rtcRead =>
      simp only [callRead]
      rcases hread : rtcRead k.schedTerm k.rtc with _ | rtc
      · rfl
      · exact rtcRead_rate hread
    | terminalRead =>
      simp only [callRead]
      split <;> rfl

/-- **A call on a descriptor** sets the caller's rate when it is an accepted `rtc_write`, and leaves every
    rate alone otherwise. -/
theorem fdStep_rate {c : FdCall} (h : fdStep img k c = some k') :
    k'.rtc.counterFreqRate = (setsRate (callerPcb k) c).elim k.rtc.counterFreqRate fun f =>
      Function.update k.rtc.counterFreqRate k.schedTerm (rtcMax.tdiv f) := by
  cases c with
  | openFile filename | close fd =>
    obtain rfl := Option.some.inj h
    rfl
  | read fd nullBuf nbytes =>
    obtain rfl := Option.some.inj h
    exact sysRead_rate fd nullBuf nbytes k
  | write fd buf nbytes =>
    obtain rfl := Option.some.inj h
    rcases htarget : writeTarget (callerPcb k) fd buf.isNone with _ | f
    · have hsets : setsRate (callerPcb k) (.write fd buf nbytes) = none := by
        simp [setsRate, callsRtcWrite, htarget]
      rw [sysWrite_none nbytes htarget, hsets]
      rfl
    · cases f with
      | fileWrite | dirWrite | terminalWrite =>
        have hsets : setsRate (callerPcb k) (.write fd buf nbytes) = none := by
          simp [setsRate, callsRtcWrite, htarget]
        rw [sysWrite_some nbytes htarget, hsets]
        rfl
      | rtcWrite =>
        have hsets : setsRate (callerPcb k) (.write fd buf nbytes) =
            if acceptsFrequency (int32At (buf.getD [])) then some (int32At (buf.getD [])) else none := by
          simp [setsRate, callsRtcWrite, htarget]
        rw [sysWrite_some nbytes htarget, hsets]
        simp only [callWrite, rtcWrite_statements]
        by_cases haccepts : acceptsFrequency (int32At (buf.getD [])) = true
        · rw [if_pos haccepts, if_pos haccepts]
          rfl
        · rw [if_neg haccepts, if_neg haccepts]
          rfl

theorem halt_rtc (disk : Disk) (fr : Frame) (status : UInt8) (k : Kernel) :
    (halt disk fr status k).1.rtc = k.rtc := by
  have hshell : ∀ (caller : ShellCaller) (site : RetSite) (k : Kernel),
      (executeShell disk caller fr site k).1.rtc = k.rtc :=
    fun _ site k => (execute_rtc _ _ _ _ k).1
  unfold halt
  simp only
  split
  · have hrtc := hshell .halt (.halt (k.procs.activePid k.schedTerm) (haltRetVal status))
      { cli k with procs := freePid (k.procs.activePid k.schedTerm) k.procs }
    split
    · rename_i heq
      exact (congrArg (fun x => x.1.rtc) heq).symm.trans hrtc
    · rename_i heq
      exact (congrArg (fun x => x.1.rtc) heq).symm.trans hrtc
  · rfl

/-- Processes come and go without the clocks. -/
theorem step_rtc {m m' : Machine} {e : Event} (h : step disk m e = some m') :
    m'.kernel.rtc = m.kernel.rtc := by
  cases e with
  | execute command fr =>
    simp only [step] at h
    split at h
    · have hrtc := (execute_rtc disk.img fr .syscall command m.kernel).1
      split at h
      · rename_i heq
        obtain rfl := Option.some.inj h
        rw [heq] at hrtc
        exact hrtc
      · rename_i heq
        obtain rfl := Option.some.inj h
        rw [heq] at hrtc
        exact hrtc
    · cases h
  | halt status fr =>
    simp only [step] at h
    split at h
    · have hrtc := halt_rtc disk fr status m.kernel
      split at h
      · rename_i heq
        obtain rfl := Option.some.inj h
        rw [heq] at hrtc
        exact hrtc
      · rename_i heq
        obtain rfl := Option.some.inj h
        rw [heq] at hrtc
        exact hrtc
    · cases h
  | resumeHalt =>
    simp only [step] at h
    split at h
    · obtain rfl := Option.some.inj h
      rfl
    · cases h
  | tick esp ebp fr =>
    simp only [step] at h
    split at h
    · cases h
    · have hrtc := scheduler_rtc disk esp ebp fr m.kernel
      split at h
      all_goals
        rename_i heq
        obtain rfl := Option.some.inj h
        rw [heq] at hrtc
        exact hrtc

/-! ## The invariant -/

/-- The interval of every terminal is the one that its last accepted frequency has left. -/
structure RateInv (r : RtcRun) : Prop where
  interval : ∀ t, r.interval t = intervalOf (r.lastRate t)
  accepted : ∀ t f, r.lastRate t = some f → acceptsFrequency f = true

theorem setsRate_accepted {pcb : Pcb} {c : FdCall} {f : Int} (h : setsRate pcb c = some f) :
    acceptsFrequency f = true := by
  cases c with
  | openFile | close | read => cases h
  | write fd buf nbytes =>
    simp only [setsRate] at h
    split at h
    · rename_i haccepts
      obtain rfl := Option.some.inj h
      exact haccepts.2
    · cases h

/-- `open` is no `rtc_write`. -/
theorem setsRate_of_opensRtc {pcb : Pcb} {c : FdCall} (h : opensRtc img pcb c = true) :
    setsRate pcb c = none := by
  cases c with
  | openFile filename => rfl
  | close | read | write => cases h

/-- **The step lemma.** -/
theorem RateInv.step (h : RateInv r) {e : RtcEvent} (hs : rtcStep disk r e = some r') : RateInv r' := by
  obtain ⟨m, hm, rfl⟩ := Option.map_eq_some_iff.mp hs
  cases e with
  | call c =>
    simp only [useStep] at hm
    split at hm
    · obtain ⟨k, hk, rfl⟩ := Option.map_eq_some_iff.mp hm
      have hrate := fdStep_rate hk
      simp only [RtcRun.next]
      by_cases hopens : opensRtc disk.img r.pcb c = true
      · rw [show setsRate (callerPcb r.machine.kernel) c = none from setsRate_of_opensRtc hopens] at hrate
        rw [if_pos hopens]
        refine ⟨fun t => ?_, h.accepted⟩
        exact (congrFun hrate t).trans (h.interval t)
      · rw [if_neg hopens]
        rcases hsets : setsRate r.pcb c with _ | f
        · rw [show setsRate (callerPcb r.machine.kernel) c = none from hsets] at hrate
          exact ⟨fun t => (congrFun hrate t).trans (h.interval t), h.accepted⟩
        · rw [show setsRate (callerPcb r.machine.kernel) c = some f from hsets] at hrate
          refine ⟨fun t => (congrFun hrate t).trans ?_, fun t f' hlast => ?_⟩
          · show Function.update r.machine.kernel.rtc.counterFreqRate r.machine.term (rtcMax.tdiv f) t =
              intervalOf (Function.update r.lastRate r.machine.term (some f) t)
            by_cases ht : t = r.machine.term
            · rw [ht, Function.update_self, Function.update_self]
              rfl
            · rw [Function.update_of_ne ht, Function.update_of_ne ht]
              exact h.interval t
          · have hupdate : Function.update r.lastRate r.machine.term (some f) t = some f' := hlast
            by_cases ht : t = r.machine.term
            · rw [ht, Function.update_self] at hupdate
              rw [← Option.some.inj hupdate]
              exact setsRate_accepted hsets
            · rw [Function.update_of_ne ht] at hupdate
              exact h.accepted t f' hupdate
    · cases hm
  | process e =>
    have hrtc := step_rtc hm
    refine ⟨fun t => ?_, h.accepted⟩
    show m.kernel.rtc.counterFreqRate t = _
    rw [hrtc]
    exact h.interval t
  | rtcTick =>
    obtain rfl := Option.some.inj hm
    refine ⟨fun t => ?_, h.accepted⟩
    show (rtcHandler r.machine.term r.machine.kernel.rtc).counterFreqRate t = _
    rw [rtcHandler_rate]
    exact h.interval t

theorem bootRtc_rateInv (disk : Disk) (pw : PowerOn) (fr : Frame) : RateInv (bootRtc disk pw fr) := by
  refine ⟨fun t => ?_, nofun⟩
  show (execute disk.img fr .entry _ (initialKernel pw)).1.rtc.counterFreqRate t = 512
  rw [(execute_rtc _ _ _ _ _).1]
  rfl

/-- Of the accepted frequencies 2 alone gives the default. -/
theorem tdiv_eq_default {f : Int} (h : acceptsFrequency f = true) : rtcMax.tdiv f = 512 ↔ f = 2 := by
  obtain ⟨hmin, hmax, -⟩ := (acceptsFrequency_iff f).mp h
  simp only [rtcMin, rtcMax] at *
  rw [Int.tdiv_eq_ediv_of_nonneg (by decide), Int.ediv_eq_iff_of_pos (by omega)]
  omega

/-- **The interval and the history agree.** -/
theorem RateInv.default_iff (h : RateInv r) : HasDefault r ↔ HistoryDefault r := by
  refine forall_congr' fun t => imp_congr_right fun _ => ?_
  rw [h.interval]
  rcases hlast : r.lastRate t with _ | f
  · exact iff_of_true rfl (Or.inl rfl)
  · rw [intervalOf, tdiv_eq_default (h.accepted t f hlast)]
    simp only [reduceCtorEq, false_or, Option.some.injEq]

end Interval

/-! ## Runs -/

/-- **Opening the RTC.**  In a run after boot of system calls on descriptors, executed and halting
    programs, and ticks of both timers: a program that has opened the RTC has 512 ticks until it sets
    a rate, exactly when the last frequency accepted on its terminal was 2 or there was none.  And
    for two runs that differ in calls of `rtc_write` only, it has the same interval in both exactly
    when the last frequencies accepted on its terminal give the same quotient. -/
theorem open_interval_iff (disk : Disk) (pw : PowerOn) (fr : Frame) :
    (∀ events, Throughout (rtcStep disk) HasDefault (bootRtc disk pw fr) events ↔
      Throughout (rtcStep disk) HistoryDefault (bootRtc disk pw fr) events) ∧
    ∀ t es es',
      (∀ r r', OpensAlike disk (bootRtc disk pw fr) t es es' r r' → r.interval t = r'.interval t) ↔
      ∀ r r', OpensAlike disk (bootRtc disk pw fr) t es es' r r' →
        intervalOf (r.lastRate t) = intervalOf (r'.lastRate t) := by
  have hstep : ∀ r e r', RateInv r → rtcStep disk r e = some r' → RateInv r' :=
    fun r e r' h hs => h.step hs
  have hstart := bootRtc_rateInv disk pw fr
  have hend : ∀ {es r}, run (rtcStep disk) (bootRtc disk pw fr) es = some r → RateInv r :=
    fun hr => throughout_last (throughout_of_inv hstep hstart) hr
  refine ⟨fun events => throughout_congr hstep (fun r h => h.default_iff) hstart, fun t es es' => ?_⟩
  refine forall_congr' fun r => forall_congr' fun r' => forall_congr' fun h => ?_
  rw [(hend h.first).interval, (hend h.second).interval]

/-- The RTC file. -/
def rtcName : List UInt8 := [114, 116, 99, 0]

/-- The first shell opens the RTC, sets it to 1024 Hz and executes a program that opens it too. -/
theorem open_keeps_earlier_rate :
    ¬ Throughout (rtcStep smallDisk) HasDefault (bootRtc smallDisk blankMemory blankFrame)
      [.call (.openFile rtcName), .call (.write 2 (some [0, 4, 0, 0]) 4),
        .process (.execute (some shellLine) blankFrame), .call (.openFile rtcName)] := by
  intro h
  have hrun : (run (rtcStep smallDisk) (bootRtc smallDisk blankMemory blankFrame)
      [.call (.openFile rtcName), .call (.write 2 (some [0, 4, 0, 0]) 4),
        .process (.execute (some shellLine) blankFrame),
        .call (.openFile rtcName)]).map (fun r => (r.opened (r.program 0), r.interval 0)) =
      some (true, 1) := by
    decide +kernel
  obtain ⟨r, hr, hfields⟩ := Option.map_eq_some_iff.mp hrun
  obtain ⟨hopened, hinterval⟩ := Prod.mk.inj hfields
  have hdefault := throughout_last h hr 0 hopened
  rw [hinterval] at hdefault
  cases hdefault

end ByteVerse
