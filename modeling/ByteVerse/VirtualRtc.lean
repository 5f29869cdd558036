/-
  The virtual real-time clocks of `rtc.c`.

  Every hardware tick advances the counters of all three terminals, but `rtc_handler` compares,
  raises and resets the scheduled terminal's alone, so the counter of a terminal that is not
  scheduled runs past its limit.  `rtc_write` and `rtc_read` work on the scheduled terminal, that is
  on the caller's own; both can be preempted between their two assignments, so the model takes them
  statement by statement (`clockStatement`), and `rtcWrite_statements` and `rtcRead_statements` say
  that the statements without interruption are the calls of `Descriptors`.

  Two results:
  * a terminal's flag is never raised early, whatever the schedule, and no call of another terminal
    touches its clock (`never_early_isolated`);
  * while the terminal stays scheduled the flag is raised once in `1024 / f` ticks, which is the rate
    `f` exactly when `f` divides 1024 (`rate_exact_iff`).
-/
import Mathlib.Tactic.Linarith
import Mathlib.Tactic.Ring
import ByteVerse.Terminal
import ByteVerse.Run

set_option linter.unusedVariables false

namespace ByteVerse

open SlotTable Run

/-! ## `rtc_handler` -/

/-- The `int` that `c++` leaves. -/
def increment (c : Int) : Int := (c + 1).bmod (2 ^ 32)

/-- `rtc_handler`, with terminal `s` scheduled. -/
def rtcHandler (s : Fin 3) (rtc : Rtc) : Rtc :=
  let rtc := { rtc with rtcCounter := fun t => increment (rtc.rtcCounter t) }
  if rtc.rtcCounter s ≥ rtc.counterFreqRate s then
    { rtc with
      rtcInterruptOccured := Function.update rtc.rtcInterruptOccured s 1
      rtcCounter := Function.update rtc.rtcCounter s 0 }
  else { rtc with rtcInterruptOccured := Function.update rtc.rtcInterruptOccured s 0 }

/-- The clock of one terminal. -/
structure VirtualClock where
  rate : Int
  counter : Int
  flag : Int
  deriving DecidableEq

def Rtc.clock (rtc : Rtc) (t : Fin 3) : VirtualClock :=
  { rate := rtc.counterFreqRate t, counter := rtc.rtcCounter t, flag := rtc.rtcInterruptOccured t }

/-! ## The calls, statement by statement -/

/-- Where a call of `rtc_write` or `rtc_read` stands. -/
inductive ClockCall
  /-- `rtc_write` at its checks. -/
  | write (buf : List UInt8)
  /-- `rtc_write` with the interval set and the counter not yet reset. -/
  | reset
  /-- `rtc_read` in its wait loop. -/
  | wait
  /-- `rtc_read` out of the loop, with the flag not yet cleared. -/
  | clearFlag
  deriving DecidableEq

/-- The checks of `rtc_write` on the frequency. -/
def acceptsFrequency (frequency : Int) : Bool :=
  decide (rtcMin ≤ frequency ∧ frequency ≤ rtcMax ∧ (frequency - 1) % 2 ≠ 0)

def setInterval (s : Fin 3) (frequency : Int) (rtc : Rtc) : Rtc :=
  { rtc with counterFreqRate := Function.update rtc.counterFreqRate s (rtcMax.tdiv frequency) }

def resetCounter (s : Fin 3) (rtc : Rtc) : Rtc :=
  { rtc with rtcCounter := Function.update rtc.rtcCounter s 0 }

def clearFlag (s : Fin 3) (rtc : Rtc) : Rtc :=
  { rtc with rtcInterruptOccured := Function.update rtc.rtcInterruptOccured s 0 }

/-- The next statement of a call on the scheduled terminal `s`; `none` for a call that returns. -/
def clockStatement (s : Fin 3) (call : ClockCall) (rtc : Rtc) : Rtc × Option ClockCall :=
  match call with
  | .write buf =>
    if acceptsFrequency (int32At buf) then (setInterval s (int32At buf) rtc, some .reset)
    else (rtc, none)
  | .reset => (resetCounter s rtc, none)
  | .wait => if rtc.rtcInterruptOccured s ≠ 1 then (rtc, some .wait) else (rtc, some .clearFlag)
  | .clearFlag => (clearFlag s rtc, none)

theorem acceptsFrequency_iff (frequency : Int) : acceptsFrequency frequency = true ↔
    rtcMin ≤ frequency ∧ frequency ≤ rtcMax ∧ (frequency - 1) % 2 ≠ 0 :=
  decide_eq_true_iff

/-- `rtc_write` without interruption. -/
theorem rtcWrite_statements (s : Fin 3) (buf : List UInt8) (rtc : Rtc) :
    rtcWrite s buf rtc =
      if acceptsFrequency (int32At buf) then
        (resetCounter s (setInterval s (int32At buf) rtc), 0)
      else (rtc, -1) := by
  unfold rtcWrite
  simp only [acceptsFrequency_iff]
  by_cases hbound : int32At buf < rtcMin ∨ int32At buf > rtcMax
  · rw [if_pos hbound, if_neg (by omega)]
  · rw [if_neg hbound]
    by_cases hodd : (int32At buf - 1) % 2 = 0
    · rw [if_pos hodd, if_neg fun h => h.2.2 hodd]
    · rw [if_neg hodd, if_pos ⟨by omega, by omega, hodd⟩]
      rfl

/-- `rtc_read` without interruption. -/
theorem rtcRead_statements (s : Fin 3) (rtc : Rtc) :
    rtcRead s rtc =
      match clockStatement s .wait rtc with
      | (rtc, some .clearFlag) => some (clockStatement s .clearFlag rtc).1
      | _ => none := by
  unfold rtcRead clockStatement
  by_cases hflag : rtc.rtcInterruptOccured s ≠ 1
  · rw [if_pos hflag]
    simp only [if_pos hflag]
  · rw [if_neg hflag]
    simp only [if_neg hflag]
    rfl

/-! ## The machine: ticks, switches and calls -/

structure ClockMachine where
  kernel : Kernel
  /-- The call that the running process of each terminal is in. -/
  calls : Fin 3 → Option ClockCall

def ClockMachine.term (m : ClockMachine) : Fin 3 := m.kernel.schedTerm
def ClockMachine.clock (m : ClockMachine) (t : Fin 3) : VirtualClock := m.kernel.rtc.clock t

inductive ClockEvent
  /-- A tick of the hardware RTC. -/
  | tick
  /-- A timer interrupt: `scheduler` switches to the next terminal. -/
  | switch (esp ebp : Nat) (fr : Frame)
  /-- The running process calls `rtc_write`. -/
  | write (buf : List UInt8)
  /-- The running process calls `rtc_read`. -/
  | read
  /-- The running process executes the next statement of its call. -/
  | statement

def ClockMachine.setCall (m : ClockMachine) (call : Option ClockCall) : ClockMachine :=
  { m with calls := Function.update m.calls m.term call }

/-- The running process executes a statement of the call it is in. -/
def ClockMachine.advance (m : ClockMachine) (call : ClockCall) : ClockMachine :=
  let r := clockStatement m.term call m.kernel.rtc
  { kernel := { m.kernel with rtc := r.1 }, calls := Function.update m.calls m.term r.2 }

def clockStep (disk : Disk) (m : ClockMachine) : ClockEvent → Option ClockMachine
  | .tick => some { m with kernel := { m.kernel with rtc := rtcHandler m.term m.kernel.rtc } }
  | .switch esp ebp fr => some { m with kernel := (scheduler disk esp ebp fr m.kernel).1 }
  | .write buf => if (m.calls m.term).isNone then some (m.setCall (some (.write buf))) else none
  | .read => if (m.calls m.term).isNone then some (m.setCall (some .wait)) else none
  | .statement => (m.calls m.term).map m.advance

/-- The event makes `rtc_handler` raise the flag of terminal `t`: were the flag down before the tick, it
    would be up after it. -/
def raises (t : Fin 3) (m : ClockMachine) : ClockEvent → Prop
  | .tick => ((rtcHandler m.term (clearFlag t m.kernel.rtc)).clock t).flag = 1
  | _ => False

/-- The event is the statement with which an `rtc_write` of terminal `t` is accepted. -/
def acceptsWrite (t : Fin 3) (m : ClockMachine) : ClockEvent → Prop
  | .statement => m.term = t ∧
      ∃ buf, m.calls t = some (.write buf) ∧ acceptsFrequency (int32At buf) = true
  | _ => False

/-- The event is the statement with which an `rtc_write` is rejected. -/
def rejectsWrite (m : ClockMachine) : ClockEvent → Prop
  | .statement => ∃ buf, m.calls m.term = some (.write buf) ∧ acceptsFrequency (int32At buf) = false
  | _ => False

/-- The event belongs to a call of `rtc_write` or `rtc_read`. -/
def isCall : ClockEvent → Prop
  | .write _ | .read | .statement => True
  | .tick | .switch .. => False

/-- The number of hardware ticks among the events. -/
def ticks (es : List ClockEvent) : Nat := es.countP fun e => e matches .tick

instance (t : Fin 3) (m : ClockMachine) (e : ClockEvent) : Decidable (raises t m e) :=
  match e with
  | .tick => inferInstanceAs (Decidable (_ = _))
  | .switch .. | .write _ | .read | .statement => isFalse id

/-! ## What an event does to a clock -/

theorem execute_rtc (img : Image) (fr : Frame) (site : RetSite) (command : Option (List UInt8))
    (k : Kernel) : (execute img fr site command k).1.rtc = k.rtc ∧
      (execute img fr site command k).1.schedTerm = k.schedTerm := by
  unfold execute
  rcases checkProgram img fr command with reenable | prog
  · cases reenable <;> exact ⟨rfl, rfl⟩
  · simp only
    rcases firstFree (cli k).procs.slotUsed 0 maxPcbs with _ | i
    · exact ⟨rfl, rfl⟩
    · simp only
      split <;> exact ⟨rfl, rfl⟩

/-- `scheduler` leaves the clocks alone. -/
theorem scheduler_rtc (disk : Disk) (esp ebp : Nat) (fr : Frame) (k : Kernel) :
    (scheduler disk esp ebp fr k).1.rtc = k.rtc := by
  unfold scheduler
  simp only
  split
  · exact (execute_rtc _ _ _ _ _).1
  · rfl

/-- A timer interrupt. -/
theorem clockStep_switch (disk : Disk) (m : ClockMachine) (esp ebp : Nat) (fr : Frame) :
    ∃ m', clockStep disk m (.switch esp ebp fr) = some m' ∧ m'.term = nextTerm m.term ∧
      m'.kernel.rtc = m.kernel.rtc := by
  refine ⟨_, rfl, ?_, scheduler_rtc disk esp ebp fr m.kernel⟩
  show (scheduler disk esp ebp fr m.kernel).1.schedTerm = _
  unfold scheduler
  simp only
  split
  · exact (execute_rtc _ _ _ _ _).2
  · rfl

theorem increment_of_lt {c : Int} (h0 : 0 ≤ c) (h1 : c + 1 < 2 ^ 31) : increment c = c + 1 :=
  Int.bmod_eq_of_le (by omega) (by omega)

theorem increment_le {c : Int} (h0 : 0 ≤ c) : increment c ≤ c + 1 := by
  unfold increment
  rw [Int.bmod_def]
  split <;> omega

/-- The clock of the scheduled terminal after a tick. -/
theorem rtcHandler_clock_self (s : Fin 3) (rtc : Rtc) :
    (rtcHandler s rtc).clock s =
      if (rtc.clock s).rate ≤ increment (rtc.clock s).counter then
        { rtc.clock s with counter := 0, flag := 1 }
      else { rtc.clock s with counter := increment (rtc.clock s).counter, flag := 0 } := by
  unfold rtcHandler
  simp only [ge_iff_le, Rtc.clock]
  by_cases hraise : rtc.counterFreqRate s ≤ increment (rtc.rtcCounter s)
  · simp [hraise]
  · simp [hraise]

/-- A clock whose terminal is not scheduled only counts. -/
theorem rtcHandler_clock_of_ne {s t : Fin 3} (hts : t ≠ s) (rtc : Rtc) :
    (rtcHandler s rtc).clock t =
      { rtc.clock t with counter := increment (rtc.clock t).counter } := by
  unfold rtcHandler
  simp only [Rtc.clock]
  split <;> simp only [Function.update_of_ne hts]

/-- **When a tick raises a flag**: only the scheduled terminal's, and only when its counter has reached the
    interval. -/
theorem raises_tick_iff {t : Fin 3} {m : ClockMachine} :
    raises t m .tick ↔ m.term = t ∧ (m.clock t).rate ≤ increment (m.clock t).counter := by
  have hdown : ((clearFlag t m.kernel.rtc).clock t).flag = 0 := Function.update_self _ _ _
  show ((rtcHandler m.term (clearFlag t m.kernel.rtc)).clock t).flag = 1 ↔ _
  by_cases hts : t = m.term
  · subst hts
    rw [rtcHandler_clock_self]
    -- clearing the flag leaves the rate and the counter
    show (ite ((m.clock m.term).rate ≤ increment (m.clock m.term).counter) _ _ : VirtualClock).flag = 1 ↔ _
    split
    · rename_i hraise
      exact iff_of_true rfl ⟨rfl, hraise⟩
    · rename_i hraise
      exact iff_of_false zero_ne_one fun h => hraise h.2
  · rw [rtcHandler_clock_of_ne hts]
    refine iff_of_false ?_ fun h => hts h.1.symm
    show ((clearFlag t m.kernel.rtc).clock t).flag ≠ 1
    rw [hdown]
    decide

/-- A statement of a call works on the clock of the scheduled terminal. -/
theorem clockStatement_of_ne {s t : Fin 3} (hts : t ≠ s) (call : ClockCall) (rtc : Rtc) :
    (clockStatement s call rtc).1.clock t = rtc.clock t := by
  cases call with
  | write buf =>
    simp only [clockStatement]
    split
    · simp only [setInterval, Rtc.clock, Function.update_of_ne hts]
    · rfl
  | wait =>
    simp only [clockStatement]
    split <;> rfl
  | reset => simp only [clockStatement, resetCounter, Rtc.clock, Function.update_of_ne hts]
  | clearFlag => simp only [clockStatement, ByteVerse.clearFlag, Rtc.clock, Function.update_of_ne hts]

/-- What one event can do to the clock of terminal `t`.  In every case but the first two it is the
    running process of `t` that executes a statement. -/
inductive ClockChange (t : Fin 3) (m : ClockMachine) (clock : VirtualClock) :
    ClockEvent → VirtualClock → Prop
  | same (e : ClockEvent) : ClockChange t m clock e clock
  | raised (hraises : raises t m .tick) :
      ClockChange t m clock .tick { clock with counter := 0, flag := 1 }
  | counted (flag : Int) :
      ClockChange t m clock .tick { clock with counter := increment clock.counter, flag := flag }
  | accepted (rate : Int) (haccepts : acceptsWrite t m .statement) :
      ClockChange t m clock .statement { clock with rate := rate }
  | reset : ClockChange t m clock .statement { clock with counter := 0 }
  | cleared : ClockChange t m clock .statement { clock with flag := 0 }

/-- **The inversion lemma** for one terminal's clock. -/
theorem clockStep_change {disk : Disk} {m m' : ClockMachine} {e : ClockEvent} (t : Fin 3)
    (h : clockStep disk m e = some m') : ClockChange t m (m.clock t) e (m'.clock t) := by
  cases e with
  | tick =>
    obtain rfl := Option.some.inj h
    show ClockChange t m _ _ ((rtcHandler m.term m.kernel.rtc).clock t)
    by_cases hts : t = m.term
    · subst hts
      rw [rtcHandler_clock_self]
      split
      · rename_i hraise
        exact .raised (raises_tick_iff.mpr ⟨rfl, hraise⟩)
      · exact .counted 0
    · rw [rtcHandler_clock_of_ne hts]
      exact .counted _
  | switch esp ebp fr =>
    obtain rfl := Option.some.inj h
    show ClockChange t m _ _ ((scheduler disk esp ebp fr m.kernel).1.rtc.clock t)
    rw [scheduler_rtc]
    exact .same _
  | write buf =>
    simp only [clockStep] at h
    split at h
    · obtain rfl := Option.some.inj h
      exact .same _
    · cases h
  | read =>
    simp only [clockStep] at h
    split at h
    · obtain rfl := Option.some.inj h
      exact .same _
    · cases h
  | statement =>
    obtain ⟨call, hcall, rfl⟩ := Option.map_eq_some_iff.mp h
    show ClockChange t m _ _ ((clockStatement m.term call m.kernel.rtc).1.clock t)
    by_cases hts : t = m.term
    · subst hts
      cases call with
      | write buf =>
        simp only [clockStatement]
        split
        · rename_i haccepts
          have hclock : (setInterval m.term (int32At buf) m.kernel.rtc).clock m.term =
              { m.clock m.term with rate := rtcMax.tdiv (int32At buf) } := by
            simp only [setInterval, Rtc.clock, Function.update_self, ClockMachine.clock]
          rw [hclock]
          exact .accepted _ ⟨rfl, buf, hcall, haccepts⟩
        · exact .same _
      | wait =>
        simp only [clockStatement]
        split <;> exact .same _
      | reset =>
        have hclock : (resetCounter m.term m.kernel.rtc).clock m.term =
            { m.clock m.term with counter := 0 } := by
          simp only [resetCounter, Rtc.clock, Function.update_self, ClockMachine.clock]
        simp only [clockStatement, hclock]
        exact .reset
      | clearFlag =>
        have hclock : (clearFlag m.term m.kernel.rtc).clock m.term =
            { m.clock m.term with flag := 0 } := by
          simp only [clearFlag, Rtc.clock, Function.update_self, ClockMachine.clock]
        simp only [clockStatement, hclock]
        exact .cleared
    · rw [clockStatement_of_ne hts]
      exact .same _

/-! ## Never early, and isolated -/

/-- Since the flag was raised, `n` ticks ago, the counter has not run ahead of the ticks. -/
structure CountsFrom (rate : Int) (n : Nat) (clock : VirtualClock) : Prop where
  rate : clock.rate = rate
  low : 0 ≤ clock.counter
  high : clock.counter ≤ n

/-- One event, with the tick it may be counted. -/
theorem CountsFrom.change {t : Fin 3} {rate : Int} {n : Nat} {m : ClockMachine}
    {clock clock' : VirtualClock} {e : ClockEvent} (h : CountsFrom rate n clock)
    (hwrite : ¬ acceptsWrite t m e) (hn : n + ticks [e] < 2 ^ 31)
    (hchange : ClockChange t m clock e clock') : CountsFrom rate (n + ticks [e]) clock' := by
  obtain ⟨hrate, hlow, hhigh⟩ := h
  have hhigh' : clock.counter ≤ (n + ticks [e] : Nat) := by omega
  cases hchange with
  | same => exact ⟨hrate, hlow, hhigh'⟩
  | raised | reset => exact ⟨hrate, Int.le_refl 0, Int.natCast_nonneg _⟩
  | counted flag =>
    have hone : ticks [ClockEvent.tick] = 1 := rfl
    rw [hone] at hn ⊢
    have hincr : increment clock.counter = clock.counter + 1 := increment_of_lt hlow (by omega)
    refine ⟨hrate, ?_, ?_⟩
    · show 0 ≤ increment clock.counter
      omega
    · show increment clock.counter ≤ (n + 1 : Nat)
      omega
  | accepted rate haccepts => exact absurd haccepts hwrite
  | cleared => exact ⟨hrate, hlow, hhigh'⟩

theorem ticks_cons (e : ClockEvent) (es : List ClockEvent) :
    ticks (e :: es) = ticks [e] + ticks es := by
  simp only [ticks, List.countP_cons, List.countP_nil]
  omega

/-- A run of them. -/
theorem CountsFrom.run {disk : Disk} {t : Fin 3} {rate : Int} {n : Nat} {m m' : ClockMachine}
    {es : List ClockEvent} (h : CountsFrom rate n (m.clock t))
    (hwrite : Along (clockStep disk) (fun m e => ¬ acceptsWrite t m e) m es)
    (hn : n + ticks es < 2 ^ 31) (hrun : Run.run (clockStep disk) m es = some m') :
    CountsFrom rate (n + ticks es) (m'.clock t) := by
  induction es generalizing m n with
  | nil =>
    obtain rfl : m = m' := Option.some.inj hrun
    exact h
  | cons e es ih =>
    obtain ⟨m₁, hstep, hrest⟩ := run_cons hrun
    obtain ⟨hgood, hwrite'⟩ := hwrite m₁ hstep
    rw [ticks_cons] at hn ⊢
    have h₁ := h.change hgood (by omega) (clockStep_change t hstep)
    rw [← Nat.add_assoc]
    exact ih h₁ hwrite' (by omega) hrest

/-- A raise resets the counter. -/
theorem countsFrom_raised {disk : Disk} {t : Fin 3} {m m' : ClockMachine} {e : ClockEvent}
    (hraises : raises t m e) (hstep : clockStep disk m e = some m') :
    CountsFrom (m.clock t).rate 0 (m'.clock t) := by
  cases e with
  | tick =>
    obtain ⟨rfl, hlimit⟩ := raises_tick_iff.mp hraises
    obtain rfl := Option.some.inj hstep
    have hclock := (rtcHandler_clock_self m.term m.kernel.rtc).trans (if_pos hlimit)
    show CountsFrom _ 0 ((rtcHandler m.term m.kernel.rtc).clock m.term)
    rw [hclock]
    exact ⟨rfl, Int.le_refl 0, Int.le_refl 0⟩
  | switch | write | read | statement => exact absurd hraises id

/-- What a call cannot touch: the clocks of the terminals that are not scheduled, and, when it is a
    rejected `rtc_write`, any clock. -/
theorem call_isolated {disk : Disk} {t : Fin 3} {m m' : ClockMachine} {e : ClockEvent}
    (hcall : isCall e) (hother : m.term ≠ t ∨ rejectsWrite m e)
    (hstep : clockStep disk m e = some m') : m'.clock t = m.clock t := by
  cases e with
  | tick | switch => exact absurd hcall id
  | write buf | read =>
    simp only [clockStep] at hstep
    split at hstep
    · obtain rfl := Option.some.inj hstep
      rfl
    · cases hstep
  | statement =>
    obtain ⟨call, hcall', rfl⟩ := Option.map_eq_some_iff.mp hstep
    show (clockStatement m.term call m.kernel.rtc).1.clock t = _
    rcases hother with hne | ⟨buf, hbuf, hrejects⟩
    · exact clockStatement_of_ne (Ne.symm hne) call m.kernel.rtc
    · obtain rfl : .write buf = call := Option.some.inj (hbuf.symm.trans hcall')
      simp only [clockStatement, hrejects]
      rfl

/-- **Never early, and isolated.**  For every run between two ticks that raise the flag of terminal
    `t`, in which no `rtc_write` of `t` is accepted: at least `counter_freqRate` ticks separate them.
    And no statement of a call on another terminal, and no rejected `rtc_write`, changes the rate,
    the counter or the flag of `t`. -/
theorem never_early_isolated (disk : Disk) (t : Fin 3) :
    (∀ (m m₁ m₂ : ClockMachine) (first second : ClockEvent) (es : List ClockEvent),
      raises t m first → clockStep disk m first = some m₁ →
      run (clockStep disk) m₁ es = some m₂ → raises t m₂ second →
      Along (clockStep disk) (fun m e => ¬ acceptsWrite t m e) m₁ es →
      ticks es < 2 ^ 31 →
      (m₂.clock t).rate = (m.clock t).rate ∧
        (m.clock t).rate ≤ ticks (es ++ [second])) ∧
    ∀ (m m' : ClockMachine) (e : ClockEvent), clockStep disk m e = some m' → isCall e →
      m.term ≠ t ∨ rejectsWrite m e → m'.clock t = m.clock t := by
  constructor
  · intro m m₁ m₂ first second es hfirst hstep hrun hsecond hwrite hn
    have hcounts := (countsFrom_raised hfirst hstep).run hwrite (by omega) hrun
    rw [Nat.zero_add] at hcounts
    cases second with
    | tick =>
      refine ⟨hcounts.rate, ?_⟩
      have hlimit := (raises_tick_iff.mp hsecond).2
      rw [hcounts.rate] at hlimit
      have hle := increment_le hcounts.low
      have hticks : ticks (es ++ [.tick]) = ticks es + 1 := by
        simp only [ticks, List.countP_append]
        rfl
      rw [hticks]
      have := hcounts.high
      omega
    | switch | write | read | statement => exact absurd hsecond id
  · intro m m' e hstep hcall hother
    exact call_isolated hcall hother hstep

/-- Three started terminals whose clocks are to raise their flags at every second tick. -/
def halfRate : ClockMachine where
  kernel :=
    { initialKernel blankMemory with
      procs := { initialProcs blankMemory with status := fun _ => 1 }
      rtc := { initialRtc with counterFreqRate := fun _ => 2, rtcCounter := fun _ => 1 } }
  calls := fun _ => none

/-- One turn around the terminals, with a tick on the way. -/
def aroundTheTerminals : List ClockEvent :=
  [.switch 0 0 blankFrame, .tick, .switch 0 0 blankFrame, .switch 0 0 blankFrame]

/-- The terminal that is scheduled at both ends has counted the tick. -/
theorem run_aroundTheTerminals (disk : Disk) (m : ClockMachine) :
    ∃ m', run (clockStep disk) m aroundTheTerminals = some m' ∧ m'.term = m.term ∧
      m'.clock m.term =
        { m.clock m.term with counter := increment (m.clock m.term).counter } := by
  obtain ⟨a, ha, hterma, hrtca⟩ := clockStep_switch disk m 0 0 blankFrame
  have htick : clockStep disk a .tick =
      some { a with kernel := { a.kernel with rtc := rtcHandler a.term a.kernel.rtc } } := rfl
  obtain ⟨c, hc, htermc, hrtcc⟩ := clockStep_switch disk
    { a with kernel := { a.kernel with rtc := rtcHandler a.term a.kernel.rtc } } 0 0 blankFrame
  obtain ⟨d, hd, htermd, hrtcd⟩ := clockStep_switch disk c 0 0 blankFrame
  refine ⟨d, ?_, ?_, ?_⟩
  · simp only [aroundTheTerminals, run, ha, htick, hc, hd, Option.bind_some]
  · rw [htermd, htermc]
    show nextTerm (nextTerm a.term) = m.term
    rw [hterma]
    exact (by decide : ∀ s : Fin 3, nextTerm (nextTerm (nextTerm s)) = s) m.term
  · have hne : m.term ≠ a.term := by
      rw [hterma]
      exact (by decide : ∀ s : Fin 3, s ≠ nextTerm s) m.term
    have hclock : d.clock m.term = (rtcHandler a.term a.kernel.rtc).clock m.term := by
      rw [ClockMachine.clock, hrtcd, hrtcc]
    rw [hclock, rtcHandler_clock_of_ne hne, hrtca]
    rfl

/-- Two raises of terminal 0, with a rejected write (3 Hz) and a turn around the terminals between them. -/
theorem two_ticks_apart :
    ∃ m₁ m₂, clockStep smallDisk halfRate .tick = some m₁ ∧
      run (clockStep smallDisk) m₁ ([.write [3, 0, 0, 0], .statement] ++ aroundTheTerminals) = some m₂ ∧
      raises 0 halfRate .tick ∧ raises 0 m₂ .tick ∧
      (m₂.clock 0).rate = (halfRate.clock 0).rate ∧
      (halfRate.clock 0).rate ≤
        ticks ([.write [3, 0, 0, 0], .statement] ++ aroundTheTerminals ++ [.tick]) := by
  have hfirst : raises 0 halfRate .tick := by decide +kernel
  have hrejected : ((run (clockStep smallDisk) halfRate [.tick, .write [3, 0, 0, 0], .statement]).map
      fun m => (m.term, m.clock 0)) = some (0, { rate := 2, counter := 0, flag := 1 }) := by
    decide +kernel
  obtain ⟨m, hrun, hfields⟩ := Option.map_eq_some_iff.mp hrejected
  obtain ⟨hterm, hclock⟩ := Prod.mk.inj hfields
  obtain ⟨m₁, hstep, hwrite⟩ := run_cons hrun
  obtain ⟨m₂, haround, hterm₂, hclock₂⟩ := run_aroundTheTerminals smallDisk m
  rw [hterm, hclock] at hclock₂
  have hsecond : raises 0 m₂ .tick := by
    rw [raises_tick_iff, hterm₂, hclock₂]
    exact ⟨hterm, by decide⟩
  have hboth : run (clockStep smallDisk) m₁ ([.write [3, 0, 0, 0], .statement] ++ aroundTheTerminals) =
      some m₂ := by
    rw [run_append, hwrite]
    exact haround
  refine ⟨m₁, m₂, hstep, hboth, hfirst, hsecond,
    (never_early_isolated smallDisk 0).1 halfRate m₁ m₂ .tick .tick _ hfirst hstep hboth hsecond ?_
      (show 1 < 2 ^ 31 by omega)⟩
  intro a ha
  refine ⟨id, fun b hb => ⟨?_, fun _ _ => ⟨id, fun _ _ => ⟨id, fun _ _ => ⟨id, fun _ _ => ⟨id, trivial⟩⟩⟩⟩⟩⟩
  -- the statement is the check of the write, which refuses 3
  obtain rfl := Option.some.inj hstep
  obtain rfl := Option.some.inj ha
  rintro ⟨-, buf, hcall, haccepts⟩
  obtain rfl : [3, 0, 0, 0] = buf := ClockCall.write.inj (Option.some.inj hcall)
  exact absurd haccepts (by decide)

/-! ## The exact rate -/

/-- How often the events of a run make `rtc_handler` raise the flag of `t`. -/
def raiseCount (disk : Disk) (t : Fin 3) : ClockMachine → List ClockEvent → Nat
  | _, [] => 0
  | m, e :: es =>
    (if raises t m e then 1 else 0) +
      match clockStep disk m e with
      | none => 0
      | some m' => raiseCount disk t m' es

/-- The machine after the running process's `rtc_write` has returned. -/
def ClockMachine.written (m : ClockMachine) (buf : List UInt8) : ClockMachine :=
  { kernel := { m.kernel with rtc := (rtcWrite m.term buf m.kernel.rtc).1 }
    calls := Function.update m.calls m.term none }

/-- `scheduler` is not called. -/
def staysScheduled : ClockEvent → Prop
  | .switch .. => False
  | _ => True

/-- Terminal `t` is scheduled, its rate is `rate` and its counter below it; a write of `t` that has
    set the rate has also reset the counter. -/
structure Steady (t : Fin 3) (r : Int) (m : ClockMachine) : Prop where
  term : m.term = t
  settled : m.calls t ≠ some .reset
  rate : (m.clock t).rate = r
  low : 0 ≤ (m.clock t).counter
  high : (m.clock t).counter < r

section Rate

variable {disk : Disk} {t : Fin 3} {r : Int} {m m' : ClockMachine} {e : ClockEvent}
  {es : List ClockEvent}

/-- A statement of a call leaves the rate and the counter of a steady clock alone. -/
theorem Steady.statement {call : ClockCall} (h : Steady t r m) (hcall : m.calls m.term = some call)
    (hwrite : ¬ acceptsWrite t m .statement) :
    Steady t r (m.advance call) ∧
      ((m.advance call).clock t).counter = (m.clock t).counter := by
  obtain ⟨rfl, hsettled, hrate, hlow, hhigh⟩ := h
  -- it is enough that rate and counter are the same, and that the call is not about to reset
  have hsame : ∀ rtc call', clockStatement m.term call m.kernel.rtc = (rtc, call') →
      (rtc.clock m.term).rate = (m.clock m.term).rate →
      (rtc.clock m.term).counter = (m.clock m.term).counter → call' ≠ some .reset →
      Steady m.term r (m.advance call) ∧
        ((m.advance call).clock m.term).counter = (m.clock m.term).counter := by
    intro rtc call' heq hr hc hnot
    have hclock : (m.advance call).clock m.term = rtc.clock m.term :=
      congrArg (fun r => r.1.clock m.term) heq
    have hcalls : (m.advance call).calls m.term = call' :=
      (Function.update_self _ _ _).trans (congrArg Prod.snd heq)
    refine ⟨⟨rfl, ?_, ?_, ?_, ?_⟩, ?_⟩
    · rw [hcalls]
      exact hnot
    · rw [hclock, hr, hrate]
    · rw [hclock, hc]
      exact hlow
    · rw [hclock, hc]
      exact hhigh
    · rw [hclock, hc]
  cases call with
  | write buf =>
    have hrejects : acceptsFrequency (int32At buf) = false := by
      by_contra haccepts
      exact hwrite ⟨rfl, buf, hcall, by simpa using haccepts⟩
    exact hsame m.kernel.rtc none (by simp [clockStatement, hrejects]) rfl rfl nofun
  | reset => exact absurd hcall hsettled
  | wait =>
    by_cases hflag : m.kernel.rtc.rtcInterruptOccured m.term ≠ 1
    · exact hsame m.kernel.rtc _ (if_pos hflag) rfl rfl nofun
    · exact hsame m.kernel.rtc _ (if_neg hflag) rfl rfl nofun
  | clearFlag => exact hsame _ none rfl rfl rfl nofun

/-- One event of a steady clock: the counter goes up by the tick, less the rate when the flag is
    raised. -/
theorem Steady.step (h : Steady t r m) (hlimit : r < 2 ^ 31) (hstays : staysScheduled e)
    (hwrite : ¬ acceptsWrite t m e) (hstep : clockStep disk m e = some m') :
    Steady t r m' ∧ (m'.clock t).counter + (if raises t m e then r else 0) =
      (m.clock t).counter + ticks [e] := by
  cases e with
  | tick =>
    obtain ⟨rfl, hsettled, hrate, hlow, hhigh⟩ := h
    obtain rfl := Option.some.inj hstep
    have hone : ticks [ClockEvent.tick] = 1 := rfl
    have hincr : increment (m.clock m.term).counter = (m.clock m.term).counter + 1 :=
      increment_of_lt hlow (by omega)
    have hclock := rtcHandler_clock_self m.term m.kernel.rtc
    show Steady m.term r { m with kernel := { m.kernel with rtc := rtcHandler m.term m.kernel.rtc } } ∧
      ((rtcHandler m.term m.kernel.rtc).clock m.term).counter + _ = _
    generalize hnew : (rtcHandler m.term m.kernel.rtc).clock m.term = clock at hclock
    have hsteady : clock.rate = r → 0 ≤ clock.counter → clock.counter < r → Steady m.term r
        { m with kernel := { m.kernel with rtc := rtcHandler m.term m.kernel.rtc } } := by
      rw [← hnew]
      exact fun h₁ h₂ h₃ => ⟨rfl, hsettled, h₁, h₂, h₃⟩
    rw [hone]
    by_cases hraise : raises m.term m .tick
    · have hreached := (raises_tick_iff.mp hraise).2
      rw [show clock = _ from hclock.trans (if_pos hreached)] at hsteady ⊢
      rw [hincr, hrate] at hreached
      refine ⟨hsteady hrate (Int.le_refl 0) (by show 0 < r; omega), ?_⟩
      rw [if_pos hraise]
      show 0 + r = _
      omega
    · have hnot : ¬ (m.clock m.term).rate ≤ increment (m.clock m.term).counter :=
        fun hle => hraise (raises_tick_iff.mpr ⟨rfl, hle⟩)
      rw [show clock = _ from hclock.trans (if_neg hnot)] at hsteady ⊢
      rw [hincr, hrate] at hnot
      have hcounter : increment (m.kernel.rtc.clock m.term).counter = (m.clock m.term).counter + 1 :=
        hincr
      refine ⟨hsteady hrate ?_ ?_, ?_⟩
      · show 0 ≤ increment _
        omega
      · show increment _ < r
        omega
      · rw [if_neg hraise, Int.add_zero]
        exact hincr
  | switch => exact absurd hstays id
  | write buf | read =>
    simp only [clockStep] at hstep
    split at hstep
    · obtain rfl := Option.some.inj hstep
      refine ⟨⟨h.term, ?_, h.rate, h.low, h.high⟩, rfl⟩
      show Function.update m.calls m.term _ t ≠ _
      rw [h.term, Function.update_self]
      nofun
    · cases hstep
  | statement =>
    obtain ⟨call, hcall, rfl⟩ := Option.map_eq_some_iff.mp hstep
    obtain ⟨hsteady, hcounter⟩ := h.statement hcall hwrite
    refine ⟨hsteady, ?_⟩
    rw [hcounter]
    rfl

/-- A run of them: the ticks are the whole periods and what the counter has moved. -/
theorem Steady.run (h : Steady t r m) (hlimit : r < 2 ^ 31)
    (hstays : ∀ e ∈ es, staysScheduled e)
    (hwrite : Along (clockStep disk) (fun m e => ¬ acceptsWrite t m e) m es)
    (hrun : Run.run (clockStep disk) m es = some m') :
    Steady t r m' ∧ (m'.clock t).counter + r * raiseCount disk t m es =
      (m.clock t).counter + ticks es := by
  induction es generalizing m with
  | nil =>
    obtain rfl : m = m' := Option.some.inj hrun
    refine ⟨h, ?_⟩
    show _ + r * 0 = _ + 0
    omega
  | cons e es ih =>
    obtain ⟨m₁, hstep, hrest⟩ := run_cons hrun
    obtain ⟨hgood, hwrite'⟩ := hwrite m₁ hstep
    obtain ⟨h₁, hcount⟩ := h.step hlimit (hstays e List.mem_cons_self) hgood hstep
    obtain ⟨h', hcounts⟩ := ih h₁ (fun e he => hstays e (List.mem_cons_of_mem _ he)) hwrite' hrest
    refine ⟨h', ?_⟩
    have hraises : raiseCount disk t m (e :: es) =
        (if raises t m e then 1 else 0) + raiseCount disk t m₁ es := by
      rw [raiseCount, hstep]
    rw [ticks_cons, hraises]
    by_cases hraise : raises t m e
    · rw [if_pos hraise] at hcount ⊢
      rw [Int.natCast_add, Int.mul_add]
      show _ + (r * 1 + _) = _
      omega
    · rw [if_neg hraise] at hcount ⊢
      rw [Nat.zero_add]
      omega

end Rate

/-! ### From ticks to the frequency -/

/-- `n` ticks hold as many intervals of `1024 / f` ticks as periods of `f` in 1024 exactly when what
    the intervals fall short of the periods is made up by the ticks left over. -/
theorem intervals_eq_periods_iff {f n : Int} (hf : 0 < f) (hf' : f ≤ rtcMax) (hn : 0 ≤ n) :
    n / (rtcMax / f) = n * f / rtcMax ↔
      n / (rtcMax / f) * (rtcMax % f) ≤ n % (rtcMax / f) * f := by
  simp only [rtcMax] at *
  have hr : 0 < 1024 / f := Int.le_ediv_of_mul_le hf (by omega)
  have hdiv : f * (1024 / f) + 1024 % f = 1024 := Int.mul_ediv_add_emod 1024 f
  have hn' : (1024 / f) * (n / (1024 / f)) + n % (1024 / f) = n := Int.mul_ediv_add_emod n _
  have hs := Int.emod_nonneg n (ne_of_gt hr)
  have hs' := Int.emod_lt_of_pos n hr
  have he := Int.emod_nonneg 1024 (ne_of_gt hf)
  have hq : 0 ≤ n / (1024 / f) := Int.ediv_nonneg hn (le_of_lt hr)
  generalize 1024 / f = r at *
  generalize 1024 % f = e at *
  generalize n / r = q at *
  generalize n % r = s at *
  -- `n * f` is `1024 * q`, less the shortfall `q * e`, plus the part `s * f` of a period
  have hnf : n * f = 1024 * q + (s * f - q * e) := by
    rw [← hn', ← hdiv]
    ring
  have hshort : 0 ≤ q * e := Int.mul_nonneg hq he
  have hpart : s * f < 1024 := by nlinarith
  rw [hnf]
  omega

theorem rtcWrite_accepted {s : Fin 3} {buf : List UInt8} {rtc : Rtc}
    (h : (rtcWrite s buf rtc).2 = 0) :
    rtcMin ≤ int32At buf ∧ int32At buf ≤ rtcMax ∧
      (rtcWrite s buf rtc).1 = resetCounter s (setInterval s (int32At buf) rtc) := by
  rw [rtcWrite_statements] at h ⊢
  split at h
  · rename_i haccepts
    rw [if_pos haccepts]
    obtain ⟨hmin, hmax, -⟩ := (acceptsFrequency_iff _).mp haccepts
    exact ⟨hmin, hmax, rfl⟩
  · cases h

/-- After an accepted write the clock is steady at the interval. -/
theorem written_steady {m : ClockMachine} {buf : List UInt8}
    (h : (rtcWrite m.term buf m.kernel.rtc).2 = 0) :
    Steady m.term (rtcMax / int32At buf) (m.written buf) ∧
      ((m.written buf).clock m.term).counter = 0 := by
  obtain ⟨hmin, hmax, hwrite⟩ := rtcWrite_accepted h
  simp only [rtcMin, rtcMax] at hmin hmax
  have hclock : (m.written buf).clock m.term =
      { m.clock m.term with rate := rtcMax.tdiv (int32At buf), counter := 0 } := by
    show (rtcWrite m.term buf m.kernel.rtc).1.clock m.term = _
    rw [hwrite]
    simp only [resetCounter, setInterval, Rtc.clock, Function.update_self, ClockMachine.clock]
  have hpos : 0 < rtcMax / int32At buf := by
    simp only [rtcMax]
    exact Int.le_ediv_of_mul_le (by omega) (by omega)
  refine ⟨⟨rfl, ?_, ?_, ?_, ?_⟩, ?_⟩
  · show Function.update m.calls m.term none m.term ≠ _
    rw [Function.update_self]
    nofun
  · rw [hclock]
    exact Int.tdiv_eq_ediv_of_nonneg (by simp)
  · rw [hclock]
  · rw [hclock]
    exact hpos
  · rw [hclock]

/-- **How often the flag is raised**: once in `1024 / f` ticks. -/
theorem raiseCount_written {disk : Disk} {m m' : ClockMachine} {buf : List UInt8}
    {es : List ClockEvent} (haccepted : (rtcWrite m.term buf m.kernel.rtc).2 = 0)
    (hstays : ∀ e ∈ es, staysScheduled e)
    (hwrite : Along (clockStep disk) (fun m' e => ¬ acceptsWrite m.term m' e) (m.written buf) es)
    (hrun : run (clockStep disk) (m.written buf) es = some m') :
    (raiseCount disk m.term (m.written buf) es : Int) = ticks es / (rtcMax / int32At buf) := by
  obtain ⟨hmin, hmax, -⟩ := rtcWrite_accepted haccepted
  simp only [rtcMin, rtcMax] at hmin hmax
  obtain ⟨hsteady, hzero⟩ := written_steady haccepted
  have hlimit : rtcMax / int32At buf < 2 ^ 31 := by
    have hle : rtcMax / int32At buf ≤ rtcMax := Int.ediv_le_self _ (by simp)
    simp only [rtcMax] at hle ⊢
    omega
  obtain ⟨hsteady', hcount⟩ := hsteady.run hlimit hstays hwrite hrun
  rw [hzero, Int.zero_add] at hcount
  have hlow := hsteady'.low
  have hhigh := hsteady'.high
  have hpos : 0 < rtcMax / int32At buf := by omega
  refine ((Int.ediv_emod_unique hpos).mpr ⟨?_, hlow, hhigh⟩).1.symm
  omega

/-- The machine's calls and flags do not stop the hardware clock. -/
theorem run_ticks (disk : Disk) (m : ClockMachine) (n : Nat) :
    ∃ m', run (clockStep disk) m (List.replicate n .tick) = some m' := by
  induction n generalizing m with
  | zero => exact ⟨m, rfl⟩
  | succ n ih => exact ih _

theorem ticks_replicate (n : Nat) : ticks (List.replicate n .tick) = n := by
  simp [ticks, List.countP_replicate]

/-- **The exact rate.**  After an accepted `rtc_write` of frequency `f`, and for every run of `n`
    ticks in which the terminal stays scheduled and writes no other frequency, the flag is raised
    `n * f / 1024` times exactly when what the intervals of `1024 / f` ticks fall short of the
    periods is made up by the ticks left over.  It is so for every such run iff `f` divides 1024. -/
theorem rate_exact_iff (disk : Disk) (m : ClockMachine) (buf : List UInt8)
    (haccepted : (rtcWrite m.term buf m.kernel.rtc).2 = 0) :
    let f := int32At buf
    let isExact (es : List ClockEvent) : Prop :=
      (raiseCount disk m.term (m.written buf) es : Int) = ticks es * f / rtcMax
    let steady (es : List ClockEvent) : Prop :=
      (∀ e ∈ es, staysScheduled e) ∧
        Along (clockStep disk) (fun m' e => ¬ acceptsWrite m.term m' e) (m.written buf) es ∧
        ∃ m', run (clockStep disk) (m.written buf) es = some m'
    (∀ es, steady es →
      (isExact es ↔
        ticks es / (rtcMax / f) * (rtcMax % f) ≤ ticks es % (rtcMax / f) * f)) ∧
    ((∀ es, steady es → isExact es) ↔ rtcMax % f = 0) := by
  intro f isExact steady
  obtain ⟨hmin, hmax, -⟩ := rtcWrite_accepted haccepted
  have hf : 0 < f := lt_of_lt_of_le (by simp) hmin
  have hr : 0 < rtcMax / f := by
    simp only [rtcMax] at hmax ⊢
    exact Int.le_ediv_of_mul_le hf (by omega)
  have hiff : ∀ es, steady es → (isExact es ↔
      ticks es / (rtcMax / f) * (rtcMax % f) ≤ ticks es % (rtcMax / f) * f) := by
    rintro es ⟨hstays, hwrite, m', hrun⟩
    show (raiseCount disk m.term (m.written buf) es : Int) = _ ↔ _
    rw [raiseCount_written haccepted hstays hwrite hrun]
    exact intervals_eq_periods_iff hf hmax (Int.natCast_nonneg _)
  refine ⟨hiff, ?_, ?_⟩
  · intro hall
    -- after one whole interval nothing is left over
    have hsteady : steady (List.replicate (rtcMax / f).toNat .tick) := by
      have hticks : ∀ e ∈ List.replicate (rtcMax / f).toNat ClockEvent.tick, e = .tick :=
        fun e he => List.eq_of_mem_replicate he
      refine ⟨fun e he => hticks e he ▸ trivial, ?_, run_ticks disk _ _⟩
      exact along_mono (fun m' e he => he ▸ id) (along_of_forall hticks)
    have hle := (hiff _ hsteady).mp (hall _ hsteady)
    rw [ticks_replicate, Int.toNat_of_nonneg (le_of_lt hr), Int.ediv_self (ne_of_gt hr),
      Int.emod_self, Int.zero_mul, Int.one_mul] at hle
    exact le_antisymm hle (Int.emod_nonneg _ (ne_of_gt hf))
  · intro hdvd es hsteady
    rw [hiff es hsteady, hdvd, Int.mul_zero]
    exact Int.mul_nonneg (Int.emod_nonneg _ (ne_of_gt hr)) (le_of_lt hf)

/-- The machine at boot, no process in a call. -/
def bootClocks : ClockMachine := { kernel := initialKernel blankMemory, calls := fun _ => none }

/-- At 512 Hz three ticks raise the flag once, as they should. -/
theorem rate_512_exact :
    (raiseCount smallDisk 0 (bootClocks.written [0, 2, 0, 0]) [.tick, .tick, .tick] : Int) =
      3 * 512 / 1024 :=
  (rate_exact_iff smallDisk bootClocks [0, 2, 0, 0] (by decide)).2.mpr (by decide) _
    ⟨by simp [staysScheduled], along_mono (fun m' e (he : e = .tick) => he ▸ id)
      (along_of_forall (by simp)), _, rfl⟩

/-- 6 Hz is accepted, and 170 ticks raise the flag once, where 170 / 1024 of six is none. -/
theorem rate_6_too_fast :
    (rtcWrite bootClocks.term [6, 0, 0, 0] bootClocks.kernel.rtc).2 = 0 ∧
      (raiseCount smallDisk 0 (bootClocks.written [6, 0, 0, 0]) (List.replicate 170 .tick) : Int) ≠
        170 * 6 / 1024 := by
  have haccepted : (rtcWrite bootClocks.term [6, 0, 0, 0] bootClocks.kernel.rtc).2 = 0 := by decide
  have hticks : ∀ e ∈ List.replicate 170 ClockEvent.tick, e = .tick :=
    fun e he => List.eq_of_mem_replicate he
  obtain ⟨m', hrun⟩ := run_ticks smallDisk (bootClocks.written [6, 0, 0, 0]) 170
  have hcount := raiseCount_written haccepted (fun e he => hticks e he ▸ trivial)
    (along_mono (fun m' e he => he ▸ id) (along_of_forall hticks)) hrun
  rw [ticks_replicate] at hcount
  exact ⟨haccepted, fun h => absurd (hcount.symm.trans h) (by decide)⟩

end ByteVerse
