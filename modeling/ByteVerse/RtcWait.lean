/-
  What `rtc_read` has waited for.

  `rtc_read` waits for the flag of its terminal and clears it on the way out.  It does not clear it
  before: a flag that `rtc_handler` raised before the call, and that no later tick has taken down, lets
  the call through at once.  A tick takes it down only while the terminal is scheduled, so a flag can
  survive until the next call, also across a switch away and back.

  The run carries a record of each terminal's call: whether the flag has been raised since the call
  began, and whether the call has found a flag that no tick of its terminal has replaced yet.
  `waits_for_new_iff` says that a call leaves its loop on a flag of its own time exactly when it never
  tests such an old one.
-/
import ByteVerse.VirtualRtc

set_option linter.unusedVariables false

namespace ByteVerse

open Run

/-! ## The record of a call -/

structure WaitRun where
  machine : ClockMachine
  /-- `rtc_handler` has raised the terminal's flag since its last call of `rtc_read` began. -/
  raised : Fin 3 → Bool
  /-- That call found the flag raised, and `rtc_handler` has not run for the terminal since. -/
  leftOver : Fin 3 → Bool

def WaitRun.term (r : WaitRun) : Fin 3 := r.machine.term

/-- The record after an event that leads to `m`. -/
def WaitRun.next (r : WaitRun) (m : ClockMachine) : ClockEvent → WaitRun
  | .read =>
    { machine := m
      raised := Function.update r.raised r.term false
      leftOver := Function.update r.leftOver r.term (decide ((r.machine.clock r.term).flag = 1)) }
  | .tick =>
    { machine := m
      raised := fun t => r.raised t || decide (raises t r.machine .tick)
      leftOver := Function.update r.leftOver r.term false }
  | _ => { r with machine := m }

def waitStep (disk : Disk) (r : WaitRun) (e : ClockEvent) : Option WaitRun :=
  (clockStep disk r.machine e).map fun m => r.next m e

/-- The machine after boot, no process in a call. -/
def bootWaits (disk : Disk) (pw : PowerOn) (fr : Frame) : WaitRun :=
  { machine := { kernel := (boot disk pw fr).1, calls := fun _ => none }
    raised := fun _ => false, leftOver := fun _ => false }

/-- An `rtc_read` that is out of its loop, and so about to return, has seen its terminal's flag raised
    since it began. -/
def LeavesOnNew (r : WaitRun) : Prop :=
  ∀ t, r.machine.calls t = some .clearFlag → r.raised t = true

/-- The loop does not test a flag from before the call. -/
def testsNoLeftOver (r : WaitRun) : ClockEvent → Prop
  | .statement => r.machine.calls r.term = some .wait → r.leftOver r.term = false
  | _ => True

instance (r : WaitRun) (e : ClockEvent) : Decidable (testsNoLeftOver r e) :=
  match e with
  | .statement => inferInstanceAs (Decidable (_ → _))
  | .tick | .switch .. | .write _ | .read => isTrue trivial

/-! ## The invariant -/

/-- A call, its terminal's flag and its record. -/
def WaitOk (call : Option ClockCall) (flag : Int) (leftOver raised : Bool) : Prop :=
  match call with
  | some .clearFlag => raised = true
  | some .wait =>
    (leftOver = true → flag = 1 ∧ raised = false) ∧ (flag = 1 → leftOver = true ∨ raised = true)
  | _ => True

def WaitInv (r : WaitRun) : Prop :=
  ∀ t, WaitOk (r.machine.calls t) (r.machine.clock t).flag (r.leftOver t) (r.raised t)

theorem WaitInv.leavesOnNew {r : WaitRun} (h : WaitInv r) : LeavesOnNew r := by
  intro t hcall
  have ht := h t
  rw [hcall] at ht
  exact ht

section Waits

variable {call : Option ClockCall} {flag : Int} {leftOver raised : Bool}

/-- A tick for the call's terminal that does not raise the flag. -/
theorem WaitOk.lowered (h : WaitOk call flag leftOver raised) : WaitOk call 0 false raised := by
  rcases call with _ | call
  · trivial
  · cases call with
    | write | reset => trivial
    | clearFlag => exact h
    | wait => exact ⟨nofun, nofun⟩

/-- One that does. -/
theorem waitOk_raised (call : Option ClockCall) (flag : Int) : WaitOk call flag false true := by
  rcases call with _ | call
  · trivial
  · cases call with
    | write | reset => trivial
    | clearFlag => rfl
    | wait => exact ⟨nofun, fun _ => Or.inr rfl⟩

/-- A call that begins. -/
theorem waitOk_began (flag : Int) : WaitOk (some .wait) flag (decide (flag = 1)) false :=
  ⟨fun h => ⟨of_decide_eq_true h, rfl⟩, fun h => Or.inl (decide_eq_true h)⟩

variable {r : WaitRun} {m : ClockMachine} {disk : Disk} {e : ClockEvent}

/-- The record of the running process's call, which goes on to `call'`. -/
theorem WaitInv.setCall (h : WaitInv r) {rtc : Rtc} {call' : Option ClockCall}
    (hself : WaitOk call' (rtc.clock r.term).flag (r.leftOver r.term) (r.raised r.term))
    (hother : ∀ t, t ≠ r.term → rtc.clock t = r.machine.clock t) :
    WaitInv { r with machine :=
      { kernel := { r.machine.kernel with rtc := rtc }
        calls := Function.update r.machine.calls r.term call' } } := by
  intro t
  show WaitOk (Function.update r.machine.calls r.term call' t) (rtc.clock t).flag _ _
  by_cases ht : t = r.term
  · rw [ht, Function.update_self]
    exact hself
  · rw [Function.update_of_ne ht, hother t ht]
    exact h t

/-- **A statement of a call**: only an old flag lets the loop end too early. -/
theorem WaitInv.statement (h : WaitInv r) {call : ClockCall}
    (hcall : r.machine.calls r.term = some call)
    (hgood : call = .wait → r.leftOver r.term = false) :
    WaitInv { r with machine := r.machine.advance call } := by
  have hself := h r.term
  rw [hcall] at hself
  have hother : ∀ t, t ≠ r.term →
      (clockStatement r.machine.term call r.machine.kernel.rtc).1.clock t = r.machine.clock t :=
    fun t ht => clockStatement_of_ne ht call r.machine.kernel.rtc
  refine h.setCall ?_ hother
  cases call with
  | write buf =>
    simp only [clockStatement]
    split <;> trivial
  | reset => trivial
  | clearFlag => trivial
  | wait =>
    simp only [clockStatement]
    split
    · exact hself
    · rename_i hflag
      -- the flag is up and not an old one
      have hup : (r.machine.clock r.term).flag = 1 := not_not.mp hflag
      rcases hself.2 hup with hold | hraised
      · rw [hgood rfl] at hold
        cases hold
      · exact hraised

/-- **The step lemma.** -/
theorem WaitInv.step (h : WaitInv r) (hgood : testsNoLeftOver r e) {r' : WaitRun}
    (hs : waitStep disk r e = some r') : WaitInv r' := by
  obtain ⟨m, hm, rfl⟩ := Option.map_eq_some_iff.mp hs
  cases e with
  | tick =>
    obtain rfl := Option.some.inj hm
    intro t
    show WaitOk (r.machine.calls t) ((rtcHandler r.machine.term r.machine.kernel.rtc).clock t).flag
      (Function.update r.leftOver r.term false t) (r.raised t || decide (raises t r.machine .tick))
    by_cases ht : t = r.term
    · rw [ht, Function.update_self]
      by_cases hraise : raises r.term r.machine .tick
      · rw [decide_eq_true hraise, Bool.or_true]
        exact waitOk_raised _ _
      · have hclock := (rtcHandler_clock_self r.machine.term r.machine.kernel.rtc).trans
          (if_neg fun hle => hraise (raises_tick_iff.mpr ⟨rfl, hle⟩))
        rw [decide_eq_false hraise, Bool.or_false]
        show WaitOk _ ((rtcHandler r.machine.term r.machine.kernel.rtc).clock r.machine.term).flag _ _
        rw [hclock]
        exact (h r.term).lowered
    · have hnot : ¬ raises t r.machine .tick := fun hraise => ht (raises_tick_iff.mp hraise).1.symm
      have hclock : (rtcHandler r.machine.term r.machine.kernel.rtc).clock t = _ :=
        rtcHandler_clock_of_ne ht _
      rw [Function.update_of_ne ht, decide_eq_false hnot, Bool.or_false, hclock]
      exact h t
  | switch esp ebp fr =>
    obtain rfl := Option.some.inj hm
    intro t
    show WaitOk _ ((scheduler disk esp ebp fr r.machine.kernel).1.rtc.clock t).flag _ _
    rw [scheduler_rtc]
    exact h t
  | write buf =>
    simp only [clockStep] at hm
    split at hm
    · obtain rfl := Option.some.inj hm
      exact h.setCall trivial (fun _ _ => (rfl : r.machine.kernel.rtc.clock _ = _))
    · cases hm
  | read =>
    simp only [clockStep] at hm
    split at hm
    · obtain rfl := Option.some.inj hm
      intro t
      show WaitOk (Function.update r.machine.calls r.term (some .wait) t) (r.machine.clock t).flag
        (Function.update r.leftOver r.term _ t) (Function.update r.raised r.term false t)
      by_cases ht : t = r.term
      · rw [ht, Function.update_self, Function.update_self, Function.update_self]
        exact waitOk_began _
      · rw [Function.update_of_ne ht, Function.update_of_ne ht, Function.update_of_ne ht]
        exact h t
    · cases hm
  | statement =>
    obtain ⟨call, hcall, rfl⟩ := Option.map_eq_some_iff.mp hm
    refine h.statement hcall fun hwait => hgood ?_
    rw [← hwait]
    exact hcall

/-- An old flag ends the loop of a call that has not seen the flag raised. -/
theorem WaitInv.bad_step (h : WaitInv r) (hbad : ¬ testsNoLeftOver r e) {r' : WaitRun}
    (hs : waitStep disk r e = some r') : ¬ LeavesOnNew r' := by
  obtain ⟨m, hm, rfl⟩ := Option.map_eq_some_iff.mp hs
  cases e with
  | tick | switch | write | read => exact absurd trivial hbad
  | statement =>
    obtain ⟨hcall, hold⟩ := Classical.not_imp.mp hbad
    rw [Bool.not_eq_false] at hold
    obtain rfl : r.machine.advance .wait = m := by
      have hadvance : clockStep disk r.machine .statement = some (r.machine.advance .wait) := by
        show (r.machine.calls r.machine.term).map r.machine.advance = _
        rw [show r.machine.calls r.machine.term = some .wait from hcall]
        rfl
      exact Option.some.inj (hadvance.symm.trans hm)
    have hself := h r.term
    rw [hcall] at hself
    obtain ⟨hup, hraised⟩ := hself.1 hold
    intro hnew
    have hleft : Function.update r.machine.calls r.machine.term
        (clockStatement r.machine.term .wait r.machine.kernel.rtc).2 r.term = some .clearFlag := by
      have hexit : clockStatement r.machine.term .wait r.machine.kernel.rtc =
          (r.machine.kernel.rtc, some .clearFlag) := if_neg (not_not.mpr hup)
      rw [hexit]
      exact Function.update_self _ _ _
    have htrue := hnew r.term hleft
    exact absurd (htrue.symm.trans hraised) (by decide)

/-- From any state in which the records are right. -/
theorem leavesOnNew_iff {events : List ClockEvent} (h : WaitInv r) :
    Throughout (waitStep disk) LeavesOnNew r events ↔
      Along (waitStep disk) testsNoLeftOver r events :=
  throughout_iff_along (fun _ h => WaitInv.leavesOnNew h) (fun _ _ _ h hg hs => WaitInv.step h hg hs)
    (fun _ _ _ h hb hs => WaitInv.bad_step h hb hs) h

end Waits

/-! ## Runs -/

theorem bootWaits_inv (disk : Disk) (pw : PowerOn) (fr : Frame) : WaitInv (bootWaits disk pw fr) :=
  fun _ => trivial

/-- **`rtc_read` waits for a new interrupt** in a run of ticks, switches and RTC calls after boot exactly
    when no call tests a flag that was raised before the call and that no tick of its terminal has
    replaced since. -/
theorem waits_for_new_iff (disk : Disk) (pw : PowerOn) (fr : Frame) (events : List ClockEvent) :
    Throughout (waitStep disk) LeavesOnNew (bootWaits disk pw fr) events ↔
      Along (waitStep disk) testsNoLeftOver (bootWaits disk pw fr) events :=
  leavesOnNew_iff (bootWaits_inv disk pw fr)

/-- A program sets its clock to 1024 Hz, a tick raises the flag, and only then it calls `rtc_read`. -/
theorem read_leaves_on_old_flag :
    ¬ Throughout (waitStep smallDisk) LeavesOnNew (bootWaits smallDisk blankMemory blankFrame)
      [.write [0, 4, 0, 0], .statement, .statement, .tick, .read, .statement] := by
  rw [leavesOnNew_iff (bootWaits_inv smallDisk blankMemory blankFrame)]
  decide +kernel

end ByteVerse
