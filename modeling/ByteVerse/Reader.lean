/-
  `terminal_read` statement by statement, among key events, ticks and terminal switches.

  The system-call gate leaves interrupts enabled and the `cli` of `terminal_read` is commented out,
  so a key, a tick or a switch may fall between any two of its statements: while it waits, in
  either of its loops, or before the last assignment.  Three parts:

  1. `readStatement`, one statement of one call; without interruption its statements are
     `terminalRead` (`terminalRead_statements`);
  2. `InputSession`: the kernel and, for each terminal, the call its process is in.  In each step a key
     is handled, the timer ticks, the visible terminal is switched, or the process of the scheduled
     terminal executes a statement;
  3. what these steps do to `sched_term`, `visible_term` and the globals of `keyboard.c`.
-/
import ByteVerse.Display
import ByteVerse.Line
import Mathlib.Logic.Relation

set_option linter.unusedVariables false

namespace ByteVerse

open SlotTable Run

/-! ## One call -/

/-- Where a call of `terminal_read` stands. -/
inductive ReadPc
  /-- At the `while`. -/
  | wait
  /-- At the test of the copy loop, with `buf[0 .. i)` stored. -/
  | copy (i : Int) (buf : List UInt8)
  /-- At the test of the loop that clears the buffer; `i` is set anew, `bytes_read` has its value. -/
  | wipe (i bytesRead : Int) (buf : List UInt8)
  /-- At `enter_pressed[visible_term] = 0`. -/
  | clearFlag (bytesRead : Int) (buf : List UInt8)
  | returned (bytesRead : Int) (buf : List UInt8)
  deriving DecidableEq

/-- One statement of `terminal_read`, or one turn of one of its loops, executed with `s` scheduled
    and `v` visible. -/
def readStatement (s v : Fin 3) (nbytes : Int) (inp : Input) : ReadPc → Input × ReadPc
  | .wait => (inp, if inp.enterPressed s = 0 then .wait else .copy 0 [])
  | .copy i buf =>
    if i < nbytes then
      let c := inp.termBuffer i
      if i = bufferLimit ∨ c = 0 then (inp, .wipe 0 i (buf ++ [c]))
      else (inp, .copy (i + 1) (buf ++ [c]))
    else (inp, .wipe 0 i buf)
  | .wipe i bytesRead buf =>
    if i < nbytes then
      ({ inp with termBuffer := Function.update inp.termBuffer i 0 }, .wipe (i + 1) bytesRead buf)
    else (inp, .clearFlag bytesRead buf)
  | .clearFlag bytesRead buf =>
    ({ inp with enterPressed := Function.update inp.enterPressed v 0 }, .returned bytesRead buf)
  | .returned bytesRead buf => (inp, .returned bytesRead buf)

/-! ## Without interruption -/

section Uninterrupted

/-- Statements of one call, one after the other. -/
def ReadsTo (s v : Fin 3) (nbytes : Int) : Input × ReadPc → Input × ReadPc → Prop :=
  Relation.ReflTransGen fun a b => readStatement s v nbytes a.1 a.2 = b

/-- Memory after the second loop has cleared it from index `i` on. -/
def wiped (i nbytes : Int) (termBuffer : Int → UInt8) : Int → UInt8 :=
  fun j => if i ≤ j ∧ j < nbytes then 0 else termBuffer j

theorem wiped_end {i nbytes : Int} (h : ¬ i < nbytes) (termBuffer : Int → UInt8) :
    wiped i nbytes termBuffer = termBuffer := by
  funext j
  exact if_neg (by omega)

theorem wiped_update {i nbytes : Int} (h : i < nbytes) (termBuffer : Int → UInt8) :
    wiped (i + 1) nbytes (Function.update termBuffer i 0) = wiped i nbytes termBuffer := by
  funext j
  unfold wiped
  by_cases hj : j = i
  · rw [hj, Function.update_self, if_neg (by omega), if_pos ⟨Int.le_refl i, h⟩]
  · rw [Function.update_of_ne hj]
    exact if_congr (by omega) rfl rfl

variable (s v : Fin 3) (nbytes : Int)

theorem readsTo_head {inp : Input} {pc : ReadPc} {b : Input × ReadPc}
    (h : ReadsTo s v nbytes (readStatement s v nbytes inp pc) b) : ReadsTo s v nbytes (inp, pc) b :=
  Relation.ReflTransGen.head rfl h

/-- The copy loop. -/
theorem readsTo_copy (inp : Input) (fuel : Nat) (i : Int) (buf : List UInt8)
    (hfuel : fuel = (nbytes - i).toNat) :
    ReadsTo s v nbytes (inp, .copy i buf)
      (inp, .wipe 0 (terminalReadLoop inp.termBuffer nbytes fuel i).1
        (buf ++ (terminalReadLoop inp.termBuffer nbytes fuel i).2)) := by
  induction fuel generalizing i buf with
  | zero =>
    have hend : ¬ i < nbytes := by omega
    apply readsTo_head
    rw [readStatement, if_neg hend]
    simp only [terminalReadLoop, List.append_nil]
    exact Relation.ReflTransGen.refl
  | succ fuel ih =>
    have hlt : i < nbytes := by omega
    apply readsTo_head
    simp only [readStatement, terminalReadLoop, if_pos hlt]
    by_cases hlast : i = bufferLimit ∨ inp.termBuffer i = 0
    · rw [if_pos hlast, if_pos hlast]
      exact Relation.ReflTransGen.refl
    · rw [if_neg hlast, if_neg hlast]
      have hrest := ih (i + 1) (buf ++ [inp.termBuffer i]) (by omega)
      rwa [List.append_assoc] at hrest

/-- The loop that clears the buffer. -/
theorem readsTo_wipe (inp : Input) (fuel : Nat) (i n : Int) (buf : List UInt8)
    (hfuel : fuel = (nbytes - i).toNat) :
    ReadsTo s v nbytes (inp, .wipe i n buf)
      ({ inp with termBuffer := wiped i nbytes inp.termBuffer }, .clearFlag n buf) := by
  induction fuel generalizing i inp with
  | zero =>
    have hend : ¬ i < nbytes := by omega
    apply readsTo_head
    rw [readStatement, if_neg hend, wiped_end hend]
    exact Relation.ReflTransGen.refl
  | succ fuel ih =>
    have hlt : i < nbytes := by omega
    apply readsTo_head
    rw [readStatement, if_pos hlt, ← wiped_update hlt]
    exact ih { inp with termBuffer := Function.update inp.termBuffer i 0 } (i + 1) (by omega)

/-- **Without interruption the statements of a call are `terminalRead`**: it waits as long as the
    flag of its terminal is clear, and otherwise comes to its `return`. -/
theorem terminalRead_statements (inp : Input) :
    (terminalRead s v nbytes inp = none ∧ readStatement s v nbytes inp .wait = (inp, .wait)) ∨
    ∃ inp' n buf, terminalRead s v nbytes inp = some (inp', n, buf) ∧
      ReadsTo s v nbytes (inp, .wait) (inp', .returned n buf) := by
  by_cases hflag : inp.enterPressed s = 0
  · left
    refine ⟨if_pos hflag, ?_⟩
    rw [readStatement, if_pos hflag]
  · right
    refine ⟨_, _, _, if_neg hflag, ?_⟩
    apply readsTo_head
    rw [readStatement, if_neg hflag]
    refine (readsTo_copy s v nbytes inp nbytes.toNat 0 [] (by omega)).trans ?_
    refine (readsTo_wipe s v nbytes inp nbytes.toNat 0 _ _ (by omega)).trans ?_
    exact Relation.ReflTransGen.single rfl

end Uninterrupted

/-! ## The terminals' processes at their reads -/

/-- A call of `terminal_read`. -/
structure ReadCall where
  nbytes : Int
  pc : ReadPc
  deriving DecidableEq

/-- The kernel, and the call of `terminal_read` that the process of each terminal is in or has last
    returned from. -/
structure InputSession where
  kernel : Kernel
  calls : Fin 3 → Option ReadCall

inductive InputEvent
  /-- A keyboard interrupt; `fr` is for the shell that Ctrl+C may restart. -/
  | key (scanCode : UInt8) (fr : Frame)
  | tick (esp ebp : Nat) (fr : Frame)
  | switchTerminal (terminalNumber : Fin 3)
  /-- The process of the scheduled terminal executes a statement of the call it is in; when it is in
      none it calls `terminal_read` with `nbytes`. -/
  | statement (nbytes : Int)

/-- The call of which a statement is executed next, `none` when a new one begins. -/
def openCall : Option ReadCall → Option ReadCall
  | some ⟨_, .returned _ _⟩ => none
  | call => call

/-- A statement of the process of `s`, with `v` visible. -/
def callStatement (s v : Fin 3) (nbytes : Int) (inp : Input) (call : Option ReadCall) :
    Input × ReadCall :=
  match openCall call with
  | none => (inp, ⟨nbytes, .wait⟩)
  | some c =>
    let r := readStatement s v c.nbytes inp c.pc
    (r.1, ⟨c.nbytes, r.2⟩)

/-- Ctrl+C: the handler calls `halt` for the process of the scheduled terminal. -/
def kills (k : Kernel) (scanCode : UInt8) : Bool :=
  (keyboardInput k.visibleTerm k.input scanCode).2 = .halt

/-- The session after an event. -/
def InputSession.next (disk : Disk) (m : InputSession) : InputEvent → InputSession
  | .key scanCode fr =>
    { kernel := keyboardHandler disk fr scanCode m.kernel
      calls := if kills m.kernel scanCode then Function.update m.calls m.kernel.schedTerm none
        else m.calls }
  | .tick esp ebp fr => { m with kernel := (scheduler disk esp ebp fr m.kernel).1 }
  | .switchTerminal n => { m with kernel := switchTerminal n m.kernel }
  | .statement nbytes =>
    let k := m.kernel
    let r := callStatement k.schedTerm k.visibleTerm nbytes k.input (m.calls k.schedTerm)
    { kernel := { k with input := r.1 }
      calls := Function.update m.calls k.schedTerm (some r.2) }

def inputStep (disk : Disk) (m : InputSession) (e : InputEvent) : Option InputSession := some (m.next disk e)

/-- After boot: no process has read yet. -/
def bootSession (disk : Disk) (pw : PowerOn) (fr : Frame) : InputSession :=
  { kernel := (boot disk pw fr).1, calls := fun _ => none }

/-! ## What the processes see of their reads -/

/-- How far a call is, seen from outside, and what it returned. -/
inductive Observed
  | waiting
  | reading
  | returned (bytesRead : Int) (bytes : List UInt8)
  deriving DecidableEq

def ReadPc.observed : ReadPc → Observed
  | .wait => .waiting
  | .copy _ _ => .reading
  | .wipe _ _ _ => .reading
  | .clearFlag _ _ => .reading
  | .returned n buf => .returned n (buf.take n.toNat)

/-- What a process of `t` sees of its reads: how far its call is after each of its statements. -/
def observe (t : Fin 3) (m : InputSession) : InputEvent → List Observed
  | .statement nbytes =>
    let k := m.kernel
    if k.schedTerm = t then
      [(callStatement t k.visibleTerm nbytes k.input (m.calls t)).2.pc.observed]
    else []
  | _ => []

/-! ## What the events do to `sched_term`, `visible_term` and the input -/

theorem execute_input (img : Image) (fr : Frame) (site : RetSite) (command : Option (List UInt8))
    (k : Kernel) :
    let k' := (execute img fr site command k).1
    k'.schedTerm = k.schedTerm ∧ k'.visibleTerm = k.visibleTerm ∧ k'.input = k.input := by
  unfold execute
  rcases checkProgram img fr command with reenable | prog
  · cases reenable <;> exact ⟨rfl, rfl, rfl⟩
  · simp only
    rcases firstFree (cli k).procs.slotUsed 0 maxPcbs with _ | i
    · exact ⟨rfl, rfl, rfl⟩
    · simp only
      split <;> exact ⟨rfl, rfl, rfl⟩

theorem haltReturn_input (pid : Nat) (retVal : Int) (k : Kernel) :
    let k' := (haltReturn pid retVal k).1
    k'.schedTerm = k.schedTerm ∧ k'.visibleTerm = k.visibleTerm ∧ k'.input = k.input := by
  unfold haltReturn
  generalize haltTail k.schedTerm pid k.procs = ps
  exact ⟨rfl, rfl, rfl⟩

theorem halt_input (disk : Disk) (fr : Frame) (status : UInt8) (k : Kernel) :
    let k' := (halt disk fr status k).1
    k'.schedTerm = k.schedTerm ∧ k'.visibleTerm = k.visibleTerm ∧ k'.input = k.input := by
  unfold halt
  simp only
  split
  · obtain ⟨hs, hv, hi⟩ := execute_input disk.img fr
      (.halt ((cli k).procs.activePid (cli k).schedTerm) (haltRetVal status)) (shellCommand disk .halt)
      { cli k with procs := freePid ((cli k).procs.activePid (cli k).schedTerm) (cli k).procs }
    split
    · rename_i heq
      rw [executeShell] at heq
      rw [heq] at hs hv hi
      exact ⟨hs, hv, hi⟩
    · rename_i k₁ _ _ heq
      rw [executeShell] at heq
      rw [heq] at hs hv hi
      obtain ⟨hs', hv', hi'⟩ := haltReturn_input
        ((cli k).procs.activePid (cli k).schedTerm) (haltRetVal status) k₁
      exact ⟨hs'.trans hs, hv'.trans hv, hi'.trans hi⟩
  · exact haltReturn_input _ _ _

theorem scheduler_input (disk : Disk) (esp ebp : Nat) (fr : Frame) (k : Kernel) :
    let k' := (scheduler disk esp ebp fr k).1
    k'.schedTerm = nextTerm k.schedTerm ∧ k'.visibleTerm = k.visibleTerm ∧ k'.input = k.input := by
  unfold scheduler
  simp only
  split
  · exact execute_input _ _ _ _ _
  · exact ⟨rfl, rfl, rfl⟩

/-- `switch_terminal` swaps the line buffer, or does nothing. -/
theorem switchTerminal_input (n : Fin 3) (k : Kernel) :
    let k' := switchTerminal n k
    k'.schedTerm = k.schedTerm ∧ k'.visibleTerm = n ∧
      k'.input = if n = k.visibleTerm then k.input else switchInput k.visibleTerm n k.input := by
  unfold switchTerminal
  by_cases hn : n = (cli k).visibleTerm
  · simp only [if_pos hn]
    exact ⟨rfl, hn.symm, (if_pos hn).symm⟩
  · simp only [if_neg hn]
    exact ⟨rfl, rfl, (if_neg hn).symm⟩

/-- The visible terminal after the call that a key asks for. -/
def KeyAction.shown (v : Fin 3) : KeyAction → Fin 3
  | .switchTerminal n => n
  | _ => v

/-- The input after the call that a key asks for. -/
def KeyAction.switched (v : Fin 3) (inp : Input) : KeyAction → Input
  | .switchTerminal n => if n = v then inp else switchInput v n inp
  | _ => inp

/-- What the rest of the kernel does with the action that a key asks for. -/
theorem keyAction_input (disk : Disk) (fr : Frame) (action : KeyAction) (k : Kernel) :
    let k' := match keyAction action k with
      | some k' => k'
      | none => (halt disk fr 0 k).1
    k'.schedTerm = k.schedTerm ∧ k'.visibleTerm = action.shown k.visibleTerm ∧
      k'.input = action.switched k.visibleTerm k.input := by
  cases action with
  | nothing => exact ⟨rfl, rfl, rfl⟩
  | echo cs =>
    obtain ⟨con, hcon⟩ : ∃ con, keyAction (.echo cs) k = some { k with con := con } := ⟨_, rfl⟩
    rw [hcon]
    exact ⟨rfl, rfl, rfl⟩
  | cleark =>
    obtain ⟨con, hcon⟩ : ∃ con, keyAction .cleark k = some { k with con := con } := ⟨_, rfl⟩
    rw [hcon]
    exact ⟨rfl, rfl, rfl⟩
  | switchTerminal n => exact switchTerminal_input n k
  | halt => exact halt_input disk fr 0 k

/-- **What a key event does**: `keyboardInput` on the globals, and a switch of the visible terminal
    if that is what the key asks for. -/
theorem keyboardHandler_exact (disk : Disk) (fr : Frame) (scanCode : UInt8) (k : Kernel) :
    let k' := keyboardHandler disk fr scanCode k
    let r := keyboardInput k.visibleTerm k.input scanCode
    k'.schedTerm = k.schedTerm ∧ k'.visibleTerm = r.2.shown k.visibleTerm ∧
      k'.input = r.2.switched k.visibleTerm r.1 :=
  keyAction_input disk fr (keyboardInput k.visibleTerm k.input scanCode).2
    { k with input := (keyboardInput k.visibleTerm k.input scanCode).1 }

/-- The same by cases: the key leaves the visible terminal, or switches to another one. -/
theorem keyboardHandler_input (disk : Disk) (fr : Frame) (scanCode : UInt8) (k : Kernel) :
    let k' := keyboardHandler disk fr scanCode k
    let r := keyboardInput k.visibleTerm k.input scanCode
    k'.schedTerm = k.schedTerm ∧
      ((k'.visibleTerm = k.visibleTerm ∧ k'.input = r.1) ∨
        ∃ n, r.2 = .switchTerminal n ∧ n ≠ k.visibleTerm ∧ k'.visibleTerm = n ∧
          k'.input = switchInput k.visibleTerm n r.1) := by
  intro k' r
  obtain ⟨hs, hv, hi⟩ := keyboardHandler_exact disk fr scanCode k
  refine ⟨hs, ?_⟩
  show (k'.visibleTerm = _ ∧ k'.input = r.1) ∨ _
  rw [show k'.visibleTerm = r.2.shown k.visibleTerm from hv,
    show k'.input = r.2.switched k.visibleTerm r.1 from hi]
  cases r.2 with
  | switchTerminal n =>
    by_cases hn : n = k.visibleTerm
    · exact Or.inl ⟨hn, if_pos hn⟩
    · exact Or.inr ⟨n, rfl, hn, rfl, if_neg hn⟩
  | nothing => exact Or.inl ⟨rfl, rfl⟩
  | echo cs => exact Or.inl ⟨rfl, rfl⟩
  | cleark => exact Or.inl ⟨rfl, rfl⟩
  | halt => exact Or.inl ⟨rfl, rfl⟩

/-! ## What a statement of a read leaves alone -/

/-- A statement of a read changes no saved line, and no Enter flag but the visible terminal's. -/
theorem readStatement_saved (s v : Fin 3) (nbytes : Int) (inp : Input) (pc : ReadPc) :
    SavedSame v inp (readStatement s v nbytes inp pc).1 := by
  have hrefl := SavedSame.refl v inp
  cases pc with
  | wait | returned => exact hrefl
  | copy i buf =>
    simp only [readStatement]
    split
    · split <;> exact hrefl
    · exact hrefl
  | wipe i n buf =>
    simp only [readStatement]
    split
    · exact hrefl
    · exact hrefl
  | clearFlag n buf => exact hrefl.update 0 _ rfl rfl rfl

/-- It changes no modifier and not the index. -/
theorem readStatement_kept (s v : Fin 3) (nbytes : Int) (inp : Input) (pc : ReadPc) :
    (readStatement s v nbytes inp pc).1.modifiers = inp.modifiers ∧
      (readStatement s v nbytes inp pc).1.bufferIndex = inp.bufferIndex := by
  cases pc with
  | wait | clearFlag | returned => exact ⟨rfl, rfl⟩
  | copy i buf =>
    simp only [readStatement]
    split
    · split <;> exact ⟨rfl, rfl⟩
    · exact ⟨rfl, rfl⟩
  | wipe i n buf =>
    simp only [readStatement]
    split <;> exact ⟨rfl, rfl⟩

theorem callStatement_kept (s v : Fin 3) (nbytes : Int) (inp : Input) (call : Option ReadCall) :
    (callStatement s v nbytes inp call).1.modifiers = inp.modifiers ∧
      (callStatement s v nbytes inp call).1.bufferIndex = inp.bufferIndex ∧
      SavedSame v inp (callStatement s v nbytes inp call).1 := by
  unfold callStatement
  cases openCall call with
  | none => exact ⟨rfl, rfl, SavedSame.refl v inp⟩
  | some c =>
    obtain ⟨hmods, hindex⟩ := readStatement_kept s v c.nbytes inp c.pc
    exact ⟨hmods, hindex, readStatement_saved s v c.nbytes inp c.pc⟩

theorem boot_input (disk : Disk) (pw : PowerOn) (fr : Frame) :
    let k := (boot disk pw fr).1
    k.schedTerm = 0 ∧ k.visibleTerm = 0 ∧ k.input = initialInput pw :=
  execute_input _ _ _ _ _

end ByteVerse
