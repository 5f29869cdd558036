/-
  Whether `buffer_index` and the accesses to `term_buffer` stay inside the buffer.

  The handler stores at `buffer_index` in about a dozen places, `terminal_read` copies from the
  buffer and clears it, and `switch_terminal` saves and loads it.  Beside each function of the model
  stands the list of its accesses, branch by branch (`keyboardAccesses`, `terminalReadAccesses`,
  `switchAccesses`); replaying their writes gives the buffer that the function leaves
  (`next_termBuffer`), so none of them has been forgotten.

  The index stays between 0 and 128 whatever happens.  Two accesses do not: Enter stores its newline
  at the index without looking whether the buffer is full, and `terminal_read` clears as many bytes
  as it is asked for.  `input_bounds_iff` says that there is no third one.

  What such an access hits is up to the linker, which puts three of the modifier flags behind the
  buffer, and is not followed here.  Results about the line and the flags in long runs are therefore
  about those whose accesses all stay inside (`FitsBuffer`).
-/
import ByteVerse.Reader
import ByteVerse.Accesses
import ByteVerse.Run

set_option linter.unusedVariables false

namespace ByteVerse

open Run Accesses

abbrev BufferAccess := Access Int UInt8

/-! ## The accesses of the handler -/

def appendCharAccesses (inp : Input) (c : UInt8) : List BufferAccess :=
  let idx := inp.bufferIndex + 1
  .write inp.bufferIndex c :: if idx < bufferLimit then [.write idx 0] else []

def eraseCharAccesses (inp : Input) : List BufferAccess :=
  let idx := inp.bufferIndex - 1
  [.write idx 0]

def clearIfEmptyAccesses (inp : Input) : List BufferAccess :=
  if inp.bufferIndex = 0 then [.write 0 0] else []

def tabKeyAccesses (inp : Input) : List BufferAccess :=
  if inp.tabFlag = 0 then
    if inp.bufferIndex + tabSize < bufferLimit then
      let i := inp.bufferIndex
      let idx := i + tabSize
      [.write i 32, .write (i + 1) 32, .write (i + 2) 32, .write (i + 3) 32, .write idx 0]
    else []
  else []

def enterKeyAccesses (inp : Input) : List BufferAccess := [.write inp.bufferIndex 10]

def typeKeyAccesses (inp : Input) (scanCode : UInt8) : List BufferAccess :=
  let inp := { inp with lineFlag := inp.lineFlag + 1 }
  if inp.shiftFlag = 1 then
    if scanCode = backspacePress then []
    else if isLetter scanCode then
      let c := if ~~~inp.capsFlag = 0 then scanToAscii scanCode else scanToAsciiCaps scanCode
      appendCharAccesses inp c
    else
      let c := scanToAsciiShift scanCode
      appendCharAccesses inp c
  else if inp.ctrlFlag = 1 then []
  else if inp.capsFlag = 0 ∧ scanCode ≠ backspacePress then
    let c := scanToAscii scanCode
    appendCharAccesses inp c ++ clearIfEmptyAccesses (appendChar inp c)
  else if inp.capsFlag ≠ 0 ∧ scanCode ≠ capsPressed ∧ inp.lineFlag > 0 then
    if scanCode = backspacePress then
      if inp.bufferIndex > 0 then eraseCharAccesses inp else []
    else
      let c := scanToAsciiCaps scanCode
      appendCharAccesses inp c ++ clearIfEmptyAccesses (appendChar inp c)
  else if scanCode = backspacePress ∧ inp.lineFlag > 0 ∧ inp.bufferIndex > 0 then
    eraseCharAccesses inp ++ clearIfEmptyAccesses (eraseChar inp)
  else clearIfEmptyAccesses inp

def fullKeyAccesses (inp : Input) (scanCode : UInt8) : List BufferAccess :=
  if scanCode = backspacePress then
    let idx := inp.bufferIndex - 1
    (if idx < bufferLimit then [.write idx 0] else []) ++
      clearIfEmptyAccesses { inp with bufferIndex := idx }
  else if inp.ctrlFlag = 1 then
    if scanCode = lKeyPress then clearIfEmptyAccesses { inp with bufferIndex := 0 }
    else if scanCode = cKeyPress then []
    else clearIfEmptyAccesses inp
  else clearIfEmptyAccesses inp

def lineKeyAccesses (inp : Input) (scanCode : UInt8) : List BufferAccess :=
  if isIgnored scanCode then []
  else if scanCode = tabPressed then tabKeyAccesses inp
  else if scanCode = tabReleased then []
  else if scanCode = enterPressedCode then enterKeyAccesses inp
  else if scanCode = enterReleasedCode then []
  else if scanCode < charLimit then
    if inp.bufferIndex < bufferLimit then typeKeyAccesses inp scanCode
    else fullKeyAccesses inp scanCode
  else clearIfEmptyAccesses inp

/-- The two `memcpy` of `switch_terminal`, 128 bytes each. -/
def switchAccesses (v n : Fin 3) (inp : Input) : List BufferAccess :=
  if n = v then []
  else loadAll Nat.cast 128 ++ storeAll Nat.cast (fun i => inp.readBuffer n i) 128

def keyboardAccesses (v : Fin 3) (inp : Input) (scanCode : UInt8) : List BufferAccess :=
  if isModifier scanCode then []
  else
    let inp := pressModifier inp scanCode
    if inp.ctrlFlag ≠ 0 ∧ inp.altFlag ≠ 0 ∧ inp.fKeyPressed ≠ 0 then
      if scanCode = f1P then switchAccesses v 0 inp
      else if scanCode = f2P then switchAccesses v 1 inp
      else if scanCode = f3P then switchAccesses v 2 inp
      else []
    else lineKeyAccesses inp scanCode

/-! ## The accesses of `terminal_read` -/

def terminalReadLoopAccesses (termBuffer : Int → UInt8) (nbytes : Int) :
    Nat → Int → List BufferAccess
  | 0, i => []
  | fuel + 1, i =>
    if i < nbytes then
      let c := termBuffer i
      .read i :: if i = bufferLimit ∨ c = 0 then []
        else terminalReadLoopAccesses termBuffer nbytes fuel (i + 1)
    else []

def terminalReadAccesses (s : Fin 3) (nbytes : Int) (inp : Input) : List BufferAccess :=
  if inp.enterPressed s = 0 then []
  else terminalReadLoopAccesses inp.termBuffer nbytes nbytes.toNat 0 ++
    storeAll Nat.cast (fun _ => 0) nbytes.toNat

/-! ## The system -/

inductive BufferEvent
  /-- A keyboard interrupt; `fr` is for the shell that Ctrl+C may restart. -/
  | key (scanCode : UInt8) (fr : Frame)
  | tick (esp ebp : Nat) (fr : Frame)
  | switchTerminal (terminalNumber : Fin 3)
  /-- The process of the scheduled terminal calls `terminal_read`. -/
  | read (nbytes : Int)

/-- The kernel after an event; a read that waits changes nothing. -/
def bufferNext (disk : Disk) (k : Kernel) : BufferEvent → Kernel
  | .key scanCode fr => keyboardHandler disk fr scanCode k
  | .tick esp ebp fr => (scheduler disk esp ebp fr k).1
  | .switchTerminal n => switchTerminal n k
  | .read nbytes =>
    match terminalRead k.schedTerm k.visibleTerm nbytes k.input with
    | none => k
    | some (inp, _) => { k with input := inp }

def bufferStep (disk : Disk) (k : Kernel) (e : BufferEvent) : Option Kernel :=
  some (bufferNext disk k e)

/-- The accesses to `term_buffer` in an event. -/
def bufferAccesses (k : Kernel) : BufferEvent → List BufferAccess
  | .key scanCode _ => keyboardAccesses k.visibleTerm k.input scanCode
  | .tick _ _ _ => []
  | .switchTerminal n => switchAccesses k.visibleTerm n k.input
  | .read nbytes => terminalReadAccesses k.schedTerm nbytes k.input

def InBuffer (i : Int) : Prop := 0 ≤ i ∧ i < bufferLimit

def IndexInBounds (k : Kernel) : Prop := 0 ≤ k.input.bufferIndex ∧ k.input.bufferIndex ≤ bufferLimit

/-- In a run from `k` the index and all accesses stay inside the buffer. -/
def InputBounds (disk : Disk) (k : Kernel) (es : List BufferEvent) : Prop :=
  Throughout (bufferStep disk) IndexInBounds k es ∧
    Along (bufferStep disk) (fun k e => Within InBuffer (bufferAccesses k e)) k es

/-- The handler comes to its Enter branch with a full buffer. -/
def EnterAtEnd (inp : Input) (scanCode : UInt8) : Prop :=
  scanCode = enterPressedCode ∧ ¬ inp.modifiers.Chord ∧ inp.bufferIndex = bufferLimit

/-- The condition: Enter comes with room for the newline, and a read that does not wait asks for at
    most 128 bytes. -/
def FitsBuffer (k : Kernel) : BufferEvent → Prop
  | .key scanCode _ => ¬ EnterAtEnd k.input scanCode
  | .read nbytes => k.input.enterPressed k.schedTerm ≠ 0 → nbytes ≤ bufferLimit
  | _ => True

instance (inp : Input) (scanCode : UInt8) : Decidable (EnterAtEnd inp scanCode) :=
  inferInstanceAs (Decidable (_ ∧ _))

instance (k : Kernel) : ∀ e, Decidable (FitsBuffer k e)
  | .key _ _ => inferInstanceAs (Decidable (¬ _))
  | .tick _ _ _ => inferInstanceAs (Decidable True)
  | .switchTerminal _ => inferInstanceAs (Decidable True)
  | .read _ => inferInstanceAs (Decidable (_ → _))

/-! ## The accesses are those of the model -/

section Replay

variable {inp : Input} {scanCode : UInt8}

theorem appendChar_replay (inp : Input) (c : UInt8) :
    (appendChar inp c).termBuffer = replay (appendCharAccesses inp c) inp.termBuffer := by
  unfold appendChar appendCharAccesses
  simp only
  rw [replay_update]
  split
  · rw [replay_update, replay_nil]
  · rfl

theorem eraseChar_replay (inp : Input) :
    (eraseChar inp).termBuffer = replay (eraseCharAccesses inp) inp.termBuffer := by
  unfold eraseCharAccesses
  simp only
  rw [replay_update]
  rfl

theorem clearIfEmpty_replay (inp : Input) :
    (clearIfEmpty inp).termBuffer = replay (clearIfEmptyAccesses inp) inp.termBuffer := by
  unfold clearIfEmpty clearIfEmptyAccesses
  split
  · rw [replay_update]
    rfl
  · rfl

/-- A function that reaches the last statement of the handler. -/
theorem then_clearIfEmpty {inp : Input} {m : Int → UInt8} {trace : List BufferAccess}
    (h : inp.termBuffer = replay trace m) :
    (clearIfEmpty inp).termBuffer = replay (trace ++ clearIfEmptyAccesses inp) m := by
  rw [clearIfEmpty_replay, replay_append, h]

theorem tabKey_replay :
    (tabKey inp).1.termBuffer = replay (tabKeyAccesses inp) inp.termBuffer := by
  unfold tabKey tabKeyAccesses
  split
  · simp only
    split
    · simp only [replay_update, replay_nil]
    · rfl
  · rfl

theorem typeKey_replay (inp : Input) (scanCode : UInt8) :
    (typeKey inp scanCode).1.termBuffer = replay (typeKeyAccesses inp scanCode) inp.termBuffer := by
  unfold typeKey typeKeyAccesses
  simp only
  split
  · split
    · rfl
    · split
      · exact appendChar_replay _ _
      · exact appendChar_replay _ _
  split
  · split
    · rfl
    · split <;> rfl
  split
  · exact then_clearIfEmpty (appendChar_replay _ _)
  split
  · split
    · split
      · exact eraseChar_replay _
      · rfl
    · exact then_clearIfEmpty (appendChar_replay _ _)
  split
  · exact then_clearIfEmpty (eraseChar_replay _)
  · exact clearIfEmpty_replay _

theorem fullKey_replay (inp : Input) (scanCode : UInt8) :
    (fullKey inp scanCode).1.termBuffer = replay (fullKeyAccesses inp scanCode) inp.termBuffer := by
  unfold fullKey fullKeyAccesses
  split
  · simp only
    refine then_clearIfEmpty ?_
    split
    · rw [replay_update, replay_nil]
    · rfl
  split
  · split
    · exact clearIfEmpty_replay _
    · split
      · rfl
      · exact clearIfEmpty_replay _
  · exact clearIfEmpty_replay _

theorem lineKey_replay (v : Fin 3) (inp : Input) (scanCode : UInt8) :
    (lineKey v inp scanCode).1.termBuffer = replay (lineKeyAccesses inp scanCode) inp.termBuffer := by
  unfold lineKey lineKeyAccesses
  split
  · rfl
  split
  · exact tabKey_replay
  split
  · rfl
  split
  · rw [enterKeyAccesses, replay_update]
    rfl
  split
  · rfl
  split
  · split
    · exact typeKey_replay inp scanCode
    · exact fullKey_replay inp scanCode
  · exact clearIfEmpty_replay inp

theorem switch_replay {v n : Fin 3} (hn : n ≠ v) (inp : Input) :
    (switchInput v n inp).termBuffer = replay (switchAccesses v n inp) inp.termBuffer := by
  rw [switchAccesses, if_neg hn, replay_append, replay_loadAll]
  funext i
  simp only [switchInput]
  rw [Function.update_of_ne hn]
  split
  · rename_i hi
    obtain ⟨j, rfl⟩ := Int.eq_ofNat_of_zero_le hi.1
    exact (replay_storeAll (f := Nat.cast) (fun _ _ => Int.ofNat_inj.mp)
      (fun i => inp.readBuffer n i) (Int.ofNat_lt.mp hi.2)).symm
  · rename_i hi
    refine (replay_of_within InBuffer ?_ hi).symm
    rw [within_storeAll]
    intro j hj
    exact ⟨Int.natCast_nonneg j, Int.ofNat_lt.mpr hj⟩

theorem switched_replay {v : Fin 3} (n : Fin 3) (inp : Input) :
    (if n = v then inp else switchInput v n inp).termBuffer =
      replay (switchAccesses v n inp) inp.termBuffer := by
  by_cases hn : n = v
  · rw [if_pos hn, switchAccesses, if_pos hn, replay_nil]
  · rw [if_neg hn]
    exact switch_replay hn inp

/-- Behind the `switch` of the handler nothing switches terminals. -/
theorem lineKey_switched (v : Fin 3) (inp : Input) (scanCode : UInt8) :
    (lineKey v inp scanCode).2.switched v (lineKey v inp scanCode).1 = (lineKey v inp scanCode).1 := by
  have htype : ∀ inp', (typeKey inp scanCode).2.switched v inp' = inp' := by
    intro inp'
    unfold typeKey
    simp only
    split
    · split
      · rfl
      · split <;> rfl
    split
    · split
      · rfl
      · split <;> rfl
    split
    · rfl
    split
    · split
      · split <;> rfl
      · rfl
    · split <;> rfl
  have hfull : ∀ inp', (fullKey inp scanCode).2.switched v inp' = inp' := by
    intro inp'
    unfold fullKey
    split
    · rfl
    split
    · split
      · rfl
      · split <;> rfl
    · rfl
  unfold lineKey
  split
  · rfl
  split
  · unfold tabKey
    split
    · simp only
      split <;> rfl
    · rfl
  split
  · rfl
  split
  · rfl
  split
  · rfl
  split
  · split
    · exact htype _
    · exact hfull _
  · rfl

theorem keyboard_replay (v : Fin 3) (inp : Input) (scanCode : UInt8) :
    let r := keyboardInput v inp scanCode
    (r.2.switched v r.1).termBuffer = replay (keyboardAccesses v inp scanCode) inp.termBuffer := by
  intro r
  have hr : r = keyboardInput v inp scanCode := rfl
  unfold keyboardAccesses
  by_cases hmod : isModifier scanCode = true
  · obtain ⟨c, s, t, a, hkey⟩ := keyboardInput_modifier v inp hmod
    rw [hr, hkey, if_pos hmod]
    rfl
  obtain ⟨c, f, hpress, -⟩ := pressModifier_same inp scanCode
  rw [hr, keyboardInput_rest v hmod, if_neg hmod, hpress]
  by_cases hchord : Modifiers.Chord (Input.modifiers { inp with ctrlFlag := c, fKeyPressed := f })
  · rw [if_pos hchord]
    refine Eq.trans ?_ (congrArg (replay · inp.termBuffer) (if_pos hchord).symm)
    unfold chordAction
    split
    · exact switched_replay 0 { inp with ctrlFlag := c, fKeyPressed := 0 }
    split
    · exact switched_replay 1 { inp with ctrlFlag := c, fKeyPressed := 0 }
    split
    · exact switched_replay 2 { inp with ctrlFlag := c, fKeyPressed := 0 }
    · rfl
  · rw [if_neg hchord, lineKey_switched, lineKey_replay]
    exact congrArg (replay · inp.termBuffer) (if_neg hchord).symm

/-- The copy loop of `terminal_read` only reads. -/
theorem terminalReadLoop_replay (termBuffer : Int → UInt8) (nbytes : Int) (m : Int → UInt8) :
    ∀ fuel i, replay (terminalReadLoopAccesses termBuffer nbytes fuel i) m = m := by
  intro fuel
  induction fuel with
  | zero =>
    intro i
    rfl
  | succ fuel ih =>
    intro i
    unfold terminalReadLoopAccesses
    split
    · simp only [replay_read]
      split
      · rfl
      · exact ih (i + 1)
    · rfl

theorem terminalRead_replay {s v : Fin 3} {nbytes : Int} {inp' : Input} {r : Int × List UInt8}
    (h : terminalRead s v nbytes inp = some (inp', r)) :
    inp'.termBuffer = replay (terminalReadAccesses s nbytes inp) inp.termBuffer := by
  obtain ⟨hflag, -, rfl⟩ := terminalRead_eq_some h
  rw [terminalReadAccesses, if_neg hflag, replay_append, terminalReadLoop_replay]
  funext i
  simp only
  split
  · rename_i hi
    obtain ⟨j, rfl⟩ := Int.eq_ofNat_of_zero_le hi.1
    exact (replay_storeAll (f := Nat.cast) (fun _ _ => Int.ofNat_inj.mp) (fun _ => 0)
      (by omega)).symm
  · rename_i hi
    refine (replay_of_within (fun i => 0 ≤ i ∧ i < nbytes) ?_ hi).symm
    rw [within_storeAll]
    intro j hj
    constructor <;> omega

end Replay

/-- **The accesses listed are all there are to the buffer's content**: replaying them gives the buffer
    after the event. -/
theorem next_termBuffer (disk : Disk) (k : Kernel) (e : BufferEvent) :
    (bufferNext disk k e).input.termBuffer = replay (bufferAccesses k e) k.input.termBuffer := by
  cases e with
  | key scanCode fr =>
    obtain ⟨-, -, hinput⟩ := keyboardHandler_exact disk fr scanCode k
    show (keyboardHandler disk fr scanCode k).input.termBuffer = _
    rw [hinput]
    exact keyboard_replay k.visibleTerm k.input scanCode
  | tick esp ebp fr =>
    obtain ⟨-, -, hinput⟩ := scheduler_input disk esp ebp fr k
    exact congrArg Input.termBuffer hinput
  | switchTerminal n =>
    obtain ⟨-, -, hinput⟩ := switchTerminal_input n k
    show (switchTerminal n k).input.termBuffer = _
    rw [hinput]
    exact switched_replay n k.input
  | read nbytes =>
    simp only [bufferNext]
    split
    · rename_i hwait
      rw [bufferAccesses, terminalReadAccesses, if_pos (terminalRead_eq_none.mp hwait), replay_nil]
    · rename_i hread
      exact terminalRead_replay hread

/-! ## Which accesses stay inside the buffer -/

section Bounds

variable {inp : Input} {scanCode : UInt8}

theorem clearIfEmpty_within (inp : Input) : Within InBuffer (clearIfEmptyAccesses inp) := by
  unfold clearIfEmptyAccesses
  split
  · exact within_cons.mpr ⟨⟨Int.le_refl 0, by decide⟩, within_nil⟩
  · exact within_nil

theorem appendChar_within (hroom : InBuffer inp.bufferIndex) (c : UInt8) :
    Within InBuffer (appendCharAccesses inp c) := by
  unfold appendCharAccesses
  refine within_cons.mpr ⟨hroom, ?_⟩
  split
  · rename_i hnext
    exact within_cons.mpr ⟨⟨Int.le_add_one hroom.1, hnext⟩, within_nil⟩
  · exact within_nil

theorem eraseChar_within (hlow : 0 < inp.bufferIndex) (hhigh : inp.bufferIndex ≤ bufferLimit) :
    Within InBuffer (eraseCharAccesses inp) := by
  refine within_cons.mpr ⟨?_, within_nil⟩
  simp only [InBuffer, Access.cell, bufferLimit] at *
  omega

theorem tabKey_within (hlow : 0 ≤ inp.bufferIndex) : Within InBuffer (tabKeyAccesses inp) := by
  unfold tabKeyAccesses
  split
  · split
    · rename_i hroom
      simp only [within_cons, within_nil, and_true, Access.cell, InBuffer, bufferLimit, tabSize] at *
      omega
    · exact within_nil
  · exact within_nil

theorem typeKey_within (hroom : InBuffer inp.bufferIndex) :
    Within InBuffer (typeKeyAccesses inp scanCode) := by
  have happend : ∀ c, Within InBuffer (appendCharAccesses { inp with lineFlag := inp.lineFlag + 1 } c) :=
    fun c => appendChar_within hroom c
  have herase : 0 < inp.bufferIndex →
      Within InBuffer (eraseCharAccesses { inp with lineFlag := inp.lineFlag + 1 }) :=
    fun hlow => eraseChar_within hlow (Int.le_of_lt hroom.2)
  unfold typeKeyAccesses
  simp only
  split
  · split
    · exact within_nil
    · split
      · exact happend _
      · exact happend _
  split
  · exact within_nil
  split
  · exact within_append.mpr ⟨happend _, clearIfEmpty_within _⟩
  split
  · split
    · split
      · rename_i hpos
        exact herase hpos
      · exact within_nil
    · exact within_append.mpr ⟨happend _, clearIfEmpty_within _⟩
  split
  · rename_i herased
    exact within_append.mpr ⟨herase herased.2.2, clearIfEmpty_within _⟩
  · exact clearIfEmpty_within _

theorem fullKey_within (hfull : inp.bufferIndex = bufferLimit) :
    Within InBuffer (fullKeyAccesses inp scanCode) := by
  unfold fullKeyAccesses
  rw [hfull]
  split
  · refine within_append.mpr ⟨?_, clearIfEmpty_within _⟩
    exact within_cons.mpr ⟨⟨by decide, by decide⟩, within_nil⟩
  split
  · split
    · exact clearIfEmpty_within _
    · split
      · exact within_nil
      · exact clearIfEmpty_within _
  · exact clearIfEmpty_within _

/-- Enter is the one key that does not look whether the buffer is full. -/
theorem lineKey_within_iff (hlow : 0 ≤ inp.bufferIndex) (hhigh : inp.bufferIndex ≤ bufferLimit) :
    Within InBuffer (lineKeyAccesses inp scanCode) ↔
      ¬ (scanCode = enterPressedCode ∧ inp.bufferIndex = bufferLimit) := by
  by_cases henter : scanCode = enterPressedCode
  · subst henter
    show Within InBuffer [.write inp.bufferIndex 10] ↔ _
    simp only [within_cons, within_nil, Access.cell, InBuffer, bufferLimit, true_and, and_true] at *
    omega
  refine iff_of_true ?_ fun h => henter h.1
  unfold lineKeyAccesses
  rw [if_neg henter]
  split
  · exact within_nil
  split
  · exact tabKey_within hlow
  split
  · exact within_nil
  split
  · exact within_nil
  split
  · split
    · rename_i hroom
      exact typeKey_within ⟨hlow, hroom⟩
    · rename_i hfull
      exact fullKey_within (Int.le_antisymm hhigh (Int.not_lt.mp hfull))
  · exact clearIfEmpty_within _

theorem switch_within (v n : Fin 3) (inp : Input) : Within InBuffer (switchAccesses v n inp) := by
  have hcells : ∀ i < 128, InBuffer (Nat.cast i) := by
    intro i hi
    exact ⟨Int.natCast_nonneg i, Int.ofNat_lt.mpr hi⟩
  unfold switchAccesses
  split
  · exact within_nil
  · exact within_append.mpr ⟨within_loadAll.mpr hcells, within_storeAll.mpr hcells⟩

theorem keyboard_within_iff (v : Fin 3) (hlow : 0 ≤ inp.bufferIndex)
    (hhigh : inp.bufferIndex ≤ bufferLimit) :
    Within InBuffer (keyboardAccesses v inp scanCode) ↔ ¬ EnterAtEnd inp scanCode := by
  unfold keyboardAccesses
  by_cases hmod : isModifier scanCode = true
  · rw [if_pos hmod]
    refine iff_of_true within_nil fun hend => ?_
    rw [hend.1] at hmod
    cases hmod
  rw [if_neg hmod]
  obtain ⟨c, f, hpress, hc, hf⟩ := pressModifier_same inp scanCode
  rw [hpress]
  simp only
  -- Enter itself presses no modifier
  have hsame : scanCode = enterPressedCode → c = inp.ctrlFlag ∧ f = inp.fKeyPressed := by
    rintro rfl
    exact ⟨hc, hf (by decide) rfl⟩
  by_cases hchord : c ≠ 0 ∧ inp.altFlag ≠ 0 ∧ f ≠ 0
  · rw [if_pos hchord]
    refine iff_of_true ?_ fun hend => hend.2.1 ?_
    · split
      · exact switch_within v 0 _
      split
      · exact switch_within v 1 _
      split
      · exact switch_within v 2 _
      · exact within_nil
    · obtain ⟨rfl, rfl⟩ := hsame hend.1
      exact hchord
  · rw [if_neg hchord]
    have hline : Within InBuffer (lineKeyAccesses { inp with ctrlFlag := c, fKeyPressed := f } scanCode) ↔
        ¬ (scanCode = enterPressedCode ∧ inp.bufferIndex = bufferLimit) :=
      lineKey_within_iff hlow hhigh
    refine hline.trans (not_congr ?_)
    constructor
    · rintro ⟨hkey, hfull⟩
      obtain ⟨rfl, rfl⟩ := hsame hkey
      exact ⟨hkey, hchord, hfull⟩
    · rintro ⟨hkey, -, hfull⟩
      exact ⟨hkey, hfull⟩

/-- The copy loop stops at the size and at the end of the buffer. -/
theorem terminalReadLoop_within (termBuffer : Int → UInt8) {nbytes : Int}
    (hsize : nbytes ≤ bufferLimit) :
    ∀ fuel i, 0 ≤ i → Within InBuffer (terminalReadLoopAccesses termBuffer nbytes fuel i) := by
  intro fuel
  induction fuel with
  | zero =>
    intro i _
    exact within_nil
  | succ fuel ih =>
    intro i hi
    unfold terminalReadLoopAccesses
    split
    · rename_i hlt
      refine within_cons.mpr ⟨⟨hi, Int.lt_of_lt_of_le hlt hsize⟩, ?_⟩
      split
      · exact within_nil
      · exact ih (i + 1) (Int.le_add_one hi)
    · exact within_nil

/-- The loop that clears the buffer stops at the size alone. -/
theorem terminalRead_within_iff (s : Fin 3) (nbytes : Int) (inp : Input) :
    Within InBuffer (terminalReadAccesses s nbytes inp) ↔
      (inp.enterPressed s ≠ 0 → nbytes ≤ bufferLimit) := by
  unfold terminalReadAccesses
  split
  · rename_i hwaits
    exact iff_of_true within_nil fun hflag => absurd hwaits hflag
  rename_i hflag
  constructor
  · intro h _
    by_contra hlarge
    have hpast := within_storeAll.mp (within_append.mp h).2 128 (by
      simp only [bufferLimit] at hlarge
      omega)
    exact absurd hpast.2 (by decide)
  · intro h
    have hsize := h hflag
    refine within_append.mpr ⟨terminalReadLoop_within _ hsize _ 0 (Int.le_refl 0), ?_⟩
    rw [within_storeAll]
    intro i hi
    simp only [InBuffer, bufferLimit] at *
    omega

end Bounds

/-! ## Steps and runs -/

/-- The live index and the saved ones. -/
structure Input.InBounds (inp : Input) : Prop where
  live : 0 ≤ inp.bufferIndex ∧ inp.bufferIndex ≤ bufferLimit
  saved : ∀ t, 0 ≤ inp.rbIdx t ∧ inp.rbIdx t ≤ bufferLimit

theorem Input.InBounds.switchInput {inp : Input} (h : inp.InBounds) (v n : Fin 3) :
    (ByteVerse.switchInput v n inp).InBounds := by
  have hsaved : ∀ t, 0 ≤ Function.update inp.rbIdx v (inp.bufferIndex % 256) t ∧
      Function.update inp.rbIdx v (inp.bufferIndex % 256) t ≤ bufferLimit := by
    intro t
    by_cases ht : t = v
    · have hlive := h.live
      rw [ht, Function.update_self]
      simp only [bufferLimit] at *
      omega
    · rw [Function.update_of_ne ht]
      exact h.saved t
  exact ⟨hsaved n, hsaved⟩

theorem Input.InBounds.switched {inp : Input} (h : inp.InBounds) (v : Fin 3) (action : KeyAction) :
    (action.switched v inp).InBounds := by
  cases action with
  | switchTerminal n =>
    simp only [KeyAction.switched]
    split
    · exact h
    · exact h.switchInput v n
  | nothing | echo | cleark | halt => exact h

theorem Input.InBounds.keyboardInput {inp : Input} (h : inp.InBounds) (v : Fin 3) (scanCode : UInt8) :
    (ByteVerse.keyboardInput v inp scanCode).1.InBounds := by
  obtain ⟨-, hidx, -⟩ := keyboardInput_saved v inp scanCode
  refine ⟨keyboardInput_index v h.live.1 h.live.2 scanCode, ?_⟩
  rw [hidx]
  exact h.saved

/-- **The step lemma**: no event takes an index out of bounds. -/
theorem Input.InBounds.next (disk : Disk) {k : Kernel} (h : k.input.InBounds) (e : BufferEvent) :
    (bufferNext disk k e).input.InBounds := by
  cases e with
  | key scanCode fr =>
    obtain ⟨-, -, hinput⟩ := keyboardHandler_exact disk fr scanCode k
    show (keyboardHandler disk fr scanCode k).input.InBounds
    rw [hinput]
    exact (h.keyboardInput k.visibleTerm scanCode).switched _ _
  | tick esp ebp fr =>
    obtain ⟨-, -, hinput⟩ := scheduler_input disk esp ebp fr k
    show (scheduler disk esp ebp fr k).1.input.InBounds
    rw [hinput]
    exact h
  | switchTerminal n =>
    obtain ⟨-, -, hinput⟩ := switchTerminal_input n k
    show (switchTerminal n k).input.InBounds
    rw [hinput]
    exact h.switched k.visibleTerm (.switchTerminal n)
  | read nbytes =>
    simp only [bufferNext]
    split
    · exact h
    · rename_i hread
      obtain ⟨-, -, rfl⟩ := terminalRead_eq_some hread
      exact ⟨h.live, h.saved⟩

theorem accesses_within_iff {k : Kernel} (h : k.input.InBounds) (e : BufferEvent) :
    Within InBuffer (bufferAccesses k e) ↔ FitsBuffer k e := by
  cases e with
  | key scanCode fr => exact keyboard_within_iff k.visibleTerm h.live.1 h.live.2
  | tick esp ebp fr => exact iff_of_true within_nil trivial
  | switchTerminal n => exact iff_of_true (switch_within _ _ _) trivial
  | read nbytes => exact terminalRead_within_iff _ _ _

/-- The bounds of a run, from any state whose indices are in bounds. -/
theorem inputBounds_of_inBounds (disk : Disk) {k : Kernel} (h : k.input.InBounds)
    (es : List BufferEvent) : InputBounds disk k es ↔ Along (bufferStep disk) FitsBuffer k es := by
  have hstep : ∀ (k : Kernel) (e : BufferEvent) (k' : Kernel), k.input.InBounds →
      bufferStep disk k e = some k' → k'.input.InBounds := by
    intro k e k' hk hs
    obtain rfl := Option.some.inj hs
    exact hk.next disk e
  have hindex : Throughout (bufferStep disk) IndexInBounds k es :=
    throughout_mono (fun _ hk => hk.live) (throughout_of_inv hstep h)
  have haccesses : Along (bufferStep disk) (fun k e => Within InBuffer (bufferAccesses k e)) k es ↔
      Along (bufferStep disk) FitsBuffer k es :=
    along_congr hstep (fun _ e hk => accesses_within_iff hk e) h
  constructor
  · intro hbounds
    exact haccesses.mp hbounds.2
  · intro hfits
    exact ⟨hindex, haccesses.mpr hfits⟩

theorem boot_inBounds (disk : Disk) (pw : PowerOn) (fr : Frame) :
    (boot disk pw fr).1.input.InBounds := by
  obtain ⟨-, -, hinput⟩ := boot_input disk pw fr
  have hzero : (0 : Int) ≤ 0 ∧ (0 : Int) ≤ bufferLimit := by decide
  rw [hinput]
  exact ⟨hzero, fun _ => hzero⟩

/-- **The input buffer's bounds**: in a run from boot, with any scan codes, ticks, terminal switches
    and reads of any size, the index and every access stay inside the buffer exactly when Enter never
    comes to a full buffer and no read that gets past its wait asks for more than 128 bytes. -/
theorem input_bounds_iff (disk : Disk) (pw : PowerOn) (fr : Frame) (es : List BufferEvent) :
    InputBounds disk (boot disk pw fr).1 es ↔
      Along (bufferStep disk) FitsBuffer (boot disk pw fr).1 es :=
  inputBounds_of_inBounds disk (boot_inBounds disk pw fr) es

/-- The shell's own read, of 1023 bytes, after `s` and Enter. -/
theorem shell_read_out_of_bounds :
    ¬ InputBounds smallDisk (boot smallDisk blankMemory blankFrame).1
      [.key 0x1F blankFrame, .key 0x1C blankFrame, .read 1023] := by
  intro h
  have hfits := (inputBounds_of_inBounds smallDisk (boot_inBounds smallDisk blankMemory blankFrame) _).mp h
  have hread := ((hfits _ rfl).2 _ rfl).2 _ rfl
  exact absurd (hread.1 (by decide +kernel)) (by decide)

end ByteVerse
