/-
  The modifier keys: what their flags say, and what pressing them does besides.

  `shift_flag`, `ctrl_flag`, `alt_flag` and `caps_flag` are set by the `switch` at the head of
  `keyboard_handler`.  The branches behind it write two of them again: `caps_flag` is inverted twice
  around a shifted letter, and the Ctrl branches store 0 into `shift_flag`, but only where it is 0
  (`lineKey_modifiers`).  So the flags follow the `switch`, and the `switch` is wrong about one thing:
  both Shift keys share a flag, and the release of either clears it.

  Of the ten codes two do not return from the `switch`.  Ctrl pressed goes on like a character key,
  and with Shift held it types a NUL.  Caps Lock released, which the `switch` does not name, reaches the
  last statement of the handler; on an empty line that statement stores a NUL over what may be the
  first character of a line that nobody has read yet.
-/
import ByteVerse.InputBounds

set_option linter.unusedVariables false

namespace ByteVerse

open Run

/-! ## The keys that are down -/

/-- The code of a key's release is that of its press with the high bit set. -/
@[simp] def capsReleased : UInt8 := 0xBA

structure KeysDown where
  rShift : Bool
  lShift : Bool
  ctrl : Bool
  leftAlt : Bool
  /-- The number of times Caps Lock has been pressed. -/
  capsPresses : Nat
  deriving DecidableEq

def KeysDown.none : KeysDown :=
  { rShift := false, lShift := false, ctrl := false, leftAlt := false, capsPresses := 0 }

/-- A key with these two codes, after a scan code. -/
def isDown (pressedCode releasedCode : UInt8) (down : Bool) (scanCode : UInt8) : Bool :=
  if scanCode = pressedCode then true else if scanCode = releasedCode then false else down

def KeysDown.key (d : KeysDown) (scanCode : UInt8) : KeysDown where
  rShift := isDown rShiftPressed rShiftReleased d.rShift scanCode
  lShift := isDown lShiftPressed lShiftReleased d.lShift scanCode
  ctrl := isDown ctrlPressed ctrlReleased d.ctrl scanCode
  leftAlt := isDown leftAltPressed leftAltReleased d.leftAlt scanCode
  capsPresses := if scanCode = capsPressed then d.capsPresses + 1 else d.capsPresses

/-- A press or a release of one of the five keys. -/
def isModifierKey (scanCode : UInt8) : Bool :=
  isModifier scanCode || scanCode == ctrlPressed || scanCode == capsReleased

/-! ## Runs -/

structure KeyRun where
  kernel : Kernel
  down : KeysDown

/-- The keys after an event: the ones of the keyboard, whatever else happens. -/
def KeysDown.after (d : KeysDown) : BufferEvent → KeysDown
  | .key scanCode _ => d.key scanCode
  | _ => d

def keyStep (disk : Disk) (r : KeyRun) (e : BufferEvent) : Option KeyRun :=
  some { kernel := bufferNext disk r.kernel e, down := r.down.after e }

def startKeys (k : Kernel) : KeyRun := { kernel := k, down := KeysDown.none }

/-- The four flags say which keys are down. -/
structure FlagsRight (m : Modifiers) (d : KeysDown) : Prop where
  shift : m.shift = 1 ↔ d.rShift = true ∨ d.lShift = true
  ctrl : m.ctrl = 1 ↔ d.ctrl = true
  alt : m.alt = 1 ↔ d.leftAlt = true
  caps : m.caps ≠ 0 ↔ d.capsPresses % 2 = 1

/-- The line buffer, its index and the screen are as before. -/
structure SameText (k k' : Kernel) : Prop where
  buffer : k'.input.termBuffer = k.input.termBuffer
  index : k'.input.bufferIndex = k.input.bufferIndex
  screen : k'.con = k.con

/-- After the event the flags are right; and if it was a modifier key, nothing else has changed. -/
def ModifiersRight (disk : Disk) (r : KeyRun) (e : BufferEvent) : Prop :=
  FlagsRight (bufferNext disk r.kernel e).input.modifiers (r.down.after e) ∧
    ∀ scanCode fr, e = .key scanCode fr → isModifierKey scanCode = true →
      SameText r.kernel (bufferNext disk r.kernel e)

/-- One Shift key is released, and the other one is still down. -/
def ReleasesOneShift (d : KeysDown) (scanCode : UInt8) : Prop :=
  (scanCode = rShiftReleased ∧ d.lShift = true) ∨ (scanCode = lShiftReleased ∧ d.rShift = true)

/-- Ctrl is pressed with Shift held and room in the buffer, and no function key is pending that it
    would complete a chord with. -/
def CtrlTypes (inp : Input) (scanCode : UInt8) : Prop :=
  scanCode = ctrlPressed ∧ inp.shiftFlag = 1 ∧ inp.bufferIndex < bufferLimit ∧
    ¬ (inp.altFlag ≠ 0 ∧ inp.fKeyPressed ≠ 0)

/-- Caps Lock is released on an empty line, with a character in front of the buffer. -/
def CapsErases (inp : Input) (scanCode : UInt8) : Prop :=
  scanCode = capsReleased ∧ inp.bufferIndex = 0 ∧ inp.termBuffer 0 ≠ 0 ∧ ¬ inp.modifiers.Chord

/-- The condition. -/
def sparesModifiers (r : KeyRun) : BufferEvent → Prop
  | .key scanCode _ => ¬ ReleasesOneShift r.down scanCode ∧ ¬ CtrlTypes r.kernel.input scanCode ∧
      ¬ CapsErases r.kernel.input scanCode
  | _ => True

instance (d : KeysDown) (scanCode : UInt8) : Decidable (ReleasesOneShift d scanCode) :=
  inferInstanceAs (Decidable (_ ∨ _))

instance (inp : Input) (scanCode : UInt8) : Decidable (CtrlTypes inp scanCode) :=
  inferInstanceAs (Decidable (_ ∧ _))

instance (inp : Input) (scanCode : UInt8) : Decidable (CapsErases inp scanCode) :=
  inferInstanceAs (Decidable (_ ∧ _))

instance (r : KeyRun) : ∀ e, Decidable (sparesModifiers r e)
  | .key _ _ => inferInstanceAs (Decidable (_ ∧ _))
  | .tick _ _ _ => inferInstanceAs (Decidable True)
  | .switchTerminal _ => inferInstanceAs (Decidable True)
  | .read _ => inferInstanceAs (Decidable True)

/-! ## The flags are written by the `switch` alone -/

section Flags

variable {inp : Input}

/-- **What a scan code does to the four flags.** -/
theorem keyboardInput_flags (scanCode : UInt8) (v : Fin 3) (hshift : inp.shiftFlag ≠ 1 → inp.shiftFlag = 0) :
    let m := (keyboardInput v inp scanCode).1.modifiers
    m.caps = (if scanCode = capsPressed then ~~~inp.capsFlag else inp.capsFlag) ∧
      m.shift = (if scanCode = rShiftPressed ∨ scanCode = lShiftPressed then 1
        else if scanCode = rShiftReleased ∨ scanCode = lShiftReleased then 0 else inp.shiftFlag) ∧
      m.ctrl = (if scanCode = ctrlPressed then 1
        else if scanCode = ctrlReleased then 0 else inp.ctrlFlag) ∧
      m.alt = (if scanCode = leftAltPressed then 1
        else if scanCode = leftAltReleased then 0 else inp.altFlag) := by
  by_cases hmod : isModifier scanCode = true
  · rcases isModifier_iff.mp hmod with hc | hc | (hc | hc) | (hc | hc) | hc | hc <;> subst hc <;>
      exact ⟨rfl, rfl, rfl, rfl⟩
  have hnot := mt isModifier_iff.mpr hmod
  simp only [not_or] at hnot
  obtain ⟨hcaps, hctrlR, hshiftP, hshiftR, halt, haltR⟩ := hnot
  obtain ⟨c, f, hpress, hc, -⟩ := pressModifier_same inp scanCode
  rw [if_neg hcaps, if_neg (not_or.mpr hshiftP), if_neg (not_or.mpr hshiftR), if_neg hctrlR,
    if_neg halt, if_neg haltR, ← hc, keyboardInput_rest v hmod, hpress]
  split
  · exact ⟨rfl, rfl, rfl, rfl⟩
  · have hline : (lineKey v { inp with ctrlFlag := c, fKeyPressed := f } scanCode).1.modifiers = _ :=
      lineKey_modifiers v fun hne _ => hshift hne
    rw [hline]
    exact ⟨rfl, rfl, rfl, rfl⟩

end Flags

/-! ## The invariant -/

/-- The flags have the values that the keys down give them. -/
structure FlagsInv (m : Modifiers) (d : KeysDown) : Prop where
  shift : m.shift = if d.rShift = true ∨ d.lShift = true then 1 else 0
  ctrl : m.ctrl = if d.ctrl = true then 1 else 0
  alt : m.alt = if d.leftAlt = true then 1 else 0
  caps : m.caps = if d.capsPresses % 2 = 1 then 255 else 0

theorem flag_eq_one_iff {flag : UInt8} {p : Prop} [Decidable p] (h : flag = if p then 1 else 0) :
    flag = 1 ↔ p := by
  rw [h]
  by_cases hp : p
  · rw [if_pos hp]
    exact iff_of_true rfl hp
  · rw [if_neg hp]
    exact iff_of_false (by decide) hp

theorem FlagsInv.right {m : Modifiers} {d : KeysDown} (h : FlagsInv m d) : FlagsRight m d where
  shift := flag_eq_one_iff h.shift
  ctrl := flag_eq_one_iff h.ctrl
  alt := flag_eq_one_iff h.alt
  caps := by
    rw [h.caps]
    by_cases hodd : d.capsPresses % 2 = 1
    · rw [if_pos hodd]
      exact iff_of_true (by decide) hodd
    · rw [if_neg hodd]
      exact iff_of_false (by decide) hodd

theorem FlagsInv.shift_zero {inp : Input} {d : KeysDown} (h : FlagsInv inp.modifiers d) :
    inp.shiftFlag ≠ 1 → inp.shiftFlag = 0 := by
  intro hne
  have hshift := h.shift
  by_cases hdown : d.rShift = true ∨ d.lShift = true
  · exact absurd (hshift.trans (if_pos hdown)) hne
  · exact hshift.trans (if_neg hdown)

theorem isDown_flag {pressedCode releasedCode scanCode : UInt8} {down : Bool} {flag : UInt8}
    (h : flag = if down = true then 1 else 0) :
    (if scanCode = pressedCode then 1 else if scanCode = releasedCode then 0 else flag) =
      if isDown pressedCode releasedCode down scanCode = true then (1 : UInt8) else 0 := by
  unfold isDown
  split
  · rfl
  split
  · rfl
  · exact h

/-- **The step lemma for a key.** -/
theorem FlagsInv.key {inp : Input} {d : KeysDown} (h : FlagsInv inp.modifiers d) (v : Fin 3)
    {scanCode : UInt8} (hgood : ¬ ReleasesOneShift d scanCode) :
    FlagsInv (keyboardInput v inp scanCode).1.modifiers (d.key scanCode) := by
  obtain ⟨hcaps, hshift, hctrl, halt⟩ := keyboardInput_flags scanCode v h.shift_zero
  refine ⟨?_, ?_, ?_, ?_⟩
  · rw [hshift]
    show _ = if isDown rShiftPressed rShiftReleased d.rShift scanCode = true ∨
      isDown lShiftPressed lShiftReleased d.lShift scanCode = true then 1 else 0
    by_cases hpress : scanCode = rShiftPressed ∨ scanCode = lShiftPressed
    · rw [if_pos hpress, if_pos]
      rcases hpress with hc | hc <;> subst hc
      · exact Or.inl rfl
      · exact Or.inr rfl
    rw [if_neg hpress]
    obtain ⟨hr, hl⟩ := not_or.mp hpress
    by_cases hrelease : scanCode = rShiftReleased ∨ scanCode = lShiftReleased
    · rw [if_pos hrelease, if_neg]
      rintro (hdown | hdown)
      · rcases hrelease with hc | hc <;> subst hc
        · cases hdown
        · exact hgood (Or.inr ⟨rfl, hdown⟩)
      · rcases hrelease with hc | hc <;> subst hc
        · exact hgood (Or.inl ⟨rfl, hdown⟩)
        · cases hdown
    · obtain ⟨hrR, hlR⟩ := not_or.mp hrelease
      rw [if_neg hrelease, isDown, if_neg hr, if_neg hrR, isDown, if_neg hl, if_neg hlR]
      exact h.shift
  · exact hctrl.trans (isDown_flag h.ctrl)
  · exact halt.trans (isDown_flag h.alt)
  · rw [hcaps]
    show _ = if (if scanCode = capsPressed then d.capsPresses + 1 else d.capsPresses) % 2 = 1
      then 255 else 0
    have hflag : inp.capsFlag = if d.capsPresses % 2 = 1 then 255 else 0 := h.caps
    by_cases hpress : scanCode = capsPressed
    · rw [if_pos hpress, if_pos hpress, hflag]
      by_cases hodd : d.capsPresses % 2 = 1
      · rw [if_pos hodd, if_neg (by omega)]
        decide
      · rw [if_neg hodd, if_pos (by omega)]
        decide
    · rw [if_neg hpress, if_neg hpress]
      exact hflag

/-! ## What the ten codes do to the line and the screen -/

section Text

variable (disk : Disk) (fr : Frame) {k : Kernel} {scanCode : UInt8}

/-- A key that calls nothing leaves the screen, and the line is what `keyboardInput` makes of it. -/
theorem quietKey (h : (keyboardInput k.visibleTerm k.input scanCode).2 = .nothing) :
    keyboardHandler disk fr scanCode k =
      { k with input := (keyboardInput k.visibleTerm k.input scanCode).1 } := by
  simp only [keyboardHandler, h, keyAction]

theorem sameText_of_quiet {inp' : Input}
    (h : keyboardInput k.visibleTerm k.input scanCode = (inp', .nothing))
    (hbuffer : inp'.termBuffer = k.input.termBuffer)
    (hindex : inp'.bufferIndex = k.input.bufferIndex) :
    SameText k (keyboardHandler disk fr scanCode k) := by
  have hquiet : (keyboardInput k.visibleTerm k.input scanCode).2 = .nothing := by rw [h]
  rw [quietKey disk fr hquiet, h]
  exact ⟨hbuffer, hindex, rfl⟩

theorem modifier_sameText (hmod : isModifier scanCode = true) :
    SameText k (keyboardHandler disk fr scanCode k) := by
  obtain ⟨c, s, t, a, hkey⟩ := keyboardInput_modifier k.visibleTerm k.input hmod
  exact sameText_of_quiet disk fr hkey rfl rfl

/-- Ctrl pressed types a NUL, or nothing. -/
theorem ctrl_sameText_iff :
    SameText k (keyboardHandler disk fr ctrlPressed k) ↔ ¬ CtrlTypes k.input ctrlPressed := by
  have hkey : keyboardInput k.visibleTerm k.input ctrlPressed = _ :=
    keyboardInput_rest k.visibleTerm (by decide)
  by_cases hchord : k.input.altFlag ≠ 0 ∧ k.input.fKeyPressed ≠ 0
  · rw [if_pos ⟨show (1 : UInt8) ≠ 0 by decide, hchord⟩] at hkey
    refine iff_of_true (sameText_of_quiet disk fr hkey rfl rfl) ?_
    rintro ⟨-, -, -, hnot⟩
    exact hnot hchord
  rw [if_neg fun h => hchord h.2] at hkey
  by_cases hroom : k.input.bufferIndex < bufferLimit
  · have hline : lineKey k.visibleTerm (pressModifier k.input ctrlPressed) ctrlPressed =
        typeKey { k.input with ctrlFlag := 1 } ctrlPressed := if_pos hroom
    rw [hline] at hkey
    by_cases hshift : k.input.shiftFlag = 1
    · -- 0 is what all three tables have for the code of Ctrl
      have htype : typeKey { k.input with ctrlFlag := 1 } ctrlPressed =
          (appendChar { k.input with ctrlFlag := 1, lineFlag := k.input.lineFlag + 1 } 0, .echo [0]) :=
        if_pos hshift
      rw [htype] at hkey
      refine iff_of_false ?_ (not_not.mpr ⟨rfl, hshift, hroom, hchord⟩)
      intro hsame
      obtain ⟨-, -, hinput⟩ := keyboardHandler_exact disk fr ctrlPressed k
      rw [hkey] at hinput
      have hindex := hsame.index
      rw [hinput] at hindex
      have hnext : k.input.bufferIndex + 1 = k.input.bufferIndex := hindex
      omega
    · have htype : typeKey { k.input with ctrlFlag := 1 } ctrlPressed =
          ({ k.input with ctrlFlag := 1, lineFlag := k.input.lineFlag + 1, shiftFlag := 0 },
            .nothing) := if_neg hshift
      rw [htype] at hkey
      refine iff_of_true (sameText_of_quiet disk fr hkey rfl rfl) ?_
      rintro ⟨-, hpressed, -⟩
      exact hshift hpressed
  · have hne : k.input.bufferIndex ≠ 0 := by
      intro hzero
      rw [hzero] at hroom
      exact hroom (by decide)
    have hline : lineKey k.visibleTerm (pressModifier k.input ctrlPressed) ctrlPressed =
        (clearIfEmpty { k.input with ctrlFlag := 1 }, .nothing) := if_neg hroom
    rw [hline, clearIfEmpty, if_neg hne] at hkey
    refine iff_of_true (sameText_of_quiet disk fr hkey rfl rfl) ?_
    rintro ⟨-, -, hlt, -⟩
    exact hroom hlt

/-- Caps Lock released clears the first place of an empty line. -/
theorem capsReleased_sameText_iff :
    SameText k (keyboardHandler disk fr capsReleased k) ↔ ¬ CapsErases k.input capsReleased := by
  have hkey : keyboardInput k.visibleTerm k.input capsReleased = _ :=
    keyboardInput_rest k.visibleTerm (by decide)
  by_cases hchord : k.input.modifiers.Chord
  · rw [if_pos (show (pressModifier k.input capsReleased).modifiers.Chord from hchord)] at hkey
    refine iff_of_true (sameText_of_quiet disk fr hkey rfl rfl) ?_
    rintro ⟨-, -, -, hidle⟩
    exact hidle hchord
  rw [if_neg (show ¬ (pressModifier k.input capsReleased).modifiers.Chord from hchord)] at hkey
  have hline : lineKey k.visibleTerm (pressModifier k.input capsReleased) capsReleased =
      (clearIfEmpty k.input, .nothing) := rfl
  rw [hline] at hkey
  by_cases hempty : k.input.bufferIndex = 0
  · rw [clearIfEmpty, if_pos hempty] at hkey
    by_cases hfirst : k.input.termBuffer 0 = 0
    · have hsame : Function.update k.input.termBuffer 0 0 = k.input.termBuffer := by
        rw [← hfirst, Function.update_eq_self]
      refine iff_of_true (sameText_of_quiet disk fr hkey hsame rfl) ?_
      rintro ⟨-, -, hchar, -⟩
      exact hchar hfirst
    · refine iff_of_false ?_ (not_not.mpr ⟨rfl, hempty, hfirst, hchord⟩)
      intro hsame
      obtain ⟨-, -, hinput⟩ := keyboardHandler_exact disk fr capsReleased k
      rw [hkey] at hinput
      have hbuffer := hsame.buffer
      rw [hinput] at hbuffer
      have hzero : Function.update k.input.termBuffer 0 0 0 = k.input.termBuffer 0 :=
        congrFun hbuffer 0
      rw [Function.update_self] at hzero
      exact hfirst hzero.symm
  · rw [clearIfEmpty, if_neg hempty] at hkey
    refine iff_of_true (sameText_of_quiet disk fr hkey rfl rfl) ?_
    rintro ⟨-, hzero, -⟩
    exact hempty hzero

/-- **Exactly when a modifier key leaves line and screen alone.** -/
theorem modifierKey_sameText_iff (hkey : isModifierKey scanCode = true) :
    SameText k (keyboardHandler disk fr scanCode k) ↔
      ¬ CtrlTypes k.input scanCode ∧ ¬ CapsErases k.input scanCode := by
  simp only [isModifierKey, Bool.or_eq_true, beq_iff_eq] at hkey
  rcases hkey with (hmod | hctrl) | hcaps
  · refine iff_of_true (modifier_sameText disk fr hmod) ⟨?_, ?_⟩
    · rintro ⟨hc, -⟩
      subst hc
      cases hmod
    · rintro ⟨hc, -⟩
      subst hc
      cases hmod
  · subst hctrl
    rw [ctrl_sameText_iff]
    refine (and_iff_left ?_).symm
    rintro ⟨hc, -⟩
    cases hc
  · subst hcaps
    rw [capsReleased_sameText_iff]
    refine (and_iff_right ?_).symm
    rintro ⟨hc, -⟩
    cases hc

end Text

/-! ## Steps and runs -/

/-- A switch of terminals carries the modifiers over. -/
theorem switched_modifiers (v : Fin 3) (inp : Input) (action : KeyAction) :
    (action.switched v inp).modifiers = inp.modifiers := by
  cases action with
  | switchTerminal n =>
    simp only [KeyAction.switched]
    split <;> rfl
  | nothing | echo | cleark | halt => rfl

theorem key_modifiers (disk : Disk) (fr : Frame) (scanCode : UInt8) (k : Kernel) :
    (keyboardHandler disk fr scanCode k).input.modifiers =
      (keyboardInput k.visibleTerm k.input scanCode).1.modifiers := by
  obtain ⟨-, -, hinput⟩ := keyboardHandler_exact disk fr scanCode k
  rw [hinput, switched_modifiers]

/-- Only keys change the modifiers. -/
theorem bufferNext_modifiers (disk : Disk) (k : Kernel) {e : BufferEvent}
    (hkey : ∀ scanCode fr, e ≠ .key scanCode fr) :
    (bufferNext disk k e).input.modifiers = k.input.modifiers := by
  cases e with
  | key scanCode fr => exact absurd rfl (hkey scanCode fr)
  | tick esp ebp fr =>
    obtain ⟨-, -, hinput⟩ := scheduler_input disk esp ebp fr k
    exact congrArg Input.modifiers hinput
  | switchTerminal n =>
    obtain ⟨-, -, hinput⟩ := switchTerminal_input n k
    exact (congrArg Input.modifiers hinput).trans
      (switched_modifiers k.visibleTerm k.input (.switchTerminal n))
  | read nbytes =>
    simp only [bufferNext]
    split
    · rfl
    · rename_i hread
      obtain ⟨-, -, rfl⟩ := terminalRead_eq_some hread
      rfl

/-- **The step lemma.** -/
theorem FlagsInv.next (disk : Disk) {r : KeyRun} {e : BufferEvent}
    (h : FlagsInv r.kernel.input.modifiers r.down) (hgood : sparesModifiers r e) :
    FlagsInv (bufferNext disk r.kernel e).input.modifiers (r.down.after e) := by
  cases e with
  | key scanCode fr =>
    show FlagsInv (keyboardHandler disk fr scanCode r.kernel).input.modifiers _
    rw [key_modifiers]
    exact h.key r.kernel.visibleTerm hgood.1
  | tick | switchTerminal | read =>
    rw [bufferNext_modifiers disk r.kernel (by rintro _ _ ⟨⟩)]
    exact h

/-- The release of one Shift while the other is down leaves `shift_flag` at 0. -/
theorem not_flagsRight_of_release (disk : Disk) (fr : Frame) {r : KeyRun} {scanCode : UInt8}
    (hrelease : ReleasesOneShift r.down scanCode) :
    ¬ FlagsRight (keyboardHandler disk fr scanCode r.kernel).input.modifiers (r.down.key scanCode) := by
  intro hright
  have hflag : (keyboardHandler disk fr scanCode r.kernel).input.modifiers.shift = 0 := by
    rw [key_modifiers]
    rcases hrelease with ⟨hc, -⟩ | ⟨hc, -⟩ <;> subst hc <;> rfl
  have hdown : (r.down.key scanCode).rShift = true ∨ (r.down.key scanCode).lShift = true := by
    rcases hrelease with ⟨hc, hother⟩ | ⟨hc, hother⟩
    · subst hc
      exact Or.inr hother
    · subst hc
      exact Or.inl hother
  have hone := hright.shift.mpr hdown
  rw [hflag] at hone
  cases hone

/-- A step out of a state whose flags are right. -/
theorem modifiersRight_step_iff (disk : Disk) {r : KeyRun} (e : BufferEvent)
    (h : FlagsInv r.kernel.input.modifiers r.down) :
    ModifiersRight disk r e ↔ sparesModifiers r e := by
  constructor
  · rintro ⟨hflags, htext⟩
    cases e with
    | key scanCode fr =>
      refine ⟨fun hrelease => not_flagsRight_of_release disk fr hrelease hflags, ?_⟩
      by_cases hkey : isModifierKey scanCode = true
      · exact (modifierKey_sameText_iff disk fr hkey).mp (htext scanCode fr rfl hkey)
      · refine ⟨?_, ?_⟩
        · rintro ⟨hc, -⟩
          subst hc
          exact hkey rfl
        · rintro ⟨hc, -⟩
          subst hc
          exact hkey rfl
    | tick | switchTerminal | read => trivial
  · intro hgood
    refine ⟨(h.next disk hgood).right, ?_⟩
    rintro scanCode fr rfl hkey
    exact (modifierKey_sameText_iff disk fr hkey).mpr hgood.2

theorem boot_flagsInv (disk : Disk) (pw : PowerOn) (fr : Frame) :
    FlagsInv (boot disk pw fr).1.input.modifiers KeysDown.none := by
  obtain ⟨-, -, hinput⟩ := boot_input disk pw fr
  rw [hinput]
  exact ⟨rfl, rfl, rfl, rfl⟩

/-- **The modifier keys**: in a run from boot, with any scan codes, ticks, terminal switches and reads
    that store nothing behind the buffer, the four flags say after every event which keys are down,
    and the modifier keys change neither the line nor the screen, exactly when no Shift key is
    released while the other one is down, Ctrl is not pressed with Shift held and room in the buffer
    (unless that completes a chord), and Caps Lock is not released on an empty line in front of a
    character. -/
theorem modifiers_right_iff (disk : Disk) (pw : PowerOn) (fr : Frame) (events : List BufferEvent)
    (hfits : Along (bufferStep disk) FitsBuffer (boot disk pw fr).1 events) :
    Along (keyStep disk) (ModifiersRight disk) (startKeys (boot disk pw fr).1) events ↔
      Along (keyStep disk) sparesModifiers (startKeys (boot disk pw fr).1) events := by
  let inv : KeyRun → Prop := fun r => FlagsInv r.kernel.input.modifiers r.down
  have hboot : inv (startKeys (boot disk pw fr).1) := boot_flagsInv disk pw fr
  refine along_iff_along ?_ ?_ hboot
  · intro r e r' hinv hgood hs
    obtain rfl := Option.some.inj hs
    exact hinv.next disk hgood
  · intro r e r' hinv _
    exact modifiersRight_step_iff disk e hinv

/-- Shift and `a`, Enter, a read, and Caps Lock. -/
theorem capital_letter_typed :
    Along (keyStep smallDisk) (ModifiersRight smallDisk)
      (startKeys (boot smallDisk blankMemory blankFrame).1)
      [.key 0x2A blankFrame, .key 0x1E blankFrame, .key 0xAA blankFrame, .key 0x1C blankFrame, .read 128,
        .key 0x9C blankFrame, .key 0x3A blankFrame, .key 0xBA blankFrame] :=
  (modifiers_right_iff smallDisk blankMemory blankFrame _ (by decide +kernel)).mpr (by decide +kernel)

/-- Both Shift keys pressed, and the right one released. -/
theorem other_shift_still_down :
    ¬ Along (keyStep smallDisk) (ModifiersRight smallDisk)
      (startKeys (boot smallDisk blankMemory blankFrame).1)
      [.key 0x2A blankFrame, .key 0x36 blankFrame, .key 0xAA blankFrame] := by
  intro h
  obtain ⟨hright, -⟩ := (((h _ rfl).2 _ rfl).2 _ rfl).1
  have hone := hright.shift.mpr (Or.inr rfl)
  exact absurd hone (by decide +kernel)

end ByteVerse
