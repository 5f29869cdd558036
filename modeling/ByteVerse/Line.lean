/-
  What one key does to the line of the visible terminal.

  Of the globals of `keyboard.c` three make up the line that is being typed: `term_buffer`,
  `buffer_index` and `enter_pressed[visible_term]` (`LineState`).  `keyEffect` says which of eight
  things a scan code does to them, from the modifier flags and `buffer_index` alone, and
  `keyboardInput_line` that the handler does just that, with one exception: `line_flag` counts the
  typed characters in eight bits, and where it has wrapped to 0 the handler refuses the key
  (`lineFlagWraps`).
-/
import ByteVerse.Keyboard

set_option linter.unusedVariables false

namespace ByteVerse

/-! ## The line, and the flags that decide what a key does to it -/

structure LineState where
  buffer : Int → UInt8
  index : Int
  /-- `enter_pressed` of the terminal. -/
  enter : UInt8

def Input.lineState (v : Fin 3) (inp : Input) : LineState :=
  { buffer := inp.termBuffer, index := inp.bufferIndex, enter := inp.enterPressed v }

/-- `term_buffer[0 .. n)`. -/
def bufferText (buf : Int → UInt8) (n : Int) : List UInt8 :=
  (List.range n.toNat).map fun i => buf (i : Nat)

/-- `term_buffer[0 .. buffer_index)`. -/
def Input.held (inp : Input) : List UInt8 := bufferText inp.termBuffer inp.bufferIndex

theorem length_bufferText (buf : Int → UInt8) (n : Int) : (bufferText buf n).length = n.toNat := by
  rw [bufferText, List.length_map, List.length_range]

theorem getElem_bufferText {buf : Int → UInt8} {n : Int} {i : Nat}
    (h : i < (bufferText buf n).length) : (bufferText buf n)[i] = buf i := by
  simp only [bufferText, List.getElem_map, List.getElem_range]

structure Modifiers where
  caps : UInt8
  shift : UInt8
  ctrl : UInt8
  alt : UInt8
  tab : UInt8
  fKey : UInt8
  deriving DecidableEq

@[reducible] def Input.modifiers (inp : Input) : Modifiers :=
  { caps := inp.capsFlag, shift := inp.shiftFlag, ctrl := inp.ctrlFlag, alt := inp.altFlag
    tab := inp.tabFlag, fKey := inp.fKeyPressed }

/-! ## Effects -/

inductive LineEffect
  | keep
  /-- The handler reaches its last statement: an empty line has its terminator stored again. -/
  | clear
  | append (c : UInt8)
  | spaces
  | erase
  /-- Enter pressed. -/
  | newline
  /-- Enter released. -/
  | release
  /-- Ctrl+L; it reaches the last statement when the buffer is full. -/
  | restart (atEnd : Bool)
  deriving DecidableEq

def LineEffect.apply (l : LineState) : LineEffect → LineState
  | .keep => l
  | .clear => if l.index = 0 then { l with buffer := Function.update l.buffer 0 0 } else l
  | .append c =>
    let buf := Function.update l.buffer l.index c
    let idx := l.index + 1
    { l with buffer := if idx < bufferLimit then Function.update buf idx 0 else buf, index := idx }
  | .spaces =>
    let i := l.index
    let buf := Function.update (Function.update (Function.update (Function.update l.buffer
      i 32) (i + 1) 32) (i + 2) 32) (i + 3) 32
    { l with buffer := Function.update buf (i + tabSize) 0, index := i + tabSize }
  | .erase => { l with buffer := Function.update l.buffer (l.index - 1) 0, index := l.index - 1 }
  | .newline => { buffer := Function.update l.buffer l.index 10, index := 0, enter := 1 }
  | .release => { l with enter := 0 }
  | .restart atEnd =>
    { l with buffer := if atEnd then Function.update l.buffer 0 0 else l.buffer, index := 0 }

/-- There is room in the buffer for the effect. -/
def LineEffect.Fits (index : Int) : LineEffect → Prop
  | .append _ => index < bufferLimit
  | .spaces => index + tabSize < bufferLimit
  | .erase => 0 < index
  | _ => True

/-- The character that a key types. -/
def charOf (m : Modifiers) (scanCode : UInt8) : UInt8 :=
  if m.shift = 1 then
    if isLetter scanCode then
      if ~~~m.caps = 0 then scanToAscii scanCode else scanToAsciiCaps scanCode
    else scanToAsciiShift scanCode
  else if m.caps = 0 then scanToAscii scanCode
  else scanToAsciiCaps scanCode

/-- Not a full buffer. -/
def typeEffect (m : Modifiers) (index : Int) (scanCode : UInt8) : LineEffect :=
  if m.shift = 1 then
    if scanCode = backspacePress then .keep else .append (charOf m scanCode)
  else if m.ctrl = 1 then
    if scanCode = lKeyPress then .restart false else .keep
  else if scanCode = backspacePress then
    if index > 0 then .erase else if m.caps = 0 then .clear else .keep
  else .append (charOf m scanCode)

/-- A full buffer. -/
def fullEffect (m : Modifiers) (scanCode : UInt8) : LineEffect :=
  if scanCode = backspacePress then .erase
  else if m.ctrl = 1 then
    if scanCode = lKeyPress then .restart true
    else if scanCode = cKeyPress then .keep
    else .clear
  else .clear

/-- The keys of the handler's `switch` that set or clear a flag and return. -/
def isModifier (scanCode : UInt8) : Bool :=
  scanCode == capsPressed || scanCode == ctrlReleased || scanCode == rShiftPressed ||
    scanCode == lShiftPressed || scanCode == rShiftReleased || scanCode == lShiftReleased ||
    scanCode == leftAltPressed || scanCode == leftAltReleased

def pressed (m : Modifiers) (scanCode : UInt8) : Modifiers :=
  if scanCode = ctrlPressed then { m with ctrl := 1 }
  else if scanCode = f1P ∨ scanCode = f2P ∨ scanCode = f3P then { m with fKey := 1 }
  else m

def lineEffect (m : Modifiers) (index : Int) (scanCode : UInt8) : LineEffect :=
  if isIgnored scanCode then .keep
  else if scanCode = tabPressed then
    if m.tab = 0 ∧ index + tabSize < bufferLimit then .spaces else .keep
  else if scanCode = tabReleased then .keep
  else if scanCode = enterPressedCode then .newline
  else if scanCode = enterReleasedCode then .release
  else if scanCode < charLimit then
    if index < bufferLimit then typeEffect m index scanCode else fullEffect m scanCode
  else .clear

/-- Ctrl, Alt and a function key: the next key that is no modifier is swallowed. -/
def Modifiers.Chord (m : Modifiers) : Prop := m.ctrl ≠ 0 ∧ m.alt ≠ 0 ∧ m.fKey ≠ 0

instance (m : Modifiers) : Decidable m.Chord := inferInstanceAs (Decidable (_ ∧ _))

/-- What a scan code does to the line. -/
def keyEffect (m : Modifiers) (index : Int) (scanCode : UInt8) : LineEffect :=
  if isModifier scanCode then .keep
  else
    let m := pressed m scanCode
    if m.ctrl ≠ 0 ∧ m.alt ≠ 0 ∧ m.fKey ≠ 0 then .keep else lineEffect m index scanCode

/-- The handler comes to a test of `line_flag`, and incrementing it has made it 0. -/
def lineFlagWraps (inp : Input) (scanCode : UInt8) : Prop :=
  inp.lineFlag = 255 ∧ inp.bufferIndex < bufferLimit ∧ scanCode < charLimit ∧
    scanCode ≠ tabPressed ∧ scanCode ≠ enterPressedCode ∧ scanCode ≠ ctrlPressed ∧
    isModifier scanCode = false ∧ isIgnored scanCode = false ∧
    inp.shiftFlag ≠ 1 ∧ inp.ctrlFlag ≠ 1 ∧
    (inp.capsFlag ≠ 0 ∨ scanCode = backspacePress ∧ 0 < inp.bufferIndex)

instance (inp : Input) (scanCode : UInt8) : Decidable (lineFlagWraps inp scanCode) :=
  inferInstanceAs (Decidable (_ ∧ _))

/-- What a scan code does to the line, the wrapped count included. -/
def handlerEffect (inp : Input) (scanCode : UInt8) : LineEffect :=
  if lineFlagWraps inp scanCode ∧ ¬ inp.modifiers.Chord then .clear
  else keyEffect inp.modifiers inp.bufferIndex scanCode

/-! ## The handler by cases -/

section Cases

variable (v : Fin 3) {inp : Input} {scanCode : UInt8}

theorem pressed_modifiers (inp : Input) (scanCode : UInt8) :
    (pressModifier inp scanCode).modifiers = pressed inp.modifiers scanCode := by
  unfold pressModifier pressed
  split
  · rfl
  · split <;> rfl

theorem pressModifier_same (inp : Input) (scanCode : UInt8) :
    ∃ c f, pressModifier inp scanCode = { inp with ctrlFlag := c, fKeyPressed := f } ∧
      (c = if scanCode = ctrlPressed then 1 else inp.ctrlFlag) ∧
      (scanCode ≠ ctrlPressed → isIgnored scanCode = false → f = inp.fKeyPressed) := by
  unfold pressModifier
  split
  · rename_i hctrl
    exact ⟨1, inp.fKeyPressed, rfl, rfl, fun hne _ => absurd hctrl hne⟩
  · split
    · rename_i hkey
      refine ⟨inp.ctrlFlag, 1, rfl, rfl, fun _ hignored => ?_⟩
      rcases hkey with rfl | rfl | rfl <;> cases hignored
    · exact ⟨inp.ctrlFlag, inp.fKeyPressed, rfl, rfl, fun _ _ => rfl⟩

theorem isModifier_iff :
    isModifier scanCode = true ↔ scanCode = capsPressed ∨ scanCode = ctrlReleased ∨
      (scanCode = rShiftPressed ∨ scanCode = lShiftPressed) ∨
      (scanCode = rShiftReleased ∨ scanCode = lShiftReleased) ∨
      scanCode = leftAltPressed ∨ scanCode = leftAltReleased := by
  simp only [isModifier, Bool.or_eq_true, beq_iff_eq, or_assoc]

/-- What a swallowed key asks for. -/
def chordAction (scanCode : UInt8) : KeyAction :=
  if scanCode = f1P then .switchTerminal 0
  else if scanCode = f2P then .switchTerminal 1
  else if scanCode = f3P then .switchTerminal 2
  else .nothing

/-- A key that sets or clears a flag. -/
theorem keyboardInput_modifier (inp : Input) (hmod : isModifier scanCode = true) :
    ∃ c s t a, keyboardInput v inp scanCode =
      ({ inp with capsFlag := c, shiftFlag := s, ctrlFlag := t, altFlag := a }, .nothing) := by
  rcases isModifier_iff.mp hmod with h | h | (h | h) | (h | h) | h | h <;> subst h <;>
    exact ⟨_, _, _, _, rfl⟩

/-- Any other key. -/
theorem keyboardInput_rest (hmod : isModifier scanCode ≠ true) :
    keyboardInput v inp scanCode =
      if (pressModifier inp scanCode).modifiers.Chord then
        ({ pressModifier inp scanCode with fKeyPressed := 0 }, chordAction scanCode)
      else lineKey v (pressModifier inp scanCode) scanCode := by
  have hnot := mt isModifier_iff.mpr hmod
  simp only [not_or] at hnot
  obtain ⟨hcaps, hctrlR, hshift, hshiftR, halt, haltR⟩ := hnot
  unfold keyboardInput
  rw [if_neg hcaps, if_neg hctrlR, if_neg (not_or.mpr hshift), if_neg (not_or.mpr hshiftR),
    if_neg halt, if_neg haltR]
  refine if_congr Iff.rfl ?_ rfl
  unfold chordAction
  split
  · rfl
  split
  · rfl
  split <;> rfl

theorem keyEffect_rest (m : Modifiers) (index : Int) (hmod : isModifier scanCode ≠ true) :
    keyEffect m index scanCode =
      if (pressed m scanCode).Chord then .keep else lineEffect (pressed m scanCode) index scanCode :=
  if_neg hmod

end Cases

/-! ## The handler has these effects -/

section Effects

variable (v : Fin 3) {inp : Input} {scanCode : UInt8}

theorem clearIfEmpty_line (inp : Input) :
    (clearIfEmpty inp).lineState v = LineEffect.clear.apply (inp.lineState v) := by
  unfold clearIfEmpty LineEffect.apply
  show (if inp.bufferIndex = 0 then _ else inp).lineState v =
    if inp.bufferIndex = 0 then _ else inp.lineState v
  split <;> rfl

/-- After a typed character the line is not empty. -/
theorem clearIfEmpty_appendChar (inp : Input) (hlow : 0 ≤ inp.bufferIndex) (c : UInt8) :
    clearIfEmpty (appendChar inp c) = appendChar inp c := by
  have hne : (appendChar inp c).bufferIndex ≠ 0 := by
    show inp.bufferIndex + 1 ≠ 0
    omega
  exact if_neg hne

/-- The terminator that `clearIfEmpty` stores is already there after an erase. -/
theorem clearIfEmpty_eraseChar (inp : Input) : clearIfEmpty (eraseChar inp) = eraseChar inp := by
  unfold clearIfEmpty eraseChar
  simp only
  split
  · rename_i h
    rw [h, Function.update_idem]
  · rfl

theorem typeKey_line (hlow : 0 ≤ inp.bufferIndex) (hcaps : scanCode ≠ capsPressed)
    (hflag : inp.shiftFlag ≠ 1 → inp.ctrlFlag ≠ 1 →
      inp.capsFlag ≠ 0 ∨ scanCode = backspacePress ∧ 0 < inp.bufferIndex →
      inp.lineFlag + 1 > 0) :
    (typeKey inp scanCode).1.lineState v =
      (typeEffect inp.modifiers inp.bufferIndex scanCode).apply (inp.lineState v) := by
  unfold typeKey typeEffect charOf
  simp only
  by_cases hshift : inp.shiftFlag = 1
  · rw [if_pos hshift, if_pos hshift]
    by_cases hback : scanCode = backspacePress
    · rw [if_pos hback, if_pos hback]
      rfl
    · rw [if_neg hback, if_neg hback, if_pos hshift]
      split <;> rfl
  rw [if_neg hshift, if_neg hshift]
  by_cases hctrl : inp.ctrlFlag = 1
  · rw [if_pos hctrl, if_pos hctrl]
    split
    · rfl
    · split <;> rfl
  rw [if_neg hctrl, if_neg hctrl]
  have hcounted := hflag hshift hctrl
  by_cases hback : scanCode = backspacePress
  · rw [if_neg fun h => h.2 hback]
    by_cases hcapsFlag : inp.capsFlag = 0
    · rw [if_neg fun h => h.1 hcapsFlag]
      by_cases hidx : inp.bufferIndex > 0
      · rw [if_pos ⟨hback, hcounted (Or.inr ⟨hback, hidx⟩), hidx⟩, clearIfEmpty_eraseChar,
          if_pos hback, if_pos hidx]
        rfl
      · rw [if_neg fun h => hidx h.2.2, if_pos hback, if_neg hidx, if_pos hcapsFlag]
        exact clearIfEmpty_line v _
    · rw [if_pos ⟨hcapsFlag, hcaps, hcounted (Or.inl hcapsFlag)⟩, if_pos hback, if_pos hback,
        if_neg hcapsFlag]
      split <;> rfl
  · have hnonempty : ∀ c, clearIfEmpty (appendChar { inp with lineFlag := inp.lineFlag + 1 } c) =
        appendChar { inp with lineFlag := inp.lineFlag + 1 } c :=
      clearIfEmpty_appendChar { inp with lineFlag := inp.lineFlag + 1 } hlow
    by_cases hcapsFlag : inp.capsFlag = 0
    · rw [if_pos ⟨hcapsFlag, hback⟩, hnonempty, if_neg hback, if_neg hshift,
        if_pos hcapsFlag]
      rfl
    · rw [if_neg fun h => hcapsFlag h.1,
        if_pos ⟨hcapsFlag, hcaps, hcounted (Or.inl hcapsFlag)⟩, if_neg hback, if_neg hback,
        hnonempty, if_neg hshift, if_neg hcapsFlag]
      rfl

theorem fullKey_line (hfull : inp.bufferIndex = bufferLimit) :
    (fullKey inp scanCode).1.lineState v =
      (fullEffect inp.modifiers scanCode).apply (inp.lineState v) := by
  unfold fullKey fullEffect
  simp only
  by_cases hback : scanCode = backspacePress
  · have hroom : inp.bufferIndex - 1 < bufferLimit := by omega
    rw [if_pos hback, if_pos hback, if_pos hroom]
    show (clearIfEmpty (eraseChar inp)).lineState v = _
    rw [clearIfEmpty_eraseChar]
    rfl
  rw [if_neg hback, if_neg hback]
  split
  · split
    · exact clearIfEmpty_line v _
    · split
      · rfl
      · exact clearIfEmpty_line v _
  · exact clearIfEmpty_line v _

theorem tabKey_line :
    (tabKey inp).1.lineState v =
      LineEffect.apply (inp.lineState v)
        (if inp.tabFlag = 0 ∧ inp.bufferIndex + tabSize < bufferLimit then .spaces else .keep) := by
  unfold tabKey
  by_cases htab : inp.tabFlag = 0
  · rw [if_pos htab]
    by_cases hroom : inp.bufferIndex + tabSize < bufferLimit
    · simp only [if_pos hroom, if_pos (And.intro htab hroom)]
      rfl
    · simp only [if_neg hroom, if_neg fun h : inp.tabFlag = 0 ∧ _ => hroom h.2]
      rfl
  · rw [if_neg htab, if_neg fun h => htab h.1]
    rfl

theorem enterKey_line :
    (enterKey v inp).1.lineState v = LineEffect.newline.apply (inp.lineState v) := by
  show LineState.mk _ _ (Function.update inp.enterPressed v 1 v) = _
  rw [Function.update_self]
  rfl

theorem lineKey_line (hlow : 0 ≤ inp.bufferIndex) (hhigh : inp.bufferIndex ≤ bufferLimit)
    (hcaps : scanCode ≠ capsPressed)
    (hflag : scanCode < charLimit → scanCode ≠ tabPressed → scanCode ≠ enterPressedCode →
      isIgnored scanCode = false → inp.bufferIndex < bufferLimit →
      inp.shiftFlag ≠ 1 → inp.ctrlFlag ≠ 1 →
      inp.capsFlag ≠ 0 ∨ scanCode = backspacePress ∧ 0 < inp.bufferIndex →
      inp.lineFlag + 1 > 0) :
    (lineKey v inp scanCode).1.lineState v =
      (lineEffect inp.modifiers inp.bufferIndex scanCode).apply (inp.lineState v) := by
  unfold lineKey lineEffect
  by_cases hignored : isIgnored scanCode = true
  · rw [if_pos hignored, if_pos hignored]
    rfl
  rw [if_neg hignored, if_neg hignored]
  by_cases htab : scanCode = tabPressed
  · rw [if_pos htab, if_pos htab]
    exact tabKey_line v
  rw [if_neg htab, if_neg htab]
  by_cases htabR : scanCode = tabReleased
  · rw [if_pos htabR, if_pos htabR]
    rfl
  rw [if_neg htabR, if_neg htabR]
  by_cases henter : scanCode = enterPressedCode
  · rw [if_pos henter, if_pos henter]
    exact enterKey_line v
  rw [if_neg henter, if_neg henter]
  by_cases henterR : scanCode = enterReleasedCode
  · rw [if_pos henterR, if_pos henterR]
    show LineState.mk _ _ (Function.update inp.enterPressed v 0 v) = _
    rw [Function.update_self]
    rfl
  rw [if_neg henterR, if_neg henterR]
  by_cases hchar : scanCode < charLimit
  · rw [if_pos hchar, if_pos hchar]
    by_cases hroom : inp.bufferIndex < bufferLimit
    · rw [if_pos hroom, if_pos hroom]
      exact typeKey_line v hlow hcaps
        (hflag hchar htab henter (Bool.eq_false_iff.mpr hignored) hroom)
    · rw [if_neg hroom, if_neg hroom]
      exact fullKey_line v (Int.le_antisymm hhigh (Int.not_lt.mp hroom))
  · rw [if_neg hchar, if_neg hchar]
    exact clearIfEmpty_line v inp

theorem lineFlag_counts {n : UInt8} (h : n ≠ 255) : n + 1 > 0 := by
  have hn : n.toNat ≠ 255 := fun heq => h (UInt8.toNat_inj.mp heq)
  have hlt := n.toNat_lt
  show (0 : UInt8).toNat < (n + 1).toNat
  rw [UInt8.toNat_add]
  show 0 < (n.toNat + 1) % 256
  omega

/-- Where the count has wrapped, the handler falls through to its last statement. -/
theorem typeKey_wrapped (hfull : inp.lineFlag = 255) (hshift : inp.shiftFlag ≠ 1)
    (hctrl : inp.ctrlFlag ≠ 1) (hconsult : inp.capsFlag ≠ 0 ∨ scanCode = backspacePress) :
    typeKey inp scanCode = (clearIfEmpty { inp with lineFlag := 0 }, .nothing) := by
  have hzero : inp.lineFlag + 1 = 0 := by
    rw [hfull]
    rfl
  have hnone : ¬ (0 : UInt8) > 0 := by decide
  have hcaps : ¬ (inp.capsFlag = 0 ∧ scanCode ≠ backspacePress) := by
    rintro ⟨hoff, hkey⟩
    exact hconsult.elim (fun h => h hoff) hkey
  unfold typeKey
  simp only [hzero]
  rw [if_neg hshift, if_neg hctrl, if_neg hcaps, if_neg fun h => hnone h.2.2,
    if_neg fun h => hnone h.2.1]

theorem keyboardInput_wrapped (hwrap : lineFlagWraps inp scanCode) (hidle : ¬ inp.modifiers.Chord) :
    keyboardInput v inp scanCode = (clearIfEmpty { inp with lineFlag := 0 }, .nothing) := by
  obtain ⟨hfull, hroom, hchar, htab, henter, hctrlP, hmod, hignored, hshift, hctrl, hconsult⟩ := hwrap
  have htabR : scanCode ≠ tabReleased := fun h => absurd (h ▸ hchar) (by decide)
  have henterR : scanCode ≠ enterReleasedCode := fun h => absurd (h ▸ hchar) (by decide)
  have hkeys : ¬ (scanCode = f1P ∨ scanCode = f2P ∨ scanCode = f3P) := by
    rintro (rfl | rfl | rfl) <;> cases hignored
  have hpress : pressModifier inp scanCode = inp := by
    rw [pressModifier, if_neg hctrlP, if_neg hkeys]
  rw [keyboardInput_rest v (Bool.eq_false_iff.mp hmod), hpress, if_neg hidle, lineKey,
    if_neg (Bool.eq_false_iff.mp hignored), if_neg htab, if_neg htabR, if_neg henter, if_neg henterR,
    if_pos hchar, if_pos hroom]
  exact typeKey_wrapped hfull hshift hctrl (hconsult.imp_right And.left)

/-- **What the handler does to the line**, with an index in the buffer. -/
theorem keyboardInput_effect (hlow : 0 ≤ inp.bufferIndex) (hhigh : inp.bufferIndex ≤ bufferLimit) :
    (keyboardInput v inp scanCode).1.lineState v =
      (handlerEffect inp scanCode).apply (inp.lineState v) := by
  by_cases hwrap : lineFlagWraps inp scanCode ∧ ¬ inp.modifiers.Chord
  · rw [handlerEffect, if_pos hwrap, keyboardInput_wrapped v hwrap.1 hwrap.2]
    exact clearIfEmpty_line v _
  rw [handlerEffect, if_neg hwrap]
  by_cases hmod : isModifier scanCode = true
  · obtain ⟨c, s, t, a, hkey⟩ := keyboardInput_modifier v inp hmod
    rw [keyEffect, if_pos hmod, hkey]
    rfl
  obtain ⟨c, f, hpress, hc, hf⟩ := pressModifier_same inp scanCode
  rw [keyboardInput_rest v hmod, keyEffect_rest _ _ hmod, ← pressed_modifiers, hpress]
  by_cases hchord : Modifiers.Chord (Input.modifiers { inp with ctrlFlag := c, fKeyPressed := f })
  · rw [if_pos hchord, if_pos hchord]
    rfl
  · rw [if_neg hchord, if_neg hchord]
    have hcaps : scanCode ≠ capsPressed := fun h => hmod (isModifier_iff.mpr (Or.inl h))
    refine lineKey_line v hlow hhigh hcaps fun hchar htab henter hignored hroom hs hctrl hconsult => ?_
    have hctrlP : scanCode ≠ ctrlPressed := fun heq => hctrl (hc.trans (if_pos heq))
    have hsame : c = inp.ctrlFlag ∧ f = inp.fKeyPressed := ⟨hc.trans (if_neg hctrlP), hf hctrlP hignored⟩
    have hctrl' : inp.ctrlFlag ≠ 1 := fun heq => hctrl (hsame.1.trans heq)
    have hidle : ¬ inp.modifiers.Chord := by
      rintro ⟨h1, h2, h3⟩
      exact hchord ⟨hsame.1 ▸ h1, h2, hsame.2 ▸ h3⟩
    exact lineFlag_counts fun hfull => hwrap ⟨⟨hfull, hroom, hchar, htab, henter, hctrlP,
      Bool.eq_false_iff.mpr hmod, hignored, hs, hctrl', hconsult⟩, hidle⟩

/-- What it does when the count does not wrap. -/
theorem keyboardInput_line (hlow : 0 ≤ inp.bufferIndex) (hhigh : inp.bufferIndex ≤ bufferLimit)
    (hwrap : ¬ lineFlagWraps inp scanCode) :
    (keyboardInput v inp scanCode).1.lineState v =
      (keyEffect inp.modifiers inp.bufferIndex scanCode).apply (inp.lineState v) := by
  rw [keyboardInput_effect v hlow hhigh, handlerEffect, if_neg fun h => hwrap h.1]

end Effects

theorem keyEffect_fits (m : Modifiers) {index : Int} (hlow : 0 ≤ index) (scanCode : UInt8) :
    (keyEffect m index scanCode).Fits index := by
  have hline : ∀ m, (lineEffect m index scanCode).Fits index := by
    intro m
    unfold lineEffect
    split
    · trivial
    split
    · split
      · rename_i h
        exact h.2
      · trivial
    split
    · trivial
    split
    · trivial
    split
    · trivial
    split
    · split
      · rename_i hroom
        unfold typeEffect
        split
        · split
          · trivial
          · exact hroom
        split
        · split <;> trivial
        split
        · split
          · assumption
          · split <;> trivial
        · exact hroom
      · rename_i hfull
        unfold fullEffect
        split
        · show 0 < index
          simp only [bufferLimit] at hfull
          omega
        split
        · split
          · trivial
          · split <;> trivial
        · trivial
    · trivial
  unfold keyEffect
  split
  · trivial
  · simp only
    split
    · trivial
    · exact hline _

theorem handlerEffect_fits {inp : Input} (hlow : 0 ≤ inp.bufferIndex) (scanCode : UInt8) :
    (handlerEffect inp scanCode).Fits inp.bufferIndex := by
  unfold handlerEffect
  split
  · trivial
  · exact keyEffect_fits _ hlow scanCode

/-- The index stays in the buffer. -/
theorem apply_index {eff : LineEffect} {l : LineState} (hfits : eff.Fits l.index)
    (hlow : 0 ≤ l.index) (hhigh : l.index ≤ bufferLimit) :
    0 ≤ (eff.apply l).index ∧ (eff.apply l).index ≤ bufferLimit := by
  cases eff with
  | keep | release => exact ⟨hlow, hhigh⟩
  | clear =>
    simp only [LineEffect.apply]
    split <;> exact ⟨hlow, hhigh⟩
  | newline | restart => exact ⟨Int.le_refl 0, (show (0 : Int) ≤ 128 by omega)⟩
  | append c =>
    have hroom : l.index < 128 := hfits
    show 0 ≤ l.index + 1 ∧ l.index + 1 ≤ 128
    omega
  | spaces =>
    have hroom : l.index + 4 < 128 := hfits
    show 0 ≤ l.index + 4 ∧ l.index + 4 ≤ 128
    omega
  | erase =>
    have hne : 0 < l.index := hfits
    have hle : l.index ≤ 128 := hhigh
    show 0 ≤ l.index - 1 ∧ l.index - 1 ≤ 128
    omega

/-- No scan code takes `buffer_index` out of the buffer. -/
theorem keyboardInput_index (v : Fin 3) {inp : Input} (hlow : 0 ≤ inp.bufferIndex)
    (hhigh : inp.bufferIndex ≤ bufferLimit) (scanCode : UInt8) :
    0 ≤ (keyboardInput v inp scanCode).1.bufferIndex ∧
      (keyboardInput v inp scanCode).1.bufferIndex ≤ bufferLimit := by
  have hindex := apply_index (l := inp.lineState v) (handlerEffect_fits hlow scanCode) hlow hhigh
  rwa [← keyboardInput_effect v hlow hhigh] at hindex

/-! ## Two lines alike -/

/-- The same line: the buffer proper, the index and the Enter flag. -/
structure LineState.Same (l l' : LineState) : Prop where
  buffer : ∀ i, 0 ≤ i → i < bufferLimit → l.buffer i = l'.buffer i
  index : l.index = l'.index
  enter : l.enter = l'.enter

theorem LineState.Same.refl (l : LineState) : l.Same l := ⟨fun _ _ _ => rfl, rfl, rfl⟩

/-- The same line, with the index in the buffer. -/
structure LineState.Agree (l l' : LineState) : Prop extends l.Same l' where
  low : 0 ≤ l.index
  high : l.index ≤ bufferLimit

theorem LineState.Agree.congr {l l' m m' : LineState} (h : l.Agree l') (hm : m.Same l)
    (hm' : m'.Same l') : m.Agree m' where
  buffer i h0 h1 := (hm.buffer i h0 h1).trans ((h.buffer i h0 h1).trans (hm'.buffer i h0 h1).symm)
  index := hm.index.trans (h.index.trans hm'.index.symm)
  enter := hm.enter.trans (h.enter.trans hm'.enter.symm)
  low := hm.index ▸ h.low
  high := hm.index ▸ h.high

theorem LineState.Agree.of_same {l l' m : LineState} (h : l.Agree l') (hm : m.Same l) :
    m.Agree l' := h.congr hm (LineState.Same.refl l')

theorem update_agree {buf buf' : Int → UInt8}
    (h : ∀ i, 0 ≤ i → i < bufferLimit → buf i = buf' i) (j : Int) (c : UInt8) :
    ∀ i, 0 ≤ i → i < bufferLimit → Function.update buf j c i = Function.update buf' j c i := by
  intro i h0 h1
  by_cases hij : i = j
  · rw [hij, Function.update_self, Function.update_self]
  · rw [Function.update_of_ne hij, Function.update_of_ne hij]
    exact h i h0 h1

/-- A key that does the same to both keeps them alike. -/
theorem LineState.Agree.apply {l l' : LineState} (h : l.Agree l') {eff : LineEffect}
    (hfits : eff.Fits l.index) : (eff.apply l).Agree (eff.apply l') := by
  obtain ⟨hlow, hhigh⟩ := apply_index hfits h.low h.high
  refine ⟨⟨?_, ?_, ?_⟩, hlow, hhigh⟩
  · cases eff with
    | keep | release => exact h.buffer
    | clear =>
      simp only [LineEffect.apply, ← h.index]
      split
      · exact update_agree h.buffer 0 0
      · exact h.buffer
    | append c =>
      simp only [LineEffect.apply, ← h.index]
      split
      · exact update_agree (update_agree h.buffer _ _) _ _
      · exact update_agree h.buffer _ _
    | spaces =>
      simp only [LineEffect.apply, ← h.index]
      exact update_agree (update_agree (update_agree (update_agree (update_agree h.buffer
        _ _) _ _) _ _) _ _) _ _
    | erase | newline =>
      simp only [LineEffect.apply, ← h.index]
      exact update_agree h.buffer _ _
    | restart atEnd =>
      simp only [LineEffect.apply]
      split
      · exact update_agree h.buffer _ _
      · exact h.buffer
  · cases eff with
    | clear =>
      simp only [LineEffect.apply, ← h.index]
      split
      · rfl
      · exact h.index
    | keep | release => exact h.index
    | append | spaces | erase | newline | restart =>
      simp only [LineEffect.apply, h.index]
  · cases eff with
    | clear =>
      simp only [LineEffect.apply, ← h.index]
      split <;> exact h.enter
    | newline | release => rfl
    | keep | append | spaces | erase | restart => exact h.enter

/-! ## What a key leaves alone -/

/-- The saved lines are the same, and the Enter flags of the other terminals. -/
def SavedSame (v : Fin 3) (inp inp' : Input) : Prop :=
  inp'.readBuffer = inp.readBuffer ∧ inp'.rbIdx = inp.rbIdx ∧
    ∀ u, u ≠ v → inp'.enterPressed u = inp.enterPressed u

section Saved

variable (v : Fin 3) {inp inp' : Input}

theorem SavedSame.refl (inp : Input) : SavedSame v inp inp := ⟨rfl, rfl, fun _ _ => rfl⟩

variable {v}

theorem SavedSame.clearIfEmpty (h : SavedSame v inp inp') :
    SavedSame v inp (ByteVerse.clearIfEmpty inp') := by
  unfold ByteVerse.clearIfEmpty
  split
  · exact h
  · exact h

theorem SavedSame.typeKey (h : SavedSame v inp inp') (scanCode : UInt8) :
    SavedSame v inp (ByteVerse.typeKey inp' scanCode).1 := by
  unfold ByteVerse.typeKey
  simp only
  split
  · split
    · exact h
    · split <;> exact h
  split
  · split
    · exact h
    · split <;> exact h
  split
  · exact SavedSame.clearIfEmpty h
  split
  · split
    · split <;> exact h
    · exact SavedSame.clearIfEmpty h
  split
  · exact SavedSame.clearIfEmpty h
  · exact SavedSame.clearIfEmpty h

theorem SavedSame.fullKey (h : SavedSame v inp inp') (scanCode : UInt8) :
    SavedSame v inp (ByteVerse.fullKey inp' scanCode).1 := by
  unfold ByteVerse.fullKey
  split
  · exact SavedSame.clearIfEmpty h
  split
  · split
    · exact SavedSame.clearIfEmpty h
    · split
      · exact h
      · exact h.clearIfEmpty
  · exact h.clearIfEmpty

theorem SavedSame.update (h : SavedSame v inp inp') (flag : UInt8) (inp'' : Input)
    (hbuf : inp''.readBuffer = inp'.readBuffer) (hidx : inp''.rbIdx = inp'.rbIdx)
    (henter : inp''.enterPressed = Function.update inp'.enterPressed v flag) :
    SavedSame v inp inp'' := by
  refine ⟨hbuf.trans h.1, hidx.trans h.2.1, fun u hu => ?_⟩
  rw [henter, Function.update_of_ne hu]
  exact h.2.2 u hu

theorem SavedSame.lineKey (h : SavedSame v inp inp') (scanCode : UInt8) :
    SavedSame v inp (ByteVerse.lineKey v inp' scanCode).1 := by
  unfold ByteVerse.lineKey
  split
  · exact h
  split
  · unfold tabKey
    split
    · simp only
      split <;> exact h
    · exact h
  split
  · exact h
  split
  · exact h.update 1 _ rfl rfl rfl
  split
  · exact h.update 0 _ rfl rfl rfl
  split
  · split
    · exact h.typeKey scanCode
    · exact h.fullKey scanCode
  · exact h.clearIfEmpty

end Saved

/-- A key leaves the saved lines and the other terminals' Enter flags alone. -/
theorem keyboardInput_saved (v : Fin 3) (inp : Input) (scanCode : UInt8) :
    SavedSame v inp (keyboardInput v inp scanCode).1 := by
  have hrefl := SavedSame.refl v inp
  by_cases hmod : isModifier scanCode = true
  · obtain ⟨c, s, t, a, hkey⟩ := keyboardInput_modifier v inp hmod
    rw [hkey]
    exact hrefl
  obtain ⟨c, f, hpress, -⟩ := pressModifier_same inp scanCode
  rw [keyboardInput_rest v hmod, hpress]
  split
  · exact hrefl
  · have hpressed : SavedSame v inp { inp with ctrlFlag := c, fKeyPressed := f } := hrefl
    exact hpressed.lineKey scanCode

/-! ## The flags -/

section Flags

variable {inp : Input} {scanCode : UInt8}

theorem clearIfEmpty_modifiers (inp : Input) : (clearIfEmpty inp).modifiers = inp.modifiers := by
  unfold clearIfEmpty
  split <;> rfl

/-- The Ctrl branches store 0 into `shift_flag`, where it is 0 already. -/
theorem typeKey_modifiers (hshift : inp.shiftFlag ≠ 1 → inp.ctrlFlag = 1 → inp.shiftFlag = 0) :
    (typeKey inp scanCode).1.modifiers = inp.modifiers := by
  unfold typeKey
  simp only
  split
  · split
    · rfl
    · split <;> rfl
  rename_i hne
  split
  · rename_i hctrl
    have hzero := hshift hne hctrl
    split
    · simp only [Input.modifiers, hzero]
    · split
      · rfl
      · simp only [Input.modifiers, hzero]
  split
  · exact clearIfEmpty_modifiers _
  split
  · split
    · split <;> rfl
    · exact clearIfEmpty_modifiers _
  split <;> exact clearIfEmpty_modifiers _

theorem fullKey_modifiers (inp : Input) (scanCode : UInt8) :
    (fullKey inp scanCode).1.modifiers = inp.modifiers := by
  unfold fullKey
  split
  · exact clearIfEmpty_modifiers _
  split
  · split
    · exact clearIfEmpty_modifiers _
    · split
      · rfl
      · exact clearIfEmpty_modifiers _
  · exact clearIfEmpty_modifiers _

/-- The part of the handler behind the `switch` changes the Tab flag alone. -/
theorem lineKey_modifiers (v : Fin 3)
    (hshift : inp.shiftFlag ≠ 1 → inp.ctrlFlag = 1 → inp.shiftFlag = 0) :
    (lineKey v inp scanCode).1.modifiers =
      { inp.modifiers with
        tab := if scanCode = tabPressed then (if inp.tabFlag = 0 then 1 else inp.tabFlag)
          else if scanCode = tabReleased then 0 else inp.tabFlag } := by
  by_cases htab : scanCode = tabPressed
  · subst htab
    show (tabKey inp).1.modifiers = _
    rw [if_pos rfl, tabKey]
    split
    · simp only
      split <;> rfl
    · rfl
  by_cases htabR : scanCode = tabReleased
  · subst htabR
    rfl
  rw [if_neg htab, if_neg htabR]
  show _ = inp.modifiers
  unfold lineKey
  split
  · rfl
  split
  · rfl
  split
  · rfl
  split
  · split
    · exact typeKey_modifiers hshift
    · exact fullKey_modifiers inp scanCode
  · exact clearIfEmpty_modifiers inp

end Flags

end ByteVerse
