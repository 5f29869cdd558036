/-
  Whether every line that is typed is read, once and in order.

  A terminal `v` stays visible and its process reads again and again, with room for a whole line.
  `Editor` says what the typist sees: the characters of the line so far, and the lines that Enter
  has completed.  Behind it there is one buffer, reused from index 0 on as soon as Enter is pressed,
  and one flag, which Enter sets and the release of Enter clears.  So a line is handed over only if
  the reader copies it before anything else happens to either; `handsOver` says which keys may come
  when, and `lines_read_in_order` that the lines returned are then the first of the lines typed.

  The invariant (`LinesInv`) follows the line through the stages of the hand-over: being typed,
  offered, being copied, being cleared, and the flag being cleared.
-/
import ByteVerse.Reader
import Mathlib.Data.List.GetD

set_option linter.unusedVariables false

namespace ByteVerse

open Run

/-! ## What the typist sees -/

structure Editor where
  caps : Bool
  shift : Bool
  /-- Tab is held. -/
  tab : Bool
  line : List UInt8
  /-- The completed lines, each with its newline. -/
  lines : List (List UInt8)
  deriving DecidableEq

def Editor.blank : Editor := { caps := false, shift := false, tab := false, line := [], lines := [] }

/-- The character that a key types. -/
def Editor.char (ed : Editor) (scanCode : UInt8) : UInt8 :=
  if ed.shift then
    if isLetter scanCode then
      if ed.caps then scanToAscii scanCode else scanToAsciiCaps scanCode
    else scanToAsciiShift scanCode
  else if ed.caps then scanToAsciiCaps scanCode
  else scanToAscii scanCode

/-- A key, with no Ctrl held.  Tab types four spaces when they fit, once per press; Backspace does
    nothing while Shift is held. -/
def Editor.key (ed : Editor) (scanCode : UInt8) : Editor :=
  if scanCode = capsPressed then { ed with caps := !ed.caps }
  else if scanCode = rShiftPressed ∨ scanCode = lShiftPressed then { ed with shift := true }
  else if scanCode = rShiftReleased ∨ scanCode = lShiftReleased then { ed with shift := false }
  else if scanCode = tabPressed then
    { ed with
      tab := true
      line := if !ed.tab ∧ (ed.line.length : Int) + tabSize < bufferLimit
        then ed.line ++ List.replicate 4 32 else ed.line }
  else if scanCode = tabReleased then { ed with tab := false }
  else if scanCode = enterPressedCode then
    { ed with line := [], lines := ed.lines ++ [ed.line ++ [10]] }
  else if scanCode = backspacePress then
    if ed.shift then ed else { ed with line := ed.line.dropLast }
  else if scanCode < charLimit ∧ isIgnored scanCode = false ∧ scanCode ≠ leftAltPressed then
    { ed with line := ed.line ++ [ed.char scanCode] }
  else ed

/-! ## Runs, with what has been typed and what has been read -/

structure LineRun where
  session : InputSession
  editor : Editor
  returned : List (List UInt8)

def Observed.bytes : Observed → Option (List UInt8)
  | .returned _ bytes => some bytes
  | _ => none

def lineStep (disk : Disk) (v : Fin 3) (r : LineRun) (e : InputEvent) : Option LineRun :=
  some {
    session := r.session.next disk e
    editor := match e with
      | .key scanCode _ => r.editor.key scanCode
      | _ => r.editor
    returned := r.returned ++ (observe v r.session e).filterMap Observed.bytes }

/-- Nothing is typed, offered or being read, no modifier is on, and `v` is visible. -/
structure Idle (v : Fin 3) (k : Kernel) : Prop where
  visible : k.visibleTerm = v
  caps : k.input.capsFlag = 0
  shift : k.input.shiftFlag = 0
  ctrl : k.input.ctrlFlag = 0
  tab : k.input.tabFlag = 0
  buffer : ∀ i, 0 ≤ i → i < bufferLimit → k.input.termBuffer i = 0
  index : k.input.bufferIndex = 0
  enter : ∀ u, k.input.enterPressed u = 0

def startRun (k : Kernel) : LineRun :=
  { session := { kernel := k, calls := fun _ => none }, editor := Editor.blank, returned := [] }

/-- The runs in question: `v` stays visible, no Ctrl, lines of at most 127 characters, reads of at
    least 128 bytes by the process of `v`.  (Scan code 0 is no key: it reports a keyboard error.) -/
def inQuestion (v : Fin 3) (r : LineRun) : InputEvent → Prop
  | .key scanCode _ => scanCode ≠ 0 ∧ scanCode ≠ ctrlPressed ∧
      (r.editor.key scanCode).line.length ≤ 127
  | .tick _ _ _ => True
  | .switchTerminal _ => False
  | .statement nbytes => r.session.kernel.schedTerm = v → 128 ≤ nbytes

/-- The lines returned are the first of the lines typed. -/
def ReadInOrder (r : LineRun) : Prop := r.returned <+: r.editor.lines

instance (v : Fin 3) (r : LineRun) (e : InputEvent) : Decidable (inQuestion v r e) :=
  match e with
  | .key _ _ => inferInstanceAs (Decidable (_ ∧ _))
  | .tick _ _ _ => isTrue trivial
  | .switchTerminal _ => isFalse id
  | .statement _ => inferInstanceAs (Decidable (_ → _))

/-! ## The condition -/

/-- A key after which the buffer, the index and the flag are as before, on an empty line. -/
def leavesAlone (inp : Input) (scanCode : UInt8) : Bool :=
  isModifier scanCode || isIgnored scanCode || scanCode == tabReleased ||
    (scanCode == tabPressed && inp.tabFlag != 0) ||
    (scanCode == backspacePress && (inp.shiftFlag == 1 || inp.capsFlag != 0))

/-- How many characters a key adds at most. -/
def keyWidth (scanCode : UInt8) : Int := if scanCode = tabPressed then tabSize else 1

/-- Whether a key comes at a time when it does no harm, with the reader of `v` at `call`. -/
def safeKey (v : Fin 3) (inp : Input) (scanCode : UInt8) : Option ReadCall → Prop
  | some ⟨_, .copy i _⟩ =>
    -- what has been copied may change; Enter may be released, but nothing may be typed
    leavesAlone inp scanCode = true ∨ scanCode = enterReleasedCode ∨
      (0 < i ∧ (charLimit ≤ scanCode ∨ scanCode = backspacePress))
  | some ⟨_, .wipe i _ _⟩ =>
    -- the next line may be typed where the buffer has been cleared
    scanCode ≠ enterPressedCode ∧ (charLimit ≤ scanCode ∨ scanCode = backspacePress ∨
      leavesAlone inp scanCode = true ∨ inp.bufferIndex + keyWidth scanCode ≤ i)
  | some ⟨_, .clearFlag _ _⟩ => scanCode ≠ enterPressedCode
  -- a line that is offered must be left alone until the reader comes
  | _ => inp.enterPressed v ≠ 0 → leavesAlone inp scanCode = true

/-- The reader asks for no more than the buffer holds: a longer read clears the modifier flags, which
    lie behind it. -/
def handsOver (v : Fin 3) (r : LineRun) : InputEvent → Prop
  | .key scanCode _ =>
    let inp := r.session.kernel.input
    ¬ lineFlagWraps inp scanCode ∧ safeKey v inp scanCode (r.session.calls v)
  | .statement nbytes => r.session.kernel.schedTerm = v → nbytes ≤ bufferLimit
  | _ => True

instance (v : Fin 3) (inp : Input) (scanCode : UInt8) (call : Option ReadCall) :
    Decidable (safeKey v inp scanCode call) :=
  match call with
  | some ⟨_, .copy _ _⟩ => inferInstanceAs (Decidable (_ ∨ _))
  | some ⟨_, .wipe _ _ _⟩ => inferInstanceAs (Decidable (_ ∧ _))
  | some ⟨_, .clearFlag _ _⟩ => inferInstanceAs (Decidable (_ ≠ _))
  | some ⟨_, .wait⟩ => inferInstanceAs (Decidable (_ → _))
  | some ⟨_, .returned _ _⟩ => inferInstanceAs (Decidable (_ → _))
  | none => inferInstanceAs (Decidable (_ → _))

instance (v : Fin 3) (r : LineRun) (e : InputEvent) : Decidable (handsOver v r e) :=
  match e with
  | .key _ _ => inferInstanceAs (Decidable (_ ∧ _))
  | .tick _ _ _ => isTrue trivial
  | .switchTerminal _ => isTrue trivial
  | .statement _ => inferInstanceAs (Decidable (_ → _))

/-! ## What a key does, with no Ctrl held -/

/-- The flags are those of the editor. -/
structure FlagsMatch (m : Modifiers) (ed : Editor) : Prop where
  caps : m.caps = if ed.caps then 255 else 0
  shift : m.shift = if ed.shift then 1 else 0
  ctrl : m.ctrl = 0
  tab : m.tab = if ed.tab then 1 else 0

/-- The effect on the characters of the line. -/
def LineEffect.typed (line : List UInt8) : LineEffect → List UInt8
  | .append c => line ++ [c]
  | .spaces => line ++ List.replicate 4 32
  | .erase => line.dropLast
  | .newline => []
  | _ => line

section Keys

variable {m : Modifiers} {ed : Editor} {scanCode : UInt8}

theorem FlagsMatch.char (h : FlagsMatch m ed) (scanCode : UInt8) :
    charOf m scanCode = ed.char scanCode := by
  unfold charOf Editor.char
  rw [h.shift, h.caps]
  -- `caps_flag` is 0 or its complement
  have hflip : ~~~(255 : UInt8) = 0 := by decide
  have hflip' : (-1 : UInt8) ≠ 0 := by decide
  cases ed.shift <;> cases ed.caps <;> simp [hflip, hflip']

theorem lineEffect_fKey (m : Modifiers) (f : UInt8) (index : Int) (scanCode : UInt8) :
    lineEffect { m with fKey := f } index scanCode = lineEffect m index scanCode := by
  unfold lineEffect typeEffect fullEffect charOf
  simp only

theorem keyEffect_line (hmod : isModifier scanCode ≠ true) (hctrl : m.ctrl = 0)
    (hcode : scanCode ≠ ctrlPressed) (index : Int) :
    keyEffect m index scanCode = lineEffect m index scanCode := by
  have hpressed : ∃ f, pressed m scanCode = { m with fKey := f } := by
    rw [pressed, if_neg hcode]
    split
    · exact ⟨1, rfl⟩
    · exact ⟨m.fKey, rfl⟩
  obtain ⟨f, hf⟩ := hpressed
  have hchord : ¬ Modifiers.Chord { m with fKey := f } := fun h => h.1 hctrl
  rw [keyEffect_rest m index hmod, hf, if_neg hchord]
  exact lineEffect_fKey m f index scanCode

/-- A key of the main block, with room in the buffer. -/
theorem lineEffect_type {index : Int} (hignored : isIgnored scanCode = false)
    (htab : scanCode ≠ tabPressed) (henter : scanCode ≠ enterPressedCode)
    (hchar : scanCode < charLimit) (hroom : index < bufferLimit) :
    lineEffect m index scanCode = typeEffect m index scanCode := by
  have htabR : scanCode ≠ tabReleased := fun h => absurd (h ▸ hchar) (by decide)
  have henterR : scanCode ≠ enterReleasedCode := fun h => absurd (h ▸ hchar) (by decide)
  rw [lineEffect, if_neg (Bool.eq_false_iff.mp hignored), if_neg htab, if_neg htabR, if_neg henter,
    if_neg henterR, if_pos hchar, if_pos hroom]

/-- The line is neither completed nor begun again. -/
def LineEffect.staysOnLine : LineEffect → Bool
  | .newline => false
  | .restart _ => false
  | _ => true

theorem typeEffect_stays (hctrl : m.ctrl ≠ 1) (index : Int) (scanCode : UInt8) :
    (typeEffect m index scanCode).staysOnLine = true := by
  rw [typeEffect, if_neg hctrl]
  split
  · split <;> rfl
  split
  · split
    · rfl
    · split <;> rfl
  · rfl

theorem fullEffect_stays (hctrl : m.ctrl ≠ 1) (scanCode : UInt8) :
    (fullEffect m scanCode).staysOnLine = true := by
  rw [fullEffect, if_neg hctrl]
  split <;> rfl

theorem lineEffect_stays (hctrl : m.ctrl ≠ 1) (henter : scanCode ≠ enterPressedCode) (index : Int) :
    (lineEffect m index scanCode).staysOnLine = true := by
  rw [lineEffect, if_neg henter]
  split
  · rfl
  split
  · split <;> rfl
  split
  · rfl
  split
  · rfl
  split
  · split
    · exact typeEffect_stays hctrl index scanCode
    · exact fullEffect_stays hctrl scanCode
  · rfl

/-- Without Ctrl, only Enter leaves the line. -/
theorem keyEffect_stays (hctrl : m.ctrl = 0) (hcode : scanCode ≠ ctrlPressed)
    (henter : scanCode ≠ enterPressedCode) (index : Int) :
    (keyEffect m index scanCode).staysOnLine = true := by
  by_cases hmod : isModifier scanCode = true
  · rw [keyEffect, if_pos hmod]
    rfl
  · have hne : m.ctrl ≠ 1 := by
      rw [hctrl]
      decide
    rw [keyEffect_line hmod hctrl hcode]
    exact lineEffect_stays hne henter index

theorem keyEffect_enter (hctrl : m.ctrl = 0) (index : Int) :
    keyEffect m index enterPressedCode = .newline := by
  rw [keyEffect_line (by decide) hctrl (by decide)]
  rfl

theorem keyEffect_newline_iff (hctrl : m.ctrl = 0) (hcode : scanCode ≠ ctrlPressed) (index : Int) :
    keyEffect m index scanCode = .newline ↔ scanCode = enterPressedCode := by
  constructor
  · intro heff
    by_contra henter
    have hstays := keyEffect_stays hctrl hcode henter index
    rw [heff] at hstays
    cases hstays
  · rintro rfl
    exact keyEffect_enter hctrl index

theorem keyEffect_not_restart (hctrl : m.ctrl = 0) (hcode : scanCode ≠ ctrlPressed) (index : Int)
    (b : Bool) : keyEffect m index scanCode ≠ .restart b := by
  intro heff
  by_cases henter : scanCode = enterPressedCode
  · rw [henter, keyEffect_enter hctrl index] at heff
    cases heff
  · have hstays := keyEffect_stays hctrl hcode henter index
    rw [heff] at hstays
    cases hstays

/-- Only Enter completes a line. -/
theorem editor_lines (ed : Editor) (scanCode : UInt8) :
    (ed.key scanCode).lines =
      if scanCode = enterPressedCode then ed.lines ++ [ed.line ++ [10]] else ed.lines := by
  by_cases henter : scanCode = enterPressedCode
  · subst henter
    rfl
  · rw [if_neg henter, Editor.key, if_neg henter]
    split
    · rfl
    split
    · rfl
    split
    · rfl
    split
    · rfl
    split
    · rfl
    split
    · split <;> rfl
    · split <;> rfl

/-- **The handler edits the line as the editor does.** -/
theorem editor_line (h : FlagsMatch m ed) (hcode : scanCode ≠ ctrlPressed)
    (hshort : ed.line.length ≤ 127) :
    (ed.key scanCode).line = (keyEffect m ed.line.length scanCode).typed ed.line := by
  by_cases hmod : isModifier scanCode = true
  · rw [keyEffect, if_pos hmod]
    rcases isModifier_iff.mp hmod with hc | hc | (hc | hc) | (hc | hc) | hc | hc <;> subst hc <;> rfl
  rw [keyEffect_line hmod h.ctrl hcode]
  have hnot := mt isModifier_iff.mpr hmod
  simp only [not_or] at hnot
  obtain ⟨hcaps, -, hshift, hshiftR, halt, -⟩ := hnot
  rw [Editor.key, if_neg hcaps, if_neg (not_or.mpr hshift), if_neg (not_or.mpr hshiftR)]
  by_cases htab : scanCode = tabPressed
  · subst htab
    have hfits : (m.tab = 0 ∧ (ed.line.length : Int) + tabSize < bufferLimit) ↔
        (!ed.tab ∧ (ed.line.length : Int) + tabSize < bufferLimit) := by
      rw [h.tab]
      cases ed.tab <;> simp
    have hline : lineEffect m ed.line.length tabPressed =
        if m.tab = 0 ∧ (ed.line.length : Int) + tabSize < bufferLimit then .spaces else .keep := rfl
    rw [hline, if_pos rfl]
    by_cases hroom : !ed.tab ∧ (ed.line.length : Int) + tabSize < bufferLimit
    · rw [if_pos (hfits.mpr hroom)]
      exact if_pos hroom
    · rw [if_neg (mt hfits.mp hroom)]
      exact if_neg hroom
  rw [if_neg htab]
  by_cases htabR : scanCode = tabReleased
  · subst htabR
    rfl
  rw [if_neg htabR]
  by_cases henter : scanCode = enterPressedCode
  · subst henter
    rfl
  rw [if_neg henter]
  have hroom : (ed.line.length : Int) < bufferLimit := by
    show (ed.line.length : Int) < 128
    omega
  have hctrl : m.ctrl ≠ 1 := by
    rw [h.ctrl]
    decide
  by_cases hback : scanCode = backspacePress
  · have htype : lineEffect m ed.line.length scanCode = typeEffect m ed.line.length scanCode :=
      lineEffect_type (by rw [hback]; decide) htab henter (by rw [hback]; decide) hroom
    rw [htype, if_pos hback, typeEffect, h.shift, if_pos hback]
    cases hs : ed.shift with
    | true => rfl
    | false =>
      rw [if_neg (by decide), if_neg hctrl, if_pos hback]
      by_cases hlen : (ed.line.length : Int) > 0
      · rw [if_pos hlen]
        rfl
      · -- with nothing to erase the line stays empty
        have hempty : ed.line = [] := List.eq_nil_of_length_eq_zero (by omega)
        rw [if_neg hlen, hempty]
        by_cases hcapsFlag : m.caps = 0
        · rw [if_pos hcapsFlag]
          rfl
        · rw [if_neg hcapsFlag]
          rfl
  rw [if_neg hback]
  by_cases hchar : scanCode < charLimit ∧ isIgnored scanCode = false ∧ scanCode ≠ leftAltPressed
  · rw [if_pos hchar, lineEffect_type hchar.2.1 htab henter hchar.1 hroom, typeEffect, if_neg hback,
      if_neg hctrl, if_neg hback, h.char, ite_self]
    rfl
  · rw [if_neg hchar, lineEffect]
    by_cases hignored : isIgnored scanCode = true
    · rw [if_pos hignored]
      rfl
    rw [if_neg hignored, if_neg htab, if_neg htabR, if_neg henter]
    by_cases henterR : scanCode = enterReleasedCode
    · rw [if_pos henterR]
      rfl
    · have hnotChar : ¬ scanCode < charLimit := fun hlt =>
        hchar ⟨hlt, Bool.eq_false_iff.mpr hignored, halt⟩
      rw [if_neg henterR, if_neg hnotChar]
      rfl

/-- The key neither switches terminals nor halts a process. -/
def KeyAction.quiet : KeyAction → Bool
  | .nothing => true
  | .echo _ => true
  | _ => false

theorem typeKey_quiet {inp : Input} (hctrl : inp.ctrlFlag ≠ 1) :
    (typeKey inp scanCode).2.quiet = true := by
  unfold typeKey
  simp only
  split
  · split
    · rfl
    · split <;> rfl
  split
  · rfl
  split
  · split
    · split <;> rfl
    · rfl
  split <;> rfl

theorem fullKey_quiet {inp : Input} (hctrl : inp.ctrlFlag ≠ 1) :
    (fullKey inp scanCode).2.quiet = true := by
  unfold fullKey
  rw [if_neg hctrl]
  split <;> rfl

theorem lineKey_quiet (v : Fin 3) {inp : Input} (hctrl : inp.ctrlFlag ≠ 1) :
    (lineKey v inp scanCode).2.quiet = true := by
  unfold lineKey
  split
  · rfl
  split
  · unfold tabKey
    split
    · simp only
      split <;> rfl
    · rfl
  split
  · rfl
  split
  · rfl
  split
  · rfl
  split
  · split
    · exact typeKey_quiet hctrl
    · exact fullKey_quiet hctrl
  · rfl

theorem editor_flags (hcaps : scanCode ≠ capsPressed)
    (hshift : ¬ (scanCode = rShiftPressed ∨ scanCode = lShiftPressed))
    (hshiftR : ¬ (scanCode = rShiftReleased ∨ scanCode = lShiftReleased)) (ed : Editor) :
    (ed.key scanCode).caps = ed.caps ∧ (ed.key scanCode).shift = ed.shift ∧
      (ed.key scanCode).tab =
        if scanCode = tabPressed then true else if scanCode = tabReleased then false else ed.tab := by
  rw [Editor.key, if_neg hcaps, if_neg hshift, if_neg hshiftR]
  split
  · exact ⟨rfl, rfl, rfl⟩
  split
  · exact ⟨rfl, rfl, rfl⟩
  split
  · exact ⟨rfl, rfl, rfl⟩
  split
  · split <;> exact ⟨rfl, rfl, rfl⟩
  split <;> exact ⟨rfl, rfl, rfl⟩

theorem FlagsMatch.key {inp : Input} (v : Fin 3) (h : FlagsMatch inp.modifiers ed)
    (hcode : scanCode ≠ ctrlPressed) :
    (keyboardInput v inp scanCode).2.quiet = true ∧
      FlagsMatch (keyboardInput v inp scanCode).1.modifiers (ed.key scanCode) := by
  by_cases hmod : isModifier scanCode = true
  · rcases isModifier_iff.mp hmod with hc | hc | (hc | hc) | (hc | hc) | hc | hc <;> subst hc
    · refine ⟨rfl, ?_, h.shift, h.ctrl, h.tab⟩
      show ~~~inp.modifiers.caps = if !ed.caps then 255 else 0
      rw [h.caps]
      cases ed.caps <;> decide
    · exact ⟨rfl, h.caps, h.shift, rfl, h.tab⟩
    · exact ⟨rfl, h.caps, rfl, h.ctrl, h.tab⟩
    · exact ⟨rfl, h.caps, rfl, h.ctrl, h.tab⟩
    · exact ⟨rfl, h.caps, rfl, h.ctrl, h.tab⟩
    · exact ⟨rfl, h.caps, rfl, h.ctrl, h.tab⟩
    · exact ⟨rfl, h.caps, h.shift, h.ctrl, h.tab⟩
    · exact ⟨rfl, h.caps, h.shift, h.ctrl, h.tab⟩
  have hnot := mt isModifier_iff.mpr hmod
  simp only [not_or] at hnot
  obtain ⟨hcaps, -, hshift, hshiftR, -, -⟩ := hnot
  obtain ⟨c, f, hpress, hc, -⟩ := pressModifier_same inp scanCode
  rw [if_neg hcode] at hc
  have hctrl : inp.ctrlFlag = 0 := h.ctrl
  have hchord : ¬ Modifiers.Chord (Input.modifiers { inp with ctrlFlag := c, fKeyPressed := f }) :=
    fun hch => hch.1 (hc.trans hctrl)
  have hline : keyboardInput v inp scanCode =
      lineKey v { inp with ctrlFlag := c, fKeyPressed := f } scanCode := by
    rw [keyboardInput_rest v hmod, hpress]
    exact if_neg hchord
  have hne : c ≠ 1 := by
    rw [hc, hctrl]
    decide
  have hflags : (lineKey v { inp with ctrlFlag := c, fKeyPressed := f } scanCode).1.modifiers = _ :=
    lineKey_modifiers v fun _ hone => absurd hone hne
  obtain ⟨hedCaps, hedShift, hedTab⟩ :=
    editor_flags hcaps (not_or.mpr hshift) (not_or.mpr hshiftR) ed
  rw [hline]
  refine ⟨lineKey_quiet v hne, ?_⟩
  rw [hflags]
  refine ⟨?_, ?_, hc.trans hctrl, ?_⟩
  · rw [hedCaps]
    exact h.caps
  · rw [hedShift]
    exact h.shift
  · rw [hedTab]
    have htab : inp.tabFlag = if ed.tab then 1 else 0 := h.tab
    show (if scanCode = tabPressed then (if inp.tabFlag = 0 then 1 else inp.tabFlag)
      else if scanCode = tabReleased then 0 else inp.tabFlag) = _
    rw [htab]
    split
    · cases ed.tab <;> decide
    · split <;> rfl

end Keys

/-! ## The line in the buffer -/

/-- Up to `bound` the buffer holds the characters of `line`, followed by zeros. -/
def Holds (bound : Int) (buffer : Int → UInt8) (line : List UInt8) : Prop :=
  ∀ j : Int, 0 ≤ j → j < bound → j < bufferLimit → buffer j = line.getD j.toNat 0

section Buffer

variable {bound : Int} {buffer : Int → UInt8} {line : List UInt8}

theorem getD_beyond {line : List UInt8} {n : Nat} (h : line.length ≤ n) : line.getD n 0 = 0 :=
  List.getD_eq_default line 0 h

/-- A zero stored behind the line. -/
theorem Holds.update_zero (h : Holds bound buffer line) {i : Int} (hi : (line.length : Int) ≤ i) :
    Holds bound (Function.update buffer i 0) line := by
  intro j h0 hj hlim
  by_cases hji : j = i
  · rw [hji, Function.update_self, getD_beyond (by omega)]
  · rw [Function.update_of_ne hji]
    exact h j h0 hj hlim

/-- A character stored at the end of the line. -/
theorem Holds.update_append (h : Holds bound buffer line) {i : Int} (hi : i = line.length)
    (c : UInt8) : Holds bound (Function.update buffer i c) (line ++ [c]) := by
  subst hi
  intro j h0 hj hlim
  by_cases hji : j = line.length
  · rw [hji, Function.update_self]
    simp
  · rw [Function.update_of_ne hji, h j h0 hj hlim]
    rcases Nat.lt_or_ge j.toNat line.length with hlt | hge
    · exact (List.getD_append line [c] 0 j.toNat hlt).symm
    · rw [getD_beyond hge, getD_beyond]
      rw [List.length_append, List.length_singleton]
      omega

/-- The last character of the line overwritten by a zero. -/
theorem Holds.update_dropLast (h : Holds bound buffer line) (hne : 0 < line.length) :
    Holds bound (Function.update buffer (line.length - 1) 0) line.dropLast := by
  intro j h0 hj hlim
  by_cases hji : j = line.length - 1
  · rw [hji, Function.update_self, getD_beyond]
    rw [List.length_dropLast]
    omega
  · rw [Function.update_of_ne hji, h j h0 hj hlim]
    rcases Nat.lt_or_ge j.toNat (line.length - 1) with hlt | hge
    · rw [List.getD_eq_getElem?_getD, List.getD_eq_getElem?_getD, List.getElem?_dropLast, if_pos hlt]
    · rw [getD_beyond, getD_beyond]
      · rw [List.length_dropLast]
        omega
      · omega

/-- **A key edits the characters in the buffer** as it does those of the line. -/
theorem Holds.apply {l : LineState} {eff : LineEffect} (h : Holds bound l.buffer line)
    (hidx : l.index = line.length) (hfits : eff.Fits l.index) (hnewline : eff ≠ .newline)
    (hrestart : ∀ b, eff ≠ .restart b) : Holds bound (eff.apply l).buffer (eff.typed line) := by
  cases eff with
  | keep | release => exact h
  | clear =>
    show Holds bound (LineEffect.clear.apply l).buffer line
    simp only [LineEffect.apply]
    split
    · rename_i hzero
      exact h.update_zero (by omega)
    · exact h
  | append c =>
    have hlen : ((line ++ [c]).length : Int) = line.length + 1 := by simp
    show Holds bound ((LineEffect.append c).apply l).buffer (line ++ [c])
    simp only [LineEffect.apply, hidx]
    split
    · exact (h.update_append rfl c).update_zero (by omega)
    · exact h.update_append rfl c
  | spaces =>
    have hspaces : line ++ List.replicate 4 32 = line ++ [32] ++ [32] ++ [32] ++ [32] := by
      simp only [List.append_assoc]
      rfl
    have hlen : ((line ++ List.replicate 4 32).length : Int) = line.length + tabSize := by simp
    have h₁ := h.update_append rfl 32
    have h₂ : Holds bound (Function.update _ (line.length + 1 : Int) 32) _ :=
      h₁.update_append (by simp) 32
    have h₃ : Holds bound (Function.update _ (line.length + 2 : Int) 32) _ :=
      h₂.update_append (by simp) 32
    have htyped : Holds bound (Function.update _ (line.length + 3 : Int) 32) _ :=
      h₃.update_append (by simp) 32
    rw [← hspaces] at htyped
    show Holds bound (LineEffect.spaces.apply l).buffer (line ++ List.replicate 4 32)
    simp only [LineEffect.apply, hidx]
    exact htyped.update_zero (by omega)
  | erase =>
    have hne : 0 < l.index := hfits
    show Holds bound (LineEffect.erase.apply l).buffer line.dropLast
    simp only [LineEffect.apply, hidx]
    exact h.update_dropLast (by omega)
  | newline => exact absurd rfl hnewline
  | restart b => exact absurd rfl (hrestart b)

/-- So does the index follow the length of the line. -/
theorem apply_length {l : LineState} {eff : LineEffect} (hidx : l.index = line.length)
    (hfits : eff.Fits l.index) (hrestart : ∀ b, eff ≠ .restart b) :
    (eff.apply l).index = (eff.typed line).length := by
  cases eff with
  | keep | release => exact hidx
  | clear =>
    simp only [LineEffect.apply]
    split <;> exact hidx
  | append c =>
    show l.index + 1 = ((line ++ [c]).length : Int)
    simp [hidx]
  | spaces =>
    show l.index + tabSize = ((line ++ List.replicate 4 32).length : Int)
    simp [hidx]
  | erase =>
    have hne : 0 < l.index := hfits
    show l.index - 1 = (line.dropLast.length : Int)
    rw [List.length_dropLast]
    omega
  | newline => rfl
  | restart b => exact absurd rfl (hrestart b)

end Buffer

/-! ## The invariant -/

/-- A line that Enter has completed: it fits the buffer and has no zero in it. -/
def Completed (line : List UInt8) : Prop := line.length ≤ 128 ∧ ∀ c ∈ line, c ≠ 0

/-- No read is under way.  Either the buffer holds the line that is being typed and all lines have
    been returned, or it holds a completed line and the flag is set. -/
def Offered (v : Fin 3) (inp : Input) (ed : Editor) (returned : List (List UInt8)) : Prop :=
  (inp.enterPressed v = 0 ∧ Holds bufferLimit inp.termBuffer ed.line ∧ ed.lines = returned) ∨
  (inp.enterPressed v ≠ 0 ∧ ed.line = [] ∧
    ∃ line, Completed line ∧ ed.lines = returned ++ [line] ∧ Holds bufferLimit inp.termBuffer line)

/-- The stages of the hand-over, by where the reader is. -/
def Stage (v : Fin 3) (inp : Input) (ed : Editor) (returned : List (List UInt8)) :
    Option ReadCall → Prop
  | some ⟨n, .copy i buf⟩ => 128 ≤ n ∧ ed.line = [] ∧ ∃ line, Completed line ∧
      ed.lines = returned ++ [line] ∧ 0 ≤ i ∧ i ≤ line.length ∧ buf = line.take i.toNat ∧
      ∀ j, i ≤ j → j < bufferLimit → inp.termBuffer j = line.getD j.toNat 0
  | some ⟨n, .wipe i bytesRead buf⟩ => 128 ≤ n ∧ (ed.line.length : Int) ≤ i ∧
      Holds i inp.termBuffer ed.line ∧ ed.lines = returned ++ [buf.take bytesRead.toNat]
  | some ⟨_, .clearFlag bytesRead buf⟩ => Holds bufferLimit inp.termBuffer ed.line ∧
      ed.lines = returned ++ [buf.take bytesRead.toNat]
  | some ⟨n, .wait⟩ => 128 ≤ n ∧ Offered v inp ed returned
  | _ => Offered v inp ed returned

structure LinesOk (v visible : Fin 3) (inp : Input) (calls : Fin 3 → Option ReadCall) (ed : Editor)
    (returned : List (List UInt8)) : Prop where
  visible : visible = v
  flags : FlagsMatch inp.modifiers ed
  index : inp.bufferIndex = ed.line.length
  short : ed.line.length ≤ 127
  chars : ∀ c ∈ ed.line, c ≠ 0
  /-- The processes of the other terminals wait. -/
  othersFlag : ∀ u, u ≠ v → inp.enterPressed u = 0
  othersCall : ∀ u, u ≠ v → ∀ c, openCall (calls u) = some c → c.pc = .wait
  stage : Stage v inp ed returned (calls v)

def LinesInv (v : Fin 3) (r : LineRun) : Prop :=
  LinesOk v r.session.kernel.visibleTerm r.session.kernel.input r.session.calls r.editor r.returned

theorem LinesInv.inOrder {v : Fin 3} {r : LineRun} (h : LinesInv v r) : ReadInOrder r := by
  have hoffered : Offered v r.session.kernel.input r.editor r.returned → ReadInOrder r := by
    rintro (⟨-, -, hlines⟩ | ⟨-, -, line, -, hlines, -⟩)
    · show _ <+: _
      exact hlines ▸ List.prefix_rfl
    · exact ⟨[line], hlines.symm⟩
  have hstage := h.stage
  generalize r.session.calls v = call at hstage
  rcases call with _ | ⟨n, _ | ⟨i, buf⟩ | ⟨i, k, buf⟩ | ⟨k, buf⟩ | ⟨k, buf⟩⟩
  · exact hoffered hstage
  · exact hoffered hstage.2
  · obtain ⟨-, -, line, -, hlines, -⟩ := hstage
    exact ⟨[line], hlines.symm⟩
  · exact ⟨_, hstage.2.2.2.symm⟩
  · exact ⟨_, hstage.2.symm⟩
  · exact hoffered hstage

/-! ## A statement of the reader -/

/-- **The reader's part of the step lemma.** -/
theorem Stage.statement {v : Fin 3} {inp : Input} {ed : Editor} {returned : List (List UInt8)}
    {call : Option ReadCall} (h : Stage v inp ed returned call) {nbytes : Int} (hn : 128 ≤ nbytes) :
    let r := callStatement v v nbytes inp call
    Stage v r.1 ed (returned ++ [r.2.pc.observed].filterMap Observed.bytes) (some r.2) := by
  rcases call with _ | ⟨n, _ | ⟨i, buf⟩ | ⟨i, k, buf⟩ | ⟨k, buf⟩ | ⟨k, buf⟩⟩
  · -- a call begins
    show 128 ≤ nbytes ∧ Offered v inp ed (returned ++ [])
    rw [List.append_nil]
    exact ⟨hn, h⟩
  · obtain ⟨hn, hoffered⟩ := h
    simp only [callStatement, openCall, readStatement]
    rcases hoffered with ⟨hflag, hholds, hlines⟩ | ⟨hflag, hline, line, hdone, hlines, hholds⟩
    · rw [if_pos hflag]
      show 128 ≤ n ∧ Offered v inp ed (returned ++ [])
      rw [List.append_nil]
      exact ⟨hn, Or.inl ⟨hflag, hholds, hlines⟩⟩
    · rw [if_neg hflag]
      show 128 ≤ n ∧ ed.line = [] ∧ ∃ line, _
      refine ⟨hn, hline, line, hdone, ?_, Int.le_refl 0, Int.natCast_nonneg _, rfl,
        fun j h0 hlim => hholds j h0 hlim hlim⟩
      exact hlines.trans (congrArg (· ++ [line]) (List.append_nil returned).symm)
  · obtain ⟨hn, hline, line, ⟨hlen, hchars⟩, hlines, h0, hi, hbuf, hrest⟩ := h
    simp only [callStatement, openCall, readStatement]
    have hcopied : ∀ c : List UInt8, (buf ++ c).take i.toNat = line.take i.toNat := by
      intro c
      have hbuflen : buf.length = i.toNat := by
        rw [hbuf, List.length_take]
        omega
      rw [List.take_append_of_le_length (by omega), hbuf, List.take_take, Nat.min_self]
    by_cases hlast : i = line.length
    · -- the whole line has been copied: the zero behind it, or the end of the buffer
      have hwipe : ∀ c : List UInt8, Stage v inp ed
          (returned ++ [(ReadPc.wipe 0 i (buf ++ c)).observed].filterMap Observed.bytes)
          (some ⟨n, .wipe 0 i (buf ++ c)⟩) := by
        intro c
        show 128 ≤ n ∧ _ ∧ _ ∧ ed.lines = (returned ++ []) ++ [(buf ++ c).take i.toNat]
        rw [List.append_nil, hcopied c, hline, hlast]
        refine ⟨hn, Int.le_refl 0, fun j h0 hj => absurd hj (by omega), ?_⟩
        rw [show ((line.length : Int)).toNat = line.length from rfl, List.take_length]
        exact hlines
      by_cases hmore : i < n
      · have hend : i = bufferLimit ∨ inp.termBuffer i = 0 := by
          rcases Int.lt_or_eq_of_le (show i ≤ bufferLimit by simp only [bufferLimit]; omega) with
            hlim | hlim
          · exact Or.inr ((hrest i (Int.le_refl i) hlim).trans (getD_beyond (by omega)))
          · exact Or.inl hlim
        rw [if_pos hmore, if_pos hend]
        exact hwipe _
      · rw [if_neg hmore]
        have hwipe' := hwipe []
        rwa [List.append_nil] at hwipe'
    · have hlt : i.toNat < line.length := by omega
      have hbyte : inp.termBuffer i = (line)[i.toNat] := by
        rw [hrest i (Int.le_refl i) (by simp only [bufferLimit]; omega)]
        exact List.getD_eq_getElem line 0 hlt
      have hnot : ¬ (i = bufferLimit ∨ inp.termBuffer i = 0) := by
        rintro (hlim | hzero)
        · simp only [bufferLimit] at hlim
          omega
        · exact hchars _ (List.getElem_mem hlt) (hbyte.symm.trans hzero)
      rw [if_pos (by omega : i < n), if_neg hnot]
      show 128 ≤ n ∧ ed.line = [] ∧ ∃ line, _
      refine ⟨hn, hline, line, ⟨hlen, hchars⟩, ?_, by omega, by omega, ?_,
        fun j hj hlim => hrest j (by omega) hlim⟩
      · exact hlines.trans (congrArg (· ++ [line]) (List.append_nil returned).symm)
      · rw [show (i + 1).toNat = i.toNat + 1 by omega, List.take_succ_eq_append_getElem hlt, hbuf,
          hbyte]
  · obtain ⟨hn, hlen, hholds, hlines⟩ := h
    simp only [callStatement, openCall, readStatement]
    by_cases hmore : i < n
    · rw [if_pos hmore]
      show 128 ≤ n ∧ _ ∧ Holds (i + 1) (Function.update inp.termBuffer i 0) ed.line ∧
        ed.lines = (returned ++ []) ++ _
      rw [List.append_nil]
      refine ⟨hn, by omega, fun j h0 hj hlim => ?_, hlines⟩
      by_cases hji : j = i
      · rw [hji, Function.update_self, getD_beyond (by omega)]
      · rw [Function.update_of_ne hji]
        exact hholds j h0 (by omega) hlim
    · rw [if_neg hmore]
      show Holds bufferLimit inp.termBuffer ed.line ∧ ed.lines = (returned ++ []) ++ _
      rw [List.append_nil]
      refine ⟨fun j h0 hj hlim => hholds j h0 ?_ hlim, hlines⟩
      simp only [bufferLimit] at hj
      omega
  · obtain ⟨hholds, hlines⟩ := h
    refine Or.inl ⟨?_, hholds, hlines⟩
    show Function.update inp.enterPressed v 0 v = 0
    exact Function.update_self _ _ _
  · show 128 ≤ nbytes ∧ Offered v inp ed (returned ++ [])
    rw [List.append_nil]
    exact ⟨hn, h⟩

/-! ## A key -/

/-- Every key of the main block types a character. -/
theorem tables_nonzero : ∀ n : Fin 256, n.val < 0x59 → n.val ≠ 0 →
    isModifier (UInt8.ofNat n) = false → isIgnored (UInt8.ofNat n) = false →
    UInt8.ofNat n ≠ ctrlPressed → UInt8.ofNat n ≠ enterPressedCode →
    scanToAscii (UInt8.ofNat n) ≠ 0 ∧ scanToAsciiCaps (UInt8.ofNat n) ≠ 0 ∧
      scanToAsciiShift (UInt8.ofNat n) ≠ 0 := by
  decide +kernel

section KeyStep

variable {ed : Editor} {scanCode : UInt8}

theorem char_ne_zero (hchar : scanCode < charLimit) (hzero : scanCode ≠ 0)
    (hmod : isModifier scanCode = false) (hignored : isIgnored scanCode = false)
    (hctrl : scanCode ≠ ctrlPressed) (henter : scanCode ≠ enterPressedCode) :
    ed.char scanCode ≠ 0 := by
  have hcode : UInt8.ofNat scanCode.toNat = scanCode := UInt8.ofNat_toNat
  have htables := tables_nonzero ⟨scanCode.toNat, scanCode.toNat_lt⟩ hchar
    (fun h => hzero (UInt8.toNat_inj.mp h))
  simp only [hcode] at htables
  obtain ⟨hplain, hcaps, hshift⟩ := htables hmod hignored hctrl henter
  unfold Editor.char
  split
  · split
    · split
      · exact hplain
      · exact hcaps
    · exact hshift
  · split
    · exact hcaps
    · exact hplain

/-- No zero gets into a line. -/
theorem editor_chars (hcode : scanCode ≠ ctrlPressed) (hzero : scanCode ≠ 0)
    (h : ∀ c ∈ ed.line, c ≠ 0) : ∀ c ∈ (ed.key scanCode).line, c ≠ 0 := by
  by_cases hmod : isModifier scanCode = true
  · rcases isModifier_iff.mp hmod with hc | hc | (hc | hc) | (hc | hc) | hc | hc <;> subst hc <;>
      exact h
  have hnot := mt isModifier_iff.mpr hmod
  simp only [not_or] at hnot
  obtain ⟨hcaps, -, hshift, hshiftR, -, -⟩ := hnot
  rw [Editor.key, if_neg hcaps, if_neg (not_or.mpr hshift), if_neg (not_or.mpr hshiftR)]
  split
  · show ∀ c ∈ ite _ _ _, c ≠ 0
    split
    · intro c hc
      rcases List.mem_append.mp hc with hc | hc
      · exact h c hc
      · rw [List.eq_of_mem_replicate hc]
        decide
    · exact h
  split
  · exact h
  split
  · intro c hc
    cases hc
  split
  · split
    · exact h
    · exact fun c hc => h c (List.dropLast_subset _ hc)
  split
  · rename_i henter _ hchar
    intro c hc
    rcases List.mem_append.mp hc with hc | hc
    · exact h c hc
    · rw [List.mem_singleton.mp hc]
      exact char_ne_zero hchar.1 hzero (Bool.eq_false_iff.mpr hmod) hchar.2.1 hcode henter
  · exact h

theorem leavesAlone_iff {inp : Input} :
    leavesAlone inp scanCode = true ↔ isModifier scanCode = true ∨ isIgnored scanCode = true ∨
      scanCode = tabReleased ∨ (scanCode = tabPressed ∧ inp.tabFlag ≠ 0) ∨
      (scanCode = backspacePress ∧ (inp.shiftFlag = 1 ∨ inp.capsFlag ≠ 0)) := by
  simp only [leavesAlone, Bool.or_eq_true, Bool.and_eq_true, beq_iff_eq, bne_iff_ne, or_assoc]

/-- How much longer a key makes the line. -/
theorem editor_length (ed : Editor) (scanCode : UInt8) :
    ((ed.key scanCode).line.length : Int) ≤ ed.line.length + keyWidth scanCode := by
  have hpos : 0 ≤ keyWidth scanCode := by
    unfold keyWidth
    split <;> decide
  have hsame : (ed.line.length : Int) ≤ ed.line.length + keyWidth scanCode := by omega
  unfold Editor.key
  split
  · exact hsame
  split
  · exact hsame
  split
  · exact hsame
  split
  · rename_i htab
    rw [keyWidth, if_pos htab]
    show ((ite _ _ _ : List UInt8).length : Int) ≤ _
    split
    · rw [List.length_append, List.length_replicate]
      exact Int.le_refl _
    · show (ed.line.length : Int) ≤ ed.line.length + 4
      omega
  split
  · exact hsame
  split
  · show (0 : Int) ≤ _
    omega
  split
  · split
    · exact hsame
    · show (ed.line.dropLast.length : Int) ≤ _
      rw [List.length_dropLast]
      omega
  split
  · rename_i htab _ _ _ _
    rw [keyWidth, if_neg htab]
    show ((ed.line ++ [_]).length : Int) ≤ _
    rw [List.length_append]
    exact Int.le_refl _
  · exact hsame

/-- A key that is released, Backspace, and a key that leaves an empty line alone do not make the line
    longer. -/
theorem editor_shorter {inp : Input} (h : FlagsMatch inp.modifiers ed)
    (hkey : charLimit ≤ scanCode ∨ scanCode = backspacePress ∨ leavesAlone inp scanCode = true) :
    (ed.key scanCode).line.length ≤ ed.line.length := by
  unfold Editor.key
  split
  · exact Nat.le_refl _
  split
  · exact Nat.le_refl _
  split
  · exact Nat.le_refl _
  split
  · -- Tab, held already
    rename_i htab
    subst htab
    have htabFlag : inp.tabFlag = if ed.tab then 1 else 0 := h.tab
    have hheld : ed.tab = true := by
      rcases hkey with hkey | hkey | hkey
      · exact absurd hkey (by decide)
      · exact absurd hkey (by decide)
      · by_contra hnot
        rw [if_neg hnot] at htabFlag
        rcases leavesAlone_iff.mp hkey with hc | hc | hc | hc | hc
        · exact absurd hc (by decide)
        · exact absurd hc (by decide)
        · exact absurd hc (by decide)
        · exact hc.2 htabFlag
        · exact absurd hc.1 (by decide)
    show (ite _ _ _ : List UInt8).length ≤ _
    rw [hheld]
    exact Nat.le_refl _
  split
  · exact Nat.le_refl _
  split
  · exact Nat.zero_le _
  split
  · split
    · exact Nat.le_refl _
    · show ed.line.dropLast.length ≤ _
      rw [List.length_dropLast]
      omega
  split
  · rename_i hcaps hshift hshiftR htab htabR henter hback hchar
    exfalso
    rcases hkey with hkey | hkey | hkey
    · exact absurd hchar.1 (by simpa using hkey)
    · exact hback hkey
    · rcases leavesAlone_iff.mp hkey with hc | hc | hc | hc | hc
      · rcases isModifier_iff.mp hc with hc | hc | hc | hc | hc | hc
        · exact hcaps hc
        · exact absurd (hc ▸ hchar.1) (by decide)
        · exact hshift hc
        · exact hshiftR hc
        · exact hchar.2.2 hc
        · exact absurd (hc ▸ hchar.1) (by decide)
      · exact absurd hc (Bool.eq_false_iff.mp hchar.2.1)
      · exact htabR hc
      · exact htab hc.1
      · exact hback hc.1
  · exact Nat.le_refl _

/-- On an empty line: Backspace. -/
theorem backspace_effect {m : Modifiers} (hctrl : m.ctrl = 0) :
    lineEffect m 0 backspacePress =
      if m.shift = 1 then .keep else if m.caps = 0 then .clear else .keep := by
  have hne : m.ctrl ≠ 1 := by
    rw [hctrl]
    decide
  rw [lineEffect_type (by decide) (by decide) (by decide) (by decide) (by decide), typeEffect,
    if_neg hne]
  rfl

/-- On an empty line: a key that leaves it alone. -/
theorem leavesAlone_keep {inp : Input} (hctrl : inp.ctrlFlag = 0) (hcode : scanCode ≠ ctrlPressed)
    (h : leavesAlone inp scanCode = true) : keyEffect inp.modifiers 0 scanCode = .keep := by
  by_cases hmod : isModifier scanCode = true
  · exact if_pos hmod
  rw [keyEffect_line hmod hctrl hcode]
  rcases leavesAlone_iff.mp h with hc | hc | hc | ⟨hc, htab⟩ | ⟨hc, hflag⟩
  · exact absurd hc hmod
  · exact if_pos hc
  · subst hc
    rfl
  · subst hc
    show (if inp.tabFlag = 0 ∧ _ then LineEffect.spaces else .keep) = .keep
    exact if_neg fun hboth => htab hboth.1
  · subst hc
    rw [backspace_effect hctrl]
    split
    · rfl
    · rename_i hshift
      exact if_neg (hflag.resolve_left hshift)

/-- On an empty line: a key that is released, and Backspace. -/
theorem released_effect {inp : Input} (hctrl : inp.ctrlFlag = 0) (hcode : scanCode ≠ ctrlPressed)
    (h : charLimit ≤ scanCode ∨ scanCode = backspacePress) :
    keyEffect inp.modifiers 0 scanCode = .keep ∨ keyEffect inp.modifiers 0 scanCode = .clear ∨
      keyEffect inp.modifiers 0 scanCode = .release := by
  by_cases hmod : isModifier scanCode = true
  · exact Or.inl (if_pos hmod)
  rw [keyEffect_line hmod hctrl hcode]
  rcases h with hlimit | hback
  · have hnot : ¬ scanCode < charLimit := by simpa using hlimit
    have htab : scanCode ≠ tabPressed := fun hc => hnot (by rw [hc]; decide)
    have henter : scanCode ≠ enterPressedCode := fun hc => hnot (by rw [hc]; decide)
    rw [lineEffect, if_neg htab, if_neg henter, if_neg hnot]
    split
    · exact Or.inl rfl
    split
    · exact Or.inl rfl
    split
    · exact Or.inr (Or.inr rfl)
    · exact Or.inr (Or.inl rfl)
  · subst hback
    rw [backspace_effect hctrl]
    split
    · exact Or.inl rfl
    split
    · exact Or.inr (Or.inl rfl)
    · exact Or.inl rfl

/-- The Enter flag is only ever set by Enter. -/
theorem apply_enter {eff : LineEffect} (h : eff ≠ .newline) {l : LineState} (hl : l.enter = 0) :
    (eff.apply l).enter = 0 := by
  cases eff with
  | clear =>
    simp only [LineEffect.apply]
    split <;> exact hl
  | newline => exact absurd rfl h
  | release => rfl
  | keep | append | spaces | erase | restart => exact hl

theorem line_fits (inp : Input) (scanCode : UInt8) (hidx : inp.bufferIndex = ed.line.length) :
    (keyEffect inp.modifiers ed.line.length scanCode).Fits inp.bufferIndex := by
  rw [hidx]
  exact keyEffect_fits inp.modifiers (Int.natCast_nonneg ed.line.length) scanCode

/-- The keyboard's part of the step lemma, before the reader has come to the line. -/
theorem Offered.key {v : Fin 3} {inp inp' : Input} {returned : List (List UInt8)}
    (h : Offered v inp ed returned) (hflags : FlagsMatch inp.modifiers ed)
    (hidx : inp.bufferIndex = ed.line.length) (hshort : ed.line.length ≤ 127)
    (hchars : ∀ c ∈ ed.line, c ≠ 0) (hcode : scanCode ≠ ctrlPressed)
    (hsafe : inp.enterPressed v ≠ 0 → leavesAlone inp scanCode = true)
    (hline : inp'.lineState v =
      (keyEffect inp.modifiers ed.line.length scanCode).apply (inp.lineState v)) :
    Offered v inp' (ed.key scanCode) returned := by
  have htyped := editor_line hflags hcode hshort
  have hrestart := keyEffect_not_restart hflags.ctrl hcode ed.line.length
  have hnewline := keyEffect_newline_iff hflags.ctrl hcode ed.line.length
  have hlines := editor_lines ed scanCode
  have hbuf : inp'.termBuffer = _ := congrArg LineState.buffer hline
  have henter : inp'.enterPressed v = _ := congrArg LineState.enter hline
  have hfits := line_fits inp scanCode hidx
  rcases h with ⟨hflag, hholds, hall⟩ | ⟨hflag, hempty, line, hdone, hall, hholds⟩
  · by_cases hkey : scanCode = enterPressedCode
    · -- the line is complete: its newline goes behind it, and it is offered
      have heff := hnewline.mpr hkey
      rw [heff] at hbuf henter htyped
      rw [if_pos hkey] at hlines
      refine Or.inr ⟨?_, htyped, ed.line ++ [10], ⟨?_, ?_⟩, ?_, ?_⟩
      · rw [henter]
        exact (show (1 : UInt8) ≠ 0 by decide)
      · rw [List.length_append, List.length_singleton]
        omega
      · intro c hc
        rcases List.mem_append.mp hc with hc | hc
        · exact hchars c hc
        · rw [List.mem_singleton.mp hc]
          decide
      · rw [hlines, hall]
      · rw [hbuf]
        exact hholds.update_append hidx 10
    · have hne := mt hnewline.mp hkey
      rw [if_neg hkey] at hlines
      refine Or.inl ⟨?_, ?_, hlines.trans hall⟩
      · rw [henter]
        exact apply_enter hne hflag
      · rw [hbuf, htyped]
        exact hholds.apply hidx hfits hne hrestart
  · -- a line is offered, and the key leaves it alone
    have hkeep : keyEffect inp.modifiers ed.line.length scanCode = .keep := by
      rw [hempty]
      exact leavesAlone_keep hflags.ctrl hcode (hsafe hflag)
    rw [hkeep] at hbuf henter htyped hnewline
    have hkey : scanCode ≠ enterPressedCode := fun heq => nomatch hnewline.mpr heq
    rw [if_neg hkey] at hlines
    refine Or.inr ⟨?_, htyped.trans hempty, line, hdone, hlines.trans hall, ?_⟩
    · rw [henter]
      exact hflag
    · rw [hbuf]
      exact hholds

/-- **The keyboard's part of the step lemma.** -/
theorem Stage.key {v : Fin 3} {inp inp' : Input} {returned : List (List UInt8)}
    {call : Option ReadCall} (h : Stage v inp ed returned call) (hflags : FlagsMatch inp.modifiers ed)
    (hidx : inp.bufferIndex = ed.line.length) (hshort : ed.line.length ≤ 127)
    (hchars : ∀ c ∈ ed.line, c ≠ 0) (hcode : scanCode ≠ ctrlPressed)
    (hsafe : safeKey v inp scanCode call)
    (hline : inp'.lineState v =
      (keyEffect inp.modifiers ed.line.length scanCode).apply (inp.lineState v)) :
    Stage v inp' (ed.key scanCode) returned call := by
  have htyped := editor_line hflags hcode hshort
  have hrestart := keyEffect_not_restart hflags.ctrl hcode ed.line.length
  have hnewline := keyEffect_newline_iff hflags.ctrl hcode ed.line.length
  have hlines := editor_lines ed scanCode
  have hbuf : inp'.termBuffer = _ := congrArg LineState.buffer hline
  have hfits := line_fits inp scanCode hidx
  rcases call with _ | ⟨n, _ | ⟨i, buf⟩ | ⟨i, k, buf⟩ | ⟨k, buf⟩ | ⟨k, buf⟩⟩
  · exact Offered.key h hflags hidx hshort hchars hcode hsafe hline
  · exact ⟨h.1, h.2.key hflags hidx hshort hchars hcode hsafe hline⟩
  · obtain ⟨hn, hempty, line, hdone, hall, h0, hi, hcopied, hrest⟩ := h
    -- on the empty line the key does nothing, or clears the flag, or a byte that has been copied
    have heff : keyEffect inp.modifiers ed.line.length scanCode = .keep ∨
        keyEffect inp.modifiers ed.line.length scanCode = .release ∨
        (0 < i ∧ keyEffect inp.modifiers ed.line.length scanCode = .clear) := by
      rw [hempty]
      rcases hsafe with hsafe | hsafe | ⟨hpos, hsafe⟩
      · exact Or.inl (leavesAlone_keep hflags.ctrl hcode hsafe)
      · subst hsafe
        rw [keyEffect_line (by decide) hflags.ctrl hcode]
        exact Or.inr (Or.inl rfl)
      · rcases released_effect hflags.ctrl hcode hsafe with heff | heff | heff
        · exact Or.inl heff
        · exact Or.inr (Or.inr ⟨hpos, heff⟩)
        · exact Or.inr (Or.inl heff)
    have hkey : scanCode ≠ enterPressedCode := fun heq => by
      rw [hnewline.mpr heq] at heff
      exact absurd heff (by simp)
    rw [if_neg hkey] at hlines
    have hcase : (ed.key scanCode).line = [] ∧
        ∀ j, i ≤ j → j < bufferLimit → inp'.termBuffer j = inp.termBuffer j := by
      rw [hbuf, htyped]
      rcases heff with heff | heff | ⟨hpos, heff⟩ <;> rw [heff]
      · exact ⟨hempty, fun j _ _ => rfl⟩
      · exact ⟨hempty, fun j _ _ => rfl⟩
      · refine ⟨hempty, fun j hj _ => ?_⟩
        simp only [LineEffect.apply]
        split
        · exact Function.update_of_ne (by omega) _ _
        · rfl
    exact ⟨hn, hcase.1, line, hdone, hlines.trans hall, h0, hi, hcopied,
      fun j hj hlim => (hcase.2 j hj hlim).trans (hrest j hj hlim)⟩
  · obtain ⟨hn, hlen, hholds, hall⟩ := h
    obtain ⟨hkey, hroom⟩ := hsafe
    have hlen' : ((ed.key scanCode).line.length : Int) ≤ i := by
      have hlonger := editor_length ed scanCode
      have hshorter : _ → (ed.key scanCode).line.length ≤ ed.line.length := editor_shorter hflags
      rcases hroom with hroom | hroom | hroom | hroom
      · have := hshorter (Or.inl hroom)
        omega
      · have := hshorter (Or.inr (Or.inl hroom))
        omega
      · have := hshorter (Or.inr (Or.inr hroom))
        omega
      · omega
    rw [if_neg hkey] at hlines
    refine ⟨hn, hlen', ?_, hlines.trans hall⟩
    rw [hbuf, htyped]
    exact hholds.apply hidx hfits (mt hnewline.mp hkey) hrestart
  · obtain ⟨hholds, hall⟩ := h
    have hkey : scanCode ≠ enterPressedCode := hsafe
    rw [if_neg hkey] at hlines
    refine ⟨?_, hlines.trans hall⟩
    rw [hbuf, htyped]
    exact hholds.apply hidx hfits (mt hnewline.mp hkey) hrestart
  · exact Offered.key h hflags hidx hshort hchars hcode hsafe hline

end KeyStep

/-! ## Steps and runs -/

/-- The processes of other terminals wait, and change nothing. -/
theorem waiting_statement {s : Fin 3} (v : Fin 3) {inp : Input} {call : Option ReadCall} (nbytes : Int)
    (hflag : inp.enterPressed s = 0) (hcall : ∀ c, openCall call = some c → c.pc = .wait) :
    (callStatement s v nbytes inp call).1 = inp ∧ (callStatement s v nbytes inp call).2.pc = .wait := by
  unfold callStatement
  generalize openCall call = c at hcall
  cases c with
  | none => exact ⟨rfl, rfl⟩
  | some c =>
    show (readStatement s v c.nbytes inp c.pc).1 = inp ∧ (readStatement s v c.nbytes inp c.pc).2 = _
    rw [hcall c rfl, readStatement, if_pos hflag]
    exact ⟨rfl, rfl⟩

theorem openCall_wait {c c' : ReadCall} (h : c.pc = .wait) (hc : openCall (some c) = some c') :
    c'.pc = .wait := by
  obtain ⟨n, pc⟩ := c
  obtain rfl : pc = .wait := h
  rw [← Option.some.inj hc]

theorem keyboardHandler_quiet (disk : Disk) (fr : Frame) {scanCode : UInt8} {k : Kernel}
    (h : (keyboardInput k.visibleTerm k.input scanCode).2.quiet = true) :
    (keyboardHandler disk fr scanCode k).visibleTerm = k.visibleTerm ∧
      (keyboardHandler disk fr scanCode k).input = (keyboardInput k.visibleTerm k.input scanCode).1 ∧
      kills k scanCode = false := by
  have hkills : kills k scanCode = false := decide_eq_false fun hhalt => by
    rw [hhalt] at h
    cases h
  obtain ⟨-, ⟨hv, hi⟩ | ⟨n, hswitch, -⟩⟩ := keyboardHandler_input disk fr scanCode k
  · exact ⟨hv, hi, hkills⟩
  · rw [hswitch] at h
    cases h

/-- **The step lemma.** -/
theorem LinesInv.step {disk : Disk} {v : Fin 3} {r r' : LineRun} {e : InputEvent} (h : LinesInv v r)
    (hin : inQuestion v r e) (hgood : handsOver v r e) (hstep : lineStep disk v r e = some r') :
    LinesInv v r' := by
  obtain rfl := Option.some.inj hstep
  cases e with
  | key scanCode fr =>
    obtain ⟨hzero, hcode, hshort⟩ := hin
    obtain ⟨hwrap, hsafe⟩ := hgood
    have hidx := h.index
    have hroom : r.session.kernel.input.bufferIndex < bufferLimit := by
      have hlen := h.short
      simp only [bufferLimit]
      omega
    obtain ⟨hquiet, hflags⟩ := h.flags.key r.session.kernel.visibleTerm hcode
    obtain ⟨hv, hi, hkills⟩ := keyboardHandler_quiet disk fr hquiet
    have hline := keyboardInput_line r.session.kernel.visibleTerm (by omega) (Int.le_of_lt hroom) hwrap
    obtain ⟨-, -, hothers⟩ :=
      keyboardInput_saved r.session.kernel.visibleTerm r.session.kernel.input scanCode
    have htyped := editor_line h.flags hcode h.short
    have hrestart := keyEffect_not_restart h.flags.ctrl hcode r.editor.line.length
    have hcalls : (r.session.next disk (.key scanCode fr)).calls = r.session.calls :=
      if_neg (by rw [hkills]; decide)
    show LinesOk v (keyboardHandler disk fr scanCode r.session.kernel).visibleTerm
      (keyboardHandler disk fr scanCode r.session.kernel).input
      (r.session.next disk (.key scanCode fr)).calls (r.editor.key scanCode) (r.returned ++ [])
    rw [hv, hi, hcalls, List.append_nil]
    rw [h.visible] at hflags hline hothers ⊢
    rw [hidx] at hline
    have hlength := congrArg LineState.index hline
    refine ⟨rfl, hflags, ?_, hshort, editor_chars hcode hzero h.chars, fun u hu => ?_, h.othersCall,
      h.stage.key h.flags hidx h.short h.chars hcode hsafe hline⟩
    · rw [htyped]
      exact hlength.trans (apply_length hidx (line_fits _ scanCode hidx) hrestart)
    · exact (hothers u hu).trans (h.othersFlag u hu)
  | tick esp ebp fr =>
    obtain ⟨-, hv, hi⟩ := scheduler_input disk esp ebp fr r.session.kernel
    show LinesOk v (scheduler disk esp ebp fr r.session.kernel).1.visibleTerm
      (scheduler disk esp ebp fr r.session.kernel).1.input r.session.calls r.editor (r.returned ++ [])
    rw [hv, hi, List.append_nil]
    exact h
  | switchTerminal n => exact absurd hin id
  | statement nbytes =>
    obtain ⟨⟨k, calls⟩, ed, returned⟩ := r
    show LinesOk v k.visibleTerm
      (callStatement k.schedTerm k.visibleTerm nbytes k.input (calls k.schedTerm)).1
      (Function.update calls k.schedTerm
        (some (callStatement k.schedTerm k.visibleTerm nbytes k.input (calls k.schedTerm)).2)) ed
      (returned ++ (if k.schedTerm = v
        then [(callStatement v k.visibleTerm nbytes k.input (calls v)).2.pc.observed]
        else []).filterMap Observed.bytes)
    have hvisible : k.visibleTerm = v := h.visible
    by_cases hs : k.schedTerm = v
    · have hstage := h.stage.statement (hin hs)
      rw [if_pos hs, hs, hvisible]
      obtain ⟨hmods, hindex, -, -, hothers⟩ := callStatement_kept v v nbytes k.input (calls v)
      refine ⟨rfl, hmods ▸ h.flags, hindex.trans h.index, h.short, h.chars,
        fun u hu => (hothers u hu).trans (h.othersFlag u hu), fun u hu => ?_, ?_⟩
      · rw [Function.update_of_ne hu]
        exact h.othersCall u hu
      · rw [Function.update_self]
        exact hstage
    · obtain ⟨hsame, hwait⟩ := waiting_statement k.visibleTerm nbytes (h.othersFlag _ hs)
        (h.othersCall _ hs)
      rw [if_neg hs, hsame, List.filterMap_nil, List.append_nil]
      refine ⟨hvisible, h.flags, h.index, h.short, h.chars, h.othersFlag, fun u hu c hc => ?_, ?_⟩
      · by_cases hu' : u = k.schedTerm
        · rw [hu', Function.update_self] at hc
          exact openCall_wait hwait hc
        · rw [Function.update_of_ne hu'] at hc
          exact h.othersCall u hu c hc
      · rw [Function.update_of_ne (Ne.symm hs)]
        exact h.stage

theorem boot_idle (disk : Disk) (pw : PowerOn) (fr : Frame) : Idle 0 (boot disk pw fr).1 := by
  obtain ⟨-, hv, hi⟩ := boot_input disk pw fr
  refine ⟨hv, ?_, ?_, ?_, ?_, fun i h0 h1 => ?_, ?_, fun u => ?_⟩ <;> rw [hi]
  · rfl
  · rfl
  · rfl
  · rfl
  · exact if_pos ⟨h0, h1⟩
  · rfl
  · rfl

theorem start_linesInv {v : Fin 3} {k : Kernel} (h : Idle v k) : LinesInv v (startRun k) where
  visible := h.visible
  flags := ⟨h.caps, h.shift, h.ctrl, h.tab⟩
  index := h.index
  short := Nat.zero_le _
  chars := fun c hc => nomatch hc
  othersFlag u _ := h.enter u
  othersCall u _ c hc := nomatch hc
  stage := Or.inl ⟨h.enter v, fun j h0 _ hlim => h.buffer j h0 hlim, rfl⟩

/-- **No line is lost or mixed** along any run, from any idle state, in which no key comes between a
    completed line and its reader, `line_flag` does not wrap and the reader asks for 128 bytes: in
    every state the lines that have been returned are the first of those that have been typed. -/
theorem lines_read_in_order (disk : Disk) {v : Fin 3} {k : Kernel} (hidle : Idle v k)
    {es : List InputEvent} (hin : Along (lineStep disk v) (inQuestion v) (startRun k) es)
    (hgood : Along (lineStep disk v) (handsOver v) (startRun k) es) :
    Throughout (lineStep disk v) ReadInOrder (startRun k) es := by
  refine throughout_mono (fun r (h : LinesInv v r) => h.inOrder) ?_
  refine throughout_of_along (fun r e r' h hboth hstep => ?_) (start_linesInv hidle)
    (along_and hin hgood)
  exact LinesInv.step h hboth.1 hboth.2 hstep

/-- `a` and Enter, a whole read, and only then the release of Enter. -/
def slowTyping : List InputEvent :=
  [.key 0x1E blankFrame, .key 0x1C blankFrame] ++ List.replicate 135 (.statement 128) ++
    [.key 0x9C blankFrame]

theorem slow_typing_is_read :
    Throughout (lineStep smallDisk 0) ReadInOrder
      (startRun (boot smallDisk blankMemory blankFrame).1) slowTyping :=
  lines_read_in_order smallDisk (boot_idle smallDisk blankMemory blankFrame) (by decide +kernel)
    (by decide +kernel)

/-- `a` and Enter, Enter released before the reader's time slice; then `b`, Enter and a read. -/
def quickTyping : List InputEvent :=
  [.key 0x1E blankFrame, .key 0x1C blankFrame, .key 0x9C blankFrame, .key 0x30 blankFrame,
    .key 0x1C blankFrame] ++ List.replicate 135 (.statement 128)

/-- The first line is lost: the first line that is returned is the second one typed. -/
theorem quick_typing_loses_line :
    let start := startRun (boot smallDisk blankMemory blankFrame).1
    Along (lineStep smallDisk 0) (inQuestion 0) start quickTyping ∧
      ¬ Throughout (lineStep smallDisk 0) ReadInOrder start quickTyping := by
  refine ⟨by decide +kernel, fun h => ?_⟩
  have hend : (run (lineStep smallDisk 0) (startRun (boot smallDisk blankMemory blankFrame).1)
      quickTyping).map (fun r => (r.returned, r.editor.lines)) =
        some ([[98, 10]], [[97, 10], [98, 10]]) := by
    decide +kernel
  obtain ⟨r, hr, hfields⟩ := Option.map_eq_some_iff.mp hend
  obtain ⟨hreturned, hlines⟩ := Prod.mk.inj hfields
  have horder : ReadInOrder r := throughout_last h hr
  rw [ReadInOrder, hreturned, hlines] at horder
  exact absurd horder (by decide)

end ByteVerse
