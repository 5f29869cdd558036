/-
  `keyboard.c`: the keyboard handler, the shared line buffer, and `terminal_read`.

  The handler works on the globals of `keyboard.c` (`Input`) and calls four functions of other
  files: `putck`/`printfk` (echo), `cleark`, `switch_terminal` and `halt`.  The model splits it
  the same way: `keyboardInput` is what one scan code does to the globals, and the `KeyAction` it
  returns is the one call it makes.  None of the callees looks at what the handler changes after
  calling it, so the order of the two does not matter; `halt` does not come back at all.

  There is ONE `term_buffer` and one `buffer_index`, for whichever terminal is visible;
  `switch_terminal` swaps them against the saved ones (`switchInput`).
-/
import ByteVerse.Kernel

set_option linter.unusedVariables false

namespace ByteVerse

/-! ## Scan codes of `keyboard.h` -/

@[simp] def charLimit : UInt8 := 0x59
@[simp] def tabSize : Int := 4
@[simp] def capsPressed : UInt8 := 0x3A
@[simp] def ctrlPressed : UInt8 := 0x1D
@[simp] def ctrlReleased : UInt8 := 0x9D
@[simp] def rShiftPressed : UInt8 := 0x2A
@[simp] def lShiftPressed : UInt8 := 0x36
@[simp] def rShiftReleased : UInt8 := 0xAA
@[simp] def lShiftReleased : UInt8 := 0xB6
@[simp] def tabPressed : UInt8 := 0x0F
@[simp] def tabReleased : UInt8 := 0x8F
@[simp] def enterPressedCode : UInt8 := 0x1C
@[simp] def enterReleasedCode : UInt8 := 0x9C
@[simp] def lKeyPress : UInt8 := 0x26
@[simp] def cKeyPress : UInt8 := 0x2E
@[simp] def backspacePress : UInt8 := 0x0E
@[simp] def f1P : UInt8 := 0x3B
@[simp] def f2P : UInt8 := 0x3C
@[simp] def f3P : UInt8 := 0x3D
@[simp] def f12P : UInt8 := 0x58
@[simp] def f1R : UInt8 := 0xBB
@[simp] def f12R : UInt8 := 0xD8
@[simp] def escapePressed : UInt8 := 0x01
@[simp] def escapeReleased : UInt8 := 0x81
@[simp] def leftAltPressed : UInt8 := 0x38
@[simp] def leftAltReleased : UInt8 := 0xB8

/-- The key tables, as initialised; the rest of their 0x59 entries is zero. -/
def scanToAsciiTable : List UInt8 :=
  [0, 0, 49, 50, 51, 52, 53, 54, 55, 56, 57, 48,
   45, 61, 8, 9, 113, 119, 101, 114, 116, 121, 117, 105,
   111, 112, 91, 93, 0, 0, 97, 115, 100, 102, 103, 104,
   106, 107, 108, 59, 39, 96, 0, 92, 122, 120, 99, 118,
   98, 110, 109, 44, 46, 47, 0, 42, 0, 32, 0]

def scanToAsciiCapsTable : List UInt8 :=
  [0, 0, 49, 50, 51, 52, 53, 54, 55, 56, 57, 48,
   45, 61, 8, 9, 81, 87, 69, 82, 84, 89, 85, 73,
   79, 80, 91, 93, 0, 0, 65, 83, 68, 70, 71, 72,
   74, 75, 76, 59, 39, 96, 0, 92, 90, 88, 67, 86,
   66, 78, 77, 44, 46, 47, 0, 42, 0, 32, 0]

def scanToAsciiShiftTable : List UInt8 :=
  [0, 0, 33, 64, 35, 36, 37, 94, 38, 42, 40, 41,
   95, 43, 8, 9, 81, 87, 69, 82, 84, 89, 85, 73,
   79, 80, 123, 125, 0, 0, 65, 83, 68, 70, 71, 72,
   74, 75, 76, 58, 34, 126, 0, 124, 90, 88, 67, 86,
   66, 78, 77, 60, 62, 63, 0, 42, 0, 32, 0]

def scanToAscii (scanCode : UInt8) : UInt8 := scanToAsciiTable.getD scanCode.toNat 0
def scanToAsciiCaps (scanCode : UInt8) : UInt8 := scanToAsciiCapsTable.getD scanCode.toNat 0
def scanToAsciiShift (scanCode : UInt8) : UInt8 := scanToAsciiShiftTable.getD scanCode.toNat 0

/-- The three ranges `Q .. P`, `A .. L`, `Z .. M` of the handler's letter test. -/
def isLetter (scanCode : UInt8) : Bool :=
  (0x10 ≤ scanCode && scanCode ≤ 0x19) || (0x1E ≤ scanCode && scanCode ≤ 0x26) ||
    (0x2C ≤ scanCode && scanCode ≤ 0x32)

/-! ## The handler -/

/-- The call into another file that one key event makes. -/
inductive KeyAction
  | nothing
  | echo (cs : List UInt8)
  | cleark
  | switchTerminal (terminalNumber : Fin 3)
  | halt
  deriving DecidableEq

/-- `term_buffer[buffer_index++] = c`, then the terminator when there is room for it. -/
def appendChar (inp : Input) (c : UInt8) : Input :=
  let buf := Function.update inp.termBuffer inp.bufferIndex c
  let idx := inp.bufferIndex + 1
  { inp with
    termBuffer := if idx < bufferLimit then Function.update buf idx 0 else buf
    bufferIndex := idx }

/-- The erase of the two not-full Backspace branches. -/
def eraseChar (inp : Input) : Input :=
  let idx := inp.bufferIndex - 1
  { inp with
    bufferIndex := idx
    termBuffer := Function.update inp.termBuffer idx 0
    lineFlag := inp.lineFlag - 1 }

/-- The last statement of the handler, for the paths that reach it. -/
def clearIfEmpty (inp : Input) : Input :=
  if inp.bufferIndex = 0 then { inp with termBuffer := Function.update inp.termBuffer 0 0 } else inp

/-- Tab pressed: four spaces when they fit, once per press. -/
def tabKey (inp : Input) : Input × KeyAction :=
  if inp.tabFlag = 0 then
    let inp := { inp with tabFlag := 1 }
    if inp.bufferIndex + tabSize < bufferLimit then
      let i := inp.bufferIndex
      let buf := Function.update (Function.update (Function.update (Function.update inp.termBuffer
        i 32) (i + 1) 32) (i + 2) 32) (i + 3) 32
      let idx := i + tabSize
      ({ inp with bufferIndex := idx, termBuffer := Function.update buf idx 0 },
        .echo [32, 32, 32, 32])
    else (inp, .nothing)
  else (inp, .nothing)

/-- Enter pressed: the newline goes behind the line, and the line is offered to the reader. -/
def enterKey (v : Fin 3) (inp : Input) : Input × KeyAction :=
  ({ inp with
     termBuffer := Function.update inp.termBuffer inp.bufferIndex 10
     lineFlag := 0
     bufferIndex := 0
     enterPressed := Function.update inp.enterPressed v 1 }, .echo [10])

/-- The branch `buffer_index < BUFFER_LIMIT`. -/
def typeKey (inp : Input) (scanCode : UInt8) : Input × KeyAction :=
  let inp := { inp with lineFlag := inp.lineFlag + 1 }
  if inp.shiftFlag = 1 then
    if scanCode = backspacePress then (inp, .nothing)
    else if isLetter scanCode then
      -- Caps Lock is inverted around the choice of the table
      let c := if ~~~inp.capsFlag = 0 then scanToAscii scanCode else scanToAsciiCaps scanCode
      (appendChar inp c, .echo [c])
    else
      let c := scanToAsciiShift scanCode
      (appendChar inp c, .echo [c])
  else if inp.ctrlFlag = 1 then
    if scanCode = lKeyPress then
      ({ inp with lineFlag := 0, bufferIndex := 0, shiftFlag := 0 }, .cleark)
    else if scanCode = cKeyPress then (inp, .halt)
    else ({ inp with shiftFlag := 0 }, .nothing)
  else if inp.capsFlag = 0 ∧ scanCode ≠ backspacePress then
    let c := scanToAscii scanCode
    (clearIfEmpty (appendChar inp c), .echo [c])
  else if inp.capsFlag ≠ 0 ∧ scanCode ≠ capsPressed ∧ inp.lineFlag > 0 then
    if scanCode = backspacePress then
      if inp.bufferIndex > 0 then (eraseChar inp, .echo [scanToAsciiCaps scanCode])
      else (inp, .nothing)
    else
      let c := scanToAsciiCaps scanCode
      (clearIfEmpty (appendChar inp c), .echo [c])
  else if scanCode = backspacePress ∧ inp.lineFlag > 0 ∧ inp.bufferIndex > 0 then
    (clearIfEmpty (eraseChar inp), .echo [scanToAscii scanCode])
  else (clearIfEmpty inp, .nothing)

/-- The branch of a full buffer. -/
def fullKey (inp : Input) (scanCode : UInt8) : Input × KeyAction :=
  if scanCode = backspacePress then
    let idx := inp.bufferIndex - 1
    let buf := if idx < bufferLimit then Function.update inp.termBuffer idx 0 else inp.termBuffer
    (clearIfEmpty { inp with bufferIndex := idx, termBuffer := buf, lineFlag := inp.lineFlag - 1 },
      .echo [scanToAscii scanCode])
  else if inp.ctrlFlag = 1 then
    if scanCode = lKeyPress then (clearIfEmpty { inp with lineFlag := 0, bufferIndex := 0 }, .cleark)
    else if scanCode = cKeyPress then (inp, .halt)
    else (clearIfEmpty inp, .nothing)
  else (clearIfEmpty inp, .nothing)

/-- The keys the handler ignores after the switch: F1 .. F12 and Escape, pressed or released. -/
def isIgnored (scanCode : UInt8) : Bool :=
  (f1P ≤ scanCode && scanCode ≤ f12P) || (f1R ≤ scanCode && scanCode ≤ f12R) ||
    scanCode == escapePressed || scanCode == escapeReleased

/-- The handler from the test for function keys on. -/
def lineKey (v : Fin 3) (inp : Input) (scanCode : UInt8) : Input × KeyAction :=
  if isIgnored scanCode then (inp, .nothing)
  else if scanCode = tabPressed then tabKey inp
  else if scanCode = tabReleased then ({ inp with tabFlag := 0 }, .nothing)
  else if scanCode = enterPressedCode then enterKey v inp
  else if scanCode = enterReleasedCode then
    ({ inp with enterPressed := Function.update inp.enterPressed v 0 }, .nothing)
  else if scanCode < charLimit then
    if inp.bufferIndex < bufferLimit then typeKey inp scanCode else fullKey inp scanCode
  else (clearIfEmpty inp, .nothing)

/-- The two cases of the handler's `switch` that break out of it instead of returning. -/
def pressModifier (inp : Input) (scanCode : UInt8) : Input :=
  if scanCode = ctrlPressed then { inp with ctrlFlag := 1 }
  else if scanCode = f1P ∨ scanCode = f2P ∨ scanCode = f3P then { inp with fKeyPressed := 1 }
  else inp

/-- `keyboard_handler` on the keyboard's own globals, with terminal `v` visible. -/
def keyboardInput (v : Fin 3) (inp : Input) (scanCode : UInt8) : Input × KeyAction :=
  if scanCode = capsPressed then ({ inp with capsFlag := ~~~inp.capsFlag }, .nothing)
  else if scanCode = ctrlReleased then ({ inp with ctrlFlag := 0 }, .nothing)
  else if scanCode = rShiftPressed ∨ scanCode = lShiftPressed then
    ({ inp with shiftFlag := 1 }, .nothing)
  else if scanCode = rShiftReleased ∨ scanCode = lShiftReleased then
    ({ inp with shiftFlag := 0 }, .nothing)
  else if scanCode = leftAltPressed then ({ inp with altFlag := 1 }, .nothing)
  else if scanCode = leftAltReleased then ({ inp with altFlag := 0 }, .nothing)
  else
    let inp := pressModifier inp scanCode
    if inp.ctrlFlag ≠ 0 ∧ inp.altFlag ≠ 0 ∧ inp.fKeyPressed ≠ 0 then
      let inp := { inp with fKeyPressed := 0 }
      -- `terminalNumber = scan_code - F_1_P` as an `int8_t` is 0, 1 or 2 for these codes only;
      -- after the switch the handler returns at the test for function keys
      if scanCode = f1P then (inp, .switchTerminal 0)
      else if scanCode = f2P then (inp, .switchTerminal 1)
      else if scanCode = f3P then (inp, .switchTerminal 2)
      else (inp, .nothing)
    else lineKey v inp scanCode

/-! ## The reader and the terminal switch -/

/-- The copy loop of `terminal_read` from index `i` on: `bytes_read` and the bytes stored in
    `buf[i ..]` (the byte that ends the line is stored too). -/
def terminalReadLoop (termBuffer : Int → UInt8) (nbytes : Int) : Nat → Int → Int × List UInt8
  | 0, i => (i, [])
  | fuel + 1, i =>
    if i < nbytes then
      let c := termBuffer i
      if i = bufferLimit ∨ c = 0 then (i, [c])
      else
        let rest := terminalReadLoop termBuffer nbytes fuel (i + 1)
        (rest.1, c :: rest.2)
    else (i, [])

/-- The longest read whose clearing loop is taken to hit nothing that matters beyond the keyboard's own
    data: the programs' buffers have this size.  (In the built image the 128 bytes of the buffer are
    followed by three flags of the keyboard, two variables that nothing reads, and the end of the
    kernel's data; then come the file-system image and, in the end, the PCBs.) -/
@[simp] def clearedRoom : Int := 1024

/-- `terminal_read` called with `s` scheduled and `v` visible, from one look at the flag on:
    `none` while it waits; otherwise the globals after it, `bytes_read` and what it stored. -/
def terminalRead (s v : Fin 3) (nbytes : Int) (inp : Input) : Option (Input × Int × List UInt8) :=
  if inp.enterPressed s = 0 then none
  else
    let result := terminalReadLoop inp.termBuffer nbytes nbytes.toNat 0
    some ({ inp with
            termBuffer := fun i => if 0 ≤ i ∧ i < nbytes then 0 else inp.termBuffer i
            enterPressed := Function.update inp.enterPressed v 0 }, result)

theorem terminalRead_eq_none {s v : Fin 3} {nbytes : Int} {inp : Input} :
    terminalRead s v nbytes inp = none ↔ inp.enterPressed s = 0 := by
  unfold terminalRead
  split
  · rename_i hflag
    exact iff_of_true rfl hflag
  · rename_i hflag
    exact iff_of_false nofun hflag

/-- A read that returns: the flag was set, and the buffer is cleared as far as was asked for. -/
theorem terminalRead_eq_some {s v : Fin 3} {nbytes : Int} {inp inp' : Input} {r : Int × List UInt8}
    (h : terminalRead s v nbytes inp = some (inp', r)) :
    inp.enterPressed s ≠ 0 ∧ r = terminalReadLoop inp.termBuffer nbytes nbytes.toNat 0 ∧
      inp' = { inp with
        termBuffer := fun i => if 0 ≤ i ∧ i < nbytes then 0 else inp.termBuffer i
        enterPressed := Function.update inp.enterPressed v 0 } := by
  unfold terminalRead at h
  split at h
  · cases h
  · rename_i hflag
    obtain ⟨rfl, rfl⟩ := Prod.mk.inj (Option.some.inj h)
    exact ⟨hflag, rfl, rfl⟩

/-- The line buffer's part of `switch_terminal`, from visible terminal `v` to `n ≠ v`. -/
def switchInput (v n : Fin 3) (inp : Input) : Input :=
  let saved := fun i => if 0 ≤ i ∧ i < bufferLimit then inp.termBuffer i else inp.readBuffer v i
  let readBuffer := Function.update inp.readBuffer v saved
  let rbIdx := Function.update inp.rbIdx v (inp.bufferIndex % 256)
  { inp with
    rbIdx := rbIdx
    readBuffer := readBuffer
    bufferIndex := rbIdx n
    termBuffer := fun i => if 0 ≤ i ∧ i < bufferLimit then readBuffer n i else inp.termBuffer i
    rFlag := Function.update (Function.update inp.rFlag v 0) n 1 }

end ByteVerse
