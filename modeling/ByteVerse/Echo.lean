/-
  What is on the screen is what is in the buffer.

  `keyboard_handler` keeps two copies of the line that is being typed: the characters
  `term_buffer[0 .. buffer_index)` and their echo on the visible screen.  `KeyEcho` relates what a key
  does to the one with the call it makes for the other, branch by branch; `Shows` says that the
  screen holds a line from some cell on with the cursor behind it, and each call keeps that up.  So
  after every key the two agree (`echo_agrees`).

  The line starts in some cell, its line start, which a scroll moves up by one row; Enter and Ctrl+L
  start a new line.  At most 128 characters are held, less than two rows, so a scroll never moves the
  line start off the screen.
-/
import ByteVerse.Cells
import ByteVerse.Display
import ByteVerse.Line

set_option linter.unusedVariables false

namespace ByteVerse

open Run

/-! ## The line on the screen -/

/-- The screen holds `chars` from cell `start` on, and the cursor is behind it. -/
structure Shows (v : Fin 3) (con : Console) (start : Int) (chars : List UInt8) : Prop where
  mapped : EchoMapped con
  cursorOk : CursorOk con v
  onScreen : 0 ≤ start
  cursor : cursorCell con v = start + chars.length
  text : ∀ i (h : i < chars.length), screenChar con (start + i) = chars[i]

/-- The number of cells by which a text scrolls the screen. -/
def scrolledCells (s v : Fin 3) : List UInt8 → Console → Int
  | [], _ => 0
  | c :: cs, con => scrolledBy v c con + scrolledCells s v cs (putck s v c con)

section Shows

variable {s v : Fin 3} {con : Console} {start : Int} {chars : List UInt8}

/-- Only behind the last cell of the screen does a plain character scroll. -/
theorem scrolledBy_cases {c : UInt8} (hc : isPlain c = true) (hok : CursorOk con v) :
    scrolledBy v c con = 0 ∨ scrolledBy v c con = numCols ∧ cursorCell con v = 2000 := by
  obtain ⟨hx, hx', hy, hy'⟩ := hok
  rw [scrolledBy_plain hc]
  by_cases hend : con.screenX v ≥ numCols ∧ con.screenY v + 1 ≥ numRows
  · right
    rw [if_pos hend]
    refine ⟨rfl, ?_⟩
    simp only [cursorCell, numCols, numRows] at *
    omega
  · exact Or.inl (if_neg hend)

theorem Shows.plain (h : Shows v con start chars) {c : UInt8} (hc : isPlain c = true)
    (hroom : chars.length < 128) :
    Shows v (putck s v c con) (start - scrolledBy v c con) (chars ++ [c]) := by
  obtain ⟨hscrolled, hchar, hcell⟩ := putck_plain (s := s) h.mapped h.cursorOk hc
  have hcursor := h.cursor
  have hstart : 0 ≤ start - scrolledBy v c con := by
    have h0 := h.onScreen
    rcases scrolledBy_cases hc h.cursorOk with hd | ⟨hd, hend⟩
    · rw [hd]
      omega
    · rw [hd]
      simp only [numCols]
      omega
  refine ⟨hscrolled.mapped, hscrolled.cursor, hstart, ?_, fun i hi => ?_⟩
  · rw [hcell, List.length_append, List.length_singleton]
    omega
  · have hlt : i < chars.length + 1 := by
      rw [List.length_append, List.length_singleton] at hi
      exact hi
    by_cases hlast : i < chars.length
    · rw [List.getElem_append_left hlast, hscrolled.before _ (by omega) (by omega), ← h.text i hlast]
      congr 1
      omega
    · have hend : i = chars.length := by omega
      have hlast : start - scrolledBy v c con + i = cursorCell con v - scrolledBy v c con := by omega
      rw [List.getElem_concat_length hend, hlast]
      exact hchar

/-- A text of plain characters is added to the line. -/
theorem Shows.echo {cs : List UInt8} (hcs : ∀ c ∈ cs, isPlain c = true) :
    ∀ {con : Console} {start : Int} {chars : List UInt8}, Shows v con start chars →
      chars.length + cs.length ≤ 128 →
      Shows v (printfkText s v cs con) (start - scrolledCells s v cs con) (chars ++ cs) := by
  induction cs with
  | nil =>
    intro con start chars h _
    rw [List.append_nil, show start - scrolledCells s v [] con = start from Int.sub_zero _]
    exact h
  | cons c cs ih =>
    intro con start chars h hroom
    rw [List.length_cons] at hroom
    have hfirst := h.plain (s := s) (hcs c List.mem_cons_self) (by omega)
    have hrest := ih (fun c' hc' => hcs c' (List.mem_cons_of_mem c hc')) hfirst
      (by rw [List.length_append, List.length_singleton]; omega)
    rw [List.append_assoc, List.singleton_append, Int.sub_sub] at hrest
    exact hrest

/-- Backspace takes the last character off the line.  There is one, so the cursor is not in the first
    cell of the screen. -/
theorem Shows.backspace (h : Shows v con start chars) (hne : chars ≠ []) :
    Shows v (putck s v 8 con) start chars.dropLast := by
  have hlen : 0 < chars.length := List.length_pos_iff.mpr hne
  have hcursor := h.cursor
  have h0 := h.onScreen
  obtain ⟨hscrolled, hcell⟩ := putck_backspace (s := s) h.mapped h.cursorOk (by omega)
  refine ⟨hscrolled.mapped, hscrolled.cursor, h0, ?_, fun i hi => ?_⟩
  · rw [hcell, List.length_dropLast]
    omega
  · rw [List.length_dropLast] at hi
    rw [List.getElem_dropLast, ← h.text i (by omega), hscrolled.before _ (by omega) (by omega),
      Int.add_zero]

/-- A new line starts at the cursor. -/
theorem shows_nil (hmap : EchoMapped con) (hok : CursorOk con v) :
    Shows v con (cursorCell con v) [] := by
  obtain ⟨hx, hx', hy, hy'⟩ := hok
  refine ⟨hmap, ⟨hx, hx', hy, hy'⟩, ?_, (Int.add_zero _).symm, fun i hi => absurd hi (Nat.not_lt_zero i)⟩
  simp only [cursorCell, numCols]
  omega

end Shows

/-! ## The line in the buffer -/

/-- Characters stored behind a text are added to it. -/
theorem bufferText_append {buf buf' : Int → UInt8} {n : Int} (hn : 0 ≤ n) (cs : List UInt8)
    (hsame : ∀ i, 0 ≤ i → i < n → buf' i = buf i)
    (hnew : ∀ (j : Nat) (h : j < cs.length), buf' (n + j) = cs[j]) :
    bufferText buf' (n + cs.length) = bufferText buf n ++ cs := by
  refine List.ext_getElem ?_ fun i h₁ h₂ => ?_
  · rw [length_bufferText, List.length_append, length_bufferText]
    omega
  · rw [getElem_bufferText h₁]
    rw [List.length_append, length_bufferText] at h₂
    by_cases hi : i < (bufferText buf n).length
    · rw [List.getElem_append_left hi, getElem_bufferText hi]
      rw [length_bufferText] at hi
      exact hsame i (by omega) (by omega)
    · rw [List.getElem_append_right (by omega)]
      rw [length_bufferText] at hi
      simp only [length_bufferText]
      rw [← hnew (i - n.toNat) (by omega)]
      congr 1
      omega

/-- Giving up the last character. -/
theorem bufferText_dropLast {buf buf' : Int → UInt8} {n : Int} (hn : 0 < n)
    (hsame : ∀ i, 0 ≤ i → i < n - 1 → buf' i = buf i) :
    bufferText buf' (n - 1) = (bufferText buf n).dropLast := by
  refine List.ext_getElem ?_ fun i h₁ h₂ => ?_
  · rw [length_bufferText, List.length_dropLast, length_bufferText]
    omega
  · rw [getElem_bufferText h₁, List.getElem_dropLast, getElem_bufferText]
    rw [length_bufferText] at h₁
    exact hsame i (by omega) (by omega)

/-! ## What a key does to both -/

/-- The held characters before and after a key, and the call it makes. -/
inductive KeyEcho (held held' : List UInt8) : KeyAction → Prop
  | quiet (h : held' = held) : KeyEcho held held' .nothing
  | typed (cs : List UInt8) (hplain : ∀ c ∈ cs, isPlain c = true) (h : held' = held ++ cs)
      (hroom : held.length + cs.length ≤ 128) : KeyEcho held held' (.echo cs)
  | erased (hne : held ≠ []) (h : held' = held.dropLast) : KeyEcho held held' (.echo [8])
  | newline (h : held' = []) : KeyEcho held held' (.echo [10])
  | cleared (h : held' = []) : KeyEcho held held' .cleark
  | switched (n : Fin 3) : KeyEcho held held' (.switchTerminal n)
  | halted : KeyEcho held held' .halt

/-- What the handler has done to `inp` fits the call it makes, and the index is no negative number. -/
def KeyDoes (inp : Input) (r : Input × KeyAction) : Prop :=
  0 ≤ r.1.bufferIndex ∧ KeyEcho inp.held r.1.held r.2

section Keys

variable {inp : Input} {scanCode : UInt8}

theorem keyDoes_nothing (hlow : 0 ≤ inp.bufferIndex) : KeyDoes inp (inp, .nothing) :=
  ⟨hlow, .quiet rfl⟩

theorem clearIfEmpty_held (inp : Input) :
    (clearIfEmpty inp).held = inp.held ∧ (clearIfEmpty inp).bufferIndex = inp.bufferIndex := by
  unfold clearIfEmpty
  split
  · rename_i h
    refine ⟨?_, rfl⟩
    show bufferText _ inp.bufferIndex = bufferText _ inp.bufferIndex
    rw [h]
    rfl
  · exact ⟨rfl, rfl⟩

theorem KeyDoes.clearIfEmpty {inp' : Input} {action : KeyAction} (h : KeyDoes inp (inp', action)) :
    KeyDoes inp (clearIfEmpty inp', action) := by
  obtain ⟨hheld, hindex⟩ := clearIfEmpty_held inp'
  unfold KeyDoes
  rw [hheld, hindex]
  exact h

/-- A typed character. -/
theorem keyDoes_append (hlow : 0 ≤ inp.bufferIndex) (hroom : inp.bufferIndex < bufferLimit)
    {c : UInt8} (hc : isPlain c = true) : KeyDoes inp (appendChar inp c, .echo [c]) := by
  refine ⟨show 0 ≤ inp.bufferIndex + 1 by omega, .typed [c] ?_ ?_ ?_⟩
  · intro c' hc'
    rw [List.mem_singleton.mp hc']
    exact hc
  · refine bufferText_append hlow [c] (fun i h0 hi => ?_) fun j hj => ?_
    · simp only [appendChar]
      split
      · rw [Function.update_of_ne (by omega), Function.update_of_ne (by omega)]
      · rw [Function.update_of_ne (by omega)]
    · obtain rfl : j = 0 := by
        rw [List.length_singleton] at hj
        omega
      simp only [appendChar]
      split
      · rw [Function.update_of_ne (by omega), Int.ofNat_zero, Int.add_zero, Function.update_self]
        rfl
      · rw [Int.ofNat_zero, Int.add_zero, Function.update_self]
        rfl
  · rw [Input.held, length_bufferText, List.length_singleton]
    simp only [bufferLimit] at hroom
    omega

/-- A Backspace, with a character to take back. -/
theorem keyDoes_erase (hpos : 0 < inp.bufferIndex) : KeyDoes inp (eraseChar inp, .echo [8]) := by
  refine ⟨show 0 ≤ inp.bufferIndex - 1 by omega, .erased ?_ ?_⟩
  · rw [← List.length_pos_iff, Input.held, length_bufferText]
    omega
  · refine bufferText_dropLast hpos fun i h0 hi => ?_
    show Function.update inp.termBuffer (inp.bufferIndex - 1) 0 i = _
    rw [Function.update_of_ne (by omega)]

/-- Apart from Backspace no key of the tables gives a control character that `putck` acts on. -/
theorem table_plain {table : List UInt8} (hlen : table.length = 59)
    (h : ∀ n, n < 59 → n ≠ 14 → isPlain (table.getD n 0) = true) (hback : scanCode ≠ backspacePress) :
    isPlain (table.getD scanCode.toNat 0) = true := by
  have hne : scanCode.toNat ≠ 14 := fun heq => hback (UInt8.toNat_inj.mp heq)
  rcases Nat.lt_or_ge scanCode.toNat 59 with hlt | hge
  · exact h _ hlt hne
  · rw [List.getD_eq_getElem?_getD, List.getElem?_eq_none (by omega)]
    decide

theorem scanToAscii_plain (hback : scanCode ≠ backspacePress) :
    isPlain (scanToAscii scanCode) = true := table_plain rfl (by decide) hback

theorem scanToAsciiCaps_plain (hback : scanCode ≠ backspacePress) :
    isPlain (scanToAsciiCaps scanCode) = true := table_plain rfl (by decide) hback

theorem scanToAsciiShift_plain (hback : scanCode ≠ backspacePress) :
    isPlain (scanToAsciiShift scanCode) = true := table_plain rfl (by decide) hback

theorem typeKey_does (hlow : 0 ≤ inp.bufferIndex) (hroom : inp.bufferIndex < bufferLimit) :
    KeyDoes inp (typeKey inp scanCode) := by
  -- the count of the typed characters is no part of the line
  let counted := { inp with lineFlag := inp.lineFlag + 1 }
  have happend : ∀ {c : UInt8}, isPlain c = true →
      KeyDoes inp (appendChar counted c, .echo [c]) := fun hc => keyDoes_append hlow hroom hc
  have herase : 0 < inp.bufferIndex → KeyDoes inp (eraseChar counted, .echo [8]) := fun hpos =>
    keyDoes_erase (show 0 < counted.bufferIndex from hpos)
  have hquiet : KeyDoes inp (counted, .nothing) := keyDoes_nothing hlow
  unfold typeKey
  show KeyDoes inp (if counted.shiftFlag = 1 then _ else _)
  split
  · -- Shift
    split
    · exact hquiet
    · rename_i hback
      split
      · refine happend ?_
        split
        · exact scanToAscii_plain hback
        · exact scanToAsciiCaps_plain hback
      · exact happend (scanToAsciiShift_plain hback)
  split
  · -- Ctrl
    split
    · exact ⟨Int.le_refl 0, .cleared rfl⟩
    split
    · exact ⟨hlow, .halted⟩
    · exact hquiet
  split
  · rename_i hplain
    exact (happend (scanToAscii_plain hplain.2)).clearIfEmpty
  split
  · -- Caps Lock
    split
    · rename_i hback
      split
      · rename_i hpos
        subst hback
        exact herase hpos
      · exact hquiet
    · rename_i hback
      exact (happend (scanToAsciiCaps_plain hback)).clearIfEmpty
  split
  · rename_i hback
    obtain ⟨rfl, -, hpos⟩ := hback
    exact (herase hpos).clearIfEmpty
  · exact hquiet.clearIfEmpty

/-- With a full buffer there is a character to take back. -/
theorem fullKey_does (hlow : 0 ≤ inp.bufferIndex) (hfull : inp.bufferIndex = bufferLimit) :
    KeyDoes inp (fullKey inp scanCode) := by
  have hquiet : KeyDoes inp (inp, .nothing) := keyDoes_nothing hlow
  have hpos : 0 < inp.bufferIndex := by
    rw [hfull]
    decide
  unfold fullKey
  split
  · rename_i hback
    subst hback
    have hroom : inp.bufferIndex - 1 < bufferLimit := by omega
    simp only [if_pos hroom]
    have herase := (keyDoes_erase hpos).clearIfEmpty
    exact herase
  split
  · split
    · have hempty : KeyDoes inp ({ inp with lineFlag := 0, bufferIndex := 0 }, .cleark) :=
        ⟨Int.le_refl 0, .cleared rfl⟩
      exact hempty.clearIfEmpty
    split
    · exact ⟨hlow, .halted⟩
    · exact hquiet.clearIfEmpty
  · exact hquiet.clearIfEmpty

theorem tabKey_does (hlow : 0 ≤ inp.bufferIndex) : KeyDoes inp (tabKey inp) := by
  unfold tabKey
  split
  · simp only
    split
    · rename_i hroom
      have hroom : inp.bufferIndex + 4 < 128 := hroom
      refine ⟨show 0 ≤ inp.bufferIndex + 4 by omega, .typed [32, 32, 32, 32] ?_ ?_ ?_⟩
      · intro c hc
        rw [List.eq_of_mem_replicate (show c ∈ List.replicate 4 32 from hc)]
        decide
      · refine bufferText_append hlow [32, 32, 32, 32] (fun i h0 hi => ?_) fun j hj => ?_
        · simp only [tabSize]
          rw [Function.update_of_ne (by omega), Function.update_of_ne (by omega),
            Function.update_of_ne (by omega), Function.update_of_ne (by omega),
            Function.update_of_ne (by omega)]
        · have hcases : j = 0 ∨ j = 1 ∨ j = 2 ∨ j = 3 := by
            have hlt : j < 4 := hj
            omega
          simp only [tabSize]
          rcases hcases with rfl | rfl | rfl | rfl
          · rw [Int.ofNat_zero, Int.add_zero, Function.update_of_ne (by omega),
              Function.update_of_ne (by omega), Function.update_of_ne (by omega),
              Function.update_of_ne (by omega), Function.update_self]
            rfl
          · show Function.update _ _ _ (inp.bufferIndex + 1) = 32
            rw [Function.update_of_ne (by omega), Function.update_of_ne (by omega),
              Function.update_of_ne (by omega), Function.update_self]
          · show Function.update _ _ _ (inp.bufferIndex + 2) = 32
            rw [Function.update_of_ne (by omega), Function.update_of_ne (by omega),
              Function.update_self]
          · show Function.update _ _ _ (inp.bufferIndex + 3) = 32
            rw [Function.update_of_ne (by omega), Function.update_self]
      · rw [Input.held, length_bufferText]
        show inp.bufferIndex.toNat + 4 ≤ 128
        omega
    · exact keyDoes_nothing hlow
  · exact keyDoes_nothing hlow

theorem lineKey_does (v : Fin 3) (hlow : 0 ≤ inp.bufferIndex)
    (hhigh : inp.bufferIndex ≤ bufferLimit) : KeyDoes inp (lineKey v inp scanCode) := by
  have hquiet : KeyDoes inp (inp, .nothing) := keyDoes_nothing hlow
  unfold lineKey
  split
  · exact hquiet
  split
  · exact tabKey_does hlow
  split
  · exact hquiet
  split
  · exact ⟨Int.le_refl 0, .newline rfl⟩
  split
  · exact hquiet
  split
  · split
    · rename_i hroom
      exact typeKey_does hlow hroom
    · rename_i hfull
      exact fullKey_does hlow (Int.le_antisymm hhigh (Int.not_lt.mp hfull))
  · exact hquiet.clearIfEmpty

/-- **Every branch of the handler** treats buffer and screen alike. -/
theorem keyboardInput_does (scanCode : UInt8) (v : Fin 3) (hlow : 0 ≤ inp.bufferIndex)
    (hhigh : inp.bufferIndex ≤ bufferLimit) : KeyDoes inp (keyboardInput v inp scanCode) := by
  by_cases hmod : isModifier scanCode = true
  · obtain ⟨c, s, t, a, hkey⟩ := keyboardInput_modifier v inp hmod
    rw [hkey]
    exact keyDoes_nothing hlow
  obtain ⟨c, f, hpress, -⟩ := pressModifier_same inp scanCode
  rw [keyboardInput_rest v hmod, hpress]
  split
  · unfold chordAction
    split
    · exact ⟨hlow, .switched 0⟩
    split
    · exact ⟨hlow, .switched 1⟩
    split
    · exact ⟨hlow, .switched 2⟩
    · exact keyDoes_nothing hlow
  · have hpressed : KeyDoes { inp with ctrlFlag := c, fKeyPressed := f }
        (lineKey v { inp with ctrlFlag := c, fKeyPressed := f } scanCode) :=
      lineKey_does v hlow hhigh
    exact hpressed

end Keys

/-! ## Runs of keys -/

/-- The kernel, and the cell in which the line that is being typed starts. -/
structure Typing where
  kernel : Kernel
  lineStart : Int

/-- The line start after a key: Enter and Ctrl+L begin a new line, a scroll moves it up. -/
def nextLineStart (k : Kernel) (scanCode : UInt8) (start : Int) : Int :=
  match (keyboardInput k.visibleTerm k.input scanCode).2 with
  | .echo cs =>
    if cs = [10] then cursorCell (printfkText k.schedTerm k.visibleTerm cs k.con) k.visibleTerm
    else start - scrolledCells k.schedTerm k.visibleTerm cs k.con
  | .cleark => 0
  | _ => start

/-- One scan code. -/
def typingStep (disk : Disk) (fr : Frame) (st : Typing) (scanCode : UInt8) : Option Typing :=
  some
    { kernel := keyboardHandler disk fr scanCode st.kernel
      lineStart := nextLineStart st.kernel scanCode st.lineStart }

/-- The keys in question: no Ctrl+C, no terminal switch, and Enter with fewer than 128 characters
    held. -/
def isTyping (st : Typing) (scanCode : UInt8) : Prop :=
  let k := st.kernel
  let action := (keyboardInput k.visibleTerm k.input scanCode).2
  action ≠ .halt ∧ (∀ n, action ≠ .switchTerminal n) ∧
    (scanCode = enterPressedCode → k.input.bufferIndex < bufferLimit)

instance (st : Typing) (scanCode : UInt8) : Decidable (isTyping st scanCode) :=
  inferInstanceAs (Decidable (_ ∧ _))

/-- The screen agrees with the buffer: the cells from the line start on hold the characters held, and
    the cursor is behind them. -/
structure EchoAgrees (st : Typing) : Prop where
  onScreen : 0 ≤ st.lineStart
  index : 0 ≤ st.kernel.input.bufferIndex ∧ st.kernel.input.bufferIndex ≤ bufferLimit
  text : ∀ i, 0 ≤ i → i < st.kernel.input.bufferIndex →
    screenChar st.kernel.con (st.lineStart + i) = st.kernel.input.termBuffer i
  cursorOk : CursorOk st.kernel.con st.kernel.visibleTerm
  cursor : numCols * st.kernel.con.screenY st.kernel.visibleTerm +
    st.kernel.con.screenX st.kernel.visibleTerm = st.lineStart + st.kernel.input.bufferIndex

/-- The same, in terms of the line. -/
structure TypingInv (st : Typing) : Prop where
  low : 0 ≤ st.kernel.input.bufferIndex
  high : st.kernel.input.bufferIndex ≤ bufferLimit
  shows : Shows st.kernel.visibleTerm st.kernel.con st.lineStart st.kernel.input.held

theorem TypingInv.agrees {st : Typing} (h : TypingInv st) : EchoAgrees st := by
  have hlow := h.low
  refine ⟨h.shows.onScreen, ⟨h.low, h.high⟩, fun i h0 hi => ?_, h.shows.cursorOk, ?_⟩
  · have hlen : i.toNat < st.kernel.input.held.length := by
      rw [Input.held, length_bufferText]
      omega
    have htext := h.shows.text i.toNat hlen
    have hget : st.kernel.input.held[i.toNat] = st.kernel.input.termBuffer i.toNat :=
      getElem_bufferText hlen
    rw [hget, Int.toNat_of_nonneg h0] at htext
    exact htext
  · have hcursor := h.shows.cursor
    rw [Input.held, length_bufferText, Int.toNat_of_nonneg h.low] at hcursor
    exact hcursor

/-- The invariant, for a kernel with a new input and a new console. -/
theorem typingInv_of_shows {k : Kernel} {inp : Input} {con : Console} {start : Int}
    (hlow : 0 ≤ inp.bufferIndex) (hroom : inp.held.length ≤ 128)
    (hshows : Shows k.visibleTerm con start inp.held) :
    TypingInv { kernel := { k with input := inp, con := con }, lineStart := start } := by
  refine ⟨hlow, ?_, hshows⟩
  rw [Input.held, length_bufferText] at hroom
  show inp.bufferIndex ≤ bufferLimit
  simp only [bufferLimit]
  omega

/-- **One key.** -/
theorem TypingInv.step {disk : Disk} {fr : Frame} {st st' : Typing} {scanCode : UInt8}
    (h : TypingInv st) (htyping : isTyping st scanCode)
    (hstep : typingStep disk fr st scanCode = some st') : TypingInv st' := by
  obtain ⟨k, start⟩ := st
  obtain ⟨hlow, hhigh, hshows⟩ := h
  obtain ⟨hhalt, hswitch, -⟩ := htyping
  obtain rfl := Option.some.inj hstep
  obtain ⟨hlow', hkey⟩ := keyboardInput_does scanCode k.visibleTerm hlow hhigh
  have hroom : k.input.held.length ≤ 128 := by
    have hindex : k.input.bufferIndex ≤ 128 := hhigh
    rw [Input.held, length_bufferText]
    omega
  simp only [keyboardHandler, nextLineStart]
  generalize keyboardInput k.visibleTerm k.input scanCode = r at hhalt hswitch hlow' hkey ⊢
  obtain ⟨inp, action⟩ := r
  simp only at hlow' hkey
  cases hkey with
  | quiet hsame =>
    exact typingInv_of_shows hlow' (by rw [hsame]; exact hroom) (by rw [hsame]; exact hshows)
  | typed cs hplain hadded hfits =>
    have hne : cs ≠ [10] := by
      rintro rfl
      have hnl := hplain 10 List.mem_cons_self
      cases hnl
    simp only [keyAction, if_neg hne]
    refine typingInv_of_shows hlow' ?_ ?_
    · rw [hadded, List.length_append]
      exact hfits
    · rw [hadded]
      exact hshows.echo hplain hfits
  | erased hne hlast =>
    have hstart : start - scrolledCells k.schedTerm k.visibleTerm [8] k.con = start := by
      show start - (0 + 0) = start
      omega
    simp only [keyAction, hstart]
    refine typingInv_of_shows hlow' ?_ ?_
    · rw [hlast, List.length_dropLast]
      omega
    · rw [hlast]
      exact hshows.backspace hne
  | newline hempty =>
    obtain ⟨hmap, hok⟩ := putck_newline (s := k.schedTerm) hshows.mapped hshows.cursorOk
    refine typingInv_of_shows hlow' ?_ ?_
    · rw [hempty]
      exact Nat.zero_le 128
    · rw [hempty]
      exact shows_nil hmap hok
  | cleared hempty =>
    obtain ⟨hmap, hok, hcell⟩ := cleark_cursor k.visibleTerm hshows.mapped
    have hnew := shows_nil hmap hok
    rw [hcell] at hnew
    refine typingInv_of_shows hlow' ?_ ?_
    · rw [hempty]
      exact Nat.zero_le 128
    · rw [hempty]
      exact hnew
  | switched n => exact absurd rfl (hswitch n)
  | halted => exact absurd rfl hhalt

/-- **Echo agrees with the buffer.**  From an empty line and any place of the cursor on the screen,
    with `putck`'s page mapped to the screen: after every key of every run of keys in question, the
    cells from the line start on hold exactly the characters held, and the cursor is behind them. -/
theorem echo_agrees (disk : Disk) (fr : Frame) (k : Kernel) (hempty : k.input.bufferIndex = 0)
    (hcursor : CursorOk k.con k.visibleTerm) (hmap : EchoMapped k.con) (scanCodes : List UInt8)
    (htyping : Along (typingStep disk fr) isTyping
      { kernel := k, lineStart := cursorCell k.con k.visibleTerm } scanCodes) :
    Throughout (typingStep disk fr) EchoAgrees
      { kernel := k, lineStart := cursorCell k.con k.visibleTerm } scanCodes := by
  have hstart : TypingInv { kernel := k, lineStart := cursorCell k.con k.visibleTerm } := by
    have hheld : k.input.held = [] := by
      rw [Input.held, hempty]
      rfl
    refine ⟨Int.le_of_eq hempty.symm, ?_, ?_⟩
    · show k.input.bufferIndex ≤ bufferLimit
      rw [hempty]
      decide
    · show Shows k.visibleTerm k.con (cursorCell k.con k.visibleTerm) k.input.held
      rw [hheld]
      exact shows_nil hmap hcursor
  exact throughout_mono (fun st h => h.agrees)
    (throughout_of_along (fun st scanCode st' h hgood hstep => h.step hgood hstep) hstart htyping)

/-! ### Every kernel that runs is ready for keys -/

/-- `putck`'s page is mapped to the screen, and the cursors are on their screens. -/
structure EchoReady (k : Kernel) : Prop where
  mapped : EchoMapped k.con
  cursors : ∀ u, CursorOk k.con u

theorem EchoReady.stepped {k : Kernel} (h : EchoReady k) {t : Fin 3} {on : Int → Prop}
    {con : Console} (hstep : Stepped t on k.con con) : EchoReady { k with con := con } where
  mapped := by
    show con.pageTable 0xBC = videoMemAddr
    rw [hstep.1.pageTable]
    exact h.mapped
  cursors := hstep.cursorsOk h.cursors

theorem EchoReady.execute {k : Kernel} (h : EchoReady k) (img : Image) (fr : Frame) (site : RetSite)
    (command : Option (List UInt8)) : EchoReady (execute img fr site command k).1 := by
  obtain ⟨-, -, hcon⟩ := execute_display img fr site command k
  rcases hcon with hcon | hcon
  · refine ⟨?_, ?_⟩
    · rw [hcon]
      exact h.mapped
    · rw [hcon]
      exact h.cursors
  · obtain ⟨hok, hpages, -⟩ := printfkText_spec k.schedTerm k.visibleTerm processCapReached h.cursors
    refine ⟨?_, ?_⟩
    · rw [hcon, EchoMapped, hpages]
      exact h.mapped
    · rw [hcon]
      exact hok

theorem EchoReady.step {disk : Disk} {k k' : Kernel} {e : DisplayEvent} (h : EchoReady k)
    (hstep : displayStep disk k e = some k') : EchoReady k' := by
  cases e with
  | putc c =>
    obtain rfl := Option.some.inj hstep
    exact h.stepped (putc_stepped k.visibleTerm c (h.cursors k.schedTerm))
  | store offset b =>
    simp only [displayStep] at hstep
    split at hstep
    · obtain rfl := Option.some.inj hstep
      exact ⟨h.mapped, h.cursors⟩
    · cases hstep
  | tick esp ebp fr =>
    obtain rfl := Option.some.inj hstep
    have hmapped : ∀ procs, EchoReady { k with
        schedTerm := nextTerm k.schedTerm
        con := mapScreen (nextTerm k.schedTerm) k.visibleTerm k.con
        procs := procs } := by
      intro procs
      refine ⟨?_, h.cursors⟩
      have hother : (0xBC : Int) ≠ videoMemAddr := by decide
      exact (Function.update_of_ne hother (screenPage (nextTerm k.schedTerm) k.visibleTerm)
        k.con.pageTable).trans h.mapped
    show EchoReady (scheduler disk esp ebp fr k).1
    unfold scheduler
    simp only
    split
    · exact ((hmapped _).stepped (clear_stepped k.visibleTerm _)).execute _ _ _ _
    · exact hmapped _
  | switchTerminal n =>
    obtain rfl := Option.some.inj hstep
    by_cases hn : n = k.visibleTerm
    · have hsame : switchTerminal n k = sti (cli k) := if_pos hn
      rw [hsame]
      exact ⟨h.mapped, h.cursors⟩
    · obtain ⟨-, -, hpages, -, hx, hy⟩ := switchTerminal_display hn
      refine ⟨?_, fun u => ?_⟩
      · rw [EchoMapped, hpages]
        exact h.mapped
      · simpa only [CursorOk, hx, hy] using h.cursors u

/-- What `echo_agrees` asks of a kernel, every kernel satisfies that output, ticks and switches lead
    to after boot. -/
theorem echoReady_reachable (disk : Disk) (pw : PowerOn) (fr : Frame) (events : List DisplayEvent) :
    Throughout (displayStep disk) EchoReady (boot disk pw fr).1 events := by
  have hclear : ∀ con : Console, EchoReady { initialKernel pw with con := con } →
      EchoReady { initialKernel pw with con := clear 0 0 con } := fun con h =>
    h.stepped (clear_stepped 0 con)
  have hstart : EchoReady (initialKernel pw) := by
    refine hclear _ (hclear _ (hclear _ (hclear _ ⟨rfl, fun u => ?_⟩)))
    simp [CursorOk]
  exact throughout_of_inv (fun _ _ _ h hs => h.step hs) (hstart.execute _ _ _ _)

/-- The kernel at boot, with the cursor of every terminal in column 78 of the last row. -/
def lastRowKernel : Kernel :=
  { initialKernel blankMemory with
    con :=
      { screenX := fun _ => 78, screenY := fun _ => 24
        pageTable := initialPageTable, pageTableVidmap := initialPageTableVidmap
        phys := blankMemory.phys, cursorReg := 0 } }

/-- `A`, Tab (which scrolls in the middle), Backspace, `b`, Enter. -/
theorem tab_scrolls_echo :
    Throughout (typingStep smallDisk blankFrame) EchoAgrees
      { kernel := lastRowKernel, lineStart := cursorCell lastRowKernel.con 0 }
      [0x2A, 0x1E, 0xAA, 0x0F, 0x8F, 0x0E, 0x30, 0x1C] :=
  echo_agrees smallDisk blankFrame lastRowKernel rfl
    (show (0 : Int) ≤ 78 ∧ (78 : Int) ≤ 80 ∧ (0 : Int) ≤ 24 ∧ (24 : Int) < 25 by decide) rfl _
    (by decide +kernel)

end ByteVerse
