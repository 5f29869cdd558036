/-
  What `putc` makes of a whole text.

  `putc` works on one cell at a time: it puts off the wrap at the end of a row until the next character,
  and moves the screen up in place when the cursor leaves it.  `screenRows` says what that should come
  to: the rows of the text, of which the screen shows the last 25 (`TextLayout`).  `ShowsRows` relates
  the two, and every character keeps it up: a newline starts an empty row, a wrap does the same, and a
  character goes behind the last row.
-/
import ByteVerse.Cells
import ByteVerse.TextLayout
import ByteVerse.Terminal

set_option linter.unusedVariables false

namespace ByteVerse

open Run TextLayout

/-! ## The screen and the text -/

/-- The bytes of the cell at a row and a column of the page that `video_mem` is mapped to. -/
def gridChar (con : Console) (row col : Nat) : UInt8 := con.phys (videoFrame con) (2 * (80 * row + col))

def gridAttribute (con : Console) (row col : Nat) : UInt8 :=
  con.phys (videoFrame con) (2 * (80 * row + col) + 1)

def isNewline (c : UInt8) : Bool := c == 10 || c == 13

/-- The rows of a text; a NUL is no character of it. -/
def screenRows (text : List UInt8) : List (List UInt8) :=
  textRows 80 isNewline (text.filter (· != 0))

/-- The screen of terminal `t` shows the last 25 of these rows in cells with the standard attribute,
    and its cursor is behind the last character of the last row. -/
structure ShowsRows (t : Fin 3) (con : Console) (rows : List (List UInt8)) : Prop where
  char : ∀ row col, row < 25 → col < 80 → gridChar con row col = shown 25 32 rows row col
  attribs : ∀ row col, row < 25 → col < 80 → gridAttribute con row col = attrib
  column : con.screenX t = (rows.getLastD []).length
  line : con.screenY t = (min rows.length 25 : Nat) - 1

/-- A text through `putc`. -/
def putcText (s v : Fin 3) (text : List UInt8) (con : Console) : Console :=
  text.foldl (fun con c => putc s v c con) con

/-! ## What each part of `putc` does to the rows -/

section Steps

variable {t : Fin 3} {con : Console} {init : List (List UInt8)} {last : List UInt8}

theorem getLastD_append (init : List (List UInt8)) (last : List UInt8) :
    (init ++ [last]).getLastD [] = last := by
  rw [List.getLastD_eq_getLast?, List.getLast?_concat]
  rfl

theorem gridChar_setCursor (x y : Int) (con : Console) (row col : Nat) :
    gridChar (setCursor t x y con) row col = gridChar con row col := rfl

theorem gridAttribute_setCursor (x y : Int) (con : Console) (row col : Nat) :
    gridAttribute (setCursor t x y con) row col = gridAttribute con row col := rfl

/-- The bytes of the screen after a scroll. -/
theorem gridChar_scroll (con : Console) {row col : Nat} (hrow : row < 25) (hcol : col < 80) :
    gridChar (scroll con) row col = if row < 24 then gridChar con (row + 1) col else 32 := by
  rw [gridChar, videoFrame, (scroll_writesOn con).pageTable_eq, scroll,
    scrollAt_bytes (show videoMem = videoMemAddr * kb4 from rfl) rfl]
  by_cases hlast : row < 24
  · rw [if_pos (by omega), if_pos hlast, gridChar, videoFrame]
    congr 1
    simp only [numCols]
    omega
  · rw [if_neg (by omega), if_pos (by omega), if_pos (by omega), if_neg hlast]

theorem gridAttribute_scroll (con : Console) {row col : Nat} (hrow : row < 25) (hcol : col < 80) :
    gridAttribute (scroll con) row col = if row < 24 then gridAttribute con (row + 1) col else attrib := by
  rw [gridAttribute, videoFrame, (scroll_writesOn con).pageTable_eq, scroll,
    scrollAt_bytes (show videoMem = videoMemAddr * kb4 from rfl) rfl]
  by_cases hlast : row < 24
  · rw [if_pos (by omega), if_pos hlast, gridAttribute, videoFrame]
    congr 1
    simp only [numCols]
    omega
  · rw [if_neg (by omega), if_pos (by omega), if_neg (by omega), if_neg hlast]

/-- Moving the cursor to the next row and scrolling if it has left the screen: an empty row more.
    `con'` is the console with the cursor moved. -/
theorem ShowsRows.nextRow (h : ShowsRows t con (init ++ [last])) (con' : Console)
    (hphys : con'.phys = con.phys) (hpages : con'.pageTable = con.pageTable) (hx : con'.screenX t = 0)
    (hy : con'.screenY t = con.screenY t + 1) :
    ShowsRows t (checkScroll t scroll con') (init ++ [last] ++ [[]]) := by
  have hchar : ∀ row col, gridChar con' row col = gridChar con row col := by
    intro row col
    rw [gridChar, gridChar, videoFrame, videoFrame, hphys, hpages]
  have hattribute : ∀ row col, gridAttribute con' row col = gridAttribute con row col := by
    intro row col
    rw [gridAttribute, gridAttribute, videoFrame, videoFrame, hphys, hpages]
  have hlen : (init ++ [last]).length = init.length + 1 := by
    rw [List.length_append, List.length_singleton]
  have hlen' : (init ++ [last] ++ [[]]).length = init.length + 2 := by
    rw [List.length_append, hlen, List.length_singleton]
  have hline := h.line
  rw [hlen] at hline
  unfold checkScroll
  by_cases hbottom : con'.screenY t ≥ numRows
  · -- the cursor has left the screen
    rw [if_pos hbottom]
    simp only [numRows] at hbottom
    have hfull : ¬ (init ++ [last]).length < 25 := by omega
    refine ⟨fun row col hrow hcol => ?_, fun row col hrow hcol => ?_, ?_, ?_⟩
    · rw [gridChar_setCursor, gridChar_scroll con' hrow hcol, shown_nextRow, if_neg hfull]
      by_cases hlast : row < 24
      · rw [if_pos hlast, hchar, h.char _ _ (by omega) hcol]
      · have hover : (init ++ [last]).length ≤ (init ++ [last]).length - 25 + (row + 1) := by omega
        rw [if_neg hlast, shown_eq, List.getD_eq_default _ _ hover]
        rfl
    · rw [gridAttribute_setCursor, gridAttribute_scroll con' hrow hcol]
      by_cases hlast : row < 24
      · rw [if_pos hlast, hattribute, h.attribs _ _ (by omega) hcol]
      · rw [if_neg hlast]
    · rw [getLastD_append]
      rw [setCursor_screenX]
      exact hx
    · rw [hlen', setCursor_screenY]
      simp only [numRows]
      omega
  · rw [if_neg hbottom]
    simp only [numRows] at hbottom
    refine ⟨fun row col hrow hcol => ?_, fun row col hrow hcol => ?_, ?_, ?_⟩
    · rw [hchar, h.char row col hrow hcol, shown_nextRow, if_pos (by omega)]
    · rw [hattribute]
      exact h.attribs row col hrow hcol
    · rw [getLastD_append]
      exact hx
    · rw [hlen', hy]
      omega

/-- A character at the cursor goes behind the last row. -/
theorem ShowsRows.put (h : ShowsRows t con (init ++ [last])) (hroom : last.length < 80) (c : UInt8)
    (v : Fin 3) :
    ShowsRows t
      (updateCursor v (setCursor t (con.screenX t + 1) (con.screenY t)
        (pokeCell (cell videoMem (con.screenX t) (con.screenY t)) c con)))
      (init ++ [last ++ [c]]) := by
  have hx := h.column
  have hy := h.line
  rw [getLastD_append] at hx
  rw [List.length_append, List.length_singleton] at hy
  have haddr : cell videoMem (con.screenX t) (con.screenY t) =
      videoMemAddr * kb4 + 2 * (80 * (min (init.length + 1) 25 - 1 : Nat) + last.length) := by
    rw [hx, hy]
    simp only [cell, videoMem, videoMemAddr, kb4, numCols]
    omega
  have hbytes := pokeCell_offset (show con.pageTable videoMemAddr = videoFrame con from rfl) haddr
    (by omega) (by simp only [kb4]; omega) c
  refine ⟨fun row col hrow hcol => ?_, fun row col hrow hcol => ?_, ?_, ?_⟩
  · rw [shown_append (by decide) init last c hrow, ← h.char row col hrow hcol]
    show (pokeCell _ c con).phys (videoFrame con) (2 * (80 * row + col)) = _
    rw [hbytes]
    by_cases hcell : row = min (init.length + 1) 25 - 1 ∧ col = last.length
    · rw [if_pos hcell, if_pos (by omega)]
    · rw [if_neg hcell, if_neg (by omega), if_neg (by omega)]
      rfl
  · rw [← h.attribs row col hrow hcol]
    show (pokeCell _ c con).phys (videoFrame con) (2 * (80 * row + col) + 1) = _
    rw [hbytes, if_neg (by omega)]
    split
    · exact (h.attribs row col hrow hcol).symm
    · rfl
  · rw [getLastD_append, List.length_append, List.length_singleton]
    refine (setCursor_screenX t (con.screenX t + 1) (con.screenY t) _).trans ?_
    rw [hx]
    rfl
  · rw [List.length_append, List.length_singleton]
    exact (setCursor_screenY t (con.screenX t + 1) (con.screenY t) _).trans hy

end Steps

/-! ## Characters and texts -/

section Text

variable {t : Fin 3} {con : Console} {text : List UInt8}

theorem screenRows_nul (text : List UInt8) : screenRows (text ++ [0]) = screenRows text := by
  rw [screenRows, screenRows, List.filter_append]
  show textRows 80 isNewline (_ ++ []) = _
  rw [List.append_nil]

theorem filter_char {c : UInt8} (hc : c ≠ 0) (text : List UInt8) :
    (text ++ [c]).filter (· != 0) = text.filter (· != 0) ++ [c] := by
  rw [List.filter_append, List.filter_singleton, bne_iff_ne.mpr hc]
  rfl

/-- A text has at least one row. -/
theorem screenRows_ends (text : List UInt8) : ∃ init last, screenRows text = init ++ [last] := by
  have hwidth : 0 < 80 := by decide
  obtain ⟨init, last, hrows, -⟩ :=
    textRows_plain hwidth (show isNewline 32 = false from rfl) (text.filter (· != 0))
  exact ⟨init, last, hrows⟩

/-- **One character** through `putc`. -/
theorem ShowsRows.putc (h : ShowsRows t con (screenRows text)) (v : Fin 3) {c : UInt8} (hc : c ≠ 8) :
    ShowsRows t (ByteVerse.putc t v c con) (screenRows (text ++ [c])) := by
  by_cases hnul : c = 0
  · rw [hnul, screenRows_nul]
    exact h
  rw [screenRows, filter_char hnul, ByteVerse.putc, if_neg hnul]
  by_cases hbreak : c = 10 ∨ c = 13
  · have hnewline : isNewline c = true := by
      rcases hbreak with rfl | rfl <;> rfl
    obtain ⟨init, last, hrows⟩ := screenRows_ends text
    rw [if_pos hbreak, textRows_break hnewline]
    rw [hrows] at h
    show ShowsRows t _ (screenRows text ++ [[]])
    rw [hrows]
    exact h.nextRow (updateCursor v (setCursor t 0 (con.screenY t + 1) con)) rfl rfl
      (setCursor_screenX t 0 (con.screenY t + 1) con) (setCursor_screenY t 0 (con.screenY t + 1) con)
  · have hplain : isNewline c = false := by
      rw [isNewline, Bool.or_eq_false_iff, beq_eq_false_iff_ne, beq_eq_false_iff_ne]
      exact not_or.mp hbreak
    rw [if_neg hbreak, if_neg hc]
    have hwidth : 0 < 80 := by decide
    obtain ⟨init, last, hrows, hlen, hnext⟩ := textRows_plain hwidth hplain (text.filter (· != 0))
    rw [hnext]
    rw [screenRows, hrows] at h
    have hx := h.column
    rw [getLastD_append] at hx
    by_cases hroom : last.length < 80
    · have hstay : wrapLine t scroll con = con := if_neg (by simp only [numCols]; omega)
      simp only [hstay]
      rw [if_pos hroom]
      exact h.put hroom c v
    · -- the wrap that the last character of the full row has put off
      have hwrap : wrapLine t scroll con =
          checkScroll t scroll (setCursor t 0 (con.screenY t + 1) con) :=
        if_pos (by simp only [numCols]; omega)
      simp only [hwrap]
      rw [if_neg hroom]
      have hrow := h.nextRow (setCursor t 0 (con.screenY t + 1) con) rfl rfl
        (setCursor_screenX t 0 (con.screenY t + 1) con)
        (setCursor_screenY t 0 (con.screenY t + 1) con)
      exact hrow.put (by decide) c v

/-- A whole text, behind another one. -/
theorem ShowsRows.putcText (v : Fin 3) {more : List UInt8} (hmore : 8 ∉ more) :
    ∀ {con : Console} {text : List UInt8}, ShowsRows t con (screenRows text) →
      ShowsRows t (putcText t v more con) (screenRows (text ++ more)) := by
  induction more with
  | nil =>
    intro con text h
    rw [List.append_nil]
    exact h
  | cons c more ih =>
    intro con text h
    obtain ⟨hc, hrest⟩ := not_or.mp (mt List.mem_cons.mpr hmore)
    have hnext := ih hrest (h.putc v (Ne.symm hc))
    rw [List.append_assoc] at hnext
    exact hnext

/-- The bytes of a cleared screen. -/
theorem clear_bytes (t v : Fin 3) (con : Console) :
    videoFrame (clear t v con) = videoFrame con ∧
      ∀ i, (clear t v con).phys (videoFrame con) i =
        if 0 ≤ i ∧ i < 4000 then (if i % 2 = 0 then 32 else attrib) else con.phys (videoFrame con) i := by
  have haddr : ∀ k : Nat, videoMem + (k : Int) * 2 = videoMemAddr * kb4 + 2 * (0 + k : Nat) := by
    intro k
    simp only [videoMem, videoMemAddr, kb4]
    omega
  have hmap : (updateCursor v (setCursor t 0 0 con)).pageTable videoMemAddr = videoFrame con := rfl
  obtain ⟨hframe, hbytes⟩ := blankCells_bytes hmap (Nat.le_of_eq (Nat.zero_add 2000))
    fun con k => congrArg (fun addr => pokeCell addr 32 con) (haddr k)
  rw [clear, clearAt]
  exact ⟨hframe, fun i => (hbytes i).trans (if_congr (by omega) rfl rfl)⟩

theorem clear_cursor (t v : Fin 3) (con : Console) :
    (clear t v con).screenX t = 0 ∧ (clear t v con).screenY t = 0 := by
  have hwrites : WritesOn (videoFrame con) (updateCursor v (setCursor t 0 0 con)) (clear t v con) :=
    clearAt_writesOn (show videoMem = videoMemAddr * kb4 by simp) t v con
  obtain ⟨hx, hy⟩ := hwrites.cursor_eq
  rw [hx, hy]
  exact ⟨setCursor_screenX t 0 0 con, setCursor_screenY t 0 0 con⟩

/-- The cleared screen shows the empty text. -/
theorem showsRows_clear (t v : Fin 3) (con : Console) :
    ShowsRows t (clear t v con) (screenRows []) := by
  have hrows : screenRows [] = [[]] := textRows_nil
  obtain ⟨hframe, hbytes⟩ := clear_bytes t v con
  obtain ⟨hx, hy⟩ := clear_cursor t v con
  rw [hrows]
  refine ⟨fun row col hrow hcol => ?_, fun row col hrow hcol => ?_, hx, hy⟩
  · rw [gridChar, hframe, hbytes, if_pos (by omega), if_pos (by omega), shown_eq]
    cases row with
    | zero => rfl
    | succ row => rfl
  · rw [gridAttribute, hframe, hbytes, if_pos (by omega), if_neg (by omega)]

end Text

/-- **The console's layout**: after `clear`, a text without backspaces that is written through `putc` on
    one terminal stands on its screen as its last 25 rows, with the cursor behind the last
    character. -/
theorem console_layout (s v : Fin 3) (con : Console) (text : List UInt8) (htext : 8 ∉ text) :
    ShowsRows s (putcText s v text (clear s v con)) (screenRows text) :=
  ShowsRows.putcText v htext (showsRows_clear s v con)

/-- `hi`, a newline and `!`. -/
theorem two_rows_laid_out :
    screenRows [104, 105, 10, 33] = [[104, 105], [33]] ∧
      ShowsRows 0 (putcText 0 0 [104, 105, 10, 33] (clear 0 0 (initialConsole blankMemory)))
        (screenRows [104, 105, 10, 33]) :=
  ⟨by decide, console_layout 0 0 (initialConsole blankMemory) [104, 105, 10, 33] (by decide)⟩

/-! ## `terminal_write` -/

/-- The bytes that `terminal_write` goes through. -/
def writtenBytes (buf : List UInt8) (nbytes : Int) : List UInt8 :=
  (List.range nbytes.toNat).map fun i => buf.getD i 0

/-- `terminal_write` is `putc` of one byte after the other: what it leaves out `putc` ignores. -/
theorem terminalWrite_eq (s v : Fin 3) (buf : List UInt8) (nbytes : Int) (con : Console) :
    terminalWrite s v buf nbytes con = putcText s v (writtenBytes buf nbytes) con := by
  have hbyte : ∀ (con : Console) (i : Nat),
      (if buf.getD i 0 = 0 then con else putc s v (buf.getD i 0) con) = putc s v (buf.getD i 0) con := by
    intro con i
    by_cases hnul : buf.getD i 0 = 0
    · rw [if_pos hnul, putc, if_pos hnul]
    · rw [if_neg hnul]
  rw [terminalWrite, putcText, writtenBytes, List.foldl_map]
  simp only [hbyte]

/-- So it goes on with the text that is on the screen. -/
theorem ShowsRows.terminalWrite {t : Fin 3} {con : Console} {text : List UInt8}
    (h : ShowsRows t con (screenRows text)) (v : Fin 3) {buf : List UInt8} {nbytes : Int}
    (hbuf : 8 ∉ writtenBytes buf nbytes) :
    ShowsRows t (ByteVerse.terminalWrite t v buf nbytes con)
      (screenRows (text ++ writtenBytes buf nbytes)) := by
  rw [terminalWrite_eq]
  exact h.putcText v hbuf

end ByteVerse
