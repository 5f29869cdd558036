/-
  The characters on the visible screen.

  The screen is 2000 cells, row by row; the byte at offset `2p` of the page is the character of cell
  `p`, the one after it its attribute.  What `putck` does to them is simple once the bytes are
  forgotten: it writes one cell and moves one cell on, or moves one cell back and blanks it, and a
  scroll moves everything up by 80 cells (`putck_char`, `putck_backspace`, `screenChar_scrollk`).

  The attribute that `putck` writes goes to the screen of the scheduled terminal, wherever its cursor
  is; it never hits a character, for its offset is odd.
-/
import ByteVerse.Console
import ByteVerse.Run

set_option linter.unusedVariables false

namespace ByteVerse

open Run

/-! ## Cells -/

/-- The character in cell `p` of the screen. -/
def screenChar (con : Console) (p : Int) : UInt8 := con.phys videoMemAddr (2 * p)

/-- The page that `putck` writes through leads to the screen. -/
def EchoMapped (con : Console) : Prop := con.pageTable 0xBC = videoMemAddr

/-- The cell of a terminal's cursor; 2000 when it is past the end of the last row. -/
def cursorCell (con : Console) (t : Fin 3) : Int := numCols * con.screenY t + con.screenX t

theorem poke_phys (addr : Int) (b : UInt8) (con : Console) (f i : Int) :
    (poke addr b con).phys f i =
      if f = con.pageTable (addr / kb4) ∧ i = addr % kb4 then b else con.phys f i := by
  show Function.update con.phys (con.pageTable (addr / kb4))
    (Function.update (con.phys (con.pageTable (addr / kb4))) (addr % kb4) b) f i = _
  by_cases hf : f = con.pageTable (addr / kb4)
  · rw [hf, Function.update_self]
    by_cases hi : i = addr % kb4
    · rw [hi, Function.update_self, if_pos ⟨rfl, rfl⟩]
    · rw [Function.update_of_ne hi, if_neg fun h => hi h.2]
  · rw [Function.update_of_ne hf, if_neg fun h => hf h.1]

@[simp] theorem setCursor_screenX (t : Fin 3) (x y : Int) (con : Console) :
    (setCursor t x y con).screenX t = x := by
  simp only [setCursor, Function.update_self]

@[simp] theorem setCursor_screenY (t : Fin 3) (x y : Int) (con : Console) :
    (setCursor t x y con).screenY t = y := by
  simp only [setCursor, Function.update_self]

/-! ### Bytes at an offset of a page -/

section Bytes

variable {page f base : Int} {con : Console}

/-- A byte stored at offset `i` of the page that is mapped to frame `f`. -/
theorem poke_offset (hmap : con.pageTable page = f) {addr i : Int} (haddr : addr = page * kb4 + i)
    (h0 : 0 ≤ i) (h1 : i < kb4) (b : UInt8) (j : Int) :
    (poke addr b con).phys f j = if j = i then b else con.phys f j := by
  have hpage : addr / kb4 = page := by
    simp only [kb4] at *
    omega
  have hoffset : addr % kb4 = i := by
    simp only [kb4] at *
    omega
  rw [poke_phys, hpage, hmap, hoffset]
  exact if_congr (and_iff_right rfl) rfl rfl

theorem peek_offset (hmap : con.pageTable page = f) {addr i : Int} (haddr : addr = page * kb4 + i)
    (h0 : 0 ≤ i) (h1 : i < kb4) : peek con addr = con.phys f i := by
  have hpage : addr / kb4 = page := by
    simp only [kb4] at *
    omega
  have hoffset : addr % kb4 = i := by
    simp only [kb4] at *
    omega
  rw [peek, hpage, hmap, hoffset]

/-- A character with its attribute. -/
theorem pokeCell_offset (hmap : con.pageTable page = f) {addr i : Int}
    (haddr : addr = page * kb4 + i) (h0 : 0 ≤ i) (h1 : i + 1 < kb4) (c : UInt8) (j : Int) :
    (pokeCell addr c con).phys f j =
      if j = i then c else if j = i + 1 then attrib else con.phys f j := by
  have hattribute := poke_offset (show (poke addr c con).pageTable page = f from hmap)
    (show addr + 1 = page * kb4 + (i + 1) by omega) (by omega) h1 attrib j
  rw [pokeCell, hattribute, poke_offset hmap haddr h0 (by omega)]
  by_cases hj : j = i
  · rw [if_neg (by omega), if_pos hj, if_pos hj]
  · rw [if_neg hj, if_neg hj]

/-! ### Scrolling -/

/-- On frame `f`, `con` is `old` with the first `n` cells replaced by the ones a row below them. -/
structure ShiftedTo (page f : Int) (old : Console) (n : Int) (con : Console) : Prop where
  mapped : con.pageTable page = f
  bytes : ∀ i, con.phys f i =
    if 0 ≤ i ∧ i < 2 * n then old.phys f (i + 2 * numCols) else old.phys f i

/-- Moving the next cell.  The cell it is read from has not been written yet. -/
theorem ShiftedTo.moveCell (hbase : base = page * kb4) {old con : Console} {row col : Nat}
    (hrow : row < 24) (hcol : col < 80) (h : ShiftedTo page f old (80 * row + col : Nat) con) :
    ShiftedTo page f old (80 * row + (col + 1) : Nat) (moveCell base con (1 + row) col) := by
  obtain ⟨hmap, hbytes⟩ := h
  refine ⟨hmap, fun i => ?_⟩
  -- the two offsets of the cell, and those of the cell below it
  have htarget : cell base col (((1 + row : Nat) : Int) - 1) =
      page * kb4 + 2 * (80 * row + col : Nat) := by
    simp only [cell, numCols]
    omega
  have hsource : cell base col ((1 + row : Nat) : Int) =
      page * kb4 + (2 * (80 * row + col : Nat) + 160) := by
    simp only [cell, numCols]
    omega
  have hchar : peek con (cell base col ((1 + row : Nat) : Int)) =
      old.phys f (2 * (80 * row + col : Nat) + 160) := by
    rw [peek_offset hmap hsource (by omega) (by simp only [kb4]; omega), hbytes]
    exact if_neg (by omega)
  rw [ByteVerse.moveCell, hchar]
  generalize hfirst : poke (cell base col (((1 + row : Nat) : Int) - 1))
    (old.phys f (2 * (80 * row + col : Nat) + 160)) con = con₁
  have hmap₁ : con₁.pageTable page = f := hfirst ▸ hmap
  have hbytes₁ : ∀ j, con₁.phys f j = if j = 2 * (80 * row + col : Nat) then
      old.phys f (2 * (80 * row + col : Nat) + 160) else con.phys f j := by
    intro j
    rw [← hfirst, poke_offset hmap htarget (by omega) (by simp only [kb4]; omega)]
  have hattribute : peek con₁ (cell base col ((1 + row : Nat) : Int) + 1) =
      old.phys f (2 * (80 * row + col : Nat) + 161) := by
    rw [peek_offset hmap₁ (show _ = page * kb4 + (2 * ((80 * row + col : Nat) : Int) + 161) by omega)
      (by omega) (by simp only [kb4]; omega), hbytes₁, if_neg (by omega), hbytes]
    exact if_neg (by omega)
  simp only [hattribute]
  rw [poke_offset hmap₁ (show _ = page * kb4 + (2 * ((80 * row + col : Nat) : Int) + 1) by omega)
    (by omega) (by simp only [kb4]; omega), hbytes₁, hbytes]
  simp only [numCols]
  by_cases hodd : i = 2 * (80 * row + col : Nat) + 1
  · rw [if_pos hodd, if_pos (by omega), hodd]
    rfl
  rw [if_neg hodd]
  by_cases heven : i = 2 * (80 * row + col : Nat)
  · rw [if_pos heven, if_pos (by omega), heven]
    rfl
  rw [if_neg heven]
  by_cases hlt : 0 ≤ i ∧ i < 2 * (80 * row + col : Nat)
  · rw [if_pos hlt, if_pos (by omega)]
  · rw [if_neg hlt, if_neg (by omega)]

theorem moveRows_shifted (hbase : base = page * kb4) (hmap : con.pageTable page = f) :
    ShiftedTo page f con 1920 (moveRows base con) := by
  have hstart : ShiftedTo page f con (80 * 0 : Nat) con :=
    ⟨hmap, fun i => (if_neg (by omega)).symm⟩
  have hrow : ∀ (row : Nat) (con' : Console), row < 24 → ShiftedTo page f con (80 * row : Nat) con' →
      ShiftedTo page f con (80 * (row + 1) : Nat)
        ((List.range 80).foldl (fun con col => ByteVerse.moveCell base con (1 + row) col) con') := by
    intro row con' hlt h
    exact loop_rule (P := fun col con'' => ShiftedTo page f con (80 * row + col : Nat) con'') h
      fun col con'' hcol h => h.moveCell hbase hlt hcol
  have hrows := loop_rule (P := fun row con' => ShiftedTo page f con (80 * row : Nat) con') hstart hrow
  unfold moveRows
  rw [List.range'_eq_map_range, List.foldl_map]
  exact hrows

/-- A loop that blanks the cells from number `first` on, one after the other. -/
theorem blankCells_bytes (hmap : con.pageTable page = f) {first n : Nat} (hend : first + n ≤ 2000)
    {blank : Console → Nat → Console}
    (hblank : ∀ con k, blank con k = pokeCell (page * kb4 + 2 * (first + k : Nat)) 32 con) :
    ((List.range n).foldl blank con).pageTable page = f ∧
      ∀ i, ((List.range n).foldl blank con).phys f i =
        if 2 * first ≤ i ∧ i < 2 * (first + n : Nat) then (if i % 2 = 0 then 32 else attrib)
        else con.phys f i := by
  refine loop_rule (P := fun (m : Nat) (con' : Console) => con'.pageTable page = f ∧
    ∀ i, con'.phys f i =
      if 2 * first ≤ i ∧ i < 2 * (first + m : Nat) then (if i % 2 = 0 then 32 else attrib)
      else con.phys f i) ⟨hmap, fun i => (if_neg (by omega)).symm⟩ ?_
  rintro m con' hm ⟨hmap', hbytes⟩
  rw [hblank]
  refine ⟨hmap', fun i => ?_⟩
  rw [pokeCell_offset hmap' rfl (by omega) (by simp only [kb4]; omega), hbytes]
  by_cases heven : i = 2 * (first + m : Nat)
  · rw [if_pos heven, if_pos (by omega), if_pos (by omega)]
  rw [if_neg heven]
  by_cases hodd : i = 2 * (first + m : Nat) + 1
  · rw [if_pos hodd, if_pos (by omega), if_neg (by omega)]
  rw [if_neg hodd]
  by_cases hlt : 2 * (first : Int) ≤ i ∧ i < 2 * (first + m : Nat)
  · have hlt' : 2 * (first : Int) ≤ i ∧ i < 2 * (first + (m + 1) : Nat) := by omega
    rw [if_pos hlt, if_pos hlt']
  · rw [if_neg hlt, if_neg (by omega)]

/-- **A scroll**, byte by byte: every row moves up by one, and the last is blanked. -/
theorem scrollAt_bytes (hbase : base = page * kb4) (hmap : con.pageTable page = f) (i : Int) :
    (scrollAt base con).phys f i =
      if 0 ≤ i ∧ i < 3840 then con.phys f (i + 2 * numCols)
      else if 3840 ≤ i ∧ i < 4000 then (if i % 2 = 0 then 32 else attrib) else con.phys f i := by
  obtain ⟨hmap', hmoved⟩ := moveRows_shifted hbase hmap
  have haddr : ∀ k : Nat, cell base k (numRows - 1) = page * kb4 + 2 * (1920 + k : Nat) := by
    intro k
    simp only [cell, numCols, numRows]
    omega
  obtain ⟨-, hblank⟩ := blankCells_bytes (n := 80) hmap' (by decide)
    fun con k => congrArg (fun addr => pokeCell addr 32 con) (haddr k)
  have hscroll : (scrollAt base con).phys f i = _ := hblank i
  rw [hscroll, hmoved]
  by_cases hlow : 0 ≤ i ∧ i < 3840
  · rw [if_neg (by omega), if_pos (by omega), if_pos hlow]
  rw [if_neg hlow]
  by_cases hlast : 3840 ≤ i ∧ i < 4000
  · rw [if_pos (by omega), if_pos hlast]
  · rw [if_neg (by omega), if_neg (by omega), if_neg hlast]

end Bytes

/-! ## Characters of the echo -/

/-- The character byte of a cell. -/
theorem screenChar_poke {con : Console} (hmap : EchoMapped con) {x y : Int}
    (h0 : 0 ≤ numCols * y + x) (h1 : numCols * y + x < 2048) (b : UInt8) (q : Int) :
    screenChar (poke (cell putckVidMem x y) b con) q =
      if q = numCols * y + x then b else screenChar con q := by
  have haddr : cell putckVidMem x y = 0xBC * kb4 + 2 * (numCols * y + x) := by
    simp only [cell, putckVidMem, kb4]
    omega
  rw [screenChar, poke_offset hmap haddr (by omega) (by simp only [kb4]; omega)]
  exact if_congr (by omega) rfl rfl

/-- An attribute byte, on whatever page. -/
theorem screenChar_poke_attribute (con : Console) {addr : Int} (hodd : addr % 2 = 1) (b : UInt8)
    (q : Int) : screenChar (poke addr b con) q = screenChar con q := by
  rw [screenChar, poke_phys, if_neg]
  · rfl
  · rintro ⟨-, hq⟩
    simp only [kb4] at hq
    omega

theorem cell_attribute (base x y : Int) (hbase : base % 2 = 0) : (cell base x y + 1) % 2 = 1 := by
  simp only [cell]
  omega

/-- A scroll moves the characters of every row up by one and blanks the last row. -/
theorem screenChar_scrollk {con : Console} (hmap : EchoMapped con) (q : Int) :
    screenChar (scrollk con) q =
      if 0 ≤ q ∧ q < 1920 then screenChar con (q + numCols)
      else if 1920 ≤ q ∧ q < 2000 then 32 else screenChar con q := by
  rw [screenChar, scrollk, scrollAt_bytes (show putckVidMem = 0xBC * kb4 from rfl) hmap]
  by_cases hq : 0 ≤ q ∧ q < 1920
  · rw [if_pos (by omega), if_pos hq, screenChar]
    congr 1
    omega
  rw [if_neg (by omega), if_neg hq]
  by_cases hlast : 1920 ≤ q ∧ q < 2000
  · rw [if_pos (by omega), if_pos hlast, if_pos (by omega)]
  · rw [if_neg (by omega), if_neg hlast, screenChar]

/-! ## `putck` -/

/-- A character that `putck` writes into a cell. -/
def isPlain (c : UInt8) : Bool := c != 10 && c != 13 && c != 8

/-- `putck` scrolls for this character. -/
def scrollsFor (v : Fin 3) (c : UInt8) (con : Console) : Bool :=
  if c = 10 ∨ c = 13 then decide (con.screenY v + 1 ≥ numRows)
  else if c = 8 then false
  else decide (con.screenX v ≥ numCols ∧ con.screenY v + 1 ≥ numRows)

/-- The number of cells by which it moves the screen up. -/
def scrolledBy (v : Fin 3) (c : UInt8) (con : Console) : Int :=
  if scrollsFor v c con then numCols else 0

/-- `con'` shows, in the cells before `p`, what `con` shows `d` cells further down. -/
structure ScrolledUp (v : Fin 3) (d p : Int) (con con' : Console) : Prop where
  mapped : EchoMapped con'
  cursor : CursorOk con' v
  before : ∀ q, 0 ≤ q → q < p → screenChar con' q = screenChar con (q + d)

section Putck

variable {s v : Fin 3} {c : UInt8} {con : Console}

theorem isPlain_iff : isPlain c = true ↔ ¬ (c = 10 ∨ c = 13) ∧ c ≠ 8 := by
  simp only [isPlain, Bool.and_eq_true, bne_iff_ne, ne_eq, not_or]

theorem scrolledBy_plain (hc : isPlain c = true) :
    scrolledBy v c con =
      if con.screenX v ≥ numCols ∧ con.screenY v + 1 ≥ numRows then numCols else 0 := by
  obtain ⟨hnl, hbs⟩ := isPlain_iff.mp hc
  simp only [scrolledBy, scrollsFor, if_neg hnl, if_neg hbs, decide_eq_true_eq]

theorem cursorCell_setCursor (t : Fin 3) (x y : Int) (con : Console) :
    cursorCell (setCursor t x y con) t = numCols * y + x := by
  simp only [cursorCell, setCursor, Function.update_self]

theorem screenChar_setCursor (t : Fin 3) (x y : Int) (con : Console) (q : Int) :
    screenChar (setCursor t x y con) q = screenChar con q := rfl

/-- At the end of a row the cursor goes to the next one, which is the same cell; at the end of the
    last row the screen scrolls. -/
theorem wrapLine_scrolledUp (hmap : EchoMapped con) (hok : CursorOk con v)
    (hc : isPlain c = true) :
    let con' := wrapLine v scrollk con
    ScrolledUp v (scrolledBy v c con) (cursorCell con v - scrolledBy v c con) con con' ∧
      con'.screenX v < numCols ∧ cursorCell con' v = cursorCell con v - scrolledBy v c con := by
  obtain ⟨⟨hstep, hcursor⟩, hcolumn⟩ :
      Stepped v (EchoFrame con) con (wrapLine v scrollk con) ∧
        (wrapLine v scrollk con).screenX v < numCols :=
    wrapLine_stepped scrollk_writesOn (Or.inl rfl) hok
  have hmapped : EchoMapped (wrapLine v scrollk con) := by
    rw [EchoMapped, hstep.pageTable]
    exact hmap
  obtain ⟨hx, hx', hy, hy'⟩ := hok
  have hcells : cursorCell (wrapLine v scrollk con) v = cursorCell con v - scrolledBy v c con ∧
      ∀ q, 0 ≤ q → q < cursorCell con v - scrolledBy v c con →
        screenChar (wrapLine v scrollk con) q = screenChar con (q + scrolledBy v c con) := by
    rw [scrolledBy_plain hc]
    by_cases hend : con.screenX v ≥ numCols
    · have hrow : (setCursor v 0 (con.screenY v + 1) con).screenY v = con.screenY v + 1 :=
        Function.update_self _ _ _
      have hfirst : (setCursor v 0 (con.screenY v + 1) con).screenX v = 0 :=
        Function.update_self _ _ _
      rw [wrapLine, if_pos hend, checkScroll, hrow, hfirst]
      by_cases hbottom : con.screenY v + 1 ≥ numRows
      · rw [if_pos hbottom, if_pos ⟨hend, hbottom⟩]
        constructor
        · rw [cursorCell_setCursor]
          simp only [cursorCell, numCols, numRows] at *
          omega
        · intro q h0 hq
          have hmoved : EchoMapped (setCursor v 0 (con.screenY v + 1) con) := hmap
          rw [screenChar_setCursor, screenChar_scrollk hmoved, if_pos, screenChar_setCursor]
          simp only [cursorCell, numCols, numRows] at *
          omega
      · rw [if_neg hbottom, if_neg fun h => hbottom h.2]
        constructor
        · rw [cursorCell_setCursor]
          simp only [cursorCell, numCols] at *
          omega
        · intro q h0 hq
          rw [screenChar_setCursor, Int.add_zero]
    · rw [wrapLine, if_neg hend, if_neg fun h => hend h.1]
      refine ⟨by omega, fun q h0 hq => ?_⟩
      rw [Int.add_zero]
  exact ⟨⟨hmapped, hcursor, hcells.2⟩, hcolumn, hcells.1⟩

/-- **A plain character** goes into the cursor's cell and moves the cursor one cell on. -/
theorem putck_plain (hmap : EchoMapped con) (hok : CursorOk con v) (hc : isPlain c = true) :
    let con' := putck s v c con
    let p := cursorCell con v - scrolledBy v c con
    ScrolledUp v (scrolledBy v c con) p con con' ∧ screenChar con' p = c ∧
      cursorCell con' v = p + 1 := by
  obtain ⟨hwrap, hcolumn, hcell⟩ := wrapLine_scrolledUp hmap hok hc
  obtain ⟨hnl, hbs⟩ := isPlain_iff.mp hc
  intro con' p
  have hput : con' =
      let con := wrapLine v scrollk con
      let con := poke (cell putckVidMem (con.screenX v) (con.screenY v)) c con
      let con := poke (cell videoMem (con.screenX s) (con.screenY s) + 1) attrib con
      updateCursor v (setCursor v (con.screenX v + 1) (con.screenY v) con) := by
    show putck s v c con = _
    rw [putck, if_neg hnl, if_neg hbs]
  generalize wrapLine v scrollk con = wrapped at hput hwrap hcolumn hcell
  obtain ⟨hx, hx', hy, hy'⟩ := hwrap.cursor
  have hp : numCols * wrapped.screenY v + wrapped.screenX v = p := hcell
  have hrange : 0 ≤ p ∧ p < 2000 := by
    rw [← hp]
    simp only [numCols, numRows] at *
    omega
  have hcells : ∀ q, screenChar con' q = if q = p then c else screenChar wrapped q := by
    intro q
    rw [hput]
    show screenChar (poke (cell videoMem (wrapped.screenX s) (wrapped.screenY s) + 1) attrib
      (poke (cell putckVidMem (wrapped.screenX v) (wrapped.screenY v)) c wrapped)) q = _
    rw [screenChar_poke_attribute _ (cell_attribute _ _ _ (by decide)),
      screenChar_poke hwrap.mapped (by omega) (by omega), hp]
  refine ⟨⟨?_, ?_, ?_⟩, ?_, ?_⟩
  · rw [hput]
    exact hwrap.mapped
  · rw [hput]
    exact CursorOk.setCursor (show 0 ≤ wrapped.screenX v + 1 by omega)
      (show wrapped.screenX v + 1 ≤ numCols by omega) hy hy' _
  · intro q h0 hq
    rw [hcells, if_neg (by omega)]
    exact hwrap.before q h0 hq
  · rw [hcells, if_pos rfl]
  · rw [hput]
    show cursorCell (setCursor v (wrapped.screenX v + 1) (wrapped.screenY v) _) v = _
    rw [cursorCell_setCursor, ← hp]
    omega

/-- **A backspace** moves the cursor one cell back and blanks that cell. -/
theorem putck_backspace (hmap : EchoMapped con) (hok : CursorOk con v)
    (hpos : 0 < cursorCell con v) :
    let con' := putck s v 8 con
    ScrolledUp v 0 (cursorCell con v - 1) con con' ∧
      cursorCell con' v = cursorCell con v - 1 := by
  obtain ⟨hx, hx', hy, hy'⟩ := hok
  have hback : ∃ x y, stepBack v con = setCursor v x y con ∧ 0 ≤ x ∧ x < numCols ∧ 0 ≤ y ∧
      y < numRows ∧ numCols * y + x = cursorCell con v - 1 := by
    unfold stepBack
    by_cases hcolumn : con.screenX v = 0
    · have hrow : con.screenY v > 0 := by
        rw [cursorCell, hcolumn] at hpos
        simp only [numCols] at hpos
        omega
      rw [if_pos hcolumn, if_pos hrow]
      refine ⟨numCols - 1, con.screenY v - 1, rfl, by decide, by decide, by omega, by omega, ?_⟩
      rw [cursorCell, hcolumn]
      simp only [numCols]
      omega
    · rw [if_neg hcolumn]
      refine ⟨con.screenX v - 1, con.screenY v, rfl, by omega, by omega, hy, hy', ?_⟩
      rw [cursorCell]
      omega
  obtain ⟨x, y, hstep, h0, h1, h2, h3, hcell⟩ := hback
  intro con'
  have hput : con' = updateCursor v (poke (cell videoMem ((setCursor v x y con).screenX s)
      ((setCursor v x y con).screenY s) + 1) attrib
      (poke (cell putckVidMem x y) 32 (setCursor v x y con))) := by
    show putck s v 8 con = _
    rw [putck, if_neg (by decide), if_pos rfl, hstep]
    show updateCursor v (poke _ attrib (poke (cell putckVidMem ((setCursor v x y con).screenX v)
      ((setCursor v x y con).screenY v)) 32 (setCursor v x y con))) = _
    rw [show (setCursor v x y con).screenX v = x from Function.update_self _ _ _,
      show (setCursor v x y con).screenY v = y from Function.update_self _ _ _]
    rfl
  have hrange : 0 ≤ numCols * y + x ∧ numCols * y + x < 2000 := by
    simp only [numCols, numRows] at *
    omega
  have hmap' : EchoMapped (setCursor v x y con) := hmap
  refine ⟨⟨?_, ?_, ?_⟩, ?_⟩
  · rw [hput]
    exact hmap
  · rw [hput]
    exact CursorOk.setCursor h0 (Int.le_of_lt h1) h2 h3 con
  · intro q hq0 hq
    rw [hput]
    show screenChar (poke _ attrib (poke _ 32 (setCursor v x y con))) q = _
    rw [screenChar_poke_attribute _ (cell_attribute _ _ _ (by decide)),
      screenChar_poke hmap' hrange.1 (by omega), if_neg (by omega), Int.add_zero]
    rfl
  · rw [hput]
    show cursorCell (setCursor v x y con) v = _
    rw [cursorCell_setCursor, hcell]

/-- A newline leaves the cursor on the screen. -/
theorem putck_newline (hmap : EchoMapped con) (hok : CursorOk con v) :
    EchoMapped (putck s v 10 con) ∧ CursorOk (putck s v 10 con) v := by
  have hput : putck s v 10 con = newLine v v scrollk con := if_pos (Or.inl rfl)
  obtain ⟨hstep, hcursor⟩ : Stepped v (EchoFrame con) con (newLine v v scrollk con) :=
    newLine_stepped scrollk_writesOn (Or.inl rfl) v hok
  rw [hput, EchoMapped, hstep.pageTable]
  exact ⟨hmap, hcursor⟩

/-- Clearing the screen leaves the cursor in its first cell. -/
theorem cleark_cursor (v : Fin 3) (hmap : EchoMapped con) :
    EchoMapped (cleark v con) ∧ CursorOk (cleark v con) v ∧ cursorCell (cleark v con) v = 0 := by
  have hwrites : WritesOn (con.pageTable 0xBC) (updateCursor v (setCursor v 0 0 con))
      (cleark v con) := clearAt_writesOn (show putckVidMem = 0xBC * kb4 by simp) v v con
  have hcursor : CursorOk (updateCursor v (setCursor v 0 0 con)) v :=
    CursorOk.setCursor (by decide) (by decide) (by decide) (by decide) con
  refine ⟨?_, hwrites.cursorOk hcursor, ?_⟩
  · rw [EchoMapped, hwrites.pageTable_eq]
    exact hmap
  · rw [cursorCell, hwrites.cursor_eq.1, hwrites.cursor_eq.2]
    exact cursorCell_setCursor v 0 0 con

end Putck

end ByteVerse
