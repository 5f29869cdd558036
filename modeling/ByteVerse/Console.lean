/-
  Screen output: `putc`, `putck`, `clear`, `scroll` and their kernel-side twins from `lib.c`.

  A character cell is a pair of bytes at a virtual address; `poke` writes one byte through the
  page table, so which screen a write reaches is decided by `page_table[..].frame` alone.  Program
  output goes through `video_mem` (virtual page 0xB8), kernel echo through `putck_vidMem` (virtual
  page 0xBC).  Every function takes the scheduled terminal `s` and the visible terminal `v`.

  What later modules need of all this is one fact: with its cursor on the screen, `putc` writes
  only to the frame that virtual page 0xB8 is mapped to, and moves only the cursor of `s`
  (`putc_spec`).
-/
import ByteVerse.Kernel

set_option linter.unusedVariables false

namespace ByteVerse

@[simp] def numCols : Int := 80
@[simp] def numRows : Int := 25
def attrib : UInt8 := 0x1F

/-- `video_mem` and `putck_vidMem`: virtual addresses. -/
@[simp] def videoMem : Int := 0xB8000
@[simp] def putckVidMem : Int := 0xBC000

/-! ## Memory access through the page table -/

def poke (addr : Int) (b : UInt8) (con : Console) : Console :=
  let frame := con.pageTable (addr / kb4)
  let page := Function.update (con.phys frame) (addr % kb4) b
  { con with phys := Function.update con.phys frame page }

def peek (con : Console) (addr : Int) : UInt8 := con.phys (con.pageTable (addr / kb4)) (addr % kb4)

/-- The address of the character byte at column `x` of row `y`; its attribute byte is the next. -/
def cell (base x y : Int) : Int := base + (numCols * y + x) * 2

/-- Character `c` with the standard attribute, at a cell. -/
def pokeCell (addr : Int) (c : UInt8) (con : Console) : Console :=
  poke (addr + 1) attrib (poke addr c con)

/-! ## Cursor and scrolling -/

def setCursor (t : Fin 3) (x y : Int) (con : Console) : Console :=
  { con with screenX := Function.update con.screenX t x
             screenY := Function.update con.screenY t y }

/-- `update_cursor` (and `update_cursork`, the same code): 16 bits, of the visible terminal. -/
def updateCursor (v : Fin 3) (con : Console) : Console :=
  { con with cursorReg := (con.screenY v * numCols + con.screenX v) % 65536 }

/-- The body of `scroll`'s first loop: one cell's character and attribute up by one row. -/
def moveCell (base : Int) (con : Console) (row col : Nat) : Console :=
  let con := poke (cell base col (row - 1)) (peek con (cell base col row)) con
  poke (cell base col (row - 1) + 1) (peek con (cell base col row + 1)) con

/-- The loops of `scroll` at a base address: rows 1 .. 24 up by one, the last row blanked. -/
def moveRows (base : Int) (con : Console) : Console :=
  (List.range' 1 24).foldl
    (fun con row => (List.range 80).foldl (fun con col => moveCell base con row col) con) con

def blankRow (base : Int) (con : Console) : Console :=
  (List.range 80).foldl (fun con (col : Nat) => pokeCell (cell base col (numRows - 1)) 32 con) con

def scrollAt (base : Int) (con : Console) : Console := blankRow base (moveRows base con)

def scroll (con : Console) : Console := scrollAt videoMem con
def scrollk (con : Console) : Console := scrollAt putckVidMem con

/-- The loops of `clear` at a base address, for terminal `t`. -/
def clearAt (t v : Fin 3) (base : Int) (con : Console) : Console :=
  let con := updateCursor v (setCursor t 0 0 con)
  (List.range 2000).foldl (fun con (i : Nat) => pokeCell (base + i * 2) 32 con) con

def clear (s v : Fin 3) (con : Console) : Console := clearAt s v videoMem con
def cleark (v : Fin 3) (con : Console) : Console := clearAt v v putckVidMem con

/-! ## One character -/

/-- "Check if we need to scroll the screen": with the cursor below the last row, scroll. -/
def checkScroll (t : Fin 3) (scroll : Console → Console) (con : Console) : Console :=
  if con.screenY t ≥ numRows then setCursor t (con.screenX t) (numRows - 1) (scroll con) else con

/-- The newline branch of `putc`/`putck`: next row, scrolling at the bottom. -/
def newLine (t v : Fin 3) (scroll : Console → Console) (con : Console) : Console :=
  checkScroll t scroll (updateCursor v (setCursor t 0 (con.screenY t + 1) con))

/-- The cursor move of the backspace branch: left, or up to the end of the row above. -/
def stepBack (t : Fin 3) (con : Console) : Console :=
  if con.screenX t = 0 then
    if con.screenY t > 0 then setCursor t (numCols - 1) (con.screenY t - 1) con else con
  else setCursor t (con.screenX t - 1) (con.screenY t) con

/-- The wrap check before a regular character: at column 80 go to the next row. -/
def wrapLine (t : Fin 3) (scroll : Console → Console) (con : Console) : Console :=
  if con.screenX t ≥ numCols then checkScroll t scroll (setCursor t 0 (con.screenY t + 1) con)
  else con

/-- `putc`: program output, to the scheduled terminal. -/
def putc (s v : Fin 3) (c : UInt8) (con : Console) : Console :=
  if c = 0 then con
  else if c = 10 ∨ c = 13 then newLine s v scroll con
  else if c = 8 then
    let con := stepBack s con
    updateCursor v (pokeCell (cell videoMem (con.screenX s) (con.screenY s)) 32 con)
  else
    let con := wrapLine s scroll con
    let con := pokeCell (cell videoMem (con.screenX s) (con.screenY s)) c con
    updateCursor v (setCursor s (con.screenX s + 1) (con.screenY s) con)

/-- `putck`: kernel echo, to the visible terminal.  The character goes through `putck_vidMem` at
    the visible terminal's cursor, the attribute through `video_mem` at the scheduled one's. -/
def putck (s v : Fin 3) (c : UInt8) (con : Console) : Console :=
  if c = 10 ∨ c = 13 then newLine v v scrollk con
  else if c = 8 then
    let con := stepBack v con
    let con := poke (cell putckVidMem (con.screenX v) (con.screenY v)) 32 con
    let con := poke (cell videoMem (con.screenX s) (con.screenY s) + 1) attrib con
    updateCursor v con
  else
    let con := wrapLine v scrollk con
    let con := poke (cell putckVidMem (con.screenX v) (con.screenY v)) c con
    let con := poke (cell videoMem (con.screenX s) (con.screenY s) + 1) attrib con
    updateCursor v (setCursor v (con.screenX v + 1) (con.screenY v) con)

/-- `printfk` on a format string without conversions: its characters through `putck`. -/
def printfkText (s v : Fin 3) (cs : List UInt8) (con : Console) : Console :=
  cs.foldl (fun con c => putck s v c con) con

/-! ## Writes that stay on one frame -/

/-- `con'` is `con` with bytes of the frame `f` changed and nothing else. -/
def WritesOn (f : Int) (con con' : Console) : Prop :=
  ∃ p, con' = { con with phys := p } ∧ ∀ g, g ≠ f → p g = con.phys g

theorem WritesOn.refl (f : Int) (con : Console) : WritesOn f con con :=
  ⟨con.phys, rfl, fun _ _ => rfl⟩

theorem WritesOn.trans {f : Int} {con con' con'' : Console} (h : WritesOn f con con')
    (h' : WritesOn f con' con'') : WritesOn f con con'' := by
  obtain ⟨p, rfl, hp⟩ := h
  obtain ⟨p', rfl, hp'⟩ := h'
  exact ⟨p', rfl, fun g hg => (hp' g hg).trans (hp g hg)⟩

/-- A `poke` writes on the frame its page is mapped to. -/
theorem poke_writesOn (addr : Int) (b : UInt8) (con : Console) :
    WritesOn (con.pageTable (addr / kb4)) con (poke addr b con) :=
  ⟨_, rfl, fun _ hg => Function.update_of_ne hg _ _⟩

theorem WritesOn.pageTable_eq {f : Int} {con con' : Console} (h : WritesOn f con con') :
    con'.pageTable = con.pageTable := by
  obtain ⟨p, rfl, -⟩ := h
  rfl

/-- A loop of writes on one frame is a write on that frame. -/
theorem WritesOn.foldl {ι : Type} {page : Int} {g : Console → ι → Console} (l : List ι)
    (con : Console)
    (hg : ∀ con, ∀ i ∈ l, WritesOn (con.pageTable page) con (g con i)) :
    WritesOn (con.pageTable page) con (l.foldl g con) := by
  induction l generalizing con with
  | nil => exact WritesOn.refl _ con
  | cons i l ih =>
    have h1 := hg con i List.mem_cons_self
    have h2 := ih (g con i) fun con j hj => hg con j (List.mem_cons_of_mem i hj)
    rw [h1.pageTable_eq] at h2
    exact h1.trans h2

/-- The two bytes of a cell lie on the page of the cell. -/
theorem pokeCell_writesOn {page addr : Int} (c : UInt8) (con : Console)
    (h0 : addr / kb4 = page) (h1 : (addr + 1) / kb4 = page) :
    WritesOn (con.pageTable page) con (pokeCell addr c con) := by
  have hc := poke_writesOn addr c con
  have ha := poke_writesOn (addr + 1) attrib (poke addr c con)
  rw [hc.pageTable_eq] at ha
  rw [h0] at hc
  rw [h1] at ha
  exact hc.trans ha

/-- Both bytes of a cell on the screen, or one past the end of a row, lie on the base's page. -/
theorem cell_page {base page x y : Int} (hb : base = page * kb4) (hx : 0 ≤ x) (hx' : x ≤ numCols)
    (hy : 0 ≤ y) (hy' : y < numRows) :
    cell base x y / kb4 = page ∧ (cell base x y + 1) / kb4 = page := by
  simp only [cell, numCols, numRows, kb4] at *
  omega

theorem moveCell_writesOn {base page : Int} (hb : base = page * kb4) (con : Console)
    {row col : Nat} (hrow : row ∈ List.range' 1 24) (hcol : col ∈ List.range 80) :
    WritesOn (con.pageTable page) con (moveCell base con row col) := by
  rw [List.mem_range'_1] at hrow
  rw [List.mem_range] at hcol
  have hpage := cell_page hb (show (0 : Int) ≤ col by omega) (by simp only [numCols]; omega)
    (show (0 : Int) ≤ row - 1 by omega) (by simp only [numRows]; omega)
  have h1 := poke_writesOn (cell base col (row - 1)) (peek con (cell base col row)) con
  have h2 := poke_writesOn (cell base col (row - 1) + 1)
    (peek (poke (cell base col (row - 1)) (peek con (cell base col row)) con)
      (cell base col row + 1))
    (poke (cell base col (row - 1)) (peek con (cell base col row)) con)
  rw [h1.pageTable_eq, hpage.2] at h2
  rw [hpage.1] at h1
  exact h1.trans h2

theorem scrollAt_writesOn {base page : Int} (hb : base = page * kb4) (con : Console) :
    WritesOn (con.pageTable page) con (scrollAt base con) := by
  have hrows : WritesOn (con.pageTable page) con (moveRows base con) :=
    WritesOn.foldl _ con fun con _ hrow =>
      WritesOn.foldl _ con fun con _ hcol => moveCell_writesOn hb con hrow hcol
  have hblank : WritesOn ((moveRows base con).pageTable page) (moveRows base con)
      (blankRow base (moveRows base con)) := by
    refine WritesOn.foldl _ _ fun con col hcol => ?_
    rw [List.mem_range] at hcol
    have hpage := cell_page hb (show (0 : Int) ≤ col by omega) (by simp only [numCols]; omega)
      (show 0 ≤ numRows - 1 by simp) (by simp)
    exact pokeCell_writesOn 32 con hpage.1 hpage.2
  rw [hrows.pageTable_eq] at hblank
  exact hrows.trans hblank

theorem scroll_writesOn (con : Console) : WritesOn (con.pageTable 0xB8) con (scroll con) :=
  scrollAt_writesOn (by simp) con

theorem scrollk_writesOn (con : Console) : WritesOn (con.pageTable 0xBC) con (scrollk con) :=
  scrollAt_writesOn (by simp) con

/-! ## What one call of the console can change -/

/-- The cursor of `t` is on the screen (column 80 is "past the last column, wrap pending"). -/
def CursorOk (con : Console) (t : Fin 3) : Prop :=
  0 ≤ con.screenX t ∧ con.screenX t ≤ numCols ∧ 0 ≤ con.screenY t ∧ con.screenY t < numRows

/-- `con'` differs from `con` in the cursor of `t`, in frames that satisfy `on`, and in the
    hardware cursor, and in nothing else. -/
structure ScreenStep (t : Fin 3) (on : Int → Prop) (con con' : Console) : Prop where
  pageTable : con'.pageTable = con.pageTable
  pageTableVidmap : con'.pageTableVidmap = con.pageTableVidmap
  screenX : ∀ u, u ≠ t → con'.screenX u = con.screenX u
  screenY : ∀ u, u ≠ t → con'.screenY u = con.screenY u
  phys : ∀ f, ¬ on f → con'.phys f = con.phys f

variable {t : Fin 3} {on : Int → Prop} {con con' con'' : Console}

theorem ScreenStep.refl (t : Fin 3) (on : Int → Prop) (con : Console) : ScreenStep t on con con :=
  ⟨rfl, rfl, fun _ _ => rfl, fun _ _ => rfl, fun _ _ => rfl⟩

theorem ScreenStep.trans (h : ScreenStep t on con con') (h' : ScreenStep t on con' con'') :
    ScreenStep t on con con'' where
  pageTable := h'.pageTable.trans h.pageTable
  pageTableVidmap := h'.pageTableVidmap.trans h.pageTableVidmap
  screenX u hu := (h'.screenX u hu).trans (h.screenX u hu)
  screenY u hu := (h'.screenY u hu).trans (h.screenY u hu)
  phys f hf := (h'.phys f hf).trans (h.phys f hf)

theorem ScreenStep.setCursor (h : ScreenStep t on con con') (x y : Int) :
    ScreenStep t on con (setCursor t x y con') :=
  h.trans ⟨rfl, rfl, fun _ hu => Function.update_of_ne hu _ _,
    fun _ hu => Function.update_of_ne hu _ _, fun _ _ => rfl⟩

theorem ScreenStep.updateCursor (h : ScreenStep t on con con') (v : Fin 3) :
    ScreenStep t on con (updateCursor v con') :=
  h.trans ⟨rfl, rfl, fun _ _ => rfl, fun _ _ => rfl, fun _ _ => rfl⟩

theorem ScreenStep.writes (h : ScreenStep t on con con') {f : Int} (hw : WritesOn f con' con'')
    (hf : on f) : ScreenStep t on con con'' := by
  refine h.trans ?_
  obtain ⟨p, rfl, hp⟩ := hw
  exact ⟨rfl, rfl, fun _ _ => rfl, fun _ _ => rfl, fun g hg => hp g fun heq => hg (heq ▸ hf)⟩

/-- Writes on a frame leave every cursor where it was. -/
theorem WritesOn.cursor_eq {f : Int} (h : WritesOn f con con') :
    con'.screenX = con.screenX ∧ con'.screenY = con.screenY := by
  obtain ⟨p, rfl, -⟩ := h
  exact ⟨rfl, rfl⟩

theorem CursorOk.setCursor {x y : Int} (hx : 0 ≤ x) (hx' : x ≤ numCols) (hy : 0 ≤ y)
    (hy' : y < numRows) (con : Console) : CursorOk (setCursor t x y con) t := by
  simp only [CursorOk, ByteVerse.setCursor, Function.update_self]
  exact ⟨hx, hx', hy, hy'⟩

/-- A step that moves only the cursor of `t` keeps the other cursors on the screen. -/
theorem ScreenStep.cursorOk (h : ScreenStep t on con con') {u : Fin 3} (hu : u ≠ t)
    (hok : CursorOk con u) : CursorOk con' u := by
  simpa only [CursorOk, h.screenX u hu, h.screenY u hu] using hok

theorem WritesOn.cursorOk {f : Int} (h : WritesOn f con con') (hok : CursorOk con t) :
    CursorOk con' t := by
  simpa only [CursorOk, h.cursor_eq] using hok

/-! ### The pieces of `putc` and `putck` -/

/-- A console call on terminal `t`, seen from the console `con` it started in: it has moved only
    the cursor of `t`, written only to frames in `on`, and has left that cursor on the screen. -/
def Stepped (t : Fin 3) (on : Int → Prop) (con con' : Console) : Prop :=
  ScreenStep t on con con' ∧ CursorOk con' t

theorem Stepped.writes (h : Stepped t on con con') {f : Int} (hw : WritesOn f con' con'')
    (hf : on f) : Stepped t on con con'' :=
  ⟨h.1.writes hw hf, hw.cursorOk h.2⟩

theorem Stepped.updateCursor (h : Stepped t on con con') (v : Fin 3) :
    Stepped t on con (updateCursor v con') :=
  ⟨h.1.updateCursor v, h.2⟩

/-- A call on `t` keeps all three cursors on the screen when they were there. -/
theorem Stepped.cursorsOk (h : Stepped t on con con') (hok : ∀ u, CursorOk con u) :
    ∀ u, CursorOk con' u := by
  intro u
  by_cases hu : u = t
  · exact hu ▸ h.2
  · exact h.1.cursorOk hu (hok u)

section Pieces

variable {page : Int} {scroll : Console → Console}
  (hscroll : ∀ con, WritesOn (con.pageTable page) con (scroll con)) (hon : on (con.pageTable page))

include hscroll hon

theorem checkScroll_stepped (h : ScreenStep t on con con') (hx : con'.screenX t = 0)
    (hy : 0 ≤ con'.screenY t) (hy' : con'.screenY t ≤ numRows) :
    Stepped t on con (checkScroll t scroll con') ∧
      (checkScroll t scroll con').screenX t = 0 := by
  unfold checkScroll
  split
  · have hw := hscroll con'
    rw [h.pageTable] at hw
    refine ⟨⟨(h.writes hw hon).setCursor _ _, ?_⟩, ?_⟩
    · exact CursorOk.setCursor (by omega) (by rw [hx]; simp) (by simp) (by simp) _
    · simp [ByteVerse.setCursor, hx]
  · refine ⟨⟨h, ?_⟩, hx⟩
    exact ⟨by omega, by rw [hx]; simp, hy, by omega⟩

theorem newLine_stepped (v : Fin 3) (hok : CursorOk con t) :
    Stepped t on con (newLine t v scroll con) := by
  obtain ⟨hx, hx', hy, hy'⟩ := hok
  refine (checkScroll_stepped hscroll hon
    (((ScreenStep.refl t on con).setCursor 0 _).updateCursor v) ?_ ?_ ?_).1
  · exact Function.update_self t 0 _
  · show 0 ≤ Function.update con.screenY t (con.screenY t + 1) t
    rw [Function.update_self]
    omega
  · show Function.update con.screenY t (con.screenY t + 1) t ≤ numRows
    rw [Function.update_self]
    omega

/-- After the wrap check the cursor is at a real column. -/
theorem wrapLine_stepped (hok : CursorOk con t) :
    Stepped t on con (wrapLine t scroll con) ∧ (wrapLine t scroll con).screenX t < numCols := by
  obtain ⟨hx, hx', hy, hy'⟩ := hok
  unfold wrapLine
  split
  · obtain ⟨h, hx0⟩ := checkScroll_stepped hscroll hon
      ((ScreenStep.refl t on con).setCursor 0 (con.screenY t + 1)) (Function.update_self t 0 _)
      (by simp only [ByteVerse.setCursor, Function.update_self]; omega)
      (by simp only [ByteVerse.setCursor, Function.update_self]; omega)
    exact ⟨h, by rw [hx0]; simp⟩
  · exact ⟨⟨ScreenStep.refl t on con, hx, hx', hy, hy'⟩, by omega⟩

end Pieces

theorem stepBack_stepped (hok : CursorOk con t) : Stepped t on con (stepBack t con) := by
  obtain ⟨hx, hx', hy, hy'⟩ := hok
  have hrefl := ScreenStep.refl t on con
  unfold stepBack
  split
  · split
    · exact ⟨hrefl.setCursor _ _,
        CursorOk.setCursor (by simp) (by simp) (by omega) (by omega) con⟩
    · exact ⟨hrefl, hx, hx', hy, hy'⟩
  · exact ⟨hrefl.setCursor _ _,
      CursorOk.setCursor (by omega) (by omega) (by omega) (by omega) con⟩

/-- The cursor moves right after a character: from a real column it stays on the screen. -/
theorem Stepped.advance (h : Stepped t on con con') (hlt : con'.screenX t < numCols) :
    Stepped t on con (ByteVerse.setCursor t (con'.screenX t + 1) (con'.screenY t) con') := by
  obtain ⟨hx, hx', hy, hy'⟩ := h.2
  exact ⟨h.1.setCursor _ _, CursorOk.setCursor (by omega) (by omega) hy hy' con'⟩

/-! ### `putc`, `putck` and `clear` -/

/-- The frame `video_mem` is mapped to: where program output goes. -/
def videoFrame (con : Console) : Int := con.pageTable videoMemAddr

/-- The frame program output is written to. -/
def OutputFrame (con : Console) (f : Int) : Prop := f = videoFrame con

/-- A byte stored at a cell the cursor of `u` is at lands on the frame of the base's page. -/
theorem poke_cell_writesOn {base page i : Int} (hb : base = page * kb4) (hi : i = 0 ∨ i = 1)
    (b : UInt8) {u : Fin 3} (hok : CursorOk con u) :
    WritesOn (con.pageTable page) con
      (poke (cell base (con.screenX u) (con.screenY u) + i) b con) := by
  obtain ⟨hx, hx', hy, hy'⟩ := hok
  have hpage := cell_page hb hx hx' hy hy'
  have h := poke_writesOn (cell base (con.screenX u) (con.screenY u) + i) b con
  rcases hi with rfl | rfl
  · rw [Int.add_zero] at h ⊢
    rwa [hpage.1] at h
  · rwa [hpage.2] at h

/-- **What `putc` can change**: with its cursor on the screen it writes only to the frame that
    `video_mem` is mapped to, moves only the cursor of the scheduled terminal, and leaves that
    cursor on the screen. -/
theorem putc_stepped (v : Fin 3) (c : UInt8) (hok : CursorOk con t) :
    Stepped t (OutputFrame con) con (putc t v c con) := by
  -- both branches that draw write one cell at the cursor reached so far
  have hput : ∀ {con' : Console} (b : UInt8), Stepped t (OutputFrame con) con con' →
      Stepped t (OutputFrame con) con
        (pokeCell (cell videoMem (con'.screenX t) (con'.screenY t)) b con') := by
    intro con' b h
    obtain ⟨hx, hx', hy, hy'⟩ := h.2
    have hpage := cell_page (show videoMem = videoMemAddr * kb4 by simp) hx hx' hy hy'
    have hw := pokeCell_writesOn b con' hpage.1 hpage.2
    rw [h.1.pageTable] at hw
    exact h.writes hw rfl
  have hon : OutputFrame con (con.pageTable videoMemAddr) := rfl
  unfold putc
  split
  · exact ⟨ScreenStep.refl t _ con, hok⟩
  split
  · exact newLine_stepped scroll_writesOn hon v hok
  split
  · exact (hput 32 (stepBack_stepped hok)).updateCursor v
  · obtain ⟨h, hlt⟩ := wrapLine_stepped scroll_writesOn hon hok
    exact ((hput c h).advance hlt).updateCursor v

/-- The frames kernel echo writes to: that of virtual page 0xBC (the characters) and the one
    `video_mem` is mapped to (the attributes). -/
def EchoFrame (con : Console) (f : Int) : Prop := f = con.pageTable 0xBC ∨ f = videoFrame con

/-- What `putck` can change: the cursor of the visible terminal and the two echo frames. -/
theorem putck_stepped (s v : Fin 3) (c : UInt8) (hok : ∀ u, CursorOk con u) :
    Stepped v (EchoFrame con) con (putck s v c con) := by
  have hput : ∀ {con' : Console} (b : UInt8), Stepped v (EchoFrame con) con con' →
      Stepped v (EchoFrame con) con
        (poke (cell videoMem (con'.screenX s) (con'.screenY s) + 1) attrib
          (poke (cell putckVidMem (con'.screenX v) (con'.screenY v)) b con')) := by
    intro con' b h
    have hw := poke_cell_writesOn (show putckVidMem = 0xBC * kb4 by simp) (Or.inl rfl) b h.2
    rw [Int.add_zero, h.1.pageTable] at hw
    have h1 := h.writes hw (Or.inl rfl)
    have hw1 := poke_cell_writesOn (show videoMem = videoMemAddr * kb4 by simp) (Or.inr rfl) attrib
      (h1.cursorsOk hok s)
    rw [h1.1.pageTable] at hw1
    exact h1.writes hw1 (Or.inr rfl)
  have hon : EchoFrame con (con.pageTable 0xBC) := Or.inl rfl
  unfold putck
  split
  · exact newLine_stepped scrollk_writesOn hon v (hok v)
  split
  · exact (hput 32 (stepBack_stepped (hok v))).updateCursor v
  · obtain ⟨h, hlt⟩ := wrapLine_stepped scrollk_writesOn hon (hok v)
    exact ((hput c h).advance hlt).updateCursor v

/-- Kernel echo keeps every cursor on the screen and leaves the mapping alone. -/
theorem printfkText_spec (s v : Fin 3) (cs : List UInt8) (hok : ∀ u, CursorOk con u) :
    (∀ u, CursorOk (printfkText s v cs con) u) ∧
      (printfkText s v cs con).pageTable = con.pageTable ∧
      (printfkText s v cs con).pageTableVidmap = con.pageTableVidmap := by
  induction cs generalizing con with
  | nil => exact ⟨hok, rfl, rfl⟩
  | cons c cs ih =>
    have h := putck_stepped s v c hok
    obtain ⟨hok', hpt, hvm⟩ := ih (h.cursorsOk hok)
    exact ⟨hok', hpt.trans h.1.pageTable, hvm.trans h.1.pageTableVidmap⟩

/-- The loop of `clear` blanks cells of one page. -/
theorem clearAt_writesOn {base page : Int} (hb : base = page * kb4) (t v : Fin 3) (con : Console) :
    WritesOn (con.pageTable page) (updateCursor v (setCursor t 0 0 con)) (clearAt t v base con) := by
  have hloop : ∀ con : Console, ∀ i ∈ List.range 2000, WritesOn (con.pageTable page) con
      (pokeCell (base + (i : Int) * 2) 32 con) := by
    intro con i hi
    rw [List.mem_range] at hi
    exact pokeCell_writesOn 32 con (by simp only [kb4] at *; omega) (by simp only [kb4] at *; omega)
  exact WritesOn.foldl _ (updateCursor v (setCursor t 0 0 con)) hloop

theorem clearAt_stepped {base page : Int} (hb : base = page * kb4) (hon : on (con.pageTable page))
    (v : Fin 3) : Stepped t on con (clearAt t v base con) := by
  have h : Stepped t on con (updateCursor v (setCursor t 0 0 con)) :=
    ⟨((ScreenStep.refl t _ con).setCursor 0 0).updateCursor v,
      CursorOk.setCursor (by omega) (by simp) (by omega) (by simp) con⟩
  exact h.writes (clearAt_writesOn hb t v con) hon

/-- `clear` writes only to the frame `video_mem` is mapped to, and homes the cursor. -/
theorem clear_stepped (v : Fin 3) (con : Console) :
    Stepped t (OutputFrame con) con (clear t v con) := by
  have hon : OutputFrame con (con.pageTable videoMemAddr) := rfl
  exact clearAt_stepped (show videoMem = videoMemAddr * kb4 by simp) hon v

/-- `cleark` writes only to the frame that virtual page 0xBC is mapped to. -/
theorem cleark_stepped (v : Fin 3) (con : Console) :
    Stepped v (EchoFrame con) con (cleark v con) := by
  have hon : EchoFrame con (con.pageTable 0xBC) := Or.inl rfl
  exact clearAt_stepped (show putckVidMem = 0xBC * kb4 by simp) hon v

end ByteVerse
