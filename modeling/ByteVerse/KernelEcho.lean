/-
  What kernel echo changes.

  `putck` and `printfk` are copies of `putc` and `printf` for the visible terminal, and in two places the
  copy was not finished.  `putck` stores the character through `putck_vidMem` at the visible terminal's
  cursor, but the attribute through `video_mem` at the scheduled terminal's.  `printfk` prints
  converted numbers and strings with `puts`, that is with `putc`, to the scheduled terminal.

  `call_right_iff` says for each call of the two routines in which states it is right whatever is in
  memory: nothing but the cursor and the page of the visible terminal changes, and the cell that is
  written has its attribute too.  The memory that shows a wrong one to be wrong is full of zeros.
-/
import ByteVerse.Format
import ByteVerse.HardwareCursor

set_option linter.unusedVariables false

namespace ByteVerse

open Run

/-! ## The property -/

/-- From `con` to `con'` nothing has changed but the cursor and the page of the visible terminal `v`. -/
structure OnlyVisible (v : Fin 3) (con con' : Console) : Prop where
  cursors : ∀ u, u ≠ v → con'.screenX u = con.screenX u ∧ con'.screenY u = con.screenY u
  pages : ∀ f, f ≠ videoMemAddr → con'.phys f = con.phys f

/-- The cell of terminal `t` that a character is written to, unless it is a newline. -/
def charCell (t : Fin 3) (c : UInt8) (con : Console) : Int :=
  if c = 8 then if cursorCell con t = 0 then 0 else cursorCell con t - 1
  else cursorCell con t - scrolledBy t c con

/-- The character that appears there. -/
def shownChar (c : UInt8) : UInt8 := if c = 8 then 32 else c

/-- The cell that a call writes, and what to. -/
def CharCall.written (s v : Fin 3) (con : Console) : CharCall → Option (Int × UInt8)
  | .putc c =>
    if c = 0 ∨ c = 10 ∨ c = 13 then none else some (charCell s c con, shownChar c)
  | .putck c => if c = 10 ∨ c = 13 then none else some (charCell v c con, shownChar c)

/-- A call has done what an echo to the visible terminal should do. -/
structure Echoes (s v : Fin 3) (con : Console) (call : CharCall) : Prop where
  only : OnlyVisible v con (call.exec s v con)
  cell : ∀ p c, call.written s v con = some (p, c) →
    (call.exec s v con).phys videoMemAddr (2 * p) = c ∧
      (call.exec s v con).phys videoMemAddr (2 * p + 1) = attrib

def withMemory (phys : Int → Int → UInt8) (con : Console) : Console := { con with phys := phys }

/-- It does so whatever is in memory. -/
def CallRight (s v : Fin 3) (con : Console) (call : CharCall) : Prop :=
  ∀ phys, Echoes s v (withMemory phys con) call

/-! ## The condition -/

/-- A newline or a backspace that leaves the cursor where it is. -/
def staysPut (t : Fin 3) (c : UInt8) (con : Console) : Prop :=
  (c = 10 ∨ c = 13) ∧ con.screenX t = 0 ∧ con.screenY t = numRows - 1 ∨
    c = 8 ∧ con.screenX t = 0 ∧ con.screenY t = 0

/-- A newline that does not scroll. -/
def movesOnly (t : Fin 3) (c : UInt8) (con : Console) : Prop :=
  (c = 10 ∨ c = 13) ∧ con.screenY t < numRows - 1

def goodCall (s v : Fin 3) (con : Console) : CharCall → Prop
  | .putc c =>
    c = 0 ∨ ((s = v ∨ staysPut s c con) ∧ (videoFrame con = videoMemAddr ∨ movesOnly s c con))
  | .putck c =>
    (c = 10 ∨ c = 13) ∨ (videoFrame con = videoMemAddr ∧
      (s = v ∨ cursorCell con s = charCell v c con ∨ scrollsFor v c con = true))

instance (s v : Fin 3) (con : Console) (call : CharCall) : Decidable (goodCall s v con call) :=
  match call with
  | .putc c => inferInstanceAs (Decidable (_ ∨ (_ ∨ (_ ∧ _) ∨ _) ∧ (_ ∨ _ ∧ _)))
  | .putck c => inferInstanceAs (Decidable (_ ∨ (_ ∧ _)))

/-! ## Where a character goes -/

section Place

variable {t : Fin 3} {c : UInt8} {con : Console}

theorem setCursor_self (t : Fin 3) (con : Console) :
    setCursor t (con.screenX t) (con.screenY t) con = con := by
  rw [setCursor, Function.update_eq_self, Function.update_eq_self]

/-- A terminal's cursor is set to a cell that holds a character. -/
structure PlacedAt (t : Fin 3) (p : Int) (con con' : Console) (x y : Int) : Prop where
  eq : con' = setCursor t x y con
  left : 0 ≤ x
  right : x < 80
  top : 0 ≤ y
  bottom : y < 25
  place : 80 * y + x = p

theorem stepBack_placed (hok : CursorOk con t) :
    ∃ x y, PlacedAt t (charCell t 8 con) con (stepBack t con) x y := by
  obtain ⟨hx, hx', hy, hy'⟩ := hok
  have hcell : charCell t 8 con = if cursorCell con t = 0 then 0 else cursorCell con t - 1 := rfl
  have hcursor : cursorCell con t = 80 * con.screenY t + con.screenX t := rfl
  have hcols : numCols = 80 := rfl
  have hrows : numRows = 25 := rfl
  rw [hcell, stepBack]
  by_cases hcolumn : con.screenX t = 0
  · rw [if_pos hcolumn]
    by_cases hrow : con.screenY t > 0
    · rw [if_pos hrow, if_neg (by omega)]
      exact ⟨numCols - 1, con.screenY t - 1, rfl, by omega, by omega, by omega, by omega, by omega⟩
    · rw [if_neg hrow, if_pos (by omega)]
      exact ⟨con.screenX t, con.screenY t, (setCursor_self t con).symm, by omega, by omega, by omega,
        by omega, by omega⟩
  · rw [if_neg hcolumn, if_neg (by omega)]
    exact ⟨con.screenX t - 1, con.screenY t, rfl, by omega, by omega, by omega, by omega, by omega⟩

/-- The console in which the character is stored: scrolled or not. -/
def scrolledFor (t : Fin 3) (c : UInt8) (scroll : Console → Console) (con : Console) : Console :=
  if scrollsFor t c con then scroll (setCursor t 0 (con.screenY t + 1) con) else con

theorem wrapLine_placed (scroll : Console → Console) (hc : isPlain c = true) (hok : CursorOk con t) :
    ∃ x y, PlacedAt t (charCell t c con) (scrolledFor t c scroll con) (wrapLine t scroll con) x y := by
  obtain ⟨hx, hx', hy, hy'⟩ := hok
  obtain ⟨hnl, hbs⟩ := isPlain_iff.mp hc
  have hscrolls : scrollsFor t c con =
      decide (con.screenX t ≥ numCols ∧ con.screenY t + 1 ≥ numRows) := by
    rw [scrollsFor, if_neg hnl, if_neg hbs]
  have hcursor : cursorCell con t = 80 * con.screenY t + con.screenX t := rfl
  have hcols : numCols = 80 := rfl
  have hrows : numRows = 25 := rfl
  rw [charCell, if_neg hbs, scrolledBy_plain hc, scrolledFor, hscrolls, wrapLine, checkScroll,
    setCursor_screenX, setCursor_screenY]
  by_cases hend : con.screenX t ≥ numCols
  · rw [if_pos hend]
    by_cases hbottom : con.screenY t + 1 ≥ numRows
    · rw [if_pos hbottom, if_pos ⟨hend, hbottom⟩, if_pos (decide_eq_true ⟨hend, hbottom⟩)]
      exact ⟨0, numRows - 1, rfl, by omega, by omega, by omega, by omega, by omega⟩
    · have hnot : ¬ (con.screenX t ≥ numCols ∧ con.screenY t + 1 ≥ numRows) := fun h => hbottom h.2
      rw [if_neg hbottom, if_neg hnot, if_neg (by simpa using hnot)]
      exact ⟨0, con.screenY t + 1, rfl, by omega, by omega, by omega, by omega, by omega⟩
  · have hnot : ¬ (con.screenX t ≥ numCols ∧ con.screenY t + 1 ≥ numRows) := fun h => hend h.1
    rw [if_neg hend, if_neg hnot, if_neg (by simpa using hnot)]
    exact ⟨con.screenX t, con.screenY t, (setCursor_self t con).symm, by omega, by omega, by omega,
      by omega, by omega⟩

theorem PlacedAt.cursorOk {p x y : Int} {con' : Console} (h : PlacedAt t p con con' x y) :
    CursorOk con' t := by
  rw [h.eq]
  exact CursorOk.setCursor h.left (Int.le_of_lt h.right) h.top h.bottom con

/-- Scrolling leaves the mapping and the other cursors. -/
theorem scrolledFor_spec {page : Int} {scroll : Console → Console}
    (hscroll : ∀ con, WritesOn (con.pageTable page) con (scroll con)) (t : Fin 3) (c : UInt8)
    (con : Console) :
    (scrolledFor t c scroll con).pageTable = con.pageTable ∧
      ∀ u, u ≠ t → (scrolledFor t c scroll con).screenX u = con.screenX u ∧
        (scrolledFor t c scroll con).screenY u = con.screenY u := by
  unfold scrolledFor
  split
  · have hwrites := hscroll (setCursor t 0 (con.screenY t + 1) con)
    obtain ⟨hx, hy⟩ := hwrites.cursor_eq
    refine ⟨hwrites.pageTable_eq, fun u hu => ?_⟩
    rw [hx, hy]
    exact ⟨Function.update_of_ne hu _ _, Function.update_of_ne hu _ _⟩
  · exact ⟨rfl, fun u _ => ⟨rfl, rfl⟩⟩

end Place

/-! ## What is drawn -/

/-- `m'` is `m` with a character at cell `p` of frame `f` and an attribute at cell `q` of frame `g`. -/
def Drawn (f p : Int) (c : UInt8) (g q : Int) (m m' : Int → Int → UInt8) : Prop :=
  ∀ h i, m' h i =
    if h = g ∧ i = 2 * q + 1 then attrib else if h = f ∧ i = 2 * p then c else m h i

section Drawn

variable {s t v u : Fin 3} {c : UInt8} {con con' : Console}

/-- The page and the offset of a cell. -/
theorem cell_address {base page x y : Int} (hbase : base = page * kb4) (h0 : 0 ≤ 80 * y + x)
    (h1 : 80 * y + x < 2048) :
    (cell base x y / kb4 = page ∧ cell base x y % kb4 = 2 * (80 * y + x)) ∧
      (cell base x y + 1) / kb4 = page ∧ (cell base x y + 1) % kb4 = 2 * (80 * y + x) + 1 := by
  have haddr : cell base x y = 2 * (80 * y + x) + page * 4096 := by
    rw [cell, hbase]
    simp only [numCols, kb4]
    omega
  rw [haddr]
  simp only [kb4]
  omega

/-- The two stores, with the cursor of `t` placed. -/
theorem PlacedAt.drawn {p x y base page : Int} (h : PlacedAt t p con con' x y)
    (hbase : base = page * kb4) (hu : CursorOk con' u) :
    Drawn (con.pageTable page) p c (videoFrame con) (cursorCell con' u) con.phys
      (poke (cell videoMem (con'.screenX u) (con'.screenY u) + 1) attrib
        (poke (cell base (con'.screenX t) (con'.screenY t)) c con')).phys := by
  intro f i
  obtain ⟨hux, hux', huy, huy'⟩ := hu
  have hcols : numCols = 80 := rfl
  have hrows : numRows = 25 := rfl
  have hvideo : videoMem = videoMemAddr * kb4 := by simp
  obtain ⟨-, hpage, hoffset⟩ := cell_address (x := con'.screenX u) (y := con'.screenY u) hvideo
    (by omega) (by omega)
  have hcursor : cursorCell con' u = 80 * con'.screenY u + con'.screenX u := rfl
  rw [poke_phys, hpage, hoffset, hcursor]
  have hx : con'.screenX t = x := by
    rw [h.eq]
    exact setCursor_screenX t x y con
  have hy : con'.screenY t = y := by
    rw [h.eq]
    exact setCursor_screenY t x y con
  have hleft := h.left
  have hright := h.right
  have htop := h.top
  have hbottom := h.bottom
  obtain ⟨⟨hpage', hoffset'⟩, -⟩ := cell_address (x := x) (y := y) hbase (by omega) (by omega)
  rw [poke_phys, hx, hy, hpage', hoffset', h.place, h.eq]
  rfl

/-- The cursors with that of `t` placed. -/
theorem PlacedAt.cursorCell {p x y : Int} (h : PlacedAt t p con con' x y) (u : Fin 3) :
    cursorCell con' u = if u = t then p else ByteVerse.cursorCell con u := by
  rw [h.eq]
  by_cases hu : u = t
  · rw [hu, if_pos rfl, cursorCell_setCursor]
    exact h.place
  · rw [if_neg hu]
    show numCols * Function.update con.screenY t y u + Function.update con.screenX t x u = _
    rw [Function.update_of_ne hu, Function.update_of_ne hu]
    rfl

theorem putck_drawn (hmap : EchoMapped con) (hok : ∀ u, CursorOk con u) (hc : ¬ (c = 10 ∨ c = 13)) :
    Drawn videoMemAddr (charCell v c con) (shownChar c) (videoFrame con)
      (if s = v then charCell v c con else cursorCell con s)
      (scrolledFor v c scrollk con).phys (putck s v c con).phys := by
  have hecho : putckVidMem = 0xBC * kb4 := by simp
  obtain ⟨hpages, hcursors⟩ := scrolledFor_spec scrollk_writesOn v c con
  -- both branches place the cursor and then draw
  obtain ⟨x, y, con', hplaced, hput⟩ : ∃ x y con',
      PlacedAt v (charCell v c con) (scrolledFor v c scrollk con) con' x y ∧
        (putck s v c con).phys =
          (poke (cell videoMem (con'.screenX s) (con'.screenY s) + 1) attrib
            (poke (cell putckVidMem (con'.screenX v) (con'.screenY v)) (shownChar c) con')).phys := by
    unfold putck
    rw [if_neg hc]
    by_cases hback : c = 8
    · subst hback
      obtain ⟨x, y, hplaced⟩ := stepBack_placed (hok v)
      exact ⟨x, y, _, hplaced, by rw [if_pos rfl]; rfl⟩
    · obtain ⟨x, y, hplaced⟩ := wrapLine_placed scrollk (isPlain_iff.mpr ⟨hc, hback⟩) (hok v)
      refine ⟨x, y, _, hplaced, ?_⟩
      rw [if_neg hback, shownChar, if_neg hback]
      rfl
  have hs : CursorOk con' s := by
    by_cases hsv : s = v
    · rw [hsv]
      exact hplaced.cursorOk
    · rw [hplaced.eq]
      refine ((ScreenStep.refl v (fun _ => False) _).setCursor x y).cursorOk hsv ?_
      obtain ⟨hx, hy⟩ := hcursors s hsv
      simpa only [CursorOk, hx, hy] using hok s
  have hdrawn : Drawn ((scrolledFor v c scrollk con).pageTable 0xBC) _ (shownChar c) _ _ _ _ :=
    hplaced.drawn hecho hs
  rw [hput]
  have hcell : cursorCell con' s = if s = v then charCell v c con else cursorCell con s := by
    rw [hplaced.cursorCell]
    by_cases hsv : s = v
    · rw [if_pos hsv, if_pos hsv]
    · obtain ⟨hx, hy⟩ := hcursors s hsv
      rw [if_neg hsv, if_neg hsv, cursorCell, cursorCell, hx, hy]
  rw [hcell, hpages, videoFrame, hpages] at hdrawn
  rw [hmap] at hdrawn
  exact hdrawn

theorem putc_drawn (hok : CursorOk con s) (hnul : c ≠ 0) (hc : ¬ (c = 10 ∨ c = 13)) :
    Drawn (videoFrame con) (charCell s c con) (shownChar c) (videoFrame con) (charCell s c con)
      (scrolledFor s c scroll con).phys (putc s v c con).phys := by
  have hvideo : videoMem = videoMemAddr * kb4 := by simp
  obtain ⟨hpages, -⟩ := scrolledFor_spec scroll_writesOn s c con
  obtain ⟨x, y, con', hplaced, hput⟩ : ∃ x y con',
      PlacedAt s (charCell s c con) (scrolledFor s c scroll con) con' x y ∧
        (putc s v c con).phys =
          (pokeCell (cell videoMem (con'.screenX s) (con'.screenY s)) (shownChar c) con').phys := by
    unfold putc
    rw [if_neg hnul, if_neg hc]
    by_cases hback : c = 8
    · subst hback
      obtain ⟨x, y, hplaced⟩ := stepBack_placed hok
      exact ⟨x, y, _, hplaced, by rw [if_pos rfl]; rfl⟩
    · obtain ⟨x, y, hplaced⟩ := wrapLine_placed scroll (isPlain_iff.mpr ⟨hc, hback⟩) hok
      refine ⟨x, y, _, hplaced, ?_⟩
      rw [if_neg hback, shownChar, if_neg hback]
      rfl
  have hdrawn : Drawn ((scrolledFor s c scroll con).pageTable videoMemAddr) _ (shownChar c) _ _ _ _ :=
    hplaced.drawn hvideo hplaced.cursorOk
  rw [hplaced.cursorCell, if_pos rfl, hpages, videoFrame, hpages] at hdrawn
  rw [hput]
  exact hdrawn

end Drawn

/-- The echo page leads to the screen, and the cursors are on it. -/
structure KernelEchoReady (con : Console) : Prop where
  mapped : EchoMapped con
  cursors : ∀ u, CursorOk con u

/-- Nothing is in memory. -/
def Blank (con : Console) : Prop := ∀ f i, con.phys f i = 0

/-! ## `putck` -/

section Putck

variable {s v : Fin 3} {c : UInt8} {con : Console}

theorem putck_only_of_newline (h : KernelEchoReady con) (hc : c = 10 ∨ c = 13) :
    OnlyVisible v con (putck s v c con) := by
  have hput : putck s v c con = newLine v v scrollk con := if_pos hc
  let echoPage : Int → Prop := fun f => f = con.pageTable 0xBC
  have hon : echoPage (con.pageTable 0xBC) := rfl
  obtain ⟨hstep, -⟩ : Stepped v echoPage con (newLine v v scrollk con) :=
    newLine_stepped scrollk_writesOn hon v (h.cursors v)
  rw [hput]
  refine ⟨fun u hu => ⟨hstep.screenX u hu, hstep.screenY u hu⟩, fun f hf => hstep.phys f fun hon => hf ?_⟩
  exact hon.trans h.mapped

/-- A character that scrolls goes to the first cell of the last row, and that row has been blanked. -/
theorem scrolled_attribute (hmap : EchoMapped con) (hok : CursorOk con v)
    (hscrolls : scrollsFor v c con = true) (hc : ¬ (c = 10 ∨ c = 13)) :
    (scrolledFor v c scrollk con).phys videoMemAddr (2 * charCell v c con + 1) = attrib := by
  obtain ⟨hx, hx', hy, hy'⟩ := hok
  have hcols : numCols = 80 := rfl
  have hrows : numRows = 25 := rfl
  have hback : c ≠ 8 := by
    rintro rfl
    cases hscrolls
  have hend : con.screenX v ≥ numCols ∧ con.screenY v + 1 ≥ numRows := by
    rw [scrollsFor, if_neg hc, if_neg hback] at hscrolls
    exact of_decide_eq_true hscrolls
  have hcell : charCell v c con = 1920 := by
    have hcursor : cursorCell con v = 80 * con.screenY v + con.screenX v := rfl
    rw [charCell, if_neg hback, scrolledBy, hscrolls, if_pos rfl]
    omega
  have hmap' : (setCursor v 0 (con.screenY v + 1) con).pageTable 0xBC = videoMemAddr := hmap
  have hecho : putckVidMem = 0xBC * kb4 := by simp
  rw [scrolledFor, hscrolls, if_pos rfl, scrollk, scrollAt_bytes hecho hmap', hcell,
    if_neg (by omega), if_pos (by omega), if_neg (by omega)]

theorem putck_echoes (h : KernelEchoReady con) (hgood : goodCall s v con (.putck c)) :
    Echoes s v con (.putck c) := by
  obtain ⟨hmap, hok⟩ := h
  rcases hgood with hc | ⟨hvideo, hsame⟩
  · refine ⟨putck_only_of_newline ⟨hmap, hok⟩ hc, fun p b hwritten => ?_⟩
    rw [CharCall.written, if_pos hc] at hwritten
    cases hwritten
  · obtain ⟨hstep, -⟩ := putck_stepped s v c hok
    have honly : OnlyVisible v con (putck s v c con) := by
      refine ⟨fun u hu => ⟨hstep.screenX u hu, hstep.screenY u hu⟩, fun f hf => hstep.phys f ?_⟩
      rintro (hon | hon)
      · exact hf (hon.trans hmap)
      · exact hf (hon.trans hvideo)
    refine ⟨honly, fun p b hwritten => ?_⟩
    by_cases hc : c = 10 ∨ c = 13
    · rw [CharCall.written, if_pos hc] at hwritten
      cases hwritten
    · rw [CharCall.written, if_neg hc] at hwritten
      obtain ⟨rfl, rfl⟩ := Prod.mk.inj (Option.some.inj hwritten)
      have hdrawn := putck_drawn (s := s) (v := v) hmap hok hc
      rw [hvideo] at hdrawn
      show (putck s v c con).phys _ _ = _ ∧ (putck s v c con).phys _ _ = _
      rw [hdrawn, hdrawn]
      refine ⟨?_, ?_⟩
      · rw [if_neg (by omega), if_pos ⟨rfl, rfl⟩]
      · by_cases hcell : (if s = v then charCell v c con else cursorCell con s) = charCell v c con
        · rw [hcell, if_pos ⟨rfl, rfl⟩]
        · -- the attribute goes elsewhere, but the cell has one from the scroll
          rw [if_neg (by omega), if_neg (by omega)]
          refine scrolled_attribute hmap (hok v) ?_ hc
          rcases hsame with hsv | hcursor | hscrolls
          · exact absurd (if_pos hsv) hcell
          · by_cases hsv : s = v
            · exact absurd (if_pos hsv) hcell
            · exact absurd ((if_neg hsv).trans hcursor) hcell
          · exact hscrolls

theorem goodCall_of_putck_echoes (h : KernelEchoReady con) (hblank : Blank con)
    (hechoes : Echoes s v con (.putck c)) : goodCall s v con (.putck c) := by
  obtain ⟨hmap, hok⟩ := h
  by_cases hc : c = 10 ∨ c = 13
  · exact Or.inl hc
  have hdrawn := putck_drawn (s := s) (v := v) hmap hok hc
  -- the attribute is on the screen
  have hvideo : videoFrame con = videoMemAddr := by
    by_contra hother
    have hpage := congrFun (hechoes.only.pages _ hother)
      (2 * (if s = v then charCell v c con else cursorCell con s) + 1)
    rw [hblank] at hpage
    have hattribute := (hdrawn (videoFrame con)
      (2 * (if s = v then charCell v c con else cursorCell con s) + 1)).trans (if_pos ⟨rfl, rfl⟩)
    exact absurd (hattribute.symm.trans hpage) (by decide)
  refine Or.inr ⟨hvideo, ?_⟩
  by_contra hnot
  obtain ⟨hsv, hcursor, hscrolls⟩ : s ≠ v ∧ cursorCell con s ≠ charCell v c con ∧
      ¬ scrollsFor v c con = true := by
    rw [not_or, not_or] at hnot
    exact hnot
  obtain ⟨-, hattribute⟩ := hechoes.cell (charCell v c con) (shownChar c) (if_neg hc)
  have hzero : (putck s v c con).phys videoMemAddr (2 * charCell v c con + 1) = 0 := by
    rw [hdrawn, if_neg hsv, if_neg (by omega), if_neg (by omega), scrolledFor, if_neg hscrolls]
    exact hblank _ _
  exact absurd (hattribute.symm.trans hzero) (by decide)

end Putck

/-! ## `putc` -/

section Putc

variable {s v : Fin 3} {c : UInt8} {con : Console}

/-- A newline moves the cursor, or scrolls. -/
theorem putc_newline (hok : CursorOk con s) (hc : c = 10 ∨ c = 13) :
    (putc s v c con).screenX s = 0 ∧
      if con.screenY s < numRows - 1 then
        (putc s v c con).screenY s = con.screenY s + 1 ∧ (putc s v c con).phys = con.phys
      else
        (putc s v c con).screenY s = numRows - 1 ∧
          ∀ i, 3840 ≤ i → i < 4000 → i % 2 = 1 → (putc s v c con).phys (videoFrame con) i = attrib := by
  obtain ⟨hx, hx', hy, hy'⟩ := hok
  have hrows : numRows = 25 := rfl
  have hnul : c ≠ 0 := by
    rintro rfl
    rcases hc with hc | hc <;> cases hc
  have hput : putc s v c con = newLine s v scroll con := by
    unfold putc
    rw [if_neg hnul, if_pos hc]
  have hrow : (updateCursor v (setCursor s 0 (con.screenY s + 1) con)).screenY s = con.screenY s + 1 :=
    setCursor_screenY s 0 (con.screenY s + 1) con
  have hcol : (updateCursor v (setCursor s 0 (con.screenY s + 1) con)).screenX s = 0 :=
    setCursor_screenX s 0 (con.screenY s + 1) con
  rw [hput, newLine, checkScroll, hrow, hcol]
  by_cases hlast : con.screenY s < numRows - 1
  · rw [if_neg (show ¬ con.screenY s + 1 ≥ numRows by omega), if_pos hlast]
    exact ⟨hcol, hrow, rfl⟩
  · rw [if_pos (show con.screenY s + 1 ≥ numRows by omega), if_neg hlast, setCursor_screenX,
      setCursor_screenY]
    refine ⟨rfl, rfl, fun i h0 h1 hodd => ?_⟩
    have hmap : (updateCursor v (setCursor s 0 (con.screenY s + 1) con)).pageTable videoMemAddr =
        videoFrame con := rfl
    have hvideo : videoMem = videoMemAddr * kb4 := by simp
    have hscrolled := scrollAt_bytes hvideo hmap i
    rw [if_neg (by omega), if_pos ⟨h0, h1⟩, if_neg (by omega)] at hscrolled
    exact hscrolled

/-- The cursor behind a character. -/
theorem putc_cursorCell (hok : CursorOk con s) (hnul : c ≠ 0) (hc : ¬ (c = 10 ∨ c = 13)) :
    cursorCell (putc s v c con) s = charCell s c con + if c = 8 then 0 else 1 := by
  unfold putc
  rw [if_neg hnul, if_neg hc]
  by_cases hback : c = 8
  · subst hback
    obtain ⟨x, y, hplaced⟩ := stepBack_placed hok
    rw [if_pos rfl, if_pos rfl, Int.add_zero]
    exact (hplaced.cursorCell s).trans (if_pos rfl)
  · obtain ⟨x, y, hplaced⟩ := wrapLine_placed scroll (isPlain_iff.mpr ⟨hc, hback⟩) hok
    rw [if_neg hback, if_neg hback]
    have hcell := (hplaced.cursorCell s).trans (if_pos rfl)
    show cursorCell (setCursor s _ _ _) s = _
    rw [cursorCell_setCursor, ← hcell]
    show numCols * (wrapLine s scroll con).screenY s + ((wrapLine s scroll con).screenX s + 1) = _
    rw [cursorCell]
    omega

/-- A backspace in the first cell stays there. -/
theorem putc_backspace_home (hx : con.screenX s = 0) (hy : con.screenY s = 0) (v : Fin 3) :
    (putc s v 8 con).screenX s = con.screenX s ∧ (putc s v 8 con).screenY s = con.screenY s := by
  have hback : stepBack s con = con := by
    rw [stepBack, if_pos hx, if_neg (by omega)]
  unfold putc
  rw [if_neg (by decide), if_neg (by decide), if_pos rfl, hback]
  exact ⟨rfl, rfl⟩

theorem putc_echoes (h : KernelEchoReady con) (hgood : goodCall s v con (.putc c)) :
    Echoes s v con (.putc c) := by
  obtain ⟨-, hok⟩ := h
  by_cases hnul : c = 0
  · have hsame : putc s v c con = con := by
      unfold putc
      exact if_pos hnul
    refine ⟨?_, fun p b hwritten => ?_⟩
    · show OnlyVisible v con (putc s v c con)
      rw [hsame]
      exact ⟨fun _ _ => ⟨rfl, rfl⟩, fun _ _ => rfl⟩
    · rw [CharCall.written, if_pos (Or.inl hnul)] at hwritten
      cases hwritten
  obtain ⟨hcursor, hframe⟩ := hgood.resolve_left hnul
  obtain ⟨hstep, -⟩ := putc_stepped v c (hok s)
  -- the cursor of `s` may move only when `s` is visible
  have hstay : s ≠ v → (putc s v c con).screenX s = con.screenX s ∧
      (putc s v c con).screenY s = con.screenY s := by
    intro hsv
    rcases hcursor.resolve_left hsv with ⟨hc, hx, hy⟩ | ⟨rfl, hx, hy⟩
    · obtain ⟨hcol, hrow⟩ := putc_newline (v := v) (hok s) hc
      rw [if_neg (by omega)] at hrow
      exact ⟨hcol.trans hx.symm, hrow.1.trans hy.symm⟩
    · exact putc_backspace_home hx hy v
  refine ⟨⟨fun u hu => ?_, fun f hf => ?_⟩, fun p b hwritten => ?_⟩
  · by_cases hus : u = s
    · subst hus
      exact hstay hu
    · exact ⟨hstep.screenX u hus, hstep.screenY u hus⟩
  · rcases hframe with hvideo | ⟨hc, hlast⟩
    · exact hstep.phys f fun hon => hf (hon.trans hvideo)
    · obtain ⟨-, hrow⟩ := putc_newline (v := v) (hok s) hc
      rw [if_pos hlast] at hrow
      exact congrFun hrow.2 f
  · by_cases hc : c = 10 ∨ c = 13
    · rw [CharCall.written, if_pos (Or.inr hc)] at hwritten
      cases hwritten
    · rw [CharCall.written, if_neg (not_or.mpr ⟨hnul, hc⟩)] at hwritten
      obtain ⟨rfl, rfl⟩ := Prod.mk.inj (Option.some.inj hwritten)
      have hvideo : videoFrame con = videoMemAddr := hframe.resolve_right fun hmoves => hc hmoves.1
      have hdrawn := putc_drawn (v := v) (hok s) hnul hc
      rw [hvideo] at hdrawn
      show (putc s v c con).phys _ _ = _ ∧ (putc s v c con).phys _ _ = _
      rw [hdrawn, hdrawn]
      exact ⟨by rw [if_neg (by omega), if_pos ⟨rfl, rfl⟩], if_pos ⟨rfl, rfl⟩⟩

theorem goodCall_of_putc_echoes (h : KernelEchoReady con) (hblank : Blank con)
    (hechoes : Echoes s v con (.putc c)) : goodCall s v con (.putc c) := by
  obtain ⟨-, hok⟩ := h
  obtain ⟨hx, hx', hy, hy'⟩ := hok s
  have hcols : numCols = 80 := rfl
  have hrows : numRows = 25 := rfl
  by_cases hnul : c = 0
  · exact Or.inl hnul
  have hsame : s ≠ v → (putc s v c con).screenX s = con.screenX s ∧
      (putc s v c con).screenY s = con.screenY s := hechoes.only.cursors s
  -- a byte that becomes an attribute is on the screen
  have hscreen : ∀ i, (putc s v c con).phys (videoFrame con) i = attrib →
      videoFrame con = videoMemAddr := by
    intro i hattribute
    by_contra hother
    have hpage : (putc s v c con).phys (videoFrame con) i = con.phys (videoFrame con) i :=
      congrFun (hechoes.only.pages _ hother) i
    rw [hblank] at hpage
    exact absurd (hattribute.symm.trans hpage) (by decide)
  refine Or.inr ⟨?_, ?_⟩
  · by_cases hsv : s = v
    · exact Or.inl hsv
    obtain ⟨hsameX, hsameY⟩ := hsame hsv
    refine Or.inr ?_
    by_cases hc : c = 10 ∨ c = 13
    · obtain ⟨hcol, hrow⟩ := putc_newline (v := v) (hok s) hc
      by_cases hlast : con.screenY s < numRows - 1
      · rw [if_pos hlast] at hrow
        omega
      · exact Or.inl ⟨hc, by omega, by omega⟩
    · have hcell := putc_cursorCell (v := v) (hok s) hnul hc
      have hafter : cursorCell (putc s v c con) s = cursorCell con s := by
        rw [cursorCell, cursorCell, hsameX, hsameY]
      have hcursor : cursorCell con s = 80 * con.screenY s + con.screenX s := rfl
      rw [hafter, charCell] at hcell
      by_cases hback : c = 8
      · rw [if_pos hback, if_pos hback] at hcell
        split at hcell
        · exact Or.inr ⟨hback, by omega, by omega⟩
        · omega
      · rw [if_neg hback, if_neg hback, scrolledBy] at hcell
        split at hcell <;> omega
  · by_cases hc : c = 10 ∨ c = 13
    · obtain ⟨-, hrow⟩ := putc_newline (v := v) (hok s) hc
      by_cases hlast : con.screenY s < numRows - 1
      · exact Or.inr ⟨hc, hlast⟩
      · rw [if_neg hlast] at hrow
        exact Or.inl (hscreen 3841 (hrow.2 3841 (by omega) (by omega) (by omega)))
    · have hdrawn := putc_drawn (v := v) (hok s) hnul hc
      refine Or.inl (hscreen (2 * charCell s c con + 1) ?_)
      rw [hdrawn]
      exact if_pos ⟨rfl, rfl⟩

end Putc

/-! ## Calls -/

section Calls

variable {s v : Fin 3} {con : Console}

/-- **When a call is right.** -/
theorem callRight_iff (h : KernelEchoReady con) (call : CharCall) :
    CallRight s v con call ↔ goodCall s v con call := by
  have hready : ∀ phys, KernelEchoReady (withMemory phys con) := fun phys => ⟨h.mapped, h.cursors⟩
  have hblank : Blank (withMemory (fun _ _ => 0) con) := fun _ _ => rfl
  constructor
  · intro hright
    cases call with
    | putc c =>
      have hgood := goodCall_of_putc_echoes (hready fun _ _ => 0) hblank (hright fun _ _ => 0)
      exact hgood
    | putck c =>
      have hgood := goodCall_of_putck_echoes (hready fun _ _ => 0) hblank (hright fun _ _ => 0)
      exact hgood
  · intro hgood phys
    cases call with
    | putc c => exact putc_echoes (hready phys) hgood
    | putck c => exact putck_echoes (hready phys) hgood

def callStep (s v : Fin 3) (con : Console) (call : CharCall) : Option Console := some (call.exec s v con)

theorem KernelEchoReady.step (h : KernelEchoReady con) {call : CharCall} {con' : Console}
    (hs : callStep s v con call = some con') : KernelEchoReady con' := by
  obtain rfl := Option.some.inj hs
  cases call with
  | putc c =>
    have hstep := putc_stepped v c (h.cursors s)
    refine ⟨?_, hstep.cursorsOk h.cursors⟩
    show (putc s v c con).pageTable 0xBC = videoMemAddr
    rw [hstep.1.pageTable]
    exact h.mapped
  | putck c =>
    have hstep := putck_stepped s v c h.cursors
    refine ⟨?_, hstep.cursorsOk h.cursors⟩
    show (putck s v c con).pageTable 0xBC = videoMemAddr
    rw [hstep.1.pageTable]
    exact h.mapped

theorem OnlyVisible.trans {con' con'' : Console} (h : OnlyVisible v con con')
    (h' : OnlyVisible v con' con'') : OnlyVisible v con con'' where
  cursors u hu := ⟨(h'.cursors u hu).1.trans (h.cursors u hu).1, (h'.cursors u hu).2.trans (h.cursors u hu).2⟩
  pages f hf := (h'.pages f hf).trans (h.pages f hf)

/-- Calls that are all right change only the visible terminal. -/
theorem onlyVisible_of_along {calls : List CharCall} (h : KernelEchoReady con)
    (hgood : Along (callStep s v) (goodCall s v) con calls) :
    OnlyVisible v con (calls.foldl (CharCall.exec s v) con) := by
  induction calls generalizing con with
  | nil => exact ⟨fun _ _ => ⟨rfl, rfl⟩, fun _ _ => rfl⟩
  | cons call calls ih =>
    obtain ⟨hcall, hrest⟩ := hgood (call.exec s v con) rfl
    have hright := (callRight_iff h call).mpr hcall con.phys
    exact hright.only.trans (ih (h.step rfl) hrest)

end Calls

/-- **Kernel echo.**  `putck` does to every memory what an echo should do exactly for a newline, or when
    `video_mem` leads to the screen and the attribute falls on the character: the scheduled terminal
    is the visible one, or its cursor is in the cell of the echo, or the character scrolls.  In a
    `printfk` every call does exactly under that condition for `putck` and the one for `putc`; the
    whole then changes nothing but the visible terminal. -/
theorem kernel_echo_iff (s v : Fin 3) (con : Console) (h : KernelEchoReady con) :
    (∀ c, CallRight s v con (.putck c) ↔ goodCall s v con (.putck c)) ∧
    ∀ args format calls, printfkCalls args format = some calls →
      (Along (callStep s v) (CallRight s v) con calls ↔
        Along (callStep s v) (goodCall s v) con calls) ∧
      (Along (callStep s v) (goodCall s v) con calls →
        ∀ con' n, printfk s v args format con = some (con', n) → OnlyVisible v con con') := by
  refine ⟨fun c => callRight_iff h (.putck c), fun args format calls hcalls => ⟨?_, ?_⟩⟩
  · exact along_congr (fun con call con' h hs => KernelEchoReady.step h hs)
      (fun con call h => callRight_iff h call) h
  · intro hgood con' n hprint
    obtain ⟨r, hloop, rfl⟩ := Option.map_eq_some_iff.mp hcalls
    rw [printfk, hloop] at hprint
    obtain ⟨rfl, -⟩ := Prod.mk.inj (Option.some.inj hprint)
    exact onlyVisible_of_along h hgood

/-- All cursors at home, and `video_mem` mapped to a frame. -/
def homeConsole (frame : Int) : Console :=
  { screenX := fun _ => 0, screenY := fun _ => 0
    pageTable := Function.update initialPageTable 0xB8 frame
    pageTableVidmap := initialPageTableVidmap, phys := fun _ _ => 0, cursorReg := 0 }

theorem homeConsole_ready (frame : Int) : KernelEchoReady (homeConsole frame) := by
  have hecho : Function.update initialPageTable 0xB8 frame 0xBC = videoMemAddr :=
    Function.update_of_ne (by decide) _ _
  refine ⟨hecho, fun u => ?_⟩
  exact ⟨Int.le_refl 0, show (0 : Int) ≤ numCols by decide, Int.le_refl 0,
    show (0 : Int) < numRows by decide⟩

/-- With terminal 0 scheduled and visible, an `a` and a `%s` are echoed right. -/
theorem echo_to_scheduled_terminal :
    CallRight 0 0 (homeConsole 0xB8) (.putck 97) ∧
      Along (callStep 0 0) (CallRight 0 0) (homeConsole 0xB8) [.putc 104, .putc 105] :=
  ⟨((kernel_echo_iff 0 0 (homeConsole 0xB8) (homeConsole_ready 0xB8)).1 97).mpr (by decide +kernel),
    ((kernel_echo_iff 0 0 (homeConsole 0xB8) (homeConsole_ready 0xB8)).2
      { words := fun _ => 0, strings := fun _ => [104, 105], convBuf := fun _ _ => 0 } [37, 115, 0] _
      rfl).1.mpr (by decide +kernel)⟩

/-- With terminal 1 scheduled and terminal 0 visible, the attribute of an echoed `a` goes to the page of
    terminal 1. -/
theorem echo_attribute_astray : ¬ CallRight 1 0 (homeConsole 0xBA) (.putck 97) := by
  rw [callRight_iff (homeConsole_ready 0xBA)]
  decide +kernel

end ByteVerse
