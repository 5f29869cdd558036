/-
  Where on a page the console stores its characters.

  The accesses of `putc`, `putck`, `scroll` and `scrollk` to the screen, one after the other, with the
  virtual address and which byte of a cell it is.  Played back they give the memory these leave
  (`putc_performed`, `putck_performed`); so the addresses are all there is to check.

  A cursor may rest at column 80: the wrap comes with the next character.  `wrapLine` and `stepBack`
  bring it to a real column before a character is stored, in both copies of the code
  (`within_characterTrace`).  The attribute that `putck` stores at the scheduled terminal's cursor has
  no such check and can lie behind the last cell, at byte 4001.
-/
import ByteVerse.Accesses
import ByteVerse.HardwareCursor

set_option linter.unusedVariables false

namespace ByteVerse

open Run Accesses SlotTable

/-! ## The accesses -/

/-- A byte of a cell, at a virtual address. -/
inductive CellByte
  | character (addr : Int)
  | attribute (addr : Int)
  deriving DecidableEq

def CellByte.addr : CellByte → Int
  | .character addr => addr
  | .attribute addr => addr

/-- A read leaves the console as it is. -/
def perform (con : Console) : Access CellByte UInt8 → Console
  | .read _ => con
  | .write byte b => poke byte.addr b con

def performAll (trace : List (Access CellByte UInt8)) (con : Console) : Console :=
  trace.foldl perform con

/-- The character with its attribute. -/
def cellTrace (base x y : Int) (c : UInt8) : List (Access CellByte UInt8) :=
  [.write (.character (cell base x y)) c, .write (.attribute (cell base x y + 1)) attrib]

/-- One cell moved up. -/
def moveCellTrace (base : Int) (con : Console) (row col : Nat) : List (Access CellByte UInt8) :=
  let c := peek con (cell base col row)
  let con := poke (cell base col (row - 1)) c con
  [.read (.character (cell base col row)),
    .write (.character (cell base col (row - 1))) c,
    .read (.attribute (cell base col row + 1)),
    .write (.attribute (cell base col (row - 1) + 1)) (peek con (cell base col row + 1))]

def moveRowTrace (base : Int) (con : Console) (row : Nat) : List (Access CellByte UInt8) :=
  loopTrace (fun con col => moveCell base con row col) (fun con col => moveCellTrace base con row col)
    (List.range 80) con

/-- `scroll` and `scrollk`. -/
def scrollTrace (base : Int) (con : Console) : List (Access CellByte UInt8) :=
  loopTrace (fun con row => (List.range 80).foldl (fun con col => moveCell base con row col) con)
      (moveRowTrace base) (List.range' 1 24) con ++
    (List.range 80).flatMap fun (col : Nat) => cellTrace base col (numRows - 1) 32

def checkScrollTrace (t : Fin 3) (base : Int) (con : Console) : List (Access CellByte UInt8) :=
  if con.screenY t ≥ numRows then scrollTrace base con else []

def newLineTrace (t v : Fin 3) (base : Int) (con : Console) : List (Access CellByte UInt8) :=
  checkScrollTrace t base (updateCursor v (setCursor t 0 (con.screenY t + 1) con))

def wrapLineTrace (t : Fin 3) (base : Int) (con : Console) : List (Access CellByte UInt8) :=
  if con.screenX t ≥ numCols then checkScrollTrace t base (setCursor t 0 (con.screenY t + 1) con)
  else []

def putcTrace (s v : Fin 3) (c : UInt8) (con : Console) : List (Access CellByte UInt8) :=
  if c = 0 then []
  else if c = 10 ∨ c = 13 then newLineTrace s v videoMem con
  else if c = 8 then
    let con := stepBack s con
    cellTrace videoMem (con.screenX s) (con.screenY s) 32
  else
    wrapLineTrace s videoMem con ++
      let con := wrapLine s scroll con
      cellTrace videoMem (con.screenX s) (con.screenY s) c

/-- The two stores of `putck`: the visible terminal's character, the scheduled one's attribute. -/
def echoTrace (s v : Fin 3) (c : UInt8) (con : Console) : List (Access CellByte UInt8) :=
  [.write (.character (cell putckVidMem (con.screenX v) (con.screenY v))) c,
    .write (.attribute (cell videoMem (con.screenX s) (con.screenY s) + 1)) attrib]

def putckTrace (s v : Fin 3) (c : UInt8) (con : Console) : List (Access CellByte UInt8) :=
  if c = 10 ∨ c = 13 then newLineTrace v v putckVidMem con
  else if c = 8 then echoTrace s v 32 (stepBack v con)
  else wrapLineTrace v putckVidMem con ++ echoTrace s v c (wrapLine v scrollk con)

def printfkTrace (s v : Fin 3) : List UInt8 → Console → List (Access CellByte UInt8)
  | [], _ => []
  | c :: cs, con => putckTrace s v c con ++ printfkTrace s v cs (putck s v c con)

/-- What `execute` prints when there is no process left. -/
def executeTrace (img : Image) (fr : Frame) (command : Option (List UInt8)) (k : Kernel) :
    List (Access CellByte UInt8) :=
  match checkProgram img fr command with
  | .error _ => []
  | .ok _ =>
    match firstFree k.procs.slotUsed 0 maxPcbs with
    | none => printfkTrace k.schedTerm k.visibleTerm processCapReached k.con
    | some _ => []

/-- The accesses that `putc`, `putck`, `scroll` and `scrollk` make in a step. -/
def eventTrace (disk : Disk) (k : Kernel) : ScreenEvent → List (Access CellByte UInt8)
  | .putc c => putcTrace k.schedTerm k.visibleTerm c k.con
  | .putck c => putckTrace k.schedTerm k.visibleTerm c k.con
  | .scheduler esp ebp fr =>
    let s := nextTerm k.schedTerm
    if k.procs.status s = 0 then
      executeTrace disk.img fr (some (shellCommand disk .scheduler)) { k with
        schedTerm := s
        con := clear s k.visibleTerm (mapScreen s k.visibleTerm k.con)
        procs := savePreempted k.schedTerm esp ebp (openTerminal s k.procs) }
    else []
  | _ => []

/-! ## Played back -/

section Performed

variable {s t v : Fin 3} {con con' : Console}

theorem performAll_append (trace trace' : List (Access CellByte UInt8)) (con : Console) :
    performAll (trace ++ trace') con = performAll trace' (performAll trace con) := List.foldl_append

/-- The accesses change the memory only, and depend on nothing but the page table. -/
theorem performAll_congr (trace : List (Access CellByte UInt8))
    (hpages : con'.pageTable = con.pageTable) (hphys : con'.phys = con.phys) :
    (performAll trace con').phys = (performAll trace con).phys := by
  induction trace generalizing con con' with
  | nil => exact hphys
  | cons a trace ih =>
    cases a with
    | read byte => exact ih hpages hphys
    | write byte b =>
      refine ih hpages ?_
      simp only [perform, poke, hpages, hphys]

theorem performAll_pageTable (trace : List (Access CellByte UInt8)) (con : Console) :
    (performAll trace con).pageTable = con.pageTable := by
  induction trace generalizing con with
  | nil => rfl
  | cons a trace ih =>
    cases a with
    | read byte => exact ih con
    | write byte b => exact ih (poke byte.addr b con)

theorem scrollAt_performed (base : Int) (con : Console) :
    performAll (scrollTrace base con) con = scrollAt base con := by
  have hrow : ∀ (con : Console) (row : Nat),
      (List.range 80).foldl (fun con col => moveCell base con row col) con =
        (moveRowTrace base con row).foldl perform con := by
    intro con row
    have hcell : ∀ (con : Console) (col : Nat),
        moveCell base con row col = (moveCellTrace base con row col).foldl perform con := fun _ _ => rfl
    rw [moveRowTrace]
    exact foldl_loopTrace hcell (List.range 80) con
  have hrows := foldl_loopTrace hrow (List.range' 1 24) con
  rw [scrollTrace, performAll_append, performAll, performAll, ← hrows, List.foldl_flatMap]
  rfl

theorem checkScroll_performed (t : Fin 3) (base : Int) (con : Console) :
    (performAll (checkScrollTrace t base con) con).phys =
      (checkScroll t (scrollAt base) con).phys := by
  unfold checkScrollTrace checkScroll
  split
  · rw [scrollAt_performed]
    rfl
  · rfl

theorem newLine_performed (t v : Fin 3) (base : Int) (con : Console) :
    (performAll (newLineTrace t v base con) con).phys =
      (newLine t v (scrollAt base) con).phys := by
  rw [newLineTrace, newLine, ← checkScroll_performed]
  exact performAll_congr _ rfl rfl

theorem wrapLine_performed (t : Fin 3) (base : Int) (con : Console) :
    (performAll (wrapLineTrace t base con) con).phys =
      (wrapLine t (scrollAt base) con).phys := by
  unfold wrapLineTrace wrapLine
  split
  · rw [← checkScroll_performed]
    exact performAll_congr _ rfl rfl
  · rfl

theorem wrapLine_pageTable {scroll : Console → Console}
    (hscroll : ∀ con, (scroll con).pageTable = con.pageTable) (t : Fin 3) (con : Console) :
    (wrapLine t scroll con).pageTable = con.pageTable := by
  unfold wrapLine checkScroll
  split
  · split
    · exact hscroll (setCursor t 0 (con.screenY t + 1) con)
    · rfl
  · rfl

/-- Stores that follow a wrap check. -/
theorem wrapLine_then_performed {base page : Int} (hbase : base = page * kb4)
    (trace : List (Access CellByte UInt8)) (con : Console) :
    (performAll (wrapLineTrace t base con ++ trace) con).phys =
      (performAll trace (wrapLine t (scrollAt base) con)).phys := by
  have hscroll : ∀ con, (scrollAt base con).pageTable = con.pageTable := fun con =>
    (scrollAt_writesOn hbase con).pageTable_eq
  rw [performAll_append]
  refine performAll_congr trace ?_ (wrapLine_performed t base con)
  rw [performAll_pageTable, wrapLine_pageTable hscroll]

theorem stepBack_memory (t : Fin 3) (con : Console) :
    (stepBack t con).pageTable = con.pageTable ∧ (stepBack t con).phys = con.phys := by
  unfold stepBack
  split
  · split <;> exact ⟨rfl, rfl⟩
  · exact ⟨rfl, rfl⟩

/-- **The accesses of `putc`** are its effect on the memory. -/
theorem putc_performed (s v : Fin 3) (c : UInt8) (con : Console) :
    (performAll (putcTrace s v c con) con).phys = (putc s v c con).phys := by
  unfold putcTrace putc
  split
  · rfl
  split
  · exact newLine_performed s v videoMem con
  split
  · obtain ⟨hpages, hphys⟩ := stepBack_memory s con
    exact (performAll_congr _ hpages hphys).symm
  · exact wrapLine_then_performed (show videoMem = videoMemAddr * kb4 by simp) _ con

/-- **The accesses of `putck`.** -/
theorem putck_performed (s v : Fin 3) (c : UInt8) (con : Console) :
    (performAll (putckTrace s v c con) con).phys = (putck s v c con).phys := by
  unfold putckTrace putck
  split
  · exact newLine_performed v v putckVidMem con
  split
  · obtain ⟨hpages, hphys⟩ := stepBack_memory v con
    exact (performAll_congr _ hpages hphys).symm
  · exact wrapLine_then_performed (show putckVidMem = 0xBC * kb4 by simp) _ con

/-- The accesses of a text. -/
theorem printfk_performed (s v : Fin 3) (cs : List UInt8) :
    ∀ {con : Console}, (∀ u, CursorOk con u) →
      (performAll (printfkTrace s v cs con) con).phys = (printfkText s v cs con).phys := by
  induction cs with
  | nil =>
    intro con _
    rfl
  | cons c cs ih =>
    intro con hok
    have hstep := putck_stepped s v c hok
    have hpages : (performAll (putckTrace s v c con) con).pageTable = (putck s v c con).pageTable := by
      rw [performAll_pageTable, hstep.1.pageTable]
    rw [printfkTrace, performAll_append,
      performAll_congr _ hpages (putck_performed s v c con)]
    exact ih (hstep.cursorsOk hok)

end Performed

/-! ## Where they are -/

/-- Characters lie at the even offsets below 4000 of a page, attributes at odd ones. -/
def OnGrid : CellByte → Prop
  | .character addr => addr % kb4 % 2 = 0 ∧ addr % kb4 < 4000
  | .attribute addr => addr % kb4 % 2 = 1

section Grid

variable {base page : Int} {s t v : Fin 3} {con : Console}

theorem onGrid_character (hbase : base = page * kb4) {x y : Int} (hx : 0 ≤ x) (hx' : x < numCols)
    (hy : 0 ≤ y) (hy' : y < numRows) : OnGrid (.character (cell base x y)) := by
  have haddr : cell base x y = 2 * (numCols * y + x) + page * kb4 := by
    rw [cell, hbase]
    omega
  have hoffset : cell base x y % kb4 = 2 * (numCols * y + x) := by
    rw [haddr, Int.add_mul_emod_self_right]
    simp only [numCols, numRows, kb4] at *
    omega
  rw [OnGrid, hoffset]
  simp only [numCols, numRows] at *
  omega

/-- Wherever the cell is. -/
theorem onGrid_attribute (hbase : base = page * kb4) (x y : Int) :
    OnGrid (.attribute (cell base x y + 1)) := by
  simp only [OnGrid, cell, kb4] at *
  omega

theorem within_cellTrace (hbase : base = page * kb4) {x y : Int} (hx : 0 ≤ x) (hx' : x < numCols)
    (hy : 0 ≤ y) (hy' : y < numRows) (c : UInt8) : Within OnGrid (cellTrace base x y c) := by
  simp only [cellTrace, within_cons, within_nil, Access.cell]
  exact ⟨onGrid_character hbase hx hx' hy hy', onGrid_attribute hbase x y, trivial⟩

theorem within_moveCellTrace (hbase : base = page * kb4) (con : Console) {row col : Nat}
    (hrow : row ∈ List.range' 1 24) (hcol : col ∈ List.range 80) :
    Within OnGrid (moveCellTrace base con row col) := by
  rw [List.mem_range'_1] at hrow
  rw [List.mem_range] at hcol
  have hx : (0 : Int) ≤ col := by omega
  have hx' : (col : Int) < numCols := by
    simp only [numCols]
    omega
  have hsource : OnGrid (.character (cell base col row)) :=
    onGrid_character hbase hx hx' (by omega) (by simp only [numRows]; omega)
  have htarget : OnGrid (.character (cell base col (row - 1))) :=
    onGrid_character hbase hx hx' (by omega) (by simp only [numRows]; omega)
  simp only [moveCellTrace, within_cons, within_nil, Access.cell]
  exact ⟨hsource, htarget, onGrid_attribute hbase _ _, onGrid_attribute hbase _ _, trivial⟩

theorem within_scrollTrace (hbase : base = page * kb4) (con : Console) :
    Within OnGrid (scrollTrace base con) := by
  refine within_append.mpr ⟨?_, within_flatMap.mpr fun col hcol => ?_⟩
  · refine within_loopTrace (fun con row hrow => ?_) con
    exact within_loopTrace (fun con col hcol => within_moveCellTrace hbase con hrow hcol) con
  · rw [List.mem_range] at hcol
    exact within_cellTrace hbase (by omega) (by simp only [numCols]; omega) (by decide) (by decide) 32

theorem within_checkScrollTrace (hbase : base = page * kb4) (t : Fin 3) (con : Console) :
    Within OnGrid (checkScrollTrace t base con) := by
  unfold checkScrollTrace
  split
  · exact within_scrollTrace hbase con
  · exact within_nil

theorem within_wrapLineTrace (hbase : base = page * kb4) (t : Fin 3) (con : Console) :
    Within OnGrid (wrapLineTrace t base con) := by
  unfold wrapLineTrace
  split
  · exact within_checkScrollTrace hbase t _
  · exact within_nil

/-- A backspace leaves column 80. -/
theorem stepBack_column (hok : CursorOk con t) : (stepBack t con).screenX t < numCols := by
  obtain ⟨hx, hx', hy, hy'⟩ := hok
  unfold stepBack
  by_cases hcolumn : con.screenX t = 0
  · rw [if_pos hcolumn]
    split
    · rw [setCursor_screenX]
      decide
    · rw [hcolumn]
      decide
  · rw [if_neg hcolumn, setCursor_screenX]
    omega

theorem within_echoTrace (s : Fin 3) (c : UInt8) (hok : CursorOk con v)
    (hcolumn : con.screenX v < numCols) : Within OnGrid (echoTrace s v c con) := by
  obtain ⟨hx, hx', hy, hy'⟩ := hok
  simp only [echoTrace, within_cons, within_nil, Access.cell]
  have hecho : putckVidMem = 0xBC * kb4 := by decide
  have hvideo : videoMem = videoMemAddr * kb4 := by decide
  exact ⟨onGrid_character hecho hx hcolumn hy hy', onGrid_attribute hvideo _ _, trivial⟩

/-- **`putc`**, with its cursor on the screen. -/
theorem within_putcTrace (v : Fin 3) (c : UInt8) (hok : CursorOk con s) :
    Within OnGrid (putcTrace s v c con) := by
  have hbase : videoMem = videoMemAddr * kb4 := by decide
  have hon : OutputFrame con (con.pageTable videoMemAddr) := rfl
  unfold putcTrace
  split
  · exact within_nil
  split
  · exact within_checkScrollTrace hbase s _
  split
  · obtain ⟨-, hx, -, hy, hy'⟩ : Stepped s (OutputFrame con) con (stepBack s con) :=
      stepBack_stepped hok
    exact within_cellTrace hbase hx (stepBack_column hok) hy hy' 32
  · obtain ⟨⟨-, hx, -, hy, hy'⟩, hcolumn⟩ := wrapLine_stepped scroll_writesOn hon hok
    refine within_append.mpr ⟨within_wrapLineTrace hbase s con, ?_⟩
    exact within_cellTrace hbase hx hcolumn hy hy' c

/-- **`putck`**, with the visible terminal's cursor on the screen. -/
theorem within_putckTrace (s : Fin 3) (c : UInt8) (hok : CursorOk con v) :
    Within OnGrid (putckTrace s v c con) := by
  have hbase : putckVidMem = 0xBC * kb4 := by decide
  have hon : EchoFrame con (con.pageTable 0xBC) := Or.inl rfl
  unfold putckTrace
  split
  · exact within_checkScrollTrace hbase v _
  split
  · obtain ⟨-, hback⟩ : Stepped v (EchoFrame con) con (stepBack v con) := stepBack_stepped hok
    exact within_echoTrace s 32 hback (stepBack_column hok)
  · obtain ⟨⟨-, hwrapped⟩, hcolumn⟩ := wrapLine_stepped scrollk_writesOn hon hok
    refine within_append.mpr ⟨within_wrapLineTrace hbase v con, ?_⟩
    exact within_echoTrace s c hwrapped hcolumn

theorem within_printfkTrace (s v : Fin 3) (cs : List UInt8) :
    ∀ {con : Console}, (∀ u, CursorOk con u) → Within OnGrid (printfkTrace s v cs con) := by
  induction cs with
  | nil =>
    intro con _
    exact within_nil
  | cons c cs ih =>
    intro con hok
    refine within_append.mpr ⟨within_putckTrace s c (hok v), ih ?_⟩
    exact (putck_stepped s v c hok).cursorsOk hok

end Grid

/-! ## Runs -/

theorem within_executeTrace (img : Image) (fr : Frame) (command : Option (List UInt8)) {k : Kernel}
    (hok : ∀ u, CursorOk k.con u) : Within OnGrid (executeTrace img fr command k) := by
  unfold executeTrace
  split
  · exact within_nil
  · split
    · exact within_printfkTrace _ _ _ hok
    · exact within_nil

theorem within_eventTrace (disk : Disk) {k : Kernel} (hok : ∀ u, CursorOk k.con u) (e : ScreenEvent) :
    Within OnGrid (eventTrace disk k e) := by
  cases e with
  | putc c => exact within_putcTrace k.visibleTerm c (hok k.schedTerm)
  | putck c => exact within_putckTrace k.schedTerm c (hok k.visibleTerm)
  | clear | cleark | switchTerminal => exact within_nil
  | scheduler esp ebp fr =>
    unfold eventTrace
    simp only
    split
    · refine within_executeTrace _ _ _ ?_
      simp only
      exact Stepped.cursorsOk (clear_stepped k.visibleTerm _) hok
    · exact within_nil

/-- After `terminal_init`. -/
def terminalInit (pw : PowerOn) : Kernel := { initialKernel pw with con := initialConsole pw }

/-- **Cursor bounds**: in a run from `terminal_init`, of output of both kinds, clears, terminal switches
    and ticks, every cursor is on the screen in every state, and every character that a step stores
    is stored in a cell of the page, at an even offset below 4000. -/
theorem cursor_bounds (disk : Disk) (pw : PowerOn) (events : List ScreenEvent) :
    Throughout (screenStep disk) (fun k => ∀ t, CursorOk k.con t) (terminalInit pw) events ∧
      Along (screenStep disk) (fun k e => Within OnGrid (eventTrace disk k e)) (terminalInit pw)
        events := by
  have hstep : ∀ (k : Kernel) (e : ScreenEvent) (k' : Kernel), (∀ u, CursorOk k.con u) →
      screenStep disk k e = some k' → ∀ u, CursorOk k'.con u := by
    intro k e k' hok hs
    obtain rfl := Option.some.inj hs
    exact screenNext_cursorsOk disk hok e
  have hstart : ∀ u, CursorOk (terminalInit pw).con u := by
    simp only [terminalInit]
    exact initialConsole_cursorsOk pw
  have htraces : ∀ (k : Kernel) (e : ScreenEvent), (∀ u, CursorOk k.con u) → True →
      Within OnGrid (eventTrace disk k e) := fun k e hok _ => within_eventTrace disk hok e
  refine ⟨throughout_of_inv hstep hstart, ?_⟩
  exact along_of_inv (fun k e k' hok _ => hstep k e k' hok) htraces hstart
    (along_of_forall fun _ _ => trivial)

end ByteVerse
