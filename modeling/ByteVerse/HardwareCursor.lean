/-
  The cursors in memory and the one in the VGA registers.

  `update_cursor` and its copy write the position of the visible terminal to the registers, whoever
  has moved which cursor.  It is called after the cursor has moved in every branch but one: at a newline
  `putc` and `putck` call it before they find that the cursor has left the screen and put it back into
  the last row.  So a newline of the visible terminal in its last row leaves the registers one row below
  the screen; `hardware_cursor_iff` says that nothing else does.

  The events are those of `Display.lean` and the kernel's own output.  The cursors of all three terminals
  stay on the screen whatever happens (`screenNext_cursorsOk`).
-/
import ByteVerse.Cells
import ByteVerse.Display

set_option linter.unusedVariables false

namespace ByteVerse

open Run

/-! ## Output, ticks and switches -/

inductive ScreenEvent
  /-- The process of the scheduled terminal writes a character. -/
  | putc (c : UInt8)
  /-- The kernel echoes one. -/
  | putck (c : UInt8)
  | clear
  | cleark
  | switchTerminal (terminalNumber : Fin 3)
  | scheduler (esp ebp : Nat) (fr : Frame)

def screenNext (disk : Disk) (k : Kernel) : ScreenEvent → Kernel
  | .putc c => { k with con := putc k.schedTerm k.visibleTerm c k.con }
  | .putck c => { k with con := putck k.schedTerm k.visibleTerm c k.con }
  | .clear => { k with con := clear k.schedTerm k.visibleTerm k.con }
  | .cleark => { k with con := cleark k.visibleTerm k.con }
  | .switchTerminal n => switchTerminal n k
  | .scheduler esp ebp fr => (scheduler disk esp ebp fr k).1

def screenStep (disk : Disk) (k : Kernel) (e : ScreenEvent) : Option Kernel := some (screenNext disk k e)

def isScheduler : ScreenEvent → Bool
  | .scheduler .. => true
  | _ => false

/-- The registers have the position of the visible terminal's cursor. -/
def InSync (v : Fin 3) (con : Console) : Prop := con.cursorReg = cursorCell con v

/-- After the event the registers are right; `scheduler` is left out. -/
def CursorFollows (disk : Disk) (k : Kernel) (e : ScreenEvent) : Prop :=
  isScheduler e = false → InSync (screenNext disk k e).visibleTerm (screenNext disk k e).con

/-- A newline for terminal `t`, written while `v` is visible, scrolls the visible screen. -/
def ScrollsVisible (t v : Fin 3) (c : UInt8) (con : Console) : Prop :=
  (c = 10 ∨ c = 13) ∧ t = v ∧ con.screenY v = numRows - 1

instance (t v : Fin 3) (c : UInt8) (con : Console) : Decidable (ScrollsVisible t v c con) :=
  inferInstanceAs (Decidable (_ ∧ _))

/-- The condition. -/
def keepsInSync (k : Kernel) : ScreenEvent → Prop
  | .putc c => ¬ ScrollsVisible k.schedTerm k.visibleTerm c k.con
  | .putck c => ¬ ScrollsVisible k.visibleTerm k.visibleTerm c k.con
  | _ => True

/-! ## The cursors in memory -/

section Bounds

variable {con : Console}

/-- `execute` prints at most that there are no more processes. -/
theorem execute_cursorsOk {k : Kernel} (hok : ∀ u, CursorOk k.con u) (img : Image) (fr : Frame)
    (site : RetSite) (command : Option (List UInt8)) (u : Fin 3) :
    CursorOk (execute img fr site command k).1.con u := by
  obtain ⟨-, -, hcon | hcon⟩ := execute_display img fr site command k
  · rw [hcon]
    exact hok u
  · rw [hcon]
    exact (printfkText_spec _ _ _ hok).1 u

/-- **No step takes a cursor off the screen.** -/
theorem screenNext_cursorsOk (disk : Disk) {k : Kernel} (hok : ∀ u, CursorOk k.con u)
    (e : ScreenEvent) : ∀ u, CursorOk (screenNext disk k e).con u := by
  cases e with
  | putc c => exact (putc_stepped k.visibleTerm c (hok k.schedTerm)).cursorsOk hok
  | putck c => exact (putck_stepped k.schedTerm k.visibleTerm c hok).cursorsOk hok
  | clear =>
    simp only [screenNext]
    exact Stepped.cursorsOk (clear_stepped k.visibleTerm k.con) hok
  | cleark =>
    simp only [screenNext]
    exact Stepped.cursorsOk (cleark_stepped k.visibleTerm k.con) hok
  | switchTerminal n =>
    intro u
    by_cases hn : n = k.visibleTerm
    · have hsame : switchTerminal n k = sti (cli k) := if_pos hn
      show CursorOk (switchTerminal n k).con u
      rw [hsame]
      exact hok u
    · obtain ⟨-, -, -, -, hx, hy⟩ := switchTerminal_display hn
      show CursorOk (switchTerminal n k).con u
      simpa only [CursorOk, hx, hy] using hok u
  | scheduler esp ebp fr => exact (displayInv_scheduler hok disk esp ebp fr).cursors

theorem initialConsole_cursorsOk (pw : PowerOn) (u : Fin 3) : CursorOk (initialConsole pw) u := by
  have hclear : ∀ con : Console, (∀ u, CursorOk con u) → ∀ u, CursorOk (clear 0 0 con) u :=
    fun con hok => Stepped.cursorsOk (clear_stepped 0 con) hok
  unfold initialConsole
  refine hclear _ (hclear _ (hclear _ fun u => ?_)) u
  exact ⟨Int.le_refl 0, show (0 : Int) ≤ numCols from by decide, Int.le_refl 0,
    show (0 : Int) < numRows from by decide⟩

end Bounds

/-! ## The cursor in the registers -/

section Registers

variable {s t v : Fin 3} {c : UInt8} {con con' : Console}

/-- 80 columns and 25 rows fit into sixteen bits. -/
theorem updateCursor_inSync (hok : CursorOk con v) : InSync v (updateCursor v con) := by
  obtain ⟨hx, hx', hy, hy'⟩ := hok
  show (con.screenY v * numCols + con.screenX v) % 65536 = numCols * con.screenY v + con.screenX v
  simp only [numCols, numRows] at *
  omega

/-- Bytes written to a page. -/
theorem InSync.writes {f : Int} (h : InSync v con) (hw : WritesOn f con con') : InSync v con' := by
  obtain ⟨p, rfl, -⟩ := hw
  exact h

/-- **A newline** leaves the registers right, unless it scrolls the visible screen: the position has
    been written before the cursor is put back into the last row. -/
theorem newLine_inSync_iff {scroll : Console → Console} {page : Int}
    (hscroll : ∀ con, WritesOn (con.pageTable page) con (scroll con)) (hok : ∀ u, CursorOk con u) :
    InSync v (newLine t v scroll con) ↔ ¬ (t = v ∧ con.screenY v = numRows - 1) := by
  obtain ⟨hx, hx', hy, hy'⟩ := hok t
  obtain ⟨hvx, hvx', hvy, hvy'⟩ := hok v
  have hrow : (updateCursor v (setCursor t 0 (con.screenY t + 1) con)).screenY t = con.screenY t + 1 :=
    setCursor_screenY t 0 (con.screenY t + 1) con
  have hcol : (updateCursor v (setCursor t 0 (con.screenY t + 1) con)).screenX t = 0 :=
    setCursor_screenX t 0 (con.screenY t + 1) con
  rw [newLine, checkScroll, hrow, hcol]
  by_cases hbottom : con.screenY t + 1 ≥ numRows
  · rw [if_pos hbottom]
    have hscrolled := hscroll (updateCursor v (setCursor t 0 (con.screenY t + 1) con))
    generalize scroll (updateCursor v (setCursor t 0 (con.screenY t + 1) con)) = scrolled at hscrolled
    obtain ⟨p, rfl, -⟩ := hscrolled
    by_cases htv : t = v
    · -- the registers say row 25
      subst htv
      refine iff_of_false ?_ (not_not.mpr ⟨rfl, by simp only [numRows] at *; omega⟩)
      intro hsync
      have hreg : (Function.update con.screenY t (con.screenY t + 1) t * numCols +
          Function.update con.screenX t 0 t) % 65536 = numCols * (numRows - 1) + 0 :=
        hsync.trans (cursorCell_setCursor t 0 (numRows - 1) _)
      rw [Function.update_self, Function.update_self] at hreg
      simp only [numCols, numRows] at *
      omega
    · refine iff_of_true ?_ fun h => htv h.1
      have hne : v ≠ t := Ne.symm htv
      show (Function.update con.screenY t _ v * numCols + Function.update con.screenX t 0 v) % 65536 =
        numCols * Function.update (Function.update con.screenY t _) t (numRows - 1) v +
          Function.update (Function.update con.screenX t 0) t 0 v
      rw [Function.update_of_ne hne, Function.update_of_ne hne, Function.update_of_ne hne,
        Function.update_of_ne hne, Function.update_of_ne hne, Function.update_of_ne hne]
      simp only [numCols, numRows] at *
      omega
  · rw [if_neg hbottom]
    refine iff_of_true (updateCursor_inSync ?_) ?_
    · by_cases htv : v = t
      · subst htv
        exact CursorOk.setCursor (by decide) (by decide) (by omega) (by omega) con
      · exact ((ScreenStep.refl t (fun _ => False) con).setCursor 0 _).cursorOk htv (hok v)
    · rintro ⟨rfl, hlast⟩
      rw [hlast] at hbottom
      exact hbottom (by decide)

/-- The branches that `putc` and `putck` share: those for a backspace and for any other character end
    with `update_cursor`. -/
theorem branches_inSync_iff {scroll : Console → Console} {page : Int}
    (hscroll : ∀ con, WritesOn (con.pageTable page) con (scroll con)) (hok : ∀ u, CursorOk con u)
    {back plain : Console}
    (hend : CursorOk (if c = 10 ∨ c = 13 then newLine t v scroll con
      else if c = 8 then updateCursor v back else updateCursor v plain) v) :
    InSync v (if c = 10 ∨ c = 13 then newLine t v scroll con
      else if c = 8 then updateCursor v back else updateCursor v plain) ↔
      ¬ ScrollsVisible t v c con := by
  by_cases hnewline : c = 10 ∨ c = 13
  · rw [if_pos hnewline, newLine_inSync_iff hscroll hok]
    exact not_congr (and_iff_right hnewline).symm
  rw [if_neg hnewline] at hend ⊢
  have hnot : ¬ ScrollsVisible t v c con := fun h => hnewline h.1
  split at hend
  · rename_i hback
    rw [if_pos hback]
    exact iff_of_true (updateCursor_inSync hend) hnot
  · rename_i hback
    rw [if_neg hback]
    exact iff_of_true (updateCursor_inSync hend) hnot

/-- **`putc`** prints nothing for a NUL. -/
theorem putc_inSync_iff (hok : ∀ u, CursorOk con u) (hsync : InSync v con) :
    InSync v (putc s v c con) ↔ ¬ ScrollsVisible s v c con := by
  have hend := (putc_stepped v c (hok s)).cursorsOk hok v
  unfold putc at hend ⊢
  by_cases hnul : c = 0
  · rw [if_pos hnul]
    refine iff_of_true hsync ?_
    rintro ⟨hc | hc, -⟩ <;> rw [hnul] at hc <;> cases hc
  rw [if_neg hnul] at hend ⊢
  exact branches_inSync_iff scroll_writesOn hok hend

/-- **`putck`**, the same code for the visible terminal. -/
theorem putck_inSync_iff (hok : ∀ u, CursorOk con u) :
    InSync v (putck s v c con) ↔ ¬ ScrollsVisible v v c con := by
  have hend := (putck_stepped s v c hok).cursorsOk hok v
  unfold putck at hend ⊢
  exact branches_inSync_iff scrollk_writesOn hok hend

/-- A text without newlines through `putck`. -/
theorem printfkText_inSync {cs : List UInt8} (hcs : ∀ c ∈ cs, c ≠ 10 ∧ c ≠ 13) :
    ∀ {con : Console}, (∀ u, CursorOk con u) → InSync v con → InSync v (printfkText s v cs con) := by
  induction cs with
  | nil =>
    intro con _ hsync
    exact hsync
  | cons c cs ih =>
    intro con hok _
    obtain ⟨hlf, hcr⟩ := hcs c List.mem_cons_self
    refine ih (fun c' hc' => hcs c' (List.mem_cons_of_mem c hc')) ?_ ?_
    · exact (putck_stepped s v c hok).cursorsOk hok
    · refine (putck_inSync_iff hok).mpr ?_
      rintro ⟨hc | hc, -⟩
      · exact hlf hc
      · exact hcr hc

/-- `clear` writes the position before it blanks the page. -/
theorem clear_inSync (hok : ∀ u, CursorOk con u) : InSync v (clear t v con) := by
  have hhome : CursorOk (setCursor t 0 0 con) v := by
    by_cases htv : v = t
    · subst htv
      exact CursorOk.setCursor (by decide) (by decide) (by decide) (by decide) con
    · exact ((ScreenStep.refl t (fun _ => False) con).setCursor 0 0).cursorOk htv (hok v)
  exact (updateCursor_inSync hhome).writes
    (clearAt_writesOn (show videoMem = videoMemAddr * kb4 by simp) t v con)

theorem cleark_inSync (v : Fin 3) (con : Console) : InSync v (cleark v con) := by
  have hhome : CursorOk (setCursor v 0 0 con) v :=
    CursorOk.setCursor (by decide) (by decide) (by decide) (by decide) con
  exact (updateCursor_inSync hhome).writes
    (clearAt_writesOn (show putckVidMem = 0xBC * kb4 by simp) v v con)

end Registers

/-! ## Steps and runs -/

/-- The cursors are on the screen, and the registers follow the visible one. -/
structure CursorInv (k : Kernel) : Prop where
  cursors : ∀ u, CursorOk k.con u
  inSync : InSync k.visibleTerm k.con

variable {k : Kernel}

theorem processCapReached_oneLine : ∀ c ∈ processCapReached, c ≠ 10 ∧ c ≠ 13 := by
  simp [processCapReached]

theorem CursorInv.execute (h : CursorInv k) (img : Image) (fr : Frame) (site : RetSite)
    (command : Option (List UInt8)) : CursorInv (execute img fr site command k).1 := by
  refine ⟨execute_cursorsOk h.cursors img fr site command, ?_⟩
  obtain ⟨-, hvisible, hcon | hcon⟩ := execute_display img fr site command k
  · rw [hvisible, hcon]
    exact h.inSync
  · rw [hvisible, hcon]
    exact printfkText_inSync processCapReached_oneLine h.cursors h.inSync

/-- The registers are right in a kernel whose console is replaced by one with right registers.  The
    loops of `clear` stay folded this way. -/
theorem inSync_withCon (k : Kernel) {con : Console} (h : InSync k.visibleTerm con) :
    InSync ({ k with con := con } : Kernel).visibleTerm ({ k with con := con } : Kernel).con := h

theorem screenNext_clear (disk : Disk) (k : Kernel) :
    screenNext disk k .clear = { k with con := clear k.schedTerm k.visibleTerm k.con } := rfl

theorem screenNext_cleark (disk : Disk) (k : Kernel) :
    screenNext disk k .cleark = { k with con := cleark k.visibleTerm k.con } := rfl

/-- **One step**, from a state with the registers right. -/
theorem CursorInv.step_iff (h : CursorInv k) (disk : Disk) (e : ScreenEvent) :
    InSync (screenNext disk k e).visibleTerm (screenNext disk k e).con ↔ keepsInSync k e := by
  cases e with
  | putc c =>
    simp only [screenNext, keepsInSync]
    exact putc_inSync_iff h.cursors h.inSync
  | putck c =>
    simp only [screenNext, keepsInSync]
    exact putck_inSync_iff h.cursors
  | clear =>
    refine iff_of_true ?_ trivial
    rw [screenNext_clear]
    exact inSync_withCon k (clear_inSync h.cursors)
  | cleark =>
    refine iff_of_true ?_ trivial
    rw [screenNext_cleark]
    exact inSync_withCon k (cleark_inSync k.visibleTerm k.con)
  | switchTerminal n =>
    refine iff_of_true ?_ trivial
    show InSync (switchTerminal n k).visibleTerm (switchTerminal n k).con
    by_cases hn : n = k.visibleTerm
    · have hsame : switchTerminal n k = sti (cli k) := if_pos hn
      rw [hsame]
      exact h.inSync
    · have hswitch : switchTerminal n k = _ := if_neg hn
      rw [hswitch]
      exact updateCursor_inSync (h.cursors n)
  | scheduler esp ebp fr =>
    refine iff_of_true ?_ trivial
    show InSync (scheduler disk esp ebp fr k).1.visibleTerm (scheduler disk esp ebp fr k).1.con
    unfold scheduler
    simp only
    split
    · -- the first shell of the next terminal starts on a cleared screen
      have hmapped : ∀ u, CursorOk (mapScreen (nextTerm k.schedTerm) k.visibleTerm k.con) u := h.cursors
      refine (CursorInv.execute ⟨?_, ?_⟩ _ _ _ _).inSync
      · simp only
        exact Stepped.cursorsOk (clear_stepped k.visibleTerm _) hmapped
      · simp only
        exact clear_inSync hmapped
    · exact h.inSync

theorem boot_cursorInv (disk : Disk) (pw : PowerOn) (fr : Frame) : CursorInv (boot disk pw fr).1 := by
  have hcursors := initialConsole_cursorsOk pw
  have hstart : CursorInv (initialKernel pw) := by
    refine ⟨?_, ?_⟩
    · simp only [initialKernel]
      exact Stepped.cursorsOk (clear_stepped 0 (initialConsole pw)) hcursors
    · simp only [initialKernel]
      exact clear_inSync hcursors
  exact hstart.execute _ _ _ _

/-- **The hardware cursor**: in a run from boot, of output of both kinds, clears, terminal switches and
    ticks, after every step but those of `scheduler` the registers have the position of the visible
    terminal's cursor, exactly when no newline or carriage return is written to the visible terminal
    with its cursor in the last row. -/
theorem hardware_cursor_iff (disk : Disk) (pw : PowerOn) (fr : Frame) (events : List ScreenEvent) :
    Along (screenStep disk) (CursorFollows disk) (boot disk pw fr).1 events ↔
      Along (screenStep disk) keepsInSync (boot disk pw fr).1 events := by
  refine along_iff_along ?_ ?_ (boot_cursorInv disk pw fr)
  · intro k e k' h hgood hs
    obtain rfl := Option.some.inj hs
    exact ⟨screenNext_cursorsOk disk h.cursors e, (h.step_iff disk e).mpr hgood⟩
  · intro k e k' h _
    cases e with
    | scheduler esp ebp fr => exact iff_of_true nofun trivial
    | putc | putck | clear | cleark | switchTerminal =>
      exact (forall_prop_of_true rfl).trans (h.step_iff disk _)

/-- Twenty-four newlines bring the cursor of the first shell into the last row; the next one scrolls. -/
theorem cursor_below_the_screen :
    ¬ Along (screenStep smallDisk) (CursorFollows smallDisk)
      (boot smallDisk blankMemory blankFrame).1 (List.replicate 24 (.putc 10) ++ [.putc 10]) := by
  intro h
  have hrun : (run (screenStep smallDisk) (boot smallDisk blankMemory blankFrame).1
      (List.replicate 24 (.putc 10))).map
        (fun k => (k.schedTerm, k.visibleTerm, k.con.screenY 0)) = some (0, 0, 24) := by
    decide +kernel
  obtain ⟨k, hk, hfields⟩ := Option.map_eq_some_iff.mp hrun
  simp only [Prod.mk.injEq] at hfields
  obtain ⟨hsched, hvisible, hrow⟩ := hfields
  have hstep : ∀ (k : Kernel) (e : ScreenEvent) (k' : Kernel), (∀ u, CursorOk k.con u) →
      screenStep smallDisk k e = some k' → ∀ u, CursorOk k'.con u := by
    intro k e k' hok hs
    obtain rfl := Option.some.inj hs
    exact screenNext_cursorsOk smallDisk hok e
  have hcursors : ∀ u, CursorOk k.con u :=
    throughout_last (throughout_of_inv hstep (boot_cursorInv smallDisk blankMemory blankFrame).cursors)
      hk
  have hsync := along_at h hk rfl rfl
  have hnewline : InSync k.visibleTerm (newLine k.schedTerm k.visibleTerm scroll k.con) := hsync
  rw [newLine_inSync_iff scroll_writesOn hcursors, hsched, hvisible, hrow] at hnewline
  exact hnewline ⟨rfl, rfl⟩

end ByteVerse
