/-
  `switch_terminal` loses nothing.

  There is one `term_buffer`, one `buffer_index` and one screen, which hold the data of the visible
  terminal; those of the other two lie in `read_buffer`, `rb_idx` and the backup pages.
  `contentsOf` reads a terminal's data from where they are, and a switch leaves the contents of all
  three terminals as they were (`switch_keeps_contents`), whatever frame the scheduler has mapped
  virtual page 0xB8 to.

  `rb_idx` has eight bits.  The invariant of a run of switches (`SwitchReady`) is that the indices
  fit them, that `r_flag` marks the visible terminal, and that the backup pages are mapped to
  themselves, as `paging_init` maps them.
-/
import ByteVerse.Terminal
import ByteVerse.Run

set_option linter.unusedVariables false

namespace ByteVerse

open Run

/-! ## What a terminal has -/

/-- The line being typed, its index, the screen page and the cursor of a terminal. -/
@[ext] structure Contents where
  buffer : Fin 128 → UInt8
  index : Int
  screen : Fin 4096 → UInt8
  cursor : Int × Int

/-- The contents of terminal `t`: the live ones if it is visible, the saved ones otherwise. -/
def contentsOf (k : Kernel) (t : Fin 3) : Contents :=
  { buffer := fun i => if t = k.visibleTerm then k.input.termBuffer (i : Nat)
      else k.input.readBuffer t (i : Nat)
    index := if t = k.visibleTerm then k.input.bufferIndex else k.input.rbIdx t
    screen := fun i => k.con.phys (if t = k.visibleTerm then videoMemAddr else backupPage t) (i : Nat)
    cursor := (k.con.screenX t, k.con.screenY t) }

/-- What one call of `switch_terminal(n)` is to do, from the kernel `k` to the kernel `k'`. -/
structure SwitchKeeps (k : Kernel) (n : Fin 3) (k' : Kernel) : Prop where
  contents : ∀ t, contentsOf k' t = contentsOf k t
  visible : k'.visibleTerm = n
  rFlag : ∀ t, k'.input.rFlag t = if t = n then 1 else 0
  mapping : k'.con.pageTable videoMemAddr = k.con.pageTable videoMemAddr

/-- What a switch relies on, and leaves. -/
structure SwitchReady (k : Kernel) : Prop where
  index : 0 ≤ k.input.bufferIndex ∧ k.input.bufferIndex < 256
  saved : ∀ t, 0 ≤ k.input.rbIdx t ∧ k.input.rbIdx t < 256
  rFlag : ∀ t, k.input.rFlag t = if t = k.visibleTerm then 1 else 0
  backup : ∀ t, k.con.pageTable (backupPage t) = backupPage t

/-! ## One switch -/

theorem backupPage_ne_video (t : Fin 3) : backupPage t ≠ videoMemAddr := by
  revert t
  decide

theorem backupPage_inj {t u : Fin 3} : backupPage t = backupPage u ↔ t = u := by
  revert t u
  decide

/-- **The four copies of a switch, on physical memory**: the screen to the backup page of the
    terminal that leaves it, and the backup page of the other one to the screen. -/
theorem switchScreen_phys {v n : Fin 3} (hn : n ≠ v) {con : Console}
    (hbackup : ∀ t, con.pageTable (backupPage t) = backupPage t) :
    (switchScreen v n con).phys =
      Function.update (Function.update con.phys (backupPage v) (con.phys videoMemAddr))
        videoMemAddr (con.phys (backupPage n)) := by
  have hne : backupPage n ≠ backupPage v := fun h => hn (backupPage_inj.mp h)
  simp only [switchScreen, copyPage, mapVideo, ByteVerse.updateCursor, Function.update_self,
    Function.update_of_ne (backupPage_ne_video _), hbackup, Function.update_of_ne hne]

theorem switchScreen_pageTable (v n : Fin 3) (con : Console) :
    (switchScreen v n con).pageTable = con.pageTable := by
  show Function.update (Function.update con.pageTable videoMemAddr videoMemAddr) videoMemAddr _ = _
  rw [Function.update_idem]
  exact Function.update_eq_self _ _

variable {k : Kernel} {n : Fin 3}

/-- A switch to another terminal, field by field. -/
theorem switchTerminal_of_ne (hn : n ≠ k.visibleTerm) :
    switchTerminal n k = sti { cli k with
      con := switchScreen k.visibleTerm n k.con
      input := switchInput k.visibleTerm n k.input
      visibleTerm := n } :=
  if_neg hn

/-- The contents of all three terminals survive a switch: those of the terminal that is hidden are
    saved, those of the one that is shown are loaded, and the third's stay where they are. -/
theorem switch_keeps_contents (h : SwitchReady k) (hn : n ≠ k.visibleTerm) (t : Fin 3) :
    contentsOf (switchTerminal n k) t = contentsOf k t := by
  have hphys : (switchTerminal n k).con.phys =
      Function.update (Function.update k.con.phys (backupPage k.visibleTerm)
        (k.con.phys videoMemAddr)) videoMemAddr (k.con.phys (backupPage n)) := by
    rw [switchTerminal_of_ne hn]
    exact switchScreen_phys hn h.backup
  have hcursor : (contentsOf (switchTerminal n k) t).cursor = (contentsOf k t).cursor := by
    rw [switchTerminal_of_ne hn]
    rfl
  have hinput : (switchTerminal n k).input = switchInput k.visibleTerm n k.input := by
    rw [switchTerminal_of_ne hn]
    rfl
  have hvisible : (switchTerminal n k).visibleTerm = n := by
    rw [switchTerminal_of_ne hn]
    rfl
  obtain ⟨hlow, hhigh⟩ := h.index
  have hin : ∀ i : Fin 128, 0 ≤ ((i : Nat) : Int) ∧ ((i : Nat) : Int) < bufferLimit := by
    intro i
    simp only [bufferLimit]
    omega
  refine Contents.ext ?_ ?_ ?_ hcursor
  all_goals simp only [contentsOf]
  all_goals rw [hvisible]
  · rw [hinput]
    funext i
    by_cases htn : t = n
    · -- the terminal that is shown: its saved line becomes the live one
      subst htn
      rw [if_pos rfl, if_neg hn]
      simp only [switchInput, if_pos (hin i), Function.update_of_ne hn]
    · rw [if_neg htn]
      simp only [switchInput]
      by_cases htv : t = k.visibleTerm
      · -- the terminal that is hidden: its live line is saved
        subst htv
        rw [Function.update_self, if_pos rfl, if_pos (hin i)]
      · rw [Function.update_of_ne htv, if_neg htv]
  · rw [hinput]
    by_cases htn : t = n
    · subst htn
      rw [if_pos rfl, if_neg hn]
      exact Function.update_of_ne hn _ _
    · rw [if_neg htn]
      show Function.update k.input.rbIdx k.visibleTerm _ t = _
      by_cases htv : t = k.visibleTerm
      · subst htv
        rw [Function.update_self, if_pos rfl]
        omega
      · rw [Function.update_of_ne htv, if_neg htv]
  · rw [hphys]
    funext i
    by_cases htn : t = n
    · subst htn
      rw [if_pos rfl, if_neg hn, Function.update_self]
    · rw [if_neg htn, Function.update_of_ne (backupPage_ne_video t)]
      by_cases htv : t = k.visibleTerm
      · subst htv
        rw [if_pos rfl, Function.update_self]
      · rw [if_neg htv, Function.update_of_ne fun heq => htv (backupPage_inj.mp heq)]

/-- The flags after a switch mark the terminal that is shown. -/
theorem switch_rFlag (h : SwitchReady k) (hn : n ≠ k.visibleTerm) (t : Fin 3) :
    (switchTerminal n k).input.rFlag t = if t = n then 1 else 0 := by
  rw [switchTerminal_of_ne hn]
  show Function.update (Function.update k.input.rFlag k.visibleTerm 0) n 1 t = _
  by_cases htn : t = n
  · rw [htn, Function.update_self, if_pos rfl]
  · rw [Function.update_of_ne htn, if_neg htn]
    by_cases htv : t = k.visibleTerm
    · rw [htv, Function.update_self]
    · rw [Function.update_of_ne htv, h.rFlag, if_neg htv]

/-- **The step lemma**: a switch keeps what it is to keep, and leaves what the next one relies on. -/
theorem SwitchReady.step (h : SwitchReady k) (n : Fin 3) :
    SwitchKeeps k n (switchTerminal n k) ∧ SwitchReady (switchTerminal n k) := by
  by_cases hn : n = k.visibleTerm
  · have hsame : switchTerminal n k = sti (cli k) := if_pos hn
    rw [hsame]
    exact ⟨⟨fun t => rfl, hn.symm, fun t => hn ▸ h.rFlag t, rfl⟩, h.index, h.saved, h.rFlag, h.backup⟩
  · have hpage : (switchTerminal n k).con.pageTable = k.con.pageTable := by
      rw [switchTerminal_of_ne hn]
      exact switchScreen_pageTable _ _ _
    have hvisible : (switchTerminal n k).visibleTerm = n := by
      rw [switchTerminal_of_ne hn]
      rfl
    have hidx : (switchTerminal n k).input.rbIdx =
        Function.update k.input.rbIdx k.visibleTerm (k.input.bufferIndex % 256) := by
      rw [switchTerminal_of_ne hn]
      rfl
    have hlive : (switchTerminal n k).input.bufferIndex = k.input.rbIdx n := by
      rw [switchTerminal_of_ne hn]
      exact Function.update_of_ne hn _ _
    refine ⟨⟨switch_keeps_contents h hn, hvisible, switch_rFlag h hn, ?_⟩, ?_, fun t => ?_, ?_, ?_⟩
    · rw [hpage]
    · rw [hlive]
      exact h.saved n
    · rw [hidx]
      by_cases htv : t = k.visibleTerm
      · rw [htv, Function.update_self]
        omega
      · rw [Function.update_of_ne htv]
        exact h.saved t
    · rw [hvisible]
      exact switch_rFlag h hn
    · rw [hpage]
      exact h.backup

/-! ## Every sequence of switches -/

/-- `terminal_init` clears screens; the page tables stay as `paging_init` has left them. -/
theorem initialKernel_pageTable (pw : PowerOn) :
    (initialKernel pw).con.pageTable = initialPageTable := by
  have hclear : ∀ con : Console, (clear 0 0 con).pageTable = con.pageTable := fun con =>
    (clear_stepped 0 con).1.pageTable
  simp only [initialKernel, initialConsole, hclear]

def switchStep (k : Kernel) (n : Fin 3) : Option Kernel := some (switchTerminal n k)

/-- **Terminal switching loses nothing.**  From any state with `0 <= buffer_index <= 128` and `r_flag`
    set for the visible terminal only, and any frame behind virtual page 0xB8, every call of every
    sequence of `switch_terminal(n)` leaves the line, the index, the screen and the cursor of all
    three terminals as they were, shows terminal `n` and sets its flag alone, and restores the
    mapping of page 0xB8. -/
theorem switching_loses_nothing (k : Kernel) (ns : List (Fin 3))
    (hindex : 0 ≤ k.input.bufferIndex ∧ k.input.bufferIndex ≤ bufferLimit)
    (hsaved : ∀ t, 0 ≤ k.input.rbIdx t ∧ k.input.rbIdx t < 256)
    (hrFlag : ∀ t, k.input.rFlag t = if t = k.visibleTerm then 1 else 0)
    (hbackup : ∀ t, k.con.pageTable (backupPage t) = backupPage t) :
    Along switchStep (fun k n => SwitchKeeps k n (switchTerminal n k)) k ns := by
  have hready : SwitchReady k := by
    refine ⟨⟨hindex.1, ?_⟩, hsaved, hrFlag, hbackup⟩
    have hle : k.input.bufferIndex ≤ 128 := hindex.2
    omega
  have hstep : ∀ s n s', SwitchReady s → True → switchStep s n = some s' → SwitchReady s' := by
    intro s n s' h _ hs
    obtain rfl := Option.some.inj hs
    exact (h.step n).2
  exact along_of_inv hstep (fun s n h _ => (h.step n).1) hready
    (along_of_forall fun _ _ => trivial)

/-- From boot, round the three terminals and back. -/
theorem round_trip_loses_nothing :
    Along switchStep (fun k n => SwitchKeeps k n (switchTerminal n k)) (initialKernel blankMemory)
      [1, 2, 0] :=
  switching_loses_nothing (initialKernel blankMemory) [1, 2, 0]
    ⟨Int.le_refl 0, show (0 : Int) ≤ 128 by omega⟩
    (fun t => ⟨Int.le_refl 0, show (0 : Int) < 256 by omega⟩) (fun t => rfl)
    (fun t => by rw [initialKernel_pageTable]; revert t; decide)

end ByteVerse
