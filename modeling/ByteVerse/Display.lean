/-
  Which screen the output of a terminal's process reaches.

  Output goes through `page_table[0xB8]`, or, for a process that has called `vidmap`, through
  `page_table_vidmap[sched_term]`.  Both are to lead to the screen when the scheduled terminal is the
  visible one and to its backup page otherwise; `scheduler` sets them so (`mapScreen`).  But
  `switch_terminal` changes what is visible and puts the old mapping back.  That is right only for a
  switch between two terminals that are not scheduled: `output_isolated_iff`.
-/
import ByteVerse.Terminal
import ByteVerse.Run

set_option linter.unusedVariables false

namespace ByteVerse

open SlotTable Run

/-! ## Output, ticks and switches -/

inductive DisplayEvent
  /-- The process of the scheduled terminal writes a character. -/
  | putc (c : UInt8)
  /-- It stores a byte at an offset from the address that `vidmap` gave it. -/
  | store (offset : Int) (b : UInt8)
  | tick (esp ebp : Nat) (fr : Frame)
  | switchTerminal (terminalNumber : Fin 3)

def displayStep (disk : Disk) (k : Kernel) : DisplayEvent → Option Kernel
  | .putc c => some { k with con := putc k.schedTerm k.visibleTerm c k.con }
  | .store offset b =>
    if 0 ≤ offset ∧ offset < kb4 then some { k with con := vidmapStore k.schedTerm offset b k.con }
    else none
  | .tick esp ebp fr => some (scheduler disk esp ebp fr k).1
  | .switchTerminal n => some (switchTerminal n k)

/-- The page that the scheduled terminal's output belongs on. -/
def ownPage (k : Kernel) : Int :=
  if k.schedTerm = k.visibleTerm then 0xB8 else 0xB9 + ((k.schedTerm : Nat) : Int)

/-- Output of the scheduled terminal reaches its own page and no other. -/
structure OutputIsolated (k : Kernel) : Prop where
  video : k.con.pageTable 0xB8 = ownPage k
  vidmap : k.con.pageTableVidmap (k.schedTerm : Nat) = ownPage k
  putc : ∀ c f, f ≠ ownPage k →
    (putc k.schedTerm k.visibleTerm c k.con).phys f = k.con.phys f
  store : ∀ offset b f, f ≠ ownPage k →
    (vidmapStore k.schedTerm offset b k.con).phys f = k.con.phys f

/-- The switch leaves the mapping right: it is to the visible terminal itself, or between two
    terminals that are both not scheduled. -/
def keepsMapping (k : Kernel) : DisplayEvent → Prop
  | .switchTerminal n => n = k.visibleTerm ∨ (k.schedTerm ≠ k.visibleTerm ∧ k.schedTerm ≠ n)
  | _ => True

/-! ## The invariant -/

/-- Both mappings are right, and the cursors are on the screen. -/
structure DisplayInv (k : Kernel) : Prop where
  video : k.con.pageTable videoMemAddr = ownPage k
  vidmap : k.con.pageTableVidmap (k.schedTerm : Nat) = ownPage k
  cursors : ∀ u, CursorOk k.con u

theorem screenPage_eq (s v : Fin 3) :
    screenPage s v = if s = v then 0xB8 else 0xB9 + ((s : Nat) : Int) := by
  revert s v
  decide

theorem DisplayInv.isolated {k : Kernel} (h : DisplayInv k) : OutputIsolated k where
  video := h.video
  vidmap := h.vidmap
  putc c f hf := by
    refine (putc_stepped k.visibleTerm c (h.cursors k.schedTerm)).1.phys f fun hon => hf ?_
    exact hon.trans h.video
  store offset b f hf := by
    refine Function.update_of_ne (fun hon => hf ?_) _ _
    exact hon.trans h.vidmap

/-- A console call of terminal `t` leaves the mappings and keeps the cursors on the screen. -/
theorem DisplayInv.stepped {k : Kernel} (h : DisplayInv k) {t : Fin 3} {on : Int → Prop}
    {con : Console} (hstep : Stepped t on k.con con) : DisplayInv { k with con := con } where
  video := by
    show con.pageTable videoMemAddr = ownPage k
    rw [hstep.1.pageTable]
    exact h.video
  vidmap := by
    show con.pageTableVidmap _ = ownPage k
    rw [hstep.1.pageTableVidmap]
    exact h.vidmap
  cursors := hstep.cursorsOk h.cursors

/-- What `execute` can do to the display: print that there are no more processes. -/
theorem execute_display (img : Image) (fr : Frame) (site : RetSite)
    (command : Option (List UInt8)) (k : Kernel) :
    let k' := (execute img fr site command k).1
    k'.schedTerm = k.schedTerm ∧ k'.visibleTerm = k.visibleTerm ∧
      (k'.con = k.con ∨
        k'.con = printfkText k.schedTerm k.visibleTerm processCapReached k.con) := by
  unfold execute
  rcases checkProgram img fr command with reenable | prog
  · cases reenable <;> exact ⟨rfl, rfl, Or.inl rfl⟩
  · simp only
    rcases firstFree (cli k).procs.slotUsed 0 maxPcbs with _ | i
    · exact ⟨rfl, rfl, Or.inr rfl⟩
    · simp only
      split <;> exact ⟨rfl, rfl, Or.inl rfl⟩

theorem DisplayInv.execute {k : Kernel} (h : DisplayInv k) (img : Image) (fr : Frame)
    (site : RetSite) (command : Option (List UInt8)) :
    DisplayInv (execute img fr site command k).1 := by
  obtain ⟨hsched, hvisible, hcon⟩ := execute_display img fr site command k
  have hown : ownPage (ByteVerse.execute img fr site command k).1 = ownPage k := by
    rw [ownPage, hsched, hvisible]
    rfl
  rcases hcon with hcon | hcon
  · refine ⟨?_, ?_, ?_⟩
    · rw [hcon, hown]
      exact h.video
    · rw [hcon, hown, hsched]
      exact h.vidmap
    · rw [hcon]
      exact h.cursors
  · obtain ⟨hok, hpt, hvm⟩ := printfkText_spec k.schedTerm k.visibleTerm processCapReached h.cursors
    refine ⟨?_, ?_, ?_⟩
    · rw [hcon, hpt, hown]
      exact h.video
    · rw [hcon, hvm, hown, hsched]
      exact h.vidmap
    · rw [hcon]
      exact hok

/-- **A tick makes the mappings right**, whatever they were. -/
theorem displayInv_scheduler {k : Kernel} (hcursors : ∀ u, CursorOk k.con u) (disk : Disk)
    (esp ebp : Nat) (fr : Frame) : DisplayInv (scheduler disk esp ebp fr k).1 := by
  have hmapped : ∀ procs, DisplayInv { k with
      schedTerm := nextTerm k.schedTerm
      con := mapScreen (nextTerm k.schedTerm) k.visibleTerm k.con
      procs := procs } := by
    intro procs
    have hpage := screenPage_eq (nextTerm k.schedTerm) k.visibleTerm
    refine ⟨?_, ?_, hcursors⟩
    · show Function.update k.con.pageTable videoMemAddr _ videoMemAddr = _
      rw [Function.update_self]
      exact hpage
    · exact (Function.update_self _ _ _).trans hpage
  unfold scheduler
  simp only
  split
  · exact ((hmapped _).stepped (clear_stepped k.visibleTerm _)).execute _ _ _ _
  · exact hmapped _

/-- What `switch_terminal` does to the display: pages, the hardware cursor, and which terminal is
    visible; the mapping is put back. -/
theorem switchTerminal_display {k : Kernel} {n : Fin 3} (hn : n ≠ k.visibleTerm) :
    let k' := switchTerminal n k
    k'.schedTerm = k.schedTerm ∧ k'.visibleTerm = n ∧
      k'.con.pageTable = k.con.pageTable ∧ k'.con.pageTableVidmap = k.con.pageTableVidmap ∧
      k'.con.screenX = k.con.screenX ∧ k'.con.screenY = k.con.screenY := by
  have hswitch : switchTerminal n k = _ := if_neg hn
  rw [hswitch]
  refine ⟨rfl, rfl, ?_, rfl, rfl, rfl⟩
  show Function.update (Function.update k.con.pageTable videoMemAddr videoMemAddr) videoMemAddr _ = _
  rw [Function.update_idem]
  exact Function.update_eq_self _ _

/-- The step lemma. -/
theorem DisplayInv.step {disk : Disk} {k k' : Kernel} {e : DisplayEvent} (h : DisplayInv k)
    (hgood : keepsMapping k e) (hstep : displayStep disk k e = some k') : DisplayInv k' := by
  cases e with
  | putc c =>
    obtain rfl := Option.some.inj hstep
    exact h.stepped (putc_stepped k.visibleTerm c (h.cursors k.schedTerm))
  | store offset b =>
    simp only [displayStep] at hstep
    split at hstep
    · obtain rfl := Option.some.inj hstep
      exact ⟨h.video, h.vidmap, h.cursors⟩
    · cases hstep
  | tick esp ebp fr =>
    obtain rfl := Option.some.inj hstep
    exact displayInv_scheduler h.cursors disk esp ebp fr
  | switchTerminal n =>
    obtain rfl := Option.some.inj hstep
    by_cases hn : n = k.visibleTerm
    · have hsame : switchTerminal n k = sti (cli k) := if_pos hn
      rw [hsame]
      exact ⟨h.video, h.vidmap, h.cursors⟩
    · obtain ⟨hsv, hsn⟩ := hgood.resolve_left hn
      obtain ⟨hsched, hvisible, hpt, hvm, hx, hy⟩ := switchTerminal_display hn
      have hown : ownPage (switchTerminal n k) = ownPage k := by
        rw [ownPage, ownPage, hsched, hvisible, if_neg hsn, if_neg hsv]
      refine ⟨?_, ?_, fun u => ?_⟩
      · rw [hpt, hown]
        exact h.video
      · rw [hvm, hown, hsched]
        exact h.vidmap
      · simpa only [CursorOk, hx, hy] using h.cursors u

/-- A switch from or to the scheduled terminal leaves it mapped to the wrong page. -/
theorem DisplayInv.bad_step {disk : Disk} {k k' : Kernel} {e : DisplayEvent} (h : DisplayInv k)
    (hbad : ¬ keepsMapping k e) (hstep : displayStep disk k e = some k') : ¬ OutputIsolated k' := by
  cases e with
  | putc | store | tick => exact absurd trivial hbad
  | switchTerminal n =>
    obtain rfl := Option.some.inj hstep
    simp only [keepsMapping, not_or, not_and, not_not] at hbad
    obtain ⟨hn, hsched'⟩ := hbad
    obtain ⟨hsched, hvisible, hpt, -, -, -⟩ := switchTerminal_display hn
    intro hout
    have hvideo := hout.video
    rw [hpt, show k.con.pageTable 0xB8 = ownPage k from h.video, ownPage, ownPage, hsched,
      hvisible] at hvideo
    -- the scheduled terminal was visible and is not now, or the other way round
    by_cases hsv : k.schedTerm = k.visibleTerm
    · have hsn : ¬ k.schedTerm = n := fun heq => hn (heq.symm.trans hsv)
      rw [if_pos hsv, if_neg hsn] at hvideo
      omega
    · rw [if_neg hsv, if_pos (hsched' hsv)] at hvideo
      omega

theorem boot_displayInv (disk : Disk) (pw : PowerOn) (fr : Frame) :
    DisplayInv (boot disk pw fr).1 := by
  have hzero : ∀ con : Console, con.pageTable = initialPageTable →
      con.pageTableVidmap = initialPageTableVidmap → (∀ u, CursorOk con u) →
      DisplayInv { initialKernel pw with con := con } := by
    intro con hpt hvm hcursors
    refine ⟨?_, ?_, hcursors⟩
    · show con.pageTable videoMemAddr = _
      rw [hpt]
      rfl
    · show con.pageTableVidmap _ = _
      rw [hvm]
      rfl
  have hclear : ∀ con : Console, DisplayInv { initialKernel pw with con := con } →
      DisplayInv { initialKernel pw with con := clear 0 0 con } := fun con h =>
    h.stepped (clear_stepped 0 con)
  have hstart : DisplayInv (initialKernel pw) := by
    refine hclear _ (hclear _ (hclear _ (hclear _ (hzero _ rfl rfl fun u => ?_))))
    simp [CursorOk]
  exact hstart.execute _ _ _ _

/-- **Output stays on its own page exactly along the runs whose switches leave the scheduled terminal
    alone.**  For every run of output, ticks and switches after boot: in every state both mappings
    of the scheduled terminal are right and its output changes only its own page, iff each switch is
    to the visible terminal itself or between two terminals that are not scheduled. -/
theorem output_isolated_iff (disk : Disk) (pw : PowerOn) (fr : Frame) (events : List DisplayEvent) :
    Throughout (displayStep disk) OutputIsolated (boot disk pw fr).1 events ↔
      Along (displayStep disk) keepsMapping (boot disk pw fr).1 events :=
  throughout_iff_along (fun _ h => h.isolated) (fun _ _ _ h hg hs => h.step hg hs)
    (fun _ _ _ h hb hs => h.bad_step hb hs) (boot_displayInv disk pw fr)

/-- Terminal 0 runs and is visible; after a switch to terminal 1 its output goes to the screen, which
    now belongs to terminal 1. -/
theorem output_on_other_screen :
    ¬ Throughout (displayStep smallDisk) OutputIsolated
      (boot smallDisk blankMemory blankFrame).1 [.switchTerminal 1] := by
  intro h
  have hbad : ¬ keepsMapping (boot smallDisk blankMemory blankFrame).1 (.switchTerminal 1) := by
    show ¬ ((1 : Fin 3) = _ ∨ _)
    decide +kernel
  have hstep : displayStep smallDisk (boot smallDisk blankMemory blankFrame).1 (.switchTerminal 1) =
      some (switchTerminal 1 (boot smallDisk blankMemory blankFrame).1) := rfl
  exact (boot_displayInv smallDisk blankMemory blankFrame).bad_step hbad hstep (h.2 _ hstep)

end ByteVerse
