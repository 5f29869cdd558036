/-
  The statements of the kernel that change the page tables, and that they do to the bytes in memory what
  the model does to its three numbers.

  Each function that remaps something is a list of stores to bit-fields and of loads of CR3, in the order
  of the source (`scheduler`, `switch_terminal`, `execute`, `halt`, `vidmap`).  `keyedStep_frames`: after
  the statements of an event the tables have the frames that the kernel's record has.
-/
import ByteVerse.Paging
import ByteVerse.BuiltPids
import ByteVerse.TerminalSwitch

set_option linter.unusedVariables false

namespace ByteVerse

open SlotTable Run Words BitFields Mmu

/-! ## The statements -/

inductive MapStmt
  /-- `page_table[0xB8].frame = frame`. -/
  | video (frame : Nat)
  /-- `page_table_vidmap[s].frame = frame`. -/
  | vidmap (s : Fin 3) (frame : Nat)
  /-- `page_directory[32].pde_4mb.frame = frame`. -/
  | program (frame : Nat)
  /-- `page_directory[33].pde_4kb.frame = (uint32_t)page_table_vidmap >> 12`. -/
  | windows
  /-- CR3 is loaded with the value it has. -/
  | flush
  deriving DecidableEq

/-- A statement, on the processor and its memory. -/
def MapStmt.exec (p : Placement) (cpu : Processor) : MapStmt → Processor
  | .video frame => { cpu with mem := modifyEntry p.pageTable 0xB8 (Pte.frame.put frame) cpu.mem }
  | .vidmap s frame =>
    { cpu with mem := modifyEntry p.pageTableVidmap (s : Nat) (Pte.frame.put frame) cpu.mem }
  | .program frame =>
    { cpu with mem := modifyEntry p.pageDirectory 32 (Pde4mb.frame.put frame) cpu.mem }
  | .windows =>
    { cpu with mem := modifyEntry p.pageDirectory 33 (Pde4kb.frame.put p.pageTableVidmap) cpu.mem }
  | .flush => cpu.flush

/-- A statement, on the frames. -/
def MapStmt.onFrames (fr : Frames) : MapStmt → Frames
  | .video frame => { fr with video := Function.update fr.video 0xB8 frame }
  | .vidmap s frame => { fr with vidmap := Function.update fr.vidmap (s : Nat) frame }
  | .program frame => { fr with user := frame }
  | .windows => fr
  | .flush => fr

/-- The statements of the end of `halt`. -/
def haltReturnStmts (pid : Nat) (ps : Procs) : List MapStmt :=
  [.program (userFrame (ps.pcbs pid).parentPid).toNat, .flush]

/-- The statements of `execute`: none when it returns before the mapping. -/
def executeStmts (img : Image) (fr : Frame) (command : Option (List UInt8)) (k : Kernel) :
    List MapStmt :=
  match checkProgram img fr command with
  | .error _ => []
  | .ok _ =>
    match firstFree k.procs.slotUsed 0 maxPcbs with
    | none => []
    | some i => [.program (userFrame (i + 1)).toNat, .flush]

/-- The statements of `halt`; what follows `execute` in it is for when that has returned. -/
def haltStmts (disk : Disk) (fr : Frame) (status : UInt8) (k : Kernel) : List MapStmt :=
  let pid := k.procs.activePid k.schedTerm
  let k := { cli k with procs := freePid pid k.procs }
  if (k.procs.pcbs pid).pid = k.procs.basePid k.schedTerm then
    executeStmts disk.img fr (some (shellCommand disk .halt)) k ++
      match (executeShell disk .halt fr (.halt pid (haltRetVal status)) k).2 with
      | .entered _ _ => []
      | _ => haltReturnStmts pid k.procs
  else haltReturnStmts pid k.procs

/-- The statements of `scheduler`. -/
def schedulerStmts (disk : Disk) (esp ebp : Nat) (fr : Frame) (k : Kernel) : List MapStmt :=
  let running := k.schedTerm
  let s := nextTerm running
  let frame := (screenPage s k.visibleTerm).toNat
  [.video frame, .vidmap s frame, .flush] ++
    if k.procs.status s = 0 then
      executeStmts disk.img fr (some (shellCommand disk .scheduler))
        { k with procs := savePreempted running esp ebp (openTerminal s k.procs) }
    else [.program (userFrame (k.procs.pcbs (k.procs.activePid s)).pid).toNat, .flush]

/-- The statements of `switch_terminal`. -/
def switchStmts (n : Fin 3) (k : Kernel) : List MapStmt :=
  if n = k.visibleTerm then []
  else
    let temp := (k.con.pageTable videoMemAddr).toNat
    [.video 0xB8, .flush, .video temp, .flush]

/-- The statements of `vidmap`. -/
def vidmapStmts (screenStart : Int) : List MapStmt :=
  if screenStart = 0 then []
  else if screenStart < userAdd ∨ screenStart ≥ userAdd + mb4 then []
  else [.windows, .flush]

/-- The statements that an event executes. -/
def eventStmts (disk : Disk) (m : Machine) : KeyedEvent → List MapStmt
  | .process (.execute command fr) => executeStmts disk.img fr command m.kernel
  | .process (.halt status fr) => haltStmts disk fr status m.kernel
  | .process .resumeHalt =>
    match m.ctl m.term with
    | .halting currentPcb _ => haltReturnStmts currentPcb m.procs
    | _ => []
  | .process (.tick esp ebp fr) => schedulerStmts disk esp ebp fr m.kernel
  | .call _ => []
  | .key scanCode fr =>
    match m.asks scanCode with
    | .switchTerminal n => switchStmts n m.kernel
    | .halt => haltStmts disk fr 0 (m.keyed scanCode).kernel
    | _ => []

/-! ## On the bytes in memory -/

section Exec

variable {p : Placement} {cpu : Processor} {fr : Frames}

/-- The frame that a statement stores fits its field. -/
def MapStmt.Fits : MapStmt → Prop
  | .video frame => frame < 2 ^ 20
  | .vidmap _ frame => frame < 2 ^ 20
  | .program frame => frame < 2 ^ 10
  | .windows => True
  | .flush => True

theorem MapStmt.exec_control (p : Placement) (cpu : Processor) (st : MapStmt) :
    (st.exec p cpu).control = cpu.control := by
  cases st <;> rfl

/-- A store to the frame of one entry of a table. -/
theorem TableHolds.setFrame {isUser : Bool} {first last : Nat} {frames : Nat → Nat} {e e' : Nat → Word}
    (h : TableHolds isUser first last frames e) (hlast : last < 1024) {i frame : Nat}
    (hi : first ≤ i ∧ i ≤ last) (hframe : frame < 2 ^ 20) (hself : e' i = Pte.frame.put frame (e i))
    (hother : ∀ j, j < 1024 → j ≠ i → e' j = e j) :
    TableHolds isUser first last (Function.update frames i frame) e' := by
  refine ⟨?_, ?_⟩
  · intro j hj hj'
    by_cases hji : j = i
    · subst hji
      have he := h.maps j hj hj'
      rw [hself, Function.update_self]
      refine ⟨?_, ?_, ?_, ?_⟩
      · exact (get_put_of_apart frame _ (by decide) (by decide)).trans he.present
      · rw [get_put_of_apart (f := userBit) (g := Pte.frame) frame _ (by decide) (by decide)]
        exact he.user
      · exact (get_put_of_apart frame _ (by decide) (by decide)).trans he.readWrite
      · exact (get_put_self frame _ (by decide)).trans (Nat.mod_eq_of_lt hframe)
    · rw [hother j (by omega) hji, Function.update_of_ne hji]
      exact h.maps j hj hj'
  · intro j hj hout
    rw [hother j hj (by omega)]
    exact h.others j hj hout

/-- A store to the frame of the program's page. -/
theorem DirectoryHolds.setProgram {c : Control} {user frame : Nat} {e e' : Nat → Word}
    (h : DirectoryHolds p c user e) (hframe : frame < 2 ^ 10)
    (hself : e' 32 = Pde4mb.frame.put frame (e 32)) (hother : ∀ i, i < 1024 → i ≠ 32 → e' i = e i) :
    DirectoryHolds p c frame e' := by
  refine ⟨?_, ?_, ?_, ?_, ?_⟩
  · rw [hother 0 (by decide) (by decide)]
    exact h.low
  · rw [hother 1 (by decide) (by decide)]
    exact h.kernel
  · have hkept : ∀ f : BitField, f.Within 32 → f.Apart Pde4mb.frame → f.get (e' 32) = f.get (e 32) := by
      intro f hf hapart
      rw [hself]
      exact get_put_of_apart frame _ hf hapart
    have he := h.program
    refine ⟨?_, ?_, ?_, ?_, ?_, ?_, ?_⟩
    · exact (hkept Mmu.present (by decide) (by decide)).trans he.present
    · rw [Control.big, hkept pageSize (by decide) (by decide)]
      exact he.big
    · rw [hkept userBit (by decide) (by decide)]
      exact he.user
    · exact (hkept readWrite (by decide) (by decide)).trans he.readWrite
    · exact (hkept highAddr (by decide) (by decide)).trans he.high
    · exact (hkept reserved (by decide) (by decide)).trans he.reserved
    · rw [hself]
      exact (get_put_self frame _ (by decide)).trans (Nat.mod_eq_of_lt hframe)
  · rw [hother 33 (by decide) (by decide)]
    exact h.windows
  · intro i hi h0 h1 h32 h33
    rw [hother i hi h32]
    exact h.others i hi h0 h1 h32 h33

/-- The store of `vidmap` has been made at boot already. -/
theorem DirectoryHolds.setWindows {c : Control} {user : Nat} {e e' : Nat → Word}
    (h : DirectoryHolds p c user e) (hself : e' 33 = Pde4kb.frame.put p.pageTableVidmap (e 33))
    (hother : ∀ i, i < 1024 → i ≠ 33 → e' i = e i) : DirectoryHolds p c user e' := by
  refine ⟨?_, ?_, ?_, ?_, ?_⟩
  · rw [hother 0 (by decide) (by decide)]
    exact h.low
  · rw [hother 1 (by decide) (by decide)]
    exact h.kernel
  · rw [hother 32 (by decide) (by decide)]
    exact h.program
  · have hkept : ∀ f : BitField, f.Within 32 → f.Apart Pde4kb.frame → f.get (e' 33) = f.get (e 33) := by
      intro f hf hapart
      rw [hself]
      exact get_put_of_apart _ _ hf hapart
    have he := h.windows
    refine ⟨?_, ?_, ?_, ?_, ?_⟩
    · exact (hkept Mmu.present (by decide) (by decide)).trans he.present
    · rw [Control.big, hkept pageSize (by decide) (by decide)]
      exact he.big
    · rw [hkept userBit (by decide) (by decide)]
      exact he.user
    · exact (hkept readWrite (by decide) (by decide)).trans he.readWrite
    · rw [hself]
      exact (get_put_self _ _ (by decide)).trans (Nat.mod_eq_of_lt p.lt.2.2)
  · intro i hi h0 h1 h32 h33
    rw [hother i hi h33]
    exact h.others i hi h0 h1 h32 h33

/-- The tables after a change of one entry: its own table has to be seen to, the others are as they
    were. -/
theorem TablesHold.modify {c : Control} {fr' : Frames} {m : Memory} (h : TablesHold p c fr m)
    {n i : Nat} {f : Word → Word} (hn : n < 2 ^ 20) (hi : i < 1024)
    (hdirectory : if n = p.pageDirectory then
      DirectoryHolds p c fr'.user (readEntry (modifyEntry n i f m) p.pageDirectory)
      else fr'.user = fr.user)
    (htable : if n = p.pageTable then
      TableHolds false 0xB8 0xBC fr'.video (readEntry (modifyEntry n i f m) p.pageTable)
      else fr'.video = fr.video)
    (hvidmap : if n = p.pageTableVidmap then
      TableHolds true 0 3 fr'.vidmap (readEntry (modifyEntry n i f m) p.pageTableVidmap)
      else fr'.vidmap = fr.vidmap) :
    TablesHold p c fr' (modifyEntry n i f m) := by
  obtain ⟨hd, ht, hv⟩ := p.lt
  have hkept : ∀ n', n' < 2 ^ 20 → n' ≠ n → ∀ g, Unmarked g → ∀ j, j < 1024 →
      g.get (readEntry (modifyEntry n i f m) n' j) = g.get (readEntry m n' j) := by
    intro n' hn' hne g _ j hj
    rw [readEntry_modifyEntry_of_ne f hn hn' hi hj (Or.inl hne)]
  refine ⟨?_, ?_, ?_⟩
  · by_cases hat : n = p.pageDirectory
    · rwa [if_pos hat] at hdirectory
    · rw [if_neg hat] at hdirectory
      rw [hdirectory]
      exact h.directory.congr (hkept _ hd (Ne.symm hat))
  · by_cases hat : n = p.pageTable
    · rwa [if_pos hat] at htable
    · rw [if_neg hat] at htable
      rw [htable]
      exact h.table.congr (by decide) (hkept _ ht (Ne.symm hat))
  · by_cases hat : n = p.pageTableVidmap
    · rwa [if_pos hat] at hvidmap
    · rw [if_neg hat] at hvidmap
      rw [hvidmap]
      exact h.vidmap.congr (by decide) (hkept _ hv (Ne.symm hat))

/-- **A statement does to the tables what it does to the frames.** -/
theorem TablesHold.exec (h : TablesHold p cpu.control fr cpu.mem) {st : MapStmt} (hfits : st.Fits) :
    TablesHold p cpu.control (st.onFrames fr) (st.exec p cpu).mem := by
  obtain ⟨hd, ht, hv⟩ := p.lt
  obtain ⟨htd, hvd, hvt⟩ := p.distinct
  cases st with
  | video frame =>
    refine h.modify ht (by decide) ?_ ?_ ?_
    · rw [if_neg htd]
      rfl
    · rw [if_pos rfl]
      exact h.table.setFrame (by decide) ⟨by decide, by decide⟩ hfits (readEntry_modifyEntry_self _ _ _ _)
        fun j hj hne => readEntry_modifyEntry_of_ne _ ht ht (by decide) hj (Or.inr hne)
    · rw [if_neg (Ne.symm hvt)]
      rfl
  | vidmap s frame =>
    have hs : (s : Nat) ≤ 3 := Nat.le_of_lt s.isLt
    refine h.modify hv (by omega) ?_ ?_ ?_
    · rw [if_neg hvd]
      rfl
    · rw [if_neg hvt]
      rfl
    · rw [if_pos rfl]
      exact h.vidmap.setFrame (by decide) ⟨Nat.zero_le _, hs⟩ hfits (readEntry_modifyEntry_self _ _ _ _)
        fun j hj hne => readEntry_modifyEntry_of_ne _ hv hv (by omega) hj (Or.inr hne)
  | program frame =>
    refine h.modify hd (by decide) ?_ ?_ ?_
    · rw [if_pos rfl]
      exact h.directory.setProgram hfits (readEntry_modifyEntry_self _ _ _ _)
        fun j hj hne => readEntry_modifyEntry_of_ne _ hd hd (by decide) hj (Or.inr hne)
    · rw [if_neg (Ne.symm htd)]
      rfl
    · rw [if_neg (Ne.symm hvd)]
      rfl
  | windows =>
    refine h.modify hd (by decide) ?_ ?_ ?_
    · rw [if_pos rfl]
      exact h.directory.setWindows (readEntry_modifyEntry_self _ _ _ _)
        fun j hj hne => readEntry_modifyEntry_of_ne _ hd hd (by decide) hj (Or.inr hne)
    · rw [if_neg (Ne.symm htd)]
      rfl
    · rw [if_neg (Ne.symm hvd)]
      rfl
  | flush => exact h

end Exec

/-! ## What the console leaves alone -/

/-- The page tables are the same. -/
def SameMaps (con con' : Console) : Prop :=
  con'.pageTable = con.pageTable ∧ con'.pageTableVidmap = con.pageTableVidmap

section Console

variable {con con' con'' : Console}

theorem SameMaps.trans (h : SameMaps con con') (h' : SameMaps con' con'') : SameMaps con con'' :=
  ⟨h'.1.trans h.1, h'.2.trans h.2⟩

theorem WritesOn.sameMaps {f : Int} (h : WritesOn f con con') : SameMaps con con' := by
  obtain ⟨p, rfl, -⟩ := h
  exact ⟨rfl, rfl⟩

theorem checkScroll_sameMaps {scroll : Console → Console} (hscroll : ∀ con, SameMaps con (scroll con))
    (t : Fin 3) (con : Console) : SameMaps con (checkScroll t scroll con) := by
  unfold checkScroll
  split
  · exact hscroll con
  · exact ⟨rfl, rfl⟩

theorem newLine_sameMaps {scroll : Console → Console} (hscroll : ∀ con, SameMaps con (scroll con))
    (t v : Fin 3) (con : Console) : SameMaps con (newLine t v scroll con) :=
  checkScroll_sameMaps hscroll t (updateCursor v (setCursor t 0 (con.screenY t + 1) con))

theorem wrapLine_sameMaps {scroll : Console → Console} (hscroll : ∀ con, SameMaps con (scroll con))
    (t : Fin 3) (con : Console) : SameMaps con (wrapLine t scroll con) := by
  unfold wrapLine
  split
  · exact checkScroll_sameMaps hscroll t (setCursor t 0 (con.screenY t + 1) con)
  · exact ⟨rfl, rfl⟩

theorem stepBack_sameMaps (t : Fin 3) (con : Console) : SameMaps con (stepBack t con) := by
  unfold stepBack
  split
  · split <;> exact ⟨rfl, rfl⟩
  · exact ⟨rfl, rfl⟩

theorem putc_sameMaps (s v : Fin 3) (c : UInt8) (con : Console) : SameMaps con (putc s v c con) := by
  have hscroll : ∀ con, SameMaps con (scroll con) := fun con => (scroll_writesOn con).sameMaps
  unfold putc
  split
  · exact ⟨rfl, rfl⟩
  split
  · exact newLine_sameMaps hscroll s v con
  split
  · exact stepBack_sameMaps s con
  · exact wrapLine_sameMaps hscroll s con

theorem putck_sameMaps (s v : Fin 3) (c : UInt8) (con : Console) : SameMaps con (putck s v c con) := by
  have hscroll : ∀ con, SameMaps con (scrollk con) := fun con => (scrollk_writesOn con).sameMaps
  unfold putck
  split
  · exact newLine_sameMaps hscroll v v con
  split
  · exact stepBack_sameMaps v con
  · exact wrapLine_sameMaps hscroll v con

/-- A loop of console calls. -/
theorem foldl_sameMaps {ι : Type} {g : Console → ι → Console} (hg : ∀ con i, SameMaps con (g con i))
    (l : List ι) (con : Console) : SameMaps con (l.foldl g con) := by
  induction l generalizing con with
  | nil => exact ⟨rfl, rfl⟩
  | cons i l ih => exact (hg con i).trans (ih (g con i))

theorem printfkText_sameMaps (s v : Fin 3) (cs : List UInt8) (con : Console) :
    SameMaps con (printfkText s v cs con) :=
  foldl_sameMaps (fun con c => putck_sameMaps s v c con) cs con

theorem terminalWrite_sameMaps (s v : Fin 3) (buf : List UInt8) (nbytes : Int) (con : Console) :
    SameMaps con (terminalWrite s v buf nbytes con) := by
  refine foldl_sameMaps (fun con i => ?_) _ con
  split
  · exact ⟨rfl, rfl⟩
  · exact putc_sameMaps s v _ con

theorem clear_sameMaps (s v : Fin 3) (con : Console) : SameMaps con (clear s v con) :=
  (clearAt_writesOn (show videoMem = videoMemAddr * kb4 by simp) s v con).sameMaps

theorem cleark_sameMaps (v : Fin 3) (con : Console) : SameMaps con (cleark v con) :=
  (clearAt_writesOn (show putckVidMem = 0xBC * kb4 by simp) v v con).sameMaps

end Console

/-! ## On the frames -/

/-- The frames after a row of statements. -/
def framesAfter (sts : List MapStmt) (fr : Frames) : Frames := sts.foldl MapStmt.onFrames fr

theorem framesAfter_append (sts sts' : List MapStmt) (fr : Frames) :
    framesAfter (sts ++ sts') fr = framesAfter sts' (framesAfter sts fr) := List.foldl_append

section OnFrames

variable {disk : Disk} {k k' : Kernel}

theorem frames_eq (hpages : SameMaps k.con k'.con)
    (hprogram : k'.procs.pageDirectory32 = k.procs.pageDirectory32) : k'.frames = k.frames := by
  simp only [Kernel.frames, hpages.1, hpages.2, hprogram]

theorem execute_frames (img : Image) (fr : Frame) (site : RetSite) (command : Option (List UInt8))
    (k : Kernel) :
    (execute img fr site command k).1.frames = framesAfter (executeStmts img fr command k) k.frames := by
  unfold execute executeStmts
  rcases checkProgram img fr command with reenable | prog
  · cases reenable <;> rfl
  · simp only [show (cli k).procs.slotUsed = k.procs.slotUsed from rfl]
    rcases firstFree k.procs.slotUsed 0 maxPcbs with _ | i
    · exact frames_eq (printfkText_sameMaps _ _ _ _) rfl
    · simp only
      split
      · simp only [Kernel.frames, sti, cli, startProcess_eq]
        rfl
      · rfl

theorem haltReturn_frames (pid : Nat) (retVal : Int) (k : Kernel) :
    (haltReturn pid retVal k).1.frames = framesAfter (haltReturnStmts pid k.procs) k.frames := by
  obtain ⟨pcbs, -, htail⟩ := haltTail_eq k.schedTerm pid k.procs
  simp only [haltReturn, Kernel.frames, sti, htail]
  rfl

theorem halt_frames (hshell : ShellLoads disk) (fr : Frame) (status : UInt8) (k : Kernel) :
    (halt disk fr status k).1.frames = framesAfter (haltStmts disk fr status k) k.frames := by
  have hhalt := halt_eq disk fr status k _ _ rfl rfl
  rw [hhalt]
  simp only [haltStmts]
  generalize hpid : k.procs.activePid k.schedTerm = pid
  have hfreed : ({ cli k with procs := freePid pid k.procs } : Kernel).frames = k.frames := rfl
  by_cases hbase : (k.procs.pcbs pid).pid = k.procs.basePid k.schedTerm
  · have hexecute := execute_frames disk.img fr (.halt pid (haltRetVal status))
      (some (shellCommand disk .halt)) { cli k with procs := freePid pid k.procs }
    have hbase' : ((freePid pid k.procs).pcbs pid).pid =
        (freePid pid k.procs).basePid (cli k).schedTerm := hbase
    rw [if_pos hbase, if_pos hbase', framesAfter_append, ← hfreed, ← hexecute]
    rcases executeShell_cases hshell .halt fr (.halt pid (haltRetVal status))
      { cli k with procs := freePid pid k.procs } with ⟨i, eip, hi, heq⟩ | ⟨-, k', heq, hprocs, -⟩
    · have hexec : execute disk.img fr (.halt pid (haltRetVal status)) (some (shellCommand disk .halt))
          { cli k with procs := freePid pid k.procs } = _ := heq
      rw [heq, hexec]
      rfl
    · have hexec : execute disk.img fr (.halt pid (haltRetVal status)) (some (shellCommand disk .halt))
          { cli k with procs := freePid pid k.procs } = _ := heq
      rw [heq, hexec]
      show (haltReturn pid (haltRetVal status) k').1.frames = _
      rw [haltReturn_frames, hprocs]
  · have hbase' : ¬ ((freePid pid k.procs).pcbs pid).pid =
        (freePid pid k.procs).basePid (cli k).schedTerm := hbase
    rw [if_neg hbase, if_neg hbase', haltReturn_frames, hfreed]

/-- The mapping that `scheduler` makes of the screen. -/
theorem mapScreen_frames (s v : Fin 3) (k : Kernel) :
    ({ k with con := mapScreen s v k.con } : Kernel).frames =
      framesAfter [.video (screenPage s v).toNat, .vidmap s (screenPage s v).toNat] k.frames := by
  have hvideo : ∀ i : Nat, (Function.update k.con.pageTable videoMemAddr (screenPage s v) (i : Int)).toNat =
      Function.update (fun i : Nat => (k.con.pageTable i).toNat) 0xB8 (screenPage s v).toNat i := by
    intro i
    by_cases hi : i = 0xB8
    · subst hi
      rw [Function.update_self]
      exact congrArg Int.toNat (Function.update_self _ _ _)
    · rw [Function.update_of_ne hi, Function.update_of_ne]
      simp only [videoMemAddr]
      omega
  have hvidmap : ∀ i : Nat,
      (Function.update k.con.pageTableVidmap ((s : Nat) : Int) (screenPage s v) (i : Int)).toNat =
      Function.update (fun i : Nat => (k.con.pageTableVidmap i).toNat) (s : Nat)
        (screenPage s v).toNat i := by
    intro i
    by_cases hi : i = (s : Nat)
    · subst hi
      rw [Function.update_self, Function.update_self]
    · rw [Function.update_of_ne hi, Function.update_of_ne]
      omega
  show ({ video := _, vidmap := _, user := _ } : Frames) = { video := _, vidmap := _, user := _ }
  congr 1
  · exact funext hvideo
  · exact funext hvidmap

theorem scheduler_frames (esp ebp : Nat) (fr : Frame) (k : Kernel) :
    (scheduler disk esp ebp fr k).1.frames =
      framesAfter (schedulerStmts disk esp ebp fr k) k.frames := by
  have hscreen := mapScreen_frames (nextTerm k.schedTerm) k.visibleTerm k
  simp only [schedulerStmts, framesAfter_append]
  rw [show framesAfter [.video _, .vidmap _ _, .flush] k.frames = framesAfter [.video _, .vidmap _ _]
    k.frames from rfl, ← hscreen]
  have hclear := clear_sameMaps (nextTerm k.schedTerm) k.visibleTerm
    (mapScreen (nextTerm k.schedTerm) k.visibleTerm k.con)
  unfold scheduler
  simp only
  generalize clear (nextTerm k.schedTerm) k.visibleTerm
    (mapScreen (nextTerm k.schedTerm) k.visibleTerm k.con) = con at hclear ⊢
  by_cases hstatus : k.procs.status (nextTerm k.schedTerm) = 0
  · rw [if_pos hstatus, if_pos hstatus]
    have hexecute := execute_frames disk.img fr .scheduler (some (shellCommand disk .scheduler))
      { k with
        schedTerm := nextTerm k.schedTerm
        con := con
        procs := savePreempted k.schedTerm esp ebp (openTerminal (nextTerm k.schedTerm) k.procs) }
    refine Eq.trans hexecute ?_
    refine congrArg (framesAfter _) (frames_eq ?_ rfl)
    exact hclear
  · rw [if_neg hstatus, if_neg hstatus]
    simp only [switchContext_eq]
    rfl

theorem switchTerminal_frames (n : Fin 3) (k : Kernel) :
    (switchTerminal n k).frames = framesAfter (switchStmts n k) k.frames := by
  by_cases hn : n = k.visibleTerm
  · have hnothing : switchTerminal n k = sti (cli k) := if_pos hn
    rw [hnothing, switchStmts, if_pos hn]
    rfl
  · rw [switchTerminal_of_ne hn, switchStmts, if_neg hn]
    have hpages : (switchScreen k.visibleTerm n k.con).pageTable = k.con.pageTable :=
      switchScreen_pageTable _ _ _
    have hsame : Function.update (Function.update k.frames.video 0xB8 0xB8) 0xB8
        (k.con.pageTable videoMemAddr).toNat = k.frames.video := by
      rw [Function.update_idem]
      exact Function.update_eq_self 0xB8 k.frames.video
    show ({ video := _, vidmap := _, user := _ } : Frames) = { video := _, vidmap := _, user := _ }
    congr 1
    · refine Eq.trans ?_ hsame.symm
      funext i
      show ((switchScreen k.visibleTerm n k.con).pageTable i).toNat = _
      rw [hpages]
      rfl

/-- A call on descriptors touches no page table. -/
theorem fdStep_frames {img : Image} {c : FdCall} (h : fdStep img k c = some k') :
    k'.frames = k.frames := by
  obtain ⟨⟨f, hprocs⟩, -⟩ := fdStep_procs h
  refine frames_eq ?_ ((congrArg Procs.pageDirectory32 hprocs).trans rfl)
  cases c with
  | openFile | close =>
    obtain rfl := Option.some.inj h
    exact ⟨rfl, rfl⟩
  | read fd nullBuf nbytes =>
    obtain rfl := Option.some.inj h
    rcases htarget : readTarget (k.procs.running k.schedTerm) fd nullBuf with _ | g
    · rw [sysRead_none htarget]
      exact ⟨rfl, rfl⟩
    · rw [sysRead_some htarget]
      cases g with
      | fileRead | dirRead => exact ⟨rfl, rfl⟩
      | rtcRead =>
        unfold callRead
        simp only
        split <;> exact ⟨rfl, rfl⟩
      | terminalRead =>
        unfold callRead
        simp only
        split <;> exact ⟨rfl, rfl⟩
  | write fd buf nbytes =>
    obtain rfl := Option.some.inj h
    rcases htarget : writeTarget (k.procs.running k.schedTerm) fd buf.isNone with _ | g
    · rw [sysWrite_none nbytes htarget]
      exact ⟨rfl, rfl⟩
    · rw [sysWrite_some nbytes htarget]
      cases g with
      | fileWrite | dirWrite | rtcWrite => exact ⟨rfl, rfl⟩
      | terminalWrite => exact terminalWrite_sameMaps _ _ _ _ _

end OnFrames

/-- **The tables follow the kernel**: the statements of an event leave the frames that the kernel's
    record has after it. -/
theorem keyedStep_frames {disk : Disk} (hshell : ShellLoads disk) {m m' : Machine} {e : KeyedEvent}
    (hstep : keyedStep disk m e = some m') :
    framesAfter (eventStmts disk m e) m.kernel.frames = m'.kernel.frames := by
  cases e with
  | process e =>
    cases e with
    | execute command fr =>
      have hframes := execute_frames disk.img fr .syscall command m.kernel
      simp only [keyedStep, step] at hstep
      split at hstep
      · split at hstep
        · rename_i heq
          cases hstep
          rw [heq] at hframes
          exact hframes.symm
        · rename_i heq
          cases hstep
          rw [heq] at hframes
          exact hframes.symm
      · cases hstep
    | halt status fr =>
      have hframes := halt_frames hshell fr status m.kernel
      simp only [keyedStep, step] at hstep
      split at hstep
      · split at hstep
        · rename_i heq
          cases hstep
          rw [heq] at hframes
          exact hframes.symm
        · rename_i heq
          cases hstep
          rw [heq] at hframes
          exact hframes.symm
      · cases hstep
    | resumeHalt =>
      simp only [keyedStep, step] at hstep
      split at hstep
      · rename_i currentPcb retVal hctl
        cases hstep
        simp only [eventStmts, hctl]
        exact (haltReturn_frames currentPcb retVal m.kernel).symm
      · cases hstep
    | tick esp ebp fr =>
      have hframes : (scheduler disk esp ebp fr m.kernel).1.frames = _ :=
        scheduler_frames esp ebp fr m.kernel
      simp only [keyedStep, step] at hstep
      split at hstep
      · cases hstep
      · split at hstep
        · rename_i heq
          cases hstep
          rw [heq] at hframes
          exact hframes.symm
        · rename_i heq
          cases hstep
          rw [heq] at hframes
          exact hframes.symm
        · rename_i heq
          cases hstep
          rw [heq] at hframes
          exact hframes.symm
  | call c =>
    simp only [keyedStep] at hstep
    split at hstep
    · obtain ⟨k, hk, rfl⟩ := Option.map_eq_some_iff.mp hstep
      exact (fdStep_frames hk).symm
    · cases hstep
  | key scanCode fr =>
    simp only [keyedStep] at hstep
    simp only [eventStmts]
    generalize m.asks scanCode = action at hstep ⊢
    have hkeyed : (m.keyed scanCode).kernel.frames = m.kernel.frames := rfl
    cases action with
    | nothing =>
      cases hstep
      rfl
    | echo cs =>
      obtain rfl := Option.some.inj hstep
      have hsame := printfkText_sameMaps m.kernel.schedTerm m.kernel.visibleTerm cs m.kernel.con
      refine Eq.symm (frames_eq (k := m.kernel) ?_ rfl)
      exact hsame
    | cleark =>
      have hsame := cleark_sameMaps (m.keyed scanCode).kernel.visibleTerm (m.keyed scanCode).kernel.con
      simp only [keyAction] at hstep
      generalize cleark (m.keyed scanCode).kernel.visibleTerm (m.keyed scanCode).kernel.con = con
        at hsame hstep
      obtain rfl := Option.some.inj hstep
      refine Eq.symm (frames_eq (k := (m.keyed scanCode).kernel) ?_ rfl)
      exact hsame
    | switchTerminal n =>
      cases hstep
      exact (switchTerminal_frames n (m.keyed scanCode).kernel).symm
    | halt =>
      have hframes := halt_frames hshell fr 0 (m.keyed scanCode).kernel
      simp only [keyAction, step] at hstep
      split at hstep
      · split at hstep
        · rename_i heq
          cases hstep
          rw [heq] at hframes
          exact hframes.symm
        · rename_i heq
          cases hstep
          rw [heq] at hframes
          exact hframes.symm
      · cases hstep

end ByteVerse
