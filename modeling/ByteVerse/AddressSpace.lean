/-
  The address space, over whole runs: the kernel, the processor that translates addresses, the bytes of
  the page tables and of the processes' pages in memory, and the translations the processor has cached.

  The kernel remaps pages in the middle of its functions, a bit-field at a time, and flushes the cache
  afterwards; the processor may look a page up and cache it, or drop it, between any two statements.

  1. Between the kernel's functions, what the processor makes of an address is what the kernel's record
     says (`translation_follows_kernel`), so that a stale mapping is never used.
  2. At every moment a user program gets at the pages of processes and the video pages only
     (`user_reaches_own_memory`): not at the kernel, nor at the tables themselves.
  3. As long as the context of the active process is loaded, nothing that another process does changes
     the memory of a process (`memory_isolated`).

  The kernel also stores through the pointers of its callers, and `read` and `getargs` take any pointer
  but NULL: a program that passes them the address of a page table has the kernel write there.  Behind
  two of its own buffers it goes on without a bound: `terminal_read` clears as many bytes as it is asked
  for, and `execute` copies the whole argument text to its stack.  So all three are about runs in which
  the kernel's stores stay in bounds (`storesInBounds`).
-/
import ByteVerse.TableStmts

set_option linter.unusedVariables false

namespace ByteVerse

open SlotTable Run Words BitFields Mmu

/-! ## The machine -/

structure PagedMachine where
  machine : Machine
  cpu : Processor
  /-- The statements on the page tables that the kernel has still to execute. -/
  pending : List MapStmt

/-- A page of the program's 4 MB or of its windows on video memory. -/
def programPage (page : Nat) : Prop := 2 ^ 15 ≤ page ∧ page < 2 ^ 15 + 1028

instance (page : Nat) : Decidable (programPage page) := inferInstanceAs (Decidable (_ ∧ _))

inductive PagedEvent
  /-- A process or a device makes the kernel run. -/
  | kernel (e : KeyedEvent)
  /-- The running process calls `vidmap`. -/
  | vidmap (screenStart : Int)
  /-- The kernel executes its next statement on the tables. -/
  | stmt
  /-- The processor looks a page up, for an access or ahead of one. -/
  | fill (access : AccessKind) (a : Word)
  | evict (page : Nat)
  /-- The running program stores a byte, or the kernel does through a pointer of the program. -/
  | store (mode : Mode) (a : Word) (b : BitVec 8)

/-- A byte at a physical address: in the console's video pages, or in memory. -/
def PagedMachine.storeByte (pm : PagedMachine) (pa : Nat) (b : BitVec 8) : PagedMachine :=
  if isVideoPage (pa / 4096) then
    let con := pm.machine.kernel.con
    let frame : Int := (pa / 4096 : Nat)
    let page := Function.update (con.phys frame) ((pa % 4096 : Nat) : Int) (UInt8.ofBitVec b)
    let con := { con with phys := Function.update con.phys frame page }
    { pm with machine := pm.machine.withKernel { pm.machine.kernel with con := con } }
  else { pm with cpu := { pm.cpu with mem := Function.update pm.cpu.mem (BitVec.ofNat 32 pa) b } }

def pagedStep (disk : Disk) (p : Placement) (pm : PagedMachine) : PagedEvent → Option PagedMachine
  | .kernel e =>
    if pm.pending = [] then
      (keyedStep disk pm.machine e).map fun m =>
        { pm with machine := m, pending := eventStmts disk pm.machine e }
    else none
  | .vidmap screenStart =>
    if pm.pending = [] ∧ pm.machine.ctl pm.machine.term = .running then
      some { pm with
        machine := pm.machine.withKernel (vidmap screenStart pm.machine.kernel).1
        pending := vidmapStmts screenStart }
    else none
  | .stmt =>
    match pm.pending with
    | [] => none
    | st :: rest => some { pm with cpu := st.exec p pm.cpu, pending := rest }
  | .fill access a => some { pm with cpu := pm.cpu.fill access a }
  | .evict page => some { pm with cpu := pm.cpu.evict page }
  | .store mode a b =>
    if pm.pending = [] then
      -- an address without a mapping is a page fault
      (pm.cpu.lookup mode .write a).map fun pa =>
        { pm with cpu := pm.cpu.fill .write a }.storeByte pa b
    else none

/-- What the kernel stores through a pointer of the program, it stores into the program's pages; the
    terminal is not asked for more than it may clear, and no command has more arguments than fit. -/
def storesInBounds : PagedEvent → Prop
  | .store .supervisor a _ => programPage (pageOf a)
  | .kernel (.call (.read fd _ nbytes)) => fd = 0 → nbytes ≤ clearedRoom
  | .kernel (.process (.execute (some command) _)) => ArgumentsFit command
  | _ => True

instance : ∀ e, Decidable (storesInBounds e)
  | .store .supervisor _ _ => inferInstanceAs (Decidable (_ ∧ _))
  | .store .user _ _ => isTrue trivial
  | .kernel (.call (.read _ _ _)) => inferInstanceAs (Decidable (_ → _ ≤ _))
  | .kernel (.call (.openFile _)) => isTrue trivial
  | .kernel (.call (.close _)) => isTrue trivial
  | .kernel (.call (.write _ _ _)) => isTrue trivial
  | .kernel (.process (.execute (some command) _)) => inferInstanceAs (Decidable (ArgumentsFit command))
  | .kernel (.process (.execute none _)) => isTrue trivial
  | .kernel (.process (.halt _ _)) => isTrue trivial
  | .kernel (.process .resumeHalt) => isTrue trivial
  | .kernel (.process (.tick _ _ _)) => isTrue trivial
  | .kernel (.key _ _) => isTrue trivial
  | .vidmap _ => isTrue trivial
  | .stmt => isTrue trivial
  | .fill _ _ => isTrue trivial
  | .evict _ => isTrue trivial

/-- The processor after a row of statements. -/
def execAll (p : Placement) (sts : List MapStmt) (cpu : Processor) : Processor :=
  sts.foldl (MapStmt.exec p) cpu

/-- The machine when `entry` has executed the first shell: after `paging_init` and the statements of
    `execute`. -/
def bootPaged (disk : Disk) (pw : PowerOn) (fr : Frame) (p : Placement) (cpu : Processor) :
    PagedMachine where
  machine := bootMachine disk pw fr
  cpu := execAll p (executeStmts disk.img fr (some (shellCommand disk .entry)) (initialKernel pw))
    (pagingInit p cpu)
  pending := []

/-! ## Frames that programs may be given -/

/-- The screen and backup pages for video memory, and the page of a process for the program. -/
structure FramesOk (fr : Frames) : Prop where
  video : ∀ i, 0xB8 ≤ i → i ≤ 0xBC → isVideoPage (fr.video i)
  vidmap : ∀ i, i < 4 → isVideoPage (fr.vidmap i)
  user : 2 ≤ fr.user ∧ fr.user ≤ 7

/-- The statement stores such a frame. -/
def MapStmt.Ok : MapStmt → Prop
  | .video frame => isVideoPage frame
  | .vidmap _ frame => isVideoPage frame
  | .program frame => 2 ≤ frame ∧ frame ≤ 7
  | .windows => True
  | .flush => True

theorem isVideoPage.lt {frame : Nat} (h : isVideoPage frame) : frame < 2 ^ 20 := by
  rw [isVideoPage] at h
  omega

theorem MapStmt.Ok.fits {st : MapStmt} (h : st.Ok) : st.Fits := by
  cases st with
  | video | vidmap => exact h.lt
  | program => exact Nat.lt_of_le_of_lt h.2 (by decide)
  | windows | flush => trivial

theorem FramesOk.onFrames {fr : Frames} (h : FramesOk fr) {st : MapStmt} (hst : st.Ok) :
    FramesOk (st.onFrames fr) := by
  have hupdate : ∀ {f : Nat → Nat} {i frame : Nat}, isVideoPage frame → isVideoPage (f i) →
      ∀ j, isVideoPage (Function.update f j frame i) := by
    intro f i frame hframe hf j
    by_cases hij : i = j
    · rw [hij, Function.update_self]
      exact hframe
    · rw [Function.update_of_ne hij]
      exact hf
  cases st with
  | video frame => exact ⟨fun i hi hi' => hupdate hst (h.video i hi hi') _, h.vidmap, h.user⟩
  | vidmap s frame => exact ⟨h.video, fun i hi => hupdate hst (h.vidmap i hi) _, h.user⟩
  | program frame => exact ⟨h.video, h.vidmap, hst⟩
  | windows | flush => exact h

theorem userFrame_toNat {p : Nat} (h : 1 ≤ p) : (userFrame p).toNat = p + 1 := by
  simp only [userFrame, mb8, mb4]
  omega

/-! ## The statements that an event can execute -/

/-- The statements store frames that programs may be given, and the last one, if there are any, is a
    load of CR3. -/
structure StmtsOk (sts : List MapStmt) : Prop where
  ok : ∀ st ∈ sts, st.Ok
  flushed : sts = [] ∨ ∃ l, sts = l ++ [.flush]

theorem StmtsOk.nil : StmtsOk [] := ⟨fun st hst => absurd hst List.not_mem_nil, Or.inl rfl⟩

theorem StmtsOk.append {sts sts' : List MapStmt} (h : StmtsOk sts) (h' : StmtsOk sts') :
    StmtsOk (sts ++ sts') := by
  refine ⟨fun st hst => (List.mem_append.mp hst).elim (h.ok st) (h'.ok st), ?_⟩
  rcases h'.flushed with rfl | ⟨l, rfl⟩
  · rw [List.append_nil]
    exact h.flushed
  · exact Or.inr ⟨sts ++ l, (List.append_assoc _ _ _).symm⟩

theorem StmtsOk.program {pid : Nat} (h : 1 ≤ pid ∧ pid ≤ maxPcbs) :
    StmtsOk [.program (userFrame pid).toNat, .flush] := by
  obtain ⟨h1, h6⟩ := h
  refine ⟨fun st hst => ?_, Or.inr ⟨[_], rfl⟩⟩
  rcases List.mem_pair.mp hst with rfl | rfl
  · rw [MapStmt.Ok, userFrame_toNat h1]
    simp only [maxPcbs] at h6
    omega
  · trivial

theorem executeStmts_ok (img : Image) (fr : Frame) (command : Option (List UInt8)) (k : Kernel) :
    StmtsOk (executeStmts img fr command k) := by
  unfold executeStmts
  split
  · exact .nil
  split
  · exact .nil
  · rename_i i hi
    obtain ⟨-, hi6, -, -⟩ := firstFree_eq_some_iff.mp hi
    exact .program ⟨by omega, hi6⟩

section Events

variable {disk : Disk} {m m' : Machine} {built : Nat → Prop}

theorem BuiltTable.haltReturnStmts_ok {ps : Procs} (h : BuiltTable ps built) {pid : Nat}
    (hpid : built pid) : StmtsOk (haltReturnStmts pid ps) :=
  .program (h.bound _ (h.parent pid hpid))

theorem BuiltInv.haltStmts_ok (h : BuiltInv m built) (hflow : m.ctl m.term ≠ .lost) (fr : Frame)
    (status : UInt8) : StmtsOk (haltStmts disk fr status m.kernel) := by
  have hreturn : StmtsOk (haltReturnStmts m.active (freePid m.active m.procs)) :=
    BuiltTable.haltReturnStmts_ok (h.table.freed m.active) (h.active _ h.started hflow)
  unfold haltStmts
  simp only
  split
  · refine StmtsOk.append (executeStmts_ok disk.img fr _ _) ?_
    split
    · exact .nil
    · exact hreturn
  · exact hreturn

theorem screenPage_video (s v : Fin 3) : isVideoPage (screenPage s v).toNat := by
  revert s v
  decide

theorem BuiltInv.schedulerStmts_ok (h : BuiltInv m built) (hflow : m.ctl m.term ≠ .lost)
    (esp ebp : Nat) (fr : Frame) : StmtsOk (schedulerStmts disk esp ebp fr m.kernel) := by
  have hscreen := screenPage_video (nextTerm m.kernel.schedTerm) m.kernel.visibleTerm
  refine StmtsOk.append ⟨fun st hst => ?_, Or.inr ⟨[_, _], rfl⟩⟩ ?_
  · rcases List.mem_cons.mp hst with rfl | hst
    · exact hscreen
    · rcases List.mem_pair.mp hst with rfl | rfl
      · exact hscreen
      · trivial
  · split
    · exact executeStmts_ok disk.img fr _ _
    · rename_i hstatus
      have hnext := h.active _ hstatus (h.none_lost hflow _)
      have hpid : (m.kernel.procs.pcbs (m.kernel.procs.activePid (nextTerm m.kernel.schedTerm))).pid =
        _ := h.table.pid _ hnext
      rw [hpid]
      exact .program (h.table.bound _ hnext)

theorem switchStmts_ok {k : Kernel} (hok : FramesOk k.frames) (n : Fin 3) : StmtsOk (switchStmts n k) := by
  have hvideo : isVideoPage (k.con.pageTable videoMemAddr).toNat :=
    hok.video 0xB8 (Nat.le_refl _) (by decide)
  unfold switchStmts
  split
  · exact .nil
  · refine ⟨fun st hst => ?_, Or.inr ⟨[_, _, _], rfl⟩⟩
    simp only [List.mem_cons, List.not_mem_nil, or_false] at hst
    rcases hst with rfl | rfl | rfl | rfl
    · exact Or.inl rfl
    · trivial
    · exact hvideo
    · trivial

theorem vidmapStmts_ok (screenStart : Int) : StmtsOk (vidmapStmts screenStart) := by
  unfold vidmapStmts
  split
  · exact .nil
  split
  · exact .nil
  · refine ⟨fun st hst => ?_, Or.inr ⟨[_], rfl⟩⟩
    rcases List.mem_pair.mp hst with rfl | rfl <;> trivial

/-- **Every event** stores frames that programs may be given, and flushes the cache at its end. -/
theorem BuiltInv.eventStmts_ok (h : BuiltInv m built) (hok : FramesOk m.kernel.frames)
    {e : KeyedEvent} (hstep : ByteVerse.keyedStep disk m e = some m') : StmtsOk (eventStmts disk m e) := by
  cases e with
  | process e =>
    have hflow := step_not_lost hstep
    cases e with
    | execute command fr => exact executeStmts_ok disk.img fr command m.kernel
    | halt status fr => exact h.haltStmts_ok hflow fr status
    | resumeHalt =>
      simp only [eventStmts]
      split
      · rename_i currentPcb retVal hctl
        exact h.table.haltReturnStmts_ok (h.halting _ _ _ hctl)
      · exact .nil
    | tick esp ebp fr => exact h.schedulerStmts_ok hflow esp ebp fr
  | call c => exact .nil
  | key scanCode fr =>
    have hkeyed : BuiltInv (m.keyed scanCode) built := h.same rfl rfl rfl rfl (fun _ => rfl) rfl
    simp only [eventStmts]
    split
    · exact switchStmts_ok hok _
    · rename_i hasks
      simp only [ByteVerse.keyedStep, keyAction_eq_none.mpr hasks] at hstep
      exact hkeyed.haltStmts_ok (step_not_lost hstep) fr 0
    · exact .nil

end Events

/-! ## The invariant -/

/-- The mapping is one that frames which programs may be given define. -/
def AllowedMapping (page : Nat) (e : Mapping) : Prop :=
  ∃ fr n isUser, FramesOk fr ∧ pageMap fr page = some (n, isUser) ∧ e.To isUser n

structure PagedInv (p : Placement) (pm : PagedMachine) : Prop where
  on : PagingOn p pm.cpu.control
  built : ∃ built, BuiltInv pm.machine built
  /-- The tables will have the kernel's frames when the pending statements are executed. -/
  tables : ∃ fr, TablesHold p pm.cpu.control fr pm.cpu.mem ∧ FramesOk fr ∧
    framesAfter pm.pending fr = pm.machine.kernel.frames
  stmts : StmtsOk pm.pending
  cached : ∀ a e, pm.cpu.tlb (pageOf a) = some e → AllowedMapping (pageOf a) e
  coherent : pm.pending = [] → pm.cpu.Coherent

section Invariant

variable {disk : Disk} {p : Placement} {pm pm' : PagedMachine} {fr : Frames} {c : Control} {m : Memory}

theorem TablesHold.allowed (hon : PagingOn p c) (h : TablesHold p c fr m) (hok : FramesOk fr) {a : Word}
    {e : Mapping} (hwalk : walk c m a = some e) : AllowedMapping (pageOf a) e := by
  rcases h.walk_cases hon a with ⟨-, hnone⟩ | ⟨n, isUser, e', hmap, hsome, hto⟩
  · rw [hnone] at hwalk
    cases hwalk
  · obtain rfl : e' = e := Option.some.inj (hsome.symm.trans hwalk)
    exact ⟨fr, n, isUser, hok, hmap, hto⟩

/-- The tables between the kernel's functions. -/
theorem PagedInv.tablesHold (h : PagedInv p pm) (hidle : pm.pending = []) :
    TablesHold p pm.cpu.control pm.machine.kernel.frames pm.cpu.mem ∧
      FramesOk pm.machine.kernel.frames := by
  obtain ⟨fr, htables, hok, hframes⟩ := h.tables
  rw [hidle] at hframes
  obtain rfl : fr = pm.machine.kernel.frames := hframes
  exact ⟨htables, hok⟩

/-- Between the kernel's functions an access goes where the kernel's record says. -/
theorem PagedInv.lookup_eq (h : PagedInv p pm) (hidle : pm.pending = []) (mode : Mode)
    (access : AccessKind) (a : Word) :
    pm.cpu.lookup mode access a = addressMap pm.machine.kernel.frames mode a := by
  rw [(h.coherent hidle).lookup_eq]
  exact (h.tablesHold hidle).1.translate_eq h.on mode access a

/-- A page of the program or of its windows, by what is behind it. -/
theorem pageMap_user {page n : Nat} {isUser : Bool} (hok : FramesOk fr)
    (hmap : pageMap fr page = some (n, isUser)) (hpage : isUser = true ∨ programPage page) :
    (1024 * fr.user ≤ n ∧ n < 1024 * (fr.user + 1)) ∨ isVideoPage n := by
  have hrange : programPage page := by
    rcases hpage with rfl | hpage
    · unfold pageMap at hmap
      split at hmap
      · split at hmap <;> cases hmap
      split at hmap
      · cases hmap
      split at hmap
      · rename_i hin
        exact ⟨hin.1, by omega⟩
      split at hmap
      · rename_i hin
        exact ⟨by omega, by omega⟩
      · cases hmap
    · exact hpage
  obtain ⟨hlow, hhigh⟩ := hrange
  rw [pageMap, if_neg (by omega), if_neg (by omega)] at hmap
  by_cases hprogram : page < 2 ^ 15 + 1024
  · rw [if_pos ⟨hlow, hprogram⟩] at hmap
    have hn := congrArg Prod.fst (Option.some.inj hmap)
    exact Or.inl ⟨by omega, by omega⟩
  · rw [if_neg (fun hin => hprogram hin.2), if_pos ⟨by omega, hhigh⟩] at hmap
    have hn : fr.vidmap (page - (2 ^ 15 + 1024)) = n := congrArg Prod.fst (Option.some.inj hmap)
    exact Or.inr (hn ▸ hok.vidmap _ (by omega))

/-- Where a store of the program, or on its behalf, goes. -/
theorem PagedInv.store_page (h : PagedInv p pm) (hidle : pm.pending = []) {mode : Mode} {a : Word}
    {pa : Nat} (hmode : mode = .supervisor → programPage (pageOf a))
    (hlookup : pm.cpu.lookup mode .write a = some pa) :
    (1024 * pm.machine.kernel.frames.user ≤ pa / 4096 ∧
      pa / 4096 < 1024 * (pm.machine.kernel.frames.user + 1)) ∨ isVideoPage (pa / 4096) := by
  rw [h.lookup_eq hidle, addressMap] at hlookup
  rcases hmap : pageMap pm.machine.kernel.frames (pageOf a) with _ | ⟨n, isUser⟩
  · rw [hmap] at hlookup
    cases hlookup
  · rw [hmap] at hlookup
    have hresolve : (if admits mode isUser then some (2 ^ 12 * n + a.toNat % 2 ^ 12) else none) =
      some pa := hlookup
    split at hresolve
    · rename_i hadmits
      have hpage : pa / 4096 = n := by
        have hpa := Option.some.inj hresolve
        omega
      rw [hpage]
      refine pageMap_user (h.tablesHold hidle).2 hmap ?_
      cases mode with
      | supervisor => exact Or.inr (hmode rfl)
      | user => exact Or.inl hadmits
    · cases hresolve

/-- The invariant does not depend on what is in the video pages. -/
theorem PagedInv.withMachine (h : PagedInv p pm) {machine : Machine}
    (hbuilt : ∃ built, BuiltInv machine built) (hframes : machine.kernel.frames = pm.machine.kernel.frames) :
    PagedInv p { pm with machine := machine } := by
  obtain ⟨fr, htables, hok, hafter⟩ := h.tables
  exact ⟨h.on, hbuilt, ⟨fr, htables, hok, hafter.trans hframes.symm⟩, h.stmts, h.cached, h.coherent⟩

/-- The processor may look a page up at any time. -/
theorem PagedInv.fill (h : PagedInv p pm) (access : AccessKind) (a : Word) :
    PagedInv p { pm with cpu := pm.cpu.fill access a } := by
  obtain ⟨fr, htables, hok, hafter⟩ := h.tables
  have hcontrol := Processor.fill_control pm.cpu access a
  refine ⟨?_, h.built, ⟨fr, ?_, hok, hafter⟩, h.stmts, ?_, fun hidle => (h.coherent hidle).fill access a⟩
  · rw [hcontrol]
    exact h.on
  · rw [hcontrol]
    exact htables.sameEntries (Processor.fill_sameEntries pm.cpu access a)
  · intro b e he
    rcases Processor.fill_tlb he with hcached | hwalk
    · exact h.cached b e hcached
    · exact htables.allowed h.on hok hwalk

/-- A byte stored apart from the tables. -/
theorem PagedInv.update (h : PagedInv p pm) {pa : Nat} (b : BitVec 8)
    (hpage : 2048 ≤ pa / 4096 ∧ pa / 4096 < 2 ^ 20) :
    PagedInv p { pm with cpu :=
      { pm.cpu with mem := Function.update pm.cpu.mem (BitVec.ofNat 32 pa) b } } := by
  obtain ⟨fr, htables, hok, hafter⟩ := h.tables
  have hsame : ∀ n, p.tables n → ∀ i, i < 1024 →
      readEntry (Function.update pm.cpu.mem (BitVec.ofNat 32 pa) b) n i = readEntry pm.cpu.mem n i := by
    intro n hn i hi
    have hlt : n < 2048 := by
      rcases hn with rfl | rfl | rfl
      · exact p.directory_mem.2
      · exact p.table_mem.2
      · exact p.vidmap_mem.2
    refine readEntry_update b (by omega) hi ?_
    rw [pageOf, BitVec.toNat_ofNat]
    omega
  refine ⟨h.on, h.built, ⟨fr, htables.of_entries hsame, hok, hafter⟩, h.stmts, h.cached, ?_⟩
  intro hidle a e he
  exact (htables.walk_eq h.on hsame a).trans (h.coherent hidle a e he)

/-- One statement of the kernel. -/
theorem PagedInv.stmt (h : PagedInv p pm) {st : MapStmt} {rest : List MapStmt}
    (hpending : pm.pending = st :: rest) :
    PagedInv p { pm with cpu := st.exec p pm.cpu, pending := rest } := by
  obtain ⟨fr, htables, hok, hafter⟩ := h.tables
  have hcontrol := st.exec_control p pm.cpu
  have hst : st.Ok := h.stmts.ok st (hpending ▸ List.mem_cons_self)
  -- the statement is the last one exactly when it is a load of CR3
  have hrest : rest = [] → st = .flush := by
    intro hnil
    rcases h.stmts.flushed with hempty | ⟨l, hl⟩
    · rw [hempty] at hpending
      cases hpending
    · rw [hpending, hnil] at hl
      have hlast := congrArg List.getLast? hl
      rw [List.getLast?_append, List.getLast?_singleton, List.getLast?_singleton] at hlast
      exact Option.some.inj hlast
  have hflushed : rest = [] ∨ ∃ l, rest = l ++ [MapStmt.flush] := by
    rcases h.stmts.flushed with hempty | ⟨l, hl⟩
    · rw [hempty] at hpending
      cases hpending
    · rcases l with _ | ⟨st', l⟩
      · rw [hpending] at hl
        exact Or.inl (List.cons.inj hl).2
      · rw [hpending] at hl
        exact Or.inr ⟨l, (List.cons.inj hl).2⟩
  refine ⟨?_, h.built, ⟨st.onFrames fr, ?_, hok.onFrames hst, ?_⟩, ⟨?_, hflushed⟩, ?_, ?_⟩
  · rw [hcontrol]
    exact h.on
  · rw [hcontrol]
    exact htables.exec hst.fits
  · rw [hpending] at hafter
    exact hafter
  · intro st' hst'
    exact h.stmts.ok st' (hpending ▸ List.mem_cons_of_mem st hst')
  · intro a e he
    refine h.cached a e ?_
    cases st with
    | video | vidmap | program | windows => exact he
    | flush => exact (Option.filter_eq_some_iff.mp he).1
  · intro hidle
    obtain rfl := hrest hidle
    exact Processor.coherent_flush h.on.pge

theorem vidmap_same (screenStart : Int) (k : Kernel) :
    ∃ flag, (vidmap screenStart k).1 = { k with interruptFlag := flag } := by
  unfold vidmap
  simp only
  split
  · exact ⟨_, rfl⟩
  split <;> exact ⟨_, rfl⟩

theorem vidmapStmts_frames (screenStart : Int) (fr : Frames) :
    framesAfter (vidmapStmts screenStart) fr = fr := by
  unfold vidmapStmts
  split
  · rfl
  split <;> rfl

theorem storesInBounds_store {mode : Mode} {a : Word} {b : BitVec 8}
    (hstore : storesInBounds (.store mode a b)) : mode = .supervisor → programPage (pageOf a) := by
  rintro rfl
  exact hstore

/-- **The step lemma.** -/
theorem PagedInv.step (hshell : ShellLoads disk) (h : PagedInv p pm) {e : PagedEvent}
    (hstore : storesInBounds e) (hstep : pagedStep disk p pm e = some pm') : PagedInv p pm' := by
  cases e with
  | kernel e =>
    simp only [pagedStep] at hstep
    split at hstep
    · rename_i hidle
      obtain ⟨m, hm, rfl⟩ := Option.map_eq_some_iff.mp hstep
      obtain ⟨built, hbuilt⟩ := h.built
      obtain ⟨htables, hok⟩ := h.tablesHold hidle
      exact ⟨h.on, hbuilt.keyedStep hshell hm, ⟨_, htables, hok, keyedStep_frames hshell hm⟩,
        hbuilt.eventStmts_ok hok hm, h.cached, fun _ => h.coherent hidle⟩
    · cases hstep
  | vidmap screenStart =>
    simp only [pagedStep] at hstep
    split at hstep
    · rename_i hidle
      obtain rfl := Option.some.inj hstep
      obtain ⟨htables, hok⟩ := h.tablesHold hidle.1
      obtain ⟨built, hbuilt⟩ := h.built
      obtain ⟨flag, hsame⟩ := vidmap_same screenStart pm.machine.kernel
      refine ⟨h.on, ⟨built, ?_⟩, ⟨_, htables, hok, ?_⟩, vidmapStmts_ok screenStart, h.cached,
        fun _ => h.coherent hidle.1⟩
      · rw [hsame]
        exact hbuilt.same rfl rfl rfl rfl (fun _ => rfl) rfl
      · rw [vidmapStmts_frames, hsame]
        rfl
    · cases hstep
  | stmt =>
    simp only [pagedStep] at hstep
    split at hstep
    · cases hstep
    · rename_i st rest hpending
      obtain rfl := Option.some.inj hstep
      exact h.stmt hpending
  | fill access a =>
    obtain rfl := Option.some.inj hstep
    exact h.fill access a
  | evict page =>
    obtain rfl := Option.some.inj hstep
    exact ⟨h.on, h.built, h.tables, h.stmts, fun a e he => h.cached a e (Processor.evict_tlb he),
      fun hidle => (h.coherent hidle).evict page⟩
  | store mode a b =>
    simp only [pagedStep] at hstep
    split at hstep
    · rename_i hidle
      obtain ⟨pa, hlookup, rfl⟩ := Option.map_eq_some_iff.mp hstep
      have hpage := h.store_page hidle (storesInBounds_store hstore) hlookup
      have hframe := (h.tablesHold hidle).2.user
      have hfill := h.fill .write a
      unfold PagedMachine.storeByte
      split
      · obtain ⟨built, hbuilt⟩ := h.built
        exact hfill.withMachine ⟨built, hbuilt.same rfl rfl rfl rfl (fun _ => rfl) rfl⟩ rfl
      · rename_i hvideo
        have hprogram := hpage.resolve_right hvideo
        exact hfill.update b ⟨by omega, by omega⟩
    · cases hstep

end Invariant

/-! ## Boot -/

theorem pagingInit_tlb {cpu : Processor} (hpge : cpu.control.pge = false) (p : Placement) (page : Nat) :
    (pagingInit p cpu).tlb page = none := by
  have hpge' : (pagingInit p cpu).control.pge = false := (pagingInit_pagingOn p hpge).pge
  have hflushed : (pagingInit p cpu).tlb page =
      (cpu.tlb page |>.filter fun e => e.isGlobal && cpu.control.pge).filter fun e =>
        e.isGlobal && (pagingInit p cpu).control.pge := rfl
  rw [hflushed, hpge']
  simp

/-- **`paging_init` sets the address space up**: whatever the memory held and the processor had cached,
    every access goes where the initial frames say. -/
theorem paging_init_maps (p : Placement) (cpu : Processor) (hpge : cpu.control.pge = false) (mode : Mode)
    (access : AccessKind) (a : Word) :
    (pagingInit p cpu).lookup mode access a = addressMap bootFrames mode a := by
  have hon := pagingInit_pagingOn p hpge
  have hcoherent : (pagingInit p cpu).Coherent := by
    intro b e he
    rw [pagingInit_tlb hpge] at he
    cases he
  rw [hcoherent.lookup_eq]
  exact (pagingInit_holds p cpu).translate_eq hon mode access a

/-- A kernel image with its tables next to each other, and a processor as it comes out of the boot
    loader. -/
def smallPlacement : Placement where
  pageDirectory := 1040
  pageTable := 1041
  pageTableVidmap := 1042
  directory_mem := by decide
  table_mem := by decide
  vidmap_mem := by decide
  distinct := by decide

def resetCpu : Processor :=
  { control := { cr0 := 1, cr3 := 0, cr4 := 0 }, mem := fun _ => 0, tlb := fun _ => none }

/-- A program's first instruction, before any process has been given a page. -/
theorem paging_init_maps_program :
    (pagingInit smallPlacement resetCpu).lookup .user .read 0x08048000 = some 0x08048000 :=
  (paging_init_maps smallPlacement resetCpu (by decide) .user .read 0x08048000).trans (by decide)

theorem initialKernel_frames (pw : PowerOn) : (initialKernel pw).frames = bootFrames := by
  have hvidmap : (initialKernel pw).con.pageTableVidmap = initialPageTableVidmap := by
    have hclear : ∀ con : Console, (clear 0 0 con).pageTableVidmap = con.pageTableVidmap := fun con =>
      (clear_sameMaps 0 0 con).2
    simp only [initialKernel, initialConsole, hclear]
  simp only [Kernel.frames, initialKernel_pageTable, hvidmap, bootFrames]
  rfl

theorem execAll_control (p : Placement) (sts : List MapStmt) (cpu : Processor) :
    (execAll p sts cpu).control = cpu.control := by
  induction sts generalizing cpu with
  | nil => rfl
  | cons st sts ih => exact (ih (st.exec p cpu)).trans (st.exec_control p cpu)

theorem execAll_tlb (p : Placement) (sts : List MapStmt) {cpu : Processor}
    (h : ∀ page, cpu.tlb page = none) (page : Nat) : (execAll p sts cpu).tlb page = none := by
  induction sts generalizing cpu with
  | nil => exact h page
  | cons st sts ih =>
    refine ih fun page' => ?_
    cases st with
    | video | vidmap | program | windows => exact h page'
    | flush =>
      show Option.filter _ (cpu.tlb page') = none
      rw [h page']
      rfl

theorem TablesHold.execAll {p : Placement} {cpu : Processor} {fr : Frames} {sts : List MapStmt}
    (h : TablesHold p cpu.control fr cpu.mem) (hfits : ∀ st ∈ sts, st.Fits) :
    TablesHold p (execAll p sts cpu).control (framesAfter sts fr) (execAll p sts cpu).mem := by
  induction sts generalizing cpu fr with
  | nil => exact h
  | cons st sts ih =>
    have hexec := h.exec (hfits st List.mem_cons_self)
    rw [← st.exec_control p cpu] at hexec
    exact ih hexec fun st' hst' => hfits st' (List.mem_cons_of_mem st hst')

theorem bootPaged_inv {disk : Disk} (hshell : ShellLoads disk) (pw : PowerOn) (fr : Frame)
    (p : Placement) {cpu : Processor} (hpge : cpu.control.pge = false) :
    PagedInv p (bootPaged disk pw fr p cpu) := by
  have hstmts := executeStmts_ok disk.img fr (some (shellCommand disk .entry)) (initialKernel pw)
  have hframes := execute_frames disk.img fr .entry (some (shellCommand disk .entry)) (initialKernel pw)
  have htlb : ∀ page, (bootPaged disk pw fr p cpu).cpu.tlb page = none :=
    execAll_tlb p _ (pagingInit_tlb hpge p)
  have hnone : ∀ a e, (bootPaged disk pw fr p cpu).cpu.tlb (pageOf a) = some e → False := by
    intro a e he
    rw [htlb] at he
    cases he
  rw [initialKernel_frames] at hframes
  refine ⟨?_, bootMachine_builtInv hshell pw fr, ⟨_, (pagingInit_holds p cpu).execAll fun st hst =>
    (hstmts.ok st hst).fits, ?_, hframes.symm⟩, .nil, fun a e he => (hnone a e he).elim,
    fun _ a e he => (hnone a e he).elim⟩
  · have hcontrol : (bootPaged disk pw fr p cpu).cpu.control = (pagingInit p cpu).control :=
      execAll_control p _ _
    rw [hcontrol]
    exact pagingInit_pagingOn p hpge
  · -- the first shell is process 1, and the video pages are those of `paging_init`
    have hboot : (bootMachine disk pw fr).kernel = _ := boot_kernel hshell pw fr
    have hkernel : (bootMachine disk pw fr).kernel.frames = { bootFrames with user := 2 } := by
      rw [hboot, ← initialKernel_frames pw]
      simp only [enterProgram, Kernel.frames, startProcess_eq]
      rfl
    have hsame : framesAfter (executeStmts disk.img fr (some (shellCommand disk .entry)) (initialKernel pw))
        bootFrames = { bootFrames with user := 2 } := hframes.symm.trans hkernel
    rw [hsame]
    refine ⟨fun i hi hi' => ?_, fun i hi => ?_, ⟨by decide, by decide⟩⟩
    · have hcases : i = 0xB8 ∨ i = 0xB9 ∨ i = 0xBA ∨ i = 0xBB ∨ i = 0xBC := by omega
      rcases hcases with rfl | rfl | rfl | rfl | rfl <;> decide
    · have hcases : i = 0 ∨ i = 1 ∨ i = 2 ∨ i = 3 := by omega
      rcases hcases with rfl | rfl | rfl | rfl <;> decide

/-! ## Results -/

/-- **What the processor does is what the kernel's record says.**  For every run from boot, of all events
    of processes and devices, in which the kernel's stores stay in bounds, with pages looked up and
    dropped from the cache between any two statements: whenever the kernel is not in the middle of a
    remapping, every access to every address goes where the frames in the kernel's record lead. -/
theorem translation_follows_kernel (disk : Disk) (hshell : ShellLoads disk) (pw : PowerOn) (fr : Frame)
    (p : Placement) (cpu : Processor) (hpge : cpu.control.pge = false) (events : List PagedEvent)
    (hstores : ∀ e ∈ events, storesInBounds e) :
    Throughout (pagedStep disk p)
      (fun pm => pm.pending = [] → ∀ mode access a,
        pm.cpu.lookup mode access a = addressMap pm.machine.kernel.frames mode a)
      (bootPaged disk pw fr p cpu) events := by
  have hlookup : ∀ pm, PagedInv p pm → pm.pending = [] → ∀ mode access a,
      pm.cpu.lookup mode access a = addressMap pm.machine.kernel.frames mode a :=
    fun pm h hidle mode access a => h.lookup_eq hidle mode access a
  refine throughout_mono hlookup (throughout_of_along ?_ (bootPaged_inv hshell pw fr p hpge)
    (along_of_forall hstores))
  exact fun pm e pm' h hstore hstep => h.step hshell hstore hstep

/-! ### A run -/

theorem PagedInv.run {disk : Disk} {p : Placement} {pm pm' : PagedMachine} {events : List PagedEvent}
    (hshell : ShellLoads disk) (h : PagedInv p pm) (hstores : ∀ e ∈ events, storesInBounds e)
    (hrun : Run.run (pagedStep disk p) pm events = some pm') : PagedInv p pm' :=
  throughout_last (throughout_of_along (fun _ _ _ h hstore hstep => h.step hshell hstore hstep) h
    (along_of_forall hstores)) hrun

/-- The kernel comes to the end of its statements. -/
theorem run_stmts (disk : Disk) (p : Placement) {n : Nat} {pm : PagedMachine}
    (hlength : pm.pending.length = n) :
    ∃ pm', run (pagedStep disk p) pm (List.replicate n .stmt) = some pm' ∧ pm'.pending = [] ∧
      pm'.machine = pm.machine := by
  induction n generalizing pm with
  | zero => exact ⟨pm, rfl, List.length_eq_zero_iff.mp hlength, rfl⟩
  | succ n ih =>
    obtain ⟨st, rest, hpending⟩ := List.exists_cons_of_length_eq_add_one hlength
    have hstep : pagedStep disk p pm .stmt =
        some { pm with cpu := st.exec p pm.cpu, pending := rest } := by
      simp only [pagedStep, hpending]
    rw [hpending] at hlength
    obtain ⟨pm', hrun, hidle, hmachine⟩ := ih
      (show ({ pm with cpu := st.exec p pm.cpu, pending := rest } : PagedMachine).pending.length = n from
        Nat.succ.inj hlength)
    refine ⟨pm', ?_, hidle, hmachine⟩
    show (pagedStep disk p pm .stmt).bind _ = _
    rw [hstep]
    exact hrun

/-- Between the kernel's functions a byte can be stored anywhere in the program's page. -/
theorem PagedInv.store_some {p : Placement} {pm : PagedMachine} (h : PagedInv p pm)
    (hidle : pm.pending = []) (disk : Disk) (mode : Mode) {a : Word} (b : BitVec 8)
    (hpage : 2 ^ 15 ≤ pageOf a ∧ pageOf a < 2 ^ 15 + 1024) :
    ∃ pm', pagedStep disk p pm (.store mode a b) = some pm' := by
  have hmap : pageMap pm.machine.kernel.frames (pageOf a) =
      some (1024 * pm.machine.kernel.frames.user + (pageOf a - 2 ^ 15), true) := by
    rw [pageMap, if_neg (by omega), if_neg (by omega), if_pos hpage]
  have hlookup := h.lookup_eq hidle mode .write a
  rw [addressMap, hmap] at hlookup
  simp only [pagedStep, hidle, if_true]
  rw [hlookup]
  cases mode <;> exact ⟨_, rfl⟩

theorem store_pending {disk : Disk} {p : Placement} {pm pm' : PagedMachine} {mode : Mode} {a : Word}
    {b : BitVec 8} (hstep : pagedStep disk p pm (.store mode a b) = some pm') :
    pm'.pending = pm.pending := by
  simp only [pagedStep] at hstep
  split at hstep
  · obtain ⟨pa, -, rfl⟩ := Option.map_eq_some_iff.mp hstep
    unfold PagedMachine.storeByte
    split <;> rfl
  · cases hstep

/-- A tick makes the kernel start terminal 1; the processor looks the program's page up before it has
    been mapped, then the statements are executed, and the new shell stores a byte and has the kernel
    store one. -/
def firstTick : List PagedEvent :=
  [.kernel (.process (.tick 0 0 blankFrame)), .fill .read 0x08048000]

def shellStores : List PagedEvent :=
  List.replicate 5 .stmt ++ [.store .user 0x08048000 7, .store .supervisor 0x08049000 65]

theorem firstTick_stores : ∀ e ∈ firstTick ++ shellStores, storesInBounds e := by decide

/-- The run goes to its end, and process 2 is the active one in its second half. -/
theorem firstTick_runs : ∃ pm pm',
    run (pagedStep smallDisk smallPlacement)
      (bootPaged smallDisk blankMemory blankFrame smallPlacement resetCpu) firstTick = some pm ∧
    run (pagedStep smallDisk smallPlacement) pm shellStores = some pm' ∧ pm.machine.active = 2 := by
  have hboot := bootPaged_inv smallDisk_shellLoads blankMemory blankFrame smallPlacement
    (show resetCpu.control.pge = false by decide)
  have htick : (keyedStep smallDisk (bootMachine smallDisk blankMemory blankFrame)
      (.process (.tick 0 0 blankFrame))).map Machine.active = some 2 := by decide +kernel
  have hlength : (eventStmts smallDisk (bootMachine smallDisk blankMemory blankFrame)
      (.process (.tick 0 0 blankFrame))).length = 5 := by decide +kernel
  obtain ⟨m, hm, hactive⟩ := Option.map_eq_some_iff.mp htick
  generalize hstart : bootPaged smallDisk blankMemory blankFrame smallPlacement resetCpu = start at hboot ⊢
  have hmachine : start.machine = bootMachine smallDisk blankMemory blankFrame := by rw [← hstart]; rfl
  have hpending : start.pending = [] := by rw [← hstart]; rfl
  obtain ⟨pm, hpm⟩ : ∃ pm : PagedMachine, pm = { start with
      machine := m
      cpu := start.cpu.fill .read 0x08048000
      pending := eventStmts smallDisk start.machine (.process (.tick 0 0 blankFrame)) } := ⟨_, rfl⟩
  have hrun : run (pagedStep smallDisk smallPlacement) start firstTick = some pm := by
    rw [← hmachine] at hm
    show (pagedStep smallDisk smallPlacement start _).bind _ = _
    simp only [pagedStep, hpending, hm, if_true, hpm]
    rfl
  rw [← hmachine] at hlength
  have hinv := hboot.run smallDisk_shellLoads
    (fun e he => firstTick_stores e (List.mem_append_left shellStores he)) hrun
  have hpending₁ : pm.pending.length = 5 := by
    rw [hpm]
    exact hlength
  obtain ⟨pm₁, hstmts, hidle₁, -⟩ := run_stmts smallDisk smallPlacement hpending₁
  have hinv₁ := hinv.run smallDisk_shellLoads (by decide) hstmts
  obtain ⟨pm₂, hstore₂⟩ := hinv₁.store_some hidle₁ smallDisk .user 7
    (show 2 ^ 15 ≤ pageOf 0x08048000 ∧ pageOf 0x08048000 < 2 ^ 15 + 1024 by decide)
  have hinv₂ := hinv₁.step smallDisk_shellLoads
    (show storesInBounds (.store .user 0x08048000 7) from trivial) hstore₂
  have hidle₂ : pm₂.pending = [] := (store_pending hstore₂).trans hidle₁
  obtain ⟨pm₃, hstore₃⟩ := hinv₂.store_some hidle₂ smallDisk .supervisor 65
    (show 2 ^ 15 ≤ pageOf 0x08049000 ∧ pageOf 0x08049000 < 2 ^ 15 + 1024 by decide)
  refine ⟨pm, pm₃, hrun, ?_, ?_⟩
  · rw [shellStores, run_append, hstmts]
    show (pagedStep smallDisk smallPlacement pm₁ _).bind _ = _
    rw [hstore₂]
    show (pagedStep smallDisk smallPlacement pm₂ _).bind _ = _
    rw [hstore₃]
    rfl
  · rw [hpm]
    exact hactive

/-- That shell, its screen and its page: nothing is done that the kernel's record does not say. -/
theorem translation_follows_kernel_boot :
    (∃ pm', run (pagedStep smallDisk smallPlacement)
      (bootPaged smallDisk blankMemory blankFrame smallPlacement resetCpu) (firstTick ++ shellStores) =
        some pm') ∧
    Throughout (pagedStep smallDisk smallPlacement)
      (fun pm => pm.pending = [] → ∀ mode access a,
        pm.cpu.lookup mode access a = addressMap pm.machine.kernel.frames mode a)
      (bootPaged smallDisk blankMemory blankFrame smallPlacement resetCpu) (firstTick ++ shellStores) := by
  obtain ⟨pm, pm', hfirst, hrest, -⟩ := firstTick_runs
  refine ⟨⟨pm', by rw [run_append, hfirst]; exact hrest⟩, ?_⟩
  exact translation_follows_kernel smallDisk smallDisk_shellLoads blankMemory blankFrame smallPlacement
    resetCpu (by decide) _ firstTick_stores

/-- A physical address in the page of a process, or on one of the four video pages. -/
def OwnMemory (pa : Nat) : Prop :=
  (0x800000 ≤ pa ∧ pa < 0x2000000) ∨ (0xB8000 ≤ pa ∧ pa < 0xBC000)

/-- What the kernel's memory is protected from, and what it can count on. -/
structure Protected (cpu : Processor) : Prop where
  user : ∀ access a pa, cpu.lookup .user access a = some pa → OwnMemory pa
  kernel : ∀ access (a : Word), 0x400000 ≤ a.toNat → a.toNat < 0x800000 →
    cpu.lookup .supervisor access a = some a.toNat

section Protection

variable {p : Placement} {pm : PagedMachine}

/-- Every mapping that the processor may use is an allowed one. -/
theorem PagedInv.mapping (h : PagedInv p pm) {a : Word} {e : Mapping}
    (he : (pm.cpu.tlb (pageOf a)).or (walk pm.cpu.control pm.cpu.mem a) = some e) :
    AllowedMapping (pageOf a) e := by
  obtain ⟨fr, htables, hok, -⟩ := h.tables
  rcases hcached : pm.cpu.tlb (pageOf a) with _ | e'
  · rw [hcached] at he
    exact htables.allowed h.on hok he
  · rw [hcached] at he
    obtain rfl : e' = e := Option.some.inj he
    exact h.cached a e' hcached

/-- The kernel's pages have a mapping, cached or in the tables. -/
theorem PagedInv.kernel_mapped (h : PagedInv p pm) {a : Word}
    (hpage : 1024 ≤ pageOf a ∧ pageOf a < 2048) :
    ∃ e, (pm.cpu.tlb (pageOf a)).or (walk pm.cpu.control pm.cpu.mem a) = some e := by
  obtain ⟨fr, htables, -, -⟩ := h.tables
  rcases hcached : pm.cpu.tlb (pageOf a) with _ | e
  · rcases htables.walk_cases h.on a with ⟨hmap, -⟩ | ⟨n, isUser, e, -, hwalk, -⟩
    · rw [pageMap, if_neg (by omega), if_pos hpage.2] at hmap
      cases hmap
    · exact ⟨e, hwalk⟩
  · exact ⟨e, rfl⟩

theorem PagedInv.isProtected (h : PagedInv p pm) : Protected pm.cpu := by
  refine ⟨fun access a pa hlookup => ?_, fun access a hlow hhigh => ?_⟩
  · rw [Processor.lookup, if_pos h.on.pg] at hlookup
    obtain ⟨e, he, hresolve⟩ := Option.bind_eq_some_iff.mp hlookup
    obtain ⟨fr, n, isUser, hok, hmap, hto⟩ := h.mapping he
    rw [hto.resolve_eq] at hresolve
    split at hresolve
    · rename_i hadmits
      have hpa := Option.some.inj hresolve
      have huser := hok.user
      rcases pageMap_user hok hmap (Or.inl hadmits) with hprogram | hvideo
      · exact Or.inl ⟨by omega, by omega⟩
      · rw [isVideoPage] at hvideo
        exact Or.inr ⟨by omega, by omega⟩
    · cases hresolve
  · have hpage : 1024 ≤ pageOf a ∧ pageOf a < 2048 := by
      simp only [pageOf]
      omega
    obtain ⟨e, he⟩ := h.kernel_mapped hpage
    obtain ⟨fr, n, isUser, hok, hmap, hto⟩ := h.mapping he
    rw [pageMap, if_neg (by omega), if_pos hpage.2] at hmap
    have hn : pageOf a = n := congrArg Prod.fst (Option.some.inj hmap)
    rw [Processor.lookup, if_pos h.on.pg, he]
    show resolve pm.cpu.control .supervisor access a e = _
    rw [hto.resolve_eq, ← hn, if_pos (show admits .supervisor isUser = true from rfl)]
    simp only [pageOf]
    congr 1
    omega

end Protection

/-- **User programs reach their own memory only.**  At every moment of every run from boot in which the
    kernel's stores stay in bounds — also in the middle of a remapping, with whatever the processor
    still has cached, in the runs that break the process table, and with PCBs that execute and halt have
    left behind — an access in user mode goes to the page of one of the six processes or to a video page,
    and the kernel's own 4 MB are mapped to themselves. -/
theorem user_reaches_own_memory (disk : Disk) (hshell : ShellLoads disk) (pw : PowerOn) (fr : Frame)
    (p : Placement) (cpu : Processor) (hpge : cpu.control.pge = false) (events : List PagedEvent)
    (hstores : ∀ e ∈ events, storesInBounds e) :
    Throughout (pagedStep disk p) (fun pm => Protected pm.cpu) (bootPaged disk pw fr p cpu) events := by
  have hprotected : ∀ pm, PagedInv p pm → Protected pm.cpu := fun pm h => h.isProtected
  refine throughout_mono hprotected (throughout_of_along ?_ (bootPaged_inv hshell pw fr p hpge)
    (along_of_forall hstores))
  exact fun pm e pm' h hstore hstep => h.step hshell hstore hstep

theorem user_reaches_own_memory_boot :
    (∃ pm', run (pagedStep smallDisk smallPlacement)
      (bootPaged smallDisk blankMemory blankFrame smallPlacement resetCpu) (firstTick ++ shellStores) =
        some pm') ∧
    Throughout (pagedStep smallDisk smallPlacement) (fun pm => Protected pm.cpu)
      (bootPaged smallDisk blankMemory blankFrame smallPlacement resetCpu) (firstTick ++ shellStores) := by
  obtain ⟨pm, pm', hfirst, hrest, -⟩ := firstTick_runs
  refine ⟨⟨pm', by rw [run_append, hfirst]; exact hrest⟩, ?_⟩
  exact user_reaches_own_memory smallDisk smallDisk_shellLoads blankMemory blankFrame smallPlacement
    resetCpu (by decide) _ firstTick_stores

/-! ## Memory of other processes -/

section Isolation

variable {disk : Disk} {p : Placement} {pm pm' : PagedMachine} {m m' : Machine}
  {stack : Fin 3 → List Nat}

/-- The context, too, does not depend on descriptors, console and input. -/
theorem ContextInv.same (h : ContextInv m stack) (hterm : m'.term = m.term)
    (hstatus : m'.procs.status = m.procs.status) (hactive : m'.procs.activePid = m.procs.activePid)
    (hbase : m'.procs.basePid = m.procs.basePid) (hpids : m'.procs.pidArr = m.procs.pidArr)
    (hpage : m'.procs.pageDirectory32 = m.procs.pageDirectory32)
    (htss : m'.procs.tssEsp0 = m.procs.tssEsp0)
    (hpcbs : ∀ p, SameButFds (m.procs.pcbs p) (m'.procs.pcbs p)) (hctl : m'.ctl = m.ctl) :
    ContextInv m' stack := by
  have hcaller : m'.active = m.active := by
    rw [Machine.active, hterm, hactive]
    rfl
  have horigin : ∀ p, (m'.procs.pcbs p).origin = (m.procs.pcbs p).origin := fun p =>
    (hpcbs p).origin_eq
  refine ⟨h.table.congr hstatus hactive hbase hpids horigin, ⟨?_, ?_, ?_⟩, ?_, ?_⟩
  · rw [hpage, hcaller]
    exact h.context.page
  · rw [htss, hcaller]
    exact h.context.stack
  · intro t ht hs
    rw [hterm] at ht
    rw [hstatus] at hs
    obtain ⟨hpid, hesp⟩ := h.context.saved t ht hs
    rw [hactive, (hpcbs _).tssEsp0_eq]
    exact ⟨(congrArg Origin.pid (horigin _)).trans hpid, hesp⟩
  · rw [hctl]
    exact h.running
  · rw [hstatus, hterm]
    exact h.started

/-- The events that keep the context of the active process loaded. -/
def keepsContext (disk : Disk) (pm : PagedMachine) : PagedEvent → Prop
  | .kernel (.process e) =>
    noFailedLoad disk pm.machine e ∧ startsWithFreePid pm.machine e ∧ haltsInPlace pm.machine e
  | .kernel (.key scanCode fr) =>
    pm.machine.asks scanCode = .halt → haltsInPlace (pm.machine.keyed scanCode) (.halt 0 fr)
  | _ => True

theorem ContextInv.keyedStep (hshell : ShellLoads disk) (h : ContextInv pm.machine stack)
    {e : KeyedEvent} (hgood : keepsContext disk pm (.kernel e))
    (hstep : keyedStep disk pm.machine e = some m') : ∃ stack', ContextInv m' stack' := by
  cases e with
  | process e => exact h.step hshell hgood.1 hgood.2.1 hgood.2.2 hstep
  | call c =>
    simp only [ByteVerse.keyedStep] at hstep
    split at hstep
    · obtain ⟨k, hk, rfl⟩ := Option.map_eq_some_iff.mp hstep
      obtain ⟨⟨f, hprocs⟩, hterm⟩ := fdStep_procs hk
      refine ⟨stack, h.same hterm ?_ ?_ ?_ ?_ ?_ ?_ (fun q => ?_) rfl⟩
      · exact (congrArg Procs.status hprocs).trans rfl
      · exact (congrArg Procs.activePid hprocs).trans rfl
      · exact (congrArg Procs.basePid hprocs).trans rfl
      · exact (congrArg Procs.pidArr hprocs).trans rfl
      · exact (congrArg Procs.pageDirectory32 hprocs).trans rfl
      · exact (congrArg Procs.tssEsp0 hprocs).trans rfl
      · show SameButFds (pm.machine.kernel.procs.pcbs q) (k.procs.pcbs q)
        rw [hprocs]
        show SameButFds _ (Function.update pm.machine.kernel.procs.pcbs _ _ q)
        by_cases hq : q = pm.machine.kernel.procs.runningPid pm.machine.kernel.schedTerm
        · rw [hq, Function.update_self]
          exact pcbAfter_same disk.img _ c
        · rw [Function.update_of_ne hq]
          exact SameButFds.refl _
    · cases hstep
  | key scanCode fr =>
    simp only [ByteVerse.keyedStep] at hstep
    split at hstep
    · rename_i k hk
      obtain rfl := Option.some.inj hstep
      obtain ⟨hprocs, hterm⟩ := keyed_of_action hk
      refine ⟨stack, h.same hterm ?_ ?_ ?_ ?_ ?_ ?_ (fun q => ?_) rfl⟩ <;> rw [hprocs]
      exact SameButFds.refl _
    · rename_i hnone
      have hkeyed : ContextInv (pm.machine.keyed scanCode) stack :=
        h.same rfl rfl rfl rfl rfl rfl rfl (fun _ => SameButFds.refl _) rfl
      have hload : noFailedLoad disk (pm.machine.keyed scanCode) (.halt 0 fr) := trivial
      have hfree : startsWithFreePid (pm.machine.keyed scanCode) (.halt 0 fr) := trivial
      exact hkeyed.step hshell hload hfree (hgood (keyAction_eq_none.mp hnone)) hstep

/-- The bytes of the page of a process, in physical memory. -/
def inProcessPage (pid : Nat) (x : Word) : Prop := x.toNat / 0x400000 = pid + 1

/-- The kernel writes the tables on its own pages. -/
theorem exec_mem_of_page (st : MapStmt) {cpu : Processor} {x : Word} (hx : 2048 ≤ pageOf x) :
    (st.exec p cpu).mem x = cpu.mem x := by
  obtain ⟨hd, ht, hv⟩ := p.lt
  have hd' := p.directory_mem.2
  have ht' := p.table_mem.2
  have hv' := p.vidmap_mem.2
  cases st with
  | video frame => exact modifyEntry_of_page _ ht (by decide) (by omega)
  | vidmap s frame => exact modifyEntry_of_page _ hv (by omega) (by omega)
  | program frame => exact modifyEntry_of_page _ hd (by decide) (by omega)
  | windows => exact modifyEntry_of_page _ hd (by decide) (by omega)
  | flush => rfl

/-- So does the processor. -/
theorem PagedInv.fill_mem_of_page (h : PagedInv p pm) (access : AccessKind) (a : Word) {x : Word}
    (hx : 2048 ≤ pageOf x) : (pm.cpu.fill access a).mem x = pm.cpu.mem x := by
  obtain ⟨fr, htables, -, -⟩ := h.tables
  have hd := p.directory_mem.2
  have ht := p.table_mem.2
  have hv := p.vidmap_mem.2
  have hlt : dirIndex a < 1024 := by
    have ha := a.isLt
    simp only [dirIndex]
    omega
  obtain ⟨hpde, hpte⟩ := htables.entries_read h.on a
  unfold Processor.fill
  split
  · rename_i e hwalk
    refine mark_of_outside ?_ fun hsmall => ?_
    · rw [hpde]
      exact entryAddr_outside (by omega) hlt (by omega)
    · have hpresent : Mmu.present.get (readWord pm.cpu.mem (pdeAddr pm.cpu.control a)) = 1 := by
        by_contra habsent
        rw [walk_unmapped habsent] at hwalk
        cases hwalk
      obtain ⟨n, hn, haddr⟩ := hpte hpresent hsmall
      have hn' : n < 2048 := by
        rcases hn with rfl | rfl | rfl
        · exact hd
        · exact ht
        · exact hv
      rw [haddr]
      exact entryAddr_outside (by omega) (Nat.mod_lt _ (by decide)) (by omega)
  · rfl

theorem inProcessPage.page {pid : Nat} (hpid : 1 ≤ pid) {x : Word} (hx : inProcessPage pid x) :
    2048 ≤ pageOf x ∧ pageOf x / 1024 = pid + 1 := by
  simp only [inProcessPage] at hx
  simp only [pageOf]
  exact ⟨by omega, by omega⟩

/-- One event, while another process is the active one. -/
theorem PagedInv.step_keeps (h : PagedInv p pm) (hcontext : ContextLoaded pm.machine) {e : PagedEvent}
    (hstore : storesInBounds e) (hstep : pagedStep disk p pm e = some pm') {pid : Nat} (hpid : 1 ≤ pid)
    (hother : pm.machine.active ≠ pid) {x : Word} (hx : inProcessPage pid x) :
    pm'.cpu.mem x = pm.cpu.mem x := by
  obtain ⟨hlow, hpage⟩ := hx.page hpid
  cases e with
  | kernel e =>
    simp only [pagedStep] at hstep
    split at hstep
    · obtain ⟨m, -, rfl⟩ := Option.map_eq_some_iff.mp hstep
      rfl
    · cases hstep
  | vidmap screenStart =>
    simp only [pagedStep] at hstep
    split at hstep
    · obtain rfl := Option.some.inj hstep
      rfl
    · cases hstep
  | stmt =>
    simp only [pagedStep] at hstep
    split at hstep
    · cases hstep
    · rename_i st rest _
      obtain rfl := Option.some.inj hstep
      exact exec_mem_of_page st hlow
  | fill access a =>
    obtain rfl := Option.some.inj hstep
    exact h.fill_mem_of_page access a hlow
  | evict page =>
    obtain rfl := Option.some.inj hstep
    rfl
  | store mode a b =>
    simp only [pagedStep] at hstep
    split at hstep
    · rename_i hidle
      obtain ⟨pa, hlookup, rfl⟩ := Option.map_eq_some_iff.mp hstep
      have hstored := h.store_page hidle (storesInBounds_store hstore) hlookup
      obtain ⟨hbound, hbound'⟩ := (h.tablesHold hidle).2.user
      have hfill := h.fill_mem_of_page .write a hlow
      unfold PagedMachine.storeByte
      split
      · exact hfill
      · rename_i hvideo
        -- the byte is stored in the page of the active process
        refine (Function.update_of_ne (fun heq => hother ?_) _ _).trans hfill
        have hprogram := hstored.resolve_right hvideo
        have huser : pm.machine.kernel.frames.user = (userFrame pm.machine.active).toNat :=
          congrArg Int.toNat hcontext.page
        have hactive : (userFrame pm.machine.active).toNat = pm.machine.active + 1 := by
          simp only [userFrame, mb8, mb4] at huser ⊢
          omega
        have hxpa : pageOf x = pa / 4096 := by
          rw [heq, pageOf, BitVec.toNat_ofNat]
          omega
        omega
    · cases hstep

/-- The invariants together. -/
theorem context_step (hshell : ShellLoads disk) {e : PagedEvent}
    (h : PagedInv p pm ∧ ∃ stack, ContextInv pm.machine stack) (hstore : storesInBounds e)
    (hgood : keepsContext disk pm e) (hstep : pagedStep disk p pm e = some pm') :
    PagedInv p pm' ∧ ∃ stack, ContextInv pm'.machine stack := by
  refine ⟨h.1.step hshell hstore hstep, ?_⟩
  obtain ⟨stack, hcontext⟩ := h.2
  cases e with
  | kernel e =>
    simp only [pagedStep] at hstep
    split at hstep
    · obtain ⟨m, hm, rfl⟩ := Option.map_eq_some_iff.mp hstep
      exact hcontext.keyedStep hshell hgood hm
    · cases hstep
  | vidmap screenStart =>
    simp only [pagedStep] at hstep
    split at hstep
    · obtain rfl := Option.some.inj hstep
      obtain ⟨flag, hsame⟩ := vidmap_same screenStart pm.machine.kernel
      refine ⟨stack, hcontext.same ?_ ?_ ?_ ?_ ?_ ?_ ?_ (fun q => ?_) rfl⟩ <;>
        simp only [Machine.term, Machine.procs, Machine.withKernel, hsame]
      exact SameButFds.refl _
    · cases hstep
  | stmt =>
    simp only [pagedStep] at hstep
    split at hstep
    · cases hstep
    · obtain rfl := Option.some.inj hstep
      exact ⟨stack, hcontext⟩
  | fill | evict =>
    obtain rfl := Option.some.inj hstep
    exact ⟨stack, hcontext⟩
  | store mode a b =>
    simp only [pagedStep] at hstep
    split at hstep
    · obtain ⟨pa, -, rfl⟩ := Option.map_eq_some_iff.mp hstep
      unfold PagedMachine.storeByte
      split
      · exact ⟨stack, hcontext.same rfl rfl rfl rfl rfl rfl rfl (fun _ => SameButFds.refl _) rfl⟩
      · exact ⟨stack, hcontext⟩
    · cases hstep

/-- A stretch of a run in which a process is not the active one. -/
theorem run_keeps (hshell : ShellLoads disk) {events : List PagedEvent}
    (h : PagedInv p pm ∧ ∃ stack, ContextInv pm.machine stack)
    (hstores : ∀ e ∈ events, storesInBounds e)
    (hgood : Along (pagedStep disk p) (keepsContext disk) pm events)
    (hrun : run (pagedStep disk p) pm events = some pm') {pid : Nat} (hpid : 1 ≤ pid)
    (hother : Throughout (pagedStep disk p) (fun pm => pm.machine.active ≠ pid) pm events) {x : Word}
    (hx : inProcessPage pid x) : pm'.cpu.mem x = pm.cpu.mem x := by
  induction events generalizing pm with
  | nil =>
    obtain rfl := Option.some.inj hrun
    rfl
  | cons e events ih =>
    obtain ⟨pm₁, hstep, hrest⟩ := run_cons hrun
    obtain ⟨hgood₁, hgoods⟩ := hgood pm₁ hstep
    obtain ⟨stack, hcontext⟩ := h.2
    have hstore := hstores e List.mem_cons_self
    have hkept := h.1.step_keeps hcontext.context hstore hstep hpid hother.1 hx
    exact (ih (context_step hshell h hstore hgood₁ hstep)
      (fun e' he' => hstores e' (List.mem_cons_of_mem e he')) hgoods hrest
      (hother.2 pm₁ hstep)).trans hkept

end Isolation

/-- **The memory of a process is its own.**  In every run from boot that keeps the context of the active
    process loaded, and in which the kernel's stores stay in bounds: over any stretch in which a
    process is not the active one of the scheduled terminal, whatever the other processes store anywhere,
    whatever they execute, halt and read, and whichever terminals are switched, the 4 MB of that process
    keep their contents. -/
theorem memory_isolated (disk : Disk) (hshell : ShellLoads disk) (pw : PowerOn) (fr : Frame)
    (p : Placement) (cpu : Processor) (hpge : cpu.control.pge = false)
    (before during : List PagedEvent) (pm pm' : PagedMachine)
    (hbefore : run (pagedStep disk p) (bootPaged disk pw fr p cpu) before = some pm)
    (hduring : run (pagedStep disk p) pm during = some pm')
    (hstores : ∀ e ∈ before ++ during, storesInBounds e)
    (hgood : Along (pagedStep disk p) (keepsContext disk) (bootPaged disk pw fr p cpu) (before ++ during))
    (pid : Nat) (hpid : 1 ≤ pid)
    (hother : Throughout (pagedStep disk p) (fun pm => pm.machine.active ≠ pid) pm during) :
    ∀ x, inProcessPage pid x → pm'.cpu.mem x = pm.cpu.mem x := by
  have hboot : PagedInv p (bootPaged disk pw fr p cpu) ∧
      ∃ stack, ContextInv (bootPaged disk pw fr p cpu).machine stack :=
    ⟨bootPaged_inv hshell pw fr p hpge, bootMachine_contextInv hshell pw fr⟩
  obtain ⟨h, hrest⟩ : (PagedInv p pm ∧ ∃ stack, ContextInv pm.machine stack) ∧
      Along (pagedStep disk p) (keepsContext disk) pm during := by
    have hstores' : ∀ e ∈ before, storesInBounds e := fun e he =>
      hstores e (List.mem_append_left during he)
    clear hstores
    generalize bootPaged disk pw fr p cpu = start at hbefore hgood hboot
    induction before generalizing start with
    | nil =>
      obtain rfl := Option.some.inj hbefore
      exact ⟨hboot, hgood⟩
    | cons e before ih =>
      obtain ⟨pm₁, hstep, hrun⟩ := run_cons hbefore
      obtain ⟨hgood₁, hgoods⟩ := hgood pm₁ hstep
      have hstore := hstores' e List.mem_cons_self
      have hrests : ∀ e ∈ before, storesInBounds e := fun e' he' =>
        hstores' e' (List.mem_cons_of_mem e he')
      exact ih hrests pm₁ hrun hgoods (context_step hshell hboot hstore hgood₁ hstep)
  exact fun x hx => run_keeps hshell h (fun e he => hstores e (List.mem_append_right before he)) hrest
    hduring hpid hother hx

/-- Only the kernel's functions change the active process. -/
theorem pagedStep_active {disk : Disk} {p : Placement} {pm pm' : PagedMachine} {e : PagedEvent}
    (hquiet : ∀ e', e ≠ .kernel e') (hstep : pagedStep disk p pm e = some pm') :
    pm'.machine.active = pm.machine.active := by
  cases e with
  | kernel e => exact absurd rfl (hquiet e)
  | vidmap screenStart =>
    simp only [pagedStep] at hstep
    split at hstep
    · obtain rfl := Option.some.inj hstep
      obtain ⟨flag, hsame⟩ := vidmap_same screenStart pm.machine.kernel
      show Machine.active (pm.machine.withKernel _) = _
      rw [hsame]
      rfl
    · cases hstep
  | stmt =>
    simp only [pagedStep] at hstep
    split at hstep
    · cases hstep
    · obtain rfl := Option.some.inj hstep
      rfl
  | fill | evict =>
    obtain rfl := Option.some.inj hstep
    rfl
  | store mode a b =>
    simp only [pagedStep] at hstep
    split at hstep
    · obtain ⟨pa, -, rfl⟩ := Option.map_eq_some_iff.mp hstep
      unfold PagedMachine.storeByte
      split <;> rfl
    · cases hstep

/-- The page of process 1, while the shell of terminal 1 is mapped and stores into its own. -/
theorem memory_isolated_boot : ∃ pm pm',
    run (pagedStep smallDisk smallPlacement)
      (bootPaged smallDisk blankMemory blankFrame smallPlacement resetCpu) firstTick = some pm ∧
    run (pagedStep smallDisk smallPlacement) pm shellStores = some pm' ∧
    ∀ x, inProcessPage 1 x → pm'.cpu.mem x = pm.cpu.mem x := by
  obtain ⟨pm, pm', hfirst, hrest, hactive⟩ := firstTick_runs
  have hpid : ∃ i, i < maxPcbs ∧
      (bootMachine smallDisk blankMemory blankFrame).procs.slotUsed i = false :=
    ⟨1, by decide, by decide +kernel⟩
  have hothers : ∀ e ∈ shellStores, ∀ e', e ≠ .kernel e' := by
    intro e he e' heq
    subst heq
    simp [shellStores] at he
  refine ⟨pm, pm', hfirst, hrest, memory_isolated smallDisk smallDisk_shellLoads blankMemory blankFrame
    smallPlacement resetCpu (by decide) firstTick shellStores pm pm' hfirst hrest firstTick_stores ?_ 1
    (by decide) ?_⟩
  · refine fun pm₁ _ => ⟨⟨trivial, fun _ => hpid, trivial⟩, ?_⟩
    refine along_mono (fun pm e (h : ∀ e', e ≠ .kernel e') => ?_) (along_of_forall fun e he => ?_)
    · cases e with
      | kernel e => exact absurd rfl (h e)
      | vidmap | stmt | fill | evict | store => trivial
    · rcases List.mem_cons.mp he with rfl | he
      · intro e' heq
        cases heq
      · exact hothers e he
  · refine throughout_mono (fun pm (h : pm.machine.active = 2) => ?_) (throughout_of_along ?_ hactive
      (along_of_forall hothers))
    · rw [h]
      decide
    · exact fun pm e pm' h hquiet hstep => (pagedStep_active hquiet hstep).trans h

end ByteVerse
