/-
  `terminal.c`, the initialisation it depends on, and the handler of the keyboard interrupt.

  Three parts:
  1. the state at boot (`paging_init`, `terminal_init`, the zeroed globals) and the first shell,
     which `entry` executes;
  2. `switch_terminal` and `vidmap`, on the console;
  3. `scheduler`, which either resumes the process that the next terminal last ran or, the first
     time, executes that terminal's shell, and `keyboard_handler`.
-/
import ByteVerse.Execute

set_option linter.unusedVariables false

namespace ByteVerse

open SlotTable

/-! ## Screens and frames -/

/-- The backup page of a terminal, 0xB9, 0xBA or 0xBB: the frame, and the virtual page of the
    terminal's `VRAM_addr`. -/
def backupPage (t : Fin 3) : Int :=
  if t = 0 then term1Vram else if t = 1 then term2Vram else term3Vram

/-- The page that shows what terminal `t` has written while `v` is visible. -/
def screenPage (t v : Fin 3) : Int := if t = v then videoMemAddr else backupPage t

/-- Change `page_table[0xB8].frame`. -/
def mapVideo (frame : Int) (con : Console) : Console :=
  { con with pageTable := Function.update con.pageTable videoMemAddr frame }

/-! ## Boot -/

/-- The page tables that `paging_init` leaves: the four video pages to themselves, and virtual page
    0xBC to the screen. -/
def initialPageTable (i : Int) : Int :=
  if i = videoMemAddr ∨ i = term1Vram ∨ i = term2Vram ∨ i = term3Vram then i
  else if i = 0xBC then videoMemAddr
  else 0

def initialPageTableVidmap (i : Int) : Int :=
  if i = 0 then videoMemAddr else if i = 1 then term1Vram else if i = 2 then term2Vram
  else if i = 3 then term3Vram else 0

/-- The console after `paging_init` and `terminal_init`, which clears the screen three times. -/
def initialConsole (pw : PowerOn) : Console :=
  let con : Console :=
    { screenX := fun _ => 0, screenY := fun _ => 0
      pageTable := initialPageTable, pageTableVidmap := initialPageTableVidmap
      phys := pw.phys, cursorReg := 0 }
  clear 0 0 (clear 0 0 (clear 0 0 con))

def initialInput (pw : PowerOn) : Input :=
  { capsFlag := 0, shiftFlag := 0, ctrlFlag := 0, altFlag := 0, lineFlag := 0, tabFlag := 0
    fKeyPressed := 0, enterPressed := fun _ => 0
    termBuffer := fun i => if 0 ≤ i ∧ i < bufferLimit then 0 else pw.termBuffer i
    bufferIndex := 0, readBuffer := fun _ _ => 0, rbIdx := fun _ => 0
    rFlag := fun t => if t = 0 then 1 else 0 }

/-- Terminal 0 is announced as started, with pid 1; `tss.esp0` is set by `entry`.  (`file_pcb` is
    NULL until the first PCB is built.) -/
def initialProcs (pw : PowerOn) : Procs :=
  { pidArr := fun _ => 0, pcbs := pw.pcbs
    activePid := fun t => if t = 0 then 1 else 0
    basePid := fun t => if t = 0 then 1 else 0
    status := fun t => if t = 0 then 1 else 0
    filePcb := 0, pageDirectory32 := 32, tssEsp0 := mb8, tssSs0 := kernelDS }

def initialRtc : Rtc :=
  { counterFreqRate := fun _ => 512, rtcCounter := fun _ => 0, rtcInterruptOccured := fun _ => 0 }

/-- The kernel when `entry` comes to execute the first shell. -/
def initialKernel (pw : PowerOn) : Kernel :=
  { schedTerm := 0, visibleTerm := 0, con := clear 0 0 (initialConsole pw)
    input := initialInput pw, procs := initialProcs pw, rtc := initialRtc, interruptFlag := false }

/-- Boot, up to the first user instruction of the first shell. -/
def boot (disk : Disk) (pw : PowerOn) (fr : Frame) : Kernel × ExecResult :=
  executeShell disk .entry fr .entry (initialKernel pw)

/-! ## `switch_terminal` and `vidmap` -/

/-- `memcpy` of a whole page, between two virtual pages. -/
def copyPage (dest src : Int) (con : Console) : Console :=
  { con with phys := Function.update con.phys (con.pageTable dest) (con.phys (con.pageTable src)) }

/-- The screens' part of `switch_terminal`, from visible terminal `v` to `n ≠ v`. -/
def switchScreen (v n : Fin 3) (con : Console) : Console :=
  let temp := con.pageTable videoMemAddr
  let con := mapVideo videoMemAddr con
  let con := copyPage (backupPage v) videoMemAddr con
  let con := copyPage videoMemAddr (backupPage n) con
  mapVideo temp (updateCursor n con)

/-- `switch_terminal`. -/
def switchTerminal (terminalNumber : Fin 3) (k : Kernel) : Kernel :=
  let k := cli k
  if terminalNumber = k.visibleTerm then sti k
  else
    sti { k with
      con := switchScreen k.visibleTerm terminalNumber k.con
      input := switchInput k.visibleTerm terminalNumber k.input
      visibleTerm := terminalNumber }

@[simp] def userAdd : Int := 0x8000000

/-- `vidmap`, given the value of the pointer `screen_start` (0 for NULL): the return value and the
    address stored there.  (The page directory entry it sets has that value since boot.) -/
def vidmap (screenStart : Int) (k : Kernel) : Kernel × Int × Option Int :=
  let k := cli k
  if screenStart = 0 then (k, -1, none)
  else if screenStart < userAdd ∨ screenStart ≥ userAdd + mb4 then (k, -1, none)
  else (sti k, 0, some (0x8400000 + kb4 * (k.schedTerm : Nat)))

/-- A byte stored by the program of terminal `s` at an offset from the address `vidmap` gave it. -/
def vidmapStore (s : Fin 3) (offset : Int) (b : UInt8) (con : Console) : Console :=
  let frame := con.pageTableVidmap (s : Nat)
  { con with phys := Function.update con.phys frame (Function.update (con.phys frame) offset b) }

/-! ## `scheduler` -/

/-- `(sched_term + 1) % 3`. -/
def nextTerm (s : Fin 3) : Fin 3 := s + 1

/-- The paging part of `scheduler`: both mappings of the terminal it switches to. -/
def mapScreen (s v : Fin 3) (con : Console) : Console :=
  let con := mapVideo (screenPage s v) con
  { con with
    pageTableVidmap := Function.update con.pageTableVidmap ((s : Nat) : Int) (screenPage s v) }

/-- The pid `scheduler` gives to a terminal that starts: that of the first free slot, and 6 when its
    loop finds none. -/
def firstShellPid (ps : Procs) : Nat :=
  match firstFree ps.slotUsed 0 maxPcbs with
  | some i => i + 1
  | none => maxPcbs

/-- `terminals[sched_term].status`, `base_pid` and `active_pid` of a terminal that starts. -/
def openTerminal (s : Fin 3) (ps : Procs) : Procs :=
  let pid := firstShellPid ps
  { ps with
    status := Function.update ps.status s 1
    basePid := Function.update ps.basePid s pid
    activePid := Function.update ps.activePid s pid }

/-- The stack registers and `tss.esp0` of the preempted process, into its PCB. -/
def savePreempted (running : Fin 3) (esp ebp : Nat) (ps : Procs) : Procs :=
  let pid := ps.activePid running
  ps.setPcb pid { ps.pcbs pid with esp := esp, ebp := ebp, tssEsp0 := ps.tssEsp0 }

/-- The context switch of `scheduler`'s last branch, up to the stack registers. -/
def switchContext (running s : Fin 3) (esp ebp : Nat) (ps : Procs) : Procs :=
  let curr := ps.activePid running
  let next := ps.activePid s
  let ps := { ps with pageDirectory32 := userFrame (ps.pcbs next).pid }
  let ps := ps.setPcb curr { ps.pcbs curr with tssEsp0 := ps.tssEsp0 }
  let ps := { ps with tssSs0 := kernelDS, tssEsp0 := (ps.pcbs next).tssEsp0 }
  ps.setPcb curr { ps.pcbs curr with esp := esp, ebp := ebp }

/-- Preemption leaves what `execute` stored in the PCBs. -/
theorem savePreempted_origin (running : Fin 3) (esp ebp : Nat) (ps : Procs) (p : Nat) :
    ((savePreempted running esp ebp ps).pcbs p).origin = (ps.pcbs p).origin := by
  show (Function.update ps.pcbs (ps.activePid running) _ p).origin = _
  by_cases hp : p = ps.activePid running
  · rw [hp, Function.update_self]
    rfl
  · rw [Function.update_of_ne hp]

/-- **What a context switch does to the process table.**  (When both terminals have the same active
    process, that process is saved first and then loaded.) -/
theorem switchContext_eq (running s : Fin 3) (esp ebp : Nat) (ps : Procs) :
    let curr := ps.activePid running
    let next := ps.activePid s
    switchContext running s esp ebp ps =
      { ps with
        pcbs := Function.update ps.pcbs curr
          { ps.pcbs curr with esp := esp, ebp := ebp, tssEsp0 := ps.tssEsp0 }
        pageDirectory32 := userFrame (ps.pcbs next).pid
        tssSs0 := kernelDS
        tssEsp0 := if next = curr then ps.tssEsp0 else (ps.pcbs next).tssEsp0 } := by
  intro curr next
  have hload : (Function.update ps.pcbs curr { ps.pcbs curr with tssEsp0 := ps.tssEsp0 } next).tssEsp0
      = if next = curr then ps.tssEsp0 else (ps.pcbs next).tssEsp0 := by
    by_cases h : next = curr
    · rw [h, Function.update_self, if_pos rfl]
    · rw [Function.update_of_ne h, if_neg h]
  rw [← hload]
  simp only [switchContext, Procs.setPcb, Function.update_self, Function.update_idem]
  rfl

theorem switchContext_origin (running s : Fin 3) (esp ebp : Nat) (ps : Procs) (p : Nat) :
    ((switchContext running s esp ebp ps).pcbs p).origin = (ps.pcbs p).origin := by
  rw [switchContext_eq]
  show (Function.update ps.pcbs (ps.activePid running) _ p).origin = _
  by_cases hp : p = ps.activePid running
  · rw [hp, Function.update_self]
    rfl
  · rw [Function.update_of_ne hp]

/-- How a run of `scheduler` ended. -/
inductive SchedResult
  /-- It took up the stack of the process that the next terminal last ran. -/
  | switched
  /-- It executed the first shell of the next terminal. -/
  | started (result : ExecResult)
  deriving DecidableEq

/-- `scheduler`, called by `pit_handler`; `esp` and `ebp` are its stack registers, and `fr` is the
    activation record of the `execute` it may call. -/
def scheduler (disk : Disk) (esp ebp : Nat) (fr : Frame) (k : Kernel) : Kernel × SchedResult :=
  let running := k.schedTerm
  let s := nextTerm running
  let k := { k with schedTerm := s, con := mapScreen s k.visibleTerm k.con }
  if k.procs.status s = 0 then
    let k := { k with
      procs := savePreempted running esp ebp (openTerminal s k.procs)
      con := clear s k.visibleTerm k.con }
    let r := executeShell disk .scheduler fr .scheduler k
    (r.1, .started r.2)
  else ({ k with procs := switchContext running s esp ebp k.procs }, .switched)

/-! ## `keyboard_handler` -/

/-- The call that `keyboard_handler` makes into the rest of the kernel; `none` for `halt`, from
    which it does not come back. -/
def keyAction (action : KeyAction) (k : Kernel) : Option Kernel :=
  match action with
  | .nothing => some k
  | .echo cs => some { k with con := printfkText k.schedTerm k.visibleTerm cs k.con }
  | .cleark => some { k with con := cleark k.visibleTerm k.con }
  | .switchTerminal n => some (switchTerminal n k)
  | .halt => none

/-- `keyboard_handler` on one scan code. -/
def keyboardHandler (disk : Disk) (fr : Frame) (scanCode : UInt8) (k : Kernel) : Kernel :=
  let r := keyboardInput k.visibleTerm k.input scanCode
  let k := { k with input := r.1 }
  match keyAction r.2 k with
  | some k => k
  | none => (halt disk fr 0 k).1

end ByteVerse
