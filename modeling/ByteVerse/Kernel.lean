/-
  The kernel's data, as the C globals lay it out.

  There are three terminals, and `terminals[3]` mixes the data of four parts of the kernel.  The
  model keeps one record per part — `Console` (cursors and video memory), `Input` (keyboard and
  line buffers), `Procs` (processes, paging of the user page, TSS) and `Rtc` — with each field
  of `terminal_t` a function of the terminal, so that a part's functions are functions on its
  record and visibly leave the rest of the kernel alone.

  * A terminal is a `Fin 3`: `sched_term` is only ever `(sched_term + 1) % 3`, `visible_term` only
    ever a number that `keyboard_handler` has checked against `0 .. 2`.
  * A PCB is identified with its pid: `get_active_pcb(pid)` is a fixed address for each pid, so
    `pcbs : Nat → Pcb` is the memory below 8 MB, and a PCB pointer is a pid.
  * An `int` array is a function of its index.  Buffers given by the caller of a system call are
    objects of the caller, apart from the kernel's own data.  (The calls do not check that they are:
    `BufferAddress` follows a `read` into the caller's PCB.)

  Not kept: the fields nothing reads (`fname`, `user_prog_ep`, `num_pids`, the segment selectors
  pushed for `iret`), and the page-table bits other than the frame.
-/
import Mathlib.Algebra.Ring.Nat
import Mathlib.Logic.Function.Basic
import ByteVerse.FileSystem

namespace ByteVerse

/-! ## Constants -/

/-- What a literal of type `Fin 3` needs. -/
instance neZero_three : NeZero 3 := ⟨by decide⟩

@[simp] def maxPcbs : Nat := 6
@[simp] def numFds : Int := 8
@[simp] def bufferLimit : Int := 128
@[simp] def mb8 : Int := 0x800000
@[simp] def mb4 : Int := 0x400000
@[simp] def kb8 : Int := 8192
@[simp] def kb4 : Int := 4096
@[simp] def kernelDS : Int := 0x18
@[simp] def videoMemAddr : Int := 0xB8
@[simp] def term1Vram : Int := 0xB9
@[simp] def term2Vram : Int := 0xBA
@[simp] def term3Vram : Int := 0xBB

/-! ## Descriptors and process control blocks -/

/-- The functions a jump table's `read` can point to. -/
inductive ReadFn
  | fileRead | dirRead | rtcRead | terminalRead
  deriving DecidableEq

/-- The functions a jump table's `write` can point to. -/
inductive WriteFn
  | fileWrite | dirWrite | rtcWrite | terminalWrite
  deriving DecidableEq

/-- `struct file_ops`, the two entries the system calls dispatch through (`none` is NULL). -/
structure FileOps where
  write : Option WriteFn
  read : Option ReadFn
  deriving DecidableEq

def fOps : FileOps := { write := some .fileWrite, read := some .fileRead }
def dOps : FileOps := { write := some .dirWrite, read := some .dirRead }
def rtcOps : FileOps := { write := some .rtcWrite, read := some .rtcRead }
def stdinFops : FileOps := { write := none, read := some .terminalRead }
def stdoutFops : FileOps := { write := some .terminalWrite, read := none }

/-- `fd_t`. -/
structure Fd where
  fops : Option FileOps
  inodeNum : Int
  fileOffset : Int
  flags : Int
  deriving DecidableEq

/-- Where a call of `execute` returns to: what lies on the kernel stack above the frame that
    `ESP_prev`/`EBP_prev` name, hence where `leave; ret` at the end of `halt` lands.  The callers
    are the system-call gate, `entry` and `scheduler` (for a terminal's first shell), and `halt`
    itself, restarting a base shell: there the frame holds that call's own `current_pcb` and
    `ret_val`. -/
inductive RetSite
  | syscall
  | entry
  | scheduler
  | halt (currentPcb : Nat) (retVal : Int)
  deriving DecidableEq

/-- `pcb_t`.  `retSite` is the return site of the `execute` call the PCB was built by. -/
structure Pcb where
  pid : Nat
  parentPid : Nat
  args : List UInt8
  espPrev : Nat
  ebpPrev : Nat
  retSite : RetSite
  prevTssESP0 : Int
  prevTssSS : Int
  tssEsp0 : Int
  ebp : Nat
  esp : Nat
  fileDescArr : Nat → Fd
  numOpenDescriptors : Int

/-! ## The four parts of the kernel -/

/-- Cursors, the page tables of video memory and the pages behind them. -/
structure Console where
  screenX : Fin 3 → Int
  screenY : Fin 3 → Int
  /-- `page_table[i].frame`. -/
  pageTable : Int → Int
  /-- `page_table_vidmap[i].frame`. -/
  pageTableVidmap : Int → Int
  /-- Physical memory: `phys frame offset`. -/
  phys : Int → Int → UInt8
  /-- The position last written to the VGA cursor registers. -/
  cursorReg : Int

/-- The globals of `keyboard.c` and the saved lines of `terminals[]`. -/
structure Input where
  capsFlag : UInt8
  shiftFlag : UInt8
  ctrlFlag : UInt8
  altFlag : UInt8
  lineFlag : UInt8
  tabFlag : UInt8
  fKeyPressed : UInt8
  enterPressed : Fin 3 → UInt8
  /-- The memory from `term_buffer` on; the buffer proper is `0 .. 127`.  The variables that the
      linker puts behind it (three of the flags above) are kept apart: what a store behind the buffer
      does to them is not followed. -/
  termBuffer : Int → UInt8
  bufferIndex : Int
  readBuffer : Fin 3 → Int → UInt8
  rbIdx : Fin 3 → Int
  rFlag : Fin 3 → Int

/-- The process table, `page_directory[32]` and the TSS. -/
structure Procs where
  pidArr : Nat → Nat
  pcbs : Nat → Pcb
  activePid : Fin 3 → Nat
  basePid : Fin 3 → Nat
  status : Fin 3 → Nat
  /-- `file_pcb`, the PCB the file operations work on. -/
  filePcb : Nat
  /-- `page_directory[32].pde_4mb.frame`. -/
  pageDirectory32 : Int
  tssEsp0 : Int
  tssSs0 : Int

/-- The virtual real-time clocks. -/
structure Rtc where
  counterFreqRate : Fin 3 → Int
  rtcCounter : Fin 3 → Int
  rtcInterruptOccured : Fin 3 → Int

structure Kernel where
  schedTerm : Fin 3
  visibleTerm : Fin 3
  con : Console
  input : Input
  procs : Procs
  rtc : Rtc
  /-- The processor's interrupt flag. -/
  interruptFlag : Bool

def cli (k : Kernel) : Kernel := { k with interruptFlag := false }
def sti (k : Kernel) : Kernel := { k with interruptFlag := true }

/-- The contents of memory when the kernel is loaded: everything the boot code does not set. -/
structure PowerOn where
  phys : Int → Int → UInt8
  pcbs : Nat → Pcb
  /-- What lies around `term_buffer`; the buffer itself is zeroed. -/
  termBuffer : Int → UInt8

/-- A PCB in memory that is all zero, and such a memory. -/
def blankPcb : Pcb :=
  { pid := 0, parentPid := 0, args := [], espPrev := 0, ebpPrev := 0, retSite := .entry
    prevTssESP0 := 0, prevTssSS := 0, tssEsp0 := 0, ebp := 0, esp := 0
    fileDescArr := fun _ => { fops := none, inodeNum := 0, fileOffset := 0, flags := 0 }
    numOpenDescriptors := 0 }

def blankMemory : PowerOn :=
  { phys := fun _ _ => 0, pcbs := fun _ => blankPcb, termBuffer := fun _ => 0 }

/-- The functions that execute a shell, each with a string literal of its own. -/
inductive ShellCaller
  | entry
  | scheduler
  | halt
  deriving DecidableEq

/-- What every run of the kernel is given: the file-system image, and the bytes that follow each
    function's literal `"shell"` in read-only data (its terminator first). -/
structure Disk where
  img : Image
  behindShell : ShellCaller → List UInt8

def smallDisk : Disk := { img := smallImage, behindShell := fun _ => [0] }

/-- The command `shell` in a program's buffer. -/
def shellLine : List UInt8 := [115, 104, 101, 108, 108, 0]

/-- The activation record of one call of `execute`: the stack registers it will save, what its
    uninitialised locals `magic_numbers` and `prog_eip` happen to contain, and what is in `cmd` once
    arguments that do not fit `args` have been written over the locals behind it. -/
structure Frame where
  esp : Nat
  ebp : Nat
  magicNumbers : List UInt8
  progEip : List UInt8
  cmd : List UInt8

def blankFrame : Frame := { esp := 0, ebp := 0, magicNumbers := [], progEip := [], cmd := [] }

end ByteVerse
