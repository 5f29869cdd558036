/-
  The descriptor system calls: `open`, `close`, `read` and `write` of `system_calls.c`, with the
  device functions that the jump tables point to.

  Two layers.  What `open` and `close` do to the caller's PCB is a function on `Pcb` (`openFd`,
  `closeFd`), and so is where `read` and `write` dispatch to (`readTarget`, `writeTarget`).  The
  system calls themselves (`sysOpen`, `sysClose`, `sysRead`, `sysWrite`) first find that PCB: it is
  the one of `active_pid` of the scheduled terminal.  `read` and `write` also publish it in the
  global `file_pcb`, and it is `file_pcb` that `file_read` and `dir_read` work on.

  A call returns its value and the bytes it stored in the caller's buffer; a device that is not
  ready keeps its caller in a wait loop, which is a `none` in place of the result.
-/
import ByteVerse.Console
import ByteVerse.Keyboard
import ByteVerse.SlotTable

set_option linter.unusedVariables false

namespace ByteVerse

open SlotTable

/-! ## Where a descriptor leads -/

/-- The bounds check of `read`, `write`, `file_read` and `dir_read`: against the COUNT of open
    descriptors. -/
def outOfBounds (pcb : Pcb) (fd : Int) : Bool := fd < 0 || fd ≥ pcb.numOpenDescriptors

/-- The descriptor `fd` names, once it is known to be nonnegative. -/
def Pcb.fd (pcb : Pcb) (fd : Int) : Fd := pcb.fileDescArr fd.toNat

/-- `read` up to the jump: the function it calls, `none` when it returns -1 instead. -/
def readTarget (pcb : Pcb) (fd : Int) (nullBuf : Bool) : Option ReadFn :=
  if outOfBounds pcb fd then none
  else if nullBuf then none
  else (pcb.fd fd).fops.bind FileOps.read

/-- `write` up to the jump. -/
def writeTarget (pcb : Pcb) (fd : Int) (nullBuf : Bool) : Option WriteFn :=
  if outOfBounds pcb fd then none
  else if nullBuf then none
  else (pcb.fd fd).fops.bind FileOps.write

/-! ## `open` and `close` on a PCB -/

/-- Slot `i` is in use: `flags` is not zero. -/
def Pcb.isOpen (pcb : Pcb) (i : Nat) : Bool := (pcb.fileDescArr i).flags != 0

/-- The slot `open`'s loop stops at; 8, outside the table, when it finds none free. -/
def freeSlot (pcb : Pcb) : Nat := (firstFree pcb.isOpen 2 numFds.toNat).getD numFds.toNat

/-- The jump table and inode number that `open` stores for a directory entry; `none` for a type
    it does not know. -/
def openTarget (d : Dentry) : Option (FileOps × Int) :=
  if d.filetype = userFiletype then some (rtcOps, 0)
  else if d.filetype = dirFiletype then some (dOps, 0)
  else if d.filetype = fileFiletype then some (fOps, d.inodeNum)
  else none

/-- Store a descriptor, and adjust the count. -/
def setFd (i : Nat) (d : Fd) (num : Int) (pcb : Pcb) : Pcb :=
  { pcb with fileDescArr := Function.update pcb.fileDescArr i d, numOpenDescriptors := num }

/-- `open` on the caller's PCB: the PCB after it and the return value. -/
def openFd (img : Image) (filename : List UInt8) (pcb : Pcb) : Pcb × Int :=
  if pcb.numOpenDescriptors ≥ numFds then (pcb, -1)
  else
    match readDentryByName img filename with
    | none => (pcb, -1)
    | some (myDentry, _) =>
      let fd := freeSlot pcb
      match openTarget myDentry with
      | none => (pcb, -1)
      | some (fops, inode) =>
        (setFd fd { fops := some fops, inodeNum := inode, fileOffset := 0, flags := 1 }
          (pcb.numOpenDescriptors + 1) pcb, fd)

/-- A closed slot. -/
def closedFd : Fd := { fops := none, inodeNum := 0, fileOffset := 0, flags := 0 }

/-- `close` on the caller's PCB. -/
def closeFd (fd : Int) (pcb : Pcb) : Pcb × Int :=
  if fd < 2 ∨ fd ≥ pcb.numOpenDescriptors then (pcb, -1)
  else if pcb.isOpen fd.toNat = false then (pcb, -1)
  else (setFd fd.toNat closedFd (pcb.numOpenDescriptors - 1) pcb, 0)

/-! ## The device functions -/

/-- `file_read` on the PCB that `file_pcb` points to: the PCB after it, the return value and the
    bytes stored. -/
def fileRead (img : Image) (fd nbytes : Int) (pcb : Pcb) : Pcb × Int × List UInt8 :=
  if outOfBounds pcb fd then (pcb, -1, [])
  else
    let curr := pcb.fd fd
    if curr.inodeNum = 0 then (pcb, -1, [])
    else
      let r := readData img curr.inodeNum curr.fileOffset nbytes
      if r.1 = -1 then (pcb, -1, r.2)
      else
        (setFd fd.toNat { curr with fileOffset := curr.fileOffset + r.1 }
          pcb.numOpenDescriptors pcb, r)

/-- What `strncpy(buf, filename, 32)` stores: the name, padded with NULs. -/
def nameBytes (d : Dentry) : List UInt8 := (List.range filenameLen).map fun i => d.name.getD i 0

/-- `dir_read` on the PCB that `file_pcb` points to. -/
def dirRead (img : Image) (fd : Int) (pcb : Pcb) : Pcb × Int × List UInt8 :=
  if outOfBounds pcb fd then (pcb, -1, [])
  else
    let curr := pcb.fd fd
    if curr.inodeNum ≠ 0 then (pcb, -1, [])
    else if curr.fileOffset ≥ img.dirCount then (pcb, 0, [])
    else
      match readDentryByIndex img curr.fileOffset with
      | none => (pcb, -1, [])
      | some (myDentry, len) =>
        (setFd fd.toNat { curr with fileOffset := curr.fileOffset + 1 }
          pcb.numOpenDescriptors pcb, len, nameBytes myDentry)

@[simp] def rtcMin : Int := 2
@[simp] def rtcMax : Int := 1024

/-- The `int32_t` at the front of a buffer: four bytes, least significant first, signed. -/
def int32At (buf : List UInt8) : Int :=
  (buf.getD 0 0).toNat + 0x100 * (buf.getD 1 0).toNat + 0x10000 * (buf.getD 2 0).toNat
    + 0x1000000 * signed (buf.getD 3 0)

/-- `rtc_write` with a buffer that is not NULL.  (A pointer has four bytes on the target, so the
    test of `sizeof(buf)` never fails.) -/
def rtcWrite (s : Fin 3) (buf : List UInt8) (rtc : Rtc) : Rtc × Int :=
  let frequency := int32At buf
  if frequency < rtcMin ∨ frequency > rtcMax then (rtc, -1)
  else if (frequency - 1) % 2 = 0 then (rtc, -1)
  else
    ({ rtc with
       counterFreqRate := Function.update rtc.counterFreqRate s (rtcMax.tdiv frequency)
       rtcCounter := Function.update rtc.rtcCounter s 0 }, 0)

/-- `rtc_read`: `none` while it waits for the virtual interrupt. -/
def rtcRead (s : Fin 3) (rtc : Rtc) : Option Rtc :=
  if rtc.rtcInterruptOccured s ≠ 1 then none
  else some { rtc with rtcInterruptOccured := Function.update rtc.rtcInterruptOccured s 0 }

/-- The loop of `terminal_write`: `putc` of each byte that is not NUL. -/
def terminalWrite (s v : Fin 3) (buf : List UInt8) (nbytes : Int) (con : Console) : Console :=
  (List.range nbytes.toNat).foldl
    (fun con (i : Nat) => if buf.getD i 0 = 0 then con else putc s v (buf.getD i 0) con) con

/-! ## The system calls -/

/-- The process whose call is being served: the active one of the scheduled terminal. -/
def Procs.runningPid (ps : Procs) (s : Fin 3) : Nat := ps.activePid s

/-- Its PCB. -/
def Procs.running (ps : Procs) (s : Fin 3) : Pcb := ps.pcbs (ps.runningPid s)

def Procs.setPcb (ps : Procs) (pid : Nat) (pcb : Pcb) : Procs :=
  { ps with pcbs := Function.update ps.pcbs pid pcb }

/-- `update_file_pcb`. -/
def updateFilePcb (pid : Nat) (ps : Procs) : Procs := { ps with filePcb := pid }

/-- `open`. -/
def sysOpen (img : Image) (s : Fin 3) (filename : List UInt8) (ps : Procs) : Procs × Int :=
  let r := openFd img filename (ps.running s)
  (ps.setPcb (ps.runningPid s) r.1, r.2)

/-- `close`. -/
def sysClose (s : Fin 3) (fd : Int) (ps : Procs) : Procs × Int :=
  let r := closeFd fd (ps.running s)
  (ps.setPcb (ps.runningPid s) r.1, r.2)

/-- A file operation on the PCB that `file_pcb` points to. -/
def onFilePcb (op : Pcb → Pcb × Int × List UInt8) (k : Kernel) :
    Kernel × Option (Int × List UInt8) :=
  let r := op (k.procs.pcbs k.procs.filePcb)
  ({ k with procs := k.procs.setPcb k.procs.filePcb r.1 }, some r.2)

/-- The jump of `read`. -/
def callRead (img : Image) (f : ReadFn) (fd nbytes : Int) (k : Kernel) :
    Kernel × Option (Int × List UInt8) :=
  match f with
  | .fileRead => onFilePcb (fileRead img fd nbytes) k
  | .dirRead => onFilePcb (dirRead img fd) k
  | .rtcRead =>
    match rtcRead k.schedTerm k.rtc with
    | none => (k, none)
    | some rtc => ({ k with rtc := rtc }, some (0, []))
  | .terminalRead =>
    match terminalRead k.schedTerm k.visibleTerm nbytes k.input with
    | none => (k, none)
    | some (inp, r) => ({ k with input := inp }, some r)

/-- `read`: the kernel after it, and the return value with the bytes stored in `buf` (`none` while
    the device keeps the caller waiting). -/
def sysRead (img : Image) (fd : Int) (nullBuf : Bool) (nbytes : Int) (k : Kernel) :
    Kernel × Option (Int × List UInt8) :=
  let pcb := k.procs.running k.schedTerm
  let k := { k with procs := updateFilePcb (k.procs.runningPid k.schedTerm) k.procs }
  match readTarget pcb fd nullBuf with
  | none => (k, some (-1, []))
  | some f => callRead img f fd nbytes k

/-- The jump of `write`, with a buffer that is not NULL.  `terminal_write` enables interrupts
    after each character. -/
def callWrite (f : WriteFn) (buf : List UInt8) (nbytes : Int) (k : Kernel) : Kernel × Int :=
  match f with
  | .fileWrite => (k, -1)
  | .dirWrite => (k, -1)
  | .rtcWrite =>
    let r := rtcWrite k.schedTerm buf k.rtc
    ({ k with rtc := r.1 }, r.2)
  | .terminalWrite =>
    ({ k with
       con := terminalWrite k.schedTerm k.visibleTerm buf nbytes k.con
       interruptFlag := k.interruptFlag || decide (0 < nbytes) }, nbytes)

/-- `write`; `buf = none` is the NULL pointer. -/
def sysWrite (fd : Int) (buf : Option (List UInt8)) (nbytes : Int) (k : Kernel) : Kernel × Int :=
  let pcb := k.procs.running k.schedTerm
  let k := { k with procs := updateFilePcb (k.procs.runningPid k.schedTerm) k.procs }
  match writeTarget pcb fd buf.isNone with
  | none => (k, -1)
  | some f => callWrite f (buf.getD []) nbytes k

theorem sysRead_none {img : Image} {fd nbytes : Int} {nullBuf : Bool} {k : Kernel}
    (htarget : readTarget (k.procs.running k.schedTerm) fd nullBuf = none) :
    sysRead img fd nullBuf nbytes k =
      ({ k with procs := updateFilePcb (k.procs.runningPid k.schedTerm) k.procs }, some (-1, [])) := by
  rw [sysRead, htarget]

theorem sysRead_some {img : Image} {fd nbytes : Int} {nullBuf : Bool} {k : Kernel} {f : ReadFn}
    (htarget : readTarget (k.procs.running k.schedTerm) fd nullBuf = some f) :
    sysRead img fd nullBuf nbytes k = callRead img f fd nbytes
      { k with procs := updateFilePcb (k.procs.runningPid k.schedTerm) k.procs } := by
  rw [sysRead, htarget]

theorem sysWrite_none {fd : Int} {buf : Option (List UInt8)} {k : Kernel} (nbytes : Int)
    (htarget : writeTarget (k.procs.running k.schedTerm) fd buf.isNone = none) :
    sysWrite fd buf nbytes k =
      ({ k with procs := updateFilePcb (k.procs.runningPid k.schedTerm) k.procs }, -1) := by
  rw [sysWrite, htarget]

theorem sysWrite_some {fd : Int} {buf : Option (List UInt8)} {k : Kernel} {f : WriteFn} (nbytes : Int)
    (htarget : writeTarget (k.procs.running k.schedTerm) fd buf.isNone = some f) :
    sysWrite fd buf nbytes k = callWrite f (buf.getD []) nbytes
      { k with procs := updateFilePcb (k.procs.runningPid k.schedTerm) k.procs } := by
  rw [sysWrite, htarget]

/-! ## What the calls leave alone -/

@[simp] theorem setPcb_running (ps : Procs) (s : Fin 3) (pcb : Pcb) :
    (ps.setPcb (ps.runningPid s) pcb).running s = pcb := by
  show Function.update ps.pcbs (ps.activePid s) pcb (ps.activePid s) = pcb
  exact Function.update_self _ _ _

@[simp] theorem setPcb_self (ps : Procs) (i : Nat) : ps.setPcb i (ps.pcbs i) = ps := by
  show { ps with pcbs := Function.update ps.pcbs i (ps.pcbs i) } = ps
  rw [Function.update_eq_self]

/-- `read` acts on the caller's PCB through `file_read` and `dir_read` only, and these leave it a
    PCB with the same descriptors up to a file offset. -/
def readPcb (img : Image) (fd : Int) (nullBuf : Bool) (nbytes : Int) (pcb : Pcb) : Pcb :=
  match readTarget pcb fd nullBuf with
  | some .fileRead => (fileRead img fd nbytes pcb).1
  | some .dirRead => (dirRead img fd pcb).1
  | _ => pcb

/-- **What `read` does to the process table**: `file_pcb` points to the caller's PCB, and that PCB
    alone has changed, by `readPcb`. -/
theorem sysRead_procs (img : Image) (fd : Int) (nullBuf : Bool) (nbytes : Int) (k : Kernel) :
    (sysRead img fd nullBuf nbytes k).1.procs =
      (updateFilePcb (k.procs.runningPid k.schedTerm) k.procs).setPcb
        (k.procs.runningPid k.schedTerm)
        (readPcb img fd nullBuf nbytes (k.procs.running k.schedTerm)) := by
  unfold sysRead readPcb
  simp only
  rcases htarget : readTarget (k.procs.running k.schedTerm) fd nullBuf with _ | f
  · exact (setPcb_self _ _).symm
  · cases f with
    | fileRead => rfl
    | dirRead => rfl
    | rtcRead =>
      simp only [callRead]
      split <;> exact (setPcb_self _ _).symm
    | terminalRead =>
      simp only [callRead]
      split <;> exact (setPcb_self _ _).symm

/-- `write` changes no PCB. -/
theorem sysWrite_procs (fd : Int) (buf : Option (List UInt8)) (nbytes : Int) (k : Kernel) :
    (sysWrite fd buf nbytes k).1.procs =
      updateFilePcb (k.procs.runningPid k.schedTerm) k.procs := by
  unfold sysWrite
  simp only
  rcases writeTarget (k.procs.running k.schedTerm) fd buf.isNone with _ | f
  · rfl
  · cases f <;> rfl

/-- `read` and `write` leave the scheduled terminal alone. -/
theorem sysRead_schedTerm (img : Image) (fd : Int) (nullBuf : Bool) (nbytes : Int) (k : Kernel) :
    (sysRead img fd nullBuf nbytes k).1.schedTerm = k.schedTerm := by
  rcases htarget : readTarget (k.procs.running k.schedTerm) fd nullBuf with _ | f
  · rw [sysRead_none htarget]
  · rw [sysRead_some htarget]
    cases f <;> simp only [callRead, onFilePcb] <;> split <;> rfl

theorem sysWrite_schedTerm (fd : Int) (buf : Option (List UInt8)) (nbytes : Int) (k : Kernel) :
    (sysWrite fd buf nbytes k).1.schedTerm = k.schedTerm := by
  unfold sysWrite
  simp only
  rcases writeTarget (k.procs.running k.schedTerm) fd buf.isNone with _ | f
  · rfl
  · cases f <;> rfl

/-- A read changes a file offset of the PCB at most. -/
theorem readPcb_offset (img : Image) (fd : Int) (nullBuf : Bool) (nbytes : Int) (pcb : Pcb) :
    ∃ off, readPcb img fd nullBuf nbytes pcb = pcb ∨
      readPcb img fd nullBuf nbytes pcb =
        setFd fd.toNat { pcb.fd fd with fileOffset := off } pcb.numOpenDescriptors pcb := by
  unfold readPcb
  split
  · unfold fileRead
    simp only
    split
    · exact ⟨0, Or.inl rfl⟩
    split
    · exact ⟨0, Or.inl rfl⟩
    split
    · exact ⟨0, Or.inl rfl⟩
    · exact ⟨_, Or.inr rfl⟩
  · unfold dirRead
    simp only
    split
    · exact ⟨0, Or.inl rfl⟩
    split
    · exact ⟨0, Or.inl rfl⟩
    split
    · exact ⟨0, Or.inl rfl⟩
    split
    · exact ⟨0, Or.inl rfl⟩
    · exact ⟨_, Or.inr rfl⟩
  · exact ⟨0, Or.inl rfl⟩

end ByteVerse
