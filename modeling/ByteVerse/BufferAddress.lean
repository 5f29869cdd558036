/-
  `read` through the pointer it is given.

  `read` checks that its buffer is not NULL, and the device functions store through it in kernel mode.
  `vidmap` looks whether its pointer lies in the program's page; `read` does not, and the kernel's own
  page, from 4 MB to 8 MB, holds the PCBs.  Here a call comes with the address of its buffer
  (`PtrCall`), and what it stores in the caller's own PCB is followed, byte by byte.  In the same page,
  below the PCBs, lies `term_buffer`, which `terminal_read` clears from its front on, as many bytes as
  it is asked for.

  Where the buffers lie outside the kernel's page, and the terminal is not asked for more than a
  program's buffer holds, the calls are those of `DescriptorTable` (`ptrStep_eq`), and the table stays
  right (`descriptor_table_safe`).  A `read` into the caller's own count breaks it
  (`read_overwrites_count`).
-/
import ByteVerse.BufferSize
import ByteVerse.Words

set_option linter.unusedVariables false

namespace ByteVerse

open SlotTable Run Words

/-! ## A PCB in memory -/

/-- Where a `pcb_t` has its descriptors, `sizeof(fd_t)`, where it has their count, and its size. -/
@[simp] def fileDescArrAt : Nat := 72
@[simp] def fdSize : Nat := 20
@[simp] def numOpenDescriptorsAt : Nat := 232
@[simp] def pcbSize : Nat := 236

/-- `get_active_pcb`. -/
def getActivePcb (pid : Nat) : Int := mb8 - pid * kb8

/-- An `int32_t` after a store into its byte number `i`. -/
def storeInt (v : Int) (i : Nat) (b : UInt8) : Int :=
  ((BitVec.ofInt 32 v &&& ~~~(0xFF#32 <<< (8 * i))) ||| (b.toBitVec.setWidth 32 <<< (8 * i))).toInt

/-- A store into a descriptor: `fops`, `inode_num`, `file_offset`, `flags` and `fname` have four bytes
    each.  Not followed into `fops`, which could then point anywhere. -/
def Fd.storeByte (d : Fd) (off : Nat) (b : UInt8) : Option Fd :=
  match off / 4 with
  | 0 => none
  | 1 => some { d with inodeNum := storeInt d.inodeNum (off % 4) b }
  | 2 => some { d with fileOffset := storeInt d.fileOffset (off % 4) b }
  | 3 => some { d with flags := storeInt d.flags (off % 4) b }
  | _ => some d

/-- A store into a PCB; not followed into what lies in front of the descriptors. -/
def Pcb.storeByte (pcb : Pcb) (off : Nat) (b : UInt8) : Option Pcb :=
  if numOpenDescriptorsAt ≤ off then
    some { pcb with
      numOpenDescriptors := storeInt pcb.numOpenDescriptors (off - numOpenDescriptorsAt) b }
  else if fileDescArrAt ≤ off then
    let i := (off - fileDescArrAt) / fdSize
    ((pcb.fileDescArr i).storeByte ((off - fileDescArrAt) % fdSize) b).map fun d =>
      { pcb with fileDescArr := Function.update pcb.fileDescArr i d }
  else none

/-- The address lies in the kernel's page, which user programs cannot reach themselves. -/
def inKernelPage (a : Word) : Bool := 0x400000 ≤ a.toNat && a.toNat < 0x800000

/-- A store through a pointer, as the PCB of the caller sees it.  In the kernel's page it is followed
    into that PCB alone.  (Where nothing is mapped the store faults, and the caller calls no more.) -/
def storeByteAt (pid : Nat) (a : Word) (b : UInt8) (pcb : Pcb) : Option Pcb :=
  if inKernelPage a = false then some pcb
  else
    let off := (a.toNat : Int) - getActivePcb pid
    if 0 ≤ off ∧ off < pcbSize then pcb.storeByte off.toNat b else none

/-- Some bytes are stored from address `a` on, the first one first. -/
def storeAt (pid : Nat) : Word → List UInt8 → Pcb → Option Pcb
  | _, [], pcb => some pcb
  | a, b :: bytes, pcb => (storeByteAt pid a b pcb).bind (storeAt pid (a + 1) bytes)

/-! ## `read` with the address of its buffer -/

/-- `file_read`: `read_data` has stored the bytes when the offset moves. -/
def fileReadAt (img : Image) (pid : Nat) (fd : Int) (buf : Word) (nbytes : Int) (pcb : Pcb) :
    Option (Pcb × Int × List UInt8) :=
  if outOfBounds pcb fd then some (pcb, -1, [])
  else
    let curr := pcb.fd fd
    if curr.inodeNum = 0 then some (pcb, -1, [])
    else
      let r := readData img curr.inodeNum curr.fileOffset nbytes
      (storeAt pid buf r.2 pcb).map fun pcb =>
        if r.1 = -1 then (pcb, -1, r.2)
        else
          (setFd fd.toNat { pcb.fd fd with fileOffset := (pcb.fd fd).fileOffset + r.1 }
            pcb.numOpenDescriptors pcb, r)

/-- `dir_read`. -/
def dirReadAt (img : Image) (pid : Nat) (fd : Int) (buf : Word) (pcb : Pcb) :
    Option (Pcb × Int × List UInt8) :=
  if outOfBounds pcb fd then some (pcb, -1, [])
  else
    let curr := pcb.fd fd
    if curr.inodeNum ≠ 0 then some (pcb, -1, [])
    else if curr.fileOffset ≥ img.dirCount then some (pcb, 0, [])
    else
      match readDentryByIndex img curr.fileOffset with
      | none => some (pcb, -1, [])
      | some (myDentry, len) =>
        (storeAt pid buf (nameBytes myDentry) pcb).map fun pcb =>
          (setFd fd.toNat { pcb.fd fd with fileOffset := (pcb.fd fd).fileOffset + 1 }
            pcb.numOpenDescriptors pcb, len, nameBytes myDentry)

/-- A file operation that stores through its caller's pointer, on the PCB of `file_pcb`. -/
def onFilePcbAt (op : Pcb → Option (Pcb × Int × List UInt8)) (k : Kernel) :
    Option (Kernel × Option (Int × List UInt8)) :=
  (op (k.procs.pcbs k.procs.filePcb)).map fun r =>
    ({ k with procs := k.procs.setPcb k.procs.filePcb r.1 }, some r.2)

/-- The jump of `read`.  `read` has just made `file_pcb` the caller's PCB; `rtc_read` stores nothing.  A
    clearing loop of `terminal_read` that leaves the keyboard's data behind is not followed. -/
def callReadAt (img : Image) (f : ReadFn) (fd : Int) (buf : Word) (nbytes : Int) (k : Kernel) :
    Option (Kernel × Option (Int × List UInt8)) :=
  match f with
  | .fileRead => onFilePcbAt (fileReadAt img k.procs.filePcb fd buf nbytes) k
  | .dirRead => onFilePcbAt (dirReadAt img k.procs.filePcb fd buf) k
  | .rtcRead => some (callRead img .rtcRead fd nbytes k)
  | .terminalRead =>
    match terminalRead k.schedTerm k.visibleTerm nbytes k.input with
    | none => some (k, none)
    | some (inp, r) =>
      if nbytes ≤ clearedRoom then
        onFilePcbAt (fun pcb => (storeAt k.procs.filePcb buf r.2 pcb).map (·, r)) { k with input := inp }
      else none

/-- `read`, given the address of its buffer. -/
def sysReadAt (img : Image) (fd : Int) (buf : Word) (nbytes : Int) (k : Kernel) :
    Option (Kernel × Option (Int × List UInt8)) :=
  let pcb := k.procs.running k.schedTerm
  let k := { k with procs := updateFilePcb (k.procs.runningPid k.schedTerm) k.procs }
  match readTarget pcb fd (buf == 0) with
  | none => some (k, some (-1, []))
  | some f => callReadAt img f fd buf nbytes k

/-- A system call on descriptors, a `read` with the address it is to store at. -/
inductive PtrCall
  | openFile (filename : List UInt8)
  | close (fd : Int)
  | read (fd : Int) (buf : Word) (nbytes : Int)
  | write (fd : Int) (buf : Option (List UInt8)) (nbytes : Int)

/-- The calling process makes one call. -/
def ptrStep (img : Image) (k : Kernel) : PtrCall → Option Kernel
  | .openFile filename => some { k with procs := (sysOpen img k.schedTerm filename k.procs).1 }
  | .close fd => some { k with procs := (sysClose k.schedTerm fd k.procs).1 }
  | .read fd buf nbytes => (sysReadAt img fd buf nbytes k).map Prod.fst
  | .write fd buf nbytes => some (sysWrite fd buf nbytes k).1

/-! ## Buffers outside the kernel's page -/

/-- A buffer lies outside the kernel's page: its `nbytes` bytes, and the 32 that the name of a directory
    entry takes whatever `nbytes` is. -/
def OutsideKernelPage (buf : Word) (nbytes : Int) : Prop :=
  ∀ i, i < max nbytes.toNat filenameLen → inKernelPage (buf + BitVec.ofNat 32 i) = false

instance (buf : Word) (nbytes : Int) : Decidable (OutsideKernelPage buf nbytes) :=
  inferInstanceAs (Decidable (∀ i, i < _ → _))

/-- A `read` with a buffer gets one outside the kernel's page, and does not clear more than `clearedRoom`
    bytes when the terminal has a line for it. -/
def sparesKernelPage (k : Kernel) : PtrCall → Prop
  | .read fd buf nbytes => buf ≠ 0 → OutsideKernelPage buf nbytes ∧
      (readTarget (callerPcb k) fd false = some .terminalRead → k.input.enterPressed k.schedTerm ≠ 0 →
        nbytes ≤ clearedRoom)
  | _ => True

instance (k : Kernel) : ∀ c, Decidable (sparesKernelPage k c)
  | .openFile _ => isTrue trivial
  | .close _ => isTrue trivial
  | .read _ _ _ => inferInstanceAs (Decidable (_ → _ ∧ (_ → _ → _)))
  | .write _ _ _ => isTrue trivial

/-- The call as the other modules have it, without the address. -/
def PtrCall.fdCall : PtrCall → FdCall
  | .openFile filename => .openFile filename
  | .close fd => .close fd
  | .read fd buf nbytes => .read fd (buf == 0) nbytes
  | .write fd buf nbytes => .write fd buf nbytes

/-- Stores outside the kernel's page leave the PCB. -/
theorem storeAt_outside (pid : Nat) {pcb : Pcb} {a : Word} {bytes : List UInt8}
    (h : ∀ i, i < bytes.length → inKernelPage (a + BitVec.ofNat 32 i) = false) :
    storeAt pid a bytes pcb = some pcb := by
  induction bytes generalizing a with
  | nil => rfl
  | cons b bytes ih =>
    have hfirst : inKernelPage a = false := by
      have h0 := h 0 (by rw [List.length_cons]; omega)
      rwa [BitVec.add_zero] at h0
    have hrest : ∀ i, i < bytes.length → inKernelPage (a + 1 + BitVec.ofNat 32 i) = false := by
      intro i hi
      have hnext := h (i + 1) (by rw [List.length_cons]; omega)
      rwa [Nat.add_comm i 1, BitVec.ofNat_add, ← BitVec.add_assoc] at hnext
    rw [storeAt, storeByteAt, if_pos hfirst]
    exact ih hrest

/-- `read_data` stores no more than is asked for. -/
theorem readData_length_le (img : Image) (inode offset nbytes : Int) :
    (readData img inode offset nbytes).2.length ≤ nbytes.toNat := by
  by_cases h0 : 0 ≤ nbytes
  · have hbytes := (keepsBeyond_iff h0 _).mp (readData_size img inode offset h0).1
    omega
  · -- a negative size ends the loop before its first byte
    have hloop : ∀ inode fuel, (readDataLoop img inode offset nbytes fuel 0).2 = [] := by
      intro inode fuel
      cases fuel with
      | zero => rfl
      | succ fuel => rw [readDataLoop, if_neg (by omega)]
    unfold readData
    split
    · exact Nat.zero_le _
    · simp only [hloop]
      exact Nat.zero_le _

/-- Nor does `terminal_read`. -/
theorem terminalRead_length_le {s v : Fin 3} {nbytes : Int} {inp inp' : Input} {r : Int × List UInt8}
    (h : terminalRead s v nbytes inp = some (inp', r)) : r.2.length ≤ nbytes.toNat := by
  by_cases h0 : 0 ≤ nbytes
  · have hbytes := (keepsBeyond_iff h0 _).mp (terminalRead_size h0 h).1
    omega
  · obtain ⟨-, rfl, -⟩ := terminalRead_eq_some h
    rw [Int.toNat_of_nonpos (by omega)]
    exact Nat.le_refl 0

section Outside

variable {img : Image} {pid : Nat} {fd nbytes : Int} {buf : Word} {k : Kernel}

/-- Where no byte of the buffer lies in the kernel's page, storing into it leaves the PCB. -/
theorem storeAt_buffer (hout : OutsideKernelPage buf nbytes) {bytes : List UInt8}
    (hlen : bytes.length ≤ max nbytes.toNat filenameLen) (pcb : Pcb) :
    storeAt pid buf bytes pcb = some pcb :=
  storeAt_outside pid fun i hi => hout i (by omega)

theorem fileReadAt_outside (hout : OutsideKernelPage buf nbytes) (pcb : Pcb) :
    fileReadAt img pid fd buf nbytes pcb = some (fileRead img fd nbytes pcb) := by
  have hlen := readData_length_le img (pcb.fd fd).inodeNum (pcb.fd fd).fileOffset nbytes
  unfold fileReadAt fileRead
  simp only [storeAt_buffer hout (Nat.le_trans hlen (Nat.le_max_left _ _)), Option.map_some]
  split
  · rfl
  split
  · rfl
  split <;> rfl

theorem dirReadAt_outside (hout : OutsideKernelPage buf nbytes) (pcb : Pcb) :
    dirReadAt img pid fd buf pcb = some (dirRead img fd pcb) := by
  have hlen : ∀ d, (nameBytes d).length ≤ max nbytes.toNat filenameLen := by
    intro d
    rw [length_nameBytes]
    exact Nat.le_max_right _ _
  unfold dirReadAt dirRead
  simp only [storeAt_buffer hout (hlen _), Option.map_some]
  split
  · rfl
  split
  · rfl
  split
  · rfl
  cases readDentryByIndex img (pcb.fd fd).fileOffset <;> rfl

/-- With its buffer outside the kernel's page, the device called does what `callRead` says. -/
theorem callReadAt_outside (hout : OutsideKernelPage buf nbytes) (f : ReadFn)
    (hclear : f = .terminalRead → k.input.enterPressed k.schedTerm ≠ 0 → nbytes ≤ clearedRoom) :
    callReadAt img f fd buf nbytes k = some (callRead img f fd nbytes k) := by
  cases f with
  | fileRead =>
    show onFilePcbAt _ k = _
    rw [onFilePcbAt, fileReadAt_outside hout]
    rfl
  | dirRead =>
    show onFilePcbAt _ k = _
    rw [onFilePcbAt, dirReadAt_outside hout]
    rfl
  | rtcRead => rfl
  | terminalRead =>
    simp only [callReadAt, callRead]
    rcases hread : terminalRead k.schedTerm k.visibleTerm nbytes k.input with _ | ⟨inp, r⟩
    · rfl
    · have hlen := Nat.le_trans (terminalRead_length_le hread) (Nat.le_max_left _ filenameLen)
      have hroom : nbytes ≤ clearedRoom := hclear rfl (terminalRead_eq_some hread).1
      simp only [if_pos hroom, onFilePcbAt, storeAt_buffer hout hlen, Option.map_some, setPcb_self]

/-- **Buffers outside the kernel's page need no address**: the call is the one of `FdCall`. -/
theorem ptrStep_eq (img : Image) (k : Kernel) {c : PtrCall} (h : sparesKernelPage k c) :
    ptrStep img k c = fdStep img k c.fdCall := by
  cases c with
  | openFile | close | write => rfl
  | read fd buf nbytes =>
    suffices hread : sysReadAt img fd buf nbytes k = some (sysRead img fd (buf == 0) nbytes k) by
      show (sysReadAt img fd buf nbytes k).map Prod.fst = _
      rw [hread]
      rfl
    unfold sysReadAt sysRead
    simp only
    rcases htarget : readTarget (k.procs.running k.schedTerm) fd (buf == 0) with _ | f
    · rfl
    · have hbuf : buf ≠ 0 := by
        -- a NULL buffer is refused before the jump
        intro hnull
        rw [hnull, readTarget] at htarget
        split at htarget <;> cases htarget
      obtain ⟨hout, hclear⟩ := h hbuf
      rw [beq_eq_false_iff_ne.mpr hbuf] at htarget
      exact callReadAt_outside hout f fun hf => hclear (hf ▸ htarget)

end Outside

/-! ## The descriptor table, with addresses -/

/-- The table of the calling process is right, and `open` is correct for every name. -/
def DescriptorsCorrect (img : Image) (k : Kernel) : Prop :=
  FdTable (callerPcb k) ∧
    (2 ≤ (callerPcb k).numOpenDescriptors ∧ (callerPcb k).numOpenDescriptors ≤ 8) ∧
    ∀ filename, OpenCorrect img k filename

/-- **The descriptor table stays right as long as no read is given a buffer in the kernel's page**, and
    none clears more than the room of a program's buffer: from `build_pcb` on, whatever else the process
    opens, closes, reads and writes. -/
theorem descriptor_table_safe (img : Image) (k : Kernel) (args : List UInt8) (pid : Nat)
    (calls : List PtrCall)
    (hbuf : Along (ptrStep img) sparesKernelPage (newProcess k args pid) calls) :
    Throughout (ptrStep img) (DescriptorsCorrect img) (newProcess k args pid) calls := by
  have hstep : ∀ k c, sparesKernelPage k c → ptrStep img k c = fdStep img k c.fdCall :=
    fun k c hc => ptrStep_eq img k hc
  exact throughout_map hstep hbuf (descriptor_table_correct img k args pid (calls.map PtrCall.fdCall))

/-- A process that opens and reads a file, into its own page. -/
theorem own_buffer_read :
    Throughout (ptrStep smallImage) (DescriptorsCorrect smallImage)
      (newProcess (initialKernel blankMemory) [] 4)
      [.openFile [115, 104, 101, 108, 108], .read 2 0x8048000 4, .close 2] :=
  descriptor_table_safe smallImage (initialKernel blankMemory) [] 4 _ (by decide +kernel)

/-- Process 4 opens `shell` and reads its first four bytes to 0x7F80E8, where its own PCB has the count
    of its descriptors. -/
theorem read_overwrites_count :
    ¬ Throughout (ptrStep smallImage) (DescriptorsCorrect smallImage)
      (newProcess (initialKernel blankMemory) [] 4)
      [.openFile [115, 104, 101, 108, 108], .read 2 0x7F80E8 4] := by
  intro h
  have hrun : (run (ptrStep smallImage) (newProcess (initialKernel blankMemory) [] 4)
      [.openFile [115, 104, 101, 108, 108], .read 2 0x7F80E8 4]).map
        (fun k => (callerPcb k).numOpenDescriptors) = some 0x464C457F := by
    decide +kernel
  obtain ⟨k, hk, hcount⟩ := Option.map_eq_some_iff.mp hrun
  have hbound := (throughout_last h hk).2.1.2
  rw [hcount] at hbound
  exact absurd hbound (by decide)

end ByteVerse
