/-
  `read` statement by statement, in processes of different terminals.

  `read` publishes the PCB of its caller in the global `file_pcb`, looks at the descriptor through
  its own pointer, and jumps; `file_read` and `dir_read` then take the descriptor from `file_pcb`
  (`curr = &(file_pcb->file_desc_arr[fd])`) and work on it through `curr`.  The system-call gate is a
  trap gate, so a tick may fall between any two of these statements.  From the publication to the
  assignment of `curr` a call is at the mercy of `file_pcb` (`awaits`): if another process publishes
  its own PCB there meanwhile, by a read of its own or because the tick starts a terminal's shell,
  the call goes on with that process's descriptor.  Along every run in which that does not happen,
  each call accesses its caller's PCB only (`reads_own_descriptors`).

  Three parts: the statements of one call, which without interruption are `sysRead`
  (`sysRead_points`); the calls of the three terminals' processes, and ticks; the invariant.
-/
import ByteVerse.Terminal
import ByteVerse.Run
import Mathlib.Logic.Relation

set_option linter.unusedVariables false

namespace ByteVerse

open SlotTable Run

/-! ## One call -/

/-- The two operations that work on `file_pcb`. -/
inductive FileOp
  | file | dir
  deriving DecidableEq

/-- The two that do not. -/
inductive Device
  | rtc | terminal
  deriving DecidableEq

def Device.read : Device → ReadFn
  | .rtc => .rtcRead
  | .terminal => .terminalRead

/-- Where a call of `read` stands: the statement it executes next, with the values of the local
    variables assigned so far.  (`curr` is the PCB whose descriptor it points to.) -/
inductive ReadPoint
  /-- `update_file_pcb(pcb)`. -/
  | publish
  /-- `if (fd < 0 || fd >= pcb->num_open_descriptors) return -1`. -/
  | checkFd
  /-- `if (!buf) return -1`. -/
  | checkBuf
  /-- `if (curr->fops && curr->fops->read) return curr->fops->read(fd, buf, nbytes)`. -/
  | jump
  /-- In `rtc_read` or `terminal_read`, which know nothing of PCBs. -/
  | device (d : Device)
  /-- The bounds check of `file_read` and `dir_read`. -/
  | opCheckFd (op : FileOp)
  /-- `curr = &(file_pcb->file_desc_arr[fd])`. -/
  | opCurr (op : FileOp)
  /-- The check of `curr->inode_num`. -/
  | opCheckInode (op : FileOp) (curr : Nat)
  /-- `inode = curr->inode_num`. -/
  | loadInode (curr : Nat)
  /-- `offset = curr->file_offset`. -/
  | loadOffset (curr : Nat) (inode : Int)
  /-- `ret_val = read_data(inode, offset, buf, nbytes)`. -/
  | readData (curr : Nat) (inode offset : Int)
  | checkRet (curr : Nat) (ret : Int × List UInt8)
  /-- `curr->file_offset += ret_val`. -/
  | addOffset (curr : Nat) (ret : Int × List UInt8)
  /-- `if (curr->file_offset >= num_direntries) return 0`. -/
  | checkEnd (curr : Nat)
  /-- `ret = read_dentry_by_index(curr->file_offset, &myDentry)`, and its check. -/
  | readDentry (curr : Nat)
  /-- `strncpy`, which stores the name. -/
  | copyName (curr : Nat) (myDentry : Dentry) (ret : Int)
  /-- `curr->file_offset++`. -/
  | incOffset (curr : Nat) (name : List UInt8) (ret : Int)
  | returned (ret : Int × List UInt8)

/-- A call of `read`: its caller's pid (`pcb` is that process's PCB) and its arguments. -/
structure PendingRead where
  pid : Nat
  fd : Int
  nullBuf : Bool
  nbytes : Int
  point : ReadPoint

/-- Change `curr->file_offset`. -/
def setOffset (curr : Nat) (fd : Int) (offset : Int) (ps : Procs) : Procs :=
  let pcb := ps.pcbs curr
  ps.setPcb curr
    (setFd fd.toNat { pcb.fd fd with fileOffset := offset } pcb.numOpenDescriptors pcb)

/-- The function that `read` jumps to. -/
def jumpTo : ReadFn → ReadPoint
  | .fileRead => .opCheckFd .file
  | .dirRead => .opCheckFd .dir
  | .rtcRead => .device .rtc
  | .terminalRead => .device .terminal

/-- One statement of a call. -/
def execPoint (img : Image) (c : PendingRead) (k : Kernel) : Kernel × ReadPoint :=
  let ps := k.procs
  match c.point with
  | .publish => ({ k with procs := updateFilePcb c.pid ps }, .checkFd)
  | .checkFd => (k, if outOfBounds (ps.pcbs c.pid) c.fd then .returned (-1, []) else .checkBuf)
  | .checkBuf => (k, if c.nullBuf then .returned (-1, []) else .jump)
  | .jump =>
    (k, match ((ps.pcbs c.pid).fd c.fd).fops.bind FileOps.read with
      | none => .returned (-1, [])
      | some f => jumpTo f)
  | .device d =>
    match callRead img d.read c.fd c.nbytes k with
    | (k, none) => (k, .device d)
    | (k, some ret) => (k, .returned ret)
  | .opCheckFd op =>
    (k, if outOfBounds (ps.pcbs ps.filePcb) c.fd then .returned (-1, []) else .opCurr op)
  | .opCurr op => (k, .opCheckInode op ps.filePcb)
  | .opCheckInode .file curr =>
    (k, if ((ps.pcbs curr).fd c.fd).inodeNum = 0 then .returned (-1, []) else .loadInode curr)
  | .opCheckInode .dir curr =>
    (k, if ((ps.pcbs curr).fd c.fd).inodeNum ≠ 0 then .returned (-1, []) else .checkEnd curr)
  | .loadInode curr => (k, .loadOffset curr ((ps.pcbs curr).fd c.fd).inodeNum)
  | .loadOffset curr inode => (k, .readData curr inode ((ps.pcbs curr).fd c.fd).fileOffset)
  | .readData curr inode offset => (k, .checkRet curr (ByteVerse.readData img inode offset c.nbytes))
  | .checkRet curr ret => (k, if ret.1 = -1 then .returned (-1, ret.2) else .addOffset curr ret)
  | .addOffset curr ret =>
    ({ k with
       procs := setOffset curr c.fd (((ps.pcbs curr).fd c.fd).fileOffset + ret.1) ps },
      .returned ret)
  | .checkEnd curr =>
    (k, if ((ps.pcbs curr).fd c.fd).fileOffset ≥ img.dirCount then .returned (0, [])
      else .readDentry curr)
  | .readDentry curr =>
    (k, match readDentryByIndex img ((ps.pcbs curr).fd c.fd).fileOffset with
      | none => .returned (-1, [])
      | some (myDentry, len) => .copyName curr myDentry len)
  | .copyName curr myDentry ret => (k, .incOffset curr (nameBytes myDentry) ret)
  | .incOffset curr name ret =>
    ({ k with procs := setOffset curr c.fd (((ps.pcbs curr).fd c.fd).fileOffset + 1) ps },
      .returned (ret, name))
  | .returned ret => (k, .returned ret)

/-! ## Without interruption -/

/-- Statements of one call, one after the other. -/
def PointsTo (img : Image) (c : PendingRead) : Kernel × ReadPoint → Kernel × ReadPoint → Prop :=
  Relation.ReflTransGen fun a b => execPoint img { c with point := a.2 } a.1 = b

section Uninterrupted

variable {img : Image} {c : PendingRead} {k : Kernel}

theorem points_head {p : ReadPoint} {b : Kernel × ReadPoint}
    (h : PointsTo img c (execPoint img { c with point := p } k) b) : PointsTo img c (k, p) b :=
  Relation.ReflTransGen.head rfl h

theorem points_refl (a : Kernel × ReadPoint) : PointsTo img c a a := Relation.ReflTransGen.refl

/-- `file_read`. -/
theorem fileRead_points :
    PointsTo img c (k, .opCheckFd .file)
      ((onFilePcb (fileRead img c.fd c.nbytes) k).1,
        .returned ((fileRead img c.fd c.nbytes (k.procs.pcbs k.procs.filePcb)).2)) := by
  have hself : { k with procs := k.procs.setPcb k.procs.filePcb (k.procs.pcbs k.procs.filePcb) } = k := by
    rw [setPcb_self]
  unfold onFilePcb fileRead
  apply points_head
  simp only [execPoint]
  by_cases hbounds : outOfBounds (k.procs.pcbs k.procs.filePcb) c.fd = true
  · rw [if_pos hbounds, if_pos hbounds]
    simp only [hself]
    exact points_refl _
  rw [if_neg hbounds, if_neg hbounds]
  apply points_head
  apply points_head
  simp only [execPoint]
  by_cases hinode : ((k.procs.pcbs k.procs.filePcb).fd c.fd).inodeNum = 0
  · simp only [if_pos hinode, hself]
    exact points_refl _
  simp only [if_neg hinode]
  apply points_head
  apply points_head
  apply points_head
  apply points_head
  simp only [execPoint]
  split
  · simp only [hself]
    exact points_refl _
  · apply points_head
    exact points_refl _

/-- `dir_read`. -/
theorem dirRead_points :
    PointsTo img c (k, .opCheckFd .dir)
      ((onFilePcb (dirRead img c.fd) k).1,
        .returned ((dirRead img c.fd (k.procs.pcbs k.procs.filePcb)).2)) := by
  have hself : { k with procs := k.procs.setPcb k.procs.filePcb (k.procs.pcbs k.procs.filePcb) } = k := by
    rw [setPcb_self]
  unfold onFilePcb dirRead
  apply points_head
  simp only [execPoint]
  by_cases hbounds : outOfBounds (k.procs.pcbs k.procs.filePcb) c.fd = true
  · rw [if_pos hbounds, if_pos hbounds]
    simp only [hself]
    exact points_refl _
  rw [if_neg hbounds, if_neg hbounds]
  apply points_head
  apply points_head
  simp only [execPoint]
  by_cases hinode : ((k.procs.pcbs k.procs.filePcb).fd c.fd).inodeNum ≠ 0
  · simp only [if_pos hinode, hself]
    exact points_refl _
  simp only [if_neg hinode]
  apply points_head
  simp only [execPoint]
  by_cases hend : ((k.procs.pcbs k.procs.filePcb).fd c.fd).fileOffset ≥ img.dirCount
  · simp only [if_pos hend, hself]
    exact points_refl _
  simp only [if_neg hend]
  apply points_head
  simp only [execPoint]
  rcases readDentryByIndex img ((k.procs.pcbs k.procs.filePcb).fd c.fd).fileOffset with _ | ⟨d, len⟩
  · simp only [hself]
    exact points_refl _
  · apply points_head
    apply points_head
    exact points_refl _

/-- `rtc_read` and `terminal_read`. -/
theorem device_points (d : Device) :
    ∃ point, PointsTo img c (k, .device d) ((callRead img d.read c.fd c.nbytes k).1, point) ∧
      match (callRead img d.read c.fd c.nbytes k).2 with
      | some ret => point = .returned ret
      | none => ∃ d, point = .device d := by
  rcases hcall : callRead img d.read c.fd c.nbytes k with ⟨k', _ | ret⟩
  · refine ⟨.device d, points_head ?_, d, rfl⟩
    simp only [execPoint, hcall]
    exact points_refl _
  · refine ⟨.returned ret, points_head ?_, rfl⟩
    simp only [execPoint, hcall]
    exact points_refl _

/-- **Without interruption the statements of a call are `sysRead`**; where that keeps its caller
    waiting, they come to the device. -/
theorem sysRead_points (hpid : c.pid = k.procs.runningPid k.schedTerm) :
    ∃ point, PointsTo img c (k, .publish) ((sysRead img c.fd c.nullBuf c.nbytes k).1, point) ∧
      match (sysRead img c.fd c.nullBuf c.nbytes k).2 with
      | some ret => point = .returned ret
      | none => ∃ d, point = .device d := by
  have hrun : k.procs.running k.schedTerm = k.procs.pcbs c.pid := by
    rw [hpid]
    rfl
  rw [sysRead, hrun, ← hpid]
  -- the PCBs are as before the publication
  generalize hk₁ : { k with procs := updateFilePcb c.pid k.procs } = k₁
  have hpcbs : k.procs.pcbs c.pid = k₁.procs.pcbs c.pid := by rw [← hk₁]; rfl
  have hpublish : ∀ b, PointsTo img c (k₁, .checkFd) b → PointsTo img c (k, .publish) b := by
    intro b hb
    apply points_head
    rw [← hk₁] at hb
    exact hb
  rw [hpcbs]
  unfold readTarget
  by_cases hbounds : outOfBounds (k₁.procs.pcbs c.pid) c.fd = true
  · rw [if_pos hbounds]
    refine ⟨_, hpublish _ (points_head ?_), rfl⟩
    simp only [execPoint, if_pos hbounds]
    exact points_refl _
  rw [if_neg hbounds]
  have hchecked : ∀ b, PointsTo img c (k₁, .checkBuf) b → PointsTo img c (k, .publish) b := by
    intro b hb
    refine hpublish b (points_head ?_)
    simp only [execPoint, if_neg hbounds]
    exact hb
  by_cases hbuf : c.nullBuf = true
  · rw [if_pos hbuf]
    refine ⟨_, hchecked _ (points_head ?_), rfl⟩
    simp only [execPoint, if_pos hbuf]
    exact points_refl _
  rw [if_neg hbuf]
  rcases hops : ((k₁.procs.pcbs c.pid).fd c.fd).fops.bind FileOps.read with _ | f
  · refine ⟨.returned (-1, []), hchecked _ (points_head ?_), rfl⟩
    simp only [execPoint, if_neg hbuf]
    apply points_head
    simp only [execPoint, hops]
    exact points_refl _
  · have hjump : ∀ b, PointsTo img c (k₁, jumpTo f) b → PointsTo img c (k, .publish) b := by
      intro b hb
      refine hchecked b (points_head ?_)
      simp only [execPoint, if_neg hbuf]
      apply points_head
      simp only [execPoint, hops]
      exact hb
    cases f with
    | fileRead => exact ⟨_, hjump _ fileRead_points, rfl⟩
    | dirRead => exact ⟨_, hjump _ dirRead_points, rfl⟩
    | rtcRead =>
      obtain ⟨point, hpoints, hret⟩ := device_points .rtc
      exact ⟨point, hjump _ hpoints, hret⟩
    | terminalRead =>
      obtain ⟨point, hpoints, hret⟩ := device_points .terminal
      exact ⟨point, hjump _ hpoints, hret⟩

end Uninterrupted

/-! ## Calls of several processes, and ticks -/

/-- The kernel, and the call of `read` that the process of each terminal is in or has last returned
    from. -/
structure ReadRace where
  kernel : Kernel
  calls : Fin 3 → Option PendingRead

inductive RaceEvent
  /-- The process of the scheduled terminal executes a statement of the call it is in; when it is in
      none it calls `read` with these arguments. -/
  | statement (fd : Int) (nullBuf : Bool) (nbytes : Int)
  | tick (esp ebp : Nat) (fr : Frame)

/-- The call of which a statement is executed next, `none` when a new one begins. -/
def openRead : Option PendingRead → Option PendingRead
  | some c =>
    match c.point with
    | .returned _ => none
    | _ => some c
  | none => none

def ReadRace.next (disk : Disk) (r : ReadRace) : RaceEvent → ReadRace
  | .statement fd nullBuf nbytes =>
    let k := r.kernel
    let s := k.schedTerm
    match openRead (r.calls s) with
    | none =>
      -- `pcb = get_active_pcb(get_running_term()->active_pid)`
      let c : PendingRead :=
        { pid := k.procs.runningPid s, fd := fd, nullBuf := nullBuf, nbytes := nbytes
          point := .publish }
      { r with calls := Function.update r.calls s (some c) }
    | some c =>
      let res := execPoint disk.img c k
      { kernel := res.1, calls := Function.update r.calls s (some { c with point := res.2 }) }
  | .tick esp ebp fr => { r with kernel := (scheduler disk esp ebp fr r.kernel).1 }

def raceStep (disk : Disk) (r : ReadRace) (e : RaceEvent) : Option ReadRace := some (r.next disk e)

/-- No process is in a read. -/
def startRace (k : Kernel) : ReadRace := { kernel := k, calls := fun _ => none }

/-! ## The property and the condition -/

/-- The PCB that the next statement of a call reads or writes. -/
def accessed (ps : Procs) (c : PendingRead) : Option Nat :=
  match c.point with
  | .checkFd => some c.pid
  | .jump => some c.pid
  | .opCheckFd _ => some ps.filePcb
  | .opCurr _ => some ps.filePcb
  | .opCheckInode _ curr => some curr
  | .loadInode curr => some curr
  | .loadOffset curr _ => some curr
  | .addOffset curr _ => some curr
  | .checkEnd curr => some curr
  | .readDentry curr => some curr
  | .incOffset curr _ _ => some curr
  | _ => none

/-- Whatever statement of a read comes next, it is the caller's own PCB that it reads or writes. -/
def OwnAccess (r : ReadRace) : Prop :=
  ∀ s c, r.calls s = some c → ∀ p, accessed r.kernel.procs c = some p → p = c.pid

/-- A statement of a read changes no PCB but its caller's. -/
def changesOwnOnly (disk : Disk) (r : ReadRace) (e : RaceEvent) : Prop :=
  match e with
  | .statement _ _ _ =>
    ∀ c, openRead (r.calls r.kernel.schedTerm) = some c → ∀ p, p ≠ c.pid →
      (r.next disk e).kernel.procs.pcbs p = r.kernel.procs.pcbs p
  | .tick _ _ _ => True

/-- Whether `read` calls `file_read` or `dir_read`. -/
def usesFilePcb : Option ReadFn → Bool
  | some .fileRead => true
  | some .dirRead => true
  | _ => false

/-- The call has published its PCB, and is going to take its descriptor from `file_pcb`. -/
def awaits (ps : Procs) (c : PendingRead) : Bool :=
  let pcb := ps.pcbs c.pid
  match c.point with
  | .checkFd => usesFilePcb (readTarget pcb c.fd c.nullBuf)
  | .checkBuf => !c.nullBuf && usesFilePcb ((pcb.fd c.fd).fops.bind FileOps.read)
  | .jump => usesFilePcb ((pcb.fd c.fd).fops.bind FileOps.read)
  | .opCheckFd _ => true
  | .opCurr _ => true
  | _ => false

/-- The process whose PCB a step publishes: that of a read, or the shell of a terminal that the tick
    starts, for which `build_pcb` does. -/
def published (r : ReadRace) : RaceEvent → Option Nat
  | .statement _ _ _ =>
    match openRead (r.calls r.kernel.schedTerm) with
    | some ⟨pid, _, _, _, .publish⟩ => some pid
    | _ => none
  | .tick _ _ _ =>
    let ps := r.kernel.procs
    if ps.status (nextTerm r.kernel.schedTerm) = 0 then
      (firstFree ps.slotUsed 0 maxPcbs).map (· + 1)
    else none

/-- No PCB is published while a call of another process awaits its own. -/
def publishesAlone (r : ReadRace) (e : RaceEvent) : Prop :=
  ∀ pid ∈ published r e, ∀ s, ∀ c ∈ r.calls s, awaits r.kernel.procs c = true → c.pid = pid

instance (r : ReadRace) (e : RaceEvent) : Decidable (publishesAlone r e) :=
  inferInstanceAs (Decidable (∀ pid ∈ published r e, ∀ s, ∀ c ∈ r.calls s, _ → _))

/-! ## The invariant -/

/-- The PCB that `curr` has been made to point to. -/
def ReadPoint.curr : ReadPoint → Option Nat
  | .opCheckInode _ curr => some curr
  | .loadInode curr => some curr
  | .loadOffset curr _ => some curr
  | .readData curr _ _ => some curr
  | .checkRet curr _ => some curr
  | .addOffset curr _ => some curr
  | .checkEnd curr => some curr
  | .readDentry curr => some curr
  | .copyName curr _ _ => some curr
  | .incOffset curr _ _ => some curr
  | _ => none

/-- A call that awaits its PCB will find it, and one that has a descriptor has its own. -/
structure CallOwn (ps : Procs) (c : PendingRead) : Prop where
  file : awaits ps c = true → ps.filePcb = c.pid
  curr : ∀ p, c.point.curr = some p → p = c.pid

def RaceInv (r : ReadRace) : Prop := ∀ s c, r.calls s = some c → CallOwn r.kernel.procs c

theorem CallOwn.access {ps : Procs} {c : PendingRead} (h : CallOwn ps c) :
    ∀ p, accessed ps c = some p → p = c.pid := by
  intro p hp
  obtain ⟨pid, fd, nullBuf, nbytes, point⟩ := c
  cases point with
  | checkFd | jump => exact (Option.some.inj hp).symm
  | opCheckFd | opCurr => exact (Option.some.inj hp).symm.trans (h.file rfl)
  | opCheckInode | loadInode | loadOffset | addOffset | checkEnd | readDentry | incOffset =>
    exact h.curr p hp
  | publish | checkBuf | device | readData | checkRet | copyName | returned => cases hp

/-- Two PCBs whose descriptors differ in their offsets and inode numbers at most. -/
def SameOps (pcb pcb' : Pcb) : Prop :=
  pcb'.numOpenDescriptors = pcb.numOpenDescriptors ∧
    ∀ i, (pcb'.fileDescArr i).fops = (pcb.fileDescArr i).fops

theorem SameOps.refl (pcb : Pcb) : SameOps pcb pcb := ⟨rfl, fun _ => rfl⟩

/-- Whether a call awaits its PCB depends on nothing that a read changes. -/
theorem SameOps.awaits {ps ps' : Procs} {c : PendingRead} (h : SameOps (ps.pcbs c.pid) (ps'.pcbs c.pid)) :
    ByteVerse.awaits ps' c = ByteVerse.awaits ps c := by
  obtain ⟨hnum, hfops⟩ := h
  unfold ByteVerse.awaits readTarget outOfBounds Pcb.fd
  simp only [hnum, hfops]

theorem setOffset_same (curr : Nat) (fd offset : Int) (ps : Procs) (p : Nat) :
    SameOps (ps.pcbs p) ((setOffset curr fd offset ps).pcbs p) := by
  show SameOps _ (Function.update ps.pcbs curr _ p)
  by_cases hp : p = curr
  · rw [hp, Function.update_self]
    refine ⟨rfl, fun i => ?_⟩
    show (Function.update (ps.pcbs curr).fileDescArr fd.toNat _ i).fops = _
    by_cases hi : i = fd.toNat
    · rw [hi, Function.update_self]
      rfl
    · rw [Function.update_of_ne hi]
  · rw [Function.update_of_ne hp]
    exact SameOps.refl _

theorem callRead_device (img : Image) (d : Device) (fd nbytes : Int) (k : Kernel) :
    (callRead img d.read fd nbytes k).1.procs = k.procs := by
  cases d with
  | rtc =>
    simp only [Device.read, callRead]
    split <;> rfl
  | terminal =>
    simp only [Device.read, callRead]
    split <;> rfl

/-- **What a statement of a read does to the process table**: it publishes the caller's PCB, or sets
    the offset of a descriptor of the PCB that `curr` points to, or nothing. -/
theorem execPoint_procs (img : Image) (c : PendingRead) (k : Kernel) :
    (c.point = .publish ∧ (execPoint img c k).1.procs = updateFilePcb c.pid k.procs) ∨
    (∃ curr offset ret, c.point.curr = some curr ∧
      (execPoint img c k).1.procs = setOffset curr c.fd offset k.procs ∧
      (execPoint img c k).2 = .returned ret) ∨
    (execPoint img c k).1.procs = k.procs := by
  obtain ⟨pid, fd, nullBuf, nbytes, point⟩ := c
  cases point with
  | publish => exact Or.inl ⟨rfl, rfl⟩
  | addOffset curr ret => exact Or.inr (Or.inl ⟨curr, _, _, rfl, rfl, rfl⟩)
  | incOffset curr name ret => exact Or.inr (Or.inl ⟨curr, _, _, rfl, rfl, rfl⟩)
  | device d =>
    right
    right
    have hprocs := callRead_device img d fd nbytes k
    simp only [execPoint]
    split <;> rename_i hcall <;> rw [hcall] at hprocs <;> exact hprocs
  | opCheckInode op curr => cases op <;> exact Or.inr (Or.inr rfl)
  | checkFd | checkBuf | jump | opCheckFd | opCurr | loadInode | loadOffset | readData | checkRet
  | checkEnd | readDentry | copyName | returned => exact Or.inr (Or.inr rfl)

/-- A call that has returned, or is in a device, has nothing to do with PCBs any more. -/
theorem callOwn_of_none {ps : Procs} {c : PendingRead} (hawaits : awaits ps c = false)
    (hcurr : c.point.curr = none) : CallOwn ps c where
  file h := by
    rw [hawaits] at h
    cases h
  curr p h := by
    rw [hcurr] at h
    cases h

/-- A statement of a call keeps the call on its caller's PCB. -/
theorem CallOwn.exec {k : Kernel} {c : PendingRead} (h : CallOwn k.procs c) (img : Image) :
    CallOwn (execPoint img c k).1.procs { c with point := (execPoint img c k).2 } := by
  obtain ⟨pid, fd, nullBuf, nbytes, point⟩ := c
  have hcurr : ∀ {p : ReadPoint}, p.curr = point.curr →
      awaits k.procs ⟨pid, fd, nullBuf, nbytes, p⟩ = false →
      CallOwn k.procs ⟨pid, fd, nullBuf, nbytes, p⟩ := by
    intro p hp hawaits
    refine ⟨fun ha => ?_, fun q hq => h.curr q (hp ▸ hq)⟩
    rw [hawaits] at ha
    cases ha
  cases point with
  | publish => exact ⟨fun _ => rfl, nofun⟩
  | checkFd =>
    simp only [execPoint]
    split
    · exact callOwn_of_none rfl rfl
    · rename_i hbounds
      refine ⟨fun ha => h.file ?_, nofun⟩
      simp only [awaits, Bool.and_eq_true, Bool.not_eq_true'] at ha ⊢
      rw [readTarget, if_neg hbounds, ha.1]
      exact ha.2
  | checkBuf =>
    simp only [execPoint]
    split
    · exact callOwn_of_none rfl rfl
    · rename_i hbuf
      refine ⟨fun ha => h.file ?_, nofun⟩
      simp only [awaits, Bool.and_eq_true, Bool.not_eq_true'] at ha ⊢
      exact ⟨Bool.eq_false_iff.mpr hbuf, ha⟩
  | jump =>
    simp only [execPoint]
    have hfile := h.file
    simp only [awaits] at hfile
    rcases hops : ((k.procs.pcbs pid).fd fd).fops.bind FileOps.read with _ | f
    · exact callOwn_of_none rfl rfl
    · rw [hops] at hfile
      cases f with
      | fileRead | dirRead => exact ⟨fun _ => hfile rfl, nofun⟩
      | rtcRead | terminalRead => exact callOwn_of_none rfl rfl
  | device d =>
    simp only [execPoint]
    split <;> exact callOwn_of_none rfl rfl
  | opCheckFd op =>
    simp only [execPoint]
    split
    · exact callOwn_of_none rfl rfl
    · exact ⟨fun _ => h.file rfl, nofun⟩
  | opCurr op =>
    refine ⟨nofun, fun p hp => ?_⟩
    exact (Option.some.inj hp).symm.trans (h.file rfl)
  | opCheckInode op curr =>
    cases op <;> simp only [execPoint] <;> split
    · exact callOwn_of_none rfl rfl
    · exact hcurr rfl rfl
    · exact callOwn_of_none rfl rfl
    · exact hcurr rfl rfl
  | loadInode | loadOffset | readData | copyName => exact hcurr rfl rfl
  | checkRet | checkEnd =>
    simp only [execPoint]
    split
    · exact callOwn_of_none rfl rfl
    · exact hcurr rfl rfl
  | readDentry =>
    simp only [execPoint]
    split
    · exact callOwn_of_none rfl rfl
    · exact hcurr rfl rfl
  | addOffset | incOffset | returned => exact callOwn_of_none rfl rfl

/-- What happens elsewhere does not concern a call, as long as `file_pcb` stays. -/
theorem CallOwn.of_same {ps ps' : Procs} {c : PendingRead} (h : CallOwn ps c)
    (hfile : ps'.filePcb = ps.filePcb) (hops : SameOps (ps.pcbs c.pid) (ps'.pcbs c.pid)) :
    CallOwn ps' c where
  file ha := hfile.trans (h.file (hops.awaits ▸ ha))
  curr := h.curr

/-- Nor does a publication, when the call does not await its PCB or gets it. -/
theorem CallOwn.of_published {ps ps' : Procs} {c : PendingRead} {pid : Nat} (h : CallOwn ps c)
    (hfile : ps'.filePcb = pid) (hops : c.pid ≠ pid → SameOps (ps.pcbs c.pid) (ps'.pcbs c.pid))
    (halone : awaits ps c = true → c.pid = pid) : CallOwn ps' c where
  file ha := by
    by_cases hpid : c.pid = pid
    · exact hfile.trans hpid.symm
    · exact absurd (halone ((hops hpid).awaits ▸ ha)) hpid
  curr := h.curr

/-- `execute` publishes a PCB when it builds one, and builds it in the first free slot. -/
theorem execute_filePcb (img : Image) (fr : Frame) (site : RetSite) (command : Option (List UInt8))
    (k : Kernel) :
    let ps' := (execute img fr site command k).1.procs
    (ps'.filePcb = k.procs.filePcb ∧ ps'.pcbs = k.procs.pcbs) ∨
    ∃ i, firstFree k.procs.slotUsed 0 maxPcbs = some i ∧ ps'.filePcb = i + 1 ∧
      ∀ p, p ≠ i + 1 → ps'.pcbs p = k.procs.pcbs p := by
  unfold execute
  rcases checkProgram img fr command with reenable | prog
  · cases reenable <;> exact Or.inl ⟨rfl, rfl⟩
  · simp only
    rcases hfree : firstFree (cli k).procs.slotUsed 0 maxPcbs with _ | i
    · exact Or.inl ⟨rfl, rfl⟩
    · simp only
      split
      · refine Or.inr ⟨i, hfree, ?_, fun p hp => ?_⟩
        · rw [startProcess_eq]
          rfl
        · rw [startProcess_eq]
          exact Function.update_of_ne hp _ _
      · exact Or.inl ⟨rfl, rfl⟩

/-- One PCB replaced by one with the same descriptors. -/
theorem sameOps_update {pcbs : Nat → Pcb} {pid : Nat} {pcb : Pcb} (h : SameOps (pcbs pid) pcb) (p : Nat) :
    SameOps (pcbs p) (Function.update pcbs pid pcb p) := by
  by_cases hp : p = pid
  · rw [hp, Function.update_self]
    exact h
  · rw [Function.update_of_ne hp]
    exact SameOps.refl _

theorem savePreempted_ops (running : Fin 3) (esp ebp : Nat) (ps : Procs) (p : Nat) :
    SameOps (ps.pcbs p) ((savePreempted running esp ebp ps).pcbs p) := by
  show SameOps _ (Function.update ps.pcbs _ _ p)
  refine sameOps_update ?_ p
  exact ⟨rfl, fun _ => rfl⟩

theorem switchContext_ops (running s : Fin 3) (esp ebp : Nat) (ps : Procs) (p : Nat) :
    SameOps (ps.pcbs p) ((switchContext running s esp ebp ps).pcbs p) := by
  rw [switchContext_eq]
  show SameOps _ (Function.update ps.pcbs _ _ p)
  refine sameOps_update ?_ p
  exact ⟨rfl, fun _ => rfl⟩

/-- So does a tick that starts a terminal; any other one leaves `file_pcb` and the descriptors. -/
theorem scheduler_filePcb (disk : Disk) (esp ebp : Nat) (fr : Frame) (k : Kernel) :
    let ps' := (scheduler disk esp ebp fr k).1.procs
    (ps'.filePcb = k.procs.filePcb ∧ ∀ p, SameOps (k.procs.pcbs p) (ps'.pcbs p)) ∨
    ∃ i, k.procs.status (nextTerm k.schedTerm) = 0 ∧
      firstFree k.procs.slotUsed 0 maxPcbs = some i ∧ ps'.filePcb = i + 1 ∧
      ∀ p, p ≠ i + 1 → SameOps (k.procs.pcbs p) (ps'.pcbs p) := by
  unfold scheduler
  simp only
  split
  · rename_i hstatus
    have hops := savePreempted_ops k.schedTerm esp ebp (openTerminal (nextTerm k.schedTerm) k.procs)
    rcases execute_filePcb disk.img fr .scheduler (some (shellCommand disk .scheduler))
      { k with
        schedTerm := nextTerm k.schedTerm
        con := clear (nextTerm k.schedTerm) k.visibleTerm
          (mapScreen (nextTerm k.schedTerm) k.visibleTerm k.con)
        procs := savePreempted k.schedTerm esp ebp (openTerminal (nextTerm k.schedTerm) k.procs) }
      with ⟨hfile, hpcbs⟩ | ⟨i, hfree, hfile, hpcbs⟩
    · exact Or.inl ⟨hfile, fun p => hpcbs ▸ hops p⟩
    · exact Or.inr ⟨i, hstatus, hfree, hfile, fun p hp => hpcbs p hp ▸ hops p⟩
  · exact Or.inl ⟨rfl, switchContext_ops k.schedTerm (nextTerm k.schedTerm) esp ebp k.procs⟩

theorem openRead_some {call : Option PendingRead} {c : PendingRead} (h : openRead call = some c) :
    call = some c := by
  rcases call with _ | c'
  · cases h
  · simp only [openRead] at h
    split at h
    · cases h
    · exact h

/-- **The step lemma.** -/
theorem RaceInv.step {disk : Disk} {r r' : ReadRace} {e : RaceEvent} (h : RaceInv r)
    (hgood : publishesAlone r e) (hstep : raceStep disk r e = some r') : RaceInv r' := by
  obtain rfl := Option.some.inj hstep
  intro t c' hc'
  cases e with
  | statement fd nullBuf nbytes =>
    simp only [ReadRace.next] at hc' ⊢
    rcases hopen : openRead (r.calls r.kernel.schedTerm) with _ | c
    · rw [hopen] at hc'
      simp only at hc' ⊢
      by_cases ht : t = r.kernel.schedTerm
      · -- a call begins
        rw [ht, Function.update_self] at hc'
        obtain rfl := Option.some.inj hc'
        exact callOwn_of_none rfl rfl
      · rw [Function.update_of_ne ht] at hc'
        exact h t c' hc'
    · have hcall := openRead_some hopen
      rw [hopen] at hc'
      simp only at hc' ⊢
      by_cases ht : t = r.kernel.schedTerm
      · rw [ht, Function.update_self] at hc'
        obtain rfl := Option.some.inj hc'
        exact (h _ c hcall).exec disk.img
      · rw [Function.update_of_ne ht] at hc'
        have hother := h t c' hc'
        rcases execPoint_procs disk.img c r.kernel with ⟨hpoint, hprocs⟩ | ⟨curr, offset, ret, -, hprocs, -⟩ |
          hprocs
        · have hpublished : published r (.statement fd nullBuf nbytes) = some c.pid := by
            obtain ⟨pid, _, _, _, point⟩ := c
            obtain rfl : point = .publish := hpoint
            simp only [published, hopen]
          rw [hprocs]
          exact hother.of_published rfl (fun _ => SameOps.refl _) (hgood _ hpublished t c' hc')
        · rw [hprocs]
          exact hother.of_same rfl (setOffset_same curr c.fd offset r.kernel.procs c'.pid)
        · rw [hprocs]
          exact hother
  | tick esp ebp fr =>
    have hcall : r.calls t = some c' := hc'
    show CallOwn (scheduler disk esp ebp fr r.kernel).1.procs c'
    rcases scheduler_filePcb disk esp ebp fr r.kernel with ⟨hfile, hops⟩ | ⟨i, hstatus, hfree, hfile, hops⟩
    · exact (h t c' hcall).of_same hfile (hops c'.pid)
    · have hpublished : published r (.tick esp ebp fr) = some (i + 1) := by
        simp only [published, hstatus, hfree, if_true, Option.map_some]
      exact (h t c' hcall).of_published hfile (hops c'.pid) (hgood _ hpublished t c' hcall)

theorem RaceInv.changesOwn {r : ReadRace} (h : RaceInv r) (disk : Disk) (e : RaceEvent) :
    changesOwnOnly disk r e := by
  cases e with
  | tick => trivial
  | statement fd nullBuf nbytes =>
    intro c hc p hp
    simp only [ReadRace.next, hc]
    rcases execPoint_procs disk.img c r.kernel with ⟨-, hprocs⟩ | ⟨curr, offset, ret, hcurr, hprocs, -⟩ |
      hprocs
    · rw [hprocs]
      rfl
    · obtain rfl := (h _ c (openRead_some hc)).curr curr hcurr
      rw [hprocs]
      exact Function.update_of_ne hp _ _
    · rw [hprocs]

/-- **Each read accesses its caller's descriptor only**, along every run of reads and ticks in which
    no PCB is published while another process's call awaits its own. -/
theorem reads_own_descriptors (disk : Disk) (k : Kernel) {es : List RaceEvent}
    (h : Along (raceStep disk) publishesAlone (startRace k) es) :
    Throughout (raceStep disk) OwnAccess (startRace k) es ∧
      Along (raceStep disk) (changesOwnOnly disk) (startRace k) es := by
  have hstart : RaceInv (startRace k) := fun s c hc => nomatch hc
  have hstep : ∀ r e r', RaceInv r → publishesAlone r e → raceStep disk r e = some r' → RaceInv r' :=
    fun _ _ _ hr hg hs => hr.step hg hs
  refine ⟨?_, ?_⟩
  · refine throughout_mono (fun r hr s c hc => ?_) (throughout_of_along hstep hstart h)
    exact (hr s c hc).access
  · exact along_of_inv hstep (fun r e hr _ => hr.changesOwn disk e) hstart h

/-- The kernel after boot, with `.` opened as descriptor 2 by the shells of terminals 0 and 1. -/
def openDirs : Kernel :=
  let opened := fun k : Kernel =>
    { k with procs := (sysOpen smallImage k.schedTerm [46] k.procs).1 }
  let ticked := fun k => (scheduler smallDisk 0 0 blankFrame k).1
  ticked (ticked (opened (ticked (opened (boot smallDisk blankMemory blankFrame).1))))

/-- The shell of terminal 0 reads a directory entry, undisturbed, and then that of terminal 1. -/
def readsInTurn : List RaceEvent :=
  List.replicate 12 (.statement 2 false 32) ++ [.tick 0 0 blankFrame] ++
    List.replicate 12 (.statement 2 false 32)

theorem reads_in_turn_are_own :
    Throughout (raceStep smallDisk) OwnAccess (startRace openDirs) readsInTurn ∧
      Along (raceStep smallDisk) (changesOwnOnly smallDisk) (startRace openDirs) readsInTurn :=
  reads_own_descriptors smallDisk openDirs (by decide +kernel)

/-- The shell of terminal 0 publishes its PCB and is preempted; that of terminal 1 publishes its own;
    then the first one goes on. -/
def readsAtOnce : List RaceEvent :=
  [.statement 2 false 32, .statement 2 false 32, .tick 0 0 blankFrame, .statement 2 false 32,
    .statement 2 false 32, .tick 0 0 blankFrame, .tick 0 0 blankFrame] ++
    List.replicate 9 (.statement 2 false 32)

/-- The read of process 1 takes its descriptor from process 2, and advances that one's offset. -/
theorem read_takes_other_descriptor :
    ¬ Throughout (raceStep smallDisk) OwnAccess (startRace openDirs) readsAtOnce ∧
      ¬ Along (raceStep smallDisk) (changesOwnOnly smallDisk) (startRace openDirs)
        (readsAtOnce ++ [.statement 2 false 32]) := by
  have hend : (run (raceStep smallDisk) (startRace openDirs) readsAtOnce).map
      (fun r => ((openRead (r.calls r.kernel.schedTerm)).map fun c =>
          (c.pid, accessed r.kernel.procs c),
        ((r.kernel.procs.pcbs 2).fileDescArr 2).fileOffset,
        (((r.next smallDisk (.statement 2 false 32)).kernel.procs.pcbs 2).fileDescArr 2).fileOffset)) =
      some (some (1, some 2), 0, 1) := by
    decide +kernel
  obtain ⟨r, hr, hfields⟩ := Option.map_eq_some_iff.mp hend
  obtain ⟨hcall, hfields⟩ := Prod.mk.inj hfields
  obtain ⟨hbefore, hafter⟩ := Prod.mk.inj hfields
  obtain ⟨c, hc, hfields⟩ := Option.map_eq_some_iff.mp hcall
  obtain ⟨hpid, haccess⟩ := Prod.mk.inj hfields
  constructor
  · intro h
    have hown : OwnAccess r := throughout_last h hr
    have heq := hown _ c (openRead_some hc) 2 haccess
    rw [hpid] at heq
    exact absurd heq (by decide)
  · intro h
    have hchanges := along_at h hr rfl c hc 2 (by rw [hpid]; decide)
    rw [hchanges, hbefore] at hafter
    exact absurd hafter (by decide)

end ByteVerse
