/-
  The descriptor tables of the processor: the gates of `idt_init.c` and the segments that `entry` adds to the
  table of `x86_desc.S`.

  A gate and a segment descriptor are words of 64 bits, and the kernel assigns their bit-fields one by
  one.  `deliver` is what the processor makes of a vector: it enters at the gate's offset, or faults.  The
  kernel's table is read off in full for any addresses of the routines (`idt_delivers`): a program
  enters the kernel by `int $0x80` only, and each line of the interrupt controllers gets at the routine of
  its device with interrupts off.

  `entry` builds the two segment descriptors in local structures that it does not clear first; it
  assigns every bit of them (`segments_built`).
-/
import ByteVerse.BitFields
import ByteVerse.Words
import Mathlib.Data.List.Nodup
import Mathlib.Logic.Function.Basic

namespace ByteVerse

open BitFields Words

/-! ## The structures of `x86_desc.h` -/

namespace IdtDesc

@[simp] def offset1500 : BitField := ⟨0, 16⟩
@[simp] def segSelector : BitField := ⟨16, 16⟩
@[simp] def reserved4 : BitField := ⟨32, 8⟩
@[simp] def reserved3 : BitField := ⟨40, 1⟩
@[simp] def reserved2 : BitField := ⟨41, 1⟩
@[simp] def reserved1 : BitField := ⟨42, 1⟩
@[simp] def size : BitField := ⟨43, 1⟩
@[simp] def reserved0 : BitField := ⟨44, 1⟩
@[simp] def dpl : BitField := ⟨45, 2⟩
@[simp] def present : BitField := ⟨47, 1⟩
@[simp] def offset3116 : BitField := ⟨48, 16⟩

end IdtDesc

namespace SegDesc

@[simp] def segLim1500 : BitField := ⟨0, 16⟩
@[simp] def base1500 : BitField := ⟨16, 16⟩
@[simp] def base2316 : BitField := ⟨32, 8⟩
@[simp] def type : BitField := ⟨40, 4⟩
@[simp] def sys : BitField := ⟨44, 1⟩
@[simp] def dpl : BitField := ⟨45, 2⟩
@[simp] def present : BitField := ⟨47, 1⟩
@[simp] def segLim1916 : BitField := ⟨48, 4⟩
@[simp] def avail : BitField := ⟨52, 1⟩
@[simp] def reserved : BitField := ⟨53, 1⟩
@[simp] def opsize : BitField := ⟨54, 1⟩
@[simp] def granularity : BitField := ⟨55, 1⟩
@[simp] def base3124 : BitField := ⟨56, 8⟩

end SegDesc

def kernelCs : Nat := 0x0010
def numVec : Nat := 256

/-! ## What the processor makes of a gate -/

/-- Where the processor enters, and whether it takes interrupts there. -/
structure Entry where
  selector : Nat
  offset : Word
  /-- The gate is a trap gate: the interrupt flag stays. -/
  keepsFlag : Bool
  deriving DecidableEq

/-- A vector: the entry, or the vector of the fault.  `cpl` is the privilege level of the program for
    `int $v`, and 0 for a device or an exception, which need no privilege. -/
def deliver (idt : Nat → BitVec 64) (cpl v : Nat) : Except Nat Entry :=
  let gate := idt v
  if ¬ (IdtDesc.reserved0.get gate = 0 ∧ IdtDesc.size.get gate = 1 ∧ IdtDesc.reserved1.get gate = 1 ∧
      IdtDesc.reserved2.get gate = 1) then .error 13
  else if IdtDesc.dpl.get gate < cpl then .error 13
  else if IdtDesc.present.get gate = 0 then .error 11
  else .ok
    { selector := IdtDesc.segSelector.get gate
      offset := BitVec.ofNat 32 (IdtDesc.offset3116.get gate * 2 ^ 16 + IdtDesc.offset1500.get gate)
      keepsFlag := decide (IdtDesc.reserved3.get gate = 1) }

/-! ## `init_idt` -/

/-- The routines of `idtfunctions_asm.S` and `system_call_asm.S` that gates lead to. -/
inductive Stub
  | divideException
  | debugException
  | nmiException
  | breakpointException
  | overflowException
  | boundRangeExceededException
  | invalidOpcodeException
  | deviceNotAvailableException
  | doubleFaultException
  | invalidTssException
  | segmentNotPresentException
  | stackSegFaultException
  | generalProtectionFaultException
  | pageFaultException
  | x87floatingPointException
  | alignmentCheckException
  | machineCheckException
  | simdfpException
  | syscall
  | keyboardHandler
  | rtcHandler
  | pitHandler
  deriving DecidableEq

/-- The calls of `SET_IDT_ENTRY`, in their order. -/
def idtEntries : List (Nat × Stub) :=
  [(0, .divideException), (1, .debugException), (2, .nmiException), (3, .breakpointException),
    (4, .overflowException), (5, .boundRangeExceededException), (6, .invalidOpcodeException),
    (7, .deviceNotAvailableException), (8, .doubleFaultException), (10, .invalidTssException),
    (11, .segmentNotPresentException), (12, .stackSegFaultException),
    (13, .generalProtectionFaultException), (14, .pageFaultException),
    (16, .x87floatingPointException), (17, .alignmentCheckException), (18, .machineCheckException),
    (19, .simdfpException), (0x80, .syscall), (0x21, .keyboardHandler), (0x28, .rtcHandler),
    (0x20, .pitHandler)]

/-- The body of the loop. -/
def initGate (i : Nat) (e : BitVec 64) : BitVec 64 :=
  let e := e |> IdtDesc.segSelector.put kernelCs |> IdtDesc.present.put 0 |> IdtDesc.size.put 1
    |> IdtDesc.reserved1.put 1 |> IdtDesc.reserved2.put 1 |> IdtDesc.reserved3.put 1 |> IdtDesc.dpl.put 0
  let e := if i ≤ 0x1F then e |> IdtDesc.present.put 1 |> IdtDesc.reserved3.put 0 else e
  let e := if i = 0x80 then e |> IdtDesc.dpl.put 3 |> IdtDesc.present.put 1 else e
  if i ≤ 0x2F ∧ i ≥ 0x20 then e |> IdtDesc.reserved3.put 0 |> IdtDesc.present.put 1 else e

def setIdtEntry (handler : Word) (e : BitVec 64) : BitVec 64 :=
  e |> IdtDesc.offset3116.put ((handler &&& 0xFFFF0000) >>> 16).toNat
    |> IdtDesc.offset1500.put (handler &&& 0xFFFF).toNat

def initIdt (address : Stub → Word) (idt : Nat → BitVec 64) : Nat → BitVec 64 :=
  let idt := (List.range numVec).foldl (fun idt i => Function.update idt i (initGate i (idt i))) idt
  idtEntries.foldl (fun idt e => Function.update idt e.1 (setIdtEntry (address e.2) (idt e.1))) idt

/-- The table that `init_idt` finds: `x86_desc.S` has it as zeros. -/
def zeroIdt : Nat → BitVec 64 := fun _ => 0

/-! ## The table afterwards -/

section Table

variable {α β : Type}

theorem foldl_update_notMem {key : β → Nat} {g : β → α → α} (items : List β) (idt : Nat → α) {v : Nat}
    (h : ∀ e ∈ items, key e ≠ v) :
    items.foldl (fun idt e => Function.update idt (key e) (g e (idt (key e)))) idt v = idt v := by
  induction items generalizing idt with
  | nil => rfl
  | cons e items ih =>
    rw [List.foldl_cons, ih _ fun e' he' => h e' (List.mem_cons_of_mem e he')]
    exact Function.update_of_ne (h e List.mem_cons_self).symm _ _

/-- Each entry is written once. -/
theorem foldl_update_mem {key : β → Nat} {g : β → α → α} (items : List β) (idt : Nat → α) {e : β}
    (hnodup : (items.map key).Nodup) (he : e ∈ items) :
    items.foldl (fun idt e => Function.update idt (key e) (g e (idt (key e)))) idt (key e) =
      g e (idt (key e)) := by
  induction items generalizing idt with
  | nil => cases he
  | cons e' items ih =>
    rw [List.map_cons, List.nodup_cons] at hnodup
    rcases List.mem_cons.mp he with rfl | hmem
    · rw [List.foldl_cons, foldl_update_notMem, Function.update_self]
      intro e' he' hkey
      exact hnodup.1 (hkey ▸ List.mem_map_of_mem he')
    · rw [List.foldl_cons, ih _ hnodup.2 hmem, Function.update_of_ne]
      intro hkey
      exact hnodup.1 (hkey ▸ List.mem_map_of_mem hmem)

end Table

section Gates

variable (address : Stub → Word) {v : Nat} {stub : Stub}

/-- The gate after the loop, which takes each in turn. -/
theorem loop_gate (idt : Nat → BitVec 64) (hv : v < numVec) :
    (List.range numVec).foldl (fun idt i => Function.update idt i (initGate i (idt i))) idt v =
      initGate v (idt v) := by
  refine @foldl_update_mem _ _ (fun i => i) initGate (List.range numVec) idt v ?_ (List.mem_range.mpr hv)
  rw [List.map_id']
  exact List.nodup_range

theorem initIdt_entry (h : (v, stub) ∈ idtEntries) :
    initIdt address zeroIdt v = setIdtEntry (address stub) (initGate v 0) := by
  have hlt : ∀ e ∈ idtEntries, e.1 < numVec := by decide
  refine (@foldl_update_mem _ _ Prod.fst (fun e : Nat × Stub => setIdtEntry (address e.2)) idtEntries _
    (v, stub) (by decide) h).trans ?_
  exact congrArg _ (loop_gate zeroIdt (hlt _ h))

theorem initIdt_other (hv : v < numVec) (h : ∀ stub, (v, stub) ∉ idtEntries) :
    initIdt address zeroIdt v = initGate v 0 := by
  refine (@foldl_update_notMem _ _ Prod.fst (fun e : Nat × Stub => setIdtEntry (address e.2)) idtEntries _
    v ?_).trans (loop_gate zeroIdt hv)
  rintro ⟨v', stub⟩ he rfl
  exact h stub he

/-- A part of a word that a mask and a shift take out. -/
theorem toNat_part {x mask : Word} {k n : Nat} (hmask : mask.toNat >>> k = 2 ^ n - 1) :
    ((x &&& mask) >>> k).toNat = x.toNat / 2 ^ k % 2 ^ n := by
  rw [BitVec.toNat_ushiftRight, BitVec.toNat_and, Nat.shiftRight_and_distrib, hmask,
    Nat.and_two_pow_sub_one_eq_mod, Nat.shiftRight_eq_div_pow]

/-- What the processor takes for the offset of a gate. -/
theorem offset_setIdtEntry (handler : Word) (e : BitVec 64) :
    BitVec.ofNat 32 (IdtDesc.offset3116.get (setIdtEntry handler e) * 2 ^ 16 +
      IdtDesc.offset1500.get (setIdtEntry handler e)) = handler := by
  have hhigh : ((handler &&& 0xFFFF0000) >>> 16).toNat = handler.toNat / 2 ^ 16 % 2 ^ 16 :=
    toNat_part (by decide)
  have hlow : ((handler &&& 0xFFFF) >>> 0).toNat = handler.toNat / 2 ^ 0 % 2 ^ 16 := toNat_part (by decide)
  rw [BitVec.ushiftRight_zero, Nat.pow_zero, Nat.div_one] at hlow
  refine BitVec.eq_of_toNat_eq ?_
  rw [setIdtEntry, hhigh, hlow]
  simp (disch := decide) only [IdtDesc.offset3116, IdtDesc.offset1500, get_put_of_apart, get_put_self]
  have := handler.isLt
  rw [BitVec.toNat_ofNat]
  omega

/-- The fields of a gate after the loop, and what is left of it. -/
theorem initGate_fields (v : Nat) (e : BitVec 64) :
    IdtDesc.segSelector.get (initGate v e) = kernelCs ∧ IdtDesc.size.get (initGate v e) = 1 ∧
      IdtDesc.reserved1.get (initGate v e) = 1 ∧ IdtDesc.reserved2.get (initGate v e) = 1 ∧
      IdtDesc.reserved0.get (initGate v e) = IdtDesc.reserved0.get e ∧
      IdtDesc.offset1500.get (initGate v e) = IdtDesc.offset1500.get e ∧
      IdtDesc.offset3116.get (initGate v e) = IdtDesc.offset3116.get e ∧
      IdtDesc.present.get (initGate v e) = (if v ≤ 0x2F ∨ v = 0x80 then 1 else 0) ∧
      IdtDesc.dpl.get (initGate v e) = (if v = 0x80 then 3 else 0) ∧
      IdtDesc.reserved3.get (initGate v e) = (if v ≤ 0x2F then 0 else 1) := by
  have hcases : v ≤ 0x1F ∨ (0x20 ≤ v ∧ v ≤ 0x2F) ∨ v = 0x80 ∨ (0x2F < v ∧ v ≠ 0x80) := by omega
  unfold initGate
  rcases hcases with h | h | rfl | h
  · simp (disch := decide) [h, kernelCs, get_put_of_apart, get_put_self, show ¬ v = 0x80 by omega,
      show v ≤ 0x2F by omega, show ¬ 0x20 ≤ v by omega]
  · simp (disch := decide) [h, kernelCs, get_put_of_apart, get_put_self, show ¬ v = 0x80 by omega,
      show ¬ v ≤ 0x1F by omega]
  · simp (disch := decide) [kernelCs, get_put_of_apart, get_put_self]
  · simp (disch := decide) [h, kernelCs, get_put_of_apart, get_put_self, show ¬ v ≤ 0x1F by omega,
      show ¬ v ≤ 0x2F by omega]

theorem setIdtEntry_fields (handler : Word) (e : BitVec 64) :
    IdtDesc.segSelector.get (setIdtEntry handler e) = IdtDesc.segSelector.get e ∧
      IdtDesc.size.get (setIdtEntry handler e) = IdtDesc.size.get e ∧
      IdtDesc.reserved1.get (setIdtEntry handler e) = IdtDesc.reserved1.get e ∧
      IdtDesc.reserved2.get (setIdtEntry handler e) = IdtDesc.reserved2.get e ∧
      IdtDesc.reserved0.get (setIdtEntry handler e) = IdtDesc.reserved0.get e ∧
      IdtDesc.present.get (setIdtEntry handler e) = IdtDesc.present.get e ∧
      IdtDesc.dpl.get (setIdtEntry handler e) = IdtDesc.dpl.get e ∧
      IdtDesc.reserved3.get (setIdtEntry handler e) = IdtDesc.reserved3.get e := by
  unfold setIdtEntry
  simp (disch := decide) [get_put_of_apart]

/-- The least privilege that `int $v` needs. -/
def gateLevel (v : Nat) : Nat := if v = 0x80 then 3 else 0

/-- A gate that the loop has made, whatever its offset. -/
theorem deliver_gate {idt : Nat → BitVec 64} (cpl : Nat) (offset : Word)
    (hidt : (idt v = initGate v 0 ∧ offset = 0) ∨ idt v = setIdtEntry offset (initGate v 0)) :
    deliver idt cpl v =
      if gateLevel v < cpl then .error 13
      else if 0x2F < v ∧ v ≠ 0x80 then .error 11
      else .ok { selector := kernelCs, offset := offset, keepsFlag := decide (v = 0x80) } := by
  obtain ⟨hcs, hsize, hone, htwo, hzero, hlow, hhigh, hpresent, hdpl, hkind⟩ := initGate_fields v 0
  have hread0 : ∀ f : BitField, f.get (0 : BitVec 64) = 0 := by
    intro f
    simp [BitField.get]
  have hoffset : BitVec.ofNat 32 (IdtDesc.offset3116.get (idt v) * 2 ^ 16 +
      IdtDesc.offset1500.get (idt v)) = offset := by
    rcases hidt with ⟨hv, rfl⟩ | hv
    · rw [hv, hlow, hhigh, hread0, hread0]
      rfl
    · rw [hv, offset_setIdtEntry]
  obtain ⟨hcs', hsize', hone', htwo', hzero', hpresent', hdpl', hkind'⟩ :=
    setIdtEntry_fields offset (initGate v 0)
  have hfields : IdtDesc.segSelector.get (idt v) = kernelCs ∧ IdtDesc.size.get (idt v) = 1 ∧
      IdtDesc.reserved1.get (idt v) = 1 ∧ IdtDesc.reserved2.get (idt v) = 1 ∧
      IdtDesc.reserved0.get (idt v) = 0 ∧
      IdtDesc.present.get (idt v) = (if v ≤ 0x2F ∨ v = 0x80 then 1 else 0) ∧
      IdtDesc.dpl.get (idt v) = gateLevel v ∧
      IdtDesc.reserved3.get (idt v) = (if v ≤ 0x2F then 0 else 1) := by
    rw [hread0] at hzero
    rcases hidt with ⟨hv, -⟩ | hv
    · rw [hv]
      exact ⟨hcs, hsize, hone, htwo, hzero, hpresent, hdpl, hkind⟩
    · rw [hv]
      exact ⟨hcs'.trans hcs, hsize'.trans hsize, hone'.trans hone, htwo'.trans htwo, hzero'.trans hzero,
        hpresent'.trans hpresent, hdpl'.trans hdpl, hkind'.trans hkind⟩
  obtain ⟨hcs, hsize, hone, htwo, hzero, hpresent, hdpl, hkind⟩ := hfields
  rw [deliver, if_neg (not_not.mpr ⟨hzero, hsize, hone, htwo⟩), hdpl, hoffset, hcs, hpresent, hkind]
  by_cases hlevel : gateLevel v < cpl
  · rw [if_pos hlevel, if_pos hlevel]
  · rw [if_neg hlevel, if_neg hlevel]
    have habsent : (if v ≤ 0x2F ∨ v = 0x80 then 1 else 0) = 0 ↔ 0x2F < v ∧ v ≠ 0x80 := by
      split <;> omega
    by_cases hgap : 0x2F < v ∧ v ≠ 0x80
    · rw [if_pos hgap, if_pos (habsent.mpr hgap)]
    · rw [if_neg hgap, if_neg (mt habsent.mp hgap)]
      congr 2
      by_cases h80 : v = 0x80
      · simp [h80]
      · simp [h80, show v ≤ 0x2F by omega]

end Gates

/-- Every vector, for any addresses of the routines: `int $v` of a program gets through its gate for
    0x80 only, and is a protection fault otherwise; exceptions and the lines of the controllers get at
    their routines with interrupts off, those that have no routine at address 0; there is nothing else. -/
theorem idt_delivers (address : Stub → Word) (cpl : Nat) {v : Nat} (hv : v < numVec) :
    deliver (initIdt address zeroIdt) cpl v =
      if gateLevel v < cpl then .error 13
      else if 0x2F < v ∧ v ≠ 0x80 then .error 11
      else .ok
        { selector := kernelCs
          offset := ((idtEntries.lookup v).map address).getD 0
          keepsFlag := decide (v = 0x80) } := by
  refine deliver_gate cpl _ ?_
  rcases hstub : idtEntries.lookup v with _ | stub
  · refine .inl ⟨initIdt_other address hv fun stub hmem => ?_, rfl⟩
    rw [List.lookup_eq_none_iff] at hstub
    exact absurd (hstub _ hmem) (by simp)
  · obtain ⟨before, after, hsplit, -⟩ := List.lookup_eq_some_iff.mp hstub
    exact .inr (initIdt_entry address (hsplit ▸ List.mem_append_right before List.mem_cons_self))

/-- A program's `int $0x80`, and its try at the keyboard's vector. -/
theorem idt_delivers_program :
    deliver (initIdt (fun _ => 0x400000) zeroIdt) 3 0x80 = .ok ⟨0x10, 0x400000, true⟩ ∧
      deliver (initIdt (fun _ => 0x400000) zeroIdt) 3 0x21 = .error 13 :=
  ⟨idt_delivers _ 3 (by decide), idt_delivers _ 3 (by decide)⟩

/-! ## The segments that `entry` adds -/

/-- `SET_LDT_PARAMS`, and `SET_TSS_PARAMS`, which is the same. -/
def setSegParams (addr lim : Word) (str : BitVec 64) : BitVec 64 :=
  str |> SegDesc.base3124.put ((addr &&& 0xFF000000) >>> 24).toNat
    |> SegDesc.base2316.put ((addr &&& 0x00FF0000) >>> 16).toNat
    |> SegDesc.base1500.put (addr &&& 0x0000FFFF).toNat
    |> SegDesc.segLim1916.put ((lim &&& 0x000F0000) >>> 16).toNat
    |> SegDesc.segLim1500.put (lim &&& 0x0000FFFF).toNat

def tssSize : Nat := 104

/-- `the_ldt_desc`, of which `garbage` is what its place on the stack held. -/
def ldtDescriptor (ldt ldtSize : Word) (garbage : BitVec 64) : BitVec 64 :=
  garbage |> SegDesc.granularity.put 0 |> SegDesc.opsize.put 1 |> SegDesc.reserved.put 0
    |> SegDesc.avail.put 0 |> SegDesc.present.put 1 |> SegDesc.dpl.put 0 |> SegDesc.sys.put 0
    |> SegDesc.type.put 0x2 |> setSegParams ldt ldtSize

/-- `the_tss_desc`. -/
def tssDescriptor (tss tssLimit : Word) (garbage : BitVec 64) : BitVec 64 :=
  garbage |> SegDesc.granularity.put 0 |> SegDesc.opsize.put 0 |> SegDesc.reserved.put 0
    |> SegDesc.avail.put 0 |> SegDesc.segLim1916.put (tssSize &&& 0x000F0000) |> SegDesc.present.put 1
    |> SegDesc.dpl.put 0 |> SegDesc.sys.put 0 |> SegDesc.type.put 0x9
    |> SegDesc.segLim1500.put (tssSize &&& 0x0000FFFF) |> setSegParams tss tssLimit

/-- What the processor takes from the descriptor of a system segment. -/
structure SystemSegment where
  type : Nat
  base : Word
  /-- The offset of the last byte. -/
  limit : Nat
  dpl : Nat
  deriving DecidableEq

/-- `none`: not present, or not of a system segment. -/
def loadSegment (x : BitVec 64) : Option SystemSegment :=
  if SegDesc.present.get x = 1 ∧ SegDesc.sys.get x = 0 then
    let limit := SegDesc.segLim1916.get x * 2 ^ 16 + SegDesc.segLim1500.get x
    some
      { type := SegDesc.type.get x
        base := BitVec.ofNat 32
          (SegDesc.base3124.get x * 2 ^ 24 + SegDesc.base2316.get x * 2 ^ 16 + SegDesc.base1500.get x)
        limit := if SegDesc.granularity.get x = 1 then limit * 4096 + 4095 else limit
        dpl := SegDesc.dpl.get x }
  else none

section Segments

variable (addr lim : Word) (x : BitVec 64)

/-- The fields that `SET_LDT_PARAMS` leaves. -/
def flagFields : List BitField :=
  [SegDesc.type, SegDesc.sys, SegDesc.dpl, SegDesc.present, SegDesc.avail, SegDesc.reserved,
    SegDesc.opsize, SegDesc.granularity]

theorem flags_setSegParams {f : BitField} (hf : f ∈ flagFields) :
    f.get (setSegParams addr lim x) = f.get x := by
  simp only [flagFields, List.mem_cons, List.not_mem_nil, or_false] at hf
  rcases hf with rfl | rfl | rfl | rfl | rfl | rfl | rfl | rfl <;>
    simp (disch := decide) [setSegParams, get_put_of_apart]

/-- The parts of the base and the limit. -/
theorem params_setSegParams :
    SegDesc.base3124.get (setSegParams addr lim x) = addr.toNat / 2 ^ 24 % 2 ^ 8 ∧
      SegDesc.base2316.get (setSegParams addr lim x) = addr.toNat / 2 ^ 16 % 2 ^ 8 ∧
      SegDesc.base1500.get (setSegParams addr lim x) = addr.toNat % 2 ^ 16 ∧
      SegDesc.segLim1916.get (setSegParams addr lim x) = lim.toNat / 2 ^ 16 % 2 ^ 4 ∧
      SegDesc.segLim1500.get (setSegParams addr lim x) = lim.toNat % 2 ^ 16 := by
  have hlow : ∀ y : Word, (y &&& 0x0000FFFF).toNat = y.toNat % 2 ^ 16 := fun y =>
    Nat.and_two_pow_sub_one_eq_mod y.toNat 16
  have h24 : ((addr &&& 0xFF000000) >>> 24).toNat = addr.toNat / 2 ^ 24 % 2 ^ 8 := toNat_part (by decide)
  have h16 : ((addr &&& 0x00FF0000) >>> 16).toNat = addr.toNat / 2 ^ 16 % 2 ^ 8 := toNat_part (by decide)
  have hlim : ((lim &&& 0x000F0000) >>> 16).toNat = lim.toNat / 2 ^ 16 % 2 ^ 4 := toNat_part (by decide)
  rw [setSegParams, h24, h16, hlim, hlow, hlow]
  simp (disch := decide) [get_put_of_apart, get_put_self]

theorem base_parts : BitVec.ofNat 32 (addr.toNat / 2 ^ 24 % 2 ^ 8 * 2 ^ 24 +
    addr.toNat / 2 ^ 16 % 2 ^ 8 * 2 ^ 16 + addr.toNat % 2 ^ 16) = addr := by
  refine BitVec.eq_of_toNat_eq ?_
  have := addr.isLt
  rw [BitVec.toNat_ofNat]
  omega

/-- The segment that a descriptor with its parameters set is. -/
theorem load_setSegParams (hpresent : SegDesc.present.get x = 1) (hsys : SegDesc.sys.get x = 0)
    (hgran : SegDesc.granularity.get x = 0) :
    loadSegment (setSegParams addr lim x) =
      some ⟨SegDesc.type.get x, addr, lim.toNat % 2 ^ 20, SegDesc.dpl.get x⟩ := by
  have hflag : ∀ f ∈ flagFields, f.get (setSegParams addr lim x) = f.get x := fun f hf =>
    flags_setSegParams addr lim x hf
  obtain ⟨h31, h23, h15, hhigh, hlow⟩ := params_setSegParams addr lim x
  rw [loadSegment, hflag _ (by decide), hflag _ (by decide), hflag SegDesc.type (by decide),
    hflag SegDesc.granularity (by decide), hflag SegDesc.dpl (by decide), h31, h23, h15, hhigh, hlow,
    base_parts, if_pos ⟨hpresent, hsys⟩, hgran]
  simp only [Nat.zero_ne_one, if_false]
  congr 2
  omega

/-- Two descriptors with the same flags and parameters. -/
theorem setSegParams_congr {y : BitVec 64} (h : ∀ f ∈ flagFields, f.get x = f.get y) :
    setSegParams addr lim x = setSegParams addr lim y := by
  refine eq_of_layout (flagFields ++ [SegDesc.base3124, SegDesc.base2316, SegDesc.base1500,
    SegDesc.segLim1916, SegDesc.segLim1500]) (by decide) fun f hf => ?_
  obtain ⟨h31, h23, h15, hhigh, hlow⟩ := params_setSegParams addr lim x
  obtain ⟨h31', h23', h15', hhigh', hlow'⟩ := params_setSegParams addr lim y
  rcases List.mem_append.mp hf with hflag | hparam
  · rw [flags_setSegParams _ _ _ hflag, flags_setSegParams _ _ _ hflag, h f hflag]
  · simp only [List.mem_cons, List.not_mem_nil, or_false] at hparam
    rcases hparam with rfl | rfl | rfl | rfl | rfl
    · rw [h31, h31']
    · rw [h23, h23']
    · rw [h15, h15']
    · rw [hhigh, hhigh']
    · rw [hlow, hlow']

end Segments

/-- The two descriptors that `entry` copies into the table, whatever its stack held before: not a bit
    of it gets there, and the processor loads a local table and a free task segment of the kernel at
    the given addresses with the given limits. -/
theorem segments_built (ldt ldtSize tss tssLimit : Word) (garbage : BitVec 64) :
    (ldtDescriptor ldt ldtSize garbage = ldtDescriptor ldt ldtSize 0 ∧
      loadSegment (ldtDescriptor ldt ldtSize garbage) = some ⟨0x2, ldt, ldtSize.toNat % 2 ^ 20, 0⟩) ∧
    tssDescriptor tss tssLimit garbage = tssDescriptor tss tssLimit 0 ∧
      loadSegment (tssDescriptor tss tssLimit garbage) = some ⟨0x9, tss, tssLimit.toNat % 2 ^ 20, 0⟩ := by
  refine ⟨⟨setSegParams_congr _ _ _ fun f hf => ?_, ?_⟩, setSegParams_congr _ _ _ fun f hf => ?_, ?_⟩
  · simp only [flagFields, List.mem_cons, List.not_mem_nil, or_false] at hf
    rcases hf with rfl | rfl | rfl | rfl | rfl | rfl | rfl | rfl <;>
      simp (disch := decide) [get_put_of_apart, get_put_self]
  · refine (load_setSegParams _ _ _ ?_ ?_ ?_).trans ?_ <;>
      simp (disch := decide) [get_put_of_apart, get_put_self]
  · simp only [flagFields, List.mem_cons, List.not_mem_nil, or_false] at hf
    rcases hf with rfl | rfl | rfl | rfl | rfl | rfl | rfl | rfl <;>
      simp (disch := decide) [get_put_of_apart, get_put_self]
  · refine (load_setSegParams _ _ _ ?_ ?_ ?_).trans ?_ <;>
      simp (disch := decide) [get_put_of_apart, get_put_self]

end ByteVerse
