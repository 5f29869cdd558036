/-
  Routines of x86 string instructions, over arbitrary labels and memories.

  A routine is labelled blocks of instructions, one behind the other; it ends behind the last one.  Memory
  is any type of places, and a segment and an offset lead to one of them (`place`), so that two pages
  may be mapped to the same frame.  The string instructions store through ES and all others
  through DS.  `Reaches` is what holds at a routine's end, with one rule for an instruction and one for a jump.

  What the loops of such routines have in common stands at the front: `StoredRow` is the memory after the first
  `k` of a row of stores, in any order of places.
-/
import ByteVerse.X86
import Mathlib.Logic.Function.Iterate

set_option linter.unusedVariables false

namespace ByteVerse.StringAsm

open Words X86

/-! ## A row of stores -/

section Stores

variable {P β : Type}

/-- The stores of `val i` to `dst i`, for `i` below `k`, make `m'` of `m`. -/
structure StoredRow (m m' : P → β) (dst : Nat → P) (val : Nat → β) (k : Nat) : Prop where
  stored : ∀ i < k, m' (dst i) = val i
  frame : ∀ p, (∀ i < k, p ≠ dst i) → m' p = m p

/-- Two stores to one place store the same. -/
def StoresAgree (dst : Nat → P) (val : Nat → β) (n : Nat) : Prop :=
  ∀ i < n, ∀ j < n, dst i = dst j → val i = val j

/-- The stores of `bs`, to one place after the other. -/
def storeBytes [DecidableEq P] : (Nat → P) → List β → (P → β) → P → β
  | _, [], m => m
  | dst, b :: bs, m => storeBytes (fun i => dst (i + 1)) bs (Function.update m (dst 0) b)

variable {m m' : P → β} {dst : Nat → P} {val : Nat → β} {k n : Nat}

theorem StoredRow.zero (m : P → β) (dst : Nat → P) (val : Nat → β) : StoredRow m m dst val 0 :=
  ⟨fun i hi => absurd hi (Nat.not_lt_zero i), fun _ _ => rfl⟩

variable [DecidableEq P]

theorem StoredRow.succ (h : StoredRow m m' dst val k) (hagree : StoresAgree dst val n) (hk : k < n) :
    StoredRow m (Function.update m' (dst k) (val k)) dst val (k + 1) := by
  constructor
  · intro i hi
    -- a place stored to twice holds what both stores agree on
    by_cases hplace : dst i = dst k
    · rw [hplace, Function.update_self, hagree i (by omega) k hk hplace]
    · have hne : i ≠ k := fun heq => hplace (congrArg dst heq)
      rw [Function.update_of_ne hplace, h.stored i (by omega)]
  · intro p hp
    rw [Function.update_of_ne (hp k (Nat.lt_succ_self k))]
    exact h.frame p fun i hi => hp i (by omega)

theorem StoredRow.storeBytes (hagree : StoresAgree dst val n) {bs : List β} :
    ∀ {k : Nat} {m' : P → β}, StoredRow m m' dst val k → k + bs.length ≤ n →
      (∀ i, (hi : i < bs.length) → bs[i] = val (k + i)) →
      StoredRow m (storeBytes (fun i => dst (k + i)) bs m') dst val (k + bs.length) := by
  induction bs with
  | nil =>
    intro k m' h _ _
    exact h
  | cons b bs ih =>
    intro k m' h hle hval
    rw [List.length_cons] at hle
    have hfirst : b = val k := hval 0 (Nat.zero_lt_succ _)
    have hnext := h.succ hagree (show k < n by omega)
    rw [← hfirst] at hnext
    have hrest := ih hnext (by omega) fun i hi => by
      have hi' := hval (i + 1) (Nat.succ_lt_succ hi)
      rw [List.getElem_cons_succ] at hi'
      rw [hi', Nat.add_right_comm, Nat.add_assoc]
    rw [List.length_cons, show k + (bs.length + 1) = k + 1 + bs.length by omega]
    have hplaces : (fun i => dst (k + (i + 1))) = fun i => dst (k + 1 + i) := by
      funext i
      rw [show k + (i + 1) = k + 1 + i by omega]
    show StoredRow m (StringAsm.storeBytes (fun i => dst (k + (i + 1))) bs (Function.update m' (dst k) b)) dst val _
    rw [hplaces]
    exact hrest

end Stores

/-! ## The instructions -/

structure State (P : Type) where
  regs : Reg → Word
  ds : BitVec 16
  es : BitVec 16
  zf : Bool
  cf : Bool
  df : Bool
  mem : P → BitVec 8

/-- The instructions, with their operands in the order of the assembler: `testl %q, %r`,
    `movb (%q), %al`, `movb %al, (%r)`, `leal -1(%base, %index), %r`, `movw %ds, %dx`, `movw %dx, %es`.
    `repStos` and `repMovs` are `rep stos` and `rep movs` of units of `size` bytes. -/
inductive Instr (L : Type)
  | testl (q r : Reg)
  | testImm (imm : Word) (r : Reg)
  | cmpl (q r : Reg)
  | jz (target : L)
  | jae (target : L)
  | jmp (target : L)
  | loadb (q : Reg)
  | storeb (r : Reg)
  | addl (imm : Word) (r : Reg)
  | subl (imm : Word) (r : Reg)
  | andl (imm : Word) (r : Reg)
  | shrl (n : Nat) (r : Reg)
  | movl (q r : Reg)
  | leal (base index r : Reg)
  | movDsDx
  | movDxEs
  | cld
  | std
  | repStos (size : Nat)
  | repMovs (size : Nat)

section Steps

variable {P L : Type}

def State.set (r : Reg) (w : Word) (s : State P) : State P := { s with regs := Function.update s.regs r w }

def State.flags (zf cf : Bool) (s : State P) : State P := { s with zf := zf, cf := cf }

@[simp] theorem State.set_self (r : Reg) (w : Word) (s : State P) : (s.set r w).regs r = w := by
  simp [State.set]

@[simp] theorem State.set_of_ne {q r : Reg} (h : q ≠ r) (w : Word) (s : State P) :
    (s.set r w).regs q = s.regs q := by
  simp [State.set, h]

@[simp] theorem State.set_mem (r : Reg) (w : Word) (s : State P) : (s.set r w).mem = s.mem := rfl

@[simp] theorem State.set_ds (r : Reg) (w : Word) (s : State P) : (s.set r w).ds = s.ds := rfl

@[simp] theorem State.set_es (r : Reg) (w : Word) (s : State P) : (s.set r w).es = s.es := rfl

@[simp] theorem State.set_df (r : Reg) (w : Word) (s : State P) : (s.set r w).df = s.df := rfl

/-- The word with another lowest byte. -/
def setByte (w : Word) (b : BitVec 8) : Word := w.extractLsb' 8 24 ++ b

@[simp] theorem byte_setByte (w : Word) (b : BitVec 8) : byte (setByte w b) 0 = b := by
  rw [byte, setByte]
  ext i hi
  simp only [BitVec.getElem_extractLsb', Nat.mul_zero, Nat.zero_add, BitVec.getLsbD_append]
  rw [if_pos hi, BitVec.getLsbD_eq_getElem hi]

/-- How far a string instruction moves on. -/
def stride (size : Nat) (s : State P) : Word := if s.df then -BitVec.ofNat 32 size else BitVec.ofNat 32 size

variable [DecidableEq P] (place : BitVec 16 → Word → P)

def stosOnce (size : Nat) (s : State P) : State P :=
  { (s.set .edi (s.regs .edi + stride size s)).set .ecx (s.regs .ecx - 1) with
    mem := storeBytes (fun i => place s.es (s.regs .edi + BitVec.ofNat 32 i))
      ((List.range size).map fun i => byte (s.regs .eax) i) s.mem }

def movsOnce (size : Nat) (s : State P) : State P :=
  { ((s.set .edi (s.regs .edi + stride size s)).set .esi (s.regs .esi + stride size s)).set .ecx
      (s.regs .ecx - 1) with
    mem := storeBytes (fun i => place s.es (s.regs .edi + BitVec.ofNat 32 i))
      ((List.range size).map fun i => s.mem (place s.ds (s.regs .esi + BitVec.ofNat 32 i))) s.mem }

section Units

variable (size : Nat) (s : State P)

@[simp] theorem stosOnce_edi : (stosOnce place size s).regs .edi = s.regs .edi + stride size s := by
  simp [stosOnce]

@[simp] theorem stosOnce_ecx : (stosOnce place size s).regs .ecx = s.regs .ecx - 1 := by
  simp [stosOnce]

@[simp] theorem stosOnce_eax : (stosOnce place size s).regs .eax = s.regs .eax := by
  simp [stosOnce]

@[simp] theorem stosOnce_edx : (stosOnce place size s).regs .edx = s.regs .edx := by
  simp [stosOnce]

@[simp] theorem stosOnce_ds : (stosOnce place size s).ds = s.ds := rfl

@[simp] theorem stosOnce_es : (stosOnce place size s).es = s.es := rfl

@[simp] theorem stosOnce_df : (stosOnce place size s).df = s.df := rfl

theorem stosOnce_mem : (stosOnce place size s).mem =
    storeBytes (fun i => place s.es (s.regs .edi + BitVec.ofNat 32 i))
      ((List.range size).map fun i => byte (s.regs .eax) i) s.mem := rfl

@[simp] theorem movsOnce_edi : (movsOnce place size s).regs .edi = s.regs .edi + stride size s := by
  simp [movsOnce]

@[simp] theorem movsOnce_esi : (movsOnce place size s).regs .esi = s.regs .esi + stride size s := by
  simp [movsOnce]

@[simp] theorem movsOnce_ecx : (movsOnce place size s).regs .ecx = s.regs .ecx - 1 := by
  simp [movsOnce]

@[simp] theorem movsOnce_edx : (movsOnce place size s).regs .edx = s.regs .edx := by
  simp [movsOnce]

@[simp] theorem movsOnce_ds : (movsOnce place size s).ds = s.ds := rfl

@[simp] theorem movsOnce_es : (movsOnce place size s).es = s.es := rfl

@[simp] theorem movsOnce_df : (movsOnce place size s).df = s.df := rfl

theorem movsOnce_mem : (movsOnce place size s).mem =
    storeBytes (fun i => place s.es (s.regs .edi + BitVec.ofNat 32 i))
      ((List.range size).map fun i => s.mem (place s.ds (s.regs .esi + BitVec.ofNat 32 i))) s.mem := rfl

end Units

/-- One instruction: the state behind it, and where it jumps to. -/
def step (i : Instr L) (s : State P) : State P × Option L :=
  match i with
  | .testl q r => (s.flags (s.regs r &&& s.regs q == 0) false, none)
  | .testImm imm r => (s.flags (s.regs r &&& imm == 0) false, none)
  | .cmpl q r => (s.flags (s.regs r - s.regs q == 0) ((s.regs r).ult (s.regs q)), none)
  | .jz l => (s, if s.zf then some l else none)
  | .jae l => (s, if s.cf then none else some l)
  | .jmp l => (s, some l)
  | .loadb q => (s.set .eax (setByte (s.regs .eax) (s.mem (place s.ds (s.regs q)))), none)
  | .storeb r => ({ s with mem := Function.update s.mem (place s.ds (s.regs r)) (byte (s.regs .eax) 0) }, none)
  | .addl imm r =>
    ((s.set r (s.regs r + imm)).flags (s.regs r + imm == 0) (BitVec.uaddOverflow (s.regs r) imm), none)
  | .subl imm r => ((s.set r (s.regs r - imm)).flags (s.regs r - imm == 0) ((s.regs r).ult imm), none)
  | .andl imm r => ((s.set r (s.regs r &&& imm)).flags (s.regs r &&& imm == 0) false, none)
  | .shrl n r =>
    ((s.set r (s.regs r >>> n)).flags (s.regs r >>> n == 0) ((s.regs r).getLsbD (n - 1)), none)
  | .movl q r => (s.set r (s.regs q), none)
  | .leal base index r => (s.set r (s.regs base + s.regs index - 1), none)
  | .movDsDx => (s.set .edx ((s.regs .edx).extractLsb' 16 16 ++ s.ds), none)
  | .movDxEs => ({ s with es := (s.regs .edx).extractLsb' 0 16 }, none)
  | .cld => ({ s with df := false }, none)
  | .std => ({ s with df := true }, none)
  | .repStos size => ((stosOnce place size)^[(s.regs .ecx).toNat] s, none)
  | .repMovs size => ((movsOnce place size)^[(s.regs .ecx).toNat] s, none)

/-! ## Routines -/

variable [DecidableEq L]

/-- The instructions from a label on. -/
def codeFrom (text : List (L × List (Instr L))) (l : L) : List (Instr L) :=
  (text.dropWhile fun b => decide (b.1 ≠ l)).flatMap Prod.snd

/-- Runs the instructions `is` of a routine, and what they jump to, to the end. -/
def exec (text : List (L × List (Instr L))) : Nat → List (Instr L) → State P → Option (State P)
  | _, [], s => some s
  | 0, _ :: _, _ => none  -- out of fuel, before the end
  | n + 1, i :: is, s =>
    match step place i s with
    | (s, none) => exec text n is s
    | (s, some l) => exec text n (codeFrom text l) s

/-- The routine ends from here, in a state that `Q` holds of. -/
def Reaches (text : List (L × List (Instr L))) (is : List (Instr L)) (s : State P) (Q : State P → Prop) : Prop :=
  ∃ n s', exec place text n is s = some s' ∧ Q s'

variable {place} {text : List (L × List (Instr L))} {i : Instr L} {is : List (Instr L)} {s s' : State P}
  {Q : State P → Prop} {l : L}

theorem Reaches.mono {Q' : State P → Prop} (h : Reaches place text is s Q) (hQ : ∀ s, Q s → Q' s) :
    Reaches place text is s Q' := by
  obtain ⟨n, s', hexec, hs'⟩ := h
  exact ⟨n, s', hexec, hQ s' hs'⟩

theorem reaches_end (h : Q s) : Reaches place text [] s Q := ⟨0, s, rfl, h⟩

theorem reaches_step (hstep : step place i s = (s', none)) (h : Reaches place text is s' Q) :
    Reaches place text (i :: is) s Q := by
  obtain ⟨n, s'', hexec, hQ⟩ := h
  refine ⟨n + 1, s'', ?_, hQ⟩
  rw [exec, hstep]
  exact hexec

theorem reaches_jump (hstep : step place i s = (s', some l)) (h : Reaches place text (codeFrom text l) s' Q) :
    Reaches place text (i :: is) s Q := by
  obtain ⟨n, s'', hexec, hQ⟩ := h
  refine ⟨n + 1, s'', ?_, hQ⟩
  rw [exec, hstep]
  exact hexec

theorem reaches_jmp (h : Reaches place text (codeFrom text l) s Q) : Reaches place text (.jmp l :: is) s Q :=
  reaches_jump rfl h

theorem reaches_jz (hzero : s.zf = true) (h : Reaches place text (codeFrom text l) s Q) :
    Reaches place text (.jz l :: is) s Q :=
  reaches_jump (congrArg (Prod.mk s) (if_pos hzero)) h

theorem reaches_jz_not (hzero : s.zf = false) (h : Reaches place text is s Q) :
    Reaches place text (.jz l :: is) s Q :=
  reaches_step (congrArg (Prod.mk s) (if_neg (by rw [hzero]; exact Bool.false_ne_true))) h

theorem reaches_jae (hcarry : s.cf = false) (h : Reaches place text (codeFrom text l) s Q) :
    Reaches place text (.jae l :: is) s Q :=
  reaches_jump (congrArg (Prod.mk s) (if_neg (by rw [hcarry]; exact Bool.false_ne_true))) h

theorem reaches_jae_not (hcarry : s.cf = true) (h : Reaches place text is s Q) :
    Reaches place text (.jae l :: is) s Q :=
  reaches_step (congrArg (Prod.mk s) (if_pos hcarry)) h

/-! ### Counting down -/

/-- `testl %r, %r` and `jz`, with nothing left to count. -/
theorem reaches_test_zero {r : Reg} (hr : s.regs r = BitVec.ofNat 32 0)
    (h : Reaches place text (codeFrom text l) (s.flags true false) Q) :
    Reaches place text (.testl r r :: .jz l :: is) s Q := by
  have hzero : (s.regs r &&& s.regs r == 0) = true := by
    rw [hr]
    rfl
  refine reaches_step rfl (reaches_jz hzero ?_)
  rw [hzero]
  exact h

/-- `testl %r, %r` and `jz`, with more to count. -/
theorem reaches_test_succ {r : Reg} {n : Nat} (hn : n + 1 < 2 ^ 32) (hr : s.regs r = BitVec.ofNat 32 (n + 1))
    (h : Reaches place text is (s.flags false false) Q) : Reaches place text (.testl r r :: .jz l :: is) s Q := by
  have hzero : (s.regs r &&& s.regs r == 0) = false := by
    rw [hr, BitVec.and_self, beq_eq_false_iff_ne]
    intro heq
    bv_omega
  refine reaches_step rfl (reaches_jz_not hzero ?_)
  rw [hzero]
  exact h

theorem ofNat_succ_sub_one (n : Nat) : BitVec.ofNat 32 (n + 1) - 1 = BitVec.ofNat 32 n := by
  rw [BitVec.ofNat_add]
  exact BitVec.add_sub_cancel _ _

end Steps

/-! ## Rows of bytes -/

section Rows

variable {P : Type}

/-- The places of the bytes from an offset on. -/
def row (place : BitVec 16 → Word → P) (seg : BitVec 16) (a : Word) (i : Nat) : P :=
  place seg (a + BitVec.ofNat 32 i)

theorem add_ofNat_add (a : Word) (k i : Nat) :
    a + BitVec.ofNat 32 k + BitVec.ofNat 32 i = a + BitVec.ofNat 32 (k + i) := by
  rw [BitVec.ofNat_add, BitVec.add_assoc]

/-- What a step keeps, its repetitions keep. -/
theorem iterate_keeps {γ : Type} {f : State P → State P} {g : State P → γ} (h : ∀ s, g (f s) = g s) (n : Nat)
    (s : State P) : g (f^[n] s) = g s := by
  induction n generalizing s with
  | zero => rfl
  | succ n ih => rw [Function.iterate_succ_apply, ih, h]

/-- A row is being stored to: `k` bytes of `val` stand from `d` on. -/
structure Filling (place : BitVec 16 → Word → P) (seg : BitVec 16) (d : Word) (val : Nat → BitVec 8)
    (m : P → BitVec 8) (k : Nat) (s : State P) : Prop where
  ds : s.ds = seg
  edi : s.regs .edi = d + BitVec.ofNat 32 k
  stored : StoredRow m s.mem (row place seg d) val k

/-- A row is being copied: the next byte stored is the next one behind `a`. -/
structure Copying (place : BitVec 16 → Word → P) (seg : BitVec 16) (d a : Word) (m : P → BitVec 8) (k : Nat)
    (s : State P) : Prop extends Filling place seg d (fun i => m (row place seg a i)) m k s where
  esi : s.regs .esi = a + BitVec.ofNat 32 k

theorem Copying.flags {place : BitVec 16 → Word → P} {seg : BitVec 16} {d a : Word} {m : P → BitVec 8} {k : Nat}
    {s : State P} (h : Copying place seg d a m k s) (zf cf : Bool) : Copying place seg d a m k (s.flags zf cf) :=
  ⟨⟨h.ds, h.edi, h.stored⟩, h.esi⟩

/-- No byte of the row is stored over before it is read, if the bytes are taken one after the other. -/
def ForwardSafe (dst src : Nat → P) (n : Nat) : Prop := ∀ j < n, ∀ i < j, src j ≠ dst i

variable [DecidableEq P] {place : BitVec 16 → Word → P} {seg : BitVec 16} {d a : Word} {m : P → BitVec 8}
  {k n size : Nat} {s : State P}

/-- One byte. -/
theorem Filling.byte {val : Nat → BitVec 8} (h : Filling place seg d val m k s)
    (hagree : StoresAgree (row place seg d) val n) (hk : k < n) {s' : State P} (hds : s'.ds = s.ds)
    (hedi : s'.regs .edi = s.regs .edi + 1)
    (hmem : s'.mem = Function.update s.mem (place s.ds (s.regs .edi)) (val k)) :
    Filling place seg d val m (k + 1) s' where
  ds := hds.trans h.ds
  edi := by
    rw [hedi, h.edi]
    exact add_ofNat_add d k 1
  stored := by
    rw [hmem, h.ds, h.edi]
    exact h.stored.succ hagree hk

/-- One unit of a string instruction. -/
theorem storedRow_unit {m' : P → BitVec 8} {val u : Nat → BitVec 8} (h : StoredRow m m' (row place seg d) val k)
    (hagree : StoresAgree (row place seg d) val n) (hk : k + size ≤ n) (hu : ∀ i < size, u i = val (k + i)) :
    StoredRow m (storeBytes (fun i => place seg (d + BitVec.ofNat 32 k + BitVec.ofNat 32 i))
      ((List.range size).map u) m') (row place seg d) val (k + size) := by
  have hlen : ((List.range size).map u).length = size := by
    rw [List.length_map, List.length_range]
  have hplaces : (fun i => place seg (d + BitVec.ofNat 32 k + BitVec.ofNat 32 i)) =
      fun i => row place seg d (k + i) := by
    funext i
    rw [add_ofNat_add]
    rfl
  have hstored := h.storeBytes hagree (by rw [hlen]; exact hk) fun i hi => by
    rw [hlen] at hi
    rw [List.getElem_map, List.getElem_range]
    exact hu i hi
  rw [hlen] at hstored
  rw [hplaces]
  exact hstored

/-- One unit of `stos`. -/
theorem Filling.stos {val : Nat → BitVec 8} (h : Filling place seg d val m k s) (hes : s.es = seg)
    (hdf : s.df = false) (hagree : StoresAgree (row place seg d) val n) (hk : k + size ≤ n)
    (hval : ∀ i < size, Words.byte (s.regs .eax) i = val (k + i)) :
    Filling place seg d val m (k + size) (stosOnce place size s) where
  ds := h.ds
  edi := by
    rw [stosOnce_edi, stride, hdf, if_neg Bool.false_ne_true, h.edi]
    exact add_ofNat_add d k size
  stored := by
    rw [stosOnce_mem, hes, h.edi]
    exact storedRow_unit h.stored hagree hk hval

/-- `rep stos`. -/
theorem Filling.repStos {val : Nat → BitVec 8} (hagree : StoresAgree (row place seg d) val n) (size c : Nat) :
    ∀ {k : Nat} {s : State P}, Filling place seg d val m k s → s.es = seg → s.df = false →
      (∀ j < c, ∀ i < size, Words.byte (s.regs .eax) i = val (k + (size * j + i))) → k + size * c ≤ n →
      Filling place seg d val m (k + size * c) ((stosOnce place size)^[c] s) := by
  induction c with
  | zero =>
    intro k s h _ _ _ _
    exact h
  | succ c ih =>
    intro k s h hes hdf hval hle
    rw [Nat.mul_succ] at hle
    have hfirst := h.stos hes hdf hagree (show k + size ≤ n by omega) fun i hi => by
      have hbyte := hval 0 (Nat.zero_lt_succ _) i hi
      rwa [Nat.mul_zero, Nat.zero_add] at hbyte
    have hrest := ih hfirst (by rw [stosOnce_es, hes]) (by rw [stosOnce_df, hdf]) (fun j hj i hi => by
      have hbyte := hval (j + 1) (Nat.succ_lt_succ hj) i hi
      rw [stosOnce_eax, hbyte, Nat.mul_succ, show k + (size * j + size + i) = k + size + (size * j + i) by omega])
      (by omega)
    rw [Function.iterate_succ_apply, Nat.mul_succ, show k + (size * c + size) = k + size + size * c by omega]
    exact hrest

/-- One byte of a copy. -/
theorem Copying.byte (h : Copying place seg d a m k s)
    (hagree : StoresAgree (row place seg d) (fun i => m (row place seg a i)) n)
    (hsafe : ForwardSafe (row place seg d) (row place seg a) n) (hk : k < n) {s' : State P} (hds : s'.ds = s.ds)
    (hedi : s'.regs .edi = s.regs .edi + 1) (hesi : s'.regs .esi = s.regs .esi + 1)
    (hmem : s'.mem = Function.update s.mem (place s.ds (s.regs .edi)) (s.mem (place s.ds (s.regs .esi)))) :
    Copying place seg d a m (k + 1) s' where
  toFilling := by
    refine h.toFilling.byte hagree hk hds hedi ?_
    rw [hmem, h.ds, h.esi]
    exact congrArg _ (h.stored.frame _ fun i hi => hsafe k hk i hi)
  esi := by
    rw [hesi, h.esi]
    exact add_ofNat_add a k 1

/-- One unit of `movs`: all of its bytes are read before the first is stored. -/
theorem Copying.movs (h : Copying place seg d a m k s) (hes : s.es = seg) (hdf : s.df = false)
    (hagree : StoresAgree (row place seg d) (fun i => m (row place seg a i)) n)
    (hsafe : ForwardSafe (row place seg d) (row place seg a) n) (hk : k + size ≤ n) :
    Copying place seg d a m (k + size) (movsOnce place size s) where
  ds := h.ds
  edi := by
    rw [movsOnce_edi, stride, hdf, if_neg Bool.false_ne_true, h.edi]
    exact add_ofNat_add d k size
  esi := by
    rw [movsOnce_esi, stride, hdf, if_neg Bool.false_ne_true, h.esi]
    exact add_ofNat_add a k size
  stored := by
    rw [movsOnce_mem, hes, h.edi]
    refine storedRow_unit h.stored hagree hk fun i hi => ?_
    rw [h.ds, h.esi, add_ofNat_add]
    -- a byte not yet copied still stands where it stood at the start
    exact h.stored.frame _ fun j hj => hsafe (k + i) (by omega) j (by omega)

/-- `rep movs`. -/
theorem Copying.repMovs (hagree : StoresAgree (row place seg d) (fun i => m (row place seg a i)) n)
    (hsafe : ForwardSafe (row place seg d) (row place seg a) n) (size c : Nat) :
    ∀ {k : Nat} {s : State P}, Copying place seg d a m k s → s.es = seg → s.df = false → k + size * c ≤ n →
      Copying place seg d a m (k + size * c) ((movsOnce place size)^[c] s) := by
  induction c with
  | zero =>
    intro k s h _ _ _
    exact h
  | succ c ih =>
    intro k s h hes hdf hle
    rw [Nat.mul_succ] at hle
    have hfirst := h.movs hes hdf hagree hsafe (show k + size ≤ n by omega)
    have hrest := ih hfirst (by rw [movsOnce_es, hes]) (by rw [movsOnce_df, hdf]) (by omega)
    rw [Function.iterate_succ_apply, Nat.mul_succ, show k + (size * c + size) = k + size + size * c by omega]
    exact hrest

/-! ### From the end to the front -/

omit [DecidableEq P] in
/-- The same stores in the opposite order. -/
theorem StoredRow.reverse {β : Type} {m m' : P → β} {dst dst' : Nat → P} {val val' : Nat → β}
    (h : StoredRow m m' dst val n) (hdst : ∀ i < n, dst' i = dst (n - 1 - i))
    (hval : ∀ i < n, val' i = val (n - 1 - i)) : StoredRow m m' dst' val' n where
  stored i hi := by
    rw [hdst i hi, hval i hi]
    exact h.stored (n - 1 - i) (by omega)
  frame p hp := by
    refine h.frame p fun i hi => ?_
    have hplace := hdst (n - 1 - i) (by omega)
    rw [show n - 1 - (n - 1 - i) = i by omega] at hplace
    rw [← hplace]
    exact hp (n - 1 - i) (by omega)

/-- The places of the bytes from an offset down. -/
def rowDown (place : BitVec 16 → Word → P) (seg : BitVec 16) (a : Word) (i : Nat) : P :=
  place seg (a - BitVec.ofNat 32 i)

/-- A row is being copied from its last byte on. -/
structure CopyingDown (place : BitVec 16 → Word → P) (seg : BitVec 16) (d a : Word) (m : P → BitVec 8) (k : Nat)
    (s : State P) : Prop where
  edi : s.regs .edi = d - BitVec.ofNat 32 k
  esi : s.regs .esi = a - BitVec.ofNat 32 k
  stored : StoredRow m s.mem (rowDown place seg d) (fun i => m (rowDown place seg a i)) k

/-- `rep movsb` with the direction flag set. -/
theorem CopyingDown.repMovs
    (hagree : StoresAgree (rowDown place seg d) (fun i => m (rowDown place seg a i)) n)
    (hsafe : ForwardSafe (rowDown place seg d) (rowDown place seg a) n) (c : Nat) :
    ∀ {k : Nat} {s : State P}, CopyingDown place seg d a m k s → s.ds = seg → s.es = seg → s.df = true →
      k + c ≤ n → CopyingDown place seg d a m (k + c) ((movsOnce place 1)^[c] s) := by
  induction c with
  | zero =>
    intro k s h _ _ _ _
    exact h
  | succ c ih =>
    intro k s h hds hes hdf hle
    -- the stride is that of one byte down
    have hback : ∀ b : Word, b - BitVec.ofNat 32 k + stride 1 s = b - BitVec.ofNat 32 (k + 1) := by
      intro b
      rw [stride, hdf, if_pos rfl, BitVec.ofNat_add]
      bv_omega
    have hfirst : CopyingDown place seg d a m (k + 1) (movsOnce place 1 s) := by
      refine ⟨?_, ?_, ?_⟩
      · rw [movsOnce_edi, h.edi, hback]
      · rw [movsOnce_esi, h.esi, hback]
      · have hbyte : s.mem (place s.ds (s.regs .esi + BitVec.ofNat 32 0)) = m (rowDown place seg a k) := by
          rw [hds, h.esi, BitVec.add_zero]
          exact h.stored.frame _ fun i hi => hsafe k (by omega) i hi
        have hplace : place s.es (s.regs .edi + BitVec.ofNat 32 0) = rowDown place seg d k := by
          rw [hes, h.edi, BitVec.add_zero]
          rfl
        show StoredRow m (Function.update s.mem (place s.es (s.regs .edi + BitVec.ofNat 32 0))
          (s.mem (place s.ds (s.regs .esi + BitVec.ofNat 32 0)))) _ _ _
        rw [hbyte, hplace]
        exact h.stored.succ hagree (by omega)
    have hrest := ih hfirst hds hes hdf (by omega)
    rw [Function.iterate_succ_apply, show k + (c + 1) = k + 1 + c by omega]
    exact hrest

end Rows

end ByteVerse.StringAsm
