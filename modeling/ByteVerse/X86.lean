/-
  A part of the 32-bit x86 instruction set, over arbitrary labels and routines.

  A `Text` is labelled blocks of instructions, one behind the other from the address `base` on, and
  the routines it calls: for each what it does from its first instruction up to behind its `ret`.
  `Text.exec` runs a text until it reaches an `iret` and gives the calls made on the way; `Ends` says what
  holds there.

  EFLAGS is what `pushfl` stores: VM and RF, which it stores as zero, are not part of it.
-/
import ByteVerse.Words
import Mathlib.Logic.Function.Basic

namespace ByteVerse.X86

open Words

inductive Reg
  | eax | ecx | edx | ebx | esp | ebp | esi | edi
  deriving DecidableEq

structure RegFile where
  regs : Reg → Word
  flags : Word

structure Cpu extends RegFile where
  eip : Word
  mem : Memory

/-- Instructions of a text with labels `L` and routines `σ`.  `callTable` is `call *table(, %r, 4)`; an
    entry `none` of the table is a null pointer. -/
inductive Instr (σ L : Type)
  | pushl (r : Reg)
  | popl (r : Reg)
  | pushfl
  | popfl
  | cmpl (imm : Word) (r : Reg)
  | addl (imm : Word) (r : Reg)
  | movl (imm : Word) (r : Reg)
  | jl (target : L)
  | jg (target : L)
  | jmp (target : L)
  | callTable (table : List (Option σ)) (r : Reg)
  | iret

/-! ## Flags -/

/-- The status flags of an arithmetic result. -/
structure Status where
  cf : Bool
  pf : Bool
  af : Bool
  zf : Bool
  sf : Bool
  of : Bool

def setBit (w : Word) (i : Nat) (b : Bool) : Word :=
  if b then w ||| BitVec.twoPow 32 i else w &&& ~~~BitVec.twoPow 32 i

/-- EFLAGS with its status flags replaced. -/
def withStatus (flags : Word) (s : Status) : Word :=
  setBit (setBit (setBit (setBit (setBit (setBit flags 0 s.cf) 2 s.pf) 4 s.af) 6 s.zf) 7 s.sf) 11 s.of

/-- The lowest byte has an even number of ones. -/
def evenParity (w : Word) : Bool :=
  ((List.range 8).countP fun i => w.getLsbD i) % 2 == 0

def subStatus (a b : Word) : Status where
  cf := a.ult b
  pf := evenParity (a - b)
  af := (a &&& 15).ult (b &&& 15)
  zf := a - b == 0
  sf := (a - b).msb
  of := BitVec.ssubOverflow a b

def addStatus (a b : Word) : Status where
  cf := BitVec.uaddOverflow a b
  pf := evenParity (a + b)
  af := decide (15 < (a &&& 15).toNat + (b &&& 15).toNat)
  zf := a + b == 0
  sf := (a + b).msb
  of := BitVec.saddOverflow a b

/-- The condition of `jl`: SF and OF differ. -/
def condLess (flags : Word) : Bool := flags.getLsbD 7 != flags.getLsbD 11

/-- The condition of `jg`: ZF is clear, and SF and OF agree. -/
def condGreater (flags : Word) : Bool :=
  !flags.getLsbD 6 && flags.getLsbD 7 == flags.getLsbD 11

theorem getLsbD_setBit (w : Word) (b : Bool) {i j : Nat} (hj : j < 32) :
    (setBit w i b).getLsbD j = if j = i then b else w.getLsbD j := by
  unfold setBit
  rcases eq_or_ne j i with rfl | hne
  · cases b <;> simp [hj]
  · cases b <;> simp [hj, hne]

theorem withStatus_zf (flags : Word) (s : Status) : (withStatus flags s).getLsbD 6 = s.zf := by
  simp only [withStatus, getLsbD_setBit _ _ (show 6 < 32 by omega)]
  rfl

theorem withStatus_sf (flags : Word) (s : Status) : (withStatus flags s).getLsbD 7 = s.sf := by
  simp only [withStatus, getLsbD_setBit _ _ (show 7 < 32 by omega)]
  rfl

theorem withStatus_of (flags : Word) (s : Status) : (withStatus flags s).getLsbD 11 = s.of := by
  simp only [withStatus, getLsbD_setBit _ _ (show 11 < 32 by omega)]
  rfl

/-- The sign of a difference, corrected by the overflow, is that of the true difference. -/
theorem msb_sub_ne_overflow (a b : Word) :
    ((a - b).msb != BitVec.ssubOverflow a b) = decide (a.toInt < b.toInt) := by
  have ha := BitVec.le_toInt a
  have ha' := BitVec.toInt_lt (x := a)
  have hb := BitVec.le_toInt b
  have hb' := BitVec.toInt_lt (x := b)
  have hdiff : (a - b).toInt = (a.toInt - b.toInt).bmod (2 ^ 32) := BitVec.toInt_sub
  rw [Int.bmod_def] at hdiff
  rw [BitVec.msb_eq_toInt, BitVec.ssubOverflow, ← Bool.decide_or, Bool.eq_iff_iff, bne_iff_ne, ne_eq,
    decide_eq_decide, decide_eq_true_eq]
  split at hdiff <;> omega

/-- **`cmpl` and `jl`**: the signed comparison. -/
theorem condLess_sub (flags a b : Word) :
    condLess (withStatus flags (subStatus a b)) = decide (a.toInt < b.toInt) := by
  rw [condLess, withStatus_sf, withStatus_of]
  exact msb_sub_ne_overflow a b

/-- **`cmpl` and `jg`**. -/
theorem condGreater_sub (flags a b : Word) :
    condGreater (withStatus flags (subStatus a b)) = decide (b.toInt < a.toInt) := by
  have hless := msb_sub_ne_overflow a b
  have hzero : (a - b == 0) = decide (a.toInt = b.toInt) := by
    rw [Bool.eq_iff_iff, beq_iff_eq, decide_eq_true_iff, BitVec.toInt_inj]
    constructor
    · intro h
      bv_omega
    · rintro rfl
      bv_omega
  have hnotless : ((a - b).msb == BitVec.ssubOverflow a b) = !decide (a.toInt < b.toInt) := by
    rw [← hless]
    exact (Bool.not_not _).symm
  rw [condGreater, withStatus_zf, withStatus_sf, withStatus_of]
  show (!(a - b == 0) && (a - b).msb == BitVec.ssubOverflow a b) = _
  rw [hzero, hnotless, Bool.eq_iff_iff]
  simp only [Bool.and_eq_true, Bool.not_eq_true', decide_eq_false_iff_not, decide_eq_true_eq]
  omega

/-! ## Registers and the stack -/

def RegFile.set (x : RegFile) (r : Reg) (w : Word) : RegFile :=
  { x with regs := Function.update x.regs r w }

@[simp] theorem RegFile.set_self (x : RegFile) (r : Reg) (w : Word) : (x.set r w).regs r = w := by
  simp [RegFile.set]

theorem RegFile.set_of_ne (x : RegFile) (w : Word) {q r : Reg} (h : q ≠ r) :
    (x.set r w).regs q = x.regs q := by
  simp [RegFile.set, h]

def Cpu.set (c : Cpu) (r : Reg) (w : Word) : Cpu := { c with regs := Function.update c.regs r w }

def Cpu.jump (c : Cpu) (a : Word) : Cpu := { c with eip := a }

def Cpu.push (c : Cpu) (w : Word) : Cpu :=
  { c.set .esp (c.regs .esp - 4) with mem := writeWord c.mem (c.regs .esp - 4) w }

/-- The word that ESP points to. -/
def Cpu.top (c : Cpu) : Word := readWord c.mem (c.regs .esp)

def Cpu.drop (c : Cpu) : Cpu := c.set .esp (c.regs .esp + 4)

@[simp] theorem Cpu.set_self (c : Cpu) (r : Reg) (w : Word) : (c.set r w).regs r = w := by
  simp [Cpu.set]

theorem Cpu.set_of_ne (c : Cpu) (w : Word) {q r : Reg} (h : q ≠ r) :
    (c.set r w).regs q = c.regs q := by
  simp [Cpu.set, h]

@[simp] theorem Cpu.push_esp (c : Cpu) (w : Word) : (c.push w).regs .esp = c.regs .esp - 4 :=
  c.set_self .esp _

@[simp] theorem Cpu.drop_esp (c : Cpu) : c.drop.regs .esp = c.regs .esp + 4 := c.set_self .esp _

/-! ## Texts -/

section Texts

variable {σ L : Type}

/-- The length of an instruction, with a byte for an immediate or a displacement that fits in one. -/
def Instr.size : Instr σ L → Nat
  | .pushl _ | .popl _ | .pushfl | .popfl | .iret => 1
  | .jl _ | .jg _ | .jmp _ => 2
  | .cmpl imm r | .addl imm r =>
    if -128 ≤ imm.toInt ∧ imm.toInt < 128 then 3 else if r = .eax then 5 else 6
  | .movl _ _ => 5
  | .callTable _ _ => 7

def codeSize (is : List (Instr σ L)) : Nat := (is.map Instr.size).sum

/-- The instruction at an offset; `none` inside of one and behind the last. -/
def instrAt : List (Instr σ L) → Nat → Option (Instr σ L)
  | [], _ => none
  | i :: is, n => if n = 0 then some i else if n < i.size then none else instrAt is (n - i.size)

/-- A text at its address, and the routines it calls. -/
structure Text (σ L : Type) where
  base : Word
  blocks : List (L × List (Instr σ L))
  fits : codeSize (blocks.flatMap Prod.snd) < 2 ^ 32
  symbol : σ → Word
  code : σ → Cpu → Cpu

/-- A call that has been made: of what, and from which state. -/
structure Call (σ : Type) where
  routine : σ
  entry : Cpu

def Text.instrs (M : Text σ L) : List (Instr σ L) := M.blocks.flatMap Prod.snd

def Text.fetch (M : Text σ L) (a : Word) : Option (Instr σ L) :=
  instrAt M.instrs (a - M.base).toNat

/-- The entry of a table that lies `4 * w` behind its first one, unless it is null. -/
def tableEntry (table : List (Option σ)) (w : Word) : Option σ := (table[(4 * w).toNat / 4]?).join

/-- The instructions `is` lie at the address `a`. -/
def Text.CodeAt (M : Text σ L) (a : Word) (is : List (Instr σ L)) : Prop :=
  ∃ before behind,
    M.instrs = before ++ (is ++ behind) ∧ a = M.base + BitVec.ofNat 32 (codeSize before)

variable [DecidableEq L]

def Text.address (M : Text σ L) (l : L) : Word :=
  M.base + BitVec.ofNat 32
    (codeSize ((M.blocks.takeWhile fun b => decide (b.1 ≠ l)).flatMap Prod.snd))

/-- One instruction: the calls it makes and the state behind it; `none` at an `iret` and where nothing
    can be called. -/
def Text.step (M : Text σ L) (i : Instr σ L) (c : Cpu) : Option (List (Call σ) × Cpu) :=
  let behind := c.eip + BitVec.ofNat 32 i.size
  let d := c.jump behind
  match i with
  | .pushl r => some ([], d.push (c.regs r))
  | .popl r => some ([], d.drop.set r c.top)
  | .pushfl => some ([], d.push c.flags)
  | .popfl => some ([], { d.drop with flags := c.top })
  | .cmpl imm r => some ([], { d with flags := withStatus c.flags (subStatus (c.regs r) imm) })
  | .addl imm r =>
    some ([], { d.set r (c.regs r + imm) with
      flags := withStatus c.flags (addStatus (c.regs r) imm) })
  | .movl imm r => some ([], d.set r imm)
  | .jl l => some ([], if condLess c.flags then c.jump (M.address l) else d)
  | .jg l => some ([], if condGreater c.flags then c.jump (M.address l) else d)
  | .jmp l => some ([], c.jump (M.address l))
  | .callTable table r =>
    (tableEntry table (c.regs r)).map fun f =>
      let called := (d.push behind).jump (M.symbol f)
      ([⟨f, called⟩], M.code f called)
  | .iret => none

/-- Runs the text until it is at an `iret`: the calls made, and the state there. -/
def Text.exec (M : Text σ L) : Nat → Cpu → Option (List (Call σ) × Cpu)
  | 0, _ => none
  | n + 1, c =>
    match M.fetch c.eip with
    | none => none
    | some .iret => some ([], c)
    | some i =>
      (M.step i c).bind fun (calls, c') => (M.exec n c').map fun r => (calls ++ r.1, r.2)

/-- From `c` the text reaches an `iret`, with calls and in a state that `Q` holds of. -/
def Text.Ends (M : Text σ L) (c : Cpu) (Q : List (Call σ) → Cpu → Prop) : Prop :=
  ∃ n calls c', M.exec n c = some (calls, c') ∧ Q calls c'

end Texts

/-! ## Where the code lies -/

section Code

variable {σ L : Type}

theorem Instr.size_pos (i : Instr σ L) : 0 < i.size := by
  cases i <;> simp only [Instr.size] <;> try omega
  all_goals
    split
    · omega
    · split <;> omega

@[simp] theorem codeSize_append (is js : List (Instr σ L)) :
    codeSize (is ++ js) = codeSize is + codeSize js := by
  simp [codeSize]

@[simp] theorem codeSize_singleton (i : Instr σ L) : codeSize [i] = i.size := by
  simp [codeSize]

theorem instrAt_append (is js : List (Instr σ L)) (i : Instr σ L) :
    instrAt (is ++ i :: js) (codeSize is) = some i := by
  induction is with
  | nil => rfl
  | cons j is ih =>
    have hsize : codeSize (j :: is) = j.size + codeSize is := by simp [codeSize]
    have hpos := j.size_pos
    rw [List.cons_append, instrAt, hsize, if_neg (by omega), if_neg (by omega), Nat.add_sub_cancel_left]
    exact ih

variable {M : Text σ L}

theorem Text.CodeAt.fetch {a : Word} {i : Instr σ L} {is : List (Instr σ L)}
    (h : M.CodeAt a (i :: is)) : M.fetch a = some i := by
  obtain ⟨before, behind, hinstrs, rfl⟩ := h
  have hfits := M.fits
  rw [← Text.instrs, hinstrs, codeSize_append] at hfits
  have hoff : (M.base + BitVec.ofNat 32 (codeSize before) - M.base).toNat = codeSize before := by
    bv_omega
  rw [Text.fetch, hoff, hinstrs]
  exact instrAt_append before (is ++ behind) i

theorem Text.CodeAt.next {a : Word} {i : Instr σ L} {is : List (Instr σ L)}
    (h : M.CodeAt a (i :: is)) : M.CodeAt (a + BitVec.ofNat 32 i.size) is := by
  obtain ⟨before, behind, hinstrs, rfl⟩ := h
  refine ⟨before ++ [i], behind, ?_, ?_⟩
  · rw [hinstrs, List.append_assoc]
    rfl
  · rw [codeSize_append, codeSize_singleton, BitVec.ofNat_add, BitVec.add_assoc]

/-- The code at a label is its block, and what lies behind it. -/
theorem Text.codeAt_address [DecidableEq L] {pre post : List (L × List (Instr σ L))} {l : L}
    {is : List (Instr σ L)} (hblocks : M.blocks = pre ++ (l, is) :: post) (hpre : ∀ b ∈ pre, b.1 ≠ l) :
    M.CodeAt (M.address l) (is ++ post.flatMap Prod.snd) := by
  have hwhile : (M.blocks.takeWhile fun b => decide (b.1 ≠ l)) = pre := by
    rw [hblocks, List.takeWhile_append_of_pos (fun b hb => decide_eq_true (hpre b hb)),
      List.takeWhile_cons_of_neg (by simp), List.append_nil]
  refine ⟨pre.flatMap Prod.snd, [], ?_, ?_⟩
  · rw [Text.instrs, hblocks, List.flatMap_append, List.flatMap_cons, List.append_nil]
  · rw [Text.address, hwhile]

end Code

end ByteVerse.X86
