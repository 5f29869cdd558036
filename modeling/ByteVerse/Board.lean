/-
  The devices behind the kernel's ports: the two interrupt controllers and the real-time clock, and a byte
  for each other port.

  The clock has its line on request 8.  The line goes up when a flag of register C meets its enabling bit
  of register B, and down when register C is read; the controllers see its edges.  While it is up no
  further event of the clock is one: a request that the controllers drop, or a register C that nobody
  reads, ends the clock's interrupts (`Heard`).
-/
import ByteVerse.PortIo
import ByteVerse.Pic
import Mathlib.Logic.Function.Basic

namespace ByteVerse

open PortIo Pic

/-! ## The real-time clock -/

structure Cmos where
  index : BitVec 8
  regA : BitVec 8
  regB : BitVec 8
  regC : BitVec 8
  cells : BitVec 8 → BitVec 8

namespace Cmos

/-- The clock's interrupt line. -/
def irqf (c : Cmos) : Bool := c.regB &&& c.regC &&& 0x70 != 0

def write (b : BitVec 8) (c : Cmos) : Cmos :=
  if c.index = 0x0A then { c with regA := (c.regA &&& 0x80) ||| (b &&& 0x7F) }
  -- stopping the clock disables its update interrupt
  else if c.index = 0x0B then { c with regB := if b.getLsbD 7 then b &&& ~~~0x10 else b }
  else if c.index = 0x0C ∨ c.index = 0x0D then c
  else { c with cells := Function.update c.cells c.index b }

def read (c : Cmos) : BitVec 8 × Cmos :=
  if c.index = 0x0A then (c.regA, c)
  else if c.index = 0x0B then (c.regB, c)
  else if c.index = 0x0C then
    ((c.regC &&& 0x70) ||| if c.irqf then 0x80 else 0, { c with regC := 0 })
  else (c.cells c.index, c)

/-- The clock sets flags of its register C. -/
def withFlags (bits : BitVec 8) (c : Cmos) : Cmos := { c with regC := c.regC ||| (bits &&& 0x70) }

end Cmos

/-! ## The devices together -/

structure Board where
  pics : Pair
  cmos : Cmos
  ports : Nat → BitVec 8
  /-- The processor takes interrupts. -/
  intFlag : Bool

namespace Board

/-- The clock changes, and its line with it. -/
def setCmos (c : Cmos) (d : Board) : Board :=
  { d with
    cmos := c
    pics := if c.irqf && !d.cmos.irqf then d.pics.raise 8 else d.pics }

/-- A byte at a port, as far as the controllers are behind it. -/
def picsOut (b : BitVec 8) (port : Nat) (p : Pair) : Pair :=
  if port = 0x20 then { p with master := p.master.command b }
  else if port = 0x21 then { p with master := p.master.data b }
  else if port = 0xA0 then { p with slave := p.slave.command b }
  else if port = 0xA1 then { p with slave := p.slave.data b }
  else p

def out (b : BitVec 8) (port : Nat) (d : Board) : Board :=
  if port = 0x70 then { d with cmos := { d.cmos with index := b &&& 0x7F } }
  else if port = 0x71 then d.setCmos (d.cmos.write b)
  else { d with pics := picsOut b port d.pics }

def inp (port : Nat) (d : Board) : BitVec 8 × Board :=
  if port = 0x20 then (d.pics.master.irr, d)
  else if port = 0x21 then (d.pics.master.imr, d)
  else if port = 0xA0 then (d.pics.slave.irr, d)
  else if port = 0xA1 then (d.pics.slave.imr, d)
  else if port = 0x71 then (d.cmos.read.1, d.setCmos d.cmos.read.2)
  else (d.ports port, d)

end Board

inductive OwnStep
  /-- An edge on the line of a device other than the clock. -/
  | raise (irq : Nat)
  /-- The clock sets flags of its register C. -/
  | flags (bits : BitVec 8)
  /-- The time goes on, and the other ports show other bytes. -/
  | change (updating : Bool) (cells : BitVec 8 → BitVec 8) (ports : Nat → BitVec 8)

namespace Board

/-- `none`: no device but the clock is on its line, and the line that the slave is on has none. -/
def ownStep (d : Board) : OwnStep → Option Board
  | .raise irq =>
    if irq < 16 ∧ irq ≠ 2 ∧ irq ≠ 8 then some { d with pics := d.pics.raise irq } else none
  | .flags bits => some (d.setCmos (d.cmos.withFlags bits))
  | .change updating cells ports =>
    let regA := (d.cmos.regA &&& 0x7F) ||| if updating then 0x80 else 0
    some { d with cmos := { d.cmos with regA := regA, cells := cells }, ports := ports }

end Board

def board : Devices Board where
  out := Board.out
  inp := Board.inp
  setFlag on d := { d with intFlag := on }
  own d d' := ∃ e, d.ownStep e = some d'

/-- The controllers know of the clock's interrupt. -/
def Board.Heard (d : Board) : Prop := d.cmos.irqf = true → d.pics.pending 8 = true

/-! ## What the devices do by themselves -/

variable {d d' : Board} {e : OwnStep} {irq : Nat}

/-- A change of the clock, as the controllers see it. -/
theorem pending_setCmos (c : Cmos) (d : Board) (hirq : irq < 16) :
    (d.setCmos c).pics.pending irq =
      (d.pics.pending irq || decide (8 = irq) && (c.irqf && !d.cmos.irqf)) := by
  unfold Board.setCmos
  dsimp only
  split
  case isTrue h => rw [Pair.pending_raise _ (by omega) hirq, h, Bool.and_true]
  case isFalse h => rw [Bool.eq_false_iff.mpr h, Bool.and_false, Bool.or_false]

theorem setup_setCmos (c : Cmos) (d : Board) : (d.setCmos c).pics.setup = d.pics.setup := by
  unfold Board.setCmos
  dsimp only
  split
  · exact Pair.setup_raise _ _
  · rfl

/-- The line of the clock going up is heard. -/
theorem Board.Heard.setCmos (h : d.Heard) (c : Cmos) : (d.setCmos c).Heard := by
  intro hirqf
  have hc : c.irqf = true := hirqf
  rw [pending_setCmos c d (by omega), hc, Bool.true_and, decide_eq_true rfl, Bool.true_and]
  by_cases hold : d.cmos.irqf = true
  · rw [h hold, Bool.true_or]
  · rw [Bool.eq_false_iff.mpr hold, Bool.not_false, Bool.or_true]

theorem setup_ownStep (h : d.ownStep e = some d') : d'.pics.setup = d.pics.setup := by
  cases e with
  | raise irq =>
    rw [Board.ownStep, Option.ite_none_right_eq_some] at h
    obtain ⟨-, ⟨⟩⟩ := h
    exact Pair.setup_raise _ _
  | flags bits =>
    cases h
    exact setup_setCmos _ _
  | change => cases h; rfl

theorem regB_ownStep (h : d.ownStep e = some d') : d'.cmos.regB = d.cmos.regB := by
  cases e with
  | raise irq =>
    rw [Board.ownStep, Option.ite_none_right_eq_some] at h
    obtain ⟨-, ⟨⟩⟩ := h
    rfl
  | flags | change => cases h; rfl

theorem Board.Heard.ownStep (h : d.Heard) (hstep : d.ownStep e = some d') : d'.Heard := by
  cases e with
  | raise irq =>
    rw [Board.ownStep, Option.ite_none_right_eq_some] at hstep
    obtain ⟨hirq, ⟨⟩⟩ := hstep
    intro hirqf
    rw [Pair.pending_raise _ hirq.1 (by omega), h hirqf, Bool.true_or]
  | flags bits =>
    cases hstep
    exact h.setCmos _
  | change =>
    cases hstep
    exact h

/-! ## What the kernel makes of them -/

variable {b : BitVec 8} {port : Nat}

theorem setup_picsOut (b : BitVec 8) (port : Nat) (p : Pair) :
    (Board.picsOut b port p).setup = Board.picsOut b port p.setup := by
  unfold Board.picsOut
  repeat' split
  · exact congrArg (Pair.mk · p.slave.setup) (Chip.setup_command b p.master)
  · exact congrArg (Pair.mk · p.slave.setup) (Chip.setup_data b p.master)
  · exact congrArg (Pair.mk p.master.setup) (Chip.setup_command b p.slave)
  · exact congrArg (Pair.mk p.master.setup) (Chip.setup_data b p.slave)
  · rfl

theorem setup_out (b : BitVec 8) (port : Nat) (d : Board) :
    (d.out b port).pics.setup = Board.picsOut b port d.pics.setup := by
  unfold Board.out
  split
  case isTrue h => subst h; rfl
  split
  case isTrue h => subst h; exact setup_setCmos _ _
  exact setup_picsOut b port d.pics

/-- A byte read anywhere but from the clock changes nothing. -/
theorem inp_elsewhere (hport : port ≠ 0x71) (d : Board) : (d.inp port).2 = d := by
  unfold Board.inp
  rw [if_neg hport]
  repeat' split
  all_goals rfl

theorem setup_inp (port : Nat) (d : Board) : (d.inp port).2.pics.setup = d.pics.setup := by
  by_cases hport : port = 0x71
  · rw [hport]
    exact setup_setCmos _ _
  · rw [inp_elsewhere hport]

/-- A byte that does not initialize a controller keeps the requests. -/
def KeepsRequests (b : BitVec 8) (port : Nat) : Prop :=
  (port = 0x20 ∨ port = 0xA0) → b.getLsbD 4 = false

theorem irr_command (c : Chip) (hb : b.getLsbD 4 = false) : (c.command b).irr = c.irr := by
  rw [Chip.command, hb, if_neg Bool.false_ne_true]
  split
  · unfold Chip.eoi
    split <;> rfl
  · rfl

theorem irr_data (c : Chip) : (c.data b).irr = c.irr := by
  unfold Chip.data
  cases c.expects <;> rfl

theorem irr_picsOut (p : Pair) (h : KeepsRequests b port) :
    (Board.picsOut b port p).master.irr = p.master.irr ∧
      (Board.picsOut b port p).slave.irr = p.slave.irr := by
  unfold Board.picsOut
  split
  case isTrue hport => exact ⟨irr_command _ (h (.inl hport)), rfl⟩
  split
  · exact ⟨irr_data _, rfl⟩
  split
  case isTrue hport => exact ⟨rfl, irr_command _ (h (.inr hport))⟩
  split
  · exact ⟨rfl, irr_data _⟩
  · exact ⟨rfl, rfl⟩

theorem pending_picsOut (p : Pair) (h : KeepsRequests b port) :
    (Board.picsOut b port p).pending irq = p.pending irq := by
  unfold Pair.pending
  rw [(irr_picsOut p h).1, (irr_picsOut p h).2]

theorem Board.Heard.out (h : d.Heard) (hkeep : KeepsRequests b port) : (d.out b port).Heard := by
  unfold Board.out
  split
  · exact h
  split
  · exact h.setCmos _
  · intro hirqf
    exact (pending_picsOut _ hkeep).trans (h hirqf)

theorem Board.Heard.inp (h : d.Heard) (port : Nat) : (d.inp port).2.Heard := by
  by_cases hport : port = 0x71
  · rw [hport]
    exact h.setCmos _
  · rwa [inp_elsewhere hport]

theorem regB_out (hport : port ≠ 0x71) : (d.out b port).cmos.regB = d.cmos.regB := by
  unfold Board.out
  rw [if_neg hport]
  split <;> rfl

theorem regB_inp (port : Nat) : (d.inp port).2.cmos.regB = d.cmos.regB := by
  by_cases hport : port = 0x71
  · rw [hport]
    show d.cmos.read.2.regB = d.cmos.regB
    unfold Cmos.read
    repeat' split
    all_goals rfl
  · rw [inp_elsewhere hport]

end ByteVerse
