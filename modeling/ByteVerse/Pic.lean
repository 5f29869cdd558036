/-
  The 8259A interrupt controller and two of them in cascade.

  A chip has eight request lines.  An edge on a line sets its bit of `irr`; the chip asks for service
  (`Chip.request`) for the first line with such a bit that `imr` does not mask, unless a line before it or
  the line itself is in service.  The acknowledgement moves the bit to `isr`, and the end-of-interrupt
  command takes the first bit out of `isr`.

  The chip is initialized with a row of words: one to its command port and the others, in the order of
  `Expects`, to its data port.  Of the operation words the command port takes, the non-specific
  end of interrupt is modelled, without rotation of the priorities and without the special modes.
-/
import Mathlib.Data.List.Basic
import Mathlib.Data.Nat.Init

namespace ByteVerse.Pic

/-! ## One chip -/

/-- What the chip takes the next byte at its data port for. -/
inductive Expects
  | icw2
  | icw3
  | icw4
  | mask
  deriving DecidableEq

structure Chip where
  irr : BitVec 8
  isr : BitVec 8
  imr : BitVec 8
  /-- The vector of line 0. -/
  base : BitVec 8
  /-- On a master, the lines that have a slave; on a slave, the line of the master that it is on. -/
  cascade : BitVec 8
  mode : BitVec 8
  needsIcw4 : Bool
  single : Bool
  expects : Expects
  deriving DecidableEq

def line (i : Nat) : BitVec 8 := BitVec.twoPow 8 i

/-- The first bit that is set. -/
def first (x : BitVec 8) : Option Nat := (List.range 8).find? fun i => x.getLsbD i

namespace Chip

/-- The end of an interrupt: the first line in service no longer is. -/
def eoi (c : Chip) : Chip :=
  match first c.isr with
  | some i => { c with isr := c.isr &&& ~~~line i }
  | none => c

/-- A byte at the command port. -/
def command (b : BitVec 8) (c : Chip) : Chip :=
  if b.getLsbD 4 then
    { c with
      irr := 0, isr := 0, imr := 0, mode := 0, needsIcw4 := b.getLsbD 0, single := b.getLsbD 1
      expects := .icw2 }
  else if b = 0x20 then c.eoi
  else c

/-- A byte at the data port. -/
def data (b : BitVec 8) (c : Chip) : Chip :=
  let last : Expects := if c.needsIcw4 then .icw4 else .mask
  match c.expects with
  | .icw2 => { c with base := b &&& 0xF8, expects := if c.single then last else .icw3 }
  | .icw3 => { c with cascade := b, expects := last }
  | .icw4 => { c with mode := b, expects := .mask }
  | .mask => { c with imr := b }

/-- An edge on a line. -/
def raise (i : Nat) (c : Chip) : Chip := { c with irr := c.irr ||| line i }

/-- The line that has the chip ask for service, of those that request it. -/
def request (asked : BitVec 8) (c : Chip) : Option Nat :=
  (first (asked &&& ~~~c.imr)).filter fun i =>
    decide (∀ j ≤ i, c.isr.getLsbD j = false)

/-- The request of a line is acknowledged; in automatic mode that ends the interrupt too. -/
def ack (i : Nat) (c : Chip) : Chip :=
  { c with
    irr := c.irr &&& ~~~line i
    isr := if c.mode.getLsbD 1 then c.isr else c.isr ||| line i }

/-- The chip is initialized, and asks for the end of interrupts. -/
structure Ready (c : Chip) : Prop where
  expects : c.expects = .mask
  mode : c.mode.getLsbD 1 = false

end Chip

variable {c : Chip} {asked x : BitVec 8} {i j : Nat}

theorem getLsbD_line (i j : Nat) : (line i).getLsbD j = (decide (j < 8) && decide (i = j)) := by
  rw [line, BitVec.getLsbD_twoPow]
  by_cases hij : i = j
  · subst hij
    simp
  · simp [hij]

theorem getLsbD_clear (x : BitVec 8) (i : Nat) (hj : j < 8) :
    (x &&& ~~~line i).getLsbD j = (x.getLsbD j && !decide (i = j)) := by
  rw [BitVec.getLsbD_and, BitVec.getLsbD_not, getLsbD_line]
  simp only [hj, decide_true, Bool.true_and]

theorem getLsbD_set (x : BitVec 8) (i : Nat) (hj : j < 8) :
    (x ||| line i).getLsbD j = (x.getLsbD j || decide (i = j)) := by
  rw [BitVec.getLsbD_or, getLsbD_line]
  simp only [hj, decide_true, Bool.true_and]

theorem first_eq_some : first x = some i ↔ i < 8 ∧ x.getLsbD i = true ∧ ∀ j < i, x.getLsbD j = false := by
  rw [first, List.find?_range_eq_some]
  simp [and_left_comm]

/-! ## Two chips in cascade -/

/-- Requests 0 to 7 are the lines of the master, 8 to 15 those of the slave. -/
structure Pair where
  master : Chip
  slave : Chip
  deriving DecidableEq

namespace Pair

def pending (p : Pair) (irq : Nat) : Bool :=
  if irq < 8 then p.master.irr.getLsbD irq else p.slave.irr.getLsbD (irq - 8)

def masked (p : Pair) (irq : Nat) : Bool :=
  if irq < 8 then p.master.imr.getLsbD irq else p.slave.imr.getLsbD (irq - 8)

def vector (p : Pair) (irq : Nat) : Nat :=
  if irq < 8 then p.master.base.toNat + irq else p.slave.base.toNat + (irq - 8)

def raise (irq : Nat) (p : Pair) : Pair :=
  if irq < 8 then { p with master := p.master.raise irq }
  else { p with slave := p.slave.raise (irq - 8) }

/-- The lines of the master that request service: a slave's does while the slave asks for it. -/
def requests (p : Pair) : BitVec 8 :=
  (p.master.irr &&& ~~~p.master.cascade) |||
    if (p.slave.request p.slave.irr).isSome then p.master.cascade else 0

/-- The acknowledgement of the processor: the vector it gets, `none` without a request. -/
def inta (p : Pair) : Option (Nat × Pair) :=
  (p.master.request p.requests).bind fun i =>
    if p.master.cascade.getLsbD i then
      -- the slave answers to the number of its line
      if p.slave.cascade.toNat = i then
        (p.slave.request p.slave.irr).map fun j =>
          (p.slave.base.toNat + j, ⟨p.master.ack i, p.slave.ack j⟩)
      else none
    else some (p.master.base.toNat + i, { p with master := p.master.ack i })

/-- Initialized, with the slave on line `k`. -/
structure Cascaded (p : Pair) (k : Nat) : Prop where
  master : p.master.Ready
  slave : p.slave.Ready
  line : p.master.cascade = Pic.line k
  number : p.slave.cascade.toNat = k

/-- What is in service: nothing, or one request, on the master's line `k` too if it is of the slave. -/
def Serves (p : Pair) (k : Nat) : Option Nat → Prop
  | none => p.master.isr = 0 ∧ p.slave.isr = 0
  | some irq =>
    if irq < 8 then p.master.isr = line irq ∧ p.slave.isr = 0
    else p.master.isr = line k ∧ p.slave.isr = line (irq - 8)

/-- The pair once `irq` is acknowledged. -/
def ack (k irq : Nat) (p : Pair) : Pair :=
  if irq < 8 then { p with master := p.master.ack irq }
  else ⟨p.master.ack k, p.slave.ack (irq - 8)⟩

/-- The processor gets at the request: neither its line nor the slave's is masked. -/
def Open (p : Pair) (k irq : Nat) : Prop :=
  p.masked irq = false ∧ (8 ≤ irq → p.masked k = false)

end Pair

variable {p p' : Pair} {k irq v : Nat}

theorem request_idle (hisr : c.isr = 0) : c.request asked = first (asked &&& ~~~c.imr) := by
  rw [Chip.request, hisr]
  cases first (asked &&& ~~~c.imr) with
  | none => rfl
  | some i => simp [Option.filter]

/-- While nothing is in service an acknowledgement is that of a pending request that is not masked. -/
theorem inta_idle (hk : k < 8) (hp : p.Cascaded k) (hidle : p.Serves k none)
    (h : p.inta = some (v, p')) :
    ∃ irq, irq < 16 ∧ irq ≠ k ∧ p.pending irq = true ∧ p.Open k irq ∧ v = p.vector irq ∧
      p' = p.ack k irq := by
  rw [Pair.inta, Option.bind_eq_some_iff] at h
  obtain ⟨i, hi, hrest⟩ := h
  rw [request_idle hidle.1, first_eq_some] at hi
  obtain ⟨hi8, hbit, -⟩ := hi
  rw [BitVec.getLsbD_and, BitVec.getLsbD_not, Bool.and_eq_true, decide_eq_true hi8, Bool.true_and,
    Bool.not_eq_true'] at hbit
  rw [hp.line, getLsbD_line, decide_eq_true hi8, Bool.true_and, hp.number] at hrest
  by_cases hki : k = i
  · rw [decide_eq_true hki, if_pos rfl, if_pos hki, Option.map_eq_some_iff] at hrest
    obtain ⟨j, hj, hres⟩ := hrest
    rw [request_idle hidle.2, first_eq_some] at hj
    obtain ⟨hj8, hjbit, -⟩ := hj
    rw [BitVec.getLsbD_and, BitVec.getLsbD_not, Bool.and_eq_true, decide_eq_true hj8, Bool.true_and,
      Bool.not_eq_true'] at hjbit
    have h8 : ¬ 8 + j < 8 := by omega
    have hsub : 8 + j - 8 = j := by omega
    cases hres
    refine ⟨8 + j, by omega, by omega, ?_, ⟨?_, fun _ => ?_⟩, ?_, ?_⟩
    · rw [Pair.pending, if_neg h8, hsub, hjbit.1]
    · rw [Pair.masked, if_neg h8, hsub, hjbit.2]
    · rw [Pair.masked, if_pos hk, hki, hbit.2]
    · rw [Pair.vector, if_neg h8, hsub]
    · rw [Pair.ack, if_neg h8, hsub, hki]
  · rw [decide_eq_false hki, if_neg Bool.false_ne_true] at hrest
    cases hrest
    have hirr : p.master.irr.getLsbD i = true := by
      have hreq := hbit.1
      rw [Pair.requests, hp.line, BitVec.getLsbD_or, getLsbD_clear _ _ hi8] at hreq
      split at hreq
      · simpa [getLsbD_line, hki] using hreq
      · simpa [hki] using hreq
    refine ⟨i, by omega, Ne.symm hki, ?_, ⟨?_, fun _ => by omega⟩, ?_, ?_⟩
    · rw [Pair.pending, if_pos hi8, hirr]
    · rw [Pair.masked, if_pos hi8, hbit.2]
    · rw [Pair.vector, if_pos hi8]
    · rw [Pair.ack, if_pos hi8]

theorem first_isSome (hi : i < 8) (hx : x.getLsbD i = true) : (first x).isSome := by
  rw [first, List.find?_isSome]
  exact ⟨i, List.mem_range.mpr hi, hx⟩

/-- And a pending request that is not masked gets the processor an acknowledgement. -/
theorem inta_isSome (hk : k < 8) (hp : p.Cascaded k) (hidle : p.Serves k none) (hirq : irq < 16)
    (hne : irq ≠ k) (hpend : p.pending irq = true) (hopen : p.Open k irq) : p.inta.isSome := by
  have hslave : 8 ≤ irq → (p.slave.request p.slave.irr).isSome := by
    intro h8
    rw [request_idle hidle.2]
    refine first_isSome (i := irq - 8) (by omega) ?_
    have hmask := hopen.1
    rw [Pair.pending, if_neg (by omega)] at hpend
    rw [Pair.masked, if_neg (by omega)] at hmask
    rw [BitVec.getLsbD_and, BitVec.getLsbD_not, hpend, hmask]
    simp
    omega
  have hmaster : (first (p.requests &&& ~~~p.master.imr)).isSome := by
    by_cases h8 : 8 ≤ irq
    · have hmask := hopen.2 h8
      rw [Pair.masked, if_pos hk] at hmask
      refine first_isSome hk ?_
      rw [BitVec.getLsbD_and, BitVec.getLsbD_not, hmask, Pair.requests, if_pos (hslave h8), hp.line,
        BitVec.getLsbD_or, getLsbD_line]
      simp [hk]
    · have hmask := hopen.1
      rw [Pair.masked, if_pos (by omega)] at hmask
      rw [Pair.pending, if_pos (by omega)] at hpend
      refine first_isSome (i := irq) (by omega) ?_
      rw [BitVec.getLsbD_and, BitVec.getLsbD_not, hmask, Pair.requests, hp.line, BitVec.getLsbD_or,
        getLsbD_clear _ _ (by omega), hpend]
      simp [Ne.symm hne]
      omega
  obtain ⟨i, hi⟩ := Option.isSome_iff_exists.mp hmaster
  obtain ⟨hi8, hbit, -⟩ := first_eq_some.mp hi
  rw [Pair.inta, request_idle hidle.1, hi, Option.bind_some, hp.line, getLsbD_line, decide_eq_true hi8,
    Bool.true_and, hp.number]
  by_cases hki : k = i
  · rw [decide_eq_true hki, if_pos rfl, if_pos hki, Option.isSome_map]
    by_contra hnone
    rw [BitVec.getLsbD_and, Pair.requests, if_neg hnone, hp.line, BitVec.getLsbD_or,
      getLsbD_clear _ _ hi8] at hbit
    simp [hki] at hbit
  · rw [decide_eq_false hki, if_neg Bool.false_ne_true]
    rfl

/-! ## What requests leave alone -/

/-- The chip without the requests it has seen. -/
def Chip.setup (c : Chip) : Chip := { c with irr := 0 }

def Pair.setup (p : Pair) : Pair := ⟨p.master.setup, p.slave.setup⟩

theorem Chip.setup_eoi (c : Chip) : c.eoi.setup = c.setup.eoi := by
  unfold Chip.eoi
  rw [show c.setup.isr = c.isr from rfl]
  split <;> rfl

theorem Chip.setup_command (b : BitVec 8) (c : Chip) : (c.command b).setup = c.setup.command b := by
  unfold Chip.command
  split
  · rfl
  · split
    · exact c.setup_eoi
    · rfl

theorem Chip.setup_data (b : BitVec 8) (c : Chip) : (c.data b).setup = c.setup.data b := by
  unfold Chip.data
  rw [show c.setup.expects = c.expects from rfl]
  cases c.expects <;> rfl

theorem Pair.setup_raise (p : Pair) (irq : Nat) : (p.raise irq).setup = p.setup := by
  unfold Pair.raise
  split <;> rfl

theorem Pair.pending_raise (p : Pair) {irq n : Nat} (hirq : irq < 16) (hn : n < 16) :
    (p.raise irq).pending n = (p.pending n || decide (irq = n)) := by
  unfold Pair.raise Pair.pending
  by_cases h : irq < 8 <;> by_cases h' : n < 8
  · simp only [h, h', if_true, Chip.raise, getLsbD_set]
  · rw [if_pos h, if_neg h', if_neg h', decide_eq_false (by omega), Bool.or_false]
  · rw [if_neg h, if_pos h', if_pos h', decide_eq_false (by omega), Bool.or_false]
  · simp only [h, h', if_false, Chip.raise]
    rw [getLsbD_set _ _ (by omega)]
    congr 2
    simp only [eq_iff_iff]
    omega

/-! ## Masks -/

/-- The pair with a line masked or not. -/
def Pair.withMask (p : Pair) (irq : Nat) (on : Bool) : Pair :=
  let change (imr : BitVec 8) (i : Nat) := if on then imr ||| line i else imr &&& ~~~line i
  if irq < 8 then { p with master := { p.master with imr := change p.master.imr irq } }
  else { p with slave := { p.slave with imr := change p.slave.imr (irq - 8) } }

theorem Pair.masked_withMask (p : Pair) {irq n : Nat} (on : Bool) (hirq : irq < 16) (hn : n < 16) :
    (p.withMask irq on).masked n = if irq = n then on else p.masked n := by
  have hchange : ∀ (imr : BitVec 8) {i j : Nat}, j < 8 →
      (if on then imr ||| line i else imr &&& ~~~line i).getLsbD j =
        if i = j then on else imr.getLsbD j := by
    intro imr i j hj
    by_cases hij : i = j <;> cases on
    · simp only [Bool.false_eq_true, if_false, getLsbD_clear _ _ hj, hij, decide_true, if_true,
        Bool.not_true, Bool.and_false]
    · simp only [if_true, getLsbD_set _ _ hj, hij, decide_true, Bool.or_true]
    · simp only [Bool.false_eq_true, if_false, getLsbD_clear _ _ hj, hij, decide_false,
        Bool.not_false, Bool.and_true]
    · simp only [if_true, getLsbD_set _ _ hj, hij, decide_false, Bool.or_false, if_false]
  unfold Pair.withMask Pair.masked
  by_cases h : irq < 8 <;> by_cases h' : n < 8
  · simp only [h, h', if_true, hchange _ h']
  · rw [if_pos h, if_neg h', if_neg h', if_neg (by omega)]
  · rw [if_neg h, if_pos h', if_pos h', if_neg (by omega)]
  · simp only [h, h', if_false]
    rw [hchange _ (by omega)]
    congr 1
    simp only [eq_iff_iff]
    omega

end ByteVerse.Pic
