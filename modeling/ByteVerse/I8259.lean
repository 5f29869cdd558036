/-
  The interrupt controllers under the kernel, and what the boot makes of them.

  Each call of `enable_irq` or `disable_irq` reads a mask, changes a bit and writes the mask back, while
  devices go on raising their lines.  Any row of such calls leaves each line as the last call for it says,
  and nothing else of the controllers changes (`masks_after_calls`).

  From whatever the firmware has left in the controllers, the boot ends with the lines of the timer, the
  keyboard, the second controller and the clock open and no other (`boot_opens_lines`).
-/
import ByteVerse.Board
import Mathlib.Data.List.Induction

namespace ByteVerse

open PortIo Pic

/-! ## The functions of the kernel -/

def master8259Port : Nat := 0x20
def slave8259Port : Nat := 0xA0
def icw1 : BitVec 8 := 0x11
def icw2Master : BitVec 8 := 0x20
def icw2Slave : BitVec 8 := 0x28
def icw3Master : BitVec 8 := 0x04
def icw3Slave : BitVec 8 := 0x02
def icw4 : BitVec 8 := 0x01
def picEoi : BitVec 8 := 0x20
def numIrqs : Nat := 8

def i8259Init : PortProgram Unit := do
  let masterMask ← inb (master8259Port + 1)
  let slaveMask ← inb (slave8259Port + 1)
  outb 0xFF (master8259Port + 1)
  outb 0xFF (slave8259Port + 1)
  outb icw1 master8259Port
  outb icw2Master (master8259Port + 1)
  outb icw3Master (master8259Port + 1)
  outb icw4 (master8259Port + 1)
  outb icw1 slave8259Port
  outb icw2Slave (slave8259Port + 1)
  outb icw3Slave (slave8259Port + 1)
  outb icw4 (slave8259Port + 1)
  outb masterMask (master8259Port + 1)
  outb slaveMask (slave8259Port + 1)

/-- What `enable_irq` and `disable_irq` share: `change` makes the new mask of the old one and the bit of
    the line. -/
def changeMask (change : BitVec 8 → BitVec 8 → BitVec 8) (irqNum : Nat) : PortProgram Unit :=
  if irqNum > 15 then pure ()
  else do
    let port := if irqNum < numIrqs then master8259Port + 1 else slave8259Port + 1
    let bit := if irqNum < numIrqs then irqNum else irqNum - numIrqs
    let value ← inb port
    outb (change value ((1 : BitVec 8) <<< bit)) port

def enableIrq : Nat → PortProgram Unit := changeMask fun value bit => value &&& ~~~bit

def disableIrq : Nat → PortProgram Unit := changeMask fun value bit => value ||| bit

def sendEoi (irqNum : Nat) : PortProgram Unit :=
  if irqNum > 15 then pure ()
  else do
    if irqNum ≥ numIrqs then outb picEoi slave8259Port
    outb picEoi master8259Port

def rtcPort : Nat := 0x70
def rtcData : Nat := 0x71
def rtcIrqLine : Nat := 8
def rtcRegA : BitVec 8 := 0x8A
def rtcRegB : BitVec 8 := 0x8B
def rtcRegC : BitVec 8 := 0x8C

def rtcInit : PortProgram Unit := do
  outb rtcRegA rtcPort
  -- the value of register A, which goes to register B
  let prev ← inb rtcData
  outb rtcRegB rtcPort
  outb (prev ||| 0x40) rtcData
  enableIrq rtcIrqLine

def keyboardInit : PortProgram Unit := enableIrq 1

def pitDivisor : Nat := 1193180 / 100

def pitInit : PortProgram Unit := do
  outb 0x36 0x46
  outb (BitVec.ofNat 8 (pitDivisor &&& 0xFF)) 0x40
  outb (BitVec.ofNat 8 (pitDivisor >>> 8)) 0x40
  enableIrq 0

/-- The part of `entry` that works the devices. -/
def entryDevices : PortProgram Unit := do
  i8259Init
  (List.range 16).forM disableIrq
  enableIrq 2
  rtcInit
  keyboardInit
  pitInit

/-! ## Calls of `enable_irq` and `disable_irq` -/

inductive MaskCall
  | enable (irqNum : Nat)
  | disable (irqNum : Nat)

def MaskCall.run : MaskCall → PortProgram Unit
  | .enable irqNum => enableIrq irqNum
  | .disable irqNum => disableIrq irqNum

/-- What a call makes of the controllers' masks, given as a predicate of lines. -/
def MaskCall.apply (masked : Nat → Bool) : MaskCall → Nat → Bool
  | .enable irqNum => Function.update masked irqNum false
  | .disable irqNum => Function.update masked irqNum true

section Triples

variable {p : Pair} {irqNum : Nat} {data : BitVec 8} {port : Nat}

/-- The controllers are set up so. -/
def SetUp (p : Pair) (d : Board) : Prop := d.pics.setup = p

theorem setUp_stable (p : Pair) : board.Stable (SetUp p) := by
  rintro d d' ⟨e, he⟩ h
  exact (setup_ownStep he).trans h

theorem outb_setUp : Triple board (SetUp p) (outb data port) fun _ => SetUp (Board.picsOut data port p) := by
  refine .outb (setUp_stable p) (setUp_stable _) ?_
  rintro d rfl
  exact setup_out data port d

/-- What a data port shows is the mask. -/
def maskAt (port : Nat) (p : Pair) : BitVec 8 := if port = 0x21 then p.master.imr else p.slave.imr

theorem inb_setUp (hport : port = 0x21 ∨ port = 0xA1) :
    Triple board (SetUp p) (inb port) fun b d => b = maskAt port p ∧ SetUp p d := by
  refine .inb (setUp_stable p) (fun b => (board.stable_const _).and (setUp_stable p)) ?_
  rintro d rfl
  refine ⟨?_, setup_inp port d⟩
  rcases hport with rfl | rfl <;> rfl

/-- Both controllers take a byte at the data port for a mask. -/
def TakesMasks (p : Pair) : Prop := p.master.expects = .mask ∧ p.slave.expects = .mask

theorem data_mask {c : Chip} (h : c.expects = .mask) (b : BitVec 8) : c.data b = { c with imr := b } := by
  unfold Chip.data
  rw [h]

theorem changeMask_setUp {change : BitVec 8 → BitVec 8 → BitVec 8} (on : Bool)
    (hchange : ∀ x i, change x (line i) = if on then x ||| line i else x &&& ~~~line i)
    (hp : TakesMasks p) :
    Triple board (SetUp p) (changeMask change irqNum) fun _ =>
      SetUp (if irqNum < 16 then p.withMask irqNum on else p) := by
  unfold changeMask
  by_cases h15 : irqNum > 15
  · rw [if_pos h15, if_neg (by omega)]
    exact .pure () (setUp_stable p) fun _ => id
  rw [if_neg h15, if_pos (show irqNum < 16 by omega)]
  by_cases h8 : irqNum < numIrqs
  · have hlt : irqNum < 8 := h8
    simp only [if_pos h8]
    refine .seq (inb_setUp (.inl rfl)) fun b => .of_and fun hb => ?_
    rw [hb, show p.withMask irqNum on = Board.picsOut (change p.master.imr (line irqNum)) 0x21 p from ?_]
    · exact outb_setUp
    · rw [Pair.withMask, if_pos hlt, hchange, Board.picsOut, if_neg (by decide), if_pos rfl,
        data_mask hp.1]
  · have hlt : ¬ irqNum < 8 := h8
    simp only [if_neg h8]
    refine .seq (inb_setUp (.inr rfl)) fun b => .of_and fun hb => ?_
    rw [hb, show p.withMask irqNum on =
      Board.picsOut (change p.slave.imr (line (irqNum - numIrqs))) 0xA1 p from ?_]
    · exact outb_setUp
    · rw [Pair.withMask, if_neg hlt, hchange, Board.picsOut, if_neg (by decide), if_neg (by decide),
        if_neg (by decide), if_pos rfl, data_mask hp.2]
      rfl

/-- The controllers after a call. -/
def MaskCall.onPair (p : Pair) : MaskCall → Pair
  | .enable irqNum => if irqNum < 16 then p.withMask irqNum false else p
  | .disable irqNum => if irqNum < 16 then p.withMask irqNum true else p

theorem enableIrq_setUp (hp : TakesMasks p) :
    Triple board (SetUp p) (enableIrq irqNum) fun _ => SetUp ((MaskCall.enable irqNum).onPair p) :=
  changeMask_setUp false (fun _ _ => rfl) hp

theorem disableIrq_setUp (hp : TakesMasks p) :
    Triple board (SetUp p) (disableIrq irqNum) fun _ => SetUp ((MaskCall.disable irqNum).onPair p) :=
  changeMask_setUp true (fun _ _ => rfl) hp

/-- The controllers without their masks and requests. -/
def besideMasks (p : Pair) : Pair :=
  ⟨{ p.master.setup with imr := 0 }, { p.slave.setup with imr := 0 }⟩

theorem besideMasks_withMask (irq : Nat) (on : Bool) :
    besideMasks (p.withMask irq on) = besideMasks p := by
  unfold Pair.withMask
  dsimp only
  split <;> rfl

theorem besideMasks_onPair (p : Pair) (call : MaskCall) : besideMasks (call.onPair p) = besideMasks p := by
  cases call with
  | enable | disable =>
    unfold MaskCall.onPair
    dsimp only
    split
    · exact besideMasks_withMask _ _
    · rfl

theorem TakesMasks.of_beside {q : Pair} (hp : TakesMasks p) (h : besideMasks q = besideMasks p) :
    TakesMasks q :=
  ⟨(congrArg (fun r => r.master.expects) h).trans hp.1, (congrArg (fun r => r.slave.expects) h).trans hp.2⟩

theorem masked_onPair (call : MaskCall) {irq : Nat} (hirq : irq < 16) :
    (call.onPair p).masked irq = call.apply p.masked irq := by
  have hone : ∀ irqNum on, (if irqNum < 16 then p.withMask irqNum on else p).masked irq =
      Function.update p.masked irqNum on irq := by
    intro irqNum on
    split
    case isTrue h =>
      rw [Pair.masked_withMask p on h hirq, Function.update_apply]
      exact if_congr eq_comm rfl rfl
    case isFalse h => rw [Function.update_of_ne (by omega)]
  cases call with
  | enable irqNum => exact hone irqNum false
  | disable irqNum => exact hone irqNum true

theorem MaskCall.apply_congr (call : MaskCall) {f g : Nat → Bool} {irq : Nat} (h : f irq = g irq) :
    call.apply f irq = call.apply g irq := by
  cases call <;> simp only [MaskCall.apply, Function.update_apply, h]

/-- After a row of calls. -/
theorem calls_onPair (calls : List MaskCall) (p : Pair) :
    besideMasks (calls.foldl MaskCall.onPair p) = besideMasks p ∧
      ∀ irq < 16, (calls.foldl MaskCall.onPair p).masked irq = calls.foldl MaskCall.apply p.masked irq := by
  induction calls using List.reverseRecOn with
  | nil => exact ⟨rfl, fun _ _ => rfl⟩
  | append_singleton calls call ih =>
    simp only [List.foldl_append, List.foldl_cons, List.foldl_nil]
    refine ⟨(besideMasks_onPair _ _).trans ih.1, fun irq hirq => ?_⟩
    rw [masked_onPair call hirq]
    exact call.apply_congr (ih.2 irq hirq)

theorem calls_setUp (calls : List MaskCall) (hp : TakesMasks p) :
    Triple board (SetUp p) (calls.forM MaskCall.run) fun _ => SetUp (calls.foldl MaskCall.onPair p) := by
  refine Triple.forM (I := fun done => SetUp (done.foldl MaskCall.onPair p))
    (fun done => setUp_stable _) calls (fun done call => ?_) []
  have hdone : TakesMasks (done.foldl MaskCall.onPair p) := hp.of_beside (calls_onPair done p).1
  rw [List.foldl_append]
  cases call with
  | enable irqNum => exact enableIrq_setUp hdone
  | disable irqNum => exact disableIrq_setUp hdone

end Triples

/-- Whatever lines devices raise between its instructions, a row of calls leaves each line as the last
    call for it says, a line without a call as it was, and nothing else of the controllers changed but the
    requests; numbers above 15 do nothing. -/
theorem masks_after_calls (calls : List MaskCall) {d d' : Board} (hready : TakesMasks d.pics)
    (h : Exec board (calls.forM MaskCall.run) d () d') :
    (∀ irq < 16, d'.pics.masked irq = calls.foldl MaskCall.apply d.pics.masked irq) ∧
      besideMasks d'.pics = besideMasks d.pics := by
  have hset : d'.pics.setup = calls.foldl MaskCall.onPair d.pics.setup :=
    calls_setUp calls (p := d.pics.setup) hready d () d' rfl h
  obtain ⟨hbeside, hmasked⟩ := calls_onPair calls d.pics.setup
  rw [← hset] at hbeside hmasked
  exact ⟨hmasked, hbeside⟩

/-- The set-up of the controllers after the boot. -/
def bootSetUp : Pair where
  master :=
    { irr := 0, isr := 0, imr := 0xF8, base := 0x20, cascade := 0x04, mode := 0x01
      needsIcw4 := true, single := false, expects := .mask }
  slave :=
    { irr := 0, isr := 0, imr := 0xFE, base := 0x28, cascade := 0x02, mode := 0x01
      needsIcw4 := true, single := false, expects := .mask }

theorem masks_after_calls_three :
    ∃ d', Exec board ([MaskCall.enable 3, .disable 20, .disable 3].forM MaskCall.run)
        { pics := bootSetUp, cmos := ⟨0, 0, 0, 0, fun _ => 0⟩, ports := fun _ => 0, intFlag := false } () d' ∧
      d'.pics.masked 3 = true ∧ d'.pics.masked 8 = false :=
  have ⟨(), d', h⟩ := exists_exec _ _
  have hd := (masks_after_calls _ ⟨rfl, rfl⟩ h).1
  ⟨d', h, hd 3 (by decide), hd 8 (by decide)⟩

/-! ## The boot -/

section Boot

variable {p : Pair}

/-- No interrupt of the clock is enabled. -/
def ClockOff (d : Board) : Prop := d.cmos.regB &&& 0x70 = 0

def Periodic (d : Board) : Prop := d.cmos.regB.getLsbD 6 = true

theorem ClockOff.heard {d : Board} (h : ClockOff d) : d.Heard := by
  intro hirqf
  refine absurd hirqf ?_
  rw [Cmos.irqf, BitVec.and_assoc, BitVec.and_comm d.cmos.regC, ← BitVec.and_assoc, h]
  simp

theorem heard_stable : board.Stable Board.Heard := by
  rintro d d' ⟨e, he⟩ h
  exact h.ownStep he

theorem periodic_stable : board.Stable Periodic := by
  rintro d d' ⟨e, he⟩ h
  rwa [Periodic, regB_ownStep he]

theorem clockOff_stable : board.Stable ClockOff := by
  rintro d d' ⟨e, he⟩ h
  rwa [ClockOff, regB_ownStep he]

theorem heard_of_writes {m : PortProgram Unit} (hm : m.Writes KeepsRequests) :
    Triple board Board.Heard m fun _ => Board.Heard :=
  .of_writes heard_stable (fun _ _ _ hok h => h.out hok) (fun port _ h => h.inp port) (fun _ _ h => h) hm

/-- A program that does not write to the clock's registers. -/
def SparesClock (_ : BitVec 8) (port : Nat) : Prop := port ≠ 0x71

theorem spares_of {b : BitVec 8} {port : Nat} (h : (port != 0x71) = true) : SparesClock b port :=
  bne_iff_ne.mp h

theorem regB_of_writes {P : BitVec 8 → Prop} {m : PortProgram Unit}
    (hP : board.Stable fun d => P d.cmos.regB) (hm : m.Writes SparesClock) :
    Triple board (fun d => P d.cmos.regB) m fun _ d => P d.cmos.regB :=
  .of_writes hP (fun _ _ d hport h => by rwa [show (board.out _ _ d).cmos.regB = _ from regB_out hport])
    (fun port d h => by rwa [show (board.inp port d).2.cmos.regB = _ from regB_inp port])
    (fun _ _ h => h) hm

/-- What `i8259_init` makes of the controllers: only the masks of before are left. -/
def initialized (p : Pair) : Pair where
  master :=
    { irr := 0, isr := 0, imr := p.master.imr, base := 0x20, cascade := 0x04, mode := 0x01
      needsIcw4 := true, single := false, expects := .mask }
  slave :=
    { irr := 0, isr := 0, imr := p.slave.imr, base := 0x28, cascade := 0x02, mode := 0x01
      needsIcw4 := true, single := false, expects := .mask }

theorem i8259Init_setUp : Triple board (SetUp p) i8259Init fun _ => SetUp (initialized p) := by
  refine .seq (inb_setUp (.inl rfl)) fun masterMask => .of_and fun hmaster => ?_
  refine .seq (inb_setUp (.inr rfl)) fun slaveMask => .of_and fun hslave => ?_
  refine .seq outb_setUp fun _ => .seq outb_setUp fun _ => .seq outb_setUp fun _ => .seq outb_setUp fun _ =>
    .seq outb_setUp fun _ => .seq outb_setUp fun _ => .seq outb_setUp fun _ => .seq outb_setUp fun _ =>
    .seq outb_setUp fun _ => .seq outb_setUp fun _ => .seq outb_setUp fun _ =>
    outb_setUp.weaken (fun _ => id) fun _ d hd => hd.trans ?_
  subst hmaster hslave
  rfl

/-- The controllers with masks of their own. -/
def withMasks (master slave : BitVec 8) (p : Pair) : Pair :=
  ⟨{ p.master with imr := master }, { p.slave with imr := slave }⟩

theorem disableAll_setUp :
    Triple board (SetUp (initialized p)) ((List.range 16).forM disableIrq) fun _ =>
      SetUp (withMasks 0xFF 0xFF bootSetUp) := by
  have hones : ∀ x : BitVec 8, x ||| line 0 ||| line 1 ||| line 2 ||| line 3 ||| line 4 ||| line 5 |||
      line 6 ||| line 7 = 0xFF := by decide
  refine (calls_setUp ((List.range 16).map .disable) ⟨rfl, rfl⟩).weaken (fun _ => id) fun _ d hd =>
    hd.trans ?_
  exact congrArg₂ (withMasks · · (initialized p)) (hones p.master.imr) (hones p.slave.imr)

theorem outb_elsewhere {data : BitVec 8} {port : Nat} (h : Board.picsOut data port p = p) :
    Triple board (SetUp p) (outb data port) fun _ => SetUp p := by
  have hout : Triple board (SetUp p) (outb data port) fun _ => SetUp (Board.picsOut data port p) :=
    outb_setUp
  rwa [h] at hout

theorem inb_keeps (port : Nat) : Triple board (SetUp p) (inb port) fun _ => SetUp p := by
  refine .inb (setUp_stable p) (fun _ => setUp_stable p) ?_
  rintro d rfl
  exact setup_inp port d

theorem rtcInit_setUp (hp : TakesMasks p) :
    Triple board (SetUp p) rtcInit fun _ => SetUp ((MaskCall.enable 8).onPair p) :=
  .seq (outb_elsewhere rfl) fun _ => .seq (inb_keeps _) fun _ => .seq (outb_elsewhere rfl) fun _ =>
    .seq (outb_elsewhere rfl) fun _ => enableIrq_setUp hp

theorem pitInit_setUp (hp : TakesMasks p) :
    Triple board (SetUp p) pitInit fun _ => SetUp ((MaskCall.enable 0).onPair p) :=
  .seq (outb_elsewhere rfl) fun _ => .seq (outb_elsewhere rfl) fun _ => .seq (outb_elsewhere rfl) fun _ =>
    enableIrq_setUp hp

theorem entryDevices_setUp : Triple board (SetUp p) entryDevices fun _ => SetUp bootSetUp :=
  .seq i8259Init_setUp fun _ => .seq disableAll_setUp fun _ => .seq (enableIrq_setUp ⟨rfl, rfl⟩) fun _ =>
    .seq (rtcInit_setUp ⟨rfl, rfl⟩) fun _ => .seq (enableIrq_setUp ⟨rfl, rfl⟩) fun _ =>
    (pitInit_setUp ⟨rfl, rfl⟩).weaken (fun _ => id) fun _ _ hd => hd.trans (by decide)

/-! The clock's interrupt through the boot. -/

theorem changeMask_writes {ok : BitVec 8 → Nat → Prop} (h : ∀ b, ok b 0x21 ∧ ok b 0xA1)
    (change : BitVec 8 → BitVec 8 → BitVec 8) (irqNum : Nat) : (changeMask change irqNum).Writes ok := by
  unfold changeMask
  split
  · trivial
  · intro b
    refine ⟨?_, trivial⟩
    split
    · exact (h _).1
    · exact (h _).2

theorem keeps_mask (b : BitVec 8) : KeepsRequests b 0x21 ∧ KeepsRequests b 0xA1 := by
  constructor <;> rintro (h | h) <;> cases h

theorem enableIrq_heard (irqNum : Nat) :
    Triple board (fun d => d.Heard ∧ Periodic d) (enableIrq irqNum) fun _ d => d.Heard ∧ Periodic d :=
  (heard_of_writes (changeMask_writes keeps_mask _ irqNum)).and
    (regB_of_writes (P := fun b => b.getLsbD 6 = true) periodic_stable
      (changeMask_writes (fun _ => ⟨spares_of rfl, spares_of rfl⟩) _ irqNum))

/-- Register `r` of the clock is selected. -/
def Selects (r : BitVec 8) (d : Board) : Prop := d.cmos.index = r

theorem selects_stable (r : BitVec 8) : board.Stable (Selects r) := by
  rintro d d' ⟨e, he⟩ h
  cases e with
  | raise irq =>
    rw [Board.ownStep, Option.ite_none_right_eq_some] at he
    obtain ⟨-, ⟨⟩⟩ := he
    exact h
  | flags | change => cases he; exact h

/-- `rtc_init` enables the periodic interrupt. -/
theorem rtcInit_periodic : Triple board ClockOff rtcInit fun _ d => d.Heard ∧ Periodic d := by
  have hselect : ∀ b, Triple board ClockOff (outb b rtcPort) fun _ => ClockOff := fun b =>
    .outb clockOff_stable clockOff_stable fun d h => by
      rwa [ClockOff, show (board.out b rtcPort d).cmos.regB = _ from regB_out (by decide)]
  refine .seq (hselect _) fun _ => .seq (R := fun _ => ClockOff) ?_ fun prev => ?_
  · refine .inb clockOff_stable (fun _ => clockOff_stable) fun d h => ?_
    rwa [ClockOff, show (board.inp rtcData d).2.cmos.regB = _ from regB_inp _]
  refine .seq (R := fun _ d => ClockOff d ∧ Selects 0x0B d)
    (.outb clockOff_stable (clockOff_stable.and (selects_stable _)) fun d h => ⟨?_, rfl⟩) fun _ => ?_
  · exact h
  refine .seq (.outb (clockOff_stable.and (selects_stable _)) (heard_stable.and periodic_stable) ?_)
    fun _ => enableIrq_heard rtcIrqLine
  rintro d ⟨hoff, hindex⟩
  refine ⟨hoff.heard.setCmos _, ?_⟩
  show (d.cmos.write (prev ||| 0x40)).regB.getLsbD 6 = true
  have hindex' : d.cmos.index = 0x0B := hindex
  rw [Cmos.write, hindex', if_neg (by decide), if_pos rfl]
  split <;> simp

theorem i8259Init_spares : i8259Init.Writes SparesClock := fun _ _ =>
  ⟨spares_of rfl, spares_of rfl, spares_of rfl, spares_of rfl, spares_of rfl, spares_of rfl,
    spares_of rfl, spares_of rfl, spares_of rfl, spares_of rfl, spares_of rfl, spares_of rfl, trivial⟩

/-- The timer's ports are neither the clock's nor those of the controllers. -/
theorem pitInit_heard :
    Triple board (fun d => d.Heard ∧ Periodic d) pitInit fun _ d => d.Heard ∧ Periodic d := by
  have hport : ∀ {b : BitVec 8} {port : Nat}, (port = 0x46 ∨ port = 0x40) →
      Triple board (fun d => d.Heard ∧ Periodic d) (outb b port) fun _ d => d.Heard ∧ Periodic d := by
    intro b port h
    have hkeeps : (outb b port).Writes KeepsRequests := by
      refine ⟨?_, trivial⟩
      rintro (rfl | rfl) <;> rcases h with h | h <;> cases h
    have hspares : (outb b port).Writes SparesClock := by
      refine ⟨?_, trivial⟩
      rcases h with rfl | rfl <;> exact spares_of rfl
    exact (heard_of_writes hkeeps).and
      (regB_of_writes (P := fun b => b.getLsbD 6 = true) periodic_stable hspares)
  exact .seq (hport (.inl rfl)) fun _ => .seq (hport (.inr rfl)) fun _ => .seq (hport (.inr rfl)) fun _ =>
    enableIrq_heard 0

/-- No interrupt of the clock comes before the controllers are initialized: an edge from then on is
    latched, though its line is still masked. -/
theorem entryDevices_clock : Triple board ClockOff entryDevices fun _ d => d.Heard ∧ Periodic d := by
  have hoff : ∀ {m : PortProgram Unit}, m.Writes SparesClock → Triple board ClockOff m fun _ => ClockOff :=
    fun hm => regB_of_writes (P := fun b => b &&& 0x70 = 0) clockOff_stable hm
  have hmask : ∀ change irqNum, (changeMask change irqNum).Writes SparesClock := fun change irqNum =>
    changeMask_writes (fun _ => ⟨spares_of rfl, spares_of rfl⟩) change irqNum
  exact .seq (hoff i8259Init_spares) fun _ => .seq (hoff (Writes.forM (hmask _) _)) fun _ =>
    .seq (hoff (hmask _ 2)) fun _ => .seq rtcInit_periodic fun _ => .seq (enableIrq_heard 1) fun _ =>
    pitInit_heard

end Boot

/-- Whatever the firmware has left in the controllers and whatever lines devices raise meanwhile, the
    boot leaves open the lines of the timer, the keyboard, the second controller and the clock and masks
    the others; the lines have the vectors from 0x20 on, nothing is in service, and the clock's periodic
    interrupt is enabled and not lost. -/
theorem boot_opens_lines {d d' : Board} (hclock : ClockOff d) (h : Exec board entryDevices d () d') :
    (∀ irq < 16, d'.pics.masked irq = decide (irq ∉ [0, 1, 2, 8])) ∧
      (∀ irq < 16, d'.pics.vector irq = 0x20 + irq) ∧
      d'.pics.Cascaded 2 ∧ d'.pics.Serves 2 none ∧ d'.Heard ∧ Periodic d' := by
  have hsetUp : d'.pics.setup = bootSetUp := entryDevices_setUp (p := d.pics.setup) d () d' rfl h
  have hread : ∀ {β : Type} (f : Pair → β), f d'.pics.setup = f bootSetUp := fun f => congrArg f hsetUp
  have hmasked : ∀ irq < 16, bootSetUp.masked irq = decide (irq ∉ [0, 1, 2, 8]) := by decide
  have hvector : ∀ irq < 16, bootSetUp.vector irq = 0x20 + irq := by decide
  rw [← hsetUp] at hmasked hvector
  exact ⟨hmasked, hvector,
    ⟨⟨hread (·.master.expects), hread (·.master.mode.getLsbD 1)⟩,
      ⟨hread (·.slave.expects), hread (·.slave.mode.getLsbD 1)⟩, hread (·.master.cascade),
      hread (·.slave.cascade.toNat)⟩,
    ⟨hread (·.master.isr), hread (·.slave.isr)⟩, entryDevices_clock d () d' hclock h⟩

/-- Controllers still without a set-up, and a clock with an old flag. -/
def coldBoard : Board :=
  let chip : Chip :=
    { irr := 0x0F, isr := 0x10, imr := 0xB8, base := 0x08, cascade := 0, mode := 0, needsIcw4 := true
      single := false, expects := .icw3 }
  { pics := ⟨chip, chip⟩
    cmos := { index := 0, regA := 0x26, regB := 0x02, regC := 0x40, cells := fun _ => 0 }
    ports := fun _ => 0, intFlag := false }

theorem boot_opens_lines_cold :
    ∃ d', Exec board entryDevices coldBoard () d' ∧ d'.pics.masked 8 = false ∧ d'.pics.masked 9 = true :=
  have ⟨(), d', h⟩ := exists_exec entryDevices coldBoard
  have hd := (boot_opens_lines (d := coldBoard) rfl h).1
  ⟨d', h, hd 8 (by decide), hd 9 (by decide)⟩

end ByteVerse
