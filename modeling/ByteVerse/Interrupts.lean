/-
  Interrupts, over whole runs: the devices, the controllers, the processor and the kernel's handlers.

  A handler's work at the ports is a `PortProgram`; devices raise their lines between any two of its
  instructions, and the processor takes an interrupt whenever the flag allows it.  The rest of the
  kernel, and the programs, only turn the flag on and off.

  1. Whenever interrupts are on, nothing is in service, so that no line is blocked; a handler starts for
     a request of its own device only, and no request is lost (`interrupts_served`).
  2. The clock's line, once up, is always on its way to a read of register C, which takes it down again
     (`clock_keeps_ticking`).
-/
import ByteVerse.I8259
import ByteVerse.Idt
import ByteVerse.Run

namespace ByteVerse

open PortIo Pic Run Words

/-! ## The handlers at the ports -/

def keyboardData : Nat := 0x60

/-- `rtc_handler`, behind its counters. -/
def rtcHandlerPorts : PortProgram Unit := do
  outb rtcRegC rtcPort
  let _ ← inb rtcData
  sendEoi rtcIrqLine

/-- `keyboard_handler`, up to the scan code. -/
def keyboardHandlerPorts : PortProgram Unit := do
  sendEoi 1
  let _ ← inb keyboardData

/-- `pit_handler`, up to the call of `scheduler`. -/
def pitHandlerPorts : PortProgram Unit := do
  interruptsOff
  sendEoi 0
  interruptsOn

/-- What a routine that a gate leads to does at the ports. -/
def Stub.ports : Stub → PortProgram Unit
  | .rtcHandler => rtcHandlerPorts
  | .keyboardHandler => keyboardHandlerPorts
  | .pitHandler => pitHandlerPorts
  | _ => pure ()

/-- The device whose requests a routine handles. -/
def Stub.irq : Stub → Option Nat
  | .pitHandler => some 0
  | .keyboardHandler => some 1
  | .rtcHandler => some 8
  | _ => none

/-- The routine at an address. -/
def routineAt (address : Stub → Word) (offset : Word) : Option Stub :=
  (idtEntries.map Prod.snd).find? fun s => decide (address s = offset)

/-! ## The machine -/

inductive Activity
  /-- A program or the kernel, away from the controllers' ports and the clock's. -/
  | code
  | handler (stub : Stub) (rest : PortProgram Unit)
  /-- The processor has jumped to no routine of the kernel. -/
  | lost

def Activity.of (stub : Stub) : PortProgram Unit → Activity
  | .done _ => .code
  | rest => .handler stub rest

inductive IrqNote
  | asked (irq : Nat)
  | started (stub : Stub)

structure IrqMachine where
  board : Board
  activity : Activity
  /-- The requests and the starts of handlers, the last one first. -/
  log : List IrqNote

inductive IrqEvent
  | own (e : OwnStep)
  /-- The processor takes an interrupt. -/
  | accept
  /-- The handler's next instruction at a port. -/
  | port
  /-- Other code turns interrupts on or off: `sti`, `cli`, `popf` or `iret`. -/
  | flag (on : Bool)

/-- The line on which a step of the devices makes an edge. -/
def Board.edge (d : Board) : OwnStep → Option Nat
  | .raise irq => some irq
  | .flags bits => if (d.cmos.withFlags bits).irqf && !d.cmos.irqf then some 8 else none
  | .change _ _ _ => none

/-- Where the processor goes for a vector. -/
def enter (address : Stub → Word) (m : IrqMachine) (v : Nat) (pics : Pair) : IrqMachine :=
  match deliver (initIdt address zeroIdt) 0 v with
  | .error _ => { m with activity := .lost }
  | .ok entry =>
    match routineAt address entry.offset with
    | none => { m with activity := .lost }
    | some stub =>
      { board := { m.board with pics := pics, intFlag := m.board.intFlag && entry.keepsFlag }
        activity := .of stub stub.ports
        log := .started stub :: m.log }

def irqStep (address : Stub → Word) (m : IrqMachine) : IrqEvent → Option IrqMachine
  | .own e => (m.board.ownStep e).map fun b =>
      { m with board := b, log := ((m.board.edge e).map .asked).toList ++ m.log }
  | .accept =>
    if m.board.intFlag then m.board.pics.inta.map fun vp => enter address m vp.1 vp.2 else none
  | .port =>
    match m.activity with
    | .handler stub rest =>
      let next := rest.step board m.board
      some { m with board := next.2, activity := .of stub next.1 }
    | _ => none
  | .flag on =>
    match m.activity with
    | .code => some { m with board := { m.board with intFlag := on } }
    | _ => none

/-- The machine after the boot; what is pending then counts as asked for. -/
def irqBoot (d : Board) : IrqMachine where
  board := d
  activity := .code
  log := ((List.range 16).filter d.pics.pending).map .asked

/-- A device has asked since its handler last started. -/
def waiting (irq : Nat) : List IrqNote → Bool
  | [] => false
  | .asked n :: log => n = irq || waiting irq log
  | .started stub :: log => stub.irq ≠ some irq && waiting irq log

/-- Each handler has started for a request of its device. -/
def Answered : List IrqNote → Prop
  | [] => True
  | .asked _ :: log => Answered log
  | .started stub :: log => (∃ irq, stub.irq = some irq ∧ waiting irq log = true) ∧ Answered log

/-! ## What a handler still does -/

/-- Left to itself, the program takes the controllers back to where the boot left them, with interrupts off
    up to its last instruction. -/
def Completes : PortProgram Unit → Pair → Prop
  | .done _, p => p = bootSetUp
  | .outb data port next, p => Completes next (Board.picsOut data port p)
  | .inb _ next, p => ∀ b, Completes (next b) p
  | .setFlag on next, p => (on = true → next = .done ()) ∧ Completes next p

/-- Left to itself, it reads register C of the clock, of which `index` is selected. -/
def ReadsClock : PortProgram Unit → BitVec 8 → Prop
  | .done _, _ => False
  | .outb data port next, index => ReadsClock next (if port = 0x70 then data &&& 0x7F else index)
  | .inb port next, index => (port = 0x71 ∧ index = 0x0C) ∨ ∀ b, ReadsClock (next b) index
  | .setFlag _ next, index => ReadsClock next index

/-- The bytes that handlers write leave the requests and the clock's registers alone. -/
def HandlerByte (b : BitVec 8) (port : Nat) : Prop := KeepsRequests b port ∧ SparesClock b port

/-- A handler in progress. -/
structure InProgress (rest : PortProgram Unit) (d : Board) : Prop where
  unfinished : rest ≠ .done ()
  flag : d.intFlag = false
  completes : Completes rest d.pics.setup
  writes : rest.Writes HandlerByte

structure IrqInv (m : IrqMachine) : Prop where
  notLost : m.activity ≠ .lost
  code : m.activity = .code → m.board.pics.setup = bootSetUp
  handler : ∀ stub rest, m.activity = .handler stub rest → InProgress rest m.board
  clock : m.board.cmos.irqf = true → m.board.pics.pending 8 = true ∨
    ∃ stub rest, m.activity = .handler stub rest ∧ ReadsClock rest m.board.cmos.index
  periodic : Periodic m.board
  log : ∀ irq < 16, irq ≠ 2 → m.board.pics.pending irq = waiting irq m.log
  answered : Answered m.log

section Steps

variable {address : Stub → Word} {m m' : IrqMachine} {d d' : Board} {irq : Nat}

/-! The devices by themselves. -/

theorem pending_ownStep {e : OwnStep} (h : d.ownStep e = some d') (hirq : irq < 16) :
    d'.pics.pending irq = (d.pics.pending irq || decide (d.edge e = some irq)) := by
  cases e with
  | raise n =>
    rw [Board.ownStep, Option.ite_none_right_eq_some] at h
    obtain ⟨hn, ⟨⟩⟩ := h
    rw [Pair.pending_raise _ hn.1 hirq]
    simp [Board.edge]
  | flags bits =>
    cases h
    rw [pending_setCmos _ _ hirq]
    unfold Board.edge
    by_cases hrise : ((d.cmos.withFlags bits).irqf && !d.cmos.irqf) = true
    · simp [hrise]
    · simp [Bool.eq_false_iff.mpr hrise]
  | change =>
    cases h
    simp [Board.edge]

theorem index_ownStep {e : OwnStep} (h : d.ownStep e = some d') :
    d'.cmos.index = d.cmos.index ∧ d'.intFlag = d.intFlag := by
  cases e with
  | raise n =>
    rw [Board.ownStep, Option.ite_none_right_eq_some] at h
    obtain ⟨-, ⟨⟩⟩ := h
    exact ⟨rfl, rfl⟩
  | flags | change => cases h; exact ⟨rfl, rfl⟩

/-- The clock's line goes up with an edge. -/
theorem irqf_ownStep {e : OwnStep} (h : d.ownStep e = some d') (hup : d'.cmos.irqf = true) :
    d.cmos.irqf = true ∨ d'.pics.pending 8 = true := by
  by_cases hold : d.cmos.irqf = true
  · exact .inl hold
  · have hheard : d.Heard := fun hirqf => absurd hirqf hold
    exact .inr (hheard.ownStep h hup)

theorem waiting_edge (n : Option Nat) (log : List IrqNote) :
    waiting irq ((n.map .asked).toList ++ log) = (waiting irq log || decide (n = some irq)) := by
  cases n with
  | none => simp
  | some n => simp [waiting, Bool.or_comm]

theorem answered_edge {n : Option Nat} {log : List IrqNote} (h : Answered log) :
    Answered ((n.map .asked).toList ++ log) := by
  cases n <;> exact h

theorem IrqInv.own (h : IrqInv m) {e : OwnStep} (hstep : irqStep address m (.own e) = some m') :
    IrqInv m' := by
  obtain ⟨d', hd', rfl⟩ := Option.map_eq_some_iff.mp hstep
  have hsetUp := setup_ownStep hd'
  obtain ⟨hindex, hflag⟩ := index_ownStep hd'
  refine ⟨h.notLost, fun hcode => hsetUp.trans (h.code hcode), fun stub rest hrest => ?_, fun hirqf => ?_,
    ?_, fun irq hirq hne => ?_, answered_edge h.answered⟩
  · obtain ⟨hunf, hoff, hcompletes, hwrites⟩ := h.handler stub rest hrest
    exact ⟨hunf, hflag.trans hoff, by rwa [hsetUp], hwrites⟩
  · rcases irqf_ownStep hd' hirqf with hold | hpending
    · rcases h.clock hold with hpending | ⟨stub, rest, hrest, hreads⟩
      · exact .inl (by rw [pending_ownStep hd' (by omega), hpending, Bool.true_or])
      · exact .inr ⟨stub, rest, hrest, hindex ▸ hreads⟩
    · exact .inl hpending
  · exact periodic_stable _ _ ⟨e, hd'⟩ h.periodic
  · rw [pending_ownStep hd' hirq, waiting_edge, h.log irq hirq hne]

/-! The processor takes an interrupt. -/

theorem pending_ack (p : Pair) {n : Nat} (hirq : irq < 16) (hn : n < 16) (hne : n ≠ 2) :
    (p.ack 2 irq).pending n = (p.pending n && !decide (irq = n)) := by
  unfold Pair.ack Pair.pending
  by_cases h : irq < 8 <;> by_cases h' : n < 8
  · simp only [h, h', if_true, Chip.ack, getLsbD_clear _ _ h']
  · rw [if_pos h, if_neg h', if_neg h', decide_eq_false (by omega), Bool.not_false, Bool.and_true]
  · rw [if_neg h, if_pos h', if_pos h', decide_eq_false (by omega)]
    simp only [Chip.ack, getLsbD_clear _ _ h', decide_eq_false (Ne.symm hne)]
  · simp only [h, h', if_false, Chip.ack]
    rw [getLsbD_clear _ _ (by omega)]
    congr 3
    simp only [eq_iff_iff]
    omega

theorem setup_ack (p : Pair) (irq : Nat) : (p.ack 2 irq).setup = (p.setup.ack 2 irq).setup := by
  unfold Pair.ack
  split <;> rfl

/-- The requests that get at the processor after the boot. -/
theorem irq_of_open {p : Pair} (hp : p.setup = bootSetUp) (hirq : irq < 16) (hne : irq ≠ 2)
    (hopen : p.Open 2 irq) : irq = 0 ∨ irq = 1 ∨ irq = 8 := by
  have hboot : ∀ irq < 16, irq ≠ 2 → bootSetUp.masked irq = false → irq = 0 ∨ irq = 1 ∨ irq = 8 := by
    decide
  exact hboot irq hirq hne (hp ▸ hopen.1)

theorem open_of_irq {p : Pair} (hp : p.setup = bootSetUp) (hirq : irq = 0 ∨ irq = 1 ∨ irq = 8) :
    p.Open 2 irq := by
  have hmasked : ∀ n, p.masked n = bootSetUp.masked n := fun n => congrArg (·.masked n) hp
  rw [Pair.Open, hmasked, hmasked]
  rcases hirq with rfl | rfl | rfl <;> decide

theorem cascaded_of_setUp {p : Pair} (hp : p.setup = bootSetUp) : p.Cascaded 2 ∧ p.Serves 2 none := by
  have hread : ∀ {β : Type} (f : Pair → β), f p.setup = f bootSetUp := fun f => congrArg f hp
  exact ⟨⟨⟨hread (·.master.expects), hread (·.master.mode.getLsbD 1)⟩,
    ⟨hread (·.slave.expects), hread (·.slave.mode.getLsbD 1)⟩, hread (·.master.cascade),
    hread (·.slave.cascade.toNat)⟩, hread (·.master.isr), hread (·.slave.isr)⟩

theorem routineAt_eq (hinj : Function.Injective address) {stub : Stub}
    (hmem : stub ∈ idtEntries.map Prod.snd) : routineAt address (address stub) = some stub := by
  have hfound : (routineAt address (address stub)).isSome := by
    rw [routineAt, List.find?_isSome]
    exact ⟨stub, hmem, decide_eq_true rfl⟩
  obtain ⟨s, hs⟩ := Option.isSome_iff_exists.mp hfound
  have hfind := List.find?_some (p := fun s => decide (address s = address stub)) hs
  rw [hs, hinj (of_decide_eq_true hfind)]

/-- A line that gets at the processor: the routine behind its vector is that of its device. -/
theorem enter_irq (hinj : Function.Injective address) (hirq : irq = 0 ∨ irq = 1 ∨ irq = 8) :
    ∃ stub, stub.irq = some irq ∧ ∀ m pics, enter address m (0x20 + irq) pics =
      { board := { m.board with pics := pics, intFlag := false }
        activity := .handler stub stub.ports
        log := .started stub :: m.log } := by
  obtain ⟨stub, hstub, hmem, hports⟩ : ∃ stub : Stub, stub.irq = some irq ∧
      (0x20 + irq, stub) ∈ idtEntries ∧ Activity.of stub stub.ports = .handler stub stub.ports := by
    rcases hirq with rfl | rfl | rfl
    · exact ⟨.pitHandler, rfl, by decide, rfl⟩
    · exact ⟨.keyboardHandler, rfl, by decide, rfl⟩
    · exact ⟨.rtcHandler, rfl, by decide, rfl⟩
  have hdeliver : deliver (initIdt address zeroIdt) 0 (0x20 + irq) =
      .ok { selector := kernelCs, offset := address stub, keepsFlag := false } := by
    rw [deliver_gate 0 (address stub) (.inr (initIdt_entry address hmem)), if_neg (by omega),
      if_neg (by omega), decide_eq_false (by omega)]
  refine ⟨stub, hstub, fun m pics => ?_⟩
  unfold enter
  simp only [hdeliver, routineAt_eq hinj (List.mem_map_of_mem hmem), hports, Bool.and_false]

/-- The routine of each device finishes what the acknowledgement began. -/
theorem starts_inProgress {stub : Stub} (hstub : stub.irq = some irq) (hp : d.pics.setup = bootSetUp) :
    InProgress stub.ports { d with pics := d.pics.ack 2 irq, intFlag := false } := by
  have hkeeps : ∀ port, KeepsRequests picEoi port := fun _ _ => by decide
  have hsetUp : (d.pics.ack 2 irq).setup = (bootSetUp.ack 2 irq).setup := hp ▸ setup_ack d.pics irq
  have heoi : ∀ n, (n = 0 ∨ n = 1) →
      Board.picsOut picEoi master8259Port (bootSetUp.ack 2 n).setup = bootSetUp := by
    rintro n (rfl | rfl) <;> decide
  have heois : Board.picsOut picEoi master8259Port
      (Board.picsOut picEoi slave8259Port (bootSetUp.ack 2 8).setup) = bootSetUp := by decide
  cases stub with
  | pitHandler =>
    obtain rfl : 0 = irq := Option.some.inj hstub
    refine ⟨nofun, rfl, ?_, ⟨hkeeps _, spares_of rfl⟩, trivial⟩
    rw [hsetUp]
    exact ⟨nofun, fun _ => rfl, heoi 0 (.inl rfl)⟩
  | keyboardHandler =>
    obtain rfl : 1 = irq := Option.some.inj hstub
    refine ⟨nofun, rfl, ?_, ⟨hkeeps _, spares_of rfl⟩, fun _ => trivial⟩
    rw [hsetUp]
    exact fun _ => heoi 1 (.inr rfl)
  | rtcHandler =>
    obtain rfl : 8 = irq := Option.some.inj hstub
    refine ⟨nofun, rfl, ?_, ⟨?_, spares_of rfl⟩, fun _ => ⟨⟨hkeeps _, spares_of rfl⟩,
      ⟨hkeeps _, spares_of rfl⟩, trivial⟩⟩
    · rw [hsetUp]
      exact fun _ => heois
    · rintro (h | h) <;> cases h
  | _ => cases hstub

/-- While interrupts are on, no handler is at its ports. -/
theorem IrqInv.code_of_flag (h : IrqInv m) (hflag : m.board.intFlag = true) : m.activity = .code := by
  rcases hact : m.activity with _ | ⟨stub, rest⟩ | _
  · rfl
  · exact absurd ((h.handler stub rest hact).flag.symm.trans hflag) nofun
  · exact absurd hact h.notLost

theorem IrqInv.accept (hinj : Function.Injective address) (h : IrqInv m)
    (hstep : irqStep address m .accept = some m') : IrqInv m' := by
  rw [irqStep, Option.ite_none_right_eq_some] at hstep
  obtain ⟨hflag, hstep⟩ := hstep
  obtain ⟨⟨v, pics⟩, hinta, rfl⟩ := Option.map_eq_some_iff.mp hstep
  have hcode := h.code_of_flag hflag
  have hboot := h.code hcode
  obtain ⟨hcascaded, hidle⟩ := cascaded_of_setUp hboot
  obtain ⟨irq, hirq, hne, hpend, hopen, rfl, rfl⟩ := inta_idle (by decide) hcascaded hidle hinta
  have hdevice := irq_of_open hboot hirq hne hopen
  obtain ⟨stub, hstub, henter⟩ := enter_irq hinj hdevice
  have hvector : m.board.pics.vector irq = 0x20 + irq := by
    have hv : m.board.pics.vector irq = bootSetUp.vector irq := congrArg (·.vector irq) hboot
    rw [hv]
    rcases hdevice with rfl | rfl | rfl <;> rfl
  rw [hvector, henter]
  have hlog : ∀ n < 16, n ≠ 2 → (m.board.pics.ack 2 irq).pending n = waiting n (.started stub :: m.log) := by
    intro n hn hn2
    rw [pending_ack _ hirq hn hn2, h.log n hn hn2, waiting, hstub, Bool.and_comm]
    simp
  refine ⟨nofun, nofun, fun stub' rest hrest => ?_, fun hirqf => ?_, h.periodic, hlog,
    ⟨irq, hstub, (h.log irq hirq hne).symm.trans hpend⟩, h.answered⟩
  · cases hrest
    exact starts_inProgress hstub hboot
  · by_cases h8 : irq = 8
    · subst h8
      refine .inr ⟨stub, _, rfl, ?_⟩
      cases stub with
      | rtcHandler => exact .inl ⟨rfl, rfl⟩
      | _ => exact absurd hstub (by decide)
    · rcases h.clock hirqf with hpending | ⟨stub, rest, hrest, -⟩
      · refine .inl ?_
        rw [pending_ack _ hirq (by omega) (by omega), hpending, decide_eq_false h8]
        rfl
      · exact absurd (hcode.symm.trans hrest) nofun

/-- A pending request of the three devices does get at the processor. -/
theorem IrqInv.accept_isSome (h : IrqInv m) (hflag : m.board.intFlag = true)
    (hirq : irq = 0 ∨ irq = 1 ∨ irq = 8) (hpend : m.board.pics.pending irq = true) :
    (irqStep address m .accept).isSome := by
  have hcode := h.code_of_flag hflag
  obtain ⟨hcascaded, hidle⟩ := cascaded_of_setUp (h.code hcode)
  rw [irqStep, if_pos hflag, Option.isSome_map]
  exact inta_isSome (by decide) hcascaded hidle (by omega) (by omega) hpend
    (open_of_irq (h.code hcode) hirq)

/-! The handlers at the ports, and the rest of the code. -/

/-- Only the read of register C takes the clock's line down. -/
theorem irqf_read {c : Cmos} (h : c.read.2.irqf = true) :
    c.irqf = true ∧ c.index ≠ 0x0C ∧ c.read.2.index = c.index := by
  unfold Cmos.read at h ⊢
  split at h
  case isTrue ha => exact ⟨h, by rw [ha]; decide, by rw [if_pos ha]⟩
  case isFalse ha =>
    rw [if_neg ha]
    split at h
    case isTrue hb => exact ⟨h, by rw [hb]; decide, by rw [if_pos hb]⟩
    case isFalse hb =>
      rw [if_neg hb]
      split at h
      case isTrue hc =>
        refine absurd h ?_
        simp [Cmos.irqf]
      case isFalse hc => exact ⟨h, hc, by rw [if_neg hc]⟩

theorem pending_inp (d : Board) (port : Nat) (hirq : irq < 16) :
    (d.inp port).2.pics.pending irq = d.pics.pending irq := by
  by_cases hport : port = 0x71
  · subst hport
    have hfalls : (d.cmos.read.2.irqf && !d.cmos.irqf) = false := by
      by_cases hup : d.cmos.read.2.irqf = true
      · rw [(irqf_read hup).1, Bool.not_true, Bool.and_false]
      · rw [Bool.eq_false_iff.mpr hup, Bool.false_and]
    refine (pending_setCmos _ _ hirq).trans ?_
    rw [hfalls, Bool.and_false, Bool.or_false]
  · rw [inp_elsewhere hport]

theorem pending_out {b : BitVec 8} {port : Nat} (h : HandlerByte b port) :
    (d.out b port).pics.pending irq = d.pics.pending irq := by
  unfold Board.out
  split
  · rfl
  · rw [if_neg h.2]
    exact pending_picsOut d.pics h.1

theorem activity_of (stub : Stub) (rest : PortProgram Unit) :
    (rest = .done () ∧ Activity.of stub rest = .code) ∨
      (rest ≠ .done () ∧ Activity.of stub rest = .handler stub rest) := by
  cases rest with
  | done => exact .inl ⟨rfl, rfl⟩
  | outb | inb | setFlag => exact .inr ⟨nofun, rfl⟩

/-- One instruction of a handler. -/
theorem InProgress.step {rest : PortProgram Unit} (h : InProgress rest d) :
    Completes (rest.step board d).1 (rest.step board d).2.pics.setup ∧
      (rest.step board d).1.Writes HandlerByte ∧
      ((rest.step board d).1 = .done () ∨ (rest.step board d).2.intFlag = false) := by
  have hcompletes := h.completes
  cases rest with
  | done => exact absurd rfl h.unfinished
  | outb data port next =>
    refine ⟨?_, h.writes.2, .inr ?_⟩
    · show Completes next (d.out data port).pics.setup
      rw [setup_out]
      exact hcompletes
    · show (d.out data port).intFlag = false
      unfold Board.out
      repeat' split
      all_goals exact h.flag
  | inb port next =>
    refine ⟨?_, h.writes _, .inr ?_⟩
    · show Completes (next _) (d.inp port).2.pics.setup
      rw [setup_inp]
      exact hcompletes _
    · show (d.inp port).2.intFlag = false
      by_cases hport : port = 0x71
      · rw [hport]
        exact h.flag
      · rw [inp_elsewhere hport]
        exact h.flag
  | setFlag on next =>
    refine ⟨hcompletes.2, h.writes, ?_⟩
    cases on with
    | true => exact .inl (hcompletes.1 rfl)
    | false => exact .inr rfl

theorem pending_step {rest : PortProgram Unit} (h : InProgress rest d) (hirq : irq < 16) :
    (rest.step board d).2.pics.pending irq = d.pics.pending irq := by
  cases rest with
  | done => rfl
  | outb data port next => exact pending_out h.writes.1
  | inb port next => exact pending_inp d port hirq
  | setFlag => rfl

theorem regB_step {rest : PortProgram Unit} (h : InProgress rest d) :
    (rest.step board d).2.cmos.regB = d.cmos.regB := by
  cases rest with
  | done | setFlag => rfl
  | outb data port next => exact regB_out h.writes.1.2
  | inb port next => exact regB_inp port

/-- The clock's line through an instruction: it goes down, or the read of register C is still to come. -/
theorem clock_step {rest : PortProgram Unit} (h : InProgress rest d)
    (hirqf : (rest.step board d).2.cmos.irqf = true) :
    d.cmos.irqf = true ∧ (ReadsClock rest d.cmos.index →
      ReadsClock (rest.step board d).1 (rest.step board d).2.cmos.index) := by
  cases rest with
  | done => exact ⟨hirqf, id⟩
  | outb data port next =>
    have hport : port ≠ 0x71 := h.writes.1.2
    have hindex : (d.out data port).cmos.index = if port = 0x70 then data &&& 0x7F else d.cmos.index := by
      unfold Board.out
      rw [if_neg hport]
      split <;> rfl
    refine ⟨?_, fun hreads => ?_⟩
    · rw [← hirqf]
      show _ = (d.out data port).cmos.irqf
      unfold Board.out
      rw [if_neg hport]
      split <;> rfl
    · show ReadsClock next (d.out data port).cmos.index
      rw [hindex]
      exact hreads
  | inb port next =>
    by_cases hport : port = 0x71
    · subst hport
      obtain ⟨hup, hindex, hsame⟩ := irqf_read hirqf
      refine ⟨hup, fun hreads => ?_⟩
      rcases hreads with ⟨-, hc⟩ | hnext
      · exact absurd hc hindex
      · show ReadsClock _ d.cmos.read.2.index
        rw [hsame]
        exact hnext _
    · have hsame : (d.inp port).2 = d := inp_elsewhere hport d
      refine ⟨by rw [← hirqf]; exact congrArg (·.cmos.irqf) hsame.symm, fun hreads => ?_⟩
      show ReadsClock _ (d.inp port).2.cmos.index
      rw [hsame]
      rcases hreads with ⟨h71, -⟩ | hnext
      · exact absurd h71 hport
      · exact hnext _
  | setFlag => exact ⟨hirqf, id⟩

theorem IrqInv.port (h : IrqInv m) (hstep : irqStep address m .port = some m') : IrqInv m' := by
  rcases hact : m.activity with _ | ⟨stub, rest⟩ | _
  · rw [irqStep, hact] at hstep
    cases hstep
  · rw [irqStep, hact] at hstep
    cases hstep
    have hprogress := h.handler stub rest hact
    obtain ⟨hcompletes, hwrites, hflag⟩ := hprogress.step
    have hclock : (rest.step board m.board).2.cmos.irqf = true →
        (rest.step board m.board).2.pics.pending 8 = true ∨
          ReadsClock (rest.step board m.board).1 (rest.step board m.board).2.cmos.index := by
      intro hirqf
      obtain ⟨hold, hreads⟩ := clock_step hprogress hirqf
      rcases h.clock hold with hpending | ⟨stub', rest', hrest', hreads'⟩
      · exact .inl (by rw [pending_step hprogress (by omega), hpending])
      · cases hact.symm.trans hrest'
        exact .inr (hreads hreads')
    have hlog : ∀ irq < 16, irq ≠ 2 →
        (rest.step board m.board).2.pics.pending irq = waiting irq m.log := fun irq hirq hne => by
      rw [pending_step hprogress hirq, h.log irq hirq hne]
    have hperiodic : Periodic (rest.step board m.board).2 := by
      rw [Periodic, regB_step hprogress]
      exact h.periodic
    rcases activity_of stub (rest.step board m.board).1 with ⟨hdone, hof⟩ | ⟨hmore, hof⟩
    · rw [hdone] at hcompletes
      refine ⟨?_, fun _ => hcompletes, ?_, fun hirqf => ?_, hperiodic, hlog, h.answered⟩
      · rw [hof]
        intro hlost
        cases hlost
      · rw [hof]
        intro _ _ hhandler
        cases hhandler
      · refine .inl ((hclock hirqf).resolve_right ?_)
        rw [hdone]
        exact id
    · have hnext := InProgress.mk hmore (hflag.resolve_left hmore) hcompletes hwrites
      refine ⟨?_, ?_, ?_, fun hirqf => ?_, hperiodic, hlog, h.answered⟩
      · rw [hof]
        intro hlost
        cases hlost
      · rw [hof]
        intro hcode
        cases hcode
      · rw [hof]
        rintro _ _ ⟨⟩
        exact hnext
      · exact (hclock hirqf).imp id fun hreads => ⟨stub, _, hof, hreads⟩
  · exact absurd hact h.notLost

theorem IrqInv.flag (h : IrqInv m) {on : Bool} (hstep : irqStep address m (.flag on) = some m') :
    IrqInv m' := by
  rcases hact : m.activity with _ | ⟨stub, rest⟩ | _
  · rw [irqStep, hact] at hstep
    cases hstep
    refine ⟨nofun, fun _ => h.code hact, nofun, fun hirqf => .inl ?_, h.periodic, h.log, h.answered⟩
    rcases h.clock hirqf with hpending | ⟨stub, rest, hrest, -⟩
    · exact hpending
    · exact absurd (hact.symm.trans hrest) nofun
  · rw [irqStep, hact] at hstep
    cases hstep
  · exact absurd hact h.notLost

theorem IrqInv.step (hinj : Function.Injective address) (h : IrqInv m) {e : IrqEvent}
    (hstep : irqStep address m e = some m') : IrqInv m' := by
  cases e with
  | own e => exact h.own hstep
  | accept => exact h.accept hinj hstep
  | port => exact h.port hstep
  | flag on => exact h.flag hstep

/-- The machine that the boot leaves. -/
theorem irqBoot_inv (hclock : ClockOff d) (h : Exec board entryDevices d () d') : IrqInv (irqBoot d') := by
  obtain ⟨hheard, hperiodic⟩ := entryDevices_clock d () d' hclock h
  have hwaiting : ∀ irq (irqs : List Nat), waiting irq (irqs.map .asked) = decide (irq ∈ irqs) := by
    intro irq irqs
    induction irqs with
    | nil => rfl
    | cons n irqs ih => simp [waiting, ih, eq_comm]
  have hanswered : ∀ irqs : List Nat, Answered (irqs.map .asked) := by
    intro irqs
    induction irqs with
    | nil => trivial
    | cons n irqs ih => exact ih
  refine ⟨nofun, fun _ => entryDevices_setUp (p := d.pics.setup) d () d' rfl h, nofun,
    fun hirqf => .inl (hheard hirqf), hperiodic, fun irq hirq hne => ?_, hanswered _⟩
  show d'.pics.pending irq = waiting irq _
  rw [irqBoot, hwaiting]
  simp [hirq]

end Steps

/-! ## Runs -/

/-- In every state of every run after the boot, for any addresses of the kernel's routines and with the
    devices raising their lines at any time: whenever interrupts are on, nothing is in service, and a
    pending request of the timer, the keyboard or the clock gets at the processor; the processor never jumps to
    anything but a handler; a handler starts only for a request that its device has made since it last
    started; and a request stays pending until the device's handler starts. -/
theorem interrupts_served {address : Stub → Word} (hinj : Function.Injective address) {d d' : Board}
    (hclock : ClockOff d) (h : Exec board entryDevices d () d') (events : List IrqEvent) :
    Throughout (irqStep address)
      (fun m =>
        (m.board.intFlag = true → m.board.pics.Serves 2 none ∧
          ∀ irq ∈ [0, 1, 8], m.board.pics.pending irq = true → (irqStep address m .accept).isSome) ∧
        m.activity ≠ .lost ∧ Answered m.log ∧
        ∀ irq < 16, irq ≠ 2 → m.board.pics.pending irq = waiting irq m.log)
      (irqBoot d') events := by
  refine throughout_mono (fun m hm => ⟨fun hflag => ⟨?_, fun irq hirq hpend => ?_⟩, hm.notLost,
    hm.answered, hm.log⟩) (throughout_of_inv (fun _ _ _ hm => hm.step hinj) (irqBoot_inv hclock h))
  · exact (cascaded_of_setUp (hm.code (hm.code_of_flag hflag))).2
  · exact hm.accept_isSome hflag (by simpa using hirq) hpend

/-- Addresses of the routines, 16 bytes apart. -/
def spacedStubs (stub : Stub) : Word :=
  BitVec.ofNat 32 (0x400000 + 16 * (idtEntries.map Prod.snd).idxOf stub)

theorem spacedStubs_injective : Function.Injective spacedStubs := by
  refine Function.LeftInverse.injective (g := fun w =>
    ((idtEntries.map Prod.snd)[(w.toNat - 0x400000) / 16]?).getD .syscall) fun stub => ?_
  cases stub <;> decide

theorem interrupts_served_clock :
    ∃ d', Exec board entryDevices coldBoard () d' ∧
      Throughout (irqStep spacedStubs)
        (fun m =>
          (m.board.intFlag = true → m.board.pics.Serves 2 none ∧
            ∀ irq ∈ [0, 1, 8], m.board.pics.pending irq = true →
              (irqStep spacedStubs m .accept).isSome) ∧
          m.activity ≠ .lost ∧ Answered m.log ∧
          ∀ irq < 16, irq ≠ 2 → m.board.pics.pending irq = waiting irq m.log)
        (irqBoot d') [.flag true, .own (.flags 0x40), .accept, .own (.raise 1), .port, .port] :=
  have ⟨(), d', h⟩ := exists_exec entryDevices coldBoard
  ⟨d', h, interrupts_served spacedStubs_injective (d := coldBoard) rfl h _⟩

/-- The clock's periodic interrupt is never lost: whenever its line is up, which keeps it from asking
    again, either its request is still pending or its handler is about to read register C. -/
theorem clock_keeps_ticking {address : Stub → Word} (hinj : Function.Injective address) {d d' : Board}
    (hclock : ClockOff d) (h : Exec board entryDevices d () d') (events : List IrqEvent) :
    Throughout (irqStep address)
      (fun m => Periodic m.board ∧
        (m.board.cmos.irqf = true → m.board.pics.pending 8 = true ∨
          ∃ stub rest, m.activity = .handler stub rest ∧ ReadsClock rest m.board.cmos.index))
      (irqBoot d') events :=
  throughout_mono (fun _ hm => ⟨hm.periodic, hm.clock⟩)
    (throughout_of_inv (fun _ _ _ hm => hm.step hinj) (irqBoot_inv hclock h))

theorem clock_keeps_ticking_flag :
    ∃ d', Exec board entryDevices coldBoard () d' ∧
      Throughout (irqStep spacedStubs)
        (fun m => Periodic m.board ∧
          (m.board.cmos.irqf = true → m.board.pics.pending 8 = true ∨
            ∃ stub rest, m.activity = .handler stub rest ∧ ReadsClock rest m.board.cmos.index))
        (irqBoot d') [.flag true, .own (.flags 0x40), .accept, .port, .own (.flags 0x40), .port] :=
  have ⟨(), d', h⟩ := exists_exec entryDevices coldBoard
  ⟨d', h, clock_keeps_ticking spacedStubs_injective (d := coldBoard) rfl h _⟩

end ByteVerse
