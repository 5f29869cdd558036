/-
  Programs that work devices through ports.

  A `PortProgram` is what a program does at the ports and to the interrupt flag; with the bytes it reads it may
  compute anything.  The devices do not wait for it: an execution (`Exec`) lets them take any number of
  steps of their own before each instruction and at the end.  So an assertion about a program has to be
  stable under those steps; `Triple` has a rule for each instruction and for sequences and loops.
-/
import Mathlib.Data.List.Basic

namespace ByteVerse.PortIo

inductive PortProgram (α : Type)
  | done (a : α)
  | outb (data : BitVec 8) (port : Nat) (next : PortProgram α)
  | inb (port : Nat) (next : BitVec 8 → PortProgram α)
  /-- `sti` and `cli`. -/
  | setFlag (on : Bool) (next : PortProgram α)

def PortProgram.bind {α β : Type} : PortProgram α → (α → PortProgram β) → PortProgram β
  | .done a, f => f a
  | .outb data port next, f => .outb data port (next.bind f)
  | .inb port next, f => .inb port fun b => (next b).bind f
  | .setFlag on next, f => .setFlag on (next.bind f)

instance : Monad PortProgram where
  pure := .done
  bind := .bind

def outb (data : BitVec 8) (port : Nat) : PortProgram Unit := .outb data port (.done ())

def inb (port : Nat) : PortProgram (BitVec 8) := .inb port .done

/-- `sti`. -/
def interruptsOn : PortProgram Unit := .setFlag true (.done ())

/-- `cli`. -/
def interruptsOff : PortProgram Unit := .setFlag false (.done ())

/-- Devices with states `D`. -/
structure Devices (D : Type) where
  out : BitVec 8 → Nat → D → D
  inp : Nat → D → BitVec 8 × D
  setFlag : Bool → D → D
  /-- A step they take by themselves. -/
  own : D → D → Prop

variable {D α β : Type} {dev : Devices D}

/-- The program's next instruction. -/
def PortProgram.step (dev : Devices D) : PortProgram α → D → PortProgram α × D
  | .done a, d => (.done a, d)
  | .outb data port next, d => (next, dev.out data port d)
  | .inb port next, d => (next (dev.inp port d).1, (dev.inp port d).2)
  | .setFlag on next, d => (next, dev.setFlag on d)

inductive Exec (dev : Devices D) : PortProgram α → D → α → D → Prop
  | done (a : α) (d : D) : Exec dev (.done a) d a d
  | step {m : PortProgram α} {d d' : D} {a : α} :
      Exec dev (m.step dev d).1 (m.step dev d).2 a d' → Exec dev m d a d'
  | own {m : PortProgram α} {d d₁ d' : D} {a : α} :
      dev.own d d₁ → Exec dev m d₁ a d' → Exec dev m d a d'

theorem step_bind (m : PortProgram α) (f : α → PortProgram β) (d : D) (h : ∀ a, m ≠ .done a) :
    (m.bind f).step dev d = ((m.step dev d).1.bind f, (m.step dev d).2) := by
  cases m with
  | done a => exact absurd rfl (h a)
  | outb | inb | setFlag => rfl

/-- An execution of a sequence is one of each part. -/
theorem Exec.of_bind {m : PortProgram α} {f : α → PortProgram β} {d d' : D} {b : β}
    (h : Exec dev (m.bind f) d b d') : ∃ a d₁, Exec dev m d a d₁ ∧ Exec dev (f a) d₁ b d' := by
  generalize hp : m.bind f = p at h
  induction h generalizing m with
  | done b d =>
    cases m with
    | done a =>
      refine ⟨a, d, .done a d, ?_⟩
      rw [show f a = .done b from hp]
      exact .done b d
    | outb | inb | setFlag => exact absurd hp (by simp [PortProgram.bind])
  | @step p d d' b hrest ih =>
    by_cases hm : ∃ a, m = .done a
    · obtain ⟨a, rfl⟩ := hm
      refine ⟨a, d, .done a d, ?_⟩
      rw [show f a = p from hp]
      exact .step hrest
    · have hstep : p.step dev d = _ := hp ▸ step_bind m f d fun a ha => hm ⟨a, ha⟩
      rw [hstep] at ih
      obtain ⟨a, d₁, hfirst, hlast⟩ := ih rfl
      exact ⟨a, d₁, .step hfirst, hlast⟩
  | own hown hrest ih =>
    obtain ⟨a, d₁, hfirst, hlast⟩ := ih hp
    exact ⟨a, d₁, .own hown hfirst, hlast⟩

/-- A program always comes to its end. -/
theorem exists_exec (m : PortProgram α) (d : D) : ∃ a d', Exec dev m d a d' := by
  induction m generalizing d with
  | done a => exact ⟨a, d, .done a d⟩
  | outb data port next ih =>
    obtain ⟨a, d', h⟩ := ih (dev.out data port d)
    exact ⟨a, d', .step h⟩
  | inb port next ih =>
    obtain ⟨a, d', h⟩ := ih (dev.inp port d).1 (dev.inp port d).2
    exact ⟨a, d', .step h⟩
  | setFlag on next ih =>
    obtain ⟨a, d', h⟩ := ih (dev.setFlag on d)
    exact ⟨a, d', .step h⟩

/-! ## Assertions -/

/-- What the devices do by themselves does not make `P` false. -/
def Devices.Stable (dev : Devices D) (P : D → Prop) : Prop := ∀ d d', dev.own d d' → P d → P d'

/-- From a state with `P` the program can only end with `Q`. -/
def Triple (dev : Devices D) (P : D → Prop) (m : PortProgram α) (Q : α → D → Prop) : Prop :=
  ∀ d a d', P d → Exec dev m d a d' → Q a d'

/-- An instruction: `R` holds behind it. -/
theorem Triple.of_step {P : D → Prop} {m : PortProgram α} {Q : α → D → Prop} (hP : dev.Stable P)
    (hm : ∀ a, m ≠ .done a)
    (h : ∀ d, P d → ∀ a d', Exec dev (m.step dev d).1 (m.step dev d).2 a d' → Q a d') :
    Triple dev P m Q := by
  intro d a d' hd hexec
  induction hexec with
  | done a d => exact absurd rfl (hm a)
  | step hrest => exact h _ hd _ _ hrest
  | own hown _ ih => exact ih hm h (hP _ _ hown hd)

theorem Triple.pure {P : D → Prop} {Q : α → D → Prop} (a : α) (hP : dev.Stable P)
    (h : ∀ d, P d → Q a d) : Triple dev P (.done a) Q := by
  intro d b d' hd hexec
  generalize hm : PortProgram.done a = m at hexec
  induction hexec with
  | done b d =>
    cases hm
    exact h _ hd
  | step _ ih =>
    subst hm
    exact ih hd rfl
  | own hown _ ih => exact ih (hP _ _ hown hd) hm

theorem Triple.outb {P : D → Prop} {Q : D → Prop} {data : BitVec 8} {port : Nat} (hP : dev.Stable P)
    (hQ : dev.Stable Q) (h : ∀ d, P d → Q (dev.out data port d)) :
    Triple dev P (outb data port) fun _ => Q :=
  .of_step hP (fun _ => nofun) fun d hd _ _ =>
    Triple.pure () hQ (Q := fun _ => Q) (fun _ => id) _ _ _ (h d hd)

theorem Triple.inb {P : D → Prop} {Q : BitVec 8 → D → Prop} {port : Nat} (hP : dev.Stable P)
    (hQ : ∀ b, dev.Stable (Q b)) (h : ∀ d, P d → Q (dev.inp port d).1 (dev.inp port d).2) :
    Triple dev P (inb port) Q :=
  .of_step hP (fun _ => nofun) fun d hd _ _ =>
    Triple.pure _ (hQ (dev.inp port d).1) (fun _ => id) _ _ _ (h d hd)

theorem Triple.seq {P : D → Prop} {m : PortProgram α} {R : α → D → Prop} {f : α → PortProgram β}
    {Q : β → D → Prop} (hm : Triple dev P m R) (hf : ∀ a, Triple dev (R a) (f a) Q) :
    Triple dev P (m >>= f) Q := by
  intro d b d' hd hexec
  obtain ⟨a, d₁, hfirst, hlast⟩ := hexec.of_bind
  exact hf a d₁ b d' (hm d a d₁ hd hfirst) hlast

theorem Triple.weaken {P P' : D → Prop} {m : PortProgram α} {Q Q' : α → D → Prop}
    (h : Triple dev P m Q) (hP : ∀ d, P' d → P d) (hQ : ∀ a d, Q a d → Q' a d) : Triple dev P' m Q' :=
  fun d a d' hd hexec => hQ a d' (h d a d' (hP d hd) hexec)

theorem Triple.and {P P' : D → Prop} {m : PortProgram α} {Q Q' : α → D → Prop} (h : Triple dev P m Q)
    (h' : Triple dev P' m Q') : Triple dev (fun d => P d ∧ P' d) m fun a d => Q a d ∧ Q' a d :=
  fun d a d' hd hexec => ⟨h d a d' hd.1 hexec, h' d a d' hd.2 hexec⟩

/-- A loop over a list: `I` holds of the elements done so far. -/
theorem Triple.forM {ι : Type} {f : ι → PortProgram Unit} {I : List ι → D → Prop}
    (hI : ∀ done, dev.Stable (I done)) (items : List ι)
    (h : ∀ done item, Triple dev (I done) (f item) fun _ => I (done ++ [item])) (done : List ι) :
    Triple dev (I done) (items.forM f) fun _ => I (done ++ items) := by
  induction items generalizing done with
  | nil => exact .pure () (hI done) fun d hd => by rwa [List.append_nil]
  | cons item items ih =>
    refine .seq (h done item) fun _ => ?_
    have hrest := ih (done ++ [item])
    rwa [List.append_assoc] at hrest

/-- A fact that no state decides. -/
theorem Triple.of_and {p : Prop} {P : D → Prop} {m : PortProgram α} {Q : α → D → Prop}
    (h : p → Triple dev P m Q) : Triple dev (fun d => p ∧ P d) m Q :=
  fun d a d' hd hexec => h hd.1 d a d' hd.2 hexec

theorem Devices.Stable.and {P Q : D → Prop} (hP : dev.Stable P) (hQ : dev.Stable Q) :
    dev.Stable fun d => P d ∧ Q d :=
  fun d d' hown hd => ⟨hP d d' hown hd.1, hQ d d' hown hd.2⟩

theorem Devices.stable_const (p : Prop) : dev.Stable fun _ => p := fun _ _ _ => id

/-! ## Programs that write only certain bytes -/

/-- Each byte that the program writes, whatever it reads, is one of `ok`. -/
def PortProgram.Writes (ok : BitVec 8 → Nat → Prop) : PortProgram α → Prop
  | .done _ => True
  | .outb data port next => ok data port ∧ next.Writes ok
  | .inb _ next => ∀ b, (next b).Writes ok
  | .setFlag _ next => next.Writes ok

theorem Writes.bind {ok : BitVec 8 → Nat → Prop} {m : PortProgram α} {f : α → PortProgram β}
    (hm : m.Writes ok) (hf : ∀ a, (f a).Writes ok) : (m >>= f).Writes ok := by
  induction m with
  | done a => exact hf a
  | outb data port next ih => exact ⟨hm.1, ih hm.2⟩
  | inb port next ih => exact fun b => ih b (hm b)
  | setFlag on next ih => exact ih hm

theorem Writes.forM {ι : Type} {ok : BitVec 8 → Nat → Prop} {f : ι → PortProgram Unit}
    (hf : ∀ i, (f i).Writes ok) (items : List ι) : (items.forM f).Writes ok := by
  induction items with
  | nil => trivial
  | cons item items ih => exact Writes.bind (hf item) fun _ => ih

/-- What those bytes, the reads and the flag keep, the program keeps. -/
theorem Triple.of_writes {ok : BitVec 8 → Nat → Prop} {P : D → Prop} (hP : dev.Stable P)
    (hout : ∀ data port d, ok data port → P d → P (dev.out data port d))
    (hinp : ∀ port d, P d → P (dev.inp port d).2) (hflag : ∀ on d, P d → P (dev.setFlag on d))
    {m : PortProgram α} (hm : m.Writes ok) : Triple dev P m fun _ => P := by
  induction m with
  | done a => exact .pure a hP fun _ => id
  | outb data port next ih =>
    exact .of_step hP (fun _ => nofun) fun d hd a d' => ih hm.2 _ a d' (hout data port d hm.1 hd)
  | inb port next ih =>
    exact .of_step hP (fun _ => nofun) fun d hd a d' => ih _ (hm _) _ a d' (hinp port d hd)
  | setFlag on next ih =>
    exact .of_step hP (fun _ => nofun) fun d hd a d' => ih hm _ a d' (hflag on d hd)

end ByteVerse.PortIo
