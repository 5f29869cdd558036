/-
  Whether a read returns the current line, and nothing but it.

  `terminal_read` finds the end of the line by its NUL.  Typing keeps one behind the index, but
  Enter stores its newline over it and no new one; Ctrl+L and Enter itself set the index back and
  leave the characters; and a read clears as many bytes as it asks for, whether or not somebody is
  typing there.  So a read returns the line exactly if nothing is left over behind the newline and
  nothing has been cleared in front of it.

  A run keeps the characters typed on the line beside the input (`TypedRun`).  Its invariant
  (`TypedInv`) is that the buffer begins with them, unless a read came in between: then it begins
  with a NUL.
-/
import ByteVerse.LineEditing

set_option linter.unusedVariables false

namespace ByteVerse

open Run

/-! ## What the copy loop delivers -/

section Loop

variable (termBuffer : Int → UInt8)

/-- The loop stops at the first NUL, or at the size. -/
theorem terminalReadLoop_first {nbytes : Int} (hsize : nbytes ≤ bufferLimit) :
    ∀ (fuel : Nat) (i : Int), fuel = (nbytes - i).toNat →
      let r := terminalReadLoop termBuffer nbytes fuel i
      i ≤ r.1 ∧ (∀ j, i ≤ j → j < r.1 → termBuffer j ≠ 0) ∧ (r.1 < nbytes → termBuffer r.1 = 0) ∧
        (∀ k : Nat, i + k < r.1 → k < r.2.length ∧ r.2.getD k 0 = termBuffer (i + k)) := by
  intro fuel
  induction fuel with
  | zero =>
    intro i hfuel
    refine ⟨Int.le_refl i, ?_, ?_, ?_⟩
    · intro j hj hlt
      exact absurd hlt (Int.not_lt.mpr hj)
    · intro hlt
      have hlt' : i < nbytes := hlt
      omega
    · intro k hk
      have hk' : i + k < i := hk
      omega
  | succ fuel ih =>
    intro i hfuel
    have hlt : i < nbytes := by omega
    have hlimit : i ≠ bufferLimit := Int.ne_of_lt (Int.lt_of_lt_of_le hlt hsize)
    simp only [terminalReadLoop, if_pos hlt]
    by_cases hzero : termBuffer i = 0
    · rw [if_pos (Or.inr hzero)]
      refine ⟨Int.le_refl i, ?_, fun _ => hzero, ?_⟩
      · intro j hj hj'
        exact absurd hj' (Int.not_lt.mpr hj)
      · intro k hk
        have hk' : i + k < i := hk
        omega
    · rw [if_neg (not_or.mpr ⟨hlimit, hzero⟩)]
      obtain ⟨hlow, hnonzero, hstop, hbytes⟩ := ih (i + 1) (by omega)
      refine ⟨by omega, ?_, hstop, ?_⟩
      · intro j hj hj'
        rcases Int.lt_or_eq_of_le hj with hnext | rfl
        · exact hnonzero j hnext hj'
        · exact hzero
      · intro k hk
        cases k with
        | zero =>
          refine ⟨Nat.succ_pos _, ?_⟩
          rw [List.getD_cons_zero]
          exact congrArg termBuffer (Int.add_zero i).symm
        | succ k =>
          have hnext : i + ((k + 1 : Nat) : Int) = i + 1 + k := by omega
          rw [hnext] at hk ⊢
          obtain ⟨hlen, hbyte⟩ := hbytes k hk
          exact ⟨Nat.succ_lt_succ hlen, hbyte⟩

/-- **A line is delivered** exactly if the buffer begins with it, it has no NUL in it, and one
    behind it. -/
theorem delivers_iff {line : List UInt8} (hlen : line.length < 128) :
    let r := terminalReadLoop termBuffer 128 128 0
    (r.1 = line.length ∧ r.2.take line.length = line) ↔
      Begins termBuffer line ∧ (∀ c ∈ line, c ≠ 0) ∧ termBuffer line.length = 0 := by
  intro r
  obtain ⟨hlow, hnonzero, hstop, hbytes⟩ :=
    terminalReadLoop_first termBuffer (show (128 : Int) ≤ bufferLimit by decide) 128 0 rfl
  have hbytes' : ∀ j : Nat, (j : Int) < r.1 → j < r.2.length ∧ r.2.getD j 0 = termBuffer j := by
    intro j hj
    have hzero : (0 : Int) + j = j := Int.zero_add _
    rw [← hzero] at hj ⊢
    exact hbytes j hj
  constructor
  · rintro ⟨hret, htake⟩
    have hbegins : Begins termBuffer line := by
      intro j hj
      have hget : line.getD j 0 = r.2.getD j 0 := by
        conv_lhs => rw [← htake]
        rw [List.getD_eq_getElem?_getD, List.getD_eq_getElem?_getD, List.getElem?_take, if_pos hj]
      rw [hget]
      exact (hbytes' j (by omega)).2.symm
    refine ⟨hbegins, ?_, ?_⟩
    · intro c hc
      obtain ⟨j, hj, rfl⟩ := List.getElem_of_mem hc
      have hbuf := hbegins j hj
      rw [List.getD_eq_getElem line 0 hj] at hbuf
      rw [← hbuf]
      exact hnonzero j (Int.natCast_nonneg j) (show (j : Int) < r.1 by omega)
    · rw [← hret]
      exact hstop (show r.1 < 128 by omega)
  · rintro ⟨hbegins, hchars, hend⟩
    have hret : r.1 = line.length := by
      rcases Int.lt_trichotomy r.1 line.length with hlt | heq | hgt
      · -- a character of the line would be NUL
        exfalso
        obtain ⟨j, hj⟩ := Int.eq_ofNat_of_zero_le hlow
        have hj' : r.1 = j := hj
        have hlt' : j < line.length := by omega
        have hzero := hstop (show r.1 < 128 by omega)
        rw [show (terminalReadLoop termBuffer 128 128 0).1 = j from hj, hbegins j hlt',
          List.getD_eq_getElem line 0 hlt'] at hzero
        exact hchars _ (List.getElem_mem hlt') hzero
      · exact heq
      · exact absurd hend (hnonzero _ (Int.natCast_nonneg _) hgt)
    refine ⟨hret, List.ext_getElem ?_ fun j h₁ h₂ => ?_⟩
    · rw [List.length_take, Nat.min_eq_left]
      by_contra hshort
      have hlast := (hbytes' r.2.length (by omega)).1
      exact Nat.lt_irrefl _ hlast
    · obtain ⟨hj, hbyte⟩ := hbytes' j (by omega)
      rw [List.getElem_take, ← List.getD_eq_getElem line 0 h₂, ← hbegins j h₂, ← hbyte]
      exact (List.getD_eq_getElem r.2 0 hj).symm

end Loop

/-! ## The characters typed on the line -/

/-- The characters of the line after a key, Ctrl+L included. -/
def LineEffect.current (line : List UInt8) : LineEffect → List UInt8
  | .restart _ => []
  | eff => eff.typed line

structure TypedRun where
  input : Input
  /-- The characters typed on the line and not erased. -/
  line : List UInt8
  /-- A read has gone through since the first of them was typed. -/
  cleared : Bool

/-- What happens at one terminal: its keyboard, and reads by its process. -/
inductive TerminalEvent
  | key (scanCode : UInt8)
  | read (nbytes : Int)

/-- The key switches to another terminal. -/
def switchesAway (v : Fin 3) : KeyAction → Bool
  | .switchTerminal n => n ≠ v
  | _ => false

def typedKey (v : Fin 3) (r : TypedRun) (scanCode : UInt8) : TypedRun :=
  let line := (handlerEffect r.input scanCode).current r.line
  { input := (keyboardInput v r.input scanCode).1
    line := line
    cleared := r.cleared && decide (line ≠ []) }

def typedRead (v : Fin 3) (nbytes : Int) (r : TypedRun) : TypedRun :=
  match terminalRead v v nbytes r.input with
  | none => r
  | some (inp, _) => { input := inp, line := r.line, cleared := decide (r.line ≠ []) }

/-- One event, of those that stay at terminal `v` and read from 1 to 128 bytes. -/
def typedStep (v : Fin 3) (r : TypedRun) : TerminalEvent → Option TypedRun
  | .key scanCode =>
    if switchesAway v (keyboardInput v r.input scanCode).2 then none else some (typedKey v r scanCode)
  | .read nbytes => if 1 ≤ nbytes ∧ nbytes ≤ bufferLimit then some (typedRead v nbytes r) else none

/-- Nothing has been typed on the line. -/
def startTyping (inp : Input) : TypedRun := { input := inp, line := [], cleared := false }

/-- Enter and then a read of 128 bytes: it returns the line with its newline. -/
def DeliversLine (v : Fin 3) (r : TypedRun) : Prop :=
  ∃ inp n bytes, terminalRead v v 128 (keyboardInput v r.input enterPressedCode).1 = some (inp, n, bytes) ∧
    n = r.input.bufferIndex + 1 ∧ bytes.take n.toNat = r.line ++ [10]

/-- The condition, before Enter.  A pending Ctrl+Alt+function key swallows Enter; what is read is then
    an older line, and right only if that one was empty, too. -/
def LineIntact (v : Fin 3) (r : TypedRun) : Prop :=
  if r.input.modifiers.Chord then
    r.input.bufferIndex = 0 ∧ r.input.enterPressed v ≠ 0 ∧ r.input.termBuffer 0 = 10 ∧
      r.input.termBuffer 1 = 0
  else (∀ c ∈ r.line, c ≠ 0) ∧ r.cleared = false ∧ r.input.termBuffer (r.input.bufferIndex + 1) = 0

instance (v : Fin 3) (r : TypedRun) : Decidable (LineIntact v r) :=
  inferInstanceAs (Decidable (ite _ (_ ∧ _) (_ ∧ _)))

/-! ## The invariant -/

structure TypedInv (r : TypedRun) : Prop where
  index : r.input.bufferIndex = r.line.length
  short : r.input.bufferIndex ≤ bufferLimit
  begins : r.cleared = false → Begins r.input.termBuffer r.line
  lost : r.cleared = true → r.line ≠ [] ∧ r.input.termBuffer 0 = 0
  /-- Typing keeps a NUL behind the line. -/
  ended : 0 < r.input.bufferIndex → r.input.bufferIndex < bufferLimit →
    r.input.termBuffer r.input.bufferIndex = 0

section Effects

variable {l : LineState} {eff : LineEffect} {line : List UInt8}

theorem current_length (hidx : l.index = line.length) (hfits : eff.Fits l.index) :
    (eff.apply l).index = (eff.current line).length := by
  cases eff with
  | restart b => rfl
  | keep | clear | append | spaces | erase | newline | release =>
    exact apply_length hidx hfits nofun

theorem current_begins (hidx : l.index = line.length) (hfits : eff.Fits l.index)
    (h : Begins l.buffer line) : Begins (eff.apply l).buffer (eff.current line) := by
  have hspells : l.Spells line := ⟨hidx, h⟩
  cases eff with
  | restart b => exact Begins.nil
  | keep | clear | append | spaces | erase | newline | release =>
    exact (hspells.apply hfits nofun).begins

/-- A cleared line stays cleared in front, until it is empty again. -/
theorem current_lost (hidx : l.index = line.length) (hfits : eff.Fits l.index) (hne : line ≠ [])
    (h : l.buffer 0 = 0) : eff.current line = [] ∨ (eff.apply l).buffer 0 = 0 := by
  have hpos : 0 < l.index := by
    rw [hidx]
    exact Int.ofNat_lt.mpr (List.length_pos_of_ne_nil hne)
  cases eff with
  | keep | release => exact Or.inr h
  | clear =>
    right
    simp only [LineEffect.apply]
    rw [if_neg (by omega)]
    exact h
  | append c =>
    right
    simp only [LineEffect.apply]
    split
    · rw [Function.update_of_ne (by omega), Function.update_of_ne (by omega)]
      exact h
    · rw [Function.update_of_ne (by omega)]
      exact h
  | spaces =>
    right
    simp only [LineEffect.apply, tabSize]
    rw [Function.update_of_ne (by omega), Function.update_of_ne (by omega),
      Function.update_of_ne (by omega), Function.update_of_ne (by omega),
      Function.update_of_ne (by omega)]
    exact h
  | erase =>
    by_cases hlast : l.index - 1 = 0
    · left
      refine List.eq_nil_of_length_eq_zero ?_
      show line.dropLast.length = 0
      rw [List.length_dropLast]
      omega
    · right
      simp only [LineEffect.apply]
      rw [Function.update_of_ne (Ne.symm hlast)]
      exact h
  | newline => exact Or.inl rfl
  | restart b => exact Or.inl rfl

theorem apply_ended (h : 0 < l.index → l.index < bufferLimit → l.buffer l.index = 0) :
    0 < (eff.apply l).index → (eff.apply l).index < bufferLimit →
      (eff.apply l).buffer (eff.apply l).index = 0 := by
  intro hpos hlt
  cases eff with
  | keep | release => exact h hpos hlt
  | clear =>
    revert hpos hlt
    simp only [LineEffect.apply]
    split
    · intro hpos hlt
      rename_i hzero
      rw [hzero] at hpos
      exact absurd hpos (Int.lt_irrefl 0)
    · exact h
  | append c =>
    have hroom : l.index + 1 < bufferLimit := hlt
    simp only [LineEffect.apply, if_pos hroom, Function.update_self]
  | spaces => exact Function.update_self _ _ _
  | erase => exact Function.update_self _ _ _
  | newline | restart => exact absurd hpos (Int.lt_irrefl 0)

end Effects

section Steps

variable {v : Fin 3} {r r' : TypedRun}

/-- **The step lemma for a key.** -/
theorem TypedInv.key (h : TypedInv r) (scanCode : UInt8) : TypedInv (typedKey v r scanCode) := by
  have hlow : 0 ≤ r.input.bufferIndex := by
    rw [h.index]
    exact Int.natCast_nonneg _
  have hfits := handlerEffect_fits hlow scanCode
  have heffect : (keyboardInput v r.input scanCode).1.lineState v = _ :=
    keyboardInput_effect v hlow h.short
  have hidx : (r.input.lineState v).index = r.line.length := h.index
  have hindex := congrArg LineState.index heffect
  have hbuffer := congrArg LineState.buffer heffect
  simp only [Input.lineState] at hindex hbuffer
  refine ⟨?_, ?_, ?_, ?_, ?_⟩
  · exact hindex.trans (current_length hidx hfits)
  · exact (keyboardInput_index v hlow h.short scanCode).2
  · intro hcleared
    show Begins (keyboardInput v r.input scanCode).1.termBuffer
      ((handlerEffect r.input scanCode).current r.line)
    rw [hbuffer]
    rcases Bool.and_eq_false_iff.mp hcleared with hbefore | hempty
    · exact current_begins hidx hfits (h.begins hbefore)
    · rw [Decidable.not_not.mp (of_decide_eq_false hempty)]
      exact Begins.nil
  · intro hcleared
    obtain ⟨hbefore, hsome⟩ := Bool.and_eq_true_iff.mp hcleared
    obtain ⟨hne, hfirst⟩ := h.lost hbefore
    have hline := of_decide_eq_true hsome
    refine ⟨hline, ?_⟩
    show (keyboardInput v r.input scanCode).1.termBuffer 0 = 0
    rw [hbuffer]
    exact (current_lost hidx hfits hne hfirst).resolve_left hline
  · show 0 < (keyboardInput v r.input scanCode).1.bufferIndex →
      (keyboardInput v r.input scanCode).1.bufferIndex < bufferLimit →
      (keyboardInput v r.input scanCode).1.termBuffer (keyboardInput v r.input scanCode).1.bufferIndex = 0
    rw [hindex, hbuffer]
    exact apply_ended h.ended

/-- **The step lemma for a read.** -/
theorem TypedInv.read (h : TypedInv r) {nbytes : Int} (hpos : 1 ≤ nbytes) :
    TypedInv (typedRead v nbytes r) := by
  unfold typedRead
  split
  · exact h
  rename_i hread
  obtain ⟨-, -, rfl⟩ := terminalRead_eq_some hread
  refine ⟨h.index, h.short, ?_, ?_, ?_⟩
  · intro hempty
    show Begins _ r.line
    rw [Decidable.not_not.mp (of_decide_eq_false hempty)]
    exact Begins.nil
  · intro hsome
    exact ⟨of_decide_eq_true hsome, if_pos ⟨Int.le_refl 0, by omega⟩⟩
  · intro hlow hhigh
    show (if 0 ≤ r.input.bufferIndex ∧ r.input.bufferIndex < nbytes then 0 else _) = (0 : UInt8)
    split
    · rfl
    · exact h.ended hlow hhigh

theorem TypedInv.step {e : TerminalEvent} (h : TypedInv r) (hs : typedStep v r e = some r') :
    TypedInv r' := by
  cases e with
  | key scanCode =>
    simp only [typedStep] at hs
    split at hs
    · cases hs
    · obtain rfl := Option.some.inj hs
      exact h.key scanCode
  | read nbytes =>
    simp only [typedStep] at hs
    split at hs
    · rename_i hsize
      obtain rfl := Option.some.inj hs
      exact h.read hsize.1
    · cases hs

end Steps

/-! ## Enter and the read -/

theorem begins_concat {buffer : Int → UInt8} {line : List UInt8} {c : UInt8} :
    Begins buffer (line ++ [c]) ↔ Begins buffer line ∧ buffer line.length = c := by
  constructor
  · intro h
    constructor
    · intro j hj
      rw [h j (by rw [List.length_append]; omega)]
      exact List.getD_append line [c] 0 j hj
    · rw [h line.length (by simp)]
      simp
  · rintro ⟨hline, hlast⟩ j hj
    rw [List.length_append, List.length_singleton] at hj
    by_cases hj' : j = line.length
    · rw [hj', hlast]
      simp
    · rw [hline j (by omega)]
      exact (List.getD_append line [c] 0 j (by omega)).symm

section Delivery

variable {v : Fin 3} {r : TypedRun}

/-- A read of 128 bytes, in terms of the input that it finds. -/
theorem deliversLine_iff (hidx : r.input.bufferIndex = r.line.length) (hroom : r.input.bufferIndex ≤ 126)
    {inp : Input} (hinp : (keyboardInput v r.input enterPressedCode).1 = inp) :
    DeliversLine v r ↔ inp.enterPressed v ≠ 0 ∧ Begins inp.termBuffer r.line ∧
      inp.termBuffer r.input.bufferIndex = 10 ∧ (∀ c ∈ r.line, c ≠ 0) ∧
      inp.termBuffer (r.input.bufferIndex + 1) = 0 := by
  have hlen : (r.line ++ [10]).length < 128 := by
    rw [List.length_append, List.length_singleton]
    omega
  have hcount : ((r.line ++ [10]).length : Int) = r.input.bufferIndex + 1 := by
    rw [List.length_append, List.length_singleton, hidx]
    rfl
  have hloop := delivers_iff inp.termBuffer hlen
  have hcut : ∀ n : Int, n = r.input.bufferIndex + 1 → n.toNat = (r.line ++ [10]).length := by
    intro n hn
    omega
  simp only [hcount, begins_concat, ← hidx, List.forall_mem_append, List.forall_mem_singleton] at hloop
  unfold DeliversLine
  rw [hinp]
  constructor
  · rintro ⟨inp', n, bytes, hread, hret, htake⟩
    obtain ⟨hflag, hresult, -⟩ := terminalRead_eq_some hread
    rw [hcut n hret] at htake
    obtain ⟨rfl, rfl⟩ := Prod.mk.inj hresult
    obtain ⟨⟨hbegins, hlast⟩, ⟨hchars, -⟩, hend⟩ := hloop.mp ⟨hret, htake⟩
    exact ⟨hflag, hbegins, hlast, hchars, hend⟩
  · rintro ⟨hflag, hbegins, hlast, hchars, hend⟩
    obtain ⟨hret, htake⟩ := hloop.mpr ⟨⟨hbegins, hlast⟩, ⟨hchars, by decide⟩, hend⟩
    refine ⟨_, _, _, if_neg hflag, hret, ?_⟩
    have htoNat := hcut _ hret
    exact htoNat ▸ htake

theorem lineIntact_iff (h : TypedInv r) (hroom : r.input.bufferIndex ≤ 126) :
    DeliversLine v r ↔ LineIntact v r := by
  have hlow : 0 ≤ r.input.bufferIndex := by
    rw [h.index]
    exact Int.natCast_nonneg _
  unfold LineIntact
  by_cases hchord : r.input.modifiers.Chord
  · have henter : (keyboardInput v r.input enterPressedCode).1 = { r.input with fKeyPressed := 0 } := by
      rw [keyboardInput_rest v (by decide)]
      exact congrArg Prod.fst (if_pos hchord)
    rw [if_pos hchord, deliversLine_iff h.index hroom henter]
    simp only
    constructor
    · rintro ⟨hflag, -, hlast, -, hend⟩
      have hzero : r.input.bufferIndex = 0 := by
        rcases Int.lt_or_eq_of_le hlow with hpos | hzero
        · -- typing has left a NUL at the index, not a newline
          rw [h.ended hpos (Int.lt_of_le_of_lt hroom (by decide))] at hlast
          cases hlast
        · exact hzero.symm
      rw [hzero] at hlast hend
      exact ⟨hzero, hflag, hlast, hend⟩
    · rintro ⟨hzero, hflag, hfirst, hsecond⟩
      have hempty : r.line = [] := List.eq_nil_of_length_eq_zero (by
        have hidx := h.index
        omega)
      rw [hzero, hempty]
      exact ⟨hflag, Begins.nil, hfirst, nofun, hsecond⟩
  · have henter : (keyboardInput v r.input enterPressedCode).1 = (enterKey v r.input).1 := by
      rw [keyboardInput_enter v hchord]
    have hflag : (enterKey v r.input).1.enterPressed v ≠ 0 := by
      show Function.update r.input.enterPressed v 1 v ≠ 0
      rw [Function.update_self]
      decide
    have hbuf : (enterKey v r.input).1.termBuffer =
        Function.update r.input.termBuffer r.input.bufferIndex 10 := rfl
    rw [if_neg hchord, deliversLine_iff h.index hroom henter, hbuf, Function.update_self,
      Function.update_of_ne (by omega)]
    constructor
    · rintro ⟨-, hbegins, -, hchars, hend⟩
      refine ⟨hchars, ?_, hend⟩
      -- the NUL that a read leaves in front would be a character of the line
      refine Bool.eq_false_iff.mpr fun hcleared => ?_
      obtain ⟨hne, hfirst⟩ := h.lost hcleared
      have hpos : 0 < r.line.length := List.length_pos_of_ne_nil hne
      have hidx := h.index
      have hchar := hbegins 0 hpos
      rw [Function.update_of_ne (by omega), List.getD_eq_getElem r.line 0 hpos] at hchar
      exact hchars _ (List.getElem_mem hpos) (hchar.symm.trans hfirst)
    · rintro ⟨hchars, hcleared, hend⟩
      exact ⟨hflag, (h.begins hcleared).update_beyond (Int.le_of_eq h.index.symm) 10, rfl, hchars, hend⟩

end Delivery

/-- Nothing has been typed before the first key. -/
theorem startTyping_inv {inp : Input} (hempty : inp.bufferIndex = 0) : TypedInv (startTyping inp) := by
  refine ⟨hempty, ?_, fun _ => Begins.nil, nofun, ?_⟩
  · show inp.bufferIndex ≤ bufferLimit
    rw [hempty]
    decide
  · intro hpos _
    have hpos' : 0 < inp.bufferIndex := hpos
    rw [hempty] at hpos'
    exact absurd hpos' (Int.lt_irrefl 0)

theorem typed_run_inv {v : Fin 3} {inp : Input} (hempty : inp.bufferIndex = 0)
    {history : List TerminalEvent} {r : TypedRun}
    (hrun : run (typedStep v) (startTyping inp) history = some r) : TypedInv r := by
  have hall : Throughout (typedStep v) TypedInv (startTyping inp) history :=
    throughout_of_inv (fun _ _ _ h hs => h.step hs) (startTyping_inv hempty)
  exact throughout_last hall hrun

/-- **A read returns exactly the current line** if and only if none of the characters typed on it is
    NUL, no read has gone through since the first of them was typed, and the byte that will follow the
    newline is NUL (or, where a pending chord swallows Enter, the line is empty and so is the one
    offered before): after every history of keys and reads at one terminal that starts with an empty
    line, and with at most 126 characters held. -/
theorem read_current_line_iff {v : Fin 3} {inp : Input} (hempty : inp.bufferIndex = 0)
    {history : List TerminalEvent} {r : TypedRun}
    (hrun : run (typedStep v) (startTyping inp) history = some r) (hroom : r.input.bufferIndex ≤ 126) :
    DeliversLine v r ↔ LineIntact v r :=
  lineIntact_iff (typed_run_inv hempty hrun) hroom

/-- `ab`, Backspace and `c` after boot. -/
theorem first_line_delivered :
    ∃ r, run (typedStep 0) (startTyping (initialInput blankMemory))
        [.key 0x1E, .key 0x30, .key 0x0E, .key 0x2E] = some r ∧ DeliversLine 0 r := by
  have hrun : run (typedStep 0) (startTyping (initialInput blankMemory))
      [.key 0x1E, .key 0x30, .key 0x0E, .key 0x2E] = some _ := rfl
  exact ⟨_, hrun, (read_current_line_iff rfl hrun (by decide +kernel)).mpr (by decide +kernel)⟩

/-- `ab` and Enter, unread, and then Enter: the empty line comes with `b` behind it. -/
theorem unread_line_left_over :
    ∃ r, run (typedStep 0) (startTyping (initialInput blankMemory))
        [.key 0x1E, .key 0x30, .key 0x1C] = some r ∧ r.input.bufferIndex ≤ 126 ∧ ¬ DeliversLine 0 r := by
  have hrun : run (typedStep 0) (startTyping (initialInput blankMemory))
      [.key 0x1E, .key 0x30, .key 0x1C] = some _ := rfl
  have hroom : (typedKey 0 (typedKey 0 (typedKey 0 (startTyping (initialInput blankMemory)) 0x1E) 0x30)
      0x1C).input.bufferIndex ≤ 126 := by
    decide +kernel
  refine ⟨_, hrun, hroom, fun h => ?_⟩
  exact absurd ((lineIntact_iff (typed_run_inv rfl hrun) hroom).mp h) (by decide +kernel)

end ByteVerse
