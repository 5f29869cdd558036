/-
  Whether the line in the buffer is the line that a typist edits.

  From one Enter to the next, with no Ctrl held, the handler is to be an editor of one line of at
  most 128 characters (`Editor.edit`).  What a key does to `term_buffer` and `buffer_index` depends
  on one thing that no typist sees: `line_flag`, eight bits, which every key of the main block raises
  and only an erase or Enter lowers.  Where it comes round to 0 the handler refuses the key.

  The invariant (`EditInv`) is that the buffer spells the editor's line and that the flags are the
  editor's; it says nothing about `line_flag`, so `line_editing_iff` can say exactly when the count
  does harm.
-/
import ByteVerse.InputBounds
import ByteVerse.InputLines

set_option linter.unusedVariables false

namespace ByteVerse

open Run

/-! ## The characters in front of the index -/

/-- The buffer begins with the characters of `line`. -/
def Begins (buffer : Int → UInt8) (line : List UInt8) : Prop :=
  ∀ j : Nat, j < line.length → buffer j = line.getD j 0

/-- The line is `line`: its characters, and the index behind the last of them. -/
structure LineState.Spells (l : LineState) (line : List UInt8) : Prop where
  index : l.index = line.length
  begins : Begins l.buffer line

section Spelling

variable {buffer : Int → UInt8} {line : List UInt8} {l : LineState}

theorem Begins.nil : Begins buffer [] := by
  intro j hj
  cases hj

/-- A store behind the line. -/
theorem Begins.update_beyond (h : Begins buffer line) {i : Int} (hi : (line.length : Int) ≤ i)
    (c : UInt8) : Begins (Function.update buffer i c) line := by
  intro j hj
  rw [Function.update_of_ne (by omega)]
  exact h j hj

/-- A character stored at the end of the line. -/
theorem Begins.update_append (h : Begins buffer line) {i : Int} (hi : i = line.length) (c : UInt8) :
    Begins (Function.update buffer i c) (line ++ [c]) := by
  subst hi
  intro j hj
  rw [List.length_append, List.length_singleton] at hj
  by_cases hlast : j = line.length
  · subst hlast
    rw [Function.update_self]
    simp
  · rw [Function.update_of_ne (by omega), h j (by omega)]
    exact (List.getD_append line [c] 0 j (by omega)).symm

theorem Begins.dropLast (h : Begins buffer line) : Begins buffer line.dropLast := by
  intro j hj
  rw [List.length_dropLast] at hj
  rw [h j (by omega), List.getD_eq_getElem?_getD, List.getD_eq_getElem?_getD, List.getElem?_dropLast,
    if_pos hj]

/-- **A key edits the characters in the buffer** as it does those of the line. -/
theorem LineState.Spells.apply {eff : LineEffect} (h : l.Spells line) (hfits : eff.Fits l.index)
    (hrestart : ∀ b, eff ≠ .restart b) : (eff.apply l).Spells (eff.typed line) := by
  refine ⟨apply_length h.index hfits hrestart, ?_⟩
  have hidx := h.index
  cases eff with
  | keep | release => exact h.begins
  | clear =>
    show Begins (LineEffect.clear.apply l).buffer line
    simp only [LineEffect.apply]
    split
    · exact h.begins.update_beyond (by omega) 0
    · exact h.begins
  | append c =>
    have hlen : ((line ++ [c]).length : Int) = line.length + 1 := by simp
    show Begins ((LineEffect.append c).apply l).buffer (line ++ [c])
    simp only [LineEffect.apply, hidx]
    split
    · exact (h.begins.update_append rfl c).update_beyond (by omega) 0
    · exact h.begins.update_append rfl c
  | spaces =>
    have hspaces : line ++ List.replicate 4 32 = line ++ [32] ++ [32] ++ [32] ++ [32] := by
      simp only [List.append_assoc]
      rfl
    have hlen : ((line ++ List.replicate 4 32).length : Int) = line.length + tabSize := by simp
    have h₁ := h.begins.update_append rfl 32
    have h₂ : Begins (Function.update _ (line.length + 1 : Int) 32) _ := h₁.update_append (by simp) 32
    have h₃ : Begins (Function.update _ (line.length + 2 : Int) 32) _ := h₂.update_append (by simp) 32
    have h₄ : Begins (Function.update _ (line.length + 3 : Int) 32) _ := h₃.update_append (by simp) 32
    rw [← hspaces] at h₄
    show Begins (LineEffect.spaces.apply l).buffer (line ++ List.replicate 4 32)
    simp only [LineEffect.apply, hidx]
    exact h₄.update_beyond (by omega) 0
  | erase =>
    have hpos : 0 < l.index := hfits
    show Begins (LineEffect.erase.apply l).buffer line.dropLast
    simp only [LineEffect.apply, hidx]
    refine h.begins.dropLast.update_beyond ?_ 0
    rw [List.length_dropLast]
    omega
  | newline => exact Begins.nil
  | restart b => exact absurd rfl (hrestart b)

theorem LineState.Spells.held_eq {v : Fin 3} {inp : Input} (h : (inp.lineState v).Spells line) :
    inp.held = line := by
  have hidx : inp.bufferIndex.toNat = line.length := by
    have hindex : inp.bufferIndex = line.length := h.index
    omega
  refine List.ext_getElem ((length_bufferText _ _).trans hidx) fun j h₁ h₂ => ?_
  exact (getElem_bufferText h₁).trans ((h.begins j h₂).trans (List.getD_eq_getElem line 0 h₂))

end Spelling

/-! ## The editor -/

/-- A key, for a line of at most 128 characters. -/
def Editor.edit (ed : Editor) (scanCode : UInt8) : Editor :=
  let next := ed.key scanCode
  if next.line.length ≤ 128 then next else { next with line := ed.line }

/-- The keys in question: no Ctrl, no Enter, and no Backspace while Shift is held. -/
def inEditing (ed : Editor) (scanCode : UInt8) : Prop :=
  scanCode ≠ 0 ∧ scanCode ≠ ctrlPressed ∧ scanCode ≠ enterPressedCode ∧
    (scanCode = backspacePress → ed.shift = false)

instance (ed : Editor) (scanCode : UInt8) : Decidable (inEditing ed scanCode) :=
  inferInstanceAs (Decidable (_ ∧ _))

structure EditRun where
  input : Input
  editor : Editor

/-- One key to the handler and to the editor. -/
def editStep (v : Fin 3) (r : EditRun) (scanCode : UInt8) : Option EditRun :=
  if inEditing r.editor scanCode then
    some { input := (keyboardInput v r.input scanCode).1, editor := r.editor.edit scanCode }
  else none

/-- After Enter: the line is empty, and the modifiers are as they were. -/
def startEdit (v : Fin 3) (inp : Input) : EditRun :=
  { input := (keyboardInput v inp enterPressedCode).1
    editor := {
      caps := inp.capsFlag ≠ 0, shift := inp.shiftFlag = 1, tab := inp.tabFlag ≠ 0
      line := [], lines := [] } }

/-- The line in the buffer is the editor's. -/
def SameLine (r : EditRun) : Prop := r.input.held = r.editor.line

/-- The count comes round to 0 at a key that is to change the line. -/
def CountRefuses (inp : Input) (scanCode : UInt8) : Prop :=
  lineFlagWraps inp scanCode ∧ ¬ (scanCode = backspacePress ∧ inp.bufferIndex = 0)

instance (inp : Input) (scanCode : UInt8) : Decidable (CountRefuses inp scanCode) :=
  inferInstanceAs (Decidable (_ ∧ _))

/-! ## The handler as an editor -/

section Edit

variable {m : Modifiers} {ed : Editor} {scanCode : UInt8}

theorem edit_of_le (h : (ed.key scanCode).line.length ≤ 128) : ed.edit scanCode = ed.key scanCode :=
  if_pos h

/-- A full line takes nothing more. -/
theorem edit_full (h : (ed.key scanCode).line = ed.line ∨ 128 < (ed.key scanCode).line.length) :
    (ed.edit scanCode).line = ed.line := by
  unfold Editor.edit
  simp only
  split
  · rename_i hle
    exact h.resolve_right (Nat.not_lt.mpr hle)
  · rfl

theorem FlagsMatch.edit (h : FlagsMatch m (ed.key scanCode)) : FlagsMatch m (ed.edit scanCode) := by
  unfold Editor.edit
  simp only
  split
  · exact h
  · exact ⟨h.caps, h.shift, h.ctrl, h.tab⟩

/-- Only Enter and Backspace shorten the line. -/
theorem key_longer (ed : Editor) (henter : scanCode ≠ enterPressedCode)
    (hback : scanCode ≠ backspacePress) :
    (ed.key scanCode).line = ed.line ∨ ed.line.length < (ed.key scanCode).line.length := by
  unfold Editor.key
  rw [if_neg henter, if_neg hback]
  split
  · exact Or.inl rfl
  split
  · exact Or.inl rfl
  split
  · exact Or.inl rfl
  split
  · show ite _ _ _ = ed.line ∨ _ < (ite _ _ _ : List UInt8).length
    split
    · right
      rw [List.length_append, List.length_replicate]
      omega
    · exact Or.inl rfl
  split
  · exact Or.inl rfl
  split
  · right
    rw [List.length_append, List.length_singleton]
    exact Nat.lt_succ_self _
  · exact Or.inl rfl

/-- With a full buffer no other key than Backspace and Enter does anything to the characters. -/
theorem keyEffect_full (hctrl : m.ctrl = 0) (hcode : scanCode ≠ ctrlPressed)
    (henter : scanCode ≠ enterPressedCode) (hback : scanCode ≠ backspacePress) (line : List UInt8) :
    (keyEffect m 128 scanCode).typed line = line := by
  by_cases hmod : isModifier scanCode = true
  · rw [keyEffect, if_pos hmod]
    rfl
  have hne : m.ctrl ≠ 1 := by
    rw [hctrl]
    decide
  have htab : ¬ (m.tab = 0 ∧ (128 : Int) + tabSize < bufferLimit) := fun h => absurd h.2 (by decide)
  have hfull : ¬ (128 : Int) < bufferLimit := by decide
  rw [keyEffect_line hmod hctrl hcode, lineEffect, if_neg henter, if_neg htab, if_neg hfull, fullEffect,
    if_neg hback, if_neg hne]
  split
  · rfl
  split
  · rfl
  split
  · rfl
  split
  · rfl
  split <;> rfl

/-- **The effect of a key is what the editor does**, at every length of the line. -/
theorem editor_edit (h : FlagsMatch m ed) (hin : inEditing ed scanCode) (hshort : ed.line.length ≤ 128) :
    (ed.edit scanCode).line = (keyEffect m ed.line.length scanCode).typed ed.line := by
  obtain ⟨-, hcode, henter, hback⟩ := hin
  rcases Nat.lt_or_ge ed.line.length 128 with hlt | hge
  · have htyped := editor_line h hcode (Nat.le_of_lt_succ hlt)
    have hrestart := keyEffect_not_restart h.ctrl hcode ed.line.length
    have hlow : 0 ≤ (ed.line.length : Int) := Int.natCast_nonneg _
    have hfits := keyEffect_fits m hlow scanCode
    -- the new line fits the buffer
    have hlength := apply_length (l := ⟨fun _ => 0, ed.line.length, 0⟩) rfl hfits hrestart
    have hindex := apply_index (l := ⟨fun _ => 0, ed.line.length, 0⟩) hfits hlow (by
      simp only [bufferLimit]
      omega)
    rw [hlength, ← htyped] at hindex
    rw [edit_of_le (Int.ofNat_le.mp hindex.2)]
    exact htyped
  have hfull : ed.line.length = 128 := Nat.le_antisymm hshort hge
  rw [hfull]
  by_cases hkey : scanCode = backspacePress
  · subst hkey
    have hmod : isModifier backspacePress ≠ true := by decide
    have hdrop : (ed.key backspacePress).line = ed.line.dropLast := by
      show (if ed.shift then ed else { ed with line := ed.line.dropLast }).line = _
      rw [hback rfl]
      rfl
    have herase : keyEffect m (128 : Nat) backspacePress = .erase := by
      rw [keyEffect_line hmod h.ctrl hcode]
      rfl
    rw [herase, edit_of_le]
    · exact hdrop
    · rw [hdrop, List.length_dropLast]
      omega
  · refine (edit_full ?_).trans (keyEffect_full h.ctrl hcode henter hkey ed.line).symm
    rcases key_longer ed henter hkey with hsame | hlonger
    · exact Or.inl hsame
    · exact Or.inr (hfull ▸ hlonger)

/-- A key that the count refuses is one that was to change the line. -/
theorem refused_effect {inp : Input} (hctrl : inp.ctrlFlag = 0) (hcode : scanCode ≠ ctrlPressed)
    (hrefuses : CountRefuses inp scanCode) (hidx : inp.bufferIndex = ed.line.length) :
    ((keyEffect inp.modifiers ed.line.length scanCode).typed ed.line).length ≠ ed.line.length := by
  obtain ⟨⟨-, hroom, hchar, htab, henter, -, hmod, hignored, hshift, hne, hconsult⟩, hchange⟩ := hrefuses
  rw [hidx] at hroom hconsult hchange
  rw [keyEffect_line (Bool.eq_false_iff.mp hmod) hctrl hcode,
    lineEffect_type hignored htab henter hchar hroom, typeEffect, if_neg hshift, if_neg hne]
  split
  · rename_i hback
    have hpos : (ed.line.length : Int) > 0 := by
      rcases Nat.eq_zero_or_pos ed.line.length with hzero | hpos
      · exact absurd ⟨hback, by rw [hzero]; rfl⟩ hchange
      · exact Int.ofNat_lt.mpr hpos
    rw [if_pos hpos]
    show ed.line.dropLast.length ≠ ed.line.length
    rw [List.length_dropLast]
    omega
  · show (ed.line ++ [_]).length ≠ ed.line.length
    rw [List.length_append, List.length_singleton]
    omega

end Edit

/-! ## Steps -/

/-- The invariant. -/
structure EditInv (v : Fin 3) (r : EditRun) : Prop where
  flags : FlagsMatch r.input.modifiers r.editor
  spells : (r.input.lineState v).Spells r.editor.line
  short : r.editor.line.length ≤ 128

theorem EditInv.sameLine {v : Fin 3} {r : EditRun} (h : EditInv v r) : SameLine r := h.spells.held_eq

section Step

variable {v : Fin 3} {r r' : EditRun} {scanCode : UInt8}

theorem editStep_some (h : editStep v r scanCode = some r') :
    inEditing r.editor scanCode ∧ r'.input = (keyboardInput v r.input scanCode).1 ∧
      r'.editor = r.editor.edit scanCode := by
  unfold editStep at h
  split at h
  · rename_i hin
    obtain rfl := Option.some.inj h
    exact ⟨hin, rfl, rfl⟩
  · cases h

/-- A key with the count as it should be, or with nothing to change. -/
theorem EditInv.effect (h : EditInv v r) (hin : inEditing r.editor scanCode)
    (hgood : ¬ CountRefuses r.input scanCode) :
    ((keyboardInput v r.input scanCode).1.lineState v).Spells (r.editor.edit scanCode).line := by
  have hidx : r.input.bufferIndex = r.editor.line.length := h.spells.index
  have hlow : 0 ≤ r.input.bufferIndex := by omega
  have hhigh : r.input.bufferIndex ≤ bufferLimit := by
    have hshort := h.short
    simp only [bufferLimit]
    omega
  have htyped := editor_edit h.flags hin h.short
  have hrestart := keyEffect_not_restart h.flags.ctrl hin.2.1 r.input.bufferIndex
  rw [← hidx] at htyped
  by_cases hwrap : lineFlagWraps r.input scanCode
  · -- Backspace on an empty line
    have hempty : scanCode = backspacePress ∧ r.input.bufferIndex = 0 :=
      Decidable.not_not.mp fun hne => hgood ⟨hwrap, hne⟩
    have hline : r.editor.line = [] := List.eq_nil_of_length_eq_zero (by omega)
    have hedit : (r.editor.edit scanCode).line = [] := by
      rw [hempty.1]
      have hkey : (r.editor.key backspacePress).line = [] := by
        show (if r.editor.shift then r.editor else _).line = []
        split
        · exact hline
        · exact congrArg List.dropLast hline
      rw [edit_of_le (by rw [hkey]; exact Nat.zero_le _), hkey]
    have hctrl : ¬ r.input.modifiers.Chord := fun hchord => hchord.1 h.flags.ctrl
    have hclear : handlerEffect r.input scanCode = .clear := if_pos ⟨hwrap, hctrl⟩
    rw [keyboardInput_effect v hlow hhigh, hclear, hedit, ← hline]
    exact h.spells.apply trivial nofun
  · rw [keyboardInput_line v hlow hhigh hwrap, htyped]
    exact h.spells.apply (keyEffect_fits _ hlow scanCode) hrestart

/-- **The step lemma.** -/
theorem EditInv.step (h : EditInv v r) (hgood : ¬ CountRefuses r.input scanCode)
    (hs : editStep v r scanCode = some r') : EditInv v r' := by
  obtain ⟨hin, hinput, heditor⟩ := editStep_some hs
  obtain ⟨-, hflags⟩ := h.flags.key v hin.2.1
  have hspells := h.effect hin hgood
  refine ⟨?_, ?_, ?_⟩
  · rw [hinput, heditor]
    exact hflags.edit
  · rw [hinput, heditor]
    exact hspells
  · rw [heditor]
    have hlen := h.short
    unfold Editor.edit
    simp only
    split
    · assumption
    · exact hlen

/-- A key that the count refuses leaves the buffer behind the editor. -/
theorem EditInv.refused (h : EditInv v r) (hbad : CountRefuses r.input scanCode)
    (hs : editStep v r scanCode = some r') : ¬ SameLine r' := by
  obtain ⟨hin, hinput, heditor⟩ := editStep_some hs
  have hidx : r.input.bufferIndex = r.editor.line.length := h.spells.index
  have hidle : ¬ r.input.modifiers.Chord := fun hchord => hchord.1 h.flags.ctrl
  have hkept : ((keyboardInput v r.input scanCode).1.lineState v).Spells r.editor.line := by
    rw [keyboardInput_wrapped v hbad.1 hidle, clearIfEmpty_line]
    exact h.spells.apply (show LineEffect.clear.Fits _ from trivial) nofun
  intro hsame
  rw [SameLine, hinput, heditor, hkept.held_eq, editor_edit h.flags hin h.short] at hsame
  exact refused_effect h.flags.ctrl hin.2.1 hbad hidx (congrArg List.length hsame).symm

/-- The editing of one line, from any state in which the buffer spells the editor's line. -/
theorem editing_iff (h : EditInv v r) (codes : List UInt8) :
    Throughout (editStep v) SameLine r codes ↔
      Along (editStep v) (fun r scanCode => ¬ CountRefuses r.input scanCode) r codes := by
  refine throughout_iff_along (fun _ => EditInv.sameLine) (fun _ _ _ hr => hr.step) ?_ h
  intro r scanCode r' hr hbad
  exact hr.refused (Decidable.not_not.mp hbad)

end Step

/-! ## The flags in every reachable state -/

/-- Caps Lock is 0 or its complement, and Shift and Tab are 0 or 1. -/
structure Modifiers.Regular (m : Modifiers) : Prop where
  caps : m.caps = 0 ∨ m.caps = 255
  shift : m.shift = 0 ∨ m.shift = 1
  tab : m.tab = 0 ∨ m.tab = 1

section Regular

variable {inp : Input}

theorem Modifiers.Regular.shift_zero (h : inp.modifiers.Regular) :
    inp.shiftFlag ≠ 1 → inp.ctrlFlag = 1 → inp.shiftFlag = 0 := by
  intro hne _
  exact h.shift.resolve_right hne

theorem Modifiers.Regular.lineKey (h : inp.modifiers.Regular) (v : Fin 3) (scanCode : UInt8) :
    (ByteVerse.lineKey v inp scanCode).1.modifiers.Regular := by
  rw [lineKey_modifiers v h.shift_zero]
  refine ⟨h.caps, h.shift, ?_⟩
  show (ite _ (ite _ _ _) (ite _ _ _) : UInt8) = 0 ∨ (ite _ (ite _ _ _) (ite _ _ _) : UInt8) = 1
  split
  · split
    · exact Or.inr rfl
    · exact h.tab
  split
  · exact Or.inl rfl
  · exact h.tab

/-- Every scan code, Ctrl included. -/
theorem Modifiers.Regular.keyboardInput (h : inp.modifiers.Regular) (v : Fin 3) (scanCode : UInt8) :
    (ByteVerse.keyboardInput v inp scanCode).1.modifiers.Regular := by
  by_cases hmod : isModifier scanCode = true
  · rcases isModifier_iff.mp hmod with hc | hc | (hc | hc) | (hc | hc) | hc | hc <;> subst hc
    · refine ⟨?_, h.shift, h.tab⟩
      show ~~~inp.modifiers.caps = 0 ∨ ~~~inp.modifiers.caps = 255
      rcases h.caps with hcaps | hcaps
      · rw [hcaps]
        exact Or.inr rfl
      · rw [hcaps]
        exact Or.inl rfl
    · exact ⟨h.caps, h.shift, h.tab⟩
    · exact ⟨h.caps, Or.inr rfl, h.tab⟩
    · exact ⟨h.caps, Or.inr rfl, h.tab⟩
    · exact ⟨h.caps, Or.inl rfl, h.tab⟩
    · exact ⟨h.caps, Or.inl rfl, h.tab⟩
    · exact ⟨h.caps, h.shift, h.tab⟩
    · exact ⟨h.caps, h.shift, h.tab⟩
  obtain ⟨c, f, hpress, -⟩ := pressModifier_same inp scanCode
  rw [keyboardInput_rest v hmod, hpress]
  split
  · exact ⟨h.caps, h.shift, h.tab⟩
  · have hpressed : Modifiers.Regular (Input.modifiers { inp with ctrlFlag := c, fKeyPressed := f }) :=
      ⟨h.caps, h.shift, h.tab⟩
    exact hpressed.lineKey v scanCode

theorem Modifiers.Regular.switched (h : inp.modifiers.Regular) (v : Fin 3) (action : KeyAction) :
    (action.switched v inp).modifiers.Regular := by
  cases action with
  | switchTerminal n =>
    simp only [KeyAction.switched]
    split
    · exact h
    · exact h
  | nothing | echo | cleark | halt => exact h

end Regular

/-- What an Enter with no Ctrl held needs of the state before it. -/
structure Input.Ready (inp : Input) : Prop where
  bounds : inp.InBounds
  regular : inp.modifiers.Regular

theorem Input.Ready.next (disk : Disk) {k : Kernel} (h : k.input.Ready) (e : BufferEvent) :
    (bufferNext disk k e).input.Ready := by
  refine ⟨h.bounds.next disk e, ?_⟩
  cases e with
  | key scanCode fr =>
    obtain ⟨-, -, hinput⟩ := keyboardHandler_exact disk fr scanCode k
    show (keyboardHandler disk fr scanCode k).input.modifiers.Regular
    rw [hinput]
    exact (h.regular.keyboardInput k.visibleTerm scanCode).switched _ _
  | tick esp ebp fr =>
    obtain ⟨-, -, hinput⟩ := scheduler_input disk esp ebp fr k
    show (scheduler disk esp ebp fr k).1.input.modifiers.Regular
    rw [hinput]
    exact h.regular
  | switchTerminal n =>
    obtain ⟨-, -, hinput⟩ := switchTerminal_input n k
    show (switchTerminal n k).input.modifiers.Regular
    rw [hinput]
    exact h.regular.switched k.visibleTerm (.switchTerminal n)
  | read nbytes =>
    simp only [bufferNext]
    split
    · exact h.regular
    · rename_i hread
      obtain ⟨-, -, rfl⟩ := terminalRead_eq_some hread
      exact h.regular

/-- Every state that is reached from boot is ready. -/
theorem boot_run_ready (disk : Disk) (pw : PowerOn) (fr : Frame) {history : List BufferEvent}
    {k : Kernel} (hrun : run (bufferStep disk) (boot disk pw fr).1 history = some k) :
    k.input.Ready := by
  have hboot : (boot disk pw fr).1.input.Ready := by
    refine ⟨boot_inBounds disk pw fr, ?_⟩
    obtain ⟨-, -, hinput⟩ := boot_input disk pw fr
    rw [hinput]
    exact ⟨Or.inl rfl, Or.inl rfl, Or.inl rfl⟩
  have hall : Throughout (bufferStep disk) (fun k => k.input.Ready) (boot disk pw fr).1 history := by
    refine throughout_of_inv (fun k e k' hk hs => ?_) hboot
    obtain rfl := Option.some.inj hs
    exact hk.next disk e
  exact throughout_last (P := fun k => k.input.Ready) hall hrun

/-! ## From an Enter on -/

theorem keyboardInput_enter (v : Fin 3) {inp : Input} (hidle : ¬ inp.modifiers.Chord) :
    keyboardInput v inp enterPressedCode = enterKey v inp :=
  (keyboardInput_rest v (by decide)).trans (if_neg hidle)

theorem startEdit_inv (v : Fin 3) {inp : Input} (h : inp.Ready) (hctrl : inp.ctrlFlag = 0) :
    EditInv v (startEdit v inp) := by
  have henter : keyboardInput v inp enterPressedCode = enterKey v inp :=
    keyboardInput_enter v fun hchord => hchord.1 hctrl
  have hspells : ((keyboardInput v inp enterPressedCode).1.lineState v).Spells [] := by
    rw [henter]
    exact ⟨rfl, Begins.nil⟩
  refine ⟨?_, hspells, Nat.zero_le _⟩
  show FlagsMatch (keyboardInput v inp enterPressedCode).1.modifiers _
  rw [henter]
  refine ⟨?_, ?_, hctrl, ?_⟩
  · show inp.capsFlag = if decide (inp.capsFlag ≠ 0) then 255 else 0
    rcases h.regular.caps with hcaps | hcaps
    · rw [show inp.capsFlag = 0 from hcaps]
      rfl
    · rw [show inp.capsFlag = 255 from hcaps]
      rfl
  · show inp.shiftFlag = if decide (inp.shiftFlag = 1) then 1 else 0
    rcases h.regular.shift with hshift | hshift
    · rw [show inp.shiftFlag = 0 from hshift]
      rfl
    · rw [show inp.shiftFlag = 1 from hshift]
      rfl
  · show inp.tabFlag = if decide (inp.tabFlag ≠ 0) then 1 else 0
    rcases h.regular.tab with htab | htab
    · rw [show inp.tabFlag = 0 from htab]
      rfl
    · rw [show inp.tabFlag = 1 from htab]
      rfl

/-- **The handler is a line editor** exactly as long as the count does not come round to 0 at a key
    that is to change the line: after an Enter without Ctrl in any state reached from boot without a
    store behind the buffer, through any keys but Ctrl, Enter and a Backspace with Shift. -/
theorem line_editing_iff (disk : Disk) (pw : PowerOn) (fr : Frame) {history : List BufferEvent}
    {k : Kernel} (hrun : run (bufferStep disk) (boot disk pw fr).1 history = some k)
    (hfits : Along (bufferStep disk) FitsBuffer (boot disk pw fr).1 history)
    (hroom : k.input.bufferIndex < bufferLimit) (hctrl : k.input.ctrlFlag = 0) (codes : List UInt8) :
    Throughout (editStep k.visibleTerm) SameLine (startEdit k.visibleTerm k.input) codes ↔
      Along (editStep k.visibleTerm) (fun r scanCode => ¬ CountRefuses r.input scanCode)
        (startEdit k.visibleTerm k.input) codes :=
  editing_iff (startEdit_inv k.visibleTerm (boot_run_ready disk pw fr hrun) hctrl) codes

/-- A line of `s` that the shell has read, and after the next Enter `a`, Backspace, Caps Lock and
    `b`. -/
theorem first_line_edited :
    let history : List BufferEvent :=
      [.key 0x1F blankFrame, .key 0x1C blankFrame, .read 128, .key 0x9C blankFrame]
    ∃ k, run (bufferStep smallDisk) (boot smallDisk blankMemory blankFrame).1 history = some k ∧
      Throughout (editStep k.visibleTerm) SameLine (startEdit k.visibleTerm k.input)
        [0x1E, 0x0E, 0x3A, 0x30] := by
  intro history
  have hrun : run (bufferStep smallDisk) (boot smallDisk blankMemory blankFrame).1 history = some _ :=
    rfl
  refine ⟨_, hrun, ?_⟩
  exact (line_editing_iff smallDisk blankMemory blankFrame hrun (by decide +kernel)
    (by decide +kernel) (by decide +kernel) [0x1E, 0x0E, 0x3A, 0x30]).mpr (by decide +kernel)

/-- Caps Lock, Backspace 255 times on the empty line, and then `A`: it is not taken. -/
theorem editor_refuses_key :
    ¬ Throughout (editStep 0) SameLine
      (startEdit 0 (boot smallDisk blankMemory blankFrame).1.input)
      (0x3A :: (List.replicate 255 0x0E ++ [0x1E])) := by
  intro h
  have hrun : run (bufferStep smallDisk) (boot smallDisk blankMemory blankFrame).1 [] = some _ := rfl
  have hinv : EditInv 0 (startEdit 0 (boot smallDisk blankMemory blankFrame).1.input) :=
    startEdit_inv 0 (boot_run_ready smallDisk blankMemory blankFrame hrun) rfl
  exact absurd ((editing_iff hinv _).mp h) (by decide +kernel)

end ByteVerse
