/-
  Whether a terminal's reads depend on its own keyboard input alone.

  Each terminal has a line of its own: `term_buffer` while it is visible, `read_buffer` while it is
  not.  `terminal_read` waits for the Enter flag of the terminal of its process, but copies and
  clears `term_buffer`, and clears the flag of the visible terminal.  So it does right exactly when
  these are the same (`keepsApart`), and wrong after a switch that falls between the Enter key and
  the reader's time slice, or into it.  `line_flag`, which is not swapped, is a second way from one
  terminal to another.

  The observer of terminal `t` knows the keys that were pressed while `t` was visible (a scan code,
  with the state of the modifier keys) and what the processes of `t` do.  His own machine (`Own`)
  runs the same handler and the same `terminal_read`, on a line that no other terminal ever touches.
-/
import ByteVerse.Reader
import ByteVerse.Unwinding

set_option linter.unusedVariables false

namespace ByteVerse

open Run

/-! ## The lines of the three terminals -/

/-- The line of terminal `t` while `v` is visible. -/
def Input.lineOf (v t : Fin 3) (inp : Input) : LineState :=
  if v = t then inp.lineState t
  else { buffer := inp.readBuffer t, index := inp.rbIdx t, enter := inp.enterPressed t }

def Kernel.line (t : Fin 3) (k : Kernel) : LineState := k.input.lineOf k.visibleTerm t

theorem lineOf_visible (t : Fin 3) (inp : Input) : inp.lineOf t t = inp.lineState t := if_pos rfl

theorem lineOf_hidden {v t : Fin 3} (h : v ≠ t) (inp : Input) :
    inp.lineOf v t =
      { buffer := inp.readBuffer t, index := inp.rbIdx t, enter := inp.enterPressed t } :=
  if_neg h

theorem line_eq {k : Kernel} {v : Fin 3} {inp : Input} (hv : k.visibleTerm = v)
    (hi : k.input = inp) (t : Fin 3) : k.line t = inp.lineOf v t := by
  rw [Kernel.line, hv, hi]

/-- `switch_terminal` moves lines about and changes none. -/
theorem switchInput_line {v n t : Fin 3} (hn : n ≠ v) {inp : Input} {l : LineState}
    (h : (inp.lineOf v t).Agree l) : ((switchInput v n inp).lineOf n t).Agree l := by
  by_cases hv : v = t
  · -- the terminal that was visible: its line is saved
    subst hv
    rw [lineOf_visible] at h
    rw [lineOf_hidden hn]
    refine h.of_same ⟨fun i h0 h1 => ?_, ?_, rfl⟩
    · show Function.update inp.readBuffer v _ v i = inp.termBuffer i
      rw [Function.update_self]
      exact if_pos ⟨h0, h1⟩
    · show Function.update inp.rbIdx v _ v = inp.bufferIndex
      rw [Function.update_self]
      have hlow : 0 ≤ inp.bufferIndex := h.low
      have hhigh : inp.bufferIndex ≤ 128 := h.high
      omega
  · rw [lineOf_hidden hv] at h
    by_cases hnt : n = t
    · -- the terminal that becomes visible: its line is loaded
      subst hnt
      rw [lineOf_visible]
      refine h.of_same ⟨fun i h0 h1 => ?_, ?_, rfl⟩
      · show (if 0 ≤ i ∧ i < bufferLimit then Function.update inp.readBuffer v _ n i else _) = _
        rw [if_pos ⟨h0, h1⟩, Function.update_of_ne hn]
      · exact Function.update_of_ne hn _ _
    · rw [lineOf_hidden hnt]
      refine h.of_same ⟨fun i _ _ => ?_, ?_, rfl⟩
      · show Function.update inp.readBuffer v _ t i = _
        rw [Function.update_of_ne (Ne.symm hv)]
      · exact Function.update_of_ne (Ne.symm hv) _ _

/-- A key changes the line of the visible terminal only. -/
theorem keyboardInput_hidden {v t : Fin 3} (h : v ≠ t) (inp : Input) (scanCode : UInt8) :
    (keyboardInput v inp scanCode).1.lineOf v t = inp.lineOf v t := by
  obtain ⟨hbuf, hidx, henter⟩ := keyboardInput_saved v inp scanCode
  rw [lineOf_hidden h, lineOf_hidden h, hbuf, hidx, henter t (Ne.symm h)]

/-! ## What a statement of `terminal_read` does to the lines -/

/-- The statement reads or writes the line buffer, or clears the flag of the visible terminal. -/
def ReadPc.touches (nbytes : Int) : ReadPc → Bool
  | .copy i _ => decide (i < nbytes ∧ i < bufferLimit)
  | .wipe i _ _ => decide (i < nbytes ∧ i < bufferLimit)
  | .clearFlag _ _ => true
  | _ => false

theorem readStatement_untouched {s v : Fin 3} {nbytes : Int} (inp : Input) {pc : ReadPc}
    (h : pc.touches nbytes = false) :
    ((readStatement s v nbytes inp pc).1.lineState v).Same (inp.lineState v) := by
  have hrefl := LineState.Same.refl (inp.lineState v)
  cases pc with
  | wait | returned => exact hrefl
  | copy i buf =>
    simp only [readStatement]
    split
    · split <;> exact hrefl
    · exact hrefl
  | wipe i n buf =>
    simp only [ReadPc.touches, decide_eq_false_iff_not] at h
    simp only [readStatement]
    split
    · refine ⟨fun j h0 h1 => ?_, rfl, rfl⟩
      exact Function.update_of_ne (by omega) _ _
    · exact hrefl
  | clearFlag n buf => cases h

/-- The lines of other terminals than the visible one stay as they are, and so does the visible
    one's when the statement does not touch it. -/
theorem readStatement_line {s v u : Fin 3} {nbytes : Int} (inp : Input) {pc : ReadPc}
    (h : v = u → pc.touches nbytes = false) :
    ((readStatement s v nbytes inp pc).1.lineOf v u).Same (inp.lineOf v u) := by
  by_cases hv : v = u
  · subst hv
    rw [lineOf_visible, lineOf_visible]
    exact readStatement_untouched inp (h rfl)
  · obtain ⟨hbuf, hidx, henter⟩ := readStatement_saved s v nbytes inp pc
    rw [lineOf_hidden hv, lineOf_hidden hv, hbuf, hidx, henter u (Ne.symm hv)]
    exact LineState.Same.refl _

/-! ## The observer of a terminal -/

/-- What concerns terminal `t` of what happens. -/
inductive OwnEvent
  /-- A scan code that arrived while `t` was visible, and the state of the modifier keys. -/
  | key (mods : Modifiers) (scanCode : UInt8)
  /-- A statement of the process of `t`. -/
  | statement (nbytes : Int)
  /-- Its process was halted by Ctrl+C. -/
  | killed
  deriving DecidableEq

def ownView (t : Fin 3) (m : InputSession) : InputEvent → List OwnEvent
  | .key scanCode fr =>
    (if m.kernel.visibleTerm = t then [.key m.kernel.input.modifiers scanCode] else []) ++
      (if kills m.kernel scanCode ∧ m.kernel.schedTerm = t then [.killed] else [])
  | .statement nbytes => if m.kernel.schedTerm = t then [.statement nbytes] else []
  | _ => []

/-! ## The observer's own machine -/

/-- A keyboard with one terminal, and the read of its process. -/
structure Own where
  input : Input
  call : Option ReadCall

def Input.withModifiers (mods : Modifiers) (inp : Input) : Input :=
  { inp with
    capsFlag := mods.caps, shiftFlag := mods.shift, ctrlFlag := mods.ctrl, altFlag := mods.alt
    tabFlag := mods.tab, fKeyPressed := mods.fKey, lineFlag := 0 }

def own (t : Fin 3) (o : Own) : OwnEvent → Own
  | .key mods scanCode => { o with input := (keyboardInput t (o.input.withModifiers mods) scanCode).1 }
  | .statement nbytes =>
    let r := callStatement t t nbytes o.input o.call
    { input := r.1, call := some r.2 }
  | .killed => { o with call := none }

def ownOut (t : Fin 3) (o : Own) : OwnEvent → List Observed
  | .statement nbytes => [(callStatement t t nbytes o.input o.call).2.pc.observed]
  | _ => []

def ownStart : Own := { input := initialInput blankMemory, call := none }

/-! ## The system and the observer's machine -/

/-- The two calls are at the same place, with the same bytes to return. -/
inductive PcAgree : ReadPc → ReadPc → Prop
  | wait : PcAgree .wait .wait
  | copy {i : Int} (h0 : 0 ≤ i) (h1 : i ≤ bufferLimit) (buf : List UInt8)
      (hlen : (buf.length : Int) = i) : PcAgree (.copy i buf) (.copy i buf)
  | wipe (i : Int) {n : Int} {buf buf' : List UInt8} (h : buf.take n.toNat = buf'.take n.toNat) :
      PcAgree (.wipe i n buf) (.wipe i n buf')
  | clearFlag {n : Int} {buf buf' : List UInt8} (h : buf.take n.toNat = buf'.take n.toNat) :
      PcAgree (.clearFlag n buf) (.clearFlag n buf')
  | returned {n : Int} {buf buf' : List UInt8} (h : buf.take n.toNat = buf'.take n.toNat) :
      PcAgree (.returned n buf) (.returned n buf')

inductive CallAgree : Option ReadCall → Option ReadCall → Prop
  | outside : CallAgree none none
  | inside (nbytes : Int) {pc pc' : ReadPc} (h : PcAgree pc pc') :
      CallAgree (some ⟨nbytes, pc⟩) (some ⟨nbytes, pc'⟩)

/-- The session, as far as it concerns `t`, is in the state of the observer's machine. -/
structure Matches (t : Fin 3) (m : InputSession) (o : Own) : Prop where
  line : (m.kernel.line t).Agree (o.input.lineState t)
  call : CallAgree (m.calls t) o.call

/-- No statement of a read touches the line of another terminal, and no key meets a wrapped
    `line_flag`. -/
def keepsApart (m : InputSession) : InputEvent → Prop
  | .key scanCode fr => ¬ lineFlagWraps m.kernel.input scanCode
  | .statement nbytes =>
    match openCall (m.calls m.kernel.schedTerm) with
    | some c => c.pc.touches c.nbytes = true → m.kernel.schedTerm = m.kernel.visibleTerm
    | none => True
  | _ => True

instance (m : InputSession) (e : InputEvent) : Decidable (keepsApart m e) :=
  match e with
  | .key _ _ => inferInstanceAs (Decidable (¬ _))
  | .statement _ =>
    match h : openCall (m.calls m.kernel.schedTerm) with
    | some c => decidable_of_iff
        (c.pc.touches c.nbytes = true → m.kernel.schedTerm = m.kernel.visibleTerm)
        (by rw [keepsApart, h])
    | none => isTrue (by rw [keepsApart, h]; trivial)
  | .tick _ _ _ => isTrue trivial
  | .switchTerminal _ => isTrue trivial

section Step

variable {t : Fin 3}

theorem PcAgree.observed {pc pc' : ReadPc} (h : PcAgree pc pc') : pc.observed = pc'.observed := by
  cases h with
  | wait | copy | wipe | clearFlag => rfl
  | returned h =>
    simp only [ReadPc.observed]
    rw [h]

theorem CallAgree.observed {c c' : ReadCall} (h : CallAgree (some c) (some c')) :
    c.pc.observed = c'.pc.observed := by
  cases h with
  | inside nbytes hpc => exact hpc.observed

theorem lineOf_enter (v t : Fin 3) (inp : Input) :
    (inp.lineOf v t).enter = inp.enterPressed t := by
  unfold Input.lineOf
  split <;> rfl

/-- A statement of two calls at the same place, on lines alike. -/
theorem readStatement_agree {v : Fin 3} {nbytes : Int} {inp inp' : Input} {pc pc' : ReadPc}
    (hline : (inp.lineOf v t).Agree (inp'.lineState t)) (hpc : PcAgree pc pc')
    (hapart : pc.touches nbytes = true → t = v) :
    let r := readStatement t v nbytes inp pc
    let r' := readStatement t t nbytes inp' pc'
    (r.1.lineOf v t).Agree (r'.1.lineState t) ∧ PcAgree r.2 r'.2 := by
  cases hpc with
  | wait =>
    refine ⟨hline, ?_⟩
    have henter : inp.enterPressed t = inp'.enterPressed t :=
      (lineOf_enter v t inp).symm.trans hline.enter
    simp only [readStatement]
    rw [henter]
    split
    · exact .wait
    · exact .copy (Int.le_refl 0) (show (0 : Int) ≤ 128 by decide) [] rfl
  | @copy i h0 h1 buf hlen =>
    simp only [readStatement]
    by_cases hmore : i < nbytes
    · rw [if_pos hmore, if_pos hmore]
      by_cases hlast : i = bufferLimit
      · -- the byte behind the buffer is stored, but not counted
        rw [if_pos (Or.inl hlast), if_pos (Or.inl hlast)]
        refine ⟨hline, .wipe 0 ?_⟩
        have hle : i.toNat ≤ buf.length := by omega
        rw [List.take_append_of_le_length hle, List.take_append_of_le_length hle]
      · have hroom : i < bufferLimit := by omega
        obtain rfl : t = v := hapart (decide_eq_true ⟨hmore, hroom⟩)
        rw [lineOf_visible] at hline
        have hbyte : inp.termBuffer i = inp'.termBuffer i := hline.buffer i h0 hroom
        rw [hbyte]
        split
        · exact ⟨(lineOf_visible t inp).symm ▸ hline, .wipe 0 rfl⟩
        · refine ⟨(lineOf_visible t inp).symm ▸ hline, .copy (by omega) (by omega) _ ?_⟩
          rw [List.length_append, List.length_singleton]
          omega
    · rw [if_neg hmore, if_neg hmore]
      exact ⟨hline, .wipe 0 rfl⟩
  | @wipe i n buf buf' hbuf =>
    by_cases htouch : (ReadPc.wipe i n buf).touches nbytes = true
    · obtain rfl : t = v := hapart htouch
      rw [lineOf_visible] at hline
      simp only [readStatement, if_pos (of_decide_eq_true htouch).1, lineOf_visible]
      exact ⟨⟨⟨update_agree hline.buffer i 0, hline.index, hline.enter⟩, hline.low, hline.high⟩,
        .wipe _ hbuf⟩
    · have huntouched := Bool.eq_false_iff.mpr htouch
      have hsame : ((readStatement t v nbytes inp (.wipe i n buf)).1.lineOf v t).Same _ :=
        readStatement_line inp fun _ => huntouched
      have hsame' : ((readStatement t t nbytes inp' (.wipe i n buf')).1.lineState t).Same _ :=
        readStatement_untouched inp' huntouched
      refine ⟨hline.congr hsame hsame', ?_⟩
      simp only [readStatement]
      split
      · exact .wipe _ hbuf
      · exact .clearFlag hbuf
  | clearFlag hbuf =>
    obtain rfl : t = v := hapart rfl
    rw [lineOf_visible] at hline
    simp only [readStatement, lineOf_visible]
    refine ⟨⟨⟨hline.buffer, hline.index, ?_⟩, hline.low, hline.high⟩, .returned hbuf⟩
    show Function.update inp.enterPressed t 0 t = Function.update inp'.enterPressed t 0 t
    rw [Function.update_self, Function.update_self]
  | returned hbuf => exact ⟨hline, .returned hbuf⟩

theorem openCall_agree {c c' : Option ReadCall} (h : CallAgree c c') :
    CallAgree (openCall c) (openCall c') := by
  cases h with
  | outside => exact .outside
  | inside nbytes hpc =>
    cases hpc with
    | wait => exact .inside _ .wait
    | copy h0 h1 buf hlen => exact .inside _ (.copy h0 h1 buf hlen)
    | wipe i h => exact .inside _ (.wipe i h)
    | clearFlag h => exact .inside _ (.clearFlag h)
    | returned => exact .outside

/-- A key, in the system and in the observer's machine. -/
theorem keyboardInput_agree {inp inp' : Input} {scanCode : UInt8}
    (hline : (inp.lineState t).Agree (inp'.lineState t)) (hwrap : ¬ lineFlagWraps inp scanCode) :
    ((keyboardInput t inp scanCode).1.lineState t).Agree
      ((keyboardInput t (inp'.withModifiers inp.modifiers) scanCode).1.lineState t) := by
  have hlow : 0 ≤ inp.bufferIndex := hline.low
  have hidx : inp.bufferIndex = inp'.bufferIndex := hline.index
  have hwrap' : ¬ lineFlagWraps (inp'.withModifiers inp.modifiers) scanCode := fun h =>
    absurd h.1 (show (0 : UInt8) ≠ 255 by decide)
  rw [keyboardInput_line t hlow hline.high hwrap,
    keyboardInput_line t (hidx ▸ hlow) (hidx ▸ hline.high) hwrap']
  show (LineEffect.apply _ _).Agree (LineEffect.apply (inp'.lineState t)
    (keyEffect inp.modifiers inp'.bufferIndex scanCode))
  rw [← hidx]
  exact hline.apply (keyEffect_fits _ hlow scanCode)

/-- A statement of the process of `t`, in the system and in the observer's machine. -/
theorem callStatement_agree {v : Fin 3} {inp inp' : Input} {call call' : Option ReadCall}
    (nbytes : Int) (hline : (inp.lineOf v t).Agree (inp'.lineState t))
    (hcall : CallAgree call call')
    (hapart : ∀ c, openCall call = some c → c.pc.touches c.nbytes = true → t = v) :
    let r := callStatement t v nbytes inp call
    let r' := callStatement t t nbytes inp' call'
    (r.1.lineOf v t).Agree (r'.1.lineState t) ∧ CallAgree (some r.2) (some r'.2) := by
  have hopen := openCall_agree hcall
  unfold callStatement
  generalize openCall call = c at hopen hapart
  generalize openCall call' = c' at hopen
  cases hopen with
  | outside => exact ⟨hline, .inside nbytes .wait⟩
  | inside n hpc =>
    obtain ⟨hline', hpc'⟩ := readStatement_agree hline hpc (hapart _ rfl)
    exact ⟨hline', .inside n hpc'⟩

/-- A statement leaves the line of `u` alone, unless `u` is visible and the statement touches it. -/
theorem callStatement_line {s v u : Fin 3} (nbytes : Int) (inp : Input) {call : Option ReadCall}
    (h : ∀ c, openCall call = some c → v = u → c.pc.touches c.nbytes = false) :
    ((callStatement s v nbytes inp call).1.lineOf v u).Same (inp.lineOf v u) := by
  unfold callStatement
  generalize openCall call = c at h
  cases c with
  | none => exact LineState.Same.refl _
  | some c => exact readStatement_line inp (h c rfl)

theorem keepsApart_statement {m : InputSession} {nbytes : Int} (h : keepsApart m (.statement nbytes))
    (c : ReadCall) (hc : openCall (m.calls m.kernel.schedTerm) = some c)
    (htouch : c.pc.touches c.nbytes = true) : m.kernel.schedTerm = m.kernel.visibleTerm := by
  rw [keepsApart, hc] at h
  exact h htouch

/-- What the observer's machine makes of a key event. -/
theorem key_view (t : Fin 3) (m : InputSession) (o : Own) (scanCode : UInt8) (fr : Frame) :
    let view := ownView t m (.key scanCode fr)
    replay (own t) (ownOut t) o view = [] ∧
    (view.foldl (own t) o).input =
      (if m.kernel.visibleTerm = t
        then (keyboardInput t (o.input.withModifiers m.kernel.input.modifiers) scanCode).1
        else o.input) ∧
    (view.foldl (own t) o).call =
      if kills m.kernel scanCode = true ∧ m.kernel.schedTerm = t then none else o.call := by
  simp only [ownView]
  split
  · split <;> exact ⟨rfl, rfl, rfl⟩
  · split <;> exact ⟨rfl, rfl, rfl⟩

/-- **The step lemma**: a step that keeps the terminals apart shows the observer what his machine
    shows on his view of it, and keeps the two in step. -/
theorem Matches.step {disk : Disk} {m : InputSession} {o : Own} {e : InputEvent} (h : Matches t m o)
    (hgood : keepsApart m e) :
    observe t m e = replay (own t) (ownOut t) o (ownView t m e) ∧
      Matches t (m.next disk e) ((ownView t m e).foldl (own t) o) := by
  cases e with
  | key scanCode fr =>
    obtain ⟨-, hcase⟩ := keyboardHandler_input disk fr scanCode m.kernel
    obtain ⟨hout, hinput, hcall⟩ := key_view t m o scanCode fr
    rw [hout]
    have hkey : ((keyboardInput m.kernel.visibleTerm m.kernel.input scanCode).1.lineOf
        m.kernel.visibleTerm t).Agree
          (((ownView t m (.key scanCode fr)).foldl (own t) o).input.lineState t) := by
      rw [hinput]
      have hline := h.line
      by_cases hv : m.kernel.visibleTerm = t
      · rw [if_pos hv]
        rw [Kernel.line, hv, lineOf_visible] at hline
        rw [hv, lineOf_visible]
        exact keyboardInput_agree hline hgood
      · rw [if_neg hv, keyboardInput_hidden hv]
        exact hline
    refine ⟨rfl, ?_, ?_⟩
    · show ((keyboardHandler disk fr scanCode m.kernel).line t).Agree _
      rcases hcase with ⟨hv, hi⟩ | ⟨n, -, hn, hv, hi⟩
      · rw [line_eq hv hi]
        exact hkey
      · rw [line_eq hv hi]
        exact switchInput_line hn hkey
    · rw [hcall]
      show CallAgree ((if kills m.kernel scanCode then _ else _ : Fin 3 → Option ReadCall) t) _
      by_cases hkills : kills m.kernel scanCode = true
      · rw [if_pos hkills]
        by_cases hs : m.kernel.schedTerm = t
        · rw [if_pos ⟨hkills, hs⟩, hs, Function.update_self]
          exact .outside
        · rw [if_neg fun hk => hs hk.2, Function.update_of_ne (Ne.symm hs)]
          exact h.call
      · rw [if_neg hkills, if_neg fun hk => hkills hk.1]
        exact h.call
  | tick esp ebp fr =>
    obtain ⟨-, hv, hi⟩ := scheduler_input disk esp ebp fr m.kernel
    exact ⟨rfl, (line_eq hv hi t).symm ▸ h.line, h.call⟩
  | switchTerminal n =>
    obtain ⟨-, hv, hi⟩ := switchTerminal_input n m.kernel
    refine ⟨rfl, ?_, h.call⟩
    by_cases hn : n = m.kernel.visibleTerm
    · rw [if_pos hn] at hi
      exact (line_eq (hv.trans hn) hi t).symm ▸ h.line
    · rw [if_neg hn] at hi
      exact (line_eq hv hi t).symm ▸ switchInput_line hn h.line
  | statement nbytes =>
    have hapart := keepsApart_statement hgood
    by_cases hs : m.kernel.schedTerm = t
    · subst hs
      obtain ⟨hline, hcall⟩ := callStatement_agree nbytes h.line h.call hapart
      simp only [observe, ownView, if_true]
      refine ⟨?_, hline, ?_⟩
      · show [_] = [_] ++ []
        rw [List.append_nil, hcall.observed]
      · show CallAgree (Function.update m.calls m.kernel.schedTerm _ m.kernel.schedTerm) (some _)
        rw [Function.update_self]
        exact hcall
    · simp only [observe, ownView, if_neg hs]
      refine ⟨rfl, h.line.of_same ?_, ?_⟩
      · refine callStatement_line nbytes _ fun c hc hv => ?_
        exact Bool.eq_false_iff.mpr fun htouch => hs ((hapart c hc htouch).trans hv)
      · show CallAgree (Function.update m.calls m.kernel.schedTerm _ t) _
        rw [Function.update_of_ne (Ne.symm hs)]
        exact h.call

end Step

/-! ## Runs -/

theorem boot_matches (disk : Disk) (pw : PowerOn) (fr : Frame) (t : Fin 3) :
    Matches t (bootSession disk pw fr) ownStart := by
  obtain ⟨-, hv, hi⟩ := boot_input disk pw fr
  refine ⟨?_, .outside⟩
  show ((boot disk pw fr).1.line t).Agree _
  rw [line_eq hv hi]
  refine ⟨⟨fun i h0 h1 => ?_, ?_, ?_⟩, ?_, ?_⟩
  · unfold Input.lineOf
    split
    · exact (if_pos ⟨h0, h1⟩).trans (if_pos ⟨h0, h1⟩).symm
    · exact (if_pos ⟨h0, h1⟩).symm
  · unfold Input.lineOf
    split <;> rfl
  · unfold Input.lineOf
    split <;> rfl
  · unfold Input.lineOf
    split <;> exact Int.le_refl 0
  · unfold Input.lineOf
    split <;> exact (show (0 : Int) ≤ 128 by decide)

/-- A statement of a read leaves the lines and the Enter flags of the other terminals alone. -/
def sparesOthers (disk : Disk) (m : InputSession) : InputEvent → Prop
  | .statement nbytes => ∀ u, u ≠ m.kernel.schedTerm →
      ((m.next disk (.statement nbytes)).kernel.line u).Same (m.kernel.line u)
  | _ => True

theorem keepsApart_spares (disk : Disk) (m : InputSession) (e : InputEvent) (h : keepsApart m e) :
    sparesOthers disk m e := by
  cases e with
  | key | tick | switchTerminal => trivial
  | statement nbytes =>
    intro u hu
    refine callStatement_line nbytes _ fun c hc hv => ?_
    refine Bool.eq_false_iff.mpr fun htouch => hu ?_
    exact ((keepsApart_statement h c hc htouch).trans hv).symm

/-- **Input isolation**, for every two runs after boot whose steps keep the terminals apart.  What a
    process of `t` is given by its reads, and when, is what a machine shows that is fed the keys
    pressed while `t` was visible and nothing else; so it is the same in runs that differ in other
    keys, ticks and switches only.  And no read changes another terminal's line or Enter flag. -/
theorem input_isolated (disk : Disk) (pw : PowerOn) (fr : Frame) (t : Fin 3)
    {es₁ es₂ : List InputEvent}
    (h₁ : Along (inputStep disk) keepsApart (bootSession disk pw fr) es₁)
    (h₂ : Along (inputStep disk) keepsApart (bootSession disk pw fr) es₂) :
    let start := bootSession disk pw fr
    let view := collect (inputStep disk) (ownView t) start
    let seen := collect (inputStep disk) (observe t) start
    (seen es₁ = replay (own t) (ownOut t) ownStart (view es₁)) ∧
    (view es₁ = view es₂ → seen es₁ = seen es₂) ∧
    Along (inputStep disk) (sparesOthers disk) start es₁ := by
  have hstep : ∀ m e m' o, Matches t m o → keepsApart m e → inputStep disk m e = some m' →
      observe t m e = replay (own t) (ownOut t) o (ownView t m e) ∧
        Matches t m' ((ownView t m e).foldl (own t) o) := by
    intro m e m' o hm hgood hnext
    obtain rfl := Option.some.inj hnext
    exact hm.step hgood
  have hstart := boot_matches disk pw fr t
  refine ⟨collect_eq_replay hstep hstart h₁, same_view_same_out hstep hstart hstart h₁ h₂, ?_⟩
  exact along_mono (keepsApart_spares disk) h₁

/-- Terminal 0: `a`, Enter, and a read of two bytes. -/
def readsLine : List InputEvent :=
  [.key 0x1E blankFrame, .key 0x1C blankFrame] ++ List.replicate 9 (.statement 2)

/-- The same with a visit to terminal 1, where `b` is typed, between the two keys. -/
def readsLineAfterVisit : List InputEvent :=
  [.key 0x1E blankFrame, .switchTerminal 1, .key 0x30 blankFrame, .switchTerminal 0,
    .key 0x1C blankFrame] ++ List.replicate 9 (.statement 2)

/-- The visit makes no difference to terminal 0, whose process gets its line both times. -/
theorem visit_changes_nothing :
    let seen := collect (inputStep smallDisk) (observe 0)
      (bootSession smallDisk blankMemory blankFrame)
    seen readsLine = seen readsLineAfterVisit ∧
      (seen readsLine).getLast? = some (.returned 2 [97, 10]) := by
  have h := @input_isolated smallDisk blankMemory blankFrame 0 readsLine readsLineAfterVisit
    (by decide +kernel) (by decide +kernel)
  exact ⟨h.2.1 (by decide +kernel), by decide +kernel⟩

/-- Terminal 0: `a`, Enter; then a switch to terminal 1 and a key there, before the process of
    terminal 0 is given a time slice in which it reads one byte. -/
def readsElsewhere (scanCode : UInt8) : List InputEvent :=
  [.key 0x1E blankFrame, .key 0x1C blankFrame, .switchTerminal 1, .key scanCode blankFrame] ++
    List.replicate 7 (.statement 1)

/-- The key pressed on terminal 1 is what terminal 0 reads, `b` or `c`; and reading it removes it
    from terminal 1's line. -/
theorem reads_other_terminals_line :
    let start := bootSession smallDisk blankMemory blankFrame
    let view := collect (inputStep smallDisk) (ownView 0) start
    let seen := collect (inputStep smallDisk) (observe 0) start
    ¬ (view (readsElsewhere 0x30) = view (readsElsewhere 0x2E) →
        seen (readsElsewhere 0x30) = seen (readsElsewhere 0x2E)) ∧
    ¬ Along (inputStep smallDisk) (sparesOthers smallDisk) start (readsElsewhere 0x30) := by
  refine ⟨by decide +kernel, fun h => ?_⟩
  -- the first byte of terminal 1's line before and after the statement that clears it
  let before := [.key 0x1E blankFrame, .key 0x1C blankFrame, .switchTerminal 1,
    .key 0x30 blankFrame] ++ List.replicate 4 (InputEvent.statement 1)
  have hrun : (run (inputStep smallDisk) (bootSession smallDisk blankMemory blankFrame) before).map
      (fun m => (m.kernel.schedTerm, (m.kernel.line 1).buffer 0,
        ((m.next smallDisk (.statement 1)).kernel.line 1).buffer 0)) = some (0, 98, 0) := by
    decide +kernel
  obtain ⟨m, hm, hfields⟩ := Option.map_eq_some_iff.mp hrun
  obtain ⟨hsched, hfields⟩ := Prod.mk.inj hfields
  obtain ⟨hbefore, hafter⟩ := Prod.mk.inj hfields
  have hsplit : Along (inputStep smallDisk) (sparesOthers smallDisk)
      (bootSession smallDisk blankMemory blankFrame)
      (before ++ .statement 1 :: List.replicate 2 (.statement 1)) := h
  have hspares := along_at hsplit hm rfl
  have hsame := hspares 1 (by rw [hsched]; decide)
  have hbyte := hsame.buffer 0 (by decide) (by decide)
  rw [hbefore, hafter] at hbyte
  exact absurd hbyte (by decide)

end ByteVerse
