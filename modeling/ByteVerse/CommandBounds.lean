/-
  Which bytes `execute` touches while it parses a command.

  The loops of `getCommand` and `getArguments` are written here as the accesses they make, to the
  command and to the two arrays of 32 bytes on the stack.  `getCommand` copies up to 32 bytes and
  terminates `cmd` one behind the last of them, does not stop at a NUL, and `getArguments` copies
  until it meets one.  `parse_buffers` says that the arrays end up with what `getCommand` and
  `getArguments` return, `parsesWithin_iff` which commands are parsed without leaving the arrays.
-/
import ByteVerse.Accesses
import ByteVerse.CommandLine

set_option linter.unusedVariables false

namespace ByteVerse

open Accesses

/-! ## The loops -/

/-- A byte that the parsing may touch: of the command, of `cmd` or of `args`. -/
inductive ParseCell where
  | command (i : Nat)
  | cmd (i : Nat)
  | args (i : Nat)
  deriving DecidableEq

/-- The loop of `execute` that clears the two arrays. -/
def clearBuffers : List (Access ParseCell UInt8) :=
  (List.range filenameLen).flatMap fun i => [.write (.args i) 0, .write (.cmd i) 0]

/-- The inner loop of `getCommand`, from `command[i]` on, and the index it leaves. -/
def skipSeparators : List UInt8 → Nat → List (Access ParseCell UInt8) × Nat
  | [], i => ([.read (.command i)], i)
  | c :: rest, i =>
    if isSeparator c then
      let skipped := skipSeparators rest (i + 1)
      (.read (.command i) :: skipped.1, skipped.2)
    else ([.read (.command i)], i)

/-- The outer loop of `getCommand` and the statement after it, for the `n` iterations left: the
    accesses and the index returned. -/
def getCommandLoop (command : List UInt8) : Nat → Nat → Nat → List (Access ParseCell UInt8) × Nat
  | 0, i, cmdBuffIndex => ([.write (.cmd cmdBuffIndex) 0], i)
  | n + 1, i, cmdBuffIndex =>
    if isSeparator (byteAt command i) then
      let skipped := skipSeparators (command.drop i) i
      (.read (.command i) :: (skipped.1 ++ [.write (.cmd cmdBuffIndex) 0]), skipped.2)
    else
      let copied := getCommandLoop command n (i + 1) (cmdBuffIndex + 1)
      (.read (.command i) :: .write (.cmd cmdBuffIndex) (byteAt command i) :: copied.1, copied.2)

/-- The loop of `getArguments`, from `command[i]` on. -/
def getArgumentsLoop : List UInt8 → Nat → Nat → List (Access ParseCell UInt8)
  | [], i, _ => [.read (.command i)]
  | c :: rest, i, argIdx =>
    if c ≠ 0 then
      .read (.command i) :: .write (.args argIdx) c :: getArgumentsLoop rest (i + 1) (argIdx + 1)
    else [.read (.command i)]

/-- The parsing of `execute`, from the clearing of the arrays on. -/
def parseTrace (command : List UInt8) : List (Access ParseCell UInt8) :=
  let found := getCommandLoop command filenameLen 0 0
  clearBuffers ++ (found.1 ++ getArgumentsLoop (command.drop found.2) found.2 0)

/-! ## The loops as copies -/

variable {command c : List UInt8}

theorem skipSeparators_index (l : List UInt8) (i : Nat) :
    (skipSeparators l i).2 = i + (l.takeWhile isSeparator).length := by
  induction l generalizing i with
  | nil => rfl
  | cons b l ih =>
    unfold skipSeparators
    cases hb : isSeparator b with
    | false =>
      rw [List.takeWhile_cons_of_neg (by simp [hb])]
      rfl
    | true =>
      rw [List.takeWhile_cons_of_pos hb, List.length_cons]
      simp only [if_true, ih]
      omega

/-- The skip reads the run of separators and the byte behind it, and writes nothing. -/
theorem skipSeparators_mem {l : List UInt8} {i : Nat} {a : Access ParseCell UInt8}
    (ha : a ∈ (skipSeparators l i).1) :
    ∃ k, k ≤ (l.takeWhile isSeparator).length ∧ a = .read (.command (i + k)) := by
  induction l generalizing i with
  | nil => exact ⟨0, Nat.le_refl _, List.mem_singleton.mp ha⟩
  | cons b l ih =>
    unfold skipSeparators at ha
    cases hb : isSeparator b with
    | false =>
      rw [hb, if_neg Bool.false_ne_true] at ha
      exact ⟨0, Nat.zero_le _, List.mem_singleton.mp ha⟩
    | true =>
      rw [hb, if_pos rfl] at ha
      rw [List.takeWhile_cons_of_pos hb, List.length_cons]
      rcases List.mem_cons.mp ha with heq | hrest
      · exact ⟨0, Nat.zero_le _, heq⟩
      · obtain ⟨k, hk, heq⟩ := ih hrest
        refine ⟨k + 1, by omega, ?_⟩
        rw [heq, Nat.add_assoc, Nat.add_comm 1 k]

/-- `getArguments` copies the text in front of it and reads its terminator. -/
theorem getArgumentsLoop_eq (l : List UInt8) (i argIdx : Nat) :
    getArgumentsLoop l i argIdx =
      copy (fun k => .command (i + k)) (fun k => .args (argIdx + k)) (fun k => (text l).getD k 0)
        (text l).length ++ [.read (.command (i + (text l).length))] := by
  induction l generalizing i argIdx with
  | nil => rfl
  | cons b l ih =>
    unfold getArgumentsLoop
    by_cases hb : b = 0
    · have htext : text (b :: l) = [] := List.takeWhile_cons_of_neg (by simp [hb])
      rw [htext, if_neg (fun hne => hne hb)]
      rfl
    · have htext : text (b :: l) = b :: text l := List.takeWhile_cons_of_pos (by simp [hb])
      rw [htext, if_pos hb, List.length_cons, copy_succ, ih]
      simp only [List.getD_cons_zero, List.getD_cons_succ, Nat.add_zero, List.cons_append,
        Nat.add_assoc, Nat.add_comm 1]

/-- `getCommand` when it meets its first separator after `m` bytes. -/
theorem getCommandLoop_of_separator {n m i b : Nat} (hm : m < n)
    (hword : ∀ k, k < m → isSeparator (byteAt command (i + k)) = false)
    (hsep : isSeparator (byteAt command (i + m)) = true) :
    getCommandLoop command n i b =
      (copy (fun k => .command (i + k)) (fun k => .cmd (b + k)) (fun k => byteAt command (i + k)) m ++
        .read (.command (i + m)) ::
          ((skipSeparators (command.drop (i + m)) (i + m)).1 ++ [.write (.cmd (b + m)) 0]),
        (skipSeparators (command.drop (i + m)) (i + m)).2) := by
  induction m generalizing n i b with
  | zero =>
    obtain ⟨n, rfl⟩ : ∃ n', n = n' + 1 := ⟨n - 1, by omega⟩
    unfold getCommandLoop
    rw [Nat.add_zero] at hsep
    rw [hsep]
    rfl
  | succ m ih =>
    obtain ⟨n, rfl⟩ : ∃ n', n = n' + 1 := ⟨n - 1, by omega⟩
    have hfirst := hword 0 (Nat.succ_pos m)
    rw [Nat.add_zero] at hfirst
    have hshift : ∀ k, i + (k + 1) = i + 1 + k := fun k => by omega
    have hrest : ∀ k, k < m → isSeparator (byteAt command (i + 1 + k)) = false := by
      intro k hk
      rw [← hshift]
      exact hword (k + 1) (Nat.succ_lt_succ hk)
    rw [hshift] at hsep
    unfold getCommandLoop
    rw [hfirst, if_neg Bool.false_ne_true, ih (Nat.lt_of_succ_lt_succ hm) hrest hsep, copy_succ]
    simp only [Nat.add_zero, List.cons_append, Nat.add_assoc, Nat.add_comm 1]

/-- `getCommand` when it meets none in the `n` bytes left. -/
theorem getCommandLoop_of_none {n i b : Nat}
    (hword : ∀ k, k < n → isSeparator (byteAt command (i + k)) = false) :
    getCommandLoop command n i b =
      (copy (fun k => .command (i + k)) (fun k => .cmd (b + k)) (fun k => byteAt command (i + k)) n ++
        [.write (.cmd (b + n)) 0], i + n) := by
  induction n generalizing i b with
  | zero => rfl
  | succ n ih =>
    have hfirst := hword 0 (Nat.succ_pos n)
    rw [Nat.add_zero] at hfirst
    have hrest : ∀ k, k < n → isSeparator (byteAt command (i + 1 + k)) = false := by
      intro k hk
      rw [show i + 1 + k = i + (k + 1) by omega]
      exact hword (k + 1) (Nat.succ_lt_succ hk)
    unfold getCommandLoop
    rw [hfirst, if_neg Bool.false_ne_true, ih hrest, copy_succ]
    simp only [Nat.add_zero, List.cons_append, Nat.add_assoc, Nat.add_comm 1]

/-! ## What the arrays hold afterwards -/

/-- The first separator among the first 32 bytes, if there is one. -/
theorem firstSeparator_cases (command : List UInt8) :
    (∃ m, m < filenameLen ∧ (∀ k, k < m → isSeparator (byteAt command k) = false) ∧
        isSeparator (byteAt command m) = true) ∨
      ∀ k, k < filenameLen → isSeparator (byteAt command k) = false := by
  cases hfind : (List.range filenameLen).find? fun i => isSeparator (byteAt command i) with
  | none =>
    refine Or.inr fun k hk => ?_
    simpa using List.find?_range_eq_none.mp hfind k hk
  | some m =>
    obtain ⟨hsep, hm, hword⟩ := List.find?_range_eq_some.mp hfind
    refine Or.inl ⟨m, List.mem_range.mp hm, fun k hk => ?_, hsep⟩
    simpa using hword k hk

theorem getCommand_of_first {m : Nat} (hm : m < filenameLen)
    (hword : ∀ k, k < m → isSeparator (byteAt command k) = false)
    (hsep : isSeparator (byteAt command m) = true) :
    getCommand command =
      ((List.range m).map (byteAt command), m + ((command.drop m).takeWhile isSeparator).length) := by
  have hfind : (List.range filenameLen).find? (fun i => isSeparator (byteAt command i)) = some m := by
    rw [List.find?_range_eq_some]
    refine ⟨hsep, List.mem_range.mpr hm, fun k hk => ?_⟩
    rw [hword k hk]
    rfl
  unfold getCommand
  rw [hfind]

theorem getCommand_of_none (hword : ∀ k, k < filenameLen → isSeparator (byteAt command k) = false) :
    getCommand command = ((List.range filenameLen).map (byteAt command), filenameLen) := by
  have hfind : (List.range filenameLen).find? (fun i => isSeparator (byteAt command i)) = none := by
    rw [List.find?_range_eq_none]
    intro k hk
    rw [hword k hk]
    rfl
  unfold getCommand
  rw [hfind]

/-- The whole loop when the first separator lies at `m`: `cmd` gets the bytes before it. -/
theorem getCommandLoop_first {m : Nat} (hm : m < filenameLen)
    (hword : ∀ k, k < m → isSeparator (byteAt command k) = false)
    (hsep : isSeparator (byteAt command m) = true) :
    getCommandLoop command filenameLen 0 0 =
      (copy .command .cmd (byteAt command) m ++ .read (.command m) ::
          ((skipSeparators (command.drop m) m).1 ++ [.write (.cmd m) 0]),
        (getCommand command).2) := by
  have hloop := getCommandLoop_of_separator (i := 0) (b := 0) hm
    (by simpa only [Nat.zero_add] using hword) (by simpa only [Nat.zero_add] using hsep)
  simp only [Nat.zero_add] at hloop
  rw [hloop, skipSeparators_index, getCommand_of_first hm hword hsep]

/-- The whole loop when there is none: `cmd` gets 32 bytes and a terminator behind them. -/
theorem getCommandLoop_none
    (hword : ∀ k, k < filenameLen → isSeparator (byteAt command k) = false) :
    getCommandLoop command filenameLen 0 0 =
      (copy .command .cmd (byteAt command) filenameLen ++ [.write (.cmd filenameLen) 0],
        (getCommand command).2) := by
  have hloop := getCommandLoop_of_none (i := 0) (b := 0)
    (by simpa only [Nat.zero_add] using hword)
  simp only [Nat.zero_add] at hloop
  rw [hloop, getCommand_of_none hword]

/-- The traced loop returns the index `getCommand` returns. -/
theorem getCommandLoop_index (command : List UInt8) :
    (getCommandLoop command filenameLen 0 0).2 = (getCommand command).2 := by
  rcases firstSeparator_cases command with ⟨m, hm, hword, hsep⟩ | hword
  · rw [getCommandLoop_first hm hword hsep]
  · rw [getCommandLoop_none hword]

theorem parseTrace_eq (command : List UInt8) :
    parseTrace command = clearBuffers ++ ((getCommandLoop command filenameLen 0 0).1 ++
      (copy (fun k => .command ((getCommand command).2 + k)) .args
          (fun k => (text (command.drop (getCommand command).2)).getD k 0)
          (text (command.drop (getCommand command).2)).length ++
        [.read (.command ((getCommand command).2 +
          (text (command.drop (getCommand command).2)).length))])) := by
  have hargs := getArgumentsLoop_eq (command.drop (getCommand command).2) (getCommand command).2 0
  simp only [Nat.zero_add] at hargs
  rw [← hargs]
  unfold parseTrace
  simp only [getCommandLoop_index]

theorem replay_skipSeparators (l : List UInt8) (i : Nat) (m : ParseCell → UInt8) :
    replay (skipSeparators l i).1 m = m := by
  funext cell
  refine replay_of_not_written fun a ha hw => ?_
  obtain ⟨k, hk, rfl⟩ := skipSeparators_mem ha
  exact hw

theorem replay_clearBuffers {i : Nat} (hi : i < filenameLen) (stack : ParseCell → UInt8) :
    replay clearBuffers stack (.cmd i) = 0 ∧ replay clearBuffers stack (.args i) = 0 := by
  have hclear : ∀ n, i < n →
      replay ((List.range n).flatMap fun i => [.write (.args i) 0, .write (.cmd i) 0]) stack
          (.cmd i) = 0 ∧
        replay ((List.range n).flatMap fun i => [.write (.args i) 0, .write (.cmd i) 0]) stack
          (.args i) = 0 := by
    intro n
    induction n with
    | zero =>
      intro hlt
      exact absurd hlt (Nat.not_lt_zero i)
    | succ n ih =>
      intro hlt
      rw [List.range_succ, List.flatMap_append, replay_append, List.flatMap_singleton, replay_write,
        replay_write, replay_nil]
      simp only [ParseCell.cmd.injEq, ParseCell.args.injEq, reduceCtorEq, if_false]
      by_cases hin : i = n
      · rw [if_pos hin, if_pos hin]
        exact ⟨rfl, rfl⟩
      · rw [if_neg hin, if_neg hin]
        exact ih (by omega)
  exact hclear filenameLen hi

/-- `cmd` after `getCommand`, if it was cleared before. -/
theorem replay_getCommandLoop {i : Nat} (hi : i < filenameLen) {m : ParseCell → UInt8}
    (hm : m (.cmd i) = 0) :
    replay (getCommandLoop command filenameLen 0 0).1 m (.cmd i) =
      (getCommand command).1.getD i 0 := by
  have hinj : Function.Injective ParseCell.cmd := fun j k h => ParseCell.cmd.inj h
  rcases firstSeparator_cases command with ⟨w, hw, hword, hsep⟩ | hword
  · rw [getCommandLoop_first hw hword hsep, getCommand_of_first hw hword hsep, replay_append,
      replay_read, replay_append, replay_skipSeparators, replay_write, replay_nil]
    simp only [ParseCell.cmd.injEq]
    rw [replay_copy hinj, hm]
    rcases Nat.lt_trichotomy i w with hlt | heq | hgt
    · rw [if_neg (Nat.ne_of_lt hlt), if_pos hlt, List.getD_eq_getElem _ _ (by simpa using hlt)]
      simp
    · rw [if_pos heq, List.getD_eq_default _ _ (by simp; omega)]
    · rw [if_neg (Nat.ne_of_gt hgt), if_neg (by omega), List.getD_eq_default _ _ (by simp; omega)]
  · rw [getCommandLoop_none hword, getCommand_of_none hword, replay_append, replay_write, replay_nil]
    simp only [ParseCell.cmd.injEq]
    rw [if_neg (Nat.ne_of_lt hi), replay_copy hinj, if_pos hi,
      List.getD_eq_getElem _ _ (by simpa using hi)]
    simp

/-- `getCommand` writes `cmd` only. -/
theorem getCommandLoop_args (i : Nat) (m : ParseCell → UInt8) :
    replay (getCommandLoop command filenameLen 0 0).1 m (.args i) = m (.args i) := by
  rcases firstSeparator_cases command with ⟨w, hw, hword, hsep⟩ | hword
  · rw [getCommandLoop_first hw hword hsep, replay_append, replay_read, replay_append,
      replay_skipSeparators, replay_write, replay_nil]
    simp only [reduceCtorEq, if_false]
    exact replay_of_within (fun cell => cell ≠ .args i) (by simp [within_copy]) (by simp)
  · rw [getCommandLoop_none hword]
    exact replay_of_within (fun cell => cell ≠ .args i) (by simp [within_copy]) (by simp)

theorem commandArgs_getD {i : Nat} (hi : i < filenameLen) :
    (commandArgs command).getD i 0 = (text (command.drop (getCommand command).2)).getD i 0 := by
  unfold commandArgs getArguments
  rw [List.getD_eq_getElem _ _ (by simpa using hi)]
  simp

/-- The traced loops do to `cmd` and `args` what `getCommand` and `getArguments` say. -/
theorem parse_buffers (command : List UInt8) (stack : ParseCell → UInt8) {i : Nat}
    (hi : i < filenameLen) :
    replay (parseTrace command) stack (.cmd i) = (getCommand command).1.getD i 0 ∧
      replay (parseTrace command) stack (.args i) = (commandArgs command).getD i 0 := by
  have hclear := replay_clearBuffers hi stack
  rw [parseTrace_eq, replay_append, replay_append]
  constructor
  · -- `getArguments` does not write `cmd`
    rw [replay_of_within (fun cell => cell ≠ .cmd i) (by simp [within_copy]) (by simp)]
    exact replay_getCommandLoop hi hclear.1
  · rw [replay_append, replay_read, replay_nil,
      replay_copy (fun j k h => ParseCell.args.inj h), getCommandLoop_args, hclear.2,
      commandArgs_getD hi]
    split
    · rfl
    · rename_i hlen
      rw [List.getD_eq_default _ _ (by omega)]

/-! ## Parsing within bounds -/

/-- The bytes that belong to a parse: those of a command of `n` characters, its terminator
    included, and the two arrays. -/
def InParse (n : Nat) : ParseCell → Prop
  | .command i => i ≤ n
  | .cmd i => i < filenameLen
  | .args i => i < filenameLen

/-- The command `c`, in front of its terminator and of `rest`, is parsed within bounds and into
    terminated strings. -/
structure ParsesWithin (c rest : List UInt8) : Prop where
  accesses : Within (InParse c.length) (parseTrace (c ++ 0 :: rest))
  cmd_terminated : ∀ stack, ∃ i, i < filenameLen ∧
    replay (parseTrace (c ++ 0 :: rest)) stack (.cmd i) = 0
  args_terminated : ∀ stack, ∃ i, i < filenameLen ∧
    replay (parseTrace (c ++ 0 :: rest)) stack (.args i) = 0

section Command

variable {rest : List UInt8}

/-- With a separator behind a word that fits, the parse stays inside the string. -/
theorem parse_of_separator (hsep : c.any isSeparator = true)
    (hword : (commandWord c).length < filenameLen) (rest : List UInt8) :
    getCommand (c ++ 0 :: rest) = (commandWord c, c.length - (commandRest c).length) ∧
      (commandRest c).length ≤ c.length ∧
      (c ++ 0 :: rest).drop (getCommand (c ++ 0 :: rest)).2 = commandRest c ++ 0 :: rest := by
  have hfound := getCommand_of_separator (any_separator_append hword hsep rest)
  rw [(commandWord_append hsep rest).1, (commandWord_append hsep rest).2] at hfound
  have hlen := congrArg List.length hfound.2
  have hle : (commandRest c).length ≤ c.length :=
    ((List.dropWhile_suffix _).trans (List.dropWhile_suffix _)).length_le
  rw [List.length_drop, List.length_append, List.length_append, List.length_cons] at hlen
  refine ⟨Prod.ext hfound.1 ?_, hle, hfound.2⟩
  show (getCommand (c ++ 0 :: rest)).2 = _
  omega

theorem within_clearBuffers (n : Nat) : Within (InParse n) clearBuffers := by
  unfold clearBuffers
  rw [within_flatMap]
  intro i hi
  rw [within_cons, within_cons]
  exact ⟨List.mem_range.mp hi, List.mem_range.mp hi, within_nil⟩

theorem within_getCommandLoop (hsep : c.any isSeparator = true)
    (hword : (commandWord c).length < filenameLen) (rest : List UInt8) :
    Within (InParse c.length) (getCommandLoop (c ++ 0 :: rest) filenameLen 0 0).1 := by
  obtain ⟨hfound, hle, -⟩ := parse_of_separator hsep hword rest
  rcases firstSeparator_cases (c ++ 0 :: rest) with ⟨m, hm, hbefore, hat⟩ | hnone
  · -- the skip ends where the arguments start, inside the string
    have hend := congrArg Prod.snd ((getCommand_of_first hm hbefore hat).symm.trans hfound)
    simp only at hend
    rw [getCommandLoop_first hm hbefore hat, within_append, within_cons, within_append, within_copy,
      within_cons]
    refine ⟨fun k hk => ?_, show m ≤ c.length by omega, fun a ha => ?_, hm, within_nil⟩
    · exact ⟨show k ≤ c.length by omega, Nat.lt_trans hk hm⟩
    · obtain ⟨k, hk, rfl⟩ := skipSeparators_mem ha
      show m + k ≤ c.length
      omega
  · exfalso
    have hcopy := congrArg (fun r => r.1.length) ((getCommand_of_none hnone).symm.trans hfound)
    simp only [List.length_map, List.length_range] at hcopy
    omega

/-- `getCommand` leaves the bounds when no separator stops it, and when one behind the string
    does. -/
theorem separator_of_within
    (h : Within (InParse c.length) (getCommandLoop (c ++ 0 :: rest) filenameLen 0 0).1) :
    c.any isSeparator = true ∧ (commandWord c).length < filenameLen := by
  rcases firstSeparator_cases (c ++ 0 :: rest) with ⟨m, hm, hword, hsep⟩ | hword
  · rw [getCommandLoop_first hm hword hsep, within_append, within_cons] at h
    have hle : m ≤ c.length := h.2.1
    have hne : m ≠ c.length := by
      intro heq
      rw [byteAt, heq, List.getD_append_right c _ 0 _ (Nat.le_refl _), Nat.sub_self] at hsep
      cases hsep
    have hlt : m < c.length := by omega
    have hany : c.any isSeparator = true := by
      rw [byteAt, List.getD_append c _ 0 m hlt, List.getD_eq_getElem c 0 hlt] at hsep
      exact List.any_eq_true.mpr ⟨_, List.getElem_mem hlt, hsep⟩
    refine ⟨hany, ?_⟩
    -- the word ends at `m` or before it
    rw [← (commandWord_append hany rest).1]
    by_contra hge
    have hnot : isSeparator (byteAt (c ++ 0 :: rest) m) = false := not_separator_of_lt (by omega)
    rw [hsep] at hnot
    cases hnot
  · rw [getCommandLoop_none hword, within_append, within_cons] at h
    exact absurd h.2.1 (Nat.lt_irrefl _)

/-- **A command is parsed within bounds exactly when its words fit and a separator ends the first**:
    it has a blank or newline among its first 32 characters, and at most 31 characters follow the
    run of separators there. -/
theorem parsesWithin_iff (c : List UInt8) (hc : ∀ b ∈ c, b ≠ 0) (rest : List UInt8) :
    ParsesWithin c rest ↔
      c.any isSeparator = true ∧ (commandWord c).length < filenameLen ∧
        (commandRest c).length < filenameLen := by
  have hrest : ∀ b ∈ commandRest c, b ≠ 0 := fun b hb =>
    hc b (List.dropWhile_subset _ (List.dropWhile_subset _ hb))
  constructor
  · intro h
    have haccesses := h.accesses
    rw [parseTrace_eq, within_append, within_append] at haccesses
    obtain ⟨hsep, hword⟩ := separator_of_within haccesses.2.1
    obtain ⟨hfound, hle, hdrop⟩ := parse_of_separator hsep hword rest
    refine ⟨hsep, hword, ?_⟩
    obtain ⟨i, hi, hzero⟩ := h.args_terminated fun _ => 0
    rw [(parse_buffers _ _ hi).2, commandArgs_getD hi, hdrop, text_append_zero hrest] at hzero
    by_contra hlong
    rw [List.getD_eq_getElem _ 0 (by omega)] at hzero
    exact hrest _ (List.getElem_mem _) hzero
  · rintro ⟨hsep, hword, hlen⟩
    obtain ⟨hfound, hle, hdrop⟩ := parse_of_separator hsep hword rest
    have hindex : (getCommand (c ++ 0 :: rest)).2 = c.length - (commandRest c).length := by
      rw [hfound]
    constructor
    · rw [parseTrace_eq, hdrop, text_append_zero hrest, within_append, within_append, within_append,
        within_copy]
      refine ⟨within_clearBuffers _, within_getCommandLoop hsep hword rest, ?_, ?_⟩
      · intro k hk
        refine ⟨?_, Nat.lt_trans hk hlen⟩
        show (getCommand (c ++ 0 :: rest)).2 + k ≤ c.length
        omega
      · rw [within_cons]
        refine ⟨?_, within_nil⟩
        show (getCommand (c ++ 0 :: rest)).2 + (commandRest c).length ≤ c.length
        omega
    · intro stack
      refine ⟨(commandWord c).length, hword, ?_⟩
      rw [(parse_buffers _ _ hword).1, hfound, List.getD_eq_default _ 0 (Nat.le_refl _)]
    · intro stack
      refine ⟨(commandRest c).length, hlen, ?_⟩
      rw [(parse_buffers _ _ hlen).2, commandArgs_getD hlen, hdrop, text_append_zero hrest,
        List.getD_eq_default _ 0 (Nat.le_refl _)]

end Command

/-- `cat a` is parsed within bounds. -/
theorem parsesWithin_cat : ParsesWithin [99, 97, 116, 32, 97] [] :=
  (parsesWithin_iff [99, 97, 116, 32, 97] (by simp) []).mpr (by decide)

/-- `ls` is not: the search for a separator goes on behind its terminator. -/
theorem not_parsesWithin_ls : ¬ ParsesWithin [108, 115] [] := by
  intro h
  have hread : Access.read (.command 3) ∈ parseTrace ([108, 115] ++ 0 :: []) := by decide
  have hle : 3 ≤ 2 := h.accesses _ hread
  omega

end ByteVerse
