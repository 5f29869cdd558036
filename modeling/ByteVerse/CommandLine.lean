/-
  What `execute` reads off a command line.

  The command is a C string, and `getCommand` looks for the end of its first word among the first 32
  bytes of the memory it lies in: a NUL does not stop the search.  When the string has a separator
  the search stops inside it, and `getArguments` copies the rest of the string.  When it has none the
  search goes on behind the terminator, into whatever the caller's buffer held before, and the
  arguments are what follows there.

  `commandWord` and `commandRest` say what the two functions are for; `parse_correct_iff` says when
  the bytes behind the terminator let them do it.
-/
import Mathlib.Data.List.GetD
import ByteVerse.Execute

set_option linter.unusedVariables false

namespace ByteVerse

/-! ## The purpose -/

/-- The command: the longest prefix without a space or newline. -/
def commandWord (c : List UInt8) : List UInt8 := c.takeWhile fun b => !isSeparator b

/-- The arguments: what follows, after the spaces and newlines. -/
def commandRest (c : List UInt8) : List UInt8 :=
  (c.dropWhile fun b => !isSeparator b).dropWhile isSeparator

/-- What `execute` takes from the memory at the command pointer: the texts of `cmd` and `args`. -/
def parseCommand (memory : List UInt8) : List UInt8 × List UInt8 :=
  (text (getCommand memory).1, text (commandArgs memory))

/-- What lies behind the separators that end the first word within 32 bytes, the terminator counted
    as an ordinary byte; behind the 32 bytes when there is no separator among them. -/
def scanStop (memory : List UInt8) : List UInt8 :=
  if (memory.take filenameLen).any isSeparator then commandRest memory else memory.drop filenameLen

/-! ## Texts -/

variable {c rest memory : List UInt8}

/-- A byte string without NUL, in front of a terminator, is its own text. -/
theorem text_append_zero (hc : ∀ b ∈ c, b ≠ 0) (rest : List UInt8) : text (c ++ 0 :: rest) = c := by
  unfold text
  rw [List.takeWhile_append_of_pos fun b hb => by simpa using hc b hb]
  simp

theorem text_of_ne_zero (hc : ∀ b ∈ c, b ≠ 0) : text c = c :=
  List.takeWhile_eq_self_iff.mpr fun b hb => by simpa using hc b hb

theorem ne_zero_of_mem_text {b : UInt8} (hb : b ∈ text c) : b ≠ 0 := by
  simpa using List.mem_takeWhile_imp hb

/-- A text copied to the front of an array of zeros. -/
theorem text_copy (hc : ∀ b ∈ c, b ≠ 0) (n : Nat) :
    text ((List.range n).map fun i => c.getD i 0) = c.take n := by
  have hlist : (List.range n).map (fun i => c.getD i 0) =
      c.take n ++ List.replicate (n - c.length) 0 := by
    refine List.ext_getElem (by simp; omega) fun i h₁ h₂ => ?_
    rw [List.getElem_map, List.getElem_range, List.getElem_append]
    split
    · rename_i hi
      rw [List.length_take] at hi
      rw [List.getElem_take, List.getD_eq_getElem c 0 (by omega)]
    · rename_i hi
      rw [List.length_take] at hi
      rw [List.length_map, List.length_range] at h₁
      rw [List.getElem_replicate, List.getD_eq_default c 0 (by omega)]
  have htake : ∀ b ∈ c.take n, b ≠ 0 := fun b hb => hc b (List.mem_of_mem_take hb)
  rw [hlist]
  cases n - c.length with
  | zero => rw [List.replicate_zero, List.append_nil, text_of_ne_zero htake]
  | succ m =>
    rw [List.replicate_succ]
    exact text_append_zero htake _

/-! ## `getCommand` and `getArguments` on lists -/

/-- What `dropWhile` leaves is what lies behind what `takeWhile` takes. -/
theorem drop_length_takeWhile (p : UInt8 → Bool) (l : List UInt8) :
    l.drop (l.takeWhile p).length = l.dropWhile p := by
  conv =>
    lhs
    arg 2
    rw [← List.takeWhile_append_dropWhile (p := p) (l := l)]
  exact List.drop_left

theorem take_length_takeWhile (p : UInt8 → Bool) (l : List UInt8) :
    l.take (l.takeWhile p).length = l.takeWhile p := by
  conv =>
    lhs
    arg 2
    rw [← List.takeWhile_append_dropWhile (p := p) (l := l)]
  exact List.take_left

theorem map_byteAt {n : Nat} (hn : n ≤ memory.length) :
    (List.range n).map (byteAt memory) = memory.take n := by
  refine List.ext_getElem (by simp; omega) fun i h₁ h₂ => ?_
  rw [List.length_map, List.length_range] at h₁
  rw [List.getElem_map, List.getElem_range, List.getElem_take]
  exact List.getD_eq_getElem memory 0 (by omega)

theorem not_separator_of_lt {i : Nat} (hi : i < (commandWord memory).length) :
    isSeparator (byteAt memory i) = false := by
  have hpre : commandWord memory <+: memory := List.takeWhile_prefix _
  have hlen : i < memory.length := Nat.lt_of_lt_of_le hi hpre.length_le
  have hmem : memory[i] ∈ commandWord memory := by
    rw [← hpre.getElem hi]
    exact List.getElem_mem hi
  have hnot := List.mem_takeWhile_imp hmem
  rw [byteAt, List.getD_eq_getElem memory 0 hlen]
  simpa using hnot

/-- The byte behind the first word is a separator, if there is one. -/
theorem separator_behind_word (hlen : (commandWord memory).length < memory.length) :
    isSeparator (byteAt memory (commandWord memory).length) = true := by
  have hdrop := drop_length_takeWhile (fun b => !isSeparator b) memory
  have hne : (memory.dropWhile fun b => !isSeparator b) ≠ [] := by
    rw [← hdrop, ← List.length_pos_iff, List.length_drop]
    exact Nat.sub_pos_of_lt hlen
  have hhead := List.head_dropWhile_not (fun b => !isSeparator b) hne
  have hget : (memory.dropWhile fun b => !isSeparator b).head hne =
      memory[(commandWord memory).length] := by
    simp only [← hdrop, List.head_drop]
    rfl
  rw [hget] at hhead
  rw [byteAt, List.getD_eq_getElem memory 0 hlen]
  simpa using hhead

/-- **`getCommand` with a separator among the first 32 bytes**: the bytes before it, and the index
    behind the run of separators. -/
theorem getCommand_of_separator (h : (memory.take filenameLen).any isSeparator = true) :
    (getCommand memory).1 = commandWord memory ∧
      memory.drop (getCommand memory).2 = commandRest memory := by
  obtain ⟨b, hb, hsep⟩ := List.any_eq_true.mp h
  obtain ⟨i, hi, rfl⟩ := List.getElem_of_mem hb
  rw [List.length_take] at hi
  -- the word ends at that separator or before it
  have hword : (commandWord memory).length ≤ i := by
    by_contra hlt
    have hnot := not_separator_of_lt (show i < (commandWord memory).length by omega)
    rw [byteAt, List.getD_eq_getElem memory 0 (by omega)] at hnot
    rw [List.getElem_take, hnot] at hsep
    cases hsep
  have hlen : (commandWord memory).length < memory.length := by omega
  have hfind : (List.range filenameLen).find? (fun i => isSeparator (byteAt memory i)) =
      some (commandWord memory).length := by
    rw [List.find?_range_eq_some]
    refine ⟨separator_behind_word hlen, List.mem_range.mpr (by omega), fun j hj => ?_⟩
    rw [not_separator_of_lt hj]
    rfl
  unfold getCommand
  rw [hfind]
  simp only
  rw [map_byteAt (Nat.le_of_lt hlen), ← List.drop_drop]
  refine ⟨take_length_takeWhile _ _, ?_⟩
  have hdrop : memory.drop (commandWord memory).length = _ := drop_length_takeWhile _ memory
  rw [hdrop]
  exact drop_length_takeWhile isSeparator _

/-- **`getCommand` without one**: 32 bytes, and the index 32. -/
theorem getCommand_of_no_separator (h : (memory.take filenameLen).any isSeparator = false) :
    getCommand memory = ((List.range filenameLen).map (byteAt memory), filenameLen) := by
  have hfind : (List.range filenameLen).find? (fun i => isSeparator (byteAt memory i)) = none := by
    rw [List.find?_range_eq_none]
    intro i hi
    by_cases hlen : i < memory.length
    · rw [List.any_eq_false] at h
      have hnot := h memory[i] (List.mem_iff_getElem.mpr
        ⟨i, by rw [List.length_take]; omega, List.getElem_take⟩)
      rw [byteAt, List.getD_eq_getElem memory 0 hlen]
      simpa using hnot
    · rw [byteAt, List.getD_eq_default memory 0 (by omega)]
      rfl
  unfold getCommand
  rw [hfind]

/-- In both cases the arguments are the text, cut to 32 bytes, of the memory where the scan stops. -/
theorem text_commandArgs (memory : List UInt8) :
    text (commandArgs memory) = (text (scanStop memory)).take filenameLen := by
  have hstop : memory.drop (getCommand memory).2 = scanStop memory := by
    unfold scanStop
    split
    · rename_i h
      exact (getCommand_of_separator h).2
    · rename_i h
      rw [getCommand_of_no_separator (by simpa using h)]
  unfold commandArgs getArguments
  rw [hstop]
  exact text_copy (fun b hb => ne_zero_of_mem_text hb) _

/-! ## A command in front of its terminator -/

/-- The word of a command that has a separator, and what follows it, seen from the memory. -/
theorem commandWord_append (h : c.any isSeparator = true) (rest : List UInt8) :
    commandWord (c ++ 0 :: rest) = commandWord c ∧
      commandRest (c ++ 0 :: rest) = commandRest c ++ 0 :: rest := by
  obtain ⟨b, hb, hsep⟩ := List.any_eq_true.mp h
  have hword : (c.takeWhile fun b => !isSeparator b).length ≠ c.length := by
    intro heq
    have hself := (List.takeWhile_prefix fun b => !isSeparator b).eq_of_length heq
    have hall := List.takeWhile_eq_self_iff.mp hself b hb
    rw [hsep] at hall
    cases hall
  have hdrop : (c.dropWhile fun b => !isSeparator b).isEmpty = false := by
    rw [Bool.eq_false_iff, ne_eq, List.isEmpty_iff, List.dropWhile_eq_nil_iff]
    intro hall
    have hb' := hall b hb
    rw [hsep] at hb'
    cases hb'
  constructor
  · exact List.takeWhile_append.trans (if_neg hword)
  · unfold commandRest
    rw [List.dropWhile_append, hdrop, if_neg Bool.false_ne_true, List.dropWhile_append]
    split
    · -- nothing but separators after the word: the terminator stops them
      rename_i hempty
      rw [List.isEmpty_iff.mp hempty]
      rfl
    · rfl

/-- Without a separator the command is its own word, and the search goes on behind it. -/
theorem commandWord_of_no_separator (h : c.any isSeparator = false) : commandWord c = c := by
  refine List.takeWhile_eq_self_iff.mpr fun b hb => ?_
  have hnot := List.any_eq_false.mp h b hb
  simpa using hnot

theorem commandRest_of_no_separator (h : c.any isSeparator = false) : commandRest c = [] := by
  have hdrop : (c.dropWhile fun b => !isSeparator b) = [] := by
    refine List.dropWhile_eq_nil_iff.mpr fun b hb => ?_
    have hnot := List.any_eq_false.mp h b hb
    simpa using hnot
  rw [commandRest, hdrop]
  rfl

section Command

variable (hc : ∀ b ∈ c, b ≠ 0) (hword : (commandWord c).length < filenameLen)

include hword in
/-- A word that fits is followed, if by a separator at all, by one among the first 32 bytes. -/
theorem any_separator_append (h : c.any isSeparator = true) (rest : List UInt8) :
    ((c ++ 0 :: rest).take filenameLen).any isSeparator = true := by
  have hlen : (commandWord (c ++ 0 :: rest)).length < (c ++ 0 :: rest).length := by
    rw [(commandWord_append h rest).1, List.length_append]
    have hpre := (List.takeWhile_prefix (l := c) fun b => !isSeparator b).length_le
    simp only [commandWord, List.length_cons]
    omega
  have hsep := separator_behind_word hlen
  rw [(commandWord_append h rest).1] at hsep hlen
  rw [byteAt, List.getD_eq_getElem _ 0 hlen] at hsep
  refine List.any_eq_true.mpr ⟨_, List.mem_iff_getElem.mpr ⟨(commandWord c).length, ?_, rfl⟩, ?_⟩
  · rw [List.length_take]
    omega
  · rw [List.getElem_take]
    exact hsep

include hc hword

/-- The command is right whatever follows the terminator. -/
theorem parse_word (rest : List UInt8) : (parseCommand (c ++ 0 :: rest)).1 = commandWord c := by
  have hwordText : text (commandWord c) = commandWord c :=
    text_of_ne_zero fun b hb => hc b (List.takeWhile_subset _ hb)
  show text (getCommand (c ++ 0 :: rest)).1 = _
  cases hsep : c.any isSeparator with
  | true =>
    rw [(getCommand_of_separator (any_separator_append hword hsep rest)).1,
      (commandWord_append hsep rest).1, hwordText]
  | false =>
    have hself := commandWord_of_no_separator hsep
    rw [hself] at hword ⊢
    cases hany : ((c ++ 0 :: rest).take filenameLen).any isSeparator with
    | true =>
      -- the word runs on behind the terminator, and its text ends there
      have hlonger : commandWord (c ++ 0 :: rest) =
          c ++ 0 :: rest.takeWhile fun b => !isSeparator b := by
        have hall : ∀ b ∈ c, (!isSeparator b) = true := fun b hb => by
          simpa using List.any_eq_false.mp hsep b hb
        rw [commandWord, List.takeWhile_append_of_pos hall]
        rfl
      rw [(getCommand_of_separator hany).1, hlonger, text_append_zero hc]
    | false =>
      rw [getCommand_of_no_separator hany]
      obtain ⟨m, hm⟩ : ∃ m, filenameLen = c.length + (m + 1) := ⟨filenameLen - c.length - 1, by omega⟩
      have hcopy : (List.range c.length).map (byteAt (c ++ 0 :: rest)) = c := by
        rw [map_byteAt (by rw [List.length_append]; omega)]
        exact List.take_left
      have hend : byteAt (c ++ 0 :: rest) (c.length + 0) = 0 := by
        rw [Nat.add_zero, byteAt, List.getD_append_right c _ 0 _ (Nat.le_refl _), Nat.sub_self]
        rfl
      simp only
      rw [hm, List.range_add, List.range_succ_eq_map, List.map_append, hcopy, List.map_cons,
        List.map_cons, hend]
      exact text_append_zero hc _

/-- **Parsing is right exactly when no stale byte is reached.**  For every command whose words fit
    the buffers and every memory behind its terminator: the command and the arguments are those of
    the command exactly when it has a separator or the memory holds nothing where the scan stops.
    They are so for every such memory iff the command has a separator. -/
theorem parse_correct_iff (hrest : (commandRest c).length < filenameLen) :
    (∀ rest, parseCommand (c ++ 0 :: rest) = (commandWord c, commandRest c) ↔
      c.any isSeparator = true ∨ text (scanStop (c ++ 0 :: rest)) = []) ∧
    ((∀ rest, parseCommand (c ++ 0 :: rest) = (commandWord c, commandRest c)) ↔
      c.any isSeparator = true) := by
  have hiff : ∀ rest, parseCommand (c ++ 0 :: rest) = (commandWord c, commandRest c) ↔
      c.any isSeparator = true ∨ text (scanStop (c ++ 0 :: rest)) = [] := by
    intro rest
    have hargs : parseCommand (c ++ 0 :: rest) = (commandWord c, commandRest c) ↔
        (text (scanStop (c ++ 0 :: rest))).take filenameLen = commandRest c := by
      rw [← text_commandArgs, Prod.ext_iff]
      exact and_iff_right (parse_word hc hword rest)
    rw [hargs]
    cases hsep : c.any isSeparator with
    | true =>
      refine iff_of_true ?_ (Or.inl rfl)
      have hstop : scanStop (c ++ 0 :: rest) = commandRest c ++ 0 :: rest :=
        (if_pos (any_separator_append hword hsep rest)).trans (commandWord_append hsep rest).2
      have hne : ∀ b ∈ commandRest c, b ≠ 0 := fun b hb =>
        hc b (List.dropWhile_subset _ (List.dropWhile_subset _ hb))
      rw [hstop, text_append_zero hne]
      exact List.take_of_length_le (Nat.le_of_lt hrest)
    | false =>
      rw [commandRest_of_no_separator hsep, List.take_eq_nil_iff]
      simp
  refine ⟨hiff, fun hall => ?_, fun hsep rest => (hiff rest).mpr (Or.inl hsep)⟩
  cases hsep : c.any isSeparator with
  | true => rfl
  | false =>
    -- 32 letters behind the terminator: the scan stops among them
    exfalso
    have hself := commandWord_of_no_separator hsep
    rw [hself] at hword
    rcases (hiff (List.replicate filenameLen 97)).mp (hall _) with h | h
    · rw [hsep] at h
      cases h
    · have hnone : (c ++ 0 :: List.replicate filenameLen 97).any isSeparator = false := by
        rw [List.any_append, hsep]
        decide
      have hstop : scanStop (c ++ 0 :: List.replicate filenameLen 97) =
          List.replicate (c.length + 1) 97 := by
        have htake : ((c ++ 0 :: List.replicate filenameLen 97).take filenameLen).any isSeparator =
            false := by
          rw [List.any_eq_false] at hnone ⊢
          exact fun b hb => hnone b (List.mem_of_mem_take hb)
        unfold scanStop
        rw [htake, if_neg Bool.false_ne_true, List.drop_append,
          List.drop_of_length_le (Nat.le_of_lt hword), List.nil_append,
          show filenameLen - c.length = (31 - c.length) + 1 by simp only [filenameLen] at *; omega,
          List.drop_succ_cons, List.drop_replicate]
        congr 1
        simp only [filenameLen] at *
        omega
      rw [hstop] at h
      cases h

end Command

/-- `cat a`, with the remains of a longer command behind its terminator. -/
theorem parse_cat :
    parseCommand [99, 97, 116, 32, 97, 0, 32, 98] = ([99, 97, 116], [97]) :=
  ((@parse_correct_iff [99, 97, 116, 32, 97] (by simp) (by decide) (by decide)).1 [32, 98]).mpr
    (Or.inl rfl)

/-- The shell reads the lines `cat ab x` and then `ls` into one buffer, and puts a NUL in place of each
    newline; `terminal_read` has stored one behind it.  `ls` is executed with the argument `x`. -/
theorem parse_stale_arguments :
    parseCommand [108, 115, 0, 0, 97, 98, 32, 120, 0] ≠ (commandWord [108, 115], commandRest [108, 115]) := by
  decide

end ByteVerse
