/-
  The layout of a text on a page of fixed width, over arbitrary characters.

  `textRows width isBreak text` are the rows of the text: it is split at each character that is a
  break, and each piece is cut into rows of `width`.  An empty piece is an empty row; a piece that
  fills its last row exactly adds no row behind it.  Of the rows a window shows the last `height`
  ones, padded with blanks (`shown`).

  The definitions look at the text as a whole.  The lemmas say what one more character at its end
  changes: a break adds an empty row, and any other character goes behind the last row, or into a new
  one when that is full.
-/
import Mathlib.Data.List.GetD

namespace ByteVerse.TextLayout

variable {α : Type}

/-! ## Rows -/

/-- The number of rows of a piece of `len` characters. -/
def rowCount (width len : Nat) : Nat := (len - 1) / width + 1

/-- A piece without breaks, cut into rows. -/
def cutRows (width : Nat) (piece : List α) : List (List α) :=
  (List.range (rowCount width piece.length)).map fun i => (piece.drop (width * i)).take width

def textRows (width : Nat) (isBreak : α → Bool) (text : List α) : List (List α) :=
  (text.splitOnP isBreak).flatMap (cutRows width)

/-- What a window of `height` rows shows at a row and a column. -/
def shown (height : Nat) (blank : α) (rows : List (List α)) (row col : Nat) : α :=
  ((rows.drop (rows.length - height)).getD row []).getD col blank

/-! ## One more character -/

/-- The rows of a piece: full ones, and the rest. -/
theorem cutRows_eq {width : Nat} (hwidth : 0 < width) (piece : List α) :
    cutRows width piece =
      (List.range ((piece.length - 1) / width)).map (fun i => (piece.drop (width * i)).take width) ++
        [piece.drop (width * ((piece.length - 1) / width))] := by
  have hdiv := Nat.div_add_mod (piece.length - 1) width
  have hmod := Nat.mod_lt (piece.length - 1) hwidth
  rw [cutRows, rowCount, List.range_succ, List.map_append, List.map_singleton, List.take_of_length_le]
  rw [List.length_drop]
  omega

/-- The last row of a piece. -/
theorem length_lastRow {width : Nat} (hwidth : 0 < width) (piece : List α) :
    (piece.drop (width * ((piece.length - 1) / width))).length ≤ width := by
  have hdiv := Nat.div_add_mod (piece.length - 1) width
  have hmod := Nat.mod_lt (piece.length - 1) hwidth
  rw [List.length_drop]
  omega

/-- The full rows of a piece do not change when it grows. -/
theorem fullRows_append {width n : Nat} {piece : List α} (hn : width * n ≤ piece.length) (c : α) :
    (List.range n).map (fun i => ((piece ++ [c]).drop (width * i)).take width) =
      (List.range n).map fun i => (piece.drop (width * i)).take width := by
  refine List.map_congr_left fun i hi => ?_
  rw [List.mem_range] at hi
  have hfull : width * i + width ≤ width * n := by
    calc width * i + width = width * (i + 1) := rfl
      _ ≤ width * n := Nat.mul_le_mul_left width hi
  rw [List.drop_append_of_le_length (by omega), List.take_append_of_le_length]
  rw [List.length_drop]
  omega

/-- **One more character** of a piece. -/
theorem cutRows_append {width : Nat} (hwidth : 0 < width) (piece : List α) (c : α) :
    ∃ init last, cutRows width piece = init ++ [last] ∧ last.length ≤ width ∧
      cutRows width (piece ++ [c]) =
        if last.length < width then init ++ [last ++ [c]] else init ++ [last] ++ [[c]] := by
  refine ⟨_, _, cutRows_eq hwidth piece, length_lastRow hwidth piece, ?_⟩
  have hdiv := Nat.div_add_mod (piece.length - 1) width
  have hmod := Nat.mod_lt (piece.length - 1) hwidth
  generalize hn : (piece.length - 1) / width = n at *
  have hlen : (piece ++ [c]).length - 1 = piece.length := by
    rw [List.length_append, List.length_singleton, Nat.add_sub_cancel]
  have hbelow : width * n ≤ piece.length := by omega
  rw [cutRows_eq hwidth, hlen, List.length_drop]
  by_cases hroom : piece.length - width * n < width
  · have hsame : piece.length / width = n :=
      (Nat.div_eq_iff hwidth).mpr (by rw [Nat.mul_comm n width]; omega)
    rw [if_pos hroom, hsame, fullRows_append hbelow, List.drop_append_of_le_length hbelow]
  · -- the last row is full, so it joins the full ones
    have hlast : piece.length = width * (n + 1) := by
      rw [Nat.mul_succ]
      omega
    have hnext : piece.length / width = n + 1 := by
      rw [hlast, Nat.mul_div_cancel_left _ hwidth]
    rw [if_neg hroom, hnext, fullRows_append (Nat.le_of_eq hlast.symm), ← hlast, List.range_succ,
      List.map_append, List.map_singleton, List.drop_left', List.take_of_length_le]
    · rw [List.length_drop]
      omega
    · rfl

section Text

variable {isBreak : α → Bool} {width : Nat}

/-- Splitting a text that grows by a character that is no break. -/
theorem splitOnP_append {c : α} (hc : isBreak c = false) (text : List α) :
    ∃ init last, text.splitOnP isBreak = init ++ [last] ∧
      (text ++ [c]).splitOnP isBreak = init ++ [last ++ [c]] := by
  induction text with
  | nil =>
    refine ⟨[], [], rfl, ?_⟩
    exact List.splitOnP_eq_singleton fun x hx => (List.mem_singleton.mp hx) ▸ hc
  | cons x text ih =>
    obtain ⟨init, last, hold, hnew⟩ := ih
    rw [List.cons_append, List.splitOnP_cons_eq_if_modifyHead, List.splitOnP_cons_eq_if_modifyHead,
      hold, hnew]
    by_cases hx : isBreak x = true
    · rw [if_pos hx, if_pos hx]
      exact ⟨[] :: init, last, rfl, rfl⟩
    · rw [if_neg hx, if_neg hx]
      cases init with
      | nil => exact ⟨[], x :: last, rfl, rfl⟩
      | cons piece init => exact ⟨(x :: piece) :: init, last, rfl, rfl⟩

theorem textRows_nil : textRows width isBreak [] = [[]] := by
  simp [textRows, cutRows, rowCount]

/-- A break starts an empty row. -/
theorem textRows_break {c : α} (hc : isBreak c = true) (text : List α) :
    textRows width isBreak (text ++ [c]) = textRows width isBreak text ++ [[]] := by
  rw [textRows, List.splitOnP_append_cons text [] hc, List.flatMap_append]
  exact congrArg (textRows width isBreak text ++ ·) textRows_nil

/-- **Any other character** goes behind the last row, or into a new one. -/
theorem textRows_plain (hwidth : 0 < width) {c : α} (hc : isBreak c = false) (text : List α) :
    ∃ init last, textRows width isBreak text = init ++ [last] ∧ last.length ≤ width ∧
      textRows width isBreak (text ++ [c]) =
        if last.length < width then init ++ [last ++ [c]] else init ++ [last] ++ [[c]] := by
  obtain ⟨pieces, piece, hold, hnew⟩ := splitOnP_append hc text
  obtain ⟨init, last, hcut, hlen, hcut'⟩ := cutRows_append hwidth piece c
  refine ⟨pieces.flatMap (cutRows width) ++ init, last, ?_, hlen, ?_⟩
  · rw [textRows, hold, List.flatMap_append, List.flatMap_singleton, hcut, List.append_assoc]
  · rw [textRows, hnew, List.flatMap_append, List.flatMap_singleton, hcut']
    split
    · rw [List.append_assoc]
    · rw [List.append_assoc, List.append_assoc, List.append_assoc]

end Text

/-! ## The window -/

section Window

variable {blank : α} {height : Nat} {rows : List (List α)} {row col : Nat}

theorem getD_append_singleton (l : List α) (x d : α) (i : Nat) :
    (l ++ [x]).getD i d = if i = l.length then x else l.getD i d := by
  rcases Nat.lt_trichotomy i l.length with hlt | heq | hgt
  · rw [if_neg (Nat.ne_of_lt hlt), List.getD_append _ _ _ _ hlt]
  · rw [if_pos heq, List.getD_append_right _ _ _ _ (Nat.le_of_eq heq.symm), heq, Nat.sub_self]
    rfl
  · rw [if_neg (Nat.ne_of_gt hgt), List.getD_eq_default, List.getD_eq_default]
    · exact Nat.le_of_lt hgt
    · rw [List.length_append, List.length_singleton]
      exact hgt

theorem shown_eq : shown height blank rows row col =
    (rows.getD (rows.length - height + row) []).getD col blank := by
  simp only [shown, List.getD_eq_getElem?_getD, List.getElem?_drop]

/-- One empty row more: it is added below, or everything moves up by one. -/
theorem shown_nextRow :
    shown height blank (rows ++ [[]]) row col =
      if rows.length < height then shown height blank rows row col
      else shown height blank rows (row + 1) col := by
  have hsame : ∀ i, (rows ++ [[]]).getD i [] = rows.getD i [] := by
    intro i
    rw [getD_append_singleton]
    split
    · rename_i hi
      rw [List.getD_eq_default _ _ (Nat.le_of_eq hi.symm)]
    · rfl
  rw [shown_eq, shown_eq, shown_eq, hsame, List.length_append, List.length_singleton]
  by_cases hroom : rows.length < height
  · have hindex : rows.length + 1 - height + row = rows.length - height + row := by omega
    rw [if_pos hroom, hindex]
  · have hindex : rows.length + 1 - height + row = rows.length - height + (row + 1) := by omega
    rw [if_neg hroom, hindex]

/-- One character more on the last row. -/
theorem shown_append (hheight : 0 < height) (init : List (List α)) (last : List α) (c : α)
    (hrow : row < height) :
    shown height blank (init ++ [last ++ [c]]) row col =
      if row = min (init.length + 1) height - 1 ∧ col = last.length then c
      else shown height blank (init ++ [last]) row col := by
  rw [shown_eq, shown_eq, List.length_append, List.length_append, List.length_singleton,
    List.length_singleton, getD_append_singleton, getD_append_singleton]
  by_cases hlast : init.length + 1 - height + row = init.length
  · have hrow' : row = min (init.length + 1) height - 1 := by omega
    rw [if_pos hlast, if_pos hlast, getD_append_singleton]
    exact if_congr (and_iff_right hrow').symm rfl rfl
  · have hrow' : ¬ (row = min (init.length + 1) height - 1 ∧ col = last.length) := by omega
    rw [if_neg hlast, if_neg hlast, if_neg hrow']

end Window

end ByteVerse.TextLayout
