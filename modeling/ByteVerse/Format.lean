/-
  `printf` and `printfk`.

  Both run the same loop over the format: a state for plain text, one for what follows a `%`, and `#`
  that leads back to it.  They differ in where a character goes.  `printf` prints everything with
  `putc`; `printfk` prints the plain text, `%%` and `%c` with `putck`, but converted numbers and strings
  with `puts`, which calls `putc`.

  The format is the memory from the pointer on.  A `%` just before the NUL makes the loop step over
  it and go on behind; `none` is a loop that has not come to an end in the memory given.
-/
import ByteVerse.ConsoleText
import ByteVerse.NumberText

set_option linter.unusedVariables false

namespace ByteVerse

open Numerals

/-! ## The loop over the format -/

/-- What the loop prints: a character, or a text with `puts`. -/
inductive Output
  | char (c : UInt8)
  | puts (text : List UInt8)
  deriving DecidableEq

/-- The parameters on the stack, the strings they may point to, and what the buffer of each conversion
    contains before it. -/
structure FormatArgs where
  words : Nat → UInt32
  strings : UInt32 → List UInt8
  convBuf : Nat → Int → UInt8

inductive FormatState
  | text
  | spec (alternate : Bool)

/-- A conversion specifier other than `#`: what it prints, and the next parameter. -/
def convert (args : FormatArgs) (esp : Nat) (alternate : Bool) (c : UInt8) :
    Option (List Output × Nat) :=
  let v := args.words esp
  let convBuf := args.convBuf esp
  if c = 37 then some ([.char 37], esp)
  else if c = 120 then
    (if alternate then alternateText v convBuf else hexText v convBuf).map
      fun text => ([.puts text], esp + 1)
  else if c = 117 then (unsignedText v convBuf).map fun text => ([.puts text], esp + 1)
  else if c = 100 then (signedText v convBuf).map fun text => ([.puts text], esp + 1)
  else if c = 99 then some ([.char v.toUInt8], esp + 1)
  else if c = 115 then some ([.puts (args.strings v)], esp + 1)
  else some ([], esp)

/-- The loop: what it prints, and the number of characters of the format it has gone through. -/
def formatLoop (args : FormatArgs) : List UInt8 → FormatState → Nat → Option (List Output × Nat)
  | [], _, _ => none
  | c :: rest, .text, esp =>
    if c = 0 then some ([], 0)
    else if c = 37 then (formatLoop args rest (.spec false) esp).map fun r => (r.1, r.2 + 1)
    else (formatLoop args rest .text esp).map fun r => (.char c :: r.1, r.2 + 1)
  | c :: rest, .spec alternate, esp =>
    if c = 35 then (formatLoop args rest (.spec true) esp).map fun r => (r.1, r.2 + 1)
    else
      (convert args esp alternate c).bind fun (outs, esp) =>
        (formatLoop args rest .text esp).map fun r => (outs ++ r.1, r.2 + 1)

/-! ## `printf` -/

def Output.chars : Output → List UInt8
  | .char c => [c]
  | .puts text => text

/-- `printf`: the console and the return value. -/
def printf (s v : Fin 3) (args : FormatArgs) (format : List UInt8) (con : Console) :
    Option (Console × Nat) :=
  (formatLoop args format .text 0).map fun r => (putcText s v (r.1.flatMap Output.chars) con, r.2)

/-! ## `printfk` -/

/-- A call of one of the two character routines. -/
inductive CharCall
  | putc (c : UInt8)
  | putck (c : UInt8)
  deriving DecidableEq

def CharCall.exec (s v : Fin 3) (con : Console) : CharCall → Console
  | .putc c => ByteVerse.putc s v c con
  | .putck c => ByteVerse.putck s v c con

/-- The calls that `printfk` makes for it. -/
def Output.kernelCalls : Output → List CharCall
  | .char c => [.putck c]
  | .puts text => text.map .putc

/-- The calls of a `printfk`. -/
def printfkCalls (args : FormatArgs) (format : List UInt8) : Option (List CharCall) :=
  (formatLoop args format .text 0).map fun r => r.1.flatMap Output.kernelCalls

/-- `printfk`: the console and the return value. -/
def printfk (s v : Fin 3) (args : FormatArgs) (format : List UInt8) (con : Console) :
    Option (Console × Nat) :=
  (formatLoop args format .text 0).map fun r =>
    ((r.1.flatMap Output.kernelCalls).foldl (CharCall.exec s v) con, r.2)

/-- Plain text is printed as it stands. -/
theorem formatLoop_text (args : FormatArgs) (esp : Nat) (behind : List UInt8) {cs : List UInt8}
    (hcs : ∀ c ∈ cs, c ≠ 0 ∧ c ≠ 37) :
    formatLoop args (cs ++ 0 :: behind) .text esp = some (cs.map Output.char, cs.length) := by
  induction cs with
  | nil => rfl
  | cons c cs ih =>
    obtain ⟨⟨hnul, hpercent⟩, hrest⟩ := List.forall_mem_cons.mp hcs
    rw [List.cons_append, formatLoop, if_neg hnul, if_neg hpercent, ih hrest]
    rfl

/-- `printfkText` is `printfk` of a format without conversions. -/
theorem printfk_text (s v : Fin 3) (args : FormatArgs) (behind : List UInt8) {cs : List UInt8}
    (hcs : ∀ c ∈ cs, c ≠ 0 ∧ c ≠ 37) (con : Console) :
    printfk s v args (cs ++ 0 :: behind) con = some (printfkText s v cs con, cs.length) := by
  have hcalls : ∀ con : Console, ((cs.map Output.char).flatMap Output.kernelCalls).foldl
      (CharCall.exec s v) con = printfkText s v cs con := by
    intro con
    rw [List.flatMap_map, printfkText, List.foldl_flatMap]
    rfl
  rw [printfk, formatLoop_text args 0 behind hcs, Option.map_some, hcalls]

/-! ## Numbers -/

section Numbers

/-- Wherever it stands in a format, the conversion prints the text for the parameter number `esp` and
    goes on with the next one. -/
def Prints (args : FormatArgs) (esp : Nat) (conversion text : List UInt8) : Prop :=
  ∀ rest, formatLoop args (conversion ++ rest) .text esp =
    (formatLoop args rest .text (esp + 1)).map fun r => (.puts text :: r.1, r.2 + conversion.length)

variable (args : FormatArgs) (esp : Nat)

theorem prints_conversion {c : UInt8} {text : List UInt8} (hc : c ≠ 35)
    (h : convert args esp false c = some ([.puts text], esp + 1)) : Prints args esp [37, c] text := by
  intro rest
  have hspec : formatLoop args (c :: rest) (.spec false) esp =
      (formatLoop args rest .text (esp + 1)).map fun r => (.puts text :: r.1, r.2 + 1) := by
    rw [formatLoop, if_neg hc, h]
    rfl
  show (formatLoop args (c :: rest) (.spec false) esp).map _ = _
  rw [hspec, Option.map_map]
  rfl

theorem prints_unsigned :
    Prints args esp [37, 117] (numeral 10 digitChar (args.words esp).toNat) := by
  refine prints_conversion args esp (by decide) ?_
  show (unsignedText (args.words esp) (args.convBuf esp)).map _ = _
  rw [unsignedText_eq]
  rfl

theorem prints_hex : Prints args esp [37, 120] (numeral 16 digitChar (args.words esp).toNat) := by
  refine prints_conversion args esp (by decide) ?_
  show (hexText (args.words esp) (args.convBuf esp)).map _ = _
  rw [hexText_eq]
  rfl

theorem prints_signed : Prints args esp [37, 100] (signedNumeral (signedValue (args.words esp))) := by
  refine prints_conversion args esp (by decide) ?_
  show (signedText (args.words esp) (args.convBuf esp)).map _ = _
  rw [signedText_eq]
  rfl

/-- With `#` the loop goes through the specifiers once more. -/
theorem prints_alternate :
    let cs := numeral 16 digitChar (args.words esp).toNat
    Prints args esp [37, 35, 120] (List.replicate (8 - cs.length) 48 ++ cs) := by
  intro cs rest
  have hconvert : convert args esp true 120 =
      some ([.puts (List.replicate (8 - cs.length) 48 ++ cs)], esp + 1) := by
    show (alternateText (args.words esp) (args.convBuf esp)).map _ = _
    rw [alternateText_eq]
    rfl
  have hspec : formatLoop args (120 :: rest) (.spec true) esp =
      (formatLoop args rest .text (esp + 1)).map fun r =>
        (.puts (List.replicate (8 - cs.length) 48 ++ cs) :: r.1, r.2 + 1) := by
    rw [formatLoop, if_neg (by decide), hconvert]
    rfl
  show ((formatLoop args (120 :: rest) (.spec true) esp).map _).map _ = _
  rw [hspec, Option.map_map, Option.map_map]
  rfl

/-- A text is the numeral of a signed number. -/
def IsSignedNumeral (n : Int) (cs : List UInt8) : Prop :=
  if n < 0 then ∃ digits, cs = 45 :: digits ∧ IsNumeral 10 digitChar digitValue n.natAbs digits
  else IsNumeral 10 digitChar digitValue n.natAbs cs

theorem isNumeral_digitChar {b : Nat} (hb : 1 < b) (hb' : b ≤ 36) (n : Nat) :
    IsNumeral b digitChar digitValue n (numeral b digitChar n) :=
  isNumeral_numeral (fun d hd => digitValue_digitChar (lt_of_lt_of_le hd hb')) hb n

theorem isSignedNumeral_signedNumeral (n : Int) : IsSignedNumeral n (signedNumeral n) := by
  unfold IsSignedNumeral signedNumeral
  split
  · exact ⟨_, rfl, isNumeral_digitChar (by decide) (by decide) _⟩
  · exact isNumeral_digitChar (by decide) (by decide) _

/-- **Number formatting.**  For every 32-bit parameter, whatever is in the buffers: `%u` and `%x` print
    its decimal and hexadecimal numeral, `%d` its signed one, `%#x` eight hexadecimal digits, and all of
    them are read back as the number.  `itoa` writes the numeral in every radix of its table, in 33
    bytes at most, and nothing around them. -/
theorem number_formatting :
    (∃ cs, Prints args esp [37, 117] cs ∧
      IsNumeral 10 digitChar digitValue (args.words esp).toNat cs) ∧
    (∃ cs, Prints args esp [37, 120] cs ∧
      IsNumeral 16 digitChar digitValue (args.words esp).toNat cs) ∧
    (∃ cs, Prints args esp [37, 100] cs ∧ IsSignedNumeral (signedValue (args.words esp)) cs) ∧
    (∃ cs, Prints args esp [37, 35, 120] cs ∧ cs.length = 8 ∧
      (∀ c ∈ cs, ∃ d < 16, c = digitChar d) ∧
      parse 16 digitValue cs = some (args.words esp).toNat) ∧
    ∀ (v : UInt32) (radix : { radix : UInt32 // ValidRadix radix }) (buf : Int) (m : Int → UInt8),
      ∃ m' cs, itoa v buf radix m = some m' ∧ HoldsString m' buf cs ∧
        IsNumeral radix.val.toNat digitChar digitValue v.toNat cs ∧ cs.length + 1 ≤ 33 ∧
        ∀ p, p < buf ∨ buf + cs.length < p → m' p = m p := by
  have hdecimal := isNumeral_digitChar (show 1 < 10 by decide) (by decide) (args.words esp).toNat
  have hhex := isNumeral_digitChar (show 1 < 16 by decide) (by decide) (args.words esp).toNat
  have hsigned := isSignedNumeral_signedNumeral (signedValue (args.words esp))
  refine ⟨⟨_, prints_unsigned args esp, hdecimal⟩, ⟨_, prints_hex args esp, hhex⟩,
    ⟨_, prints_signed args esp, hsigned⟩, ⟨_, prints_alternate args esp, ?_, fun c hc => ?_, ?_⟩,
    fun v radix buf m => ?_⟩
  · have height : (numeral 16 digitChar (args.words esp).toNat).length ≤ 8 :=
      length_numeral_le (by decide) (by decide) (args.words esp).toNat_lt
    rw [List.length_append, List.length_replicate]
    exact Nat.sub_add_cancel height
  · rcases List.mem_append.mp hc with hzero | hdigit
    · exact ⟨0, by decide, List.eq_of_mem_replicate hzero⟩
    · exact hhex.digits c hdigit
  · exact parse_zeros_append_numeral (fun d hd => digitValue_digitChar (lt_trans hd (by decide)))
      (by decide) _
  · obtain ⟨hlow, hhigh⟩ := radix.property
    obtain ⟨m', hitoa, hholds, hframe⟩ := itoa_spec radix.property v buf m
    exact ⟨m', _, hitoa, hholds, isNumeral_digitChar hlow hhigh _,
      length_numeral_lt radix.property v, hframe⟩

end Numbers

end ByteVerse
