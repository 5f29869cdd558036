/-
  `syscall_asm`, the handler of `int $0x80`.

  It pushes the registers, ESP among them, and EFLAGS, then the three arguments; it checks the number in
  EAX, calls the handler of `syscall_table`, takes the arguments off the stack again and pops what it has
  pushed.  An `iret` follows.

  `syscall_entry` says that this restores everything but EAX, with a handler that follows cdecl; the
  arguments on the stack, which are copies, are the handler's to change.  The numbers outside 1 to 10
  are those of `err_syscall_num`: no handler runs, and EAX is -1.
-/
import ByteVerse.StackFrames
import Mathlib.Tactic.IntervalCases

namespace ByteVerse

open Words X86

inductive Handler
  | halt
  | execute
  | read
  | write
  | openFile
  | close
  | getargs
  | vidmap
  | setHandler
  | sigreturn
  deriving DecidableEq

inductive SyscallLabel
  | syscallAsm
  | done
  | inval
  deriving DecidableEq

def syscallTable : List (Option Handler) :=
  [none, some .halt, some .execute, some .read, some .write, some .openFile, some .close,
    some .getargs, some .vidmap, some .setHandler, some .sigreturn]

def syscallAsm : List (SyscallLabel × List (Instr Handler SyscallLabel)) :=
  [(.syscallAsm,
      [.pushl .ecx, .pushl .edx, .pushl .ebx, .pushl .esp, .pushl .ebp, .pushl .esi, .pushl .edi,
        .pushfl,
        .pushl .edx, .pushl .ecx, .pushl .ebx,
        .cmpl 1 .eax, .jl .inval,
        .cmpl 10 .eax, .jg .inval,
        .callTable syscallTable .eax]),
    (.done,
      [.addl 12 .esp,
        .popfl, .popl .edi, .popl .esi, .popl .ebp, .popl .esp, .popl .ebx, .popl .edx, .popl .ecx,
        .iret]),
    (.inval,
      [.movl (-1) .eax, .jmp .done])]

/-- The kernel's text at the address `base`, with its handlers. -/
def syscallText (base : Word) (symbol : Handler → Word) (code : Handler → Cpu → Cpu) :
    Text Handler SyscallLabel where
  base := base
  blocks := syscallAsm
  fits := by decide
  symbol := symbol
  code := code

/-- The words of the registers that `syscall_asm` saves, the last one pushed first. -/
def savedWords (x : RegFile) : List Word :=
  [x.flags, x.regs .edi, x.regs .esi, x.regs .ebp, below (x.regs .esp) 3, x.regs .ebx, x.regs .edx,
    x.regs .ecx]

def argumentWords (x : RegFile) : List Word := [x.regs .ebx, x.regs .ecx, x.regs .edx]

section Entry

variable {base : Word} {symbol : Handler → Word} {code : Handler → Cpu → Cpu} {c : Cpu}
  {Q : List (Call Handler) → Cpu → Prop}

/-- What `done` pops: the registers `x`, onto those of `y`. -/
def restored (x y : RegFile) : RegFile :=
  (({ y with flags := x.flags }.loaded
    [(.edi, x.regs .edi), (.esi, x.regs .esi), (.ebp, x.regs .ebp)]).loaded
    [(.ebx, x.regs .ebx), (.edx, x.regs .edx), (.ecx, x.regs .ecx)])

theorem restored_regs {x y : RegFile} (hesp : y.regs .esp = x.regs .esp) {r : Reg} (hr : r ≠ .eax) :
    (restored x y).regs r = x.regs r := by
  cases r with
  | eax => exact absurd rfl hr
  | esp => exact hesp
  | ecx | edx | ebx | ebp | esi | edi => rfl

/-- From `done` on the saved registers are restored, and EAX is as it is. -/
theorem ends_done (x : RegFile) {y : RegFile} {us : List Word}
    (hframe : StackFrame y (us ++ savedWords x) c) (hus : us.length = 3)
    (hcode : (syscallText base symbol code).CodeAt c.eip (syscallAsm.tail.flatMap Prod.snd))
    (hesp : y.regs .esp = x.regs .esp)
    (hQ : ∀ c' : Cpu, c'.flags = x.flags → (∀ r, r ≠ .eax → c'.regs r = x.regs r) →
      c'.regs .eax = y.regs .eax → Q [] c') :
    (syscallText base symbol code).Ends c Q := by
  refine ends_addl_esp (by rw [hus]; rfl) hcode hframe fun c₁ flags hcode₁ hframe₁ => ?_
  refine ends_popfl hcode₁ hframe₁ fun c₂ hcode₂ hframe₂ => ?_
  refine ends_popls [(.edi, _), (.esi, _), (.ebp, _)] (by simp) hcode₂ hframe₂
    fun c₃ hcode₃ hframe₃ => ?_
  refine ends_popl_esp ?_ hcode₃ hframe₃ fun c₄ hcode₄ hframe₄ => ?_
  · rw [RegFile.lowered_esp, ← hesp]
    rfl
  refine ends_popls [(.ebx, _), (.edx, _), (.ecx, _)] (by simp) hcode₄ hframe₄
    fun c₅ hcode₅ hframe₅ => ?_
  have hrestored : c₅.toRegFile = restored x y := hframe₅.eq_of_nil
  have hflags : c₅.flags = (restored x y).flags := congrArg RegFile.flags hrestored
  refine ends_iret hcode₅ (hQ c₅ hflags (fun r hr => ?_) ?_)
  · exact (congrFun (congrArg RegFile.regs hrestored) r).trans (restored_regs hesp hr)
  · exact congrFun (congrArg RegFile.regs hrestored) .eax

theorem ends_inval (x : RegFile) {y : RegFile} {us : List Word}
    (hframe : StackFrame y (us ++ savedWords x) c) (hus : us.length = 3)
    (heip : c.eip = (syscallText base symbol code).address .inval) (hesp : y.regs .esp = x.regs .esp)
    (hQ : ∀ c' : Cpu, c'.flags = x.flags → (∀ r, r ≠ .eax → c'.regs r = x.regs r) →
      c'.regs .eax = -1 → Q [] c') :
    (syscallText base symbol code).Ends c Q := by
  have hcode := Text.codeAt_address (M := syscallText base symbol code) (l := .inval)
    (show syscallAsm = [_, _] ++ _ :: _ from rfl) (by decide)
  rw [← heip] at hcode
  refine ends_movl (by decide) hcode hframe fun c₁ hcode₁ hframe₁ => ?_
  refine ends_jmp hcode₁ hframe₁ fun c₂ heip₂ hframe₂ => ?_
  have hesp₂ : (y.set .eax (-1)).regs .esp = x.regs .esp :=
    (RegFile.set_of_ne y (-1) (by decide)).trans hesp
  have hdone := Text.codeAt_address (M := syscallText base symbol code) (l := .done)
    (show syscallAsm = [_] ++ _ :: _ from rfl) (by decide)
  rw [← heip₂] at hdone
  exact ends_done x hframe₂ hus hdone hesp₂ fun c' hflags hregs heax =>
    hQ c' hflags hregs (heax.trans (RegFile.set_self ..))

/-- The entry that a number between 1 and 10 selects. -/
theorem tableEntry_syscallTable {w : Word} (hlow : 1 ≤ w.toInt) (hhigh : w.toInt ≤ 10) :
    ∃ h, syscallTable[w.toNat]? = some (some h) ∧ tableEntry syscallTable w = some h := by
  have hnat : 1 ≤ w.toNat ∧ w.toNat ≤ 10 := by
    rw [BitVec.toInt_eq_toNat_cond] at hlow hhigh
    split at hlow <;> omega
  have hscaled : (4 * w).toNat / 4 = w.toNat := by
    bv_omega
  have hentry : ∀ n, 1 ≤ n → n ≤ 10 → ∃ h, syscallTable[n]? = some (some h) := by
    intro n h1 h10
    interval_cases n <;> exact ⟨_, rfl⟩
  obtain ⟨h, hh⟩ := hentry _ hnat.1 hnat.2
  refine ⟨h, hh, ?_⟩
  rw [tableEntry, hscaled, hh]
  rfl

/-- Up to the checks everything is on the stack, and nothing has changed but the flags. -/
theorem ends_saved (heip : c.eip = (syscallText base symbol code).address .syscallAsm)
    (hnext : ∀ c', (syscallText base symbol code).CodeAt c'.eip
        ([.cmpl 1 .eax, .jl .inval, .cmpl 10 .eax, .jg .inval, .callTable syscallTable .eax] ++
          (syscallAsm.tail.flatMap Prod.snd)) →
      StackFrame c.toRegFile (argumentWords c.toRegFile ++ savedWords c.toRegFile) c' →
      (syscallText base symbol code).Ends c' Q) : (syscallText base symbol code).Ends c Q := by
  have hcode := Text.codeAt_address (M := syscallText base symbol code) (l := .syscallAsm)
    (show syscallAsm = [] ++ _ :: _ from rfl) (by simp)
  rw [← heip] at hcode
  refine ends_pushls [.ecx, .edx, .ebx, .esp, .ebp, .esi, .edi] hcode (stackFrame_nil c) (by decide)
    fun c₁ hcode₁ hframe₁ => ?_
  refine ends_pushfl hcode₁ hframe₁ (by simp) fun c₂ hcode₂ hframe₂ => ?_
  refine ends_pushls [.edx, .ecx, .ebx] hcode₂ hframe₂ (by simp) fun c₃ hcode₃ hframe₃ => ?_
  exact hnext c₃ hcode₃ hframe₃

/-- The two checks together: signed, from 1 to 10. -/
theorem ends_checks {x : RegFile} {ws : List Word} {is : List (Instr Handler SyscallLabel)}
    (hcode : (syscallText base symbol code).CodeAt c.eip
      (.cmpl 1 .eax :: .jl .inval :: .cmpl 10 .eax :: .jg .inval :: is))
    (hframe : StackFrame x ws c)
    (hinval : ∀ c' flags, ¬ (1 ≤ (x.regs .eax).toInt ∧ (x.regs .eax).toInt ≤ 10) →
      c'.eip = (syscallText base symbol code).address .inval →
      StackFrame { x with flags := flags } ws c' → (syscallText base symbol code).Ends c' Q)
    (hvalid : ∀ c' flags, 1 ≤ (x.regs .eax).toInt → (x.regs .eax).toInt ≤ 10 →
      (syscallText base symbol code).CodeAt c'.eip is →
      StackFrame { x with flags := flags } ws c' → (syscallText base symbol code).Ends c' Q) :
    (syscallText base symbol code).Ends c Q := by
  have hone : (1 : Word).toInt = 1 := rfl
  have hten : (10 : Word).toInt = 10 := rfl
  have heax : ∀ flags, ({ x with flags := flags } : RegFile).lowered ws.length .eax = x.regs .eax :=
    fun _ => RegFile.lowered_of_ne _ _ (by decide)
  refine ends_cmpl hcode hframe fun c₁ hcode₁ hframe₁ => ?_
  refine ends_jl hcode₁ hframe₁ (fun c₂ hless heip₂ hframe₂ => ?_) fun c₂ hless hcode₂ hframe₂ => ?_
  · rw [condLess_sub, decide_eq_true_eq, heax x.flags, hone] at hless
    exact hinval c₂ _ (by omega) heip₂ hframe₂
  rw [condLess_sub, decide_eq_false_iff_not, heax x.flags, hone] at hless
  refine ends_cmpl hcode₂ hframe₂ fun c₃ hcode₃ hframe₃ => ?_
  refine ends_jg hcode₃ hframe₃ (fun c₄ hmore heip₄ hframe₄ => ?_) fun c₄ hmore hcode₄ hframe₄ => ?_
  · rw [condGreater_sub, decide_eq_true_eq, heax, hten] at hmore
    exact hinval c₄ _ (by omega) heip₄ hframe₄
  · rw [condGreater_sub, decide_eq_false_iff_not, heax, hten] at hmore
    exact hvalid c₄ _ (by omega) (by omega) hcode₄ hframe₄

/-- **The system-call entry.**  For all registers, flags and memory, if the handler that EAX selects
    follows cdecl, `syscall_asm` comes to its `iret` with the flags and all registers but EAX as they
    were.  For a number from 1 to 10 it has called exactly that handler, with EBX, ECX and EDX as
    arguments, and EAX is its result; otherwise it has called nothing, and EAX is -1. -/
theorem syscall_entry (base : Word) (symbol : Handler → Word) (code : Handler → Cpu → Cpu) (c : Cpu)
    (heip : c.eip = (syscallText base symbol code).address .syscallAsm)
    (hcdecl : ∀ h, syscallTable[(c.regs .eax).toNat]? = some (some h) →
      ∀ d, Cdecl 3 8 d (code h d)) :
    (syscallText base symbol code).Ends c fun calls c' =>
      c'.flags = c.flags ∧ (∀ r, r ≠ .eax → c'.regs r = c.regs r) ∧
      (if 1 ≤ (c.regs .eax).toInt ∧ (c.regs .eax).toInt ≤ 10 then
        ∃ h d, syscallTable[(c.regs .eax).toNat]? = some (some h) ∧ calls = [⟨h, d⟩] ∧
          d.arguments 3 = [c.regs .ebx, c.regs .ecx, c.regs .edx] ∧
          c'.regs .eax = (code h d).regs .eax
      else calls = [] ∧ c'.regs .eax = -1) := by
  refine ends_saved heip fun c₁ hcode₁ hframe₁ => ?_
  refine ends_checks hcode₁ hframe₁ (fun c₂ flags hrange heip₂ hframe₂ => ?_)
    fun c₂ flags hlow hhigh hcode₂ hframe₂ => ?_
  · refine ends_inval c.toRegFile hframe₂ rfl heip₂ rfl fun c' hflags hregs heax => ?_
    refine ⟨hflags, hregs, ?_⟩
    rw [if_neg hrange]
    exact ⟨rfl, heax⟩
  · obtain ⟨h, hh, hentry⟩ := tableEntry_syscallTable hlow hhigh
    refine ends_callTable hcode₂ hframe₂ (show 11 < 2 ^ 30 by decide) hentry (hcdecl h hh)
      fun d vs hargs hvs hcode₃ hframe₃ => ?_
    refine ends_done c.toRegFile hframe₃ hvs hcode₃ (RegFile.set_self ..) fun c' hflags hregs heax => ?_
    refine ⟨hflags, hregs, ?_⟩
    rw [if_pos ⟨hlow, hhigh⟩]
    exact ⟨h, d, hh, rfl, hargs, heax.trans (RegFile.set_of_ne _ _ (by decide))⟩

end Entry

/-- A handler that returns 7 and clears what cdecl lets it: its first argument, ECX and EDX. -/
def clearingHandler (c : Cpu) : Cpu :=
  { ((c.drop.set .eax 7).set .ecx 0).set .edx 0 with
    eip := c.top
    mem := writeWord c.mem (c.regs .esp + 4) 0 }

theorem cdecl_clearingHandler (c : Cpu) : Cdecl 3 8 c (clearingHandler c) where
  returns := rfl
  esp := rfl
  preserved := by
    intro r hr
    simp only [calleeSaved, List.mem_cons, List.not_mem_nil, or_false] at hr
    rcases hr with rfl | rfl | rfl | rfl <;> rfl
  kept := by
    intro i hlow hhigh
    refine writeWord_of_outside 0 ?_
    bv_omega

/-- System call 4 with this handler, and the kernel stack below 8 MB. -/
theorem syscall_entry_write :
    (syscallText 0x400000 (fun _ => 0x401000) fun _ => clearingHandler).Ends
      { regs := fun r => if r = .eax then 4 else if r = .esp then 0x7fffe8 else 0x1234
        flags := 0x202
        eip := 0x400000
        mem := fun _ => 0 }
      fun calls c' => c'.flags = 0x202 ∧ c'.regs .esp = 0x7fffe8 ∧ c'.regs .ecx = 0x1234 ∧
        c'.regs .eax = 7 ∧ ∃ d, calls = [⟨.write, d⟩] ∧ d.arguments 3 = [0x1234, 0x1234, 0x1234] := by
  obtain ⟨n, calls, c', hexec, hflags, hregs, hcall⟩ := syscall_entry 0x400000 (fun _ => 0x401000)
    (fun _ => clearingHandler)
    { regs := fun r => if r = .eax then 4 else if r = .esp then 0x7fffe8 else 0x1234
      flags := 0x202
      eip := 0x400000
      mem := fun _ => 0 } rfl fun _ _ => cdecl_clearingHandler
  refine ⟨n, calls, c', hexec, hflags, hregs .esp (by decide), hregs .ecx (by decide), ?_⟩
  rw [if_pos (by decide)] at hcall
  obtain ⟨h, d, hentry, hcalls, hargs, heax⟩ := hcall
  obtain rfl : Handler.write = h := Option.some.inj (Option.some.inj hentry)
  exact ⟨heax, d, hcalls, hargs⟩

end ByteVerse
