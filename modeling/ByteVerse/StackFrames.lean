/-
  Rules for code that works on its stack.

  `StackFrame x ws c` says where the code stands: the registers and flags of `c` are those of `x`, except
  that ESP is below that of `x` by the words `ws`, which lie on the stack.  Each instruction has one
  rule about `Ends`, which leads from the frame before it to the frame behind it; whatever the memory
  contains elsewhere does not matter.

  `ends_callTable` is the rule for a call of a routine that follows cdecl: the words above its arguments
  and the registers that it has to preserve are as before, the others may be anything.
-/
import ByteVerse.X86

namespace ByteVerse.X86

open Words

/-- The address `n` words below `a`. -/
def below (a : Word) (n : Nat) : Word := a - 4 * BitVec.ofNat 32 n

@[simp] theorem below_zero (a : Word) : below a 0 = a := by
  simp [below]

theorem below_succ (a : Word) (n : Nat) : below a (n + 1) = below a n - 4 := by
  unfold below
  rw [BitVec.ofNat_add]
  bv_omega

theorem wordAt_below (a : Word) (k n : Nat) : wordAt (below a (k + n)) k = below a n := by
  unfold below wordAt
  rw [BitVec.ofNat_add]
  bv_omega

/-- The registers of `x` with `n` words on the stack. -/
def RegFile.lowered (x : RegFile) (n : Nat) : Reg → Word :=
  Function.update x.regs .esp (below (x.regs .esp) n)

theorem RegFile.lowered_esp (x : RegFile) (n : Nat) :
    x.lowered n .esp = below (x.regs .esp) n := Function.update_self ..

theorem RegFile.lowered_of_ne (x : RegFile) (n : Nat) {r : Reg} (hr : r ≠ .esp) :
    x.lowered n r = x.regs r := Function.update_of_ne hr ..

theorem RegFile.lowered_set_esp (x : RegFile) (a : Word) (n : Nat) :
    (x.set .esp a).lowered n = Function.update x.regs .esp (below a n) := by
  rw [RegFile.lowered, RegFile.set_self]
  exact Function.update_idem ..

/-- A state with the registers of `x`, and the words `ws` on its stack. -/
structure StackFrame (x : RegFile) (ws : List Word) (c : Cpu) : Prop where
  regs : c.regs = x.lowered ws.length
  flags : c.flags = x.flags
  stack : words c.mem (c.regs .esp) ws.length = ws

section Frames

variable {x : RegFile} {ws : List Word} {c : Cpu}

/-- Every state is a frame without words. -/
theorem stackFrame_nil (c : Cpu) : StackFrame c.toRegFile [] c where
  regs := by
    rw [RegFile.lowered, List.length_nil, below_zero, Function.update_eq_self]
  flags := rfl
  stack := rfl

theorem StackFrame.eq_of_nil (h : StackFrame x [] c) : c.toRegFile = x := by
  have hregs := h.regs
  rw [RegFile.lowered, List.length_nil, below_zero, Function.update_eq_self] at hregs
  exact congrArg₂ RegFile.mk hregs h.flags

theorem StackFrame.esp (h : StackFrame x ws c) : c.regs .esp = below (x.regs .esp) ws.length := by
  rw [h.regs, RegFile.lowered_esp]

theorem StackFrame.jump (h : StackFrame x ws c) (a : Word) : StackFrame x ws (c.jump a) :=
  ⟨h.regs, h.flags, h.stack⟩

theorem StackFrame.withFlags (h : StackFrame x ws c) (flags : Word) :
    StackFrame { x with flags := flags } ws { c with flags := flags } :=
  ⟨h.regs, rfl, h.stack⟩

theorem StackFrame.push (h : StackFrame x ws c) (w : Word) (hlen : ws.length < 2 ^ 30) :
    StackFrame x (w :: ws) (c.push w) where
  regs := by
    show Function.update c.regs .esp (c.regs .esp - 4) = _
    rw [h.esp, h.regs, RegFile.lowered, RegFile.lowered, Function.update_idem, List.length_cons,
      below_succ]
  flags := h.flags
  stack := by
    rw [Cpu.push_esp, List.length_cons]
    have hwords := words_write_below c.mem (c.regs .esp) w (n := ws.length) (by omega)
    rw [h.stack] at hwords
    exact hwords

theorem StackFrame.top {w : Word} (h : StackFrame x (w :: ws) c) : c.top = w :=
  (List.cons.inj h.stack).1

theorem StackFrame.drop {w : Word} (h : StackFrame x (w :: ws) c) : StackFrame x ws c.drop := by
  have hlow : c.regs .esp + 4 = below (x.regs .esp) ws.length := by
    rw [h.esp, List.length_cons, below_succ, BitVec.sub_add_cancel]
  constructor
  · show Function.update c.regs .esp (c.regs .esp + 4) = _
    rw [hlow, h.regs, RegFile.lowered, RegFile.lowered, Function.update_idem]
  · exact h.flags
  · rw [Cpu.drop_esp]
    exact (List.cons.inj h.stack).2

theorem StackFrame.dropWords {us : List Word} (h : StackFrame x (us ++ ws) c) :
    StackFrame x ws (c.set .esp (wordAt (c.regs .esp) us.length)) := by
  have hlow : wordAt (c.regs .esp) us.length = below (x.regs .esp) ws.length := by
    rw [h.esp, List.length_append, wordAt_below]
  constructor
  · show Function.update c.regs .esp (wordAt (c.regs .esp) us.length) = _
    rw [hlow, h.regs, RegFile.lowered, RegFile.lowered, Function.update_idem]
  · exact h.flags
  · have hstack := h.stack
    rw [List.length_append, words_add] at hstack
    rw [Cpu.set_self]
    exact (List.append_inj hstack (length_words ..)).2

theorem StackFrame.set (h : StackFrame x ws c) {r : Reg} (hr : r ≠ .esp) (w : Word) :
    StackFrame (x.set r w) ws (c.set r w) where
  regs := by
    show Function.update c.regs r w = Function.update (Function.update x.regs r w) .esp
      (below (Function.update x.regs r w .esp) ws.length)
    rw [h.regs, Function.update_of_ne hr.symm, RegFile.lowered, Function.update_comm hr]
  flags := h.flags
  stack := by
    rw [Cpu.set_of_ne c w hr.symm]
    exact h.stack

/-- Only ESP may be loaded from the stack with what it is anyway. -/
theorem StackFrame.set_esp (h : StackFrame x ws c) : c.set .esp (below (x.regs .esp) ws.length) = c := by
  rw [Cpu.set, ← h.esp, Function.update_eq_self]

end Frames

/-! ## Rules -/

section Rules

variable {σ L : Type} [DecidableEq L] {M : Text σ L} {c : Cpu} {Q : List (Call σ) → Cpu → Prop}

theorem ends_iret {is : List (Instr σ L)} (hcode : M.CodeAt c.eip (.iret :: is)) (hQ : Q [] c) :
    M.Ends c Q := by
  refine ⟨1, [], c, ?_, hQ⟩
  rw [Text.exec, hcode.fetch]

theorem ends_step {i : Instr σ L} {is : List (Instr σ L)} {calls : List (Call σ)} {c' : Cpu}
    (hcode : M.CodeAt c.eip (i :: is)) (hstep : M.step i c = some (calls, c'))
    (hnext : M.Ends c' fun cs => Q (calls ++ cs)) : M.Ends c Q := by
  obtain ⟨n, cs, c'', hexec, hQ⟩ := hnext
  refine ⟨n + 1, calls ++ cs, c'', ?_, hQ⟩
  have hiret : i ≠ .iret := by
    rintro rfl
    cases hstep
  rw [Text.exec, hcode.fetch]
  split
  · rename_i hnone
    cases hnone
  · rename_i hsome
    exact absurd (Option.some.inj hsome) hiret
  · rename_i hsome
    obtain rfl := Option.some.inj hsome
    rw [hstep]
    show (M.exec n c').map _ = _
    rw [hexec]
    rfl

variable {x : RegFile} {ws : List Word} {is : List (Instr σ L)}

theorem ends_pushl {r : Reg} (hcode : M.CodeAt c.eip (.pushl r :: is)) (hframe : StackFrame x ws c)
    (hlen : ws.length < 2 ^ 30)
    (hnext : ∀ c', M.CodeAt c'.eip is → StackFrame x (x.lowered ws.length r :: ws) c' → M.Ends c' Q) :
    M.Ends c Q := by
  refine ends_step hcode rfl (hnext _ hcode.next ?_)
  rw [← hframe.regs]
  exact (hframe.jump _).push _ hlen

theorem ends_pushfl (hcode : M.CodeAt c.eip (.pushfl :: is)) (hframe : StackFrame x ws c)
    (hlen : ws.length < 2 ^ 30)
    (hnext : ∀ c', M.CodeAt c'.eip is → StackFrame x (x.flags :: ws) c' → M.Ends c' Q) : M.Ends c Q := by
  refine ends_step hcode rfl (hnext _ hcode.next ?_)
  rw [← hframe.flags]
  exact (hframe.jump _).push _ hlen

theorem ends_popl {r : Reg} (hr : r ≠ .esp) {w : Word} (hcode : M.CodeAt c.eip (.popl r :: is))
    (hframe : StackFrame x (w :: ws) c)
    (hnext : ∀ c', M.CodeAt c'.eip is → StackFrame (x.set r w) ws c' → M.Ends c' Q) : M.Ends c Q := by
  refine ends_step hcode rfl (hnext _ hcode.next ?_)
  rw [hframe.top]
  exact (hframe.jump _).drop.set hr w

/-- `popl %esp` with the value that ESP has behind it. -/
theorem ends_popl_esp {w : Word} (hw : w = x.lowered ws.length .esp)
    (hcode : M.CodeAt c.eip (.popl .esp :: is)) (hframe : StackFrame x (w :: ws) c)
    (hnext : ∀ c', M.CodeAt c'.eip is → StackFrame x ws c' → M.Ends c' Q) : M.Ends c Q := by
  refine ends_step hcode rfl (hnext _ hcode.next ?_)
  have hdrop := (hframe.jump (c.eip + BitVec.ofNat 32 (Instr.popl .esp : Instr σ L).size)).drop
  rw [hframe.top, hw, RegFile.lowered_esp, hdrop.set_esp]
  exact hdrop

theorem ends_popfl {w : Word} (hcode : M.CodeAt c.eip (.popfl :: is)) (hframe : StackFrame x (w :: ws) c)
    (hnext : ∀ c', M.CodeAt c'.eip is → StackFrame { x with flags := w } ws c' → M.Ends c' Q) :
    M.Ends c Q := by
  refine ends_step hcode rfl (hnext _ hcode.next ?_)
  rw [hframe.top]
  exact (hframe.jump _).drop.withFlags w

/-- The stack behind a row of pushes. -/
def RegFile.pushed (x : RegFile) (ws : List Word) : List Reg → List Word
  | [] => ws
  | r :: rs => x.pushed (x.lowered ws.length r :: ws) rs

@[simp] theorem RegFile.length_pushed (x : RegFile) (ws : List Word) (rs : List Reg) :
    (x.pushed ws rs).length = ws.length + rs.length := by
  induction rs generalizing ws with
  | nil => rfl
  | cons r rs ih => rw [RegFile.pushed, ih, List.length_cons, List.length_cons, Nat.succ_add_eq_add_succ]

/-- The registers behind a row of pops. -/
def RegFile.loaded (x : RegFile) : List (Reg × Word) → RegFile
  | [] => x
  | (r, w) :: ps => (x.set r w).loaded ps

theorem ends_pushls (rs : List Reg) (hcode : M.CodeAt c.eip (rs.map Instr.pushl ++ is))
    (hframe : StackFrame x ws c) (hlen : ws.length + rs.length ≤ 2 ^ 30)
    (hnext : ∀ c', M.CodeAt c'.eip is → StackFrame x (x.pushed ws rs) c' → M.Ends c' Q) : M.Ends c Q := by
  induction rs generalizing c ws with
  | nil => exact hnext c hcode hframe
  | cons r rs ih =>
    rw [List.length_cons] at hlen
    refine ends_pushl hcode hframe (by omega) fun c' hcode' hframe' => ?_
    exact ih hcode' hframe' (by rw [List.length_cons]; omega) hnext

theorem ends_popls (ps : List (Reg × Word)) (hesp : .esp ∉ ps.map Prod.fst)
    (hcode : M.CodeAt c.eip (ps.map (fun p => Instr.popl p.1) ++ is))
    (hframe : StackFrame x (ps.map Prod.snd ++ ws) c)
    (hnext : ∀ c', M.CodeAt c'.eip is → StackFrame (x.loaded ps) ws c' → M.Ends c' Q) : M.Ends c Q := by
  induction ps generalizing c x with
  | nil => exact hnext c hcode hframe
  | cons p ps ih =>
    rw [List.map_cons, List.mem_cons, not_or] at hesp
    obtain ⟨hp, hps⟩ := hesp
    refine ends_popl (Ne.symm hp) hcode hframe fun c' hcode' hframe' => ?_
    exact ih hps hcode' hframe' hnext

theorem ends_movl {r : Reg} (hr : r ≠ .esp) {imm : Word}
    (hcode : M.CodeAt c.eip (.movl imm r :: is)) (hframe : StackFrame x ws c)
    (hnext : ∀ c', M.CodeAt c'.eip is → StackFrame (x.set r imm) ws c' → M.Ends c' Q) : M.Ends c Q :=
  ends_step hcode rfl (hnext _ hcode.next ((hframe.jump _).set hr imm))

theorem ends_jmp {l : L} (hcode : M.CodeAt c.eip (.jmp l :: is)) (hframe : StackFrame x ws c)
    (hnext : ∀ c', c'.eip = M.address l → StackFrame x ws c' → M.Ends c' Q) : M.Ends c Q :=
  ends_step hcode rfl (hnext _ rfl (hframe.jump _))

theorem ends_cmpl {r : Reg} {imm : Word} (hcode : M.CodeAt c.eip (.cmpl imm r :: is))
    (hframe : StackFrame x ws c)
    (hnext : ∀ c', M.CodeAt c'.eip is →
      StackFrame { x with flags := withStatus x.flags (subStatus (x.lowered ws.length r) imm) } ws c' →
      M.Ends c' Q) : M.Ends c Q := by
  refine ends_step hcode rfl (hnext _ hcode.next ?_)
  rw [← hframe.regs, ← hframe.flags]
  exact (hframe.jump _).withFlags _

/-- A conditional jump, on the flags that the frame has. -/
theorem ends_branch {i : Instr σ L} {l : L} {cond : Word → Bool} (hcode : M.CodeAt c.eip (i :: is))
    (hframe : StackFrame x ws c)
    (hstep : M.step i c = some ([], if cond c.flags then c.jump (M.address l) else
      c.jump (c.eip + BitVec.ofNat 32 i.size)))
    (htaken : ∀ c', cond x.flags = true → c'.eip = M.address l → StackFrame x ws c' → M.Ends c' Q)
    (hnext : ∀ c', cond x.flags = false → M.CodeAt c'.eip is → StackFrame x ws c' → M.Ends c' Q) :
    M.Ends c Q := by
  refine ends_step hcode hstep ?_
  rw [hframe.flags]
  cases hcond : cond x.flags with
  | true => exact htaken _ hcond rfl (hframe.jump _)
  | false => exact hnext _ hcond hcode.next (hframe.jump _)

theorem ends_jl {l : L} (hcode : M.CodeAt c.eip (.jl l :: is)) (hframe : StackFrame x ws c)
    (htaken : ∀ c', condLess x.flags = true → c'.eip = M.address l → StackFrame x ws c' →
      M.Ends c' Q)
    (hnext : ∀ c', condLess x.flags = false → M.CodeAt c'.eip is → StackFrame x ws c' →
      M.Ends c' Q) : M.Ends c Q :=
  ends_branch hcode hframe rfl htaken hnext

theorem ends_jg {l : L} (hcode : M.CodeAt c.eip (.jg l :: is)) (hframe : StackFrame x ws c)
    (htaken : ∀ c', condGreater x.flags = true → c'.eip = M.address l → StackFrame x ws c' →
      M.Ends c' Q)
    (hnext : ∀ c', condGreater x.flags = false → M.CodeAt c'.eip is → StackFrame x ws c' →
      M.Ends c' Q) : M.Ends c Q :=
  ends_branch hcode hframe rfl htaken hnext

/-- `addl` to ESP takes the words `us` off the stack. -/
theorem ends_addl_esp {us : List Word} {imm : Word} (himm : imm = 4 * BitVec.ofNat 32 us.length)
    (hcode : M.CodeAt c.eip (.addl imm .esp :: is)) (hframe : StackFrame x (us ++ ws) c)
    (hnext : ∀ c' flags, M.CodeAt c'.eip is → StackFrame { x with flags := flags } ws c' → M.Ends c' Q) :
    M.Ends c Q := by
  refine ends_step hcode rfl ?_
  subst himm
  exact hnext _ (withStatus c.flags _) hcode.next ((hframe.jump _).dropWords.withFlags _)

end Rules

/-! ## Calls -/

/-- The words above the return address. -/
def Cpu.arguments (c : Cpu) (n : Nat) : List Word := words c.mem (c.regs .esp + 4) n

/-- The registers that a routine has to preserve, apart from ESP. -/
def calleeSaved : List Reg := [.ebx, .esi, .edi, .ebp]

/-- A call that follows cdecl, from the state `c` to `c'` behind the `ret`: it may change its `args`
    arguments, but none of the `saved` words that the caller has above them. -/
structure Cdecl (args saved : Nat) (c c' : Cpu) : Prop where
  returns : c'.eip = c.top
  esp : c'.regs .esp = c.regs .esp + 4
  preserved : ∀ r ∈ calleeSaved, c'.regs r = c.regs r
  kept : ∀ i, 4 * (args + 1) ≤ i → i < 4 * (args + 1 + saved) →
    c'.mem (c.regs .esp + BitVec.ofNat 32 i) = c.mem (c.regs .esp + BitVec.ofNat 32 i)

section Calls

variable {x : RegFile} {us ws : List Word} {ret : Word} {c c' : Cpu}

theorem StackFrame.arguments (h : StackFrame x (ret :: (us ++ ws)) c) : c.arguments us.length = us := by
  have hrest := (List.cons.inj h.stack).2
  rw [List.length_append, words_add] at hrest
  exact (List.append_inj hrest (length_words ..)).1

theorem Cdecl.words_saved (h : Cdecl us.length ws.length c c')
    (hframe : StackFrame x (ret :: (us ++ ws)) c) :
    words c'.mem (wordAt (c'.regs .esp) us.length) ws.length = ws := by
  have hrest := (List.cons.inj hframe.stack).2
  rw [List.length_append, words_add] at hrest
  have hsaved := (List.append_inj hrest (length_words ..)).2
  rw [h.esp]
  refine Eq.trans (words_congr fun i hi => ?_) hsaved
  have haddr : wordAt (c.regs .esp + 4) us.length + BitVec.ofNat 32 i =
      c.regs .esp + BitVec.ofNat 32 (4 * (us.length + 1) + i) := by
    unfold wordAt
    bv_omega
  rw [haddr]
  exact h.kept _ (by omega) (by omega)

/-- Behind the call the arguments may be anything, and so may the registers that are not preserved. -/
theorem Cdecl.frame (h : Cdecl us.length ws.length c c') (hframe : StackFrame x (ret :: (us ++ ws)) c) :
    StackFrame (c'.toRegFile.set .esp (x.regs .esp)) (words c'.mem (c'.regs .esp) us.length ++ ws)
      c' := by
  have hesp : c'.regs .esp = below (x.regs .esp) (us.length + ws.length) := by
    rw [h.esp, hframe.esp, List.length_cons, List.length_append, below_succ, BitVec.sub_add_cancel]
  constructor
  · rw [RegFile.lowered_set_esp, List.length_append, length_words, ← hesp, Function.update_eq_self]
  · rfl
  · rw [List.length_append, length_words, words_add, h.words_saved hframe]

variable {σ L : Type} [DecidableEq L] {M : Text σ L} {Q : List (Call σ) → Cpu → Prop}

/-- **A call through a table** of a routine that follows cdecl, with the arguments `us` on the stack. -/
theorem ends_callTable {table : List (Option σ)} {r : Reg} {f : σ} {is : List (Instr σ L)}
    (hcode : M.CodeAt c.eip (.callTable table r :: is)) (hframe : StackFrame x (us ++ ws) c)
    (hlen : (us ++ ws).length < 2 ^ 30)
    (hentry : tableEntry table (x.lowered (us ++ ws).length r) = some f)
    (hcdecl : ∀ d, Cdecl us.length ws.length d (M.code f d))
    (hnext : ∀ d vs, d.arguments us.length = us → vs.length = us.length →
      M.CodeAt (M.code f d).eip is →
      StackFrame ((M.code f d).toRegFile.set .esp (x.regs .esp)) (vs ++ ws) (M.code f d) →
      M.Ends (M.code f d) fun cs => Q (⟨f, d⟩ :: cs)) : M.Ends c Q := by
  have hcalled := ((hframe.jump (c.eip + 7)).push (c.eip + 7) hlen).jump (M.symbol f)
  generalize hd : ((c.jump (c.eip + 7)).push (c.eip + 7)).jump (M.symbol f) = d at hcalled
  have hstep : M.step (.callTable table r) c = some ([⟨f, d⟩], M.code f d) := by
    rw [← hd, Text.step, hframe.regs, hentry]
    rfl
  have hreturn : M.CodeAt (M.code f d).eip is := by
    rw [(hcdecl d).returns, hcalled.top]
    exact hcode.next
  refine ends_step hcode hstep ?_
  exact hnext d _ hcalled.arguments (length_words ..) hreturn ((hcdecl d).frame hcalled)

end Calls

end ByteVerse.X86
