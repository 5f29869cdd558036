/-
  The memory routines of `lib.c`: `memset`, `memcpy` and `memmove`, instruction by instruction.

  `memset` and `memcpy` store single bytes up to an address divisible by four, then words, and the
  rest as bytes; `memmove` goes from the end to the front where the destination lies behind the source.
  For every alignment and every length the outcome is that of storing the bytes one after the other,
  and nothing else changes (`memset_fills`, `memcpy_copies`, `memmove_moves`).  A page that
  `switch_terminal` copies is one of these rows, in whatever frames it lies (`memcpy_page`).
-/
import ByteVerse.StringAsm
import ByteVerse.Terminal

set_option linter.unusedVariables false

namespace ByteVerse

open Words X86 StringAsm

/-! ## The routines -/

/-- The labels of the three routines, without the name of the routine in front. -/
inductive MemLabel
  | top
  | aligned
  | bottom
  | go
  | done
  deriving DecidableEq

abbrev MemText := List (MemLabel × List (StringAsm.Instr MemLabel))

def memset : MemText :=
  [(.top,
    [.testl .ecx .ecx, .jz .done, .testImm 3 .edi, .jz .aligned, .storeb .edi, .addl 1 .edi, .subl 1 .ecx,
      .jmp .top]),
   (.aligned,
    [.movDsDx, .movDxEs, .movl .ecx .edx, .shrl 2 .ecx, .andl 3 .edx, .cld, .repStos 4]),
   (.bottom,
    [.testl .edx .edx, .jz .done, .storeb .edi, .addl 1 .edi, .subl 1 .edx, .jmp .bottom]),
   (.done, [])]

/-- The registers `memset(s, c, n)` starts with. -/
def memsetRegs {P : Type} (s c n : Word) (st : State P) : State P :=
  let c := c &&& 0xFF
  ((st.set .eax (c <<< 24 ||| c <<< 16 ||| c <<< 8 ||| c)).set .edi s).set .ecx n

def memcpy : MemText :=
  [(.top,
    [.testl .ecx .ecx, .jz .done, .testImm 3 .edi, .jz .aligned, .loadb .esi, .storeb .edi, .addl 1 .edi,
      .addl 1 .esi, .subl 1 .ecx, .jmp .top]),
   (.aligned,
    [.movDsDx, .movDxEs, .movl .ecx .edx, .shrl 2 .ecx, .andl 3 .edx, .cld, .repMovs 4]),
   (.bottom,
    [.testl .edx .edx, .jz .done, .loadb .esi, .storeb .edi, .addl 1 .edi, .addl 1 .esi, .subl 1 .edx,
      .jmp .bottom]),
   (.done, [])]

/-- The registers `memcpy(dest, src, n)` and `memmove(dest, src, n)` start with. -/
def memcpyRegs {P : Type} (dest src n : Word) (st : State P) : State P :=
  ((st.set .esi src).set .edi dest).set .ecx n

def memmove : MemText :=
  [(.top,
    [.movDsDx, .movDxEs, .cld, .cmpl .edi .esi, .jae .go, .leal .esi .ecx .esi, .leal .edi .ecx .edi, .std]),
   (.go, [.repMovs 1])]

/-! ## Registers -/

section Registers

variable {P : Type}

theorem and_three (r : Nat) : BitVec.ofNat 32 r &&& 3 = BitVec.ofNat 32 (r % 4) := by
  refine BitVec.eq_of_toNat_eq ?_
  rw [BitVec.toNat_and, BitVec.toNat_ofNat, BitVec.toNat_ofNat]
  have hthree : (3 : Word).toNat = 2 ^ 2 - 1 := rfl
  rw [hthree, Nat.and_two_pow_sub_one_eq_mod]
  omega

theorem shiftRight_two (r : Nat) (hr : r < 2 ^ 32) : (BitVec.ofNat 32 r >>> 2).toNat = r / 4 := by
  rw [BitVec.toNat_ushiftRight, BitVec.toNat_ofNat, Nat.mod_eq_of_lt hr, Nat.shiftRight_eq_div_pow]

theorem es_of_ds (w : Word) (ds : BitVec 16) : (w.extractLsb' 16 16 ++ ds : Word).extractLsb' 0 16 = ds := by
  ext i hi
  simp only [BitVec.getElem_extractLsb', Nat.zero_add, BitVec.getLsbD_append]
  rw [if_pos hi, BitVec.getLsbD_eq_getElem hi]

/-- What `.memset_aligned` and `.memcpy_aligned` prepare for their string instruction, of `r` bytes left. -/
structure Prepared (r : Nat) (s t : State P) : Prop where
  ds : t.ds = s.ds
  es : t.es = s.ds
  df : t.df = false
  mem : t.mem = s.mem
  ecx : (t.regs .ecx).toNat = r / 4
  edx : t.regs .edx = BitVec.ofNat 32 (r % 4)
  regs : ∀ q, q ≠ Reg.ecx → q ≠ Reg.edx → t.regs q = s.regs q

theorem reaches_words [DecidableEq P] {place : BitVec 16 → Word → P} {text : MemText}
    {is : List (StringAsm.Instr MemLabel)} {s : State P} {Q : State P → Prop} {r : Nat} (hr : r < 2 ^ 32)
    (hecx : s.regs .ecx = BitVec.ofNat 32 r) (h : ∀ t, Prepared r s t → Reaches place text is t Q) :
    Reaches place text
      (.movDsDx :: .movDxEs :: .movl .ecx .edx :: .shrl 2 .ecx :: .andl 3 .edx :: .cld :: is) s Q := by
  refine reaches_step rfl (reaches_step rfl (reaches_step rfl (reaches_step rfl (reaches_step rfl (reaches_step rfl
    (h _ ⟨rfl, ?_, rfl, rfl, ?_, ?_, ?_⟩))))))
  · show ((s.set .edx (_ ++ s.ds)).regs .edx).extractLsb' 0 16 = s.ds
    rw [State.set_self]
    exact es_of_ds _ s.ds
  · rw [← shiftRight_two r hr, ← hecx]
    simp [State.flags]
  · rw [← and_three r, ← hecx]
    simp [State.flags]
  · intro q hcx hdx
    simp [State.flags, hcx, hdx]

end Registers

/-! ## `memset` -/

section Memset

variable {P : Type} [DecidableEq P] {place : BitVec 16 → Word → P} {seg : BitVec 16} {d : Word} {b : BitVec 8}
  {m : P → BitVec 8} {n : Nat}

/-- At a label of `memset`: `k` bytes stand, and the fill byte is in all of EAX. -/
structure MemsetAt (place : BitVec 16 → Word → P) (seg : BitVec 16) (d : Word) (b : BitVec 8) (m : P → BitVec 8)
    (k : Nat) (s : State P) : Prop extends Filling place seg d (fun _ => b) m k s where
  eax : ∀ i < 4, byte (s.regs .eax) i = b

omit [DecidableEq P] in
theorem MemsetAt.flags {k : Nat} {s : State P} (h : MemsetAt place seg d b m k s) (zf cf : Bool) :
    MemsetAt place seg d b m k (s.flags zf cf) :=
  ⟨⟨h.ds, h.edi, h.stored⟩, h.eax⟩

omit [DecidableEq P] in
theorem storesAgree_const (dst : Nat → P) (n : Nat) : StoresAgree dst (fun _ => b) n := fun _ _ _ _ _ => rfl

/-- One byte of the loops at `.memset_top` and `.memset_bottom`. -/
theorem MemsetAt.byte {k : Nat} {s s' : State P} (h : MemsetAt place seg d b m k s) (hds : s'.ds = s.ds)
    (heax : s'.regs .eax = s.regs .eax) (hedi : s'.regs .edi = s.regs .edi + 1)
    (hmem : s'.mem = Function.update s.mem (place s.ds (s.regs .edi)) (Words.byte (s.regs .eax) 0)) :
    MemsetAt place seg d b m (k + 1) s' where
  toFilling := by
    rw [h.eax 0 (by decide)] at hmem
    exact h.toFilling.byte (storesAgree_const _ (k + 1)) (Nat.lt_succ_self k) hds hedi hmem
  eax i hi := by
    rw [heax]
    exact h.eax i hi

/-- The last bytes, at `.memset_bottom`: EDX of them. -/
theorem memset_bottom (r : Nat) :
    ∀ {k : Nat} {s : State P}, MemsetAt place seg d b m k s → s.regs .edx = BitVec.ofNat 32 r → r < 4 →
      Reaches place memset (codeFrom memset .bottom) s fun s' => MemsetAt place seg d b m (k + r) s' := by
  induction r with
  | zero =>
    intro k s h hedx _
    exact reaches_test_zero hedx (reaches_end (h.flags true false))
  | succ r ih =>
    intro k s h hedx hlt
    refine reaches_test_succ (by omega) hedx (reaches_step rfl (reaches_step rfl (reaches_step rfl (reaches_jmp ?_))))
    rw [show k + (r + 1) = k + 1 + r by omega]
    refine ih (h.byte ?_ ?_ ?_ ?_) ?_ (by omega)
    · rfl
    · simp [State.flags]
    · simp [State.flags]
    · rfl
    · simpa [State.flags, hedx] using ofNat_succ_sub_one r

/-- The words. -/
theorem memset_words {r k : Nat} {s : State P} (h : MemsetAt place seg d b m k s) (hes : s.es = seg)
    (hdf : s.df = false) (hecx : (s.regs .ecx).toNat = r / 4) (hedx : s.regs .edx = BitVec.ofNat 32 (r % 4)) :
    Reaches place memset (.repStos 4 :: codeFrom memset .bottom) s fun s' => MemsetAt place seg d b m (k + r) s' := by
  have hfilled := h.toFilling.repStos (storesAgree_const _ (k + r)) 4 (r / 4) hes hdf
    (fun j hj i hi => h.eax i hi) (by omega)
  have heax := iterate_keeps (f := stosOnce place 4) (g := fun s => s.regs .eax) (stosOnce_eax place 4) (r / 4) s
  have hedx' := iterate_keeps (f := stosOnce place 4) (g := fun s => s.regs .edx) (stosOnce_edx place 4) (r / 4) s
  refine reaches_step rfl ?_
  -- `r / 4` words and the `r % 4` bytes that EDX counts
  rw [hecx, show k + r = k + 4 * (r / 4) + r % 4 by omega]
  refine memset_bottom (r % 4) ⟨hfilled, fun i hi => ?_⟩ (hedx'.trans hedx) (by omega)
  rw [heax]
  exact h.eax i hi

/-- From `.memset_aligned` on. -/
theorem memset_aligned (r : Nat) (hr : r < 2 ^ 32) {k : Nat} {s : State P} (h : MemsetAt place seg d b m k s)
    (hecx : s.regs .ecx = BitVec.ofNat 32 r) :
    Reaches place memset (codeFrom memset .aligned) s fun s' => MemsetAt place seg d b m (k + r) s' := by
  refine reaches_words hr hecx fun t ht => memset_words ⟨⟨?_, ?_, ?_⟩, ?_⟩ ?_ ht.df ht.ecx ht.edx
  · rw [ht.ds, h.ds]
  · rw [ht.regs .edi (by decide) (by decide), h.edi]
  · rw [ht.mem]
    exact h.stored
  · rw [ht.regs .eax (by decide) (by decide)]
    exact h.eax
  · rw [ht.es, h.ds]

/-- The whole routine. -/
theorem memset_top (r : Nat) :
    ∀ {k : Nat} {s : State P}, MemsetAt place seg d b m k s → s.regs .ecx = BitVec.ofNat 32 r → r < 2 ^ 32 →
      Reaches place memset (codeFrom memset .top) s fun s' => MemsetAt place seg d b m (k + r) s' := by
  induction r with
  | zero =>
    intro k s h hecx _
    exact reaches_test_zero hecx (reaches_end (h.flags true false))
  | succ r ih =>
    intro k s h hecx hr
    refine reaches_test_succ hr hecx (reaches_step rfl ?_)
    -- the loop is left at the first address divisible by four, with `r + 1` bytes to go
    cases hedi : (s.regs .edi &&& 3 == 0) with
    | true =>
      exact reaches_jz hedi (memset_aligned (r + 1) hr ((h.flags true false).flags _ _) hecx)
    | false =>
      refine reaches_jz_not hedi (reaches_step rfl (reaches_step rfl (reaches_step rfl (reaches_jmp ?_))))
      rw [show k + (r + 1) = k + 1 + r by omega]
      refine ih (h.byte ?_ ?_ ?_ ?_) ?_ (by omega)
      · rfl
      · simp [State.flags]
      · simp [State.flags]
      · rfl
      · simpa [State.flags, hecx] using ofNat_succ_sub_one r

end Memset

theorem byte_fill (c : Word) {i : Nat} (hi : i < 4) :
    byte (let c := c &&& 0xFF; c <<< 24 ||| c <<< 16 ||| c <<< 8 ||| c) i = byte c 0 := by
  have hlow : ∀ j, ((0xFF : Word).getLsbD j) = decide (j < 8) := by
    intro j
    by_cases hj : j < 32
    · revert j
      decide
    · rw [BitVec.getLsbD_of_ge _ _ (by omega)]
      exact (decide_eq_false (by omega)).symm
  ext j hj
  rcases (show i = 0 ∨ i = 1 ∨ i = 2 ∨ i = 3 by omega) with rfl | rfl | rfl | rfl
  all_goals
    simp only [byte, BitVec.getElem_extractLsb', BitVec.getLsbD_or, BitVec.getLsbD_shiftLeft, BitVec.getLsbD_and,
      hlow]
    grind

/-- `memset`, for every alignment and length, and wherever the pages lie. -/
theorem memset_fills {P : Type} [DecidableEq P] (place : BitVec 16 → Word → P) (s c n : Word) (st : State P) :
    Reaches place memset (codeFrom memset .top) (memsetRegs s c n st) fun st' =>
      StoredRow st.mem st'.mem (row place st.ds s) (fun _ => byte c 0) n.toNat := by
  have hstart : MemsetAt place st.ds s (byte c 0) st.mem 0 (memsetRegs s c n st) := by
    refine ⟨⟨rfl, ?_, StoredRow.zero st.mem _ _⟩, fun i hi => ?_⟩
    · simp [memsetRegs]
    · rw [← byte_fill c hi]
      simp [memsetRegs]
  have hecx : (memsetRegs s c n st).regs .ecx = BitVec.ofNat 32 n.toNat := by
    simp [memsetRegs]
  refine (memset_top n.toNat hstart hecx n.isLt).mono fun st' h => ?_
  have hstored := h.stored
  rwa [Nat.zero_add] at hstored

/-! ## Rows that do not wrap -/

section Straight

variable {P : Type} {place : BitVec 16 → Word → P} {seg : BitVec 16} {d a : Word} {n : Nat}

/-- A row whose bytes lie in different places. -/
theorem storesAgree_row (hinj : Function.Injective (place seg)) (hn : n ≤ 2 ^ 32) (val : Nat → BitVec 8) :
    StoresAgree (row place seg d) val n := by
  intro i hi j hj hplace
  have hoff : d + BitVec.ofNat 32 i = d + BitVec.ofNat 32 j := hinj hplace
  have heq : i = j := by
    bv_omega
  rw [heq]

/-- The same places, counted from the end. -/
theorem row_eq_rowDown (place : BitVec 16 → Word → P) (seg : BitVec 16) (d : Word) {i : Nat} (hi : i < n) :
    row place seg d i = rowDown place seg (d + BitVec.ofNat 32 n - 1) (n - 1 - i) := by
  have hoff : d + BitVec.ofNat 32 n - 1 - BitVec.ofNat 32 (n - 1 - i) = d + BitVec.ofNat 32 i := by
    have hn : BitVec.ofNat 32 n = BitVec.ofNat 32 i + BitVec.ofNat 32 (n - 1 - i) + 1 := by
      rw [← BitVec.ofNat_add, show (1 : Word) = BitVec.ofNat 32 1 from rfl, ← BitVec.ofNat_add]
      congr 1
      omega
    rw [hn]
    generalize BitVec.ofNat 32 (n - 1 - i) = x
    generalize BitVec.ofNat 32 i = y
    bv_omega
  rw [rowDown, hoff]
  rfl

/-- Two bytes of rows that do not wrap lie in one place only if they are the same byte of memory. -/
theorem row_inj (hinj : Function.Injective (place seg)) (hd : d.toNat + n ≤ 2 ^ 32) (ha : a.toNat + n ≤ 2 ^ 32)
    {i j : Nat} (hi : i < n) (hj : j < n) (hplace : row place seg a i = row place seg d j) :
    a.toNat + i = d.toNat + j := by
  have hoff : a + BitVec.ofNat 32 i = d + BitVec.ofNat 32 j := hinj hplace
  bv_omega

/-- Going forward is safe where the destination does not begin inside the source. -/
theorem forwardSafe_row (hinj : Function.Injective (place seg)) (hd : d.toNat + n ≤ 2 ^ 32)
    (ha : a.toNat + n ≤ 2 ^ 32) (hle : d.toNat ≤ a.toNat ∨ a.toNat + n ≤ d.toNat) :
    ForwardSafe (row place seg d) (row place seg a) n := by
  intro j hj i hi hplace
  have haddr := row_inj hinj hd ha hj (show i < n by omega) hplace
  omega

/-- Going backward is safe where it does. -/
theorem forwardSafe_rowDown (hinj : Function.Injective (place seg)) (hd : d.toNat + n ≤ 2 ^ 32)
    (ha : a.toNat + n ≤ 2 ^ 32) (hle : a.toNat ≤ d.toNat) :
    ForwardSafe (rowDown place seg (d + BitVec.ofNat 32 n - 1)) (rowDown place seg (a + BitVec.ofNat 32 n - 1)) n := by
  intro j hj i hi hplace
  have hsrc := row_eq_rowDown place seg a (show n - 1 - j < n by omega)
  have hdst := row_eq_rowDown place seg d (show n - 1 - i < n by omega)
  rw [show n - 1 - (n - 1 - j) = j by omega] at hsrc
  rw [show n - 1 - (n - 1 - i) = i by omega] at hdst
  rw [← hsrc, ← hdst] at hplace
  have haddr := row_inj hinj hd ha (by omega) (by omega) hplace
  omega

theorem storesAgree_rowDown (hinj : Function.Injective (place seg)) (hn : n ≤ 2 ^ 32) (val : Nat → BitVec 8) :
    StoresAgree (rowDown place seg d) val n := by
  intro i hi j hj hplace
  have hoff : d - BitVec.ofNat 32 i = d - BitVec.ofNat 32 j := hinj hplace
  have heq : i = j := by
    bv_omega
  rw [heq]

end Straight

/-! ## `memcpy` -/

section Memcpy

variable {P : Type} [DecidableEq P] {place : BitVec 16 → Word → P} {seg : BitVec 16} {d a : Word}
  {m : P → BitVec 8} {n : Nat}

/-- The last bytes, at `.memcpy_bottom`: EDX of them. -/
theorem memcpy_bottom (hagree : StoresAgree (row place seg d) (fun i => m (row place seg a i)) n)
    (hsafe : ForwardSafe (row place seg d) (row place seg a) n) (r : Nat) :
    ∀ {k : Nat} {s : State P}, Copying place seg d a m k s → s.regs .edx = BitVec.ofNat 32 r → r < 4 →
      k + r ≤ n → Reaches place memcpy (codeFrom memcpy .bottom) s fun s' => Copying place seg d a m (k + r) s' := by
  induction r with
  | zero =>
    intro k s h hedx _ _
    exact reaches_test_zero hedx (reaches_end (h.flags true false))
  | succ r ih =>
    intro k s h hedx hlt hle
    refine reaches_test_succ (by omega) hedx (reaches_step rfl (reaches_step rfl (reaches_step rfl (reaches_step rfl
      (reaches_step rfl (reaches_jmp ?_))))))
    rw [show k + (r + 1) = k + 1 + r by omega]
    refine ih (h.byte hagree hsafe (by omega) ?_ ?_ ?_ ?_) ?_ (by omega) (by omega)
    · rfl
    · simp [State.flags]
    · simp [State.flags]
    · simp [State.flags]
    · simpa [State.flags, hedx] using ofNat_succ_sub_one r

/-- The words. -/
theorem memcpy_words (hagree : StoresAgree (row place seg d) (fun i => m (row place seg a i)) n)
    (hsafe : ForwardSafe (row place seg d) (row place seg a) n) {r k : Nat} {s : State P}
    (h : Copying place seg d a m k s) (hes : s.es = seg) (hdf : s.df = false)
    (hecx : (s.regs .ecx).toNat = r / 4) (hedx : s.regs .edx = BitVec.ofNat 32 (r % 4)) (hle : k + r ≤ n) :
    Reaches place memcpy (.repMovs 4 :: codeFrom memcpy .bottom) s fun s' => Copying place seg d a m (k + r) s' := by
  have hcopied := h.repMovs hagree hsafe 4 (r / 4) hes hdf (by omega)
  have hedx' := iterate_keeps (f := movsOnce place 4) (g := fun s => s.regs .edx) (movsOnce_edx place 4) (r / 4) s
  refine reaches_step rfl ?_
  rw [hecx, show k + r = k + 4 * (r / 4) + r % 4 by omega]
  exact memcpy_bottom hagree hsafe (r % 4) hcopied (hedx'.trans hedx) (by omega) (by omega)

/-- From `.memcpy_aligned` on. -/
theorem memcpy_aligned (hagree : StoresAgree (row place seg d) (fun i => m (row place seg a i)) n)
    (hsafe : ForwardSafe (row place seg d) (row place seg a) n) (r : Nat) (hr : r < 2 ^ 32) {k : Nat} {s : State P}
    (h : Copying place seg d a m k s) (hecx : s.regs .ecx = BitVec.ofNat 32 r) (hle : k + r ≤ n) :
    Reaches place memcpy (codeFrom memcpy .aligned) s fun s' => Copying place seg d a m (k + r) s' := by
  refine reaches_words hr hecx fun t ht =>
    memcpy_words hagree hsafe ⟨⟨?_, ?_, ?_⟩, ?_⟩ ?_ ht.df ht.ecx ht.edx hle
  · rw [ht.ds, h.ds]
  · rw [ht.regs .edi (by decide) (by decide), h.edi]
  · rw [ht.mem]
    exact h.stored
  · rw [ht.regs .esi (by decide) (by decide), h.esi]
  · rw [ht.es, h.ds]

/-- The whole routine. -/
theorem memcpy_top (hagree : StoresAgree (row place seg d) (fun i => m (row place seg a i)) n)
    (hsafe : ForwardSafe (row place seg d) (row place seg a) n) (r : Nat) :
    ∀ {k : Nat} {s : State P}, Copying place seg d a m k s → s.regs .ecx = BitVec.ofNat 32 r → r < 2 ^ 32 →
      k + r ≤ n → Reaches place memcpy (codeFrom memcpy .top) s fun s' => Copying place seg d a m (k + r) s' := by
  induction r with
  | zero =>
    intro k s h hecx _ _
    exact reaches_test_zero hecx (reaches_end (h.flags true false))
  | succ r ih =>
    intro k s h hecx hr hle
    refine reaches_test_succ hr hecx (reaches_step rfl ?_)
    -- the loop is left at the first address divisible by four, with `r + 1` bytes to go
    cases hedi : (s.regs .edi &&& 3 == 0) with
    | true =>
      exact reaches_jz hedi (memcpy_aligned hagree hsafe (r + 1) hr ((h.flags true false).flags _ _) hecx hle)
    | false =>
      refine reaches_jz_not hedi (reaches_step rfl (reaches_step rfl (reaches_step rfl (reaches_step rfl
        (reaches_step rfl (reaches_jmp ?_))))))
      rw [show k + (r + 1) = k + 1 + r by omega]
      refine ih (h.byte hagree hsafe (by omega) ?_ ?_ ?_ ?_) ?_ (by omega) (by omega)
      · rfl
      · simp [State.flags]
      · simp [State.flags]
      · simp [State.flags]
      · simpa [State.flags, hecx] using ofNat_succ_sub_one r

end Memcpy

/-- Of the bytes read none has been stored over: they are those that stood there before. -/
theorem memcpy_copied {P : Type} [DecidableEq P] (place : BitVec 16 → Word → P) (dest src n : Word) (st : State P)
    (hagree : StoresAgree (row place st.ds dest) (fun i => st.mem (row place st.ds src i)) n.toNat)
    (hsafe : ForwardSafe (row place st.ds dest) (row place st.ds src) n.toNat) :
    Reaches place memcpy (codeFrom memcpy .top) (memcpyRegs dest src n st) fun st' =>
      StoredRow st.mem st'.mem (row place st.ds dest) (fun i => st.mem (row place st.ds src i)) n.toNat := by
  have hstart : Copying place st.ds dest src st.mem 0 (memcpyRegs dest src n st) := by
    refine ⟨⟨rfl, ?_, StoredRow.zero st.mem _ _⟩, ?_⟩
    · simp [memcpyRegs]
    · simp [memcpyRegs]
  have hecx : (memcpyRegs dest src n st).regs .ecx = BitVec.ofNat 32 n.toNat := by
    simp [memcpyRegs]
  refine (memcpy_top hagree hsafe n.toNat hstart hecx n.isLt (by omega)).mono fun st' h => ?_
  have hstored := h.stored
  rwa [Nat.zero_add] at hstored

/-- `memcpy`, for every alignment and length, and all rows of bytes that do not wrap: the destination may
    overlap the source from in front. -/
theorem memcpy_copies {P : Type} [DecidableEq P] (place : BitVec 16 → Word → P) (dest src n : Word) (st : State P)
    (hinj : Function.Injective (place st.ds)) (hdest : dest.toNat + n.toNat ≤ 2 ^ 32)
    (hsrc : src.toNat + n.toNat ≤ 2 ^ 32)
    (hapart : dest.toNat ≤ src.toNat ∨ src.toNat + n.toNat ≤ dest.toNat) :
    Reaches place memcpy (codeFrom memcpy .top) (memcpyRegs dest src n st) fun st' =>
      StoredRow st.mem st'.mem (row place st.ds dest) (fun i => st.mem (row place st.ds src i)) n.toNat :=
  memcpy_copied place dest src n st (storesAgree_row hinj (by omega) _) (forwardSafe_row hinj hdest hsrc hapart)

/-- Memory where every address is a place of its own, with the direction flag set. -/
def flatState : State Word :=
  { regs := fun _ => 0, ds := 0x18, es := 0, zf := false, cf := false, df := true, mem := fun a => a.setWidth 8 }

/-- Ten bytes, to an address that is not divisible by four and three bytes in front of them. -/
theorem memcpy_copies_ten :
    Reaches (fun _ a => a) memcpy (codeFrom memcpy .top) (memcpyRegs 0x1001 0x1004 10 flatState) fun st' =>
      StoredRow flatState.mem st'.mem (row (fun _ a => a) 0x18 0x1001)
        (fun i => flatState.mem (row (fun _ a => a) 0x18 0x1004 i)) 10 :=
  memcpy_copies (fun _ a => a) 0x1001 0x1004 10 flatState (fun _ _ h => h) (by decide) (by decide)
    (Or.inl (by decide))

/-! ### The pages of `switch_terminal` -/

/-- The frame and the offset that an address below 4 MB leads to. -/
def consolePlace (con : Console) (_seg : BitVec 16) (a : Word) : Int × Int :=
  (con.pageTable (a.toNat / 4096 : Nat), (a.toNat % 4096 : Nat))

/-- The bytes that stand there. -/
def consoleMemory (con : Console) (p : Int × Int) : BitVec 8 := (con.phys p.1 p.2).toBitVec

theorem row_page (con : Console) (seg : BitVec 16) {page i : Nat} (hpage : page < 2 ^ 20) (hi : i < 4096) :
    row (consolePlace con) seg (BitVec.ofNat 32 (4096 * page)) i = (con.pageTable (page : Nat), (i : Int)) := by
  have haddr : (BitVec.ofNat 32 (4096 * page) + BitVec.ofNat 32 i).toNat = 4096 * page + i := by
    rw [← BitVec.ofNat_add, BitVec.toNat_ofNat, Nat.mod_eq_of_lt (by omega)]
  unfold row consolePlace
  rw [haddr, show (4096 * page + i) / 4096 = page by omega, show (4096 * page + i) % 4096 = i by omega]

/-- `memcpy` of a page, whatever frames the two pages are mapped to, is what `switch_terminal` is
    taken to do: the 4096 bytes of the one frame become those of the other. -/
theorem memcpy_page (con : Console) {dest src : Nat} (hdest : dest < 2 ^ 20) (hsrc : src < 2 ^ 20)
    (st : State (Int × Int)) (hmem : st.mem = consoleMemory con) :
    Reaches (consolePlace con) memcpy (codeFrom memcpy .top)
      (memcpyRegs (BitVec.ofNat 32 (4096 * dest)) (BitVec.ofNat 32 (4096 * src)) 4096 st) fun st' =>
        ∀ frame off : Int, 0 ≤ off → off < 4096 →
          st'.mem (frame, off) = consoleMemory (copyPage dest src con) (frame, off) := by
  have hagree : StoresAgree (row (consolePlace con) st.ds (BitVec.ofNat 32 (4096 * dest)))
      (fun i => st.mem (row (consolePlace con) st.ds (BitVec.ofNat 32 (4096 * src)) i)) (4096 : Word).toNat := by
    intro i hi j hj hplace
    rw [row_page con st.ds hdest hi, row_page con st.ds hdest hj] at hplace
    -- the offsets tell the bytes apart, whatever the frame
    have heq : i = j := Int.natCast_inj.mp (congrArg Prod.snd hplace)
    rw [heq]
  have hsafe : ForwardSafe (row (consolePlace con) st.ds (BitVec.ofNat 32 (4096 * dest)))
      (row (consolePlace con) st.ds (BitVec.ofNat 32 (4096 * src))) (4096 : Word).toNat := by
    intro j hj i hi hplace
    have hj' : j < 4096 := hj
    rw [row_page con st.ds hsrc hj', row_page con st.ds hdest (by omega)] at hplace
    have heq : j = i := Int.natCast_inj.mp (congrArg Prod.snd hplace)
    omega
  refine (memcpy_copied (consolePlace con) _ _ 4096 st hagree hsafe).mono fun st' h frame off h0 hlt => ?_
  obtain ⟨i, rfl⟩ : ∃ i : Nat, off = i := ⟨off.toNat, by omega⟩
  have hi : i < 4096 := by omega
  -- of the frames, only the one that the destination is mapped to has changed
  by_cases hframe : frame = con.pageTable (dest : Nat)
  · have hstored := h.stored i hi
    rw [row_page con st.ds hdest hi, row_page con st.ds hsrc hi, hmem] at hstored
    rw [hframe, hstored]
    show _ = (Function.update con.phys _ _ _ _).toBitVec
    rw [Function.update_self]
    rfl
  · have hother := h.frame (frame, (i : Int)) fun j hj heq => by
      rw [row_page con st.ds hdest hj] at heq
      exact hframe (congrArg Prod.fst heq)
    rw [hother, hmem]
    show _ = (Function.update con.phys _ _ _ _).toBitVec
    rw [Function.update_of_ne hframe]
    rfl

/-- A processor in front of this console's memory. -/
def consoleState (con : Console) : State (Int × Int) :=
  { regs := fun _ => 0, ds := 0x18, es := 0, zf := false, cf := false, df := true, mem := consoleMemory con }

@[simp] theorem consoleState_mem (con : Console) : (consoleState con).mem = consoleMemory con := rfl

/-- The screen after boot, saved to the page of terminal 0. -/
theorem memcpy_page_backup :
    Reaches (consolePlace (initialConsole blankMemory)) memcpy (codeFrom memcpy .top)
      (memcpyRegs (BitVec.ofNat 32 (4096 * 0xB9)) (BitVec.ofNat 32 (4096 * 0xB8)) 4096
        (consoleState (initialConsole blankMemory))) fun st' =>
      ∀ frame off : Int, 0 ≤ off → off < 4096 →
        st'.mem (frame, off) =
          consoleMemory (copyPage (0xB9 : Nat) (0xB8 : Nat) (initialConsole blankMemory)) (frame, off) :=
  memcpy_page (initialConsole blankMemory) (by decide) (by decide) (consoleState (initialConsole blankMemory))
    (consoleState_mem _)

/-! ## `memmove` -/

section Memmove

variable {P : Type} {place : BitVec 16 → Word → P} {seg : BitVec 16} {d a : Word} {n : Nat}
variable [DecidableEq P] {m : P → BitVec 8} {s : State P}

/-- `rep movsb` with the direction flag clear. -/
theorem memmove_forward (h : Copying place seg d a m 0 s) (hes : s.es = seg) (hdf : s.df = false)
    (hecx : (s.regs .ecx).toNat = n) (hinj : Function.Injective (place seg)) (hd : d.toNat + n ≤ 2 ^ 32)
    (ha : a.toNat + n ≤ 2 ^ 32) (hle : d.toNat ≤ a.toNat) :
    Reaches place memmove (codeFrom memmove .go) s fun s' =>
      StoredRow m s'.mem (row place seg d) (fun i => m (row place seg a i)) n ∧ s'.df = false := by
  have hcopied := h.repMovs (storesAgree_row hinj (by omega) _) (forwardSafe_row hinj hd ha (Or.inl hle)) 1 n hes hdf
    (by omega)
  have hdf' := iterate_keeps (f := movsOnce place 1) (g := State.df) (movsOnce_df place 1) n s
  have hstored := hcopied.stored
  rw [Nat.zero_add, Nat.one_mul] at hstored
  refine reaches_step rfl (reaches_end ?_)
  rw [hecx]
  exact ⟨hstored, hdf'.trans hdf⟩

/-- `rep movsb` with the direction flag set, from the last byte on. -/
theorem memmove_backward (h : CopyingDown place seg (d + BitVec.ofNat 32 n - 1) (a + BitVec.ofNat 32 n - 1) m 0 s)
    (hds : s.ds = seg) (hes : s.es = seg) (hdf : s.df = true) (hecx : (s.regs .ecx).toNat = n)
    (hinj : Function.Injective (place seg)) (hd : d.toNat + n ≤ 2 ^ 32) (ha : a.toNat + n ≤ 2 ^ 32)
    (hle : a.toNat ≤ d.toNat) :
    Reaches place memmove (codeFrom memmove .go) s fun s' =>
      StoredRow m s'.mem (row place seg d) (fun i => m (row place seg a i)) n ∧ s'.df = true := by
  -- the last byte is the first of the row that goes down
  have hcopied := CopyingDown.repMovs (storesAgree_rowDown hinj (by omega) _) (forwardSafe_rowDown hinj hd ha hle) n h
    hds hes hdf (by omega)
  have hdf' := iterate_keeps (f := movsOnce place 1) (g := State.df) (movsOnce_df place 1) n s
  have hstored := hcopied.stored
  rw [Nat.zero_add] at hstored
  have hforward := hstored.reverse (fun i hi => row_eq_rowDown place seg d hi) fun i hi =>
    congrArg m (row_eq_rowDown place seg a hi)
  refine reaches_step rfl (reaches_end ?_)
  rw [hecx]
  exact ⟨hforward, hdf'.trans hdf⟩

end Memmove

/-- `memmove`, for every length and all rows of bytes that do not wrap, also where they overlap.  The
    direction flag stays set where it went from the end to the front. -/
theorem memmove_moves {P : Type} [DecidableEq P] (place : BitVec 16 → Word → P) (dest src n : Word) (st : State P)
    (hinj : Function.Injective (place st.ds)) (hdest : dest.toNat + n.toNat ≤ 2 ^ 32)
    (hsrc : src.toNat + n.toNat ≤ 2 ^ 32) :
    Reaches place memmove (codeFrom memmove .top) (memcpyRegs dest src n st) fun st' =>
      StoredRow st.mem st'.mem (row place st.ds dest) (fun i => st.mem (row place st.ds src i)) n.toNat ∧
        st'.df = src.ult dest := by
  have hes : ((((memcpyRegs dest src n st).set .edx
      (((memcpyRegs dest src n st).regs .edx).extractLsb' 16 16 ++ st.ds)).regs .edx).extractLsb' 0 16) = st.ds := by
    rw [State.set_self]
    exact es_of_ds _ st.ds
  refine reaches_step rfl (reaches_step rfl (reaches_step rfl (reaches_step rfl ?_)))
  -- `jae` looks at the borrow of `src - dest`
  cases hbehind : src.ult dest with
  | false =>
    have hle : dest.toNat ≤ src.toNat := by
      rw [BitVec.ult, decide_eq_false_iff_not] at hbehind
      omega
    refine reaches_jae ?_
      (memmove_forward ⟨⟨rfl, ?_, StoredRow.zero st.mem _ _⟩, ?_⟩ hes rfl ?_ hinj hdest hsrc hle)
    · simpa [State.flags, memcpyRegs] using hbehind
    · simp [State.flags, memcpyRegs]
    · simp [State.flags, memcpyRegs]
    · simp [State.flags, memcpyRegs]
  | true =>
    have hle : src.toNat ≤ dest.toNat := by
      rw [BitVec.ult, decide_eq_true_iff] at hbehind
      omega
    refine reaches_jae_not ?_ (reaches_step rfl (reaches_step rfl (reaches_step rfl
      (memmove_backward ⟨?_, ?_, StoredRow.zero st.mem _ _⟩ rfl hes rfl ?_ hinj hdest hsrc hle))))
    · simpa [State.flags, memcpyRegs] using hbehind
    · simp [State.flags, memcpyRegs]
    · simp [State.flags, memcpyRegs]
    · simp [State.flags, memcpyRegs]

/-- Ten bytes, three bytes further on. -/
theorem memmove_moves_ten :
    Reaches (fun _ a => a) memmove (codeFrom memmove .top) (memcpyRegs 0x1004 0x1001 10 flatState) fun st' =>
      StoredRow flatState.mem st'.mem (row (fun _ a => a) 0x18 0x1004)
        (fun i => flatState.mem (row (fun _ a => a) 0x18 0x1001 i)) 10 ∧ st'.df = true :=
  memmove_moves (fun _ a => a) 0x1004 0x1001 10 flatState (fun _ _ h => h) (by decide) (by decide)

end ByteVerse
