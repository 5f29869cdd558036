/-
  Address translation by the two-level page tables of a 32-bit IA-32 processor (without PAE).

  CR3 names the directory, a page of 1024 words in physical memory.  An entry of it maps 4 MB at once
  or names a table of 1024 words more, each of which maps 4 KB.  `translateAddr` is what the processor
  makes of a linear address: a physical address, or `none` for a page fault.

  The processor also writes the tables: it marks the entries it has used as accessed, and as dirty
  after a store (`mark`).  The bits it sets are not among those it reads (`mark_sameEntries`).

  It caches what it has found, and it does not look at the tables again while a mapping is cached.  The
  cache goes unseen as long as it is coherent (`Coherent.lookup_eq`); a store to the tables has to be
  followed by a load of CR3 for that, which empties it unless there are global mappings.
-/
import Mathlib.Logic.Function.Basic
import ByteVerse.BitFields
import ByteVerse.Words

namespace ByteVerse.Mmu

open Words BitFields

inductive Mode
  | supervisor | user
  deriving DecidableEq

inductive AccessKind
  | read | write
  deriving DecidableEq

structure Control where
  cr0 : Word
  cr3 : Word
  cr4 : Word

/-- Bit 31 of CR0: paging is on. -/
def Control.pg (c : Control) : Bool := c.cr0.getLsbD 31

/-- Bit 16 of CR0: read-only pages are read-only for the supervisor too. -/
def Control.wp (c : Control) : Bool := c.cr0.getLsbD 16

/-- Bit 4 of CR4: directory entries can map 4 MB. -/
def Control.pse (c : Control) : Bool := c.cr4.getLsbD 4

/-- Bit 7 of CR4: global mappings survive a load of CR3. -/
def Control.pge (c : Control) : Bool := c.cr4.getLsbD 7

/-! ## Entries -/

@[simp] def present : BitField := ⟨0, 1⟩
@[simp] def readWrite : BitField := ⟨1, 1⟩
@[simp] def userBit : BitField := ⟨2, 1⟩
@[simp] def accessedBit : BitField := ⟨5, 1⟩
@[simp] def dirtyBit : BitField := ⟨6, 1⟩
/-- In a directory entry: it maps 4 MB. -/
@[simp] def pageSize : BitField := ⟨7, 1⟩
@[simp] def globalBit : BitField := ⟨8, 1⟩
/-- The page or table an entry names, by its number among the pages of 4 KB. -/
@[simp] def frame : BitField := ⟨12, 20⟩
/-- The page a directory entry of 4 MB names: bits 32 to 39 of its address, a bit that must be zero,
    and bits 22 to 31 of its address. -/
@[simp] def highAddr : BitField := ⟨13, 8⟩
@[simp] def reserved : BitField := ⟨21, 1⟩
@[simp] def bigFrame : BitField := ⟨22, 10⟩

/-- Where entry `i` of the directory or table in page number `n` lies. -/
def entryAddr (n i : Nat) : Word := BitVec.ofNat 32 (4096 * n + 4 * i)

def dirIndex (a : Word) : Nat := a.toNat / 2 ^ 22

def tableIndex (a : Word) : Nat := a.toNat / 2 ^ 12 % 1024

/-- Where the directory entry for an address lies. -/
def pdeAddr (c : Control) (a : Word) : Word := entryAddr (c.cr3.toNat / 4096) (dirIndex a)

/-- Where the table entry for an address lies, given the directory entry. -/
def pteAddr (pde a : Word) : Word := entryAddr (frame.get pde) (tableIndex a)

/-! ## Translation -/

/-- What the tables say of a page: where it is mapped, and for whom. -/
structure Mapping where
  page : Nat
  isUser : Bool
  isRw : Bool
  isGlobal : Bool
  deriving DecidableEq

/-- The access is one that a mapping with these bits admits. -/
def permits (c : Control) (mode : Mode) (access : AccessKind) (isUser isRw : Bool) : Bool :=
  match mode, access with
  | .user, .read => isUser
  | .user, .write => isUser && isRw
  | .supervisor, .read => true
  | .supervisor, .write => isRw || !c.wp

/-- The directory entry maps 4 MB. -/
def Control.big (c : Control) (pde : Word) : Bool := c.pse && pageSize.get pde == 1

/-- The mapping of an address by a directory entry of 4 MB. -/
def bigMapping (pde a : Word) : Mapping :=
  { page := 2 ^ 20 * highAddr.get pde + 2 ^ 10 * bigFrame.get pde + tableIndex a
    isUser := userBit.get pde == 1
    isRw := readWrite.get pde == 1
    isGlobal := globalBit.get pde == 1 }

/-- The mapping by a directory entry and the table entry behind it. -/
def smallMapping (pde pte : Word) : Mapping :=
  { page := frame.get pte
    isUser := userBit.get pde == 1 && userBit.get pte == 1
    isRw := readWrite.get pde == 1 && readWrite.get pte == 1
    isGlobal := globalBit.get pte == 1 }

/-- What the processor finds in the tables for an address. -/
def walk (c : Control) (m : Memory) (a : Word) : Option Mapping :=
  let pde := readWord m (pdeAddr c a)
  if present.get pde = 1 then
    if c.big pde then
      if reserved.get pde = 0 then some (bigMapping pde a) else none
    else
      let pte := readWord m (pteAddr pde a)
      if present.get pte = 1 then some (smallMapping pde pte) else none
  else none

/-- The physical address that a mapping gives to an access. -/
def resolve (c : Control) (mode : Mode) (access : AccessKind) (a : Word) (e : Mapping) : Option Nat :=
  if permits c mode access e.isUser e.isRw then some (2 ^ 12 * e.page + a.toNat % 2 ^ 12) else none

/-- The translation that the tables define. -/
def translateAddr (c : Control) (m : Memory) (mode : Mode) (access : AccessKind) (a : Word) : Option Nat :=
  if c.pg then (walk c m a).bind (resolve c mode access a) else some a.toNat

section Rules

variable {c : Control} {m m' : Memory} {mode : Mode} {access : AccessKind} {a b : Word}

/-- A directory entry that maps 4 MB, from page `2 ^ 10 * n` on. -/
structure MapsBig (c : Control) (pde : Word) (isUser : Bool) (n : Nat) : Prop where
  present : present.get pde = 1
  big : c.big pde = true
  user : (userBit.get pde == 1) = isUser
  readWrite : readWrite.get pde = 1
  high : highAddr.get pde = 0
  reserved : reserved.get pde = 0
  frame : bigFrame.get pde = n

/-- A directory entry that names the table in page `n`. -/
structure NamesTable (c : Control) (pde : Word) (isUser : Bool) (n : Nat) : Prop where
  present : present.get pde = 1
  big : c.big pde = false
  user : (userBit.get pde == 1) = isUser
  readWrite : readWrite.get pde = 1
  frame : frame.get pde = n

/-- A table entry that maps page `n`. -/
structure MapsSmall (pte : Word) (isUser : Bool) (n : Nat) : Prop where
  present : present.get pte = 1
  user : (userBit.get pte == 1) = isUser
  readWrite : readWrite.get pte = 1
  frame : frame.get pte = n

/-- A writable mapping of a page. -/
structure Mapping.To (e : Mapping) (isUser : Bool) (n : Nat) : Prop where
  page : e.page = n
  user : e.isUser = isUser
  readWrite : e.isRw = true

/-- The modes that get through a writable mapping. -/
def admits (mode : Mode) (isUser : Bool) : Bool :=
  match mode with
  | .supervisor => true
  | .user => isUser

theorem permits_readWrite (c : Control) (mode : Mode) (access : AccessKind) (isUser : Bool) :
    permits c mode access isUser true = admits mode isUser := by
  cases mode <;> cases access <;> simp [permits, admits]

theorem Mapping.To.resolve_eq {e : Mapping} {isUser : Bool} {n : Nat} (h : e.To isUser n) :
    resolve c mode access a e =
      if admits mode isUser then some (2 ^ 12 * n + a.toNat % 2 ^ 12) else none := by
  rw [resolve, h.page, h.user, h.readWrite, permits_readWrite]

theorem walk_unmapped (h : present.get (readWord m (pdeAddr c a)) ≠ 1) : walk c m a = none := if_neg h

theorem walk_big {isUser : Bool} {n : Nat} (h : MapsBig c (readWord m (pdeAddr c a)) isUser n) :
    ∃ e, walk c m a = some e ∧ e.To isUser (2 ^ 10 * n + tableIndex a) := by
  refine ⟨bigMapping (readWord m (pdeAddr c a)) a, ?_, ?_⟩
  · simp only [walk, if_pos h.present, if_pos h.big, if_pos h.reserved]
  · refine ⟨?_, h.user, ?_⟩
    · simp only [bigMapping, h.high, h.frame, Nat.mul_zero, Nat.zero_add]
    · simp only [bigMapping, h.readWrite, beq_self_eq_true]

theorem NamesTable.pteAddr_eq {pde : Word} {isUser : Bool} {n : Nat} (h : NamesTable c pde isUser n)
    (a : Word) : pteAddr pde a = entryAddr n (tableIndex a) := by
  rw [pteAddr, h.frame]

theorem walk_small {isUser : Bool} {n n' : Nat}
    (hdir : NamesTable c (readWord m (pdeAddr c a)) isUser n)
    (h : MapsSmall (readWord m (entryAddr n (tableIndex a))) isUser n') :
    ∃ e, walk c m a = some e ∧ e.To isUser n' := by
  refine ⟨smallMapping (readWord m (pdeAddr c a)) (readWord m (entryAddr n (tableIndex a))), ?_, ?_⟩
  · simp only [walk, if_pos hdir.present, hdir.big, Bool.false_eq_true, if_false, hdir.pteAddr_eq,
      if_pos h.present]
  · refine ⟨h.frame, ?_, ?_⟩
    · simp only [smallMapping, hdir.user, h.user, Bool.and_self]
    · simp only [smallMapping, hdir.readWrite, h.readWrite, beq_self_eq_true, Bool.and_self]

theorem walk_absent {isUser : Bool} {n : Nat}
    (hdir : NamesTable c (readWord m (pdeAddr c a)) isUser n)
    (h : present.get (readWord m (entryAddr n (tableIndex a))) ≠ 1) : walk c m a = none := by
  simp only [walk, if_pos hdir.present, hdir.big, Bool.false_eq_true, if_false, hdir.pteAddr_eq,
    if_neg h]

/-- The number of the page an address lies on. -/
def pageOf (a : Word) : Nat := a.toNat / 2 ^ 12

/-- Addresses of one page have one mapping. -/
theorem walk_congr (c : Control) (m : Memory) (h : pageOf b = pageOf a) : walk c m b = walk c m a := by
  simp only [pageOf] at h
  have htable : tableIndex b = tableIndex a := by
    simp only [tableIndex, h]
  have hdir : pdeAddr c b = pdeAddr c a := by
    simp only [pdeAddr, dirIndex]
    congr 1
    omega
  have hpte : ∀ pde, pteAddr pde b = pteAddr pde a := by
    intro pde
    rw [pteAddr, pteAddr, htable]
  have hbig : ∀ pde, bigMapping pde b = bigMapping pde a := by
    intro pde
    rw [bigMapping, bigMapping, htable]
  simp only [walk, hdir, hpte, hbig]

/-! ## What the processor writes to the tables -/

/-- An entry after an access through it that ends there. -/
def markEntry (access : AccessKind) (e : Word) : Word :=
  match access with
  | .read => accessedBit.put 1 e
  | .write => dirtyBit.put 1 (accessedBit.put 1 e)

/-- The memory after an access to an address that has a translation. -/
def mark (c : Control) (m : Memory) (access : AccessKind) (a : Word) : Memory :=
  let pde := readWord m (pdeAddr c a)
  if c.big pde then writeWord m (pdeAddr c a) (markEntry access pde)
  else
    let m := writeWord m (pdeAddr c a) (accessedBit.put 1 pde)
    writeWord m (pteAddr pde a) (markEntry access (readWord m (pteAddr pde a)))

/-- The fields that the processor does not write. -/
def Unmarked (f : BitField) : Prop := f.Within 32 ∧ f.Apart accessedBit ∧ f.Apart dirtyBit

instance (f : BitField) : Decidable (Unmarked f) := inferInstanceAs (Decidable (_ ∧ _))

/-- Memories whose aligned words agree in the fields that the processor does not write. -/
def SameEntries (m m' : Memory) : Prop :=
  ∀ f, Unmarked f → ∀ a : Word, a.toNat % 4 = 0 → f.get (readWord m' a) = f.get (readWord m a)

theorem SameEntries.trans {m'' : Memory} (h : SameEntries m m') (h' : SameEntries m' m'') :
    SameEntries m m'' := fun f hf a ha => (h' f hf a ha).trans (h f hf a ha)

theorem entryAddr_aligned (n i : Nat) : (entryAddr n i).toNat % 4 = 0 := by
  rw [entryAddr, BitVec.toNat_ofNat]
  omega

theorem readWord_writeWord_of_aligned {b : Word} (w : Word) (ha : a.toNat % 4 = 0)
    (hb : b.toNat % 4 = 0) (hne : b ≠ a) : readWord (writeWord m a w) b = readWord m b := by
  have hbyte : ∀ i : Nat, i < 4 → writeWord m a w (b + BitVec.ofNat 32 i) = m (b + BitVec.ofNat 32 i) := by
    intro i hi
    refine writeWord_of_outside w ?_
    have hne' : b.toNat ≠ a.toNat := fun h => hne (BitVec.eq_of_toNat_eq h)
    bv_omega
  have h0 : writeWord m a w b = m b := by simpa using hbyte 0 (by omega)
  have h1 : writeWord m a w (b + 1) = m (b + 1) := hbyte 1 (by omega)
  have h2 : writeWord m a w (b + 2) = m (b + 2) := hbyte 2 (by omega)
  have h3 : writeWord m a w (b + 3) = m (b + 3) := hbyte 3 (by omega)
  rw [readWord, readWord, h0, h1, h2, h3]

theorem sameEntries_write {w : Word} (ha : a.toNat % 4 = 0)
    (h : ∀ f, Unmarked f → f.get w = f.get (readWord m a)) : SameEntries m (writeWord m a w) := by
  intro f hf b hb
  by_cases hba : b = a
  · subst hba
    rw [readWord_writeWord]
    exact h f hf
  · rw [readWord_writeWord_of_aligned w ha hb hba]

theorem get_accessed (f : BitField) (hf : Unmarked f) (e : Word) :
    f.get (accessedBit.put 1 e) = f.get e :=
  get_put_of_apart 1 e hf.1 hf.2.1

theorem get_markEntry (f : BitField) (hf : Unmarked f) (access : AccessKind) (e : Word) :
    f.get (markEntry access e) = f.get e := by
  cases access
  · exact get_accessed f hf e
  · exact (get_put_of_apart 1 _ hf.1 hf.2.2).trans (get_accessed f hf e)

theorem mark_sameEntries (c : Control) (m : Memory) (access : AccessKind) (a : Word) :
    SameEntries m (mark c m access a) := by
  have hdir : (pdeAddr c a).toNat % 4 = 0 := entryAddr_aligned _ _
  unfold mark
  simp only
  split
  · exact sameEntries_write hdir fun f hf => get_markEntry f hf access _
  · refine (sameEntries_write hdir fun f hf => get_accessed f hf _).trans ?_
    exact sameEntries_write (entryAddr_aligned _ _) fun f hf => get_markEntry f hf access _

/-- What the tables say depends on the fields that the processor does not write. -/
theorem SameEntries.walk_eq (h : SameEntries m m') (c : Control) (a : Word) :
    walk c m' a = walk c m a := by
  have hget : ∀ (f : BitField) (n i : Nat), Unmarked f →
      f.get (readWord m' (entryAddr n i)) = f.get (readWord m (entryAddr n i)) :=
    fun f n i hf => h f hf _ (entryAddr_aligned n i)
  have hdir : ∀ f : BitField, Unmarked f →
      f.get (readWord m' (pdeAddr c a)) = f.get (readWord m (pdeAddr c a)) := fun f => hget f _ _
  have hpte : pteAddr (readWord m' (pdeAddr c a)) a = pteAddr (readWord m (pdeAddr c a)) a := by
    rw [pteAddr, pteAddr, hdir frame (by decide)]
  have htable : ∀ f : BitField, Unmarked f →
      f.get (readWord m' (pteAddr (readWord m (pdeAddr c a)) a)) =
        f.get (readWord m (pteAddr (readWord m (pdeAddr c a)) a)) := fun f => hget f _ _
  have hbig : c.big (readWord m' (pdeAddr c a)) = c.big (readWord m (pdeAddr c a)) := by
    rw [Control.big, Control.big, hdir pageSize (by decide)]
  have hmapping : bigMapping (readWord m' (pdeAddr c a)) a = bigMapping (readWord m (pdeAddr c a)) a := by
    simp only [bigMapping, hdir userBit (by decide), hdir readWrite (by decide),
      hdir globalBit (by decide), hdir highAddr (by decide), hdir bigFrame (by decide)]
  have hsmall : smallMapping (readWord m' (pdeAddr c a))
        (readWord m' (pteAddr (readWord m (pdeAddr c a)) a)) =
      smallMapping (readWord m (pdeAddr c a)) (readWord m (pteAddr (readWord m (pdeAddr c a)) a)) := by
    simp only [smallMapping, hdir userBit (by decide), hdir readWrite (by decide),
      htable userBit (by decide), htable readWrite (by decide), htable globalBit (by decide),
      htable frame (by decide)]
  simp only [walk, hdir present (by decide), hbig, hdir reserved (by decide), hmapping, hpte,
    htable present (by decide), hsmall]

/-- An access writes the entries for its address and nothing else. -/
theorem mark_of_outside {x : Word} (hdir : ¬ (x - pdeAddr c a).toNat < 4)
    (htable : c.big (readWord m (pdeAddr c a)) = false →
      ¬ (x - pteAddr (readWord m (pdeAddr c a)) a).toNat < 4) :
    mark c m access a x = m x := by
  unfold mark
  simp only
  split
  · exact writeWord_of_outside _ hdir
  · rename_i hbig
    rw [writeWord_of_outside _ (htable (by simpa using hbig)), writeWord_of_outside _ hdir]

end Rules

/-! ## Entries one by one -/

section Entries

variable {m : Memory} {n n' i i' : Nat}

def readEntry (m : Memory) (n i : Nat) : Word := readWord m (entryAddr n i)

/-- The entry is replaced by what `f` makes of it. -/
def modifyEntry (n i : Nat) (f : Word → Word) (m : Memory) : Memory :=
  writeWord m (entryAddr n i) (f (readEntry m n i))

/-- A loop over the entries of a table. -/
def forEntries (n : Nat) (body : Nat → Word → Word) (m : Memory) : Memory :=
  (List.range 1024).foldl (fun m i => modifyEntry n i (body i) m) m

theorem toNat_entryAddr (hn : n < 2 ^ 20) (hi : i < 1024) :
    (entryAddr n i).toNat = 4096 * n + 4 * i := by
  rw [entryAddr, BitVec.toNat_ofNat]
  omega

theorem entryAddr_ne (hn : n < 2 ^ 20) (hn' : n' < 2 ^ 20) (hi : i < 1024) (hi' : i' < 1024)
    (hne : n' ≠ n ∨ i' ≠ i) : entryAddr n' i' ≠ entryAddr n i := by
  intro heq
  have h := congrArg BitVec.toNat heq
  rw [toNat_entryAddr hn hi, toNat_entryAddr hn' hi'] at h
  omega

theorem readEntry_modifyEntry_self (m : Memory) (n i : Nat) (f : Word → Word) :
    readEntry (modifyEntry n i f m) n i = f (readEntry m n i) := readWord_writeWord m _ _

theorem readEntry_modifyEntry_of_ne (f : Word → Word) (hn : n < 2 ^ 20) (hn' : n' < 2 ^ 20)
    (hi : i < 1024) (hi' : i' < 1024) (hne : n' ≠ n ∨ i' ≠ i) :
    readEntry (modifyEntry n i f m) n' i' = readEntry m n' i' :=
  readWord_writeWord_of_aligned _ (entryAddr_aligned n i) (entryAddr_aligned n' i')
    (entryAddr_ne hn hn' hi hi' hne)

/-- The first rounds of a loop over the entries. -/
theorem readEntry_rounds (body : Nat → Word → Word) (hn : n < 2 ^ 20) (hn' : n' < 2 ^ 20)
    (hi : i < 1024) {k : Nat} (hk : k ≤ 1024) :
    readEntry ((List.range k).foldl (fun m i => modifyEntry n i (body i) m) m) n' i =
      if n' = n ∧ i < k then body i (readEntry m n i) else readEntry m n' i := by
  induction k with
  | zero => simp
  | succ k ih =>
    rw [List.range_succ, List.foldl_append, List.foldl_cons, List.foldl_nil]
    by_cases hat : n' = n ∧ i = k
    · obtain ⟨rfl, rfl⟩ := hat
      rw [readEntry_modifyEntry_self, ih (by omega), if_neg (by omega), if_pos (by omega)]
    · rw [readEntry_modifyEntry_of_ne (body k) hn hn' (by omega) hi (by omega), ih (by omega)]
      by_cases hdone : n' = n ∧ i < k
      · rw [if_pos hdone, if_pos (by omega)]
      · rw [if_neg hdone, if_neg (by omega)]

/-- **A loop over a table** does its body to each of its entries, and leaves the other tables. -/
theorem readEntry_forEntries (body : Nat → Word → Word) (hn : n < 2 ^ 20) (hn' : n' < 2 ^ 20)
    (hi : i < 1024) :
    readEntry (forEntries n body m) n' i =
      if n' = n then body i (readEntry m n i) else readEntry m n' i := by
  rw [forEntries, readEntry_rounds body hn hn' hi (Nat.le_refl 1024)]
  simp only [hi, and_true]

end Entries

/-! ## Bytes apart from the entries -/

section Bytes

variable {c : Control} {m m' : Memory} {n i : Nat} {x : Word}

theorem entryAddr_outside (hn : n < 2 ^ 20) (hi : i < 1024) (hx : pageOf x ≠ n) :
    ¬ (x - entryAddr n i).toNat < 4 := by
  have haddr := toNat_entryAddr hn hi
  have hlt := x.isLt
  simp only [pageOf] at hx
  intro h
  rw [BitVec.toNat_sub, haddr] at h
  omega

theorem modifyEntry_of_page (f : Word → Word) (hn : n < 2 ^ 20) (hi : i < 1024) (hx : pageOf x ≠ n) :
    modifyEntry n i f m x = m x := writeWord_of_outside _ (entryAddr_outside hn hi hx)

/-- A byte stored on another page leaves the entries of a table. -/
theorem readEntry_update {x : Word} (b : BitVec 8) (hn : n < 2 ^ 20) (hi : i < 1024)
    (hx : pageOf x ≠ n) : readEntry (Function.update m x b) n i = readEntry m n i := by
  have haddr := toNat_entryAddr hn hi
  simp only [pageOf] at hx
  have hbyte : ∀ j : Nat, j < 4 → Function.update m x b (entryAddr n i + BitVec.ofNat 32 j) =
      m (entryAddr n i + BitVec.ofNat 32 j) := by
    intro j hj
    refine Function.update_of_ne (fun heq => hx ?_) _ _
    rw [← heq, BitVec.toNat_add, haddr, BitVec.toNat_ofNat]
    omega
  have h0 : Function.update m x b (entryAddr n i) = m (entryAddr n i) := by
    simpa using hbyte 0 (by decide)
  have h1 : Function.update m x b (entryAddr n i + 1) = m (entryAddr n i + 1) := hbyte 1 (by decide)
  have h2 : Function.update m x b (entryAddr n i + 2) = m (entryAddr n i + 2) := hbyte 2 (by decide)
  have h3 : Function.update m x b (entryAddr n i + 3) = m (entryAddr n i + 3) := hbyte 3 (by decide)
  rw [readEntry, readWord, readEntry, readWord, h0, h1, h2, h3]

end Bytes

/-! ## Cached translations -/

/-- What the processor has cached, by page. -/
abbrev Tlb := Nat → Option Mapping

structure Processor where
  control : Control
  mem : Memory
  tlb : Tlb

/-- Where an access goes: a cached mapping is used as it is. -/
def Processor.lookup (s : Processor) (mode : Mode) (access : AccessKind) (a : Word) : Option Nat :=
  if s.control.pg then
    ((s.tlb (pageOf a)).or (walk s.control s.mem a)).bind (resolve s.control mode access a)
  else some a.toNat

/-- The mapping of an address is looked up in the tables, marked and cached, for an access or ahead
    of one. -/
def Processor.fill (s : Processor) (access : AccessKind) (a : Word) : Processor :=
  match walk s.control s.mem a with
  | some e =>
    { s with mem := mark s.control s.mem access a, tlb := Function.update s.tlb (pageOf a) (some e) }
  | none => s

def Processor.evict (s : Processor) (page : Nat) : Processor :=
  { s with tlb := Function.update s.tlb page none }

/-- A load of CR3 with the value it has. -/
def Processor.flush (s : Processor) : Processor :=
  { s with tlb := fun page => (s.tlb page).filter fun e => e.isGlobal && s.control.pge }

/-- Everything cached is what the tables say. -/
def Processor.Coherent (s : Processor) : Prop :=
  ∀ a e, s.tlb (pageOf a) = some e → walk s.control s.mem a = some e

namespace Processor

variable {s : Processor}

/-- A coherent cache is not seen. -/
theorem Coherent.lookup_eq (h : s.Coherent) (mode : Mode) (access : AccessKind) (a : Word) :
    s.lookup mode access a = translateAddr s.control s.mem mode access a := by
  rw [lookup, translateAddr]
  rcases hcached : s.tlb (pageOf a) with _ | e
  · rfl
  · rw [h a e hcached]
    rfl

theorem coherent_flush (hpge : s.control.pge = false) : s.flush.Coherent := by
  intro a e h
  simp [flush, hpge] at h

/-- A store that keeps the entries keeps the cache coherent. -/
theorem Coherent.sameEntries (h : s.Coherent) {m : Memory} (hsame : SameEntries s.mem m) :
    Coherent { s with mem := m } := by
  intro a e he
  exact (hsame.walk_eq s.control a).trans (h a e he)

theorem fill_control (s : Processor) (access : AccessKind) (a : Word) :
    (s.fill access a).control = s.control := by
  unfold fill
  split <;> rfl

theorem fill_sameEntries (s : Processor) (access : AccessKind) (a : Word) :
    SameEntries s.mem (s.fill access a).mem := by
  unfold fill
  split
  · exact mark_sameEntries s.control s.mem access a
  · exact fun _ _ _ _ => rfl

/-- What is cached after a fill was cached before it, or is what the tables say. -/
theorem fill_tlb {access : AccessKind} {a b : Word} {e : Mapping}
    (h : (s.fill access a).tlb (pageOf b) = some e) :
    s.tlb (pageOf b) = some e ∨ walk s.control s.mem b = some e := by
  unfold fill at h
  split at h
  · rename_i e' hwalk
    by_cases hpage : pageOf b = pageOf a
    · rw [hpage] at h
      have he : some e' = some e := (Function.update_self (pageOf a) (some e') s.tlb).symm.trans h
      rw [walk_congr s.control s.mem hpage, hwalk]
      exact Or.inr he
    · exact Or.inl ((Function.update_of_ne hpage (some e') s.tlb).symm.trans h)
  · exact Or.inl h

theorem evict_tlb {page page' : Nat} {e : Mapping} (h : (s.evict page).tlb page' = some e) :
    s.tlb page' = some e := by
  have hupdate : Function.update s.tlb page none page' = some e := h
  by_cases hpage : page' = page
  · rw [hpage, Function.update_self] at hupdate
    cases hupdate
  · rwa [Function.update_of_ne hpage] at hupdate

theorem Coherent.fill (h : s.Coherent) (access : AccessKind) (a : Word) : (s.fill access a).Coherent := by
  intro b e he
  rw [fill_control, (fill_sameEntries s access a).walk_eq]
  rcases fill_tlb he with hcached | hwalk
  · exact h b e hcached
  · exact hwalk

theorem Coherent.evict (h : s.Coherent) (page : Nat) : (s.evict page).Coherent :=
  fun a e he => h a e (evict_tlb he)

end Processor

end ByteVerse.Mmu
