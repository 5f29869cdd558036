/-
  `paging.c`: the page tables in memory, as the processor reads them.

  The other modules know the page tables by three numbers: the frames of `page_table`, those of
  `page_table_vidmap` and that of `page_directory[32]` (`Frames`).  Here the tables are bytes: a
  directory and two tables of 1024 words, whose bit-fields `paging_init` assigns one by one.

  `TablesHold` says that the bytes in memory are tables with the given frames.  `paging_init` makes it
  true whatever the memory held before, the stores that other parts of the kernel make keep it, and it
  determines what the processor makes of every address: `TablesHold.translate_eq`.
-/
import ByteVerse.Mmu
import ByteVerse.Terminal

set_option linter.unusedVariables false

namespace ByteVerse

open Words BitFields Mmu

/-! ## The structures of `paging.h` -/

namespace Pde4kb

@[simp] def present : BitField := ⟨0, 1⟩
@[simp] def rw : BitField := ⟨1, 1⟩
@[simp] def user : BitField := ⟨2, 1⟩
@[simp] def pwt : BitField := ⟨3, 1⟩
@[simp] def pcd : BitField := ⟨4, 1⟩
@[simp] def accessed : BitField := ⟨5, 1⟩
@[simp] def avl : BitField := ⟨6, 1⟩
@[simp] def ps : BitField := ⟨7, 1⟩
@[simp] def available : BitField := ⟨8, 4⟩
@[simp] def frame : BitField := ⟨12, 20⟩

end Pde4kb

namespace Pde4mb

@[simp] def present : BitField := ⟨0, 1⟩
@[simp] def rw : BitField := ⟨1, 1⟩
@[simp] def user : BitField := ⟨2, 1⟩
@[simp] def pwt : BitField := ⟨3, 1⟩
@[simp] def pcd : BitField := ⟨4, 1⟩
@[simp] def accessed : BitField := ⟨5, 1⟩
@[simp] def dirty : BitField := ⟨6, 1⟩
@[simp] def ps : BitField := ⟨7, 1⟩
@[simp] def global : BitField := ⟨8, 1⟩
@[simp] def available : BitField := ⟨9, 3⟩
@[simp] def pat : BitField := ⟨12, 1⟩
@[simp] def addr : BitField := ⟨13, 8⟩
@[simp] def rsvd : BitField := ⟨21, 1⟩
@[simp] def frame : BitField := ⟨22, 10⟩

end Pde4mb

namespace Pte

@[simp] def present : BitField := ⟨0, 1⟩
@[simp] def rw : BitField := ⟨1, 1⟩
@[simp] def user : BitField := ⟨2, 1⟩
@[simp] def pwt : BitField := ⟨3, 1⟩
@[simp] def pcd : BitField := ⟨4, 1⟩
@[simp] def accessed : BitField := ⟨5, 1⟩
@[simp] def dirty : BitField := ⟨6, 1⟩
@[simp] def pat : BitField := ⟨7, 1⟩
@[simp] def global : BitField := ⟨8, 1⟩
@[simp] def available : BitField := ⟨9, 3⟩
@[simp] def frame : BitField := ⟨12, 20⟩

end Pte

/-- Where the linker has put the three tables, by page number: each is aligned to a page, and the
    kernel's image, linked at 4 MB, ends below 8 MB. -/
structure Placement where
  pageDirectory : Nat
  pageTable : Nat
  pageTableVidmap : Nat
  directory_mem : 1024 ≤ pageDirectory ∧ pageDirectory < 2048
  table_mem : 1024 ≤ pageTable ∧ pageTable < 2048
  vidmap_mem : 1024 ≤ pageTableVidmap ∧ pageTableVidmap < 2048
  distinct : pageTable ≠ pageDirectory ∧ pageTableVidmap ≠ pageDirectory ∧
    pageTableVidmap ≠ pageTable

/-! ## `paging_init` -/

/-- `KERNEL_ADD` and `USER_ADD`. -/
def kernelAdd : Nat := 0x400000
def userPageAdd : Nat := 0x8000000

/-- The body of the first loop. -/
def initDirectoryEntry (p : Placement) (i : Nat) (e : Word) : Word :=
  if i = 0 then
    e |> Pde4kb.present.put 1 |> Pde4kb.rw.put 1 |> Pde4kb.user.put 0 |> Pde4kb.pwt.put 0
      |> Pde4kb.pcd.put 0 |> Pde4kb.accessed.put 0 |> Pde4kb.avl.put 0 |> Pde4kb.ps.put 0
      |> Pde4kb.available.put 0 |> Pde4kb.frame.put p.pageTable
  else if i = 1 then
    e |> Pde4mb.present.put 1 |> Pde4mb.rw.put 1 |> Pde4mb.user.put 0 |> Pde4mb.pwt.put 0
      |> Pde4mb.pcd.put 0 |> Pde4mb.accessed.put 0 |> Pde4mb.dirty.put 0 |> Pde4mb.ps.put 1
      |> Pde4mb.global.put 0 |> Pde4mb.available.put 0 |> Pde4mb.pat.put 0 |> Pde4mb.addr.put 0
      |> Pde4mb.rsvd.put 0 |> Pde4mb.frame.put (kernelAdd >>> 22)
  else if i = 32 then
    e |> Pde4mb.present.put 1 |> Pde4mb.rw.put 1 |> Pde4mb.user.put 1 |> Pde4mb.pwt.put 0
      |> Pde4mb.pcd.put 0 |> Pde4mb.accessed.put 0 |> Pde4mb.dirty.put 0 |> Pde4mb.ps.put 1
      |> Pde4mb.global.put 1 |> Pde4mb.available.put 0 |> Pde4mb.pat.put 0 |> Pde4mb.addr.put 0
      |> Pde4mb.rsvd.put 0 |> Pde4mb.frame.put (userPageAdd >>> 22)
  else if i = 33 then
    e |> Pde4kb.present.put 1 |> Pde4kb.rw.put 1 |> Pde4kb.user.put 1 |> Pde4kb.pwt.put 0
      |> Pde4kb.pcd.put 1 |> Pde4kb.accessed.put 0 |> Pde4kb.avl.put 0 |> Pde4kb.ps.put 0
      |> Pde4kb.available.put 0 |> Pde4kb.frame.put p.pageTableVidmap
  else 0

/-- The cases of the second loop: `VIDEO_MEM_ADDR`, `TERM1_VRAM`, `TERM2_VRAM` and `TERM3_VRAM`. -/
def isVideoPage (i : Nat) : Prop := i = 0xB8 ∨ i = 0xB9 ∨ i = 0xBA ∨ i = 0xBB

instance (i : Nat) : Decidable (isVideoPage i) := inferInstanceAs (Decidable (_ ∨ _))

/-- The body of the second loop. -/
def initTableEntry (i : Nat) (e : Word) : Word :=
  let e := e |> Pte.rw.put 0 |> Pte.user.put 0 |> Pte.pwt.put 0 |> Pte.pcd.put 0
    |> Pte.accessed.put 0 |> Pte.dirty.put 0 |> Pte.pat.put 0 |> Pte.global.put 0
    |> Pte.available.put 0 |> Pte.frame.put 0
  if isVideoPage i then e |> Pte.present.put 1 |> Pte.rw.put 1 |> Pte.frame.put i
  else Pte.present.put 0 e

/-- The body of the third loop; the frames are 0xB8, 0xB9, 0xBA and 0xBB. -/
def initVidmapEntry (i : Nat) (e : Word) : Word :=
  let e := e |> Pte.present.put 0 |> Pte.rw.put 1 |> Pte.user.put 1 |> Pte.pwt.put 0
    |> Pte.pcd.put 1 |> Pte.accessed.put 0 |> Pte.dirty.put 0 |> Pte.pat.put 0 |> Pte.global.put 0
    |> Pte.available.put 0 |> Pte.frame.put 0
  if i < 4 then e |> Pte.present.put 1 |> Pte.frame.put (0xB8 + i) else e

/-- The three loops. -/
def initTables (p : Placement) (m : Memory) : Memory :=
  forEntries p.pageTableVidmap initVidmapEntry
    (forEntries p.pageTable initTableEntry
      (forEntries p.pageDirectory (initDirectoryEntry p) m))

/-- `loadPageDirectory`. -/
def loadPageDirectory (address : Word) (cpu : Processor) : Processor :=
  Processor.flush { cpu with control := { cpu.control with cr3 := address } }

/-- `otherenable`. -/
def otherenable (cpu : Processor) : Processor :=
  { cpu with control :=
    { cpu.control with
      cr4 := cpu.control.cr4 ||| 0x00000010
      cr0 := cpu.control.cr0 ||| 0x80000000 } }

/-- `page_table[0xBC].present = 1`, and so on: the stores behind the loops. -/
def mapToScreen (e : Word) : Word :=
  e |> Pte.present.put 1 |> Pte.rw.put 1 |> Pte.frame.put 0xB8

/-- `paging_init`. -/
def pagingInit (p : Placement) (cpu : Processor) : Processor :=
  let cpu := { cpu with mem := initTables p cpu.mem }
  let cpu := otherenable (loadPageDirectory (entryAddr p.pageDirectory 0) cpu)
  Processor.flush { cpu with mem := modifyEntry p.pageTable 0xBC mapToScreen cpu.mem }

/-! ## What the tables say -/

/-- The frames that the tables name: those of `page_table`, those of `page_table_vidmap`, and that of
    `page_directory[32]`. -/
structure Frames where
  video : Nat → Nat
  vidmap : Nat → Nat
  user : Nat

def Kernel.frames (k : Kernel) : Frames where
  video i := (k.con.pageTable i).toNat
  vidmap i := (k.con.pageTableVidmap i).toNat
  user := k.procs.pageDirectory32.toNat

/-- Paging is on, with the directory of `paging.c`, 4 MB pages, and no global ones. -/
structure PagingOn (p : Placement) (c : Control) : Prop where
  pg : c.pg = true
  pse : c.pse = true
  pge : c.pge = false
  cr3 : c.cr3.toNat / 4096 = p.pageDirectory

/-- The entries `e` of the directory: one table for video memory, 4 MB for the kernel, 4 MB at `user` for
    the program, and one table for the windows of `vidmap`. -/
structure DirectoryHolds (p : Placement) (c : Control) (user : Nat) (e : Nat → Word) : Prop where
  low : NamesTable c (e 0) false p.pageTable
  kernel : MapsBig c (e 1) false 1
  program : MapsBig c (e 32) true user
  windows : NamesTable c (e 33) true p.pageTableVidmap
  others : ∀ i, i < 1024 → i ≠ 0 → i ≠ 1 → i ≠ 32 → i ≠ 33 → Mmu.present.get (e i) ≠ 1

/-- The entries `e` of a table that maps the pages from `first` to `last`. -/
structure TableHolds (isUser : Bool) (first last : Nat) (frames : Nat → Nat) (e : Nat → Word) :
    Prop where
  maps : ∀ i, first ≤ i → i ≤ last → MapsSmall (e i) isUser (frames i)
  others : ∀ i, i < 1024 → i < first ∨ last < i → Mmu.present.get (e i) ≠ 1

/-- The memory holds the directory and the two tables, with the frames `fr`. -/
structure TablesHold (p : Placement) (c : Control) (fr : Frames) (m : Memory) : Prop where
  directory : DirectoryHolds p c fr.user (readEntry m p.pageDirectory)
  table : TableHolds false 0xB8 0xBC fr.video (readEntry m p.pageTable)
  vidmap : TableHolds true 0 3 fr.vidmap (readEntry m p.pageTableVidmap)

/-- Where the tables map the address of a page, and whether for user programs too. -/
def pageMap (fr : Frames) (page : Nat) : Option (Nat × Bool) :=
  if page < 1024 then
    if 0xB8 ≤ page ∧ page ≤ 0xBC then some (fr.video page, false) else none
  else if page < 2048 then some (page, false)
  else if 2 ^ 15 ≤ page ∧ page < 2 ^ 15 + 1024 then
    some (1024 * fr.user + (page - 2 ^ 15), true)
  else if 2 ^ 15 + 1024 ≤ page ∧ page < 2 ^ 15 + 1028 then
    some (fr.vidmap (page - (2 ^ 15 + 1024)), true)
  else none

/-- What the processor makes of an address: video memory below 4 MB, the kernel at 4 MB, the program at
    128 MB and its windows on video memory at 132 MB. -/
def addressMap (fr : Frames) (mode : Mode) (a : Word) : Option Nat :=
  (pageMap fr (pageOf a)).bind fun e =>
    if admits mode e.2 then some (2 ^ 12 * e.1 + a.toNat % 2 ^ 12) else none

section Holds

variable {p : Placement} {c : Control} {fr : Frames} {m m' : Memory}

/-- **A walk through the tables** finds what the map says. -/
theorem TablesHold.walk_cases (hon : PagingOn p c) (h : TablesHold p c fr m) (a : Word) :
    (pageMap fr (pageOf a) = none ∧ walk c m a = none) ∨
      ∃ n isUser e, pageMap fr (pageOf a) = some (n, isUser) ∧ walk c m a = some e ∧
        e.To isUser n := by
  have hpde : readWord m (pdeAddr c a) = readEntry m p.pageDirectory (dirIndex a) := by
    rw [pdeAddr, hon.cr3]
    rfl
  have hdir : dirIndex a = pageOf a / 1024 := by
    simp only [dirIndex, pageOf]
    omega
  have htable : tableIndex a = pageOf a % 1024 := rfl
  have hlt : dirIndex a < 1024 := by
    have ha := a.isLt
    simp only [dirIndex]
    omega
  have hidx : tableIndex a < 1024 := Nat.mod_lt _ (by decide)
  generalize pageOf a = page at hdir htable ⊢
  by_cases h0 : dirIndex a = 0
  · have hlow := h.directory.low
    rw [← h0, ← hpde] at hlow
    have hpage : tableIndex a = page := by omega
    by_cases hin : 0xB8 ≤ page ∧ page ≤ 0xBC
    · right
      obtain ⟨e, hwalk, hto⟩ := walk_small hlow (h.table.maps _ (by omega) (by omega))
      refine ⟨fr.video (tableIndex a), false, e, ?_, hwalk, hto⟩
      rw [pageMap, if_pos (by omega), if_pos hin, hpage]
    · left
      refine ⟨?_, walk_absent hlow (h.table.others _ hidx (by omega))⟩
      rw [pageMap, if_pos (by omega), if_neg hin]
  by_cases h1 : dirIndex a = 1
  · have hkernel : MapsBig c (readWord m (pdeAddr c a)) false 1 := by
      rw [hpde, h1]
      exact h.directory.kernel
    obtain ⟨e, hwalk, hto⟩ := walk_big hkernel
    refine Or.inr ⟨page, false, e, ?_, hwalk, ?_⟩
    · rw [pageMap, if_neg (by omega), if_pos (by omega)]
    · rwa [show 2 ^ 10 * 1 + tableIndex a = page by omega] at hto
  by_cases h32 : dirIndex a = 32
  · have huser := h.directory.program
    rw [← h32, ← hpde] at huser
    obtain ⟨e, hwalk, hto⟩ := walk_big huser
    refine Or.inr ⟨1024 * fr.user + (page - 2 ^ 15), true, e, ?_, hwalk, ?_⟩
    · rw [pageMap, if_neg (by omega), if_neg (by omega), if_pos (by omega)]
    · rwa [show tableIndex a = page - 2 ^ 15 by omega] at hto
  by_cases h33 : dirIndex a = 33
  · have hvidmap := h.directory.windows
    rw [← h33, ← hpde] at hvidmap
    have hpage : tableIndex a = page - (2 ^ 15 + 1024) := by omega
    by_cases hin : tableIndex a < 4
    · right
      obtain ⟨e, hwalk, hto⟩ := walk_small hvidmap (h.vidmap.maps _ (by omega) (by omega))
      refine ⟨fr.vidmap (tableIndex a), true, e, ?_, hwalk, hto⟩
      rw [pageMap, if_neg (by omega), if_neg (by omega), if_neg (by omega), if_pos (by omega), hpage]
    · left
      refine ⟨?_, walk_absent hvidmap (h.vidmap.others _ hidx (by omega))⟩
      rw [pageMap, if_neg (by omega), if_neg (by omega), if_neg (by omega), if_neg (by omega)]
  · left
    have hnone := h.directory.others (dirIndex a) hlt h0 h1 h32 h33
    rw [← hpde] at hnone
    refine ⟨?_, walk_unmapped hnone⟩
    rw [pageMap, if_neg (by omega), if_neg (by omega), if_neg (by omega), if_neg (by omega)]

/-- **The tables translate every address** as the map says, for reads and stores alike. -/
theorem TablesHold.translate_eq (hon : PagingOn p c) (h : TablesHold p c fr m) (mode : Mode)
    (access : AccessKind) (a : Word) : translateAddr c m mode access a = addressMap fr mode a := by
  rw [translateAddr, if_pos hon.pg, addressMap]
  rcases h.walk_cases hon a with ⟨hmap, hwalk⟩ | ⟨n, isUser, e, hmap, hwalk, hto⟩
  · rw [hmap, hwalk]
    rfl
  · rw [hmap, hwalk]
    exact hto.resolve_eq

/-- The three pages that the tables take. -/
def Placement.tables (p : Placement) (n : Nat) : Prop :=
  n = p.pageDirectory ∨ n = p.pageTable ∨ n = p.pageTableVidmap

/-- The two entries that a walk reads are on these pages. -/
theorem TablesHold.entries_read (hon : PagingOn p c) (h : TablesHold p c fr m) (a : Word) :
    pdeAddr c a = entryAddr p.pageDirectory (dirIndex a) ∧
      (Mmu.present.get (readWord m (pdeAddr c a)) = 1 →
        c.big (readWord m (pdeAddr c a)) = false →
          ∃ n, p.tables n ∧ pteAddr (readWord m (pdeAddr c a)) a = entryAddr n (tableIndex a)) := by
  have hpde : pdeAddr c a = entryAddr p.pageDirectory (dirIndex a) := by
    rw [pdeAddr, hon.cr3]
  have hlt : dirIndex a < 1024 := by
    have ha := a.isLt
    simp only [dirIndex]
    omega
  refine ⟨hpde, fun hpresent hsmall => ?_⟩
  have hentry : readWord m (pdeAddr c a) = readEntry m p.pageDirectory (dirIndex a) := by
    rw [hpde]
    rfl
  rw [hentry] at hpresent hsmall ⊢
  by_cases h0 : dirIndex a = 0
  · rw [h0]
    exact ⟨_, Or.inr (Or.inl rfl), h.directory.low.pteAddr_eq a⟩
  by_cases h1 : dirIndex a = 1
  · rw [h1, h.directory.kernel.big] at hsmall
    cases hsmall
  by_cases h32 : dirIndex a = 32
  · rw [h32, h.directory.program.big] at hsmall
    cases hsmall
  by_cases h33 : dirIndex a = 33
  · rw [h33]
    exact ⟨_, Or.inr (Or.inr rfl), h.directory.windows.pteAddr_eq a⟩
  · exact absurd hpresent (h.directory.others _ hlt h0 h1 h32 h33)

/-- A change apart from the three pages changes no translation. -/
theorem TablesHold.walk_eq (hon : PagingOn p c) (h : TablesHold p c fr m)
    (hsame : ∀ n, p.tables n → ∀ i, i < 1024 → readEntry m' n i = readEntry m n i) (a : Word) :
    walk c m' a = walk c m a := by
  obtain ⟨hpde, hpte⟩ := h.entries_read hon a
  have hdir : readWord m' (pdeAddr c a) = readWord m (pdeAddr c a) := by
    have hlt : dirIndex a < 1024 := by
      have ha := a.isLt
      simp only [dirIndex]
      omega
    rw [hpde]
    exact hsame _ (Or.inl rfl) _ hlt
  by_cases hpresent : Mmu.present.get (readWord m (pdeAddr c a)) = 1
  · by_cases hbig : c.big (readWord m (pdeAddr c a)) = true
    · simp only [walk, hdir, hbig, if_true]
    · obtain ⟨n, hn, haddr⟩ := hpte hpresent (by simpa using hbig)
      have htable : readWord m' (pteAddr (readWord m (pdeAddr c a)) a) =
          readWord m (pteAddr (readWord m (pdeAddr c a)) a) := by
        rw [haddr]
        exact hsame n hn _ (Nat.mod_lt _ (by decide))
      simp only [walk, hdir, htable]
  · simp only [walk, hdir, if_neg hpresent]

/-- The directory depends on the fields that the processor reads. -/
theorem DirectoryHolds.congr {user : Nat} {e e' : Nat → Word} (h : DirectoryHolds p c user e)
    (hsame : ∀ f, Unmarked f → ∀ i, i < 1024 → f.get (e' i) = f.get (e i)) :
    DirectoryHolds p c user e' := by
  have hbig : ∀ i, i < 1024 → c.big (e' i) = c.big (e i) := by
    intro i hi
    rw [Control.big, Control.big, hsame pageSize (by decide) i hi]
  have hnames : ∀ {i isUser n}, i < 1024 → NamesTable c (e i) isUser n →
      NamesTable c (e' i) isUser n := by
    intro i isUser n hi he
    refine ⟨?_, (hbig i hi).trans he.big, ?_, ?_, ?_⟩
    · exact (hsame Mmu.present (by decide) i hi).trans he.present
    · rw [hsame userBit (by decide) i hi]
      exact he.user
    · exact (hsame readWrite (by decide) i hi).trans he.readWrite
    · exact (hsame Mmu.frame (by decide) i hi).trans he.frame
  have hmaps : ∀ {i isUser n}, i < 1024 → MapsBig c (e i) isUser n → MapsBig c (e' i) isUser n := by
    intro i isUser n hi he
    refine ⟨?_, (hbig i hi).trans he.big, ?_, ?_, ?_, ?_, ?_⟩
    · exact (hsame Mmu.present (by decide) i hi).trans he.present
    · rw [hsame userBit (by decide) i hi]
      exact he.user
    · exact (hsame readWrite (by decide) i hi).trans he.readWrite
    · exact (hsame highAddr (by decide) i hi).trans he.high
    · exact (hsame reserved (by decide) i hi).trans he.reserved
    · exact (hsame bigFrame (by decide) i hi).trans he.frame
  refine ⟨hnames (by decide) h.low, hmaps (by decide) h.kernel, hmaps (by decide) h.program,
    hnames (by decide) h.windows, ?_⟩
  intro i hi h0 h1 h32 h33
  rw [hsame Mmu.present (by decide) i hi]
  exact h.others i hi h0 h1 h32 h33

theorem TableHolds.congr {isUser : Bool} {first last : Nat} {frames : Nat → Nat} {e e' : Nat → Word}
    (h : TableHolds isUser first last frames e) (hlast : last < 1024)
    (hsame : ∀ f, Unmarked f → ∀ i, i < 1024 → f.get (e' i) = f.get (e i)) :
    TableHolds isUser first last frames e' := by
  refine ⟨?_, ?_⟩
  · intro i hi hi'
    have he := h.maps i hi hi'
    have hlt : i < 1024 := by omega
    refine ⟨?_, ?_, ?_, ?_⟩
    · exact (hsame Mmu.present (by decide) i hlt).trans he.present
    · rw [hsame userBit (by decide) i hlt]
      exact he.user
    · exact (hsame readWrite (by decide) i hlt).trans he.readWrite
    · exact (hsame Mmu.frame (by decide) i hlt).trans he.frame
  · intro i hi hi'
    rw [hsame Mmu.present (by decide) i hi]
    exact h.others i hi hi'

theorem TablesHold.of_entries (h : TablesHold p c fr m)
    (hsame : ∀ n, p.tables n → ∀ i, i < 1024 → readEntry m' n i = readEntry m n i) :
    TablesHold p c fr m' := by
  have hget : ∀ n, p.tables n → ∀ f : BitField, Unmarked f → ∀ i, i < 1024 →
      f.get (readEntry m' n i) = f.get (readEntry m n i) := by
    intro n hn f _ i hi
    rw [hsame n hn i hi]
  exact ⟨h.directory.congr (hget _ (Or.inl rfl)),
    h.table.congr (by decide) (hget _ (Or.inr (Or.inl rfl))),
    h.vidmap.congr (by decide) (hget _ (Or.inr (Or.inr rfl)))⟩

/-- So what the processor writes to the tables does not matter. -/
theorem TablesHold.sameEntries (h : TablesHold p c fr m) (hsame : SameEntries m m') :
    TablesHold p c fr m' := by
  have hget : ∀ n f, Unmarked f → ∀ i, i < 1024 → f.get (readEntry m' n i) = f.get (readEntry m n i) :=
    fun n f hf i _ => hsame f hf _ (entryAddr_aligned n i)
  exact ⟨h.directory.congr (hget _), h.table.congr (by decide) (hget _),
    h.vidmap.congr (by decide) (hget _)⟩

end Holds

/-! ## `paging_init` makes the tables -/

section Init

variable (p : Placement) {c : Control}

theorem initDirectory_holds (hpse : c.pse = true) (m : Memory) :
    DirectoryHolds p c 32 fun i => initDirectoryEntry p i (readEntry m p.pageDirectory i) := by
  have htable : p.pageTable < 1048576 := Nat.lt_trans p.table_mem.2 (by decide)
  have hvidmap : p.pageTableVidmap < 1048576 := Nat.lt_trans p.vidmap_mem.2 (by decide)
  refine ⟨?_, ?_, ?_, ?_, ?_⟩
  · refine ⟨?_, ?_, ?_, ?_, ?_⟩ <;>
      simp (disch := decide) [Control.big, initDirectoryEntry, get_put_of_apart, get_put_self, htable]
  · refine ⟨?_, ?_, ?_, ?_, ?_, ?_, ?_⟩ <;>
      simp (disch := decide) [Control.big, initDirectoryEntry, get_put_of_apart, get_put_self, hpse,
        kernelAdd]
  · refine ⟨?_, ?_, ?_, ?_, ?_, ?_, ?_⟩ <;>
      simp (disch := decide) [Control.big, initDirectoryEntry, get_put_of_apart, get_put_self, hpse,
        userPageAdd]
  · refine ⟨?_, ?_, ?_, ?_, ?_⟩ <;>
      simp (disch := decide) [Control.big, initDirectoryEntry, get_put_of_apart, get_put_self, hvidmap]
  · intro i _ h0 h1 h32 h33
    rw [initDirectoryEntry, if_neg h0, if_neg h1, if_neg h32, if_neg h33]
    decide

/-- The table of video memory, with the entry that `paging_init` adds last. -/
theorem initTable_holds (e : Nat → Word) {e' : Nat → Word}
    (hlast : e' 0xBC = mapToScreen (initTableEntry 0xBC (e 0xBC)))
    (he' : ∀ i, i < 1024 → i ≠ 0xBC → e' i = initTableEntry i (e i)) :
    TableHolds false 0xB8 0xBC (fun i => (initialPageTable i).toNat) e' := by
  refine ⟨?_, ?_⟩
  · intro i hi hi'
    by_cases hbc : i = 0xBC
    · subst hbc
      rw [hlast]
      have hframe : (0xB8 : Nat) = (initialPageTable 0xBC).toNat := rfl
      refine ⟨?_, ?_, ?_, ?_⟩
      · simp (disch := decide) [mapToScreen, get_put_of_apart, get_put_self]
      · simp (disch := decide) [mapToScreen, initTableEntry, isVideoPage, get_put_of_apart,
          get_put_self]
      · simp (disch := decide) [mapToScreen, get_put_of_apart, get_put_self]
      · exact (get_put_self 0xB8 _ (by decide)).trans hframe
    · have hvideo : isVideoPage i := by
        rw [isVideoPage]
        omega
      rw [he' i (by omega) hbc, initTableEntry, if_pos hvideo]
      have hlt : i % 2 ^ 20 = (initialPageTable i).toNat := by
        rw [initialPageTable, if_pos (by simp only [videoMemAddr, term1Vram, term2Vram, term3Vram]; omega)]
        omega
      refine ⟨?_, ?_, ?_, ?_⟩
      · simp (disch := decide) [get_put_of_apart, get_put_self]
      · simp (disch := decide) [get_put_of_apart, get_put_self]
      · simp (disch := decide) [get_put_of_apart, get_put_self]
      · rw [← hlt]
        exact get_put_self i _ (by decide)
  · intro i hi hout
    have hvideo : ¬ isVideoPage i := by
      rw [isVideoPage]
      omega
    rw [he' i hi (by omega), initTableEntry, if_neg hvideo]
    simp (disch := decide) [get_put_self]

theorem initVidmap_holds (e : Nat → Word) :
    TableHolds true 0 3 (fun i => (initialPageTableVidmap i).toNat) fun i =>
      initVidmapEntry i (e i) := by
  refine ⟨?_, ?_⟩
  · intro i _ hi
    rw [initVidmapEntry, if_pos (by omega)]
    have hframe : (0xB8 + i) % 2 ^ 20 = (initialPageTableVidmap i).toNat := by
      have hcases : i = 0 ∨ i = 1 ∨ i = 2 ∨ i = 3 := by omega
      rcases hcases with rfl | rfl | rfl | rfl <;> rfl
    refine ⟨?_, ?_, ?_, ?_⟩
    · simp (disch := decide) [get_put_of_apart, get_put_self]
    · simp (disch := decide) [get_put_of_apart, get_put_self]
    · simp (disch := decide) [get_put_of_apart, get_put_self]
    · rw [← hframe]
      exact get_put_self (0xB8 + i) _ (by decide)
  · intro i _ hi
    rw [initVidmapEntry, if_neg (by omega)]
    simp (disch := decide) [get_put_of_apart, get_put_self]

/-- The frames that `paging_init` leaves. -/
def bootFrames : Frames where
  video i := (initialPageTable i).toNat
  vidmap i := (initialPageTableVidmap i).toNat
  user := 32

theorem pagingInit_control (cpu : Processor) :
    (pagingInit p cpu).control =
      { cr0 := cpu.control.cr0 ||| 0x80000000, cr3 := entryAddr p.pageDirectory 0
        cr4 := cpu.control.cr4 ||| 0x00000010 } := rfl

theorem pagingInit_pagingOn {cpu : Processor} (hpge : cpu.control.pge = false) :
    PagingOn p (pagingInit p cpu).control := by
  have hcr3 := toNat_entryAddr (show p.pageDirectory < 2 ^ 20 from
    Nat.lt_trans p.directory_mem.2 (by decide)) (show 0 < 1024 by decide)
  rw [pagingInit_control]
  refine ⟨?_, ?_, ?_, ?_⟩
  · simp [Control.pg]
  · simp [Control.pse]
  · simpa [Control.pge] using hpge
  · show (entryAddr p.pageDirectory 0).toNat / 4096 = _
    omega

theorem pagingInit_mem (cpu : Processor) :
    (pagingInit p cpu).mem = modifyEntry p.pageTable 0xBC mapToScreen (initTables p cpu.mem) := by
  simp only [pagingInit, Processor.flush, otherenable, loadPageDirectory]

theorem Placement.lt (p : Placement) :
    p.pageDirectory < 2 ^ 20 ∧ p.pageTable < 2 ^ 20 ∧ p.pageTableVidmap < 2 ^ 20 := by
  have hd := p.directory_mem.2
  have ht := p.table_mem.2
  have hv := p.vidmap_mem.2
  omega

section Loops

variable (m : Memory) {i : Nat} (hi : i < 1024)

include hi

theorem initTables_directory :
    readEntry (initTables p m) p.pageDirectory i =
      initDirectoryEntry p i (readEntry m p.pageDirectory i) := by
  obtain ⟨hd, ht, hv⟩ := p.lt
  obtain ⟨htd, hvd, -⟩ := p.distinct
  rw [initTables, readEntry_forEntries _ hv hd hi, if_neg (Ne.symm hvd),
    readEntry_forEntries _ ht hd hi, if_neg (Ne.symm htd), readEntry_forEntries _ hd hd hi, if_pos rfl]

theorem initTables_table :
    readEntry (initTables p m) p.pageTable i = initTableEntry i (readEntry m p.pageTable i) := by
  obtain ⟨hd, ht, hv⟩ := p.lt
  obtain ⟨htd, -, hvt⟩ := p.distinct
  rw [initTables, readEntry_forEntries _ hv ht hi, if_neg (Ne.symm hvt),
    readEntry_forEntries _ ht ht hi, if_pos rfl, readEntry_forEntries _ hd ht hi, if_neg htd]

theorem initTables_vidmap :
    readEntry (initTables p m) p.pageTableVidmap i =
      initVidmapEntry i (readEntry m p.pageTableVidmap i) := by
  obtain ⟨hd, ht, hv⟩ := p.lt
  obtain ⟨-, hvd, hvt⟩ := p.distinct
  rw [initTables, readEntry_forEntries _ hv hv hi, if_pos rfl, readEntry_forEntries _ ht hv hi,
    if_neg hvt, readEntry_forEntries _ hd hv hi, if_neg hvd]

end Loops

/-- **`paging_init` makes the tables**, whatever the memory held. -/
theorem pagingInit_holds (cpu : Processor) :
    TablesHold p (pagingInit p cpu).control bootFrames (pagingInit p cpu).mem := by
  obtain ⟨hd, ht, hv⟩ := p.lt
  obtain ⟨htd, hvd, hvt⟩ := p.distinct
  have hpse : (pagingInit p cpu).control.pse = true := by
    simp [pagingInit_control, Control.pse]
  rw [pagingInit_mem]
  refine ⟨?_, ?_, ?_⟩
  · refine (initDirectory_holds p hpse cpu.mem).congr fun f _ i hi => ?_
    rw [readEntry_modifyEntry_of_ne _ ht hd (by decide) hi (Or.inl (Ne.symm htd)),
      initTables_directory p _ hi]
  · refine initTable_holds (readEntry cpu.mem p.pageTable) ?_ fun i hi hne => ?_
    · rw [readEntry_modifyEntry_self, initTables_table p _ (by decide)]
    · rw [readEntry_modifyEntry_of_ne _ ht ht (by decide) hi (Or.inr hne), initTables_table p _ hi]
  · refine (initVidmap_holds (readEntry cpu.mem p.pageTableVidmap)).congr (by decide) fun f _ i hi => ?_
    rw [readEntry_modifyEntry_of_ne _ ht hv (by decide) hi (Or.inl hvt), initTables_vidmap p _ hi]

end Init

end ByteVerse
