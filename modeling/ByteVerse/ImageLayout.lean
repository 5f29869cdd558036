/-
  The file-system image as bytes, and the lookups in it.

  `filesys_init` is given the address of the module that the boot loader left in memory, and all
  the other functions of the file system follow pointers into it.  `Image.ofBytes` reads the typed
  image off those bytes, at the offsets that the structs of `file_system.h` give the fields.

  A name of 32 bytes has no terminator, so `strlen` runs on into the type of the entry, and a copied
  entry used as a query does the same.  `readDentryByNameBytes` and `readDentryByIndexBytes` are the two
  lookups on the bytes themselves; `readDentryByName_ofBytes` ties them to the typed ones, and
  `lookup_exact` says what they find.
-/
import ByteVerse.Descriptors
import ByteVerse.CommandLine

set_option linter.unusedVariables false

namespace ByteVerse

/-! ## The module in memory -/

/-- The `int32_t` at offset `a` of the module. -/
def loadInt (fs : Int → UInt8) (a : Int) : Int := int32At [fs a, fs (a + 1), fs (a + 2), fs (a + 3)]

/-- `(inode + 1) * SIZE_4KB`: where an inode starts, from `fs_start` on. -/
def inodeStart (inode : Int) : Int := (inode + 1) * size4KB

/-- `&data_block_num[index]`. -/
def dataBlockNumStart (inode index : Int) : Int := inodeStart inode + 4 + 4 * index

/-- `SIZE_4KB * (N + block) + i`, where `N` is one more than the number of inodes. -/
def blockByteStart (numInodes block i : Int) : Int := size4KB * ((numInodes + 1) + block) + i

/-- `&direntries[i]`: entries of 64 bytes, behind the 64 bytes of the counts. -/
def direntryStart (i : Nat) : Int := 64 + 64 * i

/-- The image that the bytes of a module are: `fs a` is the byte at `fs_start + a`. -/
def Image.ofBytes (fs : Int → UInt8) : Image where
  dirCount := loadInt fs 0
  inodeCount := loadInt fs 4
  dataCount := loadInt fs 8
  direntries i :=
    { filename := Vector.ofFn fun j => fs (direntryStart i + (j.val : Nat))
      filetype := loadInt fs (direntryStart i + 32)
      inodeNum := loadInt fs (direntryStart i + 36) }
  inodes n :=
    { length := loadInt fs (inodeStart n)
      dataBlockNum := fun index => loadInt fs (dataBlockNumStart n index) }
  block b i := fs (blockByteStart (loadInt fs 4) b i)

/-! ## The lookups on bytes -/

/-- The 64 bytes of a directory entry: 32 of the name, four of the type, four of the inode number,
    24 reserved ones. -/
def direntryBytes (fs : Int → UInt8) (i : Nat) : List UInt8 :=
  (List.range 64).map fun j => fs (direntryStart i + (j : Nat))

/-- `strlen` of the name of an entry, cut to 32. -/
def dentryLen (curr : List UInt8) : Nat := min (strlen curr) filenameLen

/-- `read_dentry_by_name`: the bytes of the first entry with this name, and its length. -/
def readDentryByNameBytes (fs : Int → UInt8) (fname : List UInt8) : Option (List UInt8 × Nat) :=
  match (List.range (loadInt fs 0).toNat).find? fun i => sameName fname (direntryBytes fs i) with
  | some i => some (direntryBytes fs i, dentryLen (direntryBytes fs i))
  | none => none

/-- `read_dentry_by_index`. -/
def readDentryByIndexBytes (fs : Int → UInt8) (index : Int) : Option (List UInt8 × Nat) :=
  if index < loadInt fs 0 then
    some (direntryBytes fs index.toNat, dentryLen (direntryBytes fs index.toNat))
  else none

/-- The name of an entry: the bytes of the field before the first NUL, all 32 when there is none. -/
def entryName (fs : Int → UInt8) (i : Nat) : List UInt8 :=
  text ((direntryBytes fs i).take filenameLen)

section Names

variable {fs : Int → UInt8} {i : Nat}

theorem length_direntryBytes : (direntryBytes fs i).length = 64 := by
  rw [direntryBytes, List.length_map, List.length_range]

theorem direntryBytes_getD {j : Nat} (hj : j < 64) :
    (direntryBytes fs i).getD j 0 = fs (direntryStart i + (j : Nat)) := by
  rw [List.getD_eq_getElem _ 0 (by rw [length_direntryBytes]; exact hj)]
  simp only [direntryBytes, List.getElem_map, List.getElem_range]

/-- Cutting to 32 bytes before or after the search for the terminator is the same. -/
theorem text_take (s : List UInt8) (n : Nat) : (text s).take n = text (s.take n) :=
  List.take_takeWhile

/-- What `strlen`, cut to 32, finds is the length of the name. -/
theorem dentryLen_eq (fs : Int → UInt8) (i : Nat) :
    dentryLen (direntryBytes fs i) = (entryName fs i).length := by
  unfold entryName
  rw [← text_take, List.length_take, Nat.min_comm]
  rfl

theorem sameName_entry_iff (fname : List UInt8) :
    sameName fname (direntryBytes fs i) = true ↔ entryName fs i = (text fname).take filenameLen := by
  rw [sameName_iff, text_take (direntryBytes fs i)]
  rfl

/-- The typed image has the same names. -/
theorem name_ofBytes (fs : Int → UInt8) (i : Nat) :
    ((Image.ofBytes fs).direntries i).name = entryName fs i := by
  have hfield : ((Image.ofBytes fs).direntries i).filename.toList =
      (direntryBytes fs i).take filenameLen := by
    refine List.ext_getElem ?_ fun j h₁ h₂ => ?_
    · rw [Vector.length_toList, List.length_take, length_direntryBytes]
      rfl
    · simp only [Image.ofBytes, direntryBytes, Vector.getElem_toList, Vector.getElem_ofFn,
        List.getElem_take, List.getElem_map, List.getElem_range]
  unfold Dentry.name entryName
  rw [hfield]

/-- **The lookup on bytes finds the entry the typed one finds.** -/
theorem readDentryByName_ofBytes (fs : Int → UInt8) (fname : List UInt8) :
    readDentryByName (Image.ofBytes fs) fname =
      ((List.range (loadInt fs 0).toNat).find? fun i => sameName fname (direntryBytes fs i)).map
        fun i => ((Image.ofBytes fs).direntries i, dentryLen (direntryBytes fs i)) := by
  have htest : ∀ i, dentryMatches fname ((Image.ofBytes fs).direntries i) =
      sameName fname (direntryBytes fs i) := by
    intro i
    rw [Bool.eq_iff_iff, dentryMatches_iff, sameName_entry_iff, name_ofBytes]
  unfold readDentryByName
  simp only [htest]
  show (match (List.range (loadInt fs 0).toNat).find? _ with | some i => _ | none => _) = _
  cases (List.range (loadInt fs 0).toNat).find? fun i => sameName fname (direntryBytes fs i) with
  | none => rfl
  | some i =>
    have hlen : strlen ((Image.ofBytes fs).direntries i).filename.toList = (entryName fs i).length := by
      rw [← name_ofBytes]
      rfl
    have hle := ((Image.ofBytes fs).direntries i).name_length_le
    rw [name_ofBytes] at hle
    simp only [Option.map_some, hlen, dentryLen_eq, Nat.min_eq_left hle]

end Names

/-! ## Name lookup is exact -/

/-- The directories of this section: at most 63 entries, with names that are not empty and types
    from 0 to 2. -/
structure WellNamed (fs : Int → UInt8) : Prop where
  entries : 0 ≤ loadInt fs 0 ∧ loadInt fs 0 ≤ 63
  named : ∀ i : Nat, i < loadInt fs 0 → entryName fs i ≠ []
  types : ∀ i : Nat, i < loadInt fs 0 →
    0 ≤ loadInt fs (direntryStart i + 32) ∧ loadInt fs (direntryStart i + 32) ≤ 2

section Lookup

variable {fs : Int → UInt8} {i : Nat}

theorem strlen_le_of_getD {s : List UInt8} {j : Nat} (h : s.getD j 0 = 0) : strlen s ≤ j := by
  by_contra hlt
  exact (getD_of_lt_strlen (show j < strlen s by omega)).2 h

/-- The second byte of a small number is zero. -/
theorem second_byte_zero {b₀ b₁ b₂ b₃ : UInt8} (h0 : 0 ≤ int32At [b₀, b₁, b₂, b₃])
    (h2 : int32At [b₀, b₁, b₂, b₃] ≤ 2) : b₁ = 0 := by
  have hvalue : int32At [b₀, b₁, b₂, b₃] =
      b₀.toNat + 0x100 * b₁.toNat + 0x10000 * b₂.toNat + 0x1000000 * signed b₃ := rfl
  have hb₀ := b₀.toNat_lt
  have hb₁ := b₁.toNat_lt
  have hb₂ := b₂.toNat_lt
  rw [hvalue] at h0 h2
  have hzero : b₁.toNat = 0 := by omega
  exact UInt8.toNat_inj.mp hzero

/-- The search for the terminator of an entry's name ends in the type, if not before. -/
theorem strlen_direntryBytes_le (h : WellNamed fs) (hi : i < loadInt fs 0) :
    strlen (direntryBytes fs i) ≤ filenameLen + 1 := by
  refine strlen_le_of_getD ?_
  have hbyte := second_byte_zero (h.types i hi).1 (h.types i hi).2
  rw [direntryBytes_getD (by decide)]
  rw [Int.add_assoc] at hbyte
  exact hbyte

theorem readDentryByNameBytes_eq_some_iff {query bytes : List UInt8} {n : Nat} :
    readDentryByNameBytes fs query = some (bytes, n) ↔
      ∃ i : Nat, i < loadInt fs 0 ∧ entryName fs i = (text query).take filenameLen ∧
        (∀ j, j < i → entryName fs j ≠ (text query).take filenameLen) ∧
        bytes = direntryBytes fs i ∧ n = (entryName fs i).length := by
  unfold readDentryByNameBytes
  constructor
  · intro h
    split at h
    · rename_i i hfind
      obtain ⟨hsame, hmem, hfirst⟩ := List.find?_range_eq_some.mp hfind
      have hi := List.mem_range.mp hmem
      cases h
      refine ⟨i, by omega, (sameName_entry_iff query).mp hsame, fun j hj heq => ?_, rfl,
        dentryLen_eq fs i⟩
      have hnot := hfirst j hj
      rw [(sameName_entry_iff query).mpr heq] at hnot
      cases hnot
    · cases h
  · rintro ⟨i, hi, hname, hfirst, rfl, rfl⟩
    have hfind : (List.range (loadInt fs 0).toNat).find?
        (fun i => sameName query (direntryBytes fs i)) = some i := by
      rw [List.find?_range_eq_some]
      refine ⟨(sameName_entry_iff query).mpr hname, List.mem_range.mpr (by omega), fun j hj => ?_⟩
      rw [Bool.not_eq_true', Bool.eq_false_iff, ne_eq, sameName_entry_iff]
      exact hfirst j hj
    rw [hfind, ← dentryLen_eq]

/-- The lookup succeeds when an entry has the name: there is a first one. -/
theorem readDentryByNameBytes_isSome {query : List UInt8} (hi : i < loadInt fs 0)
    (hname : entryName fs i = (text query).take filenameLen) :
    ∃ r, readDentryByNameBytes fs query = some r := by
  cases hfind : readDentryByNameBytes fs query with
  | some r => exact ⟨r, rfl⟩
  | none =>
    unfold readDentryByNameBytes at hfind
    split at hfind
    · cases hfind
    · rename_i hnone
      have hnot := List.find?_eq_none.mp hnone i (List.mem_range.mpr (by omega))
      rw [(sameName_entry_iff query).mpr hname] at hnot
      exact absurd rfl hnot

end Lookup

/-- **Name lookup is exact.**  For every module with a directory as it should be, and every query:
    the search for the end of a name stays inside the entry; the lookup succeeds exactly when some
    entry has the query's text, cut to 32 bytes, for its name; it copies out the first such entry
    and returns the length of its name; and when the names are distinct, looking up the name of
    entry `i`, where `read_dentry_by_index` has copied it to and whatever is behind it there, gives
    entry `i` again. -/
theorem lookup_exact (fs : Int → UInt8) (h : WellNamed fs) :
    (∀ i : Nat, i < loadInt fs 0 → strlen (direntryBytes fs i) ≤ filenameLen + 1) ∧
    (∀ query, ((∃ r, readDentryByNameBytes fs query = some r) ↔
      ∃ i : Nat, i < loadInt fs 0 ∧ entryName fs i = (text query).take filenameLen)) ∧
    (∀ query bytes n, readDentryByNameBytes fs query = some (bytes, n) →
      ∃ i : Nat, i < loadInt fs 0 ∧ entryName fs i = (text query).take filenameLen ∧
        (∀ j, j < i → entryName fs j ≠ (text query).take filenameLen) ∧
        bytes = direntryBytes fs i ∧ n = (entryName fs i).length) ∧
    ((∀ i j : Nat, i < loadInt fs 0 → j < loadInt fs 0 → entryName fs i = entryName fs j → i = j) →
      ∀ i : Nat, i < loadInt fs 0 → ∃ bytes n, readDentryByIndexBytes fs i = some (bytes, n) ∧
        ∀ behind, readDentryByNameBytes fs (bytes ++ behind) = some (direntryBytes fs i, n)) := by
  refine ⟨fun i hi => strlen_direntryBytes_le h hi, fun query => ⟨?_, ?_⟩,
    fun query bytes n hfound => readDentryByNameBytes_eq_some_iff.mp hfound, ?_⟩
  · rintro ⟨⟨bytes, n⟩, hfound⟩
    obtain ⟨i, hi, hname, -⟩ := readDentryByNameBytes_eq_some_iff.mp hfound
    exact ⟨i, hi, hname⟩
  · rintro ⟨i, hi, hname⟩
    exact readDentryByNameBytes_isSome hi hname
  · intro hdistinct i hi
    refine ⟨direntryBytes fs i, (entryName fs i).length, ?_, fun behind => ?_⟩
    · unfold readDentryByIndexBytes
      rw [if_pos hi, Int.toNat_natCast, dentryLen_eq]
    · -- a name of 32 bytes runs on into the type, and the query is cut there again
      have hquery : (text (direntryBytes fs i ++ behind)).take filenameLen = entryName fs i := by
        rw [text_take, List.take_append_of_le_length (by rw [length_direntryBytes]; decide)]
        rfl
      rw [readDentryByNameBytes_eq_some_iff, hquery]
      refine ⟨i, hi, rfl, fun j hj heq => ?_, rfl, rfl⟩
      have hji := hdistinct j i (by omega) hi heq
      omega

/-- A directory with two entries, the first with a name of 32 bytes. -/
def longNameModule (a : Int) : UInt8 :=
  if a = 0 then 2 else if 64 ≤ a ∧ a < 96 then 97 else if a = 96 then 2
  else if a = 128 then 46 else if a = 160 then 1 else 0

theorem longNameModule_wellNamed : WellNamed longNameModule := by
  have htwo : ∀ i : Nat, i < loadInt longNameModule 0 → i = 0 ∨ i = 1 := by
    intro i hi
    have hcount : loadInt longNameModule 0 = 2 := by decide
    omega
  refine ⟨by decide, fun i hi => ?_, fun i hi => ?_⟩
  · rcases htwo i hi with rfl | rfl
    · decide +kernel
    · decide +kernel
  · rcases htwo i hi with rfl | rfl
    · decide +kernel
    · decide +kernel

/-- The 32 bytes are found again although the copy runs on into the type of the entry. -/
theorem longName_found : ∃ bytes n, readDentryByIndexBytes longNameModule 0 = some (bytes, n) ∧
    readDentryByNameBytes longNameModule (bytes ++ [1, 2, 3]) =
      some (direntryBytes longNameModule 0, n) := by
  have hdistinct : ∀ i j : Nat, i < loadInt longNameModule 0 → j < loadInt longNameModule 0 →
      entryName longNameModule i = entryName longNameModule j → i = j := by
    intro i j hi hj heq
    have hcount : loadInt longNameModule 0 = 2 := by decide
    have hne : entryName longNameModule 0 ≠ entryName longNameModule 1 := by decide +kernel
    rcases (show i = 0 ∨ i = 1 by omega) with rfl | rfl <;>
      rcases (show j = 0 ∨ j = 1 by omega) with rfl | rfl
    · rfl
    · exact absurd heq hne
    · exact absurd heq.symm hne
    · rfl
  obtain ⟨bytes, n, hindex, hname⟩ :=
    (lookup_exact longNameModule longNameModule_wellNamed).2.2.2 hdistinct 0 (by decide)
  exact ⟨bytes, n, hindex, hname [1, 2, 3]⟩

end ByteVerse
