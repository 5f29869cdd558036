/-
  The read-only file system of `file_system.c`.

  The image is kept as the typed arrays the C code sees through its struct pointers: the boot
  block's counts and directory entries, the inodes, and the data blocks.  Each array is a total
  function of its index, so an index the C code does not check reads whatever lies there; which
  indices are inside the image is a matter for the theorems.

  A C string is a `List UInt8`: the bytes from the pointer on, of which those up to the first NUL
  are its text.  Reading past the end of the list gives NUL (every string has a terminator
  somewhere in memory).  `int8_t` is `char`, signed on the target, so `strncmp` subtracts signed.
-/
import Mathlib.Data.List.Basic
import Mathlib.Data.List.TakeWhile

namespace ByteVerse

/-! ## Constants of `file_system.h` -/

@[simp] def filenameLen : Nat := 32
@[simp] def size4KB : Int := 4096
@[simp] def fileFiletype : Int := 2
@[simp] def dirFiletype : Int := 1
@[simp] def userFiletype : Int := 0

/-! ## The image -/

/-- `dentry_t`: 32 name bytes (NUL-padded when shorter), a type and an inode number. -/
structure Dentry where
  filename : Vector UInt8 32
  filetype : Int
  inodeNum : Int
  deriving DecidableEq

/-- `inode_t`: the file's length in bytes and the numbers of its data blocks. -/
structure Inode where
  length : Int
  dataBlockNum : Int → Int

/-- The module the boot loader put in memory, as `filesys_init` records it. -/
structure Image where
  dirCount : Int
  inodeCount : Int
  dataCount : Int
  direntries : Nat → Dentry
  inodes : Int → Inode
  /-- `block b i`: byte `i` of data block `b`, at `fs_start + 4096 * (N + b) + i`. -/
  block : Int → Int → UInt8

/-! ## The string functions of `lib.c` the lookup uses -/

/-- The text of a C string: its bytes before the first NUL. -/
def text (s : List UInt8) : List UInt8 := s.takeWhile (· ≠ 0)

/-- `strlen`. -/
def strlen (s : List UInt8) : Nat := (text s).length

/-- The value of a byte as a (signed) `char`. -/
def signed (b : UInt8) : Int := b.toBitVec.toInt

/-- `strncmp`: the difference at the first position below `n` where the strings differ or end. -/
def strncmp (s1 s2 : List UInt8) (n : Nat) : Int :=
  match (List.range n).find? fun i => s1.getD i 0 != s2.getD i 0 || s1.getD i 0 == 0 with
  | some i => signed (s1.getD i 0) - signed (s2.getD i 0)
  | none => 0

/-! ## Lookup by name and by index -/

/-- The test of `read_dentry_by_name`'s loop body: both lengths cut to 32, then `strncmp`. -/
def dentryMatches (fname : List UInt8) (curr : Dentry) : Bool :=
  let dentryLen := min (strlen curr.filename.toList) filenameLen
  let fnameLen := min (strlen fname) filenameLen
  fnameLen == dentryLen && strncmp fname curr.filename.toList fnameLen == 0

/-- `read_dentry_by_name`: the first entry with this name, and its (cut) name length; `none` is
    the return value -1. -/
def readDentryByName (img : Image) (fname : List UInt8) : Option (Dentry × Nat) :=
  match (List.range img.dirCount.toNat).find? fun i => dentryMatches fname (img.direntries i) with
  | some i => some (img.direntries i, min (strlen (img.direntries i).filename.toList) filenameLen)
  | none => none

/-- `read_dentry_by_index`: entry `index` and its (cut) name length; `none` is -1. -/
def readDentryByIndex (img : Image) (index : Int) : Option (Dentry × Nat) :=
  if index < img.dirCount then
    let curr := img.direntries index.toNat
    some (curr, min (strlen curr.filename.toList) filenameLen)
  else none

/-! ## Reading file data -/

/-- The byte loop of `read_data` from `numWritten` on: the return value and the bytes written to
    `buf[numWritten ..]`.  The fuel bounds the iterations; each one advances `numWritten` towards
    the end of the file. -/
def readDataLoop (img : Image) (myInode : Inode) (offset length : Int) :
    Nat → Int → Int × List UInt8
  | 0, numWritten => (numWritten, [])
  | fuel + 1, numWritten =>
    if numWritten + offset < myInode.length ∧ numWritten < length then
      let blockIdx := (numWritten + offset).tdiv size4KB
      if blockIdx > myInode.length.tdiv size4KB then (-1, [])
      else
        let currBlock := myInode.dataBlockNum blockIdx
        if currBlock > img.dataCount then (-1, [])
        else
          let currByte := img.block currBlock ((numWritten + offset).tmod size4KB)
          let rest := readDataLoop img myInode offset length fuel (numWritten + 1)
          (rest.1, currByte :: rest.2)
    else (numWritten, [])

/-- `read_data`: the return value and the bytes written to the front of `buf` (when it returns -1
    in the middle of a file, the bytes before the bad block have been written). -/
def readData (img : Image) (inode offset length : Int) : Int × List UInt8 :=
  if inode ≥ img.inodeCount then (-1, [])
  else
    let myInode := img.inodes inode
    readDataLoop img myInode offset length (myInode.length - offset).toNat 0

/-! ## What the lookup finds -/

theorem signed_sub_eq_zero_iff (a b : UInt8) : signed a - signed b = 0 ↔ a = b := by
  unfold signed
  rw [Int.sub_eq_zero, BitVec.toInt_inj, UInt8.toBitVec_inj]

/-- Below its length, a string's bytes are its text's bytes, none of them NUL. -/
theorem getD_of_lt_strlen {s : List UInt8} {i : Nat} (hi : i < strlen s) :
    (text s)[i]? = some (s.getD i 0) ∧ s.getD i 0 ≠ 0 := by
  unfold strlen at hi
  have hpre : text s <+: s := List.takeWhile_prefix _
  have hlen : i < s.length := Nat.lt_of_lt_of_le hi hpre.length_le
  have hget : (text s)[i] = s[i] := hpre.getElem hi
  have hmem : (text s)[i] ∈ text s := List.getElem_mem hi
  have hne := List.mem_takeWhile_imp hmem
  rw [List.getD_eq_getElem?_getD, List.getElem?_eq_getElem hlen, List.getElem?_eq_getElem hi, hget]
  rw [hget] at hne
  exact ⟨rfl, by simpa using hne⟩

/-- Below both lengths `strncmp` finds no end of string: it is zero exactly on equal prefixes. -/
theorem strncmp_eq_zero_iff {s1 s2 : List UInt8} {n : Nat} (h1 : n ≤ strlen s1)
    (h2 : n ≤ strlen s2) : strncmp s1 s2 n = 0 ↔ (text s1).take n = (text s2).take n := by
  have hbyte : ∀ i, i < n →
      ((text s1)[i]? = (text s2)[i]? ↔ s1.getD i 0 = s2.getD i 0) := by
    intro i hi
    rw [(getD_of_lt_strlen (show i < strlen s1 by omega)).1,
      (getD_of_lt_strlen (show i < strlen s2 by omega)).1, Option.some_inj]
  have htake : (text s1).take n = (text s2).take n ↔ ∀ i, i < n → s1.getD i 0 = s2.getD i 0 := by
    constructor
    · intro h i hi
      have := congrArg (·[i]?) h
      simp only [List.getElem?_take_of_lt hi] at this
      exact (hbyte i hi).mp this
    · intro h
      refine List.ext_getElem? fun i => ?_
      rcases Nat.lt_or_ge i n with hi | hi
      · rw [List.getElem?_take_of_lt hi, List.getElem?_take_of_lt hi]
        exact (hbyte i hi).mpr (h i hi)
      · rw [List.getElem?_take_eq_none hi, List.getElem?_take_eq_none hi]
  rw [htake]
  unfold strncmp
  split
  · -- a position was found: it is a difference, for below `n` the first string has no NUL
    rename_i i hfind
    have hp := List.find?_some hfind
    have hi : i < n := List.mem_range.mp (List.mem_of_find?_eq_some hfind)
    have hne := (getD_of_lt_strlen (show i < strlen s1 by omega)).2
    rw [signed_sub_eq_zero_iff]
    constructor
    · intro heq
      simp only [heq, bne_self_eq_false, Bool.false_or, beq_iff_eq] at hp
      exact absurd (heq.trans hp) hne
    · intro h
      exact h i hi
  · rename_i hfind
    rw [List.find?_eq_none] at hfind
    refine iff_of_true rfl fun i hi => ?_
    have hno := hfind i (List.mem_range.mpr hi)
    simp only [Bool.or_eq_true, bne_iff_ne, ne_eq, not_or, Decidable.not_not] at hno
    exact hno.1

/-- The test of the lookup on the two strings: both lengths cut to 32, then `strncmp`. -/
def sameName (fname filename : List UInt8) : Bool :=
  let dentryLen := min (strlen filename) filenameLen
  let fnameLen := min (strlen fname) filenameLen
  fnameLen == dentryLen && strncmp fname filename fnameLen == 0

theorem take_min_strlen (s : List UInt8) :
    (text s).take (min (strlen s) filenameLen) = (text s).take filenameLen := by
  rw [List.take_eq_take_iff]
  show min (min (strlen s) filenameLen) (strlen s) = min filenameLen (strlen s)
  omega

/-- **The lookup's test, in its own terms**: the two texts agree when cut to 32. -/
theorem sameName_iff (fname filename : List UInt8) :
    sameName fname filename = true ↔
      (text filename).take filenameLen = (text fname).take filenameLen := by
  have hlength : ∀ s, ((text s).take filenameLen).length = min (strlen s) filenameLen := fun s =>
    List.length_take.trans (Nat.min_comm _ _)
  unfold sameName
  simp only [Bool.and_eq_true, beq_iff_eq]
  constructor
  · rintro ⟨heq, hcmp⟩
    rw [strncmp_eq_zero_iff (Nat.min_le_left _ _) (by omega), take_min_strlen, heq,
      take_min_strlen] at hcmp
    exact hcmp.symm
  · intro h
    have heq : min (strlen fname) filenameLen = min (strlen filename) filenameLen := by
      rw [← hlength, ← hlength, h]
    refine ⟨heq, ?_⟩
    rw [strncmp_eq_zero_iff (Nat.min_le_left _ _) (by omega), take_min_strlen, heq, take_min_strlen]
    exact h.symm

/-- The name of a directory entry: the bytes before the first NUL, all 32 when there is none. -/
def Dentry.name (d : Dentry) : List UInt8 := text d.filename.toList

theorem Dentry.name_length_le (d : Dentry) : d.name.length ≤ filenameLen := by
  have h : d.name.length ≤ d.filename.toList.length := (List.takeWhile_prefix _).length_le
  rwa [Vector.length_toList] at h

/-- The test on an entry: its name is the query's text cut to 32. -/
theorem dentryMatches_iff (fname : List UInt8) (curr : Dentry) :
    dentryMatches fname curr = true ↔ curr.name = (text fname).take filenameLen := by
  have hname : (text curr.filename.toList).take filenameLen = curr.name :=
    List.take_of_length_le curr.name_length_le
  rw [← hname]
  exact sameName_iff fname curr.filename.toList

/-- `readDentryByName` fails exactly when no entry of the directory has the name. -/
theorem readDentryByName_eq_none_iff (img : Image) (fname : List UInt8) :
    readDentryByName img fname = none ↔
      ∀ i, i < img.dirCount.toNat → (img.direntries i).name ≠ (text fname).take filenameLen := by
  unfold readDentryByName
  split
  · rename_i i hfind
    have hi := List.mem_range.mp (List.mem_of_find?_eq_some hfind)
    have hfound := List.find?_some hfind
    have hm := (dentryMatches_iff fname _).mp hfound
    simp only [reduceCtorEq, false_iff, not_forall]
    exact ⟨i, hi, fun h => h hm⟩
  · rename_i hfind
    rw [List.find?_eq_none] at hfind
    refine iff_of_true rfl fun i hi h => ?_
    exact hfind i (List.mem_range.mpr hi) ((dentryMatches_iff fname _).mpr h)

/-! ## A small image

  Three entries: the directory itself, a `shell` of 28 bytes with the magic number of an
  executable, and the RTC. -/

def dotEntry : Dentry :=
  { filename := #v[46, 0, 0, 0, 0, 0, 0, 0, 0, 0, 0, 0, 0, 0, 0, 0, 0, 0, 0, 0, 0, 0, 0, 0, 0, 0, 0, 0,
      0, 0, 0, 0]
    filetype := 1, inodeNum := 0 }

def shellEntry : Dentry :=
  { filename := #v[115, 104, 101, 108, 108, 0, 0, 0, 0, 0, 0, 0, 0, 0, 0, 0, 0, 0, 0, 0, 0, 0, 0, 0,
      0, 0, 0, 0, 0, 0, 0, 0]
    filetype := 2, inodeNum := 1 }

def rtcEntry : Dentry :=
  { filename := #v[114, 116, 99, 0, 0, 0, 0, 0, 0, 0, 0, 0, 0, 0, 0, 0, 0, 0, 0, 0, 0, 0, 0, 0, 0, 0,
      0, 0, 0, 0, 0, 0]
    filetype := 0, inodeNum := 0 }

def smallImage : Image where
  dirCount := 3
  inodeCount := 2
  dataCount := 1
  direntries i := if i = 0 then dotEntry else if i = 1 then shellEntry else rtcEntry
  inodes i := { length := if i = 1 then 28 else 0, dataBlockNum := fun _ => 0 }
  block _ i := if i = 0 then 0x7F else if i = 1 then 0x45 else if i = 2 then 0x4C
    else if i = 3 then 0x46 else 0

example : readDentryByName smallImage [115, 104, 101, 108, 108] = some (shellEntry, 5) := by decide

end ByteVerse
