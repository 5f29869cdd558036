/-
  What `read_data` reads and writes, byte by byte.

  `readDataTrace` is `read_data` with its accesses to inodes, data blocks and the caller's buffer, and
  `mem_readDataTrace` says which they are.  From it follow

  * `readData_exact`: on a well-formed image `read_data` copies the requested piece of the file and
    touches nothing outside the module and that piece of the buffer;
  * `readsSafely_iff`: what an arbitrary inode must satisfy for its two checks to be enough;
  * `load_in_page_iff`: which programs `execute` copies to their page without leaving it.
-/
import Mathlib.Data.List.GetD
import ByteVerse.Accesses
import ByteVerse.ExecuteContract
import ByteVerse.ImageLayout

set_option linter.unusedVariables false

namespace ByteVerse

open Accesses SlotTable

/-! ## `read_data`, access by access -/

/-- What `read_data` touches: two fields of an inode, data blocks and the caller's buffer. -/
inductive DataCell where
  | length (inode : Int)
  | dataBlockNum (inode index : Int)
  | blockByte (block i : Int)
  | buf (i : Int)
  deriving DecidableEq

/-- The loop of `read_data` from `numWritten` on: the return value and the accesses.  The fuel bounds
    the iterations. -/
def readDataSteps (img : Image) (inode offset length : Int) :
    Nat → Int → Int × List (Access DataCell UInt8)
  | 0, numWritten => (numWritten, [])
  | fuel + 1, numWritten =>
    let myInode := img.inodes inode
    if numWritten + offset < myInode.length ∧ numWritten < length then
      let blockIdx := (numWritten + offset).tdiv size4KB
      if blockIdx > myInode.length.tdiv size4KB then (-1, [])
      else
        let currBlock := myInode.dataBlockNum blockIdx
        if currBlock > img.dataCount then (-1, [.read (.dataBlockNum inode blockIdx)])
        else
          let i := (numWritten + offset).tmod size4KB
          let rest := readDataSteps img inode offset length fuel (numWritten + 1)
          (rest.1, .read (.dataBlockNum inode blockIdx) :: .read (.blockByte currBlock i) ::
            .write (.buf numWritten) (img.block currBlock i) :: rest.2)
    else (numWritten, [])

/-- `read_data`: the return value and the accesses. -/
def readDataTrace (img : Image) (inode offset length : Int) :
    Int × List (Access DataCell UInt8) :=
  if inode ≥ img.inodeCount then (-1, [])
  else
    let steps := readDataSteps img inode offset length
      ((img.inodes inode).length - offset).toNat 0
    (steps.1, .read (.length inode) :: steps.2)

/-- The number of the block that byte `p` of the file lies in. -/
def blockAt (inode : Inode) (p : Int) : Int := inode.dataBlockNum (p.tdiv size4KB)

/-- The loop gets to byte `m` of a request: the byte lies in the file and in the request, and the
    blocks of the bytes between `n` and it are accepted. -/
structure ComesTo (img : Image) (inode offset length n m : Int) : Prop where
  from_start : n ≤ m
  in_file : m + offset < (img.inodes inode).length
  in_request : m < length
  accepted : ∀ q, n ≤ q → q < m → blockAt (img.inodes inode) (q + offset) ≤ img.dataCount

/-- What it accesses there. -/
def accessesAt (img : Image) (inode offset m : Int) : List (Access DataCell UInt8) :=
  .read (.dataBlockNum inode ((m + offset).tdiv size4KB)) ::
    if blockAt (img.inodes inode) (m + offset) > img.dataCount then []
    else
      [.read (.blockByte (blockAt (img.inodes inode) (m + offset)) ((m + offset).tmod size4KB)),
        .write (.buf m) (fileByte img (img.inodes inode) (m + offset))]

section Trace

variable {img : Image} {inode offset length : Int}

/-- The check of the block index never fails: the byte is inside the file. -/
theorem blockIdx_le {L p : Int} (h0 : 0 ≤ p) (hp : p < L) :
    ¬ p.tdiv size4KB > L.tdiv size4KB := by
  rw [Int.tdiv_eq_ediv_of_nonneg h0, Int.tdiv_eq_ediv_of_nonneg (by omega)]
  simp only [size4KB]
  omega

/-- One round of the loop that copies a byte. -/
theorem readDataSteps_copy {fuel : Nat} {n : Int} (hoffset : 0 ≤ offset) (hn : 0 ≤ n)
    (hfile : n + offset < (img.inodes inode).length) (hreq : n < length)
    (hblock : blockAt (img.inodes inode) (n + offset) ≤ img.dataCount) :
    readDataSteps img inode offset length (fuel + 1) n =
      ((readDataSteps img inode offset length fuel (n + 1)).1,
        accessesAt img inode offset n ++ (readDataSteps img inode offset length fuel (n + 1)).2) := by
  have hnot : ¬ blockAt (img.inodes inode) (n + offset) > img.dataCount := by omega
  simp only [readDataSteps, accessesAt]
  rw [if_pos ⟨hfile, hreq⟩, if_neg (blockIdx_le (by omega) hfile), if_neg hnot]
  exact if_neg hnot

/-- One that refuses a block. -/
theorem readDataSteps_refuse {fuel : Nat} {n : Int} (hoffset : 0 ≤ offset) (hn : 0 ≤ n)
    (hfile : n + offset < (img.inodes inode).length) (hreq : n < length)
    (hblock : blockAt (img.inodes inode) (n + offset) > img.dataCount) :
    readDataSteps img inode offset length (fuel + 1) n = (-1, accessesAt img inode offset n) := by
  simp only [readDataSteps, accessesAt]
  rw [if_pos ⟨hfile, hreq⟩, if_neg (blockIdx_le (by omega) hfile), if_pos hblock]
  exact if_pos hblock

/-- The end of the loop. -/
theorem readDataSteps_stop {fuel : Nat} {n : Int}
    (hstop : ¬ (n + offset < (img.inodes inode).length ∧ n < length)) :
    readDataSteps img inode offset length fuel n = (n, []) := by
  cases fuel with
  | zero => rfl
  | succ fuel => exact if_neg hstop

/-- **The accesses of the loop** are those at the bytes it comes to. -/
theorem mem_readDataSteps (hoffset : 0 ≤ offset) {a : Access DataCell UInt8} :
    ∀ (fuel : Nat) (n : Int), 0 ≤ n → (img.inodes inode).length - offset - n ≤ fuel →
      (a ∈ (readDataSteps img inode offset length fuel n).2 ↔
        ∃ m, ComesTo img inode offset length n m ∧ a ∈ accessesAt img inode offset m) := by
  intro fuel
  induction fuel with
  | zero =>
    intro n hn hfuel
    refine iff_of_false (List.not_mem_nil) ?_
    rintro ⟨m, hm, -⟩
    have hfrom := hm.from_start
    have hfile := hm.in_file
    omega
  | succ fuel ih =>
    intro n hn hfuel
    by_cases hmore : n + offset < (img.inodes inode).length ∧ n < length
    · obtain ⟨hfile, hreq⟩ := hmore
      have hhere : ComesTo img inode offset length n n :=
        ⟨Int.le_refl n, hfile, hreq, fun q hq hlt => by omega⟩
      by_cases hblock : blockAt (img.inodes inode) (n + offset) ≤ img.dataCount
      · rw [readDataSteps_copy hoffset hn hfile hreq hblock, List.mem_append,
          ih (n + 1) (by omega) (by omega)]
        constructor
        · rintro (ha | ⟨m, hm, ha⟩)
          · exact ⟨n, hhere, ha⟩
          · refine ⟨m, ⟨by have := hm.from_start; omega, hm.in_file, hm.in_request, ?_⟩, ha⟩
            intro q hq hlt
            by_cases heq : q = n
            · rw [heq]
              exact hblock
            · exact hm.accepted q (by omega) hlt
        · rintro ⟨m, hm, ha⟩
          by_cases heq : m = n
          · rw [heq] at ha
            exact Or.inl ha
          · refine Or.inr ⟨m, ⟨by have := hm.from_start; omega, hm.in_file, hm.in_request, ?_⟩, ha⟩
            intro q hq hlt
            exact hm.accepted q (by omega) hlt
      · rw [readDataSteps_refuse hoffset hn hfile hreq (by omega)]
        constructor
        · intro ha
          exact ⟨n, hhere, ha⟩
        · rintro ⟨m, hm, ha⟩
          by_cases heq : m = n
          · rwa [heq] at ha
          · -- the loop does not get past the refused block
            exact absurd (hm.accepted n (Int.le_refl n) (by have := hm.from_start; omega)) hblock
    · rw [readDataSteps_stop hmore]
      refine iff_of_false List.not_mem_nil ?_
      rintro ⟨m, hm, -⟩
      have hfrom := hm.from_start
      have hfile := hm.in_file
      have hreq := hm.in_request
      exact hmore ⟨by omega, by omega⟩

/-- **The accesses of `read_data`.** -/
theorem mem_readDataTrace (hinode : inode < img.inodeCount) (hoffset : 0 ≤ offset)
    {a : Access DataCell UInt8} :
    a ∈ (readDataTrace img inode offset length).2 ↔
      a = .read (.length inode) ∨
        ∃ m, ComesTo img inode offset length 0 m ∧ a ∈ accessesAt img inode offset m := by
  unfold readDataTrace
  rw [if_neg (by omega), List.mem_cons, mem_readDataSteps hoffset _ 0 (Int.le_refl 0) (by omega)]

/-- The traced function returns what `readData` returns. -/
theorem readDataTrace_ret (hoffset : 0 ≤ offset) :
    (readDataTrace img inode offset length).1 = (readData img inode offset length).1 := by
  have hloop : ∀ (fuel : Nat) (n : Int), 0 ≤ n →
      (readDataSteps img inode offset length fuel n).1 =
        (readDataLoop img (img.inodes inode) offset length fuel n).1 := by
    intro fuel
    induction fuel with
    | zero =>
      intro n hn
      rfl
    | succ fuel ih =>
      intro n hn
      simp only [readDataSteps, readDataLoop]
      split
      · split
        · rfl
        split
        · rfl
        · exact ih (n + 1) (by omega)
      · rfl
  unfold readDataTrace readData
  split
  · rfl
  · exact hloop _ 0 (Int.le_refl 0)

end Trace

/-! ## Reading a well-formed image -/

/-- Blocks of `b` values each, one behind the other. -/
theorem getD_flatMap_blocks (f : Nat → Nat → UInt8) {b : Nat} (hb : 0 < b) {n p : Nat}
    (hp : p < n * b) :
    ((List.range n).flatMap fun j => (List.range b).map (f j)).getD p 0 = f (p / b) (p % b) := by
  induction n with
  | zero => exact absurd hp (by omega)
  | succ n ih =>
    have hlen : ((List.range n).flatMap fun j => (List.range b).map (f j)).length = n * b := by
      rw [List.length_flatMap]
      simp
    rw [List.range_succ, List.flatMap_append, List.flatMap_singleton]
    by_cases hlt : p < n * b
    · rw [List.getD_append _ _ 0 p (by omega), ih hlt]
    · have hrem : p - n * b < b := by
        rw [Nat.succ_mul] at hp
        omega
      have hdiv : p / b = n := by
        rw [Nat.div_eq_iff hb]
        rw [Nat.succ_mul] at hp
        omega
      have hmod : p - n * b = p % b := by
        have hsplit := Nat.div_add_mod p b
        rw [hdiv, Nat.mul_comm] at hsplit
        omega
      rw [List.getD_append_right _ _ 0 p (by omega), hlen, List.getD_eq_getElem _ 0 (by simpa using hrem),
        List.getElem_map, List.getElem_range, hdiv, hmod]

/-- The number of data blocks an inode has room for. -/
@[simp] def dataBlockNumInode : Nat := 1023

/-- A file: its data blocks in inode order, one behind the other, cut at its length. -/
def joinedBlocks (img : Image) (inode : Inode) : List UInt8 :=
  ((List.range dataBlockNumInode).flatMap fun j => (List.range 4096).map fun i =>
    img.block (inode.dataBlockNum (j : Nat)) (i : Nat)).take inode.length.toNat

theorem getD_joinedBlocks {img : Image} {inode : Inode} {p : Int}
    (hlen : inode.length ≤ dataBlockNumInode * size4KB) (h0 : 0 ≤ p) (hp : p < inode.length) :
    (joinedBlocks img inode).getD p.toNat 0 = fileByte img inode p := by
  obtain ⟨p, rfl⟩ := Int.eq_ofNat_of_zero_le h0
  simp only [dataBlockNumInode, size4KB] at hlen
  have hblocks := getD_flatMap_blocks (fun j i => img.block (inode.dataBlockNum (j : Nat)) (i : Nat))
    (show 0 < 4096 by decide) (n := dataBlockNumInode) (p := p) (by simp only [dataBlockNumInode]; omega)
  rw [Int.toNat_natCast, joinedBlocks, List.getD_eq_getElem?_getD,
    List.getElem?_take_of_lt (by omega), ← List.getD_eq_getElem?_getD, hblocks, fileByte, size4KB,
    Int.tdiv_eq_ediv_of_nonneg h0, Int.tmod_eq_emod_of_nonneg h0]
  rfl

/-- What the images of this section satisfy: no inode is longer than its block numbers reach, and
    the numbers of the blocks in use are those of data blocks. -/
structure WellFormedData (img : Image) : Prop where
  dataCount : 0 ≤ img.dataCount
  length : ∀ n, 0 ≤ n → n < img.inodeCount →
    (img.inodes n).length ≤ dataBlockNumInode * size4KB
  blocks : ∀ n, 0 ≤ n → n < img.inodeCount → ∀ j, 0 ≤ j → j * size4KB < (img.inodes n).length →
    0 ≤ (img.inodes n).dataBlockNum j ∧ (img.inodes n).dataBlockNum j < img.dataCount

/-- The bytes of the module: one block for the boot block, one for each inode, the data blocks. -/
def moduleSize (img : Image) : Int := (1 + img.inodeCount + img.dataCount) * size4KB

/-- The access stays inside the module (or goes to the caller's buffer). -/
def InModule (img : Image) : DataCell → Prop
  | .length n => 0 ≤ inodeStart n ∧ inodeStart n + 4 ≤ moduleSize img
  | .dataBlockNum n index =>
    0 ≤ dataBlockNumStart n index ∧ dataBlockNumStart n index + 4 ≤ moduleSize img
  | .blockByte b i =>
    0 ≤ blockByteStart img.inodeCount b i ∧ blockByteStart img.inodeCount b i + 1 ≤ moduleSize img
  | .buf i => True

section WellFormed

variable {img : Image} {inode offset length : Int}

theorem WellFormedData.block {p : Int} (h : WellFormedData img) (h0 : 0 ≤ inode)
    (hn : inode < img.inodeCount) (hp0 : 0 ≤ p) (hp : p < (img.inodes inode).length) :
    0 ≤ blockAt (img.inodes inode) p ∧ blockAt (img.inodes inode) p < img.dataCount := by
  unfold blockAt
  rw [Int.tdiv_eq_ediv_of_nonneg hp0]
  refine h.blocks inode h0 hn _ ?_ ?_
  · simp only [size4KB]
    omega
  · simp only [size4KB]
    omega

/-- Reads of such an image do not fail. -/
theorem WellFormedData.readable (h : WellFormedData img) (h0 : 0 ≤ inode)
    (hn : inode < img.inodeCount) (hoffset : 0 ≤ offset) : Readable img inode offset length := by
  refine ⟨hn, fun i hi _ hlen => Int.le_of_lt ?_⟩
  exact (h.block h0 hn (by omega) hlen).2

/-- On such an image the loop comes to every byte of the request that is in the file. -/
theorem comesTo_iff (h : WellFormedData img) (h0 : 0 ≤ inode) (hn : inode < img.inodeCount)
    (hoffset : 0 ≤ offset) {m : Int} :
    ComesTo img inode offset length 0 m ↔
      0 ≤ m ∧ m < length ∧ m < (img.inodes inode).length - offset := by
  constructor
  · intro hm
    have hfile := hm.in_file
    exact ⟨hm.from_start, hm.in_request, by omega⟩
  · rintro ⟨hm0, hreq, hfile⟩
    refine ⟨hm0, by omega, hreq, fun q hq hlt => ?_⟩
    exact Int.le_of_lt (h.block h0 hn (by omega) (by omega)).2

/-- It stays inside the module. -/
theorem within_accessesAt (h : WellFormedData img) (h0 : 0 ≤ inode) (hn : inode < img.inodeCount)
    {p : Int} (hp0 : 0 ≤ p + offset) (hp : p + offset < (img.inodes inode).length) :
    Within (InModule img) (accessesAt img inode offset p) := by
  have hblock := h.block h0 hn hp0 hp
  have hlen := h.length inode h0 hn
  have hdata := h.dataCount
  rw [dataBlockNumInode] at hlen
  unfold accessesAt
  rw [if_neg (by omega), Int.tdiv_eq_ediv_of_nonneg hp0, Int.tmod_eq_emod_of_nonneg hp0]
  simp only [within_cons, Access.cell, InModule, dataBlockNumStart, inodeStart, blockByteStart,
    moduleSize, size4KB] at hlen ⊢
  refine ⟨?_, ?_, trivial, within_nil⟩
  · omega
  · omega

/-- What the loop writes to the buffer: the bytes of the file from the offset on. -/
theorem write_mem_iff (h : WellFormedData img) (h0 : 0 ≤ inode) (hn : inode < img.inodeCount)
    (hoffset : 0 ≤ offset) (length i : Int) (v : UInt8) :
    .write (.buf i) v ∈ (readDataTrace img inode offset length).2 ↔
      0 ≤ i ∧ i < length ∧ i < (img.inodes inode).length - offset ∧
        v = fileByte img (img.inodes inode) (i + offset) := by
  rw [mem_readDataTrace hn hoffset]
  constructor
  · rintro (heq | ⟨m, hm, hw⟩)
    · cases heq
    · obtain ⟨hm0, hreq, hfile⟩ := (comesTo_iff h h0 hn hoffset).mp hm
      have hblock := h.block h0 hn (show 0 ≤ m + offset by omega) (by omega)
      unfold accessesAt at hw
      rw [if_neg (by omega)] at hw
      simp only [List.mem_cons, reduceCtorEq, Access.write.injEq, DataCell.buf.injEq,
        List.not_mem_nil, or_false, false_or] at hw
      obtain ⟨rfl, rfl⟩ := hw
      exact ⟨hm0, hreq, hfile, rfl⟩
  · rintro ⟨hi0, hreq, hfile, rfl⟩
    refine Or.inr ⟨i, (comesTo_iff h h0 hn hoffset).mpr ⟨hi0, hreq, hfile⟩, ?_⟩
    have hblock := h.block h0 hn (show 0 ≤ i + offset by omega) (by omega)
    unfold accessesAt
    rw [if_neg (by omega)]
    exact List.mem_cons_of_mem _ (List.mem_cons_of_mem _ List.mem_cons_self)

/-- The number of bytes that a well-formed file and a request have in common is returned. -/
theorem readDataTrace_count (h : WellFormedData img) (h0 : 0 ≤ inode) (hn : inode < img.inodeCount)
    (hoffset : 0 ≤ offset) (hlength : 0 ≤ length) :
    (readDataTrace img inode offset length).1 =
      min length (max 0 ((img.inodes inode).length - offset)) := by
  obtain ⟨p, rfl⟩ := Int.eq_ofNat_of_zero_le hoffset
  rw [readDataTrace_ret hoffset, readData_of_readable p (h.readable h0 hn hoffset)]
  simp only [List.length_take, List.length_drop, length_fileContent]
  omega

/-- **`read_data` is exact on well-formed images.**  For every module whose image is well formed,
    every inode of it, offset and length: it returns the number `k` of bytes that the request and
    the file have in common, the first `k` bytes of the buffer become the bytes of the file from the
    offset on, nothing else of the buffer is written, and nothing outside the module is read. -/
theorem readData_exact (fs : Int → UInt8) (h : WellFormedData (Image.ofBytes fs))
    (inode offset length : Int) (h0 : 0 ≤ inode) (hn : inode < (Image.ofBytes fs).inodeCount)
    (hoffset : 0 ≤ offset) (hlength : 0 ≤ length) :
    let img := Image.ofBytes fs
    let r := readDataTrace img inode offset length
    let k := min length (max 0 ((img.inodes inode).length - offset))
    r.1 = k ∧
      (∀ buf i, 0 ≤ i → i < k → replay r.2 buf (.buf i) =
        (joinedBlocks img (img.inodes inode)).getD (offset + i).toNat 0) ∧
      (∀ a ∈ r.2, ∀ i, a.WritesTo (.buf i) → 0 ≤ i ∧ i < k) ∧
      Within (InModule img) r.2 := by
  generalize Image.ofBytes fs = img at h hn
  show (readDataTrace img inode offset length).1 = _ ∧ _
  have hwrite := write_mem_iff h h0 hn hoffset length
  refine ⟨readDataTrace_count h h0 hn hoffset hlength, ?_, ?_, ?_⟩
  · intro buf i hi hik
    have hfile : i < (img.inodes inode).length - offset := by omega
    rw [getD_joinedBlocks (h.length inode h0 hn) (by omega) (by omega), Int.add_comm]
    refine replay_of_written ((hwrite i _).mpr ⟨hi, by omega, hfile, rfl⟩) fun v' hv' => ?_
    exact ((hwrite i v').mp hv').2.2.2
  · intro a ha i hw
    cases a with
    | read cell => exact hw.elim
    | write cell v =>
      obtain rfl : cell = .buf i := hw
      obtain ⟨hi, hreq, hfile, -⟩ := (hwrite i v).mp ha
      exact ⟨hi, by omega⟩
  · intro a ha
    rcases (mem_readDataTrace hn hoffset).mp ha with rfl | ⟨m, hm, hacc⟩
    · -- the length of the inode, in front of its block numbers
      have hdata := h.dataCount
      simp only [Access.cell, InModule, inodeStart, moduleSize, size4KB]
      omega
    · obtain ⟨hm0, hreq, hfile⟩ := (comesTo_iff h h0 hn hoffset).mp hm
      exact within_accessesAt h h0 hn (by omega) (by omega) a hacc

end WellFormed

/-- A module with one inode, of a file of three bytes in block 0. -/
def tinyModule (a : Int) : UInt8 :=
  if a = 4 then 1 else if a = 8 then 1 else if a = 4096 then 3
  else if a = 8192 then 65 else if a = 8193 then 66 else if a = 8194 then 67 else 0

theorem tinyModule_wellFormed : WellFormedData (Image.ofBytes tinyModule) := by
  have hlen : ((Image.ofBytes tinyModule).inodes 0).length = 3 := by decide
  constructor
  · decide
  · intro n h0 hn
    obtain rfl : n = 0 := by
      have hcount : (Image.ofBytes tinyModule).inodeCount = 1 := by decide
      omega
    rw [hlen]
    decide
  · intro n h0 hn j hj0 hj
    obtain rfl : n = 0 := by
      have hcount : (Image.ofBytes tinyModule).inodeCount = 1 := by decide
      omega
    obtain rfl : j = 0 := by
      rw [hlen] at hj
      simp only [size4KB] at hj
      omega
    decide

/-- Ten bytes from offset 1 on: there are two. -/
theorem tinyModule_read :
    (readDataTrace (Image.ofBytes tinyModule) 0 1 10).1 = 2 ∧
      replay (readDataTrace (Image.ofBytes tinyModule) 0 1 10).2 (fun _ => 0) (.buf 1) = 67 := by
  have h := readData_exact tinyModule tinyModule_wellFormed 0 1 10 (by decide) (by decide)
    (by decide) (by decide)
  exact ⟨h.1, (h.2.1 (fun _ => 0) 1 (by decide) (by decide)).trans (by decide +kernel)⟩

/-! ## Reading with a corrupt inode -/

/-- The access stays inside the inode's block numbers and inside the data blocks. -/
def InInode (img : Image) : DataCell → Prop
  | .dataBlockNum _ index => 0 ≤ index ∧ index < dataBlockNumInode
  | .blockByte b _ => 0 ≤ b ∧ b < img.dataCount
  | _ => True

/-- What `read_data` has to do with an inode that may be corrupt: use its own block numbers and the
    data blocks of the image, and return -1 when it meets the number of another block. -/
structure ReadsSafely (img : Image) (inode offset length : Int) : Prop where
  accesses : Within (InInode img) (readDataTrace img inode offset length).2
  refuses : ∀ index, .read (.dataBlockNum inode index) ∈ (readDataTrace img inode offset length).2 →
    ¬ (0 ≤ (img.inodes inode).dataBlockNum index ∧
      (img.inodes inode).dataBlockNum index < img.dataCount) →
    (readDataTrace img inode offset length).1 = -1

section Corrupt

variable {img : Image} {inode offset length : Int}

/-- The bytes the loop comes to, by their positions in the file. -/
theorem comesTo_position {p : Int} (hoffset : 0 ≤ offset) :
    ComesTo img inode offset length 0 (p - offset) ↔
      offset ≤ p ∧ p < offset + length ∧ p < (img.inodes inode).length ∧
        ∀ q, offset ≤ q → q < p → blockAt (img.inodes inode) q ≤ img.dataCount := by
  constructor
  · intro hm
    have hfrom := hm.from_start
    have hreq := hm.in_request
    have hfile := hm.in_file
    refine ⟨by omega, by omega, by omega, fun q hq hlt => ?_⟩
    have hacc := hm.accepted (q - offset) (by omega) (by omega)
    rwa [Int.sub_add_cancel] at hacc
  · rintro ⟨hlo, hhi, hfile, hacc⟩
    exact ⟨by omega, by omega, by omega, fun q hq hlt => hacc (q + offset) (by omega) (by omega)⟩

/-- A block number above the number of blocks is refused when the loop meets it. -/
theorem readDataTrace_refuses (hoffset : 0 ≤ offset) {m : Int}
    (hm : ComesTo img inode offset length 0 m)
    (hblock : blockAt (img.inodes inode) (m + offset) > img.dataCount) :
    (readDataTrace img inode offset length).1 = -1 := by
  rw [readDataTrace_ret hoffset]
  by_contra hok
  have hreadable := (readData_ok_iff hoffset).mp hok
  have hfrom := hm.from_start
  have hreq := hm.in_request
  have hle := hreadable.2 (m + offset) (by omega) (by omega) hm.in_file
  unfold blockAt at hblock
  omega

/-- Byte `p` of the file makes no trouble: the block numbers of the inode reach to it, and its block
    is one that is refused or a data block. -/
def UsableAt (img : Image) (inode : Inode) (p : Int) : Prop :=
  p < dataBlockNumInode * size4KB ∧
    (blockAt inode p ≤ img.dataCount → 0 ≤ blockAt inode p ∧ blockAt inode p ≠ img.dataCount)

theorem within_accessesAt_iff {m : Int} (hm : 0 ≤ m + offset) :
    Within (InInode img) (accessesAt img inode offset m) ↔
      UsableAt img (img.inodes inode) (m + offset) := by
  have hindex : InInode img (.dataBlockNum inode ((m + offset).tdiv size4KB)) ↔
      m + offset < dataBlockNumInode * size4KB := by
    rw [Int.tdiv_eq_ediv_of_nonneg hm]
    simp only [InInode, size4KB, dataBlockNumInode]
    omega
  unfold accessesAt UsableAt
  rw [within_cons]
  refine and_congr hindex ?_
  split
  · exact iff_of_true within_nil fun hle => by omega
  · rename_i haccepted
    simp only [within_cons, Access.cell, InInode, within_nil, and_true]
    omega

/-- The block number read at a byte is that of the byte's block. -/
theorem index_of_mem_accessesAt {m index : Int}
    (h : .read (.dataBlockNum inode index) ∈ accessesAt img inode offset m) :
    index = (m + offset).tdiv size4KB := by
  rw [accessesAt, List.mem_cons] at h
  rcases h with heq | hcopied
  · cases heq
    rfl
  · split at hcopied
    · cases hcopied
    · simp only [List.mem_cons, Access.read.injEq, reduceCtorEq, List.not_mem_nil, or_self] at hcopied

end Corrupt

/-- **The two checks are enough exactly for these inodes**: every byte of the request that has only
    accepted blocks before it lies in one of the 1023 blocks, and this block, if it is accepted, has
    a number from 0 on and below the number of blocks. -/
theorem readsSafely_iff (img : Image) (inode offset length : Int) (h0 : 0 ≤ inode)
    (hn : inode < img.inodeCount) (hoffset : 0 ≤ offset) (hlength : 0 ≤ length) :
    ReadsSafely img inode offset length ↔
      ∀ p, offset ≤ p → p < offset + length → p < (img.inodes inode).length →
        (∀ q, offset ≤ q → q < p → blockAt (img.inodes inode) q ≤ img.dataCount) →
        UsableAt img (img.inodes inode) p := by
  constructor
  · intro h p hlo hhi hfile hacc
    have hm := (comesTo_position hoffset).mpr ⟨hlo, hhi, hfile, hacc⟩
    have hwithin : Within (InInode img) (accessesAt img inode offset (p - offset)) := by
      intro a ha
      exact h.accesses a ((mem_readDataTrace hn hoffset).mpr (Or.inr ⟨_, hm, ha⟩))
    rw [within_accessesAt_iff (by omega), Int.sub_add_cancel] at hwithin
    exact hwithin
  · intro h
    have husable : ∀ m, ComesTo img inode offset length 0 m →
        UsableAt img (img.inodes inode) (m + offset) := by
      intro m hm
      have hpos := (comesTo_position (p := m + offset) hoffset).mp (by rwa [Int.add_sub_cancel])
      exact h _ hpos.1 hpos.2.1 hpos.2.2.1 hpos.2.2.2
    constructor
    · intro a ha
      rcases (mem_readDataTrace hn hoffset).mp ha with rfl | ⟨m, hm, hacc⟩
      · exact trivial
      · have hfrom := hm.from_start
        exact (within_accessesAt_iff (by omega)).mpr (husable m hm) a hacc
    · intro index hread hbad
      rcases (mem_readDataTrace hn hoffset).mp hread with heq | ⟨m, hm, hacc⟩
      · cases heq
      · refine readDataTrace_refuses hoffset hm ?_
        rw [index_of_mem_accessesAt hacc] at hbad
        have hblock := (husable m hm).2
        unfold blockAt at hblock ⊢
        by_contra hle
        have hdata := hblock (by omega)
        exact hbad ⟨hdata.1, by omega⟩

/-- An inode of 4097 bytes whose first block number is that of a block, and whose second one is
    larger than the number of blocks. -/
theorem readsSafely_two_blocks : ReadsSafely (twoBlockImage 0 2) 0 4090 100 := by
  refine (readsSafely_iff (twoBlockImage 0 2) 0 4090 100 (by decide) (by decide) (by decide)
    (by decide)).mpr fun p hlo hhi hfile hacc => ?_
  have hlen : p < 4097 := hfile
  have hblock : blockAt ((twoBlockImage 0 2).inodes 0) p = if p / 4096 = 0 then 0 else 2 := by
    unfold blockAt
    rw [Int.tdiv_eq_ediv_of_nonneg (by omega)]
    rfl
  have hcount : (twoBlockImage 0 2).dataCount = 1 := rfl
  unfold UsableAt
  rw [hblock, hcount]
  constructor
  · simp only [dataBlockNumInode, size4KB]
    omega
  · intro hle
    split
    · exact ⟨Int.le_refl 0, by decide⟩
    · rename_i hsecond
      rw [if_neg hsecond] at hle
      omega

/-- A block number equal to the number of blocks is accepted, and bytes behind the image are
    copied. -/
theorem not_readsSafely_last : ¬ ReadsSafely (twoBlockImage 1 0) 0 0 1 := by
  intro h
  have hread : .read (.blockByte 1 0) ∈ (readDataTrace (twoBlockImage 1 0) 0 0 1).2 := by decide
  have hlt : (1 : Int) < 1 := (h.accesses _ hread).2
  omega

/-! ## Loading a program -/

/-- `PROG_ADDRESS`. -/
@[simp] def progAddress : Int := 0x08048000

/-- `USER_ADD + MB_4`: the end of the page of the process, where that of the video memory begins. -/
@[simp] def pageEnd : Int := userAdd + mb4

/-- The accesses of the copy that `execute` makes of the program, if it gets to it. -/
def loadTrace (img : Image) (fr : Frame) (command : Option (List UInt8)) (k : Kernel) :
    List (Access DataCell UInt8) :=
  match checkProgram img fr command with
  | .error _ => []
  | .ok prog =>
    match firstFree k.procs.slotUsed 0 maxPcbs with
    | none => []
    | some _ => (readDataTrace img prog.inode 0 alot).2

/-- The copy stays below the end of the page: byte `i` of the buffer is at `PROG_ADDRESS + i`. -/
def LoadsInPage (img : Image) (fr : Frame) (command : Option (List UInt8)) (k : Kernel) : Prop :=
  ∀ i v, .write (.buf i) v ∈ loadTrace img fr command k → progAddress + i < pageEnd

section Load

variable {img : Image} {fr : Frame} {command : Option (List UInt8)} {k : Kernel} {d : Dentry}

/-- On a well-formed image an executable passes the checks. -/
theorem RealExecutable.passesChecks (h : WellFormedData img) (h0 : 0 ≤ d.inodeNum)
    (hn : d.inodeNum < img.inodeCount) (hexec : RealExecutable img d) (fr : Frame) :
    PassesChecks img fr d := by
  refine ⟨h.readable h0 hn (Int.le_refl 0), ?_, h.readable h0 hn (by decide)⟩
  have hmagic := hexec.2
  have hlen : 4 ≤ ((entryContent img d).take 4).length := by
    rw [hmagic]
    decide
  unfold MagicFound
  rw [overlay_take hlen, List.take_take]
  exact hmagic

/-- A program that passes the checks and finds a pid is copied. -/
theorem loadTrace_eq (hfit : Parsable command) (hnamed : namedEntry img command = some d)
    (hpass : PassesChecks img fr d) (hslot : FreeSlot k) :
    loadTrace img fr command k = (readDataTrace img d.inodeNum 0 alot).2 := by
  obtain ⟨i, hi⟩ := firstFree_of_freeSlot hslot
  unfold loadTrace
  rw [(checkProgram_named fr hfit hnamed).2.2 hpass]
  simp only [hi]
  rfl

/-- A byte is copied for each byte of the file, up to `ALOT` of them. -/
theorem write_mem_loadTrace (h : WellFormedData img) (hfit : Parsable command)
    (hnamed : namedEntry img command = some d) (h0 : 0 ≤ d.inodeNum) (hpass : PassesChecks img fr d)
    (hslot : FreeSlot k) (i : Int) :
    (∃ v, .write (.buf i) v ∈ loadTrace img fr command k) ↔
      0 ≤ i ∧ i < alot ∧ i < (img.inodes d.inodeNum).length := by
  rw [loadTrace_eq hfit hnamed hpass hslot]
  have hwrite := write_mem_iff h h0 hpass.first.1 (Int.le_refl 0) alot i
  constructor
  · rintro ⟨v, hv⟩
    obtain ⟨hi, hreq, hfile, -⟩ := (hwrite v).mp hv
    exact ⟨hi, hreq, by omega⟩
  · rintro ⟨hi, hreq, hfile⟩
    exact ⟨_, (hwrite _).mpr ⟨hi, hreq, by omega, rfl⟩⟩

end Load

/-- **Loading stays inside the page exactly for programs of at most 3899392 bytes**: for every
    well-formed image, every call of `execute` with arguments that fit, naming a file which passes its
    checks, and every kernel with a free pid. -/
theorem load_in_page_iff (img : Image) (h : WellFormedData img) (fr : Frame)
    (command : Option (List UInt8)) (hfit : Parsable command) (k : Kernel) (d : Dentry)
    (hnamed : namedEntry img command = some d) (h0 : 0 ≤ d.inodeNum)
    (hpass : PassesChecks img fr d) (hslot : FreeSlot k) :
    LoadsInPage img fr command k ↔ (img.inodes d.inodeNum).length ≤ 3899392 := by
  have hwrite := write_mem_loadTrace h hfit hnamed h0 hpass hslot
  constructor
  · intro hpage
    by_contra hlong
    -- byte 3899392 goes to the first address behind the page
    obtain ⟨v, hv⟩ := (hwrite 3899392).mpr ⟨by decide, by decide, by omega⟩
    have hbelow := hpage _ v hv
    simp only [progAddress, pageEnd, userAdd, mb4] at hbelow
    omega
  · intro hshort i v hv
    obtain ⟨hi, -, hfile⟩ := (hwrite i).mp ⟨v, hv⟩
    simp only [progAddress, pageEnd, userAdd, mb4]
    omega

/-- `smallImage`, with a shell of this length. -/
def shellOfLength (n : Int) : Image :=
  { smallImage with inodes := fun i => { length := if i = 1 then n else 0, dataBlockNum := fun _ => 0 } }

theorem shellOfLength_wellFormed {n : Int} (hn : n ≤ dataBlockNumInode * size4KB) :
    WellFormedData (shellOfLength n) := by
  constructor
  · show (0 : Int) ≤ 1
    decide
  · intro i h0 hi
    show (if i = 1 then n else 0) ≤ _
    split
    · exact hn
    · decide
  · intro i h0 hi j hj0 hj
    show (0 : Int) ≤ 0 ∧ (0 : Int) < 1
    decide

theorem shellOfLength_executable {n : Int} (hn : 28 ≤ n) :
    RealExecutable (shellOfLength n) shellEntry := by
  refine ⟨⟨rfl, hn⟩, ?_⟩
  have hlen : ((shellOfLength n).inodes shellEntry.inodeNum).length = n := rfl
  rw [entryContent, fileContent, ← List.map_take, List.take_range, hlen,
    Nat.min_eq_left (by omega)]
  rfl

/-- The small shell is loaded into its page. -/
theorem small_shell_in_page :
    LoadsInPage (shellOfLength 28) blankFrame (some [115, 104, 101, 108, 108])
      (initialKernel blankMemory) :=
  (load_in_page_iff (shellOfLength 28) (shellOfLength_wellFormed (by decide)) blankFrame
    (some [115, 104, 101, 108, 108]) (.of_fit (by decide)) (initialKernel blankMemory) shellEntry (by decide) (by decide)
    ((shellOfLength_executable (by decide)).passesChecks (shellOfLength_wellFormed (by decide))
      (by decide) (by decide) blankFrame)
    ⟨0, by decide, rfl⟩).mpr (by decide)

/-- A shell of one byte more than there is room for, in a well-formed image, is not. -/
theorem large_shell_leaves_page :
    WellFormedData (shellOfLength 3899393) ∧ RealExecutable (shellOfLength 3899393) shellEntry ∧
      ¬ LoadsInPage (shellOfLength 3899393) blankFrame (some [115, 104, 101, 108, 108])
        (initialKernel blankMemory) := by
  have hwf : WellFormedData (shellOfLength 3899393) := shellOfLength_wellFormed (by decide)
  have hexec : RealExecutable (shellOfLength 3899393) shellEntry :=
    shellOfLength_executable (by decide)
  refine ⟨hwf, hexec, fun hpage => ?_⟩
  have hnamed : namedEntry (shellOfLength 3899393) (some [115, 104, 101, 108, 108]) =
      some shellEntry := by decide
  have hslot : FreeSlot (initialKernel blankMemory) := ⟨0, by decide, rfl⟩
  obtain ⟨v, hv⟩ := (write_mem_loadTrace hwf (.of_fit (by decide)) hnamed (by decide)
    (hexec.passesChecks hwf (by decide) (by decide) blankFrame) hslot 3899392).mpr
    ⟨by decide, by decide, by decide⟩
  exact absurd (hpage _ v hv) (by decide)

end ByteVerse
