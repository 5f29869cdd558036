/-
  Listing the directory with `read`.

  `dir_read` keeps its cursor where a regular file has its offset, delivers one name a call and
  returns 0 at the end.  `readCalls` is a sequence of `read` calls on any descriptors of a process;
  among its results those of a directory descriptor are the entries from its cursor on, in order,
  and nothing but zeros after the last one (`directory_listing`), whatever is read from other
  descriptors in between.
-/
import ByteVerse.ListedFiles

set_option linter.unusedVariables false

namespace ByteVerse

open SlotTable

/-! ## A sequence of reads -/

/-- The results of `read` calls, given by descriptor and `nbytes`: descriptor, return value and the
    bytes stored.  `none` when one of them does not return. -/
def readCalls (img : Image) (k : Kernel) :
    List (Int × Int) → Option (Kernel × List (Int × Int × List UInt8))
  | [] => some (k, [])
  | (fd, nbytes) :: calls =>
    match sysRead img fd false nbytes k with
    | (_, none) => none
    | (k', some result) => (readCalls img k' calls).map fun r => (r.1, (fd, result) :: r.2)

/-- What the calls on one descriptor returned. -/
def resultsOf (fd : Int) (results : List (Int × Int × List UInt8)) : List (Int × List UInt8) :=
  (results.filter fun r => r.1 == fd).map Prod.snd

/-- How many of the calls are on it. -/
def readsOf (fd : Int) (calls : List (Int × Int)) : Nat := (calls.map Prod.fst).count fd

/-- Entry `j` of a listing: the name, filled up with zeros to 32 bytes, and its length; nothing
    behind the last entry. -/
def listingEntry (img : Image) (j : Nat) : Int × List UInt8 :=
  if (j : Int) < img.dirCount then
    ((img.direntries j).name.length,
      (img.direntries j).name ++ List.replicate (filenameLen - (img.direntries j).name.length) 0)
  else (0, [])

/-- The calls on this descriptor list the directory from entry `i` on, and leave the cursor behind
    the last entry listed. -/
structure ListsFrom (img : Image) (fd : Int) (i : Nat) (calls : List (Int × Int))
    (results : List (Int × Int × List UInt8)) (k : Kernel) : Prop where
  listed : resultsOf fd results =
    (List.range (readsOf fd calls)).map fun j => listingEntry img (i + j)
  cursor : DirFd (callerPcb k) fd (min (i + readsOf fd calls) img.dirCount.toNat : Nat)

/-! ## One read -/

section Step

variable {img : Image} {k : Kernel} {fd nbytes : Int} {i : Nat}

/-- In front of an entry `dir_read` delivers it. -/
theorem listingEntry_of_lt (hi : i < img.dirCount) :
    listingEntry img i = (((img.direntries i).name.length : Int), nameBytes (img.direntries i)) := by
  rw [listingEntry, if_pos hi, nameBytes_eq]

/-- Behind the last one it delivers nothing. -/
theorem dirRead_end {pcb : Pcb} (h : DirFd pcb fd i) (hi : img.dirCount ≤ i) :
    dirRead img fd pcb = (pcb, listingEntry img i) := by
  obtain ⟨h0, hlt, hfd⟩ := h
  have hnothing : listingEntry img i = (0, []) := if_neg (by omega)
  unfold dirRead
  rw [outOfBounds_of_lt h0 hlt, hfd, hnothing]
  simp only [Bool.false_eq_true, if_false, ne_eq, not_true_eq_false, ge_iff_le, hi, if_true]

/-- The step lemma for the descriptor that is read. -/
theorem sysRead_listing (h : DirFd (callerPcb k) fd i) (hi : i ≤ img.dirCount.toNat) (nbytes : Int) :
    (sysRead img fd false nbytes k).2 = some (listingEntry img i) ∧
      DirFd (callerPcb (sysRead img fd false nbytes k).1) fd
        (min (i + 1) img.dirCount.toNat : Nat) := by
  rw [sysRead_dirRead h.readTarget, callerPcb_sysRead, readPcb, h.readTarget]
  simp only
  by_cases hlt : (i : Int) < img.dirCount
  · rw [dirRead_entry h hlt, Nat.min_eq_left (by omega)]
    refine ⟨congrArg some (listingEntry_of_lt hlt).symm, h.1, h.2.1, ?_⟩
    show Function.update _ fd.toNat _ fd.toNat = _
    rw [Function.update_self, h.2.2]
    rfl
  · rw [dirRead_end h (by omega), Nat.min_eq_right (by omega), show img.dirCount.toNat = i by omega]
    exact ⟨rfl, h⟩

/-- And for every other one. -/
theorem DirFd.sysRead_other {fd' c : Int} (h : DirFd (callerPcb k) fd c) (hne : fd ≠ fd')
    (img : Image) (nbytes : Int) : DirFd (callerPcb (sysRead img fd' false nbytes k).1) fd c := by
  rw [callerPcb_sysRead]
  obtain ⟨off, hsame | hset⟩ := readPcb_offset img fd' false nbytes (callerPcb k)
  · rw [hsame]
    exact h
  · by_cases hneg : 0 ≤ fd'
    · have hslot : fd.toNat ≠ fd'.toNat := by
        have h0 := h.1
        omega
      rw [hset]
      exact ⟨h.1, h.2.1, (Function.update_of_ne hslot _ _).trans h.2.2⟩
    · -- a negative descriptor is refused
      have hrefused : readPcb img fd' false nbytes (callerPcb k) = callerPcb k := by
        unfold readPcb ByteVerse.readTarget outOfBounds
        rw [if_pos (by simp; omega)]
      rw [hrefused]
      exact h

/-- A directory descriptor remains one, whatever is read. -/
theorem DirFd.sysRead {c : Int} (h : DirFd (callerPcb k) fd c) (img : Image) (fd' nbytes : Int) :
    ∃ c', DirFd (callerPcb (sysRead img fd' false nbytes k).1) fd c' := by
  by_cases hfd : fd = fd'
  · subst hfd
    rw [callerPcb_sysRead]
    obtain ⟨off, hsame | hset⟩ := readPcb_offset img fd false nbytes (callerPcb k)
    · exact ⟨c, by rw [hsame]; exact h⟩
    · refine ⟨off, ?_⟩
      rw [hset]
      refine ⟨h.1, h.2.1, ?_⟩
      show Function.update _ fd.toNat _ fd.toNat = _
      rw [Function.update_self, h.2.2]
  · exact ⟨c, h.sysRead_other hfd img nbytes⟩

end Step

/-! ## All reads -/

variable {img : Image}

/-- A sequence of reads waits at a descriptor of another kind only: the calls before it return, and
    the one that does not is on a descriptor that was none of a directory to begin with. -/
theorem readCalls_waits {calls : List (Int × Int)} {k : Kernel}
    (hrun : readCalls img k calls = none) :
    ∃ before call after, calls = before ++ call :: after ∧ (readCalls img k before).isSome = true ∧
      ∀ c, ¬ DirFd (callerPcb k) call.1 c := by
  induction calls generalizing k with
  | nil => cases hrun
  | cons call calls ih =>
    obtain ⟨fd, nbytes⟩ := call
    simp only [readCalls] at hrun
    generalize hread : sysRead img fd false nbytes k = r at hrun
    obtain ⟨k₁, result⟩ := r
    cases result with
    | none =>
      refine ⟨[], (fd, nbytes), calls, rfl, rfl, fun c hdir => ?_⟩
      have hreturns : (sysRead img fd false nbytes k).2 = _ := sysRead_dirRead hdir.readTarget
      rw [hread] at hreturns
      cases hreturns
    | some result =>
      obtain ⟨before, call, after, rfl, hbefore, hother⟩ := ih (Option.map_eq_none_iff.mp hrun)
      refine ⟨(fd, nbytes) :: before, call, after, rfl, ?_, fun c hdir => ?_⟩
      · simp only [readCalls, hread, Option.isSome_map]
        exact hbefore
      · obtain ⟨c', hdir'⟩ := hdir.sysRead img fd nbytes
        rw [hread] at hdir'
        exact hother c' hdir'

/-- The run lemma: induction on the calls, with the cursor moving along. -/
theorem readCalls_listing {fd : Int} {calls : List (Int × Int)} {k k' : Kernel}
    {results : List (Int × Int × List UInt8)} {i : Nat}
    (hrun : readCalls img k calls = some (k', results)) (h : DirFd (callerPcb k) fd i)
    (hi : i ≤ img.dirCount.toNat) : ListsFrom img fd i calls results k' := by
  induction calls generalizing k results i with
  | nil =>
    obtain ⟨rfl, rfl⟩ := Prod.mk.inj (Option.some.inj hrun)
    refine ⟨rfl, ?_⟩
    rw [show readsOf fd [] = 0 from rfl, Nat.add_zero, Nat.min_eq_left hi]
    exact h
  | cons call calls ih =>
    obtain ⟨fd', nbytes⟩ := call
    simp only [readCalls] at hrun
    generalize hread : sysRead img fd' false nbytes k = r at hrun
    obtain ⟨k₁, result⟩ := r
    cases result with
    | none => cases hrun
    | some result =>
      obtain ⟨⟨k₂, rest⟩, hrest, heq⟩ := Option.map_eq_some_iff.mp hrun
      obtain ⟨rfl, rfl⟩ := Prod.mk.inj heq
      by_cases hfd : fd' = fd
      · subst hfd
        obtain ⟨hret, hnext⟩ := sysRead_listing h hi nbytes
        rw [hread] at hret hnext
        have hentry : result = listingEntry img i := Option.some.inj hret
        have hreads : readsOf fd' ((fd', nbytes) :: calls) = readsOf fd' calls + 1 := by
          simp [readsOf]
        have hresults : resultsOf fd' ((fd', result) :: rest) = result :: resultsOf fd' rest := by
          simp [resultsOf]
        by_cases hend : i < img.dirCount.toNat
        · rw [Nat.min_eq_left hend] at hnext
          obtain ⟨hlisted, hcursor⟩ := ih hrest hnext hend
          constructor
          · rw [hresults, hreads, hlisted, hentry, List.range_succ_eq_map, List.map_cons, List.map_map]
            refine congrArg (List.cons _) (List.map_congr_left fun j _ => ?_)
            show listingEntry img (i + 1 + j) = listingEntry img (i + (j + 1))
            rw [Nat.add_assoc, Nat.add_comm 1 j]
          · rw [hreads, ← Nat.add_assoc, Nat.add_right_comm]
            exact hcursor
        · -- at the end the cursor stays where it is
          have hlast : i = img.dirCount.toNat := by omega
          rw [Nat.min_eq_right (by omega), ← hlast] at hnext
          obtain ⟨hlisted, hcursor⟩ := ih hrest hnext hi
          have hnothing : ∀ j, listingEntry img (i + j) = (0, []) := fun j =>
            if_neg (by omega)
          constructor
          · rw [hresults, hreads, hlisted, hentry, List.range_succ_eq_map, List.map_cons, List.map_map]
            refine congrArg (List.cons _) (List.map_congr_left fun j _ => ?_)
            show listingEntry img (i + j) = listingEntry img (i + (j + 1))
            rw [hnothing, hnothing]
          · rw [Nat.min_eq_right (by omega)] at hcursor ⊢
            exact hcursor
      · have hother := h.sysRead_other (fun heq => hfd heq.symm) img nbytes
        rw [hread] at hother
        obtain ⟨hlisted, hcursor⟩ := ih hrest hother hi
        have hreads : readsOf fd ((fd', nbytes) :: calls) = readsOf fd calls := by
          simp [readsOf, hfd]
        have hresults : resultsOf fd ((fd', result) :: rest) = resultsOf fd rest := by
          simp [resultsOf, hfd]
        rw [← hreads] at hlisted hcursor
        exact ⟨hresults.trans hlisted, hcursor⟩

/-- `open` of the directory makes a descriptor at the first entry, and leaves those there are. -/
theorem sysOpen_dirFd {k : Kernel} (htable : FdTable (callerPcb k))
    (hroom : (callerPcb k).numOpenDescriptors < 8) {filename : List UInt8} {d : Dentry} {n : Nat}
    (hfound : readDentryByName img filename = some (d, n)) (htype : d.filetype = dirFiletype) :
    let r := sysOpen img k.schedTerm filename k.procs
    DirFd (callerPcb { k with procs := r.1 }) r.2 (0 : Nat) ∧
      ∀ fd c, DirFd (callerPcb k) fd c → fd ≠ r.2 ∧ DirFd (callerPcb { k with procs := r.1 }) fd c := by
  intro r
  have htarget : openTarget d = some (dOps, 0) := by
    unfold openTarget
    rw [htype]
    rfl
  have hopened : callerPcb { k with procs := r.1 } = (openFd img filename (callerPcb k)).1 :=
    setPcb_running k.procs k.schedTerm _
  obtain ⟨i, hret, hnum, hlt, hfd, hothers⟩ := openFd_fresh htable hfound htarget hroom
  have hr : r.2 = i := hret
  rw [hopened, hr]
  refine ⟨⟨Int.natCast_nonneg i, by rw [hnum]; exact hlt, hfd⟩, fun fd c hdir => ?_⟩
  have hflags : ((callerPcb k).fd fd).flags ≠ 0 := by
    rw [hdir.2.2]
    exact Int.one_ne_zero
  obtain ⟨hne, hsame⟩ := hothers fd hflags
  refine ⟨fun heq => hne (by rw [heq]; exact Int.toNat_natCast i), hdir.1, ?_, hsame.trans hdir.2.2⟩
  have hbelow := hdir.2.1
  rw [hnum]
  omega

/-- **The listing is complete.**  For every image with names that are not empty, every process with a
    free descriptor that opens the directory, and every sequence of `read` calls on its descriptors:
    the calls on the new descriptor deliver every entry once and in order, and after the last one
    return 0, store nothing and leave the offset; every other directory descriptor goes on from its
    own entry.  Only the end of the directory is reported as 0.  A `read` of a directory descriptor
    returns: where the sequence stops, it waits for a descriptor that is none of a directory (the
    terminal, the RTC), and all calls return where there is no such one among them. -/
theorem directory_listing (img : Image)
    (hnamed : ∀ j : Nat, j < img.dirCount → (img.direntries j).name ≠ []) (k : Kernel)
    (htable : FdTable (callerPcb k)) (hroom : (callerPcb k).numOpenDescriptors < 8)
    (filename : List UInt8) (d : Dentry) (n : Nat)
    (hfound : readDentryByName img filename = some (d, n)) (htype : d.filetype = dirFiletype) :
    let r := sysOpen img k.schedTerm filename k.procs
    let opened := { k with procs := r.1 }
    (∀ calls k' results, readCalls img opened calls = some (k', results) →
      ListsFrom img r.2 0 calls results k' ∧
        ∀ fd (i : Nat), DirFd (callerPcb k) fd i → i ≤ img.dirCount.toNat →
          fd ≠ r.2 ∧ ListsFrom img fd i calls results k') ∧
      (∀ calls, (∀ call ∈ calls, ∃ c, DirFd (callerPcb opened) call.1 c) →
        (readCalls img opened calls).isSome = true) ∧
      (∀ calls, readCalls img opened calls = none →
        ∃ before call after, calls = before ++ call :: after ∧
          (readCalls img opened before).isSome = true ∧ ∀ c, ¬ DirFd (callerPcb opened) call.1 c) ∧
      ∀ j, (listingEntry img j).1 = 0 ↔ img.dirCount ≤ j := by
  intro r opened
  obtain ⟨hnew, hold⟩ := sysOpen_dirFd htable hroom hfound htype
  refine ⟨fun calls k' results hrun => ⟨readCalls_listing hrun hnew (Nat.zero_le _), ?_⟩,
    fun calls hdirs => ?_, fun calls hnone => readCalls_waits hnone, fun j => ?_⟩
  · intro fd i hdir hi
    obtain ⟨hne, hdir'⟩ := hold fd i hdir
    exact ⟨hne, readCalls_listing hrun hdir' hi⟩
  · cases hrun : readCalls img opened calls with
    | some result => rfl
    | none =>
      obtain ⟨before, call, after, rfl, -, hother⟩ := readCalls_waits hrun
      obtain ⟨c, hdir⟩ := hdirs call (List.mem_append_right _ (List.mem_cons_self ..))
      exact absurd hdir (hother c)
  · unfold listingEntry
    split
    · rename_i hj
      have hpos : 0 < (img.direntries j).name.length := List.length_pos_iff.mpr (hnamed j hj)
      simp only
      omega
    · rename_i hj
      exact iff_of_true rfl (by omega)

/-- Two descriptors in turn, the first of them with one entry behind it. -/
theorem small_listing :
    ∃ k' results, readCalls smallImage
        { listingKernel smallImage with
          procs := (sysOpen smallImage 0 [46] (listingKernel smallImage).procs).1 }
        [(3, 32), (2, 32), (2, 32), (3, 32), (2, 32)] = some (k', results) ∧
      resultsOf 3 results = [listingEntry smallImage 0, listingEntry smallImage 1] ∧
      resultsOf 2 results =
        [listingEntry smallImage 1, listingEntry smallImage 2, listingEntry smallImage 3] := by
  have hnamed : ∀ j : Nat, j < smallImage.dirCount → (smallImage.direntries j).name ≠ [] := by
    intro j hj
    have hlt : (j : Int) < 3 := hj
    rcases (show j = 0 ∨ j = 1 ∨ j = 2 by omega) with rfl | rfl | rfl
    · decide
    · decide
    · decide
  have htable : FdTable (callerPcb (listingKernel smallImage)) :=
    ⟨by decide +kernel, by decide +kernel, by decide +kernel⟩
  have hnew : (sysOpen smallImage 0 [46] (listingKernel smallImage).procs).2 = 3 := by decide +kernel
  have hlisting := directory_listing smallImage hnamed (listingKernel smallImage) htable
    (by decide +kernel) [46] dotEntry 1 (by decide) rfl
  -- both descriptors are the directory's
  have hdirs : ∀ fd : Int, fd = 2 ∨ fd = 3 →
      ∃ c, DirFd (callerPcb { listingKernel smallImage with
        procs := (sysOpen smallImage 0 [46] (listingKernel smallImage).procs).1 }) fd c := by
    rintro fd (rfl | rfl)
    · exact ⟨1, by decide, by decide +kernel, by decide +kernel⟩
    · exact ⟨0, by decide, by decide +kernel, by decide +kernel⟩
  have hruns := hlisting.2.1 [(3, 32), (2, 32), (2, 32), (3, 32), (2, 32)] (by
    intro call hcall
    refine hdirs call.1 ?_
    simp only [List.mem_cons, List.not_mem_nil, or_false] at hcall
    rcases hcall with rfl | rfl | rfl | rfl | rfl <;> decide)
  obtain ⟨⟨k', results⟩, hrun⟩ := Option.isSome_iff_exists.mp hruns
  have hlists := hlisting.1 _ k' results hrun
  have hold := hlists.2 2 1 ⟨by decide, by decide +kernel, by decide +kernel⟩ (by decide)
  refine ⟨k', results, hrun, ?_, hold.2.listed⟩
  have hthree := hlists.1.listed
  rw [show (sysOpen smallImage (listingKernel smallImage).schedTerm [46]
    (listingKernel smallImage).procs).2 = 3 from hnew] at hthree
  exact hthree

end ByteVerse
