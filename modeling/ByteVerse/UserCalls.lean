/-
  Programs in user space: the system calls they make of the kernel, and what they print.

  A program is a function of the kernel's state (`UserM`), with no result while a call keeps the process
  waiting, and none when the fuel of one of its loops runs out.  Nothing else happens meanwhile: no key,
  no tick.  Each call is the kernel's function; its rule says what the caller gets back, and `Outputs`
  what the kernel sees of it: the console of the process's terminal goes on by a text, and of the
  process table only the descriptors in the caller's PCB change.
-/
import ByteVerse.DirectoryListing
import ByteVerse.ConsoleText
import ByteVerse.Execute

set_option linter.unusedVariables false

namespace ByteVerse

open SlotTable

/-! ## Programs -/

def UserM (α : Type) := Kernel → Option (α × Kernel)

instance : Monad UserM where
  pure a k := some (a, k)
  bind m f k := (m k).bind fun r => f r.1 r.2

section Bind

variable {α β : Type} {m : UserM α} {f : α → UserM β} {a : α} {k k' : Kernel}

theorem UserM.bind_some (h : m k = some (a, k')) : (m >>= f) k = f a k' :=
  congrArg (Option.bind · fun r => f r.1 r.2) h

end Bind

/-! ## The library of the programs -/

/-- `ece391_open` and the other stubs of `ece391syscall.S`.  A buffer or a string is what stands in memory
    from the pointer on. -/
def ece391Open (img : Image) (filename : List UInt8) : UserM Int := fun k =>
  let r := sysOpen img k.schedTerm filename k.procs
  some (r.2, { k with procs := r.1 })

/-- The return value, and the bytes stored from the buffer's front on. -/
def ece391Read (img : Image) (fd nbytes : Int) : UserM (Int × List UInt8) := fun k =>
  let r := sysRead img fd false nbytes k
  r.2.map fun result => (result, r.1)

def ece391Write (fd : Int) (buf : List UInt8) (nbytes : Int) : UserM Int := fun k =>
  let r := sysWrite fd (some buf) nbytes k
  some (r.2, r.1)

def ece391Getargs : UserM (Int × List UInt8) := fun k => some (getargs false k.procs, k)

def ece391Fdputs (fd : Int) (s : List UInt8) : UserM Unit := do
  let _ ← ece391Write fd s (strlen s)

/-- A buffer whose front has been stored over. -/
def overwrite (stored buf : List UInt8) : List UInt8 := stored ++ buf.drop stored.length

/-- A string literal. -/
def literal (s : String) : List UInt8 := s.toUTF8.toList

/-! ## What the kernel sees -/

/-- The process has printed `out`, and done nothing else but to work on its own descriptors.  (`read` and
    `write` leave `file_pcb` at the caller; `terminal_write` enables interrupts, which a program in
    user mode has enabled.) -/
structure Outputs (k k' : Kernel) (out : List UInt8) : Prop where
  con : k'.con = putcText k.schedTerm k.visibleTerm out k.con
  sched : k'.schedTerm = k.schedTerm
  visible : k'.visibleTerm = k.visibleTerm
  input : k'.input = k.input
  rtc : k'.rtc = k.rtc
  interruptFlag : k.interruptFlag = true → k'.interruptFlag = true
  table : k'.procs = { k.procs with pcbs := k'.procs.pcbs, filePcb := k'.procs.filePcb }
  filePcb : k'.procs.filePcb = k.procs.filePcb ∨ k'.procs.filePcb = k.procs.runningPid k.schedTerm
  caller : SameButFds (callerPcb k) (callerPcb k')
  others : ∀ pid, pid ≠ k.procs.runningPid k.schedTerm → k'.procs.pcbs pid = k.procs.pcbs pid

section Outputs

variable {k k' k'' : Kernel} {out out' : List UInt8}

theorem Outputs.refl (k : Kernel) : Outputs k k [] where
  con := rfl
  sched := rfl
  visible := rfl
  input := rfl
  rtc := rfl
  interruptFlag h := h
  table := rfl
  filePcb := Or.inl rfl
  caller := SameButFds.refl _
  others _ _ := rfl

theorem putcText_append (s v : Fin 3) (con : Console) :
    putcText s v (out ++ out') con = putcText s v out' (putcText s v out con) :=
  List.foldl_append

theorem Outputs.runningPid (h : Outputs k k' out) :
    k'.procs.runningPid k'.schedTerm = k.procs.runningPid k.schedTerm := by
  rw [h.sched, h.table]
  rfl

theorem Outputs.trans (h : Outputs k k' out) (h' : Outputs k' k'' out') : Outputs k k'' (out ++ out') where
  con := by rw [h'.con, h.con, h.sched, h.visible, putcText_append]
  sched := h'.sched.trans h.sched
  visible := h'.visible.trans h.visible
  input := h'.input.trans h.input
  rtc := h'.rtc.trans h.rtc
  interruptFlag hflag := h'.interruptFlag (h.interruptFlag hflag)
  table := by
    have htable := h'.table
    rw [h.table] at htable
    exact htable
  filePcb := by
    rcases h'.filePcb with hsame | hcaller
    · rw [hsame]
      exact h.filePcb
    · rw [hcaller, h.runningPid]
      exact Or.inr rfl
  caller := h.caller.trans h'.caller
  others pid hpid := by
    rw [h'.others pid (by rwa [h.runningPid]), h.others pid hpid]

/-- So a screen that showed a text shows it with what is printed behind it. -/
theorem Outputs.shows (h : Outputs k k' out) (hout : 8 ∉ out) {before : List UInt8}
    (hshows : ShowsRows k.schedTerm k.con (screenRows before)) :
    ShowsRows k.schedTerm k'.con (screenRows (before ++ out)) := by
  rw [h.con]
  exact hshows.putcText k.visibleTerm hout

/-- A call that only changes descriptors in the caller's PCB prints nothing. -/
theorem prints_setPcb (k : Kernel) {pcb : Pcb} (hpcb : SameButFds (callerPcb k) pcb) {filePcb : Nat}
    (hfilePcb : filePcb = k.procs.filePcb ∨ filePcb = k.procs.runningPid k.schedTerm) :
    Outputs k
      { k with procs := { k.procs.setPcb (k.procs.runningPid k.schedTerm) pcb with filePcb := filePcb } }
      [] where
  con := rfl
  sched := rfl
  visible := rfl
  input := rfl
  rtc := rfl
  interruptFlag h := h
  table := rfl
  filePcb := hfilePcb
  caller := by
    show SameButFds _ ((k.procs.setPcb (k.procs.runningPid k.schedTerm) pcb).running k.schedTerm)
    rw [setPcb_running]
    exact hpcb
  others _ hpid := Function.update_of_ne hpid _ _

end Outputs

/-! ## The rules of the calls -/

section Calls

variable {k : Kernel} {fd : Int} {buf : List UInt8}

theorem open_prints (img : Image) (k : Kernel) (filename : List UInt8) :
    ∃ k', ece391Open img filename k = some ((openFd img filename (callerPcb k)).2, k') ∧
      callerPcb k' = (openFd img filename (callerPcb k)).1 ∧ Outputs k k' [] := by
  refine ⟨_, rfl, setPcb_running k.procs k.schedTerm _, ?_⟩
  exact prints_setPcb k (openFd_same img filename (callerPcb k)) (Or.inl rfl)

/-- `write` to the standard output. -/
theorem write_prints (htable : FdTable (callerPcb k)) (buf : List UInt8) (nbytes : Int) :
    ∃ k', ece391Write 1 buf nbytes k = some (nbytes, k') ∧ callerPcb k' = callerPcb k ∧
      Outputs k k' (writtenBytes buf nbytes) := by
  have htarget : writeTarget (k.procs.running k.schedTerm) 1 (some buf).isNone = some .terminalWrite := by
    have hbounds := htable.bounds
    have hfops : ((callerPcb k).fd 1).fops = some stdoutFops := htable.stdout.2
    unfold writeTarget outOfBounds
    rw [if_neg, Option.isNone_some, if_neg Bool.false_ne_true]
    · show ((callerPcb k).fd 1).fops.bind FileOps.write = _
      rw [hfops]
      rfl
    · simp only [Bool.or_eq_true, decide_eq_true_eq]
      have hsame : k.procs.running k.schedTerm = callerPcb k := rfl
      rw [hsame]
      omega
  have hwrite := sysWrite_some nbytes htarget
  refine ⟨(sysWrite 1 (some buf) nbytes k).1, ?_, ?_, ?_⟩
  · show some ((sysWrite 1 (some buf) nbytes k).2, _) = _
    rw [hwrite]
    rfl
  · show (sysWrite 1 (some buf) nbytes k).1.procs.running _ = _
    rw [sysWrite_schedTerm, sysWrite_procs]
    rfl
  · rw [hwrite]
    exact
      { con := terminalWrite_eq k.schedTerm k.visibleTerm buf nbytes k.con
        sched := rfl
        visible := rfl
        input := rfl
        rtc := rfl
        interruptFlag := fun hflag => Bool.or_eq_true_iff.mpr (Or.inl hflag)
        table := rfl
        filePcb := Or.inr rfl
        caller := SameButFds.refl _
        others := fun _ _ => rfl }

theorem writtenBytes_of_le {n : Nat} (hn : n ≤ buf.length) : writtenBytes buf n = buf.take n := by
  refine List.ext_getElem ?_ fun i hi hi' => ?_
  · simp [writtenBytes, hn]
  · have hlt : i < n := by simpa [writtenBytes] using hi
    simp only [writtenBytes, List.getElem_map, List.getElem_range, List.getElem_take]
    rw [List.getD_eq_getElem _ _ (by omega)]

/-- A string up to its end. -/
theorem writtenBytes_strlen (s : List UInt8) : writtenBytes s (strlen s) = text s := by
  have hleading : text s <+: s := List.takeWhile_prefix _
  have htake : writtenBytes s (strlen s) = s.take (strlen s) := writtenBytes_of_le hleading.length_le
  rw [htake]
  exact (List.prefix_iff_eq_take.mp hleading).symm

theorem fdputs_prints (htable : FdTable (callerPcb k)) (s : List UInt8) :
    ∃ k', ece391Fdputs 1 s k = some ((), k') ∧ callerPcb k' = callerPcb k ∧ Outputs k k' (text s) := by
  obtain ⟨k', hwrite, hpcb, hprints⟩ := write_prints htable s (strlen s)
  rw [writtenBytes_strlen] at hprints
  exact ⟨k', UserM.bind_some hwrite, hpcb, hprints⟩

/-- `read` of a file or the directory. -/
theorem read_prints (img : Image) {f : ReadFn} (hread : readTarget (callerPcb k) fd false = some f)
    (hf : f = .fileRead ∨ f = .dirRead) (nbytes : Int) {result : Int × List UInt8}
    (hresult : (sysRead img fd false nbytes k).2 = some result) :
    ∃ k', ece391Read img fd nbytes k = some (result, k') ∧
      callerPcb k' = readPcb img fd false nbytes (callerPcb k) ∧
      sysRead img fd false nbytes k = (k', some result) ∧ Outputs k k' [] := by
  refine ⟨(sysRead img fd false nbytes k).1, ?_, callerPcb_sysRead img fd false nbytes k, ?_, ?_⟩
  · rw [ece391Read, hresult]
    rfl
  · rw [← hresult]
  · have hpcb := readPcb_sameButFds img fd false nbytes (callerPcb k)
    rw [readPcb, hread] at hpcb
    rw [sysRead_some hread]
    rcases hf with rfl | rfl
    · exact prints_setPcb k hpcb (Or.inr rfl)
    · exact prints_setPcb k hpcb (Or.inr rfl)

end Calls

end ByteVerse
