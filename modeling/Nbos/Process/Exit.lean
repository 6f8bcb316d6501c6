import Nbos.Fs.OpenFiles
import Nbos.Process.System

/-!
# `sys_exit` and `sys_wait`

Of the memory of a process `sys_exit` frees the page directory only; the tables and the frames are
lost. `sys_wait` gives a slot back.
-/

namespace Nbos.Process

open Nbos.Lib Nbos.Kernel Nbos.Memory Nbos.Fs

/-! ### The source -/

/-- The body of the loop of `sys_exit` over the descriptors of `p`. -/
def exitFd (p : Fin pcbMax) (i : Fin fileMaxInProcess) (k : System) : System :=
  if isOpen i (k.pcblist p) then
    let fileList := delFile ((k.pcblist p).fdlist i).ofptr k.fileList
    { k.setPcb p { k.pcblist p with
        fdlist := Function.update (k.pcblist p).fdlist i ⟨false, none⟩ } with
      fileList := fileList }
  else k

/-- `sys_exit`: the state, and the slot it dispatches. It does not mark that one as running, and
without a runnable one it goes on with an uninitialised pointer. -/
def sysExit (k : System) : Option (System × Fin pcbMax) := do
  let pid := k.proc.pid
  let p ← getPCB pid k
  let k := { k with mem := freePage (k.pcblist p).pagedir k.mem }
  let k := forFin fileMaxInProcess (exitFd p) k
  let k := k.setPcb p { k.pcblist p with pstate := .zombie }
  let next ← k.findState .runnable
  some ({ k with current := next }, next)

/-- The first terminated child of the process `pid`. -/
def zombieChild (pid : ℕ) (k : System) : Option (Fin pcbMax) :=
  (List.finRange pcbMax).find? fun i =>
    (k.pcblist i).fatherPid = pid ∧ (k.pcblist i).pstate = .zombie

/-- `sys_wait`; without a terminated child it never leaves its loop. -/
def sysWait (k : System) : Option (ℤ × System) :=
  let pid := k.proc.pid
  if haveChildren pid k = 0 then some (-1, k)
  else
    (zombieChild pid k).map fun i =>
      ((k.pcblist i).pid, k.setPcb i { k.pcblist i with
        pagedir := 0
        pstate := .free
        fatherPid := 0
        pid := 0
        nextVirAddr := 0 })

/-! ### What `sys_exit` does -/

/-- The state after the descriptors of `p` below `n` are closed. -/
structure FdsClosed (p : Fin pcbMax) (k : System) (n : ℕ) (k' : System) : Prop where
  mem : k'.mem = k.mem
  current : k'.current = k.current
  nextpid : k'.nextpid = k.nextpid
  disk : k'.disk = k.disk
  pcb : ∀ q ≠ p, k'.pcblist q = k.pcblist q
  proc : k'.pcblist p = { k.pcblist p with fdlist := (k'.pcblist p).fdlist }
  fds : ∀ i, (k'.pcblist p).fdlist i =
    if (i : ℕ) < n ∧ isOpen i (k.pcblist p) then ⟨false, none⟩ else (k.pcblist p).fdlist i
  files : ∀ j, k'.fileList j =
    if ∃ i : Fin fileMaxInProcess, (i : ℕ) < n ∧ isOpen i (k.pcblist p) ∧
      ((k.pcblist p).fdlist i).ofptr = some j then ⟨0, 0, 0, 0, false⟩ else k.fileList j

section Exit

variable {k k' : System} {p q : Fin pcbMax} {n : ℕ} {next : Fin pcbMax}

lemma FdsClosed.step (i : Fin fileMaxInProcess) (h : FdsClosed p k i k') :
    FdsClosed p k (i + 1) (exitFd p i k') := by
  have hi : (k'.pcblist p).fdlist i = (k.pcblist p).fdlist i := by
    rw [h.fds, if_neg (fun hc => lt_irrefl _ hc.1)]
  have hopen : isOpen i (k'.pcblist p) = isOpen i (k.pcblist p) := congrArg Fd.openFlag hi
  have hlt : ∀ j : Fin fileMaxInProcess, (j : ℕ) < i + 1 ↔ (j : ℕ) < i ∨ j = i := fun j => by
    rw [Nat.lt_succ_iff_lt_or_eq, Fin.ext_iff]
  unfold exitFd
  rw [hopen]
  by_cases ho : isOpen i (k.pcblist p)
  · rw [if_pos ho, hi]
    refine ⟨h.mem, h.current, h.nextpid, h.disk, fun q hq => ?_, ?_, fun j => ?_, fun j => ?_⟩
    · exact (System.setPcb_of_ne hq).trans (h.pcb q hq)
    · simp only [System.setPcb_self]
      rw [h.proc]
    · simp only [System.setPcb_self, Function.update_apply, hlt]
      by_cases hj : j = i
      · subst hj
        simp only [if_true, or_true, ho, and_self]
      · simp only [hj, if_false, or_false]
        exact h.fds j
    · by_cases hj : ((k.pcblist p).fdlist i).ofptr = some j
      · rw [if_pos ⟨i, by omega, ho, hj⟩]
        simp only [hj]
        exact Function.update_self ..
      · show delFile _ k'.fileList j = _
        rw [delFile_of_ne hj, h.files j]
        refine if_congr (exists_congr fun i' => ?_) rfl rfl
        rw [hlt]
        refine ⟨fun hc => ⟨.inl hc.1, hc.2⟩, fun hc => ⟨hc.1.resolve_right ?_, hc.2⟩⟩
        rintro rfl
        exact hj hc.2.2
  · rw [if_neg ho]
    refine ⟨h.mem, h.current, h.nextpid, h.disk, h.pcb, h.proc, fun j => ?_, fun j => ?_⟩
    · rw [h.fds j]
      refine if_congr ?_ rfl rfl
      rw [hlt]
      refine ⟨fun hc => ⟨.inl hc.1, hc.2⟩, fun hc => ⟨hc.1.resolve_right ?_, hc.2⟩⟩
      rintro rfl
      exact ho hc.2
    · rw [h.files j]
      refine if_congr (exists_congr fun i' => ?_) rfl rfl
      rw [hlt]
      refine ⟨fun hc => ⟨.inl hc.1, hc.2⟩, fun hc => ⟨hc.1.resolve_right ?_, hc.2⟩⟩
      rintro rfl
      exact ho hc.2.1

theorem fdsClosed : FdsClosed p k fileMaxInProcess (forFin fileMaxInProcess (exitFd p) k) := by
  refine forFin_inv (FdsClosed p k) ?_ fun i k' h => h.step i
  refine ⟨rfl, rfl, rfl, rfl, fun _ _ => rfl, rfl, fun i => ?_, fun j => ?_⟩
  · rw [if_neg (fun hc => absurd hc.1 (Nat.not_lt_zero _))]
  · rw [if_neg (fun ⟨_, hc, _⟩ => absurd hc (Nat.not_lt_zero _))]

/-- The slot whose control block `sys_exit` clears: the last one with the pid of the caller. -/
structure Exited (p : Fin pcbMax) (k k' : System) : Prop where
  pid : (k.pcblist p).pid = k.proc.pid
  mem : k'.mem = freePage (k.pcblist p).pagedir k.mem
  nextpid : k'.nextpid = k.nextpid
  disk : k'.disk = k.disk
  pcb : ∀ q ≠ p, k'.pcblist q = k.pcblist q
  proc : k'.pcblist p = { k.pcblist p with pstate := .zombie, fdlist := (k'.pcblist p).fdlist }
  fds : ∀ i, (k'.pcblist p).fdlist i =
    if isOpen i (k.pcblist p) then ⟨false, none⟩ else (k.pcblist p).fdlist i
  files : ∀ j, k'.fileList j =
    if ∃ i : Fin fileMaxInProcess, isOpen i (k.pcblist p) ∧
      ((k.pcblist p).fdlist i).ofptr = some j then ⟨0, 0, 0, 0, false⟩ else k.fileList j
  runnable : (k'.pcblist k'.current).pstate = .runnable

lemma zombieChild_spec {pid : ℕ} (h : zombieChild pid k = some p) :
    (k.pcblist p).fatherPid = pid ∧ (k.pcblist p).pstate = .zombie := by
  simpa using List.find?_some h

lemma getPCB_spec {pid : ℕ} (h : getPCB pid k = some p) : (k.pcblist p).pid = pid := by
  simpa using List.find?_some h

theorem sysExit_spec (h : sysExit k = some (k', next)) :
    next = k'.current ∧ ∃ p, getPCB k.proc.pid k = some p ∧ Exited p k k' := by
  simp only [sysExit, Option.bind_eq_bind, Option.bind_eq_some_iff] at h
  obtain ⟨p, hp, next', hnext, he⟩ := h
  have c := fdsClosed (p := p) (k := { k with mem := freePage (k.pcblist p).pagedir k.mem })
  generalize forFin fileMaxInProcess (exitFd p)
    { k with mem := freePage (k.pcblist p).pagedir k.mem } = k₁ at c hnext he
  obtain ⟨rfl, rfl⟩ := Prod.mk.inj (Option.some_inj.mp he)
  have hfd : ∀ i : Fin fileMaxInProcess, ((i : ℕ) < fileMaxInProcess ∧ isOpen i (k.pcblist p)) ↔
      isOpen i (k.pcblist p) := fun i => and_iff_right i.isLt
  refine ⟨rfl, p, hp, getPCB_spec hp, c.mem, c.nextpid, c.disk, fun q hq => ?_, ?_, fun i => ?_,
    fun j => ?_, System.findState_spec hnext⟩
  · exact (System.setPcb_of_ne hq).trans (c.pcb q hq)
  · simp only [System.setPcb_self]
    rw [c.proc]
  · simp only [System.setPcb_self]
    rw [c.fds i]
    exact if_congr (hfd i) rfl rfl
  · refine (c.files j).trans (if_congr (exists_congr fun i => ?_) rfl rfl)
    exact and_iff_right i.isLt

end Exit

end Nbos.Process
