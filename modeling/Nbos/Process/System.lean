import Nbos.Device.Keyboard
import Nbos.Memory.Paging
import Mathlib.Data.Fintype.Pigeonhole

/-!
# Processes

The state of the kernel and the process table of `process.c`. A process is known by its slot in
`pcblist`; `none` stands for `NULL` and, where the code goes on with it, for what the code does then.
-/

namespace Nbos.Process

open Nbos.Lib Nbos.Kernel Nbos.Memory Nbos.Device

/-! ### The state -/

/-- The statics of the kernel, with memory and disk. -/
structure System where
  mem : Mem
  pcblist : Fin pcbMax → Pcb
  current : Fin pcbMax
  nextpid : ℕ
  fileList : Fin fileMaxInSys → OpenFile
  disk : Bytes
  keyboard : Keyboard

/-- The current process. -/
abbrev System.proc (k : System) : Pcb := k.pcblist k.current

/-- One process control block changed. -/
def System.setPcb (k : System) (p : Fin pcbMax) (c : Pcb) : System :=
  { k with pcblist := Function.update k.pcblist p c }

section SetPcb

variable {k : System} {p q : Fin pcbMax} {c : Pcb}

@[simp] lemma System.setPcb_mem : (k.setPcb p c).mem = k.mem := rfl
@[simp] lemma System.setPcb_current : (k.setPcb p c).current = k.current := rfl
@[simp] lemma System.setPcb_fileList : (k.setPcb p c).fileList = k.fileList := rfl
@[simp] lemma System.setPcb_disk : (k.setPcb p c).disk = k.disk := rfl
@[simp] lemma System.setPcb_nextpid : (k.setPcb p c).nextpid = k.nextpid := rfl

lemma System.setPcb_pcblist :
    (k.setPcb p c).pcblist q = if q = p then c else k.pcblist q := Function.update_apply ..

@[simp] lemma System.setPcb_self : (k.setPcb p c).pcblist p = c := Function.update_self ..

@[simp] lemma System.setPcb_setPcb {c' : Pcb} : (k.setPcb p c).setPcb p c' = k.setPcb p c' := by
  simp [System.setPcb]

lemma System.setPcb_of_ne (h : q ≠ p) : (k.setPcb p c).pcblist q = k.pcblist q :=
  Function.update_of_ne h ..

end SetPcb

/-! ### `process.c` -/

/-- A context in zeroed memory. -/
def zeroContext : Context :=
  ⟨0, 0, 0, 0, 0, 0, 0, 0, 0, 0, 0, 0, 0, 0, 0, 0, 0, 0, 0, 0, 0, 0, 0⟩

/-- A control block in zeroed memory, as `init_pcb` finds and leaves it. -/
def zeroPcb : Pcb := ⟨zeroContext, 0, 0, .free, 0, 0, fun _ => ⟨false, none⟩⟩

/-- `init_pcb`; `pagedir` is the address of the kernel's page directory. -/
def initPcb (pagedir : ℕ) (k : System) : System :=
  let cleared : Fin pcbMax → Pcb := fun i =>
    { k.pcblist i with
      nextVirAddr := 0
      pstate := .free
      fdlist := fun _ => ⟨false, none⟩ }
  { k with
    pcblist := Function.update cleared 0
      { cleared 0 with pid := 0, pstate := .running, pagedir := pagedir }
    current := 0 }

/-- The loop of `getPid`, with the number of times it may start over. -/
def getPidLoop (pcblist : Fin pcbMax → Pcb) : ℕ → ℕ → Option (ℤ × ℕ)
  | 0, _ => none
  | fuel + 1, nextpid =>
    let (pid, nextpid) := if pidMax < nextpid then (1, 1) else (nextpid, nextpid + 1)
    if ∃ i, (pcblist i).pid = pid then getPidLoop pcblist fuel nextpid
    else some (if pid < pidMax then pid else -1, nextpid)

/-- `getPid`. The loop ends by then (`getPidLoop_isSome`). -/
def getPid (k : System) : Option (ℤ × System) :=
  (getPidLoop k.pcblist 84 k.nextpid).map fun r => (r.1, { k with nextpid := r.2 })

/-- The first slot in a state. -/
def System.findState (k : System) (s : RunState) : Option (Fin pcbMax) :=
  (List.finRange pcbMax).find? fun i => (k.pcblist i).pstate = s

/-- `allocProcess`. It does not check that it has found a slot: with a pid and without a free slot it
writes through `NULL`. -/
def allocProcess (k : System) : Option (Option (Fin pcbMax) × System) := do
  let (pid, k) ← getPid k
  if pid = -1 then some (none, k)
  else
    let p ← k.findState .free
    some (some p, k.setPcb p
      { k.pcblist p with pstate := .runnable, pid := pid.toNat, fatherPid := k.proc.pid })

/-- `copyContext`, on the control block. -/
def copyContext (father : IntrContext) (p : Pcb) : Pcb :=
  { p with ctx := { p.ctx with
      eax := 0
      ebx := father.ebx
      ecx := father.ecx
      edx := father.edx
      edi := father.edi
      esi := father.esi
      ebp := father.ebp
      esp := father.esp
      ds := father.ds
      es := father.es
      fs := father.fs
      gs := father.gs
      cs := father.cs
      ss := father.ss
      eip := father.eip
      eflags := father.eflags } }

/-- `haveChildren`: one less than there are. -/
def haveChildren (pid : ℕ) (k : System) : ℤ :=
  ((List.finRange pcbMax).countP fun i => (k.pcblist i).fatherPid = pid) - 1

/-- `getPCB`: the last slot with the pid. -/
def getPCB (pid : ℕ) (k : System) : Option (Fin pcbMax) :=
  (List.finRange pcbMax).reverse.find? fun i => (k.pcblist i).pid = pid

/-! ### Lemmas -/

section Lemmas

variable {k : System} {p : Fin pcbMax} {s : RunState}

lemma System.findState_spec (h : k.findState s = some p) : (k.pcblist p).pstate = s := by
  simpa using List.find?_some h

variable {pcblist : Fin pcbMax → Pcb} {fuel n q : ℕ} {r : ℤ × ℕ}

/-- A pid that `getPid` finds is not in use. -/
lemma getPidLoop_found (h : getPidLoop pcblist fuel n = some r) (hr : r.1 ≠ -1) :
    0 ≤ r.1 ∧ ∀ i, (pcblist i).pid ≠ r.1.toNat := by
  induction fuel generalizing n with
  | zero => cases h
  | succ fuel ih =>
    rw [getPidLoop] at h
    generalize (if pidMax < n then (1, 1) else (n, n + 1)) = next at h
    obtain ⟨pid, next⟩ := next
    simp only at h
    split at h
    · exact ih h
    · rename_i hfree
      obtain rfl := Option.some_inj.mp h
      simp only at hr ⊢
      split at hr
      · rename_i hlt
        rw [if_pos hlt, Int.toNat_natCast]
        exact ⟨Int.natCast_nonneg _, fun i e => hfree ⟨i, e⟩⟩
      · exact absurd rfl hr

/-- `getPid` changes `nextpid` alone. -/
lemma getPid_eq {pid : ℤ} {k' : System} (h : getPid k = some (pid, k')) :
    k' = { k with nextpid := k'.nextpid } := by
  obtain ⟨r, -, he⟩ := Option.map_eq_some_iff.mp h
  obtain ⟨-, rfl⟩ := Prod.mk.inj he
  rfl

/-- `nextpid` stays between 1 and one past `PID_MAX`, and a pid found is below it. -/
lemma getPidLoop_range (hn : 1 ≤ n) (hn' : n ≤ pidMax + 1) (h : getPidLoop pcblist fuel n = some r) :
    1 ≤ r.2 ∧ r.2 ≤ pidMax + 1 ∧ (r.1 ≠ -1 → 1 ≤ r.1.toNat ∧ r.1.toNat < pidMax) := by
  induction fuel generalizing n with
  | zero => cases h
  | succ fuel ih =>
    rw [getPidLoop] at h
    have hnext : ∀ pid next, (if pidMax < n then (1, 1) else (n, n + 1)) = (pid, next) →
        1 ≤ pid ∧ 1 ≤ next ∧ next ≤ pidMax + 1 := by
      intro pid next he
      split at he <;> obtain ⟨rfl, rfl⟩ := Prod.mk.inj he <;> simp only [pidMax] at * <;> omega
    generalize (if pidMax < n then (1, 1) else (n, n + 1)) = next at h hnext
    obtain ⟨pid, next⟩ := next
    obtain ⟨hpid, hle, hle'⟩ := hnext pid next rfl
    simp only at h
    split at h
    · exact ih hle hle' h
    · obtain rfl := Option.some_inj.mp h
      refine ⟨hle, hle', fun hne => ?_⟩
      simp only at hne ⊢
      split at hne
      · rename_i hlt
        rw [if_pos hlt, Int.toNat_natCast]
        exact ⟨hpid, hlt⟩
      · exact absurd rfl hne

/-- One of the first pids is free. -/
lemma exists_free_pid (pcblist : Fin pcbMax → Pcb) :
    ∃ q, 1 ≤ q ∧ q ≤ 21 ∧ ∀ i, (pcblist i).pid ≠ q := by
  by_contra hall
  push Not at hall
  have hslot : ∀ a : Fin 21, ∃ i, (pcblist i).pid = a + 1 := fun a =>
    hall (a + 1) (by omega) (by omega)
  choose slot hslot using hslot
  obtain ⟨a, b, hab, he⟩ := Fintype.exists_ne_map_eq_of_card_lt slot (by simp)
  have := (hslot a).symm.trans ((congrArg (fun i => (pcblist i).pid) he).trans (hslot b))
  exact hab (Fin.ext (by omega))

lemma getPidLoop_of_le (hq : ∀ i, (pcblist i).pid ≠ q) (hq21 : q ≤ 21) (hn : n ≤ q)
    (hfuel : q < n + fuel) : (getPidLoop pcblist fuel n).isSome := by
  induction fuel generalizing n with
  | zero => omega
  | succ fuel ih =>
    have hmax : ¬ pidMax < n := by simp only [pidMax]; omega
    simp only [getPidLoop, if_neg hmax]
    split
    · rename_i hused
      have hne : n ≠ q := fun e => by
        obtain ⟨i, hi⟩ := hused
        exact hq i (hi.trans e)
      exact ih (by omega) (by omega)
    · rfl

/-- **`getPid` ends**: it starts over until it has passed `PID_MAX` and then reaches a free pid. -/
theorem getPidLoop_isSome (hn : n ≤ 61) (hfuel : 84 ≤ n + fuel) :
    (getPidLoop pcblist fuel n).isSome := by
  obtain ⟨q, hq1, hq21, hq⟩ := exists_free_pid pcblist
  induction fuel generalizing n with
  | zero => omega
  | succ fuel ih =>
    by_cases hle : n ≤ pidMax
    · simp only [getPidLoop, if_neg (not_lt.mpr hle)]
      simp only [pidMax] at hle
      split
      · exact ih (by omega) (by omega)
      · rfl
    · simp only [getPidLoop, if_pos (not_le.mp hle)]
      split
      · exact getPidLoop_of_le hq hq21 hq1 (by omega)
      · rfl

end Lemmas

end Nbos.Process
