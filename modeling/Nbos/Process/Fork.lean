import Nbos.Memory.Fork
import Nbos.Process.System

/-!
# `sys_fork`

`copy_process_mem` and `sys_fork` of `syscall.c`, on the state of the kernel. That the copy of an
address space is faithful (`copyProcessMem_faithful`) is read off `Copied`.
-/

namespace Nbos.Process

open Nbos.Lib Nbos.Kernel Nbos.Memory

/-! ### The source -/

/-- `copy_process_mem`. -/
def copyProcessMem (p : Fin pcbMax) (k : System) : System :=
  let (newDir, mem) := allocPage k.mem
  let mem := { mem with ram := fill mem.ram newDir pageSize 0 }
  let k := k.setPcb p { k.pcblist p with pagedir := newDir }
  { k with mem := copyDir k.proc.pagedir newDir mem }

/-- What `sys_fork` does with the slot it has got. -/
def forkInto (ptr : IntrContext) (p : Fin pcbMax) (k : System) : System :=
  let k := k.setPcb p { k.pcblist p with
    fdlist := fun i => ⟨(k.proc.fdlist i).openFlag, (k.proc.fdlist i).ofptr⟩ }
  let k := copyProcessMem p k
  k.setPcb p (copyContext ptr (k.pcblist p))

/-- `sys_fork`. -/
def sysFork (ptr : IntrContext) (k : System) : Option (ℤ × System) := do
  let (p, k) ← allocProcess k
  match p with
  | none => some (-1, k)
  | some p => some (((forkInto ptr p k).pcblist p).pid, forkInto ptr p k)

/-! ### The copy -/

/-- The address space of `p` in `k'` is a faithful copy of the current one in `k`, made of the free
pages `L`. -/
structure SpaceCopied (L : List ℕ) (t : ℕ) (p : Fin pcbMax) (k k' : System) : Prop where
  walks : ∀ va < kernelVirBase,
    (walk k'.mem.ram (k'.pcblist p).pagedir va).isSome = (walk k.mem.ram k.proc.pagedir va).isSome
  bytes : ∀ va < kernelVirBase, ∀ pte pte', walk k.mem.ram k.proc.pagedir va = some pte →
    walk k'.mem.ram (k'.pcblist p).pagedir va = some pte' →
      ∀ o < pageSize, k'.mem.ram (target pte' + o) = k.mem.ram (target pte + o)
  nodup : (userPages k'.mem.ram (k'.pcblist p).pagedir).Nodup
  taken : ∃ rest, L = userPages k'.mem.ram (k'.pcblist p).pagedir ++ rest ∧ FreeList k'.mem rest t
  own : (userPages k'.mem.ram (k'.pcblist p).pagedir).Disjoint (userPages k'.mem.ram k.proc.pagedir)
  kernelHalf : ∀ i, 0x300 ≤ i → i < pageStructEntries →
    entry k'.mem.ram (k'.pcblist p).pagedir i = entry k'.mem.ram k.proc.pagedir i
  proc : k'.proc = k.proc
  walkKept : ∀ va < kernelVirBase,
    walk k'.mem.ram k.proc.pagedir va = walk k.mem.ram k.proc.pagedir va
  kept : ∀ q ∈ userPages k.mem.ram k.proc.pagedir, ∀ o < pageSize,
    k'.mem.ram (q + o) = k.mem.ram (q + o)

section Copy

variable {L : List ℕ} {t : ℕ} {k : System} {p : Fin pcbMax}

lemma copyProcessMem_eq (hp : p ≠ k.current) :
    copyProcessMem p k =
      { k.setPcb p { k.pcblist p with pagedir := k.mem.freeList } with
        mem := copyDir k.proc.pagedir k.mem.freeList
          { (allocPage k.mem).2 with ram := fill k.mem.ram k.mem.freeList pageSize 0 } } := by
  have hproc : (k.setPcb p { k.pcblist p with pagedir := k.mem.freeList }).proc = k.proc :=
    System.setPcb_of_ne hp.symm
  rw [copyProcessMem, allocPage]
  simp only [hproc]

/-- **`copy_process_mem` copies the address space faithfully**, for every current process whose
directory, tables and frames are distinct pages off the free list, and every free list with enough
pages. -/
theorem copyProcessMem_faithful (hp : p ≠ k.current)
    (hpages : PageList (userPages k.mem.ram k.proc.pagedir)) (hL : PageList L)
    (hfree : FreeList k.mem L t) (hdisj : (userPages k.mem.ram k.proc.pagedir).Disjoint L)
    (hlen : (userPages k.mem.ram k.proc.pagedir).length ≤ L.length) :
    SpaceCopied L t p k (copyProcessMem p k) := by
  set P := k.proc.pagedir with hP
  have hPpage := hpages.page P (List.mem_cons_self ..)
  have hmodL : ∀ q ∈ L, q % 4096 = 0 := fun q hq => (hL.page q hq).mod
  have hout : ∀ q ∈ userPages k.mem.ram P, q ∉ L := fun q hq hqL => hdisj hq hqL
  have hcopied := copied hL hfree hPpage.mod (hout P (List.mem_cons_self ..))
    (fun i hi hpi => hout _ (table_mem_userPages hi hpi)) hlen
  rw [copyProcessMem_eq hp, ← hP]
  generalize copyDir P k.mem.freeList { (allocPage k.mem).2 with
    ram := fill k.mem.ram k.mem.freeList pageSize 0 } = s' at hcopied
  have hkept : ∀ q ∈ userPages k.mem.ram P, ∀ o < 4096, s'.ram (q + o) = k.mem.ram (q + o) :=
    fun q hq o ho => hcopied.frame _ (off_of_not_mem hmodL (hpages.page q hq).mod ho (hout q hq))
  have hdir : ∀ i < 1024, entry s'.ram P i = entry k.mem.ram P i := fun i hi =>
    entry_congr hi (hkept P (List.mem_cons_self ..))
  have htable : ∀ i < 0x300, Present (entry k.mem.ram P i) → ∀ j < 1024,
      entry s'.ram (target (entry k.mem.ram P i)) j =
        entry k.mem.ram (target (entry k.mem.ram P i)) j := fun i hi hpi j hj =>
    entry_congr hj (hkept _ (table_mem_userPages hi hpi))
  have hsame : userPages s'.ram P = userPages k.mem.ram P :=
    congrArg (P :: ·) (tablesUpTo_congr (fun i hi => hdir i (by omega)) htable)
  obtain ⟨rest, hrest, hfree'⟩ := hcopied.free
  have hidx : ∀ va < kernelVirBase, va / 2 ^ 22 < 0x300 := fun va hva => by
    simp only [kernelVirBase] at hva
    omega
  have hself : ((k.setPcb p { k.pcblist p with pagedir := k.mem.freeList }).pcblist p).pagedir =
      k.mem.freeList := by rw [System.setPcb_self]
  refine ⟨?_, ?_, ?_, ?_, ?_, ?_, ?_, ?_, ?_⟩ <;> simp only [hself]
  · exact fun va hva => hcopied.isSome_walk hva
  · intro va hva pte pte' hw hw' o ho
    obtain ⟨hpi, hpj, rfl⟩ := walk_eq_some hw
    obtain ⟨-, -, rfl⟩ := walk_eq_some hw'
    have hj : va / 2 ^ 12 % 1024 < 1024 := Nat.mod_lt _ (by decide)
    exact hcopied.pages _ (hidx va hva) hpi _ hj hpj
      (hout _ (frame_mem_userPages (hidx va hva) hpi hj hpj)) o ho
  · exact (hrest ▸ hL.nodup).of_append_left
  · exact ⟨rest, hrest, hfree'⟩
  · rw [hsame]
    intro q hq hqP
    exact hdisj hqP (hrest ▸ List.mem_append_left _ hq)
  · intro i hi hi'
    rw [hcopied.kernelHalf i hi hi', hdir i hi']
  · exact System.setPcb_of_ne hp.symm
  · intro va hva
    exact walk_congr (hdir _ (by have := hidx va hva; omega)) fun hpi =>
      htable _ (hidx va hva) hpi _ (Nat.mod_lt _ (by decide))
  · exact hkept

end Copy

/-! ### What `sys_fork` does -/

/-- The state after a `sys_fork` that has found the slot `p` and the pid `pid`. -/
structure Forked (ptr : IntrContext) (p : Fin pcbMax) (pid : ℤ) (k k' : System) : Prop where
  free : (k.pcblist p).pstate = .free
  pidNonneg : 0 ≤ pid
  fresh : ∀ q, (k.pcblist q).pid ≠ pid.toNat
  getPid : getPid k = some (pid, { k with nextpid := k'.nextpid })
  mem : k'.mem = copyDir k.proc.pagedir k.mem.freeList
    { (allocPage k.mem).2 with ram := fill k.mem.ram k.mem.freeList pageSize 0 }
  pcb : ∀ q ≠ p, k'.pcblist q = k.pcblist q
  proc : k'.pcblist p = copyContext ptr { k.pcblist p with
    pstate := .runnable
    pid := pid.toNat
    fatherPid := k.proc.pid
    pagedir := k.mem.freeList
    fdlist := k.proc.fdlist }
  rest : k'.current = k.current ∧ k'.fileList = k.fileList ∧ k'.disk = k.disk ∧
    k'.keyboard = k.keyboard

section Forked

variable {ptr : IntrContext} {k k' : System} {r : ℤ} {p : Fin pcbMax}

/-- `allocProcess` fails without a pid, or takes a free slot. -/
lemma allocProcess_spec {o : Option (Fin pcbMax)} (h : allocProcess k = some (o, k')) :
    (o = none ∧ getPid k = some (-1, k')) ∨
      ∃ p n, ∃ pid : ℤ, o = some p ∧ (k.pcblist p).pstate = .free ∧ 0 ≤ pid ∧
        (∀ q, (k.pcblist q).pid ≠ pid.toNat) ∧ getPid k = some (pid, { k with nextpid := n }) ∧
        k' = System.setPcb { k with nextpid := n } p
          { k.pcblist p with pstate := .runnable, pid := pid.toNat, fatherPid := k.proc.pid } := by
  simp only [allocProcess, Option.bind_eq_bind, Option.bind_eq_some_iff] at h
  obtain ⟨⟨pid, k₁⟩, hget, h⟩ := h
  obtain ⟨⟨pid', n⟩, hloop, he⟩ := Option.map_eq_some_iff.mp hget
  obtain ⟨rfl, rfl⟩ := Prod.mk.inj he
  simp only at h
  split at h
  · rename_i hpid
    obtain ⟨rfl, rfl⟩ := Prod.mk.inj (Option.some_inj.mp h)
    exact .inl ⟨rfl, hpid ▸ hget⟩
  · rename_i hpid
    obtain ⟨p, hp, h⟩ := Option.bind_eq_some_iff.mp h
    obtain ⟨rfl, rfl⟩ := Prod.mk.inj (Option.some_inj.mp h)
    obtain ⟨hnonneg, hfresh⟩ := getPidLoop_found hloop hpid
    have hfree := System.findState_spec hp
    exact .inr ⟨p, n, pid', rfl, hfree, hnonneg, hfresh, hget, rfl⟩

lemma forkInto_eq (hp : p ≠ k.current) :
    forkInto ptr p k =
      { k.setPcb p (copyContext ptr { k.pcblist p with
          pagedir := k.mem.freeList
          fdlist := k.proc.fdlist }) with
        mem := copyDir k.proc.pagedir k.mem.freeList
          { (allocPage k.mem).2 with ram := fill k.mem.ram k.mem.freeList pageSize 0 } } := by
  rw [forkInto]
  generalize hc : ({ k.pcblist p with
    fdlist := fun i => ⟨(k.proc.fdlist i).openFlag, (k.proc.fdlist i).ofptr⟩ } : Pcb) = c
  have hproc : (k.setPcb p c).proc = k.proc := System.setPcb_of_ne hp.symm
  simp only
  rw [copyProcessMem_eq (by exact hp), hproc]
  simp only [System.setPcb_setPcb, System.setPcb_self, System.setPcb_mem, ← hc]
  simp only [System.setPcb, Function.update_idem]

theorem sysFork_spec (hcur : k.proc.pstate ≠ .free) (h : sysFork ptr k = some (r, k')) :
    (r = -1 ∧ getPid k = some (-1, k')) ∨ ∃ p, Forked ptr p r k k' := by
  simp only [sysFork, Option.bind_eq_bind, Option.bind_eq_some_iff] at h
  obtain ⟨⟨o, k₁⟩, halloc, h⟩ := h
  rcases allocProcess_spec halloc with
    ⟨rfl, hget⟩ | ⟨p, n, pid, rfl, hfree, hnonneg, hfresh, hget, hk₁⟩
  · obtain ⟨rfl, rfl⟩ := Prod.mk.inj (Option.some_inj.mp h)
    exact .inl ⟨rfl, hget⟩
  · refine .inr ⟨p, ?_⟩
    have hp : p ≠ k.current := by
      rintro rfl
      exact hcur hfree
    have hk : k₁.mem = k.mem ∧ k₁.proc = k.proc ∧ p ≠ k₁.current ∧ k₁.nextpid = n := by
      rw [hk₁]
      exact ⟨rfl, System.setPcb_of_ne hp.symm, hp, rfl⟩
    have hpcb : ∀ q ≠ p, k₁.pcblist q = k.pcblist q := fun q hq => by
      rw [hk₁]
      exact System.setPcb_of_ne hq
    have hproc : k₁.pcblist p = { k.pcblist p with
        pstate := .runnable, pid := pid.toNat, fatherPid := k.proc.pid } := by
      rw [hk₁, System.setPcb_self]
    have hrest : k₁.current = k.current ∧ k₁.fileList = k.fileList ∧ k₁.disk = k.disk ∧
        k₁.keyboard = k.keyboard := by
      rw [hk₁]
      exact ⟨rfl, rfl, rfl, rfl⟩
    clear hk₁ halloc
    obtain ⟨hmem, hcurrent, hne, rfl⟩ := hk
    simp only at h
    rw [forkInto_eq hne, hmem, hcurrent, hproc] at h
    obtain ⟨rfl, rfl⟩ := Prod.mk.inj (Option.some_inj.mp h)
    refine ⟨hfree, ?_, ?_, ?_, ?_, fun q hq => ?_, ?_, hrest⟩
    · exact Int.natCast_nonneg _
    · simp only [System.setPcb_self, copyContext]
      exact hfresh
    · simp only [System.setPcb_self, copyContext, Int.toNat_of_nonneg hnonneg]
      exact hget
    · simp only
    · simp only
      rw [System.setPcb_of_ne hq, hpcb q hq]
    · simp only [System.setPcb_self, copyContext, Int.toNat_natCast]

end Forked

/-! ### A process with one page -/

/-- A directory at `0xc0140000` with one table, a page behind it, and three free pages. -/
def onePageRam : Bytes :=
  put32 (put32 (put32 (put32 (fun _ => 0) 0xc0140000 0x141007) 0xc0141014 0x142007)
    0xc0143000 0xc0144000) 0xc0144000 0xc0145000

/-- Process 0 with that address space. -/
def onePageSystem : System where
  mem := ⟨onePageRam, 0xc0143000⟩
  pcblist := fun _ => { zeroPcb with pagedir := 0xc0140000 }
  current := 0
  nextpid := 1
  fileList := fun _ => ⟨0, 0, 0, 0, false⟩
  disk := fun _ => 0
  keyboard := .init

lemma userPages_onePageRam :
    userPages onePageRam 0xc0140000 = [0xc0140000, 0xc0141000, 0xc0142000] := by decide +kernel

theorem copyProcessMem_faithful_onePage :
    SpaceCopied [0xc0143000, 0xc0144000, 0xc0145000] 0 1 onePageSystem
      (copyProcessMem 1 onePageSystem) := by
  have hpages : userPages onePageSystem.mem.ram onePageSystem.proc.pagedir =
      [0xc0140000, 0xc0141000, 0xc0142000] := userPages_onePageRam
  refine copyProcessMem_faithful (by decide) ?_ ⟨by decide, by decide⟩ ?_ ?_ ?_
  · rw [hpages]
    exact ⟨by decide, by decide⟩
  · refine ⟨rfl, ?_, ?_, show _ = _ from ?_⟩ <;> decide +kernel
  · rw [hpages]
    intro q hq hq'
    simp only [List.mem_cons, List.not_mem_nil, or_false] at hq hq'
    omega
  · rw [hpages]
    decide

end Nbos.Process
