import Nbos.Process.Isolation

/-!
# What an exit loses

`sys_fork` takes a directory, a table for each table of the parent and a page for each of its pages;
`sys_exit` gives back the directory. `childLife_free_iff` compares the free list before a fork with
the one after the child has exited and its parent has waited for it.

`free_process_user_mem`, which `sys_exit` does not call, would give the rest back: each page once
(`freeProcessUserMem_returns`).
-/

namespace Nbos.Process

open Nbos.Lib Nbos.Kernel Nbos.Memory

/-! ### The life of a child -/

/-- A timer interrupt or a `sys_wait`: nothing is allocated, and nothing given back. -/
def Idle (c : Call) (_ : System) : Prop := c.event = .timer ∨ c.event = .wait

/-- The current process of `k` forks a child into the slot `p`; the child exits; its parent waits
for it, which leads to `k'`. In between there are timer interrupts, and other processes may wait. -/
inductive ChildLife (p : Fin pcbMax) (k k' : System) : Prop
  | intro {ptr : IntrContext} {k₁ k₂ k₃ k₄ : System} {h h' : List Call}
      (fork : Step (.fork ptr) k k₁)
      (taken : (k.pcblist p).pstate = .free ∧ (k₁.pcblist p).pstate ≠ .free)
      (before : Run Step Idle k₁ h k₂)
      (child : k₂.current = p)
      (exit : Step .exit k₂ k₃)
      (after : Run Step Idle k₃ h' k₄)
      (parent : k₄.current = k.current)
      (wait : Step .wait k₄ k')
      (reaped : (k'.pcblist p).pstate = .free)

/-- A `sys_fork` of the current process finds the free list in order, apart from the tables that are
to be copied, and long enough. -/
structure Forkable (L : List ℕ) (k : System) : Prop where
  free : FreeList k.mem L 0
  list : PageList L
  apart : Apart L k.mem.ram k.proc.pagedir
  enough : (k.space k.current).length ≤ L.length

section Leak

variable {k k' : System} {c : Call} {h : List Call} {p : Fin pcbMax} {L : List ℕ} {m : Bytes}
  {dir n : ℕ}

lemma Idle.step (hk : Sane k) (hi : Idle c k) (hs : Step c k k') : Quiet k k' := by
  have hG : Careful c k := by
    rcases hi with hi | hi <;> cases c <;> cases hi <;> exact trivial
  rcases hs.careful_cases hk hG with hq | ⟨ptr, p, pid, rfl, -⟩ | ⟨rfl, -⟩
  · exact hq
  · exact absurd hi (by simp [Idle, Call.event])
  · exact absurd hi (by simp [Idle, Call.event])

lemma run_idle (hrun : Run Step Idle k h k') (hk : Sane k) : Sane k' ∧ Quiet k k' := by
  refine hrun.inv (fun k' => Sane k' ∧ Quiet k k') ⟨hk, .refl⟩ ?_
  rintro c k₁ k₂ ⟨hk₁, hq⟩ hi hs
  exact ⟨hk₁.step hs, hq.trans (hi.step hk₁ hs)⟩

/-- The pages of a child are the first ones of the free list, and its directory has the entries of its
parent's. -/
lemma Forkable.fork (hf : Forkable L k) {ptr : IntrContext} {pid : ℤ} (h : Forked ptr p pid k k') :
    ∃ rest, L = k'.space p ++ rest ∧ FreeList k'.mem rest 0 ∧ ∀ i < 0x300,
      (Present (entry k'.mem.ram (k'.pcblist p).pagedir i) ↔
        Present (entry k.mem.ram k.proc.pagedir i)) := by
  have hc := copied hf.list hf.free hf.apart.mod hf.apart.self hf.apart.tables hf.enough
  rw [← h.mem] at hc
  have hdir : (k'.pcblist p).pagedir = k.mem.freeList := by rw [h.proc]; rfl
  obtain ⟨rest, hL, hfree⟩ := hc.free
  rw [System.space, hdir]
  exact ⟨rest, hL, hfree, fun i hi => hc.present i (by omega)⟩

/-- A list with no repetition has lost nothing if and only if the same members are left. -/
lemma mem_iff_lost_eq_nil {α : Type*} {a : α} {lost rest : List α}
    (hnd : (a :: (lost ++ rest)).Nodup) :
    (∀ q, q ∈ a :: rest ↔ q ∈ a :: (lost ++ rest)) ↔ lost = [] := by
  obtain ⟨ha, hnd⟩ := List.nodup_cons.mp hnd
  constructor
  · intro heq
    refine List.eq_nil_iff_forall_not_mem.mpr fun x hx => ?_
    have hx' : x ∈ lost ++ rest := List.mem_append_left _ hx
    rcases List.mem_cons.mp ((heq x).mpr (List.mem_cons_of_mem _ hx')) with rfl | hxr
    · exact ha hx'
    · exact (List.nodup_append'.mp hnd).2.2 hx hxr
  · rintro rfl q
    rw [List.nil_append]

/-- The directory of a child comes back, and what is behind it is lost. -/
lemma ChildLife.lost (hk : Sane k) (hf : Forkable L k) (hlife : ChildLife p k k') :
    ∃ D lost rest, L = D :: (lost ++ rest) ∧ FreePages k' (D :: rest) ∧
      (lost = [] ↔ ∀ i < 0x300, ¬ Present (entry k.mem.ram k.proc.pagedir i)) := by
  obtain ⟨hfork, htaken, hbefore, hchild, hexit, hafter, -, hwait, -⟩ := hlife
  rename_i ptr k₁ k₂ k₃ k₄ h h'
  have hk₁ := hk.step hfork
  -- the fork
  obtain ⟨q, pid, hforked⟩ : ∃ q pid, Forked ptr q pid k k₁ := by
    cases hfork.stepped hk with
    | forkFails => exact absurd htaken.1 htaken.2
    | fork hf => exact ⟨_, _, hf⟩
  obtain rfl : q = p := by
    by_contra hne
    rw [hforked.pcb p (Ne.symm hne)] at htaken
    exact htaken.2 htaken.1
  have hp0 : q ≠ 0 := fun he => hk.table.rootBusy (he ▸ hforked.free)
  have hlive : Live k₁ q := ⟨hp0, htaken.2, by rw [hforked.proc]; simp [copyContext]⟩
  obtain ⟨rest, hL, hfree, hpresent⟩ := hf.fork hforked
  -- the exit
  obtain ⟨hk₂, hquiet₂⟩ := run_idle hbefore hk₁
  have hk₃ := hk₂.step hexit
  obtain ⟨p, hpid, hx⟩ : ∃ p, getPCB k₂.proc.pid k₂ = some p ∧ Exited p k₂ k₃ := by
    cases hexit.stepped hk₂ with
    | exit hp hx => exact ⟨_, hp, hx⟩
  have hcur : k₂.current ≠ 0 := fun he => hp0 (hchild.symm.trans he)
  obtain rfl : p = q := (hk₂.table.eq_current hcur (getPCB_spec hpid)).trans hchild
  have hdir : (k₂.pcblist p).pagedir = (k₁.pcblist p).pagedir := hquiet₂.pagedir p (.inr hlive)
  set D := (k₁.pcblist p).pagedir with hD
  have hlist : PageList (D :: (tablesUpTo k₁.mem.ram D 0x300 ++ rest)) := by
    have := hL ▸ hf.list
    rwa [System.space, userPages, ← hD, List.cons_append] at this
  have hsub : (D :: rest).Sublist (D :: (tablesUpTo k₁.mem.ram D 0x300 ++ rest)) :=
    (List.sublist_append_right _ rest).cons_cons D
  have hrest : PageList (D :: rest) := hlist.sublist hsub
  have hfree₃ : FreeList k₃.mem (D :: rest) 0 := by
    rw [hx.mem, hdir, hquiet₂.mem]
    refine hfree.free (hfree.lt ⟨fun x hx => hrest.page x (List.mem_cons_of_mem _ hx), ?_⟩)
      (hrest.page D (List.mem_cons_self ..)).mod
      (fun x hx => (hrest.page x (List.mem_cons_of_mem _ hx)).mod) ?_
    · exact (List.nodup_cons.mp hrest.nodup).2
    · exact (List.nodup_cons.mp hrest.nodup).1
  -- the wait
  obtain ⟨hk₄, hquiet₄⟩ := run_idle hafter hk₃
  have hquiet₅ := Idle.step hk₄ (.inr rfl) hwait
  refine ⟨D, tablesUpTo k₁.mem.ram D 0x300, rest, ?_, ⟨?_, zero_not_mem hrest⟩, ?_⟩
  · rw [hL, System.space, userPages, ← hD, List.cons_append]
  · rw [hquiet₅.mem, hquiet₄.mem]
    exact hfree₃
  · rw [← forall₂_congr fun i hi => not_congr (hpresent i hi), ← tablesUpTo_eq_nil]

/-- **What a child leaves behind**: after it has been forked, has exited and has been waited for, the
free list is as it was before if and only if the user half of its parent had no table. -/
theorem childLife_free_iff (hk : Sane k) (hf : Forkable L k) (hlife : ChildLife p k k') :
    ∃ L', FreePages k' L' ∧
      ((∀ q, q ∈ L' ↔ q ∈ L) ↔ ∀ i < 0x300, ¬ Present (entry k.mem.ram k.proc.pagedir i)) := by
  obtain ⟨D, lost, rest, hL, hfree, hlost⟩ := hlife.lost hk hf
  refine ⟨D :: rest, hfree, ?_⟩
  rw [← hlost, hL, mem_iff_lost_eq_nil (hL ▸ hf.list.nodup)]

end Leak

/-! ### What `free_process_user_mem` gives back -/

/-- The user half of the directory `dir` is back on the free list, which was `L` before: the pages are
`F`, each there once, and all else is as it was. -/
structure Returned (dir : ℕ) (L : List ℕ) (t : ℕ) (s : Mem) (F : List ℕ) (s' : Mem) : Prop where
  once : F.Nodup
  pages : F.Perm (tablesUpTo s.ram dir 0x300)
  directory : dir ∉ F
  free : FreeList s' (F.reverse ++ L) t
  kept : ∀ p, p % pageSize = 0 → p ∉ F → ∀ o < pageSize, s'.ram (p + o) = s.ram (p + o)
  kernelHalf : ∀ i, 0x300 ≤ i → i < pageStructEntries → entry s'.ram dir i = entry s.ram dir i ∧
    (Present (entry s.ram dir i) → ∀ o < pageSize,
      s'.ram (target (entry s.ram dir i) + o) = s.ram (target (entry s.ram dir i) + o))

section Returned

variable {k : System} {p : Fin pcbMax} {L : List ℕ} {s : Mem} {dir t : ℕ}

/-- The user half of one directory. -/
lemma returned (hfree : FreeList s L t) (hlt : s.freeList < 2 ^ 32) (hL : ∀ p ∈ L, p % pageSize = 0)
    (hdir : dir % pageSize = 0) (hnodup : (userPages s.ram dir).Nodup)
    (hdisj : (tablesUpTo s.ram dir 0x300).Disjoint L)
    (hkernel : ∀ i, 0x300 ≤ i → i < pageStructEntries → Present (entry s.ram dir i) →
      target (entry s.ram dir i) ∉ tablesUpTo s.ram dir 0x300) :
    Returned dir L t s (freedUpTo s.ram dir 0x300) (freeProcessUserMem dir s) := by
  have hrel := freeProcessUserMem_spec hfree hlt hL hdir hnodup hdisj
  obtain ⟨hself, hnodup⟩ := List.nodup_cons.mp hnodup
  have hpages := returnable_freedUpTo hnodup hdisj hL
  have hmem : ∀ q, q ∈ freedUpTo s.ram dir 0x300 ↔ q ∈ tablesUpTo s.ram dir 0x300 :=
    fun _ => freedUpTo_perm.mem_iff
  have hperm : (freedUpTo s.ram dir 0x300).Perm (tablesUpTo s.ram dir 0x300) := freedUpTo_perm
  have hdirF : dir ∉ freedUpTo s.ram dir 0x300 := fun hm => hself ((hmem dir).mp hm)
  generalize freedUpTo s.ram dir 0x300 = F at *
  refine ⟨hpages.nodup, hperm, hdirF, hrel.free, ?_, fun i hi hi' => ⟨?_, ?_⟩⟩
  · intro q hq hqF o ho
    exact hrel.byte_eq hpages hq hqF ho
  · exact hrel.entry_eq hpages hdir hdirF hi'
  · intro hp o ho
    exact hrel.byte_eq hpages (target_mod _) (fun hm => hkernel i hi hi' hp ((hmem _).mp hm)) ho

/-- The user half of a copy: what `copy_process_mem` has taken, but for the new directory. -/
lemma returned_copy (hp : p ≠ k.current) (hfree : FreeList k.mem L t) (hL : PageList L)
    (hapart : Apart L k.mem.ram k.proc.pagedir)
    (hkernel : ∀ i, 0x300 ≤ i → i < pageStructEntries → Present (entry k.mem.ram k.proc.pagedir i) →
      target (entry k.mem.ram k.proc.pagedir i) ∉ L)
    (henough : (k.space k.current).length ≤ L.length) :
    ∃ D taken rest F, ((copyProcessMem p k).pcblist p).pagedir = D ∧ L = D :: (taken ++ rest) ∧
      FreeList (copyProcessMem p k).mem rest t ∧ F.Perm taken ∧
      Returned D rest t (copyProcessMem p k).mem F (freeProcessUserMem D (copyProcessMem p k).mem) := by
  have hc := copied hL hfree hapart.mod hapart.self hapart.tables henough
  rw [copyProcessMem_eq hp, System.setPcb_self]
  simp only
  generalize copyDir k.proc.pagedir k.mem.freeList { (allocPage k.mem).2 with
    ram := fill k.mem.ram k.mem.freeList pageSize 0 } = s' at hc ⊢
  obtain ⟨rest, hrest, hfree'⟩ := hc.free
  have hL' : PageList (userPages s'.ram k.mem.freeList ++ rest) := hrest ▸ hL
  obtain ⟨hpages, hlist, hdisj⟩ := hL'.append
  refine ⟨_, tablesUpTo s'.ram k.mem.freeList 0x300, rest, _, rfl, ?_, hfree', freedUpTo_perm,
    returned hfree' ?_ (fun q hq => (hlist.page q hq).mod)
      (hpages.page _ (List.mem_cons_self ..)).mod hpages.nodup
      (fun q hq => hdisj (List.mem_cons_of_mem _ hq)) fun i hi hi' hpi hm => ?_⟩
  · rw [hrest, userPages, List.cons_append]
  · -- the free list ends where it did
    have hlt : k.mem.freeList < 2 ^ 32 :=
      (hL.page _ (hrest ▸ List.mem_append_left _ (List.mem_cons_self ..))).lt
    have ht : t < 2 ^ 32 := Chain.end_of_closed (S := (· < 2 ^ 32)) hfree hlt fun q => get32_lt k.mem.ram q
    cases rest with
    | nil => exact hfree'.trans_lt ht
    | cons q rest => exact hfree'.1.trans_lt (hlist.page q (List.mem_cons_self ..)).lt
  · -- the kernel half is that of the parent
    rw [hc.kernelHalf i hi hi'] at hpi hm
    apply hkernel i hi hi' hpi
    rw [hrest]
    exact List.mem_append_left _ (List.mem_cons_of_mem _ hm)

/-- **Each page is given back once**: the tables of the user half and the pages behind them, as long
as they are distinct, none of them is the directory or a table of the kernel half, and none is free.
Of a directory that `copy_process_mem` has just made, these are the pages that it has taken apart from
the directory. -/
theorem freeProcessUserMem_returns :
    (∀ (s : Mem) (dir t : ℕ) (L : List ℕ), FreeList s L t → s.freeList < 2 ^ 32 →
      (∀ p ∈ L, p % pageSize = 0) → dir % pageSize = 0 → (userPages s.ram dir).Nodup →
      (tablesUpTo s.ram dir 0x300).Disjoint L →
      (∀ i, 0x300 ≤ i → i < pageStructEntries → Present (entry s.ram dir i) →
        target (entry s.ram dir i) ∉ tablesUpTo s.ram dir 0x300) →
      ∃ F, Returned dir L t s F (freeProcessUserMem dir s)) ∧
    ∀ (k : System) (p : Fin pcbMax) (t : ℕ) (L : List ℕ), p ≠ k.current → FreeList k.mem L t →
      PageList L → Apart L k.mem.ram k.proc.pagedir →
      (∀ i, 0x300 ≤ i → i < pageStructEntries → Present (entry k.mem.ram k.proc.pagedir i) →
        target (entry k.mem.ram k.proc.pagedir i) ∉ L) →
      (k.space k.current).length ≤ L.length →
      ∃ D taken rest F, ((copyProcessMem p k).pcblist p).pagedir = D ∧ L = D :: (taken ++ rest) ∧
        FreeList (copyProcessMem p k).mem rest t ∧ F.Perm taken ∧
        Returned D rest t (copyProcessMem p k).mem F
          (freeProcessUserMem D (copyProcessMem p k).mem) := by
  constructor
  · intro s dir t L hfree hlt hL hdir hnodup hdisj hkernel
    exact ⟨_, returned hfree hlt hL hdir hnodup hdisj hkernel⟩
  · intro k p t L hp hfree hL hapart hkernel henough
    exact returned_copy hp hfree hL hapart hkernel henough

end Returned

/-- The copy of the process with one page is given back. -/
theorem freeProcessUserMem_returns_onePage :
    ∃ D taken rest F, ((copyProcessMem 1 onePageSystem).pcblist 1).pagedir = D ∧
      [0xc0143000, 0xc0144000, 0xc0145000] = D :: (taken ++ rest) ∧ F.Perm taken ∧
      Returned D rest 0 (copyProcessMem 1 onePageSystem).mem F
        (freeProcessUserMem D (copyProcessMem 1 onePageSystem).mem) ∧
      ∃ F', Returned 0xc0140000 [0xc0143000, 0xc0144000, 0xc0145000] 0 onePageSystem.mem F'
        (freeProcessUserMem 0xc0140000 onePageSystem.mem) := by
  have hpages : userPages onePageRam 0xc0140000 = [0xc0140000, 0xc0141000, 0xc0142000] :=
    userPages_onePageRam
  have htables : tablesUpTo onePageRam 0xc0140000 0x300 = [0xc0141000, 0xc0142000] :=
    (List.cons.inj hpages).2
  have hfree : FreeList onePageSystem.mem [0xc0143000, 0xc0144000, 0xc0145000] 0 := by
    refine ⟨rfl, ?_, ?_, show _ = _ from ?_⟩ <;> decide +kernel
  have hkernel : ∀ i, 0x300 ≤ i → i < pageStructEntries →
      ¬ Present (entry onePageRam 0xc0140000 i) := by decide +kernel
  have hsrc : ∀ i < 0x300, Present (entry onePageRam 0xc0140000 i) →
      target (entry onePageRam 0xc0140000 i) ∉ [0xc0143000, 0xc0144000, 0xc0145000] := by
    intro i hi hp hm
    have hmem := table_mem_userPages hi hp
    rw [hpages] at hmem
    simp only [List.mem_cons, List.not_mem_nil, or_false] at hmem hm
    omega
  have hlen : (userPages onePageRam 0xc0140000).length ≤ 3 := by rw [hpages]; decide
  obtain ⟨D, taken, rest, F, hD, hL, -, hF, hback⟩ := freeProcessUserMem_returns.2 onePageSystem 1 0
    _ (by decide) hfree ⟨by decide, by decide⟩ ⟨by decide, by decide, hsrc⟩
    (fun i hi hi' hp => absurd hp (hkernel i hi hi')) hlen
  have hnodup : (userPages onePageRam 0xc0140000).Nodup := by rw [hpages]; decide
  have hdisj : (tablesUpTo onePageRam 0xc0140000 0x300).Disjoint
      [0xc0143000, 0xc0144000, 0xc0145000] := by
    rw [htables]
    intro q hq hq'
    simp only [List.mem_cons, List.not_mem_nil, or_false] at hq hq'
    omega
  exact ⟨D, taken, rest, F, hD, hL, hF, hback, freeProcessUserMem_returns.1 _ _ _ _ hfree
    (by decide) (by decide) (by decide) hnodup hdisj fun i hi hi' hp => absurd hp (hkernel i hi hi')⟩

/-! ### A run with a leak -/

/-- Process 0 forks a first child and a second one; the first one exits and is waited for; the second
one has forked a child and goes on. -/
def secondChild : List Call :=
  [.timer userFrame, .wait, .timer userFrame, .fork userFrame, .timer userFrame, .timer userFrame,
    .exit, .timer userFrame, .fork userFrame, .fork userFrame]

/-- Two timer interrupts: to process 0 and on from there. -/
def twoTicks : List Call := [.timer userFrame, .timer userFrame]

lemma idle_twoTicks : ∀ c ∈ twoTicks, ∀ k, Idle c k := by
  intro c hc k
  obtain rfl : c = .timer userFrame := by simpa [twoTicks] using hc
  exact .inl rfl

lemma step_of_performNotRoot {c : Call} {k k' : System} (h : performNotRoot [c] k = some k') :
    Step c k k' := by
  cases run_performNotRoot h with
  | cons hrun _ hs =>
    cases hrun
    exact hs

/-- The second child of process 0 forks another child and waits for it. -/
lemma childLife_secondChild : ∃ k k', Run Step Careful (kernelBoot fun _ => 0) secondChild k ∧
    Roomy 3757 k ∧ k.current = 2 ∧ ChildLife 1 k k' := by
  obtain ⟨k, hk, hcur, hfree⟩ := exists_of_any
    (P := fun k => k.current = 2 ∧ (k.pcblist 1).pstate = .free)
    (o := performNotRoot secondChild (kernelBoot fun _ => 0)) (by decide +kernel)
  obtain ⟨k₁, hk₁, hfork, htaken⟩ := exists_performNotRoot [.fork userFrame]
    (P := fun k => (k.pcblist 1).pstate ≠ .free) hk (by decide +kernel)
  obtain ⟨k₂, hk₂, hbefore, hchild⟩ := exists_performNotRoot twoTicks
    (P := fun k => k.current = 1) hk₁ (by decide +kernel)
  obtain ⟨k₃, hk₃, hexit, -⟩ := exists_performNotRoot [.exit]
    (P := fun _ => True) hk₂ (by decide +kernel)
  obtain ⟨k₄, hk₄, hafter, hparent⟩ := exists_performNotRoot twoTicks
    (P := fun k => k.current = 2) hk₃ (by decide +kernel)
  obtain ⟨k', -, hwait, hreaped⟩ := exists_performNotRoot [.wait]
    (P := fun k => (k.pcblist 1).pstate = .free) hk₄ (by decide +kernel)
  have hroom : Roomy 7869 (kernelBoot fun _ => 0) := kernelBoot_roomy
  have hcount : 3757 + 1028 * (secondChild.countP fun c => c.event = .fork) ≤ 7869 := by
    simp [secondChild, Call.event]
  obtain ⟨hrun, hroomy⟩ := hroom.run (run_performNotRoot hk) (by decide) hcount
  exact ⟨k, k', hrun, hroomy, hcur, .intro (step_of_performNotRoot hfork) ⟨hfree, htaken⟩
    ((run_performNotRoot hbefore).of_labels idle_twoTicks) hchild (step_of_performNotRoot hexit)
    ((run_performNotRoot hafter).of_labels idle_twoTicks) (hparent.trans hcur.symm)
    (step_of_performNotRoot hwait) hreaped⟩

/-- The process of that run can fork. -/
lemma Roomy.forkable {m : ℕ} {k : System} (h : Roomy m k) (hm : 1028 ≤ m) : ∃ L, Forkable L k := by
  obtain ⟨L, hlen, ho, -⟩ := h.pages
  have hsize := (h.small k.current h.sane.current_live).size
  exact ⟨L, ho.free, ho.list, ho.apart_free h.sane.current_live, by omega⟩

theorem childLife_free_iff_secondChild : ∃ k k', ChildLife 1 k k' ∧ ∃ L L', FreePages k L ∧
    FreePages k' L' ∧ ¬ ∀ q, q ∈ L' ↔ q ∈ L := by
  obtain ⟨k, k', -, hroomy, -, hlife⟩ := childLife_secondChild
  obtain ⟨L, hf⟩ := hroomy.forkable (by decide)
  obtain ⟨L', hL', hiff⟩ := childLife_free_iff hroomy.sane hf hlife
  refine ⟨k, k', hlife, L, L', ⟨hf.free, zero_not_mem hf.list⟩, hL', fun hall => ?_⟩
  exact hiff.mp hall 0 (by decide) (hroomy.small k.current hroomy.sane.current_live).first

/-- In that run the tables of the child are lost. -/
theorem child_leaks : ¬ ∀ k₀ h k k' p L L', Begins kernelRam 0 0xc0020000 k₀ →
    Run Step Careful k₀ h k → k.current ≠ 0 → ChildLife p k k' → FreePages k L → FreePages k' L' →
    ∀ q, q ∈ L' ↔ q ∈ L := by
  intro hall
  obtain ⟨k, k', hrun, hroomy, hcur, hlife⟩ := childLife_secondChild
  obtain ⟨L, hf⟩ := hroomy.forkable (by decide)
  obtain ⟨D, lost, rest, hL, hfree, hlost⟩ := hlife.lost hroomy.sane hf
  have hsame := hall _ _ _ _ _ _ _ kernelBoot_begins hrun (by rw [hcur]; decide) hlife
    ⟨hf.free, zero_not_mem hf.list⟩ hfree
  rw [hL, mem_iff_lost_eq_nil (hL ▸ hf.list.nodup), hlost] at hsame
  exact hsame 0 (by decide) (hroomy.small k.current hroomy.sane.current_live).first

end Nbos.Process
