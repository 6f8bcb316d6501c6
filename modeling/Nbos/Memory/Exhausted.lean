import Nbos.Memory.Pool

/-!
# Running out of pages

`alloc_page` takes the head of the free list and follows its link, also when there is none. So at the
end of the list it returns what `init_memory` has left behind the last page, and reads the word at
`NULL` if that is `NULL`: `reports_iff`.
-/

namespace Nbos.Memory

open Nbos.Lib Nbos.Kernel

/-- One call of `alloc_page`, of `free_page` on a page that a caller holds, or one store into such a
page. Who gets `NULL` holds no more than before. -/
inductive Client.Call : Client → Client → Prop
  | alloc (c : Client) : Client.Call c ⟨(allocPage c.mem).2,
      if (allocPage c.mem).1 = 0 then c.out else (allocPage c.mem).1 :: c.out⟩
  | free (c : Client) (p : ℕ) : p ∈ c.out → Client.Call c ⟨freePage p c.mem, c.out.erase p⟩
  | write (c : Client) (p a : ℕ) (b : UInt8) : p ∈ c.out → InPage p a →
      Client.Call c ⟨{ c.mem with ram := Function.update c.mem.ram a b }, c.out⟩

/-- Every page of the pool is outstanding. -/
def Client.Full (e : ℕ) (c : Client) : Prop := ∀ p ∈ pool e, p ∈ c.out

/-- What the next `alloc_page` does. It returns a page of the pool or `NULL`, and `NULL` just when the
whole pool is outstanding; then the free list is empty, and a page given back is the only one on it. -/
structure Client.Reports (e : ℕ) (c : Client) : Prop where
  result : (allocPage c.mem).1 ∈ pool e ∨ (allocPage c.mem).1 = 0
  null : (allocPage c.mem).1 = 0 ↔ c.Full e
  empty : c.Full e → (allocPage c.mem).2.freeList = 0
  usable : c.Full e → ∀ p ∈ c.out, FreeList (freePage p (allocPage c.mem).2) [p] 0

/-- It does so after every sequence of calls that follow `init_memory`. -/
def AlwaysReports (ram : Bytes) (junk : ℕ) : Prop :=
  ∀ s, initMemory junk ⟨ram, 0⟩ = some s →
    ∀ c, Relation.ReflTransGen Client.Call (Client.init s) c → c.Reports (kernelEnd ram junk)

section Exhausted

variable {e p t junk : ℕ} {c c' : Client} {ram : Bytes} {L : List ℕ} {s : Mem}

lemma pool_nonempty : (pool e).Nonempty ↔ alignUp e < phy2Vir phySize := by
  constructor
  · rintro ⟨p, hp⟩
    obtain ⟨hle, hlt, -⟩ := mem_pool.mp hp
    exact hle.trans_lt hlt
  · intro h
    exact ⟨_, mem_pool.mpr ⟨le_rfl, h, alignUp_mod e⟩⟩

/-- The pool starts behind the page at `NULL`. -/
lemma le_of_mem_pool (he : kernelVirBase ≤ alignUp e) (hp : p ∈ pool e) : 4096 ≤ p := by
  have hle := (mem_pool.mp hp).1
  simp only [kernelVirBase] at he
  omega

/-- The free list is empty, just when the pool is outstanding. -/
lemma Client.EndsAt.cases (h : c.EndsAt e t) :
    (c.Full e ∧ c.mem.freeList = t) ∨
      ∃ p L, ¬ c.Full e ∧ FreeList c.mem (p :: L) t ∧ (p :: L).Nodup ∧
        ∀ q, q ∈ p :: L ↔ q ∈ pool e ∧ q ∉ c.out := by
  obtain ⟨L, hL, hnd, hmem⟩ := h.free
  cases L with
  | nil =>
    refine .inl ⟨fun p hp => ?_, hL⟩
    by_contra hpo
    exact absurd ((hmem p).mpr ⟨hp, hpo⟩) List.not_mem_nil
  | cons p L =>
    refine .inr ⟨p, L, fun hfull => ?_, hL, hnd, hmem⟩
    obtain ⟨hp, hpo⟩ := (hmem p).mp (List.mem_cons_self ..)
    exact hpo (hfull p hp)

/-! ### A list that ends at `NULL` -/

/-- The free list ends at `NULL`, and so does what follows it there. -/
structure Client.Ended (e : ℕ) (c : Client) : Prop extends c.EndsAt e 0 where
  null : get32 c.mem.ram 0 = 0

lemma Client.Ended.reports (h : c.Ended e) (he : kernelVirBase ≤ alignUp e) : c.Reports e := by
  rcases h.cases with ⟨hfull, hend⟩ | ⟨p, L, hfull, hL, hnd, hmem⟩
  · have hnull : get32 c.mem.ram c.mem.freeList = 0 := by rw [hend, h.null]
    refine ⟨.inr hend, iff_of_true hend hfull, fun _ => hnull, fun _ p _ => ⟨rfl, ?_⟩⟩
    -- the link of the page given back
    show get32 (put32 c.mem.ram p (get32 c.mem.ram c.mem.freeList)) p = 0
    rw [hnull, get32_put32, Nat.zero_mod]
  · obtain ⟨hfirst, ⟨hp, -⟩, -⟩ := h.alloc hL hnd hmem
    have hle := le_of_mem_pool he hp
    refine ⟨.inl (hfirst ▸ hp), iff_of_false (by omega) hfull, fun hc => absurd hc hfull,
      fun hc => absurd hc hfull⟩

lemma Client.Ended.call (h : c.Ended e) (he : kernelVirBase ≤ alignUp e) (hs : Client.Call c c') :
    c'.Ended e := by
  cases hs with
  | alloc =>
    rcases h.cases with ⟨-, hend⟩ | ⟨p, L, -, hL, hnd, hmem⟩
    · -- nothing changes
      have hsame : (allocPage c.mem).2 = c.mem := by
        rw [allocPage]
        simp only
        rw [hend, h.null, ← hend]
      have hnull : (allocPage c.mem).1 = 0 := hend
      rw [hsame, if_pos hnull]
      exact h
    · obtain ⟨hfirst, ⟨hp, -⟩, h'⟩ := h.alloc hL hnd hmem
      have hle := le_of_mem_pool he hp
      rw [if_neg (by omega), hfirst]
      exact ⟨h', h.null⟩
  | free p hp =>
    have hle := le_of_mem_pool he (h.sub p hp)
    refine ⟨h.free_page hp, ?_⟩
    show get32 (put32 c.mem.ram p c.mem.freeList) 0 = 0
    rw [get32_put32_of_disjoint (by omega), h.null]
  | write p a b hp ha =>
    have hle := le_of_mem_pool he (h.sub p hp)
    have hlow := hle.trans ha.1
    refine ⟨h.write hp ha, Eq.trans (get32_congr fun k hk => ?_) h.null⟩
    exact Function.update_of_ne (by omega) _ _

/-! ### The last page -/

/-- All that is left can be allocated. -/
lemma Client.EndsAt.drain (h : c.EndsAt e t) (he : kernelVirBase ≤ alignUp e) :
    ∃ c', Relation.ReflTransGen Client.Call c c' ∧ c'.EndsAt e t ∧ c'.Full e ∧
      c'.mem.freeList = t ∧ c'.mem.ram = c.mem.ram := by
  obtain ⟨L, hL, hnd, hmem⟩ := h.free
  induction L generalizing c with
  | nil =>
    refine ⟨c, .refl, h, fun p hp => ?_, hL, rfl⟩
    by_contra hpo
    exact absurd ((hmem p).mpr ⟨hp, hpo⟩) List.not_mem_nil
  | cons p L ih =>
    obtain ⟨hfirst, ⟨hp, -⟩, h'⟩ := h.alloc hL hnd hmem
    have hle := le_of_mem_pool he hp
    have hcall := Client.Call.alloc c
    rw [if_neg (by omega), hfirst] at hcall
    obtain ⟨-, -, hL'⟩ := hL.alloc
    obtain ⟨c', hrun, hends, hfull, hend, hram⟩ := ih h' hL' hnd.of_cons (mem_tail_iff hnd hmem)
    exact ⟨c', .head hcall hrun, hends, hfull, hend, hram⟩

/-- Nothing is written to the page at `NULL`. -/
lemma initMemory_null (hs : initMemory junk ⟨ram, 0⟩ = some s) : get32 s.ram 0 = get32 ram 0 := by
  have hlow := initMemory_low hs
  by_cases hlt : alignUp (kernelEnd ram junk) < phy2Vir phySize
  · obtain ⟨s', hs', -, -, hkeep⟩ := initMemory_spec rfl hlow hlt
    obtain rfl := Option.some_inj.mp (hs.symm.trans hs')
    simp only [kernelVirBase] at hlow
    exact get32_congr fun k hk => hkeep _ (by omega)
  · have hge : phy2Vir phySize ≤ alignUp (kernelEnd ram junk) := by omega
    obtain rfl := Option.some_inj.mp (hs.symm.trans (@initMemory_of_ge ⟨ram, 0⟩ junk hge))
    rfl

/-- The state at the end of the list shows what the list ends at. -/
lemma AlwaysReports.null (h : AlwaysReports ram junk) (hs : initMemory junk ⟨ram, 0⟩ = some s) :
    listEnd ram junk = 0 ∧ get32 ram 0 = 0 := by
  obtain ⟨c, hrun, -, hfull, hend, hram⟩ := (Client.endsAt_init hs).drain (initMemory_low hs)
  have hreports := h s hs c hrun
  have hnull : c.mem.freeList = 0 := hreports.null.mpr hfull
  have hempty : get32 c.mem.ram c.mem.freeList = 0 := hreports.empty hfull
  rw [hnull, hram] at hempty
  exact ⟨hend.symm.trans hnull, (initMemory_null hs).symm.trans hempty⟩

/-- **When running out of pages is reported**, if `init_memory` returns: the last page of a pool that has
one is found with 0 in its first word, and so is the page at `NULL`. -/
theorem reports_iff (ram : Bytes) (junk : ℕ) : AlwaysReports ram junk ↔
    ∀ s, initMemory junk ⟨ram, 0⟩ = some s →
      ((pool (kernelEnd ram junk)).Nonempty → get32 ram lastPage = 0) ∧ get32 ram 0 = 0 := by
  constructor
  · intro h s hs
    obtain ⟨hend, hnull⟩ := h.null hs
    refine ⟨fun hne => ?_, hnull⟩
    rwa [listEnd, if_pos (pool_nonempty.mp hne)] at hend
  · intro h s hs c hrun
    obtain ⟨hlast, hnull⟩ := h s hs
    have he := initMemory_low hs
    have hend : listEnd ram junk = 0 := by
      unfold listEnd
      split
      · rename_i hlt
        exact hlast (pool_nonempty.mpr hlt)
      · rfl
    have hinit : (Client.init s).Ended (kernelEnd ram junk) :=
      ⟨hend ▸ Client.endsAt_init hs, (initMemory_null hs).trans hnull⟩
    have hended : c.Ended (kernelEnd ram junk) := by
      induction hrun with
      | refl => exact hinit
      | tail _ hs ih => exact ih.call he hs
    exact hended.reports he

end Exhausted

/-- The kernel of `headerRam`, and a last page that is not blank. -/
def dirtyRam : Bytes := put32 headerRam lastPage 1

/-- The last page of memory that is not blank is returned as one more page of the pool. -/
theorem not_alwaysReports_dirtyRam : ¬ ∀ ram junk, AlwaysReports ram junk := by
  intro hall
  have hkernel : kernelEnd dirtyRam 0 = 0xc0140000 := by decide +kernel
  have halign : alignUp (kernelEnd dirtyRam 0) = 0xc0140000 := by
    rw [hkernel]
    decide
  obtain ⟨s, hs, -⟩ := initMemory_spec halign (by decide) (by decide)
  have hend := ((hall dirtyRam 0).null hs).1
  rw [listEnd, halign, if_pos (by decide), dirtyRam, get32_put32] at hend
  exact absurd hend (by decide)

end Nbos.Memory
