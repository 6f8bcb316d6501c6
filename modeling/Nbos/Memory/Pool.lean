import Nbos.Memory.Alloc

/-!
# The pool and its callers

`initMemory_spec` says what `init_memory` leaves: the pool strung together in the order of its
addresses, with whatever the last page holds behind it. It returns for no kernel that ends below
`0xc0000000` (`initMemory_low`). `Client` is the allocator under callers
that allocate, give back and write to their pages in any order; `Client.Inv` separates the pages
of the callers from the free list.
-/

namespace Nbos.Memory

open Nbos.Lib Nbos.Kernel

/-! ### What `init_memory` leaves -/

/-- The pages from `a` up to the end of physical memory, in order. -/
def poolFrom (a : ℕ) : List ℕ :=
  if a < phy2Vir phySize then a :: poolFrom (a + pageSize) else []
termination_by phy2Vir phySize - a
decreasing_by rw [phyLimit_eq] at *; simp only [pageSize]; omega

/-- The pool of a kernel that ends at `e`. -/
def pool (e : ℕ) : Finset ℕ :=
  (Finset.range (phy2Vir phySize)).filter fun p => alignUp e ≤ p ∧ p % pageSize = 0

/-- The last page of physical memory, whose link `init_memory` does not write. -/
abbrev lastPage : ℕ := 0xc1fff000

section Pool

variable {a e p : ℕ}

lemma poolFrom_of_lt (h : a < phy2Vir phySize) : poolFrom a = a :: poolFrom (a + pageSize) := by
  rw [poolFrom, if_pos h]

lemma poolFrom_of_ge (h : phy2Vir phySize ≤ a) : poolFrom a = [] := by
  rw [poolFrom, if_neg (by omega)]

lemma mem_poolFrom (ha : a % pageSize = 0) :
    p ∈ poolFrom a ↔ a ≤ p ∧ p < phy2Vir phySize ∧ p % pageSize = 0 := by
  rw [phyLimit_eq]
  simp only [pageSize] at ha ⊢
  induction hn : 0xc2000000 - a using Nat.strong_induction_on generalizing a with
  | _ n ih =>
    by_cases h : a < phy2Vir phySize
    · rw [poolFrom_of_lt h, List.mem_cons]
      rw [phyLimit_eq] at h
      rw [pageSize, ih _ (by omega) (by omega) rfl]
      omega
    · rw [poolFrom_of_ge (by omega)]
      rw [phyLimit_eq] at h
      simp only [List.not_mem_nil, false_iff]
      omega

lemma nodup_poolFrom (ha : a % pageSize = 0) : (poolFrom a).Nodup := by
  induction hn : 0xc2000000 - a using Nat.strong_induction_on generalizing a with
  | _ n ih =>
    by_cases h : a < phy2Vir phySize
    · rw [poolFrom_of_lt h]
      rw [phyLimit_eq] at h
      have ha' : (a + pageSize) % pageSize = 0 := by rw [Nat.add_mod_right, ha]
      refine List.nodup_cons.mpr ⟨fun hm => ?_, ih _ (by simp only [pageSize]; omega) ha' rfl⟩
      rw [mem_poolFrom ha'] at hm
      simp only [pageSize] at hm
      omega
    · rw [poolFrom_of_ge (by omega)]
      exact List.nodup_nil

lemma mem_pool : p ∈ pool e ↔ alignUp e ≤ p ∧ p < phy2Vir phySize ∧ p % pageSize = 0 := by
  rw [pool, Finset.mem_filter, Finset.mem_range]
  tauto

lemma mem_poolFrom_alignUp : p ∈ poolFrom (alignUp e) ↔ p ∈ pool e := by
  rw [mem_pool, mem_poolFrom (alignUp_mod e)]

lemma pool_mod (h : p ∈ pool e) : p % pageSize = 0 := (mem_pool.mp h).2.2

end Pool

/-- The loop of `init_memory` once it has a previous page in the kernel half: it strings the pages from
there on together, keeps the link of the last page and writes nowhere below. -/
lemma initLoop_chain {p : ℕ} {s : Mem} (hp : p < phy2Vir phySize) (hlow : kernelVirBase ≤ p)
    (hpm : p % pageSize = 0) : ∃ s', initLoop (p + pageSize) p s = some s' ∧
      Chain (get32 s'.ram) p (poolFrom p) (get32 s.ram lastPage) ∧ s'.freeList = s.freeList ∧
        ∀ x, x < p → s'.ram x = s.ram x := by
  induction hn : 0xc2000000 - p using Nat.strong_induction_on generalizing p s with
  | _ n ih =>
    rw [poolFrom_of_lt hp]
    have hp' := hp
    rw [phyLimit_eq] at hp'
    have hp0 : p ≠ 0 := by
      simp only [kernelVirBase] at hlow
      omega
    by_cases h : p + pageSize < phy2Vir phySize
    · have h' := h
      rw [phyLimit_eq] at h'
      rw [initLoop, if_pos h, if_neg hp0, if_neg (by omega)]
      simp only [pageSize] at h' hpm
      obtain ⟨s', hs', h1, h2, h3⟩ := ih _ (by simp only [pageSize]; omega) (p := p + pageSize)
        (s := { s with ram := put32 s.ram p (p + pageSize) }) h (by omega)
        (by rw [Nat.add_mod_right]; exact hpm) rfl
      have hlast : get32 (put32 s.ram p (p + pageSize)) lastPage = get32 s.ram lastPage :=
        get32_put32_of_disjoint (by simp only [lastPage]; omega)
      have hlink : get32 s'.ram p = p + pageSize := by
        rw [get32_congr (b := p)
          fun k hk => h3 _ (by simp only [pageSize]; omega), get32_put32,
          Nat.mod_eq_of_lt (by simp only [pageSize]; omega)]
      refine ⟨s', hs', chain_cons.mpr ⟨rfl, ?_⟩, h2, fun x hx => ?_⟩
      · rw [hlink, ← hlast]
        exact h1
      · rw [h3 x (by omega)]
        exact put32_of_not_mem (by omega)
    · rw [initLoop, if_neg h, poolFrom_of_ge (by omega)]
      rw [phyLimit_eq] at h
      simp only [pageSize] at h hpm
      have hlast : p = lastPage := by simp only [lastPage]; omega
      exact ⟨s, rfl, chain_cons.mpr ⟨rfl, congrArg (get32 s.ram) hlast⟩, rfl, fun _ _ => rfl⟩

/-- Below the kernel half it faults. -/
lemma initLoop_low {p : ℕ} {s : Mem} (hp0 : p ≠ 0) (hlow : p < kernelVirBase) :
    initLoop (p + pageSize) p s = none := by
  simp only [kernelVirBase] at hlow
  rw [initLoop, if_pos (by rw [phyLimit_eq]; simp only [pageSize]; omega), if_neg hp0, if_pos hlow]

/-- **What `init_memory` leaves**, for a kernel that ends in the kernel half and below the end of memory:
the free list visits the pool in order and then stands at what the last page holds. -/
theorem initMemory_spec {ram : Bytes} {junk a : ℕ} (ha : alignUp (kernelEnd ram junk) = a)
    (hlow : kernelVirBase ≤ a) (h : a < phy2Vir phySize) :
    ∃ s, initMemory junk ⟨ram, 0⟩ = some s ∧ s.freeList = a ∧
      FreeList s (poolFrom a) (get32 ram lastPage) ∧ ∀ x, x < a → s.ram x = ram x := by
  have ham : a % pageSize = 0 := ha ▸ alignUp_mod _
  rw [initMemory, ha, initLoop, if_pos h, if_pos rfl]
  obtain ⟨s, hs, h1, h2, h3⟩ := initLoop_chain (s := ⟨ram, a⟩) h hlow ham
  refine ⟨s, hs, h2, ?_, h3⟩
  rw [FreeList, h2]
  exact h1

lemma initMemory_of_ge {s : Mem} {junk : ℕ} (h : phy2Vir phySize ≤ alignUp (kernelEnd s.ram junk)) :
    initMemory junk s = some s := by
  rw [initMemory, initLoop, if_neg (by omega)]

/-- It does not return for a kernel that ends anywhere else. -/
lemma initMemory_low {ram : Bytes} {s : Mem} {junk : ℕ} (h : initMemory junk ⟨ram, 0⟩ = some s) :
    kernelVirBase ≤ alignUp (kernelEnd ram junk) := by
  by_contra hlow
  rw [not_le] at hlow
  have hlow' := hlow
  simp only [kernelVirBase] at hlow'
  have hloop : initLoop (alignUp (kernelEnd ram junk)) 0 ⟨ram, 0⟩ = some s := h
  rw [initLoop, if_pos (by rw [phyLimit_eq]; omega), if_pos rfl] at hloop
  by_cases h0 : alignUp (kernelEnd ram junk) = 0
  · -- the page at `NULL` is taken for no page, and the next one for the first
    rw [h0, initLoop, if_pos (by decide), if_pos rfl, initLoop_low (by decide) (by decide)] at hloop
    cases hloop
  · rw [initLoop_low h0 hlow] at hloop
    cases hloop

/-! ### The allocator under its callers -/

/-- The allocator and the pages its callers hold. -/
structure Client where
  mem : Mem
  out : List ℕ

/-- One call of `alloc_page` or `free_page`, or one store of a caller into a page it holds. -/
inductive Client.Step (e : ℕ) : Client → Client → Prop
  | alloc (c : Client) : c.out.length < (pool e).card →
      Client.Step e c ⟨(allocPage c.mem).2, (allocPage c.mem).1 :: c.out⟩
  | free (c : Client) (p : ℕ) : p ∈ c.out → Client.Step e c ⟨freePage p c.mem, c.out.erase p⟩
  | write (c : Client) (p a : ℕ) (b : UInt8) : p ∈ c.out → InPage p a →
      Client.Step e c ⟨{ c.mem with ram := Function.update c.mem.ram a b }, c.out⟩

/-- The separation of the held pages from the free list. -/
structure Client.Inv (e : ℕ) (c : Client) : Prop where
  sub : ∀ p ∈ c.out, p ∈ pool e
  nodup : c.out.Nodup
  lt : c.mem.freeList < 2 ^ 32
  free : ∃ L t, FreeList c.mem L t ∧ L.Nodup ∧ ∀ p, p ∈ L ↔ p ∈ pool e ∧ p ∉ c.out

/-- Nothing is held before the first call. -/
def Client.init (s : Mem) : Client := ⟨s, []⟩

/-- The same, for a free list that ends at `t`. -/
structure Client.EndsAt (e t : ℕ) (c : Client) : Prop where
  sub : ∀ p ∈ c.out, p ∈ pool e
  nodup : c.out.Nodup
  lt : c.mem.freeList < 2 ^ 32
  free : ∃ L, FreeList c.mem L t ∧ L.Nodup ∧ ∀ p, p ∈ L ↔ p ∈ pool e ∧ p ∉ c.out

/-- Where the free list ends after `init_memory`. -/
def listEnd (ram : Bytes) (junk : ℕ) : ℕ :=
  if alignUp (kernelEnd ram junk) < phy2Vir phySize then get32 ram lastPage else 0

section Client

variable {e p t : ℕ} {c c' : Client} {ram : Bytes} {junk : ℕ} {L : List ℕ} {s : Mem}

lemma Client.inv_iff : c.Inv e ↔ ∃ t, c.EndsAt e t := by
  constructor
  · rintro ⟨hsub, hnd, hlt, L, t, hL⟩
    exact ⟨t, hsub, hnd, hlt, L, hL⟩
  · rintro ⟨t, hsub, hnd, hlt, L, hL⟩
    exact ⟨hsub, hnd, hlt, L, t, hL⟩

theorem Client.endsAt_init (hs : initMemory junk ⟨ram, 0⟩ = some s) :
    (Client.init s).EndsAt (kernelEnd ram junk) (listEnd ram junk) := by
  have hlow := initMemory_low hs
  obtain ⟨hlt, hL⟩ : s.freeList < 2 ^ 32 ∧
      FreeList s (poolFrom (alignUp (kernelEnd ram junk))) (listEnd ram junk) := by
    unfold listEnd
    by_cases hlt : alignUp (kernelEnd ram junk) < phy2Vir phySize
    · obtain ⟨s', hs', h1, h2, -⟩ := initMemory_spec rfl hlow hlt
      obtain rfl := Option.some_inj.mp (hs.symm.trans hs')
      rw [if_pos hlt]
      rw [phyLimit_eq] at hlt
      exact ⟨by omega, h2⟩
    · have hge : phy2Vir phySize ≤ alignUp (kernelEnd ram junk) := by omega
      obtain rfl := Option.some_inj.mp (hs.symm.trans (@initMemory_of_ge ⟨ram, 0⟩ junk hge))
      rw [if_neg hlt, poolFrom_of_ge hge]
      exact ⟨Nat.two_pow_pos 32, rfl⟩
  refine ⟨by simp [Client.init], List.nodup_nil, hlt,
    ⟨_, hL, nodup_poolFrom (alignUp_mod _), fun p => ?_⟩⟩
  simp [mem_poolFrom_alignUp, Client.init]

/-- What is free when the head of the list has been taken. -/
lemma mem_tail_iff {out : List ℕ} (hnd : (p :: L).Nodup)
    (hmem : ∀ q, q ∈ p :: L ↔ q ∈ pool e ∧ q ∉ out) (q : ℕ) :
    q ∈ L ↔ q ∈ pool e ∧ q ∉ p :: out := by
  obtain ⟨hpL, -⟩ := List.nodup_cons.mp hnd
  have := hmem q
  simp only [List.mem_cons] at this ⊢
  constructor
  · intro hm
    obtain ⟨h1, h2⟩ := this.mp (Or.inr hm)
    exact ⟨h1, fun hc => hc.elim (fun e => hpL (e ▸ hm)) h2⟩
  · rintro ⟨h1, h2⟩
    rw [not_or] at h2
    exact (this.mpr ⟨h1, h2.2⟩).resolve_left h2.1

/-- The head of the list is allocated. -/
lemma Client.EndsAt.alloc (h : c.EndsAt e t) (hL : FreeList c.mem (p :: L) t) (hnd : (p :: L).Nodup)
    (hmem : ∀ q, q ∈ p :: L ↔ q ∈ pool e ∧ q ∉ c.out) :
    (allocPage c.mem).1 = p ∧ (p ∈ pool e ∧ p ∉ c.out) ∧
      Client.EndsAt e t ⟨(allocPage c.mem).2, p :: c.out⟩ := by
  obtain ⟨hfirst, -, hL'⟩ := hL.alloc
  obtain ⟨hp, hpo⟩ := (hmem p).mp (List.mem_cons_self ..)
  exact ⟨hfirst, ⟨hp, hpo⟩, List.forall_mem_cons.mpr ⟨hp, h.sub⟩,
    List.nodup_cons.mpr ⟨hpo, h.nodup⟩, get32_lt _ _, L, hL', hnd.of_cons, mem_tail_iff hnd hmem⟩

lemma Client.EndsAt.free_page (h : c.EndsAt e t) (hp : p ∈ c.out) :
    Client.EndsAt e t ⟨freePage p c.mem, c.out.erase p⟩ := by
  obtain ⟨L, hL, hnd, hmem⟩ := h.free
  have hpL : p ∉ L := fun hm => ((hmem p).mp hm).2 hp
  have hmod : ∀ q ∈ L, q % pageSize = 0 := fun q hq => pool_mod ((hmem q).mp hq).1
  have hpp := h.sub p hp
  refine ⟨fun q hq => h.sub q (List.mem_of_mem_erase hq), h.nodup.erase p, ?_,
    p :: L, hL.free h.lt (pool_mod hpp) hmod hpL, List.nodup_cons.mpr ⟨hpL, hnd⟩, fun q => ?_⟩
  · have := (mem_pool.mp hpp).2.1
    rw [phyLimit_eq] at this
    show p < 2 ^ 32
    omega
  · rw [List.mem_cons, hmem, h.nodup.mem_erase_iff]
    by_cases hqp : q = p
    · subst hqp
      simp [hpp]
    · simp [hqp]

lemma Client.EndsAt.write {a : ℕ} {b : UInt8} (h : c.EndsAt e t) (hp : p ∈ c.out) (ha : InPage p a) :
    Client.EndsAt e t ⟨{ c.mem with ram := Function.update c.mem.ram a b }, c.out⟩ := by
  obtain ⟨L, hL, hnd, hmem⟩ := h.free
  refine ⟨h.sub, h.nodup, h.lt, L, hL.congr rfl fun q hq => ?_, hnd, hmem⟩
  obtain ⟨hqp, hqo⟩ := (hmem q).mp hq
  have hqm := pool_mod hqp
  have hpm := pool_mod (h.sub p hp)
  -- the first word of a free page is not in the page written
  refine get32_congr fun k hk => Function.update_of_ne (fun hax => hqo ?_) _ _
  rwa [eq_of_inPage hqm hpm (x := q + k) ⟨by omega, by simp only [pageSize]; omega⟩ (hax ▸ ha)]

/-- While a pool page is left, the free list is not empty. -/
lemma Client.EndsAt.exists_cons (h : c.EndsAt e t) (hlt : c.out.length < (pool e).card) :
    ∃ p L, FreeList c.mem (p :: L) t ∧ (p :: L).Nodup ∧ ∀ q, q ∈ p :: L ↔ q ∈ pool e ∧ q ∉ c.out := by
  obtain ⟨L, hL, hnd, hmem⟩ := h.free
  have hcard : c.out.toFinset.card < (pool e).card := by
    rwa [List.toFinset_card_of_nodup h.nodup]
  obtain ⟨p, hp, hpo⟩ := Finset.exists_mem_notMem_of_card_lt_card hcard
  have hpL : p ∈ L := (hmem p).mpr ⟨hp, fun hm => hpo (List.mem_toFinset.mpr hm)⟩
  cases L with
  | nil => simp at hpL
  | cons q L => exact ⟨q, L, hL, hnd, hmem⟩

theorem Client.EndsAt.step (h : c.EndsAt e t) (hs : Client.Step e c c') : c'.EndsAt e t := by
  cases hs with
  | alloc hlt =>
    obtain ⟨p, L, hL, hnd, hmem⟩ := h.exists_cons hlt
    obtain ⟨hfirst, -, h'⟩ := h.alloc hL hnd hmem
    rwa [hfirst]
  | free p hp => exact h.free_page hp
  | write p a b hp ha => exact h.write hp ha

/-- **The allocator is exclusive.** Whatever RAM held at boot and whatever the callers do, as long
as they never hold more than the pool: a page handed out is a pool page nobody holds, and the free
list visits every pool page nobody holds exactly once before anything else. -/
theorem allocPage_exclusive {ram : Bytes} {junk : ℕ} (hs : initMemory junk ⟨ram, 0⟩ = some s)
    (h : Relation.ReflTransGen (Client.Step (kernelEnd ram junk)) (Client.init s) c) :
    (c.out.length < (pool (kernelEnd ram junk)).card →
      (allocPage c.mem).1 ∈ pool (kernelEnd ram junk) ∧ (allocPage c.mem).1 ∉ c.out) ∧
    ∃ L t, FreeList c.mem L t ∧ L.Nodup ∧
      ∀ p, p ∈ L ↔ p ∈ pool (kernelEnd ram junk) ∧ p ∉ c.out := by
  have hends : c.EndsAt (kernelEnd ram junk) (listEnd ram junk) := by
    induction h with
    | refl => exact Client.endsAt_init hs
    | tail _ hstep ih => exact ih.step hstep
  refine ⟨fun hlt => ?_, (Client.inv_iff.mpr ⟨_, hends⟩).free⟩
  obtain ⟨p, L, hL, hnd, hmem⟩ := hends.exists_cons hlt
  obtain ⟨hfirst, hp, -⟩ := hends.alloc hL hnd hmem
  rwa [hfirst]

end Client

/-- A RAM in which the loader left the header of a kernel of one segment, from `0xc0010000` up to
`0xc0140000`. -/
def headerRam : Bytes :=
  let h := kernelElfHeader
  put32 (put32 (put32 (put32 (put32 (fun _ => 0) (h + 28) 52) (h + 44) 1) (h + 52) 1)
    (h + 60) 0xc0010000) (h + 72) 0x130000

lemma kernelEnd_headerRam : kernelEnd headerRam 0 = 0xc0140000 := by decide +kernel

lemma headerRam_returns : ∃ s, initMemory 0 ⟨headerRam, 0⟩ = some s := by
  have halign : alignUp (kernelEnd headerRam 0) = 0xc0140000 := by
    rw [kernelEnd_headerRam]
    decide
  obtain ⟨s, hs, -⟩ := initMemory_spec halign (by decide) (by decide)
  exact ⟨s, hs⟩

lemma Client.exists_alloc {e : ℕ} {c : Client} (h : c.out.length < (pool e).card) :
    ∃ c' p, Client.Step e c c' ∧ c'.out = p :: c.out := ⟨_, _, .alloc c h, rfl⟩

/-- Two pages are allocated, and the holder of the first one writes into it and gives it back: then the
next page is not that of the other. -/
theorem allocPage_exclusive_headerRam : ∃ s c, initMemory 0 ⟨headerRam, 0⟩ = some s ∧
    Relation.ReflTransGen (Client.Step (kernelEnd headerRam 0)) (Client.init s) c ∧ c.out.length = 1 ∧
      (allocPage c.mem).1 ∈ pool (kernelEnd headerRam 0) ∧ (allocPage c.mem).1 ∉ c.out := by
  obtain ⟨s, hs⟩ := headerRam_returns
  have hcard : 2 < (pool (kernelEnd headerRam 0)).card := by
    rw [kernelEnd_headerRam]
    refine Finset.two_lt_card.mpr ⟨0xc0140000, ?_, 0xc0141000, ?_, 0xc0142000, ?_, by decide, by decide,
      by decide⟩ <;> exact mem_pool.mpr (by decide)
  have hinit : (Client.init s).out.length < (pool (kernelEnd headerRam 0)).card := by
    show 0 < _
    omega
  obtain ⟨c₁, p, h₁, hout₁⟩ := Client.exists_alloc hinit
  have hlen₁ : c₁.out.length = 1 := by
    rw [hout₁]
    rfl
  have hlt₁ : c₁.out.length < (pool (kernelEnd headerRam 0)).card := by omega
  obtain ⟨c₂, q, h₂, hout₂⟩ := Client.exists_alloc hlt₁
  have hp : p ∈ c₂.out := by
    rw [hout₂, hout₁]
    exact List.mem_cons_of_mem _ (List.mem_cons_self ..)
  have hrun := (((Relation.ReflTransGen.single h₁).tail h₂).tail
    (.write c₂ p p 7 hp ⟨le_rfl, by simp only [pageSize]; omega⟩)).tail (.free _ p hp)
  have hlen : (c₂.out.erase p).length = 1 := by
    rw [List.length_erase_of_mem hp, hout₂, List.length_cons, hlen₁]
  exact ⟨s, _, hs, hrun, hlen, (allocPage_exclusive hs hrun).1 (by show (c₂.out.erase p).length < _; omega)⟩

end Nbos.Memory
