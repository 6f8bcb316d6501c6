import Nbos.Memory.Fork

/-!
# Giving the user half back

`free_process_user_mem` of `syscall.c` puts the tables of the user half of a directory and the pages
behind them on the free list. The entries of the directory stay as they are.
-/

namespace Nbos.Memory

open Nbos.Lib Nbos.Kernel

/-! ### The source -/

/-- The body of the inner loop of `free_process_user_mem`, for the entry `j` of a table. -/
def freeFrame (pageTable j : ℕ) (s : Mem) : Mem :=
  let item := tableItem s.ram (pageTable + 4 * j)
  if item.present = 1 then freePage (phy2Vir (item.address <<< 12)) s else s

/-- The body of the outer loop, for the entry `i` of the directory at `pagedir`. -/
def freeTable (pagedir i : ℕ) (s : Mem) : Mem :=
  let item := dirItem s.ram (pagedir + 4 * i)
  if item.present = 1 then
    let pageTable := phy2Vir (item.address <<< 12)
    freePage pageTable (forRange 1024 (freeFrame pageTable) s)
  else s

/-- `free_process_user_mem`, for the directory at `pagedir`. -/
def freeProcessUserMem (pagedir : ℕ) (s : Mem) : Mem := forRange 0x300 (freeTable pagedir) s

/-! ### What is given back -/

/-- What the entry `i` of the directory `dir` gives back, in this order. -/
def freedAt (m : Bytes) (dir i : ℕ) : List ℕ :=
  if Present (entry m dir i) then
    framesUpTo m (target (entry m dir i)) 1024 ++ [target (entry m dir i)]
  else []

/-- What the first `n` entries of a directory give back. -/
def freedUpTo (m : Bytes) (dir n : ℕ) : List ℕ := (List.range n).flatMap (freedAt m dir)

/-- Distinct pages that can be given back to the free list `L`: none of them is on it. -/
structure Returnable (F L : List ℕ) : Prop where
  page : ∀ p ∈ F, p < 2 ^ 32 ∧ p % 4096 = 0
  nodup : F.Nodup
  disjoint : F.Disjoint L
  links : ∀ p ∈ L, p % 4096 = 0

/-- The pages `F` have been given back, one after the other, to the free list `L`. -/
structure Released (L : List ℕ) (t : ℕ) (s : Mem) (F : List ℕ) (s' : Mem) : Prop where
  free : FreeList s' (F.reverse ++ L) t
  frame : ∀ x, Off F x → s'.ram x = s.ram x
  lt : s'.freeList < 2 ^ 32

section Release

variable {L F : List ℕ} {t p dir i j n x : ℕ} {s s' : Mem} {m : Bytes}

lemma freedUpTo_succ : freedUpTo m dir (n + 1) = freedUpTo m dir n ++ freedAt m dir n := by
  simp [freedUpTo, List.range_succ]

lemma freedAt_of_present (h : Present (entry m dir i)) :
    freedAt m dir i = framesUpTo m (target (entry m dir i)) 1024 ++ [target (entry m dir i)] :=
  if_pos h

lemma freedAt_of_not (h : ¬ Present (entry m dir i)) : freedAt m dir i = [] := if_neg h

lemma freedAt_perm : (freedAt m dir i).Perm (tableAt m dir i) := by
  by_cases h : Present (entry m dir i)
  · rw [freedAt_of_present h, tableAt_of_present h]
    generalize framesUpTo m (target (entry m dir i)) 1024 = K
    exact List.perm_append_singleton _ K
  · rw [freedAt_of_not h, tableAt_of_not h]

/-- What is given back is what the user half reaches. -/
lemma freedUpTo_perm : (freedUpTo m dir n).Perm (tablesUpTo m dir n) := by
  induction n with
  | zero => simp [freedUpTo, tablesUpTo]
  | succ n ih =>
    rw [freedUpTo_succ, tablesUpTo_succ]
    exact ih.append freedAt_perm

lemma freeFrame_of_present {T : ℕ} (h : Present (entry s.ram T j)) :
    freeFrame T j s = freePage (target (entry s.ram T j)) s := by
  refine (if_pos h).trans ?_
  rw [tableItem_target]

lemma freeFrame_of_not {T : ℕ} (h : ¬ Present (entry s.ram T j)) : freeFrame T j s = s := if_neg h

lemma freeTable_of_present (h : Present (entry s.ram dir i)) :
    freeTable dir i s = freePage (target (entry s.ram dir i))
      (forRange 1024 (freeFrame (target (entry s.ram dir i))) s) := by
  refine (if_pos h).trans ?_
  rw [dirItem_target]

lemma freeTable_of_not (h : ¬ Present (entry s.ram dir i)) : freeTable dir i s = s := if_neg h

lemma PageList.sublist {K : List ℕ} (h : PageList K) (hs : L.Sublist K) : PageList L :=
  ⟨fun p hp => h.page p (hs.subset hp), hs.nodup h.nodup⟩

lemma FreeList.lt (h : FreeList s L 0) (hL : PageList L) : s.freeList < 2 ^ 32 := by
  cases L with
  | nil =>
    rw [show s.freeList = 0 from h]
    omega
  | cons q L =>
    rw [show s.freeList = q from h.1]
    exact (hL.page q (List.mem_cons_self ..)).lt

lemma Released.refl (hfree : FreeList s L t) (hlt : s.freeList < 2 ^ 32) : Released L t s [] s :=
  ⟨hfree, fun _ _ => rfl, hlt⟩

lemma PageList.of_perm {K : List ℕ} (h : PageList L) (hp : L.Perm K) : PageList K :=
  ⟨fun p hpK => h.page p (hp.mem_iff.mpr hpK), hp.nodup_iff.mp h.nodup⟩

lemma Off.of_subset {K : List ℕ} (h : Off K x) (hF : ∀ p ∈ F, p ∈ K) : Off F x := fun p hp =>
  h p (hF p hp)

lemma Returnable.sublist {K : List ℕ} (h : Returnable K L) (hs : F.Sublist K) : Returnable F L :=
  ⟨fun p hp => h.page p (hs.subset hp), hs.nodup h.nodup,
    fun _ hp hL => h.disjoint (hs.subset hp) hL, h.links⟩

lemma PageList.returnable (h : PageList (F ++ L)) : Returnable F L := by
  obtain ⟨hF, hL, hdisj⟩ := h.append
  exact ⟨fun p hp => ⟨(hF.page p hp).lt, (hF.page p hp).mod⟩, hF.nodup, hdisj,
    fun p hp => (hL.page p hp).mod⟩

/-- One more page. -/
lemma Released.snoc (h : Released L t s F s') (hpages : Returnable (F ++ [p]) L) :
    Released L t s (F ++ [p]) (freePage p s') := by
  have hp : p ∈ F ++ [p] := by simp
  have hpF : p ∉ F := fun hm => (List.nodup_append'.mp hpages.nodup).2.2 hm (by simp)
  have hmod : ∀ q ∈ F.reverse ++ L, q % pageSize = 0 := by
    intro q hq
    rcases List.mem_append.mp hq with hq | hq
    · exact (hpages.page q (List.mem_append_left _ (List.mem_reverse.mp hq))).2
    · exact hpages.links q hq
  refine ⟨?_, fun x hx => ?_, (hpages.page p hp).1⟩
  · rw [List.reverse_append, List.reverse_singleton, List.singleton_append, List.cons_append]
    refine h.free.free h.lt (hpages.page p hp).2 hmod ?_
    rw [List.mem_append, List.mem_reverse, not_or]
    exact ⟨hpF, hpages.disjoint hp⟩
  · have hxp : x < p ∨ p + 4 ≤ x := by
      have := hx p hp
      unfold InPage at this
      simp only [pageSize] at this
      omega
    show put32 s'.ram p s'.freeList x = _
    rw [put32_of_not_mem hxp]
    exact h.frame x (hx.of_subset fun q hq => List.mem_append_left _ hq)

/-- A byte of a page that has not been given back is as it was. -/
lemma Released.byte_eq (h : Released L t s F s') (hF : Returnable F L) (hp : p % 4096 = 0)
    (hpF : p ∉ F) (hx : x < 4096) : s'.ram (p + x) = s.ram (p + x) :=
  h.frame _ (off_of_not_mem (fun q hq => (hF.page q hq).2) hp hx hpF)

/-- An entry of such a page is as it was. -/
lemma Released.entry_eq (h : Released L t s F s') (hF : Returnable F L) (hp : p % 4096 = 0)
    (hpF : p ∉ F) (hj : j < 1024) : entry s'.ram p j = entry s.ram p j :=
  entry_congr hj fun _ hk => h.byte_eq hF hp hpF hk

/-- The pages behind one table. -/
lemma Released.frames {T : ℕ} (h : Released L t s F s') (hT : T % 4096 = 0) (hn : n ≤ 1024)
    (hTF : T ∉ F ++ framesUpTo s.ram T n) (hpages : Returnable (F ++ framesUpTo s.ram T n) L) :
    Released L t s (F ++ framesUpTo s.ram T n) (forRange n (freeFrame T) s') := by
  induction n with
  | zero => simpa [framesUpTo] using h
  | succ n ih =>
    rw [framesUpTo_succ, ← List.append_assoc] at hTF hpages ⊢
    have hTF' : T ∉ F ++ framesUpTo s.ram T n := fun hm => hTF (List.mem_append_left _ hm)
    have hbefore := hpages.sublist (List.sublist_append_left _ _)
    have hs := ih (by omega) hTF' hbefore
    have hentry := hs.entry_eq hbefore hT hTF' (show n < 1024 by omega)
    rw [forRange_succ]
    by_cases hp : Present (entry s.ram T n)
    · rw [freeFrame_of_present (by rwa [hentry]), hentry]
      rw [frameAt_of_present hp] at hpages ⊢
      exact hs.snoc hpages
    · rw [freeFrame_of_not (by rwa [hentry]), frameAt_of_not hp, List.append_nil]
      exact hs

/-- The tables behind the first entries of a directory. -/
lemma released_tables (hfree : FreeList s L t) (hlt : s.freeList < 2 ^ 32) (hdir : dir % 4096 = 0)
    (hn : n ≤ 1024) (hdirF : dir ∉ freedUpTo s.ram dir n)
    (hpages : Returnable (freedUpTo s.ram dir n) L) :
    Released L t s (freedUpTo s.ram dir n) (forRange n (freeTable dir) s) := by
  induction n with
  | zero => exact .refl hfree hlt
  | succ n ih =>
    rw [freedUpTo_succ] at hdirF hpages ⊢
    have hdirF' : dir ∉ freedUpTo s.ram dir n := fun hm => hdirF (List.mem_append_left _ hm)
    have hbefore := hpages.sublist (List.sublist_append_left _ _)
    have hs := ih (by omega) hdirF' hbefore
    have hentry := hs.entry_eq hbefore hdir hdirF' (show n < 1024 by omega)
    rw [forRange_succ]
    by_cases hp : Present (entry s.ram dir n)
    · rw [freeTable_of_present (by rwa [hentry]), hentry]
      rw [freedAt_of_present hp, ← List.append_assoc] at hpages ⊢
      refine Released.snoc (hs.frames (target_mod _) le_rfl ?_ ?_) hpages
      · have := (List.nodup_append'.mp hpages.nodup).2.2
        exact fun hm => this hm (by simp)
      · exact hpages.sublist (List.sublist_append_left _ _)
    · rw [freeTable_of_not (by rwa [hentry]), freedAt_of_not hp, List.append_nil]
      exact hs

/-- The pages of a user half can be given back if they are distinct and not on the free list. -/
lemma returnable_freedUpTo (hnodup : (tablesUpTo m dir n).Nodup)
    (hdisj : (tablesUpTo m dir n).Disjoint L) (hL : ∀ p ∈ L, p % 4096 = 0) :
    Returnable (freedUpTo m dir n) L := by
  have hmem : ∀ p, p ∈ freedUpTo m dir n ↔ p ∈ tablesUpTo m dir n := fun _ => freedUpTo_perm.mem_iff
  refine ⟨fun p hp => ⟨?_, mod_of_mem_tablesUpTo ((hmem p).mp hp)⟩,
    freedUpTo_perm.nodup_iff.mpr hnodup, fun p hp => hdisj ((hmem p).mp hp), hL⟩
  obtain ⟨i, -, -, rfl | hf⟩ := mem_tablesUpTo.mp ((hmem p).mp hp)
  · exact target_lt _
  · obtain ⟨j, -, -, rfl⟩ := mem_framesUpTo.mp hf
    exact target_lt _

/-- **What `free_process_user_mem` does**: the tables and the pages of the user half are put on the
free list, and nothing is written but their links. The directory still points to them. -/
theorem freeProcessUserMem_spec (hfree : FreeList s L t) (hlt : s.freeList < 2 ^ 32)
    (hL : ∀ p ∈ L, p % 4096 = 0) (hdir : dir % 4096 = 0) (hnodup : (userPages s.ram dir).Nodup)
    (hdisj : (tablesUpTo s.ram dir 0x300).Disjoint L) :
    Released L t s (freedUpTo s.ram dir 0x300) (freeProcessUserMem dir s) := by
  obtain ⟨hself, hnodup⟩ := List.nodup_cons.mp hnodup
  exact released_tables hfree hlt hdir (by omega)
    (fun hm => hself (freedUpTo_perm.mem_iff.mp hm)) (returnable_freedUpTo hnodup hdisj hL)

/-- The last table is given back last, and is the first free page then. -/
lemma freeTables_head (hfree : FreeList s L t) (hlt : s.freeList < 2 ^ 32) (hdir : dir % 4096 = 0)
    (hn : n < 1024) (hdirF : dir ∉ freedUpTo s.ram dir (n + 1))
    (hpages : Returnable (freedUpTo s.ram dir (n + 1)) L) (hp : Present (entry s.ram dir n)) :
    (forRange (n + 1) (freeTable dir) s).freeList = target (entry s.ram dir n) := by
  rw [freedUpTo_succ] at hdirF hpages
  have hbefore := hpages.sublist (List.sublist_append_left _ _)
  have hnot : dir ∉ freedUpTo s.ram dir n := fun hm => hdirF (List.mem_append_left _ hm)
  have hentry := (released_tables hfree hlt hdir (by omega) hnot hbefore).entry_eq hbefore hdir hnot hn
  rw [forRange_succ, freeTable_of_present (by rwa [hentry]), hentry]
  rfl

/-- The stack has the last entry of the user half. -/
lemma freeProcessUserMem_head (hfree : FreeList s L 0) (hpages : PageList (userPages s.ram dir ++ L))
    (hp : Present (entry s.ram dir 0x2ff)) :
    (freeProcessUserMem dir s).freeList = target (entry s.ram dir 0x2ff) := by
  obtain ⟨hspace, hL, hdisj⟩ := hpages.append
  obtain ⟨hself, hnodup⟩ := List.nodup_cons.mp hspace.nodup
  have hlast : (0x300 : ℕ) = 0x2ff + 1 := rfl
  have hdirF : dir ∉ freedUpTo s.ram dir 0x300 := fun hm => hself (freedUpTo_perm.mem_iff.mp hm)
  have hall := returnable_freedUpTo hnodup (fun q hq => hdisj (List.mem_cons_of_mem _ hq))
    fun q hq => (hL.page q hq).mod
  unfold freeProcessUserMem
  rw [hlast] at hdirF hall ⊢
  exact freeTables_head hfree (hfree.lt hL) (hspace.page dir (List.mem_cons_self ..)).mod (by omega) hdirF
    hall hp

/-- The user half of the directory `D` has been given back, as the pages `F`; it still has its entries. -/
structure Emptied (L : List ℕ) (D : ℕ) (s : Mem) (F : List ℕ) (s' : Mem) : Prop where
  perm : F.Perm (tablesUpTo s.ram D 0x300)
  released : Released L 0 s F s'
  list : PageList (F.reverse ++ L)
  mod : D % 4096 = 0
  self : D ∉ F.reverse ++ L
  entry : ∀ i < 1024, entry s'.ram D i = entry s.ram D i

/-- **A user half of pages that are its own** is given back. -/
theorem emptied (hfree : FreeList s L 0) (hpages : PageList (userPages s.ram dir ++ L)) :
    ∃ F, Emptied L dir s F (freeProcessUserMem dir s) := by
  obtain ⟨hspace, hL, hdisj⟩ := hpages.append
  have hself : dir ∉ tablesUpTo s.ram dir 0x300 ++ L := (List.nodup_cons.mp hpages.nodup).1
  have hdir : dir % 4096 = 0 := (hspace.page dir (List.mem_cons_self ..)).mod
  have htables : PageList (tablesUpTo s.ram dir 0x300 ++ L) := hpages.sublist (List.sublist_cons_self ..)
  have hperm := @freedUpTo_perm dir 0x300 s.ram
  have hrel := freeProcessUserMem_spec hfree (hfree.lt hL) (fun q hq => (hL.page q hq).mod) hdir hspace.nodup
    fun q hq => hdisj (List.mem_cons_of_mem _ hq)
  have hself' : dir ∉ (freedUpTo s.ram dir 0x300).reverse ++ L := fun hm => by
    refine hself ((List.mem_append.mp hm).elim (fun hm => ?_) fun hm => List.mem_append_right _ hm)
    exact List.mem_append_left _ (hperm.mem_iff.mp (List.mem_reverse.mp hm))
  refine ⟨_, hperm, hrel, htables.of_perm ((hperm.symm.trans (List.reverse_perm _).symm).append_right L),
    hdir, hself', fun i hi => ?_⟩
  refine hrel.entry_eq (htables.of_perm (hperm.symm.append_right L)).returnable hdir (fun hm => ?_) hi
  exact hself' (List.mem_append_left _ (List.mem_reverse.mpr hm))

/-- With nothing mapped, nothing is done. -/
lemma freeProcessUserMem_of_none (h : ∀ i < 0x300, ¬ Present (entry s.ram dir i)) :
    freeProcessUserMem dir s = s := by
  refine forRange_inv (fun _ s' => s' = s) rfl ?_
  rintro i hi s' rfl
  exact freeTable_of_not (h i hi)

/-- A user half of one page is a table without entries. -/
lemma tablesUpTo_eq_single {T : ℕ} (h : tablesUpTo m dir n = [T]) : framesUpTo m T 1024 = [] ∧
    ∃ i < n, Present (entry m dir i) ∧ target (entry m dir i) = T ∧
      ∀ j < n, j ≠ i → ¬ Present (entry m dir j) := by
  induction n with
  | zero => cases h
  | succ n ih =>
    rw [tablesUpTo_succ] at h
    rcases List.append_eq_singleton_iff.mp h with ⟨hbefore, hn⟩ | ⟨hbefore, hn⟩
    · have hp : Present (entry m dir n) := by
        by_contra hp
        rw [tableAt_of_not hp] at hn
        cases hn
      rw [tableAt_of_present hp] at hn
      obtain ⟨rfl, hframes⟩ := List.cons_eq_cons.mp hn
      exact ⟨hframes, n, by omega, hp, rfl, fun j hj hjn => tablesUpTo_eq_nil.mp hbefore j (by omega)⟩
    · obtain ⟨hframes, i, hi, hp, hT, hothers⟩ := ih hbefore
      refine ⟨hframes, i, by omega, hp, hT, fun j hj hji hpj => ?_⟩
      rcases Nat.lt_succ_iff_lt_or_eq.mp hj with hj | rfl
      · exact hothers j hj hji hpj
      · rw [tableAt_of_present hpj] at hn
        cases hn

/-- Such a user half is given back as one page. -/
lemma freeProcessUserMem_of_single {T : ℕ} (hdir : dir % 4096 = 0) (hT : T ≠ dir)
    (h : tablesUpTo s.ram dir 0x300 = [T]) : freeProcessUserMem dir s = freePage T s := by
  have hTm : T % 4096 = 0 := mod_of_mem_tablesUpTo (h ▸ List.mem_singleton_self T)
  obtain ⟨hframes, i, hi, hp, rfl, hothers⟩ := tablesUpTo_eq_single h
  set T := target (entry s.ram dir i) with hTi
  have hempty : forRange 1024 (freeFrame T) s = s := by
    refine forRange_inv (fun _ s' => s' = s) rfl ?_
    rintro j hj s' rfl
    refine freeFrame_of_not fun hpj => ?_
    have hm : target (entry s'.ram T j) ∈ framesUpTo s'.ram T 1024 :=
      mem_framesUpTo.mpr ⟨j, hj, hpj, rfl⟩
    rw [hframes] at hm
    exact List.not_mem_nil hm
  -- the turn for this table is the only one that does something
  have hloop : forRange 0x300 (freeTable dir) s = if i < 0x300 then freePage T s else s := by
    refine forRange_inv (fun n s' => s' = if i < n then freePage T s else s) rfl ?_
    rintro j hj s' rfl
    by_cases hji : j = i
    · obtain rfl := hji
      rw [if_neg (lt_irrefl j), if_pos (Nat.lt_succ_self j), freeTable_of_present hp, ← hTi, hempty]
    · have hiff : (if i < j + 1 then freePage T s else s) = if i < j then freePage T s else s := by
        simp only [Nat.lt_succ_iff_lt_or_eq, Ne.symm hji, or_false]
      rw [hiff]
      refine freeTable_of_not fun hpj => hothers j hj hji ?_
      split at hpj
      · have hentry : entry (freePage T s).ram dir j = entry s.ram dir j :=
          get32_put32_of_disjoint (by omega)
        rwa [hentry] at hpj
      · exact hpj
  rwa [if_pos hi] at hloop

end Release

end Nbos.Memory
