import Nbos.Memory.Release

/-!
# Address spaces side by side

A directory and its tables are *apart* from a set of pages when none of them is in it. Writes to
these pages alone keep what such a directory reaches (`Apart.userPages_eq`). `pageMap_of_present` and
`pageMap_of_not` say what `page_map` writes.
-/

namespace Nbos.Memory

open Nbos.Lib Nbos.Kernel

/-! ### Apart -/

/-- The directory and the tables of its user half are not in `W`. -/
structure Apart (W : List ℕ) (m : Bytes) (dir : ℕ) : Prop where
  mod : dir % 4096 = 0
  self : dir ∉ W
  tables : ∀ i < 0x300, Present (entry m dir i) → target (entry m dir i) ∉ W

section Apart

variable {W W' L : List ℕ} {m m' : Bytes} {dir i j t : ℕ} {s : Mem}

lemma Apart.of_subset (h : Apart W m dir) (hW : ∀ p ∈ W', p ∈ W) : Apart W' m dir :=
  ⟨h.mod, fun hm => h.self (hW _ hm), fun i hi hp hm => h.tables i hi hp (hW _ hm)⟩

lemma Apart.append (h : Apart W m dir) (h' : Apart W' m dir) : Apart (W ++ W') m dir := by
  refine ⟨h.mod, fun hm => ?_, fun i hi hp hm => ?_⟩
  · exact (List.mem_append.mp hm).elim h.self h'.self
  · exact (List.mem_append.mp hm).elim (h.tables i hi hp) (h'.tables i hi hp)

/-- A directory all of whose pages are elsewhere is apart. -/
lemma apart_of_disjoint (hmod : dir % 4096 = 0) (h : (userPages m dir).Disjoint W) :
    Apart W m dir :=
  ⟨hmod, fun hm => h (List.mem_cons_self ..) hm, fun _ hi hp hm => h (table_mem_userPages hi hp) hm⟩

/-! Memory changes from `m` to `m'` in the pages `W` alone. -/

variable (hW : ∀ p ∈ W, p % 4096 = 0) (hframe : ∀ x, Off W x → m' x = m x)

include hW hframe

lemma Apart.entry_dir (h : Apart W m dir) (hi : i < 1024) : entry m' dir i = entry m dir i :=
  entry_congr hi fun _ hk => hframe _ (off_of_not_mem hW h.mod hk h.self)

lemma Apart.entry_table (h : Apart W m dir) (hi : i < 0x300) (hp : Present (entry m dir i))
    (hj : j < 1024) :
    entry m' (target (entry m dir i)) j = entry m (target (entry m dir i)) j :=
  entry_congr hj fun _ hk => hframe _ (off_of_not_mem hW (target_mod _) hk (h.tables i hi hp))

/-- What the directory reaches is kept. -/
lemma Apart.userPages_eq (h : Apart W m dir) : userPages m' dir = userPages m dir :=
  congrArg (dir :: ·) (tablesUpTo_congr (fun i hi => h.entry_dir hW hframe (by omega))
    fun i hi hp j hj => h.entry_table hW hframe hi hp hj)

/-- What the directory is apart from is kept. -/
lemma Apart.keep (h : Apart W m dir) (h' : Apart W' m dir) : Apart W' m' dir := by
  refine ⟨h'.mod, h'.self, fun i hi hp => ?_⟩
  rw [h.entry_dir hW hframe (by omega)] at hp ⊢
  exact h'.tables i hi hp

end Apart

/-- Pages that are all as they were reach what they reached. -/
lemma userPages_congr {m m' : Bytes} {dir : ℕ}
    (h : ∀ p ∈ userPages m dir, ∀ o < pageSize, m' (p + o) = m (p + o)) :
    userPages m' dir = userPages m dir := by
  have hentry : ∀ p ∈ userPages m dir, ∀ j < 1024, entry m' p j = entry m p j :=
    fun p hp j hj => entry_congr hj (h p hp)
  refine congrArg (dir :: ·) (tablesUpTo_congr (fun i hi => ?_) fun i hi hp j hj => ?_)
  · exact hentry dir (List.mem_cons_self ..) i (by omega)
  · exact hentry _ (table_mem_userPages hi hp) j hj

/-! ### The user half -/

/-- Nothing has been written but the pages `W` and the user half of the directory `D`. -/
def UserOnly (W : List ℕ) (D : ℕ) (m m' : Bytes) : Prop :=
  ∀ x, Off W x → x < D ∨ D + 0xc00 ≤ x → m' x = m x

section UserHalf

variable {W W' : List ℕ} {D q va i : ℕ} {m m' m'' : Bytes}

lemma UserOnly.trans (h : UserOnly W D m m') (h' : UserOnly W D m' m'') : UserOnly W D m m'' :=
  fun x hx hD => (h' x hx hD).trans (h x hx hD)

lemma UserOnly.mono (h : UserOnly W D m m') (hW : ∀ p ∈ W, p ∈ W') : UserOnly W' D m m' :=
  fun x hx => h x (hx.of_subset hW)

variable (hW : ∀ p ∈ W, p % 4096 = 0) (hD : D % 4096 = 0)

include hW hD

/-- The kernel half of every directory off `W` is kept. -/
lemma UserOnly.entry_kernel (h : UserOnly W D m m') (hq : q % 4096 = 0) (hqW : q ∉ W) (hi : 0x300 ≤ i)
    (hi' : i < 1024) : entry m' q i = entry m q i := by
  refine get32_congr fun k hk => h _ ?_ (by omega)
  rw [Nat.add_assoc]
  exact off_of_not_mem hW hq (by omega) hqW

/-- So is the table of another process or of the kernel. -/
lemma UserOnly.entry_table (h : UserOnly W D m m') (hq : q % 4096 = 0) (hqW : q ∉ D :: W)
    (hi : i < 1024) : entry m' q i = entry m q i := by
  obtain ⟨hqD, hqW⟩ := List.ne_and_not_mem_of_not_mem_cons hqW
  exact entry_congr hi fun _ hk => h _ (off_of_not_mem hW hq hk hqW) (by omega)

/-- **The kernel half is translated as before**, if its table is neither written nor the directory. -/
theorem UserOnly.walk_kernel (h : UserOnly W D m m') (hq : q % 4096 = 0) (hqW : q ∉ W)
    (hva : 0x300 ≤ va / 2 ^ 22) (hva' : va < 2 ^ 32)
    (ht : Present (entry m q (va / 2 ^ 22)) → target (entry m q (va / 2 ^ 22)) ∉ D :: W) :
    walk m' q va = walk m q va := by
  have hidx : va / 2 ^ 22 < 1024 := by omega
  refine walk_congr (h.entry_kernel hW hD hq hqW hva hidx) fun hp => ?_
  exact h.entry_table hW hD (target_mod _) (ht hp) (Nat.mod_lt _ (by decide))

end UserHalf

/-! ### `page_map` -/

section PageMap

variable {dir va phy privilege : ℕ} {s : Mem}

lemma pageDirIdx_eq (hva : va < 2 ^ 32) : (va &&& 0xffc00000) >>> 22 = va / 2 ^ 22 := by
  have h := and_mask_shiftRight va 22 10
  rw [show (0xffc00000 : ℕ) = (2 ^ 10 - 1) <<< 22 by decide, h]
  omega

lemma pageTableIdx_eq : (va &&& 0x003ff000) >>> 12 = va / 2 ^ 12 % 1024 :=
  and_mask_shiftRight va 12 10

/-- `page_map` with a table that is there. -/
lemma pageMap_of_present (hva : va < 2 ^ 32) (h : Present (entry s.ram dir (va / 2 ^ 22))) :
    pageMap dir va phy privilege s =
      ⟨put32 s.ram (target (entry s.ram dir (va / 2 ^ 22)) + 4 * (va / 2 ^ 12 % 1024))
        (itemWord phy privilege), s.freeList⟩ := by
  have h0 : ¬ (dirItem s.ram (dir + 4 * (va / 2 ^ 22))).present = 0 := by
    rw [dirItem_present, show get32 s.ram (dir + 4 * (va / 2 ^ 22)) % 2 = 1 from h]
    decide
  simp only [pageMap, pageDirIdx_eq hva, pageTableIdx_eq, if_neg h0, dirItem_target,
    generatePageTableItem_eq]

/-- The memory of `page_map` once it has made a table of the first free page. -/
def tableMade (dir va privilege : ℕ) (s : Mem) : Mem :=
  ⟨put32 (fill s.ram s.freeList pageSize 0) (dir + 4 * (va / 2 ^ 22))
    (itemWord (vir2Phy s.freeList) privilege), get32 s.ram s.freeList⟩

/-- One word of a page is written: the other words of pages are as they were. -/
lemma entry_put32 {m : Bytes} {T q i j v : ℕ} (hT : T % 4096 = 0) (hq : q % 4096 = 0)
    (hi : i < 1024) (hj : j < 1024) (hne : q = T → j ≠ i) : entry (put32 m (T + 4 * i) v) q j = entry m q j := by
  refine get32_put32_of_disjoint ?_
  by_cases he : q = T
  · have := hne he
    omega
  · omega

/-- The directory and the other tables keep their entries when a table is made. -/
lemma entry_tableMade {q j : ℕ} (hD : dir % 4096 = 0) (hF : s.freeList % 4096 = 0) (hq : q % 4096 = 0)
    (hqF : q ≠ s.freeList) (hi : va / 2 ^ 22 < 1024) (hj : j < 1024) (hne : q = dir → j ≠ va / 2 ^ 22) :
    entry (tableMade dir va privilege s).ram q j = entry s.ram q j := by
  unfold tableMade
  rw [entry_put32 hD hq hi hj hne]
  exact entry_fill hq hF hqF hj

/-- `page_map` without a table. -/
lemma pageMap_of_not (hva : va < 2 ^ 32) (h : ¬ Present (entry s.ram dir (va / 2 ^ 22)))
    (hF : s.freeList % 4096 = 0) (hlt : s.freeList < 2 ^ 32) :
    pageMap dir va phy privilege s =
      ⟨put32 (tableMade dir va privilege s).ram (s.freeList + 4 * (va / 2 ^ 12 % 1024))
        (itemWord phy privilege), get32 s.ram s.freeList⟩ := by
  have h0 : (dirItem s.ram (dir + 4 * (va / 2 ^ 22))).present = 0 := by
    have hlt : get32 s.ram (dir + 4 * (va / 2 ^ 22)) % 2 < 2 := Nat.mod_lt _ (by decide)
    have hne : get32 s.ram (dir + 4 * (va / 2 ^ 22)) % 2 ≠ 1 := h
    rw [dirItem_present]
    omega
  have hself : get32 (put32 (fill s.ram s.freeList pageSize 0) (dir + 4 * (va / 2 ^ 22))
      (itemWord (vir2Phy s.freeList) privilege)) (dir + 4 * (va / 2 ^ 22)) =
      itemWord (vir2Phy s.freeList) privilege := by
    rw [get32_put32, Nat.mod_eq_of_lt itemWord_lt]
  simp only [pageMap, pageDirIdx_eq hva, pageTableIdx_eq, if_pos h0, dirItem_target,
    generatePageTableItem_eq, generatePageDirItem_eq, allocPage, hself, tableMade]
  rw [target_itemWord hF hlt]

end PageMap

/-! ### The stack -/

/-- A page for the stack, as `sys_execve` and `switch_to_user` map it. -/
def mapStack (dir : ℕ) (s : Mem) : Mem :=
  let (stackPage, s) := allocPage s
  pageMap dir (userStackStart &&& 0xfffff000) (vir2Phy stackPage) pagePrivilegeUser s

/-- What `mapStack` does to the directory, and what it leaves of the free list `L`. -/
structure StackMapped (L : List ℕ) (t dir : ℕ) (s s' : Mem) : Prop where
  free : ∃ used rest, L = used ++ rest ∧ used.length ≤ 2 ∧ FreeList s' rest t ∧ Apart rest s'.ram dir
  present : Present (entry s'.ram dir 0x2ff)
  others : ∀ i < 0x300, i ≠ 0x2ff → entry s'.ram dir i = entry s.ram dir i
  single : ¬ Present (entry s.ram dir 0x2ff) → ∀ j < 1023,
    ¬ Present (entry s'.ram (target (entry s'.ram dir 0x2ff)) j)

section Stack

variable {L : List ℕ} {t dir S F : ℕ} {s : Mem}

/-- Writes to one word off the first words of the free pages keep the free list. -/
lemma FreeList.put32 {a v : ℕ} (h : FreeList s L t) (ha : ∀ p ∈ L, a + 4 ≤ p ∨ p + 4 ≤ a) :
    FreeList ⟨Lib.put32 s.ram a v, s.freeList⟩ L t :=
  h.congr rfl fun p hp => get32_put32_of_disjoint (by have := ha p hp; omega)

lemma userStack_page : userStackStart &&& 0xfffff000 = 0xbffff000 := by decide

lemma mapStack_of_present (hfree : FreeList s (S :: L) t)
    (h : Present (entry s.ram dir 0x2ff)) :
    mapStack dir s = ⟨put32 s.ram (target (entry s.ram dir 0x2ff) + 4092) (itemWord (vir2Phy S) 1),
      get32 s.ram S⟩ := by
  have hS : s.freeList = S := hfree.1
  rw [mapStack, allocPage, userStack_page]
  simp only [hS]
  exact pageMap_of_present (s := ⟨s.ram, get32 s.ram S⟩) (by decide) h

lemma mapStack_of_not (hfree : FreeList s (S :: F :: L) t) (hF : IsPage F)
    (h : ¬ Present (entry s.ram dir 0x2ff)) :
    mapStack dir s = ⟨put32 (put32 (fill s.ram F pageSize 0) (dir + 4 * 0x2ff)
      (itemWord (vir2Phy F) 1)) (F + 4092) (itemWord (vir2Phy S) 1), get32 s.ram F⟩ := by
  have hS : s.freeList = S := hfree.1
  have hlink : get32 s.ram S = F := hfree.2.1
  rw [mapStack, allocPage, userStack_page]
  simp only [hS, hlink]
  exact pageMap_of_not (s := ⟨s.ram, F⟩) (by decide) h hF.mod hF.lt

/-- **What `mapStack` does**, with two free pages and a directory that is apart from the free list. -/
theorem stackMapped (hfree : FreeList s (S :: F :: L) t) (hL : PageList (S :: F :: L))
    (hA : Apart (S :: F :: L) s.ram dir) :
    StackMapped (S :: F :: L) t dir s (mapStack dir s) := by
  have hmod : ∀ p ∈ S :: F :: L, p % 4096 = 0 := fun p hp => (hL.page p hp).mod
  have hdir := hA.mod
  by_cases hp : Present (entry s.ram dir 0x2ff)
  · -- the table is there: its last entry is written
    have hT := hA.tables 0x2ff (by omega) hp
    have hTm : target (entry s.ram dir 0x2ff) % 4096 = 0 := target_mod _
    have hentry : ∀ i < 0x300, entry (mapStack dir s).ram dir i = entry s.ram dir i := by
      intro i hi
      rw [mapStack_of_present hfree hp]
      exact get32_put32_of_disjoint (by omega)
    rw [mapStack_of_present hfree hp] at hentry ⊢
    generalize target (entry s.ram dir 0x2ff) = T at hT hTm hentry ⊢
    refine ⟨⟨[S], F :: L, rfl, by simp, ?_, ?_⟩, ?_, fun i hi _ => hentry i hi,
      fun h => absurd hp h⟩
    · refine FreeList.put32 (s := ⟨s.ram, get32 s.ram S⟩) hfree.2 fun p hp => ?_
      have hpT : p ≠ T := fun e => hT (e ▸ List.mem_cons_of_mem _ hp)
      have := hmod p (List.mem_cons_of_mem _ hp)
      omega
    · refine ⟨hdir, fun hm => hA.self (List.mem_cons_of_mem _ hm), fun i hi hpi hm => ?_⟩
      rw [hentry i hi] at hpi hm
      exact hA.tables i hi hpi (List.mem_cons_of_mem _ hm)
    · rw [hentry 0x2ff (by omega)]
      exact hp
  · -- a table is made of the second free page
    have hFp := hL.page F (by simp)
    have hFm := hFp.mod
    have hdF : dir ≠ F := fun e => hA.self (by simp [e])
    have hFL : F ∉ L := (List.nodup_cons.mp (List.nodup_cons.mp hL.nodup).2).1
    rw [mapStack_of_not hfree hFp hp]
    have hself : entry (put32 (put32 (fill s.ram F pageSize 0) (dir + 4 * 0x2ff)
        (itemWord (vir2Phy F) 1)) (F + 4092) (itemWord (vir2Phy S) 1)) dir 0x2ff =
        itemWord (vir2Phy F) 1 := by
      rw [entry, get32_put32_of_disjoint (by omega), get32_put32, Nat.mod_eq_of_lt itemWord_lt]
    have hother : ∀ i < 0x300, i ≠ 0x2ff → entry (put32 (put32 (fill s.ram F pageSize 0)
        (dir + 4 * 0x2ff) (itemWord (vir2Phy F) 1)) (F + 4092) (itemWord (vir2Phy S) 1)) dir i =
        entry s.ram dir i := by
      intro i hi hne
      rw [entry, get32_put32_of_disjoint (by omega), get32_put32_of_disjoint (by omega)]
      exact entry_fill hdir hFm hdF (by omega)
    have hlink : ∀ p ∈ L, get32 (put32 (put32 (fill s.ram F pageSize 0)
        (dir + 4 * 0x2ff) (itemWord (vir2Phy F) 1)) (F + 4092) (itemWord (vir2Phy S) 1)) p =
        get32 s.ram p := by
      intro p hp
      have hpF : p ≠ F := fun e => hFL (e ▸ hp)
      have hpd : p ≠ dir := fun e => hA.self (by simp [← e, hp])
      have hpm := hmod p (by simp [hp])
      rw [get32_put32_of_disjoint (by omega), get32_put32_of_disjoint (by omega), fill_eq]
      exact get32_overlay_page (o := 0) hpm hFm hpF (by decide) le_rfl le_rfl
    refine ⟨⟨[S, F], L, rfl, le_rfl, ?_, ?_⟩, ?_, hother, fun _ j hj => ?_⟩
    · have hrest : FreeList ⟨s.ram, get32 s.ram F⟩ L t := hfree.2.2
      exact hrest.congr rfl hlink
    · refine ⟨hdir, fun hm => hA.self (by simp [hm]), fun i hi hpi hm => ?_⟩
      by_cases hi' : i = 0x2ff
      · rw [hi', hself, target_itemWord hFm hFp.lt] at hm
        exact hFL hm
      · rw [hother i hi hi'] at hpi hm
        exact hA.tables i hi hpi (by simp [hm])
    · rw [hself]
      exact present_itemWord
    · rw [hself, target_itemWord hFm hFp.lt, entry, get32_put32_of_disjoint (by omega),
        get32_put32_of_disjoint (by omega), fill_eq,
        get32_overlay_add (by simp only [pageSize]; omega)]
      simp [get32, Present]

/-- `mapStack` writes the directory, and the table that is there or the second free page. -/
lemma mapStack_userOnly {W : List ℕ} (hfree : FreeList s (S :: F :: L) t) (hF : IsPage F) (hFW : F ∈ W)
    (hT : Present (entry s.ram dir 0x2ff) → target (entry s.ram dir 0x2ff) ∈ W) :
    UserOnly W dir s.ram (mapStack dir s).ram := by
  intro x hx hdir
  by_cases hp : Present (entry s.ram dir 0x2ff)
  · have hxT := hx _ (hT hp)
    unfold InPage at hxT
    simp only [pageSize] at hxT
    rw [mapStack_of_present hfree hp]
    exact put32_of_not_mem (by omega)
  · have hxF := hx F hFW
    unfold InPage at hxF
    simp only [pageSize] at hxF
    rw [mapStack_of_not hfree hF hp]
    simp only
    rw [put32_of_not_mem (by omega), put32_of_not_mem (by omega), fill_eq, pageSize,
      overlay_of_not_mem (by omega)]

end Stack

end Nbos.Memory
