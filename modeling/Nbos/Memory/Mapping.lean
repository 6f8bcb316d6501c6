import Nbos.Lib.Commute
import Nbos.Memory.Junk

/-!
# Mapping pages with new tables

A program maps pages in a directory, each where the directory had no entry when it began. All that it
takes comes off the free list.

A `Growth` is what it has done so far, as the program sees it: `space` leads from the number of a page
of the address space to the page that is mapped there. `Grown` says that memory is as it should be
after it, and what is left alone. `Grown.map` is the step: one more page, with a table if need be.
What lies in the pages that are still free makes no difference (`mapPage_withJunk`).
-/

namespace Nbos.Memory

open Nbos.Lib Nbos.Kernel

/-- The entry of the directory for an address. -/
abbrev dirIdx (va : ℕ) : ℕ := va / 2 ^ 22

/-- The entry of the table for an address. -/
abbrev tableIdx (va : ℕ) : ℕ := va / 2 ^ 12 % 1024

/-- The number of the page of an address. -/
abbrev pageNo (va : ℕ) : ℕ := va / 2 ^ 12

/-- How many pages it takes to map the pages `vas` with new tables. -/
def pagesFor (vas : List ℕ) : ℕ := vas.length + (vas.map dirIdx).toFinset.card

/-- A page off the free list, mapped at `va` for the user. -/
def mapPage (dir va : ℕ) (s : Mem) : Mem :=
  let (page, s) := allocPage s
  pageMap dir va (vir2Phy page) pagePrivilegeUser s

/-- The entry `i` is in the user half and not present. -/
def Fresh (m : Bytes) (dir i : ℕ) : Prop := i < 0x300 ∧ ¬ Present (entry m dir i)

/-- The directory is none of the free pages `Q`. -/
structure Ground (dir : ℕ) (Q : List ℕ) : Prop where
  list : PageList Q
  mod : dir % 4096 = 0
  self : dir ∉ Q

/-- What has been done: the entries of the directory that have a new table, these tables, the pages
taken to be mapped, the free pages that are left, and which page is mapped where. -/
structure Growth where
  dirs : List ℕ
  tables : List ℕ
  frames : List ℕ
  rest : List ℕ
  space : ℕ → Option ℕ

/-- The word of a table or a directory for a page of the user. -/
abbrev userItem (p : ℕ) : ℕ := itemWord (vir2Phy p) pagePrivilegeUser

/-- The memory after this has been done in the memory `m`, with the free pages `Q`. -/
structure Grown (m : Bytes) (dir : ℕ) (Q : List ℕ) (g : Growth) (s : Mem) : Prop where
  used : ∃ U, Q = U ++ g.rest ∧ U.Perm (g.tables ++ g.frames)
  free : FreeList s g.rest 0
  fresh : ∀ i ∈ g.dirs, Fresh m dir i
  others : ∀ i < 1024, i ∉ g.dirs → entry s.ram dir i = entry m dir i
  table : ∀ i ∈ g.dirs, ∃ t ∈ g.tables, entry s.ram dir i = userItem t
  apart : ∀ i ∈ g.dirs, ∀ j ∈ g.dirs, entry s.ram dir i = entry s.ram dir j → i = j
  off : ∀ x, Off (g.tables ++ g.frames) x → x < dir ∨ dir + 0xc00 ≤ x → s.ram x = m x
  walk : ∀ va, Fresh m dir (dirIdx va) → walk s.ram dir va = (g.space (pageNo va)).map userItem
  frame : ∀ v p, g.space v = some p → p ∈ g.frames
  single : ∀ v w p, g.space v = some p → g.space w = some p → v = w

/-- One more page: `p` is mapped at `va`, in a table that is there or in a new one. -/
structure Growth.Maps (g : Growth) (va p : ℕ) (g' : Growth) : Prop where
  space : g'.space = Function.update g.space (pageNo va) (some p)
  frames : g'.frames = p :: g.frames
  table : dirIdx va ∈ g.dirs ∧ g'.dirs = g.dirs ∧ g'.tables = g.tables ∧ g.rest = p :: g'.rest ∨
    dirIdx va ∉ g.dirs ∧ g'.dirs = dirIdx va :: g.dirs ∧
      ∃ t, g'.tables = t :: g.tables ∧ g.rest = p :: t :: g'.rest

section Counting

variable {va : ℕ} {vas vas' : List ℕ}

lemma card_dirs_concat : ((vas ++ [va]).map dirIdx).toFinset.card =
    (vas.map dirIdx).toFinset.card + if dirIdx va ∈ vas.map dirIdx then 0 else 1 := by
  rw [List.map_append, List.toFinset_append, List.map_singleton, List.toFinset_cons,
    List.toFinset_nil, Finset.union_insert, Finset.union_empty]
  split
  · rename_i h
    rw [Finset.insert_eq_of_mem (List.mem_toFinset.mpr h)]
    rfl
  · rename_i h
    rw [Finset.card_insert_of_notMem fun hm => h (List.mem_toFinset.mp hm)]

lemma pagesFor_concat :
    pagesFor (vas ++ [va]) = pagesFor vas + 1 + if dirIdx va ∈ vas.map dirIdx then 0 else 1 := by
  unfold pagesFor
  rw [card_dirs_concat, List.length_append, List.length_singleton]
  omega

/-- More pages need more. -/
lemma pagesFor_le_append : pagesFor vas ≤ pagesFor (vas ++ vas') := by
  unfold pagesFor
  refine Nat.add_le_add (by simp) (Finset.card_le_card ?_)
  rw [List.map_append, List.toFinset_append]
  exact Finset.subset_union_left

end Counting

/-! ### The two halves of `page_map` -/

/-- The entry for `va` set to the page `p`, in the table that is there. -/
def entrySet (dir va p : ℕ) (s : Mem) : Mem :=
  ⟨put32 s.ram (target (entry s.ram dir (dirIdx va)) + 4 * tableIdx va) (userItem p), s.freeList⟩

section PageMap

variable {D va va' p i j x : ℕ} {s : Mem} {m : Bytes}

lemma tableIdx_lt : tableIdx va < 1024 := Nat.mod_lt _ (by decide)

lemma entrySet_self : entry (entrySet D va p s).ram (target (entry s.ram D (dirIdx va))) (tableIdx va) =
    userItem p := by
  rw [entrySet, entry, get32_put32, Nat.mod_eq_of_lt itemWord_lt]

lemma entrySet_of_off (h : ¬ InPage (target (entry s.ram D (dirIdx va))) x) :
    (entrySet D va p s).ram x = s.ram x := by
  have hj : tableIdx va < 1024 := tableIdx_lt
  unfold InPage at h
  simp only [pageSize] at h
  exact put32_of_not_mem (by omega)

/-- The other entries of a directory or a table. -/
lemma entrySet_entry {q : ℕ} (hq : q % 4096 = 0) (hj : j < 1024)
    (hne : q = target (entry s.ram D (dirIdx va)) → j ≠ tableIdx va) :
    entry (entrySet D va p s).ram q j = entry s.ram q j :=
  entry_put32 (target_mod _) hq tableIdx_lt hj hne

lemma tableMade_self : entry (tableMade D va 1 s).ram D (dirIdx va) = userItem s.freeList := by
  rw [tableMade, entry, get32_put32, Nat.mod_eq_of_lt itemWord_lt]

lemma tableMade_of_off (h : ¬ InPage s.freeList x)
    (hx : x < D + 4 * dirIdx va ∨ D + 4 * dirIdx va + 4 ≤ x) :
    (tableMade D va 1 s).ram x = s.ram x := by
  unfold InPage at h
  show put32 _ _ _ x = _
  rw [put32_of_not_mem hx, fill_eq, overlay_of_not_mem (by omega)]

/-- The new table has no entry. -/
lemma tableMade_table (hD : D % 4096 = 0) (hF : s.freeList % 4096 = 0) (hDF : D ≠ s.freeList)
    (hi : dirIdx va < 1024) (hj : j < 1024) :
    entry (tableMade D va 1 s).ram s.freeList j = 0 := by
  have hi' : va / 2 ^ 22 < 1024 := hi
  rw [tableMade, entry, get32_put32_of_disjoint (by omega), fill_eq,
    get32_overlay_add (by simp only [pageSize]; omega)]
  simp [get32]

/-- `page_map` makes a table if there is none, and sets the entry. -/
lemma mapPage_of_present (hva : va < 2 ^ 32) (h : Present (entry s.ram D (dirIdx va))) :
    mapPage D va s = entrySet D va s.freeList (allocPage s).2 :=
  pageMap_of_present (s := (allocPage s).2) hva h

lemma mapPage_of_not (hva : va < 2 ^ 32) (h : ¬ Present (entry s.ram D (dirIdx va)))
    (hF : (allocPage s).2.freeList % 4096 = 0) (hlt : (allocPage s).2.freeList < 2 ^ 32) :
    mapPage D va s = entrySet D va s.freeList (tableMade D va 1 (allocPage s).2) := by
  refine (pageMap_of_not (s := (allocPage s).2) hva h hF hlt).trans ?_
  rw [entrySet, tableMade_self, target_itemWord hF hlt]
  rfl

/-- Two addresses in one page have the same entries on the way. -/
lemma idx_of_pageNo (h : pageNo va' = pageNo va) : dirIdx va' = dirIdx va ∧ tableIdx va' = tableIdx va := by
  have h : va' / 2 ^ 12 = va / 2 ^ 12 := h
  show va' / 2 ^ 22 = va / 2 ^ 22 ∧ va' / 2 ^ 12 % 1024 = va / 2 ^ 12 % 1024
  omega

lemma pageNo_of_idx (h : dirIdx va' = dirIdx va) (h' : tableIdx va' = tableIdx va) :
    pageNo va' = pageNo va := by
  have h : va' / 2 ^ 22 = va / 2 ^ 22 := h
  have h' : va' / 2 ^ 12 % 1024 = va / 2 ^ 12 % 1024 := h'
  show va' / 2 ^ 12 = va / 2 ^ 12
  omega

lemma target_userItem (hp : IsPage p) : target (userItem p) = p := target_itemWord hp.mod hp.lt

lemma walk_of_not (h : ¬ Present (entry m D (dirIdx va))) : walk m D va = none := if_neg h

/-- With a table, the entry there decides whether an address is mapped. -/
lemma walk_ne_none (hp : Present (entry m D (dirIdx va))) :
    walk m D va ≠ none ↔ Present (entry m (target (entry m D (dirIdx va))) (tableIdx va)) := by
  unfold walk
  simp only
  rw [if_pos hp]
  split <;> simp [*]

lemma walk_of_item {t w : ℕ} (ht : IsPage t) (hd : entry m D (dirIdx va) = userItem t)
    (hw : entry m t (tableIdx va) = w) : walk m D va = if Present w then some w else none :=
  walk_of_entries (hd ▸ present_itemWord) (by rw [hd, target_userItem ht]) hw

end PageMap

/-! ### What is kept -/

section Grown

variable {m : Bytes} {D p t va j x : ℕ} {Q vas : List ℕ} {g g' : Growth} {s s' : Mem}

lemma Grown.perm (h : Grown m D Q g s) : Q.Perm (g.tables ++ g.frames ++ g.rest) := by
  obtain ⟨U, hU, hp⟩ := h.used
  rw [hU]
  exact hp.append_right _

lemma Grown.mem (h : Grown m D Q g s) (hp : p ∈ g.tables ++ g.frames ++ g.rest) : p ∈ Q :=
  h.perm.mem_iff.mpr hp

lemma Grown.pages (hg : Ground D Q) (h : Grown m D Q g s) :
    PageList (g.tables ++ g.frames ++ g.rest) := hg.list.of_perm h.perm

/-- The pages with one use have no other, and none is the directory. -/
lemma Grown.of_table (hg : Ground D Q) (h : Grown m D Q g s) (ht : t ∈ g.tables) :
    IsPage t ∧ t ≠ D ∧ t ∉ g.frames ∧ t ∉ g.rest := by
  have hall := h.pages hg
  have hm : t ∈ g.tables ++ g.frames := List.mem_append_left _ ht
  obtain ⟨h1, -, h2⟩ := hall.append
  refine ⟨hall.page t (List.mem_append_left _ hm), fun he => hg.self ?_, h1.append.2.2 ht, h2 hm⟩
  exact he ▸ h.mem (List.mem_append_left _ hm)

lemma Grown.of_frame (hg : Ground D Q) (h : Grown m D Q g s) (hp : p ∈ g.frames) :
    IsPage p ∧ p ≠ D ∧ p ∉ g.tables ∧ p ∉ g.rest := by
  have hall := h.pages hg
  have hm : p ∈ g.tables ++ g.frames := List.mem_append_right _ hp
  obtain ⟨h1, -, h2⟩ := hall.append
  refine ⟨hall.page p (List.mem_append_left _ hm), fun he => hg.self ?_,
    fun ht => h1.append.2.2 ht hp, h2 hm⟩
  exact he ▸ h.mem (List.mem_append_left _ hm)

lemma Grown.of_rest (hg : Ground D Q) (h : Grown m D Q g s) (hp : p ∈ g.rest) :
    IsPage p ∧ p ≠ D ∧ p ∉ g.tables ∧ p ∉ g.frames := by
  have hall := h.pages hg
  refine ⟨hall.page p (List.mem_append_right _ hp), fun he => hg.self ?_, fun ht => ?_, fun hf => ?_⟩
  · exact he ▸ h.mem (List.mem_append_right _ hp)
  · exact hall.append.2.2 (List.mem_append_left _ ht) hp
  · exact hall.append.2.2 (List.mem_append_right _ hf) hp

/-- The pages that are handed out next are the first two of the rest. -/
lemma Grown.freeList_eq {rest : List ℕ} (h : Grown m D Q g s) (hrest : g.rest = p :: rest) :
    s.freeList = p := by
  have hfree := h.free
  rw [hrest] at hfree
  exact hfree.1

lemma Grown.freeList_next {rest : List ℕ} (h : Grown m D Q g s) (hrest : g.rest = p :: t :: rest) :
    (allocPage s).2.freeList = t := by
  have hfree := h.free
  rw [hrest] at hfree
  exact hfree.alloc.2.2.1

/-- The entry of the directory for a page, and the table behind it if there is one. -/
lemma Grown.dir_cases (hg : Ground D Q) (h : Grown m D Q g s) (hva : Fresh m D (dirIdx va)) :
    dirIdx va ∉ g.dirs ∧ ¬ Present (entry s.ram D (dirIdx va)) ∨
    dirIdx va ∈ g.dirs ∧ ∃ t ∈ g.tables, entry s.ram D (dirIdx va) = userItem t ∧
      Present (entry s.ram D (dirIdx va)) ∧ target (entry s.ram D (dirIdx va)) = t := by
  by_cases hi : dirIdx va ∈ g.dirs
  · obtain ⟨t, ht, he⟩ := h.table _ hi
    obtain ⟨htp, -⟩ := h.of_table hg ht
    refine .inr ⟨hi, t, ht, he, ?_⟩
    rw [he]
    exact ⟨present_itemWord, target_userItem htp⟩
  · refine .inl ⟨hi, ?_⟩
    rw [h.others _ (hva.1.trans (by decide)) hi]
    exact hva.2

/-- Nothing has been done. -/
lemma Grown.start (hfree : FreeList ⟨m, p⟩ Q 0) : Grown m D Q ⟨[], [], [], Q, fun _ => none⟩ ⟨m, p⟩ := by
  refine ⟨⟨[], rfl, .nil⟩, hfree, ?_, fun _ _ _ => rfl, ?_, ?_, fun _ _ _ => rfl,
    fun va hva => walk_of_not hva.2, ?_, ?_⟩
  · intro i hi
    exact absurd hi List.not_mem_nil
  · intro i hi
    exact absurd hi List.not_mem_nil
  · intro i hi
    exact absurd hi List.not_mem_nil
  · intro v p hp
    cases hp
  · intro v w p hp
    cases hp

/-- The first free page is taken, to be mapped. -/
def Growth.take (g : Growth) (p : ℕ) (rest : List ℕ) : Growth :=
  { g with frames := p :: g.frames, rest := rest }

/-- The first free page becomes the table for the entry `i`. -/
def Growth.newTable (g : Growth) (i p : ℕ) (rest : List ℕ) : Growth :=
  { g with dirs := i :: g.dirs, tables := p :: g.tables, rest := rest }

/-- The page `p` is mapped at `va`. -/
def Growth.setEntry (g : Growth) (va p : ℕ) : Growth :=
  { g with space := Function.update g.space (pageNo va) (some p) }

lemma Grown.take {rest : List ℕ} (h : Grown m D Q g s) (hrest : g.rest = p :: rest) :
    Grown m D Q (g.take p rest) (allocPage s).2 := by
  obtain ⟨U, hU, hperm⟩ := h.used
  have hfree := h.free
  rw [hrest] at hU hfree
  refine ⟨⟨U ++ [p], ?_, ?_⟩, hfree.alloc.2.2, h.fresh, h.others, h.table, h.apart,
    fun x hx => h.off x (hx.of_subset fun q hq => ?_), h.walk, fun v q hq => ?_, h.single⟩
  · rw [hU, List.append_assoc]
    rfl
  · calc
      (U ++ [p]).Perm (p :: U) := List.perm_append_singleton p U
      _ |>.Perm (p :: (g.tables ++ g.frames)) := hperm.cons p
      _ |>.Perm (g.tables ++ p :: g.frames) := List.perm_middle.symm
  · rcases List.mem_append.mp hq with hq | hq
    · exact List.mem_append_left _ hq
    · exact List.mem_append_right _ (List.mem_cons_of_mem _ hq)
  · exact List.mem_cons_of_mem _ (h.frame v q hq)

/-- No entry leads to a page that is left. -/
lemma Grown.item_ne (hg : Ground D Q) (h : Grown m D Q g s) (hp : p ∈ g.rest) {i : ℕ}
    (hi : i ∈ g.dirs) : entry s.ram D i ≠ userItem p := by
  intro he
  obtain ⟨hpage, -, hpt, -⟩ := h.of_rest hg hp
  obtain ⟨t, ht, hit⟩ := h.table i hi
  obtain ⟨ht1, -⟩ := h.of_table hg ht
  have htp : t = p := by
    rw [← target_userItem ht1, ← hit, he, target_userItem hpage]
  exact hpt (htp ▸ ht)

/-- The new table is the first page that is left; the other entries of the directory, and the other
pages, are as they were. -/
lemma Grown.entry_newTable {rest : List ℕ} (hg : Ground D Q) (hfresh : Fresh m D (dirIdx va))
    (h : Grown m D Q g s) (hrest : g.rest = p :: rest) :
    entry (tableMade D va 1 s).ram D (dirIdx va) = userItem p ∧
    (∀ i < 1024, i ≠ dirIdx va → entry (tableMade D va 1 s).ram D i = entry s.ram D i) ∧
    (∀ q, q % 4096 = 0 → q ≠ p → q ≠ D → ∀ j < 1024,
      entry (tableMade D va 1 s).ram q j = entry s.ram q j) ∧
    ∀ j < 1024, entry (tableMade D va 1 s).ram p j = 0 := by
  obtain ⟨hpage, hpD, -, -⟩ := h.of_rest hg (hrest ▸ List.mem_cons_self .. : p ∈ g.rest)
  have hD := hg.mod
  have hlt : dirIdx va < 1024 := hfresh.1.trans (by decide)
  have hF := h.freeList_eq hrest
  have hFm : s.freeList % 4096 = 0 := hF ▸ hpage.mod
  have hDF : D ≠ s.freeList := fun e => hpD (hF ▸ e.symm)
  refine ⟨?_, fun i hi hne => ?_, fun q hq hqp hqD j hj => ?_, fun j hj => ?_⟩
  · rw [tableMade_self, hF]
  · exact entry_tableMade hD hFm hD hDF hlt hi fun _ => hne
  · exact entry_tableMade hD hFm hq (hF ▸ hqp) hlt hj fun e => absurd e hqD
  · rw [← hF]
    exact tableMade_table hD hFm hDF hlt hj

/-- A new table maps nothing. -/
lemma Grown.walk_newTable {rest : List ℕ} {va' : ℕ} (hg : Ground D Q)
    (hfresh : Fresh m D (dirIdx va)) (hnew : dirIdx va ∉ g.dirs) (h : Grown m D Q g s)
    (hrest : g.rest = p :: rest) (hva' : Fresh m D (dirIdx va')) :
    Memory.walk (tableMade D va 1 s).ram D va' = Memory.walk s.ram D va' := by
  have hpr : p ∈ g.rest := hrest ▸ List.mem_cons_self ..
  obtain ⟨hself, hdir, hold, hzero⟩ := h.entry_newTable hg hfresh hrest
  obtain ⟨hpage, -⟩ := h.of_rest hg hpr
  by_cases hi : dirIdx va' = dirIdx va
  · have hnone : ¬ Present (entry s.ram D (dirIdx va')) := by
      rw [h.others _ (hva'.1.trans (by decide)) (hi ▸ hnew)]
      exact hva'.2
    rw [walk_of_not hnone, walk_of_item hpage (hi ▸ hself) (hzero _ tableIdx_lt)]
    rfl
  · refine walk_congr (hdir _ (hva'.1.trans (by decide)) hi) fun hp => ?_
    rcases h.dir_cases hg hva' with ⟨-, hnp⟩ | ⟨-, t, ht, -, -, htgt⟩
    · exact absurd hp hnp
    · obtain ⟨ht1, ht2, -, ht3⟩ := h.of_table hg ht
      rw [htgt]
      exact hold t ht1.mod (fun e => ht3 (e ▸ hpr)) ht2 _ tableIdx_lt

/-- A page becomes a table, zeroed, and the directory points to it. -/
lemma Grown.newTable {rest : List ℕ} (hg : Ground D Q) (hfresh : Fresh m D (dirIdx va))
    (hnew : dirIdx va ∉ g.dirs) (h : Grown m D Q g s) (hrest : g.rest = p :: rest) :
    Grown m D Q (g.newTable (dirIdx va) p rest) (tableMade D va 1 s) := by
  obtain ⟨U, hU, hperm⟩ := h.used
  have hpr : p ∈ g.rest := hrest ▸ List.mem_cons_self ..
  obtain ⟨hself, hdir, hold, -⟩ := h.entry_newTable hg hfresh hrest
  have hF := h.freeList_eq hrest
  have hfree := h.free
  have hrestp := (h.pages hg).append.2.1
  rw [hrest] at hU hfree hrestp
  have hkept : ∀ i ∈ g.dirs, entry (tableMade D va 1 s).ram D i = entry s.ram D i := fun i hi =>
    hdir i ((h.fresh i hi).1.trans (by decide)) fun e => hnew (e ▸ hi)
  have hdiff : ∀ i ∈ g.dirs, entry (tableMade D va 1 s).ram D i ≠ userItem p := fun i hi =>
    (hkept i hi).symm ▸ h.item_ne hg hpr hi
  refine ⟨⟨U ++ [p], ?_, ?_⟩, ?_, ?_, ?_, ?_, ?_, ?_, fun va' hva' => ?_, h.frame, h.single⟩
  · rw [hU, List.append_assoc]
    rfl
  · exact (List.perm_append_singleton p U).trans (hperm.cons p)
  · refine FreeList.congr (s := (allocPage s).2) hfree.alloc.2.2 rfl fun q hq => ?_
    obtain ⟨hq1, hq2, -, -⟩ := h.of_rest hg (hrest ▸ List.mem_cons_of_mem _ hq)
    have hqp : q ≠ p := fun e => (List.nodup_cons.mp hrestp.nodup).1 (e ▸ hq)
    exact hold q hq1.mod hqp hq2 0 (by decide)
  · exact List.forall_mem_cons.mpr ⟨hfresh, h.fresh⟩
  · intro i hi hm
    obtain ⟨hi1, hi2⟩ := List.ne_and_not_mem_of_not_mem_cons hm
    rw [hdir i hi hi1]
    exact h.others i hi hi2
  · refine List.forall_mem_cons.mpr ⟨⟨p, List.mem_cons_self .., hself⟩, fun i hi => ?_⟩
    obtain ⟨t, ht, he⟩ := h.table i hi
    exact ⟨t, List.mem_cons_of_mem _ ht, (hkept i hi).trans he⟩
  · intro i hi j hj he
    rcases List.mem_cons.mp hi with rfl | hi
    · rcases List.mem_cons.mp hj with rfl | hj
      · rfl
      · exact absurd (he.symm.trans hself) (hdiff j hj)
    · rcases List.mem_cons.mp hj with rfl | hj
      · exact absurd (he.trans hself) (hdiff i hi)
      · rw [hkept i hi, hkept j hj] at he
        exact h.apart i hi j hj he
  · intro x hx hxD
    have hidx : dirIdx va < 0x300 := hfresh.1
    rw [tableMade_of_off (hF ▸ hx p (List.mem_cons_self ..)) (by omega)]
    exact h.off x (fun q hq => hx q (List.mem_cons_of_mem _ hq)) hxD
  · rw [h.walk_newTable hg hfresh hnew hrest hva']
    exact h.walk va' hva'

/-- A page that has been taken, and is not mapped, is mapped. -/
lemma Grown.setEntry (hg : Ground D Q) (hfresh : Fresh m D (dirIdx va)) (hi : dirIdx va ∈ g.dirs)
    (hp : p ∈ g.frames) (hnew : ∀ v, g.space v ≠ some p) (h : Grown m D Q g s) :
    Grown m D Q (g.setEntry va p) (entrySet D va p s) := by
  obtain ⟨hpage, -, -, -⟩ := h.of_frame hg hp
  obtain ⟨hni, -⟩ | ⟨-, T, hT, hself, -, htgt⟩ := h.dir_cases hg hfresh
  · exact absurd hi hni
  obtain ⟨hTp, hTD, -, hTr⟩ := h.of_table hg hT
  have hdir : ∀ i < 1024, entry (entrySet D va p s).ram D i = entry s.ram D i := fun i hi =>
    entrySet_entry hg.mod hi fun e => absurd (htgt ▸ e.symm) hTD
  have hset : entry (entrySet D va p s).ram T (tableIdx va) = userItem p := by
    rw [← htgt]
    exact entrySet_self
  refine ⟨h.used, ?_, h.fresh, fun i hi hm => ?_, fun i hi => ?_, fun i hi j hj he => ?_,
    fun x hx hxD => ?_, fun va' hva' => ?_, fun v q hq => ?_, fun v w q hv hw => ?_⟩
  · refine FreeList.congr h.free rfl fun q hq => ?_
    have hqT : q ≠ T := fun e => hTr (e ▸ hq)
    exact entrySet_entry (j := 0) (h.of_rest hg hq).1.mod (by decide)
      fun e => absurd (e.trans htgt) hqT
  · rw [hdir i hi]
    exact h.others i hi hm
  · rw [hdir i ((h.fresh i hi).1.trans (by decide))]
    exact h.table i hi
  · rw [hdir i ((h.fresh i hi).1.trans (by decide)), hdir j ((h.fresh j hj).1.trans (by decide))] at he
    exact h.apart i hi j hj he
  · rw [entrySet_of_off (htgt ▸ hx T (List.mem_append_left _ hT))]
    exact h.off x hx hxD
  · show _ = (Function.update g.space (pageNo va) (some p) (pageNo va')).map userItem
    have hd := hdir (dirIdx va') (hva'.1.trans (by decide))
    by_cases hv : pageNo va' = pageNo va
    · obtain ⟨hd', ht'⟩ := idx_of_pageNo hv
      rw [hv, Function.update_self, walk_of_item hTp (by rw [hd, hd', hself]) (by rw [ht', hset]),
        if_pos present_itemWord]
      rfl
    · rw [Function.update_of_ne hv, ← h.walk va' hva']
      refine walk_congr hd fun hpres => ?_
      rcases h.dir_cases hg hva' with ⟨-, hnp⟩ | ⟨hi', t, ht, hself', -, htgt'⟩
      · exact absurd hpres hnp
      · refine entrySet_entry (target_mod _) tableIdx_lt fun e hidx => hv (pageNo_of_idx ?_ hidx)
        refine h.apart _ hi' _ hi ?_
        rw [hself, hself', ← htgt, ← htgt', e]
  · by_cases hv : v = pageNo va
    · obtain rfl : p = q := by
        have he : Function.update g.space (pageNo va) (some p) v = some q := hq
        rw [hv, Function.update_self] at he
        exact Option.some_inj.mp he
      exact hp
    · have he : Function.update g.space (pageNo va) (some p) v = some q := hq
      rw [Function.update_of_ne hv] at he
      exact h.frame v q he
  · have hcases : ∀ v, Function.update g.space (pageNo va) (some p) v = some q →
        v = pageNo va ∧ p = q ∨ v ≠ pageNo va ∧ g.space v = some q := by
      intro v he
      by_cases hv : v = pageNo va
      · rw [hv, Function.update_self] at he
        exact .inl ⟨hv, Option.some_inj.mp he⟩
      · rw [Function.update_of_ne hv] at he
        exact .inr ⟨hv, he⟩
    rcases hcases v hv with ⟨hv1, rfl⟩ | ⟨-, hv2⟩
    · rcases hcases w hw with ⟨hw1, -⟩ | ⟨-, hw2⟩
      · rw [hv1, hw1]
      · exact absurd hw2 (hnew w)
    · rcases hcases w hw with ⟨-, rfl⟩ | ⟨-, hw2⟩
      · exact absurd hv2 (hnew v)
      · exact h.single v w q hv2 hw2

/-- Writes to the mapped pages. -/
lemma Grown.write (hg : Ground D Q) (h : Grown m D Q g s) (hfree : s'.freeList = s.freeList)
    (hx : ∀ x, Off g.frames x → s'.ram x = s.ram x) : Grown m D Q g s' := by
  have hframes : ∀ q ∈ g.frames, q % 4096 = 0 := fun q hq => (h.of_frame hg hq).1.mod
  have hpage : ∀ q, q % 4096 = 0 → q ∉ g.frames → ∀ j < 1024, entry s'.ram q j = entry s.ram q j :=
    fun q hq hm j hj => entry_congr hj fun k hk => hx _ (off_of_not_mem hframes hq hk hm)
  have hdir : ∀ i < 1024, entry s'.ram D i = entry s.ram D i :=
    hpage D hg.mod fun hm => (h.of_frame hg hm).2.1 rfl
  refine ⟨h.used, ?_, h.fresh, fun i hi hm => ?_, fun i hi => ?_, fun i hi j hj he => ?_,
    fun x hxo hxD => ?_, fun va hva => ?_, h.frame, h.single⟩
  · refine FreeList.congr h.free hfree fun q hq => ?_
    obtain ⟨hq1, -, -, hq2⟩ := h.of_rest hg hq
    exact hpage q hq1.mod hq2 0 (by decide)
  · rw [hdir i hi]
    exact h.others i hi hm
  · rw [hdir i ((h.fresh i hi).1.trans (by decide))]
    exact h.table i hi
  · rw [hdir i ((h.fresh i hi).1.trans (by decide)), hdir j ((h.fresh j hj).1.trans (by decide))] at he
    exact h.apart i hi j hj he
  · rw [hx x (hxo.of_subset fun q hq => List.mem_append_right _ hq)]
    exact h.off x hxo hxD
  · rw [← h.walk va hva]
    refine walk_congr (hdir _ (hva.1.trans (by decide))) fun hp => ?_
    rcases h.dir_cases hg hva with ⟨-, hnp⟩ | ⟨-, t, ht, -, -, htgt⟩
    · exact absurd hp hnp
    · rw [htgt]
      exact hpage t (h.of_table hg ht).1.mod (h.of_table hg ht).2.2.1 _ tableIdx_lt

end Grown

/-! ### One more page -/

/-- What the program finds at the address `va`. -/
def Growth.image (g : Growth) (s : Mem) (va : ℕ) : Option UInt8 :=
  (g.space (pageNo va)).map fun p => s.ram (p + va % pageSize)

/-- The addresses `vas` have been mapped, and nothing has been taken for anything else. -/
structure Growth.Mapped (g : Growth) (vas : List ℕ) : Prop where
  frames : g.frames.length = vas.length
  tables : g.tables.length = (vas.map dirIdx).toFinset.card
  dirs : ∀ i, i ∈ g.dirs ↔ i ∈ vas.map dirIdx
  space : ∀ v, g.space v ≠ none ↔ v ∈ vas.map pageNo

/-- `f` leads from `s` to `s'`: memory is still as it should be, the program finds what it found but at
the addresses `T`, and what lies in the pages that are left does not matter. -/
structure Leads (m : Bytes) (D : ℕ) (Q : List ℕ) (T : ℕ → Prop) (f : Mem → Option Mem) (g : Growth)
    (s : Mem) (g' : Growth) (s' : Mem) : Prop where
  runs : f s = some s'
  grown : Grown m D Q g' s'
  image : ∀ va, ¬ T va → g'.image s' va = g.image s va
  rest : ∀ q ∈ g'.rest, q ∈ g.rest
  junk : ∀ W c, (∀ q ∈ W, q ∈ g'.rest) → Commutes (Mem.withJunk W c) f s

section Step

variable {m : Bytes} {D p t va j x : ℕ} {Q vas vas' : List ℕ} {T T' : ℕ → Prop} {g g' g'' : Growth}
  {s s' s'' : Mem} {f f' : Mem → Option Mem} {W : List ℕ} {c : Bytes}

lemma Leads.skip (h : Grown m D Q g s) : Leads m D Q T some g s g s :=
  ⟨rfl, h, fun _ _ => rfl, fun _ hq => hq, fun _ _ _ => Commutes.skip⟩

lemma Leads.comp (h : Leads m D Q T f g s g' s') (h' : Leads m D Q T' f' g' s' g'' s'') :
    Leads m D Q (fun va => T va ∨ T' va) (fun s => (f s).bind f') g s g'' s'' := by
  refine ⟨?_, h'.grown, fun va hva => ?_, fun q hq => h.rest q (h'.rest q hq), fun W c hW => ?_⟩
  · exact Option.bind_eq_some_iff.mpr ⟨s', h.runs, h'.runs⟩
  · rw [not_or] at hva
    exact (h'.image va hva.2).trans (h.image va hva.1)
  · refine (h.junk W c fun q hq => h'.rest q (hW q hq)).comp fun s₁ hs₁ => ?_
    obtain rfl := Option.some_inj.mp (h.runs.symm.trans hs₁)
    exact h'.junk W c hW

lemma Leads.mono (h : Leads m D Q T f g s g' s') (hT : ∀ va, T va → T' va) :
    Leads m D Q T' f g s g' s' :=
  ⟨h.runs, h.grown, fun va hva => h.image va fun ht => hva (hT va ht), h.rest, h.junk⟩

/-- The pages that are left are none of those in use. -/
lemma Grown.junk_pages (hg : Ground D Q) (h : Grown m D Q g s) (hW : ∀ q ∈ W, q ∈ g.rest) :
    (∀ q ∈ W, q % 4096 = 0) ∧ D ∉ W ∧ (∀ t ∈ g.tables, t ∉ W) ∧ ∀ p ∈ g.frames, p ∉ W := by
  refine ⟨fun q hq => (h.of_rest hg (hW q hq)).1.mod, fun hD => ?_, fun t ht hm => ?_, fun p hp hm => ?_⟩
  · exact (h.of_rest hg (hW D hD)).2.1 rfl
  · exact (h.of_table hg ht).2.2.2 (hW t hm)
  · exact (h.of_frame hg hp).2.2.2 (hW p hm)

lemma entrySet_withJunk (hW : ∀ q ∈ W, q % 4096 = 0) (hD : D % 4096 = 0) (hDW : D ∉ W)
    (hi : dirIdx va < 1024) (hT : target (entry s.ram D (dirIdx va)) ∉ W) :
    entrySet D va p (s.withJunk W c) = (entrySet D va p s).withJunk W c := by
  unfold entrySet
  rw [Mem.withJunk_ram, entry_withJunk hW hD hDW hi, put32_withJunk hW (target_mod _) hT tableIdx_lt]
  rfl

/-- What lay in the page that becomes a table is gone. -/
lemma tableMade_withJunk (hW : ∀ q ∈ W, q % 4096 = 0) (hD : D % 4096 = 0) (hDW : D ∉ W)
    (hi : dirIdx va < 1024) (hF : s.freeList % 4096 = 0) :
    tableMade D va 1 (s.withJunk W c) = (tableMade D va 1 s).withJunk (W.filter (· ≠ s.freeList)) c := by
  have hfilter : ∀ q ∈ W.filter (· ≠ s.freeList), q % 4096 = 0 := fun q hq =>
    hW q (List.mem_of_mem_filter hq)
  unfold tableMade
  rw [Mem.withJunk_freeList, Mem.withJunk_ram, link_withJunk hW hF, fill_page_withJunk hW hF,
    put32_withJunk hfilter hD (fun hm => hDW (List.mem_of_mem_filter hm)) hi]
  rfl

/-- A page is mapped in a table that is there. -/
lemma mapPage_withJunk_of_present (hW : ∀ q ∈ W, q % 4096 = 0) (hD : D % 4096 = 0) (hDW : D ∉ W)
    (hva : va < 2 ^ 32) (hp : s.freeList % 4096 = 0) (hpres : Present (entry s.ram D (dirIdx va)))
    (hT : target (entry s.ram D (dirIdx va)) ∉ W) :
    mapPage D va (s.withJunk W c) = (mapPage D va s).withJunk W c := by
  have hidx : dirIdx va < 1024 := by
    show va / 2 ^ 22 < 1024
    omega
  have hpres' : Present (entry (s.withJunk W c).ram D (dirIdx va)) := by
    rw [Mem.withJunk_ram, entry_withJunk hW hD hDW hidx]
    exact hpres
  rw [mapPage_of_present hva hpres, mapPage_of_present hva hpres', allocPage_withJunk hW hp,
    Mem.withJunk_freeList]
  exact entrySet_withJunk hW hD hDW hidx hT

/-- A page is mapped in a new table. -/
lemma mapPage_withJunk_of_not (hW : ∀ q ∈ W, q % 4096 = 0) (hD : D % 4096 = 0) (hDW : D ∉ W)
    (hva : va < 2 ^ 32) (hp : s.freeList % 4096 = 0) (hnot : ¬ Present (entry s.ram D (dirIdx va)))
    (ht : IsPage (allocPage s).2.freeList) : mapPage D va (s.withJunk W c) =
      (mapPage D va s).withJunk (W.filter (· ≠ (allocPage s).2.freeList)) c := by
  have hidx : dirIdx va < 1024 := by
    show va / 2 ^ 22 < 1024
    omega
  have hnot' : ¬ Present (entry (s.withJunk W c).ram D (dirIdx va)) := by
    rw [Mem.withJunk_ram, entry_withJunk hW hD hDW hidx]
    exact hnot
  have halloc := @allocPage_withJunk W c s hW hp
  have hlink : (allocPage (s.withJunk W c)).2.freeList = (allocPage s).2.freeList := by rw [halloc]; rfl
  have hfilter : ∀ q ∈ W.filter (· ≠ (allocPage s).2.freeList), q % 4096 = 0 := fun q hq =>
    hW q (List.mem_of_mem_filter hq)
  rw [mapPage_of_not hva hnot ht.mod ht.lt, mapPage_of_not hva hnot' (hlink ▸ ht.mod) (hlink ▸ ht.lt),
    halloc, Mem.withJunk_freeList, tableMade_withJunk hW hD hDW hidx ht.mod]
  refine entrySet_withJunk hfilter hD (fun hm => hDW (List.mem_of_mem_filter hm)) hidx ?_
  rw [tableMade_self, target_userItem ht]
  exact fun hm => absurd (List.of_mem_filter hm) (by simp)

lemma Growth.Mapped.start : Growth.Mapped ⟨[], [], [], Q, fun _ => none⟩ [] :=
  ⟨rfl, rfl, fun _ => Iff.rfl, fun v => by simp⟩

lemma Growth.Maps.mapped (h : g.Maps va p g') (hm : g.Mapped vas) : g'.Mapped (vas ++ [va]) := by
  have hspace : ∀ v, g'.space v ≠ none ↔ v ∈ (vas ++ [va]).map pageNo := by
    intro v
    rw [h.space, List.map_append, List.mem_append, List.map_singleton, List.mem_singleton, ← hm.space v]
    by_cases hv : v = pageNo va
    · rw [hv, Function.update_self]
      simp
    · rw [Function.update_of_ne hv]
      simp [hv]
  have hframes : g'.frames.length = (vas ++ [va]).length := by
    rw [h.frames, List.length_cons, List.length_append, hm.frames, List.length_singleton]
  rcases h.table with ⟨hi, hd, ht, -⟩ | ⟨hi, hd, t, ht, -⟩
  · rw [hm.dirs] at hi
    refine ⟨hframes, ?_, fun i => ?_, hspace⟩
    · rw [ht, hm.tables, card_dirs_concat, if_pos hi, Nat.add_zero]
    · rw [hd, hm.dirs, List.map_append, List.mem_append, List.map_singleton, List.mem_singleton]
      exact ⟨.inl, fun hor => hor.elim id fun e => e ▸ hi⟩
  · rw [hm.dirs] at hi
    refine ⟨hframes, ?_, fun i => ?_, hspace⟩
    · rw [ht, List.length_cons, hm.tables, card_dirs_concat, if_neg hi]
    · rw [hd, List.mem_cons, hm.dirs, List.map_append, List.mem_append, List.map_singleton,
        List.mem_singleton]
      exact or_comm

/-- There is a page left as long as fewer have been taken. -/
lemma Grown.length_rest (h : Grown m D Q g s) (hm : g.Mapped vas) :
    Q.length = pagesFor vas + g.rest.length := by
  rw [h.perm.length_eq, List.length_append, List.length_append, hm.frames, hm.tables]
  unfold pagesFor
  omega

/-- What `page_map` has done with the first free page, `p`. -/
structure MapStep (m : Bytes) (D : ℕ) (Q : List ℕ) (va p : ℕ) (g : Growth) (s : Mem) (g' : Growth) :
    Prop where
  maps : g.Maps va p g'
  grown : Grown m D Q g' (mapPage D va s)
  off : ∀ x, Off (D :: g'.tables) x → (mapPage D va s).ram x = s.ram x
  junk : ∀ W c, (∀ q ∈ W, q ∈ g'.rest) →
    mapPage D va (s.withJunk W c) = (mapPage D va s).withJunk W c

/-- A page is mapped in a table that is there. -/
lemma Grown.mapPage_old {rest : List ℕ} (hg : Ground D Q) (hfresh : Fresh m D (dirIdx va))
    (h : Grown m D Q g s) (hi : dirIdx va ∈ g.dirs) (hrest : g.rest = p :: rest) :
    ∃ g', MapStep m D Q va p g s g' := by
  have hva : va < 2 ^ 32 := by
    have hlt : va / 2 ^ 22 < 0x300 := hfresh.1
    omega
  have hpr : p ∈ g.rest := hrest ▸ List.mem_cons_self ..
  obtain ⟨hpage, -, -, hpf⟩ := h.of_rest hg hpr
  have hp := h.freeList_eq hrest
  obtain ⟨hni, -⟩ | ⟨-, T, hT, -, hpres, htgt⟩ := h.dir_cases hg hfresh
  · exact absurd hi hni
  have htake := h.take hrest
  have hset := Grown.setEntry (g := g.take p rest) hg hfresh hi (List.mem_cons_self ..)
    (fun v hv => hpf (h.frame v p hv)) htake
  have heq : mapPage D va s = entrySet D va p (allocPage s).2 := by
    rw [mapPage_of_present hva hpres, hp]
  refine ⟨(g.take p rest).setEntry va p, ⟨rfl, rfl, .inl ⟨hi, rfl, rfl, hrest⟩⟩, heq ▸ hset,
    fun x hx => ?_, fun W c hW => ?_⟩
  · rw [heq]
    exact entrySet_of_off (htgt ▸ hx T (List.mem_cons_of_mem _ hT))
  · obtain ⟨hWm, hDW, hTW, -⟩ := hset.junk_pages hg hW
    exact mapPage_withJunk_of_present hWm hg.mod hDW hva (hp ▸ hpage.mod) hpres (htgt ▸ hTW T hT)

/-- A page is mapped in a new table, the second free page. -/
lemma Grown.mapPage_new {rest : List ℕ} (hg : Ground D Q) (hfresh : Fresh m D (dirIdx va))
    (h : Grown m D Q g s) (hi : dirIdx va ∉ g.dirs) (hrest : g.rest = p :: t :: rest) :
    ∃ g', MapStep m D Q va p g s g' := by
  have hva : va < 2 ^ 32 := by
    have hlt : va / 2 ^ 22 < 0x300 := hfresh.1
    omega
  obtain ⟨hpage, -, -, hpf⟩ := h.of_rest hg (hrest ▸ List.mem_cons_self .. : p ∈ g.rest)
  have htr : t ∈ g.rest := by
    rw [hrest]
    exact List.mem_cons_of_mem _ (List.mem_cons_self ..)
  obtain ⟨htpage, -, -, -⟩ := h.of_rest hg htr
  have hp := h.freeList_eq hrest
  have hlink := h.freeList_next hrest
  obtain ⟨-, hnot⟩ | ⟨hi', -⟩ := h.dir_cases hg hfresh
  rotate_left
  · exact absurd hi' hi
  have htake := h.take hrest
  have hnew := Grown.newTable (g := g.take p (t :: rest)) hg hfresh hi htake rfl
  have hset := Grown.setEntry (g := (g.take p (t :: rest)).newTable (dirIdx va) t rest) hg hfresh
    (List.mem_cons_self ..) (List.mem_cons_self ..) (fun v hv => hpf (h.frame v p hv)) hnew
  have heq : mapPage D va s = entrySet D va p (tableMade D va 1 (allocPage s).2) := by
    rw [mapPage_of_not hva hnot (hlink ▸ htpage.mod) (hlink ▸ htpage.lt), hp]
  have htgt : target (entry (tableMade D va 1 (allocPage s).2).ram D (dirIdx va)) = t := by
    rw [tableMade_self, hlink, target_userItem htpage]
  refine ⟨((g.take p (t :: rest)).newTable (dirIdx va) t rest).setEntry va p,
    ⟨rfl, rfl, .inr ⟨hi, rfl, t, rfl, hrest⟩⟩, heq ▸ hset, fun x hx => ?_, fun W c hW => ?_⟩
  · have hxt : ¬ InPage t x := hx t (List.mem_cons_of_mem _ (List.mem_cons_self ..))
    have hxD : ¬ InPage D x := hx D (List.mem_cons_self ..)
    have hidx : dirIdx va < 0x300 := hfresh.1
    unfold InPage at hxD
    simp only [pageSize] at hxD
    rw [heq, entrySet_of_off (htgt ▸ hxt), tableMade_of_off (hlink ▸ hxt) (by omega)]
    rfl
  · obtain ⟨hWm, hDW, hTW, -⟩ := hset.junk_pages hg hW
    have htW : t ∉ W := hTW t (List.mem_cons_self ..)
    have hfilter : W.filter (· ≠ (allocPage s).2.freeList) = W := by
      rw [hlink, filter_ne_eq_self htW]
    have hjunk := @mapPage_withJunk_of_not D va s W c hWm hg.mod hDW hva (hp ▸ hpage.mod) hnot
      (hlink ▸ htpage)
    rwa [hfilter] at hjunk

/-- One more page can be mapped while there are pages left for it. -/
theorem Grown.mapPage (hg : Ground D Q) (hfresh : Fresh m D (dirIdx va)) (h : Grown m D Q g s)
    (hm : g.Mapped vas) (hroom : pagesFor (vas ++ [va]) ≤ Q.length) :
    ∃ p g', MapStep m D Q va p g s g' := by
  have hlen := h.length_rest hm
  rw [pagesFor_concat] at hroom
  by_cases hi : dirIdx va ∈ g.dirs
  · obtain ⟨p, rest, hrest⟩ := List.exists_cons_of_length_pos (l := g.rest) (by omega)
    obtain ⟨g', h'⟩ := h.mapPage_old hg hfresh hi hrest
    exact ⟨p, g', h'⟩
  · rw [if_neg ((hm.dirs _).not.mp hi)] at hroom
    obtain ⟨p, rest, hrest⟩ := List.exists_cons_of_length_pos (l := g.rest) (by omega)
    rw [hrest, List.length_cons] at hlen
    obtain ⟨t, rest, rfl⟩ := List.exists_cons_of_length_pos (l := rest) (by omega)
    obtain ⟨g', h'⟩ := h.mapPage_new hg hfresh hi hrest
    exact ⟨p, g', h'⟩

lemma MapStep.leads (hg : Ground D Q) (h : Grown m D Q g s) (hstep : MapStep m D Q va p g s g') :
    Leads m D Q (fun x => pageNo x = pageNo va) (fun s => some (Memory.mapPage D va s)) g s g'
      (Memory.mapPage D va s) := by
  refine ⟨rfl, hstep.grown, fun x hx => ?_, fun q hq => ?_, fun W c hW => congrArg some (hstep.junk W c hW)⟩
  · unfold Growth.image
    rw [hstep.maps.space, Function.update_of_ne hx]
    refine Option.map_congr fun q hq => hstep.off _ ?_
    obtain ⟨hqp, hqD, -, -⟩ := h.of_frame hg (h.frame _ q hq)
    have hqt : q ∉ g'.tables := by
      refine (hstep.grown.of_frame hg ?_).2.2.1
      rw [hstep.maps.frames]
      exact List.mem_cons_of_mem _ (h.frame _ q hq)
    refine off_of_not_mem (fun t ht => ?_) hqp.mod (Nat.mod_lt _ (by decide)) ?_
    · rcases List.mem_cons.mp ht with rfl | ht
      · exact hg.mod
      · exact (hstep.grown.of_table hg ht).1.mod
    · rw [List.mem_cons, not_or]
      exact ⟨hqD, hqt⟩
  · rcases hstep.maps.table with ⟨-, -, -, hrest⟩ | ⟨-, -, t, -, hrest⟩
    · rw [hrest]
      exact List.mem_cons_of_mem _ hq
    · rw [hrest]
      exact List.mem_cons_of_mem _ (List.mem_cons_of_mem _ hq)

/-- The pages `vas`, one after the other. -/
def mapAll (dir : ℕ) (vas : List ℕ) (s : Mem) : Mem := vas.foldl (fun s va => mapPage dir va s) s

/-- **Pages are mapped** one after the other while there are pages left for them. -/
theorem Grown.mapAll (hg : Ground D Q) (hfresh : ∀ va ∈ vas', Fresh m D (dirIdx va))
    (h : Grown m D Q g s) (hm : g.Mapped vas) (hroom : pagesFor (vas ++ vas') ≤ Q.length) :
    ∃ g', g'.Mapped (vas ++ vas') ∧ Leads m D Q (fun x => pageNo x ∈ vas'.map pageNo)
      (fun s => some (Memory.mapAll D vas' s)) g s g' (Memory.mapAll D vas' s) := by
  induction vas' generalizing g s vas with
  | nil => exact ⟨g, (List.append_nil vas).symm ▸ hm, Leads.skip h⟩
  | cons va vas' ih =>
    have hcons : vas ++ va :: vas' = (vas ++ [va]) ++ vas' := by rw [List.append_assoc]; rfl
    rw [hcons] at hroom ⊢
    obtain ⟨hva, hvas⟩ := List.forall_mem_cons.mp hfresh
    obtain ⟨p, g₁, hstep⟩ := h.mapPage hg hva hm (pagesFor_le_append.trans hroom)
    obtain ⟨g', hm', hleads⟩ := ih hvas hstep.grown (hstep.maps.mapped hm) hroom
    refine ⟨g', hm', ((hstep.leads hg h).comp hleads).mono fun x hx => ?_⟩
    rw [List.map_cons, List.mem_cons]
    exact hx

end Step

/-! ### The kernel half -/

section KernelHalf

variable {m : Bytes} {D q va j x : ℕ} {Q W : List ℕ} {g : Growth} {s : Mem} {c : Bytes}

/-- What has been taken off the free list is all that has been written. -/
lemma Grown.userOnly (h : Grown m D Q g s) : UserOnly Q D m s.ram := fun x hx hD =>
  h.off x (fun p hp => hx p (h.mem (List.mem_append_left _ hp))) hD

/-- A byte of a page that was not free, and not the directory, is as it was. -/
lemma Grown.byte_eq (hg : Ground D Q) (h : Grown m D Q g s) (hq : q % 4096 = 0) (hqQ : q ∉ Q)
    (hqD : q ≠ D) (hx : x < 4096) : s.ram (q + x) = m (q + x) := by
  have hD := hg.mod
  refine h.off _ (off_of_not_mem (fun p hp => ?_) hq hx fun hm => hqQ ?_) (by omega)
  · exact (h.pages hg).page p (List.mem_append_left _ hp) |>.mod
  · exact h.mem (List.mem_append_left _ hm)

lemma Grown.entry_eq (hg : Ground D Q) (h : Grown m D Q g s) (hq : q % 4096 = 0) (hqQ : q ∉ Q)
    (hqD : q ≠ D) (hj : j < 1024) : entry s.ram q j = entry m q j :=
  entry_congr hj fun _ hk => h.byte_eq hg hq hqQ hqD hk

/-- What lies in free pages does not matter to a walk that goes through none. -/
lemma walk_withJunk (hW : ∀ q ∈ W, q % 4096 = 0) (hD : D % 4096 = 0) (hDW : D ∉ W)
    (hi : dirIdx va < 1024)
    (ht : Present (entry m D (dirIdx va)) → target (entry m D (dirIdx va)) ∉ W) :
    walk (withJunk W c m) D va = walk m D va :=
  walk_congr (entry_withJunk hW hD hDW hi) fun hp =>
    entry_withJunk hW (target_mod _) (ht hp) tableIdx_lt

end KernelHalf

end Nbos.Memory
