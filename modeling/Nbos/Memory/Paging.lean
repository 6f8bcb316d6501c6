import Nbos.Memory.Alloc

/-!
# Page directories and page tables

The bit fields `page_dir_item_t` and `page_table_item_t` of `kernel.h`, the functions of `memory.c`
that write them, and the walk of the processor over the raw 32-bit entries.

A directory or a table is a page, and `entry m p i` is its `i`-th word. `target` is the page an
entry points to, as the kernel addresses it. `userPages m dir` lists the directory and all that is
reachable from its user half through present entries.
-/

namespace Nbos.Memory

open Nbos.Lib Nbos.Kernel

/-! ### The source -/

/-- `struct page_dir_item_t`. -/
structure PageDirItem where
  present : ℕ
  type : ℕ
  privilege : ℕ
  pwt : ℕ
  pcd : ℕ
  accessed : ℕ
  ignore2 : ℕ
  pat : ℕ
  ignore1 : ℕ
  address : ℕ

/-- `struct page_table_item_t`. -/
structure PageTableItem where
  present : ℕ
  type : ℕ
  privilege : ℕ
  pwt : ℕ
  pcd : ℕ
  accessed : ℕ
  d : ℕ
  pat : ℕ
  g : ℕ
  ignore : ℕ
  address : ℕ

/-- The fields of a directory entry in their word, first field lowest. -/
def PageDirItem.toWord (i : PageDirItem) : ℕ :=
  i.present % 2 + 2 * (i.type % 2) + 4 * (i.privilege % 2) + 8 * (i.pwt % 2) + 16 * (i.pcd % 2) +
    32 * (i.accessed % 2) + 64 * (i.ignore2 % 2) + 128 * (i.pat % 2) + 256 * (i.ignore1 % 16) +
    4096 * (i.address % 2 ^ 20)

def PageDirItem.ofWord (w : ℕ) : PageDirItem :=
  { present := w % 2, type := w / 2 % 2, privilege := w / 4 % 2, pwt := w / 8 % 2,
    pcd := w / 16 % 2, accessed := w / 32 % 2, ignore2 := w / 64 % 2, pat := w / 128 % 2,
    ignore1 := w / 256 % 16, address := w / 4096 % 2 ^ 20 }

/-- The fields of a table entry in their word, first field lowest. -/
def PageTableItem.toWord (i : PageTableItem) : ℕ :=
  i.present % 2 + 2 * (i.type % 2) + 4 * (i.privilege % 2) + 8 * (i.pwt % 2) + 16 * (i.pcd % 2) +
    32 * (i.accessed % 2) + 64 * (i.d % 2) + 128 * (i.pat % 2) + 256 * (i.g % 2) +
    512 * (i.ignore % 8) + 4096 * (i.address % 2 ^ 20)

def PageTableItem.ofWord (w : ℕ) : PageTableItem :=
  { present := w % 2, type := w / 2 % 2, privilege := w / 4 % 2, pwt := w / 8 % 2,
    pcd := w / 16 % 2, accessed := w / 32 % 2, d := w / 64 % 2, pat := w / 128 % 2,
    g := w / 256 % 2, ignore := w / 512 % 8, address := w / 4096 % 2 ^ 20 }

/-- The directory entry at `ptr`. -/
def dirItem (m : Bytes) (ptr : ℕ) : PageDirItem := PageDirItem.ofWord (get32 m ptr)

/-- The table entry at `ptr`. -/
def tableItem (m : Bytes) (ptr : ℕ) : PageTableItem := PageTableItem.ofWord (get32 m ptr)

/-- `generate_page_dir_item`. -/
def generatePageDirItem (m : Bytes) (ptr pageTablePhyPtr pagePrivilege : ℕ) : Bytes :=
  put32 m ptr (PageDirItem.toWord
    { address := pageTablePhyPtr >>> 12, ignore1 := 0, pat := 0, ignore2 := 0, accessed := 0,
      pcd := 0, pwt := 0, privilege := pagePrivilege, type := 1, present := 1 })

/-- `generate_page_table_item`. -/
def generatePageTableItem (m : Bytes) (ptr pagePhyPtr pagePrivilege : ℕ) : Bytes :=
  put32 m ptr (PageTableItem.toWord
    { address := pagePhyPtr >>> 12, ignore := 0, g := 0, pat := 0, d := 0, accessed := 0,
      pcd := 0, pwt := 0, privilege := pagePrivilege, type := 1, present := 1 })

/-- `page_map`, in the directory at `pagedir`. -/
def pageMap (pagedir virAddr phyAddr pagePrivilege : ℕ) (s : Mem) : Mem :=
  let pageDirIdx := (virAddr &&& 0xffc00000) >>> 22
  let pde := pagedir + 4 * pageDirIdx
  -- the directory entry is missing: a new table, zeroed
  let s :=
    if (dirItem s.ram pde).present = 0 then
      let (pageTable, s) := allocPage s
      let ram := fill s.ram pageTable pageSize 0
      { s with ram := generatePageDirItem ram pde (vir2Phy pageTable) pagePrivilege }
    else s
  let baseTable := phy2Vir ((dirItem s.ram pde).address <<< 12)
  let pageTableIdx := (virAddr &&& 0x003ff000) >>> 12
  { s with ram := generatePageTableItem s.ram (baseTable + 4 * pageTableIdx) phyAddr pagePrivilege }

/-! ### Raw entries -/

/-- The `i`-th entry of the directory or table at `p`. -/
abbrev entry (m : Bytes) (p i : ℕ) : ℕ := get32 m (p + 4 * i)

/-- Bit 0 of an entry. -/
def Present (w : ℕ) : Prop := w % 2 = 1

instance : DecidablePred Present := fun w => inferInstanceAs (Decidable (w % 2 = 1))

/-- The page an entry points to, as the kernel addresses it. -/
def target (w : ℕ) : ℕ := phy2Vir (w / 4096 * 4096)

/-- The word the kernel writes for a page at physical address `phy`: present and writable. -/
def itemWord (phy privilege : ℕ) : ℕ := phy / 4096 % 2 ^ 20 * 4096 + 4 * (privilege % 2) + 3

section Entries

variable {m : Bytes} {w p phy privilege ptr : ℕ}

lemma dirItem_present : (dirItem m ptr).present = get32 m ptr % 2 := rfl

lemma dirItem_target : phy2Vir ((dirItem m ptr).address <<< 12) = target (get32 m ptr) := by
  have h := get32_lt m ptr
  rw [target, Nat.shiftLeft_eq]
  show phy2Vir (get32 m ptr / 4096 % 2 ^ 20 * 2 ^ 12) = _
  rw [Nat.mod_eq_of_lt (by omega)]

lemma tableItem_target : phy2Vir ((tableItem m ptr).address <<< 12) = target (get32 m ptr) :=
  dirItem_target

lemma generatePageDirItem_eq :
    generatePageDirItem m ptr phy privilege = put32 m ptr (itemWord phy privilege) := by
  simp only [generatePageDirItem, PageDirItem.toWord, itemWord, Nat.shiftRight_eq_div_pow]
  congr 1
  omega

lemma generatePageTableItem_eq :
    generatePageTableItem m ptr phy privilege = put32 m ptr (itemWord phy privilege) := by
  simp only [generatePageTableItem, PageTableItem.toWord, itemWord, Nat.shiftRight_eq_div_pow]
  congr 1
  omega

lemma itemWord_lt : itemWord phy privilege < 2 ^ 32 := by
  unfold itemWord
  omega

lemma present_itemWord : Present (itemWord phy privilege) := by
  unfold itemWord Present
  omega

/-- The entry written for a page points to it. -/
lemma target_itemWord (hp : p % 4096 = 0) (hlt : p < 2 ^ 32) :
    target (itemWord (vir2Phy p) privilege) = p := by
  simp only [target, itemWord, vir2Phy, phy2Vir, kernelVirBase]
  omega

lemma target_lt (w : ℕ) : target w < 2 ^ 32 := by
  rw [target]
  exact Nat.mod_lt _ (Nat.two_pow_pos 32)

lemma target_mod (w : ℕ) : target w % 4096 = 0 := by
  simp only [target, phy2Vir, kernelVirBase]
  omega

end Entries

-- from here on an entry is known by the lemmas above
attribute [irreducible] target itemWord

/-! ### The walk -/

/-- The two-level walk of the processor for the address `va`: the table entry, when both entries on
the way are present. -/
def walk (m : Bytes) (dir va : ℕ) : Option ℕ :=
  let pde := entry m dir (va / 2 ^ 22)
  if Present pde then
    let pte := entry m (target pde) (va / 2 ^ 12 % 1024)
    if Present pte then some pte else none
  else none

section Walk

variable {m m' : Bytes} {dir va pte T w : ℕ}

lemma walk_eq_some (h : walk m dir va = some pte) :
    Present (entry m dir (va / 2 ^ 22)) ∧
      Present (entry m (target (entry m dir (va / 2 ^ 22))) (va / 2 ^ 12 % 1024)) ∧
      pte = entry m (target (entry m dir (va / 2 ^ 22))) (va / 2 ^ 12 % 1024) := by
  simp only [walk] at h
  split at h
  · rename_i hp
    split at h
    · rename_i hpj
      exact ⟨hp, hpj, (Option.some_inj.mp h).symm⟩
    · cases h
  · cases h

/-- The walk of an address whose entries are known. -/
lemma walk_of_entries (hd : Present (entry m dir (va / 2 ^ 22)))
    (ht : target (entry m dir (va / 2 ^ 22)) = T) (hw : entry m T (va / 2 ^ 12 % 1024) = w) :
    walk m dir va = if Present w then some w else none := by
  unfold walk
  simp only
  rw [if_pos hd, ht, hw]

/-- Equal entries on the way give equal walks. -/
lemma walk_congr (hd : entry m' dir (va / 2 ^ 22) = entry m dir (va / 2 ^ 22))
    (ht : Present (entry m dir (va / 2 ^ 22)) →
      entry m' (target (entry m dir (va / 2 ^ 22))) (va / 2 ^ 12 % 1024) =
        entry m (target (entry m dir (va / 2 ^ 22))) (va / 2 ^ 12 % 1024)) :
    walk m' dir va = walk m dir va := by
  unfold walk
  simp only [hd]
  split
  · rename_i hp
    rw [ht hp]
  · rfl

end Walk

/-! ### The pages of an address space -/

/-- The page behind the entry `j` of the table `T`, if it is present. -/
def frameAt (m : Bytes) (T j : ℕ) : List ℕ :=
  if Present (entry m T j) then [target (entry m T j)] else []

/-- The pages behind the first `n` entries of a table. -/
def framesUpTo (m : Bytes) (T n : ℕ) : List ℕ := (List.range n).flatMap (frameAt m T)

/-- The table behind the entry `i` of the directory `dir` and its pages. -/
def tableAt (m : Bytes) (dir i : ℕ) : List ℕ :=
  if Present (entry m dir i) then
    target (entry m dir i) :: framesUpTo m (target (entry m dir i)) 1024
  else []

/-- The tables behind the first `n` entries of a directory, with their pages. -/
def tablesUpTo (m : Bytes) (dir n : ℕ) : List ℕ := (List.range n).flatMap (tableAt m dir)

/-- The directory, and all that is reachable from its user half through present entries. -/
def userPages (m : Bytes) (dir : ℕ) : List ℕ := dir :: tablesUpTo m dir 0x300

section Pages

variable {m m' : Bytes} {T T' dir i n p x : ℕ}

lemma framesUpTo_succ : framesUpTo m T (n + 1) = framesUpTo m T n ++ frameAt m T n := by
  simp [framesUpTo, List.range_succ]

lemma tablesUpTo_succ : tablesUpTo m dir (n + 1) = tablesUpTo m dir n ++ tableAt m dir n := by
  simp [tablesUpTo, List.range_succ]

lemma frameAt_of_present (h : Present (entry m T n)) : frameAt m T n = [target (entry m T n)] :=
  if_pos h

lemma frameAt_of_not (h : ¬ Present (entry m T n)) : frameAt m T n = [] := if_neg h

lemma length_frameAt : (frameAt m T n).length = if Present (entry m T n) then 1 else 0 := by
  unfold frameAt
  split <;> rfl

lemma tableAt_of_present (h : Present (entry m dir i)) :
    tableAt m dir i = target (entry m dir i) :: framesUpTo m (target (entry m dir i)) 1024 :=
  if_pos h

lemma tableAt_of_not (h : ¬ Present (entry m dir i)) : tableAt m dir i = [] := if_neg h

lemma mem_framesUpTo :
    p ∈ framesUpTo m T n ↔ ∃ j < n, Present (entry m T j) ∧ p = target (entry m T j) := by
  simp only [framesUpTo, List.mem_flatMap, List.mem_range, frameAt]
  refine exists_congr fun j => and_congr_right fun _ => ?_
  split
  · rename_i h
    simp only [List.mem_singleton, h, true_and]
  · rename_i h
    simp only [List.not_mem_nil, h, false_and]

lemma mem_tablesUpTo :
    p ∈ tablesUpTo m dir n ↔ ∃ i < n, Present (entry m dir i) ∧
      (p = target (entry m dir i) ∨ p ∈ framesUpTo m (target (entry m dir i)) 1024) := by
  simp only [tablesUpTo, List.mem_flatMap, List.mem_range, tableAt]
  refine exists_congr fun i => and_congr_right fun _ => ?_
  split
  · rename_i h
    simp only [List.mem_cons, h, true_and]
  · rename_i h
    simp only [List.not_mem_nil, h, false_and]

lemma tablesUpTo_eq_nil : tablesUpTo m dir n = [] ↔ ∀ i < n, ¬ Present (entry m dir i) := by
  simp only [tablesUpTo, List.flatMap_eq_nil_iff, List.mem_range]
  refine forall₂_congr fun i _ => ?_
  by_cases hp : Present (entry m dir i)
  · simp [tableAt_of_present hp, hp]
  · simp [tableAt_of_not hp, hp]

lemma mod_of_mem_framesUpTo (h : p ∈ framesUpTo m T n) : p % 4096 = 0 := by
  obtain ⟨j, -, -, rfl⟩ := mem_framesUpTo.mp h
  exact target_mod _

lemma mod_of_mem_tablesUpTo (h : p ∈ tablesUpTo m dir n) : p % 4096 = 0 := by
  obtain ⟨i, -, -, rfl | h⟩ := mem_tablesUpTo.mp h
  · exact target_mod _
  · exact mod_of_mem_framesUpTo h

lemma framesUpTo_congr (h : ∀ j < n, entry m T j = entry m' T' j) :
    framesUpTo m T n = framesUpTo m' T' n := by
  refine List.flatMap_congr fun j hj => ?_
  rw [frameAt, frameAt, h j (List.mem_range.mp hj)]

/-- The pages of an address space are read off the directory and its present tables. -/
lemma tablesUpTo_congr (hd : ∀ i < n, entry m dir i = entry m' dir i)
    (ht : ∀ i < n, Present (entry m' dir i) → ∀ j < 1024,
      entry m (target (entry m' dir i)) j = entry m' (target (entry m' dir i)) j) :
    tablesUpTo m dir n = tablesUpTo m' dir n := by
  refine List.flatMap_congr fun i hi => ?_
  have hi := List.mem_range.mp hi
  rw [tableAt, tableAt, hd i hi]
  split
  · rename_i hp
    rw [framesUpTo_congr (ht i hi hp)]
  · rfl

/-- How many pages a table reaches depends on the present bits alone. -/
lemma length_framesUpTo (h : ∀ j < n, Present (entry m T j) ↔ Present (entry m' T' j)) :
    (framesUpTo m T n).length = (framesUpTo m' T' n).length := by
  induction n with
  | zero => simp [framesUpTo]
  | succ n ih =>
    rw [framesUpTo_succ, framesUpTo_succ, List.length_append, List.length_append,
      ih fun j hj => h j (by omega), length_frameAt, length_frameAt]
    simp only [h n (by omega)]

lemma length_framesUpTo_le : (framesUpTo m T n).length ≤ n := by
  induction n with
  | zero => simp [framesUpTo]
  | succ n ih =>
    have hle : (frameAt m T n).length ≤ 1 := by
      rw [length_frameAt]
      split <;> omega
    rw [framesUpTo_succ, List.length_append]
    omega

lemma table_mem_userPages (hi : i < 0x300) (hp : Present (entry m dir i)) :
    target (entry m dir i) ∈ userPages m dir :=
  List.mem_cons_of_mem _ (mem_tablesUpTo.mpr ⟨i, hi, hp, .inl rfl⟩)

lemma frame_mem_userPages {j : ℕ} (hi : i < 0x300) (hp : Present (entry m dir i))
    (hj : j < 1024) (hpj : Present (entry m (target (entry m dir i)) j)) :
    target (entry m (target (entry m dir i)) j) ∈ userPages m dir :=
  List.mem_cons_of_mem _ (mem_tablesUpTo.mpr ⟨i, hi, hp, .inr (mem_framesUpTo.mpr ⟨j, hj, hpj, rfl⟩)⟩)

end Pages

end Nbos.Memory
