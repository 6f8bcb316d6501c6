import Nbos.Memory.Paging

/-!
# Copying an address space

`copy_process_mem` of `syscall.c`: a new directory, a new table for every present directory entry
of the user half, a new page for every present table entry, all taken from the free list.

The result is read off the final memory. `CopiedTable` is the invariant of the inner loop and
`CopiedDir` that of the outer one: the pages the new structures point to are, in order, the pages
that have left the free list.
-/

namespace Nbos.Memory

open Nbos.Lib Nbos.Kernel

/-! ### The source -/

/-- The body of the loop over the entries of the new page table `T`. -/
def copyPage (T j : ℕ) (s : Mem) : Mem :=
  let ptr := T + 4 * j
  if (tableItem s.ram ptr).present = 1 then
    let (newPage, s) := allocPage s
    let oldPage := phy2Vir ((tableItem s.ram ptr).address <<< 12)
    let ram := memcopy s.ram oldPage newPage pageSize
    { s with ram := generatePageTableItem ram ptr (vir2Phy newPage) pagePrivilegeUser }
  else s

/-- The body of the loop over the entries of the new page directory `D`. -/
def copyTable (D i : ℕ) (s : Mem) : Mem :=
  let ptr := D + 4 * i
  if (dirItem s.ram ptr).present = 1 then
    let (newTable, s) := allocPage s
    let ram := fill s.ram newTable pageSize 0
    let oldTable := phy2Vir ((dirItem ram ptr).address <<< 12)
    let ram := memcopy ram oldTable newTable pageSize
    let ram := generatePageDirItem ram ptr (vir2Phy newTable) pagePrivilegeUser
    forRange 1024 (copyPage newTable) { s with ram := ram }
  else s

/-- What `copy_process_mem` does once it has a zeroed page for the new directory. -/
def copyDir (pagedir newDir : ℕ) (s : Mem) : Mem :=
  forRange 0x300 (copyTable newDir) { s with ram := memcopy s.ram pagedir newDir pageSize }

/-! ### The pages the loops take -/

/-- Distinct pages of the kernel window. -/
structure PageList (L : List ℕ) : Prop where
  page : ∀ p ∈ L, IsPage p
  nodup : L.Nodup

lemma PageList.append {L K : List ℕ} (h : PageList (L ++ K)) : PageList L ∧ PageList K ∧ L.Disjoint K :=
  ⟨⟨fun p hp => h.page p (List.mem_append_left _ hp), (List.nodup_append'.mp h.nodup).1⟩,
    ⟨fun p hp => h.page p (List.mem_append_right _ hp), (List.nodup_append'.mp h.nodup).2.1⟩,
    (List.nodup_append'.mp h.nodup).2.2⟩

lemma IsPage.mod {p : ℕ} (h : IsPage p) : p % 4096 = 0 := h.2.2

lemma IsPage.lt {p : ℕ} (h : IsPage p) : p < 2 ^ 32 := h.2.1

/-- The bytes off a set of pages. -/
def Off (L : List ℕ) (x : ℕ) : Prop := ∀ p ∈ L, ¬ InPage p x

/-- A byte of a page that is not listed is off the list. -/
lemma off_of_not_mem {L : List ℕ} {q k : ℕ} (hL : ∀ p ∈ L, p % 4096 = 0) (hq : q % 4096 = 0)
    (hk : k < 4096) (h : q ∉ L) : Off L (q + k) := fun p hp hpx =>
  h (eq_of_inPage (hL p hp) hq hpx ⟨by omega, by simp only [pageSize]; omega⟩ ▸ hp)

lemma not_inPage_of_ne {p q k : ℕ} (hp : p % 4096 = 0) (hq : q % 4096 = 0) (hk : k < 4096)
    (h : q ≠ p) : ¬ InPage p (q + k) := fun hpx =>
  h (eq_of_inPage hp hq hpx ⟨by omega, by simp only [pageSize]; omega⟩).symm

/-- An entry whose bytes are kept is kept. -/
lemma entry_congr {m m' : Bytes} {p j : ℕ} (hj : j < 1024)
    (h : ∀ k < 4096, m (p + k) = m' (p + k)) : entry m p j = entry m' p j :=
  get32_congr fun k hk => by
    rw [Nat.add_assoc]
    exact h _ (by omega)

/-! ### One page -/

lemma copyPage_of_not {T j : ℕ} {s : Mem} (h : ¬ Present (entry s.ram T j)) :
    copyPage T j s = s := if_neg h

lemma copyPage_of_present {T j : ℕ} {s : Mem} (h : Present (entry s.ram T j)) :
    copyPage T j s =
      ⟨put32 (memcopy s.ram (target (entry s.ram T j)) s.freeList pageSize) (T + 4 * j)
        (itemWord (vir2Phy s.freeList) 1), get32 s.ram s.freeList⟩ := by
  refine (if_pos h).trans ?_
  rw [generatePageTableItem_eq, tableItem_target]

section CopyPage

variable {T j F : ℕ} {s : Mem}

/-- What `copyPage` does with the page `F` it takes. -/
lemma copyPage_entry_self (h : Present (entry s.ram T j)) :
    entry (copyPage T j s).ram T j = itemWord (vir2Phy s.freeList) 1 := by
  rw [copyPage_of_present h, entry, get32_put32, Nat.mod_eq_of_lt itemWord_lt]

lemma copyPage_of_off {x : ℕ} (hT : x < T + 4 * j ∨ T + 4 * j + 4 ≤ x)
    (hF : ¬ InPage s.freeList x) : (copyPage T j s).ram x = s.ram x := by
  by_cases h : Present (entry s.ram T j)
  · rw [copyPage_of_present h]
    show put32 _ _ _ x = _
    rw [put32_of_not_mem hT, memcopy_of_not_mem (by unfold InPage at hF; omega)]
  · rw [copyPage_of_not h]

lemma copyPage_entry_of_ne {i : ℕ} (hT : T % 4096 = 0) (hF : s.freeList % 4096 = 0)
    (hTF : T ≠ s.freeList) (hi : i < 1024) (hne : i ≠ j) :
    entry (copyPage T j s).ram T i = entry s.ram T i := by
  refine get32_congr fun k hk => copyPage_of_off (by omega) ?_
  rw [Nat.add_assoc]
  exact not_inPage_of_ne hF hT (by omega) hTF

/-- A page is left alone by a copy into another one. -/
lemma copyPage_page {q k : ℕ} (hT : T % 4096 = 0) (hj : j < 1024) (hF : s.freeList % 4096 = 0)
    (hq : q % 4096 = 0) (hqT : q ≠ T) (hqF : q ≠ s.freeList) (hk : k < 4096) :
    (copyPage T j s).ram (q + k) = s.ram (q + k) :=
  copyPage_of_off (by omega) (not_inPage_of_ne hF hq hk hqF)

lemma copyPage_content {k : ℕ} (h : Present (entry s.ram T j)) (hj : j < 1024)
    (hT : T % 4096 = 0) (hF : s.freeList % 4096 = 0) (hTF : T ≠ s.freeList)
    (hsrc : target (entry s.ram T j) ≠ s.freeList) (hk : k < 4096) :
    (copyPage T j s).ram (s.freeList + k) = s.ram (target (entry s.ram T j) + k) := by
  have hm := target_mod (entry s.ram T j)
  rw [copyPage_of_present h]
  show put32 _ _ _ _ = _
  rw [put32_of_not_mem (by omega), memcopy_add (by omega) hk]

end CopyPage

/-! ### The inner loop -/

/-- The inner loop after `n` entries of the new table `T`, started in `s` with the free pages `L`. -/
structure CopiedTable (L : List ℕ) (t T : ℕ) (s : Mem) (n : ℕ) (s' : Mem) : Prop where
  free : ∃ rest, L = framesUpTo s'.ram T n ++ rest ∧ FreeList s' rest t
  present : ∀ j < 1024, Present (entry s'.ram T j) ↔ Present (entry s.ram T j)
  later : ∀ j, n ≤ j → j < 1024 → entry s'.ram T j = entry s.ram T j
  frame : ∀ x, ¬ InPage T x → Off L x → s'.ram x = s.ram x
  copied : ∀ j < n, Present (entry s.ram T j) → target (entry s.ram T j) ≠ T →
    target (entry s.ram T j) ∉ L → ∀ k < 4096,
      s'.ram (target (entry s'.ram T j) + k) = s.ram (target (entry s.ram T j) + k)

lemma length_framesUpTo_mono {m : Bytes} {T n n' : ℕ} (h : n ≤ n') :
    (framesUpTo m T n).length ≤ (framesUpTo m T n').length := by
  induction n', h using Nat.le_induction with
  | base => exact le_rfl
  | succ n' _ ih => rw [framesUpTo_succ, List.length_append]; omega

section CopyTable

variable {L : List ℕ} {t T : ℕ} {s : Mem}

/-- The free list lasts: before a present entry is copied, a page is left for it. -/
lemma CopiedTable.rest_ne_nil {n : ℕ} {s' : Mem} {rest : List ℕ} (h : CopiedTable L t T s n s')
    (hlen : (framesUpTo s.ram T 1024).length ≤ L.length) (hn : n < 1024)
    (hrest : L = framesUpTo s'.ram T n ++ rest) (hp : Present (entry s.ram T n)) : rest ≠ [] := by
  rintro rfl
  have h1 : (framesUpTo s'.ram T n).length = (framesUpTo s.ram T n).length :=
    length_framesUpTo fun j hj => h.present j (by omega)
  have h2 : (framesUpTo s.ram T (n + 1)).length ≤ (framesUpTo s.ram T 1024).length :=
    length_framesUpTo_mono (by omega)
  rw [framesUpTo_succ, List.length_append, length_frameAt, if_pos hp] at h2
  have h3 := congrArg List.length hrest
  simp only [List.append_nil] at h3
  omega

/-- The entry is present: a page leaves the free list for its copy. -/
lemma CopiedTable.step_present (hL : PageList L) (hT : T % 4096 = 0) (hTL : T ∉ L)
    (hlen : (framesUpTo s.ram T 1024).length ≤ L.length) {n : ℕ} (hn : n < 1024) {s' : Mem}
    (h : CopiedTable L t T s n s') (hp : Present (entry s.ram T n)) :
    CopiedTable L t T s (n + 1) (copyPage T n s') := by
  obtain ⟨rest, hrest, hfree⟩ := h.free
  have hnow : entry s'.ram T n = entry s.ram T n := h.later n le_rfl hn
  have hp' : Present (entry s'.ram T n) := hnow ▸ hp
  obtain ⟨F, rest, rfl⟩ := List.exists_cons_of_ne_nil (h.rest_ne_nil hlen hn hrest hp)
  obtain ⟨rfl, hfree⟩ := hfree
  set F := s'.freeList with hF
  have hFL : F ∈ L := hrest ▸ List.mem_append_right _ (List.mem_cons_self ..)
  have hFm : F % 4096 = 0 := (hL.page F hFL).mod
  have hTF : T ≠ F := fun e => hTL (e ▸ hFL)
  have hnd := hL.nodup
  rw [hrest] at hnd
  obtain ⟨hnd1, hnd2, hdis⟩ := List.nodup_append'.mp hnd
  obtain ⟨hFrest, -⟩ := List.nodup_cons.mp hnd2
  have hmodL : ∀ p ∈ L, p % 4096 = 0 := fun p hp => (hL.page p hp).mod
  have hself : entry (copyPage T n s').ram T n = itemWord (vir2Phy F) 1 := copyPage_entry_self hp'
  have hother : ∀ j < 1024, j ≠ n → entry (copyPage T n s').ram T j = entry s'.ram T j :=
    fun j hj hne => copyPage_entry_of_ne hT hFm hTF hj hne
  have hkept : ∀ p ∈ L, p ≠ F → ∀ k < 4096, (copyPage T n s').ram (p + k) = s'.ram (p + k) :=
    fun p hpL hpF k hk => copyPage_page hT hn hFm (hmodL p hpL) (fun e => hTL (e ▸ hpL)) hpF hk
  have htarget : target (entry (copyPage T n s').ram T n) = F := by
    rw [hself, target_itemWord hFm (hL.page F hFL).lt]
  have hframes : framesUpTo (copyPage T n s').ram T (n + 1) = framesUpTo s'.ram T n ++ [F] := by
    rw [framesUpTo_succ, framesUpTo_congr fun j hj => hother j (by omega) (by omega),
      frameAt_of_present (by rw [hself]; exact present_itemWord), htarget]
  refine ⟨⟨rest, by rw [hframes, hrest, List.append_assoc]; rfl, ?_⟩, ?_, ?_, ?_, ?_⟩
  · -- the links of the pages left are not touched
    refine FreeList.congr (s := (allocPage s').2) hfree (by rw [copyPage_of_present hp']; rfl) ?_
    intro p hpr
    have hpL : p ∈ L := hrest ▸ List.mem_append_right _ (List.mem_cons_of_mem _ hpr)
    have hpF : p ≠ F := fun e => hFrest (by rw [← e]; exact hpr)
    exact get32_congr fun k hk => hkept p hpL hpF k (by omega)
  · intro j hj
    by_cases hjn : j = n
    · subst hjn
      rw [hself]
      exact iff_of_true present_itemWord hp
    · rw [hother j hj hjn]
      exact h.present j hj
  · intro j hnj hj
    rw [hother j hj (by omega)]
    exact h.later j (by omega) hj
  · intro x hxT hxL
    rw [copyPage_of_off (by unfold InPage at hxT; simp only [pageSize] at hxT; omega)
      (hxL F hFL)]
    exact h.frame x hxT hxL
  · intro j hj hpj hjT hjL k hk
    have hsm := target_mod (entry s.ram T j)
    by_cases hjn : j = n
    · subst hjn
      have hsrc : target (entry s'.ram T j) ≠ F := by
        rw [hnow]
        exact fun e => hjL (e ▸ hFL)
      rw [htarget, copyPage_content hp' hn hT hFm hTF hsrc hk, hnow]
      exact h.frame _ (not_inPage_of_ne hT hsm hk hjT) (off_of_not_mem hmodL hsm hk hjL)
    · have hjn : j < n := by omega
      have hmem : target (entry s'.ram T j) ∈ framesUpTo s'.ram T n :=
        mem_framesUpTo.mpr ⟨j, hjn, (h.present j (by omega)).mpr hpj, rfl⟩
      rw [hother j (by omega) (by omega), ← h.copied j hjn hpj hjT hjL k hk]
      exact hkept _ (hrest ▸ List.mem_append_left _ hmem)
        (fun e => hdis hmem (e ▸ List.mem_cons_self ..)) k hk

theorem CopiedTable.step (hL : PageList L) (hT : T % 4096 = 0) (hTL : T ∉ L)
    (hlen : (framesUpTo s.ram T 1024).length ≤ L.length) {n : ℕ} (hn : n < 1024) {s' : Mem}
    (h : CopiedTable L t T s n s') : CopiedTable L t T s (n + 1) (copyPage T n s') := by
  by_cases hp : Present (entry s.ram T n)
  · exact h.step_present hL hT hTL hlen hn hp
  · -- nothing to copy
    obtain ⟨rest, hrest, hfree⟩ := h.free
    have hp' : ¬ Present (entry s'.ram T n) := by
      rw [h.later n le_rfl hn]
      exact hp
    rw [copyPage_of_not hp']
    refine ⟨⟨rest, ?_, hfree⟩, h.present, fun j hj => h.later j (by omega), h.frame, ?_⟩
    · rw [framesUpTo_succ, frameAt_of_not hp', List.append_nil]
      exact hrest
    · intro j hj hpj
      have : j ≠ n := fun e => hp (e ▸ hpj)
      exact h.copied j (by omega) hpj

theorem copiedTable (hL : PageList L) (hT : T % 4096 = 0) (hTL : T ∉ L)
    (hlen : (framesUpTo s.ram T 1024).length ≤ L.length) (hfree : FreeList s L t) :
    CopiedTable L t T s 1024 (forRange 1024 (copyPage T) s) := by
  refine forRange_inv (CopiedTable L t T s) ?_ fun n hn s' h => h.step hL hT hTL hlen hn
  exact ⟨⟨L, by simp [framesUpTo], hfree⟩, fun _ _ => Iff.rfl, fun _ _ _ => rfl,
    fun _ _ _ => rfl, fun j hj => absurd hj (by omega)⟩

end CopyTable

/-! ### One table -/

/-- The memory in which the inner loop for entry `i` of the directory `D` starts: the new table is
zeroed and overwritten with the old one, and the entry points to it. -/
def tableCopied (D i : ℕ) (s : Mem) : Mem :=
  let F := s.freeList
  ⟨put32 (memcopy (fill s.ram F pageSize 0) (target (entry s.ram D i)) F pageSize) (D + 4 * i)
    (itemWord (vir2Phy F) 1), get32 s.ram F⟩

section TableCopied

variable {D i : ℕ} {s : Mem}

lemma copyTable_of_not (h : ¬ Present (entry s.ram D i)) : copyTable D i s = s := if_neg h

lemma entry_fill {m : Bytes} {F : ℕ} (hD : D % 4096 = 0) (hF : F % 4096 = 0) (hDF : D ≠ F)
    (hi : i < 1024) : entry (fill m F pageSize 0) D i = entry m D i := by
  rw [fill_eq]
  exact get32_overlay_page hD hF hDF (by simp only [pageSize]; omega) le_rfl le_rfl

lemma copyTable_of_present (h : Present (entry s.ram D i)) (hD : D % 4096 = 0)
    (hF : s.freeList % 4096 = 0) (hDF : D ≠ s.freeList) (hi : i < 1024) :
    copyTable D i s = forRange 1024 (copyPage s.freeList) (tableCopied D i s) := by
  refine (if_pos h).trans ?_
  rw [generatePageDirItem_eq, dirItem_target, tableCopied, ← entry_fill hD hF hDF hi]

lemma tableCopied_entry_self :
    entry (tableCopied D i s).ram D i = itemWord (vir2Phy s.freeList) 1 := by
  rw [tableCopied, entry, get32_put32, Nat.mod_eq_of_lt itemWord_lt]

lemma tableCopied_of_off {x : ℕ} (hD : x < D + 4 * i ∨ D + 4 * i + 4 ≤ x)
    (hF : ¬ InPage s.freeList x) : (tableCopied D i s).ram x = s.ram x := by
  have hF' : x < s.freeList ∨ s.freeList + pageSize ≤ x := by unfold InPage at hF; omega
  show put32 _ _ _ x = _
  rw [put32_of_not_mem hD, memcopy_of_not_mem hF', fill_eq, overlay_of_not_mem hF']

/-- The new table starts as a copy of the old one. -/
lemma tableCopied_content {k : ℕ} (hi : i < 1024) (hD : D % 4096 = 0)
    (hF : s.freeList % 4096 = 0) (hDF : D ≠ s.freeList)
    (hsrc : target (entry s.ram D i) ≠ s.freeList) (hk : k < 4096) :
    (tableCopied D i s).ram (s.freeList + k) = s.ram (target (entry s.ram D i) + k) := by
  have hm := target_mod (entry s.ram D i)
  show put32 _ _ _ _ = _
  rw [put32_of_not_mem (by omega), memcopy_add (by omega) hk, fill_eq,
    overlay_of_not_mem (by simp only [pageSize]; omega)]

lemma tableCopied_frames (hi : i < 1024) (hD : D % 4096 = 0) (hF : s.freeList % 4096 = 0)
    (hDF : D ≠ s.freeList) (hsrc : target (entry s.ram D i) ≠ s.freeList) :
    ∀ j < 1024, entry (tableCopied D i s).ram s.freeList j =
      entry s.ram (target (entry s.ram D i)) j := fun j hj => get32_congr fun k hk => by
  rw [Nat.add_assoc, Nat.add_assoc]
  exact tableCopied_content hi hD hF hDF hsrc (by omega)

end TableCopied

/-! ### The outer loop -/

/-- The outer loop after `n` entries of the new directory `D`, started in `s` with the free pages
`L`. -/
structure CopiedDir (L : List ℕ) (t D : ℕ) (s : Mem) (n : ℕ) (s' : Mem) : Prop where
  free : ∃ rest, L = tablesUpTo s'.ram D n ++ rest ∧ FreeList s' rest t
  present : ∀ i < 1024, Present (entry s'.ram D i) ↔ Present (entry s.ram D i)
  later : ∀ i, n ≤ i → i < 1024 → entry s'.ram D i = entry s.ram D i
  frame : ∀ x, ¬ InPage D x → Off L x → s'.ram x = s.ram x
  tables : ∀ i < n, Present (entry s.ram D i) → ∀ j < 1024,
    (Present (entry s'.ram (target (entry s'.ram D i)) j) ↔
      Present (entry s.ram (target (entry s.ram D i)) j))
  pages : ∀ i < n, Present (entry s.ram D i) → ∀ j < 1024,
    Present (entry s.ram (target (entry s.ram D i)) j) →
    target (entry s.ram (target (entry s.ram D i)) j) ∉ D :: L → ∀ k < 4096,
      s'.ram (target (entry s'.ram (target (entry s'.ram D i)) j) + k) =
        s.ram (target (entry s.ram (target (entry s.ram D i)) j) + k)

lemma length_tableAt {m : Bytes} {dir i : ℕ} (h : Present (entry m dir i)) :
    (tableAt m dir i).length = (framesUpTo m (target (entry m dir i)) 1024).length + 1 := by
  rw [tableAt_of_present h, List.length_cons]

lemma tablesUpTo_sublist {m : Bytes} {dir n n' : ℕ} (h : n ≤ n') :
    (tablesUpTo m dir n).Sublist (tablesUpTo m dir n') := by
  induction n', h using Nat.le_induction with
  | base => exact List.Sublist.refl _
  | succ n' _ ih =>
    rw [tablesUpTo_succ]
    exact ih.trans (List.sublist_append_left _ _)

/-- Two entries of a directory point to two tables. -/
lemma table_ne {m : Bytes} {dir i j n : ℕ} (hnd : (tablesUpTo m dir n).Nodup) (hij : i < j)
    (hj : j < n) (hpi : Present (entry m dir i)) (hpj : Present (entry m dir j)) :
    target (entry m dir i) ≠ target (entry m dir j) := by
  have hsub : (tablesUpTo m dir (j + 1)).Sublist (tablesUpTo m dir n) := tablesUpTo_sublist hj
  have hnd' := hsub.nodup hnd
  rw [tablesUpTo_succ] at hnd'
  have hi : target (entry m dir i) ∈ tablesUpTo m dir j :=
    mem_tablesUpTo.mpr ⟨i, hij, hpi, .inl rfl⟩
  intro he
  refine (List.nodup_append'.mp hnd').2.2 hi ?_
  rw [he, tableAt_of_present hpj]
  exact List.mem_cons_self ..

/-- How many pages a directory reaches depends on the present bits alone. -/
lemma length_tablesUpTo {m m' : Bytes} {dir dir' n : ℕ}
    (hd : ∀ i < n, Present (entry m' dir' i) ↔ Present (entry m dir i))
    (ht : ∀ i < n, Present (entry m dir i) → ∀ j < 1024,
      (Present (entry m' (target (entry m' dir' i)) j) ↔
        Present (entry m (target (entry m dir i)) j))) :
    (tablesUpTo m' dir' n).length = (tablesUpTo m dir n).length := by
  induction n with
  | zero => simp [tablesUpTo]
  | succ n ih =>
    rw [tablesUpTo_succ, tablesUpTo_succ, List.length_append, List.length_append,
      ih (fun i hi => hd i (by omega)) fun i hi => ht i (by omega)]
    by_cases hp : Present (entry m dir n)
    · have hp' := (hd n (by omega)).mpr hp
      rw [length_tableAt hp, length_tableAt hp', length_framesUpTo (ht n (by omega) hp)]
    · have hp' := mt (hd n (by omega)).mp hp
      rw [tableAt_of_not hp, tableAt_of_not hp']

section CopyDir

variable {L : List ℕ} {t D n : ℕ} {s s' : Mem}

/-- As many pages have left the free list as the first `n` entries of the old directory reach. -/
lemma CopiedDir.length (h : CopiedDir L t D s n s') (hn : n ≤ 1024) :
    (tablesUpTo s'.ram D n).length = (tablesUpTo s.ram D n).length :=
  length_tablesUpTo (fun i hi => h.present i (by omega)) h.tables

/-- The free list lasts: before a present table is copied, a page is left for it and for each of
its pages. -/
lemma CopiedDir.room {rest : List ℕ} (h : CopiedDir L t D s n s')
    (hlen : (tablesUpTo s.ram D 0x300).length ≤ L.length) (hn : n < 0x300)
    (hrest : L = tablesUpTo s'.ram D n ++ rest) (hp : Present (entry s.ram D n)) :
    (framesUpTo s.ram (target (entry s.ram D n)) 1024).length + 1 ≤ rest.length := by
  have h1 := h.length (by omega)
  have hsub : (tablesUpTo s.ram D (n + 1)).Sublist (tablesUpTo s.ram D 0x300) :=
    tablesUpTo_sublist hn
  have h2 := hsub.length_le
  rw [tablesUpTo_succ, List.length_append, length_tableAt hp] at h2
  have h3 := congrArg List.length hrest
  rw [List.length_append] at h3
  omega

/-- What `copyTable` makes of `s`, with the pages `rest` behind the first free one: the new table is
that page, and the inner loop fills it. -/
structure TableAdded (rest : List ℕ) (t D n : ℕ) (s s' : Mem) : Prop where
  loop : CopiedTable rest t s.freeList (tableCopied D n s) 1024 s'
  start : ∀ j < 1024, entry (tableCopied D n s).ram s.freeList j =
    entry s.ram (target (entry s.ram D n)) j
  self : entry s'.ram D n = itemWord (vir2Phy s.freeList) 1
  keep : ∀ x, (x < D + 4 * n ∨ D + 4 * n + 4 ≤ x) → ¬ InPage s.freeList x → Off rest x →
    s'.ram x = s.ram x

/-- A page of its own is left for the table. -/
lemma copyTable_added {rest : List ℕ} (hL : PageList (s.freeList :: rest))
    (hfree : FreeList s (s.freeList :: rest) t) (hD : D % 4096 = 0) (hDL : D ∉ s.freeList :: rest)
    (hn : n < 0x300) (hp : Present (entry s.ram D n))
    (hT : target (entry s.ram D n) ≠ s.freeList)
    (hlen : (framesUpTo s.ram (target (entry s.ram D n)) 1024).length ≤ rest.length) :
    TableAdded rest t D n s (copyTable D n s) := by
  obtain ⟨-, hfree⟩ := hfree
  obtain ⟨hFrest, hnd⟩ := List.nodup_cons.mp hL.nodup
  obtain ⟨hDF, hDrest⟩ := List.ne_and_not_mem_of_not_mem_cons hDL
  have hFm : s.freeList % 4096 = 0 := (hL.page _ (List.mem_cons_self ..)).mod
  have hpage : ∀ p ∈ rest, IsPage p := fun p hp => hL.page p (List.mem_cons_of_mem _ hp)
  have hstart := tableCopied_frames (by omega) hD hFm hDF hT
  have hfree' : FreeList (tableCopied D n s) rest t := by
    refine FreeList.congr (s := (allocPage s).2) hfree rfl fun p hpr => get32_congr fun k hk => ?_
    have hpD : p ≠ D := fun e => hDrest (e ▸ hpr)
    have hpF : p ≠ s.freeList := fun e => hFrest (by rw [← e]; exact hpr)
    have hpm := (hpage p hpr).mod
    exact tableCopied_of_off (by omega) (not_inPage_of_ne hFm hpm (by omega) hpF)
  have c := copiedTable ⟨hpage, hnd⟩ hFm hFrest (by rwa [framesUpTo_congr hstart]) hfree'
  rw [← copyTable_of_present hp hD hFm hDF (by omega)] at c
  refine ⟨c, hstart, ?_, fun x hxD hxF hxr => ?_⟩
  · rw [← tableCopied_entry_self (D := D) (i := n)]
    refine get32_congr fun k hk => ?_
    rw [Nat.add_assoc]
    exact c.frame _ (not_inPage_of_ne hFm hD (by omega) hDF)
      (off_of_not_mem (fun p hp => (hpage p hp).mod) hD (by omega) hDrest)
  · rw [c.frame x hxF hxr, tableCopied_of_off hxD hxF]

/-- The pages that were there stay as they are. -/
lemma TableAdded.page {rest : List ℕ} {q k : ℕ} (h : TableAdded rest t D n s s')
    (hL : PageList (s.freeList :: rest)) (hD : D % 4096 = 0) (hn : n < 0x300) (hq : q % 4096 = 0)
    (hqD : q ≠ D) (hqL : q ∉ s.freeList :: rest) (hk : k < 4096) : s'.ram (q + k) = s.ram (q + k) := by
  obtain ⟨hqF, hqr⟩ := List.ne_and_not_mem_of_not_mem_cons hqL
  have hFm := (hL.page _ (List.mem_cons_self ..)).mod
  exact h.keep _ (by omega) (not_inPage_of_ne hFm hq hk hqF)
    (off_of_not_mem (fun p hp => (hL.page p (List.mem_cons_of_mem _ hp)).mod) hq hk hqr)

/-- The other entries of the directory stay as well. -/
lemma TableAdded.other {rest : List ℕ} {i : ℕ} (h : TableAdded rest t D n s s')
    (hL : PageList (s.freeList :: rest)) (hD : D % 4096 = 0) (hDL : D ∉ s.freeList :: rest)
    (hi : i < 1024) (hne : i ≠ n) : entry s'.ram D i = entry s.ram D i := by
  obtain ⟨hDF, hDr⟩ := List.ne_and_not_mem_of_not_mem_cons hDL
  have hFm := (hL.page _ (List.mem_cons_self ..)).mod
  refine get32_congr fun k hk => ?_
  rw [Nat.add_assoc]
  exact h.keep _ (by omega) (not_inPage_of_ne hFm hD (by omega) hDF)
    (off_of_not_mem (fun p hp => (hL.page p (List.mem_cons_of_mem _ hp)).mod) hD (by omega) hDr)

/-- Pages that are not involved are as they were at the start. -/
lemma CopiedDir.old {q k : ℕ} (h : CopiedDir L t D s n s') (hL : PageList L) (hD : D % 4096 = 0)
    (hq : q % 4096 = 0) (hqD : q ≠ D) (hqL : q ∉ L) (hk : k < 4096) :
    s'.ram (q + k) = s.ram (q + k) :=
  h.frame _ (not_inPage_of_ne hD hq hk hqD) (off_of_not_mem (fun p hp => (hL.page p hp).mod) hq hk hqL)

/-- A present entry gets a table, and the inner loop begins with the entries of the old one. -/
lemma CopiedDir.added (hL : PageList L) (hD : D % 4096 = 0) (hDL : D ∉ L)
    (hsrc : target (entry s.ram D n) ∉ D :: L)
    (hlen : (tablesUpTo s.ram D 0x300).length ≤ L.length) (hn : n < 0x300)
    (h : CopiedDir L t D s n s') (hp : Present (entry s.ram D n)) :
    ∃ rest, L = tablesUpTo s'.ram D n ++ s'.freeList :: rest ∧
      TableAdded rest t D n s' (copyTable D n s') ∧
      ∀ j < 1024, entry (tableCopied D n s').ram s'.freeList j =
        entry s.ram (target (entry s.ram D n)) j := by
  obtain ⟨rest, hrest, hfree⟩ := h.free
  have hnow : entry s'.ram D n = entry s.ram D n := h.later n le_rfl (by omega)
  have hroom := h.room hlen hn hrest hp
  obtain ⟨F, rest, rfl⟩ := List.exists_cons_of_ne_nil (l := rest) (by rintro rfl; simp at hroom)
  obtain ⟨rfl, -⟩ := id hfree
  have hsub : ∀ p ∈ s'.freeList :: rest, p ∈ L := fun p hp => hrest ▸ List.mem_append_right _ hp
  have hLs : PageList (tablesUpTo s'.ram D n ++ s'.freeList :: rest) := hrest ▸ hL
  set T := target (entry s.ram D n) with hT
  obtain ⟨hTD, hTL⟩ : T ≠ D ∧ T ∉ L := List.ne_and_not_mem_of_not_mem_cons hsrc
  have htable : ∀ j < 1024, entry s'.ram T j = entry s.ram T j := fun j hj =>
    entry_congr hj fun k hk => h.old hL hD (target_mod _) hTD hTL hk
  have hadd : TableAdded rest t D n s' (copyTable D n s') := by
    refine copyTable_added hLs.append.2.1 hfree hD (fun hm => hDL (hsub D hm)) hn (hnow ▸ hp) ?_ ?_ <;>
      rw [hnow]
    · intro e
      refine hTL ?_
      rw [hT, e]
      exact hsub _ (List.mem_cons_self ..)
    · rw [← hT, framesUpTo_congr htable]
      simp only [List.length_cons] at hroom
      omega
  refine ⟨rest, hrest, hadd, fun j hj => ?_⟩
  rw [hadd.start j hj, hnow]
  exact htable j hj

theorem CopiedDir.step_present (hL : PageList L) (hD : D % 4096 = 0) (hDL : D ∉ L)
    (hsrc : ∀ i < 0x300, Present (entry s.ram D i) → target (entry s.ram D i) ∉ D :: L)
    (hlen : (tablesUpTo s.ram D 0x300).length ≤ L.length) (hn : n < 0x300)
    (h : CopiedDir L t D s n s') (hp : Present (entry s.ram D n)) :
    CopiedDir L t D s (n + 1) (copyTable D n s') := by
  obtain ⟨rest, hrest, hadd, hstart⟩ := h.added hL hD hDL (hsrc n hn hp) hlen hn hp
  have hmodL : ∀ p ∈ L, p % 4096 = 0 := fun p hp => (hL.page p hp).mod
  have hsub : ∀ p ∈ s'.freeList :: rest, p ∈ L := fun p hp => hrest ▸ List.mem_append_right _ hp
  have hLs : PageList (tablesUpTo s'.ram D n ++ s'.freeList :: rest) := hrest ▸ hL
  obtain ⟨-, hLr, hdis⟩ := hLs.append
  have hDr : D ∉ s'.freeList :: rest := fun hm => hDL (hsub D hm)
  set F := s'.freeList with hF
  have hFL : F ∈ L := hsub F (List.mem_cons_self ..)
  set T := target (entry s.ram D n) with hT
  have c := hadd.loop
  generalize copyTable D n s' = s₂ at c hadd ⊢
  -- the pages taken before stay as they are, and so do the other entries
  have htaken : ∀ q ∈ tablesUpTo s'.ram D n, ∀ k < 4096, s₂.ram (q + k) = s'.ram (q + k) := by
    intro q hq k hk
    have hqL : q ∈ L := hrest ▸ List.mem_append_left _ hq
    exact hadd.page hLr hD hn (hmodL q hqL) (fun e => hDL (e ▸ hqL)) (fun e => hdis hq e) hk
  have hother : ∀ i < 1024, i ≠ n → entry s₂.ram D i = entry s'.ram D i := fun i hi hne =>
    hadd.other hLr hD hDr hi hne
  have hself := hadd.self
  have htarget : target (entry s₂.ram D n) = F := by
    rw [hself, target_itemWord (hmodL F hFL) (hL.page F hFL).lt]
  have hmem : ∀ i < n, Present (entry s.ram D i) →
      target (entry s'.ram D i) ∈ tablesUpTo s'.ram D n := fun i hi hpi =>
    mem_tablesUpTo.mpr ⟨i, hi, (h.present i (by omega)).mpr hpi, .inl rfl⟩
  have htable : ∀ i < n, Present (entry s.ram D i) → ∀ j < 1024,
      entry s₂.ram (target (entry s₂.ram D i)) j = entry s'.ram (target (entry s'.ram D i)) j := by
    intro i hi hpi j hj
    rw [hother i (by omega) (by omega)]
    exact entry_congr hj (htaken _ (hmem i hi hpi))
  refine ⟨?_, ?_, ?_, ?_, ?_, ?_⟩
  · obtain ⟨rest', hrest', hfree₂⟩ := c.free
    refine ⟨rest', ?_, hfree₂⟩
    have hpres : Present (entry s₂.ram D n) := by rw [hself]; exact present_itemWord
    have hsame : tablesUpTo s₂.ram D n = tablesUpTo s'.ram D n := by
      refine tablesUpTo_congr (fun i hi => hother i (by omega) (by omega)) fun i hi hpi j hj => ?_
      exact entry_congr hj (htaken _ (hmem i hi ((h.present i (by omega)).mp hpi)))
    rw [tablesUpTo_succ, hsame, tableAt_of_present hpres, htarget, hrest, hrest',
      List.append_assoc, List.cons_append]
  · intro i hi
    by_cases hin : i = n
    · subst hin
      rw [hself]
      exact iff_of_true present_itemWord hp
    · rw [hother i hi hin]
      exact h.present i hi
  · intro i hni hi
    rw [hother i hi (by omega)]
    exact h.later i (by omega) hi
  · intro x hxD hxL
    have hxD' : x < D + 4 * n ∨ D + 4 * n + 4 ≤ x := by
      unfold InPage at hxD
      simp only [pageSize] at hxD
      omega
    rw [hadd.keep x hxD' (hxL F hFL) fun p hp => hxL p (hsub p (List.mem_cons_of_mem _ hp))]
    exact h.frame x hxD hxL
  · intro i hi hpi j hj
    by_cases hin : i = n
    · subst hin
      rw [htarget, c.present j hj, hstart j hj]
    · rw [htable i (by omega) hpi j hj]
      exact h.tables i (by omega) hpi j hj
  · intro i hi hpi j hj hpj hsrc k hk
    by_cases hin : i = n
    · subst hin
      -- the inner loop copied this page out of memory that it left alone
      obtain ⟨hqD, hqL⟩ : target (entry s.ram T j) ≠ D ∧ target (entry s.ram T j) ∉ L :=
        List.ne_and_not_mem_of_not_mem_cons hsrc
      have hqF : target (entry s.ram T j) ≠ F := fun e => hqL (e ▸ hFL)
      have hqm := target_mod (entry s.ram T j)
      have hcopy := c.copied j hj (by rw [hstart j hj]; exact hpj) (by rw [hstart j hj]; exact hqF)
        (by rw [hstart j hj]; exact fun e => hqL (hsub _ (List.mem_cons_of_mem _ e))) k hk
      rw [htarget, hcopy, hstart j hj, tableCopied_of_off (by omega)
        (not_inPage_of_ne (hmodL F hFL) hqm hk hqF)]
      exact h.old hL hD hqm hqD hqL hk
    · have hin : i < n := by omega
      rw [htable i hin hpi j hj, ← h.pages i hin hpi j hj hpj hsrc k hk]
      refine htaken _ (mem_tablesUpTo.mpr ⟨i, hin, (h.present i (by omega)).mpr hpi, .inr ?_⟩) k hk
      exact mem_framesUpTo.mpr ⟨j, hj, (h.tables i hin hpi j hj).mpr hpj, rfl⟩

theorem CopiedDir.step (hL : PageList L) (hD : D % 4096 = 0) (hDL : D ∉ L)
    (hsrc : ∀ i < 0x300, Present (entry s.ram D i) → target (entry s.ram D i) ∉ D :: L)
    (hlen : (tablesUpTo s.ram D 0x300).length ≤ L.length) (hn : n < 0x300)
    (h : CopiedDir L t D s n s') : CopiedDir L t D s (n + 1) (copyTable D n s') := by
  by_cases hp : Present (entry s.ram D n)
  · exact h.step_present hL hD hDL hsrc hlen hn hp
  · have hnow : entry s'.ram D n = entry s.ram D n := h.later n le_rfl (by omega)
    have hp' : ¬ Present (entry s'.ram D n) := hnow ▸ hp
    have hne : ∀ i < n + 1, Present (entry s.ram D i) → i < n := fun i hi hpi => by
      have : i ≠ n := fun e => hp (e ▸ hpi)
      omega
    obtain ⟨rest, hrest, hfree⟩ := h.free
    rw [copyTable_of_not hp']
    refine ⟨⟨rest, ?_, hfree⟩, h.present, fun i hi => h.later i (by omega), h.frame,
      fun i hi hpi => h.tables i (hne i hi hpi) hpi, fun i hi hpi => h.pages i (hne i hi hpi) hpi⟩
    rw [tablesUpTo_succ, tableAt_of_not hp', List.append_nil]
    exact hrest

theorem copiedDir (hL : PageList L) (hD : D % 4096 = 0) (hDL : D ∉ L)
    (hsrc : ∀ i < 0x300, Present (entry s.ram D i) → target (entry s.ram D i) ∉ D :: L)
    (hlen : (tablesUpTo s.ram D 0x300).length ≤ L.length) (hfree : FreeList s L t) :
    CopiedDir L t D s 0x300 (forRange 0x300 (copyTable D) s) := by
  refine forRange_inv (CopiedDir L t D s) ?_ fun n hn s' h => h.step hL hD hDL hsrc hlen hn
  exact ⟨⟨L, by simp [tablesUpTo], hfree⟩, fun _ _ => Iff.rfl, fun _ _ _ => rfl, fun _ _ _ => rfl,
    fun i hi => absurd hi (by omega), fun i hi => absurd hi (by omega)⟩

end CopyDir

/-! ### The whole copy -/

/-- The address space below the new directory `D`, copied from the one below `P`: what is in `s'`
after the copy, started in `s` with the free pages `L`. -/
structure Copied (L : List ℕ) (t P D : ℕ) (s s' : Mem) : Prop where
  free : ∃ rest, L = userPages s'.ram D ++ rest ∧ FreeList s' rest t
  frame : ∀ x, Off L x → s'.ram x = s.ram x
  kernelHalf : ∀ i, 0x300 ≤ i → i < 1024 → entry s'.ram D i = entry s.ram P i
  present : ∀ i < 1024, Present (entry s'.ram D i) ↔ Present (entry s.ram P i)
  tables : ∀ i < 0x300, Present (entry s.ram P i) → ∀ j < 1024,
    (Present (entry s'.ram (target (entry s'.ram D i)) j) ↔
      Present (entry s.ram (target (entry s.ram P i)) j))
  pages : ∀ i < 0x300, Present (entry s.ram P i) → ∀ j < 1024,
    Present (entry s.ram (target (entry s.ram P i)) j) →
    target (entry s.ram (target (entry s.ram P i)) j) ∉ L → ∀ k < 4096,
      s'.ram (target (entry s'.ram (target (entry s'.ram D i)) j) + k) =
        s.ram (target (entry s.ram (target (entry s.ram P i)) j) + k)

section Copied

variable {L : List ℕ} {t P : ℕ} {s : Mem}

/-- The memory in which the outer loop starts, when the directory `P` is copied. -/
def dirCopied (P : ℕ) (s : Mem) : Mem :=
  ⟨memcopy (fill s.ram s.freeList pageSize 0) P s.freeList pageSize, get32 s.ram s.freeList⟩

lemma dirCopied_of_not_inPage {x : ℕ} (h : ¬ InPage s.freeList x) :
    (dirCopied P s).ram x = s.ram x := by
  have h' : x < s.freeList ∨ s.freeList + pageSize ≤ x := by unfold InPage at h; omega
  simp only [dirCopied]
  rw [memcopy_of_not_mem h', fill_eq, overlay_of_not_mem h']

lemma dirCopied_entry {i : ℕ} (hP : P % 4096 = 0) (hF : s.freeList % 4096 = 0)
    (hPF : P ≠ s.freeList) (hi : i < 1024) :
    entry (dirCopied P s).ram s.freeList i = entry s.ram P i := by
  refine get32_congr fun k hk => ?_
  simp only [dirCopied, Nat.add_assoc]
  rw [memcopy_add (by simp only [pageSize]; omega) (by simp only [pageSize]; omega), fill_eq,
    overlay_of_not_mem (by simp only [pageSize]; omega)]

lemma copyDir_eq : copyDir P s.freeList
    { (allocPage s).2 with ram := fill s.ram s.freeList pageSize 0 } =
      forRange 0x300 (copyTable s.freeList) (dirCopied P s) := by
  rw [copyDir, dirCopied, allocPage]

/-- **`copy_process_mem` copies the address space**, as long as the directory and its tables are not
on the free list and the free list is long enough. -/
theorem copied (hL : PageList L) (hfree : FreeList s L t) (hP : P % 4096 = 0) (hPL : P ∉ L)
    (hsrc : ∀ i < 0x300, Present (entry s.ram P i) → target (entry s.ram P i) ∉ L)
    (hlen : (userPages s.ram P).length ≤ L.length) :
    Copied L t P s.freeList s (copyDir P s.freeList
      { (allocPage s).2 with ram := fill s.ram s.freeList pageSize 0 }) := by
  obtain ⟨F, L, rfl⟩ := List.exists_cons_of_ne_nil (l := L) (by rintro rfl; simp [userPages] at hlen)
  obtain ⟨rfl, hfree⟩ := hfree
  set F := s.freeList with hF
  have hFm : F % 4096 = 0 := (hL.page F (List.mem_cons_self ..)).mod
  have hPF : P ≠ F := fun e => hPL (e ▸ List.mem_cons_self ..)
  obtain ⟨hFL, hnd⟩ := List.nodup_cons.mp hL.nodup
  have hLt : PageList L := ⟨fun p hp => hL.page p (List.mem_cons_of_mem _ hp), hnd⟩
  have hmodL : ∀ p ∈ L, p % 4096 = 0 := fun p hp => (hLt.page p hp).mod
  have hdir : ∀ i < 1024, entry (dirCopied P s).ram F i = entry s.ram P i := fun i hi =>
    dirCopied_entry hP hFm hPF hi
  have hpage : ∀ q, q % 4096 = 0 → q ≠ F → ∀ k < 4096, (dirCopied P s).ram (q + k) = s.ram (q + k) :=
    fun q hq hqF k hk => dirCopied_of_not_inPage (not_inPage_of_ne hFm hq hk hqF)
  have hneF : ∀ i < 0x300, Present (entry s.ram P i) → target (entry s.ram P i) ≠ F :=
    fun i hi hp e => hsrc i hi hp (e ▸ List.mem_cons_self ..)
  have htable : ∀ i < 0x300, Present (entry s.ram P i) → ∀ j < 1024,
      entry (dirCopied P s).ram (target (entry s.ram P i)) j =
        entry s.ram (target (entry s.ram P i)) j := fun i hi hp j hj =>
    entry_congr hj (hpage _ (target_mod _) (hneF i hi hp))
  have hsame : tablesUpTo (dirCopied P s).ram F 0x300 = tablesUpTo s.ram P 0x300 := by
    refine List.flatMap_congr fun i hi => ?_
    have hi := List.mem_range.mp hi
    rw [tableAt, tableAt, hdir i (by omega)]
    split
    · rename_i hp
      rw [framesUpTo_congr (htable i hi hp)]
    · rfl
  have hfree' : FreeList (dirCopied P s) L t := by
    refine FreeList.congr (s := (allocPage s).2) hfree rfl fun p hp => get32_congr fun k hk => ?_
    exact hpage p (hmodL p hp) (fun e => hFL (by rw [← e]; exact hp)) k (by omega)
  have c : CopiedDir L t F (dirCopied P s) 0x300 (forRange 0x300 (copyTable F) (dirCopied P s)) := by
    refine copiedDir hLt hFm hFL ?_ (by rw [hsame]; simpa [userPages] using hlen) hfree'
    intro i hi hp
    rw [hdir i (by omega)] at hp ⊢
    rw [List.mem_cons, not_or]
    exact ⟨hneF i hi hp, fun h => hsrc i hi hp (List.mem_cons_of_mem _ h)⟩
  rw [copyDir_eq]
  generalize forRange 0x300 (copyTable F) (dirCopied P s) = s' at c
  refine ⟨?_, ?_, ?_, ?_, ?_, ?_⟩
  · obtain ⟨rest, hrest, hfree⟩ := c.free
    exact ⟨rest, by rw [userPages, List.cons_append, ← hrest], hfree⟩
  · intro x hx
    rw [c.frame x (hx F (List.mem_cons_self ..)) fun p hp => hx p (List.mem_cons_of_mem _ hp)]
    exact dirCopied_of_not_inPage (hx F (List.mem_cons_self ..))
  · intro i hi hi'
    rw [c.later i hi hi', hdir i hi']
  · intro i hi
    rw [c.present i hi, hdir i hi]
  · intro i hi hp j hj
    rw [← hdir i (by omega)] at hp
    rw [c.tables i hi hp j hj, hdir i (by omega)]
    rw [hdir i (by omega)] at hp
    rw [htable i hi hp j hj]
  · intro i hi hp j hj hpj hq k hk
    have hqF : target (entry s.ram (target (entry s.ram P i)) j) ≠ F :=
      fun e => hq (e ▸ List.mem_cons_self ..)
    have hkeep := htable i hi hp j hj
    rw [← hpage _ (target_mod _) hqF k hk]
    rw [← hkeep] at hpj hq ⊢
    rw [← hdir i (by omega)] at hp hpj hq ⊢
    exact c.pages i hi hp j hj hpj hq k hk

/-- The copy has as many pages. -/
lemma Copied.length {D : ℕ} {s' : Mem} (c : Copied L t P D s s') :
    (userPages s'.ram D).length = (userPages s.ram P).length := by
  rw [userPages, userPages, List.length_cons, List.length_cons,
    length_tablesUpTo (fun i hi => c.present i (by omega)) c.tables]

/-- The walks of the two directories. -/
lemma Copied.isSome_walk {D : ℕ} {s' : Mem} (c : Copied L t P D s s') {va : ℕ} (hva : va < kernelVirBase) :
    (walk s'.ram D va).isSome = (walk s.ram P va).isSome := by
  have hi : va / 2 ^ 22 < 0x300 := by simp only [kernelVirBase] at hva; omega
  have hj : va / 2 ^ 12 % 1024 < 1024 := Nat.mod_lt _ (by decide)
  simp only [walk]
  by_cases hp : Present (entry s.ram P (va / 2 ^ 22))
  · rw [if_pos ((c.present _ (by omega)).mpr hp), if_pos hp]
    by_cases hpj : Present (entry s.ram (target (entry s.ram P (va / 2 ^ 22))) (va / 2 ^ 12 % 1024))
    · rw [if_pos ((c.tables _ hi hp _ hj).mpr hpj), if_pos hpj]
      rfl
    · rw [if_neg (fun h => hpj ((c.tables _ hi hp _ hj).mp h)), if_neg hpj]
  · rw [if_neg (fun h => hp ((c.present _ (by omega)).mp h)), if_neg hp]

end Copied

end Nbos.Memory
