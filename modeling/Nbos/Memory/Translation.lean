import Nbos.Memory.Space

/-!
# What `page_map` does to the translation of addresses

A directory whose tables are its own: `pageMap_spec` says what the walk of the processor gives for every
address once a page has been mapped, for the address that has been mapped and for all others.
-/

namespace Nbos.Memory

open Nbos.Lib Nbos.Kernel

/-- The present entries of the directory `dir` point to different tables, and none to itself. -/
structure Tables (m : Bytes) (dir : ℕ) : Prop where
  mod : dir % 4096 = 0
  self : ∀ i < 1024, Present (entry m dir i) → target (entry m dir i) ≠ dir
  distinct : ∀ i < 1024, ∀ j < 1024, Present (entry m dir i) → Present (entry m dir j) →
    target (entry m dir i) = target (entry m dir j) → i = j

/-- The page `p` is neither the directory nor one of its tables. -/
structure Unused (m : Bytes) (dir p : ℕ) : Prop where
  mod : p % 4096 = 0
  lt : p < 2 ^ 32
  ne : p ≠ dir
  tables : ∀ i < 1024, Present (entry m dir i) → target (entry m dir i) ≠ p

/-- What the entry of a table says of the page behind it. -/
structure Gives (pte phy privilege : ℕ) : Prop where
  frame : pte / 4096 * 4096 = phy
  present : pte % 2 = 1
  writable : pte / 2 % 2 = 1
  user : pte / 4 % 2 = privilege

section Translation

variable {m : Bytes} {dir va va' p phy privilege i j q T : ℕ} {s : Mem}

lemma gives_itemWord (hphy : phy % 4096 = 0) (hlt : phy < 2 ^ 32)
    (hpriv : privilege = pagePrivilegeSupervisor ∨ privilege = pagePrivilegeUser) :
    Gives (itemWord phy privilege) phy privilege := by
  simp only [pagePrivilegeSupervisor, pagePrivilegeUser] at hpriv
  unfold itemWord
  refine ⟨?_, ?_, ?_, ?_⟩ <;> omega

/-- `page_map` in a table that is there. -/
lemma pageMap_old (ht : Tables s.ram dir) (hva : va < 2 ^ 32)
    (hp : Present (entry s.ram dir (va / 2 ^ 22))) :
    (∀ va', va' / 2 ^ 12 = va / 2 ^ 12 →
      walk (pageMap dir va phy privilege s).ram dir va' = some (itemWord phy privilege)) ∧
    ∀ va' < 2 ^ 32, va' / 2 ^ 12 ≠ va / 2 ^ 12 →
      walk (pageMap dir va phy privilege s).ram dir va' = walk s.ram dir va' := by
  have hi : va / 2 ^ 22 < 1024 := by omega
  have hj : va / 2 ^ 12 % 1024 < 1024 := Nat.mod_lt _ (by decide)
  have hself := ht.self _ hi hp
  have hTm := target_mod (entry s.ram dir (va / 2 ^ 22))
  rw [pageMap_of_present hva hp]
  have hdir : ∀ i < 1024, entry (put32 s.ram (target (entry s.ram dir (va / 2 ^ 22)) +
      4 * (va / 2 ^ 12 % 1024)) (itemWord phy privilege)) dir i = entry s.ram dir i := fun i hi' =>
    entry_put32 hTm ht.mod hj hi' fun e => absurd e.symm hself
  refine ⟨fun va' hpage => ?_, fun va' hva' hpage => ?_⟩
  · have h22 : va' / 2 ^ 22 = va / 2 ^ 22 := by omega
    have h12 : va' / 2 ^ 12 % 1024 = va / 2 ^ 12 % 1024 := by rw [hpage]
    rw [walk_of_entries (T := target (entry s.ram dir (va / 2 ^ 22))) (w := itemWord phy privilege),
      if_pos present_itemWord]
    · rw [h22, hdir _ hi]
      exact hp
    · rw [h22, hdir _ hi]
    · rw [h12, entry, get32_put32, Nat.mod_eq_of_lt itemWord_lt]
  · have hi' : va' / 2 ^ 22 < 1024 := by omega
    refine walk_congr (hdir _ hi') fun hp' => ?_
    refine entry_put32 hTm (target_mod _) hj (Nat.mod_lt _ (by decide)) fun he hidx => hpage ?_
    -- one table and one entry of it mean one page
    have h22 := ht.distinct _ hi' _ hi hp' hp he
    omega

/-- The new table is behind the entry of the directory, and has no entry. -/
lemma tableMade_new (hnew : Unused s.ram dir s.freeList) (hD : dir % 4096 = 0) (hi : va / 2 ^ 22 < 1024)
    (hj : j < 1024) :
    Present (entry (tableMade dir va privilege s).ram dir (va / 2 ^ 22)) ∧
      target (entry (tableMade dir va privilege s).ram dir (va / 2 ^ 22)) = s.freeList ∧
      entry (tableMade dir va privilege s).ram s.freeList j = 0 := by
  obtain ⟨hF, hFlt, hFD, -⟩ := hnew
  have hself : entry (tableMade dir va privilege s).ram dir (va / 2 ^ 22) =
      itemWord (vir2Phy s.freeList) privilege := by
    rw [tableMade, entry, get32_put32, Nat.mod_eq_of_lt itemWord_lt]
  rw [hself]
  refine ⟨present_itemWord, target_itemWord hF hFlt, ?_⟩
  unfold tableMade
  rw [entry_put32 hD hF hi hj fun e => absurd e hFD, fill_eq, entry, get32_overlay_add (by
    simp only [pageSize]
    omega)]
  simp [get32]

lemma Tables.tableMade (ht : Tables s.ram dir) (hi : va / 2 ^ 22 < 1024)
    (hnew : Unused s.ram dir s.freeList) :
    Tables (Memory.tableMade dir va privilege s).ram dir := by
  obtain ⟨-, hself, -⟩ := @tableMade_new dir va privilege 0 s hnew ht.mod hi (by omega)
  have hother : ∀ i < 1024, i ≠ va / 2 ^ 22 →
      entry (Memory.tableMade dir va privilege s).ram dir i = entry s.ram dir i := fun i hi' hne =>
    entry_tableMade ht.mod hnew.mod ht.mod hnew.ne.symm hi hi' fun _ => hne
  refine ⟨ht.mod, fun i hi' hpi => ?_, fun i hi' j hj hpi hpj he => ?_⟩
  · by_cases hne : i = va / 2 ^ 22
    · rw [hne, hself]
      exact hnew.ne
    · rw [hother i hi' hne] at hpi ⊢
      exact ht.self i hi' hpi
  · by_cases hne : i = va / 2 ^ 22
    · by_cases hne' : j = va / 2 ^ 22
      · rw [hne, hne']
      · rw [hne, hself, hother j hj hne'] at he
        rw [hother j hj hne'] at hpj
        exact absurd he.symm (hnew.tables j hj hpj)
    · rw [hother i hi' hne] at hpi he
      by_cases hne' : j = va / 2 ^ 22
      · rw [hne', hself] at he
        exact absurd he (hnew.tables i hi' hpi)
      · rw [hother j hj hne'] at hpj he
        exact ht.distinct i hi' j hj hpi hpj he

/-- A table without entries translates nothing: all walks are as before. -/
lemma walk_tableMade (ht : Tables s.ram dir) (hi : va / 2 ^ 22 < 1024)
    (hp : ¬ Present (entry s.ram dir (va / 2 ^ 22))) (hnew : Unused s.ram dir s.freeList)
    (hva' : va' < 2 ^ 32) : walk (tableMade dir va privilege s).ram dir va' = walk s.ram dir va' := by
  have hi' : va' / 2 ^ 22 < 1024 := by omega
  have hj : va' / 2 ^ 12 % 1024 < 1024 := Nat.mod_lt _ (by decide)
  by_cases hne : va' / 2 ^ 22 = va / 2 ^ 22
  · obtain ⟨hpres, hself, hzero⟩ := @tableMade_new dir va privilege _ s hnew ht.mod hi hj
    rw [← hne] at hpres hself hp
    rw [walk_of_entries hpres hself hzero]
    unfold walk
    simp only
    rw [if_neg hp]
    rfl
  · refine walk_congr (entry_tableMade ht.mod hnew.mod ht.mod hnew.ne.symm hi hi' fun _ => hne) fun hp' => ?_
    refine entry_tableMade ht.mod hnew.mod (target_mod _) (hnew.tables _ hi' hp') hi hj fun e => ?_
    exact absurd e (ht.self _ hi' hp')

/-- `page_map` goes on as if the table had been there. -/
lemma pageMap_tableMade (hD : dir % 4096 = 0) (hva : va < 2 ^ 32)
    (hp : ¬ Present (entry s.ram dir (va / 2 ^ 22))) (hnew : Unused s.ram dir s.freeList) :
    pageMap dir va phy privilege s = pageMap dir va phy privilege (tableMade dir va privilege s) := by
  obtain ⟨hpres, hself, -⟩ := @tableMade_new dir va privilege 0 s hnew hD (by omega) (by omega)
  rw [pageMap_of_not hva hp hnew.mod hnew.lt, pageMap_of_present hva hpres, hself]
  rfl

/-- **`page_map` installs one translation**: every address of the page gets the frame, and every other
address of the 4 GiB has the translation it had. -/
theorem pageMap_spec (ht : Tables s.ram dir) (hva : va < 2 ^ 32) (hphy : phy % 4096 = 0)
    (hlt : phy < 2 ^ 32) (hpriv : privilege = pagePrivilegeSupervisor ∨ privilege = pagePrivilegeUser)
    (hnew : ¬ Present (entry s.ram dir (va / 2 ^ 22)) → Unused s.ram dir s.freeList) :
    (∀ va', va' / pageSize = va / pageSize →
      ∃ pte, walk (pageMap dir va phy privilege s).ram dir va' = some pte ∧ Gives pte phy privilege) ∧
    ∀ va' < 2 ^ 32, va' / pageSize ≠ va / pageSize →
      walk (pageMap dir va phy privilege s).ram dir va' = walk s.ram dir va' := by
  have hgives := gives_itemWord hphy hlt hpriv
  by_cases hp : Present (entry s.ram dir (va / 2 ^ 22))
  · obtain ⟨hsame, hother⟩ := @pageMap_old dir va phy privilege s ht hva hp
    exact ⟨fun va' hpage => ⟨_, hsame va' hpage, hgives⟩, hother⟩
  · have hnew := hnew hp
    have hi : va / 2 ^ 22 < 1024 := by omega
    obtain ⟨hpres, -⟩ := @tableMade_new dir va privilege 0 s hnew ht.mod hi (by omega)
    obtain ⟨hsame, hother⟩ := @pageMap_old dir va phy privilege _ (ht.tableMade hi hnew) hva hpres
    rw [pageMap_tableMade ht.mod hva hp hnew]
    refine ⟨fun va' hpage => ⟨_, hsame va' hpage, hgives⟩, fun va' hva' hpage => ?_⟩
    exact (hother va' hva' hpage).trans (walk_tableMade ht hi hp hnew hva')

theorem pageMap_spec_first : ∃ pte,
    walk (pageMap 0xc0100000 0x400000 0x300000 pagePrivilegeUser ⟨fun _ => 0, 0xc0200000⟩).ram 0xc0100000
      0x400123 = some pte ∧ Gives pte 0x300000 pagePrivilegeUser := by
  have hzero : ∀ i, ¬ Present (entry (fun _ => 0) 0xc0100000 i) := by
    intro i
    simp [entry, get32, Present]
  have ht : Tables (fun _ => 0) 0xc0100000 :=
    ⟨by decide, fun i _ hp => absurd hp (hzero i), fun i _ _ _ hp => absurd hp (hzero i)⟩
  have hnew : Unused (fun _ => 0) 0xc0100000 0xc0200000 :=
    ⟨by decide, by decide, by decide, fun i _ hp => absurd hp (hzero i)⟩
  have hspec := @pageMap_spec 0xc0100000 0x400000 0x300000 pagePrivilegeUser ⟨fun _ => 0, 0xc0200000⟩ ht
    (by decide) (by decide) (by decide) (.inr rfl) fun _ => hnew
  exact hspec.1 0x400123 (by decide)

end Translation

end Nbos.Memory
