import Nbos.Memory.Fork

/-!
# Pages for programs

A program reaches the pages that both entries on the way admit: for user mode (bit 2), and for writes
(bit 1). `copy_process_mem` writes every entry of the new tables so that it does, whatever the old ones
have (`copied_open`).
-/

namespace Nbos.Memory

open Nbos.Lib Nbos.Kernel

/-- The entry admits writes, and user mode. -/
def UserWritable (w : ℕ) : Prop := w / 2 % 2 = 1 ∧ w / 4 % 2 = 1

instance : DecidablePred UserWritable := fun w =>
  inferInstanceAs (Decidable (w / 2 % 2 = 1 ∧ w / 4 % 2 = 1))

/-- The page that the processor finds for a write in user mode. -/
def userWalk (m : Bytes) (dir va : ℕ) : Option ℕ :=
  if UserWritable (entry m dir (va / 2 ^ 22)) then
    (walk m dir va).bind fun pte => if UserWritable pte then some (target pte) else none
  else none

/-- What is present behind the first `n` entries of a directory is for programs. -/
def OpenUpTo (m : Bytes) (dir n : ℕ) : Prop :=
  ∀ i < n, Present (entry m dir i) → UserWritable (entry m dir i) ∧
    ∀ j < 1024, Present (entry m (target (entry m dir i)) j) →
      UserWritable (entry m (target (entry m dir i)) j)

section Open

variable {m m' : Bytes} {L rest : List ℕ} {t T D P F n dir va : ℕ} {s s' : Mem}

lemma userWritable_itemWord {phy : ℕ} : UserWritable (itemWord phy 1) := by
  unfold UserWritable itemWord
  omega

/-- Behind entries that are all for programs, what is mapped can be written. -/
lemma OpenUpTo.userWalk (h : OpenUpTo m dir 0x300) (hva : va < kernelVirBase) :
    userWalk m dir va = (walk m dir va).map target := by
  simp only [kernelVirBase] at hva
  unfold Memory.userWalk
  cases hw : walk m dir va with
  | none => split <;> rfl
  | some pte =>
    obtain ⟨hi, hj, rfl⟩ := walk_eq_some hw
    obtain ⟨hpde, hpte⟩ := h _ (by omega) hi
    rw [if_pos hpde, Option.bind_some, if_pos (hpte _ (Nat.mod_lt _ (by omega)) hj)]
    rfl

/-- It depends on the directory and its tables. -/
lemma OpenUpTo.congr (h : OpenUpTo m dir n) (hd : ∀ i < n, entry m' dir i = entry m dir i)
    (ht : ∀ i < n, Present (entry m dir i) → ∀ j < 1024,
      entry m' (target (entry m dir i)) j = entry m (target (entry m dir i)) j) : OpenUpTo m' dir n := by
  intro i hi hp
  rw [hd i hi] at hp ⊢
  obtain ⟨hpde, hpte⟩ := h i hi hp
  refine ⟨hpde, fun j hj hpj => ?_⟩
  rw [ht i hi hp j hj] at hpj ⊢
  exact hpte j hj hpj

/-! ### One table -/

/-- The inner loop, step by step. -/
lemma openTable_step (hL : PageList L) (hT : T % 4096 = 0) (hTL : T ∉ L)
    (hlen : (framesUpTo s.ram T 1024).length ≤ L.length) (hn : n < 1024)
    (h : CopiedTable L t T s n s')
    (hopen : ∀ j < n, Present (entry s'.ram T j) → UserWritable (entry s'.ram T j)) :
    ∀ j < n + 1, Present (entry (copyPage T n s').ram T j) →
      UserWritable (entry (copyPage T n s').ram T j) := by
  intro j hj hpj
  by_cases hp : Present (entry s'.ram T n)
  · by_cases hjn : j = n
    · rw [hjn, copyPage_entry_self hp]
      exact userWritable_itemWord
    · obtain ⟨rest, hrest, hfree⟩ := h.free
      have hp' : Present (entry s.ram T n) := (h.present n hn).mp hp
      obtain ⟨F, rest, rfl⟩ := List.exists_cons_of_ne_nil (h.rest_ne_nil hlen hn hrest hp')
      obtain ⟨rfl, -⟩ := hfree
      have hFL : s'.freeList ∈ L := hrest ▸ List.mem_append_right _ (List.mem_cons_self ..)
      have hkeep : entry (copyPage T n s').ram T j = entry s'.ram T j :=
        copyPage_entry_of_ne hT (hL.page _ hFL).mod (fun e => hTL (e ▸ hFL)) (by omega) hjn
      rw [hkeep] at hpj ⊢
      exact hopen j (by omega) hpj
  · rw [copyPage_of_not hp] at hpj ⊢
    have hjn : j ≠ n := fun e => hp (e ▸ hpj)
    exact hopen j (by omega) hpj

lemma openTable (hL : PageList L) (hT : T % 4096 = 0) (hTL : T ∉ L)
    (hlen : (framesUpTo s.ram T 1024).length ≤ L.length) (hfree : FreeList s L t) :
    ∀ j < 1024, Present (entry (forRange 1024 (copyPage T) s).ram T j) →
      UserWritable (entry (forRange 1024 (copyPage T) s).ram T j) := by
  refine (forRange_inv (fun n s' => CopiedTable L t T s n s' ∧
    ∀ j < n, Present (entry s'.ram T j) → UserWritable (entry s'.ram T j)) ⟨?_, ?_⟩ ?_).2
  · exact ⟨⟨L, by simp [framesUpTo], hfree⟩, fun _ _ => Iff.rfl, fun _ _ _ => rfl,
      fun _ _ _ => rfl, fun j hj => absurd hj (by omega)⟩
  · exact fun j hj => absurd hj (by omega)
  · rintro n hn s' ⟨h, hopen⟩
    exact ⟨h.step hL hT hTL hlen hn, openTable_step hL hT hTL hlen hn h hopen⟩

/-- The new table of a directory. -/
lemma openTable_added (hL : PageList (s.freeList :: rest)) (hfree : FreeList s (s.freeList :: rest) t)
    (hD : D % 4096 = 0) (hDL : D ∉ s.freeList :: rest) (hn : n < 0x300) (hp : Present (entry s.ram D n))
    (hstart : ∀ j < 1024, entry (tableCopied D n s).ram s.freeList j =
      entry s.ram (target (entry s.ram D n)) j)
    (hlen : (framesUpTo s.ram (target (entry s.ram D n)) 1024).length ≤ rest.length) :
    ∀ j < 1024, Present (entry (copyTable D n s).ram s.freeList j) →
      UserWritable (entry (copyTable D n s).ram s.freeList j) := by
  obtain ⟨-, hfree⟩ := hfree
  obtain ⟨hFrest, hnd⟩ := List.nodup_cons.mp hL.nodup
  obtain ⟨hDF, hDrest⟩ := List.ne_and_not_mem_of_not_mem_cons hDL
  have hFm : s.freeList % 4096 = 0 := (hL.page _ (List.mem_cons_self ..)).mod
  have hpage : ∀ p ∈ rest, IsPage p := fun p hp => hL.page p (List.mem_cons_of_mem _ hp)
  have hfree' : FreeList (tableCopied D n s) rest t := by
    refine FreeList.congr (s := (allocPage s).2) hfree rfl fun p hpr => get32_congr fun k hk => ?_
    have hpD : p ≠ D := fun e => hDrest (e ▸ hpr)
    have hpF : p ≠ s.freeList := fun e => hFrest (by rw [← e]; exact hpr)
    have hpm := (hpage p hpr).mod
    exact tableCopied_of_off (by omega) (not_inPage_of_ne hFm hpm (by omega) hpF)
  rw [copyTable_of_present hp hD hFm hDF (by omega)]
  exact openTable ⟨hpage, hnd⟩ hFm hFrest (by rwa [framesUpTo_congr hstart]) hfree'

/-! ### The directory -/

/-- The outer loop, step by step. -/
lemma openDir_step (hL : PageList L) (hD : D % 4096 = 0) (hDL : D ∉ L)
    (hsrc : ∀ i < 0x300, Present (entry s.ram D i) → target (entry s.ram D i) ∉ D :: L)
    (hlen : (tablesUpTo s.ram D 0x300).length ≤ L.length) (hn : n < 0x300)
    (h : CopiedDir L t D s n s') (hopen : OpenUpTo s'.ram D n) :
    OpenUpTo (copyTable D n s').ram D (n + 1) := by
  by_cases hp : Present (entry s.ram D n)
  · obtain ⟨rest, hrest, hadd, hstart⟩ := h.added hL hD hDL (hsrc n hn hp) hlen hn hp
    have hroom := h.room hlen hn hrest hp
    have hnow : entry s'.ram D n = entry s.ram D n := h.later n le_rfl (by omega)
    have hsub : ∀ p ∈ s'.freeList :: rest, p ∈ L := fun p hp => hrest ▸ List.mem_append_right _ hp
    have hLs : PageList (tablesUpTo s'.ram D n ++ s'.freeList :: rest) := hrest ▸ hL
    obtain ⟨-, hLr, hdis⟩ := hLs.append
    have hDr : D ∉ s'.freeList :: rest := fun hm => hDL (hsub D hm)
    have hFL : s'.freeList ∈ L := hsub _ (List.mem_cons_self ..)
    have hfree : FreeList s' (s'.freeList :: rest) t := by
      obtain ⟨rest', hrest', hfree⟩ := h.free
      rwa [← List.append_cancel_left (hrest'.symm.trans hrest)]
    have htable : ∀ j < 1024, Present (entry (copyTable D n s').ram s'.freeList j) →
        UserWritable (entry (copyTable D n s').ram s'.freeList j) := by
      refine openTable_added hLr hfree hD hDr hn (hnow ▸ hp) hadd.start ?_
      rw [← framesUpTo_congr hadd.start, framesUpTo_congr hstart]
      simp only [List.length_cons] at hroom
      omega
    -- the tables that were made before stay as they are
    have hold : OpenUpTo (copyTable D n s').ram D n := by
      refine hopen.congr (fun i hi => hadd.other hLr hD hDr (by omega) (by omega)) fun i hi hpi j hj => ?_
      have hmem : target (entry s'.ram D i) ∈ tablesUpTo s'.ram D n :=
        mem_tablesUpTo.mpr ⟨i, hi, hpi, .inl rfl⟩
      have hmemL : target (entry s'.ram D i) ∈ L := hrest ▸ List.mem_append_left _ hmem
      exact entry_congr hj fun k hk => hadd.page hLr hD hn (target_mod _) (fun e => hDL (e ▸ hmemL))
        (fun e => hdis hmem e) hk
    intro i hi hpi
    by_cases hin : i = n
    · subst hin
      rw [hadd.self]
      refine ⟨userWritable_itemWord, ?_⟩
      rw [target_itemWord (hL.page _ hFL).mod (hL.page _ hFL).lt]
      exact htable
    · exact hold i (by omega) hpi
  · have hnow : entry s'.ram D n = entry s.ram D n := h.later n le_rfl (by omega)
    rw [copyTable_of_not (hnow ▸ hp)]
    intro i hi hpi
    have hin : i ≠ n := fun e => hp (hnow ▸ e ▸ hpi)
    exact hopen i (by omega) hpi

lemma openDir (hL : PageList L) (hD : D % 4096 = 0) (hDL : D ∉ L)
    (hsrc : ∀ i < 0x300, Present (entry s.ram D i) → target (entry s.ram D i) ∉ D :: L)
    (hlen : (tablesUpTo s.ram D 0x300).length ≤ L.length) (hfree : FreeList s L t) :
    OpenUpTo (forRange 0x300 (copyTable D) s).ram D 0x300 := by
  refine (forRange_inv (fun n s' => CopiedDir L t D s n s' ∧ OpenUpTo s'.ram D n) ⟨?_, ?_⟩ ?_).2
  · exact ⟨⟨L, by simp [tablesUpTo], hfree⟩, fun _ _ => Iff.rfl, fun _ _ _ => rfl, fun _ _ _ => rfl,
      fun i hi => absurd hi (by omega), fun i hi => absurd hi (by omega)⟩
  · exact fun i hi => absurd hi (by omega)
  · rintro n hn s' ⟨h, hopen⟩
    exact ⟨h.step hL hD hDL hsrc hlen hn, openDir_step hL hD hDL hsrc hlen hn h hopen⟩

/-- **A copied address space is for programs**, all of it. -/
theorem copied_open (hL : PageList L) (hfree : FreeList s L t) (hP : P % 4096 = 0) (hPL : P ∉ L)
    (hsrc : ∀ i < 0x300, Present (entry s.ram P i) → target (entry s.ram P i) ∉ L)
    (hlen : (userPages s.ram P).length ≤ L.length) :
    OpenUpTo (copyDir P s.freeList { (allocPage s).2 with ram := fill s.ram s.freeList pageSize 0 }).ram
      s.freeList 0x300 := by
  obtain ⟨F, L, rfl⟩ := List.exists_cons_of_ne_nil (l := L) (by rintro rfl; simp [userPages] at hlen)
  obtain ⟨rfl, hfree⟩ := hfree
  have hFm := (hL.page s.freeList (List.mem_cons_self ..)).mod
  have hPF : P ≠ s.freeList := fun e => hPL (e ▸ List.mem_cons_self ..)
  obtain ⟨hFL, hnd⟩ := List.nodup_cons.mp hL.nodup
  have hLt : PageList L := ⟨fun p hp => hL.page p (List.mem_cons_of_mem _ hp), hnd⟩
  have hdir : ∀ i < 1024, entry (dirCopied P s).ram s.freeList i = entry s.ram P i := fun i hi =>
    dirCopied_entry hP hFm hPF hi
  have hpage : ∀ q, q % 4096 = 0 → q ≠ s.freeList → ∀ k < 4096,
      (dirCopied P s).ram (q + k) = s.ram (q + k) := fun q hq hqF k hk =>
    dirCopied_of_not_inPage (not_inPage_of_ne hFm hq hk hqF)
  have hneF : ∀ i < 0x300, Present (entry s.ram P i) → target (entry s.ram P i) ≠ s.freeList :=
    fun i hi hp e => hsrc i hi hp (e ▸ List.mem_cons_self ..)
  have hsame : (tablesUpTo (dirCopied P s).ram s.freeList 0x300).length =
      (tablesUpTo s.ram P 0x300).length := by
    refine length_tablesUpTo (fun i hi => by rw [hdir i (by omega)]) fun i hi hp j hj => ?_
    rw [hdir i (by omega), entry_congr hj (hpage _ (target_mod _) (hneF i hi hp))]
  rw [copyDir_eq]
  refine openDir hLt hFm hFL (fun i hi hp => ?_) (by rw [hsame]; simpa [userPages] using hlen)
    (FreeList.congr (s := (allocPage s).2) hfree rfl fun p hp => get32_congr fun k hk => ?_)
  · rw [hdir i (by omega)] at hp ⊢
    rw [List.mem_cons, not_or]
    exact ⟨hneF i hi hp, fun h => hsrc i hi hp (List.mem_cons_of_mem _ h)⟩
  · exact hpage p (hLt.page p hp).mod (fun e => hFL (by rw [← e]; exact hp)) k (by omega)

end Open

end Nbos.Memory
