import Nbos.Process.FirstChild

/-!
# The first page tables

`entry` of `entry.c` fills the directory and the tables of the kernel before it turns paging on.
The translation it leaves is `linear`: every page of RAM at `0xc0000000` and up, and the first 4 MB at 0
as well. The loop stops behind `PHY_SIZE`, not at it, so that one page is mapped that there is not.
`entryTables_spec` says so, and that the processes can rest on it; `run_linear` follows it through a run.
-/

namespace Nbos.Boot

open Nbos.Lib Nbos.Kernel Nbos.Memory Nbos.Process
open Nbos.Fs (installedDisk)

/-! ### The source -/

abbrev pageP : ℕ := 1
abbrev pageRw : ℕ := 2
abbrev pageS : ℕ := 0

/-- The inner loop of `entry` from the entry `j` on, with `n` entries to come: it leaves the loop at the
first address behind `PHY_SIZE`. -/
def fillTable (table base : ℕ) : ℕ → ℕ → Bytes → Bytes
  | 0, _, m => m
  | n + 1, j, m =>
    let phyaddrBase := base + (j <<< 12)
    if phySize < phyaddrBase then m
    else fillTable table base n (j + 1) (put32 m (table + 4 * j) (phyaddrBase + pageP + pageRw + pageS))

/-- `entry`, up to the load of `cr3`, for the directory and the tables at these addresses. Paging is still
off, so it goes by the physical ones. -/
def entryTables (pagedir pagetables : ℕ) (m : Bytes) : Bytes :=
  let pagedirPhyaddr := vir2Phy pagedir
  let pagetablesPhyaddr := vir2Phy pagetables
  let m := forRange 256 (fun k m =>
    let i := 768 + k
    let table := pagetablesPhyaddr + pageSize * (i - 768)
    let m := put32 m (phy2Vir (pagedirPhyaddr + 4 * i)) (table + pageS + pageRw + pageP)
    fillTable (phy2Vir table) ((i - 768) <<< 22) 1024 0 m) m
  put32 m (phy2Vir pagedirPhyaddr) (get32 m (phy2Vir (pagedirPhyaddr + 4 * 768)))

/-- The directory and the tables are pages of RAM, apart from each other. -/
structure Placed (pagedir pagetables : ℕ) : Prop where
  dirMod : pagedir % pageSize = 0
  dirLow : kernelVirBase ≤ pagedir
  dirEnd : pagedir + pageSize ≤ phy2Vir phySize
  tablesMod : pagetables % pageSize = 0
  tablesLow : kernelVirBase ≤ pagetables
  tablesEnd : pagetables + 256 * pageSize ≤ phy2Vir phySize
  apart : pagedir + pageSize ≤ pagetables ∨ pagetables + 256 * pageSize ≤ pagedir

/-! ### The loops -/

section Fill

variable {m m' : Bytes} {table base n j i x pagedir pagetables k : ℕ}

/-- A table after the inner loop. -/
structure Filled (table base j n : ℕ) (m m' : Bytes) : Prop where
  item : ∀ i, j ≤ i → i < j + n → entry m' table i =
    if base + 4096 * i ≤ phySize then base + 4096 * i + 3 else entry m table i
  off : ∀ x, x < table + 4 * j ∨ table + 4 * (j + n) ≤ x → m' x = m x

lemma fillTable_filled : Filled table base j n m (fillTable table base n j m) := by
  induction n generalizing j m with
  | zero => exact ⟨fun i hj hi => by omega, fun _ _ => rfl⟩
  | succ n ih =>
    have hshift : base + (j <<< 12) = base + 4096 * j := by
      rw [Nat.shiftLeft_eq]
      omega
    rw [fillTable]
    simp only [hshift, phySize]
    split
    · rename_i hlt
      exact ⟨fun i hj hi => by rw [if_neg (by simp only [phySize]; omega)], fun _ _ => rfl⟩
    · rename_i hle
      have h := ih (j := j + 1) (m := put32 m (table + 4 * j) (base + 4096 * j + pageP + pageRw + pageS))
      refine ⟨fun i hj hi => ?_, fun x hx => ?_⟩
      · by_cases hij : i = j
        · -- the later ones do not touch it
          subst hij
          have hkeep := get32_congr (a := table + 4 * i) (b := table + 4 * i)
            fun o ho => h.off (table + 4 * i + o) (.inl (by omega))
          rw [entry, hkeep, get32_put32, if_pos (by simp only [phySize]; omega)]
          simp only [pageP, pageRw, pageS]
          omega
        · rw [h.item i (by omega) (by omega)]
          exact congrArg _ (get32_put32_of_disjoint (by omega))
      · rw [h.off x (by omega)]
        exact put32_of_not_mem (by omega)

/-- The state of the outer loop after `k` tables. -/
structure Tables (pagedir pagetables k : ℕ) (m m' : Bytes) : Prop where
  dir : ∀ i < k, entry m' pagedir (768 + i) = vir2Phy pagetables + 4096 * i + 3
  item : ∀ i < k, ∀ j < 1024, entry m' (pagetables + 4096 * i) j =
    if 4096 * (1024 * i + j) ≤ phySize then 4096 * (1024 * i + j) + 3
    else entry m (pagetables + 4096 * i) j
  off : ∀ x, (x < pagedir + 3072 ∨ pagedir + 3072 + 4 * k ≤ x) →
    (x < pagetables ∨ pagetables + 4096 * k ≤ x) → m' x = m x

lemma Placed.phy (hp : Placed pagedir pagetables) :
    vir2Phy pagedir = pagedir - kernelVirBase ∧ vir2Phy pagetables = pagetables - kernelVirBase := by
  have h1 := hp.dirLow
  have h2 := hp.dirEnd
  have h3 := hp.tablesLow
  have h4 := hp.tablesEnd
  simp only [phyLimit_eq, kernelVirBase, pageSize] at h1 h2 h3 h4
  simp only [vir2Phy, kernelVirBase]
  omega

/-- One round of the outer loop. -/
lemma Tables.succ {t : Bytes} (hp : Placed pagedir pagetables) (hk : k < 256)
    (h : Tables pagedir pagetables k m t) :
    Tables pagedir pagetables (k + 1) m
      (fillTable (pagetables + 4096 * k) (2 ^ 22 * k) 1024 0
        (put32 t (pagedir + 3072 + 4 * k) (vir2Phy pagetables + 4096 * k + 3))) := by
  obtain ⟨-, hphy⟩ := hp.phy
  have h1 := hp.dirLow
  have h2 := hp.dirEnd
  have h3 := hp.tablesLow
  have h4 := hp.tablesEnd
  have h5 := hp.apart
  simp only [phyLimit_eq, kernelVirBase, pageSize] at hphy h1 h2 h3 h4 h5
  have hf : Filled (pagetables + 4096 * k) (2 ^ 22 * k) 0 1024
      (put32 t (pagedir + 3072 + 4 * k) (vir2Phy pagetables + 4096 * k + 3)) _ := fillTable_filled
  generalize fillTable (pagetables + 4096 * k) (2 ^ 22 * k) 1024 0
    (put32 t (pagedir + 3072 + 4 * k) (vir2Phy pagetables + 4096 * k + 3)) = t' at hf ⊢
  have hoff : ∀ x, (x < pagetables + 4096 * k ∨ pagetables + 4096 * k + 4096 ≤ x) →
      t' x = put32 t (pagedir + 3072 + 4 * k) (vir2Phy pagetables + 4096 * k + 3) x :=
    fun x hx => hf.off x (by omega)
  refine ⟨fun i hi => ?_, fun i hi j hj => ?_, fun x hx hx' => ?_⟩
  · rw [entry, get32_congr fun o ho => hoff (pagedir + 4 * (768 + i) + o) (by omega)]
    by_cases hik : i = k
    · subst hik
      rw [show pagedir + 4 * (768 + i) = pagedir + 3072 + 4 * i by omega, get32_put32,
        Nat.mod_eq_of_lt (by omega)]
    · rw [get32_put32_of_disjoint (by omega)]
      exact h.dir i (by omega)
  · by_cases hik : i = k
    · subst hik
      rw [hf.item j (by omega) (by omega), show 2 ^ 22 * i + 4096 * j = 4096 * (1024 * i + j) by omega]
      refine if_congr Iff.rfl rfl ?_
      rw [entry, get32_put32_of_disjoint (by omega)]
      exact get32_congr fun o ho => h.off _ (by omega) (by omega)
    · rw [entry, get32_congr fun o ho => hoff (pagetables + 4096 * i + 4 * j + o) (by omega),
        get32_put32_of_disjoint (by omega)]
      exact h.item i (by omega) j hj
  · rw [hoff x (by omega), put32_of_not_mem (by omega)]
    exact h.off x (by omega) (by omega)

/-- The directory and the tables after `entry`. -/
structure Mapped (pagedir pagetables : ℕ) (m m' : Bytes) : Prop where
  dir : ∀ i < 256, entry m' pagedir (768 + i) = vir2Phy pagetables + 4096 * i + 3
  first : entry m' pagedir 0 = vir2Phy pagetables + 3
  user : ∀ i < 768, i ≠ 0 → entry m' pagedir i = entry m pagedir i
  item : ∀ i < 256, ∀ j < 1024, entry m' (pagetables + 4096 * i) j =
    if 4096 * (1024 * i + j) ≤ phySize then 4096 * (1024 * i + j) + 3
    else entry m (pagetables + 4096 * i) j
  off : ∀ x, (x < pagedir ∨ pagedir + 4096 ≤ x) → (x < pagetables ∨ pagetables + 0x100000 ≤ x) →
    m' x = m x

lemma tables_loop (hp : Placed pagedir pagetables) : Tables pagedir pagetables 256 m
    (forRange 256 (fun k m =>
      fillTable (phy2Vir (vir2Phy pagetables + pageSize * (768 + k - 768))) ((768 + k - 768) <<< 22) 1024 0
        (put32 m (phy2Vir (vir2Phy pagedir + 4 * (768 + k)))
          (vir2Phy pagetables + pageSize * (768 + k - 768) + pageS + pageRw + pageP))) m) := by
  refine forRange_inv (Tables pagedir pagetables · m) ?_ fun k hk t ht => ?_
  · exact ⟨fun i hi => by omega, fun i hi => by omega, fun _ _ _ => rfl⟩
  · obtain ⟨hdir, htab⟩ := hp.phy
    have h1 := hp.dirLow
    have h2 := hp.dirEnd
    have h3 := hp.tablesLow
    have h4 := hp.tablesEnd
    simp only [phyLimit_eq, kernelVirBase, pageSize] at hdir htab h1 h2 h3 h4
    have htable : phy2Vir (vir2Phy pagetables + pageSize * (768 + k - 768)) = pagetables + 4096 * k := by
      simp only [phy2Vir, kernelVirBase, pageSize]
      omega
    have hslot : phy2Vir (vir2Phy pagedir + 4 * (768 + k)) = pagedir + 3072 + 4 * k := by
      simp only [phy2Vir, kernelVirBase]
      omega
    have hbase : (768 + k - 768) <<< 22 = 2 ^ 22 * k := by
      rw [Nat.shiftLeft_eq]
      omega
    have hitem : vir2Phy pagetables + pageSize * (768 + k - 768) + pageS + pageRw + pageP =
        vir2Phy pagetables + 4096 * k + 3 := by
      simp only [pageSize, pageS, pageRw, pageP]
      omega
    simp only [htable, hslot, hbase, hitem]
    exact ht.succ hp hk

theorem entryTables_mapped (hp : Placed pagedir pagetables) :
    Mapped pagedir pagetables m (entryTables pagedir pagetables m) := by
  have h := tables_loop (m := m) hp
  obtain ⟨hdir, htab⟩ := hp.phy
  have h1 := hp.dirLow
  have h2 := hp.dirEnd
  have h3 := hp.tablesLow
  have h4 := hp.tablesEnd
  have h5 := hp.apart
  simp only [phyLimit_eq, kernelVirBase, pageSize] at hdir htab h1 h2 h3 h4 h5
  have hzero : phy2Vir (vir2Phy pagedir) = pagedir := by
    simp only [phy2Vir, kernelVirBase]
    omega
  have hhalf : phy2Vir (vir2Phy pagedir + 4 * 768) = pagedir + 4 * (768 + 0) := by
    simp only [phy2Vir, kernelVirBase]
    omega
  simp only [entryTables, hzero, hhalf]
  generalize forRange 256 _ m = t at h ⊢
  have hfirst := h.dir 0 (by omega)
  refine ⟨fun i hi => ?_, ?_, fun i hi h0 => ?_, fun i hi j hj => ?_, fun x hx hx' => ?_⟩
  · rw [entry, get32_put32_of_disjoint (by omega)]
    exact h.dir i hi
  · show get32 (put32 t pagedir (entry t pagedir (768 + 0))) pagedir = _
    rw [get32_put32, hfirst, Nat.mod_eq_of_lt (by omega)]
  · rw [entry, get32_put32_of_disjoint (by omega)]
    exact get32_congr fun o ho => h.off _ (by omega) (by omega)
  · rw [entry, get32_put32_of_disjoint (by omega)]
    exact h.item i hi j hj
  · rw [put32_of_not_mem (by omega)]
    exact h.off x (by omega) (by omega)

end Fill

/-! ### The translation -/

section Walk

variable {m : Bytes} {pagedir pagetables va i : ℕ}

lemma Placed.target_table (hp : Placed pagedir pagetables) (hi : i < 256) :
    target (vir2Phy pagetables + 4096 * i + 3) = pagetables + 4096 * i := by
  obtain ⟨-, htab⟩ := hp.phy
  have h3 := hp.tablesLow
  have h4 := hp.tablesEnd
  have h5 := hp.tablesMod
  simp only [phyLimit_eq, kernelVirBase, pageSize] at htab h3 h4 h5
  rw [target]
  simp only [phy2Vir, kernelVirBase]
  omega

lemma Placed.present_table (hp : Placed pagedir pagetables) :
    Present (vir2Phy pagetables + 4096 * i + 3) := by
  obtain ⟨-, htab⟩ := hp.phy
  have h3 := hp.tablesLow
  have h5 := hp.tablesMod
  simp only [kernelVirBase, pageSize] at htab h3 h5
  unfold Present
  omega

/-- The physical address that `entry` maps the address to: that of the kernel half, and that of the
first 4 MB. -/
def linear (va : ℕ) : Option ℕ :=
  if va < 2 ^ 22 then some va
  else if kernelVirBase ≤ va ∧ va - kernelVirBase < phySize + pageSize then some (va - kernelVirBase)
  else none

/-- The entry for an address in a table of the kernel. -/
lemma Mapped.walk_table {m' : Bytes} (hp : Placed pagedir pagetables) (h : Mapped pagedir pagetables m m')
    (hzero : ∀ x, pagetables ≤ x → x < pagetables + 256 * pageSize → m x = 0) (hi : i < 256)
    (hd : entry m' pagedir (va / 2 ^ 22) = vir2Phy pagetables + 4096 * i + 3) :
    walk m' pagedir va = if 4096 * (1024 * i + va / 2 ^ 12 % 1024) ≤ phySize then
      some (4096 * (1024 * i + va / 2 ^ 12 % 1024) + 3) else none := by
  have hj : va / 2 ^ 12 % 1024 < 1024 := Nat.mod_lt _ (by omega)
  rw [walk_of_entries (hd ▸ hp.present_table) ((congrArg target hd).trans (hp.target_table hi))
    (h.item i hi _ hj)]
  split
  · rw [if_pos]
    unfold Present
    omega
  · -- beyond `PHY_SIZE` the tables are as they were
    have hnil : entry m (pagetables + 4096 * i) (va / 2 ^ 12 % 1024) = 0 := by
      simp only [pageSize] at hzero
      rw [entry, get32, hzero _ (by omega) (by omega), hzero _ (by omega) (by omega),
        hzero _ (by omega) (by omega), hzero _ (by omega) (by omega)]
      rfl
    rw [hnil, if_neg (by decide)]

/-- What `entry` maps. Where RAM was zeroed, the processor translates every address as `linear` says,
and to a writable page of the supervisor. -/
theorem entryTables_walk (hp : Placed pagedir pagetables)
    (hdir : ∀ x, pagedir ≤ x → x < pagedir + pageSize → m x = 0)
    (hzero : ∀ x, pagetables ≤ x → x < pagetables + 256 * pageSize → m x = 0) (hva : va < 2 ^ 32) :
    walk (entryTables pagedir pagetables m) pagedir va =
      (linear va).map fun phy => phy / 4096 * 4096 + pageP + pageRw + pageS := by
  have h := entryTables_mapped (m := m) hp
  generalize entryTables pagedir pagetables m = m' at h ⊢
  unfold linear
  simp only [kernelVirBase, phySize, pageSize, pageP, pageRw, pageS]
  by_cases hlow : va < 2 ^ 22
  · have hidx : va / 2 ^ 22 = 0 := by omega
    rw [h.walk_table hp hzero (i := 0) (by omega) (by rw [hidx, h.first]), if_pos hlow,
      if_pos (by simp only [phySize]; omega), Option.map_some]
    congr 1
    omega
  · rw [if_neg hlow]
    by_cases hhigh : 0xc0000000 ≤ va
    · obtain ⟨i, hidx⟩ : ∃ i, va / 2 ^ 22 = 768 + i := ⟨va / 2 ^ 22 - 768, by omega⟩
      have hi : i < 256 := by omega
      rw [h.walk_table hp hzero hi (by rw [hidx, h.dir i hi])]
      simp only [phySize]
      by_cases hin : va - 0xc0000000 < 0x2000000 + 4096
      · rw [if_pos (by omega), if_pos ⟨hhigh, hin⟩, Option.map_some]
        congr 1
        omega
      · rw [if_neg (by omega), if_neg (by omega), Option.map_none]
    · have hnil : entry m pagedir (va / 2 ^ 22) = 0 := by
        simp only [pageSize] at hdir
        rw [entry, get32, hdir _ (by omega) (by omega), hdir _ (by omega) (by omega),
          hdir _ (by omega) (by omega), hdir _ (by omega) (by omega)]
        rfl
      rw [if_neg (by omega), Option.map_none, walk_of_not]
      rw [show dirIdx va = va / 2 ^ 22 from rfl, h.user _ (by omega) (by omega), hnil]
      decide

end Walk

/-! ### What the processes rest on -/

/-- What the linker and the loader have made of the kernel: the directory and the tables are zeroed and
within its image, behind the text at `0xc0010000`, and the ELF header below it says where it ends. -/
structure Linked (ram : Bytes) (junk pagedir pagetables : ℕ) : Prop extends Placed pagedir pagetables where
  dirText : 0xc0010000 ≤ pagedir
  tablesText : 0xc0010000 ≤ pagetables
  headers : get32 ram (kernelElfHeader + 28) + 32 * get16 ram (kernelElfHeader + 44) ≤ 0x7000
  dirIn : pagedir + pageSize ≤ alignUp (kernelEnd ram junk)
  tablesIn : pagetables + 256 * pageSize ≤ alignUp (kernelEnd ram junk)
  room : alignUp (kernelEnd ram junk) + 3 * pageSize ≤ phy2Vir phySize
  last : get32 ram lastPage = 0
  dirZero : ∀ x, pagedir ≤ x → x < pagedir + pageSize → ram x = 0
  tablesZero : ∀ x, pagetables ≤ x → x < pagetables + 256 * pageSize → ram x = 0

section Linked

variable {ram ram' : Bytes} {junk pagedir pagetables va ph fin n : ℕ} {k₀ k : System} {h : List Call}
  {p : Fin pcbMax}

lemma kernelEndLoop_congr (h : ∀ x, ph + 32 ≤ x + 32 * n → x < ph + 32 → ram' x = ram x)
    (hn : 32 * n ≤ ph + 32) : kernelEndLoop ram' n ph fin = kernelEndLoop ram n ph fin := by
  induction n generalizing ph with
  | zero => rfl
  | succ n ih =>
    rw [kernelEndLoop, kernelEndLoop]
    have hword : ∀ o, o + 4 ≤ 32 → get32 ram' (ph + o) = get32 ram (ph + o) := fun o ho =>
      get32_congr fun b hb => h _ (by omega) (by omega)
    rw [hword 8 (by omega), hword 20 (by omega), ih (fun x hx hx' => h x (by omega) (by omega)) (by omega)]
    exact if_congr (by rw [show get32 ram' ph = get32 ram ph from hword 0 (by omega)]) rfl rfl

/-- `entry` does not touch the ELF header of the kernel. -/
lemma Linked.kernelEnd_eq (hl : Linked ram junk pagedir pagetables) :
    kernelEnd (entryTables pagedir pagetables ram) junk = kernelEnd ram junk := by
  have hm := entryTables_mapped (m := ram) hl.toPlaced
  have h1 := hl.dirText
  have h2 := hl.tablesText
  have h3 := hl.headers
  have hoff : ∀ x < 0xc0010000, entryTables pagedir pagetables ram x = ram x := fun x hx =>
    hm.off x (by omega) (by omega)
  have hword : ∀ a, a + 4 ≤ 0xc0010000 →
      get32 (entryTables pagedir pagetables ram) a = get32 ram a := fun a ha =>
    get32_congr fun b hb => hoff _ (by omega)
  unfold kernelEnd
  rw [get16_eq, hword _ (by decide), hword _ (by decide), ← get16_eq]
  simp only [kernelElfHeader, kernelVirBase] at h3 ⊢
  exact kernelEndLoop_congr (fun x _ hx => hoff x (by omega)) (by omega)

lemma Linked.entry_zero (hl : Linked ram junk pagedir pagetables) {i : ℕ} (hi : i < 1024) :
    entry ram pagedir i = 0 := by
  have hz := hl.dirZero
  simp only [pageSize] at hz
  rw [entry, get32, hz _ (by omega) (by omega), hz _ (by omega) (by omega), hz _ (by omega) (by omega),
    hz _ (by omega) (by omega)]
  rfl

/-- `entry` makes the tables that the processes rest on. -/
theorem entryTables_tables (hl : Linked ram junk pagedir pagetables) :
    KernelTables (entryTables pagedir pagetables ram) junk pagedir := by
  have hm := entryTables_mapped (m := ram) hl.toPlaced
  have hend := hl.kernelEnd_eq
  have htarget := fun i hi => hl.toPlaced.target_table (i := i) hi
  have h1 := hl.dirLow
  have h2 := hl.dirIn
  have h3 := hl.tablesIn
  have h4 := hl.room
  have h5 := hl.apart
  simp only [phyLimit_eq, kernelVirBase, pageSize] at h1 h2 h3 h4 h5
  generalize entryTables pagedir pagetables ram = m at hm hend ⊢
  have hfirst : target (entry m pagedir 0) = pagetables := by
    have h0 := htarget 0 (by omega)
    rw [hm.first]
    exact h0
  have huser : ∀ i < 0x300, i ≠ 0 → ¬ Present (entry m pagedir i) := fun i hi h0 => by
    rw [hm.user i hi h0, hl.entry_zero (by omega)]
    decide
  have hkernel : ∀ i, 0x300 ≤ i → i < 1024 →
      target (entry m pagedir i) = pagetables + 4096 * (i - 768) := fun i hlo hhi => by
    obtain ⟨t, rfl⟩ := Nat.exists_eq_add_of_le hlo
    rw [hm.dir t (by omega), htarget t (by omega), Nat.add_sub_cancel_left]
  have hlast : get32 m lastPage = 0 := by
    rw [get32_congr fun o ho => hm.off (lastPage + o) (by simp only [lastPage]; omega)
      (by simp only [lastPage]; omega)]
    exact hl.last
  refine ⟨⟨?_, ?_, hlast, hl.dirMod, ?_, fun i hi hpres => ?_⟩, huser, fun i hlo hhi _ => ?_, fun q hq => ?_⟩
  · rw [hend]
    simp only [kernelVirBase]
    omega
  · rw [hend]
    exact hl.room
  · rw [hend]
    omega
  · by_cases h0 : i = 0
    · rw [hend, h0, hfirst]
      omega
    · exact absurd hpres (huser i hi h0)
  · rw [hend, hkernel i hlo hhi]
    omega
  · obtain ⟨hlo, hhi, hmod⟩ := mem_pool.mp hq
    rw [hend] at hlo
    rw [phyLimit_eq] at hhi
    simp only [pageSize] at hmod
    obtain ⟨t, hdir⟩ : ∃ t, dirIdx q = 768 + t := ⟨q / 2 ^ 22 - 768, by simp only [dirIdx]; omega⟩
    simp only [dirIdx] at hdir
    have ht : t < 256 := by omega
    have hword : entry m (pagetables + 4096 * t) (tableIdx q) = q - 0xc0000000 + 3 := by
      rw [hm.item t ht _ tableIdx_lt]
      simp only [tableIdx]
      rw [if_pos (by simp only [phySize]; omega)]
      omega
    rw [show dirIdx q = 768 + t from hdir, hm.dir t ht, htarget t ht, hword]
    refine ⟨hl.toPlaced.present_table, ?_, ?_⟩
    · unfold Present
      omega
    · rw [target]
      simp only [phy2Vir, kernelVirBase]
      omega

/-- **What `entry` establishes** for a linked kernel: the tables that the processes rest on, and the
translation `linear` of every address. -/
theorem entryTables_spec (hl : Linked ram junk pagedir pagetables) :
    KernelTables (entryTables pagedir pagetables ram) junk pagedir ∧
      ∀ va < 2 ^ 32, walk (entryTables pagedir pagetables ram) pagedir va =
        (linear va).map fun phy => phy / 4096 * 4096 + pageP + pageRw + pageS :=
  ⟨entryTables_tables hl, fun _ hva => entryTables_walk hl.toPlaced hl.dirZero hl.tablesZero hva⟩

/-- **The translation of the kernel half stays what `entry` has made it**, for process 0 and every
process that lives, in every run of careful calls. -/
theorem run_linear (hl : Linked ram junk pagedir pagetables)
    (hb : Begins (entryTables pagedir pagetables ram) junk pagedir k₀) (hrun : Run Step Careful k₀ h k)
    (hp : p = 0 ∨ Live k p) (hva : kernelVirBase ≤ va) (hva' : va < 2 ^ 32) :
    walk k.mem.ram (k.pcblist p).pagedir va =
      (linear va).map fun phy => phy / 4096 * 4096 + pageP + pageRw + pageS := by
  obtain ⟨-, L, hs⟩ := run_shared (entryTables_tables hl) hb hrun
  rw [← entryTables_walk hl.toPlaced hl.dirZero hl.tablesZero hva']
  exact hs.walk_eq hp hva hva'

end Linked

/-! ### A kernel -/

section HeaderRam

variable {x i j : ℕ} {disk : Bytes}

lemma headerRam_zero (hx : 0xc0010000 ≤ x) : headerRam x = 0 := by
  unfold headerRam
  simp only [kernelElfHeader, kernelVirBase]
  rw [put32_of_not_mem (by omega), put32_of_not_mem (by omega), put32_of_not_mem (by omega),
    put32_of_not_mem (by omega), put32_of_not_mem (by omega)]

lemma headerRam_linked : Linked headerRam 0 0xc0020000 0xc0021000 := by
  have hend : alignUp (kernelEnd headerRam 0) = 0xc0140000 := alignUp_headerRam
  refine ⟨⟨by decide, by decide, ?_, by decide, by decide, ?_, by decide⟩, by decide, by decide,
    by decide +kernel, ?_, ?_, ?_, by decide +kernel, fun x hx _ => headerRam_zero (by omega),
    fun x hx _ => headerRam_zero (by omega)⟩
  · rw [phyLimit_eq]
    decide
  · rw [phyLimit_eq]
    decide
  · rw [hend]
    decide
  · rw [hend]
    decide
  · rw [hend, phyLimit_eq]
    decide

/-- Equal words have equal bytes. -/
lemma eq_of_entry {m m' : Bytes} {p i o : ℕ} (h : entry m p i = entry m' p i) (ho : o < 4) :
    m (p + 4 * i + o) = m' (p + 4 * i + o) := by
  rw [← leBytes_get32 (m := m) ho, ← leBytes_get32 (m := m') ho]
  exact congrArg (leBytes · o) h

lemma entryTables_headerRam : entryTables 0xc0020000 0xc0021000 headerRam = kernelRam := by
  have hm := entryTables_mapped (m := headerRam) headerRam_linked.toPlaced
  have hphy : vir2Phy 0xc0021000 = 0x21000 := by decide
  generalize entryTables 0xc0020000 0xc0021000 headerRam = m at hm ⊢
  funext x
  by_cases hdir : 0xc0020000 ≤ x ∧ x < 0xc0021000
  · obtain ⟨i, o, hi, ho, rfl⟩ : ∃ i o, i < 1024 ∧ o < 4 ∧ x = 0xc0020000 + 4 * i + o :=
      ⟨(x - 0xc0020000) / 4, x % 4, by omega, by omega, by omega⟩
    refine eq_of_entry ?_ ho
    by_cases h0 : i = 0
    · rw [h0, hm.first, hphy]
      decide +kernel
    · by_cases hhalf : i < 0x300
      · rw [hm.user i hhalf h0, kernelRam_user hhalf h0]
        exact headerRam_linked.entry_zero hi
      · obtain ⟨t, rfl⟩ := Nat.exists_eq_add_of_le (not_lt.mp hhalf)
        rw [hm.dir t (by omega), kernelRam_half (by omega) hi, hphy]
        omega
  · by_cases htab : 0xc0021000 ≤ x ∧ x < 0xc0121000
    · obtain ⟨t, j, o, ht, hj, ho, rfl⟩ : ∃ t j o, t < 256 ∧ j < 1024 ∧ o < 4 ∧
          x = 0xc0021000 + 4096 * t + 4 * j + o :=
        ⟨(x - 0xc0021000) / 4096, (x - 0xc0021000) % 4096 / 4, x % 4, by omega, by omega, by omega,
          by omega⟩
      refine eq_of_entry ?_ ho
      rw [hm.item t ht j hj, kernelRam_table ht hj]
      refine if_congr (by simp only [phySize]; omega) rfl ?_
      rw [entry, get32, headerRam_zero (by omega), headerRam_zero (by omega), headerRam_zero (by omega),
        headerRam_zero (by omega)]
      rfl
    · rw [hm.off x (by omega) (by omega)]
      unfold kernelRam
      rw [put32_of_not_mem (by omega), overlay_of_not_mem (by omega), overlay_of_not_mem (by omega)]

/-- The text of the kernel is where `main` is. -/
theorem entryTables_spec_headerRam :
    KernelTables (entryTables 0xc0020000 0xc0021000 headerRam) 0 0xc0020000 ∧
      walk (entryTables 0xc0020000 0xc0021000 headerRam) 0xc0020000 0xc0010abc = some 0x10003 := by
  obtain ⟨htables, hwalk⟩ := entryTables_spec headerRam_linked
  exact ⟨htables, hwalk _ (by decide)⟩

/-- A child of process 0 has the kernel where it is. -/
theorem run_linear_child : ∃ k, Run Step Careful (kernelBoot installedDisk) childRuns k ∧
    k.current ≠ 0 ∧ walk k.mem.ram k.proc.pagedir 0xc0010abc = some 0x10003 := by
  obtain ⟨k, L, hc⟩ := @firstChild installedDisk (by decide +kernel)
  have hb : Begins (entryTables 0xc0020000 0xc0021000 headerRam) 0 0xc0020000 (kernelBoot installedDisk) := by
    rw [entryTables_headerRam]
    exact kernelBoot_begins
  exact ⟨k, hc.run, hc.live.1, run_linear headerRam_linked hb hc.run (.inr hc.live) (by decide) (by decide)⟩

end HeaderRam

end Nbos.Boot
