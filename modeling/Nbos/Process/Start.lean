import Nbos.Memory.Pool
import Nbos.Process.Ownership

/-!
# The first user process

What the boot leaves in memory and `switch_to_user`, which makes process 0 a user process. The pages
are in order afterwards (`switchToUser_spec`), as they are before (`boot_owned`).
-/

namespace Nbos.Process

open Nbos.Lib Nbos.Kernel Nbos.Memory

/-! ### The start -/

/-- What the boot leaves in RAM: the kernel and its tables lie below the pool, and the pool has the
pages that `switch_to_user` needs. Nobody has written the link of the last page: it happens to be
`NULL`. -/
structure KernelImage (ram : Bytes) (junk pagedir : ℕ) : Prop where
  low : kernelVirBase ≤ alignUp (kernelEnd ram junk)
  room : alignUp (kernelEnd ram junk) + 3 * pageSize ≤ phy2Vir phySize
  last : get32 ram lastPage = 0
  pagedirMod : pagedir % pageSize = 0
  pagedirLow : pagedir < alignUp (kernelEnd ram junk)
  tablesLow : ∀ i < 0x300, Present (entry ram pagedir i) →
    target (entry ram pagedir i) < alignUp (kernelEnd ram junk)

/-- The loop of `switch_to_user` that makes the entries of a table user entries. -/
def makeUser (pageTable : ℕ) (m : Bytes) : Bytes :=
  forRange 1024 (fun i m => put32 m (pageTable + 4 * i) (PageTableItem.toWord
    { tableItem m (pageTable + 4 * i) with privilege := pagePrivilegeUser })) m

/-- `switch_to_user`, up to the return to user mode: a copy of the first table for user mode, and a
stack. -/
def switchToUser (k : System) : System :=
  let dir := k.proc.pagedir
  let (pageTable, s) := allocPage k.mem
  let first := phy2Vir ((dirItem s.ram dir).address <<< 12)
  let ram := makeUser pageTable (memcopy s.ram first pageTable pageSize)
  let ram := generatePageDirItem ram dir (vir2Phy pageTable) pagePrivilegeUser
  { k with mem := mapStack dir { s with ram := ram } }

section Start

variable {ram : Bytes} {junk pagedir : ℕ} {fileList : Fin fileMaxInSys → OpenFile} {disk : Bytes}
  {keyboard : Device.Keyboard} {L : List ℕ} {k : System} {p q x F : ℕ} {m : Bytes} {s : Mem}

lemma initMemory_getD (h : ∃ s, initMemory junk ⟨ram, 0⟩ = some s) :
    initMemory junk ⟨ram, 0⟩ = some ((initMemory junk ⟨ram, 0⟩).getD ⟨ram, 0⟩) := by
  obtain ⟨s, hs⟩ := h
  rw [hs]
  rfl

lemma isPage_of_mem_poolFrom (hi : KernelImage ram junk pagedir)
    (hp : p ∈ poolFrom (alignUp (kernelEnd ram junk))) : IsPage p := by
  obtain ⟨h1, h2, h3⟩ := (mem_poolFrom (alignUp_mod _)).mp hp
  rw [phyLimit_eq] at h2
  exact ⟨hi.low.trans h1, by omega, h3⟩

lemma KernelImage.pageList (hi : KernelImage ram junk pagedir) :
    PageList (poolFrom (alignUp (kernelEnd ram junk))) :=
  ⟨fun _ hp => isPage_of_mem_poolFrom hi hp, nodup_poolFrom (alignUp_mod _)⟩

/-- `init_memory` returns. -/
lemma KernelImage.returns (hi : KernelImage ram junk pagedir) : ∃ s, initMemory junk ⟨ram, 0⟩ = some s ∧
    FreeList s (poolFrom (alignUp (kernelEnd ram junk))) 0 ∧
      ∀ x < alignUp (kernelEnd ram junk), s.ram x = ram x := by
  have hroom := hi.room
  simp only [pageSize] at hroom
  obtain ⟨s, hs, -, hfree, hkept⟩ := @initMemory_spec ram junk _ rfl hi.low (by omega)
  rw [hi.last] at hfree
  exact ⟨s, hs, hfree, hkept⟩

/-- It strings the pool together, and leaves what is below alone. -/
lemma KernelImage.initMemory (hi : KernelImage ram junk pagedir) (hs : initMemory junk ⟨ram, 0⟩ = some s) :
    FreeList s (poolFrom (alignUp (kernelEnd ram junk))) 0 ∧
      ∀ x < alignUp (kernelEnd ram junk), s.ram x = ram x := by
  obtain ⟨s', hs', hfree⟩ := hi.returns
  rwa [Option.some_inj.mp (hs.symm.trans hs')]

/-- And so the directory of the kernel. -/
lemma initMemory_entry {i : ℕ} (hi : KernelImage ram junk pagedir) (hs : initMemory junk ⟨ram, 0⟩ = some s)
    (hi' : i < 0x300) : entry s.ram pagedir i = entry ram pagedir i := by
  obtain ⟨-, hkept⟩ := hi.initMemory hs
  have hpm := hi.pagedirMod
  have hpl := hi.pagedirLow
  have hmod := alignUp_mod (kernelEnd ram junk)
  simp only [pageSize] at hmod hpm
  exact get32_congr fun b hb => hkept _ (by omega)

lemma initMemory_apart (hi : KernelImage ram junk pagedir) (hs : initMemory junk ⟨ram, 0⟩ = some s) :
    Apart (poolFrom (alignUp (kernelEnd ram junk))) s.ram pagedir := by
  have hpl := hi.pagedirLow
  have hnot : ∀ q < alignUp (kernelEnd ram junk), q ∉ poolFrom (alignUp (kernelEnd ram junk)) :=
    fun q hq hm => absurd ((mem_poolFrom (alignUp_mod _)).mp hm).1 (by omega)
  refine ⟨hi.pagedirMod, hnot _ hpl, fun i hi' hp => ?_⟩
  rw [initMemory_entry hi hs hi'] at hp ⊢
  exact hnot _ (hi.tablesLow i hi' hp)

lemma boot_not_live {mem : Mem} {p : Fin pcbMax} :
    ¬ Live (boot pagedir mem fileList disk keyboard) p := fun hp => by
  have ht : ((boot pagedir mem fileList disk keyboard).table.entry p).pstate = .free := by
    rw [boot_table]
    exact if_neg hp.1
  exact hp.2.1 ht

lemma boot_owned (hi : KernelImage ram junk pagedir) (hs : initMemory junk ⟨ram, 0⟩ = some s) :
    Owned (poolFrom (alignUp (kernelEnd ram junk))) (boot pagedir s fileList disk keyboard) :=
  ⟨(hi.initMemory hs).1, hi.pageList, fun _ hp => absurd hp boot_not_live,
    fun _ _ hp => absurd hp boot_not_live, initMemory_apart hi hs, fun _ hp => absurd hp boot_not_live⟩

/-! ### Into user mode -/

lemma makeUser_of_off {T : ℕ} (h : x < T ∨ T + pageSize ≤ x) : makeUser T m x = m x := by
  simp only [pageSize] at h
  refine forRange_inv (fun _ (t : Bytes) => t x = m x) rfl fun i hi t ht => ?_
  rw [put32_of_not_mem (by omega), ht]

lemma toWord_present (i : PageTableItem) : i.toWord % 2 ^ 32 % 2 = i.present % 2 := by
  simp only [PageTableItem.toWord]
  omega

/-- The entries stay present. -/
lemma present_makeUser {T j : ℕ} (hj : j < 1024) :
    Present (entry (makeUser T m) T j) ↔ Present (entry m T j) := by
  refine forRange_inv (fun _ (t : Bytes) => ∀ j < 1024, Present (entry t T j) ↔ Present (entry m T j))
    (fun _ _ => Iff.rfl) (fun i hi t ht j hj => ?_) j hj
  rw [← ht j hj]
  by_cases hij : j = i
  · have hpresent : (tableItem t (T + 4 * i)).present % 2 = get32 t (T + 4 * i) % 2 := Nat.mod_mod _ 2
    rw [hij, entry, entry, get32_put32, Present, toWord_present]
    show (tableItem t (T + 4 * i)).present % 2 = 1 ↔ _
    rw [hpresent]
    rfl
  · rw [entry, get32_put32_of_disjoint (by omega)]

lemma entry_memcopy {q T j : ℕ} (hq : q % 4096 = 0) (hT : T % 4096 = 0) (hj : j < 1024) :
    entry (memcopy m q T pageSize) T j = entry m q j := by
  rw [entry, memcopy_eq (by simp only [pageSize]; omega), get32_overlay_add (by simp only [pageSize]; omega)]
  simp only [entry, get32, Nat.add_assoc]

/-- What `switch_to_user` does to the directory of process 0 and to the free list `L`. -/
structure UserMode (L : List ℕ) (k k' : System) : Prop where
  owned : ∃ used rest, L = used ++ rest ∧ used.length ≤ 3 ∧ Owned rest k'
  first : Present (entry k'.mem.ram k.proc.pagedir 0)
  stack : Present (entry k'.mem.ram k.proc.pagedir 0x2ff)
  others : ∀ i < 0x300, i ≠ 0 → i ≠ 0x2ff →
    entry k'.mem.ram k.proc.pagedir i = entry k.mem.ram k.proc.pagedir i
  single : ¬ Present (entry k.mem.ram k.proc.pagedir 0x2ff) → ∀ j < 1023,
    ¬ Present (entry k'.mem.ram (target (entry k'.mem.ram k.proc.pagedir 0x2ff)) j)

/-- Process 0 with a first table of its own, the page `T`, before it gets a stack. -/
structure FirstTable (T : ℕ) (L : List ℕ) (D : ℕ) (m : Bytes) (s : Mem) : Prop where
  free : FreeList s L 0
  apart : Apart L s.ram D
  first : entry s.ram D 0 = itemWord (vir2Phy T) 1
  others : ∀ i < 1024, i ≠ 0 → entry s.ram D i = entry m D i
  items : ∀ j < 1024, Present (entry s.ram T j) ↔ Present (entry m (target (entry m D 0)) j)
  only : UserOnly [T] D m s.ram

lemma switchToUser_mem {T : ℕ} (h : Owned (T :: L) k) (hcur : k.current = 0) :
    ∃ s, (switchToUser k).mem = mapStack k.proc.pagedir s ∧
      FirstTable T L k.proc.pagedir k.mem.ram s := by
  set D := k.proc.pagedir with hD
  have hroot : Apart (T :: L) k.mem.ram D := by
    have := h.root
    rwa [← hcur] at this
  have hT := h.list.page T (List.mem_cons_self ..)
  have hTm := hT.mod
  have hDm := hroot.mod
  have hDT : D ≠ T := fun e => hroot.self (by simp [e])
  obtain ⟨hTL, -⟩ := List.nodup_cons.mp h.list.nodup
  obtain ⟨hfirst, hlink⟩ := h.free
  have hmem : (switchToUser k).mem = mapStack D ⟨put32 (makeUser T (memcopy k.mem.ram
      (phy2Vir ((dirItem k.mem.ram D).address <<< 12)) T pageSize)) D (itemWord (vir2Phy T) 1),
      get32 k.mem.ram T⟩ := by
    simp only [switchToUser, allocPage, hfirst, generatePageDirItem_eq]
    rfl
  have hoff : ∀ x, x < T ∨ T + pageSize ≤ x → makeUser T (memcopy k.mem.ram
      (phy2Vir ((dirItem k.mem.ram D).address <<< 12)) T pageSize) x = k.mem.ram x := fun x hx => by
    rw [makeUser_of_off hx, memcopy_of_not_mem hx]
  have hitems : ∀ j < 1024, Present (entry (makeUser T (memcopy k.mem.ram
      (phy2Vir ((dirItem k.mem.ram D).address <<< 12)) T pageSize)) T j) ↔
        Present (entry k.mem.ram (target (entry k.mem.ram D 0)) j) := fun j hj => by
    rw [present_makeUser hj, dirItem_target, entry_memcopy (target_mod _) hTm hj]
    rfl
  generalize makeUser T (memcopy k.mem.ram
      (phy2Vir ((dirItem k.mem.ram D).address <<< 12)) T pageSize) = m at hmem hoff hitems
  simp only [pageSize] at hoff
  have hself : entry (put32 m D (itemWord (vir2Phy T) 1)) D 0 = itemWord (vir2Phy T) 1 := by
    rw [entry, Nat.mul_zero, Nat.add_zero, get32_put32, Nat.mod_eq_of_lt itemWord_lt]
  have hentry : ∀ i < 1024, i ≠ 0 → entry (put32 m D (itemWord (vir2Phy T) 1)) D i =
      entry k.mem.ram D i := fun i hi h0 => by
    rw [entry, get32_put32_of_disjoint (by omega)]
    exact get32_congr fun b hb => hoff _ (by omega)
  refine ⟨_, hmem, ?_, ⟨hDm, fun hm => hroot.self (List.mem_cons_of_mem _ hm), fun i hi hp hm => ?_⟩,
    hself, hentry, fun j hj => ?_, fun x hx hxD => ?_⟩
  · refine FreeList.congr (s := ⟨k.mem.ram, get32 k.mem.ram T⟩) hlink rfl fun q hq => ?_
    have hqD : q ≠ D := fun e => hroot.self (List.mem_cons_of_mem _ (e ▸ hq))
    have hqT : q ≠ T := fun e => hTL (e ▸ hq)
    have hqm := (h.list.page q (List.mem_cons_of_mem _ hq)).mod
    rw [get32_put32_of_disjoint (by omega)]
    exact get32_congr fun b hb => hoff _ (by omega)
  · by_cases h0 : i = 0
    · rw [h0, hself, target_itemWord hTm hT.lt] at hm
      exact hTL hm
    · rw [hentry i (by omega) h0] at hp hm
      exact hroot.tables i hi hp (List.mem_cons_of_mem _ hm)
  · rw [← hitems j hj, entry, get32_put32_of_disjoint (by omega)]
  · have hxT := hx T (List.mem_singleton_self T)
    unfold InPage at hxT
    simp only [pageSize] at hxT
    show put32 m D (itemWord (vir2Phy T) 1) x = _
    rw [put32_of_not_mem (by omega)]
    exact hoff x (by omega)

/-- **Process 0 in user mode.** -/
theorem switchToUser_spec {T S F : ℕ} (h : Owned (T :: S :: F :: L) k) (hlive : ∀ p, ¬ Live k p)
    (hcur : k.current = 0) : UserMode (T :: S :: F :: L) k (switchToUser k) := by
  obtain ⟨s, hmem, hfirst⟩ := switchToUser_mem h hcur
  have hrest : PageList (S :: F :: L) :=
    h.list.sublist (List.sublist_cons_self ..)
  have hs := stackMapped hfirst.free hrest hfirst.apart
  rw [← hmem] at hs
  obtain ⟨used, rest, hused, hlen, hfree', hA'⟩ := hs.free
  have hnone : ∀ p, ¬ Live (switchToUser k) p := hlive
  refine ⟨⟨T :: used, rest, by rw [hused]; rfl, Nat.succ_le_succ hlen, hfree',
    (hused ▸ hrest).append.2.1, fun p hp => absurd hp (hnone p),
    fun p _ hp => absurd hp (hnone p), ?_, fun p hp => absurd hp (hnone p)⟩, ?_, hs.present,
    fun i hi h0 hi' => ?_, fun hp => hs.single ?_⟩
  · have he : ((switchToUser k).pcblist 0).pagedir = k.proc.pagedir := by rw [System.proc, hcur]; rfl
    rw [he]
    exact hA'
  · rw [hs.others 0 (by omega) (by omega), hfirst.first]
    exact present_itemWord
  · rw [hs.others i hi hi', hfirst.others i (by omega) h0]
  · rwa [hfirst.others 0x2ff (by omega) (by omega)]

/-- On the way there, only pages of the free list and the user half of the directory are written. -/
lemma switchToUser_userOnly {T S F : ℕ} (h : Owned (T :: S :: F :: L) k) (hcur : k.current = 0)
    (hstack : ¬ Present (entry k.mem.ram k.proc.pagedir 0x2ff)) :
    UserOnly (T :: S :: F :: L) k.proc.pagedir k.mem.ram (switchToUser k).mem.ram := by
  obtain ⟨s, hmem, hfirst⟩ := switchToUser_mem h hcur
  have hF : IsPage F := h.list.page F (by simp)
  rw [hmem]
  refine (hfirst.only.mono fun q hq => ?_).trans
    (mapStack_userOnly hfirst.free hF (by simp) fun hp => absurd hp ?_)
  · rw [List.mem_singleton.mp hq]
    exact List.mem_cons_self ..
  · rwa [hfirst.others 0x2ff (by omega) (by omega)]

/-- The first table is a copy of the one that was there. -/
lemma switchToUser_items {T S F j : ℕ} (h : Owned (T :: S :: F :: L) k) (hcur : k.current = 0)
    (hstack : ¬ Present (entry k.mem.ram k.proc.pagedir 0x2ff)) (hj : j < 1024) :
    Present (entry (switchToUser k).mem.ram (target (entry (switchToUser k).mem.ram k.proc.pagedir 0)) j) ↔
      Present (entry k.mem.ram (target (entry k.mem.ram k.proc.pagedir 0)) j) := by
  obtain ⟨s, hmem, hfirst⟩ := switchToUser_mem h hcur
  have hT : IsPage T := h.list.page T (List.mem_cons_self ..)
  have hF : IsPage F := h.list.page F (by simp)
  have hrest : PageList (S :: F :: L) := h.list.sublist (List.sublist_cons_self ..)
  have hroot : Apart (T :: S :: F :: L) k.mem.ram k.proc.pagedir := by
    rw [System.proc, hcur]
    exact h.root
  have honly : UserOnly (S :: F :: L) k.proc.pagedir s.ram (mapStack k.proc.pagedir s).ram :=
    mapStack_userOnly hfirst.free hF (by simp) fun hp => absurd hp (by
      rwa [hfirst.others 0x2ff (by omega) (by omega)])
  have hdir := (stackMapped hfirst.free hrest hfirst.apart).others 0 (by omega) (by omega)
  have hnot : T ∉ k.proc.pagedir :: S :: F :: L := fun hm => by
    rcases List.mem_cons.mp hm with he | hm
    · exact hroot.self (he ▸ List.mem_cons_self ..)
    · exact (List.nodup_cons.mp h.list.nodup).1 hm
  rw [hmem, hdir, hfirst.first, target_itemWord hT.mod hT.lt,
    honly.entry_table (fun q hq => (hrest.page q hq).mod) hroot.mod hT.mod hnot hj]
  exact hfirst.items j hj

lemma length_poolFrom {a : ℕ} (ha : a % pageSize = 0) :
    (poolFrom a).length = (0xc2000000 - a) / 4096 := by
  simp only [pageSize] at ha
  induction hn : 0xc2000000 - a using Nat.strong_induction_on generalizing a with
  | _ n ih =>
    by_cases h : a < phy2Vir phySize
    · have h' := h
      rw [phyLimit_eq] at h'
      rw [poolFrom_of_lt h, List.length_cons, pageSize,
        ih (0xc2000000 - (a + 4096)) (by omega) (by omega) rfl]
      omega
    · rw [poolFrom_of_ge (by omega)]
      rw [phyLimit_eq] at h
      simp only [List.length_nil]
      omega

lemma KernelImage.pool_cons (hi : KernelImage ram junk pagedir) :
    ∃ T S F L, poolFrom (alignUp (kernelEnd ram junk)) = T :: S :: F :: L := by
  have hroom := hi.room
  have hlen := length_poolFrom (alignUp_mod (kernelEnd ram junk))
  rw [phyLimit_eq] at hroom
  simp only [pageSize] at hroom
  obtain ⟨T, L, hT⟩ := List.exists_cons_of_length_pos (l := poolFrom (alignUp (kernelEnd ram junk)))
    (by omega)
  rw [hT, List.length_cons] at hlen
  obtain ⟨S, L, rfl⟩ := List.exists_cons_of_length_pos (l := L) (by omega)
  rw [List.length_cons] at hlen
  obtain ⟨F, L, rfl⟩ := List.exists_cons_of_length_pos (l := L) (by omega)
  exact ⟨T, S, F, L, hT⟩

end Start

/-! ### A kernel with its tables -/

/-- A RAM in which `entry` has filled the directory at `0xc0020000` and the tables behind it. -/
def kernelRam : Bytes :=
  let tables := overlay headerRam 0xc0021000 0x100000
    (wordBytes fun n => if n ≤ 8192 then 4096 * n + 3 else 0)
  let dir := overlay tables 0xc0020c00 1024 (wordBytes fun j => 4096 * j + 0x21003)
  put32 dir 0xc0020000 0x21003

/-- Process 0 in user mode. -/
def kernelBoot (disk : Bytes) : System :=
  switchToUser (boot 0xc0020000 ((initMemory 0 ⟨kernelRam, 0⟩).getD ⟨kernelRam, 0⟩)
    (fun _ => ⟨0, 0, 0, 0, false⟩) disk .init)

section KernelBoot

variable {disk m : Bytes} {dir i j t : ℕ}

lemma kernelBoot_disk : (kernelBoot disk).disk = disk := rfl

lemma entry_headerRam (hi : i < 1024) : entry headerRam 0xc0020000 i = 0 := by
  simp only [entry, headerRam, kernelElfHeader, kernelVirBase]
  rw [get32_put32_of_disjoint (by omega), get32_put32_of_disjoint (by omega),
    get32_put32_of_disjoint (by omega), get32_put32_of_disjoint (by omega),
    get32_put32_of_disjoint (by omega)]
  simp [get32]

lemma alignUp_headerRam : alignUp (kernelEnd headerRam 0) = 0xc0140000 := by
  rw [kernelEnd_headerRam]
  decide +kernel

lemma kernelRam_half (hi : 0x300 ≤ i) (hi' : i < 1024) :
    entry kernelRam 0xc0020000 i = 4096 * (i - 0x300) + 0x21003 := by
  unfold kernelRam entry
  rw [get32_put32_of_disjoint (by omega),
    show 0xc0020000 + 4 * i = 0xc0020c00 + 4 * (i - 0x300) by omega,
    get32_overlay_add (by omega), get32_wordBytes, Nat.mod_eq_of_lt (by omega)]

lemma kernelRam_user (hi : i < 0x300) (h0 : i ≠ 0) : entry kernelRam 0xc0020000 i = 0 := by
  unfold kernelRam entry
  rw [get32_put32_of_disjoint (by omega), get32_overlay_of_disjoint (by omega),
    get32_overlay_of_disjoint (by omega)]
  exact entry_headerRam (by omega)

lemma target_table (ht : t < 256) : target (4096 * t + 0x21003) = 0xc0021000 + 4096 * t := by
  rw [target]
  simp only [phy2Vir, kernelVirBase]
  omega

lemma kernelRam_table (ht : t < 256) (hj : j < 1024) : entry kernelRam (0xc0021000 + 4096 * t) j =
    if 1024 * t + j ≤ 8192 then 4096 * (1024 * t + j) + 3 else 0 := by
  unfold kernelRam entry
  rw [get32_put32_of_disjoint (by omega), get32_overlay_of_disjoint (by omega),
    show 0xc0021000 + 4096 * t + 4 * j = 0xc0021000 + 4 * (1024 * t + j) by omega,
    get32_overlay_add (by omega), get32_wordBytes]
  split
  · exact Nat.mod_eq_of_lt (by omega)
  · rfl

lemma kernelEnd_kernelRam : kernelEnd kernelRam 0 = 0xc0140000 := by decide +kernel

lemma alignUp_kernelRam : alignUp (kernelEnd kernelRam 0) = 0xc0140000 := by
  rw [kernelEnd_kernelRam]
  decide +kernel

lemma kernelRam_image : KernelImage kernelRam 0 0xc0020000 := by
  have hend := alignUp_kernelRam
  refine ⟨?_, ?_, by decide +kernel, by decide, ?_, fun i hi hp => ?_⟩
  · rw [hend]
    decide
  · rw [hend, phyLimit_eq]
    decide
  · rw [hend]
    decide
  · rw [hend]
    by_cases h0 : i = 0
    · have hfirst : entry kernelRam 0xc0020000 0 = 4096 * 0 + 0x21003 := by decide +kernel
      rw [h0, hfirst, target_table (by omega)]
      omega
    · rw [kernelRam_user hi h0] at hp
      exact absurd hp (by decide)

lemma kernelRam_returns :
    initMemory 0 ⟨kernelRam, 0⟩ = some ((initMemory 0 ⟨kernelRam, 0⟩).getD ⟨kernelRam, 0⟩) := by
  obtain ⟨s, hs, -⟩ := kernelRam_image.returns
  exact initMemory_getD ⟨s, hs⟩

lemma kernelRam_none : ∀ i < 0x300, i ≠ 0 → ¬ Present (entry kernelRam 0xc0020000 i) := by
  intro i hi h0
  rw [kernelRam_user hi h0]
  decide

/-- Two tables are all, when nothing but the first and the last entry is present. -/
lemma tablesUpTo_of_ends (h : ∀ i < 0x300, i ≠ 0 → i ≠ 0x2ff → ¬ Present (entry m dir i)) :
    tablesUpTo m dir 0x300 = tableAt m dir 0 ++ tableAt m dir 0x2ff := by
  have hmid : ∀ n ≤ 0x2fe, tablesUpTo m dir (n + 1) = tableAt m dir 0 := by
    intro n
    induction n with
    | zero => intro _; simp [tablesUpTo]
    | succ n ih =>
      intro hn
      rw [tablesUpTo_succ (n := n + 1), ih (by omega),
        tableAt_of_not (h (n + 1) (by omega) (by omega) (by omega)), List.append_nil]
  rw [tablesUpTo_succ, hmid 0x2fe le_rfl]

/-- What a process has of its own in these runs: the first table and one for the stack, with no more
than 1024 pages behind the one and the stack behind the other. -/
structure Small (k : System) (p : Fin pcbMax) : Prop where
  first : Present (entry k.mem.ram (k.pcblist p).pagedir 0)
  stack : Present (entry k.mem.ram (k.pcblist p).pagedir 0x2ff)
  size : (k.space p).length ≤ 1028

lemma Small.of_sameShape {k k' : System} {p q : Fin pcbMax} (h : Small k' q)
    (hs : SameShape k p k' q) : Small k p :=
  ⟨(hs.1 0 (by omega)).mpr h.first, (hs.1 0x2ff (by omega)).mpr h.stack, hs.2.le.trans h.size⟩

lemma UserMode.small {L : List ℕ} {k k' : System} (hu : UserMode L k k')
    (hdir : (k'.pcblist 0).pagedir = k.proc.pagedir)
    (hnone : ∀ i < 0x300, i ≠ 0 → ¬ Present (entry k.mem.ram k.proc.pagedir i)) : Small k' 0 := by
  obtain ⟨-, hfirst, hstack, hothers, hsingle⟩ := hu
  have hsingle := hsingle (hnone 0x2ff (by omega) (by omega))
  generalize k.proc.pagedir = D at *
  have hends : tablesUpTo k'.mem.ram D 0x300 =
      tableAt k'.mem.ram D 0 ++ tableAt k'.mem.ram D 0x2ff :=
    tablesUpTo_of_ends fun i hi h0 hi' hp => hnone i hi h0 (by rwa [hothers i hi h0 hi'] at hp)
  have hlast : (framesUpTo k'.mem.ram (target (entry k'.mem.ram D 0x2ff)) 1024).length ≤ 1 := by
    have hnil : framesUpTo k'.mem.ram (target (entry k'.mem.ram D 0x2ff)) 1023 = [] := by
      refine List.flatMap_eq_nil_iff.mpr fun j hj => ?_
      exact frameAt_of_not (hsingle j (List.mem_range.mp hj))
    rw [framesUpTo_succ, hnil, List.nil_append, length_frameAt]
    split <;> omega
  have htable : (framesUpTo k'.mem.ram (target (entry k'.mem.ram D 0)) 1024).length ≤ 1024 :=
    length_framesUpTo_le
  refine ⟨hdir ▸ hfirst, hdir ▸ hstack, ?_⟩
  rw [System.space, hdir, userPages, hends, List.length_cons, List.length_append,
    length_tableAt hfirst, length_tableAt hstack]
  omega

/-- The pool of a kernel that ends at `0xc0140000` after `switch_to_user`, and the space of process 0. -/
theorem userMode_spec {ram : Bytes} {pagedir : ℕ} {fileList : Fin fileMaxInSys → OpenFile}
    {keyboard : Device.Keyboard} {s : Mem} (hi : KernelImage ram 0 pagedir)
    (hs : initMemory 0 ⟨ram, 0⟩ = some s) (hend : alignUp (kernelEnd ram 0) = 0xc0140000)
    (hnone : ∀ i < 0x300, i ≠ 0 → ¬ Present (entry ram pagedir i)) :
    ∃ L, 7869 ≤ L.length ∧ (∀ q ∈ L, q < phy2Vir phySize) ∧
      Owned L (switchToUser (boot pagedir s fileList disk keyboard)) ∧
      Small (switchToUser (boot pagedir s fileList disk keyboard)) 0 := by
  have hmod := alignUp_mod (kernelEnd ram 0)
  have hlength := length_poolFrom hmod
  have ho := @boot_owned ram 0 pagedir fileList disk keyboard s hi hs
  have hnone' : ∀ i < 0x300, i ≠ 0 → ¬ Present (entry s.ram pagedir i) := by
    intro i hlt h0
    rw [initMemory_entry hi hs hlt]
    exact hnone i hlt h0
  obtain ⟨T, S, F, L, hL⟩ := hi.pool_cons
  have hmem : ∀ q ∈ T :: S :: F :: L, q < phy2Vir phySize := fun q hq =>
    ((mem_poolFrom hmod).mp (hL ▸ hq)).2.1
  rw [hL, hend] at hlength
  rw [hL] at ho
  have hu := switchToUser_spec ho (fun _ => boot_not_live) rfl
  obtain ⟨used, rest, hused, hlen, howned⟩ := hu.owned
  rw [hused, List.length_append] at hlength
  exact ⟨rest, by omega, fun q hq => hmem q (hused ▸ List.mem_append_right _ hq), howned,
    hu.small rfl hnone'⟩

end KernelBoot

end Nbos.Process
