import Nbos.Process.KernelHalf

/-!
# A child of process 0

A kernel with its tables, as `entry` makes them, whose process 0 has a child that runs. The child has the
tables of process 0 and pages behind both of them.
-/

namespace Nbos.Process

open Nbos.Lib Nbos.Kernel Nbos.Memory
open Nbos.Fs (installedDisk)

section KernelRam

variable {i p : ℕ} {disk : Bytes}

lemma kernelRam_tables : KernelTables kernelRam 0 0xc0020000 := by
  refine ⟨kernelRam_image, fun i hi h0 => ?_, fun i hi hi' _ => ?_, fun p hp => ?_⟩
  · rw [kernelRam_user hi h0]
    decide
  · rw [alignUp_kernelRam, kernelRam_half hi hi', target_table (by omega)]
    omega
  · obtain ⟨hlo, hhi, hmod⟩ := mem_pool.mp hp
    rw [alignUp_kernelRam] at hlo
    rw [phyLimit_eq] at hhi
    simp only [pageSize] at hmod
    obtain ⟨t, ht, hdir⟩ : ∃ t < 8, dirIdx p = 0x300 + t := by
      refine ⟨p / 2 ^ 22 - 0x300, by omega, ?_⟩
      show p / 2 ^ 22 = _
      omega
    have hitem : tableIdx p = (p - 0xc0000000) / 4096 - 1024 * t := by
      simp only [dirIdx, tableIdx] at hdir ⊢
      omega
    have hword : entry kernelRam (0xc0021000 + 4096 * t) (tableIdx p) = p - 0xc0000000 + 3 := by
      rw [kernelRam_table (by omega) tableIdx_lt, if_pos (by simp only [dirIdx] at hdir; omega)]
      simp only [dirIdx] at hdir
      omega
    have hhalf : entry kernelRam 0xc0020000 (dirIdx p) = 4096 * t + 0x21003 := by
      rw [hdir, kernelRam_half (by omega) (by omega)]
      omega
    rw [hhalf, target_table (by omega), hword]
    refine ⟨?_, ?_, ?_⟩
    · unfold Present
      omega
    · unfold Present
      omega
    · rw [target]
      simp only [phy2Vir, kernelVirBase]
      omega

/-- A child of process 0, with the first table and the one for the stack. -/
structure FirstChild (disk : Bytes) (L : List ℕ) (k : System) : Prop where
  run : Run Step Careful (kernelBoot disk) childRuns k
  shared : Shared kernelRam 0 0xc0020000 L k
  length : 6841 ≤ L.length
  disk : k.disk = disk
  live : Live k k.current
  pid : k.proc.pid ≠ 0
  small : Small k k.current
  ends : ∀ i < 0x300, i ≠ 0 → i ≠ 0x2ff → ¬ Present (entry k.mem.ram k.proc.pagedir i)

/-- Process 0 has no other tables than these. -/
lemma kernelBoot_ends (hi : i < 0x300) (h0 : i ≠ 0) (hi' : i ≠ 0x2ff) :
    ¬ Present (entry (kernelBoot disk).mem.ram ((kernelBoot disk).pcblist 0).pagedir i) := by
  have ho := @boot_owned kernelRam 0 0xc0020000 (fun _ => ⟨0, 0, 0, 0, false⟩) disk .init _
    kernelRam_image kernelRam_returns
  obtain ⟨T, S, F, L, hL⟩ := kernelRam_image.pool_cons
  rw [hL] at ho
  have hentry := (switchToUser_spec ho (fun _ => boot_not_live) rfl).others i hi h0 hi'
  have hboot : entry ((initMemory 0 ⟨kernelRam, 0⟩).getD ⟨kernelRam, 0⟩).ram 0xc0020000 i = 0 :=
    (initMemory_entry kernelRam_image kernelRam_returns hi).trans (kernelRam_user hi h0)
  intro hp
  have hzero : entry (kernelBoot disk).mem.ram ((kernelBoot disk).pcblist 0).pagedir i = 0 :=
    hentry.trans hboot
  rw [hzero] at hp
  exact absurd hp (by decide)

lemma firstChild (hany : (performNotRoot childRuns (kernelBoot disk)).any (fun k : System =>
    decide (k.current = 1 ∧ (k.pcblist 1).pstate = .running ∧ (k.pcblist 1).pid = 1)) = true) :
    ∃ k L, FirstChild disk L k := by
  obtain ⟨k, hrun, hroom, hdisk, hcur, hlive, hpid⟩ := childRuns_of kernelBoot_roomy hany
  obtain ⟨-, L, hs⟩ := run_shared kernelRam_tables kernelBoot_begins hrun
  obtain ⟨K, hlen, ho, -⟩ := hroom.pages
  obtain rfl := ho.freePages.unique hs.owned.freePages
  obtain ⟨-, L₀, ho₀⟩ := Begins.owned (k := kernelBoot disk) kernelRam_image kernelBoot_begins
  rw [← hcur] at hlive
  refine ⟨k, K, hrun, hs, hlen, hdisk, hlive, by rw [hpid]; decide, hroom.small _ (.inr hlive), ?_⟩
  intro i hi h0 hi' hp
  obtain ⟨q, hq, hpresent, -⟩ := run_shape ho₀ kernelBoot_roomy.sane hrun k.current (.inr hlive)
  obtain rfl := hq.resolve_right boot_not_live
  exact kernelBoot_ends hi h0 hi' ((hpresent i hi).mp hp)

/-- Behind the last entry of the new table is the stack. -/
lemma walk_mapStack {S F : ℕ} {L : List ℕ} {s : Mem} {dir t : ℕ} (hfree : FreeList s (S :: F :: L) t)
    (hF : IsPage F) (hmod : dir % 4096 = 0) (hnot : ¬ Present (entry s.ram dir 0x2ff)) :
    walk (mapStack dir s).ram dir 0xbffff000 = some (itemWord (vir2Phy S) 1) := by
  have hFm := hF.mod
  rw [mapStack_of_not hfree hF hnot]
  have hpde : entry (put32 (put32 (fill s.ram F pageSize 0) (dir + 4 * 0x2ff) (itemWord (vir2Phy F) 1))
      (F + 4092) (itemWord (vir2Phy S) 1)) dir 0x2ff = itemWord (vir2Phy F) 1 := by
    rw [entry, get32_put32_of_disjoint (by omega), get32_put32, Nat.mod_eq_of_lt itemWord_lt]
  have hpte : entry (put32 (put32 (fill s.ram F pageSize 0) (dir + 4 * 0x2ff) (itemWord (vir2Phy F) 1))
      (F + 4092) (itemWord (vir2Phy S) 1)) F 1023 = itemWord (vir2Phy S) 1 := by
    rw [entry, get32_put32, Nat.mod_eq_of_lt itemWord_lt]
  have hdir : 0xbffff000 / 2 ^ 22 = 0x2ff := by decide
  have hitem : 0xbffff000 / 2 ^ 12 % 1024 = 1023 := by decide
  rw [walk_of_entries (T := F) (w := itemWord (vir2Phy S) 1), if_pos present_itemWord]
  · rw [hdir, hpde]
    exact present_itemWord
  · rw [hdir, hpde, target_itemWord hFm hF.lt]
  · rw [hitem, hpte]

/-- The pages of a process with these two tables. -/
lemma length_space {k : System} {p : Fin pcbMax} (hs : Small k p)
    (hends : ∀ i < 0x300, i ≠ 0 → i ≠ 0x2ff → ¬ Present (entry k.mem.ram (k.pcblist p).pagedir i)) :
    (k.space p).length = 3 +
      (framesUpTo k.mem.ram (target (entry k.mem.ram (k.pcblist p).pagedir 0)) 1024).length +
      (framesUpTo k.mem.ram (target (entry k.mem.ram (k.pcblist p).pagedir 0x2ff)) 1024).length := by
  rw [System.space, userPages, tablesUpTo_of_ends hends, List.length_cons, List.length_append,
    length_tableAt hs.first, length_tableAt hs.stack]
  omega

/-- Process 0 has its stack, and a page behind its first table. -/
lemma kernelBoot_space : 5 ≤ ((kernelBoot disk).space 0).length := by
  have ho := @boot_owned kernelRam 0 0xc0020000 (fun _ => ⟨0, 0, 0, 0, false⟩) disk .init _
    kernelRam_image kernelRam_returns
  obtain ⟨T, S, F, L, hL⟩ := kernelRam_image.pool_cons
  rw [hL] at ho
  have hF : IsPage F := ho.list.page F (by simp)
  have hinit : ∀ i < 0x300, entry ((initMemory 0 ⟨kernelRam, 0⟩).getD ⟨kernelRam, 0⟩).ram 0xc0020000 i =
      entry kernelRam 0xc0020000 i := fun i hi => initMemory_entry kernelRam_image kernelRam_returns hi
  have hnot : ¬ Present (entry ((initMemory 0 ⟨kernelRam, 0⟩).getD ⟨kernelRam, 0⟩).ram 0xc0020000 0x2ff) := by
    rw [hinit _ (by omega), kernelRam_user (by omega) (by omega)]
    decide
  -- the stack
  obtain ⟨s, hmem, hfirst⟩ := switchToUser_mem ho rfl
  have hwalk := walk_mapStack hfirst.free hF hfirst.apart.mod (by
    rwa [hfirst.others 0x2ff (by omega) (by omega)])
  rw [← hmem] at hwalk
  obtain ⟨-, hj, -⟩ := walk_eq_some hwalk
  have hstack : 0 < (framesUpTo (kernelBoot disk).mem.ram
      (target (entry (kernelBoot disk).mem.ram 0xc0020000 0x2ff)) 1024).length :=
    List.length_pos_of_mem (mem_framesUpTo.mpr ⟨1023, by omega, hj, rfl⟩)
  -- the page at 0
  have hlow : Present (entry (kernelBoot disk).mem.ram
      (target (entry (kernelBoot disk).mem.ram 0xc0020000 0)) 0) := by
    refine (switchToUser_items (j := 0) ho rfl hnot (by omega)).mpr ?_
    show Present (entry ((initMemory 0 ⟨kernelRam, 0⟩).getD ⟨kernelRam, 0⟩).ram
      (target (entry ((initMemory 0 ⟨kernelRam, 0⟩).getD ⟨kernelRam, 0⟩).ram 0xc0020000 0)) 0)
    have hdir : entry kernelRam 0xc0020000 0 = 4096 * 0 + 0x21003 := by decide +kernel
    rw [hinit 0 (by omega), hdir, target_table (by omega),
      entry_below kernelRam_image kernelRam_returns (by omega) (by rw [alignUp_kernelRam]; omega) (by omega),
      kernelRam_table (by omega) (by omega)]
    decide
  have hframes : 0 < (framesUpTo (kernelBoot disk).mem.ram
      (target (entry (kernelBoot disk).mem.ram 0xc0020000 0)) 1024).length :=
    List.length_pos_of_mem (mem_framesUpTo.mpr ⟨0, by omega, hlow, rfl⟩)
  have hlen := length_space (kernelBoot_roomy.small 0 (.inl rfl)) fun i hi h0 hi' =>
    @kernelBoot_ends i disk hi h0 hi'
  have hdir : ((kernelBoot disk).pcblist 0).pagedir = 0xc0020000 := rfl
  rw [hdir] at hlen
  omega

/-- And so has its child. -/
lemma FirstChild.five {L : List ℕ} {k : System} (hc : FirstChild disk L k) :
    5 ≤ (k.space k.current).length := by
  obtain ⟨-, L₀, ho₀⟩ := Begins.owned (k := kernelBoot disk) kernelRam_image kernelBoot_begins
  obtain ⟨q, hq, -, hshape⟩ := run_shape ho₀ kernelBoot_roomy.sane hc.run k.current (.inr hc.live)
  obtain rfl := hq.resolve_right boot_not_live
  rw [hshape]
  exact kernelBoot_space

lemma FirstChild.mapped {L : List ℕ} {k : System} (hc : FirstChild disk L k) :
    ∃ va < kernelVirBase, walk k.mem.ram k.proc.pagedir va ≠ none := by
  by_contra! hnone
  have hnil : ∀ i < 0x300, Present (entry k.mem.ram k.proc.pagedir i) →
      framesUpTo k.mem.ram (target (entry k.mem.ram k.proc.pagedir i)) 1024 = [] := fun i hi hp => by
    refine List.eq_nil_iff_forall_not_mem.mpr fun q hq => ?_
    obtain ⟨j, hj, hpj, -⟩ := mem_framesUpTo.mp hq
    have hdir : (i * 2 ^ 22 + j * 2 ^ 12) / 2 ^ 22 = i := by omega
    have hitem : (i * 2 ^ 22 + j * 2 ^ 12) / 2 ^ 12 % 1024 = j := by omega
    have hwalk := hnone (i * 2 ^ 22 + j * 2 ^ 12) (by simp only [kernelVirBase]; omega)
    rw [walk_of_entries (by rwa [hdir]) rfl rfl, hdir, hitem, if_pos hpj] at hwalk
    cases hwalk
  have hlen := length_space hc.small hc.ends
  rw [System.proc] at hnil
  rw [hnil 0 (by omega) hc.small.first, hnil 0x2ff (by omega) hc.small.stack] at hlen
  have hfive := hc.five
  simp only [List.length_nil] at hlen
  omega

end KernelRam

end Nbos.Process
