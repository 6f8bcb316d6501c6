import Nbos.Memory.Mapping
import Nbos.Process.Isolation

/-!
# The kernel half

The tables of the kernel are made once, by `entry`, and all directories share them. `Shared` is the
invariant: every process has the kernel half of the first directory, the tables behind it are as they
were, and no page that is free or belongs to a process is one of them. Careful calls keep it
(`run_shared`).
-/

namespace Nbos.Process

open Nbos.Lib Nbos.Kernel Nbos.Memory

/-- What `entry` leaves of the directory: nothing in the user half but the first table, and a kernel half
whose tables are in the image of the kernel and have every page of the pool where it is. -/
structure KernelTables (ram : Bytes) (junk pagedir : ℕ) : Prop where
  image : KernelImage ram junk pagedir
  user : ∀ i < 0x300, i ≠ 0 → ¬ Present (entry ram pagedir i)
  below : ∀ i, 0x300 ≤ i → i < 1024 → Present (entry ram pagedir i) →
    target (entry ram pagedir i) < alignUp (kernelEnd ram junk) ∧ target (entry ram pagedir i) ≠ pagedir
  linear : ∀ p ∈ pool (kernelEnd ram junk), Present (entry ram pagedir (dirIdx p)) ∧
    Present (entry ram (target (entry ram pagedir (dirIdx p))) (tableIdx p)) ∧
    target (entry ram (target (entry ram pagedir (dirIdx p))) (tableIdx p)) = p

/-- The kernel half is that of the boot, for every process. -/
structure Shared (ram : Bytes) (junk pagedir : ℕ) (L : List ℕ) (k : System) : Prop where
  owned : Owned L k
  pool : ∀ q, Held L k q → q ∈ pool (kernelEnd ram junk)
  half : ∀ p, p = 0 ∨ Live k p → ∀ i, 0x300 ≤ i → i < 1024 →
    entry k.mem.ram (k.pcblist p).pagedir i = entry ram pagedir i
  tables : ∀ i, 0x300 ≤ i → i < 1024 → Present (entry ram pagedir i) → ∀ j < 1024,
    entry k.mem.ram (target (entry ram pagedir i)) j = entry ram (target (entry ram pagedir i)) j

section Shared

variable {ram : Bytes} {junk pagedir : ℕ} {k₀ k k' : System} {h : List Call} {c : Call} {L L' W : List ℕ}

/-- The tables of the kernel are none of the pages of the pool. -/
lemma KernelTables.not_mem (ht : KernelTables ram junk pagedir) {i : ℕ} (hi : 0x300 ≤ i) (hi' : i < 1024)
    (hp : Present (entry ram pagedir i)) :
    target (entry ram pagedir i) ∉ pool (kernelEnd ram junk) := fun hm => by
  obtain ⟨hlt, -⟩ := ht.below i hi hi' hp
  exact absurd (mem_pool.mp hm).1 (by omega)

/-- A step that writes pages of the pool only, and gives every process the half of one. -/
lemma Shared.of_frame (ht : KernelTables ram junk pagedir) (hs : Shared ram junk pagedir L k)
    (ho : Owned L' k') (hheld : ∀ q, Held L' k' q → Held L k q) (hW : ∀ q ∈ W, Held L k q)
    (hframe : ∀ x, Off W x → k'.mem.ram x = k.mem.ram x)
    (hhalf : ∀ p, p = 0 ∨ Live k' p → ∀ i, 0x300 ≤ i → i < 1024 →
      entry k'.mem.ram (k'.pcblist p).pagedir i = entry ram pagedir i) : Shared ram junk pagedir L' k' := by
  refine ⟨ho, fun q hq => hs.pool q (hheld q hq), hhalf, fun i hi hi' hp j hj => ?_⟩
  rw [← hs.tables i hi hi' hp j hj]
  refine entry_congr hj fun o hlt => hframe _ (off_of_not_mem (fun q hq => ?_) (target_mod _) hlt fun hm => ?_)
  · exact pool_mod (hs.pool q (hW q hq))
  · exact ht.not_mem hi hi' hp (hs.pool _ (hW _ hm))

/-- A quiet step. -/
lemma Shared.quiet (ht : KernelTables ram junk pagedir) (hs : Shared ram junk pagedir L k)
    (hkept : Kept L k L' k') (hq : Quiet k k') : Shared ram junk pagedir L' k' := by
  refine hs.of_frame ht (W := []) hkept.owned hkept.held (fun q hq => absurd hq List.not_mem_nil)
    (fun x _ => by rw [hq.mem]) fun p hp i hi hi' => ?_
  have hp' : p = 0 ∨ Live k p := hp.imp id (hq.live p).mp
  rw [hq.mem, hq.pagedir p hp']
  exact hs.half p hp' i hi hi'

/-- The addresses of the kernel half are translated as at the boot, in every process. -/
lemma Shared.walk_eq (hs : Shared ram junk pagedir L k) {p : Fin pcbMax} {va : ℕ} (hp : p = 0 ∨ Live k p)
    (hva : kernelVirBase ≤ va) (hva' : va < 2 ^ 32) :
    walk k.mem.ram (k.pcblist p).pagedir va = walk ram pagedir va := by
  simp only [kernelVirBase] at hva
  have hlo : 0x300 ≤ va / 2 ^ 22 := by omega
  have hhi : va / 2 ^ 22 < 1024 := by omega
  unfold walk
  rw [hs.half p hp _ hlo hhi]
  by_cases hpres : Present (entry ram pagedir (va / 2 ^ 22))
  · simp only [if_pos hpres, hs.tables _ hlo hhi hpres _ (Nat.mod_lt _ (by omega))]
  · simp only [if_neg hpres]

/-! ### From the boot on -/

variable {fileList : Fin fileMaxInSys → OpenFile} {disk : Bytes} {keyboard : Device.Keyboard} {s : Mem}

/-- A table below the pool is not touched by `init_memory`. -/
lemma entry_below (hi : KernelImage ram junk pagedir) (hs : initMemory junk ⟨ram, 0⟩ = some s) {q i : ℕ}
    (hq : q % 4096 = 0) (hlt : q < alignUp (kernelEnd ram junk)) (hi' : i < 1024) :
    entry s.ram q i = entry ram q i := by
  obtain ⟨-, hkept⟩ := hi.initMemory hs
  have hmod := alignUp_mod (kernelEnd ram junk)
  simp only [pageSize] at hmod
  exact entry_congr hi' fun o ho => hkept _ (by omega)

lemma shared_boot (ht : KernelTables ram junk pagedir) (hs : initMemory junk ⟨ram, 0⟩ = some s) :
    Shared ram junk pagedir (poolFrom (alignUp (kernelEnd ram junk)))
      (boot pagedir s fileList disk keyboard) := by
  have hi := ht.image
  refine ⟨boot_owned hi hs, fun q hq => ?_, fun p hp i hlo hhi => ?_, fun i hlo hhi hp j hj => ?_⟩
  · exact mem_poolFrom_alignUp.mp (hq.resolve_right fun ⟨p, hp, _⟩ => boot_not_live hp)
  · obtain rfl := hp.resolve_right boot_not_live
    exact entry_below hi hs hi.pagedirMod hi.pagedirLow hhi
  · exact entry_below hi hs (target_mod _) (ht.below i hlo hhi hp).1 hj

/-- `switch_to_user` changes the user half of process 0 alone. -/
lemma shared_userMode (ht : KernelTables ram junk pagedir) (hinit : initMemory junk ⟨ram, 0⟩ = some s) :
    ∃ L, Shared ram junk pagedir L (switchToUser (boot pagedir s fileList disk keyboard)) := by
  have hi := ht.image
  have hs := @shared_boot ram junk pagedir fileList disk keyboard s ht hinit
  obtain ⟨T, S, F, L, hL⟩ := hi.pool_cons
  rw [hL] at hs
  have hstack : ¬ Present (entry s.ram pagedir 0x2ff) := by
    rw [entry_below hi hinit hi.pagedirMod hi.pagedirLow (by omega)]
    exact ht.user 0x2ff (by omega) (by omega)
  obtain ⟨used, rest, hused, -, howned⟩ := (switchToUser_spec hs.owned (fun _ => boot_not_live) rfl).owned
  have honly := switchToUser_userOnly hs.owned rfl hstack
  have hmod : ∀ q ∈ T :: S :: F :: L, q % 4096 = 0 := fun q hq => (hs.owned.list.page q hq).mod
  have hroot := hs.owned.root
  have hnone : ∀ p, ¬ Live (switchToUser (boot pagedir s fileList disk keyboard)) p :=
    fun p => boot_not_live
  refine ⟨rest, howned, fun q hq => ?_, fun p hp i hlo hhi => ?_, fun i hlo hhi hp j hj => ?_⟩
  · refine hs.pool q (.inl (hused ▸ List.mem_append_right _ ?_))
    exact hq.resolve_right fun ⟨p, hp, _⟩ => hnone p hp
  · obtain rfl := hp.resolve_right (hnone p)
    exact (honly.entry_kernel hmod hroot.mod hroot.mod hroot.self hlo hhi).trans
      (hs.half 0 (.inl rfl) i hlo hhi)
  · refine (honly.entry_table hmod hroot.mod (target_mod _) ?_ hj).trans (hs.tables i hlo hhi hp j hj)
    rw [List.mem_cons, not_or]
    exact ⟨(ht.below i hlo hhi hp).2, fun hm => ht.not_mem hlo hhi hp (hs.pool _ (.inl hm))⟩

lemma Begins.shared (ht : KernelTables ram junk pagedir) (hb : Begins ram junk pagedir k) :
    Sane k ∧ ∃ L, Shared ram junk pagedir L k := by
  refine ⟨(hb.owned ht.image).1, ?_⟩
  obtain ⟨s, fileList, disk, keyboard, hs, rfl | rfl⟩ := hb
  · exact ⟨_, shared_boot ht hs⟩
  · exact shared_userMode ht hs

/-! ### Careful calls -/

/-- **Every careful step keeps it.** -/
theorem Shared.step (ht : KernelTables ram junk pagedir) (hk : Sane k) (hs : Shared ram junk pagedir L k)
    (hG : Careful c k) (hstep : Step c k k') : ∃ L', Shared ram junk pagedir L' k' := by
  obtain ⟨L', hkept, -⟩ := hs.owned.step hk hG hstep
  refine ⟨L', ?_⟩
  rcases hstep.careful_cases hk hG with hq | ⟨ptr, p, pid, rfl, -, hf, hE⟩ | ⟨rfl, hlive, hx⟩
  · exact hs.quiet ht hkept hq
  · have hmod : ∀ q ∈ L, q % 4096 = 0 := fun q hq => (hs.owned.list.page q hq).mod
    have hA := hs.owned.apart_free hk.current_live
    have hc := copied hs.owned.list hs.owned.free hA.mod hA.self hA.tables (hs.owned.enough hE)
    rw [← hf.mem] at hc
    refine hs.of_frame ht hkept.owned hkept.held (fun q hq => .inl hq) hc.frame fun q hq i hlo hhi => ?_
    by_cases hqp : q = p
    · rw [hqp, hf.proc]
      exact (hc.kernelHalf i hlo hhi).trans (hs.half k.current hk.current_live i hlo hhi)
    · have hq' : q = 0 ∨ Live k q := hq.imp id fun hq => by
        unfold Live at hq ⊢
        rwa [hf.pcb q hqp] at hq
      rw [hf.pcb q hqp, (hs.owned.apart_free hq').entry_dir hmod hc.frame hhi]
      exact hs.half q hq' i hlo hhi
  · set D := k.proc.pagedir with hD
    have hDm : D % 4096 = 0 :=
      ((hs.owned.space k.current hlive).append.1.page D System.dir_mem_space).mod
    refine hs.of_frame ht (W := [D]) hkept.owned hkept.held (fun q hq => ?_) (fun x hoff => hx.frame hoff)
      fun q hq i hlo hhi => ?_
    · obtain rfl := List.mem_singleton.mp hq
      exact .inr ⟨k.current, hlive, System.dir_mem_space⟩
    · have hq' : q = 0 ∨ Live k q := hq.imp id fun hq => (hx.live hq).2
      rw [hx.pagedir, ← hs.half q hq' i hlo hhi]
      refine entry_congr hhi fun o ho => hx.frame (off_of_not_mem (by simpa using hDm)
        (hs.owned.apart_free hq').mod ho fun hm => ?_)
      have hqD := List.mem_singleton.mp hm
      rcases hq with rfl | hq
      · exact (hs.owned.rootApart k.current hlive).self (hqD ▸ System.dir_mem_space)
      · obtain ⟨hqp, hlive'⟩ := hx.live hq
        exact hs.owned.apart q k.current hlive' hlive hqp System.dir_mem_space
          (hqD ▸ System.dir_mem_space)

/-- The kernel half is that of the boot along a run of careful calls. -/
theorem run_shared (ht : KernelTables ram junk pagedir) (hb : Begins ram junk pagedir k₀)
    (hrun : Run Step Careful k₀ h k) : Sane k ∧ ∃ L, Shared ram junk pagedir L k := by
  refine hrun.inv (fun k => Sane k ∧ ∃ L, Shared ram junk pagedir L k) (hb.shared ht) ?_
  rintro c k k' ⟨hk, L, hs⟩ hG hstep
  exact ⟨hk.step hstep, hs.step ht hk hG hstep⟩

end Shared

end Nbos.Process
