import Nbos.Boot.LoadKernel
import Nbos.Process.Memories

/-!
# The kernel in memory

From the disk to the processes: `loader_main` loads the kernel, `entry` maps it, `init_memory` takes the
pages behind it. What the kernel does not write itself, its text, is what the file says ever after: no
call, no interrupt and no program writes there, and every process has it at its address
(`kernel_stays`).
-/

namespace Nbos.Boot

open Nbos.Lib Nbos.Kernel Nbos.Memory Nbos.Process
open Nbos.Fs (installedDisk)

/-! ### The file -/

/-- Memory as the kernel sees it, from `0xc0000000` up. -/
def atBase (m : Bytes) : Bytes := fun x => m (x - kernelVirBase)

/-- The end of the last segment. -/
def imageEnd (d : Bytes) (junk : ℕ) : ℕ :=
  ((kernelSegments d).getLast?.map fun sg => (sg.vaddr + sg.memsize) % 2 ^ 32).getD junk

/-- The address is zero, and the loader does not write it. -/
structure Blank (d m : Bytes) (x : ℕ) : Prop where
  zero : m x = 0
  header : x < elfHeaderAt ∨ elfHeaderAt + pageSize ≤ x
  clear : ∀ sg ∈ kernelSegments d, Clear x sg

/-- A kernel as the linker makes it, in a memory that is zero where the file has nothing: its directory
and its tables are variables without a value, behind the text. -/
structure Image (d m : Bytes) (junk pagedir pagetables : ℕ) : Prop
    extends Bootable d, Placed pagedir pagetables where
  dirText : 0xc0010000 ≤ pagedir
  tablesText : 0xc0010000 ≤ pagetables
  dirIn : pagedir + pageSize ≤ alignUp (imageEnd d junk)
  tablesIn : pagetables + 256 * pageSize ≤ alignUp (imageEnd d junk)
  room : alignUp (imageEnd d junk) + 3 * pageSize ≤ phy2Vir phySize
  last : ∀ x, lastPage ≤ x → x < lastPage + 4 → Blank d m (x - kernelVirBase)
  dirBlank : ∀ x, pagedir ≤ x → x < pagedir + pageSize → Blank d m (x - kernelVirBase)
  tablesBlank : ∀ x, pagetables ≤ x → x < pagetables + 256 * pageSize → Blank d m (x - kernelVirBase)
  inside : ∀ sg ∈ kernelSegments d,
    kernelVirBase ≤ sg.vaddr ∧ sg.vaddr + sg.filesize ≤ alignUp (imageEnd d junk)

/-- A segment of the kernel that is not for writing, by its flags. -/
def ReadOnly (d : Bytes) (sg : Segment) : Prop :=
  ∃ i < get16 (kernelFile d) 44, ∃ ph, ph = get32 (kernelFile d) 28 + 32 * i ∧
    get32 (kernelFile d) ph = loadSeg ∧ get32 (kernelFile d) (ph + 24) / 2 % 2 = 0 ∧
      sg = segmentAt (kernelFile d) ph

section Image

variable {d m m' f : Bytes} {junk pagedir pagetables x n off i : ℕ} {sg : Segment}

lemma mem_segmentsFrom (hi : i < n) (hload : get32 f (off + 32 * i) = loadSeg) :
    segmentAt f (off + 32 * i) ∈ segmentsFrom f n off := by
  induction i generalizing n off with
  | zero =>
    obtain ⟨n, rfl⟩ := Nat.exists_eq_succ_of_ne_zero (by omega : n ≠ 0)
    rw [Nat.mul_zero, Nat.add_zero] at hload ⊢
    rw [segmentsFrom, if_pos hload]
    exact List.mem_cons_self
  | succ i ih =>
    obtain ⟨n, rfl⟩ := Nat.exists_eq_succ_of_ne_zero (by omega : n ≠ 0)
    have hnext : off + 32 * (i + 1) = off + 32 + 32 * i := by omega
    rw [hnext] at hload ⊢
    have hmem := ih (n := n) (by omega) hload
    rw [segmentsFrom]
    split
    · exact List.mem_cons_of_mem _ hmem
    · exact hmem

lemma ReadOnly.mem (h : ReadOnly d sg) : sg ∈ kernelSegments d := by
  obtain ⟨i, hi, ph, rfl, hload, -, rfl⟩ := h
  exact mem_segmentsFrom hi hload

/-- What is zero at the start is so for the kernel. -/
lemma Blank.loaded (h : Blank d m (x - kernelVirBase)) (hl : Loaded d m m') : atBase m' x = 0 := by
  rw [atBase, hl.off _ h.header h.clear]
  exact h.zero

lemma kernelEnd_atBase (hb : Bootable d) (hl : Loaded d m m') :
    kernelEnd (atBase m') junk = imageEnd d junk := by
  unfold atBase imageEnd
  exact hl.kernelEnd hb

/-- What the loader leaves is what `entry` is written for. -/
lemma Image.linked (hi : Image d m junk pagedir pagetables) (hl : Loaded d m m') :
    Linked (atBase m') junk pagedir pagetables := by
  have hend := @kernelEnd_atBase _ _ _ junk hi.toBootable hl
  refine ⟨hi.toPlaced, hi.dirText, hi.tablesText, ?_, hend ▸ hi.dirIn, hend ▸ hi.tablesIn, hend ▸ hi.room, ?_,
    fun x hx hx' => (hi.dirBlank x hx hx').loaded hl, fun x hx hx' => (hi.tablesBlank x hx hx').loaded hl⟩
  · have hmax := hi.headers
    unfold atBase
    rw [hl.word (by omega), hl.phnum]
    simp only [pageSize] at hmax
    omega
  · have hzero : ∀ o < 4, atBase m' (lastPage + o) = 0 := fun o ho =>
      (hi.last (lastPage + o) (by omega) (by omega)).loaded hl
    have hfirst : atBase m' lastPage = 0 := hzero 0 (by omega)
    rw [get32, hfirst, hzero 1 (by omega), hzero 2 (by omega), hzero 3 (by omega)]
    rfl

/-- The byte of a segment as `entry` leaves it: the directory and the tables are elsewhere. -/
lemma Image.entryTables_segment (hi : Image d m junk pagedir pagetables) (hl : Loaded d m m')
    (hsg : sg ∈ kernelSegments d) (hx : x < sg.filesize) :
    (sg.vaddr + x < pagedir ∨ pagedir + pageSize ≤ sg.vaddr + x) ∧
      entryTables pagedir pagetables (atBase m') (sg.vaddr + x) = kernelFile d (sg.offset + x) := by
  obtain ⟨hlow, hhigh⟩ := hi.inside sg hsg
  have hroom := hi.room
  have hphys : physAddr sg + x = sg.vaddr + x - kernelVirBase := by
    simp only [physAddr, vir2Phy, phyLimit_eq, kernelVirBase, pageSize] at hlow hroom ⊢
    omega
  -- what the loader has written for it is not zero for sure
  have hwritten : ¬ Clear (sg.vaddr + x - kernelVirBase) sg := by
    rw [← hphys]
    unfold Clear
    have hoff : (UInt32.ofNat sg.offset).toNat = sg.offset :=
      UInt32.toNat_ofNat_of_lt (hi.segments.whole sg hsg).offset
    rcases (hi.segments.whole sg hsg).covers with hzero | ⟨hcovers, -⟩
    · omega
    · rw [hoff] at hcovers
      omega
  have hdir : sg.vaddr + x < pagedir ∨ pagedir + pageSize ≤ sg.vaddr + x := by
    by_contra hin
    exact hwritten ((hi.dirBlank _ (by omega) (by omega)).clear sg hsg)
  have htables : sg.vaddr + x < pagetables ∨ pagetables + 256 * pageSize ≤ sg.vaddr + x := by
    by_contra hin
    exact hwritten ((hi.tablesBlank _ (by omega) (by omega)).clear sg hsg)
  refine ⟨hdir, ?_⟩
  rw [(entryTables_mapped hi.toPlaced).off _ hdir htables, atBase, ← hphys]
  exact hl.segments sg hsg x hx

end Image

/-! ### Below the pool -/

section Below

variable {ram : Bytes} {junk pagedir x : ℕ} {k k' : System} {L : List ℕ} {c : Call} {e : Deed}

/-- `init_memory` and `switch_to_user` leave the kernel alone, but for its directory. -/
lemma begins_below (ht : KernelTables ram junk pagedir) (hb : Begins ram junk pagedir k)
    (hx : x < alignUp (kernelEnd ram junk)) (hdir : x < pagedir ∨ pagedir + pageSize ≤ x) :
    k.mem.ram x = ram x := by
  have hi := ht.image
  obtain ⟨s, fileList, disk, keyboard, hinit, hk⟩ := hb
  obtain ⟨-, hbelow⟩ := hi.initMemory hinit
  obtain rfl | rfl := hk
  · exact hbelow x hx
  · have hs := @shared_boot ram junk pagedir fileList disk keyboard s ht hinit
    obtain ⟨T, S, F, L, hL⟩ := hi.pool_cons
    have hstack : ¬ Present (entry s.ram pagedir 0x2ff) := by
      rw [entry_below hi hinit hi.pagedirMod hi.pagedirLow (by omega)]
      exact ht.user 0x2ff (by omega) (by omega)
    have honly := switchToUser_userOnly (hL ▸ hs.owned) rfl hstack
    refine (honly x (fun q hq hqx => ?_) ?_).trans (hbelow x hx)
    · have hpool := mem_pool.mp (mem_poolFrom_alignUp.mp (hL ▸ hq))
      exact absurd hqx.1 (by omega)
    · simp only [pageSize] at hdir
      show x < pagedir ∨ pagedir + 0xc00 ≤ x
      omega

/-- Pages of the pool are not below it. -/
lemma off_pool {W : List ℕ} (hW : ∀ q ∈ W, q ∈ pool (kernelEnd ram junk))
    (hx : x < alignUp (kernelEnd ram junk)) : Off W x := fun q hq hqx =>
  absurd hqx.1 (by have := (mem_pool.mp (hW q hq)).1; omega)

/-- **No call writes below the pool.** -/
lemma call_below (hk : Sane k) (hs : Shared ram junk pagedir L k) (hG : Nbos.Process.Careful c k)
    (hstep : Nbos.Process.Step c k k') (hx : x < alignUp (kernelEnd ram junk)) :
    k'.mem.ram x = k.mem.ram x := by
  rcases hstep.careful_cases hk hG with hq | ⟨ptr, p, pid, rfl, -, hf, hE⟩ | ⟨rfl, hlive, hx'⟩
  · rw [hq.mem]
  · have hA := hs.owned.apart_free hk.current_live
    have hc := copied hs.owned.list hs.owned.free hA.mod hA.self hA.tables (hs.owned.enough hE)
    rw [← hf.mem] at hc
    exact hc.frame x (off_pool (fun q hq => hs.pool q (.inl hq)) hx)
  · refine hx'.frame (off_pool (fun q hq => hs.pool q ?_) hx)
    rw [List.mem_singleton.mp hq]
    exact .inr ⟨k.current, hlive, System.dir_mem_space⟩

/-- Nor does a program. -/
lemma deed_below (hsup : Supervised ram pagedir) (hk : Ordered ram junk pagedir k) (hG : e.Careful k)
    (he : e.Step k k') (hx : x < alignUp (kernelEnd ram junk)) : k'.mem.ram x = k.mem.ram x := by
  obtain ⟨L, hs⟩ := hk.shared
  cases e with
  | call c => exact call_below hk.sane hs hG he hx
  | store va b =>
    have hlive := hk.sane.current_live.resolve_left hG
    obtain ⟨pte, hva, hw, rfl⟩ := storeByte_spec hsup hs hlive he
    refine stored_frame (off_pool (fun q hq => hs.pool q ?_) hx)
    rw [List.mem_singleton.mp hq]
    exact .inr ⟨k.current, hlive, frame_mem_space hva hw⟩

end Below

/-! ### Every run -/

/-- The byte that the processor finds at an address, for the process `p`. -/
def fetch (k : System) (p : Fin pcbMax) (va : ℕ) : Option UInt8 :=
  (walk k.mem.ram (k.pcblist p).pagedir va).map fun pte => k.mem.ram (target pte + va % pageSize)

section Every

variable {d m m' ram : Bytes} {junk pagedir pagetables x va : ℕ} {start : Option ℕ} {k₀ k : System}
  {h : List Deed} {p : Fin pcbMax} {sg : Segment}

/-- An address of the kernel is found where `entry` has mapped it. -/
lemma fetch_kernel (hl : Linked ram junk pagedir pagetables)
    (hk : Ordered (entryTables pagedir pagetables ram) junk pagedir k) (hp : p = 0 ∨ Live k p)
    (hva : kernelVirBase ≤ va) (hva' : va < phy2Vir phySize) : fetch k p va = some (k.mem.ram va) := by
  obtain ⟨L, hs⟩ := hk.shared
  rw [phyLimit_eq] at hva'
  simp only [kernelVirBase] at hva
  have hlinear : linear va = some (va - kernelVirBase) := by
    unfold linear
    rw [if_neg (by omega), if_pos (by simp only [kernelVirBase, phySize, pageSize]; omega)]
  rw [fetch, hs.walk_eq hp hva (by omega),
    entryTables_walk hl.toPlaced hl.dirZero hl.tablesZero (by omega), hlinear, Option.map_some,
    Option.map_some]
  congr 2
  simp only [target, phy2Vir, kernelVirBase, pageSize, pageP, pageRw, pageS]
  omega

/-- **The text of the kernel stays as it is in the file**: whatever calls, interrupts and programs follow
the boot, every process finds it at its address. -/
theorem kernel_stays (hi : Image d m junk pagedir pagetables) (hload : loaderMain d m = some (start, m'))
    (hb : Begins (entryTables pagedir pagetables (atBase m')) junk pagedir k₀)
    (hrun : Run Deed.Step Deed.Careful k₀ h k) (hp : p = 0 ∨ Live k p) (hsg : ReadOnly d sg)
    (hx : x < sg.filesize) : fetch k p (sg.vaddr + x) = some (kernelFile d (sg.offset + x)) := by
  obtain ⟨m₁, hload₁, hl⟩ := loaderMain_loaded (m := m) hi.toBootable
  obtain ⟨-, rfl⟩ := Prod.mk.inj (Option.some_inj.mp (hload.symm.trans hload₁))
  have hlinked := hi.linked hl
  have ht := entryTables_tables hlinked
  have hsup := supervised_entry hlinked
  obtain ⟨hlow, hhigh⟩ := hi.inside sg hsg.mem
  obtain ⟨hdir, hbyte⟩ := hi.entryTables_segment hl hsg.mem hx
  have hbelow : sg.vaddr + x <
      alignUp (kernelEnd (entryTables pagedir pagetables (atBase m')) junk) := by
    rw [hlinked.kernelEnd_eq, kernelEnd_atBase hi.toBootable hl]
    omega
  obtain ⟨hord, hsame⟩ := hrun.inv (fun k =>
    Ordered (entryTables pagedir pagetables (atBase m')) junk pagedir k ∧
      k.mem.ram (sg.vaddr + x) = entryTables pagedir pagetables (atBase m') (sg.vaddr + x))
    ⟨(hb.ordered ht).1, begins_below ht hb hbelow hdir⟩
    fun e k k' ⟨hord, hsame⟩ hG he =>
      ⟨(hord.step ht hsup hG he).1, (deed_below hsup hord hG he hbelow).trans hsame⟩
  have hroom := hi.room
  rw [fetch_kernel hlinked hord hp (by omega) (by omega), hsame, hbyte]

end Every

/-! ### A kernel -/

section KernelDisk

variable {x : ℕ} {mem : Mem}

lemma imageEnd_kernelDisk : imageEnd kernelDisk 0 = 0xc0140000 := by
  rw [imageEnd, kernelSegments_kernelDisk]
  rfl

lemma blank_kernelDisk (hx : 0x20200 ≤ x) : Blank kernelDisk (fun _ => 0) x := by
  have htext : physAddr ⟨0x1000, 0xc0010000, 0x1000, 0x1000⟩ = 0x10000 := by decide
  have hdata : physAddr ⟨0x2000, 0xc0020000, 0x200, 0x120000⟩ = 0x20000 := by decide
  refine ⟨rfl, .inr (by simp only [elfHeaderAt, pageSize]; omega), ?_⟩
  rw [kernelSegments_kernelDisk, List.forall_mem_cons, List.forall_mem_singleton]
  simp only [Clear, htext, hdata, sectorSize, sectors]
  omega

lemma kernelDisk_image : Image kernelDisk (fun _ => 0) 0 0xc0021000 0xc0022000 := by
  have hend : alignUp (imageEnd kernelDisk 0) = 0xc0140000 := by
    rw [imageEnd_kernelDisk]
    rfl
  refine ⟨kernelDisk_bootable,
    ⟨by decide, by decide, by decide, by decide, by decide, by decide, .inl (by decide)⟩, by decide,
    by decide, by rw [hend]; decide, by rw [hend]; decide, by rw [hend]; decide, fun x hx _ => ?_,
    fun x hx _ => ?_, fun x hx _ => ?_, ?_⟩
  · exact blank_kernelDisk (by simp only [lastPage, kernelVirBase] at hx ⊢; omega)
  · exact blank_kernelDisk (by simp only [kernelVirBase]; omega)
  · exact blank_kernelDisk (by simp only [kernelVirBase]; omega)
  · rw [hend, kernelSegments_kernelDisk, List.forall_mem_cons, List.forall_mem_singleton]
    decide

lemma kernelDisk_text : ReadOnly kernelDisk ⟨0x1000, 0xc0010000, 0x1000, 0x1000⟩ :=
  ⟨0, by decide +kernel, 52, by decide +kernel, by decide +kernel, by decide +kernel, by decide +kernel⟩

/-- The table of processes does not depend on what is in memory. -/
lemma childRuns_any : (performNotRoot childRuns (switchToUser (boot 0xc0021000 mem
    (fun _ => ⟨0, 0, 0, 0, false⟩) installedDisk .init))).any (fun k : System => decide (k.current = 1 ∧
      (k.pcblist 1).pstate = .running ∧ (k.pcblist 1).pid = 1)) = true := rfl

/-- The first child has the text of the kernel. -/
theorem kernel_stays_kernelDisk : ∃ m' k₀ k, loaderMain kernelDisk (fun _ => 0) = some (some 0x10000, m') ∧
    Begins (entryTables 0xc0021000 0xc0022000 (atBase m')) 0 0xc0021000 k₀ ∧
    Run Process.Step Process.Careful k₀ childRuns k ∧ k.current = 1 ∧
      fetch k 1 0xc0010abc = some (kernelFile kernelDisk 0x1abc) := by
  obtain ⟨m', hload, hl⟩ := loaderMain_loaded (m := fun _ => 0) kernelDisk_bootable
  rw [show vir2Phy (get32 (kernelFile kernelDisk) 24) = 0x10000 by decide +kernel] at hload
  have hlinked := kernelDisk_image.linked hl
  have ht := entryTables_tables hlinked
  have hend : alignUp (kernelEnd (entryTables 0xc0021000 0xc0022000 (atBase m')) 0) = 0xc0140000 := by
    rw [hlinked.kernelEnd_eq, kernelEnd_atBase kernelDisk_bootable hl, imageEnd_kernelDisk]
    rfl
  obtain ⟨s, hinit, -⟩ := ht.image.returns
  have hroom := @userMode_roomy _ installedDisk _ (fun _ => ⟨0, 0, 0, 0, false⟩) .init s ht.image hinit
    hend ht.user
  obtain ⟨k, hrun, -, -, hcur, hlive, -⟩ := childRuns_of hroom childRuns_any
  have hb : Begins _ 0 0xc0021000 (switchToUser (boot 0xc0021000 s (fun _ => ⟨0, 0, 0, 0, false⟩)
      installedDisk .init)) := ⟨s, _, _, _, hinit, .inr rfl⟩
  have hbyte := kernel_stays (x := 0xabc) kernelDisk_image hload hb (run_deedStep hrun)
    (.inr hlive) kernelDisk_text (by decide)
  exact ⟨m', _, k, hload, hb, hrun, hcur, hbyte⟩

end KernelDisk

end Nbos.Boot
