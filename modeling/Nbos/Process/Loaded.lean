import Nbos.Fs.Contents
import Nbos.Process.Loader

/-!
# Whether a program is all there

`loadProcess` goes on by 16 MiB where it means to go on by a page, and maps pages again that have been
mapped. `loaded_iff` says when the segments of a valid program are nevertheless where they should be.
-/

namespace Nbos.Process

open Nbos.Lib Nbos.Kernel Nbos.Memory Nbos.Fs

/-- A file that holds a program: its headers are in its first page, its segments belong below the
kernel, and their bytes are in blocks that are there. -/
structure ValidImage (i : Inode) (d : Bytes) : Prop where
  headed : Headed i d
  magic : get32 (cstr (fileHead i d)) 0 = elfMagic
  below : ∀ sg ∈ programSegments i d, sg.vaddr + sg.memsize ≤ kernelVirBase
  sizes : ∀ sg ∈ programSegments i d, sg.filesize ≤ sg.memsize
  inFile : ∀ sg ∈ programSegments i d, sg.offset + sg.filesize ≤ i.size.toNat
  covered : ∀ sg ∈ programSegments i d, Covered i sg.offset sg.filesize

/-- The page of `va` is mapped, and user programs may go there. -/
def UserPage (m : Bytes) (D va : ℕ) : Prop :=
  entry m D (dirIdx va) / 4 % 2 = 1 ∧ ∃ pte, walk m D va = some pte ∧ pte / 4 % 2 = 1

/-- The program is in memory: every address of a segment is mapped, and holds the byte of the file for
it, if there is one. -/
structure InMemory (i : Inode) (d : Bytes) (D : ℕ) (m : Bytes) : Prop where
  mapped : ∀ sg ∈ programSegments i d, ∀ x, sg.vaddr ≤ x → x < sg.vaddr + sg.memsize → UserPage m D x
  contents : ∀ sg ∈ programSegments i d, ∀ k < sg.filesize,
    load8 D m (sg.vaddr + k) = some (d (filePos i (sg.offset + k)))

/-- Every page of a segment is among those that are mapped, for this segment or another one. -/
def Whole (i : Inode) (d : Bytes) : Prop :=
  ∀ sg ∈ programSegments i d, ∀ x, sg.vaddr ≤ x → x < sg.vaddr + sg.memsize →
    pageNo x ∈ (programPages (programSegments i d)).map pageNo

/-- No later segment has a page mapped that holds bytes of the file, or bytes of its own for the same
place. -/
def Untouched (i : Inode) (d : Bytes) : Prop :=
  ∀ before sg after, programSegments i d = before ++ sg :: after → ∀ k < sg.filesize,
    ∀ sg' ∈ after, ¬ sg'.Touches i d (sg.vaddr + k)

section Loaded

variable {i : Inode} {d m : Bytes} {D h e va vend fuel p : ℕ} {Q vas : List ℕ} {s s' : Mem} {sg : Segment}

lemma userItem_user : userItem p / 4 % 2 = 1 := by
  unfold userItem itemWord
  simp only [pagePrivilegeUser]
  omega

lemma mapPages_lt (h : mapPages vend fuel va = some vas) : ∀ x ∈ vas, x < vend := by
  induction fuel generalizing va vas with
  | zero => cases h
  | succ fuel ih =>
    rw [mapPages] at h
    split at h
    · rename_i hlt
      obtain ⟨vas', hvas', rfl⟩ := Option.map_eq_some_iff.mp h
      exact List.forall_mem_cons.mpr ⟨hlt, ih hvas'⟩
    · obtain rfl := Option.some_inj.mp h
      exact fun x hx => absurd hx List.not_mem_nil

/-- A segment below the kernel has its pages there. -/
lemma mapped_below (hbelow : sg.vaddr + sg.memsize ≤ kernelVirBase) : ∀ x ∈ sg.mapped, x < kernelVirBase := by
  intro x hx
  unfold Segment.mapped at hx
  cases hpages : sg.pages with
  | none =>
    rw [hpages] at hx
    exact absurd hx List.not_mem_nil
  | some vas =>
    rw [hpages, Option.getD_some] at hx
    refine (mapPages_lt hpages x hx).trans_le ?_
    rw [alignUp_eq]
    simp only [kernelVirBase] at hbelow ⊢
    omega

lemma length_contents_le : (sg.contents i d).length ≤ sg.filesize := by
  unfold Segment.contents Segment.bytes
  cases hread : readFileAtOffset i (Int.bmod sg.offset (2 ^ 32)) sg.vaddr sg.filesize d with
  | none => exact Nat.zero_le _
  | some r => exact @length_readFileAtOffset_le _ _ _ _ r.2 _ r.1 hread

/-- The bytes that are copied are those of the file. -/
lemma ValidImage.contents (hv : ValidImage i d) (hsg : sg ∈ programSegments i d) :
    sg.contents i d = fileBytes i d sg.offset sg.filesize := by
  by_cases hzero : sg.filesize = 0
  · have hle := @length_contents_le i d sg
    have hnil : sg.contents i d = [] := List.length_eq_zero_iff.mp (by omega)
    rw [hnil, hzero]
    rfl
  have hbelow := hv.below sg hsg
  have hsizes := hv.sizes sg hsg
  have hin := hv.inFile sg hsg
  have hcov := hv.covered sg hsg
  obtain ⟨hblock, -⟩ := hcov 0 (by omega)
  simp only [kernelVirBase, blockSize, maxBlocksInFile] at hbelow hblock
  have hmod : Int.bmod sg.offset (2 ^ 32) = sg.offset := Int.bmod_eq_of_le (by omega) (by omega)
  unfold Segment.contents Segment.bytes
  rw [hmod, readFileAtOffset_of_covered (by omega) (by omega) (by omega) hcov]
  rfl

/-- A valid program fits where nothing is mapped. -/
lemma ValidImage.program (hv : ValidImage i d) (hbare : ∀ j < 0x300, ¬ Present (entry m D j))
    (hroom : pagesFor (programPages (programSegments i d)) ≤ Q.length) : Program i d D Q m := by
  have hfresh : ∀ x, x < kernelVirBase → Fresh m D (dirIdx x) := fun x hx => by
    have hidx : dirIdx x < 0x300 := by
      simp only [kernelVirBase] at hx
      show x / 2 ^ 22 < 0x300
      omega
    exact ⟨hidx, hbare _ hidx⟩
  refine ⟨hv.headed, hv.magic, fun sg hsg => ⟨fun va hva => ?_, fun k hk => ?_⟩, hroom⟩
  · exact hfresh va (mapped_below (hv.below sg hsg) va hva)
  · have hle := @length_contents_le i d sg
    have hsizes := hv.sizes sg hsg
    exact hfresh _ (lt_of_lt_of_le (by omega) (hv.below sg hsg))

/-- Where a segment goes, the directory has no entries. -/
lemma ValidImage.fresh (hv : ValidImage i d) (hl : Loadable D h Q s)
    (hbare : ∀ j < 0x300, ¬ Present (entry s.ram D j)) (hsg : sg ∈ programSegments i d) {x : ℕ}
    (hx : x < sg.vaddr + sg.memsize) : Fresh (withHeader i d s).ram D (dirIdx x) := by
  have hbelow := hx.trans_le (hv.below sg hsg)
  have hidx : dirIdx x < 0x300 := by
    simp only [kernelVirBase] at hbelow
    show x / 2 ^ 22 < 0x300
    omega
  exact ((hl.read hv.headed).fresh hl).mpr ⟨hidx, hbare _ hidx⟩

/-- The pages that are not mapped are missing. -/
lemma ValidImage.whole_of_inMemory (hv : ValidImage i d) (hl : Loadable D h Q s)
    (hbare : ∀ j < 0x300, ¬ Present (entry s.ram D j))
    (hroom : pagesFor (programPages (programSegments i d)) ≤ Q.length)
    (hrun : loadProcess D i d s = some (e, s')) (hin : InMemory i d D s'.ram) : Whole i d := by
  obtain ⟨-, g', hm, hleads, -⟩ := loadProcess_leads hl (hv.program hbare hroom) hrun
  intro sg hsg x hlo hhi
  obtain ⟨-, pte, hwalk, -⟩ := hin.mapped sg hsg x hlo hhi
  rw [hleads.grown.walk x (hv.fresh hl hbare hsg hhi)] at hwalk
  obtain ⟨p, hp, -⟩ := Option.map_eq_some_iff.mp hwalk
  exact (hm.space (pageNo x)).mp (by rw [hp]; exact Option.some_ne_none p)

/-- **When a program is all there** after `loadProcess`: when every page of its segments is mapped, and
none is mapped or written again. The pages have to be. -/
theorem loaded_iff (hv : ValidImage i d) (hl : Loadable D h Q s)
    (hbare : ∀ j < 0x300, ¬ Present (entry s.ram D j))
    (hroom : pagesFor (programPages (programSegments i d)) ≤ Q.length)
    (hrun : loadProcess D i d s = some (e, s')) :
    (Whole i d ∧ Untouched i d → InMemory i d D s'.ram) ∧ (InMemory i d D s'.ram → Whole i d) := by
  refine ⟨?_, hv.whole_of_inMemory hl hbare hroom hrun⟩
  rintro ⟨hwhole, hund⟩
  obtain ⟨-, g', hm, hleads, hcontained⟩ := loadProcess_leads hl (hv.program hbare hroom) hrun
  have hg := hl.ground
  have hG := hleads.grown
  refine ⟨fun sg hsg x hlo hhi => ?_, fun sg hsg k hk => ?_⟩
  · have hx := hv.fresh hl hbare hsg hhi
    obtain ⟨p, hp⟩ := Option.ne_none_iff_exists'.mp ((hm.space (pageNo x)).mpr (hwhole sg hsg x hlo hhi))
    have hwalk : walk s'.ram D x = some (userItem p) := by
      rw [hG.walk x hx, hp, Option.map_some]
    refine ⟨?_, _, hwalk, userItem_user⟩
    rcases hG.dir_cases hg hx with ⟨-, hnp⟩ | ⟨-, t, -, hitem, -⟩
    · rw [walk_of_not hnp] at hwalk
      cases hwalk
    · rw [hitem]
      exact userItem_user
  · obtain ⟨before, after, he⟩ := List.append_of_mem hsg
    have hcontents := hv.contents hsg
    have hlen : k < (sg.contents i d).length := by rwa [hcontents, length_fileBytes]
    have hsizes := hv.sizes sg hsg
    rw [load8_image hg hG (hv.fresh hl hbare hsg (by omega)),
      hcontained before sg after he k hlen (hund before sg after he k hk)]
    rw [List.getElem_of_eq hcontents, getElem_fileBytes]

end Loaded

/-! ### Programs of a block -/

/-- A disk with a program in block 1. -/
def programDisk (w : ℕ → ℕ) : Bytes := writeBlock (fun _ => 0) (wordBytes w) 1

/-- The file in that block. -/
def programFile : Inode :=
  ⟨512, 0, 0, 0, regularFile, 0, 0, 0, 0, 0, fun b => if b = 0 then 1 else 0⟩

/-- An address space without a user half, and four free pages. -/
def bareMem : Mem :=
  let tables := overlay (put32 (fun _ => 0) 0xc0020c00 0x21003) 0xc0021000 4096
    (wordBytes fun j => 4096 * j + 3)
  ⟨put32 (put32 (put32 tables 0xc0140000 0xc0141000) 0xc0141000 0xc0142000) 0xc0142000 0xc0143000,
    0xc0140000⟩

lemma loadable_bareMem :
    Loadable 0xc0020000 0xc0140000 [0xc0141000, 0xc0142000, 0xc0143000] bareMem := by
  refine ⟨?_, ⟨?_, ?_⟩, by decide, by decide, ⟨?_, ?_, ?_, ?_, ?_, ?_⟩⟩
  · refine ⟨rfl, ?_, ?_, ?_, ?_⟩
    · decide +kernel
    · decide +kernel
    · decide +kernel
    · show get32 bareMem.ram 0xc0143000 = 0
      decide +kernel
  all_goals decide +kernel

lemma bareMem_bare : ∀ j < 0x300, ¬ Present (entry bareMem.ram 0xc0020000 j) := by decide +kernel

section Program

variable {w : ℕ → ℕ} {sg : Segment}

lemma validImage_program (hhead : Headed programFile (programDisk w))
    (hmagic : get32 (cstr (fileHead programFile (programDisk w))) 0 = elfMagic)
    (h : ∀ sg ∈ programSegments programFile (programDisk w), sg.vaddr + sg.memsize ≤ kernelVirBase ∧
      sg.filesize ≤ sg.memsize ∧ sg.offset + sg.filesize ≤ 512) :
    ValidImage programFile (programDisk w) := by
  refine ⟨hhead, hmagic, fun sg hsg => (h sg hsg).1, fun sg hsg => (h sg hsg).2.1,
    fun sg hsg => (h sg hsg).2.2, fun sg hsg p hp => ?_⟩
  obtain ⟨-, -, hsize⟩ := h sg hsg
  have hzero : (sg.offset + p) / 512 = 0 := by omega
  have hblock : programFile.blockNo 0 ≠ 0 := by decide
  refine ⟨?_, ?_⟩
  · show (sg.offset + p) / 512 < 20
    omega
  · simp only [blockSize, hzero]
    exact hblock

/-- It is loaded, with three pages at most. -/
lemma loadProcess_program (hv : ValidImage programFile (programDisk w))
    (hroom : pagesFor (programPages (programSegments programFile (programDisk w))) ≤ 3)
    (hentry : get32 (cstr (fileHead programFile (programDisk w))) 24 = 0x400000)
    (hload : (loadAll 0xc0020000 programFile (programDisk w) (programSegments programFile (programDisk w))
      (withHeader programFile (programDisk w) bareMem)).isSome = true) :
    ∃ s', loadProcess 0xc0020000 programFile (programDisk w) bareMem = some (0x400000, s') := by
  obtain ⟨s', hs'⟩ := Option.isSome_iff_exists.mp hload
  refine ⟨s', ?_⟩
  rw [loadProcess_eq_loadAll loadable_bareMem (hv.program bareMem_bare hroom), hs', Option.map_some, hentry]

end Program

/-- The words of a program of two segments, a page each, with four bytes in the file. -/
def twoWord (k : ℕ) : ℕ :=
  [elfMagic, 0, 0, 0, 0, 0, 0x400000, 52, 0, 0, 0, 2, 0, loadSeg, 0, 0x400000, 0, 4, 4096, 0, 0,
    loadSeg, 4, 0x401000, 0, 4, 4096].getD k 0

/-- Its segments. -/
abbrev twoSegments : List Segment := [⟨0, 0x400000, 4, 4096⟩, ⟨4, 0x401000, 4, 4096⟩]

lemma segments_two : programSegments programFile (programDisk twoWord) = twoSegments := by decide +kernel

lemma pages_two : programPages twoSegments = [0x400000, 0x401000] := by decide +kernel

lemma validImage_two : ValidImage programFile (programDisk twoWord) := by
  refine validImage_program ⟨by decide +kernel, by decide +kernel⟩ (by decide +kernel) ?_
  rw [segments_two]
  decide

theorem loaded_iff_twoSegments : ∃ s', loadProcess 0xc0020000 programFile (programDisk twoWord) bareMem =
    some (0x400000, s') ∧ InMemory programFile (programDisk twoWord) 0xc0020000 s'.ram := by
  have hroom : pagesFor (programPages (programSegments programFile (programDisk twoWord))) ≤ 3 := by
    rw [segments_two, pages_two]
    decide
  obtain ⟨s', hrun⟩ := loadProcess_program validImage_two hroom (by decide +kernel)
    (by rw [segments_two]; decide +kernel)
  refine ⟨s', hrun, (loaded_iff validImage_two loadable_bareMem bareMem_bare hroom hrun).1 ⟨?_, ?_⟩⟩
  · intro sg hsg x hlo hhi
    rw [segments_two] at hsg ⊢
    rw [pages_two]
    refine List.mem_map.mpr ⟨sg.vaddr, ?_, ?_⟩ <;> rcases List.mem_pair.mp hsg with rfl | rfl
    · decide
    · decide
    · show 0x400000 / 2 ^ 12 = x / 2 ^ 12
      simp only at hlo hhi
      omega
    · show 0x401000 / 2 ^ 12 = x / 2 ^ 12
      simp only at hlo hhi
      omega
  · intro before sg after he k hk sg' hsg'
    rw [segments_two] at he
    rcases before with - | ⟨sg₁, before⟩
    · -- the first segment, before the second one
      obtain ⟨rfl, rfl⟩ := List.cons_eq_cons.mp he.symm
      obtain rfl := List.mem_singleton.mp hsg'
      have hk : k < 4 := hk
      have hpages : Segment.mapped ⟨4, 0x401000, 4, 4096⟩ = [0x401000] := by decide +kernel
      rintro (hpage | ⟨hlo, -⟩)
      · rw [hpages] at hpage
        have hpage : (0x400000 + k) / 2 ^ 12 = 0x401000 / 2 ^ 12 := List.mem_singleton.mp hpage
        omega
      · have hlo : 0x401000 ≤ 0x400000 + k := hlo
        omega
    · obtain ⟨-, he⟩ := List.cons_eq_cons.mp he
      obtain ⟨rfl, h⟩ | ⟨-, h⟩ := List.singleton_eq_append_iff.mp he
      · obtain ⟨-, rfl⟩ := List.cons_eq_cons.mp h.symm
        exact absurd hsg' List.not_mem_nil
      · cases h

/-- The second page of a program of one segment of two is not mapped, the entry is there all the same. -/
theorem loadProcess_misses_page : ¬ ∀ D h Q i d s e s', ValidImage i d → Loadable D h Q s →
    (∀ j < 0x300, ¬ Present (entry s.ram D j)) →
    pagesFor (programPages (programSegments i d)) ≤ Q.length →
    loadProcess D i d s = some (e, s') → e ≠ 0 → InMemory i d D s'.ram := by
  intro hall
  have hsegs : programSegments programFile (programDisk (elfWord 0x400000 0x400000 4 8192)) =
      [⟨0, 0x400000, 4, 8192⟩] := by decide +kernel
  have hpages : programPages [⟨0, 0x400000, 4, 8192⟩] = [0x400000] := by decide +kernel
  have hv : ValidImage programFile (programDisk (elfWord 0x400000 0x400000 4 8192)) := by
    refine validImage_program ⟨by decide +kernel, by decide +kernel⟩ (by decide +kernel) ?_
    rw [hsegs]
    decide
  have hroom : pagesFor (programPages (programSegments programFile
      (programDisk (elfWord 0x400000 0x400000 4 8192)))) ≤ 3 := by
    rw [hsegs, hpages]
    decide
  obtain ⟨s', hrun⟩ := loadProcess_program hv hroom (by decide +kernel) (by rw [hsegs]; decide +kernel)
  have hin := hall _ _ _ _ _ _ _ _ hv loadable_bareMem bareMem_bare hroom hrun (by decide)
  have hwhole := hv.whole_of_inMemory loadable_bareMem bareMem_bare hroom hrun hin
  have hmem := hwhole ⟨0, 0x400000, 4, 8192⟩ (by rw [hsegs]; exact List.mem_singleton_self _)
    0x401000 (by simp only; omega) (by simp only; omega)
  rw [hsegs, hpages] at hmem
  revert hmem
  decide

end Nbos.Process
