import Nbos.Process.FileSize

/-!
# Opening and creating

`sys_open` needs a descriptor and an entry of the file table. It returns the descriptor when it has
no entry for it, it takes the last closed entry and not the first, and it leaves in it the offset that
it finds there: `openExact_iff`.

`sys_creat` takes an inode and a block and writes the directory before it opens the file, and gives
nothing back when it has no descriptor then: `sysCreat_atomic_iff`.
-/

namespace Nbos.Process

open Nbos.Lib Nbos.Kernel
open Nbos.Fs hiding Sane

/-! ### `sys_open` -/

/-- The state with the inode `i` opened as `fd`, by the entry `j`. -/
def System.opening (k : System) (fd : Fin fileMaxInProcess) (j : Fin fileMaxInSys) (i : Inode)
    (oflag : UInt32) : System :=
  { k.setPcb k.current { k.proc with fdlist := Function.update k.proc.fdlist fd ⟨true, some j⟩ } with
    fileList := Function.update k.fileList j
      { oflags := oflag
        offset := 0
        fInodeBlockNo := i.myInodeBlockNo
        fInodeOffset := i.myInodeOffset
        isopen := true } }

/-- A descriptor can be had. -/
def HasDescriptor (k : System) : Prop :=
  ∃ fd : Fin fileMaxInProcess, stderrFileno + 1 ≤ (fd : ℕ) ∧ isOpen fd k.proc = false

/-- An entry of the file table can be had. -/
def HasEntry (k : System) : Prop := ∃ j, (k.fileList j).isopen = false

/-- What is returned is a descriptor exactly when both can be had. It is the smallest one, and points
to the first entry, which names the inode from its start; or nothing is changed. -/
structure OpenExact (i : Inode) (oflag : UInt32) (k : System) (r : ℤ) (k' : System) : Prop where
  opens : 0 ≤ r ↔ HasDescriptor k ∧ HasEntry k
  opened : ∀ fd j, LeastFree k.proc fd → FirstClosed k.fileList j →
    r = (fd : ℕ) ∧ k' = k.opening fd j i oflag
  refused : ¬ (HasDescriptor k ∧ HasEntry k) → r = -1 ∧ k' = k

section Open

variable {k k' : System} {i : Inode} {oflag : UInt32} {r : ℤ} {path : List UInt8}
  {junk : List UInt8 → List UInt8} {fd : Fin fileMaxInProcess} {j : Fin fileMaxInSys}

lemma hasDescriptor_iff : HasDescriptor k ↔ getMinfd k.proc ≠ none := by
  rw [Ne, getMinfd_eq_none, HasDescriptor]
  push Not
  simp only [Bool.not_eq_true]

lemma hasEntry_iff : HasEntry k ↔ closedEntry k.fileList ≠ none := by
  rw [closedEntry_eq, Ne, Fin.findRev?_eq_none_iff, HasEntry]
  push Not
  simp

lemma System.opening_refs (k : System) (fd : Fin fileMaxInProcess) (j : Fin fileMaxInSys) (i : Inode)
    (oflag : UInt32) : ((k.opening fd j i oflag).proc.fdlist fd).ofptr = some j := by
  simp [System.opening, System.proc]

lemma System.opening_entry (k : System) (fd : Fin fileMaxInProcess) (j : Fin fileMaxInSys) (i : Inode)
    (oflag : UInt32) : ((k.opening fd j i oflag).fileList j).offset = 0 := by
  simp [System.opening]

/-- What the code leaves is what it should as far as the entry is at its start. -/
lemma FileOpened.eq_opening (h : FileOpened i oflag fd j k k') (h0 : (k.fileList j).offset = 0) :
    k' = k.opening fd j i oflag := by
  rw [h.eq, System.opening, ← h0]

lemma FileOpened.ofptr (h : FileOpened i oflag fd j k k') : (k'.proc.fdlist fd).ofptr = some j := by
  simp [h.eq, System.proc]

lemma FileOpened.offset (h : FileOpened i oflag fd j k k') :
    (k'.fileList j).offset = (k.fileList j).offset := by
  simp [h.eq]

/-- **When `sys_open` does what it should**: it has no descriptor to give, or there is just one closed
entry, and that is at its start. -/
theorem openExact_iff (hpath : seekFileInode junk path k.disk = some i)
    (h : sysOpen junk path oflag k = some (r, k')) :
    OpenExact i oflag k r k' ↔ ¬ HasDescriptor k ∨
      ∃ j, (k.fileList j).isopen = false ∧ (k.fileList j).offset = 0 ∧
        ∀ j', (k.fileList j').isopen = false → j' = j := by
  obtain ⟨i', hi', hcase⟩ := sysOpen_spec h
  obtain rfl := Option.some_inj.mp (hpath.symm.trans hi')
  rcases hcase with ⟨hfd, rfl, rfl⟩ | ⟨fd, hfd, rfl, hcase⟩
  · -- no descriptor
    have hno : ¬ HasDescriptor k' := fun hd => hasDescriptor_iff.mp hd hfd
    refine iff_of_true ⟨?_, ?_, ?_⟩ (.inl hno)
    · exact iff_of_false (by decide) fun hd => hno hd.1
    · intro fd j hleast
      exact absurd ⟨fd, hleast.ge, hleast.free⟩ hno
    · exact fun _ => ⟨rfl, rfl⟩
  · have hhas : HasDescriptor k := hasDescriptor_iff.mpr (by rw [hfd]; simp)
    have hleast : LeastFree k.proc fd := getMinfd_eq_some.mp hfd
    rcases hcase with ⟨hj, rfl⟩ | ⟨j, ho⟩
    · -- no entry, and the descriptor is returned
      have hno : ¬ HasEntry k' := fun he => hasEntry_iff.mp he hj
      constructor
      · intro hx
        exact absurd (hx.opens.mp (Int.natCast_nonneg _)).2 hno
      · rintro (hd | ⟨j, hclosed, -⟩)
        · exact absurd hhas hd
        · exact absurd ⟨j, hclosed⟩ hno
    · have hclosed := closedEntry_spec ho.closed
      have hentry : HasEntry k := ⟨j, hclosed⟩
      have hlast := ho.closed
      rw [closedEntry_eq] at hlast
      constructor
      · intro hx
        right
        -- the entry that is used is the first closed one, so that there is no other
        obtain ⟨j₁, hj₁⟩ : ∃ j₁, (Fin.find? fun i => !(k.fileList i).isopen) = some j₁ :=
          Option.isSome_iff_exists.mp (Fin.isSome_find?_iff.mpr ⟨j, by simp [hclosed]⟩)
        obtain ⟨-, heq⟩ := hx.opened fd j₁ hleast (firstClosed_iff.mpr hj₁)
        have hrefs := ho.ofptr
        rw [heq, System.opening_refs] at hrefs
        obtain rfl := Option.some_inj.mp hrefs
        refine ⟨j₁, hclosed, ?_, fun j' hj' => ?_⟩
        · rw [← ho.offset, heq, System.opening_entry]
        · exact Fin.find?_eq_findRev?_iff.mp (hj₁.trans hlast.symm) j' j₁ (by simp [hj'])
            (by simp [hclosed])
      · rintro (hd | ⟨j₁, hclosed₁, hoff, honly⟩)
        · exact absurd hhas hd
        · obtain rfl := honly j hclosed
          refine ⟨iff_of_true (Int.natCast_nonneg _) ⟨hhas, hentry⟩, fun fd' j' hfd' hj' => ?_,
            fun hno => absurd ⟨hhas, hentry⟩ hno⟩
          obtain rfl := Option.some_inj.mp (hfd.symm.trans (getMinfd_eq_some.mpr hfd'))
          obtain rfl := honly j' hj'.closed
          exact ⟨rfl, ho.eq_opening hoff⟩

end Open

/-- The kernel after `init_pcb` and `init_openFileList`, on an empty disk. -/
abbrev openBoot : System := (creatBoot fun _ => 0).system

/-- The root directory opened right after the start: there are many closed entries. -/
lemma seekFileInode_separator (junk : List UInt8 → List UInt8) (d : Bytes) :
    seekFileInode junk [separator] d = some (getRootDirInode d) := by
  rw [seekFileInode, if_neg (by decide), if_pos (strcmpa_eq_zero.mpr fun _ _ => rfl)]

/-- A file table with one closed entry. -/
def oneEntry : System := { openBoot with fileList := fun j => ⟨oRdwr, 0, 0, 0, j ≠ 40⟩ }

theorem openExact_iff_boot : ∃ r k', sysOpen (fun _ => []) [separator] oRdwr oneEntry = some (r, k') ∧
    OpenExact (getRootDirInode fun _ => 0) oRdwr oneEntry r k' := by
  have hpath := seekFileInode_separator (fun _ => []) oneEntry.disk
  obtain ⟨⟨r, k'⟩, hopen⟩ : ∃ q, sysOpen (fun _ => []) [separator] oRdwr oneEntry = some q := by
    rw [sysOpen, hpath]
    exact ⟨_, rfl⟩
  refine ⟨r, k', hopen, (openExact_iff hpath hopen).mpr (.inr ⟨40, rfl, rfl, fun j hj => ?_⟩)⟩
  simpa [oneEntry] using hj

/-- **The last entry is taken**, and not the first. -/
theorem sysOpen_takes_last : ∃ r k', sysOpen (fun _ => []) [separator] oRdwr openBoot = some (r, k') ∧
    ¬ OpenExact (getRootDirInode fun _ => 0) oRdwr openBoot r k' := by
  have hpath := seekFileInode_separator (fun _ => []) openBoot.disk
  obtain ⟨⟨r, k'⟩, hopen⟩ : ∃ q, sysOpen (fun _ => []) [separator] oRdwr openBoot = some q := by
    rw [sysOpen, hpath]
    exact ⟨_, rfl⟩
  have hfd : getMinfd openBoot.proc = some 3 := getMinfd_creatBoot
  have hlast : closedEntry openBoot.fileList = some 99 := by decide +kernel
  have hfirst : FirstClosed openBoot.fileList 3 := ⟨by decide, by decide⟩
  refine ⟨r, k', hopen, fun hx => ?_⟩
  obtain ⟨-, heq⟩ := hx.opened 3 3 (getMinfd_eq_some.mp hfd) hfirst
  obtain ⟨i, -, ⟨hnone, -, -⟩ | ⟨fd, hfd', -, ⟨hnone, -⟩ | ⟨j, ho⟩⟩⟩ := sysOpen_spec hopen
  · exact absurd (hfd.symm.trans hnone) (by decide)
  · exact absurd (hlast.symm.trans hnone) (by decide)
  · obtain rfl := Option.some_inj.mp (hfd.symm.trans hfd')
    have hj : j = 99 := Option.some_inj.mp (ho.closed.symm.trans hlast)
    have hrefs := ho.ofptr
    rw [heq, System.opening_refs, hj] at hrefs
    exact absurd hrefs (by decide)

/-! ### `sys_creat` -/

/-- There is no inode left. -/
def NoInode (k : System) : Prop := (readSuperBlock k.disk).freeInodeBlockNo = 0

section Creat

variable {k k' : System} {r : ℤ} {n : ℕ} {path : List UInt8} {mode : UInt16} {stack d d' : Bytes}
  {junk junk' : List UInt8 → List UInt8}

/-- No file is made only when there is no inode: a new inode has room for a block. -/
lemma makeFile_false (h : makeFile stack junk path mode d = some (false, d')) : d' = d := by
  rw [makeFile] at h
  cases hi : (allocInode stack d).1 with
  | none =>
    rw [allocInode_of_none hi] at h
    exact (Prod.mk.inj (Option.some_inj.mp h)).2.symm
  | some i =>
    have hblocks := allocInode_blockNo hi
    obtain ⟨j, hj⟩ := exists_zeroSlot (i := i) ⟨0, by rw [hblocks]⟩
    generalize allocInode stack d = p at h hi
    obtain ⟨o, d₁⟩ := p
    obtain rfl : o = some i := hi
    simp only [allocBlock_of_some hj] at h
    rw [if_neg (by decide)] at h
    obtain ⟨base, -, h⟩ := Option.bind_eq_some_iff.mp h
    obtain ⟨q, -, h⟩ := Option.bind_eq_some_iff.mp h
    cases (Prod.mk.inj (Option.some_inj.mp h)).1

lemma makeFile_of_noInode (h : NoInode k) :
    makeFile stack junk path mode k.disk = some (false, k.disk) := by
  rw [makeFile, allocInode_of_none (allocInode_eq_none.mpr h)]

/-- **When a `sys_creat` that fails leaves everything as it was**: it has no inode to give, or it has a
descriptor, so that it does not fail. In the other cases the inode, at least, is lost, as far as the
records on the disk are in order. -/
theorem sysCreat_atomic_iff (h : sysCreat stack junk junk' path mode k = some (r, k')) :
    (NoInode k ∨ HasDescriptor k → r = -1 → k' = k) ∧
    ∀ n, Handed k.disk n → DirectoryFound stack junk path k.disk → (r = -1 → k' = k) →
      NoInode k ∨ HasDescriptor k := by
  constructor
  · intro hcond hr
    rcases sysCreat_spec h with ⟨disk, hmake, -, rfl⟩ | ⟨disk, hmake, hopen⟩
    · rw [makeFile_false hmake]
    · exfalso
      rcases hcond with hno | hhas
      · rw [makeFile_of_noInode hno] at hmake
        cases hmake
      · -- the file is opened
        obtain ⟨-, -, ⟨hnone, -, -⟩ | ⟨fd, -, hfd, -⟩⟩ := sysOpen_spec hopen
        · exact hasDescriptor_iff.mp hhas hnone
        · omega
  · intro n hhanded hdir hkeep
    by_contra hcond
    rw [not_or] at hcond
    obtain ⟨hinode, hno⟩ := hcond
    have hnone : getMinfd k.proc = none := not_not.mp fun hne => hno (hasDescriptor_iff.mpr hne)
    rcases sysCreat_spec h with ⟨disk, hmake, -, -⟩ | ⟨disk, hmake, hopen⟩
    · rcases makeFile_spec hhanded hdir hmake with ⟨-, -, rfl⟩ | ⟨hmade, -⟩
      · exact hinode (UInt32.toNat_inj.mp (congrArg Prod.fst hhanded.records.list.head))
      · cases hmade
    · rcases makeFile_spec hhanded hdir hmake with ⟨hmade, -⟩ | ⟨-, hn, i, -, -, hadded⟩
      · cases hmade
      · obtain ⟨-, -, ⟨-, hr, hk⟩ | ⟨fd, hfd, -⟩⟩ := sysOpen_spec hopen
        · -- the head of the free list has moved on
          have hdisk : disk = k.disk := by rw [← hkeep hr, hk]
          have hhead := hadded.handed.records.list.head
          rw [hdisk, hhanded.records.list.head] at hhead
          exact absurd (slotFrom_inj hhanded.records.list.le (by omega) hhead) (by omega)
        · exact absurd (hfd.symm.trans hnone) (by simp)

end Creat

/-- The kernel after the start, with a process that has opened all the files it can. -/
def fullBoot (d : Bytes) : System :=
  { (creatBoot d).system.setPcb 0 { (creatBoot d).system.proc with
      fdlist := fun fd => ⟨true, some (fd.castLE (by decide))⟩ } with
    fileList := fun j => ⟨oRdwr, 0, 0, 0, (j : ℕ) < fileMaxInProcess⟩ }

lemma fullBoot_disk {d : Bytes} : (fullBoot d).disk = d := rfl

/-- A `sys_creat` of the file `a` then. -/
lemma sysCreat_fullBoot {d : Bytes} (hinst : Installed d) : ∃ k', sysCreat (fun _ => 0) (fun _ => [])
    (fun _ => []) [separator, 97] regularFile (fullBoot d) = some (-1, k') ∧
      freeSlot k'.disk = slotFrom 4 := by
  have hname : FileName [97] := fileName_letter (by decide) (by decide)
  obtain ⟨i, d', -, hmake, hmade⟩ := @makeFile_root _ _ (fun _ => 0) _ _ [97] (fun _ => []) regularFile
    hinst.rootDir (by decide) (by decide) (by decide) (by decide) hname.isName
  have hseek := @FileMade.found _ _ _ _ _ _ (fun _ => []) _ hmade (fun _ _ => rfl) hname (by decide)
    (by decide) (by decide)
  have hnone : getMinfd { fullBoot d with disk := d' }.proc = none :=
    getMinfd_eq_none.mpr fun _ _ => rfl
  refine ⟨{ fullBoot d with disk := d' }, ?_, hmade.root.records.list.head⟩
  have hopen : sysOpen (fun _ => []) [separator, 97] oRdwr { fullBoot d with disk := d' } =
      some (-1, { fullBoot d with disk := d' }) := by
    rw [sysOpen, hseek, Option.map_some, hnone]
  rw [sysCreat, fullBoot_disk, hmake, Option.bind_some]
  exact hopen

/-- The disk of a new system from which all inodes are gone. -/
def usedUpDisk : Bytes := writeSuperBlock installedDisk (fun _ => 0)
  { readSuperBlock installedDisk with freeInodeBlockNo := 0, freeInodeOffset := 0 }

/-- A `sys_creat` that fails and leaves everything as it was. -/
theorem sysCreat_atomic_iff_fullBoot : sysCreat (fun _ => 0) (fun _ => []) (fun _ => []) [separator, 97]
    regularFile (fullBoot usedUpDisk) = some (-1, fullBoot usedUpDisk) := by
  obtain ⟨⟨r, k'⟩, h, hr⟩ := exists_of_any (P := fun s : ℤ × System => s.1 = -1)
    (o := sysCreat (fun _ => 0) (fun _ => []) (fun _ => []) [separator, 97] regularFile
      (fullBoot usedUpDisk)) (by decide +kernel)
  have hr : r = -1 := hr
  have hsame := (sysCreat_atomic_iff h).1 (.inl (show NoInode _ by unfold NoInode; decide +kernel)) hr
  rw [h, hr, hsame]

/-- **A `sys_creat` that fails has consumed an inode.** -/
theorem sysCreat_consumes : ∃ k', sysCreat (fun _ => 0) (fun _ => []) (fun _ => []) [separator, 97]
    regularFile (fullBoot installedDisk) = some (-1, k') ∧
      freeSlot k'.disk ≠ freeSlot (fullBoot installedDisk).disk := by
  obtain ⟨k', h, hslot⟩ := sysCreat_fullBoot installed_installedDisk
  refine ⟨k', h, ?_⟩
  rw [hslot, fullBoot_disk, installed_installedDisk.records.list.head]
  decide

end Nbos.Process
