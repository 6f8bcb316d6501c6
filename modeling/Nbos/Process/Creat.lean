import Nbos.Fs.RootDir
import Nbos.Process.Descriptors

/-!
# Creating files

Runs of `sys_creat` in the root directory. It puts the item of the new file where the size in the
root's inode says, and does not write that size back: `created_found_iff` says how long the files
that are there can be found.
-/

namespace Nbos.Process

open Nbos.Lib Nbos.Kernel
open Nbos.Fs hiding Sane

/-! ### One file made -/

/-- The inode that `sys_creat` makes. -/
def newInode (stack : Bytes) (mode : UInt16) (d : Bytes) : Option Inode :=
  (allocInode stack d).1.map fun i =>
    { (allocBlock i (allocInode stack d).2).2.1 with mode := mode }

/-- The inode `i` is made with the item of `name` at 56, and nothing else is changed in the root
directory and among the inodes that are there. -/
structure FileMade (n f : ℕ) (m : Bytes) (name : List UInt8) (i : Inode) (d d' : Bytes) : Prop where
  place : mySlot i = slot n
  inode : inodeAt d' (slot n) = i
  kept : ∀ k < n, inodeAt d' (slot k) = inodeAt d (slot k)
  root : RootDir d' (n + 1) (f + 1) (putDirItem m 56 name i)

section MakeFile

variable {d m stack : Bytes} {n f : ℕ} {name : List UInt8} {junk : List UInt8 → List UInt8}
  {mode : UInt16}

/-- `makeFile` once there are an inode and a block for the file. -/
lemma makeFile_eq {path : List UInt8} (hfresh : (allocInode stack d).1 = some (freshInode d n))
    (hfree : freeBlock (allocInode stack d).2 = f) : makeFile stack junk path mode d =
      (seekBaseDirectory junk path (takenBlock f (allocInode stack d).2)).bind fun base =>
        (writeDirectory base path { withBlock (freshInode d n) 0 f with mode := mode }
          (takenBlock f (allocInode stack d).2)).bind fun r =>
            some (true, writeInode { withBlock (freshInode d n) 0 f with mode := mode } r.2) := by
  rw [makeFile]
  generalize he : allocInode stack d = r at hfresh
  obtain ⟨o, d₁⟩ := r
  obtain rfl : o = some (freshInode d n) := hfresh
  simp only [he] at hfree
  simp only [allocBlock_of_some zeroSlot_freshInode, hfree]
  rfl

lemma makeFile_root (h : RootDir d n f m) (h0 : 0 < n) (hn : n < 200) (h57 : 57 ≤ f) (hf : f ≤ 700)
    (hname : IsName name) : ∃ i d', newInode stack mode d = some i ∧
      makeFile stack junk (separator :: name) mode d = some (true, d') ∧
      FileMade n f m name i d d' := by
  obtain ⟨hfresh, hblocks, hsb⟩ := @InodeList.alloc d stack n h.records.list hn
  have hrec₁ : Records (allocInode stack d).2 (n + 1) := h.records.alloc hn
  have hat₁ : ∀ k < 200, inodeAt (allocInode stack d).2 (slot k) = inodeAt d (slot k) := fun k hk =>
    h.records.list.inodeAt_alloc hn hk
  have hbits₁ : ∀ x < 4096, busy (allocInode stack d).2 x = decide (x < f) := fun x hx => by
    rw [h.records.list.busy_alloc hn hx, h.bits x hx]
  have hitems₁ : readBlock (allocInode stack d).2 56 = m :=
    (hblocks 56 (by decide) (by decide)).trans h.items
  have hx : nextSlot (freshInode d n) = slotFrom (n + 1) := nextSlot_freshInode h.records.list hn
  have hm : mySlot (freshInode d n) = slot n := mySlot_freshInode hn
  have hfreeBlock : freeBlock (allocInode stack d).2 = f :=
    freeBlock_eq (by omega) hrec₁.bitNo hbits₁
  have hnew : newInode stack mode d =
      some { withBlock (freshInode d n) 0 f with mode := mode } := by
    rw [newInode, hfresh, Option.map_some, allocBlock_of_some zeroSlot_freshInode, hfreeBlock]
    rfl
  have hmake : makeFile stack junk (separator :: name) mode d = _ := makeFile_eq hfresh hfreeBlock
  generalize (allocInode stack d).2 = d₁ at *
  have hi : mySlot ({ withBlock (freshInode d n) 0 f with mode := mode } : Inode) = slot n := hm
  have hix : nextSlot ({ withBlock (freshInode d n) 0 f with mode := mode } : Inode) =
    slotFrom (n + 1) := hx
  generalize ({ withBlock (freshInode d n) 0 f with mode := mode } : Inode) = i at *
  -- the block
  have hfree : busy d₁ f = false := by rw [hbits₁ f (by omega), decide_eq_false (lt_irrefl f)]
  have hrec₂ : Records (takenBlock f d₁) (n + 1) := hrec₁.takenBlock (by omega) (by omega) hfree
  have hlow : ∀ b < 57, b ≠ 51 → readBlock (takenBlock f d₁) b = readBlock d₁ b := fun b hb hne =>
    readBlock_takenBlock (by omega) (by omega) hfree (by simp only [Addressable, superBlockSector]; omega)
      (by omega) hne
  have hat₂ : ∀ k < 200, inodeAt (takenBlock f d₁) (slot k) = inodeAt d (slot k) := fun k hk =>
    (inodeAt_congr hk fun b hb => hlow b (by omega) (by omega)).trans (hat₁ k hk)
  have hbits₂ : ∀ x < 4096, busy (takenBlock f d₁) x = decide (x < f + 1) := fun x hx => by
    rw [busy_takenBlock hf (by omega) hfree hx, hbits₁ x hx, ← Bool.decide_or]
    exact decide_eq_decide.mpr (by omega)
  have hitems₂ : readBlock (takenBlock f d₁) 56 = m := (hlow 56 (by decide) (by decide)).trans hitems₁
  generalize takenBlock f d₁ = d₂ at *
  -- the item
  have hbase : getRootDirInode d₂ = inodeAt d (slot 0) :=
    hrec₂.getRootDirInode.trans (hat₂ 0 (by decide))
  have hwrite := @writeDirectory_root d₂ name i (inodeAt d (slot 0)) hname (by rw [h.size]; decide)
  rw [h.block, h.size] at hwrite
  have hitem : writeDirectory (inodeAt d (slot 0)) (separator :: name) i d₂ =
      some (inodeAt d (slot 0), writeBlock d₂ (putDirItem m 56 name i) 56) := by
    rw [hwrite]
    show some (_, writeBlock d₂ (putDirItem (readBlock d₂ 56) 56 name i) 56) = _
    rw [hitems₂]
  refine ⟨i, writeInode i (writeBlock d₂ (putDirItem m 56 name i) 56), hnew, ?_, hi, ?_, ?_, ?_⟩
  · rw [hmake, seekBaseDirectory_root hname, Option.bind_some, hbase, hitem, Option.bind_some]
  · rw [inodeAt_writeInode hn hn hi, if_pos rfl]
  · intro k hk
    rw [inodeAt_itemWritten hi hn (by omega) (by omega), hat₂ k (by omega)]
  · have hroot : inodeAt (writeInode i (writeBlock d₂ (putDirItem m 56 name i) 56)) (slot 0) =
        inodeAt d (slot 0) := by
      rw [inodeAt_itemWritten hi hn (by decide) (by omega), hat₂ 0 (by decide)]
    refine ⟨(hrec₂.writeBlock (by decide) (by decide)).write hn hi hix, fun x hx => ?_, ?_, ?_, ?_⟩
    · rw [busy_itemWritten hi hn hx, hbits₂ x hx]
    · rw [hroot, h.size]
    · rw [hroot, h.block]
    · rw [readBlock_writeInode_of_ge hn hi (by decide) (by decide)]
      refine readBlock_writeBlock_self fun x hx => ?_
      rw [putDirItem_of_not_mem hname.length_lt (by omega), ← h.items, readBlock_of_ge hx]

end MakeFile

/-! ### Runs of `sys_creat` -/

/-- What a `sys_creat` gets, and what it finds on the stack. -/
structure Creat where
  stack : Bytes
  junk : List UInt8 → List UInt8
  junk' : List UInt8 → List UInt8
  name : List UInt8
  mode : UInt16

/-- The state, with the files in the root directory and the inodes they were created with. -/
structure Created where
  system : System
  files : List (List UInt8 × Inode)

/-- The files that `init_userpro` installs. -/
def programs (d : Bytes) : List (List UInt8 × Inode) :=
  [(myproName, inodeAt d (slot 1)), (shellName, inodeAt d (slot 2))]

/-- A `sys_creat` that succeeds, of a name that is no part of another one, nor another one of it. -/
inductive CreatStep (c : Creat) : Created → Created → Prop
  | intro {k k' : System} {files : List (List UInt8 × Inode)} {r : ℤ} {i : Inode}
      (valid : FileName c.name)
      (fresh : ∀ e ∈ files, ¬ c.name <:+: e.1 ∧ ¬ e.1 <:+: c.name)
      (creat : sysCreat c.stack c.junk c.junk' (separator :: c.name) c.mode k = some (r, k'))
      (success : 0 ≤ r)
      (inode : newInode c.stack c.mode k.disk = some i) :
      CreatStep c ⟨k, files⟩ ⟨k', (c.name, i) :: files⟩

/-- Every file is found, with the inode it was created with. -/
def AllFound (s : Created) : Prop :=
  ∀ e ∈ s.files, ∀ junk, seekFileInode junk (separator :: e.1) s.system.disk = some e.2

/-- The first file since `init_file`, and not one with the name `t`. -/
def First (c : Creat) (s : Created) : Prop := s.files.length = 2 ∧ c.name ≠ [116]

/-- One file has been created on the disk `d`. -/
structure OneCreated (d : Bytes) (s : Created) (name : List UInt8) (i : Inode) : Prop where
  files : s.files = (name, i) :: programs d
  valid : FileName name
  shell : ¬ name <:+: shellName
  mypro : ¬ name <:+: myproName
  ne : name ≠ [116]
  made : FileMade 3 87 programItems name i d s.system.disk

section Runs

variable {d m : Bytes} {n f : ℕ} {c : Creat} {s s' : Created} {name : List UInt8} {i : Inode}
  {junk : List UInt8 → List UInt8}

lemma CreatStep.made (h : RootDir s.system.disk n f m) (h0 : 0 < n) (hn : n < 200) (h57 : 57 ≤ f)
    (hf : f ≤ 700) (hs : CreatStep c s s') : ∃ i, s'.files = (c.name, i) :: s.files ∧
      FileName c.name ∧ (∀ e ∈ s.files, ¬ c.name <:+: e.1 ∧ ¬ e.1 <:+: c.name) ∧
      FileMade n f m c.name i s.system.disk s'.system.disk := by
  obtain ⟨hname, hfresh, hcreat, hsuccess, hinode⟩ := hs
  obtain ⟨i, d', hi, hmake, hmade⟩ := @makeFile_root _ _ c.stack _ _ _ c.junk c.mode h h0 hn h57 hf
    hname.isName
  obtain rfl := Option.some_inj.mp (hi.symm.trans hinode)
  refine ⟨i, rfl, hname, hfresh, ?_⟩
  rcases sysCreat_spec hcreat with ⟨-, -, rfl, -⟩ | ⟨disk, hdisk, hopen⟩
  · omega
  · rw [hmake] at hdisk
    obtain ⟨-, rfl⟩ := Prod.mk.inj (Option.some_inj.mp hdisk)
    rw [sysOpen_disk hopen]
    exact hmade

lemma allFound_programs (h : RootDir s.system.disk n f m) (hm : ∀ x < 56, m x = programItems x)
    (hkept : ∀ k < 3, inodeAt s.system.disk (slot k) = inodeAt d (slot k)) :
    ∀ e ∈ programs d, ∀ junk, seekFileInode junk (separator :: e.1) s.system.disk = some e.2 := by
  intro e he junk
  obtain ⟨hshell, hmypro⟩ := @RootDir.programs _ _ _ _ junk h hm
  rcases List.mem_pair.mp he with rfl | rfl
  · rw [hmypro, hkept 1 (by decide)]
  · rw [hshell, hkept 2 (by decide)]

/-- The last file that was made is found. -/
lemma FileMade.found {d' : Bytes} (h : FileMade n f m name i d d')
    (hm : ∀ x < 56, m x = programItems x) (hv : FileName name) (hshell : ¬ name <:+: shellName)
    (hmypro : ¬ name <:+: myproName) (ht : name ≠ [116]) :
    seekFileInode junk (separator :: name) d' = some i := by
  have hlow : ∀ x < 56, putDirItem m 56 name i x = programItems x := fun x hx =>
    (putDirItem_of_not_mem hv.isName.length_lt (.inl hx)).trans (hm x hx)
  refine (h.root.found hv.isName (by decide) standsAt_putDirItem (fun j hj hat => ?_) ?_ ?_).trans
    (congrArg some h.inode)
  · rcases hat.programs hlow hj hv.printable hv.ne_nil with ⟨hin, -⟩ | ⟨hin, -⟩ | he
    · exact hshell hin
    · exact hmypro hin
    · exact ht he
  · rw [get32_putDirItem_blockNo hv.isName.length_lt]
    exact congrArg Prod.fst h.place
  · rw [get32_putDirItem_offset hv.isName.length_lt]
    exact congrArg Prod.snd h.place

lemma OneCreated.low (h : OneCreated d s name i) :
    ∀ x < 56, putDirItem programItems 56 name i x = programItems x := fun _ hx =>
  putDirItem_of_not_mem h.valid.isName.length_lt (.inl hx)

lemma OneCreated.allFound (h : OneCreated d s name i) : AllFound s := by
  intro e he junk
  rw [h.files] at he
  rcases List.mem_cons.mp he with rfl | he
  · exact h.made.found (fun _ _ => rfl) h.valid h.shell h.mypro h.ne
  · exact allFound_programs h.made.root h.low h.made.kept e he junk

lemma OneCreated.lost (h : OneCreated d s name i) (hs : CreatStep c s s') : ¬ AllFound s' := by
  obtain ⟨j, hfiles, hname, hfresh, hmade⟩ := hs.made h.made.root (by decide) (by decide) (by decide)
    (by decide)
  intro hall
  have hmem : (name, i) ∈ s'.files := by
    rw [hfiles, h.files]
    exact List.mem_cons_of_mem _ (List.mem_cons_self ..)
  have hnot := (hfresh (name, i) (by rw [h.files]; exact List.mem_cons_self ..)).2
  have hi : i = _ := hmade.root.not_found h.valid.isName (fun o _ => not_standsAt_overwritten h.valid hname h.shell
    h.mypro hnot h.ne hmade.place)
    (hall _ hmem fun _ => [])
  have hplace := h.made.place
  rw [hi, hmade.root.records.list.own 0 (by decide)] at hplace
  exact absurd hplace (by decide)

lemma OneCreated.not_first (h : OneCreated d s name i) : ¬ First c s := fun hG => by
  have hlen := hG.1
  rw [h.files] at hlen
  simp [programs] at hlen

lemma CreatStep.oneCreated (hd : Installed d) (hdisk : s.system.disk = d)
    (hfiles : s.files = programs d) (hs : CreatStep c s s') (hne : c.name ≠ [116]) :
    ∃ i, OneCreated d s' c.name i := by
  obtain ⟨i, hfiles', hname, hfresh, hmade⟩ := hs.made (hdisk ▸ hd.rootDir) (by decide) (by decide)
    (by decide) (by decide)
  rw [hdisk] at hmade
  refine ⟨i, by rw [hfiles', hfiles], hname, (hfresh (shellName, inodeAt d (slot 2)) ?_).1,
    (hfresh (myproName, inodeAt d (slot 1)) ?_).1, hne, hmade⟩ <;>
  · rw [hfiles]
    simp [programs]

/-- **When created files are found**: as long as one file at most is created after `init_file`, and
that is not called `t`. A second file, whatever it is called, makes the first one disappear. -/
theorem created_found_iff {junks : ℕ → ℕ → Bytes} {d₀ : Bytes} {k : System} {h : List Creat}
    (hd : initFile junks d₀ = some d) (hk : k.disk = d)
    (hrun : Run CreatStep First ⟨k, programs d⟩ h s) :
    AllFound s ∧ ∀ c s', CreatStep c s s' → c.name ≠ [116] → (AllFound s' ↔ First c s) := by
  obtain ⟨d', hd', hinst⟩ := initFile_spec junks d₀
  obtain rfl : d' = d := Option.some_inj.mp (hd'.symm.trans hd)
  have hinv : (s.system.disk = d' ∧ s.files = programs d') ∨ ∃ name i, OneCreated d' s name i := by
    refine hrun.inv (fun s => (s.system.disk = d' ∧ s.files = programs d') ∨
      ∃ name i, OneCreated d' s name i) (.inl ⟨hk, rfl⟩) ?_
    rintro c s s' (⟨hdisk, hfiles⟩ | ⟨name, i, hone⟩) hG hs
    · exact .inr ⟨c.name, hs.oneCreated hinst hdisk hfiles hG.2⟩
    · exact absurd hG hone.not_first
  rcases hinv with ⟨hdisk, hfiles⟩ | ⟨name, i, hone⟩
  · refine ⟨fun e he => ?_, fun c s' hs hne => iff_of_true ?_ ⟨by rw [hfiles]; rfl, hne⟩⟩
    · refine allFound_programs (hdisk ▸ hinst.rootDir) (fun _ _ => rfl) (fun k _ => ?_) e (hfiles ▸ he)
      rw [hdisk]
    · obtain ⟨i, hone⟩ := hs.oneCreated hinst hdisk hfiles hne
      exact hone.allFound
  · exact ⟨hone.allFound, fun c s' hs _ => iff_of_false (hone.lost hs) hone.not_first⟩

/-! ### Two files -/

/-- A `sys_creat` with a descriptor left takes that one and no other. -/
lemma exists_creat {fd : Fin fileMaxInProcess} (h : RootDir s.system.disk n f m)
    (hm : ∀ x < 56, m x = programItems x) (h0 : 0 < n) (hn : n < 200) (h57 : 57 ≤ f) (hf : f ≤ 700)
    (hv : FileName c.name) (hfresh : ∀ e ∈ s.files, ¬ c.name <:+: e.1 ∧ ¬ e.1 <:+: c.name)
    (hshell : ¬ c.name <:+: shellName) (hmypro : ¬ c.name <:+: myproName) (ht : c.name ≠ [116])
    (hfd : getMinfd s.system.proc = some fd) : ∃ s', CreatStep c s s' ∧
      ∀ fd' ≠ fd, s'.system.proc.fdlist fd' = s.system.proc.fdlist fd' := by
  obtain ⟨i, d', hi, hmake, hmade⟩ := @makeFile_root _ _ c.stack _ _ _ c.junk c.mode h h0 hn h57 hf
    hv.isName
  have hseek := @FileMade.found _ _ _ _ _ _ c.junk' _ hmade hm hv hshell hmypro ht
  obtain ⟨⟨r, k'⟩, hopen⟩ : ∃ q, sysOpen c.junk' (separator :: c.name) oRdwr
      { s.system with disk := d' } = some q := by
    rw [sysOpen, hseek]
    exact ⟨_, rfl⟩
  obtain ⟨_, -, ⟨hnone, -, -⟩ | ⟨fd₁, hfd₁, hr, hk⟩⟩ := sysOpen_spec hopen
  · exact absurd (hfd.symm.trans hnone) (by simp)
  · obtain rfl : fd₁ = fd := Option.some_inj.mp (hfd₁.symm.trans hfd)
    have hcreat : sysCreat c.stack c.junk c.junk' (separator :: c.name) c.mode s.system =
        some (r, k') := by
      rw [sysCreat, hmake]
      exact hopen
    refine ⟨_, .intro hv hfresh hcreat (by omega) hi, fun fd' hne => ?_⟩
    rcases hk with ⟨-, rfl⟩ | ⟨j, ho⟩
    · rfl
    · rw [ho.eq]
      simp only [System.proc, System.setPcb_current, System.setPcb_self, Function.update_of_ne hne]

end Runs

/-- A `sys_creat` of a file with a name of one letter. -/
def creatLetter (b : UInt8) : Creat := ⟨fun _ => 0, fun _ => [], fun _ => [], [b], regularFile⟩

/-- The kernel after `init_pcb` and `init_openFileList`, on a disk after `init_file`. -/
def creatBoot (d : Bytes) : Created :=
  ⟨boot 0xc0020000 ⟨fun _ => 0, 0⟩ (initOpenFileList fun _ => ⟨0, 0, 0, 0, false⟩) d .init, programs d⟩

lemma getMinfd_creatBoot {d : Bytes} : getMinfd (creatBoot d).system.proc = some 3 := rfl

lemma fileName_letter {b : UInt8} (hb : Printable b) (hs : b ≠ separator) : FileName [b] :=
  ⟨by simp, show 1 < fileNameMax by decide, by simpa using Ne.symm hs, by simpa using hb⟩

/-- The name of one letter is no part of another name, nor the other one of it. -/
def Unrelated (b : UInt8) (name : List UInt8) : Prop := ¬ [b] <:+: name ∧ ¬ name <:+: [b]

instance (b : UInt8) (name : List UInt8) : Decidable (Unrelated b name) :=
  inferInstanceAs (Decidable (¬ [b] <:+: name ∧ ¬ name <:+: [b]))

lemma unrelated_programs {d : Bytes} {b : UInt8} (h : Unrelated b myproName ∧ Unrelated b shellName) :
    ∀ e ∈ programs d, Unrelated b e.1 := by
  intro e he
  rcases List.mem_pair.mp he with rfl | rfl
  · exact h.1
  · exact h.2

/-- The file `a` is created. -/
lemma creat_first {d : Bytes} (hd : Installed d) : ∃ s, CreatStep (creatLetter 97) (creatBoot d) s ∧
    (∃ i, OneCreated d s [97] i) ∧
    ∀ fd' ≠ 3, s.system.proc.fdlist fd' = (creatBoot d).system.proc.fdlist fd' := by
  obtain ⟨s, hs, hfd⟩ := exists_creat (c := creatLetter 97) hd.rootDir (fun _ _ => rfl) (by decide)
    (by decide) (by decide) (by decide) (fileName_letter (by decide) (by decide))
    (unrelated_programs (by decide)) (by decide) (by decide) (by decide) getMinfd_creatBoot
  exact ⟨s, hs, hs.oneCreated hd rfl rfl (by decide), hfd⟩

theorem created_found_iff_letter : ∃ d, initFile (fun _ _ _ => 0) (fun _ => 0) = some d ∧
    ∃ s, CreatStep (creatLetter 97) (creatBoot d) s ∧ AllFound s := by
  obtain ⟨d, hd, hinst⟩ := initFile_spec (fun _ _ _ => 0) fun _ => 0
  obtain ⟨s, hs, -⟩ := creat_first hinst
  have hrun : Run CreatStep First (creatBoot d) [creatLetter 97] s :=
    .cons .nil ⟨rfl, by decide⟩ hs
  exact ⟨d, hd, s, hs, (created_found_iff hd rfl hrun).1⟩

/-- After `a` and `b` are created, `a` is not found. -/
theorem created_lost : ¬ ∀ d h s, initFile (fun _ _ _ => 0) (fun _ => 0) = some d →
    Run CreatStep (fun _ _ => True) (creatBoot d) h s → AllFound s := by
  intro hall
  obtain ⟨d, hd, hinst⟩ := initFile_spec (fun _ _ _ => 0) fun _ => 0
  obtain ⟨s, hs, ⟨i, hone⟩, hfd⟩ := creat_first hinst
  obtain ⟨fd, hfd'⟩ : ∃ fd, getMinfd s.system.proc = some fd := by
    refine Option.isSome_iff_exists.mp (List.find?_isSome.mpr ⟨4, List.mem_finRange _, ?_⟩)
    rw [isOpen, hfd 4 (by decide)]
    rfl
  have hfresh : ∀ e ∈ s.files, Unrelated 98 e.1 := by
    rw [hone.files, List.forall_mem_cons]
    exact ⟨show Unrelated 98 [97] by decide, unrelated_programs (by decide)⟩
  obtain ⟨s', hs', -⟩ := exists_creat (c := creatLetter 98) hone.made.root hone.low (by decide)
    (by decide) (by decide) (by decide) (fileName_letter (by decide) (by decide)) hfresh (by decide)
    (by decide) (by decide) hfd'
  exact hone.lost hs' (hall d [creatLetter 98, creatLetter 97] s' hd
    (.cons (.cons .nil trivial hs) trivial hs'))

end Nbos.Process
