import Nbos.Fs.Dir
import Nbos.Fs.InodeList

/-!
# Initialisation

`init_file` of `file.c` and what it leaves on disk (`Installed`): three inodes, the root directory,
`mypro` and `shell`, the blocks 56 to 86 theirs, and the two names in the block of the root.

The locals of the C functions are not initialised; `junk` stands for what they hold. `initFile_spec`
holds for all of it.
-/

namespace Nbos.Fs

open Nbos.Lib Nbos.Kernel

/-! ### The source -/

/-- `create_rootDir`. -/
def createRootDir (junk : ℕ → Bytes) (d : Bytes) : Bytes :=
  let (i, d) := allocInode (junk 0) d
  let rootDirInode := i.getD (loadInode (junk 1) 0)
  let (_, rootDirInode, d) := allocBlock rootDirInode d
  let rootDirInode := { rootDirInode with mode := directoryFile, size := 0 }
  let d := writeInode rootDirInode d
  let superBlock :=
    { readSuperBlock d with
      rootdirInodeOffset := rootDirInode.myInodeOffset
      rootdirInodeBlockNo := rootDirInode.myInodeBlockNo }
  writeSuperBlock d (junk 2) superBlock

/-- `block_no[k] = block`. -/
def setBlockNo (i : Inode) (k block : ℕ) : Inode :=
  { i with blockNo := fun a => if (a : ℕ) = k then .ofNat block else i.blockNo a }

/-- The loops of `init_userpro` that give a program its blocks. -/
def programBlocks (sector blocks : ℕ) (s : Inode × Bytes) : Inode × Bytes :=
  forRange blocks (fun k s => (setBlockNo s.1 k (sector - superBlockSector + k),
    (updateDataBlockBit (sector - superBlockSector + k) blockBusy s.2).2)) s

/-- `"shell"`. -/
abbrev shellName : List UInt8 := [115, 104, 101, 108, 108]

/-- `"mypro"`. -/
abbrev myproName : List UInt8 := [109, 121, 112, 114, 111]

/-- `init_userpro`. -/
def initUserpro (junk : ℕ → Bytes) (d : Bytes) : Option Bytes := do
  let (i, d) := allocInode (junk 0) d
  let inMypro := i.getD (loadInode (junk 1) 0)
  let (i, d) := allocInode (junk 2) d
  let inShell := i.getD (loadInode (junk 3) 0)
  let (inShell, d) := programBlocks shellSector shellBlocks (inShell, d)
  let (inMypro, d) := programBlocks myproSector myproBlocks (inMypro, d)
  let inShell := { inShell with mode := regularFile }
  let inMypro := { inMypro with mode := regularFile }
  let d := writeInode inShell d
  let d := writeInode inMypro d
  let root := getRootDirInode d
  let (root, d) ← writeDirectory root (separator :: shellName) inShell d
  let root := { root with size := root.size + .ofNat dirItemSize }
  let d := writeInode root d
  let (root, d) ← writeDirectory root (separator :: myproName) inMypro d
  let root := { root with size := root.size + .ofNat dirItemSize }
  return writeInode root d

/-- The part of `init_file` that writes the disk. -/
def initFile (junk : ℕ → ℕ → Bytes) (d : Bytes) : Option Bytes :=
  let d := initSuperBlock (junk 0 0) d
  let d := initInodeList (junk 1) d
  let d := initDataBlockBit d
  let d := createRootDir (junk 2) d
  initUserpro (junk 3) d

/-- `init_openFileList`. It leaves the flags of the other entries alone. -/
def initOpenFileList (fileList : Fin fileMaxInSys → OpenFile) : Fin fileMaxInSys → OpenFile :=
  fun i =>
    { fileList i with
      fInodeBlockNo := 0
      fInodeOffset := 0
      offset := 0
      isopen := (i : ℕ) = stdoutFileno ∨ (i : ℕ) = stderrFileno ∨ (i : ℕ) = stdinFileno
      oflags :=
        if (i : ℕ) = stdoutFileno ∨ (i : ℕ) = stderrFileno then oRdwr
        else if (i : ℕ) = stdinFileno then oRdonly else (fileList i).oflags }

/-! ### Which blocks a call changes -/

section Frames

variable {d arr junk : Bytes} {b k m n : ℕ} {i : Inode} {sb : SuperBlock}

lemma busy_writeBlock (hb : Addressable b) (h : b ≠ 51) (hm : m < 4096) :
    busy (writeBlock d arr b) m = busy d m := by
  rw [busy_eq hm, busy_eq hm, readBlock_writeBlock_ne (by decide) hb (Ne.symm h)]

lemma busy_writeSuperBlock (hm : m < 4096) : busy (writeSuperBlock d junk sb) m = busy d m :=
  busy_writeBlock (by decide) (by decide) hm

lemma slot_fst_lt (h : n < 200) : (slot n).1 < 51 := by
  simp only [slot]
  omega

lemma busy_writeInode (hk : k < 200) (hi : mySlot i = slot k) (hm : m < 4096) :
    busy (writeInode i d) m = busy d m := by
  have hb : i.myInodeBlockNo.toNat = (slot k).1 := congrArg Prod.fst hi
  have hlt := slot_fst_lt hk
  refine busy_writeBlock ?_ (by omega) hm
  rw [hb]
  exact slot_addressable hk

lemma readBlock_writeInode_of_ge (hk : k < 200) (hi : mySlot i = slot k) (hb : Addressable b)
    (h : b = 0 ∨ 51 ≤ b) : readBlock (writeInode i d) b = readBlock d b := by
  have hblock : i.myInodeBlockNo.toNat = (slot k).1 := congrArg Prod.fst hi
  have hlt := slot_fst_lt hk
  have hpos := slot_fst_pos (n := k)
  refine readBlock_writeInode hb ?_ (by omega)
  rw [hblock]
  exact slot_addressable hk

lemma InodeList.busy_alloc (h : InodeList d n) (hn : n < 200) (hm : m < 4096) :
    busy (allocInode junk d).2 m = busy d m := by
  rw [busy_eq hm, busy_eq hm, (h.alloc hn).2.1 _ (by decide) (by decide)]

/-- An inode list is kept by a write above the inode blocks. -/
lemma InodeList.writeBlock_ge (h : InodeList d n) (hb : Addressable b) (h51 : 51 ≤ b) :
    InodeList (writeBlock d arr b) n := by
  refine h.congr ?_ fun k hk => readBlock_writeBlock_ne (slot_addressable hk) hb ?_
  · rw [freeSlot, readSuperBlock_writeBlock hb (by omega), freeSlot]
  · have := slot_fst_lt hk
    omega

lemma readSuperBlock_takenBlock {f : ℕ} (hf : f < 4096) (h56 : 56 ≤ f) (hfree : busy d f = false) :
    readSuperBlock (takenBlock f d) = readSuperBlock d :=
  readSuperBlock_congr (readBlock_takenBlock hf (by omega) hfree (by decide)
    (by simp only [superBlockNo]; omega) (by decide))

lemma InodeList.takenBlock {f : ℕ} (h : InodeList d n) (hf : f < 4096) (h56 : 56 ≤ f)
    (hfree : busy d f = false) : InodeList (takenBlock f d) n := by
  refine h.congr ?_ fun k hk => ?_
  · rw [freeSlot, readSuperBlock_takenBlock hf h56 hfree, freeSlot]
  · have hlt := slot_fst_lt hk
    exact readBlock_takenBlock hf (by omega) hfree (slot_addressable hk) (by omega) (by omega)

/-- A buffer of one sector, written and read back. -/
lemma readBlock_writeBlock_self (h : ∀ x, 512 ≤ x → arr x = 0) :
    readBlock (writeBlock d arr b) b = arr := by
  funext x
  by_cases hx : x < 512
  · exact readBlock_writeBlock_of_lt hx
  · rw [h x (by omega)]
    exact if_neg hx

lemma readBlock_of_ge {x : ℕ} (h : 512 ≤ x) : readBlock d b x = 0 :=
  if_neg (by simp only [sectorSize]; omega)

end Frames

/-! ### The blocks of a program -/

section ProgramBlocks

variable {d : Bytes} {sector blocks b m : ℕ} {i : Inode}

/-- What the loops of `init_userpro` leave, for free blocks of the file system. -/
structure ProgramBlocks (first n : ℕ) (i : Inode) (d : Bytes) (s : Inode × Bytes) : Prop where
  inode : s.1 = { i with blockNo := fun a => if (a : ℕ) < n then .ofNat (first + a) else i.blockNo a }
  block : ∀ b, Addressable b → b ≠ 51 → readBlock s.2 b = readBlock d b
  bits : ∀ m < 4096, busy s.2 m = (decide (first ≤ m ∧ m < first + n) || busy d m)

theorem programBlocks_spec {first : ℕ} (hfirst : sector - superBlockSector = first)
    (hle : first + blocks ≤ 700) (hfree : ∀ k < blocks, busy d (first + k) = false) :
    ProgramBlocks first blocks i d (programBlocks sector blocks (i, d)) := by
  rw [programBlocks, hfirst]
  refine forRange_inv (fun n s => ProgramBlocks first n i d s) ⟨?_, fun _ _ _ => rfl, ?_⟩ ?_
  · simp
  · intro m _
    rw [decide_eq_false (by omega), Bool.false_or]
  rintro n hn ⟨i', d'⟩ ⟨hi, hblock, hbits⟩
  simp only at hi hblock hbits
  have hfree' : busy d' (first + n) = false := by
    rw [hbits _ (by omega), decide_eq_false (by omega), Bool.false_or]
    exact hfree n hn
  refine ⟨?_, fun b hb hne => ?_, fun m hm => ?_⟩
  · subst hi
    refine congrArg (fun f => { i with blockNo := f }) (funext fun a => ?_)
    simp only
    by_cases ha : (a : ℕ) = n
    · rw [if_pos ha, if_pos (by omega), ha]
    · rw [if_neg ha]
      by_cases hlt : (a : ℕ) < n
      · rw [if_pos hlt, if_pos (by omega)]
      · rw [if_neg hlt, if_neg (by omega)]
  · simp only
    rw [readBlock_updateDataBlockBit (by omega) hfree' hb hne, hblock b hb hne]
  · simp only
    rw [busy_updateDataBlockBit (by omega) hfree' hm, hbits m hm, ← Bool.or_assoc,
      ← Bool.decide_or]
    refine congrArg (· || busy d m) (decide_eq_decide.mpr ?_)
    omega

/-- The blocks of a program, when they are the first free ones. -/
lemma programBlocks_next {first next : ℕ} (hfirst : sector - superBlockSector = first)
    (hnext : first + blocks = next) (hle : next ≤ 700)
    (hbits : ∀ m < 4096, busy d m = decide (m < first)) :
    ProgramBlocks first blocks i d (programBlocks sector blocks (i, d)) ∧
      ∀ m < 4096, busy (programBlocks sector blocks (i, d)).2 m = decide (m < next) := by
  have p : ProgramBlocks first blocks i d (programBlocks sector blocks (i, d)) :=
    programBlocks_spec hfirst (by omega) fun k hk => by
      rw [hbits _ (by omega), decide_eq_false (by omega)]
  refine ⟨p, fun m hm => ?_⟩
  rw [p.bits m hm, hbits m hm, ← Bool.decide_or]
  exact decide_eq_decide.mpr (by omega)

end ProgramBlocks

/-! ### The records of the file system -/

/-- The super block and the inode list of a running file system, `n` inodes handed out. -/
structure Records (d : Bytes) (n : ℕ) : Prop where
  list : InodeList d n
  bitNo : (readSuperBlock d).dataBlockBitNo 0 = 51
  root : ((readSuperBlock d).rootdirInodeBlockNo.toNat,
    (readSuperBlock d).rootdirInodeOffset.toNat) = slot 0

section Records

variable {d arr junk : Bytes} {b f k n : ℕ} {i : Inode}

lemma Records.getRootDirInode (h : Records d n) : getRootDirInode d = inodeAt d (slot 0) := by
  rw [inodeAt, ← h.root]
  rfl

lemma Records.alloc (h : Records d n) (hn : n < 200) : Records (allocInode junk d).2 (n + 1) := by
  obtain ⟨-, -, hsb⟩ := @InodeList.alloc d junk n h.list hn
  exact ⟨h.list.alloc_next hn, by rw [hsb]; exact h.bitNo, by rw [hsb]; exact h.root⟩

lemma InodeList.inodeAt_alloc (h : InodeList d n) (hn : n < 200) (hk : k < 200) :
    inodeAt (allocInode junk d).2 (slot k) = inodeAt d (slot k) :=
  readInode_congr ((h.alloc hn).2.1 _ (slot_addressable hk) slot_fst_pos.ne')

lemma Records.write (h : Records d n) (hk : k < 200) (hm : mySlot i = slot k)
    (hx : nextSlot i = slotFrom (k + 1)) : Records (writeInode i d) n :=
  ⟨h.list.write hk hm hx, by rw [readSuperBlock_writeInode hk hm]; exact h.bitNo,
    by rw [readSuperBlock_writeInode hk hm]; exact h.root⟩

lemma Records.writeBlock (h : Records d n) (hb : Addressable b) (h51 : 51 ≤ b) :
    Records (writeBlock d arr b) n :=
  ⟨h.list.writeBlock_ge hb h51, by rw [readSuperBlock_writeBlock hb (by omega)]; exact h.bitNo,
    by rw [readSuperBlock_writeBlock hb (by omega)]; exact h.root⟩

lemma Records.takenBlock (h : Records d n) (hf : f < 4096) (h56 : 56 ≤ f)
    (hfree : busy d f = false) : Records (takenBlock f d) n :=
  ⟨h.list.takenBlock hf h56 hfree, by rw [readSuperBlock_takenBlock hf h56 hfree]; exact h.bitNo,
    by rw [readSuperBlock_takenBlock hf h56 hfree]; exact h.root⟩

lemma Records.congr {d' : Bytes} (h : Records d n) (hd : ∀ b ≤ 50, readBlock d' b = readBlock d b) :
    Records d' n := by
  have hsb : readSuperBlock d' = readSuperBlock d := readSuperBlock_congr (hd 0 (by omega))
  refine ⟨h.list.congr (by rw [freeSlot, hsb, freeSlot]) fun k hk => hd _ ?_, by rw [hsb, h.bitNo],
    by rw [hsb, h.root]⟩
  have := slot_fst_lt hk
  omega

lemma inodeAt_congr {d' : Bytes} (hk : k < 200) (hd : ∀ b ≤ 50, readBlock d' b = readBlock d b) :
    inodeAt d' (slot k) = inodeAt d (slot k) :=
  readInode_congr (hd _ (by have := slot_fst_lt hk; omega))

end Records

/-! ### What `init_file` leaves -/

/-- `n` blocks from `first` on, and no others. -/
def blocksFrom (first n : ℕ) : Fin maxBlocksInFile → UInt32 := fun a =>
  if (a : ℕ) < n then .ofNat (first + a) else 0

/-- The disk after `init_file`. -/
structure Installed (d : Bytes) : Prop where
  records : Records d 3
  bits : ∀ m < 4096, busy d m = decide (m < 87)
  rootMode : (inodeAt d (slot 0)).mode = directoryFile
  rootSize : (inodeAt d (slot 0)).size = 56
  rootBlocks : (inodeAt d (slot 0)).blockNo = blocksFrom 56 1
  myproMode : (inodeAt d (slot 1)).mode = regularFile
  myproBlocks : (inodeAt d (slot 1)).blockNo = blocksFrom 72 15
  shellMode : (inodeAt d (slot 2)).mode = regularFile
  shellBlocks : (inodeAt d (slot 2)).blockNo = blocksFrom 57 15
  rootBlock : readBlock d 56 = putDirItem (putDirItem (fun _ => 0) 0 shellName (inodeAt d (slot 2)))
    28 myproName (inodeAt d (slot 1))

/-- The disk after `create_rootDir`. -/
structure RootCreated (d : Bytes) : Prop where
  records : Records d 1
  bits : ∀ m < 4096, busy d m = decide (m < 57)
  rootMode : (inodeAt d (slot 0)).mode = directoryFile
  rootSize : (inodeAt d (slot 0)).size = 0
  rootBlocks : (inodeAt d (slot 0)).blockNo = blocksFrom 56 1
  rootBlock : readBlock d 56 = fun _ => 0

section Installed

variable {d : Bytes} {junk : ℕ → Bytes} {n : ℕ}

lemma zeroSlot_freshInode : zeroSlot (freshInode d n) = some 0 := by
  have hcons : List.finRange maxBlocksInFile = 0 :: (List.finRange maxBlocksInFile).tail := by decide
  rw [zeroSlot, hcons, List.find?_cons_of_pos (by rfl)]

/-- The block `allocBlock` takes is the first free one. -/
lemma freeBlock_eq {f : ℕ} (hf : f < 4096) (hsb : (readSuperBlock d).dataBlockBitNo 0 = 51)
    (hbits : ∀ m < 4096, busy d m = decide (m < f)) : freeBlock d = f := by
  have hbit := hbits f hf
  rw [decide_eq_false (by omega)] at hbit
  obtain ⟨h1, h2, h3⟩ := freeBlock_spec hsb ⟨f, hf, hbit⟩
  rw [hbits _ h1, decide_eq_false_iff_not] at h2
  have hnot : ¬ f < freeBlock d := fun hlt => by
    have h4 := h3 f hlt
    rw [hbit] at h4
    cases h4
  omega

/-- The inode of the root directory. -/
def rootInode (d : Bytes) : Inode :=
  { freshInode d 0 with
    blockNo := Function.update (freshInode d 0).blockNo 0 (.ofNat 56)
    mode := directoryFile
    size := 0 }

lemma rootInode_blockNo : (rootInode d).blockNo = blocksFrom 56 1 := by
  funext a
  show Function.update (fun _ => (0 : UInt32)) (0 : Fin maxBlocksInFile) (.ofNat 56) a = _
  rw [blocksFrom]
  by_cases ha : a = 0
  · subst ha
    rfl
  · have hlt : ¬ (a : ℕ) < 1 := fun h => ha (Fin.ext (by simpa using h))
    rw [Function.update_of_ne ha, if_neg hlt]

lemma createRootDir_eq (h : InodeList d 0) (hsb : (readSuperBlock d).dataBlockBitNo 0 = 51)
    (hbits : ∀ m < 4096, busy d m = decide (m < 56)) :
    createRootDir junk d =
      writeSuperBlock (writeInode (rootInode d) (takenBlock 56 (allocInode (junk 0) d).2)) (junk 2)
        { readSuperBlock (writeInode (rootInode d) (takenBlock 56 (allocInode (junk 0) d).2)) with
          rootdirInodeOffset := (rootInode d).myInodeOffset
          rootdirInodeBlockNo := (rootInode d).myInodeBlockNo } := by
  obtain ⟨h1, -, h3⟩ := @InodeList.alloc d (junk 0) 0 h (by decide)
  have hfree : freeBlock (allocInode (junk 0) d).2 = 56 := by
    refine freeBlock_eq (by decide) (by rw [h3]; exact hsb) fun m hm => ?_
    rw [h.busy_alloc (by decide) hm, hbits m hm]
  simp only [createRootDir, h1, Option.getD_some, allocBlock_of_some zeroSlot_freshInode, hfree]
  rfl

theorem rootCreated (h : InodeList d 0) (hsb : (readSuperBlock d).dataBlockBitNo 0 = 51)
    (hbits : ∀ m < 4096, busy d m = decide (m < 56)) : RootCreated (createRootDir junk d) := by
  obtain ⟨-, -, h3⟩ := @InodeList.alloc d (junk 0) 0 h (by decide)
  have hm : mySlot (rootInode d) = slot 0 := mySlot_freshInode (d := d) (by decide)
  have hx : nextSlot (rootInode d) = slotFrom 1 := nextSlot_freshInode h (by decide)
  rw [createRootDir_eq h hsb hbits]
  generalize hd₁ : (allocInode (junk 0) d).2 = d₁ at *
  have hlist₁ : InodeList d₁ 1 := hd₁ ▸ h.alloc_next (by decide)
  have hbits₁ : ∀ m < 4096, busy d₁ m = decide (m < 56) := fun m hm => by
    rw [← hd₁, h.busy_alloc (by decide) hm, hbits m hm]
  have hfree : busy d₁ 56 = false := by rw [hbits₁ 56 (by decide)]; rfl
  -- the root's inode and its block
  have hlist₂ : InodeList (writeInode (rootInode d) (takenBlock 56 d₁)) 1 :=
    (hlist₁.takenBlock (by decide) (by decide) hfree).write (by decide) hm hx
  have hsb₂ : readSuperBlock (writeInode (rootInode d) (takenBlock 56 d₁)) = readSuperBlock d₁ := by
    rw [readSuperBlock_writeInode (by decide) hm,
      readSuperBlock_takenBlock (by decide) (by decide) hfree]
  have hroot₂ : inodeAt (writeInode (rootInode d) (takenBlock 56 d₁)) (slot 0) = rootInode d := by
    rw [inodeAt_writeInode (by decide) (by decide) hm, if_pos rfl]
  have hblock₂ : readBlock (writeInode (rootInode d) (takenBlock 56 d₁)) 56 = fun _ => 0 := by
    rw [readBlock_writeInode_of_ge (by decide) hm (by decide) (by decide),
      readBlock_takenBlock_self (by decide) (by decide) hfree]
  have hbits₂ : ∀ m < 4096,
      busy (writeInode (rootInode d) (takenBlock 56 d₁)) m = decide (m < 57) := by
    intro m hlt
    rw [busy_writeInode (by decide) hm hlt, busy_takenBlock (by decide) (by decide) hfree hlt,
      hbits₁ m hlt, ← Bool.decide_or]
    exact decide_eq_decide.mpr (by omega)
  generalize writeInode (rootInode d) (takenBlock 56 d₁) = d₂ at *
  generalize hsb₃ : ({ readSuperBlock d₂ with
      rootdirInodeOffset := (rootInode d).myInodeOffset
      rootdirInodeBlockNo := (rootInode d).myInodeBlockNo } : SuperBlock) = sb
  have hkeep : ∀ b, Addressable b → b ≠ 0 →
      readBlock (writeSuperBlock d₂ (junk 2) sb) b = readBlock d₂ b :=
    fun b hb hb0 => readBlock_writeSuperBlock hb hb0
  have hroot₃ : inodeAt (writeSuperBlock d₂ (junk 2) sb) (slot 0) = rootInode d :=
    (readInode_congr (hkeep _ (by decide) (by decide))).trans hroot₂
  refine ⟨⟨hlist₂.congr ?_ fun k hk => hkeep _ (slot_addressable hk) slot_fst_pos.ne', ?_, ?_⟩,
    fun m hlt => ?_, ?_, ?_, ?_, ?_⟩
  · rw [freeSlot, readSuperBlock_writeSuperBlock, ← hsb₃, freeSlot]
  · rw [readSuperBlock_writeSuperBlock, ← hsb₃, hsb₂, h3]
    exact hsb
  · rw [readSuperBlock_writeSuperBlock, ← hsb₃]
    exact hm
  · rw [busy_writeSuperBlock hlt, hbits₂ m hlt]
  · rw [hroot₃]
    rfl
  · rw [hroot₃]
    rfl
  · rw [hroot₃, rootInode_blockNo]
  · rw [hkeep 56 (by decide) (by decide), hblock₂]

/-- The disk before `init_userpro` fills the root directory, with the inodes it has in memory. -/
structure ProgramsWritten (root mypro shell : Inode) (d : Bytes) : Prop where
  records : Records d 3
  bits : ∀ m < 4096, busy d m = decide (m < 87)
  rootAt : inodeAt d (slot 0) = root
  myproAt : inodeAt d (slot 1) = mypro
  shellAt : inodeAt d (slot 2) = shell
  myproMode : mypro.mode = regularFile
  myproBlocks : mypro.blockNo = blocksFrom 72 15
  shellMode : shell.mode = regularFile
  shellBlocks : shell.blockNo = blocksFrom 57 15
  rootBlock : readBlock d 56 = fun _ => 0

/-- The inode of a program. -/
def programInode (d : Bytes) (n first : ℕ) : Inode :=
  { freshInode d n with blockNo := blocksFrom first 15, mode := regularFile }

lemma ProgramBlocks.fresh {first : ℕ} {d' : Bytes} {s : Inode × Bytes}
    (h : ProgramBlocks first 15 (freshInode d n) d' s) :
    { s.1 with mode := regularFile } = programInode d n first := by
  rw [h.inode]
  rfl

/-- The disk on which `init_userpro` fills the root directory. -/
def programsDisk (junk : ℕ → Bytes) (d : Bytes) : Bytes :=
  let d₁ := (allocInode (junk 0) d).2
  let d₂ := (allocInode (junk 2) d₁).2
  let d₃ := (programBlocks shellSector shellBlocks (freshInode d₁ 2, d₂)).2
  let d₄ := (programBlocks myproSector myproBlocks (freshInode d 1, d₃)).2
  writeInode (programInode d 1 72) (writeInode (programInode d₁ 2 57) d₄)

lemma programsWritten (h : RootCreated d) :
    ProgramsWritten (inodeAt d (slot 0)) (programInode d 1 72)
      (programInode (allocInode (junk 0) d).2 2 57) (programsDisk junk d) := by
  have hrec₁ : Records (allocInode (junk 0) d).2 2 := h.records.alloc (by decide)
  have hroot₁ := @InodeList.inodeAt_alloc d (junk 0) 0 1 h.records.list (by decide) (by decide)
  have hbits₁ : ∀ m < 4096, busy (allocInode (junk 0) d).2 m = decide (m < 57) := fun m hm => by
    rw [h.records.list.busy_alloc (by decide) hm, h.bits m hm]
  have hblock₁ : readBlock (allocInode (junk 0) d).2 56 = fun _ => 0 := by
    rw [(h.records.list.alloc (by decide)).2.1 _ (by decide) (by decide), h.rootBlock]
  have hm1 : mySlot (programInode d 1 72) = slot 1 := mySlot_freshInode (d := d) (by decide)
  have hx1 : nextSlot (programInode d 1 72) = slotFrom 2 :=
    nextSlot_freshInode h.records.list (by decide)
  unfold programsDisk
  generalize (allocInode (junk 0) d).2 = d₁ at *
  have hm2 : mySlot (programInode d₁ 2 57) = slot 2 := mySlot_freshInode (d := d₁) (by decide)
  have hx2 : nextSlot (programInode d₁ 2 57) = slotFrom 3 :=
    nextSlot_freshInode hrec₁.list (by decide)
  have hrec₂ : Records (allocInode (junk 2) d₁).2 3 := hrec₁.alloc (by decide)
  have hroot₂ := @InodeList.inodeAt_alloc d₁ (junk 2) 0 2 hrec₁.list (by decide) (by decide)
  have hbits₂ : ∀ m < 4096, busy (allocInode (junk 2) d₁).2 m = decide (m < 57) := fun m hm => by
    rw [hrec₁.list.busy_alloc (by decide) hm, hbits₁ m hm]
  have hblock₂ : readBlock (allocInode (junk 2) d₁).2 56 = fun _ => 0 := by
    rw [(hrec₁.list.alloc (by decide)).2.1 _ (by decide) (by decide), hblock₁]
  simp only
  generalize (allocInode (junk 2) d₁).2 = d₂ at *
  -- the blocks of the two programs
  obtain ⟨p, hbits₃⟩ := @programBlocks_next d₂ shellSector shellBlocks (freshInode d₁ 2) 57 72
    rfl rfl (by decide) hbits₂
  have hblock₃ := p.block
  generalize (programBlocks shellSector shellBlocks (freshInode d₁ 2, d₂)).2 = d₃ at *
  obtain ⟨q, hbits₄⟩ := @programBlocks_next d₃ myproSector myproBlocks (freshInode d 1) 72 87
    rfl rfl (by decide) hbits₃
  have hblock₄ : ∀ b, Addressable b → b ≠ 51 →
      readBlock (programBlocks myproSector myproBlocks (freshInode d 1, d₃)).2 b = readBlock d₂ b :=
    fun b hb hne => (q.block b hb hne).trans (hblock₃ b hb hne)
  generalize (programBlocks myproSector myproBlocks (freshInode d 1, d₃)).2 = d₄ at *
  have hlow : ∀ b ≤ 50, readBlock d₄ b = readBlock d₂ b := fun b hb =>
    hblock₄ b (by simp only [Addressable, superBlockSector]; omega) (by omega)
  have hrec₄ := hrec₂.congr hlow
  have hroot₄ := inodeAt_congr (k := 0) (by decide) hlow
  -- the two inodes written back
  refine ⟨(hrec₄.write (by decide) hm2 hx2).write (by decide) hm1 hx1, fun m hm => ?_, ?_, ?_, ?_,
    rfl, rfl, rfl, rfl, ?_⟩
  · rw [busy_writeInode (by decide) hm1 hm, busy_writeInode (by decide) hm2 hm, hbits₄ m hm]
  · rw [inodeAt_writeInode (by decide) (by decide) hm1, if_neg (by decide),
      inodeAt_writeInode (by decide) (by decide) hm2, if_neg (by decide), hroot₄, hroot₂, hroot₁]
  · rw [inodeAt_writeInode (by decide) (by decide) hm1, if_pos rfl]
  · rw [inodeAt_writeInode (by decide) (by decide) hm1, if_neg (by decide),
      inodeAt_writeInode (by decide) (by decide) hm2, if_pos rfl]
  · rw [readBlock_writeInode_of_ge (by decide) hm1 (by decide) (by decide),
      readBlock_writeInode_of_ge (by decide) hm2 (by decide) (by decide),
      hblock₄ _ (by decide) (by decide), hblock₂]

/-- `init_userpro` up to the directory: the inodes it has in memory are those on disk. -/
lemma initUserpro_eq (h : RootCreated d) :
    initUserpro junk d = do
      let d' := programsDisk junk d
      let root := getRootDirInode d'
      let shell := programInode (allocInode (junk 0) d).2 2 57
      let mypro := programInode d 1 72
      let (root, d') ← writeDirectory root (separator :: shellName) shell d'
      let root := { root with size := root.size + .ofNat dirItemSize }
      let d' := writeInode root d'
      let (root, d') ← writeDirectory root (separator :: myproName) mypro d'
      let root := { root with size := root.size + .ofNat dirItemSize }
      return writeInode root d' := by
  have h1 := (@InodeList.alloc d (junk 0) 1 h.records.list (by decide)).1
  have hrec₁ : Records (allocInode (junk 0) d).2 2 := h.records.alloc (by decide)
  have h2 := (@InodeList.alloc _ (junk 2) 2 hrec₁.list (by decide)).1
  have hbits₂ : ∀ m < 4096, busy (allocInode (junk 2) (allocInode (junk 0) d).2).2 m =
      decide (m < 57) := fun m hm => by
    rw [hrec₁.list.busy_alloc (by decide) hm, h.records.list.busy_alloc (by decide) hm, h.bits m hm]
  obtain ⟨p, hbits₃⟩ := @programBlocks_next _ shellSector shellBlocks
    (freshInode (allocInode (junk 0) d).2 2) 57 72 rfl rfl (by decide) hbits₂
  obtain ⟨q, -⟩ := @programBlocks_next _ myproSector myproBlocks (freshInode d 1) 72 87
    rfl rfl (by decide) hbits₃
  have hp := p.fresh
  have hq := q.fresh
  rw [initUserpro, programsDisk, ← hp, ← hq]
  simp only [h1, h2, Option.getD_some]

/-- The root directory while its items are in one block: `n` bytes of them, and the bytes `blk` of the
block. -/
structure OneBlock (root : Inode) (n : ℕ) (blk : Bytes) (d : Bytes) : Prop where
  own : mySlot root = slot 0
  link : nextSlot root = slotFrom 1
  size : root.size.toNat = n
  block : root.blockNo 0 = 56
  bytes : readBlock d 56 = blk

/-- One more item. -/
lemma OneBlock.add {root i : Inode} {n : ℕ} {blk : Bytes} {name : List UInt8}
    (h : OneBlock root n blk d) (hname : IsName name) (hn : n + 28 ≤ 512) :
    writeDirectory root (separator :: name) i d =
        some (root, writeBlock d (putDirItem blk n name i) 56) ∧
      OneBlock { root with size := root.size + .ofNat dirItemSize } (n + 28) (putDirItem blk n name i)
        (writeInode { root with size := root.size + .ofNat dirItemSize }
          (writeBlock d (putDirItem blk n name i) 56)) := by
  have hsize : root.size.toNat + 28 ≤ 512 := h.size ▸ hn
  have h56 : (56 : UInt32).toNat = 56 := rfl
  constructor
  · rw [writeDirectory_root hname hsize, h.size, h.block, h56, h.bytes]
  · refine ⟨h.own, h.link, ?_, h.block, ?_⟩
    · show (root.size + 28).toNat = n + 28
      rw [toNat_add_of_lt (by show _ + 28 < _; omega), h.size]
      rfl
    · have hown : mySlot { root with size := root.size + .ofNat dirItemSize } = slot 0 := h.own
      rw [readBlock_writeInode_of_ge (by decide) hown (by decide) (by decide)]
      refine readBlock_writeBlock_self fun x hx => ?_
      rw [putDirItem_of_not_mem hname.length_lt (by omega), ← h.bytes, readBlock_of_ge hx]

/-- After a write to the root directory, and one of an inode, the other inodes and the bitmap are as they
were. -/
lemma inodeAt_itemWritten {i : Inode} {blk : Bytes} {n k : ℕ} (hi : mySlot i = slot n) (hn : n < 200)
    (hk : k < 200) (hne : k ≠ n) :
    inodeAt (writeInode i (writeBlock d blk 56)) (slot k) = inodeAt d (slot k) := by
  have hlt := slot_fst_lt hk
  rw [inodeAt_writeInode hn hk hi, if_neg hne]
  exact readInode_congr (readBlock_writeBlock_ne (slot_addressable hk) (by decide) (by omega))

lemma busy_itemWritten {i : Inode} {blk : Bytes} {n m : ℕ} (hi : mySlot i = slot n) (hn : n < 200)
    (hlt : m < 4096) : busy (writeInode i (writeBlock d blk 56)) m = busy d m := by
  rw [busy_writeInode hn hi hlt, busy_writeBlock (by decide) (by decide) hlt]

/-- **What `init_userpro` leaves.** -/
theorem installed (h : RootCreated d) : ∃ d', initUserpro junk d = some d' ∧ Installed d' := by
  have w : ProgramsWritten _ _ _ (programsDisk junk d) := programsWritten h
  rw [initUserpro_eq h]
  have hshell : mySlot (programInode (allocInode (junk 0) d).2 2 57) = slot 2 :=
    mySlot_freshInode (d := (allocInode (junk 0) d).2) (by decide)
  generalize programInode (allocInode (junk 0) d).2 2 57 = shell at *
  generalize programInode d 1 72 = mypro at *
  generalize programsDisk junk d = d₀ at *
  have hrootdir : getRootDirInode d₀ = inodeAt d (slot 0) := w.records.getRootDirInode.trans w.rootAt
  have hm : mySlot (inodeAt d (slot 0)) = slot 0 := h.records.list.own 0 (by decide)
  have hx : nextSlot (inodeAt d (slot 0)) = slotFrom 1 := h.records.list.link 0 (by decide)
  have hmode := h.rootMode
  have hsize := h.rootSize
  have hblocks := h.rootBlocks
  generalize inodeAt d (slot 0) = root at *
  have hempty : OneBlock root 0 (fun _ => 0) d₀ := ⟨hm, hx, by rw [hsize]; rfl, by rw [hblocks]; rfl,
    w.rootBlock⟩
  have hname₁ : IsName shellName := ⟨by decide, by decide, by decide, by decide⟩
  have hname₂ : IsName myproName := ⟨by decide, by decide, by decide, by decide⟩
  -- the item of the shell, and that of mypro
  obtain ⟨hw₁, hone⟩ := @OneBlock.add d₀ root shell 0 _ _ hempty hname₁ (by omega)
  generalize hroot₁ : ({ root with size := root.size + .ofNat dirItemSize } : Inode) = root₁ at *
  generalize hd₁ : writeInode root₁ (writeBlock d₀ (putDirItem (fun _ => 0) 0 shellName shell) 56) = d₁
    at *
  obtain ⟨hw₂, htwo⟩ := @OneBlock.add d₁ root₁ mypro 28 _ _ hone hname₂ (by omega)
  generalize hroot₂ : ({ root₁ with size := root₁.size + .ofNat dirItemSize } : Inode) = root₂ at *
  have hm₁ := hone.own
  have hx₁ := hone.link
  have hm₂ := htwo.own
  have hx₂ := htwo.link
  generalize hblk : putDirItem (putDirItem (fun _ => 0) 0 shellName shell) 28 myproName mypro = blk at *
  refine ⟨writeInode root₂ (writeBlock d₁ blk 56), ?_, ?_⟩
  · simp only [hrootdir, hw₁, hw₂, hroot₁, hroot₂, hd₁, Option.bind_eq_bind, Option.bind_some, pure]
  -- every inode but the root's is as it was
  have hinode : ∀ k, k < 200 → k ≠ 0 →
      inodeAt (writeInode root₂ (writeBlock d₁ blk 56)) (slot k) = inodeAt d₀ (slot k) := by
    intro k hk hne
    rw [inodeAt_itemWritten hm₂ (by decide) hk hne, ← hd₁, inodeAt_itemWritten hm₁ (by decide) hk hne]
  have hroot : inodeAt (writeInode root₂ (writeBlock d₁ blk 56)) (slot 0) = root₂ := by
    rw [inodeAt_writeInode (by decide) (by decide) hm₂, if_pos rfl]
  have hrec₁ : Records d₁ 3 :=
    hd₁ ▸ (w.records.writeBlock (by decide) (by decide)).write (by decide) hm₁ hx₁
  refine ⟨(hrec₁.writeBlock (by decide) (by decide)).write (by decide) hm₂ hx₂, fun m hlt => ?_,
    ?_, ?_, ?_, ?_, ?_, ?_, ?_, ?_⟩
  · rw [busy_itemWritten hm₂ (by decide) hlt, ← hd₁, busy_itemWritten hm₁ (by decide) hlt, w.bits m hlt]
  · rw [hroot, ← hroot₂, ← hroot₁]
    exact hmode
  · rw [hroot]
    exact UInt32.toNat_inj.mp htwo.size
  · rw [hroot, ← hroot₂, ← hroot₁]
    exact hblocks
  · rw [hinode 1 (by decide) (by decide), w.myproAt, w.myproMode]
  · rw [hinode 1 (by decide) (by decide), w.myproAt, w.myproBlocks]
  · rw [hinode 2 (by decide) (by decide), w.shellAt, w.shellMode]
  · rw [hinode 2 (by decide) (by decide), w.shellAt, w.shellBlocks]
  · rw [hinode 1 (by decide) (by decide), w.myproAt, hinode 2 (by decide) (by decide), w.shellAt,
      htwo.bytes, hblk]

/-- **What `init_file` leaves**, whatever the disk and the stack held. -/
theorem initFile_spec (junk : ℕ → ℕ → Bytes) (d : Bytes) :
    ∃ d', initFile junk d = some d' ∧ Installed d' := by
  have hlist := inodeList_init (junk 0 0) d (junk 1)
  have hbitNo : (readSuperBlock (initInodeList (junk 1) (initSuperBlock (junk 0 0) d))).dataBlockBitNo 0 =
      51 := by
    rw [readSuperBlock_initInodeList, initSuperBlock, readSuperBlock_writeSuperBlock]
    rfl
  rw [initFile]
  generalize initInodeList (junk 1) (initSuperBlock (junk 0 0) d) = d₁ at *
  have hsb : readSuperBlock (initDataBlockBit d₁) = readSuperBlock d₁ :=
    readSuperBlock_congr (readBlock_initDataBlockBit (by decide) (by decide))
  have hlist' : InodeList (initDataBlockBit d₁) 0 := by
    refine hlist.congr (by rw [freeSlot, hsb, freeSlot]) fun k hk => ?_
    have := slot_fst_lt hk
    exact readBlock_initDataBlockBit (slot_addressable hk) (by omega)
  exact installed (rootCreated hlist' (by rw [hsb, hbitNo]) fun m hm => busy_initDataBlockBit hm)

end Installed

end Nbos.Fs
