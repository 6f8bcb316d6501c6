import Nbos.Fs.Disk

/-!
# The records of the file system

`struct inode` and `struct super_block` as bytes, and the functions of `file.c` that move them
between memory and disk. A record is a run of words; loading one that was stored gives it back
(`Inode.load_store`, `SuperBlock.load_store`), and loading looks at its own bytes only.
-/

namespace Nbos.Fs

open Nbos.Lib Nbos.Kernel

/-! ### Inodes as bytes -/

/-- `sizeof(struct inode)`. -/
abbrev inodeSize : ℕ := 116

/-- The words of an inode. -/
def inodeWord (i : Inode) : ℕ → ℕ
  | 0 => i.size.toNat
  | 1 => i.atime.toNat
  | 2 => i.mtime.toNat
  | 3 => i.ctime.toNat
  | 4 => i.mode.toNat + 2 ^ 16 * i.padding.toNat
  | 5 => i.nextInodeBlockNo.toNat
  | 6 => i.nextInodeOffset.toNat
  | 7 => i.myInodeBlockNo.toNat
  | 8 => i.myInodeOffset.toNat
  | k + 9 => if h : k < maxBlocksInFile then (i.blockNo ⟨k, h⟩).toNat else 0

/-- The inode stored at `a`. -/
def loadInode (m : Bytes) (a : ℕ) : Inode where
  size := .ofNat (get32 m a)
  atime := .ofNat (get32 m (a + 4))
  mtime := .ofNat (get32 m (a + 8))
  ctime := .ofNat (get32 m (a + 12))
  mode := .ofNat (get32 m (a + 16))
  padding := .ofNat (get32 m (a + 16) / 2 ^ 16)
  nextInodeBlockNo := .ofNat (get32 m (a + 20))
  nextInodeOffset := .ofNat (get32 m (a + 24))
  myInodeBlockNo := .ofNat (get32 m (a + 28))
  myInodeOffset := .ofNat (get32 m (a + 32))
  blockNo k := .ofNat (get32 m (a + (36 + 4 * k)))

/-- `m` with the inode stored at `a`. -/
def storeInode (m : Bytes) (a : ℕ) (i : Inode) : Bytes :=
  overlay m a inodeSize (wordBytes (inodeWord i))

section Inodes

variable {m m' : Bytes} {a a' k x : ℕ} {i : Inode}

lemma inodeWord_lt (i : Inode) (k : ℕ) : inodeWord i k < 2 ^ 32 := by
  unfold inodeWord
  split
  all_goals try exact UInt32.toNat_lt _
  · have h1 := i.mode.toNat_lt
    have h2 := i.padding.toNat_lt
    omega
  · split
    · exact UInt32.toNat_lt _
    · exact Nat.two_pow_pos 32

lemma get32_storeInode (h : k < 29) : get32 (storeInode m a i) (a + 4 * k) = inodeWord i k := by
  rw [storeInode, get32_overlay_add (by simp only [inodeSize]; omega), get32_wordBytes,
    Nat.mod_eq_of_lt (inodeWord_lt i k)]

lemma loadInode_storeInode : loadInode (storeInode m a i) a = i := by
  have word : ∀ k < 29, get32 (storeInode m a i) (a + 4 * k) = inodeWord i k :=
    fun k h => get32_storeInode h
  have h4 := word 4 (by omega)
  have hm := i.mode.toNat_lt
  have hp := i.padding.toNat_lt
  apply Inode.ext
  · exact (congrArg UInt32.ofNat (word 0 (by omega))).trans (UInt32.ofNat_toNat ..)
  · exact (congrArg UInt32.ofNat (word 1 (by omega))).trans (UInt32.ofNat_toNat ..)
  · exact (congrArg UInt32.ofNat (word 2 (by omega))).trans (UInt32.ofNat_toNat ..)
  · exact (congrArg UInt32.ofNat (word 3 (by omega))).trans (UInt32.ofNat_toNat ..)
  · show UInt16.ofNat (get32 _ (a + 4 * 4)) = _
    rw [h4, ← UInt16.toNat_inj, UInt16.toNat_ofNat']
    simp only [inodeWord]
    omega
  · show UInt16.ofNat (get32 _ (a + 4 * 4) / 2 ^ 16) = _
    rw [h4, ← UInt16.toNat_inj, UInt16.toNat_ofNat']
    simp only [inodeWord]
    omega
  · exact (congrArg UInt32.ofNat (word 5 (by omega))).trans (UInt32.ofNat_toNat ..)
  · exact (congrArg UInt32.ofNat (word 6 (by omega))).trans (UInt32.ofNat_toNat ..)
  · exact (congrArg UInt32.ofNat (word 7 (by omega))).trans (UInt32.ofNat_toNat ..)
  · exact (congrArg UInt32.ofNat (word 8 (by omega))).trans (UInt32.ofNat_toNat ..)
  · funext k
    have hk : (k : ℕ) < 20 := k.isLt
    have h := word (k + 9) (by omega)
    rw [inodeWord, dif_pos k.isLt] at h
    show UInt32.ofNat (get32 _ (a + (36 + 4 * k))) = _
    rw [show a + (36 + 4 * (k : ℕ)) = a + 4 * (k + 9) by omega, h]
    exact UInt32.ofNat_toNat ..

/-- What has been loaded is stored again. -/
lemma storeInode_loadInode : storeInode m a (loadInode m a) = m := by
  refine overlay_eq_self fun k hk => wordBytes_get32 ?_
  have hword : ∀ o, (UInt32.ofNat (get32 m o)).toNat = get32 m o := fun o => by
    rw [UInt32.toNat_ofNat', Nat.mod_eq_of_lt (get32_lt m o)]
  have hlt : k / 4 < 29 := by
    simp only [inodeSize] at hk
    omega
  generalize k / 4 = w at hlt ⊢
  unfold inodeWord
  split
  -- the mode and the padding are the two halves of one word
  case h_5 =>
    have := get32_lt m (a + 16)
    simp only [loadInode, UInt16.toNat_ofNat', Nat.reduceMul]
    omega
  case h_10 j =>
    have hj : j < maxBlocksInFile := by
      simp only [maxBlocksInFile]
      omega
    rw [dif_pos hj]
    simp only [loadInode, hword]
    exact congrArg (get32 m) (by omega)
  all_goals exact hword _

/-- Loading an inode looks at its own bytes only. -/
lemma loadInode_congr (h : ∀ k < 116, m (a + k) = m' (a' + k)) : loadInode m a = loadInode m' a' := by
  have word : ∀ o, o + 4 ≤ 116 → get32 m (a + o) = get32 m' (a' + o) := fun o ho =>
    get32_congr fun k hk => by
      rw [Nat.add_assoc, Nat.add_assoc]
      exact h _ (by omega)
  have word0 := word 0 (by omega)
  simp only [Nat.add_zero] at word0
  unfold loadInode
  congr 1
  · rw [word0]
  · rw [word 4 (by omega)]
  · rw [word 8 (by omega)]
  · rw [word 12 (by omega)]
  · rw [word 16 (by omega)]
  · rw [word 16 (by omega)]
  · rw [word 20 (by omega)]
  · rw [word 24 (by omega)]
  · rw [word 28 (by omega)]
  · rw [word 32 (by omega)]
  · funext k
    have hk : (k : ℕ) < 20 := k.isLt
    rw [word _ (by omega)]

lemma storeInode_of_not_mem (h : x < a ∨ a + 116 ≤ x) : storeInode m a i x = m x :=
  overlay_of_not_mem h

lemma loadInode_storeInode_of_disjoint (h : a' + 116 ≤ a ∨ a + 116 ≤ a') :
    loadInode (storeInode m a i) a' = loadInode m a' :=
  loadInode_congr fun _ _ => storeInode_of_not_mem (by omega)

end Inodes

/-! ### The super block as bytes -/

/-- `sizeof(struct super_block)`. -/
abbrev superBlockSize : ℕ := 36

/-- The words of the super block. -/
def superBlockWord (sb : SuperBlock) : ℕ → ℕ
  | 0 => sb.freeInodeBlockNo.toNat
  | 1 => sb.freeInodeOffset.toNat
  | 2 => sb.rootdirInodeBlockNo.toNat
  | 3 => sb.rootdirInodeOffset.toNat
  | k + 4 => if h : k < dataBlockBitSize then (sb.dataBlockBitNo ⟨k, h⟩).toNat else 0

/-- The super block stored at the start of a buffer. -/
def loadSuperBlock (m : Bytes) : SuperBlock where
  freeInodeBlockNo := .ofNat (get32 m 0)
  freeInodeOffset := .ofNat (get32 m 4)
  rootdirInodeBlockNo := .ofNat (get32 m 8)
  rootdirInodeOffset := .ofNat (get32 m 12)
  dataBlockBitNo k := .ofNat (get32 m (16 + 4 * k))

/-- `m` with the super block stored at its start. -/
def storeSuperBlock (m : Bytes) (sb : SuperBlock) : Bytes :=
  overlay m 0 superBlockSize (wordBytes (superBlockWord sb))

section SuperBlock

variable {m m' : Bytes} {k : ℕ} {sb : SuperBlock}

lemma superBlockWord_lt (sb : SuperBlock) (k : ℕ) : superBlockWord sb k < 2 ^ 32 := by
  unfold superBlockWord
  split
  all_goals try exact UInt32.toNat_lt _
  split
  · exact UInt32.toNat_lt _
  · exact Nat.two_pow_pos 32

lemma get32_storeSuperBlock (h : k < 9) :
    get32 (storeSuperBlock m sb) (4 * k) = superBlockWord sb k := by
  have h' := get32_overlay_add (m := m) (a := 0) (b := 4 * k) (n := superBlockSize)
    (f := wordBytes (superBlockWord sb)) (by simp only [superBlockSize]; omega)
  rw [Nat.zero_add] at h'
  rw [storeSuperBlock, h', get32_wordBytes, Nat.mod_eq_of_lt (superBlockWord_lt sb k)]

lemma loadSuperBlock_storeSuperBlock : loadSuperBlock (storeSuperBlock m sb) = sb := by
  have word : ∀ k < 9, get32 (storeSuperBlock m sb) (4 * k) = superBlockWord sb k :=
    fun k h => get32_storeSuperBlock h
  apply SuperBlock.ext
  · exact (congrArg UInt32.ofNat (word 0 (by omega))).trans (UInt32.ofNat_toNat ..)
  · exact (congrArg UInt32.ofNat (word 1 (by omega))).trans (UInt32.ofNat_toNat ..)
  · exact (congrArg UInt32.ofNat (word 2 (by omega))).trans (UInt32.ofNat_toNat ..)
  · exact (congrArg UInt32.ofNat (word 3 (by omega))).trans (UInt32.ofNat_toNat ..)
  · funext k
    have hk : (k : ℕ) < 5 := k.isLt
    have h := word (k + 4) (by omega)
    rw [superBlockWord, dif_pos k.isLt] at h
    show UInt32.ofNat (get32 _ (16 + 4 * k)) = _
    rw [show 16 + 4 * (k : ℕ) = 4 * (k + 4) by omega, h]
    exact UInt32.ofNat_toNat ..

/-- Loading the super block looks at its own bytes only. -/
lemma loadSuperBlock_congr (h : ∀ k < 36, m k = m' k) : loadSuperBlock m = loadSuperBlock m' := by
  have word : ∀ o, o + 4 ≤ 36 → get32 m o = get32 m' o := fun o ho =>
    get32_congr fun k hk => h _ (by omega)
  unfold loadSuperBlock
  rw [word 0 (by omega), word 4 (by omega), word 8 (by omega), word 12 (by omega)]
  congr 1
  funext k
  have hk : (k : ℕ) < 5 := k.isLt
  rw [word _ (by omega)]

end SuperBlock

/-! ### The source -/

/-- `read_superBlock`. -/
def readSuperBlock (d : Bytes) : SuperBlock := loadSuperBlock (readSector d superBlockSector)

/-- `write_superBlock`. It writes a whole block of which the record is the start; `junk` is what lies
behind the local. -/
def writeSuperBlock (d junk : Bytes) (sb : SuperBlock) : Bytes :=
  writeBlock d (storeSuperBlock junk sb) superBlockNo

/-- `read_inode`, of an inode within the block. What the source reads behind its buffer is 0 here. -/
def readInode (d : Bytes) (inodeBlockNo inodeOffset : ℕ) : Inode :=
  loadInode (readBlock d inodeBlockNo) inodeOffset

/-- `writeInode`. -/
def writeInode (i : Inode) (d : Bytes) : Bytes :=
  writeBlock d (storeInode (readBlock d i.myInodeBlockNo.toNat) i.myInodeOffset.toNat i)
    i.myInodeBlockNo.toNat

section Records

variable {d d' arr junk : Bytes} {b b' o o' : ℕ} {sb : SuperBlock} {i : Inode}

lemma readSuperBlock_eq : readSuperBlock d = loadSuperBlock (readBlock d superBlockNo) := rfl

lemma readSuperBlock_congr (h : readBlock d superBlockNo = readBlock d' superBlockNo) :
    readSuperBlock d = readSuperBlock d' := by
  rw [readSuperBlock_eq, h, readSuperBlock_eq]

@[simp] lemma readSuperBlock_writeSuperBlock : readSuperBlock (writeSuperBlock d junk sb) = sb := by
  rw [readSuperBlock_eq, writeSuperBlock, loadSuperBlock_congr
    fun k hk => readBlock_writeBlock_of_lt (by omega)]
  exact loadSuperBlock_storeSuperBlock

lemma readSuperBlock_writeBlock (hb : Addressable b) (h : b ≠ 0) :
    readSuperBlock (writeBlock d arr b) = readSuperBlock d :=
  readSuperBlock_congr (readBlock_writeBlock_ne (by decide) hb (Ne.symm h))

lemma readBlock_writeSuperBlock (hb : Addressable b) (h : b ≠ 0) :
    readBlock (writeSuperBlock d junk sb) b = readBlock d b :=
  readBlock_writeBlock_ne hb (by decide) h

lemma readInode_congr (h : readBlock d b = readBlock d' b) : readInode d b o = readInode d' b o := by
  rw [readInode, h, readInode]

/-- An inode written back and read again. -/
lemma readInode_writeInode_self (h : i.myInodeOffset.toNat + 116 ≤ 512) :
    readInode (writeInode i d) i.myInodeBlockNo.toNat i.myInodeOffset.toNat = i := by
  rw [readInode, writeInode, loadInode_congr
    fun k hk => readBlock_writeBlock_of_lt (by omega)]
  exact loadInode_storeInode

/-- An inode that is where it says is written back as it was. -/
lemma writeInode_self (hb : (readInode d b o).myInodeBlockNo.toNat = b)
    (ho : (readInode d b o).myInodeOffset.toNat = o) : writeInode (readInode d b o) d = d := by
  rw [writeInode, hb, ho, readInode, storeInode_loadInode, writeBlock_readBlock]

/-- Writing an inode back leaves every other inode of its block alone. -/
lemma readInode_writeInode_of_disjoint
    (h : o + 116 ≤ i.myInodeOffset.toNat ∨ i.myInodeOffset.toNat + 116 ≤ o) (ho : o + 116 ≤ 512) :
    readInode (writeInode i d) i.myInodeBlockNo.toNat o = readInode d i.myInodeBlockNo.toNat o := by
  rw [readInode, writeInode, loadInode_congr
    fun k hk => readBlock_writeBlock_of_lt (by omega)]
  exact loadInode_storeInode_of_disjoint h

lemma readBlock_writeInode (hb : Addressable b) (hi : Addressable i.myInodeBlockNo.toNat)
    (h : b ≠ i.myInodeBlockNo.toNat) : readBlock (writeInode i d) b = readBlock d b :=
  readBlock_writeBlock_ne hb hi h

end Records

end Nbos.Fs
