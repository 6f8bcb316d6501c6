import Nbos.Fs.Bitmap
import Nbos.Fs.InodeList

/-!
# Which block `allocBlock` takes

The scan finds a block through the list of the super block and `getFreeBlock`, the update finds its
bit by a division of its own. Over a whole bitmap, all five blocks of it, they agree: the lowest free
block goes to the lowest empty slot, and two blocks of the disk change, the new one and the first
bitmap block, the latter in one bit (`allocBlock_lowest`).
-/

namespace Nbos.Fs

open Nbos.Lib Nbos.Kernel

/-- The bits of the bitmap. -/
abbrev bitmapBits : ℕ := dataBlockBitSize * 4096

/-- The first block of the data area. -/
abbrev firstDataBlock : ℕ := 1 + inodeBlockSize + dataBlockBitSize

/-- `n` is the lowest clear bit of the bitmap. -/
structure LowestFree (d : Bytes) (n : ℕ) : Prop where
  free : busy d n = false
  full : ∀ m < n, busy d m = true

/-- `j` is the lowest empty slot of the inode. -/
structure LowestSlot (i : Inode) (j : Fin maxBlocksInFile) : Prop where
  zero : i.blockNo j = 0
  used : ∀ a < j, i.blockNo a ≠ 0

/-- From `d` to `d'` block `n` is taken: cleared, its bit set, nothing else touched. -/
structure TakesBlock (n : ℕ) (d d' : Bytes) : Prop where
  cleared : readBlock d' n = fun _ => 0
  bits : ∀ m < bitmapBits, busy d' m = (decide (m = n) || busy d m)
  other : ∀ x, ¬ InBlock n x → ¬ InBlock bitBlock x → d' x = d x

section Slot

variable {i : Inode} {j : Fin maxBlocksInFile}

lemma lowestSlot_of_zeroSlot (h : zeroSlot i = some j) : LowestSlot i j := by
  obtain ⟨hzero, hused⟩ := find?_finRange_eq_some.mp h
  constructor
  · simpa using hzero
  · intro a ha
    simpa using hused a ha

end Slot

section Taken

variable {d : Bytes} {f n x : ℕ}

/-- Taking a block leaves every byte outside it and the first bitmap block alone. -/
lemma takenBlock_apply (hf : f ≤ 700) (hne : f ≠ 51) (hfree : busy d f = false)
    (hx : ¬ InBlock f x) (hx51 : ¬ InBlock bitBlock x) : takenBlock f d x = d x := by
  have haddr : Addressable f := by simp only [Addressable, superBlockSector]; omega
  have hfree' : busy (clearBlock f d) f = false := by
    rw [busy_clearBlock haddr hne (by omega), hfree]
  rw [takenBlock, updateDataBlockBit_busy hf hfree']
  exact (writeBlock_of_not hx51).trans (writeBlock_of_not hx)

lemma takesBlock_takenBlock (hf : f ≤ 700) (h56 : 56 ≤ f) (hfree : busy d f = false) :
    TakesBlock f d (takenBlock f d) := by
  constructor
  · exact readBlock_takenBlock_self (by omega) (by omega) hfree
  · intro m hm
    rcases Nat.lt_or_ge m 4096 with hlt | hge
    · exact busy_takenBlock hf (by omega) hfree hlt
    · -- the other bitmap blocks are neither `f` nor the first one
      have hm5 : m < 5 * 4096 := hm
      rw [decide_eq_false (by omega), Bool.false_or]
      refine busy_congr (readBlock_takenBlock (by omega) (by omega) hfree ?_ ?_ ?_)
      · show m / 4096 + 51 < 2 ^ 24 - superBlockSector
        simp only [superBlockSector]
        omega
      · show m / 4096 + 51 ≠ f
        omega
      · show m / 4096 + 51 ≠ 51
        omega
  · intro x hx hx51
    exact takenBlock_apply hf (by omega) hfree hx hx51

/-- The block that the scan of `allocBlock` finds is the lowest free one. -/
lemma freeBlock_eq_lowest (hsb : (readSuperBlock d).dataBlockBitNo 0 = 51) (hn : n < 4096)
    (h : LowestFree d n) : freeBlock d = n := by
  obtain ⟨-, hfree, hfull⟩ := freeBlock_spec hsb ⟨n, hn, h.free⟩
  rcases Nat.lt_trichotomy (freeBlock d) n with hlt | heq | hgt
  · rw [h.full _ hlt] at hfree
    cases hfree
  · exact heq
  · have := hfull n hgt
    rw [h.free] at this
    cases this

/-- **`allocBlock` takes the lowest free block** for the lowest empty slot, and nothing else; with
every slot in use it fails and changes nothing. -/
theorem allocBlock_lowest
    (hsb : ∀ a, (readSuperBlock d).dataBlockBitNo a = .ofNat (inodeBlockSize + a + 1))
    (hlow : LowestFree d n) (hdata : firstDataBlock ≤ n) (hsys : n ≤ fileSysBlocks) (i : Inode) :
    ((∃ a, i.blockNo a = 0) → ∃ j d', LowestSlot i j ∧ TakesBlock n d d' ∧
      allocBlock i d =
        (0, { i with blockNo := Function.update i.blockNo j (.ofNat n) }, d')) ∧
    ((∀ a, i.blockNo a ≠ 0) → allocBlock i d = (-1, i, d)) := by
  have h700 : n ≤ 700 := hsys
  have h56 : 56 ≤ n := hdata
  constructor
  · intro hzero
    obtain ⟨j, hj⟩ := exists_zeroSlot hzero
    refine ⟨j, takenBlock n d, lowestSlot_of_zeroSlot hj,
      takesBlock_takenBlock h700 h56 hlow.free, ?_⟩
    rw [allocBlock_of_some hj, freeBlock_eq_lowest (hsb 0) (by omega) hlow]
    rfl
  · intro hused
    exact allocBlock_of_none (zeroSlot_eq_none.mpr hused)

end Taken

section Fresh

/-- The super block and the bitmap of a disk that `init_file` has begun to write. -/
def freshBitmap : Bytes := initDataBlockBit (initSuperBlock (fun _ => 0) fun _ => 0)

lemma lowestFree_freshBitmap : LowestFree freshBitmap 56 := by
  constructor
  · rw [freshBitmap, busy_initDataBlockBit (by decide)]
    rfl
  · intro m hm
    rw [freshBitmap, busy_initDataBlockBit (by omega), decide_eq_true hm]

lemma dataBlockBitNo_freshBitmap (a : Fin dataBlockBitSize) :
    (readSuperBlock freshBitmap).dataBlockBitNo a = .ofNat (inodeBlockSize + a + 1) := by
  rw [freshBitmap, readSuperBlock_congr (readBlock_initDataBlockBit (by decide) (by decide)),
    initSuperBlock, readSuperBlock_writeSuperBlock]

/-- On a fresh disk an empty inode gets block 56, a full one nothing. -/
theorem allocBlock_lowest_fresh :
    (∃ j d', LowestSlot (loadInode (fun _ => 0) 0) j ∧ TakesBlock 56 freshBitmap d' ∧
      allocBlock (loadInode (fun _ => 0) 0) freshBitmap =
        (0, { loadInode (fun _ => 0) 0 with
          blockNo := Function.update (loadInode (fun _ => 0) 0).blockNo j (.ofNat 56) }, d')) ∧
    allocBlock (loadInode (fun _ => 1) 0) freshBitmap =
      (-1, loadInode (fun _ => 1) 0, freshBitmap) :=
  ⟨(allocBlock_lowest dataBlockBitNo_freshBitmap lowestFree_freshBitmap le_rfl (by decide) _).1
      ⟨0, by decide⟩,
    (allocBlock_lowest dataBlockBitNo_freshBitmap lowestFree_freshBitmap le_rfl (by decide) _).2
      (by decide)⟩

end Fresh

end Nbos.Fs
