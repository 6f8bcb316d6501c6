import Nbos.Fs.DirItems
import Nbos.Fs.InUse

/-!
# The item that `writeDirectory` writes

`writeDirectory` never fails. It copies a name of any length into a field of 20 bytes, after the
numbers that stand behind the field; and where the block for the item is missing and cannot be had, it
writes to block 0, the super block.

`writesItem_iff`: the call writes its own 28 bytes, and a good item, exactly when the name fits and
the block is there.
-/

namespace Nbos.Fs

open Nbos.Lib Nbos.Kernel

/-- The byte `x` of the disk is one of the 28 at `offset` in the block. -/
def InSlot (block offset x : ℕ) : Prop :=
  sectorSize * lba (sectorOf block) + offset ≤ x ∧
    x < sectorSize * lba (sectorOf block) + offset + dirItemSize

/-- The call ends with an item of the path's name and the inode in its slot of a block of the
directory. Apart from a block that the directory gets because a new one is needed, nothing else on
the disk is changed. -/
def WritesItem (base : Inode) (path : List UInt8) (i : Inode) (d : Bytes) : Prop :=
  ∃ base' d₁ d', writeDirectory base path i d = some (base', d') ∧
    ((base', d₁) = (base, d) ∨ ItemFull base ∧ blockAt base (itemIndex base) = 0 ∧
      (base', d₁) = (allocBlock base d).2) ∧
    blockAt base' (itemIndex base) ≠ 0 ∧ itemOffset base + dirItemSize ≤ blockSize ∧
    (∀ x, ¬ InSlot (blockAt base' (itemIndex base)).toNat (itemOffset base) x → d' x = d₁ x) ∧
    ItemAt (readBlock d' (blockAt base' (itemIndex base)).toNat) (itemOffset base) (itemName path) i

section Write

variable {d : Bytes} {base i : Inode} {b o x : ℕ} {name path : List UInt8}

/-- Writing an item back changes its 28 bytes alone. -/
lemma writeBlock_putDirItem (hname : name.length < 20) (hx : ¬ InSlot b o x) :
    writeBlock d (putDirItem (readBlock d b) o name i) b x = d x := by
  by_cases hin : InBlock b x
  · obtain ⟨k, rfl⟩ := Nat.exists_eq_add_of_le hin.1
    have hk : k < 512 := by
      have := hin.2
      simp only [sectorSize] at this
      omega
    have hout : k < o ∨ o + 28 ≤ k := by
      simp only [InSlot, dirItemSize] at hx
      omega
    have hwrite : writeBlock d (putDirItem (readBlock d b) o name i) b
        (sectorSize * lba (sectorOf b) + k) = putDirItem (readBlock d b) o name i k := overlay_add hk
    rw [hwrite, putDirItem_of_not_mem hname hout, readBlock_of_lt hk]
  · exact writeBlock_of_not hin

lemma toNat_ofNat_freeBlock : (UInt32.ofNat (freeBlock d)).toNat = freeBlock d := by
  have hle : freeBlock d ≤ 4104 := getFreeBlock_le
  rw [UInt32.toNat_ofNat', Nat.mod_eq_of_lt (by omega)]

/-- A block of the directory that holds its slot gets a good item, and no other byte changes. -/
lemma itemDisk_writes {k : ℕ} {hk : k < maxBlocksInFile} (hindex : itemIndex base = k)
    (hlen : path.length < 100) (hname : (itemName path).length < 20) {base' : Inode} {d₁ : Bytes}
    (hdisk : itemDisk base ⟨k, hk⟩ d = (base', d₁)) (hb : base'.blockNo ⟨k, hk⟩ ≠ 0) :
    WritesItem base path i d := by
  subst hindex
  have hoff := @itemOffset_le base
  have hw := @writeDirectory_eq d base i path (not_le.mpr hlen) hk (by simp only [blockSize]; omega)
  rw [hdisk] at hw
  refine ⟨base', d₁, _, hw, ?_, ?_, hoff, ?_, ?_⟩
  · rw [itemDisk] at hdisk
    split at hdisk
    · rename_i hfull
      refine .inr ⟨hfull.1, ?_, hdisk.symm⟩
      rw [blockAt_of_lt hk]
      exact hfull.2
    · exact .inl hdisk.symm
  · rw [blockAt_of_lt hk]
    exact hb
  · intro x hx
    rw [blockAt_of_lt hk] at hx
    exact writeBlock_putDirItem hname hx
  · rw [blockAt_of_lt hk, readBlock_putDirItem hname hoff]
    exact itemAt_putDirItem hname

/-- **When `writeDirectory` writes an item and nothing else**: the name leaves room for its
terminator, the directory can have one more block at most, and that block is there, or it is the one
that the directory gets, which is not the super block. -/
theorem writesItem_iff (hlen : path.length ≤ 99) :
    WritesItem base path i d ↔ (itemName path).length < fileNameMax ∧
      itemIndex base < maxBlocksInFile ∧ HasItemBlock base ∧
      (blockAt base (itemIndex base) = 0 → freeBlock d ≠ 0) := by
  constructor
  · rintro ⟨base', d₁, d', hw, hdisk, hblock, -, -, hitem⟩
    have hin : itemIndex base < maxBlocksInFile := by
      by_contra hout
      rw [writeDirectory_out (by omega) fun h => hout h.1] at hw
      cases hw
    refine ⟨hitem.short, hin, ?_⟩
    rw [blockAt_of_lt hin] at hblock hdisk ⊢
    rcases hdisk with hsame | ⟨hfull, hzero, halloc⟩
    · obtain ⟨rfl, rfl⟩ := Prod.mk.inj hsame
      exact ⟨fun _ => .inl hblock, fun h0 => absurd h0 hblock⟩
    · -- the slot was empty, so that it is the one that the new block went to
      cases hz : zeroSlot base with
      | none => exact absurd hzero (zeroSlot_eq_none.mp hz _)
      | some j =>
        rw [allocBlock_of_some hz] at halloc
        obtain ⟨rfl, -⟩ := Prod.mk.inj halloc
        have hj : (withBlock base j (freeBlock d)).blockNo ⟨_, hin⟩ ≠ 0 := hblock
        rw [withBlock_blockNo] at hj
        by_cases he : (⟨_, hin⟩ : Fin maxBlocksInFile) = j
        · rw [if_pos he] at hj
          refine ⟨fun _ => .inr ⟨hfull, he ▸ hz⟩, fun _ h0 => hj ?_⟩
          rw [h0]
          rfl
        · rw [if_neg he] at hj
          exact absurd hzero hj
  · rintro ⟨hname, hin, hitem, hfree⟩
    rw [blockAt_of_lt hin] at hfree
    rcases hitem hin with hne | ⟨hfull, hz⟩
    · exact itemDisk_writes rfl (by omega) hname (if_neg fun hf => hne hf.2) hne
    · have hzero := zeroSlot_eq_zero hz
      refine itemDisk_writes rfl (by omega) hname ((if_pos ⟨hfull, hzero⟩).trans
        (congrArg Prod.snd (allocBlock_of_some hz))) ?_
      have hj : (withBlock base ⟨_, hin⟩ (freeBlock d)).blockNo ⟨_, hin⟩ = .ofNat (freeBlock d) := by
        rw [withBlock_blockNo, if_pos rfl]
      refine fun h0 => hfree hzero ?_
      rw [← toNat_ofNat_freeBlock, ← hj]
      exact congrArg UInt32.toNat h0

/-- A new directory gets the item of a file. -/
theorem writesItem_iff_newDir : WritesItem newDir [separator, 97] (inodeFor (slot 1)) newDirDisk :=
  (writesItem_iff (by decide)).mpr ⟨by decide, by decide,
    fun _ => .inl (show newDir.blockNo 0 ≠ 0 by decide), fun h => absurd h (by decide)⟩

/-- A name of 20 bytes. -/
def longName : List UInt8 := List.replicate 20 97

/-- **A longer name loses the inode**: its terminator falls on the number behind the field. -/
theorem longName_lost : (∃ d', writeDirectory newDir (separator :: longName) (inodeFor (slot 1))
      newDirDisk = some (newDir, d') ∧
        get32 (readBlock d' 56) 20 ≠ (inodeFor (slot 1)).myInodeBlockNo.toNat) ∧
    ¬ WritesItem newDir (separator :: longName) (inodeFor (slot 1)) newDirDisk := by
  constructor
  · refine ⟨_, @writeDirectory_eq newDirDisk newDir (inodeFor (slot 1)) (separator :: longName)
      (by decide) (by decide) (by decide), ?_⟩
    decide +kernel
  · rintro ⟨_, _, _, _, _, _, _, _, hitem⟩
    exact absurd hitem.short (by decide)

end Write

end Nbos.Fs
