import Nbos.Fs.File
import Nbos.Fs.Dir

/-!
# Inodes in use

`Handed d n`: the records of the file system are in order, the first `n` inodes have been handed out,
and the blocks that they list are data blocks. Writes to data blocks keep it, and so do the
allocators, `writeDirectory` as long as the item goes to a block of the directory
(`HasItemBlock`), and `writeFile` as long as all its blocks are there.
-/

namespace Nbos.Fs

open Nbos.Lib Nbos.Kernel

/-- The inode at `s` has been handed out. -/
def InUse (d : Bytes) (s : ℕ × ℕ) : Prop :=
  ∃ n a, freeSlot d = slotFrom n ∧ n ≤ 200 ∧ a < n ∧ s = slot a

/-- The records of the file system, with `n` inodes handed out. -/
structure Ordered (d : Bytes) (n : ℕ) : Prop where
  records : Records d n
  sane : Sane d

/-- The inodes handed out list data blocks. -/
structure Handed (d : Bytes) (n : ℕ) : Prop extends Ordered d n where
  high : ∀ a < n, ListedHigh (inodeAt d (slot a))

/-- The inodes are what they were. -/
def KeepsInodes (d d' : Bytes) : Prop := ∀ k < 200, inodeAt d' (slot k) = inodeAt d (slot k)

/-- The block for a new item is there, or is the one that the directory gets for it. -/
def HasItemBlock (base : Inode) : Prop :=
  ∀ h : itemIndex base < maxBlocksInFile,
    base.blockNo ⟨_, h⟩ ≠ 0 ∨ ItemFull base ∧ zeroSlot base = some ⟨_, h⟩

/-- `writeFile` does not refuse to write `size` bytes. -/
def Accepted (file : OpenFile) (size : ℕ) : Prop :=
  (file.offset + size) % 2 ^ 32 ≤ ((maxBlocksInFile * blockSize : ℕ) : ℤ)

/-- The size of the inode in use at `s` is changed to `size`, and no other inode. -/
structure SizeSet (n : ℕ) (s : ℕ × ℕ) (size : UInt32) (d d' : Bytes) : Prop where
  handed : Handed d' n
  inode : inodeAt d' s = { inodeAt d s with size := size }
  kept : ∀ k < n, slot k ≠ s → inodeAt d' (slot k) = inodeAt d (slot k)

section Handed

variable {d d' arr stack buf : Bytes} {i base base' : Inode} {a b k n offset ptr size : ℕ} {s : ℕ × ℕ}
  {path : List UInt8} {file file' : OpenFile} {r : ℤ}

lemma slotFrom_inj (hn : n ≤ 200) (hk : k ≤ 200) (h : slotFrom n = slotFrom k) : n = k := by
  unfold slotFrom at h
  split at h <;> split at h
  · exact slot_inj h
  · exact absurd (congrArg Prod.fst h) slot_fst_pos.ne'
  · exact absurd (congrArg Prod.fst h).symm slot_fst_pos.ne'
  · omega

lemma Handed.inUse_iff (h : Handed d n) : InUse d s ↔ ∃ a < n, s = slot a := by
  have hle := h.records.list.le
  have hhead := h.records.list.head
  constructor
  · rintro ⟨n', a, hn', hle', ha, rfl⟩
    obtain rfl := slotFrom_inj hle hle' (hhead.symm.trans hn')
    exact ⟨a, ha, rfl⟩
  · rintro ⟨a, ha, rfl⟩
    exact ⟨n, a, hhead, hle, ha, rfl⟩

lemma Installed.handed (h : Installed d) : Handed d 3 :=
  ⟨⟨h.records, (Files.inv_init h).sane⟩, fun _ ha =>
    (Files.inv_init h).listedHigh ha fun _ => .inr rfl⟩

/-! ### Data blocks -/

lemma KeepsInodes.trans {d'' : Bytes} (h : KeepsInodes d d') (h' : KeepsInodes d' d'') :
    KeepsInodes d d'' := fun k hk => (h' k hk).trans (h k hk)

lemma keepsInodes_writeBlock (h56 : 56 ≤ b) (h701 : b ≤ 701) : KeepsInodes d (writeBlock d arr b) := by
  intro k hk
  have hlt := slot_fst_lt hk
  refine readInode_congr (readBlock_writeBlock_ne (slot_addressable hk) ?_ (by omega))
  simp only [Addressable, superBlockSector]
  omega

lemma Ordered.writeBlock (h : Ordered d n) (h56 : 56 ≤ b) (h701 : b ≤ 701) :
    Ordered (writeBlock d arr b) n := by
  refine ⟨h.records.writeBlock ?_ (by omega), h.sane.writeBlock h56 h701⟩
  simp only [Addressable, superBlockSector]
  omega

lemma Ordered.keeps_takenBlock (h : Ordered d n) : KeepsInodes d (takenBlock (freeBlock d) d) := by
  intro k hk
  obtain ⟨h56, h701, hfree⟩ := h.sane.freeBlock
  have hlt := slot_fst_lt hk
  exact readInode_congr (readBlock_takenBlock (by omega) (by omega) hfree (slot_addressable hk)
    (by omega) (by omega))

lemma Ordered.takenBlock (h : Ordered d n) : Ordered (takenBlock (freeBlock d) d) n := by
  obtain ⟨h56, h701, hfree⟩ := h.sane.freeBlock
  exact ⟨h.records.takenBlock (by omega) h56 hfree, h.sane.takenBlock⟩

lemma Handed.congr (h : Handed d n) (ho : Ordered d' n) (hd : KeepsInodes d d') : Handed d' n := by
  have hle := h.records.list.le
  refine ⟨ho, fun a ha => ?_⟩
  rw [hd a (by omega)]
  exact h.high a ha

/-! ### Inodes -/

/-- The first free inode is handed out. -/
lemma Ordered.alloc (h : Ordered d n) (hn : n < 200) :
    Ordered (allocInode stack d).2 (n + 1) ∧ KeepsInodes d (allocInode stack d).2 := by
  have hrec : Records (allocInode stack d).2 (n + 1) := h.records.alloc hn
  refine ⟨⟨hrec, hrec.bitNo, fun x hx => ?_, ?_⟩, fun k hk => h.records.list.inodeAt_alloc hn hk⟩
  · rw [h.records.list.busy_alloc hn (by omega)]
    exact h.sane.low x hx
  · rw [h.records.list.busy_alloc hn (by omega)]
    exact h.sane.gap

lemma Ordered.writeInode (h : Ordered d n) (hk : k < 200) (hm : mySlot i = slot k)
    (hx : nextSlot i = slotFrom (k + 1)) : Ordered (writeInode i d) n := by
  have hbusy : ∀ x < 4096, busy (Fs.writeInode i d) x = busy d x := fun x hx =>
    busy_writeInode hk hm hx
  refine ⟨h.records.write hk hm hx, ?_, fun x hx => ?_, ?_⟩
  · rw [readSuperBlock_writeInode hk hm]
    exact h.sane.bitNo
  · rw [hbusy x (by omega)]
    exact h.sane.low x hx
  · rw [hbusy _ (by omega)]
    exact h.sane.gap

/-- An inode that is written back with another size keeps its place, its link and its blocks. -/
lemma Handed.writeBack (h : Handed d n) (ha : a < n) {size : UInt32}
    (hi : i = { inodeAt d (slot a) with size := size }) : Handed (writeInode i d) n ∧
      ∀ k < 200, inodeAt (writeInode i d) (slot k) = if k = a then i else inodeAt d (slot k) := by
  have hle := h.records.list.le
  have hm : mySlot i = slot a := by
    rw [hi]
    exact h.records.list.own a (by omega)
  have hx : nextSlot i = slotFrom (a + 1) := by
    rw [hi]
    exact h.records.list.link a (by omega)
  have hat : ∀ k < 200, inodeAt (writeInode i d) (slot k) = if k = a then i else inodeAt d (slot k) :=
    fun k hk => inodeAt_writeInode (by omega) hk hm
  refine ⟨⟨h.toOrdered.writeInode (by omega) hm hx, fun k hk => ?_⟩, hat⟩
  rw [hat k (by omega)]
  split
  · rw [hi]
    exact h.high a ha
  · exact h.high k hk

/-- An inode that is loaded is written back with another size, when the data are written. -/
lemma Handed.sizeSet {size : UInt32} (h : Handed d n) (hd : Handed d' n)
    (hk : KeepsInodes d d') (hs : InUse d s) (hi : i = { inodeAt d s with size := size }) :
    SizeSet n s size d (writeInode i d') := by
  have hle := h.records.list.le
  obtain ⟨a, ha, rfl⟩ := h.inUse_iff.mp hs
  have hi' : i = { inodeAt d' (slot a) with size := size } := by rw [hi, hk a (by omega)]
  obtain ⟨hh, hat⟩ := hd.writeBack ha hi'
  refine ⟨hh, ?_, fun k hkn hne => ?_⟩
  · rw [hat a (by omega), if_pos rfl, hi]
  · rw [hat k (by omega), if_neg fun e => hne (by rw [e]), hk k (by omega)]

/-! ### Items and data -/

/-- `writeDirectory` writes a data block, after it has taken one if the directory gets one. -/
lemma writeDirectory_spec (hd : Sane d) (hb : ListedHigh base) (hi : HasItemBlock base)
    (h : writeDirectory base path i d = some (base', d')) : ∃ b arr, 56 ≤ b ∧ b ≤ 701 ∧
      (d' = writeBlock d arr b ∨ d' = writeBlock (takenBlock (freeBlock d) d) arr b) := by
  obtain ⟨h56, h701, -⟩ := hd.freeBlock
  have hlen : ¬ 100 ≤ path.length := by
    intro hlen
    rw [writeDirectory, if_pos hlen] at h
    cases h
  by_cases hfit : itemIndex base < maxBlocksInFile ∧
      itemOffset base + (itemName path).length < blockSize
  swap
  · rw [writeDirectory_out hlen hfit] at h
    cases h
  obtain ⟨hin, hfit⟩ := hfit
  rw [writeDirectory_eq hlen hin hfit, itemDisk] at h
  generalize putDirItem _ _ _ _ = arr at h
  split at h
  · -- the block is taken now, and it is the one that the item goes to
    rename_i hfull
    have hz := ((hi hin).resolve_left (not_not.mpr hfull.2)).2
    rw [allocBlock_of_some hz] at h
    obtain ⟨-, rfl⟩ := Prod.mk.inj (Option.some_inj.mp h)
    have hblock : ((withBlock base ⟨_, hin⟩ (freeBlock d)).blockNo ⟨_, hin⟩).toNat = freeBlock d := by
      rw [withBlock_blockNo, if_pos rfl, UInt32.toNat_ofNat', Nat.mod_eq_of_lt (by omega)]
    exact ⟨freeBlock d, arr, h56, h701, .inr (congrArg (Fs.writeBlock _ arr) hblock)⟩
  · rename_i hfull
    have hne : base.blockNo ⟨_, hin⟩ ≠ 0 := by
      intro h0
      exact hfull ⟨((hi hin).resolve_left (not_not.mpr h0)).1, h0⟩
    obtain ⟨-, rfl⟩ := Prod.mk.inj (Option.some_inj.mp h)
    exact ⟨_, arr, (hb _ hne).1, (hb _ hne).2, .inl rfl⟩

lemma Ordered.writeDirectory (h : Ordered d n) (hb : ListedHigh base) (hi : HasItemBlock base)
    (hw : writeDirectory base path i d = some (base', d')) : Ordered d' n ∧ KeepsInodes d d' := by
  obtain ⟨b, arr, h56, h701, rfl | rfl⟩ := writeDirectory_spec h.sane hb hi hw
  · exact ⟨h.writeBlock h56 h701, keepsInodes_writeBlock h56 h701⟩
  · exact ⟨h.takenBlock.writeBlock h56 h701,
      h.keeps_takenBlock.trans (keepsInodes_writeBlock h56 h701)⟩

/-- A write whose blocks are there leaves the inodes alone. -/
lemma Handed.writeFile (h : Handed d n) (ha : a < n)
    (hc : Accepted file size → Covered (inodeAt d (slot a)) file.offset.toNat (span ptr size))
    (hw : writeFile file (inodeAt d (slot a)) ptr buf size d = some (r, file', i, d')) :
    i = inodeAt d (slot a) ∧ Handed d' n ∧ KeepsInodes d d' ∧
      (Accepted file size → 0 ≤ file.offset ∨ span ptr size = 0) := by
  unfold Fs.writeFile at hw
  split at hw
  · rename_i hlarge
    obtain ⟨-, hw⟩ := Prod.mk.inj (Option.some_inj.mp hw)
    obtain ⟨-, hw⟩ := Prod.mk.inj hw
    obtain ⟨rfl, rfl⟩ := Prod.mk.inj hw
    exact ⟨rfl, h, fun _ _ => rfl, fun hacc => absurd hacc (not_le.mpr hlarge)⟩
  rename_i hacc
  have hacc : Accepted file size := not_lt.mp hacc
  split at hw
  · cases hw
  rename_i hneg
  obtain ⟨q, hq, hw⟩ := Option.map_eq_some_iff.mp hw
  obtain ⟨-, hw⟩ := Prod.mk.inj hw
  obtain ⟨-, hw⟩ := Prod.mk.inj hw
  obtain ⟨rfl, rfl⟩ := Prod.mk.inj hw
  have hblock : ∀ d' arr b, Ordered d' n ∧ KeepsInodes d d' → (inodeAt d (slot a)).blockNo b ≠ 0 →
      Ordered (writeBlock d' arr ((inodeAt d (slot a)).blockNo b).toNat) n ∧
        KeepsInodes d (writeBlock d' arr ((inodeAt d (slot a)).blockNo b).toNat) := by
    rintro d' arr b ⟨ho, hk⟩ hb
    obtain ⟨h56, h701⟩ := h.high a ha b hb
    exact ⟨ho.writeBlock h56 h701, hk.trans (keepsInodes_writeBlock h56 h701)⟩
  obtain ⟨d', hd', ho, hk⟩ := @writeLoop_of_covered buf d _ _ _ _ hblock (hc hacc)
    ⟨h.toOrdered, fun _ _ => rfl⟩
  obtain rfl := Option.some_inj.mp (hd'.symm.trans hq)
  exact ⟨rfl, h.congr ho hk, hk, fun _ => by omega⟩

end Handed

end Nbos.Fs
