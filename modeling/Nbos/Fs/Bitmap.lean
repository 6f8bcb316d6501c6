import Nbos.Fs.Layout
import Nbos.Lib.Loops

/-!
# The block allocator

The data-block bitmap and `allocBlock` of `file.c`. The bit of block `n` is in the block
`INODE_BLOCK_SIZE + 1 + n / 4096`; a file system of 700 blocks uses the first of the five only.

`getFreeBlock` never fails: on a bitmap block that is full it returns a number past its bits. So
`allocBlock` takes the first free bit of the first bitmap block, whatever it is
(`allocBlock_of_free`), while `update_dataBlockBit` refuses to mark the bits above 700.
-/

namespace Nbos.Fs

open Nbos.Lib Nbos.Kernel

/-! ### The source -/

/-- `byte & (1 << k)`. -/
def bitSet (b : UInt8) (k : ℕ) : Bool := b.toNat &&& (1 <<< k) != 0

/-- `getFreeBlock`. The byte behind a full block reads as 0. -/
def getFreeBlock (start : Bytes) (size : ℕ) : ℕ :=
  let i := ((List.range size).find? fun i => start i != 255).getD size
  let index := ((List.range 9).find? fun k => !bitSet (start i) k).getD 8
  i * 8 + index

/-- `update_dataBlockBit`. Behind the test `status` is 0 or 1. -/
def updateDataBlockBit (blockNo : ℕ) (status : ℤ) (d : Bytes) : ℤ × Bytes :=
  if fileSysBlocks < blockNo ∨ (status ≠ blockBusy ∧ status ≠ blockFree) then (-1, d)
  else
    let bitBlockNo := blockNo / (blockSize * 8) + inodeBlockSize + 1
    let arr := readBlock d bitBlockNo
    let byte := blockNo % (blockSize * 8) / 8
    let bit := blockNo % (blockSize * 8) % 8
    let b :=
      if bitSet (arr byte) bit then arr byte &&& .ofNat (status.toNat <<< bit)
      else arr byte ||| .ofNat (status.toNat <<< bit)
    (0, writeBlock d (Function.update arr byte b) bitBlockNo)

/-- `clearBlock`. -/
def clearBlock (blockNo : ℕ) (d : Bytes) : Bytes := writeBlock d (fun _ => 0) blockNo

/-- The loop of `allocBlock` over the bitmap blocks; -1 stands for none. -/
def bitBlockLoop (d : Bytes) (sb : SuperBlock) : List (Fin dataBlockBitSize) → ℕ → ℕ
  | [], freeBlock => freeBlock
  | i :: is, _ =>
    let freeBlock := getFreeBlock (readBlock d (sb.dataBlockBitNo i).toNat) 512
    if freeBlock ≠ 2 ^ 32 - 1 then i * 512 * 8 + freeBlock else bitBlockLoop d sb is freeBlock

/-- The first slot of `block_no` that is 0. -/
def zeroSlot (i : Inode) : Option (Fin maxBlocksInFile) :=
  (List.finRange maxBlocksInFile).find? fun a => i.blockNo a == 0

/-- `allocBlock`. -/
def allocBlock (i : Inode) (d : Bytes) : ℤ × Inode × Bytes :=
  match zeroSlot i with
  | none => (-1, i, d)
  | some j =>
    let freeBlock := bitBlockLoop d (readSuperBlock d) (List.finRange dataBlockBitSize) 0
    if freeBlock = 2 ^ 32 - 1 then (-1, i, d)
    else
      (0, { i with blockNo := Function.update i.blockNo j (.ofNat freeBlock) },
        (updateDataBlockBit freeBlock blockBusy (clearBlock freeBlock d)).2)

/-- `init_dataBlockBit`. -/
def initDataBlockBit (d : Bytes) : Bytes :=
  let arr : Bytes := fun _ => 0
  let d := forRange dataBlockBitSize (fun i d => writeBlock d arr (inodeBlockSize + (i + 1))) d
  let busyBlock := 1 + dataBlockBitSize + inodeBlockSize
  let byte := busyBlock / 8
  let bit := busyBlock % 8
  let arr := forRange byte (fun j arr => Function.update arr j 0xff) arr
  let arr := forRange bit (fun k arr => Function.update arr byte (arr byte + .ofNat (1 <<< k))) arr
  writeBlock d arr (inodeBlockSize + 1)

/-! ### Bits -/

/-- The first bitmap block. -/
abbrev bitBlock : ℕ := inodeBlockSize + 1

/-- The bit of block `n` in a bitmap block. -/
def bufBit (arr : Bytes) (n : ℕ) : Bool := bitSet (arr (n / 8)) (n % 8)

/-- The bit of block `n` on disk. -/
def busy (d : Bytes) (n : ℕ) : Bool := bufBit (readBlock d (n / 4096 + bitBlock)) (n % 4096)

section Bits

variable {arr d d' : Bytes} {b c : UInt8} {j k m n size : ℕ}

lemma bitSet_eq_testBit : bitSet b k = b.toNat.testBit k := by
  rw [bitSet, Nat.one_shiftLeft, Nat.and_two_pow]
  cases b.toNat.testBit k <;> simp

lemma bitSet_full (h : k < 8) : bitSet 255 k = true := by
  have : ∀ k < 8, bitSet 255 k = true := by decide
  exact this k h

lemma bitSet_of_ge (h : 8 ≤ k) : bitSet b k = false := by
  have hpow : 2 ^ 8 ≤ 2 ^ k := Nat.pow_le_pow_right (by omega) h
  rw [bitSet_eq_testBit]
  exact Nat.testBit_lt_two_pow (lt_of_lt_of_le b.toNat_lt hpow)

/-- A byte is its eight bits. -/
lemma eq_of_bitSet (h : ∀ k < 8, bitSet b k = bitSet c k) : b = c := by
  refine UInt8.toNat_inj.mp (Nat.eq_of_testBit_eq fun k => ?_)
  rw [← bitSet_eq_testBit, ← bitSet_eq_testBit]
  rcases Nat.lt_or_ge k 8 with hk | hk
  · exact h k hk
  · rw [bitSet_of_ge hk, bitSet_of_ge hk]

lemma exists_bit_of_ne_full (h : b ≠ 255) : ∃ k < 8, bitSet b k = false := by
  by_contra hall
  push Not at hall
  refine h (eq_of_bitSet fun k hk => ?_)
  rw [bitSet_full hk]
  simpa using hall k hk

/-- Setting a bit sets that bit and no other. -/
lemma bitSet_or (hk : k < 8) :
    bitSet (b ||| .ofNat (1 <<< k)) j = (decide (j = k) || bitSet b j) := by
  have hpow : 2 ^ k < 2 ^ 8 := Nat.pow_lt_pow_right (by omega) hk
  rw [bitSet_eq_testBit, bitSet_eq_testBit, UInt8.toNat_or, UInt8.toNat_ofNat', Nat.one_shiftLeft,
    Nat.mod_eq_of_lt hpow, Nat.testBit_or, Nat.testBit_two_pow, Bool.or_comm]
  simp only [eq_comm]

/-- **What `getFreeBlock` finds** in a block that is not full: the first free bit. -/
theorem getFreeBlock_spec (h : ∃ n < 8 * size, bufBit arr n = false) :
    getFreeBlock arr size < 8 * size ∧ bufBit arr (getFreeBlock arr size) = false ∧
      ∀ m < getFreeBlock arr size, bufBit arr m = true := by
  obtain ⟨n, hn, hbit⟩ := h
  have hbyte : arr (n / 8) ≠ 255 := fun e => by
    rw [bufBit, e, bitSet_full (by omega)] at hbit
    cases hbit
  -- the first byte with a free bit
  obtain ⟨i, hi⟩ : ∃ i, (List.range size).find? (fun i => arr i != 255) = some i := by
    refine Option.isSome_iff_exists.mp (List.find?_isSome.mpr ⟨n / 8, ?_, by simpa using hbyte⟩)
    exact List.mem_range.mpr (by omega)
  obtain ⟨hi255, hilt, hifull⟩ := List.find?_range_eq_some.mp hi
  rw [List.mem_range] at hilt
  -- its first free bit
  obtain ⟨k₀, hk₀, hk₀bit⟩ := exists_bit_of_ne_full (b := arr i) (by simpa using hi255)
  obtain ⟨k, hk⟩ : ∃ k, (List.range 9).find? (fun k => !bitSet (arr i) k) = some k := by
    refine Option.isSome_iff_exists.mp (List.find?_isSome.mpr ⟨k₀, ?_, by simp [hk₀bit]⟩)
    exact List.mem_range.mpr (by omega)
  obtain ⟨hkbit, -, hkfull⟩ := List.find?_range_eq_some.mp hk
  have hk8 : k < 8 := by
    by_contra hge
    have := hkfull k₀ (by omega)
    rw [hk₀bit] at this
    cases this
  have hval : getFreeBlock arr size = i * 8 + k := by
    simp only [getFreeBlock, hi, hk, Option.getD_some]
  rw [hval]
  refine ⟨by omega, ?_, fun m hm => ?_⟩
  · rw [bufBit, show (i * 8 + k) / 8 = i by omega, show (i * 8 + k) % 8 = k by omega]
    simpa using hkbit
  · rcases Nat.lt_or_ge (m / 8) i with hlt | hge
    · have hfull : arr (m / 8) = 255 := by simpa using hifull _ hlt
      rw [bufBit, hfull, bitSet_full (by omega)]
    · have hmi : m / 8 = i := by omega
      rw [bufBit, hmi]
      simpa using hkfull (m % 8) (by omega)

lemma busy_eq (h : n < 4096) : busy d n = bufBit (readBlock d bitBlock) n := by
  rw [busy, Nat.div_eq_of_lt h, Nat.mod_eq_of_lt h, Nat.zero_add]

lemma busy_congr (h : readBlock d' (n / 4096 + bitBlock) = readBlock d (n / 4096 + bitBlock)) :
    busy d' n = busy d n := by
  rw [busy, h, busy]

end Bits

/-! ### Marking a block busy -/

/-- A status that `update_dataBlockBit` accepts. -/
abbrev BlockStatus (status : ℤ) : Prop := status = blockBusy ∨ status = blockFree

/-- The byte that it writes. -/
def updatedByte (status : ℤ) (b : UInt8) (bit : ℕ) : UInt8 :=
  if bitSet b bit then b &&& .ofNat (status.toNat <<< bit) else b ||| .ofNat (status.toNat <<< bit)

section Update

variable {d : Bytes} {b m n : ℕ} {status : ℤ}

lemma updateDataBlockBit_of_gt (h : 700 < n) : updateDataBlockBit n status d = (-1, d) :=
  if_pos (.inl h)

lemma updateDataBlockBit_eq (hn : n ≤ 700) (hs : BlockStatus status) :
    updateDataBlockBit n status d =
      (0, writeBlock d (Function.update (readBlock d bitBlock) (n / 8)
        (updatedByte status (readBlock d bitBlock (n / 8)) (n % 8))) bitBlock) := by
  have hcond : ¬ (fileSysBlocks < n ∨ (status ≠ blockBusy ∧ status ≠ blockFree)) := by
    rintro (hgt | ⟨hbusy, hfree⟩)
    · exact absurd hgt (Nat.not_lt.mpr hn)
    · exact hs.elim hbusy hfree
  have h1 : n / (blockSize * 8) + inodeBlockSize + 1 = bitBlock := by
    rw [Nat.div_eq_of_lt (by simp only [blockSize]; omega), Nat.zero_add]
  have h2 : n % (blockSize * 8) = n := Nat.mod_eq_of_lt (by simp only [blockSize]; omega)
  rw [updateDataBlockBit, if_neg hcond]
  simp only [h1, h2]
  rfl

lemma updateDataBlockBit_busy (hn : n ≤ 700) (hfree : busy d n = false) :
    updateDataBlockBit n blockBusy d =
      (0, writeBlock d (Function.update (readBlock d bitBlock) (n / 8)
        (readBlock d bitBlock (n / 8) ||| .ofNat (1 <<< (n % 8)))) bitBlock) := by
  rw [busy_eq (by omega), bufBit] at hfree
  rw [updateDataBlockBit_eq hn (.inl rfl), updatedByte, hfree]
  rfl

lemma readBlock_updateDataBlockBit (hn : n ≤ 700) (hfree : busy d n = false)
    (hb : Addressable b) (h : b ≠ bitBlock) :
    readBlock (updateDataBlockBit n blockBusy d).2 b = readBlock d b := by
  rw [updateDataBlockBit_busy hn hfree]
  exact readBlock_writeBlock_ne hb (by decide) h

/-- Marking a free block busy sets its bit and no other. -/
theorem busy_updateDataBlockBit (hn : n ≤ 700) (hfree : busy d n = false) (hm : m < 4096) :
    busy (updateDataBlockBit n blockBusy d).2 m = (decide (m = n) || busy d m) := by
  rw [busy_eq hm, busy_eq hm, updateDataBlockBit_busy hn hfree, bufBit, bufBit,
    readBlock_writeBlock_of_lt (by omega)]
  by_cases hbyte : m / 8 = n / 8
  · rw [hbyte, Function.update_self, bitSet_or (by omega)]
    congr 1
    exact decide_eq_decide.mpr (by omega)
  · have hne : m ≠ n := fun e => hbyte (by rw [e])
    rw [Function.update_of_ne hbyte, decide_eq_false hne, Bool.false_or]

end Update

/-! ### Allocating a block -/

/-- The block `allocBlock` takes. -/
def freeBlock (d : Bytes) : ℕ :=
  getFreeBlock (readBlock d ((readSuperBlock d).dataBlockBitNo 0).toNat) 512

section AllocBlock

variable {d : Bytes} {arr : Bytes} {b m : ℕ} {i : Inode} {j : Fin maxBlocksInFile}

lemma getFreeBlock_le : getFreeBlock arr 512 ≤ 4104 := by
  have hget : ∀ (n : ℕ) (p : ℕ → Bool) (r : ℕ), r ≤ n →
      ((List.range n).find? p).getD r ≤ n := by
    intro n p r hr
    cases h : (List.range n).find? p with
    | none => exact hr
    | some x => exact (List.mem_range.mp (List.find?_range_eq_some.mp h).2.1).le
  have h1 := hget 512 (fun i => arr i != 255) 512 le_rfl
  have h2 := hget 9 (fun k => !bitSet (arr (((List.range 512).find?
    fun i => arr i != 255).getD 512)) k) 8 (by omega)
  have h3 : ((List.range 9).find? fun k => !bitSet (arr (((List.range 512).find?
      fun i => arr i != 255).getD 512)) k).getD 8 ≠ 9 := by
    intro h
    cases hf : (List.range 9).find? fun k => !bitSet (arr (((List.range 512).find?
        fun i => arr i != 255).getD 512)) k with
    | none => rw [hf] at h; cases h
    | some x =>
      rw [hf] at h
      have := List.mem_range.mp (List.find?_range_eq_some.mp hf).2.1
      rw [Option.getD_some] at h
      omega
  unfold getFreeBlock
  simp only
  omega

/-- No search of a bitmap block fails, so only the first one is searched. -/
lemma bitBlockLoop_eq :
    bitBlockLoop d (readSuperBlock d) (List.finRange dataBlockBitSize) 0 = freeBlock d := by
  have hle : freeBlock d ≤ 4104 := getFreeBlock_le
  have hcons : List.finRange dataBlockBitSize = 0 :: [1, 2, 3, 4] := by decide
  rw [hcons, bitBlockLoop, ← freeBlock, if_pos (by omega)]
  show 0 * 512 * 8 + _ = _
  omega

lemma allocBlock_of_none (h : zeroSlot i = none) : allocBlock i d = (-1, i, d) := by
  rw [allocBlock, h]

/-- **`allocBlock` does not fail** while the inode has a slot left, full disk or not. -/
theorem allocBlock_of_some (h : zeroSlot i = some j) :
    allocBlock i d =
      (0, { i with blockNo := Function.update i.blockNo j (.ofNat (freeBlock d)) },
        (updateDataBlockBit (freeBlock d) blockBusy (clearBlock (freeBlock d) d)).2) := by
  have hle : freeBlock d ≤ 4104 := getFreeBlock_le
  rw [allocBlock, h]
  simp only [bitBlockLoop_eq]
  rw [if_neg (by omega)]

lemma zeroSlot_eq_none : zeroSlot i = none ↔ ∀ a, i.blockNo a ≠ 0 := by
  simp [zeroSlot]

lemma zeroSlot_eq_zero (h : zeroSlot i = some j) : i.blockNo j = 0 := by
  have := List.find?_some h
  simpa using this

lemma exists_zeroSlot (h : ∃ a, i.blockNo a = 0) : ∃ j, zeroSlot i = some j := by
  obtain ⟨a, ha⟩ := h
  cases hj : zeroSlot i with
  | none => exact absurd ha (zeroSlot_eq_none.mp hj a)
  | some j => exact ⟨j, rfl⟩

lemma freeBlock_spec (hsb : (readSuperBlock d).dataBlockBitNo 0 = 51)
    (h : ∃ n < 4096, busy d n = false) :
    freeBlock d < 4096 ∧ busy d (freeBlock d) = false ∧ ∀ m < freeBlock d, busy d m = true := by
  obtain ⟨n, hn, hbit⟩ := h
  have hblock : readBlock d ((readSuperBlock d).dataBlockBitNo 0).toNat = readBlock d bitBlock := by
    rw [hsb]
    rfl
  rw [busy_eq hn] at hbit
  obtain ⟨h1, h2, h3⟩ := @getFreeBlock_spec _ 512 ⟨n, hn, hbit⟩
  rw [freeBlock, hblock]
  refine ⟨h1, by rw [busy_eq h1, h2], fun m hm => ?_⟩
  rw [busy_eq (by omega)]
  exact h3 m hm

/-! ### The disk after an allocation -/

/-- The disk after the block `f` is taken. -/
def takenBlock (f : ℕ) (d : Bytes) : Bytes :=
  (updateDataBlockBit f blockBusy (clearBlock f d)).2

lemma busy_clearBlock {f : ℕ} (hf : Addressable f) (hne : f ≠ 51) (hm : m < 4096) :
    busy (clearBlock f d) m = busy d m := by
  rw [busy_eq hm, busy_eq hm]
  exact congrArg (bufBit · m) (readBlock_writeBlock_ne (by decide) hf (Ne.symm hne))

lemma readBlock_takenBlock {f : ℕ} (hf : f < 4096) (hne : f ≠ 51) (hfree : busy d f = false)
    (hb : Addressable b) (hbf : b ≠ f) (hb51 : b ≠ 51) :
    readBlock (takenBlock f d) b = readBlock d b := by
  have haddr : Addressable f := by simp only [Addressable, superBlockSector]; omega
  have hclear : readBlock (clearBlock f d) b = readBlock d b :=
    readBlock_writeBlock_ne hb haddr hbf
  by_cases h : f ≤ 700
  · rw [takenBlock, readBlock_updateDataBlockBit h (by rw [busy_clearBlock haddr hne hf, hfree]) hb
      hb51, hclear]
  · rw [takenBlock, updateDataBlockBit_of_gt (by omega), hclear]

lemma readBlock_takenBlock_self {f : ℕ} (hf : f < 4096) (hne : f ≠ 51) (hfree : busy d f = false) :
    readBlock (takenBlock f d) f = fun _ => 0 := by
  have haddr : Addressable f := by simp only [Addressable, superBlockSector]; omega
  have hclear : readBlock (clearBlock f d) f = fun _ => 0 := by
    funext i
    by_cases hi : i < 512
    · exact readBlock_writeBlock_of_lt hi
    · exact if_neg hi
  by_cases h : f ≤ 700
  · rw [takenBlock, readBlock_updateDataBlockBit h (by rw [busy_clearBlock haddr hne hf, hfree])
      haddr hne, hclear]
  · rw [takenBlock, updateDataBlockBit_of_gt (by omega), hclear]

lemma busy_takenBlock {f : ℕ} (hf : f ≤ 700) (hne : f ≠ 51) (hfree : busy d f = false)
    (hm : m < 4096) : busy (takenBlock f d) m = (decide (m = f) || busy d m) := by
  have haddr : Addressable f := by simp only [Addressable, superBlockSector]; omega
  rw [takenBlock, busy_updateDataBlockBit hf (by rw [busy_clearBlock haddr hne (by omega), hfree]) hm,
    busy_clearBlock haddr hne hm]

end AllocBlock

/-! ### The first bitmap -/

section Init

variable {d : Bytes} {b n : ℕ}

/-- **What `init_dataBlockBit` leaves**: the blocks of the file system's own records are busy. -/
theorem busy_initDataBlockBit (h : n < 4096) : busy (initDataBlockBit d) n = decide (n < 56) := by
  have harr : ∀ k < 512, forRange 0 (fun k (arr : Bytes) => Function.update arr 7
      (arr 7 + .ofNat (1 <<< k))) (forRange 7 (fun j (arr : Bytes) => Function.update arr j 0xff)
      fun _ => 0) k = if k < 7 then 0xff else 0 := by
    intro k _
    have hfill := forRange_fill (fun _ => 0) 0 7 0xff
    simp only [Nat.zero_add] at hfill
    rw [forRange_zero, hfill]
    simp only [overlay, Nat.zero_le, true_and, Nat.zero_add]
  rw [busy_eq h, initDataBlockBit, bufBit, readBlock_writeBlock_of_lt (by omega)]
  refine (congrArg (bitSet · (n % 8)) (harr (n / 8) (by omega))).trans ?_
  split
  · rw [bitSet_full (by omega), decide_eq_true (by omega)]
  · rw [decide_eq_false (by omega), bitSet_eq_testBit]
    exact Nat.zero_testBit _

lemma readBlock_initDataBlockBit (hb : Addressable b) (h : b < 51 ∨ 55 < b) :
    readBlock (initDataBlockBit d) b = readBlock d b := by
  have hloop : readBlock (forRange dataBlockBitSize (fun i d => writeBlock d (fun _ => 0)
      (inodeBlockSize + (i + 1))) d) b = readBlock d b := by
    refine forRange_inv (fun _ (t : Bytes) => readBlock t b = readBlock d b) rfl ?_
    intro i hi t ht
    simp only [dataBlockBitSize] at hi
    rw [readBlock_writeBlock_ne hb ?_ ?_, ht]
    · simp only [Addressable, superBlockSector, inodeBlockSize]
      omega
    · simp only [inodeBlockSize]
      omega
  rw [initDataBlockBit, ← hloop]
  exact readBlock_writeBlock_ne hb (by decide) (by simp only [inodeBlockSize]; omega)

end Init

end Nbos.Fs
