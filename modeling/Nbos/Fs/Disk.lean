import Nbos.Kernel.Defs
import Nbos.Lib.Bits
import Nbos.Lib.Bytes

/-!
# The disk

The disk is a byte store, sector `s` from byte `512 * s` on. `lba` is the sector that the port
writes of `k_operatesector` (`diskload.c`) select: of the sector number only the low 24 bits reach
the controller. The file system counts in blocks from the super block on.
-/

namespace Nbos.Fs

open Nbos.Lib Nbos.Kernel

/-! ### The driver -/

/-- The address that `k_operatesector` writes to the ports. The high bits are masked before they are
shifted, so none of them is left. -/
def lba (sector : ℕ) : ℕ :=
  let number := sector &&& 0xff
  let cylinderLow := (sector &&& 0xff00) >>> 8
  let cylinderHigh := (sector &&& 0xff0000) >>> 16
  let device := ((sector &&& 0x0f0000) >>> 24) ||| 0xe0
  number + 2 ^ 8 * cylinderLow + 2 ^ 16 * cylinderHigh + 2 ^ 24 * (device &&& 0x0f)

/-- `k_readsector`, into a local buffer of one sector. -/
def readSector (d : Bytes) (sector : ℕ) : Bytes := fun i =>
  if i < sectorSize then d (sectorSize * lba sector + i) else 0

/-- `k_writesector`. -/
def writeSector (d arr : Bytes) (sector : ℕ) : Bytes :=
  overlay d (sectorSize * lba sector) sectorSize arr

/-- `block_no + SUPER_BLOCK_SECTOR`, on 32-bit words. -/
def sectorOf (block : ℕ) : ℕ := (block + superBlockSector) % 2 ^ 32

/-- `k_readsector` of a block. -/
def readBlock (d : Bytes) (block : ℕ) : Bytes := readSector d (sectorOf block)

/-- `write_block`. -/
def writeBlock (d arr : Bytes) (block : ℕ) : Bytes := writeSector d arr (sectorOf block)

/-! ### Blocks -/

/-- The byte `x` of the disk belongs to the block. -/
def InBlock (block x : ℕ) : Prop :=
  sectorSize * lba (sectorOf block) ≤ x ∧ x < sectorSize * lba (sectorOf block) + sectorSize

/-- The blocks whose number the controller does not truncate. -/
abbrev Addressable (block : ℕ) : Prop := block < 2 ^ 24 - superBlockSector

section Blocks

variable {d d' arr arr' : Bytes} {b b' i x sector : ℕ}

lemma lba_eq (sector : ℕ) : lba sector = sector % 2 ^ 24 := by
  have h0 : sector &&& 0xff = sector % 2 ^ 8 := Nat.and_two_pow_sub_one_eq_mod sector 8
  have h1 : (sector &&& 0xff00) >>> 8 = sector / 2 ^ 8 % 2 ^ 8 := and_mask_shiftRight sector 8 8
  have h2 : (sector &&& 0xff0000) >>> 16 = sector / 2 ^ 16 % 2 ^ 8 :=
    and_mask_shiftRight sector 16 8
  have h3 : (sector &&& 0x0f0000) >>> 24 = 0 := by
    have h : sector &&& 0x0f0000 ≤ 0x0f0000 := Nat.and_le_right
    rw [Nat.shiftRight_eq_div_pow]
    omega
  rw [lba, h0, h1, h2, h3]
  have h4 : (0 ||| 0xe0) &&& 0x0f = 0 := by decide
  rw [h4]
  omega

lemma lba_sectorOf (h : Addressable b) : lba (sectorOf b) = b + superBlockSector := by
  simp only [Addressable, superBlockSector] at h
  simp only [lba_eq, sectorOf, superBlockSector]
  omega

lemma readBlock_of_lt (h : i < 512) : readBlock d b i = d (512 * lba (sectorOf b) + i) := if_pos h

lemma writeBlock_of_not (h : ¬ InBlock b x) : writeBlock d arr b x = d x := by
  refine overlay_of_not_mem ?_
  unfold InBlock at h
  omega

/-- What is in a block depends on its bytes alone. -/
lemma readBlock_congr (h : ∀ x, InBlock b x → d x = d' x) : readBlock d b = readBlock d' b := by
  funext i
  unfold readBlock readSector
  split
  · exact h _ ⟨by omega, by omega⟩
  · rfl

lemma not_inBlock_of_ne (hb : Addressable b) (hb' : Addressable b') (h : b ≠ b')
    (hx : InBlock b x) : ¬ InBlock b' x := by
  simp only [InBlock, lba_sectorOf hb, lba_sectorOf hb', sectorSize] at *
  omega

lemma readBlock_writeBlock_of_lt (h : i < 512) : readBlock (writeBlock d arr b) b i = arr i := by
  rw [readBlock_of_lt h]
  exact overlay_add h

lemma readBlock_writeBlock_ne (hb : Addressable b) (hb' : Addressable b') (h : b ≠ b') :
    readBlock (writeBlock d arr b') b = readBlock d b :=
  readBlock_congr fun _ hx => writeBlock_of_not (not_inBlock_of_ne hb hb' h hx)

/-- Writing back what a block holds changes nothing. -/
lemma writeBlock_readBlock : writeBlock d (readBlock d b) b = d :=
  overlay_eq_self fun _ hk => readBlock_of_lt hk

end Blocks

end Nbos.Fs
