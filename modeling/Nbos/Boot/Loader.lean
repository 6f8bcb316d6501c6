import Nbos.Device.Ide
import Nbos.Lib.Loops

/-!
# Reading a segment

`read_seg` reads whole sectors. `loader.c` has it over `read_sector` of the boot loader, `diskload.c`
over `k_readsector` of the kernel. The end of the range is taken from the target after it has been
aligned down, so that the range is cut short by the part of the first sector in front of it:
`readSeg_delivers_iff`.
-/

namespace Nbos.Boot

open Nbos.Lib Nbos.Kernel Nbos.Device

/-! ### The source -/

/-- The 256 words of a sector, from the data port to the address `target`. -/
def readData (d : Bytes) (address target : ℕ) (m : Bytes) : Bytes :=
  forRange 256
    (fun i m => overlay m (target + 2 * i) 2 fun k => d (sectorSize * address + (2 * i + k))) m

/-- `read_sector`. What the registers hold before is of no consequence. -/
def readSector (d : Bytes) (target : ℕ) (sector : UInt32) (m : Bytes) : Bytes :=
  readData d (readSectorPorts 0 sector ⟨0, 0, 0, 0, 0, 0⟩).address target m

/-- `k_readsector`. -/
def kReadsector (d : Bytes) (target : ℕ) (sector : UInt32) (m : Bytes) : Bytes :=
  readData d (kOperatesector sector true ⟨0, 0, 0, 0, 0, 0⟩).address target m

/-- The loop of `read_seg`; `none` when `target_location` runs over the end of the address space. -/
def readSegLoop (read : ℕ → UInt32 → Bytes → Bytes) (targetEnd target : ℕ) (sector : UInt32)
    (m : Bytes) : Option Bytes :=
  if target < targetEnd then
    if target + sectorSize < 2 ^ 32 then
      readSegLoop read targetEnd (target + sectorSize) (sector + 1) (read target sector m)
    else none
  else some m
termination_by targetEnd - target
decreasing_by simp only [sectorSize]; omega

/-- `read_seg`, over a driver. -/
def readSegOf (read : ℕ → UInt32 → Bytes → Bytes) (target size : ℕ) (startSector offset : UInt32)
    (m : Bytes) : Option Bytes :=
  let sector := startSector + offset / 512
  let skip := offset.toNat % sectorSize
  if target < skip then none
  else
    let target := target - skip
    let targetEnd := target + size
    if targetEnd < 2 ^ 32 then readSegLoop read targetEnd target sector m else none

/-- `read_seg` of `loader.c`. -/
def readSeg (d : Bytes) : ℕ → ℕ → UInt32 → UInt32 → Bytes → Option Bytes := readSegOf (readSector d)

/-- `read_seg` of `diskload.c`. -/
def kReadSeg (d : Bytes) : ℕ → ℕ → UInt32 → UInt32 → Bytes → Option Bytes :=
  readSegOf (kReadsector d)

/-! ### What is read -/

/-- As many sectors as the size of a range asks for. -/
def sectors (size : ℕ) : ℕ := (size + 511) / 512

/-- No address that `read_seg` computes for the range is beyond the address space. -/
structure NoWrap (target size : ℕ) (offset : UInt32) : Prop where
  start : offset.toNat % sectorSize ≤ target
  fin : target - offset.toNat % sectorSize + sectorSize * sectors size < 2 ^ 32

/-- On every disk and in any memory: the bytes of the range are in memory afterwards. -/
def Delivers (readSeg : Bytes → ℕ → ℕ → UInt32 → UInt32 → Bytes → Option Bytes) (target size : ℕ)
    (startSector offset : UInt32) : Prop :=
  ∀ d m, ∃ m', readSeg d target size startSector offset m = some m' ∧
    ∀ k < size, m' (target + k) = d (sectorSize * startSector.toNat + offset.toNat + k)

/-- The sectors read reach to the end of the range, and their numbers are below `2 ^ bits`. -/
def Covers (bits size : ℕ) (startSector offset : UInt32) : Prop :=
  offset.toNat % sectorSize + size ≤ sectorSize * sectors size ∧
    startSector.toNat + offset.toNat / sectorSize + sectors size ≤ 2 ^ bits

/-- A driver that reads the sector with the low `bits` bits of the number. -/
def Reads (bits : ℕ) (d : Bytes) (read : ℕ → UInt32 → Bytes → Bytes) : Prop :=
  ∀ target sector m, read target sector m =
    overlay m target sectorSize fun k => d (sectorSize * (sector.toNat % 2 ^ bits) + k)

section ReadSeg

variable {d m : Bytes} {target targetEnd address bits size : ℕ} {sector startSector offset : UInt32}
  {read : ℕ → UInt32 → Bytes → Bytes} {driver : Bytes → ℕ → UInt32 → Bytes → Bytes}

lemma readData_eq :
    readData d address target m = overlay m target 512 fun k => d (512 * address + k) := by
  refine forRange_inv (n := 256) (fun i t => t = overlay m target (2 * i) fun k => d (512 * address + k))
    overlay_zero.symm ?_
  rintro i hi t rfl
  exact overlay_extend (f := fun k => d (512 * address + k))

lemma reads_readSector : Reads 28 d (readSector d) := fun target sector m => by
  rw [readSector, readData_eq, address_readSectorPorts]

lemma reads_kReadsector : Reads 24 d (kReadsector d) := fun target sector m => by
  rw [kReadsector, readData_eq, address_kOperatesector, Fs.lba_eq]

/-- A sector number counts on modulo the size of the address. -/
lemma toNat_add_mod {q : ℕ} (hbits : bits ≤ 32) {a b : UInt32} :
    ((a + b).toNat + q) % 2 ^ bits = (a.toNat + b.toNat + q) % 2 ^ bits := by
  rw [UInt32.toNat_add, Nat.add_mod, Nat.mod_mod_of_dvd _ (Nat.pow_dvd_pow 2 hbits), ← Nat.add_mod]

/-- What the sectors from `sector` on hold. -/
def sectorBytes (bits : ℕ) (d : Bytes) (sector : ℕ) : Bytes := fun x =>
  d (512 * ((sector + x / 512) % 2 ^ bits) + x % 512)

lemma readSegLoop_eq (hread : Reads bits d read) (hbits : bits ≤ 32)
    (hfin : target + 512 * sectors (targetEnd - target) < 2 ^ 32) :
    readSegLoop read targetEnd target sector m =
      some (overlay m target (512 * sectors (targetEnd - target)) (sectorBytes bits d sector.toNat)) := by
  induction hn : sectors (targetEnd - target) generalizing target sector m with
  | zero =>
    have hge : ¬ target < targetEnd := by
      unfold sectors at hn
      omega
    rw [readSegLoop, if_neg hge, Nat.mul_zero, overlay_zero]
  | succ n ih =>
    rw [hn] at hfin
    have hlt : target < targetEnd := by
      unfold sectors at hn
      omega
    have hn' : sectors (targetEnd - (target + 512)) = n := by
      unfold sectors at hn ⊢
      omega
    have hroom : target + 512 < 2 ^ 32 := lt_of_le_of_lt (by omega) hfin
    have hfin' : target + 512 + 512 * sectors (targetEnd - (target + 512)) < 2 ^ 32 := by
      rw [hn']
      exact lt_of_le_of_lt (by omega) hfin
    rw [readSegLoop, if_pos hlt, if_pos hroom, ih hfin' hn', hread]
    -- the first sector, and then the others
    have hfirst : overlay m target 512 (fun k => d (512 * (sector.toNat % 2 ^ bits) + k)) =
        overlay m target 512 (sectorBytes bits d sector.toNat) := by
      refine overlay_congr fun k hk => ?_
      rw [sectorBytes, Nat.div_eq_of_lt hk, Nat.mod_eq_of_lt hk, Nat.add_zero]
    have hrest : sectorBytes bits d (sector + 1).toNat =
        fun k => sectorBytes bits d sector.toNat (512 + k) := by
      funext k
      rw [sectorBytes, sectorBytes, toNat_add_mod hbits, Nat.add_mod_left, Nat.add_div_left _ (by omega),
        UInt32.toNat_one, Nat.add_assoc, Nat.add_comm 1]
    rw [hfirst, hrest, overlay_extend, Nat.mul_succ, Nat.add_comm 512]

lemma readSegOf_eq (hread : Reads bits d read) (hbits : bits ≤ 32) (hwrap : NoWrap target size offset) :
    readSegOf read target size startSector offset m =
      some (overlay m (target - offset.toNat % 512) (512 * sectors size)
        (sectorBytes bits d (startSector + offset / 512).toNat)) := by
  have hfin : target - offset.toNat % 512 + 512 * sectors size < 2 ^ 32 := hwrap.fin
  have hsize : size ≤ 512 * sectors size := by
    unfold sectors
    omega
  have hend : target - offset.toNat % 512 + size < 2 ^ 32 := lt_of_le_of_lt (by omega) hfin
  have hsub : target - offset.toNat % 512 + size - (target - offset.toNat % 512) = size := by omega
  rw [readSegOf]
  simp only [if_neg (not_lt.mpr hwrap.start), if_pos hend]
  rw [readSegLoop_eq hread hbits (by rw [hsub]; exact hfin), hsub]

/-- The byte `k` of the range comes from the disk if the sectors read reach to it. -/
lemma readSegOf_byte {k : ℕ} (hread : ∀ d, Reads bits d (driver d)) (hbits : bits ≤ 32)
    (hwrap : NoWrap target size offset) {m' : Bytes}
    (h : readSegOf (driver d) target size startSector offset m = some m') :
    m' (target + k) = if offset.toNat % 512 + k < 512 * sectors size then
      sectorBytes bits d (startSector.toNat + offset.toNat / 512) (offset.toNat % 512 + k)
    else m (target + k) := by
  rw [readSegOf_eq (hread d) hbits hwrap] at h
  obtain rfl := Option.some_inj.mp h
  have hstart : offset.toNat % 512 ≤ target := hwrap.start
  split
  · rename_i hk
    rw [overlay_of_mem (by omega) (by omega), sectorBytes, sectorBytes, toNat_add_mod hbits,
      UInt32.toNat_div, show target + k - (target - offset.toNat % 512) = offset.toNat % 512 + k by omega]
    rfl
  · exact overlay_of_not_mem (by omega)

/-- **When a whole range is read**, with a driver that addresses a sector with `bits` bits. -/
theorem delivers_iff (hread : ∀ d, Reads bits d (driver d)) (hbits : bits ≤ 32)
    (hwrap : NoWrap target size offset) :
    Delivers (fun d => readSegOf (driver d)) target size startSector offset ↔
      size = 0 ∨ Covers bits size startSector offset := by
  have hsize : size ≤ 512 * sectors size ∧ 512 * sectors size < size + 512 := by
    unfold sectors
    omega
  constructor
  · intro h
    rcases Nat.eq_zero_or_pos size with h0 | hpos
    · exact .inl h0
    have hcover : offset.toNat % 512 + size ≤ 512 * sectors size := by
      by_contra hshort
      obtain ⟨m', hm', hbyte⟩ := h (fun _ => 1) fun _ => 0
      have hlast := hbyte (size - 1) (by omega)
      rw [readSegOf_byte hread hbits hwrap hm', if_neg (by omega)] at hlast
      exact absurd hlast (by decide)
    refine .inr ⟨hcover, ?_⟩
    by_contra hfar
    -- a disk on which the last byte of the range is the only one that is not 0
    obtain ⟨m', hm', hbyte⟩ := h
      (fun x => if x = 512 * startSector.toNat + offset.toNat + (size - 1) then 1 else 0) fun _ => 0
    have hlast := hbyte (size - 1) (by omega)
    rw [readSegOf_byte hread hbits hwrap hm', if_pos (by omega), if_pos rfl, sectorBytes] at hlast
    have hmod : (startSector.toNat + offset.toNat / 512 +
        (offset.toNat % 512 + (size - 1)) / 512) % 2 ^ bits < 2 ^ bits :=
      Nat.mod_lt _ (Nat.two_pow_pos bits)
    simp only [sectorSize] at hfar
    rw [if_neg (by omega)] at hlast
    exact absurd hlast (by decide)
  · intro h d m
    refine ⟨_, readSegOf_eq (hread d) hbits hwrap, fun k hk => ?_⟩
    obtain ⟨hcover, hfar⟩ : Covers bits size startSector offset := h.resolve_left (by omega)
    simp only [sectorSize] at hcover hfar
    rw [readSegOf_byte hread hbits hwrap (readSegOf_eq (hread d) hbits hwrap), if_pos (by omega),
      sectorBytes, Nat.mod_eq_of_lt (by omega)]
    exact congrArg d (by simp only [sectorSize]; omega)

/-- **When `read_seg` delivers the whole range**, in the loader and in the kernel. -/
theorem readSeg_delivers_iff (hwrap : NoWrap target size offset) :
    (Delivers readSeg target size startSector offset ↔
      size = 0 ∨ Covers 28 size startSector offset) ∧
    (Delivers kReadSeg target size startSector offset ↔
      size = 0 ∨ Covers 24 size startSector offset) :=
  ⟨delivers_iff (fun _ => reads_readSector) (by omega) hwrap,
    delivers_iff (fun _ => reads_kReadsector) (by omega) hwrap⟩

end ReadSeg

/-- The page with the header of the kernel, from sector 6 to the address `0x9000`. -/
theorem readSeg_delivers_header :
    Delivers readSeg 0x9000 4096 6 0 ∧ Delivers kReadSeg 0x9000 4096 6 0 := by
  have hwrap : NoWrap 0x9000 4096 0 := ⟨by decide, by decide⟩
  obtain ⟨hload, hkernel⟩ := @readSeg_delivers_iff 0x9000 4096 6 0 hwrap
  exact ⟨hload.mpr (.inr ⟨by decide, by decide⟩), hkernel.mpr (.inr ⟨by decide, by decide⟩)⟩

/-- One sector and one byte, from the second byte of a sector on: the last byte is not read. -/
theorem readSeg_cut_short : ¬ ∀ target size startSector offset, NoWrap target size offset →
    Delivers readSeg target size startSector offset := by
  intro h
  have hwrap : NoWrap 0x10001 512 1 := ⟨by decide, by decide⟩
  rcases (delivers_iff (fun _ => reads_readSector) (by omega) hwrap).mp (h _ _ 6 _ hwrap) with h0 | hcover
  · omega
  · exact absurd hcover.1 (by decide)

end Nbos.Boot
