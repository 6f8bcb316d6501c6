import Nbos.Fs.Disk

/-!
# The disk controller

The two drivers write the number of a sector to four registers of the controller: `k_operatesector` of
`diskload.c` with masks and shifts, `read_sector.s` of the boot loader through the low byte of `eax`. The
loader gets all the 28 bits across. The mask that the kernel has for the last four is one nibble too
short, so that it addresses the same sector as long as they are zero: `sameSector_iff`.
-/

namespace Nbos.Device

open Nbos.Lib

/-! ### The controller -/

abbrev ideSectorCountPort : ℕ := 0x1f2
abbrev ideSectorNumberPort : ℕ := 0x1f3
abbrev ideCylinderLowPort : ℕ := 0x1f4
abbrev ideCylinderHighPort : ℕ := 0x1f5
abbrev ideDevicePort : ℕ := 0x1f6
abbrev ideStatusPort : ℕ := 0x1f7

/-- The registers that a driver writes. -/
structure Ide where
  sectorCount : UInt8
  sectorNumber : UInt8
  cylinderLow : UInt8
  cylinderHigh : UInt8
  device : UInt8
  command : UInt8
  deriving DecidableEq

/-- `out`, to one of the ports of the controller. -/
def Ide.outb (port : ℕ) (data : UInt8) (ide : Ide) : Ide :=
  match port with
  | 0x1f2 => { ide with sectorCount := data }
  | 0x1f3 => { ide with sectorNumber := data }
  | 0x1f4 => { ide with cylinderLow := data }
  | 0x1f5 => { ide with cylinderHigh := data }
  | 0x1f6 => { ide with device := data }
  | 0x1f7 => { ide with command := data }
  | _ => ide

/-- The address that the controller takes from its registers: 24 bits of them, and the low half of the
device register. -/
def Ide.address (ide : Ide) : ℕ :=
  ide.sectorNumber.toNat + 2 ^ 8 * ide.cylinderLow.toNat + 2 ^ 16 * ide.cylinderHigh.toNat +
    2 ^ 24 * (ide.device &&& 0x0f).toNat

/-! ### The drivers -/

/-- What `k_operatesector` writes to the ports before it waits for the disk. -/
def kOperatesector (sectorNumber : UInt32) (read : Bool) (ide : Ide) : Ide :=
  let ide := ide.outb ideSectorCountPort 1
  let ide := ide.outb ideSectorNumberPort (sectorNumber &&& 0x000000ff).toUInt8
  let ide := ide.outb ideCylinderLowPort ((sectorNumber &&& 0x0000ff00) >>> 8).toUInt8
  let ide := ide.outb ideCylinderHighPort ((sectorNumber &&& 0x00ff0000) >>> 16).toUInt8
  let ide := ide.outb ideDevicePort (((sectorNumber &&& 0x0f0000) >>> 24) ||| 0xe0).toUInt8
  ide.outb ideStatusPort (if read then 0x20 else 0x30)

/-- The register `al`. -/
def al (eax : UInt32) : UInt8 := eax.toUInt8

/-- The register `ah`. -/
def ah (eax : UInt32) : UInt8 := (eax >>> 8).toUInt8

/-- A `mov` to `al`. -/
def setAl (eax : UInt32) (data : UInt8) : UInt32 := (eax &&& 0xffffff00) ||| data.toUInt32

/-- What `read_sector` writes to the ports before it waits for the disk. -/
def readSectorPorts (eax sector : UInt32) (ide : Ide) : Ide :=
  let eax := setAl eax 1
  let ide := ide.outb 0x1f2 (al eax)
  let eax := sector
  let ide := ide.outb 0x1f3 (al eax)
  let eax := setAl eax (ah eax)
  let ide := ide.outb 0x1f4 (al eax)
  let eax := eax >>> 16
  let ide := ide.outb 0x1f5 (al eax)
  let eax := setAl eax (ah eax)
  let eax := setAl eax (al eax &&& 0x0f)
  let eax := setAl eax (al eax ||| 0xe0)
  let ide := ide.outb 0x1f6 (al eax)
  let eax := setAl eax 0x20
  ide.outb 0x1f7 (al eax)

/-! ### The sector -/

/-- The kernel and the loader write the same to the four registers of the address, and the address is
that of the sector. -/
structure SameSector (sector : UInt32) : Prop where
  registers : ∀ read eax ide, let k := kOperatesector sector read ide
    let boot := readSectorPorts eax sector ide
    k.sectorNumber = boot.sectorNumber ∧ k.cylinderLow = boot.cylinderLow ∧
      k.cylinderHigh = boot.cylinderHigh ∧ k.device = boot.device
  address : ∀ read ide, (kOperatesector sector read ide).address = sector.toNat

section Sector

variable {sector eax : UInt32} {read : Bool} {ide : Ide} {data : UInt8}

lemma toNat_al : (al eax).toNat = eax.toNat % 2 ^ 8 := UInt32.toNat_toUInt8 eax

lemma toNat_ah : (ah eax).toNat = eax.toNat / 2 ^ 8 % 2 ^ 8 := by
  rw [ah, UInt32.toNat_toUInt8, UInt32.toNat_shiftRight, Nat.shiftRight_eq_div_pow]
  rfl

/-- A `mov` to `al` keeps the rest of `eax`. -/
lemma toNat_setAl : (setAl eax data).toNat = 2 ^ 8 * (eax.toNat / 2 ^ 8) + data.toNat := by
  have hmask : eax.toNat &&& 0xffffff00 = eax.toNat / 2 ^ 8 * 2 ^ 8 :=
    and_mask_of_lt (k := 8) (n := 24) eax.toNat_lt
  rw [setAl, UInt32.toNat_or, UInt32.toNat_and, UInt8.toNat_toUInt32,
    show (0xffffff00 : UInt32).toNat = 0xffffff00 from rfl, hmask, Nat.mul_comm,
    ← Nat.two_pow_add_eq_or_of_lt data.toNat_lt]

lemma al_setAl : al (setAl eax data) = data := by
  have hlt := data.toNat_lt
  rw [← UInt8.toNat_inj, toNat_al, toNat_setAl]
  omega

/-- The high half of `eax` is not reached through `al`. -/
lemma setAl_shiftRight : setAl eax data >>> 16 = eax >>> 16 := by
  have hlt := data.toNat_lt
  rw [← UInt32.toNat_inj, UInt32.toNat_shiftRight, UInt32.toNat_shiftRight, toNat_setAl,
    Nat.shiftRight_eq_div_pow, Nat.shiftRight_eq_div_pow]
  simp only [UInt32.reduceToNat, Nat.reduceMod]
  omega

/-- What the loader writes: the bytes of the number, and its last nibble with the bits of the LBA mode. -/
lemma readSectorPorts_eq : readSectorPorts eax sector ide =
    ⟨1, al sector, ah sector, al (sector >>> 16), ah (sector >>> 16) &&& 0x0f ||| 0xe0, 0x20⟩ := by
  simp only [readSectorPorts, Ide.outb, al_setAl, setAl_shiftRight]

/-- What the kernel writes: nothing of the last nibble. -/
lemma kOperatesector_eq : kOperatesector sector read ide =
    ⟨1, al sector, ah sector, al (sector >>> 16), 0xe0, if read then 0x20 else 0x30⟩ := by
  have hlow : (sector &&& 0x000000ff).toUInt8 = al sector := by
    rw [← UInt8.toNat_inj, UInt32.toNat_toUInt8, UInt32.toNat_and, toNat_al,
      show (0xff : UInt32).toNat = 2 ^ 8 - 1 from rfl, Nat.and_two_pow_sub_one_eq_mod, Nat.mod_mod]
  have hmid : ((sector &&& 0x0000ff00) >>> 8).toUInt8 = ah sector := by
    have h : (sector.toNat &&& 0xff00) >>> 8 = sector.toNat / 2 ^ 8 % 2 ^ 8 :=
      and_mask_shiftRight sector.toNat 8 8
    rw [← UInt8.toNat_inj, toNat_ah, UInt32.toNat_toUInt8, UInt32.toNat_shiftRight, UInt32.toNat_and]
    simp only [UInt32.reduceToNat, Nat.reduceMod, h, Nat.mod_mod]
  have hhigh : ((sector &&& 0x00ff0000) >>> 16).toUInt8 = al (sector >>> 16) := by
    have h : (sector.toNat &&& 0xff0000) >>> 16 = sector.toNat / 2 ^ 16 % 2 ^ 8 :=
      and_mask_shiftRight sector.toNat 16 8
    rw [← UInt8.toNat_inj, toNat_al, UInt32.toNat_toUInt8, UInt32.toNat_shiftRight, UInt32.toNat_and]
    simp only [UInt32.reduceToNat, Nat.reduceMod, h, Nat.mod_mod]
    rw [UInt32.toNat_shiftRight, Nat.shiftRight_eq_div_pow]
    rfl
  have hdevice : (((sector &&& 0x0f0000) >>> 24) ||| 0xe0).toUInt8 = 0xe0 := by
    have h : sector.toNat &&& 0x0f0000 ≤ 0x0f0000 := Nat.and_le_right
    have h0 : (sector &&& 0x0f0000) >>> 24 = 0 := by
      rw [← UInt32.toNat_inj, UInt32.toNat_shiftRight, UInt32.toNat_and, Nat.shiftRight_eq_div_pow]
      simp only [UInt32.reduceToNat, Nat.reduceMod]
      omega
    rw [h0]
    rfl
  simp only [kOperatesector, Ide.outb, hlow, hmid, hhigh, hdevice]

lemma address_eq {count device command : UInt8} :
    Ide.address ⟨count, al sector, ah sector, al (sector >>> 16), device, command⟩ =
      sector.toNat % 2 ^ 24 + 2 ^ 24 * (device &&& 0x0f).toNat := by
  rw [Ide.address, toNat_al, toNat_ah, toNat_al, UInt32.toNat_shiftRight, Nat.shiftRight_eq_div_pow]
  simp only [UInt32.reduceToNat, Nat.reduceMod]
  omega

/-- The kernel addresses the sector that `lba` gives the file system. -/
lemma address_kOperatesector : (kOperatesector sector read ide).address = Fs.lba sector.toNat := by
  rw [kOperatesector_eq, address_eq, Fs.lba_eq]
  rfl

lemma toNat_ah_shiftRight : (ah (sector >>> 16)).toNat = sector.toNat / 2 ^ 24 := by
  have hlt := sector.toNat_lt
  rw [toNat_ah, UInt32.toNat_shiftRight, Nat.shiftRight_eq_div_pow]
  simp only [UInt32.reduceToNat, Nat.reduceMod]
  omega

/-- The loader addresses the sector that it is asked for, up to the size of a disk. -/
lemma address_readSectorPorts : (readSectorPorts eax sector ide).address = sector.toNat % 2 ^ 28 := by
  have hdevice (b : UInt8) : (b &&& 0x0f ||| 0xe0) &&& 0x0f = b &&& 0x0f := by
    rw [← UInt8.toNat_inj, UInt8.toNat_and, UInt8.toNat_or, UInt8.toNat_and, Nat.and_or_distrib_right,
      Nat.and_assoc]
    exact Nat.or_zero _
  have hnibble : (ah (sector >>> 16) &&& 0x0f).toNat = sector.toNat / 2 ^ 24 % 2 ^ 4 := by
    rw [UInt8.toNat_and, toNat_ah_shiftRight]
    exact Nat.and_two_pow_sub_one_eq_mod _ 4
  rw [readSectorPorts_eq, address_eq, hdevice, hnibble]
  omega

/-- **When the two drivers address the same sector.** -/
theorem sameSector_iff (sector : UInt32) : SameSector sector ↔ sector.toNat < 2 ^ 24 := by
  constructor
  · intro h
    have haddress := h.address true ⟨0, 0, 0, 0, 0, 0⟩
    rw [address_kOperatesector, Fs.lba_eq] at haddress
    omega
  · intro h
    have hnibble : ah (sector >>> 16) = 0 := by
      rw [← UInt8.toNat_inj, toNat_ah_shiftRight]
      exact Nat.div_eq_of_lt h
    refine ⟨fun read eax ide => ?_, fun read ide => ?_⟩
    · intro k boot
      have hk : k = _ := kOperatesector_eq
      have hboot : boot = _ := readSectorPorts_eq
      rw [hk, hboot, hnibble]
      exact ⟨rfl, rfl, rfl, rfl⟩
    · rw [address_kOperatesector, Fs.lba_eq, Nat.mod_eq_of_lt h]

/-- Sector 2^24 is sector 0 for the kernel. -/
theorem not_sameSector : ¬ ∀ sector : UInt32, sector.toNat < 2 ^ 28 → SameSector sector := by
  intro h
  have haddress := (h 0x1000000 (by decide)).address true ⟨0, 0, 0, 0, 0, 0⟩
  revert haddress
  decide +kernel

end Sector

end Nbos.Device
