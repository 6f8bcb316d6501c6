import Nbos.Fs.AllocBlock

/-!
# Updating the bitmap

`update_dataBlockBit` moves the status to the place of the bit and combines it with the byte: by `|=`
if the bit is clear, and by `&=` if it is set. The `&=` clears the other seven bits of the byte too,
and the limit of the managed blocks is off by one, so the update is as expected only for some bytes
and blocks (`setsBit_iff`). `busy_update` is what it does to every bit.
-/

namespace Nbos.Fs

open Nbos.Lib Nbos.Kernel

/-- The update of block `n` is **as expected** on the disk `d`: the bit of a managed block gets the status,
every other bit and every other byte is left alone, and any other block or status is refused. -/
structure SetsBit (n : ℕ) (status : ℤ) (d : Bytes) : Prop where
  bit : n < fileSysBlocks → BlockStatus status →
    busy (updateDataBlockBit n status d).2 n = decide (status = blockBusy)
  others : n < fileSysBlocks → BlockStatus status →
    ∀ m < bitmapBits, m ≠ n → busy (updateDataBlockBit n status d).2 m = busy d m
  blocks : n < fileSysBlocks → BlockStatus status →
    ∀ x, ¬ InBlock bitBlock x → (updateDataBlockBit n status d).2 x = d x
  refused : ¬ (n < fileSysBlocks ∧ BlockStatus status) → updateDataBlockBit n status d = (-1, d)

/-- A second update changes nothing. -/
def UpdateTwice (n : ℕ) (status : ℤ) (d : Bytes) : Prop :=
  (updateDataBlockBit n status (updateDataBlockBit n status d).2).2 =
    (updateDataBlockBit n status d).2

/-- A free block that is marked busy and then free leaves no trace. -/
def FreeUndoesBusy (n : ℕ) (d : Bytes) : Prop :=
  busy d n = false →
    (updateDataBlockBit n blockFree (updateDataBlockBit n blockBusy d).2).2 = d

/-- No other bit of the byte with the bit of block `n` is set. -/
def Alone (n : ℕ) (d : Bytes) : Prop := ∀ m, m / 8 = n / 8 → m ≠ n → busy d m = false

/-! ### One byte -/

section Byte

variable {b : UInt8} {j k : ℕ} {status : ℤ}

/-- Masking with a bit leaves that bit alone. -/
lemma bitSet_and (hk : k < 8) :
    bitSet (b &&& .ofNat (1 <<< k)) j = (decide (j = k) && bitSet b j) := by
  have hpow : 2 ^ k < 2 ^ 8 := Nat.pow_lt_pow_right (by omega) hk
  rw [bitSet_eq_testBit, bitSet_eq_testBit, UInt8.toNat_and, UInt8.toNat_ofNat', Nat.one_shiftLeft,
    Nat.mod_eq_of_lt hpow, Nat.testBit_and, Nat.testBit_two_pow, Bool.and_comm]
  simp only [eq_comm]

/-- **The four transitions**: the bit gets the status, and if it was set the others are cleared. -/
lemma bitSet_updatedByte (hk : k < 8) (hs : BlockStatus status) :
    bitSet (updatedByte status b k) j =
      if j = k then decide (status = blockBusy) else bitSet b j && !bitSet b k := by
  rcases hs with rfl | rfl
  · -- busy: the status is the bit itself
    show bitSet (if bitSet b k then b &&& .ofNat (1 <<< k) else b ||| .ofNat (1 <<< k)) j = _
    cases hbit : bitSet b k with
    | true =>
      rw [if_pos rfl, bitSet_and hk]
      by_cases hj : j = k
      · simp [hj, hbit]
      · simp [hj]
    | false =>
      rw [if_neg Bool.false_ne_true, bitSet_or hk]
      by_cases hj : j = k <;> simp [hj]
  · -- free: the status is 0
    have hzero : ((blockFree : ℤ).toNat <<< k) = 0 := Nat.zero_shiftLeft k
    rw [updatedByte, hzero]
    cases hbit : bitSet b k with
    | true =>
      rw [if_pos rfl, show b &&& .ofNat 0 = 0 by simp, bitSet_eq_testBit, UInt8.toNat_zero, Nat.zero_testBit]
      by_cases hj : j = k <;> simp [hj]
    | false =>
      rw [if_neg Bool.false_ne_true, show b ||| .ofNat 0 = b by simp]
      by_cases hj : j = k <;> simp [hj, hbit]

end Byte

/-! ### The bitmap -/

section Update

variable {d d' : Bytes} {m n x : ℕ} {status : ℤ}

/-- **What an update does to every bit** of the first bitmap block. -/
theorem busy_update (hn : n ≤ 700) (hs : BlockStatus status) (hm : m < 4096) :
    busy (updateDataBlockBit n status d).2 m =
      if m = n then decide (status = blockBusy)
      else busy d m && !(decide (m / 8 = n / 8) && busy d n) := by
  rw [busy_eq hm, busy_eq hm, busy_eq (by omega), updateDataBlockBit_eq hn hs, bufBit, bufBit, bufBit,
    readBlock_writeBlock_of_lt (by omega)]
  by_cases hbyte : m / 8 = n / 8
  · rw [hbyte, Function.update_self, bitSet_updatedByte (by omega) hs, decide_eq_true rfl,
      Bool.true_and]
    exact if_congr (by omega) rfl rfl
  · have hne : m ≠ n := fun e => hbyte (by rw [e])
    rw [Function.update_of_ne hbyte, if_neg hne, decide_eq_false hbyte, Bool.false_and, Bool.not_false,
      Bool.and_true]

/-- An update is refused when the block is past 700, not from 700 on. -/
lemma update_refused_iff :
    updateDataBlockBit n status d = (-1, d) ↔ (BlockStatus status → 700 < n) := by
  constructor
  · intro h hs
    by_contra hn
    rw [updateDataBlockBit_eq (by omega) hs] at h
    cases congrArg Prod.fst h
  · intro h
    refine if_pos ?_
    by_cases hs : BlockStatus status
    · exact .inl (h hs)
    · exact .inr (not_or.mp hs)

lemma update_apply (hx : ¬ InBlock bitBlock x) : (updateDataBlockBit n status d).2 x = d x := by
  by_cases h : n ≤ 700 ∧ BlockStatus status
  · rw [updateDataBlockBit_eq h.1 h.2]
    exact writeBlock_of_not hx
  · rw [update_refused_iff.mpr fun hs => Nat.not_le.mp fun hn => h ⟨hn, hs⟩]

/-- The other blocks of the bitmap. -/
lemma busy_update_of_ge (hm : 4096 ≤ m) (hlt : m < bitmapBits) :
    busy (updateDataBlockBit n status d).2 m = busy d m := by
  have hlt5 : m < 5 * 4096 := hlt
  refine busy_congr (readBlock_congr fun x hx => update_apply (not_inBlock_of_ne ?_ (by decide) ?_ hx))
  · show m / 4096 + 51 < 2 ^ 24 - superBlockSector
    simp only [superBlockSector]
    omega
  · show m / 4096 + 51 ≠ 51
    omega

lemma readBlock_ext (hbits : ∀ m < 4096, busy d' m = busy d m) :
    readBlock d' bitBlock = readBlock d bitBlock := by
  funext i
  by_cases hi : i < 512
  · refine eq_of_bitSet fun k hk => ?_
    have h := hbits (8 * i + k) (by omega)
    rw [busy_eq (by omega), busy_eq (by omega), bufBit, bufBit] at h
    rwa [show (8 * i + k) / 8 = i by omega, show (8 * i + k) % 8 = k by omega] at h
  · exact (if_neg hi).trans (if_neg hi).symm

/-- Two disks with the same bits in the first bitmap block and the same bytes outside it. -/
lemma disk_ext (hother : ∀ x, ¬ InBlock bitBlock x → d' x = d x)
    (hbits : ∀ m < 4096, busy d' m = busy d m) : d' = d := by
  funext x
  by_cases hx : InBlock bitBlock x
  · obtain ⟨hfrom, hto⟩ := hx
    have h := congrFun (readBlock_ext hbits) (x - sectorSize * lba (sectorOf bitBlock))
    have hlt : x - sectorSize * lba (sectorOf bitBlock) < 512 := by
      rw [Nat.sub_lt_iff_lt_add hfrom]
      exact hto
    rw [readBlock_of_lt hlt, readBlock_of_lt hlt] at h
    rwa [Nat.add_sub_cancel' hfrom] at h
  · exact hother x hx

/-! ### When an update is as expected -/

lemma setsBit_iff_alone (hn : n < 700) (hs : BlockStatus status) :
    SetsBit n status d ↔ (busy d n = true → Alone n d) := by
  constructor
  · intro h hbusy m hm hne
    have hkeep := h.others hn hs m (by simp only [bitmapBits, dataBlockBitSize]; omega) hne
    rw [busy_update (by omega) hs (by omega), if_neg hne, hm, decide_eq_true rfl, hbusy] at hkeep
    simpa using hkeep.symm
  · intro h
    refine ⟨fun _ _ => ?_, fun _ _ m hm hne => ?_, fun _ _ x hx => update_apply hx,
      fun hno => absurd ⟨hn, hs⟩ hno⟩
    · rw [busy_update (by omega) hs (by omega), if_pos rfl]
    · rcases Nat.lt_or_ge m 4096 with hlt | hge
      · rw [busy_update (by omega) hs hlt, if_neg hne]
        by_cases hbyte : m / 8 = n / 8
        · cases hbusy : busy d n with
          | true => rw [h hbusy m hbyte hne, Bool.false_and]
          | false => rw [Bool.and_false, Bool.not_false, Bool.and_true]
        · rw [decide_eq_false hbyte, Bool.false_and, Bool.not_false, Bool.and_true]
      · exact busy_update_of_ge hge hm

/-- For a block or a status that is not managed, to be as expected is to be refused. -/
lemma setsBit_iff_refused (h : ¬ (n < 700 ∧ BlockStatus status)) :
    SetsBit n status d ↔ (BlockStatus status → n ≠ 700) := by
  have hrefused : SetsBit n status d ↔ updateDataBlockBit n status d = (-1, d) :=
    ⟨fun hset => hset.refused h, fun heq => ⟨fun hn hs => absurd ⟨hn, hs⟩ h,
      fun hn hs => absurd ⟨hn, hs⟩ h, fun hn hs => absurd ⟨hn, hs⟩ h, fun _ => heq⟩⟩
  rw [hrefused, update_refused_iff]
  refine forall_congr' fun hs => ?_
  have hge : ¬ n < 700 := fun hn => h ⟨hn, hs⟩
  omega

/-- After two updates of a block the rest of its byte is clear if the bit was set before either. -/
lemma busy_update_update {status' : ℤ} (hn : n ≤ 700) (hs : BlockStatus status)
    (hs' : BlockStatus status') (hm : m < 4096) :
    busy (updateDataBlockBit n status' (updateDataBlockBit n status d).2).2 m =
      if m = n then decide (status' = blockBusy)
      else busy d m && !(decide (m / 8 = n / 8) && (busy d n || decide (status = blockBusy))) := by
  rw [busy_update hn hs' hm, busy_update hn hs hm, busy_update hn hs (by omega), if_pos rfl]
  by_cases hmn : m = n
  · rw [if_pos hmn, if_pos hmn]
  · rw [if_neg hmn, if_neg hmn, if_neg hmn, Bool.and_assoc, ← Bool.not_or, ← Bool.and_or_distrib_left]

lemma updateTwice_iff_alone (hn : n ≤ 700) (hs : BlockStatus status) :
    UpdateTwice n status d ↔ (status = blockBusy → busy d n = false → Alone n d) := by
  constructor
  · rintro h rfl hfree m hm hne
    have hkeep := congrFun (congrArg busy h) m
    rw [busy_update_update hn hs hs (by omega), busy_update hn hs (by omega), if_neg hne, if_neg hne,
      hm, hfree] at hkeep
    simpa using hkeep.symm
  · intro h
    refine disk_ext (fun x hx => update_apply hx) fun m hm => ?_
    rw [busy_update_update hn hs hs hm, busy_update hn hs hm]
    by_cases hmn : m = n
    · rw [if_pos hmn, if_pos hmn]
    · rw [if_neg hmn, if_neg hmn]
      by_cases hbyte : m / 8 = n / 8
      · cases hbusy : busy d n with
        | true => rw [Bool.true_or]
        | false =>
          rcases hs with rfl | rfl
          · rw [h rfl hbusy m hbyte hmn, Bool.false_and, Bool.false_and]
          · rfl
      · rw [decide_eq_false hbyte, Bool.false_and, Bool.false_and]

lemma freeUndoesBusy_iff_alone (hn : n ≤ 700) :
    FreeUndoesBusy n d ↔ (busy d n = false → Alone n d) := by
  constructor
  · intro h hfree m hm hne
    have hkeep := congrFun (congrArg busy (h hfree)) m
    rw [busy_update_update hn (.inl rfl) (.inr rfl) (by omega), if_neg hne, hm, hfree] at hkeep
    simpa using hkeep.symm
  · intro h hfree
    refine disk_ext (fun x hx => (update_apply hx).trans (update_apply hx)) fun m hm => ?_
    rw [busy_update_update hn (.inl rfl) (.inr rfl) hm]
    by_cases hmn : m = n
    · rw [if_pos hmn, hmn, hfree]
      rfl
    · rw [if_neg hmn]
      by_cases hbyte : m / 8 = n / 8
      · rw [h hfree m hbyte hmn, Bool.false_and]
      · rw [decide_eq_false hbyte, Bool.false_and, Bool.not_false, Bool.and_true]

/-- **When an update is as expected.** One update: not for block 700, and for a block that is busy only when
no other bit of the byte is set. To be busy twice, and to be busy and then free again, no other bit of the
byte may be set if the block was free before. -/
theorem setsBit_iff :
    (SetsBit n status d ↔
      (BlockStatus status → n ≠ fileSysBlocks ∧ (n < fileSysBlocks → busy d n = true → Alone n d))) ∧
    (UpdateTwice n status d ↔
      (status = blockBusy → n ≤ fileSysBlocks → busy d n = false → Alone n d)) ∧
    (FreeUndoesBusy n d ↔ (n ≤ fileSysBlocks → busy d n = false → Alone n d)) := by
  refine ⟨?_, ?_, ?_⟩
  · by_cases h : n < 700 ∧ BlockStatus status
    · rw [setsBit_iff_alone h.1 h.2]
      exact ⟨fun halone _ => ⟨Nat.ne_of_lt h.1, fun _ => halone⟩, fun hall => (hall h.2).2 h.1⟩
    · rw [setsBit_iff_refused h]
      exact forall_congr' fun hs => ⟨fun hne => ⟨hne, fun hn => absurd ⟨hn, hs⟩ h⟩, And.left⟩
  · by_cases h : n ≤ 700 ∧ BlockStatus status
    · rw [updateTwice_iff_alone h.1 h.2]
      exact forall_congr' fun _ => ⟨fun halone _ => halone, fun hall => hall h.1⟩
    · have hself : updateDataBlockBit n status d = (-1, d) :=
        update_refused_iff.mpr fun hs => Nat.not_le.mp fun hn => h ⟨hn, hs⟩
      rw [UpdateTwice, hself, hself]
      exact ⟨fun _ hbusy hn => absurd ⟨hn, .inl hbusy⟩ h, fun _ => rfl⟩
  · rcases Nat.lt_or_ge 700 n with hgt | hle
    · rw [FreeUndoesBusy, updateDataBlockBit_of_gt hgt, updateDataBlockBit_of_gt hgt]
      exact ⟨fun _ hn => absurd hgt (Nat.not_lt.mpr hn), fun _ _ => rfl⟩
    · rw [freeUndoesBusy_iff_alone hle]
      exact ⟨fun halone _ => halone, fun hall => hall hle⟩

end Update

section Full

/-- A bitmap without a free block. -/
def fullBitmap : Bytes := fun _ => 255

/-- A bitmap in which every eighth block is free, block 0 too. -/
def eighthFree : Bytes := fun _ => 254

/-- To free block 0 frees the seven blocks behind it too, and so does to mark it busy twice, or busy and
then free. Block 700 is not refused. -/
theorem not_setsBit :
    ¬ SetsBit 0 blockFree fullBitmap ∧ ¬ SetsBit fileSysBlocks blockBusy (fun _ => 0) ∧
    ¬ UpdateTwice 0 blockBusy eighthFree ∧ ¬ FreeUndoesBusy 0 eighthFree := by
  refine ⟨fun h => ?_, fun h => ?_, fun h => ?_, fun h => ?_⟩
  · have hkeep := h.others (by decide) (.inr rfl) 1 (by decide) (by decide)
    exact absurd hkeep (by decide)
  · have hrefused := h.refused fun hmanaged => absurd hmanaged.1 (by decide)
    exact absurd (congrArg Prod.fst hrefused) (by decide)
  · have hkeep := congrFun (congrArg busy h) 1
    exact absurd hkeep (by decide)
  · have hkeep := congrFun (congrArg busy (h (by decide))) 1
    exact absurd hkeep (by decide)

end Full

end Nbos.Fs
