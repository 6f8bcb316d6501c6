import Nbos.Fs.Blocks

/-!
# Reading and writing files

`writeFile` and `readFile` of `file.c`, one block after the other. `writeFile` takes the number of a
block before it allocates the block if there is none, and goes on with the number it has: a write
to a place without a block goes to block 0, the super block (`writeLoop_hole`).

A write for which all the blocks are there already (`Covered`) changes these blocks alone.

The limit on the size of a file is checked modulo `2 ^ 32` (`limitEnforced_iff`).
-/

namespace Nbos.Fs

open Nbos.Lib Nbos.Kernel

/-! ### The source -/

/-- `end - start`, for `end = start + size`; the sum of a pointer past the last address is below
`start`, and then the loops do not start. -/
def span (ptr size : ℕ) : ℕ := if ptr + size < 2 ^ 32 then size else 0

/-- `left`: the rest of the block, or of the buffer. -/
def pieceLeft (n offset : ℕ) : ℕ := min (blockSize - offset % blockSize) n

lemma pieceLeft_pos {n offset : ℕ} (h : n ≠ 0) : 0 < pieceLeft n offset := by
  have : offset % 512 < 512 := Nat.mod_lt _ (by omega)
  simp only [pieceLeft, blockSize]
  omega

/-- The loop of `writeFile` over the `n` bytes that are left of the buffer; `none` is an access
outside of `block_no`. -/
def writeLoop (buf : Bytes) (n offset : ℕ) (i : Inode) (d : Bytes) : Option (Inode × Bytes) :=
  if _hn : n = 0 then some (i, d)
  else if h : offset / blockSize < maxBlocksInFile then
    let blockNo := i.blockNo ⟨offset / blockSize, h⟩
    let (i, d) := if blockNo = 0 then (allocBlock i d).2 else (i, d)
    let arr := readBlock d blockNo.toNat
    let left := pieceLeft n offset
    let arr := overlay arr (offset % blockSize) left buf
    let d := writeBlock d arr blockNo.toNat
    writeLoop (fun k => buf (left + k)) (n - left) (offset + left) i d
  else none
termination_by n
decreasing_by
  have : 0 < pieceLeft n offset := pieceLeft_pos _hn
  omega

/-- `writeFile`; `ptr` is the address of the buffer and `buf` what is in it. -/
def writeFile (file : OpenFile) (i : Inode) (ptr : ℕ) (buf : Bytes) (size : ℕ) (d : Bytes) :
    Option (ℤ × OpenFile × Inode × Bytes) :=
  if ((maxBlocksInFile * blockSize : ℕ) : ℤ) < (file.offset + size) % 2 ^ 32 then
    some (-1, file, i, d)
  else if file.offset < 0 ∧ span ptr size ≠ 0 then none
  else (writeLoop buf (span ptr size) file.offset.toNat i d).map fun r =>
    (0, { file with offset := Int.bmod (file.offset + size) (2 ^ 32) }, r.1, r.2)

/-- The loop of `read_file_at_offset`: whether it gets to the end, and the bytes it has copied. -/
def readLoop (i : Inode) (d : Bytes) (n offset : ℕ) : Option (Bool × List UInt8) :=
  if _hn : n = 0 then some (true, [])
  else if h : offset / blockSize < maxBlocksInFile then
    let blockNo := i.blockNo ⟨offset / blockSize, h⟩
    if blockNo = 0 then some (false, [])
    else
      let arr := readBlock d blockNo.toNat
      let left := pieceLeft n offset
      let piece := (List.range left).map fun k => arr (offset % blockSize + k)
      (readLoop i d (n - left) (offset + left)).map fun r => (r.1, piece ++ r.2)
  else none
termination_by n
decreasing_by
  have : 0 < pieceLeft n offset := pieceLeft_pos _hn
  omega

/-- `read_file_at_offset`, with the bytes copied to the buffer at `buf`. The comparison is one of
words: a negative offset is behind every end. -/
def readFileAtOffset (i : Inode) (offset : ℤ) (buf size : ℕ) (d : Bytes) :
    Option (ℤ × List UInt8) :=
  if (i.size.toNat : ℤ) < offset % 2 ^ 32 then some (-1, [])
  else if offset < 0 ∧ span buf size ≠ 0 then none
  else (readLoop i d (span buf size) offset.toNat).map fun r =>
    (if r.1 then (r.2.length : ℤ) else -1, r.2)

/-- `readFile`. -/
def readFile (file : OpenFile) (i : Inode) (ptr size : ℕ) (d : Bytes) :
    Option (ℤ × OpenFile × List UInt8) :=
  (readFileAtOffset i file.offset ptr size d).map fun r =>
    if r.1 = -1 then (-1, file, r.2) else (r.1, { file with offset := file.offset + r.1 }, r.2)

section ReadLength

variable {i : Inode} {d : Bytes} {n offset buf size : ℕ} {bytes : List UInt8}

lemma length_readLoop_le {b : Bool} (h : readLoop i d n offset = some (b, bytes)) :
    bytes.length ≤ n := by
  induction n using Nat.strong_induction_on generalizing offset b bytes with
  | _ n ih =>
    rw [readLoop] at h
    split at h
    · obtain ⟨-, rfl⟩ := Prod.mk.inj (Option.some_inj.mp h)
      exact Nat.zero_le _
    · rename_i hn
      split at h
      · simp only at h
        split at h
        · obtain ⟨-, rfl⟩ := Prod.mk.inj (Option.some_inj.mp h)
          exact Nat.zero_le _
        · obtain ⟨r, hr, he⟩ := Option.map_eq_some_iff.mp h
          obtain ⟨-, rfl⟩ := Prod.mk.inj he
          have hpos : 0 < pieceLeft n offset := pieceLeft_pos hn
          have hle : pieceLeft n offset ≤ n := Nat.min_le_right ..
          have := ih _ (by omega) (b := r.1) hr
          rw [List.length_append, List.length_map, List.length_range]
          omega
      · cases h

/-- A loop that gets to the end has read all. -/
lemma length_readLoop (h : readLoop i d n offset = some (true, bytes)) : bytes.length = n := by
  induction n using Nat.strong_induction_on generalizing offset bytes with
  | _ n ih =>
    rw [readLoop] at h
    split at h
    · rename_i hn
      obtain ⟨-, rfl⟩ := Prod.mk.inj (Option.some_inj.mp h)
      exact hn.symm
    · rename_i hn
      split at h
      · simp only at h
        split at h
        · obtain ⟨hfalse, -⟩ := Prod.mk.inj (Option.some_inj.mp h)
          cases hfalse
        · obtain ⟨⟨b, rest⟩, hr, he⟩ := Option.map_eq_some_iff.mp h
          obtain ⟨rfl, rfl⟩ := Prod.mk.inj he
          have hpos : 0 < pieceLeft n offset := pieceLeft_pos hn
          have hle : pieceLeft n offset ≤ n := Nat.min_le_right ..
          have := ih _ (by omega) hr
          simp only [List.length_append, List.length_map, List.length_range]
          omega
      · cases h

/-- No more bytes are read than were asked for. -/
lemma length_readFileAtOffset_le {o r : ℤ} (h : readFileAtOffset i o buf size d = some (r, bytes)) :
    bytes.length ≤ size := by
  unfold readFileAtOffset at h
  split at h
  · obtain ⟨-, rfl⟩ := Prod.mk.inj (Option.some_inj.mp h)
    exact Nat.zero_le _
  · split at h
    · cases h
    · obtain ⟨q, hq, he⟩ := Option.map_eq_some_iff.mp h
      obtain ⟨-, rfl⟩ := Prod.mk.inj he
      have hspan : span buf size ≤ size := by
        unfold span
        split <;> omega
      exact (length_readLoop_le hq).trans hspan

end ReadLength

/-! ### One turn of the loop -/

/-- All the blocks of the `n` bytes from `offset` on are there. -/
def Covered (i : Inode) (offset n : ℕ) : Prop :=
  ∀ p < n, ∃ h : (offset + p) / blockSize < maxBlocksInFile, i.blockNo ⟨_, h⟩ ≠ 0

section WriteLoop

variable {buf d : Bytes} {i : Inode} {n offset : ℕ}

lemma writeLoop_zero : writeLoop buf 0 offset i d = some (i, d) := by
  rw [writeLoop, dif_pos rfl]

lemma writeLoop_out (hn : n ≠ 0) (h : ¬ offset / blockSize < maxBlocksInFile) :
    writeLoop buf n offset i d = none := by
  rw [writeLoop, dif_neg hn, dif_neg h]

lemma writeLoop_block (hn : n ≠ 0) (h : offset / blockSize < maxBlocksInFile)
    (hb : i.blockNo ⟨_, h⟩ ≠ 0) :
    writeLoop buf n offset i d =
      writeLoop (fun k => buf (pieceLeft n offset + k)) (n - pieceLeft n offset)
        (offset + pieceLeft n offset) i
        (writeBlock d (overlay (readBlock d (i.blockNo ⟨_, h⟩).toNat) (offset % blockSize)
          (pieceLeft n offset) buf) (i.blockNo ⟨_, h⟩).toNat) := by
  rw [writeLoop, dif_neg hn, dif_pos h]
  simp only [if_neg hb]

/-- **A hole is filled in block 0**: the block just allocated is not the one written. -/
lemma writeLoop_hole (hn : n ≠ 0) (h : offset / blockSize < maxBlocksInFile)
    (hb : i.blockNo ⟨_, h⟩ = 0) :
    writeLoop buf n offset i d =
      writeLoop (fun k => buf (pieceLeft n offset + k)) (n - pieceLeft n offset)
        (offset + pieceLeft n offset) (allocBlock i d).2.1
        (writeBlock (allocBlock i d).2.2 (overlay (readBlock (allocBlock i d).2.2 0)
          (offset % blockSize) (pieceLeft n offset) buf) 0) := by
  rw [writeLoop, dif_neg hn, dif_pos h]
  simp only [hb]
  rfl

lemma allocBlock_inode : (allocBlock i d).2.1 = { i with blockNo := (allocBlock i d).2.1.blockNo } := by
  cases hz : zeroSlot i with
  | none => rw [allocBlock_of_none hz]
  | some j => rw [allocBlock_of_some hz]

/-- A write changes nothing in the inode but the blocks. -/
lemma writeLoop_inode {i' : Inode} {d' : Bytes} (h : writeLoop buf n offset i d = some (i', d')) :
    i' = { i with blockNo := i'.blockNo } := by
  induction n using Nat.strong_induction_on generalizing buf offset i d with
  | _ n ih =>
    by_cases hn : n = 0
    · subst hn
      rw [writeLoop_zero] at h
      obtain ⟨rfl, -⟩ := Prod.mk.inj (Option.some_inj.mp h)
      rfl
    by_cases hin : offset / blockSize < maxBlocksInFile
    swap
    · rw [writeLoop_out hn hin] at h
      cases h
    have hpos : 0 < pieceLeft n offset := pieceLeft_pos hn
    by_cases hb : i.blockNo ⟨_, hin⟩ = 0
    · rw [writeLoop_hole hn hin hb] at h
      have hrest := ih _ (by omega) h
      rw [allocBlock_inode] at hrest
      exact hrest
    · rw [writeLoop_block hn hin hb] at h
      exact ih _ (by omega) h

lemma pieceLeft_le : pieceLeft n offset ≤ n := Nat.min_le_right ..

lemma Covered.head (h : Covered i offset n) (hn : n ≠ 0) :
    ∃ h : offset / blockSize < maxBlocksInFile, i.blockNo ⟨_, h⟩ ≠ 0 := h 0 (by omega)

lemma Covered.tail (h : Covered i offset n) :
    Covered i (offset + pieceLeft n offset) (n - pieceLeft n offset) := by
  intro p hp
  have := h (pieceLeft n offset + p) (by omega)
  rwa [← Nat.add_assoc] at this

lemma Covered.cons (h : offset / blockSize < maxBlocksInFile) (hb : i.blockNo ⟨_, h⟩ ≠ 0)
    (ht : Covered i (offset + pieceLeft n offset) (n - pieceLeft n offset)) :
    Covered i offset n := by
  intro p hp
  by_cases hleft : p < pieceLeft n offset
  · have hdiv : (offset + p) / blockSize = offset / blockSize := by
      simp only [pieceLeft, blockSize] at hleft ⊢
      omega
    simp only [hdiv]
    exact ⟨h, hb⟩
  · have := ht (p - pieceLeft n offset) (by omega)
    rwa [show offset + pieceLeft n offset + (p - pieceLeft n offset) = offset + p by omega] at this

/-- **The rule for a covered write**: it gets to the end, leaves the inode alone, and keeps what
writes to the blocks of the inode keep. -/
theorem writeLoop_of_covered (P : Bytes → Prop)
    (hP : ∀ d arr a, P d → i.blockNo a ≠ 0 → P (writeBlock d arr (i.blockNo a).toNat))
    (h : Covered i offset n) (hd : P d) :
    ∃ d', writeLoop buf n offset i d = some (i, d') ∧ P d' := by
  induction n using Nat.strong_induction_on generalizing buf offset d with
  | _ n ih =>
    by_cases hn : n = 0
    · subst hn
      exact ⟨d, writeLoop_zero, hd⟩
    · obtain ⟨hin, hb⟩ := h.head hn
      have hpos : 0 < pieceLeft n offset := pieceLeft_pos hn
      rw [writeLoop_block hn hin hb]
      exact ih _ (by omega) h.tail (hP _ _ _ hd hb)

end WriteLoop

/-! ### Holes -/

/-- What a run of the allocator needs of the disk: the first bitmap block is where it belongs, the
records of the file system are busy in it, and it is never full. -/
structure Sane (d : Bytes) : Prop where
  bitNo : (readSuperBlock d).dataBlockBitNo 0 = 51
  low : ∀ n < 56, busy d n = true
  gap : busy d 701 = false

section Holes

variable {d arr : Bytes} {i : Inode} {b n offset : ℕ}

lemma Sane.freeBlock (h : Sane d) :
    56 ≤ freeBlock d ∧ freeBlock d ≤ 701 ∧ busy d (freeBlock d) = false := by
  obtain ⟨-, h2, h3⟩ := freeBlock_spec h.bitNo ⟨701, by omega, h.gap⟩
  refine ⟨?_, ?_, h2⟩
  · by_contra hlt
    rw [h.low _ (by omega)] at h2
    cases h2
  · by_contra hgt
    have := h3 701 (by omega)
    rw [h.gap] at this
    cases this

lemma Sane.writeBlock (h : Sane d) (h56 : 56 ≤ b) (h701 : b ≤ 701) :
    Sane (writeBlock d arr b) := by
  have hb : Addressable b := by simp only [Addressable, superBlockSector]; omega
  refine ⟨?_, fun n hn => ?_, ?_⟩
  · rw [readSuperBlock_writeBlock hb (by omega), h.bitNo]
  · rw [busy_writeBlock hb (by omega) (by omega), h.low n hn]
  · rw [busy_writeBlock hb (by omega) (by omega), h.gap]

lemma Sane.takenBlock (h : Sane d) : Sane (takenBlock (Fs.freeBlock d) d) := by
  obtain ⟨h56, h701, hfree⟩ := h.freeBlock
  generalize Fs.freeBlock d = f at *
  rcases Nat.lt_or_ge 700 f with hf | hf
  · -- the bits above 700 are not marked
    have htaken : Fs.takenBlock f d = Fs.writeBlock d (fun _ => 0) f :=
      congrArg Prod.snd (updateDataBlockBit_of_gt hf)
    rw [htaken]
    exact h.writeBlock h56 h701
  · refine ⟨?_, fun n hn => ?_, ?_⟩
    · rw [readSuperBlock_takenBlock (by omega) h56 hfree, h.bitNo]
    · rw [busy_takenBlock hf (by omega) hfree (by omega), h.low n hn, Bool.or_true]
    · rw [busy_takenBlock hf (by omega) hfree (by omega), h.gap, decide_eq_false (by omega)]
      rfl

/-- The blocks of an inode that a write may go to. -/
def ListedHigh (i : Inode) : Prop :=
  ∀ a, i.blockNo a ≠ 0 → 56 ≤ (i.blockNo a).toNat ∧ (i.blockNo a).toNat ≤ 701

lemma ListedHigh.addressable (h : ListedHigh i) {a : Fin maxBlocksInFile} (ha : i.blockNo a ≠ 0) :
    Addressable (i.blockNo a).toNat := by
  have := (h a ha).2
  simp only [Addressable, superBlockSector]
  omega

lemma ListedHigh.withBlock (h : ListedHigh i) {f : ℕ} (h56 : 56 ≤ f) (h701 : f ≤ 701)
    (j : Fin maxBlocksInFile) : ListedHigh (withBlock i j f) := by
  intro a ha
  rw [withBlock_blockNo] at ha ⊢
  split at ha
  · rename_i haj
    rw [if_pos haj, UInt32.toNat_ofNat', Nat.mod_eq_of_lt (by omega)]
    exact ⟨h56, h701⟩
  · rename_i haj
    rw [if_neg haj]
    exact h a ha

/-- The writes to the blocks of an inode leave the super block alone. -/
lemma readBlock_zero_of_covered {buf : Bytes} (hi : ListedHigh i) (h : Covered i offset n) :
    ∃ d', writeLoop buf n offset i d = some (i, d') ∧ readBlock d' 0 = readBlock d 0 :=
  writeLoop_of_covered (fun d' => readBlock d' 0 = readBlock d 0) (fun d' arr a hd ha => by
    have := (hi a ha).1
    rw [readBlock_writeBlock_ne (by decide) (hi.addressable ha) (by omega), hd]) h rfl

lemma zeroSlot_of_hole {a : Fin maxBlocksInFile} (hb : i.blockNo a = 0) :
    ∃ j, zeroSlot i = some j := by
  refine Option.ne_none_iff_exists'.mp fun hz => ?_
  exact zeroSlot_eq_none.mp hz a hb

/-- What a turn of the loop does in a hole. -/
lemma writeLoop_hole_eq {buf : Bytes} {j : Fin maxBlocksInFile} (hd : Sane d) (hn : n ≠ 0)
    (h : offset / blockSize < maxBlocksInFile) (hb : i.blockNo ⟨_, h⟩ = 0)
    (hz : zeroSlot i = some j) :
    writeLoop buf n offset i d =
      writeLoop (fun k => buf (pieceLeft n offset + k)) (n - pieceLeft n offset)
        (offset + pieceLeft n offset) (withBlock i j (freeBlock d))
        (writeBlock (takenBlock (freeBlock d) d) (overlay (readBlock d 0) (offset % blockSize)
          (pieceLeft n offset) buf) 0) := by
  obtain ⟨h56, h701, hfree⟩ := hd.freeBlock
  rw [writeLoop_hole hn h hb, allocBlock_of_some hz]
  simp only
  rw [← takenBlock, readBlock_takenBlock (by omega) (by omega) hfree (by decide) (by omega)
    (by decide), withBlock]

lemma pieceLeft_fits : offset % blockSize + pieceLeft n offset ≤ 512 := by
  simp only [pieceLeft, blockSize]
  omega

/-- **A write into a hole can damage the super block**: if a block is not there, some contents of
the buffer leave block 0 changed. The induction is on the bytes left: either a later hole does the
damage, and this one writes back what is in block 0, or this is the last one. -/
theorem writeLoop_uncovered (hd : Sane d) (hi : ListedHigh i) (h : ¬ Covered i offset n) :
    ∃ buf, ∀ i' d', writeLoop buf n offset i d = some (i', d') →
      readBlock d' 0 ≠ readBlock d 0 ∧ ListedHigh i' := by
  induction n using Nat.strong_induction_on generalizing offset i d with
  | _ n ih =>
    by_cases hn : n = 0
    · subst hn
      exact absurd (fun p hp => absurd hp (Nat.not_lt_zero p)) h
    by_cases hin : offset / blockSize < maxBlocksInFile
    swap
    · refine ⟨fun _ => 0, fun i' d' he => ?_⟩
      rw [writeLoop_out hn hin] at he
      cases he
    have hpos : 0 < pieceLeft n offset := pieceLeft_pos hn
    have hfits : offset % blockSize + pieceLeft n offset ≤ 512 := pieceLeft_fits
    -- the buffer with `piece` in front of `buf`
    have happend : ∀ piece buf : Bytes, ∃ buf' : Bytes,
        (∀ k < pieceLeft n offset, buf' k = piece k) ∧
          (fun k => buf' (pieceLeft n offset + k)) = buf := fun piece buf =>
      ⟨overlay (fun k => buf (k - pieceLeft n offset)) 0 (pieceLeft n offset) piece, fun k hk => by
        rw [overlay_of_mem (by omega) (by omega), Nat.sub_zero], funext fun k => by
        rw [overlay_of_not_mem (by omega), Nat.add_sub_cancel_left]⟩
    by_cases hb : i.blockNo ⟨_, hin⟩ = 0
    · obtain ⟨h56, h701, hfree⟩ := hd.freeBlock
      obtain ⟨j, hz⟩ := zeroSlot_of_hole hb
      have hi' := hi.withBlock h56 h701 j
      have hzero : readBlock (takenBlock (freeBlock d) d) 0 = readBlock d 0 :=
        readBlock_takenBlock (by omega) (by omega) hfree (by decide) (by omega) (by decide)
      by_cases hrest : Covered (withBlock i j (freeBlock d)) (offset + pieceLeft n offset)
          (n - pieceLeft n offset)
      · refine ⟨fun _ => readBlock d 0 (offset % blockSize) + 1, fun i' d' he => ?_⟩
        rw [writeLoop_hole_eq hd hn hin hb hz] at he
        obtain ⟨d'', he', h0⟩ := readBlock_zero_of_covered hi' hrest
        obtain ⟨rfl, rfl⟩ := Prod.mk.inj (Option.some_inj.mp (he'.symm.trans he))
        refine ⟨fun hsame => ?_, hi'⟩
        have hbyte := congrFun (h0.symm.trans hsame) (offset % blockSize)
        rw [readBlock_writeBlock_of_lt (by omega)] at hbyte
        have hbyte := (overlay_add hpos).symm.trans hbyte
        simp at hbyte
      · obtain ⟨buf, hbuf⟩ := ih _ (by omega) hd.takenBlock hi' hrest
        obtain ⟨buf', hpiece, hback⟩ := happend (fun k => readBlock d 0 (offset % blockSize + k)) buf
        refine ⟨buf', fun i' d' he => ?_⟩
        rw [writeLoop_hole_eq hd hn hin hb hz, overlay_eq_self hpiece, hback, ← hzero,
          writeBlock_readBlock] at he
        rw [← hzero]
        exact hbuf i' d' he
    · -- the block is there, so a later one is not
      have hrest : ¬ Covered i (offset + pieceLeft n offset) (n - pieceLeft n offset) :=
        fun hc => h (hc.cons hin hb)
      obtain ⟨hb56, hb701⟩ := hi _ hb
      have hd' : Sane (writeBlock d (overlay (readBlock d (i.blockNo ⟨_, hin⟩).toNat)
          (offset % blockSize) (pieceLeft n offset) fun _ => 0) (i.blockNo ⟨_, hin⟩).toNat) :=
        hd.writeBlock hb56 hb701
      obtain ⟨buf, hbuf⟩ := ih _ (by omega) hd' hi hrest
      obtain ⟨buf', hpiece, hback⟩ := happend (fun _ => 0) buf
      refine ⟨buf', fun i' d' he => ?_⟩
      rw [writeLoop_block hn hin hb, hback, overlay_congr hpiece] at he
      have := hbuf i' d' he
      rwa [readBlock_writeBlock_ne (by decide) (hi.addressable hb) (by omega)] at this

end Holes

/-! ### What a write may change -/

/-- What `writeFile` may change: the blocks that the inode lists in the end, and in the bitmap the
bits of the blocks it has got. -/
structure WriteFrame (c : Files) (k : ℕ) (i i' : Inode) (d' : Bytes) : Prop where
  bytes : ∀ x, ¬ InBlock bitBlock x →
    (∀ a, i'.blockNo a ≠ 0 → ¬ InBlock (i'.blockNo a).toNat x) → d' x = c.disk x
  bits : ∀ n < 4096, busy d' n ≠ busy c.disk n →
    ∃ a, i.blockNo a = 0 ∧ i'.blockNo a ≠ 0 ∧ (i'.blockNo a).toNat = n
  records : ∀ b ≤ inodeBlockSize, readBlock d' b = readBlock c.disk b
  others : ∀ k' < c.count, k' ≠ k → ∀ a, (c.file k').inode.blockNo a ≠ 0 →
    readBlock d' ((c.file k').inode.blockNo a).toNat =
      readBlock c.disk ((c.file k').inode.blockNo a).toNat

section Frame

variable {c : Files} {d : Bytes} {i : Inode} {k n offset ptr size : ℕ} {file : OpenFile}

lemma Files.Inv.sane (h : c.Inv) : Sane c.disk :=
  ⟨h.records.bitNo, h.low, h.high 701 (by omega) (by omega)⟩

/-- The inode lists blocks of the file only, and possibly not all of them. -/
def Files.Lists (c : Files) (k : ℕ) (i : Inode) : Prop :=
  ∀ a, i.blockNo a = 0 ∨ i.blockNo a = (c.file k).inode.blockNo a

lemma Files.Inv.listedHigh (h : c.Inv) (hk : k < c.count) (hi : c.Lists k i) : ListedHigh i := by
  intro a ha
  have he := (hi a).resolve_left ha
  obtain ⟨h56, h700, -⟩ := h.area k hk a (he ▸ ha)
  rw [he]
  exact ⟨h56, by omega⟩

/-- A covered write is a run of writes to listed blocks. -/
theorem Files.run_of_covered {P : Files → ℕ → Prop} {buf : Bytes} (hk : k < c.count)
    (h : Covered (c.file k).inode offset n) :
    ∃ d', writeLoop buf n offset (c.file k).inode c.disk = some ((c.file k).inode, d') ∧
      Relation.ReflTransGen (Files.Step P) c ⟨d', c.count, c.file⟩ :=
  writeLoop_of_covered (fun d' => Relation.ReflTransGen (Files.Step P) c ⟨d', c.count, c.file⟩)
    (fun _ arr a hd ha => hd.tail (.data ⟨_, c.count, c.file⟩ k a arr hk ha)) h .refl

lemma Files.Inv.writeFrame (h : c.Inv) (hk : k < c.count) (hi : c.Lists k i) {d' : Bytes}
    (hd : ∀ x, (∀ a, i.blockNo a ≠ 0 → ¬ InBlock (i.blockNo a).toNat x) → d' x = c.disk x) :
    WriteFrame c k i i d' := by
  have hhigh := h.listedHigh hk hi
  have hblock : ∀ b, Addressable b → (∀ a, i.blockNo a ≠ 0 → b ≠ (i.blockNo a).toNat) →
      readBlock d' b = readBlock c.disk b := fun b hb hne =>
    readBlock_congr fun x hx => hd x fun a ha =>
      not_inBlock_of_ne hb (hhigh.addressable ha) (hne a ha) hx
  have hlow : ∀ b < 56, readBlock d' b = readBlock c.disk b := fun b hb => by
    refine hblock b (by simp only [Addressable, superBlockSector]; omega) fun a ha => ?_
    have := (hhigh a ha).1
    omega
  refine ⟨fun x _ hx => hd x hx, fun n hn hne => ?_, fun b hb => ?_, fun k' hk' hkk a ha => ?_⟩
  · rw [busy_eq hn, busy_eq hn, hlow _ (by decide)] at hne
    exact absurd rfl hne
  · simp only [inodeBlockSize] at hb
    exact hlow b (by omega)
  · refine hblock _ (h.addressable hk' ha) fun a' ha' he => ?_
    -- a block of two files
    have he' := (hi a').resolve_left ha'
    rw [he'] at he
    exact hkk (h.inj k' hk' k hk a a' ha (UInt32.toNat_inj.mp he)).1

/-- **When a write changes nothing but its file**: from the disk of `init_file` on, for every inode
whose blocks are those of a file, and every offset and size that `writeFile` accepts, it does so
whatever is written exactly if all the blocks written are there already. -/
theorem writeFile_frame_iff {junk : ℕ → ℕ → Bytes} {d₀ : Bytes} (hd : initFile junk d₀ = some d)
    (h : Relation.ReflTransGen (Files.Step Files.Meets) (Files.init d) c) (hk : k < c.count)
    (hi : c.Lists k i)
    (haccept : (file.offset + size) % 2 ^ 32 ≤ ((maxBlocksInFile * blockSize : ℕ) : ℤ)) :
    (∀ buf, ∃ file' i' d', writeFile file i ptr buf size c.disk = some (0, file', i', d') ∧
      WriteFrame c k i i' d') ↔
      span ptr size = 0 ∨ 0 ≤ file.offset ∧ Covered i file.offset.toNat (span ptr size) := by
  obtain ⟨d', hd', hinst⟩ := initFile_spec junk d₀
  obtain rfl : d' = d := Option.some_inj.mp (hd'.symm.trans hd)
  have hinv := Files.inv_of_run hinst h
  have hloop : ∀ buf, ¬ (file.offset < 0 ∧ span ptr size ≠ 0) →
      writeFile file i ptr buf size c.disk =
        (writeLoop buf (span ptr size) file.offset.toNat i c.disk).map fun r =>
          (0, { file with offset := Int.bmod (file.offset + size) (2 ^ 32) }, r.1, r.2) :=
    fun buf hneg => by rw [writeFile, if_neg (not_lt.mpr haccept), if_neg hneg]
  constructor
  · intro hall
    by_contra hcond
    push Not at hcond
    obtain ⟨hn, hcov⟩ := hcond
    by_cases hneg : file.offset < 0
    · obtain ⟨_, _, _, he, -⟩ := hall fun _ => 0
      rw [writeFile, if_neg (not_lt.mpr haccept), if_pos ⟨hneg, hn⟩] at he
      cases he
    · obtain ⟨buf, hbuf⟩ := writeLoop_uncovered hinv.sane (hinv.listedHigh hk hi)
        (hcov (not_lt.mp hneg))
      obtain ⟨file', i', d'', he, hframe⟩ := hall buf
      rw [hloop buf fun hc => hneg hc.1, Option.map_eq_some_iff] at he
      obtain ⟨r, hr, he⟩ := he
      simp only [Prod.mk.injEq] at he
      obtain ⟨-, -, rfl, rfl⟩ := he
      exact (hbuf _ _ hr).1 (hframe.records 0 (Nat.zero_le _))
  · intro hcond buf
    have hcov : Covered i file.offset.toNat (span ptr size) := by
      rcases hcond with h0 | ⟨-, hcov⟩
      · rw [h0]
        exact fun p hp => absurd hp (Nat.not_lt_zero p)
      · exact hcov
    obtain ⟨d'', he, hframe⟩ := @writeLoop_of_covered buf c.disk i _ _ (fun d'' => ∀ x,
      (∀ a, i.blockNo a ≠ 0 → ¬ InBlock (i.blockNo a).toNat x) → d'' x = c.disk x)
      (fun _ _ a hprev ha x hx => by rw [writeBlock_of_not (hx a ha), hprev x hx]) hcov
      fun _ _ => rfl
    rw [hloop buf (by omega), he]
    exact ⟨_, i, d'', rfl, hinv.writeFrame hk hi hframe⟩

end Frame

/-! ### The limit -/

/-- A call is refused just when the file would grow past its limit, and leaves the offset of the file
between where it was and the limit. -/
def LimitEnforced (file : OpenFile) (i : Inode) (ptr : ℕ) (buf : Bytes) (size : ℕ) (d : Bytes) :
    Prop :=
  ∃ r file' i' d', writeFile file i ptr buf size d = some (r, file', i', d') ∧
    (r = 0 ↔ file.offset + size ≤ ((maxBlocksInFile * blockSize : ℕ) : ℤ)) ∧
    file.offset ≤ file'.offset ∧ file'.offset ≤ ((maxBlocksInFile * blockSize : ℕ) : ℤ)

section Limit

variable {buf d : Bytes} {i : Inode} {n offset ptr size : ℕ} {file : OpenFile}

/-- The loop gets to the end of a write that ends before the limit. -/
lemma writeLoop_of_le (h : offset + n ≤ maxBlocksInFile * blockSize) :
    ∃ r, writeLoop buf n offset i d = some r := by
  induction n using Nat.strong_induction_on generalizing buf offset i d with
  | _ n ih =>
    by_cases hn : n = 0
    · subst hn
      exact ⟨_, writeLoop_zero⟩
    have hin : offset / blockSize < maxBlocksInFile := by
      simp only [blockSize, maxBlocksInFile] at h ⊢
      omega
    have hpos : 0 < pieceLeft n offset := pieceLeft_pos hn
    have hle : pieceLeft n offset ≤ n := pieceLeft_le
    by_cases hb : i.blockNo ⟨_, hin⟩ = 0
    · rw [writeLoop_hole hn hin hb]
      exact ih _ (by omega) (by omega)
    · rw [writeLoop_block hn hin hb]
      exact ih _ (by omega) (by omega)

/-- A sum that wraps is small, so it is accepted. -/
lemma not_limitEnforced (hmax : file.offset ≤ ((maxBlocksInFile * blockSize : ℕ) : ℤ))
    (hsize : size < 2 ^ 32) (hwrap : 2 ^ 32 ≤ file.offset + size) :
    ¬ LimitEnforced file i ptr buf size d := by
  rintro ⟨r, file', i', d', hw, hr, -⟩
  have hmax : file.offset ≤ 10240 := hmax
  have haccept : ¬ ((maxBlocksInFile * blockSize : ℕ) : ℤ) < (file.offset + size) % 2 ^ 32 := by
    simp only [maxBlocksInFile, blockSize]
    omega
  have hr : r = 0 ↔ file.offset + size ≤ 10240 := hr
  rw [writeFile, if_neg haccept] at hw
  split at hw
  · cases hw
  · obtain ⟨q, -, he⟩ := Option.map_eq_some_iff.mp hw
    have hzero : 0 = r := (Prod.mk.inj he).1
    omega

/-- **When the limit is enforced**: from an offset that keeps to it, if the sum of the offset and the
size is a 32-bit number. -/
theorem limitEnforced_iff (h0 : 0 ≤ file.offset)
    (hmax : file.offset ≤ ((maxBlocksInFile * blockSize : ℕ) : ℤ)) (hsize : size < 2 ^ 32) :
    LimitEnforced file i ptr buf size d ↔ file.offset + size < 2 ^ 32 := by
  constructor
  · intro h
    by_contra hwrap
    exact not_limitEnforced hmax hsize (not_lt.mp hwrap) h
  · intro hfit
    have hmod : (file.offset + size) % 2 ^ 32 = file.offset + size :=
      Int.emod_eq_of_lt (by omega) hfit
    by_cases hle : file.offset + size ≤ ((maxBlocksInFile * blockSize : ℕ) : ℤ)
    · have hend : file.offset.toNat + span ptr size ≤ maxBlocksInFile * blockSize := by
        unfold span
        split <;> omega
      obtain ⟨⟨i', d'⟩, hloop⟩ := @writeLoop_of_le buf d i _ _ hend
      have hoffset : Int.bmod (file.offset + size) (2 ^ 32) = file.offset + size := by
        have hle : file.offset + size ≤ 10240 := hle
        exact Int.bmod_eq_of_le (by omega) (by omega)
      refine ⟨0, { file with offset := file.offset + size }, i', d', ?_, iff_of_true rfl hle, ?_, hle⟩
      · rw [writeFile, hmod, if_neg (not_lt.mpr hle), if_neg (by omega), hloop, hoffset]
        rfl
      · show file.offset ≤ file.offset + size
        omega
    · refine ⟨-1, file, i, d, ?_, iff_of_false (by decide) hle, le_rfl, hmax⟩
      rw [writeFile, hmod, if_pos (not_le.mp hle)]

end Limit

/-! ### The shell on a zeroed disk -/

/-- An open file at an offset. -/
def fileAt (offset : ℤ) : OpenFile := ⟨oRdwr, offset, 0, 0, true⟩

/-- A write up to the limit is accepted, and one past it is not. -/
theorem limitEnforced_iff_limit :
    LimitEnforced (fileAt 10000) (inodeAt (fun _ => 0) (slot 0)) 0 (fun _ => 0) 240 (fun _ => 0) ∧
    LimitEnforced (fileAt 10000) (inodeAt (fun _ => 0) (slot 0)) 0 (fun _ => 0) 241 (fun _ => 0) :=
  ⟨(limitEnforced_iff (by decide) (by decide) (by decide)).mpr (by decide),
    (limitEnforced_iff (by decide) (by decide) (by decide)).mpr (by decide)⟩

/-- A size that takes the offset around. -/
theorem limit_wraps : ¬ ∀ (file : OpenFile) (i : Inode) (ptr : ℕ) (buf : Bytes) (size : ℕ) (d : Bytes),
    0 ≤ file.offset → file.offset ≤ ((maxBlocksInFile * blockSize : ℕ) : ℤ) → size < 2 ^ 32 →
    LimitEnforced file i ptr buf size d := by
  intro hall
  exact not_limitEnforced (by decide) (by decide) (by decide)
    (hall (fileAt 1) (inodeAt (fun _ => 0) (slot 0)) 4096 (fun _ => 0) (2 ^ 32 - 1) (fun _ => 0)
      (by decide) (by decide) (by decide))

lemma blocksFrom_ne_zero {first n : ℕ} {a : Fin maxBlocksInFile} (h : first + 20 < 2 ^ 32)
    (hfirst : 0 < first) (ha : (a : ℕ) < n) : blocksFrom first n a ≠ 0 := by
  intro he
  have ha20 : (a : ℕ) < 20 := a.isLt
  have := congrArg UInt32.toNat he
  rw [blocksFrom, if_pos ha, UInt32.toNat_ofNat', Nat.mod_eq_of_lt (by omega)] at this
  exact absurd this (by simp only [UInt32.toNat_zero]; omega)

lemma covered_one {i : Inode} {offset : ℕ} {h : offset / blockSize < maxBlocksInFile}
    (hb : i.blockNo ⟨_, h⟩ ≠ 0) : Covered i offset 1 := by
  intro p hp
  obtain rfl : p = 0 := by omega
  exact ⟨h, hb⟩

theorem writeFile_frame_iff_zeroDisk : ∃ d, initFile (fun _ _ _ => 0) (fun _ => 0) = some d ∧
    ∃ file' i' d', writeFile (fileAt 0) (inodeAt d (slot 2)) 0 (fun _ => 7) 1 d =
      some (0, file', i', d') ∧ WriteFrame (Files.init d) 2 (inodeAt d (slot 2)) i' d' := by
  obtain ⟨d, hd, hinst⟩ := initFile_spec (fun _ _ _ => 0) fun _ => 0
  have hb : (inodeAt d (slot 2)).blockNo ⟨0 / blockSize, by decide⟩ ≠ 0 := by
    rw [hinst.shellBlocks]
    exact blocksFrom_ne_zero (by decide) (by decide) (by decide)
  have hframe := (@writeFile_frame_iff (Files.init d) d _ 2 0 1 (fileAt 0) _ _ hd .refl
    (by show 2 < 3; decide) (fun _ => .inr rfl) (by decide)).mpr (.inr ⟨le_rfl, covered_one hb⟩)
  exact ⟨d, hd, hframe _⟩

/-- A byte written behind the 15 blocks of the shell gets into the super block. -/
theorem writeFile_hole_zeroDisk : ∃ d, initFile (fun _ _ _ => 0) (fun _ => 0) = some d ∧
    (inodeAt d (slot 2)).mode = regularFile ∧
    ∃ file' i' d', writeFile (fileAt 7680) (inodeAt d (slot 2)) 0 (fun _ => 7) 1 d =
      some (0, file', i', d') ∧ readBlock d' superBlockNo ≠ readBlock d superBlockNo := by
  obtain ⟨d, hd, hinst⟩ := initFile_spec (fun _ _ _ => 0) fun _ => 0
  have hb : (inodeAt d (slot 2)).blockNo ⟨7680 / blockSize, by decide⟩ = 0 := by
    rw [hinst.shellBlocks]
    decide
  obtain ⟨j, hz⟩ := zeroSlot_of_hole hb
  have hleft : pieceLeft 1 7680 = 1 := by decide
  have hsane : Sane d := (Files.inv_init hinst).sane
  have hloop := @writeLoop_hole_eq d _ 1 7680 (fun _ => 7) j hsane (by decide) (by decide) hb hz
  rw [hleft, Nat.sub_self, writeLoop_zero] at hloop
  have hspan : span 0 1 = 1 := by decide
  have hwrite : writeFile (fileAt 7680) (inodeAt d (slot 2)) 0 (fun _ => 7) 1 d =
      (writeLoop (fun _ => 7) 1 7680 (inodeAt d (slot 2)) d).map fun r =>
        (0, { fileAt 7680 with offset := Int.bmod (7680 + 1) (2 ^ 32) }, r.1, r.2) := by
    rw [writeFile, if_neg (by decide), if_neg (by decide), hspan]
    rfl
  rw [hloop, Option.map_some] at hwrite
  refine ⟨d, hd, hinst.shellMode, _, _, _, hwrite, fun hsame => ?_⟩
  -- the first free inode is in block 1, so the super block starts with 1
  have hfree : (readSuperBlock d).freeInodeBlockNo.toNat = 1 :=
    congrArg Prod.fst hinst.records.list.head
  have hword : (UInt32.ofNat (get32 (readBlock d 0) 0)).toNat = 1 := hfree
  rw [UInt32.toNat_ofNat', Nat.mod_eq_of_lt (get32_lt _ _), get32] at hword
  have hbyte := congrFun hsame 0
  rw [readBlock_writeBlock_of_lt (by omega)] at hbyte
  have hbyte : (7 : UInt8) = readBlock d 0 0 := hbyte
  rw [← hbyte] at hword
  have h7 : (7 : UInt8).toNat = 7 := rfl
  omega

end Nbos.Fs
