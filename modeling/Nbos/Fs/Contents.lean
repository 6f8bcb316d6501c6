import Nbos.Fs.File

/-!
# The bytes of a file

Where the bytes of a file are on the disk, what `writeFile` puts there and what `read_file_at_offset`
gets. A write whose blocks are there writes these places alone (`writeLoop_written`), and a read gets
what they hold (`readLoop_of_covered`). The controller takes the low 24 bits of a sector number, so two
block numbers may stand for one place; `roundTrip_iff` says when what has been written is read again.

A read stops at the first block that is not there. Where there is none it goes on behind `block_no`
(`readIndex_iff`).
-/

namespace Nbos.Fs

open Nbos.Lib Nbos.Kernel

/-- Where the byte `x` of a file is on the disk. -/
def filePos (i : Inode) (x : ℕ) : ℕ :=
  if h : x / blockSize < maxBlocksInFile then
    sectorSize * lba (sectorOf (i.blockNo ⟨_, h⟩).toNat) + x % blockSize
  else 0

/-- The `n` bytes of a file from `offset` on. -/
def fileBytes (i : Inode) (d : Bytes) (offset n : ℕ) : List UInt8 :=
  (List.range n).map fun k => d (filePos i (offset + k))

/-- The `n` bytes of `buf` are in the file, from `offset` on, and nothing else has changed. Of bytes with
one place the last one is there. -/
structure Written (i : Inode) (offset n : ℕ) (buf d d' : Bytes) : Prop where
  bytes : ∀ p < n, (∀ q, p < q → q < n → filePos i (offset + q) ≠ filePos i (offset + p)) →
    d' (filePos i (offset + p)) = buf p
  frame : ∀ x, (∀ p < n, filePos i (offset + p) ≠ x) → d' x = d x

/-- The bytes of the inode record at `s`. -/
def InRecord (s : ℕ × ℕ) (x : ℕ) : Prop :=
  512 * lba (sectorOf s.1) + s.2 ≤ x ∧ x < 512 * lba (sectorOf s.1) + s.2 + 116

/-- No two of the `n` bytes have one place. -/
def Separate (i : Inode) (offset n : ℕ) : Prop :=
  ∀ p < n, ∀ q < n, filePos i (offset + p) = filePos i (offset + q) → p = q

section Places

variable {i : Inode} {d d' buf : Bytes} {n m offset x k b o : ℕ}

lemma filePos_of_lt (h : x / blockSize < maxBlocksInFile) :
    filePos i x = 512 * lba (sectorOf (i.blockNo ⟨_, h⟩).toNat) + x % 512 := dif_pos h

/-- The bytes of one piece are next to each other. -/
lemma filePos_piece (h : offset / blockSize < maxBlocksInFile) (hk : k < pieceLeft n offset) :
    filePos i (offset + k) =
      512 * lba (sectorOf (i.blockNo ⟨_, h⟩).toNat) + (offset % 512 + k) := by
  have hdiv : (offset + k) / blockSize = offset / blockSize := by
    simp only [pieceLeft, blockSize] at hk ⊢
    omega
  have hmod : (offset + k) % 512 = offset % 512 + k := by
    simp only [pieceLeft, blockSize] at hk
    omega
  have h' : (offset + k) / blockSize < maxBlocksInFile := hdiv ▸ h
  rw [filePos_of_lt h', hmod]
  simp only [hdiv]

/-- A byte of a file is in its block. -/
lemma inBlock_filePos (h : x / blockSize < maxBlocksInFile) :
    InBlock (i.blockNo ⟨_, h⟩).toNat (filePos i x) := by
  have hlt : x % 512 < 512 := Nat.mod_lt _ (by decide)
  rw [filePos_of_lt h, InBlock]
  simp only [sectorSize]
  omega

/-- The record of an inode is in its block. -/
lemma InRecord.inBlock {s : ℕ × ℕ} (h : InRecord s x) (hs : s.2 + 116 ≤ 512) : InBlock s.1 x := by
  unfold InRecord at h
  unfold InBlock
  simp only [sectorSize]
  omega

lemma fileBytes_add : fileBytes i d offset (n + m) =
    fileBytes i d offset n ++ fileBytes i d (offset + n) m := by
  simp only [fileBytes, List.range_add, List.map_append, List.map_map, Function.comp_def,
    Nat.add_assoc]

@[simp] lemma length_fileBytes : (fileBytes i d offset n).length = n := by
  rw [fileBytes, List.length_map, List.length_range]

lemma getElem_fileBytes {k : ℕ} (h : k < (fileBytes i d offset n).length) :
    (fileBytes i d offset n)[k] = d (filePos i (offset + k)) := by
  simp only [fileBytes, List.getElem_map, List.getElem_range]

/-- What is written to a part of a block. -/
lemma writeBlock_overlay (h : o + n ≤ 512) :
    writeBlock d (overlay (readBlock d b) o n buf) b = overlay d (512 * lba (sectorOf b) + o) n buf := by
  funext x
  by_cases hx : InBlock b x
  · obtain ⟨k, hk, rfl⟩ : ∃ k < 512, x = 512 * lba (sectorOf b) + k := by
      unfold InBlock at hx
      simp only [sectorSize] at hx
      exact ⟨x - 512 * lba (sectorOf b), by omega, by omega⟩
    have hwrite : writeBlock d (overlay (readBlock d b) o n buf) b (512 * lba (sectorOf b) + k) =
        overlay (readBlock d b) o n buf k := overlay_add hk
    rw [hwrite]
    by_cases hko : o ≤ k ∧ k < o + n
    · rw [overlay_of_mem hko.1 hko.2, overlay_of_mem (by omega) (by omega)]
      congr 1
      omega
    · rw [overlay_of_not_mem (by omega), overlay_of_not_mem (by omega), readBlock_of_lt hk]
  · rw [writeBlock_of_not hx, overlay_of_not_mem]
    unfold InBlock at hx
    simp only [sectorSize] at hx
    omega

/-- An inode written back is written to its record. -/
lemma writeInode_eq (h : i.myInodeOffset.toNat + 116 ≤ 512) : writeInode i d =
    overlay d (512 * lba (sectorOf i.myInodeBlockNo.toNat) + i.myInodeOffset.toNat) 116
      (wordBytes (inodeWord i)) := writeBlock_overlay h

/-! ### Writing -/

lemma Written.zero : Written i offset 0 buf d d :=
  ⟨fun p hp => absurd hp (Nat.not_lt_zero p), fun _ _ => rfl⟩

/-- **What a covered write writes.** -/
theorem writeLoop_written (h : Covered i offset n) :
    ∃ d', writeLoop buf n offset i d = some (i, d') ∧ Written i offset n buf d d' := by
  induction n using Nat.strong_induction_on generalizing buf offset d with
  | _ n ih =>
    by_cases hn : n = 0
    · subst hn
      exact ⟨d, writeLoop_zero, .zero⟩
    obtain ⟨hin, hb⟩ := h.head hn
    have hpos : 0 < pieceLeft n offset := pieceLeft_pos hn
    have hle : pieceLeft n offset ≤ n := pieceLeft_le
    obtain ⟨d', hd', hw⟩ := @ih (n - pieceLeft n offset) (by omega)
      (overlay d (512 * lba (sectorOf (i.blockNo ⟨_, hin⟩).toNat) + offset % 512)
        (pieceLeft n offset) buf) (fun k => buf (pieceLeft n offset + k)) _ h.tail
    refine ⟨d', ?_, fun p hp hlast => ?_, fun x hx => ?_⟩
    · rw [writeLoop_block hn hin hb, writeBlock_overlay pieceLeft_fits]
      exact hd'
    · by_cases hleft : p < pieceLeft n offset
      · -- a byte of this piece: no later one has its place
        rw [hw.frame, filePos_piece hin hleft, ← Nat.add_assoc, overlay_add hleft]
        intro q hq
        rw [Nat.add_assoc]
        exact hlast _ (by omega) (by omega)
      · have hlater := hw.bytes (p - pieceLeft n offset) (by omega) fun q hpq hq => by
          have := hlast (pieceLeft n offset + q) (by omega) (by omega)
          rwa [← Nat.add_assoc, show offset + p = offset + pieceLeft n offset +
            (p - pieceLeft n offset) by omega] at this
        rw [show offset + pieceLeft n offset + (p - pieceLeft n offset) = offset + p by omega,
          show pieceLeft n offset + (p - pieceLeft n offset) = p by omega] at hlater
        exact hlater
    · rw [hw.frame x fun q hq => by rw [Nat.add_assoc]; exact hx _ (by omega), overlay_of_not_mem]
      by_contra hmem
      obtain ⟨k, hk, rfl⟩ : ∃ k < pieceLeft n offset,
          x = 512 * lba (sectorOf (i.blockNo ⟨_, hin⟩).toNat) + (offset % 512 + k) :=
        ⟨x - (512 * lba (sectorOf (i.blockNo ⟨_, hin⟩).toNat) + offset % 512), by omega, by omega⟩
      exact hx k (by omega) (filePos_piece hin hk)

/-! ### Reading -/

/-- **What a covered read gets.** -/
theorem readLoop_of_covered (h : Covered i offset n) :
    readLoop i d n offset = some (true, fileBytes i d offset n) := by
  induction n using Nat.strong_induction_on generalizing offset with
  | _ n ih =>
    rw [readLoop]
    by_cases hn : n = 0
    · subst hn
      rw [dif_pos rfl]
      rfl
    obtain ⟨hin, hb⟩ := h.head hn
    have hpos : 0 < pieceLeft n offset := pieceLeft_pos hn
    have hle : pieceLeft n offset ≤ n := pieceLeft_le
    have hpiece : (List.range (pieceLeft n offset)).map
        (fun k => readBlock d (i.blockNo ⟨_, hin⟩).toNat (offset % blockSize + k)) =
          fileBytes i d offset (pieceLeft n offset) := by
      refine List.map_congr_left fun k hk => ?_
      have hk := List.mem_range.mp hk
      have hfits : offset % blockSize + pieceLeft n offset ≤ 512 := pieceLeft_fits
      rw [readBlock_of_lt (by omega), filePos_piece hin hk]
    rw [dif_neg hn, dif_pos hin]
    simp only [if_neg hb, hpiece, ih _ (show n - pieceLeft n offset < n by omega) h.tail,
      Option.map_some]
    rw [← fileBytes_add, Nat.add_sub_cancel' hle]

/-- The read goes behind `block_no` when the bytes do, and all the blocks from `offset` on are there. -/
lemma readLoop_eq_none_iff : readLoop i d n offset = none ↔
    n ≠ 0 ∧ maxBlocksInFile * blockSize < offset + n ∧
      ∀ a : Fin maxBlocksInFile, offset / blockSize ≤ a → i.blockNo a ≠ 0 := by
  induction n using Nat.strong_induction_on generalizing offset with
  | _ n ih =>
    rw [readLoop]
    by_cases hn : n = 0
    · rw [dif_pos hn]
      exact iff_of_false (Option.some_ne_none _) fun h => h.1 hn
    rw [dif_neg hn]
    have hpos : 0 < pieceLeft n offset := pieceLeft_pos hn
    have hle : pieceLeft n offset ≤ n := pieceLeft_le
    by_cases hin : offset / blockSize < maxBlocksInFile
    swap
    · rw [dif_neg hin]
      refine iff_of_true rfl ⟨hn, ?_, fun a ha => absurd (ha.trans_lt a.isLt) hin⟩
      simp only [blockSize, maxBlocksInFile] at hin ⊢
      omega
    rw [dif_pos hin]
    by_cases hb : i.blockNo ⟨_, hin⟩ = 0
    · simp only [if_pos hb]
      exact iff_of_false (Option.some_ne_none _) fun h => h.2.2 ⟨_, hin⟩ le_rfl hb
    simp only [if_neg hb]
    rw [Option.map_eq_none_iff, ih _ (show n - pieceLeft n offset < n by omega)]
    simp only [pieceLeft, blockSize, maxBlocksInFile] at hpos hle hin ⊢
    constructor
    · rintro ⟨h1, h2, h3⟩
      refine ⟨hn, by omega, fun a ha => ?_⟩
      by_cases hlater : (offset + min (512 - offset % 512) n) / 512 ≤ a
      · exact h3 a hlater
      · have he : a = ⟨offset / 512, hin⟩ := Fin.ext (by simp only; omega)
        rw [he]
        exact hb
    · rintro ⟨-, h2, h3⟩
      exact ⟨by omega, by omega, fun a ha => h3 a (by omega)⟩

end Places

/-! ### Reading past the end -/

/-- **When a read stays in `block_no`**: it reads nothing, or the bytes asked for are in the largest
file there may be, or a block is not there, which stops it. -/
theorem readIndex_iff {i : Inode} {d : Bytes} {buf size : ℕ} {offset : ℤ} (h0 : 0 ≤ offset)
    (hsize : offset ≤ i.size.toNat) :
    readFileAtOffset i offset buf size d ≠ none ↔
      span buf size = 0 ∨ offset.toNat + span buf size ≤ maxBlocksInFile * blockSize ∨
        ∃ a : Fin maxBlocksInFile, offset.toNat / blockSize ≤ a ∧ i.blockNo a = 0 := by
  have hlt := i.size.toNat_lt
  rw [readFileAtOffset, if_neg (by omega), if_neg (by omega), ne_eq, Option.map_eq_none_iff,
    readLoop_eq_none_iff, not_and_or, not_and_or, not_not, not_lt]
  refine or_congr_right (or_congr_right ?_)
  constructor
  · intro h
    by_contra hall
    exact h fun a ha h => hall ⟨a, ha, h⟩
  · rintro ⟨a, ha, hb⟩ h
    exact h a ha hb

/-- The largest file: every block is there. -/
def fullFile : Inode := ⟨10240, 0, 0, 0, regularFile, 0, 0, 0, 1, 0, fun a => .ofNat (100 + a)⟩

theorem readIndex_iff_fullFile : readFileAtOffset fullFile 512 0 9728 (fun _ => 0) ≠ none :=
  (readIndex_iff (by decide) (by decide)).mpr (.inr (.inl (by decide)))

/-- The byte behind the end of the largest file is looked for in a 21st block. -/
theorem readIndex_behind_fullFile : ¬ ∀ (i : Inode) (d : Bytes) (buf size : ℕ) (offset : ℤ),
    0 ≤ offset → offset ≤ i.size.toNat → readFileAtOffset i offset buf size d ≠ none := by
  intro hall
  refine hall fullFile (fun _ => 0) 0 10241 0 le_rfl (by decide) ?_
  rw [readFileAtOffset, if_neg (by decide), if_neg (by decide), Option.map_eq_none_iff,
    readLoop_eq_none_iff]
  refine ⟨by decide, by decide, fun a _ h => ?_⟩
  have hne : ∀ a : Fin 20, fullFile.blockNo a ≠ 0 := by decide
  exact hne a h

/-! ### Write and read -/

/-- What is written is read again: `writeFile` takes the `size` bytes of `buf` and moves the offset,
a read at the old offset gets them, and the rest of the disk is as it was. -/
def RoundTrip (file : OpenFile) (i : Inode) (ptr size : ℕ) (buf d : Bytes) : Prop :=
  ∃ d', writeFile file i ptr buf size d =
      some (0, { file with offset := file.offset + size }, i, d') ∧
    (∀ ptr', ptr' + size < 2 ^ 32 → readFileAtOffset i file.offset ptr' size d' =
      some ((size : ℤ), (List.range size).map buf)) ∧
    ∀ x, (∀ p < size, filePos i (file.offset.toNat + p) ≠ x) → d' x = d x

section RoundTrip

variable {file : OpenFile} {i : Inode} {ptr size : ℕ} {buf d : Bytes} {offset : ℤ}

lemma span_of_lt (h : ptr + size < 2 ^ 32) : span ptr size = size := if_pos h

/-- A read whose blocks are there. -/
lemma readFileAtOffset_of_covered (h0 : 0 ≤ offset) (hsize : offset ≤ i.size.toNat)
    (hptr : ptr + size < 2 ^ 32) (hc : Covered i offset.toNat size) :
    readFileAtOffset i offset ptr size d =
      some ((size : ℤ), fileBytes i d offset.toNat size) := by
  have hlt := i.size.toNat_lt
  rw [readFileAtOffset, if_neg (by omega), if_neg (by omega), span_of_lt hptr,
    readLoop_of_covered hc, Option.map_some]
  simp only [if_true, length_fileBytes]

/-- A write within the largest file is not refused. -/
lemma writeFile_of_le (h0 : 0 ≤ file.offset)
    (hmax : file.offset + size ≤ ((maxBlocksInFile * blockSize : ℕ) : ℤ)) :
    writeFile file i ptr buf size d = (writeLoop buf (span ptr size) file.offset.toNat i d).map
      fun r => (0, { file with offset := file.offset + size }, r.1, r.2) := by
  have hmax' : file.offset + size ≤ 10240 := hmax
  rw [writeFile, if_neg, if_neg (by omega), Int.bmod_eq_of_le (by omega) (by omega)]
  have hle : (file.offset + size) % 2 ^ 32 ≤ 10240 := by omega
  exact not_lt.mpr hle

/-- A write whose blocks are there. -/
lemma writeFile_of_covered (h0 : 0 ≤ file.offset)
    (hmax : file.offset + size ≤ ((maxBlocksInFile * blockSize : ℕ) : ℤ)) (hspan : span ptr size = size)
    (hc : Covered i file.offset.toNat size) :
    ∃ d', writeFile file i ptr buf size d =
        some (0, { file with offset := file.offset + size }, i, d') ∧
      Written i file.offset.toNat size buf d d' := by
  obtain ⟨d', hd', hw⟩ := @writeLoop_written _ d buf _ _ hc
  refine ⟨d', ?_, hw⟩
  rw [writeFile_of_le h0 hmax, hspan, hd', Option.map_some]

/-- What is read back is what the places hold, so two bytes with one place are equal. -/
lemma RoundTrip.eq_of_place (h0 : 0 ≤ file.offset) (hsize : file.offset ≤ i.size.toNat)
    (hptr : ptr + size < 2 ^ 32) (hc : Covered i file.offset.toNat size)
    (h : RoundTrip file i ptr size buf d) {p q : ℕ} (hp : p < size) (hq : q < size)
    (he : filePos i (file.offset.toNat + p) = filePos i (file.offset.toNat + q)) :
    buf p = buf q := by
  obtain ⟨d', -, hread, -⟩ := h
  have hback := hread ptr hptr
  rw [readFileAtOffset_of_covered h0 hsize hptr hc] at hback
  have hlist := (Prod.mk.inj (Option.some_inj.mp hback)).2
  have hbyte : ∀ r < size, d' (filePos i (file.offset.toNat + r)) = buf r := fun r hr => by
    have := congrArg (fun l => l[r]?) hlist
    simpa [fileBytes, hr] using this
  rw [← hbyte p hp, ← hbyte q hq, he]

lemma separate_of_roundTrip (h0 : 0 ≤ file.offset) (hsize : file.offset ≤ i.size.toNat)
    (hptr : ptr + size < 2 ^ 32) (hc : Covered i file.offset.toNat size)
    (h : ∀ buf, RoundTrip file i ptr size buf d) : Separate i file.offset.toNat size := by
  intro p hp q hq he
  have hsame := (h fun r => if r = p then 1 else 0).eq_of_place h0 hsize hptr hc hp hq he
  by_contra hne
  simp only [if_true, if_neg (Ne.symm hne)] at hsame
  exact absurd hsame (by decide)

lemma Written.bytes_of_separate {d' : Bytes} {o : ℕ} (h : Written i o size buf d d')
    (hs : Separate i o size) {p : ℕ} (hp : p < size) : d' (filePos i (o + p)) = buf p := by
  refine h.bytes p hp fun q hpq hq he => ?_
  have := hs q hq p hp he
  omega

/-- **When a write is read again**: for a write within the file whose blocks are there, whatever is
written is read again if and only if no two bytes written have one place on the disk. -/
theorem roundTrip_iff (h0 : 0 ≤ file.offset)
    (hmax : file.offset + size ≤ ((maxBlocksInFile * blockSize : ℕ) : ℤ))
    (hsize : file.offset ≤ i.size.toNat) (hptr : ptr + size < 2 ^ 32)
    (hc : Covered i file.offset.toNat size) :
    (∀ buf, RoundTrip file i ptr size buf d) ↔ Separate i file.offset.toNat size := by
  refine ⟨separate_of_roundTrip h0 hsize hptr hc, fun hs buf => ?_⟩
  obtain ⟨d', hd', hw⟩ := @writeFile_of_covered _ _ _ _ buf d h0 hmax (span_of_lt hptr) hc
  refine ⟨d', hd', fun ptr' hptr' => ?_, hw.frame⟩
  rw [readFileAtOffset_of_covered h0 hsize hptr' hc]
  refine congrArg (fun l => some ((size : ℤ), l)) (List.map_congr_left fun p hp => ?_)
  exact hw.bytes_of_separate hs (List.mem_range.mp hp)

end RoundTrip

/-- An inode with two blocks whose numbers differ in bit 24 alone. -/
def farBlocks : Inode :=
  ⟨1024, 0, 0, 0, regularFile, 0, 0, 0, 1, 0, fun a =>
    if a = 0 then 100 else if a = 1 then 0x1000064 else 0⟩

lemma covered_farBlocks {n : ℕ} (hn : n ≤ 1024) : Covered farBlocks 0 n := by
  intro p hp
  have hlt : (0 + p) / blockSize < maxBlocksInFile := by
    simp only [blockSize, maxBlocksInFile]
    omega
  refine ⟨hlt, ?_⟩
  have h0 : farBlocks.blockNo 0 ≠ 0 := by decide
  have h1 : farBlocks.blockNo 1 ≠ 0 := by decide
  rcases (by simp only [blockSize]; omega : (0 + p) / blockSize = 0 ∨ (0 + p) / blockSize = 1) with h | h
  · simp only [h]
    exact h0
  · simp only [h]
    exact h1

theorem roundTrip_iff_oneBlock : RoundTrip (fileAt 0) farBlocks 0 3 (fun p => .ofNat p) fun _ => 0 := by
  refine (roundTrip_iff le_rfl (by decide) (by decide) (by decide) (covered_farBlocks (by omega))).mpr
    (fun p hp q hq he => ?_) _
  have hplace : ∀ r < 3, filePos farBlocks (0 + r) = 512 * 400 + r := by decide +kernel
  have he : filePos farBlocks (0 + p) = filePos farBlocks (0 + q) := he
  rw [hplace p hp, hplace q hq] at he
  omega

/-- A kilobyte written to these blocks does not come back. -/
theorem roundTrip_truncated : ¬ ∀ (file : OpenFile) (i : Inode) (ptr size : ℕ) (buf d : Bytes),
    0 ≤ file.offset → file.offset + size ≤ ((maxBlocksInFile * blockSize : ℕ) : ℤ) →
    file.offset ≤ i.size.toNat → ptr + size < 2 ^ 32 → Covered i file.offset.toNat size →
    (∀ a b : Fin maxBlocksInFile, (a : ℕ) < (file.offset.toNat + size + 511) / 512 →
      (b : ℕ) < (file.offset.toNat + size + 511) / 512 → file.offset.toNat / 512 ≤ a →
      file.offset.toNat / 512 ≤ b → i.blockNo a = i.blockNo b → a = b) →
    RoundTrip file i ptr size buf d := by
  intro hall
  have hround : ∀ buf, RoundTrip (fileAt 0) farBlocks 0 1024 buf fun _ => 0 := fun buf =>
    hall _ _ _ _ _ _ le_rfl (by decide) (by decide) (by decide) (covered_farBlocks le_rfl)
      (by decide)
  have hs := separate_of_roundTrip le_rfl (by decide) (by decide) (covered_farBlocks le_rfl) hround
  exact absurd (hs 0 (by omega) 512 (by omega) (by decide +kernel)) (by decide)

end Nbos.Fs
