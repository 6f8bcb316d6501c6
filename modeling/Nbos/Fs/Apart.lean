import Nbos.Fs.Contents

/-!
# Files that share nothing

Files whose bytes and whose inodes are in places of their own. A write to one of them changes its bytes
and its size (`FilesApart.written`) and leaves them apart; on a disk in order they are
(`Files.Inv.apart`).
-/

namespace Nbos.Fs

open Nbos.Lib Nbos.Kernel

/-- The bytes that a file has blocks for. -/
def held (i : Inode) : Set ℕ := {x | ∃ h : x / blockSize < maxBlocksInFile, i.blockNo ⟨_, h⟩ ≠ 0}

/-- The inodes at `T` are those of regular files, they say where they are, and no byte of the disk
belongs to two of the files, or to two places of one. -/
structure FilesApart (T : Set (ℕ × ℕ)) (d : Bytes) : Prop where
  regular : ∀ f ∈ T, (inodeAt d f).mode = regularFile
  own : ∀ f ∈ T, mySlot (inodeAt d f) = f
  fits : ∀ f ∈ T, f.2 + 116 ≤ 512
  bytes : ∀ f ∈ T, ∀ g ∈ T, ∀ x ∈ held (inodeAt d f), ∀ y ∈ held (inodeAt d g),
    filePos (inodeAt d f) x = filePos (inodeAt d g) y → f = g ∧ x = y
  record : ∀ f ∈ T, ∀ g ∈ T, ∀ x ∈ held (inodeAt d f), ¬ InRecord g (filePos (inodeAt d f) x)
  records : ∀ f ∈ T, ∀ g ∈ T, ∀ x, InRecord f x → InRecord g x → f = g

/-- No more than the sizes has changed in the inodes at `T`. -/
def OnlySizes (T : Set (ℕ × ℕ)) (d d' : Bytes) : Prop :=
  ∀ f ∈ T, inodeAt d' f = { inodeAt d f with size := (inodeAt d' f).size }

/-- What a write of `n` bytes to the file at `f` does to the disk. -/
structure FileWritten (f : ℕ × ℕ) (offset n : ℕ) (buf d d' : Bytes) : Prop where
  inode : inodeAt d' f = { inodeAt d f with size := (inodeAt d f).size + .ofNat n }
  bytes : ∀ p < n, d' (filePos (inodeAt d f) (offset + p)) = buf p
  frame : ∀ x, ¬ InRecord f x → (∀ p < n, filePos (inodeAt d f) (offset + p) ≠ x) → d' x = d x

section Apart

variable {T : Set (ℕ × ℕ)} {d d' d'' buf : Bytes} {f g : ℕ × ℕ} {i i' : Inode} {offset n x : ℕ}

/-- Where the block of the first byte is there, so are those of the rest of the block. -/
lemma covered_block {h : offset / blockSize < maxBlocksInFile} (hb : i.blockNo ⟨_, h⟩ ≠ 0)
    (hn : offset % blockSize + n ≤ blockSize) : Covered i offset n := by
  intro p hp
  have hdiv : (offset + p) / blockSize = offset / blockSize := by
    simp only [blockSize] at hn ⊢
    omega
  simp only [hdiv]
  exact ⟨h, hb⟩

/-- An inode depends on its record alone. -/
lemma inodeAt_of_record (hs : f.2 + 116 ≤ 512) (h : ∀ x, InRecord f x → d x = d' x) :
    inodeAt d f = inodeAt d' f := by
  refine loadInode_congr fun k hk => ?_
  rw [readBlock_of_lt (by omega), readBlock_of_lt (by omega)]
  refine h _ ?_
  unfold InRecord
  omega

lemma held_congr (h : i'.blockNo = i.blockNo) : held i' = held i := by
  simp only [held, h]

lemma filePos_congr (h : i'.blockNo = i.blockNo) : filePos i' x = filePos i x := by
  simp only [filePos, h]

lemma OnlySizes.refl : OnlySizes T d d := fun _ _ => rfl

lemma OnlySizes.blockNo (h : OnlySizes T d d') (hf : f ∈ T) :
    (inodeAt d' f).blockNo = (inodeAt d f).blockNo := by rw [h f hf]

lemma OnlySizes.held (h : OnlySizes T d d') (hf : f ∈ T) :
    held (inodeAt d' f) = held (inodeAt d f) := held_congr (h.blockNo hf)

lemma OnlySizes.filePos (h : OnlySizes T d d') (hf : f ∈ T) :
    filePos (inodeAt d' f) x = filePos (inodeAt d f) x := filePos_congr (h.blockNo hf)

lemma OnlySizes.trans (h : OnlySizes T d d') (h' : OnlySizes T d' d'') : OnlySizes T d d'' := by
  intro f hf
  rw [h' f hf, h f hf]

/-- Files whose blocks stay are still apart. -/
lemma FilesApart.keep (h : FilesApart T d) (hd : OnlySizes T d d') : FilesApart T d' := by
  refine ⟨fun f hf => ?_, fun f hf => ?_, h.fits, fun f hf g hg x hx y hy he => ?_,
    fun f hf g hg x hx => ?_, h.records⟩
  · rw [hd f hf]
    exact h.regular f hf
  · rw [hd f hf]
    exact h.own f hf
  · rw [hd.held hf] at hx
    rw [hd.held hg] at hy
    rw [hd.filePos hf, hd.filePos hg] at he
    exact h.bytes f hf g hg x hx y hy he
  · rw [hd.held hf] at hx
    rw [hd.filePos hf]
    exact h.record f hf g hg x hx

/-- No two bytes of a file have one place. -/
lemma FilesApart.separate (h : FilesApart T d) (hf : f ∈ T) (hc : Covered (inodeAt d f) offset n) :
    Separate (inodeAt d f) offset n := by
  intro p hp q hq he
  have := (h.bytes f hf f hf _ (hc p hp) _ (hc q hq) he).2
  omega

/-- Writing an inode back is writing to its record. -/
lemma FilesApart.writeInode_of_not (h : FilesApart T d) (hf : f ∈ T) (hi : mySlot i = f)
    (hx : ¬ InRecord f x) : writeInode i d' x = d' x := by
  subst hi
  have hfits : i.myInodeOffset.toNat + 116 ≤ 512 := h.fits _ hf
  rw [writeInode_eq hfits, overlay_of_not_mem]
  unfold InRecord at hx
  simp only [mySlot] at hx
  omega

/-- **A write to one of the files**: the bytes, and the inode with its new size. -/
lemma FilesApart.fileWritten (h : FilesApart T d) (hf : f ∈ T) (hc : Covered (inodeAt d f) offset n)
    (hw : Written (inodeAt d f) offset n buf d d') :
    FileWritten f offset n buf d
      (writeInode { inodeAt d f with size := (inodeAt d f).size + .ofNat n } d') := by
  have hown : mySlot { inodeAt d f with size := (inodeAt d f).size + .ofNat n } = f := h.own f hf
  refine ⟨?_, fun p hp => ?_, fun x hx hne => ?_⟩
  · generalize ({ inodeAt d f with size := (inodeAt d f).size + .ofNat n } : Inode) = i at hown ⊢
    subst hown
    exact readInode_writeInode_self (h.fits _ hf)
  · rw [h.writeInode_of_not hf hown (h.record f hf f hf _ (hc p hp))]
    exact hw.bytes_of_separate (h.separate hf hc) hp
  · rw [h.writeInode_of_not hf hown hx]
    exact hw.frame x hne

/-- The other inodes are left alone. -/
lemma FileWritten.inode_of_ne (hw : FileWritten f offset n buf d d') (h : FilesApart T d) (hf : f ∈ T)
    (hc : Covered (inodeAt d f) offset n) (hg : g ∈ T) (hgf : g ≠ f) :
    inodeAt d' g = inodeAt d g := by
  refine inodeAt_of_record (h.fits g hg) fun x hx => hw.frame x (fun hxf => ?_) fun p hp he => ?_
  · exact hgf (h.records g hg f hf x hx hxf)
  · exact h.record f hf g hg _ (hc p hp) (he ▸ hx)

lemma FileWritten.onlySizes (hw : FileWritten f offset n buf d d') (h : FilesApart T d) (hf : f ∈ T)
    (hc : Covered (inodeAt d f) offset n) : OnlySizes T d d' := by
  intro g hg
  by_cases hgf : g = f
  · subst hgf
    rw [hw.inode]
  · rw [hw.inode_of_ne h hf hc hg hgf]

/-- **The bytes of the files after the write.** -/
theorem FileWritten.at (hw : FileWritten f offset n buf d d') (h : FilesApart T d) (hf : f ∈ T)
    (hc : Covered (inodeAt d f) offset n) (hg : g ∈ T) (hx : x ∈ held (inodeAt d g)) :
    d' (filePos (inodeAt d g) x) = if g = f ∧ offset ≤ x ∧ x < offset + n then buf (x - offset)
      else d (filePos (inodeAt d g) x) := by
  split
  · rename_i hmem
    obtain ⟨rfl, hle, hlt⟩ := hmem
    have hbyte := hw.bytes (x - offset) (by omega)
    rwa [Nat.add_sub_cancel' hle] at hbyte
  · rename_i hmem
    refine hw.frame _ (h.record g hg f hf x hx) fun p hp he => hmem ?_
    obtain ⟨rfl, rfl⟩ := h.bytes f hf g hg _ (hc p hp) x hx he
    exact ⟨rfl, Nat.le_add_right .., by omega⟩

/-! ### One write after the other -/

/-- The record of an inode is what the inode says. -/
lemma record_eq (hs : f.2 + 116 ≤ 512) (h : inodeAt d f = inodeAt d' f) (hx : InRecord f x) :
    d x = d' x := by
  unfold InRecord at hx
  obtain ⟨k, hk, rfl⟩ : ∃ k < 116, x = 512 * lba (sectorOf f.1) + (f.2 + k) :=
    ⟨x - (512 * lba (sectorOf f.1) + f.2), by omega, by omega⟩
  -- storing the inode that was loaded gives the buffer again
  have hbyte : ∀ m : Bytes, m (f.2 + k) = wordBytes (inodeWord (loadInode m f.2)) k := fun m => by
    have hstore := congrFun (@storeInode_loadInode m f.2) (f.2 + k)
    rw [storeInode, overlay_add hk] at hstore
    exact hstore.symm
  have hd := hbyte (readBlock d f.1)
  have hd' := hbyte (readBlock d' f.1)
  rw [readBlock_of_lt (by omega)] at hd hd'
  rw [hd, hd']
  exact congrArg (fun i => wordBytes (inodeWord i) k) h

/-- What a write leaves is decided. -/
lemma FileWritten.unique (hw : FileWritten f offset n buf d d') (hw' : FileWritten f offset n buf d d'')
    (hs : f.2 + 116 ≤ 512) : d' = d'' := by
  funext x
  by_cases hrec : InRecord f x
  · exact record_eq hs (hw.inode.trans hw'.inode.symm) hrec
  by_cases hp : ∃ p < n, filePos (inodeAt d f) (offset + p) = x
  · obtain ⟨p, hp, rfl⟩ := hp
    rw [hw.bytes p hp, hw'.bytes p hp]
  · have hne : ∀ p < n, filePos (inodeAt d f) (offset + p) ≠ x := fun p hlt he => hp ⟨p, hlt, he⟩
    rw [hw.frame x hrec hne, hw'.frame x hrec hne]

/-- **Two writes, one behind the other, are one.** -/
lemma FileWritten.append {m : ℕ} (hw : FileWritten f offset n buf d d')
    (hw' : FileWritten f (offset + n) m (fun p => buf (n + p)) d' d'') (h : FilesApart T d) (hf : f ∈ T)
    (hc : Covered (inodeAt d f) offset (n + m)) : FileWritten f offset (n + m) buf d d'' := by
  have hblocks : (inodeAt d' f).blockNo = (inodeAt d f).blockNo := by rw [hw.inode]
  have hpos : ∀ p, filePos (inodeAt d' f) (offset + n + p) = filePos (inodeAt d f) (offset + (n + p)) :=
    fun p => by rw [filePos_congr hblocks, Nat.add_assoc]
  refine ⟨?_, fun p hp => ?_, fun x hx hne => ?_⟩
  · rw [hw'.inode, hw.inode, UInt32.ofNat_add, UInt32.add_assoc]
  · by_cases hlt : p < n
    · -- the second write has other places
      rw [hw'.frame, hw.bytes p hlt]
      · exact h.record f hf f hf _ (hc p hp)
      · intro q hq he
        rw [hpos] at he
        have := (h.bytes f hf f hf _ (hc (n + q) (by omega)) _ (hc p hp) he).2
        omega
    · have hbyte := hw'.bytes (p - n) (by omega)
      rw [hpos, Nat.add_sub_cancel' (by omega)] at hbyte
      exact hbyte
  · rw [hw'.frame x hx fun p hp => by rw [hpos]; exact hne _ (by omega),
      hw.frame x hx fun p hp => hne p (by omega)]

end Apart

/-! ### A disk in order -/

/-- The places of the regular files that have been written back. -/
def Files.regular (c : Files) : Set (ℕ × ℕ) :=
  {f | ∃ a < c.count, f = slot a ∧ (c.file a).saved = true ∧ (c.file a).inode.mode = regularFile}

section InOrder

variable {c : Files} {a b x y : ℕ} {i j : Inode}

/-- Where a block is known by its number, a byte is known by its place. -/
lemma filePos_inj (hx : x ∈ held i) (hy : y ∈ held j) (hi : ListedHigh i) (hj : ListedHigh j)
    (h : filePos i x = filePos j y) : ∃ p q, p = x / blockSize ∧ q = y / blockSize ∧
      ∃ (hp : p < maxBlocksInFile) (hq : q < maxBlocksInFile),
        i.blockNo ⟨p, hp⟩ = j.blockNo ⟨q, hq⟩ ∧ x % blockSize = y % blockSize := by
  obtain ⟨hxin, hxb⟩ := hx
  obtain ⟨hyin, hyb⟩ := hy
  rw [filePos_of_lt hxin, filePos_of_lt hyin, lba_sectorOf (hi.addressable hxb),
    lba_sectorOf (hj.addressable hyb)] at h
  refine ⟨_, _, rfl, rfl, hxin, hyin, ?_, ?_⟩
  · apply UInt32.toNat_inj.mp
    omega
  · simp only [blockSize]
    omega

/-- **On a disk in order the files are apart.** -/
theorem Files.Inv.apart (h : c.Inv) : FilesApart c.regular c.disk := by
  have hinode : ∀ f ∈ c.regular, ∃ a < c.count, f = slot a ∧ a < 200 ∧
      inodeAt c.disk f = (c.file a).inode ∧ (c.file a).inode.mode = regularFile := by
    rintro f ⟨a, ha, rfl, hsaved, hmode⟩
    have hle := h.records.list.le
    exact ⟨a, ha, rfl, by omega, h.saved a ha hsaved, hmode⟩
  have hhigh : ∀ f ∈ c.regular, ListedHigh (inodeAt c.disk f) := by
    rintro f ⟨a, ha, rfl, hsaved, -⟩
    exact h.listedHigh ha fun _ => .inr (by rw [h.saved a ha hsaved])
  refine ⟨fun f hf => ?_, fun f hf => ?_, fun f hf => ?_, fun f hf g hg x hx y hy he => ?_,
    fun f hf g hg x hx hrec => ?_, fun f hf g hg x hx hy => ?_⟩
  · obtain ⟨a, -, -, -, hi, hmode⟩ := hinode f hf
    rw [hi, hmode]
  · obtain ⟨a, ha, rfl, -, hi, -⟩ := hinode f hf
    rw [hi, h.place a ha]
  · obtain ⟨a, -, rfl, -⟩ := hinode f hf
    exact slot_snd_le
  · obtain ⟨p, q, hp, hq, hpin, hqin, hb, hmod⟩ := filePos_inj hx hy (hhigh f hf) (hhigh g hg) he
    have hne : (inodeAt c.disk f).blockNo ⟨p, hpin⟩ ≠ 0 := by
      obtain ⟨hxin, hxb⟩ := hx
      subst hp
      exact hxb
    obtain ⟨a, ha, rfl, -, hi, -⟩ := hinode f hf
    obtain ⟨b, hb', rfl, -, hj, -⟩ := hinode g hg
    rw [hi, hj] at hb
    rw [hi] at hne
    obtain ⟨rfl, hpq⟩ := h.inj a ha b hb' _ _ hne hb
    have hpq : p = q := congrArg Fin.val hpq
    refine ⟨rfl, ?_⟩
    simp only [blockSize] at hp hq hmod
    omega
  · obtain ⟨hxin, hxb⟩ := hx
    obtain ⟨b, -, rfl, hb200, -⟩ := hinode g hg
    have hlt := slot_fst_lt hb200
    have h56 := (hhigh f hf _ hxb).1
    exact not_inBlock_of_ne ((hhigh f hf).addressable hxb) (slot_addressable hb200) (by omega)
      (inBlock_filePos hxin) (hrec.inBlock slot_snd_le)
  · obtain ⟨a, -, rfl, ha, -⟩ := hinode f hf
    obtain ⟨b, -, rfl, hb, -⟩ := hinode g hg
    by_contra hne
    have hab : a ≠ b := fun e => hne (by rw [e])
    by_cases hblock : (slot a).1 = (slot b).1
    · have hdisj := slot_disjoint hab hblock
      unfold InRecord at hx hy
      rw [hblock] at hx
      omega
    · exact not_inBlock_of_ne (slot_addressable ha) (slot_addressable hb) hblock
        (hx.inBlock slot_snd_le) (hy.inBlock slot_snd_le)

lemma Installed.apart {d : Bytes} (h : Installed d) : FilesApart (Files.init d).regular d :=
  (Files.inv_init h).apart

end InOrder

end Nbos.Fs
