import Nbos.Fs.Init

/-!
# Block ownership

The inodes of a running system under `allocInode`, `allocBlock` and `writeInode`, from the disk of
`init_file` on. `Files.Inv` is what keeps the blocks apart: a block that an inode lists is a busy
block of the data area, and it is listed once.

It holds as long as a data block is left whenever one is asked for (`Files.Meets`). On a full disk
`allocBlock` hands out block 700, behind the file system, instead of failing
(`allocBlock_full`).
-/

namespace Nbos.Fs

open Nbos.Lib Nbos.Kernel

/-! ### Runs -/

/-- An inode in memory, and whether it has been written back since it changed. -/
structure File where
  inode : Inode
  saved : Bool

/-- The disk and the allocated inodes; `file k` is the one in slot `k`, for `k < count`. -/
structure Files where
  disk : Bytes
  count : ℕ
  file : ℕ → File

/-- The three inodes of a disk that `init_file` has written. -/
def Files.init (d : Bytes) : Files := ⟨d, 3, fun k => ⟨inodeAt d (slot k), true⟩⟩

/-- A block of the data area is free. -/
def DataBlockLeft (d : Bytes) : Prop := ∃ n, 56 ≤ n ∧ n < fileSysBlocks ∧ busy d n = false

/-- The calls of `allocBlock` that `file.c` gets right: a data block is left, or the inode has no
slot for one. -/
def Files.Meets (c : Files) (k : ℕ) : Prop :=
  DataBlockLeft c.disk ∨ zeroSlot (c.file k).inode = none

/-- One call, where `allocBlock` is called under the condition `P` only. Between calls an inode in
memory may change, but for its place, its link and its blocks, and so may the contents of a block
that an inode lists. -/
inductive Files.Step (P : Files → ℕ → Prop) : Files → Files → Prop
  | allocInode (c : Files) (junk : Bytes) (i : Inode) : (allocInode junk c.disk).1 = some i →
      Files.Step P c ⟨(allocInode junk c.disk).2, c.count + 1,
        Function.update c.file c.count ⟨i, false⟩⟩
  | full (c : Files) (junk : Bytes) : (allocInode junk c.disk).1 = none →
      Files.Step P c ⟨(allocInode junk c.disk).2, c.count, c.file⟩
  | allocBlock (c : Files) (k : ℕ) : k < c.count → P c k →
      Files.Step P c ⟨(allocBlock (c.file k).inode c.disk).2.2, c.count,
        Function.update c.file k ⟨(allocBlock (c.file k).inode c.disk).2.1, false⟩⟩
  | edit (c : Files) (k : ℕ) (i : Inode) : k < c.count → mySlot i = mySlot (c.file k).inode →
      nextSlot i = nextSlot (c.file k).inode → i.blockNo = (c.file k).inode.blockNo →
      Files.Step P c ⟨c.disk, c.count, Function.update c.file k ⟨i, false⟩⟩
  | writeInode (c : Files) (k : ℕ) : k < c.count →
      Files.Step P c ⟨writeInode (c.file k).inode c.disk, c.count,
        Function.update c.file k ⟨(c.file k).inode, true⟩⟩
  | data (c : Files) (k : ℕ) (a : Fin maxBlocksInFile) (arr : Bytes) : k < c.count →
      (c.file k).inode.blockNo a ≠ 0 →
      Files.Step P c ⟨writeBlock c.disk arr ((c.file k).inode.blockNo a).toNat, c.count, c.file⟩

/-! ### The invariant -/

/-- The blocks of the inodes are busy data blocks, each listed once; no block behind the file system
is busy. -/
structure Files.Inv (c : Files) : Prop where
  records : Records c.disk c.count
  place : ∀ k < c.count, mySlot (c.file k).inode = slot k
  link : ∀ k < c.count, nextSlot (c.file k).inode = slotFrom (k + 1)
  saved : ∀ k < c.count, (c.file k).saved = true → inodeAt c.disk (slot k) = (c.file k).inode
  low : ∀ n < 56, busy c.disk n = true
  high : ∀ n < 4096, 700 ≤ n → busy c.disk n = false
  area : ∀ k < c.count, ∀ a, (c.file k).inode.blockNo a ≠ 0 →
    56 ≤ ((c.file k).inode.blockNo a).toNat ∧ ((c.file k).inode.blockNo a).toNat < 700 ∧
      busy c.disk ((c.file k).inode.blockNo a).toNat = true
  inj : ∀ k < c.count, ∀ k' < c.count, ∀ a a', (c.file k).inode.blockNo a ≠ 0 →
    (c.file k).inode.blockNo a = (c.file k').inode.blockNo a' → k = k' ∧ a = a'

lemma Files.Step.mono {P : Files → ℕ → Prop} {c c' : Files} (h : Files.Step P c c') :
    Files.Step (fun _ _ => True) c c' := by
  cases h with
  | allocInode junk i hi => exact .allocInode c junk i hi
  | full junk hi => exact .full c junk hi
  | allocBlock k hk _ => exact .allocBlock c k hk trivial
  | edit k i hk hm hx hb => exact .edit c k i hk hm hx hb
  | writeInode k hk => exact .writeInode c k hk
  | data k a arr hk ha => exact .data c k a arr hk ha

section BlocksFrom

variable {first n : ℕ} {a : Fin maxBlocksInFile}

lemma blocksFrom_toNat (h : first + 20 < 2 ^ 32) (ha : (blocksFrom first n a) ≠ 0) :
    (a : ℕ) < n ∧ (blocksFrom first n a).toNat = first + a := by
  have ha20 : (a : ℕ) < 20 := a.isLt
  unfold blocksFrom at ha ⊢
  split at ha
  · rename_i hlt
    rw [if_pos hlt, UInt32.toNat_ofNat']
    exact ⟨hlt, Nat.mod_eq_of_lt (by omega)⟩
  · exact absurd rfl ha

end BlocksFrom

section Files

variable {c c' : Files} {d : Bytes} {P : Files → ℕ → Prop}

/-- The blocks of the three first inodes. -/
lemma Installed.blockNo (h : Installed d) {k : ℕ} (hk : k < 3) {a : Fin maxBlocksInFile}
    (ha : (inodeAt d (slot k)).blockNo a ≠ 0) :
    ((inodeAt d (slot k)).blockNo a).toNat = [56, 72, 57].getD k 0 + a ∧
      (a : ℕ) < [1, 15, 15].getD k 0 := by
  rcases (by omega : k = 0 ∨ k = 1 ∨ k = 2) with rfl | rfl | rfl
  · rw [h.rootBlocks] at ha ⊢
    exact (blocksFrom_toNat (by decide) ha).symm
  · rw [h.myproBlocks] at ha ⊢
    exact (blocksFrom_toNat (by decide) ha).symm
  · rw [h.shellBlocks] at ha ⊢
    exact (blocksFrom_toNat (by decide) ha).symm

lemma Files.inv_init (h : Installed d) : (Files.init d).Inv := by
  have hbits : ∀ m < 87, busy d m = true := fun m hm => by
    rw [h.bits m (by omega), decide_eq_true hm]
  refine ⟨h.records, fun k hk => ?_, fun k hk => ?_, fun _ _ _ => rfl, fun n hn => hbits n (by omega),
    fun n hn hge => (h.bits n hn).trans (decide_eq_false (by omega)), fun k hk a ha => ?_,
    fun k hk k' hk' a a' ha he => ?_⟩
  · have hk : k < 3 := hk
    exact h.records.list.own k (by omega)
  · have hk : k < 3 := hk
    exact h.records.list.link k (by omega)
  · have hk : k < 3 := hk
    obtain ⟨h1, h2⟩ := h.blockNo hk ha
    simp only [Files.init]
    rw [h1]
    rcases (by omega : k = 0 ∨ k = 1 ∨ k = 2) with rfl | rfl | rfl <;>
      simp only [List.getD_cons_zero, List.getD_cons_succ] at h2 ⊢ <;>
      exact ⟨by omega, by omega, hbits _ (by omega)⟩
  · have hk : k < 3 := hk
    have hk' : k' < 3 := hk'
    have he : (inodeAt d (slot k)).blockNo a = (inodeAt d (slot k')).blockNo a' := he
    obtain ⟨h1, h2⟩ := h.blockNo hk ha
    obtain ⟨h3, h4⟩ := h.blockNo hk' (he ▸ ha)
    rw [← he, h1] at h3
    have hkk : k = k' := by
      rcases (by omega : k = 0 ∨ k = 1 ∨ k = 2) with rfl | rfl | rfl <;>
        rcases (by omega : k' = 0 ∨ k' = 1 ∨ k' = 2) with rfl | rfl | rfl <;>
        simp only [List.getD_cons_zero, List.getD_cons_succ] at h2 h3 h4 <;> omega
    subst hkk
    exact ⟨rfl, Fin.ext (by omega)⟩

/-- The block that `allocBlock` takes while a data block is left. -/
lemma Files.Inv.next_spec (h : c.Inv) (hleft : DataBlockLeft c.disk) :
    56 ≤ freeBlock c.disk ∧ freeBlock c.disk < 700 ∧ busy c.disk (freeBlock c.disk) = false := by
  obtain ⟨n, h56, h700, hbit⟩ := hleft
  have h700 : n < 700 := h700
  obtain ⟨-, h2, h3⟩ := freeBlock_spec h.records.bitNo ⟨n, by omega, hbit⟩
  refine ⟨?_, ?_, h2⟩
  · by_contra hlt
    rw [h.low _ (by omega)] at h2
    cases h2
  · by_contra hge
    rw [h3 n (by omega)] at hbit
    cases hbit

/-- The block taken is nobody's. -/
lemma Files.Inv.ne_free (h : c.Inv) {f k : ℕ} (hk : k < c.count) {a : Fin maxBlocksInFile}
    (hfree : busy c.disk f = false) (hf : f < 2 ^ 32) :
    (c.file k).inode.blockNo a ≠ 0 → (c.file k).inode.blockNo a ≠ .ofNat f := by
  intro ha he
  obtain ⟨-, -, hbusy⟩ := h.area k hk a ha
  rw [he, UInt32.toNat_ofNat', Nat.mod_eq_of_lt hf, hfree] at hbusy
  cases hbusy

/-- An inode with the block `f` in slot `j`. -/
def withBlock (i : Inode) (j : Fin maxBlocksInFile) (f : ℕ) : Inode :=
  { i with blockNo := Function.update i.blockNo j (.ofNat f) }

lemma withBlock_blockNo {i : Inode} {j a : Fin maxBlocksInFile} {f : ℕ} :
    (withBlock i j f).blockNo a = if a = j then .ofNat f else i.blockNo a :=
  Function.update_apply ..

/-- What a new inode has in common with the old one, every inode keeps. -/
lemma update_inode {β : Type} {file : ℕ → File} {k k' : ℕ} {f : File} (g : Inode → β)
    (h : g f.inode = g (file k).inode) : g (Function.update file k f k').inode = g (file k').inode := by
  by_cases hkk : k' = k
  · subst hkk
    rw [Function.update_self, h]
  · rw [Function.update_of_ne hkk]

/-- A block of the new inodes is an old one, or the one just taken. -/
lemma blockNo_taken {file : ℕ → File} {k k' f : ℕ} {j a : Fin maxBlocksInFile} :
    (Function.update file k ⟨withBlock (file k).inode j f, false⟩ k').inode.blockNo a =
      if k' = k ∧ a = j then .ofNat f else (file k').inode.blockNo a := by
  by_cases hkk : k' = k
  · subst hkk
    rw [Function.update_self, withBlock_blockNo]
    simp only [true_and]
  · rw [Function.update_of_ne hkk, if_neg fun hc => hkk hc.1]

/-- No block is listed twice after one that nobody had is listed. -/
lemma Files.Inv.inj_taken (h : c.Inv) {f : ℕ} (hfree : busy c.disk f = false) (hf : f < 2 ^ 32)
    {k k₁ k₂ : ℕ} (hk₁ : k₁ < c.count) (hk₂ : k₂ < c.count) {j a₁ a₂ : Fin maxBlocksInFile}
    (ha : (if k₁ = k ∧ a₁ = j then .ofNat f else (c.file k₁).inode.blockNo a₁) ≠ 0)
    (he : (if k₁ = k ∧ a₁ = j then .ofNat f else (c.file k₁).inode.blockNo a₁) =
      if k₂ = k ∧ a₂ = j then .ofNat f else (c.file k₂).inode.blockNo a₂) : k₁ = k₂ ∧ a₁ = a₂ := by
  by_cases hc₁ : k₁ = k ∧ a₁ = j <;> by_cases hc₂ : k₂ = k ∧ a₂ = j
  · exact ⟨hc₁.1.trans hc₂.1.symm, hc₁.2.trans hc₂.2.symm⟩
  · rw [if_pos hc₁] at ha he
    rw [if_neg hc₂] at he
    exact absurd he.symm (h.ne_free hk₂ hfree hf (he ▸ ha))
  · rw [if_neg hc₁] at ha he
    rw [if_pos hc₂] at he
    exact absurd he (h.ne_free hk₁ hfree hf ha)
  · rw [if_neg hc₁] at ha he
    rw [if_neg hc₂] at he
    exact h.inj k₁ hk₁ k₂ hk₂ a₁ a₂ ha he

lemma Files.Inv.taken (h : c.Inv) {k : ℕ} (hleft : DataBlockLeft c.disk) (j : Fin maxBlocksInFile) :
    Files.Inv ⟨takenBlock (freeBlock c.disk) c.disk, c.count, Function.update c.file k
      ⟨withBlock (c.file k).inode j (freeBlock c.disk), false⟩⟩ := by
  obtain ⟨h56, h700, hfree⟩ := h.next_spec hleft
  generalize freeBlock c.disk = f at *
  have hf0 : (UInt32.ofNat f).toNat = f := by
    rw [UInt32.toNat_ofNat', Nat.mod_eq_of_lt (by omega)]
  have hle := h.records.list.le
  have hbusy : ∀ m < 4096, busy c.disk m = true → busy (takenBlock f c.disk) m = true := by
    intro m hm hb
    rw [busy_takenBlock (by omega) (by omega) hfree hm, hb, Bool.or_true]
  refine ⟨h.records.takenBlock (by omega) h56 hfree,
    fun k' hk' => (update_inode mySlot (by rfl)).trans (h.place k' hk'),
    fun k' hk' => (update_inode nextSlot (by rfl)).trans (h.link k' hk'),
    fun k' hk' hs => ?_, fun n hn => hbusy n (by omega) (h.low n hn), fun n hn hge => ?_,
    fun k' hk' a ha => ?_, fun k₁ hk₁ k₂ hk₂ a₁ a₂ ha he => ?_⟩
  · have hkk : k' ≠ k := by
      rintro rfl
      simp only [Function.update_self] at hs
      cases hs
    simp only [Function.update_of_ne hkk] at hs hk' ⊢
    rw [← h.saved k' hk' hs]
    have hlt := slot_fst_lt (n := k') (by omega)
    exact readInode_congr (readBlock_takenBlock (by omega) (by omega) hfree
      (slot_addressable (by omega)) (by omega) (by omega))
  · rw [busy_takenBlock (by omega) (by omega) hfree hn, h.high n hn hge, decide_eq_false (by omega)]
    rfl
  · simp only [blockNo_taken] at ha ⊢
    split at ha
    · rename_i hc
      rw [if_pos hc, hf0]
      refine ⟨h56, h700, ?_⟩
      rw [busy_takenBlock (by omega) (by omega) hfree (by omega)]
      simp
    · rename_i hc
      rw [if_neg hc]
      obtain ⟨h1, h2, h3⟩ := h.area k' hk' a ha
      exact ⟨h1, h2, hbusy _ (by omega) h3⟩
  · simp only [blockNo_taken] at ha he
    exact h.inj_taken hfree (by omega) hk₁ hk₂ ha he

/-- An inode is replaced by one with its place, its link and its blocks, on a disk with the same
records and the same bitmap. -/
lemma Files.Inv.replace (h : c.Inv) {k : ℕ} {f : File}
    (hm : mySlot f.inode = mySlot (c.file k).inode)
    (hx : nextSlot f.inode = nextSlot (c.file k).inode)
    (hb : f.inode.blockNo = (c.file k).inode.blockNo) (hrec : Records d c.count)
    (hbusy : ∀ m < 4096, busy d m = busy c.disk m)
    (hsaved : f.saved = true → inodeAt d (slot k) = f.inode)
    (hinode : ∀ k' < c.count, k' ≠ k → inodeAt d (slot k') = inodeAt c.disk (slot k')) :
    Files.Inv ⟨d, c.count, Function.update c.file k f⟩ := by
  have hblock : ∀ k', (Function.update c.file k f k').inode.blockNo = (c.file k').inode.blockNo :=
    fun _ => update_inode Inode.blockNo hb
  refine ⟨hrec, fun k' hk' => (update_inode mySlot hm).trans (h.place k' hk'),
    fun k' hk' => (update_inode nextSlot hx).trans (h.link k' hk'), fun k' hk' hs => ?_,
    fun n hn => ?_, fun n hn hge => ?_, fun k' hk' a ha => ?_, fun k₁ hk₁ k₂ hk₂ a₁ a₂ ha he => ?_⟩
  · by_cases hkk : k' = k
    · subst hkk
      simp only [Function.update_self] at hs ⊢
      exact hsaved hs
    · simp only [Function.update_of_ne hkk] at hs ⊢
      rw [hinode k' hk' hkk]
      exact h.saved k' hk' hs
  · simp only [hbusy n (by omega)]
    exact h.low n hn
  · simp only [hbusy n hn]
    exact h.high n hn hge
  · simp only [hblock] at ha ⊢
    obtain ⟨h1, h2, h3⟩ := h.area k' hk' a ha
    exact ⟨h1, h2, by rw [hbusy _ (by omega), h3]⟩
  · simp only [hblock] at ha he
    exact h.inj k₁ hk₁ k₂ hk₂ a₁ a₂ ha he

lemma Files.Inv.addressable (h : c.Inv) {k : ℕ} (hk : k < c.count) {a : Fin maxBlocksInFile}
    (ha : (c.file k).inode.blockNo a ≠ 0) : Addressable ((c.file k).inode.blockNo a).toNat := by
  have := (h.area k hk a ha).2.1
  simp only [Addressable, superBlockSector]
  omega

/-- The contents of a listed block do not matter. -/
lemma Files.Inv.data (h : c.Inv) {k : ℕ} (hk : k < c.count) {a : Fin maxBlocksInFile}
    (ha : (c.file k).inode.blockNo a ≠ 0) (arr : Bytes) :
    Files.Inv ⟨writeBlock c.disk arr ((c.file k).inode.blockNo a).toNat, c.count, c.file⟩ := by
  have haddr := h.addressable hk ha
  obtain ⟨h56, -, -⟩ := h.area k hk a ha
  have hle := h.records.list.le
  have hbits : ∀ m < 4096, busy (writeBlock c.disk arr ((c.file k).inode.blockNo a).toNat) m =
      busy c.disk m := fun m hm => busy_writeBlock haddr (by omega) hm
  refine ⟨h.records.writeBlock haddr (by omega), h.place, h.link, fun k' hk' hs => ?_, fun n hn => ?_,
    fun n hn hge => (hbits n hn).trans (h.high n hn hge), fun k' hk' a' ha' => ?_, h.inj⟩
  · have hk' : k' < c.count := hk'
    have hlt := slot_fst_lt (n := k') (by omega)
    rw [← h.saved k' hk' hs]
    exact readInode_congr (readBlock_writeBlock_ne (slot_addressable (by omega)) haddr (by omega))
  · rw [hbits n (by omega)]
    exact h.low n hn
  · obtain ⟨h1, h2, h3⟩ := h.area k' hk' a' ha'
    have hlt : ((c.file k').inode.blockNo a').toNat < 4096 := by omega
    exact ⟨h1, h2, (hbits _ hlt).trans h3⟩

lemma Files.Inv.fresh (h : c.Inv) (hlt : c.count < 200) (junk : Bytes) :
    Files.Inv ⟨(allocInode junk c.disk).2, c.count + 1,
      Function.update c.file c.count ⟨freshInode c.disk c.count, false⟩⟩ := by
  generalize hfile : Function.update c.file c.count ⟨freshInode c.disk c.count, false⟩ = file
  have hself : file c.count = ⟨freshInode c.disk c.count, false⟩ := by
    rw [← hfile, Function.update_self]
  have hother : ∀ k < c.count, file k = c.file k := fun k hk => by
    rw [← hfile, Function.update_of_ne hk.ne]
  have hzero : ∀ a, (file c.count).inode.blockNo a = 0 := fun a => by rw [hself]; rfl
  refine ⟨h.records.alloc hlt, fun k hk => ?_, fun k hk => ?_, fun k hk hs => ?_, fun n hn => ?_,
    fun n hn hge => ?_, fun k hk a ha => ?_, fun k₁ hk₁ k₂ hk₂ a₁ a₂ ha he => ?_⟩
  · rcases Nat.lt_succ_iff_lt_or_eq.mp hk with hk | rfl
    · simp only [hother k hk]
      exact h.place k hk
    · simp only [hself]
      exact mySlot_freshInode hlt
  · rcases Nat.lt_succ_iff_lt_or_eq.mp hk with hk | rfl
    · simp only [hother k hk]
      exact h.link k hk
    · simp only [hself]
      exact nextSlot_freshInode h.records.list hlt
  · rcases Nat.lt_succ_iff_lt_or_eq.mp hk with hk | rfl
    · simp only [hother k hk] at hs ⊢
      rw [h.records.list.inodeAt_alloc hlt (by omega)]
      exact h.saved k hk hs
    · simp only [hself] at hs
      cases hs
  · simp only [h.records.list.busy_alloc hlt (show n < 4096 by omega)]
    exact h.low n hn
  · simp only [h.records.list.busy_alloc hlt hn]
    exact h.high n hn hge
  · rcases Nat.lt_succ_iff_lt_or_eq.mp hk with hk | rfl
    · simp only [hother k hk] at ha ⊢
      obtain ⟨h1, h2, h3⟩ := h.area k hk a ha
      exact ⟨h1, h2, by rw [h.records.list.busy_alloc hlt (by omega), h3]⟩
    · exact absurd (hzero a) ha
  · -- an inode just allocated lists nothing
    have hlt₁ : k₁ < c.count := by
      refine (Nat.lt_succ_iff_lt_or_eq.mp hk₁).resolve_right fun e => ha ?_
      subst e
      exact hzero a₁
    have hlt₂ : k₂ < c.count := by
      refine (Nat.lt_succ_iff_lt_or_eq.mp hk₂).resolve_right fun e => ha (he.trans ?_)
      subst e
      exact hzero a₂
    simp only [hother _ hlt₁, hother _ hlt₂] at ha he
    exact h.inj k₁ hlt₁ k₂ hlt₂ a₁ a₂ ha he

lemma Files.Inv.alloc_of_some (h : c.Inv) {junk : Bytes} {i : Inode}
    (hi : (allocInode junk c.disk).1 = some i) :
    c.count < 200 ∧ i = freshInode c.disk c.count := by
  have hle := h.records.list.le
  have hne : c.count ≠ 200 := fun e => by
    have hfull := h.records.list
    rw [e] at hfull
    rw [allocInode_of_full hfull] at hi
    cases hi
  have hlt : c.count < 200 := by omega
  rw [(h.records.list.alloc hlt).1] at hi
  exact ⟨hlt, (Option.some_inj.mp hi).symm⟩

lemma Files.Inv.alloc_of_none (h : c.Inv) {junk : Bytes}
    (hi : (allocInode junk c.disk).1 = none) : (allocInode junk c.disk).2 = c.disk := by
  have hle := h.records.list.le
  have hfull : c.count = 200 := by
    by_contra hne
    rw [(h.records.list.alloc (by omega)).1] at hi
    cases hi
  have hlist := h.records.list
  rw [hfull] at hlist
  rw [allocInode_of_full hlist]

theorem Files.inv_step (h : c.Inv) (hs : Files.Step Files.Meets c c') : c'.Inv := by
  cases hs with
  | allocInode junk i hi =>
    obtain ⟨hlt, rfl⟩ := h.alloc_of_some hi
    exact h.fresh hlt junk
  | full junk hi =>
    rw [h.alloc_of_none hi]
    exact h
  | allocBlock k hk hP =>
    cases hz : zeroSlot (c.file k).inode with
    | none =>
      rw [allocBlock_of_none hz]
      exact h.replace rfl rfl rfl h.records (fun _ _ => rfl) (fun e => by cases e)
        fun _ _ _ => rfl
    | some j =>
      rw [allocBlock_of_some hz]
      exact h.taken (hP.resolve_right (by rw [hz]; nofun)) j
  | edit k i hk hm hx hb =>
    exact h.replace hm hx hb h.records (fun _ _ => rfl) (fun e => by cases e) fun _ _ _ => rfl
  | writeInode k hk =>
    have hle := h.records.list.le
    have hm := h.place k hk
    refine h.replace rfl rfl rfl (h.records.write (by omega) hm (h.link k hk))
      (fun m hlt => busy_writeInode (by omega) hm hlt) (fun _ => ?_) fun k' hk' hne => ?_
    · rw [inodeAt_writeInode (by omega) (by omega) hm, if_pos rfl]
    · rw [inodeAt_writeInode (by omega) (by omega) hm, if_neg hne]
  | data k a arr hk ha => exact h.data hk ha arr

/-- The invariant along a run. -/
theorem Files.inv_of_run (hd : Installed d)
    (h : Relation.ReflTransGen (Files.Step Files.Meets) (Files.init d) c) : c.Inv := by
  induction h with
  | refl => exact Files.inv_init hd
  | tail _ hs ih => exact Files.inv_step ih hs

/-! ### Filling the disk -/

lemma zeroSlot_of_iff {i : Inode} {r : ℕ} (hr : r < maxBlocksInFile)
    (h : ∀ a, i.blockNo a = 0 ↔ r ≤ (a : ℕ)) : zeroSlot i = some ⟨r, hr⟩ := by
  rw [zeroSlot, List.find?_eq_some_iff_getElem]
  refine ⟨by simp [h], r, by simpa using hr, by simp, fun j hj => ?_⟩
  have hne : i.blockNo ⟨j, by omega⟩ ≠ 0 := fun e => by
    have := (h _).mp e
    simp only at this
    omega
  simpa using hne

/-- An inode can be written back at any time. -/
lemma Files.writeBack (hd : Installed d)
    (hc : Relation.ReflTransGen (Files.Step Files.Meets) (Files.init d) c) {k : ℕ}
    (hk : k < c.count) (hsaved : ∀ k' < c.count, k' ≠ k → (c.file k').saved = true) :
    ∃ c', Relation.ReflTransGen (Files.Step Files.Meets) (Files.init d) c' ∧
      (∀ m < 4096, busy c'.disk m = busy c.disk m) ∧ c'.count = c.count ∧
      (∀ k', (c'.file k').inode = (c.file k').inode) ∧
      ∀ k' < c.count, (c'.file k').saved = true := by
  have hle := (Files.inv_of_run hd hc).records.list.le
  refine ⟨_, hc.tail (.writeInode c k hk), fun m hm => ?_, rfl, fun k' => ?_, fun k' hk' => ?_⟩
  · exact busy_writeInode (by omega) ((Files.inv_of_run hd hc).place k hk) hm
  · by_cases hkk : k' = k
    · rw [hkk]
      simp only [Function.update_self]
    · simp only [Function.update_of_ne hkk]
  · by_cases hkk : k' = k
    · rw [hkk]
      simp only [Function.update_self]
    · simp only [Function.update_of_ne hkk]
      exact hsaved k' hk' hkk

/-- One more inode, for a state in which every inode has been written back. -/
lemma Files.next (hd : Installed d)
    (hc : Relation.ReflTransGen (Files.Step Files.Meets) (Files.init d) c) (hlt : c.count < 200)
    (hsaved : ∀ k < c.count, (c.file k).saved = true) :
    ∃ c', Relation.ReflTransGen (Files.Step Files.Meets) (Files.init d) c' ∧
      (∀ m < 4096, busy c'.disk m = busy c.disk m) ∧ c'.count = c.count + 1 ∧
      (∀ k < c'.count, (c'.file k).saved = true) ∧
      ∀ a, (c'.file c.count).inode.blockNo a = 0 := by
  have hrec := (Files.inv_of_run hd hc).records
  obtain ⟨c', hc', hbits, hcount, hinode, hsaved'⟩ := Files.writeBack hd
    (hc.tail (.allocInode c (fun _ => 0) _ (hrec.list.alloc hlt).1)) (Nat.lt_succ_self _)
    fun k hk hne => by
      simp only [Function.update_of_ne hne]
      exact hsaved k (lt_of_le_of_ne (Nat.lt_succ_iff.mp hk) hne)
  refine ⟨c', hc', fun m hm => (hbits m hm).trans (hrec.list.busy_alloc hlt hm), hcount,
    fun k hk => hsaved' k (hcount ▸ hk), fun a => ?_⟩
  rw [hinode]
  simp only [Function.update_self]
  rfl

/-- The block goes to the first slot that is 0. -/
lemma withBlock_eq_zero_iff {i : Inode} {r f : ℕ} {a : Fin maxBlocksInFile} (hr : r < maxBlocksInFile)
    (h0 : 0 < f) (hf : f < 2 ^ 32) (hzero : ∀ a, i.blockNo a = 0 ↔ r ≤ (a : ℕ)) :
    (withBlock i ⟨r, hr⟩ f).blockNo a = 0 ↔ r + 1 ≤ (a : ℕ) := by
  rw [withBlock_blockNo]
  split
  · rename_i ha
    subst ha
    refine iff_of_false (fun e => ?_) (Nat.not_succ_le_self r)
    have hzero := congrArg UInt32.toNat e
    rw [UInt32.toNat_ofNat', Nat.mod_eq_of_lt hf] at hzero
    exact absurd hzero h0.ne'
  · rename_i ha
    have hne : (a : ℕ) ≠ r := fun e => ha (Fin.ext e)
    rw [hzero a]
    omega

/-- The disk can be filled: after `s` blocks the bits below `87 + s` are set, every inode has been
written back, and the last one has `s % 20` blocks. -/
lemma Files.fill (hd : Installed d) : ∀ s ≤ 613, ∃ c,
    Relation.ReflTransGen (Files.Step Files.Meets) (Files.init d) c ∧
      (∀ m < 4096, busy c.disk m = decide (m < 87 + s)) ∧ c.count = 4 + s / 20 ∧
      (∀ k < c.count, (c.file k).saved = true) ∧
      ∀ a, (c.file (3 + s / 20)).inode.blockNo a = 0 ↔ s % 20 ≤ (a : ℕ) := by
  intro s
  induction s with
  | zero =>
    intro _
    obtain ⟨c, hc, hbits, hcount, hsaved, hzero⟩ :=
      Files.next hd .refl (show 3 < 200 by decide) fun _ _ => rfl
    refine ⟨c, hc, fun m hm => (hbits m hm).trans (hd.bits m hm), hcount, hsaved, fun a => ?_⟩
    exact iff_of_true (hzero a) (Nat.zero_le _)
  | succ s ih =>
    intro hs
    obtain ⟨c, hc, hbits, hcount, hsaved, hzero⟩ := ih (by omega)
    have hinv := Files.inv_of_run hd hc
    have hr : s % 20 < maxBlocksInFile := Nat.mod_lt _ (by decide)
    have hz := zeroSlot_of_iff hr hzero
    have hleft : DataBlockLeft c.disk := by
      refine ⟨87 + s, by omega, by simp only [fileSysBlocks]; omega, ?_⟩
      rw [hbits _ (by omega), decide_eq_false (by omega)]
    have hfree := freeBlock_eq (by omega) hinv.records.bitNo hbits
    have hbit : busy c.disk (87 + s) = false := by rw [hbits _ (by omega), decide_eq_false (by omega)]
    have hstep := hc.tail (.allocBlock c (3 + s / 20) (by omega) (.inl hleft))
    rw [allocBlock_of_some hz, hfree] at hstep
    simp only at hstep
    have hbits' : ∀ m < 4096, busy (takenBlock (87 + s) c.disk) m = decide (m < 87 + (s + 1)) := by
      intro m hm
      rw [busy_takenBlock (by omega) (by omega) hbit hm, hbits m hm, ← Bool.decide_or]
      exact decide_eq_decide.mpr (by omega)
    have hzero' : ∀ a, (withBlock (c.file (3 + s / 20)).inode ⟨s % 20, hr⟩ (87 + s)).blockNo a = 0 ↔
        s % 20 + 1 ≤ (a : ℕ) := fun _ => withBlock_eq_zero_iff hr (by omega) (by omega) hzero
    obtain ⟨c₁, hc₁, hbits₁, hcount₁, hinode₁, hsaved₁⟩ := Files.writeBack hd hstep
      (show 3 + s / 20 < c.count by omega) fun k hk hne => by
        simp only [Function.update_of_ne hne]
        exact hsaved k hk
    simp only at hbits₁ hcount₁ hinode₁ hsaved₁
    have hbits₁' : ∀ m < 4096, busy c₁.disk m = decide (m < 87 + (s + 1)) :=
      fun m hm => (hbits₁ m hm).trans (hbits' m hm)
    have hsaved₁' : ∀ k < c₁.count, (c₁.file k).saved = true := fun k hk => hsaved₁ k (hcount₁ ▸ hk)
    by_cases hlast : s % 20 + 1 < 20
    · refine ⟨c₁, hc₁, hbits₁', by omega, hsaved₁', fun a => ?_⟩
      rw [show (s + 1) / 20 = s / 20 by omega, show (s + 1) % 20 = s % 20 + 1 by omega, hinode₁]
      simp only [Function.update_self]
      exact hzero' a
    · obtain ⟨c', hc', hbits'', hcount', hsaved'', hzero''⟩ :=
        Files.next hd hc₁ (by omega) hsaved₁'
      refine ⟨c', hc', fun m hm => (hbits'' m hm).trans (hbits₁' m hm), by omega, hsaved'',
        fun a => ?_⟩
      rw [show 3 + (s + 1) / 20 = c₁.count by omega]
      exact iff_of_true (hzero'' a) (by omega)

/-! ### Exclusive blocks -/

/-- **Blocks are exclusive** in every run from the disk of `init_file` in which a data block is left
whenever one is asked for: the blocks of the inodes are pairwise distinct, lie in the data area and
are busy on disk, and an inode that has been written back is the one on disk. When no data block is
left, `allocBlock` fails and changes nothing exactly on the inodes without a slot left. -/
theorem allocBlock_exclusive {junk : ℕ → ℕ → Bytes} {d₀ : Bytes} (hd : initFile junk d₀ = some d)
    (h : Relation.ReflTransGen (Files.Step Files.Meets) (Files.init d) c) :
    (∀ k < c.count, ∀ k' < c.count, ∀ a a', (c.file k).inode.blockNo a ≠ 0 →
      (c.file k).inode.blockNo a = (c.file k').inode.blockNo a' → k = k' ∧ a = a') ∧
    (∀ k < c.count, ∀ a, (c.file k).inode.blockNo a ≠ 0 →
      1 + inodeBlockSize + dataBlockBitSize ≤ ((c.file k).inode.blockNo a).toNat ∧
        ((c.file k).inode.blockNo a).toNat < fileSysBlocks ∧
        busy c.disk ((c.file k).inode.blockNo a).toNat = true) ∧
    (∀ k < c.count, (c.file k).saved = true → inodeAt c.disk (slot k) = (c.file k).inode) ∧
    (¬ DataBlockLeft c.disk → ∀ k < c.count,
      (allocBlock (c.file k).inode c.disk = (-1, (c.file k).inode, c.disk) ↔ c.Meets k)) := by
  obtain ⟨d', hd', hinst⟩ := initFile_spec junk d₀
  obtain rfl : d' = d := Option.some_inj.mp (hd'.symm.trans hd)
  have hinv := Files.inv_of_run hinst h
  refine ⟨hinv.inj, hinv.area, hinv.saved, fun hfull k _ => ⟨fun he => ?_, fun hm => ?_⟩⟩
  · refine .inr ?_
    cases hz : zeroSlot (c.file k).inode with
    | none => rfl
    | some j =>
      rw [allocBlock_of_some hz] at he
      have h0 : (0 : ℤ) = -1 := congrArg Prod.fst he
      exact absurd h0 (by decide)
  · exact allocBlock_of_none (hm.resolve_left hfull)

end Files

/-- Six inodes with 45 blocks on a zeroed disk. -/
theorem allocBlock_exclusive_zeroDisk : ∃ d, initFile (fun _ _ _ => 0) (fun _ => 0) = some d ∧ ∃ c,
    Relation.ReflTransGen (Files.Step Files.Meets) (Files.init d) c ∧ c.count = 6 ∧
      (c.file 5).inode.blockNo 4 ≠ 0 ∧
      ∀ k < 6, ∀ k' < 6, ∀ a a', (c.file k).inode.blockNo a ≠ 0 →
        (c.file k).inode.blockNo a = (c.file k').inode.blockNo a' → k = k' ∧ a = a' := by
  obtain ⟨d, hd, hinst⟩ := initFile_spec (fun _ _ _ => 0) fun _ => 0
  obtain ⟨c, hc, -, hcount, -, hzero⟩ := Files.fill hinst 45 (by decide)
  have hspec := (allocBlock_exclusive hd hc).1
  rw [hcount] at hspec
  exact ⟨d, hd, c, hc, hcount, fun h => absurd ((hzero 4).mp h) (by decide), hspec⟩

/-- On a zeroed disk the data blocks can all be taken by inodes that are then written back, and
`allocBlock` still does not fail. -/
theorem allocBlock_full : ∃ d, initFile (fun _ _ _ => 0) (fun _ => 0) = some d ∧ ∃ c,
    Relation.ReflTransGen (Files.Step fun _ _ => True) (Files.init d) c ∧
      (∀ k < c.count, (c.file k).saved = true) ∧ ¬ DataBlockLeft c.disk ∧
      ∃ k < c.count, (allocBlock (c.file k).inode c.disk).1 ≠ -1 := by
  obtain ⟨d, hd, hinst⟩ := initFile_spec (fun _ _ _ => 0) fun _ => 0
  obtain ⟨c, hc, hbits, hcount, hsaved, hzero⟩ := Files.fill hinst 613 le_rfl
  refine ⟨d, hd, c, Relation.ReflTransGen.mono (fun _ _ => Files.Step.mono) _ _ hc, hsaved, ?_, 33,
    by omega, ?_⟩
  · rintro ⟨n, -, hn, hbit⟩
    simp only [fileSysBlocks] at hn
    rw [hbits n (by omega), decide_eq_true (by omega)] at hbit
    cases hbit
  · rw [allocBlock_of_some (zeroSlot_of_iff (by decide) hzero)]
    show (0 : ℤ) ≠ -1
    decide

end Nbos.Fs
