import Nbos.Fs.Layout
import Nbos.Lib.Chain
import Nbos.Lib.Loops
import Mathlib.Logic.Relation

/-!
# The inode allocator

`init_superBlock`, `init_inodeList` and `allocInode` of `file.c`. The free list is threaded through
the slots on disk; a slot is the pair of its block and its offset, and `slot n` is the `n`-th one.

* `InodeList d n` — the first `n` slots are handed out and the list runs through the others;
* `initInodeList_spec` — what initialisation leaves, whatever the stack and the disk held;
* `InodeClient` — the allocator under callers that write their inodes back in any order.
-/

namespace Nbos.Fs

open Nbos.Lib Nbos.Kernel

/-! ### The source -/

/-- `BLOCK_SIZE / sizeof(struct inode)`. -/
abbrev inodesPerBlock : ℕ := 4

/-- `init_superBlock`; `junk` is what its local holds, and what lies behind it. -/
def initSuperBlock (junk d : Bytes) : Bytes :=
  writeSuperBlock d junk
    { loadSuperBlock junk with
      freeInodeBlockNo := 1
      freeInodeOffset := 0
      dataBlockBitNo := fun i => .ofNat (inodeBlockSize + i + 1) }

/-- The inner loop body of `init_inodeList`, on the buffer of block `i`. -/
def inodeListItem (i j : ℕ) (arr : Bytes) : Bytes :=
  storeInode arr (inodeSize * j)
    { loadInode arr (inodeSize * j) with
      myInodeBlockNo := .ofNat i
      myInodeOffset := .ofNat (j * inodeSize)
      nextInodeBlockNo := .ofNat (if j = inodesPerBlock - 1 then i + 1 else i)
      nextInodeOffset := .ofNat (if j = inodesPerBlock - 1 then 0 else (j + 1) * inodeSize) }

/-- The outer loop body of `init_inodeList`, up to the write. -/
def inodeListBlock (i : ℕ) (arr : Bytes) : Bytes :=
  let arr := forRange inodesPerBlock (inodeListItem i) arr
  if i = inodeBlockSize then
    let last := inodeSize * (inodesPerBlock - 1)
    storeInode arr last { loadInode arr last with nextInodeOffset := 0, nextInodeBlockNo := 0 }
  else arr

/-- `init_inodeList`; `junk i` is what the buffer of round `i` holds before it is filled. -/
def initInodeList (junk : ℕ → Bytes) (d : Bytes) : Bytes :=
  forRange inodeBlockSize
    (fun i d => writeBlock d (inodeListBlock (i + 1) (junk (i + 1))) (i + 1)) d

/-- `allocInode`: the inode, or `none` for -1, and the disk. -/
def allocInode (junk d : Bytes) : Option Inode × Bytes :=
  let sb := readSuperBlock d
  if sb.freeInodeBlockNo = 0 then (none, d)
  else
    let i :=
      { readInode d sb.freeInodeBlockNo.toNat sb.freeInodeOffset.toNat with
        myInodeBlockNo := sb.freeInodeBlockNo
        myInodeOffset := sb.freeInodeOffset
        blockNo := fun _ => 0 }
    (some i, writeSuperBlock d junk
      { sb with freeInodeOffset := i.nextInodeOffset, freeInodeBlockNo := i.nextInodeBlockNo })

/-! ### Slots -/

/-- All slots: `INODE_BLOCK_SIZE * (BLOCK_SIZE / sizeof(struct inode))` of them. -/
abbrev inodeSlots : ℕ := inodeBlockSize * inodesPerBlock

/-- The block and the offset of the `n`-th slot. -/
def slot (n : ℕ) : ℕ × ℕ := (n / 4 + 1, 116 * (n % 4))

/-- The head of a free list from which the first `n` slots are gone. -/
def slotFrom (n : ℕ) : ℕ × ℕ := if n < 200 then slot n else (0, 0)

/-- Where an inode says it is. -/
def mySlot (i : Inode) : ℕ × ℕ := (i.myInodeBlockNo.toNat, i.myInodeOffset.toNat)

/-- Where an inode says the next free one is. -/
def nextSlot (i : Inode) : ℕ × ℕ := (i.nextInodeBlockNo.toNat, i.nextInodeOffset.toNat)

/-- The inode in a slot. -/
def inodeAt (d : Bytes) (s : ℕ × ℕ) : Inode := readInode d s.1 s.2

/-- The head of the free list. -/
def freeSlot (d : Bytes) : ℕ × ℕ :=
  ((readSuperBlock d).freeInodeBlockNo.toNat, (readSuperBlock d).freeInodeOffset.toNat)

section Slots

variable {n k : ℕ}

lemma slotFrom_of_lt (h : n < 200) : slotFrom n = slot n := if_pos h

lemma slot_inj (h : slot n = slot k) : n = k := by
  simp only [slot, Prod.mk.injEq] at h
  omega

lemma slot_fst_pos : 0 < (slot n).1 := Nat.succ_pos _

lemma slot_addressable (h : n < 200) : Addressable (slot n).1 := by
  simp only [slot, Addressable, superBlockSector]
  omega

lemma slot_snd_le : (slot n).2 + 116 ≤ 512 := by
  simp only [slot]
  omega

/-- Two slots of one block do not overlap. -/
lemma slot_disjoint (hne : n ≠ k) (h : (slot n).1 = (slot k).1) :
    (slot n).2 + 116 ≤ (slot k).2 ∨ (slot k).2 + 116 ≤ (slot n).2 := by
  simp only [slot] at *
  omega

end Slots

/-! ### What initialisation leaves -/

section Init

variable {arr d : Bytes} {junk : Bytes} {junks : ℕ → Bytes} {i j k n : ℕ}

lemma mySlot_inodeListItem (hi : i ≤ 50) (hj : j < 4) :
    mySlot (loadInode (inodeListItem i j arr) (116 * j)) = (i, 116 * j) := by
  rw [inodeListItem, loadInode_storeInode]
  simp only [mySlot, UInt32.toNat_ofNat', inodeSize]
  exact Prod.ext (by simp only; omega) (by simp only; omega)

lemma nextSlot_inodeListItem (hi : i ≤ 50) (hj : j < 4) :
    nextSlot (loadInode (inodeListItem i j arr) (116 * j)) =
      if j = 3 then (i + 1, 0) else (i, 116 * (j + 1)) := by
  rw [inodeListItem, loadInode_storeInode]
  simp only [nextSlot, UInt32.toNat_ofNat', inodeSize, inodesPerBlock]
  split
  · exact Prod.ext (by simp only; omega) rfl
  · exact Prod.ext (by simp only; omega) (by simp only; omega)

/-- A block of the list, before its last link is corrected. -/
lemma inodeListItems_spec (hi : i ≤ 50) : ∀ j < 4,
    mySlot (loadInode (forRange 4 (inodeListItem i) arr) (116 * j)) = (i, 116 * j) ∧
      nextSlot (loadInode (forRange 4 (inodeListItem i) arr) (116 * j)) =
        if j = 3 then (i + 1, 0) else (i, 116 * (j + 1)) := by
  refine forRange_inv (fun n (m : Bytes) => ∀ j < n, mySlot (loadInode m (116 * j)) = (i, 116 * j) ∧
    nextSlot (loadInode m (116 * j)) = if j = 3 then (i + 1, 0) else (i, 116 * (j + 1)))
    (fun j hj => absurd hj (by omega)) ?_
  intro n hn m ih j hj
  by_cases hjn : j = n
  · subst hjn
    exact ⟨mySlot_inodeListItem hi hn, nextSlot_inodeListItem hi hn⟩
  · have hkeep : loadInode (inodeListItem i n m) (116 * j) = loadInode m (116 * j) :=
      loadInode_storeInode_of_disjoint (by simp only [inodeSize]; omega)
    rw [hkeep]
    exact ih j (by omega)

lemma inodeListBlock_spec (hi : i ≤ 50) (hj : j < 4) :
    mySlot (loadInode (inodeListBlock i arr) (116 * j)) = (i, 116 * j) ∧
      nextSlot (loadInode (inodeListBlock i arr) (116 * j)) =
        if i = 50 ∧ j = 3 then (0, 0) else if j = 3 then (i + 1, 0) else (i, 116 * (j + 1)) := by
  have h := @inodeListItems_spec arr i hi
  unfold inodeListBlock
  generalize forRange inodesPerBlock (inodeListItem i) arr = m at h ⊢
  simp only [inodeSize, inodesPerBlock, inodeBlockSize]
  by_cases h50 : i = 50
  · rw [if_pos h50]
    by_cases h3 : j = 3
    · subst h3
      rw [loadInode_storeInode, if_pos ⟨h50, rfl⟩]
      exact ⟨(h 3 hj).1, rfl⟩
    · rw [loadInode_storeInode_of_disjoint (by omega), if_neg (fun hc => h3 hc.2)]
      exact h j hj
  · rw [if_neg h50, if_neg (fun hc => h50 hc.1)]
    exact h j hj

/-- **What `init_inodeList` leaves**: every slot knows where it is and points to the next one. -/
theorem initInodeList_spec (junks : ℕ → Bytes) (d : Bytes) : ∀ n < 200,
    mySlot (inodeAt (initInodeList junks d) (slot n)) = slot n ∧
      nextSlot (inodeAt (initInodeList junks d) (slot n)) = slotFrom (n + 1) := by
  suffices key : ∀ n < 4 * inodeBlockSize,
      mySlot (inodeAt (initInodeList junks d) (slot n)) = slot n ∧
        nextSlot (inodeAt (initInodeList junks d) (slot n)) = slotFrom (n + 1) from
    fun n hn => key n (by simp only [inodeBlockSize]; omega)
  refine forRange_inv (fun i (d : Bytes) => ∀ n < 4 * i,
    mySlot (inodeAt d (slot n)) = slot n ∧ nextSlot (inodeAt d (slot n)) = slotFrom (n + 1))
    (fun n hn => absurd hn (by omega)) ?_
  intro i hi d ih n hn
  simp only [inodeBlockSize] at hi
  by_cases hlt : n < 4 * i
  · -- an earlier block
    have hkeep : inodeAt (writeBlock d (inodeListBlock (i + 1) (junks (i + 1))) (i + 1)) (slot n) =
        inodeAt d (slot n) := by
      refine readInode_congr (readBlock_writeBlock_ne (slot_addressable (by omega)) ?_ ?_)
      · simp only [Addressable, superBlockSector]
        omega
      · simp only [slot]
        omega
    rw [hkeep]
    exact ih n hlt
  · obtain ⟨h1, h2⟩ := @inodeListBlock_spec (junks (i + 1)) (i + 1) (n % 4) (by omega) (by omega)
    have hslot : slot n = (i + 1, 116 * (n % 4)) := Prod.ext (by simp only [slot]; omega) rfl
    have hnew : inodeAt (writeBlock d (inodeListBlock (i + 1) (junks (i + 1))) (i + 1)) (slot n) =
        loadInode (inodeListBlock (i + 1) (junks (i + 1))) (116 * (n % 4)) := by
      rw [hslot]
      exact loadInode_congr fun k hk => readBlock_writeBlock_of_lt (by omega)
    rw [hnew, h1, h2, hslot]
    refine ⟨rfl, ?_⟩
    by_cases hend : n + 1 < 200
    · -- the next slot is in this block or at the start of the next one
      rw [if_neg (by omega), slotFrom_of_lt hend, slot]
      split
      · exact Prod.ext (by simp only; omega) (by simp only; omega)
      · exact Prod.ext (by simp only; omega) (by simp only; omega)
    · rw [if_pos (by omega), slotFrom, if_neg hend]

lemma readSuperBlock_initInodeList :
    readSuperBlock (initInodeList junks d) = readSuperBlock d := by
  refine forRange_inv (fun _ (t : Bytes) => readSuperBlock t = readSuperBlock d) rfl ?_
  intro i hi t ht
  simp only [inodeBlockSize] at hi
  rw [readSuperBlock_writeBlock (by simp only [Addressable, superBlockSector]; omega) (by omega), ht]

lemma freeSlot_initSuperBlock : freeSlot (initSuperBlock junk d) = slot 0 := by
  rw [freeSlot, initSuperBlock, readSuperBlock_writeSuperBlock]
  rfl

end Init

/-! ### The free list on disk -/

/-- The first `n` slots are handed out, the free list runs through the others in order, and every
slot knows where it is. -/
structure InodeList (d : Bytes) (n : ℕ) : Prop where
  le : n ≤ 200
  head : freeSlot d = slotFrom n
  own : ∀ k < 200, mySlot (inodeAt d (slot k)) = slot k
  link : ∀ k < 200, nextSlot (inodeAt d (slot k)) = slotFrom (k + 1)

lemma inodeList_init (junk d : Bytes) (junks : ℕ → Bytes) :
    InodeList (initInodeList junks (initSuperBlock junk d)) 0 := by
  have h := initInodeList_spec junks (initSuperBlock junk d)
  refine ⟨Nat.zero_le _, ?_, fun k hk => (h k hk).1, fun k hk => (h k hk).2⟩
  rw [freeSlot, readSuperBlock_initInodeList, ← freeSlot, freeSlot_initSuperBlock]
  rfl

section InodeList

variable {d d' junk : Bytes} {n k : ℕ} {i : Inode}

/-- The list is read off the super block and the inode blocks. -/
lemma InodeList.congr (h : InodeList d n) (hs : freeSlot d' = freeSlot d)
    (hd : ∀ k < 200, readBlock d' (slot k).1 = readBlock d (slot k).1) : InodeList d' n := by
  have hat : ∀ k < 200, inodeAt d' (slot k) = inodeAt d (slot k) := fun k hk =>
    readInode_congr (hd k hk)
  refine ⟨h.le, hs.trans h.head, fun k hk => ?_, fun k hk => ?_⟩
  · rw [hat k hk]
    exact h.own k hk
  · rw [hat k hk]
    exact h.link k hk

/-- The chain from the head visits the slots that are left, in order. -/
theorem InodeList.chain (h : InodeList d n) :
    Chain (fun s => nextSlot (inodeAt d s)) (freeSlot d) ((List.range' n (200 - n)).map slot)
      (0, 0) := by
  rw [h.head]
  have key : ∀ r k, k + r = 200 →
      Chain (fun s => nextSlot (inodeAt d s)) (slotFrom k) ((List.range' k r).map slot) (0, 0) := by
    intro r
    induction r with
    | zero =>
      intro k hk
      rw [slotFrom, if_neg (by omega)]
      rfl
    | succ r ih =>
      intro k hk
      rw [List.range'_succ, List.map_cons]
      refine ⟨slotFrom_of_lt (by omega), ?_⟩
      simp only [h.link k (by omega)]
      exact ih (k + 1) (by omega)
  exact key _ _ (by have := h.le; omega)

/-- An inode that is handed out has no blocks. -/
lemma allocInode_blockNo {i : Inode} (h : (allocInode junk d).1 = some i) :
    i.blockNo = fun _ => 0 := by
  rw [allocInode] at h
  split at h
  · cases h
  · rw [← Option.some_inj.mp h]

lemma allocInode_eq_none : (allocInode junk d).1 = none ↔ (readSuperBlock d).freeInodeBlockNo = 0 := by
  rw [allocInode]
  split
  · rename_i h
    exact iff_of_true rfl h
  · rename_i h
    exact iff_of_false (Option.some_ne_none _) h

lemma allocInode_of_none (h : (allocInode junk d).1 = none) : allocInode junk d = (none, d) :=
  if_pos (allocInode_eq_none.mp h)

lemma allocInode_of_full (h : InodeList d 200) : allocInode junk d = (none, d) := by
  have h0 : (readSuperBlock d).freeInodeBlockNo.toNat = 0 := congrArg Prod.fst h.head
  rw [allocInode]
  exact if_pos (UInt32.toNat_inj.mp h0)

/-- The inode `allocInode` hands out while a slot is left. -/
def freshInode (d : Bytes) (n : ℕ) : Inode :=
  { inodeAt d (slot n) with
    myInodeBlockNo := .ofNat (slot n).1
    myInodeOffset := .ofNat (slot n).2
    blockNo := fun _ => 0 }

lemma mySlot_freshInode (h : n < 200) : mySlot (freshInode d n) = slot n := by
  simp only [mySlot, freshInode, slot, UInt32.toNat_ofNat']
  exact Prod.ext (by simp only; omega) (by simp only; omega)

lemma nextSlot_freshInode (h : InodeList d n) (hn : n < 200) :
    nextSlot (freshInode d n) = slotFrom (n + 1) := h.link n hn

lemma InodeList.alloc (h : InodeList d n) (hn : n < 200) :
    (allocInode junk d).1 = some (freshInode d n) ∧
      (∀ b, Addressable b → b ≠ 0 → readBlock (allocInode junk d).2 b = readBlock d b) ∧
      readSuperBlock (allocInode junk d).2 =
        { readSuperBlock d with
          freeInodeBlockNo := (freshInode d n).nextInodeBlockNo
          freeInodeOffset := (freshInode d n).nextInodeOffset } := by
  have hhead := h.head
  rw [slotFrom_of_lt hn] at hhead
  have h1 : (readSuperBlock d).freeInodeBlockNo.toNat = (slot n).1 := congrArg Prod.fst hhead
  have h2 : (readSuperBlock d).freeInodeOffset.toNat = (slot n).2 := congrArg Prod.snd hhead
  have hne : (readSuperBlock d).freeInodeBlockNo ≠ 0 := fun e => by
    have hpos := slot_fst_pos (n := n)
    rw [← h1, e] at hpos
    exact absurd hpos (by decide)
  have hfresh : ∀ i : Inode, i = freshInode d n ↔ i = { readInode d
      (readSuperBlock d).freeInodeBlockNo.toNat (readSuperBlock d).freeInodeOffset.toNat with
      myInodeBlockNo := (readSuperBlock d).freeInodeBlockNo
      myInodeOffset := (readSuperBlock d).freeInodeOffset
      blockNo := fun _ => 0 } := by
    intro i
    rw [freshInode, ← h1, ← h2, UInt32.ofNat_toNat, UInt32.ofNat_toNat, inodeAt, ← h1, ← h2]
  rw [allocInode, if_neg hne, ← (hfresh _).mpr rfl]
  exact ⟨rfl, fun b hb hb0 => readBlock_writeSuperBlock hb hb0, readSuperBlock_writeSuperBlock⟩

lemma InodeList.alloc_next (h : InodeList d n) (hn : n < 200) :
    InodeList (allocInode junk d).2 (n + 1) := by
  obtain ⟨-, hblock, hsb⟩ := @InodeList.alloc d junk n h hn
  have hat : ∀ k < 200, inodeAt (allocInode junk d).2 (slot k) = inodeAt d (slot k) := fun k hk =>
    readInode_congr (hblock _ (slot_addressable hk) slot_fst_pos.ne')
  refine ⟨hn, ?_, fun k hk => ?_, fun k hk => ?_⟩
  · rw [freeSlot, hsb]
    exact nextSlot_freshInode h hn
  · rw [hat k hk]
    exact h.own k hk
  · rw [hat k hk]
    exact h.link k hk

/-- Writing an inode back changes the inode of its slot and no other. -/
lemma inodeAt_writeInode (hk : k < 200) (hn : n < 200) (hi : mySlot i = slot k) :
    inodeAt (writeInode i d) (slot n) = if n = k then i else inodeAt d (slot n) := by
  have hb : i.myInodeBlockNo.toNat = (slot k).1 := congrArg Prod.fst hi
  have ho : i.myInodeOffset.toNat = (slot k).2 := congrArg Prod.snd hi
  have hle := slot_snd_le (n := k)
  split
  · rename_i hnk
    subst hnk
    rw [inodeAt, ← hb, ← ho]
    exact readInode_writeInode_self (by omega)
  · rename_i hnk
    by_cases hbn : (slot n).1 = (slot k).1
    · have hdis := slot_disjoint hnk hbn
      rw [inodeAt, inodeAt, hbn, ← hb]
      exact readInode_writeInode_of_disjoint (by omega) slot_snd_le
    · refine readInode_congr (readBlock_writeInode (slot_addressable hn) ?_ (by omega))
      rw [hb]
      exact slot_addressable hk

lemma readSuperBlock_writeInode (hk : k < 200) (hi : mySlot i = slot k) :
    readSuperBlock (writeInode i d) = readSuperBlock d := by
  have hb : i.myInodeBlockNo.toNat = (slot k).1 := congrArg Prod.fst hi
  refine readSuperBlock_writeBlock ?_ ?_
  · rw [hb]
    exact slot_addressable hk
  · rw [hb]
    exact slot_fst_pos.ne'

/-- An inode may be written back as long as its place and its link are its own. -/
lemma InodeList.write (h : InodeList d n) (hk : k < 200) (hm : mySlot i = slot k)
    (hx : nextSlot i = slotFrom (k + 1)) : InodeList (writeInode i d) n := by
  refine ⟨h.le, ?_, fun j hj => ?_, fun j hj => ?_⟩
  · rw [freeSlot, readSuperBlock_writeInode hk hm]
    exact h.head
  · rw [inodeAt_writeInode hk hj hm]
    split
    · rename_i hjk
      rw [hm, hjk]
    · exact h.own j hj
  · rw [inodeAt_writeInode hk hj hm]
    split
    · rename_i hjk
      rw [hx, hjk]
    · exact h.link j hj

end InodeList

/-! ### The allocator under its callers -/

/-- The disk, the slots handed out, and the inodes in memory that came from them. -/
structure InodeClient where
  disk : Bytes
  out : List (ℕ × ℕ)
  held : List Inode

/-- One call of `allocInode`, one inode of a slot handed out read back, or one inode written back
that has the place and the link of an inode in memory. -/
inductive InodeClient.Step : InodeClient → InodeClient → Prop
  | alloc (c : InodeClient) (junk : Bytes) (i : Inode) : (allocInode junk c.disk).1 = some i →
      InodeClient.Step c ⟨(allocInode junk c.disk).2, mySlot i :: c.out, i :: c.held⟩
  | full (c : InodeClient) (junk : Bytes) : (allocInode junk c.disk).1 = none →
      InodeClient.Step c ⟨(allocInode junk c.disk).2, c.out, c.held⟩
  | read (c : InodeClient) (s : ℕ × ℕ) : s ∈ c.out →
      InodeClient.Step c ⟨c.disk, c.out, inodeAt c.disk s :: c.held⟩
  | write (c : InodeClient) (i j : Inode) : j ∈ c.held → mySlot i = mySlot j →
      nextSlot i = nextSlot j → InodeClient.Step c ⟨writeInode i c.disk, c.out, c.held⟩

/-- The disk after `init_superBlock` and `init_inodeList`, nothing handed out. -/
def InodeClient.init (junk d : Bytes) (junks : ℕ → Bytes) : InodeClient :=
  ⟨initInodeList junks (initSuperBlock junk d), [], []⟩

/-- The slots are handed out in order, and what is in memory has its own place and link. -/
structure InodeClient.Inv (c : InodeClient) : Prop where
  list : InodeList c.disk c.out.length
  out : ∀ s, s ∈ c.out ↔ ∃ k < c.out.length, s = slot k
  nodup : c.out.Nodup
  held : ∀ i ∈ c.held, ∃ k < c.out.length, mySlot i = slot k ∧ nextSlot i = slotFrom (k + 1)

section InodeClient

variable {c c' : InodeClient}

lemma InodeClient.inv_init (junk d : Bytes) (junks : ℕ → Bytes) :
    (InodeClient.init junk d junks).Inv :=
  ⟨inodeList_init junk d junks, by simp [InodeClient.init], List.nodup_nil,
    by simp [InodeClient.init]⟩

lemma InodeClient.Inv.lt_of_alloc {junk : Bytes} {i : Inode} (h : c.Inv)
    (hi : (allocInode junk c.disk).1 = some i) :
    c.out.length < 200 ∧ i = freshInode c.disk c.out.length := by
  have hle := h.list.le
  have hne : c.out.length ≠ 200 := fun e => by
    have hfull := h.list
    rw [e] at hfull
    rw [allocInode_of_full hfull] at hi
    cases hi
  have hlt : c.out.length < 200 := by omega
  rw [(h.list.alloc hlt).1] at hi
  exact ⟨hlt, (Option.some_inj.mp hi).symm⟩

theorem InodeClient.inv_step (h : c.Inv) (hs : InodeClient.Step c c') : c'.Inv := by
  cases hs with
  | alloc junk i hi =>
    obtain ⟨hlt, rfl⟩ := h.lt_of_alloc hi
    refine ⟨h.list.alloc_next hlt, fun s => ?_, ?_, ?_⟩
    · rw [List.mem_cons, h.out, mySlot_freshInode hlt]
      constructor
      · rintro (rfl | ⟨k, hk, rfl⟩)
        · exact ⟨_, Nat.lt_succ_self _, rfl⟩
        · exact ⟨k, Nat.lt_succ_of_lt hk, rfl⟩
      · rintro ⟨k, hk, rfl⟩
        rcases Nat.lt_succ_iff_lt_or_eq.mp hk with hk | rfl
        · exact .inr ⟨k, hk, rfl⟩
        · exact .inl rfl
    · rw [mySlot_freshInode hlt]
      refine List.nodup_cons.mpr ⟨fun hm => ?_, h.nodup⟩
      obtain ⟨k, hk, he⟩ := (h.out _).mp hm
      exact absurd (slot_inj he) hk.ne'
    · refine List.forall_mem_cons.mpr ⟨⟨_, Nat.lt_succ_self _, mySlot_freshInode hlt,
        nextSlot_freshInode h.list hlt⟩, fun j hj => ?_⟩
      obtain ⟨k, hk, hjk⟩ := h.held j hj
      exact ⟨k, Nat.lt_succ_of_lt hk, hjk⟩
  | full junk hnone =>
    have hle := h.list.le
    have hfull : c.out.length = 200 := by
      by_contra hne
      rw [(h.list.alloc (by omega)).1] at hnone
      cases hnone
    have hd : (allocInode junk c.disk).2 = c.disk := by
      have hlist := h.list
      rw [hfull] at hlist
      rw [allocInode_of_full hlist]
    rw [hd]
    exact h
  | read s hs =>
    refine ⟨h.list, h.out, h.nodup, List.forall_mem_cons.mpr ⟨?_, h.held⟩⟩
    obtain ⟨k, hk, rfl⟩ := (h.out s).mp hs
    have hle := h.list.le
    exact ⟨k, hk, h.list.own k (by omega), h.list.link k (by omega)⟩
  | write i j hj hm hx =>
    obtain ⟨k, hk, hjm, hjx⟩ := h.held j hj
    have hle := h.list.le
    exact ⟨h.list.write (by omega) (hm.trans hjm) (hx.trans hjx), h.out, h.nodup, h.held⟩

/-- **The inode allocator.** On any disk, with any stack, after any calls: the free list is a chain
of the slots not handed out, each once; every slot knows where it is; no slot has been handed out
twice; and `allocInode` fails exactly when all are gone, leaving the disk alone. -/
theorem allocInode_freeList {junk d : Bytes} {junks : ℕ → Bytes}
    (h : Relation.ReflTransGen InodeClient.Step (InodeClient.init junk d junks) c) :
    (∃ L, Chain (fun s => nextSlot (inodeAt c.disk s)) (freeSlot c.disk) L (0, 0) ∧ L.Nodup ∧
      ∀ s, s ∈ L ↔ (∃ n < inodeSlots, s = slot n) ∧ s ∉ c.out) ∧
    (∀ n < inodeSlots, mySlot (inodeAt c.disk (slot n)) = slot n) ∧
    c.out.Nodup ∧
    ∀ junk, ((allocInode junk c.disk).1 = none ↔ c.out.length = inodeSlots) ∧
      ((allocInode junk c.disk).1 = none → (allocInode junk c.disk).2 = c.disk) := by
  have hinv : c.Inv := by
    induction h with
    | refl => exact InodeClient.inv_init junk d junks
    | tail _ hs ih => exact InodeClient.inv_step ih hs
  have hle := hinv.list.le
  refine ⟨⟨_, hinv.list.chain, ?_, fun s => ?_⟩, hinv.list.own, hinv.nodup, fun junk => ?_⟩
  · exact List.Nodup.map (fun _ _ => slot_inj) (List.nodup_range' 1)
  · rw [List.mem_map, hinv.out]
    constructor
    · rintro ⟨n, hn, rfl⟩
      rw [List.mem_range'_1] at hn
      refine ⟨⟨n, show n < 200 by omega, rfl⟩, ?_⟩
      rintro ⟨k, hk, he⟩
      have := slot_inj he
      omega
    · rintro ⟨⟨n, hn, rfl⟩, hne⟩
      have hn : n < 200 := hn
      refine ⟨n, List.mem_range'_1.mpr ⟨?_, by omega⟩, rfl⟩
      by_contra hlt
      exact hne ⟨n, by omega, rfl⟩
  · by_cases hfull : c.out.length = 200
    · have hlist := hinv.list
      rw [hfull] at hlist
      rw [allocInode_of_full hlist]
      exact ⟨⟨fun _ => hfull, fun _ => rfl⟩, fun _ => rfl⟩
    · rw [(hinv.list.alloc (by omega)).1]
      exact ⟨⟨nofun, fun e => absurd e hfull⟩, nofun⟩

end InodeClient

/-- The next slot is handed out. -/
lemma InodeClient.Inv.next {c : InodeClient} (h : c.Inv) (hlt : c.out.length < 200) :
    ∃ c', InodeClient.Step c c' ∧ c'.Inv ∧ c'.out = slot c.out.length :: c.out ∧ ∃ i, i ∈ c'.held := by
  have hs := InodeClient.Step.alloc c (fun _ => 0) _ (h.list.alloc hlt).1
  exact ⟨_, hs, InodeClient.inv_step h hs, by rw [mySlot_freshInode hlt], _, List.mem_cons_self ..⟩

/-- An inode is handed out and written back, and another one is handed out. -/
theorem allocInode_freeList_zeroDisk : ∃ c, Relation.ReflTransGen InodeClient.Step
    (InodeClient.init (fun _ => 0) (fun _ => 0) fun _ _ => 0) c ∧ c.out = [slot 1, slot 0] ∧
      (∃ L, Chain (fun s => nextSlot (inodeAt c.disk s)) (freeSlot c.disk) L (0, 0) ∧ L.Nodup ∧
        slot 0 ∉ L ∧ slot 1 ∉ L ∧ slot 2 ∈ L) ∧ c.out.Nodup := by
  obtain ⟨c₁, hs₁, h₁, hout₁, i, hi⟩ :=
    (InodeClient.inv_init (fun _ => 0) (fun _ => 0) fun _ _ => 0).next (by decide)
  have hs₂ := InodeClient.Step.write c₁ i i hi rfl rfl
  obtain ⟨c, hs₃, -, hout, -⟩ := (InodeClient.inv_step h₁ hs₂).next (by rw [hout₁]; decide)
  rw [hout₁] at hout
  have hout : c.out = [slot 1, slot 0] := hout
  have hrun := ((Relation.ReflTransGen.refl.tail hs₁).tail hs₂).tail hs₃
  obtain ⟨⟨L, hchain, hnd, hmem⟩, -, hslots, -⟩ := allocInode_freeList hrun
  rw [hout] at hmem
  refine ⟨c, hrun, hout, ⟨L, hchain, hnd, ?_, ?_, ?_⟩, hslots⟩
  · simp [hmem]
  · simp [hmem]
  · exact (hmem _).mpr ⟨⟨2, by decide, rfl⟩, by decide⟩

end Nbos.Fs
