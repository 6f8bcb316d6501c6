import Nbos.Fs.AllocBlock
import Nbos.Fs.File
import Nbos.Fs.RootDir

/-!
# Items side by side

The place of a new item is computed from the size of the directory alone. 18 items of 28 bytes fit a
block of 512 and the item after them goes to the start of the next block, but the 8 bytes that stay
empty are not added to the size: from the second item of the second block on a place is 8 bytes short
of the end of the item before it.

`itemsLaid_iff`: a directory keeps its items as long as there are at most 19 of them.
-/

namespace Nbos.Fs

open Nbos.Lib Nbos.Kernel

/-! ### Items -/

/-- The 28 bytes at `o` are an item: a terminated name in its field, and the place of an inode. -/
structure ItemAt (m : Bytes) (o : ℕ) (name : List UInt8) (i : Inode) : Prop where
  short : name.length < fileNameMax
  stands : StandsAt name m o
  ended : m (o + name.length) = 0
  blockNo : get32 m (o + 20) = i.myInodeBlockNo.toNat
  offset : get32 m (o + 24) = i.myInodeOffset.toNat

/-- What a directory gets: the file at the end of a path, with its inode. -/
structure Entry where
  path : List UInt8
  inode : Inode

/-- A path that `writeDirectory` can copy, to a name that fits the field. -/
structure IsEntry (e : Entry) : Prop where
  path : e.path.length < 100
  name : (itemName e.path).length < fileNameMax

/-- An item more, as `init_userpro` adds it. -/
def addEntry (s : Inode × Bytes) (e : Entry) : Option (Inode × Bytes) := do
  let (dir, d) ← writeDirectory s.1 e.path e.inode s.2
  return ({ dir with size := dir.size + .ofNat dirItemSize }, d)

/-- Items one after the other. -/
def addEntries (es : List Entry) (s : Inode × Bytes) : Option (Inode × Bytes) := es.foldlM addEntry s

/-- The block `k` of a directory, 0 when it has none. -/
def blockAt (dir : Inode) (k : ℕ) : UInt32 :=
  if h : k < maxBlocksInFile then dir.blockNo ⟨k, h⟩ else 0

/-- The directory with the size of `a` items. -/
def sized (dir : Inode) (a : ℕ) : Inode := { dir with size := .ofNat (dirItemSize * a) }

/-- The place of the item number `a`: its block, and where it starts there. -/
def itemPlace (dir : Inode) (a : ℕ) : ℕ × ℕ := (itemIndex (sized dir a), itemOffset (sized dir a))

/-- The items stand at their places in blocks of the directory, and no two of them overlap. -/
structure ItemsLaid (dir : Inode) (d : Bytes) (es : List Entry) (place : ℕ → ℕ × ℕ) : Prop where
  allocated : ∀ a < es.length, blockAt dir (place a).1 ≠ 0
  inside : ∀ a < es.length, (place a).2 + dirItemSize ≤ blockSize
  items : ∀ a (h : a < es.length), ItemAt (readBlock d (blockAt dir (place a).1).toNat) (place a).2
    (itemName es[a].path) es[a].inode
  disjoint : ∀ a b, a < b → b < es.length → blockAt dir (place a).1 ≠ blockAt dir (place b).1 ∨
    (place a).2 + dirItemSize ≤ (place b).2 ∨ (place b).2 + dirItemSize ≤ (place a).2

/-- An empty directory with its first block. The blocks that it lists are different data blocks. -/
structure EmptyDir (dir : Inode) (d : Bytes) : Prop where
  size : dir.size = 0
  first : dir.blockNo 0 ≠ 0
  listed : ListedHigh dir
  busy : ∀ k, dir.blockNo k ≠ 0 → busy d (dir.blockNo k).toNat = true
  distinct : ∀ j k, j ≠ k → dir.blockNo j ≠ 0 → dir.blockNo j ≠ dir.blockNo k

section Items

variable {m m' : Bytes} {o a : ℕ} {name : List UInt8} {i dir : Inode}

lemma itemAt_putDirItem (h : name.length < 20) : ItemAt (putDirItem m o name i) o name i :=
  ⟨h, standsAt_putDirItem, putDirItem_end, get32_putDirItem_blockNo h, get32_putDirItem_offset h⟩

/-- An item depends on its 28 bytes alone. -/
lemma ItemAt.congr (h : ItemAt m o name i) (hm : ∀ x, o ≤ x → x < o + 28 → m' x = m x) :
    ItemAt m' o name i := by
  have hlen : name.length < 20 := h.short
  constructor
  · exact h.short
  · exact h.stands.congr fun k hk => hm _ (by omega) (by omega)
  · rw [hm _ (by omega) (by omega), h.ended]
  · rw [get32_congr fun k hk => hm _ (by omega) (by omega), h.blockNo]
  · rw [get32_congr fun k hk => hm _ (by omega) (by omega), h.offset]

lemma blockAt_of_lt (h : a < maxBlocksInFile) : blockAt dir a = dir.blockNo ⟨a, h⟩ := dif_pos h

/-! ### Places -/

lemma itemPlace_eq (h : a ≤ 366) : itemPlace dir a =
    if 512 < 28 * a % 512 + 28 then (28 * a / 512 + 1, 0) else (28 * a / 512, 28 * a % 512) := by
  have hsize : (UInt32.ofNat (dirItemSize * a)).toNat = 28 * a := by
    rw [UInt32.toNat_ofNat']
    exact Nat.mod_eq_of_lt (by simp only [dirItemSize]; omega)
  simp only [itemPlace, sized, itemIndex, itemOffset, ItemFull, hsize, blockSize, dirItemSize]
  split <;> rfl

lemma itemPlace_first (h : a < 18) : itemPlace dir a = (0, 28 * a) := by
  have hlt : 28 * a < 512 := by omega
  rw [itemPlace_eq (by omega), Nat.mod_eq_of_lt hlt, if_neg (by omega), Nat.div_eq_of_lt hlt]

lemma itemPlace_18 : itemPlace dir 18 = (1, 0) := by
  rw [itemPlace_eq (by decide)]
  rfl

/-- The item after that starts within the one before it. -/
lemma itemPlace_19 : itemPlace dir 19 = (1, 20) := by
  rw [itemPlace_eq (by decide)]
  rfl

end Items

/-! ### Adding items -/

section Run

variable {d d' : Bytes} {dir i : Inode} {e : Entry} {es : List Entry} {a k n o : ℕ}
  {s : Inode × Bytes}

lemma itemDisk_size {k : Fin maxBlocksInFile} : (itemDisk dir k d).1.size = dir.size := by
  rw [itemDisk]
  split
  · cases h : zeroSlot dir with
    | none => rw [allocBlock_of_none h]
    | some j => rw [allocBlock_of_some h]
  · rfl

lemma itemFull_iff : ItemFull dir ↔ 512 < dir.size.toNat % 512 + 28 := Iff.rfl

lemma itemOffset_le : itemOffset dir + 28 ≤ 512 := by
  rw [itemOffset]
  split
  · omega
  · rename_i hfull
    rw [itemFull_iff] at hfull
    show dir.size.toNat % 512 + 28 ≤ 512
    omega

lemma itemIndex_lt (h : dir.size.toNat + 28 ≤ 10240) : itemIndex dir < maxBlocksInFile := by
  rw [itemIndex]
  split
  · rename_i hfull
    rw [itemFull_iff] at hfull
    show dir.size.toNat / 512 + 1 < 20
    omega
  · show dir.size.toNat / 512 < 20
    omega

/-- One more item: where it goes is read off the size, and the block is got first if need be. -/
lemma addEntry_eq (he : IsEntry e) {hk : k < maxBlocksInFile} (hindex : itemIndex dir = k)
    (hoffset : itemOffset dir = o) {dir₁ : Inode} {d₁ : Bytes}
    (hdisk : itemDisk dir ⟨k, hk⟩ d = (dir₁, d₁)) :
    addEntry (dir, d) e =
      some ({ dir₁ with size := dir.size + .ofNat dirItemSize },
        writeBlock d₁ (putDirItem (readBlock d₁ (dir₁.blockNo ⟨k, hk⟩).toNat) o (itemName e.path)
          e.inode) (dir₁.blockNo ⟨k, hk⟩).toNat) := by
  subst hindex hoffset
  have hname : (itemName e.path).length < 20 := he.name
  have hoff := @itemOffset_le dir
  have hsize : dir₁.size = dir.size := by rw [← @itemDisk_size d dir, hdisk]
  have hw := @writeDirectory_eq d dir e.inode e.path (not_le.mpr he.path) hk
    (by simp only [blockSize]; omega)
  rw [hdisk] at hw
  rw [addEntry, hw]
  simp only [Option.bind_eq_bind, Option.bind_some, hsize]
  rfl

/-- What is in the block then. -/
lemma readBlock_putDirItem {b : ℕ} {name : List UInt8} (hname : name.length < 20)
    (ho : o + 28 ≤ 512) :
    readBlock (writeBlock d (putDirItem (readBlock d b) o name i) b) b =
      putDirItem (readBlock d b) o name i := by
  refine readBlock_writeBlock_self fun x hx => ?_
  rw [putDirItem_of_not_mem hname (by omega), readBlock_of_ge hx]

lemma addEntries_append : addEntries (es ++ [e]) s = (addEntries es s).bind (addEntry · e) := by
  rw [addEntries, List.foldlM_append]
  refine congrArg _ (funext fun t => ?_)
  rw [List.foldlM_cons]
  simp

/-- The items that fit the blocks of a directory can all be added. -/
lemma addEntries_ends (hsize : dir.size = 0) (hes : ∀ e ∈ es, IsEntry e)
    (hfit : dirItemSize * es.length ≤ maxBlocksInFile * blockSize) :
    ∃ dir' d', addEntries es (dir, d) = some (dir', d') ∧ dir'.size.toNat = 28 * es.length := by
  induction es using List.reverseRecOn with
  | nil => exact ⟨dir, d, rfl, by rw [hsize]; rfl⟩
  | append_singleton es e ih =>
    simp only [List.length_append, List.length_singleton, dirItemSize, maxBlocksInFile,
      blockSize] at hfit
    obtain ⟨dir', d', hrun, hs⟩ := ih (fun e he => hes e (List.mem_append_left _ he))
      (by simp only [dirItemSize, maxBlocksInFile, blockSize]; omega)
    have hin : itemIndex dir' < maxBlocksInFile := itemIndex_lt (by omega)
    have he : IsEntry e := hes e (List.mem_append_right _ (List.mem_singleton_self e))
    have hadd := @addEntry_eq d' dir' e _ _ he hin rfl rfl _ _ rfl
    simp only [addEntries_append, hrun, Option.bind_some, hadd]
    refine ⟨_, _, rfl, ?_⟩
    show (dir'.size + .ofNat dirItemSize).toNat = _
    rw [UInt32.toNat_add, hs, List.length_append, List.length_singleton]
    show (28 * es.length + 28) % 2 ^ 32 = _
    omega

lemma sized_succ : { sized dir a with size := (sized dir a).size + .ofNat dirItemSize } =
    sized dir (a + 1) := by
  have h : UInt32.ofNat (dirItemSize * a) + .ofNat dirItemSize = .ofNat (dirItemSize * (a + 1)) := by
    rw [← UInt32.ofNat_add]
    rfl
  simp only [sized, h]

/-- **The items of the first block.** -/
lemma addEntries_first (h : EmptyDir dir d) (hes : ∀ e ∈ es, IsEntry e) (hk : es.length ≤ 18) :
    ∃ d', addEntries es (dir, d) = some (sized dir es.length, d') ∧
      (∀ x, ¬ InBlock (dir.blockNo 0).toNat x → d' x = d x) ∧
      ∀ a (h : a < es.length), ItemAt (readBlock d' (dir.blockNo 0).toNat) (28 * a)
        (itemName es[a].path) es[a].inode := by
  induction es using List.reverseRecOn with
  | nil =>
    refine ⟨d, ?_, fun _ _ => rfl, fun a ha => absurd ha (Nat.not_lt_zero a)⟩
    have hsize : dir.size = .ofNat (dirItemSize * 0) := h.size
    show some (dir, d) = some (sized dir 0, d)
    rw [sized, ← hsize]
  | append_singleton es e ih =>
    have hlen : (es ++ [e]).length = es.length + 1 := by simp
    rw [hlen] at hk
    obtain ⟨d', hrun, hframe, hitems⟩ :=
      ih (fun e he => hes e (List.mem_append_left _ he)) (by omega)
    have he : IsEntry e := hes e (List.mem_append_right _ (List.mem_singleton_self e))
    have hname : (itemName e.path).length < 20 := he.name
    obtain ⟨hindex, hoffset⟩ := Prod.mk.inj (@itemPlace_first es.length dir (by omega))
    have hadd := @addEntry_eq d' (sized dir es.length) e 0 _ he (by decide) hindex hoffset _ _
      (if_neg fun hf => h.first hf.2)
    have hblock := @readBlock_putDirItem d' e.inode (28 * es.length) (dir.blockNo 0).toNat _ hname
      (by omega)
    refine ⟨writeBlock d' (putDirItem (readBlock d' (dir.blockNo 0).toNat) (28 * es.length)
      (itemName e.path) e.inode) (dir.blockNo 0).toNat, ?_, ?_, ?_⟩
    · rw [addEntries_append, hrun, Option.bind_some, hadd, hlen, sized_succ]
      rfl
    · intro x hx
      exact (writeBlock_of_not hx).trans (hframe x hx)
    · intro a ha
      rw [hblock]
      rcases Nat.lt_or_eq_of_le (Nat.le_of_lt_succ (hlen ▸ ha)) with hlt | rfl
      · rw [List.getElem_append_left hlt]
        exact (hitems a hlt).congr fun x _ hx => putDirItem_of_not_mem hname (.inl (by omega))
      · rw [List.getElem_concat_length]
        · exact itemAt_putDirItem hname
        · rfl

/-- The second block is there, or it is the lowest free one. -/
lemma secondBlock (h : EmptyDir dir d) (hsb : (readSuperBlock d).dataBlockBitNo 0 = 51)
    (hlow : LowestFree d n) (hdata : 56 ≤ n) (hsys : n ≤ 700)
    (hframe : ∀ x, ¬ InBlock (dir.blockNo 0).toNat x → d' x = d x) :
    ∃ dir₁ d₁, itemDisk (sized dir 18) 1 d' = (dir₁, d₁) ∧ dir₁.blockNo 0 = dir.blockNo 0 ∧
      dir₁.blockNo 1 ≠ 0 ∧ dir₁.blockNo 1 ≠ dir.blockNo 0 ∧ Addressable (dir₁.blockNo 1).toNat ∧
      readBlock d₁ (dir.blockNo 0).toNat = readBlock d' (dir.blockNo 0).toNat := by
  have haddr := h.listed.addressable h.first
  obtain ⟨hge, -⟩ := h.listed 0 h.first
  have hbusy := h.busy 0 h.first
  by_cases hzero : dir.blockNo 1 = 0
  swap
  · refine ⟨sized dir 18, d', if_neg fun hf => hzero hf.2, rfl, hzero, ?_,
      h.listed.addressable hzero, rfl⟩
    exact fun e => h.distinct 0 1 (by decide) h.first e.symm
  · -- the first block is not empty, so that the block goes to the second slot
    have hslot : zeroSlot (sized dir 18) = some 1 := by
      obtain ⟨j, hj⟩ := exists_zeroSlot (i := sized dir 18) ⟨1, hzero⟩
      have hl := lowestSlot_of_zeroSlot hj
      have h0 : (j : ℕ) ≠ 0 := fun e => h.first ((Fin.ext e : j = 0) ▸ hl.zero)
      have h1 : ¬ 1 < (j : ℕ) := fun hlt => hl.used 1 hlt hzero
      have hj1 : (j : ℕ) = 1 := by omega
      rw [hj, (Fin.ext hj1 : j = 1)]
    have hother : ∀ b < 56, readBlock d' b = readBlock d b := by
      intro b hb
      refine readBlock_congr fun x hx => hframe x (not_inBlock_of_ne ?_ haddr (by omega) hx)
      simp only [Addressable, superBlockSector]
      omega
    have hbits : ∀ m < 4096, busy d' m = busy d m := fun m hm => by
      rw [busy_eq hm, busy_eq hm, hother bitBlock (by decide)]
    have hfree : busy d' n = false := by rw [hbits n (by omega), hlow.free]
    have hfreeBlock : freeBlock d' = n := by
      refine freeBlock_eq_lowest ?_ (by omega) ⟨hfree, fun m hm => ?_⟩
      · rw [readSuperBlock_congr (hother _ (by decide)), hsb]
      · rw [hbits m (by omega), hlow.full m hm]
    have hfull : ItemFull (sized dir 18) := by
      show 512 < (UInt32.ofNat (28 * 18)).toNat % 512 + 28
      decide
    have hne : (dir.blockNo 0).toNat ≠ n := by
      intro e
      rw [e, hlow.free] at hbusy
      cases hbusy
    have hnat : (UInt32.ofNat n).toNat = n := by
      rw [UInt32.toNat_ofNat', Nat.mod_eq_of_lt (by omega)]
    refine ⟨withBlock (sized dir 18) 1 n, takenBlock n d', ?_, rfl, ?_, ?_, ?_, ?_⟩
    · rw [itemDisk, if_pos ⟨hfull, hzero⟩, allocBlock_of_some hslot, hfreeBlock]
      rfl
    · rw [withBlock_blockNo, if_pos rfl]
      intro e
      rw [e] at hnat
      exact absurd hnat (by simp; omega)
    · rw [withBlock_blockNo, if_pos rfl]
      exact fun e => hne (by rw [← e, hnat])
    · rw [withBlock_blockNo, if_pos rfl, hnat]
      simp only [Addressable, superBlockSector]
      omega
    · exact readBlock_takenBlock (by omega) (by omega) hfree haddr hne (by omega)

/-- **The item after the first block** goes to the start of the second one. -/
lemma addEntries_second (h : EmptyDir dir d) (hsb : (readSuperBlock d).dataBlockBitNo 0 = 51)
    (hlow : LowestFree d n) (hdata : 56 ≤ n) (hsys : n ≤ 700) (hes : ∀ e ∈ es, IsEntry e)
    (he : IsEntry e) (hlen : es.length = 18) :
    ∃ dir' d', addEntries (es ++ [e]) (dir, d) = some (dir', d') ∧
      dir'.blockNo 0 = dir.blockNo 0 ∧ dir'.blockNo 1 ≠ 0 ∧ dir'.blockNo 1 ≠ dir.blockNo 0 ∧
      (∀ a (h : a < es.length), ItemAt (readBlock d' (dir.blockNo 0).toNat) (28 * a)
        (itemName es[a].path) es[a].inode) ∧
      ItemAt (readBlock d' (dir'.blockNo 1).toNat) 0 (itemName e.path) e.inode := by
  have hname : (itemName e.path).length < 20 := he.name
  obtain ⟨d', hrun, hframe, hitems⟩ := addEntries_first h hes (by omega)
  obtain ⟨dir₁, d₁, hdisk, h0, h1, h01, haddr, hkept⟩ := secondBlock h hsb hlow hdata hsys hframe
  obtain ⟨hindex, hoffset⟩ := Prod.mk.inj (@itemPlace_18 dir)
  have hadd := @addEntry_eq d' (sized dir 18) e 1 _ he (by decide) hindex hoffset _ _ hdisk
  have hblock := @readBlock_putDirItem d₁ e.inode 0 (dir₁.blockNo 1).toNat _ hname (by decide)
  rw [hlen] at hrun
  simp only [addEntries_append, hrun, Option.bind_some, hadd]
  refine ⟨_, _, rfl, h0, h1, h01, ?_, ?_⟩
  · intro a ha
    have hne : (dir.blockNo 0).toNat ≠ (dir₁.blockNo 1).toNat :=
      fun e => h01 (UInt32.toNat_inj.mp e).symm
    have hfirst : ∀ arr, readBlock (writeBlock d₁ arr (dir₁.blockNo 1).toNat) (dir.blockNo 0).toNat =
        readBlock d' (dir.blockNo 0).toNat := fun arr =>
      (readBlock_writeBlock_ne (h.listed.addressable h.first) haddr hne).trans hkept
    exact (hfirst _).symm ▸ hitems a ha
  · exact hblock.symm ▸ itemAt_putDirItem hname

/-- What a directory keeps of its items while they do not overlap. -/
lemma itemsLaid_of_le (h : EmptyDir dir d) (hsb : (readSuperBlock d).dataBlockBitNo 0 = 51)
    (hlow : LowestFree d n) (hdata : 56 ≤ n) (hsys : n ≤ 700) (hes : ∀ e ∈ es, IsEntry e)
    (hk : es.length ≤ 19) :
    ∃ dir' d', addEntries es (dir, d) = some (dir', d') ∧ ItemsLaid dir' d' es (itemPlace dir) := by
  have hplace : ∀ a < 18, itemPlace dir a = (0, 28 * a) := fun a ha => itemPlace_first ha
  rcases Nat.lt_or_eq_of_le hk with hlt | heq
  · obtain ⟨d', hrun, -, hitems⟩ := addEntries_first h hes (by omega)
    refine ⟨_, d', hrun, ?_, ?_, ?_, ?_⟩
    · intro a ha
      rw [hplace a (by omega)]
      exact h.first
    · intro a ha
      rw [hplace a (by omega)]
      show 28 * a + 28 ≤ 512
      omega
    · intro a ha
      rw [hplace a (by omega)]
      exact hitems a ha
    · intro a b hab hb
      rw [hplace a (by omega), hplace b (by omega)]
      right
      left
      show 28 * a + 28 ≤ 28 * b
      omega
  · obtain ⟨es, e, rfl⟩ : ∃ es' e, es = es' ++ [e] :=
      ⟨_, _, (List.dropLast_append_getLast (List.ne_nil_of_length_pos (by omega))).symm⟩
    have hlen : es.length = 18 := by simpa using heq
    obtain ⟨dir', d', hrun, h0, h1, h01, hitems, hlast⟩ := addEntries_second h hsb hlow hdata hsys
      (fun e he => hes e (List.mem_append_left _ he))
      (hes e (List.mem_append_right _ (List.mem_singleton_self e))) hlen
    have hcases : ∀ a < (es ++ [e]).length, a < 18 ∨ a = 18 := fun a ha => by omega
    refine ⟨dir', d', hrun, ?_, ?_, ?_, ?_⟩
    · intro a ha
      rcases hcases a ha with ha | rfl
      · rw [hplace a ha]
        exact fun e => h.first (h0 ▸ e)
      · rw [itemPlace_18]
        exact h1
    · intro a ha
      rcases hcases a ha with ha | rfl
      · rw [hplace a ha]
        show 28 * a + 28 ≤ 512
        omega
      · rw [itemPlace_18]
        decide
    · intro a ha
      rcases hcases a ha with ha' | rfl
      · rw [hplace a ha', List.getElem_append_left (by omega)]
        show ItemAt (readBlock d' (dir'.blockNo 0).toNat) _ _ _
        rw [h0]
        exact hitems a (by omega)
      · rw [itemPlace_18, List.getElem_concat_length hlen.symm]
        exact hlast
    · intro a b hab hb
      rcases hcases b hb with hb' | rfl
      · rw [hplace a (by omega), hplace b hb']
        right
        left
        show 28 * a + 28 ≤ 28 * b
        omega
      · left
        rw [hplace a hab, itemPlace_18]
        show dir'.blockNo 0 ≠ dir'.blockNo 1
        rw [h0]
        exact h01.symm

/-- **A directory keeps its items exactly as long as there are 19 of them at most.** -/
theorem itemsLaid_iff (h : EmptyDir dir d) (hsb : (readSuperBlock d).dataBlockBitNo 0 = 51)
    (hlow : LowestFree d n) (hdata : firstDataBlock ≤ n) (hsys : n ≤ fileSysBlocks)
    (hes : ∀ e ∈ es, IsEntry e)
    (hfit : dirItemSize * es.length ≤ maxBlocksInFile * blockSize) :
    ∃ dir' d', addEntries es (dir, d) = some (dir', d') ∧
      (ItemsLaid dir' d' es (itemPlace dir) ↔ es.length ≤ 19) := by
  obtain ⟨dir', d', hrun, -⟩ := @addEntries_ends d dir es h.size hes hfit
  refine ⟨dir', d', hrun, ?_, ?_⟩
  · intro hlaid
    by_contra hgt
    -- the items 18 and 19 are in one block, 20 bytes apart
    have hdis := hlaid.disjoint 18 19 (by decide) (by omega)
    rw [itemPlace_18, itemPlace_19] at hdis
    rcases hdis with hdis | hdis | hdis
    · exact hdis rfl
    · exact absurd hdis (by decide)
    · exact absurd hdis (by decide)
  · intro hle
    obtain ⟨dir₁, d₁, hrun₁, hlaid⟩ := itemsLaid_of_le h hsb hlow hdata hsys hes hle
    obtain ⟨rfl, rfl⟩ := Prod.mk.inj (Option.some_inj.mp (hrun.symm.trans hrun₁))
    exact hlaid

end Run

/-! ### Twenty items -/

section Twenty

/-- An empty directory, with the first block of a disk. -/
def newDir : Inode := withBlock (inodeFor (slot 0)) 0 56

/-- The disk where it got that block. -/
def newDirDisk : Bytes := takenBlock 56 freshBitmap

/-- The files `a` to `t`. -/
def files : List Entry := (List.range 20).map fun a =>
  ⟨[separator, .ofNat (97 + a)], inodeFor (slot (a + 1))⟩

lemma isEntry_files {e : Entry} (h : e ∈ files) : IsEntry e := by
  have hall : ∀ e ∈ files, e.path.length < 100 ∧ (itemName e.path).length < fileNameMax := by
    decide +kernel
  exact ⟨(hall e h).1, (hall e h).2⟩

lemma busy_newDirDisk {m : ℕ} (hm : m < 4096) : busy newDirDisk m = decide (m < 57) := by
  have hbits : ∀ m < 4096, busy freshBitmap m = decide (m < 56) := fun m hm =>
    busy_initDataBlockBit hm
  have hfree : busy freshBitmap 56 = false := by rw [hbits 56 (by decide), decide_eq_false (by decide)]
  rw [newDirDisk, busy_takenBlock (by decide) (by decide) hfree hm, hbits m hm, ← Bool.decide_or]
  exact decide_eq_decide.mpr (by omega)

lemma lowestFree_newDirDisk : LowestFree newDirDisk 57 := by
  constructor
  · rw [busy_newDirDisk (by decide), decide_eq_false (by decide)]
  · intro m hm
    rw [busy_newDirDisk (by omega), decide_eq_true hm]

lemma dataBlockBitNo_newDirDisk : (readSuperBlock newDirDisk).dataBlockBitNo 0 = 51 := by
  rw [newDirDisk, readSuperBlock_takenBlock (by decide) (by decide) lowestFree_freshBitmap.free]
  exact dataBlockBitNo_freshBitmap 0

lemma emptyDir_newDir : EmptyDir newDir newDirDisk := by
  have hblock : ∀ k, newDir.blockNo k = if k = 0 then 56 else 0 := fun k => withBlock_blockNo
  have honly : ∀ k, newDir.blockNo k ≠ 0 → k = 0 := fun k hk => by
    by_contra hne
    exact hk (by rw [hblock, if_neg hne])
  constructor
  · rfl
  · decide
  · intro k hk
    obtain rfl := honly k hk
    decide
  · intro k hk
    obtain rfl := honly k hk
    exact busy_newDirDisk (by decide)
  · intro j k hne hj e
    obtain rfl := honly j hj
    exact hne (honly k (e ▸ hj)).symm

/-- The first 19 of them stand. -/
theorem itemsLaid_iff_files : ∃ dir' d', addEntries (files.take 19) (newDir, newDirDisk) =
    some (dir', d') ∧ ItemsLaid dir' d' (files.take 19) (itemPlace newDir) := by
  have hfit : dirItemSize * (files.take 19).length ≤ maxBlocksInFile * blockSize := by decide
  obtain ⟨dir', d', hrun, hiff⟩ := itemsLaid_iff emptyDir_newDir dataBlockBitNo_newDirDisk
    lowestFree_newDirDisk (by decide) (by decide) (fun _ he => isEntry_files (List.mem_of_mem_take he)) hfit
  exact ⟨dir', d', hrun, hiff.mpr (by decide)⟩

/-- **All twenty do not**, wherever one looks for them: the name `t` is written over the place of the
inode of `s`. -/
theorem files_overlap : ∃ dir' d', addEntries files (newDir, newDirDisk) = some (dir', d') ∧
    ∀ place, ¬ ItemsLaid dir' d' files place := by
  obtain ⟨dir', d', hrun, -⟩ := @addEntries_ends newDirDisk newDir files rfl
    (fun _ he => isEntry_files he) (by decide)
  refine ⟨dir', d', hrun, fun place hlaid => ?_⟩
  have eval : ∀ p : Inode × Bytes → Bool,
      (addEntries files (newDir, newDirDisk)).all p = true → p (dir', d') = true := by
    intro p hp
    rw [hrun] at hp
    exact hp
  have hblocks := eval (fun s => (List.finRange maxBlocksInFile).all fun k =>
    s.1.blockNo k == if k = 0 then 56 else if k = 1 then 57 else 0) (by decide +kernel)
  -- the byte `s` stands at the start of the second block only
  have hfirst := eval (fun s => (List.range 485).all fun o => readBlock s.2 56 o != 115)
    (by decide +kernel)
  have hsecond := eval (fun s => (List.range 484).all fun o => readBlock s.2 57 (o + 1) != 115)
    (by decide +kernel)
  have hlost := eval (fun s => get32 (readBlock s.2 57) 20 != 5) (by decide +kernel)
  simp only [List.all_eq_true, List.mem_finRange, List.mem_range, beq_iff_eq, bne_iff_ne,
    true_implies] at hblocks hfirst hsecond hlost
  have hin := hlaid.allocated 18 (by decide)
  have hend := hlaid.inside 18 (by decide)
  have hitem := hlaid.items 18 (by decide)
  simp only [dirItemSize, blockSize] at hend
  generalize place 18 = p at hin hend hitem
  obtain ⟨k, o⟩ := p
  have hs : readBlock d' (blockAt dir' k).toNat o = 115 := hitem.stands 0 (by decide)
  have hk : k < maxBlocksInFile := by
    by_contra hge
    exact hin (dif_neg hge)
  rw [blockAt_of_lt hk, hblocks] at hin
  rw [blockAt_of_lt hk, hblocks] at hs
  have hat := hitem.blockNo
  rw [blockAt_of_lt hk, hblocks] at hat
  split at hs
  · exact hfirst o (by omega) hs
  · split at hs
    · rcases o with - | o
      · rename_i h0 h1
        rw [if_neg h0, if_pos h1] at hat
        exact hlost hat
      · exact hsecond o (by omega) hs
    · rename_i h0 h1
      exact hin (by rw [if_neg h0, if_neg h1])

end Twenty

end Nbos.Fs
