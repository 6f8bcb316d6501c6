import Nbos.Fs.Bitmap
import Nbos.Fs.Str

/-!
# Directories

The path functions of `file.c`. A directory is a run of 28-byte items, a name of 20 bytes and the
place of an inode; a name is looked for in the raw bytes of its blocks.

Where the C runs over one of its local buffers, or reads `block_no` past its end, there is no
result. For a path of one component below the root, `seekFileInode_root` and
`seekNextInode_of_standsAt` say which inode is loaded, and `writeDirectory_root` what is written.
-/

namespace Nbos.Fs

open Nbos.Lib Nbos.Kernel

/-! ### The source -/

/-- `sizeof(struct dir_item)`. -/
abbrev dirItemSize : ℕ := 28

/-- `getRootDirInode`. -/
def getRootDirInode (d : Bytes) : Inode :=
  let sb := readSuperBlock d
  readInode d sb.rootdirInodeBlockNo.toNat sb.rootdirInodeOffset.toNat

/-- The loop of `seekNextInode`: `n` blocks of the directory are left, the next one is number `k`.
It gives the block in which the name was found and where, if it was found. -/
def searchDir (d : Bytes) (i : Inode) (fileName : List UInt8) :
    ℕ → ℕ → Option (Option (Bytes × ℕ))
  | 0, _ => some none
  | n + 1, k =>
    if h : k < maxBlocksInFile then
      let targetBlock := readBlock d (i.blockNo ⟨k, h⟩).toNat
      (strmatch fileName targetBlock blockSize).bind fun
        | some offset => some (some (targetBlock, offset))
        | none => searchDir d i fileName n (k + 1)
    else none

/-- `seekNextInode`, whose result nobody looks at: the inode is left alone when the name is not
found. A name that is followed by a separator is not terminated in its buffer; `junk` is what
follows it there. -/
def seekNextInode (junk : List UInt8) (i : Inode) (path : List UInt8) (d : Bytes) : Option Inode :=
  let name := strcut path
  let terminated := separator ∉ path
  if fileNameMax < (if terminated then name.length + 1 else name.length) then none
  else
    let blocks := i.size.toNat / blockSize + (if 0 < i.size.toNat % blockSize then 1 else 0)
    match searchDir d i (if terminated then name else name ++ junk) blocks 0 with
    | none => none
    | some none => some i
    | some (some (block, offset)) =>
      some (readInode d (get32 block (offset + 20)) (get32 block (offset + 24)))

/-- The loop of `seekFileInode`. `junk` may depend on the path that is left. -/
def seekLoop (junk : List UInt8 → List UInt8) (d : Bytes) (path0 : List UInt8) (i : Inode) :
    Option Inode :=
  if _h : path0 = [] then some i
  else
    match seekNextInode (junk path0) i path0 d with
    | none => none
    | some i =>
      match findfirstsprt path0 with
      | none => some i
      | some a => seekLoop junk d (path0.drop (a + 1)) i
termination_by path0.length
decreasing_by
  have := List.length_pos_iff.mpr _h
  simp only [List.length_drop]
  omega

/-- `seekFileInode`. It copies the path into 100 bytes. -/
def seekFileInode (junk : List UInt8 → List UInt8) (path : List UInt8) (d : Bytes) :
    Option Inode :=
  if 100 ≤ path.length then none
  else if strcmpa (cstr path) (cstr [separator]) path.length = 0 then some (getRootDirInode d)
  else
    match findfirstsprt path with
    | none => seekLoop junk d path (getRootDirInode d)
    | some a => seekLoop junk d (path.drop (a + 1)) (getRootDirInode d)

/-- `seekBaseDirectory`. -/
def seekBaseDirectory (junk : List UInt8 → List UInt8) (path : List UInt8) (d : Bytes) :
    Option Inode :=
  if 100 ≤ path.length then none
  else
    let path0 := match findlastsprt path with
      | some k => path.take k
      | none => path
    if path0 = [] then some (getRootDirInode d) else seekFileInode junk path0 d

/-- The loop of `writeDirectory` that goes to the last component of the path. -/
def lastComponent : ℕ → List UInt8 → List UInt8
  | 0, path0 => path0
  | n + 1, path0 =>
    match findfirstsprt path0 with
    | some a => lastComponent n (path0.drop (a + 1))
    | none => path0

/-- `writeDirectory`: the directory's inode, which may get a block, and the disk. Its result is 0. -/
def writeDirectory (base : Inode) (path : List UInt8) (i : Inode) (d : Bytes) :
    Option (Inode × Bytes) :=
  if 100 ≤ path.length then none
  else
    let path0 := lastComponent (strcount path separator) path
    let full := blockSize < base.size.toNat % blockSize + dirItemSize
    let index := if full then base.size.toNat / blockSize + 1 else base.size.toNat / blockSize
    let offset := if full then 0 else base.size.toNat % blockSize
    if h : index < maxBlocksInFile ∧ offset + path0.length < blockSize then
      let (base, d) := if full ∧ base.blockNo ⟨index, h.1⟩ = 0 then (allocBlock base d).2 else (base, d)
      let blockNo := (base.blockNo ⟨index, h.1⟩).toNat
      let dirBlock := readBlock d blockNo
      let dirBlock := put32 dirBlock (offset + 24) i.myInodeOffset.toNat
      let dirBlock := put32 dirBlock (offset + 20) i.myInodeBlockNo.toNat
      let dirBlock := overlay dirBlock offset (path0.length + 1) (cstr path0)
      some (base, writeBlock d dirBlock blockNo)
    else none

/-! ### Where an item goes -/

/-- A block with the item of `name` for the inode `i` written at `o`. -/
def putDirItem (m : Bytes) (o : ℕ) (name : List UInt8) (i : Inode) : Bytes :=
  overlay (put32 (put32 m (o + 24) i.myInodeOffset.toNat) (o + 20) i.myInodeBlockNo.toNat) o
    (name.length + 1) (cstr name)

/-- A new item does not fit in the block at the end of the directory. -/
def ItemFull (base : Inode) : Prop := blockSize < base.size.toNat % blockSize + dirItemSize

instance (base : Inode) : Decidable (ItemFull base) :=
  inferInstanceAs (Decidable (blockSize < base.size.toNat % blockSize + dirItemSize))

/-- Which block of the directory a new item goes to. -/
def itemIndex (base : Inode) : ℕ :=
  if ItemFull base then base.size.toNat / blockSize + 1 else base.size.toNat / blockSize

/-- Where in that block it goes. -/
def itemOffset (base : Inode) : ℕ := if ItemFull base then 0 else base.size.toNat % blockSize

/-- The name of the item: the last component of the path. -/
def itemName (path : List UInt8) : List UInt8 := lastComponent (strcount path separator) path

section Name

variable {name path pre : List UInt8} {c : UInt8}

lemma itemName_of_not_mem (h : separator ∉ path) : itemName path = path := by
  rw [itemName, strcount, List.count_eq_zero_of_not_mem h, lastComponent]

/-- One step of the loop goes behind the first separator. -/
lemma itemName_skip (h : separator ∉ pre) : itemName (pre ++ separator :: path) = itemName path := by
  have hcount : strcount (pre ++ separator :: path) separator = path.count separator + 1 := by
    rw [strcount, List.count_append, List.count_eq_zero_of_not_mem h, List.count_cons_self,
      Nat.zero_add]
  have hdrop : (pre ++ separator :: path).drop (pre.length + 1) = path := by
    rw [List.drop_length_add_append]
    rfl
  rw [itemName, hcount, lastComponent, findfirstsprt_append h]
  exact congrArg (lastComponent (path.count separator)) hdrop

lemma itemName_cons (hc : c ≠ separator) (h : separator ∈ path) :
    itemName (c :: path) = itemName path := by
  obtain ⟨pre, rest, rfl, hpre⟩ := List.eq_append_cons_of_mem h
  have hcpre : separator ∉ c :: pre := by
    rw [List.mem_cons, not_or]
    exact ⟨hc.symm, hpre⟩
  rw [← List.cons_append, itemName_skip hcpre, itemName_skip hpre]

/-- The name is what stands behind the last separator. -/
lemma itemName_append (h : separator ∉ name) : itemName (pre ++ separator :: name) = name := by
  induction pre with
  | nil => exact (@itemName_skip name [] List.not_mem_nil).trans (itemName_of_not_mem h)
  | cons c pre ih =>
    rw [List.cons_append]
    by_cases hc : c = separator
    · rw [hc]
      exact (@itemName_skip (pre ++ separator :: name) [] List.not_mem_nil).trans ih
    · rw [itemName_cons hc (List.mem_append_right _ List.mem_cons_self), ih]

end Name

/-- The directory and the disk with the block that the item needs, if it can be had. -/
def itemDisk (base : Inode) (k : Fin maxBlocksInFile) (d : Bytes) : Inode × Bytes :=
  if ItemFull base ∧ base.blockNo k = 0 then (allocBlock base d).2 else (base, d)

section Item

variable {d : Bytes} {base i : Inode} {path : List UInt8}

/-- **What `writeDirectory` writes.** -/
theorem writeDirectory_eq (hlen : ¬ 100 ≤ path.length) (hin : itemIndex base < maxBlocksInFile)
    (hfits : itemOffset base + (itemName path).length < blockSize) :
    writeDirectory base path i d =
      some ((itemDisk base ⟨_, hin⟩ d).1, writeBlock (itemDisk base ⟨_, hin⟩ d).2
        (putDirItem (readBlock (itemDisk base ⟨_, hin⟩ d).2
          ((itemDisk base ⟨_, hin⟩ d).1.blockNo ⟨_, hin⟩).toNat) (itemOffset base) (itemName path) i)
        ((itemDisk base ⟨_, hin⟩ d).1.blockNo ⟨_, hin⟩).toNat) := by
  rw [writeDirectory, if_neg hlen]
  exact dif_pos ⟨hin, hfits⟩

lemma writeDirectory_out (hlen : ¬ 100 ≤ path.length)
    (hin : ¬ (itemIndex base < maxBlocksInFile ∧
      itemOffset base + (itemName path).length < blockSize)) :
    writeDirectory base path i d = none := by
  rw [writeDirectory, if_neg hlen]
  exact dif_neg hin

end Item

/-! ### One component below the root -/

/-- A name that fits a directory item and is one component of a path. -/
structure IsName (name : List UInt8) : Prop where
  ne_nil : name ≠ []
  length : name.length < fileNameMax
  separator : separator ∉ name
  nonzero : 0 ∉ name

section Root

variable {d m : Bytes} {name : List UInt8} {junk : List UInt8 → List UInt8} {i base : Inode}
  {o x : ℕ}

lemma IsName.length_lt (h : IsName name) : name.length < 20 := h.length

lemma strcmpa_root (h : IsName name) :
    strcmpa (cstr (separator :: name)) (cstr [separator]) (separator :: name).length ≠ 0 := by
  intro he
  have hpos := List.length_pos_iff.mpr h.ne_nil
  -- the first byte of the name against the terminator of the root
  have h1 := strcmpa_eq_zero.mp he 1 (by rw [List.length_cons]; omega)
  rw [cstr_of_lt (by rw [List.length_cons]; omega), List.getElem_cons_succ] at h1
  have h0 : name[0] = 0 := h1
  exact h.nonzero (h0 ▸ List.getElem_mem hpos)

lemma seekLoop_name (h : IsName name) :
    seekLoop junk d name i = seekNextInode (junk name) i name d := by
  rw [seekLoop, dif_neg h.ne_nil, findfirstsprt_of_not_mem h.separator]
  cases seekNextInode (junk name) i name d <;> rfl

theorem seekFileInode_root (h : IsName name) :
    seekFileInode junk (separator :: name) d =
      seekNextInode (junk name) (getRootDirInode d) name d := by
  have hlen := h.length_lt
  rw [seekFileInode, if_neg (by rw [List.length_cons]; omega), if_neg (strcmpa_root h),
    findfirstsprt_cons]
  exact seekLoop_name h

theorem seekBaseDirectory_root (h : IsName name) :
    seekBaseDirectory junk (separator :: name) d = some (getRootDirInode d) := by
  have hlen := h.length_lt
  rw [seekBaseDirectory, if_neg (by rw [List.length_cons]; omega), findlastsprt_cons h.separator]
  exact if_pos rfl

lemma searchDir_of_some {k n : ℕ} (hk : k < maxBlocksInFile)
    (h : strmatch name (readBlock d (i.blockNo ⟨k, hk⟩).toNat) blockSize = some (some o)) :
    searchDir d i name (n + 1) k = some (some (readBlock d (i.blockNo ⟨k, hk⟩).toNat, o)) := by
  rw [searchDir, dif_pos hk]
  simp only [h, Option.bind_some]

/-- With one block left, a search that ends has found the name in it or nowhere. -/
lemma searchDir_last {k n : ℕ} (hk : k < maxBlocksInFile) (hn : n = 0) {r : Option (Bytes × ℕ)}
    (h : searchDir d i name (n + 1) k = some r) :
    r = none ∨ ∃ o, strmatch name (readBlock d (i.blockNo ⟨k, hk⟩).toNat) blockSize = some (some o) := by
  rw [searchDir, dif_pos hk] at h
  obtain ⟨o, ho, h⟩ := Option.bind_eq_some_iff.mp h
  cases o with
  | none =>
    subst hn
    exact .inl (Option.some_inj.mp h).symm
  | some o => exact .inr ⟨o, ho⟩

/-- The inode that is loaded for a name which stands in the first block of a directory. -/
theorem seekNextInode_of_standsAt {junk : List UInt8} (h : IsName name) (hsize : i.size ≠ 0)
    (ho : o < 512) (hat : StandsAt name (readBlock d (i.blockNo 0).toNat) o)
    (hfirst : ∀ j < o, ¬ StandsAt name (readBlock d (i.blockNo 0).toNat) j) :
    seekNextInode junk i name d =
      some (readInode d (get32 (readBlock d (i.blockNo 0).toNat) (o + 20))
        (get32 (readBlock d (i.blockNo 0).toNat) (o + 24))) := by
  have hmatch := (strmatch_eq_some h.ne_nil).mpr ⟨ho, hat, hfirst⟩
  have hpos : i.size.toNat ≠ 0 := fun e => hsize (UInt32.toNat_inj.mp e)
  have hlen := h.length
  obtain ⟨n, hn⟩ : ∃ n, i.size.toNat / blockSize + (if 0 < i.size.toNat % blockSize then 1 else 0) =
      n + 1 := by
    refine Nat.exists_eq_add_one.mpr ?_
    simp only [blockSize]
    split <;> omega
  have hsearch := searchDir_of_some (k := 0) (n := n) (by decide) hmatch
  rw [seekNextInode, strcut_of_not_mem h.separator]
  simp only [h.separator, not_false_eq_true, if_true, hn, hsearch]
  rw [if_neg (by omega)]
  rfl

/-- What `writeDirectory` writes while the item fits the first block. -/
theorem writeDirectory_root (h : IsName name) (hsize : base.size.toNat + 28 ≤ 512) :
    writeDirectory base (separator :: name) i d =
      some (base, writeBlock d (putDirItem (readBlock d (base.blockNo 0).toNat) base.size.toNat name i)
        (base.blockNo 0).toNat) := by
  have hlen := h.length_lt
  have hmod : base.size.toNat % blockSize = base.size.toNat :=
    Nat.mod_eq_of_lt (by simp only [blockSize]; omega)
  have hfull : ¬ ItemFull base := by
    simp only [ItemFull, hmod, blockSize, dirItemSize]
    omega
  have hindex : itemIndex base = 0 := by
    rw [itemIndex, if_neg hfull]
    exact Nat.div_eq_of_lt (by simp only [blockSize]; omega)
  have hoffset : itemOffset base = base.size.toNat := by rw [itemOffset, if_neg hfull, hmod]
  have hin : itemIndex base < maxBlocksInFile := by rw [hindex]; decide
  have hzero : (⟨_, hin⟩ : Fin maxBlocksInFile) = 0 := Fin.ext hindex
  have hname : itemName (separator :: name) = name := @itemName_append name [] h.separator
  rw [writeDirectory_eq (by rw [List.length_cons]; omega) hin
    (by rw [hoffset, hname]; simp only [blockSize]; omega), itemDisk, if_neg fun hf => hfull hf.1,
    hzero, hoffset, hname]

/-! ### The bytes of an item -/

lemma putDirItem_of_not_mem (h : name.length < 20) (hx : x < o ∨ o + 28 ≤ x) :
    putDirItem m o name i x = m x := by
  rw [putDirItem, overlay_of_not_mem (by omega), put32_of_not_mem (by omega),
    put32_of_not_mem (by omega)]

lemma standsAt_putDirItem : StandsAt name (putDirItem m o name i) o := fun k hk => by
  rw [putDirItem, overlay_add (by omega), cstr_of_lt hk]

lemma putDirItem_end : putDirItem m o name i (o + name.length) = 0 := by
  rw [putDirItem, overlay_add (by omega), cstr_of_ge le_rfl]

lemma get32_putDirItem_blockNo (h : name.length < 20) :
    get32 (putDirItem m o name i) (o + 20) = i.myInodeBlockNo.toNat := by
  rw [putDirItem, get32_overlay_of_disjoint (by omega), get32_put32]
  exact Nat.mod_eq_of_lt (UInt32.toNat_lt _)

lemma get32_putDirItem_offset (h : name.length < 20) :
    get32 (putDirItem m o name i) (o + 24) = i.myInodeOffset.toNat := by
  rw [putDirItem, get32_overlay_of_disjoint (by omega), get32_put32_of_disjoint (by omega),
    get32_put32]
  exact Nat.mod_eq_of_lt (UInt32.toNat_lt _)

end Root

end Nbos.Fs
