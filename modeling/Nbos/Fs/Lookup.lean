import Nbos.Fs.DirItems
import Nbos.Fs.Path
import Mathlib.Data.List.TakeWhile

/-!
# Looking up a name

`seekNextInode` does not look at the items of a directory. It looks for the bytes of the name in the
bytes of the blocks, and takes what stands 20 bytes behind the first hit for the place of an inode. A
hit within a longer name or among the numbers is as good as one at the start of an item; and a
component that a separator follows is looked for with the separator.

`lookupExact_iff`: a lookup finds the item of the name, or nothing, exactly when its bytes stand
nowhere before that item.
-/

namespace Nbos.Fs

open Nbos.Lib Nbos.Kernel

/-! ### What a lookup searches -/

/-- The first component of a path. -/
def firstComponent (path : List UInt8) : List UInt8 := path.takeWhile (· != separator)

/-- The string in the buffer of `seekNextInode`. -/
def searchedName (junk path : List UInt8) : List UInt8 :=
  if separator ∉ path then strcut path else strcut path ++ junk

/-- How many blocks of the directory are searched. -/
def dirBlocks (dir : Inode) : ℕ :=
  dir.size.toNat / blockSize + (if 0 < dir.size.toNat % blockSize then 1 else 0)

/-- What is in the block `k` of the directory. -/
def dirBlock (d : Bytes) (dir : Inode) (k : ℕ) : Bytes := readBlock d (blockAt dir k).toNat

/-- The block ends in a part of the string. -/
def EndsInPart (s : List UInt8) (m : Bytes) : Prop :=
  ∃ o < blockSize, blockSize < o + s.length ∧ ∀ k < blockSize - o, m (o + k) = cstr s k

/-- The string stands in the block first at `o`. -/
structure FirstAt (s : List UInt8) (m : Bytes) (o : ℕ) : Prop where
  lt : o < blockSize
  stands : StandsAt s m o
  first : ∀ j < o, ¬ StandsAt s m j

/-- The string is not in the block, nor does it begin there. -/
structure Absent (s : List UInt8) (m : Bytes) : Prop where
  nowhere : ∀ o < blockSize, ¬ StandsAt s m o
  whole : ¬ EndsInPart s m

/-- The string stands in a list of blocks first in the block `m` at `o`. -/
def FirstIn (s : List UInt8) : List Bytes → Bytes → ℕ → Prop
  | [], _, _ => False
  | b :: bs, m, o => m = b ∧ FirstAt s b o ∨ Absent s b ∧ FirstIn s bs m o

/-- The blocks of the directory from `k` on. -/
def dirContents (d : Bytes) (dir : Inode) (n k : ℕ) : List Bytes :=
  (List.range' k n).map (dirBlock d dir)

section Search

variable {d m b : Bytes} {dir : Inode} {s junk path : List UInt8} {o k n : ℕ}

lemma endsInPart_iff : endsInPart s m blockSize = true ↔ EndsInPart s m := by
  simp only [endsInPart, EndsInPart, List.any_eq_true, List.mem_range, Bool.and_eq_true,
    decide_eq_true_eq, List.all_eq_true, beq_iff_eq]

lemma strmatch_eq_none (hs : s ≠ []) : strmatch s m blockSize = some none ↔ Absent s m := by
  rw [strmatch_eq_none_iff hs, ← Bool.not_eq_true, endsInPart_iff]
  exact ⟨fun h => ⟨h.1, h.2⟩, fun h => ⟨h.nowhere, h.whole⟩⟩

lemma strmatch_eq_firstAt (hs : s ≠ []) : strmatch s m blockSize = some (some o) ↔ FirstAt s m o := by
  rw [strmatch_eq_some hs]
  exact ⟨fun h => ⟨h.1, h.2.1, h.2.2⟩, fun h => ⟨h.lt, h.stands, h.first⟩⟩

lemma dirContents_succ :
    dirContents d dir (n + 1) k = dirBlock d dir k :: dirContents d dir n (k + 1) := by
  rw [dirContents, List.range'_succ, List.map_cons, dirContents]

lemma searchDir_succ (hk : k < maxBlocksInFile) :
    searchDir d dir s (n + 1) k = (strmatch s (dirBlock d dir k) blockSize).bind fun
      | some offset => some (some (dirBlock d dir k, offset))
      | none => searchDir d dir s n (k + 1) := by
  have hb : dirBlock d dir k = readBlock d (dir.blockNo ⟨k, hk⟩).toNat := by
    rw [dirBlock, blockAt_of_lt hk]
  rw [hb]
  exact dif_pos hk

/-- **Where the search stops**: at the first place, block by block. -/
lemma searchDir_eq_some (hs : s ≠ []) (hk : k + n ≤ maxBlocksInFile) :
    searchDir d dir s n k = some (some (b, o)) ↔ FirstIn s (dirContents d dir n k) b o := by
  induction n generalizing k with
  | zero =>
    rw [searchDir]
    exact ⟨fun h => (Option.some_ne_none _ (Option.some_inj.mp h).symm).elim, False.elim⟩
  | succ n ih =>
    rw [searchDir_succ (by omega), dirContents_succ, FirstIn, ← strmatch_eq_none hs,
      ← strmatch_eq_firstAt hs, ← ih (by omega)]
    cases strmatch s (dirBlock d dir k) blockSize with
    | none => simp
    | some r =>
      cases r with
      | none => simp
      | some o' =>
        simp only [Option.bind_some, Option.some_inj, Prod.mk.injEq]
        constructor
        · rintro ⟨rfl, rfl⟩
          exact .inl ⟨rfl, rfl⟩
        · rintro (⟨rfl, rfl⟩ | ⟨h, -⟩)
          · exact ⟨rfl, rfl⟩
          · cases h

/-- The search finds nothing when the string is in none of the blocks. -/
lemma searchDir_eq_none (hs : s ≠ []) (hk : k + n ≤ maxBlocksInFile) :
    searchDir d dir s n k = some none ↔ ∀ b ∈ dirContents d dir n k, Absent s b := by
  induction n generalizing k with
  | zero => exact ⟨fun _ b hb => absurd hb (List.not_mem_nil), fun _ => rfl⟩
  | succ n ih =>
    rw [searchDir_succ (by omega), dirContents_succ, List.forall_mem_cons, ← strmatch_eq_none hs,
      ← ih (by omega)]
    cases strmatch s (dirBlock d dir k) blockSize with
    | none => simp
    | some r => cases r <;> simp

lemma FirstIn.stands {bs : List Bytes} (h : FirstIn s bs b o) : StandsAt s b o := by
  induction bs with
  | nil => exact h.elim
  | cons m bs ih =>
    rcases h with ⟨rfl, h⟩ | ⟨-, h⟩
    · exact h.stands
    · exact ih h

end Search

/-! ### Components -/

section Component

variable {a : UInt8} {s path junk : List UInt8}

lemma strcut_cons_ne (h : a ≠ separator) : strcut (a :: s) = a :: strcut s := by
  have hfind : findfirstsprt (a :: s) = (findfirstsprt s).map (· + 1) := by
    rw [findfirstsprt, List.findIdx?_cons, if_neg (by simpa using h), findfirstsprt]
  rw [strcut, hfind, strcut]
  cases findfirstsprt s <;> rfl

lemma strcut_of_mem (h : separator ∈ path) : strcut path = firstComponent path ++ [separator] := by
  induction path with
  | nil => exact absurd h List.not_mem_nil
  | cons a s ih =>
    by_cases ha : a = separator
    · subst ha
      rw [strcut, findfirstsprt_cons, firstComponent, List.takeWhile_cons_of_neg (by simp)]
      rfl
    · have hs : separator ∈ s := (List.mem_cons.mp h).resolve_left (Ne.symm ha)
      rw [strcut_cons_ne ha, ih hs, firstComponent, firstComponent,
        List.takeWhile_cons_of_pos (by simpa using ha), List.cons_append]

lemma firstComponent_of_not_mem (h : separator ∉ path) : firstComponent path = path := by
  refine List.takeWhile_eq_self_iff.mpr fun x hx => ?_
  have : x ≠ separator := fun e => h (e ▸ hx)
  simpa using this

lemma searchedName_of_not_mem (h : separator ∉ path) :
    searchedName junk path = firstComponent path := by
  rw [searchedName, if_pos h, strcut_of_not_mem h, firstComponent_of_not_mem h]

lemma searchedName_of_mem (h : separator ∈ path) :
    searchedName junk path = firstComponent path ++ separator :: junk := by
  rw [searchedName, if_neg (not_not.mpr h), strcut_of_mem h, List.append_assoc]
  rfl

lemma searchedName_ne_nil (h : firstComponent path ≠ []) : searchedName junk path ≠ [] := by
  by_cases hsep : separator ∈ path
  · rw [searchedName_of_mem hsep]
    exact List.append_ne_nil_of_left_ne_nil h _
  · rw [searchedName_of_not_mem hsep]
    exact h

/-- A component that fits the buffer is searched. -/
lemma seekNextReport_eq {d : Bytes} {dir : Inode} (h : (firstComponent path).length < fileNameMax) :
    seekNextReport junk dir path d =
      (searchDir d dir (searchedName junk path) (dirBlocks dir) 0).map fun o =>
        o.map fun place =>
          readInode d (get32 place.1 (place.2 + 20)) (get32 place.1 (place.2 + 24)) := by
  have hfits : ¬ fileNameMax <
      (if separator ∉ path then (strcut path).length + 1 else (strcut path).length) := by
    by_cases hsep : separator ∈ path
    · rw [if_neg (not_not.mpr hsep), strcut_of_mem hsep, List.length_append, List.length_singleton]
      omega
    · rw [if_pos hsep, strcut_of_not_mem hsep]
      rw [firstComponent_of_not_mem hsep] at h
      omega
  rw [seekNextReport]
  exact if_neg hfits

end Component

/-! ### Exact lookups -/

/-- An item of a directory, with its place. -/
structure Listed where
  name : List UInt8
  inode : Inode
  block : ℕ
  offset : ℕ

/-- The items of a directory, whatever else is in its blocks. -/
structure Directory (d : Bytes) (dir : Inode) (es : List Listed) : Prop where
  size : dir.size.toNat ≤ maxBlocksInFile * blockSize
  inside : ∀ e ∈ es, e.block < dirBlocks dir ∧ e.offset + dirItemSize ≤ blockSize
  items : ∀ e ∈ es, ItemAt (dirBlock d dir e.block) e.offset e.name e.inode
  named : ∀ e ∈ es, e.name ≠ []
  distinct : es.Pairwise fun e e' => e.name ≠ e'.name

/-- The lookup loads the inode of the item with the whole name, or returns -1 and leaves the inode
alone when there is none, and it stops at no other place. -/
structure LookupExact (junk : List UInt8) (d : Bytes) (dir : Inode) (es : List Listed)
    (path : List UInt8) : Prop where
  found : ∀ e ∈ es, e.name = firstComponent path → seekNextReport junk dir path d =
    some (some (readInode d e.inode.myInodeBlockNo.toNat e.inode.myInodeOffset.toNat))
  missing : (∀ e ∈ es, e.name ≠ firstComponent path) →
    seekNextReport junk dir path d = some none ∧ seekNextInode junk dir path d = some dir
  whole : ∀ b o, searchDir d dir (searchedName junk path) (dirBlocks dir) 0 = some (some (b, o)) →
    ∃ e ∈ es, e.name = firstComponent path ∧ b = dirBlock d dir e.block ∧ o = e.offset

section Exact

variable {junk path : List UInt8} {d : Bytes} {dir : Inode} {es : List Listed} {e e' : Listed}

lemma Directory.blocks (h : Directory d dir es) : 0 + dirBlocks dir ≤ maxBlocksInFile := by
  have hsize := h.size
  simp only [dirBlocks, maxBlocksInFile, blockSize] at *
  split <;> omega

lemma Directory.unique (h : Directory d dir es) (he : e ∈ es) (he' : e' ∈ es)
    (hname : e.name = e'.name) : e = e' := by
  have hsymm : Std.Symm fun e e' : Listed => e.name ≠ e'.name := ⟨fun _ _ hab => hab.symm⟩
  by_contra hne
  exact h.distinct.forall he he' hne hname

/-- A name that a separator follows is not found where its item is: there it is terminated. -/
lemma not_mem_of_stands (he : ItemAt (dirBlock d dir e.block) e.offset e.name e.inode)
    (hname : e.name = firstComponent path)
    (hstands : StandsAt (searchedName junk path) (dirBlock d dir e.block) e.offset) :
    separator ∉ path := by
  intro hsep
  rw [searchedName_of_mem hsep, ← hname] at hstands
  have hbyte := hstands e.name.length (by simp)
  rw [he.ended, List.getElem_append_right le_rfl] at hbyte
  simp only [Nat.sub_self, List.getElem_cons_zero] at hbyte
  exact absurd hbyte (by decide)

/-- **When a lookup is exact.** If an item has the name, the path ends with it, and the bytes of the
name stand nowhere before the item. If none has, the bytes that are looked for stand nowhere. -/
theorem lookupExact_iff (h : Directory d dir es) (hne : firstComponent path ≠ [])
    (hlen : (firstComponent path).length < fileNameMax) :
    LookupExact junk d dir es path ↔
      (∃ e ∈ es, e.name = firstComponent path ∧ separator ∉ path ∧
        FirstIn e.name (dirContents d dir (dirBlocks dir) 0) (dirBlock d dir e.block) e.offset) ∨
      (∀ e ∈ es, e.name ≠ firstComponent path) ∧
        ∀ b ∈ dirContents d dir (dirBlocks dir) 0, Absent (searchedName junk path) b := by
  have hs : searchedName junk path ≠ [] := searchedName_ne_nil hne
  have hreport := @seekNextReport_eq path junk d dir hlen
  constructor
  · intro hx
    by_cases hes : ∃ e ∈ es, e.name = firstComponent path
    · obtain ⟨e, he, hname⟩ := hes
      left
      -- something is found, so that it is the item of the name
      have hfound := hreport.symm.trans (hx.found e he hname)
      obtain ⟨r, hr, hload⟩ := Option.map_eq_some_iff.mp hfound
      obtain ⟨⟨b, o⟩, rfl, -⟩ := Option.map_eq_some_iff.mp hload
      obtain ⟨e', he', hname', rfl, rfl⟩ := hx.whole b o hr
      have hfirst := (searchDir_eq_some hs h.blocks).mp hr
      have hsep := not_mem_of_stands (h.items e' he') hname' hfirst.stands
      rw [searchedName_of_not_mem hsep, ← hname'] at hfirst
      exact ⟨e', he', hname', hsep, hfirst⟩
    · right
      have hnone : ∀ e ∈ es, e.name ≠ firstComponent path := fun e he hname => hes ⟨e, he, hname⟩
      have hmissing := hreport.symm.trans (hx.missing hnone).1
      obtain ⟨r, hr, hload⟩ := Option.map_eq_some_iff.mp hmissing
      obtain rfl := Option.map_eq_none_iff.mp hload
      exact ⟨hnone, (searchDir_eq_none hs h.blocks).mp hr⟩
  · rintro (⟨e, he, hname, hsep, hfirst⟩ | ⟨hnone, habsent⟩)
    · have hsearch : searchDir d dir (searchedName junk path) (dirBlocks dir) 0 =
          some (some (dirBlock d dir e.block, e.offset)) := by
        refine (searchDir_eq_some hs h.blocks).mpr ?_
        rw [searchedName_of_not_mem hsep, ← hname]
        exact hfirst
      have hitem := h.items e he
      constructor
      · intro e' he' hname'
        obtain rfl := h.unique he he' (hname.trans hname'.symm)
        rw [hreport, hsearch, Option.map_some, Option.map_some, hitem.blockNo, hitem.offset]
      · intro hnone
        exact absurd hname (hnone e he)
      · intro b o hbo
        obtain ⟨rfl, rfl⟩ := Prod.mk.inj (Option.some_inj.mp (Option.some_inj.mp
          (hsearch.symm.trans hbo)))
        exact ⟨e, he, hname, rfl, rfl⟩
    · have hsearch := (searchDir_eq_none hs h.blocks).mpr habsent
      constructor
      · intro e he hname
        exact absurd hname (hnone e he)
      · intro _
        have hmissing : seekNextReport junk dir path d = some none := by
          rw [hreport, hsearch]
          rfl
        refine ⟨hmissing, ?_⟩
        rw [seekNextInode_eq, hmissing]
        rfl
      · intro b o hbo
        rw [hsearch] at hbo
        cases hbo

end Exact

section Programs

/-- A directory with the two programs. -/
def programsDir : Inode := sized newDir 2

/-- A disk with its block. -/
def programsDirDisk : Bytes := writeBlock (fun _ => 0) programItems 56

/-- Its items. -/
def programsListed : List Listed :=
  [⟨shellName, inodeFor (slot 2), 0, 0⟩, ⟨myproName, inodeFor (slot 1), 0, 28⟩]

lemma dirBlock_programs : dirBlock programsDirDisk programsDir 0 = programItems :=
  readBlock_writeBlock_self fun _ hx => programItems_of_ge (by omega)

lemma directory_programs : Directory programsDirDisk programsDir programsListed := by
  have hshell : ItemAt programItems 0 shellName (inodeFor (slot 2)) :=
    (itemAt_putDirItem (by decide)).congr fun x _ hx =>
      putDirItem_of_not_mem (by decide) (.inl (by omega))
  have hmypro : ItemAt programItems 28 myproName (inodeFor (slot 1)) := itemAt_putDirItem (by decide)
  constructor
  · decide
  · decide
  · intro e he
    rcases List.mem_pair.mp he with rfl | rfl
    · exact dirBlock_programs ▸ hshell
    · exact dirBlock_programs ▸ hmypro
  · decide
  · decide

/-- The programs are found. -/
theorem lookupExact_iff_programs :
    LookupExact [] programsDirDisk programsDir programsListed myproName := by
  obtain ⟨-, hstands, hfirst⟩ := @standsAt_programs programItems fun _ _ => rfl
  have hcontents : dirContents programsDirDisk programsDir (dirBlocks programsDir) 0 = [programItems] := by
    rw [show dirBlocks programsDir = 1 by decide, ← dirBlock_programs]
    rfl
  refine (lookupExact_iff directory_programs (by decide) (by decide)).mpr
    (.inl ⟨⟨myproName, inodeFor (slot 1), 0, 28⟩, by simp [programsListed], by decide, by decide, ?_⟩)
  rw [hcontents, dirBlock_programs]
  exact .inl ⟨rfl, by decide, hstands, hfirst⟩

/-- `"ypro"`. -/
def yproName : List UInt8 := [121, 112, 114, 111]

/-- **A part of a name is found**, in the item of `mypro`. -/
theorem ypro_found : Directory programsDirDisk programsDir programsListed ∧
    ¬ LookupExact [] programsDirDisk programsDir programsListed yproName := by
  refine ⟨directory_programs, fun h => ?_⟩
  have hfound : (seekNextReport [] programsDir yproName programsDirDisk).any Option.isSome = true := by
    decide +kernel
  rw [(h.missing (by decide)).1] at hfound
  cases hfound

end Programs

end Nbos.Fs
