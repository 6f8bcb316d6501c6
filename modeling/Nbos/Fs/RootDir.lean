import Nbos.Fs.Init
import Mathlib.Data.List.Infix

/-!
# The root directory

Which names `seekNextInode` finds in the block of the root directory. It looks for them in the raw
bytes: a printable name can stand inside another one, and where the place of an inode has a printable
byte (`StandsAt.installed`).
-/

namespace Nbos.Fs

open Nbos.Lib Nbos.Kernel

/-! ### Printable names -/

/-- A printable byte. -/
def Printable (b : UInt8) : Prop := 32 ≤ b ∧ b ≤ 126

instance : DecidablePred Printable := fun b => inferInstanceAs (Decidable (32 ≤ b ∧ b ≤ 126))

/-- The name of a file in the root directory. -/
structure FileName (name : List UInt8) : Prop where
  ne_nil : name ≠ []
  length : name.length < fileNameMax
  separator : separator ∉ name
  printable : ∀ b ∈ name, Printable b

lemma FileName.isName {name : List UInt8} (h : FileName name) : IsName name :=
  ⟨h.ne_nil, h.length, h.separator, fun h0 => absurd (h.printable 0 h0) (by decide)⟩

lemma not_printable {b : UInt8} (h : b.toNat < 32) : ¬ Printable b := fun hp => by
  have h32 : (32 : UInt8).toNat ≤ b.toNat := UInt8.le_iff_toNat_le.mp hp.1
  exact absurd h32 (Nat.not_le.mpr h)

/-- A small word has no printable byte. -/
lemma not_printable_of_get32 {m : Bytes} {a x : ℕ} (h : get32 m a < 32) (ha : a ≤ x)
    (hx : x < a + 4) : ¬ Printable (m x) := by
  refine not_printable ?_
  unfold get32 at h
  obtain rfl | rfl | rfl | rfl : x = a ∨ x = a + 1 ∨ x = a + 2 ∨ x = a + 3 := by omega
  all_goals omega

section StandsAt

variable {s t : List UInt8} {m : Bytes} {a o x : ℕ}

/-- A printable name does not run over a byte that is not printable. -/
lemma StandsAt.le (h : StandsAt s m o) (hs : ∀ b ∈ s, Printable b) (hox : o ≤ x)
    (hx : ¬ Printable (m x)) : o + s.length ≤ x := by
  by_contra hlt
  have hk : x - o < s.length := by omega
  have he := h (x - o) hk
  rw [Nat.add_sub_cancel' hox] at he
  exact hx (he ▸ hs _ (List.getElem_mem hk))

/-- It stands nowhere else than at printable bytes. -/
lemma StandsAt.printable (h : StandsAt s m o) (hs : ∀ b ∈ s, Printable b) (hne : s ≠ []) :
    Printable (m o) := by
  by_contra hx
  have := h.le hs le_rfl hx
  have := List.length_pos_iff.mpr hne
  omega

/-- A name that stands within another one is a part of it. -/
lemma StandsAt.within (h : StandsAt s m o) (ht : StandsAt t m a) (hao : a ≤ o)
    (hle : o + s.length ≤ a + t.length) : s <:+: t := by
  have he : s = (t.drop (o - a)).take s.length := by
    refine List.ext_getElem (by rw [List.length_take, List.length_drop]; omega) fun k hk _ => ?_
    rw [List.getElem_take, List.getElem_drop, ← h k hk, ← ht (o - a + k) (by omega)]
    exact congrArg m (by omega)
  rw [he]
  exact (List.take_prefix ..).isInfix.trans (List.drop_suffix ..).isInfix

end StandsAt

/-! ### The block of the root directory -/

/-- What an item has of an inode is its place. -/
lemma putDirItem_congr {m : Bytes} {o : ℕ} {name : List UInt8} {i i' : Inode}
    (h : mySlot i = mySlot i') : putDirItem m o name i = putDirItem m o name i' := by
  have h1 : i.myInodeBlockNo.toNat = i'.myInodeBlockNo.toNat := congrArg Prod.fst h
  have h2 : i.myInodeOffset.toNat = i'.myInodeOffset.toNat := congrArg Prod.snd h
  rw [putDirItem, h1, h2, putDirItem]

/-- An inode at a place, with nothing else in it. -/
def inodeFor (s : ℕ × ℕ) : Inode :=
  ⟨0, 0, 0, 0, 0, 0, 0, 0, .ofNat s.1, .ofNat s.2, fun _ => 0⟩

lemma mySlot_inodeFor {n : ℕ} (h : n < 200) : mySlot (inodeFor (slot n)) = slot n :=
  mySlot_freshInode (d := fun _ => 0) h

/-- The block of the root directory with the items of the two programs. -/
def programItems : Bytes :=
  putDirItem (putDirItem (fun _ => 0) 0 shellName (inodeFor (slot 2))) 28 myproName
    (inodeFor (slot 1))

lemma Installed.rootItems {d : Bytes} (h : Installed d) : readBlock d 56 = programItems := by
  have h1 : mySlot (inodeAt d (slot 1)) = mySlot (inodeFor (slot 1)) :=
    (h.records.list.own 1 (by decide)).trans (mySlot_inodeFor (by decide)).symm
  have h2 : mySlot (inodeAt d (slot 2)) = mySlot (inodeFor (slot 2)) :=
    (h.records.list.own 2 (by decide)).trans (mySlot_inodeFor (by decide)).symm
  rw [h.rootBlock, putDirItem_congr h1, putDirItem_congr h2, programItems]

lemma standsAt_shellName : StandsAt shellName programItems 0 := by
  have h2 : IsName myproName := ⟨by decide, by decide, by decide, by decide⟩
  refine StandsAt.congr standsAt_putDirItem fun k hk => putDirItem_of_not_mem h2.length_lt (.inl ?_)
  have : shellName.length = 5 := rfl
  omega

lemma printable_myproName : ∀ b ∈ myproName, Printable b := by decide +kernel

lemma standsAt_myproName : StandsAt myproName programItems 28 := standsAt_putDirItem

lemma programItems_of_ge {x : ℕ} (h : 56 ≤ x) : programItems x = 0 := by
  have h1 : IsName shellName := ⟨by decide, by decide, by decide, by decide⟩
  have h2 : IsName myproName := ⟨by decide, by decide, by decide, by decide⟩
  rw [programItems, putDirItem_of_not_mem h2.length_lt (by omega),
    putDirItem_of_not_mem h1.length_lt (by omega)]

/-- Its printable bytes are the two names and the offset 116, a `t`. -/
lemma printable_programItems : ∀ x < 56, Printable (programItems x) →
    x < 5 ∨ (28 ≤ x ∧ x < 33) ∨ x = 52 := by
  decide +kernel

section Items

variable {s : List UInt8} {m : Bytes} {o : ℕ}

/-- **What stands among the items of the programs**: parts of their names, and the name `t`. -/
lemma StandsAt.programs (h : StandsAt s m o) (hm : ∀ x < 56, m x = programItems x) (ho : o < 56)
    (hs : ∀ b ∈ s, Printable b) (hne : s ≠ []) :
    (s <:+: shellName ∧ o < 5) ∨ (s <:+: myproName ∧ 28 ≤ o) ∨ s = [116] := by
  have hbreak : ∀ x < 56, ¬ Printable (programItems x) → o ≤ x → o + s.length ≤ x :=
    fun x hx hp hox => h.le hs hox (by rwa [hm x hx])
  have hstand : ∀ t : List UInt8, ∀ a, a + t.length ≤ 56 → StandsAt t programItems a →
      StandsAt t m a := fun t a hle ht => ht.congr fun k hk => hm _ (by omega)
  rcases printable_programItems o ho (by rw [← hm o ho]; exact h.printable hs hne) with
    h5 | ⟨h28, h33⟩ | h52
  · have hle := hbreak 5 (by decide) (by decide +kernel) (by omega)
    have hshell := hstand _ 0 (by decide) standsAt_shellName
    exact .inl ⟨h.within hshell (Nat.zero_le o) hle, h5⟩
  · have hle := hbreak 33 (by decide) (by decide +kernel) (by omega)
    have hmypro := hstand _ 28 (by decide) standsAt_myproName
    exact .inr (.inl ⟨h.within hmypro h28 hle, h28⟩)
  · have hle := hbreak 53 (by decide) (by decide +kernel) (by omega)
    subst h52
    obtain ⟨b, rfl⟩ : ∃ b, s = [b] := by
      refine List.length_eq_one_iff.mp ?_
      have := List.length_pos_iff.mpr hne
      omega
    have hb : m 52 = b := h 0 (by simp)
    have h116 : programItems 52 = 116 := by decide +kernel
    rw [hm 52 ho, h116] at hb
    exact .inr (.inr (by rw [hb]))

/-- The two programs are found as long as their items are there. -/
lemma standsAt_programs (hm : ∀ x < 56, m x = programItems x) :
    (StandsAt shellName m 0 ∧ StandsAt myproName m 28 ∧ ∀ j < 28, ¬ StandsAt myproName m j) := by
  have hlen : shellName.length = 5 ∧ myproName.length = 5 := ⟨rfl, rfl⟩
  refine ⟨standsAt_shellName.congr fun k hk => hm _ (by omega),
    standsAt_myproName.congr fun k hk => hm _ (by omega), fun j hj hat => ?_⟩
  rcases hat.programs hm (by omega) printable_myproName (by decide) with ⟨h, -⟩ | ⟨-, h⟩ | h
  · exact absurd h (by decide)
  · omega
  · exact absurd h (by decide)

variable {name : List UInt8} {i : Inode} {x : ℕ}

lemma putDirItem_rest (hx : o + name.length < x) (hx' : x < o + 20) :
    putDirItem m o name i x = m x := by
  rw [putDirItem, overlay_of_not_mem (by omega), put32_of_not_mem (by omega),
    put32_of_not_mem (by omega)]

/-- Behind the programs and a file's item, what is printable is its name and what its inode's place
has. -/
lemma items_of_ge (h : IsName name) (hx : 56 + name.length ≤ x) (hx' : x < 76 ∨ 84 ≤ x) :
    putDirItem programItems 56 name i x = 0 := by
  have hlen := h.length_lt
  rcases Nat.eq_or_lt_of_le hx with rfl | hlt
  · exact putDirItem_end
  · rcases hx' with hx' | hx'
    · rw [putDirItem_rest hlt hx', programItems_of_ge (by omega)]
    · rw [putDirItem_of_not_mem h.length_lt (by omega), programItems_of_ge (by omega)]

/-- **A second file takes the place of the first one**: its name stands nowhere any more. -/
lemma not_standsAt_overwritten {first : List UInt8} {j : Inode} (hf : FileName first)
    (hn : FileName name) (hshell : ¬ first <:+: shellName) (hmypro : ¬ first <:+: myproName)
    (hname : ¬ first <:+: name) (ht : first ≠ [116]) (hj : mySlot j = slot 4) :
    ¬ StandsAt first (putDirItem (putDirItem programItems 56 first i) 56 name j) o := by
  intro hat
  have hlen := hf.isName.length_lt
  have hlen' := hn.isName.length_lt
  have hpos := List.length_pos_iff.mpr hf.ne_nil
  have hp := hat.printable hf.printable hf.ne_nil
  set m := putDirItem (putDirItem programItems 56 first i) 56 name j with hm
  have hlow : ∀ x < 56, m x = programItems x := fun x hx => by
    rw [hm, putDirItem_of_not_mem hn.isName.length_lt (.inl hx),
      putDirItem_of_not_mem hf.isName.length_lt (.inl hx)]
  have hzero : ¬ Printable 0 := by decide
  have hend : ¬ Printable (m (56 + name.length)) := by
    rw [hm, putDirItem_end]
    exact hzero
  by_cases h56 : o < 56
  · rcases hat.programs hlow h56 hf.printable hf.ne_nil with ⟨h, -⟩ | ⟨h, -⟩ | h
    · exact hshell h
    · exact hmypro h
    · exact ht h
  · by_cases hin : o ≤ 56 + name.length
    · exact hname (hat.within standsAt_putDirItem (by omega) (hat.le hf.printable hin hend))
    · by_cases h76 : o < 76
      · have hrest : ∀ x, 56 + name.length < x → x < 76 → 56 + first.length ≤ x →
            ¬ Printable (m x) := fun x hx hx' hge => by
          rw [hm, putDirItem_rest hx hx', items_of_ge hf.isName hge (.inl hx')]
          exact hzero
        by_cases hge : 56 + first.length ≤ o
        · exact hrest o (by omega) h76 hge hp
        · have := hat.le hf.printable (x := 56 + first.length) (by omega)
            (hrest _ (by omega) (by omega) le_rfl)
          omega
      · by_cases h84 : o < 84
        · have hb : get32 m 76 = 2 := by
            rw [hm, get32_putDirItem_blockNo (o := 56) hn.isName.length_lt]
            exact congrArg Prod.fst hj
          have ho : get32 m 80 = 0 := by
            rw [hm, get32_putDirItem_offset (o := 56) hn.isName.length_lt]
            exact congrArg Prod.snd hj
          by_cases h80 : o < 80
          · exact not_printable_of_get32 (a := 76) (by omega) (by omega) (by omega) hp
          · exact not_printable_of_get32 (a := 80) (by omega) (by omega) (by omega) hp
        · rw [hm, putDirItem_of_not_mem hn.isName.length_lt (by omega), items_of_ge hf.isName (by omega)
            (by omega)] at hp
          exact hzero hp

end Items

/-! ### Looking up a file -/

/-- The root directory has the items `m` in its only block, `n` slots of the inode list and the blocks
below `f` are taken. -/
structure RootDir (d : Bytes) (n f : ℕ) (m : Bytes) : Prop where
  records : Records d n
  bits : ∀ x < 4096, busy d x = decide (x < f)
  size : (inodeAt d (slot 0)).size = 56
  block : (inodeAt d (slot 0)).blockNo 0 = 56
  items : readBlock d 56 = m

lemma Installed.rootDir {d : Bytes} (h : Installed d) : RootDir d 3 87 programItems :=
  ⟨h.records, h.bits, h.rootSize, by rw [h.rootBlocks]; rfl, h.rootItems⟩

section Lookup

variable {d m : Bytes} {n f k o : ℕ} {name : List UInt8} {junk : List UInt8 → List UInt8} {i : Inode}

/-- A file is found by the first place where its name stands. -/
lemma RootDir.found (h : RootDir d n f m) (hname : IsName name) (ho : o < 512)
    (hat : StandsAt name m o) (hfirst : ∀ j < o, ¬ StandsAt name m j)
    (hb : get32 m (o + 20) = (slot k).1) (hoff : get32 m (o + 24) = (slot k).2) :
    seekFileInode junk (separator :: name) d = some (inodeAt d (slot k)) := by
  have hitems : readBlock d ((inodeAt d (slot 0)).blockNo 0).toNat = m := by
    rw [h.block]
    exact h.items
  rw [seekFileInode_root hname, h.records.getRootDirInode, seekNextInode_of_standsAt hname
    (by rw [h.size]; decide) ho (hitems ▸ hat) (hitems ▸ hfirst), hitems, hb, hoff, inodeAt]

/-- The two programs are found. -/
lemma RootDir.programs (h : RootDir d n f m) (hm : ∀ x < 56, m x = programItems x) :
    seekFileInode junk (separator :: shellName) d = some (inodeAt d (slot 2)) ∧
      seekFileInode junk (separator :: myproName) d = some (inodeAt d (slot 1)) := by
  obtain ⟨hshell, hmypro, hfirst⟩ := standsAt_programs hm
  have hword : ∀ a, a + 4 ≤ 56 → get32 m a = get32 programItems a := fun a ha =>
    get32_congr fun k hk => hm _ (by omega)
  constructor
  · refine h.found ⟨by decide, by decide, by decide, by decide⟩ (by decide) hshell
      (fun j hj => absurd hj (Nat.not_lt_zero j)) ?_ ?_
    · rw [hword _ (by decide)]
      decide +kernel
    · rw [hword _ (by decide)]
      decide +kernel
  · refine h.found ⟨by decide, by decide, by decide, by decide⟩ (by decide) hmypro hfirst ?_ ?_
    · rw [hword _ (by decide)]
      decide +kernel
    · rw [hword _ (by decide)]
      decide +kernel

/-- If the name stands nowhere, the inode of the root itself is loaded. -/
lemma RootDir.not_found (h : RootDir d n f m) (hname : IsName name)
    (hno : ∀ o < 512, ¬ StandsAt name m o)
    (hi : seekFileInode junk (separator :: name) d = some i) : i = inodeAt d (slot 0) := by
  rw [seekFileInode_root hname, h.records.getRootDirInode, seekNextInode,
    strcut_of_not_mem hname.separator] at hi
  simp only [hname.separator, not_false_eq_true, if_true, h.size] at hi
  have hone : (56 : UInt32).toNat / blockSize +
      (if 0 < (56 : UInt32).toNat % blockSize then 1 else 0) = 0 + 1 := by decide
  have hitems : readBlock d ((inodeAt d (slot 0)).blockNo 0).toNat = m := by
    rw [h.block]
    exact h.items
  rw [hone] at hi
  split at hi
  · cases hi
  cases hr : searchDir d (inodeAt d (slot 0)) name (0 + 1) 0 with
  | none =>
    rw [hr] at hi
    cases hi
  | some r =>
    obtain rfl | ⟨o, hmatch⟩ := searchDir_last (by decide) rfl hr
    · rw [hr] at hi
      exact (Option.some_inj.mp hi).symm
    · obtain ⟨ho, hat, -⟩ := (strmatch_eq_some hname.ne_nil).mp hmatch
      exact absurd (hitems ▸ hat) (hno o ho)

end Lookup

end Nbos.Fs
