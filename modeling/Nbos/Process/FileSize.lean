import Nbos.Fs.InUse
import Nbos.Process.Creat
import Nbos.Process.Isolation

/-!
# The size of a file

`sys_creat` leaves in the inode the size that it finds there, and `sys_write` adds what it is asked
to write, wherever the file is written and whether `writeFile` refuses or not. `file_size_iff` says
how long the size of a file is the end of what has been written. The ends are kept beside the
state, by the place of the inode.
-/

namespace Nbos.Process

open Nbos.Lib Nbos.Kernel
open Nbos.Fs hiding Sane

/-! ### What the calls do to the inodes -/

/-- The directory of a new file is in use, and has a block for the item. -/
def DirectoryFound (stack : Bytes) (junk : List UInt8 → List UInt8) (path : List UInt8) (d : Bytes) :
    Prop :=
  ∀ i base, (allocInode stack d).1 = some i →
    seekBaseDirectory junk path (allocBlock i (allocInode stack d).2).2.2 = some base →
    (∃ s, InUse d s ∧ base = inodeAt d s) ∧ HasItemBlock base

/-- The inode `i` is handed out with the size that it had, and the others are left alone. -/
structure FileAdded (n : ℕ) (i : Inode) (d d' : Bytes) : Prop where
  place : mySlot i = slot n
  size : i.size = (inodeAt d (slot n)).size
  inode : inodeAt d' (slot n) = i
  kept : ∀ k < n, inodeAt d' (slot k) = inodeAt d (slot k)
  handed : Handed d' (n + 1)

section Calls

variable {d d' stack buf : Bytes} {n ptr size : ℕ} {fd r junkSize : ℤ} {mode : UInt16} {made : Bool}
  {junk : List UInt8 → List UInt8} {path : List UInt8} {k k' : System} {flag : UInt32} {std : List ℕ}
  {j : Fin fileMaxInSys}

/-- The inode made is written back when all else is done. -/
lemma fileAdded {i : Inode} (h : Handed d n) (hn : n < 200) (ho : Ordered d' (n + 1))
    (hkept : KeepsInodes d d') (hplace : mySlot i = slot n) (hlink : nextSlot i = slotFrom (n + 1))
    (hlists : ListedHigh i) (hsize : i.size = (inodeAt d (slot n)).size) :
    FileAdded n i d (writeInode i d') := by
  have hat : ∀ k < 200, inodeAt (writeInode i d') (slot k) = if k = n then i else inodeAt d' (slot k) :=
    fun k hk => inodeAt_writeInode hn hk hplace
  refine ⟨hplace, hsize, ?_, fun k hk => ?_, ho.writeInode hn hplace hlink, fun k hk => ?_⟩
  · rw [hat n hn, if_pos rfl]
  · rw [hat k (by omega), if_neg (by omega), hkept k (by omega)]
  · rw [hat k (by omega)]
    split
    · exact hlists
    · rw [hkept k (by omega)]
      exact h.high k (by omega)

/-- **A file is made** in the inode at the head of the free list, or nothing is done. -/
lemma makeFile_spec (h : Handed d n) (hdir : DirectoryFound stack junk path d)
    (hm : makeFile stack junk path mode d = some (made, d')) :
    (made = false ∧ d' = d ∧ n = 200) ∨
      made = true ∧ n < 200 ∧ ∃ i, newInode stack mode d = some i ∧ i.mode = mode ∧ FileAdded n i d d' := by
  have hle := h.records.list.le
  rcases Nat.lt_or_ge n 200 with hn | hn
  swap
  · -- no inode is left
    obtain rfl : n = 200 := by omega
    left
    rw [makeFile, allocInode_of_full h.records.list] at hm
    obtain ⟨rfl, rfl⟩ := Prod.mk.inj (Option.some_inj.mp hm)
    exact ⟨rfl, rfl, rfl⟩
  right
  obtain ⟨hfresh, -, -⟩ := @InodeList.alloc d stack n h.records.list hn
  obtain ⟨ho, hk⟩ := @Ordered.alloc d stack n h.toOrdered hn
  have hplace : mySlot (freshInode d n) = slot n := mySlot_freshInode hn
  have hlink : nextSlot (freshInode d n) = slotFrom (n + 1) := nextSlot_freshInode h.records.list hn
  have hlists : ListedHigh (freshInode d n) := fun a ha => absurd rfl ha
  have hzero : zeroSlot (freshInode d n) = some 0 := zeroSlot_freshInode
  have hsize : (freshInode d n).size = (inodeAt d (slot n)).size := rfl
  generalize freshInode d n = i at *
  have hdir' := hdir i
  rw [newInode, hfresh, Option.map_some]
  rw [makeFile] at hm
  generalize allocInode stack d = p at *
  obtain ⟨o, d₁⟩ := p
  obtain rfl : o = some i := hfresh
  obtain ⟨h56, h701, -⟩ := ho.sane.freeBlock
  have hblock : allocBlock i d₁ = (0, withBlock i 0 (freeBlock d₁), takenBlock (freeBlock d₁) d₁) :=
    allocBlock_of_some hzero
  simp only [hblock] at hm hdir' ⊢
  rw [if_neg (by decide)] at hm
  obtain ⟨base, hbase, hm⟩ := Option.bind_eq_some_iff.mp hm
  obtain ⟨⟨base', d₃⟩, hwrite, hm⟩ := Option.bind_eq_some_iff.mp hm
  obtain ⟨rfl, rfl⟩ := Prod.mk.inj (Option.some_inj.mp hm)
  obtain ⟨⟨s, hs, rfl⟩, hitem⟩ := hdir' base trivial hbase
  obtain ⟨a, ha, rfl⟩ := h.inUse_iff.mp hs
  obtain ⟨ho', hk'⟩ := ho.takenBlock.writeDirectory (h.high a ha) hitem hwrite
  have hkept : KeepsInodes d d₃ := (hk.trans ho.keeps_takenBlock).trans hk'
  exact ⟨rfl, hn, _, rfl, rfl, fileAdded h hn ho' hkept hplace hlink (hlists.withBlock h56 h701 0) hsize⟩

/-- What a `sys_write` needs: the inode that it loads is in use, and the blocks of a regular file
are there. -/
def WriteFits (fd : ℤ) (ptr size : ℕ) (k : System) : Prop :=
  ∀ j, writeEntry fd ptr k = some j → InUse k.disk (inodePlace (k.fileList j)) ∧
    ((inodeAt k.disk (inodePlace (k.fileList j))).mode = regularFile → Accepted (k.fileList j) size →
      Covered (inodeAt k.disk (inodePlace (k.fileList j))) (k.fileList j).offset.toNat (span ptr size))

/-- **What `sys_write` does to the sizes**: the request is added, whatever comes of it. -/
lemma sysWrite_sizeSet (h : Handed k.disk n) (hfits : WriteFits fd ptr size k)
    (hw : sysWrite fd ptr buf size k = some (r, k')) :
    (writeEntry fd ptr k = none ∧ k'.disk = k.disk) ∨
    ∃ j, writeEntry fd ptr k = some j ∧
      SizeSet n (inodePlace (k.fileList j))
        ((inodeAt k.disk (inodePlace (k.fileList j))).size + .ofNat size) k.disk k'.disk ∧
      ((inodeAt k.disk (inodePlace (k.fileList j))).mode = regularFile → Accepted (k.fileList j) size →
        0 ≤ (k.fileList j).offset ∨ span ptr size = 0) := by
  rcases sysWrite_inode hw with ⟨hnone, rfl⟩ | ⟨j, r', file', i, d', hj, hcase, rfl⟩
  · exact .inl ⟨hnone, rfl⟩
  right
  obtain ⟨huse, hcov⟩ := hfits j hj
  refine ⟨j, hj, ?_⟩
  rcases hcase with ⟨hmode, hwrite⟩ | ⟨hmode, -, rfl, rfl⟩
  · obtain ⟨a, ha, hplace⟩ := h.inUse_iff.mp huse
    rw [hplace] at hcov hwrite hmode huse ⊢
    obtain ⟨rfl, hd', hkept, hoff⟩ := h.writeFile ha (hcov hmode) hwrite
    exact ⟨h.sizeSet hd' hkept huse rfl, fun _ => hoff⟩
  · exact ⟨h.sizeSet h (fun _ _ => rfl) huse rfl, fun hreg => absurd hreg hmode⟩

lemma sysRead_sizeSet (h : Handed k.disk n)
    (huse : ∀ j, readEntry fd ptr k = some j → InUse k.disk (inodePlace (k.fileList j)))
    (hr : sysRead junkSize fd ptr size k = some (r, k')) : k'.disk = k.disk ∨
      ∃ s, SizeSet n s (inodeAt k.disk s).size k.disk k'.disk := by
  rcases sysRead_inode hr with ⟨-, mem, keyboard, rfl⟩ | ⟨j, file, mem, hj, -, rfl⟩
  · exact .inl rfl
  · exact .inr ⟨_, h.sizeSet h (fun _ _ => rfl) (huse j hj) rfl⟩

end Calls

/-! ### The ends of the files -/

/-- For the places of the inodes of the regular files that `sys_creat` has made, the largest end of
a write that was successful. -/
abbrev Ends : Type := ℕ × ℕ → Option ℕ

/-- After a file is made. -/
def Ends.creat (stack : Bytes) (junk : List UInt8 → List UInt8) (path : List UInt8) (mode : UInt16)
    (d : Bytes) (g : Ends) : Ends :=
  match makeFile stack junk path mode d, newInode stack mode d with
  | some (true, _), some i =>
    if i.mode = regularFile then Function.update g (mySlot i) (some 0) else g
  | _, _ => g

/-- After a write to an open file; one that is refused is not successful. -/
def Ends.write (file : OpenFile) (ptr size : ℕ) (g : Ends) : Ends :=
  Function.update g (inodePlace file) ((g (inodePlace file)).map fun e =>
    if (file.offset + size) % 2 ^ 32 ≤ ((maxBlocksInFile * blockSize : ℕ) : ℤ) then
      max e (file.offset + span ptr size).toNat
    else e)

/-- After a call on files. -/
def Ends.file (c : FileCall) (k : System) (g : Ends) : Ends :=
  match c with
  | .creat stack junk _ path mode => g.creat stack junk path mode k.disk
  | .write fd ptr _ size => ((writeEntry fd ptr k).map fun j => g.write (k.fileList j) ptr size).getD g
  | .open .. | .close _ | .read .. => g

/-- A step of the kernel, with the ends. -/
inductive SizeStep : Act → System × Ends → System × Ends → Prop
  | call {c : Call} {k k' : System} (g : Ends) : Step c k k' → SizeStep (.call c) (k, g) (k', g)
  | file {c : FileCall} {k k' : System} {r : ℤ} (g : Ends) : c.perform k = some (r, k') →
      SizeStep (.file c) (k, g) (k', g.file c k)

/-- The size of every file is the end of what has been written to it. -/
def SizeLaw (d : Bytes) (g : Ends) : Prop := ∀ p e, g p = some e → (inodeAt d p).size.toNat = e

/-- The inodes that are loaded and looked up are in use, the blocks that are written are there, and
what is written to a file does not run over the end of the address space. -/
def Sound (a : Act) (s : System × Ends) : Prop :=
  match a with
  | .call _ | .file (.open ..) | .file (.close _) => True
  | .file (.creat stack junk _ path _) => DirectoryFound stack junk path s.1.disk
  | .file (.read _ fd ptr _) =>
    ∀ j, readEntry fd ptr s.1 = some j → InUse s.1.disk (inodePlace (s.1.fileList j))
  | .file (.write fd ptr _ size) => WriteFits fd ptr size s.1 ∧
    ∀ j, writeEntry fd ptr s.1 = some j → s.2 (inodePlace (s.1.fileList j)) ≠ none →
      ptr + size < 2 ^ 32

/-- The file is written at its end, or nothing is asked for and its end is not behind the size. -/
def Appends (file : OpenFile) (i : Inode) (size : ℕ) : Prop :=
  size = 0 ∧ (Accepted file size → file.offset ≤ i.size.toNat) ∨
    Accepted file size ∧ file.offset = i.size.toNat

/-- A free inode that becomes a regular file has no size, and a file that `sys_creat` has made is
only appended to. -/
def Exact (a : Act) (s : System × Ends) : Prop :=
  match a with
  | .file (.creat _ _ _ _ mode) => mode = regularFile → freeSlot s.1.disk ≠ (0, 0) →
    (inodeAt s.1.disk (freeSlot s.1.disk)).size = 0
  | .file (.write fd ptr _ size) => ∀ j, writeEntry fd ptr s.1 = some j →
    s.2 (inodePlace (s.1.fileList j)) ≠ none →
      Appends (s.1.fileList j) (inodeAt s.1.disk (inodePlace (s.1.fileList j))) size
  | _ => True

/-- The files whose ends are kept are regular, in the first `n` inodes. -/
def Tracked (n : ℕ) (d : Bytes) (g : Ends) : Prop :=
  ∀ p, g p ≠ none → ∃ a < n, p = slot a ∧ (inodeAt d p).mode = regularFile

section Sizes

variable {d d' stack : Bytes} {n ptr size : ℕ} {g : Ends} {s : ℕ × ℕ} {z : UInt32} {o : Option ℕ}
  {mode : UInt16} {junk : List UInt8 → List UInt8} {path : List UInt8} {file : OpenFile} {i : Inode}

/-- One size is changed, and the end with it. -/
lemma sizeSet_law_iff (h : SizeSet n s z d d') (ht : Tracked n d g) (hl : SizeLaw d g) :
    SizeLaw d' (Function.update g s o) ↔ ∀ e, o = some e → z.toNat = e := by
  have hself : (inodeAt d' s).size = z := by rw [h.inode]
  constructor
  · intro hl' e he
    rw [← hl' s e (by rw [Function.update_self, he]), hself]
  · intro ho p e hp
    by_cases hps : p = s
    · subst hps
      rw [Function.update_self] at hp
      rw [hself, ho e hp]
    · rw [Function.update_of_ne hps] at hp
      obtain ⟨a, ha, rfl, -⟩ := ht p (by rw [hp]; simp)
      rw [h.kept a ha hps]
      exact hl _ e hp

lemma sizeSet_tracked (h : SizeSet n s z d d') (ht : Tracked n d g) (ho : o ≠ none → g s ≠ none) :
    Tracked n d' (Function.update g s o) := by
  intro p hp
  by_cases hps : p = s
  · subst hps
    rw [Function.update_self] at hp
    rw [h.inode]
    exact ht p (ho hp)
  · rw [Function.update_of_ne hps] at hp
    obtain ⟨a, ha, rfl, hmode⟩ := ht p hp
    refine ⟨a, ha, rfl, ?_⟩
    rw [h.kept a ha hps]
    exact hmode

/-- A file is added, with an end if it is a regular one. -/
lemma FileAdded.law_iff (h : FileAdded n i d d') (ht : Tracked n d g)
    (hl : SizeLaw d g) :
    SizeLaw d' (if i.mode = regularFile then Function.update g (mySlot i) (some 0) else g) ↔
      (i.mode = regularFile → (inodeAt d (slot n)).size = 0) := by
  have hold : ∀ p e, g p = some e → (inodeAt d' p).size.toNat = e := by
    intro p e hp
    obtain ⟨a, ha, rfl, -⟩ := ht p (by rw [hp]; simp)
    rw [h.kept a ha]
    exact hl _ e hp
  split
  · rename_i hmode
    rw [h.place]
    constructor
    · intro hl' _
      have := hl' (slot n) 0 (Function.update_self ..)
      rw [h.inode, h.size] at this
      exact UInt32.toNat_inj.mp this
    · intro h0 p e hp
      by_cases hps : p = slot n
      · subst hps
        rw [Function.update_self] at hp
        rw [h.inode, h.size, h0 hmode, ← Option.some_inj.mp hp]
        rfl
      · rw [Function.update_of_ne hps] at hp
        exact hold p e hp
  · rename_i hmode
    exact iff_of_true hold fun hreg => absurd hreg hmode

lemma FileAdded.tracked (h : FileAdded n i d d') (ht : Tracked n d g) :
    Tracked (n + 1) d' (if i.mode = regularFile then Function.update g (mySlot i) (some 0) else g) := by
  have hold : ∀ p, g p ≠ none → ∃ a < n + 1, p = slot a ∧ (inodeAt d' p).mode = regularFile := by
    intro p hp
    obtain ⟨a, ha, rfl, hmode⟩ := ht p hp
    refine ⟨a, by omega, rfl, ?_⟩
    rw [h.kept a ha]
    exact hmode
  split
  · rename_i hmode
    intro p hp
    by_cases hps : p = mySlot i
    · refine ⟨n, by omega, hps.trans h.place, ?_⟩
      rw [hps, h.place, h.inode]
      exact hmode
    · rw [Function.update_of_ne hps] at hp
      exact hold p hp
  · exact hold

/-- **When adding the request gives the end**: if the file is appended to. -/
lemma appends_iff (hptr : ptr + size < 2 ^ 32)
    (hoff : Accepted file size → 0 ≤ file.offset ∨ span ptr size = 0)
    (hcov : Accepted file size → Covered i file.offset.toNat (span ptr size)) :
    (i.size + .ofNat size).toNat =
      (if (file.offset + size) % 2 ^ 32 ≤ ((maxBlocksInFile * blockSize : ℕ) : ℤ) then
        max i.size.toNat (file.offset + span ptr size).toNat
      else i.size.toNat) ↔ Appends file i size := by
  have hspan : span ptr size = size := if_pos hptr
  have hlt := i.size.toNat_lt
  have hsum : (i.size + .ofNat size).toNat = (i.size.toNat + size) % 2 ^ 32 := by
    rw [UInt32.toNat_add, UInt32.toNat_ofNat', Nat.add_mod_mod]
  rw [hspan] at hoff hcov ⊢
  rw [hsum, Appends]
  by_cases hacc : Accepted file size
  · have hcond : (file.offset + size) % 2 ^ 32 ≤ ((maxBlocksInFile * blockSize : ℕ) : ℤ) := hacc
    rw [if_pos hcond]
    simp only [hacc, true_and, true_implies]
    rcases Nat.eq_zero_or_pos size with rfl | hpos
    · omega
    · -- the last byte is in one of the 20 blocks
      obtain ⟨hin, -⟩ := hcov hacc (size - 1) (by omega)
      have h0 := hoff hacc
      simp only [blockSize, maxBlocksInFile] at hin
      omega
  · have hcond : ¬ (file.offset + size) % 2 ^ 32 ≤ ((maxBlocksInFile * blockSize : ℕ) : ℤ) := hacc
    rw [if_neg hcond]
    simp only [hacc, false_and, or_false, false_implies, and_true]
    omega

/-! ### One step -/

variable {k k' : System} {c : FileCall} {r : ℤ}

/-- The table of processes, the inodes, and the files whose ends are kept are in order. -/
structure SizeInv (s : System × Ends) : Prop where
  sane : Sane s.1
  files : ∃ n, Handed s.1.disk n ∧ Tracked n s.1.disk s.2

lemma Ends.creat_spec (h : Handed d n) (ht : Tracked n d g) (hl : SizeLaw d g)
    (hdir : DirectoryFound stack junk path d) {made : Bool}
    (hm : makeFile stack junk path mode d = some (made, d')) :
    (∃ n, Handed d' n ∧ Tracked n d' (g.creat stack junk path mode d)) ∧
      (SizeLaw d' (g.creat stack junk path mode d) ↔
        (mode = regularFile → freeSlot d ≠ (0, 0) → (inodeAt d (freeSlot d)).size = 0)) := by
  have hhead := h.records.list.head
  rcases makeFile_spec h hdir hm with ⟨rfl, rfl, rfl⟩ | ⟨rfl, hn, i, hi, hmode, hadd⟩
  · have hg : g.creat stack junk path mode d' = g := by rw [Ends.creat, hm]
    rw [hg]
    exact ⟨⟨_, h, ht⟩, iff_of_true hl fun _ hne => absurd hhead hne⟩
  · have hg : g.creat stack junk path mode d =
        if i.mode = regularFile then Function.update g (mySlot i) (some 0) else g := by
      rw [Ends.creat, hm, hi]
    have hne : freeSlot d ≠ (0, 0) := by
      rw [hhead, slotFrom_of_lt hn]
      exact fun e => slot_fst_pos.ne' (congrArg Prod.fst e)
    rw [hg]
    refine ⟨⟨n + 1, hadd.handed, hadd.tracked ht⟩, (hadd.law_iff ht hl).trans ?_⟩
    rw [hmode, hhead, slotFrom_of_lt hn]
    rw [hhead, slotFrom_of_lt hn] at hne
    exact ⟨fun h0 hreg _ => h0 hreg, fun h0 hreg => h0 hreg hne⟩

lemma Ends.write_spec {k : System} {fd : ℤ} {buf : Bytes} {k' : System} (h : Handed k.disk n)
    (ht : Tracked n k.disk g) (hl : SizeLaw k.disk g)
    (hsound : Sound (.file (.write fd ptr buf size)) (k, g))
    (hw : sysWrite fd ptr buf size k = some (r, k')) :
    (∃ n, Handed k'.disk n ∧ Tracked n k'.disk (g.file (.write fd ptr buf size) k)) ∧
      (SizeLaw k'.disk (g.file (.write fd ptr buf size) k) ↔
        Exact (.file (.write fd ptr buf size)) (k, g)) := by
  obtain ⟨hfits, hptr⟩ := hsound
  rcases sysWrite_sizeSet h hfits hw with ⟨hnone, hdisk⟩ | ⟨j, hj, hset, hoff⟩
  · have hg : g.file (.write fd ptr buf size) k = g := by
      simp only [Ends.file]
      rw [hnone]
      rfl
    rw [hg, hdisk]
    refine ⟨⟨n, h, ht⟩, iff_of_true hl fun j hj => ?_⟩
    rw [hnone] at hj
    cases hj
  · have hg : g.file (.write fd ptr buf size) k = g.write (k.fileList j) ptr size := by
      simp only [Ends.file]
      rw [hj]
      rfl
    have hex : Exact (.file (.write fd ptr buf size)) (k, g) ↔
        (g (inodePlace (k.fileList j)) ≠ none → Appends (k.fileList j)
          (inodeAt k.disk (inodePlace (k.fileList j))) size) := by
      refine ⟨fun he => he j hj, fun he j' hj' => ?_⟩
      obtain rfl := Option.some_inj.mp (hj.symm.trans hj')
      exact he
    obtain ⟨-, hcov⟩ := hfits j hj
    have hptr := hptr j hj
    rw [hg, hex, Ends.write]
    simp only at hptr
    cases he : g (inodePlace (k.fileList j)) with
    | none =>
      refine ⟨⟨n, hset.handed, sizeSet_tracked hset ht fun hn => absurd rfl hn⟩, ?_⟩
      rw [sizeSet_law_iff hset ht hl]
      exact iff_of_true (fun e he => by cases he) fun hn => absurd rfl hn
    | some e =>
      refine ⟨⟨n, hset.handed, sizeSet_tracked hset ht fun _ => by rw [he]; simp⟩, ?_⟩
      rw [sizeSet_law_iff hset ht hl]
      obtain ⟨a, -, -, hmode⟩ := ht _ (by rw [he]; simp)
      have hsize := hl _ e he
      refine Iff.trans ?_ ((appends_iff (hptr (by rw [he]; simp)) (hoff hmode) (hcov hmode)).trans ?_)
      · rw [hsize]
        exact ⟨fun hall => hall _ rfl, fun heq e' he' => heq.trans (Option.some_inj.mp he')⟩
      · exact ⟨fun happ _ => happ, fun happ => happ (by simp)⟩

lemma SizeStep.spec {a : Act} {s s' : System × Ends} (h : SizeInv s) (hl : SizeLaw s.1.disk s.2)
    (hsound : Sound a s) (hs : SizeStep a s s') :
    SizeInv s' ∧ (SizeLaw s'.1.disk s'.2 ↔ Exact a s) := by
  obtain ⟨hk, n, hn, ht⟩ := h
  cases hs with
  | call g hs =>
    have hdisk := hs.disk hk
    refine ⟨⟨hk.step hs, n, ?_⟩, iff_of_true ?_ trivial⟩
    · rw [hdisk]
      exact ⟨hn, ht⟩
    · rw [hdisk]
      exact hl
  | @file c k k' r g hs =>
    have hk' := FileCall.sane hk hs
    cases c with
    | «open» junk path oflag =>
      have hdisk : k'.disk = k.disk := sysOpen_disk hs
      refine ⟨⟨hk', n, ?_⟩, iff_of_true ?_ trivial⟩
      · rw [hdisk]
        exact ⟨hn, ht⟩
      · rw [hdisk]
        exact hl
    | close fd =>
      have hdisk : k'.disk = k.disk := by
        rcases sysClose_spec (Option.some_inj.mp hs) with ⟨rfl, -⟩ | ⟨i, -, -, rfl⟩ <;> rfl
      refine ⟨⟨hk', n, ?_⟩, iff_of_true ?_ trivial⟩
      · rw [hdisk]
        exact ⟨hn, ht⟩
      · rw [hdisk]
        exact hl
    | creat stack junk junk' path mode =>
      rcases sysCreat_spec hs with ⟨disk, hm, -, rfl⟩ | ⟨disk, hm, ho⟩
      · obtain ⟨hinv, hlaw⟩ := Ends.creat_spec hn ht hl hsound hm
        exact ⟨⟨hk', hinv⟩, hlaw⟩
      · have hdisk : k'.disk = disk := sysOpen_disk ho
        rw [← hdisk] at hm
        obtain ⟨hinv, hlaw⟩ := Ends.creat_spec hn ht hl hsound hm
        exact ⟨⟨hk', hinv⟩, hlaw⟩
    | read junk fd ptr size =>
      have hg : g.file (.read junk fd ptr size) k = g := rfl
      rw [hg]
      have hread : sysRead junk fd ptr size k = some (r, k') := hs
      rcases sysRead_sizeSet hn hsound hread with hdisk | ⟨p, hset⟩
      · refine ⟨⟨hk', n, ?_⟩, iff_of_true ?_ trivial⟩
        · rw [hdisk]
          exact ⟨hn, ht⟩
        · rw [hdisk]
          exact hl
      · have hsame := Function.update_eq_self p g
        have htrack := sizeSet_tracked hset ht (o := g p) id
        have hlaw := (sizeSet_law_iff hset ht hl (o := g p)).mpr (hl p)
        rw [hsame] at htrack hlaw
        exact ⟨⟨hk', n, hset.handed, htrack⟩, iff_of_true hlaw trivial⟩
    | write fd ptr buf size =>
      obtain ⟨hinv, hlaw⟩ := Ends.write_spec hn ht hl hsound hs
      exact ⟨⟨hk', hinv⟩, hlaw⟩

/-! ### Runs -/

variable {pagedir : ℕ} {mem : Memory.Mem} {fileList : Fin fileMaxInSys → OpenFile} {disk : Bytes}
  {keyboard : Device.Keyboard} {h : List Act}

/-- **When the size is the end of the file**: in every run from `init_file` on in which the free
inodes that become regular files have no size and the files made are only appended to; and after
one more step it is if and only if that step keeps to this. -/
theorem file_size_iff {junks : ℕ → ℕ → Bytes} {d₀ : Bytes} {s : System × Ends}
    (hd : initFile junks d₀ = some disk)
    (hrun : Run SizeStep (fun a s => Sound a s ∧ Exact a s)
      (boot pagedir mem fileList disk keyboard, fun _ => none) h s) :
    SizeLaw s.1.disk s.2 ∧
      ∀ a s', SizeStep a s s' → Sound a s → (SizeLaw s'.1.disk s'.2 ↔ Exact a s) := by
  obtain ⟨d, hd', hinst⟩ := initFile_spec junks d₀
  obtain rfl : d = disk := Option.some_inj.mp (hd'.symm.trans hd)
  obtain ⟨hinv, hl⟩ := hrun.inv (fun s => SizeInv s ∧ SizeLaw s.1.disk s.2)
    ⟨⟨boot_sane, 3, hinst.handed, fun p hp => absurd rfl hp⟩, fun p e hp => by cases hp⟩
    fun a s s' ⟨hinv, hl⟩ ⟨hsound, hex⟩ hs =>
      ⟨(hs.spec hinv hl hsound).1, (hs.spec hinv hl hsound).2.mpr hex⟩
  exact ⟨hl, fun a s' hs hsound => (hs.spec hinv hl hsound).2⟩

end Sizes

/-! ### A stack that is not clear -/

/-- A file with one component in its path is put into the root directory. -/
lemma directoryFound_root {d m stack : Bytes} {n f : ℕ} {name : List UInt8}
    {junk : List UInt8 → List UInt8} (h : RootDir d n f m) (hd : Handed d n) (h0 : 0 < n)
    (hn : n < 200) (hname : IsName name) : DirectoryFound stack junk (separator :: name) d := by
  intro i base hi hbase
  obtain ⟨hfresh, -, -⟩ := @InodeList.alloc d stack n h.records.list hn
  obtain rfl : freshInode d n = i := Option.some_inj.mp (hfresh.symm.trans hi)
  obtain ⟨ho, hk⟩ := @Ordered.alloc d stack n hd.toOrdered hn
  rw [allocBlock_of_some zeroSlot_freshInode, seekBaseDirectory_root hname] at hbase
  obtain rfl := Option.some_inj.mp hbase
  have hroot : getRootDirInode (takenBlock (freeBlock (allocInode stack d).2) (allocInode stack d).2) =
      inodeAt d (slot 0) := by
    rw [ho.takenBlock.records.getRootDirInode]
    exact (hk.trans ho.keeps_takenBlock) 0 (by decide)
  refine ⟨⟨slot 0, hd.inUse_iff.mpr ⟨0, h0, rfl⟩, hroot⟩, ?_⟩
  show HasItemBlock (getRootDirInode (takenBlock _ _))
  rw [hroot]
  have hfull : ¬ ItemFull (inodeAt d (slot 0)) := by
    unfold ItemFull
    rw [h.size]
    decide
  have hindex : itemIndex (inodeAt d (slot 0)) = 0 := by
    rw [itemIndex, if_neg hfull, h.size]
    decide
  intro hin
  have hblock : (inodeAt d (slot 0)).blockNo ⟨_, hin⟩ = 56 := by
    rw [← h.block]
    exact congrArg _ (Fin.ext hindex)
  left
  rw [hblock]
  decide

/-- The kernel with an installed disk, no file made yet. -/
def sizeBoot (d : Bytes) : System × Ends := ((creatBoot d).system, fun _ => none)

/-- `sys_creat` of the regular file `/a`. -/
def creatA : Act :=
  .file (.creat (fun _ => 0) (fun _ => []) (fun _ => []) [separator, 97] regularFile)

lemma sizeStep_creatA {d : Bytes} (hd : Installed d) : ∃ s, SizeStep creatA (sizeBoot d) s := by
  obtain ⟨s, hs, -⟩ := creat_first hd
  obtain ⟨-, -, hcreat, -, -⟩ := hs
  exact ⟨_, .file (fun _ => none) hcreat⟩

lemma sound_creatA {d : Bytes} (hd : Installed d) : Sound creatA (sizeBoot d) :=
  directoryFound_root hd.rootDir hd.handed (by decide) (by decide)
    (fileName_letter (by decide) (by decide)).isName

lemma sizeBoot_inv {d : Bytes} (hd : Installed d) : SizeInv (sizeBoot d) :=
  ⟨boot_sane, 3, hd.handed, fun _ hp => absurd rfl hp⟩

lemma sizeLaw_sizeBoot {d : Bytes} : SizeLaw (sizeBoot d).1.disk (sizeBoot d).2 := fun _ _ hp => by
  cases hp

theorem file_size_iff_creatA : ∃ d, initFile (fun _ _ _ => 0) (fun _ => 0) = some d ∧
    ∃ s, SizeStep creatA (sizeBoot d) s ∧ SizeLaw s.1.disk s.2 := by
  obtain ⟨d, hd, hinst⟩ := initFile_spec (fun _ _ _ => 0) fun _ => 0
  obtain ⟨s, hs⟩ := sizeStep_creatA hinst
  have hclear : (inodeAt d (freeSlot d)).size = 0 := by
    rw [Option.some_inj.mp (hd.symm.trans initFile_installedDisk)]
    decide +kernel
  have hrun : Run SizeStep (fun a s => Sound a s ∧ Exact a s) (sizeBoot d) [creatA] s :=
    .cons .nil ⟨sound_creatA hinst, fun _ _ => hclear⟩ hs
  exact ⟨d, hd, s, hs, (file_size_iff hd hrun).1⟩

/-- A disk after `init_file`, when the stack held ones. -/
def onesDisk : Bytes := (initFile (fun _ _ _ => 1) fun _ => 0).getD fun _ => 0

/-- The new file has the size that `init_inodeList` found on the stack. -/
theorem size_of_stack : ¬ ∀ junks d₀ d h s, initFile junks d₀ = some d →
    Run SizeStep (fun _ _ => True) (sizeBoot d) h s → SizeLaw s.1.disk s.2 := by
  intro hall
  obtain ⟨d, hd, hinst⟩ := initFile_spec (fun _ _ _ => 1) fun _ => 0
  obtain ⟨s, hs⟩ := sizeStep_creatA hinst
  have hlaw := hall _ _ d [creatA] s hd (.cons .nil trivial hs)
  have hex := (hs.spec (sizeBoot_inv hinst) sizeLaw_sizeBoot (sound_creatA hinst)).2.mp hlaw
  have hfree : freeSlot d ≠ (0, 0) := by
    rw [hinst.records.list.head]
    decide
  have hones : (inodeAt d (freeSlot d)).size ≠ 0 := by
    have he : d = onesDisk := by rw [onesDisk, hd, Option.getD_some]
    rw [he]
    decide +kernel
  exact hones (hex rfl hfree)

end Nbos.Process
