import Nbos.Fs.Apart
import Nbos.Lib.Store
import Nbos.Process.ReadBack
import Nbos.Process.Schedule

/-!
# The files as a store

`sys_read` and `sys_write` go through the descriptors of the current process, the file table, inodes
that are loaded and written back, and blocks. For files that are apart on the disk this is a store of
files with handles, the entries of the file table: `files_refine` says so of every run, whoever calls.
-/

namespace Nbos.Process

open Nbos.Lib Nbos.Kernel Nbos.Memory
open Nbos.Fs hiding Sane

/-! ### The store -/

/-- A file is known by the place of its inode, a handle is an entry of the file table. -/
abbrev FileStore : Type := Store (ℕ × ℕ) (Fin fileMaxInSys)

/-- The store that the disk and the file table are. -/
def System.store (k : System) : FileStore where
  bytes f x := k.disk (filePos (inodeAt k.disk f) x)
  size f := (inodeAt k.disk f).size
  file j := inodePlace (k.fileList j)
  offset j := (k.fileList j).offset

/-- What a call or an interrupt is to the store. `sys_open` leaves the offset of the entry as it is. -/
def Act.op (a : Act) (k : System) : Op (ℕ × ℕ) (Fin fileMaxInSys) :=
  match a with
  | .call .exit =>
    match getPCB k.proc.pid k with
    | some p => .reset (fun j => ∃ i, isOpen i (k.pcblist p) ∧ ((k.pcblist p).fdlist i).ofptr = some j) (0, 0)
    | none => .skip
  | .call _ | .file (.creat ..) => .skip
  | .file (.open junk path _) =>
    match seekFileInode junk path k.disk, getMinfd k.proc, closedEntry k.fileList with
    | some i, some _, some j => .point j (mySlot i)
    | _, _, _ => .skip
  | .file (.close fd) =>
    match openEntry fd k with
    | some (some (_, j)) => .reset (· = j) (0, 0)
    | _ => .skip
  | .file (.read _ fd ptr n) => ((readEntry fd ptr k).map fun j => Op.read j n).getD .skip
  | .file (.write fd ptr buf n) => ((writeEntry fd ptr k).map fun j => Op.write j n buf).getD .skip

/-- The request is one for `n` bytes of one of the files, in blocks that it has. -/
structure Fits (T : Set (ℕ × ℕ)) (ptr n : ℕ) (j : Fin fileMaxInSys) (k : System) : Prop where
  file : inodePlace (k.fileList j) ∈ T
  start : 0 ≤ (k.fileList j).offset
  room : (k.fileList j).offset + n ≤ ((maxBlocksInFile * blockSize : ℕ) : ℤ)
  span : ptr + n < 2 ^ 32
  covered : Covered (k.inodeOf j) (k.fileList j).offset.toNat n

/-- What is read and written are the files of `T`, within their blocks, and no file is made. -/
def Act.Fits (T : Set (ℕ × ℕ)) (a : Act) (k : System) : Prop :=
  match a with
  | .call _ | .file (.open ..) | .file (.close _) => True
  | .file (.creat ..) => False
  | .file (.read _ fd ptr n) => ∀ j, readEntry fd ptr k = some j → Process.Fits T ptr n j k
  | .file (.write fd ptr _ n) => ∀ j, writeEntry fd ptr k = some j → Process.Fits T ptr n j k

/-- A step of the kernel, with the store that is told of it. -/
def StoreStep (a : Act) (p p' : System × FileStore) : Prop :=
  a.Step p.1 p'.1 ∧ p'.2 = p.2.apply (a.op p.1)

/-- The calls answer as the store does: a read delivers its bytes, if the buffer can be written, and a
write is done. -/
structure Answers (T : Set (ℕ × ℕ)) (k : System) (s : FileStore) : Prop where
  read : ∀ junk fd ptr n j ram, readEntry fd ptr k = some j → Fits T ptr n j k →
    storeBytes k.proc.pagedir ptr (s.got j n).2 k.mem.ram = some ram →
      ∃ k', sysRead junk fd ptr n k = some ((s.got j n).1, k') ∧ k'.mem.ram = ram
  write : ∀ fd ptr buf n j, writeEntry fd ptr k = some j → Fits T ptr n j k →
    ∃ k', sysWrite fd ptr buf n k = some ((n : ℤ), k')

/-- What a write of `n` bytes through the entry `j` leaves. -/
structure WroteTo (j : Fin fileMaxInSys) (n : ℕ) (buf : Bytes) (k k' : System) : Prop where
  disk : FileWritten (inodePlace (k.fileList j)) (k.fileList j).offset.toNat n buf k.disk k'.disk
  eq : k' = { k.setFile j { k.fileList j with offset := (k.fileList j).offset + n } with disk := k'.disk }

section Step

variable {T : Set (ℕ × ℕ)} {k k' : System} {fd junk r : ℤ} {ptr n : ℕ} {buf : Bytes}
  {j : Fin fileMaxInSys} {a : Act} {s : FileStore}

/-- The bytes that the files have blocks for. -/
abbrev System.held (k : System) (f : ℕ × ℕ) : Set ℕ := Fs.held (inodeAt k.disk f)

/-- The disk and the places of the entries decide what the store is. -/
lemma store_congr (hd : k'.disk = k.disk) (hf : k'.fileList = k.fileList) : k'.store = k.store := by
  rw [System.store, System.store, hd, hf]

/-- The offset of an entry is moved, and nothing else in the file table. -/
lemma store_moved {m : ℕ} (hf : k'.fileList = Function.update k.fileList j
      { k.fileList j with offset := (k.fileList j).offset + m }) :
    k'.store.file = k.store.file ∧ k'.store.offset = (k.store.advance j m).offset := by
  refine ⟨funext fun j' => ?_, funext fun j' => ?_⟩
  · show inodePlace (k'.fileList j') = inodePlace (k.fileList j')
    rw [hf]
    by_cases hj : j' = j
    · rw [hj, Function.update_self]
      rfl
    · rw [Function.update_of_ne hj]
  · show (k'.fileList j').offset = Function.update k.store.offset j (k.store.offset j + m) j'
    rw [hf]
    by_cases hj : j' = j
    · rw [hj, Function.update_self, Function.update_self]
      rfl
    · rw [Function.update_of_ne hj, Function.update_of_ne hj]
      rfl

/-! ### Writing -/

/-- What a write that fits does. -/
lemma sysWrite_of_fits (hT : FilesApart T k.disk) (he : writeEntry fd ptr k = some j)
    (hfit : Fits T ptr n j k) : ∃ k', sysWrite fd ptr buf n k = some ((n : ℤ), k') ∧ WroteTo j n buf k k' := by
  obtain ⟨d', hd', hw⟩ := @writeFile_of_covered _ _ _ _ buf k.disk hfit.start hfit.room
    (span_of_lt hfit.span) hfit.covered
  have hroom := hfit.room
  have hle : n ≤ 10240 := by
    have := hfit.start
    simp only [maxBlocksInFile, blockSize] at hroom
    omega
  refine ⟨k.writeDone j { k.fileList j with offset := (k.fileList j).offset + n } (k.inodeOf j) n d',
    ?_, hT.fileWritten hfit.file hfit.covered hw, rfl⟩
  rw [sysWrite_of_entry he, if_pos (hT.regular _ hfit.file), hd', Option.map_some, bmod_of_le hle]

/-- **A write is the write of the store.** -/
lemma WroteTo.sameOn (hwrote : WroteTo j n buf k k') (hT : FilesApart T k.disk)
    (hfit : Fits T ptr n j k) : Store.SameOn T k.held k'.store (k.store.apply (.write j n buf)) := by
  obtain ⟨hw, heq⟩ := hwrote
  set f := inodePlace (k.fileList j) with hplace
  have hsizes := hw.onlySizes hT hfit.file hfit.covered
  obtain ⟨hfile, hoffset⟩ := @store_moved k k' j n (by rw [heq]; rfl)
  refine ⟨fun g hg x hx => ?_, fun g hg => ?_, hfile, hoffset⟩
  · show k'.disk (filePos (inodeAt k'.disk g) x) = _
    rw [hsizes.filePos hg, hw.at hT hfit.file hfit.covered hg hx]
    by_cases hgf : g = f
    · subst hgf
      simp only [Store.apply, Store.advance, Store.put, System.store, ← hplace, Function.update_self,
        overlay, true_and]
    · have hother : (k.store.put f (k.fileList j).offset.toNat n buf).bytes g = k.store.bytes g :=
        Store.put_bytes_of_ne hgf
      rw [if_neg fun hc => hgf hc.1]
      exact (congrFun hother x).symm
  · show (inodeAt k'.disk g).size = _
    by_cases hgf : g = f
    · subst hgf
      rw [hw.inode]
      simp only [Store.apply, Store.advance, Store.put, System.store, ← hplace, Function.update_self]
    · have hother : (k.store.put f (k.fileList j).offset.toNat n buf).size g = k.store.size g :=
        Store.put_size_of_ne hgf
      rw [hw.inode_of_ne hT hfit.file hfit.covered hg hgf]
      exact hother.symm

/-! ### Reading -/

/-- The inode that is written back is the one that was there. -/
lemma FilesApart.readBack (hT : FilesApart T k.disk) (hf : inodePlace (k.fileList j) ∈ T) :
    writeInode (k.inodeOf j) k.disk = k.disk := by
  obtain ⟨hb, ho⟩ := Prod.mk.inj (hT.own _ hf)
  exact writeInode_self hb ho

/-- How far a read moves the offset. -/
abbrev System.moved (k : System) (j : Fin fileMaxInSys) (n : ℕ) : ℕ :=
  if k.store.Readable j then n else 0

/-- What a read that fits does. -/
lemma sysRead_of_fits (hT : FilesApart T k.disk) (he : readEntry fd ptr k = some j)
    (hfit : Fits T ptr n j k) : sysRead junk fd ptr n k =
      (storeBytes k.proc.pagedir ptr (k.store.got j n).2 k.mem.ram).map fun ram =>
        ((k.store.got j n).1, k.readDone j
          { k.fileList j with offset := (k.fileList j).offset + k.moved j n } ram) := by
  have hmode := hT.regular _ hfit.file
  have hstart := hfit.start
  have hroom := hfit.room
  simp only [maxBlocksInFile, blockSize] at hroom
  by_cases hr : k.store.Readable j
  · have hread := @readFile_of_readable _ ptr n _ ⟨hmode, hr⟩ hstart (by
      rw [span_of_lt hfit.span]
      exact hfit.covered)
    rw [span_of_lt hfit.span] at hread
    rw [sysRead_of_entry he, if_pos hmode, hread, Option.bind_some, Store.got, if_pos hr,
      System.moved, if_pos hr]
    rfl
  · rw [sysRead_behind he hmode hstart (by omega) hr, Store.got, if_neg hr, System.moved, if_neg hr,
      Nat.cast_zero, Int.add_zero]
    rfl

/-- **A read is the read of the store.** -/
lemma store_read (hT : FilesApart T k.disk) (he : readEntry fd ptr k = some j)
    (hfit : Fits T ptr n j k) (h : sysRead junk fd ptr n k = some (r, k')) :
    k'.disk = k.disk ∧ k'.store = k.store.apply (.read j n) := by
  rw [sysRead_of_fits hT he hfit] at h
  obtain ⟨ram, -, hk'⟩ := Option.map_eq_some_iff.mp h
  obtain ⟨-, rfl⟩ := Prod.mk.inj hk'
  set k' := k.readDone j { k.fileList j with offset := (k.fileList j).offset + k.moved j n } ram
  have hdisk : k'.disk = k.disk := FilesApart.readBack hT hfit.file
  obtain ⟨hfile, hoffset⟩ := @store_moved k k' j (k.moved j n) rfl
  refine ⟨hdisk, Store.ext ?_ ?_ hfile hoffset⟩
  · rw [System.store, hdisk]
    rfl
  · rw [System.store, hdisk]
    rfl

/-! ### Opening and closing -/

/-- **Opening a file points a handle at it.** -/
lemma store_open {junk : List UInt8 → List UInt8} {path : List UInt8} {oflag : UInt32}
    (h : sysOpen junk path oflag k = some (r, k')) :
    k'.disk = k.disk ∧ k'.store = k.store.apply (Act.op (.file (.open junk path oflag)) k) := by
  obtain ⟨i, hi, ⟨hfd, -, rfl⟩ | ⟨fd, hfd, -, ⟨hj, rfl⟩ | ⟨j, ho⟩⟩⟩ := sysOpen_spec h
  · refine ⟨rfl, ?_⟩
    simp only [Act.op, hi, hfd]
    rfl
  · refine ⟨rfl, ?_⟩
    simp only [Act.op, hi, hfd, hj]
    rfl
  · have hdisk : k'.disk = k.disk := by rw [ho.eq]; rfl
    have hlist : k'.fileList = Function.update k.fileList j { k.fileList j with
        oflags := oflag
        isopen := true
        fInodeBlockNo := i.myInodeBlockNo
        fInodeOffset := i.myInodeOffset } := by rw [ho.eq]
    simp only [Act.op, hi, hfd, ho.closed]
    refine ⟨hdisk, Store.ext ?_ ?_ (funext fun j' => ?_) (funext fun j' => ?_)⟩
    · rw [System.store, hdisk]
      rfl
    · rw [System.store, hdisk]
      rfl
    · show inodePlace (k'.fileList j') = Function.update k.store.file j (mySlot i) j'
      rw [hlist]
      by_cases hj : j' = j
      · rw [hj, Function.update_self, Function.update_self]
        rfl
      · rw [Function.update_of_ne hj, Function.update_of_ne hj]
        rfl
    · show (k'.fileList j').offset = (k.fileList j').offset
      rw [hlist]
      by_cases hj : j' = j
      · rw [hj, Function.update_self]
      · rw [Function.update_of_ne hj]

lemma openEntry_of_open {i : Fin fileMaxInProcess} (hi : (i : ℤ) = fd) (hopen : isOpen i k.proc = true) :
    openEntry fd k = (k.proc.fdlist i).ofptr.map fun j => some (i, j) := by
  subst hi
  have hlt : (0 : ℤ) ≤ (i : ℕ) ∧ ((i : ℕ) : ℤ) < fileMaxInProcess := ⟨by omega, by exact_mod_cast i.isLt⟩
  rw [openEntry, dif_pos hlt]
  exact if_pos hopen

lemma openEntry_of_closed (h : ∀ i : Fin fileMaxInProcess, (i : ℤ) = fd → isOpen i k.proc = false) :
    openEntry fd k = some none := by
  rw [openEntry]
  split
  · rename_i hfd
    have hclosed := h ⟨fd.toNat, by omega⟩ (by simp only; omega)
    simp only [hclosed]
    rfl
  · rfl

/-- **Closing a file resets a handle.** -/
lemma store_close (h : sysClose fd k = (r, k')) :
    k'.disk = k.disk ∧ k'.store = k.store.apply (Act.op (.file (.close fd)) k) := by
  rcases sysClose_spec h with ⟨rfl, hclosed⟩ | ⟨i, hi, hopen, rfl⟩
  · refine ⟨rfl, ?_⟩
    simp only [Act.op, openEntry_of_closed hclosed]
    rfl
  · refine ⟨rfl, ?_⟩
    simp only [Act.op, openEntry_of_open hi hopen]
    cases hptr : (k.proc.fdlist i).ofptr with
    | none => rfl
    | some j =>
      refine Store.ext rfl rfl (funext fun j' => ?_) (funext fun j' => ?_)
      · show inodePlace (Function.update k.fileList j ⟨0, 0, 0, 0, false⟩ j') =
          if decide (j' = j) = true then (0, 0) else inodePlace (k.fileList j')
        by_cases hj : j' = j
        · rw [hj, Function.update_self, decide_eq_true rfl]
          rfl
        · rw [Function.update_of_ne hj, decide_eq_false hj]
          rfl
      · show (Function.update k.fileList j ⟨0, 0, 0, 0, false⟩ j').offset =
          if decide (j' = j) = true then 0 else (k.fileList j').offset
        by_cases hj : j' = j
        · rw [hj, Function.update_self, decide_eq_true rfl]
          rfl
        · rw [Function.update_of_ne hj, decide_eq_false hj]
          rfl

/-- **An exit resets the handles of the process.** -/
lemma Exited.store {p : Fin pcbMax} (hx : Exited p k k') :
    k'.store = k.store.apply (.reset (fun j => ∃ i, isOpen i (k.pcblist p) ∧
      ((k.pcblist p).fdlist i).ofptr = some j) (0, 0)) := by
  refine Store.ext ?_ ?_ (funext fun j => ?_) (funext fun j => ?_)
  · rw [System.store, hx.disk]
    rfl
  · rw [System.store, hx.disk]
    rfl
  · show inodePlace (k'.fileList j) = if decide _ = true then (0, 0) else inodePlace (k.fileList j)
    rw [hx.files]
    simp only [decide_eq_true_eq]
    split <;> rfl
  · show (k'.fileList j).offset = if decide _ = true then 0 else (k.fileList j).offset
    rw [hx.files]
    simp only [decide_eq_true_eq]
    split <;> rfl

/-! ### One step -/

/-- **A call that is not on files** closes those of the process, if it is an exit, and else does
nothing to the store. -/
lemma Step.store {c : Call} (hk : Sane k) (hs : Step c k k') :
    k'.store = k.store.apply (Act.op (.call c) k) := by
  cases hs.stepped hk with
  | idle | forkFails | waitFails | reap => rfl
  | switch hsw => exact store_congr hsw.rest.2.2.2.1 hsw.rest.2.2.1
  | fork hf => exact store_congr hf.rest.2.2.1 hf.rest.2.1
  | execve h =>
    rw [sysExecve_spec h]
    rfl
  | exit hp hx =>
    simp only [Act.op, hp]
    exact hx.store

/-- Only files of `T` are read. -/
lemma Act.Fits.within (ha : a.Fits T k) : (a.op k).Within T k.store := by
  cases a with
  | call c =>
    cases c with
    | exit =>
      simp only [Act.op]
      split <;> trivial
    | timer ptr | fork ptr | execve junk path ptr | wait => trivial
  | file c =>
    cases c with
    | creat stack junk junk' path mode => trivial
    | «open» junk path oflag =>
      simp only [Act.op]
      split <;> trivial
    | close fd =>
      simp only [Act.op]
      split <;> trivial
    | write fd ptr buf n =>
      simp only [Act.op]
      cases writeEntry fd ptr k <;> trivial
    | read junk fd ptr n =>
      simp only [Act.op]
      cases he : readEntry fd ptr k with
      | none => trivial
      | some j => exact (ha j he).file

/-- **What a step does to the disk and to the store.** -/
lemma Act.store (hk : Sane k) (hT : FilesApart T k.disk) (ha : a.Fits T k) (hs : a.Step k k') :
    OnlySizes T k.disk k'.disk ∧ Store.SameOn T k.held k'.store (k.store.apply (a.op k)) := by
  have hquiet : k'.disk = k.disk ∧ k'.store = k.store.apply (a.op k) →
      OnlySizes T k.disk k'.disk ∧ Store.SameOn T k.held k'.store (k.store.apply (a.op k)) := by
    rintro ⟨hd, he⟩
    rw [hd, he]
    exact ⟨.refl, .refl⟩
  cases a with
  | call c => exact hquiet ⟨Process.Step.disk hk hs, Process.Step.store hk hs⟩
  | file c =>
    obtain ⟨r, hc⟩ := hs
    cases c with
    | creat stack junk junk' path mode => exact ha.elim
    | «open» junk path oflag => exact hquiet (store_open hc)
    | close fd => exact hquiet (store_close (Option.some_inj.mp hc))
    | read junk fd ptr n =>
      cases he : readEntry fd ptr k with
      | none =>
        rcases sysRead_inode hc with ⟨-, mem, keyboard, rfl⟩ | ⟨j, -, -, hj, -⟩
        · exact hquiet ⟨rfl, by simp only [Act.op, he]; rfl⟩
        · rw [he] at hj
          cases hj
      | some j =>
        obtain ⟨hd, hstore⟩ := store_read hT he (ha j he) hc
        exact hquiet ⟨hd, by simp only [Act.op, he]; exact hstore⟩
    | write fd ptr buf n =>
      cases he : writeEntry fd ptr k with
      | none =>
        rcases sysWrite_inode hc with ⟨-, rfl⟩ | ⟨j, -, -, -, -, hj, -⟩
        · exact hquiet ⟨rfl, by simp only [Act.op, he]; rfl⟩
        · rw [he] at hj
          cases hj
      | some j =>
        have hfit := ha j he
        obtain ⟨k₁, hk₁, hwrote⟩ := @sysWrite_of_fits _ _ _ _ _ buf _ hT he hfit
        obtain ⟨-, rfl⟩ := Prod.mk.inj (Option.some_inj.mp (hc.symm.trans hk₁))
        refine ⟨hwrote.disk.onlySizes hT hfit.file hfit.covered, ?_⟩
        simp only [Act.op, he]
        exact hwrote.sameOn hT hfit

/-- The store of the kernel answers as it should. -/
lemma answers_store (hT : FilesApart T k.disk) (hs : Store.SameOn T k.held k.store s) :
    Answers T k s := by
  refine ⟨fun junk fd ptr n j ram he hfit hstore => ?_, fun fd ptr buf n j he hfit => ?_⟩
  · have hgot := hs.got (h := j) (n := n) hfit.file hfit.covered
    rw [← hgot] at hstore ⊢
    refine ⟨k.readDone j { k.fileList j with offset := (k.fileList j).offset + k.moved j n } ram, ?_, rfl⟩
    rw [sysRead_of_fits hT he hfit, hstore, Option.map_some]
  · obtain ⟨k', hk', -⟩ := @sysWrite_of_fits _ _ _ _ _ buf _ hT he hfit
    exact ⟨k', hk'⟩

end Step

/-! ### Every run -/

/-- What holds of the kernel and of the store that has been told of every step. -/
structure Refined (T : Set (ℕ × ℕ)) (k₀ : System) (p : System × FileStore) : Prop where
  sane : Sane p.1
  apart : FilesApart T p.1.disk
  sizes : OnlySizes T k₀.disk p.1.disk
  same : Store.SameOn T k₀.held p.1.store p.2

section Runs

variable {T : Set (ℕ × ℕ)} {k₀ k : System} {s : FileStore} {p p' : System × FileStore} {a : Act}
  {h : List Act}

lemma Refined.step (hp : Refined T k₀ p) (ha : a.Fits T p.1) (hs : StoreStep a p p') :
    Refined T k₀ p' := by
  obtain ⟨hact, he⟩ := hs
  obtain ⟨hsizes, hsame⟩ := Act.store hp.sane hp.apart ha hact
  refine ⟨Act.sane hp.sane hact, hp.apart.keep hsizes, hp.sizes.trans hsizes, ?_⟩
  rw [he]
  have hsame : Store.SameOn T k₀.held _ _ := hsame.mono fun f hf => (hp.sizes.held hf).ge
  exact hsame.trans (hp.same.apply ha.within)

lemma run_refined (hk : Sane k₀) (hT : FilesApart T k₀.disk)
    (hrun : Run StoreStep (fun a p => a.Fits T p.1) (k₀, k₀.store) h p) : Refined T k₀ p :=
  hrun.inv (Refined T k₀) ⟨hk, hT, .refl, .refl⟩ fun _ _ _ hp ha hs => hp.step ha hs

/-- **The files refine a store**: in every run of calls and interrupts of all processes in which the
reads and writes of files stay within files that are apart and no file is made, the files and the
entries of the file table are what a store that is told of the calls has them be, and the next read
or write answers as that store does. -/
theorem files_refine (hk : Sane k₀) (hT : FilesApart T k₀.disk)
    (hrun : Run StoreStep (fun a p => a.Fits T p.1) (k₀, k₀.store) h (k, s)) :
    Store.SameOn T k₀.held k.store s ∧ Answers T k s := by
  have hp := run_refined hk hT hrun
  refine ⟨hp.same, answers_store hp.apart (hp.same.mono fun f hf => ?_)⟩
  exact (hp.sizes.held hf).le

/-- A run of the kernel with the store beside it. -/
lemma exists_storeRun {G : Act → System → Prop} (hrun : Run Act.Step G k₀ h k) (s₀ : FileStore) :
    ∃ s, Run StoreStep (fun a p => G a p.1) (k₀, s₀) h (k, s) := by
  induction hrun with
  | nil => exact ⟨s₀, .nil⟩
  | @cons h k k' a _ hG hs ih =>
    obtain ⟨s, hrun⟩ := ih
    exact ⟨s.apply (a.op k), .cons hrun hG ⟨hs, rfl⟩⟩

end Runs

/-- The shell is opened and a child is forked, which runs. -/
def childHasShell : List Act := [.call (.timer userFrame), .call (.fork userFrame), openShell]

/-- The child has the entry of its parent. -/
lemma childHasShell_spec {T : Set (ℕ × ℕ)} : ∃ k, Run Act.Step (Act.Fits T) filesBoot.1 childHasShell k ∧
    k.current = 1 ∧ writeEntry 3 100 k = some 99 ∧ inodePlace (k.fileList 99) = slot 2 ∧
    (k.fileList 99).offset = 0 := by
  obtain ⟨k, hk, hspec⟩ := exists_of_any (P := fun k : System => k.current = 1 ∧
      writeEntry 3 100 k = some 99 ∧ inodePlace (k.fileList 99) = slot 2 ∧ (k.fileList 99).offset = 0)
    (o := runAll Act.perform childHasShell filesBoot.1) (by decide +kernel)
  refine ⟨k, (run_runAll (fun _ _ _ => Act.step_of_perform) hk).of_labels fun a ha k => ?_, hspec⟩
  simp only [childHasShell, List.mem_cons, List.not_mem_nil, or_false] at ha
  rcases ha with rfl | rfl | rfl <;> trivial

/-- The programs that `init_file` installs. -/
abbrev programFiles : Set (ℕ × ℕ) := (Files.init installedDisk).regular

/-- The child writes to the file that its parent has opened. -/
theorem files_refine_childHasShell : ∃ k s, Run StoreStep (fun a p => a.Fits programFiles p.1)
      (filesBoot.1, filesBoot.1.store) (.file (.write 3 100 (fun _ => 7) 1) :: childHasShell) (k, s) ∧
    k.current = 1 ∧ Store.SameOn programFiles filesBoot.1.held k.store s := by
  obtain ⟨k, hrun, hcur, he, hplace, hoff⟩ := @childHasShell_spec programFiles
  obtain ⟨s, hrun⟩ := exists_storeRun hrun filesBoot.1.store
  have hdisk : filesBoot.1.disk = installedDisk := by simp only [filesBoot, boot, initPcb]
  have hsane : Sane filesBoot.1 := boot_sane
  have hT : FilesApart programFiles filesBoot.1.disk := by
    rw [hdisk]
    exact installed_installedDisk.apart
  have hp := run_refined hsane hT hrun
  have hshell : slot 2 ∈ programFiles :=
    ⟨2, by decide, rfl, rfl, installed_installedDisk.shellMode⟩
  have hfit : Fits programFiles 100 1 99 k := by
    refine ⟨hplace ▸ hshell, by rw [hoff], by rw [hoff]; decide, by decide, ?_⟩
    have hblock : (inodeAt k.disk (slot 2)).blockNo ⟨0 / blockSize, by decide⟩ ≠ 0 := by
      rw [hp.sizes.blockNo hshell, hdisk, installed_installedDisk.shellBlocks]
      exact blocksFrom_ne_zero (by decide) (by decide) (by decide)
    rw [hoff, System.inodeOf, hplace]
    exact covered_one hblock
  obtain ⟨k', hk', -⟩ := @sysWrite_of_fits _ _ _ _ _ (fun _ => 7) _ hp.apart he hfit
  have hrun' : Run StoreStep (fun a p => a.Fits programFiles p.1) (filesBoot.1, filesBoot.1.store)
      (.file (.write 3 100 (fun _ => 7) 1) :: childHasShell) (k', _) :=
    .cons hrun (fun j hj => by
      obtain rfl := Option.some_inj.mp (he.symm.trans hj)
      exact hfit) ⟨⟨_, hk'⟩, rfl⟩
  refine ⟨k', _, hrun', ?_, (files_refine hsane hT hrun').1⟩
  rw [(sysWrite_spec hk').current, hcur]

end Nbos.Process
