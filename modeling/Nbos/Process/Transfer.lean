import Nbos.Fs.Contents
import Nbos.Process.FileSize

/-!
# What reading and writing report

`sys_read` does not look at the size of the file, and what it returns for a directory is what the stack
holds; `sysRead_end_iff` says when it goes by the end of the file all the same. `sys_write` returns the
size of the request whatever becomes of it; `sysWrite_honest` says when that is the truth.
-/

namespace Nbos.Process

open Nbos.Lib Nbos.Kernel Nbos.Memory
open Nbos.Fs hiding Sane

/-- The inode of an entry of the file table. -/
abbrev System.inodeOf (k : System) (j : Fin fileMaxInSys) : Inode :=
  inodeAt k.disk (inodePlace (k.fileList j))

/-- The state after a `sys_read` that has stored its bytes. -/
def System.readDone (k : System) (j : Fin fileMaxInSys) (file : OpenFile) (ram : Bytes) : System :=
  { k.setFile j file with
    mem := { k.mem with ram := ram }
    disk := writeInode (k.inodeOf j) k.disk }

/-- The state after a `sys_write` that has loaded an inode. -/
def System.writeDone (k : System) (j : Fin fileMaxInSys) (file : OpenFile) (i : Inode) (size : ℕ)
    (disk : Bytes) : System :=
  { k.setFile j file with disk := writeInode { i with size := i.size + .ofNat size } disk }

section Entry

variable {k : System} {fd : ℤ} {ptr size : ℕ} {j : Fin fileMaxInSys} {flag : UInt32} {std : List ℕ}
  {buf : Bytes}

/-- What an entry that is read or written has passed. -/
lemma inodeEntry_eq_some (h : inodeEntry flag std fd ptr k = some j) : ptr ≠ 0 ∧
    ∃ fd', openEntry fd k = some (some (fd', j)) ∧
      (haveAccess (k.fileList j) flag ∨ haveAccess (k.fileList j) oRdwr) ∧ (fd' : ℕ) ∉ std ∧
      ¬ ((k.fileList j).fInodeBlockNo.toNat = 0 ∨
        inodeBlockSize < (k.fileList j).fInodeBlockNo.toNat) := by
  unfold inodeEntry at h
  split at h
  · cases h
  rename_i hptr
  obtain ⟨o, ho, hentry⟩ := Option.bind_eq_some_iff.mp h
  obtain ⟨⟨fd', j'⟩, rfl, hcheck⟩ := Option.bind_eq_some_iff.mp hentry
  simp only at hcheck
  split at hcheck
  · rename_i hcond
    obtain rfl := Option.some_inj.mp hcheck
    exact ⟨hptr, fd', ho, hcond⟩
  · cases hcheck

/-- `sys_read`, once it has got to the inode. -/
lemma sysRead_of_entry {junk : ℤ} (h : readEntry fd ptr k = some j) :
    sysRead junk fd ptr size k =
      (if (k.inodeOf j).mode = regularFile then readFile (k.fileList j) (k.inodeOf j) ptr size k.disk
        else some (junk, k.fileList j, [])).bind fun (r, file, bytes) =>
          (storeBytes k.proc.pagedir ptr bytes k.mem.ram).map fun ram =>
            (r, k.readDone j file ram) := by
  obtain ⟨hptr, fd', ho, hacc, hstd, hplace⟩ := inodeEntry_eq_some h
  have hstd : ¬ (fd' : ℕ) = stdinFileno := fun he => hstd (List.mem_singleton.mpr he)
  simp only [sysRead, if_neg hptr, ho, Option.bind_some, if_neg (not_not.mpr hacc), if_neg hstd,
    if_neg hplace]
  rfl

/-- `sys_write`, once it has got to the inode. -/
lemma sysWrite_of_entry (h : writeEntry fd ptr k = some j) :
    sysWrite fd ptr buf size k =
      (if (k.inodeOf j).mode = regularFile then
          writeFile (k.fileList j) (k.inodeOf j) ptr buf size k.disk
        else some (0, k.fileList j, k.inodeOf j, k.disk)).map fun (_, file, i, disk) =>
          (Int.bmod size (2 ^ 32), k.writeDone j file i size disk) := by
  obtain ⟨hptr, fd', ho, hacc, hstd, hplace⟩ := inodeEntry_eq_some h
  have hstd : ¬ ((fd' : ℕ) = stdoutFileno ∨ (fd' : ℕ) = stderrFileno) := fun he =>
    hstd (List.mem_pair.mpr he)
  simp only [sysWrite, if_neg hptr, ho, Option.bind_some, if_neg (not_not.mpr hacc), if_neg hstd,
    if_neg hplace]
  rfl

end Entry

/-! ### The end of a file -/

/-- There is something to read: a regular file, whose end is not before the offset. -/
def Readable (k : System) (j : Fin fileMaxInSys) : Prop :=
  (k.inodeOf j).mode = regularFile ∧ (k.fileList j).offset ≤ (k.inodeOf j).size.toNat

/-- The bytes of a request that the file has. -/
def available (k : System) (j : Fin fileMaxInSys) (size : ℕ) : ℕ :=
  min size ((k.inodeOf j).size.toNat - (k.fileList j).offset.toNat)

/-- `sys_read` goes by the end of the file: it returns how many bytes of the request the file has,
stores these and moves the offset behind them. Where there is nothing to read it returns -1 and does
nothing. -/
structure EndHonoured (fd : ℤ) (ptr size : ℕ) (j : Fin fileMaxInSys) (k : System) : Prop where
  read : Readable k j → ∀ junk, ∃ k',
    sysRead junk fd ptr size k = some (((available k j size : ℕ) : ℤ), k') ∧
    storeBytes k.proc.pagedir ptr
      (fileBytes (k.inodeOf j) k.disk (k.fileList j).offset.toNat (available k j size)) k.mem.ram =
        some k'.mem.ram ∧
    (k'.fileList j).offset = (k.fileList j).offset + available k j size
  nothing : ¬ Readable k j → ∀ junk, ∃ k', sysRead junk fd ptr size k = some (-1, k') ∧
    k'.mem = k.mem ∧ (k'.fileList j).offset = (k.fileList j).offset

section Read

variable {k k' : System} {fd junk r : ℤ} {ptr size : ℕ} {j : Fin fileMaxInSys} {file : OpenFile}
  {bytes : List UInt8} {ram : Bytes}

lemma System.setFile_self : (k.setFile j file).fileList j = file := Function.update_self ..

lemma System.offset_readDone : ((k.readDone j file ram).fileList j).offset = file.offset :=
  congrArg OpenFile.offset System.setFile_self

lemma sysRead_of_read (h : readEntry fd ptr k = some j) (hmode : (k.inodeOf j).mode = regularFile)
    (hread : readFile (k.fileList j) (k.inodeOf j) ptr size k.disk = some (r, file, bytes))
    (hstore : storeBytes k.proc.pagedir ptr bytes k.mem.ram = some ram) :
    sysRead junk fd ptr size k = some (r, k.readDone j file ram) := by
  rw [sysRead_of_entry h, if_pos hmode, hread, Option.bind_some]
  simp only
  rw [hstore]
  rfl

/-- For another file than a regular one `sys_read` returns `junk`. -/
lemma sysRead_of_not_regular (h : readEntry fd ptr k = some j)
    (hmode : (k.inodeOf j).mode ≠ regularFile) :
    sysRead junk fd ptr size k = some (junk, k.readDone j (k.fileList j) k.mem.ram) := by
  rw [sysRead_of_entry h, if_neg hmode]
  rfl

/-- Behind the end of a regular file nothing is read. -/
lemma sysRead_behind (h : readEntry fd ptr k = some j) (hmode : (k.inodeOf j).mode = regularFile)
    (h0 : 0 ≤ (k.fileList j).offset) (hint : (k.fileList j).offset < 2 ^ 31)
    (hend : ¬ (k.fileList j).offset ≤ (k.inodeOf j).size.toNat) :
    sysRead junk fd ptr size k = some (-1, k.readDone j (k.fileList j) k.mem.ram) := by
  refine @sysRead_of_read _ _ _ _ _ _ _ _ [] _ h hmode ?_ ?_
  · rw [readFile, readFileAtOffset, if_pos (by omega)]
    rfl
  · rfl

/-- What a regular file gives, up to its end. -/
lemma readFile_of_readable (hr : Readable k j) (h0 : 0 ≤ (k.fileList j).offset)
    (hc : Covered (k.inodeOf j) (k.fileList j).offset.toNat (span ptr size)) :
    readFile (k.fileList j) (k.inodeOf j) ptr size k.disk = some (((span ptr size : ℕ) : ℤ),
      { k.fileList j with offset := (k.fileList j).offset + span ptr size },
      fileBytes (k.inodeOf j) k.disk (k.fileList j).offset.toNat (span ptr size)) := by
  have hlt := (k.inodeOf j).size.toNat_lt
  have hend := hr.2
  rw [readFile, readFileAtOffset, if_neg (by omega), if_neg (by omega), readLoop_of_covered hc,
    Option.map_some, Option.map_some]
  have hne : ¬ ((span ptr size : ℕ) : ℤ) = -1 := by omega
  simp only [if_true, length_fileBytes, if_neg hne]

/-- What `sys_read` returns for a regular file is -1, or the request. -/
lemma sysRead_result (h : readEntry fd ptr k = some j) (hr : Readable k j) (h0 : 0 ≤ (k.fileList j).offset)
    (hread : sysRead junk fd ptr size k = some (r, k')) : r = -1 ∨ r = ((span ptr size : ℕ) : ℤ) := by
  have hlt := (k.inodeOf j).size.toNat_lt
  have hend := hr.2
  rw [sysRead_of_entry h, if_pos hr.1] at hread
  obtain ⟨⟨r', file, bytes⟩, hfile, hread⟩ := Option.bind_eq_some_iff.mp hread
  obtain ⟨ram, -, he⟩ := Option.map_eq_some_iff.mp hread
  obtain ⟨rfl, -⟩ := Prod.mk.inj he
  obtain ⟨⟨r, bytes⟩, hat, hfile⟩ := Option.map_eq_some_iff.mp hfile
  rw [readFileAtOffset, if_neg (by omega), if_neg (by omega)] at hat
  obtain ⟨⟨b, bytes⟩, hloop, hat⟩ := Option.map_eq_some_iff.mp hat
  obtain ⟨rfl, rfl⟩ := Prod.mk.inj hat
  cases b with
  | false =>
    left
    exact (Prod.mk.inj hfile).1.symm
  | true =>
    right
    have hne : ¬ ((span ptr size : ℕ) : ℤ) = -1 := by omega
    simp only [if_true, length_readLoop hloop, if_neg hne] at hfile
    exact (Prod.mk.inj hfile).1.symm

/-- A `sys_read` that goes by the end of the file is asked for what the file has. -/
lemma EndHonoured.span (hend : EndHonoured fd ptr size j k) (h : readEntry fd ptr k = some j)
    (h0 : 0 ≤ (k.fileList j).offset) : (k.inodeOf j).mode = regularFile ∧
      ((k.fileList j).offset ≤ (k.inodeOf j).size.toNat → span ptr size = available k j size) := by
  have hmode : (k.inodeOf j).mode = regularFile := by
    by_contra hmode
    obtain ⟨k', hk', -⟩ := hend.nothing (fun hr => hmode hr.1) 0
    rw [sysRead_of_not_regular h hmode] at hk'
    obtain ⟨hr, -⟩ := Prod.mk.inj (Option.some_inj.mp hk')
    omega
  refine ⟨hmode, fun hoff => ?_⟩
  obtain ⟨k', hk', -⟩ := hend.read ⟨hmode, hoff⟩ 0
  rcases sysRead_result h ⟨hmode, hoff⟩ h0 hk' with hr | hr
  · omega
  · exact (Nat.cast_inj.mp hr).symm

/-- **When `sys_read` goes by the end of the file**: of a regular file, if the request ends before the
end of the file. The bytes of the file are on the disk and the buffer can be written. -/
theorem sysRead_end_iff (h : readEntry fd ptr k = some j) (h0 : 0 ≤ (k.fileList j).offset)
    (hint : (k.fileList j).offset < 2 ^ 31)
    (hc : (k.inodeOf j).mode = regularFile → Covered (k.inodeOf j) 0 (k.inodeOf j).size.toNat)
    (hbuf : ∀ bytes : List UInt8, bytes.length ≤ size →
      (storeBytes k.proc.pagedir ptr bytes k.mem.ram).isSome) :
    EndHonoured fd ptr size j k ↔ (k.inodeOf j).mode = regularFile ∧
      ((k.fileList j).offset ≤ (k.inodeOf j).size.toNat → span ptr size = available k j size) := by
  refine ⟨fun hend => hend.span h h0, ?_⟩
  rintro ⟨hmode, hspan⟩
  constructor
  · intro hr junk
    have hspan := hspan hr.2
    have hend := hr.2
    have hle : available k j size ≤ size := Nat.min_le_left ..
    have hfile : (k.fileList j).offset.toNat + available k j size ≤ (k.inodeOf j).size.toNat := by
      unfold available
      omega
    have hcov : Covered (k.inodeOf j) (k.fileList j).offset.toNat (span ptr size) := by
      rw [hspan]
      intro p hp
      have := hc hmode ((k.fileList j).offset.toNat + p) (by omega)
      rwa [Nat.zero_add] at this
    have hread := @readFile_of_readable _ ptr size _ hr h0 hcov
    rw [hspan] at hread
    obtain ⟨ram, hram⟩ := Option.isSome_iff_exists.mp (hbuf (fileBytes (k.inodeOf j) k.disk
      (k.fileList j).offset.toNat (available k j size)) (by rw [length_fileBytes]; exact hle))
    exact ⟨_, sysRead_of_read h hmode hread hram, hram, System.offset_readDone⟩
  · intro hr junk
    have hend : ¬ (k.fileList j).offset ≤ (k.inodeOf j).size.toNat := fun hle => hr ⟨hmode, hle⟩
    exact ⟨_, sysRead_behind h hmode h0 hint hend, rfl, System.offset_readDone⟩

end Read

/-- A file of three bytes, in block 100. -/
def noteInode : Inode := ⟨3, 0, 0, 0, regularFile, 0, 0, 0, 1, 0, fun a => if a = 0 then 100 else 0⟩

/-- It is open, at an offset, and every address can be written. -/
def noteOpen (offset : ℤ) : System where
  mem := ⟨fun _ => 1, 0⟩
  pcblist := fun _ => { zeroPcb with fdlist := fun _ => ⟨true, some 0⟩ }
  current := 0
  nextpid := 1
  fileList := fun _ => ⟨oRdwr, offset, 1, 0, true⟩
  disk := writeInode noteInode fun _ => 0
  keyboard := .init

lemma noteOpen_inodeOf {offset : ℤ} : (noteOpen offset).inodeOf 0 = noteInode := by
  have hfit : noteInode.myInodeOffset.toNat + 116 ≤ 512 := by decide
  have hb : noteInode.myInodeBlockNo.toNat = 1 := by decide
  have ho : noteInode.myInodeOffset.toNat = 0 := by decide
  have hread := readInode_writeInode_self (d := fun _ => 0) hfit
  rw [hb, ho] at hread
  have hplace : inodePlace ((noteOpen offset).fileList 0) = (1, 0) := rfl
  have hdisk : (noteOpen offset).disk = writeInode noteInode fun _ => 0 := by simp only [noteOpen]
  rw [System.inodeOf, hplace, hdisk, inodeAt, hread]

/-- One byte can be stored. -/
lemma noteOpen_store {offset : ℤ} (bytes : List UInt8) (h : bytes.length ≤ 1) :
    (storeBytes (noteOpen offset).proc.pagedir 100 bytes (noteOpen offset).mem.ram).isSome := by
  match bytes, h with
  | [], _ => rfl
  | [b], _ =>
    have hwalk : (walk (fun _ => 1) 0 100).isSome = true := by decide +kernel
    obtain ⟨pte, hpte⟩ := Option.isSome_iff_exists.mp hwalk
    have hpte : walk (noteOpen offset).mem.ram (noteOpen offset).proc.pagedir (100 % 2 ^ 32) =
        some pte := hpte
    rw [storeBytes, hpte]
    rfl

lemma covered_noteInode : Covered noteInode 0 3 := by
  intro p hp
  have hdiv : (0 + p) / blockSize = 0 := by simp only [blockSize]; omega
  have hb : noteInode.blockNo 0 ≠ 0 := by decide
  simp only [hdiv]
  exact ⟨by decide, hb⟩

/-- The first byte is read. -/
theorem sysRead_end_iff_note : EndHonoured 3 100 1 0 (noteOpen 0) := by
  refine (sysRead_end_iff rfl le_rfl (by decide) (fun _ => ?_) noteOpen_store).mpr ?_
  · rw [noteOpen_inodeOf]
    exact covered_noteInode
  · rw [available, noteOpen_inodeOf]
    exact ⟨rfl, fun _ => rfl⟩

/-- A byte is read at the end of the file. -/
theorem sysRead_behind_end : ¬ ∀ (fd : ℤ) (ptr size : ℕ) (j : Fin fileMaxInSys) (k : System),
    readEntry fd ptr k = some j → 0 ≤ (k.fileList j).offset → (k.fileList j).offset < 2 ^ 31 →
    ((k.inodeOf j).mode = regularFile → Covered (k.inodeOf j) 0 (k.inodeOf j).size.toNat) →
    (∀ bytes : List UInt8, bytes.length ≤ size →
      (storeBytes k.proc.pagedir ptr bytes k.mem.ram).isSome) → EndHonoured fd ptr size j k := by
  intro hall
  have hentry : readEntry 3 100 (noteOpen 3) = some 0 := rfl
  have hend := hall 3 100 1 0 (noteOpen 3) hentry (by decide) (by decide)
    (fun _ => by rw [noteOpen_inodeOf]; exact covered_noteInode) noteOpen_store
  have hspan := (hend.span hentry (by decide)).2
  rw [available, noteOpen_inodeOf] at hspan
  exact absurd (hspan (by decide)) (by decide)

/-! ### What a write has done -/

/-- The `size` bytes of `buf` are in the file, from the old offset on. On the rest of the disk nothing
has changed but the record of the inode, the bitmap and the blocks that the file has got. -/
structure Stored (file : OpenFile) (size : ℕ) (buf d d' : Bytes) : Prop where
  start : size ≠ 0 → 0 ≤ file.offset
  covered : Covered (inodeAt d' (inodePlace file)) file.offset.toNat size
  bytes : ∀ p < size, d' (filePos (inodeAt d' (inodePlace file)) (file.offset.toNat + p)) = buf p
  frame : ∀ x, (∀ p < size, filePos (inodeAt d' (inodePlace file)) (file.offset.toNat + p) ≠ x) →
    ¬ InRecord (inodePlace file) x → ¬ InBlock bitBlock x →
    (∀ a, (inodeAt d (inodePlace file)).blockNo a = 0 →
      (inodeAt d' (inodePlace file)).blockNo a ≠ 0 →
        ¬ InBlock ((inodeAt d' (inodePlace file)).blockNo a).toNat x) → d' x = d x

/-- What a `sys_write` that returns `r` has done is what it says. -/
structure Truthful (file : OpenFile) (i : Inode) (size : ℕ) (buf : Bytes) (r : ℤ) (d d' : Bytes)
    (offset' : ℤ) : Prop where
  failed : r = -1 → d' = d ∧ offset' = file.offset
  done : r ≠ -1 → r = size ∧ Stored file size buf d d' ∧ offset' = file.offset + size
  refused : i.mode ≠ regularFile ∨ ((maxBlocksInFile * blockSize : ℕ) : ℤ) < file.offset + size →
    r = -1

/-- `sys_write` tells the truth: it ends, and has done what it says. -/
def Honest (fd : ℤ) (ptr : ℕ) (buf : Bytes) (size : ℕ) (j : Fin fileMaxInSys) (k : System) : Prop :=
  ∃ r k', sysWrite fd ptr buf size k = some (r, k') ∧
    Truthful (k.fileList j) (k.inodeOf j) size buf r k.disk k'.disk (k'.fileList j).offset

/-- The file can take the request: it is a regular one and stays within the largest size, all the
blocks of the request are there, and no two of its bytes have one place, nor is it in the record of
the inode. -/
structure WriteReady (ptr size : ℕ) (j : Fin fileMaxInSys) (k : System) : Prop where
  regular : (k.inodeOf j).mode = regularFile
  room : (k.fileList j).offset + size ≤ ((maxBlocksInFile * blockSize : ℕ) : ℤ)
  start : size ≠ 0 → 0 ≤ (k.fileList j).offset
  span : span ptr size = size
  covered : Covered (k.inodeOf j) (k.fileList j).offset.toNat size
  separate : Separate (k.inodeOf j) (k.fileList j).offset.toNat size
  apart : ∀ p < size, ¬ InRecord (inodePlace (k.fileList j))
    (filePos (k.inodeOf j) ((k.fileList j).offset.toNat + p))
  own : mySlot (k.inodeOf j) = inodePlace (k.fileList j)
  fits : (k.fileList j).fInodeOffset.toNat + 116 ≤ 512

section Write

variable {k k' : System} {fd r : ℤ} {ptr size n : ℕ} {j : Fin fileMaxInSys} {buf d d' : Bytes}
  {fd' : Fin fileMaxInProcess} {i i' : Inode} {file file' : OpenFile}

/-- What `sys_write` does without an entry to write to. -/
lemma sysWrite_of_none (hopen : openEntry fd k = some (some (fd', j)))
    (hstd : (fd' : ℕ) ≠ stdoutFileno ∧ (fd' : ℕ) ≠ stderrFileno) (h : writeEntry fd ptr k = none) :
    sysWrite fd ptr buf size k = some (-1, k) := by
  have hstd' : ¬ ((fd' : ℕ) = stdoutFileno ∨ (fd' : ℕ) = stderrFileno) := not_or.mpr hstd
  rw [writeEntry, inodeEntry] at h
  by_cases hptr : ptr = 0
  · rw [sysWrite, if_pos hptr]
  rw [if_neg hptr, hopen, Option.bind_some, Option.bind_some] at h
  simp only [sysWrite, if_neg hptr, hopen, Option.bind_some, if_neg hstd']
  by_cases hacc : haveAccess (k.fileList j) oWronly ∨ haveAccess (k.fileList j) oRdwr
  · rw [if_neg (not_not.mpr hacc)]
    by_cases hplace : (k.fileList j).fInodeBlockNo.toNat = 0 ∨
        inodeBlockSize < (k.fileList j).fInodeBlockNo.toNat
    · rw [if_pos hplace]
    · have hnot : (fd' : ℕ) ∉ [stdoutFileno, stderrFileno] := fun hm => hstd' (List.mem_pair.mp hm)
      simp only at h
      rw [if_pos ⟨hacc, hnot, hplace⟩] at h
      cases h
  · rw [if_pos hacc]

lemma writeEntry_of_open (hopen : openEntry fd k = some (some (fd', j)))
    (h : writeEntry fd ptr k ≠ none) : writeEntry fd ptr k = some j := by
  obtain ⟨j', hj'⟩ := Option.ne_none_iff_exists'.mp h
  obtain ⟨-, fd'', hopen', -⟩ := inodeEntry_eq_some hj'
  rw [hopen] at hopen'
  obtain ⟨-, rfl⟩ := Prod.mk.inj (Option.some_inj.mp (Option.some_inj.mp hopen'))
  exact hj'

/-! ### A request that the file can take -/

lemma bmod_of_le (h : size ≤ 10240) : Int.bmod size (2 ^ 32) = size :=
  Int.bmod_eq_of_le (by omega) (by omega)

/-- `writeFile` takes a request that the file can take. -/
lemma WriteReady.writeFile (h : WriteReady ptr size j k) (hint : -2 ^ 31 ≤ (k.fileList j).offset) :
    ∃ r d', writeFile (k.fileList j) (k.inodeOf j) ptr buf size k.disk = some (r,
        { k.fileList j with offset := (k.fileList j).offset + size }, k.inodeOf j, d') ∧
      Written (k.inodeOf j) (k.fileList j).offset.toNat size buf k.disk d' := by
  by_cases h0 : 0 ≤ (k.fileList j).offset
  · obtain ⟨d', hd', hw⟩ := @writeFile_of_covered _ _ _ _ buf k.disk h0 h.room h.span h.covered
    exact ⟨0, d', hd', hw⟩
  · -- nothing is asked for, and `writeFile` refuses
    obtain rfl : size = 0 := by
      by_contra hne
      exact h0 (h.start hne)
    refine ⟨-1, k.disk, ?_, .zero⟩
    rw [Fs.writeFile, if_pos]
    · rw [Nat.cast_zero, Int.add_zero]
    · simp only [maxBlocksInFile, blockSize]
      omega

/-- The disk after the inode is written back. -/
lemma stored_writeBack (hw : Written i file.offset.toNat size buf d d')
    (hstart : size ≠ 0 → 0 ≤ file.offset)
    (hc : Covered i file.offset.toNat size) (hs : Separate i file.offset.toNat size)
    (hapart : ∀ p < size, ¬ InRecord (inodePlace file) (filePos i (file.offset.toNat + p)))
    (hown : mySlot i = inodePlace file) (hfits : file.fInodeOffset.toNat + 116 ≤ 512) :
    Stored file size buf d (writeInode { i with size := i.size + .ofNat size } d') := by
  have hblock : i.myInodeBlockNo.toNat = file.fInodeBlockNo.toNat := congrArg Prod.fst hown
  have hoff : i.myInodeOffset.toNat = file.fInodeOffset.toNat := congrArg Prod.snd hown
  set i' : Inode := { i with size := i.size + .ofNat size } with hi'
  have hfits' : i'.myInodeOffset.toNat + 116 ≤ 512 := by
    show i.myInodeOffset.toNat + 116 ≤ 512
    omega
  have hat : inodeAt (writeInode i' d') (inodePlace file) = i' := by
    have hread := readInode_writeInode_self (d := d') hfits'
    rw [show i'.myInodeBlockNo.toNat = file.fInodeBlockNo.toNat from hblock,
      show i'.myInodeOffset.toNat = file.fInodeOffset.toNat from hoff] at hread
    exact hread
  have hpos : ∀ x, filePos i' x = filePos i x := fun _ => rfl
  have hframe : ∀ x, ¬ InRecord (inodePlace file) x → writeInode i' d' x = d' x := by
    intro x hx
    unfold InRecord at hx
    simp only [inodePlace, ← hblock, ← hoff] at hx
    rw [writeInode_eq hfits', overlay_of_not_mem]
    show x < 512 * lba (sectorOf i.myInodeBlockNo.toNat) + i.myInodeOffset.toNat ∨
      512 * lba (sectorOf i.myInodeBlockNo.toNat) + i.myInodeOffset.toNat + 116 ≤ x
    omega
  refine ⟨hstart, ?_, ?_, ?_⟩
  · rw [hat]
    exact hc
  · intro p hp
    rw [hat, hpos, hframe _ (hapart p hp)]
    exact hw.bytes_of_separate hs hp
  · intro x hx hrec _ _
    rw [hat] at hx
    rw [hframe x hrec]
    exact hw.frame x hx

/-- **A request that the file can take is written, and reported.** -/
lemma honest_of_ready (hopen : openEntry fd k = some (some (fd', j)))
    (hstd : (fd' : ℕ) ≠ stdoutFileno ∧ (fd' : ℕ) ≠ stderrFileno)
    (hint : -2 ^ 31 ≤ (k.fileList j).offset)
    (h : writeEntry fd ptr k = none ∨ WriteReady ptr size j k) : Honest fd ptr buf size j k := by
  by_cases hentry : writeEntry fd ptr k = none
  · exact ⟨-1, k, sysWrite_of_none hopen hstd hentry, fun _ => ⟨rfl, rfl⟩, fun hr => absurd rfl hr,
      fun _ => rfl⟩
  have hready := h.resolve_left hentry
  have hentry := writeEntry_of_open hopen hentry
  obtain ⟨r, d', hd', hw⟩ := @WriteReady.writeFile _ _ _ _ buf hready hint
  have hroom := hready.room
  have hstart := hready.start
  have hle : size ≤ 10240 := by
    simp only [maxBlocksInFile, blockSize] at hroom
    omega
  have hr : Int.bmod size (2 ^ 32) = size := bmod_of_le hle
  have hwrite : sysWrite fd ptr buf size k = some (Int.bmod size (2 ^ 32), k.writeDone j
      { k.fileList j with offset := (k.fileList j).offset + size } (k.inodeOf j) size d') := by
    rw [sysWrite_of_entry hentry, if_pos hready.regular, hd']
    rfl
  refine ⟨_, _, hwrite, fun hneg => ?_, fun _ => ⟨hr, ?_, ?_⟩, fun href => ?_⟩
  · omega
  · exact stored_writeBack hw hready.start hready.covered hready.separate hready.apart hready.own
      hready.fits
  · exact congrArg OpenFile.offset System.setFile_self
  · rcases href with hmode | hfar
    · exact absurd hready.regular hmode
    · exact absurd hready.room (not_le.mpr hfar)

/-! ### A request that is reported as it should be -/

lemma writeFile_inode (h : Fs.writeFile file i ptr buf size d = some (r, file', i', d')) :
    i' = { i with blockNo := i'.blockNo } := by
  unfold Fs.writeFile at h
  split at h
  · simp only [Option.some_inj, Prod.mk.injEq] at h
    obtain ⟨-, -, rfl, -⟩ := h
    rfl
  · split at h
    · cases h
    · obtain ⟨q, hq, he⟩ := Option.map_eq_some_iff.mp h
      simp only [Prod.mk.injEq] at he
      obtain ⟨-, -, rfl, -⟩ := he
      exact writeLoop_inode hq

/-- The inode that `sys_write` has in hand after `writeFile`, if it calls that. -/
def Loaded (i : Inode) (file : OpenFile) (ptr size : ℕ) (buf d : Bytes) (file' : OpenFile) (i' : Inode)
    (d' : Bytes) : Prop :=
  ∃ r, (if i.mode = regularFile then Fs.writeFile file i ptr buf size d else some (0, file, i, d)) =
    some (r, file', i', d')

lemma Loaded.inode (h : Loaded i file ptr size buf d file' i' d') :
    i' = { i with blockNo := i'.blockNo } := by
  obtain ⟨r, h⟩ := h
  split at h
  · exact writeFile_inode h
  · simp only [Option.some_inj, Prod.mk.injEq] at h
    obtain ⟨-, -, rfl, -⟩ := h
    rfl

lemma honest_result (hentry : writeEntry fd ptr k = some j) (h : Honest fd ptr buf size j k) :
    ∃ file' i' d', Loaded (k.inodeOf j) (k.fileList j) ptr size buf k.disk file' i' d' ∧
      Truthful (k.fileList j) (k.inodeOf j) size buf (Int.bmod size (2 ^ 32)) k.disk
        (writeInode { i' with size := i'.size + .ofNat size } d') file'.offset := by
  obtain ⟨r, k', hw, ht⟩ := h
  rw [sysWrite_of_entry hentry] at hw
  obtain ⟨⟨r', file', i', d'⟩, hload, he⟩ := Option.map_eq_some_iff.mp hw
  obtain ⟨rfl, rfl⟩ := Prod.mk.inj he
  have hfile : (k.writeDone j file' i' size d').fileList j = file' := System.setFile_self
  simp only [hfile] at ht
  exact ⟨file', i', d', ⟨r', hload⟩, ht⟩

lemma inUse_place (hh : Handed k.disk n) (hs : InUse k.disk (inodePlace file)) :
    ListedHigh (inodeAt k.disk (inodePlace file)) ∧
    mySlot (inodeAt k.disk (inodePlace file)) = inodePlace file ∧
    0 < (inodePlace file).1 ∧ (inodePlace file).1 < 51 ∧ (inodePlace file).2 + 116 ≤ 512 := by
  obtain ⟨a, ha, hplace⟩ := hh.inUse_iff.mp hs
  have hle := hh.records.list.le
  rw [hplace]
  exact ⟨hh.high a ha, hh.records.list.own a (by omega), slot_fst_pos, slot_fst_lt (by omega),
    slot_snd_le⟩

/-- The inode written back is found again. -/
lemma inodeAt_writeBack (hh : Handed k.disk n) (hs : InUse k.disk (inodePlace file))
    (hi : i' = { inodeAt k.disk (inodePlace file) with blockNo := i'.blockNo }) (z : UInt32) :
    inodeAt (writeInode { i' with size := z } d') (inodePlace file) =
      { i' with size := z } := by
  obtain ⟨-, hown, -, -, hfits⟩ := inUse_place hh hs
  have hown' : mySlot { i' with size := z } = inodePlace file := by
    rw [← hown, hi]
    rfl
  have hread := readInode_writeInode_self (d := d') (i := { i' with size := z })
    (by rw [show UInt32.toNat _ = (inodePlace file).2 from congrArg Prod.snd hown']; exact hfits)
  rw [show UInt32.toNat _ = (inodePlace file).1 from congrArg Prod.fst hown',
    show UInt32.toNat _ = (inodePlace file).2 from congrArg Prod.snd hown'] at hread
  exact hread

/-- What is written back is not what was there, so a failure is never the truth. -/
lemma Truthful.not_failed {offset' : ℤ} (hh : Handed k.disk n)
    (hs : InUse k.disk (inodePlace file)) (hsize : size < 2 ^ 32)
    (hi : i' = { inodeAt k.disk (inodePlace file) with blockNo := i'.blockNo })
    (h : Truthful file i size buf (Int.bmod size (2 ^ 32)) k.disk
      (writeInode { i' with size := i'.size + .ofNat size } d') offset') :
    Int.bmod size (2 ^ 32) ≠ -1 := by
  intro hneg
  have hat := @inodeAt_writeBack _ _ d' _ _ hh hs hi (i'.size + .ofNat size)
  rw [(h.failed hneg).1] at hat
  have hold : i'.size = (inodeAt k.disk (inodePlace file)).size := by rw [hi]
  rw [hat] at hold
  have hzero : size = 0 := by
    have hword := congrArg UInt32.toNat hold
    have hlt := i'.size.toNat_lt
    simp only [UInt32.toNat_add, UInt32.toNat_ofNat'] at hword
    omega
  rw [hzero] at hneg
  exact absurd hneg (by decide)

/-- What is stored in a file in use leaves the super block alone. -/
lemma Stored.superBlock (hh : Handed k.disk n) (hs : InUse k.disk (inodePlace file))
    (hi : i' = { inodeAt k.disk (inodePlace file) with blockNo := i'.blockNo }) (hlist : ListedHigh i')
    (h : Stored file size buf k.disk (writeInode { i' with size := i'.size + .ofNat size } d')) :
    readBlock d' 0 = readBlock k.disk 0 := by
  obtain ⟨hold, hown, hpos, hlt, hfits⟩ := inUse_place hh hs
  have hat := @inodeAt_writeBack _ _ d' _ _ hh hs hi (i'.size + .ofNat size)
  have hown' : i'.myInodeBlockNo.toNat = (inodePlace file).1 := by
    rw [← hown, hi]
    rfl
  obtain ⟨-, hc, -, hframe⟩ := h
  rw [hat] at hc hframe
  have hzero : Addressable 0 := by decide
  have hplace : Addressable (inodePlace file).1 := by
    simp only [Addressable, superBlockSector]
    omega
  refine readBlock_congr fun x hx => ?_
  have hrec : ¬ InRecord (inodePlace file) x := fun hr =>
    not_inBlock_of_ne hzero hplace (by omega) hx (hr.inBlock hfits)
  have hpart : writeInode { i' with size := i'.size + .ofNat size } d' x = d' x := by
    rw [writeInode]
    apply writeBlock_of_not
    intro hx'
    refine not_inBlock_of_ne hzero hplace (by omega) hx ?_
    rw [← hown']
    exact hx'
  rw [← hpart]
  refine hframe x (fun p hp he => ?_) hrec ?_ fun a _ ha => ?_
  · obtain ⟨hin, hb⟩ := hc p hp
    have h56 := (hlist _ hb).1
    refine not_inBlock_of_ne hzero (hlist.addressable hb) (by omega) hx ?_
    rw [← he]
    exact inBlock_filePos hin
  · exact not_inBlock_of_ne hzero (by decide) (by decide) hx
  · have h56 := (hlist a ha).1
    have hne : 0 ≠ (i'.blockNo a).toNat := by omega
    exact not_inBlock_of_ne hzero (hlist.addressable ha) hne hx

lemma span_eq_zero (h : span ptr size ≠ size) : span ptr size = 0 := by
  unfold span at h ⊢
  split at h
  · exact absurd rfl h
  · rename_i hwrap
    rw [if_neg hwrap]

lemma span_zero : span ptr 0 = 0 := by
  unfold span
  split <;> rfl

/-- Whatever the buffer holds, the loop that writes `n` bytes of it leads to a disk with the request. -/
def AlwaysStored (n size : ℕ) (j : Fin fileMaxInSys) (k : System) : Prop :=
  ∀ buf, ∃ i' d', writeLoop buf n (k.fileList j).offset.toNat (k.inodeOf j) k.disk = some (i', d') ∧
    i' = { k.inodeOf j with blockNo := i'.blockNo } ∧
    Stored (k.fileList j) size buf k.disk (writeInode { i' with size := i'.size + .ofNat size } d')

/-- A request that is reported as it should be is a good one, and is written by the loop. -/
lemma alwaysStored_of_honest (hh : Handed k.disk n) (hs : InUse k.disk (inodePlace (k.fileList j)))
    (hsize : size < 2 ^ 32) (hentry : writeEntry fd ptr k = some j)
    (h : ∀ buf, Honest fd ptr buf size j k) :
    (k.inodeOf j).mode = regularFile ∧
    (k.fileList j).offset + size ≤ ((maxBlocksInFile * blockSize : ℕ) : ℤ) ∧
    (size ≠ 0 → 0 ≤ (k.fileList j).offset) ∧
    (size ≠ 0 → AlwaysStored (span ptr size) size j k) := by
  have htrue : ∀ buf, ∃ file' i' d',
      Loaded (k.inodeOf j) (k.fileList j) ptr size buf k.disk file' i' d' ∧
      i' = { k.inodeOf j with blockNo := i'.blockNo } ∧ Int.bmod size (2 ^ 32) ≠ -1 ∧
      Truthful (k.fileList j) (k.inodeOf j) size buf (Int.bmod size (2 ^ 32)) k.disk
        (writeInode { i' with size := i'.size + .ofNat size } d') file'.offset := fun buf => by
    obtain ⟨file', i', d', hload, ht⟩ := honest_result hentry (h buf)
    exact ⟨file', i', d', hload, hload.inode, ht.not_failed hh hs hsize hload.inode, ht⟩
  obtain ⟨_, _, _, _, _, hr, ht⟩ := htrue fun _ => 0
  have hregular : (k.inodeOf j).mode = regularFile := by
    by_contra hmode
    exact hr (ht.refused (.inl hmode))
  have hroom : (k.fileList j).offset + size ≤ ((maxBlocksInFile * blockSize : ℕ) : ℤ) := by
    by_contra hfar
    exact hr (ht.refused (.inr (not_le.mp hfar)))
  have hstart := (ht.done hr).2.1.start
  refine ⟨hregular, hroom, hstart, fun hzero buf => ?_⟩
  obtain ⟨file', i', d', ⟨r, hload⟩, hi, -, ht⟩ := htrue buf
  rw [if_pos hregular, writeFile_of_le (hstart hzero) hroom] at hload
  obtain ⟨⟨i'', d''⟩, hloop, he⟩ := Option.map_eq_some_iff.mp hload
  simp only [Prod.mk.injEq] at he
  obtain ⟨-, -, rfl, rfl⟩ := he
  exact ⟨_, _, hloop, hi, (ht.done hr).2.1⟩

/-- If nothing is written, the first byte cannot be what it should be. -/
lemma AlwaysStored.span_eq (h : AlwaysStored (span ptr size) size j k) (hzero : size ≠ 0) :
    span ptr size = size := by
  by_contra hwrap
  have hbyte : ∀ buf : Bytes, writeInode { k.inodeOf j with
      size := (k.inodeOf j).size + .ofNat size } k.disk (filePos (inodeAt (writeInode
        { k.inodeOf j with size := (k.inodeOf j).size + .ofNat size } k.disk)
        (inodePlace (k.fileList j))) ((k.fileList j).offset.toNat + 0)) = buf 0 := fun buf => by
    obtain ⟨i', d', hloop, -, hst⟩ := h buf
    rw [span_eq_zero hwrap, writeLoop_zero] at hloop
    obtain ⟨rfl, rfl⟩ := Prod.mk.inj (Option.some_inj.mp hloop)
    exact hst.bytes 0 (by omega)
  exact absurd ((hbyte fun _ => 0).symm.trans (hbyte fun _ => 1)) (by decide)

/-- Where the file has no block, the super block is written. -/
lemma AlwaysStored.covered (hh : Handed k.disk n) (hs : InUse k.disk (inodePlace (k.fileList j)))
    (h : AlwaysStored size size j k) : Covered (k.inodeOf j) (k.fileList j).offset.toNat size := by
  by_contra hhole
  obtain ⟨buf, hbuf⟩ := writeLoop_uncovered hh.sane (inUse_place hh hs).1 hhole
  obtain ⟨i', d', hloop, hi, hst⟩ := h buf
  obtain ⟨hchanged, hlist⟩ := hbuf i' d' hloop
  exact hchanged (hst.superBlock hh hs hi hlist)

/-- Two bytes with one place would have to be equal. -/
lemma AlwaysStored.separate (hh : Handed k.disk n) (hs : InUse k.disk (inodePlace (k.fileList j)))
    (h : AlwaysStored size size j k)
    (hc : Covered (k.inodeOf j) (k.fileList j).offset.toNat size) :
    Separate (k.inodeOf j) (k.fileList j).offset.toNat size := by
  have hbyte : ∀ buf : Bytes, ∃ D : Bytes, ∀ p < size,
      D (filePos (k.inodeOf j) ((k.fileList j).offset.toNat + p)) = buf p := fun buf => by
    obtain ⟨i', d', hloop, hi, hst⟩ := h buf
    obtain ⟨d'', hd'', -⟩ := @writeLoop_written _ k.disk buf _ _ hc
    obtain ⟨rfl, rfl⟩ := Prod.mk.inj (Option.some_inj.mp (hd''.symm.trans hloop))
    have hst := hst.bytes
    rw [inodeAt_writeBack hh hs hi] at hst
    exact ⟨_, hst⟩
  intro p hp q hq he
  obtain ⟨D, hD⟩ := hbyte fun r => if r = p then 1 else 0
  have hsame := (hD p hp).symm.trans ((congrArg D he).trans (hD q hq))
  by_contra hne
  simp only [if_true, if_neg (Ne.symm hne)] at hsame
  exact absurd hsame (by decide)

/-- The blocks of a file in use are none of the inode blocks. -/
lemma not_inRecord_of_covered (hh : Handed k.disk n)
    (hs : InUse k.disk (inodePlace (k.fileList j)))
    (hc : Covered (k.inodeOf j) (k.fileList j).offset.toNat size) {p : ℕ} (hp : p < size) :
    ¬ InRecord (inodePlace (k.fileList j))
      (filePos (k.inodeOf j) ((k.fileList j).offset.toNat + p)) := by
  intro hrec
  obtain ⟨hhigh, -, -, hlt, hfits⟩ := inUse_place hh hs
  obtain ⟨hin, hb⟩ := hc p hp
  have h56 := (hhigh _ hb).1
  have hplace : Addressable (inodePlace (k.fileList j)).1 := by
    simp only [Addressable, superBlockSector]
    omega
  exact not_inBlock_of_ne (hhigh.addressable hb) hplace (by omega) (inBlock_filePos hin)
    (hrec.inBlock hfits)

/-- **A request that is reported as it should be, whatever is written, is one that the file can
take.** -/
lemma ready_of_honest (hh : Handed k.disk n) (hs : InUse k.disk (inodePlace (k.fileList j)))
    (hsize : size < 2 ^ 32) (hentry : writeEntry fd ptr k = some j)
    (h : ∀ buf, Honest fd ptr buf size j k) : WriteReady ptr size j k := by
  obtain ⟨-, hown, -, -, hfits⟩ := inUse_place hh hs
  obtain ⟨hregular, hroom, hstart, hstored⟩ := alwaysStored_of_honest hh hs hsize hentry h
  by_cases hzero : size = 0
  · subst hzero
    have hnone : ∀ p, ¬ p < 0 := fun p => Nat.not_lt_zero p
    exact ⟨hregular, hroom, hstart, span_zero, fun p hp => absurd hp (hnone p),
      fun p hp => absurd hp (hnone p), fun p hp => absurd hp (hnone p), hown, hfits⟩
  · have hspan := (hstored hzero).span_eq hzero
    have hstored' : AlwaysStored size size j k := by
      have hall := hstored hzero
      rwa [hspan] at hall
    have hc := hstored'.covered hh hs
    exact ⟨hregular, hroom, hstart, hspan, hc, hstored'.separate hh hs hc,
      fun p hp => not_inRecord_of_covered hh hs hc hp, hown, hfits⟩

/-- **When `sys_write` tells the truth**, for an open descriptor of a file: if there is no entry that
it may write to, so that it returns -1, or if the file can take the request. In a file system that is
in order it does so, whatever is written, only then. -/
theorem sysWrite_honest (hopen : openEntry fd k = some (some (fd', j)))
    (hstd : (fd' : ℕ) ≠ stdoutFileno ∧ (fd' : ℕ) ≠ stderrFileno) (hsize : size < 2 ^ 32)
    (hint : -2 ^ 31 ≤ (k.fileList j).offset) :
    (writeEntry fd ptr k = none ∨ WriteReady ptr size j k → ∀ buf, Honest fd ptr buf size j k) ∧
      ∀ n, Handed k.disk n → InUse k.disk (inodePlace (k.fileList j)) →
        (∀ buf, Honest fd ptr buf size j k) → writeEntry fd ptr k = none ∨ WriteReady ptr size j k := by
  constructor
  · intro hready buf
    exact honest_of_ready hopen hstd hint hready
  · intro n hh hs hall
    by_cases hentry : writeEntry fd ptr k = none
    · exact .inl hentry
    · exact .inr (ready_of_honest hh hs hsize (writeEntry_of_open hopen hentry) hall)

end Write

/-- The shell is open, at an offset. -/
def shellOpen (d : Bytes) (offset : ℤ) : System :=
  { noteOpen offset with
    fileList := fun _ => ⟨oRdwr, offset, 1, 232, true⟩
    disk := d }

section ShellOpen

variable {d : Bytes} {offset : ℤ}

lemma shellOpen_offset : ((shellOpen d offset).fileList 0).offset = offset := rfl

lemma shellOpen_inUse (h : Installed d) :
    InUse (shellOpen d offset).disk (inodePlace ((shellOpen d offset).fileList 0)) :=
  h.handed.inUse_iff.mpr ⟨2, by decide, rfl⟩

end ShellOpen

/-- A byte is written at the start of the shell; one that is written behind its blocks is not there. -/
theorem sysWrite_honest_shell : ∃ d, initFile (fun _ _ _ => 0) (fun _ => 0) = some d ∧
    (∀ buf, Honest 3 100 buf 1 0 (shellOpen d 0)) ∧
      ¬ ∀ buf, Honest 3 100 buf 1 0 (shellOpen d 7680) := by
  obtain ⟨d, hd, hinst⟩ := initFile_spec (fun _ _ _ => 0) fun _ => 0
  have hint : ∀ offset : ℤ, 0 ≤ offset → -2 ^ 31 ≤ ((shellOpen d offset).fileList 0).offset := by
    intro offset h0
    rw [shellOpen_offset]
    omega
  refine ⟨d, hd, (@sysWrite_honest (shellOpen d 0) 3 100 1 0 3 rfl (by decide) (by decide)
    (hint 0 le_rfl)).1 (.inr ?_), fun hall => ?_⟩
  · have hfirst : (inodeAt d (slot 2)).blockNo ⟨0 / blockSize, by decide⟩ ≠ 0 := by
      rw [hinst.shellBlocks]
      exact blocksFrom_ne_zero (by decide) (by decide) (by decide)
    obtain ⟨hhigh, hown, hpos, hlt, hfits⟩ :=
      inUse_place (k := shellOpen d 0) hinst.handed (shellOpen_inUse hinst)
    have hc : Covered ((shellOpen d 0).inodeOf 0) 0 1 := covered_one hfirst
    have hroom : (0 : ℤ) + (1 : ℕ) ≤ ((maxBlocksInFile * blockSize : ℕ) : ℤ) := by decide
    refine ⟨hinst.shellMode, hroom, fun _ => le_rfl, by decide, hc, ?_, ?_, hown, hfits⟩
    · intro p hp q hq _
      omega
    · intro p hp hrec
      obtain ⟨hin, hb⟩ := hc p hp
      have h56 := (hhigh _ hb).1
      refine not_inBlock_of_ne (hhigh.addressable hb) ?_ (by omega) (inBlock_filePos hin)
        (hrec.inBlock hfits)
      simp only [Addressable, superBlockSector]
      omega
  · rcases (@sysWrite_honest (shellOpen d 7680) 3 100 1 0 3 rfl (by decide) (by decide)
      (hint 7680 (by omega))).2 3 hinst.handed (shellOpen_inUse hinst) hall with hnone | hready
    · cases hnone
    · have hc : Covered (inodeAt d (slot 2)) 7680 1 := hready.covered
      obtain ⟨hin, hb⟩ := hc 0 (by omega)
      have hdiv : (7680 + 0) / blockSize = 15 := by decide
      have hslot : (⟨(7680 + 0) / blockSize, hin⟩ : Fin maxBlocksInFile) = 15 := Fin.ext hdiv
      rw [hslot, hinst.shellBlocks] at hb
      exact hb (by decide)

/-- More than the largest file is written, and reported as written. -/
theorem sysWrite_too_far : ¬ ∀ (fd : ℤ) (fd' : Fin fileMaxInProcess) (ptr size : ℕ) (buf : Bytes)
    (j : Fin fileMaxInSys) (k : System), openEntry fd k = some (some (fd', j)) →
    (fd' : ℕ) ≠ stdoutFileno ∧ (fd' : ℕ) ≠ stderrFileno → size < 2 ^ 32 →
    -2 ^ 31 ≤ (k.fileList j).offset → Honest fd ptr buf size j k := by
  intro hall
  have hhonest := hall 3 3 100 10241 (fun _ => 0) 0 (noteOpen 0) rfl (by decide) (by decide) (by decide)
  obtain ⟨file', i', d', -, ht⟩ := honest_result rfl hhonest
  exact absurd (ht.refused (.inr (by decide))) (by decide)

end Nbos.Process
