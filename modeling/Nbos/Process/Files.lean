import Nbos.Fs.File
import Nbos.Fs.Path
import Nbos.Process.Execve
import Nbos.Process.Run

/-!
# The system calls on files

`sys_open`, `sys_close`, `sys_creat`, `sys_read` and `sys_write` of `syscall.c`. A descriptor comes
as the user gives it; a path and the buffer of a `sys_write` come as the strings that are found at
their addresses. `junk` stands for what the stack holds where the code does not initialise it.

`sysRead_spec` and `sysWrite_spec` say what reading and writing leave alone, `sysOpen_spec` and
`sysClose_spec` what opening and closing do to the descriptors and to the file table.
-/

namespace Nbos.Process

open Nbos.Lib Nbos.Kernel Nbos.Memory
open Nbos.Fs hiding Sane

/-! ### The source -/

/-- The file table entry of a descriptor that passes the checks of a system call, and the descriptor;
`none` for -1. A pointer that is `NULL` is followed: then there is no result. -/
def openEntry (fd : ℤ) (k : System) :
    Option (Option (Fin fileMaxInProcess × Fin fileMaxInSys)) :=
  if h : 0 ≤ fd ∧ fd < fileMaxInProcess then
    let fd : Fin fileMaxInProcess := ⟨fd.toNat, by omega⟩
    if isOpen fd k.proc then (k.proc.fdlist fd).ofptr.map fun j => some (fd, j) else some none
  else some none

/-- One entry of the file table changed. -/
def System.setFile (k : System) (j : Fin fileMaxInSys) (file : OpenFile) : System :=
  { k with fileList := Function.update k.fileList j file }

/-- `sys_write`, of `size` bytes that `buf` holds at the address `ptr`. What it prints is not part of
the state. It does not look at the result of `writeFile`. -/
def sysWrite (fd : ℤ) (ptr : ℕ) (buf : Bytes) (size : ℕ) (k : System) : Option (ℤ × System) :=
  if ptr = 0 then some (-1, k)
  else
    (openEntry fd k).bind fun
      | none => some (-1, k)
      | some (fd, j) =>
        let file := k.fileList j
        if ¬ (haveAccess file oWronly ∨ haveAccess file oRdwr) then some (-1, k)
        else if (fd : ℕ) = stdoutFileno ∨ (fd : ℕ) = stderrFileno then
          some (Int.bmod size (2 ^ 32), k)
        else if file.fInodeBlockNo.toNat = 0 ∨ inodeBlockSize < file.fInodeBlockNo.toNat then
          some (-1, k)
        else
          let i := readInode k.disk file.fInodeBlockNo.toNat file.fInodeOffset.toNat
          (if i.mode = regularFile then writeFile file i ptr buf size k.disk
            else some (0, file, i, k.disk)).map fun (_, file, i, disk) =>
              let i := { i with size := i.size + .ofNat size }
              (Int.bmod size (2 ^ 32), { k.setFile j file with disk := writeInode i disk })

/-- `sys_read`, into the buffer at the address `ptr`. For a file that is not a regular one it returns
what `readSize` happens to hold. -/
def sysRead (junk fd : ℤ) (ptr size : ℕ) (k : System) : Option (ℤ × System) :=
  if ptr = 0 then some (-1, k)
  else
    (openEntry fd k).bind fun
      | none => some (-1, k)
      | some (fd, j) =>
        let file := k.fileList j
        let dir := k.proc.pagedir
        if ¬ (haveAccess file oRdonly ∨ haveAccess file oRdwr) then some (-1, k)
        else if (fd : ℕ) = stdinFileno then
          let (r, bytes, keyboard) := Device.readStdin k.keyboard
          (storeBytes dir ptr bytes k.mem.ram).map fun ram =>
            (r, { k with mem := { k.mem with ram := ram }, keyboard := keyboard })
        else if file.fInodeBlockNo.toNat = 0 ∨ inodeBlockSize < file.fInodeBlockNo.toNat then
          some (-1, k)
        else
          let i := readInode k.disk file.fInodeBlockNo.toNat file.fInodeOffset.toNat
          (if i.mode = regularFile then readFile file i ptr size k.disk
            else some (junk, file, [])).bind fun (r, file, bytes) =>
              (storeBytes dir ptr bytes k.mem.ram).map fun ram =>
                (r, { k.setFile j file with
                  mem := { k.mem with ram := ram }
                  disk := writeInode i k.disk })

/-- `sys_open`. `seekFileInode` does not return -1. -/
def sysOpen (junk : List UInt8 → List UInt8) (path : List UInt8) (oflag : UInt32) (k : System) :
    Option (ℤ × System) :=
  (seekFileInode junk path k.disk).map fun i =>
    match getMinfd k.proc with
    | none => (-1, k)
    | some fd =>
      match setOpenFileList oflag i k.fileList with
      | (none, _) => (fd, k)
      | (some j, fileList) =>
        (fd, { k.setPcb k.current { k.proc with
            fdlist := Function.update k.proc.fdlist fd ⟨true, some j⟩ } with
          fileList := fileList })

/-- `sys_close`. -/
def sysClose (fd : ℤ) (k : System) : ℤ × System :=
  if h : 0 ≤ fd ∧ fd < fileMaxInProcess then
    let fd : Fin fileMaxInProcess := ⟨fd.toNat, by omega⟩
    if isOpen fd k.proc then
      let fileList := delFile (k.proc.fdlist fd).ofptr k.fileList
      (0, { k.setPcb k.current { k.proc with
          fdlist := Function.update k.proc.fdlist fd ⟨false, none⟩ } with
        fileList := fileList })
    else (-1, k)
  else (-1, k)

/-- The part of `sys_creat` before it opens the file: the disk, with the file made if `true`. The
inode and the block that it takes stay taken if it fails. -/
def makeFile (stack : Bytes) (junk : List UInt8 → List UInt8) (path : List UInt8) (mode : UInt16)
    (disk : Bytes) : Option (Bool × Bytes) :=
  match allocInode stack disk with
  | (none, disk) => some (false, disk)
  | (some i, disk) =>
    let (r, i, disk) := allocBlock i disk
    if r = -1 then some (false, disk)
    else do
      let i := { i with mode := mode }
      let base ← seekBaseDirectory junk path disk
      let (_, disk) ← writeDirectory base path i disk
      some (true, writeInode i disk)

/-- `sys_creat`. The inode of the directory is not written back. -/
def sysCreat (stack : Bytes) (junk junk' : List UInt8 → List UInt8) (path : List UInt8)
    (mode : UInt16) (k : System) : Option (ℤ × System) :=
  (makeFile stack junk path mode k.disk).bind fun
    | (false, disk) => some (-1, { k with disk := disk })
    | (true, disk) => sysOpen junk' path oRdwr { k with disk := disk }

/-- A system call on files of the current process, with what it finds. -/
inductive FileCall where
  | open (junk : List UInt8 → List UInt8) (path : List UInt8) (oflag : UInt32)
  | creat (stack : Bytes) (junk junk' : List UInt8 → List UInt8) (path : List UInt8) (mode : UInt16)
  | close (fd : ℤ)
  | read (junk fd : ℤ) (ptr size : ℕ)
  | write (fd : ℤ) (ptr : ℕ) (buf : Bytes) (size : ℕ)

/-- What it returns and the state after it. -/
def FileCall.perform : FileCall → System → Option (ℤ × System)
  | .open junk path oflag, k => sysOpen junk path oflag k
  | .creat stack junk junk' path mode, k => sysCreat stack junk junk' path mode k
  | .close fd, k => some (sysClose fd k)
  | .read junk fd ptr size, k => sysRead junk fd ptr size k
  | .write fd ptr buf size, k => sysWrite fd ptr buf size k

/-! ### What the calls do -/

/-- Where the inode of an open file is. -/
def inodePlace (file : OpenFile) : ℕ × ℕ := (file.fInodeBlockNo.toNat, file.fInodeOffset.toNat)

/-- The entry of the file table whose inode `sys_write` or `sys_read` loads, if they come to that:
`flag` is the access they need besides `O_RDWR`, and the descriptors in `std` are not files. -/
def inodeEntry (flag : UInt32) (std : List ℕ) (fd : ℤ) (ptr : ℕ) (k : System) :
    Option (Fin fileMaxInSys) :=
  if ptr = 0 then none
  else
    (openEntry fd k).bind fun o => o.bind fun (fd, j) =>
      let file := k.fileList j
      if (haveAccess file flag ∨ haveAccess file oRdwr) ∧ (fd : ℕ) ∉ std ∧
        ¬ (file.fInodeBlockNo.toNat = 0 ∨ inodeBlockSize < file.fInodeBlockNo.toNat) then some j
      else none

/-- The entry that `sys_write` writes to. -/
def writeEntry (fd : ℤ) (ptr : ℕ) (k : System) : Option (Fin fileMaxInSys) :=
  inodeEntry oWronly [stdoutFileno, stderrFileno] fd ptr k

/-- The entry that `sys_read` reads from. -/
def readEntry (fd : ℤ) (ptr : ℕ) (k : System) : Option (Fin fileMaxInSys) :=
  inodeEntry oRdonly [stdinFileno] fd ptr k

/-- Nothing but the offsets of the open files is changed in the tables of the kernel. -/
structure Undisturbed (k k' : System) : Prop where
  pcblist : k'.pcblist = k.pcblist
  current : k'.current = k.current
  nextpid : k'.nextpid = k.nextpid
  files : ∀ j, k'.fileList j = { k.fileList j with offset := (k'.fileList j).offset }

section Spec

variable {k k' : System} {fd r : ℤ} {ptr size : ℕ} {buf : Bytes} {file file' : OpenFile}
  {i i' : Inode} {d d' : Bytes} {bytes path : List UInt8} {junk junk' : List UInt8 → List UInt8}
  {oflag : UInt32} {mode : UInt16} {stack : Bytes}

lemma Undisturbed.refl : Undisturbed k k := ⟨rfl, rfl, rfl, fun _ => rfl⟩

lemma System.setFile_fileList {j j' : Fin fileMaxInSys} :
    (k.setFile j file).fileList j' = if j' = j then file else k.fileList j' :=
  Function.update_apply ..

lemma undisturbed_setFile {j : Fin fileMaxInSys}
    (h : file = { k.fileList j with offset := file.offset }) : Undisturbed k (k.setFile j file) := by
  refine ⟨rfl, rfl, rfl, fun j' => ?_⟩
  rw [System.setFile_fileList]
  by_cases hj : j' = j
  · subst hj
    rw [if_pos rfl]
    exact h
  · rw [if_neg hj]

lemma Undisturbed.congr {k'' : System} (h : Undisturbed k k') (hp : k''.pcblist = k'.pcblist)
    (hc : k''.current = k'.current) (hn : k''.nextpid = k'.nextpid)
    (hf : k''.fileList = k'.fileList) : Undisturbed k k'' :=
  ⟨hp.trans h.pcblist, hc.trans h.current, hn.trans h.nextpid, by rw [hf]; exact h.files⟩

lemma writeFile_file (h : writeFile file i ptr buf size d = some (r, file', i', d')) :
    file' = { file with offset := file'.offset } := by
  unfold writeFile at h
  split at h
  · obtain ⟨-, rfl, -⟩ := Prod.mk.inj (Option.some_inj.mp h)
    rfl
  · split at h
    · cases h
    · obtain ⟨q, -, he⟩ := Option.map_eq_some_iff.mp h
      obtain ⟨-, he⟩ := Prod.mk.inj he
      obtain ⟨rfl, -⟩ := Prod.mk.inj he
      rfl

lemma readFile_file (h : readFile file i ptr size d = some (r, file', bytes)) :
    file' = { file with offset := file'.offset } := by
  obtain ⟨q, -, he⟩ := Option.map_eq_some_iff.mp h
  split at he <;>
  · obtain ⟨-, he⟩ := Prod.mk.inj he
    obtain ⟨rfl, -⟩ := Prod.mk.inj he
    rfl

/-- `sys_write` loads the inode of an entry, and writes it back with more in its size. -/
lemma sysWrite_inode (h : sysWrite fd ptr buf size k = some (r, k')) :
    (writeEntry fd ptr k = none ∧ k' = k) ∨
    ∃ j r' file i disk, writeEntry fd ptr k = some j ∧
      (((inodeAt k.disk (inodePlace (k.fileList j))).mode = regularFile ∧
          writeFile (k.fileList j) (inodeAt k.disk (inodePlace (k.fileList j))) ptr buf size k.disk =
            some (r', file, i, disk)) ∨
        ((inodeAt k.disk (inodePlace (k.fileList j))).mode ≠ regularFile ∧ file = k.fileList j ∧
          i = inodeAt k.disk (inodePlace (k.fileList j)) ∧ disk = k.disk)) ∧
      k' = { k.setFile j file with
        disk := writeInode { i with size := i.size + .ofNat size } disk } := by
  unfold sysWrite at h
  rw [writeEntry, inodeEntry]
  split at h
  · rename_i hptr
    obtain ⟨-, rfl⟩ := Prod.mk.inj (Option.some_inj.mp h)
    exact .inl ⟨if_pos hptr, rfl⟩
  rename_i hptr
  rw [if_neg hptr]
  obtain ⟨o, ho, h⟩ := Option.bind_eq_some_iff.mp h
  rw [ho, Option.bind_some]
  cases o with
  | none =>
    obtain ⟨-, rfl⟩ := Prod.mk.inj (Option.some_inj.mp h)
    exact .inl ⟨rfl, rfl⟩
  | some e =>
    rw [Option.bind_some]
    simp only at h ⊢
    split at h
    · rename_i hacc
      obtain ⟨-, rfl⟩ := Prod.mk.inj (Option.some_inj.mp h)
      exact .inl ⟨if_neg fun hc => hacc hc.1, rfl⟩
    rename_i hacc
    split at h
    · rename_i hstd
      obtain ⟨-, rfl⟩ := Prod.mk.inj (Option.some_inj.mp h)
      exact .inl ⟨if_neg fun hc => hc.2.1 (List.mem_pair.mpr hstd), rfl⟩
    rename_i hstd
    split at h
    · rename_i hplace
      obtain ⟨-, rfl⟩ := Prod.mk.inj (Option.some_inj.mp h)
      exact .inl ⟨if_neg fun hc => hc.2.2 hplace, rfl⟩
    rename_i hplace
    obtain ⟨⟨r', file, i, disk⟩, hw, he⟩ := Option.map_eq_some_iff.mp h
    obtain ⟨-, rfl⟩ := Prod.mk.inj he
    refine .inr ⟨e.2, r', file, i, disk,
      if_pos ⟨not_not.mp hacc, fun hm => hstd (List.mem_pair.mp hm), hplace⟩, ?_, rfl⟩
    split at hw
    · rename_i hmode
      exact .inl ⟨hmode, hw⟩
    · rename_i hmode
      simp only [Option.some_inj, Prod.mk.injEq] at hw
      obtain ⟨-, rfl, rfl, rfl⟩ := hw
      exact .inr ⟨hmode, rfl, rfl, rfl⟩

theorem sysWrite_spec (h : sysWrite fd ptr buf size k = some (r, k')) : Undisturbed k k' := by
  rcases sysWrite_inode h with ⟨-, rfl⟩ | ⟨j, r', file, i, disk, -, hcase, rfl⟩
  · exact .refl
  · have hfile : file = { k.fileList j with offset := file.offset } := by
      rcases hcase with ⟨-, hw⟩ | ⟨-, rfl, -⟩
      · exact writeFile_file hw
      · rfl
    exact (undisturbed_setFile hfile).congr rfl rfl rfl rfl

/-- `sys_read` loads the inode of an entry, and writes it back. -/
lemma sysRead_inode {junk : ℤ} (h : sysRead junk fd ptr size k = some (r, k')) :
    (readEntry fd ptr k = none ∧
      ∃ mem keyboard, k' = { k with mem := mem, keyboard := keyboard }) ∨
    ∃ j file mem, readEntry fd ptr k = some j ∧
      file = { k.fileList j with offset := file.offset } ∧
      k' = { k.setFile j file with
        mem := mem
        disk := writeInode (inodeAt k.disk (inodePlace (k.fileList j))) k.disk } := by
  unfold sysRead at h
  rw [readEntry, inodeEntry]
  split at h
  · rename_i hptr
    obtain ⟨-, rfl⟩ := Prod.mk.inj (Option.some_inj.mp h)
    exact .inl ⟨if_pos hptr, _, _, rfl⟩
  rename_i hptr
  rw [if_neg hptr]
  obtain ⟨o, ho, h⟩ := Option.bind_eq_some_iff.mp h
  rw [ho, Option.bind_some]
  cases o with
  | none =>
    obtain ⟨-, rfl⟩ := Prod.mk.inj (Option.some_inj.mp h)
    exact .inl ⟨rfl, _, _, rfl⟩
  | some e =>
    rw [Option.bind_some]
    simp only at h ⊢
    split at h
    · rename_i hacc
      obtain ⟨-, rfl⟩ := Prod.mk.inj (Option.some_inj.mp h)
      exact .inl ⟨if_neg fun hc => hacc hc.1, _, _, rfl⟩
    rename_i hacc
    split at h
    · rename_i hstd
      obtain ⟨ram, -, he⟩ := Option.map_eq_some_iff.mp h
      obtain ⟨-, rfl⟩ := Prod.mk.inj he
      exact .inl ⟨if_neg fun hc => hc.2.1 (List.mem_singleton.mpr hstd), _, _, rfl⟩
    rename_i hstd
    split at h
    · rename_i hplace
      obtain ⟨-, rfl⟩ := Prod.mk.inj (Option.some_inj.mp h)
      exact .inl ⟨if_neg fun hc => hc.2.2 hplace, _, _, rfl⟩
    rename_i hplace
    obtain ⟨⟨r', file, bytes⟩, hr, h⟩ := Option.bind_eq_some_iff.mp h
    obtain ⟨ram, -, he⟩ := Option.map_eq_some_iff.mp h
    obtain ⟨-, rfl⟩ := Prod.mk.inj he
    refine .inr ⟨e.2, file, _,
      if_pos ⟨not_not.mp hacc, fun hm => hstd (List.mem_singleton.mp hm), hplace⟩, ?_, rfl⟩
    split at hr
    · exact readFile_file hr
    · obtain ⟨-, he⟩ := Prod.mk.inj (Option.some_inj.mp hr)
      obtain ⟨rfl, -⟩ := Prod.mk.inj he
      rfl

theorem sysRead_spec {junk : ℤ} (h : sysRead junk fd ptr size k = some (r, k')) :
    Undisturbed k k' := by
  rcases sysRead_inode h with ⟨-, mem, keyboard, rfl⟩ | ⟨j, file, mem, -, hfile, rfl⟩
  · exact Undisturbed.refl.congr rfl rfl rfl rfl
  · exact (undisturbed_setFile hfile).congr rfl rfl rfl rfl

/-- The inode `i` is opened: a descriptor that was not open points to an entry that was closed. -/
structure FileOpened (i : Inode) (oflag : UInt32) (fd : Fin fileMaxInProcess) (j : Fin fileMaxInSys)
    (k k' : System) : Prop where
  least : getMinfd k.proc = some fd
  closed : closedEntry k.fileList = some j
  eq : k' = { k.setPcb k.current { k.proc with
      fdlist := Function.update k.proc.fdlist fd ⟨true, some j⟩ } with
    fileList := Function.update k.fileList j { k.fileList j with
      oflags := oflag
      isopen := true
      fInodeBlockNo := i.myInodeBlockNo
      fInodeOffset := i.myInodeOffset } }

/-- `sys_open` does nothing without a descriptor, and nothing with a full file table. -/
theorem sysOpen_spec (h : sysOpen junk path oflag k = some (r, k')) :
    ∃ i, seekFileInode junk path k.disk = some i ∧
      ((getMinfd k.proc = none ∧ r = -1 ∧ k' = k) ∨
        ∃ fd : Fin fileMaxInProcess, getMinfd k.proc = some fd ∧ r = (fd : ℕ) ∧
          ((closedEntry k.fileList = none ∧ k' = k) ∨ ∃ j, FileOpened i oflag fd j k k')) := by
  obtain ⟨i, hi, he⟩ := Option.map_eq_some_iff.mp h
  refine ⟨i, hi, ?_⟩
  cases hfd : getMinfd k.proc with
  | none =>
    rw [hfd] at he
    obtain ⟨rfl, rfl⟩ := Prod.mk.inj he
    exact .inl ⟨rfl, rfl, rfl⟩
  | some fd =>
    rw [hfd] at he
    refine .inr ⟨fd, rfl, ?_⟩
    cases hj : closedEntry k.fileList with
    | none =>
      simp only [setOpenFileList, hj] at he
      obtain ⟨rfl, rfl⟩ := Prod.mk.inj he
      exact ⟨rfl, .inl ⟨rfl, rfl⟩⟩
    | some j =>
      simp only [setOpenFileList, hj] at he
      obtain ⟨rfl, rfl⟩ := Prod.mk.inj he
      exact ⟨rfl, .inr ⟨j, hfd, hj, rfl⟩⟩

/-- `sys_creat` writes the disk, and opens the file if it has made one. -/
theorem sysCreat_spec (h : sysCreat stack junk junk' path mode k = some (r, k')) :
    (∃ disk, makeFile stack junk path mode k.disk = some (false, disk) ∧ r = -1 ∧
      k' = { k with disk := disk }) ∨
    ∃ disk, makeFile stack junk path mode k.disk = some (true, disk) ∧
      sysOpen junk' path oRdwr { k with disk := disk } = some (r, k') := by
  obtain ⟨⟨made, disk⟩, hm, h⟩ := Option.bind_eq_some_iff.mp h
  cases made with
  | false =>
    obtain ⟨rfl, rfl⟩ := Prod.mk.inj (Option.some_inj.mp h)
    exact .inl ⟨disk, hm, rfl, rfl⟩
  | true => exact .inr ⟨disk, hm, h⟩

/-- `sys_close` of a descriptor that is not open does nothing; else it closes the descriptor and the
entry that it points to. -/
theorem sysClose_spec (h : sysClose fd k = (r, k')) :
    (k' = k ∧ ∀ i : Fin fileMaxInProcess, (i : ℤ) = fd → isOpen i k.proc = false) ∨
    ∃ i : Fin fileMaxInProcess, (i : ℤ) = fd ∧ isOpen i k.proc = true ∧
      k' = { k.setPcb k.current { k.proc with
          fdlist := Function.update k.proc.fdlist i ⟨false, none⟩ } with
        fileList := delFile (k.proc.fdlist i).ofptr k.fileList } := by
  unfold sysClose at h
  split at h
  · rename_i hfd
    simp only at h
    split at h
    · rename_i hopen
      obtain ⟨-, rfl⟩ := Prod.mk.inj h
      exact .inr ⟨⟨fd.toNat, by omega⟩, by simp only; omega, hopen, rfl⟩
    · rename_i hopen
      obtain ⟨-, rfl⟩ := Prod.mk.inj h
      refine .inl ⟨rfl, fun i hi => ?_⟩
      have hi' : i = ⟨fd.toNat, by omega⟩ := Fin.ext (by simp only; omega)
      rw [hi']
      exact Bool.eq_false_iff.mpr hopen
  · rename_i hfd
    obtain ⟨-, rfl⟩ := Prod.mk.inj h
    refine .inl ⟨rfl, fun i hi => absurd ?_ hfd⟩
    have := i.isLt
    simp only [fileMaxInProcess] at this ⊢
    omega

end Spec

end Nbos.Process
