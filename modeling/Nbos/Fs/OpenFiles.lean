import Nbos.Kernel.Defs
import Nbos.Lib.Loops

/-!
# The file table

The functions of `file.c` on the table of open files and on the descriptors of a process.
-/

namespace Nbos.Fs

open Nbos.Lib Nbos.Kernel

/-- `fileList`. -/
abbrev FileList : Type := Fin fileMaxInSys → OpenFile

/-! ### The source -/

/-- `isOpen`. -/
def isOpen (fd : Fin fileMaxInProcess) (p : Pcb) : Bool := (p.fdlist fd).openFlag

/-- `haveAccess`. -/
def haveAccess (file : OpenFile) (flag : UInt32) : Bool := file.oflags == flag

/-- `getMinfd`; `none` stands for -1. -/
def getMinfd (p : Pcb) : Option (Fin fileMaxInProcess) :=
  (List.finRange fileMaxInProcess).find? fun fd => stderrFileno + 1 ≤ (fd : ℕ) ∧ !isOpen fd p

/-- The index `setOpenFileList` uses: the loop does not stop at the first closed entry. -/
def closedEntry (fileList : FileList) : Option (Fin fileMaxInSys) :=
  (List.finRange fileMaxInSys).reverse.find? fun i => !(fileList i).isopen

/-- `setOpenFileList`. -/
def setOpenFileList (oflag : UInt32) (iptr : Inode) (fileList : FileList) :
    Option (Fin fileMaxInSys) × FileList :=
  match closedEntry fileList with
  | none => (none, fileList)
  | some index =>
    (some index, Function.update fileList index { fileList index with
      oflags := oflag
      isopen := true
      fInodeBlockNo := iptr.myInodeBlockNo
      fInodeOffset := iptr.myInodeOffset })

/-- `delFile`. -/
def delFile (ofptr : Option (Fin fileMaxInSys)) (fileList : FileList) : FileList :=
  match ofptr with
  | none => fileList
  | some i => Function.update fileList i ⟨0, 0, 0, 0, false⟩

/-! ### What is free -/

/-- `fd` is the smallest descriptor behind those of the standard files that is not open. -/
structure LeastFree (p : Pcb) (fd : Fin fileMaxInProcess) : Prop where
  ge : stderrFileno + 1 ≤ (fd : ℕ)
  free : isOpen fd p = false
  least : ∀ fd' < fd, stderrFileno + 1 ≤ (fd' : ℕ) → isOpen fd' p = true

/-- `j` is the first closed entry of the table. -/
structure FirstClosed (fileList : FileList) (j : Fin fileMaxInSys) : Prop where
  closed : (fileList j).isopen = false
  first : ∀ j' < j, (fileList j').isopen = true

/-! ### Lemmas -/

section Lemmas

variable {fileList : FileList} {i : Fin fileMaxInSys} {fd : Fin fileMaxInProcess} {p : Pcb}

lemma closedEntry_spec (h : closedEntry fileList = some i) : (fileList i).isopen = false := by
  simpa using List.find?_some h

lemma getMinfd_spec (h : getMinfd p = some fd) : isOpen fd p = false := by
  have := List.find?_some h
  simp only [decide_eq_true_eq] at this
  simpa using this.2

lemma getMinfd_eq_some : getMinfd p = some fd ↔ LeastFree p fd := by
  rw [getMinfd, find?_finRange_eq_some]
  simp only [decide_eq_true_eq, decide_eq_false_iff_not, not_and, Bool.not_eq_true', Bool.not_eq_false]
  exact ⟨fun h => ⟨h.1.1, h.1.2, h.2⟩, fun h => ⟨⟨h.ge, h.free⟩, h.least⟩⟩

lemma getMinfd_eq_none : getMinfd p = none ↔ ∀ fd : Fin fileMaxInProcess,
    stderrFileno + 1 ≤ (fd : ℕ) → isOpen fd p = true := by
  rw [getMinfd, find?_finRange_eq_none]
  simp only [decide_eq_false_iff_not, not_and, Bool.not_eq_true', Bool.not_eq_false]

/-- The entry that is used is the last closed one. -/
lemma closedEntry_eq : closedEntry fileList = Fin.findRev? fun i => !(fileList i).isopen :=
  find?_finRange_reverse

lemma firstClosed_iff :
    FirstClosed fileList i ↔ (Fin.find? fun i => !(fileList i).isopen) = some i := by
  rw [Fin.find?_eq_some_iff]
  simp only [Bool.not_eq_true', Bool.not_eq_false']
  exact ⟨fun h => ⟨h.closed, h.first⟩, fun h => ⟨h.1, h.2⟩⟩

lemma delFile_of_ne {ofptr : Option (Fin fileMaxInSys)} (h : ofptr ≠ some i) :
    delFile ofptr fileList i = fileList i := by
  cases ofptr with
  | none => rfl
  | some j => exact Function.update_of_ne (fun e => h (congrArg some e.symm)) ..

end Lemmas

end Nbos.Fs
