import Nbos.Fs.Init

/-!
# Looking up a path

`resolve` is what looking up a path means: one component after the other, from the root on, up to
the first that is not found. `seekFileInode` goes on after a component that is not found, with the
directory in which it was looked for, and its value is always 0 (`reportsMissing_iff`).
-/

namespace Nbos.Fs

open Nbos.Lib Nbos.Kernel

/-! ### One component after the other -/

/-- What `seekNextInode` reports, `none` for -1. -/
def seekNextReport (junk : List UInt8) (i : Inode) (path : List UInt8) (d : Bytes) :
    Option (Option Inode) :=
  let name := strcut path
  let terminated := separator ∉ path
  if fileNameMax < (if terminated then name.length + 1 else name.length) then none
  else
    let blocks := i.size.toNat / blockSize + (if 0 < i.size.toNat % blockSize then 1 else 0)
    (searchDir d i (if terminated then name else name ++ junk) blocks 0).map fun o =>
      o.map fun place => readInode d (get32 place.1 (place.2 + 20)) (get32 place.1 (place.2 + 24))

/-- The rests of a path at which its components begin. -/
def components (path0 : List UInt8) : List (List UInt8) :=
  if _h : path0 = [] then []
  else
    path0 :: match findfirstsprt path0 with
      | none => []
      | some a => components (path0.drop (a + 1))
termination_by path0.length
decreasing_by
  have := List.length_pos_iff.mpr _h
  simp only [List.length_drop]
  omega

/-- Looks the components up in order. There is no result where `seekNextInode` has none. -/
def lookup (junk : List UInt8 → List UInt8) (d : Bytes) :
    Inode → List (List UInt8) → Option (Option Inode)
  | i, [] => some (some i)
  | i, c :: cs =>
    (seekNextReport (junk c) i c d).bind fun
      | none => some none
      | some i => lookup junk d i cs

/-- A path that starts at the root and fits the buffer of `seekFileInode`. -/
structure Absolute (path : List UInt8) : Prop where
  head : path.head? = some separator
  length : path.length ≤ 99
  nonzero : 0 ∉ path

/-- The inode of an absolute path, `none` if a component is not found. -/
def resolve (junk : List UInt8 → List UInt8) (path : List UInt8) (d : Bytes) :
    Option (Option Inode) :=
  lookup junk d (getRootDirInode d) (components path.tail)

/-- `seekFileInode` with its value. It returns -1 if `iptr` is `NULL`, and `iptr` is the address that
the caller has passed. -/
def seekFileInodeValue (junk : List UInt8 → List UInt8) (path : List UInt8) (d : Bytes) :
    Option (ℤ × Inode) :=
  (seekFileInode junk path d).map fun i => (0, i)

/-- **A path is looked up and its absence reported.** -/
structure ReportsMissing (junk : List UInt8 → List UInt8) (path : List UInt8) (d : Bytes) :
    Prop where
  found : ∀ i, resolve junk path d = some (some i) → seekFileInodeValue junk path d = some (0, i)
  missing : resolve junk path d = some none → ∃ i, seekFileInodeValue junk path d = some (-1, i)

section Lookup

variable {junk : List UInt8 → List UInt8} {d : Bytes} {path path0 : List UInt8} {i j : Inode}

/-- The inode that `seekNextInode` leaves is the one it was given if nothing is found. -/
lemma seekNextInode_eq {junk : List UInt8} :
    seekNextInode junk i path d = (seekNextReport junk i path d).map fun o => o.getD i := by
  simp only [seekNextInode, seekNextReport]
  generalize searchDir d i (if separator ∉ path then strcut path else strcut path ++ junk)
    (i.size.toNat / blockSize + if 0 < i.size.toNat % blockSize then 1 else 0) 0 = o
  by_cases hlong : fileNameMax <
      (if separator ∉ path then (strcut path).length + 1 else (strcut path).length)
  · rw [if_pos hlong, if_pos hlong]
    rfl
  · rw [if_neg hlong, if_neg hlong]
    cases o with
    | none => rfl
    | some o => cases o <;> rfl

/-- While every component is found, the loop of `seekFileInode` follows the lookup. -/
lemma seekLoop_of_lookup (h : lookup junk d i (components path0) = some (some j)) :
    seekLoop junk d path0 i = some j := by
  induction hn : path0.length using Nat.strong_induction_on generalizing path0 i with
  | _ n ih =>
    by_cases h0 : path0 = []
    · subst h0
      rw [components, dif_pos rfl] at h
      rw [seekLoop, dif_pos rfl]
      exact Option.some_inj.mp h
    · rw [components, dif_neg h0, lookup] at h
      obtain ⟨o, ho, h⟩ := Option.bind_eq_some_iff.mp h
      rw [seekLoop, dif_neg h0, seekNextInode_eq, ho]
      cases o with
      | none => cases h
      | some i' =>
        have hpos := List.length_pos_iff.mpr h0
        simp only [Option.map_some, Option.getD_some]
        cases ha : findfirstsprt path0 with
        | none =>
          rw [ha] at h
          exact Option.some_inj.mp h
        | some a =>
          rw [ha] at h
          exact ih _ (by rw [List.length_drop]; omega) h rfl

/-- **`seekFileInode` follows the lookup** of a path all of whose components are found. -/
theorem seekFileInode_of_resolve (hp : Absolute path) (h : resolve junk path d = some (some i)) :
    seekFileInode junk path d = some i := by
  obtain ⟨rest, rfl⟩ : ∃ rest, path = separator :: rest := by
    cases path with
    | nil => cases hp.head
    | cons a rest => exact ⟨rest, by rw [Option.some_inj.mp hp.head]⟩
  have hlen := hp.length
  rw [seekFileInode, if_neg (by omega), findfirstsprt_cons]
  by_cases hrest : rest = []
  · subst hrest
    rw [resolve, List.tail_cons, components, dif_pos rfl] at h
    rw [if_pos (strcmpa_eq_zero.mpr fun _ _ => rfl)]
    exact Option.some_inj.mp h
  · have hne : strcmpa (cstr (separator :: rest)) (cstr [separator]) (separator :: rest).length ≠ 0 := by
      intro he
      obtain ⟨a, rest, rfl⟩ := List.exists_cons_of_ne_nil hrest
      have h1 : a = 0 := strcmpa_eq_zero.mp he 1 (by simp)
      exact hp.nonzero (by simp [h1])
    rw [if_neg hne]
    exact seekLoop_of_lookup h

lemma seekFileInodeValue_ne : seekFileInodeValue junk path d ≠ some (-1, i) := by
  intro h
  obtain ⟨j, -, he⟩ := Option.map_eq_some_iff.mp h
  exact absurd (Prod.mk.inj he).1 (by decide)

/-- **When a missing file is reported**: never. The value is right as long as no component that is
looked up is missing. -/
theorem reportsMissing_iff (hp : Absolute path) :
    ReportsMissing junk path d ↔ resolve junk path d ≠ some none := by
  constructor
  · intro h hnone
    obtain ⟨i, hi⟩ := h.missing hnone
    exact seekFileInodeValue_ne hi
  · intro hne
    refine ⟨fun i hi => ?_, fun hnone => absurd hnone hne⟩
    rw [seekFileInodeValue, seekFileInode_of_resolve hp hi]
    rfl

end Lookup

/-- The empty disk after `init_file`. -/
def installedDisk : Bytes := (initFile (fun _ _ _ => 0) fun _ => 0).getD fun _ => 0

lemma initFile_installedDisk : initFile (fun _ _ _ => 0) (fun _ => 0) = some installedDisk := by
  obtain ⟨d, hd, -⟩ := initFile_spec (fun _ _ _ => 0) fun _ => 0
  rw [installedDisk, hd, Option.getD_some]

lemma installed_installedDisk : Installed installedDisk := by
  obtain ⟨d, hd, hinst⟩ := initFile_spec (fun _ _ _ => 0) fun _ => 0
  rwa [Option.some_inj.mp (hd.symm.trans initFile_installedDisk)] at hinst

/-- The path `/shell`. -/
abbrev shellPath : List UInt8 := separator :: shellName

theorem reportsMissing_shell : ReportsMissing (fun _ => []) shellPath installedDisk :=
  (reportsMissing_iff ⟨rfl, by decide, by decide⟩).mpr (by decide +kernel)

/-- There is no file `/x` on that disk. -/
theorem missing_file_not_reported :
    ¬ ∀ junk path d, Absolute path → ReportsMissing junk path d := by
  intro hall
  have hnone : resolve (fun _ => []) [separator, 120] installedDisk = some none := by decide +kernel
  obtain ⟨i, hi⟩ := (hall (fun _ => []) [separator, 120] installedDisk
    ⟨rfl, by decide, by decide⟩).missing hnone
  exact seekFileInodeValue_ne hi

end Nbos.Fs
