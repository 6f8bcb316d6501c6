import Nbos.Fs.Dir
import Nbos.Lib.Scan

/-!
# Splitting a path

`seekBaseDirectory` looks for the last separator from the end of the path on, `writeDirectory` counts
the separators and goes behind one after the other. Both come to the same place (`path_split`).

The first part is the loops of `str.c` that they call, byte by byte; they have the values of the functions
on lists.
-/

namespace Nbos.Fs

open Nbos.Lib Nbos.Kernel

/-! ### The loops -/

/-- The loop of `findlastsprt`: `stringend` is at the byte `n`. -/
def lastSprtLoop (string : Bytes) : ℕ → ℕ
  | 0 => 0
  | n + 1 => if string (n + 1) ≠ separator then lastSprtLoop string n else n + 1

/-- `findlastsprt`, of a string of `size` bytes. -/
def findlastsprtIn (string : Bytes) (size : ℕ) : Option ℕ :=
  let stringend := lastSprtLoop string size
  if stringend = 0 ∧ string 0 ≠ separator then none else some stringend

/-- `findfirstsprt`, of a string of `size` bytes. -/
def findfirstsprtIn (string : Window) (size : ℕ) : Option (Option ℕ) := do
  let i ← scan string (fun _ b => b != separator && b != 0) size 0
  let b ← string i
  some (if b = 0 then none else some i)

/-- The loop of `strcount`; `n` is a bound for its steps. -/
def strcountLoop (string : Bytes) (a : UInt8) : ℕ → ℕ → ℕ → ℕ
  | 0, _, count => count
  | n + 1, start, count =>
    if string start = 0 then count
    else strcountLoop string a n (start + 1) (if string start = a then count + 1 else count)

section Loops

variable {string : Bytes} {s pre name : List UInt8} {a : UInt8} {k n start count : ℕ}

/-- The loop stops at the last separator, or at the first byte. -/
lemma lastSprtLoop_eq (hk : k ≤ n) (hsep : k = 0 ∨ string k = separator)
    (hall : ∀ j, k < j → j ≤ n → string j ≠ separator) : lastSprtLoop string n = k := by
  induction n with
  | zero => exact (Nat.le_zero.mp hk).symm
  | succ n ih =>
    rw [lastSprtLoop]
    rcases Nat.eq_or_lt_of_le hk with rfl | hlt
    · have hhere : string (n + 1) = separator := hsep.resolve_left (Nat.succ_ne_zero n)
      exact if_neg (not_not.mpr hhere)
    · rw [if_pos (hall _ hlt le_rfl)]
      exact ih (by omega) fun j hj hj' => hall j hj (by omega)

lemma cstr_ne_separator (h : separator ∉ s) : cstr s k ≠ separator := by
  rcases Nat.lt_or_ge k s.length with hk | hk
  · rw [cstr_of_lt hk]
    exact fun e => h (e ▸ List.getElem_mem hk)
  · rw [cstr_of_ge hk]
    decide

lemma cstr_ne_zero (h0 : 0 ∉ s) (hk : k < s.length) : cstr s k ≠ 0 := by
  rw [cstr_of_lt hk]
  exact fun e => h0 (e ▸ List.getElem_mem hk)

lemma cstr_append_of_lt (h : k < pre.length) : cstr (pre ++ s) k = cstr pre k :=
  List.getD_append _ _ _ _ h

lemma cstr_append_of_ge (h : pre.length ≤ k) : cstr (pre ++ s) k = cstr s (k - pre.length) :=
  List.getD_append_right _ _ _ _ h

lemma cstr_append_length : cstr (pre ++ a :: s) pre.length = a := by
  rw [cstr_append_of_ge le_rfl, Nat.sub_self]
  rfl

/-- A path with a separator is cut at the last one. -/
lemma exists_last_separator (h : separator ∈ s) :
    ∃ pre name, s = pre ++ separator :: name ∧ separator ∉ name := by
  obtain ⟨as, bs, hs, has⟩ := List.eq_append_cons_of_mem (List.mem_reverse.mpr h)
  refine ⟨bs.reverse, as.reverse, ?_, fun hmem => has (List.mem_reverse.mp hmem)⟩
  rw [← List.reverse_reverse s, hs]
  simp

theorem findlastsprtIn_cstr : findlastsprtIn (cstr s) s.length = findlastsprt s := by
  by_cases h : separator ∈ s
  · obtain ⟨pre, name, rfl, hname⟩ := exists_last_separator h
    have hloop : lastSprtLoop (cstr (pre ++ separator :: name)) (pre ++ separator :: name).length =
        pre.length := by
      refine lastSprtLoop_eq (by simp) (.inr cstr_append_length) fun j hj _ => ?_
      obtain ⟨k, hk⟩ := Nat.exists_eq_add_of_lt hj
      rw [cstr_append_of_ge hj.le, show j - pre.length = k + 1 by omega]
      show cstr name k ≠ separator
      exact cstr_ne_separator hname
    rw [findlastsprt_append hname, findlastsprtIn, hloop, if_neg]
    rintro ⟨hzero, hne⟩
    rw [← hzero] at hne
    exact hne cstr_append_length
  · have hloop : lastSprtLoop (cstr s) s.length = 0 :=
      lastSprtLoop_eq (Nat.zero_le _) (.inl rfl) fun _ _ _ => cstr_ne_separator h
    rw [findlastsprt_of_not_mem h, findlastsprtIn, hloop]
    exact if_pos ⟨rfl, cstr_ne_separator h⟩

lemma findfirstsprtIn_eq (hk : k ≤ s.length) (h0 : 0 ∉ s) (hall : ∀ j < k, cstr s j ≠ separator)
    (hstop : k < s.length → cstr s k = separator) :
    findfirstsprtIn (within (cstr s) (s.length + 1)) s.length =
      some (if cstr s k = 0 then none else some k) := by
  have hscan : scan (within (cstr s) (s.length + 1)) (fun _ b => b != separator && b != 0) s.length 0 =
      some k := by
    refine scan_eq_some.mpr ⟨Nat.zero_le _, by omega, fun j _ hj => ?_, fun hlt => ?_⟩
    · have hzero : cstr s j ≠ 0 := cstr_ne_zero h0 (by omega)
      exact ⟨cstr s j, within_of_lt (by omega), by simp [hall j hj, hzero]⟩
    · exact ⟨cstr s k, within_of_lt (by omega), by simp [hstop (by omega)]⟩
  rw [findfirstsprtIn, hscan, Option.bind_eq_bind, Option.bind_some, within_of_lt (by omega)]
  rfl

/-- A string that is terminated is read up to its terminator. -/
theorem findfirstsprtIn_cstr (h0 : 0 ∉ s) :
    findfirstsprtIn (within (cstr s) (s.length + 1)) s.length = some (findfirstsprt s) := by
  by_cases h : separator ∈ s
  · obtain ⟨pre, rest, rfl, hpre⟩ := List.eq_append_cons_of_mem h
    rw [findfirstsprtIn_eq (k := pre.length) (by simp) h0 (fun j hj => ?_) fun _ => cstr_append_length,
      cstr_append_length, findfirstsprt_append hpre]
    · rfl
    · rw [cstr_append_of_lt hj]
      exact cstr_ne_separator hpre
  · rw [findfirstsprtIn_eq le_rfl h0 (fun _ _ => cstr_ne_separator h) fun hlt => absurd hlt (lt_irrefl _),
      if_pos (cstr_of_ge le_rfl), findfirstsprt_of_not_mem h]

lemma strcountLoop_eq (hstring : ∀ j, string (start + j) = cstr s j) (h0 : 0 ∉ s) :
    strcountLoop string a (s.length + 1) start count = count + s.count a := by
  induction s generalizing start count with
  | nil => exact if_pos (hstring 0)
  | cons c s ih =>
    rw [List.mem_cons, not_or] at h0
    have hc : string start = c := hstring 0
    have hnext : ∀ j, string (start + 1 + j) = cstr s j := by
      intro j
      rw [Nat.add_assoc, Nat.add_comm 1 j]
      exact hstring (j + 1)
    rw [List.length_cons, strcountLoop, hc, if_neg (Ne.symm h0.1), ih hnext h0.2, List.count_cons]
    by_cases hca : c = a
    · rw [if_pos hca, if_pos (beq_iff_eq.mpr hca)]
      omega
    · rw [if_neg hca, if_neg fun e => hca (beq_iff_eq.mp e)]
      omega

theorem strcountLoop_cstr (h0 : 0 ∉ s) :
    strcountLoop (cstr s) a (s.length + 1) 0 0 = strcount s a := by
  rw [@strcountLoop_eq _ _ _ 0 0 (fun j => by rw [Nat.zero_add]) h0, Nat.zero_add, strcount]

end Loops

/-! ### The directory and the name -/

/-- The path of the directory: `path0` in `seekBaseDirectory`. -/
def basePath (path : List UInt8) : List UInt8 :=
  match findlastsprt path with
  | some k => path.take k
  | none => path

section Split

variable {d : Bytes} {path : List UInt8} {junk : List UInt8 → List UInt8}

/-- **What `seekBaseDirectory` looks up.** -/
theorem seekBaseDirectory_eq (hlen : ¬ 100 ≤ path.length) :
    seekBaseDirectory junk path d =
      if basePath path = [] then some (getRootDirInode d) else seekFileInode junk (basePath path) d := by
  rw [seekBaseDirectory, if_neg hlen]
  rfl

/-- **A path is split in one place**: the directory that is looked up, a separator and the name that is
written are the path, and the name has no separator. -/
theorem path_split (h : separator ∈ path) :
    separator ∉ itemName path ∧ basePath path ++ separator :: itemName path = path := by
  obtain ⟨pre, name, rfl, hname⟩ := exists_last_separator h
  have hbase : basePath (pre ++ separator :: name) = pre := by
    rw [basePath, findlastsprt_append hname]
    exact List.take_left
  rw [itemName_append hname, hbase]
  exact ⟨hname, rfl⟩

/-- The path `/a//b/`, with separators at its ends and two in a row. -/
theorem path_split_repeated :
    separator ∉ itemName [47, 97, 47, 47, 98, 47] ∧
    basePath [47, 97, 47, 47, 98, 47] ++ separator :: itemName [47, 97, 47, 47, 98, 47] =
      [47, 97, 47, 47, 98, 47] :=
  path_split (by decide)

end Split

end Nbos.Fs
