import Nbos.Kernel.Defs
import Nbos.Lib.Bytes
import Mathlib.Data.List.GetD

/-!
# Strings

The functions of `str.c` that the file system calls. A C string is the list of its bytes, without
the terminator; a result of -1 is `none`. `cstr` is the buffer a string sits in.
-/

namespace Nbos.Fs

open Nbos.Lib

/-! ### The source -/

abbrev separator : UInt8 := 47

/-- The buffer of a string: its bytes and then zeros. -/
def cstr (s : List UInt8) : Bytes := fun k => s.getD k 0

/-- `findfirstsprt`. -/
def findfirstsprt (s : List UInt8) : Option ℕ := s.findIdx? (· == separator)

/-- `findlastsprt`. -/
def findlastsprt (s : List UInt8) : Option ℕ :=
  (s.reverse.findIdx? (· == separator)).map fun k => s.length - 1 - k

/-- `strcut`: everything up to the first separator and that separator, without a terminator, or the
whole string. -/
def strcut (s : List UInt8) : List UInt8 :=
  match findfirstsprt s with
  | some i => s.take (i + 1)
  | none => s

/-- `strcmpa`: signed bytes, up to the first difference. -/
def strcmpa (a b : Bytes) (size : ℕ) : ℤ :=
  match (List.range size).find? fun k => a k != b k with
  | none => 0
  | some k => if (b k).toInt8 < (a k).toInt8 then 1 else -1

/-- `dest` ends in a part of the string: what follows is compared with the bytes behind `dest`. -/
def endsInPart (source : List UInt8) (dest : Bytes) (size : ℕ) : Bool :=
  (List.range size).any fun o =>
    size < o + source.length && (List.range (size - o)).all fun k => dest (o + k) == cstr source k

/-- `strmatch`: the first place in `dest` where the string stands, or -1. When `dest` ends in a part
of the string there is no result: the function looks at the bytes behind `dest`, and it falls off its
end after the last byte. -/
def strmatch (source : List UInt8) (dest : Bytes) (size : ℕ) : Option (Option ℕ) :=
  match (List.range size).find? fun o =>
    dest o == cstr source 0 && strcmpa (cstr source) (fun k => dest (o + k)) source.length == 0 with
  | some o => some (some o)
  | none => if endsInPart source dest size then none else some none

/-- `strcount`. -/
def strcount (s : List UInt8) (a : UInt8) : ℕ := s.count a

/-! ### Matching -/

/-- The string stands in the buffer at `o`. -/
def StandsAt (s : List UInt8) (m : Bytes) (o : ℕ) : Prop := ∀ k (h : k < s.length), m (o + k) = s[k]

section Match

variable {s : List UInt8} {m m' : Bytes} {o n : ℕ}

lemma cstr_of_lt {k : ℕ} (h : k < s.length) : cstr s k = s[k] := by
  rw [cstr, List.getD_eq_getElem s 0 h]

lemma cstr_of_ge {k : ℕ} (h : s.length ≤ k) : cstr s k = 0 := by
  rw [cstr, List.getD_eq_default s 0 h]

lemma strcmpa_eq_zero {a b : Bytes} : strcmpa a b n = 0 ↔ ∀ k < n, a k = b k := by
  have hfind : ((List.range n).find? fun k => a k != b k) = none ↔ ∀ k < n, a k = b k := by
    rw [List.find?_range_eq_none]
    exact forall₂_congr fun k _ => by simp
  rw [← hfind, strcmpa]
  cases (List.range n).find? fun k => a k != b k with
  | none => simp
  | some k =>
    simp only
    split <;> simp

lemma strcmpa_cstr : strcmpa (cstr s) (fun k => m (o + k)) s.length = 0 ↔ StandsAt s m o := by
  rw [strcmpa_eq_zero]
  refine forall₂_congr fun k hk => ?_
  rw [cstr_of_lt hk, eq_comm]

/-- The test `strmatch` makes at a place. -/
lemma strmatch_test (hs : s ≠ []) : (m o == cstr s 0 &&
    strcmpa (cstr s) (fun k => m (o + k)) s.length == 0) = true ↔ StandsAt s m o := by
  rw [Bool.and_eq_true, beq_iff_eq, beq_iff_eq, strcmpa_cstr]
  refine ⟨And.right, fun h => ⟨?_, h⟩⟩
  have hpos := List.length_pos_iff.mpr hs
  rw [cstr_of_lt hpos]
  exact h 0 hpos

/-- `strmatch` finds the first place where the string stands. -/
theorem strmatch_eq_some (hs : s ≠ []) :
    strmatch s m n = some (some o) ↔ o < n ∧ StandsAt s m o ∧ ∀ j < o, ¬ StandsAt s m j := by
  have hfind : (List.range n).find? (fun o => m o == cstr s 0 &&
      strcmpa (cstr s) (fun k => m (o + k)) s.length == 0) = some o ↔
        o < n ∧ StandsAt s m o ∧ ∀ j < o, ¬ StandsAt s m j := by
    rw [List.find?_range_eq_some, strmatch_test hs, List.mem_range]
    simp only [Bool.not_eq_true', ← Bool.not_eq_true, strmatch_test hs]
    tauto
  rw [← hfind, strmatch]
  cases (List.range n).find? fun o => m o == cstr s 0 &&
      strcmpa (cstr s) (fun k => m (o + k)) s.length == 0 with
  | some k => simp
  | none =>
    simp only
    split <;> simp

/-- Nothing is found where the string stands nowhere and the buffer does not end in a part of it. -/
lemma strmatch_eq_none_iff (hs : s ≠ []) : strmatch s m n = some none ↔
    (∀ o < n, ¬ StandsAt s m o) ∧ endsInPart s m n = false := by
  have hfind : (List.range n).find? (fun o => m o == cstr s 0 &&
      strcmpa (cstr s) (fun k => m (o + k)) s.length == 0) = none ↔ ∀ o < n, ¬ StandsAt s m o := by
    rw [List.find?_range_eq_none]
    refine forall₂_congr fun o _ => ?_
    rw [Bool.not_eq_true', ← Bool.not_eq_true, strmatch_test hs]
  rw [← hfind, strmatch]
  cases (List.range n).find? fun o => m o == cstr s 0 &&
      strcmpa (cstr s) (fun k => m (o + k)) s.length == 0 with
  | some k => simp
  | none =>
    simp only [true_and]
    cases endsInPart s m n <;> simp

lemma StandsAt.congr (h : StandsAt s m o) (hm : ∀ k < s.length, m' (o + k) = m (o + k)) :
    StandsAt s m' o := fun k hk => (hm k hk).trans (h k hk)

end Match

/-! ### Paths -/

section Paths

variable {s name : List UInt8}

lemma findfirstsprt_of_not_mem (h : separator ∉ s) : findfirstsprt s = none := by
  rw [findfirstsprt, List.findIdx?_eq_none_iff]
  intro x hx
  have : x ≠ separator := fun e => h (e ▸ hx)
  simpa using this

lemma findfirstsprt_cons : findfirstsprt (separator :: s) = some 0 := by
  rw [findfirstsprt, List.findIdx?_cons, if_pos (beq_self_eq_true _)]

lemma strcut_of_not_mem (h : separator ∉ s) : strcut s = s := by
  rw [strcut, findfirstsprt_of_not_mem h]

lemma findlastsprt_of_not_mem (h : separator ∉ s) : findlastsprt s = none := by
  have hrev : s.reverse.findIdx? (· == separator) = none := by
    rw [List.findIdx?_eq_none_iff]
    intro x hx
    have : x ≠ separator := fun e => h (e ▸ List.mem_reverse.mp hx)
    simpa using this
  rw [findlastsprt, hrev]
  rfl

lemma findlastsprt_append (h : separator ∉ name) :
    findlastsprt (s ++ separator :: name) = some s.length := by
  have hrev : name.reverse.findIdx? (· == separator) = none := by
    simpa [findlastsprt] using findlastsprt_of_not_mem h
  rw [findlastsprt, List.reverse_append, List.reverse_cons, List.append_assoc, List.findIdx?_append,
    hrev, List.singleton_append, List.findIdx?_cons, if_pos (beq_self_eq_true _)]
  simp

lemma findlastsprt_cons (h : separator ∉ s) : findlastsprt (separator :: s) = some 0 :=
  @findlastsprt_append [] s h

lemma findfirstsprt_append (h : separator ∉ s) :
    findfirstsprt (s ++ separator :: name) = some s.length := by
  have hnone := findfirstsprt_of_not_mem h
  rw [findfirstsprt] at hnone ⊢
  rw [List.findIdx?_append, hnone, List.findIdx?_cons, if_pos (beq_self_eq_true _)]
  simp

end Paths

end Nbos.Fs
