import Nbos.Lib.Bytes

/-!
# Stores of files

What a file system is for: files of bytes, and handles that stand at an offset of a file. A write goes
to the file of its handle alone, a read gets what is there, and both move the handle. `Store.SameOn`
is equality as far as the files of interest have bytes; the operations keep it (`Store.SameOn.apply`).
-/

namespace Nbos.Lib

/-- Files with their sizes, and handles with their files and offsets. The size counts what has been
written, and wraps around. -/
@[ext]
structure Store (F H : Type*) where
  bytes : F → Bytes
  size : F → UInt32
  file : H → F
  offset : H → ℤ

/-- An operation: on one handle, or a reset of some. -/
inductive Op (F H : Type*)
  | skip
  | point (h : H) (f : F)
  | reset (hs : H → Bool) (f : F)
  | read (h : H) (n : ℕ)
  | write (h : H) (n : ℕ) (buf : Bytes)

namespace Store

variable {F H : Type*}

/-- The handle is not behind the end of its file. -/
def Readable (s : Store F H) (h : H) : Prop := s.offset h ≤ (s.size (s.file h)).toNat

instance (s : Store F H) (h : H) : Decidable (s.Readable h) :=
  inferInstanceAs (Decidable (_ ≤ _))

/-- The bytes that a read gets, and how many it says there are; -1 behind the end of the file. -/
def got (s : Store F H) (h : H) (n : ℕ) : ℤ × List UInt8 :=
  if s.Readable h then (n, (List.range n).map fun p => s.bytes (s.file h) ((s.offset h).toNat + p))
  else (-1, [])

/-- The handle moved by `n` bytes. -/
def advance [DecidableEq H] (s : Store F H) (h : H) (n : ℕ) : Store F H :=
  { s with offset := Function.update s.offset h (s.offset h + n) }

/-- The `n` bytes of `buf` in the file, from `offset` on. -/
def put [DecidableEq F] (s : Store F H) (f : F) (offset n : ℕ) (buf : Bytes) : Store F H :=
  { s with
    bytes := Function.update s.bytes f (overlay (s.bytes f) offset n buf)
    size := Function.update s.size f (s.size f + .ofNat n) }

/-- The store after an operation. -/
def apply [DecidableEq F] [DecidableEq H] (s : Store F H) : Op F H → Store F H
  | .skip => s
  | .point h f => { s with file := Function.update s.file h f }
  | .reset hs f =>
    { s with
      file := fun h => if hs h then f else s.file h
      offset := fun h => if hs h then 0 else s.offset h }
  | .read h n => s.advance h (if s.Readable h then n else 0)
  | .write h n buf => (s.put (s.file h) (s.offset h).toNat n buf).advance h n

/-- The stores agree on the handles, on the sizes of the files in `T` and on their bytes in `D`. -/
structure SameOn (T : Set F) (D : F → Set ℕ) (s s' : Store F H) : Prop where
  bytes : ∀ f ∈ T, ∀ x ∈ D f, s.bytes f x = s'.bytes f x
  size : ∀ f ∈ T, s.size f = s'.size f
  file : s.file = s'.file
  offset : s.offset = s'.offset

end Store

/-- The operation reads the blocks of files of `T` only. -/
def Op.Within {F H : Type*} (T : Set F) (s : Store F H) : Op F H → Prop
  | .read h _ => s.file h ∈ T
  | _ => True

namespace Store

section SameOn

variable {F H : Type*} {T : Set F} {D : F → Set ℕ} {s s' s'' : Store F H} {h : H} {f : F} {n : ℕ}
  {o : Op F H}

lemma SameOn.refl : SameOn T D s s := ⟨fun _ _ _ _ => rfl, fun _ _ => rfl, rfl, rfl⟩

lemma SameOn.trans (h : SameOn T D s s') (h' : SameOn T D s' s'') : SameOn T D s s'' :=
  ⟨fun f hf x hx => (h.bytes f hf x hx).trans (h'.bytes f hf x hx),
    fun f hf => (h.size f hf).trans (h'.size f hf), h.file.trans h'.file, h.offset.trans h'.offset⟩

lemma SameOn.mono {D' : F → Set ℕ} (h : SameOn T D s s') (hD : ∀ f ∈ T, D' f ⊆ D f) :
    SameOn T D' s s' := ⟨fun f hf x hx => h.bytes f hf x (hD f hf hx), h.size, h.file, h.offset⟩

/-- A handle on a file of `T` is behind the end in both stores, or in none. -/
lemma SameOn.readable (hs : SameOn T D s s') (hh : s.file h ∈ T) : s.Readable h ↔ s'.Readable h := by
  rw [Readable, Readable, ← hs.offset, ← hs.file, hs.size _ hh]

/-- What is read of the bytes in `D` is the same. -/
lemma SameOn.got (hs : SameOn T D s s') (hh : s.file h ∈ T)
    (hD : ∀ p < n, (s.offset h).toNat + p ∈ D (s.file h)) : s.got h n = s'.got h n := by
  rw [Store.got, Store.got]
  refine if_congr (hs.readable hh) (congrArg _ (List.map_congr_left fun p hp => ?_)) rfl
  rw [← hs.offset, ← hs.file]
  exact hs.bytes _ hh _ (hD p (List.mem_range.mp hp))

lemma SameOn.advance [DecidableEq H] (hs : SameOn T D s s') : SameOn T D (s.advance h n) (s'.advance h n) :=
  ⟨hs.bytes, hs.size, hs.file, by simp only [Store.advance, hs.offset]⟩

lemma SameOn.put [DecidableEq F] {offset : ℕ} {buf : Bytes} (hs : SameOn T D s s') :
    SameOn T D (s.put f offset n buf) (s'.put f offset n buf) := by
  refine ⟨fun g hg x hx => ?_, fun g hg => ?_, hs.file, hs.offset⟩
  · by_cases hgf : g = f
    · subst hgf
      simp only [Store.put, Function.update_self, overlay]
      rw [hs.bytes g hg x hx]
    · simp only [Store.put, Function.update_of_ne hgf]
      exact hs.bytes g hg x hx
  · by_cases hgf : g = f
    · subst hgf
      simp only [Store.put, Function.update_self]
      rw [hs.size g hg]
    · simp only [Store.put, Function.update_of_ne hgf]
      exact hs.size g hg

/-- **The operations keep agreement.** -/
theorem SameOn.apply [DecidableEq F] [DecidableEq H] (hs : SameOn T D s s') (ho : o.Within T s) :
    SameOn T D (s.apply o) (s'.apply o) := by
  cases o with
  | skip => exact hs
  | point h f => exact ⟨hs.bytes, hs.size, by simp only [Store.apply, hs.file], hs.offset⟩
  | reset handles f =>
    exact ⟨hs.bytes, hs.size, by simp only [Store.apply, hs.file], by simp only [Store.apply, hs.offset]⟩
  | read h n =>
    simp only [Store.apply]
    rw [if_congr (hs.readable ho) rfl rfl]
    exact hs.advance
  | write h n buf =>
    simp only [Store.apply]
    rw [← hs.file, ← hs.offset]
    exact hs.put.advance

/-- A write leaves the other files alone. -/
lemma put_bytes_of_ne [DecidableEq F] {g : F} {offset : ℕ} {buf : Bytes} (hg : g ≠ f) :
    (s.put f offset n buf).bytes g = s.bytes g := Function.update_of_ne hg ..

lemma put_size_of_ne [DecidableEq F] {g : F} {offset : ℕ} {buf : Bytes} (hg : g ≠ f) :
    (s.put f offset n buf).size g = s.size g := Function.update_of_ne hg ..

end SameOn

end Store

end Nbos.Lib
