import Nbos.Lib.Bytes
import Mathlib.Data.Fin.Tuple.Basic

/-!
# Counted loops

`forRange n body s` is `for (i = 0; i < n; i++) body` on a state. A fact about a loop is an
invariant indexed by the counter (`forRange_inv`); the byte loops that copy and fill are overlays.
A loop that looks through an array for the first or the last index of a kind is a `find?`.
-/

namespace Nbos.Lib

/-- The loop `for (i = 0; i < n; i++) s = body(i, s)`. -/
def forRange {σ : Type*} (n : ℕ) (body : ℕ → σ → σ) (s : σ) : σ :=
  (List.range n).foldl (fun s i => body i s) s

section ForRange

variable {σ : Type*} {body : ℕ → σ → σ} {s : σ} {n : ℕ}

@[simp] lemma forRange_zero : forRange 0 body s = s := rfl

lemma forRange_succ : forRange (n + 1) body s = body n (forRange n body s) := by
  simp [forRange, List.range_succ]

/-- **The invariant rule.** What holds before the loop and is carried from the counter `i` to
`i + 1` by the body holds after it. -/
theorem forRange_inv (P : ℕ → σ → Prop) (h0 : P 0 s)
    (hstep : ∀ i < n, ∀ t, P i t → P (i + 1) (body i t)) : P n (forRange n body s) := by
  induction n with
  | zero => exact h0
  | succ n ih =>
    rw [forRange_succ]
    exact hstep n (by omega) _ (ih fun i hi => hstep i (by omega))

/-- The same loop over the indices of an array. -/
def forFin {σ : Type*} (n : ℕ) (body : Fin n → σ → σ) (s : σ) : σ :=
  forRange n (fun i s => if h : i < n then body ⟨i, h⟩ s else s) s

theorem forFin_inv {body : Fin n → σ → σ} (P : ℕ → σ → Prop) (h0 : P 0 s)
    (hstep : ∀ (i : Fin n) t, P i t → P (i + 1) (body i t)) : P n (forFin n body s) := by
  refine forRange_inv P h0 fun i hi t ht => ?_
  rw [dif_pos hi]
  exact hstep ⟨i, hi⟩ t ht

end ForRange

/-! ### The loops that copy and fill -/

/-- Copying `n` bytes one at a time, forwards: no byte is written before it is read. -/
lemma forRange_copy (m : Bytes) (src dst n : ℕ) (h : src + n ≤ dst ∨ dst ≤ src) :
    forRange n (fun i m => Function.update m (dst + i) (m (src + i))) m =
      overlay m dst n fun k => m (src + k) := by
  refine forRange_inv (fun i t => t = overlay m dst i fun k => m (src + k)) overlay_zero.symm ?_
  rintro i hi t rfl
  rw [overlay_of_not_mem (x := src + i) (by omega), ← overlay_succ]

/-- Storing one byte `n` times. -/
lemma forRange_fill (m : Bytes) (dst n : ℕ) (b : UInt8) :
    forRange n (fun i m => Function.update m (dst + i) b) m = overlay m dst n fun _ => b := by
  refine forRange_inv (fun i t => t = overlay m dst i fun _ => b) overlay_zero.symm ?_
  rintro i _ t rfl
  rw [← overlay_succ]

/-! ### Searches -/

section Search

variable {n : ℕ} {p : Fin n → Bool} {i : Fin n}

lemma find?_finRange_eq_some :
    (List.finRange n).find? p = some i ↔ p i = true ∧ ∀ j < i, p j = false := by
  rw [← Fin.find?_eq_find?_finRange, Fin.find?_eq_some_iff]

lemma find?_finRange_eq_none : (List.finRange n).find? p = none ↔ ∀ i, p i = false := by
  rw [← Fin.find?_eq_find?_finRange, Fin.find?_eq_none_iff]

/-- A loop that does not stop keeps the last index. -/
lemma find?_finRange_reverse : (List.finRange n).reverse.find? p = Fin.findRev? p := by
  rw [List.finRange_reverse, List.find?_map, ← Fin.find?_eq_find?_finRange]
  exact Fin.map_rev_find?

end Search

end Nbos.Lib
