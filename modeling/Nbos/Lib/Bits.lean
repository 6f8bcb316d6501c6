import Mathlib.Data.Nat.Bitwise
import Mathlib.Tactic.Common

/-!
# Fields of a word

A field of `n` bits at bit `k`, cut out of a number with a mask, as division and remainder; sums of words
that do not wrap.
-/

namespace Nbos.Lib

/-- Masking a field and shifting it down. -/
lemma and_mask_shiftRight (x k n : ℕ) : (x &&& ((2 ^ n - 1) <<< k)) >>> k = x / 2 ^ k % 2 ^ n := by
  rw [Nat.shiftRight_and_distrib, Nat.shiftLeft_shiftRight, Nat.and_two_pow_sub_one_eq_mod,
    Nat.shiftRight_eq_div_pow]

/-- Clearing the low `k` bits of a number of at most `k + n` bits. -/
lemma and_mask_of_lt {x k n : ℕ} (hx : x < 2 ^ (k + n)) :
    x &&& ((2 ^ n - 1) <<< k) = x / 2 ^ k * 2 ^ k := by
  have hq : x / 2 ^ k < 2 ^ n := by
    rw [Nat.div_lt_iff_lt_mul (Nat.two_pow_pos k), ← pow_add, Nat.add_comm]
    exact hx
  have h : x &&& ((2 ^ n - 1) <<< k) = ((x &&& ((2 ^ n - 1) <<< k)) >>> k) <<< k := by
    refine Nat.eq_of_testBit_eq fun i => ?_
    simp only [Nat.testBit_and, Nat.testBit_shiftLeft, Nat.testBit_shiftRight]
    by_cases hi : k ≤ i
    · simp [hi, Nat.add_sub_cancel' hi]
    · simp [hi]
  rw [h, and_mask_shiftRight, Nat.mod_eq_of_lt hq, Nat.shiftLeft_eq]

lemma toNat_add_of_lt {a b : UInt32} (h : a.toNat + b.toNat < 2 ^ 32) :
    (a + b).toNat = a.toNat + b.toNat := by
  rw [UInt32.toNat_add]
  exact Nat.mod_eq_of_lt h

end Nbos.Lib
