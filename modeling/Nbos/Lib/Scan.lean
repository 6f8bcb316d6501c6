import Nbos.Lib.Bytes
import Mathlib.Data.List.Basic

/-!
# Scanning a buffer

A window is a byte store of which a part can be read; a loop that reads outside of it has no result.
`scan` is the loop that goes through a buffer while a condition holds, at most `n` bytes far, and
`scan_eq_some` says where it stops. That a function reads no more than the first `n` bytes of a buffer is
that it has a result for the window of these (`within`).
-/

namespace Nbos.Lib

/-- The byte at every address that can be read. -/
abbrev Window := ℕ → Option UInt8

/-- The first `n` bytes of a buffer. -/
def within (m : Bytes) (n : ℕ) : Window := fun x => if x < n then some (m x) else none

/-- All of a store. -/
def whole (m : Bytes) : Window := fun x => some (m x)

/-- `for (; n > 0 && p(i, w[i]); n--) i++;` -/
def scan (w : Window) (p : ℕ → UInt8 → Bool) : ℕ → ℕ → Option ℕ
  | 0, i => some i
  | n + 1, i => (w i).bind fun b => if p i b then scan w p n (i + 1) else some i

section Scan

variable {m : Bytes} {w : Window} {p : ℕ → UInt8 → Bool} {n i o x : ℕ} {b : UInt8}

lemma within_of_lt (h : x < n) : within m n x = some (m x) := if_pos h

lemma within_of_ge (h : n ≤ x) : within m n x = none := if_neg (Nat.not_lt.mpr h)

lemma within_eq_some : within m n x = some b ↔ x < n ∧ m x = b := by
  rw [within]
  split
  · rename_i hx
    rw [Option.some_inj, and_iff_right hx]
  · rename_i hx
    simp [hx]

/-- **Where a scan stops**: at the first byte for which the condition fails, or after `n` bytes. -/
theorem scan_eq_some : scan w p n i = some o ↔ i ≤ o ∧ o ≤ i + n ∧
    (∀ j, i ≤ j → j < o → ∃ b, w j = some b ∧ p j b) ∧
    (o < i + n → ∃ b, w o = some b ∧ ¬ p o b) := by
  induction n generalizing i with
  | zero =>
    rw [scan, Option.some_inj]
    constructor
    · rintro rfl
      exact ⟨le_rfl, le_rfl, fun j hj hj' => by omega, fun h => by omega⟩
    · rintro ⟨h1, h2, -⟩
      omega
  | succ n ih =>
    rw [scan, Option.bind_eq_some_iff]
    constructor
    · rintro ⟨b, hb, h⟩
      split at h
      · rename_i hp
        obtain ⟨h1, h2, hall, hstop⟩ := ih.mp h
        refine ⟨by omega, by omega, fun j hj hj' => ?_, fun ho => hstop (by omega)⟩
        rcases Nat.eq_or_lt_of_le hj with rfl | hlt
        · exact ⟨b, hb, hp⟩
        · exact hall j hlt hj'
      · rename_i hp
        obtain rfl := Option.some_inj.mp h
        exact ⟨le_rfl, by omega, fun j hj hj' => by omega, fun _ => ⟨b, hb, hp⟩⟩
    · rintro ⟨h1, h2, hall, hstop⟩
      rcases Nat.eq_or_lt_of_le h1 with rfl | hlt
      · obtain ⟨b, hb, hp⟩ := hstop (by omega)
        exact ⟨b, hb, if_neg hp⟩
      · obtain ⟨b, hb, hp⟩ := hall i le_rfl hlt
        refine ⟨b, hb, ?_⟩
        rw [if_pos hp]
        exact ih.mpr ⟨hlt, by omega, fun j hj => hall j (by omega), fun ho => hstop (by omega)⟩

/-- A scan of bytes that can be read is a search. -/
lemma scan_eq_find (hw : ∀ x < n, w x = some (m x)) :
    scan w p n 0 = some (((List.range n).find? fun i => !p i (m i)).getD n) := by
  rw [scan_eq_some]
  cases h : (List.range n).find? fun i => !p i (m i) with
  | none =>
    rw [List.find?_range_eq_none] at h
    refine ⟨Nat.zero_le _, by simp, fun j _ hj => ⟨m j, hw j hj, ?_⟩, fun hlt => ?_⟩
    · simpa using h j hj
    · exact absurd hlt (by simp)
  | some k =>
    obtain ⟨hk, hlt, hall⟩ := List.find?_range_eq_some.mp h
    rw [List.mem_range] at hlt
    rw [Option.getD_some, Nat.zero_add]
    refine ⟨Nat.zero_le _, hlt.le, fun j _ hj => ⟨m j, hw j (by omega), ?_⟩, fun _ => ⟨m k, hw k hlt, ?_⟩⟩
    · simpa using hall j hj
    · simpa using hk

lemma scan_whole : ∃ o, scan (whole m) p n i = some o := by
  induction n generalizing i with
  | zero => exact ⟨i, rfl⟩
  | succ n ih =>
    show ∃ o, (if p i (m i) then scan (whole m) p n (i + 1) else some i) = some o
    split
    · exact ih
    · exact ⟨i, rfl⟩

end Scan

end Nbos.Lib
