import Mathlib.Order.Bounds.Basic
import Mathlib.Tactic.Common

/-!
# Turns

Turns that go to the first who waits, in a linear order. `S` are those who take turns, and whoever has
the turn waits again once it has passed on. The turn then goes back and forth between the first two:
`Turns.reaches_iff` says who ever gets it, `Turns.alternate` that it comes back at the second step.
-/

namespace Nbos.Lib

section Turns

variable {ι : Type*} {S W : Set ι} {c q s x y : ι} {turn : ℕ → ι}

/-- Who waits while `c` has the turn: all of `S`, but for `c` perhaps. -/
structure Waiting (S : Set ι) (c : ι) (W : Set ι) : Prop where
  sub : W ⊆ S
  others : ∀ x ∈ S, x ≠ c → x ∈ W

lemma waiting_ne : Waiting S c {x ∈ S | x ≠ c} := ⟨fun _ h => h.1, fun _ h hne => ⟨h, hne⟩⟩

variable [LinearOrder ι]

/-- The turn goes to the first who waits. The one that starts may wait for it as well. -/
structure Turns (S : Set ι) (turn : ℕ → ι) : Prop where
  first : ∃ W, Waiting S (turn 0) W ∧ IsLeast W (turn 1)
  next : ∀ n, IsLeast {x ∈ S | x ≠ turn (n + 1)} (turn (n + 2))

/-- Of two before `s` one waits, so `s` is not the first. -/
lemma Waiting.lt_of_two (hW : Waiting S c W) (hq : IsLeast W q) (hx : x ∈ S) (hy : y ∈ S) (hxy : x ≠ y)
    (hxs : x < s) (hys : y < s) : q < s := by
  by_cases hxc : x = c
  · exact (hq.2 (hW.others y hy fun hyc => hxy (hxc.trans hyc.symm))).trans_lt hys
  · exact (hq.2 (hW.others x hx hxc)).trans_lt hxs

lemma Turns.waiting (h : Turns S turn) (n : ℕ) : ∃ W, Waiting S (turn n) W ∧ IsLeast W (turn (n + 1)) := by
  cases n with
  | zero => exact h.first
  | succ n => exact ⟨_, waiting_ne, h.next n⟩

lemma Turns.mem (h : Turns S turn) (n : ℕ) : turn (n + 1) ∈ S := by
  obtain ⟨W, hW, hq⟩ := h.waiting n
  exact hW.sub hq.1

/-- Who waits and does not get the turn lets one before it go first. -/
lemma Turns.le (h : Turns S turn) {n : ℕ} (hs : s ∈ S) (hne : s ≠ turn n) : turn (n + 1) ≤ s := by
  obtain ⟨W, hW, hq⟩ := h.waiting n
  exact hq.2 (hW.others s hs hne)

/-- **Who gets the turn**: exactly those with at most one before them. -/
theorem Turns.reaches_iff (h : Turns S turn) (hs : s ∈ S) (h0 : s ≠ turn 0) :
    (∃ n, turn n = s) ↔ ∀ x ∈ S, ∀ y ∈ S, x < s → y < s → x = y := by
  constructor
  · rintro ⟨n, hn⟩ x hx y hy hxs hys
    by_contra hxy
    cases n with
    | zero => exact h0 hn.symm
    | succ n =>
      obtain ⟨W, hW, hq⟩ := h.waiting n
      exact absurd hn (hW.lt_of_two hq hx hy hxy hxs hys).ne
  · intro hone
    rcases (h.le hs h0).lt_or_eq with h1 | h1
    · -- the only one before `s` has had its turn
      have hne : s ≠ turn 1 := h1.ne'
      refine ⟨2, (h.le hs hne).lt_or_eq.resolve_left fun h2 => ?_⟩
      exact (h.next 0).1.2 (hone _ (h.mem 1) _ (h.mem 0) h2 h1)
    · exact ⟨1, h1⟩

/-- **The turn comes back at the second step.** -/
theorem Turns.alternate (h : Turns S turn) (n : ℕ) : turn (n + 3) = turn (n + 1) := by
  have hne : turn (n + 2) ≠ turn (n + 1) := (h.next n).1.2
  refine ((h.next (n + 1)).2 ⟨h.mem n, hne.symm⟩).antisymm ?_
  by_contra hlt
  rw [not_le] at hlt
  obtain ⟨hmem, hx⟩ : turn (n + 3) ∈ S ∧ turn (n + 3) ≠ turn (n + 2) := (h.next (n + 1)).1
  -- both come before the one that had the turn, so it has passed both of them over
  obtain ⟨W, hW, hq⟩ := h.waiting n
  have h2 : turn (n + 2) < turn (n + 1) := ((h.next n).2 ⟨hmem, hlt.ne⟩).trans_lt hlt
  exact absurd (hW.lt_of_two hq hmem (h.mem (n + 1)) hx hlt h2) (lt_irrefl _)

end Turns

end Nbos.Lib
