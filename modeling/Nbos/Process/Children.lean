import Nbos.Process.Lifetime
import Mathlib.Data.Fintype.Card

/-!
# `sys_wait` and the children of its caller

`haveChildren` is one less than the number of slots that carry the pid of the caller as
`father_pid`, and takes a free slot or the own one for a child. It is the number of children when
there is just one such slot besides them, and then `sys_wait` can tell whether there are any:
`waitExact_iff`.
-/

namespace Nbos.Process

open Nbos.Lib Nbos.Kernel

/-! ### The slots of a father -/

/-- The children of the current process. -/
def System.children (k : System) : Finset (Fin pcbMax) :=
  Finset.univ.filter fun i =>
    (i ≠ k.current ∧ (k.pcblist i).pstate ≠ .free) ∧ (k.pcblist i).fatherPid = k.proc.pid

/-- What `haveChildren` counts as well: free slots, and the slot of the process itself. -/
def System.strays (k : System) : Finset (Fin pcbMax) :=
  Finset.univ.filter fun i =>
    (i = k.current ∨ (k.pcblist i).pstate = .free) ∧ (k.pcblist i).fatherPid = k.proc.pid

/-- `i` is the first terminated process that the current one is the father of. -/
structure FirstDead (k : System) (i : Fin pcbMax) : Prop where
  father : (k.pcblist i).fatherPid = k.proc.pid
  zombie : (k.pcblist i).pstate = .zombie
  first : ∀ j < i, ¬ ((k.pcblist j).fatherPid = k.proc.pid ∧ (k.pcblist j).pstate = .zombie)

section Children

variable {k k' : System} {i : Fin pcbMax} {pid : ℕ} {r : ℤ}

lemma haveChildren_eq_card : haveChildren pid k =
    ((Finset.univ.filter fun i => (k.pcblist i).fatherPid = pid).card : ℤ) - 1 := by
  rw [Finset.card_def, Finset.filter_val, ← Multiset.countP_eq_card_filter]
  rfl

/-- The sentinel that the count starts from makes up for one stray. -/
lemma haveChildren_proc :
    haveChildren k.proc.pid k = (k.children.card : ℤ) + k.strays.card - 1 := by
  have hsplit := Finset.card_filter_add_card_filter_not
    (s := Finset.univ.filter fun i => (k.pcblist i).fatherPid = k.proc.pid)
    (fun i => i ≠ k.current ∧ (k.pcblist i).pstate ≠ .free)
  rw [Finset.filter_filter, Finset.filter_filter] at hsplit
  rw [haveChildren_eq_card, ← hsplit, System.children, System.strays]
  simp only [and_comm, not_and_or, not_not, ne_eq]
  push_cast
  ring

lemma zombieChild_eq_some : zombieChild k.proc.pid k = some i ↔ FirstDead k i := by
  rw [zombieChild, find?_finRange_eq_some]
  simp only [decide_eq_true_eq, decide_eq_false_iff_not]
  constructor
  · rintro ⟨⟨hf, hz⟩, hfirst⟩
    exact ⟨hf, hz, hfirst⟩
  · rintro ⟨hf, hz, hfirst⟩
    exact ⟨⟨hf, hz⟩, hfirst⟩

lemma zombieChild_eq_none : zombieChild k.proc.pid k = none ↔
    ∀ i, (k.pcblist i).fatherPid = k.proc.pid → (k.pcblist i).pstate ≠ .zombie := by
  rw [zombieChild, find?_finRange_eq_none]
  simp only [decide_eq_false_iff_not, not_and, ne_eq]

lemma haveChildren_eq_zero :
    haveChildren pid k = 0 ↔ ∃! i, (k.pcblist i).fatherPid = pid := by
  rw [haveChildren_eq_card, sub_eq_zero, Nat.cast_eq_one, Finset.card_eq_one]
  simp only [Finset.eq_singleton_iff_unique_mem, Finset.mem_filter, Finset.mem_univ, true_and]
  rfl

end Children

/-! ### What `sys_wait` returns -/

/-- `sys_wait` returns `r`, the pid of the process in slot `i`, and gives the slot back. -/
structure Reaped (r : ℤ) (i : Fin pcbMax) (k k' : System) : Prop where
  pid : r = (k.pcblist i).pid
  zombie : (k.pcblist i).pstate = .zombie
  freed : (k'.pcblist i).pstate = .free
  others : ∀ q ≠ i, k'.pcblist q = k.pcblist q

/-- `haveChildren` counts the children, `sys_wait` returns `-1` exactly when there are none, and a pid
that it returns is the one of a terminated child, of which it gives the slot back. -/
structure WaitExact (k : System) : Prop where
  counted : haveChildren k.proc.pid k = if k.children = ∅ then -1 else (k.children.card : ℤ)
  childless : (∃ k', sysWait k = some (-1, k')) ↔ k.children = ∅
  reaped : ∀ r k', sysWait k = some (r, k') → r ≠ -1 → ∃ i ∈ k.children, Reaped r i k k'

section Wait

variable {k k' : System} {i : Fin pcbMax} {r : ℤ}

lemma sysWait_reaps (hc : haveChildren k.proc.pid k ≠ 0) (hi : FirstDead k i) :
    ∃ k', sysWait k = some (((k.pcblist i).pid : ℤ), k') ∧ Reaped (k.pcblist i).pid i k k' := by
  simp only [sysWait, if_neg hc, zombieChild_eq_some.mpr hi, Option.map_some]
  refine ⟨_, rfl, rfl, hi.zombie, ?_, fun q hq => System.setPcb_of_ne hq⟩
  rw [System.setPcb_self]

/-- It returns at once, or with the first of the dead. -/
lemma sysWait_cases (h : sysWait k = some (r, k')) :
    (haveChildren k.proc.pid k = 0 ∧ r = -1) ∨
      haveChildren k.proc.pid k ≠ 0 ∧ ∃ i, FirstDead k i ∧ Reaped r i k k' := by
  by_cases hc : haveChildren k.proc.pid k = 0
  · rw [sysWait, if_pos hc] at h
    obtain ⟨rfl, -⟩ := Prod.mk.inj (Option.some_inj.mp h)
    exact .inl ⟨hc, rfl⟩
  · have hz := h
    simp only [sysWait, if_neg hc] at hz
    obtain ⟨i, hi, -⟩ := Option.map_eq_some_iff.mp hz
    have hdead := zombieChild_eq_some.mp hi
    obtain ⟨k₁, hk₁, hreap⟩ := sysWait_reaps hc hdead
    obtain ⟨rfl, rfl⟩ := Prod.mk.inj (Option.some_inj.mp (h.symm.trans hk₁))
    exact .inr ⟨hc, i, hdead, hreap⟩

lemma sysWait_fails : (∃ k', sysWait k = some (-1, k')) ↔ haveChildren k.proc.pid k = 0 := by
  constructor
  · rintro ⟨k', h⟩
    rcases sysWait_cases h with ⟨hc, -⟩ | ⟨-, i, -, hreap⟩
    · exact hc
    · have := hreap.pid
      omega
  · intro hc
    exact ⟨k, by rw [sysWait, if_pos hc]⟩

/-- **When `sys_wait` tells its children from none**: it has a child, one slot besides the children
carries its pid as `father_pid`, and its own slot is not the first of the dead. -/
theorem waitExact_iff :
    WaitExact k ↔ k.children.Nonempty ∧ k.strays.card = 1 ∧ ¬ FirstDead k k.current := by
  constructor
  · intro h
    have hchild : k.children ≠ ∅ := by
      intro hempty
      have hzero := sysWait_fails.mp (h.childless.mpr hempty)
      have hcount := h.counted
      rw [if_pos hempty, hzero] at hcount
      omega
    refine ⟨Finset.nonempty_iff_ne_empty.mpr hchild, ?_, fun hself => ?_⟩
    · have hcount := h.counted
      rw [if_neg hchild, haveChildren_proc] at hcount
      omega
    · -- the caller is given back, and not a child
      have hc : haveChildren k.proc.pid k ≠ 0 := fun hc =>
        hchild (h.childless.mp (sysWait_fails.mpr hc))
      obtain ⟨k', hk', hreap⟩ := sysWait_reaps hc hself
      obtain ⟨i, hi, hreap'⟩ := h.reaped _ _ hk' (by omega)
      have hne : i ≠ k.current := (Finset.mem_filter.mp hi).2.1.1
      have hfreed := hreap'.freed
      rw [hreap.others i hne, hreap'.zombie] at hfreed
      cases hfreed
  · rintro ⟨hchild, hstray, hself⟩
    have hne := Finset.nonempty_iff_ne_empty.mp hchild
    have hpos := Finset.card_pos.mpr hchild
    have hcount : haveChildren k.proc.pid k = k.children.card := by
      rw [haveChildren_proc, hstray]
      omega
    refine ⟨?_, ?_, fun r k' h hr => ?_⟩
    · rw [if_neg hne, hcount]
    · rw [sysWait_fails, hcount]
      exact iff_of_false (by omega) hne
    · rcases sysWait_cases h with ⟨-, hr'⟩ | ⟨-, i, hdead, hreap⟩
      · exact absurd hr' hr
      · refine ⟨i, Finset.mem_filter.mpr ⟨Finset.mem_univ i, ⟨?_, ?_⟩, hdead.father⟩, hreap⟩
        · rintro rfl
          exact hself hdead
        · rw [hdead.zombie]
          decide

end Wait

/-- The second child of process 0 gets a child in the slot of the first one, and that exits. -/
def grandchild : List Call :=
  [.timer userFrame, .timer userFrame, .exit, .timer userFrame, .timer userFrame, .fork userFrame,
    .timer userFrame, .timer userFrame, .wait, .exit, .timer userFrame, .fork userFrame, .fork userFrame]

/-- A father of a single, terminated child is told that it has none. -/
theorem wait_denies_child : ¬ ∀ h k, Run Step NotRoot emptyBoot h k → WaitExact k := by
  intro hall
  obtain ⟨k, hk, hchild, hcount⟩ := exists_of_any
    (P := fun k => k.children.card = 1 ∧ haveChildren k.proc.pid k = 0)
    (o := performNotRoot grandchild emptyBoot) (by decide +kernel)
  have hfails := (hall _ _ (run_performNotRoot hk)).childless.mp (sysWait_fails.mpr hcount)
  rw [hfails] at hchild
  cases hchild

end Nbos.Process
