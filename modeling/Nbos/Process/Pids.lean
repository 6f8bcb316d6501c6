import Nbos.Process.Lifetime

/-!
# Pids

`getPid` goes through the pids from `nextpid` on and starts over at 1 behind `PID_MAX`. It takes
`PID_MAX` as well as any other, but does not return it: the test at the end of the loop is `pid < PID_MAX`
where the one at its start is `pid > PID_MAX`. So it fails when it comes to `PID_MAX`, though with
fewer slots than pids there is always one to be had (`getPid_finds_iff`).
-/

namespace Nbos.Process

open Nbos.Lib Nbos.Kernel

/-! ### When it fails -/

/-- No pid from `n` on is left but `PID_MAX`, which `getPid` does not give. -/
structure Spent (pcblist : Fin pcbMax → Pcb) (n : ℕ) : Prop where
  le : n ≤ pidMax
  used : ∀ q, n ≤ q → q < pidMax → ∃ i, (pcblist i).pid = q
  last : ∀ i, (pcblist i).pid ≠ pidMax

section Spent

variable {pcblist : Fin pcbMax → Pcb} {fuel n q : ℕ} {r : ℤ × ℕ}

lemma getPidLoop_of_unused (hn : n < pidMax) (h : ¬ ∃ i, (pcblist i).pid = n) :
    getPidLoop pcblist (fuel + 1) n = some ((n : ℤ), n + 1) := by
  simp only [getPidLoop, if_neg (not_lt.mpr hn.le), if_neg h, if_pos hn]

lemma not_spent_of_unused (hn : n < pidMax) (h : ¬ ∃ i, (pcblist i).pid = n) : ¬ Spent pcblist n :=
  fun hs => h (hs.used n le_rfl hn)

lemma spent_pidMax (h : ¬ ∃ i, (pcblist i).pid = pidMax) : Spent pcblist pidMax := by
  refine ⟨le_rfl, fun q hq hq' => absurd hq (not_le.mpr hq'), fun i hi => h ⟨i, hi⟩⟩

/-- A pid in use is passed over. -/
lemma spent_succ (h : ∃ i, (pcblist i).pid = n) : Spent pcblist n ↔ Spent pcblist (n + 1) := by
  constructor
  · intro hs
    refine ⟨?_, fun q hq => hs.used q (by omega), hs.last⟩
    rcases Nat.lt_or_eq_of_le hs.le with hlt | rfl
    · exact hlt
    · obtain ⟨i, hi⟩ := h
      exact absurd hi (hs.last i)
  · intro hs
    refine ⟨by have := hs.le; omega, fun q hq hq' => ?_, hs.last⟩
    rcases Nat.lt_or_eq_of_le hq with hlt | rfl
    · exact hs.used q hlt hq'
    · exact h

/-- On the way to an unused pid `getPid` does not fail. -/
lemma getPidLoop_ne (hq : ∀ i, (pcblist i).pid ≠ q) (hq21 : q ≤ 21) (hn : n ≤ q)
    (h : getPidLoop pcblist fuel n = some r) : r.1 ≠ -1 := by
  induction fuel generalizing n with
  | zero => cases h
  | succ fuel ih =>
    have hmax : ¬ pidMax < n := by simp only [pidMax]; omega
    simp only [getPidLoop, if_neg hmax] at h
    split at h
    · rename_i hused
      have hne : n ≠ q := fun e => by
        obtain ⟨i, hi⟩ := hused
        exact hq i (hi.trans e)
      exact ih (by omega) h
    · obtain rfl := Option.some_inj.mp h
      have hlt : n < pidMax := by simp only [pidMax]; omega
      simp only [if_pos hlt]
      omega

/-- **When `getPid` fails.** -/
theorem getPidLoop_eq_neg_one (h : getPidLoop pcblist fuel n = some r) :
    r.1 = -1 ↔ Spent pcblist n := by
  obtain ⟨q, hq1, hq21, hq⟩ := exists_free_pid pcblist
  induction fuel generalizing n with
  | zero => cases h
  | succ fuel ih =>
    by_cases hle : pidMax < n
    · -- it starts over at 1 and finds `q` at the latest
      refine iff_of_false ?_ fun hs => absurd hs.le (not_le.mpr hle)
      simp only [getPidLoop, if_pos hle] at h
      split at h
      · exact getPidLoop_ne hq hq21 hq1 h
      · obtain rfl := Option.some_inj.mp h
        decide
    · simp only [getPidLoop, if_neg hle] at h
      split at h
      · rename_i hused
        rw [ih h, spent_succ hused]
      · rename_i hunused
        obtain rfl := Option.some_inj.mp h
        rcases Nat.lt_or_eq_of_le (not_lt.mp hle) with hlt | rfl
        · simp only [if_pos hlt]
          exact iff_of_false (by omega) (not_spent_of_unused hlt hunused)
        · exact iff_of_true rfl (spent_pidMax hunused)

/-- Wherever `nextpid` is, `getPid` ends. -/
lemma exists_getPid (k : System) : ∃ pid k', getPid k = some (pid, k') := by
  have hsome : (getPidLoop k.pcblist 84 k.nextpid).isSome := by
    by_cases hn : k.nextpid ≤ 61
    · exact getPidLoop_isSome hn (by omega)
    · obtain ⟨q, hq1, hq21, hq⟩ := exists_free_pid k.pcblist
      rw [getPidLoop]
      simp only [if_pos (show pidMax < k.nextpid by simp only [pidMax]; omega)]
      split
      · exact getPidLoop_of_le hq hq21 hq1 (by omega)
      · rfl
  obtain ⟨r, hr⟩ := Option.isSome_iff_exists.mp hsome
  exact ⟨r.1, { k with nextpid := r.2 }, by rw [getPid, hr]; rfl⟩

end Spent

/-! ### What it finds -/

/-- A call of `getPid`, in the state `k` but for `nextpid`. -/
def PidCall (k : System) (n n' : ℕ) : Prop :=
  ∃ pid k', getPid { k with nextpid := n } = some (pid, k') ∧ k'.nextpid = n'

/-- `getPid` ends, with a pid between 1 and `PID_MAX` that no slot holds. -/
def FindsPid (k : System) : Prop :=
  ∃ pid k', getPid k = some (pid, k') ∧ 1 ≤ pid ∧ pid ≤ pidMax ∧
    ∀ q, ((k.pcblist q).pid : ℤ) ≠ pid

section Finds

variable {k k' : System} {h : List System} {n n' : ℕ} {pid : ℤ}

lemma getPid_fails (h : getPid k = some (pid, k')) : pid = -1 ↔ Spent k.pcblist k.nextpid := by
  obtain ⟨r, hr, he⟩ := Option.map_eq_some_iff.mp h
  obtain ⟨rfl, -⟩ := Prod.mk.inj he
  exact getPidLoop_eq_neg_one hr

lemma PidCall.range (hn : 1 ≤ n ∧ n ≤ pidMax + 1) (h : PidCall k n n') :
    1 ≤ n' ∧ n' ≤ pidMax + 1 := by
  obtain ⟨pid, k', hget, rfl⟩ := h
  exact (getPid_range hn hget).1

/-- **When `getPid` finds a pid**: after any calls, on any tables, exactly if it does not run up to
`PID_MAX`. -/
theorem getPid_finds_iff (hrun : Run PidCall (fun _ _ => True) 1 h k.nextpid) :
    FindsPid k ↔ ¬ Spent k.pcblist k.nextpid := by
  have hn : 1 ≤ k.nextpid ∧ k.nextpid ≤ pidMax + 1 :=
    hrun.inv (fun n => 1 ≤ n ∧ n ≤ pidMax + 1) ⟨le_rfl, by decide⟩ fun _ _ _ hn _ hs => hs.range hn
  obtain ⟨pid, k', hget⟩ := exists_getPid k
  rw [← getPid_fails hget]
  constructor
  · rintro ⟨pid', k'', hget', hpos, -⟩ rfl
    obtain ⟨rfl, -⟩ := Prod.mk.inj (Option.some_inj.mp (hget.symm.trans hget'))
    omega
  · intro hne
    obtain ⟨r, hr, he⟩ := Option.map_eq_some_iff.mp hget
    obtain ⟨rfl, -⟩ := Prod.mk.inj he
    obtain ⟨hnonneg, hfresh⟩ := getPidLoop_found hr hne
    obtain ⟨hpos, hlt⟩ := (getPid_range hn hget).2 hne
    exact ⟨r.1, k', hget, by omega, by omega, fun q hq => hfresh q (by omega)⟩

end Finds

lemma pidCall_emptyBoot {n : ℕ} (hn : 1 ≤ n) (hlt : n < pidMax) : PidCall emptyBoot n (n + 1) := by
  have hfree : ∀ i, (emptyBoot.pcblist i).pid = 0 := by decide
  have hunused : ¬ ∃ i, (emptyBoot.pcblist i).pid = n := by
    rintro ⟨i, hi⟩
    rw [hfree] at hi
    omega
  refine ⟨n, { emptyBoot with nextpid := n + 1 }, ?_, rfl⟩
  rw [getPid, getPidLoop_of_unused hlt hunused, Option.map_some]

/-- The fourth pid is found. -/
theorem getPid_finds_iff_boot : FindsPid { emptyBoot with nextpid := 4 } := by
  have hrun : Run PidCall (fun _ _ => True) 1 [emptyBoot, emptyBoot, emptyBoot] 4 :=
    .cons (.cons (.cons .nil trivial (pidCall_emptyBoot (by decide) (by decide)))
      trivial (pidCall_emptyBoot (by decide) (by decide))) trivial (pidCall_emptyBoot (by decide) (by decide))
  refine (getPid_finds_iff (k := { emptyBoot with nextpid := 4 }) hrun).mpr fun hs => ?_
  obtain ⟨i, hi⟩ := hs.used 4 le_rfl (by decide)
  revert i
  decide

/-- With process 0 alone in the table, `getPid` finds the pids from 1 to 59 and then fails. -/
theorem getPid_fails_at_pidMax :
    ¬ ∀ h k, Run PidCall (fun _ _ => True) 1 h k.nextpid → FindsPid k := by
  intro hall
  have hrun : ∀ n, n < pidMax → ∃ h, Run PidCall (fun _ _ => True) 1 h (n + 1) := by
    intro n
    induction n with
    | zero => exact fun _ => ⟨[], .nil⟩
    | succ n ih =>
      intro hn
      obtain ⟨h, hrun⟩ := ih (by omega)
      exact ⟨_, .cons hrun trivial (pidCall_emptyBoot (Nat.succ_pos n) hn)⟩
  obtain ⟨h, hrun⟩ := hrun 59 (by decide)
  obtain ⟨pid, k', hget, hpos, -⟩ := hall h { emptyBoot with nextpid := 60 } hrun
  have hnone : (getPid { emptyBoot with nextpid := 60 }).map Prod.fst = some (-1) := by decide +kernel
  rw [hget] at hnone
  obtain rfl := Option.some_inj.mp hnone
  omega

end Nbos.Process
