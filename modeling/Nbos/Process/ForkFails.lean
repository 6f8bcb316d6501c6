import Nbos.Process.Pids

/-!
# When `sys_fork` fails

`allocProcess` looks for a pid before it looks for a slot, and for the slot it does not check. With a
pid and without a slot it writes through `NULL`; and where `nextpid` comes to `PID_MAX` it fails, with a
slot or without. There is always a pid to be had, so that it does what it should when just one of the
two is the case: `allocExact_iff`.
-/

namespace Nbos.Process

open Nbos.Lib Nbos.Kernel Nbos.Memory

/-! ### `allocProcess` -/

/-- A slot can be had. -/
def HasSlot (k : System) : Prop := ∃ p, (k.pcblist p).pstate = .free

/-- A pid can be had. -/
def HasPid (k : System) : Prop := ∃ pid, 1 ≤ pid ∧ pid < pidMax ∧ ∀ q, (k.pcblist q).pid ≠ pid

/-- The slot `p` has been taken for a child of the current process, and no other is changed. -/
structure Allocated (p : Fin pcbMax) (k k' : System) : Prop where
  free : (k.pcblist p).pstate = .free
  runnable : (k'.pcblist p).pstate = .runnable
  fresh : ∀ q, (k.pcblist q).pid ≠ (k'.pcblist p).pid
  father : (k'.pcblist p).fatherPid = k.proc.pid
  others : ∀ q ≠ p, k'.pcblist q = k.pcblist q

/-- `allocProcess` returns `NULL` exactly when a slot or a pid is missing. Then `sys_fork` returns
`-1` and memory and the table are as they were; else a slot has been taken. -/
structure AllocExact (ptr : IntrContext) (k : System) : Prop where
  null : (∃ k', allocProcess k = some (none, k')) ↔ ¬ HasSlot k ∨ ¬ HasPid k
  refused : ∀ k', allocProcess k = some (none, k') →
    sysFork ptr k = some (-1, k') ∧ k'.pcblist = k.pcblist ∧ k'.mem = k.mem ∧ k'.current = k.current
  given : HasSlot k → HasPid k → ∃ p k', allocProcess k = some (some p, k') ∧ Allocated p k k'

section Alloc

variable {ptr : IntrContext} {k k' : System} {pid : ℤ} {p : Fin pcbMax}

/-- There are fewer slots than pids. -/
lemma hasPid (k : System) : HasPid k := by
  obtain ⟨q, hq1, hq21, hq⟩ := exists_free_pid k.pcblist
  refine ⟨q, hq1, ?_, hq⟩
  simp only [pidMax]
  omega

/-- `allocProcess` returns `NULL` when `getPid` fails, and only then. -/
lemma allocProcess_null :
    (∃ k', allocProcess k = some (none, k')) ↔ Spent k.pcblist k.nextpid := by
  obtain ⟨pid, k₁, hget⟩ := exists_getPid k
  rw [← getPid_fails hget]
  constructor
  · rintro ⟨k', h⟩
    rcases allocProcess_spec h with ⟨-, hget'⟩ | ⟨p, n, pid', ho, -⟩
    · exact (Prod.mk.inj (Option.some_inj.mp (hget.symm.trans hget'))).1
    · cases ho
  · rintro rfl
    refine ⟨k₁, ?_⟩
    simp only [allocProcess, Option.bind_eq_bind, hget, Option.bind_some, if_true]

/-- A failure changes `nextpid` alone, and `sys_fork` hands it on. -/
lemma allocProcess_refused (h : allocProcess k = some (none, k')) :
    sysFork ptr k = some (-1, k') ∧ k'.pcblist = k.pcblist ∧ k'.mem = k.mem ∧
      k'.current = k.current := by
  have hfork : sysFork ptr k = some (-1, k') := by
    simp only [sysFork, Option.bind_eq_bind, h, Option.bind_some]
  rcases allocProcess_spec h with ⟨-, hget⟩ | ⟨p, n, pid, ho, -⟩
  · rw [getPid_eq hget]
    exact ⟨getPid_eq hget ▸ hfork, rfl, rfl, rfl⟩
  · cases ho

lemma allocProcess_allocated (h : allocProcess k = some (some p, k')) : Allocated p k k' := by
  rcases allocProcess_spec h with ⟨ho, -⟩ | ⟨q, n, pid, ho, hfree, hnonneg, hfresh, hget, rfl⟩
  · cases ho
  · obtain rfl := Option.some_inj.mp ho
    refine ⟨hfree, ?_, ?_, ?_, fun q hq => System.setPcb_of_ne hq⟩
    · rw [System.setPcb_self]
    · rw [System.setPcb_self]
      exact hfresh
    · rw [System.setPcb_self]

lemma exists_allocProcess (hslot : HasSlot k) (hpid : ¬ Spent k.pcblist k.nextpid) :
    ∃ p k', allocProcess k = some (some p, k') := by
  obtain ⟨pid, k₁, hget⟩ := exists_getPid k
  have hne : pid ≠ -1 := fun he => hpid ((getPid_fails hget).mp he)
  obtain ⟨q, hq⟩ := hslot
  have hq₁ : (k₁.pcblist q).pstate = .free := by
    rw [getPid_eq hget]
    exact hq
  obtain ⟨p, hp⟩ := System.exists_findState hq₁
  simp only [allocProcess, Option.bind_eq_bind, hget, Option.bind_some, if_neg hne, hp]
  exact ⟨_, _, rfl⟩

/-- **When `sys_fork` fails cleanly**: just one of the two is the case, that there is a free slot or
that `nextpid` runs up to `PID_MAX`. -/
theorem allocExact_iff (ptr : IntrContext) (k : System) :
    AllocExact ptr k ↔ (HasSlot k ↔ ¬ Spent k.pcblist k.nextpid) := by
  have hpid := hasPid k
  constructor
  · intro h
    have hnull := h.null
    rw [allocProcess_null, or_iff_left (not_not.mpr hpid)] at hnull
    rw [hnull, not_not]
  · intro h
    refine ⟨?_, fun k' hk' => allocProcess_refused hk', fun hslot _ => ?_⟩
    · rw [allocProcess_null, or_iff_left (not_not.mpr hpid), h, not_not]
    · obtain ⟨p, k', hk'⟩ := exists_allocProcess hslot (h.mp hslot)
      exact ⟨p, k', hk', allocProcess_allocated hk'⟩

end Alloc

/-- Process 0 when its first 59 children are gone. -/
def lastPid : System := { emptyBoot with nextpid := 60 }

/-- A full table is not noticed, and with an empty one the pid 60 is a failure. -/
theorem fork_not_clean :
    (¬ ∀ ptr h k, Run Step NotRoot emptyBoot h k → AllocExact ptr k) ∧
      ¬ AllocExact userFrame lastPid := by
  constructor
  · intro hall
    obtain ⟨k, hk, hfull, hnone⟩ := exists_of_any
      (P := fun k => (∀ p, (k.pcblist p).pstate ≠ .free) ∧ (allocProcess k).isNone)
      (o := performNotRoot (List.replicate 19 (.fork userFrame)) emptyBoot) (by decide +kernel)
    have hslot : ¬ HasSlot k := fun ⟨p, hp⟩ => hfull p hp
    obtain ⟨k', hk'⟩ := (hall userFrame _ _ (run_performNotRoot hk)).null.mpr (.inl hslot)
    rw [hk'] at hnone
    cases hnone
  · intro h
    have hslot : HasSlot lastPid := ⟨1, by decide⟩
    have hfails : (allocProcess lastPid).any (fun r => decide (r.1 = none)) = true := by
      decide +kernel
    obtain ⟨⟨o, k'⟩, hk', ho⟩ := exists_of_any
      (P := fun r : Option (Fin pcbMax) × System => r.1 = none) hfails
    obtain ⟨p, k₁, hp, -⟩ := h.given hslot (hasPid lastPid)
    rw [hp] at hk'
    obtain ⟨rfl, -⟩ := Prod.mk.inj (Option.some_inj.mp hk')
    cases ho

end Nbos.Process
