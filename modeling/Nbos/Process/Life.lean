import Nbos.Kernel.Defs
import Mathlib.Logic.Function.Basic
import Mathlib.Tactic.Common

/-!
# The life of a process

What scheduling, `fork`, `exit` and `wait` make of a process table, over any set of slots, with pids,
fathers and states only. One slot is the root, the process that the kernel starts with.

* `Table.Step` — the steps of the table;
* `Table.Inv` — what holds whoever exits, the root included (`Table.Inv.step`);
* `Table.Rooted` — what holds as long as the root does not exit (`Table.Rooted.step`);
* `Table.Single` and `Table.Unmarked` — which slots are marked as running;
* `Table.Linked` — every father is there.
-/

namespace Nbos.Process

open Nbos.Kernel

variable {ι : Type*}

/-! ### Tables -/

/-- What happens to the table: an interrupt, or a system call of the current process. -/
inductive Event where
  | timer | fork | execve | exit | wait
  deriving DecidableEq

/-- One slot. -/
@[ext] structure Entry where
  pid : ℕ
  fatherPid : ℕ
  pstate : RunState

/-- The slots, and the one that runs. -/
structure Table (ι : Type*) where
  entry : ι → Entry
  current : ι

/-- The states of a process that runs or waits for its turn. -/
def Ready (s : RunState) : Prop := s = .running ∨ s = .runnable

lemma Ready.ne_free {s : RunState} (h : Ready s) : s ≠ .free := by
  rintro rfl
  rcases h with h | h <;> cases h

lemma Ready.ne_zombie {s : RunState} (h : Ready s) : s ≠ .zombie := by
  rintro rfl
  rcases h with h | h <;> cases h

section Defs

variable [DecidableEq ι]

/-- One slot changed. -/
def Table.put (p : ι) (c : Entry) (t : Table ι) : Table ι :=
  { t with entry := Function.update t.entry p c }

/-- The state of one slot changed. -/
def Table.mark (p : ι) (s : RunState) (t : Table ι) : Table ι :=
  t.put p { t.entry p with pstate := s }

/-- The current process waits for its turn again and `p` runs. -/
def Table.switch (p : ι) (t : Table ι) : Table ι :=
  { (t.mark t.current .runnable).mark p .running with current := p }

/-- A child of the current process in the slot `p`. -/
def Table.fork (p : ι) (pid : ℕ) (t : Table ι) : Table ι :=
  t.put p ⟨pid, (t.entry t.current).pid, .runnable⟩

/-- The slot `p` is marked as dead, and `next` runs. It is not marked as running. -/
def Table.exit (p next : ι) (t : Table ι) : Table ι :=
  { t.mark p .zombie with current := next }

/-- The slot `p` is given back. -/
def Table.reap (p : ι) (t : Table ι) : Table ι := t.put p ⟨0, 0, .free⟩

/-- The steps of the table. -/
inductive Table.Step : Event → Table ι → Table ι → Prop
  | idle {t : Table ι} : (∀ p, (t.entry p).pstate ≠ .runnable) → Table.Step .timer t t
  | switch {t : Table ι} {p : ι} : (t.entry p).pstate = .runnable → Table.Step .timer t (t.switch p)
  | forkFails {t : Table ι} : Table.Step .fork t t
  | fork {t : Table ι} {p : ι} {pid : ℕ} : (t.entry p).pstate = .free → 1 ≤ pid → pid < pidMax →
      (∀ q, (t.entry q).pid ≠ pid) → Table.Step .fork t (t.fork p pid)
  | execve {t : Table ι} : Table.Step .execve t t
  | exit {t : Table ι} {p next : ι} : (t.entry p).pid = (t.entry t.current).pid →
      ((t.mark p .zombie).entry next).pstate = .runnable → Table.Step .exit t (t.exit p next)
  | waitFails {t : Table ι} : Table.Step .wait t t
  | reap {t : Table ι} {p : ι} : (t.entry p).pstate = .zombie →
      (t.entry p).fatherPid = (t.entry t.current).pid → Table.Step .wait t (t.reap p)

end Defs

section Fields

variable [DecidableEq ι] {t : Table ι} {p q next : ι} {c : Entry} {s : RunState} {n : ℕ}

@[simp] lemma Table.put_self : (t.put p c).entry p = c := Function.update_self ..

lemma Table.put_of_ne (h : q ≠ p) : (t.put p c).entry q = t.entry q := Function.update_of_ne h ..

@[simp] lemma Table.mark_pid : ((t.mark p s).entry q).pid = (t.entry q).pid := by
  by_cases hq : q = p
  · rw [hq, Table.mark, Table.put_self]
  · rw [Table.mark, Table.put_of_ne hq]

@[simp] lemma Table.mark_fatherPid : ((t.mark p s).entry q).fatherPid = (t.entry q).fatherPid := by
  by_cases hq : q = p
  · rw [hq, Table.mark, Table.put_self]
  · rw [Table.mark, Table.put_of_ne hq]

lemma Table.mark_pstate :
    ((t.mark p s).entry q).pstate = if q = p then s else (t.entry q).pstate := by
  by_cases hq : q = p
  · rw [if_pos hq, hq, Table.mark, Table.put_self]
  · rw [if_neg hq, Table.mark, Table.put_of_ne hq]

@[simp] lemma Table.switch_pid : ((t.switch p).entry q).pid = (t.entry q).pid :=
  mark_pid.trans mark_pid

@[simp] lemma Table.switch_fatherPid : ((t.switch p).entry q).fatherPid = (t.entry q).fatherPid :=
  mark_fatherPid.trans mark_fatherPid

lemma Table.switch_pstate : ((t.switch p).entry q).pstate =
    if q = p then .running else if q = t.current then .runnable else (t.entry q).pstate :=
  mark_pstate.trans (if_congr Iff.rfl rfl mark_pstate)

@[simp] lemma Table.exit_pid : ((t.exit p next).entry q).pid = (t.entry q).pid := mark_pid

@[simp] lemma Table.exit_fatherPid : ((t.exit p next).entry q).fatherPid = (t.entry q).fatherPid :=
  mark_fatherPid

lemma Table.exit_pstate : ((t.exit p next).entry q).pstate =
    if q = p then .zombie else (t.entry q).pstate := mark_pstate

end Fields

/-! ### What always holds -/

/-- What holds of the slots, whoever exits. -/
structure Table.Sound (root : ι) (t : Table ι) : Prop where
  vacant : ∀ p, (t.entry p).pstate = .free → (t.entry p).pid = 0
  orphan : ∀ p, (t.entry p).pid = 0 → (t.entry p).fatherPid = 0
  unique : ∀ p q, (t.entry p).pid ≠ 0 → (t.entry p).pid = (t.entry q).pid → p = q
  bound : ∀ p, (t.entry p).pid < pidMax
  nameless : ∀ p, (t.entry p).pid = 0 →
    p = root ∨ (t.entry p).pstate = .free ∨ (t.entry p).pstate = .zombie
  rootPid : (t.entry root).pid = 0
  rootBusy : (t.entry root).pstate ≠ .free

/-- What holds whoever exits. -/
structure Table.Inv (root : ι) (t : Table ι) : Prop extends t.Sound root where
  current : Ready (t.entry t.current).pstate

/-- What may be written into the slot `p`. -/
structure Table.Admits (root : ι) (t : Table ι) (p : ι) (c : Entry) : Prop where
  vacant : c.pstate = .free → c.pid = 0
  orphan : c.pid = 0 → c.fatherPid = 0
  fresh : c.pid ≠ 0 → ∀ q, q ≠ p → (t.entry q).pid ≠ c.pid
  bound : c.pid < pidMax
  nameless : c.pid = 0 → p = root ∨ c.pstate = .free ∨ c.pstate = .zombie
  root : p = root → c.pid = 0 ∧ c.pstate ≠ .free

section Inv

variable {t : Table ι} {root p q : ι}

/-- A process that is ready and has no pid is the root. -/
lemma Table.Sound.eq_root (h : t.Sound root) (hp : Ready (t.entry p).pstate)
    (h0 : (t.entry p).pid = 0) : p = root := by
  rcases h.nameless p h0 with rfl | hfree | hzombie
  · rfl
  · exact absurd hfree hp.ne_free
  · exact absurd hzombie hp.ne_zombie

/-- The pid of the current process is no other slot's, unless the root is current. -/
lemma Table.Inv.eq_current (h : t.Inv root) (hcur : t.current ≠ root)
    (hp : (t.entry p).pid = (t.entry t.current).pid) : p = t.current := by
  have hne : (t.entry t.current).pid ≠ 0 := fun h0 => hcur (h.eq_root h.current h0)
  exact (h.unique _ _ hne hp.symm).symm

/-- A dead child of the current process is neither that process nor the root. -/
lemma Table.Inv.ne_of_dead (h : t.Inv root) (hz : (t.entry p).pstate = .zombie)
    (hf : (t.entry p).fatherPid = (t.entry t.current).pid) : t.current ≠ p ∧ root ≠ p := by
  have hcur : t.current ≠ p := fun he => h.current.ne_zombie (he ▸ hz)
  refine ⟨hcur, fun he => hcur ?_⟩
  rw [← he, h.orphan root h.rootPid] at hf
  rw [← he]
  exact h.eq_root h.current hf.symm

end Inv

section Step

variable [DecidableEq ι] {t t' : Table ι} {root p q next : ι} {c : Entry} {s : RunState} {e : Event}
  {pid : ℕ}

lemma Table.Sound.put (h : t.Sound root) (hc : t.Admits root p c) : (t.put p c).Sound root := by
  -- slot by slot: the one written, and the others
  have hentry : ∀ P : Entry → Prop, P c → (∀ q, q ≠ p → P (t.entry q)) →
      ∀ q, P ((t.put p c).entry q) := by
    intro P hP hothers q
    by_cases hq : q = p
    · rw [hq, Table.put_self]
      exact hP
    · rw [Table.put_of_ne hq]
      exact hothers q hq
  refine ⟨?_, ?_, fun q r hq hqr => ?_, ?_, fun q => ?_, ?_, ?_⟩
  · exact hentry (fun c => c.pstate = .free → c.pid = 0) hc.vacant fun q _ => h.vacant q
  · exact hentry (fun c => c.pid = 0 → c.fatherPid = 0) hc.orphan fun q _ => h.orphan q
  · by_cases hqp : q = p
    · by_cases hrp : r = p
      · rw [hqp, hrp]
      · rw [hqp, Table.put_self] at hq hqr
        rw [Table.put_of_ne hrp] at hqr
        exact absurd hqr.symm (hc.fresh hq r hrp)
    · rw [Table.put_of_ne hqp] at hq hqr
      by_cases hrp : r = p
      · rw [hrp, Table.put_self] at hqr
        exact absurd hqr (hc.fresh (hqr ▸ hq) q hqp)
      · rw [Table.put_of_ne hrp] at hqr
        exact h.unique q r hq hqr
  · exact hentry (fun c => c.pid < pidMax) hc.bound fun q _ => h.bound q
  · by_cases hqp : q = p
    · rw [hqp, Table.put_self]
      exact hc.nameless
    · rw [Table.put_of_ne hqp]
      exact h.nameless q
  · by_cases hrp : root = p
    · rw [hrp, Table.put_self]
      exact (hc.root hrp.symm).1
    · rw [Table.put_of_ne hrp]
      exact h.rootPid
  · by_cases hrp : root = p
    · rw [hrp, Table.put_self]
      exact (hc.root hrp.symm).2
    · rw [Table.put_of_ne hrp]
      exact h.rootBusy

lemma Table.Sound.mark (h : t.Sound root) (hs : s ≠ .free)
    (hp : (t.entry p).pid = 0 → p = root ∨ s = .zombie) : (t.mark p s).Sound root := by
  refine h.put ⟨fun hfree => absurd hfree hs, h.orphan p, fun hne q hq he => ?_, h.bound p,
    fun h0 => ?_, ?_⟩
  · exact hq (h.unique p q hne he.symm).symm
  · exact (hp h0).imp id .inr
  · rintro rfl
    exact ⟨h.rootPid, hs⟩

lemma Table.Inv.switch (h : t.Inv root) (hp : (t.entry p).pstate = .runnable) :
    (t.switch p).Inv root := by
  have hlast := h.toSound.mark (s := .runnable) (by simp) fun h0 => .inl (h.eq_root h.current h0)
  have hnext := hlast.mark (p := p) (s := .running) (by simp) fun h0 => by
    rw [Table.mark_pid] at h0
    exact .inl (h.eq_root (.inr hp) h0)
  refine ⟨⟨hnext.vacant, hnext.orphan, hnext.unique, hnext.bound, hnext.nameless, hnext.rootPid,
    hnext.rootBusy⟩, .inl ?_⟩
  exact Table.switch_pstate.trans (if_pos rfl)

lemma Table.Inv.exit (h : t.Inv root) (hnext : ((t.mark p .zombie).entry next).pstate = .runnable) :
    (t.exit p next).Inv root := by
  have hdead := h.toSound.mark (p := p) (s := .zombie) (by simp) fun _ => .inr rfl
  exact ⟨⟨hdead.vacant, hdead.orphan, hdead.unique, hdead.bound, hdead.nameless, hdead.rootPid,
    hdead.rootBusy⟩, .inr hnext⟩

lemma Table.Inv.put (h : t.Inv root) (hc : t.Admits root p c) (hp : t.current ≠ p) :
    (t.put p c).Inv root := by
  refine ⟨h.toSound.put hc, ?_⟩
  show Ready ((t.put p c).entry t.current).pstate
  rw [Table.put_of_ne hp]
  exact h.current

lemma Table.Inv.fork (h : t.Inv root) (hp : (t.entry p).pstate = .free) (hpid : 1 ≤ pid)
    (hlt : pid < pidMax) (hfresh : ∀ q, (t.entry q).pid ≠ pid) : (t.fork p pid).Inv root := by
  have h0 : pid ≠ 0 := by omega
  refine h.put ⟨nofun, fun he => absurd he h0, fun _ q _ => hfresh q, hlt,
    fun he => absurd he h0, ?_⟩ fun he => h.current.ne_free (he ▸ hp)
  rintro rfl
  exact absurd hp h.rootBusy

lemma Table.Inv.reap (h : t.Inv root) (hz : (t.entry p).pstate = .zombie)
    (hf : (t.entry p).fatherPid = (t.entry t.current).pid) : (t.reap p).Inv root := by
  obtain ⟨hcur, hroot⟩ := h.ne_of_dead hz hf
  exact h.put ⟨fun _ => rfl, fun _ => rfl, fun h0 => absurd rfl h0, Nat.zero_lt_succ _,
    fun _ => .inr (.inl rfl), fun he => absurd he.symm hroot⟩ hcur

/-- **Every step keeps the invariant.** -/
theorem Table.Inv.step (h : t.Inv root) (hs : Table.Step e t t') : t'.Inv root := by
  cases hs with
  | idle => exact h
  | switch hp => exact h.switch hp
  | forkFails => exact h
  | fork hp hpid hlt hfresh => exact h.fork hp hpid hlt hfresh
  | execve => exact h
  | exit _ hnext => exact h.exit hnext
  | waitFails => exact h
  | reap hz hf => exact h.reap hz hf

end Step

/-! ### While the root lives -/

/-- What holds as long as the root does not exit. -/
structure Table.Rooted (root : ι) (t : Table ι) : Prop extends t.Inv root where
  rootReady : Ready (t.entry root).pstate
  rootWaits : t.current ≠ root → (t.entry root).pstate = .runnable
  named : ∀ p, p ≠ root → (t.entry p).pstate ≠ .free → (t.entry p).pid ≠ 0

section Rooted

variable {t t' : Table ι} {root p q next : ι} {e : Event} {pid : ℕ}

/-- No two slots in use have the same pid. -/
lemma Table.Rooted.eq_of_pid (h : t.Rooted root) (hp : (t.entry p).pstate ≠ .free)
    (hq : (t.entry q).pstate ≠ .free) (he : (t.entry p).pid = (t.entry q).pid) : p = q := by
  by_cases h0 : (t.entry p).pid = 0
  · have hroot : ∀ r, (t.entry r).pstate ≠ .free → (t.entry r).pid = 0 → r = root :=
      fun r hr h0 => by_contra fun hne => h.named r hne hr h0
    rw [hroot p hp h0, hroot q hq (he ▸ h0)]
  · exact h.unique p q h0 he

variable [DecidableEq ι]

lemma Table.Rooted.switch (h : t.Rooted root) (hp : (t.entry p).pstate = .runnable) :
    (t.switch p).Rooted root := by
  refine ⟨h.toInv.switch hp, ?_, fun hne => ?_, fun q hq hbusy => ?_⟩
  · rw [Table.switch_pstate]
    split
    · exact .inl rfl
    · split
      · exact .inr rfl
      · exact h.rootReady
  · have hrp : root ≠ p := fun he => hne he.symm
    rw [Table.switch_pstate, if_neg hrp]
    split
    · rfl
    · rename_i hrc
      exact h.rootWaits (Ne.symm hrc)
  · rw [Table.switch_pid]
    refine h.named q hq fun hfree => ?_
    rw [Table.switch_pstate] at hbusy
    split at hbusy
    · rename_i hqp
      rw [hqp, hp] at hfree
      cases hfree
    · split at hbusy
      · rename_i hqc
        exact h.current.ne_free (hqc ▸ hfree)
      · exact hbusy hfree

lemma Table.Rooted.fork (h : t.Rooted root) (hp : (t.entry p).pstate = .free) (hpid : 1 ≤ pid)
    (hlt : pid < pidMax) (hfresh : ∀ q, (t.entry q).pid ≠ pid) : (t.fork p pid).Rooted root := by
  have hroot : (t.fork p pid).entry root = t.entry root :=
    Table.put_of_ne fun he => h.rootBusy (he ▸ hp)
  refine ⟨h.toInv.fork hp hpid hlt hfresh, hroot ▸ h.rootReady, hroot ▸ h.rootWaits,
    fun q hq hbusy => ?_⟩
  by_cases hqp : q = p
  · rw [hqp, Table.fork, Table.put_self]
    show pid ≠ 0
    omega
  · rw [Table.fork, Table.put_of_ne hqp] at hbusy ⊢
    exact h.named q hq hbusy

lemma Table.Rooted.exit (h : t.Rooted root) (hcur : t.current ≠ root)
    (hnext : ((t.mark t.current .zombie).entry next).pstate = .runnable) :
    (t.exit t.current next).Rooted root := by
  have hroot : ((t.exit t.current next).entry root).pstate = .runnable := by
    rw [Table.exit_pstate, if_neg hcur.symm]
    exact h.rootWaits hcur
  refine ⟨h.toInv.exit hnext, .inr hroot, fun _ => hroot, fun q hq hbusy => ?_⟩
  rw [Table.exit_pid]
  refine h.named q hq fun hfree => ?_
  rw [Table.exit_pstate] at hbusy
  split at hbusy
  · rename_i hqc
    exact h.current.ne_free (hqc ▸ hfree)
  · exact hbusy hfree

lemma Table.Rooted.reap (h : t.Rooted root) (hz : (t.entry p).pstate = .zombie)
    (hf : (t.entry p).fatherPid = (t.entry t.current).pid) : (t.reap p).Rooted root := by
  have hroot : (t.reap p).entry root = t.entry root := Table.put_of_ne (h.ne_of_dead hz hf).2
  refine ⟨h.toInv.reap hz hf, hroot ▸ h.rootReady, hroot ▸ h.rootWaits, fun q hq hbusy => ?_⟩
  by_cases hqp : q = p
  · rw [hqp, Table.reap, Table.put_self] at hbusy
    exact absurd rfl hbusy
  · rw [Table.reap, Table.put_of_ne hqp] at hbusy ⊢
    exact h.named q hq hbusy

/-- **Every step keeps it**, but an exit of the root. -/
theorem Table.Rooted.step (h : t.Rooted root) (hroot : e = .exit → t.current ≠ root)
    (hs : Table.Step e t t') : t'.Rooted root := by
  cases hs with
  | idle => exact h
  | switch hp => exact h.switch hp
  | forkFails => exact h
  | fork hp hpid hlt hfresh => exact h.fork hp hpid hlt hfresh
  | execve => exact h
  | exit hp hnext =>
    obtain rfl := h.eq_current (hroot rfl) hp
    exact h.exit (hroot rfl) hnext
  | waitFails => exact h
  | reap hz hf => exact h.reap hz hf

/-- **The dead stay dead** until their father waits for them, and do not run. -/
theorem Table.Step.dead (hs : Table.Step e t t') (hinv : t.Inv root)
    (hz : (t.entry p).pstate = .zombie) : t'.current ≠ p ∧
    ((t'.entry p).pstate = .zombie ∨ e = .wait ∧ (t'.entry p).pstate = .free ∧
      (t.entry p).fatherPid = (t.entry t.current).pid) := by
  have hcur : t.current ≠ p := fun he => hinv.current.ne_zombie (he ▸ hz)
  have hne : ∀ {q s}, (t.entry q).pstate = s → s ≠ .zombie → p ≠ q := by
    rintro q s rfl hs rfl
    exact hs hz
  cases hs with
  | idle | forkFails | execve | waitFails => exact ⟨hcur, .inl hz⟩
  | switch hq =>
    have hpq := hne hq (by simp)
    refine ⟨hpq.symm, .inl ?_⟩
    rw [Table.switch_pstate, if_neg hpq, if_neg hcur.symm]
    exact hz
  | fork hq =>
    refine ⟨hcur, .inl ?_⟩
    rw [Table.fork, Table.put_of_ne (hne hq (by simp))]
    exact hz
  | exit _ hnext =>
    rw [Table.mark_pstate] at hnext
    split at hnext
    · cases hnext
    · refine ⟨(hne hnext (by simp)).symm, .inl ?_⟩
      rw [Table.exit_pstate]
      split
      · rfl
      · exact hz
  | @reap _ q _ hf =>
    by_cases hpq : p = q
    · subst hpq
      refine ⟨hcur, .inr ⟨rfl, ?_, hf⟩⟩
      rw [Table.reap, Table.put_self]
    · refine ⟨hcur, .inl ?_⟩
      rw [Table.reap, Table.put_of_ne hpq]
      exact hz

end Rooted

/-! ### Who is marked as running -/

/-- The current process is marked as running, and no other. -/
def Table.Single (t : Table ι) : Prop := ∀ p, (t.entry p).pstate = .running ↔ p = t.current

/-- Nobody is marked as running. -/
def Table.Unmarked (t : Table ι) : Prop := ∀ p, (t.entry p).pstate ≠ .running

/-- Since the last timer interrupt a process has exited. -/
def exitedSince : List Event → Bool
  | [] => false
  | .exit :: _ => true
  | .timer :: _ => false
  | _ :: h => exitedSince h

section Single

variable {t t' : Table ι} {root p next : ι} {e : Event} {h : List Event} {pid : ℕ}

lemma Table.Unmarked.not_single (hu : t.Unmarked) : ¬ t.Single := fun hs =>
  hu t.current ((hs t.current).mpr rfl)

/-- What the marks say depends on how the current process has come to run. -/
def Table.Marked (h : List Event) (t : Table ι) : Prop :=
  if exitedSince h then t.Unmarked else t.Single

lemma Table.Marked.running (hm : t.Marked h) (hp : (t.entry p).pstate = .running) :
    p = t.current := by
  unfold Table.Marked at hm
  split at hm
  · exact absurd hp (hm p)
  · exact (hm p).mp hp

lemma Table.Marked.single_iff (hm : t.Marked h) : t.Single ↔ exitedSince h = false := by
  unfold Table.Marked at hm
  split at hm
  · rename_i he
    exact iff_of_false hm.not_single (by simp [he])
  · rename_i he
    exact iff_of_true hm (by simpa using he)

variable [DecidableEq ι]

lemma Table.single_switch (hp : ∀ q, (t.entry q).pstate = .running → q = t.current) :
    (t.switch p).Single := by
  intro q
  rw [Table.switch_pstate]
  show _ ↔ q = p
  split
  · rename_i hq
    exact iff_of_true rfl hq
  · rename_i hq
    refine iff_of_false ?_ hq
    split
    · simp
    · rename_i hqc
      exact fun hrun => hqc (hp q hrun)

/-- A slot that is not the current one gets a state that is not running. -/
lemma Table.put_running {c : Entry} (hp : (t.entry p).pstate ≠ .running) (hc : c.pstate ≠ .running)
    (q : ι) : ((t.put p c).entry q).pstate = .running ↔ (t.entry q).pstate = .running := by
  by_cases hqp : q = p
  · rw [hqp, Table.put_self]
    exact iff_of_false hc hp
  · rw [Table.put_of_ne hqp]

lemma Table.unmarked_exit (hp : ∀ q, (t.entry q).pstate = .running → q = t.current) :
    (t.exit t.current next).Unmarked := by
  intro q hq
  rw [Table.exit_pstate] at hq
  split at hq
  · cases hq
  · rename_i hqc
    exact hqc (hp q hq)

lemma Table.Marked.put {c : Entry} (hm : t.Marked h) (hp : (t.entry p).pstate ≠ .running)
    (hc : c.pstate ≠ .running) : (t.put p c).Marked h := by
  unfold Table.Marked at hm ⊢
  split
  · rename_i he
    rw [if_pos he] at hm
    exact fun q hq => hm q ((put_running hp hc q).mp hq)
  · rename_i he
    rw [if_neg he] at hm
    exact fun q => (put_running hp hc q).trans (hm q)

/-- **The marks follow the history.** -/
theorem Table.Marked.step (hm : t.Marked h) (hinv : t.Rooted root)
    (hroot : e = .exit → t.current ≠ root) (hs : Table.Step e t t') : t'.Marked (e :: h) := by
  cases hs with
  | idle hnone =>
    -- after an exit there is a runnable process, the current one
    unfold Table.Marked at hm
    split at hm
    · exact absurd (hinv.current.resolve_left (hm _)) (hnone _)
    · exact hm
  | switch hp => exact Table.single_switch fun q hq => hm.running hq
  | forkFails | execve | waitFails => exact hm
  | fork hp =>
    refine Table.Marked.put (h := h) hm (fun hrun => ?_) (by simp)
    rw [hp] at hrun
    cases hrun
  | exit hp hnext =>
    obtain rfl := hinv.eq_current (hroot rfl) hp
    exact Table.unmarked_exit fun q hq => hm.running hq
  | reap hz =>
    refine Table.Marked.put (h := h) hm (fun hrun => ?_) (by simp)
    rw [hz] at hrun
    cases hrun

end Single

/-! ### Kin -/

/-- When the process in a slot was born, and when its father was. No two are born at one time. -/
structure Kin (ι : Type*) where
  birth : ι → ℕ
  father : ι → ℕ
  clock : ℕ

/-- Nobody is born yet but the root. -/
def Kin.init : Kin ι := ⟨fun _ => 0, fun _ => 0, 1⟩

/-- The slots a step has taken are born in it, as children of the process that runs. -/
def Kin.next (t t' : Table ι) (b : Kin ι) : Kin ι :=
  { birth := fun p =>
      if (t.entry p).pstate = .free ∧ (t'.entry p).pstate ≠ .free ∧ (t'.entry p).pid ≠ 0
      then b.clock else b.birth p
    father := fun p =>
      if (t.entry p).pstate = .free ∧ (t'.entry p).pstate ≠ .free ∧ (t'.entry p).pid ≠ 0
      then b.birth t.current else b.father p
    clock := b.clock + 1 }

/-- Every process but the root has the pid of a process as its father's. -/
def Table.Linked (root : ι) (t : Table ι) : Prop :=
  ∀ p, p ≠ root → (t.entry p).pstate ≠ .free →
    ∃ q, (t.entry q).pstate ≠ .free ∧ (t.entry q).pid = (t.entry p).fatherPid

/-- The slot `q` is the father of `p` by its pid, and it has born `p`. -/
structure Table.FatherOf (root : ι) (b : Kin ι) (t : Table ι) (q p : ι) : Prop where
  busy : (t.entry q).pstate ≠ .free
  pid : (t.entry q).pid = (t.entry p).fatherPid
  named : (t.entry q).pid = 0 → q = root
  born : (t.entry p).pid ≠ 0 → b.birth q = b.father p

/-- Every process but the root has its father. -/
def Table.Related (root : ι) (b : Kin ι) (t : Table ι) : Prop :=
  ∀ p, p ≠ root → (t.entry p).pstate ≠ .free → ∃ q, t.FatherOf root b q p

/-- The process in the slot `p` has a child. -/
def Table.HasChild (root : ι) (t : Table ι) (p : ι) : Prop :=
  ∃ q, q ≠ root ∧ q ≠ p ∧ (t.entry q).pstate ≠ .free ∧ (t.entry q).fatherPid = (t.entry p).pid

/-- No process is given back by this step that still has a child. -/
def Table.KeepsFathers (root : ι) (t t' : Table ι) : Prop :=
  ∀ p, (t.entry p).pstate ≠ .free → (t'.entry p).pstate = .free → (t.entry p).pid ≠ 0 →
    ¬ t.HasChild root p

section Kin

variable {t t' : Table ι} {root p q next : ι} {e : Event} {b : Kin ι} {pid : ℕ}

lemma Table.Related.linked (h : t.Related root b) : t.Linked root := fun p hp hbusy => by
  obtain ⟨q, hq⟩ := h p hp hbusy
  exact ⟨q, hq.busy, hq.pid⟩

/-- Who is waited for is a child of the process that waits. -/
lemma Table.Related.father_eq (h : t.Related root b) (hinv : t.Inv root)
    (hz : (t.entry p).pstate = .zombie) (hf : (t.entry p).fatherPid = (t.entry t.current).pid)
    (hpid : (t.entry p).pid ≠ 0) : b.father p = b.birth t.current := by
  obtain ⟨-, hroot⟩ := hinv.ne_of_dead hz hf
  obtain ⟨q, hq⟩ := h p hroot.symm (by simp [hz])
  have hqc : q = t.current := by
    by_cases h0 : (t.entry q).pid = 0
    · rw [hq.named h0]
      refine (hinv.eq_root hinv.current ?_).symm
      rw [← hf, ← hq.pid, h0]
    · exact hinv.unique q t.current h0 (hq.pid.trans hf)
  rw [← hqc]
  exact (hq.born hpid).symm

lemma Kin.next_of_busy (h : (t.entry p).pstate ≠ .free) :
    (b.next t t').birth p = b.birth p ∧ (b.next t t').father p = b.father p := by
  have hn : ¬ ((t.entry p).pstate = .free ∧ (t'.entry p).pstate ≠ .free ∧ (t'.entry p).pid ≠ 0) :=
    fun hc => h hc.1
  exact ⟨if_neg hn, if_neg hn⟩

/-- A step in which no slot changes its pid, its father or whether it is in use keeps the kin, but
for nameless slots that it may take. -/
lemma Table.Related.congr (h : t.Related root b) (hinv : t.Inv root)
    (hpid : ∀ p, (t'.entry p).pid = (t.entry p).pid)
    (hfather : ∀ p, (t'.entry p).fatherPid = (t.entry p).fatherPid)
    (hbusy : ∀ p, (t.entry p).pstate ≠ .free → (t'.entry p).pstate ≠ .free) :
    t'.Related root (b.next t t') := by
  intro p hp hp'
  by_cases hfree : (t.entry p).pstate = .free
  · have h0 := hinv.vacant p hfree
    refine ⟨root, hbusy root hinv.rootBusy, ?_, fun _ => rfl, fun hne => absurd ?_ hne⟩
    · rw [hpid, hfather, hinv.rootPid, hinv.orphan p h0]
    · rw [hpid, h0]
  · obtain ⟨q, hq⟩ := h p hp hfree
    refine ⟨q, hbusy q hq.busy, ?_, fun h0 => hq.named (hpid q ▸ h0), fun hne => ?_⟩
    · rw [hpid, hfather, hq.pid]
    · rw [(Kin.next_of_busy hq.busy).1, (Kin.next_of_busy hfree).2]
      exact hq.born (hpid p ▸ hne)

variable [DecidableEq ι]

lemma Table.Related.fork (h : t.Related root b) (hinv : t.Inv root)
    (hp : (t.entry p).pstate = .free) (hpid : 1 ≤ pid) :
    (t.fork p pid).Related root (b.next t (t.fork p pid)) := by
  have hother : ∀ q, (t.entry q).pstate ≠ .free → (t.fork p pid).entry q = t.entry q := fun q hq =>
    Table.put_of_ne fun he => hq (he ▸ hp)
  have hself : (t.fork p pid).entry p = ⟨pid, (t.entry t.current).pid, .runnable⟩ := Table.put_self
  intro q hq hq'
  by_cases hqp : q = p
  · subst hqp
    have hcur := hinv.current.ne_free
    refine ⟨t.current, ?_, ?_, fun h0 => ?_, fun _ => ?_⟩
    · rw [hother _ hcur]
      exact hcur
    · rw [hother _ hcur, hself]
    · rw [hother _ hcur] at h0
      exact hinv.eq_root hinv.current h0
    · rw [(Kin.next_of_busy hcur).1]
      refine (if_pos ⟨hp, ?_, ?_⟩).symm
      · rw [hself]
        simp
      · rw [hself]
        show pid ≠ 0
        omega
  · have hfree : (t.entry q).pstate ≠ .free := by
      rwa [Table.fork, Table.put_of_ne hqp] at hq'
    obtain ⟨r, hr⟩ := h q hq hfree
    refine ⟨r, ?_, ?_, fun h0 => ?_, fun hne => ?_⟩
    · rw [hother r hr.busy]
      exact hr.busy
    · rw [hother r hr.busy, hother q hfree]
      exact hr.pid
    · rw [hother r hr.busy] at h0
      exact hr.named h0
    · rw [hother q hfree] at hne
      rw [(Kin.next_of_busy hr.busy).1, (Kin.next_of_busy hfree).2]
      exact hr.born hne

lemma Table.Related.reap (h : t.Related root b) (hinv : t.Inv root)
    (hz : (t.entry p).pstate = .zombie) (hf : (t.entry p).fatherPid = (t.entry t.current).pid)
    (hchild : (t.entry p).pid ≠ 0 → ¬ t.HasChild root p) :
    (t.reap p).Related root (b.next t (t.reap p)) := by
  obtain ⟨-, hroot⟩ := hinv.ne_of_dead hz hf
  intro q hq hq'
  have hqp : q ≠ p := by
    rintro rfl
    rw [Table.reap, Table.put_self] at hq'
    exact hq' rfl
  have hentry : ∀ r, r ≠ p → (t.reap p).entry r = t.entry r := fun r hr => Table.put_of_ne hr
  rw [hentry q hqp] at hq'
  obtain ⟨r, hr⟩ := h q hq hq'
  have hrp : r ≠ p := by
    rintro rfl
    by_cases h0 : (t.entry r).pid = 0
    · exact hroot (hr.named h0).symm
    · exact hchild h0 ⟨q, hq, hqp, hq', hr.pid.symm⟩
  refine ⟨r, ?_, ?_, fun h0 => ?_, fun hne => ?_⟩
  · rw [hentry r hrp]
    exact hr.busy
  · rw [hentry r hrp, hentry q hqp]
    exact hr.pid
  · rw [hentry r hrp] at h0
    exact hr.named h0
  · rw [hentry q hqp] at hne
    rw [(Kin.next_of_busy hr.busy).1, (Kin.next_of_busy hq').2]
    exact hr.born hne

/-- A slot in use stays in use, unless it is waited for. -/
lemma Table.Step.busy (hs : Table.Step e t t') (hbusy : (t.entry p).pstate ≠ .free) :
    (t'.entry p).pstate ≠ .free ∨ e = .wait ∧ t' = t.reap p := by
  cases hs with
  | idle | forkFails | execve | waitFails => exact .inl hbusy
  | switch =>
    rw [Table.switch_pstate]
    refine .inl ?_
    split
    · simp
    · split
      · simp
      · exact hbusy
  | @fork _ q _ hq =>
    have hpq : p ≠ q := by
      rintro rfl
      exact hbusy hq
    rw [Table.fork, Table.put_of_ne hpq]
    exact .inl hbusy
  | exit =>
    rw [Table.exit_pstate]
    refine .inl ?_
    split
    · simp
    · exact hbusy
  | @reap _ q =>
    by_cases hpq : p = q
    · exact .inr ⟨rfl, by rw [hpq]⟩
    · rw [Table.reap, Table.put_of_ne hpq]
      exact .inl hbusy

/-- **The kin is kept** by every step that gives no father back. -/
theorem Table.Related.step (h : t.Related root b) (hinv : t.Inv root) (hs : Table.Step e t t')
    (hkeep : t.KeepsFathers root t') : t'.Related root (b.next t t') := by
  have hbusy : e ≠ .wait → ∀ p, (t.entry p).pstate ≠ .free → (t'.entry p).pstate ≠ .free :=
    fun he p hp => (hs.busy hp).resolve_right fun hw => he hw.1
  cases hs with
  | idle | forkFails | execve | waitFails =>
    exact h.congr hinv (fun _ => rfl) (fun _ => rfl) fun _ => id
  | switch =>
    exact h.congr hinv (fun _ => Table.switch_pid) (fun _ => Table.switch_fatherPid)
      (hbusy (by simp))
  | fork hp hpid => exact h.fork hinv hp hpid
  | exit =>
    exact h.congr hinv (fun _ => Table.exit_pid) (fun _ => Table.exit_fatherPid) (hbusy (by simp))
  | reap hz hf =>
    refine h.reap hinv hz hf (hkeep _ (by simp [hz]) ?_)
    rw [Table.reap, Table.put_self]

/-- When a father is given back, its children have none. -/
lemma Table.Step.not_linked (hinv : t.Inv root) (hs : Table.Step e t t')
    (hkeep : ¬ t.KeepsFathers root t') : ¬ t'.Linked root := by
  unfold Table.KeepsFathers at hkeep
  push Not at hkeep
  obtain ⟨p, hbusy, hfree, h0, q, hq, hqp, hqbusy, hqf⟩ := hkeep
  obtain ⟨-, rfl⟩ := (hs.busy hbusy).resolve_left fun hne => hne hfree
  intro hlinked
  obtain ⟨r, -, hpid⟩ := hlinked q hq (by rwa [Table.reap, Table.put_of_ne hqp])
  rw [Table.reap, Table.put_of_ne hqp, hqf] at hpid
  have hrp : r ≠ p := by
    rintro rfl
    rw [Table.put_self] at hpid
    exact h0 hpid.symm
  rw [Table.put_of_ne hrp] at hpid
  exact hrp (hinv.unique p r h0 hpid.symm).symm

end Kin

end Nbos.Process
