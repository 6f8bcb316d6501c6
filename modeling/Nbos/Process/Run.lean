import Nbos.Lib.Run
import Nbos.Process.Execve
import Nbos.Process.Life
import Nbos.Process.Switch

/-!
# Runs of the kernel

The process table of `process.c` under every order of timer interrupts, `sys_fork`, `sys_execve`,
`sys_exit` and `sys_wait`, from `init_pcb` on. `Step.refines` makes every step of the code a step of
the table of `Process/Life`; what holds of the tables is read off there.
-/

namespace Nbos.Process

open Nbos.Lib Nbos.Kernel Nbos.Memory

/-! ### Steps of the code -/

/-- The state after `init_pcb`, which finds its statics zeroed and `nextpid` as it is initialised. -/
def boot (pagedir : ℕ) (mem : Mem) (fileList : Fin fileMaxInSys → OpenFile) (disk : Bytes)
    (keyboard : Device.Keyboard) : System :=
  initPcb pagedir ⟨mem, fun _ => zeroPcb, 0, 1, fileList, disk, keyboard⟩

/-- A timer interrupt, or a system call of the current process, with what it finds. -/
inductive Call where
  | timer (ptr : IntrContext)
  | fork (ptr : IntrContext)
  | execve (junk : List UInt8 → List UInt8) (path : List UInt8) (ptr : IntrContext)
  | exit
  | wait

/-- What kind of event it is. -/
def Call.event : Call → Event
  | .timer _ => .timer
  | .fork _ => .fork
  | .execve _ _ _ => .execve
  | .exit => .exit
  | .wait => .wait

/-- The state after it. There is none where the code goes on with an uninitialised pointer or stops
the machine, and none while `sys_wait` waits. -/
def Call.perform : Call → System → Option System
  | .timer ptr, k => some (doTimerHandler ptr k).1
  | .fork ptr, k => (sysFork ptr k).map Prod.snd
  | .execve junk path ptr, k => (sysExecve junk path ptr k).map Prod.snd
  | .exit, k => (sysExit k).map Prod.fst
  | .wait, k => (sysWait k).map Prod.snd

/-- One step of the kernel. -/
def Step (c : Call) (k k' : System) : Prop := c.perform k = some k'

/-- No exit of process 0. -/
def NotRoot (c : Call) (k : System) : Prop := c.event = .exit → k.current ≠ 0

instance (c : Call) (k : System) : Decidable (NotRoot c k) :=
  inferInstanceAs (Decidable (c.event = .exit → k.current ≠ 0))

/-! ### The table -/

/-- What the table of `Process/Life` has of the process table. -/
def System.table (k : System) : Table (Fin pcbMax) :=
  ⟨fun p => ⟨(k.pcblist p).pid, (k.pcblist p).fatherPid, (k.pcblist p).pstate⟩, k.current⟩

/-- The slot that `sys_wait` gives back, if it does not return `-1`. -/
def System.reaped (k : System) : Option (Fin pcbMax) :=
  if haveChildren k.proc.pid k = 0 then none else zombieChild k.proc.pid k

/-- The table and `nextpid` are as they should be. -/
structure Sane (k : System) : Prop where
  table : k.table.Inv 0
  nextpid : 1 ≤ k.nextpid ∧ k.nextpid ≤ pidMax + 1

section Refines

variable {k k' : System} {c : Call} {p : Fin pcbMax}

lemma table_ext {t t' : Table (Fin pcbMax)} (hc : t.current = t'.current)
    (he : ∀ q, t.entry q = t'.entry q) : t = t' := by
  obtain ⟨entry, current⟩ := t
  obtain ⟨entry', current'⟩ := t'
  obtain rfl : current = current' := hc
  obtain rfl : entry = entry' := funext he
  rfl

lemma System.table_setPcb (c : Pcb) :
    (k.setPcb p c).table = k.table.put p ⟨c.pid, c.fatherPid, c.pstate⟩ := by
  refine table_ext rfl fun q => ?_
  by_cases hq : q = p
  · subst hq
    rw [Table.put_self]
    simp only [System.table, System.setPcb_self]
  · rw [Table.put_of_ne hq]
    simp only [System.table, System.setPcb_of_ne hq]

lemma System.findState_none {s : RunState} (h : k.findState s = none) :
    ∀ p, (k.pcblist p).pstate ≠ s := by
  simpa [System.findState] using h

lemma Switched.table {ptr : IntrContext} (h : Switched ptr p k k') :
    k'.table = k.table.switch p := by
  refine table_ext h.current fun q => ?_
  have hpid : (k'.pcblist q).pid = (k.pcblist q).pid ∧
      (k'.pcblist q).fatherPid = (k.pcblist q).fatherPid := by
    by_cases hq : q = k.current
    · rw [hq, h.last]
      exact ⟨rfl, rfl⟩
    · by_cases hqp : q = p
      · subst hqp
        rw [h.next hq]
        exact ⟨rfl, rfl⟩
      · rw [h.pcb q hq hqp]
        exact ⟨rfl, rfl⟩
  have hstate : (k'.pcblist q).pstate =
      if q = p then .running else if q = k.current then .runnable else (k.pcblist q).pstate := by
    by_cases hq : q = k.current
    · rw [hq, h.last]
      simp only [if_true]
    · by_cases hqp : q = p
      · subst hqp
        rw [h.next hq, if_pos rfl]
      · rw [h.pcb q hq hqp, if_neg hqp, if_neg hq]
  refine Entry.ext ?_ ?_ ?_
  · exact hpid.1.trans (Table.switch_pid (t := k.table)).symm
  · exact hpid.2.trans (Table.switch_fatherPid (t := k.table)).symm
  · exact hstate.trans (Table.switch_pstate (t := k.table)).symm

lemma Forked.table {ptr : IntrContext} {pid : ℤ} (h : Forked ptr p pid k k') :
    k'.table = k.table.fork p pid.toNat := by
  refine table_ext h.rest.1 fun q => ?_
  by_cases hq : q = p
  · subst hq
    rw [Table.fork, Table.put_self]
    simp only [System.table, h.proc, copyContext]
  · rw [Table.fork, Table.put_of_ne hq]
    simp only [System.table, h.pcb q hq]

lemma Exited.table (h : Exited p k k') : k'.table = k.table.exit p k'.current := by
  refine table_ext rfl fun q => ?_
  by_cases hq : q = p
  · subst hq
    refine Eq.trans ?_ Table.put_self.symm
    simp only [System.table]
    rw [h.proc]
  · refine Eq.trans ?_ (Table.put_of_ne hq).symm
    simp only [System.table, h.pcb q hq]

/-- `sys_wait` gives the slot `reaped` back, or does nothing. -/
lemma sysWait_spec {r : ℤ} (h : sysWait k = some (r, k')) :
    (k.reaped = none ∧ k' = k) ∨ ∃ p, k.reaped = some p ∧
      (k.pcblist p).pstate = .zombie ∧ (k.pcblist p).fatherPid = k.proc.pid ∧
      k' = k.setPcb p { k.pcblist p with
        pagedir := 0, pstate := .free, fatherPid := 0, pid := 0, nextVirAddr := 0 } := by
  simp only [sysWait] at h
  unfold System.reaped
  split at h
  · rename_i hnone
    obtain ⟨-, rfl⟩ := Prod.mk.inj (Option.some_inj.mp h)
    exact .inl ⟨if_pos hnone, rfl⟩
  · rename_i hsome
    obtain ⟨p, hp, he⟩ := Option.map_eq_some_iff.mp h
    obtain ⟨-, rfl⟩ := Prod.mk.inj he
    have hdead := zombieChild_spec hp
    exact .inr ⟨p, (if_neg hsome).trans hp, hdead.2, hdead.1, rfl⟩

lemma getPid_range {pid : ℤ} (hn : 1 ≤ k.nextpid ∧ k.nextpid ≤ pidMax + 1)
    (h : getPid k = some (pid, k')) : (1 ≤ k'.nextpid ∧ k'.nextpid ≤ pidMax + 1) ∧
      (pid ≠ -1 → 1 ≤ pid.toNat ∧ pid.toNat < pidMax) := by
  obtain ⟨r, hr, he⟩ := Option.map_eq_some_iff.mp h
  obtain ⟨rfl, rfl⟩ := Prod.mk.inj he
  obtain ⟨h1, h2, h3⟩ := getPidLoop_range hn.1 hn.2 hr
  exact ⟨⟨h1, h2⟩, h3⟩

/-- What a step does, branch by branch of the call. -/
inductive Stepped (k : System) : Call → System → Prop
  | idle {ptr : IntrContext} : (∀ p, (k.pcblist p).pstate ≠ .runnable) → Stepped k (.timer ptr) k
  | switch {ptr : IntrContext} {p : Fin pcbMax} {k' : System} :
      Switched ptr p k k' → Stepped k (.timer ptr) k'
  | forkFails {ptr : IntrContext} {n : ℕ} : getPid k = some (-1, { k with nextpid := n }) →
      Stepped k (.fork ptr) { k with nextpid := n }
  | fork {ptr : IntrContext} {p : Fin pcbMax} {pid : ℤ} {k' : System} :
      Forked ptr p pid k k' → Stepped k (.fork ptr) k'
  | execve {junk : List UInt8 → List UInt8} {path : List UInt8} {ptr : IntrContext}
      {r : ExecResult} {k' : System} : sysExecve junk path ptr k = some (r, k') →
      Stepped k (.execve junk path ptr) k'
  | exit {p : Fin pcbMax} {k' : System} : getPCB k.proc.pid k = some p → Exited p k k' →
      Stepped k .exit k'
  | waitFails : k.reaped = none → Stepped k .wait k
  | reap {p : Fin pcbMax} : k.reaped = some p → (k.pcblist p).pstate = .zombie →
      (k.pcblist p).fatherPid = k.proc.pid → Stepped k .wait (k.setPcb p { k.pcblist p with
        pagedir := 0, pstate := .free, fatherPid := 0, pid := 0, nextVirAddr := 0 })

theorem Step.stepped (hk : Sane k) (hs : Step c k k') : Stepped k c k' := by
  cases c with
  | timer ptr =>
    obtain rfl := Option.some_inj.mp hs
    cases hp : k.findState .runnable with
    | none =>
      rw [doTimerHandler_idle hp]
      exact .idle (System.findState_none hp)
    | some p =>
      refine .switch (doTimerHandler_spec (p := p) ?_)
      rw [doTimerHandler, hp]
  | fork ptr =>
    obtain ⟨⟨r, k'⟩, h, rfl⟩ := Option.map_eq_some_iff.mp hs
    rcases sysFork_spec hk.table.current.ne_free h with ⟨-, hget⟩ | ⟨p, hf⟩
    · have he := getPid_eq hget
      generalize k'.nextpid = n at he
      subst he
      exact .forkFails hget
    · exact .fork hf
  | execve junk path ptr =>
    obtain ⟨⟨r, k'⟩, h, rfl⟩ := Option.map_eq_some_iff.mp hs
    exact .execve h
  | exit =>
    obtain ⟨⟨k', next⟩, h, rfl⟩ := Option.map_eq_some_iff.mp hs
    obtain ⟨-, p, hp, hx⟩ := sysExit_spec h
    exact .exit hp hx
  | wait =>
    obtain ⟨⟨r, k'⟩, h, rfl⟩ := Option.map_eq_some_iff.mp hs
    rcases sysWait_spec h with ⟨hnone, rfl⟩ | ⟨p, hp, hz, hf, rfl⟩
    · exact .waitFails hnone
    · exact .reap hp hz hf

/-- **The code refines the table**: every step of the one is a step of the other. -/
theorem Step.refines (hk : Sane k) (hs : Step c k k') :
    Table.Step c.event k.table k'.table ∧ (1 ≤ k'.nextpid ∧ k'.nextpid ≤ pidMax + 1) := by
  cases hs.stepped hk with
  | idle hnone => exact ⟨.idle hnone, hk.nextpid⟩
  | switch hsw =>
    rw [hsw.table, hsw.rest.2.1]
    exact ⟨.switch hsw.runnable, hk.nextpid⟩
  | forkFails hget => exact ⟨.forkFails, (getPid_range hk.nextpid hget).1⟩
  | fork hf =>
    obtain ⟨hn, hpid⟩ := getPid_range hk.nextpid hf.getPid
    obtain ⟨hpos, hlt⟩ := hpid fun he => by
      have := hf.pidNonneg
      omega
    rw [hf.table]
    exact ⟨.fork hf.free hpos hlt hf.fresh, hn⟩
  | execve h =>
    rw [sysExecve_spec h]
    exact ⟨.execve, hk.nextpid⟩
  | @exit p _ _ hx =>
    have hmark : ((k.table.mark p .zombie).entry k'.current).pstate = .runnable := by
      have ht : (k'.table.entry k'.current).pstate = .runnable := hx.runnable
      rw [hx.table] at ht
      exact ht
    rw [hx.nextpid, hx.table]
    exact ⟨.exit hx.pid hmark, hk.nextpid⟩
  | waitFails => exact ⟨.waitFails, hk.nextpid⟩
  | reap _ hz hf =>
    rw [System.table_setPcb]
    exact ⟨.reap hz hf, hk.nextpid⟩

theorem Sane.step (hk : Sane k) (hs : Step c k k') : Sane k' := by
  obtain ⟨ht, hn⟩ := hs.refines hk
  exact ⟨hk.table.step ht, hn⟩

end Refines

/-! ### The start -/

section Boot

variable {pagedir : ℕ} {mem : Mem} {fileList : Fin fileMaxInSys → OpenFile} {disk : Bytes}
  {keyboard : Device.Keyboard} {p : Fin pcbMax}

lemma boot_table : (boot pagedir mem fileList disk keyboard).table =
    ⟨fun p => ⟨0, 0, if p = 0 then .running else .free⟩, 0⟩ := by
  refine table_ext rfl fun q => ?_
  by_cases hq : q = 0
  · subst hq
    rfl
  · simp only [boot, initPcb, System.table, Function.update_of_ne hq, if_neg hq]
    rfl

lemma boot_rooted : (boot pagedir mem fileList disk keyboard).table.Rooted 0 := by
  rw [boot_table]
  refine ⟨⟨⟨fun _ _ => rfl, fun _ _ => rfl, fun p q h => absurd rfl h,
    fun _ => Nat.zero_lt_succ _,
    fun p _ => ?_, rfl, by simp⟩, .inl rfl⟩, .inl rfl, fun h => absurd rfl h, fun p hp hbusy => ?_⟩
  · by_cases hp : p = 0
    · exact .inl hp
    · exact .inr (.inl (if_neg hp))
  · exact absurd (if_neg hp) hbusy

lemma boot_sane : Sane (boot pagedir mem fileList disk keyboard) :=
  ⟨boot_rooted.toInv, le_rfl, show 1 ≤ 61 by omega⟩

end Boot

end Nbos.Process
