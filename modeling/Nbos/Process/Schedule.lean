import Nbos.Lib.Turns
import Nbos.Process.FdTable
import Nbos.Process.Lifetime

/-!
# Who gets to run

`do_timer_handler` and `sys_exit` dispatch the first runnable slot of `pcblist`, not the next one.
As long as process 0 does not exit it is always ready, so a process that has another one before it, in a
slot other than 0, is never dispatched (`never_dispatched`); under timer interrupts alone one with none
before it is dispatched (`dispatched_iff`). Of timer interrupts alone the processor always goes back and
forth between two processes (`ticks_alternate`).
-/

namespace Nbos.Process

open Nbos.Lib Nbos.Kernel

/-! ### The order of the slots -/

/-- The slots of the processes that run or wait for their turn. -/
def System.ready (k : System) : Set (Fin pcbMax) := {p | Ready (k.pcblist p).pstate}

/-- The slots of the processes that wait for their turn. -/
def System.runnable (k : System) : Set (Fin pcbMax) := {p | (k.pcblist p).pstate = .runnable}

/-- The slots between which the timer goes on: the current one, and those that wait. -/
def System.turns (k : System) : Set (Fin pcbMax) := insert k.current k.runnable

/-- There is a ready process between process 0 and the slot `s`. -/
def Behind (s : Fin pcbMax) (k : System) : Prop := ∃ a, a ≠ 0 ∧ a < s ∧ a ∈ k.ready

instance (s : Fin pcbMax) : DecidablePred (Behind s) := fun k =>
  inferInstanceAs (Decidable (∃ a, a ≠ 0 ∧ a < s ∧
    ((k.pcblist a).pstate = .running ∨ (k.pcblist a).pstate = .runnable)))

/-- No exit of process 0. -/
def Act.NotRoot (a : Act) (k : System) : Prop :=
  match a with
  | .call c => Process.NotRoot c k
  | .file _ => True

instance (a : Act) (k : System) : Decidable (a.NotRoot k) :=
  match a with
  | .call c => inferInstanceAs (Decidable (c.event = .exit → k.current ≠ 0))
  | .file _ => inferInstanceAs (Decidable True)

/-- The state after a call or an interrupt. -/
def Act.perform : Act → System → Option System
  | .call c, k => c.perform k
  | .file c, k => (c.perform k).map Prod.snd

/-- A timer interrupt. -/
def Tick (k k' : System) : Prop := ∃ ptr, Step (.timer ptr) k k'

/-- What holds in every run without an exit of process 0. -/
structure InOrder (k : System) : Prop where
  sane : Sane k
  rooted : k.table.Rooted 0
  marked : ∃ h, k.table.Marked h

section First

lemma mem_runnable {k : System} {p : Fin pcbMax} :
    p ∈ k.runnable ↔ (k.pcblist p).pstate = .runnable := Iff.rfl

variable {k k' : System} {ptr : IntrContext} {p s x : Fin pcbMax}

lemma System.findState_isLeast {s : RunState} (h : k.findState s = some p) :
    IsLeast {q | (k.pcblist q).pstate = s} p := by
  obtain ⟨hp, hfirst⟩ := find?_finRange_eq_some.mp h
  refine ⟨of_decide_eq_true hp, fun q hq => ?_⟩
  by_contra hlt
  have hq' := hfirst q (not_le.mp hlt)
  rw [decide_eq_false_iff_not] at hq'
  exact hq' hq

/-- A timer interrupt that switches, switches to the first runnable slot. -/
lemma Tick.cases (h : Tick k k') : (k.runnable = ∅ ∧ k' = k) ∨
    ∃ p, IsLeast k.runnable p ∧ k'.table = k.table.switch p := by
  obtain ⟨ptr, h⟩ := h
  obtain rfl := Option.some_inj.mp h
  cases hp : k.findState .runnable with
  | none =>
    rw [doTimerHandler_idle hp]
    exact .inl ⟨Set.eq_empty_of_forall_notMem (System.findState_none hp), rfl⟩
  | some p =>
    have hs : Switched ptr p k (doTimerHandler ptr k).1 := doTimerHandler_spec (by rw [doTimerHandler, hp])
    exact .inr ⟨p, System.findState_isLeast hp, hs.table⟩

lemma exists_tick (k : System) : ∃ k', Tick k k' := ⟨_, userFrame, rfl⟩

lemma System.waiting (k : System) : Waiting k.turns k.current k.runnable :=
  ⟨fun _ hx => .inr hx, fun _ hx hne => hx.resolve_left hne⟩

/-- After a switch all those wait who take turns, but for the one that has been dispatched. -/
lemma runnable_of_switch (ht : k'.table = k.table.switch p) : k'.runnable = {x ∈ k.turns | x ≠ p} := by
  ext x
  show (k'.table.entry x).pstate = .runnable ↔ (x = k.current ∨ (k.pcblist x).pstate = .runnable) ∧ _
  rw [ht, Table.switch_pstate]
  by_cases hx : x = p
  · simp [hx]
  · by_cases hx' : x = k.table.current
    · simp only [if_neg hx, if_pos hx', true_iff]
      exact ⟨.inl hx', hx⟩
    · simp only [if_neg hx, if_neg hx']
      exact ⟨fun h => ⟨.inr h, hx⟩, fun h => h.1.resolve_left hx'⟩

/-- A timer interrupt leaves those who take turns, and where somebody waits it dispatches the first. -/
lemma Tick.turns (h : Tick k k') : k'.turns = k.turns ∧ (k.runnable.Nonempty →
    IsLeast k.runnable k'.current ∧ k'.runnable = {x ∈ k.turns | x ≠ k'.current}) := by
  rcases h.cases with ⟨hnone, rfl⟩ | ⟨p, hp, ht⟩
  · exact ⟨rfl, fun hsome => absurd hnone hsome.ne_empty⟩
  have hcur : k'.current = p := congrArg Table.current ht
  have hrunnable := runnable_of_switch ht
  rw [← hcur] at hp hrunnable
  refine ⟨?_, fun _ => ⟨hp, hrunnable⟩⟩
  rw [System.turns, hrunnable]
  ext x
  by_cases hx : x = k'.current
  · rw [hx]
    exact iff_of_true (.inl rfl) (.inr hp.1)
  · exact ⟨fun h => (h.resolve_left hx).1, fun h => .inr ⟨h, hx⟩⟩

/-- `sys_exit` switches to the first slot that is runnable then. -/
lemma sysExit_isLeast (h : sysExit k = some (k', p)) : IsLeast k'.runnable k'.current := by
  simp only [sysExit, Option.bind_eq_bind, Option.bind_eq_some_iff] at h
  obtain ⟨q, -, next, hnext, he⟩ := h
  obtain ⟨rfl, rfl⟩ := Prod.mk.inj (Option.some_inj.mp he)
  exact System.findState_isLeast hnext

end First

/-! ### What holds in every run -/

section InOrder

variable {k k' : System} {a : Act} {c : Call} {f : FileCall} {r : ℤ} {s x : Fin pcbMax}
  {path : List UInt8} {junk : List UInt8 → List UInt8} {oflag : UInt32}

lemma Undisturbed.table (h : Undisturbed k k') : k'.table = k.table := by
  rw [System.table, System.table, h.pcblist, h.current]

lemma sysOpen_table (h : sysOpen junk path oflag k = some (r, k')) : k'.table = k.table := by
  obtain ⟨i, -, ⟨-, -, rfl⟩ | ⟨fd, -, -, ⟨-, rfl⟩ | ⟨j, ho⟩⟩⟩ := sysOpen_spec h
  · rfl
  · rfl
  · rw [ho.eq]
    exact System.table_setFdlist

/-- The calls on files leave the process table alone. -/
lemma FileCall.table (h : f.perform k = some (r, k')) : k'.table = k.table := by
  cases f with
  | «open» junk path oflag => exact sysOpen_table h
  | creat stack junk junk' path mode =>
    rcases sysCreat_spec h with ⟨disk, -, -, rfl⟩ | ⟨disk, -, ho⟩
    · rfl
    · exact sysOpen_table (k := { k with disk := disk }) ho
  | close fd =>
    rcases sysClose_spec (Option.some_inj.mp h) with ⟨rfl, -⟩ | ⟨i, -, -, rfl⟩
    · rfl
    · exact System.table_setFdlist
  | read junk fd ptr size => exact (sysRead_spec h).table
  | write fd ptr buf size => exact (sysWrite_spec h).table

lemma InOrder.step (hk : InOrder k) (hG : a.NotRoot k) (hs : a.Step k k') : InOrder k' := by
  have hsane := Act.sane hk.sane hs
  obtain ⟨h, hm⟩ := hk.marked
  cases a with
  | call c =>
    have ht := (Process.Step.refines hk.sane hs).1
    exact ⟨hsane, hk.rooted.step hG ht, _, hm.step hk.rooted hG ht⟩
  | file f =>
    obtain ⟨r, hf⟩ := hs
    have ht := FileCall.table hf
    exact ⟨hsane, ht ▸ hk.rooted, h, ht ▸ hm⟩

lemma InOrder.running (hk : InOrder k) (hx : (k.pcblist x).pstate = .running) : x = k.current := by
  obtain ⟨h, hm⟩ := hk.marked
  exact hm.running hx

/-- Ready are the current process and those that wait for their turn. -/
lemma InOrder.ready_eq (hk : InOrder k) : k.ready = k.turns := by
  ext x
  constructor
  · rintro (hx | hx)
    · exact .inl (hk.running hx)
    · exact .inr hx
  · rintro (rfl | hx)
    · exact hk.rooted.current
    · exact .inr hx

lemma InOrder.waiting (hk : InOrder k) : Waiting k.ready k.current k.runnable :=
  hk.ready_eq ▸ k.waiting

lemma InOrder.zero_mem (hk : InOrder k) : 0 ∈ k.ready := hk.rooted.rootReady

/-- What is behind process 0 and another one. -/
lemma InOrder.behind_iff (hk : InOrder k) :
    Behind s k ↔ ¬ ∀ x ∈ k.ready, ∀ y ∈ k.ready, x < s → y < s → x = y := by
  constructor
  · rintro ⟨a, ha0, has, ha⟩ hone
    exact ha0 (hone a ha 0 hk.zero_mem has ((Fin.pos_of_ne_zero ha0).trans has))
  · intro h
    push Not at h
    obtain ⟨x, hx, y, hy, hxs, hys, hxy⟩ := h
    by_cases hx0 : x = 0
    · exact ⟨y, fun hy0 => hxy (hx0.trans hy0.symm), hys, hy⟩
    · exact ⟨x, hx0, hxs, hx⟩

/-- A timer interrupt or an exit passes the turn on to the first who waits; nothing else does. -/
lemma InOrder.dispatch (hk : InOrder k) (hG : a.NotRoot k) (hs : a.Step k k') :
    k'.current = k.current ∨ ∃ W, Waiting k.ready k.current W ∧ IsLeast W k'.current := by
  cases a with
  | file f =>
    obtain ⟨r, hf⟩ := hs
    exact .inl (congrArg Table.current (FileCall.table hf))
  | call c =>
    cases Process.Step.stepped hk.sane hs with
    | idle | forkFails | waitFails | reap => exact .inl rfl
    | fork hf => exact .inl hf.rest.1
    | execve h => exact .inl (by rw [sysExecve_spec h])
    | @switch ptr p _ h =>
      rcases Tick.cases ⟨ptr, hs⟩ with ⟨-, rfl⟩ | ⟨q, hq, ht⟩
      · exact .inl rfl
      · have hc : k'.current = q := congrArg Table.current ht
        exact .inr ⟨_, hk.waiting, hc ▸ hq⟩
    | @exit p _ hp hx =>
      have hpc : p = k.current := hk.rooted.eq_current (hG rfl) hx.pid
      obtain ⟨⟨k₁, next⟩, hexit, rfl⟩ := Option.map_eq_some_iff.mp hs
      -- who was ready still is, but for the one that has exited
      refine .inr ⟨_, ⟨fun q hq => ?_, fun q hq hne => ?_⟩, sysExit_isLeast hexit⟩
      · by_cases hqp : q = p
        · rw [hqp, mem_runnable, hx.proc] at hq
          cases hq
        · rw [mem_runnable, hx.pcb q hqp] at hq
          exact .inr hq
      · rw [mem_runnable, hx.pcb q (hpc ▸ hne)]
        exact hk.waiting.others q hq hne

end InOrder

/-! ### Every order of calls -/

section Runs

variable {pagedir : ℕ} {mem : Memory.Mem} {fileList : Fin fileMaxInSys → OpenFile} {disk : Bytes}
  {keyboard : Device.Keyboard} {k k₁ : System} {h h' : List Act} {s : Fin pcbMax} {p : ℕ → System}

lemma run_inOrder (hrun : Run Act.Step Act.NotRoot (boot pagedir mem fileList disk keyboard) h k) :
    InOrder k := by
  refine hrun.inv InOrder ⟨boot_sane, boot_rooted, [], fun q => ?_⟩ fun a k k' hk hG hs => hk.step hG hs
  rw [boot_table]
  show (if q = 0 then RunState.running else RunState.free) = _ ↔ q = 0
  split
  · rename_i hq
    exact iff_of_true rfl hq
  · rename_i hq
    exact iff_of_false (by simp) hq

/-- **A process with another one before it is never dispatched**: from any state of any run, in every
order of timer interrupts and calls, as long as there is at each step a ready process in a slot
between process 0 and its own. -/
theorem never_dispatched
    (hrun : Run Act.Step Act.NotRoot (boot pagedir mem fileList disk keyboard) h k)
    (hs : k.current ≠ s) (hrun' : Run Act.Step (fun a k => a.NotRoot k ∧ Behind s k) k h' k₁) :
    k₁.current ≠ s := by
  have hinv := hrun'.inv (fun k => InOrder k ∧ k.current ≠ s) ⟨run_inOrder hrun, hs⟩ ?_
  · exact hinv.2
  · rintro a k k' ⟨hk, hne⟩ ⟨hG, hb⟩ hstep
    refine ⟨hk.step hG hstep, ?_⟩
    rcases hk.dispatch hG hstep with hc | ⟨W, hW, hq⟩
    · exact hc ▸ hne
    · obtain ⟨x, hx, y, hy, hxs, hys, hxy⟩ := by
        have hb' := hk.behind_iff.mp hb
        push Not at hb'
        exact hb'
      exact (hW.lt_of_two hq hx hy hxy hxs hys).ne

/-! ### Timer interrupts alone -/

/-- Where somebody waits, every timer interrupt switches: the processes take turns. -/
lemma turns_of_trace (ht : Trace Tick k p) (hs : s ∈ k.turns) (hne : s ≠ k.current) :
    Turns k.turns fun n => (p n).current := by
  have hturns : ∀ n, (p n).turns = k.turns := fun n => by
    induction n with
    | zero => rw [ht.start]
    | succ n ih => rw [(ht.next n).turns.1, ih]
  have hbusy : ∀ n, (p n).runnable.Nonempty := fun n => by
    have hwaits : ∀ x ∈ k.turns, x ≠ (p n).current → (p n).runnable.Nonempty := fun x hx hxn =>
      ⟨x, (p n).waiting.others x (hturns n ▸ hx) hxn⟩
    by_cases hsn : s = (p n).current
    · exact hwaits _ (.inl rfl) (hsn ▸ hne.symm)
    · exact hwaits s hs hsn
  have hstep : ∀ n, IsLeast (p n).runnable (p (n + 1)).current ∧
      (p (n + 1)).runnable = {x ∈ k.turns | x ≠ (p (n + 1)).current} := fun n =>
    hturns n ▸ (ht.next n).turns.2 (hbusy n)
  refine ⟨⟨_, ?_, (hstep 0).1⟩, fun n => (hstep n).2 ▸ (hstep (n + 1)).1⟩
  simp only [ht.start]
  exact k.waiting

lemma exists_trace (k : System) : ∃ p, Trace Tick k p := by
  choose f hf using exists_tick
  exact ⟨fun n => f^[n] k, rfl, fun n => by rw [Function.iterate_succ_apply']; exact hf _⟩

/-- **Who the timer dispatches**: in every state of every run a process that is ready and does not run
is dispatched by timer interrupts alone, whatever registers they find, if and only if there is no
ready process between process 0 and its slot. -/
theorem dispatched_iff
    (hrun : Run Act.Step Act.NotRoot (boot pagedir mem fileList disk keyboard) h k)
    (hs : s ∈ k.ready) (hne : s ≠ k.current) :
    Inevitable Tick (fun k' => k'.current = s) k ↔ ¬ Behind s k := by
  have hk := run_inOrder hrun
  rw [hk.behind_iff, not_not]
  rw [hk.ready_eq] at hs ⊢
  constructor
  · intro hall
    obtain ⟨p, hp⟩ := exists_trace k
    refine ((turns_of_trace hp hs hne).reaches_iff hs ?_).mp (hall p hp)
    rw [hp.start]
    exact hne
  · intro hone p hp
    refine ((turns_of_trace hp hs hne).reaches_iff hs ?_).mpr hone
    rw [hp.start]
    exact hne

/-- **The processor goes back and forth between two processes**: in any state, of timer interrupts alone
the second after any leads back to the process that this one has dispatched. -/
theorem ticks_alternate (hp : Trace Tick k p) (n : ℕ) : (p (n + 3)).current = (p (n + 1)).current := by
  by_cases hex : ∃ s ∈ k.turns, s ≠ k.current
  · obtain ⟨s, hs, hne⟩ := hex
    exact (turns_of_trace hp hs hne).alternate n
  · -- nobody else takes a turn
    push Not at hex
    have hcur : ∀ m, (p m).turns = k.turns ∧ (p m).current = k.current := fun m => by
      induction m with
      | zero => exact ⟨by rw [hp.start], by rw [hp.start]⟩
      | succ m ih =>
        have hturns : (p (m + 1)).turns = k.turns := (hp.next m).turns.1.trans ih.1
        exact ⟨hturns, hex _ (hturns ▸ .inl rfl)⟩
    rw [(hcur _).2, (hcur _).2]

end Runs

/-! ### Short runs -/

lemma Act.step_of_perform {a : Act} {k k' : System} (h : a.perform k = some k') : a.Step k k' := by
  cases a with
  | call c => exact h
  | file c =>
    obtain ⟨⟨r, k₁⟩, hc, rfl⟩ := Option.map_eq_some_iff.mp h
    exact ⟨r, hc⟩

/-- Process 0 has two children. -/
def twoChildren : List Act := [.call (.fork userFrame), .call (.fork userFrame)]

/-- Three timer interrupts. -/
def threeTicks : List Act := .replicate 3 (.call (.timer userFrame))

lemma exists_twoChildren {P : System → Prop} [DecidablePred P]
    (h : (runGuarded Act.NotRoot Act.perform twoChildren emptyBoot).any (fun k => decide (P k)) = true) :
    ∃ k, runGuarded Act.NotRoot Act.perform twoChildren emptyBoot = some k ∧ P k := exists_of_any h

/-- The second child is not dispatched in three turns. -/
theorem never_dispatched_twoChildren : ∃ k k',
    runGuarded Act.NotRoot Act.perform twoChildren emptyBoot = some k ∧
    runGuarded (fun (a : Act) k => a.NotRoot k ∧ Behind 2 k) Act.perform threeTicks k = some k' ∧
    k'.current ≠ 2 := by
  obtain ⟨k, hk, hcur, hrun⟩ := exists_twoChildren (P := fun k => k.current ≠ 2 ∧
    (runGuarded (fun (a : Act) k => a.NotRoot k ∧ Behind 2 k) Act.perform threeTicks k).isSome) (by decide +kernel)
  obtain ⟨k', hk'⟩ := Option.isSome_iff_exists.mp hrun
  exact ⟨k, k', hk, hk', never_dispatched (run_runGuarded (fun _ _ _ => Act.step_of_perform) hk) hcur
    (run_runGuarded (fun _ _ _ => Act.step_of_perform) hk')⟩

/-- The timer dispatches the first child, not the second. -/
theorem dispatched_iff_twoChildren : ∃ k,
    runGuarded Act.NotRoot Act.perform twoChildren emptyBoot = some k ∧
    Inevitable Tick (fun k' => k'.current = 1) k ∧ ¬ Inevitable Tick (fun k' => k'.current = 2) k := by
  obtain ⟨k, hk, hcur, h1, h2, hb1, hb2⟩ := exists_twoChildren (P := fun k => k.current = 0 ∧
    (k.pcblist 1).pstate = .runnable ∧ (k.pcblist 2).pstate = .runnable ∧ ¬ Behind 1 k ∧ Behind 2 k)
    (by decide +kernel)
  have hrun := run_runGuarded (fun _ _ _ => Act.step_of_perform) hk
  refine ⟨k, hk, (dispatched_iff hrun (.inr h1) ?_).mpr hb1, fun hall => ?_⟩
  · rw [hcur]
    decide
  · refine (dispatched_iff hrun (.inr h2) ?_).mp hall hb2
    rw [hcur]
    decide

theorem ticks_alternate_twoChildren : ∃ k p,
    runGuarded Act.NotRoot Act.perform twoChildren emptyBoot = some k ∧
    Trace Tick k p ∧ (p 3).current = (p 1).current := by
  obtain ⟨k, hk, -⟩ := exists_twoChildren (P := fun _ => True) (by decide +kernel)
  obtain ⟨p, hp⟩ := exists_trace k
  exact ⟨k, p, hk, hp, ticks_alternate hp 0⟩

end Nbos.Process
