import Nbos.Process.Run

/-!
# What holds of the process table

Four properties of the table over all runs from `init_pcb` on. Pids are unique (`pids_unique`) and
the dead stay dead (`zombies_stay_dead`), however timer interrupts and system calls follow one
another. That exactly one slot is marked as running fails from every `sys_exit` to the next timer
interrupt (`one_running_iff`), and that every father is there when `sys_wait` gives back a process
that still has a child (`parents_valid_iff`).
-/

namespace Nbos.Process

open Nbos.Lib Nbos.Kernel Nbos.Memory

section Claims

variable {pagedir : ℕ} {mem : Mem} {fileList : Fin fileMaxInSys → OpenFile} {disk : Bytes}
  {keyboard : Device.Keyboard} {h : List Call} {k k' : System} {c : Call} {p q : Fin pcbMax}

/-! ### Runs without an exit of process 0 -/

lemma run_rooted (hrun : Run Step NotRoot (boot pagedir mem fileList disk keyboard) h k) :
    Sane k ∧ k.table.Rooted 0 := by
  refine hrun.inv (fun k => Sane k ∧ k.table.Rooted 0) ⟨boot_sane, boot_rooted⟩ ?_
  rintro c k k' ⟨hk, ht⟩ hG hs
  exact ⟨hk.step hs, ht.step hG (hs.refines hk).1⟩

/-! ### Pids -/

/-- Pids tell the processes apart. -/
structure PidsUnique (k : System) : Prop where
  distinct : ∀ p q, (k.pcblist p).pstate ≠ .free → (k.pcblist q).pstate ≠ .free →
    (k.pcblist p).pid = (k.pcblist q).pid → p = q
  range : ∀ p, p ≠ 0 → (k.pcblist p).pstate ≠ .free →
    1 ≤ (k.pcblist p).pid ∧ (k.pcblist p).pid ≤ pidMax - 1
  own : k.proc.pid ≠ 0 → getPCB k.proc.pid k = some k.current

lemma getPCB_current : ∃ p, getPCB k.proc.pid k = some p := by
  refine Option.isSome_iff_exists.mp (List.find?_isSome.mpr ⟨k.current, ?_, by simp⟩)
  exact List.mem_reverse.mpr (List.mem_finRange _)

/-- **Pids are unique** in every state, wrap-arounds of `nextpid` included. -/
theorem pids_unique (hrun : Run Step NotRoot (boot pagedir mem fileList disk keyboard) h k) :
    PidsUnique k := by
  obtain ⟨hk, ht⟩ := run_rooted hrun
  refine ⟨fun p q hp hq => ht.eq_of_pid hp hq, fun p hp hbusy => ?_, fun h0 => ?_⟩
  · have hne : (k.pcblist p).pid ≠ 0 := ht.named p hp hbusy
    have hlt : (k.pcblist p).pid < 60 := ht.bound p
    simp only [pidMax]
    omega
  · obtain ⟨p, hp⟩ := getPCB_current (k := k)
    rw [hp, ht.unique k.current p h0 (getPCB_spec hp).symm]

/-! ### Zombies -/

lemma System.exists_findState {s : RunState} (hp : (k.pcblist p).pstate = s) :
    ∃ q, k.findState s = some q :=
  Option.isSome_iff_exists.mp (List.find?_isSome.mpr ⟨p, List.mem_finRange _, by simp [hp]⟩)

/-- `sys_exit` goes through when there is another slot to run. -/
lemma exists_sysExit (hp : getPCB k.proc.pid k = some p) (hq : q ≠ p)
    (hrun : (k.pcblist q).pstate = .runnable) : ∃ k' next, sysExit k = some (k', next) := by
  have c := fdsClosed (p := p) (k := { k with mem := freePage (k.pcblist p).pagedir k.mem })
  simp only [sysExit, Option.bind_eq_bind, hp, Option.bind_some]
  generalize forFin fileMaxInProcess (exitFd p)
    { k with mem := freePage (k.pcblist p).pagedir k.mem } = k₁ at c ⊢
  have hstate : ((k₁.setPcb p { k₁.pcblist p with pstate := .zombie }).pcblist q).pstate =
      .runnable := by
    rw [System.setPcb_of_ne hq, c.pcb q hq]
    exact hrun
  obtain ⟨next, hnext⟩ := System.exists_findState hstate
  rw [hnext]
  exact ⟨_, next, rfl⟩

/-- **The dead stay dead.** The current process is running or runnable; an exit finds a process to
run; and a dead process does not run, and keeps its state until the process whose pid is its
father's waits for it. -/
theorem zombies_stay_dead
    (hrun : Run Step NotRoot (boot pagedir mem fileList disk keyboard) h k) :
    (k.proc.pstate = .running ∨ k.proc.pstate = .runnable) ∧
      (k.current ≠ 0 → ∃ k' next, sysExit k = some (k', next) ∧
        (k'.pcblist next).pstate = .runnable) ∧
      ∀ c k', Step c k k' → NotRoot c k → ∀ p, (k.pcblist p).pstate = .zombie →
        k'.current ≠ p ∧ ((k'.pcblist p).pstate = .zombie ∨
          c.event = .wait ∧ (k'.pcblist p).pstate = .free ∧ (k.pcblist p).fatherPid = k.proc.pid) := by
  obtain ⟨hk, ht⟩ := run_rooted hrun
  refine ⟨ht.current, fun hcur => ?_, fun c k' hs _ p hz => (hs.refines hk).1.dead ht.toInv hz⟩
  obtain ⟨p, hp⟩ := getPCB_current (k := k)
  have hpc : p = k.current := ht.eq_current hcur (getPCB_spec hp)
  obtain ⟨k', next, hexit⟩ := exists_sysExit hp (q := 0) (hpc ▸ Ne.symm hcur) (ht.rootWaits hcur)
  obtain ⟨rfl, q, -, hx⟩ := sysExit_spec hexit
  exact ⟨k', _, hexit, hx.runnable⟩

/-! ### Marks -/

/-- Exactly one slot is marked as running, and it is the current one. -/
def OneRunning (k : System) : Prop := ∀ p, (k.pcblist p).pstate = .running ↔ p = k.current

instance : DecidablePred OneRunning := fun k =>
  inferInstanceAs (Decidable (∀ p, (k.pcblist p).pstate = .running ↔ p = k.current))

/-- **When one slot is marked as running**: exactly as long as no process has exited since the last
timer interrupt. -/
theorem one_running_iff (hrun : Run Step NotRoot (boot pagedir mem fileList disk keyboard) h k) :
    OneRunning k ↔ exitedSince (h.map Call.event) = false := by
  have hinv := hrun.inv_history (fun h k => (Sane k ∧ k.table.Rooted 0) ∧ k.table.Marked (h.map Call.event))
    ⟨⟨boot_sane, boot_rooted⟩, fun q => ?_⟩ ?_
  · exact hinv.2.single_iff
  · rw [boot_table]
    show (if q = 0 then RunState.running else RunState.free) = _ ↔ q = 0
    split
    · rename_i hq
      exact iff_of_true rfl hq
    · rename_i hq
      exact iff_of_false (by simp) hq
  · rintro c l k k' ⟨⟨hk, ht⟩, hm⟩ hG hs
    have hs' := (hs.refines hk).1
    exact ⟨⟨hk.step hs, ht.step hG hs'⟩, hm.step ht hG hs'⟩

/-! ### Fathers -/

/-- Every process but process 0 has as its father's pid that of a process. -/
def ParentsValid (k : System) : Prop := ∀ p, p ≠ 0 → (k.pcblist p).pstate ≠ .free →
  ∃ q, (k.pcblist q).pstate ≠ .free ∧ (k.pcblist q).pid = (k.pcblist p).fatherPid

instance : DecidablePred ParentsValid := fun k =>
  inferInstanceAs (Decidable (∀ p, p ≠ 0 → (k.pcblist p).pstate ≠ .free →
    ∃ q, (k.pcblist q).pstate ≠ .free ∧ (k.pcblist q).pid = (k.pcblist p).fatherPid))

/-- A step, with the births. -/
inductive KinStep : Call → System × Kin (Fin pcbMax) → System × Kin (Fin pcbMax) → Prop
  | step {c : Call} {k k' : System} (b : Kin (Fin pcbMax)) : Step c k k' →
      KinStep c (k, b) (k', b.next k.table k'.table)

/-- A call with the births. -/
def Call.performKin (c : Call) (s : System × Kin (Fin pcbMax)) : Option (System × Kin (Fin pcbMax)) :=
  (c.perform s.1).map fun k' => (k', s.2.next s.1.table k'.table)

lemma kinStep_of_performKin {s s' : System × Kin (Fin pcbMax)} (h : c.performKin s = some s') :
    KinStep c s s' := by
  obtain ⟨k', hs, rfl⟩ := Option.map_eq_some_iff.mp h
  exact .step s.2 hs

/-- `sys_wait` gives no process back whose pid is the father's of another one. -/
def ReapsChildless (c : Call) (s : System × Kin (Fin pcbMax)) : Prop :=
  c.event = .wait → ∀ p, s.1.reaped = some p → (s.1.pcblist p).pid ≠ 0 →
    ¬ ∃ q, q ≠ 0 ∧ q ≠ p ∧ (s.1.pcblist q).pstate ≠ .free ∧
      (s.1.pcblist q).fatherPid = (s.1.pcblist p).pid

instance (c : Call) (s : System × Kin (Fin pcbMax)) : Decidable (ReapsChildless c s) :=
  inferInstanceAs (Decidable (c.event = .wait → ∀ p, s.1.reaped = some p → (s.1.pcblist p).pid ≠ 0 →
    ¬ ∃ q, q ≠ 0 ∧ q ≠ p ∧ (s.1.pcblist q).pstate ≠ .free ∧
      (s.1.pcblist q).fatherPid = (s.1.pcblist p).pid))

lemma Step.keepsFathers_iff (hk : Sane k) (hs : Step c k k') (b : Kin (Fin pcbMax)) :
    k.table.KeepsFathers 0 k'.table ↔ ReapsChildless c (k, b) := by
  constructor
  · intro hkeep hwait p hp h0
    cases c <;> cases hwait
    cases hs.stepped hk with
    | waitFails hnone =>
      rw [hnone] at hp
      cases hp
    | reap hr hz _ =>
      obtain rfl := Option.some_inj.mp (hp.symm.trans hr)
      refine hkeep p (fun hfree => ?_) ?_ h0
      · rw [show (k.pcblist p).pstate = .free from hfree] at hz
        cases hz
      · rw [System.table_setPcb, Table.put_self]
  · intro hgood p hbusy hfree h0
    obtain ⟨hwait, -⟩ := ((hs.refines hk).1.busy hbusy).resolve_left fun hne => hne hfree
    refine hgood hwait p ?_ h0
    cases c <;> cases hwait
    cases hs.stepped hk with
    | waitFails => exact absurd hfree hbusy
    | @reap r hr _ _ =>
      by_cases hpr : p = r
      · rw [hpr]
        exact hr
      · rw [System.table_setPcb, Table.put_of_ne hpr] at hfree
        exact absurd hfree hbusy

lemma boot_related : (boot pagedir mem fileList disk keyboard).table.Related 0 Kin.init := by
  rw [boot_table]
  exact fun p hp hbusy => absurd (if_neg hp) hbusy

/-- **When fathers stay**: in every run in which `sys_wait` gives no process back that has a child,
the next state is as it should be exactly if the next step gives none back either; and `sys_wait`
finds only children that the process itself has forked. -/
theorem parents_valid_iff {b : Kin (Fin pcbMax)}
    (hrun : Run KinStep ReapsChildless (boot pagedir mem fileList disk keyboard, Kin.init) h (k, b)) :
    ParentsValid k ∧
      (∀ p, k.reaped = some p → (k.pcblist p).pid ≠ 0 → b.father p = b.birth k.current) ∧
      ∀ c k' b', KinStep c (k, b) (k', b') → (ParentsValid k' ↔ ReapsChildless c (k, b)) := by
  obtain ⟨hk, hrel⟩ := hrun.inv (fun s => Sane s.1 ∧ s.1.table.Related 0 s.2)
    ⟨boot_sane, boot_related⟩ fun c s s' ⟨hk, hrel⟩ hgood hs => by
      cases hs with
      | step b hs =>
        exact ⟨hk.step hs, hrel.step hk.table (hs.refines hk).1 ((hs.keepsFathers_iff hk b).mpr hgood)⟩
  refine ⟨hrel.linked, fun p hp h0 => ?_, fun c k' b' hs => ?_⟩
  · unfold System.reaped at hp
    split at hp
    · cases hp
    · have hdead := zombieChild_spec hp
      exact hrel.father_eq hk.table hdead.2 hdead.1 h0
  · cases hs with
    | step b hs =>
      have ht := (hs.refines hk).1
      rw [← hs.keepsFathers_iff hk b]
      exact ⟨fun hv => by_contra fun hkeep => ht.not_linked hk.table hkeep hv,
        fun hkeep => (hrel.step hk.table ht hkeep).linked⟩

end Claims

/-! ### Short runs -/

/-- Empty memory, an empty disk and no open file. -/
def emptyBoot : System := boot 0xc0020000 ⟨fun _ => 0, 0⟩ (fun _ => ⟨0, 0, 0, 0, false⟩) (fun _ => 0) .init

/-- The calls of a history, without an exit of process 0. -/
abbrev performNotRoot : List Call → System → Option System := runGuarded NotRoot Call.perform

lemma run_performNotRoot {h : List Call} {k k' : System} (hk : performNotRoot h k = some k') :
    Run Step NotRoot k h k' := run_runGuarded (fun _ _ _ hs => hs) hk

/-- A run that has come to `k₁` goes on. -/
lemma exists_performNotRoot {P : System → Prop} [DecidablePred P] {h : List Call} {k k₁ : System}
    (h' : List Call) (hk : performNotRoot h k = some k₁)
    (ho : (performNotRoot (h' ++ h) k).any (fun k => decide (P k)) = true) :
    ∃ k₂, performNotRoot (h' ++ h) k = some k₂ ∧ performNotRoot h' k₁ = some k₂ ∧ P k₂ := by
  obtain ⟨k₂, hk₂, hP⟩ := exists_of_any ho
  refine ⟨k₂, hk₂, ?_, hP⟩
  have happ : performNotRoot (h' ++ h) k = (performNotRoot h k).bind (performNotRoot h') :=
    runAll_append h h' k
  rwa [happ, hk, Option.bind_some] at hk₂

/-- A child of process 0 is forked, is switched to and exits. -/
def exited : List Call := [.exit, .timer userFrame, .fork userFrame]

/-- A child of process 0 forks and exits, and process 0 waits for it. -/
def orphaned : List Call := [.wait, .exit, .fork userFrame, .timer userFrame, .fork userFrame]

theorem pids_unique_orphaned : ∃ k, performNotRoot orphaned emptyBoot = some k ∧ PidsUnique k := by
  obtain ⟨k, hk, -⟩ := exists_of_any (P := fun _ => True) (o := performNotRoot orphaned emptyBoot)
    (by decide +kernel)
  exact ⟨k, hk, pids_unique (run_performNotRoot hk)⟩

theorem zombies_stay_dead_exited : ∃ k, performNotRoot exited emptyBoot = some k ∧
    (k.pcblist 1).pstate = .zombie ∧ (k.proc.pstate = .running ∨ k.proc.pstate = .runnable) := by
  obtain ⟨k, hk, hz⟩ := exists_of_any (P := fun k => (k.pcblist 1).pstate = .zombie)
    (o := performNotRoot exited emptyBoot) (by decide +kernel)
  exact ⟨k, hk, hz, (zombies_stay_dead (run_performNotRoot hk)).1⟩

/-- After an exit nobody is marked as running. -/
theorem nobody_running : ¬ ∀ h k, Run Step NotRoot emptyBoot h k → OneRunning k := by
  intro hall
  obtain ⟨k, hk, hbad⟩ := exists_of_any (P := fun k => ¬ OneRunning k)
    (o := performNotRoot exited emptyBoot) (by decide +kernel)
  exact hbad (hall _ _ (run_performNotRoot hk))

theorem one_running_iff_switched :
    ∃ k, performNotRoot (.timer userFrame :: exited) emptyBoot = some k ∧ OneRunning k := by
  obtain ⟨k, hk, -⟩ := exists_of_any (P := fun _ => True)
    (o := performNotRoot (.timer userFrame :: exited) emptyBoot) (by decide +kernel)
  exact ⟨k, hk, (one_running_iff (run_performNotRoot hk)).mpr rfl⟩

/-- The grandchild is left with the pid of a father that is gone. -/
theorem orphan_left : ¬ ∀ h k, Run Step (fun _ _ => True) emptyBoot h k → ParentsValid k := by
  intro hall
  obtain ⟨k, hk, hbad⟩ := exists_of_any (P := fun k => ¬ ParentsValid k)
    (o := runAll Call.perform orphaned emptyBoot) (by decide +kernel)
  exact hbad (hall _ _ (run_runAll (fun _ _ _ hs => hs) hk))

/-- The child of process 0 exits without one of its own, and process 0 waits for it. -/
def childless : List Call := [.wait, .exit, .timer userFrame, .fork userFrame]

theorem parents_valid_iff_forked : ∃ s, runGuarded ReapsChildless Call.performKin childless
    (emptyBoot, Kin.init) = some s ∧ (s.1.pcblist 1).pstate = .free ∧ ParentsValid s.1 := by
  obtain ⟨⟨k, b⟩, hs, hfree⟩ := exists_of_any
    (P := fun s : System × Kin (Fin pcbMax) => (s.1.pcblist 1).pstate = .free)
    (o := runGuarded ReapsChildless Call.performKin childless (emptyBoot, Kin.init)) (by decide +kernel)
  exact ⟨(k, b), hs, hfree, (parents_valid_iff (run_runGuarded (fun _ _ _ => kinStep_of_performKin) hs)).1⟩

end Nbos.Process
