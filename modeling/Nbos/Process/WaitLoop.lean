import Nbos.Kernel.Gate
import Nbos.Process.Children

/-!
# The loop of `sys_wait`

`sys_wait` step by step, with the interrupts that may come between. The gate of the system calls turns
them off, so that there are none, and the loop ends if its first scan does: `waitEnds_iff`.
-/

namespace Nbos.Process

open Nbos.Lib Nbos.Kernel Nbos.Device

/-! ### The loop -/

/-- Where a process is in `sys_wait`: before the check, at the head of the inner loop with `pid` and
`i`, or out of it, by a return or by a switch to another process. -/
inductive Point where
  | entry
  | scan (pid i : ℕ)
  | returned (r : ℤ)
  | dispatched (p : Fin pcbMax)
  deriving DecidableEq

/-- The kernel with a process in `sys_wait`, and the interrupt flag. -/
structure Waiting where
  system : System
  intFlag : Bool
  point : Point

/-- `sys_wait` is over, or others have the processor. -/
def Waiting.Left (w : Waiting) : Prop :=
  (∃ r, w.point = .returned r) ∨ ∃ p, w.point = .dispatched p

/-- One step of `sys_wait`. -/
def Waiting.advance (w : Waiting) : Waiting :=
  let k := w.system
  match w.point with
  | .entry =>
    let pid := k.proc.pid
    if haveChildren pid k = 0 then { w with point := .returned (-1) }
    else { w with point := .scan pid 0 }
  | .scan pid i =>
    if h : i < pcbMax then
      let p := k.pcblist ⟨i, h⟩
      if p.fatherPid ≠ pid then { w with point := .scan pid (i + 1) }
      else if p.pstate = .zombie then
        { w with
          system := k.setPcb ⟨i, h⟩ { p with
            pagedir := 0
            pstate := .free
            fatherPid := 0
            pid := 0
            nextVirAddr := 0 }
          point := .returned p.pid }
      else { w with point := .scan pid (i + 1) }
    else
      -- the outer loop starts over
      { w with point := .scan pid 0 }
  | .returned _ => w
  | .dispatched _ => w

/-- A step of `sys_wait`, or an interrupt where they are on. -/
inductive Waiting.Step : Waiting → Waiting → Prop
  | code (w : Waiting) : Waiting.Step w w.advance
  | idle {w : Waiting} (ptr : IntrContext) {k' : System} : w.intFlag = true → ¬ w.Left →
      doTimerHandler ptr w.system = (k', none) → Waiting.Step w { w with system := k' }
  | timer {w : Waiting} (ptr : IntrContext) {k' : System} {p : Fin pcbMax} : w.intFlag = true →
      ¬ w.Left → doTimerHandler ptr w.system = (k', some p) →
        Waiting.Step w { w with system := k', point := .dispatched p }
  | key {w : Waiting} (code : UInt8) {keyboard : Keyboard} : w.intFlag = true → ¬ w.Left →
      handleCode code w.system.keyboard = some keyboard →
        Waiting.Step w { w with system := { w.system with keyboard := keyboard } }

/-- A call of `sys_wait`, through the gate of the system calls. -/
def waitCalled (handler : Fin idtEntries → UInt32) (intFlag : Bool) (k : System) : Waiting :=
  ⟨k, (initInterrupt handler 128).enter intFlag, .entry⟩

/-- Nothing else changes the kernel before `sys_wait` is left, and it is left. -/
structure WaitEnds (w : Waiting) : Prop where
  undisturbed : ∀ p, Trace Waiting.Step w p → ∀ n, ¬ (p n).Left → (p n).system = w.system
  ends : Inevitable Waiting.Step Waiting.Left w

/-! ### One step -/

/-- With interrupts off, the kernel `k` is untouched as long as `sys_wait` goes on. -/
structure Masked (k : System) (w : Waiting) : Prop where
  off : w.intFlag = false
  same : ¬ w.Left → w.system = k

section Loop

variable {k k' : System} {w w' : Waiting} {b : Bool} {pid i j n : ℕ} {r : ℤ}

lemma left_returned : Waiting.Left ⟨k, b, .returned r⟩ := .inl ⟨r, rfl⟩

lemma not_left_entry : ¬ Waiting.Left ⟨k, b, .entry⟩ := by
  rintro (⟨r, h⟩ | ⟨p, h⟩) <;> cases h

lemma not_left_scan : ¬ Waiting.Left ⟨k, b, .scan pid i⟩ := by
  rintro (⟨r, h⟩ | ⟨p, h⟩) <;> cases h

/-- The slot `i` is skipped. -/
def Skipped (pid : ℕ) (k : System) (i : ℕ) : Prop :=
  ∀ h : i < pcbMax, (k.pcblist ⟨i, h⟩).fatherPid = pid → (k.pcblist ⟨i, h⟩).pstate ≠ .zombie

lemma advance_skip (hi : i < pcbMax) (h : Skipped pid k i) :
    Waiting.advance ⟨k, b, .scan pid i⟩ = ⟨k, b, .scan pid (i + 1)⟩ := by
  simp only [Waiting.advance, dif_pos hi]
  by_cases hf : (k.pcblist ⟨i, hi⟩).fatherPid = pid
  · rw [if_neg (not_not.mpr hf), if_neg (h hi hf)]
  · rw [if_pos hf]

lemma advance_again (hi : ¬ i < pcbMax) :
    Waiting.advance ⟨k, b, .scan pid i⟩ = ⟨k, b, .scan pid 0⟩ := by
  simp only [Waiting.advance, dif_neg hi]

/-- The code itself does not touch the kernel and go on. -/
lemma advance_same (h : ¬ w.advance.Left) : w.advance.system = w.system ∧ ¬ w.Left := by
  obtain ⟨k, b, point⟩ := w
  cases point with
  | entry =>
    refine ⟨?_, not_left_entry⟩
    simp only [Waiting.advance]
    split <;> rfl
  | scan pid i =>
    refine ⟨?_, not_left_scan⟩
    simp only [Waiting.advance] at h ⊢
    split_ifs at h ⊢ with hi hf hz
    · rfl
    · exact absurd left_returned h
    · rfl
    · rfl
  | returned r => exact absurd left_returned h
  | dispatched p => exact absurd (.inr ⟨p, rfl⟩) h

lemma advance_intFlag : w.advance.intFlag = w.intFlag := by
  obtain ⟨k, b, point⟩ := w
  cases point <;> simp only [Waiting.advance] <;> split_ifs <;> rfl

/-- **With interrupts off there is nothing but the code.** -/
lemma determined : Determined Waiting.Step (Masked k) Waiting.advance := by
  refine ⟨fun w _ => .code w, fun w w' hw hs => ?_, fun w hw => ⟨?_, fun hleft => ?_⟩⟩
  · cases hs with
    | code => rfl
    | idle ptr hon => exact absurd hon (by simp [hw.off])
    | timer ptr hon => exact absurd hon (by simp [hw.off])
    | key code hon => exact absurd hon (by simp [hw.off])
  · rw [advance_intFlag, hw.off]
  · obtain ⟨hsame, hbefore⟩ := advance_same hleft
    rw [hsame, hw.same hbefore]

/-! ### The whole loop -/

lemma iterate_skip (hi : i ≤ pcbMax) (h : ∀ j < i, Skipped pid k j) :
    Waiting.advance^[i] ⟨k, b, .scan pid 0⟩ = ⟨k, b, .scan pid i⟩ := by
  induction i with
  | zero => rfl
  | succ i ih =>
    rw [Function.iterate_succ_apply', ih (by omega) fun j hj => h j (by omega)]
    exact advance_skip (by omega) (h i (by omega))

/-- Where no slot ends it, the scan goes round. -/
lemma iterate_spins (h : ∀ j, Skipped pid k j) (n : ℕ) :
    ∃ i, Waiting.advance^[n] ⟨k, b, .scan pid 0⟩ = ⟨k, b, .scan pid i⟩ := by
  induction n with
  | zero => exact ⟨0, rfl⟩
  | succ n ih =>
    obtain ⟨i, hi⟩ := ih
    rw [Function.iterate_succ_apply', hi]
    by_cases hlt : i < pcbMax
    · exact ⟨i + 1, advance_skip hlt (h i)⟩
    · exact ⟨0, advance_again hlt⟩

/-- **What `sys_wait` returns, its loop comes to.** -/
theorem sysWait_iterate (h : sysWait k = some (r, k')) :
    ∃ n, Waiting.advance^[n] ⟨k, b, .entry⟩ = ⟨k', b, .returned r⟩ := by
  by_cases hc : haveChildren k.proc.pid k = 0
  · rw [sysWait, if_pos hc] at h
    obtain ⟨rfl, rfl⟩ := Prod.mk.inj (Option.some_inj.mp h)
    refine ⟨1, ?_⟩
    simp only [Function.iterate_one, Waiting.advance, if_pos hc]
  · simp only [sysWait, if_neg hc] at h
    obtain ⟨i, hi, he⟩ := Option.map_eq_some_iff.mp h
    obtain ⟨rfl, rfl⟩ := Prod.mk.inj he
    have hdead := zombieChild_eq_some.mp hi
    have hskip : ∀ j < (i : ℕ), Skipped k.proc.pid k j := fun j hj hlt hf hz =>
      hdead.first ⟨j, hlt⟩ hj ⟨hf, hz⟩
    refine ⟨i + 1 + 1, ?_⟩
    rw [Function.iterate_succ_apply, Waiting.advance]
    simp only [if_neg hc]
    rw [Function.iterate_succ_apply', iterate_skip i.isLt.le hskip]
    simp only [Waiting.advance, dif_pos i.isLt, Fin.eta, hdead.father, hdead.zombie, ne_eq,
      not_true_eq_false, if_false, if_true]

/-- **What it does not return it never comes to.** -/
theorem not_left_of_none (h : sysWait k = none) (n : ℕ) :
    ¬ (Waiting.advance^[n] ⟨k, b, .entry⟩).Left := by
  have hc : haveChildren k.proc.pid k ≠ 0 := fun hc => by
    rw [sysWait, if_pos hc] at h
    cases h
  have hnone : zombieChild k.proc.pid k = none := by
    simp only [sysWait, if_neg hc] at h
    exact Option.map_eq_none_iff.mp h
  have hskip : ∀ j, Skipped k.proc.pid k j := fun j hj => zombieChild_eq_none.mp hnone ⟨j, hj⟩
  cases n with
  | zero => exact not_left_entry
  | succ n =>
    rw [Function.iterate_succ_apply, Waiting.advance]
    simp only [if_neg hc]
    obtain ⟨i, hi⟩ := iterate_spins (b := b) hskip n
    rw [hi]
    exact not_left_scan

lemma left_iff_sysWait :
    (∃ n, (Waiting.advance^[n] ⟨k, b, .entry⟩).Left) ↔ (sysWait k).isSome := by
  constructor
  · rintro ⟨n, hn⟩
    rw [← Option.ne_none_iff_isSome]
    intro hnone
    exact not_left_of_none hnone n hn
  · intro hsome
    obtain ⟨⟨r, k'⟩, h⟩ := Option.isSome_iff_exists.mp hsome
    obtain ⟨n, hn⟩ := sysWait_iterate (b := b) h
    exact ⟨n, hn ▸ left_returned⟩

lemma sysWait_isSome : (sysWait k).isSome ↔
    (∃! i, (k.pcblist i).fatherPid = k.proc.pid) ∨
      ∃ i, (k.pcblist i).fatherPid = k.proc.pid ∧ (k.pcblist i).pstate = .zombie := by
  rw [← haveChildren_eq_zero]
  by_cases hc : haveChildren k.proc.pid k = 0
  · rw [sysWait, if_pos hc]
    exact iff_of_true rfl (.inl hc)
  · simp only [sysWait, if_neg hc, Option.isSome_map]
    rw [or_iff_right hc, ← Option.ne_none_iff_isSome, Ne, zombieChild_eq_none]
    push Not
    rfl

end Loop

/-! ### Behind the gate -/

section Gate

variable {handler : Fin idtEntries → UInt32} {intFlag : Bool} {k : System}

lemma waitCalled_eq : waitCalled handler intFlag k = ⟨k, false, .entry⟩ := by
  rw [waitCalled, enter_initInterrupt]

lemma waitCalled_masked : Masked k (waitCalled handler intFlag k) := by
  rw [waitCalled_eq]
  exact ⟨rfl, fun _ => rfl⟩

/-- **When `sys_wait` does not spin forever**: it takes the caller for childless, or there is a
terminated child from the start. -/
theorem waitEnds_iff (handler : Fin idtEntries → UInt32) (intFlag : Bool) (k : System) :
    WaitEnds (waitCalled handler intFlag k) ↔
      (∃! i, (k.pcblist i).fatherPid = k.proc.pid) ∨
        ∃ i, (k.pcblist i).fatherPid = k.proc.pid ∧ (k.pcblist i).pstate = .zombie := by
  have hends : Inevitable Waiting.Step Waiting.Left (waitCalled handler intFlag k) ↔ (sysWait k).isSome := by
    rw [inevitable_iff_iterate determined waitCalled_masked, waitCalled_eq]
    exact left_iff_sysWait
  rw [← sysWait_isSome, ← hends]
  constructor
  · intro h
    exact h.ends
  · intro h
    refine ⟨fun p hp n hleft => ?_, h⟩
    have hn := hp.eq_iterate determined waitCalled_masked n
    have hkept : Masked k (p n) := by
      rw [hn]
      exact determined.iterate waitCalled_masked n
    rw [hkept.same hleft, waitCalled]

/-- A child of process 0 that has no child waits forever. -/
theorem wait_spins : ¬ ∀ handler intFlag h k, Run Step NotRoot emptyBoot h k →
    WaitEnds (waitCalled handler intFlag k) := by
  intro hall
  obtain ⟨k, hk, hnone⟩ := exists_of_any (P := fun k => sysWait k = none)
    (o := performNotRoot [.timer userFrame, .fork userFrame] emptyBoot) (by decide +kernel)
  obtain ⟨n, hn⟩ := (inevitable_iff_iterate determined waitCalled_masked).mp
    (hall (fun _ => 0) true _ _ (run_performNotRoot hk)).ends
  rw [waitCalled_eq] at hn
  exact not_left_of_none hnone n hn

end Gate

end Nbos.Process
