import Mathlib.Data.List.Basic
import Mathlib.Logic.Function.Iterate

/-!
# Runs

Runs of a labelled step relation. `Run step G s₀ h s` is a run from `s₀` to `s` every step of which
is admitted by the guard `G`, a condition on the label and on the state before the step. `h` is the
history of the run, its labels with the last one first. `Inevitable step P s₀` says of the infinite paths
from `s₀` that each of them comes to `P`.
-/

namespace Nbos.Lib

section Run

variable {α β σ τ : Type*}

/-- A guarded run, with its history. -/
inductive Run (step : α → σ → σ → Prop) (G : α → σ → Prop) (s₀ : σ) : List α → σ → Prop
  | nil : Run step G s₀ [] s₀
  | cons {h : List α} {s s' : σ} {a : α} :
      Run step G s₀ h s → G a s → step a s s' → Run step G s₀ (a :: h) s'

variable {step : α → σ → σ → Prop} {step' : α → τ → τ → Prop} {G G' : α → σ → Prop} {s₀ s : σ}
  {h : List α}

/-- **The run rule.** What holds at the start and is kept by every step that the guard admits holds
along the run. -/
theorem Run.inv (P : σ → Prop) (hrun : Run step G s₀ h s) (h0 : P s₀)
    (hstep : ∀ a s s', P s → G a s → step a s s' → P s') : P s := by
  induction hrun with
  | nil => exact h0
  | cons _ hG hs ih => exact hstep _ _ _ ih hG hs

/-- The rule for what depends on the history too. -/
theorem Run.inv_history (P : List α → σ → Prop) (hrun : Run step G s₀ h s) (h0 : P [] s₀)
    (hstep : ∀ a l s s', P l s → G a s → step a s s' → P (a :: l) s') : P h s := by
  induction hrun with
  | nil => exact h0
  | cons _ hG hs ih => exact hstep _ _ _ _ ih hG hs

/-- A run that goes on. -/
theorem Run.append {h' : List α} {s' : σ} (hrun : Run step G s₀ h s) (hrun' : Run step G s h' s') :
    Run step G s₀ (h' ++ h) s' := by
  induction hrun' with
  | nil => exact hrun
  | cons _ hG hs ih => exact .cons ih hG hs

/-- A weaker guard admits the run as well. -/
theorem Run.mono (hrun : Run step G s₀ h s) (hG : ∀ a s, G a s → G' a s) :
    Run step G' s₀ h s := by
  induction hrun with
  | nil => exact .nil
  | cons _ hg hs ih => exact .cons ih (hG _ _ hg) hs

/-- A guard that looks at the labels only can be checked on the history. -/
theorem Run.of_labels (hrun : Run step G s₀ h s) (hG : ∀ a ∈ h, ∀ s, G' a s) :
    Run step G' s₀ h s := by
  induction hrun with
  | nil => exact .nil
  | cons _ _ hs ih =>
    exact .cons (ih fun a ha => hG a (List.mem_cons_of_mem _ ha)) (hG _ (List.mem_cons_self ..) _) hs

/-- What a step does to a part of the state is a step itself. -/
theorem Run.map (f : σ → τ) (hrun : Run step G s₀ h s)
    (hstep : ∀ a s s', step a s s' → step' a (f s) (f s')) :
    Run step' (fun _ _ => True) (f s₀) h (f s) := by
  induction hrun with
  | nil => exact .nil
  | cons _ _ hs ih => exact .cons ih trivial (hstep _ _ _ hs)

/-- The labels of a history performed one after the other, by a step that is a function. -/
def runAll (perform : α → σ → Option σ) : List α → σ → Option σ
  | [], s => some s
  | a :: h, s => (runAll perform h s).bind (perform a)

theorem run_runAll {perform : α → σ → Option σ}
    (hstep : ∀ a s s', perform a s = some s' → step a s s') (hs : runAll perform h s₀ = some s) :
    Run step (fun _ _ => True) s₀ h s := by
  induction h generalizing s with
  | nil =>
    obtain rfl := Option.some_inj.mp hs
    exact .nil
  | cons a h ih =>
    obtain ⟨t, ht, hs⟩ := Option.bind_eq_some_iff.mp hs
    exact .cons (ih ht) trivial (hstep a t s hs)

/-- The same, as long as a guard admits the next label. -/
def runGuarded (G : α → σ → Prop) [∀ a s, Decidable (G a s)] (perform : α → σ → Option σ) :
    List α → σ → Option σ :=
  runAll fun a s => if G a s then perform a s else none

theorem run_runGuarded {perform : α → σ → Option σ} [∀ a s, Decidable (G a s)]
    (hstep : ∀ a s s', perform a s = some s' → step a s s')
    (hs : runGuarded G perform h s₀ = some s) : Run step G s₀ h s := by
  induction h generalizing s with
  | nil =>
    obtain rfl := Option.some_inj.mp hs
    exact .nil
  | cons a h ih =>
    obtain ⟨t, ht, hs⟩ := Option.bind_eq_some_iff.mp hs
    simp only at hs
    split at hs
    · rename_i hG
      exact .cons (ih ht) hG (hstep a t s hs)
    · cases hs

theorem runAll_append {perform : α → σ → Option σ} (h h' : List α) (s : σ) :
    runAll perform (h' ++ h) s = (runAll perform h s).bind (runAll perform h') := by
  induction h' with
  | nil => exact (Option.bind_fun_some _).symm
  | cons a h' ih =>
    rw [List.cons_append, runAll, ih, Option.bind_assoc]
    rfl

/-- A result with `P` that is computed. -/
theorem exists_of_any {P : σ → Prop} [DecidablePred P] {o : Option σ}
    (ho : o.any (fun s => decide (P s)) = true) : ∃ s, o = some s ∧ P s := by
  cases o with
  | none => cases ho
  | some s => exact ⟨s, rfl, of_decide_eq_true ho⟩

/-- What the steps show that perform a history from `s` on, the last one first. -/
def observed (perform : α → σ → Option σ) (obs : α → σ → List β) : List α → σ → List β
  | [], _ => []
  | a :: h, s => (runAll perform h s).elim [] (obs a) ++ observed perform obs h s

/-- The rule for what a run shows. -/
theorem Run.inv_observed (perform : α → σ → Option σ) (obs : α → σ → List β) (P : List β → σ → Prop)
    (hrun : Run step G s₀ h s) (hperform : ∀ a s s', step a s s' → perform a s = some s') (h0 : P [] s₀)
    (hstep : ∀ a l s s', P l s → G a s → step a s s' → P (obs a s ++ l) s') :
    P (observed perform obs h s₀) s := by
  refine (hrun.inv_history (fun h s => runAll perform h s₀ = some s ∧ P (observed perform obs h s₀) s)
    ⟨rfl, h0⟩ ?_).2
  rintro a h s s' ⟨hs, hP⟩ hG hstep'
  refine ⟨?_, ?_⟩
  · rw [runAll, hs]
    exact hperform a s s' hstep'
  · rw [observed, hs]
    exact hstep a _ s s' hP hG hstep'

end Run

/-! ### Infinite paths -/

section Trace

variable {σ : Type*} {step : σ → σ → Prop} {p : ℕ → σ} {s₀ : σ} {I P : σ → Prop} {f : σ → σ}

/-- An infinite path. -/
structure Trace (step : σ → σ → Prop) (s₀ : σ) (p : ℕ → σ) : Prop where
  start : p 0 = s₀
  next : ∀ n, step (p n) (p (n + 1))

/-- Every path comes to a state with `P`. -/
def Inevitable (step : σ → σ → Prop) (P : σ → Prop) (s₀ : σ) : Prop :=
  ∀ p, Trace step s₀ p → ∃ n, P (p n)

/-- While `I` holds the steps are those of the function `f`, and keep it. -/
structure Determined (step : σ → σ → Prop) (I : σ → Prop) (f : σ → σ) : Prop where
  moves : ∀ s, I s → step s (f s)
  unique : ∀ s s', I s → step s s' → s' = f s
  keeps : ∀ s, I s → I (f s)

lemma Determined.iterate (hf : Determined step I f) (h0 : I s₀) (n : ℕ) : I (f^[n] s₀) := by
  induction n with
  | zero => exact h0
  | succ n ih =>
    rw [Function.iterate_succ_apply']
    exact hf.keeps _ ih

/-- There is one path only. -/
theorem Trace.eq_iterate (hp : Trace step s₀ p) (hf : Determined step I f) (h0 : I s₀) (n : ℕ) :
    p n = f^[n] s₀ := by
  induction n with
  | zero => exact hp.start
  | succ n ih =>
    have hn := hp.next n
    rw [ih] at hn
    rw [Function.iterate_succ_apply']
    exact hf.unique _ _ (hf.iterate h0 n) hn

theorem Determined.trace (hf : Determined step I f) (h0 : I s₀) : Trace step s₀ fun n => f^[n] s₀ := by
  refine ⟨rfl, fun n => ?_⟩
  rw [Function.iterate_succ_apply']
  exact hf.moves _ (hf.iterate h0 n)

/-- **Where the steps are those of a function, every path ends as the one it iterates does.** -/
theorem inevitable_iff_iterate (hf : Determined step I f) (h0 : I s₀) :
    Inevitable step P s₀ ↔ ∃ n, P (f^[n] s₀) := by
  constructor
  · intro h
    exact h _ (hf.trace h0)
  · rintro ⟨n, hn⟩ p hp
    refine ⟨n, ?_⟩
    rw [hp.eq_iterate hf h0]
    exact hn

end Trace

end Nbos.Lib
