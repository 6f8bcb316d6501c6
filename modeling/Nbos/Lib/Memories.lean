import Mathlib.Data.Set.Basic
import Mathlib.Logic.Function.Basic

/-!
# Private memories

What address spaces are for: every process has a memory of its own. A store goes to the memory of one
process, a new process gets a copy of a memory, and nothing else changes any (`Memories.apply_of_ne`).
-/

namespace Nbos.Lib

/-- The memories of the processes `P`: what is at an address, if it is mapped. -/
abbrev Memories (P A V : Type*) := P → A → Option V

/-- What happens to them: a store of a process, a copy of the memory of one for another, a process
that begins with a memory from elsewhere. -/
inductive MemoryOp (P A V : Type*)
  | skip
  | store (p : P) (a : A) (v : V)
  | copy (father child : P)
  | start (p : P) (m : A → Option V)

/-- The process whose memory it is. -/
def MemoryOp.target {P A V : Type*} : MemoryOp P A V → Option P
  | .skip => none
  | .store p _ _ => some p
  | .copy _ child => some child
  | .start p _ => some p

/-- The process whose memory the new one depends on. -/
def MemoryOp.source {P A V : Type*} : MemoryOp P A V → Option P
  | .skip => none
  | .store p _ _ => some p
  | .copy father _ => some father
  | .start _ _ => none

namespace Memories

variable {P A V : Type*} [DecidableEq P] [DecidableEq A]

/-- The memories after an operation. -/
def apply (m : Memories P A V) : MemoryOp P A V → Memories P A V
  | .skip => m
  | .store p a v => Function.update m p (Function.update (m p) a (some v))
  | .copy father child => Function.update m child (m father)
  | .start p m' => Function.update m p m'

/-- The memories of the processes of `T` agree. -/
def SameOn (T : Set P) (m m' : Memories P A V) : Prop := ∀ p ∈ T, m p = m' p

section Lemmas

variable {m m' : Memories P A V} {o : MemoryOp P A V} {p father : P} {T : Set P}

/-- **A memory is private**: what is not done to a process leaves its memory as it was. -/
theorem apply_of_ne (h : o.target ≠ some p) : m.apply o p = m p := by
  cases o with
  | skip => rfl
  | store q a v => exact Function.update_of_ne (fun he => h (congrArg some he.symm)) ..
  | copy q q' => exact Function.update_of_ne (fun he => h (congrArg some he.symm)) ..
  | start q m' => exact Function.update_of_ne (fun he => h (congrArg some he.symm)) ..

lemma apply_copy_self : m.apply (.copy father p) p = m father := Function.update_self ..

/-- Memories that agree still do after an operation, and do on its process too. -/
theorem SameOn.apply (h : SameOn T m m') (hsource : ∀ p, o.source = some p → p ∈ T)
    (hp : p ∈ T ∨ o.target = some p) : m.apply o p = m'.apply o p := by
  by_cases ht : o.target = some p
  · cases o with
    | skip => cases ht
    | store q a v =>
      obtain rfl := Option.some_inj.mp ht
      simp only [Memories.apply, Function.update_self, h q (hsource q rfl)]
    | copy q q' =>
      obtain rfl := Option.some_inj.mp ht
      simp only [apply_copy_self, h q (hsource q rfl)]
    | start q m₀ =>
      obtain rfl := Option.some_inj.mp ht
      simp only [Memories.apply, Function.update_self]
  · rw [apply_of_ne ht, apply_of_ne ht]
    exact h p (hp.resolve_right ht)

end Lemmas

end Memories

end Nbos.Lib
