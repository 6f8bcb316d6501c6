import Mathlib.Data.Option.Basic
import Mathlib.Logic.Function.Basic

/-!
# Shared resources

Names that refer to resources, several of them possibly to the same one. `want` says what a name is
held for, `ref` which resource it refers to and `val` what a resource is; `none` stands for a name
that is not held, a name that refers to nothing and a resource that is free. `Refs` says that every
name that is held refers to what it is held for.
-/

namespace Nbos.Lib

variable {ν ι ω : Type*}

/-- Every name that is held refers to a resource that is what the name is held for. -/
def Refs (want : ν → Option ω) (ref : ν → Option ι) (val : ι → Option ω) : Prop :=
  ∀ n o, want n = some o → (ref n).bind val = some o

section Refs

variable {want want' : ν → Option ω} {ref ref' : ν → Option ι} {val val' : ι → Option ω} {N : Set ν}

/-- A name that is held for what another one was held for, and refers to what that one referred to. -/
lemma Refs.comap (h : Refs want ref val) (f : ν → ν) :
    Refs (fun n => want (f n)) (fun n => ref (f n)) val := fun n o => h (f n) o

/-- A free resource is taken for a name. -/
lemma Refs.add [DecidableEq ν] [DecidableEq ι] (h : Refs want ref val) {n : ν} {j : ι} {o : ω}
    (hfree : val j = none) :
    Refs (Function.update want n (some o)) (Function.update ref n (some j))
      (Function.update val j (some o)) := by
  intro m o' hm
  by_cases hmn : m = n
  · subst hmn
    rw [Function.update_self] at hm ⊢
    rw [Option.bind_some, Function.update_self, hm]
  · rw [Function.update_of_ne hmn] at hm ⊢
    obtain ⟨i, hi, ho⟩ := Option.bind_eq_some_iff.mp (h m o' hm)
    have hij : i ≠ j := by
      rintro rfl
      rw [hfree] at ho
      cases ho
    rw [hi, Option.bind_some, Function.update_of_ne hij, ho]

/-- **Giving resources back** that the names in `N` refer to is right for the other names exactly if
none that is held refers to one of them. -/
theorem refs_release_iff (h : Refs want ref val) (hN : ∀ n ∈ N, want' n = none)
    (hwant : ∀ n ∉ N, want' n = want n) (href : ∀ n ∉ N, ref' n = ref n)
    (hfree : ∀ j, (∃ n ∈ N, ref n = some j) → val' j = none)
    (hval : ∀ j, (¬ ∃ n ∈ N, ref n = some j) → val' j = val j) :
    Refs want' ref' val' ↔ ∀ n ∉ N, want n ≠ none → ∀ m ∈ N, ref n ≠ ref m := by
  constructor
  · intro h' n hn hheld m hm he
    obtain ⟨o, ho⟩ := Option.ne_none_iff_exists'.mp hheld
    obtain ⟨j, hj, -⟩ := Option.bind_eq_some_iff.mp (h n o ho)
    have hnow := h' n o ((hwant n hn).trans ho)
    rw [href n hn, hj, Option.bind_some, hfree j ⟨m, hm, he.symm.trans hj⟩] at hnow
    cases hnow
  · intro hapart n o ho
    have hn : n ∉ N := fun hn => by
      rw [hN n hn] at ho
      cases ho
    rw [hwant n hn] at ho
    obtain ⟨j, hj, hjo⟩ := Option.bind_eq_some_iff.mp (h n o ho)
    have hkept : ¬ ∃ m ∈ N, ref m = some j := fun ⟨m, hm, he⟩ =>
      hapart n hn (by rw [ho]; exact Option.some_ne_none o) m hm (hj.trans he.symm)
    rw [href n hn, hj, Option.bind_some, hval j hkept, hjo]

end Refs

end Nbos.Lib
