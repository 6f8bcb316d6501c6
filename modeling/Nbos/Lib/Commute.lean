import Mathlib.Data.Option.Basic

/-!
# Programs that do not see a change

A program is a partial function on states, and `P` a change of the state. `Commutes P f s` says that
`f` does in `P s` what it does in `s`, and leaves the change as it is: it neither reads nor writes what
`P` is about. Programs are put together with the rules for doing nothing (`skip`), for one program
after the other (`comp`) and for a value that is read (`read`).
-/

namespace Nbos.Lib

section Commutes

variable {σ β : Type*} {P : σ → σ} {f h : σ → Option σ} {s s' : σ}

/-- The change `P` of the state `s` makes no difference to `f`, and is still there afterwards. -/
def Commutes (P : σ → σ) (f : σ → Option σ) (s : σ) : Prop := f (P s) = (f s).map P

lemma Commutes.some (hf : Commutes P f s) (hs : f s = some s') : f (P s) = some (P s') := by
  rw [hf, hs, Option.map_some]

lemma Commutes.skip : Commutes P Option.some s := rfl

/-- One program after the other. -/
lemma Commutes.comp (hf : Commutes P f s) (hh : ∀ s', f s = Option.some s' → Commutes P h s') :
    Commutes P (fun s => (f s).bind h) s := by
  show (f (P s)).bind h = ((f s).bind h).map P
  rw [hf]
  cases hs : f s with
  | none => rfl
  | some s' => exact hh s' hs

/-- A value is read that `P` does not change, and the program goes on with it. -/
lemma Commutes.read {r : σ → Option β} {k : β → σ → Option σ} (hr : r (P s) = r s)
    (hk : ∀ v, r s = Option.some v → Commutes P (k v) s) :
    Commutes P (fun s => (r s).bind fun v => k v s) s := by
  show (r (P s)).bind (fun v => k v (P s)) = ((r s).bind fun v => k v s).map P
  rw [hr]
  cases hv : r s with
  | none => rfl
  | some v => exact hk v hv

end Commutes

end Nbos.Lib
