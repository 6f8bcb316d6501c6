import Mathlib.Data.Nat.Notation
import Mathlib.Data.List.Nodup
import Mathlib.Tactic.Common

/-!
# Chains

A chain is what a linked list looks like from its head: following `next` from `a` visits the nodes
of a list in order and arrives at `t`. What lies behind `t` is not part of it. The `next` of a node
is read only when the node is visited, so a chain survives every change off its nodes
(`Chain.congr`).
-/

namespace Nbos.Lib

/-- Following `next` from `a` visits `L` in order and then stands at `t`. -/
def Chain {α : Type*} (next : α → α) (a : α) : List α → α → Prop
  | [], t => a = t
  | p :: L, t => a = p ∧ Chain next (next p) L t

section Chain

variable {α : Type*} {next next' : α → α} {a b p t t' : α} {L K : List α}

@[simp] lemma chain_nil : Chain next a [] t ↔ a = t := Iff.rfl

@[simp] lemma chain_cons : Chain next a (p :: L) t ↔ a = p ∧ Chain next (next p) L t := Iff.rfl

lemma Chain.congr (h : Chain next a L t) (heq : ∀ p ∈ L, next' p = next p) :
    Chain next' a L t := by
  induction L generalizing a with
  | nil => exact h
  | cons p L ih =>
    obtain ⟨rfl, h⟩ := h
    refine ⟨rfl, ?_⟩
    rw [heq a (List.mem_cons_self ..)]
    exact ih h fun q hq => heq q (List.mem_cons_of_mem _ hq)

/-- The end of a chain is in every set that holds its start and all that `next` leads to. -/
lemma Chain.end_of_closed {S : α → Prop} (h : Chain next a L t) (ha : S a)
    (hS : ∀ q, S (next q)) : S t := by
  induction L generalizing a with
  | nil =>
    obtain rfl : a = t := h
    exact ha
  | cons p L ih => exact ih h.2 (hS p)

/-- The list of a chain is determined by where it starts and where it first stops. -/
lemma Chain.unique (h : Chain next a L t) (h' : Chain next a K t) (hL : t ∉ L) (hK : t ∉ K) :
    L = K := by
  induction L generalizing a K with
  | nil =>
    cases K with
    | nil => rfl
    | cons q K =>
      obtain rfl : a = t := h
      exact absurd (h'.1 ▸ List.mem_cons_self ..) hK
  | cons p L ih =>
    cases K with
    | nil =>
      obtain rfl : a = t := h'
      exact absurd (h.1 ▸ List.mem_cons_self ..) hL
    | cons q K =>
      obtain ⟨rfl, h⟩ := h
      obtain ⟨rfl, h'⟩ := h'
      rw [ih h h' (fun hm => hL (List.mem_cons_of_mem _ hm))
        (fun hm => hK (List.mem_cons_of_mem _ hm))]

end Chain

end Nbos.Lib
