import Mathlib.Data.Nat.Notation
import Mathlib.Logic.Function.Basic
import Mathlib.Tactic.Common
import Mathlib.Tactic.Ring

/-!
# Byte stores

A byte store is a function from addresses to bytes. `overlay m a n f` writes the first `n` bytes of
the buffer `f` at `a`; every write of the development is one. `get32`, `put32` are the
little-endian words, `wordBytes` is the buffer of an array of words.
-/

namespace Nbos.Lib

/-- A byte store, and also a byte buffer: the byte at every address (offset). -/
abbrev Bytes := ℕ → UInt8

/-! ### Overlays -/

/-- `m` with the first `n` bytes of `f` written at `a`. -/
def overlay (m : Bytes) (a n : ℕ) (f : Bytes) : Bytes := fun x =>
  if a ≤ x ∧ x < a + n then f (x - a) else m x

section Overlay

variable {m f g : Bytes} {a n x k : ℕ}

lemma overlay_of_mem (h : a ≤ x) (h' : x < a + n) : overlay m a n f x = f (x - a) := by
  rw [overlay, if_pos ⟨h, h'⟩]

lemma overlay_of_not_mem (h : x < a ∨ a + n ≤ x) : overlay m a n f x = m x := by
  rw [overlay, if_neg (by omega)]

lemma overlay_add (h : k < n) : overlay m a n f (a + k) = f k := by
  rw [overlay_of_mem (by omega) (by omega), Nat.add_sub_cancel_left]

@[simp] lemma overlay_zero : overlay m a 0 f = m := by
  funext x
  exact overlay_of_not_mem (by omega)

lemma overlay_congr (h : ∀ k < n, f k = g k) : overlay m a n f = overlay m a n g := by
  funext x
  by_cases hx : a ≤ x ∧ x < a + n
  · rw [overlay_of_mem hx.1 hx.2, overlay_of_mem hx.1 hx.2, h _ (by omega)]
  · rw [overlay_of_not_mem (by omega), overlay_of_not_mem (by omega)]

/-- Writing what is already there changes nothing. -/
lemma overlay_eq_self (h : ∀ k < n, f k = m (a + k)) : overlay m a n f = m := by
  funext x
  by_cases hx : a ≤ x ∧ x < a + n
  · rw [overlay_of_mem hx.1 hx.2, h _ (by omega), Nat.add_sub_cancel' hx.1]
  · exact overlay_of_not_mem (by omega)

/-- More bytes of a buffer that is being written front to back. -/
lemma overlay_extend : overlay (overlay m a n f) (a + n) k (fun i => f (n + i)) = overlay m a (n + k) f := by
  funext x
  by_cases hx : a + n ≤ x ∧ x < a + n + k
  · rw [overlay_of_mem hx.1 hx.2, overlay_of_mem (by omega) (by omega)]
    exact congrArg f (by omega)
  · rw [overlay_of_not_mem (by omega)]
    by_cases h : a ≤ x ∧ x < a + n
    · rw [overlay_of_mem h.1 h.2, overlay_of_mem h.1 (by omega)]
    · rw [overlay_of_not_mem (by omega), overlay_of_not_mem (by omega)]

/-- One more byte of a buffer that is being written front to back. -/
lemma overlay_succ : overlay m a (n + 1) f = Function.update (overlay m a n f) (a + n) (f n) := by
  funext x
  by_cases hx : x = a + n
  · subst hx
    rw [Function.update_self, overlay_add (by omega)]
  · rw [Function.update_of_ne hx]
    by_cases h : a ≤ x ∧ x < a + n
    · rw [overlay_of_mem h.1 (by omega), overlay_of_mem h.1 h.2]
    · rw [overlay_of_not_mem (by omega), overlay_of_not_mem (by omega)]

end Overlay

/-! ### Little-endian words -/

/-- The bytes of a number, least significant first. -/
def leBytes (v : ℕ) : Bytes := fun k => UInt8.ofNat (v / 256 ^ k)

def get16 (m : Bytes) (a : ℕ) : ℕ := (m a).toNat + 256 * (m (a + 1)).toNat

def get32 (m : Bytes) (a : ℕ) : ℕ :=
  (m a).toNat + 256 * (m (a + 1)).toNat + 65536 * (m (a + 2)).toNat + 16777216 * (m (a + 3)).toNat

def put32 (m : Bytes) (a v : ℕ) : Bytes := overlay m a 4 (leBytes v)

section Words

variable {m m' f : Bytes} {a b n v x : ℕ}

lemma leBytes_toNat (v k : ℕ) : (leBytes v k).toNat = v / 256 ^ k % 256 := by
  simp [leBytes, UInt8.toNat_ofNat']

lemma get32_lt (m : Bytes) (a : ℕ) : get32 m a < 2 ^ 32 := by
  have h0 := (m a).toNat_lt
  have h1 := (m (a + 1)).toNat_lt
  have h2 := (m (a + 2)).toNat_lt
  have h3 := (m (a + 3)).toNat_lt
  unfold get32
  omega

lemma get32_congr (h : ∀ k < 4, m (a + k) = m' (b + k)) : get32 m a = get32 m' b := by
  have h0 := h 0 (by omega)
  simp only [Nat.add_zero] at h0
  rw [get32, get32, h0, h 1 (by omega), h 2 (by omega), h 3 (by omega)]

lemma get32_overlay_of_disjoint (h : b + 4 ≤ a ∨ a + n ≤ b) :
    get32 (overlay m a n f) b = get32 m b :=
  get32_congr fun _ _ => overlay_of_not_mem (by omega)

lemma get32_overlay_add (h : b + 4 ≤ n) : get32 (overlay m a n f) (a + b) = get32 f b :=
  get32_congr fun k hk => by rw [Nat.add_assoc, overlay_add (by omega)]

lemma get32_leBytes (v : ℕ) : get32 (leBytes v) 0 = v % 2 ^ 32 := by
  simp only [get32, leBytes_toNat]
  omega

@[simp] lemma get32_put32 : get32 (put32 m a v) a = v % 2 ^ 32 := by
  have h := get32_overlay_add (m := m) (a := a) (b := 0) (n := 4) (f := leBytes v) (by omega)
  rw [Nat.add_zero] at h
  rw [put32, h, get32_leBytes]

/-- The bytes of a word that has been read. -/
lemma leBytes_get32 {k : ℕ} (hk : k < 4) : leBytes (get32 m a) k = m (a + k) := by
  have h0 := (m a).toNat_lt
  have h1 := (m (a + 1)).toNat_lt
  have h2 := (m (a + 2)).toNat_lt
  have h3 := (m (a + 3)).toNat_lt
  rw [← UInt8.toNat_inj, leBytes_toNat, get32]
  obtain rfl | rfl | rfl | rfl : k = 0 ∨ k = 1 ∨ k = 2 ∨ k = 3 := by omega
  · show _ = (m a).toNat
    omega
  · omega
  · omega
  · omega

lemma get32_put32_of_disjoint (h : b + 4 ≤ a ∨ a + 4 ≤ b) : get32 (put32 m a v) b = get32 m b :=
  get32_overlay_of_disjoint h

lemma put32_of_not_mem (h : x < a ∨ a + 4 ≤ x) : put32 m a v x = m x := overlay_of_not_mem h

lemma get16_eq : get16 m a = get32 m a % 2 ^ 16 := by
  have h0 := (m a).toNat_lt
  have h1 := (m (a + 1)).toNat_lt
  unfold get16 get32
  omega

end Words

/-! ### Words one behind the other -/

/-- The words `ws` stand in memory from `a` on. -/
def WordsAt (m : Bytes) : ℕ → List UInt32 → Prop
  | _, [] => True
  | a, w :: ws => get32 m a = w.toNat ∧ WordsAt m (a + 4) ws

section WordsAt

variable {m m' : Bytes} {a b i v : ℕ} {ws : List UInt32}

lemma WordsAt.congr (h : WordsAt m a ws) (heq : ∀ x, a ≤ x → x < a + 4 * ws.length → m' x = m x) :
    WordsAt m' a ws := by
  induction ws generalizing a with
  | nil => trivial
  | cons w ws ih =>
    obtain ⟨hw, hrest⟩ := h
    rw [List.length_cons] at heq
    refine ⟨Eq.trans (get32_congr fun k hk => heq _ (by omega) (by omega)) hw, ih hrest ?_⟩
    intro x hx hx'
    exact heq x (by omega) (by omega)

lemma WordsAt.get (h : WordsAt m a ws) (hi : i < ws.length) :
    get32 m (a + 4 * i) = (ws.getD i 0).toNat := by
  induction ws generalizing a i with
  | nil => exact absurd hi (Nat.not_lt_zero i)
  | cons w ws ih =>
    obtain ⟨hw, hrest⟩ := h
    cases i with
    | zero => exact hw
    | succ i =>
      rw [List.length_cons] at hi
      have := ih hrest (i := i) (by omega)
      rwa [Nat.add_assoc, Nat.add_comm 4, ← Nat.mul_succ] at this

end WordsAt

/-! ### Arrays of words -/

/-- The buffer of an array of words. -/
def wordBytes (w : ℕ → ℕ) : Bytes := fun k => leBytes (w (k / 4)) (k % 4)

lemma get32_wordBytes (w : ℕ → ℕ) (i : ℕ) : get32 (wordBytes w) (4 * i) = w i % 2 ^ 32 := by
  rw [← get32_leBytes]
  refine get32_congr fun k hk => ?_
  rw [wordBytes, show (4 * i + k) / 4 = i by omega, show (4 * i + k) % 4 = 0 + k by omega]

/-- The words of a buffer have its bytes. -/
lemma wordBytes_get32 {w : ℕ → ℕ} {m : Bytes} {a k : ℕ} (h : w (k / 4) = get32 m (a + 4 * (k / 4))) :
    wordBytes w k = m (a + k) := by
  rw [wordBytes, h, leBytes_get32 (Nat.mod_lt _ (by omega)), Nat.add_assoc, Nat.div_add_mod]

end Nbos.Lib
