import Nbos.Device.Screen

/-!
# Numbers on the screen

`printn` prints a word as eight digits, for which `num2ascii` fills a buffer. `hexValue` reads digits:
a word that is printed is read again (`hexValue_printn`).
-/

namespace Nbos.Device.Print

open Nbos.Lib Nbos.Kernel

/-! ### The source -/

/-- `a + (a < 10 ? 48 : 55)`. -/
def hexDigit (a : ℕ) : UInt8 := .ofNat (a + if a < 10 then 48 else 55)

/-- `num2ascii`. -/
def num2ascii (number : UInt32) (asciipos : Bytes) : Bytes :=
  let asciipos := forRange 8 (fun i asciipos =>
    let a := (number.toNat >>> (i * 4)) &&& 0x0000000f
    Function.update asciipos (7 - i) (hexDigit a)) asciipos
  Function.update asciipos 8 0

/-- The string that `printn` passes to `print`; `junk` is the buffer before. -/
def printn (junk : Bytes) (number : UInt32) : List UInt8 :=
  ((List.range 9).map (num2ascii number junk)).takeWhile (· ≠ 0)

/-- The digits of a word, most significant first. -/
def digits (m n : ℕ) : List UInt8 := (List.range m).map fun k => hexDigit (n / 16 ^ (m - 1 - k) % 16)

/-! ### Reading digits -/

/-- The value of a digit. -/
def digitValue (c : UInt8) : ℕ := if c < 58 then c.toNat - 48 else c.toNat - 55

/-- The number that digits stand for. -/
def hexValue (text : List UInt8) : ℕ := text.foldl (fun v c => 16 * v + digitValue c) 0

/-- A digit, or one of the letters A to F. -/
def IsHex (c : UInt8) : Prop := 48 ≤ c ∧ c ≤ 57 ∨ 65 ≤ c ∧ c ≤ 70

instance : DecidablePred IsHex := fun c => by unfold IsHex; infer_instance

section Digits

variable {a k m n : ℕ} {number number' : UInt32} {junk junk' : Bytes} {c : UInt8}

lemma digitValue_hexDigit (ha : a < 16) : digitValue (hexDigit a) = a := by
  have hall : ∀ a : Fin 16, digitValue (hexDigit a) = a := by decide
  exact hall ⟨a, ha⟩

lemma isHex_hexDigit (ha : a < 16) : IsHex (hexDigit a) := by
  have hall : ∀ a : Fin 16, IsHex (hexDigit a) := by decide
  exact hall ⟨a, ha⟩

lemma length_digits : (digits m n).length = m := by rw [digits, List.length_map, List.length_range]

lemma isHex_of_mem_digits (hc : c ∈ digits m n) : IsHex c := by
  obtain ⟨k, -, rfl⟩ := List.mem_map.mp hc
  exact isHex_hexDigit (Nat.mod_lt _ (by decide))

/-- The last digit, and those before it. -/
lemma digits_succ : digits (m + 1) n = digits m (n / 16) ++ [hexDigit (n % 16)] := by
  have hlast : n / 16 ^ (m + 1 - 1 - m) % 16 = n % 16 := by
    rw [Nat.add_sub_cancel, Nat.sub_self, Nat.pow_zero, Nat.div_one]
  rw [digits, List.range_succ, List.map_append, List.map_singleton, hlast, digits]
  congr 1
  refine List.map_congr_left fun k hk => ?_
  have hk := List.mem_range.mp hk
  rw [Nat.div_div_eq_div_mul, ← Nat.pow_succ', show m + 1 - 1 - k = m - 1 - k + 1 by omega]

/-- **The digits are read as the number**, as far as they go. -/
lemma hexValue_digits : hexValue (digits m n) = n % 16 ^ m := by
  induction m generalizing n with
  | zero => simp [digits, hexValue, Nat.mod_one]
  | succ m ih =>
    have hlast := digitValue_hexDigit (Nat.mod_lt n (show 16 > 0 by decide))
    have hstep : hexValue (digits m (n / 16) ++ [hexDigit (n % 16)]) =
        16 * hexValue (digits m (n / 16)) + n % 16 := by
      rw [hexValue, List.foldl_append, List.foldl_cons, List.foldl_nil, hlast, hexValue]
    rw [digits_succ, hstep, ih, Nat.pow_succ', Nat.mod_mul]
    omega

/-- What the loop of `num2ascii` has put in the buffer. -/
lemma num2ascii_of_lt (hk : k < 8) :
    num2ascii number junk k = hexDigit (number.toNat / 16 ^ (7 - k) % 16) := by
  have hdigit : ∀ i, (number.toNat >>> (i * 4)) &&& 0x0000000f = number.toNat / 16 ^ i % 16 := fun i => by
    rw [show 0x0000000f = 2 ^ 4 - 1 from rfl, Nat.and_two_pow_sub_one_eq_mod, Nat.shiftRight_eq_div_pow,
      Nat.mul_comm, Nat.pow_mul]
  rw [num2ascii]
  simp only [hdigit]
  rw [Function.update_of_ne (by omega)]
  -- the loop fills the buffer from its end
  refine forRange_inv (fun i (t : Bytes) => ∀ k < 8, 8 ≤ k + i →
    t k = hexDigit (number.toNat / 16 ^ (7 - k) % 16)) (fun k _ _ => by omega) ?_ k hk (by omega)
  intro i hi t ht k hk hki
  by_cases he : k = 7 - i
  · rw [he, Function.update_self, show 7 - (7 - i) = i by omega]
  · rw [Function.update_of_ne he]
    exact ht k hk (by omega)

/-- **What `printn` prints**: eight digits, whatever was in the buffer. -/
lemma printn_eq : printn junk number = digits 8 number.toNat := by
  have hend : num2ascii number junk 8 = 0 := by
    rw [num2ascii]
    exact Function.update_self ..
  have hlist : (List.range 9).map (num2ascii number junk) = digits 8 number.toNat ++ [0] := by
    rw [List.range_succ, List.map_append, List.map_singleton, hend, digits]
    congr 1
    exact List.map_congr_left fun k hk => num2ascii_of_lt (List.mem_range.mp hk)
  have hdigit : ∀ c ∈ digits 8 number.toNat, decide (c ≠ 0) = true := fun c hc => by
    have hhex := isHex_of_mem_digits hc
    rw [decide_eq_true_eq]
    rintro rfl
    exact absurd hhex (by decide)
  rw [printn, hlist, List.takeWhile_append_of_pos hdigit]
  simp

lemma length_printn : (printn junk number).length = 8 := by rw [printn_eq, length_digits]

/-- A word is read again from what is printed of it. -/
lemma hexValue_printn : hexValue (printn junk number) = number.toNat := by
  have hlt : number.toNat < 16 ^ 8 := number.toNat_lt
  rw [printn_eq, hexValue_digits, Nat.mod_eq_of_lt hlt]

lemma printn_inj (h : printn junk number = printn junk' number') : number = number' := by
  have hvalue := congrArg hexValue h
  rw [hexValue_printn, hexValue_printn] at hvalue
  exact UInt32.toNat_inj.mp hvalue

end Digits

end Nbos.Device.Print
