import Nbos.Lib.Run
import Mathlib.Data.Int.Notation
import Mathlib.Tactic.Common

/-!
# Scan codes

`getAscii` of `keyboard.c` with its tables. The status of the shift key is set by a press; on a release
the code compares it with 0 where it means to assign 0, and does not get there either, since a `char` is
signed. `translated_iff` says which keys are translated as the shift keys stand.
-/

namespace Nbos.Device

open Nbos.Lib

/-! ### The source -/

/-- `keymap`, by the rows of the keyboard. -/
def keymap : List UInt8 :=
  [0, 27, 49, 50, 51, 52, 53, 54, 55, 56, 57, 48, 45, 61, 8,
    9, 113, 119, 101, 114, 116, 121, 117, 105, 111, 112, 91, 93, 10,
    0, 97, 115, 100, 102, 103, 104, 106, 107, 108, 59, 39, 96,
    0, 92, 122, 120, 99, 118, 98, 110, 109, 44, 46, 47, 0,
    42, 0, 32, 0]

/-- `keymaps`, with shift. -/
def keymaps : List UInt8 :=
  [0, 27, 33, 64, 35, 36, 37, 94, 38, 42, 40, 41, 95, 43, 8,
    9, 81, 87, 69, 82, 84, 89, 85, 73, 79, 80, 123, 125, 10,
    0, 65, 83, 68, 70, 71, 72, 74, 75, 76, 58, 34, 126,
    0, 124, 90, 88, 67, 86, 66, 78, 77, 60, 62, 63, 0,
    42, 0, 32, 0]

abbrev lShiftMake : ℤ := 0x2a
abbrev rShiftMake : ℤ := 0x36

/-- A `char` in a comparison with an `int`. -/
def charValue (c : UInt8) : ℤ := Int.bmod c.toNat 256

/-- `isBreakCode`. -/
def isBreakCode (scancode : UInt8) : Bool := scancode &&& 0x80 ≠ 0

/-- `getAscii`, for the code from the controller: what it returns and `status_shift`. It returns `none`
when it reads behind a table. -/
def getAscii (scancode statusShift : UInt8) : Option UInt8 × UInt8 :=
  if isBreakCode scancode then
    if charValue scancode = lShiftMake + 0x80 ∨ charValue scancode = rShiftMake + 0x80 then
      -- `status_shift == 0;` assigns nothing
      (some 0, statusShift)
    else (some 0, statusShift)
  else if charValue scancode = lShiftMake ∨ charValue scancode = rShiftMake then (some 0, 1)
  else if statusShift = 1 then (keymaps[scancode.toNat]?, statusShift)
  else (keymap[scancode.toNat]?, statusShift)

/-! ### The shift keys -/

/-- The code of a press of a shift key. -/
def IsShift (c : UInt8) : Prop := c = 0x2a ∨ c = 0x36

/-- The code of a release of a shift key. -/
def IsShiftBreak (c : UInt8) : Prop := c = 0xaa ∨ c = 0xb6

instance : DecidablePred IsShift := fun c => inferInstanceAs (Decidable (c = 0x2a ∨ c = 0x36))
instance : DecidablePred IsShiftBreak := fun c => inferInstanceAs (Decidable (c = 0xaa ∨ c = 0xb6))

/-- The most recent event of a shift key was a press. The last code comes first. -/
def shiftHeld : List UInt8 → Bool
  | [] => false
  | c :: h => if IsShift c then true else if IsShiftBreak c then false else shiftHeld h

/-- What the code `c` is to give after the codes `h`: nothing for a release, and for a key of the tables
the character of the one that the shift keys select; no press reads behind a table. -/
structure Translated (h : List UInt8) (c statusShift : UInt8) : Prop where
  release : isBreakCode c → (getAscii c statusShift).1 = some 0
  press : ¬ isBreakCode c → ¬ IsShift c → c ≤ 0x3a →
    (getAscii c statusShift).1 = (if shiftHeld h then keymaps else keymap)[c.toNat]?
  inside : ¬ isBreakCode c → (getAscii c statusShift).1 ≠ none

/-- A release, or a press of a shift key, or of a key of the tables: a shift key is held, or none has
been pressed at all, or the key is the same with shift and without. -/
def Translatable (h : List UInt8) (c : UInt8) : Prop :=
  isBreakCode c ∨ IsShift c ∨ c ≤ 0x3a ∧
    (shiftHeld h ∨ (∀ b ∈ h, ¬ IsShift b) ∨ keymaps[c.toNat]? = keymap[c.toNat]?)

section ScanCode

variable {h : List UInt8} {c s : UInt8}

lemma isBreakCode_iff : isBreakCode c = true ↔ 128 ≤ c.toNat := by
  have hall : ∀ c : Fin 256, (isBreakCode (.ofNat c) = true ↔ 128 ≤ (c : ℕ)) := by
    decide +kernel
  have := hall ⟨c.toNat, c.toNat_lt⟩
  rwa [UInt8.ofNat_toNat] at this

lemma isShift_iff (hc : ¬ isBreakCode c) :
    IsShift c ↔ charValue c = lShiftMake ∨ charValue c = rShiftMake := by
  have hall : ∀ c : Fin 256, (c : ℕ) < 128 → (IsShift (.ofNat c) ↔
      charValue (.ofNat c) = lShiftMake ∨ charValue (.ofNat c) = rShiftMake) := by decide +kernel
  rw [isBreakCode_iff, Nat.not_le] at hc
  have := hall ⟨c.toNat, c.toNat_lt⟩ hc
  rwa [UInt8.ofNat_toNat] at this

lemma getAscii_break (hc : isBreakCode c) : getAscii c s = (some 0, s) := by
  rw [getAscii, if_pos hc, ite_self]

lemma getAscii_shift (hc : ¬ isBreakCode c) (hs : IsShift c) : getAscii c s = (some 0, 1) := by
  rw [getAscii, if_neg hc, if_pos ((isShift_iff hc).mp hs)]

lemma getAscii_key (hc : ¬ isBreakCode c) (hs : ¬ IsShift c) :
    getAscii c s = ((if s = 1 then keymaps else keymap)[c.toNat]?, s) := by
  rw [getAscii, if_neg hc, if_neg fun he => hs ((isShift_iff hc).mpr he)]
  split <;> rfl

lemma not_isBreakCode_of_isShift (hs : IsShift c) : ¬ isBreakCode c := by
  rcases hs with rfl | rfl <;> decide

/-- `status_shift` is 1 once a shift key has been pressed. -/
lemma status_eq (hrun : Run (fun c s s' => s' = (getAscii c s).2) (fun _ _ => True) 0 h s) :
    s = if ∃ b ∈ h, IsShift b then 1 else 0 := by
  refine hrun.inv_history (fun h s => s = if ∃ b ∈ h, IsShift b then 1 else 0) (by simp) ?_
  intro c h s s' hs _ hs'
  rw [hs']
  by_cases hc : isBreakCode c
  · have hn : ¬ IsShift c := fun h => not_isBreakCode_of_isShift h hc
    rw [getAscii_break hc, hs]
    simp only [List.exists_mem_cons_iff, hn, false_or]
  · by_cases hi : IsShift c
    · rw [getAscii_shift hc hi, if_pos ⟨c, List.mem_cons_self .., hi⟩]
    · rw [getAscii_key hc hi, hs]
      simp only [List.exists_mem_cons_iff, hi, false_or]

lemma exists_isShift_of_shiftHeld (hh : shiftHeld h) : ∃ b ∈ h, IsShift b := by
  induction h with
  | nil => cases hh
  | cons c h ih =>
    unfold shiftHeld at hh
    split at hh
    · rename_i hc
      exact ⟨c, List.mem_cons_self .., hc⟩
    split at hh
    · cases hh
    · obtain ⟨b, hb, hs⟩ := ih hh
      exact ⟨b, List.mem_cons_of_mem _ hb, hs⟩

/-- The tables end with the key `0x3a`. -/
lemma key_isSome_iff {b : Prop} [Decidable b] :
    (if b then keymaps else keymap)[c.toNat]? ≠ none ↔ c ≤ 0x3a := by
  have hlen : (if b then keymaps else keymap).length = 59 := by split <;> rfl
  rw [ne_eq, List.getElem?_eq_none_iff, hlen, Nat.not_le, UInt8.le_iff_toNat_le, Nat.lt_succ_iff]
  rfl

/-- **Which codes are translated right**: after every sequence of codes, those for which the state of
the shift keys is no matter, or one of them is held, or none has been pressed. -/
theorem translated_iff
    (hrun : Run (fun c s s' => s' = (getAscii c s).2) (fun _ _ => True) 0 h s) :
    Translated h c s ↔ Translatable h c := by
  have hs := status_eq hrun
  by_cases hc : isBreakCode c
  · refine iff_of_true ⟨fun _ => ?_, fun hn => absurd hc hn, fun hn => absurd hc hn⟩ (.inl hc)
    rw [getAscii_break hc]
  by_cases hi : IsShift c
  · refine iff_of_true ⟨fun hb => absurd hb hc, fun _ hn => absurd hi hn, fun _ => ?_⟩ (.inr (.inl hi))
    rw [getAscii_shift hc hi]
    exact Option.some_ne_none _
  have hkey : (getAscii c s).1 = (if s = 1 then keymaps else keymap)[c.toNat]? := by
    rw [getAscii_key hc hi]
  have hone : s = 1 ↔ ∃ b ∈ h, IsShift b := by
    rw [hs]
    split
    · rename_i hb
      exact iff_of_true rfl hb
    · rename_i hb
      exact iff_of_false (by decide) hb
  constructor
  · rintro ⟨-, hpress, hinside⟩
    have hle : c ≤ 0x3a := by
      have := hinside hc
      rwa [hkey, key_isSome_iff] at this
    refine .inr (.inr ⟨hle, ?_⟩)
    by_cases hheld : shiftHeld h
    · exact .inl hheld
    by_cases hb : ∃ b ∈ h, IsShift b
    · have he := hpress hc hi hle
      rw [hkey, if_pos (hone.mpr hb), if_neg hheld] at he
      exact .inr (.inr he)
    · exact .inr (.inl fun b hm hsb => hb ⟨b, hm, hsb⟩)
  · intro ht
    obtain ⟨hle, hcase⟩ := (ht.resolve_left hc).resolve_left hi
    refine ⟨fun hb => absurd hb hc, fun _ _ _ => ?_, fun _ => ?_⟩
    · rw [hkey]
      rcases hcase with hheld | hnone | hsame
      · rw [if_pos (hone.mpr (exists_isShift_of_shiftHeld hheld)), if_pos hheld]
      · have hn : ¬ ∃ b ∈ h, IsShift b := fun ⟨b, hm, hb⟩ => hnone b hm hb
        rw [if_neg (mt hone.mp hn), if_neg fun hh => hn (exists_isShift_of_shiftHeld hh)]
      · split <;> split
        · rfl
        · exact hsame
        · exact hsame.symm
        · rfl
    · rw [hkey]
      exact key_isSome_iff.mpr hle

end ScanCode

/-- The key `a` with a shift key held. -/
theorem translated_iff_shifted : Translated [0x2a] 0x1e 1 :=
  (translated_iff (.cons .nil trivial rfl)).mpr (.inr (.inr ⟨by decide, .inl rfl⟩))

/-- The left shift key is pressed and released; the key `a` still gives a capital letter. -/
theorem shift_not_released : ¬ ∀ h s, Run (fun c s s' => s' = (getAscii c s).2) (fun _ _ => True) 0 h s →
    ∀ c, Translated h c s := by
  intro hall
  have hrun : Run (fun c s s' => s' = (getAscii c s).2) (fun _ _ => True) 0 [0xaa, 0x2a] 1 :=
    .cons (.cons .nil trivial rfl) trivial rfl
  have hpress := (hall _ _ hrun 0x1e).press (by decide) (by decide) (by decide)
  exact absurd hpress (by decide)

end Nbos.Device
