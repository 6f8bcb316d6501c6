import Nbos.Fs.Bitmap
import Nbos.Fs.Str
import Nbos.Lib.Scan

/-!
# Searching a buffer

`getFreeBlock` of `file.c` and `strmatch` of `str.c`, read by read. Both look behind their buffer when
what they look for is not in it: there is no result for the window of the buffer, and nothing that says
that it was not found (`searchesBits_iff`, `searchesString_iff`).
-/

namespace Nbos.Fs

open Nbos.Lib Nbos.Kernel

/-! ### The source -/

/-- `getFreeBlock`. No byte has a bit 8, so the loop over the bits ends there. -/
def getFreeBlockIn (start : Window) (size : ℕ) : Option ℕ := do
  let i ← scan start (fun _ byte => byte == 255) size 0
  let freeByte ← start i
  let index ← scan (fun _ => some freeByte) (fun index byte => bitSet byte index) 8 0
  some ((i * 8 + index) % 2 ^ 32)

/-- `strcmpa`. -/
def strcmpaIn (a : Bytes) (b : Window) (size : ℕ) : Option ℤ := do
  let k ← scan b (fun k y => a k == y) size 0
  if k = size then some 0
  else (b k).map fun y => if y.toInt8 < (a k).toInt8 then 1 else -1

/-- The outer loop of `strmatch`; `n` is a bound for its steps. The loop over the first letter looks at
the byte before it looks at `offset`. Behind the outer loop there is no `return`. -/
def strmatchLoop (source : List UInt8) (dest : Window) (size : ℕ) : ℕ → ℕ → Option (Option ℕ)
  | 0, _ => none
  | n + 1, offset =>
    if offset < size then do
      let offset ← scan dest (fun _ y => y != cstr source 0) (size - offset) offset
      let _ ← dest offset
      if offset = size then some none
      else
        let result ← strcmpaIn (cstr source) (fun k => dest (offset + k)) source.length
        if result = 0 then some (some offset) else strmatchLoop source dest size n (offset + 1)
    else none

/-- `strmatch`. Every step of the outer loop goes on by a byte at least. -/
def strmatchIn (source : List UInt8) (dest : Window) (size : ℕ) : Option (Option ℕ) :=
  strmatchLoop source dest size size 0

/-! ### Free bits -/

/-- `n` is the lowest clear bit of the first `size` bytes. -/
structure LowestClear (start : Bytes) (size n : ℕ) : Prop where
  lt : n < 8 * size
  clear : bufBit start n = false
  full : ∀ k < n, bufBit start k = true

/-- **A bitmap block is searched** as `allocBlock` expects: no byte behind it is read, and the value is
the lowest clear bit, or -1 if there is none. -/
def SearchesBits (start : Bytes) (size : ℕ) : Prop :=
  ∃ r, getFreeBlockIn (within start size) size = some r ∧
    (LowestClear start size r ∨ (∀ n < 8 * size, bufBit start n = true) ∧ r = 2 ^ 32 - 1)

section Bits

variable {start : Bytes} {w : Window} {size n r : ℕ} {b : UInt8}

/-- The loop over the bits. -/
lemma scan_bits : scan (fun _ => some b) (fun k b => bitSet b k) 8 0 =
    some (((List.range 9).find? fun k => !bitSet b k).getD 8) := by
  have h := @scan_eq_find (fun _ => b) (fun _ => some b) (fun k b => bitSet b k) 8 fun _ _ => rfl
  have hlast : List.range 9 = List.range 8 ++ [8] := List.range_succ
  rw [h, hlast, List.find?_append]
  cases (List.range 8).find? fun k => !bitSet b k with
  | none => simp [bitSet_of_ge]
  | some k => rfl

/-- With the bytes up to the one at which the first loop stops, the search is `getFreeBlock`. -/
lemma getFreeBlockIn_eq (hw : ∀ x < size, w x = some (start x))
    (hstop : w (((List.range size).find? fun i => start i != 255).getD size) =
      some (start (((List.range size).find? fun i => start i != 255).getD size))) :
    getFreeBlockIn w size = some (getFreeBlock start size % 2 ^ 32) := by
  have hscan := @scan_eq_find start w (fun _ byte => byte == 255) size hw
  rw [getFreeBlockIn, hscan, Option.bind_eq_bind, Option.bind_some]
  show (w (((List.range size).find? fun i => start i != 255).getD size)).bind _ = _
  rw [hstop, Option.bind_some, scan_bits]
  rfl

theorem getFreeBlockIn_whole :
    getFreeBlockIn (whole start) size = some (getFreeBlock start size % 2 ^ 32) :=
  getFreeBlockIn_eq (fun _ _ => rfl) rfl

lemma ne_full (hn : n < 8 * size) (h : bufBit start n = false) :
    ((List.range size).find? fun i => start i != 255).getD size < size := by
  cases hfind : (List.range size).find? fun i => start i != 255 with
  | none =>
    have hbyte := List.find?_range_eq_none.mp hfind (n / 8) (by omega)
    rw [bufBit, show start (n / 8) = 255 by simpa using hbyte, bitSet_full (by omega)] at h
    cases h
  | some i => exact List.mem_range.mp (List.find?_range_eq_some.mp hfind).2.1

/-- The block has a clear bit. -/
lemma getFreeBlockIn_within (hn : n < 8 * size) (h : bufBit start n = false) :
    getFreeBlockIn (within start size) size = some (getFreeBlock start size % 2 ^ 32) :=
  getFreeBlockIn_eq (fun _ hx => within_of_lt hx) (within_of_lt (ne_full hn h))

/-- Where it has none, the byte behind the block is looked at. -/
lemma getFreeBlockIn_full (h : ∀ n < 8 * size, bufBit start n = true) :
    getFreeBlockIn (within start size) size = none := by
  have hfull : ∀ i < size, start i = 255 := by
    intro i hi
    by_contra hne
    obtain ⟨k, hk, hbit⟩ := exists_bit_of_ne_full hne
    have hset := h (i * 8 + k) (by omega)
    rw [bufBit, show (i * 8 + k) / 8 = i by omega, show (i * 8 + k) % 8 = k by omega, hbit] at hset
    cases hset
  have hscan : scan (within start size) (fun _ byte => byte == 255) size 0 = some size := by
    refine scan_eq_some.mpr ⟨Nat.zero_le _, by omega, fun j _ hj => ?_, fun hlt => by omega⟩
    exact ⟨start j, within_of_lt hj, by simp [hfull j hj]⟩
  rw [getFreeBlockIn, hscan, Option.bind_eq_bind, Option.bind_some, within_of_ge le_rfl]
  rfl

/-- **When a bitmap block is searched as expected**: when it has a clear bit. -/
theorem searchesBits_iff :
    SearchesBits start size ↔ ∃ n < 8 * size, n < 2 ^ 32 ∧ bufBit start n = false := by
  constructor
  · rintro ⟨r, hr, hres⟩
    by_contra hnone
    push Not at hnone
    rcases hres with hlow | ⟨hfull, -⟩
    · have hclear := hlow.clear
      rw [getFreeBlockIn_within hlow.lt hclear] at hr
      have hlt : r < 2 ^ 32 := Option.some_inj.mp hr ▸ Nat.mod_lt _ (by decide)
      exact hnone r hlow.lt hlt hclear
    · rw [getFreeBlockIn_full hfull] at hr
      cases hr
  · rintro ⟨n, hn, hlt, hclear⟩
    obtain ⟨h1, h2, h3⟩ := getFreeBlock_spec ⟨n, hn, hclear⟩
    have hle : getFreeBlock start size ≤ n := by
      by_contra hgt
      rw [h3 n (by omega)] at hclear
      cases hclear
    refine ⟨getFreeBlock start size, ?_, .inl ⟨h1, h2, h3⟩⟩
    rw [getFreeBlockIn_within hn hclear, Nat.mod_eq_of_lt (by omega)]

end Bits

/-- A bitmap block without a clear bit, and a 0 behind it. -/
def fullBlock : Bytes := fun x => if x < 512 then 255 else 0

/-- The byte behind the full block is read, and the value is 4096. -/
theorem not_searchesBits : ¬ SearchesBits fullBlock 512 ∧
    getFreeBlockIn (whole fullBlock) 512 = some 4096 := by
  have hbyte : ∀ i < 512, fullBlock i = 255 := fun i hi => if_pos hi
  have hset : ∀ n < 8 * 512, bufBit fullBlock n = true := by
    intro n hn
    rw [bufBit, hbyte _ (by omega), bitSet_full (by omega)]
  constructor
  · rintro ⟨r, hr, -⟩
    rw [getFreeBlockIn_full hset] at hr
    cases hr
  · have hnone : (List.range 512).find? (fun i => fullBlock i != 255) = none := by
      rw [List.find?_range_eq_none]
      intro i hi
      simp [hbyte i hi]
    rw [getFreeBlockIn_whole, getFreeBlock, hnone]
    rfl

/-! ### Strings -/

/-- **A buffer is searched** for a string: no byte behind it is read, and the value is the first place at
which the string stands in it, or -1 if there is none. -/
def SearchesString (s : List UInt8) (dest : Bytes) (size : ℕ) : Prop :=
  ∃ r, strmatchIn s (within dest size) size = some r ∧
    ((∃ p, r = some p ∧ p + s.length ≤ size ∧ StandsAt s dest p ∧ ∀ j < p, ¬ StandsAt s dest j) ∨
      r = none ∧ ∀ p, p + s.length ≤ size → ¬ StandsAt s dest p)

section Strings

variable {s : List UInt8} {a dest : Bytes} {w : Window} {size n k p offset : ℕ} {r : Option ℕ}

lemma strcmpaIn_eq_zero : strcmpaIn a w n = some 0 ↔ ∀ k < n, w k = some (a k) := by
  rw [strcmpaIn, Option.bind_eq_bind, Option.bind_eq_some_iff]
  constructor
  · rintro ⟨k, hk, h⟩
    obtain ⟨-, hle, hall, -⟩ := scan_eq_some.mp hk
    split at h
    · intro j hj
      obtain ⟨y, hy, he⟩ := hall j (Nat.zero_le _) (by omega)
      rw [hy, ← beq_iff_eq.mp he]
    · obtain ⟨y, -, hy⟩ := Option.map_eq_some_iff.mp h
      split at hy <;> cases hy
  · intro h
    refine ⟨n, scan_eq_some.mpr ⟨Nat.zero_le _, by omega, fun j _ hj => ?_, fun hlt => by omega⟩,
      if_pos rfl⟩
    exact ⟨a j, h j hj, beq_self_eq_true _⟩

/-- A difference that can be read is found, and nothing behind it is read. -/
lemma strcmpaIn_of_ne (hw : ∀ j < n, w j = some (dest j)) (h : ∃ j < n, dest j ≠ a j) :
    ∃ r ≠ 0, strcmpaIn a w n = some r := by
  have hex : ∃ j, j < n ∧ dest j ≠ a j := h
  obtain ⟨hlt, hne⟩ := Nat.find_spec hex
  have hsame : ∀ j < Nat.find hex, dest j = a j := by
    intro j hj
    by_contra hj'
    exact Nat.find_min hex hj ⟨by omega, hj'⟩
  generalize Nat.find hex = k at hlt hne hsame
  have hscan : scan w (fun k y => a k == y) n 0 = some k := by
    refine scan_eq_some.mpr ⟨Nat.zero_le _, by omega, fun j _ hj => ?_, fun _ => ?_⟩
    · exact ⟨dest j, hw j (by omega), by simp [hsame j hj]⟩
    · exact ⟨dest k, hw k hlt, by simpa using fun e => hne e.symm⟩
  refine ⟨if (dest k).toInt8 < (a k).toInt8 then 1 else -1, by split <;> decide, ?_⟩
  rw [strcmpaIn, hscan, Option.bind_eq_bind, Option.bind_some, if_neg (by omega), hw k hlt]
  rfl

/-- What the loop finds without a look behind the buffer stands in the buffer. -/
lemma strmatchLoop_some (hs : s ≠ []) (h : strmatchLoop s (within dest size) size n offset = some r) :
    ∃ o, r = some o ∧ o + s.length ≤ size ∧ StandsAt s dest o := by
  induction n generalizing offset with
  | zero => cases h
  | succ n ih =>
    rw [strmatchLoop] at h
    split at h
    · obtain ⟨o, -, h⟩ := Option.bind_eq_some_iff.mp h
      obtain ⟨b, hb, h⟩ := Option.bind_eq_some_iff.mp h
      have ho := (within_eq_some.mp hb).1
      rw [if_neg (by omega)] at h
      obtain ⟨result, hresult, h⟩ := Option.bind_eq_some_iff.mp h
      split at h
      · rename_i h0
        rw [h0, strcmpaIn_eq_zero] at hresult
        have hpos := List.length_pos_iff.mpr hs
        have hlast := (within_eq_some.mp (hresult (s.length - 1) (by omega))).1
        refine ⟨o, (Option.some_inj.mp h).symm, by omega, fun k hk => ?_⟩
        rw [(within_eq_some.mp (hresult k hk)).2, cstr_of_lt hk]
      · exact ih h
    · cases h

/-- The loop over the first letter. -/
lemma scan_first {c : UInt8} (hw : ∀ x ≤ p, w x = some (dest x)) (hc : dest p = c) (hle : offset ≤ p)
    (hp : p ≤ offset + n) : ∃ o, scan w (fun _ y => y != c) n offset = some o ∧ offset ≤ o ∧ o ≤ p ∧
      dest o = c := by
  have hex : ∃ j, offset ≤ j ∧ dest j = c := ⟨p, hle, hc⟩
  obtain ⟨hfrom, heq⟩ := Nat.find_spec hex
  have hmin : Nat.find hex ≤ p := Nat.find_min' hex ⟨hle, hc⟩
  refine ⟨Nat.find hex, scan_eq_some.mpr ⟨hfrom, by omega, fun j hj hj' => ?_, fun _ => ?_⟩, hfrom,
    hmin, heq⟩
  · exact ⟨dest j, hw j (by omega), by simpa using fun e => Nat.find_min hex hj' ⟨hj, e⟩⟩
  · exact ⟨dest (Nat.find hex), hw _ hmin, by simp [heq]⟩

/-- The first place is found, and nothing behind the string is read. -/
lemma strmatchLoop_found (hs : s ≠ []) (hw : ∀ x < p + s.length, w x = some (dest x)) (hp : p < size)
    (hat : StandsAt s dest p) (hfirst : ∀ j < p, ¬ StandsAt s dest j) (hle : offset ≤ p)
    (hn : p < offset + n) : strmatchLoop s w size n offset = some (some p) := by
  have hpos := List.length_pos_iff.mpr hs
  induction n generalizing offset with
  | zero => omega
  | succ n ih =>
    have hletter : dest p = cstr s 0 := by
      rw [cstr_of_lt hpos]
      exact hat 0 hpos
    obtain ⟨o, hscan, hfrom, hop, -⟩ := scan_first (n := size - offset) (fun x hx => hw x (by omega))
      hletter hle (by omega)
    rw [strmatchLoop, if_pos (by omega), hscan, Option.bind_eq_bind, Option.bind_some, hw o (by omega),
      Option.bind_eq_bind, Option.bind_some, if_neg (by omega)]
    rcases Nat.eq_or_lt_of_le hop with rfl | hlt
    · have hzero : strcmpaIn (cstr s) (fun k => w (o + k)) s.length = some 0 := by
        refine strcmpaIn_eq_zero.mpr fun k hk => ?_
        rw [hw _ (by omega), hat k hk, cstr_of_lt hk]
      rw [hzero, Option.bind_eq_bind, Option.bind_some, if_pos rfl]
    · have hdiff : ∃ k < s.length, dest (o + k) ≠ cstr s k := by
        by_contra hsame
        push Not at hsame
        exact hfirst o hlt fun k hk => (hsame k hk).trans (cstr_of_lt hk)
      obtain ⟨result, hne, hresult⟩ := @strcmpaIn_of_ne (cstr s) (fun k => dest (o + k))
        (fun k => w (o + k)) s.length (fun k hk => hw _ (by omega)) hdiff
      rw [hresult, Option.bind_eq_bind, Option.bind_some, if_neg hne]
      exact ih (by omega) (by omega)

/-- **When a buffer is searched as expected**: when the string stands in it. -/
theorem searchesString_iff (hs : s ≠ []) :
    SearchesString s dest size ↔ ∃ p, p + s.length ≤ size ∧ StandsAt s dest p := by
  have hpos := List.length_pos_iff.mpr hs
  constructor
  · rintro ⟨r, hr, -⟩
    obtain ⟨o, -, hin, hat⟩ := strmatchLoop_some hs hr
    exact ⟨o, hin, hat⟩
  · intro hex
    classical
    obtain ⟨hin, hat⟩ := Nat.find_spec hex
    have hfirst : ∀ j < Nat.find hex, ¬ StandsAt s dest j := fun j hj hj' =>
      Nat.find_min hex hj ⟨by omega, hj'⟩
    generalize Nat.find hex = p at hin hat hfirst
    refine ⟨some p, ?_, .inl ⟨p, rfl, hin, hat, hfirst⟩⟩
    exact strmatchLoop_found hs (fun x hx => within_of_lt (by omega)) (by omega) hat hfirst
      (Nat.zero_le _) (by omega)

/-- A buffer with the letters `xab`. -/
def letters : Bytes := cstr [120, 97, 98]

/-- The string `ab` is found in the three bytes. -/
theorem searchesString_letters : SearchesString [97, 98] letters 3 :=
  (searchesString_iff (List.cons_ne_nil _ _)).mpr
    ⟨1, le_rfl, fun | 0, _ => rfl | 1, _ => rfl | _ + 2, hk => absurd hk (by simp)⟩

/-- In two bytes it is found too, half of it behind the buffer; without the third byte there is no
result. Of one letter that is not in the buffer it is said that it is not there, after a look at the
byte behind the buffer. -/
theorem not_searchesString :
    (¬ SearchesString [97, 98] letters 2 ∧ strmatchIn [97, 98] (whole letters) 2 = some (some 1)) ∧
    (¬ SearchesString [97] letters 1 ∧ strmatchIn [97] (whole letters) 1 = some none) := by
  have hab : strmatchIn [97, 98] (within letters 2) 2 = none := by decide
  have ha : strmatchIn [97] (within letters 1) 1 = none := by decide
  refine ⟨⟨?_, by decide⟩, ?_, by decide⟩
  · rintro ⟨r, hr, -⟩
    rw [hab] at hr
    cases hr
  · rintro ⟨r, hr, -⟩
    rw [ha] at hr
    cases hr

/-- Without a place for the string, and with another letter in the last byte, the loop comes to its
`return -1`. -/
lemma strmatchLoop_none (hat : ∀ o < size, ¬ StandsAt s dest o)
    (hlast : dest (size - 1) ≠ cstr s 0) (hlt : offset < size) (hn : size ≤ offset + n) :
    strmatchLoop s (whole dest) size n offset = some none := by
  induction n generalizing offset with
  | zero => omega
  | succ n ih =>
    obtain ⟨o, hscan⟩ : ∃ o, scan (whole dest) (fun _ y => y != cstr s 0) (size - offset) offset =
        some o := scan_whole
    obtain ⟨hfrom, hle, -, hstop⟩ := scan_eq_some.mp hscan
    rw [strmatchLoop, if_pos hlt, hscan, Option.bind_eq_bind, Option.bind_some]
    by_cases ho : o = size
    · rw [if_pos ho]
      rfl
    · have hletter : dest o = cstr s 0 := by
        obtain ⟨b, hb, hp⟩ := hstop (by omega)
        rw [Option.some_inj.mp hb]
        simpa using hp
      have hne : o ≠ size - 1 := fun e => hlast (e ▸ hletter)
      have hdiff : ∃ k < s.length, dest (o + k) ≠ cstr s k := by
        by_contra hsame
        push Not at hsame
        exact hat o (by omega) fun k hk => (hsame k hk).trans (cstr_of_lt hk)
      obtain ⟨result, hresult0, hresult⟩ := @strcmpaIn_of_ne (cstr s) (fun k => dest (o + k))
        (fun k => whole dest (o + k)) s.length (fun _ _ => rfl) hdiff
      show (Option.some (dest o)).bind _ = _
      rw [Option.bind_some, if_neg ho, hresult, Option.bind_eq_bind, Option.bind_some, if_neg hresult0]
      exact ih (by omega) (by omega)

/-- **`strmatch`** has the value of the loops, wherever it says that there is one. -/
theorem strmatchIn_of_strmatch (hs : s ≠ []) (hsize : 0 < size) (h : strmatch s dest size = some r) :
    strmatchIn s (whole dest) size = some r := by
  cases r with
  | some p =>
    obtain ⟨hp, hat, hfirst⟩ := (strmatch_eq_some hs).mp h
    exact strmatchLoop_found hs (fun _ _ => rfl) hp hat hfirst (Nat.zero_le _) (by omega)
  | none =>
    obtain ⟨hat, hpart⟩ := (strmatch_eq_none_iff hs).mp h
    refine strmatchLoop_none hat (fun hletter => ?_) hsize (by omega)
    -- the last byte alone would be a part of the string, or all of it
    rcases Nat.lt_or_ge 1 s.length with hlong | hone
    · have hends : endsInPart s dest size = true := by
        rw [endsInPart, List.any_eq_true]
        refine ⟨size - 1, List.mem_range.mpr (by omega), ?_⟩
        rw [Bool.and_eq_true, decide_eq_true_eq, List.all_eq_true]
        refine ⟨by omega, fun k hk => ?_⟩
        obtain rfl : k = 0 := by
          have := List.mem_range.mp hk
          omega
        exact beq_iff_eq.mpr hletter
      rw [hends] at hpart
      cases hpart
    · refine hat (size - 1) (by omega) fun k hk => ?_
      obtain rfl : k = 0 := by omega
      rw [Nat.add_zero, hletter, cstr_of_lt hk]

end Strings

end Nbos.Fs
