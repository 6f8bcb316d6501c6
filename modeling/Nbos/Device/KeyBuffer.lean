import Nbos.Device.Keyboard
import Nbos.Lib.Run

/-!
# The index of the key buffer

`offset` under `handleCode` and `readStdin` in any order, on any codes. A backspace takes the index
back and leaves the character, so `readStdin` may find a newline that is not pending; and of a line of
`index + 1` characters it takes `index - 1` off. `keyIndex_iff` says for which calls the index
stays in the buffer.
-/

namespace Nbos.Device

open Nbos.Lib

/-- The statics after the call. -/
def Event.perform : Event → Keyboard → Option Keyboard
  | .key code, k => handleCode code k
  | .read, k => some (readStdin k).2.2

/-- The indices at which the call writes `keyBuffer`: a key one, `readStdin` all those that it moves
the rest of the buffer to. -/
def Event.writes (k : Keyboard) : Event → List ℤ
  | .key code =>
    if code = 0 ∨ (code = backspace ∧ k.offset ≠ 0) ∨ bufferSize ≤ k.offset then [] else [k.offset]
  | .read =>
    (lineEnd k.keyBuffer).elim [] fun index =>
      (List.range (bufferSize - index - 1)).map fun i : ℕ => (i : ℤ)

/-- The index is in the buffer, or one past its end. -/
def Keyboard.InBounds (k : Keyboard) : Prop := 0 ≤ k.offset ∧ k.offset ≤ bufferSize

/-- The first newline in the buffer is no more than one past the index, and not at the start of a
buffer that is full. -/
def Event.KeepsIndex (e : Event) (k : Keyboard) : Prop :=
  match e with
  | .key _ => True
  | .read => ∀ index, lineEnd k.keyBuffer = some index →
      index ≤ k.offset + 1 ∧ (k.offset = bufferSize → index ≠ 0)

section KeyBuffer

variable {k : Keyboard} {e : Event} {h : List Event} {code : UInt8}

lemma handleCode_inBounds (hk : k.InBounds) : ∃ k', handleCode code k = some k' ∧ k'.InBounds := by
  obtain ⟨h0, h1⟩ := hk
  unfold handleCode
  split
  · exact ⟨k, rfl, h0, h1⟩
  split
  · rename_i hb
    refine ⟨_, rfl, ?_, ?_⟩
    · have := hb.2
      simp only
      omega
    · simp only
      omega
  split
  · exact ⟨k, rfl, h0, h1⟩
  · rename_i hlt
    rw [if_neg (by omega)]
    refine ⟨_, rfl, ?_, ?_⟩
    · simp only
      omega
    · simp only
      omega

lemma readStdin_inBounds_iff (hk : k.InBounds) :
    (readStdin k).2.2.InBounds ↔ Event.KeepsIndex .read k := by
  obtain ⟨h0, h1⟩ := hk
  cases hl : lineEnd k.keyBuffer with
  | none =>
    rw [readStdin_of_none hl]
    refine iff_of_true ⟨h0, h1⟩ fun index hi => ?_
    rw [hl] at hi
    cases hi
  | some i =>
    rw [readStdin_of_some hl]
    constructor
    · rintro ⟨h2, h3⟩ index hi
      obtain rfl := Option.some_inj.mp (hl.symm.trans hi)
      simp only at h2 h3
      omega
    · intro hm
      obtain ⟨h2, h3⟩ := hm i hl
      refine ⟨?_, ?_⟩
      · simp only
        omega
      · simp only
        by_cases hi : i = 0
        · have : k.offset ≠ bufferSize := fun he => h3 he hi
          omega
        · omega

lemma Keyboard.InBounds.perform_iff (hk : k.InBounds) :
    (∃ k', e.perform k = some k' ∧ k'.InBounds) ↔ e.KeepsIndex k := by
  cases e with
  | key code => exact iff_of_true (handleCode_inBounds hk) trivial
  | read =>
    refine Iff.trans ⟨?_, fun hb => ⟨_, rfl, hb⟩⟩ (readStdin_inBounds_iff hk)
    rintro ⟨k', hk', hb⟩
    obtain rfl := Option.some_inj.mp hk'
    exact hb

/-- What is written is in the buffer. -/
lemma Keyboard.InBounds.writes (hk : k.InBounds) : ∀ i ∈ e.writes k, 0 ≤ i ∧ i < bufferSize := by
  obtain ⟨h0, -⟩ := hk
  intro i hi
  cases e with
  | key code =>
    have hi : i ∈ if code = 0 ∨ (code = backspace ∧ k.offset ≠ 0) ∨ bufferSize ≤ k.offset then []
      else [k.offset] := hi
    split at hi
    · cases hi
    · rename_i hc
      obtain rfl := List.mem_singleton.mp hi
      rw [not_or, not_or] at hc
      exact ⟨h0, not_le.mp hc.2.2⟩
  | read =>
    cases hl : lineEnd k.keyBuffer with
    | none =>
      have hnil : Event.writes k .read = [] := by rw [Event.writes, hl, Option.elim_none]
      rw [hnil] at hi
      cases hi
    | some index =>
      have hmap : Event.writes k .read = (List.range (bufferSize - index - 1)).map fun i : ℕ => (i : ℤ) := by
        rw [Event.writes, hl, Option.elim_some]
      rw [hmap] at hi
      obtain ⟨j, hj, rfl⟩ := List.mem_map.mp hi
      have := List.mem_range.mp hj
      omega

/-- **When the index stays in the buffer**: after every run of calls that keep it, it is there, every
call writes inside the buffer, and the next call keeps it if and only if it meets the condition. -/
theorem keyIndex_iff (hrun : Run (fun e k k' => e.perform k = some k') Event.KeepsIndex
    Keyboard.init h k) :
    k.InBounds ∧ (∀ e : Event, ∀ i ∈ e.writes k, 0 ≤ i ∧ i < bufferSize) ∧
      ∀ e : Event, (∃ k', e.perform k = some k' ∧ k'.InBounds) ↔ e.KeepsIndex k := by
  have hk : k.InBounds := by
    refine hrun.inv Keyboard.InBounds ⟨le_rfl, by decide⟩ fun e k k' hk hG hs => ?_
    obtain ⟨k'', hk'', hb⟩ := hk.perform_iff.mpr hG
    obtain rfl := Option.some_inj.mp (hs.symm.trans hk'')
    exact hb
  exact ⟨hk, fun e => hk.writes, fun e => hk.perform_iff⟩

end KeyBuffer

/-- The line `abc`, the newline last. -/
def typedLine : List Event := [.key newline, .key 99, .key 98, .key 97]

/-- It is typed and read. -/
theorem keyIndex_iff_line : ∃ k k', runAll Event.perform typedLine Keyboard.init = some k ∧
    k.InBounds ∧ Event.perform .read k = some k' ∧ k'.InBounds := by
  obtain ⟨k, hk, hline, hoffset⟩ := exists_of_any
    (P := fun k : Keyboard => lineEnd k.keyBuffer = some 3 ∧ k.offset = 4)
    (o := runAll Event.perform typedLine Keyboard.init) (by decide +kernel)
  have hrun : Run (fun e k k' => Event.perform e k = some k') Event.KeepsIndex Keyboard.init typedLine k :=
    (run_runAll (fun _ _ _ hs => hs) hk).of_labels fun e he k => by
      obtain ⟨code, rfl⟩ : ∃ code, e = .key code := by
        simp only [typedLine, List.mem_cons, List.not_mem_nil, or_false] at he
        rcases he with rfl | rfl | rfl | rfl <;> exact ⟨_, rfl⟩
      exact trivial
  obtain ⟨hbounds, -, hnext⟩ := keyIndex_iff hrun
  obtain ⟨k', hk', hb⟩ := (hnext .read).mpr fun index hi => by
    obtain rfl := Option.some_inj.mp (hline.symm.trans hi)
    rw [hoffset]
    decide
  exact ⟨k, k', hk, hbounds, hk', hb⟩

/-- Three keys, the last one a newline, and three backspaces; the newline is found all the same. -/
def erasedLine : List Event :=
  [.read, .key backspace, .key backspace, .key backspace, .key newline, .key 98, .key 97]

theorem index_below_zero : ¬ ∀ h k, Run (fun e k k' => Event.perform e k = some k')
    (fun _ _ => True) Keyboard.init h k → k.InBounds := by
  intro hall
  have hoff : (runAll Event.perform erasedLine Keyboard.init).map Keyboard.offset = some (-1) := by
    decide +kernel
  obtain ⟨k, hk, hneg⟩ := Option.map_eq_some_iff.mp hoff
  have hb := (hall _ k (run_runAll (fun _ _ _ he => he) hk)).1
  rw [hneg] at hb
  omega

end Nbos.Device
