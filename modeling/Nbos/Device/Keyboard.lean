import Nbos.Memory.Alloc

/-!
# Standard input

The key buffer of `keyboard.c`: `handleCode` appends to it, `readStdin` takes a line out of it.

Against it stands a queue of pending characters (`typed`, `takeLine`). `Session` runs the two side
by side and `Session.Inv` is the simulation: the buffer starts with the pending characters, and the
write index is two past them for every line that has been returned.
-/

namespace Nbos.Device

open Nbos.Lib Nbos.Memory

/-! ### The source -/

abbrev bufferSize : ℕ := 512

abbrev backspace : UInt8 := 8
abbrev newline : UInt8 := 10

/-- The statics of `keyboard.c`. -/
structure Keyboard where
  keyBuffer : Bytes
  offset : ℤ

/-- The statics before the first interrupt. -/
def Keyboard.init : Keyboard := ⟨fun _ => 0, 0⟩

/-- `handleCode`, without the echo on the screen; `none` when it writes in front of the buffer. -/
def handleCode (code : UInt8) (k : Keyboard) : Option Keyboard :=
  if code = 0 then some k
  else if code = backspace ∧ k.offset ≠ 0 then some { k with offset := k.offset - 1 }
  else if bufferSize ≤ k.offset then some k
  else if k.offset < 0 then none
  else some ⟨Function.update k.keyBuffer k.offset.toNat code, k.offset + 1⟩

/-- The loop of `readStdin` that looks for the end of a line. -/
def lineEnd (m : Bytes) : Option ℕ := (List.range bufferSize).find? fun i => m i == newline

/-- `readStdin`: what it returns, the bytes it leaves in the caller's buffer, and the statics. -/
def readStdin (k : Keyboard) : ℤ × List UInt8 × Keyboard :=
  match lineEnd k.keyBuffer with
  | none => (-1, [], k)
  | some index =>
    (index + 1, (List.range (index + 1)).map k.keyBuffer,
      ⟨memcopy k.keyBuffer (index + 1) 0 (bufferSize - index - 1), k.offset - (index - 1)⟩)

/-! ### The queue -/

/-- The pending characters after the key `code`. -/
def typed (code : UInt8) (q : List UInt8) : List UInt8 :=
  if code = backspace then q.dropLast else q ++ [code]

/-- The first line among the pending characters, and the rest. -/
def takeLine (q : List UInt8) : Option (List UInt8 × List UInt8) :=
  if newline ∈ q then some (q.splitAt (q.idxOf newline + 1)) else none

lemma takeLine_of_mem {q : List UInt8} (h : newline ∈ q) :
    takeLine q = some (q.take (q.idxOf newline + 1), q.drop (q.idxOf newline + 1)) := by
  rw [takeLine, if_pos h, List.splitAt_eq]

lemma takeLine_of_not_mem {q : List UInt8} (h : newline ∉ q) : takeLine q = none := if_neg h

/-! ### Side by side -/

/-- The keyboard, the characters pending, and how many lines have been returned. -/
structure Session where
  kbd : Keyboard
  pending : List UInt8
  lines : ℕ

def Session.init : Session := ⟨Keyboard.init, [], 0⟩

/-- A key, or a call of `readStdin`. -/
inductive Event where
  | key (code : UInt8)
  | read

/-- The events the queue is asked to take: non-zero codes, and no more pending characters than the
buffer has bytes. -/
def Session.Room (s : Session) : Event → Prop
  | .key code => code ≠ 0 ∧ (typed code s.pending).length ≤ bufferSize
  | .read => True

instance (s : Session) : (e : Event) → Decidable (s.Room e)
  | .key code => inferInstanceAs (Decidable (code ≠ 0 ∧ (typed code s.pending).length ≤ bufferSize))
  | .read => inferInstanceAs (Decidable True)

/-- Both sides take the event. -/
def Session.next (s : Session) : Event → Option Session
  | .key code => (handleCode code s.kbd).map fun k => ⟨k, typed code s.pending, s.lines⟩
  | .read => some <|
    match takeLine s.pending with
    | some (_, rest) => ⟨(readStdin s.kbd).2.2, rest, s.lines + 1⟩
    | none => ⟨(readStdin s.kbd).2.2, s.pending, s.lines⟩

/-- A call of `readStdin` does what the queue does: it returns the first line, or -1 and nothing
changes. A key is faithful as long as it stays in the buffer. -/
def Session.Faithful (s : Session) : Event → Prop
  | .key code => (handleCode code s.kbd).isSome
  | .read =>
    match takeLine s.pending with
    | some (line, _) => (readStdin s.kbd).1 = line.length ∧ (readStdin s.kbd).2.1 = line
    | none => readStdin s.kbd = (-1, [], s.kbd)

/-- The events that `keyboard.c` gets right: no key once a line has been returned, no backspace
when nothing is pending, and no call when the only newlines in the buffer are stale. -/
def Session.Meets (s : Session) : Event → Prop
  | .key code => s.lines = 0 ∧ (code = backspace → s.pending ≠ [])
  | .read => newline ∈ s.pending ∨ ∀ i < bufferSize, s.kbd.keyBuffer i ≠ newline

/-- Any event the queue is asked to take. -/
def Session.Any (s s' : Session) : Prop := ∃ e, s.Room e ∧ s.next e = some s'

/-- An event that meets the condition. -/
def Session.Step (s s' : Session) : Prop := ∃ e, s.Room e ∧ s.Meets e ∧ s.next e = some s'

/-- The session after some events, as far as the keyboard takes them. -/
def Session.play (s : Session) (es : List Event) : Session :=
  es.foldl (fun s e => (s.next e).getD s) s

/-! ### The simulation -/

/-- The buffer starts with the pending characters. -/
structure Session.Inv (s : Session) : Prop where
  shown : ∀ i (h : i < s.pending.length), s.kbd.keyBuffer i = s.pending[i]
  length : s.pending.length ≤ bufferSize
  offset : s.kbd.offset = s.pending.length + 2 * s.lines

section ReadStdin

variable {m : Bytes} {k : Keyboard} {q : List UInt8} {i : ℕ}

lemma lineEnd_eq_none : lineEnd m = none ↔ ∀ i < bufferSize, m i ≠ newline := by
  simp only [lineEnd, List.find?_range_eq_none, Bool.not_eq_true', beq_eq_false_iff_ne]

lemma lineEnd_eq_some (hi : i < bufferSize) (h : m i = newline) (hlt : ∀ j < i, m j ≠ newline) :
    lineEnd m = some i := by
  rw [lineEnd, List.find?_range_eq_some]
  refine ⟨beq_iff_eq.mpr h, List.mem_range.mpr hi, fun j hj => ?_⟩
  rw [Bool.not_eq_true', beq_eq_false_iff_ne]
  exact hlt j hj

lemma readStdin_of_none (h : lineEnd k.keyBuffer = none) : readStdin k = (-1, [], k) := by
  unfold readStdin
  simp only [h]

lemma readStdin_of_some (h : lineEnd k.keyBuffer = some i) :
    readStdin k = ((i + 1 : ℤ), (List.range (i + 1)).map k.keyBuffer,
      ⟨overlay k.keyBuffer 0 (bufferSize - i - 1) fun j => k.keyBuffer (i + 1 + j),
        k.offset - (i - 1)⟩) := by
  unfold readStdin
  have hcopy : memcopy k.keyBuffer (i + 1) 0 (bufferSize - i - 1) =
      overlay k.keyBuffer 0 (bufferSize - i - 1) fun j => k.keyBuffer (i + 1 + j) :=
    memcopy_eq (.inr (Nat.zero_le _))
  simp only [h, hcopy]

/-- The newline `readStdin` finds is the first pending one, when there is one. -/
lemma lineEnd_of_mem (hshown : ∀ i (h : i < q.length), m i = q[i]) (hlen : q.length ≤ bufferSize)
    (h : newline ∈ q) : lineEnd m = some (q.idxOf newline) := by
  have hi : q.idxOf newline < q.length := List.idxOf_lt_length_iff.mpr h
  refine lineEnd_eq_some (hi.trans_le hlen) (by rw [hshown _ hi, List.getElem_idxOf hi]) ?_
  intro j hj
  have hne := List.not_of_lt_findIdx hj
  rw [hshown j (hj.trans hi)]
  simpa using hne

lemma map_range_take (hshown : ∀ i (h : i < q.length), m i = q[i]) {n : ℕ} (hn : n ≤ q.length) :
    (List.range n).map m = q.take n := by
  refine List.ext_getElem (by simp [hn]) fun i h1 h2 => ?_
  rw [List.getElem_map, List.getElem_range, List.getElem_take]
  exact hshown i (by rw [List.length_take] at h2; omega)

/-- A newline anywhere in the buffer is taken for the end of a line. -/
lemma readStdin_ne (hi : i < bufferSize) (h : k.keyBuffer i = newline) : (readStdin k).1 ≠ -1 := by
  cases he : lineEnd k.keyBuffer with
  | none => exact absurd h (lineEnd_eq_none.mp he i hi)
  | some j =>
    rw [readStdin_of_some he]
    show (j + 1 : ℤ) ≠ -1
    omega

end ReadStdin

section Session

variable {s s' : Session}

lemma Session.inv_init : Session.init.Inv :=
  ⟨fun i h => absurd h (Nat.not_lt_zero i), Nat.zero_le _, rfl⟩

lemma Session.Inv.key {code : UInt8} {k : Keyboard} (h : s.Inv) (hr : s.Room (.key code))
    (hm : s.Meets (.key code)) (hk : handleCode code s.kbd = some k) :
    Session.Inv ⟨k, typed code s.pending, s.lines⟩ := by
  obtain ⟨hcode, hroom⟩ := hr
  obtain ⟨hlines, hback⟩ := hm
  have hoff : s.kbd.offset = s.pending.length := by rw [h.offset, hlines]; simp
  rw [handleCode, if_neg hcode] at hk
  by_cases hb : code = backspace
  · -- the last pending character is erased
    have hpos : 0 < s.pending.length := List.length_pos_iff.mpr (hback hb)
    rw [if_pos ⟨hb, by omega⟩] at hk
    cases hk
    rw [typed, if_pos hb] at hroom ⊢
    refine ⟨fun i hi => ?_, hroom, ?_⟩
    · rw [List.getElem_dropLast]
      exact h.shown i _
    · simp only [List.length_dropLast, hlines, hoff]
      omega
  · rw [typed, if_neg hb] at hroom ⊢
    rw [List.length_append, List.length_singleton] at hroom
    rw [if_neg (fun hc => hb hc.1), if_neg (by omega), if_neg (by omega)] at hk
    cases hk
    refine ⟨fun i hi => ?_, by simpa using hroom, by simp [hlines, hoff]⟩
    rw [List.length_append, List.length_singleton] at hi
    simp only [hoff, Int.toNat_natCast]
    rcases Nat.lt_or_ge i s.pending.length with hlt | hge
    · rw [Function.update_of_ne (by omega), List.getElem_append_left hlt, h.shown i hlt]
    · obtain rfl : i = s.pending.length := by omega
      rw [Function.update_self, List.getElem_append_right le_rfl]
      simp

lemma Session.Inv.handleCode_isSome {code : UInt8} (h : s.Inv) : (handleCode code s.kbd).isSome := by
  have hoff := h.offset
  unfold handleCode
  split
  · rfl
  split
  · rfl
  split
  · rfl
  rw [if_neg (by omega)]
  rfl

lemma Session.Inv.read (h : s.Inv) (hm : s.Meets .read) : s.Faithful .read := by
  unfold Session.Faithful
  by_cases hq : newline ∈ s.pending
  · have hi := List.idxOf_lt_length_iff.mpr hq
    have hread := readStdin_of_some (lineEnd_of_mem h.shown h.length hq)
    simp only [takeLine_of_mem hq, hread]
    refine ⟨?_, map_range_take h.shown hi⟩
    rw [List.length_take, Nat.min_eq_left hi, Nat.cast_succ]
  · have hread := readStdin_of_none (lineEnd_eq_none.mpr (hm.resolve_left hq))
    simp only [takeLine_of_not_mem hq, hread]

theorem Session.inv_step (h : s.Inv) (hs : s.Step s') : s'.Inv := by
  obtain ⟨e, hr, hm, he⟩ := hs
  cases e with
  | key code =>
    obtain ⟨k, hk, rfl⟩ := Option.map_eq_some_iff.mp he
    exact h.key hr hm hk
  | read =>
    cases he
    by_cases hq : newline ∈ s.pending
    · -- the line leaves the buffer, the rest moves to the front
      have hi := List.idxOf_lt_length_iff.mpr hq
      have hlen := h.length
      rw [takeLine_of_mem hq, readStdin_of_some (lineEnd_of_mem h.shown h.length hq)]
      refine ⟨fun i hlt => ?_, by simp only [List.length_drop]; omega, ?_⟩
      · simp only [List.length_drop] at hlt
        simp only [List.getElem_drop]
        rw [overlay_of_mem (Nat.zero_le _) (by omega), Nat.sub_zero]
        exact h.shown _ _
      · simp only [List.length_drop, h.offset]
        omega
    · rw [takeLine_of_not_mem hq,
        readStdin_of_none (lineEnd_eq_none.mpr (hm.resolve_left hq))]
      exact h

/-- **Standard input is a line queue** as long as every event meets the condition: in every session
reached that way, a key stays in the buffer, and a call of `readStdin` returns the first pending
line or -1, exactly when it meets the condition. -/
theorem readStdin_faithful_iff (h : Relation.ReflTransGen Session.Step Session.init s) :
    (∀ code, s.Faithful (.key code)) ∧ (s.Faithful .read ↔ s.Meets .read) := by
  have hinv : s.Inv := by
    induction h with
    | refl => exact Session.inv_init
    | tail _ hs ih => exact Session.inv_step ih hs
  refine ⟨fun code => hinv.handleCode_isSome, fun hf => ?_, hinv.read⟩
  by_cases hq : newline ∈ s.pending
  · exact .inl hq
  · refine .inr fun i hi hn => readStdin_ne hi hn ?_
    unfold Session.Faithful at hf
    simp only [takeLine_of_not_mem hq] at hf
    rw [hf]

end Session

lemma Session.next_play (s : Session) (es : List Event) (e : Event) (h : ((s.play es).next e).isSome) :
    (s.play es).next e = some (s.play (es ++ [e])) := by
  obtain ⟨s', hs'⟩ := Option.isSome_iff_exists.mp h
  have hplay : s.play (es ++ [e]) = ((s.play es).next e).getD (s.play es) := List.foldl_concat ..
  rw [hplay, hs', Option.getD_some]

/-- `ax`, with the `x` taken back, `b` and a newline. -/
theorem readStdin_faithful_iff_typed :
    (Session.init.play [.key 97, .key 120, .key backspace, .key 98, .key newline]).Faithful .read := by
  have step : ∀ es code, (Session.init.play es).Room (.key code) → (Session.init.play es).Meets (.key code) →
      ((Session.init.play es).next (.key code)).isSome →
      (Session.init.play es).Step (Session.init.play (es ++ [.key code])) := fun es code hr hm h =>
    ⟨.key code, hr, hm, Session.init.next_play es _ h⟩
  have h1 := step [] 97 (by decide +kernel) ⟨rfl, nofun⟩ (by decide +kernel)
  have h2 := step [.key 97] 120 (by decide +kernel) ⟨rfl, by decide⟩ (by decide +kernel)
  have h3 := step [.key 97, .key 120] backspace (by decide +kernel) ⟨rfl, fun _ => by decide +kernel⟩
    (by decide +kernel)
  have h4 := step [.key 97, .key 120, .key backspace] 98 (by decide +kernel) ⟨rfl, by decide⟩
    (by decide +kernel)
  have h5 := step [.key 97, .key 120, .key backspace, .key 98] newline (by decide +kernel)
    ⟨rfl, by decide⟩ (by decide +kernel)
  have hrun := ((((Relation.ReflTransGen.refl.tail h1).tail h2).tail h3).tail h4).tail h5
  exact (readStdin_faithful_iff hrun).2.mpr (.inl (by decide +kernel))

lemma Session.play_any (s : Session) (es : List Event) (e : Event) (hr : (s.play es).Room e)
    (h : ((s.play es).next e).isSome) : (s.play es).Any (s.play (es ++ [e])) :=
  ⟨e, hr, s.next_play es e h⟩

lemma Session.not_faithful_of_ne {s : Session} {line rest : List UInt8}
    (h : takeLine s.pending = some (line, rest)) (hne : (readStdin s.kbd).2.1 ≠ line) :
    ¬ s.Faithful .read := by
  unfold Session.Faithful
  rw [h]
  exact fun hf => hne hf.2

/-- Two lines, `a` and `b`, each read as soon as it is typed: the second one comes back behind two
stray bytes. -/
theorem readStdin_not_faithful :
    ∃ s, Relation.ReflTransGen Session.Any Session.init s ∧ ¬ s.Faithful .read := by
  have h1 := Session.init.play_any [] (.key 97) (by decide +kernel) (by decide +kernel)
  have h2 := Session.init.play_any [.key 97] (.key newline) (by decide +kernel) (by decide +kernel)
  have h3 := Session.init.play_any [.key 97, .key newline] .read trivial (by decide +kernel)
  have h4 := Session.init.play_any [.key 97, .key newline, .read] (.key 98) (by decide +kernel)
    (by decide +kernel)
  have h5 := Session.init.play_any [.key 97, .key newline, .read, .key 98] (.key newline)
    (by decide +kernel) (by decide +kernel)
  refine ⟨_, ((((Relation.ReflTransGen.refl.tail h1).tail h2).tail h3).tail h4).tail h5, ?_⟩
  have hline : takeLine (Session.init.play [.key 97, .key newline, .read, .key 98, .key newline]).pending =
      some ([98, newline], []) := by decide +kernel
  exact Session.not_faithful_of_ne hline (by decide +kernel)

end Nbos.Device
