import Nbos.Device.Number
import Nbos.Kernel.Dispatch
import Nbos.Memory.Paging

/-!
# What exceptions print

`do_page_fault` and `general_intr_handler` print what they have been given by the processor.
`report_eq_iff` says that such a report tells its registers.

`print` takes the lock of the screen and holds it while it reads its text, and the handler of a page
fault prints as well. So where a text runs into a page that is not mapped `print` never returns, and
neither does the handler (`print_returns_iff`): it waits for the lock that the code below it holds. The
gates of the table leave interrupts off, so nothing else runs.
-/

namespace Nbos.Kernel

open Nbos.Lib Nbos.Memory Nbos.Device.Print

/-! ### The handlers -/

/-- The bytes of a literal. -/
def ascii (s : String) : List UInt8 := s.toList.map fun c => .ofNat c.toNat

/-- The words that every report ends with. -/
def registerTexts (junk : Bytes) (ptr : IntrContext) : List (List UInt8) :=
  [ascii "\nCS\tEIP\tEFLAGS\n", printn junk ptr.cs.toUInt32, ascii "\t", printn junk ptr.eip, ascii "\t",
    printn junk ptr.eflags]

/-- What `do_page_fault` prints, one text after the other. -/
def doPageFault (junk : Bytes) (ptr : IntrContext) : List (List UInt8) :=
  if ptr.errorCode &&& 0x00000001 ≠ 0 then [ascii "Other page fault!\n"]
  else [ascii "Page is not present!\n", ascii "\nError Code:", printn junk ptr.errorCode] ++
    registerTexts junk ptr

/-- `intr_name[intr_no]`; `behind` is what is found behind its end, where `other_exception_handler` sends
the code with the vector 257. -/
def nameText (behind : UInt32 → List UInt8) (intrNo : UInt32) : List UInt8 :=
  if h : intrNo.toNat < idtEntries then ascii (intrName ⟨intrNo.toNat, h⟩) else behind intrNo

/-- What `general_intr_handler` prints before it stops the machine. -/
def generalIntrReport (behind : UInt32 → List UInt8) (junk : Bytes) (ptr : IntrContext) :
    List (List UInt8) :=
  [ascii "Exception Occur!\n", ascii "Vector NO.:", printn junk ptr.interNo, ascii "\nException name:",
    nameText behind ptr.interNo, ascii "\nError Code:", printn junk ptr.errorCode] ++ registerTexts junk ptr

section Reports

variable {behind : UInt32 → List UInt8} {junk junk' : Bytes} {ptr ptr' : IntrContext}
  {n n' : UInt32} {l l' : List UInt8}

lemma toUInt32_inj {a b : UInt16} (h : a.toUInt32 = b.toUInt32) : a = b := by
  have hnat := congrArg UInt32.toNat h
  rw [UInt16.toNat_toUInt32, UInt16.toNat_toUInt32] at hnat
  exact UInt16.toNat_inj.mp hnat

/-- A word that is printed first is told by what is printed. -/
lemma printn_append_inj (h : printn junk n ++ l = printn junk' n' ++ l') : n = n' ∧ l = l' := by
  obtain ⟨hn, hl⟩ := List.append_inj h (by rw [length_printn, length_printn])
  exact ⟨printn_inj hn, hl⟩

/-- The words at the end of a report. -/
lemma registerTexts_inj (h : (registerTexts junk ptr).flatten = (registerTexts junk' ptr').flatten) :
    ptr.cs = ptr'.cs ∧ ptr.eip = ptr'.eip ∧ ptr.eflags = ptr'.eflags := by
  simp only [registerTexts, List.flatten_cons, List.flatten_nil] at h
  obtain ⟨hcs, h⟩ := printn_append_inj (List.append_cancel_left h)
  obtain ⟨heip, h⟩ := printn_append_inj (List.append_cancel_left h)
  obtain ⟨heflags, -⟩ := printn_append_inj (List.append_cancel_left h)
  exact ⟨toUInt32_inj hcs, heip, heflags⟩

/-- **A report tells its registers**: exceptions have the same report exactly if they have the same
vector, error code, code segment, instruction and flags, whatever the buffers of the digits have held. -/
theorem report_eq_iff : (generalIntrReport behind junk ptr).flatten =
      (generalIntrReport behind junk' ptr').flatten ↔
    ptr.interNo = ptr'.interNo ∧ ptr.errorCode = ptr'.errorCode ∧ ptr.cs = ptr'.cs ∧
      ptr.eip = ptr'.eip ∧ ptr.eflags = ptr'.eflags := by
  constructor
  · intro h
    rw [generalIntrReport, generalIntrReport, List.flatten_append, List.flatten_append] at h
    simp only [List.flatten_cons, List.flatten_nil, List.append_nil, List.append_assoc] at h
    obtain ⟨hno, h⟩ := printn_append_inj (List.append_cancel_left (List.append_cancel_left h))
    rw [hno] at h
    have h := List.append_cancel_left (List.append_cancel_left (List.append_cancel_left h))
    obtain ⟨herr, h⟩ := printn_append_inj h
    exact ⟨hno, herr, registerTexts_inj h⟩
  · rintro ⟨hno, herr, hcs, heip, heflags⟩
    simp only [generalIntrReport, registerTexts, printn_eq, hno, herr, hcs, heip, heflags]

end Reports

/-! ### The processor -/

/-- Where `print` gets its text from: from an address, through the page tables, or from a literal. -/
inductive Source where
  | memory (p : ℕ)
  | text (l : List UInt8)

/-- What the processor is at: `acquire` or the loop of `print`, or the handler of a page fault with the
texts that are left. -/
inductive Activity where
  | acquire (src : Source)
  | put (src : Source)
  | handle (texts : List (List UInt8))

/-- The activity that runs and those that it has interrupted, the lock, and the screen. -/
structure Processor where
  stack : List Activity
  videoLock : ℕ
  screen : Screen

/-- The page tables, and what the handler of a page fault is given and finds. -/
structure Machine where
  ram : Bytes
  dir : ℕ
  junk : Bytes
  ctx : IntrContext

/-- The byte that the processor finds at an address; there is none on a page that is not mapped. -/
def Machine.byteAt (m : Machine) (p : ℕ) : Option UInt8 :=
  (walk m.ram m.dir (p % 2 ^ 32)).map fun pte => m.ram (target pte + p % pageSize)

/-- The byte at `p`, and the source after `p++`. -/
def Machine.fetch (m : Machine) : Source → Option (UInt8 × Source)
  | .memory p => (m.byteAt p).map fun b => (b, .memory (p + 1))
  | .text [] => some (0, .text [])
  | .text (b :: l) => some (b, .text l)

/-- `xchg` on the lock. -/
def xchg (s : ℕ) (i : ℕ) : ℕ × ℕ := (s, i)

/-- One step: of `acquire` once around its loop, of `print` one byte or `release`, of the handler the
call of the next `print` or `iret`, after which the access is tried again. -/
def Machine.step (m : Machine) (c : Processor) : Processor :=
  match c.stack with
  | [] => c
  | .acquire src :: rest =>
    let (old, lock) := xchg c.videoLock 1
    { c with stack := (if old ≠ 0 then .acquire src else .put src) :: rest, videoLock := lock }
  | .put src :: rest =>
    match m.fetch src with
    | none => { c with stack := .handle (doPageFault m.junk m.ctx) :: c.stack }
    | some (b, src) =>
      if b = 0 then { c with stack := rest, videoLock := 0 }
      else { c with stack := .put src :: rest, screen := putChar b c.screen }
  | .handle [] :: rest => { c with stack := rest }
  | .handle (t :: ts) :: rest => { c with stack := .acquire (.text t) :: .handle ts :: rest }

/-- `print` of the text at `p`, with the lock free. -/
def Processor.print (p : ℕ) (screen : Screen) : Processor := ⟨[.acquire (.memory p)], 0, screen⟩

/-- The bytes at `p` are those of the text, none of them the terminator. -/
def Machine.Reads (m : Machine) (p : ℕ) (text : List UInt8) : Prop :=
  ∀ k (h : k < text.length), m.byteAt (p + k) = some text[k] ∧ text[k] ≠ 0

section Processor

variable {m : Machine} {p n : ℕ} {screen : Screen} {text : List UInt8} {b : UInt8} {c : Processor}

lemma Machine.Reads.nil : m.Reads p [] := fun k hk => absurd hk (Nat.not_lt_zero k)

lemma Machine.reads_concat : m.Reads p (text ++ [b]) ↔
    m.Reads p text ∧ m.byteAt (p + text.length) = some b ∧ b ≠ 0 := by
  constructor
  · intro h
    refine ⟨fun k hk => ?_, ?_⟩
    · have hbyte := h k (by simp; omega)
      rwa [List.getElem_append_left hk] at hbyte
    · have hbyte := h text.length (by simp)
      simpa using hbyte
  · rintro ⟨h, hb⟩ k hk
    rw [List.length_append, List.length_singleton] at hk
    by_cases hlt : k < text.length
    · rw [List.getElem_append_left hlt]
      exact h k hlt
    · obtain rfl : k = text.length := by omega
      simpa using hb

/-- What has been read is on the screen, and the lock is held. -/
lemma iterate_put (h : m.Reads p text) : m.step^[text.length + 1] (.print p screen) =
    ⟨[.put (.memory (p + text.length))], 1, putChars text screen⟩ := by
  induction text using List.reverseRecOn with
  | nil => rfl
  | append_singleton text b ih =>
    obtain ⟨hreads, hbyte, hb⟩ := Machine.reads_concat.mp h
    rw [List.length_append, List.length_singleton, Function.iterate_succ_apply', ih hreads, Machine.step]
    simp only [Machine.fetch, hbyte, Option.map_some, if_neg hb, putChars_concat, Nat.add_assoc]

/-- At the terminator the lock is released. -/
lemma iterate_end (h : m.Reads p text) (h0 : m.byteAt (p + text.length) = some 0) :
    m.step^[text.length + 2] (.print p screen) = ⟨[], 0, putChars text screen⟩ := by
  rw [Function.iterate_succ_apply', iterate_put h, Machine.step]
  simp only [Machine.fetch, h0, Option.map_some, if_true]

/-- What a page fault leads to: the handler waits for the lock, which the code below it holds. -/
def stuck (m : Machine) (p : ℕ) (screen : Screen) : Processor :=
  match doPageFault m.junk m.ctx with
  | [] => ⟨[.put (.memory p)], 1, screen⟩
  | t :: ts => ⟨[.acquire (.text t), .handle ts, .put (.memory p)], 1, screen⟩

lemma doPageFault_ne_nil {junk : Bytes} {ctx : IntrContext} : doPageFault junk ctx ≠ [] := by
  unfold doPageFault
  split <;> simp

/-- **The handler never gets on.** -/
lemma iterate_stuck (h : m.Reads p text) (hnone : m.byteAt (p + text.length) = none) :
    m.step^[n + (text.length + 3)] (.print p screen) =
      stuck m (p + text.length) (putChars text screen) := by
  rw [Function.iterate_add_apply, Function.iterate_succ_apply', Function.iterate_succ_apply',
    iterate_put h]
  obtain ⟨t, ts, htexts⟩ := List.exists_cons_of_ne_nil (@doPageFault_ne_nil m.junk m.ctx)
  have hfault : m.step ⟨[.put (.memory (p + text.length))], 1, putChars text screen⟩ =
      ⟨[.handle (t :: ts), .put (.memory (p + text.length))], 1, putChars text screen⟩ := by
    simp only [Machine.step, Machine.fetch, hnone, Option.map_none, htexts]
  rw [hfault]
  have hstuck : stuck m (p + text.length) (putChars text screen) =
      ⟨[.acquire (.text t), .handle ts, .put (.memory (p + text.length))], 1, putChars text screen⟩ := by
    rw [stuck, htexts]
  rw [hstuck]
  exact Function.iterate_fixed rfl n

/-- Either a text ends, or it runs into a page that is not mapped, or it goes on for ever. -/
lemma Machine.text_cases (m : Machine) (p : ℕ) :
    (∃ text, m.Reads p text ∧ m.byteAt (p + text.length) = some 0) ∨
    (∃ text, m.Reads p text ∧ m.byteAt (p + text.length) = none) ∨
    ∀ n, ∃ text, m.Reads p text ∧ text.length = n := by
  by_cases hall : ∀ n, ∃ text, m.Reads p text ∧ text.length = n
  · exact .inr (.inr hall)
  push Not at hall
  classical
  -- the first length that is not read
  obtain ⟨hnone, hleast⟩ := And.intro (Nat.find_spec hall) fun k => @Nat.find_min _ _ hall k
  generalize Nat.find hall = n at hnone hleast
  cases n with
  | zero => exact absurd rfl (hnone [] .nil)
  | succ n =>
    have hread := hleast n (Nat.lt_succ_self n)
    push Not at hread
    obtain ⟨text, hreads, rfl⟩ := hread
    cases hbyte : m.byteAt (p + text.length) with
    | none => exact .inr (.inl ⟨text, hreads, hbyte⟩)
    | some b =>
      by_cases hb : b = 0
      · exact .inl ⟨text, hreads, hb ▸ hbyte⟩
      · exact absurd (by simp) (hnone (text ++ [b]) (Machine.reads_concat.mpr ⟨hreads, hbyte, hb⟩))

/-- Who has returned does nothing more. -/
lemma iterate_returned (h : (m.step^[n] c).stack = []) (k : ℕ) : (m.step^[k + n] c).stack = [] := by
  have hfixed : m.step (m.step^[n] c) = m.step^[n] c := by
    rw [Machine.step, h]
  rw [Function.iterate_add_apply, Function.iterate_fixed hfixed]
  exact h

lemma stuck_ne_nil : (stuck m p screen).stack ≠ [] := by
  unfold stuck
  split <;> simp

/-- **When `print` returns**: exactly if the text ends with its terminator before it comes to a page that
is not mapped. Then the text is on the screen and the lock is free. On a page that is not mapped the
handler waits for ever, and nothing of its report is seen. -/
theorem print_returns_iff :
    ((∃ n, (m.step^[n] (.print p screen)).stack = []) ↔
      ∃ text, m.Reads p text ∧ m.byteAt (p + text.length) = some 0) ∧
    (∀ text, m.Reads p text → m.byteAt (p + text.length) = some 0 →
      ∃ n, m.step^[n] (.print p screen) = ⟨[], 0, putChars text screen⟩) ∧
    ∀ text, m.Reads p text → m.byteAt (p + text.length) = none →
      ∃ N, ∀ n ≥ N, m.step^[n] (.print p screen) = stuck m (p + text.length) (putChars text screen) := by
  refine ⟨⟨?_, ?_⟩, fun text h h0 => ⟨_, iterate_end h h0⟩, fun text h hnone => ?_⟩
  · rintro ⟨n, hn⟩
    rcases m.text_cases p with hends | ⟨text, h, hnone⟩ | hall
    · exact hends
    · have hreturned := iterate_returned hn (text.length + 3)
      rw [Nat.add_comm, iterate_stuck h hnone] at hreturned
      exact absurd hreturned stuck_ne_nil
    · obtain ⟨text, h, rfl⟩ := hall n
      have hreturned := iterate_returned hn 1
      rw [Nat.add_comm, iterate_put h] at hreturned
      cases hreturned
  · rintro ⟨text, h, h0⟩
    exact ⟨_, congrArg Processor.stack (iterate_end h h0)⟩
  · refine ⟨text.length + 3, fun n hn => ?_⟩
    obtain ⟨k, rfl⟩ := Nat.exists_eq_add_of_le' hn
    exact iterate_stuck h hnone

end Processor

end Nbos.Kernel
