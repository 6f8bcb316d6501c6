import Nbos.Kernel.Dispatch
import Nbos.Process.Switch

/-!
# Entering and leaving the kernel

The processor and `interrupt_handler.s` push the registers of the interrupted process, and pop them
again. In between stands the C code: it finds what has been pushed as a `struct intr_context`
(`contextAt`), and is only known to keep the conventions (`Cdecl`). `interrupt_transparent` follows the
words of the frame through all of it.
-/

namespace Nbos.Process

open Nbos.Lib Nbos.Kernel Nbos.Memory

/-! ### The processor -/

/-- The registers, and memory as the kernel addresses it. Where the kernel is in its own code is not
part of it. -/
structure Machine where
  reg : Registers
  mem : Bytes

def Machine.push (v : UInt32) (s : Machine) : Machine where
  reg := { s.reg with esp := s.reg.esp - 4 }
  mem := put32 s.mem (s.reg.esp - 4).toNat v.toNat

/-- One `push` after the other. -/
def Machine.pushes : List UInt32 → Machine → Machine
  | [], s => s
  | v :: vs, s => (s.push v).pushes vs

/-- The word `k` bytes from the top of the stack. -/
def Machine.word (k : UInt32) (s : Machine) : UInt32 := .ofNat (get32 s.mem (s.reg.esp + k).toNat)

/-- `add esp, k`. -/
def Machine.discard (k : UInt32) (s : Machine) : Machine :=
  { s with reg := { s.reg with esp := s.reg.esp + k } }

def Machine.pusha (s : Machine) : Machine :=
  let r := s.reg
  s.pushes [r.eax, r.ecx, r.edx, r.ebx, r.esp, r.ebp, r.esi, r.edi]

def Machine.popa (s : Machine) : Machine :=
  { s with reg := { s.reg with
      edi := s.word 0
      esi := s.word 4
      ebp := s.word 8
      ebx := s.word 16
      edx := s.word 20
      ecx := s.word 24
      eax := s.word 28
      esp := s.reg.esp + 32 } }

/-- The vectors for which the processor pushes an error code. -/
def pushesErrorCode (vector : Fin idtEntries) : Bool :=
  (vector : ℕ) ∈ [8, 10, 11, 12, 13, 14, 17, 21]

/-- What an interrupt does in user mode, with the stack of `tss`. In a slot with a segment register the
upper half is not defined: it is taken from `pad`. The resume flag, which is set in what is pushed for a
fault, is left out. -/
def Machine.interrupt (esp0 : UInt32) (ss0 : UInt16) (pad : ℕ → UInt16) (errorCode : Option UInt32)
    (s : Machine) : Machine :=
  let r := s.reg
  let s := { s with reg := { r with
    esp := esp0
    ss := ss0
    cs := kcodeSelector
    eflags := r.eflags &&& 0xfffcbcff } }
  s.pushes ([wordOf r.ss (pad 18), r.esp, r.eflags, wordOf r.cs (pad 15), r.eip] ++ errorCode.toList)

/-- The access byte of a descriptor of `gdt`. -/
def gdtAccess : ℕ → UInt8
  | 1 => 0x9a
  | 2 => 0x92
  | 3 => 0xfa
  | 4 => 0xf2
  | 5 => 0x89
  | _ => 0

/-- A selector that stays in its register when the processor leaves for user mode: 0, or one of a
segment with the privilege level of the user. -/
def UserSelector (sel : UInt16) : Prop :=
  sel = 0 ∨ sel &&& 4 = 0 ∧ (gdtAccess (sel >>> 3).toNat >>> 5) &&& 3 = 3

instance : DecidablePred UserSelector := fun sel => by unfold UserSelector; infer_instance

/-- What is left of a selector when the privilege level becomes that of the user. -/
def outerSelector (sel : UInt16) : UInt16 := if UserSelector sel then sel else 0

def Machine.iret (s : Machine) : Machine :=
  let r := { s.reg with
    eip := s.word 0
    cs := (s.word 4).toUInt16
    eflags := s.word 8
    esp := s.reg.esp + 12 }
  if r.cs &&& 3 = 0 then { s with reg := r }
  else
    { s with reg := { r with
        esp := s.word 12
        ss := (s.word 16).toUInt16
        ds := outerSelector r.ds
        es := outerSelector r.es
        fs := outerSelector r.fs
        gs := outerSelector r.gs } }

/-! ### The source -/

abbrev kdataSelector : UInt16 := 0x10

/-- `tss.esp0`, for the array `stack`. -/
def esp0 (stack : ℕ) : UInt32 := .ofNat (stack + 4 * 1024)

/-- What an entry point pushes. -/
def enterStub (stub : Stub) (s : Machine) : Machine :=
  s.pushes (if stub.hasErrorCode then [stub.interNo] else [0, stub.interNo])

/-- The part of `interrupt_entry` that saves the registers. -/
def pushContext (pad : ℕ → UInt16) (s : Machine) : Machine :=
  let r := s.reg
  (s.pushes [wordOf r.ds (pad 11), wordOf r.es (pad 10), wordOf r.fs (pad 9),
    wordOf r.gs (pad 8)]).pusha

/-- The part of `interrupt_entry` that changes to the segments of the kernel. Then `al` is used for the
interrupt controllers. -/
def changeSegments (s : Machine) : Machine :=
  let s := { s with reg := { s.reg with ebp := s.reg.esp } }
  let s := { s with reg := { s.reg with
    eax := (s.reg.eax &&& 0xffff0000) ||| 0x10
    ds := kdataSelector
    es := kdataSelector } }
  { s with reg := { s.reg with eax := (s.reg.eax &&& 0xffffff00) ||| 0x20 } }

/-- `interrupt_entry`, up to the first instruction of `interrupt_assign`; `ret` is the return address. -/
def interruptEntry (pad : ℕ → UInt16) (ret : UInt32) (s : Machine) : Machine :=
  let s := changeSegments (pushContext pad s)
  s.pushes [s.reg.ebp, ret]

/-- The machine at the first instruction of `interrupt_assign`, for an interrupt in user mode. -/
def callAssign (vector : Fin idtEntries) (stack : ℕ) (pad : ℕ → UInt16) (ret : UInt32)
    (errorCode : Option UInt32) (s : Machine) : Machine :=
  interruptEntry pad ret
    (enterStub (initHandler vector) (s.interrupt (esp0 stack) kdataSelector pad errorCode))

/-- The part of `interrupt_entry` that stores `eax` for a system call. -/
def saveResult (s : Machine) : Machine :=
  if get32 s.mem (s.reg.ebp + 12 * 4).toNat = 0x80 then
    { s with mem := put32 s.mem (s.reg.ebp + 7 * 4).toNat s.reg.eax.toNat }
  else s

/-- `pop gs`, `pop fs`, `pop es` and `pop ds`. -/
def Machine.popSegments (s : Machine) : Machine :=
  { s with reg := { s.reg with
      gs := (s.word 0).toUInt16
      fs := (s.word 4).toUInt16
      es := (s.word 8).toUInt16
      ds := (s.word 12).toUInt16
      esp := s.reg.esp + 16 } }

/-- The part of `interrupt_entry` from the label `not80` to the `iret`. -/
def popContext (s : Machine) : Machine := (s.discard 4).popa.popSegments.discard 8

/-- `interrupt_entry`, from the return of `interrupt_assign` on. -/
def interruptExit (s : Machine) : Machine := (popContext (saveResult s)).iret

/-- The `struct intr_context` at `ptr`, as C lays it out. -/
def contextAt (m : Bytes) (ptr : ℕ) : IntrContext where
  edi := .ofNat (get32 m ptr)
  esi := .ofNat (get32 m (ptr + 4))
  ebp := .ofNat (get32 m (ptr + 8))
  espCurrent := .ofNat (get32 m (ptr + 12))
  ebx := .ofNat (get32 m (ptr + 16))
  edx := .ofNat (get32 m (ptr + 20))
  ecx := .ofNat (get32 m (ptr + 24))
  eax := .ofNat (get32 m (ptr + 28))
  gs := .ofNat (get16 m (ptr + 32))
  fs := .ofNat (get16 m (ptr + 36))
  es := .ofNat (get16 m (ptr + 40))
  ds := .ofNat (get16 m (ptr + 44))
  interNo := .ofNat (get32 m (ptr + 48))
  errorCode := .ofNat (get32 m (ptr + 52))
  eip := .ofNat (get32 m (ptr + 56))
  cs := .ofNat (get16 m (ptr + 60))
  eflags := .ofNat (get32 m (ptr + 64))
  esp := .ofNat (get32 m (ptr + 68))
  ss := .ofNat (get16 m (ptr + 72))

/-- `*ptr`, for a function that has just been called with `ptr`. -/
def Machine.argument (s : Machine) : IntrContext := contextAt s.mem (s.word 4).toNat

/-! ### The frame -/

/-- Below `top`, the words `ws` are on the stack, and there is room for `n` more. -/
structure Stack (top : UInt32) (n : ℕ) (ws : List UInt32) (s : Machine) : Prop where
  room : 4 * n ≤ s.reg.esp.toNat
  base : s.reg.esp.toNat + 4 * ws.length = top.toNat
  words : WordsAt s.mem s.reg.esp.toNat ws

/-- What is on the stack when the registers have been saved, as a `struct intr_context`. -/
def frame (pad : ℕ → UInt16) (espCurrent interNo errorCode : UInt32) (r : Registers) : List UInt32 :=
  [r.edi, r.esi, r.ebp, espCurrent, r.ebx, r.edx, r.ecx, r.eax, wordOf r.gs (pad 8),
    wordOf r.fs (pad 9), wordOf r.es (pad 10), wordOf r.ds (pad 11), interNo, errorCode, r.eip,
    wordOf r.cs (pad 15), r.eflags, r.esp, wordOf r.ss (pad 18)]

/-- The `struct intr_context` of its words. -/
def contextOf (w : ℕ → UInt32) : IntrContext where
  edi := w 0
  esi := w 1
  ebp := w 2
  espCurrent := w 3
  ebx := w 4
  edx := w 5
  ecx := w 6
  eax := w 7
  gs := (w 8).toUInt16
  fs := (w 9).toUInt16
  es := (w 10).toUInt16
  ds := (w 11).toUInt16
  interNo := w 12
  errorCode := w 13
  eip := w 14
  cs := (w 15).toUInt16
  eflags := w 16
  esp := w 17
  ss := (w 18).toUInt16

section Enter

variable {s : Machine} {n k : ℕ} {v top ret : UInt32} {vs ws : List UInt32} {pad : ℕ → UInt16}
  {errorCode : Option UInt32} {stub : Stub} {ss0 : UInt16}

/-- What is on the stack stays there. -/
lemma Stack.words_push (h : Stack top (n + 1) ws s) :
    WordsAt (s.push v).mem s.reg.esp.toNat ws := by
  have hroom : 4 ≤ s.reg.esp.toNat := by
    have := h.room
    omega
  refine h.words.congr fun x hx _ => put32_of_not_mem (.inr ?_)
  rw [UInt32.toNat_sub_of_le _ _ hroom]
  show s.reg.esp.toNat - 4 + 4 ≤ x
  omega

lemma Stack.push (h : Stack top (n + 1) ws s) : Stack top n (v :: ws) (s.push v) := by
  have hroom := h.room
  have hbase := h.base
  have hesp : (s.push v).reg.esp.toNat = s.reg.esp.toNat - 4 :=
    UInt32.toNat_sub_of_le _ _ (show 4 ≤ s.reg.esp.toNat by omega)
  refine ⟨by omega, ?_, ?_, ?_⟩
  · rw [hesp, List.length_cons]
    omega
  · show get32 (put32 s.mem (s.push v).reg.esp.toNat v.toNat) (s.push v).reg.esp.toNat = v.toNat
    rw [get32_put32, Nat.mod_eq_of_lt v.toNat_lt]
  · rw [hesp, Nat.sub_add_cancel (by omega)]
    exact h.words_push

lemma Stack.pushes (vs : List UInt32) (h : Stack top k ws s) (hk : n + vs.length = k) :
    Stack top n (vs.reverse ++ ws) (s.pushes vs) := by
  subst hk
  induction vs generalizing s ws with
  | nil => exact h
  | cons v vs ih =>
    rw [List.reverse_cons, List.append_assoc]
    exact ih h.push

lemma reg_pushes : ∃ esp, (s.pushes vs).reg = { s.reg with esp := esp } := by
  induction vs generalizing s with
  | nil => exact ⟨s.reg.esp, rfl⟩
  | cons v vs ih =>
    obtain ⟨esp, hesp⟩ := @ih (s.push v)
    exact ⟨esp, hesp⟩

/-- What the processor and an entry point push. -/
lemma stack_enterStub (he : errorCode.isSome = stub.hasErrorCode) (htop : 84 ≤ top.toNat) :
    Stack top 14 [stub.interNo, errorCode.getD 0, s.reg.eip, wordOf s.reg.cs (pad 15), s.reg.eflags,
      s.reg.esp, wordOf s.reg.ss (pad 18)] (enterStub stub (s.interrupt top ss0 pad errorCode)) := by
  have hbase : Stack top 21 [] { s with reg := { s.reg with
      esp := top, ss := ss0, cs := kcodeSelector, eflags := s.reg.eflags &&& 0xfffcbcff } } :=
    ⟨htop, rfl, trivial⟩
  cases errorCode with
  | none =>
    have hinterrupt : Stack top 16 _ (s.interrupt top ss0 pad none) := hbase.pushes _ rfl
    rw [enterStub, if_neg (by rw [← he]; decide)]
    exact hinterrupt.pushes [0, stub.interNo] rfl
  | some e =>
    have hinterrupt : Stack top 15 _ (s.interrupt top ss0 pad (some e)) := hbase.pushes _ rfl
    rw [enterStub, if_pos (by rw [← he]; rfl)]
    exact hinterrupt.pushes [stub.interNo] rfl

/-- The other registers are those of the process. -/
lemma reg_enterStub : ∃ esp, (enterStub stub (s.interrupt top ss0 pad errorCode)).reg =
    { s.reg with
      esp := esp
      ss := ss0
      cs := kcodeSelector
      eflags := s.reg.eflags &&& 0xfffcbcff } := by
  obtain ⟨esp, henter⟩ := @reg_pushes (s.interrupt top ss0 pad errorCode)
    (if stub.hasErrorCode then [stub.interNo] else [0, stub.interNo])
  obtain ⟨esp', hinterrupt⟩ := @reg_pushes { s with reg := { s.reg with
      esp := top, ss := ss0, cs := kcodeSelector, eflags := s.reg.eflags &&& 0xfffcbcff } }
    ([wordOf s.reg.ss (pad 18), s.reg.esp, s.reg.eflags, wordOf s.reg.cs (pad 15), s.reg.eip] ++
      errorCode.toList)
  rw [enterStub, henter, Machine.interrupt, hinterrupt]
  exact ⟨esp, rfl⟩

/-- What `interrupt_entry` pushes. -/
lemma stack_pushContext (h : Stack top 14 ws s) : ∃ espCurrent, Stack top 2 ([s.reg.edi, s.reg.esi,
    s.reg.ebp, espCurrent, s.reg.ebx, s.reg.edx, s.reg.ecx, s.reg.eax, wordOf s.reg.gs (pad 8),
    wordOf s.reg.fs (pad 9), wordOf s.reg.es (pad 10), wordOf s.reg.ds (pad 11)] ++ ws)
      (pushContext pad s) := by
  obtain ⟨esp, hreg⟩ := @reg_pushes s [wordOf s.reg.ds (pad 11), wordOf s.reg.es (pad 10),
    wordOf s.reg.fs (pad 9), wordOf s.reg.gs (pad 8)]
  have hsegments : Stack top 10 _ (s.pushes [wordOf s.reg.ds (pad 11), wordOf s.reg.es (pad 10),
    wordOf s.reg.fs (pad 9), wordOf s.reg.gs (pad 8)]) := h.pushes _ rfl
  refine ⟨esp, ?_⟩
  rw [pushContext, Machine.pusha, hreg]
  exact hsegments.pushes [_, _, _, _, _, _, _, _] rfl

/-- What `interrupt_assign` finds: the words `ws`, and their address in `ebp` and as its argument. -/
structure Called (top : UInt32) (ws : List UInt32) (s : Machine) : Prop where
  arg : s.word 4 = s.reg.ebp
  esp : s.reg.esp = s.reg.ebp - 8
  room : 8 ≤ s.reg.ebp.toNat
  base : s.reg.ebp.toNat + 4 * ws.length = top.toNat
  words : WordsAt s.mem s.reg.ebp.toNat ws

/-- The call of `interrupt_assign`, with the address in `ebp`. -/
lemma Stack.called (h : Stack top 2 ws s) (hebp : s.reg.ebp = s.reg.esp) :
    Called top ws (s.pushes [s.reg.ebp, ret]) := by
  have hroom : 8 ≤ s.reg.ebp.toNat := by
    have := h.room
    rw [hebp]
    omega
  have hsub : (s.pushes [s.reg.ebp, ret]).reg.esp = s.reg.ebp - 8 := by
    show s.reg.esp - 4 - 4 = s.reg.ebp - 8
    rw [hebp]
    grind
  have hesp : (s.pushes [s.reg.ebp, ret]).reg.esp.toNat = s.reg.ebp.toNat - 8 := by
    rw [hsub]
    exact UInt32.toNat_sub_of_le _ _ hroom
  obtain ⟨-, harg, hwords⟩ := (h.pushes [s.reg.ebp, ret] (n := 0) rfl).words
  refine ⟨?_, hsub, hroom, hebp ▸ h.base, ?_⟩
  · have hlt := s.reg.ebp.toNat_lt
    have hfour : ((s.pushes [s.reg.ebp, ret]).reg.esp + 4).toNat =
        (s.pushes [s.reg.ebp, ret]).reg.esp.toNat + 4 := toNat_add_of_lt (by show _ + 4 < _; omega)
    rw [Machine.word, hfour, harg, UInt32.ofNat_toNat]
    rfl
  · rw [hesp, Nat.sub_add_eq _ 4 4, Nat.sub_add_cancel (by omega), Nat.sub_add_cancel (by omega)]
      at hwords
    exact hwords

lemma Stack.changeSegments (h : Stack top n ws s) : Stack top n ws (changeSegments s) :=
  ⟨h.room, h.base, h.words⟩

/-- **The frame.** -/
lemma called_enterStub (he : errorCode.isSome = stub.hasErrorCode) (htop : 84 ≤ top.toNat) :
    ∃ espCurrent, Called top (frame pad espCurrent stub.interNo (errorCode.getD 0) s.reg)
      (interruptEntry pad ret (enterStub stub (s.interrupt top ss0 pad errorCode))) := by
  obtain ⟨espCurrent, h⟩ := @stack_pushContext _ _ _ pad
    (@stack_enterStub s top pad errorCode stub ss0 he htop)
  obtain ⟨esp, hreg⟩ := @reg_enterStub s top pad errorCode stub ss0
  rw [hreg] at h
  exact ⟨espCurrent, h.changeSegments.called rfl⟩

end Enter

/-! ### Reading it back -/

/-- The words `w` at `p`, as many as a `struct intr_context` has. -/
def FrameAt (m : Bytes) (p : ℕ) (w : ℕ → UInt32) : Prop :=
  ∀ i < 19, get32 m (p + 4 * i) = (w i).toNat

section Leave

variable {s : Machine} {m m' : Bytes} {p : ℕ} {w : ℕ → UInt32} {a b k : UInt32} {i : ℕ}

lemma FrameAt.congr (h : FrameAt m p w) (heq : ∀ x, p ≤ x → x < p + 76 → m' x = m x) :
    FrameAt m' p w := by
  intro i hi
  rw [← h i hi]
  exact get32_congr fun k hk => heq _ (by omega) (by omega)

lemma FrameAt.set (h : FrameAt m p w) :
    FrameAt (put32 m (p + 4 * i) a.toNat) p (Function.update w i a) := by
  intro j hj
  by_cases hij : j = i
  · subst hij
    rw [get32_put32, Function.update_self]
    exact Nat.mod_eq_of_lt a.toNat_lt
  · rw [get32_put32_of_disjoint (by omega), Function.update_of_ne hij]
    exact h j hj

/-- The struct has its words. -/
lemma contextAt_eq (h : FrameAt m p w) : contextAt m p = contextOf w := by
  have hint : ∀ i < 19, UInt32.ofNat (get32 m (p + 4 * i)) = w i := by
    intro i hi
    rw [h i hi, UInt32.ofNat_toNat]
  have hshort : ∀ i < 19, UInt16.ofNat (get16 m (p + 4 * i)) = (w i).toUInt16 := by
    intro i hi
    rw [get16_eq, h i hi, ← UInt16.toNat_inj, UInt32.toNat_toUInt16, UInt16.toNat_ofNat', Nat.mod_mod]
  apply IntrContext.ext
  case gs => exact hshort 8 (by decide)
  case fs => exact hshort 9 (by decide)
  case es => exact hshort 10 (by decide)
  case ds => exact hshort 11 (by decide)
  case cs => exact hshort 15 (by decide)
  case ss => exact hshort 18 (by decide)
  case edi => exact hint 0 (by decide)
  case esi => exact hint 1 (by decide)
  case ebp => exact hint 2 (by decide)
  case espCurrent => exact hint 3 (by decide)
  case ebx => exact hint 4 (by decide)
  case edx => exact hint 5 (by decide)
  case ecx => exact hint 6 (by decide)
  case eax => exact hint 7 (by decide)
  case interNo => exact hint 12 (by decide)
  case errorCode => exact hint 13 (by decide)
  case eip => exact hint 14 (by decide)
  case eflags => exact hint 16 (by decide)
  case esp => exact hint 17 (by decide)

/-- A word of the frame, at its distance from the top of the stack. -/
lemma word_eq (h : FrameAt s.mem b.toNat w) (hb : b.toNat + 76 ≤ 2 ^ 32) (hesp : s.reg.esp = b + a)
    (hi : i < 19) (hk : a + k = .ofNat (4 * i)) : s.word k = w i := by
  have haddr : (s.reg.esp + k).toNat = b.toNat + 4 * i := by
    have hi' : (UInt32.ofNat (4 * i)).toNat = 4 * i := UInt32.toNat_ofNat_of_lt' (by show _ < 2 ^ 32; omega)
    rw [hesp, UInt32.add_assoc, hk, toNat_add_of_lt (by omega), hi']
  rw [Machine.word, haddr, h i hi, UInt32.ofNat_toNat]

lemma popa_reg (h : FrameAt s.mem b.toNat w) (hb : b.toNat + 76 ≤ 2 ^ 32) (hesp : s.reg.esp = b + 0) :
    s.popa.reg = { s.reg with
      edi := w 0
      esi := w 1
      ebp := w 2
      ebx := w 4
      edx := w 5
      ecx := w 6
      eax := w 7
      esp := b + 32 } := by
  rw [Machine.popa, @word_eq s w 0 b 0 0 h hb hesp (by decide) rfl,
    @word_eq s w 0 b 4 1 h hb hesp (by decide) rfl, @word_eq s w 0 b 8 2 h hb hesp (by decide) rfl,
    @word_eq s w 0 b 16 4 h hb hesp (by decide) rfl, @word_eq s w 0 b 20 5 h hb hesp (by decide) rfl,
    @word_eq s w 0 b 24 6 h hb hesp (by decide) rfl, @word_eq s w 0 b 28 7 h hb hesp (by decide) rfl,
    hesp, UInt32.add_zero]

lemma popSegments_reg (h : FrameAt s.mem b.toNat w) (hb : b.toNat + 76 ≤ 2 ^ 32)
    (hesp : s.reg.esp = b + 32) : s.popSegments.reg = { s.reg with
      gs := (w 8).toUInt16
      fs := (w 9).toUInt16
      es := (w 10).toUInt16
      ds := (w 11).toUInt16
      esp := b + 48 } := by
  rw [Machine.popSegments, @word_eq s w 32 b 0 8 h hb hesp (by decide) rfl,
    @word_eq s w 32 b 4 9 h hb hesp (by decide) rfl, @word_eq s w 32 b 8 10 h hb hesp (by decide) rfl,
    @word_eq s w 32 b 12 11 h hb hesp (by decide) rfl, hesp, UInt32.add_assoc]
  rfl

/-- With the privilege level of the user in `cs`, the whole frame is popped. -/
lemma iret_reg (h : FrameAt s.mem b.toNat w) (hb : b.toNat + 76 ≤ 2 ^ 32) (hesp : s.reg.esp = b + 56)
    (hcs : (w 15).toUInt16 &&& 3 ≠ 0) : s.iret.reg = { s.reg with
      eip := w 14
      cs := (w 15).toUInt16
      eflags := w 16
      esp := w 17
      ss := (w 18).toUInt16
      ds := outerSelector s.reg.ds
      es := outerSelector s.reg.es
      fs := outerSelector s.reg.fs
      gs := outerSelector s.reg.gs } := by
  rw [Machine.iret, @word_eq s w 56 b 0 14 h hb hesp (by decide) rfl,
    @word_eq s w 56 b 4 15 h hb hesp (by decide) rfl, @word_eq s w 56 b 8 16 h hb hesp (by decide) rfl,
    @word_eq s w 56 b 12 17 h hb hesp (by decide) rfl, @word_eq s w 56 b 16 18 h hb hesp (by decide) rfl]
  exact congrArg Machine.reg (if_neg hcs)

lemma popContext_reg (h : FrameAt s.mem b.toNat w) (hb : b.toNat + 76 ≤ 2 ^ 32)
    (hesp : s.reg.esp = b - 4) : (popContext s).reg = { s.reg with
      edi := w 0
      esi := w 1
      ebp := w 2
      ebx := w 4
      edx := w 5
      ecx := w 6
      eax := w 7
      gs := (w 8).toUInt16
      fs := (w 9).toUInt16
      es := (w 10).toUInt16
      ds := (w 11).toUInt16
      esp := b + 56 } := by
  have hdiscard : (s.discard 4).reg.esp = b + 0 := by
    show s.reg.esp + 4 = b + 0
    rw [hesp, UInt32.sub_add_cancel, UInt32.add_zero]
  have hpopa := popa_reg (s := s.discard 4) h hb hdiscard
  have hsegments := popSegments_reg (s := (s.discard 4).popa) h hb (by rw [hpopa])
  rw [popContext, Machine.discard, hsegments, hpopa, UInt32.add_assoc]
  rfl

/-- The slot of `eax` is written if the vector is that of the system calls. -/
lemma saveResult_frameAt (h : FrameAt s.mem s.reg.ebp.toNat w) (hb : s.reg.ebp.toNat + 76 ≤ 2 ^ 32) :
    FrameAt (saveResult s).mem s.reg.ebp.toNat
      (Function.update w 7 (if w 12 = 0x80 then s.reg.eax else w 7)) := by
  have hvector : (s.reg.ebp + 12 * 4).toNat = s.reg.ebp.toNat + 4 * 12 :=
    toNat_add_of_lt (by show _ + 48 < _; omega)
  have heax : (s.reg.ebp + 7 * 4).toNat = s.reg.ebp.toNat + 4 * 7 :=
    toNat_add_of_lt (by show _ + 28 < _; omega)
  have hword : (w 12).toNat = 0x80 ↔ w 12 = 0x80 := @UInt32.toNat_inj (w 12) 0x80
  rw [saveResult, hvector, heax, h 12 (by decide)]
  by_cases hw : w 12 = 0x80
  · rw [if_pos hw, if_pos (hword.mpr hw)]
    exact h.set
  · rw [if_neg hw, if_neg (mt hword.mp hw), Function.update_eq_self]
    exact h

lemma saveResult_reg : (saveResult s).reg = s.reg := by
  rw [saveResult]
  split <;> rfl

/-- **What `interrupt_entry` makes of the frame** on the way back. -/
theorem interruptExit_reg (h : FrameAt s.mem s.reg.ebp.toNat w) (hb : s.reg.ebp.toNat + 76 ≤ 2 ^ 32)
    (hesp : s.reg.esp = s.reg.ebp - 4) (hcs : (w 15).toUInt16 &&& 3 ≠ 0) :
    (interruptExit s).reg = { registers (contextOf w) with
      eax := if w 12 = 0x80 then s.reg.eax else w 7
      ds := outerSelector (w 11).toUInt16
      es := outerSelector (w 10).toUInt16
      fs := outerSelector (w 9).toUInt16
      gs := outerSelector (w 8).toUInt16 } := by
  have hsaved := saveResult_frameAt h hb
  have hpopped := popContext_reg (s := saveResult s) hsaved hb (by rw [saveResult_reg, hesp])
  rw [interruptExit, iret_reg (s := popContext (saveResult s)) hsaved hb (by rw [hpopped]) hcs, hpopped]
  rfl

end Leave

/-! ### Transparency -/

/-- What a process may have in its registers. (It can load 1, 2 or 3 into a segment register as well, but
these are null, and no `iret` to the user leaves them there.) -/
structure UserState (r : Registers) : Prop where
  privilege : r.cs &&& 3 = 3
  notVirtual : r.eflags &&& 0x20000 = 0
  selectors : ∀ sel ∈ [r.ds, r.es, r.fs, r.gs], UserSelector sel

/-- The conventions of C, from the first instruction of a function of one argument, with `s`, to the
return, with `s'`: `result` is in `eax`, and the frame of the caller, on the stack that ends at `top`,
is as it was. -/
structure Cdecl (top result : UInt32) (s s' : Machine) : Prop where
  eax : s'.reg.eax = result
  ebx : s'.reg.ebx = s.reg.ebx
  esi : s'.reg.esi = s.reg.esi
  edi : s'.reg.edi = s.reg.edi
  ebp : s'.reg.ebp = s.reg.ebp
  esp : s'.reg.esp = s.reg.esp + 4
  caller : ∀ x, s.reg.esp.toNat + 8 ≤ x → x < top.toNat → s'.mem x = s.mem x

section Transparent

variable {vector : Fin idtEntries} {stack : ℕ} {pad : ℕ → UInt16} {errorCode : Option UInt32}
  {top ret result espCurrent interNo code : UInt32} {ws : List UInt32} {s s' : Machine} {r : Registers}

/-- An entry point that a vector has for itself knows what the processor has pushed, -/
lemma hasErrorCode_initHandler (h : initHandler vector ≠ .otherExceptionHandler) :
    (initHandler vector).hasErrorCode = pushesErrorCode vector := by
  unfold initHandler at h ⊢
  unfold pushesErrorCode
  split at h <;> simp_all [Stub.hasErrorCode]

/-- and which vector it is. -/
lemma interNo_initHandler (h : initHandler vector ≠ .otherExceptionHandler) :
    (initHandler vector).interNo = .ofNat vector := by
  unfold initHandler at h ⊢
  split at h <;> simp_all [Stub.interNo]

lemma ofNat_vector : UInt32.ofNat vector = 0x80 ↔ vector = 128 := by
  have hlt : (vector : ℕ) < 256 := vector.isLt
  rw [← UInt32.toNat_inj, ← Fin.val_inj, UInt32.toNat_ofNat']
  show (vector : ℕ) % 2 ^ 32 = 128 ↔ (vector : ℕ) = 128
  omega

lemma Called.frameAt (h : Called top (frame pad espCurrent interNo code r) s) :
    FrameAt s.mem s.reg.ebp.toNat fun i => (frame pad espCurrent interNo code r).getD i 0 :=
  fun _ hi => h.words.get hi

/-- The slots of the frame and the fields of the struct agree. -/
lemma registers_frame :
    registers (contextOf fun i => (frame pad espCurrent interNo code r).getD i 0) = r := by
  simp [registers, contextOf, frame, toUInt16_wordOf]

/-- The C code leaves the frame alone. -/
lemma Called.returned (h : Called top (frame pad espCurrent interNo code r) s)
    (hcdecl : Cdecl top result s s') :
    FrameAt s'.mem s'.reg.ebp.toNat (fun i => (frame pad espCurrent interNo code r).getD i 0) ∧
      s'.reg.ebp.toNat + 76 ≤ 2 ^ 32 ∧ s'.reg.esp = s'.reg.ebp - 4 := by
  have hbase : s.reg.ebp.toNat + 76 = top.toNat := h.base
  have htop := top.toNat_lt
  have hesp : s.reg.esp.toNat = s.reg.ebp.toNat - 8 := by
    rw [h.esp]
    exact UInt32.toNat_sub_of_le _ _ h.room
  have hroom := h.room
  rw [hcdecl.ebp, hcdecl.esp, h.esp]
  refine ⟨h.frameAt.congr fun x hx hx' => hcdecl.caller x (by omega) (by omega), by omega, ?_⟩
  grind

/-- **Interrupts are transparent**: `interrupt_assign` finds the registers of the process, the vector
and the error code, and if it returns, by the conventions, the process has its registers again, but
for the result of a system call. -/
theorem interrupt_transparent (hstack : stack + 4096 < 2 ^ 32) (huser : UserState s.reg)
    (hown : initHandler vector ≠ .otherExceptionHandler)
    (he : errorCode.isSome = pushesErrorCode vector)
    (hcdecl : Cdecl (esp0 stack) result (callAssign vector stack pad ret errorCode s) s') :
    (registers (callAssign vector stack pad ret errorCode s).argument = s.reg ∧
      (callAssign vector stack pad ret errorCode s).argument.interNo = .ofNat vector ∧
      (callAssign vector stack pad ret errorCode s).argument.errorCode = errorCode.getD 0) ∧
    (interruptExit s').reg =
      { s.reg with eax := if vector = 128 then result else s.reg.eax } := by
  have htop : (esp0 stack).toNat = stack + 4096 := by
    rw [esp0, UInt32.toNat_ofNat', Nat.mod_eq_of_lt (by omega)]
  obtain ⟨espCurrent, hcalled⟩ := @called_enterStub s (esp0 stack) ret pad errorCode (initHandler vector)
    kdataSelector (he.trans (hasErrorCode_initHandler hown).symm) (by omega)
  rw [interNo_initHandler hown] at hcalled
  change Called _ _ (callAssign vector stack pad ret errorCode s) at hcalled
  constructor
  · rw [Machine.argument, hcalled.arg, contextAt_eq hcalled.frameAt]
    exact ⟨registers_frame, rfl, rfl⟩
  · obtain ⟨hframe, hlt, hesp⟩ := hcalled.returned hcdecl
    have hcs : (wordOf s.reg.cs (pad 15)).toUInt16 &&& 3 ≠ 0 := by
      rw [toUInt16_wordOf, huser.privilege]
      decide
    have hsel : ∀ sel ∈ [s.reg.ds, s.reg.es, s.reg.fs, s.reg.gs], ∀ hi,
        outerSelector (wordOf sel hi).toUInt16 = sel := by
      intro sel hmem hi
      rw [toUInt16_wordOf]
      exact if_pos (huser.selectors sel hmem)
    rw [interruptExit_reg hframe hlt hesp hcs, registers_frame, hcdecl.eax]
    refine Registers.ext ?_ rfl rfl rfl rfl rfl rfl rfl rfl rfl rfl rfl ?_ ?_ ?_ ?_
    · show (if UInt32.ofNat vector = 0x80 then result else s.reg.eax) = _
      simp only [ofNat_vector]
    · exact hsel s.reg.ds (by simp) (pad 11)
    · exact hsel s.reg.es (by simp) (pad 10)
    · exact hsel s.reg.fs (by simp) (pad 9)
    · exact hsel s.reg.gs (by simp) (pad 8)

end Transparent

/-- A process that asks for the system call 2, with the selectors of the user. -/
def userMachine : Machine where
  reg := { registers userFrame with eax := 2, gs := 0x18 }
  mem := fun _ => 0

lemma userState_userMachine : UserState userMachine.reg where
  privilege := by decide
  notVirtual := by decide
  selectors := by
    have hdata : UserSelector 0x23 := .inr ⟨rfl, rfl⟩
    have hcode : UserSelector 0x18 := .inr ⟨rfl, rfl⟩
    have hnull : UserSelector 0 := .inl rfl
    exact List.forall_mem_cons.mpr ⟨hdata, List.forall_mem_cons.mpr ⟨hdata,
      List.forall_mem_cons.mpr ⟨hnull, List.forall_mem_singleton.mpr hcode⟩⟩⟩

/-- The return from a function, with 5. -/
def Machine.returnFive (s : Machine) : Machine :=
  { s with reg := { s.reg with eax := 5, ecx := 0, edx := 0, esp := s.reg.esp + 4 } }

lemma cdecl_returnFive {top : UInt32} {s : Machine} : Cdecl top 5 s s.returnFive :=
  ⟨rfl, rfl, rfl, rfl, rfl, rfl, fun _ _ _ => rfl⟩

theorem interrupt_transparent_syscall :
    (registers (callAssign 128 0xc0020000 (fun _ => 7) 0xc0001234 none userMachine).argument =
        userMachine.reg ∧
      (callAssign 128 0xc0020000 (fun _ => 7) 0xc0001234 none userMachine).argument.interNo = 128 ∧
      (callAssign 128 0xc0020000 (fun _ => 7) 0xc0001234 none userMachine).argument.errorCode = 0) ∧
    (interruptExit (callAssign 128 0xc0020000 (fun _ => 7) 0xc0001234 none userMachine).returnFive).reg =
      { userMachine.reg with eax := 5 } :=
  @interrupt_transparent 128 0xc0020000 (fun _ => 7) none 0xc0001234 5 userMachine _ (by decide)
    userState_userMachine (by decide) rfl cdecl_returnFive

end Nbos.Process
