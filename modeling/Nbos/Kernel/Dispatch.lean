import Nbos.Kernel.Gate
import Nbos.Lib.Bits

/-!
# Dispatch

From the gate of a vector to the handler: the entry points of `interrupt_handler.s`, each of which
pushes a number for the vector, and `interrupt_assign`, which uses it and `eax` as they come. The one
entry point for all the vectors that have none of their own pushes a number that is no vector.
`dispatchSafe_iff` says for which vectors and which `eax` the tables are used as they should be.
-/

namespace Nbos.Kernel

open Nbos.Lib

/-! ### The source -/

/-- The entry points of `interrupt_handler.s`. -/
inductive Stub where
  | divideErrorHandler
  | debugHandler
  | nmiHandler
  | breakpointHandler
  | overflowHandler
  | boundHandler
  | invalidOpcodeHandler
  | doubleFaultHandler
  | invalidTssHandler
  | segmentNotPresentHandler
  | stackSegmentHandler
  | generalProtectionHandler
  | pageFaultHandler
  | timerHandler
  | keyboardHandler
  | syscallHandler
  | otherExceptionHandler
  deriving DecidableEq

/-- The number that an entry point pushes for the vector. -/
def Stub.interNo : Stub → UInt32
  | .divideErrorHandler => 0
  | .debugHandler => 1
  | .nmiHandler => 2
  | .breakpointHandler => 3
  | .overflowHandler => 4
  | .boundHandler => 5
  | .invalidOpcodeHandler => 6
  | .doubleFaultHandler => 8
  | .invalidTssHandler => 10
  | .segmentNotPresentHandler => 11
  | .stackSegmentHandler => 12
  | .generalProtectionHandler => 13
  | .pageFaultHandler => 14
  | .timerHandler => 0x20
  | .keyboardHandler => 0x21
  | .syscallHandler => 0x80
  | .otherExceptionHandler => 257

/-- Whether an entry point leaves the error code to the processor; else it pushes a 0 for it. -/
def Stub.hasErrorCode : Stub → Bool
  | .doubleFaultHandler | .invalidTssHandler | .segmentNotPresentHandler | .stackSegmentHandler
  | .generalProtectionHandler | .pageFaultHandler => true
  | _ => false

/-- The entry points that `init_interrupt` puts into the table. -/
def initHandler (vector : Fin idtEntries) : Stub :=
  match (vector : ℕ) with
  | 0 => .divideErrorHandler
  | 1 => .debugHandler
  | 2 => .nmiHandler
  | 3 => .breakpointHandler
  | 4 => .overflowHandler
  | 5 => .boundHandler
  | 6 => .invalidOpcodeHandler
  | 8 => .doubleFaultHandler
  | 10 => .invalidTssHandler
  | 11 => .segmentNotPresentHandler
  | 12 => .stackSegmentHandler
  | 13 => .generalProtectionHandler
  | 14 => .pageFaultHandler
  | 32 => .timerHandler
  | 33 => .keyboardHandler
  | 128 => .syscallHandler
  | _ => .otherExceptionHandler

/-- `intr_name`, as `init_interrupt` fills it. -/
def intrName (vector : Fin idtEntries) : String :=
  match (vector : ℕ) with
  | 0 => "#DE Divide Error"
  | 1 => "#DB Debug"
  | 2 => "NMI Interrupt"
  | 3 => "#BP Breakpoint"
  | 4 => "#OF Overflow"
  | 5 => "#BR Bound Range Exceeded"
  | 6 => "#UD Invalid Opcode(Undefined Opcode)"
  | 8 => "#DF Double Fault"
  | 10 => "#TS Invalid TSS"
  | 11 => "#NP Segment Not Present"
  | 12 => "#SS Stack Segment Fault"
  | 13 => "#GP General Protection"
  | 14 => "#PF Page Fault"
  | 32 => "#Timer INTERRUPT"
  | 33 => "# Keyboard Interrupt!"
  | 128 => "SYSTEM CALL"
  | _ => "unknown"

/-- The system calls. -/
inductive SysCall where
  | exit
  | fork
  | read
  | write
  | open
  | close
  | wait
  | creat
  | execve
  | clear
  deriving DecidableEq

/-- The numbers of `unistd.h`. -/
def SysCall.number : SysCall → UInt32
  | .exit => 1
  | .fork => 2
  | .read => 3
  | .write => 4
  | .open => 5
  | .close => 6
  | .wait => 7
  | .creat => 8
  | .execve => 11
  | .clear => 72

/-- `sys_call_table`; `none` is `NULL`. -/
def sysCallTable (funNo : Fin idtEntries) : Option SysCall :=
  match (funNo : ℕ) with
  | 1 => some .exit
  | 2 => some .fork
  | 3 => some .read
  | 4 => some .write
  | 5 => some .open
  | 6 => some .close
  | 7 => some .wait
  | 8 => some .creat
  | 11 => some .execve
  | 72 => some .clear
  | _ => none

/-- What an interrupt comes to. A system call may return a value to the caller, and an exception stops
the machine, with a name on the screen. -/
inductive Handled where
  | call (r : Option ℤ)
  | timer
  | keyboard
  | pageFault
  | halt (name : String)

/-- `general_intr_handler`; `none` for an index outside of `intr_name`. -/
def generalIntrHandler (intrNo : UInt32) : Option Handled :=
  if h : intrNo.toNat < idtEntries then some (.halt (intrName ⟨intrNo.toNat, h⟩)) else none

/-- `interrupt_assign`, where `sys` is what the system calls return; `none` for an index outside of a
table, and for a call of `NULL`. -/
def interruptAssign (sys : SysCall → Option ℤ) (intrNo eax : UInt32) : Option Handled :=
  if intrNo = 0x80 then
    if h : eax.toNat < idtEntries then
      (sysCallTable ⟨eax.toNat, h⟩).map fun c => .call (sys c)
    else none
  else if intrNo = 0x20 then some .timer
  else if intrNo = 0x21 then some .keyboard
  else if intrNo = 14 then some .pageFault
  else generalIntrHandler intrNo

/-! ### When the tables are used as they should be -/

/-- Where a gate leads. -/
def GateDesc.offset (gate : GateDesc) : UInt32 :=
  gate.offsetLow.toUInt32 + gate.offsetHigh.toUInt32 * 65536

/-- No table is left and `NULL` is not called, and who asks for a system call that there is not gets an
error. -/
structure DispatchSafe (sys : SysCall → Option ℤ) (stub : Stub) (eax : UInt32) : Prop where
  tables : (interruptAssign sys stub.interNo eax).isSome
  error : stub = .syscallHandler → (∀ c : SysCall, c.number ≠ eax) →
    ∃ r < 0, interruptAssign sys stub.interNo eax = some (.call (some r))

section Dispatch

variable {sys : SysCall → Option ℤ} {eax function : UInt32} {attr : UInt16} {vector : Fin idtEntries}
  {stub : Stub} {c : SysCall} {address : Stub → UInt32} {n : Fin idtEntries}

/-- A gate leads to its function. -/
lemma offset_makeIdtDesc : (makeIdtDesc function attr).offset = function := by
  have hhigh : (function.toNat &&& 0xffff0000) >>> 16 = function.toNat / 2 ^ 16 % 2 ^ 16 :=
    and_mask_shiftRight function.toNat 16 16
  have hlow : function.toNat &&& 0xffff = function.toNat % 2 ^ 16 :=
    Nat.and_two_pow_sub_one_eq_mod function.toNat 16
  have hlt := function.toNat_lt
  rw [← UInt32.toNat_inj]
  simp only [GateDesc.offset, makeIdtDesc, UInt32.toNat_add, UInt32.toNat_mul, UInt16.toNat_toUInt32,
    UInt32.toNat_toUInt16, UInt32.toNat_shiftRight, UInt32.toNat_and, UInt32.reduceToNat,
    Nat.reduceMod, hhigh, hlow]
  omega

/-- The table and the numbers agree. -/
lemma sysCallTable_eq_some : sysCallTable n = some c ↔ (n : ℕ) = c.number.toNat := by
  constructor
  · intro h
    unfold sysCallTable at h
    split at h <;> cases h <;> assumption
  · intro h
    unfold sysCallTable
    rw [h]
    cases c <;> rfl

lemma initHandler_eq_syscall : initHandler vector = .syscallHandler ↔ vector = 128 := by
  constructor
  · intro h
    unfold initHandler at h
    split at h <;> cases h
    rename_i hv
    exact Fin.ext hv
  · rintro rfl
    rfl

/-- A system call that there is, is called. -/
lemma interruptAssign_call : interruptAssign sys 0x80 c.number = some (.call (sys c)) := by
  cases c <;> rfl

/-- One that there is not is called as well, at `NULL` or past the table. -/
lemma interruptAssign_of_ne (h : ∀ c : SysCall, c.number ≠ eax) : interruptAssign sys 0x80 eax = none := by
  rw [interruptAssign, if_pos rfl]
  split
  · rename_i hlt
    rw [Option.map_eq_none_iff, Option.eq_none_iff_forall_ne_some]
    intro c hc
    exact h c (UInt32.toNat_inj.mp (sysCallTable_eq_some.mp hc).symm)
  · rfl

lemma dispatchSafe_syscall : DispatchSafe sys .syscallHandler eax ↔ ∃ c : SysCall, c.number = eax := by
  constructor
  · intro h
    by_contra hnone
    push Not at hnone
    have htables := h.tables
    rw [Stub.interNo, interruptAssign_of_ne hnone] at htables
    cases htables
  · rintro ⟨c, rfl⟩
    refine ⟨?_, fun _ hnone => absurd rfl (hnone c)⟩
    rw [Stub.interNo, interruptAssign_call]
    rfl

lemma not_dispatchSafe_other : ¬ DispatchSafe sys .otherExceptionHandler eax := by
  intro h
  have htables := h.tables
  cases htables

/-- **When dispatch is safe**: for a vector with an entry point of its own, and if that is the one for
system calls, an `eax` that is the number of a system call. -/
theorem dispatchSafe_iff (hinj : Function.Injective address)
    (henter : (initInterrupt (fun v => address (initHandler v)) vector).offset = address stub) :
    DispatchSafe sys stub eax ↔ initHandler vector ≠ .otherExceptionHandler ∧
      (vector = 128 → ∃ c : SysCall, c.number = eax) := by
  rw [initInterrupt, offset_makeIdtDesc] at henter
  obtain rfl := hinj henter
  rw [← initHandler_eq_syscall]
  cases hstub : initHandler vector with
  | syscallHandler =>
    rw [dispatchSafe_syscall]
    simp
  | otherExceptionHandler => exact iff_of_false not_dispatchSafe_other fun h => h.1 rfl
  | _ => exact iff_of_true ⟨rfl, fun h => by cases h⟩ ⟨by decide, fun h => by cases h⟩

end Dispatch

lemma interNo_injective : Function.Injective Stub.interNo := by
  intro s t h
  cases s <;> cases t <;> first | rfl | exact absurd h (by decide)

/-- The system call 4, by the gate 128. -/
theorem dispatchSafe_write : DispatchSafe (fun _ => some 0) .syscallHandler 4 :=
  (@dispatchSafe_iff _ 4 128 .syscallHandler Stub.interNo interNo_injective offset_makeIdtDesc).mpr
    ⟨by decide, fun _ => ⟨.write, rfl⟩⟩

/-- The vector 7, which has no entry point of its own, and the system calls 0 and 1000, which there are
not. -/
theorem dispatch_not_safe : ¬ DispatchSafe (fun _ => some 0) (initHandler 7) 0 ∧
    ¬ DispatchSafe (fun _ => some 0) (initHandler 128) 0 ∧
    ¬ DispatchSafe (fun _ => some 0) (initHandler 128) 1000 := by
  refine ⟨not_dispatchSafe_other, fun h => ?_, fun h => ?_⟩
  · obtain ⟨c, hc⟩ := dispatchSafe_syscall.mp h
    cases c <;> exact absurd hc (by decide)
  · obtain ⟨c, hc⟩ := dispatchSafe_syscall.mp h
    cases c <;> exact absurd hc (by decide)

end Nbos.Kernel
