import Mathlib.Tactic.Common

/-!
# Interrupt gates

The descriptors of `interrupt.c`. Every gate of the table is an interrupt gate, so that a handler runs
with interrupts off (`enter_initInterrupt`), and so do the system calls.
-/

namespace Nbos.Kernel

/-! ### The source -/

abbrev idtEntries : ℕ := 256

instance (priority := high) : @NeZero ℕ ⟨0⟩ idtEntries := ⟨Nat.succ_ne_zero 255⟩

abbrev interruptGateAttribute : UInt16 := 0x8e00
abbrev syscallInterruptGateAttribute : UInt16 := 0xee00
abbrev kcodeSelector : UInt16 := 0x8

/-- `struct gate_desc`. -/
structure GateDesc where
  offsetLow : UInt16
  selector : UInt16
  attr : UInt16
  offsetHigh : UInt16
  deriving DecidableEq

/-- `make_idt_desc`. -/
def makeIdtDesc (function : UInt32) (attr : UInt16) : GateDesc where
  attr := attr
  selector := kcodeSelector
  offsetHigh := ((function &&& 0xffff0000) >>> 16).toUInt16
  offsetLow := (function &&& 0x0000ffff).toUInt16

/-- The table that `init_interrupt` fills, with the addresses of the handlers. -/
def initInterrupt (handler : Fin idtEntries → UInt32) (vector : Fin idtEntries) : GateDesc :=
  makeIdtDesc (handler vector)
    (if vector = 128 then syscallInterruptGateAttribute else interruptGateAttribute)

/-! ### The processor -/

/-- The type of a gate, four bits of the attribute. -/
def GateDesc.type (gate : GateDesc) : UInt16 := (gate.attr >>> 8) &&& 0xf

/-- The interrupt flag behind a gate: an interrupt gate clears it, a trap gate leaves it. -/
def GateDesc.enter (gate : GateDesc) (intFlag : Bool) : Bool :=
  if gate.type = 0xe then false else intFlag

/-- **Behind every gate of the table interrupts are off.** -/
theorem enter_initInterrupt (handler : Fin idtEntries → UInt32) (vector : Fin idtEntries)
    (intFlag : Bool) : (initInterrupt handler vector).enter intFlag = false := by
  have htype : (initInterrupt handler vector).type = 0xe := by
    unfold initInterrupt makeIdtDesc GateDesc.type
    by_cases hv : vector = 128
    · simp only [hv, if_true]
      decide
    · simp only [hv, if_false]
      decide
  rw [GateDesc.enter, if_pos htype]

end Nbos.Kernel
