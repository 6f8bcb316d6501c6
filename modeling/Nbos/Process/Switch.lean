import Nbos.Process.Exit
import Nbos.Process.Fork

/-!
# Switching processes

`do_timer_handler` of `interrupt.c` saves the registers of the outgoing process, field by field;
`switchCtx` of `switchktou.s` loads those of the incoming one, by offset. The two do not agree:
the handler leaves the segment registers of the control block as they are, and `switchCtx` returns
with the address of the context in `edx`. `resume_iff` says when a process does not notice.
-/

namespace Nbos.Process

open Nbos.Lib Nbos.Kernel Nbos.Memory

/-! ### The source -/

/-- The registers of a process. -/
@[ext] structure Registers where
  eax : UInt32
  ebx : UInt32
  ecx : UInt32
  edx : UInt32
  esi : UInt32
  edi : UInt32
  ebp : UInt32
  esp : UInt32
  eip : UInt32
  eflags : UInt32
  cs : UInt16
  ss : UInt16
  ds : UInt16
  es : UInt16
  fs : UInt16
  gs : UInt16
  deriving DecidableEq

/-- The registers of the interrupted process: what the processor and the entry code have pushed. -/
def registers (ptr : IntrContext) : Registers where
  eax := ptr.eax
  ebx := ptr.ebx
  ecx := ptr.ecx
  edx := ptr.edx
  esi := ptr.esi
  edi := ptr.edi
  ebp := ptr.ebp
  esp := ptr.esp
  eip := ptr.eip
  eflags := ptr.eflags
  cs := ptr.cs
  ss := ptr.ss
  ds := ptr.ds
  es := ptr.es
  fs := ptr.fs
  gs := ptr.gs

/-- The part of `do_timer_handler` that saves the registers. -/
def saveContext (ptr : IntrContext) (c : Context) : Context :=
  { c with
    eip := ptr.eip
    eflags := ptr.eflags
    edi := ptr.edi
    eax := ptr.eax
    ecx := ptr.ecx
    esp := ptr.esp
    nesp := ptr.espCurrent
    ebp := ptr.ebp
    ebx := ptr.ebx
    edx := ptr.edx
    esi := ptr.esi }

/-- `do_timer_handler`: the state, and the slot it dispatches. -/
def doTimerHandler (ptr : IntrContext) (k : System) : System × Option (Fin pcbMax) :=
  match k.findState .runnable with
  | none => (k, none)
  | some p =>
    let last := k.current
    let k := { k with current := p }
    let k := k.setPcb last { k.pcblist last with pstate := .runnable }
    let k := k.setPcb p { k.pcblist p with pstate := .running }
    (k.setPcb last { k.pcblist last with ctx := saveContext ptr (k.pcblist last).ctx }, some p)

/-- Two neighbouring halfwords as one word. -/
def wordOf (lo hi : UInt16) : UInt32 := .ofNat (lo.toNat + 65536 * hi.toNat)

/-- The word at an offset of a context. -/
def dword (c : Context) : ℕ → UInt32
  | 0 => c.edi
  | 4 => c.esi
  | 8 => c.ebp
  | 12 => c.nesp
  | 16 => c.ebx
  | 20 => c.edx
  | 24 => c.ecx
  | 28 => c.eax
  | 32 => wordOf c.gs c.padding6
  | 36 => wordOf c.fs c.padding5
  | 40 => wordOf c.es c.padding4
  | 44 => wordOf c.ds c.padding3
  | 48 => c.eip
  | 52 => wordOf c.cs c.padding2
  | 56 => c.eflags
  | 60 => c.esp
  | 64 => wordOf c.ss c.padding1
  | _ => 0

/-- `switchCtx`, for the context `c` at the address `addr`: the registers it returns with. The last
loads go through `ds` once it is loaded, so a null selector in it is a fault. -/
def switchCtx (addr : UInt32) (c : Context) : Option Registers :=
  let edx := addr
  let edi := dword c 0
  let esi := dword c 4
  let ebp := dword c 8
  let ebx := dword c 16
  let ecx := dword c 24
  let eax := dword c 28
  let gs := (dword c 32).toUInt16
  let fs := (dword c 36).toUInt16
  let es := (dword c 40).toUInt16
  let ds := (dword c 44).toUInt16
  if ds &&& 0xfffc = 0 then none
  else
    let ss := (dword c 64).toUInt16
    let esp := dword c 60
    let eflags := dword c 56
    let cs := (dword c 52).toUInt16
    let eip := dword c 48
    some { eax, ebx, ecx, edx, esi, edi, ebp, esp, eip, eflags, cs, ss, ds, es, fs, gs }

/-- `sizeof(struct pcb)`. -/
abbrev pcbSize : ℕ := 256

/-- `&(pcblist[p].ctx)`, for the table at `pcblist`. -/
def ctxAddr (pcblist : ℕ) (p : Fin pcbMax) : UInt32 := .ofNat (pcblist + pcbSize * p)

/-! ### The timer -/

section Timer

variable {k k' : System} {ptr : IntrContext} {p a : Fin pcbMax}

/-- What a timer interrupt does that switches from the current process to `p`. -/
structure Switched (ptr : IntrContext) (p : Fin pcbMax) (k k' : System) : Prop where
  runnable : (k.pcblist p).pstate = .runnable
  current : k'.current = p
  pcb : ∀ q, q ≠ k.current → q ≠ p → k'.pcblist q = k.pcblist q
  next : p ≠ k.current → k'.pcblist p = { k.pcblist p with pstate := .running }
  last : k'.pcblist k.current =
    { k.proc with
      pstate := if k.current = p then .running else .runnable
      ctx := saveContext ptr k.proc.ctx }
  rest : k'.mem = k.mem ∧ k'.nextpid = k.nextpid ∧ k'.fileList = k.fileList ∧ k'.disk = k.disk ∧
    k'.keyboard = k.keyboard

lemma doTimerHandler_idle (h : k.findState .runnable = none) :
    doTimerHandler ptr k = (k, none) := by
  rw [doTimerHandler, h]

theorem doTimerHandler_spec (h : doTimerHandler ptr k = (k', some p)) : Switched ptr p k k' := by
  cases hp : k.findState .runnable with
  | none =>
    rw [doTimerHandler_idle hp] at h
    cases h
  | some q =>
    rw [doTimerHandler, hp] at h
    obtain ⟨rfl, hq⟩ := Prod.mk.inj h
    obtain rfl := Option.some_inj.mp hq
    refine ⟨System.findState_spec hp, rfl, fun r hlast hr => ?_, fun hne => ?_, ?_,
      rfl, rfl, rfl, rfl, rfl⟩
    · rw [System.setPcb_of_ne hlast, System.setPcb_of_ne hr, System.setPcb_of_ne hlast]
    · rw [System.setPcb_of_ne hne, System.setPcb_self, System.setPcb_of_ne hne]
    · rw [System.setPcb_self]
      by_cases hc : k.current = q
      · subst hc
        simp only [System.setPcb_self, if_true]
      · simp only [System.setPcb_of_ne hc, System.setPcb_self, if_neg hc]

end Timer

/-! ### Resuming -/

/-- A step of the others: the process in slot `a` is not dispatched, and its slot is not free for
`sys_fork`. -/
inductive Elsewhere (a : Fin pcbMax) : System → System → Prop
  | timer {k k' : System} {p : Fin pcbMax} (ptr : IntrContext) :
      doTimerHandler ptr k = (k', some p) → p ≠ a → Elsewhere a k k'
  | exit {k k' : System} {next : Fin pcbMax} :
      sysExit k = some (k', next) → next ≠ a → Elsewhere a k k'
  | fork {k k' : System} {r : ℤ} (ptr : IntrContext) : k.proc.pstate ≠ .free →
      (k.pcblist a).pstate ≠ .free → sysFork ptr k = some (r, k') → Elsewhere a k k'
  | wait {k k' : System} {r : ℤ} : sysWait k = some (r, k') → Elsewhere a k k'

/-- The process in slot `a` is dispatched, by the timer or by `sys_exit`. -/
def Dispatched (a : Fin pcbMax) (k k' : System) : Prop :=
  (∃ ptr, doTimerHandler ptr k = (k', some a)) ∨ sysExit k = some (k', a)

/-- The context `c` already has what the handler does not save, and the process holds in `edx` what
`switchCtx` leaves there. -/
structure Unnoticed (addr : UInt32) (ptr : IntrContext) (c : Context) : Prop where
  edx : ptr.edx = addr
  cs : ptr.cs = c.cs
  ss : ptr.ss = c.ss
  ds : ptr.ds = c.ds
  es : ptr.es = c.es
  fs : ptr.fs = c.fs
  gs : ptr.gs = c.gs
  notNull : ptr.ds &&& 0xfffc ≠ 0

section Resume

variable {k k' k₀ k₁ k₂ k₃ : System} {ptr : IntrContext} {p a : Fin pcbMax} {addr : UInt32}
  {c : Context}

lemma toUInt16_wordOf {lo hi : UInt16} : (wordOf lo hi).toUInt16 = lo := by
  have hlo := lo.toNat_lt
  apply UInt16.toNat_inj.mp
  rw [UInt32.toNat_toUInt16, wordOf, UInt32.toNat_ofNat']
  omega

/-- **What `switchCtx` makes of a saved context.** -/
theorem switchCtx_saveContext :
    switchCtx addr (saveContext ptr c) = some (registers ptr) ↔ Unnoticed addr ptr c := by
  simp only [switchCtx, dword, toUInt16_wordOf, saveContext]
  constructor
  · intro h
    split at h
    · cases h
    · rename_i hnull
      have he := Option.some_inj.mp h
      simp only [registers, Registers.mk.injEq, true_and] at he
      obtain ⟨hedx, hcs, hss, hds, hes, hfs, hgs⟩ := he
      exact ⟨hedx.symm, hcs.symm, hss.symm, hds.symm, hes.symm, hfs.symm, hgs.symm, hds ▸ hnull⟩
  · rintro ⟨hedx, hcs, hss, hds, hes, hfs, hgs, hnull⟩
    rw [hds] at hnull
    rw [if_neg hnull, registers, hedx, hcs, hss, hds, hes, hfs, hgs]

lemma exit_ctx (h : sysExit k = some (k', p)) : (k'.pcblist a).ctx = (k.pcblist a).ctx := by
  obtain ⟨-, q, -, hexit⟩ := sysExit_spec h
  by_cases ha : a = q
  · subst ha
    rw [hexit.proc]
  · rw [hexit.pcb a ha]

lemma timer_ctx (h : doTimerHandler ptr k = (k', some p)) (ha : a ≠ k.current) :
    (k'.pcblist a).ctx = (k.pcblist a).ctx := by
  have hsw := doTimerHandler_spec h
  by_cases hap : a = p
  · subst hap
    rw [hsw.next ha]
  · rw [hsw.pcb a ha hap]

/-- The others leave the context alone, and the process does not become the current one. -/
lemma Elsewhere.ctx (h : Elsewhere a k k') (ha : k.current ≠ a) :
    k'.current ≠ a ∧ (k'.pcblist a).ctx = (k.pcblist a).ctx := by
  cases h with
  | timer ptr h hp =>
    refine ⟨?_, timer_ctx h ha.symm⟩
    rw [(doTimerHandler_spec h).current]
    exact hp
  | exit h hnext =>
    obtain ⟨rfl, -⟩ := sysExit_spec h
    exact ⟨hnext, exit_ctx h⟩
  | fork ptr hcur hfree h =>
    rcases sysFork_spec hcur h with ⟨-, hget⟩ | ⟨q, hfork⟩
    · rw [getPid_eq hget]
      exact ⟨ha, rfl⟩
    · rw [hfork.rest.1]
      refine ⟨ha, ?_⟩
      rw [hfork.pcb a fun e => hfree (e ▸ hfork.free)]
  | wait h =>
    simp only [sysWait] at h
    split at h
    · obtain ⟨-, rfl⟩ := Prod.mk.inj (Option.some_inj.mp h)
      exact ⟨ha, rfl⟩
    · obtain ⟨i, -, h⟩ := Option.map_eq_some_iff.mp h
      obtain ⟨-, rfl⟩ := Prod.mk.inj h
      refine ⟨ha, ?_⟩
      rw [System.setPcb_pcblist]
      split
      · rename_i hai
        rw [hai]
      · rfl

/-- **When preemption is transparent**: a process that the timer has switched away from resumes with
the registers it had exactly if its control block already held its segment registers, and it held
the address of its context in `edx`. -/
theorem resume_iff {pcblist : ℕ} (ha : k₀.current = a)
    (hswitch : doTimerHandler ptr k₀ = (k₁, some p)) (hp : p ≠ a)
    (hrun : Relation.ReflTransGen (Elsewhere a) k₁ k₂) (hdisp : Dispatched a k₂ k₃) :
    switchCtx (ctxAddr pcblist a) (k₃.pcblist a).ctx = some (registers ptr) ↔
      Unnoticed (ctxAddr pcblist a) ptr (k₀.pcblist a).ctx := by
  have hsw := doTimerHandler_spec hswitch
  have hsaved : (k₁.pcblist a).ctx = saveContext ptr (k₀.pcblist a).ctx := by
    rw [← ha, hsw.last]
  have hkept : k₂.current ≠ a ∧ (k₂.pcblist a).ctx = (k₁.pcblist a).ctx := by
    clear hdisp
    induction hrun with
    | refl => exact ⟨hsw.current ▸ hp, rfl⟩
    | tail _ hstep ih =>
      obtain ⟨hcur, hctx⟩ := ih
      obtain ⟨hcur', hctx'⟩ := hstep.ctx hcur
      exact ⟨hcur', hctx'.trans hctx⟩
  have hlast : (k₃.pcblist a).ctx = (k₂.pcblist a).ctx := by
    rcases hdisp with ⟨ptr', h⟩ | h
    · exact timer_ctx h hkept.1.symm
    · exact exit_ctx h
  rw [hlast, hkept.2, hsaved]
  exact switchCtx_saveContext

end Resume

/-! ### Process 0 and its first child -/

/-- A trap frame from user mode. -/
def userFrame : IntrContext where
  edi := 1
  esi := 2
  ebp := 3
  espCurrent := 0
  ebx := 4
  edx := 5
  ecx := 6
  eax := 7
  gs := 0
  fs := 0
  es := 0x23
  ds := 0x23
  interNo := 0x20
  errorCode := 0
  eip := 0x1000
  cs := 0x1b
  eflags := 0x202
  esp := 0xbffffff0
  ss := 0x23

/-- The process table after `init_pcb` and the first `sys_fork`. -/
def twoProcesses : System where
  mem := ⟨fun _ => 0, 0⟩
  pcblist := fun i =>
    if i = 0 then { zeroPcb with pstate := .running }
    else if i = 1 then copyContext userFrame { zeroPcb with pstate := .runnable, pid := 1 }
    else zeroPcb
  current := 0
  nextpid := 2
  fileList := fun _ => ⟨0, 0, 0, 0, false⟩
  disk := fun _ => 0
  keyboard := .init

/-- A timer interrupt from process 0, and one from process 1. -/
def switchedTwice : System :=
  (doTimerHandler userFrame (doTimerHandler userFrame twoProcesses).1).1

/-- Process 1 after the first of them. -/
def childFirst : System := (doTimerHandler userFrame twoProcesses).1

/-- Its registers, when it happens to have the address of its context in `edx`. -/
def childFrame : IntrContext := { userFrame with edx := ctxAddr 0xc0020000 1 }

theorem resume_iff_twoProcesses :
    switchCtx (ctxAddr 0xc0020000 1)
      ((doTimerHandler userFrame (doTimerHandler childFrame childFirst).1).1.pcblist 1).ctx =
        some (registers childFrame) :=
  (resume_iff (p := 0) rfl (show doTimerHandler childFrame childFirst = (_, some 0) from rfl)
    (by decide) .refl (.inl ⟨userFrame, rfl⟩)).mpr (by constructor <;> decide)

/-- Process 0 has never had a context: it is not resumed at all, `ds` is null. -/
theorem resume_process_zero :
    (doTimerHandler userFrame twoProcesses).2 = some 1 ∧
      (doTimerHandler userFrame (doTimerHandler userFrame twoProcesses).1).2 = some 0 ∧
      switchCtx (ctxAddr 0xc0020000 0) (switchedTwice.pcblist 0).ctx ≠
        some (registers userFrame) := by
  exact ⟨by decide, by decide, by decide⟩

end Nbos.Process
