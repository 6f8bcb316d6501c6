import Nbos.Process.Descriptors

/-!
# The descriptor tables

A descriptor is a flag and a pointer, which `sys_open`, `sys_close` and `sys_exit` set one after the
other, `sys_fork` copies and `sys_wait` leaves as they are. Every descriptor after a call was there
before it, or has just been opened or closed (`Act.origin`), so the two agree in every run
(`descriptors_agree`), and no call follows a `NULL` pointer.
-/

namespace Nbos.Process

open Nbos.Lib Nbos.Kernel
open Nbos.Fs hiding Sane

/-- The flag is set exactly if there is an entry of the file table. -/
def Agrees (f : Fd) : Prop := f.openFlag = true ↔ f.ofptr ≠ none

/-- Where a descriptor after a call comes from. -/
inductive Origin (k : System) : Fd → Prop
  | kept (p : Fin pcbMax) (i : Fin fileMaxInProcess) : Origin k ((k.pcblist p).fdlist i)
  | opened (j : Fin fileMaxInSys) : Origin k ⟨true, some j⟩
  | closed : Origin k ⟨false, none⟩

/-- A call or an interrupt. -/
def Act.Step (a : Act) (k k' : System) : Prop :=
  match a with
  | .call c => Process.Step c k k'
  | .file c => ∃ r, c.perform k = some (r, k')

section FdTable

variable {k k' : System} {a : Act} {f : Fd} {p : Fin pcbMax} {r fd : ℤ} {path : List UInt8}
  {junk : List UInt8 → List UInt8} {oflag : UInt32}

/-! ### One step -/

lemma agrees_closed : Agrees ⟨false, none⟩ := iff_of_false (by decide) fun h => h rfl

lemma Origin.agrees (h : Origin k f) (hk : ∀ p i, Agrees ((k.pcblist p).fdlist i)) : Agrees f := by
  cases h with
  | kept p i => exact hk p i
  | opened j => exact iff_of_true rfl (Option.some_ne_none j)
  | closed => exact agrees_closed

/-- Descriptors that stay where they are. -/
lemma origin_of_fdlist (h : (k'.pcblist p).fdlist = (k.pcblist p).fdlist)
    (i : Fin fileMaxInProcess) : Origin k ((k'.pcblist p).fdlist i) := by
  rw [h]
  exact .kept p i

/-- One descriptor of the current process is set. -/
lemma origin_setFd {i : Fin fileMaxInProcess} (hf : Origin k f)
    (h : k'.pcblist = (k.setPcb k.current
      { k.proc with fdlist := Function.update k.proc.fdlist i f }).pcblist)
    (p : Fin pcbMax) (i' : Fin fileMaxInProcess) : Origin k ((k'.pcblist p).fdlist i') := by
  rw [h, System.setPcb_pcblist]
  by_cases hp : p = k.current
  · rw [if_pos hp]
    by_cases hi : i' = i
    · subst hi
      simp only [Function.update_self]
      exact hf
    · simp only [Function.update_of_ne hi]
      exact .kept k.current i'
  · rw [if_neg hp]
    exact .kept p i'

lemma Step.origin {c : Call} (hk : Sane k) (hs : Step c k k') (q : Fin pcbMax)
    (i : Fin fileMaxInProcess) : Origin k ((k'.pcblist q).fdlist i) := by
  cases hs.stepped hk with
  | idle | forkFails | waitFails => exact .kept q i
  | switch hsw => exact origin_of_fdlist (hsw.fdlist q) i
  | @fork _ p _ _ hforked =>
    by_cases hq : q = p
    · -- the child has the descriptors of its parent
      rw [hq, hforked.proc]
      exact .kept k.current i
    · apply origin_of_fdlist
      rw [hforked.pcb q hq]
  | execve h =>
    apply origin_of_fdlist
    rw [sysExecve_spec h]
  | @exit p _ _ hx =>
    by_cases hq : q = p
    · subst hq
      rw [hx.fds]
      split
      · exact .closed
      · exact .kept q i
    · apply origin_of_fdlist
      rw [hx.pcb q hq]
  | reap =>
    apply origin_of_fdlist
    exact System.setPcb_fdlist rfl

lemma sysOpen_origin (h : sysOpen junk path oflag k = some (r, k')) (q : Fin pcbMax)
    (i : Fin fileMaxInProcess) : Origin k ((k'.pcblist q).fdlist i) := by
  obtain ⟨inode, -, ⟨-, -, rfl⟩ | ⟨fd, -, -, ⟨-, rfl⟩ | ⟨j, ho⟩⟩⟩ := sysOpen_spec h
  · exact .kept q i
  · exact .kept q i
  · apply origin_setFd (.opened j)
    rw [ho.eq]

lemma FileCall.origin {c : FileCall} (h : c.perform k = some (r, k')) (q : Fin pcbMax)
    (i : Fin fileMaxInProcess) : Origin k ((k'.pcblist q).fdlist i) := by
  cases c with
  | «open» junk path oflag => exact sysOpen_origin h q i
  | creat stack junk junk' path mode =>
    rcases sysCreat_spec h with ⟨disk, -, -, rfl⟩ | ⟨disk, -, ho⟩
    · exact .kept q i
    · have ho' := sysOpen_origin ho q i
      generalize (k'.pcblist q).fdlist i = f at ho' ⊢
      cases ho' with
      | kept p i' => exact .kept p i'
      | opened j => exact .opened j
      | closed => exact .closed
  | close fd =>
    rcases sysClose_spec (Option.some_inj.mp h) with ⟨rfl, -⟩ | ⟨i', -, -, rfl⟩
    · exact .kept q i
    · exact origin_setFd .closed rfl q i
  | read junk fd ptr size => exact origin_of_fdlist (by rw [(sysRead_spec h).pcblist]) i
  | write fd ptr buf size => exact origin_of_fdlist (by rw [(sysWrite_spec h).pcblist]) i

/-- **Every descriptor was there before, or has just been opened or closed.** -/
theorem Act.origin (hk : Sane k) (hs : a.Step k k') (q : Fin pcbMax) (i : Fin fileMaxInProcess) :
    Origin k ((k'.pcblist q).fdlist i) := by
  cases a with
  | call c => exact Process.Step.origin hk hs q i
  | file c =>
    obtain ⟨r, h⟩ := hs
    exact FileCall.origin h q i

lemma Act.sane (hk : Sane k) (hs : a.Step k k') : Sane k' := by
  cases a with
  | call c => exact hk.step hs
  | file c =>
    obtain ⟨r, h⟩ := hs
    exact FileCall.sane hk h

lemma HeldStep.act {s s' : System × Holdings} (hs : HeldStep a s s') : a.Step s.1 s'.1 := by
  cases hs with
  | call g hs => exact hs
  | file g hs => exact ⟨_, hs⟩

/-! ### Runs -/

/-- Where the flags agree with the pointers, the checks of a system call lead to an entry. -/
lemma openEntry_ne_none (hk : ∀ p i, Agrees ((k.pcblist p).fdlist i)) : openEntry fd k ≠ none := by
  unfold openEntry
  split
  · simp only
    split
    · rename_i hopen
      intro h
      exact (hk _ _).mp hopen (Option.map_eq_none_iff.mp h)
    · exact Option.some_ne_none _
  · exact Option.some_ne_none _

variable {pagedir : ℕ} {mem : Memory.Mem} {fileList : Fin fileMaxInSys → OpenFile} {disk : Bytes}
  {keyboard : Device.Keyboard} {h : List Act}

lemma boot_agrees (p : Fin pcbMax) (i : Fin fileMaxInProcess) :
    Agrees (((boot pagedir mem fileList disk keyboard).pcblist p).fdlist i) := by
  by_cases hp : p = 0
  · subst hp
    exact agrees_closed
  · simp only [boot, initPcb, Function.update_of_ne hp]
    exact agrees_closed

/-- **The descriptor tables are well formed** in every run: of every descriptor of every process the
flag is set exactly if the pointer is not `NULL`, and it points into the file table then. So the
entry that `sys_read` and `sys_write` look at is never missing, nor is the one that `sys_close` and
`sys_exit` delete. -/
theorem descriptors_agree
    (hrun : Run Act.Step (fun _ _ => True) (boot pagedir mem fileList disk keyboard) h k) :
    (∀ p i, ((k.pcblist p).fdlist i).openFlag = true ↔ ((k.pcblist p).fdlist i).ofptr ≠ none) ∧
      (∀ fd, openEntry fd k ≠ none) ∧
      ∀ p i, isOpen i (k.pcblist p) → ∃ j, ((k.pcblist p).fdlist i).ofptr = some j := by
  obtain ⟨-, hagree⟩ := hrun.inv (fun k => Sane k ∧ ∀ p i, Agrees ((k.pcblist p).fdlist i))
    ⟨boot_sane, boot_agrees⟩ fun a k k' ⟨hk, hagree⟩ _ hs =>
      ⟨Act.sane hk hs, fun p i => (Act.origin hk hs p i).agrees hagree⟩
  exact ⟨hagree, fun fd => openEntry_ne_none hagree, fun p i hopen =>
    Option.ne_none_iff_exists'.mp ((hagree p i).mp hopen)⟩

end FdTable

/-- The shell is opened, and the child closes what it has inherited. -/
theorem descriptors_agree_closedByChild : ∃ s, runAll Act.held closedByChild filesBoot = some s ∧
    openEntry 3 s.1 ≠ none := by
  obtain ⟨s, hs, -⟩ := exists_of_any (P := fun _ => True)
    (o := runAll Act.held closedByChild filesBoot) (by decide +kernel)
  have hrun : Run Act.Step (fun _ _ => True) filesBoot.1 closedByChild s.1 :=
    (run_runAll (fun _ _ _ => heldStep_of_held) hs).map Prod.fst fun _ _ _ => HeldStep.act
  exact ⟨s, hs, (descriptors_agree hrun).2.1 3⟩

end Nbos.Process
