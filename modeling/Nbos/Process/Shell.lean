import Nbos.Device.ScanCode
import Nbos.Kernel.Report
import Nbos.Process.FdTable
import Nbos.Process.Memories
import Nbos.Process.Protected

/-!
# The shell

The programs of `main.c`, `shell.c` and `mypro.c` on the kernel, with the interrupts of the timer and
of the keyboard between any two of their steps.

`init_pcb` closes the standard descriptors of process 0, a child has those of its father and `sys_open`
hands out none of them, so they are closed in every process for good (`standard_closed`). That leaves
the shell without a voice and without ears: all that is to be seen comes from the interrupts, which echo
the keys and report the switches, and the screen is cleared once (`machine_echoes`).
-/

namespace Nbos.Process

open Nbos.Lib Nbos.Kernel Nbos.Device
open Nbos.Device.Print (Screen blankScreen clearScreen printn printn_eq putChar putChars)
open Nbos.Fs (cstr isOpen getMinfd myproName separator shellPath)

/-! ### The standard descriptors -/

/-- No process has a standard descriptor that is open. -/
def Mute (k : System) : Prop :=
  ∀ p, ∀ fd : Fin fileMaxInProcess, (fd : ℕ) ≤ stderrFileno → isOpen fd (k.pcblist p) = false

section Mute

variable {k k' : System} {a : Act} {r fd junk : ℤ} {ptr size : ℕ} {buf : Bytes} {path : List UInt8}
  {junkStr : List UInt8 → List UInt8} {oflag : UInt32}

/-- Where every process has the descriptors of one that was there before. -/
lemma Mute.of_fdlist (hk : Mute k) (h : ∀ p, ∃ q, (k'.pcblist p).fdlist = (k.pcblist q).fdlist) :
    Mute k' := by
  intro p fd hfd
  obtain ⟨q, hq⟩ := h p
  rw [isOpen, hq]
  exact hk q fd hfd

/-- Where one descriptor is set that is not a standard one, or closed. -/
lemma Mute.setFd {i : Fin fileMaxInProcess} {f : Fd} (hk : Mute k)
    (hf : (i : ℕ) ≤ stderrFileno → f.openFlag = false)
    (h : k'.pcblist = (k.setPcb k.current
      { k.proc with fdlist := Function.update k.proc.fdlist i f }).pcblist) : Mute k' := by
  intro p fd hfd
  rw [isOpen, h, System.setPcb_pcblist]
  split
  · show (Function.update k.proc.fdlist i f fd).openFlag = false
    by_cases hi : fd = i
    · rw [hi, Function.update_self]
      exact hf (hi ▸ hfd)
    · rw [Function.update_of_ne hi]
      exact hk k.current fd hfd
  · exact hk p fd hfd

lemma Step.mute {c : Call} (hsane : Sane k) (hs : Step c k k') (hk : Mute k) : Mute k' := by
  cases hs.stepped hsane with
  | idle | forkFails | waitFails => exact hk
  | switch hsw => exact hk.of_fdlist fun p => ⟨p, hsw.fdlist p⟩
  | @fork _ p _ _ hf =>
    refine hk.of_fdlist fun q => ?_
    by_cases hq : q = p
    · rw [hq, hf.proc]
      exact ⟨k.current, rfl⟩
    · rw [hf.pcb q hq]
      exact ⟨q, rfl⟩
  | execve h =>
    rw [sysExecve_spec h]
    exact hk
  | @exit p _ _ hx =>
    intro q fd hfd
    by_cases hq : q = p
    · rw [hq, isOpen, hx.fds, hk p fd hfd]
      exact hk p fd hfd
    · rw [hx.pcb q hq]
      exact hk q fd hfd
  | reap => exact hk.of_fdlist fun p => ⟨p, System.setPcb_fdlist rfl⟩

lemma sysOpen_mute (h : sysOpen junkStr path oflag k = some (r, k')) (hk : Mute k) : Mute k' := by
  obtain ⟨i, -, ⟨-, -, rfl⟩ | ⟨fd, hfd, -, ⟨-, rfl⟩ | ⟨j, ho⟩⟩⟩ := sysOpen_spec h
  · exact hk
  · exact hk
  · have hlow : stderrFileno + 1 ≤ (fd : ℕ) := by
      have hfound := List.find?_some hfd
      exact (of_decide_eq_true hfound).1
    refine @Mute.setFd k k' fd ⟨true, some j⟩ hk (fun hle => by omega) ?_
    rw [ho.eq]

lemma FileCall.mute {c : FileCall} (h : c.perform k = some (r, k')) (hk : Mute k) : Mute k' := by
  cases c with
  | «open» junk path oflag => exact sysOpen_mute h hk
  | creat stack junk junk' path mode =>
    rcases sysCreat_spec h with ⟨disk, -, -, rfl⟩ | ⟨disk, -, ho⟩
    · exact hk
    · exact sysOpen_mute (k := { k with disk := disk }) ho hk
  | close fd =>
    rcases sysClose_spec (Option.some_inj.mp h) with ⟨rfl, -⟩ | ⟨i, -, -, rfl⟩
    · exact hk
    · exact hk.setFd (fun _ => rfl) rfl
  | read junk fd ptr size => exact hk.of_fdlist fun p => ⟨p, by rw [(sysRead_spec h).pcblist]⟩
  | write fd ptr buf size => exact hk.of_fdlist fun p => ⟨p, by rw [(sysWrite_spec h).pcblist]⟩

lemma Mute.step (hk : Mute k) (hsane : Sane k) (hs : a.Step k k') : Mute k' := by
  cases a with
  | call c => exact Process.Step.mute hsane hs hk
  | file c =>
    obtain ⟨r, h⟩ := hs
    exact FileCall.mute h hk

/-- Then the calls on them fail before they do anything. -/
lemma Mute.openEntry (hk : Mute k) (hfd : fd ≤ stderrFileno) : openEntry fd k = some none := by
  unfold Process.openEntry
  split
  · rename_i h
    have hclosed : isOpen ⟨fd.toNat, by omega⟩ k.proc = false := hk k.current _ (by
      show fd.toNat ≤ stderrFileno
      omega)
    simp only [hclosed, Bool.false_eq_true, if_false]
  · rfl

lemma Mute.sysRead (hk : Mute k) (hfd : fd ≤ stderrFileno) :
    sysRead junk fd ptr size k = some (-1, k) := by
  unfold Process.sysRead
  rw [hk.openEntry hfd]
  split <;> rfl

lemma Mute.sysWrite (hk : Mute k) (hfd : fd ≤ stderrFileno) :
    sysWrite fd ptr buf size k = some (-1, k) := by
  unfold Process.sysWrite
  rw [hk.openEntry hfd]
  split <;> rfl

variable {pagedir : ℕ} {mem : Memory.Mem} {fileList : Fin fileMaxInSys → OpenFile} {disk : Bytes}
  {keyboard : Keyboard} {h : List Act}

lemma boot_mute : Mute (boot pagedir mem fileList disk keyboard) := by
  intro p fd _
  by_cases hp : p = 0
  · subst hp
    rfl
  · simp only [isOpen, boot, initPcb, Function.update_of_ne hp]

/-- **Standard input and output are closed** in every run of calls and interrupts, for every process:
nothing can be read from the one or written to the others. -/
theorem standard_closed
    (hrun : Run Act.Step (fun _ _ => True) (boot pagedir mem fileList disk keyboard) h k)
    (hfd : fd ≤ stderrFileno) (junk : ℤ) (ptr size : ℕ) (buf : Bytes) :
    sysRead junk fd ptr size k = some (-1, k) ∧ sysWrite fd ptr buf size k = some (-1, k) := by
  obtain ⟨-, hk⟩ := hrun.inv (fun k => Sane k ∧ Mute k) ⟨boot_sane, boot_mute⟩
    fun a k k' ⟨hsane, hk⟩ _ hs => ⟨Act.sane hsane hs, hk.step hsane hs⟩
  exact ⟨hk.sysRead hfd, hk.sysWrite hfd⟩

end Mute

/-- The child that has opened the shell and closed it cannot print. -/
theorem standard_closed_child : ∃ s, runAll Act.held closedByChild filesBoot = some s ∧
    sysWrite 1 0x1000 (fun _ => 0) 4 s.1 = some (-1, s.1) := by
  obtain ⟨s, hs, -⟩ := exists_of_any (P := fun _ => True)
    (o := runAll Act.held closedByChild filesBoot) (by decide +kernel)
  have hrun : Run Act.Step (fun _ _ => True) filesBoot.1 closedByChild s.1 :=
    (run_runAll (fun _ _ _ => heldStep_of_held) hs).map Prod.fst fun _ _ _ => HeldStep.act
  exact ⟨s, hs, (standard_closed hrun (by decide) 0 0x1000 4 fun _ => 0).2⟩

/-! ### The programs -/

/-- Where a process is in its program: in `main` from `switch_to_user` on, in `shell_main` or in `main` of
`mypro.c`. -/
inductive Place where
  | mainFork
  | mainExecve
  | mainLoop
  | shellClear
  | shellHello
  | shellPrompt
  | shellRead
  | shellGetPath
  | shellNotFound
  | shellFork
  | shellExecve
  | shellWait
  | shellAgain
  | myproClear
  | myproHi
  | myproExit
  deriving DecidableEq

/-- `getPath`: what it returns, and the array `path`. It does not look at the command. -/
def getPath (_command path : List UInt8) : ℤ × List UInt8 :=
  (0, separator :: myproName ++ newline :: path.drop 7)

/-- What the code of a program finds: its registers, the address of its buffer, the arrays of `shell_main`,
and what the stack of the kernel holds behind a string. -/
structure Found where
  ptr : IntrContext
  buffer : ℕ
  command : List UInt8
  path : List UInt8
  junk : List UInt8 → List UInt8

/-- What a user has before him. -/
structure Terminal where
  keyboard : Keyboard
  statusShift : UInt8
  screen : Screen

/-- `do_keyboard_handler`, with the echo of `handleCode`. For a key that the tables do not have, it finds
`behind`. -/
def doKeyboardHandler (scancode behind : UInt8) (t : Terminal) : Option Terminal := do
  let code := (getAscii scancode t.statusShift).1.getD behind
  let keyboard ← handleCode code t.keyboard
  some ⟨keyboard, (getAscii scancode t.statusShift).2, if code = 0 then t.screen else putChar code t.screen⟩

/-- What `do_timer_handler` prints when it switches to the process `pid`; `junk` is the buffer of the
digits before. -/
def processText (junk : Bytes) (pid : ℕ) : List UInt8 := ascii "process:" ++ printn junk (.ofNat pid)

/-- `sys_clear`. -/
def Terminal.clear (t : Terminal) : Terminal := { t with screen := clearScreen t.screen }

/-- What there is to be seen: a key, the process to which the timer switches, or a `sys_clear`. -/
inductive Shown where
  | key (scancode behind : UInt8)
  | process (pid : ℕ)
  | clear
  deriving DecidableEq

/-- The terminal after it. -/
def Terminal.after : Shown → Terminal → Option Terminal
  | .key scancode behind, t => doKeyboardHandler scancode behind t
  | .process pid, t => some { t with screen := putChars (processText (fun _ => 0) pid) t.screen }
  | .clear, t => some t.clear

/-- Whether a program is at a `clear_my_screen`. -/
def Place.clears : Place → Bool
  | .shellClear | .myproClear => true
  | _ => false

/-- The kernel with the programs of its processes. -/
structure Computer where
  kernel : System
  statusShift : UInt8
  screen : Screen
  place : Fin pcbMax → Place

namespace Computer

def terminal (m : Computer) : Terminal := ⟨m.kernel.keyboard, m.statusShift, m.screen⟩

/-- The current process goes on at `p`, after a call that has left the kernel as `k`. -/
def goto (p : Place) (k : System) (m : Computer) : Computer :=
  { m with kernel := k, place := Function.update m.place m.kernel.current p }

/-- `clear_my_screen`. -/
def clear (p : Place) (m : Computer) : Computer :=
  { m.goto p m.kernel with screen := clearScreen m.screen }

/-- `write`, with what `print` shows. -/
def write (fd : ℕ) (text : List UInt8) (size : ℕ) (p : Place) (f : Found) (m : Computer) : Option Computer :=
  (sysWrite fd f.buffer (cstr text) size m.kernel).map fun (r, k) =>
    { m.goto p k with
      screen :=
        if r ≠ -1 ∧ (fd = stdoutFileno ∨ fd = stderrFileno) then putChars text m.screen else m.screen }

/-- `fork`: father and child go on as it returns. -/
def fork (p : ℤ → Place) (f : Found) (m : Computer) : Option Computer :=
  (sysFork f.ptr m.kernel).map fun (r, k) =>
    match newborn m.kernel k with
    | some c => { m.goto (p r) k with place := Function.update (m.goto (p r) k).place c (p 0) }
    | none => m.goto (p r) k

/-- `execve`, of a file with a program that begins at `starts`. -/
def execve (path : List UInt8) (fails starts : Place) (f : Found) (m : Computer) : Option Computer :=
  (sysExecve f.junk path f.ptr m.kernel).map fun (r, k) =>
    m.goto (match r with | .failed => fails | .started _ => starts) k

/-- The next call of the current program. There is none from a `wait` that does not return: it goes on
with interrupts off. -/
def code (f : Found) (m : Computer) : Option Computer :=
  match m.place m.kernel.current with
  | .mainFork => m.fork (fun r => if r = 0 then .mainExecve else .mainLoop) f
  | .mainExecve => m.execve shellPath .mainLoop .shellClear f
  | .mainLoop => some m
  | .shellClear => some (m.clear .shellHello)
  | .shellHello => m.write stdoutFileno (ascii "I'm shell!\n") 12 .shellPrompt f
  | .shellPrompt => m.write stdoutFileno (ascii "Shell>") 7 .shellRead f
  | .shellRead => (sysRead 0 stdinFileno f.buffer 30 m.kernel).map fun (r, k) =>
    m.goto (if 0 < r then .shellGetPath else .shellRead) k
  | .shellGetPath =>
    some (m.goto (if (getPath f.command f.path).1 = -1 then .shellNotFound else .shellFork) m.kernel)
  | .shellNotFound => m.write stdinFileno (ascii "Command not found!\n") 20 .shellFork f
  | .shellFork => m.fork (fun r => if r = 0 then .shellExecve else .shellWait) f
  | .shellExecve =>
    m.execve ((getPath f.command f.path).2.takeWhile (· ≠ 0)) .shellWait .myproClear f
  | .shellWait => (sysWait m.kernel).map fun (r, k) => m.goto (if 0 < r then .shellAgain else .shellRead) k
  | .shellAgain => m.write stdinFileno (ascii "Shell>") 8 .shellRead f
  | .myproClear => some (m.clear .myproHi)
  | .myproHi => m.write stdoutFileno (ascii "HI,I'm user!\n") 14 .myproExit f
  | .myproExit => (sysExit m.kernel).map fun (k, _) => { m with kernel := k }

/-- An interrupt, or code of the program that runs. -/
inductive Event where
  | timer (ptr : IntrContext) (junk : Bytes)
  | key (scancode behind : UInt8)
  | code (f : Found)

/-- The machine after it. -/
def perform : Event → Computer → Option Computer
  | .timer ptr junk, m =>
    let (k, next) := doTimerHandler ptr m.kernel
    some { m with
      kernel := k
      screen := match next with
        | none => m.screen
        | some p => putChars (processText junk (m.kernel.pcblist p).pid) m.screen }
  | .key scancode behind, m => (doKeyboardHandler scancode behind m.terminal).map fun t =>
    { m with
      kernel := { m.kernel with keyboard := t.keyboard }
      statusShift := t.statusShift
      screen := t.screen }
  | .code f, m => m.code f

/-- One step of the machine. -/
def Step (e : Event) (m m' : Computer) : Prop := m.perform e = some m'

/-- What a step shows: the key, the process to which the timer switches, and nothing of a program but its
`clear_my_screen`. -/
def Event.shown : Event → Computer → List Shown
  | .timer ptr _, m => ((doTimerHandler ptr m.kernel).2.map fun p => .process (m.kernel.pcblist p).pid).toList
  | .key scancode behind, _ => [.key scancode behind]
  | .code _, m => if (m.place m.kernel.current).clears then [.clear] else []

/-- What a run shows, the last one first. -/
def shown (h : List Event) (m : Computer) : List Shown := observed perform Event.shown h m

/-- Process 0 in user mode, before its `fork`. -/
def start (k : System) (screen : Screen) : Computer := ⟨k, 0, screen, fun _ => .mainFork⟩

/-! ### What the kernel is told -/

/-- The kernel as a step of the machine leaves it: a call, an interrupt of the timer, or a key. -/
def Driven (k k' : System) : Prop :=
  (∃ a : Act, a.Step k k') ∨ ∃ keyboard, k' = { k with keyboard := keyboard }

section Driven

variable {k k' : System} {m m' : Computer} {e : Event} {f : Found} {fd size : ℕ} {text path : List UInt8}
  {p q : Place} {next : ℤ → Place}

@[simp] lemma goto_kernel : (m.goto p k).kernel = k := rfl

lemma goto_place : (m.goto p k).place = Function.update m.place m.kernel.current p := rfl

@[simp] lemma clear_kernel : (m.clear p).kernel = m.kernel := by simp only [clear, goto]

lemma Driven.same : Driven k k := .inr ⟨k.keyboard, rfl⟩

lemma Driven.sane (h : Driven k k') (hk : Sane k) : Sane k' := by
  rcases h with ⟨a, hs⟩ | ⟨keyboard, rfl⟩
  · exact Act.sane hk hs
  · exact ⟨hk.table, hk.nextpid⟩

lemma Driven.mute (h : Driven k k') (hsane : Sane k) (hk : Mute k) : Mute k' := by
  rcases h with ⟨a, hs⟩ | ⟨keyboard, rfl⟩
  · exact hk.step hsane hs
  · exact hk

lemma write_driven (h : m.write fd text size p f = some m') : Driven m.kernel m'.kernel := by
  obtain ⟨⟨r, k⟩, hs, rfl⟩ := Option.map_eq_some_iff.mp h
  exact .inl ⟨.file (.write fd f.buffer (cstr text) size), r, hs⟩

lemma execve_driven (h : m.execve path p q f = some m') : Driven m.kernel m'.kernel := by
  obtain ⟨⟨r, k⟩, hs, rfl⟩ := Option.map_eq_some_iff.mp h
  exact .inl ⟨.call (.execve f.junk path f.ptr), Option.map_eq_some_iff.mpr ⟨_, hs, rfl⟩⟩

/-- Where it leads to: `sys_execve` writes nothing but memory. -/
lemma execve_goto (h : m.execve path p q f = some m') : ∃ k r, (r = p ∨ r = q) ∧
    k.pcblist = m.kernel.pcblist ∧ k.keyboard = m.kernel.keyboard ∧ m' = m.goto r k := by
  obtain ⟨⟨r, k⟩, hs, rfl⟩ := Option.map_eq_some_iff.mp h
  have hk := sysExecve_spec hs
  cases r with
  | failed => exact ⟨k, p, .inl rfl, by rw [hk], by rw [hk], rfl⟩
  | started ptr => exact ⟨k, q, .inr rfl, by rw [hk], by rw [hk], rfl⟩

lemma fork_driven (h : m.fork next f = some m') : Driven m.kernel m'.kernel := by
  obtain ⟨⟨r, k⟩, hs, rfl⟩ := Option.map_eq_some_iff.mp h
  have hkernel : Driven m.kernel k := .inl ⟨.call (.fork f.ptr), Option.map_eq_some_iff.mpr ⟨_, hs, rfl⟩⟩
  simp only
  split <;> exact hkernel

lemma code_driven (h : m.code f = some m') : Driven m.kernel m'.kernel := by
  unfold code at h
  split at h
  case h_1 | h_10 => exact fork_driven h
  case h_2 | h_11 => exact execve_driven h
  case h_3 | h_8 =>
    obtain rfl := Option.some_inj.mp h
    exact .same
  case h_4 | h_14 =>
    obtain rfl := Option.some_inj.mp h
    rw [clear_kernel]
    exact .same
  case h_5 | h_6 | h_9 | h_13 | h_15 => exact write_driven h
  case h_7 =>
    obtain ⟨⟨r, k⟩, hs, rfl⟩ := Option.map_eq_some_iff.mp h
    exact .inl ⟨.file (.read 0 stdinFileno f.buffer 30), r, hs⟩
  case h_12 =>
    obtain ⟨⟨r, k⟩, hs, rfl⟩ := Option.map_eq_some_iff.mp h
    exact .inl ⟨.call .wait, Option.map_eq_some_iff.mpr ⟨_, hs, rfl⟩⟩
  case h_16 =>
    obtain ⟨⟨k, c⟩, hs, rfl⟩ := Option.map_eq_some_iff.mp h
    exact .inl ⟨.call .exit, Option.map_eq_some_iff.mpr ⟨_, hs, rfl⟩⟩

/-- **Every step is a call of the kernel, an interrupt, or none of its business.** -/
lemma Step.driven (h : Step e m m') : Driven m.kernel m'.kernel := by
  cases e with
  | timer ptr junk =>
    obtain rfl := Option.some_inj.mp h
    exact .inl ⟨.call (.timer ptr), rfl⟩
  | key scancode behind =>
    obtain ⟨t, -, rfl⟩ := Option.map_eq_some_iff.mp h
    exact .inr ⟨t.keyboard, rfl⟩
  | code f => exact code_driven h

end Driven

/-! ### What is to be seen -/

/-- Process 0 is in its loop, and there is nobody else but `c`. -/
structure Two (c : Fin pcbMax) (m : Computer) : Prop where
  ne : c ≠ 0
  free : ∀ p, p ≠ 0 → p ≠ c → (m.kernel.pcblist p).pstate = .free
  root : m.place 0 = .mainLoop

/-- The child of process 0 has not come to `clear_my_screen`. -/
def Early (p : Place) : Prop := p = .mainExecve ∨ p = .mainLoop ∨ p = .shellClear

/-- It tries to write and to read. -/
def Late (p : Place) : Prop := p = .shellHello ∨ p = .shellPrompt ∨ p = .shellRead

/-- How far the programs have come, and how often the screen has been cleared then. -/
inductive Scene (n : ℕ) (m : Computer) : Prop
  | alone : (∀ p ≠ 0, (m.kernel.pcblist p).pstate = .free) → m.place 0 = .mainFork → n = 0 → Scene n m
  | early (c : Fin pcbMax) : Two c m → ((m.kernel.pcblist c).pstate ≠ .free → Early (m.place c)) → n = 0 →
      Scene n m
  | late (c : Fin pcbMax) : Two c m → Late (m.place c) → n = 1 → Scene n m

/-- What a step does to them: it clears the screen as often as it shows that it does, and the terminal has
what it shows. -/
structure Echoes (n : ℕ) (e : Event) (m m' : Computer) : Prop where
  scene : Scene ((e.shown m).count .clear + n) m'
  shows : runAll Terminal.after (e.shown m) m.terminal = some m'.terminal

section Scene

variable {k : System} {m m' : Computer} {e : Event} {h : List Event} {f : Found} {c x : Fin pcbMax}
  {n fd size : ℕ} {text : List UInt8} {p : Place} {ptr : IntrContext} {scancode : UInt8}

/-- The buffer of the digits does not matter. -/
lemma processText_eq {junk : Bytes} {pid : ℕ} : processText junk pid = processText (fun _ => 0) pid := by
  rw [processText, processText, printn_eq, printn_eq]

lemma free_ne_current (hsane : Sane k) (hx : (k.pcblist x).pstate = .free) : x ≠ k.current := by
  rintro rfl
  rcases hsane.current_live with h0 | hlive
  · exact hsane.table.rootBusy (h0 ▸ hx)
  · exact hlive.2.1 hx

/-- The timer leaves a free slot free. -/
lemma timer_free (hsane : Sane k) (hx : (k.pcblist x).pstate = .free) :
    ((doTimerHandler ptr k).1.pcblist x).pstate = .free := by
  have hs : Process.Step (.timer ptr) k (doTimerHandler ptr k).1 := rfl
  generalize (doTimerHandler ptr k).1 = k' at hs ⊢
  cases hs.stepped hsane with
  | idle => exact hx
  | @switch _ p _ hsw =>
    have hxp : x ≠ p := by
      rintro rfl
      rw [hsw.runnable] at hx
      cases hx
    rw [hsw.pcb x (free_ne_current hsane hx) hxp]
    exact hx

lemma timer_keyboard (hsane : Sane k) : (doTimerHandler ptr k).1.keyboard = k.keyboard := by
  have hs : Process.Step (.timer ptr) k (doTimerHandler ptr k).1 := rfl
  generalize (doTimerHandler ptr k).1 = k' at hs ⊢
  cases hs.stepped hsane with
  | idle => rfl
  | switch hsw => exact hsw.rest.2.2.2.2

/-- Nobody else runs. -/
lemma Two.current (h : Two c m) (hsane : Sane m.kernel) : m.kernel.current = 0 ∨
    m.kernel.current = c ∧ (m.kernel.pcblist c).pstate ≠ .free := by
  by_cases h0 : m.kernel.current = 0
  · exact .inl h0
  · have hc : m.kernel.current = c := by
      by_contra hne
      exact free_ne_current hsane (h.free _ h0 hne) rfl
    exact .inr ⟨hc, fun hfree => free_ne_current hsane hfree hc.symm⟩

/-- A call of the child that makes no process. -/
lemma Two.goto (h : Two c m) (hc : m.kernel.current = c) (hk : k.pcblist = m.kernel.pcblist) :
    Two c (m.goto p k) ∧ (m.goto p k).place c = p := by
  refine ⟨⟨h.ne, fun x h0 hx => ?_, ?_⟩, ?_⟩
  · rw [goto_kernel, hk]
    exact h.free x h0 hx
  · rw [goto_place, hc, Function.update_of_ne h.ne.symm]
    exact h.root
  · rw [goto_place, hc, Function.update_self]

/-- `write` on standard output or input does nothing. -/
lemma write_mute (hm : Mute m.kernel) (hfd : fd ≤ stderrFileno) :
    m.write fd text size p f = some (m.goto p m.kernel) := by
  rw [write, hm.sysWrite (Int.ofNat_le.mpr hfd)]
  simp only [Option.map_some, ne_eq, not_true_eq_false, false_and, if_false]
  rfl

/-- Code that clears nothing. -/
lemma Echoes.quiet (hplace : (m.place m.kernel.current).clears = false) (h : Scene n m')
    (ht : m'.terminal = m.terminal) : Echoes n (.code f) m m' := by
  have hshown : Event.shown (.code f) m = [] := by simp only [Event.shown, hplace, Bool.false_eq_true, if_false]
  refine ⟨?_, ?_⟩
  · rwa [hshown, List.count_nil, Nat.zero_add]
  · rw [hshown, ht]
    rfl

/-- An interrupt, after which the places are the same. -/
lemma Scene.interrupt (hplace : m'.place = m.place)
    (hfree : ∀ x, (m.kernel.pcblist x).pstate = .free → (m'.kernel.pcblist x).pstate = .free)
    (h : Scene n m) : Scene n m' := by
  have htwo : ∀ c, Two c m → Two c m' := fun c hc =>
    ⟨hc.ne, fun x h0 hx => hfree x (hc.free x h0 hx), hplace ▸ hc.root⟩
  cases h with
  | alone hnone hroot hn => exact .alone (fun x hx => hfree x (hnone x hx)) (hplace ▸ hroot) hn
  | early c hc hearly hn => exact .early c (htwo c hc) (fun hne => hplace ▸ hearly fun hx => hne (hfree c hx)) hn
  | late c hc hlate hn => exact .late c (htwo c hc) (hplace ▸ hlate) hn

/-- The `fork` of process 0. -/
lemma Echoes.mainFork (hsane : Sane m.kernel) (hfree : ∀ p ≠ 0, (m.kernel.pcblist p).pstate = .free)
    (hroot : m.place 0 = .mainFork) (hs : m.code f = some m') : Echoes 0 (.code f) m m' := by
  have hcur : m.kernel.current = 0 := by
    by_contra h0
    exact free_ne_current hsane (hfree _ h0) rfl
  have hclears : (m.place m.kernel.current).clears = false := by
    rw [hcur, hroot]
    rfl
  rw [code, hcur, hroot] at hs
  obtain ⟨⟨r, k⟩, hfork, rfl⟩ := Option.map_eq_some_iff.mp hs
  rcases sysFork_spec (fun hx => free_ne_current hsane hx rfl) hfork with ⟨rfl, hget⟩ | ⟨c, hf⟩
  · -- no child
    have hk := getPid_eq hget
    have hpcb : k.pcblist = m.kernel.pcblist := by rw [hk]
    have hkeyboard : k.keyboard = m.kernel.keyboard := by rw [hk]
    simp only [newborn_none hpcb]
    refine .quiet hclears (.early 1 ⟨by decide, fun x h0 _ => ?_, ?_⟩ (fun hne => absurd ?_ hne) rfl) ?_
    · rw [goto_kernel, hpcb]
      exact hfree x h0
    · rw [goto_place, hcur, Function.update_self]
      rfl
    · rw [goto_kernel, hpcb]
      exact hfree 1 (by decide)
    · rw [terminal, terminal, ← hkeyboard]
      rfl
  · have hc : c ≠ 0 := fun he => hsane.table.rootBusy (he ▸ hf.free)
    have hr : r ≠ 0 := fun he => hf.fresh 0 (by rw [he]; exact hsane.table.rootPid)
    simp only [newborn_fork hf, if_neg hr]
    refine .quiet hclears (.early c ⟨hc, fun x h0 hx => ?_, ?_⟩ (fun _ => .inl ?_) rfl) ?_
    · show (k.pcblist x).pstate = .free
      rw [hf.pcb x hx]
      exact hfree x h0
    · show Function.update (m.goto .mainLoop k).place c _ 0 = _
      rw [Function.update_of_ne hc.symm, goto_place, hcur, Function.update_self]
    · show Function.update (m.goto .mainLoop k).place c _ c = _
      rw [Function.update_self]
      rfl
    · rw [terminal, terminal, ← hf.rest.2.2.2]
      rfl

/-- Code of process 0 in its loop. -/
lemma Two.code_root (h : Two c m) (h0 : m.kernel.current = 0) (hs : m.code f = some m') : m' = m := by
  rw [code, h0, h.root] at hs
  exact (Option.some_inj.mp hs).symm

/-- The child on its way to the shell. -/
lemma Echoes.early_code (hc : Two c m) (hcur : m.kernel.current = c) (hearly : Early (m.place c))
    (hs : m.code f = some m') : Echoes 0 (.code f) m m' := by
  rw [code, hcur] at hs
  rcases hearly with he | he | he
  · rw [he] at hs
    obtain ⟨k, p, hp, hpcb, hkeyboard, rfl⟩ := execve_goto hs
    obtain ⟨htwo, hplace⟩ := hc.goto (p := p) hcur hpcb
    refine .quiet (by rw [hcur, he]; rfl) (.early c htwo (fun _ => ?_) rfl)
      (by rw [terminal, terminal, ← hkeyboard]; rfl)
    rw [hplace]
    exact .inr hp
  · rw [he] at hs
    obtain rfl := Option.some_inj.mp hs
    exact .quiet (by rw [hcur, he]; rfl) (.early c hc (fun _ => .inr (.inl he)) rfl) rfl
  · rw [he] at hs
    obtain rfl := Option.some_inj.mp hs
    obtain ⟨htwo, hplace⟩ := hc.goto (p := .shellHello) hcur rfl
    have hshown : Event.shown (.code f) m = [.clear] := by
      rw [Event.shown, hcur, he]
      rfl
    refine ⟨.late c ⟨htwo.ne, htwo.free, htwo.root⟩ (.inl hplace) ?_, ?_⟩ <;> rw [hshown] <;> rfl

/-- The shell, which has no voice and no ears. -/
lemma Echoes.late_code (hm : Mute m.kernel) (hc : Two c m) (hcur : m.kernel.current = c)
    (hlate : Late (m.place c)) (hs : m.code f = some m') : Echoes 1 (.code f) m m' := by
  have hgoto : (m.place c).clears = false ∧ ∃ p, Late p ∧ m' = m.goto p m.kernel := by
    rw [code, hcur] at hs
    rcases hlate with he | he | he
    · rw [he] at hs ⊢
      exact ⟨rfl, _, .inr (.inl rfl), (Option.some_inj.mp ((write_mute hm (by decide)).symm.trans hs)).symm⟩
    · rw [he] at hs ⊢
      exact ⟨rfl, _, .inr (.inr rfl), (Option.some_inj.mp ((write_mute hm (by decide)).symm.trans hs)).symm⟩
    · have hread : sysRead 0 stdinFileno f.buffer 30 m.kernel = some (-1, m.kernel) := hm.sysRead (by decide)
      rw [he] at hs ⊢
      simp only [hread, Option.map_some] at hs
      exact ⟨rfl, _, .inr (.inr rfl), (Option.some_inj.mp hs).symm⟩
  obtain ⟨hclears, p, hp, rfl⟩ := hgoto
  obtain ⟨htwo, hplace⟩ := hc.goto (p := p) hcur rfl
  exact .quiet (by rw [hcur, hclears]) (.late c htwo (by rwa [hplace]) rfl) rfl

/-- A timer interrupt, with a switch or without. -/
lemma Echoes.timer {junk : Bytes} (hsane : Sane m.kernel) (h : Scene n m)
    (hs : Step (.timer ptr junk) m m') : Echoes n (.timer ptr junk) m m' := by
  have hfree : ∀ x, (m.kernel.pcblist x).pstate = .free →
      ((doTimerHandler ptr m.kernel).1.pcblist x).pstate = .free := fun x => timer_free hsane
  have hkeyboard : (doTimerHandler ptr m.kernel).1.keyboard = m.kernel.keyboard := timer_keyboard hsane
  have hs : m.perform (.timer ptr junk) = some m' := hs
  have hshown : Event.shown (.timer ptr junk) m =
      ((doTimerHandler ptr m.kernel).2.map fun p => .process (m.kernel.pcblist p).pid).toList := rfl
  rw [perform] at hs
  generalize doTimerHandler ptr m.kernel = r at hs hfree hkeyboard hshown
  obtain ⟨k, next⟩ := r
  have hm' := Option.some_inj.mp hs
  have hscene : Scene n m' := h.interrupt (by rw [← hm']) fun x hx => by
    rw [← hm']
    exact hfree x hx
  subst hm'
  simp only at hkeyboard
  cases next with
  | none =>
    refine ⟨?_, ?_⟩ <;> rw [hshown]
    · simpa using hscene
    · rw [terminal, terminal, hkeyboard]
      rfl
  | some p =>
    refine ⟨?_, ?_⟩ <;> rw [hshown]
    · simpa using hscene
    · rw [terminal, terminal, hkeyboard]
      have htext := @processText_eq junk (m.kernel.pcblist p).pid
      simp only [htext]
      rfl

/-- **One step of the machine**, whichever it is. -/
lemma Echoes.step (hsane : Sane m.kernel) (hm : Mute m.kernel) (h : Scene n m) (hs : Step e m m') :
    Echoes n e m m' := by
  cases e with
  | timer ptr junk => exact .timer hsane h hs
  | key scancode behind =>
    obtain ⟨t, ht, rfl⟩ := Option.map_eq_some_iff.mp hs
    refine ⟨?_, ht⟩
    have hcount : (Event.shown (.key scancode behind) m).count .clear = 0 := by simp [Event.shown]
    rw [hcount, Nat.zero_add]
    exact h.interrupt (m := m) rfl fun _ hx => hx
  | code f =>
    have hs : m.code f = some m' := hs
    cases h with
    | alone hfree hroot hn =>
      subst hn
      exact .mainFork hsane hfree hroot hs
    | early c hc hearly hn =>
      subst hn
      rcases hc.current hsane with h0 | ⟨hcur, hne⟩
      · obtain rfl := hc.code_root h0 hs
        exact .quiet (by rw [h0, hc.root]; rfl) (.early c hc hearly rfl) rfl
      · exact .early_code hc hcur (hearly hne) hs
    | late c hc hlate hn =>
      subst hn
      rcases hc.current hsane with h0 | ⟨hcur, -⟩
      · obtain rfl := hc.code_root h0 hs
        exact .quiet (by rw [h0, hc.root]; rfl) (.late c hc hlate rfl) rfl
      · exact .late_code hm hc hcur hlate hs

variable {pagedir : ℕ} {mem : Memory.Mem} {fileList : Fin fileMaxInSys → OpenFile} {disk : Bytes}
  {keyboard : Keyboard} {screen : Screen}

lemma run_mute (hrun : Run Step (fun _ _ => True)
    (start (switchToUser (boot pagedir mem fileList disk keyboard)) screen) h m) :
    Sane m.kernel ∧ Mute m.kernel := by
  refine hrun.inv (fun m => Sane m.kernel ∧ Mute m.kernel) ⟨switchToUser_sane boot_sane, boot_mute⟩ ?_
  rintro e m m' ⟨hsane, hm⟩ - hs
  exact ⟨hs.driven.sane hsane, hs.driven.mute hsane hm⟩

/-- **The machine echoes.** From the `fork` of process 0 on, in every order of its steps, of those of its
child, of timer interrupts and of keys, there is no third process, nobody reads the keyboard, and the
screen shows what the interrupts print: the echo of each key and the process of each switch of the timer,
one after the other as they come. It is cleared once at most. -/
theorem machine_echoes (hrun : Run Step (fun _ _ => True)
    (start (switchToUser (boot pagedir mem fileList disk keyboard)) screen) h m) :
    (∃ c, ∀ p, p ≠ 0 → p ≠ c → (m.kernel.pcblist p).pstate = .free) ∧
      runAll Terminal.after (shown h (start (switchToUser (boot pagedir mem fileList disk keyboard)) screen))
        ⟨keyboard, 0, screen⟩ = some m.terminal ∧
      (shown h (start (switchToUser (boot pagedir mem fileList disk keyboard)) screen)).count .clear ≤ 1 := by
  have hinv := hrun.inv_observed perform Event.shown
    (fun l m => (Sane m.kernel ∧ Mute m.kernel) ∧ Scene (l.count .clear) m ∧
      runAll Terminal.after l ⟨keyboard, 0, screen⟩ = some m.terminal) (fun _ _ _ hs => hs) ?_ ?_
  · obtain ⟨-, hscene, hterminal⟩ := hinv
    unfold shown
    cases hscene with
    | alone hfree _ hn => exact ⟨⟨0, fun p h0 _ => hfree p h0⟩, hterminal, by omega⟩
    | early c hc _ hn => exact ⟨⟨c, hc.free⟩, hterminal, by omega⟩
    | late c hc _ hn => exact ⟨⟨c, hc.free⟩, hterminal, by omega⟩
  · refine ⟨⟨switchToUser_sane boot_sane, boot_mute⟩, .alone (fun p hp => ?_) rfl rfl, rfl⟩
    have hfree : ((boot pagedir mem fileList disk keyboard).table.entry p).pstate = .free := by
      rw [boot_table]
      exact if_neg hp
    exact hfree
  · rintro e l m m' ⟨⟨hsane, hm⟩, hscene, hterminal⟩ - hs
    have hechoes := Echoes.step hsane hm hscene hs
    refine ⟨⟨hs.driven.sane hsane, hs.driven.mute hsane hm⟩, ?_, ?_⟩
    · rw [List.count_append]
      exact hechoes.scene
    · rw [runAll_append, hterminal]
      exact hechoes.shows

end Scene

/-! ### A run of the shell -/

/-- What the code of the programs finds in the run. -/
def someFound : Found := ⟨userFrame, 0x1000, [], [], fun _ => []⟩

/-- Process 0 forks, and its child executes the shell, which comes to its `read`; then an `a` is typed. -/
def shellStarts : List Event :=
  [.key 0x1e 0, .code someFound, .code someFound, .code someFound, .code someFound,
    .timer userFrame (fun _ => 0), .code someFound]

section ShellStarts

variable {m m' : Computer} {k : System} {next : ℤ → Place} {f : Found} {t : Terminal} {p : Place}

lemma fork_kernel (h : m.fork next f = some m') : ∃ r, sysFork f.ptr m.kernel = some (r, m'.kernel) := by
  obtain ⟨⟨r, k⟩, hs, rfl⟩ := Option.map_eq_some_iff.mp h
  refine ⟨r, hs.trans ?_⟩
  simp only
  split <;> rfl

/-- A key that is found in the buffer. -/
lemma doKeyboardHandler_a (hshift : t.statusShift = 0) (hoffset : t.keyboard.offset = 0) :
    (doKeyboardHandler 0x1e 0 t).isSome := by
  have hcode : getAscii 0x1e 0 = (some 97, 0) := by decide
  have hkey : (handleCode 97 t.keyboard).isSome := by
    simp only [handleCode, hoffset]
    rfl
  obtain ⟨keyboard, hkeyboard⟩ := Option.isSome_iff_exists.mp hkey
  simp only [doKeyboardHandler, hshift, hcode, Option.getD_some, Option.bind_eq_bind, Option.bind_some, hkeyboard]
  rfl

lemma place_goto (hk : k.current = m.kernel.current) : (m.goto p k).place (m.goto p k).kernel.current = p := by
  rw [goto_place, goto_kernel, hk, Function.update_self]

lemma place_clear : (m.clear p).place m.kernel.current = p := by
  simp only [clear, goto_place, Function.update_self]

lemma terminal_shift_clear : (m.clear p).statusShift = m.statusShift := by simp only [clear, goto]

/-- The steps of the shell from `clear_my_screen` to `read`. -/
lemma shell_comes (hm : Mute m.kernel) (h : m.place m.kernel.current = .shellClear)
    (hshift : m.statusShift = 0) (hoffset : m.kernel.keyboard.offset = 0) :
    ∃ m', Run Step (fun _ _ => True) m
      [.key 0x1e 0, .code someFound, .code someFound, .code someFound] m' ∧
        m'.place m'.kernel.current = .shellRead := by
  have hclear : m.code someFound = some (m.clear .shellHello) := by rw [code, h]
  have hkernel : (m.clear .shellHello).kernel = m.kernel := clear_kernel
  have hplace : (m.clear .shellHello).place (m.clear .shellHello).kernel.current = .shellHello := by
    rw [hkernel]
    exact place_clear
  have hshift' : (m.clear .shellHello).statusShift = 0 := terminal_shift_clear.trans hshift
  generalize m.clear .shellHello = m₁ at hclear hkernel hplace hshift'
  have hhello : m₁.code someFound = some (m₁.goto .shellPrompt m₁.kernel) := by
    rw [code, hplace]
    exact write_mute (hkernel ▸ hm) (by decide)
  have hprompt : (m₁.goto .shellPrompt m₁.kernel).code someFound =
      some ((m₁.goto .shellPrompt m₁.kernel).goto .shellRead m₁.kernel) := by
    rw [code, place_goto rfl]
    exact write_mute (m := m₁.goto .shellPrompt m₁.kernel) (hkernel ▸ hm) (by decide)
  generalize hm₂ : (m₁.goto .shellPrompt m₁.kernel).goto .shellRead m₁.kernel = m₂ at hprompt
  have hread : m₂.place m₂.kernel.current = .shellRead := by
    rw [← hm₂]
    exact place_goto rfl
  obtain ⟨t, ht⟩ := Option.isSome_iff_exists.mp (@doKeyboardHandler_a m₂.terminal
    (by rw [← hm₂]; exact hshift') (by rw [← hm₂]; exact hkernel ▸ hoffset))
  refine ⟨{ m₂ with
    kernel := { m₂.kernel with keyboard := t.keyboard }, statusShift := t.statusShift, screen := t.screen },
    .cons (.cons (.cons (.cons .nil trivial hclear) trivial hhello) trivial hprompt) trivial ?_, hread⟩
  exact Option.map_eq_some_iff.mpr ⟨t, ht, rfl⟩

/-- The kernel with the first child, as the machine comes to it. -/
lemma kernel_childRuns {k₀ : System} {screen : Screen}
    (hm : runAll perform [.timer userFrame (fun _ => 0), .code someFound] (start k₀ screen) = some m)
    (hrun : Run Process.Step Careful k₀ childRuns k) : m.kernel = k := by
  obtain ⟨m₁, hm₁, htimer⟩ := Option.bind_eq_some_iff.mp hm
  obtain ⟨m₀, hm₀, hcode⟩ := Option.bind_eq_some_iff.mp hm₁
  obtain rfl := Option.some_inj.mp hm₀
  obtain rfl := Option.some_inj.mp htimer
  have hfork : (start k₀ screen).code someFound = some m₁ := hcode
  rw [code] at hfork
  obtain ⟨r, hr⟩ := fork_kernel hfork
  cases hrun with
  | cons hrun _ htimer' =>
    cases hrun with
    | cons hrun _ hfork' =>
      cases hrun
      obtain ⟨⟨r', k₁⟩, hr', rfl⟩ := Option.map_eq_some_iff.mp hfork'
      obtain ⟨-, rfl⟩ := Prod.mk.inj (Option.some_inj.mp (hr.symm.trans hr'))
      exact Option.some_inj.mp htimer'

/-- The shell runs, and nobody reads what is typed. -/
theorem machine_echoes_shell : ∃ m, Run Step (fun _ _ => True)
    (start (kernelBoot plainDisk) (blankScreen 0)) shellStarts m ∧ m.place m.kernel.current = .shellRead ∧
      runAll Terminal.after (shown shellStarts (start (kernelBoot plainDisk) (blankScreen 0)))
        ⟨.init, 0, blankScreen 0⟩ = some m.terminal := by
  obtain ⟨k, L, i, r, k', hc, -, -, -, hx⟩ := plainChild
  obtain ⟨m, hm, hplace, hoffset, hshift⟩ := exists_of_any
    (o := runAll perform [.timer userFrame (fun _ => 0), .code someFound]
      (start (kernelBoot plainDisk) (blankScreen 0)))
    (P := fun m => m.place m.kernel.current = .mainExecve ∧ m.kernel.keyboard.offset = 0 ∧ m.statusShift = 0)
    (by decide +kernel)
  obtain rfl := kernel_childRuns hm hc.run
  have hrun : Run Step (fun _ _ => True) (start (kernelBoot plainDisk) (blankScreen 0))
      [.timer userFrame (fun _ => 0), .code someFound] m := run_runAll (fun _ _ _ h => h) hm
  obtain ⟨hsane, hmute⟩ := run_mute hrun
  -- the shell is executed
  have hk' := sysExecve_spec hx
  have hcur : k'.current = m.kernel.current := by rw [hk']
  have hexec : m.code someFound = some (m.goto .shellClear k') := by
    rw [code, hplace]
    show (sysExecve _ _ _ _).map _ = _
    rw [show sysExecve someFound.junk shellPath someFound.ptr m.kernel = _ from hx]
    rfl
  have hmute' : Mute k' := by
    rw [hk']
    exact hmute
  obtain ⟨m', hrun', hread⟩ := @shell_comes (m.goto .shellClear k') hmute' (place_goto hcur) hshift
    (by rw [goto_kernel, hk']; exact hoffset)
  have hstep : Step (.code someFound) m (m.goto .shellClear k') := hexec
  have hall : Run Step (fun _ _ => True) (start (kernelBoot plainDisk) (blankScreen 0)) shellStarts m' :=
    (Run.cons hrun trivial hstep).append hrun'
  exact ⟨m', hall, hread, (machine_echoes hall).2.1⟩

end ShellStarts

end Computer

end Nbos.Process
