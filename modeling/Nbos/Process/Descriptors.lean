import Nbos.Lib.Refs
import Nbos.Process.Files
import Nbos.Process.Lifetime

/-!
# What descriptors refer to

After a `sys_fork` the descriptors of parent and child point to the same entries of the file table,
and `sys_close` and `sys_exit` clear an entry whoever else points to it. `descriptors_faithful_iff` says in which
runs the descriptors that are held go on referring to what they were opened for. What they are held
for is kept beside the state: a descriptor is held from the call that returns it, or from the
`sys_fork` of a process that holds it, until it is closed or its process exits.
-/

namespace Nbos.Process

open Nbos.Lib Nbos.Kernel
open Nbos.Fs hiding Sane

/-! ### Holdings -/

/-- A timer interrupt or a system call. -/
inductive Act where
  | call (c : Call)
  | file (c : FileCall)

/-- A descriptor of a process. -/
abbrev Name : Type := Fin pcbMax × Fin fileMaxInProcess

/-- What a file is opened as. -/
structure Opened where
  inodeBlockNo : UInt32
  inodeOffset : UInt32
  oflags : UInt32
  deriving DecidableEq

/-- What the descriptors are held for. -/
abbrev Holdings : Type := Name → Option Opened

/-- The entry of the file table that an open descriptor points to. -/
def System.refs (k : System) (n : Name) : Option (Fin fileMaxInSys) :=
  if isOpen n.2 (k.pcblist n.1) then ((k.pcblist n.1).fdlist n.2).ofptr else none

/-- What an entry of the file table is open as. -/
def System.opened (k : System) (j : Fin fileMaxInSys) : Option Opened :=
  if (k.fileList j).isopen then
    some ⟨(k.fileList j).fInodeBlockNo, (k.fileList j).fInodeOffset, (k.fileList j).oflags⟩
  else none

/-- Every descriptor that is held points to an open entry that names the same inode, with the same
flags, as when it was opened. -/
def Faithful (s : System × Holdings) : Prop := Refs s.2 s.1.refs s.1.opened

/-- A call that leads from `k` to `k'`: a child holds what its parent holds, and after an exit nothing
is held. -/
def Holdings.call (c : Call) (k k' : System) (g : Holdings) : Holdings :=
  match c.event with
  | .fork => fun n =>
    g (if (k.pcblist n.1).pstate = .free ∧ (k'.pcblist n.1).pstate ≠ .free then (k.current, n.2)
      else n)
  | .exit => fun n => if getPCB k.proc.pid k = some n.1 then none else g n
  | _ => g

/-- A call of the process `p` that returns `r` and has opened `path`. -/
def Holdings.open (junk : List UInt8 → List UInt8) (path : List UInt8) (oflag : UInt32)
    (p : Fin pcbMax) (r : ℤ) (disk : Bytes) (g : Holdings) : Holdings := fun n =>
  if n.1 = p ∧ ((n.2 : ℕ) : ℤ) = r then
    (seekFileInode junk path disk).map fun i => ⟨i.myInodeBlockNo, i.myInodeOffset, oflag⟩
  else g n

/-- A call on files that returns `r`. -/
def Holdings.file (c : FileCall) (r : ℤ) (k k' : System) (g : Holdings) : Holdings :=
  match c with
  | .open junk path oflag => g.open junk path oflag k.current r k'.disk
  | .creat _ _ junk' path _ => g.open junk' path oRdwr k.current r k'.disk
  | .close fd => fun n => if n.1 = k.current ∧ ((n.2 : ℕ) : ℤ) = fd then none else g n
  | .read .. | .write .. => g

/-- A step of the kernel, with the holdings. -/
inductive HeldStep : Act → System × Holdings → System × Holdings → Prop
  | call {c : Call} {k k' : System} (g : Holdings) : Step c k k' →
      HeldStep (.call c) (k, g) (k', g.call c k k')
  | file {c : FileCall} {k k' : System} {r : ℤ} (g : Holdings) : c.perform k = some (r, k') →
      HeldStep (.file c) (k, g) (k', g.file c r k k')

/-- No descriptor that is held, apart from those in `N`, points to the entry of one in `N`. -/
def Alone (N : Set Name) (s : System × Holdings) : Prop :=
  ∀ n ∉ N, s.2 n ≠ none → ∀ m ∈ N, s.1.refs n ≠ s.1.refs m

/-- If there is a descriptor for a file, there is an entry of the file table too. -/
def Room (k : System) : Prop := getMinfd k.proc ≠ none → closedEntry k.fileList ≠ none

/-- `sys_close` and `sys_exit` close no entry that a descriptor held elsewhere points to, and a file
is opened only if the file table has an entry for it. -/
def Exclusive (a : Act) (s : System × Holdings) : Prop :=
  match a with
  | .call c => c.event = .exit → ∀ p, getPCB s.1.proc.pid s.1 = some p → Alone {n | n.1 = p} s
  | .file (.open ..) => Room s.1
  | .file (.creat stack junk _ path mode) =>
    (∃ disk, makeFile stack junk path mode s.1.disk = some (true, disk)) → Room s.1
  | .file (.close fd) => Alone {n | n.1 = s.1.current ∧ ((n.2 : ℕ) : ℤ) = fd} s
  | .file (.read ..) | .file (.write ..) => True

section Descriptors

variable {k k' : System} {g g' : Holdings} {c : Call} {a : Act} {p : Fin pcbMax} {r : ℤ}
  {path : List UInt8} {junk : List UInt8 → List UInt8} {oflag : UInt32}

/-! ### One step -/

lemma System.refs_congr {n n' : Name}
    (h : (k'.pcblist n'.1).fdlist n'.2 = (k.pcblist n.1).fdlist n.2) : k'.refs n' = k.refs n := by
  rw [System.refs, System.refs, isOpen, isOpen, h]

lemma System.opened_congr {j : Fin fileMaxInSys} (h : k'.fileList j = k.fileList j) :
    k'.opened j = k.opened j := by
  rw [System.opened, System.opened, h]

lemma Faithful.congr (hf : Faithful (k, g))
    (h : ∀ p, (k'.pcblist p).fdlist = (k.pcblist p).fdlist) (hopened : k'.opened = k.opened) :
    Faithful (k', g) := by
  have hrefs : k'.refs = k.refs := funext fun n => System.refs_congr (by rw [h])
  rw [Faithful, hrefs, hopened]
  exact hf

lemma System.opened_closed {j : Fin fileMaxInSys} (h : (k.fileList j).isopen = false) :
    k.opened j = none := by
  rw [System.opened, if_neg (by rw [h]; decide)]

lemma Undisturbed.opened (h : Undisturbed k k') : k'.opened = k.opened := by
  funext j
  rw [System.opened, System.opened, h.files j]

lemma System.setPcb_fdlist {c : Pcb} {q : Fin pcbMax} (h : c.fdlist = (k.pcblist p).fdlist) :
    ((k.setPcb p c).pcblist q).fdlist = (k.pcblist q).fdlist := by
  by_cases hq : q = p
  · rw [hq, System.setPcb_self, h]
  · rw [System.setPcb_of_ne hq]

lemma Switched.fdlist {ptr : IntrContext} (h : Switched ptr p k k') (q : Fin pcbMax) :
    (k'.pcblist q).fdlist = (k.pcblist q).fdlist := by
  by_cases hq : q = k.current
  · rw [hq, h.last]
  · by_cases hqp : q = p
    · subst hqp
      rw [h.next hq]
    · rw [h.pcb q hq hqp]

/-- What an open descriptor of the child refers to, its parent's does. -/
lemma Forked.refs {ptr : IntrContext} {pid : ℤ} (h : Forked ptr p pid k k') (n : Name) :
    k'.refs n = k.refs (if n.1 = p then (k.current, n.2) else n) := by
  split
  · rename_i hn
    refine System.refs_congr ?_
    rw [hn, h.proc]
    rfl
  · rename_i hn
    exact System.refs_congr (by rw [h.pcb n.1 hn])

/-- The slot of the child is the one that was free and is so no longer. -/
lemma Forked.child_iff {ptr : IntrContext} {pid : ℤ} (h : Forked ptr p pid k k')
    (q : Fin pcbMax) :
    (k.pcblist q).pstate = .free ∧ (k'.pcblist q).pstate ≠ .free ↔ q = p := by
  by_cases hq : q = p
  · subst hq
    refine iff_of_true ⟨h.free, ?_⟩ rfl
    rw [h.proc]
    simp [copyContext]
  · rw [h.pcb q hq]
    exact iff_of_false (fun hc => hc.2 hc.1) hq

/-- A slot that `sys_exit` clears refers to nothing, and the entries it referred to are closed. -/
lemma Exited.faithful_iff (h : Exited p k k') (hf : Faithful (k, g)) :
    Faithful (k', fun n => if p = n.1 then none else g n) ↔ Alone {n | n.1 = p} (k, g) := by
  refine refs_release_iff hf (fun n hn => if_pos hn.symm) (fun n hn => if_neg fun e => hn e.symm)
    (fun n hn => ?_) (fun j hj => ?_) fun j hj => ?_
  · exact System.refs_congr (by rw [h.pcb n.1 hn])
  · obtain ⟨⟨q, i⟩, rfl, he⟩ := hj
    rw [System.refs] at he
    split at he
    · rename_i hopen
      refine System.opened_closed ?_
      rw [h.files j, if_pos ⟨i, hopen, he⟩]
    · cases he
  · exact System.opened_congr ((h.files j).trans (if_neg fun ⟨i, hopen, he⟩ =>
      hj ⟨(p, i), rfl, by rw [System.refs, if_pos hopen, he]⟩))

lemma Step.faithful_iff (hk : Sane k) (hf : Faithful (k, g)) (hs : Step c k k') :
    Faithful (k', g.call c k k') ↔ Exclusive (.call c) (k, g) := by
  have hopened : k'.fileList = k.fileList → k'.opened = k.opened := fun h =>
    funext fun j => System.opened_congr (by rw [h])
  cases hs.stepped hk with
  | idle => exact iff_of_true hf fun he => by cases he
  | switch hsw =>
    refine iff_of_true ?_ fun he => by cases he
    exact hf.congr hsw.fdlist (hopened hsw.rest.2.2.1)
  | @forkFails ptr n =>
    refine iff_of_true ?_ fun he => by cases he
    have hg : g.call (.fork ptr) k { k with nextpid := n } = g := by
      funext n
      simp only [Holdings.call, Call.event]
      rw [if_neg fun hc => hc.2 hc.1]
    rw [hg]
    exact hf.congr (fun p => rfl) (hopened rfl)
  | @fork ptr p _ _ hforked =>
    refine iff_of_true ?_ fun he => by cases he
    rw [Faithful, hopened hforked.rest.2.1]
    have hg : g.call (.fork ptr) k k' = fun n =>
        g (if n.1 = p then (k.current, n.2) else n) := by
      funext n
      simp only [Holdings.call, Call.event, hforked.child_iff]
    rw [hg, show k'.refs = _ from funext hforked.refs]
    exact hf.comap _
  | execve h =>
    refine iff_of_true ?_ fun he => by cases he
    have hx : k'.pcblist = k.pcblist ∧ k'.fileList = k.fileList := by
      rw [sysExecve_spec h]
      exact ⟨rfl, rfl⟩
    exact hf.congr (fun p => by rw [hx.1]) (hopened hx.2)
  | @exit p _ hp hx =>
    have hg : g.call .exit k k' = fun n => if p = n.1 then none else g n := by
      funext n
      simp only [Holdings.call, Call.event, hp, Option.some_inj]
    rw [hg, hx.faithful_iff hf]
    refine ⟨fun ha _ q hq => ?_, fun ha => ha rfl p hp⟩
    rw [← Option.some_inj.mp (hp.symm.trans hq)]
    exact ha
  | waitFails => exact iff_of_true hf fun he => by cases he
  | reap =>
    refine iff_of_true ?_ fun he => by cases he
    exact hf.congr (fun q => System.setPcb_fdlist rfl) rfl

lemma Undisturbed.faithful (h : Undisturbed k k') (hf : Faithful (k, g)) : Faithful (k', g) :=
  hf.congr (fun p => by rw [h.pcblist]) h.opened

lemma FileOpened.refs {i : Inode} {fd : Fin fileMaxInProcess} {j : Fin fileMaxInSys}
    (h : FileOpened i oflag fd j k k') :
    k'.refs = Function.update k.refs (k.current, fd) (some j) := by
  funext n
  rw [h.eq, System.refs, isOpen]
  by_cases hn : n = (k.current, fd)
  · subst hn
    rw [Function.update_self]
    simp only [System.setPcb_self, Function.update_self, if_true]
  · rw [Function.update_of_ne hn, System.refs, isOpen]
    simp only [System.setPcb_pcblist]
    by_cases hp : n.1 = k.current
    · have hfd : n.2 ≠ fd := fun hfd => hn (Prod.ext hp hfd)
      simp only [hp, if_true, Function.update_of_ne hfd]
    · simp only [if_neg hp]

lemma FileOpened.opened {i : Inode} {fd : Fin fileMaxInProcess} {j : Fin fileMaxInSys}
    (h : FileOpened i oflag fd j k k') : k'.opened =
      Function.update k.opened j (some ⟨i.myInodeBlockNo, i.myInodeOffset, oflag⟩) := by
  funext j'
  rw [h.eq, System.opened]
  by_cases hj : j' = j
  · subst hj
    simp only [Function.update_self, if_true]
  · simp only [Function.update_of_ne hj, System.opened]

lemma sysOpen_disk (h : sysOpen junk path oflag k = some (r, k')) : k'.disk = k.disk := by
  obtain ⟨i, -, ⟨-, -, rfl⟩ | ⟨fd, -, -, ⟨-, rfl⟩ | ⟨j, ho⟩⟩⟩ := sysOpen_spec h
  · rfl
  · rfl
  · rw [ho.eq]
    rfl

/-- The descriptor that `sys_open` returns refers to the file if there was an entry for it. -/
lemma sysOpen_faithful_iff (hf : Faithful (k, g)) (h : sysOpen junk path oflag k = some (r, k')) :
    Faithful (k', g.open junk path oflag k.current r k.disk) ↔ Room k := by
  obtain ⟨i, hi, ⟨hnone, rfl, rfl⟩ | ⟨fd, hfd, rfl, hopen⟩⟩ := sysOpen_spec h
  · have hg : g.open junk path oflag k'.current (-1) k'.disk = g := by
      funext n
      rw [Holdings.open, if_neg]
      omega
    rw [hg]
    exact iff_of_true hf fun hsome => absurd hnone hsome
  · have hg : g.open junk path oflag k.current (fd : ℕ) k.disk = Function.update g (k.current, fd)
        (some ⟨i.myInodeBlockNo, i.myInodeOffset, oflag⟩) := by
      funext n
      rw [Holdings.open, hi, Option.map_some, Function.update_apply]
      refine if_congr ?_ rfl rfl
      rw [Prod.ext_iff, Nat.cast_inj, Fin.val_inj]
    rw [hg]
    rcases hopen with ⟨hfull, rfl⟩ | ⟨j, ho⟩
    · -- the descriptor stays closed
      refine iff_of_false (fun hf' => ?_) fun hroom => hroom (by rw [hfd]; simp) hfull
      have hnow := hf' (k'.current, fd) _ (Function.update_self ..)
      rw [System.refs, if_neg (by rw [getMinfd_spec hfd]; decide)] at hnow
      cases hnow
    · refine iff_of_true ?_ fun _ => by rw [ho.closed]; simp
      rw [Faithful, ho.refs, ho.opened]
      exact hf.add (System.opened_closed (closedEntry_spec ho.closed))

/-- `sys_close` is right for the other descriptors if none points to the same entry. -/
lemma sysClose_faithful_iff {fd : ℤ} (hf : Faithful (k, g)) (h : sysClose fd k = (r, k')) :
    Faithful (k', fun n => if n.1 = k.current ∧ ((n.2 : ℕ) : ℤ) = fd then none else g n) ↔
      Alone {n | n.1 = k.current ∧ ((n.2 : ℕ) : ℤ) = fd} (k, g) := by
  refine refs_release_iff hf (fun n hn => if_pos hn) (fun n hn => if_neg hn) (fun n hn => ?_)
    (fun j hj => ?_) fun j hj => ?_
  · rcases sysClose_spec h with ⟨rfl, -⟩ | ⟨i, hi, -, rfl⟩
    · rfl
    · rw [System.refs, System.refs, isOpen, isOpen]
      simp only [System.setPcb_pcblist]
      by_cases hp : n.1 = k.current
      · have hni : n.2 ≠ i := fun e => hn ⟨hp, by rw [e, hi]⟩
        simp only [hp, if_true, Function.update_of_ne hni]
      · simp only [if_neg hp]
  · obtain ⟨⟨q, i⟩, ⟨rfl, hi⟩, he⟩ := hj
    rw [System.refs] at he
    split at he
    · rename_i hopen
      rcases sysClose_spec h with ⟨-, hclosed⟩ | ⟨i', hi', -, rfl⟩
      · rw [hclosed i hi] at hopen
        cases hopen
      · obtain rfl : i = i' := Fin.ext (by simp only at hi; omega)
        refine System.opened_closed ?_
        simp only at he
        simp only [he, delFile, Function.update_self]
    · cases he
  · rcases sysClose_spec h with ⟨rfl, -⟩ | ⟨i, hi, hopen, rfl⟩
    · rfl
    · have hne : (k.proc.fdlist i).ofptr ≠ some j := fun he =>
        hj ⟨(k.current, i), ⟨rfl, hi⟩, by rw [System.refs, if_pos hopen, he]⟩
      exact System.opened_congr (delFile_of_ne hne)

lemma FileCall.faithful_iff {c : FileCall} (hf : Faithful (k, g))
    (h : c.perform k = some (r, k')) :
    Faithful (k', g.file c r k k') ↔ Exclusive (.file c) (k, g) := by
  cases c with
  | «open» junk path oflag =>
    have hg : g.file (.open junk path oflag) r k k' =
        g.open junk path oflag k.current r k.disk := by
      rw [← sysOpen_disk h]
      rfl
    rw [hg]
    exact sysOpen_faithful_iff hf h
  | creat stack junk junk' path mode =>
    have hg : g.file (.creat stack junk junk' path mode) r k k' =
      g.open junk' path oRdwr k.current r k'.disk := rfl
    rw [hg]
    rcases sysCreat_spec h with ⟨disk, hm, rfl, rfl⟩ | ⟨disk, hm, ho⟩
    · have hg' : g.open junk' path oRdwr k.current (-1) disk = g := by
        funext n
        rw [Holdings.open, if_neg]
        omega
      rw [hg']
      refine iff_of_true hf fun ⟨disk', hm'⟩ => ?_
      cases hm.symm.trans hm'
    · rw [sysOpen_disk ho]
      refine (sysOpen_faithful_iff (k := { k with disk := disk }) hf ho).trans ?_
      exact ⟨fun hroom _ => hroom, fun hroom => hroom ⟨disk, hm⟩⟩
  | close fd => exact sysClose_faithful_iff hf (Option.some_inj.mp h)
  | read junk fd ptr size => exact iff_of_true ((sysRead_spec h).faithful hf) trivial
  | write fd ptr buf size => exact iff_of_true ((sysWrite_spec h).faithful hf) trivial

/-! ### Runs -/

lemma Sane.congr (hk : Sane k) (ht : k'.table = k.table) (hn : k'.nextpid = k.nextpid) : Sane k' :=
  ⟨ht ▸ hk.table, hn ▸ hk.nextpid⟩

lemma Undisturbed.sane (h : Undisturbed k k') (hk : Sane k) : Sane k' :=
  hk.congr (by rw [System.table, System.table, h.pcblist, h.current]) h.nextpid

lemma System.table_setFdlist {fdlist : Fin fileMaxInProcess → Fd} :
    (k.setPcb p { k.pcblist p with fdlist := fdlist }).table = k.table := by
  rw [System.table_setPcb]
  exact table_ext rfl fun q => Function.update_eq_self p k.table.entry ▸ rfl

lemma sysOpen_sane (hk : Sane k) (h : sysOpen junk path oflag k = some (r, k')) : Sane k' := by
  obtain ⟨i, -, ⟨-, -, rfl⟩ | ⟨fd, -, -, ⟨-, rfl⟩ | ⟨j, ho⟩⟩⟩ := sysOpen_spec h
  · exact hk
  · exact hk
  · rw [ho.eq]
    exact hk.congr System.table_setFdlist rfl

/-- The calls on files leave the process table alone. -/
lemma FileCall.sane {c : FileCall} (hk : Sane k) (h : c.perform k = some (r, k')) : Sane k' := by
  cases c with
  | «open» junk path oflag => exact sysOpen_sane hk h
  | creat stack junk junk' path mode =>
    rcases sysCreat_spec h with ⟨disk, -, -, rfl⟩ | ⟨disk, -, ho⟩
    · exact hk.congr rfl rfl
    · exact sysOpen_sane (k := { k with disk := disk }) (hk.congr rfl rfl) ho
  | close fd =>
    rcases sysClose_spec (Option.some_inj.mp h) with ⟨rfl, -⟩ | ⟨i, -, -, rfl⟩
    · exact hk
    · exact hk.congr System.table_setFdlist rfl
  | read junk fd ptr size => exact (sysRead_spec h).sane hk
  | write fd ptr buf size => exact (sysWrite_spec h).sane hk

lemma HeldStep.faithful_iff {s s' : System × Holdings} (hk : Sane s.1) (hf : Faithful s)
    (hs : HeldStep a s s') : Faithful s' ↔ Exclusive a s := by
  cases hs with
  | call g hs => exact hs.faithful_iff hk hf
  | file g hs => exact FileCall.faithful_iff hf hs

lemma HeldStep.sane {s s' : System × Holdings} (hk : Sane s.1) (hs : HeldStep a s s') :
    Sane s'.1 := by
  cases hs with
  | call g hs => exact hk.step hs
  | file g hs => exact FileCall.sane hk hs

variable {pagedir : ℕ} {mem : Memory.Mem} {fileList : Fin fileMaxInSys → OpenFile} {disk : Bytes}
  {keyboard : Device.Keyboard} {h : List Act}

/-- **When descriptors keep their file**: in every run in which no `sys_close` and no `sys_exit`
closes an entry that a descriptor held elsewhere points to, and no file is opened with a full file
table, the descriptors are as they should be; and after one more step they are if and only if that
step does neither. -/
theorem descriptors_faithful_iff {s : System × Holdings}
    (hrun : Run HeldStep Exclusive (boot pagedir mem fileList disk keyboard, fun _ => none) h s) :
    Faithful s ∧ ∀ a s', HeldStep a s s' → (Faithful s' ↔ Exclusive a s) := by
  obtain ⟨hk, hf⟩ := hrun.inv (fun s => Sane s.1 ∧ Faithful s)
    ⟨boot_sane, fun n o hn => by cases hn⟩ fun a s s' ⟨hk, hf⟩ hG hs =>
      ⟨hs.sane hk, (hs.faithful_iff hk hf).mpr hG⟩
  exact ⟨hf, fun a s' hs => hs.faithful_iff hk hf⟩

end Descriptors

/-! ### A descriptor shared with a child -/

/-- The step, with the holdings after it. -/
def Act.held (a : Act) (s : System × Holdings) : Option (System × Holdings) :=
  match a with
  | .call c => (c.perform s.1).map fun k' => (k', s.2.call c s.1 k')
  | .file c => (c.perform s.1).map fun r => (r.2, s.2.file c r.1 s.1 r.2)

lemma heldStep_of_held {a : Act} {s s' : System × Holdings} (h : a.held s = some s') :
    HeldStep a s s' := by
  cases a with
  | call c =>
    obtain ⟨k', hk', rfl⟩ := Option.map_eq_some_iff.mp h
    exact .call s.2 hk'
  | file c =>
    obtain ⟨r, hr, rfl⟩ := Option.map_eq_some_iff.mp h
    exact .file s.2 hr

/-- The kernel after `init_pcb`, `init_openFileList` and `init_file`, with no descriptor held. -/
def filesBoot : System × Holdings :=
  (boot 0xc0020000 ⟨fun _ => 0, 0⟩ (initOpenFileList fun _ => ⟨0, 0, 0, 0, false⟩) installedDisk .init,
    fun _ => none)

/-- `sys_open` of `/shell`. -/
def openShell : Act := .file (.open (fun _ => []) shellPath oRdwr)

/-- The shell is opened, a child is forked, and it closes the descriptor that it has inherited. -/
def closedByChild : List Act :=
  [.file (.close 3), .call (.timer userFrame), .call (.fork userFrame), openShell]

/-- The child closes the entry of its parent too. -/
theorem closed_by_child :
    ¬ ∀ h s, Run HeldStep (fun _ _ => True) filesBoot h s → Faithful s := by
  intro hall
  obtain ⟨s, hs, hheld, hgone⟩ := exists_of_any
    (P := fun s => (s.2 (0, 3)).isSome = true ∧ (s.1.refs (0, 3)).bind s.1.opened = none)
    (o := runAll Act.held closedByChild filesBoot) (by decide +kernel)
  obtain ⟨o, ho⟩ := Option.isSome_iff_exists.mp hheld
  have hright := hall _ s (run_runAll (fun _ _ _ => heldStep_of_held) hs) (0, 3) o ho
  rw [hgone] at hright
  cases hright

theorem descriptors_faithful_iff_openShell : ∃ s, runAll Act.held [openShell] filesBoot = some s ∧
    Faithful s := by
  obtain ⟨s, hs, -⟩ := exists_of_any (P := fun _ => True)
    (o := runAll Act.held [openShell] filesBoot) (by decide +kernel)
  have hentry : closedEntry filesBoot.1.fileList ≠ none := by decide +kernel
  have hrun : Run HeldStep Exclusive filesBoot [openShell] s :=
    .cons .nil (fun _ => hentry) (heldStep_of_held hs)
  exact ⟨s, hs, (descriptors_faithful_iff hrun).1⟩

end Nbos.Process
