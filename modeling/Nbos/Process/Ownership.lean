import Nbos.Memory.Space
import Nbos.Process.Run

/-!
# Who has which page

The pages that the processes reach through their directories, and those on the free list. `Owned` is
the invariant: the address spaces of the processes and the free list have no page in common, and the
directory and the tables of process 0 are apart from all of them. `sys_fork`, `sys_exit`, `sys_wait`
and the timer keep it (`Owned.step`); `sys_execve` does not (`execve_breaks`): it gives back the
tables of the caller and leaves the entries that point to them.
-/

namespace Nbos.Process

open Nbos.Lib Nbos.Kernel Nbos.Memory
open Nbos.Fs (seekFileInode)

/-! ### The invariant -/

/-- A process other than process 0 that has not exited. -/
def Live (k : System) (p : Fin pcbMax) : Prop :=
  p ≠ 0 ∧ (k.pcblist p).pstate ≠ .free ∧ (k.pcblist p).pstate ≠ .zombie

/-- The pages of the process in the slot `p`: its directory and all that its user half reaches. -/
def System.space (k : System) (p : Fin pcbMax) : List ℕ :=
  userPages k.mem.ram (k.pcblist p).pagedir

/-- The space of `p` in `k` has the shape of that of `q` in `k'`: the same entries of the directory
are present, and as many pages are behind them. -/
def SameShape (k : System) (p : Fin pcbMax) (k' : System) (q : Fin pcbMax) : Prop :=
  (∀ i < 0x300, Present (entry k.mem.ram (k.pcblist p).pagedir i) ↔
    Present (entry k'.mem.ram (k'.pcblist q).pagedir i)) ∧
  (k.space p).length = (k'.space q).length

/-- The free list visits `L`, and no page has two owners. -/
structure Owned (L : List ℕ) (k : System) : Prop where
  free : FreeList k.mem L 0
  list : PageList L
  space : ∀ p, Live k p → PageList (k.space p ++ L)
  apart : ∀ p q, Live k p → Live k q → p ≠ q → (k.space p).Disjoint (k.space q)
  root : Apart L k.mem.ram (k.pcblist 0).pagedir
  rootApart : ∀ p, Live k p → Apart (k.space p) k.mem.ram (k.pcblist 0).pagedir

/-- The page `q` is free or belongs to a process other than process 0. -/
def Held (L : List ℕ) (k : System) (q : ℕ) : Prop := q ∈ L ∨ ∃ p, Live k p ∧ q ∈ k.space p

/-- What a step that keeps the pages apart leaves of the free list `L`: no page comes in from
elsewhere, and every address space has the shape of one that was there before. -/
structure Kept (L : List ℕ) (k : System) (L' : List ℕ) (k' : System) : Prop where
  owned : Owned L' k'
  held : ∀ q, Held L' k' q → Held L k q
  shape : ∀ p, p = 0 ∨ Live k' p → ∃ q, (q = 0 ∨ Live k q) ∧ SameShape k' p k q

/-- What a step leaves that makes no process, ends none and writes no memory. -/
structure Quiet (k k' : System) : Prop where
  mem : k'.mem = k.mem
  live : ∀ p, Live k' p ↔ Live k p
  pagedir : ∀ p, p = 0 ∨ Live k p → (k'.pcblist p).pagedir = (k.pcblist p).pagedir

section Owned

variable {L W : List ℕ} {k k' : System} {p q : Fin pcbMax} {ptr : IntrContext} {pid : ℤ}

lemma System.dir_mem_space : (k.pcblist p).pagedir ∈ k.space p := List.mem_cons_self ..

/-- The directory of a process and its tables are not free. -/
lemma Owned.apart_free (h : Owned L k) (hp : p = 0 ∨ Live k p) :
    Apart L k.mem.ram (k.pcblist p).pagedir := by
  rcases hp with rfl | hp
  · exact h.root
  · obtain ⟨hs, -, hd⟩ := (h.space p hp).append
    exact apart_of_disjoint (hs.page _ System.dir_mem_space).mod hd

/-- The pages of a process are kept by writes to pages that are not its own. -/
lemma System.space_eq (hW : ∀ p ∈ W, p % 4096 = 0)
    (hframe : ∀ x, Off W x → k'.mem.ram x = k.mem.ram x)
    (hdir : (k'.pcblist p).pagedir = (k.pcblist p).pagedir)
    (h : Apart W k.mem.ram (k.pcblist p).pagedir) : k'.space p = k.space p := by
  rw [System.space, hdir]
  exact h.userPages_eq hW hframe

lemma System.sameShape (hW : ∀ p ∈ W, p % 4096 = 0)
    (hframe : ∀ x, Off W x → k'.mem.ram x = k.mem.ram x)
    (hdir : (k'.pcblist p).pagedir = (k.pcblist p).pagedir)
    (h : Apart W k.mem.ram (k.pcblist p).pagedir) : SameShape k' p k p := by
  refine ⟨fun i hi => ?_, congrArg List.length (System.space_eq hW hframe hdir h)⟩
  rw [hdir, h.entry_dir hW hframe (by omega)]

lemma Quiet.refl : Quiet k k := ⟨rfl, fun _ => Iff.rfl, fun _ _ => rfl⟩

lemma Quiet.trans {k'' : System} (h : Quiet k k') (h' : Quiet k' k'') : Quiet k k'' :=
  ⟨h'.mem.trans h.mem, fun p => (h'.live p).trans (h.live p), fun p hp =>
    (h'.pagedir p (hp.imp id (h.live p).mpr)).trans (h.pagedir p hp)⟩

/-- A quiet step leaves every page with its owner. -/
lemma Owned.quiet (h : Owned L k) (hq : Quiet k k') : Kept L k L k' := by
  have hroot : (k'.pcblist 0).pagedir = (k.pcblist 0).pagedir := hq.pagedir 0 (.inl rfl)
  have hlive : ∀ p, Live k' p → Live k p := fun p => (hq.live p).mp
  have hspace : ∀ p, Live k' p → k'.space p = k.space p := fun p hp => by
    rw [System.space, hq.mem, hq.pagedir p (.inr (hlive p hp)), System.space]
  refine ⟨⟨hq.mem ▸ h.free, h.list, fun p hp => ?_, fun p q hp hq hpq => ?_, ?_, fun p hp => ?_⟩,
    ?_, fun p hp => ?_⟩
  · rw [hspace p hp]
    exact h.space p (hlive p hp)
  · rw [hspace p hp, hspace q hq]
    exact h.apart p q (hlive p hp) (hlive q hq) hpq
  · rw [hq.mem, hroot]
    exact h.root
  · rw [hspace p hp, hq.mem, hroot]
    exact h.rootApart p (hlive p hp)
  · rintro q (hq | ⟨p, hp, hq⟩)
    · exact .inl hq
    · exact .inr ⟨p, hlive p hp, hspace p hp ▸ hq⟩
  · have hp' := hp.imp id (hlive p)
    have hdir := hq.pagedir p hp'
    exact ⟨p, hp', fun i _ => by rw [hq.mem, hdir], by
      rw [System.space, hq.mem, hdir, System.space]⟩

/-- **`sys_fork` keeps it**: the child gets the first pages of the free list, as many as the current
process has. -/
theorem Owned.fork (h : Owned L k) (hcur : k.current = 0 ∨ Live k k.current) (hp : p ≠ 0)
    (hf : Forked ptr p pid k k') (hlen : (k.space k.current).length ≤ L.length) :
    ∃ rest, L = k'.space p ++ rest ∧ (k'.space p).length = (k.space k.current).length ∧
      Kept L k rest k' := by
  have hA := h.apart_free hcur
  have hc := copied h.list h.free hA.mod hA.self hA.tables hlen
  rw [← hf.mem] at hc
  have hdir : (k'.pcblist p).pagedir = k.mem.freeList := by rw [hf.proc]; rfl
  have hmod : ∀ q ∈ L, q % 4096 = 0 := fun q hq => (h.list.page q hq).mod
  obtain ⟨rest, hrest, hfree⟩ := hc.free
  have hL : L = k'.space p ++ rest := by rw [System.space, hdir]; exact hrest
  have hold : ∀ q, Live k' q → q ≠ p → Live k q ∧ k'.space q = k.space q := by
    intro q hq hqp
    have hlive : Live k q := by
      unfold Live at hq
      rwa [hf.pcb q hqp] at hq
    exact ⟨hlive, System.space_eq hmod hc.frame (by rw [hf.pcb q hqp]) (h.apart_free (.inr hlive))⟩
  have hsub : ∀ q ∈ k'.space p, q ∈ L := fun q hq => hL ▸ List.mem_append_left _ hq
  have hsize : (k'.space p).length = (k.space k.current).length := by
    rw [System.space, hdir]
    exact hc.length
  have hroot : Apart L k'.mem.ram (k'.pcblist 0).pagedir := by
    rw [hf.pcb 0 hp.symm]
    exact h.root.keep hmod hc.frame h.root
  refine ⟨rest, hL, hsize, ⟨hfree, ?_, fun q hq => ?_, fun q r hq hr hqr => ?_, ?_, fun q hq => ?_⟩, ?_,
    fun q hq => ?_⟩
  · exact (hL ▸ h.list).append.2.1
  · by_cases hqp : q = p
    · rw [hqp, ← hL]
      exact h.list
    · obtain ⟨hlive, hspace⟩ := hold q hq hqp
      have hall := h.space q hlive
      rw [hspace]
      refine hall.sublist ((List.Sublist.refl _).append ?_)
      rw [hL]
      exact List.sublist_append_right _ _
  · by_cases hqp : q = p
    · obtain ⟨hlive, hspace⟩ := hold r hr fun e => hqr (hqp.trans e.symm)
      rw [hqp, hspace]
      exact fun x hx hx' => (h.space r hlive).append.2.2 hx' (hsub x hx)
    · obtain ⟨hlive, hspace⟩ := hold q hq hqp
      by_cases hrp : r = p
      · rw [hrp, hspace]
        exact fun x hx hx' => (h.space q hlive).append.2.2 hx (hsub x hx')
      · obtain ⟨hlive', hspace'⟩ := hold r hr hrp
        rw [hspace, hspace']
        exact h.apart q r hlive hlive' hqr
  · exact hroot.of_subset fun q hq => hL ▸ List.mem_append_right _ hq
  · by_cases hqp : q = p
    · rw [hqp]
      exact hroot.of_subset hsub
    · obtain ⟨hlive, hspace⟩ := hold q hq hqp
      rw [hspace, hf.pcb 0 hp.symm]
      exact h.root.keep hmod hc.frame (h.rootApart q hlive)
  · rintro q (hq | ⟨r, hr, hq⟩)
    · exact .inl (hL ▸ List.mem_append_right _ hq)
    · by_cases hrp : r = p
      · exact .inl (hsub q (hrp ▸ hq))
      · obtain ⟨hlive, hspace⟩ := hold r hr hrp
        exact .inr ⟨r, hlive, hspace ▸ hq⟩
  · by_cases hqp : q = p
    · refine ⟨k.current, hcur, fun i hi => ?_, hqp ▸ hsize⟩
      rw [hqp, hdir]
      exact hc.present i (by omega)
    · have hq' : q = 0 ∨ Live k q := hq.imp id fun hq => (hold q hq hqp).1
      exact ⟨q, hq', System.sameShape hmod hc.frame (by rw [hf.pcb q hqp]) (h.apart_free hq')⟩

/-- `sys_exit` writes the link of the directory that it gives back. -/
lemma Exited.frame (hx : Exited p k k') {x : ℕ} (hoff : Off [(k.pcblist p).pagedir] x) :
    k'.mem.ram x = k.mem.ram x := by
  have hD := hoff _ (List.mem_singleton_self _)
  rw [hx.mem]
  show put32 k.mem.ram (k.pcblist p).pagedir k.mem.freeList x = _
  refine put32_of_not_mem ?_
  unfold InPage at hD
  simp only [pageSize] at hD
  omega

lemma Exited.pagedir (hx : Exited p k k') : (k'.pcblist q).pagedir = (k.pcblist q).pagedir := by
  by_cases hq : q = p
  · rw [hq, hx.proc]
  · rw [hx.pcb q hq]

/-- The process is gone, and the others are as they were. -/
lemma Exited.live (hx : Exited p k k') (hq : Live k' q) : q ≠ p ∧ Live k q := by
  have hqp : q ≠ p := by
    rintro rfl
    refine hq.2.2 ?_
    rw [hx.proc]
  refine ⟨hqp, ?_⟩
  unfold Live at hq
  rwa [hx.pcb q hqp] at hq

/-- **`sys_exit` keeps it**: the directory is given back, and nobody reaches it any more. The tables
and the pages behind it are lost. -/
theorem Owned.exit (h : Owned L k) (hp : Live k p) (hx : Exited p k k') :
    Kept L k ((k.pcblist p).pagedir :: L) k' := by
  set D := (k.pcblist p).pagedir with hD
  obtain ⟨hs, -, hdisj⟩ := (h.space p hp).append
  have hpage : IsPage D := hs.page D System.dir_mem_space
  have hDL : D ∉ L := hdisj System.dir_mem_space
  have hmod : ∀ q ∈ [D], q % 4096 = 0 := by simpa using hpage.mod
  have hframe : ∀ x, Off [D] x → k'.mem.ram x = k.mem.ram x := fun x hoff => hx.frame hoff
  have hlist : PageList (D :: L) :=
    ⟨List.forall_mem_cons.mpr ⟨hpage, h.list.page⟩, List.nodup_cons.mpr ⟨hDL, h.list.nodup⟩⟩
  have hdir : ∀ q, (k'.pcblist q).pagedir = (k.pcblist q).pagedir := fun q => hx.pagedir
  have hrootD : Apart [D] k.mem.ram (k.pcblist 0).pagedir :=
    (h.rootApart p hp).of_subset (by simpa using System.dir_mem_space)
  have hold : ∀ q, Live k' q → q ≠ p ∧ Live k q ∧ D ∉ k.space q ∧ k'.space q = k.space q := by
    intro q hq
    obtain ⟨hqp, hlive⟩ := hx.live hq
    have hDq : D ∉ k.space q := fun hm => h.apart p q hp hlive hqp.symm System.dir_mem_space hm
    refine ⟨hqp, hlive, hDq, System.space_eq hmod hframe (hdir q) ?_⟩
    refine apart_of_disjoint (h.apart_free (.inr hlive)).mod fun x hx hxD => hDq ?_
    rwa [← List.mem_singleton.mp hxD]
  refine ⟨⟨?_, hlist, fun q hq => ?_, fun q r hq hr hqr => ?_, ?_, fun q hq => ?_⟩, ?_,
    fun q hq => ?_⟩
  · rw [hx.mem]
    exact h.free.free (h.free.lt h.list) hpage.mod (fun q hq => (h.list.page q hq).mod) hDL
  · obtain ⟨-, hlive, hDq, hspace⟩ := hold q hq
    have hall := h.space q hlive
    rw [hspace]
    refine ⟨fun x hx => ?_, ?_⟩
    · rcases List.mem_append.mp hx with hx | hx
      · exact hall.page x (List.mem_append_left _ hx)
      · exact hlist.page x hx
    · refine List.nodup_append'.mpr ⟨hall.append.1.nodup, hlist.nodup, fun x hx hx' => ?_⟩
      rcases List.mem_cons.mp hx' with rfl | hx'
      · exact hDq hx
      · exact hall.append.2.2 hx hx'
  · obtain ⟨-, hlive, -, hspace⟩ := hold q hq
    obtain ⟨-, hlive', -, hspace'⟩ := hold r hr
    rw [hspace, hspace']
    exact h.apart q r hlive hlive' hqr
  · rw [hdir]
    exact (hrootD.keep hmod hframe (hrootD.append h.root)).of_subset fun q hq => by
      simpa using hq
  · obtain ⟨-, hlive, -, hspace⟩ := hold q hq
    rw [hspace, hdir]
    exact hrootD.keep hmod hframe (h.rootApart q hlive)
  · rintro q (hq | ⟨r, hr, hq⟩)
    · rcases List.mem_cons.mp hq with rfl | hq
      · exact .inr ⟨p, hp, System.dir_mem_space⟩
      · exact .inl hq
    · obtain ⟨-, hlive, -, hspace⟩ := hold r hr
      exact .inr ⟨r, hlive, hspace ▸ hq⟩
  · rcases hq with rfl | hq
    · exact ⟨0, .inl rfl, System.sameShape hmod hframe (hdir 0) hrootD⟩
    · obtain ⟨-, hlive, hDq, -⟩ := hold q hq
      refine ⟨q, .inr hlive, System.sameShape hmod hframe (hdir q) ?_⟩
      refine apart_of_disjoint (h.apart_free (.inr hlive)).mod fun x hx hxD => hDq ?_
      rwa [← List.mem_singleton.mp hxD]

/-- There are enough free pages for a copy of the current process. -/
def Enough (k : System) : Prop :=
  ∃ L, FreeList k.mem L 0 ∧ 0 ∉ L ∧ (k.space k.current).length ≤ L.length

/-- A call that keeps the pages apart: a `sys_fork` that has pages for its copy if it gets a pid, a
`sys_execve` that refuses, an exit of a process other than 0. -/
def Careful (c : Call) (k : System) : Prop :=
  match c with
  | .timer _ => True
  | .fork _ => ∀ pid k', getPid k = some (pid, k') → pid ≠ -1 → Enough k
  | .execve junk path _ =>
    k.proc.pid = 0 ∨ ∃ i, seekFileInode junk path k.disk = some i ∧ i.mode ≠ regularFile
  | .exit => k.current ≠ 0
  | .wait => True

lemma Owned.enough (h : Owned L k) (he : Enough k) :
    (k.space k.current).length ≤ L.length := by
  obtain ⟨K, hK, h0, hlen⟩ := he
  have h0L : 0 ∉ L := fun hm => absurd (h.list.page 0 hm).1 (by decide)
  rwa [Chain.unique h.free hK h0L h0]

lemma Switched.pagedir (h : Switched ptr p k k') : (k'.pcblist q).pagedir = (k.pcblist q).pagedir := by
  by_cases hq : q = k.current
  · rw [hq, h.last]
  · by_cases hqp : q = p
    · subst hqp
      rw [h.next hq]
    · rw [h.pcb q hq hqp]

/-- A switch makes no process and ends none. -/
lemma Switched.quiet (hk : Sane k) (h : Switched ptr p k k') : Quiet k k' := by
  refine ⟨h.rest.1, fun q => and_congr_right fun _ => ?_, fun q _ => h.pagedir⟩
  by_cases hqc : q = k.current
  · rw [hqc, h.last]
    refine iff_of_true ?_ ⟨hk.table.current.ne_free, hk.table.current.ne_zombie⟩
    simp only
    split <;> exact ⟨by decide, by decide⟩
  · by_cases hqp : q = p
    · subst hqp
      rw [h.next hqc, h.runnable]
      exact iff_of_true ⟨by simp, by simp⟩ ⟨by simp, by simp⟩
    · rw [h.pcb q hqc hqp]

/-- Neither does it to give a dead process back, which is not process 0. -/
lemma quiet_reap {c : Pcb} (hz : (k.pcblist p).pstate = .zombie) (hp : p ≠ 0)
    (hc : c.pstate = .free) : Quiet k (k.setPcb p c) := by
  refine ⟨rfl, fun q => and_congr_right fun _ => ?_, fun q hq => ?_⟩
  · by_cases hqp : q = p
    · subst hqp
      rw [System.setPcb_self]
      exact iff_of_false (fun h => h.1 hc) fun h => h.2 hz
    · rw [System.setPcb_of_ne hqp]
  · have hqp : q ≠ p := by
      rintro rfl
      rcases hq with rfl | hq
      · exact hp rfl
      · exact hq.2.2 hz
    rw [System.setPcb_of_ne hqp]

/-- A `sys_execve` that refuses does nothing. -/
lemma sysExecve_refused {junk : List UInt8 → List UInt8} {path : List UInt8} {r : ExecResult}
    (hG : Careful (.execve junk path ptr) k) (h : sysExecve junk path ptr k = some (r, k')) :
    k' = k := by
  rcases sysExecve_cases h with ⟨-, rfl, -⟩ | ⟨i, e, s, hseek, hx⟩
  · rfl
  · obtain ⟨i', hi', hmode⟩ := hG.resolve_left hx.pid
    obtain rfl := Option.some_inj.mp (hseek.symm.trans hi')
    exact absurd hx.mode hmode

/-- The current process is process 0 or another one that has not exited. -/
lemma Sane.current_live (hk : Sane k) : k.current = 0 ∨ Live k k.current := by
  by_cases h0 : k.current = 0
  · exact .inl h0
  · exact .inr ⟨h0, hk.table.current.ne_free, hk.table.current.ne_zombie⟩

/-- How many pages a call takes: `sys_fork` as many as the current process has. -/
def Call.pages (c : Call) (k : System) : ℕ :=
  if c.event = .fork then (k.space k.current).length else 0

/-- A careful step is quiet, or it makes a child that there are pages for, or the current process
exits, which is not process 0. -/
theorem Step.careful_cases {c : Call} (hk : Sane k) (hG : Careful c k) (hs : Step c k k') :
    Quiet k k' ∨
      (∃ ptr p pid, c = .fork ptr ∧ p ≠ 0 ∧ Forked ptr p pid k k' ∧ Enough k) ∨
      (c = .exit ∧ Live k k.current ∧ Exited k.current k k') := by
  cases hs.stepped hk with
  | idle | waitFails => exact .inl .refl
  | switch hsw => exact .inl (hsw.quiet hk)
  | forkFails => exact .inl ⟨rfl, fun _ => Iff.rfl, fun _ _ => rfl⟩
  | @fork ptr p pid _ hf =>
    have hne : pid ≠ -1 := fun he => by
      have := hf.pidNonneg
      omega
    have hp : p ≠ 0 := fun he => hk.table.rootBusy (he ▸ hf.free)
    exact .inr (.inl ⟨ptr, p, pid, rfl, hp, hf, hG pid _ hf.getPid hne⟩)
  | execve hx =>
    rw [sysExecve_refused hG hx]
    exact .inl .refl
  | exit hp hx =>
    obtain rfl := hk.table.eq_current hG (getPCB_spec hp)
    exact .inr (.inr ⟨rfl, hk.current_live.resolve_left hG, hx⟩)
  | reap _ hz hf => exact .inl (quiet_reap hz (hk.table.ne_of_dead hz hf).2.symm rfl)

/-- **Every careful step keeps it.** -/
theorem Owned.step {c : Call} (hk : Sane k) (h : Owned L k) (hG : Careful c k) (hs : Step c k k') :
    ∃ L', Kept L k L' k' ∧ L.length ≤ L'.length + c.pages k := by
  rcases hs.careful_cases hk hG with hq | ⟨ptr, p, pid, rfl, hp, hf, hE⟩ | ⟨rfl, hlive, hx⟩
  · exact ⟨L, h.quiet hq, Nat.le_add_right ..⟩
  · obtain ⟨rest, hL, hsize, hrest⟩ := h.fork hk.current_live hp hf (h.enough hE)
    refine ⟨rest, hrest, ?_⟩
    rw [hL, List.length_append, hsize, Nat.add_comm]
    rfl
  · exact ⟨_, h.exit hlive hx, Nat.le_add_right_of_le (by simp)⟩

end Owned

end Nbos.Process
