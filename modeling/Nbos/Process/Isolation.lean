import Nbos.Fs.Path
import Nbos.Process.Lifetime
import Nbos.Process.Start

/-!
# Page ownership

No page is free twice, or both free and in use, or in use by two processes: `pages_owned`, for runs
whose calls are `Careful`. A `sys_execve` that goes through with it gives back the tables of the
caller and goes on with the directory that points to them. `execve_breaks` is about a file that is no
program, for which nothing happens after that.
-/

namespace Nbos.Process

open Nbos.Lib Nbos.Kernel Nbos.Memory
open Nbos.Fs (installedDisk shellPath seekFileInode readFileAtOffset length_readFileAtOffset_le cstr)

/-! ### Owned pages -/

/-- The free pages, in the order in which they are handed out. -/
def FreePages (k : System) (L : List ℕ) : Prop := FreeList k.mem L 0 ∧ 0 ∉ L

/-- **Page ownership**: the free list has no page twice, and no page of a process other than
process 0 is on it or belongs to another such process. -/
def PagesOwned (k : System) : Prop :=
  ∃ L, FreePages k L ∧ L.Nodup ∧ (∀ p, Live k p → (k.space p).Disjoint L) ∧
    ∀ p q, Live k p → Live k q → p ≠ q → (k.space p).Disjoint (k.space q)

/-- Where a run begins: after `init_pcb`, or when process 0 is in user mode. -/
def Begins (ram : Bytes) (junk pagedir : ℕ) (k : System) : Prop :=
  ∃ s fileList disk keyboard, initMemory junk ⟨ram, 0⟩ = some s ∧
    (k = boot pagedir s fileList disk keyboard ∨ k = switchToUser (boot pagedir s fileList disk keyboard))

section Claims

variable {ram : Bytes} {junk pagedir : ℕ} {k₀ k k' : System} {h : List Call} {L K : List ℕ}

lemma zero_not_mem (hL : PageList L) : 0 ∉ L := fun hm => absurd (hL.page 0 hm).1 (by decide)

lemma FreePages.unique (h : FreePages k L) (h' : FreePages k K) : L = K :=
  Chain.unique h.1 h'.1 h.2 h'.2

lemma Owned.freePages (h : Owned L k) : FreePages k L := ⟨h.free, zero_not_mem h.list⟩

lemma Owned.pagesOwned (h : Owned L k) : PagesOwned k :=
  ⟨L, h.freePages, h.list.nodup, fun p hp => (h.space p hp).append.2.2, h.apart⟩

lemma switchToUser_sane (hk : Sane k) : Sane (switchToUser k) := ⟨hk.table, hk.nextpid⟩

/-- The pages are in order when a run begins. -/
lemma Begins.owned (hi : KernelImage ram junk pagedir) (hb : Begins ram junk pagedir k) :
    Sane k ∧ ∃ L, Owned L k := by
  obtain ⟨s, fileList, disk, keyboard, hs, rfl | rfl⟩ := hb
  · exact ⟨boot_sane, _, boot_owned hi hs⟩
  · have ho := @boot_owned ram junk pagedir fileList disk keyboard s hi hs
    obtain ⟨T, S, F, L, hL⟩ := hi.pool_cons
    rw [hL] at ho
    obtain ⟨-, rest, -, -, howned⟩ := (switchToUser_spec ho (fun _ => boot_not_live) rfl).owned
    exact ⟨switchToUser_sane boot_sane, rest, howned⟩

/-- The pages are in order along a run of careful calls. -/
lemma run_owned (hi : KernelImage ram junk pagedir) (hb : Begins ram junk pagedir k₀)
    (hrun : Run Step Careful k₀ h k) : Sane k ∧ ∃ L, Owned L k := by
  refine hrun.inv (fun k => Sane k ∧ ∃ L, Owned L k) (hb.owned hi) ?_
  rintro c k k' ⟨hk, L, ho⟩ hG hs
  obtain ⟨L', hkept, -⟩ := ho.step hk hG hs
  exact ⟨hk.step hs, L', hkept.owned⟩

/-- **Pages have one owner** along every run of careful calls. -/
theorem pages_owned (hi : KernelImage ram junk pagedir) (hb : Begins ram junk pagedir k₀)
    (hrun : Run Step Careful k₀ h k) : PagesOwned k := by
  obtain ⟨-, L, ho⟩ := run_owned hi hb hrun
  exact ho.pagesOwned

/-! ### What `sys_execve` leaves behind -/

variable {junkStr : List UInt8 → List UInt8} {path bytes : List UInt8}
  {ino : Inode} {i j : ℕ} {r : ℤ}

/-- The header of a file that is no program is all that is loaded, to the first free page. -/
lemma loadProcess_of_not_elf {dir p : ℕ} {s : Mem} {d : Bytes} (hfree : FreeList s (p :: L) 0)
    (hread : readFileAtOffset ino 0 p pageSize d = some (r, bytes)) (h4 : 4 ≤ bytes.length)
    (hmagic : get32 (cstr bytes) 0 ≠ elfMagic) :
    loadProcess dir ino d s = some (0, ⟨overlay s.ram p bytes.length (cstr bytes), get32 s.ram p⟩) := by
  obtain ⟨rfl, -⟩ := hfree
  have hget : get32 (overlay s.ram s.freeList bytes.length (cstr bytes)) s.freeList =
      get32 (cstr bytes) 0 := get32_overlay_add (b := 0) h4
  have hh : headerLoaded ino d s = some
      ⟨overlay s.ram s.freeList bytes.length (cstr bytes), get32 s.ram s.freeList⟩ := by
    rw [headerLoaded, hread, Option.map_some, storeKernel_eq]
  refine loadProcess_header hh ?_
  rw [hget]
  exact hmagic

/-- **`sys_execve` of a file that is no program**, by a process with two tables: one of them is left
on the free list, and the directory still points to it. -/
theorem execve_breaks (ptr : IntrContext) (ho : Owned L k) (hlive : Live k k.current)
    (hpid : k.proc.pid ≠ 0) (hij : i < j) (hj : j < 0x300) (hpi : Present (entry k.mem.ram k.proc.pagedir i))
    (hpj : Present (entry k.mem.ram k.proc.pagedir j))
    (hseek : seekFileInode junkStr path k.disk = some ino) (hmode : ino.mode = regularFile)
    (hread : ∀ p ∈ k.space k.current, readFileAtOffset ino 0 p pageSize k.disk = some (r, bytes))
    (h4 : 4 ≤ bytes.length) (hmagic : get32 (cstr bytes) 0 ≠ elfMagic) :
    ∃ k', sysExecve junkStr path ptr k = some (.failed, k') ∧ ¬ PagesOwned k' := by
  set D := k.proc.pagedir with hD
  have hspace : PageList (userPages k.mem.ram D ++ L) := ho.space k.current hlive
  have hnodup : (tablesUpTo k.mem.ram D 0x300).Nodup := (List.nodup_cons.mp hspace.append.1.nodup).2
  obtain ⟨F, s₁, hs₁, he⟩ : ∃ F s₁, freeProcessUserMem D k.mem = s₁ ∧ Emptied L D k.mem F s₁ := by
    obtain ⟨F, he⟩ := emptied ho.free hspace
    exact ⟨F, _, rfl, he⟩
  have hDm := he.mod
  have hlist := he.list
  have hFD : D ∉ F := fun hm => he.self (List.mem_append_left _ (List.mem_reverse.mpr hm))
  have hmem : ∀ i < 0x300, Present (entry k.mem.ram D i) → target (entry k.mem.ram D i) ∈ F.reverse :=
    fun i hi hp => List.mem_reverse.mpr
      (he.perm.mem_iff.mpr (mem_tablesUpTo.mpr ⟨i, hi, hp, .inl rfl⟩))
  have hne := table_ne hnodup hij hj hpi hpj
  obtain ⟨p, G, hG⟩ := List.exists_cons_of_ne_nil (List.ne_nil_of_mem (hmem j hj hpj))
  have hfree := he.released.free
  rw [hG, List.cons_append] at hfree hlist
  rw [hG] at hmem
  -- the header goes to `p`, so one of the two tables is still free
  obtain ⟨n, hn, hpn, hnG⟩ : ∃ n < 0x300, Present (entry k.mem.ram D n) ∧
      target (entry k.mem.ram D n) ∈ G := by
    rcases List.mem_cons.mp (hmem i (by omega) hpi) with hip | hiG
    · refine ⟨j, hj, hpj, (List.mem_cons.mp (hmem j hj hpj)).resolve_left fun hjp => ?_⟩
      exact hne (hip.trans hjp.symm)
    · exact ⟨i, by omega, hpi, hiG⟩
  have hpF : p ∈ F := List.mem_reverse.mp (hG ▸ List.mem_cons_self ..)
  have hp : p ∈ k.space k.current := List.mem_cons_of_mem _ (he.perm.mem_iff.mp hpF)
  have hload := @loadProcess_of_not_elf _ _ _ _ D _ _ _ hfree (hread p hp) h4 hmagic
  have hpm := (hlist.page p (List.mem_cons_self ..)).mod
  have hlen : bytes.length ≤ 4096 := length_readFileAtOffset_le (hread p hp)
  set s₂ : Mem := ⟨overlay s₁.ram p bytes.length (cstr bytes), get32 s₁.ram p⟩ with hs₂
  have hother : ∀ q, q % 4096 = 0 → q ≠ p → ∀ n < 1024, entry s₂.ram q n = entry s₁.ram q n :=
    fun q hq hqp n hn => get32_overlay_of_disjoint (by omega)
  refine ⟨{ k with mem := s₂ }, ?_, ?_⟩
  · have hfalse : ¬ ino.mode ≠ regularFile := not_not.mpr hmode
    simp only [sysExecve, if_neg hpid, hseek, Option.bind_eq_bind, Option.bind_some, if_neg hfalse,
      ← hD, hs₁, hload, if_true]
  · rintro ⟨K, hK, -, hdisj, -⟩
    obtain ⟨hpG, hnd⟩ := List.nodup_cons.mp hlist.nodup
    have hfree' : FreePages { k with mem := s₂ } (G ++ L) := by
      refine ⟨?_, zero_not_mem ⟨fun q hq => hlist.page q (List.mem_cons_of_mem _ hq), hnd⟩⟩
      refine FreeList.congr (s := ⟨s₁.ram, get32 s₁.ram p⟩) hfree.2 rfl fun q hq => ?_
      have hqm := (hlist.page q (List.mem_cons_of_mem _ hq)).mod
      exact hother q hqm (fun e => hpG (e ▸ hq)) 0 (by decide)
    obtain rfl := hK.unique hfree'
    have hDp : D ≠ p := fun e => hFD (e ▸ hpF)
    have hDn : entry s₂.ram D n = entry k.mem.ram D n := by
      rw [hother D hDm hDp n (by omega), he.entry n (by omega)]
    have hreach : target (entry k.mem.ram D n) ∈ System.space { k with mem := s₂ } k.current := by
      rw [← hDn] at hpn ⊢
      exact table_mem_userPages hn hpn
    exact hdisj k.current hlive hreach (List.mem_append_left _ hnG)

end Claims

/-! ### Runs with pages enough -/

/-- `m` free pages, all pages below the end of memory, and small processes. -/
structure Roomy (m : ℕ) (k : System) : Prop where
  sane : Sane k
  pages : ∃ L, m ≤ L.length ∧ Owned L k ∧ ∀ q, Held L k q → q < phy2Vir phySize
  small : ∀ p, p = 0 ∨ Live k p → Small k p

section Roomy

variable {k k' : System} {c : Call} {h : List Call} {m : ℕ}

lemma userMode_roomy {ram disk : Bytes} {pagedir : ℕ} {fileList : Fin fileMaxInSys → OpenFile}
    {keyboard : Device.Keyboard} {s : Mem} (hi : KernelImage ram 0 pagedir)
    (hs : initMemory 0 ⟨ram, 0⟩ = some s) (hend : alignUp (kernelEnd ram 0) = 0xc0140000)
    (hnone : ∀ i < 0x300, i ≠ 0 → ¬ Present (entry ram pagedir i)) :
    Roomy 7869 (switchToUser (boot pagedir s fileList disk keyboard)) := by
  obtain ⟨L, hlen, hlt, howned, hsmall⟩ := @userMode_spec disk _ _ fileList keyboard s hi hs hend hnone
  refine ⟨switchToUser_sane boot_sane, ⟨L, hlen, howned, fun q hq => hlt q ?_⟩, fun p hp => ?_⟩
  · exact hq.resolve_right fun ⟨p, hp, _⟩ => boot_not_live hp
  · obtain rfl := hp.resolve_right boot_not_live
    exact hsmall

lemma kernelBoot_roomy {disk : Bytes} : Roomy 7869 (kernelBoot disk) :=
  userMode_roomy kernelRam_image kernelRam_returns alignUp_kernelRam kernelRam_none

lemma kernelBoot_begins {disk : Bytes} : Begins kernelRam 0 0xc0020000 (kernelBoot disk) :=
  ⟨_, _, _, _, kernelRam_returns, .inr rfl⟩

/-- A call other than `sys_execve` is careful as long as there is room for a fork. -/
lemma Roomy.step (h : Roomy (m + if c.event = .fork then 1028 else 0) k) (hroot : NotRoot c k)
    (hx : c.event ≠ .execve) (hs : Step c k k') : Careful c k ∧ Roomy m k' := by
  obtain ⟨hk, ⟨L, hlen, ho, hlt⟩, hsmall⟩ := h
  have hsize := (hsmall k.current hk.current_live).size
  have hG : Careful c k := by
    cases c with
    | timer ptr => trivial
    | fork ptr =>
      intro _ _ _ _
      refine ⟨L, ho.free, zero_not_mem ho.list, hsize.trans ?_⟩
      have he : (Call.fork ptr).event = .fork := rfl
      rw [if_pos he] at hlen
      omega
    | execve junk path ptr => exact absurd rfl hx
    | exit => exact hroot rfl
    | wait => trivial
  obtain ⟨L', hkept, hlen'⟩ := ho.step hk hG hs
  refine ⟨hG, hk.step hs, ⟨L', ?_, hkept.owned, fun q hq => hlt q (hkept.held q hq)⟩, fun p hp => ?_⟩
  · unfold Call.pages at hlen'
    split at hlen <;> rename_i he
    · rw [if_pos he] at hlen'
      omega
    · rw [if_neg he] at hlen'
      omega
  · obtain ⟨q, hq, hshape⟩ := hkept.shape p hp
    exact (hsmall q hq).of_sameShape hshape

lemma Roomy.mono {n : ℕ} (h : Roomy n k) (hmn : m ≤ n) : Roomy m k := by
  obtain ⟨hk, ⟨L, hlen, ho, hlt⟩, hsmall⟩ := h
  exact ⟨hk, ⟨L, hmn.trans hlen, ho, hlt⟩, hsmall⟩

lemma Roomy.run {n : ℕ} (hr : Roomy n k) (hrun : Run Step NotRoot k h k')
    (hx : ∀ c ∈ h, c.event ≠ .execve) (hn : m + 1028 * (h.countP fun c => c.event = .fork) ≤ n) :
    Run Step Careful k h k' ∧ Roomy m k' := by
  induction hrun generalizing m with
  | nil => exact ⟨.nil, hr.mono (Nat.le_of_add_right_le hn)⟩
  | @cons h k₁ k' c hrun hroot hs ih =>
    have hcount : m + 1028 * (c :: h).countP (fun c => c.event = .fork) =
        (m + if c.event = .fork then 1028 else 0) + 1028 * h.countP fun c => c.event = .fork := by
      rw [List.countP_cons]
      by_cases he : c.event = .fork
      · simp only [he, decide_true, if_true]
        omega
      · simp only [he, decide_false, if_false, Bool.false_eq_true]
        omega
    rw [hcount] at hn
    obtain ⟨hcareful, hr₁⟩ := ih (fun c hc => hx c (List.mem_cons_of_mem _ hc)) hn
    obtain ⟨hG, hr'⟩ := hr₁.step hroot (hx c (List.mem_cons_self ..)) hs
    exact ⟨.cons hcareful hG hs, hr'⟩

lemma Step.disk (hk : Sane k) (hs : Step c k k') : k'.disk = k.disk := by
  cases hs.stepped hk with
  | idle | forkFails | waitFails | reap => rfl
  | switch hsw => exact hsw.rest.2.2.2.1
  | fork hf => exact hf.rest.2.2.1
  | execve h => rw [sysExecve_spec h]
  | exit _ hx => exact hx.disk

/-- No call writes the disk. -/
lemma run_disk (hrun : Run Step Careful k h k') (hk : Sane k) : k'.disk = k.disk := by
  refine (hrun.inv (fun k' => Sane k' ∧ k'.disk = k.disk) ⟨hk, rfl⟩ ?_).2
  rintro c k₁ k₂ ⟨hk₁, hd⟩ - hs
  exact ⟨hk₁.step hs, (hs.disk hk₁).trans hd⟩

/-- Along a run of careful calls, every process keeps the shape of an address space from the start. -/
lemma run_shape {L : List ℕ} (ho : Owned L k) (hk : Sane k) (hrun : Run Step Careful k h k') :
    ∀ p, p = 0 ∨ Live k' p → ∃ q, (q = 0 ∨ Live k q) ∧ SameShape k' p k q := by
  refine (hrun.inv (fun k' => (Sane k' ∧ ∃ L, Owned L k') ∧
    ∀ p, p = 0 ∨ Live k' p → ∃ q, (q = 0 ∨ Live k q) ∧ SameShape k' p k q) ?_ ?_).2
  · exact ⟨⟨hk, L, ho⟩, fun p hp => ⟨p, hp, fun _ _ => Iff.rfl, rfl⟩⟩
  · rintro c k₁ k₂ ⟨⟨hk₁, L₁, ho₁⟩, hshape⟩ hG hs
    obtain ⟨L₂, hkept, -⟩ := ho₁.step hk₁ hG hs
    refine ⟨⟨hk₁.step hs, L₂, hkept.owned⟩, fun p hp => ?_⟩
    obtain ⟨q, hq, hpresent, hlen⟩ := hkept.shape p hp
    obtain ⟨q', hq', hpresent', hlen'⟩ := hshape q hq
    exact ⟨q', hq', fun i hi => (hpresent i hi).trans (hpresent' i hi), hlen.trans hlen'⟩

end Roomy

/-- A child of process 0 runs. -/
def childRuns : List Call := [.timer userFrame, .fork userFrame]

/-- What there is after these calls, with pages enough at the start. -/
lemma childRuns_of {k₀ : System} (hroom : Roomy 7869 k₀)
    (hany : (performNotRoot childRuns k₀).any (fun k : System => decide (k.current = 1 ∧
      (k.pcblist 1).pstate = .running ∧ (k.pcblist 1).pid = 1)) = true) :
    ∃ k, Run Step Careful k₀ childRuns k ∧ Roomy 6841 k ∧ k.disk = k₀.disk ∧ k.current = 1 ∧ Live k 1 ∧
      k.proc.pid = 1 := by
  obtain ⟨k, hk, hcur, hstate, hpid⟩ := exists_of_any
    (P := fun k : System => k.current = 1 ∧ (k.pcblist 1).pstate = .running ∧ (k.pcblist 1).pid = 1) hany
  have hquiet : ∀ c ∈ childRuns, c.event ≠ .execve := by decide
  have hcount : 6841 + 1028 * (childRuns.countP fun c => c.event = .fork) ≤ 7869 := by
    simp [childRuns, Call.event]
  obtain ⟨hrun, hroomy⟩ := hroom.run (run_performNotRoot hk) hquiet hcount
  refine ⟨k, hrun, hroomy, run_disk hrun hroom.sane, hcur, ⟨by decide, ?_, ?_⟩, ?_⟩
  · rw [hstate]
    decide
  · rw [hstate]
    decide
  · rw [System.proc, hcur, hpid]

lemma childRuns_spec : ∃ k, Run Step Careful (kernelBoot installedDisk) childRuns k ∧ Roomy 6841 k ∧
    k.disk = installedDisk ∧ k.current = 1 ∧ Live k 1 ∧ k.proc.pid = 1 := by
  obtain ⟨k, hrun, hroomy, hdisk, hcur, hlive, hpid⟩ :=
    childRuns_of (@kernelBoot_roomy installedDisk) (by decide +kernel)
  exact ⟨k, hrun, hroomy, hdisk.trans kernelBoot_disk, hcur, hlive, hpid⟩

theorem pages_owned_childRuns : ∃ k, Run Step Careful (kernelBoot installedDisk) childRuns k ∧
    PagesOwned k := by
  obtain ⟨k, hrun, -⟩ := childRuns_spec
  exact ⟨k, hrun, pages_owned kernelRam_image kernelBoot_begins hrun⟩

/-- What is found of a program on the empty disk: whether it is a regular file, and the first word
that is loaded of it if there is one. -/
def programHeader (path : List UInt8) : Option (Bool × Option ℕ) :=
  (seekFileInode (fun _ => []) path installedDisk).map fun ino =>
    (ino.mode = regularFile,
      (readFileAtOffset ino 0 kernelVirBase pageSize installedDisk).bind fun r =>
        if 4 ≤ r.2.length then some (get32 (cstr r.2) 0) else none)

/-- The shell of the empty disk is a regular file of zeros. -/
lemma programHeader_shell : programHeader shellPath = some (true, some 0) := by decide +kernel

lemma readFileAtOffset_page {ino : Inode} {p : ℕ} {d : Bytes} (hp : p < phy2Vir phySize) :
    readFileAtOffset ino 0 p pageSize d = readFileAtOffset ino 0 kernelVirBase pageSize d := by
  rw [phyLimit_eq] at hp
  have hspan : Fs.span p pageSize = Fs.span kernelVirBase pageSize := by
    simp only [Fs.span, pageSize, kernelVirBase]
    rw [if_pos (by omega), if_pos (by omega)]
  simp only [readFileAtOffset, hspan]

/-- The child of process 0 starts the shell of the empty disk, which is no program. -/
lemma childRuns_execve : ∃ k k' L, Run Step Careful (kernelBoot installedDisk) childRuns k ∧ Owned L k ∧
    Live k k.current ∧ Small k k.current ∧ k.disk = installedDisk ∧
    sysExecve (fun _ => []) shellPath userFrame k = some (.failed, k') ∧ ¬ PagesOwned k' := by
  obtain ⟨k, hrun, ⟨-, ⟨L, -, ho, hlt⟩, hsmall⟩, hdisk, hcur, hlive, hpid⟩ := childRuns_spec
  obtain ⟨ino, hseek, he⟩ := Option.map_eq_some_iff.mp programHeader_shell
  obtain ⟨hmode, he⟩ := Prod.mk.inj he
  obtain ⟨⟨r, bytes⟩, hread, hword⟩ := Option.bind_eq_some_iff.mp he
  simp only at hword
  split at hword
  · rename_i h4
    have hs := hsmall k.current (.inr (hcur ▸ hlive))
    obtain ⟨k', hx, hbad⟩ := execve_breaks userFrame ho (hcur ▸ hlive) (by omega)
      (show 0 < 0x2ff by omega) (by omega) hs.first hs.stack (hdisk ▸ hseek) (of_decide_eq_true hmode)
      (fun p hp => by
        rw [readFileAtOffset_page (hlt p (.inr ⟨k.current, hcur ▸ hlive, hp⟩)), hdisk, hread]) h4
      (by rw [Option.some_inj.mp hword]; decide)
    exact ⟨k, k', L, hrun, ho, hcur ▸ hlive, hs, hdisk, hx, hbad⟩
  · cases hword

/-- That leaves its first table free, and still in use. -/
theorem execve_shares_pages : ¬ ∀ k₀ h k, Begins kernelRam 0 0xc0020000 k₀ →
    Run Step (fun _ _ => True) k₀ h k → PagesOwned k := by
  intro hall
  obtain ⟨k, k', L, hrun, -, -, -, -, hx, hbad⟩ := childRuns_execve
  refine hbad (hall _ _ _ kernelBoot_begins ((hrun.mono fun _ _ _ => trivial).cons trivial
    (a := .execve (fun _ => []) shellPath userFrame) ?_))
  exact (congrArg (Option.map Prod.snd) hx).trans rfl

end Nbos.Process
