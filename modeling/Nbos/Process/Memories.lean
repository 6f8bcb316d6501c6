import Nbos.Boot.Entry
import Nbos.Lib.Memories
import Nbos.Memory.UserPages
import Nbos.Process.Leak

/-!
# The memory of a process

The bytes that the user half of a process reaches are its own: only its own stores change them, and a
child begins with those of its father. `memories_refine` says so of every run of careful calls and of
stores of programs, whoever runs; `child_begins` follows a child from `sys_fork` to its first turn.
-/

namespace Nbos.Process

open Nbos.Lib Nbos.Kernel Nbos.Memory

/-! ### Programs -/

/-- A byte stored by the program of the current process. There is no next state if it faults. -/
def System.storeByte (va : UInt32) (b : UInt8) (k : System) : Option System :=
  (userWalk k.mem.ram k.proc.pagedir va.toNat).map fun page =>
    { k with mem := { k.mem with ram := Function.update k.mem.ram (page + va.toNat % pageSize) b } }

/-- An interrupt or a call, or a store of the program that runs. -/
inductive Deed where
  | call (c : Call)
  | store (va : UInt32) (b : UInt8)

def Deed.perform : Deed → System → Option System
  | .call c, k => c.perform k
  | .store va b, k => k.storeByte va b

/-- Careful calls. The first table of process 0 is a window on the memory of the kernel, so nothing is
said of a run in which it stores. -/
def Deed.Careful : Deed → System → Prop
  | .call c, k => Nbos.Process.Careful c k
  | .store _ _, k => k.current ≠ 0

/-! ### Memories -/

/-- The memory of each process: the bytes that its user half reaches. -/
def System.memories (k : System) : Memories (Fin pcbMax) ℕ UInt8 := fun p va =>
  if va < kernelVirBase then
    (walk k.mem.ram (k.pcblist p).pagedir va).map fun pte => k.mem.ram (target pte + va % pageSize)
  else none

/-- The slot that is free before a step and not after it. -/
def newborn (k k' : System) : Option (Fin pcbMax) :=
  (List.finRange pcbMax).find? fun p => (k.pcblist p).pstate = .free ∧ (k'.pcblist p).pstate ≠ .free

/-- What a step is for the memories. A child of process 0 begins with pages of the kernel. -/
def Deed.op (d : Deed) (k k' : System) : MemoryOp (Fin pcbMax) ℕ UInt8 :=
  match d with
  | .store va b => .store k.current va.toNat b
  | .call (.fork _) =>
    match newborn k k' with
    | some p => if k.current = 0 then .start p (k'.memories p) else .copy k.current p
    | none => .skip
  | .call _ => .skip

/-- The memory of a process is for its program, all of it. -/
def System.Open (k : System) (p : Fin pcbMax) : Prop := OpenUpTo k.mem.ram (k.pcblist p).pagedir 0x300

/-- A step of the kernel, with memories beside it that are told of it. -/
def MemoryStep (d : Deed) (p p' : System × Memories (Fin pcbMax) ℕ UInt8) : Prop :=
  d.perform p.1 = some p'.1 ∧ p'.2 = p.2.apply (d.op p.1 p'.1)

section Frames

variable {W : List ℕ} {k k' : System} {p : Fin pcbMax} {m : Bytes} {dir va va' pte pte' : ℕ}

/-- In a list without duplicates an element is in one part only. -/
lemma flatMap_range_unique {α : Type*} {f : ℕ → List α} {n i j : ℕ} {x : α}
    (hnd : ((List.range n).flatMap f).Nodup) (hi : i < n) (hj : j < n) (hx : x ∈ f i) (hx' : x ∈ f j) :
    i = j := by
  by_contra hne
  have hsymm : Std.Symm (Function.onFun List.Disjoint f) := ⟨fun _ _ h => h.symm⟩
  have hpair := (List.nodup_flatMap.mp hnd).2
  exact hpair.forall (List.mem_range.mpr hi) (List.mem_range.mpr hj) hne hx hx'

lemma table_unique {n i j q : ℕ} (hnd : (tablesUpTo m dir n).Nodup) (hi : i < n) (hj : j < n)
    (hq : q ∈ tableAt m dir i) (hq' : q ∈ tableAt m dir j) : i = j := by
  rw [tablesUpTo] at hnd
  exact flatMap_range_unique hnd hi hj hq hq'

lemma nodup_tableAt {n i : ℕ} (hnd : (tablesUpTo m dir n).Nodup) (hi : i < n) : (tableAt m dir i).Nodup := by
  rw [tablesUpTo] at hnd
  exact (List.nodup_flatMap.mp hnd).1 i (List.mem_range.mpr hi)

lemma entry_unique {T n i j q : ℕ} (hnd : (framesUpTo m T n).Nodup) (hi : i < n) (hj : j < n)
    (hq : q ∈ frameAt m T i) (hq' : q ∈ frameAt m T j) : i = j := by
  rw [framesUpTo] at hnd
  exact flatMap_range_unique hnd hi hj hq hq'

/-- Where the processor finds a frame: behind the table of the address, and there behind its entry. -/
lemma frame_mem (hw : walk m dir va = some pte) : Present (entry m dir (va / 2 ^ 22)) ∧
    target pte ∈ frameAt m (target (entry m dir (va / 2 ^ 22))) (va / 2 ^ 12 % 1024) ∧
    target pte ∈ framesUpTo m (target (entry m dir (va / 2 ^ 22))) 1024 := by
  obtain ⟨hi, hj, rfl⟩ := walk_eq_some hw
  refine ⟨hi, ?_, mem_framesUpTo.mpr ⟨_, Nat.mod_lt _ (by omega), hj, rfl⟩⟩
  rw [frameAt_of_present hj]
  exact List.mem_singleton_self _

lemma frame_mem_tableAt (hw : walk m dir va = some pte) : target pte ∈ tableAt m dir (va / 2 ^ 22) := by
  obtain ⟨hi, -, hframes⟩ := frame_mem hw
  rw [tableAt_of_present hi]
  exact List.mem_cons_of_mem _ hframes

/-- Where no page is reached twice, a table has its frames to itself, and they are not the table. -/
lemma nodup_frames (hnd : (tablesUpTo m dir 0x300).Nodup) (hva : va < kernelVirBase)
    (hw : walk m dir va = some pte) : target pte ≠ target (entry m dir (va / 2 ^ 22)) ∧
      (framesUpTo m (target (entry m dir (va / 2 ^ 22))) 1024).Nodup := by
  obtain ⟨hi, -, hframes⟩ := frame_mem hw
  simp only [kernelVirBase] at hva
  have hown := nodup_tableAt hnd (i := va / 2 ^ 22) (by omega)
  rw [tableAt_of_present hi] at hown
  obtain ⟨hself, hown⟩ := List.nodup_cons.mp hown
  refine ⟨fun he => ?_, hown⟩
  rw [he] at hframes
  exact hself hframes

/-- Then two addresses with the same frame are in the same page. -/
lemma pageNo_of_frame (hnd : (tablesUpTo m dir 0x300).Nodup) (hva : va < kernelVirBase)
    (hva' : va' < kernelVirBase) (hw : walk m dir va = some pte) (hw' : walk m dir va' = some pte')
    (h : target pte = target pte') : va / pageSize = va' / pageSize := by
  obtain ⟨-, hown⟩ := nodup_frames hnd hva hw
  simp only [kernelVirBase, pageSize] at *
  have htable : va / 2 ^ 22 = va' / 2 ^ 22 :=
    table_unique hnd (by omega) (by omega) (frame_mem_tableAt hw) (h ▸ frame_mem_tableAt hw')
  have hframe := (frame_mem hw).2.1
  have hframe' := (frame_mem hw').2.1
  rw [← htable, ← h] at hframe'
  have hentry : va / 2 ^ 12 % 1024 = va' / 2 ^ 12 % 1024 :=
    entry_unique hown (Nat.mod_lt _ (by omega)) (Nat.mod_lt _ (by omega)) hframe hframe'
  omega

/-- The directory and the tables are none of the frames. -/
lemma frame_apart (hnd : (userPages m dir).Nodup) (hmod : dir % 4096 = 0) (hva : va < kernelVirBase)
    (hw : walk m dir va = some pte) : Apart [target pte] m dir := by
  obtain ⟨hdir, htables⟩ := List.nodup_cons.mp hnd
  obtain ⟨hself, -⟩ := nodup_frames htables hva hw
  obtain ⟨hi, -, hframes⟩ := frame_mem hw
  simp only [kernelVirBase] at hva
  refine ⟨hmod, fun hm => ?_, fun n hn hpn hm => ?_⟩
  · have hreach : target pte ∈ tablesUpTo m dir 0x300 :=
      mem_tablesUpTo.mpr ⟨va / 2 ^ 22, by omega, hi, .inr hframes⟩
    rw [← List.mem_singleton.mp hm] at hreach
    exact hdir hreach
  · have he := List.mem_singleton.mp hm
    have hn' : target pte ∈ tableAt m dir n := by
      rw [tableAt_of_present hpn, he]
      exact List.mem_cons_self ..
    rw [table_unique htables hn (by omega) hn' (frame_mem_tableAt hw)] at he
    exact hself he.symm

/-- The frame of an address of the user half is one of the pages of the process. -/
lemma frame_mem_space (hva : va < kernelVirBase) (hw : walk k.mem.ram (k.pcblist p).pagedir va = some pte) :
    target pte ∈ k.space p := by
  obtain ⟨hi, hj, rfl⟩ := walk_eq_some hw
  simp only [kernelVirBase] at hva
  exact frame_mem_userPages (by omega) hi (Nat.mod_lt _ (by omega)) hj

/-- **The memory of a process is kept** by writes to pages that are not its own. -/
lemma System.memories_eq (hW : ∀ q ∈ W, q % 4096 = 0)
    (hframe : ∀ x, Off W x → k'.mem.ram x = k.mem.ram x)
    (hdir : (k'.pcblist p).pagedir = (k.pcblist p).pagedir) (hmod : (k.pcblist p).pagedir % 4096 = 0)
    (h : (k.space p).Disjoint W) : k'.memories p = k.memories p := by
  have hA : Apart W k.mem.ram (k.pcblist p).pagedir := apart_of_disjoint hmod h
  funext va
  unfold System.memories
  by_cases hva : va < kernelVirBase
  · have hidx : va / 2 ^ 22 < 0x300 := by
      simp only [kernelVirBase] at hva
      omega
    have hwalk : walk k'.mem.ram (k.pcblist p).pagedir va = walk k.mem.ram (k.pcblist p).pagedir va :=
      walk_congr (hA.entry_dir hW hframe (by omega)) fun hp =>
        hA.entry_table hW hframe hidx hp (Nat.mod_lt _ (by omega))
    rw [if_pos hva, if_pos hva, hdir, hwalk]
    cases hw : walk k.mem.ram (k.pcblist p).pagedir va with
    | none => rfl
    | some pte =>
      simp only [Option.map_some]
      rw [hframe _ (off_of_not_mem hW (target_mod _) (Nat.mod_lt _ (by decide))
        fun hm => h (frame_mem_space hva hw) hm)]
  · rw [if_neg hva, if_neg hva]

/-- And it stays open. -/
lemma System.Open.keep (ho : k.Open p) (hW : ∀ q ∈ W, q % 4096 = 0)
    (hframe : ∀ x, Off W x → k'.mem.ram x = k.mem.ram x)
    (hdir : (k'.pcblist p).pagedir = (k.pcblist p).pagedir)
    (hA : Apart W k.mem.ram (k.pcblist p).pagedir) : k'.Open p := by
  unfold System.Open at ho ⊢
  rw [hdir]
  exact ho.congr (fun i hi => hA.entry_dir hW hframe (by omega))
    fun i hi hp j hj => hA.entry_table hW hframe hi hp hj

end Frames

/-! ### Stores -/

/-- No page of the kernel half admits user mode. -/
def Supervised (ram : Bytes) (pagedir : ℕ) : Prop :=
  ∀ va, kernelVirBase ≤ va → va < 2 ^ 32 → ∀ pte, walk ram pagedir va = some pte → ¬ UserWritable pte

section Stores

variable {ram : Bytes} {junk pagedir pte : ℕ} {L : List ℕ} {k k' : System} {va : UInt32} {b : UInt8}
  {p : Fin pcbMax}

/-- The state after a byte has been stored behind the entry `pte`. -/
def System.stored (va : UInt32) (b : UInt8) (pte : ℕ) (k : System) : System :=
  { k with mem := { k.mem with ram := Function.update k.mem.ram (target pte + va.toNat % pageSize) b } }

/-- A store that does not fault goes to a frame of the user half. -/
lemma storeByte_spec (hsup : Supervised ram pagedir) (hs : Shared ram junk pagedir L k)
    (hlive : Live k k.current) (h : k.storeByte va b = some k') :
    ∃ pte, va.toNat < kernelVirBase ∧ walk k.mem.ram k.proc.pagedir va.toNat = some pte ∧
      k' = k.stored va b pte := by
  obtain ⟨page, hpage, rfl⟩ := Option.map_eq_some_iff.mp h
  unfold userWalk at hpage
  split at hpage
  · obtain ⟨pte, hw, hpte⟩ := Option.bind_eq_some_iff.mp hpage
    split at hpte
    · rename_i huser
      obtain rfl := Option.some_inj.mp hpte
      refine ⟨pte, ?_, hw, rfl⟩
      by_contra hva
      rw [hs.walk_eq (.inr hlive) (not_lt.mp hva) va.toNat_lt] at hw
      exact hsup _ (not_lt.mp hva) va.toNat_lt pte hw huser
    · cases hpte
  · cases hpage

/-- The byte is in the frame. -/
lemma stored_frame {x : ℕ} (hx : Off [target pte] x) : (k.stored va b pte).mem.ram x = k.mem.ram x := by
  refine Function.update_of_ne (fun he => ?_) ..
  have hoff := hx _ (List.mem_singleton_self _)
  have hlt : va.toNat % 4096 < 4096 := Nat.mod_lt _ (by omega)
  unfold InPage at hoff
  simp only [pageSize] at he hoff
  omega

lemma singleton_mod : ∀ q ∈ [target pte], q % 4096 = 0 := fun q hq => by
  rw [List.mem_singleton.mp hq]
  exact target_mod _

section Live

variable (ho : Owned L k) (hlive : Live k k.current) (hva : va.toNat < kernelVirBase)
  (hw : walk k.mem.ram k.proc.pagedir va.toNat = some pte)

include ho hlive hva hw

/-- No directory and no table is written. -/
lemma Owned.apart_stored (hp : p = 0 ∨ Live k p) : Apart [target pte] k.mem.ram (k.pcblist p).pagedir := by
  have hmem : target pte ∈ k.space k.current := frame_mem_space hva hw
  have hsub : ∀ q ∈ [target pte], q ∈ k.space k.current := fun q hq => by
    rwa [List.mem_singleton.mp hq]
  rcases hp with rfl | hp
  · exact (ho.rootApart k.current hlive).of_subset hsub
  · by_cases hpc : p = k.current
    · subst hpc
      exact frame_apart (ho.space _ hp).append.1.nodup (ho.apart_free (.inr hp)).mod hva hw
    · refine apart_of_disjoint (ho.apart_free (.inr hp)).mod fun q hq hq' => ?_
      exact ho.apart p k.current hp hlive hpc hq (hsub q hq')

lemma Owned.space_stored (hp : Live k p) : (k.stored va b pte).space p = k.space p :=
  System.space_eq singleton_mod (fun _ hx => stored_frame hx) rfl
    (ho.apart_stored hlive hva hw (.inr hp))

/-- A store leaves every page with its owner. -/
lemma Owned.stored : Owned L (k.stored va b pte) := by
  have hmem : target pte ∈ k.space k.current := frame_mem_space hva hw
  have hout : target pte ∉ L := fun hm => (ho.space _ hlive).append.2.2 hmem hm
  have hspace : ∀ p, Live k p → (k.stored va b pte).space p = k.space p := fun p hp =>
    ho.space_stored hlive hva hw hp
  have hroot := ho.apart_stored hlive hva hw (.inl rfl)
  have hframe : ∀ x, Off [target pte] x → (k.stored va b pte).mem.ram x = k.mem.ram x :=
    fun _ hx => stored_frame hx
  refine ⟨ho.free.congr rfl fun q hq => ?_, ho.list, fun p hp => ?_, fun p q hp hq hpq => ?_,
    hroot.keep singleton_mod hframe ho.root, fun p hp => ?_⟩
  · refine get32_congr fun o hlt => hframe _ ?_
    refine off_of_not_mem singleton_mod (ho.list.page q hq).mod (by omega) fun hm => ?_
    rw [List.mem_singleton.mp hm] at hq
    exact hout hq
  · rw [hspace p hp]
    exact ho.space p hp
  · rw [hspace p hp, hspace q hq]
    exact ho.apart p q hp hq hpq
  · rw [hspace p hp]
    exact hroot.keep singleton_mod hframe (ho.rootApart p hp)

/-- **A store goes to the memory of the process**, and to its own byte alone. -/
lemma Owned.memories_stored (hp : Live k p) : (k.stored va b pte).memories p =
    k.memories.apply (.store k.current va.toNat b) p := by
  have hspace := (ho.space _ hlive).append.1
  by_cases hpc : p = k.current
  · subst hpc
    have hA := ho.apart_stored hlive hva hw (.inr hlive)
    have hnd : (tablesUpTo k.mem.ram k.proc.pagedir 0x300).Nodup := (List.nodup_cons.mp hspace.nodup).2
    rw [Memories.apply, Function.update_self]
    funext va'
    unfold System.memories
    by_cases hva' : va' < kernelVirBase
    · have hidx : va' / 2 ^ 22 < 0x300 := by
        simp only [kernelVirBase] at hva'
        omega
      have hframe : ∀ x, Off [target pte] x → (k.stored va b pte).mem.ram x = k.mem.ram x :=
        fun _ hx => stored_frame hx
      have hwalk : walk (k.stored va b pte).mem.ram k.proc.pagedir va' =
          walk k.mem.ram k.proc.pagedir va' :=
        walk_congr (hA.entry_dir singleton_mod hframe (by omega)) fun hp =>
          hA.entry_table singleton_mod hframe hidx hp (Nat.mod_lt _ (by omega))
      rw [if_pos hva']
      show (walk _ k.proc.pagedir va').map _ = _
      rw [hwalk]
      by_cases hsame : va' = va.toNat
      · subst hsame
        rw [hw, Function.update_self, Option.map_some]
        exact congrArg some (Function.update_self ..)
      · rw [Function.update_of_ne hsame, if_pos hva']
        cases hw' : walk k.mem.ram k.proc.pagedir va' with
        | none => rfl
        | some pte' =>
          refine congrArg some (Function.update_of_ne (fun he => hsame ?_) ..)
          -- one byte of one frame is that of one address
          have hm := target_mod pte
          have hm' := target_mod pte'
          simp only [pageSize] at he
          have htarget : target pte' = target pte := by omega
          have hno := pageNo_of_frame hnd hva' hva hw' hw htarget
          simp only [pageSize] at hno
          omega
    · have hne : va' ≠ va.toNat := fun he => hva' (he ▸ hva)
      rw [if_neg hva', Function.update_of_ne hne, if_neg hva']
  · rw [Memories.apply, Function.update_of_ne hpc]
    refine System.memories_eq singleton_mod (fun _ hx => stored_frame hx) rfl
      (ho.apart_free (.inr hp)).mod fun q hq hq' => ?_
    rw [List.mem_singleton.mp hq'] at hq
    exact ho.apart p k.current hp hlive hpc hq (frame_mem_space hva hw)

end Live

/-- A store keeps the kernel half. -/
lemma Shared.stored (ht : KernelTables ram junk pagedir) (hs : Shared ram junk pagedir L k)
    (hlive : Live k k.current) (hva : va.toNat < kernelVirBase)
    (hw : walk k.mem.ram k.proc.pagedir va.toNat = some pte) :
    Shared ram junk pagedir L (k.stored va b pte) := by
  have ho := hs.owned
  refine hs.of_frame ht (W := [target pte]) (ho.stored hlive hva hw) ?_ (fun q hq => ?_)
    (fun x hx => stored_frame hx) fun q hq i hlo hhi => ?_
  · rintro q (hq | ⟨p, hp, hq⟩)
    · exact .inl hq
    · rw [ho.space_stored hlive hva hw hp] at hq
      exact .inr ⟨p, hp, hq⟩
  · rw [List.mem_singleton.mp hq]
    exact .inr ⟨k.current, hlive, frame_mem_space hva hw⟩
  · rw [← hs.half q hq i hlo hhi]
    exact (ho.apart_stored hlive hva hw hq).entry_dir singleton_mod (fun _ hx => stored_frame hx) hhi

end Stores

/-! ### Calls -/

/-- What a step that is the operation `o` does to the memories of the processes that live. -/
structure Moved (o : MemoryOp (Fin pcbMax) ℕ UInt8) (k k' : System) : Prop where
  live : ∀ q, Live k' q → Live k q ∨ o.target = some q
  source : ∀ q, o.source = some q → Live k q
  memories : ∀ q, Live k' q → k'.memories q = k.memories.apply o q
  opened : (∀ q, Live k q → k.Open q) → ∀ q, Live k' q → k'.Open q

section Calls

variable {L : List ℕ} {k k' : System} {c : Call} {p : Fin pcbMax} {ptr : IntrContext} {pid : ℤ}

lemma newborn_spec {q : Fin pcbMax} (h : newborn k k' = some q) :
    (k.pcblist q).pstate = .free ∧ (k'.pcblist q).pstate ≠ .free := by
  unfold newborn at h
  simpa using List.find?_some h

lemma newborn_fork (hf : Forked ptr p pid k k') : newborn k k' = some p := by
  have hstate : (k'.pcblist p).pstate ≠ .free := by
    rw [hf.proc]
    exact fun h => by cases h
  cases hn : newborn k k' with
  | none =>
    have hall := List.find?_eq_none.mp hn p (List.mem_finRange p)
    exact absurd (decide_eq_true ⟨hf.free, hstate⟩) hall
  | some q =>
    obtain ⟨hfree, hq⟩ := newborn_spec hn
    refine congrArg some ?_
    by_contra hqp
    rw [hf.pcb q hqp] at hq
    exact hq hfree

lemma newborn_none (h : k'.pcblist = k.pcblist) : newborn k k' = none := by
  cases hn : newborn k k' with
  | none => rfl
  | some q =>
    obtain ⟨hfree, hq⟩ := newborn_spec hn
    rw [h] at hq
    exact absurd hfree hq

lemma moved_quiet (hq : Quiet k k') : Moved .skip k k' := by
  have hmem : ∀ q, Live k q → k'.memories q = k.memories q ∧ (k.Open q → k'.Open q) := fun q hlive => by
    unfold System.memories System.Open
    rw [hq.mem, hq.pagedir q (.inr hlive)]
    exact ⟨rfl, id⟩
  exact ⟨fun q hlive => .inl ((hq.live q).mp hlive), fun q h => (by cases h),
    fun q hlive => (hmem q ((hq.live q).mp hlive)).1,
    fun hopen q hlive => (hmem q ((hq.live q).mp hlive)).2 (hopen q ((hq.live q).mp hlive))⟩

lemma moved_exit (ho : Owned L k) (hlive : Live k k.current) (hx : Exited k.current k k') :
    Moved .skip k k' := by
  have hmod : ∀ r ∈ [k.proc.pagedir], r % 4096 = 0 := by
    simpa using ((ho.space k.current hlive).append.1.page _ System.dir_mem_space).mod
  have hdisj : ∀ q, Live k' q → (k.space q).Disjoint [k.proc.pagedir] := fun q hq r hr hr' => by
    obtain ⟨hne, hq'⟩ := hx.live hq
    rw [List.mem_singleton.mp hr'] at hr
    exact ho.apart q k.current hq' hlive hne hr System.dir_mem_space
  refine ⟨fun q hq => .inl (hx.live hq).2, fun q h => (by cases h), fun q hq => ?_, fun hopen q hq => ?_⟩
  · exact System.memories_eq hmod (fun x hoff => hx.frame hoff) hx.pagedir
      (ho.apart_free (.inr (hx.live hq).2)).mod (hdisj q hq)
  · exact (hopen q (hx.live hq).2).keep hmod (fun x hoff => hx.frame hoff) hx.pagedir
      (apart_of_disjoint (ho.apart_free (.inr (hx.live hq).2)).mod (hdisj q hq))

/-- The child of a process other than 0 has the memory of its father. -/
lemma memories_child (ho : Owned L k) (hlive : Live k k.current) (hE : Enough k)
    (hf : Forked ptr p pid k k') : k'.memories p = k.memories k.current := by
  have hA := ho.apart_free (.inr hlive)
  have hc := copied ho.list ho.free hA.mod hA.self hA.tables (ho.enough hE)
  rw [← hf.mem] at hc
  have hdir : (k'.pcblist p).pagedir = k.mem.freeList := by rw [hf.proc]; rfl
  funext va
  unfold System.memories
  by_cases hva : va < kernelVirBase
  · rw [if_pos hva, if_pos hva, hdir]
    have hsome := hc.isSome_walk hva
    cases hw : walk k.mem.ram k.proc.pagedir va with
    | none =>
      rw [hw] at hsome
      have hnone : walk k'.mem.ram k.mem.freeList va = none :=
        Option.not_isSome_iff_eq_none.mp (by rw [hsome]; decide)
      rw [hnone]
      rfl
    | some pte =>
      rw [hw] at hsome
      obtain ⟨pte', hw'⟩ := Option.isSome_iff_exists.mp hsome
      have hout : target pte ∉ L := fun hm => (ho.space _ hlive).append.2.2 (frame_mem_space hva hw) hm
      rw [hw', Option.map_some, Option.map_some]
      obtain ⟨hi, hj, rfl⟩ := walk_eq_some hw
      obtain ⟨-, -, rfl⟩ := walk_eq_some hw'
      simp only [kernelVirBase] at hva
      exact congrArg some (hc.pages _ (by omega) hi _ (Nat.mod_lt _ (by omega)) hj hout _
        (Nat.mod_lt _ (by decide)))
  · rw [if_neg hva, if_neg hva]

/-- And all of it is for its program, whoever the father is. -/
lemma open_child (ho : Owned L k) (hcur : k.current = 0 ∨ Live k k.current) (hE : Enough k)
    (hf : Forked ptr p pid k k') : k'.Open p := by
  have hA := ho.apart_free hcur
  have hopen := copied_open ho.list ho.free hA.mod hA.self hA.tables (ho.enough hE)
  have hdir : (k'.pcblist p).pagedir = k.mem.freeList := by rw [hf.proc]; rfl
  unfold System.Open
  rw [hf.mem, hdir]
  exact hopen

/-- The others keep theirs. -/
lemma forked_others {q : Fin pcbMax} (ho : Owned L k) (hcur : k.current = 0 ∨ Live k k.current)
    (hE : Enough k) (hf : Forked ptr p pid k k') (hq : Live k q) (hqp : q ≠ p) :
    k'.memories q = k.memories q ∧ (k.Open q → k'.Open q) := by
  have hA := ho.apart_free hcur
  have hc := copied ho.list ho.free hA.mod hA.self hA.tables (ho.enough hE)
  rw [← hf.mem] at hc
  have hmod : ∀ r ∈ L, r % 4096 = 0 := fun r hr => (ho.list.page r hr).mod
  have hdir : (k'.pcblist q).pagedir = (k.pcblist q).pagedir := by rw [hf.pcb q hqp]
  have hAq := ho.apart_free (.inr hq)
  exact ⟨System.memories_eq hmod hc.frame hdir hAq.mod (ho.space q hq).append.2.2,
    fun hopen => hopen.keep hmod hc.frame hdir hAq⟩

/-- The operation that `sys_fork` is. -/
lemma op_fork (hf : Forked ptr p pid k k') : (Deed.call (.fork ptr)).op k k' =
    if k.current = 0 then .start p (k'.memories p) else .copy k.current p := by
  simp only [Deed.op, newborn_fork hf]

lemma moved_fork (ho : Owned L k) (hcur : k.current = 0 ∨ Live k k.current) (hE : Enough k)
    (hf : Forked ptr p pid k k') : Moved ((Deed.call (.fork ptr)).op k k') k k' := by
  have hold : ∀ q, Live k' q → q ≠ p → Live k q := fun q hq hqp => by
    unfold Live at hq
    rwa [hf.pcb q hqp] at hq
  have htarget : ((Deed.call (.fork ptr)).op k k').target = some p := by
    rw [op_fork hf]
    split <;> rfl
  refine ⟨fun q hq => ?_, fun q hq => ?_, fun q hq => ?_, fun hopen q hq => ?_⟩
  · by_cases hqp : q = p
    · exact .inr (hqp ▸ htarget)
    · exact .inl (hold q hq hqp)
  · rw [op_fork hf] at hq
    split at hq
    · cases hq
    · rename_i h0
      exact Option.some_inj.mp hq ▸ hcur.resolve_left h0
  · by_cases hqp : q = p
    · subst hqp
      rw [op_fork hf]
      split
      · rw [Memories.apply, Function.update_self]
      · rename_i h0
        rw [Memories.apply_copy_self]
        exact memories_child ho (hcur.resolve_left h0) hE hf
    · rw [Memories.apply_of_ne (by rw [htarget]; exact fun he => hqp (Option.some_inj.mp he).symm)]
      exact (forked_others ho hcur hE hf (hold q hq hqp) hqp).1
  · by_cases hqp : q = p
    · exact hqp ▸ open_child ho hcur hE hf
    · exact (forked_others ho hcur hE hf (hold q hq hqp) hqp).2 (hopen q (hold q hq hqp))

/-- **Every careful call is one operation on the memories.** -/
lemma Step.moved (hk : Sane k) (ho : Owned L k) (hG : Careful c k) (hs : Step c k k') :
    Moved ((Deed.call c).op k k') k k' := by
  cases c with
  | fork ptr =>
    cases hs.stepped hk with
    | @forkFails _ n hget =>
      have hnone : newborn k { k with nextpid := n } = none := newborn_none rfl
      simp only [Deed.op, hnone]
      exact moved_quiet ⟨rfl, fun _ => Iff.rfl, fun _ _ => rfl⟩
    | @fork _ p pid _ hf =>
      have hne : pid ≠ -1 := fun he => by
        have := hf.pidNonneg
        omega
      exact moved_fork ho hk.current_live (hG pid _ hf.getPid hne) hf
  | timer | execve | exit | wait =>
    rcases hs.careful_cases hk hG with hq | ⟨_, _, _, he, -⟩ | ⟨-, hlive, hx⟩
    · exact moved_quiet hq
    · cases he
    · exact moved_exit ho hlive hx

end Calls

/-! ### Every run -/

/-- The table and the pages are in order. -/
structure Ordered (ram : Bytes) (junk pagedir : ℕ) (k : System) : Prop where
  sane : Sane k
  shared : ∃ L, Shared ram junk pagedir L k
  opened : ∀ q, Live k q → k.Open q

/-- What holds of the kernel and of the memories that have been told of every step. -/
structure Remembered (ram : Bytes) (junk pagedir : ℕ)
    (p : System × Memories (Fin pcbMax) ℕ UInt8) : Prop where
  ordered : Ordered ram junk pagedir p.1
  same : Memories.SameOn {q | Live p.1 q} p.1.memories p.2

section Runs

variable {ram : Bytes} {junk pagedir pagetables : ℕ} {k₀ k k' : System} {d : Deed} {h : List Deed}
  {m₀ m : Memories (Fin pcbMax) ℕ UInt8} {p p' : System × Memories (Fin pcbMax) ℕ UInt8}

lemma Begins.ordered (ht : KernelTables ram junk pagedir) (hb : Begins ram junk pagedir k) :
    Ordered ram junk pagedir k ∧ ∀ q, ¬ Live k q := by
  obtain ⟨hk, hshared⟩ := hb.shared ht
  have hnone : ∀ q, ¬ Live k q := fun q => by
    obtain ⟨s, fileList, disk, keyboard, -, rfl | rfl⟩ := hb <;> exact boot_not_live
  exact ⟨⟨hk, hshared, fun q hq => absurd hq (hnone q)⟩, hnone⟩

/-- **Every careful step is one operation on the memories**, and keeps the pages in order. -/
lemma Ordered.step (ht : KernelTables ram junk pagedir) (hsup : Supervised ram pagedir)
    (hk : Ordered ram junk pagedir k) (hG : d.Careful k) (hd : d.perform k = some k') :
    Ordered ram junk pagedir k' ∧ Moved (d.op k k') k k' := by
  obtain ⟨hk, ⟨L, hs⟩, hopen⟩ := hk
  cases d with
  | call c =>
    have hmoved : Moved ((Deed.call c).op k k') k k' := Step.moved hk hs.owned hG hd
    exact ⟨⟨hk.step hd, hs.step ht hk hG hd, hmoved.opened hopen⟩, hmoved⟩
  | store va b =>
    have hlive := hk.current_live.resolve_left hG
    obtain ⟨pte, hva, hw, rfl⟩ := storeByte_spec hsup hs hlive hd
    have hopen' : ∀ q, Live k q → (k.stored va b pte).Open q := fun q hq =>
      (hopen q hq).keep singleton_mod (fun _ hx => stored_frame hx) rfl
        (hs.owned.apart_stored hlive hva hw (.inr hq))
    exact ⟨⟨⟨hk.table, hk.nextpid⟩, ⟨L, hs.stored ht hlive hva hw⟩, hopen'⟩, fun q hq => .inl hq,
      fun q hq => Option.some_inj.mp hq ▸ hlive, fun q hq => hs.owned.memories_stored hlive hva hw hq,
      fun _ => hopen'⟩

lemma Remembered.step (ht : KernelTables ram junk pagedir) (hsup : Supervised ram pagedir)
    (hp : Remembered ram junk pagedir p) (hG : d.Careful p.1) (hs : MemoryStep d p p') :
    Remembered ram junk pagedir p' := by
  obtain ⟨hd, hm⟩ := hs
  obtain ⟨hk, hmoved⟩ := hp.ordered.step ht hsup hG hd
  refine ⟨hk, fun q hq => ?_⟩
  rw [hm, hmoved.memories q hq]
  exact hp.same.apply hmoved.source (hmoved.live q hq)

/-- What `entry` leaves for the supervisor is not for programs. -/
lemma supervised_entry (hl : Boot.Linked ram junk pagedir pagetables) :
    Supervised (Boot.entryTables pagedir pagetables ram) pagedir := by
  intro va hva hva' pte hw huser
  rw [Boot.entryTables_walk hl.toPlaced hl.dirZero hl.tablesZero hva'] at hw
  obtain ⟨phy, -, rfl⟩ := Option.map_eq_some_iff.mp hw
  have hbit := huser.2
  simp only [Boot.pageP, Boot.pageRw, Boot.pageS] at hbit
  omega

/-- What is mapped can be stored to, and nothing else. -/
lemma Ordered.isSome_storeByte (hsup : Supervised ram pagedir) (hk : Ordered ram junk pagedir k)
    (hlive : Live k k.current) (va : UInt32) (b : UInt8) :
    (k.storeByte va b).isSome = (k.memories k.current va.toNat).isSome := by
  obtain ⟨L, hs⟩ := hk.shared
  unfold System.memories
  by_cases hva : va.toNat < kernelVirBase
  · rw [System.storeByte, (hk.opened _ hlive).userWalk hva, if_pos hva]
    simp only [Option.isSome_map]
  · rw [if_neg hva]
    cases h : k.storeByte va b with
    | none => rfl
    | some k' =>
      obtain ⟨-, hlt, -⟩ := storeByte_spec hsup hs hlive h
      exact absurd hlt hva

/-- The calls of a run are steps with memories beside the kernel. -/
lemma run_memoryStep {h : List Call} (hrun : Run Nbos.Process.Step Nbos.Process.Careful k₀ h k) :
    ∃ m, Run MemoryStep (fun d p => d.Careful p.1) (k₀, m₀) (h.map .call) (k, m) := by
  induction hrun with
  | nil => exact ⟨m₀, .nil⟩
  | @cons _ k k' c _ hG hs ih =>
    obtain ⟨m, hm⟩ := ih
    exact ⟨m.apply ((Deed.call c).op k k'), .cons hm hG ⟨hs, rfl⟩⟩

/-- **The kernel keeps the memories of the processes apart**: in every run of careful calls and of
stores of programs the memory of each process that lives is what memories of their own would hold, that
are told of its stores, and of the copy with which it began. A program can store to what is mapped for
it, and to nothing else. -/
theorem memories_refine (hl : Boot.Linked ram junk pagedir pagetables)
    (hb : Begins (Boot.entryTables pagedir pagetables ram) junk pagedir k₀)
    (hrun : Run MemoryStep (fun d p => d.Careful p.1) (k₀, m₀) h (k, m)) :
    Memories.SameOn {q | Live k q} k.memories m ∧ (k.current ≠ 0 → ∀ va b,
      (k.storeByte va b).isSome = (m k.current va.toNat).isSome) := by
  have ht := Boot.entryTables_tables hl
  have hsup := supervised_entry hl
  have hk : Remembered (Boot.entryTables pagedir pagetables ram) junk pagedir (k, m) := by
    refine hrun.inv (Remembered (Boot.entryTables pagedir pagetables ram) junk pagedir) ?_ ?_
    · obtain ⟨hord, hnone⟩ := hb.ordered ht
      exact ⟨hord, fun q hq => absurd hq (hnone q)⟩
    · exact fun d p p' hp hG hs => hp.step ht hsup hG hs
  refine ⟨hk.same, fun hcur va b => ?_⟩
  have hlive : Live k k.current := hk.ordered.sane.current_live.resolve_left hcur
  have hsame : k.memories k.current = m k.current := hk.same k.current hlive
  rw [← hsame]
  exact hk.ordered.isSome_storeByte hsup hlive va b

lemma kernelBoot_linked {disk : Bytes} :
    Begins (Boot.entryTables 0xc0020000 0xc0021000 headerRam) 0 0xc0020000 (kernelBoot disk) := by
  rw [Boot.entryTables_headerRam]
  exact kernelBoot_begins

/-- The first child can store something somewhere. -/
lemma FirstChild.stores {disk : Bytes} {L : List ℕ} (hc : FirstChild disk L k) (b : UInt8) :
    ∃ va k', k.storeByte va b = some k' := by
  have ht := Boot.entryTables_tables Boot.headerRam_linked
  have hsup := supervised_entry Boot.headerRam_linked
  have hord : Ordered (Boot.entryTables 0xc0020000 0xc0021000 headerRam) 0 0xc0020000 k :=
    hc.run.inv _ (kernelBoot_linked.ordered ht).1 fun c _ _ hk hG hs => (hk.step (d := .call c) ht hsup hG hs).1
  obtain ⟨va, hva, hwalk⟩ := hc.mapped
  have hnat : (UInt32.ofNat va).toNat = va := UInt32.toNat_ofNat_of_lt' (by
    simp only [kernelVirBase] at hva
    exact hva.trans (by decide))
  refine ⟨UInt32.ofNat va, Option.isSome_iff_exists.mp ?_⟩
  rw [hord.isSome_storeByte hsup hc.live, hnat, System.memories, if_pos hva, Option.isSome_map]
  exact Option.isSome_iff_ne_none.mpr hwalk

/-- A child of process 0 stores a byte, and then it is there. -/
theorem memories_refine_child : ∃ k m va, Run MemoryStep (fun d p => d.Careful p.1)
    (kernelBoot Fs.installedDisk, fun _ _ => none) (.store va 7 :: childRuns.map .call) (k, m) ∧
      k.memories k.current va.toNat = some 7 := by
  obtain ⟨k, L, hc⟩ := @firstChild Fs.installedDisk (by decide +kernel)
  obtain ⟨m, hrun⟩ := @run_memoryStep _ _ (fun _ _ => none) _ hc.run
  obtain ⟨va, k', hstore⟩ := hc.stores 7
  have hrun' : Run MemoryStep (fun d p => d.Careful p.1) (kernelBoot Fs.installedDisk, fun _ _ => none)
      (.store va 7 :: childRuns.map .call) (k', m.apply (.store k.current va.toNat 7)) :=
    .cons hrun hc.live.1 ⟨hstore, rfl⟩
  refine ⟨k', _, va, hrun', ?_⟩
  obtain ⟨page, -, rfl⟩ := Option.map_eq_some_iff.mp hstore
  rw [(memories_refine Boot.headerRam_linked kernelBoot_linked hrun').1 k.current hc.live, Memories.apply,
    Function.update_self, Function.update_self]

/-! ### A child -/

def Deed.Step (d : Deed) (k k' : System) : Prop := d.perform k = some k'

variable {k₁ k₂ : System} {h' : List Deed} {q : Fin pcbMax} {ptr : IntrContext} {addr : UInt32}

/-- The registers with which the child of `sys_fork` begins: those of its father, but for `eax` and for
`edx`, in which `switchCtx` leaves the address of the context. -/
lemma switchCtx_copyContext {c : Pcb} : switchCtx addr (copyContext ptr c).ctx =
    if ptr.ds &&& 0xfffc = 0 then none else some { registers ptr with eax := 0, edx := addr } := by
  simp only [switchCtx, dword, toUInt16_wordOf, copyContext, registers]

/-- A process that does not run is not told of a step: it lives on, with the registers it has. -/
lemma Call.keeps (hk : Sane k) {c : Call} (hG : Nbos.Process.Careful c k) (hs : Nbos.Process.Step c k k')
    (hlive : Live k q) (hne : k.current ≠ q) :
    Live k' q ∧ (k'.pcblist q).ctx = (k.pcblist q).ctx ∧ ((Deed.call c).op k k').target ≠ some q := by
  have hkeep : ∀ {k' : System}, k'.pcblist q = k.pcblist q →
      Live k' q ∧ (k'.pcblist q).ctx = (k.pcblist q).ctx := fun he => by
    unfold Live
    rw [he]
    exact ⟨hlive, rfl⟩
  cases hs.stepped hk with
  | idle hnone => exact ⟨hlive, rfl, fun h => by cases h⟩
  | waitFails => exact ⟨hlive, rfl, fun h => by cases h⟩
  | @switch ptr p _ hsw =>
    have hctx : Live k' q ∧ (k'.pcblist q).ctx = (k.pcblist q).ctx := by
      by_cases hqp : q = p
      · subst hqp
        unfold Live
        rw [hsw.next hne.symm]
        exact ⟨⟨hlive.1, by simp⟩, rfl⟩
      · exact hkeep (hsw.pcb q hne.symm hqp)
    exact ⟨hctx.1, hctx.2, fun h => by cases h⟩
  | @forkFails _ n hget =>
    have hnone : newborn k { k with nextpid := n } = none := newborn_none rfl
    refine ⟨hlive, rfl, fun h => ?_⟩
    simp only [Deed.op, hnone] at h
    cases h
  | @fork _ p _ _ hf =>
    have hqp : q ≠ p := fun he => hlive.2.1 (he ▸ hf.free)
    obtain ⟨hlive', hctx⟩ := hkeep (hf.pcb q hqp)
    refine ⟨hlive', hctx, fun h => hqp ?_⟩
    rw [op_fork hf] at h
    split at h <;> exact (Option.some_inj.mp h).symm
  | execve hx =>
    rw [sysExecve_refused hG hx]
    exact ⟨hlive, rfl, fun h => by cases h⟩
  | exit hp hx =>
    obtain rfl := hk.table.eq_current hG (getPCB_spec hp)
    obtain ⟨hlive', hctx⟩ := hkeep (hx.pcb q hne.symm)
    exact ⟨hlive', hctx, fun h => by cases h⟩
  | @reap p _ hz _ =>
    have hqp : q ≠ p := fun he => hlive.2.2 (he ▸ hz)
    obtain ⟨hlive', hctx⟩ := hkeep (System.setPcb_of_ne hqp)
    exact ⟨hlive', hctx, fun h => by cases h⟩

lemma Deed.keeps (hk : Sane k) (hG : d.Careful k) (hd : d.Step k k') (hlive : Live k q)
    (hne : k.current ≠ q) :
    Live k' q ∧ (k'.pcblist q).ctx = (k.pcblist q).ctx ∧ (d.op k k').target ≠ some q := by
  cases d with
  | call c => exact Call.keeps hk hG hd hlive hne
  | store va b =>
    obtain ⟨page, -, rfl⟩ := Option.map_eq_some_iff.mp hd
    exact ⟨hlive, rfl, fun h => hne (Option.some_inj.mp h)⟩

/-- The child of a process other than 0 begins with the memory and the registers of its father. -/
lemma Forked.begins {c : Fin pcbMax} {pid : ℤ} (hk : Sane k) (hcur : k.current ≠ 0)
    (hmoved : Moved ((Deed.call (.fork ptr)).op k k₁) k k₁) (hf : Forked ptr c pid k k₁) :
    Live k₁ c ∧ k₁.memories c = k.memories k.current ∧ switchCtx addr (k₁.pcblist c).ctx =
      if ptr.ds &&& 0xfffc = 0 then none else some { registers ptr with eax := 0, edx := addr } := by
  have hlive : Live k₁ c := by
    refine ⟨fun he => hk.table.rootBusy (he ▸ hf.free), ?_⟩
    rw [hf.proc]
    simp [copyContext]
  refine ⟨hlive, ?_, ?_⟩
  · rw [hmoved.memories c hlive, op_fork hf, if_neg hcur]
    exact Memories.apply_copy_self
  · rw [hf.proc]
    exact switchCtx_copyContext

/-- **A child begins where its father was**: whatever all others do, programs and calls, between a
`sys_fork` and the first turn of the child, its memory is then that of its father at the call, and so are
its registers, but for `eax` and `edx`. -/
theorem child_begins (hl : Boot.Linked ram junk pagedir pagetables)
    (hb : Begins (Boot.entryTables pagedir pagetables ram) junk pagedir k₀)
    (hrun : Run Deed.Step Deed.Careful k₀ h k) (hcur : k.current ≠ 0)
    (hG : Careful (.fork ptr) k) (hfork : Step (.fork ptr) k k₁) (hchild : newborn k k₁ = some q)
    (hrun' : Run Deed.Step (fun d k => d.Careful k ∧ k.current ≠ q) k₁ h' k₂) :
    k₂.memories q = k.memories k.current ∧ switchCtx addr (k₂.pcblist q).ctx =
      if ptr.ds &&& 0xfffc = 0 then none else some { registers ptr with eax := 0, edx := addr } := by
  have ht := Boot.entryTables_tables hl
  have hsup := supervised_entry hl
  have hord : Ordered (Boot.entryTables pagedir pagetables ram) junk pagedir k :=
    hrun.inv _ (hb.ordered ht).1 fun _ _ _ hk hG hd => (hk.step ht hsup hG hd).1
  obtain ⟨hord₁, hmoved⟩ := hord.step (d := .call (.fork ptr)) ht hsup hG hfork
  -- the call
  have hbegins : Live k₁ q ∧ k₁.memories q = k.memories k.current ∧ switchCtx addr (k₁.pcblist q).ctx =
      if ptr.ds &&& 0xfffc = 0 then none else some { registers ptr with eax := 0, edx := addr } := by
    cases hfork.stepped hord.sane with
    | @forkFails _ n hget =>
      have hnone : newborn k { k with nextpid := n } = none := newborn_none rfl
      rw [hnone] at hchild
      cases hchild
    | fork hf =>
      obtain rfl := Option.some_inj.mp ((newborn_fork hf).symm.trans hchild)
      exact hf.begins hord.sane hcur hmoved
  obtain ⟨hlive, hmem, hctx⟩ := hbegins
  -- and what comes after it
  have hinv : Ordered (Boot.entryTables pagedir pagetables ram) junk pagedir k₂ ∧ Live k₂ q ∧
      k₂.memories q = k₁.memories q ∧ (k₂.pcblist q).ctx = (k₁.pcblist q).ctx := by
    refine hrun'.inv (fun k => Ordered (Boot.entryTables pagedir pagetables ram) junk pagedir k ∧ Live k q ∧
      k.memories q = k₁.memories q ∧ (k.pcblist q).ctx = (k₁.pcblist q).ctx) ⟨hord₁, hlive, rfl, rfl⟩ ?_
    rintro d k k' ⟨hk, hlive, hmem, hctx⟩ ⟨hG, hne⟩ hd
    obtain ⟨hk', hmoved⟩ := hk.step ht hsup hG hd
    obtain ⟨hlive', hctx', htarget⟩ := Deed.keeps hk.sane hG hd hlive hne
    refine ⟨hk', hlive', ?_, hctx'.trans hctx⟩
    rw [hmoved.memories q hlive', Memories.apply_of_ne htarget]
    exact hmem
  obtain ⟨-, -, hmem₂, hctx₂⟩ := hinv
  rw [hctx₂]
  exact ⟨hmem₂.trans hmem, hctx⟩

/-- The steps of a run of calls. -/
lemma run_deedStep {h : List Call} (hrun : Run Nbos.Process.Step Nbos.Process.Careful k₀ h k) :
    Run Deed.Step Deed.Careful k₀ (h.map .call) k := by
  induction hrun with
  | nil => exact .nil
  | @cons _ _ _ c _ hG hs ih => exact .cons (a := Deed.call c) ih hG hs

/-- The first child forks and exits, and then its own child runs. -/
theorem child_begins_exit : ∃ k k₂, Run Step Careful (kernelBoot Fs.installedDisk) childRuns k ∧
    Run Step Careful k [.timer userFrame, .timer userFrame, .exit, .fork userFrame] k₂ ∧
      k₂.current = 2 ∧ k₂.memories 2 = k.memories 1 ∧
      switchCtx 0 (k₂.pcblist 2).ctx = some { registers userFrame with eax := 0, edx := 0 } := by
  obtain ⟨k, hk, hcur, hfree⟩ := exists_of_any (P := fun k => k.current = 1 ∧ (k.pcblist 2).pstate = .free)
    (o := performNotRoot childRuns (kernelBoot Fs.installedDisk)) (by decide +kernel)
  obtain ⟨k₁, hk₁, hfork, hcur₁, htaken⟩ := exists_performNotRoot [.fork userFrame]
    (P := fun k => k.current = 1 ∧ (k.pcblist 2).pstate ≠ .free) hk (by decide +kernel)
  obtain ⟨a, ha, hexit, hcura⟩ := exists_performNotRoot [.exit] (P := fun k => k.current = 0) hk₁
    (by decide +kernel)
  obtain ⟨b, hb, htimer, hcurb⟩ := exists_performNotRoot [.timer userFrame] (P := fun k => k.current = 0)
    ha (by decide +kernel)
  obtain ⟨k₂, -, htimer₂, hcur₂⟩ := exists_performNotRoot [.timer userFrame] (P := fun k => k.current = 2)
    hb (by decide +kernel)
  replace hfork := step_of_performNotRoot hfork
  replace hexit := step_of_performNotRoot hexit
  replace htimer := step_of_performNotRoot htimer
  replace htimer₂ := step_of_performNotRoot htimer₂
  -- there is room for the copy
  have hcount : 6841 + 1028 * (childRuns.countP fun c => c.event = .fork) ≤ 7869 := by
    simp [childRuns, Call.event]
  obtain ⟨hrun, hroom⟩ := (@kernelBoot_roomy Fs.installedDisk).run (run_performNotRoot hk) (by decide)
    hcount
  have hroom' : Roomy (5813 + if (Call.fork userFrame).event = .fork then 1028 else 0) k := hroom
  obtain ⟨hG, -⟩ := hroom'.step (fun he => by cases he) (by decide) hfork
  have hG₁ : Careful .exit k₁ := by
    show k₁.current ≠ 0
    rw [hcur₁]
    decide
  -- the child
  have hchild : newborn k k₁ = some 2 := by
    cases hfork.stepped hroom.sane with
    | forkFails => exact absurd hfree htaken
    | @fork _ p _ _ hf =>
      rw [newborn_fork hf]
      by_contra hne
      rw [hf.pcb 2 fun he => hne (congrArg some he.symm)] at htaken
      exact htaken hfree
  have hrun₁ : Run Deed.Step (fun d k => d.Careful k ∧ k.current ≠ 2) k₁
      [.call (.timer userFrame), .call (.timer userFrame), .call .exit] k₂ := by
    refine .cons (.cons (.cons .nil ⟨hG₁, ?_⟩ hexit) ⟨trivial, ?_⟩ htimer) ⟨trivial, ?_⟩ htimer₂
    · rw [hcur₁]
      decide
    · rw [hcura]
      decide
    · rw [hcurb]
      decide
  have hne : k.current ≠ 0 := by
    rw [hcur]
    decide
  refine ⟨k, k₂, hrun, .cons (.cons (.cons (.cons .nil hG hfork) hG₁ hexit) trivial htimer) trivial htimer₂,
    hcur₂, ?_⟩
  rw [← hcur]
  exact child_begins Boot.headerRam_linked kernelBoot_linked (run_deedStep hrun) hne hG hfork hchild hrun₁

end Runs

end Nbos.Process
