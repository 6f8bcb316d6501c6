import Nbos.Process.Isolation

/-!
# A `sys_execve` that returns

`sys_execve` finds out that a file is no program after it has given the user half of the caller back,
and returns `-1` to a caller whose pages are free. `failed_intact` says when nothing is lost by that.
-/

namespace Nbos.Process

open Nbos.Lib Nbos.Kernel Nbos.Memory
open Nbos.Fs (installedDisk shellPath seekFileInode readFileAtOffset readLoop readBlock pieceLeft span
  cstr cstr_of_lt length_readFileAtOffset_le)

/-! ### What a failure should leave alone -/

/-- The current process of `k` has in `k'` what it had: its control block, every page that it reaches
through its directory, with all that is in it, and no such page has been freed. -/
structure Intact (k k' : System) : Prop where
  proc : k'.proc = k.proc
  pages : ∀ p ∈ k.space k.current, ∀ o < pageSize, k'.mem.ram (p + o) = k.mem.ram (p + o)
  free : ∀ L L', FreePages k L → FreePages k' L' → ∀ p ∈ k'.space k'.current, p ∈ L' → p ∈ L

/-- Nothing is mapped in the user half of the current process. -/
def Bare (k : System) : Prop := ∀ i < 0x300, ¬ Present (entry k.mem.ram k.proc.pagedir i)

/-- The program header at `ph` is not one to load, or asks for no page and no byte. -/
def Vacant (dir : ℕ) (m : Bytes) (ph : ℕ) : Prop :=
  load32 dir m ph ≠ some loadSeg ∨ ∃ vaddr memsize, load32 dir m (ph + 8) = some vaddr ∧
    load32 dir m (ph + 20) = some memsize ∧ alignUp (vaddr + memsize) ≤ vaddr &&& 0xfffff000 ∧
    load32 dir m (ph + 16) = some 0

/-- Once the first page of the file is read, there is no more to load: it is no program, or none of
its program headers is for a segment. -/
def HeaderOnly (dir : ℕ) (i : Inode) (d : Bytes) (s : Mem) : Prop :=
  ∀ s', headerLoaded i d s = some s' → get32 s'.ram s.freeList = elfMagic →
    ∀ n < get16 s'.ram (s.freeList + 44),
      Vacant dir s'.ram ((s.freeList + get32 s'.ram (s.freeList + 28) + 32 * n) % 2 ^ 32)

/-- The user half of the current process is one table without entries, and holds already what the
first page of the file is. -/
def Repeats (k : System) (i : Inode) : Prop :=
  ∃ T, tablesUpTo k.mem.ram k.proc.pagedir 0x300 = [T] ∧
    ∀ s', headerLoaded i k.disk (freePage T k.mem) = some s' →
      ∀ o < pageSize, s'.ram (T + o) = k.mem.ram (T + o)

/-- The caller is process 0, or the path is not that of a regular file, or there is nothing in the
user half that could get lost. -/
def Spared (junk : List UInt8 → List UInt8) (path : List UInt8) (k : System) : Prop :=
  k.proc.pid = 0 ∨ ∀ i, seekFileInode junk path k.disk = some i → i.mode = regularFile →
    k.mem.freeList ≠ 0 ∧ Bare k ∧ HeaderOnly k.proc.pagedir i k.disk k.mem ∨ Repeats k i

/-- The file starts with the ELF magic. -/
def IsElf (i : Inode) (d : Bytes) : Prop :=
  i.blockNo 0 ≠ 0 ∧ get32 (readBlock d (i.blockNo 0).toNat) 0 = elfMagic

instance (i : Inode) (d : Bytes) : Decidable (IsElf i d) := inferInstanceAs (Decidable (_ ∧ _))

/-! ### The header -/

section Header

variable {i : Inode} {d bytes : Bytes} {dir p x : ℕ} {r : ℤ} {bs : List UInt8} {s s' : Mem}
  {L : List ℕ}

/-- A read from the start of a file gets nothing, or the first word of its first block. -/
lemma readLoop_head {n : ℕ} {b : Bool} (hn : 4 ≤ n) (h : readLoop i d n 0 = some (b, bs)) :
    bs = [] ∨ 4 ≤ bs.length ∧ i.blockNo 0 ≠ 0 ∧
      get32 (cstr bs) 0 = get32 (readBlock d (i.blockNo 0).toNat) 0 := by
  rw [readLoop, dif_neg (by omega), dif_pos (by decide)] at h
  simp only [Nat.zero_mod, Nat.zero_div, Fin.zero_eta] at h
  split at h
  · obtain ⟨-, rfl⟩ := Prod.mk.inj (Option.some_inj.mp h)
    exact .inl rfl
  · rename_i hb
    obtain ⟨⟨b', rest⟩, -, he⟩ := Option.map_eq_some_iff.mp h
    obtain ⟨-, rfl⟩ := Prod.mk.inj he
    have hpiece : 4 ≤ pieceLeft n 0 := le_min (by decide) hn
    refine .inr ⟨?_, hb, get32_congr fun k hk => ?_⟩
    · simp only [List.length_append, List.length_map, List.length_range]
      omega
    · have hmap : k < ((List.range (pieceLeft n 0)).map
          fun k => readBlock d (i.blockNo 0).toNat (0 + k)).length := by
        rw [List.length_map, List.length_range]
        omega
      rw [Nat.zero_add, cstr_of_lt (by rw [List.length_append]; omega),
        List.getElem_append_left hmap, List.getElem_map, List.getElem_range, Nat.zero_add]

lemma readFileAtOffset_head (h : readFileAtOffset i 0 p pageSize d = some (r, bs)) :
    bs = [] ∨ 4 ≤ bs.length ∧ i.blockNo 0 ≠ 0 ∧
      get32 (cstr bs) 0 = get32 (readBlock d (i.blockNo 0).toNat) 0 := by
  rw [readFileAtOffset, if_neg (by omega), if_neg (by omega)] at h
  obtain ⟨⟨b, bs'⟩, hloop, he⟩ := Option.map_eq_some_iff.mp h
  obtain ⟨-, rfl⟩ := Prod.mk.inj he
  by_cases hspan : p + pageSize < 2 ^ 32
  · rw [span, if_pos hspan] at hloop
    exact readLoop_head (by decide) hloop
  · rw [span, if_neg hspan, readLoop, dif_pos rfl] at hloop
    obtain ⟨-, rfl⟩ := Prod.mk.inj (Option.some_inj.mp hloop)
    exact .inl rfl

/-- What `headerLoaded` does to memory: at most a page is written. -/
lemma headerLoaded_eq (h : headerLoaded i d s = some s') : ∃ r bs, bs.length ≤ pageSize ∧
    readFileAtOffset i 0 s.freeList pageSize d = some (r, bs) ∧
    s' = ⟨overlay s.ram s.freeList bs.length (cstr bs), get32 s.ram s.freeList⟩ := by
  obtain ⟨⟨r, bs⟩, hread, rfl⟩ := Option.map_eq_some_iff.mp h
  refine ⟨r, bs, length_readFileAtOffset_le hread, hread, ?_⟩
  rw [storeKernel_eq]

lemma headerLoaded_of_off (h : headerLoaded i d s = some s') (hx : ¬ InPage s.freeList x) :
    s'.ram x = s.ram x := by
  obtain ⟨r, bs, hlen, -, rfl⟩ := headerLoaded_eq h
  unfold InPage at hx
  exact overlay_of_not_mem (by omega)

/-- The link of the first free page leads to a page, or to `0`. -/
lemma link_mod (hfree : FreeList s (p :: L) 0) (hL : PageList (p :: L)) :
    get32 s.ram s.freeList % 4096 = 0 := by
  obtain ⟨hp, hfree⟩ := hfree
  rw [hp]
  cases L with
  | nil => rw [show get32 s.ram p = 0 from hfree]
  | cons q L =>
    rw [hfree.1]
    exact (hL.page q (by simp)).mod

/-- The header of a file that is no ELF file does not have the magic, also if nothing is read. -/
lemma headerLoaded_magic (hlink : get32 s.ram s.freeList % 4096 = 0) (hi : ¬ IsElf i d)
    (h : headerLoaded i d s = some s') : get32 s'.ram s.freeList ≠ elfMagic := by
  obtain ⟨r, bs, -, hread, rfl⟩ := headerLoaded_eq h
  intro he
  rcases readFileAtOffset_head hread with rfl | ⟨h4, hb, hword⟩
  · rw [List.length_nil, overlay_zero] at he
    rw [he] at hlink
    revert hlink
    decide
  · refine hi ⟨hb, hword.symm.trans ?_⟩
    rw [← he]
    exact (get32_overlay_add (b := 0) h4).symm

lemma loadProcess_reads {e : ℕ} {s₁ : Mem} (h : loadProcess dir i d s = some (e, s₁)) :
    ∃ s', headerLoaded i d s = some s' := by
  rw [loadProcess_eq] at h
  obtain ⟨s', hh, -⟩ := Option.bind_eq_some_iff.mp h
  exact ⟨s', hh⟩

lemma mapLoop_of_le {vend fuel va : ℕ} (h : vend ≤ va) : mapLoop dir vend (fuel + 1) va s = some s := by
  rw [mapLoop, if_neg (not_lt.mpr h)]

/-- Nothing is done for a vacant program header. -/
lemma loadSegment_vacant {ph : ℕ} (hv : Vacant dir s.ram ph)
    (h : loadSegment dir i d ph s = some s') : s' = s := by
  unfold loadSegment at h
  obtain ⟨ptype, hptype, h⟩ := Option.bind_eq_some_iff.mp h
  split at h
  · rename_i hload
    rcases hv with hv | ⟨vaddr, memsize, hvaddr, hmemsize, hend, hsize⟩
    · exact absurd (hload ▸ hptype) hv
    · simp only [hvaddr, hmemsize, Option.bind_eq_bind, Option.bind_some] at h
      obtain ⟨s₁, hmap, h⟩ := Option.bind_eq_some_iff.mp h
      rw [mapLoop_of_le hend] at hmap
      obtain rfl := Option.some_inj.mp hmap
      obtain ⟨offset, -, h⟩ := Option.bind_eq_some_iff.mp h
      obtain ⟨vaddr', -, h⟩ := Option.bind_eq_some_iff.mp h
      obtain ⟨filesize, hfilesize, h⟩ := Option.bind_eq_some_iff.mp h
      obtain rfl := Option.some_inj.mp (hsize.symm.trans hfilesize)
      obtain ⟨⟨r, bs⟩, hread, h⟩ := Option.bind_eq_some_iff.mp h
      obtain rfl := List.length_eq_zero_iff.mp (Nat.le_zero.mp (length_readFileAtOffset_le hread))
      exact (Option.some_inj.mp h).symm
  · exact (Option.some_inj.mp h).symm

/-- Vacant program headers are skipped. -/
lemma loadLoop_vacant {elfHeader fuel j ph : ℕ} (h : loadLoop dir i d elfHeader fuel j ph s = some s')
    (hv : ∀ n, j + n < get16 s.ram (elfHeader + 44) → Vacant dir s.ram ((ph + 32 * n) % 2 ^ 32))
    (hph : ph < 2 ^ 32) : s' = s := by
  induction fuel generalizing j ph with
  | zero => cases h
  | succ fuel ih =>
    rw [loadLoop] at h
    split at h
    · rename_i hj
      obtain ⟨s₁, hs₁, hloop⟩ := Option.bind_eq_some_iff.mp h
      have hv₀ := hv 0 hj
      rw [Nat.mul_zero, Nat.add_zero, Nat.mod_eq_of_lt hph] at hv₀
      obtain rfl := loadSegment_vacant hv₀ hs₁
      refine ih hloop (fun n hn => ?_) (Nat.mod_lt _ (by decide))
      have hvn := hv (n + 1) (by omega)
      rwa [show (ph + 32 * (n + 1)) % 2 ^ 32 = ((ph + 32) % 2 ^ 32 + 32 * n) % 2 ^ 32 by omega] at hvn
    · exact (Option.some_inj.mp h).symm

/-- A file of which the first page is all there is to load, if it has the entry `0`. -/
lemma loadProcess_vacant (hh : headerLoaded i d s = some s') (hv : HeaderOnly dir i d s) {e : ℕ}
    {s₁ : Mem} (h : loadProcess dir i d s = some (e, s₁)) : s₁ = s' := by
  rw [loadProcess_eq, hh, Option.bind_some] at h
  split at h
  · exact (Prod.mk.inj (Option.some_inj.mp h)).2.symm
  · rename_i hmagic
    obtain ⟨s₂, hloop, he⟩ := Option.map_eq_some_iff.mp h
    obtain ⟨-, rfl⟩ := Prod.mk.inj he
    refine loadLoop_vacant hloop (fun n hn => ?_) (Nat.mod_lt _ (by decide))
    rw [Nat.zero_add] at hn
    rw [Nat.mod_add_mod]
    exact hv s' hh (not_not.mp hmagic) n hn

/-- The page of the header is off the free list. -/
lemma headerLoaded_free (hfree : FreeList s (p :: L) 0) (hL : PageList (p :: L))
    (h : headerLoaded i d s = some s') : FreeList s' L 0 := by
  obtain ⟨hp, hfree⟩ := hfree
  have hpm := (hL.page p (List.mem_cons_self ..)).mod
  have hlist : s'.freeList = get32 s.ram p := by
    obtain ⟨r, bs, -, -, rfl⟩ := headerLoaded_eq h
    rw [hp]
  have hrest : FreeList ⟨s.ram, get32 s.ram p⟩ L 0 := hfree
  refine hrest.congr hlist fun q hq => get32_congr fun x hx => ?_
  have hqp : q ≠ p := fun e => (List.nodup_cons.mp hL.nodup).1 (e ▸ hq)
  have hqm := (hL.page q (List.mem_cons_of_mem _ hq)).mod
  have hoff : ¬ InPage s.freeList (q + x) := by
    rw [hp]
    exact not_inPage_of_ne hpm hqm (by omega) hqp
  have hbyte := headerLoaded_of_off h hoff
  exact hbyte

end Header

/-! ### The system call -/

section Fails

variable {junk : List UInt8 → List UInt8} {path : List UInt8} {ptr : IntrContext} {k k' : System}
  {L K : List ℕ} {i : Inode} {p : ℕ} {s s' : Mem}

/-- Where a `-1` comes from. -/
lemma sysExecve_failed (h : sysExecve junk path ptr k = some (.failed, k')) :
    k' = k ∧ (k.proc.pid = 0 ∨ ∃ i, seekFileInode junk path k.disk = some i ∧ i.mode ≠ regularFile) ∨
    k.proc.pid ≠ 0 ∧ ∃ i s, seekFileInode junk path k.disk = some i ∧ i.mode = regularFile ∧
      loadProcess k.proc.pagedir i k.disk (freeProcessUserMem k.proc.pagedir k.mem) = some (0, s) ∧
      k' = { k with mem := s } := by
  rcases sysExecve_cases h with ⟨-, rfl, hearly⟩ | ⟨i, e, s, hseek, hx⟩
  · exact .inl ⟨rfl, hearly⟩
  · by_cases he : e = 0
    · exact .inr ⟨hx.pid, i, s, hseek, hx.mode, he ▸ hx.load, (hx.failed he).2⟩
    · cases (hx.started he).1

lemma Intact.refl : Intact k k :=
  ⟨rfl, fun _ _ _ _ => rfl, fun _ _ h h' _ _ hp => h.unique h' ▸ hp⟩

/-- Nothing is lost if the free pages were free before and the pages of the process are as they were. -/
lemma intact_of_pages (hL : FreePages k L) (hK : FreePages { k with mem := s } K)
    (hKL : ∀ p ∈ K, p ∈ L)
    (hpages : ∀ p ∈ k.space k.current, ∀ o < pageSize, s.ram (p + o) = k.mem.ram (p + o)) :
    Intact k { k with mem := s } := by
  refine ⟨rfl, hpages, fun L₁ K₁ hL₁ hK₁ p _ hp => ?_⟩
  rw [hL₁.unique hL]
  rw [hK₁.unique hK] at hp
  exact hKL p hp

/-- A header that is read to a free page. -/
lemma intact_of_header (hL : FreePages k (p :: L)) (hlist : PageList (k.space k.current ++ p :: L))
    (hh : headerLoaded i k.disk k.mem = some s) : Intact k { k with mem := s } := by
  obtain ⟨-, hpages, hdisj⟩ := hlist.append
  have hpm := (hpages.page p (List.mem_cons_self ..)).mod
  have hK : FreeList s L 0 := headerLoaded_free hL.1 hpages hh
  refine intact_of_pages hL ⟨hK, fun hm => hL.2 (List.mem_cons_of_mem _ hm)⟩
    (fun q hq => List.mem_cons_of_mem _ hq) fun q hq o ho => headerLoaded_of_off hh ?_
  have hqp : q ≠ p := fun e => hdisj hq (e ▸ List.mem_cons_self ..)
  rw [hL.1.1]
  exact not_inPage_of_ne hpm (hlist.page q (List.mem_append_left _ hq)).mod ho hqp

/-- A single table, taken for the header at once, of which the header is a copy. -/
lemma intact_of_repeats {T : ℕ} (hL : FreePages k L) (hlist : PageList (k.space k.current ++ L))
    (hT : tablesUpTo k.mem.ram k.proc.pagedir 0x300 = [T])
    (hh : headerLoaded i k.disk (freePage T k.mem) = some s)
    (hsame : ∀ o < pageSize, s.ram (T + o) = k.mem.ram (T + o)) : Intact k { k with mem := s } := by
  obtain ⟨-, hpages, hdisj⟩ := hlist.append
  have hspace : k.space k.current = [k.proc.pagedir, T] := congrArg (k.proc.pagedir :: ·) hT
  rw [hspace] at hlist hdisj
  have hTp := hlist.page T (by simp)
  have hTL : T ∉ L := hdisj (by simp)
  have hDT : k.proc.pagedir ≠ T := fun e => (List.nodup_cons.mp hlist.nodup).1 (by simp [e])
  have hD := (hlist.page k.proc.pagedir (by simp)).mod
  have hlist' : PageList (T :: L) :=
    hlist.sublist (List.sublist_cons_self ..)
  have hfree : FreeList (freePage T k.mem) (T :: L) 0 :=
    hL.1.free (hL.1.lt hpages) hTp.mod (fun q hq => (hpages.page q hq).mod) hTL
  refine intact_of_pages hL ⟨headerLoaded_free hfree hlist' hh, hL.2⟩ (fun q hq => hq) ?_
  intro q hq o ho
  rw [hspace] at hq
  rcases List.mem_cons.mp hq with rfl | hq
  · have hoff : ¬ InPage T (k.proc.pagedir + o) := not_inPage_of_ne hTp.mod hD ho hDT
    rw [headerLoaded_of_off hh hoff]
    simp only [InPage, pageSize] at hoff
    exact put32_of_not_mem (by omega)
  · obtain rfl := List.mem_singleton.mp hq
    exact hsame o ho

/-- **What is left alone by accident**: a file that is no ELF file leaves a process with something in
its user half intact only if it repeats it. -/
lemma repeats_of_intact (hL : FreePages k L) (hlist : PageList (k.space k.current ++ L))
    (hi : ¬ IsElf i k.disk) (hb : ¬ Bare k)
    (hload : loadProcess k.proc.pagedir i k.disk (freeProcessUserMem k.proc.pagedir k.mem) = some (0, s))
    (hint : Intact k { k with mem := s }) : Repeats k i := by
  set D := k.proc.pagedir with hD
  obtain ⟨hpages, -, hdisj⟩ := PageList.append hlist
  obtain ⟨F, he⟩ := emptied hL.1 hlist
  generalize hs₁ : freeProcessUserMem D k.mem = s₁ at he hload
  have hperm := he.perm
  have hflist := he.list
  obtain ⟨p, G, hG⟩ : ∃ p G, F.reverse = p :: G := by
    refine List.exists_cons_of_ne_nil fun hnil => hb (tablesUpTo_eq_nil.mp ?_)
    rw [List.reverse_eq_nil_iff.mp hnil] at hperm
    exact hperm.nil_eq.symm
  have hfree := he.released.free
  rw [hG, List.cons_append] at hflist hfree
  -- the header goes to `p`, and nothing more happens
  obtain ⟨s', hh⟩ := loadProcess_reads hload
  have hmagic := headerLoaded_magic (link_mod hfree hflist) hi hh
  rw [loadProcess_header hh hmagic] at hload
  obtain ⟨-, rfl⟩ := Prod.mk.inj (Option.some_inj.mp hload)
  -- the pages behind it are still free, and in use
  have hK : FreePages { k with mem := s' } (G ++ L) :=
    ⟨headerLoaded_free hfree hflist hh, zero_not_mem (hflist.sublist (List.sublist_cons_self ..))⟩
  have hsame : System.space { k with mem := s' } k.current = k.space k.current :=
    userPages_congr hint.pages
  have hGnil : G = [] := by
    refine List.eq_nil_iff_forall_not_mem.mpr fun q hq => ?_
    have hqT : q ∈ tablesUpTo k.mem.ram D 0x300 :=
      hperm.mem_iff.mp (List.mem_reverse.mp (hG ▸ List.mem_cons_of_mem _ hq))
    have hqs : q ∈ k.space k.current := List.mem_cons_of_mem _ hqT
    have hqs' : q ∈ System.space { k with mem := s' } k.current := by
      rw [hsame]
      exact hqs
    exact hdisj hqs (hint.free L (G ++ L) hL hK q hqs' (List.mem_append_left _ hq))
  have hF : F = [p] := by rw [← List.reverse_reverse F, hG, hGnil, List.reverse_singleton]
  rw [hF] at hperm
  have hT : tablesUpTo k.mem.ram D 0x300 = [p] := List.perm_singleton.mp hperm.symm
  have hpD : p ≠ D := fun e => (List.nodup_cons.mp hpages.nodup).1 (hT ▸ e ▸ List.mem_singleton_self p)
  refine ⟨p, hT, fun s'' hs'' => ?_⟩
  rw [← freeProcessUserMem_of_single he.mod hpD hT, hs₁, hh] at hs''
  obtain rfl := Option.some_inj.mp hs''
  exact hint.pages p (List.mem_cons_of_mem _ (hT ▸ List.mem_singleton_self p))

/-- **When a `sys_execve` that returns `-1` loses nothing**, in a state with its pages in order. An ELF
file with the entry `0` may also put back what was lost, so the other direction is without these. -/
theorem failed_intact (hL : FreePages k L)
    (hlist : k.proc.pid ≠ 0 → PageList (k.space k.current ++ L))
    (h : sysExecve junk path ptr k = some (.failed, k')) :
    (Spared junk path k → Intact k k') ∧
      ((Bare k → k.mem.freeList ≠ 0) →
        (∀ i, seekFileInode junk path k.disk = some i → ¬ IsElf i k.disk) →
          Intact k k' → Spared junk path k) := by
  rcases sysExecve_failed h with ⟨rfl, hearly⟩ | ⟨hpid, i, s, hseek, hmode, hload, rfl⟩
  · refine ⟨fun _ => Intact.refl, fun _ _ _ => ?_⟩
    rcases hearly with hpid | ⟨i, hseek, hmode⟩
    · exact .inl hpid
    · refine .inr fun i' hseek' hmode' => ?_
      obtain rfl := Option.some_inj.mp (hseek.symm.trans hseek')
      exact absurd hmode' hmode
  · have hpages := hlist hpid
    constructor
    · intro hs
      rcases (hs.resolve_left hpid) i hseek hmode with ⟨hne, hb, hv⟩ | ⟨T, hT, hsame⟩
      · rw [freeProcessUserMem_of_none hb] at hload
        obtain ⟨s', hh⟩ := loadProcess_reads hload
        obtain rfl := loadProcess_vacant hh hv hload
        cases L with
        | nil => exact absurd hL.1 hne
        | cons p L => exact intact_of_header hL hpages hh
      · have hspace : k.space k.current = [k.proc.pagedir, T] := congrArg (k.proc.pagedir :: ·) hT
        rw [hspace] at hpages
        have hD := (hpages.page k.proc.pagedir (by simp)).mod
        have hTD : T ≠ k.proc.pagedir := by
          rintro rfl
          exact (List.nodup_cons.mp hpages.nodup).1 (by simp)
        rw [freeProcessUserMem_of_single hD hTD hT] at hload
        obtain ⟨s', hh⟩ := loadProcess_reads hload
        -- the first word is an entry that is not present, and the magic is odd
        have hmagic : get32 s'.ram T ≠ elfMagic := by
          have hword : get32 s'.ram T = entry k.mem.ram T 0 :=
            get32_congr fun x hx => hsame s' hh x (hx.trans (by decide))
          have hframes := (tablesUpTo_eq_single hT).1
          intro he
          have hp : Present (entry k.mem.ram T 0) := by
            rw [← hword, he]
            decide
          have hm : target (entry k.mem.ram T 0) ∈ framesUpTo k.mem.ram T 1024 :=
            mem_framesUpTo.mpr ⟨0, by decide, hp, rfl⟩
          rw [hframes] at hm
          exact List.not_mem_nil hm
        rw [loadProcess_header hh hmagic] at hload
        obtain ⟨-, rfl⟩ := Prod.mk.inj (Option.some_inj.mp hload)
        exact intact_of_repeats hL (hspace ▸ hpages) hT hh (hsame s' hh)
    · intro hne hi hint
      refine .inr fun i' hseek' _ => ?_
      obtain rfl := Option.some_inj.mp (hseek.symm.trans hseek')
      by_cases hb : Bare k
      · refine .inl ⟨hne hb, hb, fun s' hh hmagic => ?_⟩
        cases L with
        | nil => exact absurd hL.1 (hne hb)
        | cons p L =>
          exact absurd hmagic (headerLoaded_magic (link_mod hL.1 hpages.append.2.1) (hi i hseek) hh)
      · exact .inr (repeats_of_intact hL hpages (hi i hseek) hb hload hint)

/-- A process with two tables has something to lose. -/
lemma not_spared {a b : ℕ} (hpid : k.proc.pid ≠ 0) (hseek : seekFileInode junk path k.disk = some i)
    (hmode : i.mode = regularFile) (hab : a < b) (hb : b < 0x300)
    (hpa : Present (entry k.mem.ram k.proc.pagedir a)) (hpb : Present (entry k.mem.ram k.proc.pagedir b)) :
    ¬ Bare k ∧ ¬ Repeats k i ∧ ¬ Spared junk path k := by
  have hbare : ¬ Bare k := fun h => h b hb hpb
  have hrepeats : ¬ Repeats k i := by
    rintro ⟨T, hT, -⟩
    have hmem : ∀ n < 0x300, Present (entry k.mem.ram k.proc.pagedir n) →
        target (entry k.mem.ram k.proc.pagedir n) = T := by
      intro n hn hp
      have hm : target (entry k.mem.ram k.proc.pagedir n) ∈ tablesUpTo k.mem.ram k.proc.pagedir 0x300 :=
        mem_tablesUpTo.mpr ⟨n, hn, hp, .inl rfl⟩
      rw [hT] at hm
      exact List.mem_singleton.mp hm
    refine table_ne (hT ▸ List.nodup_singleton T) hab hb hpa hpb ?_
    rw [hmem a (hab.trans hb) hpa, hmem b hb hpb]
  refine ⟨hbare, hrepeats, fun hs => ?_⟩
  rcases (hs.resolve_left hpid) i hseek hmode with ⟨-, h, -⟩ | h
  · exact hbare h
  · exact hrepeats h

end Fails

/-! ### The shell of the empty disk -/

/-- What is found of the shell: a regular file that is no ELF file. -/
lemma shell_not_elf : (seekFileInode (fun _ => []) shellPath installedDisk).map
    (fun i => (decide (i.mode = regularFile), decide (IsElf i installedDisk))) = some (true, false) := by
  decide +kernel

lemma childRuns_fails : ∃ k k' L i, Run Step Careful (kernelBoot installedDisk) childRuns k ∧
    Owned L k ∧ Live k k.current ∧ k.proc.pid ≠ 0 ∧ Small k k.current ∧
    seekFileInode (fun _ => []) shellPath k.disk = some i ∧ i.mode = regularFile ∧ ¬ IsElf i k.disk ∧
    sysExecve (fun _ => []) shellPath userFrame k = some (.failed, k') := by
  obtain ⟨k, k', L, hrun, ho, hlive, hsmall, hdisk, hx, hbad⟩ := childRuns_execve
  obtain ⟨i, hseek, he⟩ := Option.map_eq_some_iff.mp shell_not_elf
  obtain ⟨hmode, helf⟩ := Prod.mk.inj he
  rw [← hdisk] at hseek helf
  have hpid : k.proc.pid ≠ 0 := by
    intro hpid
    refine hbad ?_
    rw [sysExecve, if_pos hpid] at hx
    obtain ⟨-, rfl⟩ := Prod.mk.inj (Option.some_inj.mp hx)
    exact ho.pagesOwned
  exact ⟨k, k', L, i, hrun, ho, hlive, hpid, hsmall, hseek, of_decide_eq_true hmode,
    of_decide_eq_false helf, hx⟩

theorem failed_intact_shell : ∃ k k', Run Step Careful (kernelBoot installedDisk) childRuns k ∧
    sysExecve (fun _ => []) shellPath userFrame k = some (.failed, k') ∧ ¬ Intact k k' := by
  obtain ⟨k, k', L, i, hrun, ho, hlive, hpid, hsmall, hseek, hmode, helf, hx⟩ := childRuns_fails
  obtain ⟨hbare, -, hspared⟩ := not_spared hpid hseek hmode (show 0 < 0x2ff by omega) (by omega)
    hsmall.first hsmall.stack
  have hfails := failed_intact ho.freePages (fun _ => ho.space k.current hlive) hx
  refine ⟨k, k', hrun, hx, fun hint => hspared ?_⟩
  refine hfails.2 (fun hb => absurd hb hbare) (fun i' hseek' => ?_) hint
  obtain rfl := Option.some_inj.mp (hseek.symm.trans hseek')
  exact helf

/-- The child of process 0 asks for the shell, and has nothing left but what is free. -/
theorem failed_execve_loses : ¬ ∀ k₀ h k k' junk path ptr, Begins kernelRam 0 0xc0020000 k₀ →
    Run Step Careful k₀ h k → sysExecve junk path ptr k = some (.failed, k') → Intact k k' := by
  intro hall
  obtain ⟨k, k', L, i, hrun, ho, hlive, hpid, hsmall, hseek, hmode, helf, hx⟩ := childRuns_fails
  have hint := hall _ _ _ _ _ _ _ kernelBoot_begins hrun hx
  obtain ⟨hbare, hrepeats, -⟩ := not_spared hpid hseek hmode (show 0 < 0x2ff by omega) (by omega)
    hsmall.first hsmall.stack
  rcases sysExecve_failed hx with ⟨-, hearly⟩ | ⟨-, i', s, hseek', -, hload, rfl⟩
  · rcases hearly with hpid' | ⟨i', hseek', hmode'⟩
    · exact hpid hpid'
    · obtain rfl := Option.some_inj.mp (hseek.symm.trans hseek')
      exact hmode' hmode
  · obtain rfl := Option.some_inj.mp (hseek.symm.trans hseek')
    exact hrepeats (repeats_of_intact ho.freePages (ho.space k.current hlive) helf hbare hload hint)

end Nbos.Process
