import Nbos.Process.Protected

/-!
# What a new program finds in recycled pages

Pages come off the free list as they are: `loadProcess` copies the bytes of the file to them, and the
stack is not cleared at all. `Alike` relates two states that differ in what lies in the free pages, and
`noLeak_iff` says when the program that `sys_execve` starts cannot tell them apart: when it is made of
the pages of the caller alone.
-/

namespace Nbos.Process

open Nbos.Lib Nbos.Kernel Nbos.Memory
open Nbos.Fs (seekFileInode cstr shellPath)

/-! ### The loader and what lies in free pages -/

/-- The page that the stack is in. -/
abbrev stackPage : ℕ := 0xbffff000

/-- What the stack adds to a program, in the memory `s`: a page `S`, and a table `t` if one has to be
made. -/
structure Stacked (D h : ℕ) (vas : List ℕ) (g : Growth) (s : Mem) (S t : ℕ) : Prop where
  other : t ≠ S
  junk : ∀ W c, (∀ q ∈ W, q ∈ g.rest) →
    mapStack D (s.withJunk W c) = (mapStack D s).withJunk (W.filter (· ≠ t)) c
  mapped : ∀ va, pageNo va ∈ (vas ++ [stackPage]).map pageNo →
    ∃ p ∈ S :: g.frames, walk (mapStack D s).ram D va = some (userItem p) ∧
      target (entry (mapStack D s).ram D (dirIdx va)) ∈ h :: t :: g.tables
  stack : ∀ va, pageNo va = pageNo stackPage → walk (mapStack D s).ram D va = some (userItem S)

section Loader

variable {i : Inode} {d c m : Bytes} {D h e S : ℕ} {Q W vas rest : List ℕ} {s s' : Mem} {g g' : Growth}
  {T : ℕ → Prop}

lemma Loadable.withJunk (hl : Loadable D h Q s) (hW : ∀ q ∈ W, q ∈ Q) :
    Loadable D h Q (s.withJunk W c) := by
  obtain ⟨hfree, hlist, hmod, hself, hlin⟩ := hl
  have hWm : ∀ q ∈ W, q % 4096 = 0 := fun q hq => (hlist.page q (List.mem_cons_of_mem _ (hW q hq))).mod
  have hDW : D ∉ W := fun hm => hself (List.mem_cons_of_mem _ (hW D hm))
  have hTW : target (entry s.ram D (dirIdx h)) ∉ W := fun hm =>
    hlin.table (List.mem_cons_of_mem _ (List.mem_cons_of_mem _ (hW _ hm)))
  have hidx : dirIdx h < 1024 := by
    have hlt := hlin.page.lt
    show h / 2 ^ 22 < 1024
    omega
  refine ⟨hfree.congr rfl fun q hq => link_withJunk hWm (hlist.page q hq).mod, hlist, hmod, hself, ?_⟩
  exact hlin.of_entries (entry_withJunk hWm hmod hDW hidx)
    (entry_withJunk hWm (target_mod _) hTW tableIdx_lt)

lemma withHeader_withJunk (hl : Loadable D h Q s) (hW : ∀ q ∈ W, q ∈ Q) :
    withHeader i d (s.withJunk W c) = (withHeader i d s).withJunk W c := by
  have hlist := hl.list
  have hWm : ∀ q ∈ W, q % 4096 = 0 := fun q hq => (hlist.page q (List.mem_cons_of_mem _ (hW q hq))).mod
  have hh : s.freeList = h := hl.free.1
  have hhm : h % 4096 = 0 := hl.linear.page.mod
  have hhW : h ∉ W := fun hm => (List.nodup_cons.mp hlist.nodup).1 (hW h hm)
  have hlen := @length_fileHead_le d i
  unfold withHeader
  rw [Mem.withJunk_freeList, Mem.withJunk_ram, hh, link_withJunk hWm hhm,
    overlay_withJunk fun k hk => not_hidden hWm hhm hhW (by omega)]
  rfl

lemma Program.withJunk (hl : Loadable D h Q s) (hp : Program i d D Q s.ram) (hW : ∀ q ∈ W, q ∈ Q) :
    Program i d D Q (Memory.withJunk W c s.ram) := by
  obtain ⟨hhead, hmagic, hfits, hroom⟩ := hp
  have hWm : ∀ q ∈ W, q % 4096 = 0 := fun q hq => (hl.list.page q (List.mem_cons_of_mem _ (hW q hq))).mod
  have hDW : D ∉ W := fun hm => hl.self (List.mem_cons_of_mem _ (hW D hm))
  have hfresh : ∀ j, Fresh s.ram D j → Fresh (Memory.withJunk W c s.ram) D j := fun j hj =>
    ⟨hj.1, by rw [entry_withJunk hWm hl.mod hDW (hj.1.trans (by decide))]; exact hj.2⟩
  refine ⟨hhead, hmagic, fun sg hsg => ?_, hroom⟩
  obtain ⟨hmapped, hcontents⟩ := hfits sg hsg
  exact ⟨fun va hva => hfresh _ (hmapped va hva), fun k hk => hfresh _ (hcontents k hk)⟩

/-- **What lies in the pages that are left** does not matter to the loader. -/
theorem loadProcess_withJunk (hl : Loadable D h Q s) (hp : Program i d D Q s.ram)
    (hrun : loadProcess D i d s = some (e, s'))
    (hleads : Leads (withHeader i d s).ram D Q T (loadAll D i d (programSegments i d))
      ⟨[], [], [], Q, fun _ => none⟩ (withHeader i d s) g s') (hW : ∀ q ∈ W, q ∈ g.rest) :
    loadProcess D i d (s.withJunk W c) = some (e, s'.withJunk W c) := by
  have hWQ : ∀ q ∈ W, q ∈ Q := fun q hq => hleads.rest q (hW q hq)
  obtain ⟨rfl, -⟩ := loadProcess_leads hl hp hrun
  have hload : loadAll D i d (programSegments i d) ((withHeader i d s).withJunk W c) =
      some (s'.withJunk W c) := (hleads.junk W c hW).some hleads.runs
  rw [loadProcess_eq_loadAll (hl.withJunk hWQ) (hp.withJunk hl hWQ),
    withHeader_withJunk hl hWQ, hload, Option.map_some]

lemma dirIdx_stackPage : dirIdx stackPage = 0x2ff := by decide

lemma mapStack_eq : mapStack D s = mapPage D stackPage s := by
  unfold mapStack mapPage
  rw [userStack_page]

/-- A page that has been mapped is reached through one of the tables that were made. -/
lemma walk_mapped {va : ℕ} (hg : Ground D Q) (hG : Grown m D Q g s) (hm : g.Mapped vas)
    (hfits : ∀ va ∈ vas, Fresh m D (dirIdx va)) (hva : pageNo va ∈ vas.map pageNo) :
    Fresh m D (dirIdx va) ∧ ∃ p ∈ g.frames, walk s.ram D va = some (userItem p) ∧
      target (entry s.ram D (dirIdx va)) ∈ g.tables := by
  obtain ⟨va₀, hva₀, hpage⟩ := List.mem_map.mp hva
  have hfresh : Fresh m D (dirIdx va) := by
    rw [(idx_of_pageNo hpage.symm).1]
    exact hfits va₀ hva₀
  obtain ⟨p, hp⟩ := Option.ne_none_iff_exists'.mp ((hm.space _).mpr hva)
  have hwalk := hG.walk va hfresh
  rw [hp, Option.map_some] at hwalk
  refine ⟨hfresh, p, hG.frame _ p hp, hwalk, ?_⟩
  rcases hG.dir_cases hg hfresh with ⟨-, hnot⟩ | ⟨-, t, ht, -, -, hself⟩
  · rw [walk_of_not hnot] at hwalk
    cases hwalk
  · exact hself.symm ▸ ht

/-- The stack in a table that was there before: it is in the header page by now. -/
lemma stacked_old (hg : Ground D Q) (hG : Grown m D Q g s) (hm : g.Mapped vas)
    (hfits : ∀ va ∈ vas, Fresh m D (dirIdx va)) (hh : h ∉ D :: Q) (hpres : Present (entry m D 0x2ff))
    (htgt : target (entry m D 0x2ff) = h) (hrest : g.rest = S :: rest) : Stacked D h vas g s S D := by
  have hS : S ∈ g.rest := hrest ▸ List.mem_cons_self ..
  obtain ⟨hSp, hSD, -, -⟩ := hG.of_rest hg hS
  obtain ⟨hhD, hhQ⟩ := List.ne_and_not_mem_of_not_mem_cons hh
  have hhm : h % 4096 = 0 := htgt ▸ target_mod _
  have hfree := hG.freeList_eq hrest
  have hentry : entry s.ram D 0x2ff = entry m D 0x2ff :=
    hG.others _ (by omega) fun hi => (hG.fresh _ hi).2 hpres
  rw [← hentry, ← dirIdx_stackPage] at hpres htgt
  have heq : mapStack D s = entrySet D stackPage S (allocPage s).2 := by
    rw [mapStack_eq, mapPage_of_present (by decide) hpres, hfree]
  have hoff : ∀ x, ¬ InPage h x → (mapStack D s).ram x = s.ram x := by
    intro x hx
    have hoff' : ¬ InPage (target (entry (allocPage s).2.ram D (dirIdx stackPage))) x := htgt.symm ▸ hx
    rw [heq, entrySet_of_off hoff']
    rfl
  have hkept : ∀ q, q % 4096 = 0 → q ≠ h → ∀ j < 1024, entry (mapStack D s).ram q j = entry s.ram q j :=
    fun q hq hqh j hj => entry_congr hj fun k hk => hoff _ (not_inPage_of_ne hhm hq hk hqh)
  have hstack : ∀ va, pageNo va = pageNo stackPage → walk (mapStack D s).ram D va = some (userItem S) := by
    intro va hva
    obtain ⟨hd, ht⟩ := idx_of_pageNo hva
    have hdir : entry (mapStack D s).ram D (dirIdx va) = entry s.ram D (dirIdx stackPage) := by
      rw [hd]
      exact hkept D hg.mod (Ne.symm hhD) _ (by decide)
    have hword : entry (mapStack D s).ram h (tableIdx va) = userItem S := by
      rw [ht, heq, ← htgt]
      exact entrySet_self
    rw [← hdir] at hpres htgt
    rw [walk_of_entries hpres htgt hword, if_pos present_itemWord]
  refine ⟨hSD.symm, fun W c hW => ?_, fun va hva => ?_, hstack⟩
  · obtain ⟨hWm, hDW, -, -⟩ := hG.junk_pages hg hW
    have hhW : h ∉ W := fun hhW => hhQ (hG.mem (List.mem_append_right _ (hW h hhW)))
    rw [filter_ne_eq_self hDW, mapStack_eq, mapStack_eq]
    exact mapPage_withJunk_of_present hWm hg.mod hDW (by decide) (hfree ▸ hSp.mod) hpres (htgt.symm ▸ hhW)
  · rw [List.map_append, List.mem_append, List.map_singleton, List.mem_singleton] at hva
    rcases hva with hva | hva
    · obtain ⟨hfresh, p, hp, hwalk, ht⟩ := walk_mapped hg hG hm hfits hva
      have hdir := hkept D hg.mod (Ne.symm hhD) (dirIdx va) (hfresh.1.trans (by decide))
      generalize hself : target (entry s.ram D (dirIdx va)) = t at ht
      have hth : t ≠ h := fun e =>
        hhQ (hG.mem (List.mem_append_left _ (List.mem_append_left _ (e ▸ ht))))
      refine ⟨p, List.mem_cons_of_mem _ hp, hwalk ▸ walk_congr hdir fun _ => ?_, ?_⟩
      · rw [hself]
        exact hkept t (hG.of_table hg ht).1.mod hth _ tableIdx_lt
      · rw [hdir, hself]
        exact List.mem_cons_of_mem _ (List.mem_cons_of_mem _ ht)
    · refine ⟨S, List.mem_cons_self .., hstack va hva, ?_⟩
      rw [(idx_of_pageNo hva).1, hkept D hg.mod (Ne.symm hhD) _ (by decide), htgt]
      exact List.mem_cons_self ..

/-- The stack is one more page of the program where there was no table for it. -/
lemma stackPage_maps (hg : Ground D Q) (hG : Grown m D Q g s) (hm : g.Mapped vas)
    (hfits : ∀ va ∈ vas, Fresh m D (dirIdx va)) (hfresh : Fresh m D (dirIdx stackPage))
    (hroom : pagesFor vas + 2 ≤ Q.length) (hrest : g.rest = S :: rest) :
    ∃ g', g.Maps stackPage S g' ∧
      (∀ va, pageNo va ∈ (vas ++ [stackPage]).map pageNo →
        ∃ p ∈ S :: g.frames, walk (mapStack D s).ram D va = some (userItem p) ∧
          target (entry (mapStack D s).ram D (dirIdx va)) ∈ g'.tables) ∧
      ∀ va, pageNo va = pageNo stackPage → walk (mapStack D s).ram D va = some (userItem S) := by
  have hmore : pagesFor (vas ++ [stackPage]) ≤ Q.length := by
    rw [pagesFor_concat]
    split <;> omega
  obtain ⟨p, g', hmaps, hG', -, -⟩ := hG.mapPage hg hfresh hm hmore
  obtain rfl : p = S := by
    rcases hmaps.table with ⟨-, -, -, h'⟩ | ⟨-, -, t, -, h'⟩
    · exact (List.cons_eq_cons.mp (h'.symm.trans hrest)).1
    · exact (List.cons_eq_cons.mp (h'.symm.trans hrest)).1
  rw [← mapStack_eq] at hG'
  refine ⟨g', hmaps, fun va hva => ?_, fun va hva => ?_⟩
  · have hall : ∀ va ∈ vas ++ [stackPage], Fresh m D (dirIdx va) := fun va hva =>
      (List.mem_append.mp hva).elim (hfits va) fun hva => List.mem_singleton.mp hva ▸ hfresh
    obtain ⟨-, q, hq, hwalk⟩ := walk_mapped hg hG' (hmaps.mapped hm) hall hva
    exact ⟨q, hmaps.frames ▸ hq, hwalk⟩
  · have hfr : Fresh m D (dirIdx va) := by
      rw [(idx_of_pageNo hva).1]
      exact hfresh
    have hwalk := hG'.walk va hfr
    rwa [hmaps.space, hva, Function.update_self] at hwalk

/-- The stack where there was no table when the loader began. -/
lemma stacked_fresh (hg : Ground D Q) (hG : Grown m D Q g s) (hm : g.Mapped vas)
    (hfits : ∀ va ∈ vas, Fresh m D (dirIdx va)) (hnot : ¬ Present (entry m D 0x2ff))
    (hroom : pagesFor vas + 2 ≤ Q.length) (hrest : g.rest = S :: rest) :
    ∃ t, Stacked D h vas g s S t := by
  have hfresh : Fresh m D (dirIdx stackPage) := ⟨by decide, dirIdx_stackPage ▸ hnot⟩
  obtain ⟨g', hmaps, hmapped, hstack⟩ := stackPage_maps hg hG hm hfits hfresh hroom hrest
  obtain ⟨hSp, hSD, -, -⟩ := hG.of_rest hg (hrest ▸ List.mem_cons_self .. : S ∈ g.rest)
  have hfree := hG.freeList_eq hrest
  rcases hmaps.table with ⟨hi, -, htables, -⟩ | ⟨hi, -, t, htables, hrest'⟩
  · -- a segment has a table there
    obtain ⟨hni, -⟩ | ⟨-, T, hT, -, hpres, htgt⟩ := hG.dir_cases hg hfresh
    · exact absurd hi hni
    refine ⟨D, hSD.symm, fun W c hW => ?_, fun va hva => ?_, hstack⟩
    · obtain ⟨hWm, hDW, hTW, -⟩ := hG.junk_pages hg hW
      rw [filter_ne_eq_self hDW, mapStack_eq, mapStack_eq]
      exact mapPage_withJunk_of_present hWm hg.mod hDW (by decide) (hfree ▸ hSp.mod) hpres (htgt ▸ hTW T hT)
    · obtain ⟨q, hq, hwalk, ht⟩ := hmapped va hva
      refine ⟨q, hq, hwalk, List.mem_cons_of_mem _ (List.mem_cons_of_mem _ ?_)⟩
      exact htables ▸ ht
  · -- a table is made of the page behind the one for the stack
    obtain ⟨-, hpres⟩ | ⟨hi', -⟩ := hG.dir_cases hg hfresh
    rotate_left
    · exact absurd hi' hi
    have htr : t ∈ g.rest := hrest' ▸ by simp
    have hnodup := (hG.pages hg).append.2.1.nodup
    have hlink := hG.freeList_next hrest'
    refine ⟨t, fun e => ?_, fun W c hW => ?_, fun va hva => ?_, hstack⟩
    · rw [hrest', e] at hnodup
      exact (List.nodup_cons.mp hnodup).1 (List.mem_cons_self ..)
    · obtain ⟨hWm, hDW, -, -⟩ := hG.junk_pages hg hW
      have hjunk := @mapPage_withJunk_of_not D stackPage s W c hWm hg.mod hDW (by decide)
        (hfree ▸ hSp.mod) hpres (hlink ▸ (hG.of_rest hg htr).1)
      rwa [hlink, ← mapStack_eq, ← mapStack_eq] at hjunk
    · obtain ⟨q, hq, hwalk, ht⟩ := hmapped va hva
      refine ⟨q, hq, hwalk, List.mem_cons_of_mem _ ?_⟩
      rw [htables] at ht
      exact ht

end Loader

/-! ### The system call -/

/-- The two states differ in nothing but what lies in the free pages `L`, behind their links. -/
structure Alike (L : List ℕ) (k k₂ : System) : Prop where
  others : k₂ = { k with mem := k₂.mem }
  freeList : k₂.mem.freeList = k.mem.freeList
  bytes : ∀ x, ¬ Hidden L x → k₂.mem.ram x = k.mem.ram x

/-- The pages that `sys_execve` maps: those of the segments, and the one for the stack. -/
def execPages (i : Inode) (d : Bytes) : List ℕ := programPages (programSegments i d) ++ [stackPage]

/-- The new program finds the same in its pages, whatever lies in the free pages before. -/
def NoLeak (junk : List UInt8 → List UInt8) (path : List UInt8) (ptr : IntrContext) (i : Inode)
    (k : System) : Prop :=
  ∀ L, FreePages k L → ∀ k₂, Alike L k k₂ → ∀ r r₂ k' k₂',
    sysExecve junk path ptr k = some (.started r, k') →
      sysExecve junk path ptr k₂ = some (.started r₂, k₂') →
        ∀ va, pageNo va ∈ (execPages i k.disk).map pageNo →
          load8 k₂'.proc.pagedir k₂'.mem.ram va = load8 k'.proc.pagedir k'.mem.ram va

/-- What a `sys_execve` has done that has started the program of the file: the pages `F` of the caller
have been given back, `h` is the header page, the segments have what `g` says and `S` is the page of the
stack. -/
structure Replaced (i : Inode) (L F Q : List ℕ) (h S t e : ℕ) (g : Growth) (s : Mem) (k : System) :
    Prop where
  emptied : Emptied L k.proc.pagedir k.mem F (freeProcessUserMem k.proc.pagedir k.mem)
  list : F.reverse ++ L = h :: Q
  taken : Q.length = pagesFor (programPages (programSegments i k.disk)) + g.rest.length
  rest : ∃ U, Q = U ++ g.rest
  first : ∃ rest, g.rest = S :: rest
  junk : ∀ W c, (∀ q ∈ W, q ∈ g.rest) → loadProcess k.proc.pagedir i k.disk
    ((freeProcessUserMem k.proc.pagedir k.mem).withJunk W c) = some (e, s.withJunk W c)
  stacked : Stacked k.proc.pagedir h (programPages (programSegments i k.disk)) g s S t
  apart : (∀ p ∈ h :: (g.tables ++ g.frames), p ∉ g.rest) ∧ k.proc.pagedir ∉ g.rest
  page : ∀ p ∈ S :: g.frames, IsPage p
  mod : ∀ q ∈ g.rest, q % 4096 = 0

section Recycled

variable {ram : Bytes} {junk pagedir : ℕ} {k k' k₂ : System} {L F Q W : List ℕ} {i : Inode} {c : Bytes}
  {junkStr : List UInt8 → List UInt8} {path : List UInt8} {ptr r : IntrContext} {h S t e : ℕ} {g : Growth}
  {s : Mem}

lemma Alike.eq (ha : Alike L k k₂) : k₂ = { k with mem := k.mem.withJunk L k₂.mem.ram } := by
  have hram : k₂.mem.ram = withJunk L k₂.mem.ram k.mem.ram := by
    funext x
    by_cases hx : Hidden L x
    · rw [withJunk_of_hidden hx]
    · rw [withJunk_of_not hx, ha.bytes x hx]
  have hmem : k₂.mem = k.mem.withJunk L k₂.mem.ram := by
    rw [Mem.withJunk, ← hram, ← ha.freeList]
  rw [← hmem]
  exact ha.others

/-- Junk in some of the free pages. -/
lemma alike_withJunk (hW : ∀ q ∈ W, q ∈ L) : Alike L k { k with mem := k.mem.withJunk W c } := by
  refine ⟨rfl, rfl, fun x hx => withJunk_of_not ?_⟩
  rintro ⟨q, hq, hlt⟩
  exact hx ⟨q, hW q hq, hlt⟩

/-- A program is started when it has been loaded, and its stack is there. -/
lemma sysExecve_loaded (hseek : seekFileInode junkStr path k.disk = some i)
    (hx : sysExecve junkStr path ptr k = some (.started r, k')) :
    k.proc.pid ≠ 0 ∧ i.mode = regularFile ∧ ∃ e s, e ≠ 0 ∧
      loadProcess k.proc.pagedir i k.disk (freeProcessUserMem k.proc.pagedir k.mem) = some (e, s) ∧
      k' = { k with mem := mapStack k.proc.pagedir s } := by
  rcases sysExecve_cases hx with ⟨hr, -, -⟩ | ⟨i', e, s, hseek', hexec⟩
  · cases hr
  · obtain rfl := Option.some_inj.mp (hseek.symm.trans hseek')
    have he : e ≠ 0 := by
      intro he
      cases (hexec.failed he).1
    exact ⟨hexec.pid, hexec.mode, e, s, he, hexec.load, (hexec.started he).2⟩

/-- **A file that suits the caller** is loaded from the pages of the caller and the free pages, in this
order. -/
theorem sysExecve_replaced (ht : KernelTables ram junk pagedir) (hs : Shared ram junk pagedir L k)
    (hlive : Live k k.current) (hsuit : Suits i L k) (he : e ≠ 0)
    (hload : loadProcess k.proc.pagedir i k.disk (freeProcessUserMem k.proc.pagedir k.mem) = some (e, s)) :
    ∃ F Q h S t g, Replaced i L F Q h S t e g s k := by
  have hspace := hs.owned.space _ hlive
  obtain ⟨F, hemptied⟩ := emptied hs.owned.free hspace
  have hhead := @freeProcessUserMem_head L k.proc.pagedir k.mem hs.owned.free hspace
  generalize hs₁ : freeProcessUserMem k.proc.pagedir k.mem = s₁ at hemptied hload hhead
  have hlen := length_emptied hemptied
  have hroom := hsuit.room
  obtain ⟨h, Q, hQ⟩ := List.exists_cons_of_length_pos (l := F.reverse ++ L) (by omega)
  rw [hQ, List.length_cons] at hlen
  have hl := hs.loadable ht hlive hemptied hQ
  -- a program is no program without the magic
  have helf : IsElf i k.disk := by
    by_contra helf
    obtain ⟨s₂, hh⟩ := loadProcess_reads hload
    rw [loadProcess_header hh (headerLoaded_magic (link_mod hl.free hl.list) helf hh)] at hload
    exact he (Prod.mk.inj (Option.some_inj.mp hload)).1.symm
  obtain ⟨hprog, hroom⟩ := hsuit.program helf hemptied hQ
  obtain ⟨-, g, hm, hleads, -⟩ := loadProcess_leads hl hprog hload
  have hg := hl.ground
  have hR := hl.read hprog.headed
  have hG := hleads.grown
  have hrest := hG.length_rest hm
  obtain ⟨S, rest, hS⟩ := List.exists_cons_of_length_pos (l := g.rest) (by omega)
  have hfits : ∀ va ∈ programPages (programSegments i k.disk),
      Fresh (withHeader i k.disk s₁).ram k.proc.pagedir (dirIdx va) := by
    intro va hva
    obtain ⟨sg, hsg, hmem⟩ := List.mem_flatMap.mp hva
    exact (hR.fits hl (hprog.fits sg hsg)).mapped va hmem
  obtain ⟨hhQ, hnodup⟩ := List.nodup_cons.mp hl.list.nodup
  have hhD : h ≠ k.proc.pagedir := fun e => hl.self (e ▸ List.mem_cons_self ..)
  have hdir : ∀ j < 1024, entry (withHeader i k.disk s₁).ram k.proc.pagedir j =
      entry k.mem.ram k.proc.pagedir j := fun j hj => by
    rw [← hemptied.entry j hj]
    exact entry_congr hj fun o ho =>
      hR.off _ (not_inPage_of_ne hl.linear.page.mod hl.mod ho hhD.symm)
  obtain ⟨t, hstacked⟩ : ∃ t, Stacked k.proc.pagedir h (programPages (programSegments i k.disk)) g s S t := by
    by_cases hpres : Present (entry k.mem.ram k.proc.pagedir 0x2ff)
    · refine ⟨_, stacked_old hg hG hm hfits ?_ (hdir 0x2ff (by omega) ▸ hpres) ?_ hS⟩
      · rw [List.mem_cons, not_or]
        exact ⟨hhD, hhQ⟩
      · rw [hdir 0x2ff (by omega), ← hhead hpres]
        exact hl.free.1
    · exact stacked_fresh hg hG hm hfits (hdir 0x2ff (by omega) ▸ hpres) (by omega) hS
  obtain ⟨U, hU, -⟩ := hG.used
  refine ⟨F, Q, h, S, t, g, by rw [hs₁]; exact hemptied, hQ, hrest, ⟨U, hU⟩, ⟨rest, hS⟩, ?_, hstacked,
    ⟨fun p hp => ?_, fun hm => ?_⟩, fun p hp => ?_, fun q hq => (hG.of_rest hg hq).1.mod⟩
  · intro W c hW
    rw [hs₁]
    exact loadProcess_withJunk hl hprog hload hleads hW
  · rcases List.mem_cons.mp hp with rfl | hp
    · exact fun hm => hhQ (hG.mem (List.mem_append_right _ hm))
    · rcases List.mem_append.mp hp with hp | hp
      · exact (hG.of_table hg hp).2.2.2
      · exact (hG.of_frame hg hp).2.2.2
  · exact (hG.of_rest hg hm).2.1 rfl
  · rcases List.mem_cons.mp hp with rfl | hp
    · exact (hG.of_rest hg (hS ▸ List.mem_cons_self ..)).1
    · exact (hG.of_frame hg hp).1

/-- The same call in a state with junk in pages that are not taken, but perhaps for the table of the
stack. -/
lemma Replaced.withJunk (hr : Replaced i L F Q h S t e g s k) (hfree : FreeList k.mem L 0)
    (hspace : PageList (userPages k.mem.ram k.proc.pagedir ++ L))
    (hseek : seekFileInode junkStr path k.disk = some i) (hpid : k.proc.pid ≠ 0)
    (hmode : i.mode = regularFile) (he : e ≠ 0) (hWL : ∀ q ∈ W, q ∈ L) (hW : ∀ q ∈ W, q ∈ g.rest) :
    ∃ r, sysExecve junkStr path ptr { k with mem := k.mem.withJunk W c } = some (.started r,
      { k with mem := (mapStack k.proc.pagedir s).withJunk (W.filter (· ≠ t)) c }) := by
  have hload := hr.junk W c hW
  rw [← freeProcessUserMem_withJunk hfree hspace hWL] at hload
  have hx := @sysExecve_started { k with mem := k.mem.withJunk W c } _ _ _ _ ptr _ hpid hseek hmode hload he
  have hstack : mapStack k.proc.pagedir (s.withJunk W c) =
      (mapStack k.proc.pagedir s).withJunk (W.filter (· ≠ t)) c := hr.stacked.junk W c hW
  rw [← hstack]
  exact ⟨_, hx⟩

lemma load8_of_walk {m : Bytes} {D va p : ℕ} (hva : va < 2 ^ 32) (hp : IsPage p)
    (hwalk : walk m D va = some (userItem p)) : load8 D m va = some (m (p + va % pageSize)) := by
  unfold load8
  rw [Nat.mod_eq_of_lt hva, hwalk, Option.map_some, target_userItem hp]

/-- The pages of the new program are where they are, with junk in the pages that are left. -/
lemma Replaced.walk (hr : Replaced i L F Q h S t e g s k) (hW : ∀ q ∈ W, q ∈ g.rest) {va : ℕ}
    (hva : pageNo va ∈ (execPages i k.disk).map pageNo) (hlt : va < 2 ^ 32) :
    Memory.walk (Memory.withJunk (W.filter (· ≠ t)) c (mapStack k.proc.pagedir s).ram) k.proc.pagedir va =
      Memory.walk (mapStack k.proc.pagedir s).ram k.proc.pagedir va := by
  obtain ⟨hapart, hdir⟩ := hr.apart
  have hsub : ∀ q ∈ W.filter (· ≠ t), q ∈ g.rest := fun q hq => hW q (List.mem_of_mem_filter hq)
  have hidx : dirIdx va < 1024 := by
    show va / 2 ^ 22 < 1024
    omega
  refine walk_withJunk (fun q hq => hr.mod q (hsub q hq)) hr.emptied.mod (fun hm => hdir (hsub _ hm)) hidx
    fun _ hm => ?_
  obtain ⟨p, -, -, htable⟩ := hr.stacked.mapped va hva
  rcases List.mem_cons.mp htable with he | htable
  · exact hapart h (List.mem_cons_self ..) (he ▸ hsub _ hm)
  rcases List.mem_cons.mp htable with he | htable
  · rw [he] at hm
    exact absurd (List.of_mem_filter hm) (by simp)
  · exact hapart _ (List.mem_cons_of_mem _ (List.mem_append_left _ htable)) (hsub _ hm)

/-- What the new program finds in its pages, with junk in the pages that are left. -/
lemma Replaced.load8 (hr : Replaced i L F Q h S t e g s k) (hW : ∀ q ∈ W, q ∈ g.rest) (hS : S ∉ W) {va : ℕ}
    (hva : pageNo va ∈ (execPages i k.disk).map pageNo) (hlt : va < 2 ^ 32) :
    Process.load8 k.proc.pagedir (Memory.withJunk (W.filter (· ≠ t)) c (mapStack k.proc.pagedir s).ram) va =
      Process.load8 k.proc.pagedir (mapStack k.proc.pagedir s).ram va := by
  obtain ⟨hapart, -⟩ := hr.apart
  obtain ⟨p, hp, hwalk, -⟩ := hr.stacked.mapped va hva
  have hpage := hr.page p hp
  have hpW : p ∉ W.filter (· ≠ t) := by
    intro hm
    have hpW := List.mem_of_mem_filter hm
    rcases List.mem_cons.mp hp with rfl | hp
    · exact hS hpW
    · exact hapart p (List.mem_cons_of_mem _ (List.mem_append_right _ hp)) (hW _ hpW)
  rw [load8_of_walk hlt hpage ((hr.walk hW hva hlt).trans hwalk), load8_of_walk hlt hpage hwalk]
  refine congrArg some (withJunk_of_not (not_hidden (fun q hq => ?_) hpage.mod hpW (Nat.mod_lt _ (by decide))))
  exact hr.mod q (hW q (List.mem_of_mem_filter hq))

/-- What it finds in the page of its stack is what lay there. -/
lemma Replaced.load8_stack (hr : Replaced i L F Q h S t e g s k) (hS : ∀ q ∈ [S], q ∈ g.rest) :
    Process.load8 k.proc.pagedir (mapStack k.proc.pagedir s).ram (stackPage + 4) =
      some ((mapStack k.proc.pagedir s).ram (S + 4)) ∧
    Process.load8 k.proc.pagedir (Memory.withJunk ([S].filter (· ≠ t)) c (mapStack k.proc.pagedir s).ram)
      (stackPage + 4) = some (c (S + 4)) := by
  have hpage := hr.page S (List.mem_cons_self ..)
  have hno : pageNo (stackPage + 4) = pageNo stackPage := by decide
  have hva : pageNo (stackPage + 4) ∈ (execPages i k.disk).map pageNo :=
    List.mem_map.mpr ⟨stackPage, List.mem_append_right _ (List.mem_singleton_self _), hno.symm⟩
  have hwalk := hr.stacked.stack _ hno
  have hlt : stackPage + 4 < 2 ^ 32 := by decide
  have htS : t ∉ [S] := fun hm => hr.stacked.other (List.mem_singleton.mp hm)
  have hoff : (stackPage + 4) % pageSize = 4 := by decide
  rw [load8_of_walk hlt hpage ((hr.walk hS hva hlt).trans hwalk), load8_of_walk hlt hpage hwalk,
    filter_ne_eq_self htS, hoff]
  refine ⟨rfl, congrArg some (withJunk_of_hidden ⟨S, List.mem_singleton_self S, le_rfl, ?_⟩)⟩
  simp only [pageSize]
  omega

/-- Which page the stack gets: one of the caller as long as there are enough. -/
lemma Replaced.stack_page (hr : Replaced i L F Q h S t e g s k) :
    (pagesFor (programPages (programSegments i k.disk)) + 3 ≤ (k.space k.current).length →
      S ∉ L ∧ ∀ q ∈ L, q ∈ g.rest) ∧
    (¬ pagesFor (programPages (programSegments i k.disk)) + 3 ≤ (k.space k.current).length → S ∈ L) := by
  have hlen := length_emptied hr.emptied
  obtain ⟨U, hU⟩ := hr.rest
  obtain ⟨rest, hS⟩ := hr.first
  have htaken := hr.taken
  have hlist := hr.list
  have hnodup := hr.emptied.list.nodup
  rw [hU, ← List.cons_append] at hlist
  rw [hU, List.length_append] at htaken
  rw [List.length_append, List.length_reverse] at hlen
  rcases List.append_eq_append_iff.mp hlist with ⟨as, hused, hL⟩ | ⟨cs, hF, hrest⟩
  · -- the pages of the caller have all been taken before
    have hcount := congrArg List.length hused
    rw [List.length_cons, List.length_append, List.length_reverse] at hcount
    refine ⟨fun hle => by omega, fun _ => ?_⟩
    rw [hL, hS]
    exact List.mem_append_right _ (List.mem_cons_self ..)
  · have hcount := congrArg List.length hF
    rw [List.length_reverse, List.length_append, List.length_cons] at hcount
    cases cs with
    | nil =>
      rw [List.nil_append] at hrest
      refine ⟨fun hle => ?_, fun _ => ?_⟩
      · rw [List.length_nil] at hcount
        omega
      · rw [← hrest, hS]
        exact List.mem_cons_self ..
    | cons q cs =>
      rw [hS, List.cons_append] at hrest
      obtain ⟨rfl, hrest⟩ := List.cons_eq_cons.mp hrest
      rw [List.length_cons] at hcount
      refine ⟨fun _ => ⟨fun hm => ?_, fun q hq => ?_⟩, fun hle => by omega⟩
      · refine (List.nodup_append'.mp hnodup).2.2 ?_ hm
        rw [hF]
        exact List.mem_append_right _ (List.mem_cons_self ..)
      · rw [hS, hrest]
        exact List.mem_cons_of_mem _ (List.mem_append_right _ hq)

/-- **The page of the stack** was free before, and nobody has written to it. -/
theorem leaks_stack (ht : KernelTables ram junk pagedir) (hs : Shared ram junk pagedir L k)
    (hlive : Live k k.current) (hseek : seekFileInode junkStr path k.disk = some i) (hsuit : Suits i L k)
    (hroom : ¬ pagesFor (programPages (programSegments i k.disk)) + 3 ≤ (k.space k.current).length)
    (hx : sysExecve junkStr path ptr k = some (.started r, k')) : ¬ NoLeak junkStr path ptr i k := by
  intro hleak
  obtain ⟨hpid, hmode, e, s, he, hload, rfl⟩ := sysExecve_loaded hseek hx
  obtain ⟨F, Q, h, S, t, g, hr⟩ := sysExecve_replaced ht hs hlive hsuit he hload
  have hSL : ∀ q ∈ [S], q ∈ L := fun q hq => List.mem_singleton.mp hq ▸ hr.stack_page.2 hroom
  have hSr : ∀ q ∈ [S], q ∈ g.rest := by
    obtain ⟨rest, hS⟩ := hr.first
    intro q hq
    rw [hS, List.mem_singleton.mp hq]
    exact List.mem_cons_self ..
  have hva : pageNo (stackPage + 4) ∈ (execPages i k.disk).map pageNo :=
    List.mem_map.mpr ⟨stackPage, List.mem_append_right _ (List.mem_singleton_self _), by decide⟩
  -- the same call, with all bytes of the page changed
  let c : Bytes := fun x => (mapStack k.proc.pagedir s).ram x + 1
  obtain ⟨r₂, hx₂⟩ := @Replaced.withJunk k L F Q [S] i c junkStr path ptr h S t e g s hr hs.owned.free
    (hs.owned.space _ hlive) hseek hpid hmode he hSL hSr
  obtain ⟨hold, hnew⟩ := @Replaced.load8_stack k L F Q i c h S t e g s hr hSr
  have hsame := hleak L hs.owned.freePages _ (alike_withJunk hSL) r r₂ _ _ hx hx₂ (stackPage + 4) hva
  have hbyte : c (S + 4) = (mapStack k.proc.pagedir s).ram (S + 4) :=
    Option.some_inj.mp (hnew.symm.trans (hsame.trans hold))
  simp [c] at hbyte

/-- **What a new program can read of others**: nothing if and only if its header, its segments with their
tables and its stack take no more pages than the caller had. -/
theorem noLeak_iff (ht : KernelTables ram junk pagedir) (hs : Shared ram junk pagedir L k)
    (hlive : Live k k.current) (hseek : seekFileInode junkStr path k.disk = some i) (hsuit : Suits i L k)
    (hx : sysExecve junkStr path ptr k = some (.started r, k')) :
    NoLeak junkStr path ptr i k ↔
      pagesFor (programPages (programSegments i k.disk)) + 3 ≤ (k.space k.current).length := by
  constructor
  · intro hleak
    by_contra hroom
    exact leaks_stack ht hs hlive hseek hsuit hroom hx hleak
  · intro hroom ℓ hℓ k₂ ha r₁ r₂ k₁' k₂' hx₁ hx₂ va hva
    obtain ⟨hpid, hmode, e, s, he, hload, rfl⟩ := sysExecve_loaded hseek hx
    obtain ⟨F, Q, h, S, t, g, hr⟩ := sysExecve_replaced ht hs hlive hsuit he hload
    obtain rfl := hℓ.unique hs.owned.freePages
    obtain ⟨hSL, hLr⟩ := hr.stack_page.1 hroom
    obtain ⟨r₃, hx₃⟩ := @Replaced.withJunk k ℓ F Q ℓ i k₂.mem.ram junkStr path ptr h S t e g s hr
      hs.owned.free (hs.owned.space _ hlive) hseek hpid hmode he (fun _ hq => hq) hLr
    rw [← ha.eq] at hx₃
    obtain ⟨-, rfl⟩ := Prod.mk.inj (Option.some_inj.mp (hx₂.symm.trans hx₃))
    obtain ⟨-, rfl⟩ := Prod.mk.inj (Option.some_inj.mp (hx₁.symm.trans hx))
    refine hr.load8 hLr hSL hva ?_
    obtain ⟨va₀, hva₀, hpage⟩ := List.mem_map.mp hva
    have hbelow : va₀ / 2 ^ 22 < 0x300 := by
      rcases List.mem_append.mp hva₀ with hva₀ | hva₀
      · obtain ⟨sg, hsg, hmem⟩ := List.mem_flatMap.mp hva₀
        exact ((hsuit.fits sg hsg).mapped va₀ hmem).1
      · rw [List.mem_singleton.mp hva₀]
        decide
    have hpage : va₀ / 2 ^ 12 = va / 2 ^ 12 := hpage
    omega

end Recycled

/-! ### A program that takes more -/

theorem noLeak_iff_plain : ∃ k i r k', Run Step Careful (kernelBoot plainDisk) childRuns k ∧
    sysExecve (fun _ => []) shellPath userFrame k = some (.started r, k') ∧
    NoLeak (fun _ => []) shellPath userFrame i k := by
  obtain ⟨k, L, i, r, k', hc, hsuit, hseek, hsegs, hx⟩ := plainChild
  have hcount : pagesFor (programPages (programSegments i k.disk)) = 2 := by
    rw [hsegs]
    decide +kernel
  have hiff := noLeak_iff kernelRam_tables hc.shared hc.live hseek hsuit hx
  rw [hcount] at hiff
  exact ⟨k, i, r, k', hc.run, hx, hiff.mpr hc.five⟩

/-- The words of a program of six segments, each with a page every 16 MiB. -/
def bigWord (k : ℕ) : ℕ :=
  if k < 13 then [elfMagic, 0, 0, 0, 0, 0, 0x400000, 52, 0, 0, 0, 6].getD k 0
  else if k < 61 then [loadSeg, 0, 0x400000, 0, 0, 0xbf000001].getD ((k - 13) % 8) 0
  else 0

abbrev bigDisk : Bytes := shellDisk bigWord

abbrev bigSegment : Segment := ⟨0, 0x400000, 0, 0xbf000001⟩

/-- The program finds what lay in the free page that has become its stack. -/
theorem execve_leaks : ¬ ∀ k₀ l k junk path ptr i, Begins kernelRam 0 0xc0020000 k₀ →
    Run Step Careful k₀ l k → seekFileInode junk path k.disk = some i → NoLeak junk path ptr i k := by
  intro hall
  obtain ⟨k, L, hc⟩ := @firstChild bigDisk (by decide +kernel)
  obtain ⟨i, hseek, hmode, helf, hlen, hphoff, hphnum, hentry, hsegs, hbytes⟩ := exists_of_any
    (P := fun i => i.mode = regularFile ∧ IsElf i bigDisk ∧ 244 ≤ (fileHead i bigDisk).length ∧
      get32 (cstr (fileHead i bigDisk)) 28 = 52 ∧ get16 (cstr (fileHead i bigDisk)) 44 = 6 ∧
      get32 (cstr (fileHead i bigDisk)) 24 = 0x400000 ∧
      programSegments i bigDisk = List.replicate 6 bigSegment ∧ bigSegment.bytes i bigDisk = some [])
    (o := seekFileInode (fun _ => []) shellPath bigDisk) (by decide +kernel)
  obtain ⟨hpages, hcount, hmapped⟩ : bigSegment.pages.isSome ∧ bigSegment.mapped.length = 192 ∧
      ∀ va ∈ bigSegment.mapped, dirIdx va < 0x300 ∧ dirIdx va ≠ 0 ∧ dirIdx va ≠ 0x2ff := by
    decide +kernel
  have hlength : (programPages (programSegments i bigDisk)).length = 1152 := by
    rw [hsegs, programPages, List.length_flatMap]
    simp only [List.map_replicate, List.sum_replicate, hcount]
    rfl
  have hsuit : Suits i L k := by
    refine hc.suits ⟨by omega, by rw [hphoff, hphnum]; omega⟩ (fun sg hsg => ?_) ?_
    · rw [hsegs] at hsg
      obtain rfl := List.eq_of_mem_replicate hsg
      exact ⟨hbytes, hmapped⟩
    · have hdirs := List.toFinset_card_le ((programPages (programSegments i bigDisk)).map dirIdx)
      rw [List.length_map] at hdirs
      unfold pagesFor
      omega
  rw [← hc.disk] at hseek helf hentry hsegs hbytes hlength
  obtain ⟨r, k', hx⟩ := @sysExecve_of_empty _ _ _ _ _ _ _ _ userFrame kernelRam_tables hc.shared hc.live
    hc.pid hseek hmode helf hsuit (by rw [hentry]; decide) fun sg hsg => by
      rw [hsegs] at hsg
      obtain rfl := List.eq_of_mem_replicate hsg
      exact ⟨hpages, hbytes⟩
  refine leaks_stack kernelRam_tables hc.shared hc.live hseek hsuit (fun hroom => ?_) hx
    (hall _ _ _ _ _ _ _ kernelBoot_begins hc.run hseek)
  have hsize := hc.small.size
  unfold pagesFor at hroom
  omega

end Nbos.Process
