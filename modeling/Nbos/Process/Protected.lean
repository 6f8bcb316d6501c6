import Nbos.Process.FirstChild
import Nbos.Process.Loader

/-!
# What a program can do to the kernel

`loadProcess` takes the addresses of the segments as they stand in the file. `kernel_kept` says when
`sys_execve` leaves the kernel half of every process alone nevertheless: the segments have to go where
the caller has no table.
-/

namespace Nbos.Process

open Nbos.Lib Nbos.Kernel Nbos.Memory
open Nbos.Fs (seekFileInode cstr shellPath installedDisk writeBlock)

/-! ### The loader and the stack -/

section Loader

variable {i : Inode} {d : Bytes} {D h e : ℕ} {Q : List ℕ} {s s' : Mem}

lemma HeaderRead.userOnly (hR : HeaderRead i d D h Q s) :
    UserOnly (h :: Q) D s.ram (withHeader i d s).ram := fun x hx _ =>
  hR.off x (hx h (List.mem_cons_self ..))

/-- **The loader and the stack** stay in free pages and in the user half. -/
theorem loadProcess_userOnly (hl : Loadable D h Q s)
    (hp : IsElf i d → Program i d D Q s.ram ∧ pagesFor (programPages (programSegments i d)) + 2 ≤ Q.length)
    (hstack : Present (entry s.ram D 0x2ff) → target (entry s.ram D 0x2ff) ∈ h :: Q)
    (hrun : loadProcess D i d s = some (e, s')) :
    UserOnly (h :: Q) D s.ram (if e = 0 then s' else mapStack D s').ram := by
  obtain ⟨s₁, hh⟩ := loadProcess_reads hrun
  by_cases helf : IsElf i d
  · obtain ⟨hprog, hroom⟩ := hp helf
    obtain ⟨-, g', hm, hleads, -⟩ := loadProcess_leads hl hprog hrun
    have hR := hl.read hprog.headed
    have hG := hleads.grown
    have honly : UserOnly (h :: Q) D s.ram s'.ram :=
      hR.userOnly.trans (hG.userOnly.mono fun q hq => List.mem_cons_of_mem _ hq)
    split
    · exact honly
    · have hlen := hG.length_rest hm
      obtain ⟨S, rest, hrest⟩ := List.exists_cons_of_length_pos (l := g'.rest) (by omega)
      rw [hrest, List.length_cons] at hlen
      obtain ⟨F, rest, rfl⟩ := List.exists_cons_of_length_pos (l := rest) (by omega)
      have hF : F ∈ Q := hG.mem (List.mem_append_right _ (by rw [hrest]; simp))
      have hfree := hG.free
      rw [hrest] at hfree
      refine honly.trans (mapStack_userOnly hfree (hl.ground.list.page F hF) (List.mem_cons_of_mem _ hF)
        fun hpres => ?_)
      by_cases hi : 0x2ff ∈ g'.dirs
      · obtain ⟨t, ht, hitem⟩ := hG.table _ hi
        rw [hitem, target_userItem (hG.of_table hl.ground ht).1]
        exact List.mem_cons_of_mem _ (hG.mem (List.mem_append_left _ (List.mem_append_left _ ht)))
      · have hkept : entry s'.ram D 0x2ff = entry s.ram D 0x2ff := by
          rw [hG.others _ (by omega) hi]
          have hDh : D ≠ h := fun e => hl.self (e ▸ List.mem_cons_self ..)
          exact entry_congr (by omega) fun k hk =>
            hR.off _ (not_inPage_of_ne hl.linear.page.mod hl.mod hk hDh)
        rw [hkept] at hpres ⊢
        exact hstack hpres
  · have hmagic := headerLoaded_magic (link_mod hl.free hl.list) helf hh
    rw [loadProcess_header hh hmagic] at hrun
    obtain ⟨rfl, rfl⟩ := Prod.mk.inj (Option.some_inj.mp hrun)
    rw [if_pos rfl]
    exact fun x hx _ => headerLoaded_of_off hh (hl.free.1 ▸ hx h (List.mem_cons_self ..))

/-- **A file with one segment** is loaded when the segment is and leaves the header alone. -/
lemma OneSegment.loadProcess {e : ℕ} {sg : Segment} {s₂ s₃ : Mem} (hone : OneSegment i d e sg)
    (hl : Loadable D h Q s) (hload : headerLoaded i d s = some s₂)
    (hhead : ∀ x < (fileHead i d).length, s₂.ram (h + x) = cstr (fileHead i d) x)
    (hbyte : ∀ x < 4096, s₃.ram (h + x) = s₂.ram (h + x))
    (hseg : loadSegment D i d (h + 52) s₂ = some s₃) : loadProcess D i d s = some (e, s₃) := by
  have hlen := hone.length
  have hbelow := hl.linear.below
  simp only [pageSize] at hbelow
  have hword : ∀ a, a + 4 ≤ 84 → get32 s₂.ram (h + a) = get32 (cstr (fileHead i d)) a := fun a ha =>
    get32_congr fun k hk => by
      rw [Nat.add_assoc]
      exact hhead _ (by omega)
  have hphnum : ∀ m : Bytes, (∀ x < 4096, m (h + x) = s₂.ram (h + x)) → get16 m (h + 44) = 1 := by
    intro m hm
    rw [← hone.phnum]
    unfold get16
    rw [Nat.add_assoc, hm 44 (by omega), hm 45 (by omega), hhead 44 (by omega), hhead 45 (by omega)]
  have hmagic := hword 0 (by omega)
  rw [Nat.add_zero, hone.elf.magic hone.headed] at hmagic
  have hentry : get32 s₃.ram (h + 24) = e := by
    rw [← hone.entry, ← hword 24 (by omega)]
    refine get32_congr fun k hk => ?_
    rw [Nat.add_assoc]
    exact hbyte _ (by omega)
  rw [loadProcess_eq, hload, Option.bind_some, hl.free.1, if_neg (not_not.mpr hmagic), hword 28 (by omega),
    hone.phoff, Nat.mod_eq_of_lt (by omega), show (65536 : ℕ) = 65534 + 1 + 1 by rfl, loadLoop,
    hphnum _ fun x _ => rfl, if_pos (by omega), hseg, Option.bind_some, loadLoop, hphnum _ hbyte,
    if_neg (by omega), Option.map_some, hentry]

/-- A page mapped in a table that is there: nothing else is written. -/
lemma mapAll_old {V T : ℕ} {s : Mem} (hV : V < 2 ^ 32) (hpres : Present (entry s.ram D (dirIdx V)))
    (hT : target (entry s.ram D (dirIdx V)) = T) :
    (∀ x, ¬ InPage T x → (mapAll D [V] s).ram x = s.ram x) ∧
      Present (entry (mapAll D [V] s).ram T (tableIdx V)) ∧
      (mapAll D [V] s).freeList = (allocPage s).2.freeList := by
  have hmap : mapAll D [V] s = entrySet D V s.freeList (allocPage s).2 := mapPage_of_present hV hpres
  have hT' : target (entry (allocPage s).2.ram D (dirIdx V)) = T := hT
  rw [hmap]
  refine ⟨fun x hx => ?_, ?_, rfl⟩
  · rw [entrySet_of_off (hT' ▸ hx)]
    rfl
  · rw [← hT', entrySet_self]
    exact present_itemWord

/-- **A segment in the kernel half** is mapped in the table of the kernel. -/
lemma loadProcess_hijacks {V p T e : ℕ} {sg : Segment} (hl : Loadable D h (p :: Q) s)
    (hone : OneSegment i d e sg) (hpages : sg.pages = some [V]) (hbytes : sg.bytes i d = some [])
    (hV : V < 2 ^ 32) (hpres : Present (entry s.ram D (dirIdx V)))
    (hT : target (entry s.ram D (dirIdx V)) = T) (hTQ : T ∉ D :: h :: p :: Q)
    (hTh : T ≠ target (entry s.ram D (dirIdx h))) :
    ∃ s', loadProcess D i d s = some (e, s') ∧ FreeList s' Q 0 ∧
      (∀ j < 1024, entry s'.ram D j = entry s.ram D j) ∧ Present (entry s'.ram T (tableIdx V)) := by
  have hR := hl.read hone.headed
  have hload := headerLoaded_withHeader hone.headed hl
  have hlen := hone.length
  have hTm : T % 4096 = 0 := hT ▸ target_mod _
  obtain ⟨hTD, hTQ⟩ := List.ne_and_not_mem_of_not_mem_cons hTQ
  have hDh : D ≠ h := fun e => hl.self (e ▸ List.mem_cons_self ..)
  have hdir : ∀ j < 1024, entry (withHeader i d s).ram D j = entry s.ram D j := fun j hj =>
    entry_congr hj fun k hk => hR.off _ (not_inPage_of_ne hl.linear.page.mod hl.mod hk hDh)
  have hhead := hR.head
  have hfree := hR.free
  have hlinear := hR.linear
  have hsegs := hR.segments hone.headed
  generalize withHeader i d s = s₂ at hload hdir hhead hfree hlinear hsegs
  have hidx : dirIdx V < 1024 := by
    show V / 2 ^ 22 < 1024
    omega
  have hidxh : dirIdx h < 1024 := by
    have hlt := hl.linear.page.lt
    show h / 2 ^ 22 < 1024
    omega
  have hpres₂ : Present (entry s₂.ram D (dirIdx V)) := (hdir _ hidx).symm ▸ hpres
  -- what is done for the segment
  have hT₂ : target (entry s₂.ram D (dirIdx V)) = T := by
    rw [hdir _ hidx]
    exact hT
  obtain ⟨hoff, hset, hlist⟩ := mapAll_old hV hpres₂ hT₂
  have hentry : ∀ q, q % 4096 = 0 → q ≠ T → ∀ j < 1024,
      entry (mapAll D [V] s₂).ram q j = entry s₂.ram q j := fun q hq hqT j hj =>
    entry_congr hj fun k hk => hoff _ (not_inPage_of_ne hTm hq hk hqT)
  have hfree₃ : FreeList (mapAll D [V] s₂) Q 0 := by
    have halloc := hfree.alloc.2.2
    refine halloc.congr hlist fun q hq => ?_
    have hqm := (hl.list.page q (by simp [hq])).mod
    have hqT : q ≠ T := fun e => hTQ (e ▸ by simp [hq])
    exact hentry q hqm hqT 0 (by omega)
  have hlinear₃ : Linear (mapAll D [V] s₂).ram D (p :: Q) h := by
    refine hlinear.of_entries (hentry D hl.mod hTD.symm _ hidxh) ?_
    refine hentry _ (target_mod _) (fun e => hTh ?_) _ tableIdx_lt
    rw [← e, hdir _ hidxh]
  -- the header is there all the time
  have hbyte : ∀ x < 4096, (mapAll D [V] s₂).ram (h + x) = s₂.ram (h + x) := fun x hx =>
    hoff _ (not_inPage_of_ne hTm hl.linear.page.mod hx fun e => hTQ (e ▸ List.mem_cons_self ..))
  rw [hone.phnum, hone.phoff, hone.segments] at hsegs
  obtain ⟨htype, hsg⟩ : get32 (fun x => s₂.ram (h + x)) 52 = loadSeg ∧
      segmentAt (fun x => s₂.ram (h + x)) 52 = sg := by
    rw [segmentsFrom, segmentsFrom] at hsegs
    split at hsegs
    · rename_i htype
      exact ⟨htype, (List.cons_eq_cons.mp hsegs).1⟩
    · cases hsegs
  have hsg₃ : segmentAt (fun x => (mapAll D [V] s₂).ram (h + x)) 52 = sg := by
    rw [← hsg]
    exact segmentAt_congr fun x _ hx => hbyte x (by omega)
  have hseg : loadSegment D i d (h + 52) s₂ = some (mapAll D [V] s₂) := by
    have hload32 := hlinear.load32 (a := 52) (by omega)
    rw [htype] at hload32
    rw [loadSegment_eq_load hload32 (hlinear.headerAt (by omega) hsg) fun vas hvas => ?_]
    · rw [Segment.load_of_empty hpages hbytes]
    · obtain rfl := Option.some_inj.mp (hpages.symm.trans hvas)
      exact hlinear₃.headerAt (by omega) hsg₃
  refine ⟨mapAll D [V] s₂, hone.loadProcess hl hload hhead hbyte hseg, hfree₃, fun j hj => ?_, hset⟩
  rw [hentry D hl.mod hTD.symm j hj, hdir j hj]

end Loader

/-! ### The system call -/

/-- The file can be loaded in place of the program of the caller: its headers are in its first page, its
segments go where the caller has no table, and there are pages enough once those of the caller are
free: for the header, the segments, the stack and a table for it. -/
structure Suits (i : Inode) (L : List ℕ) (k : System) : Prop where
  headed : Headed i k.disk
  fits : ∀ sg ∈ programSegments i k.disk, sg.Fits k.mem.ram k.proc.pagedir i k.disk
  room : pagesFor (programPages (programSegments i k.disk)) + 4 ≤ (k.space k.current).length + L.length

/-- The caller is process 0, or the path is not that of a regular file, or the file is no ELF file, or
one that suits the caller. -/
def Harmless (junk : List UInt8 → List UInt8) (path : List UInt8) (k : System) : Prop :=
  k.proc.pid = 0 ∨ ∀ i, seekFileInode junk path k.disk = some i → i.mode = regularFile →
    ∀ L, FreePages k L → 2 ≤ (k.space k.current).length + L.length ∧ (IsElf i k.disk → Suits i L k)

/-- The kernel is as it was: every process finds every address of the kernel half where it was, with the
privilege that the directory and the table give it, and nothing is written but pages of the caller and
free pages. -/
structure KernelKept (k k' : System) : Prop where
  translation : ∀ p, p = 0 ∨ Live k p → ∀ va, kernelVirBase ≤ va → va < 2 ^ 32 →
    walk k'.mem.ram (k'.pcblist p).pagedir va = walk k.mem.ram (k.pcblist p).pagedir va
  directory : ∀ p, p = 0 ∨ Live k p → ∀ va, kernelVirBase ≤ va → va < 2 ^ 32 →
    entry k'.mem.ram (k'.pcblist p).pagedir (dirIdx va) = entry k.mem.ram (k.pcblist p).pagedir (dirIdx va)
  bytes : ∀ L, FreePages k L → ∀ x, Off (k.space k.current ++ L) x → k'.mem.ram x = k.mem.ram x

section Protected

variable {ram : Bytes} {junk pagedir h : ℕ} {k₀ k k' : System} {l : List Call} {F L Q : List ℕ} {s : Mem}
  {i : Inode} {junkStr : List UInt8 → List UInt8} {path : List UInt8} {ptr : IntrContext} {r : ExecResult}
  {e : ℕ} {sg : Segment} {vas : List ℕ}

lemma sysExecve_started (hpid : k.proc.pid ≠ 0) (hseek : seekFileInode junkStr path k.disk = some i)
    (hmode : i.mode = regularFile)
    (hload : loadProcess k.proc.pagedir i k.disk (freeProcessUserMem k.proc.pagedir k.mem) = some (e, s))
    (he : e ≠ 0) : sysExecve junkStr path ptr k =
      some (.started { ptr with esp := .ofNat userStackStart, eip := .ofNat e },
        { k with mem := mapStack k.proc.pagedir s }) := by
  have hregular : ¬ i.mode ≠ regularFile := not_not.mpr hmode
  simp only [sysExecve, if_neg hpid, hseek, Option.bind_eq_bind, Option.bind_some, if_neg hregular, hload,
    if_neg he]

/-- The pages that are free once the user half is given back. -/
lemma held_of_emptied (he : Emptied L k.proc.pagedir k.mem F s) (hlive : Live k k.current) :
    ∀ q ∈ F.reverse ++ L, Held L k q := by
  intro q hq
  rcases List.mem_append.mp hq with hq | hq
  · exact .inr ⟨_, hlive, List.mem_cons_of_mem _ (he.perm.mem_iff.mp (List.mem_reverse.mp hq))⟩
  · exact .inl hq

lemma length_emptied (he : Emptied L k.proc.pagedir k.mem F s) :
    (F.reverse ++ L).length + 1 = (k.space k.current).length + L.length := by
  have hspace : (k.space k.current).length = (tablesUpTo k.mem.ram k.proc.pagedir 0x300).length + 1 := rfl
  rw [List.length_append, List.length_reverse, he.perm.length_eq, hspace]
  omega

/-- The header page is where the kernel has it. -/
lemma Shared.loadable (ht : KernelTables ram junk pagedir) (hs : Shared ram junk pagedir L k)
    (hlive : Live k k.current) (he : Emptied L k.proc.pagedir k.mem F s)
    (hQ : F.reverse ++ L = h :: Q) : Loadable k.proc.pagedir h Q s := by
  have hheld := held_of_emptied he hlive
  have hpool : ∀ q ∈ k.proc.pagedir :: h :: Q, q ∈ Memory.pool (kernelEnd ram junk) := by
    refine List.forall_mem_cons.mpr ⟨hs.pool _ (.inr ⟨_, hlive, System.dir_mem_space⟩), fun q hq => ?_⟩
    exact hs.pool q (hheld q (hQ ▸ hq))
  have hfree := he.released.free
  have hlist := he.list
  have hself := he.self
  rw [hQ] at hfree hlist hself
  have hpage := hlist.page h (List.mem_cons_self ..)
  have hh := hpool h (List.mem_cons_of_mem _ (List.mem_cons_self ..))
  obtain ⟨-, hlt, -⟩ := mem_pool.mp hh
  rw [phyLimit_eq] at hlt
  have hlow := hpage.1
  simp only [kernelVirBase] at hlow
  have hidx : 0x300 ≤ dirIdx h ∧ dirIdx h < 1024 := by
    show 0x300 ≤ h / 2 ^ 22 ∧ h / 2 ^ 22 < 1024
    omega
  obtain ⟨hdir, hitem, hframe⟩ := ht.linear h hh
  have hD : entry s.ram k.proc.pagedir (dirIdx h) = entry ram pagedir (dirIdx h) :=
    (he.entry _ hidx.2).trans (hs.half _ (.inr hlive) _ hidx.1 hidx.2)
  have hT := ht.not_mem hidx.1 hidx.2 hdir
  have hTF : target (entry ram pagedir (dirIdx h)) ∉ F := fun hm =>
    hT (hpool _ (List.mem_cons_of_mem _ (hQ ▸ List.mem_append_left _ (List.mem_reverse.mpr hm))))
  have hreturn : Returnable F L := (he.list.of_perm (F.reverse_perm.append_right L)).returnable
  have hentry : entry s.ram (target (entry ram pagedir (dirIdx h))) (tableIdx h) =
      entry ram (target (entry ram pagedir (dirIdx h))) (tableIdx h) :=
    (he.released.entry_eq hreturn (target_mod _) hTF tableIdx_lt).trans
      (hs.tables _ hidx.1 hidx.2 hdir _ tableIdx_lt)
  refine ⟨hfree, hlist, he.mod, hself, hpage, ?_, hD ▸ hdir, ?_, ?_, ?_⟩
  · simp only [pageSize]
    omega
  · rw [hD]
    exact fun hm => hT (hpool _ hm)
  · rw [hD, hentry]
    exact hitem
  · rw [hD, hentry]
    exact hframe

/-- The file still has its place when the user half of the caller is given back. -/
lemma Suits.program (hsuit : Suits i L k) (helf : IsElf i k.disk)
    (he : Emptied L k.proc.pagedir k.mem F s) (hQ : F.reverse ++ L = h :: Q) :
    Program i k.disk k.proc.pagedir Q s.ram ∧
      pagesFor (programPages (programSegments i k.disk)) + 2 ≤ Q.length := by
  have hlen := length_emptied he
  rw [hQ, List.length_cons] at hlen
  have hroom := hsuit.room
  have hfresh : ∀ j, Fresh k.mem.ram k.proc.pagedir j → Fresh s.ram k.proc.pagedir j := fun j hj =>
    ⟨hj.1, by rw [he.entry j (hj.1.trans (by decide))]; exact hj.2⟩
  refine ⟨⟨hsuit.headed, helf.magic hsuit.headed, fun sg hsg => ?_, by omega⟩, by omega⟩
  obtain ⟨hmapped, hcontents⟩ := hsuit.fits sg hsg
  exact ⟨fun va hva => hfresh _ (hmapped va hva), fun j hj => hfresh _ (hcontents j hj)⟩

/-- **A harmless `sys_execve`** writes nothing but pages of the caller, free pages and the user half of
the directory. -/
theorem sysExecve_userOnly (ht : KernelTables ram junk pagedir) (hs : Shared ram junk pagedir L k)
    (hlive : k.proc.pid ≠ 0 → Live k k.current) (hharm : Harmless junkStr path k)
    (hx : sysExecve junkStr path ptr k = some (r, k')) :
    k' = k ∨ Live k k.current ∧ k' = { k with mem := k'.mem } ∧
      ∃ F s, Emptied L k.proc.pagedir k.mem F s ∧
        UserOnly (F.reverse ++ L) k.proc.pagedir k.mem.ram k'.mem.ram := by
  rcases sysExecve_cases hx with ⟨-, rfl, -⟩ | ⟨i, e, s', hseek, hexec⟩
  · exact .inl rfl
  obtain rfl := hexec.eq
  have hpid := hexec.pid
  have hload := hexec.load
  have hlive := hlive hpid
  obtain ⟨F, he⟩ := emptied hs.owned.free (hs.owned.space _ hlive)
  generalize freeProcessUserMem k.proc.pagedir k.mem = s at he hload
  obtain ⟨hone, hsuit⟩ := hharm.resolve_left hpid i hseek hexec.mode L hs.owned.freePages
  refine .inr ⟨hlive, rfl, F, s, he, ?_⟩
  have hlen := length_emptied he
  obtain ⟨h, Q, hQ⟩ := List.exists_cons_of_length_pos (l := F.reverse ++ L) (by omega)
  have hF : ∀ q ∈ F, q ∈ h :: Q := fun q hq => by
    rw [← hQ]
    exact List.mem_append_left _ (List.mem_reverse.mpr hq)
  have hfree : UserOnly (h :: Q) k.proc.pagedir k.mem.ram s.ram := fun x hx _ =>
    he.released.frame x (hx.of_subset hF)
  rw [hQ]
  refine hfree.trans (loadProcess_userOnly (hs.loadable ht hlive he hQ)
    (fun helf => (hsuit helf).program helf he hQ) (fun hp => hF _ (he.perm.mem_iff.mpr ?_)) hload)
  rw [he.entry 0x2ff (by omega)] at hp ⊢
  exact mem_tablesUpTo.mpr ⟨0x2ff, by omega, hp, .inl rfl⟩

/-- **The kernel is left alone** by a harmless `sys_execve`, whatever has happened before it. -/
theorem kernel_kept (ht : KernelTables ram junk pagedir) (hb : Begins ram junk pagedir k₀)
    (hrun : Run Step Careful k₀ l k) (hharm : Harmless junkStr path k)
    (hx : sysExecve junkStr path ptr k = some (r, k')) : KernelKept k k' := by
  obtain ⟨hk, L, hs⟩ := run_shared ht hb hrun
  have hlive : k.proc.pid ≠ 0 → Live k k.current := fun hpid =>
    hk.current_live.resolve_left fun h0 => hpid (by rw [System.proc, h0]; exact hk.table.rootPid)
  rcases sysExecve_userOnly ht hs hlive hharm hx with rfl | ⟨hlive, hk', F, s, he, honly⟩
  · exact ⟨fun _ _ _ _ _ => rfl, fun _ _ _ _ _ => rfl, fun _ _ _ _ => rfl⟩
  have hW : ∀ q ∈ F.reverse ++ L, q % 4096 = 0 := fun q hq => (he.list.page q hq).mod
  have hidx : ∀ va, kernelVirBase ≤ va → va < 2 ^ 32 → 0x300 ≤ va / 2 ^ 22 ∧ va / 2 ^ 22 < 1024 := by
    intro va hva hva'
    simp only [kernelVirBase] at hva
    omega
  have hdir : ∀ p, (k'.pcblist p).pagedir = (k.pcblist p).pagedir := fun p => by rw [hk']
  -- no directory is written but the user half of the caller's
  have hself : ∀ p, p = 0 ∨ Live k p → (k.pcblist p).pagedir ∉ F.reverse ++ L := fun p hp hm => by
    by_cases hpc : p = k.current
    · rw [hpc] at hm
      exact he.self hm
    rcases List.mem_append.mp hm with hm | hm
    · have hmem : (k.pcblist p).pagedir ∈ k.space k.current :=
        List.mem_cons_of_mem _ (he.perm.mem_iff.mp (List.mem_reverse.mp hm))
      rcases hp with rfl | hp
      · exact (hs.owned.rootApart _ hlive).self hmem
      · exact hs.owned.apart p _ hp hlive hpc System.dir_mem_space hmem
    · exact (hs.owned.apart_free hp).self hm
  refine ⟨fun p hp va hva hva' => ?_, fun p hp va hva hva' => ?_, fun K hK x hx => ?_⟩
  · obtain ⟨hlo, hhi⟩ := hidx va hva hva'
    rw [hdir]
    refine honly.walk_kernel hW he.mod (hs.owned.apart_free hp).mod (hself p hp) hlo hva' fun hpres => ?_
    rw [hs.half p hp _ hlo hhi] at hpres ⊢
    refine fun hm => ht.not_mem hlo hhi hpres (hs.pool _ ?_)
    rcases List.mem_cons.mp hm with hm | hm
    · exact hm ▸ .inr ⟨_, hlive, System.dir_mem_space⟩
    · exact held_of_emptied he hlive _ hm
  · obtain ⟨hlo, hhi⟩ := hidx va hva hva'
    rw [hdir]
    exact honly.entry_kernel hW he.mod (hs.owned.apart_free hp).mod (hself p hp) hlo hhi
  · obtain rfl := hK.unique hs.owned.freePages
    have hD : ¬ InPage k.proc.pagedir x := hx _ (List.mem_append_left _ System.dir_mem_space)
    unfold InPage at hD
    simp only [pageSize] at hD
    refine honly x (hx.of_subset fun q hq => ?_) (by omega)
    rcases List.mem_append.mp hq with hq | hq
    · exact List.mem_append_left _ (List.mem_cons_of_mem _ (he.perm.mem_iff.mp (List.mem_reverse.mp hq)))
    · exact List.mem_append_right _ hq

/-- A program without bytes in the file is started, if it suits. -/
lemma sysExecve_of_empty (ht : KernelTables ram junk pagedir) (hs : Shared ram junk pagedir L k)
    (hlive : Live k k.current) (hpid : k.proc.pid ≠ 0) (hseek : seekFileInode junkStr path k.disk = some i)
    (hmode : i.mode = regularFile) (helf : IsElf i k.disk) (hsuit : Suits i L k)
    (he : get32 (cstr (fileHead i k.disk)) 24 ≠ 0)
    (hempty : ∀ sg ∈ programSegments i k.disk, sg.pages.isSome ∧ sg.bytes i k.disk = some []) :
    ∃ r k', sysExecve junkStr path ptr k = some (.started r, k') := by
  obtain ⟨F, hemptied⟩ := emptied hs.owned.free (hs.owned.space _ hlive)
  generalize hs₁ : freeProcessUserMem k.proc.pagedir k.mem = s at hemptied
  have hlen := length_emptied hemptied
  have hroom := hsuit.room
  obtain ⟨h, Q, hQ⟩ := List.exists_cons_of_length_pos (l := F.reverse ++ L) (by omega)
  obtain ⟨hprog, -⟩ := hsuit.program helf hemptied hQ
  have hload := loadProcess_eq_loadAll (hs.loadable ht hlive hemptied hQ) hprog
  rw [loadAll_of_empty hempty, Option.map_some] at hload
  exact ⟨_, _, sysExecve_started hpid hseek hmode (by rw [hs₁]; exact hload) he⟩

end Protected

/-! ### Programs of the child -/

/-- The disk of a new system, with other words in the first block of the shell. -/
def shellDisk (w : ℕ → ℕ) : Bytes := writeBlock installedDisk (wordBytes w) 57

/-- A program of one page, at `0x400000`. -/
abbrev plainDisk : Bytes := shellDisk (elfWord 0x400000 0x400000 0 4096)

/-- A program of one page, where the kernel has the end of physical memory. -/
abbrev hostileDisk : Bytes := shellDisk (elfWord 0x400000 0xc2001000 0 1)

/-- A file whose segments have no bytes, and no pages that the first child has tables for, suits it. -/
lemma FirstChild.suits {disk : Bytes} {k : System} {L : List ℕ} {i : Inode} (hc : FirstChild disk L k)
    (hhead : Headed i disk)
    (hempty : ∀ sg ∈ programSegments i disk, sg.bytes i disk = some [] ∧
      ∀ va ∈ sg.mapped, dirIdx va < 0x300 ∧ dirIdx va ≠ 0 ∧ dirIdx va ≠ 0x2ff)
    (hroom : pagesFor (programPages (programSegments i disk)) ≤ 6837) : Suits i L k := by
  have hlen := hc.length
  have hd := hc.disk
  refine ⟨hd ▸ hhead, fun sg hsg => ?_, by rw [hd]; omega⟩
  rw [hd] at hsg ⊢
  obtain ⟨hbytes, hmapped⟩ := hempty sg hsg
  refine ⟨fun va hva => ?_, fun j hj => ?_⟩
  · obtain ⟨hlt, h0, hstack⟩ := hmapped va hva
    exact ⟨hlt, hc.ends _ hlt h0 hstack⟩
  · rw [Segment.contents, hbytes] at hj
    exact absurd hj (Nat.not_lt_zero j)

/-- The child starts the plain program. -/
lemma plainChild : ∃ k L i r k', FirstChild plainDisk L k ∧ Suits i L k ∧
    seekFileInode (fun _ => []) shellPath k.disk = some i ∧ programSegments i k.disk = [⟨0, 0x400000, 0, 4096⟩] ∧
    sysExecve (fun _ => []) shellPath userFrame k = some (.started r, k') := by
  obtain ⟨k, L, hc⟩ := @firstChild plainDisk (by decide +kernel)
  obtain ⟨i, hseek, hone, hbytes⟩ := exists_of_any
    (P := fun i => OneSegment i plainDisk 0x400000 ⟨0, 0x400000, 0, 4096⟩ ∧
      Segment.bytes i plainDisk ⟨0, 0x400000, 0, 4096⟩ = some [])
    (o := seekFileInode (fun _ => []) shellPath plainDisk) (by decide +kernel)
  have hpages : Segment.pages ⟨0, 0x400000, 0, 4096⟩ = some [0x400000] := by decide +kernel
  have hmapped : Segment.mapped ⟨0, 0x400000, 0, 4096⟩ = [0x400000] := by
    rw [Segment.mapped, hpages, Option.getD_some]
  have hsuit : Suits i L k := by
    refine hc.suits hone.headed (fun sg hsg => ?_) ?_
    · rw [hone.segments] at hsg
      obtain rfl := List.mem_singleton.mp hsg
      refine ⟨hbytes, fun va hva => ?_⟩
      rw [hmapped] at hva
      obtain rfl := List.mem_singleton.mp hva
      decide
    · rw [hone.segments, programPages, List.flatMap_singleton, hmapped]
      decide
  rw [← hc.disk] at hseek hone hbytes
  obtain ⟨r, k', hx⟩ := @sysExecve_of_empty _ _ _ _ _ _ _ _ userFrame kernelRam_tables hc.shared hc.live
    hc.pid hseek hone.regular hone.elf hsuit (by rw [hone.entry]; decide) fun sg hsg => by
      rw [hone.segments] at hsg
      obtain rfl := List.mem_singleton.mp hsg
      exact ⟨by rw [hpages]; rfl, hbytes⟩
  exact ⟨k, L, i, r, k', hc, hsuit, hseek, hone.segments, hx⟩

theorem kernel_kept_plain : ∃ k k' r, Run Step Careful (kernelBoot plainDisk) childRuns k ∧
    sysExecve (fun _ => []) shellPath userFrame k = some (.started r, k') ∧ KernelKept k k' := by
  obtain ⟨k, L, i, r, k', hc, hsuit, hseek, -, hx⟩ := plainChild
  refine ⟨k, k', _, hc.run, hx, kernel_kept kernelRam_tables kernelBoot_begins hc.run (.inr ?_) hx⟩
  intro i' hseek' _ K hK
  obtain rfl := Option.some_inj.mp (hseek.symm.trans hseek')
  obtain rfl := hK.unique hc.shared.owned.freePages
  have hlen := hc.length
  exact ⟨by omega, fun _ => hsuit⟩

section KernelHalf

variable {k : System} {L : List ℕ} {q j : ℕ}

/-- The table of the kernel for `0xc2000000` is no page of the pool, and the pages of the pool are below
that address. -/
lemma kernelTable_not_mem : 0xc0029000 ∉ pool (kernelEnd kernelRam 0) := by
  intro hm
  have hlow := (mem_pool.mp hm).1
  rw [alignUp_kernelRam] at hlow
  omega

lemma dirIdx_of_pool (h : q ∈ pool (kernelEnd kernelRam 0)) : 0x300 ≤ dirIdx q ∧ dirIdx q < 0x308 := by
  obtain ⟨hlow, hlt, -⟩ := mem_pool.mp h
  rw [alignUp_kernelRam] at hlow
  rw [phyLimit_eq] at hlt
  show 0x300 ≤ q / 2 ^ 22 ∧ q / 2 ^ 22 < 0x308
  omega

/-- The tables of the kernel in the directory of a process. -/
lemma Shared.target_half (hs : Shared kernelRam 0 0xc0020000 L k) (hlive : Live k k.current)
    (hj : 0x300 ≤ j) (hj' : j < 1024) :
    target (entry k.mem.ram k.proc.pagedir j) = 0xc0021000 + 4096 * (j - 0x300) := by
  rw [hs.half _ (.inr hlive) j hj hj', kernelRam_half hj hj', target_table (by omega)]

lemma Shared.present_half (hs : Shared kernelRam 0 0xc0020000 L k) (hlive : Live k k.current) :
    Present (entry k.mem.ram k.proc.pagedir 0x308) := by
  rw [hs.half _ (.inr hlive) _ (by omega) (by omega), kernelRam_half (by omega) (by omega)]
  decide

/-- The kernel itself maps nothing there. -/
lemma Shared.walk_eq_none (hs : Shared kernelRam 0 0xc0020000 L k) (hlive : Live k k.current) :
    walk k.mem.ram k.proc.pagedir 0xc2001000 = none := by
  have hidx : dirIdx 0xc2001000 = 0x308 := by decide
  have hitem : tableIdx 0xc2001000 = 1 := by decide
  by_contra hne
  have hp := (walk_ne_none (hidx.symm ▸ hs.present_half hlive)).mp hne
  have htable := hs.tables 0x308 (by omega) (by omega)
    (by rw [kernelRam_half (by omega) (by omega)]; decide) 1 (by omega)
  rw [kernelRam_half (by omega) (by omega), target_table (by omega)] at htable
  rw [hidx, hitem, hs.target_half hlive (by omega) (by omega), htable,
    kernelRam_table (t := 8) (by omega) (by omega), if_neg (by omega)] at hp
  exact absurd hp (by decide)

end KernelHalf

/-- A page for user mode appears in the kernel half of every process. -/
theorem execve_maps_kernel : ¬ ∀ k₀ l k k' junk path ptr r, Begins kernelRam 0 0xc0020000 k₀ →
    Run Step Careful k₀ l k → sysExecve junk path ptr k = some (r, k') → KernelKept k k' := by
  intro hall
  obtain ⟨k, L, hc⟩ := @firstChild hostileDisk (by decide +kernel)
  obtain ⟨i, hseek, hone, hbytes⟩ := exists_of_any
    (P := fun i => OneSegment i hostileDisk 0x400000 ⟨0, 0xc2001000, 0, 1⟩ ∧
      Segment.bytes i hostileDisk ⟨0, 0xc2001000, 0, 1⟩ = some [])
    (o := seekFileInode (fun _ => []) shellPath hostileDisk) (by decide +kernel)
  rw [← hc.disk] at hseek hone hbytes
  have hs := hc.shared
  have hlive := hc.live
  have ht := kernelRam_tables
  obtain ⟨F, he⟩ := emptied hs.owned.free (hs.owned.space _ hlive)
  generalize hs₁ : freeProcessUserMem k.proc.pagedir k.mem = s at he
  have hlen := length_emptied he
  have hL := hc.length
  obtain ⟨h, Q, hQ⟩ := List.exists_cons_of_length_pos (l := F.reverse ++ L) (by omega)
  rw [hQ, List.length_cons] at hlen
  obtain ⟨p, Q, rfl⟩ := List.exists_cons_of_length_pos (l := Q) (by omega)
  rw [List.length_cons] at hlen
  obtain ⟨S, Q, rfl⟩ := List.exists_cons_of_length_pos (l := Q) (by omega)
  rw [List.length_cons] at hlen
  obtain ⟨F₂, Q, rfl⟩ := List.exists_cons_of_length_pos (l := Q) (by omega)
  have hl := hs.loadable ht hlive he hQ
  have hpool : ∀ q ∈ k.proc.pagedir :: h :: p :: S :: F₂ :: Q, q ∈ pool (kernelEnd kernelRam 0) := by
    refine List.forall_mem_cons.mpr ⟨hs.pool _ (.inr ⟨_, hlive, System.dir_mem_space⟩), fun q hq => ?_⟩
    exact hs.pool q (held_of_emptied he hlive q (hQ ▸ hq))
  -- the table of the kernel that is written
  have hhalf : ∀ j, 0x300 ≤ j → j < 1024 →
      target (entry s.ram k.proc.pagedir j) = 0xc0021000 + 4096 * (j - 0x300) := by
    intro j hj hj'
    rw [he.entry j hj', hs.target_half hlive hj hj']
  have hidx : dirIdx 0xc2001000 = 0x308 := by decide
  have hitem : tableIdx 0xc2001000 = 1 := by decide
  have hpres : Present (entry s.ram k.proc.pagedir 0x308) := by
    rw [he.entry _ (by omega)]
    exact hs.present_half hlive
  have hT : target (entry s.ram k.proc.pagedir 0x308) = 0xc0029000 := hhalf 0x308 (by omega) (by omega)
  have hTQ : 0xc0029000 ∉ k.proc.pagedir :: h :: p :: S :: F₂ :: Q := fun hm =>
    kernelTable_not_mem (hpool _ hm)
  have hTh : 0xc0029000 ≠ target (entry s.ram k.proc.pagedir (dirIdx h)) := by
    have hh := dirIdx_of_pool (hpool h (by simp))
    rw [hhalf _ hh.1 (by omega)]
    omega
  obtain ⟨s', hload, hfree, hdir, hset⟩ := loadProcess_hijacks hl hone (by decide +kernel) hbytes
    (by omega) (hidx ▸ hpres) (hidx ▸ hT) hTQ hTh
  rw [hitem] at hset
  have hF₂ : F₂ ∈ h :: p :: S :: F₂ :: Q := by simp
  have hstack : UserOnly (h :: p :: S :: F₂ :: Q) k.proc.pagedir s'.ram (mapStack k.proc.pagedir s').ram := by
    refine mapStack_userOnly hfree (hl.list.page F₂ hF₂) hF₂ fun hp => ?_
    rw [hdir _ (by omega)] at hp ⊢
    rw [he.entry 0x2ff (by omega)] at hp ⊢
    rw [← hQ]
    refine List.mem_append_left _ (List.mem_reverse.mpr (he.perm.mem_iff.mpr ?_))
    exact mem_tablesUpTo.mpr ⟨0x2ff, by omega, hp, .inl rfl⟩
  have hmod : ∀ q ∈ h :: p :: S :: F₂ :: Q, q % 4096 = 0 := fun q hq => (hl.list.page q hq).mod
  have hx := @sysExecve_started _ _ _ _ _ userFrame _ hc.pid hseek hone.regular (by rw [hs₁]; exact hload)
    (by decide)
  have hkept := (hall _ _ _ _ _ _ _ _ kernelBoot_begins hc.run hx).translation k.current (.inr hlive)
    0xc2001000 (by decide) (by omega)
  -- the address is mapped now, and was not
  have hafter : walk (mapStack k.proc.pagedir s').ram k.proc.pagedir 0xc2001000 ≠ none := by
    have hdir' : entry (mapStack k.proc.pagedir s').ram k.proc.pagedir 0x308 =
        entry s.ram k.proc.pagedir 0x308 :=
      (hstack.entry_kernel hmod hl.mod hl.mod hl.self (by omega) (by omega)).trans (hdir _ (by omega))
    have hset' : entry (mapStack k.proc.pagedir s').ram 0xc0029000 1 = entry s'.ram 0xc0029000 1 :=
      hstack.entry_table hmod hl.mod (by omega) hTQ (by omega)
    refine (walk_ne_none (hidx.symm ▸ hdir'.symm ▸ hpres)).mpr ?_
    rw [hidx, hitem, hdir', hT, hset']
    exact hset
  exact hafter (hkept.trans (hs.walk_eq_none hlive))

end Nbos.Process
