import Nbos.Process.ExecFails
import Nbos.Process.Segments

/-!
# Loading a program

`loadProcess` reads the first page of the file to a free page and goes through the program headers in
it. Each time it reads the header again, through the tables of the process: it finds the same there as
long as the page is mapped by the kernel and no segment is loaded over it (`loadProcess_eq_loadAll`).
-/

namespace Nbos.Process

open Nbos.Lib Nbos.Kernel Nbos.Memory Nbos.Fs

/-! ### The program headers -/

/-- The segment of the program header at `ph`. -/
def segmentAt (hd : Bytes) (ph : ℕ) : Segment :=
  ⟨get32 hd (ph + 4), get32 hd (ph + 8), get32 hd (ph + 16), get32 hd (ph + 20)⟩

/-- The segments of the `n` program headers from `ph` on. -/
def segmentsFrom (hd : Bytes) : ℕ → ℕ → List Segment
  | 0, _ => []
  | n + 1, ph =>
    if get32 hd ph = loadSeg then segmentAt hd ph :: segmentsFrom hd n (ph + 32)
    else segmentsFrom hd n (ph + 32)

/-- What is read of the first page of the file. -/
def fileHead (i : Inode) (d : Bytes) : List UInt8 := ((readLoop i d pageSize 0).map Prod.snd).getD []

/-- The segments of the program. -/
def programSegments (i : Inode) (d : Bytes) : List Segment :=
  segmentsFrom (cstr (fileHead i d)) (get16 (cstr (fileHead i d)) 44) (get32 (cstr (fileHead i d)) 28)

/-- The ELF header and the program headers are in the first page of the file. -/
structure Headed (i : Inode) (d : Bytes) : Prop where
  header : 52 ≤ (fileHead i d).length
  programHeaders : get32 (cstr (fileHead i d)) 28 + 32 * get16 (cstr (fileHead i d)) 44 ≤
    (fileHead i d).length

/-- The page `h` is mapped where the kernel has it, by a table that is none of the pages `Q`. -/
structure Linear (m : Bytes) (D : ℕ) (Q : List ℕ) (h : ℕ) : Prop where
  page : IsPage h
  below : h + pageSize < 2 ^ 32
  dir : Present (entry m D (dirIdx h))
  table : target (entry m D (dirIdx h)) ∉ D :: Q
  item : Present (entry m (target (entry m D (dirIdx h))) (tableIdx h))
  frame : target (entry m (target (entry m D (dirIdx h))) (tableIdx h)) = h

/-- What `loadProcess` finds: the page `h` is the first of the free list, and is mapped. -/
structure Loadable (D h : ℕ) (Q : List ℕ) (s : Mem) : Prop where
  free : FreeList s (h :: Q) 0
  list : PageList (h :: Q)
  mod : D % 4096 = 0
  self : D ∉ h :: Q
  linear : Linear s.ram D (h :: Q) h

section Loader

variable {m hd hd' d : Bytes} {D h a n j ph fuel e : ℕ} {Q vas : List ℕ} {g g' : Growth} {s s' : Mem}
  {i : Inode} {sg : Segment} {c : Bytes} {W : List ℕ}

lemma Loadable.ground (hr : Loadable D h Q s) : Ground D Q :=
  ⟨hr.list.sublist (List.sublist_cons_self ..), hr.mod, fun hm => hr.self (List.mem_cons_of_mem _ hm)⟩

lemma segmentAt_congr (h : ∀ x, ph ≤ x → x < ph + 32 → hd x = hd' x) : segmentAt hd ph = segmentAt hd' ph := by
  have hword : ∀ a, ph ≤ a → a + 4 ≤ ph + 32 → get32 hd a = get32 hd' a := fun a _ ha =>
    get32_congr fun k hk => h _ (by omega) (by omega)
  unfold segmentAt
  rw [hword (ph + 4) (by omega) (by omega), hword (ph + 8) (by omega) (by omega),
    hword (ph + 16) (by omega) (by omega), hword (ph + 20) (by omega) (by omega)]

/-- The headers decide what the segments are. -/
lemma segmentsFrom_congr (h : ∀ x < ph + 32 * n, hd x = hd' x) :
    segmentsFrom hd n ph = segmentsFrom hd' n ph := by
  induction n generalizing ph with
  | zero => rfl
  | succ n ih =>
    have htype : get32 hd ph = get32 hd' ph := get32_congr fun k hk => h _ (by omega)
    rw [segmentsFrom, segmentsFrom, htype, segmentAt_congr fun x _ hx => h x (by omega),
      ih fun x hx => h x (by omega)]

/-! ### The header page -/

/-- A byte of the page, through the tables. -/
lemma Linear.load8 (hl : Linear m D Q h) {x : ℕ} (hx : x < 4096) :
    load8 D m (h + x) = some (m (h + x)) := by
  obtain ⟨hlow, hlt, hmod⟩ := hl.page
  have hbelow := hl.below
  simp only [pageSize, kernelVirBase] at hlow hmod hbelow
  have hdir : dirIdx (h + x) = dirIdx h := by
    show (h + x) / 2 ^ 22 = h / 2 ^ 22
    omega
  have htable : tableIdx (h + x) = tableIdx h := by
    show (h + x) / 2 ^ 12 % 1024 = h / 2 ^ 12 % 1024
    omega
  have hwalk : walk m D (h + x) = some (entry m (target (entry m D (dirIdx h))) (tableIdx h)) := by
    unfold walk
    simp only
    rw [show (h + x) / 2 ^ 22 = dirIdx h from hdir, if_pos hl.dir,
      show (h + x) / 2 ^ 12 % 1024 = tableIdx h from htable, if_pos hl.item]
  have hmod' : (h + x) % 2 ^ 32 = h + x := Nat.mod_eq_of_lt (by omega)
  unfold Process.load8
  rw [hmod', hwalk, Option.map_some, hl.frame]
  have hoff : h + (h + x) % pageSize = h + x := by
    simp only [pageSize]
    omega
  rw [hoff]

/-- A word of it. -/
lemma Linear.load32 (hl : Linear m D Q h) (ha : a + 4 ≤ 4096) :
    load32 D m (h + a) = some (get32 (fun x => m (h + x)) a) := by
  have hbyte : ∀ k < 4, Process.load8 D m (h + a + k) = some (m (h + (a + k))) := fun k hk => by
    rw [Nat.add_assoc]
    exact hl.load8 (by omega)
  have h0 := hbyte 0 (by omega)
  rw [Nat.add_zero] at h0
  unfold Process.load32
  rw [h0, hbyte 1 (by omega), hbyte 2 (by omega), hbyte 3 (by omega)]
  rfl

/-- It stays mapped as long as the two entries on the way are the same. -/
lemma Linear.of_entries {m' : Bytes} (hl : Linear m D Q h)
    (hD : entry m' D (dirIdx h) = entry m D (dirIdx h))
    (hT : entry m' (target (entry m D (dirIdx h))) (tableIdx h) =
      entry m (target (entry m D (dirIdx h))) (tableIdx h)) : Linear m' D Q h := by
  obtain ⟨hpage, hbelow, hdir, htable, hitem, hframe⟩ := hl
  refine ⟨hpage, hbelow, hD ▸ hdir, hD ▸ htable, ?_, ?_⟩
  · rw [hD, hT]
    exact hitem
  · rw [hD, hT]
    exact hframe

/-- The program header at `a` is one of the segment `sg`. -/
structure HeaderAt (dir : ℕ) (m : Bytes) (a : ℕ) (sg : Segment) : Prop where
  offset : load32 dir m (a + 4) = some sg.offset
  vaddr : load32 dir m (a + 8) = some sg.vaddr
  filesize : load32 dir m (a + 16) = some sg.filesize
  memsize : load32 dir m (a + 20) = some sg.memsize

lemma Linear.headerAt (hl : Linear m D Q h) (ha : a + 32 ≤ 4096)
    (hsg : segmentAt (fun x => m (h + x)) a = sg) : HeaderAt D m (h + a) sg := by
  subst hsg
  refine ⟨?_, ?_, ?_, ?_⟩
  · exact hl.load32 (a := a + 4) (by omega)
  · exact hl.load32 (a := a + 8) (by omega)
  · exact hl.load32 (a := a + 16) (by omega)
  · exact hl.load32 (a := a + 20) (by omega)

/-- The segment of a program header that can be read all the time is loaded. -/
lemma loadSegment_eq_load (htype : load32 D s.ram a = some loadSeg) (hsg : HeaderAt D s.ram a sg)
    (hmapped : ∀ vas, sg.pages = some vas → HeaderAt D (mapAll D vas s).ram a sg) :
    loadSegment D i d a s = sg.load D i d s := by
  unfold loadSegment
  rw [htype, Option.bind_eq_bind, Option.bind_some, if_pos rfl, hsg.vaddr, Option.bind_eq_bind,
    Option.bind_some, hsg.memsize, Option.bind_some]
  unfold Segment.load
  rw [mapLoop_eq]
  unfold Segment.pages at hmapped
  cases hpages : mapPages (alignUp (sg.vaddr + sg.memsize)) 257 (sg.vaddr &&& 0xfffff000) with
  | none => simp only [Option.map_none, Option.bind_none]
  | some vas =>
    obtain ⟨hoffset, hvaddr, hfilesize, -⟩ := hmapped vas hpages
    rw [Option.map_some, Option.bind_some, Option.bind_some, hoffset, Option.bind_some, hvaddr,
      Option.bind_some, hfilesize, Option.bind_some]
    unfold Segment.bytes
    rw [Option.bind_map]
    refine Option.bind_congr fun r _ => ?_
    exact Option.map_eq_bind.symm

/-! ### The header page while pages are mapped -/

variable (hg : Ground D Q) (hl : Linear m D Q h) (hD : h ≠ D) (hQ : h ∉ Q)

include hg hl hD hQ

/-- The header is read as it was. -/
lemma header_byte (hG : Grown m D Q g s) {x : ℕ} (hx : x < 4096) : s.ram (h + x) = m (h + x) :=
  hG.byte_eq hg hl.page.mod hQ hD hx

omit hD hQ in
/-- The page is still mapped where the kernel has it. -/
lemma header_linear (hG : Grown m D Q g s) : Linear s.ram D Q h := by
  have hlow := hl.page.1
  have hlt := hl.page.lt
  simp only [kernelVirBase] at hlow
  have hidx : 0x300 ≤ dirIdx h ∧ dirIdx h < 1024 := by
    show 0x300 ≤ h / 2 ^ 22 ∧ h / 2 ^ 22 < 1024
    omega
  obtain ⟨hTD, hTQ⟩ := List.ne_and_not_mem_of_not_mem_cons hl.table
  refine hl.of_entries (hG.others _ hidx.2 fun hm => ?_) (hG.entry_eq hg (target_mod _) hTQ hTD tableIdx_lt)
  exact absurd (hG.fresh _ hm).1 (by omega)

/-- The header says what it said. -/
lemma header_word (hG : Grown m D Q g s) (ha : a + 4 ≤ 4096) :
    get32 (fun x => s.ram (h + x)) a = get32 (fun x => m (h + x)) a :=
  get32_congr fun k hk => header_byte hg hl hD hQ hG (by omega)

lemma header_at (hG : Grown m D Q g s) (ha : a + 32 ≤ 4096) :
    HeaderAt D s.ram (h + a) (segmentAt (fun x => m (h + x)) a) :=
  (header_linear hg hl hG).headerAt ha
    (segmentAt_congr fun x _ hx => header_byte hg hl hD hQ hG (by omega))

/-- **One turn of the loop** loads the segment of the program header, if it is of one. -/
lemma loadSegment_eq (hG : Grown m D Q g s) (hm : g.Mapped vas) (ha : a + 32 ≤ 4096)
    (hfits : get32 (fun x => m (h + x)) a = loadSeg →
      (segmentAt (fun x => m (h + x)) a).Fits m D i d ∧
        pagesFor (vas ++ (segmentAt (fun x => m (h + x)) a).mapped) ≤ Q.length) :
    loadSegment D i d (h + a) s = if get32 (fun x => m (h + x)) a = loadSeg then
      (segmentAt (fun x => m (h + x)) a).load D i d s else some s := by
  have htype := (header_linear hg hl hG).load32 (a := a) (by omega)
  rw [header_word hg hl hD hQ hG (by omega)] at htype
  split
  · rename_i hload
    obtain ⟨hfit, hroom⟩ := hfits hload
    rw [hload] at htype
    refine loadSegment_eq_load htype (header_at hg hl hD hQ hG ha) fun vas' hpages => ?_
    -- the header says the same once the pages are mapped
    have hmapped := hfit.mapped
    unfold Segment.mapped at hmapped hroom
    rw [hpages, Option.getD_some] at hmapped hroom
    obtain ⟨g₁, -, hleads⟩ := hG.mapAll hg hmapped hm hroom
    exact header_at hg hl hD hQ hleads.grown ha
  · rename_i hload
    unfold loadSegment
    rw [htype, Option.bind_eq_bind, Option.bind_some, if_neg hload]

/-- **The loop** loads the segments of the program headers that are left. -/
lemma loadLoop_eq (hn : j + n = get16 (fun x => m (h + x)) 44) (hfuel : n < fuel)
    (ha : a + 32 * n ≤ 4096)
    (hfits : ∀ sg ∈ segmentsFrom (fun x => m (h + x)) n a, sg.Fits m D i d) (hG : Grown m D Q g s)
    (hm : g.Mapped vas)
    (hroom : pagesFor (vas ++ programPages (segmentsFrom (fun x => m (h + x)) n a)) ≤ Q.length) :
    loadLoop D i d h fuel j (h + a) s = loadAll D i d (segmentsFrom (fun x => m (h + x)) n a) s := by
  have hphnum : ∀ {g s}, Grown m D Q g s → get16 s.ram (h + 44) = get16 (fun x => m (h + x)) 44 := by
    intro g s hG
    have h44 := header_byte hg hl hD hQ hG (x := 44) (by omega)
    have h45 := header_byte hg hl hD hQ hG (x := 45) (by omega)
    unfold get16
    rw [h44, Nat.add_assoc, h45]
  induction n generalizing j a fuel g s vas with
  | zero =>
    obtain ⟨fuel, rfl⟩ := Nat.exists_eq_add_of_lt hfuel
    rw [Nat.zero_add, loadLoop, hphnum hG, if_neg (by omega)]
    rfl
  | succ n ih =>
    obtain ⟨fuel, rfl⟩ : ∃ f, fuel = f + 1 := ⟨fuel - 1, by omega⟩
    have hbelow := hl.below
    simp only [pageSize] at hbelow
    have hnext : (h + a + 32) % 2 ^ 32 = h + (a + 32) := by
      rw [Nat.add_assoc]
      exact Nat.mod_eq_of_lt (by omega)
    rw [loadLoop, hphnum hG, if_pos (by omega), hnext]
    rw [segmentsFrom] at hfits hroom ⊢
    by_cases hload : get32 (fun x => m (h + x)) a = loadSeg
    · rw [if_pos hload] at hfits hroom ⊢
      obtain ⟨hfit, hfits⟩ := List.forall_mem_cons.mp hfits
      have hcons : vas ++ programPages (segmentAt (fun x => m (h + x)) a ::
          segmentsFrom (fun x => m (h + x)) n (a + 32)) =
          (vas ++ (segmentAt (fun x => m (h + x)) a).mapped) ++
            programPages (segmentsFrom (fun x => m (h + x)) n (a + 32)) := by
        rw [List.append_assoc]
        rfl
      rw [hcons] at hroom
      rw [loadSegment_eq hg hl hD hQ hG hm (by omega) fun _ => ⟨hfit, pagesFor_le_append.trans hroom⟩,
        if_pos hload]
      refine Option.bind_congr fun s₁ hs₁ => ?_
      obtain ⟨g₁, hm₁, hleads, -⟩ := Segment.leads hg hfit hG hm (pagesFor_le_append.trans hroom) hs₁
      exact ih (by omega) (by omega) (by omega) hfits hleads.grown hm₁ hroom
    · rw [if_neg hload] at hfits hroom ⊢
      rw [loadSegment_eq hg hl hD hQ hG hm (by omega) fun he => absurd he hload, if_neg hload,
        Option.bind_some]
      exact ih (by omega) (by omega) (by omega) hfits hG hm hroom

omit hg hl hD hQ

/-! ### The whole of `loadProcess` -/

lemma length_fileHead_le : (fileHead i d).length ≤ 4096 := by
  unfold fileHead
  cases hread : readLoop i d pageSize 0 with
  | none => exact Nat.zero_le _
  | some r => exact length_readLoop_le (b := r.1) hread

/-- The memory once the first page of the file is read. -/
def withHeader (i : Inode) (d : Bytes) (s : Mem) : Mem :=
  ⟨overlay s.ram s.freeList (fileHead i d).length (cstr (fileHead i d)), get32 s.ram s.freeList⟩

/-- The first page of a file that has one is read. -/
lemma headerLoaded_withHeader (hhead : Headed i d) (hr : Loadable D h Q s) :
    headerLoaded i d s = some (withHeader i d s) := by
  have hbelow := hr.linear.below
  have hh : s.freeList = h := hr.free.1
  have hlen := hhead.header
  unfold fileHead at hlen
  unfold headerLoaded withHeader fileHead
  rw [readFileAtOffset, if_neg (by omega), if_neg (by omega), span, hh, if_pos hbelow]
  rw [Int.toNat_zero]
  cases hread : readLoop i d pageSize 0 with
  | none =>
    rw [hread, Option.map_none, Option.getD_none] at hlen
    exact absurd hlen (by decide)
  | some r =>
    simp only [Option.map_some, Option.getD_some, storeKernel_eq]

/-- A file that starts with the magic has it in its first page. -/
lemma IsElf.magic (he : IsElf i d) (hhead : Headed i d) : get32 (cstr (fileHead i d)) 0 = elfMagic := by
  have hlen := hhead.header
  unfold fileHead at hlen ⊢
  cases hread : readLoop i d pageSize 0 with
  | none =>
    rw [hread, Option.map_none, Option.getD_none, List.length_nil] at hlen
    omega
  | some r =>
    obtain ⟨b, bs⟩ := r
    rw [hread, Option.map_some, Option.getD_some] at hlen
    rw [Option.map_some, Option.getD_some]
    rcases readLoop_head (by decide) hread with rfl | ⟨-, -, hword⟩
    · rw [List.length_nil] at hlen
      omega
    · exact hword.trans he.2

/-- What `withHeader` leaves for the loop. -/
structure HeaderRead (i : Inode) (d : Bytes) (D h : ℕ) (Q : List ℕ) (s : Mem) : Prop where
  free : FreeList (withHeader i d s) Q 0
  linear : Linear (withHeader i d s).ram D Q h
  off : ∀ x, ¬ InPage h x → (withHeader i d s).ram x = s.ram x
  head : ∀ x < (fileHead i d).length, (withHeader i d s).ram (h + x) = cstr (fileHead i d) x

lemma Loadable.read (hhead : Headed i d) (hr : Loadable D h Q s) : HeaderRead i d D h Q s := by
  have hload := headerLoaded_withHeader hhead hr
  have hh : s.freeList = h := hr.free.1
  have hoff : ∀ x, ¬ InPage h x → (withHeader i d s).ram x = s.ram x := fun x hx =>
    headerLoaded_of_off hload (hh ▸ hx)
  have hDh : D ≠ h := fun e => hr.self (e ▸ List.mem_cons_self ..)
  obtain ⟨hpage, hbelow, hdir, htable, hitem, hframe⟩ := hr.linear
  have hhm : h % 4096 = 0 := hpage.mod
  have hentry : ∀ q, q % 4096 = 0 → q ≠ h → ∀ j < 1024,
      entry (withHeader i d s).ram q j = entry s.ram q j := fun q hq hqh j hj =>
    entry_congr hj fun k hk => hoff _ (not_inPage_of_ne hhm hq hk hqh)
  have hidx : dirIdx h < 1024 := by
    have hlt := hpage.lt
    show h / 2 ^ 22 < 1024
    omega
  have hD := hentry D hr.mod hDh _ hidx
  have htableh : target (entry s.ram D (dirIdx h)) ≠ h := fun e => htable (by simp [e])
  have hT := hentry _ (target_mod (entry s.ram D (dirIdx h))) htableh _ (@tableIdx_lt h)
  refine ⟨headerLoaded_free hr.free hr.list hload, ⟨hpage, hbelow, hD ▸ hdir, ?_, ?_, ?_⟩, hoff, ?_⟩
  · rw [hD]
    intro hm
    rcases List.mem_cons.mp hm with hm | hm
    · exact htable (List.mem_cons.mpr (.inl hm))
    · exact htable (List.mem_cons_of_mem _ (List.mem_cons_of_mem _ hm))
  · rw [hD, hT]
    exact hitem
  · rw [hD, hT]
    exact hframe
  · intro x hx
    unfold withHeader
    rw [hh]
    exact overlay_add hx

/-- The directory is as free as it was. -/
lemma HeaderRead.fresh (hR : HeaderRead i d D h Q s) (hr : Loadable D h Q s) :
    Fresh (withHeader i d s).ram D j ↔ Fresh s.ram D j := by
  have hDh : D ≠ h := fun e => hr.self (e ▸ List.mem_cons_self ..)
  refine and_congr_right fun hj => ?_
  rw [entry_congr (by omega) fun k hk => hR.off _ (not_inPage_of_ne hr.linear.page.mod hr.mod hk hDh)]

lemma HeaderRead.fits (hR : HeaderRead i d D h Q s) (hr : Loadable D h Q s)
    (hf : sg.Fits s.ram D i d) : sg.Fits (withHeader i d s).ram D i d :=
  ⟨fun va hva => (hR.fresh hr).mpr (hf.mapped va hva), fun k hk => (hR.fresh hr).mpr (hf.contents k hk)⟩

/-- The headers are those of the file. -/
lemma HeaderRead.segments (hhead : Headed i d) (hR : HeaderRead i d D h Q s) :
    segmentsFrom (fun x => (withHeader i d s).ram (h + x)) (get16 (cstr (fileHead i d)) 44)
      (get32 (cstr (fileHead i d)) 28) = programSegments i d :=
  segmentsFrom_congr fun x hx => hR.head x (hx.trans_le hhead.programHeaders)

lemma HeaderRead.start (hR : HeaderRead i d D h Q s) :
    Grown (withHeader i d s).ram D Q ⟨[], [], [], Q, fun _ => none⟩ (withHeader i d s) :=
  Grown.start hR.free

/-- A program can be loaded: it starts with the magic, its headers are in its first page, its segments
go where the directory has no entries, and there are pages for them. -/
structure Program (i : Inode) (d : Bytes) (D : ℕ) (Q : List ℕ) (m : Bytes) : Prop where
  headed : Headed i d
  magic : get32 (cstr (fileHead i d)) 0 = elfMagic
  fits : ∀ sg ∈ programSegments i d, sg.Fits m D i d
  room : pagesFor (programPages (programSegments i d)) ≤ Q.length

/-- **The loader loads the segments of the file**, one after the other. -/
theorem loadProcess_eq_loadAll (hr : Loadable D h Q s) (hp : Program i d D Q s.ram) :
    loadProcess D i d s = (loadAll D i d (programSegments i d) (withHeader i d s)).map fun s' =>
      (get32 (cstr (fileHead i d)) 24, s') := by
  obtain ⟨hhead, hmagic, hfits, hroom⟩ := hp
  have hh : s.freeList = h := hr.free.1
  have hR := hr.read hhead
  have hg := hr.ground
  have hD : h ≠ D := fun e => hr.self (e ▸ List.mem_cons_self ..)
  have hQ : h ∉ Q := (List.nodup_cons.mp hr.list.nodup).1
  have hlen := hhead.header
  have hword : ∀ a, a + 4 ≤ 52 → get32 (withHeader i d s).ram (h + a) = get32 (cstr (fileHead i d)) a :=
    fun a ha => get32_congr fun k hk => by
      rw [Nat.add_assoc]
      exact hR.head _ (by omega)
  have hphnum : get16 (fun x => (withHeader i d s).ram (h + x)) 44 = get16 (cstr (fileHead i d)) 44 := by
    have h44 := hR.head 44 (by omega)
    have h45 := hR.head 45 (by omega)
    unfold get16
    simp only [h44, h45]
  have hlast := @length_fileHead_le d i
  have hphoff : (h + get32 (cstr (fileHead i d)) 28) % 2 ^ 32 = h + get32 (cstr (fileHead i d)) 28 := by
    have hbelow := hr.linear.below
    have hin := hhead.programHeaders
    simp only [pageSize] at hbelow
    exact Nat.mod_eq_of_lt (by omega)
  have hmagic' := hword 0 (by omega)
  rw [Nat.add_zero, hmagic] at hmagic'
  have hn : get16 (cstr (fileHead i d)) 44 < 65536 := by
    unfold get16
    have h0 := (cstr (fileHead i d) 44).toNat_lt
    have h1 := (cstr (fileHead i d) (44 + 1)).toNat_lt
    omega
  have hfits' : ∀ sg ∈ programSegments i d, sg.Fits (withHeader i d s).ram D i d := fun sg hsg =>
    hR.fits hr (hfits sg hsg)
  have hloop : loadLoop D i d h 65536 0 (h + get32 (cstr (fileHead i d)) 28) (withHeader i d s) =
      loadAll D i d (programSegments i d) (withHeader i d s) := by
    have hin := hhead.programHeaders.trans hlast
    rw [← hR.segments hhead] at hfits' hroom ⊢
    exact loadLoop_eq hg hR.linear hD hQ (by rw [Nat.zero_add, hphnum]) hn hin hfits' hR.start
      Growth.Mapped.start hroom
  rw [loadProcess_eq, headerLoaded_withHeader hhead hr, Option.bind_some, hh, if_neg (not_not.mpr hmagic'),
    hword 28 (by omega), hphoff, hloop]
  refine Option.map_congr fun s' hs' => ?_
  obtain ⟨g', -, hleads, -⟩ := loadAll_leads hg hfits' hR.start Growth.Mapped.start hroom hs'
  have hentry : get32 s'.ram (h + 24) = get32 (withHeader i d s).ram (h + 24) := by
    refine get32_congr fun k hk => ?_
    rw [Nat.add_assoc]
    exact header_byte hg hR.linear hD hQ hleads.grown (by omega)
  rw [hentry, hword 24 (by omega)]

/-- What has become of memory when the program is loaded. -/
theorem loadProcess_leads (hr : Loadable D h Q s) (hp : Program i d D Q s.ram)
    (hrun : loadProcess D i d s = some (e, s')) :
    e = get32 (cstr (fileHead i d)) 24 ∧ ∃ g', g'.Mapped (programPages (programSegments i d)) ∧
      Leads (withHeader i d s).ram D Q (fun x => ∃ sg ∈ programSegments i d, sg.Touches i d x)
        (loadAll D i d (programSegments i d)) ⟨[], [], [], Q, fun _ => none⟩ (withHeader i d s) g' s' ∧
      Contained i d g' s' (programSegments i d) := by
  rw [loadProcess_eq_loadAll hr hp] at hrun
  obtain ⟨s₂, hs₂, he⟩ := Option.map_eq_some_iff.mp hrun
  obtain ⟨rfl, rfl⟩ := Prod.mk.inj he
  have hR := hr.read hp.headed
  exact ⟨rfl, loadAll_leads hr.ground (fun sg hsg => hR.fits hr (hp.fits sg hsg)) hR.start
    Growth.Mapped.start hp.room hs₂⟩

end Loader

/-! ### Programs of one segment -/

/-- The words of a program of one segment. -/
def elfWord (entry vaddr filesize memsize k : ℕ) : ℕ :=
  [elfMagic, 0, 0, 0, 0, 0, entry, 52, 0, 0, 0, 1, 0, loadSeg, 0, vaddr, 0, filesize, memsize].getD k 0

/-- The file is a program of one segment, with its program header behind the ELF header. -/
structure OneSegment (i : Inode) (d : Bytes) (e : ℕ) (sg : Segment) : Prop where
  regular : i.mode = regularFile
  elf : IsElf i d
  length : 84 ≤ (fileHead i d).length
  phoff : get32 (cstr (fileHead i d)) 28 = 52
  phnum : get16 (cstr (fileHead i d)) 44 = 1
  entry : get32 (cstr (fileHead i d)) 24 = e
  segments : programSegments i d = [sg]

instance (i : Inode) (d : Bytes) (e : ℕ) (sg : Segment) : Decidable (OneSegment i d e sg) :=
  decidable_of_iff (i.mode = regularFile ∧ IsElf i d ∧ 84 ≤ (fileHead i d).length ∧
    get32 (cstr (fileHead i d)) 28 = 52 ∧ get16 (cstr (fileHead i d)) 44 = 1 ∧
    get32 (cstr (fileHead i d)) 24 = e ∧ programSegments i d = [sg])
    ⟨fun ⟨h1, h2, h3, h4, h5, h6, h7⟩ => ⟨h1, h2, h3, h4, h5, h6, h7⟩,
      fun ⟨h1, h2, h3, h4, h5, h6, h7⟩ => ⟨h1, h2, h3, h4, h5, h6, h7⟩⟩

lemma OneSegment.headed {i : Inode} {d : Bytes} {e : ℕ} {sg : Segment} (h : OneSegment i d e sg) :
    Headed i d := by
  have hlen := h.length
  exact ⟨by omega, by rw [h.phoff, h.phnum]; omega⟩

end Nbos.Process
