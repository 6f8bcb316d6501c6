import Nbos.Memory.Mapping
import Nbos.Process.Execve

/-!
# Loading a segment

A segment of a program asks for pages, which are mapped first, and for bytes of the file, which are
copied to them through the tables of the process. `Segment.leads` says what becomes of memory when the
directory had no entries where the segment goes.
-/

namespace Nbos.Process

open Nbos.Lib Nbos.Kernel Nbos.Memory Nbos.Fs

/-- What a program header of type `LOAD_SEG` says. -/
@[ext] structure Segment where
  offset : ℕ
  vaddr : ℕ
  filesize : ℕ
  memsize : ℕ
  deriving DecidableEq

/-- The pages that `mapLoop` maps, if it ends. -/
def mapPages (vend : ℕ) : ℕ → ℕ → Option (List ℕ)
  | 0, _ => none
  | fuel + 1, va =>
    if va < vend then
      (mapPages vend fuel ((va + pageSize * pageSize) % 2 ^ 32)).map fun vas => va :: vas
    else some []

/-- The pages that are mapped for a segment, every 16 MiB. -/
def Segment.pages (sg : Segment) : Option (List ℕ) :=
  mapPages (alignUp (sg.vaddr + sg.memsize)) 257 (sg.vaddr &&& 0xfffff000)

/-- The bytes that are copied from the file for a segment. -/
def Segment.bytes (i : Inode) (d : Bytes) (sg : Segment) : Option (List UInt8) :=
  (readFileAtOffset i (Int.bmod sg.offset (2 ^ 32)) sg.vaddr sg.filesize d).map Prod.snd

/-- `storeBytes`, as a program. -/
def storeFile (dir va : ℕ) (bytes : List UInt8) (s : Mem) : Option Mem :=
  (storeBytes dir va bytes s.ram).map fun ram => ⟨ram, s.freeList⟩

/-- The body of the loop of `loadProcess` for a segment. -/
def Segment.load (dir : ℕ) (i : Inode) (d : Bytes) (sg : Segment) (s : Mem) : Option Mem :=
  (mapLoop dir (alignUp (sg.vaddr + sg.memsize)) 257 (sg.vaddr &&& 0xfffff000) s).bind fun s =>
    (sg.bytes i d).bind fun bytes => storeFile dir sg.vaddr bytes s

/-! ### What a segment changes -/

/-- The pages that are mapped, none if that does not end. -/
def Segment.mapped (sg : Segment) : List ℕ := sg.pages.getD []

/-- The bytes that are copied, none if they cannot be read. -/
def Segment.contents (i : Inode) (d : Bytes) (sg : Segment) : List UInt8 := (sg.bytes i d).getD []

/-- The program finds something else at the address `x` once the segment is loaded. -/
def Segment.Touches (i : Inode) (d : Bytes) (sg : Segment) (x : ℕ) : Prop :=
  pageNo x ∈ sg.mapped.map pageNo ∨ sg.vaddr ≤ x ∧ x < sg.vaddr + (sg.contents i d).length

/-- There is room for the segment in the user half: neither its pages nor its bytes are under an entry
of the directory that is there already. -/
structure Segment.Fits (m : Bytes) (dir : ℕ) (i : Inode) (d : Bytes) (sg : Segment) : Prop where
  mapped : ∀ va ∈ sg.mapped, Fresh m dir (dirIdx va)
  contents : ∀ k < (sg.contents i d).length, Fresh m dir (dirIdx (sg.vaddr + k))

section Segments

variable {m : Bytes} {D p va vend fuel : ℕ} {Q vas : List ℕ} {g g' : Growth} {s s' : Mem} {b : UInt8}
  {bs : List UInt8} {i : Inode} {d c : Bytes} {sg : Segment} {W : List ℕ}

lemma mapLoop_eq : mapLoop D vend fuel va s = (mapPages vend fuel va).map fun vas => mapAll D vas s := by
  induction fuel generalizing va s with
  | zero => rfl
  | succ fuel ih =>
    rw [mapLoop, mapPages]
    split
    · refine ih.trans ?_
      rw [Option.map_map]
      rfl
    · rfl

/-- A segment without bytes in the file. -/
lemma Segment.load_of_empty (hpages : sg.pages = some vas) (hbytes : sg.bytes i d = some []) :
    sg.load D i d s = some (mapAll D vas s) := by
  unfold Segment.pages at hpages
  unfold Segment.load
  rw [mapLoop_eq, hpages, hbytes]
  rfl

lemma addr_lt (h : Fresh m D (dirIdx va)) : va < 0xc0000000 := by
  have hlt : va / 2 ^ 22 < 0x300 := h.1
  omega

/-- What the program finds is what the processor reads. -/
lemma load8_image (hg : Ground D Q) (h : Grown m D Q g s) (hva : Fresh m D (dirIdx va)) :
    load8 D s.ram va = g.image s va := by
  have hlt := addr_lt hva
  have hmod : va % 2 ^ 32 = va := Nat.mod_eq_of_lt (by omega)
  unfold load8 Growth.image
  rw [hmod, h.walk va hva, Option.map_map]
  refine Option.map_congr fun q hq => ?_
  show s.ram (target (userItem q) + va % pageSize) = _
  rw [target_userItem (h.of_frame hg (h.frame _ q hq)).1]

/-- A byte is stored. -/
lemma image_update (hg : Ground D Q) (h : Grown m D Q g s) (hp : g.space (pageNo va) = some p)
    (x : ℕ) : g.image ⟨Function.update s.ram (p + va % pageSize) b, s.freeList⟩ x =
      if x = va then some b else g.image s x := by
  have hpm := (h.of_frame hg (h.frame _ p hp)).1.mod
  unfold Growth.image
  split
  · rename_i hx
    rw [hx, hp, Option.map_some]
    exact congrArg some (Function.update_self ..)
  · rename_i hx
    refine Option.map_congr fun q hq => Function.update_of_ne (fun he => hx ?_) _ _
    have hqm := (h.of_frame hg (h.frame _ q hq)).1.mod
    simp only [pageSize] at he hpm hqm
    have hqp : q = p := by omega
    have hpage : x / 2 ^ 12 = va / 2 ^ 12 := h.single _ _ p (hqp ▸ hq) hp
    omega

lemma storeFile_cons : storeFile D va (b :: bs) s = (walk s.ram D (va % 2 ^ 32)).bind fun pte =>
    storeFile D (va + 1) bs ⟨Function.update s.ram (target pte + va % pageSize) b, s.freeList⟩ := by
  unfold storeFile
  rw [storeBytes, Option.bind_eq_bind, Option.map_bind]
  rfl

lemma update_withJunk (h : ¬ Hidden W va) :
    Function.update (withJunk W c m) va b = withJunk W c (Function.update m va b) := by
  funext x
  by_cases hx : x = va
  · rw [hx, Function.update_self, withJunk_of_not h, Function.update_self]
  · rw [Function.update_of_ne hx]
    unfold withJunk
    rw [Function.update_of_ne hx]

/-- **Bytes are copied** to mapped pages. -/
theorem storeFile_leads (hg : Ground D Q) (h : Grown m D Q g s)
    (hfresh : ∀ k < bs.length, Fresh m D (dirIdx (va + k)))
    (hrun : storeFile D va bs s = some s') :
    Leads m D Q (fun x => va ≤ x ∧ x < va + bs.length) (storeFile D va bs) g s g s' ∧
      ∀ k (hk : k < bs.length), g.image s' (va + k) = some bs[k] := by
  induction bs generalizing va s with
  | nil =>
    obtain rfl := Option.some_inj.mp hrun
    exact ⟨⟨rfl, h, fun _ _ => rfl, fun _ hq => hq, fun _ _ _ => rfl⟩,
      fun k hk => absurd hk (Nat.not_lt_zero k)⟩
  | cons b bs ih =>
    have hva : Fresh m D (dirIdx va) := hfresh 0 (Nat.succ_pos _)
    have hlt := addr_lt hva
    have hmod : va % 2 ^ 32 = va := Nat.mod_eq_of_lt (by omega)
    have hcons : storeFile D va (b :: bs) s = some s' := hrun
    rw [storeFile_cons, hmod, h.walk va hva] at hcons
    obtain ⟨pte, hpte, hcons⟩ := Option.bind_eq_some_iff.mp hcons
    obtain ⟨p, hp, rfl⟩ := Option.map_eq_some_iff.mp hpte
    have hpf := h.frame _ p hp
    obtain ⟨hpage, -, -, -⟩ := h.of_frame hg hpf
    rw [target_userItem hpage] at hcons
    have hwrite : Grown m D Q g ⟨Function.update s.ram (p + va % pageSize) b, s.freeList⟩ := by
      refine h.write hg rfl fun x hx => Function.update_of_ne (fun e => hx p hpf ?_) _ _
      rw [e]
      exact ⟨Nat.le_add_right .., Nat.add_lt_add_left (Nat.mod_lt _ (by decide)) _⟩
    obtain ⟨hleads, hbytes⟩ := ih hwrite (fun k hk => by
      have := hfresh (k + 1) (Nat.succ_lt_succ hk)
      rwa [show va + (k + 1) = va + 1 + k by omega] at this) hcons
    have himage := image_update (b := b) hg h hp
    refine ⟨⟨hrun, hleads.grown, fun x hx => ?_, fun _ hq => hq, fun W c hW => ?_⟩, fun k hk => ?_⟩
    · rw [List.length_cons] at hx
      have hxva : x ≠ va := by
        rintro rfl
        exact hx ⟨le_rfl, by omega⟩
      rw [hleads.image x (fun h => hx ⟨by omega, by omega⟩), himage, if_neg hxva]
    · obtain ⟨hWm, hDW, hTW, hFW⟩ := h.junk_pages hg hW
      have hwalk : walk (withJunk W c s.ram) D va = walk s.ram D va := by
        refine walk_withJunk hWm hg.mod hDW (hva.1.trans (by decide)) fun hpres => ?_
        rcases h.dir_cases hg hva with ⟨-, hnp⟩ | ⟨-, t, ht, -, -, htgt⟩
        · exact absurd hpres hnp
        · exact htgt ▸ hTW t ht
      have hoff : ¬ Hidden W (p + va % pageSize) :=
        not_hidden hWm hpage.mod (hFW p hpf) (Nat.mod_lt _ (by decide))
      show storeFile D va (b :: bs) (s.withJunk W c) =
        (storeFile D va (b :: bs) s).map (Mem.withJunk W c)
      rw [storeFile_cons, storeFile_cons, hmod, Mem.withJunk_ram, hwalk, h.walk va hva, hp,
        Option.map_some, Option.bind_some, Option.bind_some, target_userItem hpage,
        update_withJunk hoff]
      exact hleads.junk W c hW
    · cases k with
      | zero =>
        have hself := hleads.image va (by omega)
        rw [himage, if_pos rfl] at hself
        exact hself
      | succ k =>
        rw [show va + (k + 1) = va + 1 + k by omega]
        exact hbytes k (Nat.lt_of_succ_lt_succ hk)

/-- **A segment is loaded**: its pages are mapped and its bytes are in them. -/
theorem Segment.leads (hg : Ground D Q) (hfits : sg.Fits m D i d) (h : Grown m D Q g s)
    (hm : g.Mapped vas) (hroom : pagesFor (vas ++ sg.mapped) ≤ Q.length)
    (hrun : sg.load D i d s = some s') :
    ∃ g', g'.Mapped (vas ++ sg.mapped) ∧ Leads m D Q (sg.Touches i d) (sg.load D i d) g s g' s' ∧
      ∀ k (hk : k < (sg.contents i d).length), g'.image s' (sg.vaddr + k) = some (sg.contents i d)[k] := by
  obtain ⟨s₁, hmap, hrest⟩ := Option.bind_eq_some_iff.mp hrun
  obtain ⟨bs, hbs, hstore⟩ := Option.bind_eq_some_iff.mp hrest
  have hcontents : sg.contents i d = bs := by rw [Segment.contents, hbs, Option.getD_some]
  rw [mapLoop_eq] at hmap
  obtain ⟨vas', hvas, rfl⟩ := Option.map_eq_some_iff.mp hmap
  have hmapped : sg.mapped = vas' := by
    rw [Segment.mapped, Segment.pages, hvas, Option.getD_some]
  obtain ⟨g', hm', hleads⟩ := h.mapAll hg (hmapped ▸ hfits.mapped) hm (hmapped ▸ hroom)
  obtain ⟨hleads', hbytes⟩ := storeFile_leads hg hleads.grown (hcontents ▸ hfits.contents) hstore
  refine ⟨g', hmapped ▸ hm', ?_, ?_⟩
  · have hcomp : Leads m D Q (sg.Touches i d) (fun s => (some (mapAll D vas' s)).bind
        (storeFile D sg.vaddr bs)) g s g' s' := by
      refine (hleads.comp hleads').mono fun x hx => ?_
      unfold Segment.Touches
      rw [hmapped, hcontents]
      exact hx
    refine ⟨hrun, hcomp.grown, hcomp.image, hcomp.rest, fun W c hW => ?_⟩
    have hload : ∀ s, sg.load D i d s = (some (mapAll D vas' s)).bind (storeFile D sg.vaddr bs) := by
      intro s
      unfold Segment.load
      rw [mapLoop_eq, hvas, hbs]
      rfl
    have hj := hcomp.junk W c hW
    unfold Commutes at hj ⊢
    rw [hload, hload]
    exact hj
  · subst hcontents
    exact hbytes

/-! ### All the segments -/

/-- The segments, one after the other. -/
def loadAll (dir : ℕ) (i : Inode) (d : Bytes) : List Segment → Mem → Option Mem
  | [], s => some s
  | sg :: sgs, s => (sg.load dir i d s).bind (loadAll dir i d sgs)

/-- The pages that are mapped for all of them. -/
def programPages (sgs : List Segment) : List ℕ := sgs.flatMap Segment.mapped

/-- Segments without bytes in the file. -/
lemma loadAll_of_empty {D : ℕ} {i : Inode} {d : Bytes} {s : Mem} {sgs : List Segment}
    (h : ∀ sg ∈ sgs, sg.pages.isSome ∧ sg.bytes i d = some []) :
    loadAll D i d sgs s = some (mapAll D (programPages sgs) s) := by
  induction sgs generalizing s with
  | nil => rfl
  | cons sg sgs ih =>
    obtain ⟨⟨hpages, hbytes⟩, hrest⟩ := List.forall_mem_cons.mp h
    obtain ⟨vas, hvas⟩ := Option.isSome_iff_exists.mp hpages
    have hmapped : sg.mapped = vas := by rw [Segment.mapped, hvas, Option.getD_some]
    have hpages : programPages (sg :: sgs) = vas ++ programPages sgs := by rw [← hmapped]; rfl
    rw [loadAll, Segment.load_of_empty hvas hbytes, Option.bind_some, ih hrest, hpages]
    unfold mapAll
    rw [List.foldl_append]

/-- The bytes of every segment are where it wants them, unless a later segment has been there. -/
def Contained (i : Inode) (d : Bytes) (g : Growth) (s : Mem) (sgs : List Segment) : Prop :=
  ∀ before sg after, sgs = before ++ sg :: after → ∀ k (hk : k < (sg.contents i d).length),
    (∀ sg' ∈ after, ¬ sg'.Touches i d (sg.vaddr + k)) →
      g.image s (sg.vaddr + k) = some (sg.contents i d)[k]

/-- **All segments are loaded**, one after the other. -/
theorem loadAll_leads {sgs : List Segment} (hg : Ground D Q) (hfits : ∀ sg ∈ sgs, sg.Fits m D i d)
    (h : Grown m D Q g s) (hm : g.Mapped vas) (hroom : pagesFor (vas ++ programPages sgs) ≤ Q.length)
    (hrun : loadAll D i d sgs s = some s') :
    ∃ g', g'.Mapped (vas ++ programPages sgs) ∧
      Leads m D Q (fun x => ∃ sg ∈ sgs, sg.Touches i d x) (loadAll D i d sgs) g s g' s' ∧
      Contained i d g' s' sgs := by
  induction sgs generalizing g s vas with
  | nil =>
    obtain rfl := Option.some_inj.mp hrun
    refine ⟨g, (List.append_nil vas).symm ▸ hm, ⟨rfl, h, fun _ _ => rfl, fun _ hq => hq, fun _ _ _ => rfl⟩,
      fun before sg after he => ?_⟩
    exact absurd he.symm (by simp)
  | cons sg sgs ih =>
    have hcons : vas ++ programPages (sg :: sgs) = (vas ++ sg.mapped) ++ programPages sgs := by
      rw [List.append_assoc]
      rfl
    rw [hcons] at hroom ⊢
    obtain ⟨s₁, hs₁, hrest⟩ := Option.bind_eq_some_iff.mp hrun
    obtain ⟨hfit, hfits⟩ := List.forall_mem_cons.mp hfits
    obtain ⟨g₁, hm₁, hleads₁, hbytes⟩ := Segment.leads hg hfit h hm (pagesFor_le_append.trans hroom) hs₁
    obtain ⟨g', hm', hleads, hcontained⟩ := ih hfits hleads₁.grown hm₁ hroom hrest
    refine ⟨g', hm', (hleads₁.comp hleads).mono fun x hx => ?_, fun before sg' after he k hk hlater => ?_⟩
    · rcases hx with hx | ⟨sg', hsg', hx⟩
      · exact ⟨sg, List.mem_cons_self .., hx⟩
      · exact ⟨sg', List.mem_cons_of_mem _ hsg', hx⟩
    · cases before with
      | nil =>
        obtain ⟨rfl, rfl⟩ := List.cons_eq_cons.mp he
        rw [hleads.image _ fun ⟨sg', hsg', hx⟩ => hlater sg' hsg' hx]
        exact hbytes k hk
      | cons sg₀ before =>
        obtain ⟨-, he⟩ := List.cons_eq_cons.mp he
        exact hcontained before sg' after he k hk hlater

end Segments

end Nbos.Process
