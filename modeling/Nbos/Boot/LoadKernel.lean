import Nbos.Boot.Loader
import Nbos.Process.Loader

/-!
# Loading the kernel

`loader_main` of `loader.c` reads the first page of the kernel to `0x9000` and then the segments to where
they go, header by header from the page in memory. `loaderMain_loads` says when the image in memory is
that of the file, and that `init_memory`, which goes by the same page later, finds the end of the kernel
there.
-/

namespace Nbos.Boot

open Nbos.Lib Nbos.Kernel Nbos.Memory
open Nbos.Process (Segment segmentAt segmentsFrom segmentsFrom_congr elfMagic loadSeg)

/-! ### The source -/

abbrev kernelSector : UInt32 := 6

/-- Where `loader_main` puts the ELF header of the kernel. -/
abbrev elfHeaderAt : ℕ := 0x9000

/-- The loop of `loader_main`, at the program header number `i`, which is at `ph`. -/
def loadSegs (d : Bytes) (i ph : ℕ) (m : Bytes) : Option Bytes :=
  if i < get16 m (elfHeaderAt + 44) then
    if get32 m ph = loadSeg then
      let pa := vir2Phy (get32 m (ph + 8))
      match readSeg d pa (get32 m (ph + 16)) kernelSector (.ofNat (get32 m (ph + 4))) m with
      | none => none
      | some m => loadSegs d (i + 1) ((ph + 32) % 2 ^ 32) m
    else loadSegs d (i + 1) ((ph + 32) % 2 ^ 32) m
  else some m
termination_by 2 ^ 16 - i
decreasing_by
  all_goals
    rw [get16_eq] at *
    omega

/-- `loader_main`: memory, and the address that it calls, if it does not give up. -/
def loaderMain (d m : Bytes) : Option (Option ℕ × Bytes) := do
  let eh := elfHeaderAt
  let m ← readSeg d eh pageSize kernelSector 0 m
  if get32 m eh ≠ elfMagic then some (none, m)
  else
    let ph := (eh + get32 m (eh + 28)) % 2 ^ 32
    let m ← loadSegs d 0 ph m
    some (some (vir2Phy (get32 m (eh + 24))), m)

/-! ### The image -/

/-- The file of the kernel on the disk. -/
def kernelFile (d : Bytes) : Bytes := fun x => d (sectorSize * kernelSector.toNat + x)

/-- Its segments. -/
def kernelSegments (d : Bytes) : List Segment :=
  segmentsFrom (kernelFile d) (get16 (kernelFile d) 44) (get32 (kernelFile d) 28)

/-- Where the loader puts a segment. -/
def physAddr (sg : Segment) : ℕ := vir2Phy sg.vaddr

/-- The bytes of the segment are those of the file. -/
def Loads (f : Bytes) (sg : Segment) (m : Bytes) : Prop :=
  ∀ k < sg.filesize, m (physAddr sg + k) = f (sg.offset + k)

/-- The loader does not write the address `x` for the segment: it reads whole sectors. -/
def Clear (x : ℕ) (sg : Segment) : Prop :=
  x < physAddr sg - sg.offset % sectorSize ∨
    physAddr sg - sg.offset % sectorSize + sectorSize * sectors sg.filesize ≤ x

/-- `read_seg` gets the whole segment. -/
structure Whole (sg : Segment) : Prop where
  offset : sg.offset < 2 ^ 32
  noWrap : NoWrap (physAddr sg) sg.filesize (.ofNat sg.offset)
  covers : sg.filesize = 0 ∨ Covers 28 sg.filesize kernelSector (.ofNat sg.offset)

/-- Segments that can be loaded one after the other, with the page of the headers in memory. The code of
the loader (from `0x7e00` on) and its stack are not part of the model: nothing here keeps a segment off
them. -/
structure Loadable (segs : List Segment) : Prop where
  whole : ∀ sg ∈ segs, Whole sg
  header : ∀ sg ∈ segs, ∀ k < pageSize, Clear (elfHeaderAt + k) sg
  apart : segs.Pairwise fun a b => ∀ k < a.filesize, Clear (physAddr a + k) b

section Load

variable {d f m m' : Bytes} {sg : Segment} {segs : List Segment} {i n off ph : ℕ}

/-- One segment. -/
lemma readSeg_segment (hw : Whole sg) :
    ∃ m', readSeg d (physAddr sg) sg.filesize kernelSector (.ofNat sg.offset) m = some m' ∧
      Loads (kernelFile d) sg m' ∧ ∀ x, Clear x sg → m' x = m x := by
  have hoff : (UInt32.ofNat sg.offset).toNat = sg.offset := UInt32.toNat_ofNat_of_lt hw.offset
  have hdelivers : Delivers readSeg (physAddr sg) sg.filesize kernelSector (.ofNat sg.offset) :=
    (delivers_iff (fun _ => reads_readSector) (by omega) hw.noWrap).mpr hw.covers
  obtain ⟨m', hm', hbytes⟩ := hdelivers d m
  refine ⟨m', hm', fun k hk => ?_, fun x hx => ?_⟩
  · rw [hbytes k hk, hoff, kernelFile, Nat.add_assoc]
  · have heq : readSeg d (physAddr sg) sg.filesize kernelSector (.ofNat sg.offset) m = some _ :=
      readSegOf_eq (reads_readSector (d := d)) (by omega) hw.noWrap
    rw [hoff] at heq
    obtain rfl := Option.some_inj.mp (hm'.symm.trans heq)
    exact overlay_of_not_mem hx

/-- The page of the headers is in memory. -/
def Header (f m : Bytes) : Prop := ∀ k < pageSize, m (elfHeaderAt + k) = f k

lemma Header.get32 (h : Header f m) {a : ℕ} (ha : a + 4 ≤ 4096) :
    get32 m (elfHeaderAt + a) = get32 f a :=
  get32_congr fun k hk => by
    rw [Nat.add_assoc]
    exact h _ (by simp only [pageSize]; omega)

lemma Header.phnum (h : Header f m) : get16 m (elfHeaderAt + 44) = get16 f 44 := by
  rw [get16_eq, get16_eq, h.get32 (by omega)]

/-- The segment that the loader reads off the page. -/
lemma Header.segmentAt (h : Header f m) (hoff : off + 32 ≤ 4096) :
    segmentAt m (elfHeaderAt + off) = segmentAt f off := by
  unfold Process.segmentAt
  rw [Nat.add_assoc, Nat.add_assoc, Nat.add_assoc, Nat.add_assoc, h.get32 (by omega), h.get32 (by omega),
    h.get32 (by omega), h.get32 (by omega)]

/-- **The loop of the loader**, by induction on the number of headers to come: the page of the headers
stays as it is, so that the next header is read from the file. -/
theorem loadSegs_loads (hm : Header (kernelFile d) m) (hn : get16 (kernelFile d) 44 = i + n)
    (hoff : off + 32 * n ≤ 4096) (hl : Loadable (segmentsFrom (kernelFile d) n off)) :
    ∃ m', loadSegs d i (elfHeaderAt + off) m = some m' ∧
      (∀ sg ∈ segmentsFrom (kernelFile d) n off, Loads (kernelFile d) sg m') ∧
      ∀ x, (∀ sg ∈ segmentsFrom (kernelFile d) n off, Clear x sg) → m' x = m x := by
  induction n generalizing i off m with
  | zero =>
    refine ⟨m, ?_, fun sg hsg => absurd hsg List.not_mem_nil, fun _ _ => rfl⟩
    rw [loadSegs, hm.phnum, if_neg (by omega)]
  | succ n ih =>
    have hnext : (elfHeaderAt + off + 32) % 2 ^ 32 = elfHeaderAt + (off + 32) := by
      simp only [elfHeaderAt]
      omega
    rw [loadSegs, hm.phnum, if_pos (by omega), hm.get32 (by omega), hnext]
    rw [segmentsFrom] at hl ⊢
    split
    · rename_i hload
      rw [if_pos hload] at hl
      obtain ⟨m₁, hread, hfirst, hframe⟩ := readSeg_segment (m := m) (d := d) (hl.whole _ List.mem_cons_self)
      rw [← hm.segmentAt (by omega)] at hread
      have hm₁ : Header (kernelFile d) m₁ := fun k hk =>
        (hframe _ (hl.header _ List.mem_cons_self k hk)).trans (hm k hk)
      obtain ⟨hapart, hpair⟩ := List.pairwise_cons.mp hl.apart
      obtain ⟨m', hrest, hloads, hframe'⟩ := ih (i := i + 1) hm₁ (by omega) (by omega)
        ⟨fun sg h => hl.whole sg (List.mem_cons_of_mem _ h),
          fun sg h => hl.header sg (List.mem_cons_of_mem _ h), hpair⟩
      refine ⟨m', ?_, List.forall_mem_cons.mpr ⟨fun k hk => ?_, hloads⟩, fun x hx => ?_⟩
      · simp only [physAddr, Process.segmentAt] at hread
        simp only [hread]
        exact hrest
      · -- the later ones do not write over it
        rw [hframe' _ fun sg hsg => hapart sg hsg k hk]
        exact hfirst k hk
      · rw [List.forall_mem_cons] at hx
        exact (hframe' x hx.2).trans (hframe x hx.1)
    · rename_i hload
      rw [if_neg hload] at hl
      exact ih (i := i + 1) hm (by omega) (by omega) hl

/-- A kernel that the loader can load. -/
structure Bootable (d : Bytes) : Prop where
  magic : Lib.get32 (kernelFile d) 0 = elfMagic
  headers : Lib.get32 (kernelFile d) 28 + 32 * get16 (kernelFile d) 44 ≤ pageSize
  segments : Loadable (kernelSegments d)

/-- The kernel is in memory, and nothing else has changed but what shares a sector with it. -/
structure Loaded (d m m' : Bytes) : Prop where
  header : Header (kernelFile d) m'
  segments : ∀ sg ∈ kernelSegments d, Loads (kernelFile d) sg m'
  off : ∀ x, x < elfHeaderAt ∨ elfHeaderAt + pageSize ≤ x → (∀ sg ∈ kernelSegments d, Clear x sg) →
    m' x = m x

/-! ### The end of the kernel -/

lemma segmentsFrom_succ : segmentsFrom f (n + 1) off = segmentsFrom f n off ++
    if Lib.get32 f (off + 32 * n) = loadSeg then [segmentAt f (off + 32 * n)] else [] := by
  induction n generalizing off with
  | zero =>
    simp only [segmentsFrom, Nat.mul_zero, Nat.add_zero]
    split <;> rfl
  | succ n ih =>
    rw [segmentsFrom, ih, segmentsFrom, show off + 32 + 32 * n = off + 32 * (n + 1) by omega]
    split
    · rw [List.cons_append]
    · rfl

/-- The loop of `init_memory` looks for the last segment, header by header from the last one down. -/
lemma kernelEndLoop_eq {ram : Bytes} {base fin : ℕ}
    (h : ∀ a, a + 4 ≤ off + 32 * n → Lib.get32 ram (base + a) = Lib.get32 f a) :
    kernelEndLoop ram n (base + off + 32 * n - 32) fin =
      ((segmentsFrom f n off).getLast?.map fun sg => (sg.vaddr + sg.memsize) % 2 ^ 32).getD fin := by
  induction n with
  | zero => rfl
  | succ n ih =>
    have hlast : base + off + 32 * (n + 1) - 32 = base + (off + 32 * n) := by omega
    rw [kernelEndLoop, hlast, h (off + 32 * n) (by omega), segmentsFrom_succ]
    split
    · rw [List.getLast?_concat, Nat.add_assoc base, Nat.add_assoc base, h _ (by omega), h _ (by omega)]
      rfl
    · rw [List.append_nil, ← Nat.add_assoc, ih fun a ha => h a (by omega)]

/-- The word of the headers that the kernel finds at its own address. -/
lemma Loaded.word (h : Loaded d m m') {a : ℕ} (ha : a + 4 ≤ 4096) :
    Lib.get32 (fun x => m' (x - kernelVirBase)) (kernelElfHeader + a) = Lib.get32 (kernelFile d) a := by
  rw [← h.header.get32 ha]
  exact get32_congr fun k hk => congrArg m' (by simp only [kernelElfHeader, elfHeaderAt, kernelVirBase]; omega)

lemma Loaded.phnum (h : Loaded d m m') :
    get16 (fun x => m' (x - kernelVirBase)) (kernelElfHeader + 44) = get16 (kernelFile d) 44 := by
  rw [get16_eq, h.word (by omega), ← get16_eq]

/-- What is at `0x9000` leads `init_memory` to the end of the last segment. -/
lemma Loaded.kernelEnd {junk : ℕ} (hb : Bootable d) (h : Loaded d m m') :
    kernelEnd (fun x => m' (x - kernelVirBase)) junk =
      ((kernelSegments d).getLast?.map fun sg => (sg.vaddr + sg.memsize) % 2 ^ 32).getD junk := by
  have hmax := hb.headers
  simp only [pageSize] at hmax
  unfold Memory.kernelEnd kernelSegments
  rw [h.phnum, h.word (a := 28) (by omega)]
  exact kernelEndLoop_eq fun a ha => h.word (by omega)

/-! ### The whole loader -/

lemma loaderMain_loaded (hb : Bootable d) : ∃ m',
    loaderMain d m = some (some (vir2Phy (Lib.get32 (kernelFile d) 24)), m') ∧ Loaded d m m' := by
  -- the page of the headers is read as a segment is
  have hpage : Whole ⟨0, 0xc0009000, 4096, 0⟩ :=
    ⟨by decide, ⟨by decide, by decide⟩, .inr ⟨by decide, by decide⟩⟩
  obtain ⟨m₁, hread, hhead, hframe⟩ := readSeg_segment (d := d) (m := m) hpage
  have hm₁ : Header (kernelFile d) m₁ := fun k hk => by
    have h := hhead k hk
    rwa [Nat.zero_add] at h
  have hmax := hb.headers
  simp only [pageSize] at hmax
  obtain ⟨m', hloop, hloads, hframe'⟩ := loadSegs_loads (i := 0) hm₁ (Nat.zero_add _).symm hmax hb.segments
  have hm' : Header (kernelFile d) m' := fun k hk =>
    (hframe' _ fun sg hsg => hb.segments.header sg hsg k hk).trans (hm₁ k hk)
  have hl : Loaded d m m' := ⟨hm', hloads, fun x hx hclear => (hframe' x hclear).trans (hframe x hx)⟩
  have hstart : readSeg d elfHeaderAt pageSize kernelSector 0 m = some m₁ := hread
  have hmagic : Lib.get32 m₁ elfHeaderAt = elfMagic := (hm₁.get32 (a := 0) (by omega)).trans hb.magic
  have hph : (elfHeaderAt + Lib.get32 m₁ (elfHeaderAt + 28)) % 2 ^ 32 =
      elfHeaderAt + Lib.get32 (kernelFile d) 28 := by
    rw [hm₁.get32 (by omega)]
    simp only [elfHeaderAt]
    omega
  refine ⟨m', ?_, hl⟩
  simp only [loaderMain, hstart, Option.bind_eq_bind, Option.bind_some, hmagic, ne_eq, not_true, if_false,
    hph, hloop, hm'.get32 (a := 24) (by omega)]

/-- **The loader loads the kernel**: every segment is in memory as it is in the file, the entry point is
called at its physical address, and `init_memory`, which goes by the page of the headers, takes the end
of the last segment for that of the kernel. -/
theorem loaderMain_loads (hb : Bootable d) :
    ∃ m', loaderMain d m = some (some (vir2Phy (Lib.get32 (kernelFile d) 24)), m') ∧ Loaded d m m' ∧
      ∀ junk, kernelEnd (fun x => m' (x - kernelVirBase)) junk =
        ((kernelSegments d).getLast?.map fun sg => (sg.vaddr + sg.memsize) % 2 ^ 32).getD junk := by
  obtain ⟨m', hload, hl⟩ := loaderMain_loaded (m := m) hb
  exact ⟨m', hload, hl, fun junk => hl.kernelEnd hb⟩

end Load

/-! ### A kernel -/

/-- A disk with a kernel of two segments: a page of text, and a sector of data that asks for more. -/
def kernelDisk : Bytes := fun x => wordBytes (fun
    | 0 => elfMagic | 6 => 0xc0010000 | 7 => 52 | 11 => 2
    | 13 => 1 | 14 => 0x1000 | 15 => 0xc0010000 | 17 => 0x1000 | 18 => 0x1000
    | 21 => 1 | 22 => 0x2000 | 23 => 0xc0020000 | 25 => 0x200 | 26 => 0x120000
    | _ => 0) (x - 3072)

lemma kernelSegments_kernelDisk : kernelSegments kernelDisk =
    [⟨0x1000, 0xc0010000, 0x1000, 0x1000⟩, ⟨0x2000, 0xc0020000, 0x200, 0x120000⟩] := by decide +kernel

lemma kernelDisk_bootable : Bootable kernelDisk := by
  refine ⟨by decide +kernel, by decide +kernel, ?_⟩
  rw [kernelSegments_kernelDisk]
  have htext : physAddr ⟨0x1000, 0xc0010000, 0x1000, 0x1000⟩ = 0x10000 := by decide
  have hdata : physAddr ⟨0x2000, 0xc0020000, 0x200, 0x120000⟩ = 0x20000 := by decide
  refine ⟨?_, ?_, ?_⟩
  · rw [List.forall_mem_cons, List.forall_mem_singleton]
    exact ⟨⟨by decide, ⟨by decide, by decide⟩, .inr ⟨by decide, by decide⟩⟩,
      ⟨by decide, ⟨by decide, by decide⟩, .inr ⟨by decide, by decide⟩⟩⟩
  · rw [List.forall_mem_cons, List.forall_mem_singleton]
    simp only [Clear, htext, hdata, sectorSize, pageSize, elfHeaderAt]
    exact ⟨fun k hk => .inl (by omega), fun k hk => .inl (by omega)⟩
  · rw [List.pairwise_pair]
    simp only [Clear, htext, hdata, sectorSize]
    exact fun k hk => .inl (by omega)

theorem loaderMain_loads_kernelDisk : ∃ m', loaderMain kernelDisk (fun _ => 0) = some (some 0x10000, m') ∧
    Loaded kernelDisk (fun _ => 0) m' ∧ kernelEnd (fun x => m' (x - kernelVirBase)) 0 = 0xc0140000 := by
  obtain ⟨m', h, hl, hend⟩ := loaderMain_loads (m := fun _ => 0) kernelDisk_bootable
  refine ⟨m', h.trans ?_, hl, ?_⟩
  · rw [show vir2Phy (get32 (kernelFile kernelDisk) 24) = 0x10000 by decide +kernel]
  · rw [hend, kernelSegments_kernelDisk]
    rfl

end Nbos.Boot
