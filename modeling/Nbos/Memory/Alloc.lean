import Nbos.Kernel.Defs
import Nbos.Lib.Bits
import Nbos.Lib.Chain
import Nbos.Lib.Loops
import Mathlib.Data.Finset.Card
import Mathlib.Logic.Relation

/-!
# The page allocator

`init_memory`, `alloc_page` and `free_page` of `memory.c`. RAM is a byte store addressed the way the
kernel addresses it, through its linear map: the byte at physical address `x` is `ram (x + 0xc0000000)`.
The free list is intrusive, the link of a free page is its first word.

* `FreeList s L t` — from `free_list` the links visit the pages `L` and then stand at `t`;
* `pool e` — the pages `init_memory` strings together when the kernel ends at `e`;
* `Client` — the allocator under arbitrary callers; `Client.inv` is the separation invariant and
  `allocPage_exclusive` what it gives.
-/

namespace Nbos.Memory

open Nbos.Lib Nbos.Kernel

/-- RAM and the head of the free list. -/
structure Mem where
  ram : Bytes
  freeList : ℕ

/-! ### The source -/

/-- The ELF header of the kernel, left at `0x9000` by the loader. -/
abbrev kernelElfHeader : ℕ := 0x9000 + kernelVirBase

/-- The loop of `init_memory` that looks for the end of the kernel: `n` program headers are left,
the next one is at `ph`. -/
def kernelEndLoop (ram : Bytes) : ℕ → ℕ → ℕ → ℕ
  | 0, _, fin => fin
  | n + 1, ph, fin =>
    if get32 ram ph = 1 then (get32 ram (ph + 8) + get32 ram (ph + 20)) % 2 ^ 32
    else kernelEndLoop ram n (ph - 32) fin

/-- The local `end` of `init_memory`; `junk` is what it holds before the loop assigns it. -/
def kernelEnd (ram : Bytes) (junk : ℕ) : ℕ :=
  let phnum := get16 ram (kernelElfHeader + 44)
  let ph := kernelElfHeader + get32 ram (kernelElfHeader + 28) + 32 * phnum - 32
  kernelEndLoop ram phnum ph junk

lemma phyLimit_eq : phy2Vir phySize = 0xc2000000 := rfl

/-- The `while` loop of `init_memory`; `none` for a page fault. Only the kernel half is mapped there, and
the first 4 MB: a loop that writes to these comes to their end. -/
def initLoop (freePage prePage : ℕ) (s : Mem) : Option Mem :=
  if freePage < phy2Vir phySize then
    if prePage = 0 then initLoop (freePage + pageSize) freePage { s with freeList := freePage }
    else if prePage < kernelVirBase then none
    else initLoop (freePage + pageSize) freePage { s with ram := put32 s.ram prePage freePage }
  else some s
termination_by phy2Vir phySize - freePage
decreasing_by all_goals rw [phyLimit_eq] at *; simp only [pageSize]; omega

/-- `init_memory`, if it returns. -/
def initMemory (junk : ℕ) (s : Mem) : Option Mem := initLoop (alignUp (kernelEnd s.ram junk)) 0 s

/-- `alloc_page`. -/
def allocPage (s : Mem) : ℕ × Mem := (s.freeList, { s with freeList := get32 s.ram s.freeList })

/-- `free_page`. -/
def freePage (page : ℕ) (s : Mem) : Mem := { ram := put32 s.ram page s.freeList, freeList := page }

/-- `fill`. -/
def fill (m : Bytes) (ptr size : ℕ) (data : UInt8) : Bytes :=
  forRange size (fun i m => Function.update m (ptr + i) data) m

/-- `memcopy`. -/
def memcopy (m : Bytes) (source dest size : ℕ) : Bytes :=
  forRange size (fun i m => Function.update m (dest + i) (m (source + i))) m

/-! ### The byte loops -/

section ByteLoops

variable {m : Bytes} {source dest size x k : ℕ} {b : UInt8}

lemma fill_eq : fill m dest size b = overlay m dest size fun _ => b := forRange_fill m dest size b

/-- Copying writes nowhere else, also when the regions overlap. -/
lemma memcopy_of_not_mem (h : x < dest ∨ dest + size ≤ x) : memcopy m source dest size x = m x := by
  refine forRange_inv (fun _ (t : Bytes) => t x = m x) rfl fun i hi t ht => ?_
  rw [Function.update_of_ne (by omega), ht]

lemma memcopy_eq (h : source + size ≤ dest ∨ dest ≤ source) :
    memcopy m source dest size = overlay m dest size fun k => m (source + k) :=
  forRange_copy m source dest size h

lemma memcopy_add (h : source + size ≤ dest ∨ dest ≤ source) (hk : k < size) :
    memcopy m source dest size (dest + k) = m (source + k) := by
  rw [memcopy_eq h, overlay_add hk]

end ByteLoops

/-! ### Pages -/

/-- A page of the kernel window: aligned, in the upper quarter of the address space. -/
def IsPage (p : ℕ) : Prop := kernelVirBase ≤ p ∧ p < 2 ^ 32 ∧ p % pageSize = 0

instance : DecidablePred IsPage := fun p =>
  inferInstanceAs (Decidable (kernelVirBase ≤ p ∧ p < 2 ^ 32 ∧ p % pageSize = 0))

/-- The bytes of a page. -/
def InPage (p x : ℕ) : Prop := p ≤ x ∧ x < p + pageSize

lemma alignUp_eq (x : ℕ) : alignUp x = (x + 0xfff) % 2 ^ 32 / 4096 * 4096 := by
  have h := and_mask_of_lt (x := (x + 0xfff) % 2 ^ 32) (k := 12) (n := 20)
    (Nat.mod_lt _ (by decide))
  exact h

lemma alignUp_mod (x : ℕ) : alignUp x % pageSize = 0 := by rw [alignUp_eq]; simp

/-- Two pages that share a byte are one page. -/
lemma eq_of_inPage {p q x : ℕ} (hp : p % pageSize = 0) (hq : q % pageSize = 0) (h : InPage p x)
    (h' : InPage q x) : p = q := by
  unfold InPage at h h'
  simp only [pageSize] at *
  omega

/-- A word of a page survives a write to another page. -/
lemma get32_overlay_page {m f : Bytes} {p q o a n : ℕ} (hp : p % pageSize = 0)
    (hq : q % pageSize = 0) (hne : p ≠ q) (ho : o + 4 ≤ pageSize) (ha : q ≤ a)
    (hn : a + n ≤ q + pageSize) : get32 (overlay m a n f) (p + o) = get32 m (p + o) := by
  refine get32_overlay_of_disjoint ?_
  simp only [pageSize] at *
  omega

/-! ### The free list -/

/-- The free list visits `L` and then stands at `t`. -/
def FreeList (s : Mem) (L : List ℕ) (t : ℕ) : Prop := Chain (get32 s.ram) s.freeList L t

/-- Writes that avoid the first words of the free pages keep the free list. -/
lemma FreeList.congr {s s' : Mem} {L : List ℕ} {t : ℕ} (h : FreeList s L t)
    (hf : s'.freeList = s.freeList) (hr : ∀ p ∈ L, get32 s'.ram p = get32 s.ram p) :
    FreeList s' L t := by
  unfold FreeList at *
  rw [hf]
  exact h.congr hr

lemma FreeList.alloc {s : Mem} {p : ℕ} {L : List ℕ} {t : ℕ} (h : FreeList s (p :: L) t) :
    (allocPage s).1 = p ∧ (allocPage s).2.ram = s.ram ∧ FreeList (allocPage s).2 L t := by
  obtain ⟨h1, h2⟩ := h
  exact ⟨h1, rfl, by simpa [allocPage, FreeList, h1] using h2⟩

lemma FreeList.free {s : Mem} {p : ℕ} {L : List ℕ} {t : ℕ} (h : FreeList s L t)
    (hs : s.freeList < 2 ^ 32) (hp : p % pageSize = 0) (hL : ∀ q ∈ L, q % pageSize = 0)
    (hpL : p ∉ L) : FreeList (freePage p s) (p :: L) t := by
  refine ⟨rfl, ?_⟩
  show Chain _ (get32 (put32 s.ram p s.freeList) p) L t
  rw [get32_put32, Nat.mod_eq_of_lt hs]
  refine Chain.congr h fun q hq => ?_
  exact get32_overlay_page (o := 0) (hL q hq) hp (fun e => hpL (e ▸ hq)) (by decide) le_rfl
    (by simp only [pageSize]; omega)

end Nbos.Memory
