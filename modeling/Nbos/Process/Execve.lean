import Nbos.Fs.File
import Nbos.Fs.Dir
import Nbos.Memory.Space
import Nbos.Process.System

/-!
# `sys_execve`

`loadProcess` of `process.c` and `sys_execve` of `syscall.c`. The addresses that come out of the
file, those of the program headers and of the segments, go through the tables of the current
process, byte by byte; an address that is not mapped stops the machine. The pointers of the kernel
itself go through its linear map.
-/

namespace Nbos.Process

open Nbos.Lib Nbos.Kernel Nbos.Memory Nbos.Fs

/-! ### Virtual memory -/

/-- The byte at the virtual address `va`. -/
def load8 (dir : ℕ) (m : Bytes) (va : ℕ) : Option UInt8 :=
  (walk m dir (va % 2 ^ 32)).map fun pte => m (target pte + va % pageSize)

/-- The word at the virtual address `va`. -/
def load32 (dir : ℕ) (m : Bytes) (va : ℕ) : Option ℕ := do
  let b0 ← load8 dir m va
  let b1 ← load8 dir m (va + 1)
  let b2 ← load8 dir m (va + 2)
  let b3 ← load8 dir m (va + 3)
  some (b0.toNat + 256 * b1.toNat + 65536 * b2.toNat + 16777216 * b3.toNat)

/-- Bytes stored from the virtual address `va` on. A store may change the tables that the next one
goes through. -/
def storeBytes (dir : ℕ) : ℕ → List UInt8 → Bytes → Option Bytes
  | _, [], m => some m
  | va, b :: bs, m => do
    let pte ← walk m dir (va % 2 ^ 32)
    storeBytes dir (va + 1) bs (Function.update m (target pte + va % pageSize) b)

/-- Bytes stored from the address `a` of the kernel on. -/
def storeKernel : ℕ → List UInt8 → Bytes → Bytes
  | _, [], m => m
  | a, b :: bs, m => storeKernel (a + 1) bs (Function.update m a b)

/-- The kernel's own stores write the bytes and nothing else. -/
lemma storeKernel_eq {a : ℕ} {bytes : List UInt8} {m : Bytes} :
    storeKernel a bytes m = overlay m a bytes.length (cstr bytes) := by
  induction bytes generalizing a m with
  | nil => simp [storeKernel]
  | cons b bytes ih =>
    rw [storeKernel, ih]
    funext x
    by_cases hx : x < a ∨ a + (b :: bytes).length ≤ x
    · rw [List.length_cons] at hx
      rw [overlay_of_not_mem (by omega), overlay_of_not_mem (by rw [List.length_cons]; omega),
        Function.update_of_ne (by omega)]
    · rw [List.length_cons] at hx
      rw [overlay_of_mem (a := a) (by omega) (by rw [List.length_cons]; omega)]
      by_cases hxa : x = a
      · subst hxa
        rw [overlay_of_not_mem (by omega), Function.update_self, Nat.sub_self]
        rfl
      · rw [overlay_of_mem (by omega) (by omega), show x - a = x - (a + 1) + 1 by omega]
        rfl

/-! ### The loader -/

abbrev elfMagic : ℕ := 0x464c457f
abbrev loadSeg : ℕ := 1

/-- The loop of `loadProcess` that maps a segment: `current_vir_page_ptr += PAGESIZE` counts in
pages, so it goes on by 16 MiB at a time, around the end of the address space if need be. No more
than 256 turns reach the end or none does. -/
def mapLoop (dir vend : ℕ) : ℕ → ℕ → Mem → Option Mem
  | 0, _, _ => none
  | fuel + 1, va, s =>
    if va < vend then
      let (page, s) := allocPage s
      mapLoop dir vend fuel ((va + pageSize * pageSize) % 2 ^ 32)
        (pageMap dir va (vir2Phy page) pagePrivilegeUser s)
    else some s

/-- One turn of the loop of `loadProcess` over the program headers, for the one at `ph`. -/
def loadSegment (dir : ℕ) (i : Inode) (d : Bytes) (ph : ℕ) (s : Mem) : Option Mem := do
  let ptype ← load32 dir s.ram ph
  if ptype = loadSeg then
    let vaddr ← load32 dir s.ram (ph + 8)
    let memsize ← load32 dir s.ram (ph + 20)
    let s ← mapLoop dir (alignUp (vaddr + memsize)) 257 (vaddr &&& 0xfffff000) s
    let offset ← load32 dir s.ram (ph + 4)
    let vaddr ← load32 dir s.ram (ph + 8)
    let filesize ← load32 dir s.ram (ph + 16)
    let (_, bytes) ← readFileAtOffset i (Int.bmod offset (2 ^ 32)) vaddr filesize d
    let ram ← storeBytes dir vaddr bytes s.ram
    some { s with ram := ram }
  else some s

/-- The loop over the program headers; `fuel` is more than a halfword holds. -/
def loadLoop (dir : ℕ) (i : Inode) (d : Bytes) (elfHeader : ℕ) :
    ℕ → ℕ → ℕ → Mem → Option Mem
  | 0, _, _, _ => none
  | fuel + 1, j, ph, s =>
    if j < get16 s.ram (elfHeader + 44) then
      (loadSegment dir i d ph s).bind fun s =>
        loadLoop dir i d elfHeader fuel (j + 1) ((ph + 32) % 2 ^ 32) s
    else some s

/-- `loadProcess`: the entry address, `0` for `NULL`. -/
def loadProcess (dir : ℕ) (i : Inode) (d : Bytes) (s : Mem) : Option (ℕ × Mem) := do
  let (elfHeader, s) := allocPage s
  let (_, bytes) ← readFileAtOffset i 0 elfHeader pageSize d
  let s := { s with ram := storeKernel elfHeader bytes s.ram }
  if get32 s.ram elfHeader ≠ elfMagic then some (0, s)
  else
    let ph := (elfHeader + get32 s.ram (elfHeader + 28)) % 2 ^ 32
    let s ← loadLoop dir i d elfHeader 65536 0 ph s
    some (get32 s.ram (elfHeader + 24), s)

/-- The first page of the file, read to the first free page. -/
def headerLoaded (i : Inode) (d : Bytes) (s : Mem) : Option Mem :=
  (readFileAtOffset i 0 s.freeList pageSize d).map fun r =>
    ⟨storeKernel s.freeList r.2 s.ram, get32 s.ram s.freeList⟩

/-- The header comes first, and the segments after it if the file is a program. -/
lemma loadProcess_eq {dir : ℕ} {i : Inode} {d : Bytes} {s : Mem} :
    loadProcess dir i d s = (headerLoaded i d s).bind fun s' =>
      if get32 s'.ram s.freeList ≠ elfMagic then some (0, s')
      else
        (loadLoop dir i d s.freeList 65536 0
          ((s.freeList + get32 s'.ram (s.freeList + 28)) % 2 ^ 32) s').map fun s'' =>
            (get32 s''.ram (s.freeList + 24), s'') := by
  unfold headerLoaded
  rw [Option.bind_map]
  refine Option.bind_congr fun r _ => ?_
  by_cases h : get32 (storeKernel s.freeList r.2 s.ram) s.freeList = elfMagic
  · exact (if_neg (not_not.mpr h)).trans (Option.map_eq_bind.symm.trans (if_neg (not_not.mpr h)).symm)
  · exact (if_pos h).trans (if_pos h).symm

/-- A file without the magic is not loaded any further. -/
lemma loadProcess_header {dir : ℕ} {i : Inode} {d : Bytes} {s s' : Mem}
    (h : headerLoaded i d s = some s') (hmagic : get32 s'.ram s.freeList ≠ elfMagic) :
    loadProcess dir i d s = some (0, s') := by
  rw [loadProcess_eq, h, Option.bind_some, if_pos hmagic]

/-! ### The system call -/

/-- How `sys_execve` ends: with `-1`, or without a return value and with a new trap frame. -/
inductive ExecResult where
  | failed
  | started (ptr : IntrContext)
  deriving DecidableEq

/-- `sys_execve`, for the path `path`. It does not look at the result of `seekFileInode`, and by the
time the program turns out not to be one the memory of the caller is gone. -/
def sysExecve (junk : List UInt8 → List UInt8) (path : List UInt8) (ptr : IntrContext) (k : System) :
    Option (ExecResult × System) := do
  if k.proc.pid = 0 then some (.failed, k)
  else
    let i ← seekFileInode junk path k.disk
    if i.mode ≠ regularFile then some (.failed, k)
    else
      let dir := k.proc.pagedir
      let (entry, mem) ← loadProcess dir i k.disk (freeProcessUserMem dir k.mem)
      if entry = 0 then some (.failed, { k with mem := mem })
      else
        some (.started { ptr with esp := .ofNat userStackStart, eip := .ofNat entry },
          { k with mem := mapStack dir mem })

/-- What `sys_execve` does past its first checks: the user half is given back and the file `i` is loaded
with the result `e`, and then it is started or not. -/
structure Executed (ptr : IntrContext) (i : Inode) (e : ℕ) (s : Mem) (r : ExecResult)
    (k k' : System) : Prop where
  pid : k.proc.pid ≠ 0
  mode : i.mode = regularFile
  load : loadProcess k.proc.pagedir i k.disk (freeProcessUserMem k.proc.pagedir k.mem) = some (e, s)
  failed : e = 0 → r = .failed ∧ k' = { k with mem := s }
  started : e ≠ 0 → r = .started { ptr with esp := .ofNat userStackStart, eip := .ofNat e } ∧
    k' = { k with mem := mapStack k.proc.pagedir s }

section Execve

variable {junk : List UInt8 → List UInt8} {path : List UInt8} {ptr : IntrContext} {i : Inode} {e : ℕ}
  {s : Mem} {k k' : System} {r : ExecResult}

/-- **What `sys_execve` does**: it refuses at once, or loads the file. -/
theorem sysExecve_cases (h : sysExecve junk path ptr k = some (r, k')) :
    (r = .failed ∧ k' = k ∧
      (k.proc.pid = 0 ∨ ∃ i, seekFileInode junk path k.disk = some i ∧ i.mode ≠ regularFile)) ∨
    ∃ i e s, seekFileInode junk path k.disk = some i ∧ Executed ptr i e s r k k' := by
  unfold sysExecve at h
  split at h
  · rename_i hpid
    obtain ⟨rfl, rfl⟩ := Prod.mk.inj (Option.some_inj.mp h)
    exact .inl ⟨rfl, rfl, .inl hpid⟩
  · rename_i hpid
    obtain ⟨i, hseek, h⟩ := Option.bind_eq_some_iff.mp h
    split at h
    · rename_i hmode
      obtain ⟨rfl, rfl⟩ := Prod.mk.inj (Option.some_inj.mp h)
      exact .inl ⟨rfl, rfl, .inr ⟨i, hseek, hmode⟩⟩
    · rename_i hmode
      obtain ⟨⟨e, s⟩, hload, h⟩ := Option.bind_eq_some_iff.mp h
      refine .inr ⟨i, e, s, hseek, hpid, not_not.mp hmode, hload, fun he => ?_, fun he => ?_⟩
      · simp only [if_pos he] at h
        obtain ⟨rfl, rfl⟩ := Prod.mk.inj (Option.some_inj.mp h)
        exact ⟨rfl, rfl⟩
      · simp only [if_neg he] at h
        obtain ⟨rfl, rfl⟩ := Prod.mk.inj (Option.some_inj.mp h)
        exact ⟨rfl, rfl⟩

lemma Executed.eq (h : Executed ptr i e s r k k') :
    k' = { k with mem := if e = 0 then s else mapStack k.proc.pagedir s } := by
  by_cases he : e = 0
  · rw [(h.failed he).2, if_pos he]
  · rw [(h.started he).2, if_neg he]

/-- **`sys_execve` changes memory alone**, whatever the file holds. -/
theorem sysExecve_spec (h : sysExecve junk path ptr k = some (r, k')) :
    k' = { k with mem := k'.mem } := by
  rcases sysExecve_cases h with ⟨-, rfl, -⟩ | ⟨i, e, s, -, hx⟩
  · rfl
  · rw [hx.eq]

end Execve

end Nbos.Process
