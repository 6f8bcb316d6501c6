import Nbos.Process.Transfer

/-!
# Reading standard input

`sys_read` hands the buffer of the caller to `readStdin` and not the size of it: a line is stored
whole, and is taken out of the key buffer whole. `sysRead_stdin_iff` says when that is what the caller
has asked for.
-/

namespace Nbos.Process

open Nbos.Lib Nbos.Kernel Nbos.Memory Nbos.Device
open Nbos.Fs hiding Sane

/-- The call gets as far as `readStdin`. -/
def ReadsStdin (ptr : ℕ) (j : Fin fileMaxInSys) (k : System) : Prop :=
  ptr ≠ 0 ∧ (haveAccess (k.fileList j) oRdonly ∨ haveAccess (k.fileList j) oRdwr)

/-- `sys_read` keeps to the buffer. It stores no more than `size` bytes and returns their number or -1,
and the characters of the line that are not among them are the next ones in the key buffer. -/
def KeepsToBuffer (ptr size : ℕ) (k : System) (r : ℤ) (k' : System) : Prop :=
  ∃ bytes : List UInt8,
    storeBytes k.proc.pagedir ptr bytes k.mem.ram = some k'.mem.ram ∧ bytes.length ≤ size ∧
    (r = -1 ∨ r = bytes.length) ∧
    ∀ index, lineEnd k.keyboard.keyBuffer = some index → ∀ i, bytes.length + i ≤ index →
      k'.keyboard.keyBuffer i = k.keyboard.keyBuffer (bytes.length + i)

section Stdin

variable {k k' : System} {fd junk r : ℤ} {fd' : Fin fileMaxInProcess} {j : Fin fileMaxInSys}
  {ptr size : ℕ}

/-- Nothing is read from a descriptor that is not open for reading, or to `NULL`. -/
lemma sysRead_refused (hopen : openEntry fd k = some (some (fd', j))) (h : ¬ ReadsStdin ptr j k) :
    sysRead junk fd ptr size k = some (-1, k) := by
  unfold sysRead
  by_cases hptr : ptr = 0
  · rw [if_pos hptr]
  · have hacc : ¬ (haveAccess (k.fileList j) oRdonly ∨ haveAccess (k.fileList j) oRdwr) :=
      fun hacc => h ⟨hptr, hacc⟩
    rw [if_neg hptr, hopen, Option.bind_some]
    simp only
    rw [if_pos hacc]

/-- `sys_read`, once it has got to `readStdin`. -/
lemma sysRead_of_stdin (hopen : openEntry fd k = some (some (fd', j)))
    (hstd : (fd' : ℕ) = stdinFileno) (h : ReadsStdin ptr j k) :
    sysRead junk fd ptr size k =
      (storeBytes k.proc.pagedir ptr (readStdin k.keyboard).2.1 k.mem.ram).map fun ram =>
        ((readStdin k.keyboard).1,
          { k with mem := { k.mem with ram := ram }, keyboard := (readStdin k.keyboard).2.2 }) := by
  obtain ⟨hptr, hacc⟩ := h
  unfold sysRead
  rw [if_neg hptr, hopen, Option.bind_some]
  simp only
  rw [if_neg (not_not.mpr hacc), if_pos hstd]

/-- A call that stores nothing and leaves the key buffer alone keeps to any buffer. -/
lemma keepsToBuffer_of_nothing (hram : k'.mem.ram = k.mem.ram) (hkey : k'.keyboard = k.keyboard) :
    KeepsToBuffer ptr size k (-1) k' := by
  refine ⟨[], ?_, Nat.zero_le _, .inl rfl, fun index _ i _ => ?_⟩
  · rw [storeBytes, hram]
  · rw [hkey, List.length_nil, Nat.zero_add]

/-- The line that `readStdin` takes is stored whole, and its length is what is returned. -/
lemma sysRead_line {index : ℕ} (hopen : openEntry fd k = some (some (fd', j)))
    (hstd : (fd' : ℕ) = stdinFileno) (hread : ReadsStdin ptr j k)
    (hl : lineEnd k.keyboard.keyBuffer = some index)
    (h : sysRead junk fd ptr size k = some (r, k')) :
    r = index + 1 ∧ storeBytes k.proc.pagedir ptr ((List.range (index + 1)).map k.keyboard.keyBuffer)
      k.mem.ram = some k'.mem.ram := by
  rw [sysRead_of_stdin hopen hstd hread, readStdin_of_some hl] at h
  obtain ⟨ram, hram, he⟩ := Option.map_eq_some_iff.mp h
  obtain ⟨rfl, rfl⟩ := Prod.mk.inj he
  exact ⟨rfl, hram⟩

/-- A line that is longer than the buffer is stored all the same. -/
lemma not_keepsToBuffer {index : ℕ} (hopen : openEntry fd k = some (some (fd', j)))
    (hstd : (fd' : ℕ) = stdinFileno) (hread : ReadsStdin ptr j k)
    (hl : lineEnd k.keyboard.keyBuffer = some index) (hlong : size ≤ index)
    (h : sysRead junk fd ptr size k = some (r, k')) : ¬ KeepsToBuffer ptr size k r k' := by
  obtain ⟨hr, -⟩ := sysRead_line hopen hstd hread hl h
  rintro ⟨bytes, -, hlen, hres, -⟩
  omega

/-- **When `sys_read` keeps to the buffer of the caller** on standard input: if it does not get as far
as `readStdin`, or the first line in the key buffer, if there is one, fits with its newline. -/
theorem sysRead_stdin_iff (hopen : openEntry fd k = some (some (fd', j)))
    (hstd : (fd' : ℕ) = stdinFileno) (h : sysRead junk fd ptr size k = some (r, k')) :
    KeepsToBuffer ptr size k r k' ↔
      (ReadsStdin ptr j k → ∀ index, lineEnd k.keyboard.keyBuffer = some index → index < size) := by
  constructor
  · intro hkeep hread index hl
    by_contra hlong
    exact not_keepsToBuffer hopen hstd hread hl (not_lt.mp hlong) h hkeep
  · intro hfits
    by_cases hread : ReadsStdin ptr j k
    · cases hl : lineEnd k.keyboard.keyBuffer with
      | none =>
        -- no line yet
        rw [sysRead_of_stdin hopen hstd hread, readStdin_of_none hl, storeBytes] at h
        obtain ⟨rfl, rfl⟩ := Prod.mk.inj (Option.some_inj.mp h)
        exact keepsToBuffer_of_nothing rfl rfl
      | some index =>
        have hlt := hfits hread index hl
        obtain ⟨hr, hstore⟩ := sysRead_line hopen hstd hread hl h
        have hlen : ((List.range (index + 1)).map k.keyboard.keyBuffer).length = index + 1 := by simp
        refine ⟨_, hstore, by omega, .inr (by omega), fun index' hl' i hi => ?_⟩
        -- of the line nothing is left
        obtain rfl := Option.some_inj.mp (hl.symm.trans hl')
        omega
    · rw [sysRead_refused hopen hread] at h
      obtain ⟨rfl, rfl⟩ := Prod.mk.inj (Option.some_inj.mp h)
      exact keepsToBuffer_of_nothing rfl rfl

end Stdin

/-- An `a` and a newline have been typed, and every address can be written. -/
def lineTyped : System :=
  { noteOpen 0 with keyboard := ⟨fun i => if i = 0 then 97 else if i = 1 then newline else 0, 2⟩ }

lemma lineEnd_lineTyped : lineEnd lineTyped.keyboard.keyBuffer = some 1 := by decide +kernel

lemma readsStdin_lineTyped : ReadsStdin 100 0 lineTyped := ⟨by decide, .inr rfl⟩

/-- The line can be stored. -/
lemma sysRead_lineTyped (size : ℕ) : ∃ r k', sysRead 0 0 100 size lineTyped = some (r, k') := by
  have hstore : (storeBytes 0 100 [97, newline] fun _ => 1).isSome = true := by decide +kernel
  obtain ⟨ram, hram⟩ := Option.isSome_iff_exists.mp hstore
  have hbytes : (readStdin lineTyped.keyboard).2.1 = [97, newline] := by
    rw [readStdin_of_some lineEnd_lineTyped]
    rfl
  have hread := @sysRead_of_stdin lineTyped 0 0 0 0 100 size rfl rfl readsStdin_lineTyped
  have hram : storeBytes lineTyped.proc.pagedir 100 [97, newline] lineTyped.mem.ram = some ram := hram
  rw [hbytes, hram] at hread
  exact ⟨_, _, hread⟩

/-- A buffer of two bytes takes the line. -/
theorem sysRead_stdin_fits : ∃ r k', sysRead 0 0 100 2 lineTyped = some (r, k') ∧
    KeepsToBuffer 100 2 lineTyped r k' := by
  obtain ⟨r, k', hread⟩ := sysRead_lineTyped 2
  refine ⟨r, k', hread, (@sysRead_stdin_iff lineTyped k' 0 0 r 0 0 100 2 rfl rfl hread).mpr ?_⟩
  intro _ index hl
  obtain rfl := Option.some_inj.mp (lineEnd_lineTyped.symm.trans hl)
  decide

/-- Two bytes are stored in a buffer of one. -/
theorem sysRead_stdin_overrun : ¬ ∀ (fd junk r : ℤ) (fd' : Fin fileMaxInProcess)
    (j : Fin fileMaxInSys) (ptr size : ℕ) (k k' : System), openEntry fd k = some (some (fd', j)) →
    (fd' : ℕ) = stdinFileno → sysRead junk fd ptr size k = some (r, k') →
    KeepsToBuffer ptr size k r k' := by
  intro hall
  obtain ⟨r, k', hread⟩ := sysRead_lineTyped 1
  exact not_keepsToBuffer rfl rfl readsStdin_lineTyped lineEnd_lineTyped le_rfl hread
    (hall 0 0 r 0 0 100 1 lineTyped k' rfl rfl hread)

end Nbos.Process
