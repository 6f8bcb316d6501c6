import Nbos.Process.Store

/-!
# Writing in pieces

A program that writes a buffer piece by piece, with one `sys_write` for each, leaves the kernel as one
`sys_write` of the whole does: `writePieces_eq`.
-/

namespace Nbos.Process

open Nbos.Lib Nbos.Kernel
open Nbos.Fs hiding Sane

/-- One `sys_write` for each piece of the buffer at `ptr`. -/
def writePieces (fd : ℤ) : ℕ → Bytes → List ℕ → System → Option System
  | _, _, [], k => some k
  | ptr, buf, n :: ns, k =>
    (sysWrite fd ptr buf n k).bind fun r => writePieces fd (ptr + n) (fun p => buf (n + p)) ns r.2

section Pieces

variable {T : Set (ℕ × ℕ)} {k k' : System} {fd : ℤ} {ptr ptr' n m : ℕ} {buf : Bytes} {ns : List ℕ}
  {j : Fin fileMaxInSys}

lemma openEntry_congr (hp : k'.pcblist = k.pcblist) (hc : k'.current = k.current) :
    openEntry fd k' = openEntry fd k := by
  simp only [openEntry, System.proc, hp, hc]

/-- The entry that is written to stays so when its offset is moved. -/
lemma Undisturbed.writeEntry (h : Undisturbed k k') (hptr : ptr' ≠ 0)
    (he : writeEntry fd ptr k = some j) : writeEntry fd ptr' k' = some j := by
  obtain ⟨-, fd', hopen, hcond⟩ := inodeEntry_eq_some he
  rw [Process.writeEntry, inodeEntry, if_neg hptr, openEntry_congr h.pcblist h.current, hopen,
    Option.bind_some, Option.bind_some]
  simp only
  rw [h.files j]
  exact if_pos hcond

/-! ### One write after the other -/

lemma Fits.start_toNat (hfit : Fits T ptr n j k) :
    ((k.fileList j).offset + m).toNat = (k.fileList j).offset.toNat + m := by
  have := hfit.start
  omega

/-- The first piece of a request that fits, fits. -/
lemma Fits.head (hfit : Fits T ptr (n + m) j k) : Fits T ptr n j k := by
  have hroom := hfit.room
  have hspan := hfit.span
  exact ⟨hfit.file, hfit.start, by omega, by omega, fun p hp => hfit.covered p (by omega)⟩

lemma WroteTo.fileList (h : WroteTo j n buf k k') :
    k'.fileList j = { k.fileList j with offset := (k.fileList j).offset + n } := by
  rw [h.eq]
  exact System.setFile_self

/-- So does the rest, after the first piece is written. -/
lemma WroteTo.tail (h : WroteTo j n buf k k') (hfit : Fits T ptr (n + m) j k) :
    Fits T (ptr + n) m j k' := by
  have hroom := hfit.room
  have hstart := hfit.start
  have hspan := hfit.span
  have hblocks : (k'.inodeOf j).blockNo = (k.inodeOf j).blockNo := by
    have hinode : k'.inodeOf j = inodeAt k'.disk (inodePlace (k.fileList j)) := by
      rw [System.inodeOf, h.fileList]
      rfl
    rw [hinode, h.disk.inode]
  refine ⟨?_, ?_, ?_, by omega, fun p hp => ?_⟩
  · rw [h.fileList]
    exact hfit.file
  · rw [h.fileList]
    simp only
    omega
  · rw [h.fileList]
    simp only
    omega
  · have hc := hfit.covered (n + p) (by omega)
    rw [h.fileList, hfit.start_toNat, Nat.add_assoc, hblocks]
    exact hc

/-- **Two writes, one behind the other, are one.** -/
lemma WroteTo.append {k'' : System} (h : WroteTo j n buf k k')
    (h' : WroteTo j m (fun p => buf (n + p)) k' k'') (hT : FilesApart T k.disk)
    (hfit : Fits T ptr (n + m) j k) : WroteTo j (n + m) buf k k'' := by
  constructor
  · have hd' := h'.disk
    rw [h.fileList, hfit.start_toNat] at hd'
    exact h.disk.append hd' hT hfit.file hfit.covered
  · refine h'.eq.trans ?_
    rw [h.fileList, h.eq]
    simp only [System.setFile, Function.update_idem, Nat.cast_add, Int.add_assoc]

lemma WroteTo.unique {k'' : System} (h : WroteTo j n buf k k') (h' : WroteTo j n buf k k'')
    (hT : FilesApart T k.disk) (hf : inodePlace (k.fileList j) ∈ T) : k' = k'' := by
  rw [h.eq, h'.eq, h.disk.unique h'.disk (hT.fits _ hf)]

/-- To write nothing is to do nothing. -/
lemma wroteTo_zero : WroteTo j 0 buf k k := by
  refine ⟨⟨?_, fun p hp => absurd hp (Nat.not_lt_zero p), fun _ _ _ => rfl⟩, ?_⟩
  · rw [show UInt32.ofNat 0 = 0 from rfl, UInt32.add_zero]
  · simp only [System.setFile, Nat.cast_zero, Int.add_zero, Function.update_eq_self]

/-- What the pieces leave. -/
lemma writePieces_spec (hT : FilesApart T k.disk) (hw : writeEntry fd ptr k = some j)
    (hfit : Fits T ptr ns.sum j k) :
    ∃ k', writePieces fd ptr buf ns k = some k' ∧ WroteTo j ns.sum buf k k' := by
  induction ns generalizing ptr buf k with
  | nil => exact ⟨k, rfl, wroteTo_zero⟩
  | cons n ns ih =>
    rw [List.sum_cons] at hfit ⊢
    obtain ⟨k₁, hk₁, hfirst⟩ := @sysWrite_of_fits _ _ _ _ _ buf _ hT hw hfit.head
    have hptr := (inodeEntry_eq_some hw).1
    have hw₁ : writeEntry fd (ptr + n) k₁ = some j := (sysWrite_spec hk₁).writeEntry (by omega) hw
    have hT₁ := hT.keep (hfirst.disk.onlySizes hT hfit.file hfit.head.covered)
    obtain ⟨k₂, hk₂, hrest⟩ := @ih k₁ (ptr + n) (fun p => buf (n + p)) hT₁ hw₁ (hfirst.tail hfit)
    refine ⟨k₂, ?_, hfirst.append hrest hT hfit⟩
    rw [writePieces, hk₁, Option.bind_some]
    exact hk₂

/-- **Pieces make the whole**: however a buffer is cut, the calls that write the pieces end, and leave
the kernel, its disk and its tables, as the one call that writes all of it. -/
theorem writePieces_eq (hT : FilesApart T k.disk) (hw : writeEntry fd ptr k = some j)
    (hfit : Fits T ptr ns.sum j k) : ∃ k', writePieces fd ptr buf ns k = some k' ∧
      sysWrite fd ptr buf ns.sum k = some (((ns.sum : ℕ) : ℤ), k') := by
  obtain ⟨k', hk', hpieces⟩ := @writePieces_spec _ _ _ _ buf _ _ hT hw hfit
  obtain ⟨k'', hk'', hone⟩ := @sysWrite_of_fits _ _ _ _ _ buf _ hT hw hfit
  refine ⟨k', hk', ?_⟩
  rw [hpieces.unique hone hT hfit.file]
  exact hk''

end Pieces

/-- The shell, open at its start. -/
lemma shellOpen_fits {d : Bytes} (h : Installed d) : FilesApart (Files.init d).regular (shellOpen d 0).disk ∧
    writeEntry 3 100 (shellOpen d 0) = some 0 ∧ Fits (Files.init d).regular 100 512 0 (shellOpen d 0) := by
  have hblock : (inodeAt d (slot 2)).blockNo ⟨0 / blockSize, by decide⟩ ≠ 0 := by
    rw [h.shellBlocks]
    exact blocksFrom_ne_zero (by decide) (by decide) (by decide)
  have hcount : 2 < (Files.init d).count := Nat.lt_succ_self 2
  have hroom : (0 : ℤ) + (512 : ℕ) ≤ ((maxBlocksInFile * blockSize : ℕ) : ℤ) := by decide
  have hfirst : 0 % blockSize + 512 ≤ blockSize := by decide
  exact ⟨h.apart, rfl, ⟨2, hcount, rfl, rfl, h.shellMode⟩, le_rfl, hroom, by decide,
    covered_block hblock hfirst⟩

/-- Half a kilobyte in three pieces. -/
theorem writePieces_eq_shell : ∃ d k', initFile (fun _ _ _ => 0) (fun _ => 0) = some d ∧
    writePieces 3 100 (fun p => .ofNat p) [3, 500, 9] (shellOpen d 0) = some k' ∧
    sysWrite 3 100 (fun p => .ofNat p) 512 (shellOpen d 0) = some (512, k') := by
  obtain ⟨d, hd, hinst⟩ := initFile_spec (fun _ _ _ => 0) fun _ => 0
  obtain ⟨hT, hw, hfit⟩ := shellOpen_fits hinst
  obtain ⟨k', hk', hone⟩ := @writePieces_eq _ _ _ _ _ [3, 500, 9] _ hT hw hfit
  exact ⟨d, k', hd, hk', hone⟩

end Nbos.Process
