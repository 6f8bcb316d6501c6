import Nbos.Process.Transfer

/-!
# Reading leaves the disk alone

`sys_read` writes the inode back when it is done: to the place that the inode gives for itself, not to
the one that the entry of the file table gives. Where the two are one, what is written is what was
there: `sysRead_disk`.
-/

namespace Nbos.Process

open Nbos.Lib Nbos.Kernel Nbos.Memory
open Nbos.Fs hiding Sane

/-- Every slot of the disk says where it is. -/
def SelfPlaced (d : Bytes) : Prop := ∀ n < inodeSlots, mySlot (inodeAt d (slot n)) = slot n

/-- The entries of the file table that the process has open name slots, those of the standard files no
inode at all. -/
def NamesSlots (k : System) : Prop := ∀ fd j, isOpen fd k.proc = true →
  (k.proc.fdlist fd).ofptr = some j → (k.fileList j).fInodeBlockNo.toNat = 0 ∨
    ∃ n < inodeSlots, inodePlace (k.fileList j) = slot n

section ReadBack

variable {k k' : System} {fd junk r : ℤ} {ptr size n : ℕ} {fd' : Fin fileMaxInProcess}
  {j : Fin fileMaxInSys} {d : Bytes}

/-- A descriptor that has an entry is open, and leads to it. -/
lemma openEntry_eq_some (h : openEntry fd k = some (some (fd', j))) :
    isOpen fd' k.proc = true ∧ (k.proc.fdlist fd').ofptr = some j := by
  unfold openEntry at h
  split at h
  · simp only at h
    split at h
    · rename_i hopen
      obtain ⟨j', hj', he⟩ := Option.map_eq_some_iff.mp h
      obtain ⟨rfl, rfl⟩ := Prod.mk.inj (Option.some_inj.mp he)
      exact ⟨hopen, hj'⟩
    · cases h
  · cases h

/-- The entry that is read names a slot. -/
lemma NamesSlots.place (hk : NamesSlots k) (h : readEntry fd ptr k = some j) :
    ∃ n < inodeSlots, inodePlace (k.fileList j) = slot n := by
  obtain ⟨-, fd', hentry, -, -, hplace⟩ := inodeEntry_eq_some h
  obtain ⟨hopen, hptr⟩ := openEntry_eq_some hentry
  exact (hk fd' j hopen hptr).resolve_left fun h0 => hplace (.inl h0)

lemma SelfPlaced.writeInode (h : SelfPlaced d) (hn : n < inodeSlots) :
    writeInode (inodeAt d (slot n)) d = d := by
  obtain ⟨hb, ho⟩ := Prod.mk.inj (h n hn)
  exact writeInode_self hb ho

/-- **Reading leaves the disk alone**, whatever the descriptor, the buffer and the size. -/
theorem sysRead_disk (hd : SelfPlaced k.disk) (hk : NamesSlots k)
    (h : sysRead junk fd ptr size k = some (r, k')) : k'.disk = k.disk := by
  rcases sysRead_inode h with ⟨-, mem, keyboard, rfl⟩ | ⟨j, file, mem, hj, -, rfl⟩
  · rfl
  · obtain ⟨n, hn, hplace⟩ := hk.place hj
    show writeInode (inodeAt k.disk (inodePlace (k.fileList j))) k.disk = k.disk
    rw [hplace]
    exact hd.writeInode hn

end ReadBack

section ShellOpen

variable {d : Bytes} {offset : ℤ}

lemma shellOpen_selfPlaced (h : Installed d) : SelfPlaced (shellOpen d offset).disk := by
  intro n hn
  exact h.records.list.own n hn

lemma shellOpen_namesSlots : NamesSlots (shellOpen d offset) := fun _ _ _ _ => .inr ⟨2, by decide, rfl⟩

/-- One byte of the shell can be read. -/
lemma sysRead_shellOpen (h : Installed d) : ∃ k', sysRead 0 3 100 1 (shellOpen d 0) = some (1, k') := by
  have hb : (inodeAt d (slot 2)).blockNo ⟨0 / blockSize, by decide⟩ ≠ 0 := by
    rw [h.shellBlocks]
    exact blocksFrom_ne_zero (by decide) (by decide) (by decide)
  have hr : Readable (shellOpen d 0) 0 := ⟨h.shellMode, Int.natCast_nonneg _⟩
  have hspan : span 100 1 = 1 := by decide
  have hc : Covered ((shellOpen d 0).inodeOf 0) 0 (span 100 1) := by
    rw [hspan]
    exact covered_one hb
  have hread := readFile_of_readable hr le_rfl hc
  rw [hspan] at hread
  obtain ⟨ram, hram⟩ := Option.isSome_iff_exists.mp (@noteOpen_store 0
    (fileBytes ((shellOpen d 0).inodeOf 0) (shellOpen d 0).disk 0 1) (by rw [length_fileBytes]))
  have hentry : readEntry 3 100 (shellOpen d 0) = some 0 := rfl
  exact ⟨_, sysRead_of_read hentry hr.1 hread hram⟩

end ShellOpen

/-- The shell is read on a disk as `init_file` leaves it. -/
theorem sysRead_disk_shell : ∃ d k', initFile (fun _ _ _ => 0) (fun _ => 0) = some d ∧
    sysRead 0 3 100 1 (shellOpen d 0) = some (1, k') ∧ k'.disk = d := by
  obtain ⟨d, hd, hinst⟩ := initFile_spec (fun _ _ _ => 0) fun _ => 0
  obtain ⟨k', hread⟩ := sysRead_shellOpen hinst
  exact ⟨d, k', hd, hread, sysRead_disk (shellOpen_selfPlaced hinst) shellOpen_namesSlots hread⟩

end Nbos.Process
