import Nbos.Memory.Space

/-!
# What lies in the free pages

The free list needs the first word of a free page, and nothing else of it. `Mem.withJunk W c` has the
bytes of `c` behind the links of the pages `W`; reads and writes elsewhere are what they were.
-/

namespace Nbos.Memory

open Nbos.Lib Nbos.Kernel

/-- A byte of one of the pages `W`, but not of its link. -/
def Hidden (W : List ℕ) (x : ℕ) : Prop := ∃ p ∈ W, p + 4 ≤ x ∧ x < p + pageSize

instance (W : List ℕ) : DecidablePred (Hidden W) := fun x =>
  inferInstanceAs (Decidable (∃ p ∈ W, p + 4 ≤ x ∧ x < p + pageSize))

/-- Other bytes in the pages `W`, behind the links. -/
def withJunk (W : List ℕ) (c m : Bytes) : Bytes := fun x => if Hidden W x then c x else m x

def Mem.withJunk (W : List ℕ) (c : Bytes) (s : Mem) : Mem := ⟨Memory.withJunk W c s.ram, s.freeList⟩

section Junk

variable {W : List ℕ} {c f m : Bytes} {s : Mem} {p a n j k x v : ℕ}

@[simp] lemma Mem.withJunk_freeList : (s.withJunk W c).freeList = s.freeList := rfl

@[simp] lemma Mem.withJunk_ram : (s.withJunk W c).ram = Memory.withJunk W c s.ram := rfl

lemma withJunk_of_hidden (h : Hidden W x) : withJunk W c m x = c x := if_pos h

lemma withJunk_of_not (h : ¬ Hidden W x) : withJunk W c m x = m x := if_neg h

lemma get32_withJunk (h : ∀ k < 4, ¬ Hidden W (a + k)) : get32 (withJunk W c m) a = get32 m a :=
  get32_congr fun k hk => withJunk_of_not (h k hk)

/-- A page that is not among the pages cannot be left out. -/
lemma filter_ne_eq_self (hp : p ∉ W) : W.filter (· ≠ p) = W :=
  List.filter_eq_self.mpr fun _ hq => decide_eq_true fun e => hp (e ▸ hq)

/-- A write to bytes that are not hidden. -/
lemma overlay_withJunk (h : ∀ k < n, ¬ Hidden W (a + k)) :
    overlay (withJunk W c m) a n f = withJunk W c (overlay m a n f) := by
  funext x
  by_cases hx : x < a ∨ a + n ≤ x
  · rw [overlay_of_not_mem hx]
    by_cases hh : Hidden W x
    · rw [withJunk_of_hidden hh, withJunk_of_hidden hh]
    · rw [withJunk_of_not hh, withJunk_of_not hh, overlay_of_not_mem hx]
  · have hnot := h (x - a) (by omega)
    rw [Nat.add_sub_cancel' (by omega)] at hnot
    rw [withJunk_of_not hnot, overlay_of_mem (by omega) (by omega), overlay_of_mem (by omega) (by omega)]

section Pages

variable (hW : ∀ q ∈ W, q % 4096 = 0)

include hW

/-- The bytes of other pages are not hidden. -/
lemma not_hidden (hp : p % 4096 = 0) (hpW : p ∉ W) (hk : k < 4096) : ¬ Hidden W (p + k) := by
  rintro ⟨q, hq, hlo, hhi⟩
  have hqm := hW q hq
  have hne : p ≠ q := fun e => hpW (e ▸ hq)
  simp only [pageSize] at hhi
  omega

/-- Links are not hidden. -/
lemma not_hidden_link (hp : p % 4096 = 0) (hk : k < 4) : ¬ Hidden W (p + k) := by
  rintro ⟨q, hq, hlo, hhi⟩
  have hqm := hW q hq
  simp only [pageSize] at hhi
  omega

lemma link_withJunk (hp : p % 4096 = 0) : get32 (withJunk W c m) p = get32 m p :=
  get32_withJunk fun _ hk => not_hidden_link hW hp hk

lemma entry_withJunk (hp : p % 4096 = 0) (hpW : p ∉ W) (hj : j < 1024) :
    entry (withJunk W c m) p j = entry m p j :=
  entry_congr hj fun _ hk => withJunk_of_not (not_hidden hW hp hpW hk)

lemma put32_withJunk (hp : p % 4096 = 0) (hpW : p ∉ W) (hj : j < 1024) :
    put32 (withJunk W c m) (p + 4 * j) v = withJunk W c (put32 m (p + 4 * j) v) :=
  overlay_withJunk fun k hk => by
    rw [Nat.add_assoc]
    exact not_hidden hW hp hpW (by omega)

/-- Nothing is left of what lay in a page that is filled. -/
lemma fill_page_withJunk {b : UInt8} (hp : p % 4096 = 0) :
    fill (withJunk W c m) p pageSize b = withJunk (W.filter (· ≠ p)) c (fill m p pageSize b) := by
  have hfilter : ∀ q ∈ W.filter (· ≠ p), q % 4096 = 0 := fun q hq => hW q (List.mem_of_mem_filter hq)
  have hnot : p ∉ W.filter (· ≠ p) := fun hm => absurd (List.of_mem_filter hm) (by simp)
  rw [fill_eq, fill_eq]
  funext x
  by_cases hx : x < p ∨ p + pageSize ≤ x
  · have hiff : Hidden W x ↔ Hidden (W.filter (· ≠ p)) x := by
      refine exists_congr fun q => and_congr_left fun hqx => ?_
      have hne : q ≠ p := by
        rintro rfl
        omega
      rw [List.mem_filter, decide_eq_true hne]
      exact (and_iff_left rfl).symm
    rw [overlay_of_not_mem hx]
    by_cases hh : Hidden W x
    · rw [withJunk_of_hidden hh, withJunk_of_hidden (hiff.mp hh)]
    · rw [withJunk_of_not hh, withJunk_of_not (hiff.not.mp hh), overlay_of_not_mem hx]
  · have hin := not_hidden hfilter hp hnot (k := x - p) (by simp only [pageSize] at hx; omega)
    rw [Nat.add_sub_cancel' (by omega)] at hin
    rw [withJunk_of_not hin, overlay_of_mem (by omega) (by omega), overlay_of_mem (by omega) (by omega)]

lemma allocPage_withJunk (hp : s.freeList % 4096 = 0) :
    allocPage (s.withJunk W c) = (s.freeList, (allocPage s).2.withJunk W c) := by
  have hlink : get32 (withJunk W c s.ram) s.freeList = get32 s.ram s.freeList := link_withJunk hW hp
  exact Prod.ext rfl (congrArg (Mem.mk _) hlink)

end Pages

end Junk

/-! ### Giving the user half back -/

section Release

variable {W L F : List ℕ} {c m : Bytes} {s s' : Mem} {p D T n t x : ℕ}

/-- What has been given back to pages of its own is the same, whatever lies in the pages `W`. -/
lemma freePage_withJunk (hW : ∀ q ∈ W, q % 4096 = 0) (hp : p % 4096 = 0) (hpW : p ∉ W) :
    freePage p (s.withJunk W c) = (freePage p s).withJunk W c := by
  have hput := @put32_withJunk W c s.ram p 0 s.freeList hW hp hpW (by omega)
  rw [Nat.mul_zero, Nat.add_zero] at hput
  exact congrArg (fun m => (⟨m, p⟩ : Mem)) hput

/-- The pages behind one table. -/
lemma frames_withJunk (hW : ∀ q ∈ W, q % 4096 = 0) (h : Released L t s F s') (hT : T % 4096 = 0)
    (hTW : T ∉ W) (hn : n ≤ 1024) (hTF : T ∉ F ++ framesUpTo s.ram T n)
    (hpages : Returnable (F ++ framesUpTo s.ram T n) L) (hFW : ∀ p ∈ framesUpTo s.ram T n, p ∉ W) :
    forRange n (freeFrame T) (s'.withJunk W c) = (forRange n (freeFrame T) s').withJunk W c := by
  induction n with
  | zero => rfl
  | succ n ih =>
    rw [framesUpTo_succ] at hTF hpages hFW
    rw [← List.append_assoc] at hTF hpages
    have hTF' : T ∉ F ++ framesUpTo s.ram T n := fun hm => hTF (List.mem_append_left _ hm)
    have hbefore := hpages.sublist (List.sublist_append_left _ _)
    have hs := h.frames hT (by omega) hTF' hbefore
    have hentry := hs.entry_eq hbefore hT hTF' (show n < 1024 by omega)
    rw [forRange_succ, forRange_succ,
      ih (by omega) hTF' hbefore fun p hp => hFW p (List.mem_append_left _ hp)]
    generalize forRange n (freeFrame T) s' = s₁ at hs hentry ⊢
    have hjunk : entry (s₁.withJunk W c).ram T n = entry s₁.ram T n :=
      entry_withJunk hW hT hTW (by omega)
    by_cases hp : Present (entry s.ram T n)
    · rw [freeFrame_of_present (by rwa [hjunk, hentry]), freeFrame_of_present (by rwa [hentry]), hjunk,
        hentry]
      refine freePage_withJunk hW (target_mod _) (hFW _ ?_)
      rw [frameAt_of_present hp]
      exact List.mem_append_right _ (List.mem_singleton_self _)
    · rw [freeFrame_of_not (by rwa [hjunk, hentry]), freeFrame_of_not (by rwa [hentry])]

/-- The tables behind the first entries of a directory. -/
lemma tables_withJunk (hW : ∀ q ∈ W, q % 4096 = 0) (hfree : FreeList s L t) (hlt : s.freeList < 2 ^ 32)
    (hD : D % 4096 = 0) (hDW : D ∉ W) (hn : n ≤ 1024) (hDF : D ∉ freedUpTo s.ram D n)
    (hpages : Returnable (freedUpTo s.ram D n) L) (hFW : ∀ p ∈ freedUpTo s.ram D n, p ∉ W) :
    forRange n (freeTable D) (s.withJunk W c) = (forRange n (freeTable D) s).withJunk W c := by
  induction n with
  | zero => rfl
  | succ n ih =>
    rw [freedUpTo_succ] at hDF hpages hFW
    have hDF' : D ∉ freedUpTo s.ram D n := fun hm => hDF (List.mem_append_left _ hm)
    have hbefore := hpages.sublist (List.sublist_append_left _ _)
    have hs := released_tables hfree hlt hD (by omega) hDF' hbefore
    have hentry := hs.entry_eq hbefore hD hDF' (show n < 1024 by omega)
    rw [forRange_succ, forRange_succ,
      ih (by omega) hDF' hbefore fun p hp => hFW p (List.mem_append_left _ hp)]
    generalize forRange n (freeTable D) s = s₁ at hs hentry ⊢
    have hjunk : entry (s₁.withJunk W c).ram D n = entry s₁.ram D n :=
      entry_withJunk hW hD hDW (by omega)
    by_cases hp : Present (entry s.ram D n)
    · rw [freeTable_of_present (by rwa [hjunk, hentry]), freeTable_of_present (by rwa [hentry]), hjunk,
        hentry]
      rw [freedAt_of_present hp] at hpages hFW
      rw [← List.append_assoc] at hpages
      have hTW : target (entry s.ram D n) ∉ W := hFW _ (by simp)
      rw [frames_withJunk hW hs (target_mod _) hTW le_rfl]
      · exact freePage_withJunk hW (target_mod _) hTW
      · have := (List.nodup_append'.mp hpages.nodup).2.2
        exact fun hm => this hm (by simp)
      · exact hpages.sublist (List.sublist_append_left _ _)
      · intro p hp
        exact hFW p (List.mem_append_right _ (List.mem_append_left _ hp))
    · rw [freeTable_of_not (by rwa [hjunk, hentry]), freeTable_of_not (by rwa [hentry])]

/-- **What lies in the free pages** does not matter to `free_process_user_mem`. -/
theorem freeProcessUserMem_withJunk (hfree : FreeList s L 0) (hpages : PageList (userPages s.ram D ++ L))
    (hWL : ∀ q ∈ W, q ∈ L) :
    freeProcessUserMem D (s.withJunk W c) = (freeProcessUserMem D s).withJunk W c := by
  obtain ⟨hspace, hL, hdisj⟩ := hpages.append
  obtain ⟨hself, hnodup⟩ := List.nodup_cons.mp hspace.nodup
  have hW : ∀ q ∈ W, q % 4096 = 0 := fun q hq => (hL.page q (hWL q hq)).mod
  have hfreed : ∀ p ∈ freedUpTo s.ram D 0x300, p ∈ userPages s.ram D := fun p hp =>
    List.mem_cons_of_mem _ (freedUpTo_perm.mem_iff.mp hp)
  refine tables_withJunk hW hfree (hfree.lt hL) (hspace.page D (List.mem_cons_self ..)).mod ?_ (by omega) ?_
    (returnable_freedUpTo hnodup ?_ fun p hp => (hL.page p hp).mod) ?_
  · exact fun hm => hdisj (List.mem_cons_self ..) (hWL D hm)
  · exact fun hm => hself (freedUpTo_perm.mem_iff.mp hm)
  · exact fun p hp => hdisj (List.mem_cons_of_mem _ hp)
  · exact fun p hp hm => hdisj (hfreed p hp) (hWL p hm)

end Release

end Nbos.Memory
