import Nbos.Device.Keyboard

/-!
# The screen

`print.c`: video memory and the cursor of the display controller. The only bound the code checks is
`LAST_CURSOR`, which is one past the last cell, and `linefeed` goes on after it has scrolled. So the
cursor leaves the screen by a character in the last cell and by a new line on the last row, and in no
other way (`onScreen_iff`).

Scrolling moves the rows up and leaves the last one as it is. It comes too late for a character, which
has been put past the last row by then, and a new line takes the cursor past the last row again:
`not_scrollsClean`.
-/

namespace Nbos.Device.Print

open Nbos.Lib Nbos.Memory

/-! ### The source -/

abbrev linefeedCode : UInt8 := 10
abbrev carriageReturn : UInt8 := 13
abbrev vedioPosition : ℕ := 0xc00b8000
abbrev conAttr : UInt8 := 0x70
abbrev lastCursor : ℕ := 2000

/-- Video memory, and the two halves of the cursor register. `cells` is not part of the machine: it
has the cell indices that `set_char` has written, the last one first. -/
structure Screen where
  video : Bytes
  high : UInt8
  low : UInt8
  cells : List ℕ

/-- `get_cursor`. -/
def getCursor (s : Screen) : ℕ := s.high.toNat * 256 + s.low.toNat

/-- `set_cursor`: the register holds sixteen bits. -/
def setCursor (cursor : ℕ) (s : Screen) : Screen :=
  { s with high := .ofNat (cursor / 256), low := .ofNat cursor }

/-- `scroll_screen`; the last row stays. -/
def scrollScreen (s : Screen) : Screen :=
  let s := { s with video := memcopy s.video (vedioPosition + 80 * 2) vedioPosition (24 * 80 * 2) }
  setCursor ((getCursor s + (2 ^ 32 - 80)) % 2 ^ 32) s

/-- `update_cursor`. -/
def updateCursor (currentCursor : ℕ) (s : Screen) : Screen :=
  if currentCursor = lastCursor then setCursor (lastCursor - 80) (scrollScreen s)
  else setCursor (currentCursor + 1) s

/-- `set_char`. -/
def setChar (currentCursor : ℕ) (a : UInt8) (s : Screen) : Screen :=
  let p := currentCursor * 2 + vedioPosition
  { s with
    video := Function.update (Function.update s.video p a) (p + 1) conAttr
    cells := currentCursor :: s.cells }

/-- `put_char0`. -/
def putChar0 (a : UInt8) (currentCursor : ℕ) (s : Screen) : Screen :=
  updateCursor currentCursor (setChar currentCursor a s)

/-- `backspace`. -/
def backspace (currentCursor : ℕ) (s : Screen) : Screen :=
  if currentCursor = 0 then s
  else setChar (currentCursor - 1) 0 (setCursor (currentCursor - 1) s)

/-- `linefeed`: what it sets after scrolling is overwritten at once. -/
def linefeed (currentCursor : ℕ) (s : Screen) : Screen :=
  let s :=
    if currentCursor / 80 = 24 then setCursor (lastCursor - 80) (scrollScreen s) else s
  setCursor ((currentCursor / 80 + 1) * 80) s

/-- `put_char`. -/
def putChar (a : UInt8) (s : Screen) : Screen :=
  if a = Device.backspace then backspace (getCursor s) s
  else if a = linefeedCode ∨ a = carriageReturn then linefeed (getCursor s) s
  else putChar0 a (getCursor s) s

/-- `clear_screen`. -/
def clearScreen (s : Screen) : Screen :=
  setCursor 0 (forRange 2000 (fun i s => setChar i 0 s) s)

/-- `put_char` on one byte after the other, as the loop of `print` does. -/
def putChars (text : List UInt8) (s : Screen) : Screen := text.foldl (fun s a => putChar a s) s

/-! ### When the cursor stays -/

/-- The cursor is on the screen, and so was every cell written. -/
structure OnScreen (s : Screen) : Prop where
  cursor : getCursor s < lastCursor
  cells : ∀ c ∈ s.cells, c < lastCursor

/-- The cursor is not in the last cell for a character, and not on the last row for a new line. -/
def Fits (a : UInt8) (cursor : ℕ) : Prop :=
  if a = Device.backspace then True
  else if a = linefeedCode ∨ a = carriageReturn then cursor / 80 ≠ 24
  else cursor ≠ lastCursor - 1

section Cursor

variable {s : Screen} {a : UInt8} {c n : ℕ} {text pre : List UInt8}

lemma getCursor_setCursor (h : c < 2 ^ 16) : getCursor (setCursor c s) = c := by
  simp only [getCursor, setCursor, UInt8.toNat_ofNat']
  omega

@[simp] lemma setCursor_cells : (setCursor c s).cells = s.cells := by simp only [setCursor]

@[simp] lemma scrollScreen_cells : (scrollScreen s).cells = s.cells := by
  simp only [scrollScreen, setCursor]

@[simp] lemma setChar_cells : (setChar c a s).cells = c :: s.cells := rfl

@[simp] lemma getCursor_setChar : getCursor (setChar c a s) = getCursor s := rfl

lemma onScreen_backspace (h : OnScreen s) : OnScreen (backspace (getCursor s) s) := by
  have hcur : getCursor s < 2000 := h.cursor
  unfold backspace
  split
  · exact h
  · refine ⟨?_, fun c hc => ?_⟩
    · rw [getCursor_setChar, getCursor_setCursor (by omega)]
      show getCursor s - 1 < 2000
      omega
    · rcases List.mem_cons.mp hc with rfl | hc
      · show getCursor s - 1 < 2000
        omega
      · exact h.cells c hc

lemma linefeed_cells : (linefeed c s).cells = s.cells := by
  unfold linefeed
  split <;> simp only [setCursor_cells, scrollScreen_cells]

lemma getCursor_linefeed (h : c < 2000) : getCursor (linefeed c s) = (c / 80 + 1) * 80 := by
  unfold linefeed
  split <;> exact getCursor_setCursor (by omega)

lemma onScreen_linefeed (h : OnScreen s) :
    OnScreen (linefeed (getCursor s) s) ↔ getCursor s / 80 ≠ 24 := by
  have hcur : getCursor s < 2000 := h.cursor
  have hset : getCursor (linefeed (getCursor s) s) = (getCursor s / 80 + 1) * 80 :=
    getCursor_linefeed hcur
  constructor
  · intro h' hrow
    have : getCursor (linefeed (getCursor s) s) < 2000 := h'.cursor
    omega
  · intro hrow
    refine ⟨?_, fun c hc => h.cells c (linefeed_cells ▸ hc)⟩
    show getCursor _ < 2000
    omega

lemma onScreen_putChar0 (h : OnScreen s) :
    OnScreen (putChar0 a (getCursor s) s) ↔ getCursor s ≠ lastCursor - 1 := by
  have hcur : getCursor s < 2000 := h.cursor
  have hne : getCursor s ≠ lastCursor := ne_of_lt hcur
  rw [putChar0, updateCursor, if_neg hne]
  have hset : getCursor (setCursor (getCursor s + 1) (setChar (getCursor s) a s)) =
      getCursor s + 1 := getCursor_setCursor (by omega)
  constructor
  · rintro ⟨hc, -⟩ he
    rw [hset] at hc
    simp only [lastCursor] at hc he
    omega
  · intro hlast
    refine ⟨?_, fun c hc => ?_⟩
    · rw [hset]
      simp only [lastCursor] at hlast ⊢
      omega
    · rcases List.mem_cons.mp hc with rfl | hc
      · exact hcur
      · exact h.cells c hc

/-- What one byte does to a cursor on the screen. -/
lemma onScreen_putChar (h : OnScreen s) : OnScreen (putChar a s) ↔ Fits a (getCursor s) := by
  unfold putChar Fits
  split
  · exact iff_of_true (onScreen_backspace h) trivial
  · split
    · exact onScreen_linefeed h
    · exact onScreen_putChar0 h

lemma onScreen_clearScreen (h : s.cells = []) : OnScreen (clearScreen s) := by
  refine ⟨by rw [clearScreen, getCursor_setCursor] <;> decide, ?_⟩
  rw [clearScreen, setCursor_cells]
  have hinv : ∀ c ∈ (forRange 2000 (fun i s => setChar i 0 s) s).cells, c < 2000 :=
    forRange_inv (fun i (t : Screen) => ∀ c ∈ t.cells, c < i) (by simp [h]) fun i _ t ht c hc => by
      rcases List.mem_cons.mp hc with rfl | hc
      · omega
      · exact (ht c hc).trans (by omega)
  exact hinv

@[simp] lemma putChars_concat : putChars (text ++ [a]) s = putChar a (putChars text s) := by
  simp [putChars]

/-- **When the cursor stays on the screen**: from a cleared screen, at every moment of a text,
exactly if no character of it is put in the last cell and no new line on the last row. -/
theorem onScreen_iff (video : Bytes) (high low : UInt8) (text : List UInt8) :
    (∀ pre, pre <+: text → OnScreen (putChars pre (clearScreen ⟨video, high, low, []⟩))) ↔
      ∀ pre a, pre ++ [a] <+: text →
        Fits a (getCursor (putChars pre (clearScreen ⟨video, high, low, []⟩))) := by
  constructor
  · intro h pre a hpre
    have hbefore := h pre ((List.prefix_append pre [a]).trans hpre)
    refine (onScreen_putChar hbefore).mp ?_
    rw [← putChars_concat]
    exact h _ hpre
  · intro h pre
    induction pre using List.reverseRecOn with
    | nil => exact fun _ => onScreen_clearScreen rfl
    | append_singleton pre a ih =>
      intro hpre
      rw [putChars_concat]
      exact (onScreen_putChar (ih ((List.prefix_append pre [a]).trans hpre))).mpr (h pre a hpre)

/-- Twenty-five new lines put the cursor past the screen, and the next character goes there. -/
theorem past_the_screen :
    ¬ ∀ (video : Bytes) (high low : UInt8) (text : List UInt8),
      OnScreen (putChars text (clearScreen ⟨video, high, low, []⟩)) := by
  intro h
  have hcur := (h (fun _ => 0) 0 0 (List.replicate 25 linefeedCode)).cursor
  revert hcur
  decide +kernel

end Cursor

/-! ### Scrolling -/

/-- `a` is a character to be shown. -/
def Shown (a : UInt8) : Prop := a ≠ Device.backspace ∧ a ≠ linefeedCode ∧ a ≠ carriageReturn

instance : DecidablePred Shown := fun a => by unfold Shown; infer_instance

/-- `put_char` comes to `scroll_screen`. -/
def Scrolls (a : UInt8) (s : Screen) : Prop :=
  if Shown a then getCursor s = lastCursor
  else a ≠ Device.backspace ∧ getCursor s / 80 = 24

instance (a : UInt8) (s : Screen) : Decidable (Scrolls a s) := by unfold Scrolls; infer_instance

/-- The screen with the character, before anything moves. -/
def withChar (a : UInt8) (s : Screen) : Screen := if Shown a then setChar (getCursor s) a s else s

/-- Nothing is shown in the cell. -/
def Blank (video : Bytes) (cell : ℕ) : Prop :=
  video (vedioPosition + 2 * cell) = 0 ∨ video (vedioPosition + 2 * cell) = 32

/-- The last lines are shown. The rows have moved up, and the character, if there is one, with them; the
last row is blank and the cursor is at its start. -/
structure ScrollsClean (a : UInt8) (s s' : Screen) : Prop where
  rows : ∀ i < 24 * 80 * 2, s'.video (vedioPosition + i) =
    (withChar a s).video (vedioPosition + 80 * 2 + i)
  shown : Shown a → 80 ≤ getCursor s ∧ getCursor s < 25 * 80
  blank : ∀ cell, 24 * 80 ≤ cell → cell < 25 * 80 → Blank s'.video cell
  cursor : getCursor s' = 24 * 80

section Scrolling

variable {s : Screen} {a : UInt8} {c x : ℕ}

@[simp] lemma setCursor_video : (setCursor c s).video = s.video := by simp only [setCursor]

lemma scrollScreen_video : (scrollScreen s).video = overlay s.video vedioPosition (24 * 80 * 2)
    fun i => s.video (vedioPosition + 80 * 2 + i) := by
  rw [← memcopy_eq (.inr (Nat.le_add_right _ _)), scrollScreen, setCursor_video]

/-- `set_char` writes the two bytes of a cell. -/
lemma setChar_video (h : x ≠ vedioPosition + 2 * c) (h' : x ≠ vedioPosition + 2 * c + 1) :
    (setChar c a s).video x = s.video x := by
  rw [setChar]
  simp only
  rw [Function.update_of_ne (by omega), Function.update_of_ne (by omega)]

lemma putChar_of_shown (h : Shown a) : putChar a s = putChar0 a (getCursor s) s := by
  obtain ⟨hback, hfeed, hreturn⟩ := h
  rw [putChar, if_neg hback, if_neg (not_or.mpr ⟨hfeed, hreturn⟩)]

lemma putChar_of_not_shown (h : ¬ Shown a) (hback : a ≠ Device.backspace) :
    putChar a s = linefeed (getCursor s) s := by
  have hline : a = linefeedCode ∨ a = carriageReturn := by
    by_contra hne
    rw [not_or] at hne
    exact h ⟨hback, hne⟩
  rw [putChar, if_neg hback, if_pos hline]

/-- **What scrolling does**: the rows move up, the last one stays, and the cursor is at its start after
a character and behind it after a new line. -/
theorem putChar_scrolls (h : Scrolls a s) :
    (∀ i < 24 * 80 * 2, (putChar a s).video (vedioPosition + i) =
      s.video (vedioPosition + 80 * 2 + i)) ∧
    (∀ i < 80 * 2, (putChar a s).video (vedioPosition + 24 * 80 * 2 + i) =
      s.video (vedioPosition + 24 * 80 * 2 + i)) ∧
    getCursor (putChar a s) = if Shown a then 24 * 80 else 25 * 80 := by
  have hmoved : ∀ t : Screen, (∀ i < 25 * 80 * 2, t.video (vedioPosition + i) =
      s.video (vedioPosition + i)) →
      (∀ i < 24 * 80 * 2, (scrollScreen t).video (vedioPosition + i) =
        s.video (vedioPosition + 80 * 2 + i)) ∧
      ∀ i < 80 * 2, (scrollScreen t).video (vedioPosition + 24 * 80 * 2 + i) =
        s.video (vedioPosition + 24 * 80 * 2 + i) := by
    intro t ht
    rw [scrollScreen_video]
    refine ⟨fun i hi => ?_, fun i hi => ?_⟩
    · rw [overlay_add hi, Nat.add_assoc]
      exact ht _ (by omega)
    · rw [overlay_of_not_mem (by omega), Nat.add_assoc]
      exact ht _ (by omega)
  by_cases hshown : Shown a
  · rw [Scrolls, if_pos hshown] at h
    rw [putChar_of_shown hshown, putChar0, updateCursor, if_pos h, if_pos hshown, setCursor_video]
    -- the character is behind the last cell
    have hkept : ∀ i < 25 * 80 * 2, (setChar (getCursor s) a s).video (vedioPosition + i) =
        s.video (vedioPosition + i) := fun i hi => by
      have hcur : getCursor s = 2000 := h
      exact setChar_video (by omega) (by omega)
    obtain ⟨hrows, hlast⟩ := hmoved _ hkept
    exact ⟨hrows, hlast, getCursor_setCursor (by decide)⟩
  · rw [Scrolls, if_neg hshown] at h
    obtain ⟨hback, hrow⟩ := h
    rw [putChar_of_not_shown hshown hback, if_neg hshown]
    have hcur : getCursor (linefeed (getCursor s) s) = 2000 := by
      rw [getCursor_linefeed (by omega), hrow]
    rw [hcur, linefeed, if_pos hrow]
    rw [setCursor_video, setCursor_video]
    obtain ⟨hrows, hlast⟩ := hmoved s fun _ _ => rfl
    exact ⟨hrows, hlast, rfl⟩

/-- A call that does not scroll changes one cell at most. -/
theorem putChar_of_not_scrolls (h : ¬ Scrolls a s) : ∃ cell, ∀ x, x ≠ vedioPosition + 2 * cell →
    x ≠ vedioPosition + 2 * cell + 1 → (putChar a s).video x = s.video x := by
  by_cases hshown : Shown a
  · rw [Scrolls, if_pos hshown] at h
    refine ⟨getCursor s, fun x hx hx' => ?_⟩
    rw [putChar_of_shown hshown, putChar0, updateCursor, if_neg h, setCursor_video, setChar_video hx hx']
  · rw [Scrolls, if_neg hshown, not_and] at h
    by_cases hback : a = Device.backspace
    · refine ⟨getCursor s - 1, fun x hx hx' => ?_⟩
      rw [putChar, if_pos hback, backspace]
      split
      · rfl
      · rw [setChar_video hx hx', setCursor_video]
    · refine ⟨0, fun x _ _ => ?_⟩
      rw [putChar_of_not_shown hshown hback, linefeed, if_neg (h hback), setCursor_video]

/-- **The last lines are never shown as they should be**: a character that scrolls has been put past the
last row, and a new line that scrolls takes the cursor there. -/
theorem not_scrollsClean (h : Scrolls a s) : ¬ ScrollsClean a s (putChar a s) := by
  intro hclean
  obtain ⟨-, -, hcur⟩ := putChar_scrolls h
  by_cases hshown : Shown a
  · rw [Scrolls, if_pos hshown] at h
    have hlt := (hclean.shown hshown).2
    rw [h] at hlt
    exact absurd hlt (by decide)
  · rw [if_neg hshown, hclean.cursor] at hcur
    exact absurd hcur (by decide)

end Scrolling

/-- A blank screen, with the cursor on the last row or past it. -/
def blankScreen (cursor : ℕ) : Screen := setCursor cursor ⟨fun _ => 0, 0, 0, []⟩

/-- A new line on the last row, and a character past it. -/
theorem not_scrollsClean_blank :
    ¬ ScrollsClean linefeedCode (blankScreen 1920) (putChar linefeedCode (blankScreen 1920)) ∧
    ¬ ScrollsClean 97 (blankScreen 2000) (putChar 97 (blankScreen 2000)) :=
  ⟨not_scrollsClean (by decide), not_scrollsClean (by decide)⟩

/-- A new line on the last row leaves the cursor past the screen. -/
theorem newline_past_the_screen : ¬ ∀ (a : UInt8) (s : Screen), Scrolls a s →
    ScrollsClean a s (putChar a s) := by
  intro hall
  have hcur := (hall linefeedCode (blankScreen 1920) (by decide)).cursor
  rw [(putChar_scrolls (by decide)).2.2] at hcur
  exact absurd hcur (by decide)

end Nbos.Device.Print
