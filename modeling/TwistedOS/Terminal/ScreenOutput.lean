import TwistedOS.Terminal.Terminal

/-!
# Output on the screen

The cursor stays on the screen and on the grid of characters. A glyph is drawn outside only when the
width is no multiple of 8: then a character that does not fit into its row is drawn in the next one
before the code looks whether there is a next one, and there is none when the height is no multiple
of 16 either.

Bytes have the same effect however they are split. `Write` adds a newline after an output that is at
least as long as a row, so that its effect depends on the split only through this newline.

## Main definitions

* `Tty.OnGrid`: the invariant of the cursor.
* `Tty.Reached`: the states of a terminal.
* `Tty.writeScreen`: the effect of `Write` on the terminal and on the pixels.

## Main results

* `Tty.OnGrid.writeChar`, `Tty.OnGrid.writeScreen_append`.
* `Tty.Reached.staysOnScreen`.
-/

namespace TwistedOS

namespace Tty

variable {fb : FrameBuffer} {tty : Tty} {character : UInt8}

/-! ### Fields -/

section Fields

variable {x y : ℕ}

@[simp] theorem moveTo_frameBufferDevice :
    (tty.moveTo x y).frameBufferDevice = tty.frameBufferDevice := rfl

@[simp] theorem moveTo_cursorX : (tty.moveTo x y).cursorX = x := rfl

@[simp] theorem moveTo_cursorY : (tty.moveTo x y).cursorY = y := rfl

end Fields

/-! ### The cursor -/

/-- The cursor stands on the grid of characters and inside the screen, and the numbers read by the
parser are bytes. If the next character does not fit into its row then there is another row below,
where the height is a multiple of the height of a character. -/
structure OnGrid (fb : FrameBuffer) (tty : Tty) : Prop where
  device_eq : tty.frameBufferDevice = fb
  x_mod : tty.cursorX % fontWidth = 0
  y_mod : tty.cursorY % fontHeight = 0
  x_lt : tty.cursorX < fb.width
  y_le : tty.cursorY + fontHeight ≤ fb.height
  /-- Only a position given by a byte can be in the last row. -/
  y_lt : tty.cursorY + fontHeight < fb.height ∨ tty.cursorY ≤ 254 * fontHeight
  next_le : fb.height % fontHeight = 0 → fb.width < tty.cursorX + fontWidth →
    tty.cursorY + 2 * fontHeight ≤ fb.height
  params_le : ∀ p ∈ tty.outputAnsiParams, p ≤ 255
  currentValue_le : tty.outputAnsiCurrentValue ≤ 255

/-- The glyphs among the commands lie inside the screen. -/
def GlyphsInside (fb : FrameBuffer) (commands : List ScreenCommand) : Prop :=
  ∀ x y character textColor backgroundColor,
    .glyph x y character textColor backgroundColor ∈ commands →
      x + fontWidth ≤ fb.width ∧ y + fontHeight ≤ fb.height

theorem GlyphsInside.append {c c' : List ScreenCommand} (h : GlyphsInside fb c)
    (h' : GlyphsInside fb c') : GlyphsInside fb (c ++ c') := fun x y ch t b hmem =>
  (List.mem_append.mp hmem).elim (h x y ch t b) (h' x y ch t b)

theorem glyphsInside_nil : GlyphsInside fb [] := fun _ _ _ _ _ hmem =>
  absurd hmem List.not_mem_nil

theorem glyphsInside_flatMap {α : Type*} {l : List α} {f : α → List ScreenCommand}
    (h : ∀ a ∈ l, GlyphsInside fb (f a)) : GlyphsInside fb (l.flatMap f) :=
  fun x y ch t b hmem => by
    obtain ⟨a, ha, hmem⟩ := List.mem_flatMap.mp hmem
    exact h a ha x y ch t b hmem

theorem glyphsInside_drawChar {x y : ℕ} (hx : x + fontWidth ≤ fb.width)
    (hy : y + fontHeight ≤ fb.height) : GlyphsInside fb (tty.drawChar x y character) := by
  rw [drawChar]
  split_ifs
  · rintro x' y' ch t b hmem
    obtain ⟨rfl, rfl, -⟩ := ScreenCommand.glyph.inj (List.mem_singleton.mp hmem)
    exact ⟨hx, hy⟩
  · exact glyphsInside_nil

theorem glyphsInside_clearScreen : GlyphsInside fb tty.clearScreen.2 := by
  rw [clearScreen]
  split_ifs
  · rintro x y ch t b hmem
    simp at hmem
  · exact glyphsInside_nil

theorem glyphsInside_clearIfFull : GlyphsInside fb tty.clearIfFull.2 := by
  rw [clearIfFull]
  split_ifs
  · exact glyphsInside_clearScreen
  · exact glyphsInside_nil

theorem glyphsInside_eraseCells {row colStart colEnd : ℕ} (hfb : tty.frameBufferDevice = fb)
    (hrow : row < tty.maxRows) (hcol : colEnd ≤ tty.maxColumns) :
    GlyphsInside fb (tty.eraseCells row colStart colEnd) := by
  refine glyphsInside_flatMap fun col hmem => glyphsInside_drawChar ?_ ?_
  · have hlt : col < colEnd := by
      obtain ⟨hge, hlt⟩ := List.mem_range'_1.mp hmem
      omega
    have hmax : tty.maxColumns = fb.width / 8 := by rw [maxColumns, hfb, fontWidth]
    simp only [fontWidth]
    omega
  · have hmax : tty.maxRows = fb.height / 16 := by rw [maxRows, hfb, fontHeight]
    simp only [fontHeight]
    omega

namespace OnGrid

section Cursor

/-- The cursor moves to a position that leaves room for a character. -/
theorem moveTo (h : OnGrid fb tty) {x y : ℕ} (hx : x % fontWidth = 0) (hy : y % fontHeight = 0)
    (hroom : x + fontWidth ≤ fb.width) (hy_le : y + fontHeight ≤ fb.height)
    (hy_lt : y + fontHeight < fb.height ∨ y ≤ 254 * fontHeight) : OnGrid fb (tty.moveTo x y) where
  device_eq := h.device_eq
  x_mod := hx
  y_mod := hy
  x_lt := by
    simp only [moveTo_cursorX, fontWidth] at *
    omega
  y_le := hy_le
  y_lt := hy_lt
  next_le _ hfull := by
    simp only [moveTo_cursorX] at hfull
    omega
  params_le := h.params_le
  currentValue_le := h.currentValue_le

variable (h : OnGrid fb tty) (hwidth : fontWidth ≤ fb.width ∧ fb.width < 2 ^ 32)
  (hheight : fontHeight ≤ fb.height ∧ fb.height + fontHeight ≤ 2 ^ 32)

include h hwidth hheight

theorem home : OnGrid fb (tty.moveTo 0 0) :=
  h.moveTo rfl rfl (by simpa using hwidth.1) (by simpa using hheight.1)
    (.inr (Nat.zero_le _))

theorem clearScreen : OnGrid fb tty.clearScreen.1 := by
  rw [Tty.clearScreen]
  split_ifs
  · exact h.home hwidth hheight
  · exact h

/-- The screen is cleared if the cursor is too low; otherwise it stays where it is. -/
theorem clearIfFull {x y : ℕ} (hvalid : fb.valid) (hx : x % fontWidth = 0) (hx_lt : x < fb.width)
    (hy : y % fontHeight = 0) (hy_lt : y + fontHeight < 2 ^ 32) :
    OnGrid fb (tty.moveTo x y).clearIfFull.1 := by
  have hdevice : (tty.moveTo x y).frameBufferDevice = fb := h.device_eq
  rw [Tty.clearIfFull, hdevice, moveTo_cursorY, u32_of_lt hy_lt]
  split_ifs with hfull
  · rw [Tty.clearScreen, hdevice, if_neg (by simpa using hvalid)]
    exact h.home hwidth hheight
  · refine ⟨h.device_eq, hx, hy, hx_lt, by simp only [moveTo_cursorY]; omega,
      .inl (by simp only [moveTo_cursorY]; omega), fun hmod _ => ?_, h.params_le,
      h.currentValue_le⟩
    simp only [moveTo_cursorY, fontHeight] at *
    omega

/-- The next row, or the first one of a cleared screen. -/
theorem nextRow (hvalid : fb.valid) : OnGrid fb tty.nextRow.clearIfFull.1 := by
  have hy := h.y_mod
  have hle := h.y_le
  have hlt := h.y_lt
  have hu : u32 (tty.cursorY + fontHeight) = tty.cursorY + fontHeight :=
    u32_of_lt (by simp only [fontHeight] at *; omega)
  rw [Tty.nextRow, hu]
  exact h.clearIfFull hwidth hheight hvalid rfl (by simp only [fontWidth] at *; omega)
    (by simp only [fontHeight] at *; omega) (by simp only [fontHeight] at *; omega)

/-- Where a character is drawn, and where the cursor goes then. -/
theorem putGlyph (character : UInt8) (hvalid : fb.valid) :
    OnGrid fb (tty.putGlyph character).1 ∧
    (fb.width + fontWidth ≤ 2 ^ 32 → fb.width % fontWidth = 0 ∨ fb.height % fontHeight = 0 →
      GlyphsInside fb (tty.putGlyph character).2) := by
  obtain ⟨hdevice, hx, hy, hx_lt, hy_le, hy_lt, hnext, -, -⟩ := id h
  have hu : u32 (tty.cursorY + fontHeight) = tty.cursorY + fontHeight :=
    u32_of_lt (by simp only [fontHeight] at *; omega)
  -- the position where the character is drawn, in this row or in the next one
  obtain ⟨x, y, hmoved, hxm, hym, hxl, hyl, hrow, hinside⟩ : ∃ x y,
      (if fb.width < u32 (tty.cursorX + fontWidth) then tty.nextRow else tty) = tty.moveTo x y ∧
      x % fontWidth = 0 ∧ y % fontHeight = 0 ∧ x < fb.width ∧
      y + fontHeight < 2 ^ 32 ∧ (y + 2 * fontHeight < 2 ^ 32 ∨ x = 0 ∧ fontWidth < fb.width) ∧
      (fb.width + fontWidth ≤ 2 ^ 32 → fb.width % fontWidth = 0 ∨ fb.height % fontHeight = 0 →
        x + fontWidth ≤ fb.width ∧ y + fontHeight ≤ fb.height) := by
    by_cases hwrap : fb.width < u32 (tty.cursorX + fontWidth)
    · refine ⟨0, tty.cursorY + fontHeight, ?_, rfl, ?_, ?_, ?_, .inr ⟨rfl, ?_⟩, fun hmax hmod => ?_⟩
      · rw [if_pos hwrap, Tty.nextRow, hu]
      · simp only [fontHeight] at *
        omega
      · omega
      · simp only [fontHeight] at *
        omega
      · simp only [u32, fontWidth] at *
        omega
      · simp only [u32, fontWidth, fontHeight] at *
        omega
    · refine ⟨tty.cursorX, tty.cursorY, if_neg hwrap, hx, hy, hx_lt, ?_, .inl ?_, fun hmax _ => ?_⟩
      · simp only [fontHeight] at *
        omega
      · simp only [fontHeight] at *
        omega
      · simp only [u32, fontWidth] at *
        omega
  have hdef : tty.putGlyph character =
      let next :=
        if fb.width ≤ u32 (x + fontWidth) then tty.moveTo 0 (u32 (y + fontHeight))
        else tty.moveTo (u32 (x + fontWidth)) y
      (next.clearIfFull.1, tty.drawChar x y character ++ next.clearIfFull.2) := by
    rw [Tty.putGlyph, hdevice, hmoved, ← hdevice]
    rfl
  rw [hdef]
  refine ⟨?_, fun hmax hmod => .append ?_ glyphsInside_clearIfFull⟩
  · dsimp only
    have hx' : u32 (x + fontWidth) % fontWidth = 0 := by
      simp only [u32, fontWidth] at *
      omega
    by_cases hend : fb.width ≤ u32 (x + fontWidth)
    · have hnotZero : ¬ (x = 0 ∧ fontWidth < fb.width) := by
        simp only [u32, fontWidth] at *
        omega
      have hroom := hrow.resolve_right hnotZero
      rw [if_pos hend, u32_of_lt hyl]
      exact h.clearIfFull hwidth hheight hvalid rfl (by simp only [fontWidth] at *; omega)
        (by simp only [fontHeight] at *; omega) (by simp only [fontHeight] at *; omega)
    · rw [if_neg hend]
      exact h.clearIfFull hwidth hheight hvalid hx' (not_le.mp hend) hym hyl
  · exact glyphsInside_drawChar (hinside hmax hmod).1 (hinside hmax hmod).2

/-- A printed character keeps the cursor on the screen, and its glyph is inside of it. -/
theorem putChar (character : UInt8) (hvalid : fb.valid) :
    OnGrid fb (tty.putChar character).1 ∧
    (fb.width + fontWidth ≤ 2 ^ 32 → fb.width % fontWidth = 0 ∨ fb.height % fontHeight = 0 →
      GlyphsInside fb (tty.putChar character).2) := by
  have hx := h.x_mod
  have hx_lt := h.x_lt
  rw [Tty.putChar, h.device_eq, if_neg (not_not.mpr hvalid)]
  split_ifs with hnewline hreturn hback hfits
  · exact ⟨h.nextRow hwidth hheight hvalid, fun _ _ => glyphsInside_clearIfFull⟩
  · exact ⟨h.moveTo rfl h.y_mod (by omega) h.y_le h.y_lt, fun _ _ => glyphsInside_nil⟩
  · have hroom : tty.cursorX - fontWidth + fontWidth ≤ fb.width := by omega
    refine ⟨h.moveTo ?_ h.y_mod hroom h.y_le h.y_lt, fun _ _ =>
      glyphsInside_drawChar hroom h.y_le⟩
    simp only [fontWidth] at *
    omega
  · refine ⟨h, fun _ _ => glyphsInside_drawChar ?_ h.y_le⟩
    simp only [fontWidth] at *
    omega
  · exact h.putGlyph hwidth hheight character hvalid

end Cursor

/-! ### Escape sequences -/

/-- The parser does not move the cursor. -/
theorem parse (h : OnGrid fb tty) {state : AnsiParseState} {params : List ℕ} {currentValue : ℕ}
    {readingValue : Bool} (hparams : ∀ p ∈ params, p ≤ 255) (hvalue : currentValue ≤ 255) :
    OnGrid fb (tty.parse state params currentValue readingValue) :=
  { h with params_le := hparams, currentValue_le := hvalue }

theorem resetAnsiParser (h : OnGrid fb tty) : OnGrid fb tty.resetAnsiParser :=
  h.parse (by simp) (by omega)

theorem pushParam (h : OnGrid fb tty) {value : ℕ} (hvalue : value ≤ 255) :
    OnGrid fb (tty.pushParam value) := by
  rw [Tty.pushParam]
  split_ifs
  · refine { h with params_le := ?_ }
    simpa [or_imp, forall_and, hvalue] using h.params_le
  · exact h

theorem selectColors (params : List ℕ) (h : OnGrid fb tty) :
    OnGrid fb (params.foldl selectColor tty) := by
  induction params generalizing tty with
  | nil => exact h
  | cons parameter params ih =>
    refine ih ?_
    rw [selectColor]
    split_ifs
    · exact { h with }
    · exact { h with }
    · exact { h with }
    · exact { h with }
    · exact { h with }
    · exact h

theorem getD_params_le (h : OnGrid fb tty) (i : ℕ) : tty.outputAnsiParams.getD i 0 ≤ 255 := by
  rw [List.getD_eq_getElem?_getD]
  rcases hp : tty.outputAnsiParams[i]? with _ | p
  · simp
  · exact h.params_le p (List.mem_of_getElem? hp)

/-- A coordinate given by a parameter, as a multiple of the size of a character. -/
theorem cursorCell_spec {parameter limit size : ℕ} (hparameter : parameter ≤ 255)
    (hlimit : 1 ≤ limit) (hbound : limit * size < 2 ^ 32) :
    ∃ cell, u32 (u32 (cursorCell parameter limit + (2 ^ 32 - 1)) * size) = cell * size ∧
      cell + 1 ≤ limit ∧ cell ≤ 254 := by
  obtain ⟨cell, hcell⟩ : ∃ cell, cursorCell parameter limit = cell + 1 := by
    refine ⟨cursorCell parameter limit - 1, ?_⟩
    simp only [cursorCell]
    split_ifs <;> omega
  have hle : cell + 1 ≤ limit ∧ cell ≤ 254 := by
    simp only [cursorCell] at hcell
    split_ifs at hcell <;> omega
  have hmul : cell * size ≤ limit * size := Nat.mul_le_mul_right _ (by omega)
  refine ⟨cell, ?_, hle⟩
  have hsub : u32 (cell + 1 + (2 ^ 32 - 1)) = cell := by
    rw [u32]
    omega
  rw [hcell, hsub, u32_of_lt (by omega)]

section Sequences

variable (h : OnGrid fb tty) (hwidth : fontWidth ≤ fb.width ∧ fb.width < 2 ^ 32)
  (hheight : fontHeight ≤ fb.height ∧ fb.height + fontHeight ≤ 2 ^ 32)

include h hwidth hheight

theorem setCursor : OnGrid fb tty.setCursor := by
  have hcols : tty.maxColumns = fb.width / fontWidth := by rw [maxColumns, h.device_eq]
  have hrows : tty.maxRows = fb.height / fontHeight := by rw [maxRows, h.device_eq]
  have hwidth' := Nat.div_mul_le_self fb.width fontWidth
  have hheight' := Nat.div_mul_le_self fb.height fontHeight
  obtain ⟨col, hx, hcol, -⟩ := cursorCell_spec (h.getD_params_le 1)
    (Nat.div_pos hwidth.1 (by decide)) (hwidth'.trans_lt hwidth.2)
  obtain ⟨row, hy, hrow, hbyte⟩ := cursorCell_spec (h.getD_params_le 0)
    (Nat.div_pos hheight.1 (by decide))
    (hheight'.trans_lt (by simp only [fontHeight] at *; omega))
  rw [Tty.setCursor, hcols, hrows, hx, hy]
  refine h.moveTo (Nat.mul_mod_left _ _) (Nat.mul_mod_left _ _) ?_ ?_
    (.inr (Nat.mul_le_mul_right _ hbyte))
  · rw [← Nat.succ_mul]
    exact (Nat.mul_le_mul_right _ hcol).trans hwidth'
  · rw [← Nat.succ_mul]
    exact (Nat.mul_le_mul_right _ hrow).trans hheight'

theorem eraseScreen (mode : ℕ) : OnGrid fb (tty.eraseScreen mode).1 ∧
    GlyphsInside fb (tty.eraseScreen mode).2 := by
  rw [Tty.eraseScreen]
  split_ifs
  · exact ⟨h.clearScreen hwidth hheight, glyphsInside_clearScreen⟩
  · refine ⟨h, glyphsInside_flatMap fun row hrow =>
      glyphsInside_eraseCells h.device_eq ?_ le_rfl⟩
    obtain ⟨hge, hlt⟩ := List.mem_range'_1.mp hrow
    omega
  · refine ⟨h, glyphsInside_flatMap fun row hrow =>
      glyphsInside_eraseCells h.device_eq ?_ (Nat.min_le_right _ _)⟩
    exact (List.mem_range.mp hrow).trans_le (Nat.min_le_right _ _)
  · exact ⟨h, glyphsInside_nil⟩

omit hwidth hheight in
theorem eraseRow (mode : ℕ) : GlyphsInside fb (tty.eraseRow mode) := by
  simp only [Tty.eraseRow]
  by_cases hrow : tty.cursorY / fontHeight < tty.maxRows
  · rw [if_pos hrow]
    generalize (if mode = 0 then tty.cursorX / fontWidth else 0) = colStart
    generalize (if mode = 1 then tty.cursorX / fontWidth else tty.maxColumns - 1) = colEnd
    split_ifs with hcols
    · exact glyphsInside_eraseCells h.device_eq hrow (by omega)
    · exact glyphsInside_eraseCells h.device_eq hrow (by omega)
    · exact glyphsInside_nil
  · rw [if_neg hrow]
    exact glyphsInside_nil

theorem finalByte : OnGrid fb (tty.finalByte character).1 ∧
    GlyphsInside fb (tty.finalByte character).2 := by
  rw [Tty.finalByte]
  split_ifs
  · exact ⟨(h.setCursor hwidth hheight).resetAnsiParser, glyphsInside_nil⟩
  · obtain ⟨hgrid, hglyphs⟩ := h.eraseScreen hwidth hheight (tty.outputAnsiParams.getD 0 0)
    exact ⟨hgrid.resetAnsiParser, hglyphs⟩
  · exact ⟨h.resetAnsiParser, h.eraseRow _⟩
  · exact ⟨(h.selectColors _).resetAnsiParser, glyphsInside_nil⟩
  · exact ⟨(h.selectColors _).resetAnsiParser, glyphsInside_nil⟩
  · exact ⟨h.resetAnsiParser, glyphsInside_nil⟩

theorem handleCsi (character : UInt8) : OnGrid fb (tty.handleCsi character).1 ∧
    GlyphsInside fb (tty.handleCsi character).2 := by
  have hvalue := h.currentValue_le
  rw [Tty.handleCsi]
  split_ifs
  · exact ⟨h.parse h.params_le (Nat.min_le_right _ _), glyphsInside_nil⟩
  · have hpush := h.pushParam hvalue
    exact ⟨hpush.parse hpush.params_le (by omega), glyphsInside_nil⟩
  · have hpush := h.pushParam (show 0 ≤ 255 by omega)
    exact ⟨hpush.parse hpush.params_le (by omega), glyphsInside_nil⟩
  · exact (h.pushParam hvalue).finalByte hwidth hheight
  · exact h.finalByte hwidth hheight

variable (hvalid : fb.valid)

include hvalid

theorem handleOutputChar : OnGrid fb (tty.handleOutputChar character).1 ∧
    (fb.width + fontWidth ≤ 2 ^ 32 → fb.width % fontWidth = 0 ∨ fb.height % fontHeight = 0 →
      GlyphsInside fb (tty.handleOutputChar character).2) := by
  have hput := h.putChar hwidth hheight character hvalid
  rw [Tty.handleOutputChar]
  split
  · split_ifs
    · exact ⟨h.parse h.params_le h.currentValue_le, fun _ _ => glyphsInside_nil⟩
    · exact hput
  · split_ifs
    · exact ⟨h.parse (by simp) (by omega), fun _ _ => glyphsInside_nil⟩
    · exact ⟨hput.1.resetAnsiParser, hput.2⟩
  · have hcsi := h.handleCsi hwidth hheight character
    exact ⟨hcsi.1, fun _ _ => hcsi.2⟩

/-- A byte keeps the cursor on the screen. -/
theorem writeChar : OnGrid fb (tty.writeChar character).1 ∧
    (fb.width + fontWidth ≤ 2 ^ 32 → fb.width % fontWidth = 0 ∨ fb.height % fontHeight = 0 →
      GlyphsInside fb (tty.writeChar character).2) := by
  rw [Tty.writeChar]
  split_ifs
  · exact h.putChar hwidth hheight character hvalid
  · exact h.handleOutputChar hwidth hheight hvalid

end Sequences

end OnGrid

/-! ### Splitting an output -/

theorem writeChars_append (a b : List UInt8) (tty : Tty) :
    writeChars (a ++ b) tty = ((writeChars b (writeChars a tty).1).1,
      (writeChars a tty).2 ++ (writeChars b (writeChars a tty).1).2) := by
  induction a generalizing tty with
  | nil => rfl
  | cons character a ih => simp only [List.cons_append, writeChars, ih, List.append_assoc]

theorem write_of_ne_nil (tty : Tty) {characters : List UInt8} (hne : characters ≠ [])
    (hvalid : tty.frameBufferDevice.valid) :
    tty.write characters =
      if tty.endsRow characters then
        (((writeChars characters tty).1.putChar 10).1,
          (writeChars characters tty).2 ++ ((writeChars characters tty).1.putChar 10).2,
          (characters.length : ℤ))
      else ((writeChars characters tty).1, (writeChars characters tty).2, characters.length) := by
  rw [write, if_neg hne, if_neg (not_not.mpr hvalid)]

theorem FrameBuffer.render_append (font pixels : ℕ → ℕ) (c c' : List ScreenCommand) :
    fb.render font pixels (c ++ c') = fb.render font (fb.render font pixels c) c' :=
  List.foldl_append

/-- The states of a terminal whose console left the cursor on the grid of characters. -/
inductive Reached (fb : FrameBuffer) : Tty → Prop
  | new {x y : ℕ} (hx : x % fontWidth = 0) (hy : y % fontHeight = 0)
      (hx_le : x + fontWidth ≤ fb.width) (hy_lt : y + fontHeight < fb.height ∨ y = 0) :
      Reached fb (new fb x y)
  | putChar {tty : Tty} (character : UInt8) (h : Reached fb tty) : Reached fb (tty.putChar character).1
  | writeChar {tty : Tty} (character : UInt8) (h : Reached fb tty) :
      Reached fb (tty.writeChar character).1
  | input {tty : Tty} (keyboardBuffer : ℕ → UInt8)
      (bufferHead bufferTail bufferedBytes committedBytes : ℕ) (termios : LinuxTermios)
      (h : Reached fb tty) :
      Reached fb (tty.withInput keyboardBuffer bufferHead bufferTail bufferedBytes committedBytes
        termios)

section OnScreen

variable (hvalid : fb.valid) (hwidth : fontWidth ≤ fb.width ∧ fb.width < 2 ^ 32)
  (hheight : fontHeight ≤ fb.height ∧ fb.height + fontHeight ≤ 2 ^ 32)

include hvalid hwidth hheight

theorem OnGrid.writeChars (characters : List UInt8) (h : OnGrid fb tty) :
    OnGrid fb (writeChars characters tty).1 := by
  induction characters generalizing tty with
  | nil => exact h
  | cons character characters ih => exact ih (h.writeChar hwidth hheight hvalid).1

theorem Reached.onGrid (h : Reached fb tty) : OnGrid fb tty := by
  induction h with
  | @new x y hx hy hx_le hy_lt =>
    refine ⟨rfl, hx, hy, ?_, ?_, ?_, fun _ hfull => absurd hfull (not_lt.mpr hx_le), ?_, ?_⟩
    · simp only [Tty.new, fontWidth] at *
      omega
    · simp only [Tty.new] at *
      omega
    · simp only [Tty.new] at *
      omega
    · simp [Tty.new]
    · simp [Tty.new]
  | putChar character _ ih => exact (ih.putChar hwidth hheight character hvalid).1
  | writeChar character _ ih => exact (ih.writeChar hwidth hheight hvalid).1
  | input _ _ _ _ _ _ _ ih => exact { ih with }

/-- An output may be split where `Write` adds the same newlines. -/
theorem OnGrid.writeScreen_append (h : OnGrid fb tty) (font pixels : ℕ → ℕ) {a b : List UInt8}
    (hends : a = [] ∨ b = [] ∨ tty.endsRow a = false ∧ tty.endsRow b = tty.endsRow (a ++ b)) :
    writeScreen font (writeScreen font (tty, pixels) a) b =
      writeScreen font (tty, pixels) (a ++ b) := by
  have hempty (screen : Tty × (ℕ → ℕ)) : Tty.writeScreen font screen [] = screen := rfl
  by_cases ha : a = []
  · rw [ha, hempty, List.nil_append]
  by_cases hb : b = []
  · rw [hb, hempty, List.append_nil]
  obtain ⟨hends_a, hends_b⟩ := (hends.resolve_left ha).resolve_left hb
  have hdevice := (h.writeChars hvalid hwidth hheight a).device_eq
  have hwrite_a : tty.write a =
      ((Tty.writeChars a tty).1, (Tty.writeChars a tty).2, (a.length : ℤ)) := by
    rw [write_of_ne_nil _ ha (h.device_eq ▸ hvalid), hends_a, if_neg Bool.false_ne_true]
  have hwrite_b := write_of_ne_nil (Tty.writeChars a tty).1 hb (hdevice ▸ hvalid)
  have hwrite_ab := write_of_ne_nil tty (show a ++ b ≠ [] by simp [ha])
    (h.device_eq ▸ hvalid)
  have hcolumns : (Tty.writeChars a tty).1.endsRow b = tty.endsRow (a ++ b) := by
    rw [← hends_b, endsRow, endsRow, maxColumns, maxColumns, hdevice, h.device_eq]
  simp only [Tty.writeScreen, hwrite_a, h.device_eq, hdevice]
  rw [hwrite_b, hwrite_ab, hcolumns, writeChars_append]
  split_ifs
  · rw [← FrameBuffer.render_append, List.append_assoc]
  · rw [← FrameBuffer.render_append]

/-- In every state the cursor is on the screen; the next byte draws inside of it where the width or
the height is a multiple of a character's; and an output may be split where `Write` adds the same
newlines. -/
theorem Reached.staysOnScreen (h : Reached fb tty) :
    (tty.cursorX < fb.width ∧ tty.cursorY + fontHeight ≤ fb.height) ∧
    (fb.width + fontWidth ≤ 2 ^ 32 → fb.width % fontWidth = 0 ∨ fb.height % fontHeight = 0 →
      ∀ character, GlyphsInside fb (tty.putChar character).2 ∧
        GlyphsInside fb (tty.writeChar character).2) ∧
    ∀ font pixels a b,
      a = [] ∨ b = [] ∨ tty.endsRow a = false ∧ tty.endsRow b = tty.endsRow (a ++ b) →
      writeScreen font (writeScreen font (tty, pixels) a) b =
        writeScreen font (tty, pixels) (a ++ b) := by
  have hgrid := h.onGrid hvalid hwidth hheight
  refine ⟨⟨hgrid.x_lt, hgrid.y_le⟩, fun hmax hmod character =>
    ⟨(hgrid.putChar hwidth hheight character hvalid).2 hmax hmod,
      (hgrid.writeChar hwidth hheight hvalid).2 hmax hmod⟩, fun font pixels a b hends => ?_⟩
  exact hgrid.writeScreen_append hvalid hwidth hheight font pixels hends

end OnScreen

/-- A screen of 80 columns and 25 rows. -/
def eightyColumns : FrameBuffer := ⟨0x100000, 640, 400, 640, true⟩

/-- A new terminal of 80 columns and 25 rows. -/
theorem Reached.staysOnScreen_eightyColumns :
    ((Tty.new eightyColumns 0 0).cursorX < eightyColumns.width ∧
      (Tty.new eightyColumns 0 0).cursorY + fontHeight ≤ eightyColumns.height) ∧
    (eightyColumns.width + fontWidth ≤ 2 ^ 32 →
      eightyColumns.width % fontWidth = 0 ∨ eightyColumns.height % fontHeight = 0 →
      ∀ character, GlyphsInside eightyColumns ((Tty.new eightyColumns 0 0).putChar character).2 ∧
        GlyphsInside eightyColumns ((Tty.new eightyColumns 0 0).writeChar character).2) ∧
    ∀ font pixels a b,
      a = [] ∨ b = [] ∨ (Tty.new eightyColumns 0 0).endsRow a = false ∧
        (Tty.new eightyColumns 0 0).endsRow b = (Tty.new eightyColumns 0 0).endsRow (a ++ b) →
      writeScreen font (writeScreen font (Tty.new eightyColumns 0 0, pixels) a) b =
        writeScreen font (Tty.new eightyColumns 0 0, pixels) (a ++ b) :=
  @Reached.staysOnScreen eightyColumns _ rfl (by decide) (by decide)
    (.new rfl rfl (by decide) (.inl (by decide)))

/-! ### Where the screen is left -/

/-- A screen that is almost as high as a 32-bit coordinate allows. -/
def highScreen : FrameBuffer := ⟨0, 8, 2 ^ 32 - 1, 8, true⟩

/-- A screen that is almost as wide as a 32-bit coordinate allows. -/
def wideScreen : FrameBuffer := ⟨0, 2 ^ 32 - 1, 32, 2 ^ 32 - 1, true⟩

private theorem exists_reached_row {n : ℕ} (hn : n < 2 ^ 28) :
    ∃ tty, Reached highScreen tty ∧ tty.frameBufferDevice = highScreen ∧
      tty.cursorY = n * fontHeight := by
  induction n with
  | zero => exact ⟨new highScreen 0 0, .new rfl rfl (by decide) (.inr rfl), rfl, rfl⟩
  | succ n ih =>
    obtain ⟨tty, hreached, hdevice, hy⟩ := ih (by omega)
    refine ⟨_, .putChar 10 hreached, ?_⟩
    have hnext : u32 (tty.cursorY + fontHeight) = (n + 1) * fontHeight := by
      simp only [u32, hy, fontHeight]
      omega
    have hkeep : ¬ highScreen.height ≤ u32 ((n + 1) * fontHeight + fontHeight) := by
      simp only [u32, fontHeight, highScreen]
      omega
    have hput : tty.putChar 10 = (tty.moveTo 0 ((n + 1) * fontHeight), []) := by
      have hchar : tty.putChar 10 = tty.nextRow.clearIfFull := by
        rw [putChar, hdevice]
        rfl
      rw [hchar, nextRow, hnext, clearIfFull, moveTo_frameBufferDevice, hdevice, moveTo_cursorY,
        if_neg hkeep]
    rw [hput]
    exact ⟨hdevice, rfl⟩

private theorem exists_reached_column {n : ℕ} (hn : n < 2 ^ 29) :
    ∃ tty, Reached wideScreen tty ∧ tty.frameBufferDevice = wideScreen ∧
      tty.cursorX = n * fontWidth ∧ tty.cursorY = 0 := by
  induction n with
  | zero => exact ⟨new wideScreen 0 0, .new rfl rfl (by decide) (.inr rfl), rfl, rfl, rfl⟩
  | succ n ih =>
    obtain ⟨tty, hreached, hdevice, hx, hy⟩ := ih (by omega)
    refine ⟨_, .putChar 65 hreached, ?_⟩
    have hnext : u32 (tty.cursorX + fontWidth) = (n + 1) * fontWidth := by
      simp only [u32, hx, fontWidth]
      omega
    have hfits : ¬ wideScreen.width < (n + 1) * fontWidth := by
      simp only [fontWidth, wideScreen]
      omega
    have hinside : ¬ wideScreen.width ≤ (n + 1) * fontWidth := by
      simp only [fontWidth, wideScreen]
      omega
    have hput : (tty.putChar 65).1 = tty.moveTo ((n + 1) * fontWidth) 0 := by
      have hchar : tty.putChar 65 = tty.putGlyph 65 := by
        rw [putChar, hdevice]
        rfl
      rw [hchar, putGlyph, hdevice, hnext, if_neg hfits]
      dsimp only
      rw [hnext, moveTo_frameBufferDevice, hdevice, moveTo_cursorX, if_neg hinside, hy, clearIfFull,
        moveTo_frameBufferDevice, hdevice, moveTo_cursorY, if_neg (by decide)]
    rw [hput]
    exact ⟨hdevice, rfl, rfl⟩

/-- Three columns: the first two characters, and the third one. A screen of 12 by 40 pixels: the
third character. A very high screen, after newlines, and a very wide one, after characters. -/
theorem not_staysOnScreen :
    (∀ font pixels,
      writeScreen font
          (writeScreen font (new ⟨0x10000, 24, 64, 24, true⟩ 0 0, pixels) [65, 66]) [67] ≠
        writeScreen font (new ⟨0x10000, 24, 64, 24, true⟩ 0 0, pixels) [65, 66, 67]) ∧
    (∃ tty, Reached ⟨0x10000, 12, 40, 12, true⟩ tty ∧
      .glyph 0 32 67 0xFFFFFFFF 0 ∈ (tty.writeChar 67).2) ∧
    (∃ tty, Reached highScreen tty ∧ highScreen.height < tty.cursorY + fontHeight) ∧
    ∃ tty, Reached wideScreen tty ∧
      ∃ x y ch t b, .glyph x y ch t b ∈ (tty.putChar 65).2 ∧ wideScreen.width < x + fontWidth := by
  refine ⟨fun font pixels heq => ?_, ?_, ?_, ?_⟩
  · have hrow := congrArg (fun screen : Tty × (ℕ → ℕ) => screen.1.cursorY) heq
    simp only [Tty.writeScreen] at hrow
    revert hrow
    decide +kernel
  · refine ⟨(((new ⟨0x10000, 12, 40, 12, true⟩ 0 0).writeChar 65).1.writeChar 66).1,
      .writeChar 66 (.writeChar 65 (.new rfl rfl (by decide) (.inr rfl))), by decide +kernel⟩
  · obtain ⟨tty, hreached, -, hy⟩ := exists_reached_row (n := 2 ^ 28 - 1) (by decide)
    refine ⟨tty, hreached, ?_⟩
    rw [hy]
    decide
  · obtain ⟨tty, hreached, hdevice, hx, -⟩ := exists_reached_column (n := 2 ^ 29 - 1) (by decide)
    refine ⟨tty, hreached, tty.cursorX, tty.cursorY, 65, tty.textColor, tty.backgroundColor, ?_, ?_⟩
    · have hfits : ¬ wideScreen.width < u32 (tty.cursorX + fontWidth) := by
        rw [hx]
        decide
      have hchar : tty.putChar 65 = tty.putGlyph 65 := by
        rw [putChar, hdevice]
        rfl
      rw [hchar, putGlyph, hdevice, if_neg hfits]
      refine List.mem_append_left _ ?_
      rw [drawChar, hdevice]
      exact List.mem_singleton_self _
    · rw [hx]
      decide

end Tty

end TwistedOS
