import BloreOs.Terminal.Basic

/-!
# What the drawing functions do to pixels

A pixel is given by its column and its row. On a `Regular` device no index leaves 32 bits, and every
drawing function has a description by columns and rows:

* `pixel_renderGlyph` — a glyph fills a cell, from the second column of the cell on,
* `pixel_blank` — blanking fills whole rows, and one row more than it should,
* `pixel_shiftScreenUp` — all rows move up by the height of a line.
-/

namespace BloreOs

open Loop Buffer

/-- A frame buffer that is large enough for a line with the prompt, and whose indices fit in 32
bits. -/
structure Device.Regular (d : Device) : Prop where
  width_ge : 18 ≤ d.width
  height_ge : d.glyphHeight ≤ d.height
  width_le : d.width ≤ d.stride
  small : d.height * d.stride + d.width < 2 ^ 32

/-- The pixel in column `x` of row `y`. -/
def pixel (d : Device) (fb : Buffer UInt32) (x y : Nat) : UInt32 := fb.data (y * d.stride + x)

variable {d : Device} {fb : Buffer UInt32} {x y x' y' s : Nat} {fg bg : UInt32} {ch : UInt8}

/-! ## Rows -/

theorem row_lt (hx : x < s) : y * s + x < y' * s ↔ y < y' := by
  constructor
  · intro h
    exact lt_of_mul_lt_mul_right ((Nat.le_add_right _ _).trans_lt h) (Nat.zero_le s)
  · intro h
    calc y * s + x < y * s + s := Nat.add_lt_add_left hx _
      _ = (y + 1) * s := (Nat.succ_mul y s).symm
      _ ≤ y' * s := Nat.mul_le_mul_right s h

theorem row_le (hx : x < s) : y' * s ≤ y * s + x ↔ y' ≤ y := by
  rw [← not_lt, row_lt hx, not_lt]

theorem row_eq (hx : x < s) (hx' : x' < s) : y * s + x = y' * s + x' ↔ y = y' ∧ x = x' := by
  constructor
  · intro h
    have h1 : y' ≤ y := (row_le hx).mp (by rw [h]; exact Nat.le_add_right _ _)
    have h2 : y ≤ y' := (row_le hx').mp (by rw [← h]; exact Nat.le_add_right _ _)
    obtain rfl := Nat.le_antisymm h2 h1
    exact ⟨rfl, Nat.add_left_cancel h⟩
  · rintro ⟨rfl, rfl⟩
    rfl

/-- Up to column `x'` of row `y'` are the rows in front of `y'`, and `y'` itself in columns in front
of `x'`. -/
theorem row_lt_add (hx : x < x') (hx' : x' ≤ s) : y * s + x < y' * s + x' ↔ y ≤ y' := by
  constructor
  · intro h
    by_contra hlt
    have : (y' + 1) * s ≤ y * s := Nat.mul_le_mul_right s (Nat.lt_of_not_le hlt)
    rw [Nat.succ_mul] at this
    omega
  · intro h
    have : y * s ≤ y' * s := Nat.mul_le_mul_right s h
    omega

namespace Device.Regular

theorem stride_pos (h : d.Regular) : 0 < d.stride := by
  have := h.width_ge
  have := h.width_le
  omega

theorem index_lt (h : d.Regular) (hy : y ≤ d.height) (hx : x ≤ d.width) :
    y * d.stride + x < 2 ^ 32 := by
  have h1 : y * d.stride ≤ d.height * d.stride := Nat.mul_le_mul_right _ hy
  have := h.small
  omega

theorem height_lt (h : d.Regular) : d.height < 2 ^ 32 := by
  have h1 : d.height ≤ d.height * d.stride := Nat.le_mul_of_pos_right _ h.stride_pos
  have := h.small
  omega

theorem width_lt (h : d.Regular) : d.width < 2 ^ 32 := by
  have := h.small
  omega

theorem fbindex_eq (h : d.Regular) (hy : y ≤ d.height) (hx : x ≤ d.width) :
    fbindex d x y = y * d.stride + x := by
  have hlt := h.index_lt hy hx
  have h1 := h.height_lt
  have h2 := h.width_lt
  have h3 : y * d.stride < 2 ^ 64 := by omega
  rw [fbindex, Nat.mod_eq_of_lt (show y < 2 ^ 32 by omega),
    Nat.mod_eq_of_lt (show x < 2 ^ 32 by omega), mul64_eq h3, add64_eq (by omega),
    Nat.mod_eq_of_lt hlt]

end Device.Regular

/-- A small screen: three columns and two rows of characters that are one pixel high. -/
def sampleDevice : Device where
  width := 27
  height := 5
  pitch := 108
  charHeight := 1
  glyphData := fun i => if i = 32 then 0 else 255

theorem sampleDevice_regular : sampleDevice.Regular :=
  ⟨by decide, by decide, by decide, by decide⟩

/-! ## Blanking -/

theorem blank_eq {a b : Nat} (h : a ≤ b) (hb : b < 2 ^ 32) : blank fb a b = fb.fill a (b - a) 0 := by
  have hcount : sub64 (4 * b) (4 * a) / 4 = b - a := by
    rw [sub64_eq (by omega) (by omega)]
    omega
  rw [blank, hcount]

/-- Blanking from row `y` to row `y'` blanks row `y'` too. -/
theorem blank_rows (h : d.Regular) (hy : y ≤ y') (hy' : y' ≤ d.height) :
    blank fb (fbindex d 0 y) (fbindex d d.width y')
      = fb.fill (y * d.stride) ((y' - y) * d.stride + d.width) 0 := by
  have hle : y * d.stride ≤ y' * d.stride := Nat.mul_le_mul_right _ hy
  have hlt := h.index_lt hy' le_rfl
  rw [h.fbindex_eq (by omega) (Nat.zero_le _), h.fbindex_eq hy' le_rfl, Nat.add_zero,
    blank_eq (by omega) hlt, Nat.sub_mul]
  congr 1
  omega

theorem pixel_blank (h : d.Regular) (hy : y ≤ y') (hy' : y' ≤ d.height) (hx : x < d.width)
    (r : Nat) :
    pixel d (blank fb (fbindex d 0 y) (fbindex d d.width y')) x r
      = if y ≤ r ∧ r ≤ y' then 0 else pixel d fb x r := by
  have hle : y * d.stride ≤ y' * d.stride := Nat.mul_le_mul_right _ hy
  have hsum : y * d.stride + ((y' - y) * d.stride + d.width) = y' * d.stride + d.width := by
    rw [Nat.sub_mul]
    omega
  rw [blank_rows h hy hy', pixel, data_fill, hsum]
  simp only [row_le (hx.trans_le h.width_le), row_lt_add hx h.width_le]
  rfl

theorem extent_blank (h : d.Regular) (hy : y ≤ y') (hy' : y' ≤ d.height) :
    (blank fb (fbindex d 0 y) (fbindex d d.width y')).extent
      = max fb.extent (y' * d.stride + d.width) := by
  have hle : y * d.stride ≤ y' * d.stride := Nat.mul_le_mul_right _ hy
  have hw := h.width_ge
  rw [blank_rows h hy hy', extent_fill (by omega), Nat.sub_mul]
  congr 1
  omega

/-! ## Scrolling -/

theorem shiftScreenUp_eq (h : d.Regular) :
    shiftScreenUp d fb = blank
      (fb.move 0 (d.glyphHeight * d.stride) ((d.height - d.glyphHeight) * d.stride + d.width))
      (fbindex d 0 (d.height - d.glyphHeight)) (fbindex d d.width d.height) := by
  have hheight := h.height_ge
  have hle : d.glyphHeight * d.stride ≤ d.height * d.stride := Nat.mul_le_mul_right _ hheight
  have hlt := h.index_lt le_rfl le_rfl
  have hlt' := h.height_lt
  have hcount : sub64 (4 * fbindex d d.width d.height) (4 * fbindex d 0 d.glyphHeight) / 4
      = (d.height - d.glyphHeight) * d.stride + d.width := by
    rw [h.fbindex_eq hheight (Nat.zero_le _), h.fbindex_eq le_rfl le_rfl, Nat.add_zero,
      sub64_eq (by omega) (by omega), Nat.sub_mul]
    omega
  simp only [shiftScreenUp]
  rw [hcount, h.fbindex_eq hheight (Nat.zero_le _), Nat.add_zero, sub64_eq hheight (by omega)]

theorem glyphHeight_pos (d : Device) : 0 < d.glyphHeight := Nat.succ_pos _

theorem Device.Regular.lineIndex_pos (h : d.Regular) : 0 < d.glyphHeight * d.stride :=
  Nat.mul_pos (glyphHeight_pos d) h.stride_pos

/-- **Scrolling moves every row up by the height of a line**, and blanks the last line. -/
theorem pixel_shiftScreenUp (h : d.Regular) (hx : x < d.width) (r : Nat) :
    pixel d (shiftScreenUp d fb) x r =
      if r + d.glyphHeight < d.height then pixel d fb x (r + d.glyphHeight)
      else if r ≤ d.height then 0 else pixel d fb x r := by
  have hheight := h.height_ge
  rw [shiftScreenUp_eq h, pixel_blank h (Nat.sub_le _ _) le_rfl hx]
  by_cases hlow : r + d.glyphHeight < d.height
  · rw [if_neg (by omega), if_pos hlow, pixel, data_move h.lineIndex_pos,
      if_pos ⟨Nat.zero_le _, by rw [Nat.zero_add, row_lt_add hx h.width_le]; omega⟩, pixel,
      Nat.add_mul]
    exact congrArg fb.data (by omega)
  · rw [if_neg hlow]
    by_cases hr : r ≤ d.height
    · rw [if_pos (by omega), if_pos hr]
    · rw [if_neg (by omega), if_neg hr, pixel, data_move h.lineIndex_pos, if_neg, pixel]
      rw [Nat.zero_add, row_lt_add hx h.width_le]
      omega

theorem extent_shiftScreenUp (h : d.Regular) :
    (shiftScreenUp d fb).extent = max fb.extent (d.height * d.stride + d.width) := by
  have hheight := h.height_ge
  have hle : d.glyphHeight * d.stride ≤ d.height * d.stride := Nat.mul_le_mul_right _ hheight
  have hw := h.width_ge
  rw [shiftScreenUp_eq h, extent_blank h (Nat.sub_le _ _) le_rfl,
    extent_move h.lineIndex_pos (by omega), Nat.sub_mul]
  omega

/-! ## Glyphs -/

/-- The colour of a glyph's pixel, `x` columns from the left of its cell and `y` rows from its
top. The first column of a cell is not drawn. -/
def glyphColor (d : Device) (fg bg : UInt32) (ch : UInt8) (x y : Nat) : UInt32 :=
  if glyphBit d ch y (8 - x) then fg else bg

theorem pixel_putPixel (h : d.Regular) (hx : x < d.width) (hy : y ≤ d.height) (hx' : x' < d.width)
    (color : UInt32) :
    pixel d (putPixel d x y color fb) x' y' = if y' = y ∧ x' = x then color else pixel d fb x' y' := by
  have hw := h.width_le
  rw [pixel, putPixel, h.fbindex_eq hy hx.le, data_write]
  simp only [row_eq (hx'.trans_le hw) (hx.trans_le hw)]
  rfl

theorem extent_putPixel (h : d.Regular) (hx : x < d.width) (hy : y < d.height) (color : UInt32) :
    (putPixel d x y color fb).extent ≤ max fb.extent (d.height * d.stride) := by
  have hlt : y * d.stride + x < d.height * d.stride := (row_lt (hx.trans_le h.width_le)).mpr hy
  rw [putPixel, h.fbindex_eq hy.le hx.le, write]
  exact max_le_max le_rfl hlt

/-- One row of a glyph: the first `n` bits. -/
theorem pixel_glyphRow (h : d.Regular) (hx : x + 9 ≤ d.width) (hy : y ≤ d.height)
    (hx' : x' < d.width) (bit : Nat → UInt32) : ∀ n ≤ 8,
    pixel d ((List.range n).foldl (fun fb i => putPixel d (x + (8 - i)) y (bit i) fb) fb) x' y' =
      if y' = y ∧ x + 8 < x' + n ∧ x' ≤ x + 8 then bit (x + 8 - x') else pixel d fb x' y'
  | 0, _ => by
    rw [if_neg (by omega)]
    rfl
  | n + 1, hn => by
    rw [List.range_succ, List.foldl_append]
    show pixel d (putPixel d (x + (8 - n)) y (bit n) _) x' y' = _
    rw [pixel_putPixel h (by omega) hy hx', pixel_glyphRow h hx hy hx' bit n (by omega)]
    by_cases hnew : y' = y ∧ x' = x + (8 - n)
    · rw [if_pos hnew, if_pos (by omega)]
      exact congrArg bit (by omega)
    · rw [if_neg hnew]
      by_cases hold : y' = y ∧ x + 8 < x' + n ∧ x' ≤ x + 8
      · rw [if_pos hold, if_pos (by omega)]
      · rw [if_neg hold, if_neg (by omega)]

/-- The first `n` rows of a glyph. -/
theorem pixel_glyphRows (h : d.Regular) (hx : x + 9 ≤ d.width) (hx' : x' < d.width) : ∀ n,
    y + n ≤ d.height →
    pixel d ((List.range n).foldl (fun fb row => (List.range 8).foldl (fun fb i =>
        putPixel d (x + (8 - i)) (y + row) (if glyphBit d ch row i then fg else bg) fb) fb) fb) x' y' =
      if (x < x' ∧ x' ≤ x + 8) ∧ y ≤ y' ∧ y' < y + n then glyphColor d fg bg ch (x' - x) (y' - y)
      else pixel d fb x' y'
  | 0, _ => by
    rw [if_neg (by omega)]
    rfl
  | n + 1, hn => by
    rw [List.range_succ (n := n), List.foldl_append, List.foldl_cons, List.foldl_nil,
      pixel_glyphRow h hx (by omega) hx' (fun i => if glyphBit d ch n i then fg else bg) 8 le_rfl,
      pixel_glyphRows h hx hx' n (by omega)]
    by_cases hnew : y' = y + n ∧ x + 8 < x' + 8 ∧ x' ≤ x + 8
    · have hin : (x < x' ∧ x' ≤ x + 8) ∧ y ≤ y' ∧ y' < y + (n + 1) := by omega
      rw [if_pos hnew, if_pos hin, glyphColor, show y' - y = n by omega,
        show 8 - (x' - x) = x + 8 - x' by omega]
    · rw [if_neg hnew]
      by_cases hold : (x < x' ∧ x' ≤ x + 8) ∧ y ≤ y' ∧ y' < y + n
      · rw [if_pos hold, if_pos (by omega)]
      · rw [if_neg hold, if_neg (by omega)]

/-- **A glyph fills its cell**, except for the first column. -/
theorem pixel_renderGlyph (h : d.Regular) (hx : x + 9 ≤ d.width)
    (hy : y + d.charHeight.toNat ≤ d.height) (hx' : x' < d.width) (y' : Nat) :
    pixel d (renderGlyph d fg bg ch x y fb) x' y' =
      if (x < x' ∧ x' ≤ x + 8) ∧ y ≤ y' ∧ y' < y + d.charHeight.toNat then
        glyphColor d fg bg ch (x' - x) (y' - y)
      else pixel d fb x' y' :=
  pixel_glyphRows h hx hx' _ hy

/-- A glyph on the screen stays on the screen. -/
theorem extent_renderGlyph_le (h : d.Regular) (hx : x + 9 ≤ d.width)
    (hy : y + d.charHeight.toNat ≤ d.height) (hfb : fb.extent ≤ d.height * d.stride) :
    (renderGlyph d fg bg ch x y fb).extent ≤ d.height * d.stride := by
  refine foldl_range_invariant (fun fb : Buffer UInt32 => fb.extent ≤ d.height * d.stride) _ _
    ?_ hfb
  intro row hrow fb hfb
  refine foldl_range_invariant (fun fb : Buffer UInt32 => fb.extent ≤ d.height * d.stride) _ _
    ?_ hfb
  intro i hi fb hfb
  exact (extent_putPixel h (by omega) (by omega) _).trans (max_le hfb le_rfl)

/-! ## Accesses are never forgotten -/

theorem extent_le_renderGlyph : fb.extent ≤ (renderGlyph d fg bg ch x y fb).extent := by
  refine foldl_range_invariant (fun b : Buffer UInt32 => fb.extent ≤ b.extent) _ _ ?_ le_rfl
  intro row _ b hb
  refine foldl_range_invariant (fun b : Buffer UInt32 => fb.extent ≤ b.extent) _ _ ?_ hb
  intro i _ b hb
  exact hb.trans (le_max_left _ _)

end BloreOs
