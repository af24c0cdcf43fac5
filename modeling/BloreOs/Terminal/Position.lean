import BloreOs.Lib.Page
import BloreOs.Terminal.Pixels

/-!
# Where the terminal prints

`render_x` and `render_y` are a column and a row of character cells, and the prompt is always drawn
on the row of the output. `Placed d t p` says that the position is the one that a `Page` with the
text so far asks for, and `printChar_placed` that one more character keeps it so.
-/

namespace BloreOs

open Loop Buffer

variable {d : Device} {t : Terminal} {row : Nat} {c : UInt8} {p : Page UInt8}

/-- The page after one more character on the screen of `d`. -/
def putChar (d : Device) (p : Page UInt8) (c : UInt8) : Page UInt8 := p.put (chr '\n') d.maxCols c

/-! ## The prompt -/

theorem renderCursor_eq (d : Device) (t : Terminal) :
    ∃ fb x y, renderCursor d t = { t with fb := fb, cursorX := x, cursorY := y } := by
  unfold renderCursor
  split
  · exact ⟨_, _, _, rfl⟩
  · exact ⟨t.fb, t.cursorX, t.cursorY, rfl⟩

theorem renderInputLine_eq (d : Device) (t : Terminal) : ∃ fb x y, renderInputLine d t = { t with
    fb := fb, cursorX := x, cursorY := y, inputRenderX := 18, fgcolor := termDefaultFgcolor
    inputRenderY := if 0 < t.renderX then add32 t.renderY d.glyphHeight else t.renderY } := by
  simp only [renderInputLine]
  obtain ⟨fb, x, y, h⟩ := renderCursor_eq d _
  rw [h]
  exact ⟨fb, x, y, rfl⟩

/-- The pixels of the prompt, if the cursor is hidden. -/
theorem renderInputLine_fb (hx : t.renderX = 0) (hcursor : t.cursorVisible = false) :
    (renderInputLine d t).fb = renderGlyph d 0x44AAFF t.bgcolor (chr ' ') 9 t.renderY
      (renderGlyph d 0x44AAFF t.bgcolor (chr '#') 0 t.renderY t.fb) := by
  have h0 : ¬ 0 < t.renderX := by omega
  simp only [renderInputLine, renderCursor, List.foldl_cons, List.foldl_nil, renderPromptChar, hcursor,
    Bool.false_eq_true, if_false, if_neg h0]
  rfl

@[simp] theorem renderInputLine_renderX (d : Device) (t : Terminal) :
    (renderInputLine d t).renderX = t.renderX := by
  obtain ⟨fb, x, y, h⟩ := renderInputLine_eq d t
  rw [h]

@[simp] theorem renderInputLine_renderY (d : Device) (t : Terminal) :
    (renderInputLine d t).renderY = t.renderY := by
  obtain ⟨fb, x, y, h⟩ := renderInputLine_eq d t
  rw [h]

@[simp] theorem renderInputLine_inputRenderX (d : Device) (t : Terminal) :
    (renderInputLine d t).inputRenderX = 18 := by
  obtain ⟨fb, x, y, h⟩ := renderInputLine_eq d t
  rw [h]

@[simp] theorem renderInputLine_fgcolor (d : Device) (t : Terminal) :
    (renderInputLine d t).fgcolor = termDefaultFgcolor := by
  obtain ⟨fb, x, y, h⟩ := renderInputLine_eq d t
  rw [h]

/-- What printing leaves alone. -/
structure SameMode (t t' : Terminal) : Prop where
  ready : t'.isReady = t.isReady
  bgcolor : t'.bgcolor = t.bgcolor
  cursor : t'.cursorVisible = t.cursorVisible
  input : t'.inputStr = t.inputStr

theorem SameMode.rfl : SameMode t t := ⟨Eq.refl _, Eq.refl _, Eq.refl _, Eq.refl _⟩

theorem SameMode.trans {t' t'' : Terminal} (h : SameMode t t') (h' : SameMode t' t'') :
    SameMode t t'' :=
  ⟨h'.ready.trans h.ready, h'.bgcolor.trans h.bgcolor, h'.cursor.trans h.cursor,
    h'.input.trans h.input⟩

theorem renderInputLine_sameMode (d : Device) (t : Terminal) :
    SameMode t (renderInputLine d t) := by
  obtain ⟨fb, x, y, h⟩ := renderInputLine_eq d t
  rw [h]
  exact ⟨rfl, rfl, rfl, rfl⟩

/-! ## The next line -/

theorem scroll_eq (d : Device) (t : Terminal) :
    ∃ fb y, scroll d t = { t with fb := fb, renderY := y } := by
  unfold scroll
  split
  · exact ⟨_, _, rfl⟩
  · exact ⟨t.fb, t.renderY, rfl⟩

theorem blankUnwritten_eq (d : Device) (t : Terminal) :
    ∃ fb, blankUnwritten d t = { t with fb := fb } := by
  unfold blankUnwritten
  split
  · exact ⟨_, rfl⟩
  · exact ⟨t.fb, rfl⟩

theorem moveToNextLine_eq (d : Device) (t : Terminal) : ∃ fb y,
    moveToNextLine d t = renderInputLine d { t with fb := fb, renderX := 0, renderY := y } := by
  simp only [moveToNextLine]
  obtain ⟨fb, hfb⟩ := blankUnwritten_eq d t
  rw [hfb]
  obtain ⟨fb', y, h⟩ := scroll_eq d
    { t with fb := fb, renderX := 0, renderY := add32 t.renderY d.glyphHeight }
  rw [h]
  exact ⟨_, _, rfl⟩

theorem moveToNextLine_sameMode (d : Device) (t : Terminal) :
    SameMode t (moveToNextLine d t) := by
  obtain ⟨fb, y, h⟩ := moveToNextLine_eq d t
  have hsame : SameMode t { t with fb := fb, renderX := 0, renderY := y } := ⟨rfl, rfl, rfl, rfl⟩
  rw [h]
  exact hsame.trans (renderInputLine_sameMode d _)

@[simp] theorem moveToNextLine_renderX (d : Device) (t : Terminal) :
    (moveToNextLine d t).renderX = 0 := by
  obtain ⟨fb, y, h⟩ := moveToNextLine_eq d t
  rw [h, renderInputLine_renderX]

@[simp] theorem moveToNextLine_inputRenderX (d : Device) (t : Terminal) :
    (moveToNextLine d t).inputRenderX = 18 := by
  obtain ⟨fb, y, h⟩ := moveToNextLine_eq d t
  rw [h, renderInputLine_inputRenderX]

/-! ## Rows -/

namespace Device.Regular

theorem maxRows_eq (h : d.Regular) : d.maxRows = d.height / d.glyphHeight :=
  Nat.mod_eq_of_lt ((Nat.div_le_self _ _).trans_lt h.height_lt)

theorem maxCols_eq (h : d.Regular) : d.maxCols = d.width / 9 :=
  Nat.mod_eq_of_lt ((Nat.div_le_self _ _).trans_lt h.width_lt)

/-- `n` lines fit on the screen exactly if `n` is at most `max_rows`. -/
theorem lines_le_height (h : d.Regular) {n : Nat} :
    d.glyphHeight * n ≤ d.height ↔ n ≤ d.maxRows := by
  rw [h.maxRows_eq, Nat.le_div_iff_mul_le (glyphHeight_pos d), Nat.mul_comm]

theorem maxCols_pos (h : d.Regular) : 0 < d.maxCols := by
  have := h.width_ge
  rw [h.maxCols_eq]
  omega

theorem maxRows_pos (h : d.Regular) : 0 < d.maxRows :=
  h.lines_le_height.mp (by rw [Nat.mul_one]; exact h.height_ge)

end Device.Regular

/-- The row of the output after `n` lines: the screen scrolls once it is full. -/
def rowAfter (d : Device) (n : Nat) : Nat := min n (d.maxRows - 1)

theorem rowAfter_lt (h : d.Regular) (n : Nat) : rowAfter d n < d.maxRows := by
  have := h.maxRows_pos
  unfold rowAfter
  omega

theorem rowAfter_le (d : Device) (n : Nat) : rowAfter d n ≤ n := Nat.min_le_left _ _

theorem rowAfter_zero (d : Device) : rowAfter d 0 = 0 := Nat.zero_min _

/-- While the screen is not full, the next line is the next row. -/
theorem rowAfter_succ_of_lt {n : Nat} (h : rowAfter d n + 1 < d.maxRows) :
    rowAfter d (n + 1) = rowAfter d n + 1 := by
  unfold rowAfter at *
  omega

/-- Afterwards the next line is in the last row again. -/
theorem rowAfter_succ_of_eq {n : Nat} (h : rowAfter d n + 1 = d.maxRows) :
    rowAfter d (n + 1) = rowAfter d n := by
  unfold rowAfter at *
  omega

theorem scroll_of_lt (h : d.Regular) (hrow : row < d.maxRows)
    (hy : t.renderY = d.glyphHeight * row) : scroll d t = t := by
  have hle := h.lines_le_height.mpr hrow
  rw [Nat.mul_succ] at hle
  rw [scroll, if_neg]
  rw [sub64_eq h.height_ge (h.height_lt.trans (by decide))]
  omega

theorem scroll_of_eq (h : d.Regular) (hrow : row + 1 = d.maxRows)
    (hy : t.renderY = d.glyphHeight * (row + 1)) :
    scroll d t = { t with fb := shiftScreenUp d t.fb, renderY := d.glyphHeight * row } := by
  have hle := h.lines_le_height.mpr hrow.le
  have hgt : ¬ d.glyphHeight * (row + 2) ≤ d.height := fun hle' => by
    have := h.lines_le_height.mp hle'
    omega
  have hlt := h.height_lt
  rw [Nat.mul_succ] at hgt hle
  rw [Nat.mul_succ] at hy hgt
  rw [scroll, sub64_eq h.height_ge (h.height_lt.trans (by decide)), if_pos (by omega), hy,
    sub32_eq (by omega) (by omega), Nat.add_sub_cancel]

theorem nextRow_eq (h : d.Regular) (hrow : row + 1 ≤ d.maxRows)
    (hy : t.renderY = d.glyphHeight * row) :
    add32 (blankUnwritten d t).renderY d.glyphHeight = d.glyphHeight * (row + 1) := by
  have hle := h.lines_le_height.mpr hrow
  have hlt := h.height_lt
  rw [Nat.mul_succ] at hle ⊢
  obtain ⟨fb, hfb⟩ := blankUnwritten_eq d t
  rw [hfb]
  simp only [hy]
  exact add32_eq (by omega)

/-- The output at the start of a line, on a given frame buffer. -/
def startLine (t : Terminal) (fb : Buffer UInt32) (y : Nat) : Terminal :=
  { t with fb := fb, renderX := 0, renderY := y }

/-- The next line, above the bottom of the screen. -/
theorem moveToNextLine_of_lt (h : d.Regular) (hrow : row + 1 < d.maxRows)
    (hy : t.renderY = d.glyphHeight * row) :
    moveToNextLine d t = renderInputLine d (blankLine d (startLine (blankUnwritten d t)
      (blankUnwritten d t).fb (d.glyphHeight * (row + 1)))) := by
  simp only [moveToNextLine]
  rw [nextRow_eq h hrow.le hy, scroll_of_lt h hrow rfl]
  rfl

/-- The next line, at the bottom of the screen. -/
theorem moveToNextLine_of_eq (h : d.Regular) (hrow : row + 1 = d.maxRows)
    (hy : t.renderY = d.glyphHeight * row) :
    moveToNextLine d t = renderInputLine d (blankLine d (startLine (blankUnwritten d t)
      (shiftScreenUp d (blankUnwritten d t).fb) (d.glyphHeight * row))) := by
  simp only [moveToNextLine]
  rw [nextRow_eq h hrow.le hy, scroll_of_eq h hrow rfl]
  rfl

theorem moveToNextLine_renderY (h : d.Regular) {n : Nat}
    (hy : t.renderY = d.glyphHeight * rowAfter d n) :
    (moveToNextLine d t).renderY = d.glyphHeight * rowAfter d (n + 1) := by
  have hlt := rowAfter_lt h n
  by_cases hrow : rowAfter d n + 1 < d.maxRows
  · rw [moveToNextLine_of_lt h hrow hy, renderInputLine_renderY, rowAfter_succ_of_lt hrow]
    rfl
  · have hfull : rowAfter d n + 1 = d.maxRows := by omega
    rw [moveToNextLine_of_eq h hfull hy, renderInputLine_renderY, rowAfter_succ_of_eq hfull]
    rfl

/-! ## Characters -/

/-- A character in its cell. -/
def drawChar (d : Device) (t : Terminal) (c : UInt8) : Terminal :=
  { t with
    fb := renderGlyph d t.fgcolor t.bgcolor c t.renderX t.renderY t.fb
    renderX := t.renderX + 9 }

/-- The three things that a character can do, as on a `Page`. -/
theorem printChar_cases (hw : 9 ≤ d.width) (hw' : d.width < 2 ^ 32) {col : Nat}
    (hx : t.renderX = 9 * col) (hcol : col < d.maxCols) (c : UInt8) :
    (c = chr '\n' ∧ printChar d t c = moveToNextLine d t) ∨
    (c ≠ chr '\n' ∧ col + 1 = d.maxCols ∧ printChar d t c = moveToNextLine d (drawChar d t c)) ∨
    (c ≠ chr '\n' ∧ col + 1 ≠ d.maxCols ∧ printChar d t c = drawChar d t c) := by
  have hcols : d.maxCols = d.width / 9 :=
    Nat.mod_eq_of_lt ((Nat.div_le_self _ _).trans_lt hw')
  by_cases hnl : c = chr '\n'
  · exact Or.inl ⟨hnl, if_pos hnl⟩
  · have hadd : add32 t.renderX 9 = t.renderX + 9 := add32_eq (by omega)
    have hsub : sub64 d.width glyphWidth = d.width - 9 := sub64_eq hw (by omega)
    simp only [printChar, if_neg hnl, hadd, hsub]
    by_cases hlast : col + 1 = d.maxCols
    · rw [if_pos (by omega)]
      exact Or.inr (Or.inl ⟨hnl, hlast, rfl⟩)
    · rw [if_neg (by omega)]
      exact Or.inr (Or.inr ⟨hnl, hlast, rfl⟩)

/-- The output is where the page ends. -/
structure Placed (d : Device) (t : Terminal) (p : Page UInt8) : Prop where
  x : t.renderX = 9 * p.cur.length
  col_lt : p.cur.length < d.maxCols
  y : t.renderY = d.glyphHeight * rowAfter d p.done.length

theorem Placed.moveToNextLine (h : d.Regular) {line : List UInt8}
    (hy : t.renderY = d.glyphHeight * rowAfter d p.done.length) :
    Placed d (moveToNextLine d t) (p.endLine line) where
  x := moveToNextLine_renderX d t
  col_lt := h.maxCols_pos
  y := by
    rw [moveToNextLine_renderY h hy, Page.length_done_endLine]

/-- **One character moves the output as it moves the end of the page.** -/
theorem printChar_placed (h : d.Regular) (hp : Placed d t p) (c : UInt8) :
    Placed d (printChar d t c) (putChar d p c) := by
  have hw := h.width_ge
  rcases printChar_cases (by omega) h.width_lt hp.x hp.col_lt c with
    ⟨hnl, hprint⟩ | ⟨hnl, hlast, hprint⟩ | ⟨hnl, hlast, hprint⟩
  · rw [hprint, putChar, Page.put_of_eq hnl]
    exact Placed.moveToNextLine h hp.y
  · rw [hprint, putChar, Page.put_of_last hnl hlast]
    exact Placed.moveToNextLine h hp.y
  · rw [hprint, putChar, Page.put_of_room hnl hlast]
    have hlen : (p.cur ++ [c]).length = p.cur.length + 1 := by simp
    have hlt := hp.col_lt
    refine ⟨?_, by simp only [hlen]; omega, hp.y⟩
    show t.renderX + 9 = _
    rw [hp.x, hlen]
    omega

theorem printChar_sameMode (d : Device) (t : Terminal) (c : UInt8) :
    SameMode t (printChar d t c) := by
  have hdraw : ∀ fb x, SameMode t { t with fb := fb, renderX := x } :=
    fun _ _ => ⟨rfl, rfl, rfl, rfl⟩
  simp only [printChar]
  split
  · exact moveToNextLine_sameMode d t
  · split
    · exact (hdraw _ _).trans (moveToNextLine_sameMode d _)
    · exact hdraw _ _

/-! ## Texts -/

theorem loop_untilNul {b : Buffer UInt8} {n : Nat} (hn : b.data n = 0) : ∀ (m k fuel : Nat),
    k + m = n → (∀ j, k ≤ j → j < n → b.data j ≠ 0) → m < fuel →
      loop (untilNul b) fuel k = some n
  | 0, k, fuel, hk, _, hfuel => by
    obtain ⟨fuel, rfl⟩ := Nat.exists_eq_add_one_of_ne_zero (by omega : fuel ≠ 0)
    obtain rfl : k = n := hk
    have hstop : untilNul b k = .inr k := if_pos hn
    exact loop_inr hstop fuel
  | m + 1, k, fuel, hk, hne, hfuel => by
    obtain ⟨fuel, rfl⟩ := Nat.exists_eq_add_one_of_ne_zero (by omega : fuel ≠ 0)
    have hgo : untilNul b k = .inl (k + 1) := if_neg (hne k le_rfl (by omega))
    rw [loop_inl hgo]
    exact loop_untilNul hn m (k + 1) fuel (by omega) (fun j hj => hne j (by omega)) (by omega)

/-- The loop stops at the first NUL. -/
theorem of_loop_untilNul {b : CharBuffer} {n : Nat} : ∀ (fuel : Nat) {k : Nat},
    loop (untilNul b) fuel k = some n →
      k ≤ n ∧ b.data n = 0 ∧ ∀ j, k ≤ j → j < n → b.data j ≠ 0
  | 0, _, h => by cases h
  | fuel + 1, k, h => by
    by_cases h0 : b.data k = 0
    · have hstop : untilNul b k = .inr k := if_pos h0
      rw [loop_inr hstop] at h
      cases h
      exact ⟨le_rfl, h0, fun j h1 h2 => absurd h1 (by omega)⟩
    · have hgo : untilNul b k = .inl (k + 1) := if_neg h0
      rw [loop_inl hgo] at h
      obtain ⟨hle, hnul, hne⟩ := of_loop_untilNul fuel h
      refine ⟨by omega, hnul, fun j h1 h2 => ?_⟩
      rcases Nat.eq_or_lt_of_le h1 with rfl | hlt
      · exact h0
      · exact hne j hlt h2

/-- What stands behind the first character has no NUL. -/
theorem no_nul_tail_iff {b : CharBuffer} {text : List UInt8}
    (hslice : b.slice 0 text.length = text) :
    0 ∉ text.tail ↔ ∀ j, 1 ≤ j → j < text.length → b.data j ≠ 0 := by
  have htail : text.tail = b.slice 1 (text.length - 1) := by
    cases text with
    | nil => rfl
    | cons c text =>
      rw [List.length_cons, Nat.add_comm, slice_add, slice_one, List.singleton_append,
        List.cons.injEq] at hslice
      exact hslice.2.symm
  rw [htail, slice, List.mem_map]
  constructor
  · rintro hno j h1 h2 hzero
    exact hno ⟨j - 1, List.mem_range.mpr (by omega), by rwa [Nat.add_sub_of_le h1]⟩
  · rintro hne ⟨k, hk, hzero⟩
    rw [List.mem_range] at hk
    exact hne (1 + k) (by omega) (by omega) hzero

/-- **When a text is printed as it is.** The first character is printed whatever it is, so the text
must not be empty, and the loop ends at a NUL behind it. -/
theorem bufferChars_eq_some_iff {b : CharBuffer} {text : List UInt8}
    (hslice : b.slice 0 text.length = text) (hnul : b.data text.length = 0)
    (hlen : text.length < 256) : bufferChars b = some text ↔ text ≠ [] ∧ 0 ∉ text.tail := by
  rw [no_nul_tail_iff hslice]
  constructor
  · intro h
    obtain ⟨n, hn, htext⟩ := Option.map_eq_some_iff.mp h
    obtain ⟨hle, -, hne⟩ := of_loop_untilNul _ hn
    obtain rfl : n = text.length := by rw [← htext, length_slice]
    exact ⟨List.ne_nil_of_length_pos hle, hne⟩
  · rintro ⟨hne, hdata⟩
    have hpos := List.length_pos_iff.mpr hne
    rw [bufferChars, loop_untilNul hnul (text.length - 1) 1 _ (by omega) hdata (by omega),
      Option.map_some, hslice]

/-- A text that is not empty is printed as it is. -/
theorem bufferChars_eq {b : CharBuffer} {text : List UInt8} (hne : text ≠ [])
    (hlen : text.length < 256) (htext : tprintfText b = text) : bufferChars b = some text := by
  obtain ⟨hslice, hnul, h0⟩ := CharBuffer.of_cstr_eq htext hlen
  exact (bufferChars_eq_some_iff hslice hnul hlen).mpr
    ⟨hne, fun hmem => h0 (List.mem_of_mem_tail hmem)⟩

/-- A call of `tprintf` builds the text, inside its buffer. -/
def TprintfCall.Formats (call : TprintfCall) (text : List UInt8) : Prop :=
  ∃ b, call.buffer = some b ∧ tprintfText b = text

/-- The calls that build a short text are those whose format expands to it. -/
theorem formats_expansion {fmt tail : List UInt8} {args : List Arg} {ps : List Piece} (h0 : 0 ∉ fmt)
    (hps : pieces fmt args = some ps) (hstray : tail = [] ∨ .stray ∉ ps)
    (hret : ∀ p ∈ ps, p.Returns) (hnul : 0 ∉ expansion ps) (hlen : (expansion ps).length ≤ 255)
    (stack : Nat → UInt8) :
    TprintfCall.Formats ⟨fmt ++ 0 :: tail, args, stack⟩ (expansion ps) := by
  obtain ⟨b, hb, hext, htext, hend⟩ := formatted_eq h0 hps hstray hret hlen stack
  refine ⟨b, TprintfCall.buffer_eq_some_iff.mpr ⟨hb, hext⟩, ?_⟩
  rw [tprintfText, CharBuffer.cstr_eq (by omega) htext hend, CharBuffer.takeWhile_no_nul hnul]

/-- A format without `%` stands for itself. -/
theorem formats_literal {text : List UInt8} (h0 : 0 ∉ text) (hpct : chr '%' ∉ text)
    (hlen : text.length ≤ 255) (tail : List UInt8) (stack : Nat → UInt8) :
    TprintfCall.Formats ⟨text ++ 0 :: tail, [], stack⟩ text := by
  obtain ⟨b, hb, hext, htext⟩ := literal_pass h0 hpct hlen tail stack
  exact ⟨b, TprintfCall.buffer_eq_some_iff.mpr ⟨hb, hext⟩, htext⟩

/-- Such a text is printed, unless it is empty. -/
theorem TprintfCall.Formats.chars_eq {call : TprintfCall} {text : List UInt8}
    (hcall : call.Formats text) (hne : text ≠ []) (hlen : text.length ≤ 255) :
    call.chars = some text := by
  obtain ⟨b, hb, htext⟩ := hcall
  rw [TprintfCall.chars, hb, Option.bind_some, bufferChars_eq hne (by omega) htext]

theorem Placed.of_fb (hp : Placed d t p) (fb : Buffer UInt32) : Placed d { t with fb := fb } p :=
  ⟨hp.x, hp.col_lt, hp.y⟩

theorem blankUnwritten_placed (hp : Placed d t p) : Placed d (blankUnwritten d t) p := by
  obtain ⟨fb, hfb⟩ := blankUnwritten_eq d t
  rw [hfb]
  exact hp.of_fb fb

end BloreOs
