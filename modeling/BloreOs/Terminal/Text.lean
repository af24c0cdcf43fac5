import BloreOs.Terminal.Position

/-!
# What the screen shows

The reference is a picture of lines of text, drawn from the font alone: `linesImage`. After any
sequence of `tprintf` calls the rows above the output show the last completed lines of the stream.

What makes this work although the prompt is drawn over the line of the output after every line
break, and although the first character of a line does not blank the line again: the `#` of the
prompt is drawn over by the first character, and the space behind it is blank. So the line of the
output is right in all cells but the first, and in the first one too once it is not empty.

* `ShowsText` — this, as an invariant,
* `printChar_shows` — one character,
* `terminal_shows_text` — whole runs.
-/

namespace BloreOs

open Loop Buffer CharBuffer

variable {d : Device} {t : Terminal} {fb fb' : Buffer UInt32} {row x i : Nat} {c : UInt8}
  {p : Page UInt8} {line : List UInt8} {ls : List (List UInt8)}

/-! ## The picture of a text -/

/-- The colour of a character's pixel, in column `x` and row `i` of its cell. -/
def fontColor (d : Device) (ch : UInt8) (x i : Nat) : UInt32 :=
  if (d.glyphData (ch.toNat * d.charHeight.toNat + i)).toNat.testBit (8 - x) then termDefaultFgcolor
  else 0

/-- The picture of a line, in column `x` and row `i`. The first column and the last row of a cell
are empty, and so is what is to the right of the text. -/
def lineImage (d : Device) (cs : List UInt8) (x i : Nat) : UInt32 :=
  if x % 9 = 0 ∨ d.charHeight.toNat ≤ i then 0
  else match cs[x / 9]? with
    | some ch => fontColor d ch (x % 9) i
    | none => 0

/-- The picture of lines below each other. -/
def linesImage (d : Device) (ls : List (List UInt8)) (x y : Nat) : UInt32 :=
  lineImage d (ls[y / d.glyphHeight]?.getD []) x (y % d.glyphHeight)

/-- The top of the screen shows the lines. -/
def Shown (d : Device) (fb : Buffer UInt32) (ls : List (List UInt8)) : Prop :=
  ∀ x < d.width, ∀ y < d.glyphHeight * ls.length, pixel d fb x y = linesImage d ls x y

/-- The glyph of the space is blank. -/
def BlankSpace (d : Device) : Prop :=
  ∀ i < d.charHeight.toNat, d.glyphData ((chr ' ').toNat * d.charHeight.toNat + i) = 0

theorem lineImage_nil (d : Device) (x i : Nat) : lineImage d [] x i = 0 := by
  unfold lineImage
  split <;> rfl

/-- One more character changes the picture in its own cell only. -/
theorem lineImage_append (d : Device) (line : List UInt8) (c : UInt8) (x i : Nat) :
    lineImage d (line ++ [c]) x i =
      if (9 * line.length < x ∧ x ≤ 9 * line.length + 8) ∧ i < d.charHeight.toNat then
        fontColor d c (x - 9 * line.length) i
      else lineImage d line x i := by
  unfold lineImage
  by_cases hedge : x % 9 = 0 ∨ d.charHeight.toNat ≤ i
  · rw [if_pos hedge, if_neg (by omega), if_pos hedge]
  · rw [if_neg hedge, if_neg hedge]
    by_cases hcell : x / 9 = line.length
    · rw [if_pos (by omega), hcell, List.getElem?_concat_length]
      show fontColor d c (x % 9) i = _
      congr 1
      omega
    · rw [if_neg (by omega)]
      rcases Nat.lt_or_gt_of_ne hcell with hlt | hgt
      · rw [List.getElem?_append_left hlt]
      · rw [List.getElem?_eq_none (by simp; omega), List.getElem?_eq_none (by omega)]

/-! ## Lines on the screen -/

theorem Shown.congr (hs : Shown d fb ls)
    (heq : ∀ x < d.width, ∀ y < d.glyphHeight * ls.length, pixel d fb' x y = pixel d fb x y) :
    Shown d fb' ls := fun x hx y hy => (heq x hx y hy).trans (hs x hx y hy)

/-- One more line. -/
theorem Shown.append (hs : Shown d fb ls) (hline : ∀ x < d.width, ∀ i < d.glyphHeight,
    pixel d fb x (d.glyphHeight * ls.length + i) = lineImage d line x i) :
    Shown d fb (ls ++ [line]) := by
  intro x hx y hy
  rw [List.length_append, List.length_singleton, Nat.mul_succ] at hy
  have hgh := glyphHeight_pos d
  unfold linesImage
  by_cases hold : y < d.glyphHeight * ls.length
  · rw [hs x hx y hold, List.getElem?_append_left (Nat.div_lt_of_lt_mul hold)]
    rfl
  · obtain ⟨i, rfl⟩ := Nat.exists_eq_add_of_le (Nat.le_of_not_lt hold)
    have hi : i < d.glyphHeight := by omega
    rw [hline x hx i hi, Nat.mul_add_div hgh, Nat.div_eq_of_lt hi, Nat.add_zero,
      List.getElem?_concat_length, Nat.mul_add_mod, Nat.mod_eq_of_lt hi]
    rfl

/-- Scrolling drops the first line. -/
theorem Shown.shift (h : d.Regular) (hs : Shown d fb (line :: ls))
    (hfit : ls.length + 1 ≤ d.maxRows) : Shown d (shiftScreenUp d fb) ls := by
  intro x hx y hy
  have hle := h.lines_le_height.mpr hfit
  rw [Nat.mul_succ] at hle
  have hgh := glyphHeight_pos d
  rw [pixel_shiftScreenUp h hx, if_pos (by omega), hs x hx _ (by
    rw [List.length_cons, Nat.mul_succ]
    omega)]
  unfold linesImage
  rw [Nat.add_div_right y hgh, Nat.add_mod_right, List.getElem?_cons_succ]

theorem length_last_rowAfter (p : Page UInt8) :
    (p.last (rowAfter d p.done.length)).length = rowAfter d p.done.length :=
  Page.length_last (rowAfter_le d _)

/-! ## The line of the output -/

/-- The first cell of a line, where a glyph draws. -/
def InFirstCell (d : Device) (x i : Nat) : Prop := (1 ≤ x ∧ x ≤ 8) ∧ i < d.charHeight.toNat

theorem pixel_blankLine (h : d.Regular) (hy : t.renderY + d.glyphHeight ≤ d.height)
    (hx : x < d.width) (r : Nat) :
    pixel d (blankLine d t).fb x r =
      if t.renderY ≤ r ∧ r ≤ t.renderY + d.glyphHeight then 0 else pixel d t.fb x r := by
  have hlt := h.height_lt
  rw [blankLine, add32_eq (by omega), pixel_blank h (Nat.le_add_right _ _) hy hx]

/-- An ASCII character has its glyph where the font says. -/
theorem glyphBit_ascii (hc : c < 128) (hi : i < d.charHeight.toNat) (b : Nat) :
    glyphBit d c i b = (d.glyphData (c.toNat * d.charHeight.toNat + i)).toNat.testBit b := by
  have hc' : c.toNat < 128 := hc
  have hheight : d.charHeight.toNat < 256 := d.charHeight.toNat_lt_size
  have hmul : c.toNat * d.charHeight.toNat ≤ 128 * 256 := Nat.mul_le_mul hc'.le hheight.le
  rw [glyphBit, dataIndex, if_pos hc, add32_eq (by omega)]

theorem glyphColor_space (hspace : BlankSpace d) (fg bg : UInt32)
    (hi : i < d.charHeight.toNat) : glyphColor d fg bg (chr ' ') x i = bg := by
  rw [glyphColor, glyphBit_ascii (by decide) hi, hspace i hi]
  simp

/-- The prompt is drawn in the first cell. Its second character is blank. -/
theorem pixel_renderInputLine (h : d.Regular) (hspace : BlankSpace d) (hx0 : t.renderX = 0)
    (hy : t.renderY + d.glyphHeight ≤ d.height) (hcursor : t.cursorVisible = false)
    (hbg : t.bgcolor = 0) (hx : x < d.width) (r : Nat) :
    pixel d (renderInputLine d t).fb x r = pixel d t.fb x r ∨
      (t.renderY ≤ r ∧ (InFirstCell d x (r - t.renderY) ∨
        pixel d (renderInputLine d t).fb x r = 0)) := by
  have hw := h.width_ge
  have hgh : d.glyphHeight = d.charHeight.toNat + 1 := rfl
  rw [renderInputLine_fb hx0 hcursor, pixel_renderGlyph h (by omega) (by omega) hx]
  split
  · next hin =>
    right
    rw [hbg, glyphColor_space hspace _ _ (by omega)]
    exact ⟨hin.2.1, Or.inr rfl⟩
  · rw [pixel_renderGlyph h (by omega) (by omega) hx]
    split
    · next hin =>
      right
      exact ⟨hin.2.1, Or.inl ⟨by omega, by omega⟩⟩
    · exact Or.inl rfl

/-- **The invariant.** The position is right, the rows above show the last completed lines, and the
line of the output shows the current line, except that the prompt may be in its first cell while the
line is empty. -/
structure ShowsText (d : Device) (t : Terminal) (p : Page UInt8) : Prop where
  placed : Placed d t p
  ready : t.isReady = true
  fg : t.fgcolor = termDefaultFgcolor
  bg : t.bgcolor = 0
  cursor : t.cursorVisible = false
  above : Shown d t.fb (p.last (rowAfter d p.done.length))
  current : ∀ x < d.width, ∀ i < d.glyphHeight, (p.cur = [] ∧ InFirstCell d x i) ∨
    pixel d t.fb x (t.renderY + i) = lineImage d p.cur x i

/-- A new line with the prompt, below lines that are shown. -/
theorem showsText_of_prompt (h : d.Regular) (hspace : BlankSpace d) (hx0 : t.renderX = 0)
    (hcur : p.cur = []) (hy : t.renderY = d.glyphHeight * rowAfter d p.done.length)
    (hready : t.isReady = true) (hbg : t.bgcolor = 0) (hcursor : t.cursorVisible = false)
    (habove : Shown d t.fb (p.last (rowAfter d p.done.length)))
    (hblank : ∀ x < d.width, ∀ i < d.glyphHeight, pixel d t.fb x (t.renderY + i) = 0) :
    ShowsText d (renderInputLine d t) p := by
  have hmode := renderInputLine_sameMode d t
  have hrow := h.lines_le_height.mpr (rowAfter_lt h p.done.length)
  rw [Nat.mul_succ] at hrow
  have hbottom : t.renderY + d.glyphHeight ≤ d.height := by omega
  constructor
  case placed =>
    refine ⟨?_, ?_, ?_⟩
    · rw [renderInputLine_renderX, hx0, hcur]
      rfl
    · rw [hcur]
      exact h.maxCols_pos
    · rw [renderInputLine_renderY, hy]
  case ready => rw [hmode.ready, hready]
  case fg => exact renderInputLine_fgcolor d t
  case bg => rw [hmode.bgcolor, hbg]
  case cursor => rw [hmode.cursor, hcursor]
  case above =>
    refine habove.congr fun x hx y hlt => ?_
    rw [length_last_rowAfter, ← hy] at hlt
    rcases pixel_renderInputLine h hspace hx0 hbottom hcursor hbg hx y with hsame | ⟨hge, -⟩
    · exact hsame
    · omega
  case current =>
    intro x hx i hi
    rw [renderInputLine_renderY, hcur, lineImage_nil]
    rcases pixel_renderInputLine h hspace hx0 hbottom hcursor hbg hx (t.renderY + i) with
      hsame | ⟨-, hcell | hzero⟩
    · right
      rw [hsame, hblank x hx i hi]
    · left
      rw [Nat.add_sub_cancel_left] at hcell
      exact ⟨rfl, hcell⟩
    · exact Or.inr hzero

theorem ShowsText.bottom_le (h : d.Regular) (hs : ShowsText d t p) :
    t.renderY + d.glyphHeight ≤ d.height := by
  have hrow := h.lines_le_height.mpr (rowAfter_lt h p.done.length)
  rw [Nat.mul_succ, ← hs.placed.y] at hrow
  exact hrow

/-- Blanking a line in which nothing is written. -/
theorem blankUnwritten_shows (h : d.Regular) (hs : ShowsText d t p) :
    ShowsText d (blankUnwritten d t) p ∧
      ∀ x < d.width, ∀ i < d.glyphHeight,
        pixel d (blankUnwritten d t).fb x (t.renderY + i) = lineImage d p.cur x i := by
  have hbottom := hs.bottom_le h
  unfold blankUnwritten
  by_cases hx0 : t.renderX = 0
  · have hcur : p.cur = [] := List.length_eq_zero_iff.mp (by
      have := hs.placed.x
      omega)
    have hline : ∀ x < d.width, ∀ i < d.glyphHeight,
        pixel d (blankLine d t).fb x (t.renderY + i) = lineImage d p.cur x i := by
      intro x hx i hi
      rw [pixel_blankLine h hbottom hx, if_pos (by omega), hcur, lineImage_nil]
    rw [if_pos hx0]
    refine ⟨⟨hs.placed.of_fb _, hs.ready, hs.fg, hs.bg, hs.cursor, ?_, ?_⟩, hline⟩
    · refine hs.above.congr fun x hx y hy => ?_
      rw [length_last_rowAfter, ← hs.placed.y] at hy
      rw [pixel_blankLine h hbottom hx, if_neg (by omega)]
    · exact fun x hx i hi => Or.inr (hline x hx i hi)
  · have hcur : p.cur ≠ [] := fun hnil => hx0 (by rw [hs.placed.x, hnil]; rfl)
    rw [if_neg hx0]
    exact ⟨hs, fun x hx i hi => (hs.current x hx i hi).resolve_left fun hno => hcur hno.1⟩

/-- A line that is blanked and gets the prompt, below lines that are shown. -/
theorem newLine_shows (h : d.Regular) (hspace : BlankSpace d) (hx0 : t.renderX = 0)
    (hcur : p.cur = []) (hready : t.isReady = true) (hbg : t.bgcolor = 0)
    (hcursor : t.cursorVisible = false) {n : Nat} (hn : p.done.length = n)
    (hy : t.renderY = d.glyphHeight * rowAfter d n) (habove : Shown d t.fb (p.last (rowAfter d n))) :
    ShowsText d (renderInputLine d (blankLine d t)) p := by
  subst hn
  have hrow := h.lines_le_height.mpr (rowAfter_lt h p.done.length)
  rw [Nat.mul_succ, ← hy] at hrow
  refine showsText_of_prompt h hspace hx0 hcur hy hready hbg hcursor ?_ ?_
  · refine habove.congr fun x hx y hylt => ?_
    rw [length_last_rowAfter, ← hy] at hylt
    rw [pixel_blankLine h hrow hx, if_neg (by omega)]
  · intro x hx i hi
    show pixel d (blankLine d t).fb x (t.renderY + i) = 0
    rw [pixel_blankLine h hrow hx, if_pos (by omega)]

/-- Scrolling, for the lines of a page. -/
theorem shown_tail_shift (h : d.Regular) {n : Nat} (hlen : ls.length = n + 1) (hn : n < d.maxRows)
    (hs : Shown d fb ls) : Shown d (shiftScreenUp d fb) ls.tail := by
  cases ls with
  | nil => simp at hlen
  | cons line rest =>
    rw [List.length_cons] at hlen
    have hfit : rest.length + 1 ≤ d.maxRows := by omega
    exact hs.shift h hfit

/-- **The end of a line.** What the line of the output shows becomes the last completed line. -/
theorem moveToNextLine_shows (h : d.Regular) (hspace : BlankSpace d) {t₁ : Terminal}
    (ht₁ : blankUnwritten d t = t₁) (hready : t₁.isReady = true) (hbg : t₁.bgcolor = 0)
    (hcursor : t₁.cursorVisible = false)
    (hy : t₁.renderY = d.glyphHeight * rowAfter d p.done.length)
    (habove : Shown d t₁.fb (p.last (rowAfter d p.done.length)))
    (hline : ∀ x < d.width, ∀ i < d.glyphHeight,
      pixel d t₁.fb x (t₁.renderY + i) = lineImage d line x i) :
    ShowsText d (moveToNextLine d t) (p.endLine line) := by
  have hy' : t.renderY = d.glyphHeight * rowAfter d p.done.length := by
    obtain ⟨fb, hfb⟩ := blankUnwritten_eq d t
    rw [← hy, ← ht₁, hfb]
  have hlt := rowAfter_lt h p.done.length
  have hlen : (p.last (rowAfter d p.done.length) ++ [line]).length
      = rowAfter d p.done.length + 1 := by
    rw [List.length_append, length_last_rowAfter, List.length_singleton]
  have hall : Shown d t₁.fb (p.last (rowAfter d p.done.length) ++ [line]) := by
    refine habove.append fun x hx i hi => ?_
    rw [length_last_rowAfter, ← hy]
    exact hline x hx i hi
  have hdone := Page.length_done_endLine p line
  by_cases hscroll : rowAfter d p.done.length + 1 < d.maxRows
  · have hrow := rowAfter_succ_of_lt hscroll
    rw [moveToNextLine_of_lt h hscroll hy', ht₁]
    refine newLine_shows h hspace rfl rfl hready hbg hcursor hdone (by rw [hrow]; rfl) ?_
    rw [hrow, Page.last_endLine_succ]
    exact hall
  · have hfull : rowAfter d p.done.length + 1 = d.maxRows := by omega
    have hrow := rowAfter_succ_of_eq hfull
    rw [moveToNextLine_of_eq h hfull hy', ht₁]
    refine newLine_shows h hspace rfl rfl hready hbg hcursor hdone (by rw [hrow]; rfl) ?_
    rw [hrow, Page.last_endLine (rowAfter_le d _)]
    exact shown_tail_shift h hlen hlt hall

/-! ## Characters -/

/-- A character in its cell. -/
theorem drawChar_shows (h : d.Regular) (hs : ShowsText d t p) (hc : c < 128) :
    Shown d (drawChar d t c).fb (p.last (rowAfter d p.done.length)) ∧
      ∀ x < d.width, ∀ i < d.glyphHeight,
        pixel d (drawChar d t c).fb x (t.renderY + i) = lineImage d (p.cur ++ [c]) x i := by
  have hbottom := hs.bottom_le h
  have hgh : d.glyphHeight = d.charHeight.toNat + 1 := rfl
  have hcell : t.renderX + 9 ≤ d.width := by
    have h1 := hs.placed.x
    have h2 := hs.placed.col_lt
    rw [h.maxCols_eq] at h2
    omega
  constructor
  · refine hs.above.congr fun x hx y hy => ?_
    rw [length_last_rowAfter, ← hs.placed.y] at hy
    rw [drawChar, pixel_renderGlyph h hcell (by omega) hx, if_neg (by omega)]
  · intro x hx i hi
    rw [drawChar, pixel_renderGlyph h hcell (by omega) hx, lineImage_append, ← hs.placed.x]
    by_cases hin : (t.renderX < x ∧ x ≤ t.renderX + 8) ∧ i < d.charHeight.toNat
    · rw [if_pos (by omega), if_pos hin, Nat.add_sub_cancel_left, glyphColor, fontColor,
        glyphBit_ascii hc hin.2, hs.fg, hs.bg]
    · rw [if_neg (by omega), if_neg hin]
      refine (hs.current x hx i hi).resolve_left ?_
      -- in an empty line the first cell is the one that has just been drawn
      rintro ⟨hnil, hfirst⟩
      have hx0 := hs.placed.x
      rw [hnil, List.length_nil] at hx0
      unfold InFirstCell at hfirst
      omega

/-- **One character.** -/
theorem printChar_shows (h : d.Regular) (hspace : BlankSpace d) (hs : ShowsText d t p)
    (hc : c < 128) : ShowsText d (printChar d t c) (putChar d p c) := by
  have hw := h.width_ge
  obtain ⟨habove, hline⟩ := drawChar_shows h hs hc
  rcases printChar_cases (by omega) h.width_lt hs.placed.x hs.placed.col_lt c with
    ⟨hnl, hprint⟩ | ⟨hnl, hlast, hprint⟩ | ⟨hnl, hlast, hprint⟩
  · rw [hprint, putChar, Page.put_of_eq hnl]
    obtain ⟨hs₁, hline₁⟩ := blankUnwritten_shows h hs
    have hy : (blankUnwritten d t).renderY = t.renderY := by rw [hs₁.placed.y, hs.placed.y]
    exact moveToNextLine_shows h hspace rfl hs₁.ready hs₁.bg hs₁.cursor hs₁.placed.y hs₁.above
      (by rw [hy]; exact hline₁)
  · rw [hprint, putChar, Page.put_of_last hnl hlast]
    have hne : ¬ (drawChar d t c).renderX = 0 := Nat.succ_ne_zero _
    exact moveToNextLine_shows h hspace (if_neg hne) hs.ready hs.bg hs.cursor hs.placed.y habove
      hline
  · have hplaced := printChar_placed h hs.placed c
    rw [hprint, putChar, Page.put_of_room hnl hlast] at *
    exact ⟨hplaced, hs.ready, hs.fg, hs.bg, hs.cursor, habove,
      fun x hx i hi => Or.inr (hline x hx i hi)⟩

theorem printChars_shows (h : d.Regular) (hspace : BlankSpace d) {cs : List UInt8}
    (hs : ShowsText d t p) (hascii : ∀ c ∈ cs, c < 128) :
    ShowsText d (cs.foldl (printChar d) t) (cs.foldl (putChar d) p) :=
  List.foldl_rel hs fun c hc _ _ hs => printChar_shows h hspace hs (hascii c hc)

/-! ## Runs -/

theorem termClear_shows (h : d.Regular) (hspace : BlankSpace d) (hready : t.isReady = true)
    (hbg : t.bgcolor = 0) (hcursor : t.cursorVisible = false) :
    ShowsText d (termClear d t) Page.empty := by
  have hrow : rowAfter d (Page.empty : Page UInt8).done.length = 0 := rowAfter_zero d
  refine showsText_of_prompt h hspace rfl rfl ?_ hready hbg hcursor ?_ ?_
  · rw [hrow]
    rfl
  · intro x hx y hy
    simp [Page.last, Page.empty] at hy
  · intro x hx i hi
    show pixel d (clearScreen d t.fb) x (0 + i) = 0
    have := h.height_ge
    rw [clearScreen, pixel_blank h (Nat.zero_le _) le_rfl hx, if_pos (by omega)]

/-- One call. -/
theorem tprintf_shows (h : d.Regular) (hspace : BlankSpace d) (hs : ShowsText d t p)
    {call : TprintfCall} {text : List UInt8} (hcall : call.Formats text) (hne : text ≠ [])
    (hlen : text.length ≤ 255) (hascii : ∀ c ∈ text, c < 128) :
    ∃ t', tprintf d t call = some t' ∧ ShowsText d t' (text.foldl (putChar d) p) := by
  have hchars := hcall.chars_eq hne hlen
  refine ⟨printChars d t text, ?_, ?_⟩
  · rw [tprintf, if_pos hs.ready, hchars, Option.map_some]
  · exact printChars_shows h hspace (blankUnwritten_shows h hs).1 hascii

/-- All calls. -/
theorem run_tprintf_shows (h : d.Regular) (hspace : BlankSpace d) {calls : List TprintfCall}
    {texts : List (List UInt8)} (hcalls : List.Forall₂ TprintfCall.Formats calls texts) :
    ∀ {t : Terminal} {p : Page UInt8}, ShowsText d t p →
      (∀ text ∈ texts, text ≠ [] ∧ text.length ≤ 255 ∧ ∀ c ∈ text, c < 128) →
      ∃ t', run (tprintf d) calls t = some t' ∧
        ShowsText d t' (texts.flatten.foldl (putChar d) p) := by
  induction hcalls with
  | nil => exact fun hs _ => ⟨_, rfl, hs⟩
  | cons hcall _ ih =>
    intro t p hs htexts
    rw [List.forall_mem_cons] at htexts
    obtain ⟨⟨hne, hlen, hascii⟩, hrest⟩ := htexts
    obtain ⟨t₁, ht₁, hs₁⟩ := tprintf_shows h hspace hs hcall hne hlen hascii
    obtain ⟨t', ht', hs'⟩ := ih hs₁ hrest
    refine ⟨t', run_cons_eq_some.mpr ⟨t₁, ht₁, ht'⟩, ?_⟩
    rw [List.flatten_cons, List.foldl_append]
    exact hs'

/--
**The screen shows the printed text.**

For every frame buffer that is `Regular` and every font with a blank space, from `term_clear` on,
with the cursor hidden. After any sequence of calls that print texts of 1 to 255 ASCII characters,
the output is in the cell behind the unfinished line, in the row behind the completed lines or in
the last row of the screen, and the pixels above it are the picture of the last completed lines of
everything that was printed.
-/
theorem terminal_shows_text (h : d.Regular) (hspace : BlankSpace d) (t : Terminal)
    (hready : t.isReady = true) (hbg : t.bgcolor = 0) (hcursor : t.cursorVisible = false)
    (calls : List TprintfCall) (texts : List (List UInt8))
    (hcalls : List.Forall₂ TprintfCall.Formats calls texts)
    (htexts : ∀ text ∈ texts, 1 ≤ text.length ∧ text.length ≤ 255 ∧ ∀ c ∈ text, c < 128) :
    ∃ t', run (tprintf d) calls (termClear d t) = some t' ∧
      let stream := Page.putAll (chr '\n') d.maxCols Page.empty texts.flatten
      let col := stream.cur.length
      let row := min stream.done.length (d.maxRows - 1)
      t'.renderX = 9 * col ∧ col < d.maxCols ∧
        t'.renderY = d.glyphHeight * row ∧ row < d.maxRows ∧
          ∀ x < d.width, ∀ y < t'.renderY, pixel d t'.fb x y = linesImage d (stream.last row) x y := by
  have hne : ∀ text ∈ texts, text ≠ [] ∧ text.length ≤ 255 ∧ ∀ c ∈ text, c < 128 := by
    intro text hmem
    obtain ⟨h1, h2, h3⟩ := htexts text hmem
    exact ⟨List.ne_nil_of_length_pos h1, h2, h3⟩
  obtain ⟨t', ht', hs⟩ := run_tprintf_shows h hspace hcalls
    (termClear_shows h hspace hready hbg hcursor) hne
  refine ⟨t', ht', hs.placed.x, hs.placed.col_lt, hs.placed.y, rowAfter_lt h _,
    fun x hx y hy => ?_⟩
  refine hs.above x hx y ?_
  rw [length_last_rowAfter, ← hs.placed.y]
  exact hy

/-- `tprintf("a\n")` on the small screen. -/
theorem terminal_shows_a : ∃ t', run (tprintf sampleDevice)
      [⟨[97, 10] ++ 0 :: [], [], fun _ => 1⟩]
      (termClear sampleDevice { Terminal.boot (fun _ => 7) with isReady := true }) = some t' ∧
    let stream := Page.putAll (chr '\n') sampleDevice.maxCols Page.empty [[97, 10]].flatten
    let col := stream.cur.length
    let row := min stream.done.length (sampleDevice.maxRows - 1)
    t'.renderX = 9 * col ∧ col < sampleDevice.maxCols ∧
      t'.renderY = sampleDevice.glyphHeight * row ∧ row < sampleDevice.maxRows ∧
        ∀ x < sampleDevice.width, ∀ y < t'.renderY,
          pixel sampleDevice t'.fb x y = linesImage sampleDevice (stream.last row) x y := by
  have hcall : TprintfCall.Formats ⟨[97, 10] ++ 0 :: [], [], fun _ => 1⟩ [97, 10] :=
    formats_literal (by decide) (by decide) (by decide) [] _
  have hspace : BlankSpace sampleDevice := by
    intro i hi
    obtain rfl : i = 0 := Nat.lt_one_iff.mp hi
    rfl
  refine terminal_shows_text sampleDevice_regular hspace _ rfl rfl rfl _ [[97, 10]]
    (List.Forall₂.cons hcall List.Forall₂.nil) ?_
  rw [List.forall_mem_singleton]
  refine ⟨by decide, by decide, fun c hc => ?_⟩
  rcases List.mem_pair.mp hc with rfl | rfl <;> decide

end BloreOs
