import BloreOs.Terminal.Position

/-!
# Drawing inside the frame buffer

Blanking a line covers the pixel row below the line too, and scrolling and `term_clear` run over the
end of the frame buffer in the same way. So the drawing stays inside as long as there is a pixel row
left below the line of the output.

* `Room` — there is one,
* `moveToNextLine_extent_iff`, `printChar_bounded` — printing stays inside exactly if there is one
  after all lines that it has completed,
* `drawing_in_bounds_iff` — runs of `tprintf` and `term_clear`.
-/

namespace BloreOs

open Loop Buffer

variable {d : Device} {t t' : Terminal} {fb : Buffer UInt32} {c : UInt8} {p : Page UInt8} {n : Nat}

/-- The frame buffer ends here: one more than the index of the last pixel. -/
def Device.limit (d : Device) : Nat := d.height * d.stride

/-- After `n` lines there is a pixel row below the line of the output. -/
def Room (d : Device) (n : Nat) : Prop := d.glyphHeight * (n + 1) < d.height

instance (d : Device) (n : Nat) : Decidable (Room d n) := Nat.decLt _ _

theorem Room.of_succ (h : Room d (n + 1)) : Room d n := by
  have := glyphHeight_pos d
  unfold Room at *
  rw [Nat.mul_succ] at h
  omega

/-- While there is room, the screen does not scroll. -/
theorem Room.rowAfter_eq (h : d.Regular) (hroom : Room d n) : rowAfter d n = n := by
  have hle := h.lines_le_height.mp (Nat.le_of_lt hroom)
  unfold rowAfter
  omega

/-! ## Accesses are never forgotten -/

theorem extent_le_drawCursor (d : Device) (x y : Nat) (color : UInt32) (fb : Buffer UInt32) :
    fb.extent ≤ (drawCursor d x y color fb).extent :=
  foldl_range_invariant (fun b : Buffer UInt32 => fb.extent ≤ b.extent) _ _
    (fun _ _ _ hb => hb.trans (le_max_left _ _)) le_rfl

theorem extent_le_renderCursor (d : Device) (t : Terminal) :
    t.fb.extent ≤ (renderCursor d t).fb.extent := by
  unfold renderCursor
  split
  · exact extent_le_drawCursor d _ _ _ _
  · exact le_rfl

theorem extent_le_renderInputLine (d : Device) (t : Terminal) :
    t.fb.extent ≤ (renderInputLine d t).fb.extent := by
  simp only [renderInputLine]
  refine le_trans ?_ (extent_le_renderCursor d _)
  simp only [List.foldl_cons, List.foldl_nil, renderPromptChar]
  exact extent_le_renderGlyph.trans extent_le_renderGlyph

theorem extent_le_blankLine (d : Device) (t : Terminal) :
    t.fb.extent ≤ (blankLine d t).fb.extent := extent_le_fill

theorem extent_le_blankUnwritten (d : Device) (t : Terminal) :
    t.fb.extent ≤ (blankUnwritten d t).fb.extent := by
  unfold blankUnwritten
  split
  · exact extent_le_blankLine d t
  · exact le_rfl

theorem extent_le_moveToNextLine (h : d.Regular) (t : Terminal) :
    t.fb.extent ≤ (moveToNextLine d t).fb.extent := by
  simp only [moveToNextLine]
  refine le_trans ?_ (extent_le_renderInputLine d _)
  refine le_trans ?_ (extent_le_blankLine d _)
  refine (extent_le_blankUnwritten d t).trans ?_
  unfold scroll
  split
  · show _ ≤ (shiftScreenUp d _).extent
    rw [extent_shiftScreenUp h]
    exact le_max_left _ _
  · exact le_rfl

theorem extent_le_printChar (h : d.Regular) (t : Terminal) (c : UInt8) :
    t.fb.extent ≤ (printChar d t c).fb.extent := by
  simp only [printChar]
  split
  · exact extent_le_moveToNextLine h t
  · split
    · refine le_trans ?_ (extent_le_moveToNextLine h _)
      exact extent_le_renderGlyph
    · exact extent_le_renderGlyph

theorem extent_le_printChars (h : d.Regular) (t : Terminal) (cs : List UInt8) :
    t.fb.extent ≤ (printChars d t cs).fb.extent := by
  refine List.foldlRecOn (motive := fun t' : Terminal => t.fb.extent ≤ t'.fb.extent) cs _
    (extent_le_blankUnwritten d t) fun t' ht' c _ => ?_
  exact ht'.trans (extent_le_printChar h t' c)

theorem extent_termClear (h : d.Regular) (t : Terminal) :
    max t.fb.extent (d.limit + d.width) ≤ (termClear d t).fb.extent := by
  refine le_trans ?_ (extent_le_renderInputLine d _)
  show _ ≤ (clearScreen d t.fb).extent
  rw [clearScreen, extent_blank h (Nat.zero_le _) le_rfl]
  exact le_rfl

/-! ## Lines -/

/-- The end of row `y` is inside the frame buffer exactly if row `y` is. -/
theorem Device.Regular.row_end_le (h : d.Regular) (y : Nat) :
    y * d.stride + d.width ≤ d.limit ↔ y < d.height := by
  have hpos := h.stride_pos
  have hw := h.width_ge
  have hlast : d.width - 1 < d.stride := by
    have := h.width_le
    omega
  rw [Device.limit, ← row_lt hlast]
  omega

theorem extent_blankLine (h : d.Regular) (hy : t.renderY + d.glyphHeight ≤ d.height) :
    (blankLine d t).fb.extent ≤ d.limit ↔
      t.fb.extent ≤ d.limit ∧ t.renderY + d.glyphHeight < d.height := by
  have hlt := h.height_lt
  rw [← h.row_end_le, ← max_le_iff, blankLine, add32_eq (by omega),
    extent_blank h (Nat.le_add_right _ _) hy]

theorem extent_renderInputLine (h : d.Regular) (hx0 : t.renderX = 0)
    (hcursor : t.cursorVisible = false) (hy : t.renderY + d.glyphHeight ≤ d.height) :
    (renderInputLine d t).fb.extent ≤ d.limit ↔ t.fb.extent ≤ d.limit := by
  have hw := h.width_ge
  have hgh : d.glyphHeight = d.charHeight.toNat + 1 := rfl
  constructor
  · exact (extent_le_renderInputLine d t).trans
  · intro hle
    rw [renderInputLine_fb hx0 hcursor]
    exact extent_renderGlyph_le h (by omega) (by omega)
      (extent_renderGlyph_le h (by omega) (by omega) hle)

/-- A line that is blanked and gets the prompt. -/
theorem extent_newLine (h : d.Regular) (hcursor : t.cursorVisible = false) {row : Nat}
    (hrow : row < d.maxRows) (fb : Buffer UInt32) :
    (renderInputLine d (blankLine d (startLine t fb (d.glyphHeight * row)))).fb.extent ≤ d.limit ↔
      fb.extent ≤ d.limit ∧ Room d row := by
  have hle := h.lines_le_height.mpr hrow
  obtain ⟨t₂, ht₂⟩ : ∃ t₂, t₂ = startLine t fb (d.glyphHeight * row) := ⟨_, rfl⟩
  have hbottom : t₂.renderY + d.glyphHeight ≤ d.height := by
    rw [ht₂]
    exact hle
  have hprompt : (renderInputLine d (blankLine d t₂)).fb.extent ≤ d.limit ↔
      (blankLine d t₂).fb.extent ≤ d.limit := by
    refine extent_renderInputLine h ?_ ?_ hbottom
    · rw [ht₂]
      rfl
    · rw [ht₂]
      exact hcursor
  rw [← ht₂, hprompt, extent_blankLine h hbottom, ht₂]
  rfl

theorem extent_blankUnwritten_le (h : d.Regular) (hy : t.renderY = d.glyphHeight * rowAfter d n)
    (hroom : Room d n) (hle : t.fb.extent ≤ d.limit) : (blankUnwritten d t).fb.extent ≤ d.limit := by
  unfold blankUnwritten
  split
  · have hlt : t.renderY + d.glyphHeight < d.height := by
      rw [hy, hroom.rowAfter_eq h]
      exact hroom
    exact (extent_blankLine h hlt.le).mpr ⟨hle, hlt⟩
  · exact hle

/-- **The end of a line** stays inside exactly if there is room below the next one. -/
theorem moveToNextLine_extent_iff (h : d.Regular) (hcursor : t.cursorVisible = false)
    (hy : t.renderY = d.glyphHeight * rowAfter d n)
    (hle : Room d n → t.fb.extent ≤ d.limit) :
    (moveToNextLine d t).fb.extent ≤ d.limit ↔ Room d (n + 1) := by
  have hlt := rowAfter_lt h n
  have hcursor' : (blankUnwritten d t).cursorVisible = false := by
    obtain ⟨fb, hfb⟩ := blankUnwritten_eq d t
    rw [hfb]
    exact hcursor
  by_cases hscroll : rowAfter d n + 1 < d.maxRows
  · have hrow : rowAfter d n = n := by
      unfold rowAfter at *
      omega
    rw [moveToNextLine_of_lt h hscroll hy, extent_newLine h hcursor' hscroll, hrow]
    constructor
    · exact And.right
    · intro hroom
      exact ⟨extent_blankUnwritten_le h hy hroom.of_succ (hle hroom.of_succ), hroom⟩
  · rw [moveToNextLine_of_eq h (by omega) hy, extent_newLine h hcursor' hlt]
    constructor
    · -- scrolling reads and blanks behind the last pixel
      rintro ⟨hext, -⟩
      have hw := h.width_ge
      rw [extent_shiftScreenUp h] at hext
      have hover := (le_max_right _ _).trans hext
      rw [Device.limit] at hover
      omega
    · intro hroom
      have := hroom.rowAfter_eq h
      unfold rowAfter at *
      omega

/-! ## Texts -/

/-- Where the drawing is, and whether it has stayed inside. -/
structure Bounded (d : Device) (t : Terminal) (p : Page UInt8) : Prop where
  placed : Placed d t p
  ready : t.isReady = true
  cursor : t.cursorVisible = false
  extent : t.fb.extent ≤ d.limit ↔ Room d p.done.length

theorem drawChar_extent_le (h : d.Regular) (hp : Placed d t p) (hle : t.fb.extent ≤ d.limit)
    (c : UInt8) : (drawChar d t c).fb.extent ≤ d.limit := by
  have hrow := h.lines_le_height.mpr (rowAfter_lt h p.done.length)
  have hgh : d.glyphHeight = d.charHeight.toNat + 1 := rfl
  have hx := hp.x
  have hcol := hp.col_lt
  rw [Nat.mul_succ, ← hp.y] at hrow
  rw [h.maxCols_eq] at hcol
  exact extent_renderGlyph_le h (by omega) (by omega) hle

/-- **One character** stays inside exactly if there is room after it. -/
theorem printChar_bounded (h : d.Regular) (hb : Bounded d t p) (c : UInt8) :
    Bounded d (printChar d t c) (putChar d p c) := by
  have hw := h.width_ge
  have hmode := printChar_sameMode d t c
  refine ⟨printChar_placed h hb.placed c, hmode.ready.trans hb.ready,
    hmode.cursor.trans hb.cursor, ?_⟩
  rcases printChar_cases (by omega) h.width_lt hb.placed.x hb.placed.col_lt c with
    ⟨hnl, hprint⟩ | ⟨hnl, hlast, hprint⟩ | ⟨hnl, hlast, hprint⟩
  · rw [hprint, putChar, Page.put_of_eq hnl, Page.length_done_endLine]
    exact moveToNextLine_extent_iff h hb.cursor hb.placed.y hb.extent.mpr
  · rw [hprint, putChar, Page.put_of_last hnl hlast, Page.length_done_endLine]
    have hle : Room d p.done.length → (drawChar d t c).fb.extent ≤ d.limit :=
      fun hroom => drawChar_extent_le h hb.placed (hb.extent.mpr hroom) c
    exact moveToNextLine_extent_iff (t := drawChar d t c) h hb.cursor hb.placed.y hle
  · rw [hprint, putChar, Page.put_of_room hnl hlast, ← hb.extent]
    exact ⟨extent_le_renderGlyph.trans, fun hle => drawChar_extent_le h hb.placed hle c⟩

theorem printChars_bounded (h : d.Regular) (cs : List UInt8) (hb : Bounded d t p) :
    Bounded d (cs.foldl (printChar d) t) (cs.foldl (putChar d) p) :=
  List.foldl_rel hb fun c _ _ _ hb => printChar_bounded h hb c

/-- The line is blanked before a text is printed. The first time there need not be room for that. -/
theorem blankUnwritten_bounded (h : d.Regular) (hp : Placed d t p) (hready : t.isReady = true)
    (hcursor : t.cursorVisible = false)
    (hext : t.fb.extent ≤ d.limit ∧ p = Page.empty ∨
      (t.fb.extent ≤ d.limit ↔ Room d p.done.length)) :
    Bounded d (blankUnwritten d t) p := by
  refine ⟨blankUnwritten_placed hp, ?_, ?_, ?_⟩
  · obtain ⟨fb, hfb⟩ := blankUnwritten_eq d t
    rw [hfb]
    exact hready
  · obtain ⟨fb, hfb⟩ := blankUnwritten_eq d t
    rw [hfb]
    exact hcursor
  rcases hext with ⟨hle, rfl⟩ | hiff
  · have hx0 : t.renderX = 0 := hp.x
    have hy0 : t.renderY = 0 := by
      rw [hp.y, Page.empty, List.length_nil, rowAfter_zero, Nat.mul_zero]
    have hheight := h.height_ge
    rw [blankUnwritten, if_pos hx0, extent_blankLine h (by omega), hy0, Room]
    simp only [Page.empty, List.length_nil, Nat.zero_add, Nat.mul_one]
    exact ⟨And.right, fun hlt => ⟨hle, hlt⟩⟩
  · constructor
    · exact fun hle => hiff.mp ((extent_le_blankUnwritten d t).trans hle)
    · exact fun hroom => extent_blankUnwritten_le h hp.y hroom (hiff.mpr hroom)

/-! ## Runs -/

/-- A call of `tprintf` or of `term_clear`. -/
inductive DrawOp where
  | print (call : TprintfCall)
  | clear

/-- Carry out a call. -/
def drawStep (d : Device) (t : Terminal) : DrawOp → Option Terminal
  | .print call => tprintf d t call
  | .clear => some (termClear d t)

/-- The characters that a call prints. -/
def DrawOp.chars : DrawOp → List UInt8
  | .print call => call.chars.getD []
  | .clear => []

theorem tprintf_eq_some {call : TprintfCall} (hready : t.isReady = true)
    (h : tprintf d t call = some t') :
    t' = (DrawOp.print call).chars.foldl (printChar d) (blankUnwritten d t) := by
  rw [tprintf, if_pos hready] at h
  obtain ⟨cs, hcs, rfl⟩ := Option.map_eq_some_iff.mp h
  rw [DrawOp.chars, hcs]
  rfl

theorem extent_le_drawStep (h : d.Regular) {op : DrawOp} (hstep : drawStep d t op = some t') :
    t.fb.extent ≤ t'.fb.extent := by
  cases op with
  | print call =>
    rw [drawStep, tprintf] at hstep
    split at hstep
    · obtain ⟨cs, -, rfl⟩ := Option.map_eq_some_iff.mp hstep
      exact extent_le_printChars h t cs
    · cases hstep
      exact le_rfl
  | clear =>
    cases hstep
    exact (le_max_left _ _).trans (extent_termClear h t)

/-- `term_clear` runs over the end of the frame buffer, and nothing undoes that. -/
theorem limit_lt_of_clear (h : d.Regular) : ∀ (ops : List DrawOp) {t : Terminal}, .clear ∈ ops →
    run (drawStep d) ops t = some t' → d.limit < t'.fb.extent
  | [], _, hmem, _ => absurd hmem List.not_mem_nil
  | op :: ops, t, hmem, hrun => by
    obtain ⟨r, hr, hrest⟩ := run_cons_eq_some.mp hrun
    rcases List.mem_cons.mp hmem with rfl | hlater
    · have hmono := run_invariant (fun s => r.fb.extent ≤ s.fb.extent)
        (fun s op s' hs hstep => hs.trans (extent_le_drawStep h hstep)) ops le_rfl hrest
      cases hr
      have hclear := (le_max_right _ _).trans (extent_termClear h t)
      have hw := h.width_ge
      omega
    · exact limit_lt_of_clear h ops hlater hrest

/-- Printing only. -/
theorem run_print_bounded (h : d.Regular) : ∀ (ops : List DrawOp) {t : Terminal} {p : Page UInt8},
    Bounded d t p → .clear ∉ ops → run (drawStep d) ops t = some t' →
      Bounded d t' ((ops.flatMap DrawOp.chars).foldl (putChar d) p)
  | [], _, _, hb, _, hrun => by
    cases hrun
    exact hb
  | .clear :: _, _, _, _, hno, _ => absurd List.mem_cons_self hno
  | .print call :: ops, t, p, hb, hno, hrun => by
    obtain ⟨r, hr, hrest⟩ := run_cons_eq_some.mp hrun
    have hr' := tprintf_eq_some hb.ready hr
    have hblank := blankUnwritten_bounded h hb.placed hb.ready hb.cursor (Or.inr hb.extent)
    have hb' := printChars_bounded h (DrawOp.print call).chars hblank
    rw [← hr'] at hb'
    rw [List.flatMap_cons, List.foldl_append]
    exact run_print_bounded h ops hb' (fun hmem => hno (List.mem_cons_of_mem _ hmem)) hrest

/-- The terminal after `term_init`. -/
theorem termInit_placed (h : d.Regular) (pixels : Nat → UInt32) :
    Placed d (termInit d (Terminal.boot pixels)) Page.empty where
  x := by
    rw [termInit]
    exact renderInputLine_renderX d _
  col_lt := h.maxCols_pos
  y := by
    rw [termInit]
    refine (renderInputLine_renderY d _).trans ?_
    rw [Page.empty, List.length_nil, rowAfter_zero, Nat.mul_zero]
    rfl

theorem termInit_extent_le (h : d.Regular) (pixels : Nat → UInt32) :
    (termInit d (Terminal.boot pixels)).fb.extent ≤ d.limit := by
  have hheight := h.height_ge
  refine (extent_renderInputLine h rfl rfl ?_).mpr (Nat.zero_le _)
  show 0 + d.glyphHeight ≤ d.height
  omega

theorem drawing_in_bounds (h : d.Regular) (pixels : Nat → UInt32) (ops : List DrawOp)
    (hrun : run (drawStep d) ops (termInit d (Terminal.boot pixels)) = some t) :
    t.fb.extent ≤ d.limit ↔ .clear ∉ ops ∧
      (ops = [] ∨ Room d ((ops.flatMap DrawOp.chars).foldl (putChar d) Page.empty).done.length) := by
  by_cases hclear : .clear ∈ ops
  · have hover := limit_lt_of_clear h ops hclear hrun
    constructor
    · intro hle
      omega
    · rintro ⟨hno, -⟩
      exact absurd hclear hno
  · cases ops with
    | nil =>
      cases hrun
      simp [termInit_extent_le h pixels]
    | cons op ops =>
      have hno : .clear ∉ ops := fun hmem => hclear (List.mem_cons_of_mem _ hmem)
      cases op with
      | clear => exact absurd List.mem_cons_self hclear
      | print call =>
        obtain ⟨r, hr, hrest⟩ := run_cons_eq_some.mp hrun
        have hplaced := termInit_placed h pixels
        have hcursor := (renderInputLine_sameMode d (Terminal.boot pixels)).cursor
        have hr' := tprintf_eq_some rfl hr
        have hblank := blankUnwritten_bounded h hplaced rfl hcursor
          (Or.inl ⟨termInit_extent_le h pixels, rfl⟩)
        have hb := printChars_bounded h (DrawOp.print call).chars hblank
        rw [← hr'] at hb
        have hb' := run_print_bounded h ops hb hno hrest
        rw [List.flatMap_cons, List.foldl_append, hb'.extent]
        simp [hclear]

/--
**Drawing stays inside the frame buffer exactly while there is a pixel row to spare.**

For every frame buffer that is `Regular` and every run of `tprintf` and `term_clear` after
`term_init`: no index of a pixel that is read or written reaches the end of the frame buffer if and
only if the run has no `term_clear`, and either no `tprintf` or room for one line more than those
that it completes, with a pixel row to spare.
-/
theorem drawing_in_bounds_iff (h : d.Regular) (pixels : Nat → UInt32) (ops : List DrawOp)
    (hrun : run (drawStep d) ops (termInit d (Terminal.boot pixels)) = some t) :
    t.fb.extent ≤ d.height * d.stride ↔ .clear ∉ ops ∧ (ops = [] ∨
      d.glyphHeight * ((Page.putAll (chr '\n') d.maxCols Page.empty
        (ops.flatMap DrawOp.chars)).done.length + 1) < d.height) :=
  drawing_in_bounds h pixels ops hrun

/-- `tprintf("a")` on the small screen. -/
theorem drawing_in_bounds_a : ∃ t, run (drawStep sampleDevice)
      [.print ⟨[97] ++ 0 :: [], [], fun _ => 1⟩]
      (termInit sampleDevice (Terminal.boot fun _ => 7)) = some t ∧
    t.fb.extent ≤ sampleDevice.height * sampleDevice.stride := by
  have hcall : TprintfCall.Formats ⟨[97] ++ 0 :: [], [], fun _ => 1⟩ [97] :=
    formats_literal (by decide) (by decide) (by decide) [] _
  have hchars := hcall.chars_eq (by decide) (by decide)
  have hrun : run (drawStep sampleDevice) [.print ⟨[97] ++ 0 :: [], [], fun _ => 1⟩]
      (termInit sampleDevice (Terminal.boot fun _ => 7)) = some
        (printChars sampleDevice (termInit sampleDevice (Terminal.boot fun _ => 7)) [97]) := by
    refine run_cons_eq_some.mpr ⟨_, ?_, rfl⟩
    rw [drawStep, tprintf, hchars]
    rfl
  refine ⟨_, hrun, (drawing_in_bounds_iff sampleDevice_regular _ _ hrun).mpr ⟨by simp, Or.inr ?_⟩⟩
  rw [List.flatMap_singleton, DrawOp.chars, hchars]
  decide

/-- `term_clear` on the small screen blanks pixels behind the last row. -/
theorem clear_leaves_screen : ∃ t, run (drawStep sampleDevice) [.clear]
      (termInit sampleDevice (Terminal.boot fun _ => 7)) = some t ∧
    ¬ t.fb.extent ≤ sampleDevice.height * sampleDevice.stride :=
  ⟨_, rfl, Nat.not_le.mpr (limit_lt_of_clear sampleDevice_regular [.clear]
    List.mem_cons_self rfl)⟩

end BloreOs
