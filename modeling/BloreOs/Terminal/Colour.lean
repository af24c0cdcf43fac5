import BloreOs.Terminal.Draws

/-!
# The colour of a text

Every line advance draws the prompt again, and the prompt sets the colour back to the default. So a
text in another colour keeps it exactly as long as it stays on its line.

* `moveToNextLine_fgcolor` — what a line advance does,
* `printLog_onLine`, `printLog_advances` — a text with and without one,
* `tprintf_colour_iff` — calls.
-/

namespace BloreOs

open Loop Buffer CharBuffer

/-- `term_fgcolor` -/
def termFgcolor (color : UInt32) (t : Terminal) : Terminal := { t with fgcolor := color }

/-- A glyph is drawn in this colour. -/
def TextOp.InColour (color : UInt32) : TextOp → Prop
  | .glyph _ _ _ c => c = color
  | .lineAdvance => True

/-- A call of `tprintf` after `term_fgcolor(color)` draws its text in that colour and leaves it set.
It does return: what it has formatted is inside its buffer. -/
def KeepsColour (d : Device) (color : UInt32) (t : Terminal) (call : TprintfCall) : Prop :=
  ∃ t' ops, Logged d (termFgcolor color t) call t' ops ∧
    (∀ op ∈ ops, op.InColour color) ∧ t'.fgcolor = color ∧
    (t.isReady = true → ∃ b, call.buffer = some b ∧ b.extent ≤ 256)

/-- The characters stay on the line of the output: there is no line break among them, and each of
them leaves room for another one. -/
structure OnOneLine (d : Device) (t : Terminal) (cs : List UInt8) : Prop where
  no_break : chr '\n' ∉ cs
  room : ∀ k < cs.length, add32 t.renderX (9 * (k + 1)) ≤ sub64 d.width glyphWidth

/-- What `tprintf` prints of a text: it is cut to the buffer, and ends at a NUL behind its first
character. -/
def printedText (text : List UInt8) : List UInt8 :=
  match text.take 255 with
  | [] => []
  | c :: cs => c :: cs.takeWhile (· ≠ 0)

variable {d : Device} {t t' : Terminal} {color : UInt32} {c : UInt8} {cs text fmt tail : List UInt8}
  {args : List Arg} {ps : List Piece} {call : TprintfCall} {stack : Nat → UInt8}

/-! ## Characters -/

@[simp] theorem moveToNextLine_fgcolor (d : Device) (t : Terminal) :
    (moveToNextLine d t).fgcolor = termDefaultFgcolor := by
  obtain ⟨fb, y, h⟩ := moveToNextLine_eq d t
  rw [h, renderInputLine_fgcolor]

@[simp] theorem blankUnwritten_fgcolor (d : Device) (t : Terminal) :
    (blankUnwritten d t).fgcolor = t.fgcolor := by
  obtain ⟨fb, h⟩ := blankUnwritten_eq d t
  rw [h]

@[simp] theorem blankUnwritten_renderX (d : Device) (t : Terminal) :
    (blankUnwritten d t).renderX = t.renderX := by
  obtain ⟨fb, h⟩ := blankUnwritten_eq d t
  rw [h]

theorem textOp_inColour (t : Terminal) (c : UInt8) : (textOp t c).InColour t.fgcolor := by
  unfold textOp
  split
  · trivial
  · rfl

/-- A character that is no line break is drawn, and the line may end behind it. -/
theorem printChar_of_ne (hnl : c ≠ chr '\n') : ∃ t₁, t₁.fgcolor = t.fgcolor ∧
    t₁.renderX = add32 t.renderX 9 ∧ printChar d t c =
      if sub64 d.width glyphWidth < t₁.renderX then moveToNextLine d t₁ else t₁ :=
  ⟨{ t with
      fb := renderGlyph d t.fgcolor t.bgcolor c t.renderX t.renderY t.fb
      renderX := add32 t.renderX 9 }, rfl, rfl, if_neg hnl⟩

/-- A character that stays on the line. -/
theorem printChar_of_room (hnl : c ≠ chr '\n')
    (hroom : add32 t.renderX 9 ≤ sub64 d.width glyphWidth) :
    (printChar d t c).fgcolor = t.fgcolor ∧ (printChar d t c).renderX = add32 t.renderX 9 := by
  obtain ⟨t₁, hcolor, hx, hprint⟩ := printChar_of_ne (d := d) (t := t) hnl
  rw [hprint, hx, if_neg (Nat.not_lt.mpr hroom)]
  exact ⟨hcolor, hx⟩

/-- **A character that ends the line sets the default colour.** -/
theorem printChar_of_end (h : c = chr '\n' ∨ sub64 d.width glyphWidth < add32 t.renderX 9) :
    (printChar d t c).fgcolor = termDefaultFgcolor := by
  by_cases hnl : c = chr '\n'
  · rw [printChar, if_pos hnl, moveToNextLine_fgcolor]
  · obtain ⟨t₁, -, hx, hprint⟩ := printChar_of_ne (d := d) (t := t) hnl
    rw [hprint, hx, if_pos (h.resolve_left hnl), moveToNextLine_fgcolor]

theorem add32_add32 (x a b : Nat) : add32 (add32 x a) b = add32 x (a + b) := by
  rw [add32, add32, add32, Nat.mod_add_mod, Nat.add_assoc]

/-- The first character of a line. -/
theorem onOneLine_cons (hx : t'.renderX = add32 t.renderX 9) : OnOneLine d t (c :: cs) ↔
    (c ≠ chr '\n' ∧ add32 t.renderX 9 ≤ sub64 d.width glyphWidth) ∧ OnOneLine d t' cs := by
  have hstep : ∀ k, add32 t'.renderX (9 * (k + 1)) = add32 t.renderX (9 * (k + 1 + 1)) := by
    intro k
    rw [hx, add32_add32, Nat.mul_succ 9 (k + 1), Nat.add_comm 9]
  constructor
  · rintro ⟨hno, hroom⟩
    rw [List.mem_cons, not_or] at hno
    refine ⟨⟨Ne.symm hno.1, hroom 0 (Nat.succ_pos _)⟩, hno.2, fun k hk => ?_⟩
    rw [hstep]
    exact hroom (k + 1) (Nat.succ_lt_succ hk)
  · rintro ⟨⟨hnl, hfirst⟩, hno, hroom⟩
    refine ⟨fun hmem => ?_, fun k hk => ?_⟩
    · rcases List.mem_cons.mp hmem with rfl | hmem
      · exact hnl rfl
      · exact hno hmem
    · cases k with
      | zero => exact hfirst
      | succ k =>
        rw [← hstep]
        exact hroom k (Nat.lt_of_succ_lt_succ hk)

/-! ## Texts -/

/-- **A text that stays on its line** is drawn in its colour. -/
theorem printLog_onLine : ∀ (cs : List UInt8) {t : Terminal}, OnOneLine d t cs →
    (printLog d cs t).1.fgcolor = t.fgcolor ∧
      ∀ op ∈ (printLog d cs t).2, op.InColour t.fgcolor
  | [], _, _ => ⟨rfl, by simp [printLog]⟩
  | c :: cs, t, h => by
    have hcons : (c ≠ chr '\n' ∧ add32 t.renderX 9 ≤ sub64 d.width glyphWidth) ∧
        OnOneLine d { t with renderX := add32 t.renderX 9 } cs := (onOneLine_cons rfl).mp h
    obtain ⟨hcolor, hx⟩ := printChar_of_room hcons.1.1 hcons.1.2
    obtain ⟨hlast, hops⟩ := printLog_onLine cs ((onOneLine_cons hx).mp h).2
    rw [hcolor] at hlast hops
    exact ⟨hlast, List.forall_mem_cons.mpr ⟨textOp_inColour t c, hops⟩⟩

/-- The default colour stays set, with line advances or without. -/
theorem printLog_default : ∀ (cs : List UInt8) {t : Terminal}, t.fgcolor = termDefaultFgcolor →
    (printLog d cs t).1.fgcolor = termDefaultFgcolor ∧
      ∀ op ∈ (printLog d cs t).2, op.InColour termDefaultFgcolor
  | [], _, h => ⟨h, by simp [printLog]⟩
  | c :: cs, t, h => by
    have hnext : (printChar d t c).fgcolor = termDefaultFgcolor := by
      by_cases hend : c = chr '\n' ∨ sub64 d.width glyphWidth < add32 t.renderX 9
      · exact printChar_of_end hend
      · rw [not_or, Nat.not_lt] at hend
        rw [(printChar_of_room hend.1 hend.2).1, h]
    obtain ⟨hlast, hops⟩ := printLog_default cs hnext
    have hop := textOp_inColour t c
    rw [h] at hop
    exact ⟨hlast, List.forall_mem_cons.mpr ⟨hop, hops⟩⟩

/-- **A text that does not stay on its line** leaves the default colour. -/
theorem printLog_advances : ∀ (cs : List UInt8) {t : Terminal}, ¬ OnOneLine d t cs →
    (printLog d cs t).1.fgcolor = termDefaultFgcolor
  | [], _, h => absurd ⟨List.not_mem_nil, fun _ hk => absurd hk (Nat.not_lt_zero _)⟩ h
  | c :: cs, t, h => by
    by_cases hend : c = chr '\n' ∨ sub64 d.width glyphWidth < add32 t.renderX 9
    · exact (printLog_default cs (printChar_of_end hend)).1
    · rw [not_or, Nat.not_lt] at hend
      obtain ⟨-, hx⟩ := printChar_of_room (d := d) hend.1 hend.2
      exact printLog_advances cs fun hrest => h ((onOneLine_cons hx).mpr ⟨hend, hrest⟩)

/-- **Which texts keep a colour.** -/
theorem printLog_colour_iff : ((printLog d cs t).1.fgcolor = t.fgcolor ∧
      ∀ op ∈ (printLog d cs t).2, op.InColour t.fgcolor) ↔
    t.fgcolor = termDefaultFgcolor ∨ OnOneLine d t cs := by
  constructor
  · rintro ⟨hlast, -⟩
    by_cases hline : OnOneLine d t cs
    · exact Or.inr hline
    · rw [printLog_advances cs hline] at hlast
      exact Or.inl hlast.symm
  · rintro (hdefault | hline)
    · rw [hdefault]
      exact printLog_default cs hdefault
    · exact printLog_onLine cs hline

/-! ## Calls -/

/-- A buffer whose text is not empty: the loop ends at the first NUL behind the first character. -/
theorem bufferChars_cons {b : CharBuffer} (hslice : b.slice 0 (c :: cs).length = c :: cs)
    (hnul : b.data (c :: cs).length = 0) (hlen : (c :: cs).length < 256) :
    bufferChars b = some (c :: cs.takeWhile (· ≠ 0)) := by
  by_cases hmem : 0 ∈ cs
  · obtain ⟨rest, hrest⟩ := exists_takeWhile_append hmem
    rw [hrest, ← List.cons_append] at hslice
    obtain ⟨htext, hzero⟩ := slice_append_cons hslice
    have hle := (List.takeWhile_prefix (· ≠ 0) (l := cs)).length_le
    refine (bufferChars_eq_some_iff htext hzero ?_).mpr ⟨List.cons_ne_nil _ _, no_nul_takeWhile cs⟩
    exact Nat.lt_of_le_of_lt (Nat.succ_le_succ hle) hlen
  · rw [takeWhile_no_nul hmem]
    exact (bufferChars_eq_some_iff hslice hnul hlen).mpr ⟨List.cons_ne_nil _ _, hmem⟩

/-- The buffer of a call whose conversions fit, and what is printed of it. -/
theorem chars_of_fits (h0 : 0 ∉ fmt) (hps : pieces fmt args = some ps) (hstray : .stray ∉ ps)
    (hne : expansion ps ≠ []) (hfits : Fits 256 ps 0) (tail : List UInt8) (stack : Nat → UInt8) :
    TprintfCall.chars ⟨fmt ++ 0 :: tail, args, stack⟩ = some (printedText (expansion ps)) ∧
      ∃ b, TprintfCall.buffer ⟨fmt ++ 0 :: tail, args, stack⟩ = some b ∧ b.extent ≤ 256 := by
  obtain ⟨j, b, hb, hext, n, hn, hnul, htext⟩ := boundedPrint_of_fits (show 1 ≤ 256 by decide)
    (by decide) h0 hps (Or.inr hstray) hfits stack
  have hbuffer : TprintfCall.buffer ⟨fmt ++ 0 :: tail, args, stack⟩ = some b := by
    refine TprintfCall.buffer_eq_some_iff.mpr ⟨?_, hext⟩
    rw [formatted, hb]
    rfl
  refine ⟨?_, b, hbuffer, hext⟩
  obtain rfl : n = ((expansion ps).take 255).length := by rw [← htext, length_slice]
  obtain ⟨c, cs, hcs⟩ : ∃ c cs, (expansion ps).take 255 = c :: cs := by
    refine List.exists_cons_of_ne_nil fun hnil => hne ?_
    rwa [List.take_eq_nil_iff, or_iff_right (by decide)] at hnil
  rw [hcs] at htext hnul hn
  rw [TprintfCall.chars, hbuffer, Option.bind_some, bufferChars_cons htext hnul hn, printedText, hcs]

/-- A call that stays inside its buffer has conversions that fit. -/
theorem fits_of_buffer (h0 : 0 ∉ fmt) (hps : pieces fmt args = some ps) (hstray : .stray ∉ ps)
    {b : CharBuffer} (hb : TprintfCall.buffer ⟨fmt ++ 0 :: tail, args, stack⟩ = some b)
    (hext : b.extent ≤ 256) : Fits 256 ps 0 := by
  obtain ⟨r, hr, rfl⟩ := Option.map_eq_some_iff.mp (TprintfCall.buffer_eq_some_iff.mp hb).1
  exact fits_of_extent (by decide) (by decide) h0 hps (Or.inr hstray) hr hext

/-- The log of a call, as far as the colour is concerned. -/
theorem keepsColour_iff_chars (hready : t.isReady = true) (hchars : call.chars = some cs)
    (hbuffer : ∃ b, call.buffer = some b ∧ b.extent ≤ 256) :
    KeepsColour d color t call ↔ color = termDefaultFgcolor ∨ OnOneLine d t cs := by
  obtain ⟨t₀, ht₀⟩ : ∃ t₀, t₀ = blankUnwritten d (termFgcolor color t) := ⟨_, rfl⟩
  have hstart : _ ↔ t₀.fgcolor = termDefaultFgcolor ∨ OnOneLine d t₀ cs := printLog_colour_iff
  rw [ht₀] at hstart
  have hline : OnOneLine d (blankUnwritten d (termFgcolor color t)) cs ↔ OnOneLine d t cs := by
    constructor
    · rintro ⟨hno, hroom⟩
      rw [blankUnwritten_renderX] at hroom
      exact ⟨hno, hroom⟩
    · rintro ⟨hno, hroom⟩
      refine ⟨hno, ?_⟩
      rw [blankUnwritten_renderX]
      exact hroom
  have hcolor : (termFgcolor color t).fgcolor = color := rfl
  have hready' : (termFgcolor color t).isReady = true := hready
  rw [blankUnwritten_fgcolor, hline, hcolor] at hstart
  simp only [← hstart, KeepsColour, logged_iff]
  rw [tprintfLog, if_pos hready', hchars]
  constructor
  · rintro ⟨t', ops, hlog, hops, hlast, -⟩
    rw [Option.map_some, Option.some.injEq] at hlog
    rw [hlog]
    exact ⟨hlast, hops⟩
  · rintro ⟨hlast, hops⟩
    exact ⟨_, _, rfl, hops, hlast, fun _ => hbuffer⟩

/--
**The texts that keep their colour.**

For every terminal, every colour, every format string with what follows it in memory and every
matching list of arguments whose expansion is not empty, of any length. A ready terminal draws the
text in the colour and leaves the colour set if and only if the conversions fit in the buffer and
the colour is the default or the text stays on its line: there is no line break in it, and each of
its characters leaves room for another one.
-/
theorem tprintf_colour_iff (d : Device) (t : Terminal) (color : UInt32) (fmt tail : List UInt8)
    (args : List Arg) (ps : List Piece) (h0 : 0 ∉ fmt) (hps : pieces fmt args = some ps)
    (hstray : .stray ∉ ps) (hne : expansion ps ≠ []) (stack : Nat → UInt8) :
    KeepsColour d color t ⟨fmt ++ 0 :: tail, args, stack⟩ ↔ t.isReady = false ∨
      (Fits 256 ps 0 ∧
        (color = termDefaultFgcolor ∨ OnOneLine d t (printedText (expansion ps)))) := by
  cases hready : t.isReady
  · refine ⟨fun _ => Or.inl rfl, fun _ => ?_⟩
    refine ⟨termFgcolor color t, [], logged_iff.mpr ?_, by simp, rfl, fun h => ?_⟩
    · rw [tprintfLog, if_neg (by rw [termFgcolor, hready]; decide)]
    · rw [hready] at h
      cases h
  · rw [or_iff_right (by decide)]
    constructor
    · intro hkeeps
      obtain ⟨b, hb, hext⟩ : ∃ b, TprintfCall.buffer ⟨fmt ++ 0 :: tail, args, stack⟩ = some b ∧
          b.extent ≤ 256 := by
        obtain ⟨t', ops, -, -, -, hbuffer⟩ := hkeeps
        exact hbuffer hready
      have hfits := fits_of_buffer h0 hps hstray hb hext
      obtain ⟨hchars, hbuffer⟩ := chars_of_fits h0 hps hstray hne hfits tail stack
      exact ⟨hfits, (keepsColour_iff_chars hready hchars hbuffer).mp hkeeps⟩
    · rintro ⟨hfits, hcolour⟩
      obtain ⟨hchars, hbuffer⟩ := chars_of_fits h0 hps hstray hne hfits tail stack
      exact (keepsColour_iff_chars hready hchars hbuffer).mpr hcolour

/-- `tprintf("hi")` in green on the small screen. -/
theorem tprintf_colour_hi : KeepsColour sampleDevice 0x00FF00
    (termInit sampleDevice (Terminal.boot fun _ => 0)) ⟨[104, 105] ++ 0 :: [], [], fun _ => 1⟩ := by
  refine (tprintf_colour_iff sampleDevice _ _ [104, 105] [] [] ([104, 105].map .literal) (by decide)
    rfl (by decide) (by decide) _).mpr (Or.inr ⟨?_, Or.inr ⟨by decide, by decide +kernel⟩⟩)
  exact Or.inr (Or.inr trivial)

/-- `tprintf("\na")` in green: the `a` is drawn in the default colour, and that one stays set. -/
theorem tprintf_newline_sets_colour :
    pieces [10, 97] [] = some ([10, 97].map .literal) ∧
      (tprintfLog sampleDevice
        (termFgcolor 0x00FF00 (termInit sampleDevice (Terminal.boot fun _ => 0)))
        ⟨[10, 97] ++ 0 :: [], [], fun _ => 1⟩).map (fun r => (r.1.fgcolor, r.2))
          = some (termDefaultFgcolor, [.lineAdvance, .glyph 97 0 2 termDefaultFgcolor]) ∧
      ¬ KeepsColour sampleDevice 0x00FF00 (termInit sampleDevice (Terminal.boot fun _ => 0))
        ⟨[10, 97] ++ 0 :: [], [], fun _ => 1⟩ := by
  have hlog : (tprintfLog sampleDevice
      (termFgcolor 0x00FF00 (termInit sampleDevice (Terminal.boot fun _ => 0)))
      ⟨[10, 97] ++ 0 :: [], [], fun _ => 1⟩).map (fun r => (r.1.fgcolor, r.2))
        = some (termDefaultFgcolor, [.lineAdvance, .glyph 97 0 2 termDefaultFgcolor]) := by
    decide +kernel
  refine ⟨rfl, hlog, ?_⟩
  rintro ⟨t', ops, hsome, -, hlast, -⟩
  rw [hsome.log, Option.map_some, Option.some.injEq, Prod.mk.injEq] at hlog
  exact absurd (hlast.symm.trans hlog.1) (by decide)

end BloreOs
