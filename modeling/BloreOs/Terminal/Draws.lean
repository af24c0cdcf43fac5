import BloreOs.Terminal.Prompt

/-!
# What a text draws

The loop of `tprintf` tests for the end of the text behind each character. So it draws the first
character of its buffer whatever it is, and of an empty text the NUL and what the stack held behind
it.

`tprintfLog` is `tprintf` with a log of what it does for the characters of the text.

* `logged_iff` — the log is complete: it leads to the terminal that `tprintf` leaves,
* `printLog_performs` — it has one entry for each character that the loop sees,
* `tprintf_draws_iff` — for which texts these are the characters of the text.
-/

namespace BloreOs

open Loop Buffer CharBuffer

/-- What `tprintf` does for a character of its text. -/
inductive TextOp where
  | glyph (ch : UInt8) (x y : Nat) (color : UInt32)
  | lineAdvance
deriving DecidableEq

/-- What the loop body of `tprintf` does for a character. -/
def textOp (t : Terminal) (ch : UInt8) : TextOp :=
  if ch = chr '\n' then .lineAdvance else .glyph ch t.renderX t.renderY t.fgcolor

/-- The loop of `tprintf`, with its log. -/
def printLog (d : Device) : List UInt8 → Terminal → Terminal × List TextOp
  | [], t => (t, [])
  | ch :: cs, t =>
    let r := printLog d cs (printChar d t ch)
    (r.1, textOp t ch :: r.2)

/-- `tprintf`, with its log. -/
def tprintfLog (d : Device) (t : Terminal) (call : TprintfCall) : Option (Terminal × List TextOp) :=
  if t.isReady then call.chars.map fun cs => printLog d cs (blankUnwritten d t) else some (t, [])

/-- The effect of an entry of the log on the terminal. -/
def TextOp.apply (d : Device) (t : Terminal) : TextOp → Terminal
  | .glyph ch x y color =>
    let t := { t with
      fb := renderGlyph d color t.bgcolor ch x y t.fb
      renderX := add32 t.renderX 9 }
    if sub64 d.width glyphWidth < t.renderX then moveToNextLine d t else t
  | .lineAdvance => moveToNextLine d t

/-- Where `tprintf` starts to print. -/
def printStart (d : Device) (t : Terminal) : Terminal :=
  if t.isReady then blankUnwritten d t else t

/-- The call leaves the terminal `t'`, its log is `ops`, and these operations are all that happens to
the terminal on the way. -/
structure Logged (d : Device) (t : Terminal) (call : TprintfCall) (t' : Terminal)
    (ops : List TextOp) : Prop where
  log : tprintfLog d t call = some (t', ops)
  result : tprintf d t call = some t'
  replay : ops.foldl (TextOp.apply d) (printStart d t) = t'

/-- An entry of the log is what a character of a text asks for. -/
def TextOp.Performs : TextOp → UInt8 → Prop
  | .glyph ch _ _ _, c => c ≠ chr '\n' ∧ ch = c
  | .lineAdvance, c => c = chr '\n'

/-- The call does what the characters of `text` ask for, in their order and nothing else. -/
def DrawsText (d : Device) (t : Terminal) (call : TprintfCall) (text : List UInt8) : Prop :=
  ∃ t' ops, Logged d t call t' ops ∧ List.Forall₂ TextOp.Performs ops text

variable {d : Device} {t t' : Terminal} {ops : List TextOp} {cs text fmt tail : List UInt8}
  {args : List Arg} {ps : List Piece} {call : TprintfCall} {stack : Nat → UInt8}

/-! ## The log -/

theorem printLog_fst (d : Device) : ∀ (cs : List UInt8) (t : Terminal),
    (printLog d cs t).1 = cs.foldl (printChar d) t
  | [], _ => rfl
  | ch :: cs, t => printLog_fst d cs (printChar d t ch)

/-- With the log or without it, `tprintf` leaves the same terminal. -/
theorem tprintfLog_fst (d : Device) (t : Terminal) (call : TprintfCall) :
    (tprintfLog d t call).map Prod.fst = tprintf d t call := by
  unfold tprintfLog tprintf
  split
  · rw [Option.map_map]
    congr 1
    funext cs
    exact printLog_fst d cs _
  · rfl

theorem apply_textOp (d : Device) (t : Terminal) (ch : UInt8) :
    (textOp t ch).apply d t = printChar d t ch := by
  unfold textOp printChar
  split <;> rfl

/-- **The log is complete.** -/
theorem printLog_replay (d : Device) : ∀ (cs : List UInt8) (t : Terminal),
    (printLog d cs t).2.foldl (TextOp.apply d) t = (printLog d cs t).1
  | [], _ => rfl
  | ch :: cs, t => by
    simp only [printLog, List.foldl_cons, apply_textOp]
    exact printLog_replay d cs (printChar d t ch)

/-- **Every log of `tprintf` leads to the terminal that `tprintf` leaves.** -/
theorem logged_iff : Logged d t call t' ops ↔ tprintfLog d t call = some (t', ops) := by
  refine ⟨Logged.log, fun hlog => ⟨hlog, ?_, ?_⟩⟩
  · rw [← tprintfLog_fst, hlog, Option.map_some]
  · unfold tprintfLog at hlog
    unfold printStart
    split at hlog
    · next hready =>
      obtain ⟨cs, -, heq⟩ := Option.map_eq_some_iff.mp hlog
      have hreplay := printLog_replay d cs (blankUnwritten d t)
      rw [heq] at hreplay
      rw [if_pos hready, hreplay]
    · next hready =>
      cases hlog
      rw [if_neg hready, List.foldl_nil]

theorem textOp_performs (t : Terminal) (ch : UInt8) : (textOp t ch).Performs ch := by
  unfold textOp
  split
  · next h => exact h
  · next h => exact ⟨h, rfl⟩

/-- **The log has one entry for each character.** -/
theorem printLog_performs (d : Device) : ∀ (cs : List UInt8) (t : Terminal),
    List.Forall₂ TextOp.Performs (printLog d cs t).2 cs
  | [], _ => .nil
  | ch :: cs, t => .cons (textOp_performs t ch) (printLog_performs d cs _)

/-- An entry of the log says which character it is for. -/
theorem TextOp.Performs.unique {op : TextOp} {c c' : UInt8} (h : op.Performs c)
    (h' : op.Performs c') : c = c' := by
  cases op with
  | glyph => exact h.2.symm.trans h'.2
  | lineAdvance => exact Eq.trans h (Eq.symm h')

theorem performs_unique {ops : List TextOp} (h : List.Forall₂ TextOp.Performs ops cs) :
    ∀ {text : List UInt8}, List.Forall₂ TextOp.Performs ops text → cs = text := by
  induction h with
  | nil =>
    intro text h'
    cases h'
    rfl
  | cons hc _ ih =>
    intro text h'
    cases h' with
    | cons hc' h' => rw [hc.unique hc', ih h']

/-! ## One call -/

/-- A call draws a text if these are the characters that its loop sees. -/
theorem drawsText_iff_chars (hready : t.isReady = true) :
    DrawsText d t call text ↔ call.chars = some text := by
  simp only [DrawsText, logged_iff]
  rw [tprintfLog, if_pos hready]
  constructor
  · rintro ⟨t', ops, hlog, hops⟩
    obtain ⟨cs, hcs, heq⟩ := Option.map_eq_some_iff.mp hlog
    have hperforms := printLog_performs d cs (blankUnwritten d t)
    rw [heq] at hperforms
    rw [hcs, performs_unique hperforms hops]
  · intro hchars
    exact ⟨_, _, by rw [hchars]; rfl, printLog_performs d text _⟩

/-- Before `term_init` nothing is drawn. -/
theorem drawsText_iff_nil (hready : t.isReady = false) : DrawsText d t call text ↔ text = [] := by
  simp only [DrawsText, logged_iff]
  rw [tprintfLog, if_neg (by rw [hready]; decide)]
  constructor
  · rintro ⟨t', ops, hlog, hops⟩
    cases hlog
    cases hops
    rfl
  · rintro rfl
    exact ⟨t, [], rfl, .nil⟩

/-- **What the loop sees of a formatted text.** -/
theorem chars_eq_expansion_iff (h0 : 0 ∉ fmt) (hps : pieces fmt args = some ps)
    (hstray : .stray ∉ ps) (hlen : (expansion ps).length ≤ 255) (stack : Nat → UInt8) :
    TprintfCall.chars ⟨fmt ++ 0 :: tail, args, stack⟩ = some (expansion ps) ↔
      (∀ p ∈ ps, p.Returns) ∧ expansion ps ≠ [] ∧ 0 ∉ (expansion ps).tail := by
  rw [TprintfCall.chars]
  constructor
  · intro h
    obtain ⟨b, hb, hchars⟩ := Option.bind_eq_some_iff.mp h
    have hformatted := (TprintfCall.buffer_eq_some_iff.mp hb).1
    have hret := returns_of_formatted h0 hps (Or.inr hstray) hlen hformatted
    obtain ⟨b', hb', -, htext, hnul⟩ := formatted_eq h0 hps (Or.inr hstray) hret hlen stack
    rw [hformatted] at hb'
    cases hb'
    exact ⟨hret, (bufferChars_eq_some_iff htext hnul (by omega)).mp hchars⟩
  · rintro ⟨hret, htail⟩
    obtain ⟨b, hb, hext, htext, hnul⟩ := formatted_eq h0 hps (Or.inr hstray) hret hlen stack
    rw [TprintfCall.buffer_eq_some_iff.mpr ⟨hb, hext⟩, Option.bind_some]
    exact (bufferChars_eq_some_iff htext hnul (by omega)).mpr htail

/-- What the stack held makes no difference if the loop sees the text. -/
theorem tprintfLog_congr {call' : TprintfCall} (h : call.chars = call'.chars) (d : Device)
    (t : Terminal) : tprintfLog d t call = tprintfLog d t call' := by
  rw [tprintfLog, tprintfLog, h]

/--
**The texts that `tprintf` draws.**

For every terminal, every format string with what follows it in memory, every matching list of
arguments whose expansion has at most 255 characters, and whatever the stack holds. A ready terminal
draws exactly the text if and only if all conversions return, the text is not empty and no NUL is
in it behind the first character; then the stack makes no difference. Before `term_init` nothing is
drawn.
-/
theorem tprintf_draws_iff (d : Device) (t : Terminal) (fmt tail : List UInt8) (args : List Arg)
    (ps : List Piece) (h0 : 0 ∉ fmt) (hps : pieces fmt args = some ps) (hstray : .stray ∉ ps)
    (hlen : (expansion ps).length ≤ 255) (stack : Nat → UInt8) :
    (t.isReady = true → (DrawsText d t ⟨fmt ++ 0 :: tail, args, stack⟩ (expansion ps) ↔
      (∀ p ∈ ps, p.Returns) ∧ expansion ps ≠ [] ∧ 0 ∉ (expansion ps).tail)) ∧
    (t.isReady = false → (DrawsText d t ⟨fmt ++ 0 :: tail, args, stack⟩ (expansion ps) ↔
      expansion ps = [])) ∧
    (DrawsText d t ⟨fmt ++ 0 :: tail, args, stack⟩ (expansion ps) → ∀ stack' : Nat → UInt8,
      tprintfLog d t ⟨fmt ++ 0 :: tail, args, stack'⟩
        = tprintfLog d t ⟨fmt ++ 0 :: tail, args, stack⟩) := by
  have hiff : ∀ stack, TprintfCall.chars ⟨fmt ++ 0 :: tail, args, stack⟩ = some (expansion ps) ↔ _ :=
    chars_eq_expansion_iff h0 hps hstray hlen
  refine ⟨fun hready => ?_, drawsText_iff_nil, fun hdraws stack' => ?_⟩
  · rw [drawsText_iff_chars hready, hiff]
  · cases hready : t.isReady
    · rw [tprintfLog, tprintfLog, if_neg (by rw [hready]; decide), if_neg (by rw [hready]; decide)]
    · rw [drawsText_iff_chars hready] at hdraws
      have hchars := (hiff stack').mpr ((hiff stack).mp hdraws)
      exact tprintfLog_congr (hchars.trans hdraws.symm) d t

/-- `tprintf("hi\n")` on the small screen. -/
theorem tprintf_draws_hi : DrawsText sampleDevice
    (termInit sampleDevice (Terminal.boot fun _ => 0))
    ⟨[104, 105, 10] ++ 0 :: [], [], fun _ => 1⟩ (expansion ([104, 105, 10].map .literal)) := by
  refine ((tprintf_draws_iff sampleDevice _ [104, 105, 10] [] [] _ (by decide) rfl (by decide)
    (by decide) _).1 rfl).mpr ⟨?_, by decide, by decide⟩
  exact returns_map_literal [104, 105, 10]

/-- `tprintf("")`, as `term_keyevent` calls it for an empty line, over a stack with an `X` behind the
NUL: the NUL and the `X` are drawn. -/
theorem tprintf_empty_draws_stack :
    pieces [] [] = some [] ∧ expansion [] = [] ∧
      (termInit sampleDevice (Terminal.boot fun _ => 0)).isReady = true ∧
      (tprintfLog sampleDevice (termInit sampleDevice (Terminal.boot fun _ => 0))
        ⟨[] ++ 0 :: [], [], fun k => if k = 1 then chr 'X' else 0⟩).map Prod.snd
          = some [.glyph 0 0 0 termDefaultFgcolor, .glyph (chr 'X') 9 0 termDefaultFgcolor] ∧
      ¬ DrawsText sampleDevice (termInit sampleDevice (Terminal.boot fun _ => 0))
        ⟨[] ++ 0 :: [], [], fun k => if k = 1 then chr 'X' else 0⟩ (expansion []) := by
  refine ⟨rfl, rfl, rfl, by decide +kernel, ?_⟩
  rintro ⟨t', ops, hlog, hops⟩
  have hsnd : (tprintfLog sampleDevice (termInit sampleDevice (Terminal.boot fun _ => 0))
      ⟨[] ++ 0 :: [], [], fun k => if k = 1 then chr 'X' else 0⟩).map Prod.snd ≠ some [] := by
    decide +kernel
  rw [hlog.log] at hsnd
  cases hops
  exact hsnd rfl

end BloreOs
