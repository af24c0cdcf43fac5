import BloreOs.Terminal.Input

/-!
# The prompt and the input

The next typed character should go right behind the input, two cells further for the prompt. Typing
and erasing keep it so. Printing does not, when it ends a line: it draws a new prompt without the
input, but the input is still pending.

* `printChars_column` — a printed text that ends a line leaves the new prompt,
* `enterKey_prompt` — so does a command,
* `prompt_in_step_iff` — runs: what fails is exactly the output that ends a line over pending input.
-/

namespace BloreOs

open Loop Buffer CharBuffer

variable {d : Device} {t t' : Terminal} {env : Env} {col : Nat} {c : UInt8} {cs text : List UInt8}

/-! ## Columns -/

/-- The column after one more character: 0 if it ends the line. -/
def nextColumn (d : Device) (col : Nat) (c : UInt8) : Nat :=
  if c = chr '\n' then 0 else if col + 1 = d.maxCols then 0 else col + 1

/-- The column of the output after a text. -/
def endColumn (d : Device) (t : Terminal) (cs : List UInt8) : Nat :=
  cs.foldl (nextColumn d) (t.renderX / 9)

/-- A screen that is wide enough for the prompt. -/
structure Device.Wide (d : Device) : Prop where
  width_ge : 18 ≤ d.width
  width_lt : d.width < 2 ^ 32

/-- The output is in a column of the screen. -/
def InColumn (d : Device) (t : Terminal) (col : Nat) : Prop :=
  t.renderX = 9 * col ∧ col < d.maxCols

theorem Device.Wide.maxCols_pos (h : d.Wide) : 0 < d.maxCols := by
  have h1 := h.width_ge
  have h2 := h.width_lt
  unfold Device.maxCols
  omega

/-- **One character**: if it ends the line, there is a new prompt. -/
theorem printChar_column (h : d.Wide) (hcol : InColumn d t col) (c : UInt8) :
    InColumn d (printChar d t c) (nextColumn d col c) ∧
      (nextColumn d col c = 0 → (printChar d t c).inputRenderX = 18) := by
  have hpos := h.maxCols_pos
  have hw := h.width_ge
  obtain ⟨hx, hlt⟩ := hcol
  unfold nextColumn InColumn
  rcases printChar_cases (by omega) h.width_lt hx hlt c with
    ⟨hnl, hprint⟩ | ⟨hnl, hlast, hprint⟩ | ⟨hnl, hlast, hprint⟩
  · rw [if_pos hnl, hprint, moveToNextLine_renderX, moveToNextLine_inputRenderX]
    exact ⟨⟨rfl, hpos⟩, fun _ => rfl⟩
  · rw [if_neg hnl, if_pos hlast, hprint, moveToNextLine_renderX, moveToNextLine_inputRenderX]
    exact ⟨⟨rfl, hpos⟩, fun _ => rfl⟩
  · rw [if_neg hnl, if_neg hlast, hprint]
    refine ⟨⟨?_, by omega⟩, fun h0 => absurd h0 (Nat.succ_ne_zero _)⟩
    show t.renderX + 9 = _
    omega

theorem foldl_printChar_column (h : d.Wide) (cs : List UInt8) (hcol : InColumn d t col)
    (hprompt : col = 0 → t.inputRenderX = 18) :
    InColumn d (cs.foldl (printChar d) t) (cs.foldl (nextColumn d) col) ∧
      (cs.foldl (nextColumn d) col = 0 → (cs.foldl (printChar d) t).inputRenderX = 18) :=
  List.foldl_rel (r := fun t col => InColumn d t col ∧ (col = 0 → t.inputRenderX = 18))
    ⟨hcol, hprompt⟩ fun c _ _ _ hc => printChar_column h hc.1 c

/-- **A text**: if it ends a line, there is a new prompt. -/
theorem printChars_column (h : d.Wide) (hcol : InColumn d t col) (hne : cs ≠ []) :
    InColumn d (printChars d t cs) (endColumn d t cs) ∧
      (endColumn d t cs = 0 → (printChars d t cs).inputRenderX = 18) := by
  obtain ⟨c, cs, rfl⟩ := List.exists_cons_of_ne_nil hne
  have hdiv : t.renderX / 9 = col := by
    rw [hcol.1]
    omega
  obtain ⟨fb, hfb⟩ := blankUnwritten_eq d t
  have hblank : InColumn d (blankUnwritten d t) col := by
    rw [hfb]
    exact hcol
  obtain ⟨hcol', hprompt'⟩ := printChar_column h hblank c
  rw [endColumn, hdiv]
  exact foldl_printChar_column h cs hcol' hprompt'

/-- `tprintf` always prints something. -/
theorem chars_ne_nil {call : TprintfCall} (h : call.chars = some cs) : cs ≠ [] := by
  obtain ⟨b, -, hb⟩ := Option.bind_eq_some_iff.mp h
  obtain ⟨n, hn, rfl⟩ := Option.map_eq_some_iff.mp hb
  obtain ⟨hle, -⟩ := of_loop_untilNul _ hn
  refine List.ne_nil_of_length_pos ?_
  rw [length_slice]
  exact hle

/-! ## Commands -/

/-- A text that ends with a line break leaves a new prompt. -/
theorem tprintf_ends_line {call : TprintfCall} (hready : t.isReady = true)
    (hchars : call.chars = some (text ++ [chr '\n'])) (h : tprintf d t call = some t') :
    t'.renderX = 0 ∧ t'.inputRenderX = 18 := by
  rw [tprintf, if_pos hready, hchars] at h
  cases h
  rw [printChars, List.foldl_append, List.foldl_cons, List.foldl_nil, printChar, if_pos rfl]
  exact ⟨moveToNextLine_renderX d _, moveToNextLine_inputRenderX d _⟩

/-- A short text is printed in full. -/
theorem chars_of_pieces {fmt : List UInt8} {args : List Arg} {ps : List Piece} (h0 : 0 ∉ fmt)
    (hps : pieces fmt args = some ps) (hret : ∀ p ∈ ps, p.Returns) (hne : expansion ps ≠ [])
    (hnul : 0 ∉ expansion ps) (hlen : (expansion ps).length ≤ 255) (env : Env) (k : Nat) :
    (env.call k fmt args).chars = some (expansion ps) :=
  (formats_expansion h0 hps (Or.inl rfl) hret hnul hlen (env.stack k)).chars_eq hne hlen

/-- A format without `%` is printed as it is. -/
theorem chars_literal (text : List UInt8) (h0 : 0 ∉ text) (hpct : chr '%' ∉ text) (hne : text ≠ [])
    (hlen : text.length ≤ 255) (env : Env) (k : Nat) : (env.call k text []).chars = some text :=
  (formats_literal h0 hpct hlen [] (env.stack k)).chars_eq hne hlen

theorem numeral_no_nul (n : Nat) : 0 ∉ numeral false 10 n := by
  intro hmem
  obtain ⟨r, hr, hzero⟩ := List.mem_map.mp (List.mem_reverse.mp hmem)
  have hlt : r < 10 := by
    unfold digitsOf at hr
    split at hr
    · rw [List.mem_singleton] at hr
      omega
    · exact Nat.digits_lt_base (by decide) hr
  have hall : ∀ r < 10, digitChar false r ≠ 0 := by decide
  exact hall r hlt hzero

/-- The format of the two commands that print the time. -/
def timerFormat (unit : List UInt8) : List UInt8 :=
  bytes "Kerner Time: " ++ chr '%' :: chr 'l' :: chr 'u' :: (unit ++ [chr '\n'])

theorem timer_pieces {unit : List UInt8} (hpct : chr '%' ∉ unit) (v : BitVec 64) :
    pieces (timerFormat unit) [.long v] = some ((bytes "Kerner Time: ").map .literal ++
      .ulong v :: (unit ++ [chr '\n']).map .literal) := by
  have hend : chr '%' ∉ unit ++ [chr '\n'] := by
    rw [List.mem_append, not_or]
    exact ⟨hpct, by decide⟩
  rw [timerFormat, pieces_append_literal (by decide), pieces_lu, pieces_of_no_percent _ hend]
  rfl

theorem timer_chars (unit : List UInt8) (hpct : chr '%' ∉ unit) (hnul : 0 ∉ unit)
    (hlen : unit.length ≤ 100) (v : BitVec 64) (env : Env) (k : Nat) :
    ∃ text, (env.call k (timerFormat unit) [.long v]).chars = some (text ++ [chr '\n']) := by
  have hexp : expansion ((bytes "Kerner Time: ").map .literal ++
      .ulong v :: (unit ++ [chr '\n']).map .literal)
      = (bytes "Kerner Time: " ++ numeral false 10 v.toNat ++ unit) ++ [chr '\n'] := by
    have h1 := expansion_map_literal (bytes "Kerner Time: ")
    have h2 := expansion_map_literal (unit ++ [chr '\n'])
    unfold expansion at *
    rw [List.flatMap_append, List.flatMap_cons, h1, h2]
    simp [Piece.text]
  have hpre : 0 ∉ bytes "Kerner Time: " ∧ (bytes "Kerner Time: ").length = 13 := by decide
  have hdigits : (numeral false 10 v.toNat).length ≤ 64 := by
    rw [numeral, List.length_reverse, List.length_map]
    exact digitsOf_length_lt (by decide) v.isLt
  have hfmt : 0 ∉ timerFormat unit := by
    have hconst : ¬ 0 = chr '%' ∧ ¬ 0 = chr 'l' ∧ ¬ 0 = chr 'u' ∧ ¬ 0 = chr '\n' := by decide
    simp [timerFormat, hpre.1, hnul, hconst]
  rw [chars_of_pieces hfmt (timer_pieces hpct v) ?_ ?_ ?_ ?_, hexp]
  · exact ⟨_, rfl⟩
  · rw [List.forall_mem_append, List.forall_mem_cons]
    exact ⟨returns_map_literal _, trivial, returns_map_literal _⟩
  · rw [hexp]
    exact List.append_ne_nil_of_right_ne_nil _ (List.cons_ne_nil _ _)
  · have hnl : ¬ 0 = chr '\n' := by decide
    rw [hexp]
    simp [hpre.1, numeral_no_nul, hnul, hnl]
  · rw [hexp]
    simp only [List.length_append, hpre.2, List.length_singleton]
    omega

theorem literal_ends_line (hready : t.isReady = true) (h0 : 0 ∉ text) (hpct : chr '%' ∉ text)
    (hlen : text.length ≤ 254) {k : Nat}
    (h : tprintf d t (env.call k (text ++ [chr '\n']) []) = some t') :
    t'.renderX = 0 ∧ t'.inputRenderX = 18 := by
  have hnl : 0 ≠ chr '\n' ∧ chr '%' ≠ chr '\n' := by decide
  refine tprintf_ends_line hready (chars_literal _ ?_ ?_ (by simp) ?_ env k) h
  · simp [h0, hnl.1]
  · simp [hpct, hnl.2]
  · rw [List.length_append, List.length_singleton]
    omega

theorem timer_ends_line {unit : List UInt8} (hready : t.isReady = true) (hpct : chr '%' ∉ unit)
    (hnul : 0 ∉ unit) (hlen : unit.length ≤ 100) {v : BitVec 64} {k : Nat}
    (h : tprintf d t (env.call k (timerFormat unit) [.long v]) = some t') :
    t'.renderX = 0 ∧ t'.inputRenderX = 18 := by
  obtain ⟨text, htext⟩ := timer_chars unit hpct hnul hlen v env k
  exact tprintf_ends_line hready htext h

/-- **A command leaves a new prompt.** -/
theorem handleCmd_prompt (hready : t.isReady = true) (h : handleCmd d env t = some t') :
    t'.renderX = 0 ∧ t'.inputRenderX = 18 := by
  unfold handleCmd at h
  split at h
  · have htext : bytes "World!\n" = bytes "World!" ++ [chr '\n'] := by decide
    rw [htext] at h
    exact literal_ends_line hready (by decide) (by decide) (by decide) h
  split at h
  · cases h
    rw [termClear, renderInputLine_renderX, renderInputLine_inputRenderX]
    exact ⟨rfl, rfl⟩
  split at h
  · have hfmt : bytes "Kerner Time: %lums\n" = timerFormat (bytes "ms") := by decide
    rw [hfmt] at h
    exact timer_ends_line hready (by decide) (by decide) (by decide) h
  split at h
  · have hfmt : bytes "Kerner Time: %lus\n" = timerFormat (bytes "s") := by decide
    rw [hfmt] at h
    exact timer_ends_line hready (by decide) (by decide) (by decide) h
  · have htext : bytes "Unknown command.\n" = bytes "Unknown command." ++ [chr '\n'] := by decide
    rw [htext] at h
    exact literal_ends_line hready (by decide) (by decide) (by decide) h

/-- The enter key. -/
theorem enterKey_prompt (hready : t.isReady = true) (h : enterKey d env t = some t') :
    t'.renderX = 0 ∧ t'.inputRenderX = 18 := by
  obtain ⟨t₁, h1, h⟩ := Option.bind_eq_some_iff.mp h
  obtain ⟨t₂, h2, h⟩ := Option.bind_eq_some_iff.mp h
  obtain ⟨t₃, h3, h⟩ := Option.bind_eq_some_iff.mp h
  obtain ⟨t₄, h4, rfl⟩ := Option.map_eq_some_iff.mp h
  have hmode := ((tprintf_sameMode h1).trans (tprintf_sameMode h2)).trans (tprintf_sameMode h3)
  obtain ⟨hx, hinput⟩ := handleCmd_prompt (hmode.ready.trans hready) h4
  exact ⟨hx, hinput⟩

/-! ## Steps -/

/-- If nothing is written in the line of the output, the next typed character goes right behind the
prompt and the input. -/
def InStep (s : Terminal × List UInt8) : Prop :=
  s.1.renderX = 0 → s.1.inputRenderX = glyphWidth * (2 + strlen s.1.inputStr)

/-- The pending line fits in `input_str` and on the row of the prompt. -/
def Pending (d : Device) (s : Terminal × List UInt8) : Prop :=
  s.2.length ≤ 255 ∧ glyphWidth * (2 + s.2.length) ≤ d.width

/-- Output that ends its last line finds no pending input. -/
def EndsOverNothing (d : Device) (s : Terminal × List UInt8) : TermOp → Prop
  | .key _ _ _ => True
  | .print call => endColumn d s.1 (call.chars.getD []) = 0 → s.2 = []

/-- The terminal while the user types. -/
structure Typing (d : Device) (s : Terminal × List UInt8) : Prop where
  ready : s.1.isReady = true
  holds : InputHolds s
  column : ∃ col, InColumn d s.1 col

variable {s s' : Terminal × List UInt8}

/-- With the text in `input_str`, the condition is about its length. -/
theorem inStep_iff (hs : InputHolds s) :
    InStep s ↔ (s.1.renderX = 0 → s.1.inputRenderX = 9 * (2 + s.2.length)) := by
  rw [InStep, strlen_eq (inputHolds_iff.mp hs)]
  rfl

theorem print_inStep_iff (h : d.Wide) (hs : Typing d s) {call : TprintfCall}
    (ht : tprintf d s.1 call = some t) :
    (InStep (t, s.2) ↔ EndsOverNothing d s (.print call)) ∧ Typing d (t, s.2) := by
  obtain ⟨col, hcol⟩ := hs.column
  have hmode := tprintf_sameMode ht
  rw [tprintf, if_pos hs.ready] at ht
  obtain ⟨cs, hcs, rfl⟩ := Option.map_eq_some_iff.mp ht
  obtain ⟨hcol', hprompt⟩ := printChars_column h hcol (chars_ne_nil hcs)
  have hholds : InputHolds (printChars d s.1 cs, s.2) := by
    rw [InputHolds, hmode.input]
    exact hs.holds
  refine ⟨?_, ⟨hmode.ready.trans hs.ready, hholds, _, hcol'⟩⟩
  rw [inStep_iff hholds, EndsOverNothing, hcs, Option.getD_some]
  simp only [hcol'.1]
  constructor
  · intro hstep hend
    have hinput := hstep (by rw [hend])
    rw [hprompt hend] at hinput
    exact List.length_eq_zero_iff.mp (by omega)
  · intro hend hx
    have hzero : endColumn d s.1 cs = 0 := by omega
    rw [hprompt hzero, hend hzero]
    rfl

theorem key_inStep (hs : Typing d s) (hstep : InStep s) {ke : KeyEvent} (hke : ke ∈ keyMap)
    (h : d.Wide) (ht : termKeyevent d env ke s.1 = some t)
    (hlen : (editLine s.2 ke).length ≤ 255) :
    InStep (t, editLine s.2 ke) ∧ Typing d (t, editLine s.2 ke) := by
  have hroom : HasRoom s (.key ke hke env) := by
    intro htypes
    rw [htypes.editLine_eq hke, List.length_append, List.length_singleton] at hlen
    omega
  have hnext : termStep d s (.key ke hke env) = some (t, editLine s.2 ke) := by
    rw [termStep, ht]
    rfl
  have hholds := (termStep_holds hs.holds hnext).mpr hroom
  have hlen' := (inputHolds_iff.mp hs.holds).length_lt
  rw [inStep_iff hs.holds] at hstep
  rw [inStep_iff hholds]
  rcases termKeyevent_cases d env hke s.2 (inputHolds_iff.mp hs.holds).data_eq_zero with
    ⟨-, -, hevent, hline⟩ | ⟨h0, -, hevent, hline⟩ | ⟨-, hevent, hline⟩ | ⟨-, hevent, hline⟩
  · rw [hevent] at ht
    obtain ⟨hx, hinput⟩ := enterKey_prompt hs.ready ht
    refine ⟨fun _ => ?_, ⟨(enterKey_inputStr ht).2.trans hs.ready, hholds, 0, hx, h.maxCols_pos⟩⟩
    rw [hline]
    exact hinput
  · rw [hevent] at ht
    cases ht
    have hpos := List.length_pos_iff.mpr ((inputHolds_iff.mp hs.holds).ne_nil h0)
    obtain ⟨fb, x, y, heq⟩ := eraseChar_eq d s.1
    rw [heq] at hholds ⊢
    refine ⟨fun hx => ?_, ⟨hs.ready, hholds, hs.column⟩⟩
    rw [hline, List.length_dropLast]
    simp only at hx ⊢
    rw [hstep hx, glyphWidth, sub32_eq (by omega) (by omega)]
    omega
  · rw [hevent] at ht
    cases ht
    obtain ⟨fb, x, y, heq⟩ := appendChar_eq d ke.ascii s.1
    rw [heq] at hholds ⊢
    refine ⟨fun hx => ?_, ⟨hs.ready, hholds, hs.column⟩⟩
    rw [hline, List.length_append, List.length_singleton]
    simp only at hx ⊢
    rw [hstep hx, glyphWidth, add32_eq (by omega)]
    omega
  · rw [hevent] at ht
    cases ht
    rw [hline] at hholds ⊢
    exact ⟨hstep, ⟨hs.ready, hholds, hs.column⟩⟩

/-- **One step**: exactly the end of a line over pending input fails. -/
theorem termStep_inStep_iff (h : d.Wide) {op : TermOp} (hs : Typing d s) (hstep : InStep s)
    (hop : termStep d s op = some s') (hpending : Pending d s') :
    (InStep s' ↔ EndsOverNothing d s op) ∧ Typing d s' := by
  cases op with
  | print call =>
    obtain ⟨t, ht, rfl⟩ := Option.map_eq_some_iff.mp hop
    exact print_inStep_iff h hs ht
  | key ke mem env =>
    obtain ⟨t, ht, rfl⟩ := Option.map_eq_some_iff.mp hop
    obtain ⟨hnext, htyping⟩ := key_inStep hs hstep mem h ht hpending.1
    exact ⟨⟨fun _ => trivial, fun _ => hnext⟩, htyping⟩

/-! ## Runs -/

theorem termInit_typing (h : d.Wide) (pixels : Nat → UInt32) :
    Typing d (termInit d (Terminal.boot pixels), []) ∧
      InStep (termInit d (Terminal.boot pixels), []) := by
  have hholds := inputHolds_boot d pixels
  refine ⟨⟨rfl, hholds, 0, renderInputLine_renderX d _, h.maxCols_pos⟩, ?_⟩
  rw [inStep_iff hholds]
  exact fun _ => renderInputLine_inputRenderX d _

theorem prompt_in_step (h : d.Wide) (pixels : Nat → UInt32) (ops : List TermOp)
    (hrun : run (termStep d) ops (termInit d (Terminal.boot pixels), []) = some s)
    (hpending : Throughout (termStep d) (Pending d) ops
      (termInit d (Terminal.boot pixels), [])) :
    Throughout (termStep d) InStep ops (termInit d (Terminal.boot pixels), []) ↔
      RunIf (termStep d) (EndsOverNothing d) ops (termInit d (Terminal.boot pixels), []) s := by
  obtain ⟨htyping, hstep⟩ := termInit_typing h pixels
  exact throughout_iff_of_step (Typing d) InStep (Pending d)
    (fun _ _ _ hs hin hop hp => termStep_inStep_iff h hs hin hop hp) ops htyping hstep hrun hpending

/--
**The prompt and the input are in step exactly as long as no output ends a line over pending
input.**

For every run of key events from the table and calls of `tprintf` after `term_init`, in any order,
in which the pending line always fits. What an output must not do while a line is pending is to
leave the output at the start of a line.
-/
theorem prompt_in_step_iff (hw : 18 ≤ d.width) (hw' : d.width < 2 ^ 32) (pixels : Nat → UInt32)
    (ops : List TermOp)
    (hrun : run (termStep d) ops (termInit d (Terminal.boot pixels), []) = some s)
    (hpending : Throughout (termStep d) (Pending d) ops
      (termInit d (Terminal.boot pixels), [])) :
    Throughout (termStep d) InStep ops (termInit d (Terminal.boot pixels), []) ↔
      RunIf (termStep d) (EndsOverNothing d) ops (termInit d (Terminal.boot pixels), []) s :=
  prompt_in_step ⟨hw, hw'⟩ pixels ops hrun hpending

/-- A line break from `tprintf`. -/
def printNewline : TermOp := .print (Env.call ⟨fun _ _ => 0, 0⟩ 0 (bytes "\n") [])

theorem printNewline_chars :
    (Env.call ⟨fun _ _ => 0, 0⟩ 0 (bytes "\n") []).chars = some (bytes "\n") :=
  chars_literal (bytes "\n") (by decide) (by decide) (by decide) (by decide) _ _

theorem termStep_printNewline (hready : s.1.isReady = true) :
    termStep d s printNewline = some (printChars d s.1 (bytes "\n"), s.2) := by
  rw [printNewline, termStep, tprintf, if_pos hready, printNewline_chars]
  rfl

theorem pending_empty (t : Terminal) : Pending sampleDevice (t, []) :=
  ⟨show 0 ≤ 255 by decide, show glyphWidth * (2 + 0) ≤ sampleDevice.width by decide⟩

theorem pending_a (t : Terminal) : Pending sampleDevice (t, [chr 'a']) :=
  ⟨show 1 ≤ 255 by decide, show glyphWidth * (2 + 1) ≤ sampleDevice.width by decide⟩

/-- Printing a line break and typing `a` on the small screen. -/
theorem prompt_in_step_newline_a : Throughout (termStep sampleDevice) InStep [printNewline, keyA]
    (termInit sampleDevice (Terminal.boot fun _ => 0), []) := by
  obtain ⟨t₁, ht₁⟩ : ∃ t₁, t₁ = printChars sampleDevice
    (termInit sampleDevice (Terminal.boot fun _ => 0)) (bytes "\n") := ⟨_, rfl⟩
  have h1 : termStep sampleDevice (termInit sampleDevice (Terminal.boot fun _ => 0), [])
      printNewline = some (t₁, []) := by
    rw [termStep_printNewline rfl, ht₁]
  have h2 := termStep_keyA sampleDevice (t₁, [])
  have hrun := run_cons_eq_some.mpr ⟨_, h1, run_cons_eq_some.mpr ⟨_, h2, run_nil _⟩⟩
  refine (prompt_in_step_iff (by decide) (by decide) _ _ hrun ?_).mpr
    ⟨fun _ => rfl, _, h1, trivial, _, h2, rfl⟩
  exact throughout_cons (pending_empty _) h1 (throughout_cons (pending_empty _) h2 (pending_a _))

/-- Typing `a` and printing a line break: the prompt is new, but the `a` is still pending. -/
theorem prompt_out_of_step_a_newline : ∃ s, run (termStep sampleDevice) [keyA, printNewline]
      (termInit sampleDevice (Terminal.boot fun _ => 0), []) = some s ∧
    Throughout (termStep sampleDevice) (Pending sampleDevice) [keyA, printNewline]
      (termInit sampleDevice (Terminal.boot fun _ => 0), []) ∧ ¬ InStep s := by
  have hwide : sampleDevice.Wide := ⟨by decide, by decide⟩
  obtain ⟨htyping, hstep⟩ := termInit_typing hwide fun _ => 0
  have h1 := termStep_keyA sampleDevice (termInit sampleDevice (Terminal.boot fun _ => 0), [])
  obtain ⟨hin, htyping'⟩ := termStep_inStep_iff hwide htyping hstep h1 (pending_a _)
  have h2 := termStep_printNewline (d := sampleDevice) htyping'.ready
  obtain ⟨hout, -⟩ := termStep_inStep_iff hwide htyping' (hin.mpr trivial) h2 (pending_a _)
  refine ⟨_, run_cons_eq_some.mpr ⟨_, h1, run_cons_eq_some.mpr ⟨_, h2, run_nil _⟩⟩, ?_, fun h => ?_⟩
  · exact throughout_cons (pending_empty _) h1 (throughout_cons (pending_a _) h2 (pending_a _))
  · have hempty := hout.mp h
    rw [printNewline, EndsOverNothing, printNewline_chars, Option.getD_some] at hempty
    exact absurd (hempty rfl) (List.cons_ne_nil _ _)

end BloreOs
