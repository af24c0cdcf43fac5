import BloreOs.Str.Fits

/-!
# The kernel log (`kprintf`)

`kprintf` formats its text once, writes the result to COM1 and hands it to `tprintf`, as the format.
So on its way to the terminal the text is formatted a second time, and without arguments.

* `literal_pass` — a text without `%` goes through unchanged,
* `percent_pass` — a text that went through has no `%` any more,
* `logs_agree_iff` — so the two logs agree on the texts without `%`.
-/

namespace BloreOs

open Buffer CharBuffer

/-- The buffer of `kprintf`, `tprintf` and `write_serial_strf` after `vsnprintf`. It lies on the
stack, over whatever is there. -/
def formatted (format : List UInt8) (args : List Arg) (stack : Nat → UInt8) : Option CharBuffer :=
  (vsnprintf 256 format args ⟨stack, 0⟩).map (·.2)

/-- What `write_serial_str` sends. -/
def writeSerialStr (b : CharBuffer) : List UInt8 := b.cstr 256

/-- The text that `tprintf` builds for the renderer. -/
def tprintfText (b : CharBuffer) : List UInt8 := b.cstr 256

/-- `kprintf`: what COM1 receives, and the text that `tprintf` builds if the terminal is ready. -/
def kprintf (isReady : Bool) (format : List UInt8) (args : List Arg) (stack stack' : Nat → UInt8) :
    Option (List UInt8 × Option (List UInt8)) :=
  (formatted format args stack).bind fun buffer =>
    if isReady then
      (formatted (buffer.slice 0 256) [] stack').map fun b =>
        (writeSerialStr buffer, some (tprintfText b))
    else some (writeSerialStr buffer, none)

/-- The two logs agree. -/
def LogsAgree (log : Option (List UInt8 × Option (List UInt8))) : Prop :=
  ∃ text, log = some (text, some text)

variable {ps : List Piece} {args : List Arg} {fmt text tail : List UInt8} {stack : Nat → UInt8}

/-! ## One pass -/

/-- A text that is shorter than the buffer fits. -/
theorem fits_of_length {size : Nat} : ∀ (ps : List Piece) {pos : Nat}, (∀ p ∈ ps, p.Returns) →
    pos + (expansion ps).length < size → Fits size ps pos
  | [], _, _, _ => trivial
  | p :: ps, pos, hret, hlen => by
    rw [List.forall_mem_cons] at hret
    rw [expansion, List.flatMap_cons, List.length_append] at hlen
    have hrest : Fits size ps (pos + p.text.length) :=
      fits_of_length ps hret.2 (by rw [expansion]; omega)
    rcases literal_or p with ⟨c, rfl⟩ | hp
    · exact Or.inr hrest
    · have hroom := room_le_text_length p
      exact (fits_cons hp).mpr ⟨hret.1, by omega, hrest⟩

/-- A short text that is printed has conversions that return. -/
theorem returns_of_printPieces {size : Nat} (h64 : size < 2 ^ 64) : ∀ (ps : List Piece) {i : Nat}
    {b : CharBuffer} {r : Nat × CharBuffer}, i + (expansion ps).length < size →
      printPieces size ps i b = some r → ∀ p ∈ ps, p.Returns
  | [], _, _, _, _, _ => by simp
  | p :: ps, i, b, r, hlen, h => by
    rw [expansion, List.flatMap_cons, List.length_append] at hlen
    rw [List.forall_mem_cons]
    rcases literal_or p with ⟨c, rfl⟩ | hp
    · simp only [Piece.text, List.length_singleton] at hlen
      rw [printPieces, sub64_eq (by omega) h64, if_pos (by omega)] at h
      exact ⟨trivial, returns_of_printPieces h64 ps (by rw [expansion]; omega) h⟩
    · obtain ⟨hret, c, -, hrest⟩ := appended_of_printPieces hp h
      exact ⟨hret, returns_of_printPieces h64 ps (by rw [expansion]; omega) hrest⟩

/-- A short text whose conversions return is formatted in full, inside the buffer. -/
theorem formatted_eq (h0 : 0 ∉ fmt) (hps : pieces fmt args = some ps)
    (hstray : tail = [] ∨ .stray ∉ ps) (hret : ∀ p ∈ ps, p.Returns)
    (hlen : (expansion ps).length ≤ 255) (stack : Nat → UInt8) :
    ∃ b, formatted (fmt ++ 0 :: tail) args stack = some b ∧ b.extent ≤ 256 ∧
      b.slice 0 (expansion ps).length = expansion ps ∧ b.data (expansion ps).length = 0 := by
  obtain ⟨j, b, hb, hext, n, -, hnul, htext⟩ := boundedPrint_of_fits (show 1 ≤ 256 by decide)
    (by decide) h0 hps hstray (fits_of_length ps hret (by omega)) stack
  rw [List.take_of_length_le (show _ ≤ 256 - 1 from hlen)] at htext
  obtain rfl : n = (expansion ps).length := by rw [← htext, length_slice]
  exact ⟨b, by rw [formatted, hb]; rfl, hext, htext, hnul⟩

theorem returns_of_formatted {b : CharBuffer} (h0 : 0 ∉ fmt) (hps : pieces fmt args = some ps)
    (hstray : tail = [] ∨ .stray ∉ ps) (hlen : (expansion ps).length ≤ 255)
    (h : formatted (fmt ++ 0 :: tail) args stack = some b) : ∀ p ∈ ps, p.Returns := by
  obtain ⟨r, hr, -⟩ := Option.map_eq_some_iff.mp h
  rw [vsnprintf_eq h0 hps hstray] at hr
  obtain ⟨q, hq, -⟩ := Option.map_eq_some_iff.mp hr
  exact returns_of_printPieces (by decide) ps (by omega) hq

/-! ## The second pass -/

/-- A format without `%` stands for itself. -/
theorem pieces_of_no_percent : ∀ (text : List UInt8), chr '%' ∉ text →
    pieces text [] = some (text.map .literal)
  | [], _ => rfl
  | c :: text, h => by
    rw [List.mem_cons, not_or] at h
    rw [pieces_literal (Ne.symm h.1), pieces_of_no_percent text h.2]
    rfl

@[simp]
theorem expansion_map_literal (text : List UInt8) : expansion (text.map .literal) = text := by
  rw [expansion, List.flatMap_map]
  exact List.flatMap_singleton' text

theorem returns_map_literal (text : List UInt8) : ∀ p ∈ text.map Piece.literal, p.Returns := by
  rw [List.forall_mem_map]
  exact fun _ _ => trivial

/-- **A text without `%` goes through the second pass unchanged.** -/
theorem literal_pass (h0 : 0 ∉ text) (hpct : chr '%' ∉ text) (hlen : text.length ≤ 255)
    (tail : List UInt8) (stack : Nat → UInt8) :
    ∃ b, formatted (text ++ 0 :: tail) [] stack = some b ∧ b.extent ≤ 256 ∧
      tprintfText b = text := by
  have hps := pieces_of_no_percent text hpct
  have hstray : Piece.stray ∉ text.map Piece.literal := by simp
  obtain ⟨b, hb, hext, htext, hnul⟩ := formatted_eq h0 hps (Or.inr hstray) (returns_map_literal text)
    (by rwa [expansion_map_literal]) stack
  rw [expansion_map_literal] at htext hnul
  refine ⟨b, hb, hext, ?_⟩
  rw [tprintfText, cstr_eq (by omega) htext hnul, takeWhile_no_nul h0]

theorem vsnprintfLoop_percent_end (size : Nat) (f : UInt8) (i : Nat) (b : CharBuffer) :
    vsnprintfLoop size [chr '%', f] [] i b = none := by
  have h0 : ¬ chr '%' = 0 := by decide
  rw [vsnprintfLoop.eq_def]
  simp only [if_neg h0, if_true]
  split_ifs <;> rfl

/-- Without arguments no conversion is printed, so no `%` is written. -/
theorem no_percent_of_vsnprintfLoop {size : Nat} (format : List UInt8) : ∀ {i j : Nat}
    {b b' : CharBuffer}, (∀ k < i, b.data k ≠ chr '%') →
      vsnprintfLoop size format [] i b = some (j, b') → ∀ k < j, b'.data k ≠ chr '%' := by
  induction format using format_induction with
  | nil =>
    intro i j b b' _ h
    cases h
  | stray =>
    intro i j b b' _ h
    cases h
  | percent f format ih =>
    intro i j b b' hb h
    -- the character behind the `%` may be the last one
    cases format with
    | nil =>
      rw [vsnprintfLoop_percent_end] at h
      cases h
    | cons g format =>
      rw [vsnprintfLoop_percent (List.cons_ne_nil g format)] at h
      rcases hspec : specifier f (g :: format) with ⟨k, rest⟩
      rw [hspec] at h ih
      cases k with
      | none => exact ih hb h
      | some k => cases h
  | literal ch format hpct ih =>
    intro i j b b' hb h
    by_cases h0 : ch = 0
    · subst h0
      rw [vsnprintfLoop.eq_def] at h
      cases h
      exact hb
    · rw [vsnprintfLoop_literal h0 hpct] at h
      split at h
      · refine ih (fun k hk => ?_) h
        rcases Nat.lt_succ_iff_lt_or_eq.mp hk with hlt | rfl
        · rw [data_write_other (by omega)]
          exact hb k hlt
        · rw [data_write_same]
          exact hpct
      · cases h
        exact hb

/-- **A text that has gone through the second pass has no `%` any more.** -/
theorem percent_pass {b : CharBuffer} {format : List UInt8}
    (h : formatted format [] stack = some b) : chr '%' ∉ tprintfText b := by
  obtain ⟨r, hr, rfl⟩ := Option.map_eq_some_iff.mp h
  obtain ⟨⟨j, c⟩, hc, rfl⟩ := Option.map_eq_some_iff.mp hr
  have hno := no_percent_of_vsnprintfLoop format (by simp) hc
  -- the text ends at the NUL, if not before
  obtain ⟨n, hn⟩ : ∃ n, n = if j < 256 then j else sub64 256 1 := ⟨_, rfl⟩
  have hle : n ≤ j ∧ n < 256 := by
    have h255 : sub64 256 1 = 255 := by decide
    rw [h255] at hn
    split at hn <;> omega
  have htext : tprintfText (c.write n 0) = (c.slice 0 n).takeWhile (· ≠ 0) := by
    have hslice : (c.write n 0).slice 0 (c.slice 0 n).length = c.slice 0 n := by
      rw [length_slice]
      exact slice_congr fun k _ hk => data_write_other (by omega)
    have hlen : (c.slice 0 n).length = n := length_slice
    exact cstr_eq (by omega) hslice (by rw [hlen, data_write_same])
  intro hmem
  simp only [← hn, htext] at hmem
  obtain ⟨k, hk, hget⟩ := List.getElem_of_mem (List.takeWhile_subset _ hmem)
  rw [length_slice] at hk
  rw [getElem_slice, Nat.zero_add] at hget
  exact hno k (by omega) hget

/-! ## Both logs -/

/-- A buffer that holds a terminated text holds its string, a NUL and something behind. -/
theorem slice_eq_cstr_append {b : CharBuffer} {cs : List UInt8} (hlen : cs.length ≤ 255)
    (htext : b.slice 0 cs.length = cs) (hnul : b.data cs.length = 0) :
    b.cstr 256 = cs.takeWhile (· ≠ 0) ∧
      ∃ tail, b.slice 0 256 = cs.takeWhile (· ≠ 0) ++ 0 :: tail := by
  have hcstr := cstr_eq (n := 256) (by omega) htext hnul
  refine ⟨hcstr, ?_⟩
  rw [← hcstr, cstr]
  have hmem : (0 : UInt8) ∈ b.slice 0 256 := by
    rw [← hnul]
    exact List.mem_map.mpr ⟨cs.length, List.mem_range.mpr (by omega), by rw [Nat.zero_add]⟩
  exact exists_takeWhile_append hmem

/-- What COM1 receives from `kprintf` is the expansion, up to its first NUL. -/
theorem kprintf_eq (h0 : 0 ∉ fmt) (hps : pieces fmt args = some ps)
    (hlen : (expansion ps).length ≤ 255) (hret : ∀ p ∈ ps, p.Returns) (stack stack' : Nat → UInt8) :
    ∃ tail, kprintf true (fmt ++ [0]) args stack stack' =
      (formatted ((expansion ps).takeWhile (· ≠ 0) ++ 0 :: tail) [] stack').map fun b =>
        ((expansion ps).takeWhile (· ≠ 0), some (tprintfText b)) := by
  obtain ⟨b, hb, -, htext, hnul⟩ := formatted_eq h0 hps (Or.inl rfl) hret hlen stack
  obtain ⟨hcstr, tail, htail⟩ := slice_eq_cstr_append hlen htext hnul
  refine ⟨tail, ?_⟩
  rw [kprintf, hb, Option.bind_some, if_pos rfl, htail, writeSerialStr, hcstr]

theorem logsAgree_of_no_percent (h0 : 0 ∉ fmt) (hps : pieces fmt args = some ps)
    (hlen : (expansion ps).length ≤ 255) (hret : ∀ p ∈ ps, p.Returns)
    (hpct : chr '%' ∉ (expansion ps).takeWhile (· ≠ 0)) (stack stack' : Nat → UInt8) :
    LogsAgree (kprintf true (fmt ++ [0]) args stack stack') := by
  obtain ⟨tail, hlog⟩ := kprintf_eq h0 hps hlen hret stack stack'
  have hnul := no_nul_takeWhile (expansion ps)
  have hle := (List.takeWhile_prefix (· ≠ 0) (l := expansion ps)).length_le
  obtain ⟨b, hb, -, htext⟩ := literal_pass hnul hpct (hle.trans hlen) tail stack'
  rw [hlog, hb]
  exact ⟨_, by rw [Option.map_some, htext]⟩

theorem no_percent_of_logsAgree (h0 : 0 ∉ fmt) (hps : pieces fmt args = some ps)
    (hlen : (expansion ps).length ≤ 255) {stack' : Nat → UInt8}
    (h : LogsAgree (kprintf true (fmt ++ [0]) args stack stack')) :
    (∀ p ∈ ps, p.Returns) ∧ chr '%' ∉ (expansion ps).takeWhile (· ≠ 0) := by
  obtain ⟨text, htext⟩ := h
  obtain ⟨b, hb, -⟩ := Option.bind_eq_some_iff.mp htext
  have hret := returns_of_formatted h0 hps (Or.inl rfl) hlen hb
  obtain ⟨tail, hlog⟩ := kprintf_eq h0 hps hlen hret stack stack'
  rw [hlog] at htext
  obtain ⟨c, hc, heq⟩ := Option.map_eq_some_iff.mp htext
  rw [Prod.mk.injEq, Option.some.injEq] at heq
  rw [heq.1, ← heq.2]
  exact ⟨hret, percent_pass hc⟩

/--
**The serial log and the terminal log agree exactly on texts without `%`.**

For every format string and every matching list of arguments whose expansion has at most 255
characters. The condition is on the text that comes out, wherever a `%` in it comes from: an
argument is enough. (A format in which a conversion does not return has no logs to compare.)
-/
theorem logs_agree_iff (fmt : List UInt8) (args : List Arg) (h0 : 0 ∉ fmt)
    (hps : pieces fmt args = some ps) (hlen : (expansion ps).length ≤ 255)
    (stack stack' : Nat → UInt8) :
    LogsAgree (kprintf true (fmt ++ [0]) args stack stack') ↔
      (∀ p ∈ ps, p.Returns) ∧ chr '%' ∉ (expansion ps).takeWhile (· ≠ 0) :=
  ⟨no_percent_of_logsAgree h0 hps hlen,
    fun h => logsAgree_of_no_percent h0 hps hlen h.1 h.2 stack stack'⟩

/-- `kprintf("%s", "ok")`. -/
theorem logs_agree_ok :
    LogsAgree (kprintf true ([chr '%', chr 's'] ++ [0]) [.str (cstring [111, 107])] (fun _ => 1)
      fun _ => 2) := by
  have hps : pieces [chr '%', chr 's'] [.str (cstring [111, 107])] = some [.chars [111, 107]] := rfl
  refine (logs_agree_iff _ _ (by decide) hps (by decide) _ _).mpr ⟨?_, by decide⟩
  rw [List.forall_mem_singleton]
  exact trivial

/-- `kprintf("%c", '%')`, as `memdumps` calls it for a byte of memory. -/
theorem logs_differ_percent :
    ¬ LogsAgree (kprintf true ([chr '%', chr 'c'] ++ [0]) [.int 37] (fun _ => 1) fun _ => 2) := by
  intro h
  have hps : pieces [chr '%', chr 'c'] [.int 37] = some [.chars [37]] := rfl
  exact (no_percent_of_logsAgree (by decide) hps (by decide) h).2 (by decide)

end BloreOs
