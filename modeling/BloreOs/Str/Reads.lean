import BloreOs.Str.Fits

/-!
# What `vsnprintf` reads

The loop of `vsnprintf` once more, with the index `i` into its format: the extent of the format says
how far it has been read. `va_arg` is a parameter, so that the arguments may be anything, what a
caller passed or what happened to lie there. A format is a list of items.

* `vsnprintfLoop_eq_printItems` — the loop over the format as a list prints the items,
* `loop_of_printItems` — so does this one, and stays inside the format,
* `extent_of_stray` — but a `%` in front of the NUL takes it out,
* `staysInside_iff` — so this is when `vsnprintf` reads nothing behind its format.
-/

namespace BloreOs

open Loop Buffer CharBuffer

variable {V : Type}

/-! ## The loop -/

/-- The state of the loop. -/
structure FormatState (V : Type) where
  i : Nat
  bufferIndex : Nat
  args : V
  buffer : CharBuffer
  format : CharBuffer

/-- The specifier at index `i`, and the index of its last character. -/
def specifierAt (format : CharBuffer) (i : Nat) : Option Conversion × Nat :=
  if format.data i = chr 'd' then (some .d, i)
  else if format.data i = chr 'x' then (some .x, i)
  else if format.data i = chr 'X' then (some .bigX, i)
  else if format.data i = chr 's' then (some .s, i)
  else if format.data i = chr 'c' then (some .c, i)
  else if format.data i = chr 'l' ∧ format.data (i + 1) = chr 'u' then (some .lu, i + 1)
  else if format.data i = chr 'l' ∧ format.data (i + 1) = chr 'd' then (some .ld, i + 1)
  else (none, i)

/-- What the tests of `specifierAt` read: the character behind is looked at after an `l` only. -/
def readSpecifier (format : CharBuffer) (i : Nat) : CharBuffer :=
  if format.data i = chr 'l' then (format.access i).access (i + 1) else format.access i

/-- Take the next argument and print it. -/
def convertArg (vaArg : V → Conversion → Option (Arg × V)) (b : CharBuffer) (i : Nat)
    (k : Conversion) (args : V) : Option ((Nat × CharBuffer) × V) :=
  (vaArg args k).bind fun a => (convert b i k a.1).map fun r => ((i + r.1, r.2), a.2)

/-- One iteration of the loop of `vsnprintf`. It ends with `none` if `va_arg` has nothing to give or
the conversion does not return. -/
def vsnprintfBody (vaArg : V → Conversion → Option (Arg × V)) (size : Nat) (s : FormatState V) :
    FormatState V ⊕ Option (FormatState V) :=
  let format := s.format.access s.i
  if format.data s.i = 0 then .inr (some { s with format })
  else if format.data s.i = chr '%' then
    let format := readSpecifier format (s.i + 1)
    match specifierAt format (s.i + 1) with
    | (some k, i) =>
      match convertArg vaArg s.buffer s.bufferIndex k s.args with
      | some ((bufferIndex, buffer), args) =>
        .inl { i := i + 1, bufferIndex, args, buffer, format }
      | none => .inr none
    | (none, i) => .inl { s with i := i + 1, format }
  else if s.bufferIndex < sub64 size 1 then
    .inl { s with
      i := s.i + 1
      bufferIndex := s.bufferIndex + 1
      buffer := s.buffer.write s.bufferIndex (format.data s.i)
      format }
  else .inr (some { s with format })

/-- The state in front of the loop. -/
def FormatState.start (format : Nat → UInt8) (args : V) (b : CharBuffer) : FormatState V where
  i := 0
  bufferIndex := 0
  args := args
  buffer := b
  format := ⟨format, 0⟩

/-! ## Items -/

/-- What a format is made of. A `%` at its end is `stray`. -/
inductive FormatItem where
  | literal (c : UInt8)
  | conversion (k : Conversion)
  | stray
deriving DecidableEq, Repr

/-- The items of a format string. Specifiers that `vsnprintf` does not know are skipped. -/
def formatItems : List UInt8 → List FormatItem
  | [] => []
  | ch :: format =>
    if ch = chr '%' then
      match format with
      | [] => [.stray]
      | f :: format =>
        ((specifier f format).1.map .conversion).toList ++ formatItems (specifier f format).2
    else .literal ch :: formatItems format
termination_by format => format.length
decreasing_by
  · have hlen := (specifier_suffix f format).length_le
    simp only [List.length_cons]
    omega
  · simp

/-- Print the items: where the text ends, the arguments that are left, and the buffer. -/
def printItems (vaArg : V → Conversion → Option (Arg × V)) (size : Nat) :
    List FormatItem → V → Nat → CharBuffer → Option ((Nat × CharBuffer) × V)
  | [], args, i, b => some ((i, b), args)
  | .literal c :: items, args, i, b =>
    if i < sub64 size 1 then printItems vaArg size items args (i + 1) (b.write i c)
    else some ((i, b), args)
  | .conversion k :: items, args, i, b =>
    (convertArg vaArg b i k args).bind fun r => printItems vaArg size items r.2 r.1.1 r.1.2
  | .stray :: _, _, _, _ => none

variable {vaArg : V → Conversion → Option (Arg × V)} {size i pos ext : Nat} {args : V}
  {b : CharBuffer} {f ch : UInt8} {fmt format : List UInt8} {data : Nat → UInt8}
  {s t : FormatState V}

theorem formatItems_nil : formatItems [] = [] := by rw [formatItems]

theorem formatItems_literal (hpct : ch ≠ chr '%') :
    formatItems (ch :: format) = .literal ch :: formatItems format := by
  rw [formatItems.eq_def]
  simp only [if_neg hpct]

theorem formatItems_percent : formatItems (chr '%' :: f :: format)
    = ((specifier f format).1.map .conversion).toList ++ formatItems (specifier f format).2 := by
  rw [formatItems.eq_def]
  simp only [if_true]

theorem formatItems_stray : formatItems [chr '%'] = [.stray] := by
  rw [formatItems.eq_def]
  simp only [if_true]

/-! ## The format as a list -/

/-- `va_arg` on a list of arguments. -/
def nextArg : List Arg → Conversion → Option (Arg × List Arg)
  | [], _ => none
  | a :: args, _ => some (a, args)

theorem convertArg_nextArg (b : CharBuffer) (i : Nat) (k : Conversion) (args : List Arg) :
    convertArg nextArg b i k args = convertNext b i k args := by
  cases args <;> rfl

/-- Read as a list, up to its NUL, a format prints its items too. -/
theorem vsnprintfLoop_eq_printItems (size : Nat) (tail fmt : List UInt8) : ∀ (args : List Arg)
    (i : Nat) (b : CharBuffer), 0 ∉ fmt → tail = [] ∨ .stray ∉ formatItems fmt →
      vsnprintfLoop size (fmt ++ 0 :: tail) args i b
        = (printItems nextArg size (formatItems fmt) args i b).map (·.1) := by
  induction fmt using format_induction with
  | nil =>
    intro args i b _ _
    rw [List.nil_append, vsnprintfLoop.eq_def, formatItems_nil]
    rfl
  | stray =>
    intro args i b _ hstray
    rw [formatItems_stray] at hstray ⊢
    rcases hstray with rfl | hno
    · rfl
    · exact absurd List.mem_cons_self hno
  | percent f fmt ih =>
    intro args i b h0 hstray
    have hne : fmt ++ 0 :: tail ≠ [] :=
      List.append_ne_nil_of_right_ne_nil _ (List.cons_ne_nil _ _)
    have hrest := no_nul_specifier h0
    rw [formatItems_percent] at hstray ⊢
    rw [List.cons_append, List.cons_append, vsnprintfLoop_percent hne, specifier_append]
    rcases hspec : specifier f fmt with ⟨k, rest⟩
    rw [hspec] at hrest hstray ih
    have hstray' : tail = [] ∨ .stray ∉ formatItems rest :=
      hstray.imp_right fun hno hm => hno (List.mem_append_right _ hm)
    cases k with
    | none => exact ih args i b hrest hstray'
    | some k =>
      show ((convertNext b i k args).bind fun r => vsnprintfLoop size (rest ++ 0 :: tail) r.2
        r.1.1 r.1.2) = ((convertArg nextArg b i k args).bind fun r =>
          printItems nextArg size (formatItems rest) r.2 r.1.1 r.1.2).map (·.1)
      rw [convertArg_nextArg]
      cases convertNext b i k args with
      | none => rfl
      | some r => exact ih r.2 r.1.1 r.1.2 hrest hstray'
  | literal ch fmt hpct ih =>
    intro args i b h0 hstray
    rw [List.mem_cons, not_or] at h0
    rw [formatItems_literal hpct] at hstray ⊢
    rw [List.cons_append, vsnprintfLoop_literal (Ne.symm h0.1) hpct, printItems,
      ih args _ _ h0.2 (hstray.imp_right fun hno hm => hno (List.mem_cons_of_mem _ hm))]
    split <;> rfl

/-! ## One iteration -/

@[simp] theorem data_readSpecifier (format : CharBuffer) (i : Nat) :
    (readSpecifier format i).data = format.data := by
  unfold readSpecifier
  split <;> rfl

theorem extent_readSpecifier_le {c : CharBuffer} {n : Nat} (h : c.extent ≤ n) (hi : i + 1 < n) :
    (readSpecifier c i).extent ≤ n := by
  have hfirst := extent_access_le h (Nat.lt_of_succ_lt hi)
  unfold readSpecifier
  split
  · exact extent_access_le hfirst hi
  · exact hfirst

theorem le_extent_readSpecifier (format : CharBuffer) (i : Nat) :
    format.extent ≤ (readSpecifier format i).extent := by
  unfold readSpecifier
  split
  · exact le_extent_access.trans le_extent_access
  · exact le_extent_access

theorem vsnprintfBody_nul (h : s.format.data s.i = 0) :
    vsnprintfBody vaArg size s = .inr (some { s with format := s.format.access s.i }) :=
  if_pos h

theorem vsnprintfBody_literal (vaArg : V → Conversion → Option (Arg × V)) (size : Nat)
    {s : FormatState V} (h0 : s.format.data s.i ≠ 0) (hpct : s.format.data s.i ≠ chr '%') :
    vsnprintfBody vaArg size s =
      if s.bufferIndex < sub64 size 1 then
        .inl { s with
          i := s.i + 1
          bufferIndex := s.bufferIndex + 1
          buffer := s.buffer.write s.bufferIndex (s.format.data s.i)
          format := s.format.access s.i }
      else .inr (some { s with format := s.format.access s.i }) :=
  (if_neg h0).trans (if_neg hpct)

/-- A `%` and what stands behind it. -/
theorem vsnprintfBody_percent (vaArg : V → Conversion → Option (Arg × V)) (size : Nat)
    {s : FormatState V} (h : s.format.data s.i = chr '%') :
    vsnprintfBody vaArg size s =
      match (specifierAt s.format (s.i + 1)).1 with
      | some k =>
        match convertArg vaArg s.buffer s.bufferIndex k s.args with
        | some r => .inl {
            i := (specifierAt s.format (s.i + 1)).2 + 1
            bufferIndex := r.1.1
            args := r.2
            buffer := r.1.2
            format := readSpecifier (s.format.access s.i) (s.i + 1) }
        | none => .inr none
      | none => .inl { s with
          i := (specifierAt s.format (s.i + 1)).2 + 1
          format := readSpecifier (s.format.access s.i) (s.i + 1) } := by
  have h0 : ¬ s.format.data s.i = 0 := by
    rw [h]
    decide
  have hspec : specifierAt (readSpecifier (s.format.access s.i) (s.i + 1)) (s.i + 1)
      = specifierAt s.format (s.i + 1) := by
    simp only [specifierAt, data_readSpecifier, data_access]
  refine ((if_neg h0).trans (if_pos h)).trans ?_
  simp only [hspec]
  rcases specifierAt s.format (s.i + 1) with ⟨_ | k, j⟩
  · rfl
  · dsimp only
    cases convertArg vaArg s.buffer s.bufferIndex k s.args <;> rfl

/-- Every iteration reads the character at its index. -/
theorem lt_extent_vsnprintfBody
    (h : vsnprintfBody vaArg size s = .inl t ∨ vsnprintfBody vaArg size s = .inr (some t)) :
    s.format.extent ≤ t.format.extent ∧ s.i < t.format.extent := by
  by_cases h0 : s.format.data s.i = 0
  · rw [vsnprintfBody_nul h0] at h
    rcases h with h | h <;> cases h
    exact ⟨le_extent_access, lt_extent_access⟩
  by_cases hpct : s.format.data s.i = chr '%'
  · have hread := le_extent_readSpecifier (s.format.access s.i) (s.i + 1)
    rw [vsnprintfBody_percent vaArg size hpct] at h
    split at h
    · split at h
      · rcases h with h | h <;> cases h
        exact ⟨le_extent_access.trans hread, lt_extent_access.trans_le hread⟩
      · rcases h with h | h <;> cases h
    · rcases h with h | h <;> cases h
      exact ⟨le_extent_access.trans hread, lt_extent_access.trans_le hread⟩
  · rw [vsnprintfBody_literal vaArg size h0 hpct] at h
    split at h
    · rcases h with h | h <;> cases h
      exact ⟨le_extent_access, lt_extent_access⟩
    · rcases h with h | h <;> cases h
      exact ⟨le_extent_access, lt_extent_access⟩

/-- What has been read stays read. -/
theorem lt_extent_of_loop (n : Nat) (h : loop (vsnprintfBody vaArg size) n s = some (some t)) :
    s.i < t.format.extent := by
  cases n with
  | zero => cases h
  | succ n =>
    cases hb : vsnprintfBody vaArg size s with
    | inl u =>
      rw [loop_inl hb] at h
      have hstart := lt_extent_vsnprintfBody (Or.inl hb)
      have hkeep := loop_invariant (fun x : FormatState V => s.i < x.format.extent)
        (fun r => ∀ t, r = some t → s.i < t.format.extent)
        (fun x y hx hy => hx.trans_le (lt_extent_vsnprintfBody (Or.inl hy)).1)
        (fun x r hx hr t ht => hx.trans_le (lt_extent_vsnprintfBody (Or.inr (ht ▸ hr))).1)
        n hstart.2 h
      exact hkeep t rfl
    | inr r =>
      rw [loop_inr hb, Option.some.injEq] at h
      exact (lt_extent_vsnprintfBody (Or.inr (h ▸ hb))).2

/-! ## The specifier -/

/-- Where the specifier ends in the string. -/
theorem specifierAt_eq {c : CharBuffer} (h : SpellsAt c.data i (f :: format)) :
    (specifierAt c i).1 = (specifier f format).1 ∧
      SpellsAt c.data ((specifierAt c i).2 + 1) (specifier f format).2 ∧
      (specifierAt c i).2 + (specifier f format).2.length = i + format.length := by
  obtain ⟨hf, -, hrest⟩ := h
  unfold specifierAt
  rw [hf]
  clear hf
  fun_cases specifier f format
  case case6 hd hx hX hs hc =>
    have hnul : c.data (i + 1) = 0 := hrest
    subst f
    rw [hnul]
    exact ⟨rfl, hrest, rfl⟩
  case case7 hd hx hX hs hc rest =>
    obtain ⟨hu, -, hrest⟩ := hrest
    subst f
    rw [hu]
    exact ⟨rfl, hrest, Nat.add_right_comm i 1 _⟩
  case case8 hd hx hX hs hc rest hu =>
    obtain ⟨hgd, -, hrest⟩ := hrest
    subst f
    rw [hgd]
    exact ⟨rfl, hrest, Nat.add_right_comm i 1 _⟩
  case case9 hd hx hX hs hc hl g rest hu hgd =>
    have hg : c.data (i + 1) = g := hrest.1
    rw [hg, if_neg hd, if_neg hx, if_neg hX, if_neg hs, if_neg hc, if_neg (fun h => hu h.2),
      if_neg (fun h => hgd h.2)]
    exact ⟨rfl, hrest, rfl⟩
  case case10 hd hx hX hs hc hl =>
    rw [if_neg hd, if_neg hx, if_neg hX, if_neg hs, if_neg hc, if_neg (fun h => hl h.1),
      if_neg (fun h => hl h.1)]
    exact ⟨rfl, hrest, rfl⟩
  all_goals
    subst f
    exact ⟨rfl, hrest, rfl⟩

/-! ## All iterations -/

/-- The loop has come to the rest `fmt` of its format, which ends with the NUL at index `last`, and
has not read behind it. -/
structure FormatState.At (s : FormatState V) (fmt : List UInt8) (last : Nat) : Prop where
  spells : SpellsAt s.format.data s.i fmt
  length : s.i + fmt.length = last
  extent_le : s.format.extent ≤ last + 1

/-- What the rest of the format prints. -/
def FormatState.print (vaArg : V → Conversion → Option (Arg × V)) (size : Nat) (s : FormatState V)
    (fmt : List UInt8) : Option ((Nat × CharBuffer) × V) :=
  printItems vaArg size (formatItems fmt) s.args s.bufferIndex s.buffer

/-- What one iteration can do in front of `fmt`. -/
inductive Iteration (vaArg : V → Conversion → Option (Arg × V)) (size : Nat) (s : FormatState V)
    (fmt : List UInt8) (last : Nat) : Prop
  | ends (t : FormatState V) (hbody : vsnprintfBody vaArg size s = .inr (some t))
      (hprint : s.print vaArg size fmt = some ((t.bufferIndex, t.buffer), t.args))
      (hi : t.i ≤ last) (hextent : t.format.extent ≤ last + 1)
  | fails (hbody : vsnprintfBody vaArg size s = .inr none)
      (hprint : s.print vaArg size fmt = none)
  | stray (hfmt : fmt = [chr '%'])
  | continues (t : FormatState V) (rest : List UInt8) (hbody : vsnprintfBody vaArg size s = .inl t)
      (hat : t.At rest last) (hlt : rest.length < fmt.length)
      (hprint : t.print vaArg size rest = s.print vaArg size fmt)

/-- A `%` with something behind it. -/
theorem iteration_percent {last : Nat} (h : s.At (chr '%' :: f :: format) last) :
    Iteration vaArg size s (chr '%' :: f :: format) last := by
  obtain ⟨⟨hpct, -, hspells⟩, hlength, hextent⟩ := h
  simp only [List.length_cons] at hlength
  obtain ⟨hk, hrest, hend⟩ := specifierAt_eq hspells
  have hbody := vsnprintfBody_percent vaArg size hpct
  have hread : (readSpecifier (s.format.access s.i) (s.i + 1)).extent ≤ last + 1 :=
    extent_readSpecifier_le (extent_access_le hextent (by omega)) (by omega)
  have hlen := (specifier_suffix f format).length_le
  have hlt : (specifier f format).2.length < (chr '%' :: f :: format).length := by
    simp only [List.length_cons]
    omega
  rw [hk] at hbody
  cases hspec : (specifier f format).1 with
  | none =>
    rw [hspec] at hbody
    refine .continues _ _ hbody ⟨?_, ?_, hread⟩ hlt ?_
    · rw [data_readSpecifier]
      exact hrest
    · show _ + 1 + _ = _
      omega
    · rw [FormatState.print, FormatState.print, formatItems_percent, hspec]
      rfl
  | some k =>
    simp only [hspec] at hbody
    have hitems : s.print vaArg size (chr '%' :: f :: format)
        = (convertArg vaArg s.buffer s.bufferIndex k s.args).bind fun r =>
          printItems vaArg size (formatItems (specifier f format).2) r.2 r.1.1 r.1.2 := by
      rw [FormatState.print, formatItems_percent, hspec]
      rfl
    cases hconv : convertArg vaArg s.buffer s.bufferIndex k s.args with
    | none =>
      rw [hconv] at hitems
      simp only [hconv] at hbody
      exact .fails hbody hitems
    | some r =>
      rw [hconv] at hitems
      simp only [hconv] at hbody
      refine .continues _ _ hbody ⟨?_, ?_, hread⟩ hlt hitems.symm
      · rw [data_readSpecifier]
        exact hrest
      · show _ + 1 + _ = _
        omega

theorem iteration (vaArg : V → Conversion → Option (Arg × V)) (size : Nat) {s : FormatState V}
    {fmt : List UInt8} {last : Nat} (h : s.At fmt last) : Iteration vaArg size s fmt last := by
  cases fmt with
  | nil =>
    have hlast : s.i = last := h.length
    have hprint : s.print vaArg size [] = some ((s.bufferIndex, s.buffer), s.args) := by
      rw [FormatState.print, formatItems_nil, printItems]
    exact .ends _ (vsnprintfBody_nul h.spells) hprint hlast.le
      (extent_access_le h.extent_le (by omega))
  | cons c fmt =>
    by_cases hpct : c = chr '%'
    · subst hpct
      cases fmt with
      | nil => exact .stray rfl
      | cons f fmt => exact iteration_percent h
    · obtain ⟨⟨hc, h0, hspells⟩, hlength, hextent⟩ := h
      rw [List.length_cons] at hlength
      have hread : (s.format.access s.i).extent ≤ last + 1 :=
        extent_access_le hextent (by omega)
      have hbody := vsnprintfBody_literal vaArg size (s := s) (hc ▸ h0) (hc ▸ hpct)
      have hitems : s.print vaArg size (c :: fmt) = if s.bufferIndex < sub64 size 1 then
          printItems vaArg size (formatItems fmt) s.args (s.bufferIndex + 1)
            (s.buffer.write s.bufferIndex c)
          else some ((s.bufferIndex, s.buffer), s.args) := by
        rw [FormatState.print, formatItems_literal hpct]
        rfl
      by_cases hroom : s.bufferIndex < sub64 size 1
      · rw [if_pos hroom] at hbody hitems
        refine .continues _ fmt hbody ⟨hspells, ?_, hread⟩ (Nat.lt_succ_self _) ?_
        · show s.i + 1 + _ = _
          omega
        · rw [hitems, hc]
          rfl
      · rw [if_neg hroom] at hbody hitems
        exact .ends _ hbody hitems (by show s.i ≤ last; omega) hread

/-- **The loop prints the items of its format**, and stays inside the format. -/
theorem loop_of_printItems {last : Nat} : ∀ (m : Nat) {fmt : List UInt8} {s : FormatState V}
    {r : (Nat × CharBuffer) × V}, fmt.length < m → s.At fmt last →
      s.print vaArg size fmt = some r →
      ∃ t, loop (vsnprintfBody vaArg size) m s = some (some t) ∧
        ((t.bufferIndex, t.buffer), t.args) = r ∧ t.i ≤ last ∧ t.format.extent ≤ last + 1
  | 0, _, _, _, hm, _, _ => absurd hm (Nat.not_lt_zero _)
  | m + 1, fmt, s, r, hm, hat, hr => by
    cases iteration vaArg size hat with
    | ends t hbody hprint hi hextent =>
      rw [hprint, Option.some.injEq] at hr
      exact ⟨t, loop_inr hbody m, hr, hi, hextent⟩
    | fails hbody hprint =>
      rw [hprint] at hr
      cases hr
    | stray hfmt =>
      rw [hfmt, FormatState.print, formatItems_stray] at hr
      cases hr
    | continues t rest hbody hat' hlt hprint =>
      rw [loop_inl hbody]
      exact loop_of_printItems m (by omega) hat' (hprint.trans hr)

/-- In front of a stray `%` the loop leaves the format. -/
theorem extent_of_stray {last n : Nat} (hat : s.At [chr '%'] last)
    (h : loop (vsnprintfBody vaArg size) n s = some (some t)) : last + 1 < t.format.extent := by
  obtain ⟨⟨hpct, -, hnul⟩, hlength, -⟩ := hat
  cases n with
  | zero => cases h
  | succ n =>
    have hnul' : s.format.data (s.i + 1) = 0 := hnul
    have hspec : specifierAt s.format (s.i + 1) = (none, s.i + 1) := by
      rw [specifierAt, hnul']
      rfl
    have hbody := vsnprintfBody_percent vaArg size hpct
    rw [hspec] at hbody
    rw [loop_inl hbody] at h
    have hread : s.i + 1 + 1 < t.format.extent := lt_extent_of_loop n h
    rw [List.length_singleton] at hlength
    omega

/-- Where there is nothing to print, the loop does not end inside the format. -/
theorem extent_of_printItems {last : Nat} : ∀ (n : Nat) {fmt : List UInt8} {s t : FormatState V},
    s.At fmt last → s.print vaArg size fmt = none →
      loop (vsnprintfBody vaArg size) n s = some (some t) → last + 1 < t.format.extent
  | 0, _, _, _, _, _, h => by cases h
  | n + 1, fmt, s, t, hat, hnone, h => by
    cases iteration vaArg size hat with
    | ends u hbody hprint hi hextent =>
      rw [hprint] at hnone
      cases hnone
    | fails hbody hprint =>
      rw [loop_inr hbody] at h
      cases h
    | stray hfmt =>
      subst hfmt
      exact extent_of_stray hat h
    | continues u rest hbody hat' hlt hprint =>
      rw [loop_inl hbody] at h
      exact extent_of_printItems n hat' (hprint.trans hnone) h

/-! ## When there is something to print -/

/-- The next argument, as the piece that its conversion makes of it. -/
def nextPiece (vaArg : V → Conversion → Option (Arg × V)) (k : Conversion) (args : V) :
    Option (Piece × V) :=
  (vaArg args k).bind fun a => (Piece.ofArg k a.1).map fun p => (p, a.2)

/-- A walk over the items comes to an end: every conversion that it comes to has an argument of its
type and returns, and it does not come to a stray `%`. A literal that finds the buffer full ends it.
-/
def WalkEnds (vaArg : V → Conversion → Option (Arg × V)) (size : Nat) :
    List FormatItem → V → Nat → Prop
  | [], _, _ => True
  | .literal _ :: items, args, pos =>
    pos < sub64 size 1 → WalkEnds vaArg size items args (pos + 1)
  | .conversion k :: items, args, pos =>
    ∃ r, nextPiece vaArg k args = some r ∧ r.1.Returns ∧
      WalkEnds vaArg size items r.2 (pos + r.1.text.length)
  | .stray :: _, _, _ => False

theorem convertArg_eq (b : CharBuffer) (i : Nat) (k : Conversion) (args : V) :
    convertArg vaArg b i k args = (nextPiece vaArg k args).bind fun r =>
      (r.1.print b i).map fun q => ((i + q.1, q.2), r.2) := by
  rw [convertArg, nextPiece]
  cases vaArg args k with
  | none => rfl
  | some a =>
    rw [Option.bind_some, Option.bind_some, convert_eq]
    cases Piece.ofArg k a.1 <;> rfl

/-- A conversion that returns appends its text. -/
theorem convertArg_eq_some {k : Conversion} {r : Piece × V}
    (hr : nextPiece vaArg k args = some r) (hret : r.1.Returns) (b : CharBuffer) (i : Nat) :
    ∃ b', convertArg vaArg b i k args = some ((i + r.1.text.length, b'), r.2) ∧
      r.1.print b i = some (r.1.text.length, b') := by
  obtain ⟨b', hb', -⟩ := print_appended hret b i
  refine ⟨b', ?_, hb'⟩
  rw [convertArg_eq, hr, Option.bind_some, hb', Option.map_some]

theorem printItems_isSome_iff : ∀ (items : List FormatItem) {args : V} {i : Nat} {b : CharBuffer},
    (∃ r, printItems vaArg size items args i b = some r) ↔ WalkEnds vaArg size items args i
  | [], _, _, _ => iff_of_true ⟨_, rfl⟩ trivial
  | .stray :: _, _, _, _ => iff_of_false (fun h => by cases h.choose_spec) id
  | .literal c :: items, args, i, b => by
    rw [printItems, WalkEnds]
    by_cases hroom : i < sub64 size 1
    · rw [if_pos hroom, printItems_isSome_iff items]
      exact ⟨fun h _ => h, fun h => h hroom⟩
    · rw [if_neg hroom]
      exact iff_of_true ⟨_, rfl⟩ fun h => absurd h hroom
  | .conversion k :: items, args, i, b => by
    rw [printItems, WalkEnds]
    cases hnext : nextPiece vaArg k args with
    | none =>
      rw [convertArg_eq, hnext]
      exact iff_of_false (fun h => by cases h.choose_spec) (fun h => by cases h.choose_spec.1)
    | some r =>
      by_cases hret : r.1.Returns
      · obtain ⟨b', hb', -⟩ := convertArg_eq_some hnext hret b i
        rw [hb', Option.bind_some, printItems_isSome_iff items]
        constructor
        · exact fun h => ⟨r, rfl, hret, h⟩
        · rintro ⟨q, hq, -, h⟩
          cases hq
          exact h
      · rw [convertArg_eq, hnext, Option.bind_some, print_eq_none hret]
        refine iff_of_false (fun h => by cases h.choose_spec) ?_
        rintro ⟨q, hq, hret', -⟩
        cases hq
        exact hret hret'

/-! ## The whole format -/

/-- The loop ends, at the NUL of its format or in front of it, and has read nothing behind it. The
NUL is at index `last`. -/
def StaysInside (vaArg : V → Conversion → Option (Arg × V)) (size : Nat) (format : Nat → UInt8)
    (last : Nat) (args : V) (b : CharBuffer) : Prop :=
  ∃ n t, loop (vsnprintfBody vaArg size) n (.start format args b) = some (some t) ∧
    t.i ≤ last ∧ t.format.extent ≤ last + 1

theorem start_at (h : Spells ⟨data, 0⟩ fmt) (args : V) (b : CharBuffer) :
    (FormatState.start data args b).At fmt fmt.length where
  spells := h.spellsAt
  length := Nat.zero_add _
  extent_le := Nat.zero_le _

/-- A format with nothing to print is left. -/
theorem not_staysInside (h : Spells ⟨data, 0⟩ fmt)
    (hends : ¬ WalkEnds vaArg size (formatItems fmt) args 0) (b : CharBuffer) :
    ¬ StaysInside vaArg size data fmt.length args b := by
  rintro ⟨n, t, ht, -, hextent⟩
  have hnone : (FormatState.start data args b).print vaArg size fmt = none :=
    Option.eq_none_iff_forall_ne_some.mpr fun r hr =>
      hends ((printItems_isSome_iff _).mp ⟨r, hr⟩)
  have hout := extent_of_printItems n (start_at h args b) hnone ht
  omega

/--
**When `vsnprintf` stays inside its format.**

For every format string, all arguments and whatever lies behind the string: the loop ends at the NUL
or earlier and reads nothing behind it exactly if a walk over the items of the format comes to an
end. So a `%` in front of the NUL must not be reached; the characters of the format that are tested
for room in the buffer can only end the text before.
-/
theorem staysInside_iff (vaArg : V → Conversion → Option (Arg × V)) (size : Nat)
    (data : Nat → UInt8) (fmt : List UInt8) (h : Spells ⟨data, 0⟩ fmt) (args : V)
    (b : CharBuffer) :
    StaysInside vaArg size data fmt.length args b ↔
      WalkEnds vaArg size (formatItems fmt) args 0 := by
  constructor
  · intro hinside
    by_contra hends
    exact not_staysInside h hends b hinside
  · intro hends
    obtain ⟨r, hr⟩ := (printItems_isSome_iff (b := b) _).mpr hends
    obtain ⟨t, ht, -, hi, hextent⟩ :=
      loop_of_printItems (fmt.length + 1) (Nat.lt_succ_self _) (start_at h args b) hr
    exact ⟨_, t, ht, hi, hextent⟩

/-- `"%lu%l"`: the end of the format may be in the middle of a specifier. -/
theorem staysInside_lu : StaysInside nextArg 256
    (fun k => [chr '%', chr 'l', chr 'u', chr '%', chr 'l'].getD k 0) 5 [.long 7]
    ⟨fun _ => 0, 0⟩ := by
  have hspells : Spells ⟨fun k => [chr '%', chr 'l', chr 'u', chr '%', chr 'l'].getD k 0, 0⟩
      [chr '%', chr 'l', chr 'u', chr '%', chr 'l'] := ⟨by decide, by decide, by decide⟩
  have hitems : formatItems [chr '%', chr 'l', chr 'u', chr '%', chr 'l'] = [.conversion .lu] := by
    rw [formatItems_percent]
    show .conversion .lu :: formatItems [chr '%', chr 'l'] = _
    rw [formatItems_percent]
    show .conversion .lu :: formatItems [] = _
    rw [formatItems_nil]
  refine (staysInside_iff nextArg 256 _ _ hspells _ _).mpr ?_
  rw [hitems]
  exact ⟨(.ulong 7, []), rfl, trivial, trivial⟩

/-- `"%"`: the loop steps over the NUL. -/
theorem percent_leaves_format :
    ¬ StaysInside nextArg 256 (fun k => [chr '%'].getD k 0) 1 [] ⟨fun _ => 0, 0⟩ := by
  have hspells : Spells ⟨fun k => [chr '%'].getD k 0, 0⟩ [chr '%'] :=
    ⟨by decide, by decide, by decide⟩
  refine not_staysInside hspells ?_ _
  rw [formatItems_stray]
  exact id

end BloreOs
