import BloreOs.Str.Reads

/-!
# Formatted text that fits

If the whole text is shorter than the buffer, `vsnprintf` is exact: it takes one argument after the
other and leaves the text with its NUL, and nothing else has changed.

* `formatItems_chars` — a documented format is read as it is written,
* `printItems_of_matchArgs` — items that fit are printed in full,
* `vsnprintf_exact` — what the call leaves and returns.

What it returns is an `int`, although it counts with a `size_t`. So a text of `2 ^ 31` characters or
more, for which the buffer may well be long enough, is not what the returned value says.
-/

namespace BloreOs

open Loop Buffer CharBuffer

variable {V : Type} {size i : Nat} {b b' c : CharBuffer} {p : Piece} {ps : List Piece}
  {args rest : List Arg} {items : List FormatItem} {text cs ds : List UInt8}
  {format : Nat → UInt8}

/-! ## The call -/

/-- `bufferIndex` as the `int` that is returned. -/
def returnValue (bufferIndex : Nat) : Int := (BitVec.ofNat 32 bufferIndex).toInt

/-- `vsnprintf`, if its loop ends within `n` iterations: what it returns, the arguments that are
left, and the buffer. -/
def vsnprintfCall (vaArg : V → Conversion → Option (Arg × V)) (size : Nat) (format : Nat → UInt8)
    (args : V) (b : CharBuffer) (n : Nat) : Option (Int × V × CharBuffer) :=
  (loop (vsnprintfBody vaArg size) n (.start format args b)).bind fun r => r.map fun t =>
    (returnValue t.bufferIndex, t.args,
      t.buffer.write (if t.bufferIndex < size then t.bufferIndex else sub64 size 1) 0)

/-- A call prints the items of its format. -/
theorem vsnprintfCall_of_printItems {vaArg : V → Conversion → Option (Arg × V)} {args rest : V}
    {fmt : List UInt8} (h : Spells ⟨format, 0⟩ fmt)
    (hprint : printItems vaArg size (formatItems fmt) args 0 b = some ((i, b'), rest)) :
    vsnprintfCall vaArg size format args b (fmt.length + 1) =
      some (returnValue i, rest, b'.write (if i < size then i else sub64 size 1) 0) := by
  obtain ⟨t, ht, heq, -, -⟩ :=
    loop_of_printItems (fmt.length + 1) (Nat.lt_succ_self _) (start_at h args b) hprint
  rw [Prod.mk.injEq, Prod.mk.injEq] at heq
  obtain ⟨⟨hindex, hbuffer⟩, hargs⟩ := heq
  rw [vsnprintfCall, ht, Option.bind_some, Option.map_some, hindex, hbuffer, hargs]

/-- It is the same call as with the format as a list. -/
theorem vsnprintf_of_walkEnds {fmt : List UInt8} (h : Spells ⟨format, 0⟩ fmt)
    (hends : WalkEnds nextArg size (formatItems fmt) args 0) (b : CharBuffer) :
    ∃ n j rest b', vsnprintfCall nextArg size format args b n = some (returnValue j, rest, b') ∧
      vsnprintf size (fmt ++ [0]) args b = some (j, b') := by
  obtain ⟨⟨⟨j, b'⟩, rest⟩, hprint⟩ := (printItems_isSome_iff (b := b) _).mpr hends
  refine ⟨_, j, rest, _, vsnprintfCall_of_printItems h hprint, ?_⟩
  rw [vsnprintf, vsnprintfLoop_eq_printItems size [] fmt args 0 b h.no_nul (Or.inl rfl),
    hprint]
  rfl

/-- The arguments in order, as the items of a format ask for them: the pieces, and the arguments
that are left. -/
def matchArgs : List FormatItem → List Arg → Option (List Piece × List Arg)
  | [], args => some ([], args)
  | .literal c :: items, args => (matchArgs items args).map fun r => (.literal c :: r.1, r.2)
  | .conversion k :: items, args => (nextPiece nextArg k args).bind fun r =>
    (matchArgs items r.2).map fun q => (r.1 :: q.1, q.2)
  | .stray :: _, _ => none

/-! ## Documented formats -/

/-- The characters of a specifier behind its `%`. -/
def Conversion.chars : Conversion → List UInt8
  | .d => [chr 'd']
  | .x => [chr 'x']
  | .bigX => [chr 'X']
  | .s => [chr 's']
  | .c => [chr 'c']
  | .lu => [chr 'l', chr 'u']
  | .ld => [chr 'l', chr 'd']

/-- How an item is written. -/
def FormatItem.chars : FormatItem → List UInt8
  | .literal c => [c]
  | .conversion k => chr '%' :: k.chars
  | .stray => [chr '%']

/-- A character other than `%`, or one of the documented specifiers. -/
def FormatItem.Documented : FormatItem → Prop
  | .literal c => c ≠ 0 ∧ c ≠ chr '%'
  | .conversion _ => True
  | .stray => False

instance : DecidablePred FormatItem.Documented := fun x => by
  cases x <;> unfold FormatItem.Documented <;> infer_instance

theorem formatItems_conversion (k : Conversion) (format : List UInt8) :
    formatItems (chr '%' :: k.chars ++ format) = .conversion k :: formatItems format := by
  cases k <;>
    · rw [Conversion.chars, List.cons_append, List.cons_append, formatItems_percent]
      rfl

/-- **A documented format is read as it is written.** -/
theorem formatItems_chars : ∀ (items : List FormatItem), (∀ x ∈ items, x.Documented) →
    formatItems (items.flatMap FormatItem.chars) = items
  | [], _ => formatItems_nil
  | .literal c :: items, h => by
    rw [List.forall_mem_cons] at h
    rw [List.flatMap_cons, FormatItem.chars, List.singleton_append, formatItems_literal h.1.2,
      formatItems_chars items h.2]
  | .conversion k :: items, h => by
    rw [List.forall_mem_cons] at h
    rw [List.flatMap_cons, FormatItem.chars, formatItems_conversion, formatItems_chars items h.2]
  | .stray :: items, h => by
    rw [List.forall_mem_cons] at h
    exact h.1.elim

theorem returns_of_ofArg {k : Conversion} {a : Arg} (h : Piece.ofArg k a = some p)
    (hmin : p ≠ .int (BitVec.intMin 32)) : p.Returns := by
  cases p with
  | int v => exact fun hv => hmin (by rw [hv])
  | stray => cases k <;> cases a <;> cases h
  | _ => exact trivial

/-- The conversions of matching arguments return, but for the smallest `int`. -/
theorem returns_of_matchArgs : ∀ (items : List FormatItem) {args rest : List Arg}
    {ps : List Piece}, matchArgs items args = some (ps, rest) → .int (BitVec.intMin 32) ∉ ps →
      ∀ p ∈ ps, p.Returns
  | [], args, rest, ps, h, _ => by
    cases h
    exact fun p hp => absurd hp List.not_mem_nil
  | .literal c :: items, args, rest, ps, h, hmin => by
    obtain ⟨r, hr, heq⟩ := Option.map_eq_some_iff.mp h
    cases heq
    rw [List.mem_cons, not_or] at hmin
    exact List.forall_mem_cons.mpr ⟨trivial, returns_of_matchArgs items hr hmin.2⟩
  | .conversion k :: items, args, rest, ps, h, hmin => by
    obtain ⟨r, hr, hmap⟩ := Option.bind_eq_some_iff.mp h
    obtain ⟨q, hq, heq⟩ := Option.map_eq_some_iff.mp hmap
    cases heq
    rw [List.mem_cons, not_or] at hmin
    refine List.forall_mem_cons.mpr ⟨?_, returns_of_matchArgs items hq hmin.2⟩
    obtain ⟨a, -, ha⟩ := Option.bind_eq_some_iff.mp hr
    obtain ⟨p, hp, heq⟩ := Option.map_eq_some_iff.mp ha
    cases heq
    exact returns_of_ofArg hp (Ne.symm hmin.1)
  | .stray :: items, args, rest, ps, h, _ => by cases h

/-! ## Printing in full -/

/-- The text `cs` has been put at index `i`. The character behind it may have changed too. -/
structure Put (b b' : CharBuffer) (i : Nat) (cs : List UInt8) : Prop where
  text : b'.slice i cs.length = cs
  outside : ∀ k, k < i ∨ i + cs.length < k → b'.data k = b.data k
  le_extent : b.extent ≤ b'.extent
  extent_le : b'.extent ≤ max b.extent (i + cs.length + 1)

namespace Put

theorem of_printed (h : Printed b b' i cs) : Put b b' i cs where
  text := h.text
  outside := h.outside
  le_extent := h.extent ▸ le_max_left _ _
  extent_le := h.extent.le

theorem nil (b : CharBuffer) (i : Nat) : Put b b i [] where
  text := rfl
  outside _ _ := rfl
  le_extent := le_rfl
  extent_le := le_max_left _ _

theorem writeAll (b : CharBuffer) (i : Nat) (cs : List UInt8) : Put b (b.writeAll i cs) i cs := by
  by_cases hnil : cs = []
  · rw [hnil]
    exact nil b i
  · have hext := extent_writeAll cs (b := b) (i := i) hnil
    exact {
      text := slice_writeAll cs
      outside := fun k hk => data_writeAll_outside cs (hk.imp_right Nat.le_of_lt)
      le_extent := hext ▸ le_max_left _ _
      extent_le := by rw [hext]; omega }

/-- One text behind the other. -/
theorem append (h : Put b c i cs) (h' : Put c b' (i + cs.length) ds) : Put b b' i (cs ++ ds) := by
  have hle := h.le_extent
  have hle' := h'.le_extent
  have hext := h.extent_le
  have hext' := h'.extent_le
  constructor
  · rw [List.length_append, slice_add, h'.text]
    have hfirst : b'.slice i cs.length = c.slice i cs.length :=
      slice_congr fun k _ hk => h'.outside k (Or.inl hk)
    rw [hfirst, h.text]
  · intro k hk
    rw [List.length_append] at hk
    rw [h'.outside k (by omega), h.outside k (by omega)]
  · omega
  · rw [List.length_append]
    omega

/-- The NUL behind the text. -/
theorem terminate (h : Put b b' 0 cs) : Printed b (b'.write cs.length 0) 0 cs where
  text := by
    refine Eq.trans (slice_congr fun k _ hk => data_write_other ?_) h.text
    omega
  nul := by rw [Nat.zero_add, data_write_same]
  outside k hk := by
    rw [data_write_other (by omega), h.outside k hk]
  extent := by
    have hle := h.le_extent
    have hext := h.extent_le
    show max b'.extent (cs.length + 1) = _
    omega

end Put

theorem print_put (hp : p.Returns) (b : CharBuffer) (i : Nat) :
    ∃ b', p.print b i = some (p.text.length, b') ∧ Put b b' i p.text := by
  obtain ⟨b', hb', ⟨h, -⟩ | ⟨rfl, -⟩⟩ := print_cases hp b i
  · exact ⟨b', hb', Put.of_printed h⟩
  · exact ⟨_, hb', Put.writeAll b i p.text⟩

/-- **Items that fit are printed in full**, with one argument after the other. -/
theorem printItems_of_matchArgs (h64 : size < 2 ^ 64) : ∀ (items : List FormatItem)
    {args rest : List Arg} {ps : List Piece} {i : Nat} {b : CharBuffer},
    matchArgs items args = some (ps, rest) → (∀ p ∈ ps, p.Returns) →
      i + (expansion ps).length < size →
      ∃ b', printItems nextArg size items args i b = some ((i + (expansion ps).length, b'), rest) ∧
        Put b b' i (expansion ps)
  | [], args, rest, ps, i, b, h, _, _ => by
    cases h
    exact ⟨b, rfl, Put.nil b i⟩
  | .literal c :: items, args, rest, ps, i, b, h, hret, hlen => by
    obtain ⟨⟨qs, rest'⟩, hqs, heq⟩ := Option.map_eq_some_iff.mp h
    cases heq
    have hexp : expansion (.literal c :: qs) = [c] ++ expansion qs := List.flatMap_cons
    rw [hexp, List.length_append] at hlen ⊢
    have hroom : i < sub64 size 1 := by
      rw [sub64_eq (by omega) h64, List.length_singleton] at *
      omega
    obtain ⟨b', hb', hput⟩ := printItems_of_matchArgs h64 items hqs
      (List.forall_mem_cons.mp hret).2 (i := i + 1) (b := b.write i c)
      (by rw [List.length_singleton] at hlen; omega)
    refine ⟨b', ?_, (Put.writeAll b i [c]).append hput⟩
    rw [printItems, if_pos hroom, hb', List.length_singleton, Nat.add_assoc]
  | .conversion k :: items, args, rest, ps, i, b, h, hret, hlen => by
    obtain ⟨⟨p, args'⟩, hp, hmap⟩ := Option.bind_eq_some_iff.mp h
    obtain ⟨⟨qs, rest'⟩, hqs, heq⟩ := Option.map_eq_some_iff.mp hmap
    cases heq
    have hexp : expansion (p :: qs) = p.text ++ expansion qs := List.flatMap_cons
    rw [hexp, List.length_append] at hlen ⊢
    rw [List.forall_mem_cons] at hret
    obtain ⟨c, hc, hput⟩ := print_put hret.1 b i
    obtain ⟨b', hb', hput'⟩ := printItems_of_matchArgs h64 items hqs hret.2
      (i := i + p.text.length) (b := c) (by omega)
    refine ⟨b', ?_, hput.append hput'⟩
    rw [printItems, convertArg_eq, hp, Option.bind_some, hc, Option.map_some, Option.bind_some,
      hb', Nat.add_assoc]
  | .stray :: items, args, rest, ps, i, b, h, _, _ => by cases h

/-- What the call leaves. -/
theorem vsnprintfCall_of_matchArgs (h64 : size < 2 ^ 64) (hitems : ∀ x ∈ items, x.Documented)
    (hmatch : matchArgs items args = some (ps, rest)) (hmin : .int (BitVec.intMin 32) ∉ ps)
    (hlen : (expansion ps).length < size)
    (hformat : Spells ⟨format, 0⟩ (items.flatMap FormatItem.chars)) (b : CharBuffer) :
    ∃ n b', vsnprintfCall nextArg size format args b n
        = some (returnValue (expansion ps).length, rest, b') ∧ Printed b b' 0 (expansion ps) := by
  obtain ⟨b', hb', hput⟩ := printItems_of_matchArgs h64 items (i := 0) (b := b) hmatch
    (returns_of_matchArgs items hmatch hmin) (by omega)
  have hprint : printItems nextArg size (formatItems (items.flatMap FormatItem.chars)) args 0 b
      = some (((expansion ps).length, b'), rest) := by
    rw [formatItems_chars items hitems, hb', Nat.zero_add]
  refine ⟨_, _, vsnprintfCall_of_printItems hformat hprint, ?_⟩
  rw [if_pos hlen]
  exact hput.terminate

theorem returnValue_lt (n : Nat) : returnValue n < 2 ^ 31 := BitVec.toInt_lt

theorem returnValue_of_lt {n : Nat} (h : n < 2 ^ 31) : returnValue n = n := by
  have hn : (BitVec.ofNat 32 n).toNat = n := by
    rw [BitVec.toNat_ofNat]
    exact Nat.mod_eq_of_lt (by omega)
  rw [returnValue, BitVec.toInt_eq_toNat_of_lt (by omega), hn]

/--
**A text that fits is formatted exactly.**

For every format made of characters other than `%` and the documented specifiers, and every list of
arguments that matches it, without the smallest `int` for a `%d`: if the expansion is shorter than
`size`, the arguments are taken in order, the expansion and its NUL are left in the buffer, nothing
else is changed, and the length is returned, as an `int`.
-/
theorem vsnprintf_exact (size : Nat) (h64 : size < 2 ^ 64) (items : List FormatItem)
    (hitems : ∀ x ∈ items, x.Documented) (args rest : List Arg) (ps : List Piece)
    (hmatch : matchArgs items args = some (ps, rest)) (hmin : .int (BitVec.intMin 32) ∉ ps)
    (hlen : (expansion ps).length < size) (format : Nat → UInt8)
    (hformat : Spells ⟨format, 0⟩ (items.flatMap FormatItem.chars)) (b : CharBuffer) :
    (∃ n b', vsnprintfCall nextArg size format args b n
        = some (returnValue (expansion ps).length, rest, b') ∧ Printed b b' 0 (expansion ps)) ∧
      ((expansion ps).length < 2 ^ 31 →
        returnValue (expansion ps).length = (expansion ps).length) :=
  ⟨vsnprintfCall_of_matchArgs h64 hitems hmatch hmin hlen hformat b, returnValue_of_lt⟩

/-- `vsnprintf(buffer, 8, "%s=%d", {"n", 5, …})`, with an argument that is left over. -/
theorem vsnprintf_exact_five : (∃ n b', vsnprintfCall nextArg 8
      (fun k => [chr '%', chr 's', chr '=', chr '%', chr 'd'].getD k 0)
      [.str [chr 'n'], .int 5, .int 6] ⟨fun _ => 1, 0⟩ n
        = some (returnValue 3, [.int 6], b') ∧
      Printed ⟨fun _ => 1, 0⟩ b' 0 [chr 'n', chr '=', chr '5']) ∧
    (3 < 2 ^ 31 → returnValue 3 = 3) := by
  have hspells : Spells ⟨fun k => [chr '%', chr 's', chr '=', chr '%', chr 'd'].getD k 0, 0⟩
      [chr '%', chr 's', chr '=', chr '%', chr 'd'] := ⟨by decide, by decide, by decide⟩
  have hexp : expansion [.chars [chr 'n'], .literal (chr '='), .int 5]
      = [chr 'n', chr '=', chr '5'] := by
    simp [expansion, Piece.text, signedNumeral, numeral, digitsOf, digitChar]
    decide
  have h := vsnprintf_exact 8 (by decide)
    [.conversion .s, .literal (chr '='), .conversion .d]
    (by decide) [.str [chr 'n'], .int 5, .int 6] [.int 6]
    [.chars [chr 'n'], .literal (chr '='), .int 5] rfl (by decide) (by rw [hexp]; decide)
    _ hspells ⟨fun _ => 1, 0⟩
  rw [hexp] at h
  exact h

theorem expansion_chars (cs : List UInt8) : expansion [.chars cs] = cs := List.append_nil cs

/-- A string argument alone. -/
theorem vsnprintfCall_chars (h64 : size < 2 ^ 64) (h0 : 0 ∉ cs) (hlen : cs.length < size)
    (b : CharBuffer) :
    matchArgs [.conversion .s] [.str cs] = some ([.chars cs], []) ∧
      ∃ n b', vsnprintfCall nextArg size (fun k => [chr '%', chr 's'].getD k 0) [.str cs] b n
        = some (returnValue cs.length, [], b') := by
  have hspells : Spells ⟨fun k => [chr '%', chr 's'].getD k 0, 0⟩
      ([.conversion .s].flatMap FormatItem.chars) := ⟨by decide, by decide, by decide⟩
  have hmatch : matchArgs [.conversion .s] [.str cs] = some ([.chars cs], []) := by
    show some ([Piece.chars (cstring cs)], []) = _
    rw [cstring, takeWhile_no_nul h0]
  have hmin : Piece.int (BitVec.intMin 32) ∉ [.chars cs] := by simp
  obtain ⟨n, b', hcall, -⟩ := vsnprintfCall_of_matchArgs h64 (by decide) hmatch hmin
    (by rwa [expansion_chars]) hspells b
  rw [expansion_chars] at hcall
  exact ⟨hmatch, n, b', hcall⟩

/-- `vsnprintf(buffer, 2 ^ 32, "%s", …)` with a string of `2 ^ 31` characters: it is printed, but its
length is not an `int`. -/
theorem vsnprintf_long_text :
    matchArgs [.conversion .s] [.str (List.replicate (2 ^ 31) (chr 'a'))]
        = some ([.chars (List.replicate (2 ^ 31) (chr 'a'))], []) ∧
      (expansion [.chars (List.replicate (2 ^ 31) (chr 'a'))]).length = 2 ^ 31 ∧
      (∃ n b', vsnprintfCall nextArg (2 ^ 32) (fun k => [chr '%', chr 's'].getD k 0)
        [.str (List.replicate (2 ^ 31) (chr 'a'))] ⟨fun _ => 0, 0⟩ n = some (-2 ^ 31, [], b')) ∧
      ¬ ∃ n b', vsnprintfCall nextArg (2 ^ 32) (fun k => [chr '%', chr 's'].getD k 0)
        [.str (List.replicate (2 ^ 31) (chr 'a'))] ⟨fun _ => 0, 0⟩ n = some (2 ^ 31, [], b') := by
  obtain ⟨cs, hcs⟩ : ∃ cs, cs = List.replicate (2 ^ 31) (chr 'a') := ⟨_, rfl⟩
  have hlength : cs.length = 2 ^ 31 := by rw [hcs, List.length_replicate]
  have h0 : 0 ∉ cs := fun hmem =>
    absurd (List.eq_of_mem_replicate (hcs ▸ hmem)) (by decide)
  have hvalue : returnValue (2 ^ 31) = -2 ^ 31 := by decide
  rw [← hcs, expansion_chars, hlength]
  obtain ⟨hmatch, hcall⟩ := vsnprintfCall_chars (show 2 ^ 32 < 2 ^ 64 by decide) h0
    (by rw [hlength]; decide) ⟨fun _ => 0, 0⟩
  rw [hlength, hvalue] at hcall
  refine ⟨hmatch, rfl, hcall, ?_⟩
  rintro ⟨n, b', hcall⟩
  obtain ⟨r, -, hr⟩ := Option.bind_eq_some_iff.mp hcall
  obtain ⟨t, -, heq⟩ := Option.map_eq_some_iff.mp hr
  have heq' : returnValue t.bufferIndex = 2 ^ 31 := (Prod.mk.inj heq).1
  have hlt := returnValue_lt t.bufferIndex
  omega

end BloreOs
