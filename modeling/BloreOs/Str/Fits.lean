import BloreOs.Str.Format

/-!
# Formatted text and the size of the buffer

`vsnprintf` is told the size of its buffer, and looks at it when it copies a character of the format
and when it terminates the text. The conversions do not look at it.

* `Fits` — no conversion that is reached writes behind the end of the buffer,
* `vsnprintf_bounded_iff` — this, and nothing less, makes `vsnprintf` a bounded print.
-/

namespace BloreOs

open Buffer CharBuffer

variable {size pos i : Nat} {b b' : CharBuffer} {p : Piece} {ps : List Piece}

namespace Piece

/-- The conversion returns. -/
def Returns : Piece → Prop
  | .int v => v ≠ BitVec.intMin 32
  | .stray => False
  | _ => True

/-- How many characters a conversion writes. The numbers come with a NUL. -/
def room : Piece → Nat
  | .literal _ => 1
  | .chars s => s.length
  | .stray => 0
  | p => p.text.length + 1

instance : DecidablePred Returns := fun p => by
  cases p <;> unfold Returns <;> infer_instance

end Piece

/-- No conversion writes behind the end of the buffer, starting from index `pos`. A character of the
format that finds the buffer full ends the text. -/
def Fits (size : Nat) : List Piece → Nat → Prop
  | [], _ => True
  | .literal _ :: ps, pos => size ≤ pos + 1 ∨ Fits size ps (pos + 1)
  | p :: ps, pos => p.Returns ∧ pos + p.room ≤ size ∧ Fits size ps (pos + p.text.length)

theorem fits_cons (hp : ∀ c, p ≠ .literal c) :
    Fits size (p :: ps) pos ↔
      p.Returns ∧ pos + p.room ≤ size ∧ Fits size ps (pos + p.text.length) := by
  cases p with
  | literal c => exact absurd rfl (hp c)
  | _ => rfl

/-! ## One conversion -/

/-- What one conversion leaves: its text behind what was there, and an extent that says how far it
wrote. -/
structure Appended (b b' : CharBuffer) (i : Nat) (text : List UInt8) (room : Nat) : Prop where
  text : b'.slice i text.length = text
  before : ∀ k < i, b'.data k = b.data k
  extent : b'.extent = if room = 0 then b.extent else max b.extent (i + room)

theorem Appended.of_printed {text : List UInt8} (h : Printed b b' i text) :
    Appended b b' i text (text.length + 1) where
  text := h.text
  before k hk := h.outside k (Or.inl hk)
  extent := h.extent.trans (if_neg (Nat.succ_ne_zero _)).symm

theorem Appended.writeAll (b : CharBuffer) (i : Nat) (text : List UInt8) :
    Appended b (b.writeAll i text) i text text.length where
  text := slice_writeAll text
  before k hk := data_writeAll_outside text (Or.inl hk)
  extent := by
    split
    · next h => rw [List.eq_nil_of_length_eq_zero h, Buffer.writeAll]
    · next h => exact extent_writeAll text fun hnil => h (by rw [hnil]; rfl)

theorem Appended.extent_le {text : List UInt8} {room : Nat} (h : Appended b b' i text room) :
    b.extent ≤ b'.extent := by
  rw [h.extent]
  split
  · exact le_rfl
  · exact le_max_left _ _

/-- A conversion that returns prints a number with its NUL, or writes characters. -/
theorem print_cases (hp : p.Returns) (b : CharBuffer) (i : Nat) :
    ∃ b', p.print b i = some (p.text.length, b') ∧
      (Printed b b' i p.text ∧ p.room = p.text.length + 1 ∨
        b' = b.writeAll i p.text ∧ p.room = p.text.length) := by
  cases p with
  | literal c => exact ⟨_, rfl, Or.inr ⟨rfl, rfl⟩⟩
  | chars s => exact ⟨_, rfl, Or.inr ⟨rfl, rfl⟩⟩
  | stray => exact hp.elim
  | int v =>
    obtain ⟨b', hb', h⟩ := itoa_printed (show 2 ≤ 10 by decide) hp b i
    exact ⟨b', hb', Or.inl ⟨h, rfl⟩⟩
  | hex upper v =>
    obtain ⟨b', hb', h⟩ := unsignedToa_printed upper v b i (show 2 ≤ 16 by decide)
    exact ⟨b', hb', Or.inl ⟨h, rfl⟩⟩
  | ulong v =>
    obtain ⟨b', hb', h⟩ := unsignedToa_printed false v b i (show 2 ≤ 10 by decide)
    exact ⟨b', hb', Or.inl ⟨h, rfl⟩⟩
  | long v =>
    obtain ⟨b', hb', h⟩ := ltoa_printed (show 2 ≤ 10 by decide) v b i
    exact ⟨b', hb', Or.inl ⟨h, rfl⟩⟩

/-- **A conversion that returns appends its text.** -/
theorem print_appended (hp : p.Returns) (b : CharBuffer) (i : Nat) :
    ∃ b', p.print b i = some (p.text.length, b') ∧ Appended b b' i p.text p.room := by
  obtain ⟨b', hb', ⟨h, hroom⟩ | ⟨rfl, hroom⟩⟩ := print_cases hp b i
  · exact ⟨b', hb', hroom ▸ Appended.of_printed h⟩
  · exact ⟨_, hb', hroom ▸ Appended.writeAll b i p.text⟩

theorem print_eq_none (hp : ¬ p.Returns) (b : CharBuffer) (i : Nat) : p.print b i = none := by
  cases p with
  | int v =>
    obtain rfl : v = BitVec.intMin 32 := not_not.mp hp
    exact itoa_intMin b i
  | stray => rfl
  | _ => exact absurd trivial hp

theorem text_length_le_room (p : Piece) : p.text.length ≤ p.room := by
  cases p with
  | literal c => exact le_rfl
  | chars s => exact le_rfl
  | stray => exact le_rfl
  | _ => exact Nat.le_succ _

theorem room_le_text_length (p : Piece) : p.room ≤ p.text.length + 1 := by
  cases p with
  | literal c => exact Nat.le_succ _
  | chars s => exact Nat.le_succ _
  | stray => exact Nat.zero_le _
  | _ => exact le_rfl

/-! ## All pieces -/

theorem Appended.slice_zero {text : List UInt8} {room : Nat} (h : Appended b b' i text room) :
    b'.slice 0 (i + text.length) = b.slice 0 i ++ text := by
  have hbefore : b'.slice 0 i = b.slice 0 i := slice_congr fun k _ hk => h.before k (by omega)
  rw [slice_add, hbefore, Nat.zero_add, h.text]

theorem literal_or (p : Piece) : (∃ c, p = .literal c) ∨ ∀ c, p ≠ .literal c := by
  cases p with
  | literal c => exact Or.inl ⟨c, rfl⟩
  | _ => exact Or.inr fun c hc => Piece.noConfusion hc

/-- A conversion that was printed has returned, and the pieces behind it were printed behind it. -/
theorem appended_of_printPieces {r : Nat × CharBuffer} (hp : ∀ c, p ≠ .literal c)
    (h : printPieces size (p :: ps) i b = some r) :
    p.Returns ∧ ∃ b', Appended b b' i p.text p.room ∧
      printPieces size ps (i + p.text.length) b' = some r := by
  rw [printPieces_cons hp] at h
  obtain ⟨q, hq, hrest⟩ := Option.bind_eq_some_iff.mp h
  by_cases hret : p.Returns
  · obtain ⟨b', hb', happ⟩ := print_appended hret b i
    rw [hb'] at hq
    cases hq
    exact ⟨hret, b', happ, hrest⟩
  · rw [print_eq_none hret] at hq
    cases hq

/-- What has been written stays written. -/
theorem extent_printPieces : ∀ (ps : List Piece) {i j : Nat} {b b' : CharBuffer},
    printPieces size ps i b = some (j, b') → b.extent ≤ b'.extent
  | [], i, j, b, b', h => by
    cases h
    exact le_rfl
  | p :: ps, i, j, b, b', h => by
    rcases literal_or p with ⟨c, rfl⟩ | hp
    · rw [printPieces] at h
      split at h
      · exact le_trans (le_max_left _ _) (extent_printPieces ps h)
      · cases h
        exact le_rfl
    · obtain ⟨-, c, happ, hrest⟩ := appended_of_printPieces hp h
      exact happ.extent_le.trans (extent_printPieces ps hrest)

/-- If the conversions fit, the text is cut to the size of the buffer. -/
theorem printPieces_of_fits (hsize : 1 ≤ size) (h64 : size < 2 ^ 64) :
    ∀ (ps : List Piece) {i : Nat} {b : CharBuffer}, Fits size ps i → i ≤ size → b.extent ≤ size →
      ∃ j b', printPieces size ps i b = some (j, b') ∧ j ≤ size ∧ b'.extent ≤ size ∧
        b'.slice 0 (min j (size - 1)) = (b.slice 0 i ++ expansion ps).take (size - 1)
  | [], i, b, _, hi, hb => by
    refine ⟨i, b, rfl, hi, hb, ?_⟩
    rw [expansion, List.flatMap_nil, List.append_nil]
    rcases Nat.le_total i (size - 1) with hle | hle
    · rw [Nat.min_eq_left hle, List.take_of_length_le (by rw [length_slice]; exact hle)]
    · rw [Nat.min_eq_right hle, take_slice hle]
  | p :: ps, i, b, hfits, hi, hb => by
    have hexp : expansion (p :: ps) = p.text ++ expansion ps := List.flatMap_cons
    rw [hexp]
    rcases literal_or p with ⟨c, rfl⟩ | hp
    · rw [printPieces, sub64_eq hsize h64]
      split
      · next hlt =>
        have hrest : Fits size ps (i + 1) := hfits.resolve_left (by omega)
        obtain ⟨j, b', h1, h2, h3, h4⟩ := printPieces_of_fits hsize h64 ps hrest (by omega)
          (b := b.write i c) (max_le hb (by omega))
        have hslice : (b.write i c).slice 0 (i + 1) = b.slice 0 i ++ [c] :=
          (Appended.writeAll b i [c]).slice_zero
        refine ⟨j, b', h1, h2, h3, h4.trans ?_⟩
        rw [hslice, List.append_assoc]
        rfl
      · next hge =>
        have hle : size - 1 ≤ i := by omega
        refine ⟨i, b, rfl, hi, hb, ?_⟩
        rw [Nat.min_eq_right hle, List.take_append_of_le_length (by rw [length_slice]; exact hle),
          take_slice hle]
    · obtain ⟨hret, hroom, hrest⟩ := (fits_cons hp).mp hfits
      obtain ⟨c, hc, happ⟩ := print_appended hret b i
      have hlen := text_length_le_room p
      have hext : c.extent ≤ size := by
        rw [happ.extent]
        split
        · exact hb
        · exact max_le hb hroom
      obtain ⟨j, b', h1, h2, h3, h4⟩ := printPieces_of_fits hsize h64 ps hrest (by omega) hext
      refine ⟨j, b', ?_, h2, h3, h4.trans ?_⟩
      · rw [printPieces_cons hp, hc]
        exact h1
      · rw [happ.slice_zero, List.append_assoc]

/-- If a conversion does not fit, it does not return or writes behind the end of the buffer. -/
theorem printPieces_overrun (hsize : 1 ≤ size) (h64 : size < 2 ^ 64) :
    ∀ (ps : List Piece) {i j : Nat} {b b' : CharBuffer}, ¬ Fits size ps i → i ≤ size →
      printPieces size ps i b = some (j, b') → size < b'.extent
  | [], _, _, _, _, hfits, _, _ => absurd trivial hfits
  | p :: ps, i, j, b, b', hfits, hi, h => by
    rcases literal_or p with ⟨c, rfl⟩ | hp
    · have hfits' := not_or.mp hfits
      rw [printPieces, sub64_eq hsize h64, if_pos (by omega)] at h
      exact printPieces_overrun hsize h64 ps hfits'.2 (by omega) h
    · obtain ⟨hret, c, happ, hrest⟩ := appended_of_printPieces hp h
      by_cases hroom : i + p.room ≤ size
      · have hlen := text_length_le_room p
        refine printPieces_overrun hsize h64 ps (fun hf => hfits ?_) (by omega) hrest
        exact (fits_cons hp).mpr ⟨hret, hroom, hf⟩
      · refine Nat.lt_of_lt_of_le ?_ (extent_printPieces ps hrest)
        rw [happ.extent, if_neg (by omega)]
        exact Nat.lt_of_lt_of_le (Nat.lt_of_not_le hroom) (le_max_right _ _)

/-! ## `vsnprintf` -/

/-- What a print into a buffer of `size` characters is to do: write inside the buffer only, and
leave a NUL there behind as much of the text as fits. -/
def BoundedPrint (size : Nat) (text : List UInt8) (r : Option (Nat × CharBuffer)) : Prop :=
  ∃ j b', r = some (j, b') ∧ b'.extent ≤ size ∧
    ∃ n < size, b'.data n = 0 ∧ b'.slice 0 n = text.take (size - 1)

theorem vsnprintf_eq {fmt tail : List UInt8} {args : List Arg} (h0 : 0 ∉ fmt)
    (hps : pieces fmt args = some ps) (hstray : tail = [] ∨ .stray ∉ ps) (b : CharBuffer) :
    vsnprintf size (fmt ++ 0 :: tail) args b = (printPieces size ps 0 b).map fun r =>
      (r.1, r.2.write (if r.1 < size then r.1 else sub64 size 1) 0) := by
  rw [vsnprintf, vsnprintfLoop_eq size tail fmt args ps 0 b h0 hps hstray]

/-- If the conversions fit, the print is bounded. -/
theorem boundedPrint_of_fits {fmt tail : List UInt8} {args : List Arg} (hsize : 1 ≤ size)
    (h64 : size < 2 ^ 64) (h0 : 0 ∉ fmt) (hps : pieces fmt args = some ps)
    (hstray : tail = [] ∨ .stray ∉ ps) (hfits : Fits size ps 0) (data : Nat → UInt8) :
    BoundedPrint size (expansion ps) (vsnprintf size (fmt ++ 0 :: tail) args ⟨data, 0⟩) := by
  obtain ⟨j, b', h1, h2, h3, h4⟩ := printPieces_of_fits hsize h64 ps (b := ⟨data, 0⟩) hfits
    (Nat.zero_le _) (Nat.zero_le _)
  have hend : (if j < size then j else sub64 size 1) = min j (size - 1) := by
    rw [sub64_eq hsize h64]
    split <;> omega
  rw [vsnprintf_eq h0 hps hstray, h1, Option.map_some]
  simp only [hend]
  refine ⟨_, _, rfl, max_le h3 (by omega), min j (size - 1), by omega, data_write_same, ?_⟩
  rw [slice_congr fun k _ hk => data_write_other (by omega), h4]
  rfl

/-- A print that stays inside its buffer has conversions that fit. -/
theorem fits_of_extent {fmt tail : List UInt8} {args : List Arg} {r : Nat × CharBuffer}
    (hsize : 1 ≤ size) (h64 : size < 2 ^ 64) (h0 : 0 ∉ fmt) (hps : pieces fmt args = some ps)
    (hstray : tail = [] ∨ .stray ∉ ps) {data : Nat → UInt8}
    (h : vsnprintf size (fmt ++ 0 :: tail) args ⟨data, 0⟩ = some r) (hext : r.2.extent ≤ size) :
    Fits size ps 0 := by
  by_contra hfits
  rw [vsnprintf_eq h0 hps hstray] at h
  obtain ⟨⟨k, c⟩, hc, rfl⟩ := Option.map_eq_some_iff.mp h
  have hover := printPieces_overrun hsize h64 ps hfits (Nat.zero_le _) hc
  have hle : c.extent ≤ size := le_trans (le_max_left _ _) hext
  omega

/-- If a conversion does not fit, the print is not bounded. -/
theorem fits_of_boundedPrint {fmt : List UInt8} {args : List Arg} (hsize : 1 ≤ size)
    (h64 : size < 2 ^ 64) (h0 : 0 ∉ fmt) (hps : pieces fmt args = some ps) {data : Nat → UInt8}
    (h : BoundedPrint size (expansion ps) (vsnprintf size (fmt ++ [0]) args ⟨data, 0⟩)) :
    Fits size ps 0 := by
  obtain ⟨j, b', hb', hext, -⟩ := h
  exact fits_of_extent hsize h64 h0 hps (Or.inl rfl) hb' hext

/--
**`vsnprintf` respects its buffer exactly if its conversions happen to fit.**

For every size, every format string and every matching list of arguments. What has to fit is every
conversion that is reached before a character of the format finds the buffer full, a number with the
NUL behind it; and a conversion has to return, which `%d` of the smallest `int` and a `%` at the end
of the format do not.
-/
theorem vsnprintf_bounded_iff (hsize : 1 ≤ size) (h64 : size < 2 ^ 64) (fmt : List UInt8)
    (args : List Arg) (h0 : 0 ∉ fmt) (hps : pieces fmt args = some ps) (data : Nat → UInt8) :
    BoundedPrint size (expansion ps) (vsnprintf size (fmt ++ [0]) args ⟨data, 0⟩) ↔
      Fits size ps 0 :=
  ⟨fits_of_boundedPrint hsize h64 h0 hps,
    fun hfits => boundedPrint_of_fits hsize h64 h0 hps (Or.inl rfl) hfits data⟩

/-- A string that is cut: `snprintf(buffer, 4, "%sx", "abc")`. -/
theorem vsnprintf_bounded_abc :
    BoundedPrint 4 [97, 98, 99, 120]
      (vsnprintf 4 ([chr '%', chr 's', chr 'x'] ++ [0]) [.str [97, 98, 99]] ⟨fun _ => 1, 0⟩) := by
  have hps : pieces [chr '%', chr 's', chr 'x'] [.str [97, 98, 99]]
      = some [.chars [97, 98, 99], .literal (chr 'x')] := rfl
  have hfits : Fits 4 [.chars [97, 98, 99], .literal (chr 'x')] 0 :=
    ⟨trivial, by decide, Or.inl (by decide)⟩
  exact (vsnprintf_bounded_iff (by decide) (by decide) _ _ (by decide) hps _).mpr hfits

/-- A string that is not: `snprintf(buffer, 4, "%s", "hello")` writes five characters. -/
theorem vsnprintf_overruns_hello :
    ¬ BoundedPrint 4 [104, 101, 108, 108, 111]
      (vsnprintf 4 ([chr '%', chr 's'] ++ [0]) [.str [104, 101, 108, 108, 111]]
        ⟨fun _ => 1, 0⟩) := by
  intro h
  have hfits : Fits 4 [.chars [104, 101, 108, 108, 111]] 0 :=
    fits_of_boundedPrint (by decide) (by decide) (by decide) rfl h
  exact absurd hfits.2.1 (by decide)

end BloreOs
