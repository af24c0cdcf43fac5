import BloreOs.Str.Digits

/-!
# Formatted text (`vsnprintf`)

The format is the list of characters that can be read from its address on: the string, its NUL and
whatever comes behind. The result is `none` where C leaves the behaviour undefined, because the
format is not terminated or the next argument is missing or of another type, and where a conversion
does not return.

`vsnprintf` parses the format and prints as it goes. The proofs take the two apart: `pieces` says
what a format asks for, `printPieces` prints it, and `vsnprintfLoop_eq` says that this is what
`vsnprintf` does.
-/

namespace BloreOs

open Buffer CharBuffer

/-- An argument of a variadic function. A string is given by its characters. -/
inductive Arg where
  | int (v : BitVec 32)
  | long (v : BitVec 64)
  | str (s : List UInt8)

/-- The conversions that `vsnprintf` knows. -/
inductive Conversion where
  | d
  | x
  | bigX
  | s
  | c
  | lu
  | ld
deriving DecidableEq, Repr

/-- The characters of a string argument. -/
def cstring (s : List UInt8) : List UInt8 := s.takeWhile (· ≠ 0)

/-- Print an argument at index `i`. The result is the number of characters, and the buffer. -/
def convert (b : CharBuffer) (i : Nat) : Conversion → Arg → Option (Nat × CharBuffer)
  | .d, .int value => itoa value b i 10
  | .x, .long value => ultoa value b i 16
  | .bigX, .long value => ultoua value b i 16
  | .s, .str s => some ((cstring s).length, b.writeAll i (cstring s))
  | .c, .int ch => some (1, b.write i (UInt8.ofNat ch.toNat))
  | .lu, .long value => ultoa value b i 10
  | .ld, .long value => ltoa value b i 10
  | _, _ => none

/-- Take the next argument and print it. -/
def convertNext (b : CharBuffer) (i : Nat) (k : Conversion) :
    List Arg → Option ((Nat × CharBuffer) × List Arg)
  | [] => none
  | a :: args => (convert b i k a).map fun r => ((i + r.1, r.2), args)

/-- The loop of `vsnprintf` over the format. `i` is `bufferIndex`. -/
def vsnprintfLoop (size : Nat) :
    List UInt8 → List Arg → Nat → CharBuffer → Option (Nat × CharBuffer)
  | [], _, _, _ => none
  | ch :: format, args, i, b =>
    if ch = 0 then some (i, b)
    else if ch = chr '%' then
      match format with
      | [] => none
      | f :: format =>
        let go := fun k => (convertNext b i k args).bind fun r =>
          vsnprintfLoop size format r.2 r.1.1 r.1.2
        if f = chr 'd' then go .d
        else if f = chr 'x' then go .x
        else if f = chr 'X' then go .bigX
        else if f = chr 's' then go .s
        else if f = chr 'c' then go .c
        else if f = chr 'l' then
          match format with
          | [] => none
          | g :: rest =>
            if g = chr 'u' then (convertNext b i .lu args).bind fun r =>
              vsnprintfLoop size rest r.2 r.1.1 r.1.2
            else if g = chr 'd' then (convertNext b i .ld args).bind fun r =>
              vsnprintfLoop size rest r.2 r.1.1 r.1.2
            else vsnprintfLoop size (g :: rest) args i b
        else vsnprintfLoop size format args i b
    else if i < sub64 size 1 then vsnprintfLoop size format args (i + 1) (b.write i ch)
    else some (i, b)

/-- `vsnprintf`. -/
def vsnprintf (size : Nat) (format : List UInt8) (args : List Arg) (b : CharBuffer) :
    Option (Nat × CharBuffer) :=
  (vsnprintfLoop size format args 0 b).map fun r =>
    (r.1, r.2.write (if r.1 < size then r.1 else sub64 size 1) 0)

/-! ## What a format asks for -/

/-- One step of the output: a character of the format, or an argument in the form that its
conversion gives it. A `%` that ends the format is `stray`. -/
inductive Piece where
  | literal (c : UInt8)
  | int (v : BitVec 32)
  | hex (upper : Bool) (v : BitVec 64)
  | ulong (v : BitVec 64)
  | long (v : BitVec 64)
  | chars (s : List UInt8)
  | stray
deriving DecidableEq, Repr

namespace Piece

/-- The text that a piece stands for. -/
def text : Piece → List UInt8
  | .literal c => [c]
  | .int v => signedNumeral 10 v.toInt
  | .hex upper v => paddedNumeral upper 16 16 v.toNat
  | .ulong v => numeral false 10 v.toNat
  | .long v => signedNumeral 10 v.toInt
  | .chars s => s
  | .stray => []

/-- Print a piece at index `i`, without a look at the size. -/
def print (b : CharBuffer) (i : Nat) : Piece → Option (Nat × CharBuffer)
  | .literal c => some (1, b.write i c)
  | .int v => itoa v b i 10
  | .hex upper v => unsignedToa upper v b i 16
  | .ulong v => ultoa v b i 10
  | .long v => ltoa v b i 10
  | .chars s => some (s.length, b.writeAll i s)
  | .stray => none

/-- The piece that a conversion makes of an argument, if the argument has the right type. -/
def ofArg : Conversion → Arg → Option Piece
  | .d, .int v => some (.int v)
  | .x, .long v => some (.hex false v)
  | .bigX, .long v => some (.hex true v)
  | .s, .str s => some (.chars (cstring s))
  | .c, .int ch => some (.chars [UInt8.ofNat ch.toNat])
  | .lu, .long v => some (.ulong v)
  | .ld, .long v => some (.long v)
  | _, _ => none

/-- The piece of the next argument, and the arguments behind it. -/
def ofNext (k : Conversion) : List Arg → Option (Piece × List Arg)
  | [] => none
  | a :: args => (ofArg k a).map fun p => (p, args)

end Piece

/-- The pieces of a format string, without its NUL, and the arguments. `none` means that the
arguments do not match the format. A conversion that `vsnprintf` does not know stands for nothing.
-/
def pieces : List UInt8 → List Arg → Option (List Piece)
  | [], _ => some []
  | ch :: format, args =>
    if ch = chr '%' then
      match format with
      | [] => some [.stray]
      | f :: format =>
        let go := fun k => (Piece.ofNext k args).bind fun r =>
          (pieces format r.2).map (r.1 :: ·)
        if f = chr 'd' then go .d
        else if f = chr 'x' then go .x
        else if f = chr 'X' then go .bigX
        else if f = chr 's' then go .s
        else if f = chr 'c' then go .c
        else if f = chr 'l' then
          match format with
          | [] => some []
          | g :: rest =>
            if g = chr 'u' then (Piece.ofNext .lu args).bind fun r =>
              (pieces rest r.2).map (r.1 :: ·)
            else if g = chr 'd' then (Piece.ofNext .ld args).bind fun r =>
              (pieces rest r.2).map (r.1 :: ·)
            else pieces (g :: rest) args
        else pieces format args
    else (pieces format args).map (.literal ch :: ·)

/-- The full expansion of a format. -/
def expansion (ps : List Piece) : List UInt8 := ps.flatMap Piece.text

/-- What `vsnprintf` does with the pieces: only characters of the format are checked for room. -/
def printPieces (size : Nat) : List Piece → Nat → CharBuffer → Option (Nat × CharBuffer)
  | [], i, b => some (i, b)
  | .literal c :: ps, i, b =>
    if i < sub64 size 1 then printPieces size ps (i + 1) (b.write i c) else some (i, b)
  | p :: ps, i, b => (p.print b i).bind fun r => printPieces size ps (i + r.1) r.2

/-! ## The parser -/

/-- What stands behind a `%`: the conversion, if there is one, and the rest of the format. -/
def specifier (f : UInt8) (format : List UInt8) : Option Conversion × List UInt8 :=
  if f = chr 'd' then (some .d, format)
  else if f = chr 'x' then (some .x, format)
  else if f = chr 'X' then (some .bigX, format)
  else if f = chr 's' then (some .s, format)
  else if f = chr 'c' then (some .c, format)
  else if f = chr 'l' then
    match format with
    | [] => (none, [])
    | g :: rest =>
      if g = chr 'u' then (some .lu, rest)
      else if g = chr 'd' then (some .ld, rest)
      else (none, g :: rest)
  else (none, format)

theorem specifier_suffix (f : UInt8) (format : List UInt8) :
    (specifier f format).2 <:+ format := by
  fun_cases specifier f format <;>
    first | exact List.suffix_rfl | exact List.suffix_cons _ _

/-- Induction over a format: a conversion takes one character behind its `%` or two. -/
@[elab_as_elim]
theorem format_induction {motive : List UInt8 → Prop} (nil : motive [])
    (stray : motive [chr '%'])
    (percent : ∀ f fmt, motive (specifier f fmt).2 → motive (chr '%' :: f :: fmt))
    (literal : ∀ ch fmt, ch ≠ chr '%' → motive fmt → motive (ch :: fmt)) :
    ∀ fmt, motive fmt
  | [] => nil
  | ch :: fmt => by
    by_cases hpct : ch = chr '%'
    · subst hpct
      cases fmt with
      | nil => exact stray
      | cons f fmt =>
        have hlen := (specifier_suffix f fmt).length_le
        exact percent f fmt (format_induction nil stray percent literal (specifier f fmt).2)
    · exact literal ch fmt hpct (format_induction nil stray percent literal fmt)
termination_by fmt => fmt.length
decreasing_by
  · simp only [List.length_cons]
    omega
  · simp

theorem no_nul_specifier {f : UInt8} {fmt : List UInt8} (h : 0 ∉ chr '%' :: f :: fmt) :
    0 ∉ (specifier f fmt).2 := fun hmem =>
  h (List.mem_cons_of_mem _ (List.mem_cons_of_mem _ ((specifier_suffix f fmt).subset hmem)))

/-- A string ends in front of its NUL. -/
theorem specifier_append (f : UInt8) (format tail : List UInt8) :
    specifier f (format ++ 0 :: tail)
      = ((specifier f format).1, (specifier f format).2 ++ 0 :: tail) := by
  fun_cases specifier f format
  -- a character that is no conversion is compared with all of them, also behind the `l`
  case case9 hd hx hX hs hc hl g rest hu hgd =>
    simp only [specifier, List.cons_append, if_neg hd, if_neg hx, if_neg hX, if_neg hs, if_neg hc,
      if_pos hl, if_neg hu, if_neg hgd]
  case case10 hd hx hX hs hc hl =>
    simp only [specifier, if_neg hd, if_neg hx, if_neg hX, if_neg hs, if_neg hc, if_neg hl]
  all_goals
    subst f
    rfl

variable {size i : Nat} {b : CharBuffer} {args : List Arg} {f g ch : UInt8}
  {format rest tail : List UInt8} {ps : List Piece}

theorem vsnprintfLoop_literal (h0 : ch ≠ 0) (hpct : ch ≠ chr '%') :
    vsnprintfLoop size (ch :: format) args i b =
      if i < sub64 size 1 then vsnprintfLoop size format args (i + 1) (b.write i ch)
      else some (i, b) := by
  rw [vsnprintfLoop.eq_def]
  simp only [if_neg h0, if_neg hpct]

theorem vsnprintfLoop_percent (hne : format ≠ []) :
    vsnprintfLoop size (chr '%' :: f :: format) args i b =
      match specifier f format with
      | (some k, rest) => (convertNext b i k args).bind fun r =>
          vsnprintfLoop size rest r.2 r.1.1 r.1.2
      | (none, rest) => vsnprintfLoop size rest args i b := by
  have h0 : ¬ chr '%' = 0 := by decide
  rw [vsnprintfLoop.eq_def]
  simp only [if_neg h0, if_true]
  fun_cases specifier f format
  case case6 => exact absurd rfl hne
  case case9 hd hx hX hs hc hl g rest hu hgd =>
    simp only [if_neg hd, if_neg hx, if_neg hX, if_neg hs, if_neg hc, if_pos hl, if_neg hu,
      if_neg hgd]
  case case10 hd hx hX hs hc hl =>
    simp only [if_neg hd, if_neg hx, if_neg hX, if_neg hs, if_neg hc, if_neg hl]
  all_goals
    subst f
    rfl

theorem pieces_literal (hpct : ch ≠ chr '%') :
    pieces (ch :: format) args = (pieces format args).map (.literal ch :: ·) := by
  rw [pieces.eq_def]
  simp only [if_neg hpct]

theorem pieces_percent :
    pieces (chr '%' :: f :: format) args =
      match specifier f format with
      | (some k, rest) => (Piece.ofNext k args).bind fun r => (pieces rest r.2).map (r.1 :: ·)
      | (none, rest) => pieces rest args := by
  rw [pieces.eq_def]
  simp only [if_true]
  fun_cases specifier f format
  case case9 hd hx hX hs hc hl g rest hu hgd =>
    simp only [if_neg hd, if_neg hx, if_neg hX, if_neg hs, if_neg hc, if_pos hl, if_neg hu,
      if_neg hgd]
  case case10 hd hx hX hs hc hl =>
    simp only [if_neg hd, if_neg hx, if_neg hX, if_neg hs, if_neg hc, if_neg hl]
  all_goals
    subst f
    rfl

/-- Characters in front of a conversion. -/
theorem pieces_append_literal {pre : List UInt8} (hpct : chr '%' ∉ pre) :
    pieces (pre ++ rest) args = (pieces rest args).map (pre.map .literal ++ ·) := by
  induction pre with
  | nil => simp
  | cons c pre ih =>
    rw [List.mem_cons, not_or] at hpct
    rw [List.cons_append, pieces_literal (Ne.symm hpct.1), ih hpct.2, Option.map_map]
    rfl

theorem pieces_lu (v : BitVec 64) :
    pieces (chr '%' :: chr 'l' :: chr 'u' :: rest) (.long v :: args)
      = (pieces rest args).map (.ulong v :: ·) := by
  rw [pieces_percent]
  rfl

/-! ## Printing piece by piece -/

theorem convert_eq (b : CharBuffer) (i : Nat) (k : Conversion) (a : Arg) :
    convert b i k a = (Piece.ofArg k a).bind (Piece.print b i) := by
  cases k <;> cases a <;> rfl

theorem ofArg_ne_literal {k : Conversion} {a : Arg} {p : Piece} (h : Piece.ofArg k a = some p)
    (c : UInt8) : p ≠ .literal c := by
  rintro rfl
  cases k <;> cases a <;> cases h

theorem printPieces_cons {p : Piece} (hp : ∀ c, p ≠ .literal c) (size : Nat) (ps : List Piece)
    (i : Nat) (b : CharBuffer) :
    printPieces size (p :: ps) i b
      = (p.print b i).bind fun r => printPieces size ps (i + r.1) r.2 := by
  cases p with
  | literal c => exact absurd rfl (hp c)
  | _ => rfl

/-- A conversion, and what comes behind it. -/
theorem convertNext_bind {k : Conversion}
    (h : ((Piece.ofNext k args).bind fun r => (pieces rest r.2).map (r.1 :: ·)) = some ps)
    (hstray : tail = [] ∨ .stray ∉ ps) (i : Nat) (b : CharBuffer)
    (ih : ∀ (args : List Arg) (qs : List Piece) (j : Nat) (c : CharBuffer),
      pieces rest args = some qs → tail = [] ∨ .stray ∉ qs →
      vsnprintfLoop size (rest ++ 0 :: tail) args j c = printPieces size qs j c) :
    ((convertNext b i k args).bind fun r =>
      vsnprintfLoop size (rest ++ 0 :: tail) r.2 r.1.1 r.1.2) = printPieces size ps i b := by
  cases args with
  | nil => cases h
  | cons a args =>
    obtain ⟨r, hr, hmap⟩ := Option.bind_eq_some_iff.mp h
    obtain ⟨p, hp, rfl⟩ := Option.map_eq_some_iff.mp hr
    obtain ⟨qs, hqs, rfl⟩ := Option.map_eq_some_iff.mp hmap
    have hstray' : tail = [] ∨ .stray ∉ qs :=
      hstray.imp_right fun hn hm => hn (List.mem_cons_of_mem _ hm)
    rw [printPieces_cons (ofArg_ne_literal hp), convertNext, convert_eq, hp, Option.bind_some]
    cases hprint : p.print b i with
    | none => rfl
    | some r => exact ih _ _ _ _ hqs hstray'

/-- **`vsnprintf` prints the pieces of its format**, one after the other. A stray `%` makes it read
behind the end of the format: the pieces do not say what it finds there. -/
theorem vsnprintfLoop_eq (size : Nat) (tail fmt : List UInt8) : ∀ (args : List Arg)
    (ps : List Piece) (i : Nat) (b : CharBuffer), 0 ∉ fmt → pieces fmt args = some ps →
      tail = [] ∨ .stray ∉ ps →
      vsnprintfLoop size (fmt ++ 0 :: tail) args i b = printPieces size ps i b := by
  induction fmt using format_induction with
  | nil =>
    intro args ps i b _ hps _
    cases hps
    rw [List.nil_append, vsnprintfLoop.eq_def]
    rfl
  | stray =>
    intro args ps i b _ hps hstray
    cases hps
    rcases hstray with rfl | hno
    · rfl
    · exact absurd List.mem_cons_self hno
  | percent f fmt ih =>
    intro args ps i b h0 hps hstray
    have hne : fmt ++ 0 :: tail ≠ [] :=
      List.append_ne_nil_of_right_ne_nil _ (List.cons_ne_nil _ _)
    have hrest := no_nul_specifier h0
    rw [List.cons_append, List.cons_append, vsnprintfLoop_percent hne, specifier_append]
    rw [pieces_percent] at hps
    rcases hspec : specifier f fmt with ⟨k, rest⟩
    rw [hspec] at hps hrest ih
    cases k with
    | none => exact ih args ps i b hrest hps hstray
    | some k =>
      exact convertNext_bind hps hstray i b fun args qs j c hq hs => ih args qs j c hrest hq hs
  | literal ch fmt hpct ih =>
    intro args ps i b h0 hps hstray
    rw [List.mem_cons, not_or] at h0
    rw [pieces_literal hpct] at hps
    obtain ⟨qs, hqs, rfl⟩ := Option.map_eq_some_iff.mp hps
    rw [List.cons_append, vsnprintfLoop_literal (Ne.symm h0.1) hpct, printPieces,
      ih args qs _ _ h0.2 hqs (hstray.imp_right fun hno hm => hno (List.mem_cons_of_mem _ hm))]

end BloreOs
