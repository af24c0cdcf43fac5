import BloreOs.Str.Exact
import BloreOs.Str.Numeral

/-!
# Numbers in binary (`sprint_binary8` to `sprint_binary64`)

`hpet_init` prints the interrupts a timer may use bit by bit. The functions for 16 bits and more
write from the left, with a space behind every byte but the last. The one for 8 bits writes from the
right.

* `digitsLoop_eq`, `rightLoop_eq` — what the two kinds of loops write,
* `sprintBinary_round_trip` — all of them show the bytes of the number in the same way, in as many
  characters as their comments ask for, and the number can be read back.
-/

namespace BloreOs

open Buffer CharBuffer

/-! ## The functions -/

/-- `x ? '1' : '0'` -/
def binaryChar (x : Bool) : UInt8 := if x then chr '1' else chr '0'

/-- `sprint_binary8` -/
def sprintBinary8 (buff : CharBuffer) (ch : BitVec 8) : CharBuffer :=
  ((List.range 8).foldl
    (fun buff i => buff.write (7 - i) (binaryChar (ch.setWidth 32 &&& 1#32 <<< i ≠ 0))) buff).write 8 0

variable {w : Nat}

/-- One iteration of the loop of the others. -/
def binaryDigit (mask ch : BitVec w) (x : Nat × CharBuffer) (bitIndex : Nat) : Nat × CharBuffer :=
  let x := (x.1 + 1, x.2.write x.1 (binaryChar (ch <<< bitIndex &&& mask ≠ 0)))
  if (bitIndex + 1) % 8 = 0 ∧ bitIndex ≠ w - 1 then (x.1 + 1, x.2.write x.1 (chr ' ')) else x

/-- The others: the NUL at index `last` comes first. -/
def sprintBinary (mask : BitVec w) (last : Nat) (buff : CharBuffer) (ch : BitVec w) : CharBuffer :=
  ((List.range w).foldl (binaryDigit mask ch) (0, buff.write last 0)).2

/-- `sprint_binary16` -/
def sprintBinary16 (buff : CharBuffer) (ch : BitVec 16) : CharBuffer := sprintBinary 0x8000 17 buff ch

/-- `sprint_binary32` -/
def sprintBinary32 (buff : CharBuffer) (ch : BitVec 32) : CharBuffer :=
  sprintBinary 0x80000000 35 buff ch

/-- `sprint_binary64` -/
def sprintBinary64 (buff : CharBuffer) (ch : BitVec 64) : CharBuffer :=
  sprintBinary 0x8000000000000000 71 buff ch

/-! ## Texts -/

/-- The `n` bits of a number from bit `i` on, counted from the highest. -/
def bitsFrom (ch : BitVec w) (i n : Nat) : List UInt8 :=
  (List.range' i n).map fun k => binaryChar (ch.getMsbD k)

/-- The bytes of a number, from the highest to the lowest, with spaces between them. -/
def binaryText (ch : BitVec w) : List UInt8 :=
  [chr ' '].intercalate ((List.range (w / 8)).map fun j => bitsFrom ch (8 * j) 8)

variable {ch mask : BitVec w} {b : CharBuffer} {i n : Nat}

/-! ## Reading -/

theorem readDigits_binaryChar (v : Nat) (x : Bool) :
    readDigits 2 v [binaryChar x] = some (2 * v + x.toNat) := by
  have hchar : digitOfChar (binaryChar x) = some x.toNat := by cases x <;> decide
  have hlt : x.toNat < 2 := by cases x <;> decide
  rw [readDigits, hchar, Option.bind_some, if_pos hlt, readDigits, Nat.mul_comm]

/-- The highest bits. -/
theorem readDigits_bitsFrom (ch : BitVec w) : ∀ n ≤ w,
    readDigits 2 0 (bitsFrom ch 0 n) = some (ch.toNat / 2 ^ (w - n)) := by
  intro n
  induction n with
  | zero =>
    intro _
    rw [Nat.sub_zero, Nat.div_eq_of_lt ch.isLt]
    rfl
  | succ n ih =>
    intro hn
    have hbit : (ch.getMsbD n).toNat = ch.toNat / 2 ^ (w - (n + 1)) % 2 := by
      have hw : w - 1 - n = w - (n + 1) := by omega
      rw [BitVec.getMsbD_eq_getLsbD, decide_eq_true (by omega : n < w), Bool.true_and, hw,
        ← BitVec.testBit_toNat, Nat.toNat_testBit]
    have hhalf : ch.toNat / 2 ^ (w - n) = ch.toNat / 2 ^ (w - (n + 1)) / 2 := by
      have hw : w - n = w - (n + 1) + 1 := by omega
      rw [hw, Nat.pow_succ, Nat.div_div_eq_div_mul]
    have hsplit : bitsFrom ch 0 (n + 1) = bitsFrom ch 0 n ++ [binaryChar (ch.getMsbD n)] := by
      rw [bitsFrom, bitsFrom, List.range'_concat, List.map_append, Nat.one_mul, Nat.zero_add]
      rfl
    rw [hsplit, readDigits_append, ih (Nat.le_of_succ_le hn), Option.bind_some, readDigits_binaryChar,
      hbit, hhalf, Nat.div_add_mod]

theorem bitsFrom_append (ch : BitVec w) (i m n : Nat) :
    bitsFrom ch i m ++ bitsFrom ch (i + m) n = bitsFrom ch i (m + n) := by
  rw [bitsFrom, bitsFrom, bitsFrom, ← List.map_append, List.range'_append_1]

theorem space_notMem_bitsFrom (ch : BitVec w) (i n : Nat) : chr ' ' ∉ bitsFrom ch i n := by
  have hne : ∀ x, binaryChar x ≠ chr ' ' := by decide
  rw [bitsFrom, List.mem_map]
  rintro ⟨k, -, hk⟩
  exact hne _ hk

theorem flatten_bytes (ch : BitVec w) (i : Nat) : ∀ n,
    ((List.range' i n).map fun j => bitsFrom ch (8 * j) 8).flatten = bitsFrom ch (8 * i) (8 * n) := by
  intro n
  induction n with
  | zero => rfl
  | succ n ih =>
    rw [List.range'_1_concat, List.map_append, List.flatten_append, ih, List.map_singleton,
      List.flatten_singleton, Nat.mul_add, bitsFrom_append]
    rfl

/-- **A text is read byte by byte.** -/
theorem readNumeral_binaryText (hw : 8 * (w / 8) = w) (hpos : 0 < w) (ch : BitVec w) :
    readNumeral 2 ((binaryText ch).splitOn (chr ' ')).flatten = some ch.toNat := by
  have hsplit : (binaryText ch).splitOn (chr ' ')
      = (List.range (w / 8)).map fun j => bitsFrom ch (8 * j) 8 := by
    refine List.splitOn_intercalate _ (fun l hl => ?_) ?_
    · obtain ⟨j, -, rfl⟩ := List.mem_map.mp hl
      exact space_notMem_bitsFrom ch _ _
    · rw [Ne, List.map_eq_nil_iff, List.range_eq_nil]
      omega
  have hne : bitsFrom ch 0 w ≠ [] := by
    rw [bitsFrom, Ne, List.map_eq_nil_iff, List.range'_eq_nil_iff]
    omega
  rw [hsplit, List.range_eq_range', flatten_bytes, hw, Nat.mul_zero, readNumeral, if_neg hne,
    readDigits_bitsFrom ch w le_rfl, Nat.sub_self, Nat.pow_zero, Nat.div_one]

theorem intercalate_cons_cons {α : Type} (sep x y : List α) (l : List (List α)) :
    sep.intercalate (x :: y :: l) = x ++ sep ++ sep.intercalate (y :: l) := by
  rw [List.intercalate, List.intersperse_cons_cons, List.flatten_cons, List.flatten_cons,
    List.append_assoc, List.intercalate]

theorem length_binaryText (hw : 8 * (w / 8) = w) (ch : BitVec w) :
    (binaryText ch).length = w + w / 8 - 1 := by
  have hlength : ∀ n i, ([chr ' '].intercalate
      ((List.range' i (n + 1)).map fun j => bitsFrom ch (8 * j) 8)).length = 9 * n + 8 := by
    intro n
    induction n with
    | zero =>
      intro i
      simp [List.intercalate, bitsFrom]
    | succ n ih =>
      intro i
      have hrest := ih (i + 1)
      rw [List.range'_succ, List.map_cons] at hrest ⊢
      rw [List.range'_succ, List.map_cons, intercalate_cons_cons, List.length_append,
        List.length_append, hrest, bitsFrom, List.length_map, List.length_range', List.length_singleton]
      omega
  rw [binaryText, List.range_eq_range']
  cases hbytes : w / 8 with
  | zero => simp [List.intercalate]; omega
  | succ n =>
    rw [hlength]
    omega

/-! ## The loops -/

/-- What one iteration writes. -/
def digitAndSpace (ch : BitVec w) (bitIndex : Nat) : List UInt8 :=
  binaryChar (ch.getMsbD bitIndex) ::
    if (bitIndex + 1) % 8 = 0 ∧ bitIndex ≠ w - 1 then [chr ' '] else []

/-- A mask of one bit selects the bit. -/
theorem and_twoPow_ne_zero (x : BitVec w) (hi : i < w) :
    decide (x &&& BitVec.twoPow w i ≠ 0) = x.getLsbD i := by
  have hne : BitVec.twoPow w i ≠ 0 := by
    intro h
    have hbit := congrArg (fun y : BitVec w => y.getLsbD i) h
    simp [hi] at hbit
  rw [BitVec.and_twoPow]
  cases x.getLsbD i with
  | false => simp
  | true => simpa using hne

theorem shiftLeft_and_mask (hpos : 0 < w) (hmask : mask = BitVec.twoPow w (w - 1)) (i : Nat) :
    decide (ch <<< i &&& mask ≠ 0) = ch.getMsbD i := by
  rw [hmask, and_twoPow_ne_zero _ (by omega), ← BitVec.msb_eq_getLsbD_last, BitVec.msb_shiftLeft]

theorem digitsLoop_eq (hpos : 0 < w) (hmask : mask = BitVec.twoPow w (w - 1)) : ∀ (js : List Nat) (i : Nat)
    (b : CharBuffer), js.foldl (binaryDigit mask ch) (i, b)
      = (i + (js.flatMap (digitAndSpace ch)).length, b.writeAll i (js.flatMap (digitAndSpace ch)))
  | [], _, _ => rfl
  | j :: js, i, b => by
    have hstep : binaryDigit mask ch (i, b) j
        = (i + (digitAndSpace ch j).length, b.writeAll i (digitAndSpace ch j)) := by
      simp only [binaryDigit, digitAndSpace, shiftLeft_and_mask hpos hmask]
      split <;> rfl
    rw [List.foldl_cons, hstep, digitsLoop_eq hpos hmask js, List.flatMap_cons, List.length_append,
      writeAll_append, Nat.add_assoc]

/-- Eight iterations. -/
theorem flatMap_byte (hw : 8 * (w / 8) = w) (ch : BitVec w) {j : Nat} (hj : j < w / 8) :
    (List.range' (8 * j) 8).flatMap (digitAndSpace ch)
      = bitsFrom ch (8 * j) 8 ++ if j + 1 = w / 8 then [] else [chr ' '] := by
  have hseven : (List.range' (8 * j) 7).flatMap (digitAndSpace ch) = bitsFrom ch (8 * j) 7 := by
    rw [bitsFrom, ← List.flatMap_singleton' (List.map _ _), List.flatMap_map]
    refine List.flatMap_congr fun k hk => ?_
    rw [List.mem_range'_1] at hk
    rw [digitAndSpace, if_neg (by omega)]
  have hlast : digitAndSpace ch (8 * j + 7)
      = bitsFrom ch (8 * j + 7) 1 ++ if j + 1 = w / 8 then [] else [chr ' '] := by
    rw [digitAndSpace]
    by_cases hend : j + 1 = w / 8
    · rw [if_pos hend, if_neg (by omega)]
      rfl
    · rw [if_neg hend, if_pos (by omega)]
      rfl
  rw [← bitsFrom_append ch (8 * j) 7 1, List.append_assoc, ← hlast, ← hseven, List.range'_1_concat,
    List.flatMap_append, List.flatMap_singleton]

theorem flatMap_digits (hw : 8 * (w / 8) = w) (ch : BitVec w) : ∀ n i, i + n = w / 8 →
    (List.range' (8 * i) (8 * n)).flatMap (digitAndSpace ch)
      = [chr ' '].intercalate ((List.range' i n).map fun j => bitsFrom ch (8 * j) 8)
  | 0, _, _ => rfl
  | 1, i, h => by
    rw [Nat.mul_one, flatMap_byte hw ch (by omega), if_pos h, List.append_nil]
    simp [List.intercalate]
  | n + 2, i, h => by
    have hrest := flatMap_digits hw ch (n + 1) (i + 1) (by omega)
    rw [Nat.mul_add 8 i, Nat.mul_one] at hrest
    have hlen : 8 * (n + 2) = 8 + 8 * (n + 1) := by omega
    rw [hlen, ← List.range'_append_1, List.flatMap_append, hrest, flatMap_byte hw ch (by omega),
      if_neg (by omega), List.range'_succ (n := n + 1), List.map_cons, List.range'_succ, List.map_cons,
      intercalate_cons_cons]

/-- **The loop from the left.** -/
theorem printed_sprintBinary (hw : 8 * (w / 8) = w) (hpos : 0 < w)
    (hmask : mask = BitVec.twoPow w (w - 1)) {last : Nat} (hlast : (binaryText ch).length = last)
    (b : CharBuffer) : Printed b (sprintBinary mask last b ch) 0 (binaryText ch) := by
  have htext : (List.range w).flatMap (digitAndSpace ch) = binaryText ch := by
    have hall := flatMap_digits hw ch (w / 8) 0 (Nat.zero_add _)
    rwa [hw, ← List.range_eq_range', ← List.range_eq_range'] at hall
  have hne : binaryText ch ≠ [] := fun h => by
    have hlen := length_binaryText hw ch
    rw [h, List.length_nil] at hlen
    omega
  rw [sprintBinary, digitsLoop_eq hpos hmask, htext]
  constructor
  · exact slice_writeAll _
  · rw [data_writeAll_outside _ (Or.inr le_rfl), Nat.zero_add, hlast, data_write_same]
  · intro k hk
    rw [data_writeAll_outside _ (by omega), data_write_other (by omega)]
  · rw [extent_writeAll _ hne, hlast]
    simp only [Buffer.write]
    omega

/-- The loop from the right. -/
theorem rightLoop_eq (f : Nat → UInt8) (last : Nat) (b : CharBuffer) : ∀ n ≤ last + 1,
    ((List.range n).foldl (fun b i => b.write (last - i) (f i)) b).extent
        = (if n = 0 then b.extent else max b.extent (last + 1)) ∧
      ∀ k, ((List.range n).foldl (fun b i => b.write (last - i) (f i)) b).data k
        = if last < k + n ∧ k ≤ last then f (last - k) else b.data k := by
  intro n
  induction n with
  | zero =>
    intro _
    exact ⟨rfl, fun k => (if_neg (by omega)).symm⟩
  | succ n ih =>
    intro hn
    obtain ⟨hext, hdata⟩ := ih (by omega)
    rw [List.range_succ, List.foldl_append, List.foldl_cons, List.foldl_nil]
    constructor
    · rw [Buffer.write, hext, if_neg (Nat.succ_ne_zero n)]
      split <;> simp only <;> omega
    · intro k
      rw [data_write, hdata]
      by_cases hk : k = last - n
      · rw [if_pos hk, if_pos (by omega), hk]
        congr 1
        omega
      · rw [if_neg hk]
        exact if_congr (by omega) rfl rfl

/-- **The loop of `sprint_binary8`.** -/
theorem printed_sprintBinary8 (b : CharBuffer) (ch : BitVec 8) :
    Printed b (sprintBinary8 b ch) 0 (binaryText ch) := by
  have htext : binaryText ch = bitsFrom ch 0 8 := by simp [binaryText, List.intercalate]
  have hlen : (bitsFrom ch 0 8).length = 8 := rfl
  have hbit : ∀ i < 8, decide (ch.setWidth 32 &&& 1#32 <<< i ≠ 0) = ch.getMsbD (7 - i) := by
    intro i hi
    rw [← BitVec.twoPow_eq, and_twoPow_ne_zero _ (by omega), BitVec.getLsbD_setWidth,
      decide_eq_true (by omega : i < 32), Bool.true_and, BitVec.getMsbD_eq_getLsbD,
      decide_eq_true (by omega : 7 - i < 8), Bool.true_and]
    congr 1
    omega
  obtain ⟨hext, hdata⟩ :=
    rightLoop_eq (fun i => binaryChar (ch.setWidth 32 &&& 1#32 <<< i ≠ 0)) 7 b 8 le_rfl
  rw [htext, sprintBinary8]
  constructor
  · refine List.ext_getElem (by rw [length_slice]) fun k hk _ => ?_
    rw [length_slice, hlen] at hk
    rw [getElem_slice, Nat.zero_add, data_write_other (by omega), hdata, if_pos (by omega), hbit _ (by omega)]
    simp only [bitsFrom, List.getElem_map, List.getElem_range']
    congr 2
    omega
  · rw [hlen, data_write_same]
  · intro k hk
    rw [hlen] at hk
    rw [data_write_other (by omega), hdata, if_neg (by omega)]
  · rw [hlen, Buffer.write, hext, if_neg (by decide)]
    simp only
    omega

/-! ## Round trip -/

/-- The buffer `b'` shows the number `ch`: the text, its length, and what it reads as. -/
structure ShowsBits (b b' : CharBuffer) (ch : BitVec w) : Prop where
  printed : Printed b b' 0 (binaryText ch)
  length : (binaryText ch).length = w + w / 8 - 1
  read : readNumeral 2 ((binaryText ch).splitOn (chr ' ')).flatten = some ch.toNat

theorem ShowsBits.of_printed {b' : CharBuffer} (hw : 8 * (w / 8) = w) (hpos : 0 < w)
    (h : Printed b b' 0 (binaryText ch)) : ShowsBits b b' ch :=
  ⟨h, length_binaryText hw ch, readNumeral_binaryText hw hpos ch⟩

/--
**Numbers in binary read back.**

For every buffer and all numbers: each of the four functions prints the bytes of its number as digits,
from the highest to the lowest and with a space between two bytes, and the NUL behind them, changes
nothing else, stays inside an array of the 9, 18, 36 or 72 characters that its comment asks for, and the
digits are the numeral of the number.
-/
theorem sprintBinary_round_trip (b : CharBuffer) (ch8 : BitVec 8) (ch16 : BitVec 16) (ch32 : BitVec 32)
    (ch64 : BitVec 64) : ShowsBits b (sprintBinary8 b ch8) ch8 ∧
      ShowsBits b (sprintBinary16 b ch16) ch16 ∧ ShowsBits b (sprintBinary32 b ch32) ch32 ∧
      ShowsBits b (sprintBinary64 b ch64) ch64 := by
  refine ⟨.of_printed rfl (by decide) (printed_sprintBinary8 b ch8), ?_, ?_, ?_⟩
  · exact .of_printed rfl (by decide) (printed_sprintBinary rfl (by decide) rfl (length_binaryText rfl _) b)
  · exact .of_printed rfl (by decide) (printed_sprintBinary rfl (by decide) rfl (length_binaryText rfl _) b)
  · exact .of_printed rfl (by decide) (printed_sprintBinary rfl (by decide) rfl (length_binaryText rfl _) b)

/-- The interrupts that a timer may use. -/
example : (sprintBinary32 ⟨fun _ => 1, 0⟩ 0x00F00104).slice 0 36
    = "00000000 11110000 00000001 00000100".toList.map chr ++ [0] := by decide

end BloreOs
