import BloreOs.Basic
import BloreOs.Lib.CharBuffer
import Mathlib.Data.Nat.Digits.Lemmas

/-!
# Numbers as text (`str.c`)

`itoa` and `ltoa` convert signed integers, `__ultoa` and `__ultoua` unsigned ones. All four write
the digits from the last to the first and reverse them in place at the end. They are given a pointer
into a buffer and do not know where it ends.

* `signedToa_printed`, `unsignedToa_printed` — they print the numeral of their argument,
* `itoa_intMin` — except for the smallest `int`, for which `itoa` does not return: its negation is
  itself, and what is left after a division is cut to 32 bits, which goes in a circle.
-/

namespace BloreOs

open Loop Buffer CharBuffer

variable {b b' : CharBuffer} {str base n i : Nat} {w : Nat}

/-! ## The functions -/

/-- The loop of `reverse`: `end` counts down to `start`. -/
def reverseFrom (b : CharBuffer) (str : Nat) (start : Nat) : Nat → CharBuffer
  | 0 => b
  | last + 1 =>
    if start < last + 1 then reverseFrom (b.swap (str + start) (str + (last + 1))) str (start + 1) last
    else b

/-- `reverse`. -/
def reverse (b : CharBuffer) (str length : Nat) : CharBuffer :=
  reverseFrom b str 0 (sub64 length 1)

/-- The character of a digit, lower-case or upper-case. -/
def digitChar (upper : Bool) (rem : Nat) : UInt8 :=
  UInt8.ofNat (if 9 < rem then rem - 10 + (if upper then 65 else 97) else rem + 48)

/-- One iteration of the digit loop of `itoa` and `ltoa`: the number is converted to `size_t` for
the remainder and the division, and the quotient is converted back. -/
def signedDigit (base str : Nat) (x : BitVec w × Nat × CharBuffer) :
    (BitVec w × Nat × CharBuffer) ⊕ (Nat × CharBuffer) :=
  if x.1 = 0 then .inr x.2
  else
    let num := (x.1.signExtend 64).toNat
    .inl (BitVec.ofNat w (num / base), x.2.1 + 1,
      x.2.2.write (str + x.2.1) (digitChar false (num % base)))

/-- `itoa` and `ltoa`, for integers of `w` bits. `none` means that the digit loop is never left:
there are fewer numbers than it may make iterations. -/
def signedToa (num : BitVec w) (b : CharBuffer) (str base : Nat) : Option (Nat × CharBuffer) :=
  let isNegative := num.msb
  let num := if isNegative then -num else num
  let start := if num = 0 then (num, 1, b.write str (chr '0')) else (num, 0, b)
  (loop (signedDigit base str) (2 ^ 64 + 1) start).map fun r =>
    let r := if isNegative then (r.1 + 1, r.2.write (str + r.1) (chr '-')) else r
    (r.1, reverse (r.2.write (str + r.1) 0) str r.1)

/-- `itoa` -/
def itoa (num : BitVec 32) (b : CharBuffer) (str base : Nat) : Option (Nat × CharBuffer) :=
  signedToa num b str base

/-- `ltoa` -/
def ltoa (num : BitVec 64) (b : CharBuffer) (str base : Nat) : Option (Nat × CharBuffer) :=
  signedToa num b str base

/-- One iteration of the digit loop of `__ultoa` and `__ultoua`. -/
def unsignedDigit (upper : Bool) (base str : Nat) (x : Nat × Nat × CharBuffer) :
    (Nat × Nat × CharBuffer) ⊕ (Nat × CharBuffer) :=
  let b := x.2.2.write (str + x.2.1) (digitChar upper (x.1 % base))
  if x.1 / base = 0 then .inr (x.2.1 + 1, b) else .inl (x.1 / base, x.2.1 + 1, b)

/-- `__ultoa` and `__ultoua`. Hexadecimal numbers are padded to 16 digits. -/
def unsignedToa (upper : Bool) (num : BitVec 64) (b : CharBuffer) (str base : Nat) :
    Option (Nat × CharBuffer) :=
  (loop (unsignedDigit upper base str) (2 ^ 64 + 1) (num.toNat, 0, b)).map fun r =>
    let r := if base = 16 then
      (max r.1 16, r.2.writeAll (str + r.1) (List.replicate (16 - r.1) (chr '0'))) else r
    (r.1, reverse (r.2.write (str + r.1) 0) str r.1)

/-- `__ultoa` -/
def ultoa (num : BitVec 64) (b : CharBuffer) (str base : Nat) : Option (Nat × CharBuffer) :=
  unsignedToa false num b str base

/-- `__ultoua` -/
def ultoua (num : BitVec 64) (b : CharBuffer) (str base : Nat) : Option (Nat × CharBuffer) :=
  unsignedToa true num b str base

/-! ## Numerals -/

/-- The digits of a number from the last to the first, at least one. -/
def digitsOf (base n : Nat) : List Nat := if n = 0 then [0] else Nat.digits base n

/-- The numeral of a number. -/
def numeral (upper : Bool) (base n : Nat) : List UInt8 :=
  ((digitsOf base n).map (digitChar upper)).reverse

/-- The numeral of an integer, with a minus sign for negative ones. -/
def signedNumeral (base : Nat) (z : Int) : List UInt8 :=
  (if z < 0 then [chr '-'] else []) ++ numeral false base z.natAbs

/-- The numeral of a number, filled up with zeros to `width` digits. -/
def paddedNumeral (upper : Bool) (base width n : Nat) : List UInt8 :=
  List.replicate (width - (digitsOf base n).length) (chr '0') ++ numeral upper base n

theorem digitsOf_ne_nil (base n : Nat) : digitsOf base n ≠ [] := by
  unfold digitsOf
  split
  · exact List.cons_ne_nil _ _
  · next h => exact Nat.digits_ne_nil_iff_ne_zero.mpr h

theorem digitsOf_of_lt (h : n < base) : digitsOf base n = [n] := by
  unfold digitsOf
  split
  · next h0 => rw [h0]
  · next h0 => exact Nat.digits_of_lt base n h0 h

theorem digitsOf_of_le (hbase : 2 ≤ base) (h : base ≤ n) :
    digitsOf base n = n % base :: digitsOf base (n / base) := by
  have hq : n / base ≠ 0 := Nat.div_ne_zero_iff.mpr ⟨by omega, h⟩
  rw [digitsOf, if_neg (by omega), digitsOf, if_neg hq, Nat.digits_def' hbase (by omega)]

theorem digitsOf_length_lt (hbase : 2 ≤ base) (hn : n < 2 ^ 64) :
    (digitsOf base n).length ≤ 64 := by
  unfold digitsOf
  split
  · decide
  · next h =>
    rw [Nat.length_digits base n hbase h]
    have h2 : Nat.log base n ≤ Nat.log 2 n := Nat.log_anti_left (by decide) hbase
    have h3 : Nat.log 2 n < 64 := Nat.log_lt_of_lt_pow h hn
    omega

/-! ## Reversing -/

theorem reverseFrom_spec (str : Nat) : ∀ (last start : Nat) {b : CharBuffer},
    str + last < b.extent →
    (reverseFrom b str start last).extent = b.extent ∧
      ∀ k, (reverseFrom b str start last).data k =
        if str + start ≤ k ∧ k ≤ str + last then b.data (str + start + (str + last) - k)
        else b.data k
  | 0, start, b, _ => by
    refine ⟨rfl, fun k => ?_⟩
    rw [reverseFrom]
    split
    · congr 1
      omega
    · rfl
  | last + 1, start, b, h => by
    rw [reverseFrom]
    split
    · next hlt =>
      have hext : (b.swap (str + start) (str + (last + 1))).extent = b.extent :=
        extent_swap (by omega) (by omega)
      obtain ⟨h1, h2⟩ := reverseFrom_spec str last (start + 1)
        (b := b.swap (str + start) (str + (last + 1))) (by omega)
      refine ⟨h1.trans hext, fun k => ?_⟩
      rw [h2 k]
      by_cases hin : str + (start + 1) ≤ k ∧ k ≤ str + last
      · rw [if_pos hin, if_pos (by omega), data_swap, if_neg (by omega), if_neg (by omega)]
        congr 1
        omega
      · rw [if_neg hin, data_swap]
        by_cases hl : k = str + (last + 1)
        · rw [if_pos hl, if_pos (by omega)]
          congr 1
          omega
        · rw [if_neg hl]
          by_cases hs : k = str + start
          · rw [if_pos hs, if_pos (by omega)]
            congr 1
            omega
          · rw [if_neg hs, if_neg (by omega)]
    · refine ⟨rfl, fun k => ?_⟩
      split
      · congr 1
        omega
      · rfl

/-- Characters that are written, terminated and reversed are printed in reverse. -/
theorem printed_reverse {cs : List UInt8} (hne : cs ≠ []) (hlen : cs.length < 2 ^ 64) :
    Printed b (reverse ((b.writeAll str cs).write (str + cs.length) 0) str cs.length) str
      cs.reverse := by
  have hpos := List.length_pos_iff.mpr hne
  generalize hc : (b.writeAll str cs).write (str + cs.length) 0 = c
  have hext : c.extent = max b.extent (str + cs.length + 1) := by
    rw [← hc, Buffer.write, extent_writeAll cs hne]
    simp only
    omega
  have hslice : c.slice str cs.length = cs := by
    rw [← hc]
    exact (slice_congr fun k _ _ => data_write_other (by omega)).trans (slice_writeAll cs)
  have hlast : sub64 cs.length 1 = cs.length - 1 := sub64_eq hpos hlen
  obtain ⟨h1, h2⟩ := reverseFrom_spec str (cs.length - 1) 0 (b := c) (by omega)
  rw [reverse, hlast]
  refine ⟨?_, ?_, fun k hk => ?_, by rw [h1, hext, List.length_reverse]⟩
  · rw [List.length_reverse]
    refine List.ext_getElem (by simp [length_slice]) fun k hk1 hk2 => ?_
    rw [length_slice] at hk1
    rw [getElem_slice, List.getElem_reverse, h2, if_pos (by omega)]
    have hk : cs.length - 1 - k < (c.slice str cs.length).length := by
      rw [length_slice]
      omega
    have hget : (c.slice str cs.length)[cs.length - 1 - k] = cs[cs.length - 1 - k] := by
      simp only [hslice]
    rw [← hget, getElem_slice]
    exact congrArg c.data (by omega)
  · rw [List.length_reverse, h2, if_neg (by omega), ← hc, data_write_same]
  · rw [List.length_reverse] at hk
    rw [h2, if_neg (by omega), ← hc, data_write_other (by omega), data_writeAll_outside cs (by omega)]

/-! ## Unsigned numbers -/

theorem loop_unsignedDigit (upper : Bool) (str : Nat) (hbase : 2 ≤ base) :
    ∀ (n fuel i : Nat) (b : CharBuffer), n < fuel → loop (unsignedDigit upper base str) fuel (n, i, b)
      = some (i + (digitsOf base n).length,
          b.writeAll (str + i) ((digitsOf base n).map (digitChar upper))) := by
  intro n
  induction n using Nat.strongRecOn with
  | ind n ih =>
    intro fuel i b hfuel
    obtain ⟨fuel, rfl⟩ := Nat.exists_eq_add_one_of_ne_zero (by omega : fuel ≠ 0)
    by_cases hn : n < base
    · have hq : n / base = 0 := Nat.div_eq_of_lt hn
      rw [loop_inr (b := (i + 1, b.write (str + i) (digitChar upper (n % base))))
        (by simp only [unsignedDigit, hq, if_true]), digitsOf_of_lt hn, Nat.mod_eq_of_lt hn]
      rfl
    · have hle : base ≤ n := by omega
      have hq : n / base ≠ 0 := Nat.div_ne_zero_iff.mpr ⟨by omega, hle⟩
      have hlt : n / base < n := Nat.div_lt_self (by omega) hbase
      rw [loop_inl (y := (n / base, i + 1, b.write (str + i) (digitChar upper (n % base))))
        (by simp only [unsignedDigit, hq, if_false]), ih _ hlt _ _ _ (by omega),
        digitsOf_of_le hbase hle, List.length_cons, List.map_cons, Buffer.writeAll]
      rw [Nat.add_assoc i 1, Nat.add_comm 1, Nat.add_assoc str]

/-- **`__ultoa` and `__ultoua`** print the numeral, in base 16 with all its digits. -/
theorem unsignedToa_printed (upper : Bool) (num : BitVec 64) (b : CharBuffer) (str : Nat)
    (hbase : 2 ≤ base) :
    let text := if base = 16 then paddedNumeral upper 16 16 num.toNat
      else numeral upper base num.toNat
    ∃ b', unsignedToa upper num b str base = some (text.length, b') ∧ Printed b b' str text := by
  intro text
  have hlen := digitsOf_length_lt hbase num.isLt
  have hloop := loop_unsignedDigit upper str hbase num.toNat (2 ^ 64 + 1) 0 b
    (by have := num.isLt; omega)
  simp only [Nat.zero_add, Nat.add_zero] at hloop
  simp only [unsignedToa, hloop, Option.map_some]
  generalize hds : (digitsOf base num.toNat).map (digitChar upper) = ds
  have hdslen : (digitsOf base num.toNat).length = ds.length := by rw [← hds, List.length_map]
  have hne : ds ≠ [] := by
    rw [← hds]
    exact fun h => digitsOf_ne_nil base _ (List.map_eq_nil_iff.mp h)
  rw [hdslen] at hlen ⊢
  by_cases h16 : base = 16
  · have htext : text = (ds ++ List.replicate (16 - ds.length) (chr '0')).reverse := by
      rw [List.reverse_append, List.reverse_replicate]
      simp only [text, if_pos h16, paddedNumeral, numeral, ← hds, ← h16, List.length_map]
    have hmax : max ds.length 16
        = (ds ++ List.replicate (16 - ds.length) (chr '0')).length := by
      rw [List.length_append, List.length_replicate]
      omega
    simp only [if_pos h16]
    rw [hmax, ← writeAll_append, htext, List.length_reverse]
    refine ⟨_, rfl, printed_reverse (by simp [hne]) ?_⟩
    rw [← hmax]
    omega
  · have htext : text = ds.reverse := by
      simp only [text, if_neg h16, numeral, hds]
    simp only [if_neg h16, htext, List.length_reverse]
    exact ⟨_, rfl, printed_reverse hne (by omega)⟩

/-! ## Signed numbers -/

/-- A small number survives the conversion to `size_t`. -/
theorem signExtend_ofNat (hw : 1 ≤ w) (hw64 : w ≤ 64) (h : n < 2 ^ (w - 1)) :
    ((BitVec.ofNat w n).signExtend 64).toNat = n := by
  have hlt : n < 2 ^ w := h.trans_le (Nat.pow_le_pow_right (by decide) (by omega))
  have hmsb : (BitVec.ofNat w n).msb = false := by
    rw [BitVec.msb_eq_false_iff_two_mul_lt, BitVec.toNat_ofNat, Nat.mod_eq_of_lt hlt]
    obtain ⟨v, rfl⟩ := Nat.exists_eq_add_of_le' hw
    rw [Nat.add_sub_cancel] at h
    rw [Nat.pow_succ]
    omega
  rw [BitVec.signExtend_eq_setWidth_of_msb_false hmsb, BitVec.toNat_setWidth, BitVec.toNat_ofNat,
    Nat.mod_eq_of_lt hlt]
  exact Nat.mod_eq_of_lt (hlt.trans_le (Nat.pow_le_pow_right (by decide) hw64))

theorem signExtend_eq_zero (hw64 : w ≤ 64) {x : BitVec w} (h : (x.signExtend 64).toNat = 0) :
    x = 0 := by
  have h0 : x.signExtend 64 = 0 := BitVec.eq_of_toNat_eq h
  have hint := BitVec.toInt_signExtend_of_le (x := x) hw64
  rw [h0] at hint
  exact BitVec.eq_of_toInt_eq (by rw [← hint]; simp)

theorem loop_signedDigit (str : Nat) (hw : 1 ≤ w) (hw64 : w ≤ 64) (hbase : 2 ≤ base) :
    ∀ (n fuel i : Nat) (x : BitVec w) (b : CharBuffer), (x.signExtend 64).toNat = n →
      n ≤ 2 ^ (w - 1) → n < fuel → loop (signedDigit base str) fuel (x, i, b)
        = some (i + (Nat.digits base n).length,
            b.writeAll (str + i) ((Nat.digits base n).map (digitChar false))) := by
  intro n
  induction n using Nat.strongRecOn with
  | ind n ih =>
    intro fuel i x b hx hle hfuel
    obtain ⟨fuel, rfl⟩ := Nat.exists_eq_add_one_of_ne_zero (by omega : fuel ≠ 0)
    by_cases hn : n = 0
    · have hx0 : x = 0 := signExtend_eq_zero hw64 (hx.trans hn)
      rw [loop_inr (b := (i, b)) (by simp only [signedDigit, hx0, if_true]), hn]
      simp [Buffer.writeAll]
    · have hx0 : x ≠ 0 := by
        rintro rfl
        exact hn (hx.symm.trans (signExtend_ofNat hw hw64 (Nat.two_pow_pos _)))
      have hlt : n / base < n := Nat.div_lt_self (by omega) hbase
      have hhalf : n / base < 2 ^ (w - 1) := hlt.trans_le hle
      rw [loop_inl (y := (BitVec.ofNat w (n / base), i + 1,
          b.write (str + i) (digitChar false (n % base))))
        (by simp only [signedDigit, if_neg hx0, hx]),
        ih _ hlt _ _ _ _ (signExtend_ofNat hw hw64 hhalf) hhalf.le (by omega),
        Nat.digits_def' hbase (show 0 < n by omega), List.length_cons, List.map_cons,
        Buffer.writeAll]
      rw [Nat.add_assoc i 1, Nat.add_comm 1, Nat.add_assoc str]

/-- The digit loop from its start. The number 0 has its digit already. -/
theorem loop_signedDigit_start (str : Nat) (hw : 1 ≤ w) (hw64 : w ≤ 64) (hbase : 2 ≤ base)
    {m : BitVec w} (hm : (m.signExtend 64).toNat = n) (hle : n ≤ 2 ^ (w - 1)) (b : CharBuffer) :
    loop (signedDigit base str) (2 ^ 64 + 1)
      (if m = 0 then (m, 1, b.write str (chr '0')) else (m, 0, b))
      = some ((digitsOf base n).length,
          b.writeAll str ((digitsOf base n).map (digitChar false))) := by
  have hpow : 2 ^ (w - 1) ≤ 2 ^ 63 := Nat.pow_le_pow_right (by decide) (by omega)
  have hfuel : n < 2 ^ 64 + 1 := by omega
  by_cases h0 : m = 0
  · have hn : n = 0 := by
      rw [← hm, h0]
      exact signExtend_ofNat hw hw64 (Nat.two_pow_pos _)
    rw [if_pos h0, loop_signedDigit str hw hw64 hbase n _ _ _ _ hm hle hfuel, hn]
    simp only [Nat.digits_zero, List.length_nil, List.map_nil]
    rfl
  · have hn : n ≠ 0 := fun hn => h0 (signExtend_eq_zero hw64 (hm.trans hn))
    rw [if_neg h0, loop_signedDigit str hw hw64 hbase n _ _ _ _ hm hle hfuel, digitsOf, if_neg hn,
      Nat.zero_add, Nat.add_zero]

/-- **`itoa` and `ltoa`** print the numeral if the absolute value survives the conversion. -/
theorem signedToa_printed (hw : 1 ≤ w) (hw64 : w ≤ 64) (hbase : 2 ≤ base) (num : BitVec w)
    (habs : ((if num.msb then -num else num).signExtend 64).toNat = num.toInt.natAbs)
    (b : CharBuffer) (str : Nat) :
    ∃ b', signedToa num b str base = some ((signedNumeral base num.toInt).length, b') ∧
      Printed b b' str (signedNumeral base num.toInt) := by
  have hle : num.toInt.natAbs ≤ 2 ^ (w - 1) := by
    have h1 := BitVec.two_mul_toInt_lt (x := num)
    have h2 := BitVec.le_two_mul_toInt (x := num)
    obtain ⟨v, rfl⟩ := Nat.exists_eq_add_of_le' hw
    rw [Nat.add_sub_cancel]
    zify
    rw [abs_le]
    omega
  have hpow : 2 ^ (w - 1) ≤ 2 ^ 63 := Nat.pow_le_pow_right (by decide) (by omega)
  have hlen := digitsOf_length_lt (n := num.toInt.natAbs) hbase (by omega)
  have hloop := loop_signedDigit_start str hw hw64 hbase habs hle b
  generalize hds : (digitsOf base num.toInt.natAbs).map (digitChar false) = ds at hloop
  have hdslen : (digitsOf base num.toInt.natAbs).length = ds.length := by rw [← hds, List.length_map]
  have hne : ds ≠ [] := by
    rw [← hds]
    exact fun h => digitsOf_ne_nil base _ (List.map_eq_nil_iff.mp h)
  rw [hdslen] at hlen hloop
  simp only [signedToa, hloop, Option.map_some]
  have hsign : num.toInt < 0 ↔ num.msb = true := by rw [BitVec.msb_eq_toInt, decide_eq_true_iff]
  by_cases hneg : num.msb = true
  · have htext : signedNumeral base num.toInt = (ds ++ [chr '-']).reverse := by
      rw [signedNumeral, if_pos (hsign.mpr hneg), List.reverse_append, numeral, hds]
      rfl
    have hlen' : ds.length + 1 = (ds ++ [chr '-']).length := by simp
    have hwrite : (b.writeAll str ds).write (str + ds.length) (chr '-')
        = b.writeAll str (ds ++ [chr '-']) := by
      rw [writeAll_append]
      rfl
    simp only [if_pos hneg]
    rw [hwrite, hlen', htext, List.length_reverse]
    refine ⟨_, rfl, printed_reverse (by simp) ?_⟩
    rw [← hlen']
    omega
  · have htext : signedNumeral base num.toInt = ds.reverse := by
      rw [signedNumeral, if_neg fun h => hneg (hsign.mp h), numeral, hds]
      rfl
    simp only [if_neg hneg]
    rw [htext, List.length_reverse]
    exact ⟨_, rfl, printed_reverse hne (by omega)⟩

/-- `itoa` prints every `int` but the smallest. -/
theorem itoa_printed (hbase : 2 ≤ base) {num : BitVec 32} (hnum : num ≠ BitVec.intMin 32)
    (b : CharBuffer) (str : Nat) :
    ∃ b', itoa num b str base = some ((signedNumeral base num.toInt).length, b') ∧
      Printed b b' str (signedNumeral base num.toInt) := by
  refine signedToa_printed (by decide) (by decide) hbase num ?_ b str
  have hne : num.toNat ≠ 2 ^ 31 := fun h => hnum (BitVec.eq_of_toNat_eq h)
  have hlt := num.isLt
  have hint := BitVec.toInt_eq_toNat_cond num
  have hmsb := BitVec.msb_eq_decide num
  by_cases hneg : num.msb = true
  · have hbig : 2 ^ 31 ≤ num.toNat := by simpa [hneg] using hmsb.symm
    have hm : -num = BitVec.ofNat 32 (2 ^ 32 - num.toNat) := by
      refine BitVec.eq_of_toNat_eq ?_
      rw [BitVec.toNat_neg, BitVec.toNat_ofNat]
    rw [if_pos hneg, hm, signExtend_ofNat (by decide) (by decide) (by omega), hint,
      if_neg (by omega)]
    omega
  · have hsmall : num.toNat < 2 ^ 31 := by simpa [hneg] using hmsb.symm
    have hext := signExtend_ofNat (w := 32) (by decide) (by decide) hsmall
    rw [BitVec.ofNat_toNat, BitVec.setWidth_eq] at hext
    rw [if_neg hneg, hint, if_pos (by omega), hext]
    omega

/-- `ltoa` prints every `int64_t`. -/
theorem ltoa_printed (hbase : 2 ≤ base) (num : BitVec 64) (b : CharBuffer) (str : Nat) :
    ∃ b', ltoa num b str base = some ((signedNumeral base num.toInt).length, b') ∧
      Printed b b' str (signedNumeral base num.toInt) := by
  refine signedToa_printed (by decide) (by decide) hbase num ?_ b str
  have hlt := num.isLt
  have hint := BitVec.toInt_eq_toNat_cond num
  have hmsb := BitVec.msb_eq_decide num
  rw [BitVec.signExtend_eq]
  by_cases hneg : num.msb = true
  · have hbig : 2 ^ 63 ≤ num.toNat := by simpa [hneg] using hmsb.symm
    rw [if_pos hneg, BitVec.toNat_neg, hint, if_neg (by omega)]
    omega
  · have hsmall : num.toNat < 2 ^ 63 := by simpa [hneg] using hmsb.symm
    rw [if_neg hneg, hint, if_pos (by omega)]
    omega

/-- The numbers that the digit loop goes through from the smallest `int` on. The last one is its own
successor. -/
def intMinOrbit : List (BitVec 32) :=
  [0x80000000, 0x8ccccccc, 0x8e147ae1, 0x8e353f7c, 0x8e388659, 0x8e38da3c, 0x8e38e29f, 0x8e38e376,
    0x8e38e38b, 0x8e38e38d, 0x8e38e38e]

/-- **`itoa` does not return for the smallest `int`.** -/
theorem itoa_intMin (b : CharBuffer) (str : Nat) : itoa (BitVec.intMin 32) b str 10 = none := by
  have horbit : ∀ x ∈ intMinOrbit, x ≠ 0 ∧
      BitVec.ofNat 32 ((x.signExtend 64).toNat / 10) ∈ intMinOrbit := by
    unfold intMinOrbit
    simp only [List.forall_mem_cons, List.not_mem_nil, false_implies, implies_true, and_true]
    decide
  have hmem : BitVec.intMin 32 ∈ intMinOrbit := by decide
  have hnone : loop (signedDigit 10 str) (2 ^ 64 + 1) (BitVec.intMin 32, 0, b) = none := by
    refine loop_eq_none (fun x => x.1 ∈ intMinOrbit) ?_ _ hmem
    rintro ⟨x, i, c⟩ hx
    obtain ⟨hne, hnext⟩ := horbit x hx
    have hbody : signedDigit 10 str (x, i, c) =
        .inl (BitVec.ofNat 32 ((x.signExtend 64).toNat / 10), i + 1,
          c.write (str + i) (digitChar false ((x.signExtend 64).toNat % 10))) := by
      simp only [signedDigit, if_neg hne]
    exact ⟨_, hbody, hnext⟩
  have hstart : (if (BitVec.intMin 32).msb then -BitVec.intMin 32 else BitVec.intMin 32)
      = BitVec.intMin 32 := by decide
  have hne : ¬ BitVec.intMin 32 = 0 := by decide
  simp only [itoa, signedToa, hstart, if_neg hne, hnone, Option.map_none]

end BloreOs
