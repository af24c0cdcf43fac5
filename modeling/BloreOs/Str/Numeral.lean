import BloreOs.Str.Digits

/-!
# Reading numerals back

What the conversions print is a numeral: reading it gives the number.

* `readNumeral_numeral`, `readNumeral_paddedNumeral` — numerals read back, also with zeros in front,
* `numeral_noLeadingZero`, `length_paddedNumeral` — their form,
* `upperCase_numeral` — the upper-case numeral is the same text in upper case,
* `ultoa_round_trip` — so this is what `__ultoa`, `__ultoua` and `ltoa` print.
-/

namespace BloreOs

open Buffer CharBuffer

variable {upper : Bool} {base n v d w : Nat} {ds : List Nat} {cs cs' : List UInt8}

/-! ## Reading -/

/-- The digit that a character shows, in lower or upper case. -/
def digitOfChar (c : UInt8) : Option Nat :=
  if 48 ≤ c.toNat ∧ c.toNat < 58 then some (c.toNat - 48)
  else if 97 ≤ c.toNat ∧ c.toNat < 123 then some (c.toNat - 97 + 10)
  else if 65 ≤ c.toNat ∧ c.toNat < 91 then some (c.toNat - 65 + 10)
  else none

/-- Read on, with the number `v` that has been read. -/
def readDigits (base : Nat) : Nat → List UInt8 → Option Nat
  | v, [] => some v
  | v, c :: cs => (digitOfChar c).bind fun d =>
    if d < base then readDigits base (v * base + d) cs else none

/-- The number that a numeral shows. -/
def readNumeral (base : Nat) (cs : List UInt8) : Option Nat :=
  if cs = [] then none else readDigits base 0 cs

/-- A zero in front only if it is the whole numeral. -/
def NoLeadingZero (cs : List UInt8) : Prop := cs.head? = some (chr '0') → cs = [chr '0']

/-- The letters of a text in upper case. -/
def upperCase (cs : List UInt8) : List UInt8 :=
  cs.map fun c => if 97 ≤ c.toNat ∧ c.toNat < 123 then c - 32 else c

/-! ## Digits -/

theorem digitOfChar_digitChar (upper : Bool) (hd : d < 36) :
    digitOfChar (digitChar upper d) = some d := by
  have hall : ∀ upper, ∀ d < 36, digitOfChar (digitChar upper d) = some d := by decide
  exact hall upper d hd

theorem digitChar_eq_zero (hd : d < 36) (h : digitChar upper d = chr '0') : d = 0 := by
  have hall : ∀ upper, ∀ d < 36, digitChar upper d = chr '0' → d = 0 := by decide
  exact hall upper d hd h

theorem upperCase_digitChar (hd : d < 36) :
    (if 97 ≤ (digitChar false d).toNat ∧ (digitChar false d).toNat < 123 then digitChar false d - 32
      else digitChar false d) = digitChar true d := by
  have hall : ∀ d < 36, (if 97 ≤ (digitChar false d).toNat ∧ (digitChar false d).toNat < 123 then
      digitChar false d - 32 else digitChar false d) = digitChar true d := by decide
  exact hall d hd

theorem lt_of_mem_digitsOf (hbase : 2 ≤ base) (hd : d ∈ digitsOf base n) : d < base := by
  unfold digitsOf at hd
  split at hd
  · rw [List.mem_singleton] at hd
    omega
  · exact Nat.digits_lt_base hbase hd

theorem ofDigits_digitsOf (base n : Nat) : Nat.ofDigits base (digitsOf base n) = n := by
  unfold digitsOf
  split
  · next h0 => rw [h0, Nat.ofDigits_singleton]
  · exact Nat.ofDigits_digits base n

/-! ## Numerals -/

theorem readDigits_append : ∀ (cs : List UInt8) {v : Nat}, readDigits base v (cs ++ cs')
    = (readDigits base v cs).bind fun v => readDigits base v cs'
  | [], _ => rfl
  | c :: cs, v => by
    rw [List.cons_append, readDigits, readDigits]
    cases digitOfChar c with
    | none => rfl
    | some d =>
      rw [Option.bind_some, Option.bind_some]
      split
      · exact readDigits_append cs
      · rfl

/-- **Digits read back.** The last one has been written first. -/
theorem readDigits_reverse (upper : Bool) (h36 : base ≤ 36) (v : Nat) :
    ∀ (ds : List Nat), (∀ d ∈ ds, d < base) → readDigits base v (ds.map (digitChar upper)).reverse
      = some (v * base ^ ds.length + Nat.ofDigits base ds)
  | [], _ => by rw [List.length_nil, Nat.pow_zero, Nat.mul_one]; rfl
  | d :: ds, hds => by
    have hd : d < base := hds d (List.mem_cons_self ..)
    have ih := readDigits_reverse upper h36 v ds fun e he => hds e (List.mem_cons_of_mem d he)
    rw [List.map_cons, List.reverse_cons, readDigits_append, ih, Option.bind_some, readDigits,
      digitOfChar_digitChar upper (hd.trans_le h36), Option.bind_some, if_pos hd, readDigits,
      List.length_cons, Nat.pow_succ, Nat.ofDigits_cons]
    refine congrArg some ?_
    ring

theorem numeral_ne_nil (upper : Bool) (base n : Nat) : numeral upper base n ≠ [] := by
  rw [numeral, Ne, List.reverse_eq_nil_iff, List.map_eq_nil_iff]
  exact digitsOf_ne_nil base n

theorem readDigits_numeral (upper : Bool) (hbase : 2 ≤ base) (h36 : base ≤ 36) (n : Nat) :
    readDigits base 0 (numeral upper base n) = some n := by
  rw [numeral, readDigits_reverse upper h36 0 _ fun d hd => lt_of_mem_digitsOf hbase hd,
    ofDigits_digitsOf, Nat.zero_mul, Nat.zero_add]

/-- **A numeral reads back.** -/
theorem readNumeral_numeral (upper : Bool) (hbase : 2 ≤ base) (h36 : base ≤ 36) (n : Nat) :
    readNumeral base (numeral upper base n) = some n := by
  rw [readNumeral, if_neg (numeral_ne_nil upper base n), readDigits_numeral upper hbase h36]

theorem readDigits_zeros (hbase : 2 ≤ base) : ∀ k : Nat,
    readDigits base 0 (List.replicate k (chr '0')) = some 0
  | 0 => rfl
  | k + 1 => by
    have hzero : digitOfChar (chr '0') = some 0 := by decide
    rw [List.replicate_succ, readDigits, hzero, Option.bind_some, if_pos (by omega), Nat.zero_mul]
    exact readDigits_zeros hbase k

/-- Zeros in front do not matter. -/
theorem readNumeral_paddedNumeral (upper : Bool) (hbase : 2 ≤ base) (h36 : base ≤ 36) (w n : Nat) :
    readNumeral base (paddedNumeral upper base w n) = some n := by
  have hne : paddedNumeral upper base w n ≠ [] := fun h =>
    numeral_ne_nil upper base n (List.append_eq_nil_iff.mp h).2
  rw [readNumeral, if_neg hne, paddedNumeral, readDigits_append, readDigits_zeros hbase,
    Option.bind_some, readDigits_numeral upper hbase h36]

/-- **A numeral has no zero in front**, apart from the numeral of 0. -/
theorem numeral_noLeadingZero (hbase : 2 ≤ base) (h36 : base ≤ 36) (n : Nat) :
    NoLeadingZero (numeral upper base n) := by
  intro hhead
  by_cases h0 : n = 0
  · rw [h0, numeral, digitsOf, if_pos rfl]
    cases upper <;> rfl
  · rw [numeral, List.head?_reverse, List.getLast?_map, digitsOf, if_neg h0,
      List.getLast?_eq_some_getLast (Nat.digits_ne_nil_iff_ne_zero.mpr h0), Option.map_some,
      Option.some.injEq] at hhead
    have hlast : (Nat.digits base n).getLast (Nat.digits_ne_nil_iff_ne_zero.mpr h0) < base :=
      Nat.digits_lt_base hbase (List.getLast_mem _)
    exact absurd (digitChar_eq_zero (hlast.trans_le h36) hhead) (Nat.getLast_digit_ne_zero base h0)

theorem length_numeral (upper : Bool) (base n : Nat) :
    (numeral upper base n).length = (digitsOf base n).length := by
  rw [numeral, List.length_reverse, List.length_map]

/-- A number of 64 bits has at most 16 hexadecimal digits. -/
theorem length_digitsOf_16 (hn : n < 2 ^ 64) : (digitsOf 16 n).length ≤ 16 := by
  unfold digitsOf
  split
  · decide
  · next h0 =>
    rw [Nat.length_digits 16 n (by decide) h0]
    have hlog : Nat.log 16 n < 16 := Nat.log_lt_of_lt_pow h0 hn
    omega

theorem length_paddedNumeral (upper : Bool) (hn : n < 2 ^ 64) :
    (paddedNumeral upper 16 16 n).length = 16 := by
  have hlen := length_digitsOf_16 hn
  rw [paddedNumeral, List.length_append, List.length_replicate, length_numeral]
  omega

/-- **The same text in upper case.** -/
theorem upperCase_numeral (hbase : 2 ≤ base) (h36 : base ≤ 36) (n : Nat) :
    upperCase (numeral false base n) = numeral true base n := by
  rw [upperCase, numeral, numeral, List.map_reverse, List.map_map]
  refine congrArg List.reverse (List.map_congr_left fun d hd => ?_)
  exact upperCase_digitChar ((lt_of_mem_digitsOf hbase hd).trans_le h36)

theorem upperCase_paddedNumeral (hbase : 2 ≤ base) (h36 : base ≤ 36) (w n : Nat) :
    upperCase (paddedNumeral false base w n) = paddedNumeral true base w n := by
  have hzero : (if 97 ≤ (chr '0').toNat ∧ (chr '0').toNat < 123 then chr '0' - 32 else chr '0')
      = chr '0' := by decide
  rw [paddedNumeral, paddedNumeral, ← upperCase_numeral hbase h36, upperCase, List.map_append,
    List.map_replicate, hzero]
  rfl

/-! ## The conversions of 64 bits -/

/-- The text that `__ultoa` and `__ultoua` print. -/
def ultoaText (upper : Bool) (base n : Nat) : List UInt8 :=
  if base = 16 then paddedNumeral upper 16 16 n else numeral upper base n

theorem readNumeral_ultoaText (upper : Bool) (hbase : 2 ≤ base) (h36 : base ≤ 36) (n : Nat) :
    readNumeral base (ultoaText upper base n) = some n := by
  rw [ultoaText]
  split
  · next h16 => rw [h16, readNumeral_paddedNumeral upper (by decide) (by decide)]
  · exact readNumeral_numeral upper hbase h36 n

theorem upperCase_ultoaText (hbase : 2 ≤ base) (h36 : base ≤ 36) (n : Nat) :
    upperCase (ultoaText false base n) = ultoaText true base n := by
  rw [ultoaText, ultoaText]
  split
  · exact upperCase_paddedNumeral (by decide) (by decide) 16 n
  · exact upperCase_numeral hbase h36 n

/--
**Printing 64-bit numbers and reading them back.**

For every base from 2 to 36 and wherever in a buffer the text goes: `__ultoa` prints a numeral of its
argument with a NUL behind it and returns the length, with 16 digits in base 16 and without a zero
in front in the others. `__ultoua` prints the same text in upper case. `ltoa` prints the numeral of
the absolute value, with a minus sign if its argument is negative.
-/
theorem ultoa_round_trip (hbase : 2 ≤ base) (h36 : base ≤ 36) (b : CharBuffer) (str : Nat) :
    (∀ num : BitVec 64, ∃ text b₁ b₂,
      (ultoa num b str base = some (text.length, b₁) ∧ Printed b b₁ str text) ∧
      (readNumeral base text = some num.toNat ∧ (base ≠ 16 → NoLeadingZero text) ∧
        (base = 16 → text.length = 16)) ∧
      (ultoua num b str base = some (text.length, b₂) ∧ Printed b b₂ str (upperCase text))) ∧
    ∀ num : BitVec 64, ∃ digits b', readNumeral base digits = some num.toInt.natAbs ∧
      NoLeadingZero digits ∧
      ∃ text, text = (if num.toInt < 0 then [chr '-'] else []) ++ digits ∧
        ltoa num b str base = some (text.length, b') ∧ Printed b b' str text := by
  constructor
  · intro num
    obtain ⟨b₁, hret₁, hprinted₁⟩ := unsignedToa_printed false num b str hbase
    obtain ⟨b₂, hret₂, hprinted₂⟩ := unsignedToa_printed true num b str hbase
    have hupper := upperCase_ultoaText hbase h36 num.toNat
    have hlength : (ultoaText true base num.toNat).length
        = (ultoaText false base num.toNat).length := by
      rw [← hupper, upperCase, List.length_map]
    refine ⟨ultoaText false base num.toNat, b₁, b₂, ⟨hret₁, hprinted₁⟩, ⟨?_, ?_, ?_⟩, ?_, ?_⟩
    · exact readNumeral_ultoaText false hbase h36 num.toNat
    · intro h16
      rw [ultoaText, if_neg h16]
      exact numeral_noLeadingZero hbase h36 num.toNat
    · intro h16
      rw [ultoaText, if_pos h16]
      exact length_paddedNumeral false num.isLt
    · rw [← hlength]
      exact hret₂
    · rw [hupper]
      exact hprinted₂
  · intro num
    obtain ⟨b', hret, hprinted⟩ := ltoa_printed hbase num b str
    exact ⟨numeral false base num.toInt.natAbs, b', readNumeral_numeral false hbase h36 _,
      numeral_noLeadingZero hbase h36 _, signedNumeral base num.toInt, rfl, hret, hprinted⟩

/-- The smallest `int64_t`. -/
theorem ultoa_round_trip_intMin : ∃ digits b', readNumeral 10 digits = some (2 ^ 63) ∧
    ltoa (BitVec.intMin 64) ⟨fun _ => 0, 0⟩ 0 10 = some ((chr '-' :: digits).length, b') ∧
    Printed ⟨fun _ => 0, 0⟩ b' 0 (chr '-' :: digits) := by
  have hround := ultoa_round_trip (show 2 ≤ 10 by decide) (show 10 ≤ 36 by decide) ⟨fun _ => 0, 0⟩ 0
  obtain ⟨digits, b', hread, -, text, rfl, hret, hprinted⟩ := hround.2 (BitVec.intMin 64)
  exact ⟨digits, b', hread, hret, hprinted⟩

end BloreOs
