import BloreOs.Str.Digits

/-!
# The smallest `int`

Its negation is itself, so the digit loop of `itoa` starts with a negative number, which becomes a
number just below `2 ^ 64` when it is converted for the division. The quotient is cut to 32 bits.

* `itoa_intMin_of_dvd` — in a base that divides `2 ^ 32 - 1` the part above 32 bits has no
  remainder, and the cut restores the right quotient,
* `itoa_intMin_fails` — in no other base up to 36 the numeral is printed: the loop stops at other
  digits, or at a number that is its own quotient and never stops,
* `itoa_iff` — so this is when `itoa` is right.
-/

namespace BloreOs

open Loop Buffer CharBuffer

variable {b : CharBuffer} {str base n : Nat} {ds : List Nat}

/-! ## After the loop -/

/-- What is printed once the loop has written the digits `ds`. -/
theorem itoa_intMin_of_loop (hlen : ds.length < 2 ^ 32)
    (hloop : loop (signedDigit base str) (2 ^ 64 + 1) (BitVec.intMin 32, 0, b)
      = some (ds.length, b.writeAll str (ds.map (digitChar false)))) :
    ∃ b', itoa (BitVec.intMin 32) b str base = some (ds.length + 1, b') ∧
      Printed b b' str (chr '-' :: (ds.map (digitChar false)).reverse) := by
  have hmsb : (BitVec.intMin 32).msb = true := by decide
  have hneg : -BitVec.intMin 32 = BitVec.intMin 32 := by decide
  have h0 : ¬ BitVec.intMin 32 = 0 := by decide
  have hwrite : (b.writeAll str (ds.map (digitChar false))).write (str + ds.length) (chr '-')
      = b.writeAll str (ds.map (digitChar false) ++ [chr '-']) := by
    rw [writeAll_append, List.length_map]
    rfl
  have hlength : ds.length + 1 = (ds.map (digitChar false) ++ [chr '-']).length := by simp
  have htext : chr '-' :: (ds.map (digitChar false)).reverse
      = (ds.map (digitChar false) ++ [chr '-']).reverse := by
    rw [List.reverse_append]
    rfl
  simp only [itoa, signedToa, hmsb, hneg, if_true, if_neg h0, hloop, Option.map_some]
  rw [hwrite, htext, hlength]
  refine ⟨_, rfl, printed_reverse (by simp) ?_⟩
  rw [← hlength]
  omega

/-- The numeral of the smallest `int`. -/
theorem signedNumeral_intMin (base : Nat) : signedNumeral base (BitVec.intMin 32).toInt =
    chr '-' :: ((Nat.digits base (2 ^ 31)).map (digitChar false)).reverse := by
  have hint : (BitVec.intMin 32).toInt = -2 ^ 31 := by decide
  rw [signedNumeral, hint, if_pos (by decide)]
  rfl

/-! ## Bases that divide `2 ^ 32 - 1` -/

theorem itoa_intMin_of_dvd (hbase : 2 ≤ base) (hdvd : base ∣ 2 ^ 32 - 1) (b : CharBuffer) (str : Nat) :
    ∃ b', itoa (BitVec.intMin 32) b str base
        = some ((signedNumeral base (BitVec.intMin 32).toInt).length, b') ∧
      Printed b b' str (signedNumeral base (BitVec.intMin 32).toInt) := by
  obtain ⟨k, hk⟩ := hdvd
  have hext : ((BitVec.intMin 32).signExtend 64).toNat = 2 ^ 31 + base * (2 ^ 32 * k) := by
    rw [Nat.mul_left_comm, ← hk]
    decide
  have hmod : (2 ^ 31 + base * (2 ^ 32 * k)) % base = 2 ^ 31 % base := Nat.add_mul_mod_self_left ..
  have hdiv : (2 ^ 31 + base * (2 ^ 32 * k)) / base = 2 ^ 31 / base + 2 ^ 32 * k :=
    Nat.add_mul_div_left _ _ (by omega)
  have hcut : BitVec.ofNat 32 (2 ^ 31 / base + 2 ^ 32 * k) = BitVec.ofNat 32 (2 ^ 31 / base) := by
    refine BitVec.eq_of_toNat_eq ?_
    rw [BitVec.toNat_ofNat, BitVec.toNat_ofNat, Nat.add_mul_mod_self_left]
  have hlt : 2 ^ 31 / base < 2 ^ 31 := Nat.div_lt_self (by decide) hbase
  have hstep : signedDigit base str (BitVec.intMin 32, 0, b) =
      .inl (BitVec.ofNat 32 (2 ^ 31 / base), 1, b.write str (digitChar false (2 ^ 31 % base))) := by
    rw [signedDigit, if_neg (show ¬ BitVec.intMin 32 = 0 by decide)]
    simp only [hext, hmod, hdiv, hcut, Nat.add_zero, Nat.zero_add]
  have hdigits : Nat.digits base (2 ^ 31) = 2 ^ 31 % base :: Nat.digits base (2 ^ 31 / base) :=
    Nat.digits_def' hbase (by decide)
  have hloop : loop (signedDigit base str) (2 ^ 64 + 1) (BitVec.intMin 32, 0, b) =
      some ((Nat.digits base (2 ^ 31)).length,
        b.writeAll str ((Nat.digits base (2 ^ 31)).map (digitChar false))) := by
    rw [loop_inl hstep, loop_signedDigit str (by decide) (by decide) hbase (2 ^ 31 / base) _ _ _ _
      (signExtend_ofNat (by decide) (by decide) hlt) hlt.le (by omega), hdigits, List.length_cons,
      List.map_cons, Buffer.writeAll, Nat.add_comm 1]
  have hlen := digitsOf_length_lt (n := 2 ^ 31) hbase (by decide)
  rw [digitsOf, if_neg (by decide)] at hlen
  obtain ⟨b', hb, hprinted⟩ := itoa_intMin_of_loop (by omega) hloop
  rw [signedNumeral_intMin]
  refine ⟨b', ?_, hprinted⟩
  rw [hb, List.length_cons, List.length_reverse, List.length_map]

/-! ## Other bases -/

/-- The number after one iteration of the digit loop. -/
def signedQuotient (base : Nat) (x : BitVec 32) : BitVec 32 :=
  BitVec.ofNat 32 ((x.signExtend 64).toNat / base)

/-- The digits that the loop writes in at most `n` iterations, if it ends. -/
def runDigits (base : Nat) : Nat → BitVec 32 → Option (List Nat)
  | 0, _ => none
  | n + 1, x =>
    if x = 0 then some []
    else (runDigits base n (signedQuotient base x)).map ((x.signExtend 64).toNat % base :: ·)

/-- The numbers that the loop goes through in `n` iterations. -/
def orbit (base : Nat) : Nat → BitVec 32 → List (BitVec 32)
  | 0, _ => []
  | n + 1, x => x :: orbit base n (signedQuotient base x)

/-- The loop writes digits of another number, or it goes in a circle of nonzero numbers. -/
def intMinFails (base : Nat) : Bool :=
  match runDigits base 40 (BitVec.intMin 32) with
  | some ds => Nat.ofDigits base ds != 2 ^ 31
  | none => (orbit base 40 (BitVec.intMin 32)).all fun x =>
      x != 0 && (orbit base 40 (BitVec.intMin 32)).contains (signedQuotient base x)

theorem intMinFails_of_not_dvd : ∀ base < 37, 2 ≤ base → ¬ base ∣ 2 ^ 32 - 1 →
    intMinFails base = true := by
  decide +kernel

theorem signedDigit_of_ne_zero {x : BitVec 32} (hx : x ≠ 0) (str i : Nat) (b : CharBuffer) :
    signedDigit base str (x, i, b) = .inl (signedQuotient base x, i + 1,
      b.write (str + i) (digitChar false ((x.signExtend 64).toNat % base))) := by
  simp only [signedDigit, if_neg hx]
  rfl

theorem loop_of_runDigits (str : Nat) : ∀ (n : Nat) {x : BitVec 32} {i : Nat} {b : CharBuffer}
    {ds : List Nat}, runDigits base n x = some ds →
      loop (signedDigit base str) n (x, i, b)
        = some (i + ds.length, b.writeAll (str + i) (ds.map (digitChar false)))
  | 0, _, _, _, _, h => by cases h
  | n + 1, x, i, b, ds, h => by
    rw [runDigits] at h
    by_cases h0 : x = 0
    · rw [if_pos h0] at h
      cases h
      exact loop_inr (by simp only [signedDigit, h0, if_true]; rfl) n
    · rw [if_neg h0] at h
      obtain ⟨ds', hds', rfl⟩ := Option.map_eq_some_iff.mp h
      rw [loop_inl (signedDigit_of_ne_zero h0 str i b), loop_of_runDigits str n hds', List.length_cons, List.map_cons,
        Buffer.writeAll, Nat.add_assoc i 1, Nat.add_comm 1, Nat.add_assoc str]

theorem runDigits_lt (hbase : 0 < base) : ∀ (n : Nat) {x : BitVec 32} {ds : List Nat},
    runDigits base n x = some ds → ∀ d ∈ ds, d < base
  | 0, _, _, h => by cases h
  | n + 1, x, ds, h => by
    rw [runDigits] at h
    split at h
    · cases h
      exact fun d hd => absurd hd List.not_mem_nil
    · obtain ⟨ds', hds', rfl⟩ := Option.map_eq_some_iff.mp h
      rw [List.forall_mem_cons]
      exact ⟨Nat.mod_lt _ hbase, runDigits_lt hbase n hds'⟩

theorem length_runDigits : ∀ (n : Nat) {x : BitVec 32} {ds : List Nat},
    runDigits base n x = some ds → ds.length < n
  | 0, _, _, h => by cases h
  | n + 1, x, ds, h => by
    rw [runDigits] at h
    split at h
    · cases h
      exact Nat.succ_pos n
    · obtain ⟨ds', hds', rfl⟩ := Option.map_eq_some_iff.mp h
      rw [List.length_cons]
      exact Nat.succ_lt_succ (length_runDigits n hds')

/-- The digit of a character. -/
def digitValue (c : UInt8) : Nat := if c.toNat < 58 then c.toNat - 48 else c.toNat - 87

theorem digitValue_digitChar : ∀ d < 36, digitValue (digitChar false d) = d := by decide

/-- Numerals in bases up to 36 have the digits that they show. -/
theorem digits_eq_of_chars {ds' : List Nat} (h : ∀ d ∈ ds, d < 36) (h' : ∀ d ∈ ds', d < 36)
    (heq : ds.map (digitChar false) = ds'.map (digitChar false)) : ds = ds' := by
  have hback : ∀ l : List Nat, (∀ d ∈ l, d < 36) →
      (l.map (digitChar false)).map digitValue = l := by
    intro l hl
    rw [List.map_map]
    exact (List.map_congr_left fun d hd => digitValue_digitChar d (hl d hd)).trans (List.map_id _)
  rw [← hback ds h, heq, hback ds' h']

/-- **In other bases the numeral is not printed.** -/
theorem itoa_intMin_fails (hbase : 2 ≤ base) (h36 : base ≤ 36) (hdvd : ¬ base ∣ 2 ^ 32 - 1)
    (b : CharBuffer) (str : Nat) :
    ¬ ∃ b', itoa (BitVec.intMin 32) b str base
        = some ((signedNumeral base (BitVec.intMin 32).toInt).length, b') ∧
      Printed b b' str (signedNumeral base (BitVec.intMin 32).toInt) := by
  have hfails := intMinFails_of_not_dvd base (by omega) hbase hdvd
  rw [signedNumeral_intMin]
  rintro ⟨b', hb', hprinted⟩
  unfold intMinFails at hfails
  cases hrun : runDigits base 40 (BitVec.intMin 32) with
  | some ds =>
    -- the loop ends: other digits are printed
    simp only [hrun, bne_iff_ne, ne_eq] at hfails
    have hlen := length_runDigits 40 hrun
    have hloop := loop_mono (loop_of_runDigits str 40 (i := 0) (b := b) hrun)
      (show 40 ≤ 2 ^ 64 + 1 by decide)
    rw [Nat.zero_add, Nat.add_zero] at hloop
    obtain ⟨b'', hb'', hprinted'⟩ := itoa_intMin_of_loop (by omega) hloop
    obtain ⟨hlength, rfl⟩ := Prod.mk.inj (Option.some.inj (hb''.symm.trans hb'))
    have htext := hprinted'.text
    have hlength' : (chr '-' :: (ds.map (digitChar false)).reverse).length
        = (chr '-' :: ((Nat.digits base (2 ^ 31)).map (digitChar false)).reverse).length := by
      rw [← hlength]
      simp
    rw [hlength', hprinted.text, List.cons.injEq, List.reverse_inj] at htext
    have hds := digits_eq_of_chars (fun d hd => (Nat.digits_lt_base hbase hd).trans_le h36)
      (fun d hd => (runDigits_lt (by omega) 40 hrun d hd).trans_le h36) htext.2
    exact hfails (by rw [← hds, Nat.ofDigits_digits])
  | none =>
    -- the loop goes in a circle
    simp only [hrun, List.all_eq_true, Bool.and_eq_true, bne_iff_ne, ne_eq,
      List.contains_iff_mem] at hfails
    have hmem : BitVec.intMin 32 ∈ orbit base 40 (BitVec.intMin 32) := List.mem_cons_self
    have hnone : loop (signedDigit base str) (2 ^ 64 + 1) (BitVec.intMin 32, 0, b) = none := by
      refine loop_eq_none (fun x => x.1 ∈ orbit base 40 (BitVec.intMin 32)) ?_ _ hmem
      rintro ⟨x, i, c⟩ hx
      obtain ⟨hne, hnext⟩ := hfails x hx
      exact ⟨_, signedDigit_of_ne_zero hne str i c, hnext⟩
    have hmsb : (BitVec.intMin 32).msb = true := by decide
    have hneg : -BitVec.intMin 32 = BitVec.intMin 32 := by decide
    have h0 : ¬ BitVec.intMin 32 = 0 := by decide
    simp only [itoa, signedToa, hmsb, hneg, if_true, if_neg h0, hnone, Option.map_none] at hb'
    cases hb'

/--
**When `itoa` prints the numeral.**

For a base from 2 to 36 the digit loop ends and leaves the numeral with its NUL and its length
exactly if the number is not the smallest `int` or the base divides `2 ^ 32 - 1`, as 3, 5, 15 and
17 do.
-/
theorem itoa_iff (num : BitVec 32) (base : Nat) (hbase : 2 ≤ base) (h36 : base ≤ 36)
    (b : CharBuffer) (str : Nat) :
    (∃ b', itoa num b str base = some ((signedNumeral base num.toInt).length, b') ∧
        Printed b b' str (signedNumeral base num.toInt)) ↔
      num ≠ BitVec.intMin 32 ∨ base ∣ 2 ^ 32 - 1 := by
  by_cases hnum : num = BitVec.intMin 32
  · rw [hnum]
    constructor
    · intro h
      right
      by_contra hdvd
      exact itoa_intMin_fails hbase h36 hdvd b str h
    · rintro (h | hdvd)
      · exact absurd rfl h
      · exact itoa_intMin_of_dvd hbase hdvd b str
  · exact iff_of_true (itoa_printed hbase hnum b str) (Or.inl hnum)

/-- In base 3 the smallest `int` is printed. -/
theorem itoa_three : ∃ b', itoa (BitVec.intMin 32) ⟨fun _ => 0, 0⟩ 0 3
      = some ((signedNumeral 3 (BitVec.intMin 32).toInt).length, b') ∧
    Printed ⟨fun _ => 0, 0⟩ b' 0 (signedNumeral 3 (BitVec.intMin 32).toInt) :=
  (itoa_iff (BitVec.intMin 32) 3 (by decide) (by decide) ⟨fun _ => 0, 0⟩ 0).mpr
    (Or.inr (by decide))

/-- In base 10 the loop does not end. -/
theorem itoa_intMin_ten : itoa (BitVec.intMin 32) ⟨fun _ => 0, 0⟩ 0 10 = none := itoa_intMin _ _

end BloreOs
