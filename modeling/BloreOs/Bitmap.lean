import BloreOs.Basic
import BloreOs.Lib.ByteMemory
import BloreOs.Lib.Span

/-!
# The packed bitmap (`bitmap.h`)

A bitmap is a pointer to bytes in memory. The three functions of `bitmap.h` are embedded on the
bytes, and the rest of the development sees them through two kinds of facts only:

* what they do to the bits (`bitmapTest_bitmapOn`, `bitmapTest_bitmapOff` and, for the loops of
  `mem.c`, `bitmapTest_bitmapOnRange` / `bitmapTest_bitmapOffRange`),
* that they touch no byte outside the bitmap (`bitmapOnRange_outside`, `bitmapOffRange_outside`).
-/

namespace BloreOs

/-- `bitmap_test`. -/
def bitmapTest (m : Memory) (bitmap bit : Nat) : Bool :=
  (m (bitmap + bit / 8) &&& (1#8 <<< (bit % 8))) != 0#8

/-- `bitmap_on`. -/
def bitmapOn (m : Memory) (bitmap bit : Nat) : Memory :=
  m.set (bitmap + bit / 8) (m (bitmap + bit / 8) ||| (1#8 <<< (bit % 8)))

/-- `bitmap_off`. -/
def bitmapOff (m : Memory) (bitmap bit : Nat) : Memory :=
  m.set (bitmap + bit / 8) (m (bitmap + bit / 8) &&& ~~~(1#8 <<< (bit % 8)))

/-- `for (i = start; i < stop; i++) bitmap_on(bitmap, i)`. -/
def bitmapOnRange (m : Memory) (bitmap start stop : Nat) : Memory :=
  (List.range' start (stop - start)).foldl (fun m i => bitmapOn m bitmap i) m

/-- `for (i = start; i < stop; i++) bitmap_off(bitmap, i)`. -/
def bitmapOffRange (m : Memory) (bitmap start stop : Nat) : Memory :=
  (List.range' start (stop - start)).foldl (fun m i => bitmapOff m bitmap i) m

/-! ## One byte -/

theorem and_mask_ne_zero (x : BitVec 8) (k : Nat) :
    ((x &&& (1#8 <<< k)) != 0#8) = x.getLsbD k := by
  cases hk : x.getLsbD k with
  | true =>
    rw [bne_iff_ne]
    intro h0
    have hlt : k < 8 := BitVec.lt_of_getLsbD hk
    have hk0 := congrArg (fun y => y.getLsbD k) h0
    rw [BitVec.getLsbD_eq_getElem hlt] at hk
    simp [hlt, hk] at hk0
  | false =>
    rw [bne_eq_false_iff_eq]
    ext i hi
    by_cases hik : i = k
    · subst hik
      simp [← BitVec.getLsbD_eq_getElem, hk]
    · simp only [BitVec.getElem_and, BitVec.getElem_shiftLeft, BitVec.getElem_zero]
      by_cases hlt : i < k
      · simp [hlt]
      · have : i - k ≠ 0 := by omega
        simp [hlt, this]

theorem getLsbD_or_mask (x : BitVec 8) {k : Nat} (hk : k < 8) (j : Nat) :
    (x ||| (1#8 <<< k)).getLsbD j = (x.getLsbD j || decide (j = k)) := by
  rw [BitVec.getLsbD_or, BitVec.getLsbD_shiftLeft, BitVec.getLsbD_one]
  by_cases hjk : j = k
  · subst hjk
    simp [hk]
  · by_cases hlt : j < k
    · simp [hjk, hlt]
    · simp [hjk, show j - k ≠ 0 by omega]

theorem getLsbD_and_not_mask (x : BitVec 8) {k : Nat} (hk : k < 8) (j : Nat) :
    (x &&& ~~~(1#8 <<< k)).getLsbD j = (x.getLsbD j && !decide (j = k)) := by
  rw [BitVec.getLsbD_and, BitVec.getLsbD_not, BitVec.getLsbD_shiftLeft, BitVec.getLsbD_one]
  by_cases hj : j < 8
  · by_cases hjk : j = k
    · subst hjk
      simp [hk]
    · by_cases hlt : j < k
      · simp [hj, hjk, hlt]
      · simp [hj, hjk, show j - k ≠ 0 by omega]
  · have : x.getLsbD j = false := BitVec.getLsbD_of_ge x j (by omega)
    simp [this]

theorem bitmapTest_eq (m : Memory) (bitmap bit : Nat) :
    bitmapTest m bitmap bit = (m (bitmap + bit / 8)).getLsbD (bit % 8) :=
  and_mask_ne_zero _ _

/-! ## One bit -/

theorem bitmapTest_bitmapOn (m : Memory) (bitmap i j : Nat) :
    bitmapTest (bitmapOn m bitmap i) bitmap j = (bitmapTest m bitmap j || decide (j = i)) := by
  simp only [bitmapTest_eq, bitmapOn]
  by_cases hb : j / 8 = i / 8
  · rw [hb, Memory.set_same, getLsbD_or_mask _ (Nat.mod_lt _ (by decide))]
    congr 1
    exact decide_eq_decide.mpr ⟨fun h => by omega, fun h => by rw [h]⟩
  · rw [Memory.set_other (by omega)]
    simp [show j ≠ i from fun h => hb (by rw [h])]

theorem bitmapTest_bitmapOff (m : Memory) (bitmap i j : Nat) :
    bitmapTest (bitmapOff m bitmap i) bitmap j = (bitmapTest m bitmap j && !decide (j = i)) := by
  simp only [bitmapTest_eq, bitmapOff]
  by_cases hb : j / 8 = i / 8
  · rw [hb, Memory.set_same, getLsbD_and_not_mask _ (Nat.mod_lt _ (by decide))]
    congr 2
    exact decide_eq_decide.mpr ⟨fun h => by omega, fun h => by rw [h]⟩
  · rw [Memory.set_other (by omega)]
    simp [show j ≠ i from fun h => hb (by rw [h])]

/-- A bit is read from its own byte. -/
theorem bitmapTest_congr {m m' : Memory} {bitmap bit : Nat}
    (h : m (bitmap + bit / 8) = m' (bitmap + bit / 8)) :
    bitmapTest m bitmap bit = bitmapTest m' bitmap bit := by
  rw [bitmapTest_eq, bitmapTest_eq, h]

/-! ## Ranges of bits -/

theorem bitmapTest_bitmapOnRange (m : Memory) (bitmap start stop j : Nat) :
    bitmapTest (bitmapOnRange m bitmap start stop) bitmap j
      = (bitmapTest m bitmap j || decide (start ≤ j ∧ j < stop)) := by
  unfold bitmapOnRange
  have key : ∀ (n start : Nat) (m : Memory),
      bitmapTest ((List.range' start n).foldl (fun m i => bitmapOn m bitmap i) m) bitmap j
        = (bitmapTest m bitmap j || decide (start ≤ j ∧ j < start + n)) := by
    intro n
    induction n with
    | zero => intro start m; simp [show ¬ (start ≤ j ∧ j < start) by omega]
    | succ n ih =>
      intro start m
      rw [List.range'_succ, List.foldl_cons, ih, bitmapTest_bitmapOn, Bool.or_assoc,
        ← Bool.decide_or]
      congr 1
      exact decide_eq_decide.mpr (by omega)
  rw [key]
  congr 1
  exact decide_eq_decide.mpr (by omega)

theorem bitmapTest_bitmapOffRange (m : Memory) (bitmap start stop j : Nat) :
    bitmapTest (bitmapOffRange m bitmap start stop) bitmap j
      = (bitmapTest m bitmap j && !decide (start ≤ j ∧ j < stop)) := by
  unfold bitmapOffRange
  have key : ∀ (n start : Nat) (m : Memory),
      bitmapTest ((List.range' start n).foldl (fun m i => bitmapOff m bitmap i) m) bitmap j
        = (bitmapTest m bitmap j && !decide (start ≤ j ∧ j < start + n)) := by
    intro n
    induction n with
    | zero => intro start m; simp [show ¬ (start ≤ j ∧ j < start) by omega]
    | succ n ih =>
      intro start m
      rw [List.range'_succ, List.foldl_cons, ih, bitmapTest_bitmapOff, Bool.and_assoc,
        ← Bool.not_or, ← Bool.decide_or]
      congr 2
      exact decide_eq_decide.mpr (by omega)
  rw [key]
  congr 2
  exact decide_eq_decide.mpr (by omega)

/-- A loop over bits `start .. stop - 1` leaves every byte outside theirs alone. -/
theorem foldl_range_outside {f : Memory → Nat → Memory} {bitmap a : Nat}
    (hf : ∀ (m : Memory) (i : Nat), a ≠ bitmap + i / 8 → f m i a = m a) :
    ∀ (n start : Nat) (m : Memory), (∀ i, start ≤ i → i < start + n → a ≠ bitmap + i / 8) →
      (List.range' start n).foldl f m a = m a
  | 0, _, _, _ => rfl
  | n + 1, start, m, h => by
    rw [List.range'_succ, List.foldl_cons,
      foldl_range_outside hf n (start + 1) _ (fun i h1 h2 => h i (by omega) (by omega)),
      hf m start (h start (by omega) (by omega))]

theorem bitmapOnRange_outside {m : Memory} {bitmap start stop a : Nat}
    (h : ∀ i, start ≤ i → i < stop → a ≠ bitmap + i / 8) :
    bitmapOnRange m bitmap start stop a = m a :=
  foldl_range_outside (fun _ _ hi => Memory.set_other hi) _ _ _
    fun i h1 h2 => h i h1 (by omega)

theorem bitmapOffRange_outside {m : Memory} {bitmap start stop a : Nat}
    (h : ∀ i, start ≤ i → i < stop → a ≠ bitmap + i / 8) :
    bitmapOffRange m bitmap start stop a = m a :=
  foldl_range_outside (fun _ _ hi => Memory.set_other hi) _ _ _
    fun i h1 h2 => h i h1 (by omega)

/-- A range of `0xFF` bytes is a range of set bits. -/
theorem bitmapTest_fill_ones {m : Memory} {bitmap n i : Nat} (h : i < 8 * n) :
    bitmapTest (m.fill bitmap n 0xFF) bitmap i = true := by
  rw [bitmapTest_eq, Memory.fill_inside (by omega) (by omega)]
  have h8 : ∀ k, k < 8 → (0xFF : BitVec 8).getLsbD k = true := by decide
  exact h8 _ (Nat.mod_lt _ (by decide))

end BloreOs
