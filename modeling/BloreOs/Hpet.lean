import BloreOs.Lib.Loop
import Mathlib.Tactic.Ring

/-!
# The timer (`hpet.c`)

The HPET counts ticks of a period that the hardware gives in femtoseconds. A sleep computes how many
ticks its milliseconds are, from a frequency that `hpet_init` has rounded down.

* `hpetSleepCounter_returns` — the sleep ends with the first reading that is at least that number,
* `hpetSleep_returns` — the other one with the interrupt that the comparator raises,
* `ticksFor_toNat` — the number, with both divisions and the multiplication in 64 bits,
* `hpet_sleep_enough_iff` — when it is enough.

An `Hpet` holds the registers that the code uses, those of timer 0, and the globals. Where they are
mapped and the redirection of the interrupt are not part of it.
-/

namespace BloreOs

open Loop

/-- The registers, `hpet_frequency` and `_ticks`. -/
structure Hpet where
  capabilities : BitVec 64
  config : BitVec 64
  interruptStatus : BitVec 64
  mainCounter : BitVec 64
  timerConfig : BitVec 64
  timerComp : BitVec 64
  hpetFrequency : BitVec 64
  ticks : BitVec 64
deriving DecidableEq

/-- `FEMTOSECS_PER_SEC` -/
def femtosecsPerSec : BitVec 64 := 1000000000000000

/-- Femtoseconds in a millisecond. -/
def femtosecsPerMs : Nat := 1000000000000

namespace Hpet

/-- `tick_period`, in femtoseconds. -/
def tickPeriod (s : Hpet) : BitVec 32 := (s.capabilities >>> 32).setWidth 32

/-- `hpet_init`. A period of 0 is a division by zero. -/
def hpetInit (s : Hpet) : Option Hpet :=
  if s.tickPeriod = 0 then none
  else
    let s := { s with hpetFrequency := femtosecsPerSec / s.tickPeriod.setWidth 64 }
    -- the input of the I/O APIC, periodic mode and the interrupt
    let s := { s with timerConfig := s.timerConfig ||| 0 <<< 9 ||| 1 <<< 3 ||| 1 <<< 2 }
    some { s with ticks := 0 }

/-- `hpet_disable` -/
def hpetDisable (s : Hpet) : Hpet := { s with config := s.config &&& ~~~1 }

/-- `hpet_enable` -/
def hpetEnable (s : Hpet) : Hpet := { s with config := s.config ||| 1 }

/-- `hpet_reset` -/
def hpetReset (s : Hpet) : Hpet := { s.hpetDisable with ticks := 0 }

/-- `hpet_ack` -/
def hpetAck (s : Hpet) : Hpet := { s with interruptStatus := s.interruptStatus &&& ~~~1 }

/-- `hpet_isr` -/
def hpetIsr (s : Hpet) : Hpet := { s with ticks := s.ticks + 1 }

/-- What `_handle_timer` does to the timer. -/
def handleTimer (s : Hpet) : Hpet := s.hpetIsr.hpetAck

/-- `(hpet_frequency / 1000) * ms` -/
def ticksFor (s : Hpet) (ms : BitVec 64) : BitVec 64 := s.hpetFrequency / 1000 * ms

/-- `hpet_one_shot` -/
def hpetOneShot (s : Hpet) (ms : BitVec 64) : Hpet :=
  let s := s.hpetReset
  let s := { s with mainCounter := 0 }
  let s := { s with timerConfig := s.timerConfig &&& ~~~(1#64 <<< 3) }
  let s := { s with timerComp := s.ticksFor ms }
  let s := { s with timerConfig := s.timerConfig ||| 1 <<< 2 }
  s.hpetEnable

/-- The loop body of `hpet_sleep_counter`, at the `k`-th reading of the main counter. -/
def waitBody (counter : Nat → BitVec 64) (limit : BitVec 64) (k : Nat) : Nat ⊕ Nat :=
  if counter k < limit then .inl (k + 1) else .inr k

/-- `hpet_sleep_counter`, with at most `n` readings of the main counter. It returns the number of the
last one as well. -/
def hpetSleepCounter (counter : Nat → BitVec 64) (n : Nat) (ms : BitVec 64) (s : Hpet) :
    Option (Hpet × Nat) :=
  let s := s.hpetDisable
  let s := { s with timerConfig := s.timerConfig &&& ~~~(1#64 <<< 2) }
  let s := { s with mainCounter := 0 }
  let limit := s.ticksFor ms
  let s := s.hpetEnable
  (loop (waitBody counter limit) n 0).map fun k =>
    (({ s with mainCounter := counter k } : Hpet).hpetDisable, k)

/-- The loop body of `hpet_sleep`. `fires k` says whether the interrupt comes in front of reading `k`
of `_ticks`. -/
def sleepBody (fires : Nat → Bool) (x : Nat × Hpet) : Nat × Hpet ⊕ Nat × Hpet :=
  let s := if fires x.1 then x.2.handleTimer else x.2
  if s.ticks = 0 then .inl (x.1 + 1, s) else .inr (x.1, s)

/-- `hpet_sleep`, with at most `n` readings of `_ticks`. -/
def hpetSleep (fires : Nat → Bool) (n : Nat) (ms : BitVec 64) (s : Hpet) : Option (Hpet × Nat) :=
  (loop (sleepBody fires) n (0, s.hpetOneShot ms)).map fun r => (r.2.hpetDisable, r.1)

/-- **A number of ticks that is at least `ms` milliseconds.** -/
def Enough (s : Hpet) (ms ticks : BitVec 64) : Prop :=
  ms.toNat * femtosecsPerMs ≤ ticks.toNat * s.tickPeriod.toNat

instance (s : Hpet) (ms ticks : BitVec 64) : Decidable (s.Enough ms ticks) :=
  inferInstanceAs (Decidable (_ ≤ _))

end Hpet

variable {s t : Hpet} {counter : Nat → BitVec 64} {limit ms : BitVec 64} {k n : Nat}

/-! ## The end of a sleep -/

/-- The first reading that is not below the limit. -/
def FirstReading (counter : Nat → BitVec 64) (limit : BitVec 64) (k : Nat) : Prop :=
  limit ≤ counter k ∧ ∀ j < k, counter j < limit

/-- One reading. -/
theorem waitBody_cases (counter : Nat → BitVec 64) (limit : BitVec 64) (k : Nat) :
    (counter k < limit ∧ Hpet.waitBody counter limit k = .inl (k + 1)) ∨
      (limit ≤ counter k ∧ Hpet.waitBody counter limit k = .inr k) := by
  by_cases hlt : counter k < limit
  · exact Or.inl ⟨hlt, if_pos hlt⟩
  · exact Or.inr ⟨BitVec.not_lt.mp hlt, if_neg hlt⟩

theorem loop_waitBody (hk : FirstReading counter limit k) (hn : k < n) :
    loop (Hpet.waitBody counter limit) n 0 = some k := by
  suffices hloop : ∃ b, loop (Hpet.waitBody counter limit) n 0 = some b ∧ b = k by
    obtain ⟨b, hb, rfl⟩ := hloop
    exact hb
  refine loop_of_measure (fun i => i ≤ k) (fun i => k + 1 - i) (· = k) (fun i j hi hbody => ?_)
    (fun i b hi hbody => ?_) n 0 (Nat.zero_le k) hn
  · rcases waitBody_cases counter limit i with ⟨hlt, h⟩ | ⟨-, h⟩
    · rw [h] at hbody
      cases hbody
      have hne : i ≠ k := fun heq => absurd (heq ▸ hlt) (BitVec.not_lt.mpr hk.1)
      omega
    · rw [h] at hbody
      cases hbody
  · rcases waitBody_cases counter limit i with ⟨-, h⟩ | ⟨hge, h⟩
    · rw [h] at hbody
      cases hbody
    · rw [h] at hbody
      cases hbody
      have hnot : ¬ i < k := fun hlt => absurd (hk.2 i hlt) (BitVec.not_lt.mpr hge)
      omega

/-- It is left at no other reading. -/
theorem firstReading_of_loop (h : loop (Hpet.waitBody counter limit) n 0 = some k) :
    FirstReading counter limit k := by
  refine loop_invariant (fun i => ∀ j < i, counter j < limit) _ ?_ ?_ n ?_ h
  · intro i k hI hbody
    rcases waitBody_cases counter limit i with ⟨hlt, h⟩ | ⟨-, h⟩
    · rw [h] at hbody
      cases hbody
      intro j hj
      rcases Nat.lt_succ_iff_lt_or_eq.mp hj with hj | rfl
      · exact hI j hj
      · exact hlt
    · rw [h] at hbody
      cases hbody
  · intro i b hI hbody
    rcases waitBody_cases counter limit i with ⟨-, h⟩ | ⟨hge, h⟩
    · rw [h] at hbody
      cases hbody
    · rw [h] at hbody
      cases hbody
      exact ⟨hge, hI⟩
  · exact fun j hj => absurd hj (Nat.not_lt_zero j)

/-- **The sleep ends** with the first reading that is at least the number of ticks. -/
theorem hpetSleepCounter_returns (s : Hpet) (hk : FirstReading counter (s.ticksFor ms) k)
    (hn : k < n) : ∃ t, s.hpetSleepCounter counter n ms = some (t, k) ∧ t.mainCounter = counter k :=
  ⟨_, congrArg (Option.map _) (loop_waitBody hk hn), rfl⟩

theorem hpetSleepCounter_first (h : s.hpetSleepCounter counter n ms = some (t, k)) :
    FirstReading counter (s.ticksFor ms) k := by
  obtain ⟨i, hi, heq⟩ := Option.map_eq_some_iff.mp h
  obtain rfl : i = k := congrArg Prod.snd heq
  exact firstReading_of_loop hi

/-- **`hpet_sleep` ends with the first interrupt**: the readings of `_ticks` in front of it see the 0
of `hpet_reset`. -/
theorem hpetSleep_returns (s : Hpet) (ms : BitVec 64) {fires : Nat → Bool} (hfires : fires k = true)
    (hquiet : ∀ j < k, fires j = false) (hn : k < n) :
    s.hpetSleep fires n ms = some ((s.hpetOneShot ms).handleTimer.hpetDisable, k) := by
  have hzero : (s.hpetOneShot ms).ticks = 0 := rfl
  have hone : ¬ (s.hpetOneShot ms).handleTimer.ticks = 0 := by
    show ¬ (0 : BitVec 64) + 1 = 0
    decide
  -- induction on the readings in front of the interrupt
  have key : ∀ m j, j + m = k → ∀ n, m < n → loop (Hpet.sleepBody fires) n (j, s.hpetOneShot ms)
      = some (k, (s.hpetOneShot ms).handleTimer) := by
    intro m
    induction m with
    | zero =>
      rintro j rfl n hn
      obtain ⟨n, rfl⟩ := Nat.exists_eq_add_one_of_ne_zero (by omega : n ≠ 0)
      refine loop_inr ?_ n
      simp only [Hpet.sleepBody, Nat.add_zero] at hfires ⊢
      rw [if_pos hfires, if_neg hone]
    | succ m ih =>
      intro j hj n hn
      obtain ⟨n, rfl⟩ := Nat.exists_eq_add_one_of_ne_zero (by omega : n ≠ 0)
      have hstep : Hpet.sleepBody fires (j, s.hpetOneShot ms)
          = .inl (j + 1, s.hpetOneShot ms) := by
        have hno : ¬ fires j = true := by
          rw [hquiet j (by omega)]
          exact Bool.false_ne_true
        simp only [Hpet.sleepBody]
        rw [if_neg hno, if_pos hzero]
      rw [loop_inl hstep]
      exact ih (j + 1) (by omega) n (by omega)
  exact congrArg (Option.map _) (key k 0 (Nat.zero_add k) n hn)

/-! ## The number of ticks -/

theorem hpetInit_eq (hp : s.tickPeriod ≠ 0) : ∃ t, s.hpetInit = some t ∧
    t.hpetFrequency = femtosecsPerSec / s.tickPeriod.setWidth 64 ∧ t.tickPeriod = s.tickPeriod :=
  ⟨_, if_neg hp, rfl, rfl⟩

/-- **The number of ticks**: both divisions round down at once, and the product may wrap. -/
theorem ticksFor_toNat (hf : t.hpetFrequency = femtosecsPerSec / t.tickPeriod.setWidth 64) :
    (t.ticksFor ms).toNat = femtosecsPerMs / t.tickPeriod.toNat * ms.toNat % 2 ^ 64 := by
  have hwide : (t.tickPeriod.setWidth 64).toNat = t.tickPeriod.toNat := by
    rw [BitVec.toNat_setWidth]
    omega
  have hdiv : (t.hpetFrequency / 1000).toNat = femtosecsPerMs / t.tickPeriod.toNat := by
    rw [hf, BitVec.toNat_udiv, BitVec.toNat_udiv, hwide, Nat.div_div_eq_div_mul, Nat.mul_comm,
      ← Nat.div_div_eq_div_mul]
    rfl
  rw [Hpet.ticksFor, BitVec.toNat_mul, hdiv]

/-- **When a product of a rounded quotient is enough**: the division leaves no rest, and the product
is not cut. -/
theorem enough_iff {a p m w : Nat} (hp : 0 < p) (hw : 0 < w) :
    m * a ≤ a / p * m % w * p ↔ m = 0 ∨ p ∣ a ∧ a / p * m < w := by
  rcases Nat.eq_zero_or_pos m with rfl | hm
  · simp
  have hround : a / p * p ≤ a := Nat.div_mul_le_self a p
  constructor
  · intro hle
    refine Or.inr ⟨?_, ?_⟩
    · have hcut : a / p * m % w * p ≤ a / p * m * p := Nat.mul_le_mul_right p (Nat.mod_le _ w)
      have hall : m * a ≤ m * (a / p * p) := by
        calc m * a ≤ a / p * m * p := hle.trans hcut
          _ = m * (a / p * p) := by ring
      have heq : a / p * p = a := le_antisymm hround (Nat.le_of_mul_le_mul_left hall hm)
      exact ⟨a / p, by rw [mul_comm, heq]⟩
    · by_contra hge
      -- a product that is cut is smaller than what the quotient alone would need
      have hlt : a / p * m % w < a / p * m := (Nat.mod_lt _ hw).trans_le (Nat.le_of_not_lt hge)
      have hless : m * a < m * a := by
        calc m * a ≤ a / p * m % w * p := hle
          _ < a / p * m * p := Nat.mul_lt_mul_of_pos_right hlt hp
          _ = m * (a / p * p) := by ring
          _ ≤ m * a := Nat.mul_le_mul_left m hround
      exact absurd hless (lt_irrefl _)
  · rintro (rfl | ⟨hdvd, hfits⟩)
    · simp
    · rw [Nat.mod_eq_of_lt hfits, mul_right_comm, Nat.div_mul_cancel hdvd, mul_comm]

/--
**When a sleep is not short.**

For every period that is not 0 and every number of milliseconds, after `hpet_init`: the number of
ticks that `hpet_sleep_counter` waits for and that `hpet_one_shot` writes to the comparator is at
least `ms` milliseconds exactly if `ms` is 0, or the period divides a millisecond and the number of
ticks has 64 bits.
-/
theorem hpet_sleep_enough_iff (s : Hpet) (hp : s.tickPeriod ≠ 0) (ms : BitVec 64) :
    ∃ t, s.hpetInit = some t ∧ t.tickPeriod = s.tickPeriod ∧
      (t.hpetOneShot ms).timerComp = t.ticksFor ms ∧
      (∀ counter n u k, t.hpetSleepCounter counter n ms = some (u, k) →
        FirstReading counter (t.ticksFor ms) k) ∧
      (t.Enough ms (t.ticksFor ms) ↔ ms.toNat = 0 ∨ s.tickPeriod.toNat ∣ femtosecsPerMs ∧
        femtosecsPerMs / s.tickPeriod.toNat * ms.toNat < 2 ^ 64) := by
  obtain ⟨t, hinit, hf, hperiod⟩ := hpetInit_eq hp
  have hpos : 0 < s.tickPeriod.toNat := Nat.pos_of_ne_zero fun h0 => hp (BitVec.eq_of_toNat_eq h0)
  refine ⟨t, hinit, hperiod, rfl, fun _ _ _ _ h => hpetSleepCounter_first h, ?_⟩
  rw [← hperiod] at hf hpos ⊢
  rw [Hpet.Enough, ticksFor_toNat hf]
  exact enough_iff hpos (Nat.two_pow_pos 64)

/-- The registers of an HPET with a tick period. -/
def sampleHpet (period : BitVec 32) : Hpet where
  capabilities := period ++ 0x8086a201#32
  config := 0
  interruptStatus := 0
  mainCounter := 0
  timerConfig := 0
  timerComp := 0
  hpetFrequency := 0
  ticks := 0

/-- A period of 10 nanoseconds divides a millisecond. -/
theorem hpet_sleep_enough_sample : ∃ t, (sampleHpet 10000000).hpetInit = some t ∧
    t.Enough 100 (t.ticksFor 100) := by
  obtain ⟨t, hinit, -, -, -, hiff⟩ := hpet_sleep_enough_iff (sampleHpet 10000000) (by decide) 100
  exact ⟨t, hinit, hiff.mpr (by decide)⟩

/-- 14.318 MHz: 100 ms are more than 1431817 ticks, and the code waits for 1431800. -/
theorem hpet_sleep_short_sample : ∃ t, (sampleHpet 69841279).hpetInit = some t ∧
    t.ticksFor 100 = 1431800 ∧ (t.hpetOneShot 100).timerComp = 1431800 ∧
    ¬ t.Enough 100 (t.ticksFor 100) :=
  ⟨_, rfl, by decide, by decide, by decide⟩

end BloreOs
