import BloreOs.Idt
import Mathlib.Logic.Function.Iterate

/-!
# The timer of the local APIC (`lapic.c`)

`lapic_timer_init` lets the timer count down during a sleep of 100 ms, multiplies the count by 10, and
starts the timer again with that as its period. The chip counts on its own: any number of ticks may pass
between two accesses of the driver.

* `ticks_oneShot`, `ticks_periodic` — the timer after any number of ticks,
* `lapicInit_timer` — how often the interrupt of the timer comes after `lapic_init`, and what becomes of
  a spurious one.

`hpet_sleep_counter` is a number of ticks here. Its own length is in `Hpet.lean`, the identification of
the CPU and the log are left out.
-/

namespace BloreOs

/-! ## The chip -/

/-- The registers that `lapic_init` uses. `fired` are the vectors of the timer's interrupts. -/
structure Lapic where
  spurious : BitVec 32
  lvtTmr : BitVec 32
  initCount : BitVec 32
  currCount : BitVec 32
  tmrDiv : BitVec 32
  fired : List (BitVec 8)

/-- `LAPIC_SPURIOUS` -/
def lapicSpurious : BitVec 32 := 0xF0

/-- `LAPIC_LVT_TMR` -/
def lapicLvtTmr : BitVec 32 := 0x320

/-- `LAPIC_TMRINITCNT` -/
def lapicTmrinitcnt : BitVec 32 := 0x380

/-- `LAPIC_TMRCURRCNT` -/
def lapicTmrcurrcnt : BitVec 32 := 0x390

/-- `LAPIC_TMRDIV` -/
def lapicTmrdiv : BitVec 32 := 0x3E0

/-- `LAPIC_DISABLE`, which masks an interrupt. -/
def lapicDisable : BitVec 32 := 0x10000

/-- `LAPIC_SW_ENABLE` -/
def lapicSwEnable : BitVec 32 := 0x100

/-- `TMR_PERIODC` -/
def tmrPeriodc : BitVec 32 := 0x20000

namespace Lapic

def masked (s : Lapic) : Bool := s.lvtTmr.getLsbD 16

def periodic (s : Lapic) : Bool := s.lvtTmr.getLsbD 17

/-- One tick. The count stops at 0, and a periodic timer goes on from its initial count at once. -/
def tick (s : Lapic) : Lapic :=
  if s.currCount = 0 then s
  else if s.currCount = 1 then
    { s with
      currCount := if s.periodic then s.initCount else 0
      fired := if s.masked then s.fired else s.fired ++ [s.lvtTmr.setWidth 8] }
  else { s with currCount := s.currCount - 1 }

/-- The chip between two accesses. -/
def ticks (n : Nat) (s : Lapic) : Lapic := tick^[n] s

end Lapic

/-- `lapic_read` -/
def lapicRead (offset : BitVec 32) (s : Lapic) : BitVec 32 :=
  if offset = lapicSpurious then s.spurious
  else if offset = lapicTmrcurrcnt then s.currCount
  else 0

/-- `lapic_write`. Writing the initial count starts the timer. -/
def lapicWrite (offset val : BitVec 32) (s : Lapic) : Lapic :=
  if offset = lapicSpurious then { s with spurious := val }
  else if offset = lapicLvtTmr then { s with lvtTmr := val }
  else if offset = lapicTmrinitcnt then { s with initCount := val, currCount := val }
  else if offset = lapicTmrdiv then { s with tmrDiv := val }
  else s

/-! ## The functions -/

/-- How many ticks pass after each of the accesses. -/
structure Gaps where
  afterSpurious : Nat
  afterDiv : Nat
  inStop : Nat
  afterStop : Nat
  /-- The sleep. -/
  sleep : Nat
  afterRead : Nat
  inStop' : Nat
  afterStop' : Nat
  beforeLvt : Nat

/-- `lapic_time_stop` -/
def lapicTimeStop (gap : Nat) (s : Lapic) : Lapic :=
  let s := lapicWrite lapicTmrinitcnt 0 s
  lapicWrite lapicLvtTmr lapicDisable (s.ticks gap)

/-- `lapic_timer_init` -/
def lapicTimerInit (g : Gaps) (s : Lapic) : Lapic :=
  let s := (lapicWrite lapicTmrdiv 0 s).ticks g.afterDiv
  let s := (lapicTimeStop g.inStop s).ticks g.afterStop
  let s := lapicWrite lapicTmrinitcnt 0xFFFFFFFF s
  let s := s.ticks g.sleep
  let ticksin100ms := 0xFFFFFFFF - lapicRead lapicTmrcurrcnt s
  let s := s.ticks g.afterRead
  let s := (lapicTimeStop g.inStop' s).ticks g.afterStop'
  let s := lapicWrite lapicTmrinitcnt (ticksin100ms * 10) s
  let s := s.ticks g.beforeLvt
  lapicWrite lapicLvtTmr (BitVec.ofNat 32 lapictmrVector ||| tmrPeriodc) s

/-- `lapic_init`, with interrupts disabled. -/
def lapicInit (g : Gaps) (s : Lapic) : Lapic :=
  let s := lapicWrite lapicSpurious (lapicRead lapicSpurious s ||| 0xFF ||| lapicSwEnable) s
  lapicTimerInit g (s.ticks g.afterSpurious)

/-! ## Ticks -/

variable {s : Lapic} {n : Nat}

theorem ticks_succ (n : Nat) (s : Lapic) : s.ticks (n + 1) = (s.ticks n).tick :=
  Function.iterate_succ_apply' _ _ _

/-- A timer at 0 stays there. -/
theorem ticks_stopped (h : s.currCount = 0) (n : Nat) : s.ticks n = s := by
  induction n with
  | zero => rfl
  | succ n ih => rw [ticks_succ, ih, Lapic.tick, if_pos h]

/-- One tick, by the count. -/
theorem tick_cases (s : Lapic) : (s.currCount.toNat = 0 ∧ s.tick = s) ∨
    (s.currCount.toNat = 1 ∧ s.tick = { s with
      currCount := if s.periodic then s.initCount else 0
      fired := if s.masked then s.fired else s.fired ++ [s.lvtTmr.setWidth 8] }) ∨
    (2 ≤ s.currCount.toNat ∧ s.tick = { s with currCount := BitVec.ofNat 32 (s.currCount.toNat - 1) }) := by
  unfold Lapic.tick
  by_cases h0 : s.currCount = 0
  · exact Or.inl ⟨by rw [h0]; rfl, if_pos h0⟩
  · have hne0 : s.currCount.toNat ≠ 0 := fun h => h0 (BitVec.eq_of_toNat_eq h)
    rw [if_neg h0]
    by_cases h1 : s.currCount = 1
    · exact Or.inr (Or.inl ⟨by rw [h1]; rfl, if_pos h1⟩)
    · have hne1 : s.currCount.toNat ≠ 1 := fun h => h1 (BitVec.eq_of_toNat_eq h)
      have hpred : s.currCount - 1 = BitVec.ofNat 32 (s.currCount.toNat - 1) := by
        have hlt := s.currCount.isLt
        have hone : (1 : BitVec 32).toNat = 1 := rfl
        refine BitVec.eq_of_toNat_eq ?_
        rw [BitVec.toNat_sub, BitVec.toNat_ofNat, hone]
        omega
      rw [if_neg h1, hpred]
      exact Or.inr (Or.inr ⟨by omega, rfl⟩)

/-- **A timer that is masked and not periodic** counts down to 0. -/
theorem ticks_oneShot (hmask : s.masked = true) (hmode : s.periodic = false) (n : Nat) :
    s.ticks n = { s with currCount := BitVec.ofNat 32 (s.currCount.toNat - n) } := by
  induction n with
  | zero =>
    rw [Nat.sub_zero, BitVec.ofNat_toNat, BitVec.setWidth_eq]
    rfl
  | succ n ih =>
    have hcount : (s.ticks n).currCount.toNat = s.currCount.toNat - n := by
      rw [ih, BitVec.toNat_ofNat]
      exact Nat.mod_eq_of_lt (Nat.lt_of_le_of_lt (Nat.sub_le _ _) s.currCount.isLt)
    rw [ticks_succ]
    rcases tick_cases (s.ticks n) with ⟨h, htick⟩ | ⟨h, htick⟩ | ⟨h, htick⟩
    · rw [htick, ih, show s.currCount.toNat - n = s.currCount.toNat - (n + 1) by omega]
    · have hlast : s.currCount.toNat - (n + 1) = 0 := by omega
      rw [htick, ih, hlast]
      have hmask' : ({ s with currCount := BitVec.ofNat 32 (s.currCount.toNat - n) } : Lapic).masked = true :=
        hmask
      have hmode' : ({ s with currCount := BitVec.ofNat 32 (s.currCount.toNat - n) } : Lapic).periodic = false :=
        hmode
      rw [hmask', hmode']
      rfl
    · rw [htick, hcount, ih]
      rfl

/-- A counter that goes around after `m` steps. -/
theorem succ_mod_div {m : Nat} (hm : 0 < m) (k : Nat) :
    (k % m + 1 = m ∧ (k + 1) % m = 0 ∧ (k + 1) / m = k / m + 1) ∨
      (k % m + 1 < m ∧ (k + 1) % m = k % m + 1 ∧ (k + 1) / m = k / m) := by
  have hk : m * (k / m) + k % m = k := Nat.div_add_mod k m
  rcases Nat.lt_or_eq_of_le (Nat.mod_lt k hm) with hlt | heq
  · have hnext : k + 1 = m * (k / m) + (k % m + 1) := by omega
    refine Or.inr ⟨hlt, (congrArg (· % m) hnext).trans ?_, (congrArg (· / m) hnext).trans ?_⟩
    · exact (Nat.mul_add_mod _ _ _).trans (Nat.mod_eq_of_lt hlt)
    · exact (Nat.mul_add_div hm _ _).trans (by rw [Nat.div_eq_of_lt hlt, Nat.add_zero])
  · have hnext : k + 1 = m * (k / m + 1) := by
      rw [Nat.mul_add, Nat.mul_one]
      omega
    refine Or.inl ⟨heq, ?_, ?_⟩
    · rw [hnext, Nat.mul_mod_right]
    · rw [hnext, Nat.mul_div_cancel_left _ hm]

/-- **A timer that is periodic and not masked** has a period of its initial count. -/
theorem ticks_periodic (hmask : s.masked = false) (hmode : s.periodic = true)
    (hpos : 0 < s.currCount.toNat) (hle : s.currCount.toNat ≤ s.initCount.toNat) (n : Nat) :
    s.ticks n = { s with
      currCount := BitVec.ofNat 32 (s.initCount.toNat -
        (n + (s.initCount.toNat - s.currCount.toNat)) % s.initCount.toNat)
      fired := s.fired ++ List.replicate
        ((n + (s.initCount.toNat - s.currCount.toNat)) / s.initCount.toNat) (s.lvtTmr.setWidth 8) } := by
  obtain ⟨spurious, lvtTmr, initCount, currCount, tmrDiv, fired⟩ := s
  simp only at hpos hle ⊢
  have hlt := initCount.isLt
  induction n with
  | zero =>
    have hmod : (0 + (initCount.toNat - currCount.toNat)) % initCount.toNat =
        initCount.toNat - currCount.toNat := Nat.mod_eq_of_lt (by omega) |>.trans (Nat.zero_add _)
    have hdiv : (0 + (initCount.toNat - currCount.toNat)) / initCount.toNat = 0 :=
      Nat.div_eq_of_lt (by omega)
    rw [hmod, hdiv, show initCount.toNat - (initCount.toNat - currCount.toNat) = currCount.toNat by omega,
      BitVec.ofNat_toNat, BitVec.setWidth_eq, List.replicate_zero, List.append_nil]
    rfl
  | succ n ih =>
    generalize hk : n + (initCount.toNat - currCount.toNat) = k at ih
    have hpos' : 0 < initCount.toNat := by omega
    have hmod := Nat.mod_lt k hpos'
    have hcount : (Lapic.ticks n ⟨spurious, lvtTmr, initCount, currCount, tmrDiv, fired⟩).currCount.toNat =
        initCount.toNat - k % initCount.toNat := by
      rw [ih, BitVec.toNat_ofNat]
      exact Nat.mod_eq_of_lt (by omega)
    rw [show n + 1 + (initCount.toNat - currCount.toNat) = k + 1 by omega, ticks_succ]
    rcases tick_cases (Lapic.ticks n ⟨spurious, lvtTmr, initCount, currCount, tmrDiv, fired⟩) with
      ⟨h, htick⟩ | ⟨h, htick⟩ | ⟨h, htick⟩
    · omega
    · rcases succ_mod_div hpos' k with ⟨-, hm, hd⟩ | ⟨hlt', -⟩
      · have hmask' : lvtTmr.getLsbD 16 = false := hmask
        have hmode' : lvtTmr.getLsbD 17 = true := hmode
        rw [htick, ih, hm, hd]
        simp only [Lapic.masked, Lapic.periodic, hmask', hmode', if_true, Bool.false_eq_true, if_false,
          Nat.sub_zero, BitVec.ofNat_toNat, BitVec.setWidth_eq, List.replicate_succ', List.append_assoc]
      · omega
    · rcases succ_mod_div hpos' k with ⟨heq, -⟩ | ⟨-, hm, hd⟩
      · omega
      · rw [htick, hcount, ih, hm, hd, Nat.sub_sub]

/-! ## The timer -/

/-- The period that `lapic_timer_init` sets, for the number of ticks in the sleep. Both the count and the
product have 32 bits. -/
def lapicPeriod (sleep : Nat) : Nat := 10 * min sleep (2 ^ 32 - 1) % 2 ^ 32

theorem lapicTimeStop_eq (gap n : Nat) (s : Lapic) : (lapicTimeStop gap s).ticks n =
    { s with initCount := 0, currCount := 0, lvtTmr := lapicDisable } := by
  have hstop : (lapicWrite lapicTmrinitcnt 0 s).ticks gap = { s with initCount := 0, currCount := 0 } :=
    ticks_stopped rfl gap
  have hwrite : lapicTimeStop gap s = { s with initCount := 0, currCount := 0, lvtTmr := lapicDisable } := by
    rw [lapicTimeStop, hstop]
    rfl
  rw [hwrite]
  exact ticks_stopped rfl n

/-- A count that is started while the timer is masked. -/
theorem ticks_started (hlvt : s.lvtTmr = lapicDisable) (v : BitVec 32) (n : Nat) :
    (lapicWrite lapicTmrinitcnt v s).ticks n =
      { s with initCount := v, currCount := BitVec.ofNat 32 (v.toNat - n) } := by
  have hmask : (lapicWrite lapicTmrinitcnt v s).masked = true := by
    show s.lvtTmr.getLsbD 16 = true
    rw [hlvt]
    decide
  have hmode : (lapicWrite lapicTmrinitcnt v s).periodic = false := by
    show s.lvtTmr.getLsbD 17 = false
    rw [hlvt]
    decide
  rw [ticks_oneShot hmask hmode]
  rfl

/-- `ticksin100ms * 10` -/
theorem measured_mul (sleep : Nat) :
    (0xFFFFFFFF - BitVec.ofNat 32 ((0xFFFFFFFF : BitVec 32).toNat - sleep)) * 10 =
      BitVec.ofNat 32 (lapicPeriod sleep) := by
  have hall : (0xFFFFFFFF : BitVec 32).toNat = 2 ^ 32 - 1 := rfl
  have hten : (10 : BitVec 32).toNat = 10 := rfl
  refine BitVec.eq_of_toNat_eq ?_
  rw [BitVec.toNat_mul, BitVec.toNat_sub, BitVec.toNat_ofNat, BitVec.toNat_ofNat, hall, hten, lapicPeriod]
  omega

/-- **The timer as `lapic_timer_init` leaves it.** -/
theorem lapicTimerInit_eq (g : Gaps) (s : Lapic) : lapicTimerInit g s =
    { (lapicWrite lapicTmrdiv 0 s).ticks g.afterDiv with
      lvtTmr := BitVec.ofNat 32 lapictmrVector ||| tmrPeriodc
      initCount := BitVec.ofNat 32 (lapicPeriod g.sleep)
      currCount := BitVec.ofNat 32 (lapicPeriod g.sleep - g.beforeLvt) } := by
  have hperiod : (BitVec.ofNat 32 (lapicPeriod g.sleep)).toNat = lapicPeriod g.sleep := by
    rw [BitVec.toNat_ofNat]
    exact Nat.mod_eq_of_lt (Nat.mod_lt _ (by decide))
  have hcount := measured_mul g.sleep
  have hleft : BitVec.ofNat 32 (lapicPeriod g.sleep - g.beforeLvt) =
      BitVec.ofNat 32 ((BitVec.ofNat 32 (lapicPeriod g.sleep)).toNat - g.beforeLvt) := by rw [hperiod]
  rw [hleft]
  generalize BitVec.ofNat 32 (lapicPeriod g.sleep) = count at hcount ⊢
  unfold lapicTimerInit
  dsimp only
  generalize (lapicWrite lapicTmrdiv 0 s).ticks g.afterDiv = u
  rw [lapicTimeStop_eq]
  generalize hoff : ({ u with initCount := 0, currCount := 0, lvtTmr := lapicDisable } : Lapic) = off
  have hlvt : off.lvtTmr = lapicDisable := by rw [← hoff]
  rw [ticks_started hlvt, lapicTimeStop_eq]
  generalize BitVec.ofNat 32 ((0xFFFFFFFF : BitVec 32).toNat - g.sleep) = left at hcount ⊢
  -- what is read is what the sleep has left of the count
  have hread : lapicRead lapicTmrcurrcnt { off with initCount := 0xFFFFFFFF, currCount := left } = left := rfl
  have hmask : ({ off with initCount := 0xFFFFFFFF, currCount := left } : Lapic).masked = true := by
    show off.lvtTmr.getLsbD 16 = true
    rw [hlvt]
    decide
  have hmode : ({ off with initCount := 0xFFFFFFFF, currCount := left } : Lapic).periodic = false := by
    show off.lvtTmr.getLsbD 17 = false
    rw [hlvt]
    decide
  rw [hread, hcount, ticks_oneShot hmask hmode, ticks_started rfl, ← hoff]
  rfl

/-- Ticks change the count and add interrupts. -/
theorem ticks_fired (n : Nat) (s : Lapic) : ∃ vs currCount,
    s.ticks n = { s with currCount := currCount, fired := s.fired ++ vs } := by
  induction n with
  | zero => exact ⟨[], s.currCount, by rw [List.append_nil]; rfl⟩
  | succ n ih =>
    obtain ⟨vs, count, h⟩ := ih
    rw [ticks_succ]
    rcases tick_cases (s.ticks n) with ⟨-, htick⟩ | ⟨-, htick⟩ | ⟨-, htick⟩
    · exact ⟨vs, count, htick.trans h⟩
    · rw [htick, h]
      cases ({ s with currCount := count, fired := s.fired ++ vs } : Lapic).masked with
      | true => exact ⟨vs, _, rfl⟩
      | false => exact ⟨vs ++ [s.lvtTmr.setWidth 8], _, by rw [← List.append_assoc]; rfl⟩
    · exact ⟨vs, _, by rw [htick, h]⟩

/-- The interrupts of a timer with the period `period`, `late` ticks of which have passed. -/
theorem fired_periodic {period late : Nat} (hlvt : s.lvtTmr = BitVec.ofNat 32 lapictmrVector ||| tmrPeriodc)
    (hinit : s.initCount.toNat = period) (hcurr : s.currCount.toNat = period - late) (n : Nat) :
    (s.ticks n).fired = s.fired ++
      List.replicate (if late < period then (n + late) / period else 0) 35#8 := by
  by_cases hlt : late < period
  · have hmask : s.masked = false := by
      rw [Lapic.masked, hlvt]
      decide
    have hmode : s.periodic = true := by
      rw [Lapic.periodic, hlvt]
      decide
    have hvector : s.lvtTmr.setWidth 8 = 35#8 := by
      rw [hlvt]
      decide
    rw [if_pos hlt, ticks_periodic hmask hmode (by omega) (by omega), hvector, hinit, hcurr,
      show n + (period - (period - late)) = n + late by omega]
  · have hzero : s.currCount = 0 := BitVec.eq_of_toNat_eq (by rw [hcurr]; exact Nat.sub_eq_zero_of_le (by omega))
    rw [if_neg hlt, ticks_stopped hzero, List.replicate_zero, List.append_nil]

/-- The vector of a spurious interrupt is 255, and the APIC is enabled. -/
theorem spurious_bits (v : BitVec 32) : (v ||| 0xFF ||| lapicSwEnable).setWidth 8 = 0xFF#8 ∧
    (v ||| 0xFF ||| lapicSwEnable).getLsbD 8 = true := by
  constructor
  · refine BitVec.eq_of_getLsbD_eq fun i hi => ?_
    have h : i = 0 ∨ i = 1 ∨ i = 2 ∨ i = 3 ∨ i = 4 ∨ i = 5 ∨ i = 6 ∨ i = 7 := by omega
    rcases h with rfl | rfl | rfl | rfl | rfl | rfl | rfl | rfl <;> simp [lapicSwEnable]
  · simp [lapicSwEnable]

variable {l : KernelImage}

/--
**The interrupts of the timer.** After `init_gdt`, `idt_init` and `lapic_init`, and after any number of
ticks, the timer has raised its interrupt, which `_handle_lapic_timer` answers, once for each period of
ten times the ticks in the sleep, the product taken in 32 bits. There are none at all if the count has
run out before the last access, which is so in particular if that product is 0. A spurious interrupt has
the vector 255, which leads to no handler.
-/
theorem lapicInit_timer (hl : l.Apart) (c : Cpu) (g : Gaps) (s : Lapic) : ∃ c' early,
    (initGdt l.gdt l.gdtp c).map (idtInit l) = some c' ∧
      (∀ n, ((lapicInit g s).ticks n).fired = early ++ List.replicate
          (if g.beforeLvt < lapicPeriod g.sleep then (n + g.beforeLvt) / lapicPeriod g.sleep else 0) 35#8 ∧
        ((lapicInit g s).ticks n).spurious.getLsbD 8 = true ∧
        ((lapicInit g s).ticks n).spurious.setWidth 8 = 255#8) ∧
      c'.deliver 35 = some ⟨l.handleLapicTimer.toNat, 0x08, true, 0⟩ ∧ c'.deliver 255 = none := by
  obtain ⟨c', hc', hloaded, hidtr, hgates⟩ := initTables_loaded hl c
  have hperiod : (BitVec.ofNat 32 (lapicPeriod g.sleep)).toNat = lapicPeriod g.sleep := by
    rw [BitVec.toNat_ofNat]
    exact Nat.mod_eq_of_lt (Nat.mod_lt _ (by decide))
  -- whatever the timer has been doing before
  obtain ⟨u, hu, hspurious⟩ : ∃ u : Lapic, lapicInit g s = { u with
      lvtTmr := BitVec.ofNat 32 lapictmrVector ||| tmrPeriodc
      initCount := BitVec.ofNat 32 (lapicPeriod g.sleep)
      currCount := BitVec.ofNat 32 (lapicPeriod g.sleep - g.beforeLvt) } ∧
        u.spurious = s.spurious ||| 0xFF ||| lapicSwEnable := by
    refine ⟨_, lapicTimerInit_eq g _, ?_⟩
    obtain ⟨vs, count, h⟩ := ticks_fired g.afterSpurious
      (lapicWrite lapicSpurious (lapicRead lapicSpurious s ||| 0xFF ||| lapicSwEnable) s)
    obtain ⟨vs', count', h'⟩ := ticks_fired g.afterDiv (lapicWrite lapicTmrdiv 0
      (Lapic.ticks g.afterSpurious
        (lapicWrite lapicSpurious (lapicRead lapicSpurious s ||| 0xFF ||| lapicSwEnable) s)))
    rw [h', h]
    rfl
  obtain ⟨hvector, henable⟩ := spurious_bits s.spurious
  refine ⟨c', u.fired, hc', fun n => ?_, (deliver_of_gatesAre hloaded hidtr hgates (by decide)).trans rfl,
    (deliver_of_gatesAre hloaded hidtr hgates (by decide)).trans rfl⟩
  rw [hu]
  obtain ⟨vs, count, hticks⟩ := ticks_fired n { u with
    lvtTmr := BitVec.ofNat 32 lapictmrVector ||| tmrPeriodc
    initCount := BitVec.ofNat 32 (lapicPeriod g.sleep)
    currCount := BitVec.ofNat 32 (lapicPeriod g.sleep - g.beforeLvt) }
  refine ⟨?_, by rw [hticks]; exact (congrArg (·.getLsbD 8) hspurious).trans henable,
    by rw [hticks]; exact (congrArg (·.setWidth 8) hspurious).trans hvector⟩
  have hleft : (BitVec.ofNat 32 (lapicPeriod g.sleep - g.beforeLvt)).toNat =
      lapicPeriod g.sleep - g.beforeLvt := by
    rw [BitVec.toNat_ofNat]
    exact Nat.mod_eq_of_lt (Nat.lt_of_le_of_lt (Nat.sub_le _ _) (Nat.mod_lt _ (by decide)))
  exact fired_periodic rfl hperiod hleft n

/-- 1000 ticks in the sleep, and 3 before the interrupt is no longer masked. -/
def sampleGaps : Gaps := ⟨0, 0, 0, 0, 1000, 0, 0, 0, 3⟩

theorem lapicInit_timer_sample : ∃ c' early,
    (initGdt 0x1000 0x1018 sampleCpu).map (idtInit sampleImage) = some c' ∧
      ((lapicInit sampleGaps ⟨0, 0, 0, 0, 0, []⟩).ticks 25000).fired = early ++ List.replicate 2 35#8 := by
  obtain ⟨c', early, hc', hticks, -⟩ := lapicInit_timer (l := sampleImage) ⟨by decide, by decide, by decide⟩
    sampleCpu sampleGaps ⟨0, 0, 0, 0, 0, []⟩
  exact ⟨c', early, hc', (hticks 25000).1⟩

end BloreOs
