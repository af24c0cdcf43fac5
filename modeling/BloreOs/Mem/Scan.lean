import BloreOs.Mem.Pmm

/-!
# The scan of `kalloc`

The loop of `kalloc` walks the bitmap from the cursor to the bound, once more from page 0, and
gives up the second time it meets the bound. Three results about it:

* `scan_ends` — with the cursor below the bound it is left within twice as many iterations, for any
  request, and leaves the cursor below the bound again,
* `scan_cursor_lt` — until then it looks at pages below the bound only,
* `scan_spec` — for a request of at least one page it returns a free run of the requested length
  below the bound, and fails only if there is none.

`allocated_pages` is not reset when a run breaks or the cursor wraps. That is harmless because
the stale value is always smaller than the request (`ScanInv.pages_le` and the exit test), but it
means that the counter only measures the current run while `allocating` is set.
-/

namespace BloreOs

open Loop

variable {taken : Nat → Bool} {maxPages k c : Nat} {x y : Scan}

/-- Pages `p .. p + k - 1` are all free. -/
def FreeRun (taken : Nat → Bool) (p k : Nat) : Prop := ∀ i, p ≤ i → i < p + k → taken i = false

/-- Where the cursor wraps. The test is an equality of 64-bit values, so with the bound 0 the cursor
runs through all of them before it meets the bound. -/
def scanBound (maxPages : Nat) : Nat := if maxPages = 0 then 2 ^ 64 else maxPages

theorem scanBound_of_pos (h : 0 < maxPages) : scanBound maxPages = maxPages := if_neg (by omega)

theorem scanBound_le (h : maxPages < 2 ^ 64) : scanBound maxPages ≤ 2 ^ 64 := by
  unfold scanBound
  split <;> omega

/-- The bounds check of the scan. -/
theorem forward_eq_iff (hc : c < scanBound maxPages) (hm : maxPages < 2 ^ 64) :
    add64 c 1 = maxPages ↔ c + 1 = scanBound maxPages := by
  unfold scanBound add64 at *
  by_cases h0 : maxPages = 0
  · rw [if_pos h0] at hc ⊢
    omega
  · rw [if_neg h0] at hc ⊢
    omega

theorem forward_eq (hm : maxPages < 2 ^ 64) (hc : c + 1 < scanBound maxPages) :
    add64 c 1 = c + 1 := add64_eq (by have := scanBound_le hm; omega)

/-! ## Every iteration -/

@[simp] theorem scanPage_cursor (b : Bool) (x : Scan) : (scanPage b x).cursor = x.cursor := by
  unfold scanPage
  split_ifs <;> rfl

@[simp] theorem scanPage_looped (b : Bool) (x : Scan) : (scanPage b x).looped = x.looped := by
  unfold scanPage
  split_ifs <;> rfl

/-- **What an iteration does when it goes on**: forward the cursor, or wrap it for the first time.
-/
theorem scanBody_inl (hx : x.cursor < scanBound maxPages) (hm : maxPages < 2 ^ 64)
    (h : scanBody taken maxPages k x = .inl y) :
    let z := scanPage (taken x.cursor) x
    z.allocatedPages ≠ k ∧
      ((x.cursor + 1 < scanBound maxPages ∧ y = { z with cursor := x.cursor + 1 }) ∨
        (x.cursor + 1 = scanBound maxPages ∧ x.looped = false ∧
          y = { z with cursor := 0, looped := true, allocating := false })) := by
  have hend := forward_eq_iff hx hm
  simp only [scanBody, scanForward, scanPage_cursor, scanPage_looped] at h
  split at h
  · cases h
  · next hne =>
    split at h
    · next heq =>
      split at h
      · cases h
      · next hl =>
        exact ⟨hne, Or.inr ⟨hend.mp heq, by simpa using hl, (Sum.inl.inj h).symm⟩⟩
    · next hneq =>
      have hlt : x.cursor + 1 < scanBound maxPages := Nat.lt_of_le_of_ne hx fun he => hneq (hend.mpr he)
      refine ⟨hne, Or.inl ⟨hlt, ?_⟩⟩
      rw [← Sum.inl.inj h, scanPage_looped, forward_eq hm hlt]

/-- **What an iteration does when it ends the loop.** -/
theorem scanBody_inr {r : ScanEnd} (hx : x.cursor < scanBound maxPages) (hm : maxPages < 2 ^ 64)
    (h : scanBody taken maxPages k x = .inr r) :
    let z := scanPage (taken x.cursor) x
    (z.allocatedPages = k ∧
        r = .found z.startAllocPage k (if x.cursor + 1 = scanBound maxPages then 0 else x.cursor + 1)) ∨
      (z.allocatedPages ≠ k ∧ x.cursor + 1 = scanBound maxPages ∧ x.looped = true ∧ r = .failed 0) := by
  have hend := forward_eq_iff hx hm
  simp only [scanBody, scanForward, scanPage_cursor, scanPage_looped] at h
  split at h
  · next heq =>
    refine Or.inl ⟨heq, ?_⟩
    rw [← heq, ← Sum.inr.inj h]
    by_cases he : x.cursor + 1 = scanBound maxPages
    · rw [if_pos he, if_pos (hend.mpr he)]
    · rw [if_neg he, if_neg fun hc => he (hend.mp hc), forward_eq hm (by omega)]
  · next hne =>
    split at h
    · next heq =>
      split at h
      · next hl => exact Or.inr ⟨hne, hend.mp heq, hl, (Sum.inr.inj h).symm⟩
      · cases h
    · cases h

/-- The iterations that are left at most, while the cursor is below the bound. -/
def scanMeasure (bound : Nat) (x : Scan) : Nat :=
  (if x.looped then 0 else bound) + (bound - x.cursor)

theorem scanBody_inl_measure (hx : x.cursor < scanBound maxPages) (hm : maxPages < 2 ^ 64)
    (h : scanBody taken maxPages k x = .inl y) :
    y.cursor < scanBound maxPages ∧ scanMeasure (scanBound maxPages) y < scanMeasure (scanBound maxPages) x := by
  obtain ⟨-, ⟨hlt, rfl⟩ | ⟨heq, hl, rfl⟩⟩ := scanBody_inl hx hm h
  · refine ⟨hlt, ?_⟩
    simp only [scanMeasure, scanPage_looped]
    omega
  · refine ⟨by show 0 < scanBound maxPages; omega, ?_⟩
    simp only [scanMeasure, hl, if_true]
    simp
    omega

/-- Every page the scan looks at is below the bound. -/
theorem scan_cursor_lt (hc : c < scanBound maxPages) (hm : maxPages < 2 ^ 64) {n : Nat}
    (h : headAt (scanBody taken maxPages k) n (scanStart c) = some x) : x.cursor < scanBound maxPages :=
  headAt_invariant (fun x => x.cursor < scanBound maxPages)
    (fun _ _ hx hstep => (scanBody_inl_measure hx hm hstep).1) n hc h

/-- What is true of every scan: a run it returns starts below the bound, has the requested length,
and the cursor ends below the bound. -/
def ScanEnd.InBounds (bound k : Nat) : ScanEnd → Prop
  | .found p n cursor => p < bound ∧ n = k ∧ cursor < bound
  | .failed cursor => cursor < bound

theorem scanPage_startAllocPage_lt {bound : Nat} (hx : x.cursor < bound) (hs : x.startAllocPage < bound)
    (b : Bool) : (scanPage b x).startAllocPage < bound := by
  unfold scanPage
  split_ifs <;> assumption

/-- **The scan ends.** -/
theorem scan_ends (taken : Nat → Bool) (k : Nat) (hc : c < scanBound maxPages) (hm : maxPages < 2 ^ 64) :
    ∃ r, loop (scanBody taken maxPages k) (2 * scanBound maxPages) (scanStart c) = some r ∧
      r.InBounds (scanBound maxPages) k := by
  refine loop_of_measure (fun x => x.cursor < scanBound maxPages ∧ x.startAllocPage < scanBound maxPages)
    (scanMeasure (scanBound maxPages)) _ ?_ ?_ _ _ ⟨hc, by show 0 < scanBound maxPages; omega⟩ ?_
  · rintro x y ⟨hx, hs⟩ h
    obtain ⟨hy, hlt⟩ := scanBody_inl_measure hx hm h
    refine ⟨⟨hy, ?_⟩, hlt⟩
    obtain ⟨-, ⟨-, rfl⟩ | ⟨-, -, rfl⟩⟩ := scanBody_inl hx hm h
    · exact scanPage_startAllocPage_lt hx hs _
    · exact scanPage_startAllocPage_lt hx hs _
  · rintro x r ⟨hx, hs⟩ h
    refine ⟨?_, by unfold scanMeasure; omega⟩
    rcases scanBody_inr hx hm h with ⟨-, rfl⟩ | ⟨-, -, -, rfl⟩
    · refine ⟨scanPage_startAllocPage_lt hx hs _, rfl, ?_⟩
      split <;> omega
    · show 0 < scanBound maxPages
      omega
  · show (if false = true then 0 else scanBound maxPages) + (scanBound maxPages - c) ≤ 2 * scanBound maxPages
    simp
    omega

/-! ## The invariant of the scan

`stop` is the number of pages looked at in this pass: the cursor at the head of an iteration, one
more after `scanPage`.
-/

structure ScanInv (taken : Nat → Bool) (k stop : Nat) (x : Scan) : Prop where
  pages_le : x.allocatedPages ≤ k
  /-- While `allocating`, the counter measures a free run that reaches up to here. -/
  current : x.allocating = true →
    x.startAllocPage + x.allocatedPages = stop ∧ FreeRun taken x.startAllocPage x.allocatedPages
  /-- In the second pass, no free run that reaches up to here is longer than the counter. -/
  longest : x.looped = true → ∀ p ≤ stop, FreeRun taken p (stop - p) →
    stop - p ≤ if x.allocating then x.allocatedPages else 0
  /-- In the second pass, no requested run lies behind. -/
  behind : x.looped = true → ∀ p, p + k < stop → ¬ FreeRun taken p k

theorem FreeRun.succ {p n : Nat} (h : FreeRun taken p n) (hl : taken (p + n) = false) :
    FreeRun taken p (n + 1) := by
  intro i h1 h2
  by_cases hi : i = p + n
  · rw [hi]; exact hl
  · exact h i h1 (by omega)

theorem FreeRun.mono {p n m : Nat} (h : FreeRun taken p n) (hm : m ≤ n) : FreeRun taken p m :=
  fun i h1 h2 => h i h1 (by omega)

/-- Looking at one more page keeps the invariant. A full counter is a fresh one. -/
theorem ScanInv.scanPage (hinv : ScanInv taken k x.cursor x) (hlt : x.allocatedPages < k)
    (hk : k < 2 ^ 64) :
    ScanInv taken k (x.cursor + 1) (scanPage (taken x.cursor) x) ∧
      ((scanPage (taken x.cursor) x).allocatedPages = k →
        (scanPage (taken x.cursor) x).allocating = true) := by
  -- no run of `k` pages lies behind, one ending right here included
  have hbehind : x.looped = true → ∀ p, p + k < x.cursor + 1 → ¬ FreeRun taken p k := by
    intro hl p hp hrun
    by_cases he : p + k = x.cursor
    · have hle := hinv.longest hl p (by omega) (by rwa [← he, Nat.add_sub_cancel_left])
      split at hle <;> omega
    · exact hinv.behind hl p (by omega) hrun
  -- a taken page ends every run that reaches up to it
  have hbreak : taken x.cursor = true → ∀ p ≤ x.cursor + 1,
      FreeRun taken p (x.cursor + 1 - p) → x.cursor + 1 - p ≤ 0 := by
    intro ht p hp hrun
    by_contra hc
    have := hrun x.cursor (by omega) (by omega)
    rw [ht] at this
    cases this
  unfold BloreOs.scanPage
  cases hal : x.allocating with
  | false =>
    cases ht : taken x.cursor with
    | true =>
      refine ⟨⟨hinv.pages_le, by simp [hal], ?_, hbehind⟩, by simp; omega⟩
      intro _
      simpa [hal] using hbreak ht
    | false =>
      refine ⟨⟨by simp; omega, ?_, ?_, hbehind⟩, by simp⟩
      · intro _
        refine ⟨rfl, fun i h1 h2 => ?_⟩
        simp only [Bool.not_false, if_true] at h1 h2
        rw [show i = x.cursor by omega]
        exact ht
      · intro hl p hp hrun
        have := hinv.longest hl
        simp only [hal, Bool.false_eq_true, if_false] at this
        by_cases he : p = x.cursor + 1
        · simp; omega
        · have := this p (by omega) (hrun.mono (by omega))
          simp
          omega
  | true =>
    obtain ⟨hsum, hfree⟩ := hinv.current hal
    cases ht : taken x.cursor with
    | true =>
      refine ⟨⟨hinv.pages_le, by simp, ?_, hbehind⟩, by simp; omega⟩
      intro _
      simpa using hbreak ht
    | false =>
      have hadd : add64 x.allocatedPages 1 = x.allocatedPages + 1 := add64_eq (by omega)
      simp only [Bool.not_true, Bool.false_eq_true, if_false, hadd]
      refine ⟨⟨Nat.succ_le_of_lt hlt, ?_, ?_, hbehind⟩, fun _ => trivial⟩
      · intro _
        refine ⟨?_, hfree.succ ?_⟩
        · show x.startAllocPage + (x.allocatedPages + 1) = x.cursor + 1
          omega
        · rw [hsum]
          exact ht
      · intro hl p hp hrun
        have hle := hinv.longest hl
        simp only [hal, if_true] at hle ⊢
        by_cases he : p = x.cursor + 1
        · omega
        · have := hle p (by omega) (hrun.mono (by omega))
          omega

/-! ## The result of the scan -/

/-- What `kalloc` may conclude from an ended scan. -/
def ScanSpec (taken : Nat → Bool) (bound k : Nat) : ScanEnd → Prop
  | .found p n cursor => n = k ∧ p + k ≤ bound ∧ FreeRun taken p k ∧ cursor < bound
  | .failed cursor => cursor = 0 ∧ ∀ p, p + k ≤ bound → ¬ FreeRun taken p k

/-- **The scan is exact.** -/
theorem scan_spec (taken : Nat → Bool) (hc : c < scanBound maxPages) (hm : maxPages < 2 ^ 64) (hk : 1 ≤ k)
    (hk64 : k < 2 ^ 64) :
    ∃ r, loop (scanBody taken maxPages k) (2 * scanBound maxPages) (scanStart c) = some r ∧
      ScanSpec taken (scanBound maxPages) k r := by
  refine loop_of_measure
    (fun x => x.cursor < scanBound maxPages ∧ x.allocatedPages < k ∧ ScanInv taken k x.cursor x)
    (scanMeasure (scanBound maxPages)) _ ?_ ?_ _ _ ⟨hc, hk, ?_⟩ ?_
  · rintro x y ⟨hx, hlt, hinv⟩ h
    refine ⟨?_, (scanBody_inl_measure hx hm h).2⟩
    obtain ⟨hz, -⟩ := hinv.scanPage hlt hk64
    obtain ⟨hne, ⟨hcur, rfl⟩ | ⟨heq, hl, rfl⟩⟩ := scanBody_inl hx hm h
    · exact ⟨hcur, Nat.lt_of_le_of_ne hz.pages_le hne,
        ⟨hz.pages_le, hz.current, hz.longest, hz.behind⟩⟩
    · -- a new pass: nothing has been looked at yet
      refine ⟨by show 0 < scanBound maxPages; omega, Nat.lt_of_le_of_ne hz.pages_le hne, hz.pages_le,
        by simp, ?_, ?_⟩
      · intro _ p hp _
        simp
      · intro _ p hp
        simp at hp
  · rintro x r ⟨hx, hlt, hinv⟩ h
    refine ⟨?_, by unfold scanMeasure; omega⟩
    obtain ⟨hz, hfull⟩ := hinv.scanPage hlt hk64
    rcases scanBody_inr hx hm h with ⟨hk', rfl⟩ | ⟨hne, hend, hl, rfl⟩
    · obtain ⟨hsum, hfree⟩ := hz.current (hfull hk')
      rw [hk'] at hsum hfree
      refine ⟨rfl, by omega, hfree, ?_⟩
      split <;> omega
    · refine ⟨rfl, fun p hp hrun => ?_⟩
      by_cases he : p + k = x.cursor + 1
      · have hlt' := Nat.lt_of_le_of_ne hz.pages_le hne
        have hle := hz.longest (by simpa using hl) p (by omega)
          (by rwa [← he, Nat.add_sub_cancel_left])
        split at hle <;> omega
      · exact hz.behind (by simpa using hl) p (by omega) hrun
  · exact ⟨Nat.zero_le _, by simp [scanStart], by simp [scanStart], by simp [scanStart]⟩
  · show (if false = true then 0 else scanBound maxPages) + (scanBound maxPages - c) ≤ 2 * scanBound maxPages
    simp
    omega

/-- A request for one page gets the first free page from the cursor on, unless it meets the bound. -/
theorem scan_first {p : Nat} (hp : p < 2 ^ 64) (hfree : taken p = false) : ∀ (d c : Nat), c + d = p →
      (∀ i, c ≤ i → i < p → taken i = true ∧ i + 1 ≠ maxPages) →
      ∃ c', loop (scanBody taken maxPages 1) (d + 1) (scanStart c) = some (.found p 1 c') ∧
        (p + 1 < 2 ^ 64 → p + 1 ≠ maxPages → c' = p + 1)
  | 0, c, hc, _ => by
    have hcp : c = p := by omega
    refine ⟨if add64 p 1 = maxPages then 0 else add64 p 1, loop_inr ?_ 0, fun hlt hne => ?_⟩
    · rw [hcp, scanBody, scanStart, hfree]
      rfl
    · rw [add64_eq hlt, if_neg hne]
  | d + 1, c, hc, hpass => by
    obtain ⟨htaken, hne⟩ := hpass c (Nat.le_refl c) (by omega)
    have hadd : add64 c 1 = c + 1 := add64_eq (by omega)
    have hstep : scanBody taken maxPages 1 (scanStart c) = .inl (scanStart (c + 1)) := by
      rw [scanBody, scanStart, htaken]
      simp [scanPage, scanForward, scanStart, hadd, hne]
    rw [loop_inl hstep]
    exact scan_first hp hfree d (c + 1) (by omega) fun i h1 h2 => hpass i (by omega) h2

/-- A request for no pages is over at once on a taken page: the counter is still 0. -/
theorem scan_zero_taken (h : taken c = true) (n : Nat) :
    loop (scanBody taken maxPages 0) (n + 1) (scanStart c)
      = some (.found 0 0 (if add64 c 1 = maxPages then 0 else add64 c 1)) := by
  refine loop_inr ?_ n
  rw [scanBody, scanStart, h]
  rfl

end BloreOs
