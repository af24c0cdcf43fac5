import BloreOs.Mem.AnyFree

/-!
# Requests of any size

`DIV_ROUNDUP` and the multiplication in `kpalloc` wrap. A request that wraps to no pages at all
meets the success test of the scan before anything has been found, if the page at the cursor is
taken: the call then returns page 0 and clears its entry, whoever it belongs to.

* `kalloc_any` — the four cases of `kalloc` for any `size_t`,
* `BlocksInv.honoured_iff` — when a call returns a block that is long enough and leaves the
  other blocks alone,
* `sizes_honoured_iff` — the same for whole runs.
-/

namespace BloreOs

open Loop

variable {boot : Boot} {m : Memory} {s s₀ : Pmm} {h h' : PmmRun} {taken : Nat → Bool}
  {c p n wanted maxPages : Nat}

/-- A call of a client: requests of any size, frees of any pointer. -/
inductive PmmCall where
  | kalloc (numBytes : Nat)
  | kpalloc (numPages : Nat)
  | kfree (ptr : Nat)
deriving DecidableEq, Repr

/-- The run after a request of `n` bytes. A call that has reserved no page has made no block. -/
def PmmRun.after (h : PmmRun) (n : Nat) : Outcome Pmm (Option Nat) → Option PmmRun
  | .ret (some ptr) s =>
    some ⟨s, if (newBlock s ptr n).pages = 0 then h.live else newBlock s ptr n :: h.live⟩
  | .ret none s => some ⟨s, h.live⟩
  | _ => none

/-- One call. The arguments are 64-bit values and nothing else is asked of them. -/
def PmmRun.call (h : PmmRun) : PmmCall → Option PmmRun
  | .kalloc n => if n < 2 ^ 64 then h.after n (BloreOs.kalloc n h.pmm) else none
  | .kpalloc p => if p < 2 ^ 64 then h.after (mul64 pageSize p) (BloreOs.kpalloc p h.pmm) else none
  | .kfree ptr => h.stepAny (.kfree ptr)

/-- The pages that start at `ptr` are at least `wanted` bytes long. They were free before the call
and are taken after it. -/
def Reserved (s t : Pmm) (ptr wanted : Nat) : Prop :=
  wanted ≤ pageSize * t.pagesAllocated (getPageFromAddr t ptr) ∧
    ∀ i, getPageFromAddr t ptr ≤ i →
      i < getPageFromAddr t ptr + t.pagesAllocated (getPageFromAddr t ptr) →
      s.taken i = false ∧ t.taken i = true

/-- The entry and the bits of every block are as they were. -/
def KeepsBlocks (s t : Pmm) (live : List Block) : Prop :=
  ∀ b ∈ live, t.pagesAllocated b.start = s.pagesAllocated b.start ∧
    ∀ i, b.span.Has i → t.taken i = s.taken i

/-- What the client of a request for `wanted` bytes relies on. -/
def PmmRun.Gets (h : PmmRun) (wanted : Nat) : Outcome Pmm (Option Nat) → Prop
  | .ret r t => (∀ ptr, r = some ptr → Reserved h.pmm t ptr wanted) ∧ KeepsBlocks h.pmm t h.live
  | _ => False

/-- A call does what its client relies on. Page counts are turned into bytes without wrapping. -/
def PmmRun.Honours (h : PmmRun) : PmmCall → Prop
  | .kalloc n => h.Gets n (BloreOs.kalloc n h.pmm)
  | .kpalloc p => h.Gets (pageSize * p) (BloreOs.kpalloc p h.pmm)
  | .kfree _ => True

/-- The page at the cursor is free, so that a request for no pages fails. -/
def PmmRun.CursorFree (h : PmmRun) : Prop := h.pmm.taken h.pmm.allocationCursor = false

/-- No live block starts at page 0, whose entry a request for no pages clears. -/
def PmmRun.NoBlockAtZero (h : PmmRun) : Prop := ∀ b ∈ h.live, b.start ≠ 0

/-- Nowhere below the bound are `k` pages free. -/
def PmmRun.NoRoom (h : PmmRun) (k : Nat) : Prop :=
  ∀ p, p + k ≤ h.pmm.maxPagesAvailable → ¬ FreeRun h.pmm.taken p k

/-- **The condition on a call.** The size does not wrap, or the call fails, or it asks for nothing
and finds nothing to clear. -/
def PmmRun.Sized (h : PmmRun) : PmmCall → Prop
  | .kalloc n => (1 ≤ n ∧ n + 4095 < 2 ^ 64) ∨ h.CursorFree ∨ (n = 0 ∧ h.NoBlockAtZero)
  | .kpalloc p => (1 ≤ p ∧ p < 2 ^ 52) ∨ (p % 2 ^ 52 = 0 ∧ h.CursorFree) ∨
      (p = 0 ∧ h.NoBlockAtZero) ∨ (p % 2 ^ 52 ≠ 0 ∧ h.NoRoom (p % 2 ^ 52))
  | .kfree _ => True

/-! ## A scan for no pages -/

/-- On a free page it counts that page and never finds less than one page again. -/
theorem scan_zero_free (hmax : 1 ≤ maxPages) (hm : maxPages < 2 ^ 64) (hc : c < maxPages)
    (h : taken c = false) {r : ScanEnd}
    (hr : loop (scanBody taken maxPages 0) n (scanStart c) = some r) : ∃ c', r = .failed c' := by
  have hbound : scanBound maxPages = maxPages := scanBound_of_pos hmax
  -- the counter is stale or measures a run that ends at the cursor
  let I : Scan → Prop := fun x => x.cursor < maxPages ∧
    ((x = scanStart c) ∨ (1 ≤ x.allocatedPages ∧ x.allocatedPages ≤ maxPages ∧
      (x.allocating = true → x.allocatedPages ≤ x.cursor)))
  have hpage : ∀ x, I x → 1 ≤ (scanPage (taken x.cursor) x).allocatedPages ∧
      (scanPage (taken x.cursor) x).allocatedPages ≤ maxPages ∧
      ((scanPage (taken x.cursor) x).allocating = true →
        (scanPage (taken x.cursor) x).allocatedPages ≤ x.cursor + 1) := by
    rintro x ⟨hx, rfl | ⟨h1, h2, h3⟩⟩
    · simp [scanStart, scanPage, h, hmax]
    · unfold scanPage
      cases hal : x.allocating with
      | false =>
        cases taken x.cursor with
        | true => exact ⟨h1, h2, by simp [hal]⟩
        | false => simp [hmax]
      | true =>
        have hle := h3 hal
        cases taken x.cursor with
        | true => exact ⟨h1, h2, by simp⟩
        | false =>
          have hadd : add64 x.allocatedPages 1 = x.allocatedPages + 1 := add64_eq (by omega)
          simp only [Bool.not_true, Bool.false_eq_true, if_false, hadd]
          exact ⟨by omega, by omega, fun _ => by omega⟩
  refine loop_invariant I (fun r => ∃ c', r = .failed c') ?_ ?_ n ⟨hc, Or.inl rfl⟩ hr
  · intro x y hx hstep
    obtain ⟨h1, h2, h3⟩ := hpage x hx
    obtain ⟨-, ⟨hlt, rfl⟩ | ⟨-, -, rfl⟩⟩ := scanBody_inl (by rw [hbound]; exact hx.1) hm hstep
    · exact ⟨by rw [hbound] at hlt; exact hlt, Or.inr ⟨h1, h2, h3⟩⟩
    · exact ⟨hmax, Or.inr ⟨h1, h2, fun hf => by cases hf⟩⟩
  · intro x r hx hstep
    obtain ⟨h1, -, -⟩ := hpage x hx
    rcases scanBody_inr (by rw [hbound]; exact hx.1) hm hstep with ⟨h0, -⟩ | ⟨-, -, -, rfl⟩
    · omega
    · exact ⟨0, rfl⟩

/-! ## One call -/

/-- How many pages a request comes to. -/
theorem one_le_divRoundup (hn : n < 2 ^ 64) :
    1 ≤ divRoundup n pageSize ↔ 1 ≤ n ∧ n + 4095 < 2 ^ 64 := by
  unfold divRoundup
  rw [sub64_add64_pageSize, pageSize]
  omega

/-- **`kalloc` of any size.** -/
theorem kalloc_any (hs : s.Ready) (hn : n < 2 ^ 64) :
    (1 ≤ n ∧ n + 4095 < 2 ^ 64 ∧ ∃ p c, p + (n + 4095) / 4096 ≤ s.maxPagesAvailable ∧
        FreeRun s.taken p ((n + 4095) / 4096) ∧ c < s.maxPagesAvailable ∧
        kalloc n s = .ret (some (getAddrFromPage s p)) (kallocFound s p ((n + 4095) / 4096) c)) ∨
      (1 ≤ n ∧ n + 4095 < 2 ^ 64 ∧ (∀ p, p + (n + 4095) / 4096 ≤ s.maxPagesAvailable →
          ¬ FreeRun s.taken p ((n + 4095) / 4096)) ∧
        kalloc n s = .ret none { s with allocationCursor := 0 }) ∨
      (divRoundup n pageSize = 0 ∧ s.taken s.allocationCursor = true ∧ ∃ c < s.maxPagesAvailable,
        kalloc n s = .ret (some (getAddrFromPage s 0)) (kallocFound s 0 0 c)) ∨
      (divRoundup n pageSize = 0 ∧ s.taken s.allocationCursor = false ∧
        ∃ c < s.maxPagesAvailable, kalloc n s = .ret none { s with allocationCursor := c }) := by
  have hcur := hs.cursor_lt
  have hmax := hs.max_le
  have hlt := hs.pages_lt
  by_cases hk : 1 ≤ divRoundup n pageSize
  · obtain ⟨h1, h64⟩ := (one_le_divRoundup hn).mp hk
    rcases kalloc_cases hs h1 h64 with hfound | hnone
    · exact Or.inl ⟨h1, h64, hfound⟩
    · exact Or.inr (Or.inl ⟨h1, h64, hnone⟩)
  · have h0 : divRoundup n pageSize = 0 := by omega
    right
    right
    cases ht : s.taken s.allocationCursor with
    | true =>
      refine Or.inl ⟨h0, rfl, _, ?_, kalloc_zero hs.unlocked h0 ht⟩
      have hadd : add64 s.allocationCursor 1 = s.allocationCursor + 1 := add64_eq (by omega)
      rw [hadd]
      split <;> omega
    | false =>
      refine Or.inr ⟨h0, rfl, ?_⟩
      have hbound : scanBound s.maxPagesAvailable = s.maxPagesAvailable :=
        scanBound_of_pos (by omega)
      obtain ⟨r, hr, hin⟩ := scan_ends s.taken 0 (by rw [hbound]; exact hcur) (by omega)
      obtain ⟨c, rfl⟩ := scan_zero_free (by omega) (by omega) hcur ht hr
      rw [hbound] at hin hr
      have hloop := loop_mono hr (show _ ≤ scanFuel by unfold scanFuel; omega)
      exact ⟨c, hin, by rw [kalloc_eq hs.unlocked, h0, hloop]; rfl⟩

namespace BlocksInv

variable (hinv : BlocksInv s₀ h)
include hinv

/-- A found run of free pages: the block has the pages that the wrapped size comes to. -/
theorem gets_found (hfew : s₀.numPagesInMap < 2 ^ 32) (hn : 1 ≤ n)
    (hp : p + (n + 4095) / 4096 ≤ h.pmm.maxPagesAvailable)
    (hfree : FreeRun h.pmm.taken p ((n + 4095) / 4096)) (hc : c < h.pmm.maxPagesAvailable) :
    h.Gets wanted (.ret (some (getAddrFromPage h.pmm p))
      (kallocFound h.pmm p ((n + 4095) / 4096) c)) ↔ wanted ≤ pageSize * ((n + 4095) / 4096) := by
  have hnew := hinv.after_kalloc hn hfew hp hfree hc
  have hmax := hinv.ready.max_le
  have hlt := hinv.ready.pages_lt
  have hN := hinv.same.pages
  have hpage : getPageFromAddr (kallocFound h.pmm p ((n + 4095) / 4096) c)
      (getAddrFromPage h.pmm p) = p :=
    getPageFromAddr_getAddrFromPage (s := kallocFound h.pmm p ((n + 4095) / 4096) c) (by omega)
  have hpages : (kallocFound h.pmm p ((n + 4095) / 4096) c).pagesAllocated p
      = (n + 4095) / 4096 := by
    rw [pagesAllocated_kallocFound hinv.ready.toLaid (by omega) (by omega), if_pos rfl]
    exact Nat.mod_eq_of_lt (by omega)
  constructor
  · rintro ⟨hres, -⟩
    have hle := (hres _ rfl).1
    rwa [hpage, hpages] at hle
  · intro hle
    refine ⟨?_, fun b hb => ⟨?_, fun i hi => ?_⟩⟩
    · rintro _ ⟨⟩
      rw [Reserved, hpage, hpages]
      refine ⟨hle, fun i h1 h2 => ⟨hfree i h1 h2, ?_⟩⟩
      rw [taken_kallocFound hinv.ready.toLaid (by omega) (by omega) (by omega)]
      simp [h1, h2]
    · rw [hinv.entries b hb]
      exact hnew.entries b (List.mem_cons_of_mem _ hb)
    · have hbmax := (hinv.ok b hb).le_max
      have hmax' := hinv.max_le
      have hi2 : i < b.start + b.pages := hi.2
      have hbefore := (hinv.bits i (by omega)).mpr (Or.inr ⟨b, hb, hi⟩)
      have hafter := (hnew.bits i (by omega)).mpr (Or.inr ⟨b, List.mem_cons_of_mem _ hb, hi⟩)
      exact hafter.trans hbefore.symm

omit hinv in
theorem page_kallocFound_zero (c : Nat) :
    getPageFromAddr (kallocFound h.pmm 0 0 c) (getAddrFromPage h.pmm 0) = 0 :=
  getPageFromAddr_getAddrFromPage (s := kallocFound h.pmm 0 0 c) (by decide)

/-- No pages from page 0 on: only entry 0 changes. -/
theorem entry_kallocFound_zero (hq : q < h.pmm.numPagesInMap) (c : Nat) :
    (kallocFound h.pmm 0 0 c).pagesAllocated q = if q = 0 then 0 else h.pmm.pagesAllocated q :=
  pagesAllocated_kallocFound hinv.ready.toLaid (Nat.zero_le _) hq

/-- No page was reserved, and entry 0 was cleared. -/
theorem gets_zero (hc : c < h.pmm.maxPagesAvailable) :
    h.Gets wanted (.ret (some (getAddrFromPage h.pmm 0)) (kallocFound h.pmm 0 0 c)) ↔
      wanted = 0 ∧ h.NoBlockAtZero := by
  have hmax := hinv.ready.max_le
  have hN := hinv.same.pages
  have hpage := page_kallocFound_zero (h := h) c
  have hentry := fun q hq => hinv.entry_kallocFound_zero (q := q) hq c
  constructor
  · rintro ⟨hres, hkeep⟩
    have hle := (hres _ rfl).1
    rw [hpage, hentry 0 (by omega), if_pos rfl] at hle
    refine ⟨by omega, fun b hb hb0 => ?_⟩
    -- the entry of a block at page 0 would be gone
    have hsame := (hkeep b hb).1
    rw [hb0, hentry 0 (by omega), if_pos rfl, ← hb0, hinv.entries b hb] at hsame
    have hpos := (hinv.ok b hb).pos
    omega
  · rintro ⟨rfl, hno⟩
    refine ⟨?_, fun b hb => ⟨?_, fun i hi => ?_⟩⟩
    · rintro _ ⟨⟩
      rw [Reserved, hpage, hentry 0 (by omega), if_pos rfl]
      exact ⟨Nat.zero_le _, fun i h1 h2 => by omega⟩
    · have hbmax := (hinv.ok b hb).le_max
      have hpos := (hinv.ok b hb).pos
      have hmax' := hinv.max_le
      rw [hentry b.start (by omega), if_neg (hno b hb)]
    · have hbmax := (hinv.ok b hb).le_max
      have hmax' := hinv.max_le
      have hi2 : i < b.start + b.pages := hi.2
      rw [taken_kallocFound hinv.ready.toLaid (by omega) (by omega) (by omega)]
      simp

omit hinv in
/-- A failed call reserves nothing and touches nothing. -/
theorem gets_none (c : Nat) : h.Gets wanted (.ret none { h.pmm with allocationCursor := c }) :=
  ⟨fun _ hr => (Option.some_ne_none _ hr.symm).elim, fun _ _ => ⟨rfl, fun _ _ => rfl⟩⟩

/-- **When a request for `wanted` bytes, passed on as `n`, is honoured.** -/
theorem gets_iff (hfew : s₀.numPagesInMap < 2 ^ 32) (hn : n < 2 ^ 64) :
    h.Gets wanted (kalloc n h.pmm) ↔
      if divRoundup n pageSize = 0 then h.CursorFree ∨ (wanted = 0 ∧ h.NoBlockAtZero)
      else wanted ≤ pageSize * divRoundup n pageSize ∨ h.NoRoom (divRoundup n pageSize) := by
  rcases kalloc_any hinv.ready hn with ⟨h1, h64, p, c, hp, hfree, hc, heq⟩ | ⟨h1, h64, hnone, heq⟩ |
    ⟨h0, htaken, c, hc, heq⟩ | ⟨h0, hfree, c, -, heq⟩
  · rw [heq, divRoundup_eq h64, if_neg (by omega), hinv.gets_found hfew h1 hp hfree hc]
    refine ⟨Or.inl, ?_⟩
    rintro (hle | hno)
    · exact hle
    · exact absurd hfree (hno p hp)
  · rw [heq, divRoundup_eq h64, if_neg (by omega)]
    exact ⟨fun _ => Or.inr hnone, fun _ => gets_none 0⟩
  · rw [heq, if_pos h0, hinv.gets_zero hc, PmmRun.CursorFree, htaken]
    simp
  · rw [heq, if_pos h0]
    exact ⟨fun _ => Or.inl hfree, fun _ => gets_none c⟩

/-- A request that touches no other block keeps the invariant. -/
theorem after_any (hfew : s₀.numPagesInMap < 2 ^ 32) (hn : n < 2 ^ 64)
    (hok : h.Gets wanted (kalloc n h.pmm)) (hstep : h.after n (kalloc n h.pmm) = some h') :
    BlocksInv s₀ h' := by
  rcases kalloc_any hinv.ready hn with ⟨h1, h64, p, c, hp, hfree, hc, heq⟩ | ⟨-, -, -, heq⟩ |
    ⟨-, -, c, hc, heq⟩ | ⟨-, -, c, hc, heq⟩
  · have hnew := hinv.after_kalloc h1 hfew hp hfree hc
    have hpos := (hnew.ok _ List.mem_cons_self).pos
    rw [heq, PmmRun.after, if_neg (by omega)] at hstep
    cases hstep
    exact hnew
  · rw [heq] at hstep
    cases hstep
    exact hinv.moveCursor (Nat.zero_lt_of_lt hinv.ready.cursor_lt)
  · have hmax := hinv.ready.max_le
    have hN := hinv.same.pages
    have hpage := page_kallocFound_zero (h := h) c
    have hentry := fun q hq => hinv.entry_kallocFound_zero (q := q) hq c
    rw [heq, hinv.gets_zero hc] at hok
    have hzero : h.pmm.pagesAllocated 0 = 0 := by
      by_contra hne
      obtain ⟨b, hb, hb0⟩ := hinv.noEntry 0 (by omega) hne
      exact hok.2 b hb hb0
    have hpages : (newBlock (kallocFound h.pmm 0 0 c) (getAddrFromPage h.pmm 0) n).pages = 0 := by
      rw [newBlock, hpage]
      exact (hentry 0 (by omega)).trans (if_pos rfl)
    rw [heq, PmmRun.after, if_pos hpages] at hstep
    cases hstep
    refine hinv.congr { hinv.ready with cursor_lt := hc } { hinv.same with } (fun i hi => ?_)
      fun q hq => ?_
    · rw [taken_kallocFound hinv.ready.toLaid (by omega) (by omega) (by omega)]
      simp
    · rw [hentry q (by omega)]
      by_cases hq0 : q = 0
      · rw [if_pos hq0, hq0, hzero]
      · rw [if_neg hq0]
  · rw [heq] at hstep
    cases hstep
    exact hinv.moveCursor hc

/-- **The condition is exact for one call.** -/
theorem honoured_iff (hfew : s₀.numPagesInMap < 2 ^ 32) {op : PmmCall}
    (hstep : h.call op = some h') : h.Honours op ↔ h.Sized op := by
  cases op with
  | kalloc n =>
    rw [PmmRun.call] at hstep
    split at hstep
    · next hn =>
      rw [PmmRun.Honours, PmmRun.Sized, hinv.gets_iff hfew hn]
      by_cases h1 : 1 ≤ n ∧ n + 4095 < 2 ^ 64
      · have hpos := (one_le_divRoundup hn).mpr h1
        rw [if_neg (by omega), divRoundup_eq h1.2]
        refine ⟨fun _ => Or.inl h1, fun _ => Or.inl ?_⟩
        unfold pageSize
        omega
      · have h0 : divRoundup n pageSize = 0 := by
          have := (one_le_divRoundup hn).not.mpr h1
          omega
        rw [if_pos h0]
        exact ⟨Or.inr, fun hc => hc.resolve_left h1⟩
    · cases hstep
  | kpalloc p =>
    rw [PmmRun.call] at hstep
    split at hstep
    · next hp =>
      -- the product has lost all but the low 52 bits of the page count
      have hmul : mul64 pageSize p = 4096 * (p % 2 ^ 52) := by
        unfold mul64 pageSize
        omega
      have hk : divRoundup (mul64 pageSize p) pageSize = p % 2 ^ 52 := by
        rw [hmul, divRoundup_eq (by omega)]
        omega
      have hlt : mul64 pageSize p < 2 ^ 64 := Nat.mod_lt _ (by decide)
      rw [PmmRun.Honours, PmmRun.Sized, kpalloc, hinv.gets_iff hfew hlt, hk]
      unfold pageSize
      by_cases h0 : p % 2 ^ 52 = 0
      · rw [if_pos h0]
        constructor
        · rintro (hfree | ⟨hw, hno⟩)
          · exact Or.inr (Or.inl ⟨h0, hfree⟩)
          · exact Or.inr (Or.inr (Or.inl ⟨by omega, hno⟩))
        · rintro (hsmall | ⟨-, hfree⟩ | ⟨hw, hno⟩ | ⟨hne, -⟩)
          · omega
          · exact Or.inl hfree
          · exact Or.inr ⟨by omega, hno⟩
          · exact absurd h0 hne
      · rw [if_neg h0]
        constructor
        · rintro (hle | hno)
          · exact Or.inl (by omega)
          · exact Or.inr (Or.inr (Or.inr ⟨h0, hno⟩))
        · rintro (hsmall | ⟨hz, -⟩ | ⟨hz, -⟩ | ⟨-, hno⟩)
          · exact Or.inl (by omega)
          · exact absurd hz h0
          · omega
          · exact Or.inr hno
    · cases hstep
  | kfree ptr => exact Iff.rfl

/-- **Every honoured call keeps the invariant.** -/
theorem call (hfew : s₀.numPagesInMap < 2 ^ 32)
    (hmap : s₀.lowestAddress + pageSize * s₀.numPagesInMap + s₀.vmmHigherHalfOffset ≤ 2 ^ 64)
    {op : PmmCall} (hok : h.Honours op) (hstep : h.call op = some h') : BlocksInv s₀ h' := by
  cases op with
  | kalloc n =>
    rw [PmmRun.call] at hstep
    split at hstep
    · next hn => exact hinv.after_any hfew hn hok hstep
    · cases hstep
  | kpalloc p =>
    rw [PmmRun.call] at hstep
    split at hstep
    · exact hinv.after_any hfew (Nat.mod_lt _ (by decide)) hok hstep
    · cases hstep
  | kfree ptr =>
    rw [PmmRun.call] at hstep
    exact hinv.stepAny hmap hfew hstep

end BlocksInv

/-! ## Whole runs -/

/--
**The sizes for which the page allocator keeps its word.**

In a run of `kalloc` and `kpalloc` calls with any 64-bit arguments and of `kfree` calls with any
pointers, all calls return blocks that are long enough and leave the other blocks alone exactly if
every call meets `PmmRun.Sized`.
-/
theorem sizes_honoured_iff (boot : Boot) (m : Memory) (s₀ : Pmm)
    (hok : MemmapOk boot.hhdmOffset boot.memmap)
    (hinit : kmemInit boot (Pmm.zero m) = .ret () s₀)
    (hcap : s₀.numPagesInMap ≤ 8 * bitmapSize s₀.numPagesInMap)
    (hfew : s₀.numPagesInMap < 2 ^ 32) (hmax : 1 ≤ s₀.maxPagesAvailable)
    (ops : List PmmCall) (h : PmmRun) :
    RunIf PmmRun.call PmmRun.Honours ops (PmmRun.start s₀) h ↔
      RunIf PmmRun.call PmmRun.Sized ops (PmmRun.start s₀) h := by
  obtain ⟨c, e, rest, hb⟩ := kmemInit_booted hok hinit
  have hmap := hb.pages_mapped hok hmax
  have hiff : RunIf PmmRun.call (fun h op => True ∧ h.Honours op) ops (PmmRun.start s₀) h ∧ True ↔
      RunIf PmmRun.call PmmRun.Sized ops (PmmRun.start s₀) h := by
    refine runIf_iff_of_step (BlocksInv s₀) (fun _ => True) PmmRun.Honours ?_ ops
      (hb.blocksInv hok hcap hmax) trivial
    intro s op t hI _ hstep
    have hone := hI.honoured_iff hfew hstep
    exact ⟨by rw [and_true, hone], fun hC => hI.call hfew hmap (hone.mpr hC) hstep⟩
  simpa using hiff

/-- Blocks of 2 pages and of 1 page, and a double free. -/
def anySizeOps : List PmmCall :=
  [.kalloc 5000, .kpalloc 1, .kfree 0xffff800000102000, .kfree 0xffff800000102000]

def anySizeRun : PmmRun :=
  (run PmmRun.call anySizeOps (PmmRun.start samplePmm)).get (by decide +kernel)

theorem sizes_honoured_sample :
    RunIf PmmRun.call PmmRun.Honours anySizeOps (PmmRun.start samplePmm) anySizeRun := by
  refine (sizes_honoured_iff sampleBoot (fun _ => 0) samplePmm sampleBoot_ok sample_kmemInit
    (by decide +kernel) (by decide +kernel) (by decide +kernel) anySizeOps anySizeRun).mpr
    (runIf_of_forall anySizeOps ?_ (Option.some_get _).symm)
  simp only [anySizeOps, List.forall_mem_cons]
  exact ⟨fun _ => Or.inl (by decide), fun _ => Or.inl (by decide), fun _ => trivial,
    fun _ => trivial, by simp⟩

/-- Right after `kmem_init` page 0 is taken and the cursor is on it. `kalloc(2^64 - 1)` returns page
0, of which it has reserved nothing; `kpalloc(2^52 + 1)` returns one page. -/
theorem sizes_wrap_sample :
    kmemInit sampleBoot (Pmm.zero fun _ => 0) = .ret () samplePmm ∧
      (∃ t, kalloc (2 ^ 64 - 1) samplePmm = .ret (some 0xffff800000100000) t) ∧
      (∃ t, kpalloc (2 ^ 52 + 1) samplePmm = .ret (some 0xffff800000102000) t) ∧
      ¬ (PmmRun.start samplePmm).Honours (.kalloc (2 ^ 64 - 1)) ∧
      ¬ (PmmRun.start samplePmm).Honours (.kpalloc (2 ^ 52 + 1)) := by
  obtain ⟨c, e, rest, hb⟩ := kmemInit_booted sampleBoot_ok sample_kmemInit
  have hinv := hb.blocksInv sampleBoot_ok (by decide +kernel) (by decide +kernel)
  have hfew : samplePmm.numPagesInMap < 2 ^ 32 := by decide +kernel
  have htaken : samplePmm.taken samplePmm.allocationCursor = true := by decide +kernel
  have hfree : samplePmm.taken 2 = false ∧ 2 + 1 ≤ samplePmm.maxPagesAvailable := by
    decide +kernel
  refine ⟨sample_kmemInit, Outcome.eq_ret_of_value? (by decide +kernel),
    Outcome.eq_ret_of_value? (by decide +kernel), fun hh => ?_, fun hh => ?_⟩
  · obtain ⟨r, hr⟩ := Option.isSome_iff_exists.mp
      (show ((PmmRun.start samplePmm).call (.kalloc (2 ^ 64 - 1))).isSome by decide +kernel)
    rcases (hinv.honoured_iff hfew hr).mp hh with ⟨-, hlt⟩ | hcur | ⟨h0, -⟩
    · omega
    · exact absurd (htaken.symm.trans hcur) (by decide)
    · omega
  · obtain ⟨r, hr⟩ := Option.isSome_iff_exists.mp
      (show ((PmmRun.start samplePmm).call (.kpalloc (2 ^ 52 + 1))).isSome by decide +kernel)
    rcases (hinv.honoured_iff hfew hr).mp hh with ⟨-, hlt⟩ | ⟨h0, -⟩ | ⟨h0, -⟩ | ⟨-, hno⟩
    · omega
    · omega
    · omega
    · refine hno 2 hfree.2 fun i h1 h2 => ?_
      obtain rfl : i = 2 := by omega
      exact hfree.1

end BloreOs
