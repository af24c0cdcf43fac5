import BloreOs.Mem.Scan

/-!
# What `kalloc` and `kfree` do to the page tables

`Pmm.Laid` says where the tables are: the bitmap has a bit for every page of the map and does not
touch the entry table. Under it the bits and the `pages_allocated` counts behave like two
independent arrays (`taken_kallocFound`, `pagesAllocated_kallocFound`, `taken_kfreed`,
`pagesAllocated_kfreed`), and

* `kalloc_cases` — a request of at least one page reserves a free run below
  `max_pages_available`, or fails because there is none,
* `kfree_inBounds` — a pointer into the scanned pages has its block cleared,
* `kfree_outOfBounds` — any other pointer halts the CPU.

Everything later is derived from these three.
-/

namespace BloreOs

open Loop

variable {s : Pmm} {p q i k c n ptr : Nat}

/-- The page tables of a map of `numPagesInMap` pages. -/
structure Pmm.Laid (s : Pmm) : Prop where
  pages_lt : s.numPagesInMap < 2 ^ 52
  capacity : s.numPagesInMap ≤ 8 * bitmapSize s.numPagesInMap
  apart : s.pageBitmap + bitmapSize s.numPagesInMap ≤ s.entryMap ∨
    s.entryMap + 4 * s.numPagesInMap ≤ s.pageBitmap

/-- A page allocator between two calls. -/
structure Pmm.Ready (s : Pmm) : Prop extends s.Laid where
  unlocked : s.lock = false
  cursor_lt : s.allocationCursor < s.maxPagesAvailable
  max_le : s.maxPagesAvailable ≤ s.numPagesInMap

/-! ## Pages and addresses -/

theorem getPageFromAddr_getAddrFromPage (hp : p < 2 ^ 52) :
    getPageFromAddr s (getAddrFromPage s p) = p := by
  have hmul : mul64 p pageSize = p * 4096 := mul64_eq (by unfold pageSize; omega)
  have hsub : sub64 (sub64 (getAddrFromPage s p) s.lowestAddress) s.vmmHigherHalfOffset
      = p * 4096 := by
    rw [getAddrFromPage, hmul]
    unfold sub64 add64
    omega
  rw [getPageFromAddr, hsub]
  exact Nat.mul_div_cancel p (by decide)

/-! ## The two tables do not see each other -/

/-- The byte of page `i`'s bit is not one of `entry_map[p]`. -/
theorem Pmm.Laid.bit_ne_entry (hs : s.Laid) (hi : i < s.numPagesInMap) (hp : p < s.numPagesInMap) :
    s.pageBitmap + i / 8 < s.entryMap + 4 * p ∨ s.entryMap + 4 * p + 4 ≤ s.pageBitmap + i / 8 := by
  have hcap := hs.capacity
  rcases hs.apart with h | h
  · left
    omega
  · right
    omega

/-- Writing `entry_map[p]` does not change a bit. -/
theorem Pmm.Laid.bitmapTest_store (hs : s.Laid) (hi : i < s.numPagesInMap)
    (hp : p < s.numPagesInMap) (m : Memory) (v : Nat) :
    bitmapTest (m.store (s.entryMap + 4 * p) 4 v) s.pageBitmap i = bitmapTest m s.pageBitmap i :=
  bitmapTest_congr (Memory.store_outside (hs.bit_ne_entry hi hp))

/-- Writing bits of pages of the map does not change `entry_map[p]`. -/
theorem Pmm.Laid.load_of_bits (hs : s.Laid) (hp : p < s.numPagesInMap) {m m' : Memory}
    (h : ∀ a, (∀ i < s.numPagesInMap, a ≠ s.pageBitmap + i / 8) → m' a = m a) :
    m'.load (s.entryMap + 4 * p) 4 = m.load (s.entryMap + 4 * p) 4 := by
  refine Memory.load_congr 4 fun a h1 h2 => h a fun i hi ha => ?_
  rcases hs.bit_ne_entry hi hp with h | h <;> omega

/-! ## `kalloc` -/

/-- What `kalloc` returns after the scan has ended. -/
def kallocEnd (s : Pmm) : ScanEnd → Outcome Pmm (Option Nat)
  | .failed c => .ret none { s with allocationCursor := c }
  | .found p m c => .ret (some (getAddrFromPage s p)) (kallocFound s p m c)

theorem kalloc_eq (h : s.lock = false) (n : Nat) : kalloc n s =
    (loop (scanBody s.taken s.maxPagesAvailable (divRoundup n pageSize)) scanFuel
      (scanStart s.allocationCursor)).elim (.spin { s with lock := true }) (kallocEnd s) := by
  have hlock : spinlockLock Pmm.lockAt s = .ret () { s with lock := true } :=
    if_neg (by rw [show Pmm.lockAt.get s = false from h]; decide)
  rw [kalloc, hlock, Outcome.ret_bind]
  generalize hloop : loop (scanBody s.taken s.maxPagesAvailable (divRoundup n pageSize)) scanFuel
    (scanStart s.allocationCursor) = r
  have hloop' : loop (scanBody (Pmm.taken { s with lock := true }) s.maxPagesAvailable
    (divRoundup n pageSize)) scanFuel (scanStart s.allocationCursor) = r := hloop
  simp only [hloop']
  obtain ⟨⟩ := s
  cases h
  rcases r with - | ⟨- | -⟩
  · rfl
  · rfl
  · rfl

/-- What the end of a scan for `k` pages says about the bitmap. A request of no pages may succeed
anywhere and may fail. -/
def KallocSpec (s : Pmm) (k : Nat) : ScanEnd → Prop
  | .found p n c => n = k ∧ p < scanBound s.maxPagesAvailable ∧
      p + k ≤ scanBound s.maxPagesAvailable ∧ FreeRun s.taken p k ∧
      c < scanBound s.maxPagesAvailable
  | .failed c => c < scanBound s.maxPagesAvailable ∧ (1 ≤ k → c = 0 ∧
      ∀ p, p + k ≤ scanBound s.maxPagesAvailable → ¬ FreeRun s.taken p k)

/-- **`kalloc` of any size.** It returns, and the cursor stays below the bound. -/
theorem kalloc_spec (hu : s.lock = false)
    (hc : s.allocationCursor < scanBound s.maxPagesAvailable)
    (hm : s.maxPagesAvailable < 2 ^ 64) (n : Nat) :
    ∃ r, kalloc n s = kallocEnd s r ∧ KallocSpec s (divRoundup n pageSize) r := by
  have hle := scanBound_le hm
  have hk64 := divRoundup_lt n
  obtain ⟨r, hr, hin⟩ := scan_ends s.taken (divRoundup n pageSize) hc hm
  have hloop := loop_mono hr (show _ ≤ scanFuel by unfold scanFuel; omega)
  refine ⟨r, by rw [kalloc_eq hu, hloop, Option.elim_some], ?_⟩
  by_cases hk : 1 ≤ divRoundup n pageSize
  · obtain ⟨r', hr', hspec⟩ := scan_spec s.taken hc hm hk hk64
    rw [hr, Option.some.injEq] at hr'
    rw [← hr'] at hspec
    cases r with
    | found p k c =>
      obtain ⟨h1, h2, h3, h4⟩ := hspec
      exact ⟨h1, hin.1, h2, h3, h4⟩
    | failed c => exact ⟨hin, fun _ => hspec⟩
  · cases r with
    | found p k c =>
      obtain ⟨h1, h2, h3⟩ := hin
      exact ⟨h2, h1, by omega, fun i h4 h5 => by omega, h3⟩
    | failed c => exact ⟨hin, fun h1 => absurd h1 hk⟩

/-- **`kalloc` on a ready allocator.** -/
theorem kalloc_cases (hs : s.Ready) (hn : 1 ≤ n) (hn64 : n + 4095 < 2 ^ 64) :
    (∃ p c, p + (n + 4095) / 4096 ≤ s.maxPagesAvailable ∧
        FreeRun s.taken p ((n + 4095) / 4096) ∧ c < s.maxPagesAvailable ∧
        kalloc n s = .ret (some (getAddrFromPage s p)) (kallocFound s p ((n + 4095) / 4096) c)) ∨
      ((∀ p, p + (n + 4095) / 4096 ≤ s.maxPagesAvailable →
          ¬ FreeRun s.taken p ((n + 4095) / 4096)) ∧
        kalloc n s = .ret none { s with allocationCursor := 0 }) := by
  have hmax := hs.max_le
  have hlt := hs.pages_lt
  have hcur := hs.cursor_lt
  have hbound : scanBound s.maxPagesAvailable = s.maxPagesAvailable := scanBound_of_pos (by omega)
  obtain ⟨r, hr, hspec⟩ := kalloc_spec hs.unlocked (by rw [hbound]; exact hcur) (by omega) n
  rw [divRoundup_eq hn64] at hspec
  rw [hr]
  cases r with
  | found p m c =>
    obtain ⟨rfl, -, hp, hfree, hc⟩ := hspec
    rw [hbound] at hp hc
    exact Or.inl ⟨p, c, hp, hfree, hc, rfl⟩
  | failed c =>
    obtain ⟨-, h⟩ := hspec
    obtain ⟨rfl, hnone⟩ := h (by omega)
    rw [hbound] at hnone
    exact Or.inr ⟨hnone, rfl⟩

/-- **`kalloc` of one page** takes the first free page from the cursor on, unless the cursor meets
the bound. -/
theorem kalloc_first (hu : s.lock = false) (hcp : s.allocationCursor ≤ p) (hp : p < 2 ^ 64)
    (hpass : ∀ i, s.allocationCursor ≤ i → i < p → s.taken i = true ∧ i + 1 ≠ s.maxPagesAvailable)
    (hfree : s.taken p = false) :
    ∃ c, kalloc pageSize s = .ret (some (getAddrFromPage s p)) (kallocFound s p 1 c) ∧
      (p + 1 < 2 ^ 64 → p + 1 ≠ s.maxPagesAvailable → c = p + 1) := by
  obtain ⟨c, hloop, hc⟩ := scan_first hp hfree (p - s.allocationCursor) s.allocationCursor
    (by omega) hpass
  have hloop' := loop_mono hloop (show _ ≤ scanFuel by unfold scanFuel; omega)
  refine ⟨c, ?_, hc⟩
  rw [kalloc_eq hu, show divRoundup pageSize pageSize = 1 by decide, hloop']
  rfl

/-- **A request for no pages** on a taken page returns page 0 and moves the cursor. -/
theorem kalloc_zero (hu : s.lock = false) (h0 : divRoundup n pageSize = 0)
    (ht : s.taken s.allocationCursor = true) :
    kalloc n s = .ret (some (getAddrFromPage s 0)) (kallocFound s 0 0
      (if add64 s.allocationCursor 1 = s.maxPagesAvailable then 0
        else add64 s.allocationCursor 1)) := by
  rw [kalloc_eq hu, h0, show scanFuel = 2 ^ 65 - 1 + 1 by decide, scan_zero_taken ht]
  rfl

theorem mem_kallocFound (hk : p + k < 2 ^ 64) : (kallocFound s p k c).mem
    = (bitmapOnRange s.mem s.pageBitmap p (p + k)).store (s.entryMap + 4 * p) 4 k := by
  rw [kallocFound, reservePages, add64_eq hk]

/-- A bit of the bitmap after `kalloc`, wherever the two tables are: its byte may only not be one of
the entry that `kalloc` writes. -/
theorem taken_kallocFound_of_ne (hk : p + k < 2 ^ 64)
    (hi : s.pageBitmap + i / 8 < s.entryMap + 4 * p ∨ s.entryMap + 4 * p + 4 ≤ s.pageBitmap + i / 8) :
    (kallocFound s p k c).taken i = (s.taken i || decide (p ≤ i ∧ i < p + k)) := by
  show bitmapTest (kallocFound s p k c).mem s.pageBitmap i = _
  rw [mem_kallocFound hk, bitmapTest_congr (Memory.store_outside hi), bitmapTest_bitmapOnRange]
  rfl

/-- `kalloc` sets the bits of the pages it returns and no other. -/
theorem taken_kallocFound (hs : s.Laid) (hp : p < s.numPagesInMap) (hk : p + k ≤ s.numPagesInMap)
    (hi : i < s.numPagesInMap) :
    (kallocFound s p k c).taken i = (s.taken i || decide (p ≤ i ∧ i < p + k)) := by
  have hlt := hs.pages_lt
  exact taken_kallocFound_of_ne (by omega) (hs.bit_ne_entry hi hp)

theorem pagesAllocated_kallocFound (hs : s.Laid)
    (hk : p + k ≤ s.numPagesInMap) (hq : q < s.numPagesInMap) :
    (kallocFound s p k c).pagesAllocated q
      = if q = p then k % 2 ^ 32 else s.pagesAllocated q := by
  have hlt := hs.pages_lt
  show (kallocFound s p k c).mem.load (s.entryMap + 4 * q) 4 = _
  rw [mem_kallocFound (by omega)]
  by_cases hqp : q = p
  · rw [if_pos hqp, hqp, Memory.load_store_same]
    rfl
  · rw [if_neg hqp, Memory.load_store_disjoint (by omega)]
    refine hs.load_of_bits hq fun a ha => bitmapOnRange_outside fun j h1 h2 => ha j (by omega)

/-! ## `kfree` -/

theorem kfree_eq (h : s.lock = false) (ptr : Nat) : kfree ptr s =
    if s.maxPagesAvailable ≤ getPageFromAddr s ptr then .halt { s with lock := true }
    else
      match loop (kfreeBody s.pageBitmap s.entryMap (getPageFromAddr s ptr)) (2 ^ 32)
        (getPageFromAddr s ptr, s.mem) with
      | none => .spin { s with lock := true }
      | some mem =>
        .ret () { s with mem := mem.store (s.entryMap + 4 * getPageFromAddr s ptr) 4 0 } := by
  obtain ⟨⟩ := s
  cases h
  rfl

/-- `kfree` only writes memory. -/
theorem kfree_frame {t : Pmm} (h : kfree ptr s = .ret () t) (hu : s.lock = false) :
    t = { s with mem := t.mem } := by
  rw [kfree_eq hu] at h
  split at h
  · cases h
  · split at h
    · cases h
    · cases h
      rfl

/-- The allocator after the block at page `p` has been freed. -/
def kfreed (s : Pmm) (p : Nat) : Pmm :=
  { s with
    mem := (bitmapOffRange s.mem s.pageBitmap p (p + s.pagesAllocated p)).store
      (s.entryMap + 4 * p) 4 0 }

theorem bitmapOffRange_succ {m : Memory} {bitmap a b : Nat} (h : a ≤ b) :
    bitmapOffRange m bitmap a (b + 1) = bitmapOff (bitmapOffRange m bitmap a b) bitmap b := by
  unfold bitmapOffRange
  rw [show b + 1 - a = (b - a) + 1 by omega, List.range'_concat, List.foldl_append]
  simp only [List.foldl_cons, List.foldl_nil]
  congr 1
  omega

/-- The entry of the block at page `p` shares no byte with the bits of its pages. -/
def Pmm.EntryApart (s : Pmm) (p : Nat) : Prop :=
  ∀ i, p ≤ i → i < p + s.pagesAllocated p →
    s.pageBitmap + i / 8 < s.entryMap + 4 * p ∨ s.entryMap + 4 * p + 4 ≤ s.pageBitmap + i / 8

/-- **The loop of `kfree`.** Its bound is read again in every iteration and does not change. -/
theorem kfree_loop_of_apart (hk : p + s.pagesAllocated p < 2 ^ 64) (hapart : s.EntryApart p) :
    loop (kfreeBody s.pageBitmap s.entryMap p) (2 ^ 32) (p, s.mem)
      = some (bitmapOffRange s.mem s.pageBitmap p (p + s.pagesAllocated p)) := by
  have hload : ∀ j ≤ s.pagesAllocated p,
      (bitmapOffRange s.mem s.pageBitmap p (p + j)).load (s.entryMap + 4 * p) 4
        = s.pagesAllocated p := fun j hj => by
    refine Memory.load_congr 4 fun a h1 h2 => bitmapOffRange_outside fun i hi1 hi2 => ?_
    have := hapart i hi1 (by omega)
    omega
  -- induction on the bits that are left
  have key : ∀ n j, j + n = s.pagesAllocated p →
      loop (kfreeBody s.pageBitmap s.entryMap p) (n + 1)
          (p + j, bitmapOffRange s.mem s.pageBitmap p (p + j))
        = some (bitmapOffRange s.mem s.pageBitmap p (p + s.pagesAllocated p)) := by
    intro n
    induction n with
    | zero =>
      intro j hj
      refine loop_inr ?_ 0
      rw [kfreeBody, if_neg (by rw [hload j (by omega), add64_eq (by omega)]; omega),
        show j = s.pagesAllocated p by omega]
    | succ n ih =>
      intro j hj
      have hstep : kfreeBody s.pageBitmap s.entryMap p
          (p + j, bitmapOffRange s.mem s.pageBitmap p (p + j))
            = .inl (p + (j + 1), bitmapOffRange s.mem s.pageBitmap p (p + (j + 1))) := by
        rw [kfreeBody, if_pos (by rw [hload j (by omega), add64_eq (by omega)]; omega)]
        simp only [add64_eq (show p + j + 1 < 2 ^ 64 by omega)]
        rw [← Nat.add_assoc, bitmapOffRange_succ (by omega)]
      rw [loop_inl hstep]
      exact ih (j + 1) (by omega)
  have h32 : s.pagesAllocated p < 2 ^ 32 := Memory.load_lt _ 4 _
  have h0 := key (s.pagesAllocated p) 0 (by omega)
  rw [show bitmapOffRange s.mem s.pageBitmap p (p + 0) = s.mem by simp [bitmapOffRange]] at h0
  exact loop_mono h0 (by omega)

/-- A block inside the map. -/
theorem kfree_loop (hs : s.Laid) (hp : p < s.numPagesInMap)
    (hk : p + s.pagesAllocated p ≤ s.numPagesInMap) :
    loop (kfreeBody s.pageBitmap s.entryMap p) (2 ^ 32) (p, s.mem)
      = some (bitmapOffRange s.mem s.pageBitmap p (p + s.pagesAllocated p)) := by
  have hlt := hs.pages_lt
  exact kfree_loop_of_apart (by omega) fun i _ hi => hs.bit_ne_entry (hi.trans_le hk) hp

/-- **`kfree` of a pointer into the scanned pages.** -/
theorem kfree_inBounds (hs : s.Laid) (hu : s.lock = false) (hm : s.maxPagesAvailable ≤ s.numPagesInMap)
    (hp : getPageFromAddr s ptr = p) (hlt : p < s.maxPagesAvailable)
    (hk : p + s.pagesAllocated p ≤ s.numPagesInMap) : kfree ptr s = .ret () (kfreed s p) := by
  rw [kfree_eq hu, hp, if_neg (by omega), kfree_loop hs (by omega) hk]
  rfl

/-- **`kfree` of any other pointer.** -/
theorem kfree_outOfBounds (hu : s.lock = false)
    (h : s.maxPagesAvailable ≤ getPageFromAddr s ptr) :
    kfree ptr s = .halt { s with lock := true } := by
  rw [kfree_eq hu, if_pos h]

theorem taken_kfreed (hs : s.Laid) (hp : p < s.numPagesInMap) (hi : i < s.numPagesInMap) :
    (kfreed s p).taken i = (s.taken i && !decide (p ≤ i ∧ i < p + s.pagesAllocated p)) := by
  show bitmapTest ((bitmapOffRange s.mem s.pageBitmap p _).store (s.entryMap + 4 * p) 4 0)
    s.pageBitmap i = _
  rw [hs.bitmapTest_store hi hp, bitmapTest_bitmapOffRange]
  rfl

theorem pagesAllocated_kfreed (hs : s.Laid)
    (hk : p + s.pagesAllocated p ≤ s.numPagesInMap) (hq : q < s.numPagesInMap) :
    (kfreed s p).pagesAllocated q = if q = p then 0 else s.pagesAllocated q := by
  show ((bitmapOffRange s.mem s.pageBitmap p _).store (s.entryMap + 4 * p) 4 0).load
    (s.entryMap + 4 * q) 4 = _
  by_cases hqp : q = p
  · rw [if_pos hqp, hqp]
    exact (Memory.load_store_same 4).trans (Nat.zero_mod _)
  · rw [if_neg hqp, Memory.load_store_disjoint (by omega)]
    exact hs.load_of_bits hq fun a ha => bitmapOffRange_outside fun j h1 h2 => ha j (by omega)

/-! ## The scan window

No table has to be in place here: the bitmap is whatever the memory holds.
-/

/-- The pages of the scan window have nonzero 64-bit addresses in the direct map. -/
def Pmm.Mapped (s : Pmm) : Prop :=
  0 < s.lowestAddress + s.vmmHigherHalfOffset ∧
    s.lowestAddress + pageSize * s.maxPagesAvailable + s.vmmHigherHalfOffset ≤ 2 ^ 64

/-- A pointer that `kalloc` returns is not mistaken for the `NULL` of a failed allocation. -/
theorem Pmm.Mapped.getAddrFromPage_ne_zero (hs : s.Mapped) (hp : p < s.maxPagesAvailable) :
    getAddrFromPage s p ≠ 0 := by
  obtain ⟨h1, h2⟩ := hs
  unfold pageSize at h2
  have hmul : mul64 p pageSize = p * 4096 := mul64_eq (by unfold pageSize; omega)
  have hsum : add64 s.lowestAddress (p * 4096) = s.lowestAddress + p * 4096 := add64_eq (by omega)
  rw [getAddrFromPage, hmul, hsum, add64_eq (by omega)]
  omega

/--
**`kalloc` is exact on its scan window.**

From any cursor below the bound it returns. It finds a run of `⌈n / 4096⌉` free pages below the
bound if there is one, and marks its pages and no others; the bits are those of a bitmap that does
not share a byte with the written entry. If there is none, only the cursor is reset.
-/
theorem kalloc_exact (s : Pmm) (n : Nat) (hu : s.lock = false) (hmax : 1 ≤ s.maxPagesAvailable)
    (hm64 : s.maxPagesAvailable < 2 ^ 64) (hcur : s.allocationCursor < s.maxPagesAvailable)
    (hn : 1 ≤ n) (hn64 : n + 4095 < 2 ^ 64) :
    ∃ r t, kalloc n s = .ret r t ∧
      (r ≠ none ↔ ∃ p, p + (n + 4095) / 4096 ≤ s.maxPagesAvailable ∧
        FreeRun s.taken p ((n + 4095) / 4096)) ∧
      (∀ ptr, r = some ptr → (s.Mapped → ptr ≠ 0) ∧ ∃ p, ptr = getAddrFromPage s p ∧
        p + (n + 4095) / 4096 ≤ s.maxPagesAvailable ∧ FreeRun s.taken p ((n + 4095) / 4096) ∧
        ∀ i, s.pageBitmap + i / 8 < s.entryMap + 4 * p ∨
            s.entryMap + 4 * p + 4 ≤ s.pageBitmap + i / 8 →
          t.taken i = (s.taken i || decide (p ≤ i ∧ i < p + (n + 4095) / 4096))) ∧
      (r = none → t.mem = s.mem ∧ t.numPagesAvailable = s.numPagesAvailable ∧
        t.allocationCursor = 0) ∧
      t.allocationCursor < s.maxPagesAvailable ∧ t.lock = false := by
  have hbound : scanBound s.maxPagesAvailable = s.maxPagesAvailable := scanBound_of_pos hmax
  obtain ⟨r, hr, hspec⟩ := kalloc_spec hu (by rw [hbound]; exact hcur) hm64 n
  rw [divRoundup_eq hn64] at hspec
  cases r with
  | found p k c =>
    obtain ⟨rfl, -, hp, hfree, hc⟩ := hspec
    rw [hbound] at hp hc
    refine ⟨some (getAddrFromPage s p), _, hr, ⟨fun _ => ⟨p, hp, hfree⟩, fun _ => by simp⟩, ?_,
      by simp, hc, hu⟩
    rintro _ ⟨⟩
    refine ⟨fun hs => hs.getAddrFromPage_ne_zero (by omega), p, rfl, hp, hfree, fun i hi => ?_⟩
    exact taken_kallocFound_of_ne (by omega) hi
  | failed c =>
    obtain ⟨hc, h⟩ := hspec
    obtain ⟨rfl, hnone⟩ := h (by omega)
    rw [hbound] at hc hnone
    refine ⟨none, _, hr, ?_, by simp, fun _ => ⟨rfl, rfl, rfl⟩, hc, hu⟩
    simpa using hnone

/-- Eight free pages and the cursor at page 6: two pages before the bound are too few, and the run
is found after the wrap. -/
theorem kalloc_exact_wrap :
    let s : Pmm := { Pmm.zero (fun _ => 0) with
      maxPagesAvailable := 8
      allocationCursor := 6
      pageBitmap := 0x1000
      entryMap := 0x2000 }
    ∃ r t, kalloc 16384 s = .ret r t ∧ r ≠ none ∧ t.allocationCursor < 8 := by
  obtain ⟨r, t, h, hiff, -, -, hc, -⟩ := kalloc_exact { Pmm.zero (fun _ => 0) with
    maxPagesAvailable := 8
    allocationCursor := 6
    pageBitmap := 0x1000
    entryMap := 0x2000 } 16384 rfl (by decide) (by decide) (by decide) (by decide) (by decide)
  refine ⟨r, t, h, hiff.mpr ⟨0, by decide, fun i _ _ => ?_⟩, hc⟩
  unfold Pmm.taken bitmapTest
  simp [Pmm.zero]

end BloreOs
