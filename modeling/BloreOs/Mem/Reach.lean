import BloreOs.Mem.Blocks
import BloreOs.Mem.Exact

/-!
# Which free pages `kalloc` can reach

Bits are numbered from `lowest_address`, holes and tables included. `kalloc` scans, and `kfree`
accepts, page numbers below `max_pages_available`, which counts the usable pages that are left.
The two agree only if the pages that are left come first (`Boot.GapFree`):

* `Booted.marked_lt_iff` — every marked page is below the bound exactly for gap-free maps,
* `Allocatable` — what a complete allocator would promise,
* `allocatable_iff_gapFree` — when the kernel keeps that promise.

On a machine with a hole, or with the tables at the front of memory, the map is not gap-free.
-/

namespace BloreOs

open Loop

variable {boot : Boot} {m : Memory} {s s₀ t : Pmm} {b e i n : Nat} {rest : List MemmapEntry}

/-! ## What is left of a map -/

/-- The first usable address. -/
def Boot.lowest (boot : Boot) : Nat := ((usable boot.memmap).map MemmapEntry.base).min?.getD 0

/-- The end of the last usable range. -/
def Boot.highest (boot : Boot) : Nat :=
  ((usable boot.memmap).map fun e => e.base + e.length).max?.getD 0

/-- The pages from the first usable address to the last. -/
def Boot.pages (boot : Boot) : Nat := (boot.highest - boot.lowest) / pageSize

/-- The map without the bitmap and the entry table. -/
def Boot.left (boot : Boot) : List MemmapEntry :=
  match carve (bitmapSize boot.pages) boot.memmap with
  | none => boot.memmap
  | some (_, rest) =>
    match carve (entryMapSize boot.pages) rest with
    | none => rest
    | some (_, left) => left

/-- Page `i` is usable and not part of a table. -/
def Boot.Left (boot : Boot) (i : Nat) : Prop :=
  ∃ x ∈ boot.left, x.type = .usable ∧ x.span.Has (boot.lowest + pageSize * i)

/-- The pages that are left come before all others. -/
def Boot.GapFree (boot : Boot) : Prop := ∀ i j, i < j → boot.Left j → boot.Left i

theorem RangeOf.eq {lo hi : Nat} (h : RangeOf boot lo hi) : lo = boot.lowest ∧ hi = boot.highest := by
  unfold Boot.lowest Boot.highest
  rcases h.tight with ⟨hnil, rfl, rfl⟩ | ⟨⟨x, hx, rfl⟩, y, hy, rfl⟩
  · simp [hnil]
  · constructor
    · have hmin : ((usable boot.memmap).map MemmapEntry.base).min? = some x.base := by
        rw [List.min?_eq_some_iff]
        refine ⟨List.mem_map_of_mem hx, fun a ha => ?_⟩
        obtain ⟨z, hz, rfl⟩ := List.mem_map.mp ha
        exact (h.bounds z hz).1
      rw [hmin, Option.getD_some]
    · have hmax : ((usable boot.memmap).map fun e => e.base + e.length).max?
          = some (y.base + y.length) := by
        rw [List.max?_eq_some_iff]
        refine ⟨List.mem_map.mpr ⟨y, hy, rfl⟩, fun a ha => ?_⟩
        obtain ⟨z, hz, rfl⟩ := List.mem_map.mp ha
        exact (h.bounds z hz).2
      rw [hmax, Option.getD_some]

namespace Booted

variable (h : Booted boot m s b e rest) (hok : MemmapOk boot.hhdmOffset boot.memmap)
  (hal : PageAligned boot.memmap)
include h

/-- The number of pages that the tables are made for. -/
theorem numPagesInMap_eq : s.numPagesInMap = boot.pages := by
  rw [h.pages, Boot.pages, h.range.eq.1, h.range.eq.2]

theorem left_eq : boot.left = s.memmap := by
  simp only [Boot.left, ← h.numPagesInMap_eq, h.carveBitmap, h.carveTable]

include hok hal

/-- `_get_free_pages` marks the pages that are left. -/
theorem marked_iff_left (i : Nat) :
    0 < Span.cover (freeSpans s.lowestAddress s.memmap) i ↔ boot.Left i := by
  rw [h.cover_free hok hal, Span.cover_pos, Boot.Left, h.left_eq, h.range.eq.1]
  constructor
  · rintro ⟨r, hr, hri⟩
    obtain ⟨x, hx, rfl⟩ := List.mem_map.mp hr
    obtain ⟨hxm, hxu⟩ := mem_usable.mp hx
    exact ⟨x, hxm, hxu, hri⟩
  · rintro ⟨x, hxm, hxu, hxi⟩
    exact ⟨x.span, List.mem_map_of_mem (mem_usable.mpr ⟨hxm, hxu⟩), hxi⟩

/-- **The scan bound fits the bitmap exactly for gap-free maps.** -/
theorem marked_lt_iff :
    (∀ i, 0 < Span.cover (freeSpans s.lowestAddress s.memmap) i → i < s.maxPagesAvailable) ↔
      boot.GapFree := by
  rw [h.max, ← h.count_marked hok hal, Span.lt_count_iff fun i hi => h.lt_of_marked hok hi]
  simp only [h.marked_iff_left hok hal, Boot.GapFree]

end Booted

/-! ## Unrestricted runs

Here any size is requested and any pointer is freed, valid or not. -/

/-- One call, valid or not. A call that halts the CPU has no next state. -/
def Pmm.step (s : Pmm) : PmmOp → Option Pmm
  | .kalloc n => (kalloc n s).state?
  | .kfree ptr => (kfree ptr s).state?

/-- Free pages and blocks consist of pages of the set `F`. -/
structure Pmm.FreeIn (F : Nat → Prop) (s : Pmm) : Prop extends s.Laid where
  max_le : s.maxPagesAvailable ≤ s.numPagesInMap
  free : ∀ i < s.numPagesInMap, s.taken i = false → F i
  entry : ∀ p < s.numPagesInMap, ∀ i, p ≤ i → i < p + s.pagesAllocated p →
    i < s.numPagesInMap ∧ F i

namespace Pmm.FreeIn

variable {F : Nat → Prop} {p k c : Nat}

theorem entry_le_pages (hs : s.FreeIn F) (hp : p < s.numPagesInMap) :
    p + s.pagesAllocated p ≤ s.numPagesInMap := by
  by_cases h0 : s.pagesAllocated p = 0
  · omega
  · have := (hs.entry p hp (p + s.pagesAllocated p - 1) (by omega) (by omega)).1
    omega

theorem kallocFound (hs : s.FreeIn F) (hp : p < s.numPagesInMap) (hk : p + k ≤ s.numPagesInMap)
    (hF : ∀ i, p ≤ i → i < p + k → F i) : (kallocFound s p k c).FreeIn F := by
  refine { hs.toLaid with max_le := hs.max_le, free := fun i hi hfree => ?_, entry := ?_ }
  · rw [taken_kallocFound hs.toLaid hp hk hi, Bool.or_eq_false_iff] at hfree
    exact hs.free i hi hfree.1
  · intro q hq i h1 h2
    rw [pagesAllocated_kallocFound hs.toLaid hk hq] at h2
    by_cases hqp : q = p
    · rw [if_pos hqp] at h2
      have hmod : k % 2 ^ 32 ≤ k := Nat.mod_le _ _
      have hi : i < p + k := by omega
      exact ⟨Nat.lt_of_lt_of_le hi hk, hF i (by omega) hi⟩
    · rw [if_neg hqp] at h2
      exact hs.entry q hq i h1 h2

theorem kfreed (hs : s.FreeIn F) (hp : p < s.numPagesInMap) : (kfreed s p).FreeIn F := by
  have hk := hs.entry_le_pages hp
  refine { hs.toLaid with max_le := hs.max_le, free := fun i hi hfree => ?_, entry := ?_ }
  · rw [taken_kfreed hs.toLaid hp hi, Bool.and_eq_false_iff] at hfree
    rcases hfree with hfree | hin
    · exact hs.free i hi hfree
    · -- a page of the freed block, which consisted of pages of `F`
      have hin' : p ≤ i ∧ i < p + s.pagesAllocated p := by simpa using hin
      exact (hs.entry p hp i hin'.1 hin'.2).2
  · intro q hq i h1 h2
    rw [pagesAllocated_kfreed hs.toLaid hk hq] at h2
    by_cases hqp : q = p
    · rw [if_pos hqp] at h2
      omega
    · rw [if_neg hqp] at h2
      exact hs.entry q hq i h1 h2

theorem mono {G : Nat → Prop} (hs : s.FreeIn F) (h : ∀ i, F i → G i) : s.FreeIn G :=
  { hs.toLaid with
    max_le := hs.max_le
    free := fun i hi hfree => h i (hs.free i hi hfree)
    entry := fun p hp i h1 h2 => ⟨(hs.entry p hp i h1 h2).1, h i (hs.entry p hp i h1 h2).2⟩ }

theorem setCursor (hs : s.FreeIn F) (c : Nat) : ({ s with allocationCursor := c } : Pmm).FreeIn F :=
  { hs.toLaid with max_le := hs.max_le, free := hs.free, entry := hs.entry }

end Pmm.FreeIn

/-- After `kmem_init` the free pages are the marked ones. -/
theorem Booted.freeIn (h : Booted boot m s b e rest) (hok : MemmapOk boot.hhdmOffset boot.memmap)
    (hcap : s.numPagesInMap ≤ 8 * bitmapSize s.numPagesInMap) :
    s.FreeIn fun i => 0 < Span.cover (freeSpans s.lowestAddress s.memmap) i :=
  { h.laid hok hcap with
    max_le := h.max_le hok
    free := fun i hi hfree => (h.taken_iff hok hcap hi).mp hfree
    entry := fun p hp i h1 h2 => by
      rw [h.pagesAllocated_eq_zero hok hcap hp] at h2
      omega }

/-- What holds in every state of an unrestricted run over a gap-free map. Without a page below the
bound the scan goes through all 64-bit page numbers, and the tables are of no use. -/
structure ReachInv (s₀ s : Pmm) : Prop where
  unlocked : s.lock = false
  max : s.maxPagesAvailable = s₀.maxPagesAvailable
  pages : s.numPagesInMap = s₀.numPagesInMap
  cursor_lt : s.allocationCursor < scanBound s.maxPagesAvailable
  below : 0 < s₀.maxPagesAvailable → s.FreeIn (· < s₀.maxPagesAvailable)

/-- **Every call keeps free pages and blocks below the bound.** -/
theorem ReachInv.step (hm : s₀.maxPagesAvailable < 2 ^ 64) (hinv : ReachInv s₀ s) {op : PmmOp}
    (hstep : s.step op = some t) : ReachInv s₀ t := by
  have hmax := hinv.max
  cases op with
  | kalloc n =>
    obtain ⟨r, hr, hspec⟩ := kalloc_spec hinv.unlocked hinv.cursor_lt (by omega) n
    rw [Pmm.step, hr] at hstep
    cases r with
    | found p k c =>
      obtain ⟨rfl, hp, hk, -, hc⟩ := hspec
      cases hstep
      refine ⟨hinv.unlocked, hmax, hinv.pages, hc, fun h0 => ?_⟩
      rw [scanBound_of_pos (by omega)] at hp hk
      have hb := hinv.below h0
      have hle := hb.max_le
      exact hb.kallocFound (by omega) (by omega) fun i _ hi => by omega
    | failed c =>
      cases hstep
      refine ⟨hinv.unlocked, hmax, hinv.pages, hspec.1, fun h0 => ?_⟩
      exact (hinv.below h0).setCursor c
  | kfree ptr =>
    by_cases hp : s.maxPagesAvailable ≤ getPageFromAddr s ptr
    · rw [Pmm.step, kfree_outOfBounds hinv.unlocked hp] at hstep
      cases hstep
    · have hb := hinv.below (by omega)
      have hle := hb.max_le
      rw [Pmm.step, kfree_inBounds hb.toLaid hinv.unlocked hle rfl (by omega)
        (hb.entry_le_pages (by omega))] at hstep
      cases hstep
      exact ⟨hinv.unlocked, hmax, hinv.pages, hinv.cursor_lt, fun _ => hb.kfreed (by omega)⟩

/-- In such a state a failed `kalloc` means that the whole map has no room. -/
theorem ReachInv.no_room (hm : s₀.numPagesInMap < 2 ^ 52)
    (hle : s₀.maxPagesAvailable ≤ s₀.numPagesInMap) (hinv : ReachInv s₀ s) (hn : 1 ≤ n)
    (hn64 : n < 2 ^ 64) (hnull : kalloc n s = .ret none t) {p : Nat}
    (hp : p + (n + 4095) / 4096 ≤ s₀.numPagesInMap) :
    ¬ FreeRun s.taken p ((n + 4095) / 4096) := by
  have hmax := hinv.max
  have hpages := hinv.pages
  -- a request that wraps is larger than any map
  have hsmall : n + 4095 < 2 ^ 64 := by omega
  obtain ⟨r, hr, hspec⟩ := kalloc_spec hinv.unlocked hinv.cursor_lt (by omega) n
  rw [divRoundup_eq hsmall] at hspec
  rw [hnull] at hr
  cases r with
  | found _ _ _ => cases hr
  | failed c =>
    obtain ⟨-, hnone⟩ := hspec.2 (by omega)
    intro hrun
    refine hnone p ?_ hrun
    by_cases h0 : 0 < s₀.maxPagesAvailable
    · have hlast := (hinv.below h0).free (p + (n + 4095) / 4096 - 1) (by omega)
        (hrun _ (by omega) (by omega))
      rw [scanBound_of_pos (by omega)]
      omega
    · rw [scanBound, if_pos (by omega)]
      omega

/-! ## The result -/

/-- Every free page can be allocated: marked pages are below the scan bound, and after any calls
`kalloc` fails only if the map has no run of free pages that is long enough. -/
structure Allocatable (s₀ : Pmm) : Prop where
  marked_lt : ∀ i, 0 < Span.cover (freeSpans s₀.lowestAddress s₀.memmap) i →
    i < s₀.maxPagesAvailable
  complete : ∀ (ops : List PmmOp) (s : Pmm), run Pmm.step ops s₀ = some s →
    ∀ n t, 1 ≤ n → n < 2 ^ 64 → kalloc n s = .ret none t →
      ∀ p, p + (n + 4095) / 4096 ≤ s₀.numPagesInMap → ¬ FreeRun s.taken p ((n + 4095) / 4096)

/--
**Every free page can be allocated exactly on gap-free maps.**

The condition is necessary for every map. It is sufficient when the bitmap has a bit for every page.
-/
theorem allocatable_iff_gapFree (boot : Boot) (m : Memory) (s₀ : Pmm)
    (hok : MemmapOk boot.hhdmOffset boot.memmap) (hal : PageAligned boot.memmap)
    (hinit : kmemInit boot (Pmm.zero m) = .ret () s₀) :
    (Allocatable s₀ → boot.GapFree) ∧
      (s₀.numPagesInMap ≤ 8 * bitmapSize s₀.numPagesInMap → boot.GapFree → Allocatable s₀) := by
  obtain ⟨b, e, rest, hb⟩ := kmemInit_booted hok hinit
  refine ⟨fun h => (hb.marked_lt_iff hok hal).mp h.marked_lt, fun hcap hg => ?_⟩
  have hlt := (hb.marked_lt_iff hok hal).mpr hg
  have hN := hb.pages_lt
  have hmax := hb.max_le hok
  have hstart : ReachInv s₀ s₀ := by
    refine ⟨hb.unlocked, rfl, rfl, ?_, fun _ => ?_⟩
    · rw [hb.cursor, scanBound]
      split <;> omega
    · exact (hb.freeIn hok hcap).mono hlt
  refine ⟨hlt, fun ops s hrun n t hn hn64 hnull p hp => ?_⟩
  have hinv := run_invariant (ReachInv s₀) (fun _ _ _ hi hs => hi.step (by omega) hs) ops hstart hrun
  exact hinv.no_room hN hmax hn hn64 hnull hp

/-- A page, a hole, and a range that the two tables use up. -/
def tightBoot : Boot where
  memmap := [⟨0x100000, 0x1000, .usable⟩, ⟨0x101000, 0x9c15000, .reserved⟩,
    ⟨0x9d16000, 0x2a000, .usable⟩]
  hhdmOffset := 0xffff800000000000

def tightPmm : Pmm := (kmemInit tightBoot (Pmm.zero fun _ => 0)).state?.get (by decide +kernel)

theorem tightBoot_gapFree : tightBoot.GapFree := by
  have hleft : tightBoot.left = [⟨0x100000, 0x1000, .usable⟩, ⟨0x101000, 0x9c15000, .reserved⟩,
      ⟨0x9d40000, 0, .usable⟩] := by decide +kernel
  have hlow : tightBoot.lowest = 0x100000 := by decide +kernel
  intro i j hij hj
  -- page 0 is the only one that is left
  obtain ⟨x, hx, hu, h1, h2⟩ := hj
  rw [hleft] at hx
  rw [hlow] at h1 h2
  simp only [List.mem_cons, List.not_mem_nil, or_false, pageSize] at hx h1 h2
  rcases hx with rfl | rfl | rfl
  · simp only [MemmapEntry.span] at h2
    omega
  · cases hu
  · simp only [MemmapEntry.span] at h1 h2
    omega

theorem allocatable_tight : Allocatable tightPmm :=
  (allocatable_iff_gapFree tightBoot (fun _ => 0) tightPmm
    ⟨List.Pairwise.imp Span.Clear.apart (by decide), by decide, by decide⟩
    (by unfold PageAligned; decide) (Outcome.eq_ret_of_state? _)).2 (by decide +kernel)
    tightBoot_gapFree

/-- With the hole of `sampleBoot`, page 32 is marked free but not below the bound 22. Once the first
18 pages are allocated, `kalloc` fails although page 32 is still free. -/
theorem allocatable_fails_sample :
    MemmapOk sampleBoot.hhdmOffset sampleBoot.memmap ∧ PageAligned sampleBoot.memmap ∧
      kmemInit sampleBoot (Pmm.zero fun _ => 0) = .ret () samplePmm ∧
      0 < Span.cover (freeSpans samplePmm.lowestAddress samplePmm.memmap) 32 ∧
      samplePmm.maxPagesAvailable = 22 ∧
      (∃ s t, run Pmm.step [.kalloc 73728] samplePmm = some s ∧ kalloc 4096 s = .ret none t ∧
        FreeRun s.taken 32 1) ∧
      ¬ Allocatable samplePmm := by
  have hmarked : 0 < Span.cover (freeSpans samplePmm.lowestAddress samplePmm.memmap) 32 := by
    decide +kernel
  have hmax : samplePmm.maxPagesAvailable = 22 := by decide +kernel
  refine ⟨sampleBoot_ok, sampleBoot_aligned, sample_kmemInit, hmarked, hmax, ?_, fun h => ?_⟩
  · obtain ⟨t, ht⟩ := Outcome.eq_ret_of_value? (x := kalloc 4096
      ((run Pmm.step [.kalloc 73728] samplePmm).get (by decide +kernel))) (a := none)
      (by decide +kernel)
    refine ⟨_, t, (Option.some_get _).symm, ht, fun i h1 h2 => ?_⟩
    rw [show i = 32 by omega]
    decide +kernel
  · have := h.marked_lt 32 hmarked
    omega

end BloreOs
