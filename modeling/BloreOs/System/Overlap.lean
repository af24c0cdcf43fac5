import BloreOs.System.Exhaust

/-!
# When the two memory managers stay apart

* `Booted.started` — what `kmem_init` and `slob_init` leave,
* `managers_separate_iff` — all runs from there keep the managers apart exactly on starved maps,
* `managers_overlap_sample` — they do not on a machine with two usable ranges.
-/

namespace BloreOs

open Loop

variable {s : Slob}

/-! ## The machine that `kernel_main` starts -/

section

variable {boot : Boot} {m : Memory} {s₀ : Pmm} {c e : Nat} {rest : List MemmapEntry}
variable (hb : Booted boot m s₀ c e rest) (hok : MemmapOk boot.hhdmOffset boot.memmap)
  (hal : PageAligned boot.memmap)
include hb hok hal

/-- The page tables were carved out before, so they are not usable memory any more. -/
theorem Booted.inTables {a : Nat} (ha : s₀.InTables a) :
    24 ≤ a ∧ ¬ Mapped s₀.vmmHigherHalfOffset s₀.memmap a := by
  have hok₁ := hok.carve hb.carveBitmap
  have hal₁ := hal.carve hok (alignUp_mod _) hb.carveBitmap
  obtain ⟨x, hx, hxc, -⟩ := carve_span hb.carveBitmap
  obtain ⟨y, hy, hye, -⟩ := carve_span hb.carveTable
  have hc0 := hok.base_ne_zero x hx
  have hcm := (hal x hx).1
  have he0 := hok₁.base_ne_zero y hy
  have hem := (hal₁ y hy).1
  have hsize := entryMapSize_eq hb.pages_lt
  have hone := Span.cover_le_one hok.apart (a - boot.hhdmOffset)
  have hcov₁ := carve_cover hok hb.carveBitmap (a - boot.hhdmOffset)
  have hcov₂ := carve_cover hok₁ hb.carveTable (a - boot.hhdmOffset)
  rw [Mapped, hb.offset]
  unfold Pmm.InTables at ha
  rw [hb.bitmapAt, hb.tableAt] at ha
  unfold pageSize at hcm hem
  rcases ha with ⟨h1, h2⟩ | ⟨h1, h2⟩
  · refine ⟨by omega, fun hmap => ?_⟩
    have hpos : 0 < Span.cover [⟨c, bitmapSize s₀.numPagesInMap⟩] (a - boot.hhdmOffset) :=
      Span.cover_pos.mpr ⟨_, List.mem_singleton_self _, by simp only [Span.has_iff]; omega⟩
    have := hmap.2
    omega
  · refine ⟨by omega, fun hmap => ?_⟩
    have hpos : 0 < Span.cover [⟨e, entryMapSize s₀.numPagesInMap⟩] (a - boot.hhdmOffset) :=
      Span.cover_pos.mpr ⟨_, List.mem_singleton_self _, by simp only [Span.has_iff]; omega⟩
    have := hmap.2
    omega

/-- The page allocator right after `kmem_init`. -/
theorem Booted.pagesIn (hcap : s₀.numPagesInMap ≤ 8 * bitmapSize s₀.numPagesInMap) :
    PagesIn boot.Left s₀ s₀ := by
  refine ⟨Pmm.SameMap.refl s₀, hb.unlocked, ?_, ?_⟩
  · rw [hb.cursor, scanBound]
    split <;> omega
  · exact (hb.freeIn hok hcap).mono fun i => (hb.marked_iff_left hok hal i).mp

theorem Booted.started (hcap : s₀.numPagesInMap ≤ 8 * bitmapSize s₀.numPagesInMap)
    (hcount : (usable boot.memmap).length < 2 ^ 31)
    (hslob : slobInit (Slob.zero s₀) = .ret () s) :
    Started boot.Left s ∧ s.pmm.lowestAddress = boot.lowest ∧
      ∃ b, slobTake boot.left = some (b, s.pmm.memmap) ∧ slobTable s = takenSpan boot.left b := by
  have hok₀ : MemmapOk (Slob.zero s₀).offset s₀.memmap := hb.memmapOk_offset hok
  have hlen := hb.usable_length_eq
  obtain ⟨b, left, hc, hbooted⟩ := slobInit_take (s := Slob.zero s₀) hok₀ hb.max
    (by show (usable s₀.memmap).length < _; omega) hslob
  have hpmm : s.pmm = { s₀ with
    memmap := left
    maxPagesAvailable := usablePages left
    mem := s.mem } := hbooted.pmm
  have hpages := Nat.le.intro (carve_usablePages (alignUp_mod _) hc)
  have hmax := hb.max
  have hle := hb.max_le hok
  have hmem : ∀ a, s₀.InTables a → s.mem a = s₀.mem a := fun a ha =>
    hbooted.outside a (hb.inTables hok hal ha).2
  have hin := hbooted.pagesIn (hb.pagesIn hok hal hcap) (fun a ha => (hb.inTables hok hal ha).2)
    (hpages.trans (hmax ▸ hle)) (by
      show s₀.allocationCursor < _
      rw [hb.cursor, scanBound]
      split <;> omega)
  have hlow : s.pmm.lowestAddress = s₀.lowestAddress := by rw [hpmm]
  have hmap : s.pmm.memmap = left := by rw [hpmm]
  have hoff : s.offset = (Slob.zero s₀).offset := by
    rw [Slob.offset, hpmm]
    rfl
  have hleft := hb.left_eq
  have hal₀ := hb.aligned_left hok hal
  have htake : slobTake boot.left = some (b, left) := by rw [hleft]; exact hc
  have htable : slobTable s = takenSpan boot.left b := by rw [hleft]; exact hbooted.table
  refine ⟨?_, hlow.trans hb.range.eq.1, b, by rw [hmap]; exact htake, htable⟩
  constructor
  case init => exact hbooted.init
  case ok => rw [hoff, hmap]; exact hok₀.carve hc
  case aligned => rw [hmap]; exact hal₀.carve hok₀ (alignUp_mod _) hc
  case count =>
    rw [hmap, carve_usable_length hc]
    show (usable s₀.memmap).length < _
    omega
  case max => rw [hmap, hpmm]
  case cursor => rw [hpmm]; exact hb.cursor
  case pagesIn => exact ⟨Pmm.SameMap.refl _, hin.unlocked, hin.cursor_lt, hin.freeIn⟩
  case free =>
    intro i hi
    have hmarked := (hb.marked_iff_left hok hal i).mpr hi
    have hN := hb.lt_of_marked hok hmarked
    have htaken := (hb.taken_iff hok hcap hN).mpr hmarked
    rw [← (hb.laid hok hcap).taken_congr hmem hN] at htaken
    rw [hpmm]
    exact ⟨hN, htaken⟩
  case tables =>
    intro a ha
    have ha' : s₀.InTables a := by
      rw [hpmm] at ha
      exact ha
    obtain ⟨h1, h2⟩ := hb.inTables hok hal ha'
    refine ⟨h1, fun h3 => h2 ?_⟩
    rw [hoff, hmap] at h3
    exact h3.of_carve hok₀ hc
  case inRange =>
    have h1 := hb.range.le
    have h2 := hb.range.lt
    have h3 := hb.pages
    rw [hpmm]
    show s₀.lowestAddress + pageSize * s₀.numPagesInMap < 2 ^ 64
    unfold pageSize at *
    omega
  case lowest_mod => rw [hlow]; exact hb.aligned_lowest hal
  case tableAt =>
    obtain ⟨x, hx, hxb, -⟩ := carve_span hc
    have hpos := List.length_pos_of_mem hx
    have hx' : x ∈ usable s₀.memmap := hx
    rw [htable, hleft, hlow]
    simp only [takenSpan]
    rw [← hxb]
    refine ⟨(hb.left_bounds hok x hx').1, (hal₀ x hx').1, ?_⟩
    have := le_alignUp (show 24 * (usable s₀.memmap).length + 4095 < 2 ^ 64 by omega)
    exact Nat.lt_of_lt_of_le (Nat.mul_pos (by decide) hpos) this
  case iff =>
    intro i
    rw [← hb.marked_iff_left hok hal, hb.cover_free hok hal, hlow, hmap, htable, hleft]
    exact slobTake_cover hok₀ hc

end

/--
**When the two memory managers never hand out the same memory.**

After `kmem_init` and `slob_init`, all runs keep every block of `kalloc` apart from all SLOB blocks,
their headers, the blocks of the records and the tables, exactly if the map is starved.
-/
theorem managers_separate_iff (boot : Boot) (m : Memory) (s₀ : Pmm) (s : Slob)
    (hok : MemmapOk boot.hhdmOffset boot.memmap) (hal : PageAligned boot.memmap)
    (hcount : (usable boot.memmap).length < 2 ^ 31)
    (hinit : kmemInit boot (Pmm.zero m) = .ret () s₀)
    (hcap : s₀.numPagesInMap ≤ 8 * bitmapSize s₀.numPagesInMap)
    (hslob : slobInit (Slob.zero s₀) = .ret () s) :
    (∀ ops h, run Machine.step ops (Machine.start s) = some h → h.Separate) ↔ boot.Starved := by
  obtain ⟨c, e, rest, hb⟩ := kmemInit_booted hok hinit
  obtain ⟨hs, hlow, b, htake, htable⟩ := hb.started hok hal hcap hcount hslob
  have hiff : StarvedAt s ↔ boot.Starved := by
    rw [StarvedAt, hlow, htable, Boot.Starved, htake]
    simp only [Option.some.injEq, Prod.mk.injEq]
    constructor
    · exact fun h => ⟨b, s.pmm.memmap, ⟨rfl, rfl⟩, h⟩
    · rintro ⟨b', left, ⟨rfl, rfl⟩, h⟩
      exact h
  rw [← hiff]
  exact ⟨starved_of_separate hs, fun hst ops h hrun => separate_of_starved hs hst hrun⟩

/-- Single pages, and two pages in a row at the end. With this many ranges a table of SLOB takes two
pages. -/
def starvedBoot : Boot where
  memmap := (List.range 171).map (fun i => ⟨0x100000 + 0x2000 * i, 0x1000, .usable⟩) ++
    [⟨0x300000, 0x2000, .usable⟩]
  hhdmOffset := 0xffff800000000000

/-- What the first `slob_init` takes, and what it leaves. -/
def starvedTake : Nat × List MemmapEntry := (slobTake starvedBoot.left).get (by decide +kernel)

theorem starvedBoot_starved : starvedBoot.Starved := by
  have hlow : starvedBoot.lowest = 0x100000 := by decide +kernel
  have hbase : starvedTake.1 = 0x300000 := by decide +kernel
  have hpages : usablePages starvedTake.2 = 169 := by decide +kernel
  have htake : slobTake starvedBoot.left = some starvedTake := (Option.some_get _).symm
  refine ⟨starvedTake.1, starvedTake.2, htake.trans (congrArg some Prod.mk.eta.symm), by omega,
    fun i hi => ?_,
    Option.isNone_iff_eq_none.mp (by decide +kernel)⟩
  obtain ⟨h1, -⟩ := hi
  rw [hlow] at h1
  simp only [takenSpan, pageSize, hbase] at h1
  omega

def starvedPmm : Pmm := (kmemInit starvedBoot (Pmm.zero fun _ => 0)).state?.get (by decide +kernel)

def starvedSlob : Slob := (slobInit (Slob.zero starvedPmm)).state?.get (by decide +kernel)

/-- Pages are handed out, SLOB never gets that far. -/
def starvedOps : List MemOp := [.kalloc 4096, .kalloc 0, .kalloc 1, .kfree 0xffff800000104000]

def starvedMachine : Machine :=
  (run Machine.step starvedOps (Machine.start starvedSlob)).get (by decide +kernel)

theorem managers_separate_starved :
    starvedMachine.pages.length = 2 ∧ starvedMachine.Separate :=
  ⟨by decide +kernel,
    (managers_separate_iff starvedBoot (fun _ => 0) starvedPmm starvedSlob
      ⟨List.Pairwise.imp Span.Clear.apart (by decide +kernel), by decide +kernel, by decide +kernel⟩
      (by unfold PageAligned; decide +kernel) (by decide +kernel) (Outcome.eq_ret_of_state? _)
      (by decide +kernel) (Outcome.eq_ret_of_state? _)).mpr starvedBoot_starved starvedOps
      starvedMachine (Option.some_get _).symm⟩

/-- The machine of `sampleBoot` after `kernel_main` has called `slob_init`. -/
def sampleStart : Slob := (slobInit (Slob.zero samplePmm)).state?.get (by decide +kernel)

/-- Four pages, and then a SLOB block. -/
def sampleOverlap : Machine :=
  (run Machine.step [.kalloc 16384, .slobMalloc 100] (Machine.start sampleStart)).get
    (by decide +kernel)

/-- The four pages start with the two tables of SLOB and contain the SLOB block. -/
theorem managers_overlap_sample :
    MemmapOk sampleBoot.hhdmOffset sampleBoot.memmap ∧ PageAligned sampleBoot.memmap ∧
      kmemInit sampleBoot (Pmm.zero fun _ => 0) = .ret () samplePmm ∧
      slobInit (Slob.zero samplePmm) = .ret () sampleStart ∧
      run Machine.step [.kalloc 16384, .slobMalloc 100] (Machine.start sampleStart)
        = some sampleOverlap ∧
      sampleOverlap.pages.map (PageBlock.span sampleOverlap.slob.offset) = [⟨0x102000, 0x4000⟩] ∧
      sampleOverlap.slobSpans = [⟨0x104000, 108⟩, ⟨0x103000, 0x1000⟩, ⟨0x102000, 0x1000⟩] ∧
      ¬ sampleOverlap.Separate := by
  have hpages : sampleOverlap.pages.map (PageBlock.span sampleOverlap.slob.offset)
      = [⟨0x102000, 0x4000⟩] := by decide +kernel
  have hspans : sampleOverlap.slobSpans
      = [⟨0x104000, 108⟩, ⟨0x103000, 0x1000⟩, ⟨0x102000, 0x1000⟩] := by decide +kernel
  refine ⟨sampleBoot_ok, sampleBoot_aligned, sample_kmemInit, Outcome.eq_ret_of_state? _,
    (Option.some_get _).symm, hpages, hspans, fun hsep => ?_⟩
  obtain ⟨x, hx, hspan⟩ := List.mem_map.mp (hpages ▸ List.mem_singleton_self _ :
    (⟨0x102000, 0x4000⟩ : Span) ∈ sampleOverlap.pages.map (PageBlock.span sampleOverlap.slob.offset))
  have hapart := hsep x hx ⟨0x104000, 108⟩ (by rw [hspans]; exact List.mem_cons_self)
  rw [hspan] at hapart
  exact hapart 0x104000 (by decide) (by decide)

end BloreOs
