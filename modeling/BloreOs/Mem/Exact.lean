import BloreOs.Mem.Init

/-!
# `kmem_init` is exact on page-aligned maps

The boot protocol also promises page alignment. Then page numbers and addresses correspond
(`cover_freeSpans`), and the bitmap after `kmem_init` describes memory exactly:
a page is free if and only if it was usable and holds neither of the two tables
(`kmemInit_exact`), and both counters hold the number of these pages.
-/

namespace BloreOs

variable {boot : Boot} {m : Memory} {s : Pmm} {b e i : Nat} {rest : List MemmapEntry}

/-- The physical range of the bitmap. -/
def bitmapRegion (s : Pmm) : Span :=
  ⟨sub64 s.pageBitmap s.vmmHigherHalfOffset, bitmapSize s.numPagesInMap⟩

/-- The physical range of the entry table. -/
def entryMapRegion (s : Pmm) : Span :=
  ⟨sub64 s.entryMap s.vmmHigherHalfOffset, entryMapSize s.numPagesInMap⟩

/-- The physical range of page `i`. -/
def pageRegion (s : Pmm) (i : Nat) : Span := ⟨s.lowestAddress + pageSize * i, pageSize⟩

/-- Page `i` lies in an originally usable entry and outside both tables. -/
def FreePage (boot : Boot) (s : Pmm) (i : Nat) : Prop :=
  (∃ x ∈ boot.memmap, x.type = .usable ∧ x.base ≤ (pageRegion s i).base ∧
      (pageRegion s i).base + pageSize ≤ x.base + x.length) ∧
    (pageRegion s i).Clear (bitmapRegion s) ∧ (pageRegion s i).Clear (entryMapRegion s)

instance : DecidablePred (FreePage boot s) := fun _ =>
  inferInstanceAs (Decidable ((∃ x ∈ boot.memmap, _ ∧ _ ∧ _) ∧ _ ∧ _))

/-- In an aligned map, page numbers are addresses divided by the page size. -/
theorem cover_freeSpans {lo : Nat} {es : List MemmapEntry} (hal : PageAligned es)
    (hlo : lo % pageSize = 0) (hb : ∀ x ∈ usable es, lo ≤ x.base ∧ x.base < 2 ^ 64) (i : Nat) :
    Span.cover (freeSpans lo es) i = Span.cover (usableSpans es) (lo + pageSize * i) := by
  unfold freeSpans usableSpans Span.cover
  rw [List.countP_map, List.countP_map]
  refine List.countP_congr fun x hx => ?_
  obtain ⟨h1, h2⟩ := hal x hx
  obtain ⟨h3, h4⟩ := hb x hx
  have hsub : sub64 x.base lo = x.base - lo := sub64_eq h3 h4
  rw [Function.comp_apply, Function.comp_apply, decide_eq_true_iff, decide_eq_true_iff,
    Span.has_iff, Span.has_iff]
  simp only [pageSpan, MemmapEntry.span, hsub]
  unfold pageSize at *
  omega

/-- Being in a span and being inside it as a whole page are the same for aligned spans. -/
theorem has_iff_page {r : Span} {a : Nat} (hb : r.base % pageSize = 0) (hl : r.len % pageSize = 0)
    (ha : a % pageSize = 0) : r.Has a ↔ r.base ≤ a ∧ a + pageSize ≤ r.base + r.len := by
  simp only [Span.has_iff, pageSize] at *
  omega

theorem not_has_iff_clear {r : Span} {a : Nat} (hb : r.base % pageSize = 0)
    (hl : r.len % pageSize = 0) (ha : a % pageSize = 0) :
    ¬ r.Has a ↔ (⟨a, pageSize⟩ : Span).Clear r := by
  simp only [Span.has_iff, Span.Clear, pageSize] at *
  omega

namespace Booted

variable (h : Booted boot m s b e rest) (hok : MemmapOk boot.hhdmOffset boot.memmap)
  (hal : PageAligned boot.memmap)
include h hok hal

theorem aligned_left : PageAligned s.memmap :=
  (hal.carve hok (alignUp_mod _) h.carveBitmap).carve (hok.carve h.carveBitmap) (alignUp_mod _)
    h.carveTable

omit hok in
theorem aligned_lowest : s.lowestAddress % pageSize = 0 := by
  rcases h.range.tight with ⟨-, h0, -⟩ | ⟨⟨x, hx, h0⟩, -⟩
  · rw [h0]
    rfl
  · rw [h0]
    exact (hal x hx).1

theorem cover_free (i : Nat) : Span.cover (freeSpans s.lowestAddress s.memmap) i
    = Span.cover (usableSpans s.memmap) (s.lowestAddress + pageSize * i) := by
  refine cover_freeSpans (h.aligned_left hok hal) (h.aligned_lowest hal) ?_ i
  intro x hx
  have := (h.memmapOk hok).inRange x hx
  exact ⟨(h.left_bounds hok x hx).1, by omega⟩

/-- What is left of the map is the usable memory without the two tables. -/
theorem marked_iff (i : Nat) : 0 < Span.cover (freeSpans s.lowestAddress s.memmap) i ↔
    0 < Span.cover (usableSpans boot.memmap) (s.lowestAddress + pageSize * i) ∧
      ¬ (⟨b, bitmapSize s.numPagesInMap⟩ : Span).Has (s.lowestAddress + pageSize * i) ∧
      ¬ (⟨e, entryMapSize s.numPagesInMap⟩ : Span).Has (s.lowestAddress + pageSize * i) := by
  rw [h.cover_free hok hal]
  have hc₁ := carve_cover hok h.carveBitmap (s.lowestAddress + pageSize * i)
  have hc₂ := carve_cover (hok.carve h.carveBitmap) h.carveTable (s.lowestAddress + pageSize * i)
  have hone := Span.cover_le_one hok.apart (s.lowestAddress + pageSize * i)
  simp only [Span.cover_cons, Span.cover_nil, Nat.zero_add] at hc₁ hc₂
  split at hc₁
  · next hin =>
    exact ⟨fun hpos => by omega, fun hc => absurd hin hc.2.1⟩
  · next hout =>
    split at hc₂
    · next hin =>
      exact ⟨fun hpos => by omega, fun hc => absurd hin hc.2.2⟩
    · next hout' =>
      exact ⟨fun hpos => ⟨by omega, hout, hout'⟩, fun hc => by omega⟩

/-- Marked pages are counted once each. -/
theorem count_marked : Nat.count (fun i => 0 < Span.cover (freeSpans s.lowestAddress s.memmap) i)
    s.numPagesInMap = usablePages s.memmap := by
  rw [Span.count_cover, sum_len_freeSpans]
  · intro i
    rw [h.cover_free hok hal]
    exact Span.cover_le_one (h.memmapOk hok).apart _
  · intro r hr
    obtain ⟨x, hx, rfl⟩ := List.mem_map.mp hr
    have h1 := h.left_bounds hok x hx
    rw [h.pageSpan_eq hok hx, h.pages]
    simp only [pageSize]
    omega

end Booted

/--
**Bitmap initialisation is exact.**

Whenever `kmem_init` returns and the bitmap has a bit for every page of the map, bit `i` is 0
exactly for the pages that were usable and hold neither table, and `num_pages_available` and
`max_pages_available` are both the number of these pages.
-/
theorem kmemInit_exact (boot : Boot) (m : Memory) (s : Pmm)
    (hok : MemmapOk boot.hhdmOffset boot.memmap) (hal : PageAligned boot.memmap)
    (h : kmemInit boot (Pmm.zero m) = .ret () s)
    (hcap : s.numPagesInMap ≤ 8 * bitmapSize s.numPagesInMap) :
    (∀ i < s.numPagesInMap, s.taken i = false ↔ FreePage boot s i) ∧
      s.numPagesAvailable = Nat.count (FreePage boot s) s.numPagesInMap ∧
      s.maxPagesAvailable = Nat.count (FreePage boot s) s.numPagesInMap := by
  obtain ⟨b, e, rest, hb⟩ := kmemInit_booted hok h
  have hlo := hb.aligned_lowest hal
  have hsize := entryMapSize_eq hb.pages_lt
  have hbits : ∀ i < s.numPagesInMap, s.taken i = false ↔ FreePage boot s i := by
    intro i hi
    have hpage : (s.lowestAddress + pageSize * i) % pageSize = 0 := by
      simp only [pageSize] at *
      omega
    obtain ⟨x₁, hx₁, hb₁, -⟩ := carve_span hb.carveBitmap
    obtain ⟨x₂, hx₂, hb₂, -⟩ := carve_span hb.carveTable
    have hal₁ := hal.carve hok (alignUp_mod _) hb.carveBitmap
    have hreg₁ : bitmapRegion s = ⟨b, bitmapSize s.numPagesInMap⟩ := by
      have := hok.inRange x₁ hx₁
      rw [bitmapRegion, hb.bitmapAt, hb.offset, sub64_eq (by omega) (by omega)]
      simp
    have hreg₂ : entryMapRegion s = ⟨e, entryMapSize s.numPagesInMap⟩ := by
      have := (hok.carve hb.carveBitmap).inRange x₂ hx₂
      rw [entryMapRegion, hb.tableAt, hb.offset, sub64_eq (by omega) (by omega)]
      simp
    rw [hb.taken_iff hok hcap hi, hb.marked_iff hok hal i, FreePage, hreg₁, hreg₂,
      not_has_iff_clear (by rw [← hb₁]; exact (hal x₁ hx₁).1) (alignUp_mod _) hpage,
      not_has_iff_clear (by rw [← hb₂]; exact (hal₁ x₂ hx₂).1) (alignUp_mod _) hpage]
    refine and_congr_left fun _ => ?_
    rw [Span.cover_pos]
    constructor
    · rintro ⟨r, hr, hri⟩
      obtain ⟨x, hx, rfl⟩ := List.mem_map.mp hr
      obtain ⟨hxm, hxu⟩ := mem_usable.mp hx
      exact ⟨x, hxm, hxu, (has_iff_page (hal x hx).1 (hal x hx).2 hpage).mp hri⟩
    · rintro ⟨x, hxm, hxu, hin⟩
      have hx := mem_usable.mpr ⟨hxm, hxu⟩
      exact ⟨x.span, List.mem_map_of_mem hx,
        (has_iff_page (hal x hx).1 (hal x hx).2 hpage).mpr hin⟩
  have hcount : Nat.count (FreePage boot s) s.numPagesInMap = usablePages s.memmap := by
    rw [← hb.count_marked hok hal]
    refine Span.count_congr fun i hi => ?_
    rw [← hbits i hi, hb.taken_iff hok hcap hi]
  exact ⟨hbits, by rw [hcount, hb.available], by rw [hcount, hb.max]⟩

theorem kmemInit_exact_sample :
    (∀ i < 36, samplePmm.taken i = false ↔ FreePage sampleBoot samplePmm i) ∧
      samplePmm.numPagesAvailable = 22 ∧ samplePmm.maxPagesAvailable = 22 := by
  have hN : samplePmm.numPagesInMap = 36 := by decide +kernel
  have hcount : Nat.count (FreePage sampleBoot samplePmm) 36 = 22 := by decide +kernel
  have h := kmemInit_exact sampleBoot (fun _ => 0) samplePmm sampleBoot_ok sampleBoot_aligned
    sample_kmemInit (by decide +kernel)
  rw [hN, hcount] at h
  exact h

end BloreOs
