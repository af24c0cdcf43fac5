import BloreOs.Mem.Alloc
import BloreOs.Mem.Stats

/-!
# The state that `kmem_init` leaves

`Booted boot s b e rest` describes a successful `kmem_init`: the bitmap was carved at physical
address `b`, the entry table at `e`, and `_get_free_pages` marked the pages of what was left.

* `kmemInit_booted` — every `kmem_init` that returns leaves such a state,
* `Booted.taken_iff` — the bits, when the bitmap has one for every page,
* `Booted.ready` — the allocator can be used.

`_create_page_bitmap` goes on silently when no entry can hold the bitmap. In `kmem_init` that is
always caught, because the entry table needs at least as much room (`bitmapSize_le`).
-/

namespace BloreOs

variable {boot : Boot} {m : Memory} {s : Pmm} {b e i p : Nat} {rest : List MemmapEntry}

/-! ## Sizes of the tables -/

theorem alignUp_alignUp {n : Nat} (h : n + 4095 < 2 ^ 64) :
    alignUp (alignUp n pageSize) pageSize = alignUp n pageSize := by
  rw [alignUp_eq h, alignUp_eq (by omega)]
  omega

theorem bitmapSize_eq {n : Nat} (h : n < 2 ^ 52) :
    bitmapSize n = (n / 8 + 4095) / 4096 * 4096 := alignUp_eq (by omega)

theorem entryMapSize_eq {n : Nat} (h : n < 2 ^ 52) :
    entryMapSize n = (4 * n + 4095) / 4096 * 4096 := by
  rw [entryMapSize, mul64_eq (by omega), alignUp_eq (by omega)]

theorem alignUp_entryMapSize {n : Nat} (h : n < 2 ^ 52) :
    alignUp (entryMapSize n) pageSize = entryMapSize n := by
  rw [entryMapSize, mul64_eq (by omega)]
  exact alignUp_alignUp (by omega)

theorem bitmapSize_le {n : Nat} (h : n < 2 ^ 52) : bitmapSize n ≤ entryMapSize n := by
  rw [bitmapSize_eq h, entryMapSize_eq h]
  omega

/-! ## Marking the free pages -/

/-- The page numbers that `_get_free_pages` computes for an entry. -/
def pageSpan (lowestAddress : Nat) (entry : MemmapEntry) : Span :=
  ⟨sub64 entry.base lowestAddress / pageSize, entry.length / pageSize⟩

/-- The page numbers that `_get_free_pages` marks free. -/
def freeSpans (lowestAddress : Nat) (es : List MemmapEntry) : List Span :=
  (usable es).map (pageSpan lowestAddress)

theorem sum_len_freeSpans (lo : Nat) (es : List MemmapEntry) :
    ((freeSpans lo es).map Span.len).sum = usablePages es := by
  simp [freeSpans, usablePages, pageSpan, Function.comp_def]

/-- What the fold of `_get_free_pages` over `es` makes of `s`. -/
structure FreedOf (s t : Pmm) (es : List MemmapEntry) : Prop where
  frame : t = { s with mem := t.mem, numPagesAvailable := t.numPagesAvailable }
  available : t.numPagesAvailable = (s.numPagesAvailable + usablePages es) % 2 ^ 64
  taken : ∀ i, t.taken i = (s.taken i && !decide (0 < Span.cover (freeSpans s.lowestAddress es) i))
  outside : ∀ a, (∀ i, 0 < Span.cover (freeSpans s.lowestAddress es) i → a ≠ s.pageBitmap + i / 8) →
    t.mem a = s.mem a

theorem freedOf_foldl : ∀ (es : List MemmapEntry) (s : Pmm), s.numPagesAvailable < 2 ^ 64 →
    (∀ e ∈ usable es, e.length < 2 ^ 64) → FreedOf s (es.foldl getFreePagesEntry s) es
  | [], s, hs, _ => by
    refine ⟨rfl, ?_, ?_, fun _ _ => rfl⟩
    · simpa [usablePages, usable] using (Nat.mod_eq_of_lt hs).symm
    · simp [freeSpans, usable]
  | e :: es, s, hs, h => by
    rw [List.foldl_cons]
    by_cases hu : e.type = .usable
    · rw [usable_cons_of_pos hu, List.forall_mem_cons] at h
      have hstop : add64 (sub64 e.base s.lowestAddress / pageSize) (e.length / pageSize)
          = sub64 e.base s.lowestAddress / pageSize + e.length / pageSize := by
        have := sub64_lt e.base s.lowestAddress
        unfold pageSize
        exact add64_eq (by omega)
      have hone : getFreePagesEntry s e =
          { s with
            mem := bitmapOffRange s.mem s.pageBitmap (pageSpan s.lowestAddress e).base
              ((pageSpan s.lowestAddress e).base + (pageSpan s.lowestAddress e).len)
            numPagesAvailable := (s.numPagesAvailable + e.length / pageSize) % 2 ^ 64 } := by
        simp only [getFreePagesEntry, if_pos hu, hstop, Nat.add_sub_cancel_left]
        rfl
      have ih := freedOf_foldl es (getFreePagesEntry s e)
        (by rw [hone]; exact Nat.mod_lt _ (by decide)) h.2
      have hcons : freeSpans s.lowestAddress (e :: es)
          = pageSpan s.lowestAddress e :: freeSpans s.lowestAddress es := by
        simp [freeSpans, usable_cons_of_pos hu]
      rw [hone] at ih ⊢
      refine ⟨by rw [ih.frame], ?_, fun i => ?_, fun a ha => ?_⟩
      · rw [ih.available]
        simp only [usablePages, usable_cons_of_pos hu, List.map_cons, List.sum_cons]
        omega
      · rw [ih.taken i, hcons, Span.cover_cons]
        show (bitmapTest (bitmapOffRange _ _ _ _) s.pageBitmap i && _) = (bitmapTest _ _ i && _)
        rw [bitmapTest_bitmapOffRange, Bool.and_assoc, ← Bool.not_or, ← Bool.decide_or]
        congr 2
        refine decide_eq_decide.mpr ?_
        by_cases hi : (pageSpan s.lowestAddress e).Has i
        · rw [if_pos hi]
          exact ⟨fun _ => Nat.succ_pos _, fun _ => Or.inl hi⟩
        · rw [if_neg hi]
          exact ⟨fun hc => hc.resolve_left hi, fun hc => Or.inr hc⟩
      · rw [ih.outside a fun i hi => ha i (by rw [hcons, Span.cover_cons]; exact Nat.add_pos_left hi _)]
        refine bitmapOffRange_outside fun i h1 h2 => ha i ?_
        rw [hcons, Span.cover_cons, if_pos ⟨h1, h2⟩]
        exact Nat.succ_pos _
    · rw [show getFreePagesEntry s e = s from if_neg hu]
      rw [usable_cons_of_neg hu] at h
      have ih := freedOf_foldl es s hs h
      have hcons : freeSpans s.lowestAddress (e :: es) = freeSpans s.lowestAddress es := by
        simp [freeSpans, usable_cons_of_neg hu]
      refine ⟨ih.frame, ?_, ?_, ?_⟩
      · rw [ih.available, usablePages_cons_of_neg hu]
      · rw [hcons]
        exact ih.taken
      · rw [hcons]
        exact ih.outside

/-! ## Carving tables out of the map -/

theorem carve_pointer {size : Nat} {es es' : List MemmapEntry} {hhdm : Nat}
    (hok : MemmapOk hhdm es) (h : carve size es = some (b, es')) :
    add64 b hhdm = b + hhdm ∧ b + size + hhdm < 2 ^ 64 := by
  obtain ⟨x, hx, hb, hle⟩ := carve_span h
  have := hok.inRange x hx
  exact ⟨add64_eq (by omega), by omega⟩

/-- Carving takes whole pages off the counter. -/
theorem sub64_usablePages {size : Nat} {es es' : List MemmapEntry}
    (hok : MemmapApart es) (hsize : size % pageSize = 0) (h : carve size es = some (b, es')) :
    sub64 (usablePages es) (size / pageSize) = usablePages es' := by
  have h1 := carve_usablePages hsize h
  have h2 := usablePages_lt hok
  rw [sub64_eq (by omega) (by omega)]
  omega

theorem createPageBitmap_eq (hok : MemmapOk s.vmmHigherHalfOffset s.memmap)
    (hmax : s.maxPagesAvailable = usablePages s.memmap)
    (hc : carve (bitmapSize s.numPagesInMap) s.memmap = some (b, rest)) :
    createPageBitmap s =
      { s with
        pageBitmap := b + s.vmmHigherHalfOffset
        mem := s.mem.fill (b + s.vmmHigherHalfOffset) (bitmapSize s.numPagesInMap) 0xFF
        memmap := rest
        maxPagesAvailable := usablePages rest } := by
  have hsize : bitmapSize s.numPagesInMap % pageSize = 0 := alignUp_mod _
  simp only [createPageBitmap, hc, (carve_pointer hok hc).1, hmax,
    sub64_usablePages hok.toApart hsize hc]
  rfl

/-- **`memmap_alloc` that finds room.** -/
theorem memmapAlloc_eq {length : Nat} (hok : MemmapOk s.vmmHigherHalfOffset s.memmap)
    (hmax : s.maxPagesAvailable = usablePages s.memmap)
    (hc : carve (alignUp length pageSize) s.memmap = some (b, rest)) :
    memmapAlloc length s =
      .ret (b + s.vmmHigherHalfOffset)
        { s with
          mem := s.mem.fill (b + s.vmmHigherHalfOffset) (alignUp length pageSize) 0
          memmap := rest
          maxPagesAvailable := usablePages rest } := by
  simp only [memmapAlloc, hc, (carve_pointer hok hc).1, hmax,
    sub64_usablePages hok.toApart (alignUp_mod length) hc]
  rfl

/-- `memmap_alloc` that does not. -/
theorem memmapAlloc_halt {length : Nat} (hc : carve (alignUp length pageSize) s.memmap = none) :
    memmapAlloc length s = .halt s := by
  simp only [memmapAlloc, hc, hcf]

/-! ## The whole initialisation -/

/-- The memory after both tables have been carved and filled, before pages are marked free. -/
def blankTables (m : Memory) (s : Pmm) : Memory :=
  (m.fill s.pageBitmap (bitmapSize s.numPagesInMap) 0xFF).fill s.entryMap
    (entryMapSize s.numPagesInMap) 0

/-- A successful `kmem_init` over memory `m`. -/
structure Booted (boot : Boot) (m : Memory) (s : Pmm) (b e : Nat) (rest : List MemmapEntry) :
    Prop where
  range : RangeOf boot s.lowestAddress s.highestAddress
  pages : s.numPagesInMap = (s.highestAddress - s.lowestAddress) / pageSize
  offset : s.vmmHigherHalfOffset = boot.hhdmOffset
  carveBitmap : carve (bitmapSize s.numPagesInMap) boot.memmap = some (b, rest)
  carveTable : carve (entryMapSize s.numPagesInMap) rest = some (e, s.memmap)
  bitmapAt : s.pageBitmap = b + boot.hhdmOffset
  tableAt : s.entryMap = e + boot.hhdmOffset
  max : s.maxPagesAvailable = usablePages s.memmap
  available : s.numPagesAvailable = usablePages s.memmap
  cursor : s.allocationCursor = 0
  unlocked : s.lock = false
  bits : ∀ i, s.taken i = (bitmapTest (blankTables m s) s.pageBitmap i &&
    !decide (0 < Span.cover (freeSpans s.lowestAddress s.memmap) i))
  outside : ∀ a, (∀ i, 0 < Span.cover (freeSpans s.lowestAddress s.memmap) i →
    a ≠ s.pageBitmap + i / 8) → s.mem a = blankTables m s a

theorem pages_lt {lo hi : Nat} (h : RangeOf boot lo hi) : (hi - lo) / pageSize < 2 ^ 52 := by
  have := h.lt
  unfold pageSize
  omega

/-- **`kmem_init` either halts or leaves a booted allocator.** -/
theorem kmemInit_booted (hok : MemmapOk boot.hhdmOffset boot.memmap)
    (h : kmemInit boot (Pmm.zero m) = .ret () s) : ∃ b e rest, Booted boot m s b e rest := by
  obtain ⟨t, ht, hrange, hmax, hpages, hmem, hmap, hoff, hcur, havail, hlock⟩ :=
    initStats_spec hok m
  have hN : t.numPagesInMap < 2 ^ 52 := by
    rw [hpages]
    exact pages_lt hrange
  rw [← hmap, ← hoff] at hok
  rw [← hmap] at hmax
  simp only [kmemInit, ht] at h
  cases hc₁ : carve (bitmapSize t.numPagesInMap) t.memmap with
  | none =>
    -- no room for the bitmap, hence none for the entry table
    have hc₂ : carve (alignUp (entryMapSize t.numPagesInMap) pageSize) t.memmap = none := by
      rw [alignUp_entryMapSize hN, carve_eq_none]
      intro x hx
      exact (carve_eq_none.mp hc₁ x hx).trans_le (bitmapSize_le hN)
    rw [show createPageBitmap t = t by simp only [createPageBitmap, hc₁], memmapAlloc_halt hc₂] at h
    cases h
  | some r =>
    obtain ⟨b, rest⟩ := r
    have hok₁ := hok.carve hc₁
    rw [createPageBitmap_eq hok hmax hc₁] at h
    cases hc₂ : carve (alignUp (entryMapSize t.numPagesInMap) pageSize) rest with
    | none =>
      rw [memmapAlloc_halt hc₂] at h
      cases h
    | some r =>
      obtain ⟨e, left⟩ := r
      have hok₂ := hok₁.carve hc₂
      rw [memmapAlloc_eq hok₁ rfl hc₂] at h
      simp only [Outcome.ret_bind, Outcome.ret.injEq, true_and, alignUp_entryMapSize hN] at h
      rw [alignUp_entryMapSize hN] at hc₂
      generalize hu : Pmm.mk _ _ _ _ _ _ _ _ _ _ _ _ _ = u at h
      have hfree : FreedOf u s left := by
        rw [← h, getFreePages, show u.memmap = left by rw [← hu]]
        refine freedOf_foldl left u (by rw [← hu]; show t.numPagesAvailable < _; omega) ?_
        intro x hx
        have := hok₂.inRange x hx
        omega
      have hlow : u.lowestAddress = t.lowestAddress := by rw [← hu]
      have hpb : u.pageBitmap = b + boot.hhdmOffset := by rw [← hu, ← hoff]
      have hem : u.entryMap = e + boot.hhdmOffset := by rw [← hu, ← hoff]
      have hleft : s.memmap = left := by rw [hfree.frame, ← hu]
      have hlow' : s.lowestAddress = t.lowestAddress := by rw [hfree.frame, hlow]
      have hpb' : s.pageBitmap = u.pageBitmap := by rw [hfree.frame]
      have hhigh : s.highestAddress = t.highestAddress := by rw [hfree.frame, ← hu]
      have hNs : s.numPagesInMap = t.numPagesInMap := by rw [hfree.frame, ← hu]
      have hblank : blankTables m s = u.mem := by
        rw [blankTables, hfree.frame, ← hu, ← hmem]
      refine ⟨b, e, rest, ?_⟩
      constructor
      case range => rw [hlow', hhigh]; exact hrange
      case pages => rw [hNs, hpages, hlow', hhigh]
      case offset => rw [hfree.frame, ← hu]; exact hoff
      case carveBitmap => rw [hNs, ← hmap]; exact hc₁
      case carveTable => rw [hNs, hleft]; exact hc₂
      case bitmapAt => rw [hpb', hpb]
      case tableAt => rw [hfree.frame, hem]
      case max => rw [hleft, hfree.frame, ← hu]
      case available =>
        have := usablePages_lt hok₂.toApart
        have h0 : u.numPagesAvailable = 0 := by rw [← hu]; exact havail
        rw [hleft, hfree.available, h0, Nat.zero_add]
        exact Nat.mod_eq_of_lt (by omega)
      case cursor => rw [hfree.frame, ← hu]; exact hcur
      case unlocked => rw [hfree.frame, ← hu]; exact hlock
      case bits =>
        intro i
        rw [hfree.taken i, hblank, hpb', hlow', hleft, hlow]
        rfl
      case outside =>
        intro a ha
        rw [hblank]
        refine hfree.outside a fun i hi => ?_
        rw [← hpb']
        exact ha i (by rw [hlow', hleft, ← hlow]; exact hi)

namespace Booted

variable (h : Booted boot m s b e rest) (hok : MemmapOk boot.hhdmOffset boot.memmap)
include h

theorem pages_lt : s.numPagesInMap < 2 ^ 52 := by
  rw [h.pages]
  exact BloreOs.pages_lt h.range

include hok

theorem memmapOk : MemmapOk boot.hhdmOffset s.memmap := (hok.carve h.carveBitmap).carve h.carveTable

/-- The map that is left keeps the promises for the offset that `kmem_init` has stored. -/
theorem memmapOk_offset : MemmapOk s.vmmHigherHalfOffset s.memmap := by
  rw [h.offset]
  exact h.memmapOk hok

omit hok in
theorem usable_length_eq : (usable s.memmap).length = (usable boot.memmap).length := by
  rw [carve_usable_length h.carveTable, carve_usable_length h.carveBitmap]

/-- The usable entries that are left lie in the covered range as well. -/
theorem left_bounds : ∀ x ∈ usable s.memmap,
    s.lowestAddress ≤ x.base ∧ x.base + x.length ≤ s.highestAddress := by
  have hstep : ∀ {size : Nat} {c : Nat} {es es' : List MemmapEntry},
      MemmapOk boot.hhdmOffset es → carve size es = some (c, es') →
      (∀ x ∈ usable es, s.lowestAddress ≤ x.base ∧ x.base + x.length ≤ s.highestAddress) →
      ∀ x ∈ usable es', s.lowestAddress ≤ x.base ∧ x.base + x.length ≤ s.highestAddress := by
    intro size c es es' hes hc
    refine forall_usable_carve hc ?_
    intro x hx hl hb
    rw [hes.advance_base hx hl]
    show s.lowestAddress ≤ x.base + size ∧ x.base + size + (x.length - size) ≤ s.highestAddress
    omega
  exact hstep (hok.carve h.carveBitmap) h.carveTable (hstep hok h.carveBitmap h.range.bounds)

theorem max_le : s.maxPagesAvailable ≤ s.numPagesInMap := by
  rw [h.max, h.pages]
  exact usablePages_le _ _ (h.memmapOk hok).toApart (h.left_bounds hok)

/-- The page numbers of an entry that is left. -/
theorem pageSpan_eq {x : MemmapEntry} (hx : x ∈ usable s.memmap) :
    pageSpan s.lowestAddress x
      = ⟨(x.base - s.lowestAddress) / pageSize, x.length / pageSize⟩ := by
  have h1 := h.left_bounds hok x hx
  have h2 := h.range.lt
  rw [pageSpan, sub64_eq h1.1 (by omega)]

/-- Marked pages are pages of the map. -/
theorem lt_of_marked (hi : 0 < Span.cover (freeSpans s.lowestAddress s.memmap) i) :
    i < s.numPagesInMap := by
  obtain ⟨r, hr, hri⟩ := Span.cover_pos.mp hi
  obtain ⟨x, hx, rfl⟩ := List.mem_map.mp hr
  rw [h.pageSpan_eq hok hx] at hri
  have h1 := h.left_bounds hok x hx
  obtain ⟨-, h2⟩ := hri
  rw [h.pages]
  simp only [pageSize] at h2 ⊢
  omega

/-- The carved tables do not overlap. -/
theorem tables_apart : Span.Apart ⟨b, bitmapSize s.numPagesInMap⟩ ⟨e, entryMapSize s.numPagesInMap⟩ := by
  intro a h1 h2
  have hc₁ := carve_cover hok h.carveBitmap a
  have hc₂ := carve_cover (hok.carve h.carveBitmap) h.carveTable a
  have hone := Span.cover_le_one hok.apart a
  have h1' : 0 < Span.cover [⟨b, bitmapSize s.numPagesInMap⟩] a := Span.cover_pos.mpr ⟨_, by simp, h1⟩
  have h2' : 0 < Span.cover [⟨e, entryMapSize s.numPagesInMap⟩] a := Span.cover_pos.mpr ⟨_, by simp, h2⟩
  omega

theorem laid (hcap : s.numPagesInMap ≤ 8 * bitmapSize s.numPagesInMap) : s.Laid where
  pages_lt := h.pages_lt
  capacity := hcap
  apart := by
    have hsize := entryMapSize_eq h.pages_lt
    rw [h.bitmapAt, h.tableAt]
    by_cases h0 : s.numPagesInMap = 0
    · have : bitmapSize s.numPagesInMap = 0 := by rw [h0]; rfl
      omega
    · have hclear := (h.tables_apart hok).clear (by show 0 < bitmapSize _; omega)
        (by show 0 < entryMapSize _; omega)
      simp only [Span.Clear] at hclear
      omega

theorem ready (hcap : s.numPagesInMap ≤ 8 * bitmapSize s.numPagesInMap)
    (hmax : 1 ≤ s.maxPagesAvailable) : s.Ready :=
  { h.laid hok hcap with
    unlocked := h.unlocked
    cursor_lt := by rw [h.cursor]; exact hmax
    max_le := h.max_le hok }

/-- **The bits after `kmem_init`**: 0 for exactly the pages that `_get_free_pages` marks. -/
theorem taken_iff (hcap : s.numPagesInMap ≤ 8 * bitmapSize s.numPagesInMap)
    (hi : i < s.numPagesInMap) :
    s.taken i = false ↔ 0 < Span.cover (freeSpans s.lowestAddress s.memmap) i := by
  have hset : bitmapTest (blankTables m s) s.pageBitmap i = true := by
    have hlaid := h.laid hok hcap
    have hsize := entryMapSize_eq h.pages_lt
    rw [blankTables, bitmapTest_congr (Memory.fill_outside ?_), bitmapTest_fill_ones (by omega)]
    by_contra hc
    refine h.tables_apart hok (b + i / 8) ⟨?_, ?_⟩ ⟨?_, ?_⟩ <;> simp only [h.bitmapAt, h.tableAt] at *
      <;> omega
  rw [h.bits i, hset]
  simp

/-- The entry table after `kmem_init`: no block has been allocated. -/
theorem pagesAllocated_eq_zero (hcap : s.numPagesInMap ≤ 8 * bitmapSize s.numPagesInMap)
    (hp : p < s.numPagesInMap) : s.pagesAllocated p = 0 := by
  have hsize := entryMapSize_eq h.pages_lt
  have hload : s.pagesAllocated p = (blankTables m s).load (s.entryMap + 4 * p) 4 :=
    (h.laid hok hcap).load_of_bits hp fun a ha => h.outside a fun i hi =>
      ha i (h.lt_of_marked hok hi)
  rw [hload, blankTables]
  exact Memory.load_fill_zero 4 (by omega) (by omega)

end Booted

/-! ## A small machine

Two usable ranges with a hole between them: pages 0 to 19 and 32 to 35 of a map of 36 pages. The
two tables take pages 0 and 1. -/

def sampleBoot : Boot where
  memmap := [⟨0x1000, 0xff000, .reserved⟩, ⟨0x100000, 0x14000, .usable⟩,
    ⟨0x114000, 0xc000, .acpiNvs⟩, ⟨0x120000, 0x4000, .usable⟩]
  hhdmOffset := 0xffff800000000000

theorem sampleBoot_ok : MemmapOk sampleBoot.hhdmOffset sampleBoot.memmap where
  apart := List.Pairwise.imp Span.Clear.apart (by decide)
  inRange := by decide
  base_ne_zero := by decide

theorem sampleBoot_aligned : PageAligned sampleBoot.memmap := by
  unfold PageAligned
  decide

/-- What `kmem_init` makes of it, over memory full of zeros. -/
def samplePmm : Pmm := (kmemInit sampleBoot (Pmm.zero fun _ => 0)).state?.get (by decide +kernel)

theorem sample_kmemInit : kmemInit sampleBoot (Pmm.zero fun _ => 0) = .ret () samplePmm :=
  Outcome.eq_ret_of_state? _

end BloreOs
