import BloreOs.Mem.Pmm

/-!
# The statistics pass (`_init_stats`)

`_init_stats` folds the map into the address range that the page tables will cover. Its results
are all that later passes know about the original map:

* `initStats_spec` — the usable entries lie between `lowest_address` and `highest_address`, and
  `max_pages_available` counts their whole pages,
* `usablePages_le` — which are no more than the pages of that range.

`lowest_address` starts at 0, and 0 also means "no entry seen yet". That is where usable entries
at address 0 would do harm, and why `MemmapOk.base_ne_zero` is needed.
-/

namespace BloreOs

variable {s : Pmm} {hhdm : Nat} {es : List MemmapEntry} {e : MemmapEntry}

/-- What the fold over the entries `es` makes of `s`. -/
structure StatsOf (s t : Pmm) (es : List MemmapEntry) : Prop where
  frame : t = { s with
    totalMemoryBytes := t.totalMemoryBytes
    maxPagesAvailable := t.maxPagesAvailable
    highestAddress := t.highestAddress
    lowestAddress := t.lowestAddress }
  max : t.maxPagesAvailable = (s.maxPagesAvailable + usablePages es) % 2 ^ 64
  le_highest : s.highestAddress ≤ t.highestAddress ∧
    ∀ e ∈ usable es, e.base + e.length ≤ t.highestAddress
  highest_mem : t.highestAddress = s.highestAddress ∨
    ∃ e ∈ usable es, t.highestAddress = e.base + e.length
  lowest_le : (s.lowestAddress ≠ 0 → t.lowestAddress ≤ s.lowestAddress) ∧
    ∀ e ∈ usable es, t.lowestAddress ≤ e.base
  lowest_mem : t.lowestAddress = s.lowestAddress ∨ ∃ e ∈ usable es, t.lowestAddress = e.base
  lowest_ne : usable es ≠ [] → t.lowestAddress ≠ 0

theorem usablePages_cons_of_pos (h : e.type = .usable) :
    usablePages (e :: es) = e.length / pageSize + usablePages es := by
  simp [usablePages, usable_cons_of_pos h]

theorem usablePages_cons_of_neg (h : e.type ≠ .usable) :
    usablePages (e :: es) = usablePages es := by
  simp [usablePages, usable_cons_of_neg h]

/-- One usable entry. -/
theorem statsOf_entry (s : Pmm) (hu : e.type = .usable) (he : e.base ≠ 0)
    (hr : e.base + e.length < 2 ^ 64) : StatsOf s (initStatsEntry s e) [e] := by
  unfold initStatsEntry
  rw [if_pos hu]
  constructor <;> simp only [usable_cons_of_pos hu, usablePages_cons_of_pos hu, add64_eq hr, cMax,
    cMin, List.mem_cons, forall_eq_or_imp, exists_eq_or_imp]
  case max => rfl
  case le_highest => exact ⟨by split <;> omega, by split <;> omega, by simp [usable]⟩
  case highest_mem => split <;> simp
  case lowest_le =>
    refine ⟨?_, ?_, by simp [usable]⟩
    · intro h0
      rw [if_neg h0]
      split <;> omega
    · split
      · exact Nat.le_refl _
      · split <;> omega
  case lowest_mem =>
    split
    · simp
    · split <;> simp
  case lowest_ne =>
    intro _
    split
    · exact he
    · split <;> assumption

/-- Entry after entry. -/
theorem StatsOf.cons {t u : Pmm} (h1 : StatsOf s t [e]) (h2 : StatsOf t u es)
    (hu : e.type = .usable) : StatsOf s u (e :: es) := by
  have hmem : e ∈ usable [e] := by simp [usable_cons_of_pos hu]
  have hne : t.lowestAddress ≠ 0 := h1.lowest_ne (List.ne_nil_of_mem hmem)
  have hlow : u.lowestAddress ≤ t.lowestAddress := h2.lowest_le.1 hne
  have hsub : ∀ {x}, x ∈ usable [e] → x ∈ usable (e :: es) := by
    intro x hx
    rw [usable_cons_of_pos hu] at hx ⊢
    exact List.mem_cons.mpr (Or.inl (by simpa [usable] using hx))
  refine ⟨?_, ?_, ⟨h1.le_highest.1.trans h2.le_highest.1, ?_⟩, ?_, ⟨fun h0 => ?_, ?_⟩, ?_, ?_⟩
  · rw [h2.frame, h1.frame]
  · rw [h2.max, h1.max, usablePages_cons_of_pos hu, usablePages_cons_of_pos hu]
    simp [usablePages, usable]
    omega
  · rw [usable_cons_of_pos hu, List.forall_mem_cons]
    exact ⟨(h1.le_highest.2 e hmem).trans h2.le_highest.1, h2.le_highest.2⟩
  · rcases h2.highest_mem with h | ⟨x, hx, h⟩
    · rcases h1.highest_mem with h' | ⟨x, hx, h'⟩
      · exact Or.inl (h.trans h')
      · exact Or.inr ⟨x, hsub hx, h.trans h'⟩
    · exact Or.inr ⟨x, by rw [usable_cons_of_pos hu]; exact List.mem_cons_of_mem _ hx, h⟩
  · exact hlow.trans (h1.lowest_le.1 h0)
  · rw [usable_cons_of_pos hu, List.forall_mem_cons]
    exact ⟨hlow.trans (h1.lowest_le.2 e hmem), h2.lowest_le.2⟩
  · rcases h2.lowest_mem with h | ⟨x, hx, h⟩
    · rcases h1.lowest_mem with h' | ⟨x, hx, h'⟩
      · exact Or.inl (h.trans h')
      · exact Or.inr ⟨x, hsub hx, h.trans h'⟩
    · exact Or.inr ⟨x, by rw [usable_cons_of_pos hu]; exact List.mem_cons_of_mem _ hx, h⟩
  · intro _
    rcases h2.lowest_mem with h | ⟨x, hx, -⟩
    · rwa [h]
    · exact h2.lowest_ne (List.ne_nil_of_mem hx)

/-- The whole map. -/
theorem statsOf_foldl : ∀ (es : List MemmapEntry) (s : Pmm), s.maxPagesAvailable < 2 ^ 64 →
    (∀ e ∈ usable es, e.base ≠ 0 ∧ e.base + e.length < 2 ^ 64) →
    StatsOf s (es.foldl initStatsEntry s) es
  | [], s, hs, _ => by
    refine ⟨rfl, ?_, by simp [usable], Or.inl rfl, by simp [usable], Or.inl rfl, by simp [usable]⟩
    simp only [usablePages, usable, List.filter_nil, List.map_nil, List.sum_nil]
    exact (Nat.mod_eq_of_lt hs).symm
  | e :: es, s, hs, h => by
    rw [List.foldl_cons]
    by_cases hu : e.type = .usable
    · rw [usable_cons_of_pos hu, List.forall_mem_cons] at h
      have h1 := statsOf_entry s hu h.1.1 h.1.2
      have hlt : (initStatsEntry s e).maxPagesAvailable < 2 ^ 64 := by
        rw [h1.max]
        exact Nat.mod_lt _ (by decide)
      exact h1.cons (statsOf_foldl es _ hlt h.2) hu
    · rw [usable_cons_of_neg hu] at h
      rw [show initStatsEntry s e = s from if_neg hu]
      have ih := statsOf_foldl es s hs h
      exact ⟨ih.frame, by rw [usablePages_cons_of_neg hu]; exact ih.max,
        by rw [usable_cons_of_neg hu]; exact ih.le_highest,
        by rw [usable_cons_of_neg hu]; exact ih.highest_mem,
        by rw [usable_cons_of_neg hu]; exact ih.lowest_le,
        by rw [usable_cons_of_neg hu]; exact ih.lowest_mem,
        by rw [usable_cons_of_neg hu]; exact ih.lowest_ne⟩

/-! ## The result for a map that keeps the boot protocol's promises -/

theorem sum_div_le (l : List Nat) (n : Nat) : (l.map fun x => x / n).sum ≤ l.sum / n := by
  induction l with
  | nil => simp
  | cons x l ih =>
    rw [List.map_cons, List.sum_cons, List.sum_cons]
    exact (Nat.add_le_add_left ih _).trans Nat.div_add_div_le_add_div

/-- Disjoint usable entries hold no more pages than the range they lie in. -/
theorem usablePages_le (lo hi : Nat) (hok : MemmapApart es)
    (h : ∀ e ∈ usable es, lo ≤ e.base ∧ e.base + e.length ≤ hi) :
    usablePages es ≤ (hi - lo) / pageSize := by
  have hsum : ((usableSpans es).map Span.len).sum ≤ hi - lo := by
    refine Span.sum_len_le (Span.cover_le_one hok.apart) ?_
    intro r hr
    obtain ⟨e, he, rfl⟩ := List.mem_map.mp hr
    exact h e he
  have hlen : (usableSpans es).map Span.len = (usable es).map MemmapEntry.length := by
    simp [usableSpans, MemmapEntry.span, Function.comp_def]
  rw [hlen] at hsum
  calc usablePages es = (((usable es).map MemmapEntry.length).map fun x => x / pageSize).sum := by
        simp [usablePages, Function.comp_def]
    _ ≤ ((usable es).map MemmapEntry.length).sum / pageSize := sum_div_le _ _
    _ ≤ (hi - lo) / pageSize := Nat.div_le_div_right hsum

theorem usablePages_lt (hok : MemmapApart es) : usablePages es ≤ 2 ^ 52 :=
  usablePages_le 0 (2 ^ 64) hok fun e he => ⟨Nat.zero_le _, (hok.inRange e he).2⟩

/-- The address range that the page tables cover. -/
structure RangeOf (boot : Boot) (lo hi : Nat) : Prop where
  le : lo ≤ hi
  lt : hi < 2 ^ 64
  tight : usable boot.memmap = [] ∧ lo = 0 ∧ hi = 0 ∨
    (∃ e ∈ usable boot.memmap, lo = e.base) ∧ ∃ e ∈ usable boot.memmap, hi = e.base + e.length
  bounds : ∀ e ∈ usable boot.memmap, lo ≤ e.base ∧ e.base + e.length ≤ hi

/-- **`_init_stats` on a map that keeps the boot protocol's promises.** -/
theorem initStats_spec {boot : Boot} (hok : MemmapOk boot.hhdmOffset boot.memmap) (m : Memory) :
    ∃ t, initStats boot (Pmm.zero m) = t ∧ RangeOf boot t.lowestAddress t.highestAddress ∧
      t.maxPagesAvailable = usablePages boot.memmap ∧
      t.numPagesInMap = (t.highestAddress - t.lowestAddress) / pageSize ∧
      t.mem = m ∧ t.memmap = boot.memmap ∧ t.vmmHigherHalfOffset = boot.hhdmOffset ∧
      t.allocationCursor = 0 ∧ t.numPagesAvailable = 0 ∧ t.lock = false := by
  have hst := statsOf_foldl boot.memmap
    { Pmm.zero m with memmap := boot.memmap, vmmHigherHalfOffset := boot.hhdmOffset }
    (by decide : 0 < 2 ^ 64)
    fun e he => ⟨hok.base_ne_zero e he, by have := hok.inRange e he; omega⟩
  generalize ht : boot.memmap.foldl initStatsEntry
    { Pmm.zero m with memmap := boot.memmap, vmmHigherHalfOffset := boot.hhdmOffset } = t at hst
  have hrange : RangeOf boot t.lowestAddress t.highestAddress := by
    refine ⟨?_, ?_, ?_, fun e he => ⟨hst.lowest_le.2 e he, hst.le_highest.2 e he⟩⟩
    · rcases hst.lowest_mem with h | ⟨e, he, h⟩
      · rw [h]
        exact Nat.zero_le _
      · have := hst.le_highest.2 e he
        omega
    · rcases hst.highest_mem with h | ⟨e, he, h⟩
      · rw [h]
        exact (by decide : 0 < 2 ^ 64)
      · have := hok.inRange e he
        omega
    · by_cases hnil : usable boot.memmap = []
      · have hlow := hst.lowest_mem
        have hhigh := hst.highest_mem
        rw [hnil] at hlow hhigh
        simp only [List.not_mem_nil, false_and, exists_false, or_false] at hlow hhigh
        exact Or.inl ⟨hnil, hlow, hhigh⟩
      · obtain ⟨e, he⟩ := List.exists_mem_of_ne_nil _ hnil
        have hne := hok.base_ne_zero e he
        have hle := hst.le_highest.2 e he
        refine Or.inr ⟨hst.lowest_mem.resolve_left (hst.lowest_ne hnil),
          hst.highest_mem.resolve_left fun h0 => ?_⟩
        have h0' : t.highestAddress = 0 := h0
        omega
  have hmax : t.maxPagesAvailable = usablePages boot.memmap := by
    have := usablePages_lt hok.toApart
    rw [hst.max]
    show (0 + usablePages boot.memmap) % 2 ^ 64 = _
    omega
  refine ⟨_, rfl, ?_⟩
  simp only [initStats, ht]
  have hf := hst.frame
  refine ⟨hrange, hmax, ?_, by rw [hf]; rfl, by rw [hf], by rw [hf], by rw [hf]; rfl,
    by rw [hf]; rfl, by rw [hf]; rfl⟩
  rw [sub64_eq hrange.le hrange.lt]

end BloreOs
