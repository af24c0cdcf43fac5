import Mathlib.Algebra.Order.BigOperators.Group.List
import BloreOs.System.Starved

/-!
# Maps on which both managers hand out the same memory

On all other maps some run makes the managers overlap. It lets `kalloc` work its way up to a page
(`Ahead.reaches`), and then SLOB hand out its whole pool (`exhausts`). Without a free page below the
bound it moves the cursor with requests of no bytes, until the first `slob_malloc` lowers the bound
below it.

* `Started.overlaps` — a free page below the bound is handed out by both,
* `Started.overlaps_second` — if the second `slob_init` returns, some run makes them overlap,
* `starved_of_separate` — hence only starved maps are safe.
-/

namespace BloreOs

open Loop

variable {F : Nat → Prop} {s t : Slob} {h h' : Machine} {op : MemOp} {i n p b : Nat}
variable {left : List MemmapEntry}

/-! ## Any free page ahead of the cursor can be handed out -/

/-- Page `i` is free and ahead of the cursor, and the cursor gets there without meeting the bound. -/
structure Ahead (r : Pmm) (i : Nat) (h : Machine) : Prop where
  laid : h.slob.pmm.Laid
  same : h.slob.pmm.SameMap r
  unlocked : h.slob.pmm.lock = false
  cursor_le : h.slob.pmm.allocationCursor ≤ i
  lt : i < r.numPagesInMap
  next : ∀ q, h.slob.pmm.allocationCursor ≤ q → q < i → q + 1 ≠ r.maxPagesAvailable
  free : h.slob.pmm.taken i = false

/-- The next page that `kalloc` takes is page `i`, or `i` is still ahead. -/
theorem Ahead.step {r : Pmm} (ha : Ahead r i h) :
    ∃ h', h.step (.kalloc pageSize) = some h' ∧ h'.slob.pmm.SameMap r ∧
      ((⟨getAddrFromPage r i, pageSize⟩ ∈ h'.pages) ∨
        (Ahead r i h' ∧ h.slob.pmm.allocationCursor < h'.slob.pmm.allocationCursor)) := by
  have hex : ∃ p, h.slob.pmm.allocationCursor ≤ p ∧ h.slob.pmm.taken p = false :=
    ⟨i, ha.cursor_le, ha.free⟩
  obtain ⟨p, hp, hmin⟩ : ∃ p, (h.slob.pmm.allocationCursor ≤ p ∧ h.slob.pmm.taken p = false) ∧
      ∀ q < p, ¬ (h.slob.pmm.allocationCursor ≤ q ∧ h.slob.pmm.taken q = false) :=
    ⟨Nat.find hex, Nat.find_spec hex, fun q hq => Nat.find_min hex hq⟩
  have hle : p ≤ i := Nat.le_of_not_lt fun hlt => hmin i hlt ⟨ha.cursor_le, ha.free⟩
  have hlt := ha.lt
  have h52 := ha.laid.pages_lt
  have hN := ha.same.pages
  have hmax := ha.same.max
  obtain ⟨c, heq, hc⟩ := kalloc_first ha.unlocked hp.1 (show p < 2 ^ 64 by omega)
    (fun q h1 h2 => ⟨by simpa [h1] using hmin q h2, by
      rw [hmax]
      exact ha.next q h1 (by omega)⟩) hp.2
  have hstep : h.step (.kalloc pageSize) = some { h with
      slob := { h.slob with pmm := kallocFound h.slob.pmm p 1 c }
      pages := ⟨getAddrFromPage h.slob.pmm p, pageSize⟩ :: h.pages } := by
    rw [Machine.step, if_pos (by decide), heq]
  have hsame : (kallocFound h.slob.pmm p 1 c).SameMap r := { ha.same with }
  refine ⟨_, hstep, hsame, ?_⟩
  by_cases hpi : p = i
  · left
    rw [ha.same.getAddrFromPage, hpi]
    exact List.mem_cons_self
  · right
    have hcur : c = p + 1 := hc (by omega) (by rw [hmax]; exact ha.next p hp.1 (by omega))
    refine ⟨⟨{ ha.laid with }, hsame, ha.unlocked, ?_, hlt, fun q h1 h2 => ?_, ?_⟩, ?_⟩
    · show c ≤ i
      omega
    · have h1' : c ≤ q := h1
      exact ha.next q (by omega) h2
    · show (kallocFound h.slob.pmm p 1 c).taken i = false
      rw [taken_kallocFound ha.laid (by omega) (by omega) (by omega), ha.free, Bool.false_or,
        decide_eq_false_iff_not]
      omega
    · show h.slob.pmm.allocationCursor < c
      omega

/-- **Any free page ahead can be handed out**, while what `kalloc` keeps is kept. -/
theorem Ahead.reaches {r : Pmm} (I : Machine → Prop)
    (hI : ∀ h n h', I h → h.step (.kalloc n) = some h' → I h') (ha : Ahead r i h) (h0 : I h) :
    ∃ ops h', run Machine.step ops h = some h' ∧ I h' ∧ h'.slob.pmm.SameMap r ∧
      ⟨getAddrFromPage r i, pageSize⟩ ∈ h'.pages := by
  -- induction on the distance of the cursor
  obtain ⟨d, hd⟩ : ∃ d, d = i - h.slob.pmm.allocationCursor := ⟨_, rfl⟩
  induction d using Nat.strongRecOn generalizing h with
  | ind d ih =>
    obtain ⟨h₁, hstep, hsame, hdone | ⟨hnext, hlt⟩⟩ := ha.step
    · refine ⟨[.kalloc pageSize], h₁, ?_, hI h _ h₁ h0 hstep, hsame, hdone⟩
      rw [run_cons_eq_some]
      exact ⟨h₁, hstep, rfl⟩
    · have hle := hnext.cursor_le
      obtain ⟨ops, h', hrun, hrest⟩ := ih _ (by omega) hnext (hI h _ h₁ h0 hstep) rfl
      exact ⟨.kalloc pageSize :: ops, h', run_cons_eq_some.mpr ⟨h₁, hstep, hrun⟩, hrest⟩

/-- A block of pages that shares a page with memory of SLOB. -/
theorem not_separate {r : Pmm} {x : Span} (hoff : h.slob.offset = r.vmmHigherHalfOffset)
    (hr : r.lowestAddress + pageSize * i < 2 ^ 64)
    (hmem : ⟨getAddrFromPage r i, pageSize⟩ ∈ h.pages) (hx : x ∈ h.slobSpans)
    (hhas : x.Has (r.lowestAddress + pageSize * i)) : ¬ h.Separate := by
  intro hsep
  refine hsep _ hmem x hx _ ?_ hhas
  rw [hoff, span_getAddrFromPage r hr (by decide)]
  exact ⟨Nat.le_refl _,
    Nat.lt_add_of_pos_right (show 0 < pageSize * ((pageSize + 4095) / 4096) by decide)⟩

/-- `kalloc` does not change what SLOB has taken. -/
theorem step_kalloc_tables {x : Span} (hx : x ∈ h.tables) (hstep : h.step (.kalloc n) = some h') :
    x ∈ h'.tables := by
  rw [Machine.step] at hstep
  split at hstep
  · split at hstep
    · simp only [Option.some.injEq] at hstep
      rw [← hstep]
      exact hx
    · simp only [Option.some.injEq] at hstep
      rw [← hstep]
      exact hx
    · cases hstep
  · cases hstep

/-- A page of a table that is free and ahead of the cursor is handed out by some run. -/
theorem Ahead.overlaps {r : Pmm} {x : Span} (ha : Ahead r i h) (hx : x ∈ h.tables)
    (hr : r.lowestAddress + pageSize * r.numPagesInMap < 2 ^ 64)
    (hhas : x.Has (r.lowestAddress + pageSize * i)) :
    ∃ ops h', run Machine.step ops h = some h' ∧ ¬ h'.Separate := by
  obtain ⟨ops, h', hrun, hx', hsame, hmem⟩ := ha.reaches (fun h => x ∈ h.tables)
    (fun _ _ _ hx hstep => step_kalloc_tables hx hstep) hx
  have hlt := ha.lt
  refine ⟨ops, h', hrun, not_separate hsame.offset (by unfold pageSize at *; omega) hmem
    (List.mem_append_right _ hx') hhas⟩

/-! ## All of the pool can be handed out -/

/-- All entries consist of whole pages. -/
def WholePages (P : Pool) (m : Memory) (heap : List Nat) : Prop :=
  ∀ x ∈ P.records heap, entryLength m (x + P.offset) % pageSize = 0

/-- The free bytes of the pool. -/
def freeBytes (P : Pool) (m : Memory) (heap : List Nat) : Nat :=
  ((P.records heap).map fun x => entryLength m (x + P.offset)).sum

section

variable {P : Pool} {live : List SlobBlock} {heap : List Nat}

/-- **`slob_malloc` of a page less its header.** It keeps whole pages, and fails only if nothing is
free. -/
theorem slobMalloc_page (hinv : SlobInv P s live heap) (hw : WholePages P s.mem heap) :
    ∃ p t, slobMalloc 4088 s = .ret p t ∧
      SlobInv P t (if p = 0 then live else ⟨p, 4088⟩ :: live) heap ∧ WholePages P t.mem heap ∧
      t = s.setMem t.mem ∧ (∀ a, ¬ P.Owns a → t.mem a = s.mem a) ∧
      (freeBytes P t.mem heap < freeBytes P s.mem heap ∨
        ∀ x ∈ P.records heap, entryLength t.mem (x + P.offset) = 0) := by
  have hsize : 4088 + 8 < 2 ^ 64 := by decide
  rcases hinv.slobMalloc_cases hsize with ⟨hnone, heq⟩ | ⟨x, hx, hfit, heq⟩
  · refine ⟨0, s, heq, hinv, hw, rfl, fun _ _ => rfl, Or.inr fun x hx => ?_⟩
    have h1 := hnone x hx
    have h2 := hw x hx
    unfold pageSize at h2
    omega
  · obtain ⟨hset, hout⟩ := hinv.slobMalloc_outside hsize heq
    have hne := hinv.slobSplit_ne_zero hx hfit
    have hinv' := hinv.slobMalloc hsize heq hne
    refine ⟨_, _, heq, by rw [if_neg hne]; exact hinv', ?_, hset, hout, Or.inl ?_⟩
    all_goals rw [hinv.slobSplit_eq hx hfit]
    · -- the entry that was split has lost a page
      intro y hy
      have h1 := hw y hy
      show entryLength (splitMem s.mem P.offset x 4088) (y + P.offset) % pageSize = 0
      rw [hinv.splitMem_length hx hfit hy]
      unfold pageSize at *
      split
      · next hyx =>
        rw [hyx] at h1 ⊢
        omega
      · exact h1
    · refine List.sum_lt_sum (fun y => entryLength (splitMem s.mem P.offset x 4088) (y + P.offset))
        (fun y => entryLength s.mem (y + P.offset)) ?_ ⟨x, hx, ?_⟩
      · intro y hy
        rw [hinv.splitMem_length hx hfit hy]
        exact Nat.sub_le _ _
      · rw [hinv.splitMem_length hx hfit hx, if_pos rfl]
        omega

/-- **Some run hands out the whole pool.** -/
theorem exhausts (hinv : SlobInv P h.slob h.blocks []) (hw : WholePages P h.slob.mem []) :
    ∃ ops h', run Machine.step ops h = some h' ∧ h'.pages = h.pages ∧
      h'.slob.offset = h.slob.offset ∧
      ∀ a, 0 < Span.cover P.spans a → ∃ x ∈ h'.blocks, (x.span P.offset).Has a := by
  -- induction on what is still free
  obtain ⟨n, hn⟩ : ∃ n, n = freeBytes P h.slob.mem [] := ⟨_, rfl⟩
  induction n using Nat.strongRecOn generalizing h with
  | ind n ih =>
    obtain ⟨p, t, heq, hinv', hw', hset, -, hcase⟩ := slobMalloc_page hinv hw
    obtain ⟨h₁, hstep, rfl, hblocks, hpages⟩ : ∃ h₁, h.step (.slobMalloc 4088) = some h₁ ∧
        h₁.slob = t ∧ h₁.blocks = (if p = 0 then h.blocks else ⟨p, 4088⟩ :: h.blocks) ∧
        h₁.pages = h.pages := by
      simp only [Machine.step, heq, show 4088 + 8 < 2 ^ 64 from by decide, if_true, Option.some.injEq]
      exact ⟨_, rfl, rfl, rfl, rfl⟩
    rw [← hblocks] at hinv'
    have hoff : h₁.slob.offset = h.slob.offset := by
      rw [hset]
      rfl
    rcases hcase with hlt | hzero
    · obtain ⟨ops, h', hrun, hpages', hoff', hcov⟩ := ih (freeBytes P h₁.slob.mem [])
        (by rw [hn]; exact hlt) hinv' hw' rfl
      exact ⟨.slobMalloc 4088 :: ops, h', run_cons_eq_some.mpr ⟨h₁, hstep, hrun⟩,
        hpages'.trans hpages, hoff'.trans hoff, hcov⟩
    · refine ⟨[.slobMalloc 4088], h₁, run_cons_eq_some.mpr ⟨h₁, hstep, rfl⟩, hpages, hoff, ?_⟩
      intro a ha
      have hnone : Span.cover (P.entries h₁.slob.mem []) a = 0 := by
        rw [Span.cover_eq_zero]
        rintro r hr ⟨h1, h2⟩
        obtain ⟨x, hx, rfl⟩ := List.mem_map.mp hr
        simp only [entrySpan, hzero x hx] at h1 h2
        omega
      have hpart := hinv'.partition a
      rw [hnone, List.map_nil, Span.cover_nil] at hpart
      have hpos : 0 < Span.cover (h₁.blocks.map (SlobBlock.span P.offset)) a := by omega
      obtain ⟨r, hr, hra⟩ := Span.cover_pos.mp hpos
      obtain ⟨x, hx, rfl⟩ := List.mem_map.mp hr
      exact ⟨x, hx, hra⟩

end

/-- The first `slob_malloc`, for a page less its header. -/
theorem Before.first (hs : Started F s) (hb : Before F s h)
    (hc : slobTake s.pmm.memmap = some (b, left)) :
    ∃ h' P, h.step (.slobMalloc 4088) = some h' ∧ h'.pages = h.pages ∧
      h'.tables = takenSpan s.pmm.memmap b :: h.tables ∧
      h'.slob.pmm = { h.slob.pmm with
        memmap := left
        maxPagesAvailable := usablePages left
        mem := h'.slob.mem } ∧
      (∀ a, s.pmm.InTables a → h'.slob.mem a = h.slob.mem a) ∧
      P.spans = usableSpans left ∧ P.offset = s.offset ∧ SlobInv P h'.slob h'.blocks [] ∧
      WholePages P h'.slob.mem [] := by
  have hoff := hb.offset_eq
  have hmap := hb.pagesIn.same.memmap
  have hinit := hb.init_eq hs
  have hc' : slobTake h.slob.pmm.memmap = some (b, left) := by
    rw [hmap]
    exact hc
  obtain ⟨t₀, ht₀, hbooted⟩ := slobInit_booted (by rw [hoff, hmap]; exact hs.ok)
    (by rw [hb.pagesIn.same.max, hmap]; exact hs.max) (by rw [hmap]; exact hs.count) hc'
  have hw₀ : WholePages (poolOf t₀) t₀.mem [] := by
    intro x hx
    have hin : entrySpan t₀.mem (x + (poolOf t₀).offset) ∈ usableSpans left := by
      rw [← hbooted.entries]
      exact List.mem_map_of_mem hx
    obtain ⟨e, he, heq⟩ := List.mem_map.mp hin
    have hlen := congrArg Span.len heq
    simp only [entrySpan, MemmapEntry.span] at hlen
    rw [← hlen]
    exact (hs.aligned.carve hs.ok (alignUp_mod _) hc e he).2
  obtain ⟨p, t, heq, hinv, hw, hset, hout, -⟩ :=
    slobMalloc_page (s := { t₀ with init := true }) hbooted.inv hw₀
  have hmal : slobMalloc 4088 h.slob = .ret p t := by
    rw [← heq, slobMalloc, slobReady, if_neg (by simp [hinit]), ht₀]
    rfl
  have hpmm : t.pmm = { h.slob.pmm with
      memmap := left
      maxPagesAvailable := usablePages left
      mem := t.mem } := by
    have hpmm' : t.pmm = { t₀.pmm with mem := t.mem } := congrArg Slob.pmm hset
    rw [hpmm', hbooted.pmm]
  have htable : slobTable t = takenSpan s.pmm.memmap b := by
    rw [hset, ← hmap, ← hbooted.table]
    rfl
  have hstep : h.step (.slobMalloc 4088) = some { h with
      slob := t
      blocks := if p = 0 then [] else [⟨p, 4088⟩]
      tables := slobTable t :: h.tables } := by
    simp only [Machine.step, hmal, hinit, hb.blocks]
    rfl
  refine ⟨_, poolOf t₀, hstep, rfl, by rw [htable], hpmm, fun a ha => ?_, ?_, ?_, hinv, hw⟩
  · have hnot : ¬ Mapped h.slob.offset h.slob.pmm.memmap a := by
      rw [hoff, hmap]
      exact (hs.tables a ha).2
    exact (hout a fun hown => hnot (hbooted.owns a hown)).trans (hbooted.outside a hnot)
  · rw [poolOf, hbooted.pmm]
  · show t₀.offset = s.offset
    rw [Slob.offset, hbooted.pmm]
    exact hoff

/-! ## Maps that are not starved -/

section

variable (hs : Started F s)
include hs

theorem Started.ahead (hi : F i) (hlt : i < scanBound s.pmm.maxPagesAvailable) :
    Ahead s.pmm i (Machine.start s) where
  laid := hs.pagesIn.freeIn.toLaid
  same := Pmm.SameMap.refl _
  unlocked := hs.pagesIn.unlocked
  cursor_le := by
    show s.pmm.allocationCursor ≤ i
    rw [hs.cursor]
    exact Nat.zero_le i
  lt := (hs.free i hi).1
  next := fun q _ hq => by
    have hmax := hs.pagesIn.max_lt
    unfold scanBound at hlt
    split at hlt <;> omega
  free := (hs.free i hi).2

/-- The first page of the first table. -/
theorem Started.tablePage : ∃ i, (slobTable s).Has (s.pmm.lowestAddress + pageSize * i) := by
  obtain ⟨h1, h2, h3⟩ := hs.tableAt
  have hlow := hs.lowest_mod
  refine ⟨((slobTable s).base - s.pmm.lowestAddress) / pageSize, ?_, ?_⟩
  · unfold pageSize at *
    omega
  · unfold pageSize at *
    omega

/-- Where the pages of `F` are once the second table has been taken. -/
theorem Started.has_cases (hc : slobTake s.pmm.memmap = some (b, left)) (hi : F i) :
    (slobTable s).Has (s.pmm.lowestAddress + pageSize * i) ∨
      (takenSpan s.pmm.memmap b).Has (s.pmm.lowestAddress + pageSize * i) ∨
      0 < Span.cover (usableSpans left) (s.pmm.lowestAddress + pageSize * i) := by
  rcases (hs.iff i).mp hi with h1 | h1
  · exact Or.inl h1
  · exact Or.inr ((slobTake_cover hs.ok hc).mp h1)

/-- **A free page below the bound** is handed out by both managers in some run. -/
theorem Started.overlaps (hc : slobTake s.pmm.memmap = some (b, left)) (hi : F i)
    (hlt : i < s.pmm.maxPagesAvailable) :
    ∃ ops h, run Machine.step ops (Machine.start s) = some h ∧ ¬ h.Separate := by
  have hpos : 1 ≤ s.pmm.maxPagesAvailable := by omega
  have hN := (hs.free i hi).1
  have hrange : s.pmm.lowestAddress + pageSize * i < 2 ^ 64 := by
    have := hs.inRange
    unfold pageSize at *
    omega
  obtain ⟨ops, h₁, hrun, hb, hsame, hmem⟩ :=
    (hs.ahead hi (by rw [scanBound_of_pos hpos]; exact hlt)).reaches (Before F s)
      (fun h n h' hb hstep => by
        rcases hb.step_cases hpos hstep with hb' | ⟨size, p, t, hop, -⟩
        · exact hb'
        · cases hop) hs.before
  obtain ⟨h₂, P, hstep, hpages, htables, hpmm, -, hspans, hoff, hinv, hw⟩ := hb.first hs hc
  have hoff₂ : h₂.slob.offset = s.offset := by
    rw [Slob.offset, hpmm]
    exact hsame.offset
  have hrun₂ : run Machine.step (ops ++ [.slobMalloc 4088]) (Machine.start s) = some h₂ := by
    rw [run_append, hrun]
    exact run_cons_eq_some.mpr ⟨h₂, hstep, rfl⟩
  rw [← hpages] at hmem
  rcases hs.has_cases hc hi with htab | htab | hpool
  · refine ⟨_, h₂, hrun₂, not_separate hoff₂ hrange hmem (List.mem_append_right _ ?_) htab⟩
    rw [htables, hb.tables]
    exact List.mem_cons_of_mem _ (List.mem_singleton_self _)
  · refine ⟨_, h₂, hrun₂, not_separate hoff₂ hrange hmem (List.mem_append_right _ ?_) htab⟩
    rw [htables]
    exact List.mem_cons_self
  · obtain ⟨ops', h₃, hrun₃, hpages₃, hoff₃, hcov⟩ := exhausts hinv hw
    rw [← hpages₃] at hmem
    obtain ⟨x, hx, hhas⟩ := hcov _ (by rw [hspans]; exact hpool)
    rw [hoff] at hhas
    refine ⟨(ops ++ [.slobMalloc 4088]) ++ ops', h₃, ?_, not_separate (hoff₃.trans hoff₂) hrange hmem
      (List.mem_append_left _ (List.mem_map.mpr ⟨x, List.mem_append_left _ hx, rfl⟩)) ?_⟩
    · rw [run_append, hrun₂]
      exact hrun₃
    · rw [hoff₃.trans hoff₂]
      exact hhas

omit hs in
/-- A table has at least a page. -/
theorem one_le_slobTake (hcount : (usable s.pmm.memmap).length < 2 ^ 31)
    (hc : slobTake s.pmm.memmap = some (b, left)) :
    1 ≤ alignUp (24 * (usable s.pmm.memmap).length) pageSize / pageSize := by
  obtain ⟨e, he, -⟩ := carve_span hc
  have hlen := List.length_pos_of_mem he
  rw [alignUp_eq (by omega)]
  show 1 ≤ _ / 4096 * 4096 / 4096
  omega

/-- **A cursor that the second table leaves at the bound or behind it.** `kalloc` does not meet the
bound any more and takes a page of the first table. -/
theorem Started.overlaps_passed (hb : Before F s h) (hc : slobTake s.pmm.memmap = some (b, left))
    (hi : (slobTable s).Has (s.pmm.lowestAddress + pageSize * i))
    (hfree : h.slob.pmm.taken i = false) (hcur : h.slob.pmm.allocationCursor ≤ i)
    (hpassed : usablePages left ≤ h.slob.pmm.allocationCursor) :
    ∃ ops h', run Machine.step ops h = some h' ∧ ¬ h'.Separate := by
  have hN := (hs.free i ((hs.iff i).mpr (Or.inl hi))).1
  have hlaid := hb.pagesIn.freeIn.toLaid
  have hpages := hb.pagesIn.same.pages
  obtain ⟨h₁, P, hstep, -, htables, hpmm, hsame, -⟩ := hb.first hs hc
  have hlow : h₁.slob.pmm.lowestAddress = s.pmm.lowestAddress := by
    rw [hpmm]
    exact hb.pagesIn.same.lowest
  have hN₁ : h₁.slob.pmm.numPagesInMap = s.pmm.numPagesInMap := by
    rw [hpmm]
    exact hpages
  have ha : Ahead h₁.slob.pmm i h₁ := by
    constructor
    case same => exact Pmm.SameMap.refl _
    case free =>
      rw [← hfree, ← hlaid.taken_congr (fun a ha => hsame a (hb.pagesIn.inTables_iff.mp ha))
        (by omega)]
      show bitmapTest h₁.slob.pmm.mem h₁.slob.pmm.pageBitmap i = _
      rw [hpmm]
    case lt => omega
    all_goals rw [hpmm]
    case laid => exact { hlaid with }
    case unlocked => exact hb.pagesIn.unlocked
    case cursor_le => exact hcur
    case next =>
      intro q hq _
      have hq' : h.slob.pmm.allocationCursor ≤ q := hq
      show q + 1 ≠ usablePages left
      omega
  obtain ⟨ops, h₂, hrun, hnot⟩ := ha.overlaps (x := slobTable s)
    (by rw [htables, hb.tables]; exact List.mem_cons_of_mem _ (List.mem_singleton_self _))
    (by rw [hlow, hN₁]; exact hs.inRange) (by rw [hlow]; exact hi)
  exact ⟨.slobMalloc 4088 :: ops, h₂, run_cons_eq_some.mpr ⟨h₁, hstep, hrun⟩, hnot⟩

/-- **Requests of no bytes move the cursor** while all pages below the bound are taken. -/
theorem Started.moves (hF : ∀ i, F i → s.pmm.maxPagesAvailable ≤ i) :
    ∀ k < s.pmm.maxPagesAvailable, ∃ h, run Machine.step (List.replicate k (.kalloc 0))
      (Machine.start s) = some h ∧ Before F s h ∧ h.slob.pmm.allocationCursor = k ∧
      ∀ i < s.pmm.numPagesInMap, h.slob.pmm.taken i = s.pmm.taken i
  | 0, _ => ⟨_, rfl, hs.before, hs.cursor, fun _ _ => rfl⟩
  | k + 1, hk => by
    obtain ⟨h, hrun, hb, hcur, htaken⟩ := Started.moves hF k (by omega)
    obtain ⟨t, heq, ht, hcur', htaken'⟩ := hb.pagesIn.kalloc_zero_eq (by omega) hF (by omega)
    have hstep : h.step (.kalloc 0) = some { h with
        slob := { h.slob with pmm := t }
        pages := ⟨getAddrFromPage s.pmm 0, 0⟩ :: h.pages } := by
      rw [Machine.step, if_pos (by decide), heq]
    rcases hb.step_cases (by omega) hstep with hb' | ⟨size, p, u, hop, -⟩
    · refine ⟨_, ?_, hb', by rw [← hcur]; exact hcur', fun i hi => ?_⟩
      · rw [List.replicate_succ', run_append, hrun]
        exact run_cons_eq_some.mpr ⟨_, hstep, rfl⟩
      · exact (htaken' i (by rw [hb.pagesIn.same.pages]; exact hi)).trans (htaken i hi)
    · cases hop

/-- **A second `slob_init` that returns** makes the managers overlap. -/
theorem Started.overlaps_second (hpos : 1 ≤ s.pmm.maxPagesAvailable)
    (hc : slobTake s.pmm.memmap = some (b, left)) :
    ∃ ops h, run Machine.step ops (Machine.start s) = some h ∧ ¬ h.Separate := by
  by_cases hF : ∀ i, F i → s.pmm.maxPagesAvailable ≤ i
  · -- the cursor is moved to the last page below the bound, and the second table passes it
    obtain ⟨i, hi⟩ := hs.tablePage
    have hFi := (hs.iff i).mpr (Or.inl hi)
    have hle := hF i hFi
    obtain ⟨hN, hfree⟩ := hs.free i hFi
    obtain ⟨h, hrun, hb, hcur, htaken⟩ := hs.moves hF (s.pmm.maxPagesAvailable - 1) (by omega)
    have hpages := carve_usablePages (alignUp_mod _) hc
    have htable := one_le_slobTake hs.count hc
    have hmax := hs.max
    obtain ⟨ops, h', hrun', hnot⟩ := hs.overlaps_passed hb hc hi ((htaken i hN).trans hfree)
      (by omega) (by omega)
    exact ⟨_, h', by rw [run_append, hrun]; exact hrun', hnot⟩
  · simp only [not_forall, Nat.not_le] at hF
    obtain ⟨i, hi, hlt⟩ := hF
    exact hs.overlaps hc hi hlt

/-- **On all other maps some run makes the managers overlap.** -/
theorem starved_of_separate
    (hsep : ∀ ops h, run Machine.step ops (Machine.start s) = some h → h.Separate) :
    StarvedAt s := by
  have hno : ¬ ∃ ops h, run Machine.step ops (Machine.start s) = some h ∧ ¬ h.Separate :=
    fun ⟨ops, h, hrun, hnot⟩ => hnot (hsep ops h hrun)
  -- no page of the first table is within reach of `kalloc`
  have htab : ∀ i, (slobTable s).Has (s.pmm.lowestAddress + pageSize * i) →
      ¬ i < scanBound s.pmm.maxPagesAvailable := fun i hi hlt =>
    hno ((hs.ahead ((hs.iff i).mpr (Or.inl hi)) hlt).overlaps (List.mem_singleton_self _)
      hs.inRange hi)
  have hpos : 1 ≤ s.pmm.maxPagesAvailable := by
    obtain ⟨i, hi⟩ := hs.tablePage
    by_contra h0
    refine htab i hi ?_
    have hN := (hs.free i ((hs.iff i).mpr (Or.inl hi))).1
    have hlt := hs.pagesIn.freeIn.pages_lt
    rw [scanBound, if_pos (by omega)]
    omega
  rw [scanBound_of_pos hpos] at htab
  unfold StarvedAt
  rw [← hs.max]
  refine ⟨hpos, fun i hi => Nat.le_of_not_lt (htab i hi), ?_⟩
  cases hc : slobTake s.pmm.memmap with
  | none => rfl
  | some x => exact absurd (hs.overlaps_second hpos hc) hno

end

end BloreOs
