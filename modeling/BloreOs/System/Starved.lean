import BloreOs.System.Machine

/-!
# Maps on which one manager has nothing to hand out

The page bitmap is filled in by `kmem_init`. `memmap_alloc` does not set bits, so the tables that
`slob_init` takes afterwards stay free in the bitmap, and so does the whole SLOB pool: it is made of
the same usable entries. Nothing but the bound of `kalloc` keeps pages from being handed out, and the
first `slob_malloc` lowers it below a cursor that requests of no bytes can move to any page. So the
managers stay apart only if no `slob_malloc` ever returns, and if the table of the first `slob_init`
lies behind the bound (`Boot.Starved`).

* `Before` — up to the first `slob_malloc`, only pages are handed out,
* `separate_of_starved` — on starved maps the managers stay apart.
-/

namespace BloreOs

open Loop

/-- What a `slob_init` takes from a map, and what it leaves. -/
def slobTake (es : List MemmapEntry) : Option (Nat × List MemmapEntry) :=
  carve (alignUp (24 * (usable es).length) pageSize) es

/-- The physical pages that a `slob_init` takes at `b`, from a map like `es`. -/
def takenSpan (es : List MemmapEntry) (b : Nat) : Span :=
  ⟨b, alignUp (24 * (usable es).length) pageSize⟩

/-- The table and what is left make up what was usable before. -/
theorem slobTake_cover {hhdm a b : Nat} {es left : List MemmapEntry} (hok : MemmapOk hhdm es)
    (h : slobTake es = some (b, left)) : 0 < Span.cover (usableSpans es) a ↔
      (takenSpan es b).Has a ∨ 0 < Span.cover (usableSpans left) a := by
  have hcover : Span.cover [takenSpan es b] a + _ = _ := carve_cover hok h a
  rw [Span.cover_cons, Span.cover_nil, Nat.zero_add] at hcover
  rw [← hcover]
  by_cases hhas : (takenSpan es b).Has a
  · rw [if_pos hhas]
    exact ⟨fun _ => Or.inl hhas, fun _ => by omega⟩
  · rw [if_neg hhas, Nat.zero_add]
    exact ⟨Or.inr, fun h => h.resolve_left hhas⟩

/--
SLOB has nothing to hand out. After the first `slob_init` there are pages left, but fewer than the
number of any page of its table, and no room for the second table: the first `slob_malloc` halts.
-/
def Boot.Starved (boot : Boot) : Prop :=
  ∃ b left, slobTake boot.left = some (b, left) ∧ 1 ≤ usablePages left ∧
    (∀ i, (takenSpan boot.left b).Has (boot.lowest + pageSize * i) → usablePages left ≤ i) ∧
    slobTake left = none

/-- The machine that `kernel_main` starts. `F` are the pages that are free in the bitmap: those
that are left for SLOB, and those of its first table. -/
structure Started (F : Nat → Prop) (s : Slob) : Prop where
  init : s.init = false
  ok : MemmapOk s.offset s.pmm.memmap
  aligned : PageAligned s.pmm.memmap
  count : (usable s.pmm.memmap).length < 2 ^ 31
  max : s.pmm.maxPagesAvailable = usablePages s.pmm.memmap
  cursor : s.pmm.allocationCursor = 0
  pagesIn : PagesIn F s.pmm s.pmm
  free : ∀ i, F i → i < s.pmm.numPagesInMap ∧ s.pmm.taken i = false
  tables : ∀ a, s.pmm.InTables a → 24 ≤ a ∧ ¬ Mapped s.offset s.pmm.memmap a
  inRange : s.pmm.lowestAddress + pageSize * s.pmm.numPagesInMap < 2 ^ 64
  lowest_mod : s.pmm.lowestAddress % pageSize = 0
  tableAt : s.pmm.lowestAddress ≤ (slobTable s).base ∧ (slobTable s).base % pageSize = 0 ∧
    0 < (slobTable s).len
  iff : ∀ i, F i ↔ (slobTable s).Has (s.pmm.lowestAddress + pageSize * i) ∨
    0 < Span.cover (usableSpans s.pmm.memmap) (s.pmm.lowestAddress + pageSize * i)

variable {F : Nat → Prop} {s t : Slob} {h h' : Machine} {op : MemOp} {i n p b : Nat}
variable {left : List MemmapEntry}

/-! ## Up to the first `slob_malloc` -/

/-- What `kalloc` has handed out so far. A block of no bytes has no pages. -/
structure PageBlockOk (F : Nat → Prop) (r : Pmm) (x : PageBlock) : Prop where
  size : x.numBytes + 4095 < 2 ^ 64
  pages : ∃ p, x.ptr = getAddrFromPage r p ∧ p < r.maxPagesAvailable ∧
    p + (x.numBytes + 4095) / 4096 ≤ r.maxPagesAvailable ∧
    ∀ i, p ≤ i → i < p + (x.numBytes + 4095) / 4096 → F i

/-- Only pages have been handed out. -/
structure Before (F : Nat → Prop) (s : Slob) (h : Machine) : Prop where
  slob : h.slob = { s with pmm := h.slob.pmm }
  pagesIn : PagesIn F s.pmm h.slob.pmm
  blocks : h.blocks = []
  nodes : h.nodes = []
  tables : h.tables = [slobTable s]
  pages : ∀ x ∈ h.pages, PageBlockOk F s.pmm x

theorem Started.before (hs : Started F s) : Before F s (Machine.start s) :=
  ⟨rfl, hs.pagesIn, rfl, rfl, rfl, by simp [Machine.start]⟩

theorem Before.offset_eq (hb : Before F s h) : h.slob.offset = s.offset := by
  rw [hb.slob]
  exact hb.pagesIn.same.offset

theorem Before.init_eq (hb : Before F s h) (hs : Started F s) : h.slob.init = false := by
  rw [hb.slob]
  exact hs.init

/-- **One call before the lazy initialisation**: pages are handed out or given back, or it is the
first `slob_malloc`. -/
theorem Before.step_cases (hpos : 1 ≤ s.pmm.maxPagesAvailable) (hb : Before F s h)
    (hstep : h.step op = some h') :
    Before F s h' ∨
      ∃ size p t, op = .slobMalloc size ∧ size + 8 < 2 ^ 64 ∧ slobMalloc size h.slob = .ret p t := by
  cases op with
  | kalloc n =>
    rw [Machine.step] at hstep
    split at hstep
    · next hn =>
      rcases hb.pagesIn.kalloc_cases hpos hn with ⟨p, q, heq, hq, hp⟩ | ⟨c, heq, hq⟩
      · simp only [heq, Option.some.injEq] at hstep
        rw [← hstep]
        refine Or.inl ⟨by rw [hb.slob], hq, hb.blocks, hb.nodes, hb.tables, ?_⟩
        exact List.forall_mem_cons.mpr ⟨⟨hn, p, rfl, hp⟩, hb.pages⟩
      · simp only [heq, Option.some.injEq] at hstep
        rw [← hstep]
        exact Or.inl ⟨by rw [hb.slob], hq, hb.blocks, hb.nodes, hb.tables, hb.pages⟩
    · cases hstep
  | kfree ptr =>
    rw [Machine.step] at hstep
    split at hstep
    · cases hstep
    · split at hstep
      · next q heq =>
        simp only [Option.some.injEq] at hstep
        rw [← hstep]
        exact Or.inl ⟨by rw [hb.slob], hb.pagesIn.kfree heq, hb.blocks, hb.nodes, hb.tables,
          fun x hx => hb.pages x (List.mem_of_mem_erase hx)⟩
      · cases hstep
  | slobMalloc size =>
    rw [Machine.step] at hstep
    split at hstep
    · next hsize =>
      split at hstep
      · next p t heq => exact Or.inr ⟨size, p, t, rfl, hsize, heq⟩
      · cases hstep
    · cases hstep
  | slobFree ptr =>
    rw [Machine.step, hb.blocks] at hstep
    cases hstep

/-- The physical pages behind a pointer from `kalloc`. -/
theorem span_getAddrFromPage (r : Pmm) (hp : r.lowestAddress + pageSize * p < 2 ^ 64)
    (hn : n + 4095 < 2 ^ 64) :
    (⟨getAddrFromPage r p, n⟩ : PageBlock).span r.vmmHigherHalfOffset
      = ⟨r.lowestAddress + pageSize * p, pageSize * ((n + 4095) / 4096)⟩ := by
  have hmul : mul64 p pageSize = pageSize * p := by
    rw [mul64_eq (by unfold pageSize at *; omega), Nat.mul_comm]
  rw [PageBlock.span, getAddrFromPage, hmul, add64_eq hp, sub64_add64_cancel hp, divRoundup_eq hn]

theorem PageBlockOk.span_eq {x : PageBlock} (hs : Started F s) (hx : PageBlockOk F s.pmm x) :
    ∃ p, x.span s.offset
        = ⟨s.pmm.lowestAddress + pageSize * p, pageSize * ((x.numBytes + 4095) / 4096)⟩ ∧
      p + (x.numBytes + 4095) / 4096 ≤ s.pmm.maxPagesAvailable := by
  obtain ⟨p, hptr, -, hp, -⟩ := hx.pages
  have hmax := hs.pagesIn.freeIn.max_le
  have hrange := hs.inRange
  have hspan := span_getAddrFromPage s.pmm (show s.pmm.lowestAddress + pageSize * p < 2 ^ 64 by
    unfold pageSize at *; omega) hx.size
  rw [← hptr] at hspan
  exact ⟨p, hspan, hp⟩

/-- As long as only pages have been handed out, the first table is all they could overlap. -/
theorem Before.separate (hs : Started F s) (hb : Before F s h)
    (htab : ∀ i, (slobTable s).Has (s.pmm.lowestAddress + pageSize * i) →
      s.pmm.maxPagesAvailable ≤ i) : h.Separate := by
  intro x hx r hr a ha hra
  have hoff := hb.offset_eq
  rw [Machine.slobSpans, hb.blocks, hb.nodes, hb.tables] at hr
  obtain ⟨p, hspan, hp⟩ := (hb.pages x hx).span_eq hs
  rw [hoff, hspan] at ha
  rw [List.mem_singleton.mp hr] at hra
  obtain ⟨h1, h2, -⟩ := hs.tableAt
  have hlow := hs.lowest_mod
  obtain ⟨h3, h4⟩ := ha
  obtain ⟨h5, h6⟩ := hra
  -- the page of the common byte
  have hpage := htab ((a - s.pmm.lowestAddress) / pageSize) ⟨by unfold pageSize at *; omega,
    by unfold pageSize at *; omega⟩
  unfold pageSize at *
  simp only at h3 h4
  omega

/-! ## The lazy initialisation -/

/-- A `slob_init` that has returned, from `s` to `t`. -/
structure SlobBooted (s : Slob) (b : Nat) (left : List MemmapEntry) (t : Slob) : Prop where
  inv : SlobInv (poolOf t) { t with init := true } [] []
  entries : (poolOf t).entries t.mem [] = usableSpans left
  owns : ∀ a, (poolOf t).Owns a → Mapped s.offset s.pmm.memmap a
  pmm : t.pmm = { s.pmm with
    memmap := left
    maxPagesAvailable := usablePages left
    mem := t.mem }
  outside : ∀ a, ¬ Mapped s.offset s.pmm.memmap a → t.mem a = s.mem a
  table : slobTable t = takenSpan s.pmm.memmap b
  init : t.init = s.init

/-- The page allocator after a `slob_init`, which has written outside of the page tables. -/
theorem SlobBooted.pagesIn {r : Pmm} (ht : SlobBooted s b left t) (hp : PagesIn F r s.pmm)
    (htab : ∀ a, r.InTables a → ¬ Mapped s.offset s.pmm.memmap a)
    (hle : usablePages left ≤ s.pmm.numPagesInMap)
    (hcur : s.pmm.allocationCursor < scanBound (usablePages left)) :
    PagesIn F { r with memmap := left, maxPagesAvailable := usablePages left } t.pmm := by
  rw [ht.pmm]
  exact (hp.setMap left hle hcur).setMem fun a ha => ht.outside a (htab a (hp.inTables_iff.mp ha))

section

variable (hok : MemmapOk s.offset s.pmm.memmap)
  (hmax : s.pmm.maxPagesAvailable = usablePages s.pmm.memmap)
  (hcount : (usable s.pmm.memmap).length < 2 ^ 31)
include hok hmax hcount

theorem slobInit_booted (hc : slobTake s.pmm.memmap = some (b, left)) :
    ∃ t, slobInit s = .ret () t ∧ SlobBooted s b left t := by
  obtain ⟨t, ht, hinit, hhead, hpmm⟩ := slobInit_ret hok hmax hcount hc
  have hmap : t.pmm.memmap = left := by rw [hpmm]
  refine ⟨t, ht, slobInit_inv hok hcount ht, ?_, fun a => slobInit_owns hok hcount ht, hpmm,
    fun a => slobInit_outside hok hcount ht, ?_, hinit⟩
  · rw [slobInit_entries hok hcount ht, hmap]
  · have hoff : t.offset = s.offset := by
      rw [Slob.offset, hpmm]
      rfl
    have hb := (carve_pointer hok hc).2
    have hlen := carve_usable_length hc
    rw [slobTable, takenSpan, hmap, hlen, mul64_eq (by omega), hhead, hoff,
      sub64_eq (Nat.le_add_left _ _) (by omega), Nat.add_sub_cancel]

/-- Either the map has no room for the table or `slob_init` returns. -/
theorem slobInit_take (ht : slobInit s = .ret () t) :
    ∃ b left, slobTake s.pmm.memmap = some (b, left) ∧ SlobBooted s b left t := by
  cases hc : slobTake s.pmm.memmap with
  | none =>
    rw [slobInit_halt hcount hc] at ht
    cases ht
  | some x =>
    obtain ⟨t', ht', hbooted⟩ := slobInit_booted hok hmax hcount hc
    rw [ht] at ht'
    cases ht'
    exact ⟨x.1, x.2, rfl, hbooted⟩

end

/-- The state in which the first `slob_malloc` starts its search. -/
theorem Before.slobMalloc_cases (hs : Started F s) (hb : Before F s h) {size : Nat}
    (heq : slobMalloc size h.slob = .ret p t) :
    ∃ b left t₀, slobTake s.pmm.memmap = some (b, left) ∧ SlobBooted h.slob b left t₀ ∧
      slobMalloc size { t₀ with init := true } = .ret p t := by
  have hoff := hb.offset_eq
  have hmap := hb.pagesIn.same.memmap
  have hinit := hb.init_eq hs
  rw [slobMalloc, Outcome.bind_eq_ret] at heq
  obtain ⟨_, t₁, hready, hfind⟩ := heq
  rw [slobReady, if_neg (by simp [hinit]), Outcome.bind_eq_ret] at hready
  obtain ⟨_, t₀, ht₀, heq⟩ := hready
  cases heq
  obtain ⟨b, left, hc, hbooted⟩ := slobInit_take (by rw [hoff, hmap]; exact hs.ok)
    (by rw [hb.pagesIn.same.max, hmap]; exact hs.max) (by rw [hmap]; exact hs.count) ht₀
  refine ⟨b, left, t₀, by rw [← hmap]; exact hc, hbooted, ?_⟩
  rw [slobMalloc, slobReady, if_pos rfl, Outcome.ret_bind]
  exact hfind

/-! ## Starved maps -/

/-- The condition on the map, as seen from the machine that `kernel_main` starts. -/
def StarvedAt (s : Slob) : Prop :=
  1 ≤ usablePages s.pmm.memmap ∧
    (∀ i, (slobTable s).Has (s.pmm.lowestAddress + pageSize * i) → usablePages s.pmm.memmap ≤ i) ∧
    slobTake s.pmm.memmap = none

/-- **On starved maps the managers stay apart.** -/
theorem separate_of_starved (hs : Started F s) (hst : StarvedAt s) {ops : List MemOp}
    (hrun : run Machine.step ops (Machine.start s) = some h) : h.Separate := by
  obtain ⟨hpos, htab, hnone⟩ := hst
  rw [← hs.max] at hpos htab
  refine Before.separate hs (run_invariant (Before F s) (fun h op h' hb hstep => ?_) ops hs.before
    hrun) htab
  rcases hb.step_cases hpos hstep with hb' | ⟨size, p, t, -, -, heq⟩
  · exact hb'
  · -- there is no room for the second table
    obtain ⟨b, left, -, hc, -⟩ := hb.slobMalloc_cases hs heq
    rw [hnone] at hc
    cases hc

end BloreOs
