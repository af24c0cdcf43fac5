import BloreOs.Mem.Reach
import BloreOs.Slob.Frame

/-!
# Both memory managers at work

`kernel_main` calls `kmem_init` and then `slob_init`. From there on, clients call `kalloc`, `kfree`,
`slob_malloc` and `slob_free` in any order. A `Machine` is the state of the managers together with
everything they have handed out: blocks of pages, SLOB blocks, the blocks that `slob_free` allocates
for its records, and the tables that `slob_init` takes from the map.

`slob_init` does not set `_init`, so the first `slob_malloc` runs it again. There are two tables
then.

* `Machine.Separate` — no block of pages overlaps memory that SLOB has taken,
* `PagesIn` — what the page allocator keeps while SLOB writes elsewhere.
-/

namespace BloreOs

open Loop

/-- A block that `kalloc` has handed out, as its client knows it. A request of no bytes may succeed and
has no pages. -/
structure PageBlock where
  ptr : Nat
  numBytes : Nat
deriving DecidableEq, Repr

/-- The physical pages of a block. -/
def PageBlock.span (offset : Nat) (b : PageBlock) : Span :=
  ⟨sub64 b.ptr offset, pageSize * divRoundup b.numBytes pageSize⟩

/-- The managers and what they have handed out. -/
structure Machine where
  slob : Slob
  pages : List PageBlock
  blocks : List SlobBlock
  nodes : List SlobBlock
  tables : List Span

/-- The physical pages that a `slob_init` has just taken for its table. -/
def slobTable (s : Slob) : Span :=
  ⟨sub64 s.pHead s.offset, alignUp (mul64 24 (usable s.pmm.memmap).length) pageSize⟩

/-- The machine after the `slob_init` of `kernel_main`. -/
def Machine.start (s : Slob) : Machine := ⟨s, [], [], [], [slobTable s]⟩

inductive MemOp where
  | kalloc (numBytes : Nat)
  | kfree (ptr : Nat)
  | slobMalloc (size : Nat)
  | slobFree (ptr : Nat)
deriving DecidableEq, Repr

/-- One call of a client. Sizes do not wrap, and only live blocks are freed. -/
def Machine.step (h : Machine) : MemOp → Option Machine
  | .kalloc n =>
    if n + 4095 < 2 ^ 64 then
      match kalloc n h.slob.pmm with
      | .ret (some ptr) pmm =>
        some { h with slob := { h.slob with pmm := pmm }, pages := ⟨ptr, n⟩ :: h.pages }
      | .ret none pmm => some { h with slob := { h.slob with pmm := pmm } }
      | _ => none
    else none
  | .kfree ptr =>
    match h.pages.find? fun b => b.ptr = ptr with
    | none => none
    | some b =>
      match kfree ptr h.slob.pmm with
      | .ret _ pmm => some { h with slob := { h.slob with pmm := pmm }, pages := h.pages.erase b }
      | _ => none
  | .slobMalloc size =>
    if size + 8 < 2 ^ 64 then
      match slobMalloc size h.slob with
      | .ret p s =>
        some { h with
          slob := s
          blocks := if p = 0 then h.blocks else ⟨p, size⟩ :: h.blocks
          tables := if h.slob.init then h.tables else slobTable s :: h.tables }
      | _ => none
    else none
  | .slobFree ptr =>
    match h.blocks.find? fun b => b.ptr = ptr with
    | none => none
    | some b =>
      match slobFree ptr h.slob with
      | .ret _ s =>
        -- the new record is the head of the list
        some { h with
          slob := s
          blocks := h.blocks.erase b
          nodes := if s.pHead = 0 then h.nodes else ⟨s.pHead, 24⟩ :: h.nodes }
      | _ => none

/-- The physical memory that SLOB has taken, headers included. -/
def Machine.slobSpans (h : Machine) : List Span :=
  (h.blocks ++ h.nodes).map (SlobBlock.span h.slob.offset) ++ h.tables

/-- No block of pages overlaps memory that SLOB has taken. -/
def Machine.Separate (h : Machine) : Prop :=
  ∀ b ∈ h.pages, ∀ r ∈ h.slobSpans, (b.span h.slob.offset).Apart r

variable {F : Nat → Prop} {r s t : Pmm} {m : Memory} {a i n p : Nat}

/-! ## The page allocator between calls of SLOB -/

/-- The address `a` of the direct map belongs to the bitmap or to the entry table. -/
def Pmm.InTables (s : Pmm) (a : Nat) : Prop :=
  (s.pageBitmap ≤ a ∧ a < s.pageBitmap + bitmapSize s.numPagesInMap) ∨
    (s.entryMap ≤ a ∧ a < s.entryMap + 4 * s.numPagesInMap)

/-- The bits and the entries are what the tables say. -/
theorem Pmm.Laid.taken_congr (hs : s.Laid) (hm : ∀ a, s.InTables a → m a = s.mem a)
    (hi : i < s.numPagesInMap) : bitmapTest m s.pageBitmap i = s.taken i := by
  have hcap := hs.capacity
  exact bitmapTest_congr (hm _ (Or.inl (by omega)))

theorem Pmm.Laid.load_congr (hm : ∀ a, s.InTables a → m a = s.mem a) (hp : p < s.numPagesInMap) :
    m.load (s.entryMap + 4 * p) 4 = s.pagesAllocated p :=
  Memory.load_congr 4 fun _ _ _ => hm _ (Or.inr (by omega))

/-- The page allocator `s` works on the map of `r`, and its free pages and blocks are in `F`. -/
structure PagesIn (F : Nat → Prop) (r s : Pmm) : Prop where
  same : s.SameMap r
  unlocked : s.lock = false
  cursor_lt : s.allocationCursor < scanBound s.maxPagesAvailable
  freeIn : s.FreeIn F

namespace PagesIn

variable (hs : PagesIn F r s)
include hs

theorem max_lt : s.maxPagesAvailable < 2 ^ 64 := by
  have := hs.freeIn.max_le
  have := hs.freeIn.pages_lt
  omega

/-- Memory outside of the tables may change. -/
theorem setMem (hm : ∀ a, s.InTables a → m a = s.mem a) : PagesIn F r { s with mem := m } where
  same := { hs.same with }
  unlocked := hs.unlocked
  cursor_lt := hs.cursor_lt
  freeIn :=
    { hs.freeIn.toLaid with
      max_le := hs.freeIn.max_le
      free := fun i hi hfree => by
        refine hs.freeIn.free i hi ?_
        rw [← hs.freeIn.toLaid.taken_congr hm hi]
        exact hfree
      entry := fun p hp i h1 h2 => by
        refine hs.freeIn.entry p hp i h1 ?_
        rw [← Pmm.Laid.load_congr hm hp]
        exact h2 }

/-- The map may be replaced by what a carve leaves of it. -/
theorem setMap (es : List MemmapEntry) {max : Nat} (hmax : max ≤ s.numPagesInMap)
    (hcur : s.allocationCursor < scanBound max) :
    PagesIn F { r with memmap := es, maxPagesAvailable := max }
      { s with memmap := es, maxPagesAvailable := max } where
  same := ⟨rfl, hs.same.offset, hs.same.lowest, rfl, hs.same.pages, hs.same.bitmap, hs.same.table⟩
  unlocked := hs.unlocked
  cursor_lt := hcur
  freeIn :=
    { hs.freeIn.toLaid with
      max_le := hmax
      free := hs.freeIn.free
      entry := hs.freeIn.entry }

theorem inTables_iff : s.InTables a ↔ r.InTables a := by
  rw [Pmm.InTables, Pmm.InTables, hs.same.bitmap, hs.same.table, hs.same.pages]

/-- **`kalloc` hands out pages of `F` below the bound**, none of them for a request of no bytes, or
it returns `NULL` and moves the cursor. -/
theorem kalloc_cases (hpos : 1 ≤ r.maxPagesAvailable) (hn64 : n + 4095 < 2 ^ 64) :
    (∃ p t, kalloc n s = .ret (some (getAddrFromPage r p)) t ∧ PagesIn F r t ∧
        p < r.maxPagesAvailable ∧ p + (n + 4095) / 4096 ≤ r.maxPagesAvailable ∧
        ∀ i, p ≤ i → i < p + (n + 4095) / 4096 → F i) ∨
      ∃ c, kalloc n s = .ret none { s with allocationCursor := c } ∧
        PagesIn F r { s with allocationCursor := c } := by
  have hmax := hs.same.max
  have hmaxle := hs.freeIn.max_le
  have hbound : scanBound s.maxPagesAvailable = s.maxPagesAvailable := scanBound_of_pos (by omega)
  obtain ⟨x, hx, hspec⟩ := kalloc_spec hs.unlocked hs.cursor_lt hs.max_lt n
  rw [divRoundup_eq hn64] at hspec
  rw [hx]
  cases x with
  | found p k c =>
    obtain ⟨rfl, hp, hk, hfree, hc⟩ := hspec
    rw [hbound] at hp hk
    have hF : ∀ i, p ≤ i → i < p + (n + 4095) / 4096 → F i := fun i h1 h2 =>
      hs.freeIn.free i (by omega) (hfree i h1 h2)
    refine Or.inl ⟨p, _, congrArg (Outcome.ret · _) (congrArg some (hs.same.getAddrFromPage p)),
      ⟨{ hs.same with }, hs.unlocked, hc, ?_⟩, by omega, by omega, hF⟩
    exact hs.freeIn.kallocFound (by omega) (by omega) hF
  | failed c => exact Or.inr ⟨c, rfl, ⟨{ hs.same with }, hs.unlocked, hspec.1, hs.freeIn.setCursor c⟩⟩

/-- A request of no bytes while all pages below the bound are taken. -/
theorem kalloc_zero_eq (hpos : 1 ≤ r.maxPagesAvailable) (hF : ∀ i, F i → r.maxPagesAvailable ≤ i)
    (hcur : s.allocationCursor + 1 < r.maxPagesAvailable) :
    ∃ t, kalloc 0 s = .ret (some (getAddrFromPage r 0)) t ∧ PagesIn F r t ∧
      t.allocationCursor = s.allocationCursor + 1 ∧
      ∀ i < s.numPagesInMap, t.taken i = s.taken i := by
  have hmax := hs.same.max
  have hmaxle := hs.freeIn.max_le
  have hlt := hs.max_lt
  have htaken : s.taken s.allocationCursor = true := by
    by_contra hfree
    have := hF _ (hs.freeIn.free s.allocationCursor (by omega) (by simpa using hfree))
    omega
  have heq := kalloc_zero hs.unlocked (show divRoundup 0 pageSize = 0 by decide) htaken
  rw [add64_eq (by omega), if_neg (by omega), hs.same.getAddrFromPage] at heq
  refine ⟨_, heq, ⟨{ hs.same with }, hs.unlocked, ?_, ?_⟩, rfl, fun i hi => ?_⟩
  · show s.allocationCursor + 1 < scanBound s.maxPagesAvailable
    rw [scanBound_of_pos (by omega)]
    omega
  · exact hs.freeIn.kallocFound (by omega) (by omega) fun i h1 h2 => by omega
  · rw [taken_kallocFound hs.freeIn.toLaid (by omega) (by omega) hi]
    simp

/-- `kfree` of any pointer, if it returns. -/
theorem kfree {ptr : Nat} (heq : kfree ptr s = .ret () t) : PagesIn F r t := by
  have hmaxle := hs.freeIn.max_le
  by_cases hp : s.maxPagesAvailable ≤ getPageFromAddr s ptr
  · rw [kfree_outOfBounds hs.unlocked hp] at heq
    cases heq
  · rw [kfree_inBounds hs.freeIn.toLaid hs.unlocked hmaxle rfl (by omega)
      (hs.freeIn.entry_le_pages (by omega))] at heq
    cases heq
    exact ⟨{ hs.same with }, hs.unlocked, hs.cursor_lt, hs.freeIn.kfreed (by omega)⟩

end PagesIn

end BloreOs
