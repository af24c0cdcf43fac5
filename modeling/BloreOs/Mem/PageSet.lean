import BloreOs.Mem.Alloc
import Mathlib.Order.CompletePartialOrder
import Mathlib.Order.Interval.Set.Disjoint

/-!
# The bitmap as a set of pages

A bitmap is a set of numbers, eight of them to a byte. The functions of `bitmap.h` and the loops of
`mem.c` work on it as on a set.

* `bitmapTestInt_eq`, … — the masks are 32 bits wide in C, which changes nothing,
* `pageSet_bitmapOnRange`, `pageSet_bitmapOffRange` — the loops add and remove a range of numbers,
* `eq_of_pageSet_eq` — the bytes of the bitmap are no more than that set,
* `PageUpdate.comm` — so updates of pages that are apart may be exchanged.
-/

namespace BloreOs

open Loop

/-! ## Integer promotion -/

/-- `1 << (bit % 8)`. It is an `int`. -/
def bitShift (bit : Nat) : BitVec 32 := 1#32 <<< (bit % 8)

/-- `bitmap_test`. The mask is stored in 8 bits, and both operands of `&` are an `int`. -/
def bitmapTestInt (m : Memory) (bitmap bit : Nat) : Bool :=
  let bitMask : BitVec 8 := (bitShift bit).setWidth 8
  ((m (bitmap + bit / 8)).setWidth 32 &&& bitMask.setWidth 32) != 0#32

/-- `bitmap_on`. The result is cut to the byte. -/
def bitmapOnInt (m : Memory) (bitmap bit : Nat) : Memory :=
  m.set (bitmap + bit / 8) (((m (bitmap + bit / 8)).setWidth 32 ||| bitShift bit).setWidth 8)

/-- `bitmap_off`. The complement has 32 bits. -/
def bitmapOffInt (m : Memory) (bitmap bit : Nat) : Memory :=
  m.set (bitmap + bit / 8) (((m (bitmap + bit / 8)).setWidth 32 &&& ~~~bitShift bit).setWidth 8)

variable {m m' : Memory} {s : Pmm} {bitmap a b c i j k p q n : Nat}

theorem setWidth_bitShift (bit : Nat) : (bitShift bit).setWidth 8 = 1#8 <<< (bit % 8) := by
  have hall : ∀ k < 8, (1#32 <<< k).setWidth 8 = 1#8 <<< k := by decide
  exact hall _ (Nat.mod_lt _ (by decide))

theorem setWidth_setWidth_byte (x : BitVec 8) : (x.setWidth 32).setWidth 8 = x := by
  rw [BitVec.setWidth_setWidth_of_le _ (by decide), BitVec.setWidth_eq]

theorem bitmapTestInt_eq (m : Memory) (bitmap bit : Nat) :
    bitmapTestInt m bitmap bit = bitmapTest m bitmap bit := by
  have hzero : ∀ x : BitVec 8, (x.setWidth 32 != 0#32) = (x != 0#8) := by decide
  rw [bitmapTestInt, setWidth_bitShift, ← BitVec.setWidth_and, hzero]
  rfl

theorem bitmapOnInt_eq (m : Memory) (bitmap bit : Nat) :
    bitmapOnInt m bitmap bit = bitmapOn m bitmap bit := by
  rw [bitmapOnInt, bitmapOn, BitVec.setWidth_or, setWidth_bitShift, setWidth_setWidth_byte]

theorem bitmapOffInt_eq (m : Memory) (bitmap bit : Nat) :
    bitmapOffInt m bitmap bit = bitmapOff m bitmap bit := by
  rw [bitmapOffInt, bitmapOff, BitVec.setWidth_and, BitVec.setWidth_not (by decide),
    setWidth_bitShift, setWidth_setWidth_byte]

/-! ## Sets of pages -/

/-- The pages whose bits are set. -/
def pageSet (m : Memory) (bitmap : Nat) : Set Nat := {i | bitmapTest m bitmap i = true}

theorem mem_pageSet : i ∈ pageSet m bitmap ↔ bitmapTest m bitmap i = true := Iff.rfl

theorem pageSet_bitmapOn (m : Memory) (bitmap i : Nat) :
    pageSet (bitmapOn m bitmap i) bitmap = insert i (pageSet m bitmap) := by
  ext j
  rw [mem_pageSet, bitmapTest_bitmapOn, Bool.or_eq_true, decide_eq_true_eq, Set.mem_insert_iff,
    mem_pageSet, or_comm]

theorem pageSet_bitmapOff (m : Memory) (bitmap i : Nat) :
    pageSet (bitmapOff m bitmap i) bitmap = pageSet m bitmap \ {i} := by
  ext j
  rw [mem_pageSet, bitmapTest_bitmapOff, Bool.and_eq_true, Bool.not_eq_true', decide_eq_false_iff_not,
    Set.mem_sdiff, Set.mem_singleton_iff, mem_pageSet]

/-- **The loop that sets bits** adds its range. -/
theorem pageSet_bitmapOnRange (m : Memory) (bitmap a b : Nat) :
    pageSet (bitmapOnRange m bitmap a b) bitmap = pageSet m bitmap ∪ Set.Ico a b := by
  ext j
  rw [mem_pageSet, bitmapTest_bitmapOnRange, Bool.or_eq_true, decide_eq_true_eq, Set.mem_union,
    Set.mem_Ico, mem_pageSet]

/-- **The loop that clears bits** removes its range. -/
theorem pageSet_bitmapOffRange (m : Memory) (bitmap a b : Nat) :
    pageSet (bitmapOffRange m bitmap a b) bitmap = pageSet m bitmap \ Set.Ico a b := by
  ext j
  rw [mem_pageSet, bitmapTest_bitmapOffRange, Bool.and_eq_true, Bool.not_eq_true',
    decide_eq_false_iff_not, Set.mem_sdiff, Set.mem_Ico, mem_pageSet]

/-- **The set and the bytes in front of the bitmap are all there is.** -/
theorem eq_of_pageSet_eq (bitmap : Nat) (hfront : ∀ a < bitmap, m a = m' a)
    (hset : pageSet m bitmap = pageSet m' bitmap) : m = m' := by
  funext a
  by_cases ha : a < bitmap
  · exact hfront a ha
  · refine BitVec.eq_of_getLsbD_eq fun o ho => ?_
    have hbit := Set.ext_iff.mp hset (8 * (a - bitmap) + o)
    rw [mem_pageSet, mem_pageSet, bitmapTest_eq, bitmapTest_eq,
      (by omega : bitmap + (8 * (a - bitmap) + o) / 8 = a),
      (by omega : (8 * (a - bitmap) + o) % 8 = o), ← Bool.eq_iff_iff] at hbit
    exact hbit

/-! ## Updates -/

/-- What `kalloc` and `kfree` do to the page tables: the bits of a range of pages are set or cleared,
and the entry of the first one gets the number of pages or 0. -/
structure PageUpdate where
  on : Bool
  start : Nat
  count : Nat

namespace PageUpdate

/-- The pages. -/
def pages (u : PageUpdate) : Set Nat := Set.Ico u.start (u.start + u.count)

/-- What it does to a set. -/
def onSet (u : PageUpdate) (S : Set Nat) : Set Nat := if u.on then S ∪ u.pages else S \ u.pages

/-- What it does to the bitmap. -/
def onBits (u : PageUpdate) (bitmap : Nat) (m : Memory) : Memory :=
  if u.on then bitmapOnRange m bitmap u.start (u.start + u.count)
  else bitmapOffRange m bitmap u.start (u.start + u.count)

/-- What it does to the bitmap and the entry table. -/
def onTables (u : PageUpdate) (s : Pmm) (m : Memory) : Memory :=
  (u.onBits s.pageBitmap m).store (s.entryMap + 4 * u.start) 4 (if u.on then u.count else 0)

end PageUpdate

variable {u v : PageUpdate}

/-- **The bitmap is updated as the set is.** -/
theorem pageSet_onBits (u : PageUpdate) (bitmap : Nat) (m : Memory) :
    pageSet (u.onBits bitmap m) bitmap = u.onSet (pageSet m bitmap) := by
  rw [PageUpdate.onBits, PageUpdate.onSet]
  split
  · exact pageSet_bitmapOnRange m bitmap _ _
  · exact pageSet_bitmapOffRange m bitmap _ _

theorem onBits_outside (h : ∀ i, u.start ≤ i → i < u.start + u.count → a ≠ bitmap + i / 8) :
    u.onBits bitmap m a = m a := by
  rw [PageUpdate.onBits]
  split
  · exact bitmapOnRange_outside h
  · exact bitmapOffRange_outside h

/-- Sets: updates of disjoint ranges may be exchanged. -/
theorem onSet_comm (h : Disjoint u.pages v.pages) (S : Set Nat) :
    u.onSet (v.onSet S) = v.onSet (u.onSet S) := by
  rw [Set.disjoint_left] at h
  ext i
  have hi := @h i
  simp only [PageUpdate.onSet]
  split <;> split <;> simp only [Set.mem_union, Set.mem_sdiff] <;> tauto

/-- **Bitmaps: the same, although the ranges may meet in a byte.** -/
theorem onBits_comm (h : Disjoint u.pages v.pages) (bitmap : Nat) (m : Memory) :
    u.onBits bitmap (v.onBits bitmap m) = v.onBits bitmap (u.onBits bitmap m) := by
  refine eq_of_pageSet_eq bitmap (fun a ha => ?_) ?_
  · rw [onBits_outside fun i _ _ => by omega, onBits_outside fun i _ _ => by omega,
      onBits_outside fun i _ _ => by omega, onBits_outside fun i _ _ => by omega]
  · rw [pageSet_onBits, pageSet_onBits, pageSet_onBits, pageSet_onBits, onSet_comm h]

/-! ## The tables -/

/-- A loop over bits does not see a value in memory elsewhere. -/
theorem foldl_store {f : Memory → Nat → Memory} {e x : Nat}
    (hf : ∀ m i, bitmap + i / 8 < e ∨ e + 4 ≤ bitmap + i / 8 →
      f (m.store e 4 x) i = (f m i).store e 4 x) :
    ∀ (l : List Nat) (m : Memory), (∀ i ∈ l, bitmap + i / 8 < e ∨ e + 4 ≤ bitmap + i / 8) →
      l.foldl f (m.store e 4 x) = (l.foldl f m).store e 4 x
  | [], _, _ => rfl
  | i :: l, m, hl => by
    rw [List.forall_mem_cons] at hl
    rw [List.foldl_cons, List.foldl_cons, hf m i hl.1, foldl_store hf l (f m i) hl.2]

theorem onBits_store {e x : Nat}
    (h : ∀ i, u.start ≤ i → i < u.start + u.count → bitmap + i / 8 < e ∨ e + 4 ≤ bitmap + i / 8) :
    u.onBits bitmap (m.store e 4 x) = (u.onBits bitmap m).store e 4 x := by
  have hrange : ∀ i ∈ List.range' u.start (u.start + u.count - u.start),
      bitmap + i / 8 < e ∨ e + 4 ≤ bitmap + i / 8 := fun i hi => by
    rw [List.mem_range'_1] at hi
    exact h i hi.1 (by omega)
  rw [PageUpdate.onBits, PageUpdate.onBits]
  split
  · refine foldl_store (fun m i hi => ?_) _ m hrange
    rw [bitmapOn, bitmapOn, Memory.store_outside hi, Memory.set_store hi]
  · refine foldl_store (fun m i hi => ?_) _ m hrange
    rw [bitmapOff, bitmapOff, Memory.store_outside hi, Memory.set_store hi]

/-- An update inside the map. -/
structure PageUpdate.Inside (u : PageUpdate) (s : Pmm) : Prop where
  start_lt : u.start < s.numPagesInMap
  stop_le : u.start + u.count ≤ s.numPagesInMap

/-- **Updates of pages that are apart may be exchanged**, with their entries. -/
theorem PageUpdate.comm (hs : s.Laid) (hu : u.Inside s) (hv : v.Inside s)
    (hne : u.start ≠ v.start) (h : Disjoint u.pages v.pages) (m : Memory) :
    u.onTables s (v.onTables s m) = v.onTables s (u.onTables s m) := by
  have hentry : ∀ {u v : PageUpdate}, u.Inside s → v.Inside s → ∀ i, u.start ≤ i →
      i < u.start + u.count → s.pageBitmap + i / 8 < s.entryMap + 4 * v.start ∨
        s.entryMap + 4 * v.start + 4 ≤ s.pageBitmap + i / 8 := fun hu hv i _ hi =>
    hs.bit_ne_entry (hi.trans_le hu.stop_le) hv.start_lt
  simp only [PageUpdate.onTables]
  rw [onBits_store (hentry hu hv), onBits_store (hentry hv hu), onBits_comm h,
    Memory.store_comm (by omega)]

/-- What `kalloc` does. -/
theorem mem_kallocFound_eq (hk : p + n < 2 ^ 64) :
    (kallocFound s p n c).mem = PageUpdate.onTables ⟨true, p, n⟩ s s.mem :=
  mem_kallocFound hk

/-- What `kfree` does. -/
theorem mem_kfreed_eq : (kfreed s p).mem
    = PageUpdate.onTables ⟨false, p, s.pagesAllocated p⟩ s s.mem := rfl

/-- **`kalloc` and `kfree` may be exchanged** if their blocks are apart. -/
theorem kfreed_kallocFound_comm (hs : s.Laid) (hp : PageUpdate.Inside ⟨true, p, n⟩ s)
    (hq : PageUpdate.Inside ⟨false, q, s.pagesAllocated q⟩ s) (hne : p ≠ q)
    (h : Disjoint (Set.Ico p (p + n)) (Set.Ico q (q + s.pagesAllocated q))) (c : Nat) :
    kfreed (kallocFound s p n c) q = kallocFound (kfreed s q) p n c := by
  have hlt := hs.pages_lt
  have hstop : p + n ≤ s.numPagesInMap := hp.stop_le
  have hk : p + n < 2 ^ 64 := by omega
  have hcount : (kallocFound s p n c).pagesAllocated q = s.pagesAllocated q := by
    rw [pagesAllocated_kallocFound hs hstop hq.start_lt, if_neg (Ne.symm hne)]
  have hmem : (kfreed (kallocFound s p n c) q).mem = (kallocFound (kfreed s q) p n c).mem := by
    calc (kfreed (kallocFound s p n c) q).mem
        = PageUpdate.onTables ⟨false, q, s.pagesAllocated q⟩ s (kallocFound s p n c).mem := by
          rw [mem_kfreed_eq, hcount]
          rfl
      _ = PageUpdate.onTables ⟨true, p, n⟩ s (kfreed s q).mem := by
          rw [mem_kallocFound_eq hk, mem_kfreed_eq]
          exact PageUpdate.comm hs hq hp (Ne.symm hne) h.symm s.mem
      _ = (kallocFound (kfreed s q) p n c).mem := (mem_kallocFound_eq (s := kfreed s q) hk).symm
  -- the other fields are those of `kallocFound`
  show ({ kallocFound s p n c with mem := (kfreed (kallocFound s p n c) q).mem } : Pmm)
    = { kallocFound s p n c with mem := (kallocFound (kfreed s q) p n c).mem }
  rw [hmem]

/--
**The bitmap is a set of pages.**

For every memory: the 32-bit masks of C do what the 8-bit ones do, and a bit that is set or cleared
is set or cleared and no other bit changes. For every allocator, wherever its tables are and whatever
they hold: `_reserve_pages` adds its range to the set, the loop of `kfree` removes the range of the
block, unless the count of the block lies in its own bits, and updates of disjoint ranges may be
exchanged. So may `kalloc` and `kfree` if their blocks are apart.
-/
theorem bitmap_pages (m : Memory) (bitmap i : Nat) (s : Pmm) :
    ((bitmapTestInt m bitmap i = bitmapTest m bitmap i ∧
        bitmapOnInt m bitmap i = bitmapOn m bitmap i ∧
        bitmapOffInt m bitmap i = bitmapOff m bitmap i) ∧
      (bitmapTest (bitmapOn m bitmap i) bitmap i = true ∧
        bitmapTest (bitmapOff m bitmap i) bitmap i = false) ∧
      ∀ j ≠ i, bitmapTest (bitmapOn m bitmap i) bitmap j = bitmapTest m bitmap j ∧
        bitmapTest (bitmapOff m bitmap i) bitmap j = bitmapTest m bitmap j) ∧
    (∀ p n, p + n < 2 ^ 64 → pageSet (reservePages s p n) s.pageBitmap
      = pageSet s.mem s.pageBitmap ∪ Set.Ico p (p + n)) ∧
    (∀ p, p + s.pagesAllocated p < 2 ^ 64 → s.EntryApart p →
      ∃ m', loop (kfreeBody s.pageBitmap s.entryMap p) (2 ^ 32) (p, s.mem) = some m' ∧
        pageSet m' s.pageBitmap
          = pageSet s.mem s.pageBitmap \ Set.Ico p (p + s.pagesAllocated p)) ∧
    (∀ u v : PageUpdate, Disjoint u.pages v.pages →
      u.onBits bitmap (v.onBits bitmap m) = v.onBits bitmap (u.onBits bitmap m)) ∧
    (s.Laid → ∀ p n q, PageUpdate.Inside ⟨true, p, n⟩ s →
      PageUpdate.Inside ⟨false, q, s.pagesAllocated q⟩ s → p ≠ q →
      Disjoint (Set.Ico p (p + n)) (Set.Ico q (q + s.pagesAllocated q)) →
      ∀ c, kfreed (kallocFound s p n c) q = kallocFound (kfreed s q) p n c) := by
  refine ⟨⟨⟨bitmapTestInt_eq m bitmap i, bitmapOnInt_eq m bitmap i, bitmapOffInt_eq m bitmap i⟩,
    ⟨?_, ?_⟩, fun j hj => ⟨?_, ?_⟩⟩, ?_, ?_, ?_, ?_⟩
  · rw [bitmapTest_bitmapOn, decide_eq_true rfl, Bool.or_true]
  · rw [bitmapTest_bitmapOff, decide_eq_true rfl, Bool.not_true, Bool.and_false]
  · rw [bitmapTest_bitmapOn, decide_eq_false hj, Bool.or_false]
  · rw [bitmapTest_bitmapOff, decide_eq_false hj, Bool.not_false, Bool.and_true]
  · intro p n hk
    rw [reservePages, add64_eq hk, pageSet_bitmapOnRange]
  · intro p hk hapart
    exact ⟨_, kfree_loop_of_apart hk hapart, pageSet_bitmapOffRange _ _ _ _⟩
  · exact fun u v h => onBits_comm h bitmap m
  · exact fun hs p n q hp hq hne h c => kfreed_kallocFound_comm hs hp hq hne h c

/-- Four pages in two bytes. -/
theorem bitmap_pages_sample :
    let s : Pmm := { Pmm.zero (fun _ => 0) with pageBitmap := 0x1000 }
    pageSet (reservePages s 6 4) 0x1000 = Set.Ico 6 10 := by
  intro s
  have hempty : pageSet s.mem s.pageBitmap = ∅ := by
    ext i
    rw [mem_pageSet, bitmapTest]
    simp [s, Pmm.zero]
  have hreserved := (bitmap_pages s.mem s.pageBitmap 0 s).2.1 6 4 (by decide)
  rwa [hempty, Set.empty_union] at hreserved

end BloreOs
