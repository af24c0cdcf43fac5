import BloreOs.Mem.Reach

/-!
# Freeing any pointer

`kfree` never checks that its argument is a block. What makes a wrong pointer harmless is the entry
table: it is zero at every page on which no live block starts, so there is nothing to clear.

* `BlocksInv.kfree_any` — the cases of `kfree` for a pointer into the scanned pages,
* `BlocksInv.stepAny` — runs in which any 64-bit pointer is freed keep the invariant of the
  runs in `Mem/Blocks`,
* `kfree_harmless` — the result for whole runs.
-/

namespace BloreOs

open Loop

variable {boot : Boot} {m : Memory} {s s₀ : Pmm} {h h' : PmmRun} {b : Block}
  {c e p ptr : Nat} {rest : List MemmapEntry}

/-- `ptr` points into the first page of the block. -/
def Block.FirstPage (b : Block) (ptr : Nat) : Prop := b.ptr ≤ ptr ∧ ptr < b.ptr + pageSize

instance : Decidable (b.FirstPage ptr) := inferInstanceAs (Decidable (_ ∧ _))

/-- One call of a client that frees what it likes. A call that halts the CPU has no next state. -/
def PmmRun.stepAny (h : PmmRun) : PmmOp → Option PmmRun
  | .kalloc n => h.step (.kalloc n)
  | .kfree ptr =>
    if ptr < 2 ^ 64 then
      match kfree ptr h.pmm with
      | .ret _ s => some ⟨s, h.live.eraseP fun b => b.FirstPage ptr⟩
      | _ => none
    else none

/-! ## Pages of pointers -/

/-- The page that `_get_page_from_addr` computes, when page `p` does not wrap. -/
theorem getPageFromAddr_eq_iff (hptr : ptr < 2 ^ 64)
    (hp : s.lowestAddress + pageSize * (p + 1) + s.vmmHigherHalfOffset ≤ 2 ^ 64) :
    getPageFromAddr s ptr = p ↔
      getAddrFromPage s p ≤ ptr ∧ ptr < getAddrFromPage s p + pageSize := by
  unfold pageSize at hp
  have hmul : mul64 p pageSize = p * 4096 := mul64_eq (by unfold pageSize; omega)
  have hsum : add64 s.lowestAddress (p * 4096) = s.lowestAddress + p * 4096 := add64_eq (by omega)
  rw [getAddrFromPage, hmul, hsum, add64_eq (by omega)]
  unfold getPageFromAddr sub64 pageSize
  omega

/-- The pages of a map that keeps the boot protocol's promises are all in the direct map. -/
theorem Booted.pages_mapped (hb : Booted boot m s c e rest)
    (hok : MemmapOk boot.hhdmOffset boot.memmap) (hmax : 1 ≤ s.maxPagesAvailable) :
    s.lowestAddress + pageSize * s.numPagesInMap + s.vmmHigherHalfOffset ≤ 2 ^ 64 := by
  have hpos := hb.max_le hok
  have hN := hb.pages
  have hle := hb.range.le
  rw [hb.offset]
  rcases hb.range.tight with ⟨-, hlo, hhi⟩ | ⟨-, x, hx, hhi⟩
  · -- without a usable entry there are no pages
    rw [hlo, hhi] at hN
    simp only [Nat.sub_self, Nat.zero_div] at hN
    omega
  · have hin := hok.inRange x hx
    have hdiv := Nat.mul_div_le (s.highestAddress - s.lowestAddress) pageSize
    rw [← hN] at hdiv
    omega

/-- A page without an entry is freed by doing nothing. -/
theorem kfreed_of_pagesAllocated_eq_zero (h0 : s.pagesAllocated p = 0) : kfreed s p = s := by
  have hmem : (kfreed s p).mem = s.mem := by
    show (bitmapOffRange s.mem s.pageBitmap p (p + s.pagesAllocated p)).store
      (s.entryMap + 4 * p) 4 0 = s.mem
    have hbits : bitmapOffRange s.mem s.pageBitmap p (p + 0) = s.mem := by simp [bitmapOffRange]
    have hstore := Memory.store_load_same 4 (m := s.mem) (a := s.entryMap + 4 * p)
    rw [show s.mem.load (s.entryMap + 4 * p) 4 = 0 from h0] at hstore
    rw [h0, hbits, hstore]
  show ({ s with mem := (kfreed s p).mem } : Pmm) = s
  rw [hmem]

/-! ## The step -/

namespace BlocksInv

variable (hinv : BlocksInv s₀ h)
  (hmap : s₀.lowestAddress + pageSize * s₀.numPagesInMap + s₀.vmmHigherHalfOffset ≤ 2 ^ 64)
include hinv hmap

/-- The block whose first page `ptr` is in starts on `ptr`'s page. -/
theorem firstPage_iff (hb : b ∈ h.live) (hptr : ptr < 2 ^ 64) :
    b.FirstPage ptr ↔ getPageFromAddr h.pmm ptr = b.start := by
  have hok := hinv.ok b hb
  have hle := hok.le_max
  have hpos := hok.pos
  have hmax := hinv.max_le
  have hlo := hinv.same.lowest
  have hoff := hinv.same.offset
  unfold pageSize at hmap
  rw [Block.FirstPage, hok.ptr, ← hinv.same.getAddrFromPage, getPageFromAddr_eq_iff hptr]
  unfold pageSize
  omega

/-- **`kfree` of any pointer into the scanned pages** frees the block that starts on its page, or
changes nothing. -/
theorem kfree_any (hptr : ptr < 2 ^ 64)
    (hp : getPageFromAddr h.pmm ptr < h.pmm.maxPagesAvailable) :
    (∃ b ∈ h.live, b.FirstPage ptr ∧ kfree ptr h.pmm = .ret () (kfreed h.pmm b.start)) ∨
      ((∀ b ∈ h.live, ¬ b.FirstPage ptr) ∧ kfree ptr h.pmm = .ret () h.pmm) := by
  have hmax := hinv.ready.max_le
  have hmax' := hinv.max_le
  have hsameMax := hinv.same.max
  have hsamePages := hinv.same.pages
  by_cases hentry : h.pmm.pagesAllocated (getPageFromAddr h.pmm ptr) = 0
  · -- no live block starts here
    right
    have hnone : ∀ b ∈ h.live, ¬ b.FirstPage ptr := by
      intro b hb hfirst
      have hpos := (hinv.ok b hb).pos
      rw [(hinv.firstPage_iff hmap hb hptr).mp hfirst, hinv.entries b hb] at hentry
      omega
    refine ⟨hnone, ?_⟩
    rw [kfree_inBounds hinv.ready.toLaid hinv.ready.unlocked hmax rfl hp (by rw [hentry]; omega),
      kfreed_of_pagesAllocated_eq_zero hentry]
  · left
    obtain ⟨b, hb, hstart⟩ := hinv.noEntry _ (by omega) hentry
    have hle := (hinv.ok b hb).le_max
    refine ⟨b, hb, (hinv.firstPage_iff hmap hb hptr).mpr hstart.symm, ?_⟩
    refine kfree_inBounds hinv.ready.toLaid hinv.ready.unlocked hmax hstart.symm (by omega) ?_
    rw [hinv.entries b hb]
    omega

/-- The live blocks after a `kfree`. -/
theorem eraseP_eq_erase (hb : b ∈ h.live) (hptr : ptr < 2 ^ 64) (hfirst : b.FirstPage ptr) :
    (h.live.eraseP fun b => b.FirstPage ptr) = h.live.erase b := by
  have hpage := (hinv.firstPage_iff hmap hb hptr).mp hfirst
  have hall : ∀ x ∈ h.live, x.FirstPage ptr ↔ x = b := by
    intro x hx
    rw [hinv.firstPage_iff hmap hx hptr, hpage]
    exact ⟨fun heq => hinv.eq_of_start hx hb heq.symm, fun heq => by rw [heq]⟩
  rw [List.erase_eq_eraseP']
  -- both predicates agree on the list
  generalize h.live = l at hall
  induction l with
  | nil => rfl
  | cons x l ih =>
    rw [List.forall_mem_cons] at hall
    by_cases hx : x = b
    · rw [List.eraseP_cons_of_pos (by simpa using hall.1.mpr hx),
        List.eraseP_cons_of_pos (by simpa using hx)]
    · rw [List.eraseP_cons_of_neg (by simpa using fun hf => hx (hall.1.mp hf)),
        List.eraseP_cons_of_neg (by simpa using hx), ih hall.2]

/-- **Every call keeps the invariant.** -/
theorem stepAny (hfew : s₀.numPagesInMap < 2 ^ 32) {op : PmmOp}
    (hstep : h.stepAny op = some h') : BlocksInv s₀ h' := by
  cases op with
  | kalloc n =>
    rw [PmmRun.stepAny] at hstep
    exact hinv.step hfew hstep
  | kfree ptr =>
    rw [PmmRun.stepAny] at hstep
    split at hstep
    · next hptr =>
      by_cases hp : h.pmm.maxPagesAvailable ≤ getPageFromAddr h.pmm ptr
      · rw [kfree_outOfBounds hinv.ready.unlocked hp] at hstep
        cases hstep
      · rcases hinv.kfree_any hmap hptr (by omega) with ⟨b, hb, hfirst, heq⟩ | ⟨hnone, heq⟩
        · rw [heq, hinv.eraseP_eq_erase hmap hb hptr hfirst] at hstep
          cases hstep
          exact hinv.after_kfree hb
        · rw [heq, List.eraseP_of_forall_not (by simpa using hnone)] at hstep
          cases hstep
          exact hinv
    · cases hstep

end BlocksInv

/-! ## Whole runs -/

/-- Such a run is an unrestricted run of the allocator. -/
theorem PmmRun.step_of_stepAny {op : PmmOp} (hstep : h.stepAny op = some h') :
    h.pmm.step op = some h'.pmm := by
  cases op with
  | kalloc n =>
    rw [PmmRun.stepAny, PmmRun.step] at hstep
    rw [Pmm.step]
    split at hstep
    · cases hk : kalloc n h.pmm with
      | ret r t =>
        simp only [hk] at hstep
        cases r <;> cases hstep <;> rfl
      | halt t =>
        simp only [hk] at hstep
        cases hstep
      | spin t =>
        simp only [hk] at hstep
        cases hstep
    · cases hstep
  | kfree ptr =>
    rw [PmmRun.stepAny] at hstep
    rw [Pmm.step]
    split at hstep
    · cases hk : kfree ptr h.pmm with
      | ret u t =>
        simp only [hk] at hstep
        cases hstep
        rfl
      | halt t =>
        simp only [hk] at hstep
        cases hstep
      | spin t =>
        simp only [hk] at hstep
        cases hstep
    · cases hstep

/--
**`kfree` is harmless on every pointer.**

After any run of `kalloc` and of `kfree` calls on arbitrary pointers, `kfree` of any 64-bit value
halts without touching the tables, when the wrapped page index is out of bounds; it frees exactly
the live block whose first page contains the pointer; or it changes nothing.
-/
theorem kfree_harmless (boot : Boot) (m : Memory) (s₀ : Pmm)
    (hok : MemmapOk boot.hhdmOffset boot.memmap)
    (hinit : kmemInit boot (Pmm.zero m) = .ret () s₀)
    (hcap : s₀.numPagesInMap ≤ 8 * bitmapSize s₀.numPagesInMap)
    (hfew : s₀.numPagesInMap < 2 ^ 32)
    (ops : List PmmOp) (h : PmmRun) (hrun : run PmmRun.stepAny ops (PmmRun.start s₀) = some h)
    (ptr : Nat) (hptr : ptr < 2 ^ 64) :
    (h.pmm.maxPagesAvailable ≤ getPageFromAddr h.pmm ptr →
        ∃ t, kfree ptr h.pmm = .halt t ∧ t.mem = h.pmm.mem) ∧
      (getPageFromAddr h.pmm ptr < h.pmm.maxPagesAvailable → ∃ t, kfree ptr h.pmm = .ret () t ∧
        ((∃ b ∈ h.live, b.FirstPage ptr ∧ b.pages = (b.numBytes + 4095) / 4096 ∧
            (∀ i, b.span.Has i → h.pmm.taken i = true) ∧
            (∀ i < s₀.numPagesInMap, t.taken i = (h.pmm.taken i && !decide (b.span.Has i))) ∧
            ∀ p < s₀.numPagesInMap,
              t.pagesAllocated p = if p = b.start then 0 else h.pmm.pagesAllocated p) ∨
          ((∀ b ∈ h.live, ¬ b.FirstPage ptr) ∧ t.mem = h.pmm.mem))) := by
  obtain ⟨c, e, rest, hb⟩ := kmemInit_booted hok hinit
  have hN := hb.pages_lt
  have hmaxN := hb.max_le hok
  by_cases hmax : 1 ≤ s₀.maxPagesAvailable
  · have hmap := hb.pages_mapped hok hmax
    have hinv : BlocksInv s₀ h := run_invariant (BlocksInv s₀)
      (fun _ _ _ hi hs => hi.stepAny hmap hfew hs) ops (hb.blocksInv hok hcap hmax) hrun
    refine ⟨fun hp => ⟨_, kfree_outOfBounds hinv.ready.unlocked hp, rfl⟩, fun hp => ?_⟩
    rcases hinv.kfree_any hmap hptr hp with ⟨b, hbl, hfirst, heq⟩ | ⟨hnone, heq⟩
    · refine ⟨_, heq, Or.inl ⟨b, hbl, hfirst, (hinv.ok b hbl).enough, fun i hi => ?_,
        fun i hi => hinv.taken_kfree hbl hi, fun p hp => hinv.pagesAllocated_kfree hbl hp⟩⟩
      have hlt : i < b.start + b.pages := hi.2
      have hle := (hinv.ok b hbl).le_max
      exact (hinv.bits i (by omega)).mpr (Or.inr ⟨b, hbl, hi⟩)
    · exact ⟨_, heq, Or.inr ⟨hnone, rfl⟩⟩
  · -- without a page below the bound every `kfree` halts
    have hstart : ReachInv s₀ s₀ := by
      refine ⟨hb.unlocked, rfl, rfl, ?_, fun hpos => absurd hpos (by omega)⟩
      rw [hb.cursor, scanBound]
      split <;> omega
    have hinv : ReachInv s₀ h.pmm := run_invariant (fun h : PmmRun => ReachInv s₀ h.pmm)
      (fun _ _ _ hi hs => hi.step (by omega) (PmmRun.step_of_stepAny hs)) ops hstart hrun
    have h0 := hinv.max
    exact ⟨fun hp => ⟨_, kfree_outOfBounds hinv.unlocked hp, rfl⟩, fun hp => absurd hp (by omega)⟩

/-- Two blocks, the first of which is freed twice. -/
def doubleFreeOps : List PmmOp :=
  [.kalloc 5000, .kalloc 1, .kfree 0xffff800000102000, .kfree 0xffff800000102000]

def doubleFreeRun : PmmRun :=
  (run PmmRun.stepAny doubleFreeOps (PmmRun.start samplePmm)).get (by decide +kernel)

/-- The block is freed a third time. -/
theorem kfree_harmless_sample :
    doubleFreeRun.live.length = 1 ∧
      ∃ t, kfree 0xffff800000102000 doubleFreeRun.pmm = .ret () t ∧
        t.mem = doubleFreeRun.pmm.mem := by
  obtain ⟨t, ht, hcase⟩ := (kfree_harmless sampleBoot (fun _ => 0) samplePmm sampleBoot_ok
    sample_kmemInit (by decide +kernel) (by decide +kernel) doubleFreeOps doubleFreeRun
    (Option.some_get _).symm 0xffff800000102000 (by decide)).2 (by decide +kernel)
  refine ⟨by decide +kernel, t, ht, ?_⟩
  rcases hcase with ⟨b, hb, hfirst, -⟩ | ⟨-, hmem⟩
  · have hnone : ∀ b ∈ doubleFreeRun.live, ¬ b.FirstPage 0xffff800000102000 := by decide +kernel
    exact absurd hfirst (hnone b hb)
  · exact hmem

end BloreOs
