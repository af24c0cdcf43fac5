import BloreOs.Lib.Lock
import BloreOs.Mem.AnyFree

/-!
# The page allocator on several CPUs

`kalloc` and `kfree` do all their work between `spinlock_lock` and `spinlock_unlock`. Here every
iteration of their loops and every store is a step of its own, and the steps of any number of CPUs
interleave.

* `pmmBody` — what a CPU that holds the lock does next,
* `ends_kalloc`, `ends_kfree` — a section that is carried out alone is the call of `Mem/Pmm`,
* `cpus_safe` — so the results that the CPUs get are those of the calls one at a time, and the
  blocks they hold are disjoint,
* `halted_kfree_stops_all` — a `kfree` that halts keeps the lock.
-/

namespace BloreOs

open Loop Lock

/-! ## The sections -/

/-- Where a CPU is in its section, with its locals. -/
inductive PmmLocal where
  | enter (op : PmmOp)
  /-- The `while` loop of `kalloc`. -/
  | scan (pagesToAlloc : Nat) (x : Scan)
  /-- The loop of `_reserve_pages`. -/
  | reserve (startAllocPage allocatedPages i : Nat)
  /-- The store to `entry_map[start_alloc_page].pages_allocated`. -/
  | entry (startAllocPage allocatedPages : Nat)
  | count (startAllocPage allocatedPages : Nat)
  /-- The loop of `kfree`. -/
  | clear (pageIndex i : Nat)

/-- The next step of a section. `allocation_cursor` is a global, so the scan reads and writes it in
every iteration. The result of `kfree` is `none`, and so is that of a `kalloc` that fails. -/
def pmmBody : PmmLocal × Pmm → (PmmLocal × Pmm) ⊕ (Option (Option Nat) × Pmm)
  | (.enter (.kalloc n), s) =>
    .inl (.scan (divRoundup n pageSize) (scanStart s.allocationCursor), s)
  | (.enter (.kfree ptr), s) =>
    if s.maxPagesAvailable ≤ getPageFromAddr s ptr then .inr (none, s)
    else .inl (.clear (getPageFromAddr s ptr) (getPageFromAddr s ptr), s)
  | (.scan k x, s) =>
    match scanBody s.taken s.maxPagesAvailable k { x with cursor := s.allocationCursor } with
    | .inl x => .inl (.scan k x, { s with allocationCursor := x.cursor })
    | .inr (.failed cursor) => .inr (some none, { s with allocationCursor := cursor })
    | .inr (.found start pages cursor) =>
      .inl (.reserve start pages start, { s with allocationCursor := cursor })
  | (.reserve start pages i, s) =>
    if i < add64 start pages then
      .inl (.reserve start pages (add64 i 1), { s with mem := bitmapOn s.mem s.pageBitmap i })
    else .inl (.entry start pages, s)
  | (.entry start pages, s) =>
    .inl (.count start pages, { s with mem := s.mem.store (s.entryMap + 4 * start) 4 pages })
  | (.count start pages, s) =>
    .inr (some (some (getAddrFromPage s start)),
      { s with numPagesAvailable := sub64 s.numPagesAvailable pages })
  | (.clear page i, s) =>
    match kfreeBody s.pageBitmap s.entryMap page (i, s.mem) with
    | .inl (i, mem) => .inl (.clear page i, { s with mem := mem })
    | .inr mem => .inr (some none, { s with mem := mem.store (s.entryMap + 4 * page) 4 0 })

theorem pmmBody_inl {x y : PmmLocal × Pmm} (h : pmmBody x = .inl y) : y.2.lock = x.2.lock := by
  revert h
  fun_cases pmmBody x <;> rintro ⟨⟩ <;> rfl

theorem pmmBody_inr {x : PmmLocal × Pmm} {y : Option (Option Nat) × Pmm} (h : pmmBody x = .inr y) :
    y.2.lock = x.2.lock := by
  revert h
  fun_cases pmmBody x <;> rintro ⟨⟩ <;> rfl

/-- The allocator with its lock. -/
def pmmGuarded : Guarded Pmm PmmOp PmmLocal (Option Nat) where
  locked := Pmm.lock
  acquire s := { s with lock := true }
  release := spinlockUnlock Pmm.lockAt
  enter := .enter
  body := pmmBody
  locked_acquire _ := rfl
  locked_release _ := rfl
  locked_inl _ _ := pmmBody_inl
  locked_inr _ _ := pmmBody_inr

/-! ## A section alone -/

variable {s s₀ t : Pmm} {h h' : PmmRun} {n p k c i ptr : Nat} {x : Scan} {r : ScanEnd}
  {b : Option (Option Nat) × Pmm}

/-- The scan, iteration by iteration. -/
theorem ends_scan : ∀ (m : Nat) {x : Scan} {s : Pmm}, s.allocationCursor = x.cursor →
    loop (scanBody s.taken s.maxPagesAvailable k) m x = some r →
    (∀ c, r = .failed c → b = (some none, { s with allocationCursor := c })) →
    (∀ p l c, r = .found p l c →
      Ends pmmBody (.reserve p l p, { s with allocationCursor := c }) b) →
    Ends pmmBody (.scan k x, s) b
  | 0, _, _, _, hloop, _, _ => by cases hloop
  | m + 1, x, s, hcur, hloop, hfail, hfound => by
    have hx : ({ x with cursor := s.allocationCursor } : Scan) = x := by rw [hcur]
    cases hb : scanBody s.taken s.maxPagesAvailable k x with
    | inl y =>
      rw [loop_inl hb] at hloop
      refine Ends.inl (y := (.scan k y, { s with allocationCursor := y.cursor })) ?_
        (ends_scan m rfl hloop hfail hfound)
      simp only [pmmBody, hx, hb]
    | inr r' =>
      rw [loop_inr hb, Option.some.injEq] at hloop
      subst hloop
      cases r' with
      | failed c =>
        rw [hfail c rfl]
        exact Ends.inr (by simp only [pmmBody, hx, hb])
      | found p l c => exact Ends.inl (by simp only [pmmBody, hx, hb]) (hfound p l c rfl)

/-- `_reserve_pages`, bit by bit. -/
theorem ends_reserve (hk : p + k < 2 ^ 64) : ∀ (m : Nat) {i : Nat} {s : Pmm}, i + m = p + k →
    Ends pmmBody (.entry p k, { s with mem := bitmapOnRange s.mem s.pageBitmap i (p + k) }) b →
    Ends pmmBody (.reserve p k i, s) b
  | 0, i, s, hi, hend => by
    have hmem : bitmapOnRange s.mem s.pageBitmap i (p + k) = s.mem := by
      simp [bitmapOnRange, ← hi]
    rw [hmem] at hend
    refine Ends.inl ?_ hend
    rw [pmmBody, if_neg (by rw [add64_eq hk]; omega)]
  | m + 1, i, s, hi, hend => by
    have hmem : bitmapOnRange (bitmapOn s.mem s.pageBitmap i) s.pageBitmap (i + 1) (p + k)
        = bitmapOnRange s.mem s.pageBitmap i (p + k) := by
      simp [bitmapOnRange, show p + k - i = p + k - (i + 1) + 1 by omega, List.range'_succ]
    refine Ends.inl (y := (.reserve p k (i + 1), { s with mem := bitmapOn s.mem s.pageBitmap i })) ?_
      (ends_reserve hk m (by omega) ?_)
    · rw [pmmBody, if_pos (by rw [add64_eq hk]; omega), add64_eq (by omega)]
    · simpa only [hmem] using hend

/-- The part of `kalloc` after the scan. -/
theorem ends_found (hk : p + k < 2 ^ 64) (s : Pmm) (c : Nat) :
    Ends pmmBody (.reserve p k p, { s with allocationCursor := c })
      (some (some (getAddrFromPage s p)), kallocFound s p k c) := by
  refine ends_reserve hk k rfl (Ends.inl rfl (Ends.inr ?_))
  simp only [pmmBody, kallocFound, reservePages, add64_eq hk]
  rfl

/-- **The section of `kalloc`** is `kalloc`. -/
theorem ends_kalloc (hs : s.Ready) (hn : 1 ≤ n) (hn64 : n + 4095 < 2 ^ 64) :
    ∃ r t, kalloc n s = .ret r t ∧
      Ends pmmBody (.enter (.kalloc n), { s with lock := true })
        (some r, { t with lock := true }) := by
  have hmax := hs.max_le
  have hlt := hs.pages_lt
  have hcur := hs.cursor_lt
  have hbound : scanBound s.maxPagesAvailable = s.maxPagesAvailable := scanBound_of_pos (by omega)
  have hk : 1 ≤ divRoundup n pageSize := by
    rw [divRoundup_eq hn64]
    omega
  obtain ⟨r, hr, hspec⟩ := scan_spec s.taken (by rw [hbound]; exact hcur) (by omega) hk
    (divRoundup_lt n)
  have heq : kalloc n s = kallocEnd s r := by
    rw [kalloc_eq hs.unlocked, loop_mono hr (show _ ≤ scanFuel by unfold scanFuel; omega),
      Option.elim_some]
  cases r with
  | failed c =>
    refine ⟨none, _, heq, Ends.inl rfl (ends_scan _ rfl hr (fun c' hc => ?_) fun _ _ _ h => ?_)⟩
    · cases hc
      rfl
    · cases h
  | found p l c =>
    obtain ⟨rfl, hp, -⟩ := hspec
    have hpl : p + divRoundup n pageSize < 2 ^ 64 := by omega
    refine ⟨_, _, heq, Ends.inl rfl (ends_scan _ rfl hr (fun _ h => ?_) fun p' l' c' h => ?_)⟩
    · cases h
    · cases h
      exact ends_found hpl { s with lock := true } c

/-- The loop of `kfree`. -/
theorem ends_clear {page : Nat} {mem : Memory} : ∀ (m : Nat) {i : Nat} {s : Pmm},
    loop (kfreeBody s.pageBitmap s.entryMap page) m (i, s.mem) = some mem →
    Ends pmmBody (.clear page i, s)
      (some none, { s with mem := mem.store (s.entryMap + 4 * page) 4 0 })
  | 0, _, _, hloop => by cases hloop
  | m + 1, i, s, hloop => by
    cases hb : kfreeBody s.pageBitmap s.entryMap page (i, s.mem) with
    | inl y =>
      rw [loop_inl hb] at hloop
      refine Ends.inl (y := (.clear page y.1, { s with mem := y.2 })) ?_ (ends_clear m hloop)
      simp only [pmmBody, hb]
    | inr mem' =>
      rw [loop_inr hb, Option.some.injEq] at hloop
      subst hloop
      exact Ends.inr (by simp only [pmmBody, hb])

/-- **The section of `kfree`** is `kfree`. -/
theorem ends_kfree (hu : s.lock = false) (ptr : Nat) :
    (∀ t, kfree ptr s = .ret () t → Ends pmmBody (.enter (.kfree ptr), { s with lock := true })
        (some none, { t with lock := true })) ∧
      ∀ t, kfree ptr s = .halt t →
        Ends pmmBody (.enter (.kfree ptr), { s with lock := true }) (none, { s with lock := true }) := by
  rw [kfree_eq hu]
  by_cases hp : s.maxPagesAvailable ≤ getPageFromAddr s ptr
  · rw [if_pos hp]
    refine ⟨fun t h => (by cases h), fun t _ => Ends.inr (if_pos hp)⟩
  · rw [if_neg hp]
    split
    · exact ⟨fun t h => (by cases h), fun t h => (by cases h)⟩
    · next mem hloop =>
      refine ⟨fun t h => ?_, fun t h => (by cases h)⟩
      cases h
      exact Ends.inl (if_neg hp) (ends_clear _ (s := { s with lock := true }) hloop)

/-! ## One call after another -/

/-- A request is at least one byte and does not wrap when rounded up; any 64-bit value may be freed.
-/
def PmmOp.Valid : PmmOp → Prop
  | .kalloc n => 1 ≤ n ∧ n + 4095 < 2 ^ 64
  | .kfree ptr => ptr < 2 ^ 64

/-- What the call returns. -/
def PmmRun.result (h : PmmRun) : PmmOp → Option (Option Nat)
  | .kalloc n => (kalloc n h.pmm).value?
  | .kfree ptr => (kfree ptr h.pmm).value?.map fun _ => none

/-- A call of one CPU that returns `r`, with the blocks that are live. -/
def PmmRun.replay {ι : Type} (h : PmmRun) (e : ι × PmmOp × Option Nat) : Option PmmRun :=
  if h.result e.2.1 = some e.2.2 then h.stepAny e.2.1 else none

/-- **A section that is carried out alone** ends with what the call returns, or the call halts. -/
theorem BlocksInv.ends (hinv : BlocksInv s₀ h)
    (hmap : s₀.lowestAddress + pageSize * s₀.numPagesInMap + s₀.vmmHigherHalfOffset ≤ 2 ^ 64)
    {op : PmmOp} (hop : op.Valid) :
    (∃ r h', h.result op = some r ∧ h.stepAny op = some h' ∧
        Ends pmmBody (.enter op, { h.pmm with lock := true }) (some r, { h'.pmm with lock := true })) ∨
      ∃ ptr, op = .kfree ptr ∧ h.pmm.maxPagesAvailable ≤ getPageFromAddr h.pmm ptr ∧
        Ends pmmBody (.enter op, { h.pmm with lock := true }) (none, { h.pmm with lock := true }) := by
  cases op with
  | kalloc n =>
    obtain ⟨r, t, heq, hends⟩ := ends_kalloc hinv.ready hop.1 hop.2
    have hsize : 1 ≤ n ∧ n + 4095 < 2 ^ 64 := hop
    left
    cases r with
    | none =>
      refine ⟨none, ⟨t, h.live⟩, ?_, ?_, hends⟩
      · simp [PmmRun.result, heq, Outcome.value?]
      · rw [PmmRun.stepAny, PmmRun.step, if_pos hsize, heq]
    | some ptr =>
      refine ⟨some ptr, ⟨t, newBlock t ptr n :: h.live⟩, ?_, ?_, hends⟩
      · simp [PmmRun.result, heq, Outcome.value?]
      · rw [PmmRun.stepAny, PmmRun.step, if_pos hsize, heq]
  | kfree ptr =>
    obtain ⟨hret, hhalt⟩ := ends_kfree hinv.ready.unlocked ptr
    by_cases hp : h.pmm.maxPagesAvailable ≤ getPageFromAddr h.pmm ptr
    · exact Or.inr ⟨ptr, rfl, hp, hhalt _ (kfree_outOfBounds hinv.ready.unlocked hp)⟩
    · left
      have hptr : ptr < 2 ^ 64 := hop
      obtain ⟨t, heq⟩ : ∃ t, kfree ptr h.pmm = .ret () t := by
        rcases hinv.kfree_any hmap hptr (by omega) with ⟨b, -, -, heq⟩ | ⟨-, heq⟩
        · exact ⟨_, heq⟩
        · exact ⟨_, heq⟩
      refine ⟨none, ⟨t, h.live.eraseP fun b => b.FirstPage ptr⟩, ?_, ?_, hret t heq⟩
      · simp [PmmRun.result, heq, Outcome.value?]
      · rw [PmmRun.stepAny, if_pos hptr, heq]

/-- Calls that run alone, one after another. -/
theorem BlocksInv.serial {ι : Type} (hfew : s₀.numPagesInMap < 2 ^ 32)
    (hmap : s₀.lowestAddress + pageSize * s₀.numPagesInMap + s₀.vmmHigherHalfOffset ≤ 2 ^ 64) :
    ∀ (l : List (ι × PmmOp × Option Nat)) {h : PmmRun} {u : Pmm}, BlocksInv s₀ h →
      (∀ e ∈ l, e.2.1.Valid) → pmmGuarded.Serial l h.pmm u →
      ∃ h', run PmmRun.replay l h = some h' ∧ BlocksInv s₀ h' ∧ h'.pmm = u
  | [], h, u, hinv, _, hserial => ⟨h, rfl, hinv, hserial⟩
  | (i, op, r) :: l, h, u, hinv, hvalid, hserial => by
    rw [List.forall_mem_cons] at hvalid
    obtain ⟨v, ⟨-, w, hcall, rfl⟩, hrest⟩ := hserial
    have hcall' : Ends pmmBody (.enter op, { h.pmm with lock := true }) (some r, w) := hcall
    rcases hinv.ends hmap hvalid.1 with ⟨r', h', hres, hstep, hends⟩ | ⟨ptr, -, -, hends⟩
    · have hinv' := hinv.stepAny hmap hfew hstep
      obtain ⟨rfl, rfl⟩ : r = r' ∧ w = { h'.pmm with lock := true } := by
        simpa using hcall'.unique hends
      have hfree : spinlockUnlock Pmm.lockAt { h'.pmm with lock := true } = h'.pmm := by
        rw [spinlockUnlock, Pmm.lockAt, ← hinv'.ready.unlocked]
      obtain ⟨t, hrun, hinvt, ht⟩ := BlocksInv.serial hfew hmap l hinv' hvalid.2 (by
        rw [← hfree]
        exact hrest)
      refine ⟨t, run_cons_eq_some.mpr ⟨h', ?_, hrun⟩, hinvt, ht⟩
      rw [PmmRun.replay, if_pos hres, hstep]
    · have := hcall'.unique hends
      simp at this

/-! ## All CPUs at once -/

/-- What any number of CPUs can rely on. -/
structure CpusInv {ι : Type} (s₀ : Pmm) (s : Users ι Pmm PmmOp PmmLocal (Option Nat)) (h : PmmRun) :
    Prop where
  inv : pmmGuarded.Inv s₀ s h.pmm
  replay : run PmmRun.replay s.history (PmmRun.start s₀) = some h
  blocks : BlocksInv s₀ h
  mapped : s₀.lowestAddress + pageSize * s₀.numPagesInMap + s₀.vmmHigherHalfOffset ≤ 2 ^ 64
  valid : Guarded.AllCalls PmmOp.Valid s

variable {ι : Type} {boot : Boot} {m : Memory}

theorem cpusInv_of_run [DecidableEq ι] (hok : MemmapOk boot.hhdmOffset boot.memmap)
    (hinit : kmemInit boot (Pmm.zero m) = .ret () s₀)
    (hcap : s₀.numPagesInMap ≤ 8 * bitmapSize s₀.numPagesInMap)
    (hfew : s₀.numPagesInMap < 2 ^ 32) (hmax : 1 ≤ s₀.maxPagesAvailable) {ops : List (Lock.Op ι PmmOp)}
    (hops : ∀ op ∈ ops, ∀ i c, op = .call i c → c.Valid)
    {s : Users ι Pmm PmmOp PmmLocal (Option Nat)}
    (hrun : run pmmGuarded.step ops (Users.start s₀) = some s) : ∃ h, CpusInv s₀ s h := by
  obtain ⟨c, e, rest, hb⟩ := kmemInit_booted hok hinit
  have hblocks := hb.blocksInv hok hcap hmax
  have hmap := hb.pages_mapped hok hmax
  have hvalid := Guarded.run_allCalls ops hops hrun
  obtain ⟨u, hinv⟩ := Guarded.serializable hblocks.ready.unlocked ops hrun
  obtain ⟨h, hreplay, hblocks', rfl⟩ := BlocksInv.serial hfew hmap s.history hblocks hvalid.returned
    hinv.serial
  exact ⟨h, hinv, hreplay, hblocks', hmap, hvalid⟩

/--
**The page allocator is safe on any number of CPUs.**

The bitmap that `kmem_init` has built covers the map, which has less than `2 ^ 32` pages, at least one of
them below the bound, and the sizes asked for are valid. However the steps of the calls interleave, at
most one CPU is in its section, and it gets to the end or halts there, in a `kfree` out of bounds. The
calls that have returned have the same results as one at a time, in the order in which they released
the lock; with the lock free, so has the allocator. The blocks that are live then are disjoint, large
enough and made of pages that `kmem_init` had marked free, and the bitmap describes exactly them.
-/
theorem cpus_safe [DecidableEq ι] (boot : Boot) (m : Memory) (s₀ : Pmm)
    (hok : MemmapOk boot.hhdmOffset boot.memmap)
    (hinit : kmemInit boot (Pmm.zero m) = .ret () s₀)
    (hcap : s₀.numPagesInMap ≤ 8 * bitmapSize s₀.numPagesInMap)
    (hfew : s₀.numPagesInMap < 2 ^ 32) (hmax : 1 ≤ s₀.maxPagesAvailable)
    (ops : List (Lock.Op ι PmmOp)) (hops : ∀ op ∈ ops, ∀ i c, op = .call i c → c.Valid)
    (s : Users ι Pmm PmmOp PmmLocal (Option Nat))
    (hrun : run pmmGuarded.step ops (Users.start s₀) = some s) :
    (∀ i j, (s.pc i).holds = true → (s.pc j).holds = true → i = j) ∧
      (∀ i, (s.pc i).holds = true → ∃ k t,
        run pmmGuarded.step (List.replicate k (.step i)) s = some t ∧
          (t.shared.lock = false ∨ ∃ c, t.pc i = .stopped c)) ∧
      ∃ h, run PmmRun.replay s.history (PmmRun.start s₀) = some h ∧
        h.live.Pairwise (fun b b' => b.span.Apart b'.span) ∧
        (∀ b ∈ h.live, b.ptr = getAddrFromPage s₀ b.start ∧ (b.numBytes + 4095) / 4096 ≤ b.pages ∧
          ∀ i, b.span.Has i → i < s₀.numPagesInMap ∧ s₀.taken i = false) ∧
        (s.shared.lock = false → s.shared = h.pmm ∧ ∀ i < s₀.numPagesInMap,
          s.shared.taken i = true ↔ s₀.taken i = true ∨ ∃ b ∈ h.live, b.span.Has i) := by
  obtain ⟨h, hc⟩ := cpusInv_of_run hok hinit hcap hfew hmax hops hrun
  refine ⟨fun i j hi hj => hc.inv.eq_of_holds hi hj, fun i hi => ?_,
    h, hc.replay, hc.blocks.apart, fun b hb => ?_, fun hl => ?_⟩
  · refine hc.inv.leaves hi fun c hcall => ?_
    rcases hc.blocks.ends hc.mapped (hc.valid.pending i c hcall) with ⟨r, h', -, -, hends⟩ |
      ⟨ptr, -, -, hends⟩
    · exact ⟨_, hends⟩
    · exact ⟨_, hends⟩
  · have hbok := hc.blocks.ok b hb
    refine ⟨hbok.ptr, hbok.enough.ge, fun i hi => ⟨?_, hbok.free i hi⟩⟩
    have hlt : i < b.start + b.pages := hi.2
    have hle := hbok.le_max
    have hmax' := hc.blocks.max_le
    omega
  · have heq := (hc.inv.nobody hl).1
    refine ⟨heq, fun i hi => ?_⟩
    rw [heq]
    exact hc.blocks.bits i hi

/-- Two CPUs ask for memory. The second one waits while the first one is in its section. -/
def sampleCpuOps : List (Lock.Op Bool PmmOp) :=
  [.call false (.kalloc 5000), .call true (.kalloc 1), .step false, .step true]
    ++ List.replicate 11 (.step false) ++ List.replicate 8 (.step true)

theorem sampleCpuOps_valid : ∀ op ∈ sampleCpuOps, ∀ i c, op = Lock.Op.call i c → c.Valid := by
  rintro op hop i c rfl
  simp only [sampleCpuOps, List.mem_append, List.mem_cons, List.mem_replicate] at hop
  simp at hop
  rcases hop with ⟨-, rfl⟩ | ⟨-, rfl⟩
  · exact ⟨by decide, by decide⟩
  · exact ⟨by decide, by decide⟩

def sampleCpus : Users Bool Pmm PmmOp PmmLocal (Option Nat) :=
  (run pmmGuarded.step sampleCpuOps (Users.start samplePmm)).get (by decide +kernel)

theorem cpus_safe_sample :
    sampleCpus.history.map (fun e => (e.1, e.2.1)) = [(false, .kalloc 5000), (true, .kalloc 1)] ∧
      ∃ h, run PmmRun.replay sampleCpus.history (PmmRun.start samplePmm) = some h ∧
        h.live.Pairwise fun b b' => b.span.Apart b'.span := by
  obtain ⟨-, -, h, hreplay, hapart, -⟩ := cpus_safe sampleBoot (fun _ => 0) samplePmm sampleBoot_ok
    sample_kmemInit (by decide +kernel) (by decide +kernel) (by decide +kernel) sampleCpuOps
    sampleCpuOps_valid sampleCpus (Option.some_get _).symm
  exact ⟨by decide +kernel, h, hreplay, hapart⟩

/--
**A `kfree` that halts stops the allocator on all CPUs.**

With the map, the bitmap and the sizes as above, a CPU stops inside its section exactly if it frees a
pointer whose page is out of bounds. It keeps the lock: whatever the other CPUs do from then on, none of
them gets into its section, no call returns, and the allocator stays as it is.
-/
theorem halted_kfree_stops_all [DecidableEq ι] (boot : Boot) (m : Memory) (s₀ : Pmm)
    (hok : MemmapOk boot.hhdmOffset boot.memmap)
    (hinit : kmemInit boot (Pmm.zero m) = .ret () s₀)
    (hcap : s₀.numPagesInMap ≤ 8 * bitmapSize s₀.numPagesInMap)
    (hfew : s₀.numPagesInMap < 2 ^ 32) (hmax : 1 ≤ s₀.maxPagesAvailable)
    (ops : List (Lock.Op ι PmmOp)) (hops : ∀ op ∈ ops, ∀ i c, op = .call i c → c.Valid)
    (s : Users ι Pmm PmmOp PmmLocal (Option Nat))
    (hrun : run pmmGuarded.step ops (Users.start s₀) = some s) (i : ι) :
    (∀ c, s.pc i = .inside c (.enter c) →
      ((∃ t, pmmGuarded.step s (.step i) = some t ∧ t.pc i = .stopped c) ↔
        ∃ ptr, c = .kfree ptr ∧ s.shared.maxPagesAvailable ≤ getPageFromAddr s.shared ptr)) ∧
      ∀ c, s.pc i = .stopped c →
        (∃ ptr, c = .kfree ptr ∧ s.shared.maxPagesAvailable ≤ getPageFromAddr s.shared ptr) ∧
        ∀ ops' t, run pmmGuarded.step ops' s = some t →
          t.shared = s.shared ∧ t.history = s.history ∧ ∀ j ≠ i, (t.pc j).holds = false := by
  obtain ⟨h, hc⟩ := cpusInv_of_run hok hinit hcap hfew hmax hops hrun
  refine ⟨fun c hi => ?_, fun c hi => ⟨?_, fun ops' t hrun' => ?_⟩⟩
  · cases c with
    | kalloc n =>
      refine iff_of_false ?_ (by rintro ⟨ptr, ⟨⟩, -⟩)
      rintro ⟨t, hstep, ht⟩
      simp only [Guarded.step, Guarded.userStep, hi, pmmGuarded, pmmBody, Option.some.injEq] at hstep
      subst hstep
      simp at ht
    | kfree ptr =>
      by_cases hp : s.shared.maxPagesAvailable ≤ getPageFromAddr s.shared ptr
      · refine iff_of_true ?_ ⟨ptr, rfl, hp⟩
        simp [Guarded.step, Guarded.userStep, hi, pmmGuarded, pmmBody, hp]
      · refine iff_of_false ?_ ?_
        · rintro ⟨t, hstep, ht⟩
          simp only [Guarded.step, Guarded.userStep, hi, pmmGuarded, pmmBody, if_neg hp,
            Option.some.injEq] at hstep
          subst hstep
          simp at ht
        · rintro ⟨ptr', ⟨⟩, hp'⟩
          exact hp hp'
  · have hp := hc.inv.progress (i := i) (by rw [hi]; rfl)
    rw [hi] at hp
    have hp' : Ends pmmBody (.enter c, { h.pmm with lock := true }) (none, s.shared) := hp
    rcases hc.blocks.ends hc.mapped (hc.valid.pending i c (by rw [hi]; rfl)) with
      ⟨r, h', -, -, hends⟩ | ⟨ptr, rfl, hptr, hends⟩
    · have := hp'.unique hends
      simp at this
    · have heq := hp'.unique hends
      simp only [Prod.mk.injEq, true_and] at heq
      exact ⟨ptr, rfl, by rw [heq]; exact hptr⟩
  · obtain ⟨h1, h2, -, h3⟩ := Guarded.stopped_run hc.inv hi ops' hrun'
    exact ⟨h1, h2, h3⟩

/-- One CPU frees the null pointer. -/
def nullFreeOps : List (Lock.Op Bool PmmOp) := [.call false (.kfree 0), .step false, .step false]

def nullFreeCpus : Users Bool Pmm PmmOp PmmLocal (Option Nat) :=
  (run pmmGuarded.step nullFreeOps (Users.start samplePmm)).get (by decide +kernel)

/-- The other one then asks for memory, and waits. -/
def nullFreeLater : Users Bool Pmm PmmOp PmmLocal (Option Nat) :=
  (run pmmGuarded.step [.call true (.kalloc 1), .step true, .step true] nullFreeCpus).get
    (by decide +kernel)

theorem halted_kfree_stops_all_sample :
    nullFreeLater.history = nullFreeCpus.history ∧ (nullFreeLater.pc true).holds = false := by
  have hops : ∀ op ∈ nullFreeOps, ∀ i c, op = Lock.Op.call i c → c.Valid := by
    rintro op hop i c rfl
    simp only [nullFreeOps, List.mem_cons] at hop
    simp at hop
    obtain ⟨-, rfl⟩ := hop
    exact Nat.zero_lt_succ _
  have hstopped : nullFreeCpus.pc false = .stopped (.kfree 0) := by
    have hpc : (match nullFreeCpus.pc false with
      | .stopped (.kfree 0) => true
      | _ => false) = true := by decide +kernel
    split at hpc
    · next heq => exact heq
    · cases hpc
  obtain ⟨-, hstop⟩ := halted_kfree_stops_all sampleBoot (fun _ => 0) samplePmm sampleBoot_ok
    sample_kmemInit (by decide +kernel) (by decide +kernel) (by decide +kernel) nullFreeOps hops
    nullFreeCpus (Option.some_get _).symm false
  obtain ⟨-, hhist, hpc⟩ := (hstop (.kfree 0) hstopped).2 _ nullFreeLater (Option.some_get _).symm
  exact ⟨hhist, hpc true (by decide)⟩

end BloreOs
