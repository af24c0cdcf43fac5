import BloreOs.Mem.Reach
import BloreOs.Slob.Runs

/-!
# Initialising the heap

There are two ways to set up SLOB. `kernel_main` calls `slob_init` after `kmem_init`, and the first
`slob_malloc` calls it if `_init` is still 0. Only the second one sets `_init`. After an explicit
`slob_init` the first `slob_malloc` therefore initialises again: it takes another table from the map
and builds a new list of what is left then.

`HeapView` is what a client can see of that. `kernelHeap_eq_lazyHeap_iff` says that both ways look
the same only if there is no heap at all.
-/

namespace BloreOs

open Loop Chain Memory

variable {P : Pool} {s t : Slob} {live : List SlobBlock} {heap : List Nat}
variable {es es' : List MemmapEntry} {size b : Nat}

inductive SlobCall where
  | slobMalloc (size : Nat)
  | slobFree (ptr : Nat)

/-- One call. `slob_malloc` returns a pointer, `slob_free` nothing. -/
def slobCall (s : Slob) : SlobCall → Outcome Slob (Option Nat)
  | .slobMalloc size => (slobMalloc size s).bind fun p s => .ret (some p) s
  | .slobFree ptr => (slobFree ptr s).bind fun _ s => .ret none s

/-- Call after call, with what the calls returned, up to one that does not return. -/
def slobCalls : List SlobCall → Slob → List (Option Nat) × Slob
  | [], s => ([], s)
  | c :: cs, s =>
    match slobCall s c with
    | .ret v s => (v :: (slobCalls cs s).1, (slobCalls cs s).2)
    | .halt s => ([], s)
    | .spin s => ([], s)

/-- The map, the page counter, and what the calls returned. -/
structure HeapView where
  memmap : List MemmapEntry
  maxPagesAvailable : Nat
  returned : List (Option Nat)
deriving DecidableEq

def heapView (r : List (Option Nat) × Slob) : HeapView where
  memmap := r.2.pmm.memmap
  maxPagesAvailable := r.2.pmm.maxPagesAvailable
  returned := r.1

/-- `slob_init`, and calls after it. -/
def initThenCalls (calls : List SlobCall) (s : Slob) : List (Option Nat) × Slob :=
  match slobInit s with
  | .ret _ s => slobCalls calls s
  | .halt s => ([], s)
  | .spin s => ([], s)

/-- `kmem_init`, and the heap after it. -/
def afterKmemInit (boot : Boot) (m : Memory) (k : Slob → List (Option Nat) × Slob) : HeapView :=
  match kmemInit boot (Pmm.zero m) with
  | .ret _ pmm => heapView (k (Slob.zero pmm))
  | .halt pmm => heapView ([], Slob.zero pmm)
  | .spin pmm => heapView ([], Slob.zero pmm)

/-- `kmem_init` and `slob_init`, as in `kernel_main`, and calls after them. -/
def kernelHeap (boot : Boot) (m : Memory) (calls : List SlobCall) : HeapView :=
  afterKmemInit boot m (initThenCalls calls)

/-- `kmem_init`, and calls that initialise the heap when they need it. -/
def lazyHeap (boot : Boot) (m : Memory) (calls : List SlobCall) : HeapView :=
  afterKmemInit boot m (slobCalls calls)

/-- No usable entry can hold the table of `slob_init`. -/
def NoHeapRoom (es : List MemmapEntry) : Prop :=
  ∀ e ∈ usable es, e.length < alignUp (24 * (usable es).length) pageSize

instance : DecidablePred NoHeapRoom := fun es =>
  inferInstanceAs (Decidable (∀ e ∈ usable es, _ < _))

/-! ## Calls on an initialised heap -/

/-- Two states with the same map, counter and flag. -/
structure SameSetup (s t : Slob) : Prop where
  memmap : t.pmm.memmap = s.pmm.memmap
  maxPages : t.pmm.maxPagesAvailable = s.pmm.maxPagesAvailable
  init : t.init = s.init

theorem SameSetup.trans {u : Slob} (h : SameSetup s t) (h' : SameSetup t u) : SameSetup s u :=
  ⟨h'.memmap.trans h.memmap, h'.maxPages.trans h.maxPages, h'.init.trans h.init⟩

theorem slobFind_sameSetup (size : Nat) (s : Slob) : SameSetup s (slobFind size s).final := by
  rw [slobFind]
  split
  · exact ⟨rfl, rfl, rfl⟩
  · exact ⟨rfl, rfl, rfl⟩
  · exact ⟨rfl, rfl, rfl⟩

theorem slobMalloc_of_init (h : s.init = true) (size : Nat) :
    slobMalloc size s = slobFind size s := by
  rw [slobMalloc, slobReady, if_pos h, Outcome.ret_bind]

/-- Once `_init` is set, no call changes the map. -/
theorem slobCall_sameSetup (h : s.init = true) (c : SlobCall) :
    SameSetup s (slobCall s c).final := by
  cases c with
  | slobMalloc size =>
    rw [slobCall, slobMalloc_of_init h]
    exact Outcome.final_bind (slobFind_sameSetup size s) fun _ _ _ hs => hs
  | slobFree ptr =>
    rw [slobCall, slobFree, slobMalloc_of_init h]
    refine Outcome.final_bind (Outcome.final_bind (slobFind_sameSetup 24 s) ?_) fun _ _ _ hs => hs
    intro p t _ hs
    exact ⟨hs.memmap, hs.maxPages, hs.init⟩

theorem slobCalls_sameSetup : ∀ (calls : List SlobCall) {s : Slob}, s.init = true →
    SameSetup s (slobCalls calls s).2
  | [], s, _ => ⟨rfl, rfl, rfl⟩
  | c :: cs, s, h => by
    have hone := slobCall_sameSetup h c
    rw [slobCalls]
    cases hr : slobCall s c with
    | ret v t =>
      rw [hr] at hone
      exact hone.trans (slobCalls_sameSetup cs (hone.init.trans h))
    | halt t =>
      rw [hr] at hone
      exact hone
    | spin t =>
      rw [hr] at hone
      exact hone

/-- On a divided pool every call returns, whatever its argument. -/
theorem SlobInv.slobCall_ret (hinv : SlobInv P s live heap) (c : SlobCall) :
    ∃ v t, slobCall s c = .ret v t := by
  have hmalloc : ∀ size, ∃ p t, BloreOs.slobMalloc size s = .ret p t := by
    intro size
    have hloop := hinv.path.loop_search (entryFits s.mem size) hinv.path_length_lt
    rw [slobMalloc_of_init hinv.init, slobFind, hloop]
    cases ((P.records heap).map fun x => x + P.offset).find? (entryFits s.mem size) with
    | none => exact ⟨_, _, rfl⟩
    | some p => exact ⟨_, _, rfl⟩
  cases c with
  | slobMalloc size =>
    obtain ⟨p, t, h⟩ := hmalloc size
    exact ⟨some p, t, by rw [slobCall, h, Outcome.ret_bind]⟩
  | slobFree ptr =>
    obtain ⟨p, t, h⟩ := hmalloc 24
    exact ⟨none, _, by rw [slobCall, slobFree, h, Outcome.ret_bind, Outcome.ret_bind]⟩

/-! ## The first call -/

/-- The first call initialises the heap, and goes on as on the initialised heap. -/
theorem slobCall_of_ready (h : slobReady s = .ret () t) (ht : t.init = true) (c : SlobCall) :
    slobCall s c = slobCall t c := by
  have hmalloc : ∀ size, BloreOs.slobMalloc size s = BloreOs.slobMalloc size t := by
    intro size
    rw [slobMalloc, h, Outcome.ret_bind, slobMalloc_of_init ht]
  cases c with
  | slobMalloc size => rw [slobCall, slobCall, hmalloc]
  | slobFree ptr => rw [slobCall, slobCall, slobFree, slobFree, hmalloc]

/-- The map after the calls is the map that the initialisation left. -/
theorem slobCalls_memmap (h : slobReady s = .ret () t) (ht : t.init = true) (c : SlobCall)
    (cs : List SlobCall) : (slobCalls (c :: cs) s).2.pmm.memmap = t.pmm.memmap := by
  have hsame := slobCalls_sameSetup (c :: cs) ht
  rw [slobCalls, slobCall_of_ready h ht, ← slobCalls, hsame.memmap]

theorem slobCall_of_halt (h : slobReady s = .halt t) (c : SlobCall) : slobCall s c = .halt t := by
  cases c with
  | slobMalloc size => rw [slobCall, slobMalloc, h, Outcome.halt_bind, Outcome.halt_bind]
  | slobFree ptr =>
    rw [slobCall, slobFree, slobMalloc, h, Outcome.halt_bind, Outcome.halt_bind, Outcome.halt_bind]

theorem carve_ne (hpos : 0 < size) (h : carve size es = some (b, es')) : es' ≠ es := by
  obtain ⟨pre, e, post, rfl, -, hl, -, rfl⟩ := carve_cases h
  intro heq
  have hhead := congrArg MemmapEntry.length (List.cons.inj (List.append_cancel_left heq)).1
  simp only [MemmapEntry.advance] at hhead
  omega

/-- The table of a heap takes at least a page. -/
theorem heapTable_pos (h : carve (alignUp (24 * (usable es).length) pageSize) es = some (b, es'))
    (hcount : (usable es).length < 2 ^ 31) : 0 < alignUp (24 * (usable es).length) pageSize := by
  obtain ⟨x, hx, -⟩ := carve_span h
  have hlen := List.length_pos_of_mem hx
  have hfits : 24 * (usable es).length + 4095 < 2 ^ 64 := by omega
  exact Nat.lt_of_lt_of_le (by omega) (le_alignUp hfits)

/-- The lazy initialisation of a heap that has not been initialised by a call. -/
theorem slobReady_ret (h0 : s.init = false) (hok : MemmapOk s.offset s.pmm.memmap)
    (hmax : s.pmm.maxPagesAvailable = usablePages s.pmm.memmap)
    (hcount : (usable s.pmm.memmap).length < 2 ^ 31)
    (hc : carve (alignUp (24 * (usable s.pmm.memmap).length) pageSize) s.pmm.memmap
      = some (b, es)) :
    ∃ t, slobInit s = .ret () t ∧ slobReady s = .ret () { t with init := true } ∧
      t.init = false ∧ t.offset = s.offset ∧ t.pmm.memmap = es ∧
      t.pmm.maxPagesAvailable = usablePages es ∧
      SlobInv (poolOf t) { t with init := true } [] [] := by
  obtain ⟨t, ht, hinit, -, hpmm⟩ := slobInit_ret hok hmax hcount hc
  refine ⟨t, ht, ?_, hinit.trans h0, ?_, by rw [hpmm], by rw [hpmm], slobInit_inv hok hcount ht⟩
  · rw [slobReady, if_neg (by simp [h0]), ht, Outcome.ret_bind]
  · rw [Slob.offset, hpmm]
    rfl

theorem slobReady_halt (h0 : s.init = false) (hcount : (usable s.pmm.memmap).length < 2 ^ 31)
    (hc : carve (alignUp (24 * (usable s.pmm.memmap).length) pageSize) s.pmm.memmap = none) :
    slobInit s = .halt s ∧ slobReady s = .halt s := by
  have hinit := slobInit_halt hcount hc
  refine ⟨hinit, ?_⟩
  rw [slobReady, if_neg (by simp [h0]), hinit, Outcome.halt_bind]

/-- **With room for a table, the explicit initialisation is seen.** Either the second table is taken
from the map as well, or there is no room for it and the first call halts. -/
theorem initThenCalls_ne (h0 : s.init = false) (hok : MemmapOk s.offset s.pmm.memmap)
    (hmax : s.pmm.maxPagesAvailable = usablePages s.pmm.memmap)
    (hcount : (usable s.pmm.memmap).length < 2 ^ 31) (hroom : ¬ NoHeapRoom s.pmm.memmap)
    (c : SlobCall) (cs : List SlobCall) :
    heapView (initThenCalls (c :: cs) s) ≠ heapView (slobCalls (c :: cs) s) := by
  intro heq
  cases hc₁ : carve (alignUp (24 * (usable s.pmm.memmap).length) pageSize) s.pmm.memmap with
  | none => exact hroom (carve_eq_none.mp hc₁)
  | some r₁ =>
    obtain ⟨b₁, rest₁⟩ := r₁
    obtain ⟨t, ht, hready, ht0, hoff, hmap, hmaxt, hinv⟩ := slobReady_ret h0 hok hmax hcount hc₁
    have hmap₁ : (slobCalls (c :: cs) s).2.pmm.memmap = rest₁ :=
      (slobCalls_memmap hready rfl c cs).trans hmap
    have hret : (slobCalls (c :: cs) s).1 ≠ [] := by
      obtain ⟨v, u, hcall⟩ := hinv.slobCall_ret c
      rw [slobCalls, slobCall_of_ready hready rfl, hcall]
      exact List.cons_ne_nil _ _
    have hexpl : initThenCalls (c :: cs) s = slobCalls (c :: cs) t := by rw [initThenCalls, ht]
    rw [hexpl] at heq
    rw [← hmap] at hc₁
    have hcount' : (usable t.pmm.memmap).length < 2 ^ 31 := by
      rw [carve_usable_length hc₁]
      exact hcount
    cases hc₂ : carve (alignUp (24 * (usable t.pmm.memmap).length) pageSize) t.pmm.memmap with
    | none =>
      have hhalt := (slobReady_halt ht0 hcount' hc₂).2
      have hempty : (slobCalls (c :: cs) t).1 = [] := by rw [slobCalls, slobCall_of_halt hhalt]
      exact hret ((congrArg HeapView.returned heq).symm.trans hempty)
    | some r₂ =>
      obtain ⟨b₂, rest₂⟩ := r₂
      have hok' : MemmapOk t.offset t.pmm.memmap := by
        rw [hoff]
        exact hok.carve hc₁
      obtain ⟨t', -, hready', -, -, hmap', -⟩ := slobReady_ret ht0 hok' (hmap ▸ hmaxt) hcount' hc₂
      have hfinal : (slobCalls (c :: cs) t).2.pmm.memmap = rest₂ :=
        (slobCalls_memmap hready' rfl c cs).trans hmap'
      have hmaps := congrArg HeapView.memmap heq
      simp only [heapView, hfinal, hmap₁] at hmaps
      exact carve_ne (heapTable_pos hc₂ hcount') hc₂ (hmaps.trans hmap.symm)

/-- Without room for a table, neither way gets to a heap. -/
theorem initThenCalls_eq (h0 : s.init = false) (hcount : (usable s.pmm.memmap).length < 2 ^ 31)
    (hroom : NoHeapRoom s.pmm.memmap) (c : SlobCall) (cs : List SlobCall) :
    initThenCalls (c :: cs) s = slobCalls (c :: cs) s := by
  obtain ⟨hinit, hready⟩ := slobReady_halt h0 hcount (carve_eq_none.mpr hroom)
  rw [initThenCalls, hinit, slobCalls, slobCall_of_halt hready]

/--
**The heap is initialised twice.**

The explicit `slob_init` of `kernel_main` makes no difference to the map, the page counter and what
the calls return exactly if `kmem_init` halts or leaves no entry that can hold the table.
-/
theorem kernelHeap_eq_lazyHeap_iff (boot : Boot) (m : Memory)
    (hok : MemmapOk boot.hhdmOffset boot.memmap) (hcount : (usable boot.memmap).length < 2 ^ 31)
    (calls : List SlobCall) (hne : calls ≠ []) :
    kernelHeap boot m calls = lazyHeap boot m calls ↔
      ∀ s, kmemInit boot (Pmm.zero m) = .ret () s → NoHeapRoom s.memmap := by
  obtain ⟨c, cs, rfl⟩ := List.exists_cons_of_ne_nil hne
  rw [kernelHeap, lazyHeap, afterKmemInit, afterKmemInit]
  cases hinit : kmemInit boot (Pmm.zero m) with
  | halt t => simp
  | spin t => simp
  | ret u s =>
    obtain ⟨b, e, rest, hb⟩ := kmemInit_booted hok hinit
    have hcount' : (usable s.memmap).length < 2 ^ 31 := by
      rw [hb.usable_length_eq]
      exact hcount
    have hok' : MemmapOk (Slob.zero s).offset s.memmap := hb.memmapOk_offset hok
    constructor
    · intro heq t ht
      cases ht
      by_contra hroom
      exact initThenCalls_ne rfl hok' hb.max hcount' hroom c cs heq
    · intro h
      exact congrArg heapView (initThenCalls_eq (s := Slob.zero s) rfl hcount' (h s rfl) c cs)

/-- A map of two pages, which the bitmap and the entry table use up. -/
def twoPages : Boot where
  memmap := [⟨0x100000, 0x1000, .usable⟩, ⟨0x200000, 0x1000, .usable⟩]
  hhdmOffset := 0xffff800000000000

def twoPagesPmm : Pmm := (kmemInit twoPages (Pmm.zero fun _ => 0)).state?.get (by decide +kernel)

theorem kernelHeap_eq_lazyHeap_twoPages : kernelHeap twoPages (fun _ => 0) [.slobMalloc 100]
    = lazyHeap twoPages (fun _ => 0) [.slobMalloc 100] := by
  refine (kernelHeap_eq_lazyHeap_iff twoPages (fun _ => 0)
    ⟨List.Pairwise.imp Span.Clear.apart (by decide), by decide, by decide⟩ (by decide) _
    (by decide)).mpr fun s hs => ?_
  have hret : kmemInit twoPages (Pmm.zero fun _ => 0) = .ret () twoPagesPmm :=
    Outcome.eq_ret_of_state? _
  obtain rfl : s = twoPagesPmm := (Outcome.ret.inj (hs.symm.trans hret)).2
  decide +kernel

/-- On the machine of `sampleBoot`, the second initialisation takes the page at `0x103000`. -/
theorem kernelHeap_differs_sample :
    MemmapOk sampleBoot.hhdmOffset sampleBoot.memmap ∧ PageAligned sampleBoot.memmap ∧
      (kernelHeap sampleBoot (fun _ => 0) [.slobMalloc 100]).returned = [some 0xffff800000104008] ∧
      (lazyHeap sampleBoot (fun _ => 0) [.slobMalloc 100]).returned = [some 0xffff800000103008] ∧
      (kernelHeap sampleBoot (fun _ => 0) [.slobMalloc 100]).maxPagesAvailable = 20 ∧
      (lazyHeap sampleBoot (fun _ => 0) [.slobMalloc 100]).maxPagesAvailable = 21 ∧
      kernelHeap sampleBoot (fun _ => 0) [.slobMalloc 100]
        ≠ lazyHeap sampleBoot (fun _ => 0) [.slobMalloc 100] :=
  ⟨sampleBoot_ok, sampleBoot_aligned, by decide +kernel, by decide +kernel, by decide +kernel,
    by decide +kernel, by decide +kernel⟩

end BloreOs
