import BloreOs.Mem.Init
import BloreOs.Slob.Basic

/-!
# The scan bound under all allocators

`kalloc` stops its scan when the cursor is equal to `max_pages_available`. The bound is not fixed:
`memmap_alloc` lowers it, at any time, and the first `slob_malloc` calls `memmap_alloc`. The cursor
is not adjusted. A cursor that is passed by the bound does not meet it before it has gone through
all 64-bit page numbers.

* `CarveOk` — the condition under which lowering the bound does not pass the cursor,
* `cursor_runs_iff` — a run keeps the scan in bounds exactly if every step meets `CallOk`.
-/

namespace BloreOs

open Loop

/-- The calls of the kernel into its memory managers. -/
inductive SysOp where
  | kalloc (numBytes : Nat)
  | kfree (ptr : Nat)
  | memmapAlloc (length : Nat)
  | slobMalloc (size : Nat)
deriving DecidableEq, Repr

/-- One call, by whoever makes it. There is no next state after a halt. -/
def Slob.step (s : Slob) : SysOp → Option Slob
  | .kalloc n =>
    if 1 ≤ n then (kalloc n s.pmm).state?.map fun pmm => { s with pmm := pmm } else none
  | .kfree ptr => (kfree ptr s.pmm).state?.map fun pmm => { s with pmm := pmm }
  | .memmapAlloc length => (memmapAlloc length s.pmm).state?.map fun pmm => { s with pmm := pmm }
  | .slobMalloc size => (slobMalloc size s).state?

/-- The cursor is below the bound, and the bound within the map. -/
def Pmm.CursorOk (s : Pmm) : Prop :=
  (1 ≤ s.maxPagesAvailable → s.allocationCursor < s.maxPagesAvailable) ∧
    s.maxPagesAvailable ≤ s.numPagesInMap

/-- The scan of `kalloc n` looks at pages of the map only and ends within two passes. -/
def Pmm.ScanOk (s : Pmm) (n : Nat) : Prop :=
  (∀ k x, headAt (scanBody s.taken s.maxPagesAvailable (divRoundup n pageSize)) k
      (scanStart s.allocationCursor) = some x → x.cursor < s.numPagesInMap) ∧
    ∃ r, loop (scanBody s.taken s.maxPagesAvailable (divRoundup n pageSize))
      (2 * s.maxPagesAvailable) (scanStart s.allocationCursor) = some r

/-- What every call of a run should find: a cursor in bounds, and a safe scan if it makes one. -/
def Slob.CallSafe (s : Slob) (op : SysOp) : Prop :=
  s.pmm.CursorOk ∧ ∀ n, op = .kalloc n → s.pmm.ScanOk n

/-- A carve of `length` bytes takes all pages that are left, or leaves more than the cursor. -/
def Pmm.CarveOk (s : Pmm) (length : Nat) : Prop :=
  alignUp length pageSize / pageSize = s.maxPagesAvailable ∨
    s.allocationCursor + alignUp length pageSize / pageSize < s.maxPagesAvailable

/-- The condition on a call: a scan needs a page below the bound, and a carve must not take the
page under the cursor away. -/
def Slob.CallOk (s : Slob) : SysOp → Prop
  | .kalloc _ => 1 ≤ s.pmm.maxPagesAvailable
  | .kfree _ => True
  | .memmapAlloc length => s.pmm.CarveOk length
  | .slobMalloc _ => s.init = true ∨ s.pmm.CarveOk (mul64 24 (usable s.pmm.memmap).length)

variable {s t : Slob} {p q : Pmm} {op : SysOp} {n length : Nat}

/-! ## What the calls do to the bound -/

/-- What holds of the counters as long as the cursor is in bounds. -/
structure Pmm.Counted (p : Pmm) : Prop where
  ok : MemmapOk p.vmmHigherHalfOffset p.memmap
  max : p.maxPagesAvailable = usablePages p.memmap
  pages_lt : p.numPagesInMap < 2 ^ 52
  unlocked : p.lock = false

/-- Memory does not matter here. -/
theorem Pmm.Counted.setMem (h : p.Counted) (m : Memory) : ({ p with mem := m } : Pmm).Counted :=
  ⟨h.ok, h.max, h.pages_lt, h.unlocked⟩

/-- A carve lowers the bound by the pages it takes. -/
theorem Pmm.Counted.memmapAlloc (h : p.Counted) {a : Nat}
    (hret : memmapAlloc length p = .ret a q) : q.Counted ∧
      q.maxPagesAvailable + alignUp length pageSize / pageSize = p.maxPagesAvailable ∧
      q.allocationCursor = p.allocationCursor ∧ q.numPagesInMap = p.numPagesInMap := by
  cases hc : carve (alignUp length pageSize) p.memmap with
  | none =>
    rw [memmapAlloc_halt hc] at hret
    cases hret
  | some r =>
    obtain ⟨b, rest⟩ := r
    rw [memmapAlloc_eq h.ok h.max hc] at hret
    cases hret
    have hpages := carve_usablePages (alignUp_mod length) hc
    have hmax := h.max
    refine ⟨⟨h.ok.carve hc, rfl, h.pages_lt, h.unlocked⟩, ?_, rfl, rfl⟩
    show usablePages rest + alignUp length pageSize / pageSize = p.maxPagesAvailable
    omega

/-- Lowering the bound keeps the cursor below it exactly under `CarveOk`. -/
theorem cursorOk_carve_iff (hp : p.CursorOk)
    (hmax : q.maxPagesAvailable + alignUp length pageSize / pageSize = p.maxPagesAvailable)
    (hcur : q.allocationCursor = p.allocationCursor) (hN : q.numPagesInMap = p.numPagesInMap) :
    q.CursorOk ↔ p.CarveOk length := by
  have hle := hp.2
  rw [Pmm.CursorOk, Pmm.CarveOk, hcur, hN]
  generalize alignUp length pageSize / pageSize = pages at hmax
  constructor
  · rintro ⟨h1, -⟩
    by_cases h0 : q.maxPagesAvailable = 0
    · exact Or.inl (by omega)
    · exact Or.inr (by have := h1 (by omega); omega)
  · rintro (h | h)
    · exact ⟨fun h1 => by omega, by omega⟩
    · exact ⟨fun _ => by omega, by omega⟩

/-! ## `kalloc` -/

/-- With the cursor below the bound the scan is safe, and without a page it is not. -/
theorem scanOk_iff (h : p.Counted) (hp : p.CursorOk) (n : Nat) :
    p.ScanOk n ↔ 1 ≤ p.maxPagesAvailable := by
  have hN := h.pages_lt
  obtain ⟨hcur, hle⟩ := hp
  constructor
  · rintro ⟨-, r, hr⟩
    by_contra h0
    rw [show p.maxPagesAvailable = 0 by omega] at hr
    cases hr
  · intro hpos
    have hbound := scanBound_of_pos hpos
    have hc := hcur hpos
    rw [← hbound] at hc
    refine ⟨fun k x hx => ?_, ?_⟩
    · have := scan_cursor_lt hc (by omega) hx
      omega
    · obtain ⟨r, hr, -⟩ := scan_ends p.taken (divRoundup n pageSize) hc (by omega)
      rw [hbound] at hr
      exact ⟨r, hr⟩

/-- `kalloc` leaves the counters as they are and the cursor below the bound. -/
theorem Pmm.Counted.kalloc (h : p.Counted) (hp : p.CursorOk) (hpos : 1 ≤ p.maxPagesAvailable)
    (hret : (kalloc n p).state? = some q) : q.Counted ∧ q.CursorOk := by
  have hN := h.pages_lt
  obtain ⟨hcur, hle⟩ := hp
  have hbound := scanBound_of_pos hpos
  obtain ⟨r, hr, hspec⟩ := kalloc_spec h.unlocked (by rw [hbound]; exact hcur hpos) (by omega) n
  rw [hr] at hret
  cases r with
  | found a k c =>
    obtain ⟨-, -, -, -, hc⟩ := hspec
    rw [hbound] at hc
    cases hret
    exact ⟨⟨h.ok, h.max, h.pages_lt, h.unlocked⟩, fun _ => hc, hle⟩
  | failed c =>
    obtain ⟨hc, -⟩ := hspec
    rw [hbound] at hc
    cases hret
    exact ⟨⟨h.ok, h.max, h.pages_lt, h.unlocked⟩, fun _ => hc, hle⟩

/-! ## Runs -/

/-- The rest of `slob_malloc`, after the lazy initialisation, only writes memory. -/
theorem slobFind_frame {size : Nat} (h : (slobFind size s).state? = some t) :
    t.pmm = { s.pmm with mem := t.mem } ∧ t.init = s.init := by
  rw [slobFind] at h
  split at h
  · cases h
  · cases h
    exact ⟨rfl, rfl⟩
  · cases h
    exact ⟨rfl, rfl⟩

/-- `slob_malloc` lowers the bound like `memmap_alloc` if it is the first one. -/
theorem slobMalloc_counted {size : Nat} (h : s.pmm.Counted) (hp : s.pmm.CursorOk)
    (hret : (slobMalloc size s).state? = some t) :
    t.pmm.Counted ∧ (t.pmm.CursorOk ↔ s.CallOk (.slobMalloc size)) := by
  cases hinit : s.init with
  | true =>
    rw [slobMalloc, slobReady, if_pos hinit, Outcome.ret_bind] at hret
    obtain ⟨hpmm, -⟩ := slobFind_frame hret
    rw [hpmm]
    exact ⟨h.setMem _, fun _ => Or.inl hinit, fun _ => hp⟩
  | false =>
    have hcall : s.CallOk (.slobMalloc size)
        ↔ s.pmm.CarveOk (mul64 24 (usable s.pmm.memmap).length) := by
      simp [Slob.CallOk, hinit]
    rw [slobMalloc, slobReady, if_neg (by simp [hinit]), slobInit] at hret
    cases hm : memmapAlloc (mul64 24 (usable s.pmm.memmap).length) s.pmm with
    | ret a q =>
      simp only [hm, Outcome.ret_bind] at hret
      obtain ⟨hpmm, -⟩ := slobFind_frame hret
      obtain ⟨hq, hmax, hcur, hN⟩ := h.memmapAlloc hm
      have hiff := cursorOk_carve_iff hp hmax hcur hN
      rw [hpmm, hcall]
      exact ⟨hq.setMem _, hiff⟩
    | halt q =>
      simp only [hm, Outcome.halt_bind] at hret
      cases hret
    | spin q =>
      simp only [hm, Outcome.spin_bind] at hret
      cases hret

/-- **One call.** From a state in bounds, the next one is in bounds exactly if the call is, and a
scan is safe exactly if its call is. -/
theorem call_iff (h : s.pmm.Counted) (hp : s.pmm.CursorOk) (hstep : s.step op = some t) :
    ((∀ n, op = .kalloc n → s.pmm.ScanOk n) ∧ t.pmm.CursorOk ↔ s.CallOk op) ∧
      (s.CallOk op → t.pmm.Counted) := by
  cases op with
  | kalloc n =>
    have hscan := scanOk_iff h hp n
    have hnext : s.CallOk (.kalloc n) → t.pmm.Counted ∧ t.pmm.CursorOk := by
      intro hpos
      rw [Slob.step] at hstep
      split at hstep
      · obtain ⟨q, hq, heq⟩ := Option.map_eq_some_iff.mp hstep
        rw [← heq]
        exact h.kalloc hp hpos hq
      · cases hstep
    refine ⟨⟨fun hsafe => hscan.mp (hsafe.1 n rfl), fun hpos => ⟨?_, (hnext hpos).2⟩⟩,
      fun hpos => (hnext hpos).1⟩
    rintro m heq
    cases heq
    exact hscan.mpr hpos
  | kfree ptr =>
    rw [Slob.step] at hstep
    obtain ⟨q, hq, heq⟩ := Option.map_eq_some_iff.mp hstep
    obtain ⟨_, hk⟩ := Outcome.state?_eq_some.mp hq
    have hframe := kfree_frame hk h.unlocked
    rw [← heq, hframe]
    refine ⟨⟨fun _ => trivial, fun _ => ⟨fun n hn => (by cases hn), hp⟩⟩, fun _ => h.setMem _⟩
  | memmapAlloc length =>
    rw [Slob.step] at hstep
    obtain ⟨q, hq, heq⟩ := Option.map_eq_some_iff.mp hstep
    obtain ⟨a, hm⟩ := Outcome.state?_eq_some.mp hq
    obtain ⟨hc, hmax, hcur, hN⟩ := h.memmapAlloc hm
    have hiff := cursorOk_carve_iff hp hmax hcur hN
    rw [← heq]
    exact ⟨⟨fun hs => hiff.mp hs.2, fun hok => ⟨fun n hn => (by cases hn), hiff.mpr hok⟩⟩,
      fun _ => hc⟩
  | slobMalloc size =>
    obtain ⟨hc, hiff⟩ := slobMalloc_counted h hp hstep
    exact ⟨⟨fun hs => hiff.mp hs.2, fun hok => ⟨fun n hn => (by cases hn), hiff.mpr hok⟩⟩,
      fun _ => hc⟩

/--
**When scans stay in bounds and end.**

In a run from `kmem_init`, the cursor is below the bound and the bound within the map in every
state, and every `kalloc` looks at pages of the map only and ends within two passes, exactly if
every call of the run meets `CallOk`. Then a `kalloc` that comes next does so, too, if there is a page
below the bound.
-/
theorem cursor_runs_iff (boot : Boot) (m : Memory) (s₀ : Pmm)
    (hok : MemmapOk boot.hhdmOffset boot.memmap)
    (hinit : kmemInit boot (Pmm.zero m) = .ret () s₀) (hmax : 1 ≤ s₀.maxPagesAvailable)
    (ops : List SysOp) (t : Slob) :
    (RunIf Slob.step Slob.CallSafe ops (Slob.zero s₀) t ∧ t.pmm.CursorOk ↔
      RunIf Slob.step Slob.CallOk ops (Slob.zero s₀) t) ∧
    (RunIf Slob.step Slob.CallOk ops (Slob.zero s₀) t → 1 ≤ t.pmm.maxPagesAvailable →
      ∀ n, 1 ≤ n → t.pmm.ScanOk n) := by
  obtain ⟨b, e, rest, hb⟩ := kmemInit_booted hok hinit
  have hcounted : (Slob.zero s₀).pmm.Counted :=
    ⟨hb.memmapOk_offset hok, hb.max, hb.pages_lt, hb.unlocked⟩
  have hcursor : (Slob.zero s₀).pmm.CursorOk := by
    refine ⟨fun _ => ?_, hb.max_le hok⟩
    show s₀.allocationCursor < s₀.maxPagesAvailable
    rw [hb.cursor]
    exact hmax
  refine ⟨runIf_iff_of_step (fun s => s.pmm.Counted) (fun s => s.pmm.CursorOk)
    (fun s op => ∀ n, op = .kalloc n → s.pmm.ScanOk n) (fun _ _ _ h hp hstep => call_iff h hp hstep)
    ops hcounted hcursor, fun hrun hpos n _ => ?_⟩
  obtain ⟨hc, hp⟩ := runIf_invariant (fun s : Slob => s.pmm.Counted ∧ s.pmm.CursorOk)
    (fun s op t hs hC hstep => ⟨(call_iff hs.1 hs.2 hstep).2 hC, ((call_iff hs.1 hs.2 hstep).1.mpr hC).2⟩)
    ops ⟨hcounted, hcursor⟩ hrun
  exact (scanOk_iff hc hp n).mpr hpos

/-- A page is allocated, and the first `slob_malloc` takes a page for its table. -/
def sampleKalloc : Slob := ((Slob.zero samplePmm).step (.kalloc 4096)).get (by decide +kernel)

def sampleSlobMalloc : Slob := (sampleKalloc.step (.slobMalloc 10)).get (by decide +kernel)

theorem cursor_runs_sample : RunIf Slob.step Slob.CallSafe [.kalloc 4096, .slobMalloc 10]
    (Slob.zero samplePmm) sampleSlobMalloc ∧ sampleSlobMalloc.pmm.CursorOk := by
  refine (cursor_runs_iff sampleBoot (fun _ => 0) samplePmm sampleBoot_ok sample_kmemInit
    (by decide +kernel) [.kalloc 4096, .slobMalloc 10] sampleSlobMalloc).1.mpr ⟨?_, sampleKalloc,
    (Option.some_get _).symm, Or.inr ?_, sampleSlobMalloc, (Option.some_get _).symm, rfl⟩
  · show 1 ≤ samplePmm.maxPagesAvailable
    decide +kernel
  · unfold Pmm.CarveOk
    decide +kernel

/-- 15 pages are allocated, then 5 pages are carved. -/
def samplePassed : Slob :=
  (run Slob.step [.kalloc 61440, .memmapAlloc 20480] (Slob.zero samplePmm)).get (by decide +kernel)

/-- The bound comes down to the cursor. A request of 8 pages now looks at page 36 of a map of 36
pages. -/
theorem cursor_passed_sample :
    MemmapOk sampleBoot.hhdmOffset sampleBoot.memmap ∧
      kmemInit sampleBoot (Pmm.zero fun _ => 0) = .ret () samplePmm ∧
      1 ≤ samplePmm.maxPagesAvailable ∧
      run Slob.step [.kalloc 61440, .memmapAlloc 20480] (Slob.zero samplePmm) = some samplePassed ∧
      samplePassed.pmm.allocationCursor = 17 ∧ samplePassed.pmm.maxPagesAvailable = 17 ∧
      ¬ samplePassed.pmm.CursorOk ∧ ¬ samplePassed.pmm.ScanOk 32768 := by
  have hcur : samplePassed.pmm.allocationCursor = 17 := by decide +kernel
  have hmax : samplePassed.pmm.maxPagesAvailable = 17 := by decide +kernel
  have hN : samplePassed.pmm.numPagesInMap = 36 := by decide +kernel
  have hhead : headAt (scanBody samplePassed.pmm.taken samplePassed.pmm.maxPagesAvailable
      (divRoundup 32768 pageSize)) 19 (scanStart samplePassed.pmm.allocationCursor)
      = some ⟨36, 32, 4, false, true⟩ := by decide +kernel
  refine ⟨sampleBoot_ok, sample_kmemInit, by decide +kernel, (Option.some_get _).symm, hcur, hmax,
    fun h => ?_, fun h => ?_⟩
  · have := h.1 (by omega)
    omega
  · have hlt := h.1 19 _ hhead
    rw [hN] at hlt
    exact absurd hlt (by decide)

end BloreOs
