import BloreOs.Mem.Blocks
import BloreOs.Mem.Exact

/-!
# The counter of free pages

`num_pages_available` is kept next to the bitmap by hand: `_get_free_pages` counts it up, `kalloc`
counts it down, and `kfree` does not touch it. It is therefore right as long as nothing is freed
(`freePages_kallocFound`), and wrong from the first `kfree` on (`BlocksInv.freePages_kfree`).
`numPagesAvailable_accounted` states both directions for runs.
-/

namespace BloreOs

open Loop

variable {s s₀ : Pmm} {h : PmmRun} {b : Block} {p k c : Nat}

/-- The number of 0 bits among the pages of the map. -/
def Pmm.freePages (s : Pmm) : Nat := Nat.count (fun i => s.taken i = false) s.numPagesInMap

/-- The counter agrees with the bitmap. -/
def Pmm.Accounted (s : Pmm) : Prop := s.numPagesAvailable = s.freePages

instance : Decidable s.Accounted := inferInstanceAs (Decidable (_ = _))

/-- A successful `kalloc` takes as many 0 bits as it has pages. -/
theorem freePages_kallocFound (hs : s.Laid) (hp : p < s.numPagesInMap)
    (hk : p + k ≤ s.numPagesInMap) (hfree : FreeRun s.taken p k) :
    s.freePages = (kallocFound s p k c).freePages + k := by
  refine Span.count_or_has (r := ⟨p, k⟩) hk (fun i hi => ?_) fun i hi => ?_
  · rw [taken_kallocFound hs hp hk hi]
    by_cases hin : p ≤ i ∧ i < p + k
    · simp [hin, hfree i hin.1 hin.2, Span.Has]
    · simp [hin, Span.Has]
  · have hi' : p ≤ i ∧ i < p + k := hi
    rw [taken_kallocFound hs hp hk (by omega)]
    simp [hi']

/-- A `kfree` of a live block makes its pages free again. -/
theorem BlocksInv.freePages_kfree (hinv : BlocksInv s₀ h) (hb : b ∈ h.live) :
    (kfreed h.pmm b.start).freePages = h.pmm.freePages + b.pages := by
  have hle := (hinv.ok b hb).le_max
  have hmax := hinv.max_le
  have hN := hinv.same.pages
  refine Span.count_or_has (r := b.span) ?_ (fun i hi => ?_) fun i hi => ?_
  · show b.start + b.pages ≤ h.pmm.numPagesInMap
    omega
  · have hi' : i < s₀.numPagesInMap := by rw [← hN]; exact hi
    rw [hinv.taken_kfree hb hi']
    by_cases hin : b.span.Has i
    · simp [hin]
    · simp [hin]
  · have hi' : i < b.start + b.pages := hi.2
    have hbit := (hinv.bits i (by omega)).mpr (Or.inr ⟨b, hb, hi⟩)
    rw [hbit]
    simp

/-- The counter is right when `kmem_init` returns. -/
theorem Booted.accounted {boot : Boot} {m : Memory} {d e : Nat} {rest : List MemmapEntry}
    (hb : Booted boot m s d e rest) (hok : MemmapOk boot.hhdmOffset boot.memmap)
    (hal : PageAligned boot.memmap) (hcap : s.numPagesInMap ≤ 8 * bitmapSize s.numPagesInMap) :
    s.Accounted := by
  rw [Pmm.Accounted, hb.available, ← hb.count_marked hok hal, Pmm.freePages]
  refine Span.count_congr fun i hi => ?_
  rw [hb.taken_iff hok hcap hi]

/-! ## Runs -/

/-- `kalloc` keeps the counter right. -/
theorem accounted_kalloc {h' : PmmRun} {n : Nat} (hs : h.pmm.Ready ∧ h.pmm.Accounted)
    (hstep : h.step (.kalloc n) = some h') : h'.pmm.Ready ∧ h'.pmm.Accounted := by
  obtain ⟨hready, hacc⟩ := hs
  have hmax := hready.max_le
  have hcur := hready.cursor_lt
  have hlt := hready.pages_lt
  obtain ⟨hn, hn64, ⟨p, c, hp, hfree, hc, rfl⟩ | rfl⟩ := PmmRun.step_kalloc hready hstep
  · have hcount := freePages_kallocFound (c := c) hready.toLaid (by omega) (by omega) hfree
    have hle : h.pmm.freePages ≤ h.pmm.numPagesInMap := Nat.count_le _
    refine ⟨{ hready.toLaid with
      unlocked := hready.unlocked, cursor_lt := hc, max_le := hready.max_le }, ?_⟩
    show sub64 h.pmm.numPagesAvailable _ = (kallocFound h.pmm p _ c).freePages
    rw [hacc, sub64_eq (by omega) (by omega)]
    exact Nat.sub_eq_of_eq_add hcount
  · exact ⟨{ hready.toLaid with
      unlocked := hready.unlocked, cursor_lt := Nat.zero_lt_of_lt hcur, max_le := hready.max_le },
      hacc⟩

/-- A `kfree` step leaves the counter as it was and the bitmap with more 0 bits. -/
theorem BlocksInv.not_accounted_kfree {h' : PmmRun} {ptr : Nat} (hinv : BlocksInv s₀ h)
    (hacc : h.pmm.Accounted) (hstep : h.step (.kfree ptr) = some h') : ¬ h'.pmm.Accounted := by
  obtain ⟨b, hb, -, rfl⟩ := hinv.step_kfree hstep
  have hmore := hinv.freePages_kfree hb
  have hpos := (hinv.ok b hb).pos
  intro hacc'
  have h1 : h.pmm.numPagesAvailable = h.pmm.freePages := hacc
  have h2 : h.pmm.numPagesAvailable = (kfreed h.pmm b.start).freePages := hacc'
  omega

/-- A run that is accounted for throughout frees nothing. -/
theorem BlocksInv.no_kfree_of_accounted (hfew : s₀.numPagesInMap < 2 ^ 32) :
    ∀ (ops : List PmmOp) {h t : PmmRun}, BlocksInv s₀ h → run PmmRun.step ops h = some t →
      Throughout PmmRun.step (fun h => h.pmm.Accounted) ops h → ∀ ptr, .kfree ptr ∉ ops
  | [], _, _, _, _, _ => fun _ => List.not_mem_nil
  | op :: ops, h, t, hinv, hrun, hall => by
    obtain ⟨r, hr, hrest⟩ := run_cons_eq_some.mp hrun
    have hacc := hall.2 r hr
    have ih := no_kfree_of_accounted hfew ops (hinv.step hfew hr) hrest hacc
    intro ptr hmem
    rcases List.mem_cons.mp hmem with rfl | hmem
    · refine hinv.not_accounted_kfree hall.1 hr ?_
      cases ops with
      | nil => exact hacc
      | cons _ _ => exact hacc.1
    · exact ih ptr hmem

/--
**When the counter of free pages is right.**

Throughout every run without `kfree`, `num_pages_available` is the number of 0 bits among the pages
of the map. Conversely a run that ever calls `kfree` reaches a state in which it is not.
-/
theorem numPagesAvailable_accounted (boot : Boot) (m : Memory) (s₀ : Pmm)
    (hok : MemmapOk boot.hhdmOffset boot.memmap) (hal : PageAligned boot.memmap)
    (hinit : kmemInit boot (Pmm.zero m) = .ret () s₀)
    (hcap : s₀.numPagesInMap ≤ 8 * bitmapSize s₀.numPagesInMap)
    (hmax : 1 ≤ s₀.maxPagesAvailable) (ops : List PmmOp) :
    ((∀ ptr, .kfree ptr ∉ ops) →
      Throughout PmmRun.step (fun h => h.pmm.Accounted) ops (PmmRun.start s₀)) ∧
    (s₀.numPagesInMap < 2 ^ 32 → (∃ t, run PmmRun.step ops (PmmRun.start s₀) = some t) →
      Throughout PmmRun.step (fun h => h.pmm.Accounted) ops (PmmRun.start s₀) →
      ∀ ptr, .kfree ptr ∉ ops) := by
  obtain ⟨d, e, rest, hb⟩ := kmemInit_booted hok hinit
  constructor
  · intro hno
    refine Throughout.imp (fun _ hs => hs.2) ops (throughout_of_step
      (fun h => h.pmm.Ready ∧ h.pmm.Accounted) (fun op => ∀ ptr, op ≠ .kfree ptr) ?_ ops
      ⟨hb.ready hok hcap hmax, hb.accounted hok hal hcap⟩ ?_)
    · intro h op h' hs hop hstep
      cases op with
      | kalloc n => exact accounted_kalloc hs hstep
      | kfree ptr => exact absurd rfl (hop ptr)
    · intro op hop ptr he
      exact hno ptr (he ▸ hop)
  · rintro hfew ⟨t, ht⟩ hall
    exact BlocksInv.no_kfree_of_accounted hfew ops (hb.blocksInv hok hcap hmax) ht hall

theorem numPagesAvailable_accounted_sample : Throughout PmmRun.step (fun h => h.pmm.Accounted)
    [.kalloc 1, .kalloc 70000] (PmmRun.start samplePmm) :=
  (numPagesAvailable_accounted sampleBoot (fun _ => 0) samplePmm sampleBoot_ok sampleBoot_aligned
    sample_kmemInit (by decide +kernel) (by decide +kernel) [.kalloc 1, .kalloc 70000]).1 (by simp)

/-- One page allocated and freed again: 22 bits are 0, the counter says 21. -/
theorem numPagesAvailable_not_restored :
    MemmapOk sampleBoot.hhdmOffset sampleBoot.memmap ∧ PageAligned sampleBoot.memmap ∧
      kmemInit sampleBoot (Pmm.zero fun _ => 0) = .ret () samplePmm ∧
      ∃ h, run PmmRun.step [.kalloc 1, .kfree 0xffff800000102000] (PmmRun.start samplePmm) = some h ∧
        h.pmm.freePages = 22 ∧ h.pmm.numPagesAvailable = 21 ∧ ¬ h.pmm.Accounted := by
  refine ⟨sampleBoot_ok, sampleBoot_aligned, sample_kmemInit,
    (run PmmRun.step [.kalloc 1, .kfree 0xffff800000102000] (PmmRun.start samplePmm)).get
      (by decide +kernel), (Option.some_get _).symm, ?_, ?_, ?_⟩
  · decide +kernel
  · decide +kernel
  · decide +kernel

end BloreOs
