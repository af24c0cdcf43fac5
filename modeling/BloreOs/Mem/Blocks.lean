import BloreOs.Mem.Init

/-!
# Runs of the page allocator

A run is any sequence of `kalloc` calls and of `kfree` calls on blocks that are still live. Next to
the allocator it carries the list of live blocks, as its clients know them: the pointer and the
size of the request, together with the pages the call took.

`BlocksInv` ties the two together: the bits of the bitmap are those of `kmem_init` and those of
the live blocks, and the entry table holds exactly the live blocks. `BlocksInv.step` is the step
lemma, `pageAllocator_safe` what follows for runs.
-/

namespace BloreOs

open Loop

/-- A block that has been handed out and not been freed. -/
structure Block where
  ptr : Nat
  numBytes : Nat
  start : Nat
  pages : Nat
deriving DecidableEq, Repr

/-- The pages of a block. -/
def Block.span (b : Block) : Span := ⟨b.start, b.pages⟩

/-- The allocator and its live blocks. -/
structure PmmRun where
  pmm : Pmm
  live : List Block

inductive PmmOp where
  | kalloc (numBytes : Nat)
  | kfree (ptr : Nat)
deriving DecidableEq, Repr

/-- The block that a call of `kalloc` returned: where its pointer points, and how long the entry
table says it is. -/
def newBlock (s : Pmm) (ptr numBytes : Nat) : Block where
  ptr := ptr
  numBytes := numBytes
  start := getPageFromAddr s ptr
  pages := s.pagesAllocated (getPageFromAddr s ptr)

/-- One operation of a client. Requests are at least one byte and do not wrap when rounded up;
only pointers of live blocks are freed. -/
def PmmRun.step (h : PmmRun) : PmmOp → Option PmmRun
  | .kalloc n =>
    if 1 ≤ n ∧ n + 4095 < 2 ^ 64 then
      match kalloc n h.pmm with
      | .ret (some ptr) s => some ⟨s, newBlock s ptr n :: h.live⟩
      | .ret none s => some ⟨s, h.live⟩
      | _ => none
    else none
  | .kfree ptr =>
    match h.live.find? fun b => b.ptr = ptr with
    | none => none
    | some b =>
      match kfree ptr h.pmm with
      | .ret _ s => some ⟨s, h.live.erase b⟩
      | _ => none

/-- The state of a run right after `kmem_init`. -/
def PmmRun.start (s : Pmm) : PmmRun := ⟨s, []⟩

variable {s₀ : Pmm} {h h' : PmmRun} {b b' : Block} {i p k n : Nat}

/-- What a request may do. -/
theorem PmmRun.step_kalloc (hready : h.pmm.Ready) (hstep : h.step (.kalloc n) = some h') :
    1 ≤ n ∧ n + 4095 < 2 ^ 64 ∧
      ((∃ p c, p + (n + 4095) / 4096 ≤ h.pmm.maxPagesAvailable ∧
          FreeRun h.pmm.taken p ((n + 4095) / 4096) ∧ c < h.pmm.maxPagesAvailable ∧
          h' = ⟨kallocFound h.pmm p ((n + 4095) / 4096) c,
            newBlock (kallocFound h.pmm p ((n + 4095) / 4096) c) (getAddrFromPage h.pmm p) n
              :: h.live⟩) ∨
        h' = ⟨{ h.pmm with allocationCursor := 0 }, h.live⟩) := by
  rw [PmmRun.step] at hstep
  split at hstep
  · next hn =>
    rcases kalloc_cases hready hn.1 hn.2 with ⟨p, c, hp, hfree, hc, heq⟩ | ⟨-, heq⟩
    · rw [heq] at hstep
      exact ⟨hn.1, hn.2, Or.inl ⟨p, c, hp, hfree, hc, (Option.some.inj hstep).symm⟩⟩
    · rw [heq] at hstep
      exact ⟨hn.1, hn.2, Or.inr (Option.some.inj hstep).symm⟩
  · cases hstep

/-! ## The invariant -/

/-- What a run knows about one live block. -/
structure BlockOk (s₀ : Pmm) (b : Block) : Prop where
  ptr : b.ptr = getAddrFromPage s₀ b.start
  pos : 0 < b.pages
  enough : b.pages = (b.numBytes + 4095) / 4096
  le_max : b.start + b.pages ≤ s₀.maxPagesAvailable
  free : ∀ i, b.span.Has i → s₀.taken i = false

/-- Two states of the allocator for the same map. No operation of a run changes anything but the
contents of the tables, the cursor and the counter of free pages. -/
structure Pmm.SameMap (s s₀ : Pmm) : Prop where
  memmap : s.memmap = s₀.memmap
  offset : s.vmmHigherHalfOffset = s₀.vmmHigherHalfOffset
  lowest : s.lowestAddress = s₀.lowestAddress
  max : s.maxPagesAvailable = s₀.maxPagesAvailable
  pages : s.numPagesInMap = s₀.numPagesInMap
  bitmap : s.pageBitmap = s₀.pageBitmap
  table : s.entryMap = s₀.entryMap

theorem Pmm.SameMap.refl (s : Pmm) : s.SameMap s := ⟨rfl, rfl, rfl, rfl, rfl, rfl, rfl⟩

theorem Pmm.SameMap.getAddrFromPage {s s₀ : Pmm} (hs : s.SameMap s₀) (p : Nat) :
    getAddrFromPage s p = getAddrFromPage s₀ p := by
  rw [BloreOs.getAddrFromPage, BloreOs.getAddrFromPage, hs.lowest, hs.offset]

structure BlocksInv (s₀ : Pmm) (h : PmmRun) : Prop where
  ready : h.pmm.Ready
  same : h.pmm.SameMap s₀
  ok : ∀ b ∈ h.live, BlockOk s₀ b
  apart : h.live.Pairwise fun b b' => b.span.Apart b'.span
  bits : ∀ i < s₀.numPagesInMap,
    h.pmm.taken i = true ↔ s₀.taken i = true ∨ ∃ b ∈ h.live, b.span.Has i
  entries : ∀ b ∈ h.live, h.pmm.pagesAllocated b.start = b.pages
  noEntry : ∀ p < s₀.numPagesInMap, h.pmm.pagesAllocated p ≠ 0 → ∃ b ∈ h.live, b.start = p

namespace BlocksInv

variable (hinv : BlocksInv s₀ h)
include hinv

theorem max_le : s₀.maxPagesAvailable ≤ s₀.numPagesInMap := by
  rw [← hinv.same.max, ← hinv.same.pages]
  exact hinv.ready.max_le

/-- Blocks that start on the same page are the same block. -/
theorem eq_of_start (hb : b ∈ h.live) (hb' : b' ∈ h.live) (hs : b.start = b'.start) : b = b' := by
  by_contra hne
  have : Std.Symm fun b b' : Block => b.span.Apart b'.span := ⟨fun _ _ h1 => h1.symm⟩
  have hall := hinv.apart.forall hb hb' hne
  refine hall b.start ⟨Nat.le_refl _, ?_⟩ ⟨?_, ?_⟩
  · exact Nat.lt_add_of_pos_right (hinv.ok b hb).pos
  · exact Nat.le_of_eq hs.symm
  · have := (hinv.ok b' hb').pos
    show b.start < b'.start + b'.pages
    omega

/-- The page of a live block's pointer. -/
theorem page_of_ptr (hb : b ∈ h.live) : getPageFromAddr h.pmm b.ptr = b.start := by
  have h1 := (hinv.ok b hb).le_max
  have h2 := hinv.max_le
  have h3 := hinv.ready.pages_lt
  have h4 := hinv.same.pages
  have h5 := (hinv.ok b hb).pos
  rw [(hinv.ok b hb).ptr, ← hinv.same.getAddrFromPage]
  exact getPageFromAddr_getAddrFromPage (by omega)

/-- **`kfree` of a live block** returns, and clears the bits and the entry of that block. -/
theorem kfree_live (hb : b ∈ h.live) : kfree b.ptr h.pmm = .ret () (kfreed h.pmm b.start) := by
  have h1 := (hinv.ok b hb).le_max
  have h2 := hinv.max_le
  have h3 := (hinv.ok b hb).pos
  refine kfree_inBounds hinv.ready.toLaid hinv.ready.unlocked hinv.ready.max_le
    (hinv.page_of_ptr hb) ?_ ?_
  · rw [hinv.same.max]
    omega
  · rw [hinv.entries b hb, hinv.same.pages]
    omega

theorem taken_kfree (hb : b ∈ h.live) (hi : i < s₀.numPagesInMap) :
    (kfreed h.pmm b.start).taken i = (h.pmm.taken i && !decide (b.span.Has i)) := by
  have h1 := (hinv.ok b hb).le_max
  have h2 := hinv.max_le
  have h3 := (hinv.ok b hb).pos
  rw [taken_kfreed hinv.ready.toLaid (by rw [hinv.same.pages]; omega) (by rw [hinv.same.pages]; exact hi),
    hinv.entries b hb]
  rfl

theorem pagesAllocated_kfree (hb : b ∈ h.live) (hp : p < s₀.numPagesInMap) :
    (kfreed h.pmm b.start).pagesAllocated p = if p = b.start then 0 else h.pmm.pagesAllocated p := by
  have h1 := (hinv.ok b hb).le_max
  have h2 := hinv.max_le
  refine pagesAllocated_kfreed hinv.ready.toLaid ?_ (by rw [hinv.same.pages]; exact hp)
  rw [hinv.entries b hb, hinv.same.pages]
  omega

/-! ## The steps -/

/-- A reserved run of free pages becomes a live block. -/
theorem after_kalloc {c : Nat} (hn : 1 ≤ n) (hfew : s₀.numPagesInMap < 2 ^ 32)
    (hp : p + (n + 4095) / 4096 ≤ h.pmm.maxPagesAvailable)
    (hfree : FreeRun h.pmm.taken p ((n + 4095) / 4096)) (hc : c < h.pmm.maxPagesAvailable) :
    let s := kallocFound h.pmm p ((n + 4095) / 4096) c
    BlocksInv s₀ ⟨s, newBlock s (getAddrFromPage h.pmm p) n :: h.live⟩ := by
  intro s
  have hmax := hinv.max_le
  have hmaxeq := hinv.same.max
  have hlaid := hinv.ready.toLaid
  have hlt := hlaid.pages_lt
  have hN := hinv.same.pages
  have hk : 0 < (n + 4095) / 4096 := by omega
  have hpage : getPageFromAddr s (getAddrFromPage h.pmm p) = p :=
    getPageFromAddr_getAddrFromPage (s := s) (by omega)
  have hpages : s.pagesAllocated p = (n + 4095) / 4096 := by
    rw [pagesAllocated_kallocFound hlaid (by omega) (by omega), if_pos rfl]
    exact Nat.mod_eq_of_lt (by omega)
  have hnew : newBlock s (getAddrFromPage h.pmm p) n
      = ⟨getAddrFromPage h.pmm p, n, p, (n + 4095) / 4096⟩ := by
    rw [newBlock, hpage, hpages]
  rw [hnew]
  -- a page of the new block is a page of no other block
  have hnot : ∀ i, p ≤ i → i < p + (n + 4095) / 4096 →
      s₀.taken i = false ∧ ∀ b ∈ h.live, ¬ b.span.Has i := by
    intro i h1 h2
    have hi := hfree i h1 h2
    have hbit := hinv.bits i (by omega)
    rw [hi] at hbit
    constructor
    · by_contra hc
      exact absurd (hbit.mpr (Or.inl (by simpa using hc))) (by simp)
    · intro b hb hbi
      exact absurd (hbit.mpr (Or.inr ⟨b, hb, hbi⟩)) (by simp)
  constructor
  case ready =>
    exact { hlaid with unlocked := hinv.ready.unlocked, cursor_lt := hc, max_le := hinv.ready.max_le }
  case same =>
    exact { hinv.same with }
  case ok =>
    rw [List.forall_mem_cons]
    refine ⟨⟨?_, hk, rfl, ?_, fun i hi => (hnot i hi.1 hi.2).1⟩, hinv.ok⟩
    · exact hinv.same.getAddrFromPage p
    · show p + (n + 4095) / 4096 ≤ s₀.maxPagesAvailable
      omega
  case apart =>
    refine List.pairwise_cons.mpr ⟨fun b hb i hi => ?_, hinv.apart⟩
    exact (hnot i hi.1 hi.2).2 b hb
  case bits =>
    intro i hi
    show s.taken i = true ↔ _
    rw [taken_kallocFound hlaid (by omega) (by omega) (by omega), Bool.or_eq_true, decide_eq_true_iff,
      hinv.bits i hi]
    simp only [List.mem_cons, exists_eq_or_imp]
    rw [or_assoc]
    exact or_congr_right or_comm
  case entries =>
    rw [List.forall_mem_cons]
    refine ⟨hpages, fun b hb => ?_⟩
    have hok := hinv.ok b hb
    have hle := hok.le_max
    have hpos := hok.pos
    -- the new block starts on a free page, so not on the first page of a live block
    have hne : b.start ≠ p := by
      intro he
      exact (hnot p (by omega) (by omega)).2 b hb ⟨by show b.start ≤ p; omega, by
        show p < b.start + b.pages; omega⟩
    show s.pagesAllocated b.start = b.pages
    rw [pagesAllocated_kallocFound hlaid (by omega) (by omega), if_neg hne]
    exact hinv.entries b hb
  case noEntry =>
    intro q hq hne
    by_cases hqp : q = p
    · exact ⟨_, List.mem_cons_self, hqp.symm⟩
    · have hold : s.pagesAllocated q = h.pmm.pagesAllocated q := by
        rw [pagesAllocated_kallocFound hlaid (by omega) (by omega), if_neg hqp]
      obtain ⟨b, hb, hbq⟩ := hinv.noEntry q hq (by rw [← hold]; exact hne)
      exact ⟨b, List.mem_cons_of_mem _ hb, hbq⟩

/-- A live block is given back. -/
theorem after_kfree (hb : b ∈ h.live) : BlocksInv s₀ ⟨kfreed h.pmm b.start, h.live.erase b⟩ := by
  have hmax := hinv.max_le
  have hok := hinv.ok b hb
  have hle := hok.le_max
  have hpos := hok.pos
  have hnodup : h.live.Nodup := by
    refine hinv.apart.imp_of_mem ?_
    intro x y hx _ hxy he
    exact hxy x.start ⟨Nat.le_refl _, Nat.lt_add_of_pos_right (hinv.ok x hx).pos⟩
      (he ▸ ⟨Nat.le_refl _, Nat.lt_add_of_pos_right (hinv.ok x hx).pos⟩)
  have hmem : ∀ x, x ∈ h.live.erase b ↔ x ≠ b ∧ x ∈ h.live := fun x => hnodup.mem_erase_iff
  have : Std.Symm fun b b' : Block => b.span.Apart b'.span := ⟨fun _ _ h1 => h1.symm⟩
  constructor
  case ready =>
    exact { hinv.ready.toLaid with
      unlocked := hinv.ready.unlocked
      cursor_lt := hinv.ready.cursor_lt
      max_le := hinv.ready.max_le }
  case same =>
    exact { hinv.same with }
  case ok => exact fun x hx => hinv.ok x ((hmem x).mp hx).2
  case apart => exact hinv.apart.sublist List.erase_sublist
  case bits =>
    intro i hi
    show (kfreed h.pmm b.start).taken i = true ↔ _
    rw [hinv.taken_kfree hb hi, Bool.and_eq_true, hinv.bits i hi, Bool.not_eq_true', decide_eq_false_iff_not]
    constructor
    · rintro ⟨h0 | ⟨x, hx, hxi⟩, hni⟩
      · exact Or.inl h0
      · exact Or.inr ⟨x, (hmem x).mpr ⟨fun he => hni (he ▸ hxi), hx⟩, hxi⟩
    · rintro (h0 | ⟨x, hx, hxi⟩)
      · refine ⟨Or.inl h0, fun hbi => ?_⟩
        rw [hok.free i hbi] at h0
        cases h0
      · obtain ⟨hne, hx⟩ := (hmem x).mp hx
        exact ⟨Or.inr ⟨x, hx, hxi⟩, hinv.apart.forall hx hb hne i hxi⟩
  case entries =>
    intro x hx
    obtain ⟨hne, hx⟩ := (hmem x).mp hx
    have hxle := (hinv.ok x hx).le_max
    have hxpos := (hinv.ok x hx).pos
    show (kfreed h.pmm b.start).pagesAllocated x.start = x.pages
    rw [hinv.pagesAllocated_kfree hb (by omega), if_neg fun he => hne (hinv.eq_of_start hx hb he)]
    exact hinv.entries x hx
  case noEntry =>
    intro q hq hne
    have hkf := hinv.pagesAllocated_kfree hb hq
    by_cases hqb : q = b.start
    · rw [if_pos hqb] at hkf
      exact absurd hkf hne
    · rw [if_neg hqb] at hkf
      obtain ⟨x, hx, hxq⟩ := hinv.noEntry q hq (by rw [← hkf]; exact hne)
      exact ⟨x, (hmem x).mpr ⟨fun he => hqb (by rw [← hxq, he]), hx⟩, hxq⟩

/-- A call that leaves the tables and the lock as they are keeps the invariant. -/
theorem congr {t : Pmm} (hready : t.Ready) (hsame : t.SameMap s₀)
    (hbits : ∀ i < s₀.numPagesInMap, t.taken i = h.pmm.taken i)
    (hentries : ∀ p < s₀.numPagesInMap, t.pagesAllocated p = h.pmm.pagesAllocated p) :
    BlocksInv s₀ ⟨t, h.live⟩ where
  ready := hready
  same := hsame
  ok := hinv.ok
  apart := hinv.apart
  bits := fun i hi => by rw [hbits i hi]; exact hinv.bits i hi
  entries := fun b hb => by
    have hle := (hinv.ok b hb).le_max
    have hpos := (hinv.ok b hb).pos
    have hmax := hinv.max_le
    rw [hentries b.start (by omega)]
    exact hinv.entries b hb
  noEntry := fun p hp hne => hinv.noEntry p hp (by rw [← hentries p hp]; exact hne)

/-- A call that only moves the cursor. -/
theorem moveCursor {c : Nat} (hc : c < h.pmm.maxPagesAvailable) :
    BlocksInv s₀ ⟨{ h.pmm with allocationCursor := c }, h.live⟩ :=
  hinv.congr { hinv.ready with cursor_lt := hc } { hinv.same with } (fun _ _ => rfl) fun _ _ => rfl

/-- What giving back a block does. -/
theorem step_kfree {ptr : Nat} (hstep : h.step (.kfree ptr) = some h') :
    ∃ b ∈ h.live, b.ptr = ptr ∧ h' = ⟨kfreed h.pmm b.start, h.live.erase b⟩ := by
  rw [PmmRun.step] at hstep
  split at hstep
  · cases hstep
  · next b hfind =>
    have hb := List.mem_of_find?_eq_some hfind
    have hptr : b.ptr = ptr := by simpa using List.find?_some hfind
    rw [← hptr, hinv.kfree_live hb] at hstep
    exact ⟨b, hb, hptr, (Option.some.inj hstep).symm⟩

/-- **Every operation keeps the invariant.** -/
theorem step (hfew : s₀.numPagesInMap < 2 ^ 32) {op : PmmOp} (hstep : h.step op = some h') :
    BlocksInv s₀ h' := by
  cases op with
  | kalloc n =>
    obtain ⟨hn, -, ⟨p, c, hp, hfree, hc, rfl⟩ | rfl⟩ := PmmRun.step_kalloc hinv.ready hstep
    · exact hinv.after_kalloc hn hfew hp hfree hc
    · exact hinv.moveCursor (Nat.zero_lt_of_lt hinv.ready.cursor_lt)
  | kfree ptr =>
    obtain ⟨b, hb, -, rfl⟩ := hinv.step_kfree hstep
    exact hinv.after_kfree hb

end BlocksInv

/-! ## Whole runs -/

theorem Booted.blocksInv {boot : Boot} {m : Memory} {c e : Nat} {rest : List MemmapEntry}
    (hb : Booted boot m s₀ c e rest) (hok : MemmapOk boot.hhdmOffset boot.memmap)
    (hcap : s₀.numPagesInMap ≤ 8 * bitmapSize s₀.numPagesInMap)
    (hmax : 1 ≤ s₀.maxPagesAvailable) : BlocksInv s₀ (PmmRun.start s₀) where
  ready := hb.ready hok hcap hmax
  same := Pmm.SameMap.refl s₀
  ok := by simp [PmmRun.start]
  apart := List.Pairwise.nil
  bits := by simp [PmmRun.start]
  entries := by simp [PmmRun.start]
  noEntry := fun _ hp hne => absurd (hb.pagesAllocated_eq_zero hok hcap hp) hne

/--
**Safety of the page allocator.**

After any run of `kalloc` and valid `kfree` calls, live blocks are disjoint, large enough and made
of pages that `kmem_init` had marked free; the bitmap and the entry table describe exactly the live
blocks; freeing a live block changes its own bits and entry only. No allowed request gets stuck.
-/
theorem pageAllocator_safe (boot : Boot) (m : Memory) (s₀ : Pmm)
    (hok : MemmapOk boot.hhdmOffset boot.memmap)
    (hinit : kmemInit boot (Pmm.zero m) = .ret () s₀)
    (hcap : s₀.numPagesInMap ≤ 8 * bitmapSize s₀.numPagesInMap)
    (hfew : s₀.numPagesInMap < 2 ^ 32) (hmax : 1 ≤ s₀.maxPagesAvailable)
    (ops : List PmmOp) (h : PmmRun) (hrun : run PmmRun.step ops (PmmRun.start s₀) = some h) :
    h.live.Pairwise (fun b b' => b.span.Apart b'.span) ∧
      (∀ b ∈ h.live, b.ptr = getAddrFromPage s₀ b.start ∧ (b.numBytes + 4095) / 4096 ≤ b.pages ∧
        ∀ i, b.span.Has i → i < s₀.numPagesInMap ∧ s₀.taken i = false) ∧
      (∀ i < s₀.numPagesInMap,
        h.pmm.taken i = true ↔ s₀.taken i = true ∨ ∃ b ∈ h.live, b.span.Has i) ∧
      (∀ p < s₀.numPagesInMap,
        (∀ k, 0 < k → (h.pmm.pagesAllocated p = k ↔ ∃ b ∈ h.live, b.start = p ∧ b.pages = k)) ∧
        (h.pmm.pagesAllocated p = 0 ↔ ∀ b ∈ h.live, b.start ≠ p)) ∧
      (∀ b ∈ h.live, ∃ t, kfree b.ptr h.pmm = .ret () t ∧
        (∀ i < s₀.numPagesInMap, t.taken i = (h.pmm.taken i && !decide (b.span.Has i))) ∧
        ∀ p < s₀.numPagesInMap,
          t.pagesAllocated p = if p = b.start then 0 else h.pmm.pagesAllocated p) ∧
      ∀ n, 1 ≤ n → n + 4095 < 2 ^ 64 → ∃ r t, kalloc n h.pmm = .ret r t := by
  obtain ⟨c, e, rest, hb⟩ := kmemInit_booted hok hinit
  have hinv : BlocksInv s₀ h := run_invariant (BlocksInv s₀) (fun _ _ _ hi hs => hi.step hfew hs) ops
    (hb.blocksInv hok hcap hmax) hrun
  refine ⟨hinv.apart, fun b hb => ⟨(hinv.ok b hb).ptr, (hinv.ok b hb).enough.ge, fun i hi => ?_⟩,
    hinv.bits, fun p hp => ⟨fun k hk => ⟨fun he => ?_, ?_⟩, fun h0 b hb hbp => ?_, fun hno => ?_⟩,
    fun b hb => ⟨_, hinv.kfree_live hb, fun i hi => hinv.taken_kfree hb hi,
      fun p hp => hinv.pagesAllocated_kfree hb hp⟩, fun n hn hn64 => ?_⟩
  · have hlt : i < b.start + b.pages := hi.2
    have := (hinv.ok b hb).le_max
    have := hinv.max_le
    exact ⟨by omega, (hinv.ok b hb).free i hi⟩
  · obtain ⟨b, hb, rfl⟩ := hinv.noEntry p hp (by omega)
    exact ⟨b, hb, rfl, by rw [← hinv.entries b hb, he]⟩
  · rintro ⟨b, hb, rfl, rfl⟩
    exact hinv.entries b hb
  · have := (hinv.ok b hb).pos
    rw [← hbp, hinv.entries b hb] at h0
    omega
  · by_contra hne
    obtain ⟨b, hb, hbp⟩ := hinv.noEntry p hp hne
    exact hno b hb hbp
  · rcases kalloc_cases hinv.ready hn hn64 with ⟨p, c, -, -, -, heq⟩ | ⟨-, heq⟩
    · exact ⟨_, _, heq⟩
    · exact ⟨_, _, heq⟩

/-- Three blocks, the middle one freed and its page used again. -/
def sampleOps : List PmmOp :=
  [.kalloc 5000, .kalloc 1, .kalloc 4096, .kfree (0xffff800000100000 + 4 * 4096),
    .kalloc (16 * 4096), .kalloc 4096]

def sampleRun : PmmRun := (run PmmRun.step sampleOps (PmmRun.start samplePmm)).get (by decide +kernel)

theorem pageAllocator_safe_sample :
    sampleRun.live.Pairwise (fun b b' => b.span.Apart b'.span) ∧ sampleRun.live.length = 3 :=
  ⟨(pageAllocator_safe sampleBoot (fun _ => 0) samplePmm sampleBoot_ok sample_kmemInit
      (by decide +kernel) (by decide +kernel) (by decide +kernel) sampleOps sampleRun
      (Option.some_get _).symm).1,
    by decide +kernel⟩

end BloreOs
