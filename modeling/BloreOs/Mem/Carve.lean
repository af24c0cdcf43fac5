import BloreOs.Mem.Init

/-!
# Carving in any order

The boot code takes memory from the map by `memmap_alloc`, and once by `_create_page_bitmap`, which
has a copy of the same loop. Here any number of such requests come in any order, on a map of which
nothing is known but that its usable entries are disjoint: they may be unaligned, empty, start at
address 0 or end at the last address.

* `CarveInv.carve` — one request,
* `carving_sound` — what holds after any number of them.
-/

namespace BloreOs

open Loop

variable {boot : Boot} {m : Memory} {s t : Pmm} {es rest : List MemmapEntry} {size b n : Nat}

/-- A range that has been handed out, with the length that was asked for. -/
structure Carved where
  span : Span
  length : Nat
deriving DecidableEq, Repr

/-- The map and the ranges that have been taken from it. -/
structure CarveRun where
  pmm : Pmm
  ranges : List Carved

inductive CarveOp where
  | memmapAlloc (length : Nat)
  | createPageBitmap
deriving DecidableEq, Repr

/-- One request. A `memmap_alloc` that finds no room halts the CPU and has no next state. The ranges
are those that the returned pointer and `page_bitmap` point to. -/
def CarveRun.step (h : CarveRun) : CarveOp → Option CarveRun
  | .memmapAlloc length =>
    if length + 4095 < 2 ^ 64 then
      match memmapAlloc length h.pmm with
      | .ret p s =>
        some ⟨s, ⟨⟨sub64 p s.vmmHigherHalfOffset, alignUp length pageSize⟩, length⟩ :: h.ranges⟩
      | _ => none
    else none
  | .createPageBitmap =>
    match carve (bitmapSize h.pmm.numPagesInMap) h.pmm.memmap with
    | none => some ⟨createPageBitmap h.pmm, h.ranges⟩
    | some _ =>
      let s := createPageBitmap h.pmm
      some ⟨s, ⟨⟨sub64 s.pageBitmap s.vmmHigherHalfOffset, bitmapSize s.numPagesInMap⟩,
        s.numPagesInMap / 8⟩ :: h.ranges⟩

/-- Every address of the range belongs to one usable entry of the map. -/
def InUsable (es : List MemmapEntry) (r : Span) : Prop :=
  ∃ e ∈ usable es, ∀ a, r.Has a → e.span.Has a

/-- What is true after some requests to the map `es`. -/
structure CarveInv (es : List MemmapEntry) (h : CarveRun) : Prop where
  map : MemmapApart h.pmm.memmap
  pages_lt : h.pmm.numPagesInMap < 2 ^ 52
  max : h.pmm.maxPagesAvailable = usablePages h.pmm.memmap
  cover : ∀ a, Span.cover (h.ranges.map Carved.span) a + Span.cover (usableSpans h.pmm.memmap) a
    = Span.cover (usableSpans es) a
  left : ∀ e ∈ usable h.pmm.memmap, InUsable es e.span
  ranges : ∀ r ∈ h.ranges, r.span.len % pageSize = 0 ∧ r.length ≤ r.span.len ∧ InUsable es r.span

/-! ## `_init_stats` -/

/-- The page counter of `_init_stats` needs nothing to be known about the map. -/
theorem foldl_initStatsEntry_max : ∀ (es : List MemmapEntry) (s : Pmm),
    s.maxPagesAvailable < 2 ^ 64 →
    (es.foldl initStatsEntry s).maxPagesAvailable = (s.maxPagesAvailable + usablePages es) % 2 ^ 64 ∧
      (es.foldl initStatsEntry s).memmap = s.memmap
  | [], s, hs => ⟨(Nat.mod_eq_of_lt hs).symm, rfl⟩
  | e :: es, s, hs => by
    rw [List.foldl_cons]
    by_cases hu : e.type = .usable
    · have hentry : (initStatsEntry s e).maxPagesAvailable
          = add64 s.maxPagesAvailable (e.length / pageSize) ∧ (initStatsEntry s e).memmap = s.memmap := by
        rw [initStatsEntry, if_pos hu]
        exact ⟨rfl, rfl⟩
      obtain ⟨hmax, hmap⟩ := foldl_initStatsEntry_max es (initStatsEntry s e)
        (by rw [hentry.1]; exact Nat.mod_lt _ (by decide))
      rw [hmax, hmap, hentry.1, usablePages_cons_of_pos hu, add64, Nat.mod_add_mod, Nat.add_assoc]
      exact ⟨rfl, hentry.2⟩
    · rw [show initStatsEntry s e = s from if_neg hu, usablePages_cons_of_neg hu]
      exact foldl_initStatsEntry_max es s hs

/-- **After `_init_stats` nothing has been taken.** -/
theorem carveInv_initStats (hok : MemmapApart boot.memmap) (m : Memory) :
    CarveInv boot.memmap ⟨initStats boot (Pmm.zero m), []⟩ := by
  obtain ⟨hmax, hmap⟩ := foldl_initStatsEntry_max boot.memmap
    { Pmm.zero m with memmap := boot.memmap, vmmHigherHalfOffset := boot.hhdmOffset }
    (by decide : 0 < 2 ^ 64)
  have hmap' : (initStats boot (Pmm.zero m)).memmap = boot.memmap := hmap
  have hlt := usablePages_lt hok
  constructor
  case map =>
    rw [hmap']
    exact hok
  case pages_lt =>
    exact Nat.div_lt_of_lt_mul (sub64_lt _ _)
  case max =>
    rw [hmap']
    refine hmax.trans ?_
    show (0 + usablePages boot.memmap) % 2 ^ 64 = _
    omega
  case cover =>
    intro a
    rw [hmap']
    simp
  case left =>
    rw [hmap']
    exact fun e he => ⟨e, he, fun _ ha => ha⟩
  case ranges => simp

/-! ## One request -/

/-- What is left of an entry lies in the entry. -/
theorem MemmapEntry.has_of_advance {e : MemmapEntry} {a : Nat} (hr : e.base + e.length ≤ 2 ^ 64)
    (hl : size ≤ e.length) (h : (e.advance size).span.Has a) : e.span.Has a := by
  have h1 : add64 e.base size ≤ a := h.1
  have h2 : a < add64 e.base size + (e.length - size) := h.2
  show e.base ≤ a ∧ a < e.base + e.length
  unfold add64 at h1 h2
  omega

namespace CarveInv

variable {h h' : CarveRun} (hinv : CarveInv es h)
include hinv

/-- The base of a carved range is a 64-bit address. -/
theorem base_lt (hc : carve size h.pmm.memmap = some (b, rest)) : b < 2 ^ 64 := by
  obtain ⟨e, he, hbase, -⟩ := carve_span hc
  rw [← hbase]
  exact (hinv.map.inRange e he).1

/-- **Taking `size` bytes, whole pages, for a request of `n`.** -/
theorem carve (hsize : size % pageSize = 0) (hn : n ≤ size)
    (hc : BloreOs.carve size h.pmm.memmap = some (b, rest)) (hmap : t.memmap = rest)
    (hpages : t.numPagesInMap = h.pmm.numPagesInMap)
    (hmax : t.maxPagesAvailable = sub64 h.pmm.maxPagesAvailable (size / pageSize)) :
    CarveInv es ⟨t, ⟨⟨b, size⟩, n⟩ :: h.ranges⟩ := by
  obtain ⟨e, he, hbase, hle⟩ := carve_span hc
  constructor
  case map =>
    rw [hmap]
    exact hinv.map.carve hc
  case pages_lt => exact hpages.trans_lt hinv.pages_lt
  case max =>
    rw [hmax, hmap, hinv.max, sub64_usablePages hinv.map hsize hc]
  case cover =>
    intro a
    have hcover := hinv.map.carve_cover hc a
    have hold := hinv.cover a
    rw [Span.cover_cons, Span.cover_nil] at hcover
    rw [hmap, List.map_cons, Span.cover_cons]
    show (_ + if (⟨b, size⟩ : Span).Has a then 1 else 0) + _ = _
    omega
  case left =>
    rw [hmap]
    refine forall_usable_carve hc (fun x hx hl => ?_) hinv.left
    rintro ⟨e₀, he₀, hin⟩
    exact ⟨e₀, he₀, fun a ha => hin a (MemmapEntry.has_of_advance (hinv.map.inRange x hx).2 hl ha)⟩
  case ranges =>
    rw [List.forall_mem_cons]
    obtain ⟨e₀, he₀, hin⟩ := hinv.left e he
    refine ⟨⟨hsize, hn, e₀, he₀, fun a ha => hin a ⟨?_, ?_⟩⟩, hinv.ranges⟩
    · rw [MemmapEntry.span, hbase]
      exact ha.1
    · have hlt : a < b + size := ha.2
      show a < e.base + e.length
      omega

/-- **Every request keeps the invariant.** -/
theorem step {op : CarveOp} (hstep : h.step op = some h') : CarveInv es h' := by
  cases op with
  | memmapAlloc length =>
    rw [CarveRun.step] at hstep
    split at hstep
    · next hlen =>
      cases hc : BloreOs.carve (alignUp length pageSize) h.pmm.memmap with
      | none =>
        rw [memmapAlloc_halt hc] at hstep
        cases hstep
      | some r =>
        obtain ⟨b, rest⟩ := r
        simp only [memmapAlloc, hc, sub64_add64_cancel (hinv.base_lt hc)] at hstep
        cases hstep
        exact hinv.carve (alignUp_mod length) (le_alignUp hlen) hc rfl rfl rfl
    · cases hstep
  | createPageBitmap =>
    cases hc : BloreOs.carve (bitmapSize h.pmm.numPagesInMap) h.pmm.memmap with
    | none =>
      simp only [CarveRun.step, createPageBitmap, hc] at hstep
      cases hstep
      exact hinv
    | some r =>
      obtain ⟨b, rest⟩ := r
      simp only [CarveRun.step, createPageBitmap, hc, sub64_add64_cancel (hinv.base_lt hc)] at hstep
      cases hstep
      have hlt := hinv.pages_lt
      exact hinv.carve (alignUp_mod _) (le_alignUp (by omega)) hc rfl rfl rfl

/-- The ranges and what is left of the map cover nothing twice. -/
theorem cover_le_one (hok : MemmapApart es) (a : Nat) : Span.cover (h.ranges.map Carved.span) a +
    Span.cover (usableSpans h.pmm.memmap) a ≤ 1 := by
  rw [hinv.cover a]
  exact Span.cover_le_one hok.apart a

end CarveInv

/-! ## Any number of requests -/

/--
**Carving is sound.**

After `_init_stats` and any sequence of requests, the ranges that were handed out are whole pages, as
long as requested, inside a usable entry of the original map, and disjoint from each other and from
what is left. The page counter is that of the map that is left. A further `memmap_alloc` returns if
some usable entry has room for it; otherwise it halts, and nothing has changed.
-/
theorem carving_sound (boot : Boot) (m : Memory) (hok : MemmapApart boot.memmap)
    (ops : List CarveOp) (h : CarveRun)
    (hrun : run CarveRun.step ops ⟨initStats boot (Pmm.zero m), []⟩ = some h) :
    (∀ r ∈ h.ranges,
      r.span.len % pageSize = 0 ∧ r.length ≤ r.span.len ∧ InUsable boot.memmap r.span) ∧
      (h.ranges.map Carved.span).Pairwise Span.Apart ∧
      (∀ r ∈ h.ranges, ∀ e ∈ usable h.pmm.memmap, r.span.Apart e.span) ∧
      h.pmm.maxPagesAvailable = usablePages h.pmm.memmap ∧
      ∀ length, length + 4095 < 2 ^ 64 →
        ((∃ e ∈ usable h.pmm.memmap, alignUp length pageSize ≤ e.length) →
          ∃ p s, memmapAlloc length h.pmm = .ret p s) ∧
        ((∀ e ∈ usable h.pmm.memmap, e.length < alignUp length pageSize) →
          memmapAlloc length h.pmm = .halt h.pmm) := by
  have hinv : CarveInv boot.memmap h := run_invariant (CarveInv boot.memmap)
    (fun _ _ _ hi hs => hi.step hs) ops (carveInv_initStats hok m) hrun
  refine ⟨hinv.ranges, Span.pairwise_of_cover_le_one fun a => ?_, fun r hr e he => ?_, hinv.max,
    fun length _ => ⟨?_, fun hnone => memmapAlloc_halt (carve_eq_none.mpr hnone)⟩⟩
  · have hone := hinv.cover_le_one hok a
    omega
  · exact Span.apart_of_cover_le_one _ _ (hinv.cover_le_one hok) (List.mem_map_of_mem hr)
      (List.mem_map_of_mem he)
  · rintro ⟨e, he, hle⟩
    cases hc : carve (alignUp length pageSize) h.pmm.memmap with
    | none =>
      have hlt := carve_eq_none.mp hc e he
      omega
    | some r =>
      simp only [memmapAlloc, hc]
      exact ⟨_, _, rfl⟩

/-- An unaligned map, with an entry at address 0. -/
def unalignedBoot : Boot where
  memmap := [⟨0, 5000, .usable⟩, ⟨0x2345, 20000, .usable⟩]
  hhdmOffset := 0xffff800000000000

def carvedRun : CarveRun :=
  (run CarveRun.step [.memmapAlloc 5000, .createPageBitmap, .memmapAlloc 1, .memmapAlloc 0]
    ⟨initStats unalignedBoot (Pmm.zero fun _ => 0), []⟩).get (by decide +kernel)

theorem carving_sound_sample : carvedRun.ranges.map Carved.span
      = [⟨4096, 0⟩, ⟨0, 4096⟩, ⟨0, 0⟩, ⟨0x2345, 8192⟩] ∧
    (carvedRun.ranges.map Carved.span).Pairwise Span.Apart ∧
    carvedRun.pmm.maxPagesAvailable = 2 := by
  have hok : MemmapApart unalignedBoot.memmap :=
    ⟨List.Pairwise.imp Span.Clear.apart (by decide), by decide⟩
  exact ⟨by decide +kernel, (carving_sound unalignedBoot (fun _ => 0) hok _ carvedRun
    (Option.some_get _).symm).2.1, by decide +kernel⟩

end BloreOs
