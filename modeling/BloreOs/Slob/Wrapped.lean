import BloreOs.Slob.Cycle

/-!
# Cycles of a size that wraps

From `n = 2 ^ 64 - 8` on the sum of `n` and the 8 bytes of the header wraps to a number `w` below 8.
`slob_malloc(n)` takes `w` bytes from an entry, writes a header of 8 bytes there, and the record of
the block then lies behind these `w` bytes. The two blocks overlap: the header of the record is
written over the upper bytes of the first header, and `slob_free` finds a length there that covers
its own record.

* `Settled` — the pool after such a cycle: the first entry gives both blocks of the next cycle, and
  every further cycle leaves what it found (`Settled.slobCycle`),
* `SlobInv.slobCycle_settles` — a first entry with bytes leads there,
* `Empties` — for `w = 0` a first entry without bytes leads nowhere, unless another entry starts at
  the same address (`Empties.slobCycle_cases`).

`slobCycles_forever_iff` puts them together: which sizes can be allocated and freed for ever.
-/

namespace BloreOs

open Loop Chain Memory

variable {P : Pool} {s t : Slob} {heap : List Nat} {n w base size : Nat}

/-! ## Blocks that overlap -/

/-- The first entry of the list is what a cycle of `n` bytes leaves: `base` is where the block's
header was, and the record lies behind it, in the bytes that the entry describes. -/
structure Settled (w base : Nat) (s : Slob) : Prop where
  init : s.init = true
  pHead : s.pHead = base + w + 8 + s.offset
  span : entrySpan s.mem s.pHead = ⟨base, w + 256 ^ w * 32⟩
  inRange : base + w + 32 + s.offset < 2 ^ 64

/-- A header of 32 that is written `w` bytes behind a header of `w`. -/
theorem load_header_overlap {m : Memory} {a : Nat} (hw : w < 8) (h : m.load a 8 = w) :
    (m.store (a + w) 8 32).load a 8 = w + 256 ^ w * 32 := by
  have hlow : m.load a w = w := by
    have hsplit := load_add m w (8 - w) a
    rw [Nat.add_sub_cancel' (by omega), h] at hsplit
    have hpow : w < 256 ^ w := Nat.lt_pow_self (by decide)
    have hrest : m.load (a + w) (8 - w) = 0 := by
      by_contra hne
      have hle := Nat.le_mul_of_pos_right (256 ^ w) (Nat.pos_of_ne_zero hne)
      omega
    rw [hrest] at hsplit
    omega
  have hbyte : 32 < 256 ^ (8 - w) :=
    Nat.lt_of_lt_of_le (by decide) (Nat.pow_le_pow_right (by decide) (show 1 ≤ 8 - w by omega))
  have hload := load_store_overlap (m := m) (a := a) (k := w) (v := 32) (show 8 - w ≤ 8 by omega)
  rw [Nat.add_sub_cancel' (by omega), hlow, Nat.mod_eq_of_lt hbyte] at hload
  exact hload

theorem header_overlap_lt (hw : w < 8) : w + 256 ^ w * 32 < 2 ^ 64 := by
  have hle : 256 ^ w ≤ 256 ^ 7 := Nat.pow_le_pow_right (by decide) (by omega)
  omega

/-- The sum with the header in the order of the fit test and in the order of the split. -/
theorem add64_comm (a b : Nat) : add64 a b = add64 b a := congrArg (· % 2 ^ 64) (Nat.add_comm a b)

theorem slobSplit_wrapped {q : Nat} (hw : add64 n 8 = w) (hfit : w ≤ entryLength s.mem q)
    (hrange : entryBase s.mem q + w + 32 + s.offset < 2 ^ 64)
    (hcell : entryBase s.mem q + s.offset ≤ q ∨ q + 24 ≤ entryBase s.mem q + s.offset) :
    slobSplit s n q
      = (entryBase s.mem q + 8 + s.offset, s.setMem (cutMem s.mem s.offset q w)) := by
  rw [slobSplit_eq_cutMem (by rw [add64_comm, hw]) hfit (by omega) (by omega) hcell,
    add64_eq (show entryBase s.mem q + 8 < 2 ^ 64 by omega), add64_eq (by omega)]

/-- **The record of a block of `w` bytes.** The entry at `q` starts behind these bytes. -/
theorem settled_slobLink {q : Nat} (hw : w < 8) (hinit : s.init = true)
    (hheader : s.mem.load (base + s.offset) 8 = w) (hbase : entryBase s.mem q = base + w)
    (hfit : 32 ≤ entryLength s.mem q) (hrange : base + w + 32 + s.offset < 2 ^ 64)
    (hcell : base + w + s.offset + 8 ≤ q ∨ q + 24 ≤ base + s.offset) :
    (slobSplit s 24 q).1 = base + w + 8 + s.offset ∧
      Settled w base (slobLink (slobSplit s 24 q).2 (base + s.offset) (base + w + 8 + s.offset)) := by
  have hsplit : slobSplit s 24 q = (add64 (add64 (entryBase s.mem q) 8) s.offset,
      s.setMem (cutMem s.mem s.offset q 32)) :=
    slobSplit_eq_cutMem rfl hfit (by omega) (by omega) (by omega)
  rw [hbase, add64_eq (show base + w + 8 < 2 ^ 64 by omega),
    add64_eq (show base + w + 8 + s.offset < 2 ^ 64 by omega)] at hsplit
  generalize hm : cutMem s.mem s.offset q 32 = m at hsplit
  -- the header of the record is written over the header of the block
  have hload : m.load (base + s.offset) 8 = w + 256 ^ w * 32 := by
    rw [← hm, cutMem, hbase, load_store_disjoint (by omega), load_store_disjoint (by omega),
      Nat.add_right_comm base w]
    exact load_header_overlap hw hheader
  have hapart : base + s.offset ≤ base + w + 8 + s.offset := by omega
  have hlink := slobLink_eq_linkMem (s := s.setMem m) (show base + s.offset < 2 ^ 64 by omega) hload
    (Or.inl hapart)
  rw [hsplit]
  refine ⟨rfl, ?_⟩
  rw [show (base + w + 8 + s.offset, s.setMem m).2 = s.setMem m from rfl,
    show base + s.offset = base + (s.setMem m).offset from rfl, hlink]
  exact ⟨hinit, rfl, linkMem_span (by omega) (header_overlap_lt hw), hrange⟩

/-- **A cycle whose blocks overlap.** The entry at `q` gives the block, and the entry at `q'`, which
starts behind the bytes of the block, gives the record. -/
theorem slobCycle_overlap {q q' : Nat} (hw : add64 n 8 = w) (hw8 : w < 8) (hinit : s.init = true)
    (hbase : entryBase s.mem q = base) (hfit : w ≤ entryLength s.mem q)
    (hmalloc : slobMalloc n s = .ret (slobSplit s n q).1 (slobSplit s n q).2)
    (hrange : base + w + 32 + s.offset < 2 ^ 64)
    (hcell : base + s.offset ≤ q ∨ q + 24 ≤ base + s.offset)
    (hnode : ∀ t, t = s.setMem (cutMem s.mem s.offset q w) →
      entryBase t.mem q' = base + w ∧ 32 ≤ entryLength t.mem q' ∧
        slobMalloc 24 t = .ret (slobSplit t 24 q').1 (slobSplit t 24 q').2)
    (hcell' : base + w + s.offset + 8 ≤ q' ∨ q' + 24 ≤ base + s.offset) :
    ∃ u, slobCycle n s = some u ∧ Settled w base u := by
  subst hbase
  rw [slobSplit_wrapped hw hfit hrange hcell] at hmalloc
  obtain ⟨t, ht⟩ : ∃ t, t = s.setMem (cutMem s.mem s.offset q w) := ⟨_, rfl⟩
  obtain ⟨hbase', hfit', hnode⟩ := hnode t ht
  have hoff : t.offset = s.offset := by rw [ht]; rfl
  have hheader : t.mem.load (entryBase s.mem q + t.offset) 8 = w := by
    rw [ht]
    exact cutMem_header (by omega) hcell
  obtain ⟨hptr, hsettled⟩ := settled_slobLink hw8 (by rw [ht]; exact hinit) hheader hbase' hfit'
    (by omega) (by omega)
  rw [← ht] at hmalloc
  rw [hptr] at hnode
  have hcycle := slobCycle_eq hmalloc (by omega) hnode (by omega)
  rw [sub64_eq (by omega) (by omega), show entryBase s.mem q + 8 + s.offset - 8
    = entryBase s.mem q + t.offset by omega, ← hptr] at hcycle
  rw [← hptr] at hsettled
  exact ⟨_, hcycle, hsettled⟩

/-- `slob_malloc` takes the first entry of the list if it fits, whatever comes behind it. -/
theorem slobMalloc_first (hinit : s.init = true) (hne : s.pHead ≠ 0)
    (hfit : add64 size 8 ≤ entryLength s.mem s.pHead) :
    slobMalloc size s = .ret (slobSplit s size s.pHead).1 (slobSplit s size s.pHead).2 := by
  have hbody : search (entryFits s.mem size) (pNext s.mem) s.pHead = .inr (some s.pHead) := by
    simp [search, hne, entryFits, hfit]
  have hloop : loop (search (entryFits s.mem size) (pNext s.mem)) (2 ^ 64) s.pHead
      = some (some s.pHead) := loop_mono (loop_inr hbody 0) (by decide)
  rw [slobMalloc, slobReady, if_pos hinit, Outcome.ret_bind, slobFind, hloop]

/-- **Every further cycle leaves what it found.** -/
theorem Settled.slobCycle (h : Settled w base s) (hw : add64 n 8 = w) (hw8 : w < 8) :
    ∃ u, BloreOs.slobCycle n s = some u ∧ Settled w base u := by
  obtain ⟨hbase, hlen⟩ := entrySpan_eq_iff.mp h.span
  have hpow : 0 < 256 ^ w := Nat.pow_pos (by decide)
  have hlt := header_overlap_lt hw8
  have hhead := h.pHead
  have hrange := h.inRange
  have hmalloc : BloreOs.slobMalloc n s = .ret (slobSplit s n s.pHead).1 (slobSplit s n s.pHead).2 :=
    slobMalloc_first h.init (by omega) (by omega)
  have hcell : base + w + s.offset + 8 ≤ s.pHead ∨ s.pHead + 24 ≤ base + s.offset := by omega
  refine slobCycle_overlap hw hw8 h.init hbase (by omega) hmalloc h.inRange (by omega) ?_ hcell
  intro t ht
  have hspan : entrySpan t.mem s.pHead = ⟨base + w, 256 ^ w * 32⟩ := by
    have hcut : entrySpan (cutMem s.mem s.offset s.pHead w) s.pHead
        = ⟨entryBase s.mem s.pHead + w, entryLength s.mem s.pHead - w⟩ :=
      cutMem_span (by omega) (by omega)
    rw [hbase, hlen, Nat.add_sub_cancel_left] at hcut
    rw [ht]
    exact hcut
  obtain ⟨hbase', hlen'⟩ := entrySpan_eq_iff.mp hspan
  have hhead' : t.pHead = s.pHead := by rw [ht]; rfl
  have hfit : add64 24 8 ≤ entryLength t.mem t.pHead := by
    rw [hhead', hlen']
    show 32 ≤ 256 ^ w * 32
    omega
  have hnode := slobMalloc_first (by rw [ht]; exact h.init) (by omega) hfit
  rw [hhead'] at hnode
  exact ⟨hbase', by omega, hnode⟩

/-- From then on every cycle succeeds. -/
theorem slobCycles_of_settles (hw : add64 n 8 = w) (hw8 : w < 8) {u : Slob}
    (hcycle : slobCycle n s = some u) (hu : Settled w base u) : ∀ k, (slobCycles n k s).isSome
  | 0 => rfl
  | k + 1 => by
    rw [slobCycles, hcycle, Option.bind_some]
    exact slobCycles_isSome (Settled w base) (fun _ hs => hs.slobCycle hw hw8) k u hu

/-! ## A first entry with bytes -/

/-- Every entry is empty or has a page. -/
def Pool.EmptyOrPage (P : Pool) (m : Memory) (heap : List Nat) : Prop :=
  ∀ x ∈ P.records heap,
    entryLength m (x + P.offset) = 0 ∨ pageSize ≤ entryLength m (x + P.offset)

section

variable (hinv : SlobInv P s [] heap) (hw : add64 n 8 = w) (hw8 : w < 8)
  (hpages : P.EmptyOrPage s.mem heap) {x : Nat} (hx : x ∈ P.records heap)
  (hfind : ((P.records heap).map fun x => x + P.offset).find? (entryFits s.mem n)
    = some (x + P.offset)) (hpos : 0 < entryLength s.mem (x + P.offset))
include hinv hw hw8 hpages hx hfind hpos

/-- The entries in front of the one that `slob_malloc` takes are empty, so the rest of it gives the
record, too. -/
theorem SlobInv.find?_cutMem :
    ((P.records heap).map fun x => x + P.offset).find?
        (entryFits (cutMem s.mem P.offset (x + P.offset) w) 24) = some (x + P.offset) := by
  have hlen : 4096 ≤ entryLength s.mem (x + P.offset) := (hpages x hx).resolve_left (by omega)
  have hrange := (hinv.entry_inRange hx hpos).2
  have hspan : entrySpan (cutMem s.mem P.offset (x + P.offset) w) (x + P.offset)
      = ⟨entryBase s.mem (x + P.offset) + w, entryLength s.mem (x + P.offset) - w⟩ :=
    cutMem_span (by omega) (by omega)
  have hlen' := (entrySpan_eq_iff.mp hspan).2
  have hnode : add64 24 8 = 32 := rfl
  rw [List.find?_eq_some_iff_append] at hfind ⊢
  obtain ⟨-, front, back, hlist, hfront⟩ := hfind
  refine ⟨?_, front, back, hlist, fun p hp => ?_⟩
  · rw [entryFits, hlen', hnode, decide_eq_true_eq]
    omega
  · have hnot := hfront p hp
    have hmem : p ∈ (P.records heap).map fun x => x + P.offset := by
      rw [hlist]
      exact List.mem_append_left _ hp
    obtain ⟨y, hy, rfl⟩ := List.mem_map.mp hmem
    rw [entryFits, hw, Bool.not_eq_true', decide_eq_false_iff_not] at hnot
    have hzero : entryLength s.mem (y + P.offset) = 0 := (hpages y hy).resolve_right fun hle => by
      have : 4096 ≤ entryLength s.mem (y + P.offset) := hle
      omega
    have hyx : y ≠ x := by
      rintro rfl
      omega
    have hsame : entryLength (cutMem s.mem P.offset (x + P.offset) w) (y + P.offset)
        = entryLength s.mem (y + P.offset) :=
      (hinv.sameOn_record hx (by omega) hy hyx).load (by omega) (by omega)
    rw [entryFits, hnode, hsame, hzero]
    rfl

/-- **The first cycle settles** if the entry that `slob_malloc` takes has bytes. -/
theorem SlobInv.slobCycle_settles : ∃ u base, slobCycle n s = some u ∧ Settled w base u := by
  have hlen : 4096 ≤ entryLength s.mem (x + P.offset) := (hpages x hx).resolve_left (by omega)
  have hrange := (hinv.entry_inRange hx hpos).2
  have hself := hinv.entry_clear_record hx hpos hx
  have hoff := hinv.offset
  have hmalloc : BloreOs.slobMalloc n s = .ret (slobSplit s n (x + P.offset)).1
      (slobSplit s n (x + P.offset)).2 := by
    rw [slobMalloc_of_path hinv.init hinv.path hinv.path_length_lt, hfind]
  have hnode : ∀ t, t = s.setMem (cutMem s.mem s.offset (x + P.offset) w) →
      entryBase t.mem (x + P.offset) = entryBase s.mem (x + P.offset) + w ∧
        32 ≤ entryLength t.mem (x + P.offset) ∧
        BloreOs.slobMalloc 24 t = .ret (slobSplit t 24 (x + P.offset)).1
          (slobSplit t 24 (x + P.offset)).2 := by
    intro t ht
    have hmem : t.mem = cutMem s.mem P.offset (x + P.offset) w := by
      rw [ht, hoff]
      rfl
    have hspan : entrySpan t.mem (x + P.offset) = ⟨entryBase s.mem (x + P.offset) + w,
        entryLength s.mem (x + P.offset) - w⟩ := by
      rw [hmem]
      exact cutMem_span (by omega) (by omega)
    obtain ⟨hbase, hlen'⟩ := entrySpan_eq_iff.mp hspan
    have hpath : Path (pNext t.mem) t.pHead ((P.records heap).map fun x => x + P.offset) := by
      have hhead : t.pHead = s.pHead := by
        rw [ht]
        rfl
      rw [hhead, hmem]
      exact hinv.path_cutMem hx (by omega)
    have hfind' := hinv.find?_cutMem hw hw8 hpages hx hfind hpos
    rw [← hmem] at hfind'
    refine ⟨hbase, by omega, ?_⟩
    rw [slobMalloc_of_path (by rw [ht]; exact hinv.init) hpath hinv.path_length_lt, hfind']
  obtain ⟨u, hu⟩ := slobCycle_overlap hw hw8 hinv.init rfl (by omega) hmalloc (by omega) (by omega)
    hnode (by omega)
  exact ⟨u, _, hu⟩

end

/-! ## A first entry without bytes -/

/-- An entry that starts at `e` has room for a record. -/
def Pool.RoomAt (P : Pool) (m : Memory) (heap : List Nat) (e : Nat) : Prop :=
  ∃ x ∈ P.records heap, entryBase m (x + P.offset) = e ∧ 32 ≤ entryLength m (x + P.offset)

/-- The first entry is empty and starts at `e`. The 8 bytes there, which the header is written to,
belong to no record and to no entry with room for a record, unless that entry starts there, too. -/
structure Empties (P : Pool) (s : Slob) (heap : List Nat) (e : Nat) : Prop where
  inv : SlobInv P s [] heap
  pHead_ne : s.pHead ≠ 0
  span : entrySpan s.mem s.pHead = ⟨e, 0⟩
  inRange : e + P.offset < 2 ^ 64
  pointer : add64 (add64 e 8) P.offset ≠ 0
  records : ∀ x ∈ P.records heap, (⟨e, 8⟩ : Span).Clear (recordSpan x)
  entries : ∀ x ∈ P.records heap, 32 ≤ entryLength s.mem (x + P.offset) →
    entryBase s.mem (x + P.offset) = e ∨ (⟨e, 8⟩ : Span).Clear (entrySpan s.mem (x + P.offset))

namespace Empties

variable {e : Nat} (h : Empties P s heap e) (hn : add64 n 8 = 0)
include h

theorem record_clear {x : Nat} (hx : x ∈ P.records heap) : e + 8 ≤ x ∨ x + 24 ≤ e := h.records x hx

/-- The header that is written at `e` changes no record. -/
theorem sameOn_record {x : Nat} (hx : x ∈ P.records heap) :
    SameOn s.mem (s.mem.store (e + P.offset) 8 0) (x + P.offset) 24 := by
  have hclear := h.record_clear hx
  exact sameOn_store (by omega)

theorem inv_store : SlobInv P (s.setMem (s.mem.store (e + P.offset) 8 0)) [] heap :=
  h.inv.congr (fun _ hx => h.sameOn_record hx) (by simp)

theorem entrySpan_store {x : Nat} (hx : x ∈ P.records heap) :
    entrySpan (s.mem.store (e + P.offset) 8 0) (x + P.offset) = entrySpan s.mem (x + P.offset) :=
  congrArg₂ Span.mk ((h.sameOn_record hx).load (by omega) (by omega))
    ((h.sameOn_record hx).load (by omega) (by omega))

/-- The first record is clear of the header. -/
theorem pHead_clear : e + P.offset + 8 ≤ s.pHead ∨ s.pHead + 24 ≤ e + P.offset := by
  obtain ⟨x, rest, hrec, hhead⟩ := h.inv.exists_head h.pHead_ne
  have hx : x ∈ P.records heap := by
    rw [hrec]
    exact List.mem_cons_self
  have hclear := h.record_clear hx
  omega

theorem cutMem_eq : cutMem s.mem s.offset s.pHead 0 = s.mem.store (e + P.offset) 8 0 := by
  have hclear := h.pHead_clear
  have hbase := (entrySpan_eq_iff.mp h.span).1
  have hoff := h.inv.offset
  rw [cutMem_zero (by omega), hbase, hoff]

include hn

/-- The first entry gives a block of no bytes. -/
theorem slobMalloc_eq : slobMalloc n s =
    .ret (add64 (add64 e 8) P.offset) (s.setMem (s.mem.store (e + P.offset) 8 0)) := by
  have hclear := h.pHead_clear
  have hbase := (entrySpan_eq_iff.mp h.span).1
  have hoff := h.inv.offset
  have hrange := h.inRange
  rw [slobMalloc_first h.inv.init h.pHead_ne (by omega),
    slobSplit_eq_cutMem (by rw [add64_comm, hn]) (Nat.zero_le _) (by omega) (by omega) (by omega),
    h.cutMem_eq, hbase, hoff]

section

variable {x : Nat} (hx : x ∈ P.records heap) (hfit : 32 ≤ entryLength s.mem (x + P.offset))
  (hnode : BloreOs.slobMalloc 24 (s.setMem (s.mem.store (e + P.offset) 8 0))
    = .ret (slobSplit (s.setMem (s.mem.store (e + P.offset) 8 0)) 24 (x + P.offset)).1
      (slobSplit (s.setMem (s.mem.store (e + P.offset) 8 0)) 24 (x + P.offset)).2)
include hx hfit hnode

/-- The record is taken from an entry that starts where the block does. -/
theorem slobCycle_settles (hbase : entryBase s.mem (x + P.offset) = e) :
    ∃ u, slobCycle n s = some u ∧ Settled 0 e u := by
  have hclear := h.pHead_clear
  have hclear' := h.record_clear hx
  have hrange := (h.inv.entry_inRange hx (by omega)).2
  have hoff := h.inv.offset
  obtain ⟨hbase', hlen'⟩ := entrySpan_eq_iff.mp (h.entrySpan_store hx)
  have hcell : e + 0 + s.offset + 8 ≤ x + P.offset ∨ x + P.offset + 24 ≤ e + s.offset := by omega
  refine slobCycle_overlap hn (by decide) h.inv.init (entrySpan_eq_iff.mp h.span).1 (Nat.zero_le _)
    (slobMalloc_first h.inv.init h.pHead_ne (by omega)) (by omega) (by omega) ?_ hcell
  rintro t ht
  rw [h.cutMem_eq] at ht
  rw [← ht] at hnode
  have hmem : t.mem = s.mem.store (e + P.offset) 8 0 := by
    rw [ht]
    rfl
  rw [← hmem] at hbase' hlen'
  exact ⟨by omega, by omega, hnode⟩

/-- **The record is taken from elsewhere**, and its entry is one more empty entry at `e`. -/
theorem slobCycle_grows (hbase : entryBase s.mem (x + P.offset) ≠ e) :
    ∃ u, slobCycle n s = some u ∧ SlobInv P u [] (entryBase s.mem (x + P.offset) :: heap) ∧
      u.pHead = entryBase s.mem (x + P.offset) + 8 + P.offset ∧ entrySpan u.mem u.pHead = ⟨e, 0⟩ ∧
      ∀ z ∈ P.records heap, entrySpan u.mem (z + P.offset) =
        if z = x then ⟨entryBase s.mem (x + P.offset) + 32, entryLength s.mem (x + P.offset) - 32⟩
        else entrySpan s.mem (z + P.offset) := by
  obtain ⟨t, ht⟩ : ∃ t, t = s.setMem (s.mem.store (e + P.offset) 8 0) := ⟨_, rfl⟩
  have hmem : t.mem = s.mem.store (e + P.offset) 8 0 := by
    rw [ht]
    rfl
  have hinv : SlobInv P t [] heap := by
    rw [ht]
    exact h.inv_store
  have hmalloc := h.slobMalloc_eq hn
  rw [← ht] at hmalloc hnode
  have hrange := (h.inv.entry_inRange hx (by omega)).2
  have hcell := (h.entries x hx hfit).resolve_left hbase
  simp only [Span.Clear, entrySpan] at hcell
  have hrec := h.record_clear hx
  have hoff := hinv.offset
  have hrange' := h.inRange
  obtain ⟨hbase', hlen'⟩ := entrySpan_eq_iff.mp (h.entrySpan_store hx)
  rw [← hmem] at hbase' hlen'
  have hroom : 8 + 24 ≤ entryLength t.mem (x + P.offset) := by omega
  have hsplit := hinv.slobSplit_eq hx hroom
  have hinv₁ := hinv.split hx hroom
  have hspans : ∀ z ∈ P.records heap, entrySpan (splitMem t.mem P.offset x 24) (z + P.offset)
      = if z = x then ⟨entryBase s.mem (x + P.offset) + 32, entryLength s.mem (x + P.offset) - 32⟩
        else entrySpan s.mem (z + P.offset) := by
    intro z hz
    by_cases hzx : z = x
    · rw [if_pos hzx, hzx, (hinv.splitMem_entry hx (by omega)).2.1, hbase', hlen']
    · have hsame : SameOn t.mem (splitMem t.mem P.offset x 24) (z + P.offset) 24 :=
        hinv.sameOn_record hx (by omega) hz hzx
      rw [if_neg hzx, ← h.entrySpan_store hz, ← hmem]
      exact congrArg₂ Span.mk (hsame.load (by omega) (by omega)) (hsame.load (by omega) (by omega))
  rw [hsplit, hbase'] at hnode hinv₁
  simp only at hnode hinv₁
  generalize hm : splitMem t.mem P.offset x 24 = m at *
  generalize hb : entryBase s.mem (x + P.offset) = base at *
  -- the header of no bytes is still there when `slob_free` reads it
  have hload : m.load (e + P.offset) 8 = 0 := by
    have hsame : SameOn t.mem m (e + P.offset) 8 := by
      rw [← hm, splitMem_eq_cutMem]
      exact sameOn_cutMem (by omega) (by omega)
    rw [hsame.load (Nat.le_refl _) (Nat.le_refl _), hmem, load_store_same]
    rfl
  have hheader : sub64 (add64 (add64 e 8) P.offset) 8 = e + (t.setMem m).offset := by
    rw [show (t.setMem m).offset = P.offset from hoff]
    unfold sub64 add64
    omega
  have hcycle := slobCycle_eq hmalloc h.pointer hnode (by omega)
  have hzero : (t.setMem m).mem.load (e + (t.setMem m).offset) 8 = 0 := by
    rw [← hload, show (t.setMem m).offset = P.offset from hoff]
    rfl
  rw [hheader, slobLink_eq_linkMem (by rw [← hheader]; exact sub64_lt _ _) hzero
    (by rw [show (t.setMem m).offset = P.offset from hoff]; omega)] at hcycle
  -- no block is left, and an empty range covers nothing
  have hcover : ∀ a, Span.cover (([] : List SlobBlock).map (SlobBlock.span P.offset)) a
      + Span.cover [⟨e, 0⟩] a = Span.cover (([] : List SlobBlock).map (SlobBlock.span P.offset)) a := by
    intro a
    simp [Span.cover_cons, Span.has_iff]
  have hinv₂ := hinv₁.linkEntry (by omega) (by decide) (by simp) hcover
  rw [show base + 8 + P.offset - (8 + P.offset) = base by omega] at hinv₂
  refine ⟨_, hcycle, hinv₂, rfl, linkMem_span (by omega) (by decide), fun z hz => ?_⟩
  have hsame : SameOn m (linkMem m (base + 8 + P.offset) e 0 t.pHead) (z + P.offset) 24 :=
    sameOn_linkMem (hinv₁.node_apart_record hz)
  rw [← hspans z hz]
  exact congrArg₂ Span.mk (hsame.load (by omega) (by omega)) (hsame.load (by omega) (by omega))

/-- A record in an entry that does not start at `e` leaves everything else as it is. -/
theorem step (hbase : entryBase s.mem (x + P.offset) ≠ e) :
    ∃ u y, slobCycle n s = some u ∧ Empties P u (y :: heap) e ∧
      (P.RoomAt u.mem (y :: heap) e ↔ P.RoomAt s.mem heap e) := by
  obtain ⟨u, hcycle, hinv, hhead, hspan, hspans⟩ := h.slobCycle_grows hn hx hfit hnode hbase
  have hcell := (h.entries x hx hfit).resolve_left hbase
  simp only [Span.Clear, entrySpan] at hcell
  have hold : ∀ z ∈ P.records heap, z ≠ x →
      entryBase u.mem (z + P.offset) = entryBase s.mem (z + P.offset) ∧
        entryLength u.mem (z + P.offset) = entryLength s.mem (z + P.offset) := by
    intro z hz hzx
    have hz' := hspans z hz
    rw [if_neg hzx] at hz'
    exact entrySpan_eq_iff.mp hz'
  have hcut : entryBase u.mem (x + P.offset) = entryBase s.mem (x + P.offset) + 32 ∧
      entryLength u.mem (x + P.offset) = entryLength s.mem (x + P.offset) - 32 := by
    have hx' := hspans x hx
    rw [if_pos rfl] at hx'
    exact entrySpan_eq_iff.mp hx'
  have hnew : entryLength u.mem (entryBase s.mem (x + P.offset) + 8 + P.offset) = 0 := by
    rw [← hhead]
    exact (entrySpan_eq_iff.mp hspan).2
  refine ⟨u, _, hcycle, ⟨hinv, by omega, hspan, h.inRange, h.pointer, fun z hz => ?_,
    fun z hz hlen => ?_⟩, ⟨?_, ?_⟩⟩
  · rcases List.mem_cons.mp hz with rfl | hz
    · simp only [Span.Clear, recordSpan]
      omega
    · exact h.records z hz
  · rcases List.mem_cons.mp hz with rfl | hz
    · exact absurd (hlen.trans_eq hnew) (by decide)
    · by_cases hzx : z = x
      · right
        subst hzx
        simp only [Span.Clear, entrySpan, hcut]
        omega
      · have hz' := hspans z hz
        rw [if_neg hzx] at hz'
        rw [(hold z hz hzx).2] at hlen
        rw [hz', (hold z hz hzx).1]
        exact h.entries z hz hlen
  · rintro ⟨z, hz, hzbase, hzlen⟩
    rcases List.mem_cons.mp hz with rfl | hz
    · exact absurd (hzlen.trans_eq hnew) (by decide)
    · by_cases hzx : z = x
      · rw [hzx] at hzbase hzlen
        omega
      · exact ⟨z, hz, (hold z hz hzx).1 ▸ hzbase, (hold z hz hzx).2 ▸ hzlen⟩
  · rintro ⟨z, hz, hzbase, hzlen⟩
    have hzx : z ≠ x := by
      rintro rfl
      exact hbase hzbase
    refine ⟨z, List.mem_cons_of_mem _ hz, ?_, ?_⟩
    · rw [(hold z hz hzx).1, hzbase]
    · rw [(hold z hz hzx).2]
      exact hzlen

end

/-- **One cycle of a block of no bytes**: it fails if there is no room for the record, it settles if
the record is taken from an entry at `e`, and it leaves another empty entry otherwise. -/
theorem slobCycle_cases :
    (CycleNull n s ∧ ¬ P.RoomAt s.mem heap e) ∨
      (P.RoomAt s.mem heap e ∧ ∃ u, slobCycle n s = some u ∧ Settled 0 e u) ∨
      ∃ u y, slobCycle n s = some u ∧ Empties P u (y :: heap) e ∧
        (P.RoomAt u.mem (y :: heap) e ↔ P.RoomAt s.mem heap e) := by
  rcases h.inv_store.slobMalloc_cases (show 24 + 8 < 2 ^ 64 by decide) with
    ⟨hnone, hnull⟩ | ⟨x, hx, hfit, hnode⟩
  · refine Or.inl ⟨Or.inr ⟨_, _, h.slobMalloc_eq hn, h.pointer, hnull⟩, ?_⟩
    rintro ⟨x, hx, -, hlen⟩
    have hshort := hnone x hx
    rw [show (s.setMem (s.mem.store (e + P.offset) 8 0)).mem = s.mem.store (e + P.offset) 8 0 from rfl,
      (entrySpan_eq_iff.mp (h.entrySpan_store hx)).2] at hshort
    omega
  · rw [show (s.setMem (s.mem.store (e + P.offset) 8 0)).mem = s.mem.store (e + P.offset) 8 0 from rfl,
      (entrySpan_eq_iff.mp (h.entrySpan_store hx)).2] at hfit
    by_cases hbase : entryBase s.mem (x + P.offset) = e
    · exact Or.inr (Or.inl ⟨⟨x, hx, hbase, hfit⟩, h.slobCycle_settles hn hx hfit hnode hbase⟩)
    · exact Or.inr (Or.inr (h.step hn hx hfit hnode hbase))

/-- **With an entry at `e` the cycles never fail.** -/
theorem slobCycles_isSome (hroom : P.RoomAt s.mem heap e) (k : Nat) : (slobCycles n k s).isSome := by
  refine BloreOs.slobCycles_isSome
    (fun s => Settled 0 e s ∨ ∃ heap, Empties P s heap e ∧ P.RoomAt s.mem heap e) ?_ k s
    (Or.inr ⟨heap, h, hroom⟩)
  rintro s (hs | ⟨heap, hs, hroom⟩)
  · obtain ⟨u, hcycle, hu⟩ := hs.slobCycle hn (by decide)
    exact ⟨u, hcycle, Or.inl hu⟩
  · rcases hs.slobCycle_cases hn with ⟨-, hno⟩ | ⟨-, u, hcycle, hu⟩ | ⟨u, y, hcycle, hu, hiff⟩
    · exact absurd hroom hno
    · exact ⟨u, hcycle, Or.inl hu⟩
    · exact ⟨u, hcycle, Or.inr ⟨_, hu, hiff.mpr hroom⟩⟩

/-- **Without one they exhaust the pool**, as those of other sizes do. -/
theorem slobCycles_null (hroom : ¬ P.RoomAt s.mem heap e) :
    ∃ k t, slobCycles n k s = some t ∧ CycleNull n t := by
  refine BloreOs.slobCycles_null (fun s heap => Empties P s heap e ∧ ¬ P.RoomAt s.mem heap e)
    (fun _ _ hs => hs.1.inv) ?_ (2 ^ 59 + 1) s heap ⟨h, hroom⟩ (by omega)
  rintro s heap ⟨hs, hno⟩
  rcases hs.slobCycle_cases hn with ⟨hnull, -⟩ | ⟨hyes, -⟩ | ⟨u, y, hcycle, hu, hiff⟩
  · exact Or.inl hnull
  · exact absurd hyes hno
  · exact Or.inr ⟨u, y, hcycle, hu, fun hyes => hno (hiff.mp hyes)⟩

end Empties

/-! ## From `slob_init` on -/

theorem slobCycle_found (h : (slobCycle n s).isSome) :
    ∃ p t, slobMalloc n s = .ret p t ∧ p ≠ 0 ∧ (slobMalloc 24 t).value? ≠ some 0 := by
  rw [slobCycle] at h
  split at h
  · next p t hmalloc =>
    split at h
    · next hfound => exact ⟨p, t, hmalloc, hfound⟩
    · cases h
  · cases h

/-- A range with bytes starts where the first one does. -/
def BytesAtFirst (rs : List Span) : Prop :=
  ∃ r ∈ rs, 0 < r.len ∧ rs.head?.map Span.base = some r.base

/-- What `slob_init` leaves of a page-aligned map: the table at `b`, and the entries behind or in
front of it. -/
structure FreshPool (s : Slob) (b size : Nat) : Prop where
  inv : SlobInv (poolOf s) s [] []
  entries : (poolOf s).entries s.mem [] = usableSpans s.pmm.memmap
  ok : MemmapOk s.offset s.pmm.memmap
  aligned : PageAligned s.pmm.memmap
  clear : ((⟨b, size⟩ : Span) :: usableSpans s.pmm.memmap).Pairwise Span.Clear
  table_aligned : b % pageSize = 0
  pHead : s.pHead = b + s.offset
  pHead_ne : s.pHead ≠ 0
  table : ∀ x ∈ (poolOf s).table, b ≤ x ∧ x + 24 ≤ b + size

theorem freshPool_of_ready {s₀ s₁ : Slob} (h₀ : s₀.init = false)
    (hok : MemmapOk s₀.offset s₀.pmm.memmap) (hcount : (usable s₀.pmm.memmap).length < 2 ^ 31)
    (hready : slobReady s₀ = .ret () s₁) (hal : PageAligned s₀.pmm.memmap)
    (hclear : (usableSpans s₀.pmm.memmap).Pairwise Span.Clear) : ∃ b size, FreshPool s₁ b size := by
  have hinv := slobReady_inv h₀ hok hcount hready
  rw [slobReady, if_neg (by simp [h₀]), Outcome.bind_eq_ret] at hready
  obtain ⟨_, s', hs', heq⟩ := hready
  cases heq
  obtain ⟨b, k, hk, hc, hb, hoff, hhead, htable, -⟩ := slobInit_table hok hcount hs'
  obtain ⟨e, he, hbase, -⟩ := carve_span hc
  have hle : 24 * k ≤ alignUp (24 * k) pageSize := le_alignUp (by omega)
  have hentries : (poolOf s').entries s'.mem [] = usableSpans s'.pmm.memmap :=
    slobInit_entries hok hcount hs'
  refine ⟨b, alignUp (24 * k) pageSize, hinv, hentries, ?_,
    hal.carve hok (alignUp_mod _) hc, carve_clear hok hclear hc, ?_, ?_, ?_, fun x hx => ?_⟩
  · rw [show ({ s' with init := true } : Slob).offset = s₀.offset from hoff]
    exact hok.carve hc
  · rw [← hbase]
    exact (hal e he).1
  · rw [show ({ s' with init := true } : Slob).offset = s₀.offset from hoff]
    exact hhead
  · show s'.pHead ≠ 0
    omega
  · have hx' : x ∈ (poolOf s').table := hx
    rw [htable] at hx'
    obtain ⟨i, hi, rfl⟩ := List.mem_map.mp hx'
    have := List.mem_range'_1.mp hi
    omega

namespace FreshPool

variable {b : Nat} (h : FreshPool s b size)
include h

theorem mem_usableSpans {x : Nat} (hx : x ∈ (poolOf s).records []) :
    entrySpan s.mem (x + s.offset) ∈ usableSpans s.pmm.memmap := by
  rw [← h.entries]
  exact List.mem_map_of_mem hx

/-- Entries start at a page and have whole pages. -/
theorem entry_aligned {x : Nat} (hx : x ∈ (poolOf s).records []) :
    entryBase s.mem (x + s.offset) % pageSize = 0 ∧
      entryLength s.mem (x + s.offset) % pageSize = 0 := by
  obtain ⟨e, he, hspan⟩ := List.mem_map.mp (h.mem_usableSpans hx)
  obtain ⟨hbase, hlen⟩ := entrySpan_eq_iff.mp hspan.symm
  rw [hbase, hlen]
  exact h.aligned e he

theorem entry_inRange {x : Nat} (hx : x ∈ (poolOf s).records []) :
    entryBase s.mem (x + s.offset) + entryLength s.mem (x + s.offset) + s.offset < 2 ^ 64 := by
  obtain ⟨e, he, hspan⟩ := List.mem_map.mp (h.mem_usableSpans hx)
  obtain ⟨hbase, hlen⟩ := entrySpan_eq_iff.mp hspan.symm
  rw [hbase, hlen]
  exact h.ok.inRange e he

/-- Entries lie in front of the table or behind it. -/
theorem entry_table {x : Nat} (hx : x ∈ (poolOf s).records []) :
    b + size ≤ entryBase s.mem (x + s.offset) ∨
      entryBase s.mem (x + s.offset) + entryLength s.mem (x + s.offset) ≤ b :=
  (List.pairwise_cons.mp h.clear).1 _ (h.mem_usableSpans hx)

theorem emptyOrPage : (poolOf s).EmptyOrPage s.mem [] := by
  intro x hx
  have haligned : entryLength s.mem (x + s.offset) % 4096 = 0 := (h.entry_aligned hx).2
  show entryLength s.mem (x + s.offset) = 0 ∨ 4096 ≤ entryLength s.mem (x + s.offset)
  omega

/-- The first record and the first range of the map. -/
theorem exists_first : ∃ x rest, (poolOf s).records [] = x :: rest ∧ s.pHead = x + s.offset ∧
    usableSpans s.pmm.memmap = entrySpan s.mem s.pHead ::
      rest.map fun y => entrySpan s.mem (y + s.offset) := by
  obtain ⟨x, rest, hrec, hhead⟩ := h.inv.exists_head h.pHead_ne
  refine ⟨x, rest, hrec, hhead, ?_⟩
  rw [← h.entries, Pool.entries, hrec, List.map_cons, hhead]
  rfl

/-- The condition, in terms of the list. -/
theorem bytesAtFirst_iff : BytesAtFirst (usableSpans s.pmm.memmap) ↔
    (poolOf s).RoomAt s.mem [] (entryBase s.mem s.pHead) := by
  obtain ⟨x, rest, hrec, hhead, hspans⟩ := h.exists_first
  have hfirst : (usableSpans s.pmm.memmap).head?.map Span.base = some (entryBase s.mem s.pHead) := by
    rw [hspans]
    rfl
  constructor
  · rintro ⟨r, hr, hlen, hbase⟩
    rw [← h.entries] at hr
    obtain ⟨y, hy, rfl⟩ := List.mem_map.mp hr
    have hpage : 4096 ≤ entryLength s.mem (y + s.offset) :=
      (h.emptyOrPage y hy).resolve_left (Nat.ne_of_gt hlen)
    rw [hfirst, Option.some.injEq] at hbase
    refine ⟨y, hy, hbase.symm, ?_⟩
    show 32 ≤ entryLength s.mem (y + s.offset)
    omega
  · rintro ⟨y, hy, hbase, hlen⟩
    refine ⟨_, h.mem_usableSpans hy, Nat.lt_of_lt_of_le (by decide) hlen, ?_⟩
    rw [hfirst]
    exact congrArg some hbase.symm

theorem bytesAtFirst_of_pos (hpos : 0 < entryLength s.mem s.pHead) :
    BytesAtFirst (usableSpans s.pmm.memmap) := by
  obtain ⟨x, rest, -, -, hspans⟩ := h.exists_first
  rw [hspans]
  exact ⟨_, List.mem_cons_self, hpos, rfl⟩

/-- A first entry with bytes, or a block with bytes, settles in the first cycle. -/
theorem settles (hw : add64 n 8 = w) (hw8 : w < 8) (hfirst : (slobCycle n s).isSome)
    (hpos : w = 0 → 0 < entryLength s.mem s.pHead) :
    ∃ u base, slobCycle n s = some u ∧ Settled w base u := by
  obtain ⟨p, t, hmalloc, hp, -⟩ := slobCycle_found hfirst
  rw [slobMalloc_of_path h.inv.init h.inv.path h.inv.path_length_lt] at hmalloc
  cases hfind : (((poolOf s).records []).map fun x => x + (poolOf s).offset).find?
      (entryFits s.mem n) with
  | none =>
    rw [hfind] at hmalloc
    cases hmalloc
    exact absurd rfl hp
  | some q =>
    obtain ⟨x, hx, rfl⟩ := List.mem_map.mp (List.mem_of_find?_eq_some hfind)
    refine h.inv.slobCycle_settles hw hw8 h.emptyOrPage hx hfind ?_
    by_cases hw0 : w = 0
    · -- every entry passes the test, so it is the first one
      obtain ⟨y, rest, hrec, hhead, -⟩ := h.exists_first
      have hfits : entryFits s.mem n (y + (poolOf s).offset) = true := by
        rw [entryFits, hw, hw0]
        exact decide_eq_true (Nat.zero_le _)
      rw [hrec, List.map_cons, List.find?_cons_of_pos hfits, Option.some.injEq] at hfind
      rw [← hfind]
      rw [hhead] at hpos
      exact hpos hw0
    · have hfits := List.find?_some hfind
      rw [entryFits, hw, decide_eq_true_eq] at hfits
      omega

/-- The header of a block of no bytes does not cut the list, since there was a record for it. -/
theorem first_apart (hn : add64 n 8 = 0) (hfirst : (slobCycle n s).isSome)
    (hlen : entryLength s.mem s.pHead = 0) :
    add64 (add64 (entryBase s.mem s.pHead) 8) s.offset ≠ 0 ∧ entryBase s.mem s.pHead ≠ b := by
  obtain ⟨x, rest, hrec, hhead, -⟩ := h.exists_first
  have hx : x ∈ (poolOf s).records [] := by
    rw [hrec]
    exact List.mem_cons_self
  have htable := h.table x hx
  have hrange := h.entry_inRange hx
  have hapart := h.entry_table hx
  have hpHead := h.pHead
  rw [← hhead] at hrange hapart
  have hcell : entryBase s.mem s.pHead + s.offset ≤ s.pHead ∨
      s.pHead + 24 ≤ entryBase s.mem s.pHead + s.offset := by omega
  obtain ⟨p, t, hmalloc, hp, hnode⟩ := slobCycle_found hfirst
  rw [slobMalloc_first h.inv.init h.pHead_ne (by omega),
    slobSplit_eq_cutMem (by rw [add64_comm, hn]) (Nat.zero_le _) (by omega) (by omega) hcell,
    cutMem_zero hcell] at hmalloc
  cases hmalloc
  refine ⟨hp, fun hbase => hnode ?_⟩
  -- the header is written over the link of the first record
  obtain ⟨t, ht⟩ : ∃ t, t = s.setMem (s.mem.store (entryBase s.mem s.pHead + s.offset) 8 0) :=
    ⟨_, rfl⟩
  have hmem : t.mem = s.mem.store s.pHead 8 0 := by
    rw [ht, hbase, h.pHead]
    rfl
  have hnext : pNext t.mem s.pHead = 0 := by
    rw [hmem, pNext, load_store_same]
    rfl
  have hlen' : entryLength t.mem s.pHead = 0 := by
    rw [← hlen, hmem]
    exact load_store_disjoint (by omega)
  have hpath : Path (pNext t.mem) t.pHead [s.pHead] := by
    rw [show t.pHead = s.pHead by rw [ht]; rfl]
    exact ⟨rfl, h.pHead_ne, hnext⟩
  have hfits : entryFits t.mem 24 s.pHead = false := by
    rw [entryFits, hlen']
    rfl
  rw [← ht, slobMalloc_of_path (by rw [ht]; exact h.inv.init) hpath (by simp),
    List.find?_cons_of_neg (by simp [hfits]), List.find?_nil]
  rfl

/-- **The pool with a first entry without bytes**, if the first cycle succeeds. -/
theorem empties (hn : add64 n 8 = 0) (hfirst : (slobCycle n s).isSome)
    (hlen : entryLength s.mem s.pHead = 0) :
    Empties (poolOf s) s [] (entryBase s.mem s.pHead) := by
  obtain ⟨hpointer, hne⟩ := h.first_apart hn hfirst hlen
  obtain ⟨x, rest, hrec, hhead, hspans⟩ := h.exists_first
  have hx : x ∈ (poolOf s).records [] := by
    rw [hrec]
    exact List.mem_cons_self
  have hrange := h.entry_inRange hx
  have hapart := h.entry_table hx
  have haligned : entryBase s.mem (x + s.offset) % 4096 = 0 := (h.entry_aligned hx).1
  have htable : b % 4096 = 0 := h.table_aligned
  rw [← hhead] at hrange hapart haligned
  have hclear := (List.pairwise_cons.mp h.clear).2
  rw [hspans, List.pairwise_cons] at hclear
  refine ⟨h.inv, h.pHead_ne, entrySpan_eq_iff.mpr ⟨rfl, hlen⟩, ?_, hpointer, fun y hy => ?_,
    fun y hy hroom => ?_⟩
  · show entryBase s.mem s.pHead + s.offset < 2 ^ 64
    omega
  · have hrow := h.table y hy
    simp only [Span.Clear, recordSpan]
    omega
  · have haligned' : entryBase s.mem (y + s.offset) % 4096 = 0 := (h.entry_aligned hy).1
    have hroom' : 32 ≤ entryLength s.mem (y + s.offset) := hroom
    show entryBase s.mem (y + s.offset) = _ ∨ (⟨entryBase s.mem s.pHead, 8⟩ : Span).Clear
      (entrySpan s.mem (y + s.offset))
    rw [hrec] at hy
    rcases List.mem_cons.mp hy with rfl | hy
    · rw [← hhead] at hroom'
      omega
    · have hy' := hclear.1 _ (List.mem_map_of_mem hy)
      simp only [Span.Clear, entrySpan] at hy' ⊢
      omega

end FreshPool

/--
**Which sizes can be allocated and freed for ever.**

`s₁` is a pool that `slob_init` has set up, and a first cycle of `n` bytes succeeds. If the sum of
`n` and the header does not wrap, a later cycle fails, and it does so because `slob_malloc` returns
`NULL` for the block or for the record. On a map of whole pages whose ranges lie one behind the
other, every cycle succeeds exactly if the sum wraps and, where it wraps to 0, some range with bytes
starts where the first range of the pool starts.
-/
theorem slobCycles_forever_iff (s₀ s₁ : Slob) (h₀ : s₀.init = false)
    (hok : MemmapOk s₀.offset s₀.pmm.memmap) (hcount : (usable s₀.pmm.memmap).length < 2 ^ 31)
    (hready : slobReady s₀ = .ret () s₁) (n : Nat) (hn : n < 2 ^ 64)
    (hfirst : (slobCycle n s₁).isSome) :
    (n + 8 < 2 ^ 64 → ∃ k t, 1 ≤ k ∧ slobCycles n k s₁ = some t ∧ CycleNull n t ∧
      slobCycles n (k + 1) s₁ = none) ∧
    (PageAligned s₀.pmm.memmap → (usableSpans s₀.pmm.memmap).Pairwise Span.Clear →
      ((∀ k, (slobCycles n k s₁).isSome) ↔
        2 ^ 64 ≤ n + 8 ∧ (n + 8 = 2 ^ 64 → BytesAtFirst (usableSpans s₁.pmm.memmap)))) := by
  have hstart : SlobInv (poolOf s₁) s₁ [] [] := slobReady_inv h₀ hok hcount hready
  have hexhaust : n + 8 < 2 ^ 64 → ∃ k t, 1 ≤ k ∧ slobCycles n k s₁ = some t ∧ CycleNull n t ∧
      slobCycles n (k + 1) s₁ = none := by
    intro hlt
    obtain ⟨k, t, hk, hnull⟩ := hstart.slobCycles_exhaust hlt
    obtain ⟨hpos, hstop⟩ := slobCycles_stop hfirst hk hnull
    exact ⟨k, t, hpos, hk, hnull, hstop⟩
  refine ⟨hexhaust, fun hal hclear => ?_⟩
  obtain ⟨b, size, hfresh⟩ := freshPool_of_ready h₀ hok hcount hready hal hclear
  by_cases hwrap : 2 ^ 64 ≤ n + 8
  · obtain ⟨w, hw⟩ : ∃ w, w = n + 8 - 2 ^ 64 := ⟨_, rfl⟩
    have hsum : add64 n 8 = w := by
      unfold add64
      omega
    by_cases hempty : n + 8 = 2 ^ 64 ∧ entryLength s₁.mem s₁.pHead = 0
    · have hzero : add64 n 8 = 0 := by
        rw [hsum]
        omega
      have he := hfresh.empties hzero hfirst hempty.2
      rw [hfresh.bytesAtFirst_iff]
      constructor
      · refine fun hall => ⟨hwrap, fun _ => ?_⟩
        by_contra hroom
        obtain ⟨k, t, hk, hnull⟩ := he.slobCycles_null hzero hroom
        have hnone := hall (k + 1)
        rw [(slobCycles_stop hfirst hk hnull).2] at hnone
        cases hnone
      · rintro ⟨-, hroom⟩ k
        exact he.slobCycles_isSome hzero (hroom hempty.1) k
    · obtain ⟨u, base, hcycle, hu⟩ := hfresh.settles hsum (by omega) hfirst (by omega)
      refine ⟨fun _ => ⟨hwrap, fun heq => hfresh.bytesAtFirst_of_pos (by omega)⟩, fun _ => ?_⟩
      exact slobCycles_of_settles hsum (by omega) hcycle hu
  · constructor
    · intro hall
      obtain ⟨k, t, -, -, -, hstop⟩ := hexhaust (by omega)
      have hnone := hall (k + 1)
      rw [hstop] at hnone
      cases hnone
    · rintro ⟨hle, -⟩
      exact absurd hle hwrap

/-- On one page, blocks of 100 bytes exhaust the pool, and blocks of `2 ^ 64 - 1` bytes do not. -/
theorem slobCycles_forever_onePage :
    (∃ k t, slobCycles 100 k onePageReady = some t ∧ CycleNull 100 t) ∧
      ∀ k, (slobCycles (2 ^ 64 - 1) k onePageReady).isSome := by
  have hok : MemmapOk onePagePool.offset onePagePool.pmm.memmap :=
    ⟨List.Pairwise.imp Span.Clear.apart (by decide), by decide, by decide⟩
  have hready : slobReady onePagePool = .ret () onePageReady := Outcome.eq_ret_of_state? _
  constructor
  · obtain ⟨k, t, -, hk, hnull, -⟩ := (slobCycles_forever_iff onePagePool onePageReady rfl hok
      (by decide) hready 100 (by decide) (by decide +kernel)).1 (by decide)
    exact ⟨k, t, hk, hnull⟩
  · exact ((slobCycles_forever_iff onePagePool onePageReady rfl hok (by decide) hready (2 ^ 64 - 1)
      (by decide) (by decide +kernel)).2 (by unfold PageAligned; decide) (by decide)).mpr
      ⟨by decide, fun heq => absurd heq (by decide)⟩

end BloreOs
