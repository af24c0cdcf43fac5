import BloreOs.Slob.Basic

/-!
# The SLOB pool

A `Pool` is the memory that a `slob_init` put under SLOB's control: the physical ranges of the
usable entries, and the table that holds their records. `SlobInv` says how the pool is divided at
some later time: into the ranges of the list entries, the live blocks with their headers, and the
32-byte blocks that hold the records of freed blocks.

Everything that SLOB reads is a record or a header, and everything it writes is a record or free
memory. `SlobInv.cover_le_one` keeps these apart, and with it

* `SlobInv.split` — a block is split off an entry,
* `SlobInv.linkEntry` — a new record is linked in, for a freed block (`SlobInv.link`),
* `SlobInv.congr` — memory that is neither record nor header may change

all keep the invariant.
-/

namespace BloreOs

open Loop Chain Memory

/-- What SLOB manages: physical ranges, and the physical addresses of the table's records. -/
structure Pool where
  offset : Nat
  spans : List Span
  table : List Nat

/-- A block that has been handed out and not been freed. -/
structure SlobBlock where
  ptr : Nat
  size : Nat
deriving DecidableEq, Repr

/-- The physical address of the block's header. -/
def SlobBlock.base (offset : Nat) (b : SlobBlock) : Nat := b.ptr - (8 + offset)

/-- The block together with its header. -/
def SlobBlock.span (offset : Nat) (b : SlobBlock) : Span := ⟨b.base offset, 8 + b.size⟩

/-- The range that the record at `p` describes. -/
def entrySpan (m : Memory) (p : Nat) : Span := ⟨entryBase m p, entryLength m p⟩

theorem entrySpan_eq_iff {m : Memory} {p base length : Nat} : entrySpan m p = ⟨base, length⟩ ↔
    entryBase m p = base ∧ entryLength m p = length := by
  rw [entrySpan, Span.mk.injEq]

/-- The bytes of a record. -/
def recordSpan (x : Nat) : Span := ⟨x, 24⟩

/-- The block that `slob_free` allocates for a record. -/
def nodeBlock (x : Nat) : Span := ⟨x, 32⟩

theorem SlobBlock.span_pos (offset : Nat) (b : SlobBlock) : 0 < (b.span offset).len :=
  Nat.add_pos_left (by decide) _

theorem recordSpan_pos (x : Nat) : 0 < (recordSpan x).len := Nat.succ_pos 23

namespace Pool

/-- The records of the list: those in allocated blocks first, then those of the table. -/
def records (P : Pool) (heap : List Nat) : List Nat := heap.map (fun x => x + 8) ++ P.table

/-- The ranges that the list describes. -/
def entries (P : Pool) (m : Memory) (heap : List Nat) : List Span :=
  (P.records heap).map fun x => entrySpan m (x + P.offset)

theorem entries_congr (P : Pool) {m m' : Memory} {heap : List Nat}
    (h : ∀ x ∈ P.records heap, SameOn m m' (x + P.offset) 24) : P.entries m' heap = P.entries m heap :=
  List.map_congr_left fun x hx => congrArg₂ Span.mk ((h x hx).load (by omega) (by omega))
    ((h x hx).load (by omega) (by omega))

/-- Pool and table do not overlap and are visible in the direct map. -/
structure Ok (P : Pool) : Prop where
  cover_le_one : ∀ a, Span.cover P.spans a + Span.cover (P.table.map recordSpan) a ≤ 1
  inRange : ∀ r ∈ P.spans, r.base ≠ 0 ∧ r.base + r.len + P.offset < 2 ^ 64
  tableInRange : ∀ x ∈ P.table, x + 24 + P.offset < 2 ^ 64

end Pool

/-- How the pool is divided. -/
structure SlobInv (P : Pool) (s : Slob) (live : List SlobBlock) (heap : List Nat) : Prop where
  ok : P.Ok
  offset : s.offset = P.offset
  init : s.init = true
  path : Path (pNext s.mem) s.pHead ((P.records heap).map fun x => x + P.offset)
  partition : ∀ a, Span.cover (P.entries s.mem heap) a +
      Span.cover (live.map (SlobBlock.span P.offset)) a + Span.cover (heap.map nodeBlock) a
    = Span.cover P.spans a
  headers : ∀ b ∈ live, 8 + P.offset ≤ b.ptr ∧
    s.mem.load (b.base P.offset + P.offset) 8 = 8 + b.size

variable {P : Pool} {s : Slob} {live : List SlobBlock} {heap : List Nat} {b : SlobBlock}
variable {x y size a : Nat}

namespace SlobInv

variable (hinv : SlobInv P s live heap)
include hinv

/-! ## What is apart -/

/-- No byte belongs to two of: the entries, the live blocks, the records. -/
theorem cover_le_one (a : Nat) : Span.cover (P.entries s.mem heap) a +
    Span.cover (live.map (SlobBlock.span P.offset)) a +
    Span.cover ((P.records heap).map recordSpan) a ≤ 1 := by
  have hrec : Span.cover ((P.records heap).map recordSpan) a
      ≤ Span.cover (heap.map nodeBlock) a + Span.cover (P.table.map recordSpan) a := by
    rw [Pool.records, List.map_append, Span.cover_append, List.map_map]
    refine Nat.add_le_add_right (Span.cover_map_le fun x _ hx => ?_) _
    simp only [Function.comp_apply, recordSpan, nodeBlock, Span.has_iff] at hx ⊢
    omega
  have := hinv.partition a
  have := hinv.ok.cover_le_one a
  omega

/-- Where the entries are, the pool is. -/
theorem cover_entry_le (hx : x ∈ P.records heap)
    (ha : (entrySpan s.mem (x + P.offset)).Has a) : 0 < Span.cover P.spans a := by
  have hpos : 0 < Span.cover (P.entries s.mem heap) a :=
    Span.cover_pos.mpr ⟨_, List.mem_map_of_mem hx, ha⟩
  have := hinv.partition a
  omega

theorem entry_apart_record (hx : x ∈ P.records heap) (hy : y ∈ P.records heap) :
    (entrySpan s.mem (x + P.offset)).Apart (recordSpan y) :=
  Span.apart_of_cover_le_one (P.entries s.mem heap) ((P.records heap).map recordSpan)
    (fun a => by have := hinv.cover_le_one a; omega) (List.mem_map_of_mem hx) (List.mem_map_of_mem hy)

/-- An entry that is not empty lies in front of a record or behind it. -/
theorem entry_clear_record (hx : x ∈ P.records heap)
    (hpos : 0 < entryLength s.mem (x + P.offset)) (hy : y ∈ P.records heap) :
    y + 24 ≤ entryBase s.mem (x + P.offset) ∨
      entryBase s.mem (x + P.offset) + entryLength s.mem (x + P.offset) ≤ y := by
  have hclear := (hinv.entry_apart_record hx hy).clear hpos (recordSpan_pos y)
  simp only [Span.Clear, entrySpan, recordSpan] at hclear
  omega

theorem entry_apart_block (hx : x ∈ P.records heap) (hb : b ∈ live) :
    (entrySpan s.mem (x + P.offset)).Apart (b.span P.offset) :=
  Span.apart_of_cover_le_one (P.entries s.mem heap) (live.map (SlobBlock.span P.offset))
    (fun a => by have := hinv.cover_le_one a; omega) (List.mem_map_of_mem hx) (List.mem_map_of_mem hb)

theorem block_apart_record (hb : b ∈ live) (hy : y ∈ P.records heap) :
    (b.span P.offset).Apart (recordSpan y) :=
  Span.apart_of_cover_le_one (live.map (SlobBlock.span P.offset)) ((P.records heap).map recordSpan)
    (fun a => by have := hinv.cover_le_one a; omega) (List.mem_map_of_mem hb) (List.mem_map_of_mem hy)

theorem records_nodup : (P.records heap).Nodup := hinv.path.nodup.of_map _

theorem record_apart (hx : x ∈ P.records heap) (hy : y ∈ P.records heap) (hne : x ≠ y) :
    (recordSpan x).Apart (recordSpan y) := by
  have hpw : ((P.records heap).map recordSpan).Pairwise Span.Apart :=
    Span.pairwise_of_cover_le_one fun a => by have := hinv.cover_le_one a; omega
  rw [List.pairwise_map] at hpw
  have : Std.Symm fun x y => (recordSpan x).Apart (recordSpan y) := ⟨fun _ _ h => h.symm⟩
  exact hpw.forall hx hy hne

theorem live_apart : (live.map (SlobBlock.span P.offset)).Pairwise Span.Apart :=
  Span.pairwise_of_cover_le_one fun a => by have := hinv.cover_le_one a; omega

/-- An entry that is not empty lies in the pool with all its bytes. -/
theorem entry_inRange (hx : x ∈ P.records heap) (hpos : 0 < entryLength s.mem (x + P.offset)) :
    entryBase s.mem (x + P.offset) ≠ 0 ∧
      entryBase s.mem (x + P.offset) + entryLength s.mem (x + P.offset) + P.offset < 2 ^ 64 := by
  have hfirst : (entrySpan s.mem (x + P.offset)).Has (entryBase s.mem (x + P.offset)) :=
    ⟨Nat.le_refl _, Nat.lt_add_of_pos_right hpos⟩
  have hlast : (entrySpan s.mem (x + P.offset)).Has
      (entryBase s.mem (x + P.offset) + entryLength s.mem (x + P.offset) - 1) := by
    simp only [entrySpan, Span.has_iff]
    omega
  obtain ⟨r, hr, h1, -⟩ := Span.cover_pos.mp (hinv.cover_entry_le hx hfirst)
  obtain ⟨r', hr', -, h2⟩ := Span.cover_pos.mp (hinv.cover_entry_le hx hlast)
  have h3 := hinv.ok.inRange r hr
  have h4 := hinv.ok.inRange r' hr'
  omega

/-! ## Memory that nobody reads -/

/-- Memory may change as long as records and headers keep their bytes. -/
theorem congr {m : Memory} (hrec : ∀ x ∈ P.records heap, SameOn s.mem m (x + P.offset) 24)
    (hhead : ∀ b ∈ live, SameOn s.mem m (b.base P.offset + P.offset) 8) :
    SlobInv P (s.setMem m) live heap := by
  refine ⟨hinv.ok, hinv.offset, hinv.init, hinv.path.congr ?_, fun a => ?_, fun b hb => ?_⟩
  · intro p hp
    obtain ⟨x, hx, rfl⟩ := List.mem_map.mp hp
    exact (hrec x hx).load (Nat.le_refl _) (by omega)
  · show Span.cover (P.entries m heap) a + _ + _ = _
    rw [P.entries_congr hrec]
    exact hinv.partition a
  · rw [← (hinv.headers b hb).2]
    exact ⟨(hinv.headers b hb).1, (hhead b hb).load (Nat.le_refl _) (Nat.le_refl _)⟩

end SlobInv

/-! ## Cutting an entry -/

/-- The memory after the first `total` bytes of the entry at `p` have been taken: their number in
the header, and a shorter entry. -/
def cutMem (m : Memory) (offset p total : Nat) : Memory :=
  ((m.store (entryBase m p + offset) 8 total).store (p + 8) 8 (entryBase m p + total)).store
    (p + 16) 8 (entryLength m p - total)

section

variable {m : Memory} {offset p total : Nat}

/-- `slob_malloc` cuts an entry whose base and length the header does not overwrite. -/
theorem slobSplit_eq_cutMem (htotal : add64 8 size = total) (hfit : total ≤ entryLength s.mem p)
    (hrange : entryBase s.mem p + total < 2 ^ 64) (hcell : entryBase s.mem p + s.offset < 2 ^ 64)
    (hapart : entryBase s.mem p + s.offset ≤ p ∨ p + 24 ≤ entryBase s.mem p + s.offset) :
    slobSplit s size p = (add64 (add64 (entryBase s.mem p) 8) s.offset,
      s.setMem (cutMem s.mem s.offset p total)) := by
  -- neither the header nor the new base is seen by the loads that follow
  have hhead : SameOn s.mem (s.mem.store (entryBase s.mem p + s.offset) 8 total) (p + 8) 16 :=
    sameOn_store (by omega)
  have hbase : entryBase (s.mem.store (entryBase s.mem p + s.offset) 8 total) p
      = entryBase s.mem p := hhead.load (by omega) (by omega)
  have hlen : entryLength ((s.mem.store (entryBase s.mem p + s.offset) 8 total).store (p + 8) 8
      (entryBase s.mem p + total)) p = entryLength s.mem p := by
    rw [entryLength, load_store_disjoint (by omega)]
    exact hhead.load (by omega) (by omega)
  have h64 : entryLength s.mem p < 2 ^ 64 := load_lt _ 8 _
  simp only [slobSplit, htotal, add64_eq hcell, hbase, add64_eq hrange, hlen, sub64_eq hfit h64,
    cutMem]

theorem sameOn_cutMem {n : Nat}
    (hhead : y + n ≤ entryBase m p + offset ∨ entryBase m p + offset + 8 ≤ y)
    (hrec : y + n ≤ p + 8 ∨ p + 24 ≤ y) : SameOn m (cutMem m offset p total) y n :=
  ((sameOn_store (by omega)).trans (sameOn_store (by omega))).trans (sameOn_store (by omega))

theorem cutMem_span (hfit : total ≤ entryLength m p) (hrange : entryBase m p + total < 2 ^ 64) :
    entrySpan (cutMem m offset p total) p
      = ⟨entryBase m p + total, entryLength m p - total⟩ := by
  have h64 : entryLength m p < 2 ^ 64 := load_lt _ 8 _
  refine congrArg₂ Span.mk ?_ ?_
  · rw [entryBase, cutMem, load_store_disjoint (by omega), load_store_same]
    exact Nat.mod_eq_of_lt hrange
  · rw [entryLength, cutMem, load_store_same]
    exact Nat.mod_eq_of_lt (by omega)

theorem cutMem_header (htotal : total < 2 ^ 64)
    (hapart : entryBase m p + offset ≤ p ∨ p + 24 ≤ entryBase m p + offset) :
    (cutMem m offset p total).load (entryBase m p + offset) 8 = total := by
  rw [cutMem, load_store_disjoint (by omega), load_store_disjoint (by omega), load_store_same]
  exact Nat.mod_eq_of_lt htotal

/-- Taking no bytes writes a header and leaves the entry as it is. -/
theorem cutMem_zero (hapart : entryBase m p + offset ≤ p ∨ p + 24 ≤ entryBase m p + offset) :
    cutMem m offset p 0 = m.store (entryBase m p + offset) 8 0 := by
  have hhead : SameOn m (m.store (entryBase m p + offset) 8 0) (p + 8) 16 :=
    sameOn_store (by omega)
  have hbase : m.load (p + 8) 8 = (m.store (entryBase m p + offset) 8 0).load (p + 8) 8 :=
    (hhead.load (by omega) (by omega)).symm
  have hlen : m.load (p + 16) 8 = (m.store (entryBase m p + offset) 8 0).load (p + 16) 8 :=
    (hhead.load (by omega) (by omega)).symm
  show ((m.store (entryBase m p + offset) 8 0).store (p + 8) 8 (m.load (p + 8) 8)).store (p + 16) 8
    (m.load (p + 16) 8) = _
  rw [hbase, store_load_same, hlen, store_load_same]

end

namespace SlobInv

variable {total : Nat} (hinv : SlobInv P s live heap) (hx : x ∈ P.records heap)
  (hcell : 8 ≤ entryLength s.mem (x + P.offset))
include hinv hx hcell

/-- A header that fits into its entry lies in no record. -/
theorem header_apart_record (hy : y ∈ P.records heap) :
    y + 24 ≤ entryBase s.mem (x + P.offset) ∨ entryBase s.mem (x + P.offset) + 8 ≤ y := by
  have hclear := hinv.entry_clear_record hx (by omega) hy
  omega

/-- Other records are not touched. -/
theorem sameOn_record (hy : y ∈ P.records heap) (hne : y ≠ x) :
    SameOn s.mem (cutMem s.mem P.offset (x + P.offset) total) (y + P.offset) 24 := by
  have hhead := hinv.header_apart_record hx hcell hy
  have hrec := (hinv.record_apart hy hx hne).clear (recordSpan_pos y) (recordSpan_pos x)
  simp only [Span.Clear, recordSpan] at hrec
  exact sameOn_cutMem (by omega) (by omega)

/-- The list keeps its links. -/
theorem path_cutMem : Path (pNext (cutMem s.mem P.offset (x + P.offset) total)) s.pHead
    ((P.records heap).map fun x => x + P.offset) := by
  refine hinv.path.congr fun p hp => ?_
  obtain ⟨y, hy, rfl⟩ := List.mem_map.mp hp
  by_cases hyx : y = x
  · have hself := hinv.header_apart_record hx hcell hx
    have hlink : SameOn s.mem (cutMem s.mem P.offset (x + P.offset) total) (x + P.offset) 8 :=
      sameOn_cutMem (by omega) (by omega)
    rw [hyx]
    exact hlink.load (Nat.le_refl _) (Nat.le_refl _)
  · exact (hinv.sameOn_record hx hcell hy hyx).load (Nat.le_refl _) (by omega)

end SlobInv

/-! ## Splitting a block off an entry -/

/-- The memory after a block of `size` bytes has been split off the entry of record `x`. -/
def splitMem (m : Memory) (offset x size : Nat) : Memory :=
  ((m.store (entryBase m (x + offset) + offset) 8 (8 + size)).store (x + offset + 8) 8
    (entryBase m (x + offset) + (8 + size))).store (x + offset + 16) 8
    (entryLength m (x + offset) - (8 + size))

theorem splitMem_eq_cutMem (m : Memory) (offset x size : Nat) :
    splitMem m offset x size = cutMem m offset (x + offset) (8 + size) := rfl

namespace SlobInv

variable (hinv : SlobInv P s live heap) (hx : x ∈ P.records heap)
  (hfit : 8 + size ≤ entryLength s.mem (x + P.offset))
include hinv hx hfit

theorem header_apart_block (hb : b ∈ live) :
    b.base P.offset + 8 ≤ entryBase s.mem (x + P.offset) ∨
      entryBase s.mem (x + P.offset) + 8 ≤ b.base P.offset := by
  have hpos : 0 < (entrySpan s.mem (x + P.offset)).len :=
    Nat.lt_of_lt_of_le (by omega : 0 < 8 + size) hfit
  have := (hinv.entry_apart_block hx hb).clear hpos (b.span_pos _)
  simp only [Span.Clear, entrySpan, SlobBlock.span] at this
  omega

theorem slobSplit_eq : slobSplit s size (x + P.offset) =
    (entryBase s.mem (x + P.offset) + 8 + P.offset,
      s.setMem (splitMem s.mem P.offset x size)) := by
  have hrange := (hinv.entry_inRange hx (by omega)).2
  have hrec := hinv.header_apart_record hx (by omega) hx
  have hoff := hinv.offset
  rw [slobSplit_eq_cutMem (add64_eq (show 8 + size < 2 ^ 64 by omega)) hfit (by omega) (by omega)
    (by omega), hoff, add64_eq (show entryBase s.mem (x + P.offset) + 8 < 2 ^ 64 by omega),
    add64_eq (show entryBase s.mem (x + P.offset) + 8 + P.offset < 2 ^ 64 by omega),
    splitMem_eq_cutMem]

/-- Headers of live blocks are not touched. -/
theorem sameOn_header (hb : b ∈ live) :
    SameOn s.mem (splitMem s.mem P.offset x size) (b.base P.offset + P.offset) 8 := by
  have hhead := hinv.header_apart_block hx hfit hb
  have hrec := (hinv.block_apart_record hb hx).clear (b.span_pos _) (recordSpan_pos x)
  simp only [Span.Clear, recordSpan, SlobBlock.span] at hrec
  exact sameOn_cutMem (by omega) (by omega)

/-- The entry that was split. -/
theorem splitMem_entry :
    pNext (splitMem s.mem P.offset x size) (x + P.offset) = pNext s.mem (x + P.offset) ∧
      entrySpan (splitMem s.mem P.offset x size) (x + P.offset) =
        ⟨entryBase s.mem (x + P.offset) + (8 + size),
          entryLength s.mem (x + P.offset) - (8 + size)⟩ ∧
      (splitMem s.mem P.offset x size).load (entryBase s.mem (x + P.offset) + P.offset) 8
        = 8 + size := by
  have hrange := (hinv.entry_inRange hx (by omega)).2
  have hrec := hinv.header_apart_record hx (by omega) hx
  have hlink : SameOn s.mem (splitMem s.mem P.offset x size) (x + P.offset) 8 :=
    sameOn_cutMem (by omega) (by omega)
  exact ⟨hlink.load (Nat.le_refl _) (Nat.le_refl _), cutMem_span hfit (by omega),
    cutMem_header (by omega) (by omega)⟩

/-- The lengths of the entries after the split. -/
theorem splitMem_length (hy : y ∈ P.records heap) :
    entryLength (splitMem s.mem P.offset x size) (y + P.offset)
      = entryLength s.mem (y + P.offset) - if y = x then 8 + size else 0 := by
  by_cases hyx : y = x
  · have hlen := (entrySpan_eq_iff.mp (hinv.splitMem_entry hx hfit).2.1).2
    rw [if_pos hyx, hyx, hlen]
  · rw [if_neg hyx]
    exact (hinv.sameOn_record hx (by omega) hy hyx).load (by omega) (by omega)

/-- The block and the entries after the split cover what the entries covered before. -/
theorem splitMem_cover (a : Nat) : Span.cover (P.entries (splitMem s.mem P.offset x size) heap) a +
    Span.cover [⟨entryBase s.mem (x + P.offset), 8 + size⟩] a
      = Span.cover (P.entries s.mem heap) a := by
  have hentry := (hinv.splitMem_entry hx hfit).2.1
  have hsame : ∀ y ∈ P.records heap, y ≠ x →
      entrySpan (splitMem s.mem P.offset x size) (y + P.offset) = entrySpan s.mem (y + P.offset) := by
    intro y hy hyx
    have hs : SameOn s.mem (splitMem s.mem P.offset x size) (y + P.offset) 24 :=
      hinv.sameOn_record hx (by omega) hy hyx
    exact congrArg₂ Span.mk (hs.load (by omega) (by omega)) (hs.load (by omega) (by omega))
  have hexchange := Span.cover_map_exchange hinv.records_nodup hx hsame a
  have hcover : Span.cover [⟨entryBase s.mem (x + P.offset), 8 + size⟩,
      ⟨entryBase s.mem (x + P.offset) + (8 + size),
        entryLength s.mem (x + P.offset) - (8 + size)⟩] a
      = Span.cover [entrySpan s.mem (x + P.offset)] a := Span.cover_split hfit
  rw [Pool.entries, Pool.entries]
  rw [hentry] at hexchange
  simp only [Span.cover_cons, Span.cover_nil] at hexchange hcover ⊢
  omega

/-- **Splitting keeps the invariant**: the front of the entry becomes a live block. -/
theorem split :
    SlobInv P (slobSplit s size (x + P.offset)).2
      (⟨(slobSplit s size (x + P.offset)).1, size⟩ :: live) heap := by
  have hheader := (hinv.splitMem_entry hx hfit).2.2
  have hbase : (⟨entryBase s.mem (x + P.offset) + 8 + P.offset, size⟩ : SlobBlock).base P.offset
      = entryBase s.mem (x + P.offset) := by
    show entryBase s.mem (x + P.offset) + 8 + P.offset - (8 + P.offset) = _
    omega
  rw [hinv.slobSplit_eq hx hfit]
  refine ⟨hinv.ok, hinv.offset, hinv.init, hinv.path_cutMem hx (by omega), fun a => ?_, ?_⟩
  · rw [← hinv.partition a]
    have hcover := hinv.splitMem_cover hx hfit a
    show Span.cover (P.entries (splitMem s.mem P.offset x size) heap) a + _ + _ = _
    simp only [List.map_cons, Span.cover_cons, Span.cover_nil, SlobBlock.span, hbase] at hcover ⊢
    omega
  · rw [List.forall_mem_cons]
    refine ⟨⟨?_, ?_⟩, fun b hb => ⟨(hinv.headers b hb).1, ?_⟩⟩
    · show 8 + P.offset ≤ entryBase s.mem (x + P.offset) + 8 + P.offset
      omega
    · rw [hbase]
      exact hheader
    · rw [← (hinv.headers b hb).2]
      exact (hinv.sameOn_header hx hfit hb).load (Nat.le_refl _) (Nat.le_refl _)

end SlobInv

/-! ## Linking in the record of a freed block -/

namespace SlobInv

variable (hinv : SlobInv P s live heap)
include hinv

theorem block_inRange (hb : b ∈ live) : b.base P.offset + 8 + b.size + P.offset < 2 ^ 64 := by
  have hlast : (b.span P.offset).Has (b.base P.offset + 8 + b.size - 1) := by
    simp only [SlobBlock.span, Span.has_iff]
    omega
  have hpos : 0 < Span.cover (live.map (SlobBlock.span P.offset)) (b.base P.offset + 8 + b.size - 1) :=
    Span.cover_pos.mpr ⟨_, List.mem_map_of_mem hb, hlast⟩
  have hpart := hinv.partition (b.base P.offset + 8 + b.size - 1)
  have hpool : 0 < Span.cover P.spans (b.base P.offset + 8 + b.size - 1) := by omega
  obtain ⟨r, hr, -, h2⟩ := Span.cover_pos.mp hpool
  have := hinv.ok.inRange r hr
  omega

theorem ptr_eq (hb : b ∈ live) : b.ptr = b.base P.offset + 8 + P.offset := by
  have := (hinv.headers b hb).1
  show b.ptr = b.ptr - (8 + P.offset) + 8 + P.offset
  omega

theorem record_inRange (hx : x ∈ P.records heap) : x + 24 + P.offset < 2 ^ 64 := by
  rcases List.mem_append.mp hx with hx | hx
  · obtain ⟨y, hy, rfl⟩ := List.mem_map.mp hx
    have hlast : (nodeBlock y).Has (y + 31) := by
      simp only [nodeBlock, Span.has_iff]
      omega
    have hpos : 0 < Span.cover (heap.map nodeBlock) (y + 31) :=
      Span.cover_pos.mpr ⟨_, List.mem_map_of_mem hy, hlast⟩
    have hpart := hinv.partition (y + 31)
    have hpool : 0 < Span.cover P.spans (y + 31) := by omega
    obtain ⟨r, hr, -, h2⟩ := Span.cover_pos.mp hpool
    have := hinv.ok.inRange r hr
    omega
  · exact hinv.ok.tableInRange x hx

/-- A list that is not empty starts with the first record. -/
theorem exists_head (hne : s.pHead ≠ 0) :
    ∃ x rest, P.records heap = x :: rest ∧ s.pHead = x + P.offset := by
  have hpath := hinv.path
  cases hrec : P.records heap with
  | nil =>
    rw [hrec] at hpath
    exact absurd hpath hne
  | cons x rest =>
    rw [hrec] at hpath
    exact ⟨x, rest, rfl, hpath.1⟩

theorem pHead_lt : s.pHead < 2 ^ 64 := by
  by_cases hne : s.pHead = 0
  · omega
  · obtain ⟨x, rest, hrec, hhead⟩ := hinv.exists_head hne
    have := hinv.record_inRange (x := x) (by rw [hrec]; exact List.mem_cons_self)
    omega

end SlobInv

/-- The memory after the record at `pEntry` has been written. -/
def linkMem (m : Memory) (pEntry base length next : Nat) : Memory :=
  ((m.store (pEntry + 8) 8 base).store (pEntry + 16) 8 length).store pEntry 8 next

theorem sameOn_linkMem {m : Memory} {pEntry base length next n : Nat}
    (h : y + n ≤ pEntry ∨ pEntry + 24 ≤ y) : SameOn m (linkMem m pEntry base length next) y n :=
  ((sameOn_store (by omega)).trans (sameOn_store (by omega))).trans (sameOn_store (by omega))

theorem linkMem_span {m : Memory} {pEntry base length next : Nat} (h1 : base < 2 ^ 64)
    (h2 : length < 2 ^ 64) :
    entrySpan (linkMem m pEntry base length next) pEntry = ⟨base, length⟩ := by
  refine congrArg₂ Span.mk ?_ ?_
  · rw [entryBase, linkMem, load_store_disjoint (by omega), load_store_disjoint (by omega),
      load_store_same]
    exact Nat.mod_eq_of_lt h1
  · rw [entryLength, linkMem, load_store_disjoint (by omega), load_store_same]
    exact Nat.mod_eq_of_lt h2

theorem linkMem_entry {m : Memory} {pEntry base length next : Nat} (h1 : base < 2 ^ 64)
    (h2 : length < 2 ^ 64) (h3 : next < 2 ^ 64) :
    pNext (linkMem m pEntry base length next) pEntry = next ∧
      entrySpan (linkMem m pEntry base length next) pEntry = ⟨base, length⟩ := by
  refine ⟨?_, linkMem_span h1 h2⟩
  rw [pNext, linkMem, load_store_same]
  exact Nat.mod_eq_of_lt h3

/-- The header is read after the first field has been written. -/
theorem slobLink_eq_linkMem {pEntry base length : Nat} (hcell : base + s.offset < 2 ^ 64)
    (hload : s.mem.load (base + s.offset) 8 = length)
    (hapart : base + s.offset ≤ pEntry ∨ pEntry + 24 ≤ base + s.offset) :
    slobLink s (base + s.offset) pEntry =
      { s.setMem (linkMem s.mem pEntry base length s.pHead) with pHead := pEntry } := by
  have hread : (s.mem.store (pEntry + 8) 8 base).load (base + s.offset) 8 = length := by
    rw [load_store_disjoint (by omega), hload]
  simp only [slobLink, sub64_eq (Nat.le_add_left s.offset base) hcell, Nat.add_sub_cancel, hread,
    linkMem]

namespace SlobInv

variable {pEntry : Nat} (hinv : SlobInv P s (⟨pEntry, 24⟩ :: live) heap)
include hinv

/-- The block for the record does not touch other blocks. -/
theorem node_apart_block (hb : b ∈ live) :
    b.base P.offset + P.offset + 8 ≤ pEntry ∨ pEntry + 24 ≤ b.base P.offset + P.offset := by
  have hentry := hinv.ptr_eq List.mem_cons_self
  have hapart := (List.pairwise_cons.mp hinv.live_apart).1 _ (List.mem_map_of_mem hb)
  have hclear := hapart.clear (SlobBlock.span_pos _ _) (b.span_pos _)
  simp only [Span.Clear, SlobBlock.span] at hclear
  simp only at hentry
  omega

theorem node_apart_record (hy : y ∈ P.records heap) :
    y + P.offset + 24 ≤ pEntry ∨ pEntry + 24 ≤ y + P.offset := by
  have hentry := hinv.ptr_eq List.mem_cons_self
  have hclear := (hinv.block_apart_record List.mem_cons_self hy).clear (SlobBlock.span_pos _ _)
    (recordSpan_pos y)
  simp only [Span.Clear, SlobBlock.span, recordSpan] at hclear
  simp only at hentry
  omega

theorem slobLink_eq (hb : b ∈ live) : slobLink s (sub64 b.ptr 8) pEntry =
    { s.setMem (linkMem s.mem pEntry (b.base P.offset) (8 + b.size) s.pHead) with
      pHead := pEntry } := by
  have hb' := List.mem_cons_of_mem (⟨pEntry, 24⟩ : SlobBlock) hb
  have hptr := hinv.ptr_eq hb'
  have hrange := hinv.block_inRange hb'
  have hnode := hinv.node_apart_block hb
  have hoff := hinv.offset
  have hheader : sub64 b.ptr 8 = b.base P.offset + s.offset := by
    rw [sub64_eq (by omega) (by omega)]
    omega
  rw [hheader]
  refine slobLink_eq_linkMem (by omega) ?_ (by omega)
  rw [hoff]
  exact (hinv.headers b hb').2

/-- **Linking keeps the invariant.** The record describes a range that some of the live blocks made
up, and the block that was allocated for it becomes a node block. -/
theorem linkEntry {live' : List SlobBlock} {base length : Nat} (hbase : base < 2 ^ 64)
    (hlength : length < 2 ^ 64) (hsub : ∀ c ∈ live', c ∈ live)
    (hcover : ∀ a, Span.cover (live'.map (SlobBlock.span P.offset)) a + Span.cover [⟨base, length⟩] a
      = Span.cover (live.map (SlobBlock.span P.offset)) a) :
    SlobInv P { s.setMem (linkMem s.mem pEntry base length s.pHead) with pHead := pEntry }
      live' ((pEntry - (8 + P.offset)) :: heap) := by
  obtain ⟨x, hx⟩ : ∃ x, x = pEntry - (8 + P.offset) := ⟨_, rfl⟩
  have hnode : (⟨pEntry, 24⟩ : SlobBlock).base P.offset = x := hx.symm
  have hentry : pEntry = x + 8 + P.offset := by
    rw [← hnode]
    exact hinv.ptr_eq List.mem_cons_self
  rw [← hx]
  generalize hm : linkMem s.mem pEntry base length s.pHead = m
  obtain ⟨hnext, hspan⟩ : pNext m pEntry = s.pHead ∧ entrySpan m pEntry = ⟨base, length⟩ := by
    rw [← hm]
    exact linkMem_entry hbase hlength hinv.pHead_lt
  have hrec : ∀ y ∈ P.records heap, SameOn s.mem m (y + P.offset) 24 := by
    intro y hy
    rw [← hm]
    exact sameOn_linkMem (hinv.node_apart_record hy)
  refine ⟨hinv.ok, hinv.offset, hinv.init, ?_, fun a => ?_, fun c hc => ?_⟩
  · show Path (pNext m) pEntry ((x + 8 + P.offset) :: (P.records heap).map fun x => x + P.offset)
    refine ⟨hentry, by omega, ?_⟩
    rw [← hentry, hnext]
    refine hinv.path.congr fun p hp => ?_
    obtain ⟨y, hy, rfl⟩ := List.mem_map.mp hp
    exact (hrec y hy).load (Nat.le_refl _) (by omega)
  · rw [← hinv.partition a]
    show Span.cover (entrySpan m (x + 8 + P.offset) :: P.entries m heap) a + _ +
      Span.cover (nodeBlock x :: heap.map nodeBlock) a = _
    have hblocks := hcover a
    have hblock : (⟨pEntry, 24⟩ : SlobBlock).span P.offset = nodeBlock x := by
      rw [SlobBlock.span, hnode]
      rfl
    rw [← hentry, hspan, P.entries_congr hrec]
    simp only [List.map_cons, Span.cover_cons, Span.cover_nil, hblock] at hblocks ⊢
    omega
  · have hc' := hsub c hc
    have hsame : SameOn s.mem m (c.base P.offset + P.offset) 8 := by
      rw [← hm]
      exact sameOn_linkMem (hinv.node_apart_block hc')
    refine ⟨(hinv.headers c (List.mem_cons_of_mem _ hc')).1, ?_⟩
    rw [← (hinv.headers c (List.mem_cons_of_mem _ hc')).2]
    exact hsame.load (Nat.le_refl _) (Nat.le_refl _)

/-- **The record of a freed block** turns the block into an entry. -/
theorem link (hb : b ∈ live) : SlobInv P (slobLink s (sub64 b.ptr 8) pEntry) (live.erase b)
    ((pEntry - (8 + P.offset)) :: heap) := by
  have hrange := hinv.block_inRange (List.mem_cons_of_mem (⟨pEntry, 24⟩ : SlobBlock) hb)
  rw [hinv.slobLink_eq hb]
  refine hinv.linkEntry (by omega) (by omega) (fun c hc => List.mem_of_mem_erase hc) fun a => ?_
  have hperm := Span.cover_perm (a := a) ((List.perm_cons_erase hb).map (SlobBlock.span P.offset))
  rw [List.map_cons, Span.cover_cons] at hperm
  rw [Span.cover_cons, Span.cover_nil, hperm, Nat.zero_add]
  rfl

end SlobInv

end BloreOs
