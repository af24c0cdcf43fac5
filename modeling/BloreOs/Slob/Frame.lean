import BloreOs.Slob.Runs

/-!
# Where SLOB writes

Everything SLOB writes is usable memory of the map that its `slob_init` was given: the table, and
the pool. Other memory, in particular the tables of the page allocator, keeps its bytes
(`slobInit_outside`, `SlobInv.slobMalloc_outside`, `SlobInv.slobFree_outside`).

There is one exception. `slob_free` does not check the result of its inner `slob_malloc`. Without
room for the record it writes to the addresses below 24, and the list is lost (`slobFree_lost`).
-/

namespace BloreOs

open Memory

variable {P : Pool} {s s' t : Slob} {live : List SlobBlock} {heap : List Nat} {b : SlobBlock}
variable {es es' : List MemmapEntry} {a p x size hhdm : Nat}

/-- The address `a` of the direct map points to usable memory of the map `es`. -/
def Mapped (hhdm : Nat) (es : List MemmapEntry) (a : Nat) : Prop :=
  hhdm ≤ a ∧ 0 < Span.cover (usableSpans es) (a - hhdm)

theorem Mapped.of_carve {c : Nat} (hok : MemmapOk hhdm es) (hc : carve size es = some (c, es'))
    (h : Mapped hhdm es' a) : Mapped hhdm es a := by
  have := carve_cover hok hc (a - hhdm)
  have := h.2
  exact ⟨h.1, by omega⟩

/-- The address `a` of the direct map points to the pool or to a record of the table. -/
def Pool.Owns (P : Pool) (a : Nat) : Prop :=
  P.offset ≤ a ∧
    0 < Span.cover P.spans (a - P.offset) + Span.cover (P.table.map recordSpan) (a - P.offset)

/-! ## `slob_init` -/

section

variable (hok : MemmapOk s.offset s.pmm.memmap) (hcount : (usable s.pmm.memmap).length < 2 ^ 31)
  (h : slobInit s = .ret () s')
include hok hcount h

/-- The new pool and its table are usable memory of the old map. -/
theorem slobInit_owns (ha : (poolOf s').Owns a) : Mapped s.offset s.pmm.memmap a := by
  obtain ⟨b, n, hn, hc, -, hoff, -, hrow, -⟩ := slobInit_table hok hcount h
  have hoff' : (poolOf s').offset = s.offset := hoff
  obtain ⟨h1, h2⟩ := ha
  rw [hoff', hrow] at h2
  rw [hoff'] at h1
  have hcover := carve_cover hok hc (a - s.offset)
  have hrows := cover_rows_le b n (le_alignUp (show 24 * n + 4095 < 2 ^ 64 by omega)) (a - s.offset)
  have hspans : (poolOf s').spans = usableSpans s'.pmm.memmap := rfl
  rw [hspans] at h2
  exact ⟨h1, by omega⟩

theorem slobInit_outside (ha : ¬ Mapped s.offset s.pmm.memmap a) : s'.mem a = s.mem a := by
  obtain ⟨b, n, hn, hc, -, -, -, -, htable⟩ := slobInit_table hok hcount h
  have hle : 24 * n ≤ alignUp (24 * n) pageSize := le_alignUp (by omega)
  -- what is written lies in the carved range
  have hout : a < b + s.offset ∨ b + s.offset + alignUp (24 * n) pageSize ≤ a := by
    by_contra hin
    refine ha ⟨by omega, ?_⟩
    have hhas : 0 < Span.cover [⟨b, alignUp (24 * n) pageSize⟩] (a - s.offset) := by
      refine Span.cover_pos.mpr ⟨_, List.mem_singleton_self _, ?_, ?_⟩
      · show b ≤ a - s.offset
        omega
      · show a - s.offset < b + alignUp (24 * n) pageSize
        omega
    have := carve_cover hok hc (a - s.offset)
    omega
  rw [htable.outside a (by omega), fill_outside hout]

end

/-! ## `slob_malloc` and `slob_free` -/

namespace SlobInv

variable (hinv : SlobInv P s live heap)
include hinv

theorem owns_of_entry (hx : x ∈ P.records heap) (h1 : P.offset ≤ a)
    (ha : (entrySpan s.mem (x + P.offset)).Has (a - P.offset)) : P.Owns a :=
  ⟨h1, Nat.add_pos_left (hinv.cover_entry_le hx ha) _⟩

theorem owns_of_block (hb : b ∈ live) (h1 : P.offset ≤ a)
    (ha : (b.span P.offset).Has (a - P.offset)) : P.Owns a := by
  have hpos : 0 < Span.cover (live.map (SlobBlock.span P.offset)) (a - P.offset) :=
    Span.cover_pos.mpr ⟨_, List.mem_map_of_mem hb, ha⟩
  have := hinv.partition (a - P.offset)
  exact ⟨h1, by omega⟩

theorem owns_of_record (hx : x ∈ P.records heap) (h1 : x + P.offset ≤ a)
    (h2 : a < x + P.offset + 24) : P.Owns a := by
  refine ⟨by omega, ?_⟩
  rcases List.mem_append.mp hx with hx | hx
  · obtain ⟨y, hy, rfl⟩ := List.mem_map.mp hx
    have hpos : 0 < Span.cover (heap.map nodeBlock) (a - P.offset) := by
      refine Span.cover_pos.mpr ⟨_, List.mem_map_of_mem hy, ?_⟩
      simp only [nodeBlock, Span.has_iff]
      omega
    have := hinv.partition (a - P.offset)
    omega
  · refine Nat.add_pos_right _ (Span.cover_pos.mpr ⟨_, List.mem_map_of_mem hx, ?_⟩)
    simp only [recordSpan, Span.has_iff]
    omega

theorem splitMem_outside (hx : x ∈ P.records heap)
    (hfit : 8 + size ≤ entryLength s.mem (x + P.offset)) (ha : ¬ P.Owns a) :
    splitMem s.mem P.offset x size a = s.mem a := by
  have hhead : a < entryBase s.mem (x + P.offset) + P.offset ∨
      entryBase s.mem (x + P.offset) + P.offset + 8 ≤ a := by
    by_contra hin
    refine ha (hinv.owns_of_entry hx (by omega) ⟨?_, ?_⟩)
    · show entryBase s.mem (x + P.offset) ≤ a - P.offset
      omega
    · show a - P.offset < entryBase s.mem (x + P.offset) + entryLength s.mem (x + P.offset)
      omega
  have hrec : a < x + P.offset ∨ x + P.offset + 24 ≤ a := by
    by_contra hin
    exact ha (hinv.owns_of_record hx (by omega) (by omega))
  rw [splitMem, store_outside (by omega), store_outside (by omega), store_outside (by omega)]

/-- `slob_malloc` writes to the pool and the table only. -/
theorem slobMalloc_outside (hsize : size + 8 < 2 ^ 64) (heq : BloreOs.slobMalloc size s = .ret p t) :
    t = s.setMem t.mem ∧ ∀ a, ¬ P.Owns a → t.mem a = s.mem a := by
  rcases hinv.slobMalloc_cases hsize with ⟨-, h0⟩ | ⟨x, hx, hfit, hsplit⟩
  · rw [h0] at heq
    cases heq
    exact ⟨rfl, fun _ _ => rfl⟩
  · rw [hsplit, hinv.slobSplit_eq hx hfit] at heq
    cases heq
    exact ⟨rfl, fun a ha => hinv.splitMem_outside hx hfit ha⟩

end SlobInv

theorem slobLink_outside {pHeader pEntry : Nat} (ha : a < pEntry ∨ pEntry + 24 ≤ a) :
    (slobLink s pHeader pEntry).mem a = s.mem a := by
  show Memory.store (Memory.store (Memory.store _ _ _ _) _ _ _) _ _ _ a = s.mem a
  rw [store_outside (by omega), store_outside (by omega), store_outside (by omega)]

/-- `slob_free` writes to the pool and the table only, if there is room for the record. -/
theorem SlobInv.slobFree_outside (hinv : SlobInv P s live heap)
    (heq : BloreOs.slobMalloc 24 s = .ret p t) (hp : p ≠ 0) (pHeader : Nat) (ha : ¬ P.Owns a) :
    (slobLink t pHeader p).mem a = s.mem a := by
  have hinv' := hinv.slobMalloc (by decide) heq hp
  have hptr := hinv'.ptr_eq List.mem_cons_self
  rw [slobLink_outside, (hinv.slobMalloc_outside (by decide) heq).2 a ha]
  by_contra hin
  simp only at hptr
  refine ha (hinv'.owns_of_block List.mem_cons_self (by omega) ⟨?_, ?_⟩)
  · show (⟨p, 24⟩ : SlobBlock).base P.offset ≤ a - P.offset
    omega
  · show a - P.offset < (⟨p, 24⟩ : SlobBlock).base P.offset + (8 + 24)
    omega

/-! ## The list that is lost -/

/-- Once the list is lost, every `slob_malloc` fails. -/
theorem slobMalloc_lost (h1 : s.init = true) (h2 : s.pHead = 0) (size : Nat) :
    slobMalloc size s = .ret 0 s := by
  rw [slobMalloc, slobReady, if_pos h1, Outcome.ret_bind, slobFind, h2]
  rfl

/-- A `slob_free` without room for the record writes to the addresses below 24 and loses the
list. -/
theorem slobFree_lost (h : slobMalloc 24 s = .ret 0 s) (ptr : Nat) :
    slobFree ptr s = .ret () (slobLink s (sub64 ptr 8) 0) ∧
      (slobLink s (sub64 ptr 8) 0).pHead = 0 := by
  refine ⟨by rw [slobFree, h, Outcome.ret_bind], rfl⟩

end BloreOs
