import BloreOs.Mem.Init
import BloreOs.Slob.Pool

/-!
# `slob_init`

`slob_init` takes a table from the memory map and writes one record for every usable entry that
the map holds after that. `slobInit_inv` says that the result is a pool in which everything is
still free: the entries are the usable ranges, and the table lies outside of them.
-/

namespace BloreOs

open Chain Memory

variable {s s' : Slob} {es : List MemmapEntry}

/-! ## Writing the table -/

/-- What the loop over the entries `es` has written, from record `i` on. -/
structure TableOf (pHead n i : Nat) (es : List MemmapEntry) (m m' : Memory) : Prop where
  path : Path (pNext m') (if usable es = [] then 0 else pHead + 24 * i)
    ((List.range' i (usable es).length).map fun j => pHead + 24 * j)
  spans : (List.range' i (usable es).length).map (fun j => entrySpan m' (pHead + 24 * j))
    = usableSpans es
  outside : ∀ a, a < pHead + 24 * i ∨ pHead + 24 * n ≤ a → m' a = m a

theorem tableOf_initEntries {pHead n : Nat} (h0 : pHead ≠ 0) (h64 : pHead + 24 * n < 2 ^ 64) :
    ∀ (es : List MemmapEntry) (i : Nat) (m : Memory),
      (∀ e ∈ usable es, e.base < 2 ^ 64 ∧ e.length < 2 ^ 64) → i + (usable es).length = n →
      TableOf pHead n i es m (initEntries pHead n es i m)
  | [], i, m, _, _ => by
    refine ⟨rfl, rfl, fun _ _ => rfl⟩
  | e :: es, i, m, hes, hi => by
    by_cases hu : e.type = .usable
    · rw [usable_cons_of_pos hu, List.forall_mem_cons] at hes
      rw [usable_cons_of_pos hu, List.length_cons] at hi
      have ih := tableOf_initEntries h0 h64 es (i + 1)
        (((m.store (pHead + 24 * i + 16) 8 e.length).store (pHead + 24 * i + 8) 8 e.base).store
          (pHead + 24 * i) 8 (if i + 1 < n then pHead + 24 * (i + 1) else 0)) hes.2 (by omega)
      have heq : initEntries pHead n (e :: es) i m = initEntries pHead n es (i + 1)
          (((m.store (pHead + 24 * i + 16) 8 e.length).store (pHead + 24 * i + 8) 8 e.base).store
            (pHead + 24 * i) 8 (if i + 1 < n then pHead + 24 * (i + 1) else 0)) := by
        rw [initEntries, if_pos hu]
      rw [heq]
      generalize initEntries pHead n es (i + 1) _ = m' at ih
      -- the records behind this one leave it as it is
      have hsame : ∀ a k, pHead + 24 * i ≤ a → a + k ≤ pHead + 24 * (i + 1) → m'.load a k = _ :=
        fun a k _ h2 => load_congr k fun b _ h3 => ih.outside b (by omega)
      have hnext : pNext m' (pHead + 24 * i)
          = if usable es = [] then 0 else pHead + 24 * (i + 1) := by
        rw [pNext, hsame _ _ (Nat.le_refl _) (by omega)]
        by_cases hnil : usable es = []
        · rw [hnil, List.length_nil] at hi
          rw [if_neg (by omega), if_pos hnil]
          exact (load_store_same 8).trans (Nat.zero_mod _)
        · have hpos := List.length_pos_iff.mpr hnil
          rw [if_pos (by omega), if_neg hnil, load_store_same]
          exact Nat.mod_eq_of_lt (by omega)
      have hspan : entrySpan m' (pHead + 24 * i) = e.span := by
        refine congrArg₂ Span.mk ?_ ?_
        · rw [entryBase, hsame _ _ (by omega) (by omega), load_store_disjoint (by omega),
            load_store_same]
          exact Nat.mod_eq_of_lt hes.1.1
        · rw [entryLength, hsame _ _ (by omega) (by omega), load_store_disjoint (by omega),
            load_store_disjoint (by omega), load_store_same]
          exact Nat.mod_eq_of_lt hes.1.2
      constructor
      · rw [usable_cons_of_pos hu, if_neg (List.cons_ne_nil _ _), List.length_cons,
          List.range'_succ, List.map_cons]
        refine ⟨rfl, by omega, ?_⟩
        rw [hnext]
        exact ih.path
      · rw [usableSpans, usable_cons_of_pos hu, List.length_cons, List.range'_succ, List.map_cons,
          List.map_cons, hspan, ih.spans]
        rfl
      · intro a ha
        rw [ih.outside a (by omega), store_outside (by omega), store_outside (by omega),
          store_outside (by omega)]
    · have heq : initEntries pHead n (e :: es) i m = initEntries pHead n es i m := by
        rw [initEntries, if_neg hu]
      rw [usable_cons_of_neg hu] at hes hi
      have ih := tableOf_initEntries h0 h64 es i m hes hi
      rw [heq]
      refine ⟨?_, ?_, ih.outside⟩
      · rw [usable_cons_of_neg hu]
        exact ih.path
      · rw [usableSpans, usable_cons_of_neg hu]
        exact ih.spans

/-- A row of records covers what the row covers. -/
theorem cover_row (b a : Nat) : ∀ (i k : Nat),
    Span.cover ((List.range' i k).map fun j => recordSpan (b + 24 * j)) a
      = Span.cover [⟨b + 24 * i, 24 * k⟩] a
  | i, 0 => by simp [Span.cover_cons, Span.has_iff]
  | i, k + 1 => by
    have hsplit := Span.cover_split (a := a) (b := b + 24 * i) (show 24 ≤ 24 * (k + 1) by omega)
    rw [List.range'_succ, List.map_cons, Span.cover_cons, cover_row b a (i + 1) k, ← hsplit,
      show 24 * (k + 1) - 24 = 24 * k by omega, show b + 24 * (i + 1) = b + 24 * i + 24 by omega]
    simp only [Span.cover_cons, Span.cover_nil]
    rfl

theorem cover_rows_le (b n : Nat) {size : Nat} (h : 24 * n ≤ size) (a : Nat) :
    Span.cover (((List.range' 0 n).map fun i => b + 24 * i).map recordSpan) a
      ≤ Span.cover [⟨b, size⟩] a := by
  rw [List.map_map, Function.comp_def, cover_row b a 0 n, Nat.mul_zero, Nat.add_zero]
  simp only [Span.cover_cons, Span.cover_nil, Span.has_iff]
  split <;> split <;> omega

/-! ## The pool after `slob_init` -/

/-- The pool that a `slob_init` leaves, seen from the state after it. -/
def poolOf (s : Slob) : Pool where
  offset := s.offset
  spans := usableSpans s.pmm.memmap
  table := (List.range' 0 (usable s.pmm.memmap).length).map fun i => s.pHead - s.offset + 24 * i

/-- **`slob_init` that finds room for its table.** -/
theorem slobInit_cases (hok : MemmapOk s.offset s.pmm.memmap)
    (hcount : (usable s.pmm.memmap).length < 2 ^ 31) (h : slobInit s = .ret () s') :
    ∃ b rest, carve (alignUp (24 * (usable s.pmm.memmap).length) pageSize) s.pmm.memmap
        = some (b, rest) ∧
      s' = { s with
        pHead := b + s.offset
        pmm := { s.pmm with
          memmap := rest
          maxPagesAvailable := sub64 s.pmm.maxPagesAvailable
            (alignUp (24 * (usable s.pmm.memmap).length) pageSize / pageSize)
          mem := initEntries (b + s.offset) (usable s.pmm.memmap).length rest 0
            (s.mem.fill (b + s.offset)
              (alignUp (24 * (usable s.pmm.memmap).length) pageSize) 0) } } := by
  have hmul : mul64 24 (usable s.pmm.memmap).length = 24 * (usable s.pmm.memmap).length :=
    mul64_eq (by omega)
  simp only [slobInit, memmapAlloc, hmul] at h
  cases hc : carve (alignUp (24 * (usable s.pmm.memmap).length) pageSize) s.pmm.memmap with
  | none =>
    simp only [hc, hcf] at h
    cases h
  | some r =>
    obtain ⟨b, rest⟩ := r
    have hp : add64 b s.pmm.vmmHigherHalfOffset = b + s.offset := (carve_pointer hok hc).1
    simp only [hc, hp, Outcome.ret.injEq, true_and] at h
    exact ⟨b, rest, rfl, h.symm⟩

/-- `slob_init` returns if an entry has room for the table, and halts otherwise. -/
theorem slobInit_ret {b : Nat} {rest : List MemmapEntry} (hok : MemmapOk s.offset s.pmm.memmap)
    (hmax : s.pmm.maxPagesAvailable = usablePages s.pmm.memmap)
    (hcount : (usable s.pmm.memmap).length < 2 ^ 31)
    (hc : carve (alignUp (24 * (usable s.pmm.memmap).length) pageSize) s.pmm.memmap = some (b, rest)) :
    ∃ s', slobInit s = .ret () s' ∧ s'.init = s.init ∧ s'.pHead = b + s.offset ∧
      s'.pmm = { s.pmm with
        memmap := rest
        maxPagesAvailable := usablePages rest
        mem := s'.mem } := by
  have hmul : mul64 24 (usable s.pmm.memmap).length = 24 * (usable s.pmm.memmap).length :=
    mul64_eq (by omega)
  simp only [slobInit, hmul, memmapAlloc_eq hok hmax hc]
  exact ⟨_, rfl, rfl, rfl, rfl⟩

theorem slobInit_halt (hcount : (usable s.pmm.memmap).length < 2 ^ 31)
    (hc : carve (alignUp (24 * (usable s.pmm.memmap).length) pageSize) s.pmm.memmap = none) :
    slobInit s = .halt s := by
  have hmul : mul64 24 (usable s.pmm.memmap).length = 24 * (usable s.pmm.memmap).length :=
    mul64_eq (by omega)
  rw [← hmul] at hc
  simp only [slobInit, memmapAlloc_halt hc]

/-- Where `slob_init` has put its table, and what is written there. -/
theorem slobInit_table (hok : MemmapOk s.offset s.pmm.memmap)
    (hcount : (usable s.pmm.memmap).length < 2 ^ 31) (h : slobInit s = .ret () s') :
    ∃ b n, n = (usable s.pmm.memmap).length ∧
      carve (alignUp (24 * n) pageSize) s.pmm.memmap = some (b, s'.pmm.memmap) ∧ b ≠ 0 ∧
      s'.offset = s.offset ∧ s'.pHead = b + s.offset ∧
      (poolOf s').table = (List.range' 0 n).map (fun i => b + 24 * i) ∧
      TableOf (b + s.offset) n 0 s'.pmm.memmap
        (s.mem.fill (b + s.offset) (alignUp (24 * n) pageSize) 0) s'.mem := by
  obtain ⟨b, rest, hc, hs'⟩ := slobInit_cases hok hcount h
  obtain ⟨n, hn⟩ : ∃ n, n = (usable s.pmm.memmap).length := ⟨_, rfl⟩
  rw [← hn] at hc hs' hcount
  have hrest : (usable rest).length = n := by rw [carve_usable_length hc, hn]
  have hok' := hok.carve hc
  have hle : 24 * n ≤ alignUp (24 * n) pageSize := le_alignUp (by omega)
  have hrange := (carve_pointer hok hc).2
  obtain ⟨x, hx, hb, -⟩ := carve_span hc
  have hb0 : b ≠ 0 := by
    rw [hb.symm]
    exact hok.base_ne_zero x hx
  have hmap : s'.pmm.memmap = rest := by rw [hs']
  have hoff : s'.offset = s.offset := by rw [hs']; rfl
  have hhead : s'.pHead = b + s.offset := by rw [hs']
  refine ⟨b, n, hn, by rw [hmap]; exact hc, hb0, hoff, hhead, ?_, ?_⟩
  · simp only [poolOf, hmap, hrest, hhead, hoff, Nat.add_sub_cancel]
  · rw [hmap, hs']
    exact tableOf_initEntries (by omega) (by omega) rest 0 _
      (fun e he => by have := hok'.inRange e he; omega) (by omega)

/-- The list that `slob_init` leaves describes the usable ranges. -/
theorem slobInit_entries (hok : MemmapOk s.offset s.pmm.memmap)
    (hcount : (usable s.pmm.memmap).length < 2 ^ 31) (h : slobInit s = .ret () s') :
    (poolOf s').entries s'.mem [] = usableSpans s'.pmm.memmap := by
  obtain ⟨b, n, hn, hc, -, hoff, -, hrow, htable⟩ := slobInit_table hok hcount h
  have hoff' : (poolOf s').offset = s.offset := hoff
  rw [← htable.spans, carve_usable_length hc, ← hn, Pool.entries, Pool.records, List.map_nil,
    List.nil_append, hrow, List.map_map, hoff']
  refine List.map_congr_left fun j _ => ?_
  show entrySpan s'.mem (b + 24 * j + s.offset) = entrySpan s'.mem (b + s.offset + 24 * j)
  rw [Nat.add_right_comm]

/-- **After `slob_init` everything in the pool is free.** -/
theorem slobInit_inv (hok : MemmapOk s.offset s.pmm.memmap)
    (hcount : (usable s.pmm.memmap).length < 2 ^ 31) (h : slobInit s = .ret () s') :
    SlobInv (poolOf s') { s' with init := true } [] [] := by
  have hentries := slobInit_entries hok hcount h
  obtain ⟨b, n, hn, hc, hb0, hoff, hhead, hrow, htable⟩ := slobInit_table hok hcount h
  rw [← hn] at hcount
  have hrest : (usable s'.pmm.memmap).length = n := by rw [carve_usable_length hc, hn]
  have hok' := hok.carve hc
  have hle : 24 * n ≤ alignUp (24 * n) pageSize := le_alignUp (by omega)
  have hrange := (carve_pointer hok hc).2
  have hoff' : (poolOf s').offset = s.offset := hoff
  refine ⟨⟨fun a => ?_, fun r hr => ?_, fun y hy => ?_⟩, rfl, rfl, ?_, fun a => ?_, by simp⟩
  · -- the table was carved out of the usable ranges
    have hcover := carve_cover hok hc a
    have hone := Span.cover_le_one hok.apart a
    have hrows := cover_rows_le b n hle a
    rw [hrow]
    show Span.cover (usableSpans s'.pmm.memmap) a + _ ≤ 1
    omega
  · obtain ⟨e, he, rfl⟩ := List.mem_map.mp hr
    rw [hoff']
    exact ⟨hok'.base_ne_zero e he, hok'.inRange e he⟩
  · rw [hrow] at hy
    obtain ⟨i, hi, rfl⟩ := List.mem_map.mp hy
    have := List.mem_range'_1.mp hi
    rw [hoff']
    omega
  · have hne : usable s'.pmm.memmap ≠ [] := by
      intro hnil
      obtain ⟨x, hx, -⟩ := carve_span hc
      rw [hnil, List.length_nil] at hrest
      rw [← hrest] at hn
      exact List.ne_nil_of_mem hx (List.length_eq_zero_iff.mp hn.symm)
    have hpath := htable.path
    rw [if_neg hne, Nat.mul_zero, Nat.add_zero, hrest] at hpath
    rw [Pool.records, List.map_nil, List.nil_append, hrow, List.map_map, hoff']
    show Path (pNext s'.mem) s'.pHead _
    rw [hhead]
    refine (congrArg (Path (pNext s'.mem) (b + s.offset)) ?_).mp hpath
    refine List.map_congr_left fun j _ => ?_
    show b + s.offset + 24 * j = b + 24 * j + s.offset
    omega
  · show Span.cover ((poolOf s').entries s'.mem []) a + _ + _ = _
    rw [hentries]
    rfl

end BloreOs
