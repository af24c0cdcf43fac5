import BloreOs.Slob.Init

/-!
# Runs of the SLOB allocator

A run is any sequence of `slob_malloc` calls, of `slob_free` calls on live blocks whose inner
allocation succeeds, and of bytes that clients write into their own live blocks.

* `SlobInv.slobMalloc_cases` — `slob_malloc` splits a block off the first entry that fits, or
  returns 0 and changes nothing,
* `SlobInv.slobFree_eq` — `slob_free` links in the freed block,
* `slob_partition` — after any run the pool is divided exactly into entries, live blocks and
  the blocks of the records.
-/

namespace BloreOs

open Loop Chain Memory

variable {P : Pool} {s t : Slob} {live : List SlobBlock} {heap : List Nat} {b : SlobBlock}
variable {size : Nat}

/-- **First fit**: on a list that ends, `slob_malloc` splits the first entry that passes its test. -/
theorem slobMalloc_of_path {l : List Nat} (hinit : s.init = true)
    (hpath : Path (pNext s.mem) s.pHead l) (hlen : l.length < 2 ^ 64) (size : Nat) :
    slobMalloc size s =
      match l.find? (entryFits s.mem size) with
      | none => .ret 0 s
      | some p => .ret (slobSplit s size p).1 (slobSplit s size p).2 := by
  rw [slobMalloc, slobReady, if_pos hinit, Outcome.ret_bind, slobFind, hpath.loop_search _ hlen]
  cases l.find? (entryFits s.mem size) with
  | none => rfl
  | some p => rfl

namespace SlobInv

variable (hinv : SlobInv P s live heap)
include hinv

theorem slobReady_eq : slobReady s = .ret () s := by rw [slobReady, if_pos hinv.init]

/-- The walk along the list ends before the bound on its steps. -/
theorem path_length_lt : ((P.records heap).map fun x => x + P.offset).length < 2 ^ 64 := by
  refine hinv.path.length_lt (fun p hp => ?_) (by decide)
  obtain ⟨x, hx, rfl⟩ := List.mem_map.mp hp
  have := hinv.record_inRange hx
  omega

/-- **`slob_malloc` of any size.** The fit test sees the sum with the header, which may wrap. -/
theorem slobMalloc_any (size : Nat) :
    ((∀ x ∈ P.records heap, entryLength s.mem (x + P.offset) < add64 size 8) ∧
        slobMalloc size s = .ret 0 s) ∨
      ∃ x ∈ P.records heap, add64 size 8 ≤ entryLength s.mem (x + P.offset) ∧
        slobMalloc size s = .ret (slobSplit s size (x + P.offset)).1
          (slobSplit s size (x + P.offset)).2 := by
  rw [slobMalloc_of_path hinv.init hinv.path hinv.path_length_lt]
  cases hfind : ((P.records heap).map fun x => x + P.offset).find? (entryFits s.mem size) with
  | none =>
    refine Or.inl ⟨fun x hx => ?_, rfl⟩
    have hnot := List.find?_eq_none.mp hfind _ (List.mem_map_of_mem hx)
    simpa [entryFits] using hnot
  | some p =>
    obtain ⟨x, hx, rfl⟩ := List.mem_map.mp (List.mem_of_find?_eq_some hfind)
    have hfits := List.find?_some hfind
    simp only [entryFits, decide_eq_true_eq] at hfits
    exact Or.inr ⟨x, hx, hfits, rfl⟩

/-- **`slob_malloc` on a divided pool.** -/
theorem slobMalloc_cases (hsize : size + 8 < 2 ^ 64) :
    ((∀ x ∈ P.records heap, entryLength s.mem (x + P.offset) < size + 8) ∧
        slobMalloc size s = .ret 0 s) ∨
      ∃ x ∈ P.records heap, 8 + size ≤ entryLength s.mem (x + P.offset) ∧
        slobMalloc size s = .ret (slobSplit s size (x + P.offset)).1
          (slobSplit s size (x + P.offset)).2 := by
  have hany := hinv.slobMalloc_any size
  rw [add64_eq hsize] at hany
  rwa [Nat.add_comm 8 size]

/-- A block that is split off is not at address 0. -/
theorem slobSplit_ne_zero {x : Nat} (hx : x ∈ P.records heap)
    (hfit : 8 + size ≤ entryLength s.mem (x + P.offset)) :
    (slobSplit s size (x + P.offset)).1 ≠ 0 := by
  rw [hinv.slobSplit_eq hx hfit]
  show entryBase s.mem (x + P.offset) + 8 + P.offset ≠ 0
  omega

/-- **`slob_malloc` returns** 0 exactly if no entry is long enough, and changes nothing then. -/
theorem slobMalloc_eq_zero (hsize : size + 8 < 2 ^ 64) :
    ∃ p t, slobMalloc size s = .ret p t ∧
      (p = 0 ↔ ∀ x ∈ P.records heap, entryLength s.mem (x + P.offset) < size + 8) ∧
      (p = 0 → t = s) := by
  rcases hinv.slobMalloc_cases hsize with ⟨hnone, heq⟩ | ⟨x, hx, hfit, heq⟩
  · exact ⟨0, s, heq, by simpa using hnone, fun _ => rfl⟩
  · have hne := hinv.slobSplit_ne_zero hx hfit
    refine ⟨_, _, heq, ⟨fun h0 => absurd h0 hne, fun hall => ?_⟩, fun h0 => absurd h0 hne⟩
    have := hall x hx
    omega

/-- A successful `slob_malloc` adds a live block. -/
theorem slobMalloc {p : Nat} (hsize : size + 8 < 2 ^ 64) (heq : slobMalloc size s = .ret p t)
    (hp : p ≠ 0) : SlobInv P t (⟨p, size⟩ :: live) heap := by
  rcases hinv.slobMalloc_cases hsize with ⟨-, h0⟩ | ⟨x, hx, hfit, hsplit⟩
  · rw [h0] at heq
    cases heq
    exact absurd rfl hp
  · rw [hsplit] at heq
    cases heq
    exact hinv.split hx hfit

/-- **`slob_free` of a live block** whose inner allocation succeeds. -/
theorem slobFree_eq {p : Nat} (hb : b ∈ live) (heq : BloreOs.slobMalloc 24 s = .ret p t)
    (hp : p ≠ 0) : slobFree b.ptr s = .ret () (slobLink t (sub64 b.ptr 8) p) ∧
      SlobInv P (slobLink t (sub64 b.ptr 8) p) (live.erase b) ((p - (8 + P.offset)) :: heap) := by
  refine ⟨by rw [slobFree, heq, Outcome.ret_bind], ?_⟩
  exact (hinv.slobMalloc (by decide) heq hp).link hb

/-- Bytes of a live block behind its header are nobody's records or headers. -/
theorem write (hb : b ∈ live) {addr : Nat} (h1 : b.ptr ≤ addr) (h2 : addr < b.ptr + b.size)
    (v : BitVec 8) : SlobInv P (s.setMem (s.mem.set addr v)) live heap := by
  have hptr := hinv.ptr_eq hb
  refine hinv.congr (fun x hx => ?_) (fun c hc => ?_)
  · have hclear := (hinv.block_apart_record hb hx).clear (b.span_pos _) (recordSpan_pos x)
    simp only [Span.Clear, SlobBlock.span, recordSpan] at hclear
    exact sameOn_set (by omega)
  · by_cases hcb : c = b
    · rw [hcb]
      exact sameOn_set (by omega)
    · have hpw := List.pairwise_map.mp hinv.live_apart
      have : Std.Symm fun b c : SlobBlock => (b.span P.offset).Apart (c.span P.offset) :=
        ⟨fun _ _ h => h.symm⟩
      have hclear := (hpw.forall hc hb hcb).clear (c.span_pos _) (b.span_pos _)
      simp only [Span.Clear, SlobBlock.span] at hclear
      exact sameOn_set (by omega)

end SlobInv

/-! ## Runs -/

/-- The allocator and the blocks its clients hold. -/
structure SlobRun where
  slob : Slob
  live : List SlobBlock

inductive SlobOp where
  | slobMalloc (size : Nat)
  | slobFree (ptr : Nat)
  | write (addr : Nat) (v : BitVec 8)

/-- One operation of a client. Sizes do not wrap, only live blocks are freed and only when there is
room for the record, and only live blocks are written. -/
def SlobRun.step (h : SlobRun) : SlobOp → Option SlobRun
  | .slobMalloc size =>
    if size + 8 < 2 ^ 64 then
      match slobMalloc size h.slob with
      | .ret p s => if p = 0 then some ⟨s, h.live⟩ else some ⟨s, ⟨p, size⟩ :: h.live⟩
      | _ => none
    else none
  | .slobFree ptr =>
    match h.live.find? fun b => b.ptr = ptr with
    | none => none
    | some b =>
      if (slobMalloc 24 h.slob).value? = some 0 then none
      else
        match slobFree ptr h.slob with
        | .ret _ s => some ⟨s, h.live.erase b⟩
        | _ => none
  | .write addr v =>
    if ∃ b ∈ h.live, b.ptr ≤ addr ∧ addr < b.ptr + b.size then
      some ⟨h.slob.setMem (h.slob.mem.set addr v), h.live⟩
    else none

/-- **Every operation keeps the invariant.** -/
theorem SlobRun.step_inv {h h' : SlobRun} {op : SlobOp}
    (hinv : ∃ heap, SlobInv P h.slob h.live heap) (hstep : h.step op = some h') :
    ∃ heap, SlobInv P h'.slob h'.live heap := by
  obtain ⟨heap, hinv⟩ := hinv
  cases op with
  | slobMalloc size =>
    rw [SlobRun.step] at hstep
    split at hstep
    · next hsize =>
      obtain ⟨p, t, heq, -, hzero⟩ := hinv.slobMalloc_eq_zero hsize
      rw [heq] at hstep
      by_cases hp : p = 0
      · simp only [if_pos hp, Option.some.injEq] at hstep
        rw [← hstep, hzero hp]
        exact ⟨heap, hinv⟩
      · simp only [if_neg hp, Option.some.injEq] at hstep
        rw [← hstep]
        exact ⟨heap, hinv.slobMalloc hsize heq hp⟩
    · cases hstep
  | slobFree ptr =>
    rw [SlobRun.step] at hstep
    split at hstep
    · cases hstep
    · next b hfind =>
      have hb := List.mem_of_find?_eq_some hfind
      have hptr : b.ptr = ptr := by simpa using List.find?_some hfind
      obtain ⟨p, t, heq, -⟩ := hinv.slobMalloc_eq_zero (show 24 + 8 < 2 ^ 64 by decide)
      rw [heq, Outcome.value?] at hstep
      by_cases hp : p = 0
      · rw [hp] at hstep
        cases hstep
      · obtain ⟨hfree, hinv'⟩ := hinv.slobFree_eq hb heq hp
        rw [if_neg (by simpa using hp), ← hptr, hfree] at hstep
        simp only [Option.some.injEq] at hstep
        rw [← hstep]
        exact ⟨_, hinv'⟩
  | write addr v =>
    rw [SlobRun.step] at hstep
    split at hstep
    · next hw =>
      obtain ⟨b, hb, h1, h2⟩ := hw
      simp only [Option.some.injEq] at hstep
      rw [← hstep]
      exact ⟨heap, hinv.write hb h1 h2 v⟩
    · cases hstep

/-- The lazy initialisation sets up a pool in which everything is free. -/
theorem slobReady_inv {s₀ s₁ : Slob} (h₀ : s₀.init = false)
    (hok : MemmapOk s₀.offset s₀.pmm.memmap) (hcount : (usable s₀.pmm.memmap).length < 2 ^ 31)
    (hready : slobReady s₀ = .ret () s₁) : SlobInv (poolOf s₁) s₁ [] [] := by
  rw [slobReady, if_neg (by simp [h₀]), Outcome.bind_eq_ret] at hready
  obtain ⟨_, s', hs', heq⟩ := hready
  cases heq
  have hinv : SlobInv (poolOf s') { s' with init := true } [] [] := slobInit_inv hok hcount hs'
  exact hinv

/--
**The SLOB pool is always partitioned exactly.**

`s₁` is the state after the `slob_init` that the first `slob_malloc` runs. After any run from there,
the list reached from `pHead` is finite and has no cycle. Its records are those of the table, which
lies outside the pool, and one in every block `nodes`. Every byte of the pool belongs to exactly one
entry, live block or record block, and no other byte to any. Headers are intact, and `slob_malloc`
fails exactly if no entry is long enough.
-/
theorem slob_partition (s₀ s₁ : Slob) (h₀ : s₀.init = false)
    (hok : MemmapOk s₀.offset s₀.pmm.memmap) (hcount : (usable s₀.pmm.memmap).length < 2 ^ 31)
    (hready : slobReady s₀ = .ret () s₁) (ops : List SlobOp) (h : SlobRun)
    (hrun : run SlobRun.step ops ⟨s₁, []⟩ = some h) :
    (∀ size, slobMalloc size s₀ = slobMalloc size s₁) ∧
    ∃ ptrs nodes table : List Nat,
      Path (pNext h.slob.mem) h.slob.pHead ptrs ∧ ptrs.Nodup ∧
      ptrs = nodes.map (fun x => x + 8 + s₁.offset) ++ table.map (fun x => x + s₁.offset) ∧
      (∀ x ∈ table, ∀ a, (recordSpan x).Has a → Span.cover (usableSpans s₁.pmm.memmap) a = 0) ∧
      (∀ a, Span.cover (usableSpans s₁.pmm.memmap) a ≤ 1 ∧
        Span.cover (ptrs.map (entrySpan h.slob.mem)) a +
            Span.cover (h.live.map (SlobBlock.span s₁.offset)) a + Span.cover (nodes.map nodeBlock) a
          = Span.cover (usableSpans s₁.pmm.memmap) a) ∧
      (∀ b ∈ h.live, h.slob.mem.load (b.ptr - 8) 8 = 8 + b.size) ∧
      (∀ size, size + 8 < 2 ^ 64 → ∃ p t, slobMalloc size h.slob = .ret p t ∧
        (p = 0 ↔ ∀ q ∈ ptrs, entryLength h.slob.mem q < size + 8) ∧ (p = 0 → t = h.slob)) := by
  have hstart : SlobInv (poolOf s₁) s₁ [] [] := slobReady_inv h₀ hok hcount hready
  obtain ⟨heap, hinv⟩ := run_invariant (fun h => ∃ heap, SlobInv (poolOf s₁) h.slob h.live heap)
    (fun _ _ _ hi hs => SlobRun.step_inv hi hs) ops ⟨[], hstart⟩ hrun
  refine ⟨fun size => ?_, ((poolOf s₁).records heap).map fun x => x + s₁.offset, heap,
    (poolOf s₁).table, hinv.path, hinv.path.nodup, ?_, ?_, ?_, ?_, ?_⟩
  · rw [slobMalloc, slobMalloc, hready, hstart.slobReady_eq]
  · rw [Pool.records, List.map_append, List.map_map]
    rfl
  · intro x hx a ha
    have hpos : 0 < Span.cover ((poolOf s₁).table.map recordSpan) a :=
      Span.cover_pos.mpr ⟨_, List.mem_map_of_mem hx, ha⟩
    have hone := hinv.ok.cover_le_one a
    have hzero : Span.cover (poolOf s₁).spans a = 0 := by omega
    exact hzero
  · intro a
    have hone := hinv.ok.cover_le_one a
    refine ⟨Nat.le_of_add_right_le hone, ?_⟩
    have hpart := hinv.partition a
    rw [List.map_map]
    exact hpart
  · intro b hb
    have hptr : b.ptr = b.base s₁.offset + 8 + s₁.offset := hinv.ptr_eq hb
    rw [← (hinv.headers b hb).2]
    congr 1
    show b.ptr - 8 = b.base s₁.offset + s₁.offset
    omega
  · intro size hsize
    obtain ⟨p, t, heq, hiff, hsame⟩ := hinv.slobMalloc_eq_zero hsize
    refine ⟨p, t, heq, ?_, hsame⟩
    rw [hiff, List.forall_mem_map]
    rfl

/-- Two blocks, the first one written and freed, and a third one split off what was freed. -/
def sampleSlobOps : List SlobOp :=
  [.slobMalloc 100, .slobMalloc 40, .write 0xffff800000103008 7, .slobFree 0xffff800000103008,
    .slobMalloc 64]

/-- The state after the lazy initialisation, on the machine of `sampleBoot`. -/
def sampleSlob : Slob := (slobReady (Slob.zero samplePmm)).state?.get (by decide +kernel)

def sampleSlobRun : SlobRun :=
  (run SlobRun.step sampleSlobOps ⟨sampleSlob, []⟩).get (by decide +kernel)

theorem samplePmm_memmapOk : MemmapOk samplePmm.vmmHigherHalfOffset samplePmm.memmap where
  apart := List.Pairwise.imp Span.Clear.apart (by decide +kernel)
  inRange := by decide +kernel
  base_ne_zero := by decide +kernel

theorem slob_partition_sample :
    sampleSlobRun.live.map SlobBlock.size = [64, 40] ∧
      ∃ nodes : List Nat, ∀ a, Span.cover (sampleSlobRun.live.map (SlobBlock.span sampleSlob.offset)) a
        + Span.cover (nodes.map nodeBlock) a ≤ 1 := by
  obtain ⟨-, ptrs, nodes, table, -, -, -, -, hpart, -⟩ := slob_partition (Slob.zero samplePmm)
    sampleSlob rfl samplePmm_memmapOk (by decide +kernel) (Outcome.eq_ret_of_state? _) sampleSlobOps
    sampleSlobRun (Option.some_get _).symm
  refine ⟨by decide +kernel, nodes, fun a => ?_⟩
  have := hpart a
  omega

end BloreOs
