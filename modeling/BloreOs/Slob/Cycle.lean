import BloreOs.Slob.Runs

/-!
# Allocating and freeing again and again

`slob_free` allocates a record for the block that it puts back, and the record is never freed. When
the same size is allocated again, the entry of the freed block is used up to its last byte and stays
in the list with length 0. A cycle of `slob_malloc` and `slob_free` therefore costs the pool 32
bytes, and after finitely many cycles there is no room for another record
(`SlobInv.slobCycles_exhaust`).

Sizes from `2 ^ 64 - 8` on are different, since the sum with the header wraps (`Slob/Wrapped`).
-/

namespace BloreOs

open Memory

variable {P : Pool} {s t : Slob} {live : List SlobBlock} {heap : List Nat} {n : Nat}

/-- `slob_malloc(n)`, and `slob_free` of its result. `none` if one of them fails: the block is
`NULL`, or there is no record for it. -/
def slobCycle (n : Nat) (s : Slob) : Option Slob :=
  match slobMalloc n s with
  | .ret p t => if p ≠ 0 ∧ (slobMalloc 24 t).value? ≠ some 0 then (slobFree p t).state? else none
  | _ => none

/-- `k` cycles. -/
def slobCycles (n : Nat) : Nat → Slob → Option Slob
  | 0, s => some s
  | k + 1, s => (slobCycle n s).bind (slobCycles n k)

theorem slobCycles_succ (n : Nat) : ∀ (k : Nat) (s : Slob),
    slobCycles n (k + 1) s = (slobCycles n k s).bind (slobCycle n)
  | 0, s => by
    rw [slobCycles, slobCycles, Option.bind_some]
    exact Option.bind_fun_some _
  | k + 1, s => by
    rw [slobCycles, slobCycles, Option.bind_assoc]
    exact Option.bind_congr fun t _ => slobCycles_succ n k t

/-- A cycle that fails because `slob_malloc` returns `NULL`: for the block, or for the record. -/
def CycleNull (n : Nat) (s : Slob) : Prop :=
  slobMalloc n s = .ret 0 s ∨
    ∃ p t, slobMalloc n s = .ret p t ∧ p ≠ 0 ∧ slobMalloc 24 t = .ret 0 t

theorem slobCycle_of_null (h : CycleNull n s) : slobCycle n s = none := by
  rcases h with h | ⟨p, t, h, -, hnode⟩
  · simp [slobCycle, h]
  · simp [slobCycle, h, hnode, Outcome.value?]

/-- A cycle both of whose blocks are found. -/
theorem slobCycle_eq {p q : Nat} {u : Slob} (hmalloc : slobMalloc n s = .ret p t) (hp : p ≠ 0)
    (hnode : slobMalloc 24 t = .ret q u) (hq : q ≠ 0) :
    slobCycle n s = some (slobLink u (sub64 p 8) q) := by
  have hfound : p ≠ 0 ∧ (Outcome.ret q u).value? ≠ some 0 := ⟨hp, by simpa [Outcome.value?] using hq⟩
  simp only [slobCycle, hmalloc, hnode, slobFree, Outcome.ret_bind, if_pos hfound]
  rfl

/-- **One cycle**: it fails for want of memory, or it adds a record and leaves the rest as it was.
-/
theorem SlobInv.slobCycle_cases (hinv : SlobInv P s live heap) (hn : n + 8 < 2 ^ 64) :
    CycleNull n s ∨ ∃ t x, slobCycle n s = some t ∧ SlobInv P t live (x :: heap) := by
  obtain ⟨p, t, hmalloc, -, hsame⟩ := hinv.slobMalloc_eq_zero hn
  by_cases hp : p = 0
  · rw [hp, hsame hp] at hmalloc
    exact Or.inl (Or.inl hmalloc)
  have hinv₁ := hinv.slobMalloc hn hmalloc hp
  obtain ⟨q, u, hnode, -, hsame'⟩ := hinv₁.slobMalloc_eq_zero (show 24 + 8 < 2 ^ 64 by decide)
  by_cases hq : q = 0
  · rw [hq, hsame' hq] at hnode
    exact Or.inl (Or.inr ⟨p, t, hmalloc, hp, hnode⟩)
  have hinv₂ := (hinv₁.slobFree_eq List.mem_cons_self hnode hq).2
  rw [List.erase_cons_head] at hinv₂
  exact Or.inr ⟨_, _, slobCycle_eq hmalloc hp hnode hq, hinv₂⟩

/-- The records of freed blocks fit into the pool. -/
theorem SlobInv.heap_length_le (hinv : SlobInv P s live heap) : 32 * heap.length ≤ 2 ^ 64 := by
  have hone : ∀ a, Span.cover (heap.map nodeBlock) a ≤ 1 := by
    intro a
    have h1 := hinv.partition a
    have h2 := hinv.ok.cover_le_one a
    omega
  have hin : ∀ r ∈ heap.map nodeBlock, 0 ≤ r.base ∧ r.base + r.len ≤ 2 ^ 64 := by
    intro r hr
    obtain ⟨x, hx, rfl⟩ := List.mem_map.mp hr
    have hrec := hinv.record_inRange (List.mem_append_left _ (List.mem_map_of_mem hx))
    refine ⟨Nat.zero_le _, ?_⟩
    show x + 32 ≤ 2 ^ 64
    omega
  have hsum := Span.sum_len_le hone hin
  rw [List.map_map, show Span.len ∘ nodeBlock = fun _ => 32 from rfl, List.map_const',
    List.sum_replicate_nat] at hsum
  omega

/-- **Cycle after cycle** the records add up, until a cycle fails. -/
theorem slobCycles_null (I : Slob → List Nat → Prop)
    (hinv : ∀ s heap, I s heap → SlobInv P s live heap)
    (hstep : ∀ s heap, I s heap →
      CycleNull n s ∨ ∃ t x, slobCycle n s = some t ∧ I t (x :: heap)) :
    ∀ (d : Nat) (s : Slob) (heap : List Nat), I s heap → 2 ^ 64 < 32 * (heap.length + d) →
    ∃ k t, slobCycles n k s = some t ∧ CycleNull n t
  | 0, s, heap, hI, hd => by
    have := (hinv s heap hI).heap_length_le
    omega
  | d + 1, s, heap, hI, hd => by
    rcases hstep s heap hI with hnull | ⟨t, x, hcycle, hI'⟩
    · exact ⟨0, s, rfl, hnull⟩
    · obtain ⟨k, u, hk, hnull⟩ := slobCycles_null I hinv hstep d t (x :: heap) hI'
        (by rw [List.length_cons]; omega)
      refine ⟨k + 1, u, ?_, hnull⟩
      rw [slobCycles, hcycle]
      exact hk

/-- An invariant of cycles that succeed. -/
theorem slobCycles_isSome (I : Slob → Prop)
    (hstep : ∀ s, I s → ∃ t, slobCycle n s = some t ∧ I t) :
    ∀ (k : Nat) (s : Slob), I s → (slobCycles n k s).isSome
  | 0, _, _ => rfl
  | k + 1, s, hI => by
    obtain ⟨t, hcycle, hI'⟩ := hstep s hI
    rw [slobCycles, hcycle]
    exact slobCycles_isSome I hstep k t hI'

/-- After the first cycle that fails no number of cycles is reached any more. -/
theorem slobCycles_stop {k : Nat} (hfirst : (slobCycle n s).isSome)
    (hk : slobCycles n k s = some t) (hnull : CycleNull n t) :
    1 ≤ k ∧ slobCycles n (k + 1) s = none := by
  constructor
  · rcases k with _ | k
    · cases hk
      rw [slobCycle_of_null hnull] at hfirst
      cases hfirst
    · omega
  · rw [slobCycles_succ, hk, Option.bind_some, slobCycle_of_null hnull]

/-- **Sizes that do not wrap exhaust every pool**: after some number of cycles `slob_malloc` returns
`NULL`, for the block or for the record. -/
theorem SlobInv.slobCycles_exhaust (hinv : SlobInv P s [] []) (hn : n + 8 < 2 ^ 64) :
    ∃ k t, slobCycles n k s = some t ∧ CycleNull n t :=
  slobCycles_null (SlobInv P · [] ·) (fun _ _ hI => hI) (fun _ _ hI => hI.slobCycle_cases hn)
    (2 ^ 59 + 1) s [] hinv (by decide)

/-- A map of two pages: one for the table, one for the pool. -/
def onePagePool : Slob := Slob.zero
  { Pmm.zero fun _ => 0 with
    memmap := [⟨0x1000, 0x2000, .usable⟩]
    vmmHigherHalfOffset := 0xffff800000000000
    maxPagesAvailable := 2 }

def onePageReady : Slob := (slobReady onePagePool).state?.get (by decide +kernel)

/-- Of a page, 48 bytes are left after a block of 4040 bytes: room for one record. The second
`slob_free` gets none. -/
theorem slobCycles_second_fails :
    slobReady onePagePool = .ret () onePageReady ∧
      (slobCycles 4040 1 onePageReady).isSome ∧ slobCycles 4040 2 onePageReady = none :=
  ⟨Outcome.eq_ret_of_state? _, by decide +kernel, Option.isNone_iff_eq_none.mp (by decide +kernel)⟩

end BloreOs
