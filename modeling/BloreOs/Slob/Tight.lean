import BloreOs.Slob.AnySize

/-!
# Freeing when memory is tight

`slob_free` allocates the record of the block it frees. When no entry can hold a record, that
allocation returns `NULL`, the record is written to the addresses below 24, and `pHead` becomes
`NULL`: the block that should have helped is lost, and every other free range with it.

* `SlobInv.frees` — with room for the record the block is an entry of the list afterwards,
* `SlobInv.not_frees` — without room it never is,
* `slobFree_frees_iff` — both, after any run.
-/

namespace BloreOs

open Loop Chain Memory

variable {P : Pool} {s t : Slob} {live : List SlobBlock} {heap : List Nat} {b : SlobBlock}

/-- `s` becomes `t` when the block is given back: the new record lies in the memory that SLOB
manages, nothing else has been written, and some entry of the list covers the block and its header.
-/
structure FreedInto (P : Pool) (s t : Slob) (b : SlobBlock) : Prop where
  record : ∀ a, t.pHead ≤ a → a < t.pHead + 24 → P.Owns a
  outside : ∀ a, ¬ P.Owns a → t.mem a = s.mem a
  covered : ∃ q, t.Listed q ∧ ∀ a, (b.span P.offset).Has a → (entrySpan t.mem q).Has a

/-- `slob_free` gives the block back. -/
def Slob.Frees (P : Pool) (s : Slob) (b : SlobBlock) : Prop :=
  ∃ t, slobFree b.ptr s = .ret () t ∧ FreedInto P s t b

/-- There is room for a record unless no entry fits 24 bytes. -/
theorem Slob.roomForRecord_or_noneFits (s : Slob) : s.RoomForRecord ∨ s.NoneFits 24 := by
  by_cases hroom : s.RoomForRecord
  · exact Or.inl hroom
  · refine Or.inr fun q hq => ?_
    by_contra hlen
    exact hroom ⟨q, hq, by omega⟩

/-- A lost list has no entries. -/
theorem Slob.not_listed_of_lost (h : t.pHead = 0) (q : Nat) : ¬ t.Listed q := by
  rintro ⟨l, hl, hq⟩
  have hnil : l = [] := hl.unique (show Path (pNext t.mem) t.pHead [] from h)
  rw [hnil] at hq
  exact List.not_mem_nil hq

namespace SlobInv

variable (hinv : SlobInv P s live heap)
include hinv

/-- **Without room for the record the block is lost.** -/
theorem not_frees (hnone : s.NoneFits 24) : ¬ s.Frees P b := by
  rintro ⟨t, heq, hfreed⟩
  obtain ⟨hfree, hlost⟩ := slobFree_lost (hinv.slobMalloc_noneFits hnone) b.ptr
  rw [hfree] at heq
  cases heq
  obtain ⟨q, hq, -⟩ := hfreed.covered
  exact Slob.not_listed_of_lost hlost q hq

/-- **With room for the record the block becomes an entry.** -/
theorem frees (hb : b ∈ live) (hroom : s.RoomForRecord) : s.Frees P b := by
  obtain ⟨x, hx, hlen⟩ := hinv.roomForRecord_iff.mp hroom
  obtain ⟨p, u, heq, hzero, -⟩ := hinv.slobMalloc_eq_zero (show 24 + 8 < 2 ^ 64 by decide)
  have hp : p ≠ 0 := fun h0 => by
    have := hzero.mp h0 x hx
    omega
  obtain ⟨hfree, hinv'⟩ := hinv.slobFree_eq hb heq hp
  have hnode := hinv.slobMalloc (by decide) heq hp
  have hptr := hnode.ptr_eq List.mem_cons_self
  have hrange := hnode.block_inRange (List.mem_cons_of_mem _ hb)
  have hlink := hnode.slobLink_eq hb
  have hbase : (⟨p, 24⟩ : SlobBlock).base P.offset = p - (8 + P.offset) := rfl
  simp only [hbase] at hptr
  refine ⟨_, hfree, ?_, fun a ha => hinv.slobFree_outside heq hp _ ha, p, ?_, fun a ha => ?_⟩
  · -- the record lies in the block that was allocated for it
    intro a h1 h2
    have hrec : p - (8 + P.offset) + 8 ∈ P.records ((p - (8 + P.offset)) :: heap) :=
      List.mem_cons_self
    refine hinv'.owns_of_record hrec ?_ ?_
    · have : p ≤ a := h1
      omega
    · have : a < p + 24 := h2
      omega
  · exact hinv'.listed_iff.mpr ⟨p - (8 + P.offset) + 8, List.mem_cons_self, by omega⟩
  · have hspan : entrySpan (linkMem u.mem p (b.base P.offset) (8 + b.size) u.pHead) p
        = ⟨b.base P.offset, 8 + b.size⟩ :=
      (linkMem_entry (by omega) (by omega) hnode.pHead_lt).2
    rw [hlink]
    show (entrySpan (linkMem u.mem p (b.base P.offset) (8 + b.size) u.pHead) p).Has a
    rw [hspan]
    exact ha

/-- **When freeing works.** -/
theorem frees_iff (hb : b ∈ live) : s.Frees P b ↔ s.RoomForRecord := by
  constructor
  · intro hfrees
    exact s.roomForRecord_or_noneFits.resolve_right fun hnone => hinv.not_frees hnone hfrees
  · exact hinv.frees hb

end SlobInv

/-! ## Runs -/

/--
**Freeing works exactly while there is room for a record.**

After any run in which no request wraps unless it fails, and in which blocks are freed while there
is room for their record, freeing a live block works if and only if some entry of the list is at
least 32 bytes long.
-/
theorem slobFree_frees_iff (s₀ s₁ : Slob) (h₀ : s₀.init = false)
    (hok : MemmapOk s₀.offset s₀.pmm.memmap) (hcount : (usable s₀.pmm.memmap).length < 2 ^ 31)
    (hready : slobReady s₀ = .ret () s₁) (ops : List SlobOp) (h : SlobRun)
    (hrun : RunIf SlobRun.call SlobRun.Fine ops ⟨s₁, []⟩ h) (b : SlobBlock) (hb : b ∈ h.live) :
    h.slob.Frees (poolOf s₁) b ↔ h.slob.RoomForRecord := by
  obtain ⟨heap, hinv⟩ := slobInv_of_runIf h₀ hok hcount hready hrun
  exact hinv.frees_iff hb

theorem slobFree_frees_sample :
    twoBlocksRun.slob.Frees (poolOf sampleSlob) ⟨0xffff800000103008, 100⟩ := by
  refine (slobFree_frees_iff (Slob.zero samplePmm) sampleSlob rfl samplePmm_memmapOk
    (by decide +kernel) (Outcome.eq_ret_of_state? _) _ _ twoBlocksRun_runIf _
    (by decide +kernel)).mpr ?_
  -- the first of the two records of the table
  exact ⟨0xffff800000102000, ⟨[0xffff800000102000, 0xffff800000102018],
    ⟨by decide +kernel, by decide, by decide +kernel, by decide,
      show pNext twoBlocksRun.slob.mem _ = 0 by decide +kernel⟩, by simp⟩, by decide +kernel⟩

/-- Two blocks that leave the list with two empty entries. -/
def fullRun : SlobRun :=
  (run SlobRun.call [.slobMalloc 69624, .slobMalloc 16376] ⟨sampleSlob, []⟩).get (by decide +kernel)

/-- Freeing the first of them loses the list. -/
theorem slobFree_loses_sample :
    slobReady (Slob.zero samplePmm) = .ret () sampleSlob ∧
      RunIf SlobRun.call SlobRun.Fine [.slobMalloc 69624, .slobMalloc 16376] ⟨sampleSlob, []⟩ fullRun ∧
      ⟨0xffff800000103008, 69624⟩ ∈ fullRun.live ∧
      (slobFree 0xffff800000103008 fullRun.slob).final.pHead = 0 ∧
      ¬ fullRun.slob.Frees (poolOf sampleSlob) ⟨0xffff800000103008, 69624⟩ := by
  have hlost : (slobFree 0xffff800000103008 fullRun.slob).final.pHead = 0 := by decide +kernel
  refine ⟨Outcome.eq_ret_of_state? _, ?_, by decide +kernel, hlost, ?_⟩
  · refine runIf_of_forall _ ?_ (Option.some_get _).symm
    simp only [List.forall_mem_cons]
    exact ⟨fun _ => Or.inl (by decide), fun _ => Or.inl (by decide), by simp⟩
  · rintro ⟨t, ht, hfreed⟩
    rw [ht] at hlost
    obtain ⟨q, hq, -⟩ := hfreed.covered
    exact Slob.not_listed_of_lost hlost q hq

end BloreOs
