import BloreOs.Slob.Frame

/-!
# Blocks of any size

`slob_malloc` adds 8 bytes for the header to any size it is given. From `2 ^ 64 - 8` on the sum
wraps to less than 8 bytes, which the first long enough entry then loses.

* `SlobRun.call` — runs in which any size is requested and live blocks are freed whether or not
  there is room for their record,
* `SlobInv.of_fine` — what keeps such a run in order,
* `slobMalloc_honoured_iff` — the sizes for which the block is as long as it should be.
-/

namespace BloreOs

open Loop Chain Memory

variable {P : Pool} {s t : Slob} {live : List SlobBlock} {heap : List Nat} {h h' : SlobRun}
  {p q size : Nat}

/-- The record at `q` is in the list. -/
def Slob.Listed (s : Slob) (q : Nat) : Prop := ∃ l, Path (pNext s.mem) s.pHead l ∧ q ∈ l

/-- One call. Nothing is asked of the size, and there need not be room for the record of a block
that is freed. -/
def SlobRun.call (h : SlobRun) : SlobOp → Option SlobRun
  | .slobMalloc size =>
    if size < 2 ^ 64 then
      match BloreOs.slobMalloc size h.slob with
      | .ret p s => if p = 0 then some ⟨s, h.live⟩ else some ⟨s, ⟨p, size⟩ :: h.live⟩
      | _ => none
    else none
  | .slobFree ptr =>
    match h.live.find? fun b => b.ptr = ptr with
    | none => none
    | some b =>
      match BloreOs.slobFree ptr h.slob with
      | .ret _ s => some ⟨s, h.live.erase b⟩
      | _ => none
  | .write addr v => h.step (.write addr v)

/-- No entry of the list is as long as the wrapped sum of `size` and the header. -/
def Slob.NoneFits (s : Slob) (size : Nat) : Prop :=
  ∀ q, s.Listed q → entryLength s.mem q < (size + 8) % 2 ^ 64

/-- Some entry of the list can hold another record and its header. -/
def Slob.RoomForRecord (s : Slob) : Prop := ∃ q, s.Listed q ∧ 32 ≤ entryLength s.mem q

/-- **The condition on a call.** The size does not wrap, or the call fails all the same; and a block
is freed while there is room for its record. -/
def SlobRun.Fine (h : SlobRun) : SlobOp → Prop
  | .slobMalloc size => size + 8 < 2 ^ 64 ∨ h.slob.NoneFits size
  | .slobFree _ => h.slob.RoomForRecord
  | .write _ _ => True

/-- The block at `p` was cut from the entry at `q`: it lay in the entry with its header, the header
stores its length, and the entry is shorter by that length. -/
structure CutFrom (s t : Slob) (q p size : Nat) : Prop where
  above : entryBase s.mem q + s.offset + 8 ≤ p
  below : p + size ≤ entryBase s.mem q + entryLength s.mem q + s.offset
  header : t.mem.load (p - 8) 8 = 8 + size
  shrank : entryLength t.mem q + (8 + size) = entryLength s.mem q

/-- A block that `slob_malloc` returns has the requested size. -/
def Slob.Honours (s : Slob) (size : Nat) : Prop :=
  ∃ p t, slobMalloc size s = .ret p t ∧ (p ≠ 0 → ∃ q, s.Listed q ∧ CutFrom s t q p size)

namespace SlobInv

variable (hinv : SlobInv P s live heap)
include hinv

theorem listed_iff : s.Listed q ↔ ∃ x ∈ P.records heap, x + P.offset = q := by
  constructor
  · rintro ⟨l, hl, hq⟩
    rw [hl.unique hinv.path] at hq
    exact List.mem_map.mp hq
  · intro hq
    exact ⟨_, hinv.path, List.mem_map.mpr hq⟩

theorem noneFits_iff : s.NoneFits size ↔
    ∀ x ∈ P.records heap, entryLength s.mem (x + P.offset) < add64 size 8 := by
  constructor
  · intro hall x hx
    exact hall _ (hinv.listed_iff.mpr ⟨x, hx, rfl⟩)
  · intro hall q hq
    obtain ⟨x, hx, rfl⟩ := hinv.listed_iff.mp hq
    exact hall x hx

theorem roomForRecord_iff : s.RoomForRecord ↔
    ∃ x ∈ P.records heap, 32 ≤ entryLength s.mem (x + P.offset) := by
  constructor
  · rintro ⟨q, hq, hlen⟩
    obtain ⟨x, hx, rfl⟩ := hinv.listed_iff.mp hq
    exact ⟨x, hx, hlen⟩
  · rintro ⟨x, hx, hlen⟩
    exact ⟨_, hinv.listed_iff.mpr ⟨x, hx, rfl⟩, hlen⟩

/-- **Without an entry as long as the wrapped sum `slob_malloc` fails**, and changes nothing. -/
theorem slobMalloc_noneFits (hnone : s.NoneFits size) : BloreOs.slobMalloc size s = .ret 0 s := by
  rcases hinv.slobMalloc_any size with ⟨-, heq⟩ | ⟨x, hx, hfit, -⟩
  · exact heq
  · have hlt := hinv.noneFits_iff.mp hnone x hx
    omega

/-- A size that does not wrap. -/
theorem honours_of_lt (hsize : size + 8 < 2 ^ 64) : s.Honours size := by
  rcases hinv.slobMalloc_cases hsize with ⟨-, heq⟩ | ⟨x, hx, hfit, heq⟩
  · exact ⟨0, s, heq, fun hne => (hne rfl).elim⟩
  · have hsplit := hinv.slobSplit_eq hx hfit
    obtain ⟨-, -, hheader⟩ := hinv.splitMem_entry hx hfit
    have hlen := hinv.splitMem_length hx hfit hx
    rw [if_pos rfl] at hlen
    refine ⟨_, _, heq, fun _ => ⟨x + P.offset, hinv.listed_iff.mpr ⟨x, hx, rfl⟩, ?_⟩⟩
    rw [hsplit]
    constructor
    case above =>
      rw [hinv.offset]
      omega
    case below =>
      rw [hinv.offset]
      show entryBase s.mem (x + P.offset) + 8 + P.offset + size ≤ _
      omega
    case header =>
      show (splitMem s.mem P.offset x size).load _ 8 = _
      rw [show entryBase s.mem (x + P.offset) + 8 + P.offset - 8
        = entryBase s.mem (x + P.offset) + P.offset by omega]
      exact hheader
    case shrank =>
      show entryLength (splitMem s.mem P.offset x size) (x + P.offset) + _ = _
      omega

/-- **No block can hold a size that wraps.** -/
theorem honours_iff {p : Nat} (heq : BloreOs.slobMalloc size s = .ret p t) (hp : p ≠ 0) :
    s.Honours size ↔ size + 8 < 2 ^ 64 := by
  refine ⟨?_, hinv.honours_of_lt⟩
  rintro ⟨p', t', heq', hcut⟩
  rw [heq] at heq'
  cases heq'
  obtain ⟨q, -, hq⟩ := hcut hp
  have hlen : entryLength s.mem q < 2 ^ 64 := load_lt _ 8 _
  have hle := hq.shrank
  omega

/-- A request that fails is honoured. -/
theorem honours_of_noneFits (hnone : s.NoneFits size) : s.Honours size :=
  ⟨0, s, hinv.slobMalloc_noneFits hnone, fun hne => (hne rfl).elim⟩

end SlobInv

/-! ## Runs -/

/-- A call that meets the condition is a call of the runs in `Slob/Runs`, or changes nothing. -/
theorem SlobRun.call_of_fine (hinv : SlobInv P h.slob h.live heap) {op : SlobOp} (hfine : h.Fine op)
    (hcall : h.call op = some h') : h.step op = some h' ∨ h' = h := by
  cases op with
  | slobMalloc size =>
    rw [SlobRun.call] at hcall
    split at hcall
    · rcases hfine with hsize | hnone
      · left
        rw [SlobRun.step, if_pos hsize]
        exact hcall
      · right
        rw [hinv.slobMalloc_noneFits hnone] at hcall
        exact (Option.some.inj hcall).symm
    · cases hcall
  | slobFree ptr =>
    left
    rw [SlobRun.call] at hcall
    rw [SlobRun.step]
    cases hfind : h.live.find? fun b => b.ptr = ptr with
    | none =>
      simp only [hfind] at hcall
      cases hcall
    | some b =>
      simp only [hfind] at hcall ⊢
      obtain ⟨x, hx, hlen⟩ := hinv.roomForRecord_iff.mp hfine
      obtain ⟨p, t, heq, hzero, -⟩ := hinv.slobMalloc_eq_zero (show 24 + 8 < 2 ^ 64 by decide)
      have hp : p ≠ 0 := fun h0 => by
        have := hzero.mp h0 x hx
        omega
      rw [heq, if_neg (by simpa [Outcome.value?] using hp)]
      exact hcall
  | write addr v => exact Or.inl hcall

/-- **Every call that meets the condition keeps the invariant.** -/
theorem SlobRun.call_inv {op : SlobOp} (hinv : ∃ heap, SlobInv P h.slob h.live heap)
    (hfine : h.Fine op) (hcall : h.call op = some h') :
    ∃ heap, SlobInv P h'.slob h'.live heap := by
  obtain ⟨heap, hi⟩ := hinv
  rcases SlobRun.call_of_fine hi hfine hcall with hstep | rfl
  · exact SlobRun.step_inv ⟨heap, hi⟩ hstep
  · exact ⟨heap, hi⟩

/-- **The invariant holds after every such run**, from a pool that `slob_init` has set up. -/
theorem slobInv_of_runIf {s₀ s₁ : Slob} (h₀ : s₀.init = false)
    (hok : MemmapOk s₀.offset s₀.pmm.memmap) (hcount : (usable s₀.pmm.memmap).length < 2 ^ 31)
    (hready : slobReady s₀ = .ret () s₁) {ops : List SlobOp} {h : SlobRun}
    (hrun : RunIf SlobRun.call SlobRun.Fine ops ⟨s₁, []⟩ h) :
    ∃ heap, SlobInv (poolOf s₁) h.slob h.live heap :=
  runIf_invariant (fun h => ∃ heap, SlobInv (poolOf s₁) h.slob h.live heap)
    (fun _ _ _ hi hC hs => SlobRun.call_inv hi hC hs) ops
    ⟨[], slobReady_inv h₀ hok hcount hready⟩ hrun

/--
**The sizes for which `slob_malloc` keeps its word.**

After any run in which no request wraps unless it fails, and in which blocks are freed while there
is room for their record, a request is honoured if its size does not wrap or no entry is as long as
the wrapped sum. A pointer that is returned is honoured only in the first case.
-/
theorem slobMalloc_honoured_iff (s₀ s₁ : Slob) (h₀ : s₀.init = false)
    (hok : MemmapOk s₀.offset s₀.pmm.memmap) (hcount : (usable s₀.pmm.memmap).length < 2 ^ 31)
    (hready : slobReady s₀ = .ret () s₁) (ops : List SlobOp) (h : SlobRun)
    (hrun : RunIf SlobRun.call SlobRun.Fine ops ⟨s₁, []⟩ h) (size : Nat) :
    slobMalloc size s₀ = slobMalloc size s₁ ∧
      (size + 8 < 2 ^ 64 ∨ h.slob.NoneFits size → h.slob.Honours size) ∧
      (∀ p t, slobMalloc size h.slob = .ret p t → p ≠ 0 →
        (h.slob.Honours size ↔ size + 8 < 2 ^ 64)) := by
  have hstart : SlobInv (poolOf s₁) s₁ [] [] := slobReady_inv h₀ hok hcount hready
  obtain ⟨heap, hinv⟩ := slobInv_of_runIf h₀ hok hcount hready hrun
  refine ⟨?_, ?_, fun p t => hinv.honours_iff⟩
  · rw [slobMalloc, slobMalloc, hready, hstart.slobReady_eq]
  · rintro (hsize | hnone)
    · exact hinv.honours_of_lt hsize
    · exact hinv.honours_of_noneFits hnone

def twoBlocksRun : SlobRun :=
  (run SlobRun.call [.slobMalloc 100, .slobMalloc 40] ⟨sampleSlob, []⟩).get (by decide +kernel)

theorem twoBlocksRun_runIf : RunIf SlobRun.call SlobRun.Fine [.slobMalloc 100, .slobMalloc 40]
    ⟨sampleSlob, []⟩ twoBlocksRun := by
  refine runIf_of_forall _ ?_ (Option.some_get _).symm
  simp only [List.forall_mem_cons]
  exact ⟨fun _ => Or.inl (by decide), fun _ => Or.inl (by decide), by simp⟩

theorem slobMalloc_honoured_sample : twoBlocksRun.live.length = 2 ∧ twoBlocksRun.slob.Honours 64 :=
  ⟨by decide +kernel, (slobMalloc_honoured_iff (Slob.zero samplePmm) sampleSlob rfl
    samplePmm_memmapOk (by decide +kernel) (Outcome.eq_ret_of_state? _) _ _ twoBlocksRun_runIf
    64).2.1 (Or.inl (by decide))⟩

/-- `slob_malloc(2^64 - 1)` as the first call: the sum with the header is 7, and the first entry
loses 7 bytes to a block of `2 ^ 64 - 1`. -/
theorem slobMalloc_wraps_sample :
    slobReady (Slob.zero samplePmm) = .ret () sampleSlob ∧
      (∃ t, slobMalloc (2 ^ 64 - 1) sampleSlob = .ret 0xffff800000103008 t) ∧
      entryLength sampleSlob.mem sampleSlob.pHead = 69632 ∧
      entryLength (slobMalloc (2 ^ 64 - 1) sampleSlob).final.mem sampleSlob.pHead = 69625 ∧
      ¬ sampleSlob.Honours (2 ^ 64 - 1) := by
  have hvalue : (slobMalloc (2 ^ 64 - 1) sampleSlob).value? = some 0xffff800000103008 := by
    decide +kernel
  have hready : slobReady (Slob.zero samplePmm) = .ret () sampleSlob := Outcome.eq_ret_of_state? _
  have hok : MemmapOk (Slob.zero samplePmm).offset (Slob.zero samplePmm).pmm.memmap :=
    samplePmm_memmapOk
  have hinv := slobReady_inv rfl hok (by decide +kernel) hready
  obtain ⟨t, ht⟩ := Outcome.eq_ret_of_value? hvalue
  refine ⟨hready, ⟨t, ht⟩, by decide +kernel, by decide +kernel, fun hh => ?_⟩
  have hlt := (hinv.honours_iff ht (by decide)).mp hh
  omega

end BloreOs
