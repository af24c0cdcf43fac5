import BloreOs.Queue.Basic
import BloreOs.Slob.AnySize

/-!
# Creating a queue

`cqueue_create` puts a `CQueue_t` and its buffer into one block of the heap. The struct is packed: 24
bytes of fields that are all set, and the byte of the lock, which is not. It is what the block held
before.

* `cqueueAt_cqueueFill` — the queue in memory is the `cqueueCreate` of `Queue/Basic`,
* `SlobInv.created_iff` — when it can be used,
* `cqueueCreate_ready_iff` — the same after any run of the heap.
-/

namespace BloreOs

open Loop Memory

/-- `sizeof(CQueue_t)`. -/
def sizeofCQueue : Nat := 25

/-- The writes of `cqueue_create` into the block at `q`. -/
def cqueueFill (m : Memory) (q : Nat) (len : UInt32) : Memory :=
  let m := m.store (q + 8) 8 (add64 q sizeofCQueue)
  let m := m.store (q + 16) 4 len.toNat
  let m := m.store q 4 0
  let m := m.store (q + 4) 4 0
  m.store (q + 20) 4 0

/-- The size of the block that `cqueue_create` asks for. -/
def cqueueBytes (len : UInt32) : Nat := add64 sizeofCQueue (mul64 4 len.toNat)

/-- `cqueue_create`, with the memory it writes. The result of `malloc` is not checked. -/
def cqueueCreateIn (len : UInt32) (s : Slob) : Outcome Slob Nat :=
  (slobMalloc (cqueueBytes len) s).bind fun mem s => .ret mem (s.setMem (cqueueFill s.mem mem len))

/-- The queue that a pointer points to. -/
def cqueueAt (m : Memory) (q : Nat) : CQueue where
  readI := UInt32.ofNat (m.load q 4)
  writeI := UInt32.ofNat (m.load (q + 4) 4)
  buff := fun i => UInt32.ofNat (m.load (m.load (q + 8) 8 + 4 * i) 4)
  len := UInt32.ofNat (m.load (q + 16) 4)
  numItems := UInt32.ofNat (m.load (q + 20) 4)
  lock := decide (m (q + 24) ≠ 0)

/-- A queue of `len` slots at `q` that can be used: it is empty, its lock is free, its buffer lies
behind the struct in the same block, and the first call does not wait for the lock. -/
structure QueueReady (m : Memory) (q : Nat) (len : UInt32) : Prop where
  idle : (cqueueAt m q).Idle []
  capacity : (cqueueAt m q).len = len
  buff : q + sizeofCQueue ≤ m.load (q + 8) 8 ∧
    m.load (q + 8) 8 + 4 * len.toNat ≤ q + cqueueBytes len
  write : ∀ v t, cqueueWrite v (cqueueAt m q) ≠ .spin t
  read : ∀ t, cqueueRead (cqueueAt m q) ≠ .spin t

variable {P : Pool} {s t : Slob} {live : List SlobBlock} {heap : List Nat} {m : Memory}
  {len : UInt32} {a p q size : Nat}

/-! ## The struct -/

theorem cqueueBytes_eq (len : UInt32) : cqueueBytes len = 25 + 4 * len.toNat := by
  have hlen := len.toNat_lt
  rw [cqueueBytes, sizeofCQueue, mul64_eq (by omega), add64_eq (by omega)]

/-- The lock and everything behind it keep their bytes. -/
theorem cqueueFill_outside (ha : q + 24 ≤ a) : cqueueFill m q len a = m a := by
  rw [cqueueFill, store_outside (by omega), store_outside (by omega), store_outside (by omega),
    store_outside (by omega), store_outside (by omega)]

/-- The pointer to the buffer. -/
theorem cqueueFill_buff (hq : q + 25 < 2 ^ 64) : (cqueueFill m q len).load (q + 8) 8 = q + 25 := by
  rw [cqueueFill, load_store_disjoint (by omega), load_store_disjoint (by omega),
    load_store_disjoint (by omega), load_store_disjoint (by omega), load_store_same, sizeofCQueue,
    add64_eq hq]
  exact Nat.mod_eq_of_lt hq

/-- **The queue in memory.** The fields are set, the lock and the slots are what was there. -/
theorem cqueueAt_cqueueFill (hq : q + 25 < 2 ^ 64) : cqueueAt (cqueueFill m q len) q
    = cqueueCreate len (fun i => UInt32.ofNat (m.load (q + 25 + 4 * i) 4))
        (decide (m (q + 24) ≠ 0)) := by
  have hread : (cqueueFill m q len).load q 4 = 0 := by
    rw [cqueueFill, load_store_disjoint (by omega), load_store_disjoint (by omega), load_store_same,
      Nat.zero_mod]
  have hwrite : (cqueueFill m q len).load (q + 4) 4 = 0 := by
    rw [cqueueFill, load_store_disjoint (by omega), load_store_same, Nat.zero_mod]
  have hlen : (cqueueFill m q len).load (q + 16) 4 = len.toNat := by
    rw [cqueueFill, load_store_disjoint (by omega), load_store_disjoint (by omega),
      load_store_disjoint (by omega), load_store_same]
    exact Nat.mod_eq_of_lt len.toNat_lt
  have hitems : (cqueueFill m q len).load (q + 20) 4 = 0 := by
    rw [cqueueFill, load_store_same, Nat.zero_mod]
  have hslots : ∀ i, (cqueueFill m q len).load (q + 25 + 4 * i) 4 = m.load (q + 25 + 4 * i) 4 :=
    fun i => load_congr 4 fun b h1 _ => cqueueFill_outside (by omega)
  rw [cqueueAt, cqueueFill_buff hq, hread, hwrite, hlen, hitems, cqueueFill_outside (Nat.le_refl _)]
  simp only [hslots, UInt32.ofNat_toNat]
  rfl

/-- The lock is the byte that was there. -/
theorem cqueueAt_lock : (cqueueAt (cqueueFill m q len) q).lock = decide (m (q + 24) ≠ 0) := by
  rw [cqueueAt, cqueueFill_outside (Nat.le_refl _)]

/-- A created queue is idle exactly if its lock is free. -/
theorem cqueueCreate_idle_iff (len : UInt32) (buff : Nat → UInt32) (lock : Bool) :
    (cqueueCreate len buff lock).Idle [] ↔ lock = false := by
  refine ⟨fun h => h.unlocked, fun hl => ⟨⟨Nat.zero_le _, rfl, fun h0 => ⟨h0, h0, ?_⟩⟩, rfl, hl⟩⟩
  exact (Nat.zero_mod _).symm

theorem spinlockLock_free {q : CQueue} (h : q.lock = false) :
    spinlockLock CQueue.lockAt q = .ret () { q with lock := true } :=
  if_neg (by rw [show CQueue.lockAt.get q = false from h]; decide)

/-- With a free lock a call does not wait. -/
theorem cqueueWrite_ne_spin {q t : CQueue} (h : q.lock = false) (v : UInt32) :
    cqueueWrite v q ≠ .spin t := by
  rw [cqueueWrite, spinlockLock_free h, Outcome.ret_bind]
  split_ifs
  · exact fun hc => by cases hc
  · exact fun hc => by cases hc

theorem cqueueRead_ne_spin {q t : CQueue} (h : q.lock = false) : cqueueRead q ≠ .spin t := by
  rw [cqueueRead, spinlockLock_free h, Outcome.ret_bind]
  split_ifs
  · exact fun hc => by cases hc
  · exact fun hc => by cases hc

/-- With a lock that is taken the first call waits for ever. -/
theorem cqueue_spin {q : CQueue} (h : q.lock = true) :
    (∀ v, cqueueWrite v q = .spin q) ∧ cqueueRead q = .spin q := by
  have hlock : spinlockLock CQueue.lockAt q = .spin q := if_pos h
  refine ⟨fun v => ?_, ?_⟩
  · rw [cqueueWrite, hlock, Outcome.spin_bind]
  · rw [cqueueRead, hlock, Outcome.spin_bind]

/-- **When a queue in memory can be used.** -/
theorem queueReady_cqueueFill (hq : q + 25 < 2 ^ 64) :
    QueueReady (cqueueFill m q len) q len ↔ m (q + 24) = 0 := by
  have hlock : ∀ h : m (q + 24) = 0, (cqueueAt (cqueueFill m q len) q).lock = false := by
    intro h
    rw [cqueueAt_lock]
    simpa using h
  constructor
  · intro h
    have hidle := h.idle
    rw [cqueueAt_cqueueFill hq, cqueueCreate_idle_iff] at hidle
    simpa using hidle
  · intro h
    constructor
    case idle =>
      rw [cqueueAt_cqueueFill hq, cqueueCreate_idle_iff]
      simpa using h
    case capacity => rw [cqueueAt_cqueueFill hq, cqueueCreate]
    case buff =>
      rw [cqueueFill_buff hq, cqueueBytes_eq, sizeofCQueue]
      omega
    case write => exact fun v t => cqueueWrite_ne_spin (hlock h) v
    case read => exact fun t => cqueueRead_ne_spin (hlock h)

/-! ## The heap -/

namespace SlobInv

variable (hinv : SlobInv P s live heap)
include hinv

/-- `slob_malloc` leaves the bytes of the block it returns as they were. -/
theorem slobMalloc_keeps (hsize : size + 8 < 2 ^ 64) (heq : BloreOs.slobMalloc size s = .ret p t)
    (hp : p ≠ 0) (h1 : p ≤ a) (h2 : a < p + size) : t.mem a = s.mem a := by
  rcases hinv.slobMalloc_cases hsize with ⟨-, h0⟩ | ⟨x, hx, hfit, hsplit⟩
  · rw [h0] at heq
    cases heq
    exact absurd rfl hp
  · rw [hsplit, hinv.slobSplit_eq hx hfit] at heq
    cases heq
    -- the block lies in the entry, so not in the record
    have hclear := (hinv.entry_apart_record hx hx).clear
      (show 0 < (entrySpan s.mem (x + P.offset)).len by
        exact Nat.lt_of_lt_of_le (by omega : 0 < 8 + size) hfit) (recordSpan_pos x)
    simp only [Span.Clear, entrySpan, recordSpan] at hclear
    show splitMem s.mem P.offset x size a = s.mem a
    rw [splitMem, store_outside (by omega), store_outside (by omega), store_outside (by omega)]

/-- **When a created queue can be used.** -/
theorem created_iff (heq : BloreOs.slobMalloc (cqueueBytes len) s = .ret p t) (hp : p ≠ 0) :
    (QueueReady (cqueueFill t.mem p len) p len ↔ s.mem (p + 24) = 0) ∧
      (cqueueAt (cqueueFill t.mem p len) p).lock = decide (s.mem (p + 24) ≠ 0) := by
  have hlen := len.toNat_lt
  have hsize : cqueueBytes len + 8 < 2 ^ 64 := by
    rw [cqueueBytes_eq]
    omega
  have hblock := (hinv.slobMalloc hsize heq hp).block_inRange List.mem_cons_self
  have hptr := (hinv.slobMalloc hsize heq hp).ptr_eq List.mem_cons_self
  have hbytes := cqueueBytes_eq len
  simp only at hblock hptr
  have hkeep := hinv.slobMalloc_keeps hsize heq hp (Nat.le_add_right p 24) (by omega)
  rw [queueReady_cqueueFill (by omega), cqueueAt_lock, hkeep]
  exact ⟨Iff.rfl, rfl⟩

end SlobInv

/--
**A created queue can be used exactly if the byte of its lock was 0.**

After any run of the heap, with whatever the blocks of earlier clients have left in memory: if the
allocation succeeds, the queue is empty, unlocked and has its slots in its own block if and only if
the memory held a 0 at offset 24 of the block; otherwise its first write and its first read wait for
ever.
-/
theorem cqueueCreate_ready_iff (s₀ s₁ : Slob) (h₀ : s₀.init = false)
    (hok : MemmapOk s₀.offset s₀.pmm.memmap) (hcount : (usable s₀.pmm.memmap).length < 2 ^ 31)
    (hready : slobReady s₀ = .ret () s₁) (ops : List SlobOp) (h : SlobRun)
    (hrun : RunIf SlobRun.call SlobRun.Fine ops ⟨s₁, []⟩ h) (len : UInt32) (p : Nat) (t : Slob)
    (hcreate : cqueueCreateIn len h.slob = .ret p t) (hp : p ≠ 0) :
    (QueueReady t.mem p len ↔ h.slob.mem (p + 24) = 0) ∧
      (h.slob.mem (p + 24) ≠ 0 → (∀ v, cqueueWrite v (cqueueAt t.mem p) = .spin (cqueueAt t.mem p)) ∧
        cqueueRead (cqueueAt t.mem p) = .spin (cqueueAt t.mem p)) := by
  obtain ⟨heap, hinv⟩ := slobInv_of_runIf h₀ hok hcount hready hrun
  obtain ⟨p', u, heq, hret⟩ := Outcome.bind_eq_ret.mp hcreate
  cases hret
  obtain ⟨hiff, hlock⟩ := hinv.created_iff heq hp
  exact ⟨hiff, fun hne => cqueue_spin (hlock.trans (decide_eq_true hne))⟩

theorem cqueueCreate_ready_sample :
    ∃ t, cqueueCreateIn 10 twoBlocksRun.slob = .ret 0xffff8000001030a4 t ∧
      QueueReady t.mem 0xffff8000001030a4 10 := by
  have hvalue : (cqueueCreateIn 10 twoBlocksRun.slob).value? = some 0xffff8000001030a4 := by
    decide +kernel
  obtain ⟨t, ht⟩ := Outcome.eq_ret_of_value? hvalue
  refine ⟨t, ht, ?_⟩
  exact (cqueueCreate_ready_iff (Slob.zero samplePmm) sampleSlob rfl samplePmm_memmapOk
    (by decide +kernel) (Outcome.eq_ret_of_state? _) _ _ twoBlocksRun_runIf 10 _ t ht
    (by decide)).1.mpr (by decide +kernel)

/-- A client that leaves a 1 at offset 24 of its block. -/
def usedBlockRun : SlobRun :=
  (run SlobRun.step [.slobMalloc 100, .write 0xffff800000103020 1, .slobFree 0xffff800000103008]
    ⟨sampleSlob, []⟩).get (by decide +kernel)

/-- The queue that is created next gets the same block, and its lock is taken. -/
theorem cqueueCreate_locked_sample :
    slobReady (Slob.zero samplePmm) = .ret () sampleSlob ∧
      run SlobRun.step [.slobMalloc 100, .write 0xffff800000103020 1, .slobFree 0xffff800000103008]
        ⟨sampleSlob, []⟩ = some usedBlockRun ∧
      ∃ t, cqueueCreateIn 10 usedBlockRun.slob = .ret 0xffff800000103008 t ∧
        ¬ QueueReady t.mem 0xffff800000103008 10 ∧
        (∀ v, cqueueWrite v (cqueueAt t.mem 0xffff800000103008)
          = .spin (cqueueAt t.mem 0xffff800000103008)) := by
  have hvalue : (cqueueCreateIn 10 usedBlockRun.slob).value? = some 0xffff800000103008 := by
    decide +kernel
  have hfinal : (cqueueCreateIn 10 usedBlockRun.slob).final.mem (0xffff800000103008 + 24) = 1 := by
    decide +kernel
  obtain ⟨t, ht⟩ := Outcome.eq_ret_of_value? hvalue
  have hbyte : t.mem (0xffff800000103008 + 24) = 1 := by
    rw [ht] at hfinal
    exact hfinal
  have hlock : (cqueueAt t.mem 0xffff800000103008).lock = true := by
    rw [cqueueAt]
    exact decide_eq_true (by rw [hbyte]; decide)
  have hspin := (cqueue_spin hlock).1
  exact ⟨Outcome.eq_ret_of_state? _, (Option.some_get _).symm, t, ht,
    fun hready => hready.write 0 _ (hspin 0), hspin⟩

end BloreOs
