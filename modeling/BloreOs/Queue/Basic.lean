import BloreOs.Basic
import BloreOs.Lib.Loop
import BloreOs.Lib.Ring

/-!
# The circular queue (`queue.c`)

`buff` is the array behind the struct, as a function of the index. The counter `num_items` alone
tells a full queue from an empty one. In `cqueue_write` it is incremented after the lock has been
released, in `cqueue_read` it is decremented before.

* `CQueue.Holds` — the queue holds the values of a list, oldest first,
* `cqueue_refines_fifo` — calls that run one at a time behave like a bounded FIFO.
-/

namespace BloreOs

open Loop Ring

/-- `CQueue_t`. -/
structure CQueue where
  readI : UInt32
  writeI : UInt32
  buff : Nat → UInt32
  len : UInt32
  numItems : UInt32
  lock : Bool

/-- `q->lock`. -/
def CQueue.lockAt : SpinlockAt CQueue where
  get := CQueue.lock
  put := fun q l => { q with lock := l }

/-- The fields that `cqueue_create` sets. `lock` and the contents of `buff` are what `malloc`
returned. -/
def cqueueCreate (len : UInt32) (buff : Nat → UInt32) (lock : Bool) : CQueue where
  readI := 0
  writeI := 0
  buff := buff
  len := len
  numItems := 0
  lock := lock

/-- Store a value and advance the write cursor. -/
def CQueue.put (q : CQueue) (val : UInt32) : CQueue :=
  { q with
    buff := Function.update q.buff q.writeI.toNat val
    writeI := if q.writeI + 1 = q.len then 0 else q.writeI + 1 }

/-- The increment at the end of `cqueue_write`. -/
def CQueue.count (q : CQueue) : CQueue := { q with numItems := q.numItems + 1 }

/-- `cqueue_write`. -/
def cqueueWrite (val : UInt32) (q : CQueue) : Outcome CQueue Bool :=
  (spinlockLock CQueue.lockAt q).bind fun _ q =>
    if q.numItems = q.len then .ret false (spinlockUnlock CQueue.lockAt q)
    else .ret true (spinlockUnlock CQueue.lockAt (q.put val)).count

/-- Take the oldest value and advance the read cursor. -/
def CQueue.take (q : CQueue) : CQueue :=
  { q with
    readI := if q.readI + 1 = q.len then 0 else q.readI + 1
    numItems := q.numItems - 1 }

/-- `cqueue_read`. -/
def cqueueRead (q : CQueue) : Outcome CQueue UInt32 :=
  (spinlockLock CQueue.lockAt q).bind fun _ q =>
    if q.numItems = 0 then hcf q
    else .ret (q.buff q.readI.toNat) (spinlockUnlock CQueue.lockAt q.take)

variable {q q' : CQueue} {L : List UInt32} {v : UInt32}

/-! ## The window -/

/-- The slots from the read cursor on hold the values of `L`, and the write cursor is behind them.
-/
structure CQueue.Holds (q : CQueue) (L : List UInt32) : Prop where
  length_le : L.length ≤ q.len.toNat
  contents : L = window q.buff q.len.toNat q.readI.toNat L.length
  cursors : 0 < q.len.toNat → q.readI.toNat < q.len.toNat ∧ q.writeI.toNat < q.len.toNat ∧
    q.writeI.toNat = (q.readI.toNat + L.length) % q.len.toNat

/-- A cursor that is advanced. -/
theorem advance_toNat {i len : UInt32} (hi : i.toNat < len.toNat) :
    (if i + 1 = len then 0 else i + 1).toNat = (i.toNat + 1) % len.toNat := by
  have hlen := len.toNat_lt
  have hadd : (i + 1).toNat = i.toNat + 1 := by
    rw [UInt32.toNat_add]
    exact Nat.mod_eq_of_lt (by show i.toNat + 1 < 2 ^ 32; omega)
  rw [← next_eq hi]
  by_cases h : i + 1 = len
  · rw [if_pos h, if_pos (by rw [← hadd, h])]
    rfl
  · rw [if_neg h, if_neg fun he => h (UInt32.toNat_inj.mp (by rw [hadd, he])), hadd]

/-- **Storing** into a queue that has a slot left. -/
theorem CQueue.Holds.put (h : q.Holds L) (hlt : L.length < q.len.toNat) (v : UInt32) :
    (q.put v).Holds (L ++ [v]) := by
  obtain ⟨hr, hw, heq⟩ := h.cursors (by omega)
  have hlen : (L ++ [v]).length = L.length + 1 := by simp
  refine ⟨by rw [hlen]; exact hlt, ?_, fun _ => ⟨hr, ?_, ?_⟩⟩
  · show L ++ [v] = window (Function.update q.buff q.writeI.toNat v) q.len.toNat q.readI.toNat _
    rw [hlen, heq, window_push hlt, ← h.contents]
  · show (if q.writeI + 1 = q.len then 0 else q.writeI + 1).toNat < q.len.toNat
    rw [advance_toNat hw]
    exact Nat.mod_lt _ (by omega)
  · show (if q.writeI + 1 = q.len then 0 else q.writeI + 1).toNat = _
    rw [advance_toNat hw, heq, hlen, Nat.mod_add_mod, Nat.add_assoc]
    rfl

/-- **Taking** from a queue that holds something. -/
theorem CQueue.Holds.take (h : q.Holds (v :: L)) :
    q.buff q.readI.toNat = v ∧ q.take.Holds L := by
  have hle : L.length + 1 ≤ q.len.toNat := h.length_le
  obtain ⟨hr, hw, heq⟩ := h.cursors (by omega)
  have hcont := h.contents
  rw [List.length_cons, window_pop, Nat.mod_eq_of_lt hr, List.cons.injEq] at hcont
  have hnext : q.take.readI.toNat = (q.readI.toNat + 1) % q.len.toNat := advance_toNat hr
  refine ⟨hcont.1.symm, by show L.length ≤ q.len.toNat; omega, ?_, fun _ => ⟨?_, hw, ?_⟩⟩
  · show L = window q.buff q.len.toNat q.take.readI.toNat L.length
    rw [hnext]
    exact hcont.2
  · show q.take.readI.toNat < q.len.toNat
    rw [hnext]
    exact Nat.mod_lt _ (by omega)
  · show q.writeI.toNat = (q.take.readI.toNat + L.length) % q.len.toNat
    rw [hnext, heq, Nat.mod_add_mod, List.length_cons, Nat.add_assoc, Nat.add_comm 1]

/-- The lock does not matter. -/
theorem CQueue.Holds.congr (h : q.Holds L) (hr : q'.readI = q.readI) (hw : q'.writeI = q.writeI)
    (hb : q'.buff = q.buff) (hl : q'.len = q.len) : q'.Holds L := by
  refine ⟨?_, ?_, ?_⟩
  · rw [hl]
    exact h.length_le
  · rw [hb, hl, hr]
    exact h.contents
  · rw [hl, hr, hw]
    exact h.cursors

/-! ## One call at a time -/

/-- A queue between two calls: it holds `L`, `num_items` says so, and the lock is free. -/
structure CQueue.Idle (q : CQueue) (L : List UInt32) : Prop extends q.Holds L where
  numItems : q.numItems.toNat = L.length
  unlocked : q.lock = false

theorem CQueue.Idle.numItems_eq_len (h : q.Idle L) :
    q.numItems = q.len ↔ L.length = q.len.toNat := by
  rw [← h.numItems, UInt32.toNat_inj]

theorem CQueue.Idle.numItems_eq_zero (h : q.Idle L) : q.numItems = 0 ↔ L = [] := by
  rw [← UInt32.toNat_inj, h.numItems, ← List.length_eq_zero_iff]
  rfl

/-- `cqueue_write` on a full queue. -/
theorem cqueueWrite_full (h : q.Idle L) (hfull : L.length = q.len.toNat) (v : UInt32) :
    cqueueWrite v q = .ret false q := by
  have heq := h.numItems_eq_len.mpr hfull
  have hu := h.unlocked
  obtain ⟨⟩ := q
  cases hu
  simp only at heq
  simp [cqueueWrite, spinlockLock, spinlockUnlock, CQueue.lockAt, heq]

/-- `cqueue_write` on any other queue. -/
theorem cqueueWrite_room (h : q.Idle L) (hroom : L.length ≠ q.len.toNat) (v : UInt32) :
    cqueueWrite v q = .ret true (q.put v).count ∧ (q.put v).count.Idle (L ++ [v]) := by
  have hne : ¬ q.numItems = q.len := fun he => hroom (h.numItems_eq_len.mp he)
  have hlt : L.length < q.len.toNat := Nat.lt_of_le_of_ne h.length_le hroom
  have hput := h.toHolds.put hlt v
  constructor
  · have hu := h.unlocked
    obtain ⟨⟩ := q
    cases hu
    simp only at hne
    simp [cqueueWrite, spinlockLock, spinlockUnlock, CQueue.lockAt, CQueue.put, CQueue.count, hne]
  · have hnum := h.numItems
    have hlen := q.len.toNat_lt
    refine ⟨hput.congr rfl rfl rfl rfl, ?_, h.unlocked⟩
    show (q.numItems + 1).toNat = (L ++ [v]).length
    rw [UInt32.toNat_add, hnum, List.length_append, List.length_singleton]
    exact Nat.mod_eq_of_lt (by show L.length + 1 < 2 ^ 32; omega)

/-- `cqueue_read` on an empty queue. -/
theorem cqueueRead_empty (h : q.Idle []) : cqueueRead q = .halt { q with lock := true } := by
  have hzero := h.numItems_eq_zero.mpr rfl
  have hu := h.unlocked
  obtain ⟨⟩ := q
  cases hu
  simp only at hzero
  simp [cqueueRead, spinlockLock, CQueue.lockAt, hcf, hzero]

/-- `cqueue_read` on any other queue. -/
theorem cqueueRead_cons (h : q.Idle (v :: L)) :
    cqueueRead q = .ret v q.take ∧ q.take.Idle L := by
  have hne : ¬ q.numItems = 0 := fun he => by cases h.numItems_eq_zero.mp he
  obtain ⟨hval, htake⟩ := h.toHolds.take
  constructor
  · have hu := h.unlocked
    obtain ⟨⟩ := q
    cases hu
    simp only at hne hval
    simp [cqueueRead, spinlockLock, spinlockUnlock, CQueue.lockAt, CQueue.take, hne, hval]
  · have hnum := h.numItems
    refine ⟨htake, ?_, h.unlocked⟩
    show (q.numItems - 1).toNat = L.length
    rw [UInt32.toNat_sub_of_le, hnum]
    · rfl
    · rw [UInt32.le_iff_toNat_le, hnum]
      exact Nat.le_add_left 1 _

inductive CQueueOp where
  | write (val : UInt32)
  | read
deriving DecidableEq

/-- One call. There is no next state after a read that halts. -/
def CQueue.step (q : CQueue) : CQueueOp → Option CQueue
  | .write v => (cqueueWrite v q).state?
  | .read => (cqueueRead q).state?

/-- A FIFO of at most `cap` values: what the queue is for. -/
def fifoStep (cap : Nat) (L : List UInt32) : CQueueOp → Option (List UInt32)
  | .write v => if L.length = cap then some L else some (L ++ [v])
  | .read =>
    match L with
    | [] => none
    | _ :: rest => some rest

/-- **One call simulates one step of the FIFO.** -/
theorem CQueue.step_simulates (h : q.Idle L) {op : CQueueOp} (hstep : q.step op = some q') :
    ∃ L', fifoStep q.len.toNat L op = some L' ∧ q'.Idle L' ∧ q'.len = q.len := by
  cases op with
  | write v =>
    by_cases hfull : L.length = q.len.toNat
    · rw [CQueue.step, cqueueWrite_full h hfull] at hstep
      cases hstep
      exact ⟨L, if_pos hfull, h, rfl⟩
    · obtain ⟨heq, hidle⟩ := cqueueWrite_room h hfull v
      rw [CQueue.step, heq] at hstep
      cases hstep
      exact ⟨L ++ [v], if_neg hfull, hidle, rfl⟩
  | read =>
    cases L with
    | nil =>
      rw [CQueue.step, cqueueRead_empty h] at hstep
      cases hstep
    | cons v L =>
      obtain ⟨heq, hidle⟩ := cqueueRead_cons h
      rw [CQueue.step, heq] at hstep
      cases hstep
      exact ⟨L, rfl, hidle, rfl⟩

theorem CQueue.run_simulates : ∀ (ops : List CQueueOp) {q q' : CQueue} {L : List UInt32}, q.Idle L →
    run CQueue.step ops q = some q' →
    ∃ L', run (fifoStep q.len.toNat) ops L = some L' ∧ q'.Idle L' ∧ q'.len = q.len
  | [], q, q', L, h, hrun => by
    cases hrun
    exact ⟨L, rfl, h, rfl⟩
  | op :: ops, q, q', L, h, hrun => by
    obtain ⟨r, hr, hrest⟩ := run_cons_eq_some.mp hrun
    obtain ⟨L₁, h1, hidle, hlen⟩ := CQueue.step_simulates h hr
    obtain ⟨L₂, h2, hidle', hlen'⟩ := run_simulates ops hidle hrest
    rw [hlen] at h2
    exact ⟨L₂, run_cons_eq_some.mpr ⟨L₁, h1, h2⟩, hidle', hlen'.trans hlen⟩

/--
**The circular queue refines a bounded FIFO.**

Whatever calls have run on an empty queue with a free lock, the queue holds the list `L` that a FIFO
of the same capacity would hold. A write fails exactly on a full queue and then changes nothing, a
read halts exactly on an empty queue and otherwise returns the oldest value, and the lock is free
after every call that returns.
-/
theorem cqueue_refines_fifo (q₀ : CQueue) (hempty : q₀.numItems = 0)
    (hcursor : q₀.writeI = q₀.readI) (hlt : 0 < q₀.len.toNat → q₀.readI.toNat < q₀.len.toNat)
    (hlock : q₀.lock = false) (ops : List CQueueOp) (q : CQueue)
    (hrun : run CQueue.step ops q₀ = some q) :
    ∃ L, run (fifoStep q₀.len.toNat) ops [] = some L ∧
      L.length = q.numItems.toNat ∧ L.length ≤ q₀.len.toNat ∧
      (∀ v, if L.length = q₀.len.toNat then cqueueWrite v q = .ret false q
        else ∃ t, cqueueWrite v q = .ret true t ∧ t.Idle (L ++ [v])) ∧
      (match L with
        | [] => ∃ t, cqueueRead q = .halt t
        | v :: rest => ∃ t, cqueueRead q = .ret v t ∧ t.Idle rest) ∧
      (0 < q₀.len.toNat → q.readI.toNat < q₀.len.toNat ∧ q.writeI.toNat < q₀.len.toNat ∧
        q.writeI.toNat = (q.readI.toNat + q.numItems.toNat) % q₀.len.toNat) ∧
      q.lock = false := by
  have hstart : q₀.Idle [] := by
    refine ⟨⟨Nat.zero_le _, rfl, fun h0 => ⟨hlt h0, ?_, ?_⟩⟩, ?_, hlock⟩
    · rw [hcursor]
      exact hlt h0
    · rw [hcursor]
      exact (Nat.mod_eq_of_lt (hlt h0)).symm
    · rw [hempty]
      rfl
  obtain ⟨L, hL, hidle, hlen⟩ := CQueue.run_simulates ops hstart hrun
  rw [← hlen] at hL ⊢
  refine ⟨L, hL, hidle.numItems.symm, hidle.length_le, fun v => ?_, ?_, fun h0 => ?_,
    hidle.unlocked⟩
  · by_cases hfull : L.length = q.len.toNat
    · rw [if_pos hfull]
      exact cqueueWrite_full hidle hfull v
    · rw [if_neg hfull]
      exact ⟨_, cqueueWrite_room hidle hfull v⟩
  · cases L with
    | nil => exact ⟨_, cqueueRead_empty hidle⟩
    | cons v rest => exact ⟨_, cqueueRead_cons hidle⟩
  · rw [hidle.numItems]
    exact hidle.cursors h0

theorem cqueue_refines_fifo_sample :
    ∃ q, run CQueue.step [.write 5, .write 6, .write 7, .read, .write 8]
        (cqueueCreate 2 (fun _ => 0) false) = some q ∧
      ∃ L, run (fifoStep 2) [.write 5, .write 6, .write 7, .read, .write 8] [] = some L ∧
        L.length = q.numItems.toNat := by
  have hrun : (run CQueue.step [.write 5, .write 6, .write 7, .read, .write 8]
      (cqueueCreate 2 (fun _ => 0) false)).isSome := by decide
  obtain ⟨L, hL, hlen, -⟩ := cqueue_refines_fifo (cqueueCreate 2 (fun _ => 0) false) rfl rfl
    (by decide) rfl [.write 5, .write 6, .write 7, .read, .write 8] _ (Option.some_get hrun).symm
  exact ⟨_, (Option.some_get hrun).symm, L, hL, hlen⟩

end BloreOs
