import BloreOs.Queue.Basic
import Mathlib.Data.Finset.Card

/-!
# The circular queue under several users

The lock makes the sections between `spinlock_lock` and `spinlock_unlock` atomic, but the increment
of `num_items` at the end of `cqueue_write` lies outside of it. A write is therefore two steps, and
between them a value is in the buffer that `num_items` does not count. Any number of writers `ι`
and one reader interleave their steps.

With `pending` such writes, the queue is full when `num_items + pending` is the capacity. The test
in `cqueue_write` compares `num_items` alone. `shared_runs_iff` says that values are safe exactly in
those runs in which this makes no difference.
-/

namespace BloreOs

open Loop Ring

/-- The section of `cqueue_write` under the lock. -/
def cqueueWriteLocked (val : UInt32) (q : CQueue) : Bool × CQueue :=
  if q.numItems = q.len then (false, q) else (true, q.put val)

/-- `cqueue_write` is its locked section, and the increment behind it. -/
theorem cqueueWrite_eq {q : CQueue} (h : q.lock = false) (v : UInt32) :
    cqueueWrite v q = if (cqueueWriteLocked v q).1 then .ret true (cqueueWriteLocked v q).2.count
      else .ret false (cqueueWriteLocked v q).2 := by
  obtain ⟨⟩ := q
  cases h
  simp only [cqueueWrite, spinlockLock, spinlockUnlock, CQueue.lockAt, CQueue.put, CQueue.count,
    cqueueWriteLocked, Bool.false_eq_true, if_false, Outcome.ret_bind]
  split
  · next h => simp only [h, Bool.false_eq_true, if_false]
  · next h => simp only [if_true]

/-- A queue in use. `written` and `taken` record the values in the order of the locked sections
that stored them and of the reads. -/
structure Shared (ι : Type) where
  q : CQueue
  pending : Finset ι
  written : List UInt32
  taken : List UInt32

inductive SharedOp (ι : Type) where
  | writeLocked (w : ι) (val : UInt32)
  | writeCount (w : ι)
  | read

variable {ι : Type}

/-- One atomic step of a user. The reader first checks that `num_items` is not 0. -/
def Shared.step [DecidableEq ι] (s : Shared ι) : SharedOp ι → Option (Shared ι)
  | .writeLocked w v =>
    if w ∈ s.pending then none
    else if (cqueueWriteLocked v s.q).1 then
      some { s with
        q := (cqueueWriteLocked v s.q).2
        pending := insert w s.pending
        written := s.written ++ [v] }
    else some { s with q := (cqueueWriteLocked v s.q).2 }
  | .writeCount w =>
    if w ∈ s.pending then some { s with q := s.q.count, pending := s.pending.erase w } else none
  | .read =>
    if s.q.numItems = 0 then none
    else
      match cqueueRead s.q with
      | .ret v q => some { s with q := q, taken := s.taken ++ [v] }
      | _ => none

/-- A fresh queue, with no write under way. -/
def Shared.start (q : CQueue) : Shared ι where
  q := q
  pending := ∅
  written := []
  taken := []

/-- What users rely on: values are read in the order they were stored, every value that has not
been read is still in its slot, and `num_items` does not exceed the capacity. -/
def Shared.Intact (s : Shared ι) : Prop :=
  s.q.numItems.toNat ≤ s.q.len.toNat ∧ ∃ L, s.written = s.taken ++ L ∧ s.q.Holds L

/-- The condition on a locked write: the queue is full and the test sees it, or it is not full with
the writes under way counted. -/
def Shared.StepOk (s : Shared ι) : SharedOp ι → Prop
  | .writeLocked _ _ => s.q.numItems = s.q.len ∨
      s.q.numItems.toNat + s.pending.card < s.q.len.toNat
  | .writeCount _ => True
  | .read => True

/-- The values in the buffer are those that `num_items` counts and those under way. -/
structure Shared.Inv (s : Shared ι) : Prop where
  unlocked : s.q.lock = false
  counted : ∃ L, s.written = s.taken ++ L ∧ s.q.Holds L ∧
    s.q.numItems.toNat + s.pending.card = L.length

variable {s t : Shared ι} {op : SharedOp ι}

theorem Shared.Inv.intact (h : s.Inv) : s.Intact := by
  obtain ⟨L, hL, hholds, hnum⟩ := h.counted
  have := hholds.length_le
  exact ⟨by omega, L, hL, hholds⟩

/-- The locked section of a write that is not refused. -/
theorem Shared.Inv.writeLocked_iff [DecidableEq ι] (h : s.Inv) {w : ι} {v : UInt32} (hw : w ∉ s.pending)
    (hne : s.q.numItems ≠ s.q.len) :
    let t : Shared ι :=
      { s with q := s.q.put v, pending := insert w s.pending, written := s.written ++ [v] }
    (t.Intact ↔ s.StepOk (.writeLocked w v)) ∧ (s.StepOk (.writeLocked w v) → t.Inv) := by
  intro t
  obtain ⟨L, hL, hholds, hnum⟩ := h.counted
  have hok : s.StepOk (.writeLocked w v) ↔ L.length < s.q.len.toNat := by
    rw [Shared.StepOk, hnum]
    exact or_iff_right hne
  have hinv : L.length < s.q.len.toNat → t.Inv := by
    intro hlt
    refine ⟨h.unlocked, L ++ [v], ?_, hholds.put hlt v, ?_⟩
    · show s.written ++ [v] = s.taken ++ (L ++ [v])
      rw [hL, List.append_assoc]
    · show s.q.numItems.toNat + (insert w s.pending).card = (L ++ [v]).length
      rw [Finset.card_insert_of_notMem hw, List.length_append, List.length_singleton]
      omega
  refine ⟨⟨fun hint => hok.mpr ?_, fun hstep => (hinv (hok.mp hstep)).intact⟩,
    fun hstep => hinv (hok.mp hstep)⟩
  -- one value more than the queue holds slots for cannot be intact
  obtain ⟨-, L', hL', hholds'⟩ := hint
  have hle : L'.length ≤ s.q.len.toNat := hholds'.length_le
  have heq : s.taken ++ (L ++ [v]) = s.taken ++ L' := by
    rw [← List.append_assoc, ← hL]
    exact hL'
  rw [← List.append_cancel_left heq, List.length_append, List.length_singleton] at hle
  exact hle

/-- The increment of a write. -/
theorem Shared.Inv.writeCount [DecidableEq ι] (h : s.Inv) {w : ι} (hw : w ∈ s.pending) :
    ({ s with q := s.q.count, pending := s.pending.erase w } : Shared ι).Inv := by
  obtain ⟨L, hL, hholds, hnum⟩ := h.counted
  refine ⟨h.unlocked, L, hL, hholds.congr rfl rfl rfl rfl, ?_⟩
  have hpos := Finset.card_pos.mpr ⟨w, hw⟩
  have hle := hholds.length_le
  have hlen := s.q.len.toNat_lt
  have hcount : (s.q.numItems + 1).toNat = s.q.numItems.toNat + 1 := by
    rw [UInt32.toNat_add]
    exact Nat.mod_eq_of_lt (by show s.q.numItems.toNat + 1 < 2 ^ 32; omega)
  show (s.q.numItems + 1).toNat + (s.pending.erase w).card = L.length
  rw [hcount, Finset.card_erase_of_mem hw]
  omega

/-- A read. It returns the oldest value, which a write under way may have stored. -/
theorem Shared.Inv.read (h : s.Inv) (hne : s.q.numItems ≠ 0) :
    ∃ v, cqueueRead s.q = .ret v s.q.take ∧
      ({ s with q := s.q.take, taken := s.taken ++ [v] } : Shared ι).Inv := by
  obtain ⟨L, hL, hholds, hnum⟩ := h.counted
  have hpos : s.q.numItems.toNat ≠ 0 := fun h0 => hne (UInt32.toNat_inj.mp h0)
  cases L with
  | nil =>
    rw [List.length_nil] at hnum
    omega
  | cons v L =>
    obtain ⟨hval, htake⟩ := hholds.take
    refine ⟨v, ?_, h.unlocked, L, ?_, htake, ?_⟩
    · have hu := h.unlocked
      obtain ⟨⟨⟩⟩ := s
      cases hu
      simp only at hne hval
      simp [cqueueRead, spinlockLock, spinlockUnlock, CQueue.lockAt, CQueue.take, hne, hval]
    · show s.written = s.taken ++ [v] ++ L
      rw [hL, List.append_assoc]
      rfl
    · show (s.q.numItems - 1).toNat + s.pending.card = L.length
      rw [List.length_cons] at hnum
      rw [UInt32.toNat_sub_of_le]
      · show s.q.numItems.toNat - 1 + s.pending.card = L.length
        omega
      · rw [UInt32.le_iff_toNat_le]
        exact Nat.one_le_iff_ne_zero.mpr hpos

/-- **One step** keeps values safe exactly under the condition. -/
theorem Shared.step_iff [DecidableEq ι] (h : s.Inv) (hstep : s.step op = some t) :
    (t.Intact ↔ s.StepOk op) ∧ (s.StepOk op → t.Inv) := by
  cases op with
  | writeLocked w v =>
    rw [Shared.step] at hstep
    split at hstep
    · cases hstep
    · next hw =>
      by_cases hfull : s.q.numItems = s.q.len
      · have hlocked : cqueueWriteLocked v s.q = (false, s.q) := if_pos hfull
        simp only [hlocked, Bool.false_eq_true, if_false, Option.some.injEq] at hstep
        rw [← hstep]
        exact ⟨⟨fun _ => Or.inl hfull, fun _ => h.intact⟩, fun _ => h⟩
      · have hlocked : cqueueWriteLocked v s.q = (true, s.q.put v) := if_neg hfull
        simp only [hlocked, if_true, Option.some.injEq] at hstep
        rw [← hstep]
        exact h.writeLocked_iff hw hfull
  | writeCount w =>
    rw [Shared.step] at hstep
    split at hstep
    · next hw =>
      cases hstep
      have hinv := h.writeCount hw
      exact ⟨⟨fun _ => trivial, fun _ => hinv.intact⟩, fun _ => hinv⟩
    · cases hstep
  | read =>
    rw [Shared.step] at hstep
    split at hstep
    · cases hstep
    · next hne =>
      obtain ⟨v, heq, hinv⟩ := h.read hne
      simp only [heq, Option.some.injEq] at hstep
      rw [← hstep]
      exact ⟨⟨fun _ => trivial, fun _ => hinv.intact⟩, fun _ => hinv⟩

/--
**When values are safe.**

In an interleaving on an empty queue with a free lock, `num_items` stays within the capacity, no
unread value is overwritten and values are read in the order they were stored, in every state,
exactly if every locked write meets the condition `StepOk`.
-/
theorem shared_runs_iff [DecidableEq ι] (q₀ : CQueue) (hempty : q₀.numItems = 0)
    (hcursor : q₀.writeI = q₀.readI) (hlt : 0 < q₀.len.toNat → q₀.readI.toNat < q₀.len.toNat)
    (hlock : q₀.lock = false) (ops : List (SharedOp ι)) (t : Shared ι) :
    RunIf Shared.step (fun s _ => s.Intact) ops (Shared.start q₀) t ∧ t.Intact ↔
      RunIf Shared.step Shared.StepOk ops (Shared.start q₀) t := by
  have hstart : (Shared.start q₀ : Shared ι).Inv := by
    refine ⟨hlock, [], rfl, ⟨Nat.zero_le _, rfl, fun h0 => ⟨hlt h0, ?_, ?_⟩⟩, ?_⟩
    · show q₀.writeI.toNat < q₀.len.toNat
      rw [hcursor]
      exact hlt h0
    · show q₀.writeI.toNat = q₀.readI.toNat % q₀.len.toNat
      rw [hcursor]
      exact (Nat.mod_eq_of_lt (hlt h0)).symm
    · show q₀.numItems.toNat + 0 = 0
      rw [hempty]
      rfl
  have hiff := runIf_iff_of_step (C := Shared.StepOk) Shared.Inv Shared.Intact (fun _ _ => True)
    (fun s op t h _ hs => ⟨by rw [true_and]; exact (Shared.step_iff h hs).1, (Shared.step_iff h hs).2⟩)
    ops (s := (Shared.start q₀ : Shared ι)) (t := t) hstart hstart.intact
  simpa only [and_true] using hiff

/-- Two writers have stored their values before either is counted, in a queue of two slots. -/
theorem shared_runs_sample : ∃ t : Shared Bool,
    RunIf Shared.step (fun s _ => s.Intact)
      [.writeLocked true 5, .writeLocked false 6, .writeCount false, .read]
      (Shared.start (cqueueCreate 2 (fun _ => 0) false)) t ∧ t.Intact :=
  ⟨_, (shared_runs_iff (cqueueCreate 2 (fun _ => 0) false) rfl rfl (by decide) rfl
      [.writeLocked true 5, .writeLocked false 6, .writeCount false, .read] _).mpr
    ⟨Or.inr (by decide), _, rfl, Or.inr (by decide), _, rfl, trivial, _, rfl, trivial, _, rfl, rfl⟩⟩

/-- In a queue of one slot the second value overwrites the first, and both writes return true. -/
theorem shared_overwrites : ∃ t : Shared Bool,
    run Shared.step [.writeLocked true 5, .writeLocked false 6, .writeCount true, .writeCount false]
        (Shared.start (cqueueCreate 1 (fun _ => 0) false)) = some t ∧
      t.written = [5, 6] ∧ t.taken = [] ∧ t.q.buff 0 = 6 ∧
      t.q.len.toNat < t.q.numItems.toNat ∧ ¬ t.Intact := by
  refine ⟨_, rfl, rfl, rfl, rfl, by decide, fun h => ?_⟩
  exact absurd h.1 (by decide)

end BloreOs
