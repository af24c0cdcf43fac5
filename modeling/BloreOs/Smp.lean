import BloreOs.Basic
import BloreOs.Lib.Lock

/-!
# Waking the CPUs (`cpu.c`)

Every core that wakes up counts itself in `_cpus_awake` under `_cpu_lock`. The increment is a load
and a store, so without the lock one of two cores could be lost.

What the section logs about the core, and `lapic_init` in front of it, are left out. The last line
that it logs is kept, since it reads the counter once more.
-/

namespace BloreOs

open Loop Lock

/-- `_cpu_lock`, `_cpus_awake`, and the numbers of the lines `Cores Online`. -/
structure Awake where
  lock : Bool
  cpusAwake : BitVec 64
  online : List (BitVec 64)

/-- Where a core is in the section of `_cpu_awake`. -/
inductive AwakeLocal where
  | load
  | store (val : BitVec 64)
  | report

/-- The globals before the first core wakes up. The boot core is counted already. -/
def Awake.boot : Awake := ⟨false, 1, []⟩

/-- The next step of the section. -/
def awakeBody : AwakeLocal × Awake → (AwakeLocal × Awake) ⊕ (Option Unit × Awake)
  | (.load, s) => .inl (.store s.cpusAwake, s)
  | (.store val, s) => .inl (.report, { s with cpusAwake := val + 1 })
  | (.report, s) => .inr (some (), { s with online := s.online ++ [s.cpusAwake] })

/-- `_cpu_awake`, from `spinlock_lock` on. -/
def awakeGuarded : Guarded Awake Unit AwakeLocal Unit where
  locked := Awake.lock
  acquire s := { s with lock := true }
  release s := { s with lock := false }
  enter _ := .load
  body := awakeBody
  locked_acquire _ := rfl
  locked_release _ := rfl
  locked_inl x y h := by
    revert h
    fun_cases awakeBody x <;> rintro ⟨⟩ <;> rfl
  locked_inr x y h := by
    revert h
    fun_cases awakeBody x <;> rintro ⟨⟩
    rfl

/-- One core more. -/
def Awake.next (s : Awake) : Awake where
  lock := false
  cpusAwake := s.cpusAwake + 1
  online := s.online ++ [s.cpusAwake + 1]

variable {ι : Type} {s t : Awake}

theorem awake_calls {r : Unit} (h : awakeGuarded.Calls () s r t) : t = s.next := by
  obtain ⟨-, u, hu, rfl⟩ := h
  have hend : Ends awakeBody (.load, { s with lock := true }) (some (),
      { s with lock := true, cpusAwake := s.cpusAwake + 1, online := s.online ++ [s.cpusAwake + 1] }) :=
    Ends.inl rfl (Ends.inl rfl (Ends.inr rfl))
  have heq := Ends.unique hu hend
  rw [Prod.mk.injEq] at heq
  rw [heq.2]
  rfl

/-- The counter and the lines after `n` cores. -/
def Awake.after (n : Nat) : Awake where
  lock := false
  cpusAwake := BitVec.ofNat 64 (n + 1)
  online := (List.range n).map fun k => BitVec.ofNat 64 (k + 2)

theorem Awake.next_after (n : Nat) : (Awake.after n).next = Awake.after (n + 1) := by
  have hnum : BitVec.ofNat 64 (n + 1) + 1#64 = BitVec.ofNat 64 (n + 1 + 1) := (BitVec.ofNat_add ..).symm
  simp [Awake.after, Awake.next, List.range_succ, hnum]

theorem awake_serial : ∀ (l : List (ι × Unit × Unit)) {n : Nat},
    awakeGuarded.Serial l (Awake.after n) t → t = Awake.after (n + l.length)
  | [], n, h => h.symm
  | (_, (), _) :: l, n, h => by
    obtain ⟨u, hcall, hrest⟩ := h
    rw [awake_calls hcall, Awake.next_after] at hrest
    rw [awake_serial l hrest, List.length_cons, Nat.add_assoc, Nat.add_comm 1]

/--
**No core is lost.**

However the steps of the cores interleave, two of them are never in the section at the same time.
With the lock free, `_cpus_awake` is one more than the number of cores that have been through, and
these have reported the numbers from 2 on, in order.
-/
theorem cpusAwake_counts [DecidableEq ι] (ops : List (Lock.Op ι Unit))
    (s : Users ι Awake Unit AwakeLocal Unit)
    (hrun : run awakeGuarded.step ops (Users.start Awake.boot) = some s) :
    (∀ i j, (s.pc i).holds = true → (s.pc j).holds = true → i = j) ∧
      (s.shared.lock = false →
        s.shared.cpusAwake = BitVec.ofNat 64 (s.history.length + 1) ∧
        s.shared.online = (List.range s.history.length).map fun k => BitVec.ofNat 64 (k + 2)) := by
  obtain ⟨u, hinv⟩ := Guarded.serializable (g := awakeGuarded) rfl ops hrun
  have hu : u = Awake.after (0 + s.history.length) := awake_serial s.history hinv.serial
  rw [Nat.zero_add] at hu
  refine ⟨fun i j => hinv.eq_of_holds, fun hl => ?_⟩
  rw [(hinv.nobody hl).1, hu]
  exact ⟨rfl, rfl⟩

/-- Two cores, of which the second one finds the lock taken once. -/
def sampleAwake : Users Bool Awake Unit AwakeLocal Unit :=
  (run awakeGuarded.step ([.call false (), .call true (), .step false, .step false, .step true]
    ++ List.replicate 3 (.step false) ++ List.replicate 5 (.step true))
    (Users.start Awake.boot)).get (by decide)

theorem cpusAwake_counts_sample :
    sampleAwake.shared.cpusAwake = 3 ∧ sampleAwake.shared.online = [2, 3] := by
  obtain ⟨-, hcount⟩ := cpusAwake_counts _ sampleAwake (Option.some_get _).symm
  obtain ⟨hawake, honline⟩ := hcount (by decide)
  exact ⟨hawake, honline⟩

end BloreOs
