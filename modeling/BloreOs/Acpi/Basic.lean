import BloreOs.Lib.ByteMemory
import Mathlib.Data.List.TakeWhile

/-!
# The MADT's structures (`acpi.h`, `acpi.c`)

`ioapic_list` and `iso_list` are arrays of pointers into the table that the firmware left in memory.
They are filled from the front, and the first `NULL` ends them.
-/

namespace BloreOs

/-! ## Arrays of pointers -/

/-- An array of `n` pointers. `NULL` is 0. -/
structure PtrArray (n : Nat) where
  slots : List Nat
  length_eq : slots.length = n
deriving DecidableEq

/-- The loop of `add_ioapic` and `add_iso`: put `p` into the first free slot. `none` if there is
none. -/
def addPtr (p : Nat) : List Nat → Option (List Nat)
  | [] => none
  | q :: l => if q = 0 then some (p :: l) else (addPtr p l).map (q :: ·)

theorem length_addPtr {p : Nat} : ∀ {l l' : List Nat}, addPtr p l = some l' → l'.length = l.length
  | q :: l, l', h => by
    rw [addPtr] at h
    split at h
    · cases h
      rfl
    · obtain ⟨l₁, h1, rfl⟩ := Option.map_eq_some_iff.mp h
      rw [List.length_cons, List.length_cons, length_addPtr h1]

namespace PtrArray

variable {n p : Nat} {ps : List Nat}

/-- An array of `NULL`s. -/
def empty (n : Nat) : PtrArray n := ⟨List.replicate n 0, List.length_replicate⟩

/-- Put `p` into the first free slot, if there is one. -/
def add (a : PtrArray n) (p : Nat) : Option (PtrArray n) :=
  match h : addPtr p a.slots with
  | none => none
  | some l => some ⟨l, (length_addPtr h).trans a.length_eq⟩

/-- An array after a number of pointers have been added, as far as there was room. -/
def addAll (a : PtrArray n) (ps : List Nat) : PtrArray n := ps.foldl (fun a p => (a.add p).getD a) a

/-- The entries in front of the first `NULL`. -/
def listed (a : PtrArray n) : List Nat := a.slots.takeWhile (· ≠ 0)

/-- An array that holds the first `n` of `ps`. -/
def filled (n : Nat) (ps : List Nat) : PtrArray n where
  slots := ps.take n ++ List.replicate (n - ps.length) 0
  length_eq := by
    rw [List.length_append, List.length_take, List.length_replicate]
    omega

theorem ext {a b : PtrArray n} (h : a.slots = b.slots) : a = b := by
  cases a
  cases b
  cases h
  rfl

theorem ne_zero_of_mem_listed {a : PtrArray n} (h : p ∈ a.listed) : p ≠ 0 := by
  simpa using List.mem_takeWhile_imp h

theorem map_slots_add (a : PtrArray n) (p : Nat) : (a.add p).map slots = addPtr p a.slots := by
  unfold add
  split
  · next h => exact h.symm
  · next l h => exact h.symm

theorem slots_getD_add (a : PtrArray n) (p : Nat) :
    ((a.add p).getD a).slots = (addPtr p a.slots).getD a.slots := by
  rw [← map_slots_add]
  cases a.add p with
  | none => rfl
  | some b => rfl

theorem addAll_append (a : PtrArray n) (ps qs : List Nat) :
    a.addAll (ps ++ qs) = (a.addAll ps).addAll qs := List.foldl_append

theorem filled_nil (n : Nat) : filled n [] = empty n := by
  refine ext ?_
  simp [filled, empty]

/-- The first free slot is the one behind the used ones. -/
theorem addPtr_append : ∀ {us : List Nat}, 0 ∉ us → ∀ l, addPtr p (us ++ l) = (addPtr p l).map (us ++ ·)
  | [], _, l => by simp
  | u :: us, h, l => by
    obtain ⟨hu, hus⟩ := not_or.mp (fun hm => h (List.mem_cons.mpr hm))
    rw [List.cons_append, addPtr, if_neg (Ne.symm hu), addPtr_append hus, Option.map_map]
    rfl

theorem getD_add_filled (h : 0 ∉ ps) (p : Nat) :
    ((filled n ps).add p).getD (filled n ps) = filled n (ps ++ [p]) := by
  have htake : 0 ∉ ps.take n := fun hm => h (List.mem_of_mem_take hm)
  refine ext ?_
  rw [slots_getD_add]
  unfold filled
  dsimp only
  rw [addPtr_append htake]
  by_cases hlt : ps.length < n
  · obtain ⟨m, rfl⟩ := Nat.exists_eq_add_of_lt hlt
    rw [show ps.length + m + 1 - ps.length = m + 1 by omega, List.replicate_succ, addPtr, if_pos rfl,
      List.take_of_length_le (by omega), List.take_of_length_le (by simp)]
    simp [show ps.length + m + 1 - (ps.length + 1) = m by omega]
  · have h0 : n - ps.length = 0 := by omega
    have h1 : n - (ps ++ [p]).length = 0 := by simp; omega
    rw [h0, h1, List.replicate_zero, addPtr, List.take_append_of_le_length (by omega)]
    simp

/-- **What an array holds after pointers have been added to it.** -/
theorem addAll_filled : ∀ (qs : List Nat) {ps : List Nat}, 0 ∉ ps → 0 ∉ qs →
    (filled n ps).addAll qs = filled n (ps ++ qs)
  | [], ps, _, _ => by rw [List.append_nil]; rfl
  | q :: qs, ps, h, hq => by
    obtain ⟨hq0, hqs⟩ := not_or.mp (fun hm => hq (List.mem_cons.mpr hm))
    have hps : 0 ∉ ps ++ [q] := by
      rw [List.mem_append, List.mem_singleton]
      exact not_or.mpr ⟨h, hq0⟩
    show (((filled n ps).add q).getD (filled n ps)).addAll qs = _
    rw [getD_add_filled h, addAll_filled qs hps hqs, List.append_assoc, List.singleton_append]

end PtrArray

/-! ## The globals -/

/-- `IOAPIC_LIST_LEN` -/
def ioapicListLen : Nat := 32

/-- `ISO_LIST_LEN` -/
def isoListLen : Nat := 128

/-- The globals of `acpi.c` that describe interrupt controllers, and the memory they point into. -/
structure Acpi where
  mem : Memory
  ioapicList : PtrArray ioapicListLen
  isoList : PtrArray isoListLen

namespace Acpi

/-- The globals before `acpi_init`. -/
def zero (mem : Memory) : Acpi := ⟨mem, PtrArray.empty _, PtrArray.empty _⟩

variable (a : Acpi)

/-- `((struct ioapic *)p)->ioapic_addr` -/
def ioapicAddr (p : Nat) : Nat := a.mem.load (p + 4) 4

/-- `((struct ioapic *)p)->gsi_base` -/
def gsiBase (p : Nat) : Nat := a.mem.load (p + 8) 4

/-- `((struct iso *)p)->irq_source` -/
def irqSource (p : Nat) : Nat := a.mem.load (p + 3) 1

/-- `((struct iso *)p)->gsi` -/
def gsi (p : Nat) : Nat := a.mem.load (p + 4) 4

/-- `((struct iso *)p)->flags` -/
def flags (p : Nat) : BitVec 16 := BitVec.ofNat 16 (a.mem.load (p + 8) 2)

end Acpi

end BloreOs
