import BloreOs.Lib.ByteMemory
import BloreOs.Lib.RadixWalk

/-!
# The virtual memory manager (`vm.c`)

`walk_page_table` translates an address with the page tables under CR3. It takes table addresses
from the entries with one mask, which is 12 bits too high: it selects the bits 12 to
`maxphyaddr + 11`, where the processor uses the bits 12 to `maxphyaddr - 1`.

* `walkPageTable_eq_walk` — the function is a walk through four levels with that mask,
* `and_addrmask_eq_iff` — on which entries the mask makes no difference,
* `walkPageTable_iff` — when the function is the translation that the processor does.

A dereferenced pointer is part of the result, so that "where the tables are" can be stated. The log
output of `kprintf` is left out.
-/

namespace BloreOs

open RadixWalk

/-- The globals of `vm.c`, the register and the memory that they are used with. -/
structure Vm where
  mem : Memory
  vmmHigherHalfOffset : BitVec 64
  cr3 : BitVec 64
  maxphyaddr : BitVec 32

/-- `vm_init`, where `val` is the answer of `cpu_get_address_widths`. -/
def vmInit (val : BitVec 64) (vm : Vm) : Vm := { vm with maxphyaddr := (val &&& 0xFF).setWidth 32 }

/-- `PAGE_PRESENT` -/
def pagePresent : BitVec 64 := 0x1

/-- `PML4_INDEX` -/
def pml4Index (va : BitVec 64) : BitVec 64 := (va >>> 39) &&& 0x1FF

/-- `PDPT_INDEX` -/
def pdptIndex (va : BitVec 64) : BitVec 64 := (va >>> 30) &&& 0x1FF

/-- `PD_INDEX` -/
def pdIndex (va : BitVec 64) : BitVec 64 := (va >>> 21) &&& 0x1FF

/-- `PT_INDEX` -/
def ptIndex (va : BitVec 64) : BitVec 64 := (va >>> 12) &&& 0x1FF

/-- `PAGE_OFFSET` -/
def pageOffset (va : BitVec 64) : BitVec 64 := va &&& 0xFFF

namespace Vm

/-- `PHYS_TO_VIRT` -/
def physToVirt (vm : Vm) (addr : BitVec 64) : BitVec 64 := addr + vm.vmmHigherHalfOffset

/-- The pointer `&table[index]` for a table of 64-bit entries at a physical address. -/
def slot (vm : Vm) (table index : BitVec 64) : BitVec 64 := vm.physToVirt table + 8 * index

/-- The 64-bit value behind a pointer. -/
def deref (vm : Vm) (ptr : BitVec 64) : BitVec 64 := BitVec.ofNat 64 (vm.mem.load ptr.toNat 8)

/-- The local `addrmask` of `walk_page_table`. -/
def addrmask (vm : Vm) : BitVec 64 := ((1#64 <<< vm.maxphyaddr.toNat) - 1#64) <<< 12

end Vm

/-- `walk_page_table`, with the pointers that it dereferences. -/
def walkPageTable (vm : Vm) (virtAddr : BitVec 64) : List (BitVec 64) × BitVec 64 :=
  let pml4addr := vm.cr3 &&& vm.addrmask
  let pml4Slot := vm.slot pml4addr (pml4Index virtAddr)
  let pml4e := vm.deref pml4Slot
  if pml4e &&& pagePresent = 0 then ([pml4Slot], 0)
  else
    let pdptSlot := vm.slot (pml4e &&& vm.addrmask) (pdptIndex virtAddr)
    let pdpte := vm.deref pdptSlot
    if pdpte &&& pagePresent = 0 then ([pml4Slot, pdptSlot], 0)
    else
      let pdSlot := vm.slot (pdpte &&& vm.addrmask) (pdIndex virtAddr)
      let pde := vm.deref pdSlot
      if pde &&& pagePresent = 0 then ([pml4Slot, pdptSlot, pdSlot], 0)
      else
        let ptSlot := vm.slot (pde &&& vm.addrmask) (ptIndex virtAddr)
        let pte := vm.deref ptSlot
        if pte &&& pagePresent = 0 then ([pml4Slot, pdptSlot, pdSlot, ptSlot], 0)
        else ([pml4Slot, pdptSlot, pdSlot, ptSlot], (pte &&& vm.addrmask) ||| pageOffset virtAddr)

/-! ## The translation -/

/-- The physical address that the processor takes from an entry or from CR3: its bits 12 to
`width - 1`, in place. -/
def frameAddr (width : Nat) (e : BitVec 64) : BitVec 64 :=
  (e.extractLsb' 12 (width - 12) ++ 0#12).setWidth 64

namespace Vm

/-- The page tables in memory. -/
def tables (vm : Vm) : Tables (BitVec 64) (BitVec 64) (BitVec 64) where
  slot := vm.slot
  read := vm.deref
  present e := e.getLsbD 0

/-- The indices of the four levels. -/
def indices (va : BitVec 64) : List (BitVec 64) :=
  [pml4Index va, pdptIndex va, pdIndex va, ptIndex va]

/-- The slots that a 4-level walk without large pages reads, and the frame that it ends at. -/
def levels (vm : Vm) (va : BitVec 64) : List (BitVec 64) × Option (BitVec 64) :=
  walk vm.tables (frameAddr vm.maxphyaddr.toNat) (indices va) (frameAddr vm.maxphyaddr.toNat vm.cr3)

/-- 4-level translation: the frame combined with the offset, or 0. -/
def translation (vm : Vm) (va : BitVec 64) : List (BitVec 64) × BitVec 64 :=
  ((vm.levels va).1, (vm.levels va).2.elim 0 fun frame => frame ||| pageOffset va)

/-- The present entries on the path of an address. -/
def OnPath (vm : Vm) (va e : BitVec 64) : Prop :=
  ∃ s ∈ (vm.levels va).1, vm.deref s = e ∧ e.getLsbD 0 = true

end Vm

variable {vm : Vm} {va e : BitVec 64} {w i : Nat}

/-! ## Bits -/

theorem and_pagePresent (e : BitVec 64) : e &&& pagePresent = 0 ↔ e.getLsbD 0 = false := by
  constructor
  · intro h
    have h0 := congrArg (fun x => x.getLsbD 0) h
    simpa [pagePresent] using h0
  · intro h
    ext i hi
    rw [BitVec.getElem_and]
    by_cases h0 : i = 0
    · subst h0
      rw [BitVec.getLsbD_eq_getElem hi] at h
      simp [h]
    · have hone : pagePresent[i] = false := by
        rw [← BitVec.getLsbD_eq_getElem]
        show (1#64).getLsbD i = false
        simp [h0]
      simp [hone]

theorem getLsbD_addrmask (hw : w < 64) (i : Nat) :
    (((1#64 <<< w) - 1#64) <<< 12).getLsbD i = decide (12 ≤ i ∧ i < w + 12 ∧ i < 64) := by
  have hpow : (2 : Nat) ^ w < 2 ^ 64 := Nat.pow_lt_pow_right (by decide) hw
  have hones : (1#64 <<< w) - 1#64 = BitVec.ofNat 64 (2 ^ w - 1) := by
    refine BitVec.eq_of_toNat_eq ?_
    have hpos := Nat.two_pow_pos w
    rw [BitVec.toNat_sub, BitVec.toNat_shiftLeft, BitVec.toNat_ofNat, BitVec.toNat_ofNat,
      Nat.shiftLeft_eq]
    omega
  rw [hones, BitVec.getLsbD_shiftLeft, BitVec.getLsbD_ofNat, Nat.testBit_two_pow_sub_one]
  by_cases h64 : i < 64
  · by_cases h12 : i < 12
    · simp [h12]
    · have h1 : (i - 12 < 64) := by omega
      have h2 : (i - 12 < w) ↔ i < w + 12 := by omega
      simp [h64, h12, h1, h2, Nat.le_of_not_lt h12]
  · simp [h64]

theorem getLsbD_frameAddr (hw : 12 ≤ w) (hw64 : w ≤ 64) (e : BitVec 64) (i : Nat) :
    (frameAddr w e).getLsbD i = (decide (12 ≤ i ∧ i < w) && e.getLsbD i) := by
  rw [frameAddr, BitVec.getLsbD_setWidth, BitVec.getLsbD_append, BitVec.getLsbD_extractLsb']
  by_cases h12 : i < 12
  · simp [h12]
  · by_cases hiw : i < w
    · simp [h12, hiw, show 12 ≤ i by omega, show i < 64 by omega, show i - 12 < w - 12 by omega,
        show 12 + (i - 12) = i by omega]
    · simp [h12, hiw, show ¬ i - 12 < w - 12 by omega]

/-- **Where the mask makes no difference**: it must not select a set bit above the address. -/
theorem and_addrmask_eq_iff (hw : 12 ≤ w) (hw64 : w < 64) :
    e &&& (((1#64 <<< w) - 1#64) <<< 12) = frameAddr w e ↔
      ∀ i, w ≤ i → i < w + 12 → e.getLsbD i = false := by
  constructor
  · intro h i h1 h2
    by_cases h64 : i < 64
    · have hi := congrArg (fun x => x.getLsbD i) h
      simp only [BitVec.getLsbD_and, getLsbD_addrmask hw64, getLsbD_frameAddr hw hw64.le] at hi
      simpa [h64, h2, show 12 ≤ i by omega, show ¬ i < w by omega] using hi
    · exact BitVec.getLsbD_of_ge e i (by omega)
  · intro h
    refine BitVec.eq_of_getLsbD_eq fun i hi => ?_
    rw [BitVec.getLsbD_and, getLsbD_addrmask hw64, getLsbD_frameAddr hw hw64.le]
    by_cases hiw : i < w
    · have h1 : i < w + 12 := by omega
      simp [hiw, h1, hi, Bool.and_comm]
    · by_cases hlow : i < w + 12
      · simp [hiw, h i (by omega) hlow]
      · simp [hiw, hlow]

theorem getLsbD_pageOffset (hi : 12 ≤ i) : (pageOffset va).getLsbD i = false := by
  have hmask : (0xFFF#64).getLsbD i = false := by
    rw [show (0xFFF#64) = BitVec.ofNat 64 (2 ^ 12 - 1) by rfl, BitVec.getLsbD_ofNat,
      Nat.testBit_two_pow_sub_one]
    simp [show ¬ i < 12 by omega]
  rw [pageOffset, BitVec.getLsbD_and]
  simp [hmask]

/-- Combining a frame with the offset loses nothing of the frame. -/
theorem or_pageOffset_inj {x y : BitVec 64} (hx : ∀ i < 12, x.getLsbD i = false)
    (hy : ∀ i < 12, y.getLsbD i = false) (h : x ||| pageOffset va = y ||| pageOffset va) : x = y := by
  refine BitVec.eq_of_getLsbD_eq fun i _ => ?_
  by_cases h12 : i < 12
  · rw [hx i h12, hy i h12]
  · have hi := congrArg (fun z => z.getLsbD i) h
    simpa [getLsbD_pageOffset (Nat.le_of_not_lt h12)] using hi

/-! ## The walk -/

theorem walk_tables_present {base : BitVec 64 → BitVec 64} {a j : BitVec 64} {js : List (BitVec 64)}
    (h : ¬ (vm.deref (vm.slot a j)).getLsbD 0 = false) :
    walk vm.tables base (j :: js) a =
      (vm.slot a j :: (walk vm.tables base js (base (vm.deref (vm.slot a j)))).1,
        (walk vm.tables base js (base (vm.deref (vm.slot a j)))).2) :=
  walk_present ((Bool.not_eq_false _).mp h)

theorem walk_tables_not_present {base : BitVec 64 → BitVec 64} {a j : BitVec 64}
    {js : List (BitVec 64)} (h : (vm.deref (vm.slot a j)).getLsbD 0 = false) :
    walk vm.tables base (j :: js) a = ([vm.slot a j], none) :=
  walk_not_present h

/-- **`walk_page_table` is a walk through four levels** that takes addresses with the mask. -/
theorem walkPageTable_eq_walk (vm : Vm) (va : BitVec 64) :
    let r := walk vm.tables (fun e => e &&& vm.addrmask) (Vm.indices va) (vm.cr3 &&& vm.addrmask)
    walkPageTable vm va = (r.1, r.2.elim 0 fun frame => frame ||| pageOffset va) := by
  simp only [walkPageTable, and_pagePresent, Vm.indices]
  -- one level at a time
  split
  · next h1 =>
    rw [walk_tables_not_present h1]
    rfl
  next h1 =>
  rw [walk_tables_present h1]
  split
  · next h2 =>
    rw [walk_tables_not_present h2]
    rfl
  next h2 =>
  rw [walk_tables_present h2]
  split
  · next h3 =>
    rw [walk_tables_not_present h3]
    rfl
  next h3 =>
  rw [walk_tables_present h3]
  split
  · next h4 =>
    rw [walk_tables_not_present h4]
    rfl
  next h4 =>
  rw [walk_tables_present h4]
  rfl

/-- Slots of one index in two tables are different. -/
theorem slot_inj {a a' j : BitVec 64} (h : vm.slot a j = vm.slot a' j) : a = a' := by
  unfold Vm.slot Vm.physToVirt at h
  exact (BitVec.add_left_inj _).mp ((BitVec.add_left_inj _).mp h)

/--
**When `walk_page_table` is the 4-level translation.**

For a physical address width of the architecture, with the reserved bits of CR3 and of the present
entries clear, it reads the right slots and returns the right address exactly if no present entry on
the path has one of the bits 52 to `maxphyaddr + 11` set.
-/
theorem walkPageTable_iff (vm : Vm) (va : BitVec 64) (hmin : 36 ≤ vm.maxphyaddr.toNat)
    (hmax : vm.maxphyaddr.toNat ≤ 52)
    (hcr3 : ∀ i, vm.maxphyaddr.toNat ≤ i → vm.cr3.getLsbD i = false)
    (hreserved : ∀ e, vm.OnPath va e → ∀ i, vm.maxphyaddr.toNat ≤ i → i < 52 →
      e.getLsbD i = false) :
    walkPageTable vm va = vm.translation va ↔
      ∀ e, vm.OnPath va e → ∀ i, 52 ≤ i → i < vm.maxphyaddr.toNat + 12 → e.getLsbD i = false := by
  have hmask : ∀ e : BitVec 64, e &&& vm.addrmask = frameAddr vm.maxphyaddr.toNat e ↔
      ∀ i, vm.maxphyaddr.toNat ≤ i → i < vm.maxphyaddr.toNat + 12 → e.getLsbD i = false := by
    intro e
    rw [Vm.addrmask]
    exact and_addrmask_eq_iff (by omega) (by omega)
  have hroot := (hmask vm.cr3).mpr fun i h1 _ => hcr3 i h1
  have hlow : ∀ (e : BitVec 64), ∀ i < 12, (e &&& vm.addrmask).getLsbD i = false ∧
      (frameAddr vm.maxphyaddr.toNat e).getLsbD i = false := by
    intro e i hi
    rw [BitVec.getLsbD_and, Vm.addrmask, getLsbD_addrmask (by omega),
      getLsbD_frameAddr (by omega) (by omega)]
    simp [show ¬ 12 ≤ i by omega]
  have hwalk := walk_eq_iff (T := vm.tables) (fun e => e &&& vm.addrmask)
    (frameAddr vm.maxphyaddr.toNat) (fun _ _ _ h => slot_inj h)
    (fun r => r.elim 0 fun frame => frame ||| pageOffset va)
    (fun e h => or_pageOffset_inj (fun i hi => (hlow e i hi).1) (fun i hi => (hlow e i hi).2) h)
    (Vm.indices va) (frameAddr vm.maxphyaddr.toNat vm.cr3)
  rw [walkPageTable_eq_walk, hroot, Vm.translation, Prod.mk.injEq, Vm.levels, hwalk]
  constructor
  · rintro h e ⟨s, hs, rfl, hp⟩ i h1 h2
    exact (hmask _).mp (h s hs hp) i (by omega) h2
  · intro h s hs hp
    refine (hmask _).mpr fun i h1 h2 => ?_
    by_cases h52 : i < 52
    · exact hreserved _ ⟨s, hs, rfl, hp⟩ i h1 h52
    · exact h _ ⟨s, hs, rfl, hp⟩ i (by omega) h2

/-- Tables at 0x1000 to 0x4000 for address 0, whose page is 0x5000; `flags` are the bits 56 to 63
of the last entry. -/
def sampleTables (flags : BitVec 8) : Memory := fun a =>
  if a = 0x1000 ∨ a = 0x2000 ∨ a = 0x3000 ∨ a = 0x4000 then 0x01
  else if a = 0x1001 then 0x20
  else if a = 0x2001 then 0x30
  else if a = 0x3001 then 0x40
  else if a = 0x4001 then 0x50
  else if a = 0x4007 then flags
  else 0

/-- A processor with 52-bit physical addresses and these tables. -/
def sampleVm (flags : BitVec 8) : Vm := vmInit 0x3034 ⟨sampleTables flags, 0, 0x1000, 0⟩

theorem getLsbD_of_toNat_lt (h : e.toNat < 2 ^ w) (hi : w ≤ i) : e.getLsbD i = false := by
  rw [← BitVec.testBit_toNat]
  exact Nat.testBit_lt_two_pow (h.trans_le (Nat.pow_le_pow_right (by decide) hi))

theorem sampleVm_width (flags : BitVec 8) : (sampleVm flags).maxphyaddr.toNat = 52 := rfl

/-- Without flags in the upper bits the walk is right. -/
theorem walkPageTable_sample : walkPageTable (sampleVm 0) 0x123 = (sampleVm 0).translation 0x123 := by
  have hw := sampleVm_width 0
  have hslots : ((sampleVm 0).levels 0x123).1 = [0x1000, 0x2000, 0x3000, 0x4000] := by
    decide +kernel
  have hsmall : ([0x1000, 0x2000, 0x3000, 0x4000].all fun s =>
      decide (((sampleVm 0).deref s).toNat < 2 ^ 52)) = true := by decide +kernel
  refine (walkPageTable_iff (sampleVm 0) 0x123 (by rw [hw]; decide) (by rw [hw]) ?_ ?_).mpr ?_
  · intro i hi
    rw [hw] at hi
    exact getLsbD_of_toNat_lt (show (0x1000#64).toNat < 2 ^ 52 by decide) hi
  · intro e _ i h1 h2
    omega
  · rintro e ⟨s, hs, rfl, -⟩ i h1 -
    rw [hslots] at hs
    exact getLsbD_of_toNat_lt (by simpa using List.all_eq_true.mp hsmall s hs) h1

/-- With execute-disable set in the last entry, the flag becomes a part of the address. -/
theorem walkPageTable_fails_sample :
    (sampleVm 0x80).maxphyaddr = 52 ∧ (sampleVm 0x80).cr3 = 0x1000 ∧
      (sampleVm 0x80).deref 0x4000 = 0x8000000000005001 ∧
      ((sampleVm 0x80).translation 0x123).2 = 0x5123 ∧
      (walkPageTable (sampleVm 0x80) 0x123).2 = 0x8000000000005123 ∧
      walkPageTable (sampleVm 0x80) 0x123 ≠ (sampleVm 0x80).translation 0x123 := by
  decide +kernel

end BloreOs
