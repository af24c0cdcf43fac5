import BloreOs.Acpi.Basic
import BloreOs.Basic
import Mathlib.Data.List.Pairwise
import Mathlib.Logic.Function.Basic

/-!
# The I/O APICs (`ioapic.c`)

An I/O APIC is reached through two memory-mapped registers: IOREGSEL selects one of its registers,
IOWIN reads or writes it. `ioapic_read` changes the selection, so even a lookup has an effect.

A GSI belongs to the I/O APIC whose pins include it. `_get_ioapic_from_gsi` leaves out the last pin:

* `getIoapicFromGsi_eq` — the lookup finds the first I/O APIC whose half-open range has the GSI,
* `getIoapicFromGsi_iff` — when it finds the owner.
-/

namespace BloreOs

/-- The registers of the I/O APICs by the address of their window, and the globals that describe
them. -/
structure IoApics where
  acpi : Acpi
  vmmHigherHalfOffset : Nat
  regsel : Nat → BitVec 8
  regs : Nat → BitVec 8 → BitVec 32

/-- `IOAPICVER` -/
def ioapicVer : BitVec 8 := 0x01

/-! ## Registers -/

namespace IoApics

/-- The local `base` of `ioapic_write` and `ioapic_read`. -/
def window (s : IoApics) (p : Nat) : Nat := add64 (s.acpi.ioapicAddr p) s.vmmHigherHalfOffset

/-- A write to IOREGSEL. Its bits 0 to 7 select the register. -/
def writeSel (s : IoApics) (base : Nat) (v : BitVec 32) : IoApics :=
  { s with regsel := Function.update s.regsel base (v.setWidth 8) }

/-- A write to IOWIN. -/
def writeWin (s : IoApics) (base : Nat) (v : BitVec 32) : IoApics :=
  { s with regs := Function.update s.regs base (Function.update (s.regs base) (s.regsel base) v) }

/-- A read of IOWIN. -/
def readWin (s : IoApics) (base : Nat) : BitVec 32 := s.regs base (s.regsel base)

end IoApics

/-- `ioapic_write` -/
def ioapicWrite (pApic : Nat) (offset : BitVec 8) (val : BitVec 32) (s : IoApics) : IoApics :=
  let base := s.window pApic
  (s.writeSel base (offset.setWidth 32)).writeWin base val

/-- `ioapic_read` -/
def ioapicRead (pApic : Nat) (offset : BitVec 8) (s : IoApics) : BitVec 32 × IoApics :=
  let base := s.window pApic
  let s := s.writeSel base (offset.setWidth 32)
  (s.readWin base, s)

/-- `ioapic_max_gsi` -/
def ioapicMaxGsi (pIOApic : Nat) (s : IoApics) : Nat × IoApics :=
  let (val, s) := ioapicRead pIOApic ioapicVer s
  (((val &&& 0xFF0000) >>> 16).toNat, s)

/-- The loop of `_get_ioapic_from_gsi`. The second comparison reads a register, and is made only if
the first one holds. -/
def findIoapic (gsi : Nat) : List Nat → IoApics → Nat × IoApics
  | [], s => (0, s)
  | pIOApic :: l, s =>
    if pIOApic = 0 then (0, s)
    else if s.acpi.gsiBase pIOApic ≤ gsi then
      let (max, s) := ioapicMaxGsi pIOApic s
      if gsi < s.acpi.gsiBase pIOApic + max then (pIOApic, s) else findIoapic gsi l s
    else findIoapic gsi l s

/-- `_get_ioapic_from_gsi` -/
def getIoapicFromGsi (gsi : Nat) (s : IoApics) : Nat × IoApics :=
  findIoapic gsi s.acpi.ioapicList.slots s

/-! ## What the functions do to the registers -/

namespace IoApics

/-- The index of the last redirection entry, as IOAPICVER reports it. -/
def maxEntry (s : IoApics) (p : Nat) : Nat :=
  ((s.regs (s.window p) ioapicVer &&& 0xFF0000) >>> 16).toNat

/-- `g` is one of the pins of the I/O APIC. -/
def Owns (s : IoApics) (p g : Nat) : Prop :=
  s.acpi.gsiBase p ≤ g ∧ g ≤ s.acpi.gsiBase p + s.maxEntry p

/-- `g` is in the range that `_get_ioapic_from_gsi` compares with. -/
def Scanned (s : IoApics) (p g : Nat) : Prop :=
  s.acpi.gsiBase p ≤ g ∧ g < s.acpi.gsiBase p + s.maxEntry p

instance (s : IoApics) (p g : Nat) : Decidable (s.Owns p g) := inferInstanceAs (Decidable (_ ∧ _))

instance (s : IoApics) (p g : Nat) : Decidable (s.Scanned p g) := inferInstanceAs (Decidable (_ ∧ _))

/-- The listed I/O APICs. -/
def listed (s : IoApics) : List Nat := s.acpi.ioapicList.listed

end IoApics

variable {s : IoApics} {p q g : Nat} {offset : BitVec 8} {val : BitVec 32}

theorem setWidth_setWidth_8 (v : BitVec 8) : (v.setWidth 32).setWidth 8 = v := by
  refine BitVec.eq_of_toNat_eq ?_
  have := v.isLt
  rw [BitVec.toNat_setWidth, BitVec.toNat_setWidth]
  omega

/-- **A read** selects the register and changes nothing else. -/
theorem ioapicRead_eq (p : Nat) (offset : BitVec 8) (s : IoApics) :
    ioapicRead p offset s = (s.regs (s.window p) offset,
      { s with regsel := Function.update s.regsel (s.window p) offset }) := by
  unfold ioapicRead IoApics.writeSel IoApics.readWin
  simp only [setWidth_setWidth_8, Function.update_self]

/-- **A write** selects the register and changes that register only. -/
theorem ioapicWrite_eq (p : Nat) (offset : BitVec 8) (val : BitVec 32) (s : IoApics) :
    ioapicWrite p offset val s = { s with
      regsel := Function.update s.regsel (s.window p) offset
      regs := Function.update s.regs (s.window p)
        (Function.update (s.regs (s.window p)) offset val) } := by
  unfold ioapicWrite IoApics.writeSel IoApics.writeWin
  simp only [setWidth_setWidth_8, Function.update_self]

theorem ioapicMaxGsi_eq (p : Nat) (s : IoApics) : ioapicMaxGsi p s = (s.maxEntry p,
    { s with regsel := Function.update s.regsel (s.window p) ioapicVer }) := by
  rw [ioapicMaxGsi, ioapicRead_eq]
  rfl

/-! ## The lookup -/

/-- **The lookup** finds the first listed I/O APIC whose scanned range has the GSI. -/
theorem findIoapic_eq (g : Nat) : ∀ (l : List Nat) (s : IoApics), ∃ sel, findIoapic g l s =
    (((l.takeWhile (· ≠ 0)).find? fun p => s.Scanned p g).getD 0, { s with regsel := sel })
  | [], s => ⟨s.regsel, rfl⟩
  | p :: l, s => by
    rw [findIoapic]
    by_cases h0 : p = 0
    · rw [if_pos h0, h0]
      exact ⟨s.regsel, rfl⟩
    · rw [if_neg h0, List.takeWhile_cons_of_pos (by simpa using h0)]
      by_cases hbase : s.acpi.gsiBase p ≤ g
      · rw [if_pos hbase, ioapicMaxGsi_eq]
        dsimp only
        by_cases hlt : g < s.acpi.gsiBase p + s.maxEntry p
        · have hin : s.Scanned p g := ⟨hbase, hlt⟩
          rw [if_pos hlt, List.find?_cons_of_pos (by simpa using hin)]
          exact ⟨_, rfl⟩
        · have hout : ¬ s.Scanned p g := fun h => hlt h.2
          rw [if_neg hlt, List.find?_cons_of_neg (by simpa using hout)]
          exact findIoapic_eq g l { s with
            regsel := Function.update s.regsel (s.window p) ioapicVer }
      · have hout : ¬ s.Scanned p g := fun h => hbase h.1
        rw [if_neg hbase, List.find?_cons_of_neg (by simpa using hout)]
        exact findIoapic_eq g l s

theorem getIoapicFromGsi_eq (g : Nat) (s : IoApics) : ∃ sel, getIoapicFromGsi g s =
    ((s.listed.find? fun p => s.Scanned p g).getD 0, { s with regsel := sel }) :=
  findIoapic_eq g _ s

/-- Ranges that are apart share nothing. -/
theorem eq_of_apart {R : Nat → Nat → Prop} {l : List Nat}
    (hapart : l.Pairwise fun p q => ∀ x, R p x → ¬ R q x) (hp : p ∈ l) (hq : q ∈ l)
    (hpg : R p g) (hqg : R q g) : q = p := by
  have hsymm : Std.Symm fun p q => ∀ x, R p x → ¬ R q x := ⟨fun _ _ h x hq hp => h x hp hq⟩
  by_contra hne
  exact hapart.forall hq hp hne g hqg hpg

/-- A range that has the GSI is found, if no other range has it. -/
theorem find?_scanned (hp : p ∈ s.listed) (hin : s.Scanned p g)
    (honly : ∀ q ∈ s.listed, s.Scanned q g → q = p) :
    (s.listed.find? fun p => s.Scanned p g) = some p := by
  cases hfind : s.listed.find? fun p => s.Scanned p g with
  | none =>
    have hnone := List.find?_eq_none.mp hfind p hp
    exact absurd hin (by simpa using hnone)
  | some q =>
    have hq : s.Scanned q g := by simpa using List.find?_some hfind
    rw [honly q (List.mem_of_find?_eq_some hfind) hq]

/--
**When the lookup covers every pin.**

For I/O APICs with disjoint ranges it returns the owner of a GSI, and `NULL` if there is none,
exactly if the GSI is not the last one of any of them.
-/
theorem getIoapicFromGsi_iff (s : IoApics) (g : Nat)
    (hapart : s.listed.Pairwise fun p q => ∀ x, s.Owns p x → ¬ s.Owns q x) :
    ((∀ p ∈ s.listed, s.Owns p g → (getIoapicFromGsi g s).1 = p) ∧
        ((getIoapicFromGsi g s).1 = 0 ↔ ∀ p ∈ s.listed, ¬ s.Owns p g)) ↔
      ∀ p ∈ s.listed, g ≠ s.acpi.gsiBase p + s.maxEntry p := by
  have honly : ∀ p ∈ s.listed, s.Owns p g → ∀ q ∈ s.listed, s.Owns q g → q = p :=
    fun p hp hown q hq hownq => eq_of_apart hapart hp hq hown hownq
  obtain ⟨sel, hres⟩ := getIoapicFromGsi_eq g s
  rw [hres]
  constructor
  · rintro ⟨hfind, -⟩ p hp hlast
    -- the owner of its last pin is not found
    have hown : s.Owns p g := ⟨by omega, by omega⟩
    have hfound : (s.listed.find? fun p => s.Scanned p g).getD 0 = p := hfind p hp hown
    cases hq : s.listed.find? fun p => s.Scanned p g with
    | none =>
      rw [hq] at hfound
      exact PtrArray.ne_zero_of_mem_listed hp hfound.symm
    | some q =>
      rw [hq, Option.getD_some] at hfound
      have hin : s.Scanned q g := by simpa using List.find?_some hq
      rw [hfound] at hin
      have := hin.2
      omega
  · intro hlast
    have hiff : ∀ p ∈ s.listed, s.Scanned p g ↔ s.Owns p g := by
      intro p hp
      have := hlast p hp
      unfold IoApics.Scanned IoApics.Owns
      omega
    have hfind : ∀ p ∈ s.listed, s.Owns p g →
        (s.listed.find? fun p => s.Scanned p g) = some p := fun p hp hown =>
      find?_scanned hp ((hiff p hp).mpr hown) fun q hq hin =>
        honly p hp hown q hq ((hiff q hq).mp hin)
    refine ⟨fun p hp hown => by rw [hfind p hp hown, Option.getD_some], ⟨fun h0 p hp hown => ?_, ?_⟩⟩
    · rw [hfind p hp hown, Option.getD_some] at h0
      exact PtrArray.ne_zero_of_mem_listed hp h0
    · intro hnone
      have hf : (s.listed.find? fun p => s.Scanned p g) = none := by
        refine List.find?_eq_none.mpr fun p hp hin => hnone p hp ((hiff p hp).mp ?_)
        simpa using hin
      rw [hf, Option.getD_none]

/-- The records of two I/O APICs, the second from GSI `base` on, and an override of IRQ 0 to `gsi`. -/
def sampleRecords (base gsi : Nat) : Memory :=
  let ioapics := Memory.store (fun _ => 0) 0x104 4 0xfec00000
  let ioapics := (ioapics.store 0x204 4 0xfec01000).store 0x208 4 base
  ioapics.store 0x304 4 gsi

/-- Two I/O APICs with 24 pins each. -/
def sampleIoApics (base gsi : Nat) : IoApics where
  acpi :=
    { mem := sampleRecords base gsi
      ioapicList := PtrArray.filled _ [0x100, 0x200]
      isoList := PtrArray.filled _ [0x300] }
  vmmHigherHalfOffset := 0xffff800000000000
  regsel := fun _ => 0
  regs := fun _ k => if k = ioapicVer then 0x170020 else 0

variable {base gsi : Nat}

theorem sampleIoApics_maxEntry (p : Nat) : (sampleIoApics base gsi).maxEntry p = 23 := by
  show ((0x170020#32 &&& 0xFF0000) >>> 16).toNat = 23
  decide

theorem sampleIoApics_gsiBase (base gsi : Nat) (hbase : base < 2 ^ 32) :
    (sampleIoApics base gsi).acpi.gsiBase 0x100 = 0 ∧
      (sampleIoApics base gsi).acpi.gsiBase 0x200 = base := by
  unfold sampleIoApics sampleRecords Acpi.gsiBase
  constructor
  · rw [Memory.load_store_disjoint (by decide), Memory.load_store_disjoint (by decide),
      Memory.load_store_disjoint (by decide), Memory.load_store_disjoint (by decide)]
    rfl
  · refine (Memory.load_store_disjoint (by decide)).trans ((Memory.load_store_same 4).trans ?_)
    exact Nat.mod_eq_of_lt hbase

/-- The ranges do not overlap if the second one starts behind the first one. -/
theorem sampleIoApics_apart (base gsi : Nat) (hbase : 24 ≤ base) (hlt : base < 2 ^ 32) :
    (sampleIoApics base gsi).listed.Pairwise
      fun p q => ∀ x, (sampleIoApics base gsi).Owns p x → ¬ (sampleIoApics base gsi).Owns q x := by
  obtain ⟨h1, h2⟩ := sampleIoApics_gsiBase base gsi hlt
  refine List.pairwise_pair.mpr fun x hp hq => ?_
  unfold IoApics.Owns at hp hq
  rw [h1, sampleIoApics_maxEntry] at hp
  rw [h2, sampleIoApics_maxEntry] at hq
  omega

/-- Pin 22 of the first I/O APIC is found. -/
theorem getIoapicFromGsi_sample : (getIoapicFromGsi 22 (sampleIoApics 24 0)).1 = 0x100 := by
  obtain ⟨h1, h2⟩ := sampleIoApics_gsiBase 24 0 (by decide)
  refine ((getIoapicFromGsi_iff (sampleIoApics 24 0) 22
    (sampleIoApics_apart 24 0 (by decide) (by decide))).mpr ?_).1 0x100 (by decide) ?_
  · show ∀ p ∈ [0x100, 0x200], _
    rw [List.forall_mem_cons, List.forall_mem_singleton, h1, h2, sampleIoApics_maxEntry,
      sampleIoApics_maxEntry]
    decide
  · exact ⟨by omega, by rw [h1, sampleIoApics_maxEntry]; decide⟩

/-- Pin 23, the last one, is not. -/
theorem getIoapicFromGsi_fails_sample :
    ((sampleIoApics 24 0).listed.Pairwise
        fun p q => ∀ x, (sampleIoApics 24 0).Owns p x → ¬ (sampleIoApics 24 0).Owns q x) ∧
      (0x100 ∈ (sampleIoApics 24 0).listed ∧ (sampleIoApics 24 0).Owns 0x100 23) ∧
      (getIoapicFromGsi 23 (sampleIoApics 24 0)).1 = 0 :=
  ⟨sampleIoApics_apart 24 0 (by decide) (by decide), by decide +kernel, by decide +kernel⟩

end BloreOs
