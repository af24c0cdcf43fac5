import BloreOs.Pci.Scan

/-!
# What the records say

`_check_device` reads the header type of function 0 once and passes it on, so the records of the
functions behind it have the header type of function 0. The class is read for each function.

* `deviceOf_describesClass` — the class fields are always those of the function,
* `pci_records_iff` — the header types are if the functions of a device have the same.
-/

namespace BloreOs

/-- The class fields of a record are the bytes of its function. -/
structure PciDevice.DescribesClass (dev : PciDevice) (cfg : ConfigSpace) : Prop where
  classCode : dev.classCode = cfg dev.bdf 0xB
  subClassCode : dev.subClassCode = cfg dev.bdf 0xA
  progIf : dev.progIf = cfg dev.bdf 0x9

/-- **A record that describes its function.** -/
structure PciDevice.Describes (dev : PciDevice) (cfg : ConfigSpace) : Prop
    extends dev.DescribesClass cfg where
  headerType : dev.headerType = (cfg dev.bdf 0xE).setWidth 32

variable {h : PciHost} {x : Bdf}

theorem deviceOf_describesClass (h : PciHost) (x : Bdf) :
    (h.deviceOf x).DescribesClass h.config where
  classCode := pciMmReadClassCode_eq x
  subClassCode := pciMmReadSubclassCode_eq x
  progIf := pciMmReadProgIf_eq x

/-- The recorded header type is the one of function 0. -/
theorem deviceOf_headerType (h : PciHost) (x : Bdf) :
    (h.deviceOf x).headerType = (h.config.headerType x.zeroth).setWidth 32 := by
  have hwide : ∀ v : BitVec 8, (v.setWidth 16).setWidth 32 = v.setWidth 32 := by decide
  rw [← pciMmReadHeaderType_eq]
  exact hwide _

theorem deviceOf_describes_iff (h : PciHost) (x : Bdf) :
    (h.deviceOf x).Describes h.config ↔ h.config.headerType x = h.config.headerType x.zeroth := by
  have hheader := deviceOf_headerType h x
  constructor
  · intro hd
    have heq := hd.headerType.symm.trans hheader
    have hcut := congrArg (BitVec.setWidth 8) heq
    rwa [BitVec.setWidth_setWidth_of_le _ (by decide), BitVec.setWidth_setWidth_of_le _ (by decide),
      BitVec.setWidth_eq, BitVec.setWidth_eq] at hcut
  · intro heq
    refine ⟨deviceOf_describesClass h x, ?_⟩
    rw [hheader, ← heq]
    rfl

/--
**The records describe their functions if the functions of a device have one header type.**

For every configuration space with at most 32 functions that are present, wherever it is mapped, if
`malloc` succeeds for them with records that are apart: after the scan, the records have the class,
the subclass, the programming interface and the header type of their own functions exactly if every
function that is present has the header type of function 0 of its device. The first three are right
in any case.
-/
theorem pci_records_iff (h : PciHost) (devices : Nat → PciDevice)
    (hmax : h.config.present.length ≤ 32) (hmalloc : h.Allocates h.config.present.length) :
    ∃ s, h.pciInit (Pci.boot devices) = some s ∧
      s.listed.map PciDevice.bdf = h.config.present ∧
      (∀ dev ∈ s.listed, dev.DescribesClass h.config) ∧
      ((∀ dev ∈ s.listed, dev.Describes h.config) ↔
        ∀ x ∈ h.config.present, h.config.headerType x = h.config.headerType x.zeroth) := by
  obtain ⟨s, hinit, hs⟩ := pciInit_recorded h devices
  have hlisted := hs.listed_eq (by omega) hmalloc
  refine ⟨s, hinit, ?_, ?_, ?_⟩
  · rw [hlisted, List.map_map]
    exact List.map_id _
  · rw [hlisted, List.forall_mem_map]
    exact fun x _ => deviceOf_describesClass h x
  · rw [hlisted, List.forall_mem_map]
    exact forall₂_congr fun x _ => deviceOf_describes_iff h x

/-- The registers of the sample host. -/
theorem samplePciHost_headerType (n : Nat) (headerType : BitVec 8) (hd : x.device.toNat < 32)
    (hf : x.function.toNat < 8) : (samplePciHost n headerType).config.headerType x
      = (sampleConfig n headerType).headerType x :=
  config_mappedAt _ _ _ _ hd hf (by decide)

theorem samplePciHost_describes :
    ∀ x ∈ (samplePciHost 1 0x80).config.present, (samplePciHost 1 0x80).config.headerType x
      = (samplePciHost 1 0x80).config.headerType x.zeroth := by
  intro x hx
  obtain ⟨hd, hf, -⟩ := mem_present_iff.mp hx
  have hzero : (0 : BitVec 8).toNat < 8 := by decide
  rw [samplePciHost_headerType 1 0x80 hd hf, samplePciHost_headerType (x := x.zeroth) 1 0x80 hd hzero]
  simp [ConfigSpace.headerType, sampleConfig, Bdf.zeroth]

theorem pci_records_sample : ∃ s, (samplePciHost 1 0x80).pciInit
      (Pci.boot fun _ => (samplePciHost 1 0x80).deviceOf ⟨0, 0, 0⟩) = some s ∧
    ∀ dev ∈ s.listed, dev.Describes (samplePciHost 1 0x80).config := by
  obtain ⟨s, hinit, -, -, hiff⟩ := pci_records_iff (samplePciHost 1 0x80) _
    (samplePciHost_length 0x80) (samplePciHost_allocates 1 _ 0x80)
  exact ⟨s, hinit, hiff.mpr samplePciHost_describes⟩

/-- Function 1 has header type 0, and its record says `0x80`. -/
theorem pci_records_differ_sample : ∃ s, (samplePciHost 1 0x00).pciInit
      (Pci.boot fun _ => (samplePciHost 1 0x00).deviceOf ⟨0, 0, 0⟩) = some s ∧
    (samplePciHost 1 0x00).config.present.length ≤ 32 ∧
    (samplePciHost 1 0x00).config.headerType ⟨0, 0, 1⟩ = 0x00 ∧
    ∃ dev ∈ s.listed, dev.bdf = ⟨0, 0, 1⟩ ∧ dev.headerType = 0x80 ∧
      ¬ dev.Describes (samplePciHost 1 0x00).config := by
  have hmax := samplePciHost_length 0x00
  obtain ⟨s, hinit, hs⟩ := pciInit_recorded (samplePciHost 1 0x00)
    fun _ => (samplePciHost 1 0x00).deviceOf ⟨0, 0, 0⟩
  have hlisted := hs.listed_eq (by omega) (samplePciHost_allocates 1 _ 0x00)
  have hmem : (⟨0, 0, 1⟩ : Bdf) ∈ (samplePciHost 1 0x00).config.present := by
    rw [samplePciHost_present]
    exact mem_present_iff.mpr (by decide)
  have hzeroth : (samplePciHost 1 0x00).config.headerType ⟨0, 0, 0⟩ = 0x80 :=
    samplePciHost_headerType (x := ⟨0, 0, 0⟩) 1 0x00 (by decide) (by decide)
  have hown : (samplePciHost 1 0x00).config.headerType ⟨0, 0, 1⟩ = 0x00 :=
    samplePciHost_headerType (x := ⟨0, 0, 1⟩) 1 0x00 (by decide) (by decide)
  refine ⟨s, hinit, hmax, hown, (samplePciHost 1 0x00).deviceOf ⟨0, 0, 1⟩, ?_, rfl, ?_, ?_⟩
  · rw [hlisted]
    exact List.mem_map_of_mem hmem
  · rw [deviceOf_headerType]
    exact congrArg (BitVec.setWidth 32) hzeroth
  · rw [deviceOf_describes_iff, hown]
    exact fun heq => absurd (heq.trans hzeroth) (by decide)

end BloreOs
