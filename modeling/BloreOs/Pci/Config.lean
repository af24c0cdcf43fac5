import BloreOs.Pci.Basic
import Mathlib.Data.List.Basic

/-!
# The configuration space

Abstractly, a configuration space gives every function of every device on every bus the bytes of its
registers. It says which functions are present, and `present` lists them in order.

* `mem_present_iff`, `present_pairwise` — the list is complete, and in order without repetition,
* `pciMmReadVendorId_eq`, … — what the readers of `pci.c` return are bytes of that space,
* `config_mappedAt` — and every space can be mapped into memory so that they return its bytes.
-/

namespace BloreOs

namespace Bdf

/-- Function 0 of the same device. -/
def zeroth (x : Bdf) : Bdf := { x with function := 0 }

/-- The order of buses, of the devices on a bus, and of the functions of a device. -/
def Before (x y : Bdf) : Prop :=
  x.bus < y.bus ∨ x.bus = y.bus ∧
    (x.device < y.device ∨ x.device = y.device ∧ x.function < y.function)

end Bdf

/-- The bytes of the registers of each function. -/
abbrev ConfigSpace := Bdf → Nat → BitVec 8

namespace ConfigSpace

variable (cfg : ConfigSpace)

/-- Registers 0 and 1. -/
def vendorId (x : Bdf) : BitVec 16 := cfg x 1 ++ cfg x 0

/-- Register 0xE. -/
def headerType (x : Bdf) : BitVec 8 := cfg x 0xE

/-- Register 0xB. -/
def classCode (x : Bdf) : BitVec 8 := cfg x 0xB

/-- Register 0xA. -/
def subClassCode (x : Bdf) : BitVec 8 := cfg x 0xA

/-- Register 9. -/
def progIf (x : Bdf) : BitVec 8 := cfg x 0x9

/-- **A function that is present.** Function 0 is if it has a vendor, the others if they have one and
function 0 is present and says that the device has several functions. -/
def Present (x : Bdf) : Prop :=
  x.device.toNat < 32 ∧ x.function.toNat < 8 ∧ cfg.vendorId x.zeroth ≠ 0xFFFF ∧
    (x.function ≠ 0 → cfg.headerType x.zeroth &&& 0x80 ≠ 0 ∧ cfg.vendorId x ≠ 0xFFFF)

instance : DecidablePred cfg.Present := fun x => by
  unfold Present
  infer_instance

/-- The functions of a device that are present. -/
def presentOn (bus device : BitVec 8) : List Bdf :=
  ((List.range 8).map fun k => ⟨bus, device, BitVec.ofNat 8 k⟩).filter (cfg.Present ·)

/-- All functions that are present. -/
def present : List Bdf :=
  (List.range 256).flatMap fun b => (List.range 32).flatMap fun d =>
    cfg.presentOn (BitVec.ofNat 8 b) (BitVec.ofNat 8 d)

end ConfigSpace

variable {cfg : ConfigSpace} {h : PciHost} {x : Bdf} {bus device function : BitVec 8} {b d k n : Nat}

/-! ## The list of the functions that are present -/

theorem toNat_ofNat_8 (hk : k < 256) : (BitVec.ofNat 8 k).toNat = k := by
  rw [BitVec.toNat_ofNat]
  exact Nat.mod_eq_of_lt hk

theorem mem_presentOn_iff :
    x ∈ cfg.presentOn bus device ↔ x.bus = bus ∧ x.device = device ∧ cfg.Present x := by
  rw [ConfigSpace.presentOn, List.mem_filter, List.mem_map, decide_eq_true_eq]
  constructor
  · rintro ⟨⟨k, -, rfl⟩, hx⟩
    exact ⟨rfl, rfl, hx⟩
  · rintro ⟨rfl, rfl, hx⟩
    refine ⟨⟨x.function.toNat, List.mem_range.mpr hx.2.1, ?_⟩, hx⟩
    rw [BitVec.ofNat_toNat, BitVec.setWidth_eq]

/-- **The list is complete.** -/
theorem mem_present_iff : x ∈ cfg.present ↔ cfg.Present x := by
  simp only [ConfigSpace.present, List.mem_flatMap, List.mem_range, mem_presentOn_iff]
  constructor
  · rintro ⟨b, -, d, -, -, -, hx⟩
    exact hx
  · intro hx
    refine ⟨x.bus.toNat, x.bus.isLt, x.device.toNat, hx.1, ?_, ?_, hx⟩
    · rw [BitVec.ofNat_toNat, BitVec.setWidth_eq]
    · rw [BitVec.ofNat_toNat, BitVec.setWidth_eq]

theorem ofNat_8_lt {i j : Nat} (hij : i < j) (hj : j < 256) :
    BitVec.ofNat 8 i < BitVec.ofNat 8 j := by
  rw [BitVec.lt_def, toNat_ofNat_8 (hij.trans hj), toNat_ofNat_8 hj]
  exact hij

/-- Numbers in order, each of them with what belongs to it. -/
theorem pairwise_flatMap_range {α : Type} {R : α → α → Prop} {f : Nat → List α} {n : Nat}
    (hin : ∀ i < n, (f i).Pairwise R) (hout : ∀ i j, i < j → j < n → ∀ x ∈ f i, ∀ y ∈ f j, R x y) :
    ((List.range n).flatMap f).Pairwise R := by
  rw [List.pairwise_flatMap]
  refine ⟨fun i hi => hin i (List.mem_range.mp hi), ?_⟩
  refine List.pairwise_lt_range.imp_of_mem fun {i j} _ hj hij => ?_
  exact hout i j hij (List.mem_range.mp hj)

theorem presentOn_pairwise : (cfg.presentOn bus device).Pairwise Bdf.Before := by
  refine List.Pairwise.filter _ (List.pairwise_map.mpr ?_)
  refine List.pairwise_lt_range.imp_of_mem fun {i j} _ hj hij => ?_
  rw [List.mem_range] at hj
  exact Or.inr ⟨rfl, Or.inr ⟨rfl, ofNat_8_lt hij (by omega)⟩⟩

/-- **The list is in order**, so no function is in it twice. -/
theorem present_pairwise : cfg.present.Pairwise Bdf.Before := by
  refine pairwise_flatMap_range (fun b _ => ?_) fun b b' hb hb' x hx y hy => ?_
  · refine pairwise_flatMap_range (fun d _ => presentOn_pairwise) fun d d' hd hd' x hx y hy => ?_
    obtain ⟨hxb, hxd, -⟩ := mem_presentOn_iff.mp hx
    obtain ⟨hyb, hyd, -⟩ := mem_presentOn_iff.mp hy
    rw [Bdf.Before, hxb, hyb, hxd, hyd]
    exact Or.inr ⟨rfl, Or.inl (ofNat_8_lt hd (by omega))⟩
  · obtain ⟨d, -, hxd⟩ := List.mem_flatMap.mp hx
    obtain ⟨d', -, hyd⟩ := List.mem_flatMap.mp hy
    rw [Bdf.Before, (mem_presentOn_iff.mp hxd).1, (mem_presentOn_iff.mp hyd).1]
    exact Or.inl (ofNat_8_lt hb hb')

theorem Bdf.Before.ne {y : Bdf} (h : x.Before y) : x ≠ y := by
  rintro rfl
  simp [Bdf.Before, BitVec.lt_irrefl] at h

theorem present_nodup : cfg.present.Nodup := present_pairwise.imp Bdf.Before.ne

/-! ## The registers in memory -/

namespace PciHost

/-- Where the registers of a function are mapped. -/
def functionBase (h : PciHost) (x : Bdf) : BitVec 64 :=
  h.mcfg.mmioBase + h.vmmHigherHalfOffset +
    (h.functionOffset x.bus x.device x.function).signExtend 64

/-- The configuration space that is mapped into memory. -/
def config (h : PciHost) : ConfigSpace := fun x r => h.mmio (h.functionBase x + BitVec.ofNat 64 r)

end PciHost

/-- The address that `_pci_mm_read` reads from. -/
def PciHost.readAddr (h : PciHost) (x : Bdf) (r : Nat) : BitVec 64 :=
  h.mcfg.mmioBase + h.vmmHigherHalfOffset + (BitVec.ofNat 32 r).setWidth 64 +
    (h.functionOffset x.bus x.device x.function).signExtend 64

theorem readAddr_eq (h : PciHost) (x : Bdf) {r : Nat} (hr : r < 2 ^ 32) :
    h.readAddr x r = h.functionBase x + BitVec.ofNat 64 r := by
  have hoffset : (BitVec.ofNat 32 r).setWidth 64 = BitVec.ofNat 64 r := by
    refine BitVec.eq_of_toNat_eq ?_
    rw [BitVec.toNat_setWidth, BitVec.toNat_ofNat, BitVec.toNat_ofNat, Nat.mod_eq_of_lt hr]
  rw [PciHost.readAddr, PciHost.functionBase, hoffset]
  ac_rfl

/-- The bytes from the address on. -/
theorem mmio_readAddr (h : PciHost) (x : Bdf) {r : Nat} (hr : r < 2 ^ 32) (k : Nat) :
    h.mmio (h.readAddr x r + BitVec.ofNat 64 k) = h.config x (r + k) := by
  rw [readAddr_eq h x hr, PciHost.config, BitVec.ofNat_add, BitVec.add_assoc]

theorem pciMmRead_two (x : Bdf) {r : Nat} (hr : r < 2 ^ 32) :
    (h.pciMmRead x.bus x.device x.function (BitVec.ofNat 32 r) 2).value
      = (h.config x (r + 1) ++ h.config x r).setWidth 32 := by
  have h0 := mmio_readAddr h x hr 0
  have h1 := mmio_readAddr h x hr 1
  rw [BitVec.add_zero] at h0
  rw [← h1, ← show h.mmio (h.readAddr x r) = h.config x r from h0]
  rfl

theorem pciMmRead_four (x : Bdf) {r : Nat} (hr : r < 2 ^ 32) :
    (h.pciMmRead x.bus x.device x.function (BitVec.ofNat 32 r) 4).value
      = h.config x (r + 3) ++ h.config x (r + 2) ++ h.config x (r + 1) ++ h.config x r := by
  have h0 := mmio_readAddr h x hr 0
  have h1 := mmio_readAddr h x hr 1
  have h2 := mmio_readAddr h x hr 2
  have h3 := mmio_readAddr h x hr 3
  rw [BitVec.add_zero] at h0
  rw [← h3, ← h2, ← h1, ← show h.mmio (h.readAddr x r) = h.config x r from h0]
  rfl

/-- A byte of a value of four bytes. -/
theorem byte_of_four (b₃ b₂ b₁ b₀ : BitVec 8) :
    ((b₃ ++ b₂ ++ b₁ ++ b₀) >>> 24).setWidth 8 = b₃ ∧
      ((b₃ ++ b₂ ++ b₁ ++ b₀) >>> 16).setWidth 8 = b₂ ∧
        ((b₃ ++ b₂ ++ b₁ ++ b₀) >>> 8).setWidth 8 = b₁ := by
  refine ⟨?_, ?_, ?_⟩ <;>
  · refine BitVec.eq_of_getLsbD_eq fun i hi => ?_
    simp only [BitVec.getLsbD_setWidth, BitVec.getLsbD_ushiftRight, BitVec.getLsbD_append]
    grind

theorem pciMmReadVendorId_eq (x : Bdf) :
    (h.pciMmReadVendorId x.bus x.device x.function).value = h.config.vendorId x := by
  have hread := pciMmRead_two (h := h) x (show 0x0 < 2 ^ 32 by decide)
  exact (congrArg (BitVec.setWidth 16) hread).trans (BitVec.setWidth_setWidth_of_le _ (by decide))

theorem pciMmReadHeaderType_eq (x : Bdf) :
    (h.pciMmReadHeaderType x.bus x.device x.function).value = h.config.headerType x := by
  have hread := pciMmRead_four (h := h) x (show 0xC < 2 ^ 32 by decide)
  exact (congrArg (fun v : BitVec 32 => (v >>> 16).setWidth 8) hread).trans (byte_of_four _ _ _ _).2.1

theorem pciMmReadClassCode_eq (x : Bdf) :
    (h.pciMmReadClassCode x.bus x.device x.function).value = h.config.classCode x := by
  have hread := pciMmRead_four (h := h) x (show 0x8 < 2 ^ 32 by decide)
  exact (congrArg (fun v : BitVec 32 => (v >>> 24).setWidth 8) hread).trans (byte_of_four _ _ _ _).1

theorem pciMmReadSubclassCode_eq (x : Bdf) :
    (h.pciMmReadSubclassCode x.bus x.device x.function).value = h.config.subClassCode x := by
  have hread := pciMmRead_four (h := h) x (show 0x8 < 2 ^ 32 by decide)
  exact (congrArg (fun v : BitVec 32 => (v >>> 16).setWidth 8) hread).trans (byte_of_four _ _ _ _).2.1

theorem pciMmReadProgIf_eq (x : Bdf) :
    (h.pciMmReadProgIf x.bus x.device x.function).value = h.config.progIf x := by
  have hread := pciMmRead_four (h := h) x (show 0x8 < 2 ^ 32 by decide)
  exact (congrArg (fun v : BitVec 32 => (v >>> 8).setWidth 8) hread).trans (byte_of_four _ _ _ _).2.2

/-! ## Where the registers are -/

/-- The parts of the offset do not overlap. -/
theorem functionOffset_toNat (h : PciHost) (bus : BitVec 8) (hd : device.toNat < 32)
    (hf : function.toNat < 8) : (h.functionOffset bus device function).toNat
      = (bus.toNat + 2 ^ 12 - h.mcfg.start.toNat) % 2 ^ 12 * 2 ^ 20 + device.toNat * 2 ^ 15
        + function.toNat * 2 ^ 12 := by
  have hb := bus.isLt
  have hs := h.mcfg.start.isLt
  have hbus : ((bus.setWidth 32 - h.mcfg.start.setWidth 32) <<< 20).toNat
      = 2 ^ 20 * ((bus.toNat + 2 ^ 12 - h.mcfg.start.toNat) % 2 ^ 12) := by
    rw [BitVec.toNat_shiftLeft, BitVec.toNat_sub, BitVec.toNat_setWidth, BitVec.toNat_setWidth,
      Nat.shiftLeft_eq]
    omega
  have hdev : ((device.setWidth 32 : BitVec 32) <<< 15).toNat = 2 ^ 15 * device.toNat := by
    rw [BitVec.toNat_shiftLeft, BitVec.toNat_setWidth, Nat.shiftLeft_eq]
    omega
  have hfun : ((function.setWidth 32 : BitVec 32) <<< 12).toNat = 2 ^ 12 * function.toNat := by
    rw [BitVec.toNat_shiftLeft, BitVec.toNat_setWidth, Nat.shiftLeft_eq]
    omega
  obtain ⟨a, ha⟩ : ∃ a, a = (bus.toNat + 2 ^ 12 - h.mcfg.start.toNat) % 2 ^ 12 := ⟨_, rfl⟩
  rw [PciHost.functionOffset, BitVec.toNat_or, BitVec.toNat_or, hbus, hdev, hfun, ← ha,
    ← Nat.two_pow_add_eq_or_of_lt (by omega : 2 ^ 15 * device.toNat < 2 ^ 20),
    show 2 ^ 20 * a + 2 ^ 15 * device.toNat = 2 ^ 15 * (2 ^ 5 * a + device.toNat) by omega,
    ← Nat.two_pow_add_eq_or_of_lt (by omega : 2 ^ 12 * function.toNat < 2 ^ 15)]
  omega

namespace PciHost

/-- How far an address is behind the registers of the first bus of the window, in 32 bits. -/
def windowOffset (h : PciHost) (addr : BitVec 64) : Nat :=
  ((addr - (h.mcfg.mmioBase + h.vmmHigherHalfOffset)).setWidth 32).toNat

/-- The function whose registers are at an offset. -/
def functionAt (h : PciHost) (v : Nat) : Bdf where
  bus := BitVec.ofNat 8 (v / 2 ^ 20 + h.mcfg.start.toNat)
  device := BitVec.ofNat 8 (v / 2 ^ 15 % 32)
  function := BitVec.ofNat 8 (v / 2 ^ 12 % 8)

end PciHost

theorem setWidth_signExtend (v : BitVec 32) : (v.signExtend 64).setWidth 32 = v := by
  refine BitVec.eq_of_getLsbD_eq fun i hi => ?_
  rw [BitVec.getLsbD_setWidth, BitVec.getLsbD_signExtend]
  simp [hi]
  omega

theorem windowOffset_eq (h : PciHost) (hd : x.device.toNat < 32) (hf : x.function.toNat < 8)
    {r : Nat} (hr : r < 4096) : h.windowOffset (h.functionBase x + BitVec.ofNat 64 r)
      = (x.bus.toNat + 2 ^ 12 - h.mcfg.start.toNat) % 2 ^ 12 * 2 ^ 20 + x.device.toNat * 2 ^ 15
        + x.function.toNat * 2 ^ 12 + r := by
  have hsub : h.functionBase x + BitVec.ofNat 64 r - (h.mcfg.mmioBase + h.vmmHigherHalfOffset)
      = (h.functionOffset x.bus x.device x.function).signExtend 64 + BitVec.ofNat 64 r := by
    rw [PciHost.functionBase, BitVec.add_assoc, BitVec.add_comm, BitVec.add_sub_cancel]
  have hoffset := functionOffset_toNat h x.bus hd hf
  rw [PciHost.windowOffset, hsub, BitVec.setWidth_add _ _ (by decide), setWidth_signExtend,
    BitVec.toNat_add, hoffset, BitVec.toNat_setWidth, BitVec.toNat_ofNat]
  omega

/-- **Where a register is, says which one it is.** -/
theorem functionAt_windowOffset (h : PciHost) (hd : x.device.toNat < 32)
    (hf : x.function.toNat < 8) {r : Nat} (hr : r < 4096) :
    h.functionAt (h.windowOffset (h.functionBase x + BitVec.ofNat 64 r)) = x ∧
      h.windowOffset (h.functionBase x + BitVec.ofNat 64 r) % 4096 = r := by
  have hs := h.mcfg.start.isLt
  have hb := x.bus.isLt
  rw [windowOffset_eq h hd hf hr]
  refine ⟨?_, by omega⟩
  cases x with
  | mk bus device function =>
    simp only [PciHost.functionAt, Bdf.mk.injEq]
    simp only at hd hf hb
    refine ⟨BitVec.eq_of_toNat_eq ?_, BitVec.eq_of_toNat_eq ?_, BitVec.eq_of_toNat_eq ?_⟩
    · rw [BitVec.toNat_ofNat]
      omega
    · rw [BitVec.toNat_ofNat]
      omega
    · rw [BitVec.toNat_ofNat]
      omega

/-- A host on which a configuration space is mapped. -/
def ConfigSpace.mappedAt (cfg : ConfigSpace) (mcfg : McfgEntry) (offset : BitVec 64)
    (malloc : Nat → Nat) : PciHost :=
  let h : PciHost := ⟨mcfg, offset, fun _ => 0, malloc⟩
  { h with mmio := fun addr => cfg (h.functionAt (h.windowOffset addr)) (h.windowOffset addr % 4096) }

/-- **Every configuration space can be mapped.** -/
theorem config_mappedAt (cfg : ConfigSpace) (mcfg : McfgEntry) (offset : BitVec 64)
    (malloc : Nat → Nat) (hd : x.device.toNat < 32) (hf : x.function.toNat < 8) {r : Nat}
    (hr : r < 4096) : (cfg.mappedAt mcfg offset malloc).config x r = cfg x r := by
  obtain ⟨hx, hreg⟩ := functionAt_windowOffset ⟨mcfg, offset, fun _ => 0, malloc⟩ hd hf hr
  exact congrArg₂ cfg hx hreg

/-- What is present depends on the registers only. -/
theorem present_congr {cfg' : ConfigSpace} (heq : ∀ x : Bdf, x.device.toNat < 32 →
    x.function.toNat < 8 → ∀ r < 4096, cfg' x r = cfg x r) : cfg'.present = cfg.present := by
  have hiff : ∀ x, cfg'.Present x ↔ cfg.Present x := by
    intro x
    refine and_congr_right fun hd => and_congr_right fun hf => ?_
    have hzero : (0 : BitVec 8).toNat < 8 := by decide
    simp only [ConfigSpace.vendorId, ConfigSpace.headerType, heq x hd hf _ (show 0 < 4096 by decide),
      heq x hd hf _ (show 1 < 4096 by decide), heq x.zeroth hd hzero _ (show 0 < 4096 by decide),
      heq x.zeroth hd hzero _ (show 1 < 4096 by decide),
      heq x.zeroth hd hzero _ (show 0xE < 4096 by decide)]
  simp only [ConfigSpace.present, ConfigSpace.presentOn, hiff]

theorem present_mappedAt (cfg : ConfigSpace) (mcfg : McfgEntry) (offset : BitVec 64)
    (malloc : Nat → Nat) : (cfg.mappedAt mcfg offset malloc).config.present = cfg.present :=
  present_congr fun _ hd hf _ hr => config_mappedAt cfg mcfg offset malloc hd hf hr

end BloreOs
