import BloreOs.Pci.Config

/-!
# Measuring a BAR (`nvme_init`)

The controller's base address register is also where its size is found: one writes ones to it, reads
back which of them stay, and restores the register. The register is not memory, so it is modelled with
the bits that its hardware keeps, beside the configuration space around it.

* `Bar.write_write` — the register takes back what it held before,
* `not_mask_add_one` — the ones that stay are the size,
* `nvmeInit_measures` — what `nvme_init` finds, and that it leaves everything as it was.

The log output of `kprintf` is left out.
-/

namespace BloreOs

/-- Registers 4 and 5 of a function: a memory BAR of `2 ^ sizeLog` bytes. The lower bits of the address
are 0, except for four bits of information. -/
structure Bar where
  sizeLog : Nat
  info : BitVec 4
  low : BitVec 32
  high : BitVec 32

namespace Bar

/-- The bits of the lower register that can be written. -/
def mask (b : Bar) : BitVec 32 := BitVec.allOnes 32 <<< b.sizeLog

/-- The value that the lower register takes. -/
def settle (b : Bar) (v : BitVec 32) : BitVec 32 := (v &&& b.mask) ||| b.info.setWidth 32

def write (b : Bar) (v : BitVec 32) : Bar := { b with low := b.settle v }

/-- What a BAR can hold. -/
structure Settled (b : Bar) : Prop where
  size : 4 ≤ b.sizeLog
  low : b.settle b.low = b.low

end Bar

/-- A host with a BAR at an address. -/
structure BarHost where
  host : PciHost
  addr : BitVec 64
  bar : Bar

namespace BarHost

variable (s : BarHost)

/-- Read four bytes. -/
def read (a : BitVec 64) : BitVec 32 :=
  if a = s.addr then s.bar.low
  else if a = s.addr + 4 then s.bar.high
  else s.host.read32 a

/-- Write four bytes. `nvme_init` writes to register 4 only; other addresses are not modelled. -/
def write (a : BitVec 64) (v : BitVec 32) : Option BarHost :=
  if a = s.addr then some { s with bar := s.bar.write v } else none

/-- The address that `pci_device_read` and `pci_device_write` compute. -/
def deviceAddr (dev : PciDevice) (offset : BitVec 32) : BitVec 64 :=
  s.host.mcfg.mmioBase + s.host.vmmHigherHalfOffset + offset.setWidth 64 +
    (s.host.functionOffset dev.bus dev.device dev.function).signExtend 64

/-- `pci_device_read` of four bytes -/
def pciDeviceRead (dev : PciDevice) (offset : BitVec 32) : BitVec 32 := s.read (s.deviceAddr dev offset)

/-- `pci_device_write` of four bytes -/
def pciDeviceWrite (dev : PciDevice) (offset val : BitVec 32) : Option BarHost :=
  s.write (s.deviceAddr dev offset) val

end BarHost

/-- `PCI_REG4_OFFSET` -/
def pciReg4Offset : BitVec 32 := 0x10

/-- The locals `bar0_base_addr` and `length` of `nvme_init`. -/
structure NvmeBar where
  baseAddr : BitVec 64
  length : BitVec 64
deriving DecidableEq

/-- `nvme_init`. The result is `none` if there is no controller. -/
def nvmeInit (pci : Pci) (s : BarHost) : Option (Option NvmeBar × BarHost) :=
  (pciFindDevice 0x01 0x08 pci).bind fun p =>
    if p = 0 then some (none, s)
    else
      let dev := pci.devices p
      let bar0 := s.pciDeviceRead dev pciReg4Offset
      (s.pciDeviceWrite dev pciReg4Offset (~~~0)).bind fun s =>
        let sizeLow := s.pciDeviceRead dev pciReg4Offset
        (s.pciDeviceWrite dev pciReg4Offset bar0).map fun s =>
          let baseHigh : BitVec 32 := s.pciDeviceRead dev (pciReg4Offset + 4)
          let baseLow := bar0 &&& 0xfffffff0
          let length : BitVec 32 := ~~~(sizeLow &&& ~~~0b1111) + 1
          let bar0BaseAddr := baseLow.setWidth 64
          let bar0BaseAddr := bar0BaseAddr ||| (baseHigh.setWidth 64 <<< 32)
          (some ⟨bar0BaseAddr, length.setWidth 64⟩, s)

/-! ## The register -/

variable {b : Bar} {s : BarHost} {x : Bdf}

/-- **The register takes back what it held**, whatever has been written in between. -/
theorem Bar.write_write (h : b.Settled) (v : BitVec 32) : (b.write v).write b.low = b := by
  have hsettle : (b.write v).settle b.low = b.low := h.low
  rw [Bar.write, hsettle]
  rfl

/-- The ones that stay. -/
theorem Bar.settle_ones (h : b.Settled) : b.settle (~~~0) &&& ~~~0b1111 = b.mask := by
  refine BitVec.eq_of_getLsbD_eq fun i hi => ?_
  have hsize := h.size
  have hfour : (~~~0b1111 : BitVec 32).getLsbD i = decide (4 ≤ i) := by
    have hshift : (~~~0b1111 : BitVec 32) = BitVec.allOnes 32 <<< 4 := by decide
    rw [hshift, BitVec.getLsbD_shiftLeft, BitVec.getLsbD_allOnes]
    by_cases h4 : i < 4
    · simp [h4]
    · simp [hi, h4, show i - 4 < 32 by omega, Nat.le_of_not_lt h4]
  have hones : (~~~0 : BitVec 32).getLsbD i = true := by
    rw [BitVec.getLsbD_not]
    simp [hi]
  have hlow : i < 4 → b.mask.getLsbD i = false := by
    intro h4
    rw [mask, BitVec.getLsbD_shiftLeft]
    simp [show i < b.sizeLog by omega]
  rw [settle, BitVec.getLsbD_and, BitVec.getLsbD_or, BitVec.getLsbD_and, hfour, hones,
    BitVec.getLsbD_setWidth]
  by_cases h4 : i < 4
  · rw [hlow h4, decide_eq_false (Nat.not_le.mpr h4), Bool.and_false]
  · rw [BitVec.getLsbD_of_ge b.info i (by omega), decide_eq_true (Nat.le_of_not_lt h4)]
    simp

/-- A number whose ones are the upper ones is a power of two up to its sign. -/
theorem not_mask_add_one (w k : Nat) : ~~~(BitVec.allOnes w <<< k) + 1#w = BitVec.twoPow w k := by
  rw [← BitVec.neg_eq_not_add, BitVec.shiftLeft_eq_mul_twoPow, ← BitVec.neg_one_eq_allOnes,
    BitVec.neg_mul, BitVec.neg_neg, BitVec.one_mul]

/-! ## The measurement -/

/-- The address of a register of a recorded function. -/
theorem deviceAddr_eq (s : BarHost) (dev : PciDevice) {r : Nat} (hr : r < 2 ^ 32) :
    s.deviceAddr dev (BitVec.ofNat 32 r) =
      s.host.functionBase ⟨dev.bus, dev.device, dev.function⟩ + BitVec.ofNat 64 r :=
  readAddr_eq s.host ⟨dev.bus, dev.device, dev.function⟩ hr

/-- A size in 32 bits. It is 0 from 4 GiB on. -/
theorem toNat_size (k : Nat) : ((BitVec.twoPow 32 k).setWidth 64).toNat = if k < 32 then 2 ^ k else 0 := by
  rw [BitVec.toNat_setWidth, BitVec.toNat_twoPow]
  split
  · next hk =>
    have hlt : 2 ^ k < 2 ^ 32 := Nat.pow_lt_pow_right (by decide) hk
    rw [Nat.mod_eq_of_lt hlt, Nat.mod_eq_of_lt (by omega)]
  · next hk =>
    have hdvd : 2 ^ 32 ∣ 2 ^ k := Nat.pow_dvd_pow 2 (Nat.le_of_not_lt hk)
    rw [Nat.mod_eq_zero_of_dvd hdvd, Nat.zero_mod]

/-- The two halves of the address. -/
theorem baseAddr_eq (low high : BitVec 32) :
    low.setWidth 64 ||| (high.setWidth 64 <<< 32) = high ++ low := by
  refine BitVec.eq_of_getLsbD_eq fun i hi => ?_
  rw [BitVec.getLsbD_append, BitVec.getLsbD_or, BitVec.getLsbD_setWidth, BitVec.getLsbD_shiftLeft,
    BitVec.getLsbD_setWidth]
  by_cases h32 : i < 32
  · simp [hi, h32]
  · simp [hi, h32, BitVec.getLsbD_of_ge low i (by omega), show i - 32 < 64 by omega]

/--
**What `nvme_init` finds.** If the first controller has a BAR of at least 16 bytes, its address is read
from the two registers, and its size is found if it is less than 4 GiB; from there on the size is 0.
The BAR is left as it was.
-/
theorem nvmeInit_measures (pci : Pci) (s : BarHost) {p : Nat} (hfind : pciFindDevice 0x01 0x08 pci = some p)
    (hp : p ≠ 0) (hbar : s.bar.Settled)
    (haddr : s.addr = s.host.functionBase ⟨(pci.devices p).bus, (pci.devices p).device,
      (pci.devices p).function⟩ + 0x10) :
    ∃ r, nvmeInit pci s = some (some r, s) ∧
      r.baseAddr = s.bar.high ++ (s.bar.low &&& 0xfffffff0) ∧
      r.length.toNat = if s.bar.sizeLog < 32 then 2 ^ s.bar.sizeLog else 0 := by
  have h4 : ∀ t : BarHost, t.host = s.host →
      t.deviceAddr (pci.devices p) pciReg4Offset = s.addr := by
    intro t ht
    rw [haddr]
    have h := deviceAddr_eq t (pci.devices p) (r := 16) (by decide)
    rw [ht] at h
    exact h
  have h5 : ∀ t : BarHost, t.host = s.host →
      t.deviceAddr (pci.devices p) (pciReg4Offset + 4) = s.addr + 4 := by
    intro t ht
    have h := deviceAddr_eq t (pci.devices p) (r := 20) (by decide)
    rw [ht] at h
    refine h.trans ?_
    rw [haddr, BitVec.add_assoc]
    rfl
  have hne : s.addr + 4 ≠ s.addr := by bv_omega
  have hrestore : ({ s with bar := (s.bar.write (~~~0)).write s.bar.low } : BarHost) = s := by
    rw [Bar.write_write hbar]
  have hlow : s.pciDeviceRead (pci.devices p) pciReg4Offset = s.bar.low := by
    rw [BarHost.pciDeviceRead, h4 s rfl, BarHost.read, if_pos rfl]
  have hhigh : s.pciDeviceRead (pci.devices p) (pciReg4Offset + 4) = s.bar.high := by
    rw [BarHost.pciDeviceRead, h5 s rfl, BarHost.read, if_neg hne, if_pos rfl]
  have hones : s.pciDeviceWrite (pci.devices p) pciReg4Offset (~~~0) =
      some { s with bar := s.bar.write (~~~0) } := by
    rw [BarHost.pciDeviceWrite, h4 s rfl, BarHost.write, if_pos rfl]
  have hsize : BarHost.pciDeviceRead { s with bar := s.bar.write (~~~0) } (pci.devices p) pciReg4Offset =
      s.bar.settle (~~~0) := by
    rw [BarHost.pciDeviceRead, h4 { s with bar := s.bar.write (~~~0) } rfl, BarHost.read, if_pos rfl]
    rfl
  have hback : BarHost.pciDeviceWrite { s with bar := s.bar.write (~~~0) } (pci.devices p) pciReg4Offset
      s.bar.low = some s := by
    rw [BarHost.pciDeviceWrite, h4 { s with bar := s.bar.write (~~~0) } rfl, BarHost.write, if_pos rfl]
    exact congrArg some hrestore
  refine ⟨⟨s.bar.high ++ (s.bar.low &&& 0xfffffff0), (BitVec.twoPow 32 s.bar.sizeLog).setWidth 64⟩, ?_,
    rfl, toNat_size _⟩
  have hlength : ~~~(s.bar.settle (~~~0) &&& ~~~0b1111) + 1 = BitVec.twoPow 32 s.bar.sizeLog := by
    rw [Bar.settle_ones hbar]
    exact not_mask_add_one 32 _
  rw [nvmeInit, hfind, Option.bind_some, if_neg hp]
  dsimp only
  rw [hlow, hones, Option.bind_some]
  rw [hsize, hback, Option.map_some, hhigh, baseAddr_eq, hlength]

/-- A controller with a BAR of 16 KiB at `0xFEBD0000`, as the only record. -/
def nvmePci : Pci where
  pciDevices := ⟨fun _ => 0x40, 1⟩
  pciDeviceCnt := 1
  devices := fun _ => ⟨0x01, 0x08, 0, 3, 0, 0x02, getDeviceStr 0x01 0x08, 0, 0⟩
  mallocs := 1
  reads := []

def nvmeHost : BarHost where
  host := ⟨⟨0xB0000000, 0, 0, 255⟩, 0xffff800000000000, fun _ => 0, fun _ => 0⟩
  addr := 0xffff8000b0018010
  bar := ⟨14, 0b0100, 0xFEBD0004, 0⟩

theorem nvmeInit_measures_sample : ∃ r, nvmeInit nvmePci nvmeHost = some (some r, nvmeHost) ∧
    r.baseAddr = 0xFEBD0000 ∧ r.length.toNat = 16384 := by
  obtain ⟨r, hr, hbase, hlen⟩ := nvmeInit_measures nvmePci nvmeHost (p := 0x40) (by rfl) (by decide)
    ⟨by decide, by decide⟩ (by decide)
  exact ⟨r, hr, hbase.trans (by decide), hlen⟩

end BloreOs
