import BloreOs.Lib.Buffer
import BloreOs.Lib.Loop

/-!
# PCI (`pci.c`)

The configuration space is mapped into memory: a `PciHost` is the entry of the MCFG table that says
where, the bytes behind the addresses, and the pointers that `malloc` returns, call by call. They do
not change while the buses are scanned. A `Pci` holds the globals of `pci.c`, and the records behind
the pointers in `pci_devices`.

`pci_devices` has room for 32 pointers, which nothing in the code refers to. It is a buffer without
an end here, and its extent says how far it has been written. What a store behind the array
overwrites is not modelled, and neither is the log output of `kprintf`.

`_pci_mm_read` returns its value together with the load that it makes (`Reading`), and the scan keeps
the list of its loads.
-/

namespace BloreOs

open Loop Buffer

/-- `struct mcfg_entry`. Its `end` is `endBus`. -/
structure McfgEntry where
  mmioBase : BitVec 64
  segment : BitVec 16
  start : BitVec 8
  endBus : BitVec 8

/-- What the scan works with. `malloc k` is the pointer that call number `k` returns. -/
structure PciHost where
  mcfg : McfgEntry
  vmmHigherHalfOffset : BitVec 64
  mmio : BitVec 64 → BitVec 8
  malloc : Nat → Nat

/-- `struct pci_device` -/
structure PciDevice where
  classCode : BitVec 8
  subClassCode : BitVec 8
  bus : BitVec 8
  device : BitVec 8
  function : BitVec 8
  progIf : BitVec 8
  description : String
  address : BitVec 64
  headerType : BitVec 32

/-- `sizeof(struct pci_device)` -/
def sizeofPciDevice : Nat := 32

/-- The length of `pci_devices`. -/
def pciDevicesLen : Nat := 32

/-- The number of a function: bus, device and function. -/
structure Bdf where
  bus : BitVec 8
  device : BitVec 8
  function : BitVec 8
deriving DecidableEq

/-- A load of `_pci_mm_read`: the register that it is called for, and the address and size of the
load. -/
structure PciRead where
  bdf : Bdf
  offset : BitVec 32
  addr : BitVec 64
  size : Nat
deriving DecidableEq

/-- What a reader of the configuration space returns, and the loads that it makes. -/
structure Reading (α : Type) where
  value : α
  reads : List PciRead

/-- A reader that goes on with the value of another one. -/
def Reading.map {α β : Type} (f : α → β) (r : Reading α) : Reading β := ⟨f r.value, r.reads⟩

/-- The globals of `pci.c`, the records behind the pointers, the number of calls of `malloc`, and the
loads from the configuration space so far. -/
structure Pci where
  pciDevices : Buffer Nat
  pciDeviceCnt : BitVec 8
  devices : Nat → PciDevice
  mallocs : Nat
  reads : List PciRead

/-- The globals before `pci_init`. -/
def Pci.boot (devices : Nat → PciDevice) : Pci where
  pciDevices := ⟨fun _ => 0, 0⟩
  pciDeviceCnt := 0
  devices := devices
  mallocs := 0
  reads := []

/-- The globals after a reader was called. -/
def Pci.after {α : Type} (s : Pci) (r : Reading α) : Pci := { s with reads := s.reads ++ r.reads }

/-- `_get_device_str` -/
def getDeviceStr (classCode subClassCode : BitVec 8) : String :=
  if classCode = 0x1 then
    if subClassCode = 0x6 then "Mass Storage Controller - Serial ATA Controller"
    else if subClassCode = 0x8 then "Mass Storage Controller - Non-Volatile Memory Controller"
    else "Unknown Device"
  else if classCode = 0x2 then
    if subClassCode = 0x0 then "Network Controller - Ethernet Controller"
    else "Unknown Device"
  else if classCode = 0x3 then
    if subClassCode = 0x0 then "Display Controller - VGA Compatible Controller"
    else "Unknown Device"
  else if classCode = 0x6 then
    if subClassCode = 0x0 then "Bridge - Host Bridge"
    else if subClassCode = 0x1 then "Bridge - ISA Bridge"
    else "Unknown Device"
  else if classCode = 0xC then
    if subClassCode = 0x5 then "Serial Bus Controller - SMBus Controller"
    else "Unknown Device"
  else "Unknown Device"

namespace PciHost

variable (h : PciHost)

/-- `(bus - mcfg->start) << 20 | device << 15 | function << 12`, an `int`. -/
def functionOffset (bus device function : BitVec 8) : BitVec 32 :=
  ((bus.setWidth 32 - h.mcfg.start.setWidth 32) <<< 20) ||| (device.setWidth 32 <<< 15) |||
    (function.setWidth 32 <<< 12)

/-- A value of one byte. -/
def read8 (addr : BitVec 64) : BitVec 8 := h.mmio addr

/-- A little-endian value of two bytes. -/
def read16 (addr : BitVec 64) : BitVec 16 := h.mmio (addr + 1) ++ h.mmio addr

/-- A little-endian value of four bytes. -/
def read32 (addr : BitVec 64) : BitVec 32 :=
  h.mmio (addr + 3) ++ h.mmio (addr + 2) ++ h.mmio (addr + 1) ++ h.mmio addr

/-- `_pci_mm_read` -/
def pciMmRead (bus device function : BitVec 8) (offset : BitVec 32) (size : BitVec 8) :
    Reading (BitVec 32) :=
  let addr := h.mcfg.mmioBase + h.vmmHigherHalfOffset + offset.setWidth 64 +
    (h.functionOffset bus device function).signExtend 64
  if size = 1 then ⟨(h.read8 addr).setWidth 32, [⟨⟨bus, device, function⟩, offset, addr, 1⟩]⟩
  else if size = 2 then ⟨(h.read16 addr).setWidth 32, [⟨⟨bus, device, function⟩, offset, addr, 2⟩]⟩
  else if size = 4 then ⟨h.read32 addr, [⟨⟨bus, device, function⟩, offset, addr, 4⟩]⟩
  else ⟨0, []⟩

/-- `_pci_mm_read_vendor_id` -/
def pciMmReadVendorId (bus device function : BitVec 8) : Reading (BitVec 16) :=
  (h.pciMmRead bus device function 0x0 2).map fun reg0 : BitVec 32 => reg0.setWidth 16

/-- `_pci_mm_read_header_type` -/
def pciMmReadHeaderType (bus device function : BitVec 8) : Reading (BitVec 8) :=
  (h.pciMmRead bus device function 0xC 4).map fun reg3 : BitVec 32 => (reg3 >>> 16).setWidth 8

/-- `_pci_mm_read_class_code` -/
def pciMmReadClassCode (bus device function : BitVec 8) : Reading (BitVec 8) :=
  (h.pciMmRead bus device function 0x8 4).map fun reg2 : BitVec 32 => (reg2 >>> 24).setWidth 8

/-- `_pci_mm_read_subclass_code` -/
def pciMmReadSubclassCode (bus device function : BitVec 8) : Reading (BitVec 8) :=
  (h.pciMmRead bus device function 0x8 4).map fun reg2 : BitVec 32 => (reg2 >>> 16).setWidth 8

/-- `_pci_mm_read_prog_if` -/
def pciMmReadProgIf (bus device function : BitVec 8) : Reading (BitVec 8) :=
  (h.pciMmRead bus device function 0x8 4).map fun reg2 : BitVec 32 => (reg2 >>> 8).setWidth 8

/-- The record that `_check_function` fills in. -/
def newDevice (bus device function : BitVec 8) (headerType : BitVec 16) : PciDevice :=
  let classcode := (h.pciMmReadClassCode bus device function).value
  let subclass := (h.pciMmReadSubclassCode bus device function).value
  { classCode := classcode
    subClassCode := subclass
    bus := bus
    device := device
    function := function
    progIf := (h.pciMmReadProgIf bus device function).value
    description := getDeviceStr classcode subclass
    address := h.mcfg.mmioBase + h.vmmHigherHalfOffset +
      (h.functionOffset bus device function).signExtend 64
    headerType := headerType.setWidth 32 }

/-- `_check_function` -/
def checkFunction (bus device function : BitVec 8) (headerType : BitVec 16) (s : Pci) : Pci :=
  let s := s.after (h.pciMmReadClassCode bus device function)
  let s := s.after (h.pciMmReadSubclassCode bus device function)
  let s := s.after (h.pciMmReadProgIf bus device function)
  let dev := h.malloc s.mallocs
  { s with
    pciDevices := s.pciDevices.write s.pciDeviceCnt.toNat dev
    pciDeviceCnt := s.pciDeviceCnt + 1
    devices := Function.update s.devices dev (h.newDevice bus device function headerType)
    mallocs := s.mallocs + 1 }

/-- The loop body of `_check_device`. -/
def checkSucc (bus device : BitVec 8) (headerType : BitVec 16) (function : BitVec 8) (s : Pci) :
    Option Pci :=
  let vendorID := h.pciMmReadVendorId bus device function
  let s := s.after vendorID
  if vendorID.value ≠ 0xFFFF then some (h.checkFunction bus device function headerType s) else some s

/-- `_check_device` -/
def checkDevice (bus device : BitVec 8) (s : Pci) : Option Pci :=
  let vendorID := h.pciMmReadVendorId bus device 0
  let s := s.after vendorID
  if vendorID.value = 0xFFFF then some s
  else
    let header := h.pciMmReadHeaderType bus device 0
    let headerType : BitVec 16 := header.value.setWidth 16
    let s := h.checkFunction bus device 0 headerType (s.after header)
    if headerType &&& 0x80 ≠ 0 then
      forLoop 8 (1 : BitVec 8) (h.checkSucc bus device headerType) s
    else some s

/-- `_scan_all_buses`. The 16 bits of `bus` are cut to 8 for the call. -/
def scanAllBuses (s : Pci) : Option Pci :=
  forLoop 256 (0 : BitVec 16) (fun bus s =>
    forLoop 32 (0 : BitVec 8) (fun device s => h.checkDevice (bus.setWidth 8) device s) s) s

/-- `pci_init` -/
def pciInit (s : Pci) : Option Pci := h.scanAllBuses s

end PciHost

/-- The comparison in `pci_find_device`. -/
def PciDevice.HasClass (dev : PciDevice) (classCode subclass : BitVec 8) : Prop :=
  dev.classCode = classCode ∧ dev.subClassCode = subclass

instance (dev : PciDevice) (classCode subclass : BitVec 8) :
    Decidable (dev.HasClass classCode subclass) := inferInstanceAs (Decidable (_ ∧ _))

/-- The loop body of `pci_find_device`. -/
def findBody (classCode subclass : BitVec 8) (s : Pci) (i : Nat) : Nat ⊕ Nat :=
  if i < s.pciDeviceCnt.toNat then
    let dev := s.pciDevices.data i
    if (s.devices dev).HasClass classCode subclass then .inr dev else .inl (i + 1)
  else .inr 0

/-- `pci_find_device`. `NULL` is 0. -/
def pciFindDevice (classCode subclass : BitVec 8) (s : Pci) : Option Nat :=
  loop (findBody classCode subclass s) (2 ^ 31) 0

end BloreOs
