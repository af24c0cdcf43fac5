import BloreOs.Pci.Scan

/-!
# The window of the configuration space

The MCFG entry says which buses are mapped: `start` to `end`. The scan computes the address of a
register from the distance of its bus to `start`, and goes through all 256 buses. What is said here
about its loads is about the list that `pci_init` itself keeps of them.

* `pciInit_reads` — the loads of `pci_init`, and `pciInit_congr`: other bytes do not matter to it,
* `registers_distinct` — different registers have different addresses,
* `bases_agree` — the three places that compute an address agree,
* `inWindow_iff` — a load is in the window exactly if its bus is,
* `pci_window_iff` — the loads are in the window exactly if all buses are mapped.
-/

namespace BloreOs

open Loop

/-- The address of a byte of a load. -/
def PciRead.byteAddr (r : PciRead) (k : Nat) : BitVec 64 := r.addr + BitVec.ofNat 64 k

namespace PciHost

/-- The same host with other bytes behind the addresses. -/
def withMmio (h : PciHost) (mmio : BitVec 64 → BitVec 8) : PciHost := { h with mmio := mmio }

/-- The other bytes are the same for the loads of a list. -/
def SameFor (h : PciHost) (mmio : BitVec 64 → BitVec 8) (reads : List PciRead) : Prop :=
  ∀ r ∈ reads, ∀ k < r.size, mmio (r.byteAddr k) = h.mmio (r.byteAddr k)

/-- Store the low `n` bytes of a value, the lowest one first. -/
def writeBytes (h : PciHost) (addr : BitVec 64) (n : Nat) (val : BitVec 32) : PciHost :=
  h.withMmio fun a =>
    if (a - addr).toNat < n then (val >>> (8 * (a - addr).toNat)).setWidth 8 else h.mmio a

/-- `pci_device_write` -/
def pciDeviceWrite (h : PciHost) (dev : PciDevice) (offset : BitVec 32) (size : BitVec 8)
    (val : BitVec 32) : PciHost :=
  let addr := h.mcfg.mmioBase + h.vmmHigherHalfOffset + offset.setWidth 64 +
    (h.functionOffset dev.bus dev.device dev.function).signExtend 64
  if size = 1 then h.writeBytes addr 1 val
  else if size = 2 then h.writeBytes addr 2 val
  else if size = 4 then h.writeBytes addr 4 val
  else h

/-- The value of a size at an address. -/
def readAt (h : PciHost) (size : BitVec 8) (addr : BitVec 64) : BitVec 32 :=
  if size = 1 then (h.read8 addr).setWidth 32
  else if size = 2 then (h.read16 addr).setWidth 32
  else if size = 4 then h.read32 addr
  else 0

/-- Write a value of a size to an address. -/
def writeAt (h : PciHost) (size : BitVec 8) (addr : BitVec 64) (val : BitVec 32) : PciHost :=
  if size = 1 then h.writeBytes addr 1 val
  else if size = 2 then h.writeBytes addr 2 val
  else if size = 4 then h.writeBytes addr 4 val
  else h

/-- An address is in the part of memory that the MCFG entry says is mapped. -/
def InWindow (h : PciHost) (addr : BitVec 64) : Prop :=
  (addr - (h.mcfg.mmioBase + h.vmmHigherHalfOffset)).toNat
    < (h.mcfg.endBus.toNat - h.mcfg.start.toNat + 1) * 2 ^ 20

end PciHost

variable {h : PciHost} {mmio : BitVec 64 → BitVec 8} {x y : Bdf} {r r' : PciRead}
  {reads : List PciRead} {bus device : BitVec 8} {k n : Nat}

/-! ## The loads of the scan -/

/-- **The loads that `pci_init` makes.** -/
theorem pciInit_reads (h : PciHost) (devices : Nat → PciDevice) :
    ∃ s, h.pciInit (Pci.boot devices) = some s ∧ s.reads = h.scanReads := by
  refine ⟨_, pciInit_eq_foldl h _, ?_⟩
  have hsame : ∀ (xs : List Bdf) (s : Pci), (xs.foldl (recordPresent h) s).reads = s.reads := by
    intro xs
    induction xs with
    | nil => exact fun _ => rfl
    | cons x xs ih => exact fun s => ih (recordPresent h s x)
  rw [Pci.loading, hsame]
  exact List.nil_append _

theorem mem_scanReads (hd : x.device.toNat < 32) (hr : r ∈ h.deviceReads x.bus x.device) :
    r ∈ h.scanReads := by
  refine List.mem_flatMap.mpr ⟨x.bus.toNat, List.mem_range.mpr x.bus.isLt,
    List.mem_flatMap.mpr ⟨x.device.toNat, List.mem_range.mpr hd, ?_⟩⟩
  rwa [BitVec.ofNat_toNat, BitVec.ofNat_toNat, BitVec.setWidth_eq, BitVec.setWidth_eq]

/-- The vendor of function 0 is always read. -/
theorem vendor_mem_scanReads (hd : x.device.toNat < 32) : h.load x.zeroth 0x0 2 ∈ h.scanReads :=
  mem_scanReads hd (List.mem_cons_self ..)

theorem deviceReads_of_vendor (hv : h.config.vendorId x.zeroth ≠ 0xFFFF) :
    h.deviceReads x.bus x.device = h.load x.zeroth 0x0 2 :: h.load x.zeroth 0xC 4 ::
      (h.classReads x.zeroth ++ if h.config.headerType x.zeroth &&& 0x80 ≠ 0 then
        (List.range' 1 7).flatMap fun k => h.functionReads ⟨x.bus, x.device, BitVec.ofNat 8 k⟩
      else []) := by
  rw [PciHost.deviceReads]
  exact congrArg _ (if_neg hv)

theorem header_mem_scanReads (hd : x.device.toNat < 32)
    (hv : h.config.vendorId x.zeroth ≠ 0xFFFF) : h.load x.zeroth 0xC 4 ∈ h.scanReads := by
  refine mem_scanReads hd ?_
  rw [deviceReads_of_vendor hv]
  exact List.mem_cons_of_mem _ (List.mem_cons_self ..)

/-- The loads of the functions behind function 0. -/
theorem mem_scanReads_succ (hd : x.device.toNat < 32) (hf : x.function.toNat < 8)
    (hv : h.config.vendorId x.zeroth ≠ 0xFFFF) (hmulti : h.config.headerType x.zeroth &&& 0x80 ≠ 0)
    (hne : x.function ≠ 0) (hr : r ∈ h.functionReads x) : r ∈ h.scanReads := by
  have hpos : x.function.toNat ≠ 0 := fun h0 => hne (BitVec.eq_of_toNat_eq h0)
  refine mem_scanReads hd ?_
  rw [deviceReads_of_vendor hv, if_pos hmulti]
  refine List.mem_cons_of_mem _ (List.mem_cons_of_mem _ (List.mem_append_right _ ?_))
  refine List.mem_flatMap.mpr ⟨x.function.toNat, List.mem_range'_1.mpr (by omega), ?_⟩
  rwa [BitVec.ofNat_toNat, BitVec.setWidth_eq]

theorem Bdf.zeroth_of_function (h0 : x.function = 0) : x.zeroth = x := by
  rw [Bdf.zeroth, ← h0]

/-- The class of a function that is present is read. -/
theorem class_mem_scanReads (hx : h.config.Present x) : h.load x 0x8 4 ∈ h.scanReads := by
  obtain ⟨hd, hf, hv, hother⟩ := hx
  by_cases h0 : x.function = 0
  · refine mem_scanReads hd ?_
    rw [deviceReads_of_vendor hv, Bdf.zeroth_of_function h0]
    exact List.mem_cons_of_mem _ (List.mem_cons_of_mem _ (List.mem_append_left _ (List.mem_cons_self ..)))
  · obtain ⟨hmulti, hown⟩ := hother h0
    refine mem_scanReads_succ hd hf hv hmulti h0 ?_
    rw [PciHost.functionReads, if_pos hown]
    exact List.mem_cons_of_mem _ (List.mem_cons_self ..)

/-! ## Nothing else is read -/

/-- The bytes of a load. -/
theorem config_withMmio {o n : Nat} (hs : h.SameFor mmio reads) (hr : h.load x o n ∈ reads)
    (ho : o < 2 ^ 32) (hk : k < n) : (h.withMmio mmio).config x (o + k) = h.config x (o + k) := by
  have hsame : mmio (h.readAddr x o + BitVec.ofNat 64 k) = h.mmio (h.readAddr x o + BitVec.ofNat 64 k) :=
    hs (h.load x o n) hr k hk
  rw [mmio_readAddr h x ho] at hsame
  rw [← hsame, readAddr_eq h x ho, BitVec.add_assoc, ← BitVec.ofNat_add]
  rfl

theorem vendorId_withMmio (hs : h.SameFor mmio reads) (hr : h.load x 0x0 2 ∈ reads) :
    (h.withMmio mmio).config.vendorId x = h.config.vendorId x := by
  have h0 := config_withMmio (k := 0) hs hr (show 0 < 2 ^ 32 by decide) (show 0 < 2 by decide)
  have h1 := config_withMmio (k := 1) hs hr (show 0 < 2 ^ 32 by decide) (show 1 < 2 by decide)
  rw [Nat.zero_add] at h0 h1
  rw [ConfigSpace.vendorId, ConfigSpace.vendorId, h0, h1]

theorem headerType_withMmio (hs : h.SameFor mmio reads) (hr : h.load x 0xC 4 ∈ reads) :
    (h.withMmio mmio).config.headerType x = h.config.headerType x :=
  config_withMmio (k := 2) hs hr (show 0xC < 2 ^ 32 by decide) (show 2 < 4 by decide)

/-- The class registers. -/
theorem newDevice_withMmio (hs : h.SameFor mmio reads) (hr : h.load x 0x8 4 ∈ reads)
    (headerType : BitVec 16) : (h.withMmio mmio).newDevice x.bus x.device x.function headerType
      = h.newDevice x.bus x.device x.function headerType := by
  have hclass := config_withMmio (k := 3) hs hr (show 0x8 < 2 ^ 32 by decide) (show 3 < 4 by decide)
  have hsub := config_withMmio (k := 2) hs hr (show 0x8 < 2 ^ 32 by decide) (show 2 < 4 by decide)
  have hprog := config_withMmio (k := 1) hs hr (show 0x8 < 2 ^ 32 by decide) (show 1 < 4 by decide)
  simp only [PciHost.newDevice, pciMmReadClassCode_eq, pciMmReadSubclassCode_eq, pciMmReadProgIf_eq,
    ConfigSpace.classCode, ConfigSpace.subClassCode, ConfigSpace.progIf]
  rw [hclass, hsub, hprog]
  rfl

section Congr

variable (hs : h.SameFor mmio h.scanReads)
include hs

/-- Bytes that are the same for the loads leave the same functions present. -/
theorem present_withMmio : (h.withMmio mmio).config.Present x ↔ h.config.Present x := by
  refine and_congr_right fun hd => and_congr_right fun hf => ?_
  rw [vendorId_withMmio hs (vendor_mem_scanReads hd)]
  refine and_congr_right fun hv => forall_congr' fun hne => ?_
  rw [headerType_withMmio hs (header_mem_scanReads hd hv)]
  refine and_congr_right fun hmulti => ?_
  rw [vendorId_withMmio hs (mem_scanReads_succ hd hf hv hmulti hne (List.mem_cons_self ..))]

theorem recordPresent_withMmio (hx : h.config.Present x) (s : Pci) :
    recordPresent (h.withMmio mmio) s x = recordPresent h s x := by
  have hheader : (h.withMmio mmio).pciMmReadHeaderType x.bus x.device 0
      = h.pciMmReadHeaderType x.bus x.device 0 := by
    have hvalue := headerType_withMmio hs (header_mem_scanReads hx.1 hx.2.2.1)
    rw [← pciMmReadHeaderType_eq, ← pciMmReadHeaderType_eq] at hvalue
    exact congrArg (Reading.mk · [h.load x.zeroth 0xC 4]) hvalue
  have hdev := newDevice_withMmio hs (class_mem_scanReads hx)
    ((h.pciMmReadHeaderType x.bus x.device 0).value.setWidth 16)
  simp only [recordPresent, recordFunction, PciHost.checkFunction, hheader, hdev]
  rfl

/-- The same loads follow. -/
theorem deviceReads_withMmio (hd : x.device.toNat < 32) :
    (h.withMmio mmio).deviceReads x.bus x.device = h.deviceReads x.bus x.device := by
  have hvendor := vendorId_withMmio hs (vendor_mem_scanReads hd)
  by_cases hv : h.config.vendorId x.zeroth = 0xFFFF
  · rw [PciHost.deviceReads, PciHost.deviceReads]
    exact congrArg _ ((if_pos (hvendor.trans hv)).trans (if_pos hv).symm)
  · rw [deviceReads_of_vendor hv, deviceReads_of_vendor (fun hv' => hv (hvendor.symm.trans hv')),
      headerType_withMmio hs (header_mem_scanReads hd hv)]
    refine congrArg (fun l => _ :: _ :: (h.classReads x.zeroth ++ l)) ?_
    split
    · next hmulti =>
      refine List.flatMap_congr fun k hk => ?_
      rw [List.mem_range'_1] at hk
      obtain ⟨y, hy⟩ : ∃ y : Bdf, y = ⟨x.bus, x.device, BitVec.ofNat 8 k⟩ := ⟨_, rfl⟩
      have hk' : y.function.toNat = k := by
        rw [hy]
        exact toNat_ofNat_8 (by omega)
      have hmem : h.load y 0x0 2 ∈ h.scanReads := by
        refine mem_scanReads_succ ?_ (by omega) ?_ ?_ ?_ (List.mem_cons_self ..)
        · rwa [hy]
        · rwa [hy]
        · rwa [hy]
        · exact fun h0 => by simp [h0] at hk'; omega
      rw [← hy, PciHost.functionReads, PciHost.functionReads, vendorId_withMmio hs hmem]
      rfl
    · rfl

theorem scanReads_withMmio : (h.withMmio mmio).scanReads = h.scanReads := by
  refine List.flatMap_congr fun b _ => List.flatMap_congr fun d hd => ?_
  rw [List.mem_range] at hd
  refine deviceReads_withMmio (x := ⟨BitVec.ofNat 8 b, BitVec.ofNat 8 d, 0⟩) hs ?_
  rwa [toNat_ofNat_8 (by omega)]

/-- **The scan reads nothing else**: other bytes everywhere else do not change what it does, nor
which loads it makes. -/
theorem pciInit_congr (s : Pci) : (h.withMmio mmio).pciInit s = h.pciInit s := by
  have hpresent : (h.withMmio mmio).config.present = h.config.present := by
    simp only [ConfigSpace.present, ConfigSpace.presentOn, present_withMmio hs]
  rw [pciInit_eq_foldl, pciInit_eq_foldl, hpresent, scanReads_withMmio hs]
  refine congrArg (fun s : Pci => some (s.loading h.scanReads)) ?_
  exact List.foldl_ext _ _ _ fun s x hx => recordPresent_withMmio hs (mem_present_iff.mp hx) s

end Congr

/-! ## Different registers -/

/-- A load from a register of a function, as the scan names them. -/
structure PciRead.Ok (h : PciHost) (r : PciRead) : Prop where
  device : r.bdf.device.toNat < 32
  function : r.bdf.function.toNat < 8
  register : r.offset.toNat + r.size ≤ 4096
  addr : r.addr = h.functionBase r.bdf + BitVec.ofNat 64 r.offset.toNat

theorem load_ok (hd : x.device.toNat < 32) (hf : x.function.toNat < 8) {o : Nat}
    (ho : o + n ≤ 4096) : (h.load x o n).Ok h := by
  have hnat : (BitVec.ofNat 32 o).toNat = o := by
    rw [BitVec.toNat_ofNat]
    omega
  refine ⟨hd, hf, ?_, ?_⟩
  · show (BitVec.ofNat 32 o).toNat + n ≤ 4096
    rwa [hnat]
  · show h.readAddr x o = h.functionBase x + BitVec.ofNat 64 (BitVec.ofNat 32 o).toNat
    rw [hnat, readAddr_eq h x (by omega)]

theorem classReads_ok (hd : x.device.toNat < 32) (hf : x.function.toNat < 8)
    (hr : r ∈ h.classReads x) : r.Ok h := by
  simp only [PciHost.classReads, List.mem_cons, List.not_mem_nil, or_false, or_self] at hr
  subst hr
  exact load_ok hd hf (by decide)

theorem functionReads_ok (hd : x.device.toNat < 32) (hf : x.function.toNat < 8)
    (hr : r ∈ h.functionReads x) : r.Ok h := by
  rw [PciHost.functionReads, List.mem_cons] at hr
  rcases hr with rfl | hr
  · exact load_ok hd hf (by decide)
  · split at hr
    · exact classReads_ok hd hf hr
    · cases hr

theorem deviceReads_ok (hd : device.toNat < 32) (hr : r ∈ h.deviceReads bus device) : r.Ok h := by
  have hzero : (0 : BitVec 8).toNat < 8 := by decide
  rw [PciHost.deviceReads, List.mem_cons] at hr
  rcases hr with rfl | hr
  · exact load_ok hd hzero (by decide)
  split at hr
  · cases hr
  rw [List.mem_cons, List.mem_append] at hr
  rcases hr with rfl | hr | hr
  · exact load_ok hd hzero (by decide)
  · exact classReads_ok (x := ⟨bus, device, 0⟩) hd hzero hr
  split at hr
  · obtain ⟨k, hk, hr⟩ := List.mem_flatMap.mp hr
    rw [List.mem_range'_1] at hk
    have hfun : (BitVec.ofNat 8 k).toNat < 8 := by
      rw [toNat_ofNat_8 (by omega)]
      omega
    exact functionReads_ok (x := ⟨bus, device, BitVec.ofNat 8 k⟩) hd hfun hr
  · cases hr

theorem scanReads_ok (hr : r ∈ h.scanReads) : r.Ok h := by
  obtain ⟨b, -, hr⟩ := List.mem_flatMap.mp hr
  obtain ⟨d, hd, hr⟩ := List.mem_flatMap.mp hr
  rw [List.mem_range] at hd
  refine deviceReads_ok ?_ hr
  rwa [toNat_ofNat_8 (by omega)]

theorem PciRead.Ok.byteAddr_eq (hr : r.Ok h) (k : Nat) :
    r.byteAddr k = h.functionBase r.bdf + BitVec.ofNat 64 (r.offset.toNat + k) := by
  rw [PciRead.byteAddr, hr.addr, BitVec.ofNat_add, BitVec.add_assoc]

/-- **Different registers have different addresses.** -/
theorem registers_distinct (hr : r.Ok h) (hr' : r'.Ok h) {k' : Nat} (hk : k < r.size)
    (hk' : k' < r'.size) (haddr : r.byteAddr k = r'.byteAddr k') :
    r.bdf = r'.bdf ∧ r.offset.toNat + k = r'.offset.toNat + k' := by
  have hreg := hr.register
  have hreg' := hr'.register
  rw [hr.byteAddr_eq, hr'.byteAddr_eq] at haddr
  obtain ⟨hx, ho⟩ :=
    functionAt_windowOffset h hr.device hr.function (by omega : r.offset.toNat + k < 4096)
  obtain ⟨hx', ho'⟩ :=
    functionAt_windowOffset h hr'.device hr'.function (by omega : r'.offset.toNat + k' < 4096)
  rw [haddr] at hx ho
  exact ⟨hx.symm.trans hx', ho.symm.trans ho'⟩

/-! ## The base of a function -/

/-- The address of `_pci_mm_read` and `pci_device_write` is the recorded one and the offset. -/
theorem address_add_offset (h : PciHost) (bus device function : BitVec 8) (headerType : BitVec 16)
    (offset : BitVec 32) : h.mcfg.mmioBase + h.vmmHigherHalfOffset + offset.setWidth 64 +
      (h.functionOffset bus device function).signExtend 64
        = (h.newDevice bus device function headerType).address + offset.setWidth 64 := by
  show _ = h.mcfg.mmioBase + h.vmmHigherHalfOffset +
    (h.functionOffset bus device function).signExtend 64 + offset.setWidth 64
  ac_rfl

/-- The loads of `_pci_mm_read` are at one address. -/
theorem addr_of_mem_pciMmRead {function : BitVec 8} {offset : BitVec 32} {size : BitVec 8}
    (hr : r ∈ (h.pciMmRead bus device function offset size).reads) :
    r.addr = h.mcfg.mmioBase + h.vmmHigherHalfOffset + offset.setWidth 64 +
      (h.functionOffset bus device function).signExtend 64 := by
  rw [PciHost.pciMmRead] at hr
  split_ifs at hr
  · rw [List.mem_singleton.mp hr]
  · rw [List.mem_singleton.mp hr]
  · rw [List.mem_singleton.mp hr]
  · cases hr

/-- The three places that compute an address agree on the base of a function. -/
def PciHost.BasesAgree (h : PciHost) : Prop :=
  ∀ (bus device function : BitVec 8) (headerType : BitVec 16),
    let dev := h.newDevice bus device function headerType
    dev.address = h.functionBase ⟨bus, device, function⟩ ∧
      (∀ offset size, (h.pciMmRead bus device function offset size).value
          = h.readAt size (dev.address + offset.setWidth 64) ∧
        ∀ r ∈ (h.pciMmRead bus device function offset size).reads,
          r.addr = dev.address + offset.setWidth 64) ∧
      ∀ offset size val, h.pciDeviceWrite dev offset size val
        = h.writeAt size (dev.address + offset.setWidth 64) val

/-- **They agree.** -/
theorem bases_agree (h : PciHost) : h.BasesAgree := by
  intro bus device function headerType dev
  refine ⟨rfl, fun offset size => ⟨?_, fun r hr => ?_⟩, fun offset size val => ?_⟩
  · rw [← address_add_offset h bus device function headerType offset, PciHost.pciMmRead,
      PciHost.readAt]
    split_ifs <;> rfl
  · rw [← address_add_offset h bus device function headerType offset]
    exact addr_of_mem_pciMmRead hr
  · rw [← address_add_offset h bus device function headerType offset]
    rfl

/-! ## The window -/

/-- **How far a byte is behind the start of the window**, as a signed distance in 64 bits. -/
theorem toNat_byteAddr_sub (hr : r.Ok h) (hk : k < r.size) :
    (r.byteAddr k - (h.mcfg.mmioBase + h.vmmHigherHalfOffset)).toNat
      = (r.bdf.bus.toNat * 2 ^ 20 + 2 ^ 64 - h.mcfg.start.toNat * 2 ^ 20 + r.bdf.device.toNat * 2 ^ 15
        + r.bdf.function.toNat * 2 ^ 12 + (r.offset.toNat + k)) % 2 ^ 64 := by
  have hd := hr.device
  have hf := hr.function
  have hreg := hr.register
  have hb := r.bdf.bus.isLt
  have hs := h.mcfg.start.isLt
  have hsub : r.byteAddr k - (h.mcfg.mmioBase + h.vmmHigherHalfOffset)
      = (h.functionOffset r.bdf.bus r.bdf.device r.bdf.function).signExtend 64
        + BitVec.ofNat 64 (r.offset.toNat + k) := by
    rw [hr.byteAddr_eq, PciHost.functionBase, BitVec.add_assoc, BitVec.add_comm,
      BitVec.add_sub_cancel]
  have hoffset := functionOffset_toNat h r.bdf.bus hd hf
  rw [hsub, BitVec.toNat_add, BitVec.toNat_ofNat, BitVec.toNat_signExtend, BitVec.toNat_setWidth,
    BitVec.msb_eq_decide, hoffset]
  by_cases hle : h.mcfg.start.toNat ≤ r.bdf.bus.toNat
  · rw [if_neg (by rw [decide_eq_true_eq]; omega)]
    omega
  · rw [if_pos (by rw [decide_eq_true_eq]; omega)]
    omega

/-- **A byte is in the window exactly if its bus is.** -/
theorem inWindow_iff (hle : h.mcfg.start.toNat ≤ h.mcfg.endBus.toNat) (hr : r.Ok h)
    (hk : k < r.size) : h.InWindow (r.byteAddr k) ↔
      h.mcfg.start.toNat ≤ r.bdf.bus.toNat ∧ r.bdf.bus.toNat ≤ h.mcfg.endBus.toNat := by
  have hb := r.bdf.bus.isLt
  have hs := h.mcfg.start.isLt
  have hd := hr.device
  have hf := hr.function
  have hreg := hr.register
  rw [PciHost.InWindow, toNat_byteAddr_sub hr hk]
  omega

/-- Every byte that these loads read is in the window. -/
def PciHost.ReadsInWindow (h : PciHost) (reads : List PciRead) : Prop :=
  ∀ r ∈ reads, ∀ k < r.size, h.InWindow (r.byteAddr k)

/-- Different registers that these loads read have different addresses. -/
def ReadsDistinct (reads : List PciRead) : Prop :=
  ∀ r ∈ reads, ∀ r' ∈ reads, ∀ k < r.size, ∀ k' < r'.size,
    r.byteAddr k = r'.byteAddr k' → r.bdf = r'.bdf ∧ r.offset.toNat + k = r'.offset.toNat + k'

theorem readsDistinct_scanReads (h : PciHost) : ReadsDistinct h.scanReads :=
  fun _ hr _ hr' _ hk _ hk' => registers_distinct (scanReads_ok hr) (scanReads_ok hr') hk hk'

/-- The bus of every load is in the window, and every bus is read. -/
theorem readsInWindow_iff (hle : h.mcfg.start.toNat ≤ h.mcfg.endBus.toNat) :
    h.ReadsInWindow h.scanReads ↔ h.mcfg.start = 0 ∧ h.mcfg.endBus = 255 := by
  constructor
  · intro hin
    have hbus : ∀ b : BitVec 8,
        h.mcfg.start.toNat ≤ b.toNat ∧ b.toNat ≤ h.mcfg.endBus.toNat := by
      intro b
      have hmem : h.load ⟨b, 0, 0⟩ 0x0 2 ∈ h.scanReads :=
        vendor_mem_scanReads (x := ⟨b, 0, 0⟩) (show 0 < 32 by decide)
      have hzero : 0 < 2 := by decide
      exact (inWindow_iff hle (scanReads_ok hmem) hzero).mp (hin _ hmem 0 hzero)
    have hfirst : h.mcfg.start.toNat ≤ 0 := (hbus 0).1
    have hlast : 255 ≤ h.mcfg.endBus.toNat := (hbus 255).2
    have hlt := h.mcfg.endBus.isLt
    refine ⟨BitVec.eq_of_toNat_eq ?_, BitVec.eq_of_toNat_eq ?_⟩
    · exact Nat.le_zero.mp hfirst
    · exact Nat.le_antisymm (Nat.le_of_lt_succ hlt) hlast
  · rintro ⟨hstart, hend⟩ r hr k hk
    rw [inWindow_iff hle (scanReads_ok hr) hk, hstart, hend]
    have hb := r.bdf.bus.isLt
    exact ⟨Nat.zero_le _, Nat.le_of_lt_succ hb⟩

/--
**The scan needs a window of all buses.**

For every MCFG entry with `start <= end` and every content of the configuration space, `pci_init`
ends, and each load that it has made is in the window of the entry, different registers are read at
different addresses, and the three places that compute an address agree, exactly if the entry covers
the buses 0 to 255. The last two hold for every entry.
-/
theorem pci_window_iff (h : PciHost) (devices : Nat → PciDevice)
    (hle : h.mcfg.start.toNat ≤ h.mcfg.endBus.toNat) :
    ∃ s, h.pciInit (Pci.boot devices) = some s ∧ ReadsDistinct s.reads ∧ h.BasesAgree ∧
      (h.ReadsInWindow s.reads ∧ ReadsDistinct s.reads ∧ h.BasesAgree ↔
        h.mcfg.start = 0 ∧ h.mcfg.endBus = 255) := by
  obtain ⟨s, hinit, hreads⟩ := pciInit_reads h devices
  have hdistinct : ReadsDistinct s.reads := hreads ▸ readsDistinct_scanReads h
  have hbases := bases_agree h
  refine ⟨s, hinit, hdistinct, hbases, ?_⟩
  rw [and_iff_left ⟨hdistinct, hbases⟩, hreads, readsInWindow_iff hle]

theorem pci_window_sample : ∃ s, (samplePciHost 1 0x80).pciInit
      (Pci.boot fun _ => (samplePciHost 1 0x80).deviceOf ⟨0, 0, 0⟩) = some s ∧
    (samplePciHost 1 0x80).ReadsInWindow s.reads := by
  obtain ⟨s, hinit, -, -, hiff⟩ := pci_window_iff (samplePciHost 1 0x80)
    (fun _ => (samplePciHost 1 0x80).deviceOf ⟨0, 0, 0⟩) (show 0 ≤ 255 by decide)
  exact ⟨s, hinit, (hiff.mpr ⟨rfl, rfl⟩).1⟩

/-- A host whose window ends at bus 127. -/
def halfPciHost : PciHost :=
  (sampleConfig 1 0x80).mappedAt ⟨0xB0000000, 0, 0, 127⟩ 0xffff800000000000
    fun k => 0xffff800000200000 + 64 * k

/-- The vendor of device 0 on bus 128 is read behind the window. -/
theorem pci_window_left_sample : halfPciHost.mcfg.start.toNat ≤ halfPciHost.mcfg.endBus.toNat ∧
    ∃ s, halfPciHost.pciInit (Pci.boot fun _ => halfPciHost.deviceOf ⟨0, 0, 0⟩) = some s ∧
      ⟨⟨128, 0, 0⟩, 0, 0xffff8000b8000000, 2⟩ ∈ s.reads ∧
      ¬ halfPciHost.InWindow 0xffff8000b8000000 ∧ ¬ halfPciHost.ReadsInWindow s.reads := by
  have hle : halfPciHost.mcfg.start.toNat ≤ halfPciHost.mcfg.endBus.toNat := show 0 ≤ 127 by decide
  obtain ⟨s, hinit, hreads⟩ := pciInit_reads halfPciHost fun _ => halfPciHost.deviceOf ⟨0, 0, 0⟩
  have hmem : ⟨⟨128, 0, 0⟩, 0, 0xffff8000b8000000, 2⟩ ∈ s.reads := by
    rw [hreads]
    exact vendor_mem_scanReads (x := ⟨128, 0, 0⟩) (show 0 < 32 by decide)
  have hout : ¬ halfPciHost.InWindow 0xffff8000b8000000 := by
    show ¬ (_ : Nat) < _
    decide
  exact ⟨hle, s, hinit, hmem, hout, fun hin => hout (hin _ hmem 0 (by decide))⟩

end BloreOs
