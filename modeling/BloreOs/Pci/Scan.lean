import BloreOs.Pci.Config
import Mathlib.Data.List.Perm.Subperm

/-!
# The scan of the buses

The scan records the functions that are present, in their order and nothing else. So the table is a
list of them as long as it has room, and it has room for 32.

* `pciInit_eq_foldl` — the loops of the scan go through `present`, and which loads they make,
* `RecordedIn`, `recorded_foldl` — what recording functions leaves in the table,
* `pci_enumeration_exact` — the table, and the search in it,
* `pci_table_fits_iff` — when no store of the scan is behind the table.
-/

namespace BloreOs

open Loop Buffer

/-- `_check_function` for a function of the device whose function 0 has been read before. -/
def recordFunction (h : PciHost) (s : Pci) (x : Bdf) : Pci :=
  h.checkFunction x.bus x.device x.function
    ((h.pciMmReadHeaderType x.bus x.device 0).value.setWidth 16) s

/-- The record of a function. -/
def PciHost.deviceOf (h : PciHost) (x : Bdf) : PciDevice :=
  h.newDevice x.bus x.device x.function ((h.pciMmReadHeaderType x.bus x.device 0).value.setWidth 16)

variable {h : PciHost} {s : Pci} {x : Bdf} {xs : List Bdf} {bus device : BitVec 8} {i j k n : Nat}

/-! ## The loads -/

namespace PciHost

/-- A load from the registers of a function. -/
def load (h : PciHost) (x : Bdf) (offset size : Nat) : PciRead :=
  ⟨x, BitVec.ofNat 32 offset, h.readAddr x offset, size⟩

/-- The loads of `_check_function`: the class, the subclass and the programming interface. -/
def classReads (h : PciHost) (x : Bdf) : List PciRead :=
  [h.load x 0x8 4, h.load x 0x8 4, h.load x 0x8 4]

/-- The loads of the loop of `_check_device`, for one function. -/
def functionReads (h : PciHost) (x : Bdf) : List PciRead :=
  h.load x 0x0 2 :: if h.config.vendorId x ≠ 0xFFFF then h.classReads x else []

/-- The loads of `_check_device`. -/
def deviceReads (h : PciHost) (bus device : BitVec 8) : List PciRead :=
  h.load ⟨bus, device, 0⟩ 0x0 2 ::
    if h.config.vendorId ⟨bus, device, 0⟩ = 0xFFFF then []
    else h.load ⟨bus, device, 0⟩ 0xC 4 :: (h.classReads ⟨bus, device, 0⟩ ++
      if h.config.headerType ⟨bus, device, 0⟩ &&& 0x80 ≠ 0 then
        (List.range' 1 7).flatMap fun k => h.functionReads ⟨bus, device, BitVec.ofNat 8 k⟩
      else [])

/-- The loads of the scan. -/
def scanReads (h : PciHost) : List PciRead :=
  (List.range 256).flatMap fun b => (List.range 32).flatMap fun d =>
    h.deviceReads (BitVec.ofNat 8 b) (BitVec.ofNat 8 d)

end PciHost

/-- More loads. They change nothing else. -/
def Pci.loading (s : Pci) (l : List PciRead) : Pci := { s with reads := s.reads ++ l }

theorem Pci.loading_nil (s : Pci) : s.loading [] = s := by
  rw [loading, List.append_nil]

theorem Pci.loading_loading (s : Pci) (l l' : List PciRead) :
    (s.loading l).loading l' = s.loading (l ++ l') := by
  simp only [loading, List.append_assoc]

theorem after_vendorId (h : PciHost) (bus device function : BitVec 8) (s : Pci) :
    s.after (h.pciMmReadVendorId bus device function)
      = s.loading [h.load ⟨bus, device, function⟩ 0x0 2] := rfl

theorem after_headerType (h : PciHost) (bus device function : BitVec 8) (s : Pci) :
    s.after (h.pciMmReadHeaderType bus device function)
      = s.loading [h.load ⟨bus, device, function⟩ 0xC 4] := rfl

/-- What recording functions does, apart from the loads. -/
def recordPresent (h : PciHost) (s : Pci) (x : Bdf) : Pci :=
  { recordFunction h s x with reads := s.reads }

theorem recordFunction_eq (h : PciHost) (s : Pci) (x : Bdf) :
    recordFunction h s x = (recordPresent h s x).loading (h.classReads x) := by
  have hreads : (recordFunction h s x).reads = s.reads ++ h.classReads x := by
    show s.reads ++ [h.load x 0x8 4] ++ [h.load x 0x8 4] ++ [h.load x 0x8 4] = _
    rw [List.append_assoc, List.append_assoc]
    rfl
  show _ = { recordFunction h s x with reads := s.reads ++ h.classReads x }
  rw [← hreads]

theorem recordPresent_loading (h : PciHost) (s : Pci) (l : List PciRead) (x : Bdf) :
    recordPresent h (s.loading l) x = (recordPresent h s x).loading l := rfl

theorem foldl_recordPresent_loading (h : PciHost) : ∀ (xs : List Bdf) (s : Pci) (l : List PciRead),
    xs.foldl (recordPresent h) (s.loading l) = (xs.foldl (recordPresent h) s).loading l
  | [], _, _ => rfl
  | x :: xs, s, l => foldl_recordPresent_loading h xs (recordPresent h s x) l

/-- A list of visits, each of which records some functions and makes some loads. -/
theorem foldl_visits {α : Type} (h : PciHost) (f : α → List Bdf) (l : α → List PciRead) :
    ∀ (as : List α) (s : Pci),
      as.foldl (fun s a => ((f a).foldl (recordPresent h) s).loading (l a)) s
        = ((as.flatMap f).foldl (recordPresent h) s).loading (as.flatMap l)
  | [], s => s.loading_nil.symm
  | a :: as, s => by
    rw [List.foldl_cons, foldl_visits h f l as, List.flatMap_cons, List.flatMap_cons,
      List.foldl_append, foldl_recordPresent_loading, Pci.loading_loading]

/-! ## The loops -/

theorem present_zeroth (hd : device.toNat < 32) :
    h.config.Present ⟨bus, device, 0⟩ ↔ h.config.vendorId ⟨bus, device, 0⟩ ≠ 0xFFFF := by
  have hzero : (0 : BitVec 8).toNat < 8 := by decide
  exact ⟨fun hp => hp.2.2.1, fun hv => ⟨hd, hzero, hv, fun hne => absurd rfl hne⟩⟩

/-- The other functions of a device. -/
theorem present_succ (hd : device.toNat < 32) (hv : h.config.vendorId ⟨bus, device, 0⟩ ≠ 0xFFFF)
    (hk : 1 ≤ k) (hk' : k < 8) : h.config.Present ⟨bus, device, BitVec.ofNat 8 k⟩ ↔
      h.config.headerType ⟨bus, device, 0⟩ &&& 0x80 ≠ 0 ∧
        h.config.vendorId ⟨bus, device, BitVec.ofNat 8 k⟩ ≠ 0xFFFF := by
  have hnat : (BitVec.ofNat 8 k).toNat = k := toNat_ofNat_8 (by omega)
  constructor
  · intro hp
    refine hp.2.2.2 fun h0 => ?_
    rw [show BitVec.ofNat 8 k = 0#8 from h0, BitVec.toNat_zero] at hnat
    omega
  · intro hne
    exact ⟨hd, by rw [hnat]; exact hk', hv, fun _ => hne⟩

/-- The widened header type has the same bit. -/
theorem setWidth_and_bit7 (v : BitVec 8) : v.setWidth 16 &&& 0x80 ≠ 0 ↔ v &&& 0x80 ≠ 0 := by
  revert v
  decide

theorem presentOn_eq_nil (hv : h.config.vendorId ⟨bus, device, 0⟩ = 0xFFFF) :
    h.config.presentOn bus device = [] := by
  rw [List.eq_nil_iff_forall_not_mem]
  intro x hx
  obtain ⟨rfl, rfl, hpresent⟩ := mem_presentOn_iff.mp hx
  exact hpresent.2.2.1 hv

/-- A device with one function. -/
theorem presentOn_single (hd : device.toNat < 32) (hv : h.config.vendorId ⟨bus, device, 0⟩ ≠ 0xFFFF)
    (hsingle : ¬ h.config.headerType ⟨bus, device, 0⟩ &&& 0x80 ≠ 0) :
    h.config.presentOn bus device = [⟨bus, device, 0⟩] := by
  have hlist : List.range 8 = 0 :: List.range' 1 7 := by decide
  have hzeroth : h.config.Present ⟨bus, device, BitVec.ofNat 8 0⟩ := (present_zeroth hd).mpr hv
  rw [ConfigSpace.presentOn, hlist, List.map_cons, List.filter_cons_of_pos (by simpa using hzeroth)]
  refine congrArg _ (List.filter_eq_nil_iff.mpr fun x hx => ?_)
  obtain ⟨k, hk, rfl⟩ := List.mem_map.mp hx
  rw [List.mem_range'_1] at hk
  rw [decide_eq_true_eq, present_succ hd hv hk.1 (by omega)]
  exact fun hpresent => hsingle hpresent.1

/-- A device with several functions. -/
theorem presentOn_multi (hd : device.toNat < 32) (hv : h.config.vendorId ⟨bus, device, 0⟩ ≠ 0xFFFF)
    (hmulti : h.config.headerType ⟨bus, device, 0⟩ &&& 0x80 ≠ 0) :
    h.config.presentOn bus device = ⟨bus, device, 0⟩ :: (List.range' 1 7).flatMap fun k =>
      if h.config.vendorId ⟨bus, device, BitVec.ofNat 8 k⟩ ≠ 0xFFFF then
        [⟨bus, device, BitVec.ofNat 8 k⟩] else [] := by
  have hlist : List.range 8 = 0 :: List.range' 1 7 := by decide
  have hzeroth : h.config.Present ⟨bus, device, BitVec.ofNat 8 0⟩ := (present_zeroth hd).mpr hv
  rw [ConfigSpace.presentOn, hlist, List.map_cons, List.filter_cons_of_pos (by simpa using hzeroth),
    List.map_eq_flatMap, List.filter_flatMap]
  refine congrArg _ (List.flatMap_congr fun k hk => ?_)
  rw [List.mem_range'_1] at hk
  have hiff := present_succ hd hv hk.1 (by omega : k < 8)
  rw [List.filter_singleton, Bool.cond_decide]
  exact if_congr (hiff.trans (and_iff_right hmulti)) rfl rfl

/-- One of the other functions of a device. -/
theorem checkSucc_eq (h : PciHost) (bus device function : BitVec 8) (s : Pci) :
    h.checkSucc bus device ((h.pciMmReadHeaderType bus device 0).value.setWidth 16) function s
      = some (((if h.config.vendorId ⟨bus, device, function⟩ ≠ 0xFFFF then
          [(⟨bus, device, function⟩ : Bdf)] else []).foldl (recordPresent h) s).loading
            (h.functionReads ⟨bus, device, function⟩)) := by
  have hvendor := pciMmReadVendorId_eq (h := h) ⟨bus, device, function⟩
  simp only [PciHost.checkSucc, PciHost.functionReads]
  rw [after_vendorId, hvendor]
  split
  · refine congrArg some ((recordFunction_eq h _ ⟨bus, device, function⟩).trans ?_)
    rw [recordPresent_loading, Pci.loading_loading]
    rfl
  · rfl

/-- **One device**: its functions that are present are recorded. -/
theorem checkDevice_eq_foldl (h : PciHost) (bus : BitVec 8) (hd : device.toNat < 32) (s : Pci) :
    h.checkDevice bus device s = some
      (((h.config.presentOn bus device).foldl (recordPresent h) s).loading
        (h.deviceReads bus device)) := by
  have hvendor := pciMmReadVendorId_eq (h := h) ⟨bus, device, 0⟩
  have hheader := pciMmReadHeaderType_eq (h := h) ⟨bus, device, 0⟩
  obtain ⟨s₂, hs₂⟩ : ∃ s₂, s₂ = s.loading [h.load ⟨bus, device, 0⟩ 0x0 2, h.load ⟨bus, device, 0⟩ 0xC 4] :=
    ⟨_, rfl⟩
  have hread : (s.after (h.pciMmReadVendorId bus device 0)).after (h.pciMmReadHeaderType bus device 0)
      = s₂ := by
    rw [after_vendorId, after_headerType, Pci.loading_loading, hs₂, List.singleton_append]
  have hzeroth : h.checkFunction bus device 0 ((h.pciMmReadHeaderType bus device 0).value.setWidth 16) s₂
      = (recordPresent h s₂ ⟨bus, device, 0⟩).loading (h.classReads ⟨bus, device, 0⟩) :=
    recordFunction_eq h s₂ ⟨bus, device, 0⟩
  by_cases hv : h.config.vendorId ⟨bus, device, 0⟩ = 0xFFFF
  · rw [presentOn_eq_nil hv, PciHost.checkDevice, if_pos (hvendor.trans hv), PciHost.deviceReads,
      if_pos hv]
    rfl
  rw [PciHost.checkDevice, if_neg (fun hv' => hv (hvendor.symm.trans hv')), PciHost.deviceReads,
    if_neg hv]
  dsimp only
  rw [hread, hzeroth]
  by_cases hmulti : h.config.headerType ⟨bus, device, 0⟩ &&& 0x80 ≠ 0
  · have hbit : (h.pciMmReadHeaderType bus device 0).value &&& 0x80 ≠ 0 := hheader ▸ hmulti
    rw [if_pos ((setWidth_and_bit7 _).mpr hbit), if_pos hmulti]
    refine (forLoop_eq_foldl (by decide) (fun function s _ => checkSucc_eq h bus device function s)
      (by decide) _).trans (congrArg some ?_)
    rw [foldl_visits h (fun k => if h.config.vendorId ⟨bus, device, BitVec.ofNat 8 k⟩ ≠ 0xFFFF then
        [(⟨bus, device, BitVec.ofNat 8 k⟩ : Bdf)] else [])
      fun k => h.functionReads ⟨bus, device, BitVec.ofNat 8 k⟩]
    rw [presentOn_multi hd hv hmulti, List.foldl_cons, hs₂, recordPresent_loading, Pci.loading_loading,
      foldl_recordPresent_loading, Pci.loading_loading]
    rfl
  · have hbit : ¬ (h.pciMmReadHeaderType bus device 0).value &&& 0x80 ≠ 0 := hheader ▸ hmulti
    rw [if_neg (fun hb => hbit ((setWidth_and_bit7 _).mp hb)), if_neg hmulti, presentOn_single hd hv hmulti, List.foldl_cons, List.foldl_nil, hs₂, recordPresent_loading,
      Pci.loading_loading, List.append_nil]
    rfl

/-- A counter of 16 bits that is cut to 8. -/
theorem setWidth_ofNat_16 (b : Nat) : (BitVec.ofNat 16 b).setWidth 8 = BitVec.ofNat 8 b := by
  refine BitVec.eq_of_toNat_eq ?_
  rw [BitVec.toNat_setWidth, BitVec.toNat_ofNat, BitVec.toNat_ofNat]
  omega

/-- One bus. -/
theorem forLoop_checkDevice (h : PciHost) (bus : BitVec 8) (s : Pci) :
    forLoop 32 (0 : BitVec 8) (fun device s => h.checkDevice bus device s) s = some
      ((((List.range 32).flatMap fun d => h.config.presentOn bus (BitVec.ofNat 8 d)).foldl
        (recordPresent h) s).loading
          ((List.range 32).flatMap fun d => h.deviceReads bus (BitVec.ofNat 8 d))) := by
  rw [← foldl_visits, List.range_eq_range']
  exact forLoop_eq_foldl (by decide) (fun device s hd => checkDevice_eq_foldl h bus hd s) (by decide) s

/-- **The scan** records the functions that are present, in their order, and makes the loads of
`scanReads`. -/
theorem pciInit_eq_foldl (h : PciHost) (s : Pci) :
    h.pciInit s = some ((h.config.present.foldl (recordPresent h) s).loading h.scanReads) := by
  have hbuses : h.pciInit s = some ((List.range' 0 256).foldl (fun s b =>
      ((((List.range 32).flatMap fun d => h.config.presentOn ((BitVec.ofNat 16 b).setWidth 8)
        (BitVec.ofNat 8 d)).foldl (recordPresent h) s).loading
          ((List.range 32).flatMap fun d => h.deviceReads ((BitVec.ofNat 16 b).setWidth 8)
            (BitVec.ofNat 8 d)))) s) :=
    forLoop_eq_foldl (g := fun s (bus : BitVec 16) =>
      (((List.range 32).flatMap fun d => h.config.presentOn (bus.setWidth 8)
        (BitVec.ofNat 8 d)).foldl (recordPresent h) s).loading
          ((List.range 32).flatMap fun d => h.deviceReads (bus.setWidth 8) (BitVec.ofNat 8 d)))
      (by decide) (fun bus s _ => forLoop_checkDevice h (bus.setWidth 8) s) (by decide) s
  rw [hbuses, ConfigSpace.present, PciHost.scanReads, ← foldl_visits, ← List.range_eq_range']
  refine congrArg some (List.foldl_ext _ _ _ fun s b _ => ?_)
  rw [setWidth_ofNat_16]

/-! ## The table -/

/-- The pointers that `malloc` returns for the first `n` records: it succeeds, and the records are
apart. -/
structure PciHost.Allocates (h : PciHost) (n : Nat) : Prop where
  succeeds : ∀ k < n, h.malloc k ≠ 0
  apart : ∀ i j, i < j → j < n → h.malloc i + sizeofPciDevice ≤ h.malloc j ∨
    h.malloc j + sizeofPciDevice ≤ h.malloc i

theorem PciHost.Allocates.mono (ha : h.Allocates n) (hk : k ≤ n) : h.Allocates k :=
  ⟨fun i hi => ha.succeeds i (hi.trans_le hk), fun i j hij hj => ha.apart i j hij (hj.trans_le hk)⟩

theorem PciHost.Allocates.ne (ha : h.Allocates n) (hij : i < j) (hj : j < n) :
    h.malloc i ≠ h.malloc j := by
  have hsize : sizeofPciDevice = 32 := rfl
  have := ha.apart i j hij hj
  omega

/-- The table, after recording the functions `xs` into an empty one. -/
structure RecordedIn (h : PciHost) (xs : List Bdf) (s : Pci) : Prop where
  mallocs : s.mallocs = xs.length
  count : s.pciDeviceCnt = BitVec.ofNat 8 xs.length
  extent : s.pciDevices.extent = min xs.length 256
  entries : xs.length ≤ 256 → ∀ i < xs.length, s.pciDevices.data i = h.malloc i
  devices : h.Allocates xs.length → ∀ i (hi : i < xs.length), s.devices (h.malloc i)
    = h.deviceOf xs[i]

theorem recordedIn_boot (h : PciHost) (devices : Nat → PciDevice) :
    RecordedIn h [] (Pci.boot devices) :=
  ⟨rfl, rfl, rfl, fun _ _ hi => absurd hi (Nat.not_lt_zero _),
    fun _ _ hi => absurd hi (Nat.not_lt_zero _)⟩

/-- **One more function.** -/
theorem RecordedIn.step (hs : RecordedIn h xs s) (x : Bdf) :
    RecordedIn h (xs ++ [x]) (recordPresent h s x) := by
  have hlen : (xs ++ [x]).length = xs.length + 1 := by simp
  constructor
  case mallocs => rw [hlen, ← hs.mallocs]; rfl
  case count =>
    rw [hlen, BitVec.ofNat_add, ← hs.count]
    rfl
  case extent =>
    show max s.pciDevices.extent (s.pciDeviceCnt.toNat + 1) = _
    rw [hs.extent, hs.count, hlen, BitVec.toNat_ofNat]
    omega
  case entries =>
    intro hle i hi
    rw [hlen] at hle hi
    show (s.pciDevices.write s.pciDeviceCnt.toNat (h.malloc s.mallocs)).data i = _
    rw [hs.count, toNat_ofNat_8 (by omega), hs.mallocs]
    by_cases hlast : i = xs.length
    · rw [hlast, data_write_same]
    · rw [data_write_other hlast]
      exact hs.entries (by omega) i (by omega)
  case devices =>
    intro ha i hi
    rw [hlen] at ha
    show Function.update s.devices (h.malloc s.mallocs) (h.deviceOf x) (h.malloc i) = _
    rw [hs.mallocs]
    by_cases hlast : i = xs.length
    · subst hlast
      rw [Function.update_self, List.getElem_concat_length rfl]
    · have hlt : i < xs.length := by omega
      rw [Function.update_of_ne (ha.ne hlt (Nat.lt_succ_self _)), List.getElem_append_left hlt]
      exact hs.devices (ha.mono (Nat.le_succ _)) i hlt

/-- **What the scan leaves.** -/
theorem pciInit_recorded (h : PciHost) (devices : Nat → PciDevice) :
    ∃ s, h.pciInit (Pci.boot devices) = some s ∧ RecordedIn h h.config.present s := by
  have hrun := foldl_append_invariant (RecordedIn h) (fun _ _ x hs => hs.step x) h.config.present
    (recordedIn_boot h devices)
  rw [List.nil_append] at hrun
  exact ⟨_, pciInit_eq_foldl h _, ⟨hrun.mallocs, hrun.count, hrun.extent, hrun.entries, hrun.devices⟩⟩

/-! ## The search -/

/-- `p` is the first entry with the class, or 0 if there is none. -/
def FindsFirst (classCode subclass : BitVec 8) (s : Pci) (p : Nat) : Prop :=
  (p = 0 ∧ ∀ i < s.pciDeviceCnt.toNat,
    ¬ (s.devices (s.pciDevices.data i)).HasClass classCode subclass) ∨
  ∃ i < s.pciDeviceCnt.toNat, p = s.pciDevices.data i ∧
    (s.devices (s.pciDevices.data i)).HasClass classCode subclass ∧
    ∀ j < i, ¬ (s.devices (s.pciDevices.data j)).HasClass classCode subclass

/-- One entry. -/
theorem findBody_cases (classCode subclass : BitVec 8) (s : Pci) (i : Nat) :
    (i < s.pciDeviceCnt.toNat ∧ (s.devices (s.pciDevices.data i)).HasClass classCode subclass ∧
      findBody classCode subclass s i = .inr (s.pciDevices.data i)) ∨
    (i < s.pciDeviceCnt.toNat ∧ ¬ (s.devices (s.pciDevices.data i)).HasClass classCode subclass ∧
      findBody classCode subclass s i = .inl (i + 1)) ∨
    (s.pciDeviceCnt.toNat ≤ i ∧ findBody classCode subclass s i = .inr 0) := by
  by_cases hlt : i < s.pciDeviceCnt.toNat
  · by_cases hclass : (s.devices (s.pciDevices.data i)).HasClass classCode subclass
    · exact Or.inl ⟨hlt, hclass, by rw [findBody, if_pos hlt]; exact if_pos hclass⟩
    · exact Or.inr (Or.inl ⟨hlt, hclass, by rw [findBody, if_pos hlt]; exact if_neg hclass⟩)
  · exact Or.inr (Or.inr ⟨Nat.le_of_not_lt hlt, if_neg hlt⟩)

theorem loop_findBody (classCode subclass : BitVec 8) (s : Pci) {n : Nat}
    (hn : s.pciDeviceCnt.toNat < n) : ∃ p, loop (findBody classCode subclass s) n 0 = some p ∧
      FindsFirst classCode subclass s p := by
  refine loop_of_measure (fun i => i ≤ s.pciDeviceCnt.toNat ∧
      ∀ j < i, ¬ (s.devices (s.pciDevices.data j)).HasClass classCode subclass)
    (fun i => s.pciDeviceCnt.toNat + 1 - i) _ ?_ ?_ n 0 ⟨Nat.zero_le _, ?_⟩ hn
  · rintro i k ⟨-, hno⟩ hbody
    rcases findBody_cases classCode subclass s i with ⟨-, -, h⟩ | ⟨hlt, hclass, h⟩ | ⟨-, h⟩
    · rw [h] at hbody
      cases hbody
    · rw [h] at hbody
      cases hbody
      refine ⟨⟨hlt, fun j hj => ?_⟩, by omega⟩
      rcases Nat.lt_succ_iff_lt_or_eq.mp hj with hj | rfl
      · exact hno j hj
      · exact hclass
    · rw [h] at hbody
      cases hbody
  · rintro i p ⟨hle, hno⟩ hbody
    refine ⟨?_, by omega⟩
    rcases findBody_cases classCode subclass s i with ⟨hlt, hclass, h⟩ | ⟨-, -, h⟩ | ⟨hge, h⟩
    · rw [h] at hbody
      cases hbody
      exact Or.inr ⟨i, hlt, rfl, hclass, hno⟩
    · rw [h] at hbody
      cases hbody
    · rw [h] at hbody
      cases hbody
      exact Or.inl ⟨rfl, fun j hj => hno j (by omega)⟩
  · exact fun j hj => absurd hj (Nat.not_lt_zero _)

/-- **`pci_find_device` finds the first entry.** -/
theorem pciFindDevice_spec (classCode subclass : BitVec 8) (s : Pci) :
    ∃ p, pciFindDevice classCode subclass s = some p ∧ FindsFirst classCode subclass s p :=
  loop_findBody classCode subclass s (Nat.lt_of_lt_of_le s.pciDeviceCnt.isLt (by decide))

/-! ## Both -/

/-- The number of the function that a record describes. -/
def PciDevice.bdf (dev : PciDevice) : Bdf := ⟨dev.bus, dev.device, dev.function⟩

/-- The records that the table lists. -/
def Pci.listed (s : Pci) : List PciDevice :=
  (List.range s.pciDeviceCnt.toNat).map fun i => s.devices (s.pciDevices.data i)

/-- No more than 256 functions fill the table in order. -/
theorem RecordedIn.count_toNat (hs : RecordedIn h xs s) (hlen : xs.length < 256) :
    s.pciDeviceCnt.toNat = xs.length := by
  rw [hs.count, toNat_ofNat_8 hlen]

theorem RecordedIn.entry (hs : RecordedIn h xs s) (hlen : xs.length < 256)
    (ha : h.Allocates xs.length) (hi : i < xs.length) :
    s.devices (s.pciDevices.data i) = h.deviceOf xs[i] := by
  rw [hs.entries hlen.le i hi, hs.devices ha i hi]

theorem RecordedIn.listed_eq (hs : RecordedIn h xs s) (hlen : xs.length < 256)
    (ha : h.Allocates xs.length) : s.listed = xs.map h.deviceOf := by
  refine List.ext_getElem ?_ fun i h1 h2 => ?_
  · rw [Pci.listed, List.length_map, List.length_range, List.length_map, hs.count_toNat hlen]
  · rw [List.length_map] at h2
    simp only [Pci.listed, List.getElem_map, List.getElem_range]
    exact hs.entry hlen ha h2

theorem deviceOf_hasClass (h : PciHost) (x : Bdf) (classCode subclass : BitVec 8) :
    (h.deviceOf x).HasClass classCode subclass ↔
      h.config.classCode x = classCode ∧ h.config.subClassCode x = subclass := by
  rw [← pciMmReadClassCode_eq, ← pciMmReadSubclassCode_eq]
  exact Iff.rfl

/-- The search fails exactly if no recorded function has the class. -/
theorem RecordedIn.finds_zero_iff (hs : RecordedIn h xs s) (hlen : xs.length < 256)
    (ha : h.Allocates xs.length) {classCode subclass : BitVec 8} {p : Nat}
    (hp : FindsFirst classCode subclass s p) : p = 0 ↔ ∀ x ∈ xs,
      ¬ (h.config.classCode x = classCode ∧ h.config.subClassCode x = subclass) := by
  have hcount := hs.count_toNat hlen
  rcases hp with ⟨rfl, hno⟩ | ⟨i, hi, rfl, hclass, -⟩
  · refine ⟨fun _ x hx => ?_, fun _ => rfl⟩
    obtain ⟨i, hi, rfl⟩ := List.getElem_of_mem hx
    have hi' := hno i (by omega)
    rwa [hs.entry hlen ha hi, deviceOf_hasClass] at hi'
  · have hi' : i < xs.length := by omega
    rw [hs.entry hlen ha hi', deviceOf_hasClass] at hclass
    refine ⟨fun h0 => ?_, fun hno => absurd hclass (hno _ (List.getElem_mem hi'))⟩
    rw [hs.entries hlen.le i hi'] at h0
    exact absurd h0 (ha.succeeds i hi')

/--
**The enumeration is exact.**

For every configuration space with at most 32 functions that are present, wherever it is mapped, if
`malloc` succeeds for them with records that are apart: the count is their number, and the table
lists each of them once, in the order of buses, devices and functions. The search for a class returns
the first entry with that class and subclass, and `NULL` exactly if there is none.
-/
theorem pci_enumeration_exact (h : PciHost) (devices : Nat → PciDevice)
    (hmax : h.config.present.length ≤ 32) (hmalloc : h.Allocates h.config.present.length) :
    ∃ s, h.pciInit (Pci.boot devices) = some s ∧
      s.pciDeviceCnt.toNat = h.config.present.length ∧
      s.listed.map PciDevice.bdf = h.config.present ∧
      ((∀ x, x ∈ h.config.present ↔ h.config.Present x) ∧ h.config.present.Pairwise Bdf.Before) ∧
      ∀ classCode subclass, ∃ p, pciFindDevice classCode subclass s = some p ∧
        FindsFirst classCode subclass s p ∧
        (p = 0 ↔ ∀ x ∈ h.config.present,
          ¬ (h.config.classCode x = classCode ∧ h.config.subClassCode x = subclass)) := by
  obtain ⟨s, hinit, hs⟩ := pciInit_recorded h devices
  have hcount := hs.count_toNat (by omega)
  have hlisted := hs.listed_eq (by omega) hmalloc
  refine ⟨s, hinit, hcount, ?_, ⟨fun x => mem_present_iff, present_pairwise⟩, fun c sc => ?_⟩
  · rw [hlisted, List.map_map]
    exact List.map_id _
  · obtain ⟨p, hp, hfirst⟩ := pciFindDevice_spec c sc s
    exact ⟨p, hp, hfirst, hs.finds_zero_iff (by omega) hmalloc hfirst⟩

/-- `n` devices on bus 0 with 8 functions each. The functions 1 to 7 have their own header type. -/
def sampleConfig (n : Nat) (headerType : BitVec 8) : ConfigSpace := fun x r =>
  if x.bus = 0 ∧ x.device.toNat < n then
    if r = 0 then 0x86
    else if r = 1 then 0x80
    else if r = 0xE then if x.function = 0 then 0x80 else headerType
    else 0
  else 0xFF

/-- It is mapped at `0xB0000000`, and the records are 64 bytes apart. -/
def samplePciHost (n : Nat) (headerType : BitVec 8) : PciHost :=
  (sampleConfig n headerType).mappedAt ⟨0xB0000000, 0, 0, 255⟩ 0xffff800000000000
    fun k => 0xffff800000200000 + 64 * k

theorem samplePciHost_present (n : Nat) (headerType : BitVec 8) :
    (samplePciHost n headerType).config.present = (sampleConfig n headerType).present :=
  present_mappedAt _ _ _ _

theorem samplePciHost_allocates (n k : Nat) (headerType : BitVec 8) :
    (samplePciHost n headerType).Allocates k := by
  have hsize : sizeofPciDevice = 32 := rfl
  refine ⟨fun i _ => ?_, fun i j hij _ => ?_⟩
  · show 0xffff800000200000 + 64 * i ≠ 0
    omega
  · show 0xffff800000200000 + 64 * i + sizeofPciDevice ≤ 0xffff800000200000 + 64 * j ∨ _
    omega

/-- One device has 8 functions. -/
theorem sampleConfig_length (headerType : BitVec 8) : (sampleConfig 1 headerType).present.length ≤ 8 := by
  have hsub : (sampleConfig 1 headerType).present
      ⊆ (List.range 8).map fun k => ⟨0, 0, BitVec.ofNat 8 k⟩ := by
    intro x hx
    obtain ⟨-, hf, hvendor, -⟩ := mem_present_iff.mp hx
    refine List.mem_map.mpr ⟨x.function.toNat, List.mem_range.mpr hf, ?_⟩
    by_cases hon : x.bus = 0 ∧ x.device.toNat < 1
    · have hdev : x.device = 0 := BitVec.eq_of_toNat_eq (show x.device.toNat = 0 by omega)
      rw [BitVec.ofNat_toNat, BitVec.setWidth_eq]
      cases x
      simp only at hon hdev
      rw [hon.1, hdev]
    · -- no vendor anywhere else
      have hbyte : sampleConfig 1 headerType x.zeroth = fun _ => 0xFF := funext fun r => if_neg hon
      refine absurd ?_ hvendor
      rw [ConfigSpace.vendorId, hbyte]
      decide
  have hle := (List.subperm_of_subset present_nodup hsub).length_le
  rwa [List.length_map, List.length_range] at hle

theorem samplePciHost_length (headerType : BitVec 8) :
    (samplePciHost 1 headerType).config.present.length ≤ 32 := by
  rw [samplePciHost_present]
  exact (sampleConfig_length headerType).trans (by decide)

theorem pci_enumeration_sample :
    ∃ s, (samplePciHost 1 0x80).pciInit (Pci.boot fun _ => (samplePciHost 1 0x80).deviceOf ⟨0, 0, 0⟩)
        = some s ∧
      s.pciDeviceCnt.toNat = (samplePciHost 1 0x80).config.present.length ∧
      s.listed.map PciDevice.bdf = (samplePciHost 1 0x80).config.present := by
  obtain ⟨s, h1, h2, h3, -⟩ := pci_enumeration_exact (samplePciHost 1 0x80) _
    (samplePciHost_length 0x80) (samplePciHost_allocates 1 _ 0x80)
  exact ⟨s, h1, h2, h3⟩

/-! ## The size of the table -/

/-- The scan has kept to the table: no store was behind its end, the count has not wrapped, and every
entry that `pci_find_device` visits is a pointer that the scan has stored. -/
structure TableFits (h : PciHost) (s : Pci) : Prop where
  inside : s.pciDevices.extent ≤ pciDevicesLen
  count : s.pciDeviceCnt.toNat = s.mallocs
  written : ∀ i < s.pciDeviceCnt.toNat, ∃ k < s.mallocs, s.pciDevices.data i = h.malloc k

theorem RecordedIn.tableFits_iff (hs : RecordedIn h xs s) :
    TableFits h s ↔ xs.length ≤ pciDevicesLen := by
  have hlen : pciDevicesLen = 32 := rfl
  constructor
  · rintro ⟨hinside, -, -⟩
    rw [hs.extent] at hinside
    omega
  · intro hle
    have hcount := hs.count_toNat (by omega)
    refine ⟨?_, hcount.trans hs.mallocs.symm, fun i hi => ?_⟩
    · rw [hs.extent]
      omega
    · rw [hcount] at hi
      exact ⟨i, by rw [hs.mallocs]; exact hi, hs.entries (by omega) i hi⟩

/--
**The table is large enough for 32 functions.**

For every configuration space, wherever it is mapped, and whatever `malloc` returns: the scan ends,
and it has kept to the table exactly if at most 32 functions are present.
-/
theorem pci_table_fits_iff (h : PciHost) (devices : Nat → PciDevice) :
    ∃ s, h.pciInit (Pci.boot devices) = some s ∧
      (TableFits h s ↔ h.config.present.length ≤ 32) := by
  obtain ⟨s, hinit, hs⟩ := pciInit_recorded h devices
  exact ⟨s, hinit, hs.tableFits_iff⟩

/-- Five devices with 8 functions. -/
theorem sampleConfig_long : 40 ≤ (sampleConfig 5 0x80).present.length := by
  have hnodup : ((List.range 40).map fun k =>
      (⟨0, BitVec.ofNat 8 (k / 8), BitVec.ofNat 8 (k % 8)⟩ : Bdf)).Nodup := by
    decide +kernel
  have hpresent : ∀ k ∈ List.range 40, (sampleConfig 5 0x80).Present
      ⟨0, BitVec.ofNat 8 (k / 8), BitVec.ofNat 8 (k % 8)⟩ := by
    decide +kernel
  have hsub := List.subperm_of_subset hnodup fun x hx => by
    obtain ⟨k, hk, rfl⟩ := List.mem_map.mp hx
    exact mem_present_iff.mpr (hpresent k hk)
  have hle := hsub.length_le
  rwa [List.length_map, List.length_range] at hle

/-- They do not fit in the table. -/
theorem pci_table_overruns_sample : ∃ s, (samplePciHost 5 0x80).pciInit
      (Pci.boot fun _ => (samplePciHost 5 0x80).deviceOf ⟨0, 0, 0⟩) = some s ∧
    pciDevicesLen < s.pciDevices.extent ∧ ¬ TableFits (samplePciHost 5 0x80) s := by
  have hlong := sampleConfig_long
  rw [← samplePciHost_present] at hlong
  obtain ⟨s, hinit, hs⟩ := pciInit_recorded (samplePciHost 5 0x80)
    fun _ => (samplePciHost 5 0x80).deviceOf ⟨0, 0, 0⟩
  have hlen : pciDevicesLen = 32 := rfl
  refine ⟨s, hinit, ?_, fun hfits => ?_⟩
  · rw [hs.extent]
    omega
  · have := hs.tableFits_iff.mp hfits
    omega

end BloreOs
