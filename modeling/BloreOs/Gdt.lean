import BloreOs.Basic
import BloreOs.Lib.ByteMemory

/-!
# The global descriptor table (`gdt.c`)

`init_gdt` fills three descriptors of 8 bytes, has the CPU load the table, and reloads the segment
registers from it. What the CPU makes of the bytes is modelled next to what the functions write:

* `segmentAt_setGdtEntry` — the fields of a descriptor, which lie scattered in its bytes, are read
  back,
* `initGdt_loads` — the CPU accepts the table and the selectors.

The log output of `kprintf` is left out, and the two words that `_gdt_reload` pushes for `lretq`.
-/

namespace BloreOs

/-! ## Constants of `gdt.h` -/

def gdtEntries : Nat := 3

def segmentPresent : BitVec 8 := 0x80

def segmentExecutable : BitVec 8 := 0x08

def segmentReadable : BitVec 8 := 0x02

def segmentWritable : BitVec 8 := 0x02

def segmentGranularityByte : BitVec 8 := 0x00

def segmentSize16Bit : BitVec 8 := 0x00

def segmentLongMode : BitVec 8 := 0x20

def descriptorPrivilege0 : BitVec 8 := 0x00

def descriptorTypeCode : BitVec 8 := 0x10

def descriptorTypeData : BitVec 8 := 0x10

/-! ## The CPU -/

/-- `gdtr` or `idtr`. -/
structure TableRegister where
  limit : Nat
  base : Nat
deriving DecidableEq

/-- The part of the CPU that deals with segments and interrupts, and memory. -/
structure Cpu where
  mem : Memory
  gdtr : TableRegister
  idtr : TableRegister
  cs : BitVec 16
  ds : BitVec 16
  es : BitVec 16
  fs : BitVec 16
  gs : BitVec 16
  ss : BitVec 16

/-- What the CPU reads out of a descriptor. -/
structure Segment where
  base : Nat
  limit : Nat
  access : BitVec 8
  /-- From bit 3 down: granularity, 32-bit, 64-bit, available. -/
  flags : BitVec 4
deriving DecidableEq

/-- The descriptor at an address. The base and the limit are in three and in two pieces. -/
def segmentAt (m : Memory) (p : Nat) : Segment where
  base := m.load (p + 2) 3 + 2 ^ 24 * m.load (p + 7) 1
  limit := m.load p 2 + 2 ^ 16 * (m.load (p + 6) 1 % 16)
  access := BitVec.ofNat 8 (m.load (p + 5) 1)
  flags := BitVec.ofNat 4 (m.load (p + 6) 1 / 16)

namespace Segment

/-- Present, of ring 0, and not a system segment. -/
def kernel (s : Segment) : Bool :=
  s.access.getLsbD 7 && !s.access.getLsbD 6 && !s.access.getLsbD 5 && s.access.getLsbD 4

/-- A 64-bit code segment: its bit for 32 bits has to be 0. -/
def code64 (s : Segment) : Bool :=
  s.kernel && s.access.getLsbD 3 && s.flags.getLsbD 1 && !s.flags.getLsbD 2

/-- A data segment that can be written to. -/
def data (s : Segment) : Bool := s.kernel && !s.access.getLsbD 3 && s.access.getLsbD 1

end Segment

namespace Cpu

/-- The descriptor of a selector in the GDT, if there is one. -/
def segment (c : Cpu) (sel : BitVec 16) : Option Segment :=
  if sel.toNat / 8 = 0 ∨ sel.getLsbD 2 ∨ c.gdtr.limit < sel.toNat / 8 * 8 + 7 then none
  else some (segmentAt c.mem (c.gdtr.base + 8 * (sel.toNat / 8)))

/-- Load `%cs`, as `lretq` does. `none` is a fault. -/
def loadCs (c : Cpu) (sel : BitVec 16) : Option Cpu :=
  (c.segment sel).bind fun s => if s.code64 then some { c with cs := sel } else none

/-- Load the data segment registers and `%ss`. -/
def loadData (c : Cpu) (sel : BitVec 16) : Option Cpu :=
  (c.segment sel).bind fun s =>
    if s.data then some { c with ds := sel, es := sel, fs := sel, gs := sel, ss := sel } else none

/-- `lgdt` of a `struct gdt_ptr` -/
def lgdt (c : Cpu) (p : Nat) : Cpu := { c with gdtr := ⟨c.mem.load p 2, c.mem.load (p + 2) 8⟩ }

end Cpu

/-! ## The functions -/

/-- `set_gdt_entry` -/
def setGdtEntry (gdt num : Nat) (base limit : BitVec 32) (access gran : BitVec 8) (m : Memory) :
    Memory :=
  let p := gdt + 8 * num
  let m := m.store (p + 2) 2 (base &&& 0xFFFF).toNat
  let m := m.store (p + 4) 1 ((base >>> 16) &&& 0xFF).toNat
  let m := m.store (p + 7) 1 ((base >>> 24) &&& 0xFF).toNat
  let m := m.store p 2 (limit &&& 0xFFFF).toNat
  let m := m.store (p + 6) 1 ((limit >>> 16) &&& 0x0F).toNat
  let m := m.store (p + 6) 1 (BitVec.ofNat 8 (m.load (p + 6) 1) ||| (gran &&& 0xF0)).toNat
  m.store (p + 5) 1 access.toNat

/-- `_gdt_reload` -/
def gdtReload (gdtp : Nat) (c : Cpu) : Option Cpu :=
  ((c.lgdt gdtp).loadCs 0x08).bind fun c => c.loadData 0x10

/-- What `init_gdt` writes to `gdtp` and `gdt`. -/
def writeGdt (gdt gdtp : Nat) (m : Memory) : Memory :=
  let m := m.store gdtp 2 (8 * gdtEntries - 1)
  let m := m.store (gdtp + 2) 8 gdt
  let m := setGdtEntry gdt 0 0 0 0 0 m
  let m := setGdtEntry gdt 1 0 0xFFFFFFFF (segmentPresent ||| descriptorPrivilege0 |||
    descriptorTypeCode ||| segmentExecutable ||| segmentReadable) segmentLongMode m
  setGdtEntry gdt 2 0 0xFFFFFFFF (segmentPresent ||| descriptorPrivilege0 |||
    descriptorTypeData ||| segmentWritable) (segmentGranularityByte ||| segmentSize16Bit) m

/-- `init_gdt`, with the addresses of `gdt` and `gdtp`. -/
def initGdt (gdt gdtp : Nat) (c : Cpu) : Option Cpu :=
  gdtReload gdtp { c with mem := writeGdt gdt gdtp c.mem }

/-! ## One descriptor -/

variable {gdt gdtp num : Nat} {base limit : BitVec 32} {access gran : BitVec 8} {m : Memory} {c : Cpu}

/-- The bytes of other entries, and of everything else, stay. -/
theorem setGdtEntry_other {a n : Nat} (h : a + n ≤ gdt + 8 * num ∨ gdt + 8 * num + 8 ≤ a) :
    m.SameOn (setGdtEntry gdt num base limit access gran m) a n := by
  intro i h1 h2
  simp only [setGdtEntry]
  iterate 7 rw [Memory.store_outside (by omega)]

/-- A descriptor consists of its eight bytes. -/
theorem segmentAt_congr {m' : Memory} {p : Nat} (h : m.SameOn m' p 8) : segmentAt m' p = segmentAt m p := by
  rw [segmentAt, segmentAt, h.load (by omega) (by omega), h.load (by omega) (by omega),
    h.load (by omega) (by omega), h.load (by omega) (by omega), h.load (by omega) (by omega)]

/-- The lower half of the granularity byte is the upper end of the limit. -/
theorem granularity_low (x : BitVec 32) (g : BitVec 8) :
    ((x &&& 0x0F).setWidth 8 ||| (g &&& 0xF0)).extractLsb' 0 4 = x.extractLsb' 0 4 := by
  ext i hi
  have h : i = 0 ∨ i = 1 ∨ i = 2 ∨ i = 3 := by omega
  rcases h with rfl | rfl | rfl | rfl <;> simp

theorem granularity_high (x : BitVec 32) (g : BitVec 8) :
    ((x &&& 0x0F).setWidth 8 ||| (g &&& 0xF0)).extractLsb' 4 4 = g.extractLsb' 4 4 := by
  ext i hi
  have h : i = 0 ∨ i = 1 ∨ i = 2 ∨ i = 3 := by omega
  rcases h with rfl | rfl | rfl | rfl <;> simp

/-- A field of a 32-bit value, cut out with a mask. -/
theorem toNat_mask {mask : BitVec 32} {n : Nat} (h : mask.toNat = 2 ^ n - 1) (x : BitVec 32) :
    (x &&& mask).toNat = x.toNat % 2 ^ n := by
  rw [BitVec.toNat_and, h]
  exact Nat.and_two_pow_sub_one_eq_mod _ n

/-- A field further up, which is shifted down first. -/
theorem toNat_shift_mask {mask : BitVec 32} {n : Nat} (h : mask.toNat = 2 ^ n - 1) (x : BitVec 32)
    (k : Nat) : ((x >>> k) &&& mask).toNat = x.toNat / 2 ^ k % 2 ^ n := by
  rw [toNat_mask h, BitVec.toNat_ushiftRight, Nat.shiftRight_eq_div_pow]

/--
**A descriptor is read back.** The base comes back whole, of the limit the lower 20 bits, of the
granularity the upper half.
-/
theorem segmentAt_setGdtEntry (gdt num : Nat) (base limit : BitVec 32) (access gran : BitVec 8)
    (m : Memory) : segmentAt (setGdtEntry gdt num base limit access gran m) (gdt + 8 * num) =
      ⟨base.toNat, limit.toNat % 2 ^ 20, access, gran.extractLsb' 4 4⟩ := by
  have hgran : BitVec.ofNat 8 (((limit >>> 16) &&& 0x0F).toNat % 256 ^ 1) =
      ((limit >>> 16) &&& 0x0F).setWidth 8 := by
    rw [← BitVec.ofNat_toNat]
    refine BitVec.eq_of_toNat_eq ?_
    rw [BitVec.toNat_ofNat, BitVec.toNat_ofNat]
    exact Nat.mod_mod _ (2 ^ 8)
  have hbyte : (setGdtEntry gdt num base limit access gran m).load (gdt + 8 * num + 6) 1 =
      (((limit >>> 16) &&& 0x0F).setWidth 8 ||| (gran &&& 0xF0)).toNat := by
    simp only [setGdtEntry]
    rw [Memory.load_store_disjoint (by omega), Memory.load_store_same, Memory.load_store_same, hgran]
    exact Nat.mod_eq_of_lt (BitVec.isLt _)
  have hbase0 : (setGdtEntry gdt num base limit access gran m).load (gdt + 8 * num + 2) 2 =
      base.toNat % 2 ^ 16 := by
    simp (disch := omega) only [setGdtEntry, Memory.load_store_disjoint, Memory.load_store_same]
    rw [toNat_mask (n := 16) rfl]
    exact Nat.mod_eq_of_lt (Nat.mod_lt _ (by decide))
  have hbase1 : (setGdtEntry gdt num base limit access gran m).load (gdt + 8 * num + 4) 1 =
      base.toNat / 2 ^ 16 % 2 ^ 8 := by
    simp (disch := omega) only [setGdtEntry, Memory.load_store_disjoint, Memory.load_store_same]
    rw [toNat_shift_mask (n := 8) rfl]
    exact Nat.mod_eq_of_lt (Nat.mod_lt _ (by decide))
  have hbase2 : (setGdtEntry gdt num base limit access gran m).load (gdt + 8 * num + 7) 1 =
      base.toNat / 2 ^ 24 % 2 ^ 8 := by
    simp (disch := omega) only [setGdtEntry, Memory.load_store_disjoint, Memory.load_store_same]
    rw [toNat_shift_mask (n := 8) rfl]
    exact Nat.mod_eq_of_lt (Nat.mod_lt _ (by decide))
  have hlimit : (setGdtEntry gdt num base limit access gran m).load (gdt + 8 * num) 2 =
      limit.toNat % 2 ^ 16 := by
    simp (disch := omega) only [setGdtEntry, Memory.load_store_disjoint, Memory.load_store_same]
    rw [toNat_mask (n := 16) rfl]
    exact Nat.mod_eq_of_lt (Nat.mod_lt _ (by decide))
  have haccess : (setGdtEntry gdt num base limit access gran m).load (gdt + 8 * num + 5) 1 =
      access.toNat := by
    simp (disch := omega) only [setGdtEntry, Memory.load_store_same]
    exact Nat.mod_eq_of_lt access.isLt
  simp only [segmentAt, Memory.load_add _ 2 1, hbyte, hbase0, hbase1, hbase2, hlimit, haccess]
  have hlow := congrArg BitVec.toNat (granularity_low (limit >>> 16) gran)
  have hhigh := granularity_high (limit >>> 16) gran
  congr 1
  · have hlt : base.toNat < 2 ^ 32 := base.isLt
    omega
  · simp only [BitVec.extractLsb'_toNat, BitVec.toNat_ushiftRight, Nat.shiftRight_eq_div_pow] at hlow
    omega
  · rw [BitVec.ofNat_toNat, BitVec.setWidth_eq]
  · rw [← hhigh]
    refine BitVec.eq_of_toNat_eq ?_
    rw [BitVec.toNat_ofNat, BitVec.extractLsb'_toNat, Nat.shiftRight_eq_div_pow]

/-! ## The table -/

/-- The descriptors of `init_gdt`. -/
def kernelCode : Segment := ⟨0, 2 ^ 20 - 1, 0x9A, 0x2⟩

def kernelData : Segment := ⟨0, 2 ^ 20 - 1, 0x92, 0x0⟩

/-- The state in which `init_gdt` leaves the CPU. -/
structure GdtLoaded (gdt : Nat) (c : Cpu) : Prop where
  gdtr : c.gdtr = ⟨23, gdt⟩
  cs : c.cs = 0x08
  data : c.ds = 0x10 ∧ c.es = 0x10 ∧ c.fs = 0x10 ∧ c.gs = 0x10 ∧ c.ss = 0x10
  code : segmentAt c.mem (gdt + 8) = kernelCode
  kernelData : segmentAt c.mem (gdt + 16) = kernelData

/-- It stays so while nobody writes to the table. -/
theorem GdtLoaded.of_same (h : GdtLoaded gdt c) {m' : Memory} (hm : c.mem.SameOn m' gdt 24)
    (idtr : TableRegister) : GdtLoaded gdt { c with mem := m', idtr := idtr } where
  gdtr := h.gdtr
  cs := h.cs
  data := h.data
  code := (segmentAt_congr fun i h1 h2 => hm i (by omega) (by omega)).trans h.code
  kernelData := (segmentAt_congr fun i h1 h2 => hm i (by omega) (by omega)).trans h.kernelData

/-- The only selectors are those of the two segments, with any privilege level. -/
theorem GdtLoaded.segment (h : GdtLoaded gdt c) (sel : BitVec 16) : c.segment sel =
    if sel.toNat / 8 = 1 ∧ sel.getLsbD 2 = false then some kernelCode
    else if sel.toNat / 8 = 2 ∧ sel.getLsbD 2 = false then some BloreOs.kernelData else none := by
  rw [Cpu.segment, h.gdtr]
  cases hti : sel.getLsbD 2 with
  | true => simp
  | false =>
    rcases Nat.lt_trichotomy (sel.toNat / 8) 1 with h1 | h1 | h1
    · rw [if_pos (Or.inl (by omega)), if_neg (by omega), if_neg (by omega)]
    · rw [if_neg (by simp; omega), h1, if_pos ⟨rfl, rfl⟩, h.code]
    · rcases Nat.eq_or_lt_of_le h1 with h2 | h2
      · rw [if_neg (by simp; omega), ← h2, if_neg (by omega), if_pos ⟨rfl, rfl⟩, h.kernelData]
      · rw [if_pos (Or.inr (Or.inr (by simp only; omega))), if_neg (by omega), if_neg (by omega)]

/-- The descriptors, the pointer to them, and what stays as it was. -/
theorem writeGdt_spec (hgdt : gdt < 2 ^ 64) (hapart : gdt + 24 ≤ gdtp ∨ gdtp + 10 ≤ gdt) (m : Memory) :
    segmentAt (writeGdt gdt gdtp m) (gdt + 8) = kernelCode ∧
      segmentAt (writeGdt gdt gdtp m) (gdt + 16) = kernelData ∧
      (writeGdt gdt gdtp m).load gdtp 2 = 23 ∧ (writeGdt gdt gdtp m).load (gdtp + 2) 8 = gdt ∧
      ∀ a n, (a + n ≤ gdt ∨ gdt + 24 ≤ a) → (a + n ≤ gdtp ∨ gdtp + 10 ≤ a) →
        m.SameOn (writeGdt gdt gdtp m) a n := by
  have hentries : ∀ a n, (a + n ≤ gdt ∨ gdt + 24 ≤ a) →
      ((m.store gdtp 2 (8 * gdtEntries - 1)).store (gdtp + 2) 8 gdt).SameOn (writeGdt gdt gdtp m) a n := by
    intro a n h
    simp only [writeGdt]
    refine ((setGdtEntry_other ?_).trans (setGdtEntry_other ?_)).trans (setGdtEntry_other ?_) <;> omega
  refine ⟨?_, ?_, ?_, ?_, fun a n h h' => ?_⟩
  · exact (segmentAt_congr (setGdtEntry_other (by omega))).trans (segmentAt_setGdtEntry gdt 1 ..)
  · exact segmentAt_setGdtEntry gdt 2 ..
  · rw [(hentries gdtp 2 (by omega)).load (Nat.le_refl _) (Nat.le_refl _),
      Memory.load_store_disjoint (by omega), Memory.load_store_same]
    rfl
  · rw [(hentries (gdtp + 2) 8 (by omega)).load (Nat.le_refl _) (Nat.le_refl _),
      Memory.load_store_same]
    exact Nat.mod_eq_of_lt hgdt
  · refine Memory.SameOn.trans ?_ (hentries a n h)
    exact (Memory.sameOn_store (by omega)).trans (Memory.sameOn_store (by omega))

/--
**The CPU accepts the table.** Whatever memory holds, `init_gdt` does not fault and leaves the two
segments in place, and only the bytes of `gdt` and `gdtp` change.
-/
theorem initGdt_loads (hgdt : gdt < 2 ^ 64) (hapart : gdt + 24 ≤ gdtp ∨ gdtp + 10 ≤ gdt) (c : Cpu) :
    ∃ c', initGdt gdt gdtp c = some c' ∧ GdtLoaded gdt c' ∧ c'.idtr = c.idtr ∧
      ∀ a n, (a + n ≤ gdt ∨ gdt + 24 ≤ a) → (a + n ≤ gdtp ∨ gdtp + 10 ≤ a) →
        c.mem.SameOn c'.mem a n := by
  obtain ⟨hcode, hdata, hlimit, hbase, hsame⟩ := writeGdt_spec hgdt hapart c.mem
  have hlgdt : (Cpu.mk (writeGdt gdt gdtp c.mem) c.gdtr c.idtr c.cs c.ds c.es c.fs c.gs c.ss).lgdt gdtp =
      ⟨writeGdt gdt gdtp c.mem, ⟨23, gdt⟩, c.idtr, c.cs, c.ds, c.es, c.fs, c.gs, c.ss⟩ := by
    rw [Cpu.lgdt, hlimit, hbase]
  refine ⟨⟨writeGdt gdt gdtp c.mem, ⟨23, gdt⟩, c.idtr, 0x08, 0x10, 0x10, 0x10, 0x10, 0x10⟩, ?_,
    ⟨rfl, rfl, ⟨rfl, rfl, rfl, rfl, rfl⟩, hcode, hdata⟩, rfl, hsame⟩
  have hcs : (Cpu.mk (writeGdt gdt gdtp c.mem) ⟨23, gdt⟩ c.idtr c.cs c.ds c.es c.fs c.gs c.ss).segment
      0x08 = some kernelCode := by
    rw [← hcode]
    rfl
  have hds : (Cpu.mk (writeGdt gdt gdtp c.mem) ⟨23, gdt⟩ c.idtr 0x08 c.ds c.es c.fs c.gs c.ss).segment
      0x10 = some kernelData := by
    rw [← hdata]
    rfl
  rw [initGdt, gdtReload, hlgdt, Cpu.loadCs, hcs]
  dsimp only [Option.bind_some]
  rw [if_pos (by decide), Option.bind_some, Cpu.loadData, hds, Option.bind_some, if_pos (by decide)]

end BloreOs
