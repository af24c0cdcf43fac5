import BloreOs.Gdt
import BloreOs.Mem.Pmm
import Mathlib.Logic.Function.Basic
import Mathlib.Tactic.SplitIfs

/-!
# The interrupt descriptor table (`idt.c`)

`idt_init` clears the 256 gates and sets 35 of them. `Cpu.deliver` is what the CPU does with a gate:
it checks the gate and the code segment behind its selector, and fetches the address of the handler.

* `gatesAre_set` — a gate is read back, and the other gates stay,
* `gatesAre_writeIdt`, `idtInit_spec` — the table as a whole,
* `tables_deliver` — with the GDT of `init_gdt`, which handler a vector reaches.

The log output of `kprintf` is left out. The handlers are known by their addresses.
-/

namespace BloreOs

/-! ## Constants -/

/-- `PRIVELEGE_RING0`: present, of ring 0, an interrupt gate. -/
def privelegeRing0 : BitVec 8 := 0x8E

def timerVector : Nat := 32

def keyboardVector : Nat := 33

def lapictmrVector : Nat := 35

/-! ## The CPU -/

/-- What the CPU reads out of a `struct idt_entry`. -/
structure Gate where
  offset : Nat
  selector : BitVec 16
  ist : Nat
  flags : BitVec 8
deriving DecidableEq

/-- The gate at an address. The address of the handler is in three pieces. -/
def gateAt (m : Memory) (p : Nat) : Gate where
  offset := m.load p 2 + 2 ^ 16 * (m.load (p + 6) 2 + 2 ^ 16 * m.load (p + 8) 4)
  selector := BitVec.ofNat 16 (m.load (p + 2) 2)
  ist := m.load (p + 4) 1 % 8
  flags := BitVec.ofNat 8 (m.load (p + 5) 1)

/-- How a handler is entered. -/
structure Entry where
  rip : Nat
  cs : BitVec 16
  /-- The CPU disables interrupts on the way. -/
  disables : Bool
  ist : Nat
deriving DecidableEq

namespace Gate

def present (g : Gate) : Bool := g.flags.getLsbD 7

def type (g : Gate) : BitVec 4 := g.flags.extractLsb' 0 4

def interrupt : BitVec 4 := 0xE

def trap : BitVec 4 := 0xF

end Gate

namespace Cpu

/-- `lidt` of a `struct idt_ptr` -/
def lidt (c : Cpu) (p : Nat) : Cpu := { c with idtr := ⟨c.mem.load p 2, c.mem.load (p + 2) 8⟩ }

/-- How the CPU answers an interrupt with a vector. `none` is a fault instead. -/
def deliver (c : Cpu) (vector : Nat) : Option Entry :=
  if c.idtr.limit < 16 * vector + 15 then none
  else
    let g := gateAt c.mem (c.idtr.base + 16 * vector)
    if g.present && (g.type = Gate.interrupt || g.type = Gate.trap) then
      (c.segment g.selector).bind fun s =>
        if s.code64 then some ⟨g.offset, g.selector, g.type = Gate.interrupt, g.ist⟩ else none
    else none

end Cpu

/-! ## The functions -/

/-- `_idt_set_gate` -/
def idtSetGate (idt vector : Nat) (handler : BitVec 64) (flags : BitVec 8) (m : Memory) : Memory :=
  let p := idt + 16 * vector
  let m := m.store p 2 (handler.setWidth 16).toNat
  let m := m.store (p + 6) 2 ((handler >>> 16).setWidth 16).toNat
  let m := m.store (p + 8) 4 ((handler >>> 32).setWidth 32).toNat
  let m := m.store (p + 2) 2 0x08
  let m := m.store (p + 5) 1 flags.toNat
  let m := m.store (p + 4) 1 0
  m.store (p + 12) 4 0

/-- `_idt_load` -/
def idtLoad (idt idtp : Nat) (c : Cpu) : Cpu :=
  let m := c.mem.store idtp 2 (16 * 256 - 1)
  Cpu.lidt { c with mem := m.store (idtp + 2) 8 idt } idtp

/-- The addresses that the linker gives to what `init_gdt` and `idt_init` use. -/
structure KernelImage where
  gdt : Nat
  gdtp : Nat
  idt : Nat
  idtp : Nat
  /-- `isr_thunks`, a table of 32 addresses. -/
  isrThunks : Nat
  handleTimer : BitVec 64
  isrHandlerPs2 : BitVec 64
  handleLapicTimer : BitVec 64

/-- `isr_thunks[i]` -/
def KernelImage.thunk (l : KernelImage) (m : Memory) (i : Nat) : BitVec 64 :=
  BitVec.ofNat 64 (m.load (l.isrThunks + 8 * i) 8)

/-- The body of the loop of `idt_init`. -/
def setThunk (l : KernelImage) (m : Memory) (i : Nat) : Memory :=
  idtSetGate l.idt i (l.thunk m i) privelegeRing0 m

/-- What `idt_init` writes to `idt`. -/
def writeIdt (l : KernelImage) (m : Memory) : Memory :=
  let m := memset m l.idt 0 (16 * 256)
  let m := (List.range 32).foldl (setThunk l) m
  let m := idtSetGate l.idt timerVector l.handleTimer privelegeRing0 m
  let m := idtSetGate l.idt keyboardVector l.isrHandlerPs2 privelegeRing0 m
  idtSetGate l.idt lapictmrVector l.handleLapicTimer privelegeRing0 m

/-- `idt_init` -/
def idtInit (l : KernelImage) (c : Cpu) : Cpu := idtLoad l.idt l.idtp { c with mem := writeIdt l c.mem }

/-! ## One gate -/

variable {idt vector : Nat} {handler : BitVec 64} {flags : BitVec 8} {m : Memory} {l : KernelImage}
  {c : Cpu}

theorem idtSetGate_other {a n : Nat} (h : a + n ≤ idt + 16 * vector ∨ idt + 16 * vector + 16 ≤ a) :
    m.SameOn (idtSetGate idt vector handler flags m) a n := by
  intro i h1 h2
  simp only [idtSetGate]
  iterate 7 rw [Memory.store_outside (by omega)]

theorem gateAt_congr {m' : Memory} {p : Nat} (h : m.SameOn m' p 16) : gateAt m' p = gateAt m p := by
  simp only [gateAt]
  rw [h.load (by omega) (by omega), h.load (by omega) (by omega), h.load (by omega) (by omega),
    h.load (by omega) (by omega), h.load (by omega) (by omega), h.load (by omega) (by omega)]

/-- **A gate is read back.** -/
theorem gateAt_idtSetGate (idt vector : Nat) (handler : BitVec 64) (flags : BitVec 8) (m : Memory) :
    gateAt (idtSetGate idt vector handler flags m) (idt + 16 * vector) =
      ⟨handler.toNat, 0x08, 0, flags⟩ := by
  simp (disch := omega) only [gateAt, idtSetGate, Memory.load_store_disjoint, Memory.load_store_same]
  have hlt : handler.toNat < 2 ^ 64 := handler.isLt
  simp only [BitVec.toNat_setWidth, BitVec.toNat_ushiftRight, Nat.shiftRight_eq_div_pow]
  congr 1
  · omega
  · rw [show flags.toNat % 256 ^ 1 = flags.toNat from Nat.mod_eq_of_lt flags.isLt, BitVec.ofNat_toNat,
      BitVec.setWidth_eq]

/-! ## The table -/

/-- The 256 gates of the table. -/
def GatesAre (idt : Nat) (f : Nat → Gate) (m : Memory) : Prop :=
  ∀ v < 256, gateAt m (idt + 16 * v) = f v

/-- A gate that has been set, and the gates of a cleared table. -/
def ringZeroGate (handler : BitVec 64) : Gate := ⟨handler.toNat, 0x08, 0, privelegeRing0⟩

@[simp] theorem present_ringZeroGate (handler : BitVec 64) : (ringZeroGate handler).present = true := by
  show privelegeRing0.getLsbD 7 = true
  decide

@[simp] theorem type_ringZeroGate (handler : BitVec 64) : (ringZeroGate handler).type = Gate.interrupt := by
  show privelegeRing0.extractLsb' 0 4 = Gate.interrupt
  decide

def zeroGate : Gate := ⟨0, 0, 0, 0⟩

theorem gatesAre_memset (idt : Nat) (m : Memory) :
    GatesAre idt (fun _ => zeroGate) (memset m idt 0 (16 * 256)) := by
  intro v hv
  simp (disch := omega) only [gateAt, memset, Memory.load_fill_zero]
  rfl

/-- **Setting a gate changes that gate and no other.** -/
theorem gatesAre_set {f : Nat → Gate} (h : GatesAre idt f m) (vector : Nat) (handler : BitVec 64) :
    GatesAre idt (Function.update f vector (ringZeroGate handler))
      (idtSetGate idt vector handler privelegeRing0 m) := by
  intro v hv
  by_cases hvector : v = vector
  · subst hvector
    rw [Function.update_self]
    exact gateAt_idtSetGate idt v handler privelegeRing0 m
  · rw [Function.update_of_ne hvector, ← h v hv]
    exact gateAt_congr (idtSetGate_other (by omega))

/-- The tables, with their sizes. -/
def KernelImage.tables (l : KernelImage) : List (Nat × Nat) :=
  [(l.gdt, 24), (l.gdtp, 10), (l.idt, 4096), (l.idtp, 10), (l.isrThunks, 256)]

/-- No two tables overlap. -/
structure KernelImage.Apart (l : KernelImage) : Prop where
  gdt : l.gdt < 2 ^ 64
  idt : l.idt < 2 ^ 64
  tables : l.tables.Pairwise fun r r' => r.1 + r.2 ≤ r'.1 ∨ r'.1 + r'.2 ≤ r.1

/-- The thunks are read from outside of the table, so that the loop finds what was there before. -/
theorem KernelImage.thunk_congr {m' : Memory} {i : Nat} (hl : l.Apart) (hi : i < 32)
    (h : ∀ a n, (a + n ≤ l.idt ∨ l.idt + 4096 ≤ a) → m.SameOn m' a n) : l.thunk m' i = l.thunk m i := by
  have htables := hl.tables
  simp only [tables, List.pairwise_cons, List.mem_cons, forall_eq_or_imp] at htables
  rw [thunk, thunk, (h _ 8 (by omega)).load (Nat.le_refl _) (Nat.le_refl _)]

theorem gatesAre_setThunks {f : Nat → Gate} (hl : l.Apart) (h : GatesAre l.idt f m) : ∀ n ≤ 32,
    GatesAre l.idt (fun v => if v < n then ringZeroGate (l.thunk m v) else f v)
        ((List.range n).foldl (setThunk l) m) ∧
      ∀ a k, (a + k ≤ l.idt ∨ l.idt + 4096 ≤ a) →
        m.SameOn ((List.range n).foldl (setThunk l) m) a k
  | 0, _ => by
    refine ⟨fun v hv => ?_, fun _ _ _ _ _ _ => rfl⟩
    simp only [Nat.not_lt_zero, if_false]
    exact h v hv
  | n + 1, hn => by
    obtain ⟨hgates, hsame⟩ := gatesAre_setThunks hl h n (by omega)
    rw [List.range_succ, List.foldl_append, List.foldl_cons, List.foldl_nil, setThunk,
      KernelImage.thunk_congr hl (by omega) hsame]
    refine ⟨fun v hv => (gatesAre_set hgates n _ v hv).trans ?_, fun a k hak => ?_⟩
    · by_cases hvn : v = n
      · rw [hvn, Function.update_self]
        exact (if_pos (Nat.lt_succ_self n)).symm
      · rw [Function.update_of_ne hvn]
        exact if_congr (by omega) rfl rfl
    · exact (hsame a k hak).trans (idtSetGate_other (by omega))

/-- The gates of `idt_init`. -/
def KernelImage.gates (l : KernelImage) (m : Memory) (v : Nat) : Gate :=
  if v < 32 then ringZeroGate (l.thunk m v)
  else if v = timerVector then ringZeroGate l.handleTimer
  else if v = keyboardVector then ringZeroGate l.isrHandlerPs2
  else if v = lapictmrVector then ringZeroGate l.handleLapicTimer
  else zeroGate

/-- **The table that `idt_init` writes**, over whatever was there. -/
theorem gatesAre_writeIdt (hl : l.Apart) (m : Memory) : GatesAre l.idt (l.gates m) (writeIdt l m) ∧
    ∀ a k, (a + k ≤ l.idt ∨ l.idt + 4096 ≤ a) → m.SameOn (writeIdt l m) a k := by
  have hclear : ∀ a k, (a + k ≤ l.idt ∨ l.idt + 4096 ≤ a) →
      m.SameOn (memset m l.idt 0 (16 * 256)) a k :=
    fun a k h i h1 h2 => Memory.fill_outside (by omega)
  obtain ⟨hgates, hsame⟩ := gatesAre_setThunks hl (gatesAre_memset l.idt m) 32 (Nat.le_refl _)
  simp only [writeIdt]
  refine ⟨fun v hv => ?_, fun a k h => ?_⟩
  · rw [gatesAre_set (gatesAre_set (gatesAre_set hgates timerVector l.handleTimer) keyboardVector
      l.isrHandlerPs2) lapictmrVector l.handleLapicTimer v hv, KernelImage.gates]
    have htimer : timerVector = 32 := rfl
    have hkeyboard : keyboardVector = 33 := rfl
    have hlapic : lapictmrVector = 35 := rfl
    simp only [Function.update_apply]
    rcases Nat.lt_or_ge v 32 with h32 | h32
    · rw [if_neg (by omega), if_neg (by omega), if_neg (by omega), if_pos h32, if_pos h32,
        KernelImage.thunk_congr hl h32 hclear]
    · rw [if_neg (Nat.not_lt.mpr h32), if_neg (Nat.not_lt.mpr h32)]
      by_cases h1 : v = timerVector
      · rw [if_neg (by omega), if_neg (by omega), if_pos h1, if_pos h1]
      · rw [if_neg h1, if_neg h1]
        by_cases h2 : v = keyboardVector
        · rw [if_neg (by omega), if_pos h2, if_pos h2]
        · rw [if_neg h2, if_neg h2]
  · refine Memory.SameOn.trans ?_ (idtSetGate_other (by simp only [lapictmrVector]; omega))
    refine Memory.SameOn.trans ?_ (idtSetGate_other (by simp only [keyboardVector]; omega))
    refine Memory.SameOn.trans ?_ (idtSetGate_other (by simp only [timerVector]; omega))
    exact (hclear a k h).trans (hsame a k h)

/-! ## Interrupts -/

/-- The handler of a vector. -/
def KernelImage.handlerOf (l : KernelImage) (m : Memory) (v : Nat) : Option (BitVec 64) :=
  if v < 32 then some (l.thunk m v)
  else if v = timerVector then some l.handleTimer
  else if v = keyboardVector then some l.isrHandlerPs2
  else if v = lapictmrVector then some l.handleLapicTimer
  else none

/-- A gate of ring 0 leads to its handler, with interrupts disabled; a cleared one leads nowhere. -/
theorem deliver_of_gatesAre (hgdt : GdtLoaded gdt c) (hidtr : c.idtr = ⟨4095, l.idt⟩)
    (hgates : GatesAre l.idt (l.gates m) c.mem) {v : Nat} (hv : v < 256) :
    c.deliver v = (l.handlerOf m v).map fun h => ⟨h.toNat, 0x08, true, 0⟩ := by
  have hring0 : ∀ h, gateAt c.mem (l.idt + 16 * v) = ringZeroGate h →
      c.deliver v = some ⟨h.toNat, 0x08, true, 0⟩ := by
    intro h hgate
    have hsegment : c.segment 0x08 = some kernelCode := (hgdt.segment 0x08).trans (if_pos (by decide))
    rw [Cpu.deliver, hidtr, if_neg (by simp only; omega)]
    dsimp only
    have hcode : kernelCode.code64 = true := by decide
    rw [hgate, if_pos (by simp)]
    show (c.segment 0x08).bind _ = _
    rw [hsegment, Option.bind_some, if_pos hcode, type_ringZeroGate]
    rfl
  have hzero : gateAt c.mem (l.idt + 16 * v) = zeroGate → c.deliver v = none := by
    intro hgate
    rw [Cpu.deliver, hidtr, if_neg (by simp only; omega)]
    simp only [hgate]
    rfl
  have hgate := hgates v hv
  rw [KernelImage.gates] at hgate
  rw [KernelImage.handlerOf]
  split_ifs at hgate ⊢
  · exact hring0 _ hgate
  · exact hring0 _ hgate
  · exact hring0 _ hgate
  · exact hring0 _ hgate
  · exact hzero hgate

/-- `idt_init` points the CPU to the table. -/
theorem idtInit_spec (hl : l.Apart) (c : Cpu) : (idtInit l c).idtr = ⟨4095, l.idt⟩ ∧
    GatesAre l.idt (l.gates c.mem) (idtInit l c).mem ∧
      ∀ a n, (a + n ≤ l.idt ∨ l.idt + 4096 ≤ a) → (a + n ≤ l.idtp ∨ l.idtp + 10 ≤ a) →
        c.mem.SameOn (idtInit l c).mem a n := by
  have htables := hl.tables
  simp only [KernelImage.tables, List.pairwise_cons, List.mem_cons, forall_eq_or_imp] at htables
  have hidtp : l.idt + 4096 ≤ l.idtp ∨ l.idtp + 10 ≤ l.idt := htables.2.2.1.1
  obtain ⟨hgates, hsame⟩ := gatesAre_writeIdt hl c.mem
  have hpointer : ∀ a n, (a + n ≤ l.idtp ∨ l.idtp + 10 ≤ a) →
      (writeIdt l c.mem).SameOn (idtInit l c).mem a n :=
    fun a n h => (Memory.sameOn_store (by omega)).trans (Memory.sameOn_store (by omega))
  refine ⟨?_, fun v hv => ?_, fun a n h h' => (hsame a n h).trans (hpointer a n h')⟩
  · simp only [idtInit, idtLoad, Cpu.lidt]
    rw [Memory.load_store_disjoint (by omega), Memory.load_store_same, Memory.load_store_same]
    exact congrArg (TableRegister.mk 4095) (Nat.mod_eq_of_lt hl.idt)
  · rw [← hgates v hv]
    exact gateAt_congr (hpointer _ _ (by omega))

/-- `init_gdt` and `idt_init` leave both tables in place. -/
theorem initTables_loaded (hl : l.Apart) (c : Cpu) : ∃ c',
    (initGdt l.gdt l.gdtp c).map (idtInit l) = some c' ∧ GdtLoaded l.gdt c' ∧ c'.idtr = ⟨4095, l.idt⟩ ∧
      GatesAre l.idt (l.gates c.mem) c'.mem := by
  have htables := hl.tables
  simp only [KernelImage.tables, List.pairwise_cons, List.mem_cons, forall_eq_or_imp] at htables
  obtain ⟨⟨hgdtp, hidt, hidtp, hthunks, -⟩, ⟨-, -, hthunks', -⟩, -⟩ := htables
  obtain ⟨c₁, hinit, hloaded, -, hsame⟩ := initGdt_loads hl.gdt hgdtp c
  obtain ⟨hidtr, hgates, hkeep⟩ := idtInit_spec hl c₁
  have hthunk : ∀ i < 32, l.thunk c₁.mem i = l.thunk c.mem i := by
    intro i hi
    rw [KernelImage.thunk, (hsame _ 8 (by omega) (by omega)).load (Nat.le_refl _) (Nat.le_refl _)]
    rfl
  refine ⟨idtInit l c₁, by rw [hinit, Option.map_some], hloaded.of_same (hkeep _ _ (by omega) (by omega)) _,
    hidtr, fun v hv => (hgates v hv).trans ?_⟩
  rw [KernelImage.gates, KernelImage.gates]
  by_cases h32 : v < 32
  · rw [if_pos h32, if_pos h32, hthunk v h32]
  · rw [if_neg h32, if_neg h32]

/--
**Which handler a vector reaches.** After `init_gdt` and `idt_init`, over whatever memory held, the
first 32 vectors lead to their thunks and three more to the handlers of the devices, in ring 0 and with
interrupts disabled. The other 221 lead nowhere. It stays so while nobody writes to the two tables.
-/
theorem tables_deliver (hl : l.Apart) (c : Cpu) : ∃ c', (initGdt l.gdt l.gdtp c).map (idtInit l) = some c' ∧
    ∀ m', c'.mem.SameOn m' l.gdt 24 → c'.mem.SameOn m' l.idt 4096 → ∀ v < 256,
      Cpu.deliver { c' with mem := m' } v =
        (l.handlerOf c.mem v).map fun h => ⟨h.toNat, 0x08, true, 0⟩ := by
  obtain ⟨c', hc', hloaded, hidtr, hgates⟩ := initTables_loaded hl c
  refine ⟨c', hc', fun m' hm hm' v hv => ?_⟩
  have hgates' : GatesAre l.idt (l.gates c.mem) m' := fun v hv =>
    (gateAt_congr fun i h1 h2 => hm' i (by omega) (by omega)).trans (hgates v hv)
  exact deliver_of_gatesAre (hloaded.of_same hm c'.idtr) hidtr hgates' hv

/-- A small image, and a CPU with empty memory. -/
def sampleImage : KernelImage := ⟨0x1000, 0x1018, 0x2000, 0x3000, 0x4000, 0x5000, 0x5100, 0x5200⟩

def sampleCpu : Cpu := ⟨fun _ => 0, ⟨0, 0⟩, ⟨0, 0⟩, 0, 0, 0, 0, 0, 0⟩

theorem tables_deliver_sample :
    ∃ c', (initGdt 0x1000 0x1018 sampleCpu).map (idtInit sampleImage) = some c' ∧
      ∀ m', c'.mem.SameOn m' 0x1000 24 → c'.mem.SameOn m' 0x2000 4096 → ∀ v < 256,
        Cpu.deliver { c' with mem := m' } v =
          (sampleImage.handlerOf sampleCpu.mem v).map fun h => ⟨h.toNat, 0x08, true, 0⟩ :=
  tables_deliver (l := sampleImage) ⟨by decide, by decide, by decide⟩ sampleCpu

end BloreOs
