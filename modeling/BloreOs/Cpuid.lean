import BloreOs.Str.Log
import BloreOs.Str.Numeral
import BloreOs.Terminal.Keys
import Mathlib.Tactic.IntervalCases

/-!
# What the processor says of itself (`cpuid.h`)

`report_cpu_details` asks the processor for its vendor, its brand, its topology and its frequencies,
and logs them.

* `getCpuVendor_text`, `getCpuBrand_text` — the registers are put together to a string in its buffer,
* `getCpuTopology_iff` — when the loop over the levels is left, and with what,
* `reportCpuDetails_lines` — the lines of the report, on COM1 and on the terminal.
-/

namespace BloreOs

open Loop Buffer CharBuffer

/-! ## The functions -/

structure CpuidRegs where
  eax : BitVec 32
  ebx : BitVec 32
  ecx : BitVec 32
  edx : BitVec 32

/-- The answers of the instruction `cpuid`. -/
structure Cpuid where
  leaf : BitVec 32 → CpuidRegs
  /-- The levels of leaf 0xB. -/
  level : BitVec 32 → CpuidRegs

/-- The bytes of a register, as they are stored. -/
def wordBytes (v : BitVec 32) : List UInt8 :=
  [0, 8, 16, 24].map fun i => UInt8.ofBitVec (v.extractLsb' i 8)

/-- `*((uint32_t*)ptr) = v` -/
def storeWord (b : CharBuffer) (ptr : Nat) (v : BitVec 32) : CharBuffer := b.writeAll ptr (wordBytes v)

/-- `get_cpu_vendor` -/
def getCpuVendor (cpu : Cpuid) (buffer : CharBuffer) : CharBuffer :=
  let r := cpu.leaf 0
  storeWord (storeWord (storeWord buffer 0 r.ebx) 4 r.edx) 8 r.ecx

/-- One iteration of `get_cpu_brand`. -/
def storeBrand (cpu : Cpuid) (b : CharBuffer) (i : Nat) : CharBuffer :=
  let r := cpu.leaf (0x80000002 + BitVec.ofNat 32 i)
  let ptr := 16 * i
  let b := storeWord (storeWord b ptr r.eax) (ptr + 4) r.ebx
  storeWord (storeWord b (ptr + 8) r.ecx) (ptr + 12) r.edx

/-- `get_cpu_brand` -/
def getCpuBrand (cpu : Cpuid) (brandString : CharBuffer) : CharBuffer :=
  (List.range 3).foldl (storeBrand cpu) brandString

/-- The number of logical processors of a level. -/
def CpuidRegs.count (r : CpuidRegs) : BitVec 32 := r.ebx &&& 0xFFFF

def CpuidRegs.levelType (r : CpuidRegs) : BitVec 32 := r.ecx >>> 8 &&& 0xFF

/-- One iteration of the loop over the levels. It is left with `logicalProcessorsPerCore`. -/
def topologyBody (cpu : Cpuid) (x : BitVec 32 × CpuidRegs) : (BitVec 32 × CpuidRegs) ⊕ BitVec 32 :=
  if x.2.ecx &&& 0xFF00 ≠ 0 then
    if x.2.levelType = 2 then .inr x.2.count else .inl (x.1 + 1, cpu.level (x.1 + 1))
  else .inr 0

/-- `get_cpu_topology`: the number per core and the total. `none` means that the loop is never left:
there are fewer levels than it may make iterations. -/
def getCpuTopology (cpu : Cpuid) : Option (BitVec 32 × BitVec 32) :=
  let r := cpu.level 0
  let totalLogicalProcessors := if r.ebx &&& 0xFFFF ≠ 0 then r.ebx &&& 0xFFFF else 0
  (loop (topologyBody cpu) (2 ^ 32 + 1) (0, r)).map fun logicalProcessorsPerCore =>
    (logicalProcessorsPerCore, totalLogicalProcessors)

/-- `get_cpu_frequency`: base, maximum and bus. -/
def getCpuFrequency (cpu : Cpuid) : BitVec 32 × BitVec 32 × BitVec 32 :=
  let r := cpu.leaf 0x16
  (r.eax &&& 0xFFFF, r.ebx &&& 0xFFFF, r.ecx &&& 0xFFFF)

/-- A string literal. -/
def cliteral (s : String) : List UInt8 := bytes s ++ [0]

/-- `char name[n] = {0}`, on the stack. -/
def zeroArray (n : Nat) (stack : Nat → UInt8) : CharBuffer := ⟨fun k => if k < n then 0 else stack k, 0⟩

/-- `report_cpu_details`: what each call of `kprintf` gives. `junk` is what their buffers and the
arrays lie over. -/
def reportCpuDetails (isReady : Bool) (cpu : Cpuid) (junk : Nat → Nat → UInt8) :
    Option (List (List UInt8 × Option (List UInt8))) := do
  let log := fun i format args => kprintf isReady (cliteral format) args (junk (2 * i)) (junk (2 * i + 1))
  let vendor := getCpuVendor cpu (zeroArray 13 (junk 14))
  let line0 ← log 0 "CPU Vendor: %s\n" [.str (vendor.slice 0 13)]
  let brand := getCpuBrand cpu (zeroArray 49 (junk 15))
  let line1 ← log 1 "CPU Brand: %s\n" [.str (brand.slice 0 49)]
  let (logicalProcessorsPerCore, totalLogicalProcessors) ← getCpuTopology cpu
  let line2 ← log 2 "Logical Processors Per Core: %d\n" [.int logicalProcessorsPerCore]
  let line3 ← log 3 "Total Logical Processors: %d\n" [.int totalLogicalProcessors]
  let (baseFrequencyMHz, maxFrequencyMHz, busFrequencyMHz) := getCpuFrequency cpu
  if baseFrequencyMHz = 0 ∧ maxFrequencyMHz = 0 ∧ busFrequencyMHz = 0 then
    let line4 ← log 4 "CPU Frequency (0x16) not supported.\n" []
    return [line0, line1, line2, line3, line4]
  else
    let line4 ← log 4 "Base Frequency: %d\n" [.int baseFrequencyMHz]
    let line5 ← log 5 "Max Frequency: %d\n" [.int maxFrequencyMHz]
    let line6 ← log 6 "Bus Frequency: %d\n" [.int busFrequencyMHz]
    return [line0, line1, line2, line3, line4, line5, line6]

variable {cpu : Cpuid} {b : CharBuffer} {fmt text : List UInt8} {args : List Arg} {ps : List Piece}
  {n : Nat}

/-! ## Strings in registers -/

theorem getCpuVendor_eq (cpu : Cpuid) (b : CharBuffer) : getCpuVendor cpu b = b.writeAll 0
    (wordBytes (cpu.leaf 0).ebx ++ wordBytes (cpu.leaf 0).edx ++ wordBytes (cpu.leaf 0).ecx) := by
  rw [writeAll_append, writeAll_append]
  rfl

/-- The bytes of one leaf of the brand. -/
def brandBytes (r : CpuidRegs) : List UInt8 :=
  wordBytes r.eax ++ wordBytes r.ebx ++ wordBytes r.ecx ++ wordBytes r.edx

theorem getCpuBrand_eq (cpu : Cpuid) (b : CharBuffer) : getCpuBrand cpu b = b.writeAll 0
    (brandBytes (cpu.leaf 0x80000002) ++ brandBytes (cpu.leaf 0x80000003)
      ++ brandBytes (cpu.leaf 0x80000004)) := by
  have hstore : ∀ (b : CharBuffer) (i : Nat), storeBrand cpu b i
      = b.writeAll (16 * i) (brandBytes (cpu.leaf (0x80000002 + BitVec.ofNat 32 i))) := by
    intro b i
    rw [brandBytes, writeAll_append, writeAll_append, writeAll_append]
    rfl
  rw [writeAll_append, writeAll_append]
  show storeBrand cpu (storeBrand cpu (storeBrand cpu b 0) 1) 2 = _
  rw [hstore, hstore, hstore]
  rfl

/-- Bytes that leave room for the NUL of a cleared array. -/
theorem cstring_zeroArray {bs : List UInt8} (hbs : bs.length < n) (stack : Nat → UInt8) :
    cstring (((zeroArray n stack).writeAll 0 bs).slice 0 n) = bs.takeWhile (· ≠ 0) := by
  refine cstr_eq hbs (slice_writeAll bs) ?_
  rw [data_writeAll_outside bs (Or.inr (Nat.zero_add _).le)]
  exact if_pos hbs

/-- The vendor, as it is printed. -/
def Cpuid.vendor (cpu : Cpuid) : List UInt8 :=
  (wordBytes (cpu.leaf 0).ebx ++ wordBytes (cpu.leaf 0).edx
    ++ wordBytes (cpu.leaf 0).ecx).takeWhile (· ≠ 0)

/-- The brand. -/
def Cpuid.brand (cpu : Cpuid) : List UInt8 :=
  (brandBytes (cpu.leaf 0x80000002) ++ brandBytes (cpu.leaf 0x80000003)
    ++ brandBytes (cpu.leaf 0x80000004)).takeWhile (· ≠ 0)

theorem getCpuVendor_text (cpu : Cpuid) (stack : Nat → UInt8) :
    cstring ((getCpuVendor cpu (zeroArray 13 stack)).slice 0 13) = cpu.vendor := by
  rw [getCpuVendor_eq]
  exact cstring_zeroArray (show 12 < 13 by decide) stack

theorem getCpuBrand_text (cpu : Cpuid) (stack : Nat → UInt8) :
    cstring ((getCpuBrand cpu (zeroArray 49 stack)).slice 0 49) = cpu.brand := by
  rw [getCpuBrand_eq]
  exact cstring_zeroArray (show 48 < 49 by decide) stack

/-! ## The topology -/

/-- The mask of the loop sees the type of the level. -/
theorem ecx_and_eq_zero (r : CpuidRegs) : r.ecx &&& 0xFF00 = 0 ↔ r.levelType = 0 := by
  have hup : r.ecx &&& (0xFF00 : BitVec 32) = r.levelType <<< 8 := by
    rw [CpuidRegs.levelType]
    ext i hi
    interval_cases i <;> simp
  have hdown : r.levelType = (r.ecx &&& 0xFF00) >>> 8 := by
    rw [CpuidRegs.levelType]
    ext i hi
    interval_cases i <;> simp
  constructor
  · intro h
    rw [hdown, h]
    rfl
  · intro h
    rw [hup, h]
    rfl

/-- The registers of level `i`. -/
def Cpuid.levelAt (cpu : Cpuid) (i : Nat) : CpuidRegs := cpu.level (BitVec.ofNat 32 i)

/-- Level `n` is the first one at which the loop is left: the core level, or one that is not there. -/
structure Cpuid.Leaves (cpu : Cpuid) (n : Nat) : Prop where
  lt : n < 2 ^ 32
  before : ∀ i < n, (cpu.levelAt i).levelType ≠ 0 ∧ (cpu.levelAt i).levelType ≠ 2
  here : (cpu.levelAt n).levelType = 0 ∨ (cpu.levelAt n).levelType = 2

/-- What the loop leaves at level `n`. -/
def Cpuid.perCore (cpu : Cpuid) (n : Nat) : BitVec 32 :=
  if (cpu.levelAt n).levelType = 2 then (cpu.levelAt n).count else 0

theorem topologyBody_leaves (h : (cpu.levelAt n).levelType = 0 ∨ (cpu.levelAt n).levelType = 2) :
    topologyBody cpu (BitVec.ofNat 32 n, cpu.levelAt n) = .inr (cpu.perCore n) := by
  rw [topologyBody, Cpuid.perCore]
  rcases h with h | h
  · rw [if_neg (not_not.mpr ((ecx_and_eq_zero _).mpr h)), if_neg (by rw [h]; decide)]
  · rw [if_pos (mt (ecx_and_eq_zero _).mp (by rw [h]; decide)), if_pos h, if_pos h]

theorem topologyBody_goes_on (h0 : (cpu.levelAt n).levelType ≠ 0) (h2 : (cpu.levelAt n).levelType ≠ 2) :
    topologyBody cpu (BitVec.ofNat 32 n, cpu.levelAt n)
      = .inl (BitVec.ofNat 32 (n + 1), cpu.levelAt (n + 1)) := by
  rw [topologyBody, if_pos (mt (ecx_and_eq_zero _).mp h0), if_neg h2]
  show Sum.inl (BitVec.ofNat 32 n + 1, cpu.level (BitVec.ofNat 32 n + 1)) = _
  rw [Cpuid.levelAt, BitVec.ofNat_add]
  rfl

theorem headAt_topologyBody : ∀ n,
    (∀ i < n, (cpu.levelAt i).levelType ≠ 0 ∧ (cpu.levelAt i).levelType ≠ 2) →
    headAt (topologyBody cpu) n (0, cpu.level 0) = some (BitVec.ofNat 32 n, cpu.levelAt n)
  | 0, _ => rfl
  | n + 1, h => by
    obtain ⟨h0, h2⟩ := h n (Nat.lt_succ_self n)
    exact headAt_succ (topologyBody_goes_on h0 h2) n
      (headAt_topologyBody n fun i hi => h i (hi.trans (Nat.lt_succ_self n)))

theorem getCpuTopology_of_leaves (h : cpu.Leaves n) :
    getCpuTopology cpu = some (cpu.perCore n, (cpu.level 0).count) := by
  have hloop := loop_of_headAt (headAt_topologyBody n h.before) (topologyBody_leaves h.here)
  have hlt := h.lt
  rw [getCpuTopology, loop_mono hloop (by omega), Option.map_some, CpuidRegs.count]
  congr 2
  split
  · rfl
  · next hzero => exact (not_not.mp hzero).symm

/-- The first level at which the loop may be left comes before the number of the level overflows. -/
theorem exists_leaves (h : ∃ n, (cpu.levelAt n).levelType = 0 ∨ (cpu.levelAt n).levelType = 2) :
    ∃ n, cpu.Leaves n := by
  classical
  refine ⟨Nat.find h, ?_, fun i hi => not_or.mp (Nat.find_min h hi), Nat.find_spec h⟩
  have hwrap : cpu.levelAt (Nat.find h % 2 ^ 32) = cpu.levelAt (Nat.find h) := by
    rw [Cpuid.levelAt, Cpuid.levelAt]
    congr 1
    exact BitVec.eq_of_toNat_eq (by simp)
  have hle := Nat.find_min' h (hwrap ▸ Nat.find_spec h)
  exact hle.trans_lt (Nat.mod_lt _ (by decide))

theorem getCpuTopology_eq_none
    (h : ∀ n, (cpu.levelAt n).levelType ≠ 0 ∧ (cpu.levelAt n).levelType ≠ 2) :
    getCpuTopology cpu = none := by
  have hloop : loop (topologyBody cpu) (2 ^ 32 + 1) (0, cpu.level 0) = none := by
    refine loop_eq_none (fun x => ∃ n, x = (BitVec.ofNat 32 n, cpu.levelAt n)) ?_ _ ⟨0, rfl⟩
    rintro _ ⟨n, rfl⟩
    exact ⟨_, topologyBody_goes_on (h n).1 (h n).2, n + 1, rfl⟩
  rw [getCpuTopology, hloop, Option.map_none]

/--
**When the loop over the levels is left, and with what.** It is left at the first level of type 0 or 2,
if there is one. The number per core is then the count of the core level, and the total that of the first
level.
-/
theorem getCpuTopology_iff (cpu : Cpuid) (r : BitVec 32 × BitVec 32) : getCpuTopology cpu = some r ↔
    ∃ n, cpu.Leaves n ∧ r = (cpu.perCore n, (cpu.level 0).count) := by
  constructor
  · intro h
    by_cases hex : ∃ n, (cpu.levelAt n).levelType = 0 ∨ (cpu.levelAt n).levelType = 2
    · obtain ⟨n, hn⟩ := exists_leaves hex
      rw [getCpuTopology_of_leaves hn, Option.some.injEq] at h
      exact ⟨n, hn, h.symm⟩
    · rw [getCpuTopology_eq_none fun n => not_or.mp fun hn => hex ⟨n, hn⟩] at h
      cases h
  · rintro ⟨n, hn, rfl⟩
    exact getCpuTopology_of_leaves hn

/-! ## Lines -/

/-- What `kprintf` gives if both logs get the text. -/
def bothLogs (isReady : Bool) (text : List UInt8) : List UInt8 × Option (List UInt8) :=
  (text, if isReady then some text else none)

/-- **A text without `%` and NUL gets on both logs as it is.** -/
theorem kprintf_text (h0 : 0 ∉ fmt) (hps : pieces fmt args = some ps) (hret : ∀ p ∈ ps, p.Returns)
    (hexp : expansion ps = text) (hlen : text.length ≤ 255)
    (hchars : ∀ c ∈ text, c ≠ 0 ∧ c ≠ chr '%') (isReady : Bool) (stack stack' : Nat → UInt8) :
    kprintf isReady (fmt ++ [0]) args stack stack' = some (bothLogs isReady text) := by
  subst hexp
  have hnul : 0 ∉ expansion ps := fun h => (hchars 0 h).1 rfl
  have hpct : chr '%' ∉ expansion ps := fun h => (hchars _ h).2 rfl
  obtain ⟨b, hb, -, htext, hdata⟩ := formatted_eq h0 hps (Or.inl rfl) hret hlen stack
  obtain ⟨hcstr, tail, htail⟩ := slice_eq_cstr_append hlen htext hdata
  rw [takeWhile_no_nul hnul] at hcstr htail
  rw [kprintf, hb, Option.bind_some, writeSerialStr, hcstr]
  cases isReady with
  | false => rfl
  | true =>
    obtain ⟨c, hc, -, hagain⟩ := literal_pass hnul hpct hlen tail stack'
    rw [if_pos rfl, htail, hc, Option.map_some, hagain]
    rfl

variable {label conv : List UInt8} {p : Piece}

/-- A label, an argument in the form that its conversion gives it, and a newline. -/
theorem kprintf_line (hlabel : ∀ c ∈ label, c ≠ 0 ∧ c ≠ chr '%') (hconv : 0 ∉ conv)
    (hp : pieces (conv ++ [chr '\n']) args = some [p, .literal (chr '\n')]) (hret : p.Returns)
    (htext : ∀ c ∈ p.text, c ≠ 0 ∧ c ≠ chr '%') (hlen : label.length + p.text.length < 255)
    (isReady : Bool) (stack stack' : Nat → UInt8) :
    kprintf isReady (label ++ conv ++ [chr '\n'] ++ [0]) args stack stack' =
      some (bothLogs isReady (label ++ p.text ++ [chr '\n'])) := by
  have hlabel0 : 0 ∉ label := fun h => (hlabel 0 h).1 rfl
  have hlabelp : chr '%' ∉ label := fun h => (hlabel _ h).2 rfl
  have hps : pieces (label ++ conv ++ [chr '\n']) args
      = some (label.map .literal ++ [p, .literal (chr '\n')]) := by
    rw [List.append_assoc, pieces_append_literal hlabelp, hp]
    rfl
  have hexp : expansion (label.map .literal ++ [p, .literal (chr '\n')]) = label ++ p.text ++ [chr '\n'] := by
    rw [expansion, List.flatMap_append, ← expansion, expansion_map_literal, List.append_assoc]
    rfl
  have hchars : ∀ c ∈ label ++ p.text ++ [chr '\n'], c ≠ 0 ∧ c ≠ chr '%' := by
    intro c hc
    rw [List.mem_append, List.mem_append, List.mem_singleton] at hc
    rcases hc with (hc | hc) | rfl
    · exact hlabel c hc
    · exact htext c hc
    · decide
  have hnul : 0 ∉ label ++ conv ++ [chr '\n'] := by
    rw [List.mem_append, List.mem_append, List.mem_singleton]
    rintro ((h | h) | h)
    · exact hlabel0 h
    · exact hconv h
    · cases h
  have hreturns : ∀ q ∈ label.map Piece.literal ++ [p, .literal (chr '\n')], q.Returns := by
    intro q hq
    rw [List.mem_append, List.mem_cons, List.mem_singleton] at hq
    rcases hq with hq | rfl | rfl
    · exact returns_map_literal label q hq
    · exact hret
    · trivial
  refine kprintf_text hnul hps hreturns hexp ?_ hchars isReady stack stack'
  rw [List.length_append, List.length_append, List.length_singleton]
  omega

/-- A digit is neither NUL nor `%`. -/
theorem numeral_chars (n : Nat) : ∀ c ∈ numeral false 10 n, c ≠ 0 ∧ c ≠ chr '%' := by
  have hall : ∀ d < 10, digitChar false d ≠ 0 ∧ digitChar false d ≠ chr '%' := by decide
  intro c hc
  rw [numeral, List.mem_reverse, List.mem_map] at hc
  obtain ⟨d, hd, rfl⟩ := hc
  exact hall d (lt_of_mem_digitsOf (by decide) hd)

/-- A line of the report. -/
def logLine (label : String) (text : List UInt8) : List UInt8 := bytes label ++ text ++ [chr '\n']

/-- A line with a number. -/
def numberLine (label : String) (v : BitVec 32) : List UInt8 := logLine label (numeral false 10 v.toNat)

/-- A label that may stand in a line. -/
def plainLabel (label : String) : Bool :=
  (bytes label).length ≤ 100 && (bytes label).all fun c => c != 0 && c != chr '%'

theorem length_of_plainLabel {label : String} (h : plainLabel label = true) :
    (bytes label).length ≤ 100 := by
  rw [plainLabel, Bool.and_eq_true, decide_eq_true_iff] at h
  exact h.1

theorem chars_of_plainLabel {label : String} (h : plainLabel label = true) :
    ∀ c ∈ bytes label, c ≠ 0 ∧ c ≠ chr '%' := by
  rw [plainLabel, Bool.and_eq_true, List.all_eq_true] at h
  intro c hc
  simpa using h.2 c hc

/-- `kprintf("label%s\n", s)` -/
theorem kprintf_str (label format : String) (hlabel : plainLabel label = true)
    (hformat : cliteral format = bytes label ++ [chr '%', chr 's'] ++ [chr '\n'] ++ [0]) {s : List UInt8}
    (hpct : chr '%' ∉ cstring s) (hlen : (cstring s).length ≤ 100) (isReady : Bool)
    (stack stack' : Nat → UInt8) : kprintf isReady (cliteral format) [.str s] stack stack'
      = some (bothLogs isReady (logLine label (cstring s))) := by
  have hp : pieces ([chr '%', chr 's'] ++ [chr '\n']) [.str s]
      = some [.chars (cstring s), .literal (chr '\n')] := rfl
  rw [hformat]
  refine kprintf_line (chars_of_plainLabel hlabel) (by decide) hp trivial (fun c hc => ⟨?_, ?_⟩) ?_ isReady stack stack'
  · rintro rfl
    exact no_nul_takeWhile s hc
  · rintro rfl
    exact hpct hc
  · have hle := length_of_plainLabel hlabel
    show (bytes label).length + (cstring s).length < 255
    omega

/-- `kprintf("label%d\n", v)` -/
theorem kprintf_int (label format : String) (hlabel : plainLabel label = true)
    (hformat : cliteral format = bytes label ++ [chr '%', chr 'd'] ++ [chr '\n'] ++ [0]) {v : BitVec 32}
    (hv : v.toNat < 2 ^ 31) (isReady : Bool) (stack stack' : Nat → UInt8) :
    kprintf isReady (cliteral format) [.int v] stack stack'
      = some (bothLogs isReady (numberLine label v)) := by
  have hint : v.toInt = v.toNat := BitVec.toInt_eq_toNat_of_lt (by omega)
  have htext : (Piece.int v).text = numeral false 10 v.toNat := by
    rw [Piece.text, hint, signedNumeral, if_neg (by omega), Int.natAbs_natCast]
    rfl
  have hret : (Piece.int v).Returns := by
    rintro rfl
    exact absurd hv (by decide)
  have hlen : (numeral false 10 v.toNat).length ≤ 64 := by
    rw [length_numeral]
    exact digitsOf_length_lt (by decide) (by omega)
  have hp : pieces ([chr '%', chr 'd'] ++ [chr '\n']) [.int v] = some [.int v, .literal (chr '\n')] := rfl
  have hline := kprintf_line (chars_of_plainLabel hlabel) (by decide) hp hret ?_ ?_ isReady stack stack'
  · rw [hformat]
    rwa [htext] at hline
  · rw [htext]
    exact numeral_chars v.toNat
  · have hle := length_of_plainLabel hlabel
    rw [htext]
    omega

/-- `kprintf("label")` -/
theorem kprintf_plain (label : String) (hlabel : plainLabel label = true) (isReady : Bool)
    (stack stack' : Nat → UInt8) :
    kprintf isReady (cliteral label) [] stack stack' = some (bothLogs isReady (bytes label)) := by
  have hchars := chars_of_plainLabel hlabel
  have hnul : 0 ∉ bytes label := fun h => (hchars 0 h).1 rfl
  have hpct : chr '%' ∉ bytes label := fun h => (hchars _ h).2 rfl
  have hlen : (bytes label).length ≤ 255 := (length_of_plainLabel hlabel).trans (by decide)
  exact kprintf_text hnul (pieces_of_no_percent _ hpct) (returns_map_literal _)
    (expansion_map_literal _) hlen hchars isReady stack stack'

/-! ## The report -/

theorem toNat_and_lt (v : BitVec 32) : (v &&& 0xFFFF).toNat < 2 ^ 31 := by
  have hle : (v &&& 0xFFFF).toNat ≤ 0xFFFF := Nat.and_le_right
  omega

/-- The lines of the report, if the loop over the levels is left at level `n`. -/
def Cpuid.report (cpu : Cpuid) (n : Nat) : List (List UInt8) :=
  let f := getCpuFrequency cpu
  [logLine "CPU Vendor: " cpu.vendor, logLine "CPU Brand: " cpu.brand,
    numberLine "Logical Processors Per Core: " (cpu.perCore n),
    numberLine "Total Logical Processors: " (cpu.level 0).count] ++
  if f.1 = 0 ∧ f.2.1 = 0 ∧ f.2.2 = 0 then [bytes "CPU Frequency (0x16) not supported.\n"]
  else [numberLine "Base Frequency: " f.1, numberLine "Max Frequency: " f.2.1,
    numberLine "Bus Frequency: " f.2.2]

/--
**The lines of the report.** If the loop over the levels is left at level `n`, and the strings of the
processor have no `%`, COM1 receives the lines of the report, and so does the terminal if it is ready.
-/
theorem reportCpuDetails_lines (cpu : Cpuid) (hn : cpu.Leaves n) (hvendor : chr '%' ∉ cpu.vendor)
    (hbrand : chr '%' ∉ cpu.brand) (isReady : Bool) (junk : Nat → Nat → UInt8) :
    reportCpuDetails isReady cpu junk = some ((cpu.report n).map (bothLogs isReady)) := by
  have hlen : ∀ bs : List UInt8, bs.length ≤ 48 → (bs.takeWhile (· ≠ 0)).length ≤ 100 := by
    intro bs hbs
    have hle := (List.takeWhile_prefix (· ≠ 0) (l := bs)).length_le
    omega
  have hperCore : (cpu.perCore n).toNat < 2 ^ 31 := by
    rw [Cpuid.perCore]
    split
    · exact toNat_and_lt _
    · decide
  have hv := getCpuVendor_text cpu (junk 14)
  have hb := getCpuBrand_text cpu (junk 15)
  have hline0 := kprintf_str "CPU Vendor: " "CPU Vendor: %s\n" (by decide) (by decide)
    (hv.symm ▸ hvendor) (hv.symm ▸ hlen _ (show 12 ≤ 48 by decide)) isReady (junk (2 * 0))
    (junk (2 * 0 + 1))
  have hline1 := kprintf_str "CPU Brand: " "CPU Brand: %s\n" (by decide) (by decide)
    (hb.symm ▸ hbrand) (hb.symm ▸ hlen _ (show 48 ≤ 48 by decide)) isReady (junk (2 * 1))
    (junk (2 * 1 + 1))
  have hline2 := kprintf_int "Logical Processors Per Core: " "Logical Processors Per Core: %d\n" (by decide)
    (by decide) hperCore isReady (junk (2 * 2)) (junk (2 * 2 + 1))
  have hline3 := kprintf_int "Total Logical Processors: " "Total Logical Processors: %d\n" (by decide)
    (by decide) (toNat_and_lt (cpu.level 0).ebx) isReady (junk (2 * 3)) (junk (2 * 3 + 1))
  rw [hv] at hline0
  rw [hb] at hline1
  have hcount : (cpu.level 0).count = (cpu.level 0).ebx &&& 0xFFFF := rfl
  simp only [reportCpuDetails, hline0, hline1, getCpuTopology_of_leaves hn, hline2, hcount, hline3,
    Option.bind_eq_bind, Option.bind_some]
  rw [Cpuid.report]
  by_cases hf : (getCpuFrequency cpu).1 = 0 ∧ (getCpuFrequency cpu).2.1 = 0 ∧
      (getCpuFrequency cpu).2.2 = 0
  · have hline4 := kprintf_plain "CPU Frequency (0x16) not supported.\n" (by decide) isReady (junk (2 * 4))
      (junk (2 * 4 + 1))
    rw [if_pos hf, if_pos hf, hline4]
    rfl
  · have hline4 := kprintf_int "Base Frequency: " "Base Frequency: %d\n" (by decide) (by decide)
      (toNat_and_lt (cpu.leaf 0x16).eax) isReady (junk (2 * 4)) (junk (2 * 4 + 1))
    have hline5 := kprintf_int "Max Frequency: " "Max Frequency: %d\n" (by decide) (by decide)
      (toNat_and_lt (cpu.leaf 0x16).ebx) isReady (junk (2 * 5)) (junk (2 * 5 + 1))
    have hline6 := kprintf_int "Bus Frequency: " "Bus Frequency: %d\n" (by decide) (by decide)
      (toNat_and_lt (cpu.leaf 0x16).ecx) isReady (junk (2 * 6)) (junk (2 * 6 + 1))
    rw [if_neg hf, if_neg hf]
    simp only [getCpuFrequency, hline4, hline5, hline6, Option.bind_some]
    rfl

/-- Two logical processors at the first level, 16 at the core level. -/
def sampleCpuid : Cpuid where
  leaf i :=
    if i = 0 then ⟨0x20, 0x756E6547, 0x6C65746E, 0x49656E69⟩
    else if i = 0x80000002 then ⟨0x756E6547, 0x00656E69, 0, 0⟩
    else if i = 0x16 then ⟨3600, 5000, 100, 0⟩
    else ⟨0, 0, 0, 0⟩
  level i :=
    if i = 0 then ⟨1, 2, 0x100, 0⟩ else if i = 1 then ⟨4, 16, 0x201, 0⟩ else ⟨0, 0, i, 0⟩

theorem reportCpuDetails_lines_sample : (reportCpuDetails true sampleCpuid fun _ _ => 7).map (·.take 4) =
    some ([logLine "CPU Vendor: " (bytes "GenuineIntel"), logLine "CPU Brand: " (bytes "Genuine"),
      logLine "Logical Processors Per Core: " (bytes "16"),
      logLine "Total Logical Processors: " (bytes "2")].map (bothLogs true)) := by
  have hleaves : sampleCpuid.Leaves 1 := ⟨by decide, by decide, by decide⟩
  have hstrings : sampleCpuid.vendor = bytes "GenuineIntel" ∧ sampleCpuid.brand = bytes "Genuine" := by
    decide
  have hnumbers : numberLine "Logical Processors Per Core: " (sampleCpuid.perCore 1)
        = logLine "Logical Processors Per Core: " (bytes "16") ∧
      numberLine "Total Logical Processors: " (sampleCpuid.level 0).count
        = logLine "Total Logical Processors: " (bytes "2") := by
    have hcounts : (sampleCpuid.perCore 1).toNat = 16 ∧ (sampleCpuid.level 0).count.toNat = 2 := by decide
    rw [numberLine, numberLine, hcounts.1, hcounts.2]
    simp [numeral, digitsOf]
    decide
  rw [reportCpuDetails_lines sampleCpuid hleaves (by decide) (by decide), Cpuid.report, hstrings.1,
    hstrings.2, hnumbers.1, hnumbers.2]
  rfl

end BloreOs
