import BloreOs.Basic
import BloreOs.Acpi.Madt

/-!
# Finding the ACPI tables (`acpi_init`)

The RSDP leads to the XSDT, or for revisions below 2 to the RSDT, whose entries lead to the tables. The
loop over the entries keeps the last HPET and the last MCFG that it sees and parses every MADT.

* `memcmp_eq_zero` — what a comparison says,
* `entrySize_spec` — how many entries the loop takes the table to have,
* `acpiInit_eq` — what it finds, for all contents of memory.

The log output of `kprintf` is left out.
-/

namespace BloreOs

open Loop

/-- `memcmp` of the `n` bytes behind two pointers. -/
def memcmp (p1 p2 : Nat → BitVec 8) : Nat → Int
  | 0 => 0
  | n + 1 =>
    if p1 0 ≠ p2 0 then if p1 0 < p2 0 then -1 else 1
    else memcmp (fun i => p1 (i + 1)) (fun i => p2 (i + 1)) n

/-- **Two ranges compare equal exactly if they are.** -/
theorem memcmp_eq_zero : ∀ (n : Nat) {p1 p2 : Nat → BitVec 8},
    memcmp p1 p2 n = 0 ↔ ∀ i < n, p1 i = p2 i
  | 0, _, _ => by simp [memcmp]
  | n + 1, p1, p2 => by
    rw [memcmp]
    by_cases h : p1 0 = p2 0
    · rw [if_neg (not_not.mpr h), memcmp_eq_zero n]
      constructor
      · intro hrest i hi
        cases i with
        | zero => exact h
        | succ i => exact hrest i (by omega)
      · exact fun hall i hi => hall (i + 1) (by omega)
    · rw [if_pos h]
      constructor
      · intro hsign
        split at hsign <;> cases hsign
      · exact fun hall => absurd (hall 0 (by omega)) h

/-! ## The function -/

/-- The globals of `acpi.c`. -/
structure AcpiTables where
  acpi : Acpi
  hpet : Nat
  mcfg : Nat

/-- A signature in front of a table. -/
def signature (a b c d : Char) (i : Nat) : BitVec 8 := ([a, b, c, d].map fun x => BitVec.ofNat 8 x.toNat).getD i 0

/-- `SDT_APIC_HPET` -/
def sdtApicHpet : Nat → BitVec 8 := signature 'H' 'P' 'E' 'T'

/-- `SDT_APIC_SIG` -/
def sdtApicSig : Nat → BitVec 8 := signature 'A' 'P' 'I' 'C'

/-- `SDT_APIC_MCFG` -/
def sdtApicMcfg : Nat → BitVec 8 := signature 'M' 'C' 'F' 'G'

/-- `memcmp(desc->signature, sig, 4) == 0` -/
def hasSignature (m : Memory) (sig : Nat → BitVec 8) (desc : Nat) : Bool :=
  memcmp (fun i => m (desc + i)) sig 4 = 0

/-- The RSDT or the XSDT, and the width of its entries. -/
structure RootTable where
  addr : Nat
  width : Nat
deriving DecidableEq

/-- The table that the RSDP leads to. Its revision is at offset 15. -/
def rootTable (m : Memory) (rsdp offset : Nat) : RootTable :=
  if 2 ≤ m.load (rsdp + 15) 1 then ⟨add64 (m.load (rsdp + 24) 8) offset, 8⟩
  else ⟨add64 (m.load (rsdp + 16) 4) offset, 4⟩

/-- `entry_size`, in 32 bits. -/
def entrySize (m : Memory) (t : RootTable) : BitVec 32 :=
  (BitVec.ofNat 32 (m.load (t.addr + 4) 4) - 36) / BitVec.ofNat 32 t.width

/-- The table that an entry leads to. -/
def entryDesc (m : Memory) (offset : Nat) (t : RootTable) (i : Nat) : Nat :=
  add64 (m.load (t.addr + 36 + t.width * i) t.width) offset

/-- The body of the loop of `acpi_init`. -/
def visitTable (desc : Nat) (s : AcpiTables) : Option AcpiTables :=
  if hasSignature s.acpi.mem sdtApicHpet desc then some { s with hpet := desc }
  else if hasSignature s.acpi.mem sdtApicSig desc then
    (parseMadt desc s.acpi).map fun x => { s with acpi := x.acpi }
  else if hasSignature s.acpi.mem sdtApicMcfg desc then some { s with mcfg := desc }
  else some s

/-- `acpi_init`, for an RSDP at the address `rsdp` and a `vmm_higher_half_offset`. -/
def acpiInit (rsdp offset : Nat) (s : AcpiTables) : Outcome AcpiTables Unit :=
  let t := rootTable s.acpi.mem rsdp offset
  match forLoop (entrySize s.acpi.mem t).toNat (0 : BitVec 32)
      (fun i s => visitTable (entryDesc s.acpi.mem offset t i.toNat) s) s with
  | none => .spin s
  | some s => if s.mcfg = 0 then hcf s else .ret () s

/-! ## The number of entries -/

variable {m : Memory} {t : RootTable} {s : AcpiTables} {rsdp offset desc : Nat}

/--
**How many entries the loop visits.** If the length of the table counts its header, all entries that
are wholly in the table; if it does not, the subtraction wraps around and there are at least `2 ^ 28`.
-/
theorem entrySize_spec (m : Memory) (rsdp offset : Nat) :
    let t := rootTable m rsdp offset
    (36 ≤ m.load (t.addr + 4) 4 →
        36 + t.width * (entrySize m t).toNat ≤ m.load (t.addr + 4) 4 ∧
          m.load (t.addr + 4) 4 < 36 + t.width * ((entrySize m t).toNat + 1)) ∧
      (m.load (t.addr + 4) 4 < 36 → 2 ^ 28 ≤ (entrySize m t).toNat) := by
  intro t
  have hwidth : t.width = 8 ∨ t.width = 4 := by
    simp only [t, rootTable]
    split
    · exact Or.inl rfl
    · exact Or.inr rfl
  have hlen : m.load (t.addr + 4) 4 < 2 ^ 32 := Memory.load_lt m 4 _
  have hsize : (entrySize m t).toNat = (m.load (t.addr + 4) 4 + (2 ^ 32 - 36)) % 2 ^ 32 / t.width := by
    have h36 : (36 : BitVec 32).toNat = 36 := rfl
    rw [entrySize, BitVec.toNat_udiv, BitVec.toNat_sub, BitVec.toNat_ofNat, BitVec.toNat_ofNat, h36,
      Nat.mod_eq_of_lt hlen, Nat.add_comm, Nat.mod_eq_of_lt (show t.width < 2 ^ 32 by omega)]
  rw [hsize]
  rcases hwidth with hw | hw <;> rw [hw] <;> omega

/-! ## What is found -/

/-- The MADT at an address, parsed. -/
def Acpi.parsed (a : Acpi) (desc : Nat) : Acpi := ((parseMadt desc a).map (·.acpi)).getD a

/-- The loop body as a total function: `_parse_madt` always returns. -/
def AcpiTables.visit (s : AcpiTables) (desc : Nat) : AcpiTables :=
  if hasSignature s.acpi.mem sdtApicHpet desc then { s with hpet := desc }
  else if hasSignature s.acpi.mem sdtApicSig desc then { s with acpi := s.acpi.parsed desc }
  else if hasSignature s.acpi.mem sdtApicMcfg desc then { s with mcfg := desc }
  else s

theorem visitTable_eq (desc : Nat) (s : AcpiTables) : visitTable desc s = some (s.visit desc) := by
  obtain ⟨x, hx⟩ := parseMadt_returns desc s.acpi
  rw [visitTable, AcpiTables.visit, Acpi.parsed, hx]
  split
  · rfl
  · split
    · rfl
    · split <;> rfl

/-- Parsing does not write to memory. -/
theorem mem_parsed (a : Acpi) (desc : Nat) : (a.parsed desc).mem = a.mem := by
  obtain ⟨x, hx⟩ := parseMadt_returns desc a
  have hseen : ∀ x y : MadtWalk, x.acpi.mem = a.mem → madtBody desc x = .inl y ∨ madtBody desc x = .inr y →
      y.acpi.mem = a.mem := by
    intro x y hmem hy
    obtain ⟨item, l, rfl⟩ := madtBody_seen hy
    exact hmem
  have hmem : x.acpi.mem = a.mem :=
    loop_invariant (fun x : MadtWalk => x.acpi.mem = a.mem) (fun x => x.acpi.mem = a.mem)
      (fun x y h hy => hseen x y h (Or.inl hy)) (fun x y h hy => hseen x y h (Or.inr hy)) (2 ^ 32)
      (x := ⟨desc + madtSize, a, field (desc + 4) 4⟩) rfl hx
  rw [Acpi.parsed, hx]
  exact hmem

theorem mem_visit (s : AcpiTables) (desc : Nat) : (s.visit desc).acpi.mem = s.acpi.mem := by
  rw [AcpiTables.visit]
  split
  · rfl
  · split
    · exact mem_parsed s.acpi desc
    · split <;> rfl

/-- Tables with different signatures are different tables. -/
theorem hasSignature_of_ne {sig : Nat → BitVec 8} (h : hasSignature m sig desc = true)
    (sig' : Nat → BitVec 8) {i : Nat} (hi : i < 4) (hne : sig i ≠ sig' i) :
    hasSignature m sig' desc = false := by
  rw [hasSignature, decide_eq_true_eq, memcmp_eq_zero] at h
  rw [hasSignature, decide_eq_false_iff_not, memcmp_eq_zero]
  exact fun h' => hne ((h i hi).symm.trans (h' i hi))

/-- What the loop leaves after some tables: the last HPET and the last MCFG, and every MADT parsed. -/
def AcpiTables.found (s : AcpiTables) (descs : List Nat) : AcpiTables where
  acpi := (descs.filter (hasSignature s.acpi.mem sdtApicSig)).foldl Acpi.parsed s.acpi
  hpet := (descs.filter (hasSignature s.acpi.mem sdtApicHpet)).getLast?.getD s.hpet
  mcfg := (descs.filter (hasSignature s.acpi.mem sdtApicMcfg)).getLast?.getD s.mcfg

theorem foldl_visit (descs : List Nat) : ∀ s : AcpiTables, descs.foldl AcpiTables.visit s = s.found descs := by
  induction descs with
  | nil => exact fun _ => rfl
  | cons d descs ih =>
    intro s
    rw [List.foldl_cons, ih, AcpiTables.found, AcpiTables.found, mem_visit]
    by_cases hhpet : hasSignature s.acpi.mem sdtApicHpet d = true
    · have hsig := hasSignature_of_ne hhpet sdtApicSig (i := 0) (by decide) (by decide)
      have hmcfg := hasSignature_of_ne hhpet sdtApicMcfg (i := 0) (by decide) (by decide)
      simp [AcpiTables.visit, hhpet, hsig, hmcfg, List.getLast?_cons]
    · by_cases hsig : hasSignature s.acpi.mem sdtApicSig d = true
      · have hmcfg := hasSignature_of_ne hsig sdtApicMcfg (i := 0) (by decide) (by decide)
        simp [AcpiTables.visit, hhpet, hsig, hmcfg]
      · by_cases hmcfg : hasSignature s.acpi.mem sdtApicMcfg d = true
        · simp [AcpiTables.visit, hhpet, hsig, hmcfg, List.getLast?_cons]
        · simp [AcpiTables.visit, hhpet, hsig, hmcfg]

/-- The tables that the loop visits. -/
def visitedTables (m : Memory) (rsdp offset : Nat) : List Nat :=
  (List.range (entrySize m (rootTable m rsdp offset)).toNat).map (entryDesc m offset (rootTable m rsdp offset))

/-- The counter is cut to 32 bits, and the entries are read from memory, which the loop does not
write to. -/
theorem foldl_visit_entries (m : Memory) (offset : Nat) (t : RootTable) : ∀ (l : List Nat) {x : AcpiTables},
    (∀ k ∈ l, k < 2 ^ 32) → x.acpi.mem = m →
      l.foldl (fun (x : AcpiTables) k =>
        x.visit (entryDesc x.acpi.mem offset t (BitVec.ofNat 32 k).toNat)) x =
        (l.map (entryDesc m offset t)).foldl AcpiTables.visit x
  | [], _, _, _ => rfl
  | k :: l, x, hl, hx => by
    rw [List.forall_mem_cons] at hl
    have hk : (BitVec.ofNat 32 k).toNat = k := by
      rw [BitVec.toNat_ofNat]
      exact Nat.mod_eq_of_lt hl.1
    rw [List.foldl_cons, List.map_cons, List.foldl_cons, hx, hk]
    exact foldl_visit_entries m offset t l hl.2 ((mem_visit x _).trans hx)

/--
**What `acpi_init` finds.** Apart from its log, it always ends. It leaves the last HPET and the last
MCFG among the tables of the root table and has parsed every MADT in order, and it halts exactly if
there is no MCFG. The log is left out: `_parse_madt` and `add_iso` print GSIs, GSI bases and lengths
with `%d`, and `kprintf` does not return if one of them is `0x80000000`.
-/
theorem acpiInit_eq (rsdp offset : Nat) (s : AcpiTables) : acpiInit rsdp offset s =
    let s' := s.found (visitedTables s.acpi.mem rsdp offset)
    if s'.mcfg = 0 then .halt s' else .ret () s' := by
  generalize hm : s.acpi.mem = m
  generalize ht : rootTable m rsdp offset = t
  have hzero : (0 : BitVec 32).toNat ≤ (entrySize m t).toNat := Nat.zero_le _
  have hloop := forLoop_eq_foldl
    (f := fun i x => visitTable (entryDesc x.acpi.mem offset t i.toNat) x)
    (g := fun x i => x.visit (entryDesc x.acpi.mem offset t i.toNat)) (entrySize m t).isLt
    (fun i x _ => visitTable_eq _ x) hzero s
  have hfold : (List.range' 0 (entrySize m t).toNat).foldl (fun (x : AcpiTables) k =>
      x.visit (entryDesc x.acpi.mem offset t (BitVec.ofNat 32 k).toNat)) s =
        s.found (visitedTables m rsdp offset) := by
    rw [← foldl_visit, visitedTables, ht, ← List.range_eq_range']
    refine foldl_visit_entries m offset t _ (fun k hk => ?_) hm
    exact (List.mem_range.mp hk).trans (entrySize m t).isLt
  rw [acpiInit, hm]
  dsimp only
  rw [ht, hloop]
  exact congrArg (fun x : AcpiTables => if x.mcfg = 0 then Outcome.halt x else Outcome.ret () x) hfold

end BloreOs
