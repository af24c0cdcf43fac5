import BloreOs.Acpi.Basic
import BloreOs.Lib.Loop

/-!
# Parsing the MADT (`_parse_madt`)

The table is a header of 44 bytes and records, each of which starts with a type and a length. The
walk over the records is to end with the table, but it compares the distance from the first record
with the length of the whole table. So it goes on for up to 44 bytes behind the table:

* `parseMadt_returns` — the walk ends, whatever the memory holds,
* `parseMadt_reads_end` — on a table made of records it always reads the byte behind the table,
* `not_parsesTable` — so what it finds never depends on the table alone.

The log output of `kprintf` is left out, but not the fields that it reads.
-/

namespace BloreOs

open Loop

/-! ## The function -/

/-- `sizeof(struct madt)` -/
def madtSize : Nat := 44

/-- `((struct madt *)desc)->desc.length` -/
def Acpi.descLength (a : Acpi) (desc : Nat) : Nat := a.mem.load (desc + 4) 4

/-- The bytes of the `n`-byte field at `p`. -/
def field (p n : Nat) : List Nat := List.range' p n

/-- The local `pICLItem`, the globals, and the addresses of the bytes that have been read. -/
structure MadtWalk where
  item : Nat
  acpi : Acpi
  reads : List Nat

namespace MadtWalk

variable (x : MadtWalk)

/-- `add_ioapic` and the log of an I/O APIC. -/
def ioapic : MadtWalk :=
  { x with
    acpi := { x.acpi with
      ioapicList := (x.acpi.ioapicList.add x.item).getD x.acpi.ioapicList }
    reads := x.reads ++ field (x.item + 2) 1 ++ field (x.item + 4) 4 ++ field (x.item + 8) 4 }

/-- `add_iso`. The log is inside it and reads the record only if there was room. -/
def iso : MadtWalk :=
  match x.acpi.isoList.add x.item with
  | none => x
  | some isoList =>
    { x with
      acpi := { x.acpi with isoList := isoList }
      reads := x.reads ++ field (x.item + 3) 1 ++ field (x.item + 4) 4 }

/-- The first part of the loop body: look at the type of the record. -/
def look : MadtWalk :=
  let x := { x with reads := x.reads ++ field x.item 1 }
  if x.acpi.mem x.item = 1 then x.ioapic
  else if x.acpi.mem x.item = 2 then x.iso
  else x

end MadtWalk

/-- The second part of the loop body: the length is a signed byte, and one that is not positive ends
the walk. -/
def madtForward (desc : Nat) (x : MadtWalk) : MadtWalk ⊕ MadtWalk :=
  let length := (x.acpi.mem (x.item + 1)).toInt
  let x := { x with reads := x.reads ++ field (x.item + 1) 1 }
  if length ≤ 0 then .inr x
  else
    let x := { x with item := x.item + length.toNat, reads := x.reads ++ field (desc + 4) 4 }
    if x.item - (desc + madtSize) < x.acpi.descLength desc then .inl x else .inr x

/-- One iteration of the `do` loop of `_parse_madt`. -/
def madtBody (desc : Nat) (x : MadtWalk) : MadtWalk ⊕ MadtWalk := madtForward desc x.look

/-- `_parse_madt`. Every iteration goes forward and a table is shorter than `2 ^ 32` bytes. -/
def parseMadt (desc : Nat) (a : Acpi) : Option MadtWalk :=
  loop (madtBody desc) (2 ^ 32) ⟨desc + madtSize, a, field (desc + 4) 4⟩

/-! ## One iteration -/

variable {desc e : Nat} {a : Acpi} {x y : MadtWalk} {rs : List Nat}

/-- The records of a type. -/
def Acpi.ofType (a : Acpi) (type : BitVec 8) (rs : List Nat) : List Nat :=
  rs.filter fun r => a.mem r = type

/-- **What looking at a record does**: the type is read, nothing is forgotten, and the record is
added to the list of its type. -/
theorem MadtWalk.look_eq (x : MadtWalk) : ∃ l, x.look = ⟨x.item,
    { x.acpi with
      ioapicList := x.acpi.ioapicList.addAll (x.acpi.ofType 1 [x.item])
      isoList := x.acpi.isoList.addAll (x.acpi.ofType 2 [x.item]) },
    x.reads ++ field x.item 1 ++ l⟩ := by
  unfold look
  dsimp only
  split
  · next h1 =>
    refine ⟨field (x.item + 2) 1 ++ field (x.item + 4) 4 ++ field (x.item + 8) 4, ?_⟩
    simp [h1, ioapic, PtrArray.addAll, Acpi.ofType]
  split
  · next h2 =>
    unfold iso
    split
    · next hfull => exact ⟨[], by simp [h2, PtrArray.addAll, Acpi.ofType, hfull]⟩
    · next l hroom =>
      refine ⟨field (x.item + 3) 1 ++ field (x.item + 4) 4, ?_⟩
      simp [h2, PtrArray.addAll, Acpi.ofType, hroom]
  · next h1 h2 =>
    have hf1 : x.acpi.ofType 1 [x.item] = [] := List.filter_cons_of_neg (by simpa using h1)
    have hf2 : x.acpi.ofType 2 [x.item] = [] := List.filter_cons_of_neg (by simpa using h2)
    rw [hf1, hf2]
    exact ⟨[], by simp [PtrArray.addAll]⟩

/-- The lists after the records `rs` have been looked at. -/
def Acpi.added (a : Acpi) (rs : List Nat) : Acpi :=
  { a with
    ioapicList := a.ioapicList.addAll (a.ofType 1 rs)
    isoList := a.isoList.addAll (a.ofType 2 rs) }

theorem Acpi.added_added (a : Acpi) (rs rs' : List Nat) : (a.added rs).added rs' = a.added (rs ++ rs') := by
  unfold added ofType
  simp only [List.filter_append, PtrArray.addAll_append]

/-- The walk once it has seen its record and is at `item`. It has read `l` besides the type. -/
def MadtWalk.seen (x : MadtWalk) (item : Nat) (l : List Nat) : MadtWalk :=
  ⟨item, x.acpi.added [x.item], x.reads ++ field x.item 1 ++ l⟩

/-- **One iteration.** -/
theorem madtBody_cases (desc : Nat) (x : MadtWalk) : ∃ l,
    ((x.acpi.mem (x.item + 1)).toInt ≤ 0 ∧ madtBody desc x = .inr (x.seen x.item l)) ∨
    (0 < (x.acpi.mem (x.item + 1)).toInt ∧
      x.item + (x.acpi.mem (x.item + 1)).toInt.toNat - (desc + madtSize) < x.acpi.descLength desc ∧
      madtBody desc x = .inl (x.seen (x.item + (x.acpi.mem (x.item + 1)).toInt.toNat) l)) ∨
    (0 < (x.acpi.mem (x.item + 1)).toInt ∧
      x.acpi.descLength desc ≤ x.item + (x.acpi.mem (x.item + 1)).toInt.toNat - (desc + madtSize) ∧
      madtBody desc x = .inr (x.seen (x.item + (x.acpi.mem (x.item + 1)).toInt.toNat) l)) := by
  obtain ⟨l, hl⟩ := x.look_eq
  have hlook : x.look = x.seen x.item l := hl
  have hmem : (x.acpi.added [x.item]).mem = x.acpi.mem := rfl
  have hlen : (x.acpi.added [x.item]).descLength desc = x.acpi.descLength desc := rfl
  unfold madtBody madtForward
  rw [hlook]
  unfold MadtWalk.seen
  dsimp only
  rw [hmem, hlen]
  by_cases hpos : (x.acpi.mem (x.item + 1)).toInt ≤ 0
  · refine ⟨l ++ field (x.item + 1) 1, Or.inl ⟨hpos, ?_⟩⟩
    rw [if_pos hpos, List.append_assoc (x.reads ++ field x.item 1)]
  · refine ⟨l ++ (field (x.item + 1) 1 ++ field (desc + 4) 4), Or.inr ?_⟩
    rw [if_neg hpos]
    by_cases hin : x.item + (x.acpi.mem (x.item + 1)).toInt.toNat - (desc + madtSize)
        < x.acpi.descLength desc
    · refine Or.inl ⟨by omega, hin, ?_⟩
      rw [if_pos hin]
      simp only [List.append_assoc]
    · refine Or.inr ⟨by omega, by omega, ?_⟩
      rw [if_neg hin]
      simp only [List.append_assoc]

/-- Whether or not the walk goes on, it has seen its record. -/
theorem madtBody_seen (hy : madtBody desc x = .inl y ∨ madtBody desc x = .inr y) :
    ∃ item l, y = x.seen item l := by
  obtain ⟨l, h | h | h⟩ := madtBody_cases desc x
  · rw [h.2] at hy
    rcases hy with hy | hy <;> cases hy
    exact ⟨_, _, rfl⟩
  · rw [h.2.2] at hy
    rcases hy with hy | hy <;> cases hy
    exact ⟨_, _, rfl⟩
  · rw [h.2.2] at hy
    rcases hy with hy | hy <;> cases hy
    exact ⟨_, _, rfl⟩

/-! ## The whole walk -/

/-- Where the walk is at the head of an iteration: at the first record, or less than the length of
the table behind it. -/
def MadtWalk.InBounds (a : Acpi) (desc : Nat) (x : MadtWalk) : Prop :=
  x.acpi.mem = a.mem ∧ desc + madtSize ≤ x.item ∧
    (x.item = desc + madtSize ∨ x.item - (desc + madtSize) < a.descLength desc)

theorem MadtWalk.InBounds.descLength_eq (hx : x.InBounds a desc) :
    x.acpi.descLength desc = a.descLength desc := by
  rw [Acpi.descLength, hx.1]
  rfl

theorem MadtWalk.InBounds.step (hx : x.InBounds a desc) (hy : madtBody desc x = .inl y) :
    y.InBounds a desc ∧ a.descLength desc + 1 - (y.item - (desc + madtSize))
      < a.descLength desc + 1 - (x.item - (desc + madtSize)) := by
  have hlen := hx.descLength_eq
  obtain ⟨hmem, hle, hin⟩ := hx
  obtain ⟨l, h | ⟨hpos, hlt, h⟩ | h⟩ := madtBody_cases desc x
  · rw [h.2] at hy
    cases hy
  · rw [h] at hy
    cases hy
    rw [hlen] at hlt
    unfold InBounds seen
    dsimp only
    exact ⟨⟨hmem, by omega, Or.inr hlt⟩, by omega⟩
  · rw [h.2.2] at hy
    cases hy

theorem start_inBounds (desc : Nat) (a : Acpi) :
    MadtWalk.InBounds a desc ⟨desc + madtSize, a, field (desc + 4) 4⟩ :=
  ⟨rfl, Nat.le_refl _, Or.inl rfl⟩

/-- **The walk ends**, whatever the memory holds. -/
theorem parseMadt_returns (desc : Nat) (a : Acpi) : ∃ r, parseMadt desc a = some r := by
  have hlt : a.descLength desc < 2 ^ 32 := Memory.load_lt _ 4 _
  have hexit : ∀ (x b : MadtWalk), x.InBounds a desc → madtBody desc x = .inr b →
      True ∧ 0 < a.descLength desc + 1 - (x.item - (desc + madtSize)) := by
    rintro x b ⟨-, -, hin⟩ -
    exact ⟨trivial, by omega⟩
  obtain ⟨r, hr, -⟩ := loop_of_measure (MadtWalk.InBounds a desc)
    (fun x => a.descLength desc + 1 - (x.item - (desc + madtSize))) (fun _ => True)
    (fun _ _ hx hy => hx.step hy) hexit (2 ^ 32) _ (start_inBounds desc a) (by dsimp only; omega)
  exact ⟨r, hr⟩

/-! ## Tables that are made of records -/

/-- The records `rs` tile the bytes from `s` to `e`. The second byte of a record is its length. -/
def Tiles (m : Memory) : Nat → List Nat → Nat → Prop
  | s, [], e => s = e
  | s, r :: rs, e => r = s ∧ 2 ≤ (m (s + 1)).toNat ∧ (m (s + 1)).toNat ≤ 127 ∧
      Tiles m (s + (m (s + 1)).toNat) rs e

theorem Tiles.le {m : Memory} : ∀ {rs : List Nat} {s : Nat}, Tiles m s rs e → s ≤ e
  | [], _, h => Nat.le_of_eq h
  | _ :: _, _, ⟨_, _, _, h⟩ => by
    have := h.le
    omega

theorem Tiles.le_of_mem {m : Memory} : ∀ {rs : List Nat} {s r : Nat}, Tiles m s rs e → r ∈ rs → s ≤ r
  | _ :: _, _, _, ⟨h1, _, _, h⟩, hr => by
    rcases List.mem_cons.mp hr with rfl | hr
    · exact Nat.le_of_eq h1.symm
    · have := h.le_of_mem hr
      omega

/-- A MADT at `desc` with the records `rs`. -/
def Acpi.IsMadt (a : Acpi) (desc : Nat) (rs : List Nat) : Prop :=
  Tiles a.mem (desc + madtSize) rs (desc + a.descLength desc)

/-- The byte behind the table has been read, and what followed the records `rs` of the table has been
taken for records, too. -/
def MadtWalk.Overran (a : Acpi) (desc : Nat) (rs : List Nat) (x : MadtWalk) : Prop :=
  desc + a.descLength desc ∈ x.reads ∧ ∃ extra, 0 ∉ extra ∧ x.acpi = a.added (rs ++ extra)

/-- What the walk knows: it is at the record behind the records `done`, or it has overrun. -/
def MadtWalk.Knows (a : Acpi) (desc : Nat) (rs : List Nat) (x : MadtWalk) : Prop :=
  x.InBounds a desc ∧
    ((∃ done left, rs = done ++ left ∧ x.acpi = a.added done ∧
        Tiles a.mem x.item left (desc + a.descLength desc)) ∨ x.Overran a desc rs)

theorem toInt_of_le {b : BitVec 8} (h : b.toNat ≤ 127) : b.toInt = b.toNat := by
  rw [BitVec.toInt_eq_toNat_cond, if_pos (by omega)]

/-- The iteration at the end of the table, and every iteration behind it, overruns. -/
theorem MadtWalk.Overran.of_body (hx : x.InBounds a desc)
    (hend : (x.item = desc + a.descLength desc ∧ x.acpi = a.added rs) ∨ x.Overran a desc rs)
    (hy : madtBody desc x = .inl y ∨ madtBody desc x = .inr y) : y.Overran a desc rs := by
  obtain ⟨item, l, rfl⟩ := madtBody_seen hy
  have hne : x.item ≠ 0 := by
    have := hx.2.1
    unfold madtSize at this
    omega
  rcases hend with ⟨hitem, hadded⟩ | ⟨hmem, extra, hextra, hadded⟩
  · refine ⟨?_, [x.item], by simpa using hne.symm, ?_⟩
    · rw [← hitem]
      simp [seen, field]
    · rw [seen, hadded, Acpi.added_added]
  · refine ⟨?_, extra ++ [x.item], ?_, ?_⟩
    · simp [seen, hmem]
    · rw [List.mem_append, List.mem_singleton]
      exact not_or.mpr ⟨hextra, hne.symm⟩
    · rw [seen, hadded, Acpi.added_added, List.append_assoc]

/-- At a record of the table, the walk goes on to the next one. -/
theorem madtBody_record {r : Nat} {left : List Nat} (hx : x.InBounds a desc)
    (ht : Tiles a.mem x.item (r :: left) (desc + a.descLength desc)) :
    ∃ l, madtBody desc x = .inl (x.seen (x.item + (a.mem (x.item + 1)).toNat) l) := by
  obtain ⟨-, h2, h127, hrest⟩ := ht
  have hlen := hx.descLength_eq
  have hle := hrest.le
  obtain ⟨hmem, hstart, -⟩ := hx
  have hint : (x.acpi.mem (x.item + 1)).toInt = (a.mem (x.item + 1)).toNat := by
    rw [hmem, toInt_of_le h127]
  have hnat : (x.acpi.mem (x.item + 1)).toInt.toNat = (a.mem (x.item + 1)).toNat := by
    rw [hint, Int.toNat_natCast]
  obtain ⟨l, h⟩ := madtBody_cases desc x
  rw [hnat, hint, hlen] at h
  rcases h with ⟨hneg, -⟩ | ⟨-, -, h⟩ | ⟨-, hout, -⟩
  · omega
  · exact ⟨l, h⟩
  · -- the next record is still less than the table's length away
    unfold madtSize at hout hstart
    omega

theorem MadtWalk.Knows.step (hx : x.Knows a desc rs) (hy : madtBody desc x = .inl y) :
    y.Knows a desc rs := by
  obtain ⟨hin, ⟨done, left, rfl, hadded, ht⟩ | hover⟩ := hx
  · refine ⟨(hin.step hy).1, ?_⟩
    cases left with
    | nil =>
      rw [List.append_nil] at *
      exact Or.inr (Overran.of_body hin (Or.inl ⟨ht, hadded⟩) (Or.inl hy))
    | cons r left =>
      obtain ⟨l, h⟩ := madtBody_record hin ht
      rw [h] at hy
      cases hy
      refine Or.inl ⟨done ++ [r], left, by simp, ?_, ht.2.2.2⟩
      rw [seen, hadded, Acpi.added_added, ht.1]
  · exact ⟨(hin.step hy).1, Or.inr (Overran.of_body hin (Or.inr hover) (Or.inl hy))⟩

/-- The walk does not end on a record of the table. -/
theorem MadtWalk.Knows.exit (hx : x.Knows a desc rs) (hy : madtBody desc x = .inr y) :
    y.Overran a desc rs := by
  obtain ⟨hin, ⟨done, left, rfl, hadded, ht⟩ | hover⟩ := hx
  · cases left with
    | nil =>
      rw [List.append_nil] at *
      exact Overran.of_body hin (Or.inl ⟨ht, hadded⟩) (Or.inr hy)
    | cons r left =>
      obtain ⟨l, h⟩ := madtBody_record hin ht
      rw [h] at hy
      cases hy
  · exact Overran.of_body hin (Or.inr hover) (Or.inr hy)

/-- **On a table made of records the walk reads the byte behind the table.** -/
theorem parseMadt_reads_end (h : a.IsMadt desc rs) : ∃ r, parseMadt desc a = some r ∧
    r.Overran a desc rs := by
  have hlt : a.descLength desc < 2 ^ 32 := Memory.load_lt _ 4 _
  have hstart : MadtWalk.Knows a desc rs ⟨desc + madtSize, a, field (desc + 4) 4⟩ :=
    ⟨start_inBounds desc a, Or.inl ⟨[], rs, rfl, rfl, h⟩⟩
  have hexit : ∀ (x b : MadtWalk), x.Knows a desc rs → madtBody desc x = .inr b →
      b.Overran a desc rs ∧ 0 < a.descLength desc + 1 - (x.item - (desc + madtSize)) := by
    intro x b hx hb
    refine ⟨hx.exit hb, ?_⟩
    obtain ⟨⟨-, -, hin⟩, -⟩ := hx
    omega
  exact loop_of_measure (MadtWalk.Knows a desc rs)
    (fun x => a.descLength desc + 1 - (x.item - (desc + madtSize))) (MadtWalk.Overran a desc rs)
    (fun _ _ hx hy => ⟨hx.step hy, (hx.1.step hy).2⟩) hexit (2 ^ 32) _ hstart
    (by dsimp only; omega)

/-- What parsing a table should be: nothing behind the table is read, and the lists hold the first
records of the two types. -/
def ParsesTable (m : Memory) (desc : Nat) (rs : List Nat) : Prop :=
  let a := Acpi.zero m
  ∃ r, parseMadt desc a = some r ∧ (∀ p ∈ r.reads, p < desc + a.descLength desc) ∧
    r.acpi.ioapicList = PtrArray.filled ioapicListLen (a.ofType 1 rs) ∧
    r.acpi.isoList = PtrArray.filled isoListLen (a.ofType 2 rs)

/-- The lists hold the records of the table and then those behind it. -/
theorem Acpi.added_zero {m : Memory} (h : 0 ∉ rs) :
    ((Acpi.zero m).added rs).ioapicList = PtrArray.filled ioapicListLen ((Acpi.zero m).ofType 1 rs) ∧
      ((Acpi.zero m).added rs).isoList = PtrArray.filled isoListLen ((Acpi.zero m).ofType 2 rs) := by
  have hof : ∀ t, 0 ∉ (Acpi.zero m).ofType t rs := fun t hm => h (List.mem_of_mem_filter hm)
  refine ⟨?_, ?_⟩
  · show (PtrArray.empty ioapicListLen).addAll _ = _
    rw [← PtrArray.filled_nil, PtrArray.addAll_filled _ List.not_mem_nil (hof 1), List.nil_append]
  · show (PtrArray.empty isoListLen).addAll _ = _
    rw [← PtrArray.filled_nil, PtrArray.addAll_filled _ List.not_mem_nil (hof 2), List.nil_append]

/--
**No table is parsed from its own bytes alone.**

For every MADT that consists of records the walk ends, but only after it has read the byte behind
the table; the lists hold the records of the table and of what follows it.
-/
theorem not_parsesTable (m : Memory) (desc : Nat) (rs : List Nat)
    (h : (Acpi.zero m).IsMadt desc rs) : ¬ ParsesTable m desc rs ∧
      ∃ r extra, parseMadt desc (Acpi.zero m) = some r ∧
        desc + (Acpi.zero m).descLength desc ∈ r.reads ∧
        r.acpi.ioapicList = PtrArray.filled ioapicListLen ((Acpi.zero m).ofType 1 (rs ++ extra)) ∧
        r.acpi.isoList = PtrArray.filled isoListLen ((Acpi.zero m).ofType 2 (rs ++ extra)) := by
  obtain ⟨r, hr, hread, extra, hextra, hadded⟩ := parseMadt_reads_end h
  refine ⟨?_, r, extra, hr, hread, ?_⟩
  · rintro ⟨r', hr', hbelow, -⟩
    obtain rfl : r = r' := Option.some.inj (hr.symm.trans hr')
    exact Nat.lt_irrefl _ (hbelow _ hread)
  · have hne : 0 ∉ rs ++ extra := by
      rw [List.mem_append]
      refine not_or.mpr ⟨fun hm => ?_, hextra⟩
      have := h.le_of_mem hm
      unfold madtSize at this
      omega
    rw [hadded]
    exact Acpi.added_zero hne

/-- An empty table at 0x1000, with the bytes of an I/O APIC behind it. -/
def emptyMadt : Memory := fun p =>
  if p = 0x1004 then 44
  else if p = 0x1000 + 44 then 1
  else if p = 0x1000 + 45 then 12
  else 0

theorem emptyMadt_isMadt : (Acpi.zero emptyMadt).IsMadt 0x1000 [] := by
  show 0x1000 + madtSize = 0x1000 + (Acpi.zero emptyMadt).descLength 0x1000
  decide +kernel

theorem not_parsesTable_empty : ¬ ParsesTable emptyMadt 0x1000 [] :=
  (not_parsesTable emptyMadt 0x1000 [] emptyMadt_isMadt).1

/-- The I/O APIC behind the empty table is found. -/
theorem emptyMadt_finds_ioapic : (Acpi.zero emptyMadt).IsMadt 0x1000 [] ∧
    ((parseMadt 0x1000 (Acpi.zero emptyMadt)).map fun r => r.acpi.ioapicList.listed) =
      some [0x102c] ∧
    ¬ ParsesTable emptyMadt 0x1000 [] := by
  have hfind : ((parseMadt 0x1000 (Acpi.zero emptyMadt)).map fun r => r.acpi.ioapicList.listed) =
      some [0x102c] := by decide +kernel
  refine ⟨emptyMadt_isMadt, hfind, ?_⟩
  rintro ⟨r, hr, -, hlist, -⟩
  rw [hr] at hfind
  rw [Option.map_some, hlist] at hfind
  exact absurd hfind (by decide)

end BloreOs
