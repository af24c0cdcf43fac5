import BloreOs.Lib.Buffer
import Mathlib.Data.List.TakeWhile

/-!
# Character buffers

A buffer of characters holds a C string: the characters in front of the first NUL.

`Printed b b' i cs` is what a function that prints a string leaves: the characters `cs` at index `i`
with a NUL behind them, and nothing else changed.
-/

/-- A pointer to characters. -/
abbrev CharBuffer := Buffer UInt8

namespace CharBuffer

open Buffer

variable {b : CharBuffer} {k m n : Nat} {cs : List UInt8}

/-- The string at the start of an array of `n` characters. -/
def cstr (b : CharBuffer) (n : Nat) : List UInt8 := (b.slice 0 n).takeWhile (· ≠ 0)

/-- A text without NUL is a string. -/
theorem takeWhile_no_nul (h : 0 ∉ cs) : cs.takeWhile (· ≠ 0) = cs := by
  rw [List.takeWhile_eq_self_iff]
  rintro c hc
  simpa using fun h0 : c = 0 => h (h0 ▸ hc)

theorem no_nul_takeWhile (cs : List UInt8) : 0 ∉ cs.takeWhile (· ≠ 0) := fun hmem => by
  simpa using List.mem_takeWhile_imp hmem

/-- An array that starts with a text, the character behind the text, and the rest. -/
theorem slice_of_prefix (h : b.slice 0 cs.length = cs) (m : Nat) :
    b.slice 0 (cs.length + m + 1) = cs ++ (b.data cs.length :: b.slice (cs.length + 1) m) := by
  rw [Nat.add_assoc, Nat.add_comm m, slice_add, slice_add, slice_one, h, Nat.zero_add]
  rfl

theorem data_ne_zero_of_slice (h : b.slice 0 cs.length = cs) (h0 : 0 ∉ cs) (hk : k < cs.length) :
    b.data k ≠ 0 := by
  intro hzero
  have hk' : k < (b.slice 0 cs.length).length := by rwa [length_slice]
  have hget := getElem_slice hk'
  rw [Nat.zero_add, hzero] at hget
  exact h0 (h ▸ hget ▸ List.getElem_mem hk')

/-- A string that is followed by a NUL. -/
theorem cstr_eq (hn : cs.length < n) (h : b.slice 0 cs.length = cs) (h0 : b.data cs.length = 0) :
    b.cstr n = cs.takeWhile (· ≠ 0) := by
  obtain ⟨m, rfl⟩ := Nat.exists_eq_add_of_lt hn
  rw [cstr, slice_of_prefix h, h0, List.takeWhile_append,
    List.takeWhile_cons_of_neg (by simp), List.append_nil]
  split
  · next hall => exact ((List.takeWhile_prefix _).eq_of_length hall).symm
  · rfl

/-- A string that ends inside the array is followed by a NUL. -/
theorem of_cstr_eq (h : b.cstr n = cs) (hlen : cs.length < n) :
    b.slice 0 cs.length = cs ∧ b.data cs.length = 0 ∧ 0 ∉ cs := by
  have hprefix : cs <+: b.slice 0 n := by
    rw [← h]
    exact List.takeWhile_prefix _
  have hslice : b.slice 0 cs.length = cs := by
    rw [← take_slice hlen.le]
    exact (List.prefix_iff_eq_take.mp hprefix).symm
  have hno : 0 ∉ cs := h ▸ no_nul_takeWhile _
  refine ⟨hslice, ?_, hno⟩
  -- otherwise the string would be longer
  by_contra hne
  obtain ⟨m, rfl⟩ := Nat.exists_eq_add_of_lt hlen
  have hlong := congrArg List.length h
  rw [cstr, slice_of_prefix hslice, List.takeWhile_append, takeWhile_no_nul hno, if_pos rfl,
    List.takeWhile_cons_of_pos (by simpa using hne), List.length_append, List.length_cons] at hlong
  omega

/-- A list with a NUL in it is a string, the NUL and what comes behind. -/
theorem exists_takeWhile_append : ∀ {l : List UInt8}, 0 ∈ l →
    ∃ tail, l = l.takeWhile (· ≠ 0) ++ 0 :: tail
  | [], h => by simp at h
  | c :: l, h => by
    by_cases hc : c = 0
    · exact ⟨l, by simp [hc]⟩
    · have hl : 0 ∈ l := (List.mem_cons.mp h).resolve_left (Ne.symm hc)
      obtain ⟨tail, htail⟩ := exists_takeWhile_append hl
      refine ⟨tail, ?_⟩
      rw [List.takeWhile_cons_of_pos (by simpa using hc), List.cons_append, ← htail]

/-- The buffer starts with the string `cs`. -/
structure Spells (b : CharBuffer) (cs : List UInt8) : Prop where
  text : b.slice 0 cs.length = cs
  nul : b.data cs.length = 0
  no_nul : 0 ∉ cs

theorem Spells.data_eq (h : Spells b cs) (hk : k < cs.length) : b.data k = cs[k] := by
  have hk' : k < (b.slice 0 cs.length).length := by rwa [length_slice]
  have hget := getElem_slice hk'
  rw [Nat.zero_add] at hget
  rw [← hget]
  simp only [h.text]

theorem Spells.data_ne_zero (h : Spells b cs) (hk : k < cs.length) : b.data k ≠ 0 :=
  data_ne_zero_of_slice h.text h.no_nul hk

/-- The string `cs` and its NUL stand at index `i`. -/
def SpellsAt (data : Nat → UInt8) : Nat → List UInt8 → Prop
  | i, [] => data i = 0
  | i, c :: cs => data i = c ∧ c ≠ 0 ∧ SpellsAt data (i + 1) cs

theorem spellsAt_of_slice : ∀ (cs : List UInt8) {i : Nat}, b.slice i cs.length = cs →
    b.data (i + cs.length) = 0 → 0 ∉ cs → SpellsAt b.data i cs
  | [], _, _, hnul, _ => hnul
  | c :: cs, i, htext, hnul, h0 => by
    rw [List.length_cons, Nat.add_comm, slice_add, slice_one, List.singleton_append,
      List.cons.injEq] at htext
    rw [List.length_cons, Nat.add_comm cs.length, ← Nat.add_assoc] at hnul
    rw [List.mem_cons, not_or] at h0
    exact ⟨htext.1, Ne.symm h0.1, spellsAt_of_slice cs htext.2 hnul h0.2⟩

theorem Spells.spellsAt (h : Spells b cs) : SpellsAt b.data 0 cs :=
  spellsAt_of_slice cs h.text (by rw [Nat.zero_add]; exact h.nul) h.no_nul

/-! ## A string in an array -/

/-- An array of `n` characters that has been respected holds the string `cs`. -/
structure Holds (b : CharBuffer) (n : Nat) (cs : List UInt8) : Prop where
  extent_le : b.extent ≤ n
  text : b.slice 0 cs.length = cs
  nul : b.data cs.length = 0
  no_nul : 0 ∉ cs
  length_lt : cs.length < n

theorem holds_iff : Holds b n cs ↔
    b.extent ≤ n ∧ (∃ k < n, b.data k = 0) ∧ b.cstr n = cs := by
  constructor
  · intro h
    refine ⟨h.extent_le, ⟨_, h.length_lt, h.nul⟩, ?_⟩
    rw [cstr_eq h.length_lt h.text h.nul, takeWhile_no_nul h.no_nul]
  · rintro ⟨hext, ⟨k, hk, hnul⟩, hcs⟩
    have hlen : cs.length < n := by
      have hmem : (0 : UInt8) ∈ b.slice 0 n := by
        rw [← hnul]
        exact List.mem_map.mpr ⟨k, List.mem_range.mpr hk, by rw [Nat.zero_add]⟩
      obtain ⟨tail, htail⟩ := exists_takeWhile_append hmem
      have hlength := congrArg List.length htail
      rw [length_slice, List.length_append, List.length_cons] at hlength
      rw [← hcs, cstr]
      omega
    obtain ⟨h1, h2, h3⟩ := of_cstr_eq hcs hlen
    exact ⟨hext, h1, h2, h3, hlen⟩

namespace Holds

theorem spells (h : Holds b n cs) : Spells b cs := ⟨h.text, h.nul, h.no_nul⟩

theorem data_ne_zero (h : Holds b n cs) (hk : k < cs.length) : b.data k ≠ 0 :=
  data_ne_zero_of_slice h.text h.no_nul hk

/-- The first character says whether the string is empty. -/
theorem data_eq_zero (h : Holds b n cs) (h0 : b.data 0 = 0) : cs = [] := by
  by_contra hne
  exact h.data_ne_zero (List.length_pos_iff.mpr hne) h0

theorem ne_nil (h : Holds b n cs) (h0 : b.data 0 ≠ 0) : cs ≠ [] := by
  rintro rfl
  exact h0 h.nul

/-- Append a character. -/
theorem push (h : Holds b n cs) {c : UInt8} (hc : c ≠ 0) (hlen : cs.length + 1 < n) :
    Holds ((b.write cs.length c).write (cs.length + 1) 0) n (cs ++ [c]) := by
  have hlength : (cs ++ [c]).length = cs.length + 1 := by simp
  have hext := h.extent_le
  refine ⟨?_, ?_, ?_, ?_, by rw [hlength]; exact hlen⟩
  · simp only [write]
    omega
  · rw [hlength, slice_add, slice_one, Nat.zero_add, data_write_other (by omega), data_write_same]
    congr 1
    refine Eq.trans (slice_congr fun k _ hk => ?_) h.text
    rw [data_write_other (by omega), data_write_other (by omega)]
  · rw [hlength, data_write_same]
  · simp [h.no_nul, Ne.symm hc]

/-- Drop the last character. -/
theorem pop (h : Holds b n cs) (hne : cs ≠ []) :
    Holds (b.write (cs.length - 1) 0) n cs.dropLast := by
  have hpos := List.length_pos_iff.mpr hne
  have hlen := h.length_lt
  have hext := h.extent_le
  refine ⟨?_, ?_, ?_, fun hmem => h.no_nul (List.dropLast_subset _ hmem), ?_⟩
  · simp only [write]
    omega
  · rw [List.length_dropLast]
    refine Eq.trans (slice_congr fun k _ hk => data_write_other (by omega)) ?_
    rw [← take_slice (Nat.sub_le _ 1), h.text, List.dropLast_eq_take]
  · rw [List.length_dropLast, data_write_same]
  · rw [List.length_dropLast]
    omega

/-- Make the string empty. -/
theorem clear (h : Holds b n cs) : Holds (b.write 0 0) n [] := by
  have hlen := h.length_lt
  have hext := h.extent_le
  refine ⟨?_, rfl, data_write_same, List.not_mem_nil, by rw [List.length_nil]; omega⟩
  simp only [write]
  omega

end Holds

/-! ## Printing -/

/-- `b'` is `b` with the string `cs` and a NUL printed at index `i`. -/
structure Printed (b b' : CharBuffer) (i : Nat) (cs : List UInt8) : Prop where
  text : b'.slice i cs.length = cs
  nul : b'.data (i + cs.length) = 0
  outside : ∀ k, k < i ∨ i + cs.length < k → b'.data k = b.data k
  extent : b'.extent = max b.extent (i + cs.length + 1)

end CharBuffer
