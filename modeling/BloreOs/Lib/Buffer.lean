import Mathlib.Algebra.Order.Ring.Nat
import Mathlib.Data.List.Basic
import Mathlib.Logic.Function.Basic

/-!
# Buffers without bounds

C reads and writes through a pointer, whatever the size of the array behind it. A `Buffer` is that
pointer: an element at every index, and the `extent` that accesses have reached so far. An array of
`n` elements has been respected if the extent is at most `n`.

`fill` and `move` are `memset` and `memmove`. `move` copies element by element, in the direction
that leaves an overlapping source intact; `data_move` and `data_move_any` say that it does, and
`data_copy_up` what becomes of a source that is always copied from its start.
-/

/-- Elements, and one more than the highest index that has been accessed. -/
structure Buffer (α : Type) where
  data : Nat → α
  extent : Nat

namespace Buffer

variable {α : Type} {b b' : Buffer α} {i j k n : Nat} {c : α} {cs ds : List α}

/-- `b[i] = c`. -/
def write (b : Buffer α) (i : Nat) (c : α) : Buffer α where
  data := Function.update b.data i c
  extent := max b.extent (i + 1)

/-- Read `b[i]`: the elements stay as they are. -/
def access (b : Buffer α) (i : Nat) : Buffer α where
  data := b.data
  extent := max b.extent (i + 1)

/-- Exchange two elements. -/
def swap (b : Buffer α) (i j : Nat) : Buffer α := (b.write i (b.data j)).write j (b.data i)

/-- Write a list of elements from index `i` on. -/
def writeAll : Buffer α → Nat → List α → Buffer α
  | b, _, [] => b
  | b, i, c :: cs => writeAll (b.write i c) (i + 1) cs

/-- The `n` elements from index `i` on. -/
def slice (b : Buffer α) (i n : Nat) : List α := (List.range n).map fun k => b.data (i + k)

/-- Give `n` elements from index `i` on the same value. -/
def fill (b : Buffer α) (i n : Nat) (c : α) : Buffer α where
  data k := if i ≤ k ∧ k < i + n then c else b.data k
  extent := if n = 0 then b.extent else max b.extent (i + n)

/-- `b[i] = b[j]`. -/
def copy (b : Buffer α) (i j : Nat) : Buffer α where
  data := Function.update b.data i (b.data j)
  extent := max b.extent (max i j + 1)

/-- Copy `n` elements from index `j` on to index `i` on, in the order that is safe. -/
def move (b : Buffer α) (i j n : Nat) : Buffer α :=
  if i < j then (List.range n).foldl (fun b k => b.copy (i + k) (j + k)) b
  else if j < i then (List.range n).reverse.foldl (fun b k => b.copy (i + k) (j + k)) b
  else b

/-! ## Writing -/

theorem data_write : (b.write i c).data k = if k = i then c else b.data k :=
  Function.update_apply ..

@[simp] theorem data_write_same : (b.write i c).data i = c := Function.update_self ..

theorem data_write_other (h : k ≠ i) : (b.write i c).data k = b.data k := Function.update_of_ne h ..

@[simp] theorem data_access : (b.access i).data = b.data := rfl

theorem le_extent_access : b.extent ≤ (b.access i).extent := le_max_left _ _

theorem lt_extent_access : i < (b.access i).extent :=
  (Nat.lt_succ_self i).trans_le (le_max_right _ _)

theorem extent_access_le (h : b.extent ≤ n) (hi : i < n) : (b.access i).extent ≤ n := max_le h hi

theorem data_swap : (b.swap i j).data k
    = if k = j then b.data i else if k = i then b.data j else b.data k := by
  simp only [swap, write, Function.update_apply]

theorem extent_swap (hi : i < b.extent) (hj : j < b.extent) : (b.swap i j).extent = b.extent := by
  simp only [swap, write]
  omega

theorem writeAll_append : ∀ (cs : List α) {b : Buffer α} {i : Nat},
    b.writeAll i (cs ++ ds) = (b.writeAll i cs).writeAll (i + cs.length) ds
  | [], _, _ => rfl
  | c :: cs, b, i => by
    rw [List.cons_append, writeAll, writeAll, writeAll_append cs, List.length_cons,
      Nat.add_right_comm i 1, Nat.add_assoc]

theorem data_writeAll_outside : ∀ (cs : List α) {b : Buffer α} {i : Nat},
    k < i ∨ i + cs.length ≤ k → (b.writeAll i cs).data k = b.data k
  | [], _, _, _ => rfl
  | c :: cs, b, i, h => by
    rw [List.length_cons] at h
    rw [writeAll, data_writeAll_outside cs (by omega), data_write_other (by omega)]

theorem extent_writeAll : ∀ (cs : List α) {b : Buffer α} {i : Nat}, cs ≠ [] →
    (b.writeAll i cs).extent = max b.extent (i + cs.length)
  | [], _, _, h => absurd rfl h
  | [c], b, i, _ => rfl
  | c :: d :: cs, b, i, _ => by
    rw [writeAll, extent_writeAll (d :: cs) (List.cons_ne_nil _ _), write]
    simp only [List.length_cons]
    omega

/-! ## Slices -/

theorem length_slice : (b.slice i n).length = n := by simp [slice]

theorem getElem_slice (h : k < (b.slice i n).length) : (b.slice i n)[k] = b.data (i + k) := by
  simp [slice]

theorem slice_congr (h : ∀ k, i ≤ k → k < i + n → b'.data k = b.data k) :
    b'.slice i n = b.slice i n := by
  refine List.map_congr_left fun k hk => h _ (Nat.le_add_right _ _) ?_
  have := List.mem_range.mp hk
  omega

theorem slice_add (m : Nat) : b.slice i (m + n) = b.slice i m ++ b.slice (i + m) n := by
  unfold slice
  rw [List.range_add, List.map_append, List.map_map]
  simp only [Function.comp_def, Nat.add_assoc]

theorem take_slice (h : n ≤ k) : (b.slice i k).take n = b.slice i n := by
  obtain ⟨m, rfl⟩ := Nat.exists_eq_add_of_le h
  rw [slice_add, List.take_left' length_slice]

theorem slice_one : b.slice i 1 = [b.data i] := by simp [slice]

/-- An element of a text that a buffer starts with, and the text in front of it. -/
theorem slice_append_cons {l r : List α} (h : b.slice 0 (l ++ c :: r).length = l ++ c :: r) :
    b.slice 0 l.length = l ∧ b.data l.length = c := by
  rw [List.length_append, List.length_cons, Nat.add_comm r.length, slice_add, slice_add, slice_one,
    Nat.zero_add] at h
  obtain ⟨hl, hr⟩ := List.append_inj h length_slice
  rw [List.singleton_append, List.cons.injEq] at hr
  exact ⟨hl, hr.1⟩

theorem slice_writeAll : ∀ (cs : List α) {b : Buffer α} {i : Nat},
    (b.writeAll i cs).slice i cs.length = cs
  | [], _, _ => rfl
  | c :: cs, b, i => by
    rw [List.length_cons, Nat.add_comm, slice_add, slice_one, writeAll, slice_writeAll cs,
      data_writeAll_outside cs (by omega), data_write_same]
    rfl

/-! ## Filling and moving -/

theorem data_fill : (b.fill i n c).data k = if i ≤ k ∧ k < i + n then c else b.data k := rfl

theorem extent_fill (h : n ≠ 0) : (b.fill i n c).extent = max b.extent (i + n) := if_neg h

theorem extent_le_fill : b.extent ≤ (b.fill i n c).extent := by
  unfold fill
  split
  · exact le_rfl
  · exact le_max_left _ _

/-- The forward loop: what it has not reached yet is intact, and the source is ahead of it. -/
theorem move_forward (h : i < j) : ∀ n : Nat,
    (∀ k, ((List.range n).foldl (fun b k => b.copy (i + k) (j + k)) b).data k =
      if i ≤ k ∧ k < i + n then b.data (k + (j - i)) else b.data k) ∧
    ((List.range n).foldl (fun b k => b.copy (i + k) (j + k)) b).extent =
      if n = 0 then b.extent else max b.extent (j + n)
  | 0 => ⟨fun k => by rw [if_neg (by omega)]; rfl, rfl⟩
  | n + 1 => by
    obtain ⟨hdata, hext⟩ := move_forward h n
    rw [List.range_succ, List.foldl_append]
    constructor
    · intro k
      show Function.update _ (i + n) _ k = _
      rw [Function.update_apply, hdata, hdata]
      by_cases hk : k = i + n
      · rw [if_pos hk, if_neg (by omega), if_pos (by omega)]
        exact congrArg b.data (by omega)
      · rw [if_neg hk]
        by_cases hin : i ≤ k ∧ k < i + n
        · rw [if_pos hin, if_pos (by omega)]
        · rw [if_neg hin, if_neg (by omega)]
    · show max _ (max (i + n) (j + n) + 1) = _
      rw [hext, if_neg (Nat.succ_ne_zero n)]
      split <;> omega

/-- **Moving down moves every element**, also where source and destination overlap. -/
theorem data_move (h : i < j) :
    (b.move i j n).data k = if i ≤ k ∧ k < i + n then b.data (k + (j - i)) else b.data k := by
  rw [move, if_pos h, (move_forward h n).1]

/-- The backward loop: what it has not reached yet is intact, and the source is behind it. -/
theorem move_backward (h : j < i) : ∀ (n : Nat) {b : Buffer α},
    ((List.range n).reverse.foldl (fun b k => b.copy (i + k) (j + k)) b).data k =
      if i ≤ k ∧ k < i + n then b.data (j + (k - i)) else b.data k
  | 0, b => by
    rw [if_neg (by omega)]
    rfl
  | n + 1, b => by
    rw [List.range_succ, List.reverse_append, List.reverse_singleton, List.singleton_append,
      List.foldl_cons, move_backward h n]
    simp only [copy, Function.update_apply]
    by_cases hk : k = i + n
    · rw [if_neg (by omega), if_pos hk, if_pos (by omega)]
      exact congrArg b.data (by omega)
    · by_cases hin : i ≤ k ∧ k < i + n
      · rw [if_pos hin, if_neg (by omega), if_pos (by omega)]
      · rw [if_neg hin, if_neg hk, if_neg (by omega)]

/-- **Moving moves every element**, wherever source and destination are. -/
theorem data_move_any : (b.move i j n).data k
    = if i ≤ k ∧ k < i + n then b.data (j + (k - i)) else b.data k := by
  rcases Nat.lt_trichotomy i j with h | rfl | h
  · rw [data_move h]
    by_cases hin : i ≤ k ∧ k < i + n
    · rw [if_pos hin, if_pos hin]
      exact congrArg b.data (by omega)
    · rw [if_neg hin, if_neg hin]
  · rw [move, if_neg (lt_irrefl i), if_neg (lt_irrefl i)]
    by_cases hin : i ≤ k ∧ k < i + n
    · rw [if_pos hin]
      exact congrArg b.data (by omega)
    · rw [if_neg hin]
  · rw [move, if_neg (Nat.not_lt_of_lt h), if_pos h, move_backward h n]

theorem extent_move (h : i < j) (hn : n ≠ 0) : (b.move i j n).extent = max b.extent (j + n) := by
  rw [move, if_pos h, (move_forward h n).2, if_neg hn]

/-- **Copying up, whatever overlaps.** If the destination starts inside the source, the part of the
source in front of it is repeated. -/
theorem data_copy_up (b : Buffer α) (i j : Nat) : ∀ n k,
    ((List.range n).foldl (fun b k => b.copy (i + k) (j + k)) b).data k =
      if i ≤ k ∧ k < i + n then b.data (j + if j < i then (k - i) % (i - j) else k - i) else b.data k := by
  intro n
  induction n with
  | zero =>
    intro k
    rw [if_neg (by omega)]
    rfl
  | succ n ih =>
    intro k
    rw [List.range_succ, List.foldl_append]
    show Function.update _ (i + n) _ k = _
    rw [Function.update_apply, ih, ih]
    by_cases hk : k = i + n
    · rw [if_pos hk, if_pos (by omega : i ≤ k ∧ k < i + (n + 1)), hk, Nat.add_sub_cancel_left]
      by_cases hback : j < i
      · rw [if_pos hback, if_pos hback]
        by_cases hread : i ≤ j + n ∧ j + n < i + n
        · -- the byte that is read has been written
          rw [if_pos hread]
          have hper : j + n - i = n - (i - j) := by omega
          rw [hper, ← Nat.mod_eq_sub_mod (by omega)]
        · rw [if_neg hread, Nat.mod_eq_of_lt (by omega)]
      · rw [if_neg (by omega), if_neg hback]
    · rw [if_neg hk]
      by_cases hin : i ≤ k ∧ k < i + n
      · rw [if_pos hin, if_pos (by omega : i ≤ k ∧ k < i + (n + 1))]
      · rw [if_neg hin, if_neg (by omega)]

end Buffer
