import Mathlib.Algebra.Order.Ring.Nat
import Mathlib.Data.List.Basic

/-!
# Lines on a page

A stream of characters is broken into lines of at most `cols` characters. A line ends at the line
break `nl`, or right after its last character that fits. A `Page` holds the lines that have ended
and the line that is being written.
-/

/-- Completed lines, and the current one. -/
structure Page (α : Type) where
  done : List (List α)
  cur : List α

namespace Page

variable {α : Type} [DecidableEq α] {nl c : α} {cols : Nat} {p : Page α}

/-- A page with nothing on it. -/
def empty : Page α := ⟨[], []⟩

/-- End the current line. -/
def endLine (p : Page α) (line : List α) : Page α := ⟨p.done ++ [line], []⟩

/-- One more character. -/
def put (nl : α) (cols : Nat) (p : Page α) (c : α) : Page α :=
  if c = nl then p.endLine p.cur
  else if p.cur.length + 1 = cols then p.endLine (p.cur ++ [c])
  else ⟨p.done, p.cur ++ [c]⟩

/-- More characters. -/
def putAll (nl : α) (cols : Nat) (p : Page α) (cs : List α) : Page α := cs.foldl (put nl cols) p

/-- The last `n` completed lines. -/
def last (p : Page α) (n : Nat) : List (List α) := p.done.drop (p.done.length - n)

/-! ## One character -/

theorem put_of_eq (hc : c = nl) : put nl cols p c = p.endLine p.cur := if_pos hc

theorem put_of_last (hc : c ≠ nl) (hlast : p.cur.length + 1 = cols) :
    put nl cols p c = p.endLine (p.cur ++ [c]) := by
  rw [put, if_neg hc, if_pos hlast]

theorem put_of_room (hc : c ≠ nl) (hlast : p.cur.length + 1 ≠ cols) :
    put nl cols p c = ⟨p.done, p.cur ++ [c]⟩ := by
  rw [put, if_neg hc, if_neg hlast]

/-! ## The last lines -/

section Last

omit [DecidableEq α]

variable {n : Nat}

@[simp]
theorem length_done_endLine (p : Page α) (line : List α) :
    (p.endLine line).done.length = p.done.length + 1 := by
  simp [endLine]

theorem length_last (h : n ≤ p.done.length) : (p.last n).length = n := by
  rw [last, List.length_drop, Nat.sub_sub_self h]

/-- One line more of the page. -/
theorem last_endLine_succ (p : Page α) (n : Nat) (line : List α) :
    (p.endLine line).last (n + 1) = p.last n ++ [line] := by
  rw [last, length_done_endLine, Nat.add_sub_add_right]
  exact List.drop_append_of_le_length (Nat.sub_le _ _)

/-- As many lines as before: the oldest one goes. -/
theorem last_endLine (h : n ≤ p.done.length) (line : List α) :
    (p.endLine line).last n = (p.last n ++ [line]).tail := by
  rw [← last_endLine_succ p n, last, last, List.tail_drop, length_done_endLine]
  congr 1
  omega

end Last

end Page
