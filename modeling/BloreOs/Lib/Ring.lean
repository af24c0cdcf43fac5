import Mathlib.Data.List.Basic
import Mathlib.Data.Nat.ModEq
import Mathlib.Logic.Function.Basic

/-!
# Windows of a circular buffer

`window f len start n` lists the `n` slots of a buffer of `len` slots from `start` on, wrapping
around at the end. A queue is such a window: putting extends it by the slot behind it
(`window_push`), taking drops its first slot (`window_pop`).
-/

namespace Ring

variable {α : Type} {f : Nat → α} {len start n i : Nat}

/-- The contents of `n` slots from `start` on. -/
def window (f : Nat → α) (len start n : Nat) : List α :=
  (List.range n).map fun i => f ((start + i) % len)

/-- Different offsets below the length are different slots. -/
theorem slot_ne (hi : i < n) (hn : n < len) : (start + i) % len ≠ (start + n) % len := by
  intro h
  have h1 : start + i ≡ start + n [MOD len] := h
  have h2 : i ≡ n [MOD len] := Nat.ModEq.add_left_cancel' start h1
  have h3 : i % len = n % len := h2
  rw [Nat.mod_eq_of_lt (by omega), Nat.mod_eq_of_lt hn] at h3
  omega

/-- **Putting** a value into the slot behind the window extends the window. -/
theorem window_push (hn : n < len) (v : α) :
    window (Function.update f ((start + n) % len) v) len start (n + 1)
      = window f len start n ++ [v] := by
  unfold window
  rw [List.range_succ, List.map_append, List.map_singleton, Function.update_self]
  congr 1
  refine List.map_congr_left fun i hi => ?_
  exact Function.update_of_ne (slot_ne (List.mem_range.mp hi) hn) _ _

/-- **Taking** the first slot leaves the window behind it. -/
theorem window_pop : window f len start (n + 1)
    = f (start % len) :: window f len ((start + 1) % len) n := by
  unfold window
  rw [List.range_succ_eq_map, List.map_cons, List.map_map, Nat.add_zero]
  congr 1
  refine List.map_congr_left fun i _ => ?_
  show f ((start + (i + 1)) % len) = f (((start + 1) % len + i) % len)
  rw [Nat.mod_add_mod, Nat.add_assoc, Nat.add_comm 1 i]

/-- The next slot, as a counter that is reset at the end computes it. -/
theorem next_eq (hi : i < len) : (if i + 1 = len then 0 else i + 1) = (i + 1) % len := by
  split
  · next h => rw [h, Nat.mod_self]
  · next h => exact (Nat.mod_eq_of_lt (by omega)).symm

end Ring
