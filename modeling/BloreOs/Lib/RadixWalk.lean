import Mathlib.Data.List.Basic

/-!
# Walks through a tree of tables

A walk starts at the address of a table and follows a list of indices. At every index it reads one
slot; an entry that is present leads to the next table, any other entry ends the walk. What the walk
does is the list of the slots that it reads and the address behind the last entry.

Two walks of the same tables may only differ in the address that they take from an entry.
`walk_eq_iff` says when they do the same: when they agree on the present entries of one of them.
-/

namespace RadixWalk

variable {A E I R : Type}

/-- Where the entries of a table are, and which of them are present. -/
structure Tables (A E I : Type) where
  slot : A → I → A
  read : A → E
  present : E → Bool

variable {T : Tables A E I} {base base' : E → A} {a : A}

/-- Follow the indices from the table at `a`. `base` is the address in an entry. -/
def walk (T : Tables A E I) (base : E → A) : List I → A → List A × Option A
  | [], a => ([], some a)
  | i :: is, a =>
    if T.present (T.read (T.slot a i)) then
      let (slots, result) := walk T base is (base (T.read (T.slot a i)))
      (T.slot a i :: slots, result)
    else ([T.slot a i], none)

theorem walk_present {i : I} {is : List I} (h : T.present (T.read (T.slot a i)) = true) :
    walk T base (i :: is) a =
      (T.slot a i :: (walk T base is (base (T.read (T.slot a i)))).1,
        (walk T base is (base (T.read (T.slot a i)))).2) := by
  rw [walk, if_pos h]

theorem walk_not_present {i : I} {is : List I} (h : T.present (T.read (T.slot a i)) = false) :
    walk T base (i :: is) a = ([T.slot a i], none) := by
  rw [walk, if_neg (by simp [h])]

theorem head?_walk_cons (i : I) (is : List I) (a : A) :
    (walk T base (i :: is) a).1.head? = some (T.slot a i) := by
  cases hp : T.present (T.read (T.slot a i)) with
  | false => rw [walk_not_present hp, List.head?_cons]
  | true => rw [walk_present hp, List.head?_cons]

/--
**When two walks do the same.**

The result is seen through `out`, which may not confuse the addresses that the two take from one
entry.
-/
theorem walk_eq_iff (base base' : E → A) (hslot : ∀ a a' i, T.slot a i = T.slot a' i → a = a') (out : Option A → R)
    (hout : ∀ e, out (some (base e)) = out (some (base' e)) → base e = base' e) :
    ∀ (is : List I) (a : A),
      ((walk T base is a).1 = (walk T base' is a).1 ∧
          out (walk T base is a).2 = out (walk T base' is a).2) ↔
        ∀ s ∈ (walk T base' is a).1, T.present (T.read s) = true →
          base (T.read s) = base' (T.read s)
  | [], a => by simp [walk]
  | i :: is, a => by
    cases hp : T.present (T.read (T.slot a i)) with
    | false =>
      rw [walk_not_present hp, walk_not_present hp]
      simp [hp]
    | true =>
      rw [walk_present hp, walk_present hp, List.forall_mem_cons]
      by_cases hbase : base (T.read (T.slot a i)) = base' (T.read (T.slot a i))
      · rw [hbase, List.cons_inj_right, walk_eq_iff base base' hslot out hout is]
        exact ⟨fun h => ⟨fun _ => rfl, h⟩, fun h => h.2⟩
      · refine iff_of_false ?_ fun h => hbase (h.1 hp)
        rintro ⟨hslots, hres⟩
        cases is with
        | nil => exact hbase (hout _ hres)
        | cons j js =>
          -- the next slots lie in different tables
          have hhead := congrArg List.head? ((List.cons_inj_right _).mp hslots)
          rw [head?_walk_cons, head?_walk_cons, Option.some.injEq] at hhead
          exact hbase (hslot _ _ _ hhead)

end RadixWalk
