import BloreOs.Lib.Loop
import Mathlib.Order.Interval.Finset.Nat

/-!
# Null-terminated chains

`Path next p l` says that following `next` from `p` visits the addresses `l`, in this order, and
then meets 0. There is at most one such list (`Path.unique`), it has no repetitions
(`Path.nodup`), and a search along the chain finds the first match in it (`Path.loop_search`).
-/

namespace Chain

open Loop

/-- The addresses that a walk along `next` visits before it meets 0. -/
def Path (next : Nat → Nat) : Nat → List Nat → Prop
  | p, [] => p = 0
  | p, a :: as => p = a ∧ a ≠ 0 ∧ Path next (next a) as

/-- One step of a search for an address that passes `test`. -/
def search (test : Nat → Bool) (next : Nat → Nat) (p : Nat) : Nat ⊕ Option Nat :=
  if p = 0 then .inr none
  else if test p then .inr (some p)
  else .inl (next p)

variable {next next' : Nat → Nat} {p a : Nat} {l l' : List Nat}

namespace Path

/-- A path only depends on the links of its own addresses. -/
theorem congr : ∀ {l : List Nat} {p : Nat}, Path next p l → (∀ a ∈ l, next' a = next a) →
    Path next' p l
  | [], _, h, _ => h
  | a :: as, p, ⟨h1, h2, h3⟩, hag => by
    rw [List.forall_mem_cons] at hag
    exact ⟨h1, h2, by rw [hag.1]; exact congr h3 hag.2⟩

theorem ne_zero : ∀ {l : List Nat} {p : Nat}, Path next p l → ∀ a ∈ l, a ≠ 0
  | [], _, _ => by simp
  | b :: as, p, ⟨_, h2, h3⟩ => by
    rw [List.forall_mem_cons]
    exact ⟨h2, ne_zero h3⟩

theorem unique : ∀ {l l' : List Nat} {p : Nat}, Path next p l → Path next p l' → l = l'
  | [], [], _, _, _ => rfl
  | [], b :: _, p, h, h' => absurd (h'.1.symm.trans h) h'.2.1
  | b :: _, [], p, h, h' => absurd (h.1.symm.trans h') h.2.1
  | b :: as, c :: cs, p, h, h' => by
    obtain ⟨rfl, -, h3⟩ := h
    obtain ⟨rfl, -, h3'⟩ := h'
    rw [unique h3 h3']

/-- The rest of a path is the path of the address it starts with. -/
theorem suffix : ∀ {l l' : List Nat} {p : Nat}, Path next p (l ++ a :: l') → Path next a (a :: l')
  | [], _, _, h => ⟨rfl, h.2.1, h.2.2⟩
  | _ :: _, _, _, h => suffix h.2.2

/-- **A chain that ends has no cycle.** -/
theorem nodup : ∀ {l : List Nat} {p : Nat}, Path next p l → l.Nodup
  | [], _, _ => List.nodup_nil
  | b :: as, p, ⟨h1, h2, h3⟩ => by
    refine List.nodup_cons.mpr ⟨fun hmem => ?_, nodup h3⟩
    -- the address comes again, so its path is a proper part of itself
    obtain ⟨pre, post, rfl⟩ := List.append_of_mem hmem
    have hself : Path next b (b :: (pre ++ b :: post)) := ⟨rfl, h2, h3⟩
    have hlen := congrArg List.length (unique (suffix h3) hself)
    simp only [List.length_cons, List.length_append] at hlen
    omega

/-- A chain through addresses below `n` has fewer than `n` of them: none of them is 0. -/
theorem length_lt {n : Nat} (h : Path next p l) (hn : ∀ a ∈ l, a < n) (hpos : 0 < n) :
    l.length < n := by
  have hsub : l.toFinset ⊆ Finset.Ico 1 n := by
    intro a ha
    rw [List.mem_toFinset] at ha
    exact Finset.mem_Ico.mpr ⟨Nat.pos_of_ne_zero (h.ne_zero a ha), hn a ha⟩
  have hcard := Finset.card_le_card hsub
  rw [List.toFinset_card_of_nodup h.nodup, Nat.card_Ico] at hcard
  omega

/-- **The search along a chain** ends and finds the first match. -/
theorem loop_search (test : Nat → Bool) : ∀ {l : List Nat} {p n : Nat}, Path next p l →
    l.length < n → loop (search test next) n p = some (l.find? test)
  | [], p, n + 1, h, _ => by
    refine loop_inr ?_ n
    simp only [search, if_pos (show p = 0 from h), List.find?_nil]
  | b :: as, p, n + 1, h, hlt => by
    obtain ⟨rfl, h2, h3⟩ := h
    cases ht : test p with
    | true =>
      rw [loop_inr (b := some p) (by simp [search, h2, ht]), List.find?_cons_of_pos ht]
    | false =>
      rw [loop_inl (y := next p) (by simp [search, h2, ht]), List.find?_cons_of_neg (by simp [ht])]
      exact loop_search test h3 (Nat.lt_of_succ_lt_succ hlt)

end Path

end Chain
