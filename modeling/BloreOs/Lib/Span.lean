import Mathlib.Algebra.Order.Ring.Nat
import Mathlib.Data.Nat.Count
import Mathlib.Order.Interval.Finset.Nat

/-!
# Spans and how often they cover an address

A span is a half-open range `[base, base + len)` of addresses, page numbers or anything else
that is counted. `cover rs a` is the number of spans of `rs` that contain `a`.

A list of spans is a **partition** of a set when every member is covered once and everything else
is not covered. Stated through `cover`, that survives splitting a span (`cover_split`), moving a
span from one list to another (`cover_append`) and reordering, with no pairwise argument.
-/

/-- The half-open range `[base, base + len)`. -/
structure Span where
  base : Nat
  len : Nat
deriving DecidableEq, Repr

namespace Span

variable {r r' : Span} {rs rs' : List Span} {a n : Nat}

/-- `a` lies in the span. -/
def Has (r : Span) (a : Nat) : Prop := r.base ≤ a ∧ a < r.base + r.len

instance : Decidable (r.Has a) := inferInstanceAs (Decidable (_ ∧ _))

theorem has_iff : r.Has a ↔ r.base ≤ a ∧ a < r.base + r.len := Iff.rfl

/-- No position lies in both spans. -/
def Apart (r r' : Span) : Prop := ∀ a, r.Has a → ¬ r'.Has a

/-- The spans lie one behind the other. Other than `Apart`, this can be decided. -/
def Clear (r r' : Span) : Prop := r.base + r.len ≤ r'.base ∨ r'.base + r'.len ≤ r.base

instance : Decidable (r.Clear r') := inferInstanceAs (Decidable (_ ∨ _))

theorem Apart.symm (h : r.Apart r') : r'.Apart r := fun a h1 h2 => h a h2 h1

theorem Clear.symm (h : r.Clear r') : r'.Clear r := Or.symm h

theorem Clear.apart (h : r.Clear r') : r.Apart r' := by
  rintro a ⟨h1, h2⟩ ⟨h3, h4⟩
  rcases h with h | h <;> omega

/-- What lies behind or in front of a span does so of both its parts. -/
theorem Clear.split {b l t : Nat} (h : r.Clear ⟨b, l⟩) (ht : t ≤ l) :
    r.Clear ⟨b, t⟩ ∧ r.Clear ⟨b + t, l - t⟩ := by
  simp only [Clear] at h ⊢
  omega

/-- Non-empty disjoint spans lie one behind the other. -/
theorem Apart.clear (h : r.Apart r') (hr : 0 < r.len) (hr' : 0 < r'.len) : r.Clear r' := by
  by_contra hc
  unfold Clear at hc
  by_cases hb : r.base ≤ r'.base
  · exact h r'.base ⟨hb, by omega⟩ ⟨Nat.le_refl _, by omega⟩
  · exact h r.base ⟨Nat.le_refl _, by omega⟩ ⟨by omega, by omega⟩

/-! ## Covers -/

/-- How many spans of the list contain `a`. -/
def cover (rs : List Span) (a : Nat) : Nat := rs.countP fun r => r.Has a

@[simp] theorem cover_nil : cover [] a = 0 := rfl

theorem cover_cons : cover (r :: rs) a = cover rs a + if r.Has a then 1 else 0 := by
  simp [cover, List.countP_cons]

@[simp] theorem cover_append : cover (rs ++ rs') a = cover rs a + cover rs' a := by
  simp [cover]

theorem cover_perm (h : rs.Perm rs') : cover rs a = cover rs' a := h.countP_eq _

theorem cover_pos : 0 < cover rs a ↔ ∃ r ∈ rs, r.Has a := by
  simp [cover, List.countP_pos_iff]

theorem cover_eq_zero : cover rs a = 0 ↔ ∀ r ∈ rs, ¬ r.Has a := by
  simp [cover]

/-- Larger spans cover more. -/
theorem cover_map_le {α : Type} {f g : α → Span} {l : List α}
    (h : ∀ x ∈ l, (f x).Has a → (g x).Has a) : cover (l.map f) a ≤ cover (l.map g) a := by
  unfold cover
  rw [List.countP_map, List.countP_map]
  refine List.countP_mono_left fun x hx hfx => ?_
  simp only [Function.comp_apply, decide_eq_true_eq] at hfx ⊢
  exact h x hx hfx

/-- Exchanging one span for another. -/
theorem cover_map_exchange {α : Type} [DecidableEq α] {f g : α → Span} {l : List α} {x : α}
    (hl : l.Nodup) (hx : x ∈ l) (h : ∀ y ∈ l, y ≠ x → f y = g y) (a : Nat) :
    cover (l.map f) a + cover [g x] a = cover (l.map g) a + cover [f x] a := by
  have hrest : (l.erase x).map f = (l.erase x).map g := List.map_congr_left fun y hy =>
    h y (List.mem_of_mem_erase hy) (hl.mem_erase_iff.mp hy).1
  rw [cover_perm ((List.perm_cons_erase hx).map f), cover_perm ((List.perm_cons_erase hx).map g),
    List.map_cons, List.map_cons, cover_cons, cover_cons, cover_cons, cover_cons, hrest]
  simp only [cover_nil]
  omega

/-- Splitting a span in two covers the same positions. -/
theorem cover_split {b l t : Nat} (h : t ≤ l) :
    cover [⟨b, t⟩, ⟨b + t, l - t⟩] a = cover [⟨b, l⟩] a := by
  have hiff : (⟨b, l⟩ : Span).Has a ↔ (⟨b, t⟩ : Span).Has a ∨ (⟨b + t, l - t⟩ : Span).Has a := by
    simp only [has_iff]
    omega
  have hnot : ¬ ((⟨b, t⟩ : Span).Has a ∧ (⟨b + t, l - t⟩ : Span).Has a) := by
    simp only [has_iff]
    omega
  simp only [cover_cons, cover_nil, hiff]
  by_cases h1 : (⟨b, t⟩ : Span).Has a
  · simp [h1, show ¬ (⟨b + t, l - t⟩ : Span).Has a from fun h2 => hnot ⟨h1, h2⟩]
  · simp [h1]

/-- Two spans of lists that together cover nothing twice do not overlap. -/
theorem apart_of_cover_le_one (rs rs' : List Span) (h : ∀ a, cover rs a + cover rs' a ≤ 1)
    (hr : r ∈ rs) (hr' : r' ∈ rs') : r.Apart r' := by
  intro a ha ha'
  have h1 : 0 < cover rs a := cover_pos.mpr ⟨r, hr, ha⟩
  have h2 : 0 < cover rs' a := cover_pos.mpr ⟨r', hr', ha'⟩
  have := h a
  omega

/-- Pairwise disjoint spans cover nothing twice. -/
theorem cover_le_one (h : rs.Pairwise Apart) (a : Nat) : cover rs a ≤ 1 := by
  induction rs with
  | nil => simp
  | cons r rs ih =>
    obtain ⟨hr, hrs⟩ := List.pairwise_cons.mp h
    rw [cover_cons]
    by_cases ha : r.Has a
    · have h0 : cover rs a = 0 := cover_eq_zero.mpr fun r' hr' => hr r' hr' a ha
      rw [h0, if_pos ha]
    · rw [if_neg ha]
      exact ih hrs

/-- Spans that cover nothing twice are pairwise disjoint. -/
theorem pairwise_of_cover_le_one (h : ∀ a, cover rs a ≤ 1) : rs.Pairwise Apart := by
  induction rs with
  | nil => exact List.Pairwise.nil
  | cons r rs ih =>
    refine List.pairwise_cons.mpr ⟨?_, ih fun a => ?_⟩
    · intro r' hr' a ha ha'
      have h1 : 0 < cover rs a := cover_pos.mpr ⟨r', hr', ha'⟩
      have h2 := h a
      rw [cover_cons, if_pos ha] at h2
      omega
    · have := h a
      rw [cover_cons] at this
      omega

/-! ## Counting -/

theorem count_congr {p q : Nat → Prop} [DecidablePred p] [DecidablePred q]
    (h : ∀ i < n, p i ↔ q i) : Nat.count p n = Nat.count q n :=
  Nat.le_antisymm (Nat.count_mono_left fun i hi => (h i hi).mp)
    (Nat.count_mono_left fun i hi => (h i hi).mpr)

/-- **As many positions as there are below `m` are all below `m` only if they are the first ones.**
-/
theorem lt_count_iff {p : Nat → Prop} [DecidablePred p] (hn : ∀ i, p i → i < n) :
    (∀ i, p i → i < Nat.count p n) ↔ ∀ i j, i < j → p j → p i := by
  constructor
  · intro hlt i j hij hj
    have hle : Nat.count p n ≤ n := Nat.count_le p
    have hall : Nat.count p (Nat.count p n) = Nat.count p n := by
      refine Nat.le_antisymm (Nat.count_monotone p hle) ?_
      obtain ⟨d, hd⟩ := Nat.exists_eq_add_of_le hle
      have hrest : Nat.count (fun k => p (Nat.count p n + k)) d = 0 :=
        Nat.count_iff_forall_not.mpr fun k _ hk => by
          have := hlt _ hk
          omega
      have hsum := Nat.count_add p (Nat.count p n) d
      rw [← hd, hrest] at hsum
      omega
    exact Nat.count_iff_forall.mp hall i (hij.trans (hlt j hj))
  · intro hdown i hi
    by_contra hc
    have hall : Nat.count p (i + 1) = i + 1 := Nat.count_iff_forall.mpr fun j hj => by
      rcases Nat.lt_succ_iff_lt_or_eq.mp hj with hlt | rfl
      · exact hdown j i hlt hi
      · exact hi
    have hle : Nat.count p (i + 1) ≤ Nat.count p n := Nat.count_monotone p (hn i hi)
    omega

/-- Adding a span of new positions to a set adds its length to the count. -/
theorem count_or_has {p q : Nat → Prop} [DecidablePred p] [DecidablePred q]
    (hr : r.base + r.len ≤ n) (hq : ∀ i < n, q i ↔ p i ∨ r.Has i) (hd : ∀ i, r.Has i → ¬ p i) :
    Nat.count q n = Nat.count p n + r.len := by
  have hu : (Finset.range n).filter q
      = (Finset.range n).filter p ∪ Finset.Ico r.base (r.base + r.len) := by
    ext i
    simp only [Finset.mem_filter, Finset.mem_range, Finset.mem_union, Finset.mem_Ico]
    constructor
    · rintro ⟨hi, hqi⟩
      rcases (hq i hi).mp hqi with h | h
      · exact Or.inl ⟨hi, h⟩
      · exact Or.inr h
    · rintro (⟨hi, h⟩ | h)
      · exact ⟨hi, (hq i hi).mpr (Or.inl h)⟩
      · exact ⟨by omega, (hq i (by omega)).mpr (Or.inr h)⟩
  have hdis : Disjoint ((Finset.range n).filter p) (Finset.Ico r.base (r.base + r.len)) := by
    rw [Finset.disjoint_left]
    intro i h1 h2
    exact hd i (Finset.mem_Ico.mp h2) (Finset.mem_filter.mp h1).2
  rw [Nat.count_eq_card_filter_range, Nat.count_eq_card_filter_range, hu,
    Finset.card_union_of_disjoint hdis, Nat.card_Ico, Nat.add_sub_cancel_left]

/-- **Spans that cover nothing twice cover as many positions as their lengths add up to.** -/
theorem count_cover : ∀ (rs : List Span), (∀ a, cover rs a ≤ 1) → (∀ r ∈ rs, r.base + r.len ≤ n) →
    Nat.count (fun i => 0 < cover rs i) n = (rs.map len).sum
  | [], _, _ => by simp
  | r :: rs, h, hn => by
    have hone : ∀ a, cover rs a ≤ 1 := by
      intro a
      have := h a
      rw [cover_cons] at this
      omega
    rw [List.map_cons, List.sum_cons,
      count_or_has (p := fun i => 0 < cover rs i) (hn r List.mem_cons_self),
      count_cover rs hone fun r' hr' => hn r' (List.mem_cons_of_mem _ hr'), Nat.add_comm]
    · intro i _
      rw [cover_cons]
      split_ifs with hi
      · simp [hi]
      · simp [hi]
    · intro i hi hpos
      have := h i
      rw [cover_cons, if_pos hi] at this
      omega

/-- Disjoint spans inside `[lo, hi)` have a total length of at most `hi - lo`. -/
theorem sum_len_le {lo hi : Nat} (h : ∀ a, cover rs a ≤ 1)
    (hrs : ∀ r ∈ rs, lo ≤ r.base ∧ r.base + r.len ≤ hi) : (rs.map len).sum ≤ hi - lo := by
  cases hc : rs with
  | nil => simp
  | cons r rest =>
    rw [← hc]
    have hr := hrs r (by simp [hc])
    -- the positions below `lo` are one more span
    have hone : ∀ a, cover (⟨0, lo⟩ :: rs) a ≤ 1 := by
      intro a
      rw [cover_cons]
      split
      · next hlo =>
        have h0 : cover rs a = 0 := cover_eq_zero.mpr fun x hx hxa => by
          have := hrs x hx
          obtain ⟨-, h1⟩ := hlo
          obtain ⟨h2, -⟩ := hxa
          simp only [Nat.zero_add] at h1
          omega
        omega
      · exact h a
    have hin : ∀ x ∈ (⟨0, lo⟩ : Span) :: rs, x.base + x.len ≤ hi := by
      intro x hx
      rcases List.mem_cons.mp hx with rfl | hx
      · show 0 + lo ≤ hi
        omega
      · exact (hrs x hx).2
    have hcount := count_cover _ hone hin
    have hle := Nat.count_le (fun i => 0 < cover (⟨0, lo⟩ :: rs) i) (n := hi)
    rw [hcount, List.map_cons, List.sum_cons] at hle
    simp only at hle
    omega

end Span
