import Mathlib.Algebra.Order.Ring.Nat
import Mathlib.Data.List.Basic
import Mathlib.Tactic.Ring

/-!
# Byte-addressed memory

A memory is a total function from addresses to bytes. Multi-byte values are little-endian.
The two facts every client needs are

* `load_store_same` — what was stored is read back (cut to the width of the store),
* `load_congr` — a load only looks at its own bytes, so a store elsewhere is not seen
  (`load_store_disjoint`).
-/

/-- A total map from addresses to bytes. -/
abbrev Memory := Nat → BitVec 8

namespace Memory

variable {m m' : Memory} {a b n k v : Nat}

/-- Replace one byte. -/
def set (m : Memory) (a : Nat) (x : BitVec 8) : Memory := fun i => if i = a then x else m i

/-- Give `n` bytes from `a` on the same value. -/
def fill (m : Memory) (a n : Nat) (x : BitVec 8) : Memory :=
  fun i => if a ≤ i ∧ i < a + n then x else m i

/-- The little-endian value of the `n` bytes from `a` on. -/
def load (m : Memory) : Nat → Nat → Nat
  | _, 0 => 0
  | a, n + 1 => (m a).toNat + 256 * load m (a + 1) n

/-- Write the low `n` bytes of `v` at `a`, least significant byte first. -/
def store (m : Memory) (a n v : Nat) : Memory :=
  fun i => if a ≤ i ∧ i < a + n then BitVec.ofNat 8 (v / 256 ^ (i - a)) else m i

/-! ## Bytes outside the written range -/

@[simp] theorem set_same (m : Memory) (a : Nat) (x : BitVec 8) : m.set a x a = x := by
  simp [set]

theorem set_other {x : BitVec 8} (h : b ≠ a) : m.set a x b = m b := by
  simp [set, h]

theorem fill_inside {x : BitVec 8} (h1 : a ≤ b) (h2 : b < a + n) : m.fill a n x b = x := by
  simp [fill, h1, h2]

theorem fill_outside {x : BitVec 8} (h : b < a ∨ a + n ≤ b) : m.fill a n x b = m b := by
  unfold fill
  rw [if_neg (by omega)]

theorem store_outside (h : b < a ∨ a + n ≤ b) : m.store a n v b = m b := by
  unfold store
  rw [if_neg (by omega)]

/-! ## Writes elsewhere -/

theorem set_store {x : BitVec 8} (h : b < a ∨ a + n ≤ b) :
    (m.store a n v).set b x = (m.set b x).store a n v := by
  funext i
  simp only [set, store]
  by_cases hi : i = b
  · rw [if_pos hi, if_neg (by omega), if_pos hi]
  · rw [if_neg hi, if_neg hi]

theorem store_comm {w : Nat} (h : a + n ≤ b ∨ b + k ≤ a) :
    (m.store a n v).store b k w = (m.store b k w).store a n v := by
  funext i
  simp only [store]
  by_cases hi : b ≤ i ∧ i < b + k
  · rw [if_pos hi, if_neg (by omega), if_pos hi]
  · rw [if_neg hi, if_neg hi]

/-! ## Loads -/

/-- A load depends on its own bytes only. -/
theorem load_congr : ∀ (n : Nat) {a : Nat},
    (∀ i, a ≤ i → i < a + n → m i = m' i) → load m a n = load m' a n
  | 0, _, _ => rfl
  | n + 1, a, h => by
    rw [load, load, h a (by omega) (by omega),
      load_congr n (a := a + 1) (fun i h1 h2 => h i (by omega) (by omega))]

theorem load_lt (m : Memory) : ∀ (n a : Nat), load m a n < 256 ^ n
  | 0, _ => by simp [load]
  | n + 1, a => by
    have ih := load_lt m n (a + 1)
    have hb : (m a).toNat < 256 := (m a).isLt
    rw [load, Nat.pow_succ]
    omega

/-- A load of two pieces. -/
theorem load_add (m : Memory) : ∀ (n k a : Nat), load m a (n + k) = load m a n + 256 ^ n * load m (a + n) k
  | 0, k, a => by simp [load]
  | n + 1, k, a => by
    have ih := load_add m n k (a + 1)
    rw [Nat.add_right_comm, load, load, ih, Nat.pow_succ, Nat.add_right_comm a 1 n, Nat.add_assoc a n 1]
    ring

/-- Storing one more byte is storing the lowest byte and the rest behind it. -/
theorem store_succ : m.store a (n + 1) v
    = (m.set a (BitVec.ofNat 8 v)).store (a + 1) n (v / 256) := by
  funext i
  unfold store set
  by_cases hi : i = a
  · subst hi
    rw [if_pos (by omega), if_neg (by omega), if_pos rfl]
    simp
  · by_cases hr : a ≤ i ∧ i < a + (n + 1)
    · have h1 : i - a = (i - (a + 1)) + 1 := by omega
      rw [if_pos hr, if_pos (by omega), h1, Nat.pow_succ, Nat.mul_comm, ← Nat.div_div_eq_div_mul]
    · rw [if_neg hr, if_neg (by omega), if_neg hi]

/-- **A stored value is read back**, cut to the width of the store. -/
theorem load_store_same : ∀ (n : Nat) {m : Memory} {a v : Nat},
    load (m.store a n v) a n = v % 256 ^ n
  | 0, _, _, _ => by simp [load, Nat.mod_one]
  | n + 1, m, a, v => by
    rw [load, store_succ, load_store_same n, store_outside (Or.inl (by omega)), set_same,
      BitVec.toNat_ofNat]
    show v % 256 + 256 * (v / 256 % 256 ^ n) = v % 256 ^ (n + 1)
    rw [Nat.pow_succ, Nat.mul_comm (256 ^ n) 256, Nat.mod_mul]

/-- Storing what is there changes nothing. -/
theorem store_load_same : ∀ (n : Nat) {m : Memory} {a : Nat}, m.store a n (m.load a n) = m
  | 0, m, a => by
    funext i
    exact store_outside (by omega)
  | n + 1, m, a => by
    have hbyte : BitVec.ofNat 8 ((m a).toNat + 256 * load m (a + 1) n) = m a := by
      refine BitVec.eq_of_toNat_eq ?_
      have := (m a).isLt
      rw [BitVec.toNat_ofNat]
      omega
    have hrest : ((m a).toNat + 256 * load m (a + 1) n) / 256 = load m (a + 1) n := by
      have := (m a).isLt
      omega
    have hset : m.set a (m a) = m := by
      funext i
      by_cases hi : i = a
      · rw [hi, set_same]
      · exact set_other hi
    rw [load, store_succ, hbyte, hrest, hset, store_load_same n]

theorem load_store_disjoint (h : b + k ≤ a ∨ a + n ≤ b) :
    load (m.store a n v) b k = load m b k :=
  load_congr k fun _ _ _ => store_outside (by omega)

/-- The low bytes of a stored value. -/
theorem load_store_prefix (h : k ≤ n) : load (m.store a n v) a k = v % 256 ^ k := by
  have hsplit := load_add (m.store a n v) k (n - k) a
  have hlt := load_lt (m.store a n v) k a
  rw [Nat.add_sub_cancel' h, load_store_same] at hsplit
  calc load (m.store a n v) a k
      = load (m.store a n v) a k % 256 ^ k := (Nat.mod_eq_of_lt hlt).symm
    _ = v % 256 ^ n % 256 ^ k := by rw [hsplit, Nat.add_mul_mod_self_left]
    _ = v % 256 ^ k := Nat.mod_mod_of_dvd _ (Nat.pow_dvd_pow 256 h)

/-- A load whose last `n` bytes are the first ones of a store. -/
theorem load_store_overlap (h : n ≤ b) :
    load (m.store (a + k) b v) a (k + n) = load m a k + 256 ^ k * (v % 256 ^ n) := by
  rw [load_add, load_store_disjoint (Or.inl (Nat.le_refl _)), load_store_prefix h]

/-- A range filled with zero bytes loads as zero. -/
theorem load_fill_zero : ∀ (k : Nat) {b : Nat}, a ≤ b → b + k ≤ a + n →
    load (m.fill a n 0) b k = 0
  | 0, _, _, _ => rfl
  | k + 1, b, h1, h2 => by
    rw [load, fill_inside h1 (by omega), load_fill_zero k (by omega) (by omega)]
    rfl

/-! ## Ranges that keep their bytes -/

/-- Two memories hold the same `n` bytes from `a` on. -/
def SameOn (m m' : Memory) (a n : Nat) : Prop := ∀ i, a ≤ i → i < a + n → m' i = m i

theorem SameOn.load {i j : Nat} (h : SameOn m m' a n) (h1 : a ≤ i) (h2 : i + j ≤ a + n) :
    m'.load i j = m.load i j :=
  load_congr j fun x h3 h4 => h x (by omega) (by omega)

theorem SameOn.trans {m'' : Memory} (h : SameOn m m' a n) (h' : SameOn m' m'' a n) :
    SameOn m m'' a n := fun i h1 h2 => (h' i h1 h2).trans (h i h1 h2)

theorem sameOn_store (h : a + n ≤ b ∨ b + k ≤ a) : SameOn m (m.store b k v) a n :=
  fun _ _ _ => store_outside (by omega)

theorem sameOn_set {x : BitVec 8} (h : b < a ∨ a + n ≤ b) : SameOn m (m.set b x) a n :=
  fun _ _ _ => set_other (by omega)

end Memory
