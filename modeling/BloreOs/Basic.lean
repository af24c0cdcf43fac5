import BloreOs.Lib.Loop

/-!
# C integers, halting and locks

Fixed-width unsigned integers are natural numbers kept below `2 ^ 64`, `2 ^ 32` or `2 ^ 16`.
The operations that can leave the range say so: `add64`, `sub64` and `mul64` wrap, as `uint64_t`
and `size_t` do.

A kernel function takes the kernel's state and either returns or stops for good. There are two
ways to stop: `hcf` halts the CPU, and a spinlock that is already held is never given back on one
CPU. An `Outcome` keeps the state in every case.
-/

namespace BloreOs

/-! ## Unsigned arithmetic -/

/-- `a + b` in `uint64_t`. -/
def add64 (a b : Nat) : Nat := (a + b) % 2 ^ 64

/-- `a - b` in `uint64_t`. -/
def sub64 (a b : Nat) : Nat := (a + (2 ^ 64 - b % 2 ^ 64)) % 2 ^ 64

/-- `a * b` in `uint64_t`. -/
def mul64 (a b : Nat) : Nat := (a * b) % 2 ^ 64

theorem add64_eq {a b : Nat} (h : a + b < 2 ^ 64) : add64 a b = a + b := Nat.mod_eq_of_lt h

theorem sub64_eq {a b : Nat} (h : b ≤ a) (ha : a < 2 ^ 64) : sub64 a b = a - b := by
  unfold sub64
  omega

theorem mul64_eq {a b : Nat} (h : a * b < 2 ^ 64) : mul64 a b = a * b := Nat.mod_eq_of_lt h

theorem sub64_lt (a b : Nat) : sub64 a b < 2 ^ 64 := Nat.mod_lt _ (by decide)

theorem sub64_add64_cancel {a b : Nat} (ha : a < 2 ^ 64) : sub64 (add64 a b) b = a := by
  unfold sub64 add64
  omega

/-- A character constant. A `char` is a byte. -/
def chr (c : Char) : UInt8 := c.toUInt8

/-! ## `math.h` -/

/-- `DIV_ROUNDUP(val, div)`. -/
def divRoundup (val div : Nat) : Nat := sub64 (add64 val div) 1 / div

/-- `ALIGN_UP(val, align)`. -/
def alignUp (val align : Nat) : Nat := mul64 (sub64 (add64 val align) 1 / align) align

/-- `MAX(a, b)`. -/
def cMax (a b : Nat) : Nat := if b < a then a else b

/-- `MIN(a, b)`. -/
def cMin (a b : Nat) : Nat := if a < b then a else b

/-- `PAGE_SIZE` of `mem.h`. -/
def pageSize : Nat := 4096

/-- The numerator that both rounding macros build. -/
theorem sub64_add64_pageSize (n : Nat) :
    sub64 (add64 n pageSize) 1 = (n + 4095) % 2 ^ 64 := by
  unfold sub64 add64 pageSize
  omega

theorem divRoundup_lt (n : Nat) : divRoundup n pageSize < 2 ^ 64 :=
  Nat.lt_of_le_of_lt (Nat.div_le_self _ _) (sub64_lt _ _)

theorem divRoundup_eq {n : Nat} (h : n + 4095 < 2 ^ 64) :
    divRoundup n pageSize = (n + 4095) / 4096 := by
  unfold divRoundup
  rw [sub64_add64_pageSize, Nat.mod_eq_of_lt h]
  rfl

/-- Every argument of `ALIGN_UP` is rounded to whole pages. -/
theorem alignUp_eq_pages (n : Nat) :
    alignUp n pageSize = (n + 4095) % 2 ^ 64 / 4096 * 4096 := by
  unfold alignUp
  rw [sub64_add64_pageSize, mul64_eq]
  · rfl
  · unfold pageSize
    omega

theorem alignUp_eq {n : Nat} (h : n + 4095 < 2 ^ 64) :
    alignUp n pageSize = (n + 4095) / 4096 * 4096 := by
  rw [alignUp_eq_pages, Nat.mod_eq_of_lt h]

theorem le_alignUp {n : Nat} (h : n + 4095 < 2 ^ 64) : n ≤ alignUp n pageSize := by
  rw [alignUp_eq h]
  omega

theorem alignUp_mod (n : Nat) : alignUp n pageSize % pageSize = 0 := by
  rw [alignUp_eq_pages]
  exact Nat.mul_mod_left _ _

/-! ## Returning and stopping -/

/-- How a call of a kernel function ends, with the state it leaves. -/
inductive Outcome (σ α : Type) where
  | ret (a : α) (s : σ)
  /-- `hcf()`: interrupts off, `hlt` for ever. -/
  | halt (s : σ)
  /-- A loop that is never left: a spinlock that is held, or a list with a cycle. -/
  | spin (s : σ)

namespace Outcome

variable {σ α β : Type}

/-- Go on after a call that returned. -/
def bind (x : Outcome σ α) (f : α → σ → Outcome σ β) : Outcome σ β :=
  match x with
  | ret a s => f a s
  | halt s => halt s
  | spin s => spin s

/-- The state after a call that returned. -/
def state? : Outcome σ α → Option σ
  | ret _ s => some s
  | halt _ => none
  | spin _ => none

/-- The value of a call that returned. -/
def value? : Outcome σ α → Option α
  | ret a _ => some a
  | halt _ => none
  | spin _ => none

/-- The state that a call leaves, however it ends. -/
def final : Outcome σ α → σ
  | ret _ s => s
  | halt s => s
  | spin s => s

theorem eq_ret_of_value? {x : Outcome σ α} {a : α} (h : x.value? = some a) : ∃ s, x = .ret a s := by
  cases x with
  | ret b s =>
    cases h
    exact ⟨s, rfl⟩
  | halt _ => cases h
  | spin _ => cases h

/-- A call that leaves a state has returned. -/
theorem state?_eq_some {x : Outcome σ α} {s : σ} : x.state? = some s ↔ ∃ a, x = .ret a s := by
  cases x with
  | ret a t => simp [state?]
  | halt _ => simp [state?]
  | spin _ => simp [state?]

@[simp] theorem ret_bind (a : α) (s : σ) (f : α → σ → Outcome σ β) :
    (ret a s).bind f = f a s := rfl

@[simp] theorem halt_bind (s : σ) (f : α → σ → Outcome σ β) : (halt s).bind f = halt s := rfl

@[simp] theorem spin_bind (s : σ) (f : α → σ → Outcome σ β) : (spin s).bind f = spin s := rfl

theorem eq_ret_of_state? {x : Outcome σ Unit} (h : x.state?.isSome) : x = .ret () (x.state?.get h) := by
  cases x with
  | ret _ _ => rfl
  | halt _ => cases h
  | spin _ => cases h

/-- A sequence that returns is two calls that return. -/
theorem bind_eq_ret {x : Outcome σ α} {f : α → σ → Outcome σ β} {b : β} {s₂ : σ} :
    x.bind f = ret b s₂ ↔ ∃ a s₁, x = ret a s₁ ∧ f a s₁ = ret b s₂ := by
  cases x with
  | ret a s₁ =>
    constructor
    · intro h
      exact ⟨a, s₁, rfl, h⟩
    · rintro ⟨a', s', h1, h2⟩
      cases h1
      exact h2
  | halt s => simp
  | spin s => simp

/-- What the first call leaves, and every way to go on keeps, holds in the end. -/
theorem final_bind {x : Outcome σ α} {f : α → σ → Outcome σ β} {P : σ → Prop} (hx : P x.final)
    (hf : ∀ a s, x = ret a s → P s → P (f a s).final) : P (x.bind f).final := by
  cases x with
  | ret a s => exact hf a s rfl hx
  | halt s => exact hx
  | spin s => exact hx

end Outcome

/-- `hcf` of `kernel.h`. -/
def hcf {σ α : Type} (s : σ) : Outcome σ α := .halt s

/-! ## Spinlocks (`atomic.h`) -/

/-- Where a `spinlock_t` lives in the state. -/
structure SpinlockAt (σ : Type) where
  get : σ → Bool
  put : σ → Bool → σ

/-- `spinlock_lock`. On one CPU nobody releases a lock while its owner waits for it. -/
def spinlockLock {σ : Type} (l : SpinlockAt σ) (s : σ) : Outcome σ Unit :=
  if l.get s then .spin s else .ret () (l.put s true)

/-- `spinlock_unlock`. -/
def spinlockUnlock {σ : Type} (l : SpinlockAt σ) (s : σ) : σ := l.put s false

end BloreOs
