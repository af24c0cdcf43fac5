import Mathlib.Algebra.Order.Ring.Nat
import Mathlib.Data.List.Basic

/-!
# Loops and runs

Three ways in which a program repeats a step.

* A **loop** repeats a body until the body leaves it. `loop body n x` gives it at most `n`
  iterations. `loop_of_measure` is the rule of total correctness: an invariant, a measure that
  every further iteration decreases, and a postcondition that every exit establishes.
* A **counting loop** is a `for` loop with a counter of some width. `forLoop_eq_foldl` says that it
  goes through the numbers up to its bound if the counter can hold the bound. `downLoop_eq_foldl`
  is the rule for a counter that goes down to 0.
* A **run** feeds a list of operations to a partial step function. `run_invariant` is the
  induction over a run. `RunIf` is a run all of whose steps meet a side condition.
-/

namespace Loop

variable {σ β : Type}

/-- Iterate `body` from `x`, at most `n` times. `none` means that it has not been left yet. -/
def loop (body : σ → σ ⊕ β) : Nat → σ → Option β
  | 0, _ => none
  | n + 1, x =>
    match body x with
    | .inl y => loop body n y
    | .inr b => some b

/-- The loop state at the head of iteration `n`, if the loop gets that far. -/
def headAt (body : σ → σ ⊕ β) : Nat → σ → Option σ
  | 0, x => some x
  | n + 1, x =>
    match body x with
    | .inl y => headAt body n y
    | .inr _ => none

variable {body : σ → σ ⊕ β} {x : σ} {b : β}

theorem loop_inl {y : σ} (h : body x = .inl y) (n : Nat) :
    loop body (n + 1) x = loop body n y := by
  simp [loop, h]

theorem loop_inr (h : body x = .inr b) (n : Nat) : loop body (n + 1) x = some b := by
  simp [loop, h]

/-- More fuel does not change the result of a loop that has been left. -/
theorem loop_mono : ∀ {n k : Nat} {x : σ}, loop body n x = some b → n ≤ k →
    loop body k x = some b
  | 0, _, _, h, _ => by simp [loop] at h
  | n + 1, 0, _, _, hle => by omega
  | n + 1, k + 1, x, h, hle => by
    cases hb : body x with
    | inl y =>
      rw [loop_inl hb] at h ⊢
      exact loop_mono h (by omega)
    | inr c =>
      rw [loop_inr hb] at h ⊢
      exact h

/--
**The rule of total correctness.**

`I` holds at the head of every iteration, `μ` bounds the iterations that are left, and every
exit establishes `Q`. Then the loop is left within `μ x` iterations.
-/
theorem loop_of_measure (I : σ → Prop) (μ : σ → Nat) (Q : β → Prop)
    (hstep : ∀ x y, I x → body x = .inl y → I y ∧ μ y < μ x)
    (hexit : ∀ x b, I x → body x = .inr b → Q b ∧ 0 < μ x) :
    ∀ (n : Nat) (x : σ), I x → μ x ≤ n → ∃ b, loop body n x = some b ∧ Q b := by
  intro n
  induction n with
  | zero =>
    intro x hI hle
    cases hb : body x with
    | inl y => have := (hstep x y hI hb).2; omega
    | inr b => have := (hexit x b hI hb).2; omega
  | succ n ih =>
    intro x hI hle
    cases hb : body x with
    | inl y =>
      obtain ⟨hy, hlt⟩ := hstep x y hI hb
      rw [loop_inl hb]
      exact ih y hy (by omega)
    | inr b => exact ⟨b, loop_inr hb n, (hexit x b hI hb).1⟩

/-- **The rule of partial correctness.** -/
theorem loop_invariant (I : σ → Prop) (Q : β → Prop)
    (hstep : ∀ x y, I x → body x = .inl y → I y) (hexit : ∀ x b, I x → body x = .inr b → Q b) :
    ∀ (n : Nat) {x : σ} {b : β}, I x → loop body n x = some b → Q b
  | 0, _, _, _, h => by cases h
  | n + 1, x, b, hI, h => by
    cases hb : body x with
    | inl y =>
      rw [loop_inl hb] at h
      exact loop_invariant I Q hstep hexit n (hstep x y hI hb) h
    | inr c =>
      rw [loop_inr hb, Option.some.injEq] at h
      exact h ▸ hexit x c hI hb

/-- A body that always goes on is never left. -/
theorem loop_eq_none (I : σ → Prop) (hstep : ∀ x, I x → ∃ y, body x = .inl y ∧ I y) :
    ∀ (n : Nat) {x : σ}, I x → loop body n x = none
  | 0, _, _ => rfl
  | n + 1, x, hI => by
    obtain ⟨y, hy, hIy⟩ := hstep x hI
    rw [loop_inl hy]
    exact loop_eq_none I hstep n hIy

/-- An invariant of the body holds at the head of every iteration. -/
theorem headAt_invariant (I : σ → Prop) (hstep : ∀ x y, I x → body x = .inl y → I y) :
    ∀ (n : Nat) {x y : σ}, I x → headAt body n x = some y → I y
  | 0, x, y, hI, h => by
    cases h
    exact hI
  | n + 1, x, y, hI, h => by
    rw [headAt] at h
    cases hb : body x with
    | inl z =>
      rw [hb] at h
      exact headAt_invariant I hstep n (hstep x z hI hb) h
    | inr c =>
      rw [hb] at h
      cases h

/-- What every step of a counting loop keeps, the loop keeps. -/
theorem foldl_range_invariant (P : σ → Prop) (f : σ → Nat → σ) : ∀ (n : Nat) {s : σ},
    (∀ i < n, ∀ s, P s → P (f s i)) → P s → P ((List.range n).foldl f s)
  | 0, _, _, hs => hs
  | n + 1, _, hstep, hs => by
    rw [List.range_succ, List.foldl_append]
    exact hstep n (Nat.lt_succ_self n) _
      (foldl_range_invariant P f n (fun i hi => hstep i (hi.trans (Nat.lt_succ_self n))) hs)

/-- What taking in one more element keeps holds of the elements of a list and of what folding them
leaves. -/
theorem foldl_append_invariant {α : Type} {f : σ → α → σ} (P : List α → σ → Prop)
    (hstep : ∀ xs s x, P xs s → P (xs ++ [x]) (f s x)) : ∀ (ys : List α) {xs : List α} {s : σ},
      P xs s → P (xs ++ ys) (ys.foldl f s)
  | [], xs, s, h => by rwa [List.append_nil]
  | y :: ys, xs, s, h => by
    have hrest := foldl_append_invariant P hstep ys (hstep xs s y h)
    rwa [List.append_assoc] at hrest

/-- One iteration more. -/
theorem headAt_succ {y z : σ} (hy : body y = .inl z) : ∀ (n : Nat) {x : σ},
    headAt body n x = some y → headAt body (n + 1) x = some z
  | 0, x, h => by
    cases h
    simp [headAt, hy]
  | n + 1, x, h => by
    rw [headAt] at h ⊢
    cases hb : body x with
    | inl w =>
      rw [hb] at h
      exact headAt_succ hy n h
    | inr c =>
      rw [hb] at h
      cases h

/-- A loop from the head of an iteration on. -/
theorem loop_headAt {y : σ} (m : Nat) : ∀ (n : Nat) {x : σ}, headAt body n x = some y →
    loop body (n + m) x = loop body m y
  | 0, x, h => by
    cases h
    rw [Nat.zero_add]
  | n + 1, x, h => by
    rw [headAt] at h
    cases hb : body x with
    | inl w =>
      rw [hb] at h
      rw [Nat.succ_add, loop_inl hb]
      exact loop_headAt m n h
    | inr c =>
      rw [hb] at h
      cases h

/-- The last iteration. -/
theorem loop_of_headAt {y : σ} {n : Nat} (h : headAt body n x = some y) (hy : body y = .inr b) :
    loop body (n + 1) x = some b := by
  rw [loop_headAt 1 n h]
  exact loop_inr hy 0

/-- A loop is left with one result only. -/
theorem loop_unique {c : β} {n m : Nat} (h : loop body n x = some b) (h' : loop body m x = some c) :
    b = c := by
  rcases Nat.le_total n m with hle | hle
  · rw [loop_mono h hle] at h'
    exact Option.some.inj h'
  · rw [loop_mono h' hle] at h
    exact (Option.some.inj h).symm

/-- The loop is left with `b`. -/
def Ends (body : σ → σ ⊕ β) (x : σ) (b : β) : Prop := ∃ n, loop body n x = some b

theorem Ends.inl {y : σ} (hb : body x = .inl y) (h : Ends body y b) : Ends body x b := by
  obtain ⟨n, hn⟩ := h
  exact ⟨n + 1, by rw [loop_inl hb, hn]⟩

theorem Ends.inr (hb : body x = .inr b) : Ends body x b := ⟨1, loop_inr hb 0⟩

theorem Ends.unique {c : β} (h : Ends body x b) (h' : Ends body x c) : b = c := by
  obtain ⟨n, hn⟩ := h
  obtain ⟨m, hm⟩ := h'
  exact loop_unique hn hm

/-! ## Counters -/

variable {w n : Nat}

/-- The body of a `for` loop with a counter of `w` bits. It fails if `f` does. -/
def forBody (n : Nat) (f : BitVec w → σ → Option σ) (x : BitVec w × σ) :
    BitVec w × σ ⊕ Option σ :=
  if x.1.toNat < n then
    match f x.1 x.2 with
    | some s => .inl (x.1 + 1, s)
    | none => .inr none
  else .inr (some x.2)

/-- `for (i = start; i < n; i++)` with a counter of `w` bits. `none` if `f` fails, or if the counter
wraps around before it gets to `n`. -/
def forLoop (n : Nat) (start : BitVec w) (f : BitVec w → σ → Option σ) (s : σ) : Option σ :=
  (loop (forBody n f) (2 ^ w + 1) (start, s)).join

theorem loop_forBody {f : BitVec w → σ → Option σ} {g : σ → BitVec w → σ} (hn : n < 2 ^ w)
    (hf : ∀ i s, i.toNat < n → f i s = some (g s i)) : ∀ (m fuel : Nat) {i : BitVec w} {s : σ},
    i.toNat + m = n → m < fuel → loop (forBody n f) fuel (i, s)
      = some (some ((List.range' i.toNat m).foldl (fun s k => g s (BitVec.ofNat w k)) s))
  | 0, fuel, i, s, hi, hfuel => by
    obtain ⟨fuel, rfl⟩ := Nat.exists_eq_add_one_of_ne_zero (by omega : fuel ≠ 0)
    have hstop : forBody n f (i, s) = .inr (some s) := if_neg (by simp only; omega)
    rw [loop_inr hstop]
    rfl
  | m + 1, fuel, i, s, hi, hfuel => by
    obtain ⟨fuel, rfl⟩ := Nat.exists_eq_add_one_of_ne_zero (by omega : fuel ≠ 0)
    have hgo : forBody n f (i, s) = .inl (i + 1, g s i) := by
      rw [forBody, if_pos (by simp only; omega), hf i s (by omega)]
    -- the counter does not wrap, since `n` is one of its values
    have hnext : (i + 1).toNat = i.toNat + 1 := by
      have hone : (1 : BitVec w).toNat = 1 % 2 ^ w := BitVec.toNat_ofNat 1 w
      rw [BitVec.toNat_add, hone, Nat.add_mod_mod, Nat.mod_eq_of_lt (by omega)]
    rw [loop_inl hgo, loop_forBody hn hf m fuel (by omega) (by omega), List.range'_succ,
      List.foldl_cons, BitVec.ofNat_toNat, BitVec.setWidth_eq, hnext]

/-- **The rule of counting loops.** A counter that can hold the bound goes through the numbers up to
it. -/
theorem forLoop_eq_foldl {f : BitVec w → σ → Option σ} {g : σ → BitVec w → σ} (hn : n < 2 ^ w)
    (hf : ∀ i s, i.toNat < n → f i s = some (g s i)) {start : BitVec w} (hstart : start.toNat ≤ n) (s : σ) :
    forLoop n start f s = some ((List.range' start.toNat (n - start.toNat)).foldl
      (fun s k => g s (BitVec.ofNat w k)) s) := by
  rw [forLoop, loop_forBody hn hf (n - start.toNat) _ (by omega) (by omega)]
  rfl

/-- The body of a `for` loop that counts down. It fails if `f` does. -/
def downBody (f : BitVec w → σ → Option σ) (x : BitVec w × σ) : BitVec w × σ ⊕ Option σ :=
  if 0 < x.1.toNat then
    match f x.1 x.2 with
    | some s => .inl (x.1 - 1, s)
    | none => .inr none
  else .inr (some x.2)

/-- `for (i = start; i > 0; i--)` with a counter of `w` bits. `none` if `f` fails. -/
def downLoop (start : BitVec w) (f : BitVec w → σ → Option σ) (s : σ) : Option σ :=
  (loop (downBody f) (2 ^ w + 1) (start, s)).join

theorem loop_downBody {f : BitVec w → σ → Option σ} {g : σ → BitVec w → σ}
    (hf : ∀ i s, 0 < i.toNat → f i s = some (g s i)) : ∀ (m fuel : Nat) {i : BitVec w} {s : σ},
    i.toNat = m → m < fuel → loop (downBody f) fuel (i, s)
      = some (some ((List.range m).reverse.foldl (fun s k => g s (BitVec.ofNat w (k + 1))) s))
  | 0, fuel, i, s, hi, hfuel => by
    obtain ⟨fuel, rfl⟩ := Nat.exists_eq_add_one_of_ne_zero (by omega : fuel ≠ 0)
    have hstop : downBody f (i, s) = .inr (some s) := if_neg (by simp only; omega)
    rw [loop_inr hstop]
    rfl
  | m + 1, fuel, i, s, hi, hfuel => by
    obtain ⟨fuel, rfl⟩ := Nat.exists_eq_add_one_of_ne_zero (by omega : fuel ≠ 0)
    have hgo : downBody f (i, s) = .inl (i - 1, g s i) := by
      rw [downBody, if_pos (by simp only; omega), hf i s (by omega)]
    have hnext : (i - 1).toNat = m := by
      have hlt := i.isLt
      have hone : (1 : BitVec w).toNat = 1 := by
        rw [show (1 : BitVec w).toNat = 1 % 2 ^ w from BitVec.toNat_ofNat 1 w]
        exact Nat.mod_eq_of_lt (by omega)
      rw [BitVec.toNat_sub_of_le (by rw [BitVec.le_def]; omega), hone, hi, Nat.add_sub_cancel]
    rw [loop_inl hgo, loop_downBody hf m fuel hnext (by omega), List.range_succ,
      List.reverse_append, List.reverse_singleton, List.singleton_append, List.foldl_cons, ← hi,
      BitVec.ofNat_toNat, BitVec.setWidth_eq]

/-- **The rule of loops that count down.** -/
theorem downLoop_eq_foldl {f : BitVec w → σ → Option σ} {g : σ → BitVec w → σ}
    (hf : ∀ i s, 0 < i.toNat → f i s = some (g s i)) (start : BitVec w) (s : σ) :
    downLoop start f s = some ((List.range start.toNat).reverse.foldl
      (fun s k => g s (BitVec.ofNat w (k + 1))) s) := by
  rw [downLoop, loop_downBody hf start.toNat _ rfl (Nat.lt_succ_of_lt start.isLt)]
  rfl

/-! ## Runs -/

variable {Op : Type}

/-- Carry out a list of operations. `none` once one of them is not possible. -/
def run (step : σ → Op → Option σ) : List Op → σ → Option σ
  | [], s => some s
  | op :: ops, s => (step s op).bind (run step ops)

/-- A run all of whose steps meet the condition `C` in the state they start from. -/
def RunIf (step : σ → Op → Option σ) (C : σ → Op → Prop) : List Op → σ → σ → Prop
  | [], s, t => s = t
  | op :: ops, s, t => C s op ∧ ∃ r, step s op = some r ∧ RunIf step C ops r t

/-- `P` holds in every state that a run goes through. -/
def Throughout (step : σ → Op → Option σ) (P : σ → Prop) : List Op → σ → Prop
  | [], s => P s
  | op :: ops, s => P s ∧ ∀ r, step s op = some r → Throughout step P ops r

variable {step : σ → Op → Option σ} {C : σ → Op → Prop}

theorem run_nil (s : σ) : run step [] s = some s := rfl

theorem run_cons_eq_some {op : Op} {ops : List Op} {s t : σ} :
    run step (op :: ops) s = some t ↔ ∃ r, step s op = some r ∧ run step ops r = some t := by
  rw [run, Option.bind_eq_some_iff]

theorem run_append (ops ops' : List Op) (s : σ) :
    run step (ops ++ ops') s = (run step ops s).bind (run step ops') := by
  induction ops generalizing s with
  | nil => rfl
  | cons op ops ih =>
    show (step s op).bind (run step (ops ++ ops')) = ((step s op).bind (run step ops)).bind _
    cases step s op with
    | none => rfl
    | some r => exact ih r

/-- **What every step preserves, every run preserves.** -/
theorem run_invariant (I : σ → Prop) (hstep : ∀ s op t, I s → step s op = some t → I t) :
    ∀ (ops : List Op) {s t : σ}, I s → run step ops s = some t → I t
  | [], s, t, hI, h => by
    cases h
    exact hI
  | op :: ops, s, t, hI, h => by
    obtain ⟨r, hr, hrest⟩ := run_cons_eq_some.mp h
    exact run_invariant I hstep ops (hstep s op r hI hr) hrest

/-- What every step that meets the condition preserves, every run of such steps preserves. -/
theorem runIf_invariant (I : σ → Prop) (hstep : ∀ s op t, I s → C s op → step s op = some t → I t) :
    ∀ (ops : List Op) {s t : σ}, I s → RunIf step C ops s t → I t
  | [], _, _, hI, h => h ▸ hI
  | op :: ops, s, _, hI, ⟨hC, r, hr, hrest⟩ =>
    runIf_invariant I hstep ops (hstep s op r hI hC hr) hrest

/-- A condition that the operations meet in any state. -/
theorem runIf_of_forall : ∀ (ops : List Op) {s t : σ}, (∀ op ∈ ops, ∀ s, C s op) →
    run step ops s = some t → RunIf step C ops s t
  | [], s, t, _, h => Option.some.inj h
  | op :: ops, s, t, hC, h => by
    rw [List.forall_mem_cons] at hC
    obtain ⟨r, hr, hrest⟩ := run_cons_eq_some.mp h
    exact ⟨hC.1 s, r, hr, runIf_of_forall ops hC.2 hrest⟩

/-- What the steps of the allowed operations preserve holds throughout a run of such operations. -/
theorem throughout_of_step (I : σ → Prop) (A : Op → Prop)
    (hstep : ∀ s op t, I s → A op → step s op = some t → I t) :
    ∀ (ops : List Op) {s : σ}, I s → (∀ op ∈ ops, A op) → Throughout step I ops s
  | [], _, hI, _ => hI
  | op :: ops, s, hI, hA => by
    rw [List.forall_mem_cons] at hA
    exact ⟨hI, fun r hr => throughout_of_step I A hstep ops (hstep s op r hI hA.1 hr) hA.2⟩

theorem Throughout.head {P : σ → Prop} {ops : List Op} {s : σ} (h : Throughout step P ops s) :
    P s := by
  cases ops with
  | nil => exact h
  | cons op ops => exact h.1

theorem throughout_cons {P : σ → Prop} {op : Op} {ops : List Op} {s r : σ} (hP : P s)
    (hr : step s op = some r) (hrest : Throughout step P ops r) : Throughout step P (op :: ops) s := by
  refine ⟨hP, fun q hq => ?_⟩
  obtain rfl : r = q := Option.some.inj (hr.symm.trans hq)
  exact hrest

theorem Throughout.imp {P Q : σ → Prop} (h : ∀ s, P s → Q s) :
    ∀ (ops : List Op) {s : σ}, Throughout step P ops s → Throughout step Q ops s
  | [], s, hP => h s hP
  | _ :: ops, s, hP => ⟨h s hP.1, fun r hr => Throughout.imp h ops (hP.2 r hr)⟩

/--
**The exact condition for a property of runs.**

Suppose that one step from a good state keeps what is wanted, `A` of the step and `P` of the next
state, exactly if it meets `C`. Then a run has `P` in all its states and `A` in all its steps
exactly if all its steps meet `C`. The invariant `I` may be used, and is kept, on the way.
-/
theorem runIf_iff_of_step (I P : σ → Prop) (A : σ → Op → Prop)
    (hstep : ∀ s op t, I s → P s → step s op = some t →
      (A s op ∧ P t ↔ C s op) ∧ (C s op → I t)) :
    ∀ (ops : List Op) {s t : σ}, I s → P s →
      (RunIf step (fun s op => P s ∧ A s op) ops s t ∧ P t ↔ RunIf step C ops s t)
  | [], s, t, _, hP => by
    constructor
    · rintro ⟨h, -⟩
      exact h
    · rintro rfl
      exact ⟨rfl, hP⟩
  | op :: ops, s, t, hI, hP => by
    constructor
    · rintro ⟨⟨⟨-, hA⟩, r, hr, hrest⟩, ht⟩
      -- the next state is the last one, or the next step starts from it
      have hPr : P r := by
        cases ops with
        | nil =>
          cases hrest
          exact ht
        | cons op' ops' => exact hrest.1.1
      obtain ⟨hiff, hnext⟩ := hstep s op r hI hP hr
      have hC := hiff.mp ⟨hA, hPr⟩
      exact ⟨hC, r, hr, (runIf_iff_of_step I P A hstep ops (hnext hC) hPr).mp ⟨hrest, ht⟩⟩
    · rintro ⟨hC, r, hr, hrest⟩
      obtain ⟨hiff, hnext⟩ := hstep s op r hI hP hr
      obtain ⟨hA, hPr⟩ := hiff.mpr hC
      obtain ⟨h1, h2⟩ := (runIf_iff_of_step I P A hstep ops (hnext hC) hPr).mpr hrest
      exact ⟨⟨⟨hP, hA⟩, r, hr, h1⟩, h2⟩

/--
**The exact condition for a property of the states of a run.**

Suppose that one step from a good state leads to a good state exactly if it meets `C`, as long as
the run stays in `D`. Then all states of a run in `D` are good exactly if all its steps meet `C`.
-/
theorem throughout_iff_of_step (I P D : σ → Prop)
    (hstep : ∀ s op t, I s → P s → step s op = some t → D t → (P t ↔ C s op) ∧ I t) :
    ∀ (ops : List Op) {s t : σ}, I s → P s → run step ops s = some t → Throughout step D ops s →
      (Throughout step P ops s ↔ RunIf step C ops s t)
  | [], s, t, _, hP, hrun, _ => by
    cases hrun
    exact ⟨fun _ => rfl, fun _ => hP⟩
  | op :: ops, s, t, hI, hP, hrun, hD => by
    obtain ⟨r, hr, hrest⟩ := run_cons_eq_some.mp hrun
    have hDr := hD.2 r hr
    obtain ⟨hiff, hIr⟩ := hstep s op r hI hP hr hDr.head
    constructor
    · intro h
      have hPr := (h.2 r hr).head
      have ih := throughout_iff_of_step I P D hstep ops hIr hPr hrest hDr
      exact ⟨hiff.mp hPr, r, hr, ih.mp (h.2 r hr)⟩
    · rintro ⟨hC, q, hq, hrestC⟩
      obtain rfl : r = q := Option.some.inj (hr.symm.trans hq)
      have ih := throughout_iff_of_step I P D hstep ops hIr (hiff.mpr hC) hrest hDr
      exact throughout_cons hP hr (ih.mpr hrestC)

end Loop
