import BloreOs.Lib.Loop
import Mathlib.Logic.Function.Basic

/-!
# Sections under a lock

Several users share a state that one lock guards. Each of them makes calls; a call waits for the
lock, carries out a section step by step, and releases the lock. All steps of all users interleave.

* `Guarded` — the state, its lock, and what the sections do,
* `Inv.step` — one user at most is in a section, and the state is what the sections that have ended
  leave one after another, up to the part of a section that is under way,
* `serializable` — so every run has the same effect as its sections one at a time, in the order in
  which they have released the lock,
* `stopped_run` — a user that stops inside its section stops all others.
-/

namespace Lock

open Loop

/-- A state with a lock, and sections of which each step is atomic. `body` is one step of a section:
it goes on, it ends with a result, or it never ends (`none`). -/
structure Guarded (σ Call Local Ret : Type) where
  locked : σ → Bool
  acquire : σ → σ
  release : σ → σ
  enter : Call → Local
  body : Local × σ → (Local × σ) ⊕ (Option Ret × σ)
  locked_acquire : ∀ s, locked (acquire s) = true
  locked_release : ∀ s, locked (release s) = false
  locked_inl : ∀ x y, body x = .inl y → locked y.2 = locked x.2
  locked_inr : ∀ x y, body x = .inr y → locked y.2 = locked x.2

/-- Where a user is. -/
inductive Pc (Call Local Ret : Type) where
  | idle
  | waiting (c : Call)
  | inside (c : Call) (l : Local)
  | leaving (c : Call) (r : Ret)
  /-- It has stopped for ever inside its section. -/
  | stopped (c : Call)

/-- The user has the lock. -/
def Pc.holds {Call Local Ret : Type} : Pc Call Local Ret → Bool
  | idle | waiting _ => false
  | inside _ _ | leaving _ _ | stopped _ => true

/-- The call that the user is making. -/
def Pc.call? {Call Local Ret : Type} : Pc Call Local Ret → Option Call
  | idle => none
  | waiting c | inside c _ | leaving c _ | stopped c => some c

/-- The shared state and where every user is. `history` records the calls that have returned, in the
order in which they released the lock, with their results. -/
structure Users (ι σ Call Local Ret : Type) where
  shared : σ
  pc : ι → Pc Call Local Ret
  history : List (ι × Call × Ret)

inductive Op (ι Call : Type) where
  | call (i : ι) (c : Call)
  | step (i : ι)

variable {ι σ Call Local Ret : Type}

/-- Nobody has called yet. -/
def Users.start (s : σ) : Users ι σ Call Local Ret where
  shared := s
  pc := fun _ => .idle
  history := []

namespace Guarded

variable (g : Guarded σ Call Local Ret)

/-- The next step of user `i`. A user that finds the lock taken tries again. -/
def userStep [DecidableEq ι] (s : Users ι σ Call Local Ret) (i : ι) :
    Option (Users ι σ Call Local Ret) :=
  match s.pc i with
  | .idle => none
  | .waiting c =>
    if g.locked s.shared then some s
    else some { s with
      shared := g.acquire s.shared
      pc := Function.update s.pc i (.inside c (g.enter c)) }
  | .inside c l =>
    match g.body (l, s.shared) with
    | .inl (l, t) => some { s with shared := t, pc := Function.update s.pc i (.inside c l) }
    | .inr (some r, t) => some { s with shared := t, pc := Function.update s.pc i (.leaving c r) }
    | .inr (none, t) => some { s with shared := t, pc := Function.update s.pc i (.stopped c) }
  | .leaving c r =>
    some { shared := g.release s.shared
           pc := Function.update s.pc i .idle
           history := s.history ++ [(i, c, r)] }
  | .stopped _ => none

/-- One step of the system. -/
def step [DecidableEq ι] (s : Users ι σ Call Local Ret) : Op ι Call → Option (Users ι σ Call Local Ret)
  | .call i c =>
    match s.pc i with
    | .idle => some { s with pc := Function.update s.pc i (.waiting c) }
    | _ => none
  | .step i => g.userStep s i

/-! ## One call at a time -/

/-- A call that runs alone. -/
def Calls (c : Call) (s : σ) (r : Ret) (t : σ) : Prop :=
  g.locked s = false ∧ ∃ u, Ends g.body (g.enter c, g.acquire s) (some r, u) ∧ t = g.release u

/-- Calls one after another. -/
def Serial : List (ι × Call × Ret) → σ → σ → Prop
  | [], s, t => s = t
  | (_, c, r) :: l, s, t => ∃ u, g.Calls c s r u ∧ Serial l u t

variable {g}

theorem serial_append {l l' : List (ι × Call × Ret)} {s t u : σ} (h : g.Serial l s t)
    (h' : g.Serial l' t u) : g.Serial (l ++ l') s u := by
  induction l generalizing s with
  | nil =>
    cases h
    exact h'
  | cons x l ih =>
    obtain ⟨v, hv, hrest⟩ := h
    exact ⟨v, hv, ih hrest⟩

/-- A call at the end. -/
theorem serial_snoc {l : List (ι × Call × Ret)} {s t u : σ} {i : ι} {c : Call} {r : Ret}
    (h : g.Serial l s t) (hc : g.Calls c t r u) : g.Serial (l ++ [(i, c, r)]) s u :=
  serial_append h ⟨u, hc, rfl⟩

/-! ## All users at once -/

variable (g) in
/-- How far a user with the lock has got, in a section that started from `u`. -/
def Progress (u s : σ) : Pc Call Local Ret → Prop
  | .idle | .waiting _ => False
  | .inside c l => ∃ n, headAt g.body n (g.enter c, g.acquire u) = some (l, s)
  | .leaving c r => Ends g.body (g.enter c, g.acquire u) (some r, s)
  | .stopped c => Ends g.body (g.enter c, g.acquire u) (none, s)

variable (g) in
/-- The sections that have ended lead from `s₀` to `u`. From there, nobody or exactly one user is on
its way through a section. -/
structure Inv (s₀ : σ) (s : Users ι σ Call Local Ret) (u : σ) : Prop where
  serial : g.Serial s.history s₀ u
  unlocked : g.locked u = false
  nobody : g.locked s.shared = false → s.shared = u ∧ ∀ i, (s.pc i).holds = false
  somebody : g.locked s.shared = true → ∃ i, g.Progress u s.shared (s.pc i) ∧
    ∀ j, (s.pc j).holds = true → j = i

theorem Progress.holds {u s : σ} {pc : Pc Call Local Ret} (h : g.Progress u s pc) :
    pc.holds = true := by
  cases pc with
  | idle => exact h.elim
  | waiting c => exact h.elim
  | inside c l => rfl
  | leaving c r => rfl
  | stopped c => rfl

namespace Inv

variable {s₀ u : σ} {s t : Users ι σ Call Local Ret} {i j : ι} (h : g.Inv s₀ s u)
include h

theorem locked_of_holds (hi : (s.pc i).holds = true) : g.locked s.shared = true := by
  by_contra hl
  rw [(h.nobody (by simpa using hl)).2 i] at hi
  cases hi

/-- **Mutual exclusion.** -/
theorem eq_of_holds (hi : (s.pc i).holds = true) (hj : (s.pc j).holds = true) : i = j := by
  obtain ⟨k, -, hk⟩ := h.somebody (h.locked_of_holds hi)
  rw [hk i hi, hk j hj]

/-- The user with the lock is the one that makes progress. -/
theorem progress (hi : (s.pc i).holds = true) : g.Progress u s.shared (s.pc i) := by
  obtain ⟨k, hp, hk⟩ := h.somebody (h.locked_of_holds hi)
  rw [hk i hi]
  exact hp

/-- The user with the lock goes to `pc`, and the shared state to `v`. -/
theorem move [DecidableEq ι] {v : σ} {pc : Pc Call Local Ret} (hi : (s.pc i).holds = true)
    (hv : g.locked v = true) (hp : g.Progress u v pc) :
    g.Inv s₀ { s with shared := v, pc := Function.update s.pc i pc } u where
  serial := h.serial
  unlocked := h.unlocked
  nobody := fun hl => by
    rw [show g.locked v = false from hl] at hv
    cases hv
  somebody := fun _ => by
    refine ⟨i, ?_, fun j hj => ?_⟩
    · simp only [Function.update_self]
      exact hp
    · by_contra hne
      simp only [Function.update_of_ne hne] at hj
      exact hne (h.eq_of_holds hj hi)

/-- A call that waits. -/
theorem wait [DecidableEq ι] {c : Call} (hi : s.pc i = .idle) :
    g.Inv s₀ { s with pc := Function.update s.pc i (.waiting c) } u where
  serial := h.serial
  unlocked := h.unlocked
  nobody := fun hl => by
    obtain ⟨heq, hall⟩ := h.nobody hl
    refine ⟨heq, fun j => ?_⟩
    by_cases hj : j = i
    · simp [hj, Pc.holds]
    · simp only [Function.update_of_ne hj]
      exact hall j
  somebody := fun hl => by
    obtain ⟨k, hp, hk⟩ := h.somebody hl
    have hne : k ≠ i := by
      rintro rfl
      have hholds := hp.holds
      rw [hi] at hholds
      cases hholds
    refine ⟨k, by simpa only [Function.update_of_ne hne] using hp, fun j hj => ?_⟩
    by_cases hji : j = i
    · rw [hji] at hj
      simp [Pc.holds] at hj
    · simp only [Function.update_of_ne hji] at hj
      exact hk j hj

/-- A user that finds the lock free. -/
theorem acquire [DecidableEq ι] {c : Call} (hl : g.locked s.shared = false) :
    g.Inv s₀ { s with
      shared := g.acquire s.shared
      pc := Function.update s.pc i (.inside c (g.enter c)) } u where
  serial := h.serial
  unlocked := h.unlocked
  nobody := fun hf => absurd ((g.locked_acquire s.shared).symm.trans hf) (by simp)
  somebody := fun _ => by
    obtain ⟨heq, hall⟩ := h.nobody hl
    refine ⟨i, ?_, fun j hj => ?_⟩
    · simp only [Function.update_self]
      exact ⟨0, by rw [heq]; rfl⟩
    · by_contra hne
      simp only [Function.update_of_ne hne, hall j] at hj
      cases hj

/-- The end of a section. -/
theorem release [DecidableEq ι] {c : Call} {r : Ret} (hi : s.pc i = .leaving c r) :
    g.Inv s₀ ⟨g.release s.shared, Function.update s.pc i .idle, s.history ++ [(i, c, r)]⟩
      (g.release s.shared) where
  serial := by
    have hp := h.progress (i := i) (by rw [hi]; rfl)
    rw [hi] at hp
    exact serial_snoc h.serial ⟨h.unlocked, s.shared, hp, rfl⟩
  unlocked := g.locked_release _
  nobody := fun _ => by
    refine ⟨rfl, fun j => ?_⟩
    by_cases hj : j = i
    · simp [hj, Pc.holds]
    · simp only [Function.update_of_ne hj]
      by_contra hholds
      exact hj (h.eq_of_holds (by simpa using hholds) (by rw [hi]; rfl))
  somebody := fun hl => absurd ((g.locked_release s.shared).symm.trans hl) (by simp)

/-- A step inside a section. -/
theorem inside [DecidableEq ι] {c : Call} {l : Local} (hi : s.pc i = .inside c l)
    (hstep : g.userStep s i = some t) : g.Inv s₀ t u := by
  have hholds : (s.pc i).holds = true := by rw [hi]; rfl
  have hp := h.progress hholds
  rw [hi] at hp
  obtain ⟨n, hn⟩ := hp
  have hlock := h.locked_of_holds hholds
  rw [userStep, hi] at hstep
  dsimp only at hstep
  split at hstep
  · next l' v hbody =>
    cases hstep
    exact h.move hholds ((g.locked_inl _ _ hbody).trans hlock) ⟨n + 1, headAt_succ hbody n hn⟩
  · next r v hbody =>
    cases hstep
    exact h.move hholds ((g.locked_inr _ _ hbody).trans hlock) ⟨n + 1, loop_of_headAt hn hbody⟩
  · next v hbody =>
    cases hstep
    exact h.move hholds ((g.locked_inr _ _ hbody).trans hlock) ⟨n + 1, loop_of_headAt hn hbody⟩

/-- **Every step keeps the invariant.** The state between two sections is a new one only when a
section ends. -/
theorem step [DecidableEq ι] {op : Op ι Call} (hstep : g.step s op = some t) :
    ∃ u', g.Inv s₀ t u' := by
  cases op with
  | call i c =>
    rw [Guarded.step] at hstep
    split at hstep
    · next hi =>
      cases hstep
      exact ⟨u, h.wait hi⟩
    · cases hstep
  | step i =>
    rw [Guarded.step] at hstep
    cases hi : s.pc i with
    | idle => simp [userStep, hi] at hstep
    | waiting c =>
      rw [userStep, hi] at hstep
      dsimp only at hstep
      split at hstep
      · cases hstep
        exact ⟨u, h⟩
      · next hl =>
        cases hstep
        exact ⟨u, h.acquire (by simpa using hl)⟩
    | inside c l => exact ⟨u, h.inside hi hstep⟩
    | leaving c r =>
      simp only [userStep, hi, Option.some.injEq] at hstep
      cases hstep
      exact ⟨_, h.release hi⟩
    | stopped c => simp [userStep, hi] at hstep

end Inv

theorem Inv.start {s₀ : σ} (hs : g.locked s₀ = false) :
    g.Inv s₀ (Users.start s₀ : Users ι σ Call Local Ret) s₀ where
  serial := rfl
  unlocked := hs
  nobody := fun _ => ⟨rfl, fun _ => rfl⟩
  somebody := fun hl => absurd (hs.symm.trans hl) (by simp)

/--
**Sections under a lock are serializable.**

In every state that users reach from one in which the lock is free, the calls that have returned
lead, one after another and with the results that they returned, to the shared state, or to the one
in which the section that is under way has started.
-/
theorem serializable [DecidableEq ι] {s₀ : σ} (hs : g.locked s₀ = false) (ops : List (Op ι Call))
    {s : Users ι σ Call Local Ret} (hrun : run g.step ops (Users.start s₀) = some s) :
    ∃ u, g.Inv s₀ s u :=
  run_invariant (fun s => ∃ u, g.Inv s₀ s u) (fun _ _ _ ⟨_, h⟩ hstep => h.step hstep) ops
    ⟨s₀, Inv.start hs⟩ hrun

/-! ## The calls that are made -/

/-- Every call that is under way or has returned meets `P`. -/
structure AllCalls (P : Call → Prop) (s : Users ι σ Call Local Ret) : Prop where
  pending : ∀ i, ∀ c ∈ (s.pc i).call?, P c
  returned : ∀ x ∈ s.history, P x.2.1

theorem AllCalls.move [DecidableEq ι] {P : Call → Prop} {s : Users ι σ Call Local Ret}
    (h : AllCalls P s) (i : ι) (pc : Pc Call Local Ret) (hpc : ∀ c ∈ pc.call?, P c) (v : σ) :
    AllCalls P { s with shared := v, pc := Function.update s.pc i pc } where
  pending := fun j c hc => by
    by_cases hj : j = i
    · rw [hj] at hc
      exact hpc c (by simpa using hc)
    · exact h.pending j c (by simpa [Function.update_of_ne hj] using hc)
  returned := h.returned

/-- What holds of every call that is made holds of every call that returns. -/
theorem AllCalls.step [DecidableEq ι] {P : Call → Prop} {s t : Users ι σ Call Local Ret}
    {op : Op ι Call} (h : AllCalls P s) (hop : ∀ i c, op = .call i c → P c)
    (hstep : g.step s op = some t) : AllCalls P t := by
  cases op with
  | call i c =>
    rw [Guarded.step] at hstep
    split at hstep
    · cases hstep
      exact h.move i (.waiting c) (by simpa [Pc.call?] using hop i c rfl) s.shared
    · cases hstep
  | step i =>
    rw [Guarded.step] at hstep
    have hi := h.pending i
    cases hpc : s.pc i with
    | idle => simp [userStep, hpc] at hstep
    | waiting c =>
      rw [userStep, hpc] at hstep
      dsimp only at hstep
      rw [hpc] at hi
      split at hstep
      · cases hstep
        exact h
      · cases hstep
        exact h.move i _ (by simpa [Pc.call?] using hi) _
    | inside c l =>
      rw [userStep, hpc] at hstep
      dsimp only at hstep
      rw [hpc] at hi
      split at hstep
      · cases hstep
        exact h.move i _ (by simpa [Pc.call?] using hi) _
      · cases hstep
        exact h.move i _ (by simpa [Pc.call?] using hi) _
      · cases hstep
        exact h.move i _ (by simpa [Pc.call?] using hi) _
    | leaving c r =>
      simp only [userStep, hpc, Option.some.injEq] at hstep
      cases hstep
      have hmove := h.move i .idle (by simp [Pc.call?]) (g.release s.shared)
      refine ⟨hmove.pending, fun x hx => ?_⟩
      rcases List.mem_append.mp hx with hold | hnew
      · exact h.returned x hold
      · rw [List.mem_singleton.mp hnew]
        exact hi c (by rw [hpc]; rfl)
    | stopped c => simp [userStep, hpc] at hstep

theorem run_allCalls [DecidableEq ι] {P : Call → Prop} (ops : List (Op ι Call))
    (hops : ∀ op ∈ ops, ∀ i c, op = .call i c → P c) {s₀ : σ} {s : Users ι σ Call Local Ret}
    (hrun : run g.step ops (Users.start s₀) = some s) : AllCalls P s :=
  runIf_invariant (C := fun _ op => ∀ i c, op = .call i c → P c) (AllCalls P)
    (fun _ _ _ h hop hstep => h.step hop hstep) ops
    ⟨fun i c hc => by simp [Users.start, Pc.call?] at hc, by simp [Users.start]⟩
    (runIf_of_forall ops (fun op hop _ => hops op hop) hrun)

/-! ## The end of a section -/

/-- The user in a section carries it out. -/
theorem run_inside [DecidableEq ι] {c : Call} {i : ι} {o : Option Ret} {v : σ} : ∀ (n : Nat) {l : Local}
    {s : Users ι σ Call Local Ret}, s.pc i = .inside c l → loop g.body n (l, s.shared) = some (o, v) →
    ∃ m t, run g.step (List.replicate m (.step i)) s = some t ∧ t.shared = v ∧
      t.pc i = (match o with
        | some r => .leaving c r
        | none => .stopped c)
  | 0, _, _, _, h => by cases h
  | n + 1, l, s, hi, h => by
    cases hb : g.body (l, s.shared) with
    | inl y =>
      obtain ⟨l', w⟩ := y
      rw [loop_inl hb] at h
      have hnext : (Function.update s.pc i (.inside c l')) i = .inside c l' := Function.update_self ..
      obtain ⟨m, t, hrun, hv, hpc⟩ := run_inside n
        (s := { s with shared := w, pc := Function.update s.pc i (.inside c l') }) hnext h
      refine ⟨m + 1, t, ?_, hv, hpc⟩
      rw [List.replicate_succ, run_cons_eq_some]
      exact ⟨_, by simp [Guarded.step, userStep, hi, hb], hrun⟩
    | inr b =>
      rw [loop_inr hb, Option.some.injEq] at h
      rw [h] at hb
      cases o with
      | some r =>
        refine ⟨1, { s with shared := v, pc := Function.update s.pc i (.leaving c r) }, ?_, rfl,
          by simp⟩
        simp [run, Guarded.step, userStep, hi, hb]
      | none =>
        refine ⟨1, { s with shared := v, pc := Function.update s.pc i (.stopped c) }, ?_, rfl,
          by simp⟩
        simp [run, Guarded.step, userStep, hi, hb]

/-- **The user with the lock gets to the end of its section**, if the section has an end. It then
gives the lock back, unless it has stopped. -/
theorem Inv.leaves [DecidableEq ι] {s₀ u : σ} {s : Users ι σ Call Local Ret} {i : ι} (h : g.Inv s₀ s u)
    (hi : (s.pc i).holds = true)
    (hend : ∀ c ∈ (s.pc i).call?, ∃ b, Ends g.body (g.enter c, g.acquire u) b) :
    ∃ m t, run g.step (List.replicate m (.step i)) s = some t ∧
      (g.locked t.shared = false ∨ ∃ c, t.pc i = .stopped c) := by
  -- from the end of the section on
  have hlast : ∀ (s : Users ι σ Call Local Ret) c r, s.pc i = .leaving c r →
      ∃ t, g.step s (.step i) = some t ∧ g.locked t.shared = false := by
    intro s c r hpc
    refine ⟨⟨g.release s.shared, Function.update s.pc i .idle, s.history ++ [(i, c, r)]⟩, ?_,
      g.locked_release _⟩
    simp only [Guarded.step, userStep, hpc]
  have hp := h.progress hi
  cases hpc : s.pc i with
  | idle => rw [hpc] at hi; cases hi
  | waiting c => rw [hpc] at hi; cases hi
  | stopped c => exact ⟨0, s, rfl, Or.inr ⟨c, hpc⟩⟩
  | leaving c r =>
    obtain ⟨t, ht, hl⟩ := hlast s c r hpc
    exact ⟨1, t, by simp [run, ht], Or.inl hl⟩
  | inside c l =>
    rw [hpc] at hp
    obtain ⟨n, hn⟩ := hp
    obtain ⟨⟨o, v⟩, k, hov⟩ := hend c (by rw [hpc]; rfl)
    have hloop : loop g.body k (l, s.shared) = some (o, v) := by
      rw [← loop_headAt k n hn]
      exact loop_mono hov (Nat.le_add_left k n)
    obtain ⟨m, t, hrun, -, ht⟩ := run_inside k hpc hloop
    cases o with
    | none => exact ⟨m, t, hrun, Or.inr ⟨c, ht⟩⟩
    | some r =>
      obtain ⟨t', ht', hl⟩ := hlast t c r ht
      refine ⟨m + 1, t', ?_, Or.inl hl⟩
      rw [List.replicate_succ', run_append, hrun]
      simp [run, ht']

/-- **A user that stops inside its section stops all others**: whatever they do, nobody else gets
the lock, the shared state stays as it is, and no call returns. -/
theorem stopped_run [DecidableEq ι] {s₀ u : σ} {s : Users ι σ Call Local Ret} {i : ι} {c : Call}
    (h : g.Inv s₀ s u) (hi : s.pc i = .stopped c) (ops : List (Op ι Call))
    {t : Users ι σ Call Local Ret} (hrun : run g.step ops s = some t) :
    t.shared = s.shared ∧ t.history = s.history ∧ t.pc i = .stopped c ∧
      ∀ j ≠ i, (t.pc j).holds = false := by
  refine run_invariant (fun t => t.shared = s.shared ∧ t.history = s.history ∧
    t.pc i = .stopped c ∧ ∀ j ≠ i, (t.pc j).holds = false) ?_ ops ⟨rfl, rfl, hi, fun j hj => ?_⟩ hrun
  · have hlock : g.locked s.shared = true := h.locked_of_holds (i := i) (by rw [hi]; rfl)
    rintro t op t' ⟨hsh, hhist, hpc, hothers⟩ hstep
    -- a user that is not `i` can only start to wait, or wait on
    have hne : ∀ j, (t.pc j).holds = false → j ≠ i := by
      rintro j hj rfl
      rw [hpc] at hj
      cases hj
    cases op with
    | call j c' =>
      rw [Guarded.step] at hstep
      split at hstep
      · next hj =>
        cases hstep
        have hji : j ≠ i := hne j (by rw [hj]; rfl)
        refine ⟨hsh, hhist, by simpa [Function.update_of_ne hji.symm] using hpc, fun k hk => ?_⟩
        by_cases hkj : k = j
        · simp [hkj, Pc.holds]
        · simpa [Function.update_of_ne hkj] using hothers k hk
      · cases hstep
    | step j =>
      have hwait : t' = t := by
        rw [Guarded.step, userStep] at hstep
        cases hj : t.pc j with
        | idle => simp [hj] at hstep
        | waiting c' =>
          rw [hj] at hstep
          dsimp only at hstep
          rw [if_pos (by rw [hsh, hlock])] at hstep
          exact (Option.some.inj hstep).symm
        | inside c' l =>
          by_cases hji : j = i
          · rw [← hji, hj] at hpc
            cases hpc
          · have := hothers j hji
            rw [hj] at this
            cases this
        | leaving c' r =>
          by_cases hji : j = i
          · rw [← hji, hj] at hpc
            cases hpc
          · have := hothers j hji
            rw [hj] at this
            cases this
        | stopped c' => simp [hj] at hstep
      rw [hwait]
      exact ⟨hsh, hhist, hpc, hothers⟩
  · by_contra hholds
    exact hj (h.eq_of_holds (by simpa using hholds) (by rw [hi]; rfl))

end Guarded

end Lock
