import BloreOs.Lib.Loop

/-!
# Drivers and devices

A driver is a program that reads and writes ports. Between any two of its operations the device may do
something on its own. What is true in between is written down as an outline: one assertion for each
point of the program, which the device's own steps leave true.

* `Outline.bind`, `Outline.mono` — outlines of programs are made of outlines of their parts,
* `Outline.step` — every step of the driver and of the device keeps to the outline,
* `outline_run` — so in every run each write is allowed, and in the end the last assertion holds,
* `outline_completes` — and every run can be continued to an end.
-/

namespace Driver

open Loop

/-- A device behind ports. `own` is a step that it takes on its own. -/
structure Device (δ ε : Type) where
  inb : BitVec 16 → δ → BitVec 8 × δ
  outb : BitVec 16 → BitVec 8 → δ → δ
  own : ε → δ → Option δ

/-- A driver. -/
inductive Prog (α : Type) where
  | ret (a : α)
  /-- `while (!ready(inb(port)));` -/
  | wait (port : BitVec 16) (ready : BitVec 8 → Bool) (rest : Prog α)
  | inb (port : BitVec 16) (rest : BitVec 8 → Prog α)
  | outb (port : BitVec 16) (value : BitVec 8) (rest : Prog α)

variable {δ ε α β : Type}

namespace Prog

def bind : Prog α → (α → Prog β) → Prog β
  | ret a, f => f a
  | wait port ready rest, f => wait port ready (rest.bind f)
  | inb port rest, f => inb port fun b => (rest b).bind f
  | outb port value rest, f => outb port value (rest.bind f)

instance : Monad Prog where
  pure := ret
  bind := bind

end Prog

inductive Step (ε : Type) where
  | driver
  | own (e : ε)

/-- One step. A driver that is waiting reads the port again. -/
def step (d : Device δ ε) (x : Prog α × δ) : Step ε → Option (Prog α × δ)
  | .own e => (d.own e x.2).map fun s => (x.1, s)
  | .driver =>
    match x.1 with
    | .ret _ => none
    | .wait port ready rest =>
      let r := d.inb port x.2
      some (if ready r.1 then rest else x.1, r.2)
    | .inb port rest =>
      let r := d.inb port x.2
      some (rest r.1, r.2)
    | .outb port value rest => some (rest, d.outb port value x.2)

/-- How a driver may use a device: what the device does while the driver runs, and which writes are
allowed. -/
structure Rules (δ ε : Type) extends Device δ ε where
  may : δ → ε → Prop
  allowed : BitVec 16 → BitVec 8 → δ → Prop

variable (r : Rules δ ε)

/-- The device's own steps leave the assertion true. -/
def Stable (P : δ → Prop) : Prop := ∀ s e t, P s → r.may s e → r.own e s = some t → P t

/-- An outline of a program between two assertions. Where the program waits, one step of the device is
enough to end it. -/
def Outline : Prog α → (δ → Prop) → (α → δ → Prop) → Prop
  | .ret a, P, Q => ∀ s, P s → Q a s
  | .wait port ready rest, P, Q => ∃ I P', Stable r I ∧ Stable r P' ∧ (∀ s, P s → I s) ∧
      (∀ s, I s → (ready (r.inb port s).1 = true ∧ P' (r.inb port s).2) ∨
        (ready (r.inb port s).1 = false ∧ I (r.inb port s).2 ∧ ∃ e t, r.may (r.inb port s).2 e ∧
          r.own e (r.inb port s).2 = some t ∧ ready (r.inb port t).1 = true)) ∧
      Outline rest P' Q
  | .inb port rest, P, Q => ∃ P' : BitVec 8 → δ → Prop, (∀ b, Stable r (P' b)) ∧
      (∀ s, P s → P' (r.inb port s).1 (r.inb port s).2) ∧ ∀ b, Outline (rest b) (P' b) Q
  | .outb port value rest, P, Q => ∃ P', Stable r P' ∧
      (∀ s, P s → r.allowed port value s ∧ P' (r.outb port value s)) ∧ Outline rest P' Q

variable {r} {P P' : δ → Prop} {Q : α → δ → Prop} {Q' : β → δ → Prop} {prog : Prog α} {s t : δ}

/-! ## Rules -/

namespace Outline

/-- A stronger assertion at the beginning, weaker ones at the end. -/
theorem mono {Q' : α → δ → Prop} (h : Outline r prog P Q) (hP : ∀ s, P' s → P s)
    (hQ : ∀ a s, Q a s → Q' a s) : Outline r prog P' Q' := by
  induction prog generalizing P P' with
  | ret a => exact fun s hs => hQ a s (h s (hP s hs))
  | wait port ready rest ih =>
    obtain ⟨I, P₁, hI, hP₁, hPI, hstep, hrest⟩ := h
    exact ⟨I, P₁, hI, hP₁, fun s hs => hPI s (hP s hs), hstep, ih hrest (fun _ h => h)⟩
  | inb port rest ih =>
    obtain ⟨P₁, hP₁, hstep, hrest⟩ := h
    exact ⟨P₁, hP₁, fun s hs => hstep s (hP s hs), fun b => ih b (hrest b) (fun _ h => h)⟩
  | outb port value rest ih =>
    obtain ⟨P₁, hP₁, hstep, hrest⟩ := h
    exact ⟨P₁, hP₁, fun s hs => hstep s (hP s hs), ih hrest (fun _ h => h)⟩

/-- **One program after another.** -/
theorem bind {f : α → Prog β} (h : Outline r prog P Q) (hf : ∀ a, Outline r (f a) (Q a) Q') :
    Outline r (prog.bind f) P Q' := by
  induction prog generalizing P with
  | ret a => exact (hf a).mono h (fun _ _ h => h)
  | wait port ready rest ih =>
    obtain ⟨I, P₁, hI, hP₁, hPI, hstep, hrest⟩ := h
    exact ⟨I, P₁, hI, hP₁, hPI, hstep, ih hrest⟩
  | inb port rest ih =>
    obtain ⟨P₁, hP₁, hstep, hrest⟩ := h
    exact ⟨P₁, hP₁, hstep, fun b => ih b (hrest b)⟩
  | outb port value rest ih =>
    obtain ⟨P₁, hP₁, hstep, hrest⟩ := h
    exact ⟨P₁, hP₁, hstep, ih hrest⟩

/-- Where nothing gets, anything goes. -/
theorem of_false (prog : Prog α) (hP : ∀ s, ¬ P s) : Outline r prog P Q := by
  have hnone : Stable r fun _ => False := fun _ _ _ h => h.elim
  induction prog generalizing P with
  | ret a => exact fun s hs => absurd hs (hP s)
  | wait port ready rest ih =>
    exact ⟨fun _ => False, fun _ => False, hnone, hnone, hP, fun _ h => h.elim, ih fun _ h => h⟩
  | inb port rest ih =>
    exact ⟨fun _ _ => False, fun _ => hnone, fun s hs => absurd hs (hP s), fun b => ih b fun _ h => h⟩
  | outb port value rest ih =>
    exact ⟨fun _ => False, hnone, fun s hs => absurd hs (hP s), ih fun _ h => h⟩

end Outline

/-! ## Runs -/

/-- The device does only what it may. -/
def Obeys (r : Rules δ ε) (x : Prog α × δ) : Step ε → Prop
  | .driver => True
  | .own e => r.may x.2 e

/-- The next operation of the driver is allowed. -/
def Allowed (r : Rules δ ε) (x : Prog α × δ) : Prop :=
  match x.1 with
  | .outb port value _ => r.allowed port value x.2
  | _ => True

/-- An assertion of the outline holds. -/
def Keeps (r : Rules δ ε) (Q : α → δ → Prop) (x : Prog α × δ) : Prop :=
  ∃ P, Stable r P ∧ P x.2 ∧ Outline r x.1 P Q

/-- **One step.** -/
theorem Keeps.step {x y : Prog α × δ} {e : Step ε} (h : Keeps r Q x) (he : Obeys r x e)
    (hstep : step r.toDevice x e = some y) : Keeps r Q y := by
  obtain ⟨prog, s⟩ := x
  obtain ⟨P, hstable, hP, houtline⟩ := h
  cases e with
  | own e =>
    simp only [Driver.step, Option.map_eq_some_iff] at hstep
    obtain ⟨t, ht, rfl⟩ := hstep
    exact ⟨P, hstable, hstable s e t hP he ht, houtline⟩
  | driver =>
    cases prog with
    | ret a => cases hstep
    | wait port ready rest =>
      cases hstep
      obtain ⟨I, P₁, hI, hP₁, hPI, hread, hrest⟩ := houtline
      rcases hread s (hPI s hP) with ⟨hready, hs⟩ | ⟨hready, hs, -⟩
      · simp only [hready, if_true]
        exact ⟨P₁, hP₁, hs, hrest⟩
      · simp only [hready, Bool.false_eq_true, if_false]
        exact ⟨I, hI, hs, I, P₁, hI, hP₁, fun _ h => h, hread, hrest⟩
    | inb port rest =>
      cases hstep
      obtain ⟨P₁, hP₁, hread, hrest⟩ := houtline
      exact ⟨P₁ _, hP₁ _, hread s hP, hrest _⟩
    | outb port value rest =>
      cases hstep
      obtain ⟨P₁, hP₁, hwrite, hrest⟩ := houtline
      exact ⟨P₁, hP₁, (hwrite s hP).2, hrest⟩

theorem Keeps.allowed {x : Prog α × δ} (h : Keeps r Q x) : Allowed r x := by
  obtain ⟨prog, s⟩ := x
  obtain ⟨P, -, hP, houtline⟩ := h
  cases prog with
  | outb port value rest =>
    obtain ⟨P₁, -, hwrite, -⟩ := houtline
    exact (hwrite s hP).1
  | _ => trivial

theorem Keeps.post {a : α} (h : Keeps r Q (.ret a, s)) : Q a s := by
  obtain ⟨P, -, hP, houtline⟩ := h
  exact houtline s hP

/-- **Every run keeps to the outline.** -/
theorem outline_run (h : Outline r prog P Q) (hstable : Stable r P) (hs : P s) (es : List (Step ε))
    {y : Prog α × δ} (hrun : RunIf (step r.toDevice) (Obeys r) es (prog, s) y) : Keeps r Q y :=
  runIf_invariant (Keeps r Q) (fun _ _ _ h he hstep => h.step he hstep) es ⟨P, hstable, hs, h⟩ hrun

/-- A driver that has been given an outline can get to its end. -/
theorem completes_of_outline (prog : Prog α) (h : Outline r prog P Q) (hstable : Stable r P) (hs : P s) :
    ∃ es a t, RunIf (step r.toDevice) (Obeys r) es (prog, s) (.ret a, t) ∧ Q a t := by
  induction prog generalizing P s with
  | ret a => exact ⟨[], a, s, rfl, h s hs⟩
  | wait port ready rest ih =>
    obtain ⟨I, P₁, hI, hP₁, hPI, hread, hrest⟩ := h
    have hgo : ∀ u, I u → ready (r.inb port u).1 = true →
        ∃ es a t, RunIf (step r.toDevice) (Obeys r) es (.wait port ready rest, u) (.ret a, t) ∧ Q a t := by
      intro u hu hready
      rcases hread u hu with ⟨-, hP'⟩ | ⟨hnot, -⟩
      · obtain ⟨es, a, t, hrun, hQ⟩ := ih hrest hP₁ hP'
        refine ⟨.driver :: es, a, t, ⟨trivial, (rest, (r.inb port u).2), ?_, hrun⟩, hQ⟩
        simp only [Driver.step, hready, if_true]
      · rw [hready] at hnot
        cases hnot
    rcases hread s (hPI s hs) with ⟨hready, -⟩ | ⟨hready, hs', e, u, hmay, hown, hready'⟩
    · exact hgo s (hPI s hs) hready
    · -- the device moves once, between two readings
      obtain ⟨es, a, t, hrun, hQ⟩ := hgo u (hI _ e u hs' hmay hown) hready'
      refine ⟨.driver :: .own e :: es, a, t, ⟨trivial, (.wait port ready rest, (r.inb port s).2), ?_, hmay,
        (.wait port ready rest, u), ?_, hrun⟩, hQ⟩
      · simp only [Driver.step, hready, Bool.false_eq_true, if_false]
      · simp only [Driver.step, hown, Option.map_some]
  | inb port rest ih =>
    obtain ⟨P₁, hP₁, hread, hrest⟩ := h
    obtain ⟨es, a, t, hrun, hQ⟩ := ih _ (hrest _) (hP₁ _) (hread s hs)
    exact ⟨.driver :: es, a, t, ⟨trivial, _, rfl, hrun⟩, hQ⟩
  | outb port value rest ih =>
    obtain ⟨P₁, hP₁, hwrite, hrest⟩ := h
    obtain ⟨es, a, t, hrun, hQ⟩ := ih hrest hP₁ (hwrite s hs).2
    exact ⟨.driver :: es, a, t, ⟨trivial, _, rfl, hrun⟩, hQ⟩

/-- **Every run can be continued to an end.** -/
theorem outline_completes {x : Prog α × δ} (h : Keeps r Q x) :
    ∃ es a t, RunIf (step r.toDevice) (Obeys r) es x (.ret a, t) ∧ Q a t := by
  obtain ⟨prog, s⟩ := x
  obtain ⟨P, hstable, hP, houtline⟩ := h
  exact completes_of_outline prog houtline hstable hP

end Driver
