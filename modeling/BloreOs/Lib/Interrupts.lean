import BloreOs.Lib.Loop
import Mathlib.Data.Finset.Max

/-!
# Interrupts on one CPU

A controller collects requests and passes the highest one on to the CPU, unless one of the same or of a
higher class is in service. The CPU enters the handler, which carries out its operations one by one and
at some point signals the end of its service. Meanwhile more requests come in.

* `System` — the handlers, and the program that they interrupt,
* `Sim.step` — if every gate disables interrupts and every handler signals its end once, a step is
  nothing, or a step of a system in which handlers run at once,
* `sim_run` — so every run is a run of that system,
* `Atomic.taken_le`, `Atomic.pending` — in which no request is served twice, and none is lost.
-/

namespace Interrupts

open Loop

variable {ν ι μ σ : Type}

/-- One operation of a handler. -/
inductive Op (ι σ : Type) where
  /-- It works on the state, with an input from outside. It may fail to return. -/
  | work (f : ι → σ → Option σ)
  /-- It signals the end of the service to the controller. -/
  | eoi

namespace Op

def isEoi : Op ι σ → Bool
  | work _ => false
  | eoi => true

/-- What an operation does to the state. -/
def exec : Op ι σ → ι → σ → Option σ
  | work f, i, s => f i s
  | eoi, _, s => some s

end Op

/-- The handlers behind the gates of a CPU, and the program that is interrupted. -/
structure System (ν ι μ σ : Type) where
  /-- The class of a vector. -/
  cls : ν → Nat
  handler : ν → Option (List (Op ι σ))
  /-- The gate disables interrupts. -/
  disables : ν → Bool
  /-- A step of the program, which may also change the interrupt flag. -/
  main : μ → Bool × σ → Option (Bool × σ)

/-- A handler that has been entered, with the interrupt flag that it returns to and what it has yet to
do. -/
structure Frame (ν ι σ : Type) where
  vector : ν
  flag : Bool
  rest : List (Op ι σ)

/-- The registers of the controller, the interrupt flag, and the handlers that have been entered, the
last one first. -/
structure State (ν ι σ : Type) where
  requested : Finset ν
  inService : Finset ν
  enabled : Bool
  frames : List (Frame ν ι σ)
  data : σ

inductive Event (ν ι μ : Type) where
  | raise (v : ν)
  /-- The CPU takes an interrupt. -/
  | accept
  /-- The next operation of the handler, or its return. -/
  | handler (i : ι)
  | main (m : μ)

/-- The requests of a run. -/
def raises (es : List (Event ν ι μ)) : List ν :=
  es.filterMap fun
    | .raise v => some v
    | _ => none

/-- The steps of the program. -/
def mains (es : List (Event ν ι μ)) : List μ :=
  es.filterMap fun
    | .main m => some m
    | _ => none

theorem raises_cons (e : Event ν ι μ) (es : List (Event ν ι μ)) : raises (e :: es) = raises [e] ++ raises es := by
  cases e <;> rfl

theorem mains_cons (e : Event ν ι μ) (es : List (Event ν ι μ)) : mains (e :: es) = mains [e] ++ mains es := by
  cases e <;> rfl

section Controller

variable [LinearOrder ν]

def highest (s : Finset ν) : Option ν := if h : s.Nonempty then some (s.max' h) else none

/-- The request that is passed on. -/
def ready (cls : ν → Nat) (requested inService : Finset ν) : Option ν :=
  (highest requested).filter fun v => ∀ w ∈ inService, cls w < cls v

/-- The end of a service is that of the highest vector in service. -/
def retire (s : Finset ν) : Finset ν := if h : s.Nonempty then s.erase (s.max' h) else s

theorem highest_mem {s : Finset ν} {v : ν} (h : highest s = some v) : v ∈ s := by
  unfold highest at h
  split at h
  · cases h
    exact s.max'_mem _
  · cases h

theorem ready_empty (cls : ν → Nat) (s : Finset ν) : ready cls s ∅ = highest s := by
  cases h : highest s <;> simp [ready, h]

theorem retire_singleton (v : ν) : retire {v} = (∅ : Finset ν) := by
  simp [retire]

end Controller

/-! ## The system -/

namespace System

variable [LinearOrder ν] (g : System ν ι μ σ)

def step (s : State ν ι σ) : Event ν ι μ → Option (State ν ι σ)
  | .raise v => some { s with requested := insert v s.requested }
  | .accept =>
    if s.enabled then
      (ready g.cls s.requested s.inService).bind fun v =>
        (g.handler v).map fun ops =>
          { s with
            requested := s.requested.erase v
            inService := insert v s.inService
            enabled := !g.disables v
            frames := ⟨v, s.enabled, ops⟩ :: s.frames }
    else none
  | .handler i =>
    match s.frames with
    | [] => none
    | ⟨_, flag, []⟩ :: fs => some { s with enabled := flag, frames := fs }
    | ⟨v, flag, op :: ops⟩ :: fs =>
      (op.exec i s.data).map fun d =>
        { s with
          inService := if op.isEoi then retire s.inService else s.inService
          frames := ⟨v, flag, ops⟩ :: fs
          data := d }
  | .main m =>
    match s.frames with
    | [] => (g.main m (s.enabled, s.data)).map fun x => { s with enabled := x.1, data := x.2 }
    | _ => none

/-- Every gate disables interrupts, and every handler signals its end once. -/
structure Disciplined : Prop where
  disables : ∀ v ops, g.handler v = some ops → g.disables v = true
  eoi : ∀ v ops, g.handler v = some ops → ops.countP Op.isEoi = 1

end System

/-! ## Handlers that run at once -/

/-- The system without a controller. -/
structure Atomic (ν σ : Type) where
  requested : Finset ν
  enabled : Bool
  data : σ

inductive AtomicEvent (ν ι μ : Type) where
  | raise (v : ν)
  /-- A whole handler, with its inputs. -/
  | irq (v : ν) (is : List ι)
  | main (m : μ)

/-- The operations one after the other, each with its input. -/
def runOps : List (Op ι σ) → List ι → σ → Option σ
  | [], [], s => some s
  | op :: ops, i :: is, s => (op.exec i s).bind (runOps ops is)
  | _, _, _ => none

theorem length_of_runOps : ∀ (ops : List (Op ι σ)) (is : List ι) {s t : σ}, runOps ops is s = some t →
    is.length = ops.length
  | [], [], _, _, _ => rfl
  | op :: ops, i :: is, s, t, h => by
    rw [runOps, Option.bind_eq_some_iff] at h
    obtain ⟨u, -, h⟩ := h
    exact congrArg (· + 1) (length_of_runOps ops is h)
  | [], _ :: _, _, _, h => by cases h
  | _ :: _, [], _, _, h => by cases h

theorem runOps_append : ∀ (ops ops' : List (Op ι σ)) {is : List ι} (is' : List ι) (s : σ),
    is.length = ops.length → runOps (ops ++ ops') (is ++ is') s = (runOps ops is s).bind (runOps ops' is')
  | [], _, [], _, _, _ => rfl
  | op :: ops, ops', i :: is, is', s, h => by
    simp only [List.cons_append, runOps]
    cases hs : op.exec i s with
    | none => rfl
    | some t => exact runOps_append ops ops' is' t (Nat.succ.inj h)
  | [], _, _ :: _, _, _, h => by cases h
  | _ :: _, _, [], _, _, h => by cases h

def AtomicEvent.raised? : AtomicEvent ν ι μ → Option ν
  | raise v => some v
  | _ => none

def AtomicEvent.main? : AtomicEvent ν ι μ → Option μ
  | main m => some m
  | _ => none

def AtomicEvent.taken? : AtomicEvent ν ι μ → Option ν
  | irq v _ => some v
  | _ => none

theorem raised?_raise (ws : List ν) :
    (ws.map AtomicEvent.raise : List (AtomicEvent ν ι μ)).filterMap AtomicEvent.raised? = ws := by
  induction ws with
  | nil => rfl
  | cons w ws ih => exact congrArg (w :: ·) ih

theorem main?_raise (ws : List ν) :
    (ws.map AtomicEvent.raise : List (AtomicEvent ν ι μ)).filterMap AtomicEvent.main? = [] := by
  induction ws with
  | nil => rfl
  | cons w ws ih => exact ih

namespace Atomic

variable [LinearOrder ν]

def step (g : System ν ι μ σ) (a : Atomic ν σ) : AtomicEvent ν ι μ → Option (Atomic ν σ)
  | .raise v => some { a with requested := insert v a.requested }
  | .irq v is =>
    if a.enabled = true ∧ highest a.requested = some v then
      (g.handler v).bind fun ops =>
        (runOps ops is a.data).map fun d => { a with requested := a.requested.erase v, data := d }
    else none
  | .main m => (g.main m (a.enabled, a.data)).map fun x => { a with enabled := x.1, data := x.2 }

/-- The same state with an idle controller. -/
def idle (a : Atomic ν σ) : State ν ι σ := ⟨a.requested, ∅, a.enabled, [], a.data⟩

end Atomic

variable [LinearOrder ν] {g : System ν ι μ σ} {a b : Atomic ν σ} {s t : State ν ι σ} {v : ν}

theorem Atomic.run_raises (ws : List ν) (a : Atomic ν σ) :
    run (Atomic.step g) (ws.map AtomicEvent.raise) a =
      some { a with requested := ws.foldl (fun s w => insert w s) a.requested } := by
  induction ws generalizing a with
  | nil => rfl
  | cons w ws ih => exact ih { a with requested := insert w a.requested }

/-! ## The simulation -/

/-- How a state of the system comes from one of the other system: no handler is running, or the other
system is about to run the handler, and `ws` has been requested meanwhile. -/
inductive Sim (g : System ν ι μ σ) (a : Atomic ν σ) : List ν → State ν ι σ → Prop where
  | idle : Sim g a [] a.idle
  | busy {v : ν} {ws : List ν} {before rest : List (Op ι σ)} {is : List ι} {d : σ}
      (henabled : a.enabled = true) (hv : highest a.requested = some v)
      (hhandler : g.handler v = some (before ++ rest)) (hbefore : runOps before is a.data = some d) :
      Sim g a ws ⟨ws.foldl (fun s w => insert w s) (a.requested.erase v),
        if rest.any Op.isEoi then {v} else ∅, false, [⟨v, true, rest⟩], d⟩

namespace Sim

/-- **One step.** -/
theorem step (hg : g.Disciplined) {ws : List ν} (h : Sim g a ws s) (e : Event ν ι μ)
    (hstep : g.step s e = some t) : ∃ es b ws', run (Atomic.step g) es a = some b ∧ Sim g b ws' t ∧
      es.filterMap AtomicEvent.raised? ++ ws' = ws ++ raises [e] ∧
      es.filterMap AtomicEvent.main? = mains [e] := by
  cases e with
  | raise w =>
    cases hstep
    cases h with
    | idle =>
      exact ⟨[.raise w], { a with requested := insert w a.requested }, [], rfl, .idle, rfl, rfl⟩
    | @busy v ws before rest is d henabled hv hhandler hbefore =>
      refine ⟨[], a, ws ++ [w], rfl, ?_, rfl, rfl⟩
      have hbusy : Sim g a (ws ++ [w]) _ := Sim.busy henabled hv hhandler hbefore
      rwa [List.foldl_append] at hbusy
  | accept =>
    cases h with
    | idle =>
      simp only [System.step, Atomic.idle, ready_empty] at hstep
      split at hstep
      next henabled =>
        rw [Option.bind_eq_some_iff] at hstep
        obtain ⟨v, hv, hstep⟩ := hstep
        rw [Option.map_eq_some_iff] at hstep
        obtain ⟨ops, hops, rfl⟩ := hstep
        have hany : ops.any Op.isEoi = true := by
          rw [List.any_eq_true, ← List.countP_pos_iff, hg.eoi v ops hops]
          exact Nat.one_pos
        refine ⟨[], a, [], rfl, ?_, rfl, rfl⟩
        have hbefore : runOps ([] : List (Op ι σ)) [] a.data = some a.data := rfl
        have hhandler : g.handler v = some ([] ++ ops) := hops
        have hbusy : Sim g a [] _ := Sim.busy henabled hv hhandler hbefore
        rw [hany] at hbusy
        rw [hg.disables v ops hops, henabled]
        exact hbusy
      next => cases hstep
    | busy => cases hstep
  | handler i =>
    cases h with
    | idle => cases hstep
    | @busy v ws before rest is d henabled hv hhandler hbefore =>
      cases rest with
      | nil =>
        -- the return, at which the other system runs the handler and collects the requests
        cases hstep
        rw [List.append_nil] at hhandler
        have hirq : Atomic.step g a (.irq v is) =
            some { a with requested := a.requested.erase v, data := d } := by
          simp only [Atomic.step, henabled, hv, hhandler, hbefore, and_self, if_true, Option.bind_some,
            Option.map_some]
        refine ⟨.irq v is :: ws.map AtomicEvent.raise,
          ⟨ws.foldl (fun s w => insert w s) (a.requested.erase v), true, d⟩, [], ?_, .idle, ?_, ?_⟩
        · rw [run, hirq, Option.bind_some, Atomic.run_raises, henabled]
        · show (ws.map AtomicEvent.raise).filterMap AtomicEvent.raised? ++ [] = ws ++ []
          rw [raised?_raise]
        · exact main?_raise ws
      | cons op rest =>
        simp only [System.step, Option.map_eq_some_iff] at hstep
        obtain ⟨d', hd', rfl⟩ := hstep
        have hbefore' : runOps (before ++ [op]) (is ++ [i]) a.data = some d' := by
          rw [runOps_append _ _ _ _ (length_of_runOps _ _ hbefore), hbefore, Option.bind_some, runOps, hd']
          rfl
        have hhandler' : g.handler v = some ((before ++ [op]) ++ rest) := by
          rw [hhandler, List.append_assoc, List.singleton_append]
        have hbusy : Sim g a ws _ := Sim.busy henabled hv hhandler' hbefore'
        refine ⟨[], a, ws, rfl, ?_, (List.append_nil ws).symm, rfl⟩
        cases hop : op.isEoi with
        | false => simpa only [List.any_cons, hop, Bool.false_or, Bool.false_eq_true, if_false] using hbusy
        | true =>
          have hcount := hg.eoi v _ hhandler
          rw [List.countP_append, List.countP_cons_of_pos hop] at hcount
          have hnone : rest.any Op.isEoi = false := by
            rw [List.any_eq_false, ← List.countP_eq_zero]
            omega
          simpa only [List.any_cons, hop, hnone, Bool.true_or, Bool.false_eq_true, if_true, if_false,
            retire_singleton] using hbusy
  | main m =>
    cases h with
    | idle =>
      simp only [System.step, Atomic.idle, Option.map_eq_some_iff] at hstep
      obtain ⟨x, hx, rfl⟩ := hstep
      refine ⟨[.main m], ⟨a.requested, x.1, x.2⟩, [], ?_, .idle, rfl, rfl⟩
      simp only [run, Atomic.step, hx, Option.map_some, Option.bind_some]
    | busy => cases hstep

end Sim

/-- **Every run is a run of the system in which handlers run at once**, with the same requests and with
the same steps of the program. -/
theorem sim_run (hg : g.Disciplined) (es : List (Event ν ι μ)) {ws : List ν} (h : Sim g a ws s)
    (hrun : run g.step es s = some t) : ∃ es' b ws', run (Atomic.step g) es' a = some b ∧ Sim g b ws' t ∧
      es'.filterMap AtomicEvent.raised? ++ ws' = ws ++ raises es ∧
      es'.filterMap AtomicEvent.main? = mains es := by
  induction es generalizing a s ws with
  | nil =>
    cases hrun
    exact ⟨[], a, ws, rfl, h, (List.append_nil ws).symm, rfl⟩
  | cons e es ih =>
    obtain ⟨u, hu, hrun⟩ := run_cons_eq_some.mp hrun
    obtain ⟨es₁, b, ws₁, hrun₁, hsim₁, hraises₁, hmains₁⟩ := h.step hg e hu
    obtain ⟨es₂, c, ws₂, hrun₂, hsim₂, hraises₂, hmains₂⟩ := ih hsim₁ hrun
    refine ⟨es₁ ++ es₂, c, ws₂, ?_, hsim₂, ?_, ?_⟩
    · rw [run_append, hrun₁]
      exact hrun₂
    · rw [List.filterMap_append, List.append_assoc, hraises₂, ← List.append_assoc, hraises₁,
        List.append_assoc, ← raises_cons]
    · rw [List.filterMap_append, hmains₁, hmains₂, ← mains_cons]

/-! ## The return of a handler -/

/-- The rest of a handler, with nothing in between. -/
theorem run_handler (g : System ν ι μ σ) (v : ν) (flag : Bool) (i : ι) : ∀ (ops : List (Op ι σ)) (is : List ι)
    {d d' : σ} (requested inService : Finset ν) (enabled : Bool), runOps ops is d = some d' →
      ∃ inService', run g.step ((is ++ [i]).map .handler)
        ⟨requested, inService, enabled, [⟨v, flag, ops⟩], d⟩ = some ⟨requested, inService', flag, [], d'⟩
  | [], [], _, _, _, inService, _, h => by
    cases h
    exact ⟨inService, rfl⟩
  | op :: ops, i' :: is, d, d', requested, inService, enabled, h => by
    rw [runOps, Option.bind_eq_some_iff] at h
    obtain ⟨u, hu, h⟩ := h
    obtain ⟨inService', hrun⟩ := run_handler g v flag i ops is requested
      (if op.isEoi then retire inService else inService) enabled h
    refine ⟨inService', run_cons_eq_some.mpr ⟨_, ?_, hrun⟩⟩
    simp only [System.step, hu, Option.map_some]
  | [], _ :: _, _, _, _, _, _, h => by cases h
  | _ :: _, [], _, _, _, _, _, h => by cases h

/-- **A handler that is running returns**, if handlers return that run at once. -/
theorem Sim.returns {ws : List ν} (h : Sim g a ws s)
    (htotal : ∀ v ops, g.handler v = some ops → a.enabled = true → ∀ is : List ι,
      is.length = ops.length → (runOps ops is a.data).isSome) :
    s = a.idle ∨ ∃ v rest ops, s.frames = [⟨v, true, rest⟩] ∧ s.enabled = false ∧
      g.handler v = some ops ∧ rest <:+ ops ∧ ∀ (is : List ι) (i : ι), is.length = rest.length →
        ∃ t, run g.step ((is ++ [i]).map .handler) s = some t ∧ t.frames = [] ∧
          t.requested = s.requested := by
  cases h with
  | idle => exact Or.inl rfl
  | @busy v ws before rest is₀ d henabled hv hhandler hbefore =>
    refine Or.inr ⟨v, rest, before ++ rest, rfl, rfl, hhandler, List.suffix_append _ _, fun is i hlen => ?_⟩
    have hlen₀ := length_of_runOps before is₀ hbefore
    have hsome := htotal v _ hhandler henabled (is₀ ++ is) (by simp [hlen₀, hlen])
    rw [runOps_append before rest is a.data hlen₀, hbefore, Option.bind_some, Option.isSome_iff_exists] at hsome
    obtain ⟨d', hd'⟩ := hsome
    obtain ⟨inService', hrun⟩ := run_handler g v true i rest is _ _ false hd'
    exact ⟨_, hrun, rfl, rfl⟩

/-! ## Requests -/

namespace Atomic

def requests (v : ν) (es : List (AtomicEvent ν ι μ)) : Nat := (es.filterMap AtomicEvent.raised?).count v

def taken (v : ν) (es : List (AtomicEvent ν ι μ)) : Nat := (es.filterMap AtomicEvent.taken?).count v

theorem taken_cons (v : ν) (e : AtomicEvent ν ι μ) (es : List (AtomicEvent ν ι μ)) :
    taken v (e :: es) = taken v [e] + taken v es := by
  rw [taken, ← List.singleton_append, List.filterMap_append, List.count_append]
  rfl

/-- **No request is served twice.** -/
theorem taken_le (v : ν) (es : List (AtomicEvent ν ι μ)) (hrun : run (step g) es a = some b) :
    taken v es + (if v ∈ b.requested then 1 else 0) ≤
      requests v es + if v ∈ a.requested then 1 else 0 := by
  induction es generalizing a with
  | nil =>
    cases hrun
    simp [taken, requests]
  | cons e es ih =>
    obtain ⟨c, hc, hrun⟩ := run_cons_eq_some.mp hrun
    have hrest := ih hrun
    cases e with
    | raise w =>
      cases hc
      simp only [taken, requests, List.filterMap_cons, AtomicEvent.taken?, AtomicEvent.raised?,
        List.count_cons, Finset.mem_insert] at hrest ⊢
      by_cases hw : v = w
      · subst hw
        simp only [beq_self_eq_true, if_true, true_or] at hrest ⊢
        omega
      · simpa [hw, Ne.symm hw] using hrest
    | irq w is =>
      simp only [step] at hc
      split at hc
      next hw =>
        simp only [Option.bind_eq_some_iff, Option.map_eq_some_iff] at hc
        obtain ⟨ops, -, d, -, rfl⟩ := hc
        simp only [taken, requests, List.filterMap_cons, AtomicEvent.taken?, AtomicEvent.raised?,
          List.count_cons, Finset.mem_erase] at hrest ⊢
        by_cases hvw : v = w
        · subst hvw
          simp only [beq_self_eq_true, if_true, ne_eq, not_true_eq_false, false_and, if_false,
            highest_mem hw.2] at hrest ⊢
          omega
        · simpa [hvw, Ne.symm hvw] using hrest
      next => cases hc
    | main m =>
      simp only [step, Option.map_eq_some_iff] at hc
      obtain ⟨x, -, rfl⟩ := hc
      exact hrest

/-- **No request is lost**: it stays until its interrupt is taken. -/
theorem pending (v : ν) (es : List (AtomicEvent ν ι μ)) (hrun : run (step g) es a = some b)
    (hv : v ∈ a.requested ∨ v ∈ es.filterMap AtomicEvent.raised?) (htaken : taken v es = 0) :
    v ∈ b.requested := by
  induction es generalizing a with
  | nil =>
    cases hrun
    exact hv.resolve_right List.not_mem_nil
  | cons e es ih =>
    obtain ⟨c, hc, hrun⟩ := run_cons_eq_some.mp hrun
    cases e with
    | raise w =>
      cases hc
      refine ih hrun ?_ htaken
      rw [List.filterMap_cons, AtomicEvent.raised?, List.mem_cons] at hv
      rcases hv with hv | rfl | hv
      · exact Or.inl (Finset.mem_insert_of_mem hv)
      · exact Or.inl (Finset.mem_insert_self _ _)
      · exact Or.inr hv
    | irq w is =>
      simp only [step] at hc
      split at hc
      next =>
        simp only [Option.bind_eq_some_iff, Option.map_eq_some_iff] at hc
        obtain ⟨ops, -, d, -, rfl⟩ := hc
        simp only [taken, List.filterMap_cons, AtomicEvent.taken?, List.count_cons] at htaken
        by_cases hvw : w = v
        · simp [hvw] at htaken
        · refine ih hrun (hv.imp_left fun hv => ?_) (by simpa [taken, hvw] using htaken)
          exact Finset.mem_erase.mpr ⟨Ne.symm hvw, hv⟩
      next => cases hc
    | main m =>
      simp only [step, Option.map_eq_some_iff] at hc
      obtain ⟨x, -, rfl⟩ := hc
      exact ih hrun hv htaken

end Atomic

end Interrupts
