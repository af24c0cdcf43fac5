import BloreOs.Queue.Keyboard
import BloreOs.Terminal.Input

/-!
# From the keyboard to the input line

`kernel_main` takes the codes out of the queue and hands their events to `term_keyevent`, while the
interrupt handler goes on putting codes in. Here the pipeline and the terminal run together, and the
line that somebody has typed is compared with `input_str`.

* `Console.Inv.step` — the events that have been handled are the line,
* `console_types` — whatever the order of the steps, `input_str` holds what the accepted codes spell.
-/

namespace BloreOs

open Loop Buffer CharBuffer

/-- The pipeline and the terminal. -/
structure Console where
  kbd : Keyboard
  term : Terminal

inductive ConsoleStep where
  /-- The keyboard's interrupt. -/
  | irq (key : UInt8)
  /-- The next statement of `kernel_main`; `env` is what a call of `term_keyevent` finds. -/
  | main (env : Env)
  | work

namespace Console

/-- The next statement of `kernel_main`, which may be a call of `term_keyevent`. -/
def mainStep (d : Device) (env : Env) (s : Console) : Option Console :=
  match s.kbd.pc with
  | .event ke =>
    (termKeyevent d env ke s.term).bind fun t => (s.kbd.step .main).map fun k => ⟨k, t⟩
  | _ => (s.kbd.step .main).map fun k => { s with kbd := k }

def step (d : Device) (s : Console) : ConsoleStep → Option Console
  | .irq key => (s.kbd.step (.irq key)).map fun k => { s with kbd := k }
  | .main env => mainStep d env s
  | .work => (s.kbd.step .work).map fun k => { s with kbd := k }

end Console

/-- The events of scan codes. Codes without an event are skipped. -/
def eventsOf (codes : List UInt32) : List KeyEvent := codes.filterMap fun c => scancodeMap c.toNat

/-- The line that events spell. -/
def typedLine (kes : List KeyEvent) : List UInt8 := kes.foldl editLine []

/-- The event that `kernel_main` has looked up and not handled yet. -/
def MainPc.pending : MainPc → List KeyEvent
  | event ke => [ke]
  | _ => []

/-- Nobody types a 256th character into a line. -/
def LinesFit (kes : List KeyEvent) : Prop := ∀ l, l <+: kes → (typedLine l).length ≤ 255

variable {d : Device} {s t : Console} {L : List UInt32} {kes kes' : List KeyEvent}

theorem LinesFit.of_prefix (h : LinesFit kes) (hp : kes' <+: kes) : LinesFit kes' :=
  fun l hl => h l (hl.trans hp)

theorem typedLine_append_singleton (kes : List KeyEvent) (ke : KeyEvent) :
    typedLine (kes ++ [ke]) = editLine (typedLine kes) ke := by
  rw [typedLine, List.foldl_append, List.foldl_cons, List.foldl_nil, typedLine]

/-- An event adds at most one character. -/
theorem length_editLine_le (line : List UInt8) (ke : KeyEvent) :
    (editLine line ke).length ≤ line.length + 1 := by
  unfold editLine
  split_ifs
  · exact Nat.zero_le _
  · rw [List.length_dropLast]
    omega
  · rw [List.length_append, List.length_singleton]
  · exact Nat.le_succ _
  · exact Nat.le_succ _

theorem length_typedLine_le (kes : List KeyEvent) : (typedLine kes).length ≤ kes.length := by
  induction kes using List.reverseRecOn with
  | nil => exact Nat.le_refl _
  | append_singleton kes ke ih =>
    have hstep := length_editLine_le (typedLine kes) ke
    rw [typedLine_append_singleton, List.length_append, List.length_singleton]
    omega

/-- So 255 events always fit. -/
theorem linesFit_of_length (h : kes.length ≤ 255) : LinesFit kes :=
  fun l hl => (length_typedLine_le l).trans (hl.length_le.trans h)

theorem eventsOf_append (codes codes' : List UInt32) :
    eventsOf (codes ++ codes') = eventsOf codes ++ eventsOf codes' := List.filterMap_append

/-- The pipeline keeps its own invariant, the events that have been looked up are the handled ones and
the pending one, and the handled ones spell the input line. -/
structure Console.Inv (s : Console) (L : List UInt32) (handled : List KeyEvent) : Prop where
  kbd : s.kbd.Inv L
  known : ∀ ke ∈ s.kbd.pc.pending, ke ∈ keyMap
  looked : eventsOf s.kbd.lookups = handled ++ s.kbd.pc.pending
  line : LinesFit handled → InputHolds (s.term, typedLine handled)

/-- An event of the table is handled as the editor handles it. -/
theorem inputHolds_event {env : Env} {ke : KeyEvent} {t : Terminal} {t' : Terminal}
    (hke : ke ∈ keyMap) (h : LinesFit kes → InputHolds (t, typedLine kes))
    (hstep : termKeyevent d env ke t = some t') (hfit : LinesFit (kes ++ [ke])) :
    InputHolds (t', typedLine (kes ++ [ke])) := by
  have hbefore := h (hfit.of_prefix (List.prefix_append kes [ke]))
  have hterm : termStep d (t, typedLine kes) (.key ke hke env) =
      some (t', editLine (typedLine kes) ke) := by
    rw [termStep, hstep]
    rfl
  rw [typedLine_append_singleton]
  refine (termStep_holds hbefore hterm).mpr fun htypes => ?_
  -- the longer line fits, too
  have hlen := hfit _ (List.prefix_refl _)
  rw [typedLine_append_singleton, htypes.editLine_eq hke, List.length_append,
    List.length_singleton] at hlen
  exact hlen

/-- The steps that do not handle an event look up at most one, and it is in the table. -/
theorem pending_of_step {k k' : Keyboard} {op : KeyboardStep} (hop : op = .main → k.pc.pending = [])
    (hstep : k.step op = some k') : ∃ l, eventsOf k'.lookups = eventsOf k.lookups ++ l ∧
      k'.pc.pending = k.pc.pending ++ l ∧ ∀ ke ∈ l, ke ∈ keyMap := by
  obtain ⟨q, interrupts, pc, accepted, lookups⟩ := k
  have hsame : ∀ k' : Keyboard, k'.lookups = lookups → k'.pc.pending = pc.pending →
      ∃ l, eventsOf k'.lookups = eventsOf lookups ++ l ∧ k'.pc.pending = pc.pending ++ l ∧
        ∀ ke ∈ l, ke ∈ keyMap :=
    fun k' hl hp => ⟨[], by rw [hl, List.append_nil], by rw [hp, List.append_nil], by simp⟩
  cases op with
  | irq key =>
    rw [Keyboard.step] at hstep
    split at hstep
    · split at hstep <;> cases hstep <;> exact hsame _ rfl rfl
    · cases hstep
  | work =>
    rw [Keyboard.step] at hstep
    split at hstep <;> cases hstep
    exact hsame _ rfl rfl
  | main =>
    have hpending : pc.pending = [] := hop rfl
    cases pc with
    | test =>
      cases hstep
      refine hsame _ rfl ?_
      split <;> rfl
    | disable | readTake | readUnlock v | enable v => cases hstep; exact hsame _ rfl rfl
    | readLock =>
      dsimp only [Keyboard.step, Keyboard.mainStep] at hstep
      split at hstep <;> cases hstep <;> exact hsame _ rfl rfl
    | readCheck =>
      cases hstep
      refine hsame _ rfl ?_
      split <;> rfl
    | lookup v =>
      cases hstep
      refine ⟨eventsOf [v], eventsOf_append _ _, ?_, fun ke hke => ?_⟩
      · cases hv : scancodeMap v.toNat with
        | none => simp [eventsOf, hv, MainPc.pending]
        | some ke => simp [eventsOf, hv, MainPc.pending]
      · obtain ⟨c, -, hc⟩ := List.mem_filterMap.mp hke
        exact scancodeMap_mem hc
    | event ke => cases hpending
    | stopped => cases hstep

namespace Console.Inv

variable {handled : List KeyEvent} (h : s.Inv L handled)
include h

/-- A step of the pipeline alone. -/
theorem pipeline {op : KeyboardStep} {k : Keyboard} (hop : op = .main → s.kbd.pc.pending = [])
    (hstep : s.kbd.step op = some k) : ∃ L', Console.Inv { s with kbd := k } L' handled := by
  obtain ⟨L', hkbd⟩ := h.kbd.step hstep
  obtain ⟨l, hlooked, hpending, hknown⟩ := pending_of_step hop hstep
  refine ⟨L', hkbd, fun ke hke => ?_, ?_, h.line⟩
  · rw [hpending] at hke
    exact (List.mem_append.mp hke).elim (h.known ke) (hknown ke)
  · rw [hlooked, h.looked, hpending, List.append_assoc]

/-- **Every step keeps the invariant.** -/
theorem step {op : ConsoleStep} (hstep : Console.step d s op = some t) :
    ∃ L' handled', t.Inv L' handled' := by
  cases op with
  | irq key =>
    obtain ⟨k, hk, rfl⟩ := Option.map_eq_some_iff.mp hstep
    obtain ⟨L', hinv⟩ := h.pipeline (fun hop => by cases hop) hk
    exact ⟨L', handled, hinv⟩
  | work =>
    obtain ⟨k, hk, rfl⟩ := Option.map_eq_some_iff.mp hstep
    obtain ⟨L', hinv⟩ := h.pipeline (fun hop => by cases hop) hk
    exact ⟨L', handled, hinv⟩
  | main env =>
    rw [Console.step, Console.mainStep] at hstep
    split at hstep
    · next ke hpc =>
      obtain ⟨t', ht', hstep⟩ := Option.bind_eq_some_iff.mp hstep
      obtain ⟨k, hk, rfl⟩ := Option.map_eq_some_iff.mp hstep
      obtain ⟨L', hkbd⟩ := h.kbd.step hk
      rw [Keyboard.step, Keyboard.mainStep, hpc] at hk
      cases hk
      have hknown := h.known ke (by rw [hpc]; exact List.mem_singleton_self ke)
      have hlooked := h.looked
      rw [hpc] at hlooked
      exact ⟨L', handled ++ [ke], hkbd, (fun _ hm => by cases hm), by rw [hlooked]; simp [MainPc.pending],
        inputHolds_event hknown h.line ht'⟩
    · next hpc =>
      obtain ⟨k, hk, rfl⟩ := Option.map_eq_some_iff.mp hstep
      have hpending : s.kbd.pc.pending = [] := by
        cases hs : s.kbd.pc <;> first | rfl | exact absurd hs (hpc _)
      obtain ⟨L', hinv⟩ := h.pipeline (fun _ => hpending) hk
      exact ⟨L', handled, hinv⟩

end Console.Inv

/--
**What is typed is what `input_str` holds.**

In every state that the keyboard interrupt and `kernel_main` reach from an empty queue and an empty
line, in any order of their steps, the accepted codes are those whose events have been handled, one
that is on its way, and the queued ones. If the accepted codes never spell more than 255 characters
between two presses of enter, `input_str` holds the line that the handled events spell; so it holds the
line that all the accepted codes spell as soon as the queue is empty and the loop back at its test.

The first part is also about lines of more than 255 characters. `term_keyevent` writes the end of such a
line over what follows `input_str` in memory, and the model takes these bytes as no part of the queue.
-/
theorem console_types (d : Device) (q₀ : CQueue) (hlen : q₀.len = 200) (hempty : q₀.numItems = 0)
    (hcursor : q₀.writeI = q₀.readI) (hlt : q₀.readI.toNat < 200) (hlock : q₀.lock = false)
    (t₀ : Terminal) (hline : InputHolds (t₀, [])) (steps : List ConsoleStep) (s : Console)
    (hrun : run (Console.step d) steps ⟨Keyboard.start q₀, t₀⟩ = some s) :
    ∃ handled queued, eventsOf (s.kbd.accepted.map UInt8.toUInt32) =
        handled ++ s.kbd.pc.pending ++ eventsOf (s.kbd.pc.inFlight ++ queued) ∧
      s.kbd.q.free.Idle queued ∧
      (LinesFit (eventsOf (s.kbd.accepted.map UInt8.toUInt32)) →
        InputHolds (s.term, typedLine handled) ∧
        (s.kbd.q.numItems = 0 → s.kbd.pc = .test →
          InputHolds (s.term, typedLine (eventsOf (s.kbd.accepted.map UInt8.toUInt32))))) := by
  have hstart : Console.Inv ⟨Keyboard.start q₀, t₀⟩ [] [] :=
    ⟨Keyboard.Inv.start hlen hempty hcursor hlt hlock, (fun _ hm => by cases hm), rfl, fun _ => hline⟩
  obtain ⟨L, handled, hinv⟩ := run_invariant (fun s : Console => ∃ L handled, s.Inv L handled)
    (fun _ _ _ ⟨_, _, hi⟩ hs => hi.step hs) steps ⟨[], [], hstart⟩ hrun
  have hevents : eventsOf (s.kbd.accepted.map UInt8.toUInt32) =
      handled ++ s.kbd.pc.pending ++ eventsOf (s.kbd.pc.inFlight ++ L) := by
    rw [hinv.kbd.codes, List.append_assoc, eventsOf_append, hinv.looked]
  refine ⟨handled, L, hevents, hinv.kbd.idle, fun hfit => ?_⟩
  have hholds : InputHolds (s.term, typedLine handled) := by
    refine hinv.line (hfit.of_prefix ?_)
    rw [hevents, List.append_assoc]
    exact List.prefix_append handled _
  refine ⟨hholds, fun hnone hpc => ?_⟩
  -- nothing is on its way any more
  obtain rfl : L = [] := hinv.kbd.idle.numItems_eq_zero.mp hnone
  rw [hpc] at hevents
  simp only [MainPc.pending, MainPc.inFlight, List.append_nil] at hevents
  rw [hevents]
  simpa [eventsOf] using hholds

/-- Somebody presses the `h` key, and its release arrives while the loop is reading. -/
def sampleConsoleSteps : List ConsoleStep :=
  let main := ConsoleStep.main ⟨fun _ _ => 0, 0⟩
  [.irq 35, main, .irq 163] ++ List.replicate 8 main

/-- The console after these steps. -/
def sampleConsole : Option Console :=
  run (Console.step sampleDevice) sampleConsoleSteps
    ⟨Keyboard.start (cqueueCreate 200 (fun _ => 0) false), termInit sampleDevice (Terminal.boot fun _ => 0)⟩

theorem console_types_sample : ∃ s handled queued, sampleConsole = some s ∧
    s.kbd.accepted = [35, 163] ∧ s.kbd.q.free.Idle queued ∧ InputHolds (s.term, typedLine handled) := by
  have haccepted : sampleConsole.map (·.kbd.accepted) = some [35, 163] := by decide +kernel
  obtain ⟨s, hs, hcodes⟩ := Option.map_eq_some_iff.mp haccepted
  obtain ⟨handled, queued, -, hidle, hline⟩ := console_types sampleDevice
    (cqueueCreate 200 (fun _ => 0) false) rfl rfl rfl (by decide) rfl _ (inputHolds_boot _ _)
    sampleConsoleSteps s hs
  refine ⟨s, handled, queued, hs, hcodes, hidle, (hline ?_).1⟩
  rw [hcodes]
  exact linesFit_of_length (by decide)

end BloreOs
