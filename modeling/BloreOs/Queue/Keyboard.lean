import BloreOs.Ps2
import BloreOs.Queue.Basic

/-!
# The keyboard pipeline

The keyboard interrupt puts scan codes into `q_keyboard`, the loop of `kernel_main` takes them out.
There is one CPU: the handler runs to completion, at any point of the loop at which interrupts are
enabled. `cqueue_write` is therefore one step, and every statement of the loop and of its
`cqueue_read` is a step of its own. While `term_keyevent` handles an event, any number of steps may
pass (`KeyboardStep.work`). They touch neither the queue nor the interrupt flag.

The loop reads `num_items` before it disables interrupts. `Keyboard.Inv` shows why that does no
harm: between the test and the read the handler can only add codes.
-/

namespace BloreOs

open Loop

/-- Where `kernel_main` is, with its local `scanCode` and the `val` of `cqueue_read`. -/
inductive MainPc where
  | test
  | disable
  | readLock
  | readCheck
  | readTake
  | readUnlock (val : UInt32)
  | enable (scanCode : UInt32)
  | lookup (scanCode : UInt32)
  | event (ke : KeyEvent)
  /-- `cqueue_read` has halted the CPU, or it waits for its lock for ever. -/
  | stopped

/-- `q_keyboard`, the interrupt flag and `kernel_main`. `accepted` records the codes that
`cqueue_write` has taken, `lookups` the indices into `scancode_map`. -/
structure Keyboard where
  q : CQueue
  interrupts : Bool
  pc : MainPc
  accepted : List UInt8
  lookups : List UInt32

inductive KeyboardStep where
  /-- `_handle_keyboard` with the byte that `ps2_read_no_wait` returns. -/
  | irq (key : UInt8)
  /-- The next statement of `kernel_main`. -/
  | main
  /-- A step inside `term_keyevent`. -/
  | work

namespace Keyboard

/-- The next statement of the loop in `kernel_main`. -/
def mainStep (s : Keyboard) : Option Keyboard :=
  match s.pc with
  | .test => some { s with pc := if s.q.numItems = 0 then .test else .disable }
  | .disable => some { s with interrupts := false, pc := .readLock }
  | .readLock =>
    match spinlockLock CQueue.lockAt s.q with
    | .ret _ q => some { s with q := q, pc := .readCheck }
    | _ => some { s with pc := .stopped }
  | .readCheck => some { s with pc := if s.q.numItems = 0 then .stopped else .readTake }
  | .readTake => some { s with q := s.q.take, pc := .readUnlock (s.q.buff s.q.readI.toNat) }
  | .readUnlock val => some { s with q := spinlockUnlock CQueue.lockAt s.q, pc := .enable val }
  | .enable scanCode => some { s with interrupts := true, pc := .lookup scanCode }
  | .lookup scanCode =>
    some { s with
      lookups := s.lookups ++ [scanCode]
      pc :=
        match scancodeMap scanCode.toNat with
        | some ke => .event ke
        | none => .test }
  | .event _ => some { s with pc := .test }
  | .stopped => none

/-- One step. There is no next state after a handler that does not get the lock. -/
def step (s : Keyboard) : KeyboardStep → Option Keyboard
  | .irq key =>
    if s.interrupts then
      match cqueueWrite key.toUInt32 s.q with
      | .ret true q => some { s with q := q, accepted := s.accepted ++ [key] }
      | .ret false q => some { s with q := q }
      | _ => none
    else none
  | .main => s.mainStep
  | .work =>
    match s.pc with
    | .event _ => some s
    | _ => none

/-- `kernel_main` enters its loop. -/
def start (q : CQueue) : Keyboard where
  q := q
  interrupts := true
  pc := .test
  accepted := []
  lookups := []

end Keyboard

/-! ## What holds at every point of the loop -/

namespace MainPc

/-- `cqueue_read` holds the lock. -/
def locked : MainPc → Bool
  | readCheck | readTake | readUnlock _ => true
  | _ => false

/-- Interrupts are enabled. -/
def enabled : MainPc → Bool
  | test | disable | lookup _ | event _ => true
  | _ => false

/-- A code is going to be read. -/
def reading : MainPc → Bool
  | disable | readLock | readCheck | readTake => true
  | _ => false

/-- The code that has been read and not been looked up. -/
def inFlight : MainPc → List UInt32
  | readUnlock v | enable v | lookup v => [v]
  | _ => []

theorem not_locked_of_enabled {pc : MainPc} (h : pc.enabled = true) : pc.locked = false := by
  cases pc <;> first | rfl | cases h

end MainPc

variable {s t : Keyboard} {L : List UInt32}

/-- The queue without its lock. -/
def CQueue.free (q : CQueue) : CQueue := { q with lock := false }

/-- The queue holds the codes `L`, the lock and the interrupt flag are as `kernel_main` has set
them, no code is lost or invented, and the queue is not empty once the test has succeeded. -/
structure Keyboard.Inv (s : Keyboard) (L : List UInt32) : Prop where
  idle : s.q.free.Idle L
  len : s.q.len = 200
  lock : s.q.lock = s.pc.locked
  interrupts : s.interrupts = s.pc.enabled
  codes : s.accepted.map UInt8.toUInt32 = s.lookups ++ s.pc.inFlight ++ L
  ready : s.pc.reading = true → L ≠ []
  running : s.pc ≠ .stopped

namespace Keyboard.Inv

variable (h : s.Inv L)
include h

/-- **The handler gets the lock at once**: it runs only where `kernel_main` does not hold it. -/
theorem idle_of_interrupts (hi : s.interrupts = true) : s.q.Idle L := by
  have hlock : s.q.lock = false := by
    rw [h.lock]
    exact MainPc.not_locked_of_enabled (h.interrupts ▸ hi)
  have hq : s.q.free = s.q := by
    rw [CQueue.free, ← hlock]
  rw [← hq]
  exact h.idle

theorem len_toNat : s.q.len.toNat = 200 := by
  rw [h.len]
  rfl

theorem numItems_ne_zero (hne : L ≠ []) : s.q.numItems ≠ 0 := fun h0 =>
  hne (h.idle.numItems_eq_zero.mp h0)

/-- The interrupt handler. -/
theorem irq (hi : s.interrupts = true) (key : UInt8) :
    (L.length = 200 ∧ cqueueWrite key.toUInt32 s.q = .ret false s.q) ∨
      L.length < 200 ∧ ∃ q, cqueueWrite key.toUInt32 s.q = .ret true q ∧
        q.Idle (L ++ [key.toUInt32]) ∧
        ({ s with q := q, accepted := s.accepted ++ [key] } : Keyboard).Inv
          (L ++ [key.toUInt32]) := by
  have hidle := h.idle_of_interrupts hi
  have hlen := h.len_toNat
  have hle := hidle.length_le
  by_cases hfull : L.length = s.q.len.toNat
  · exact Or.inl ⟨by omega, cqueueWrite_full hidle hfull _⟩
  · obtain ⟨heq, hidle'⟩ := cqueueWrite_room hidle hfull key.toUInt32
    have hfree : (s.q.put key.toUInt32).count.free.Idle (L ++ [key.toUInt32]) :=
      ⟨hidle'.toHolds.congr rfl rfl rfl rfl, hidle'.numItems, rfl⟩
    refine Or.inr ⟨by omega, _, heq, hidle', hfree, h.len, h.lock, h.interrupts, ?_, fun _ => by simp,
      h.running⟩
    show (s.accepted ++ [key]).map UInt8.toUInt32 = s.lookups ++ s.pc.inFlight ++ (L ++ [_])
    rw [List.map_append, h.codes, List.append_assoc (s.lookups ++ s.pc.inFlight)]
    rfl

/-- The next statement of the loop. It always exists. -/
theorem main : ∃ t L', s.mainStep = some t ∧ t.Inv L' := by
  obtain ⟨q, interrupts, pc, accepted, lookups⟩ := s
  obtain ⟨hidle, hlen, hlock, hint, hcodes, hready, hrun⟩ := h
  cases pc with
  | test =>
    refine ⟨_, L, rfl, ?_⟩
    by_cases h0 : q.numItems = 0
    · simp only [if_pos h0]
      exact ⟨hidle, hlen, hlock, hint, hcodes, hready, hrun⟩
    · simp only [if_neg h0]
      refine ⟨hidle, hlen, hlock, hint, hcodes, fun _ hnil => ?_, by simp⟩
      exact h0 (hidle.numItems_eq_zero.mpr hnil)
  | disable => exact ⟨_, L, rfl, hidle, hlen, hlock, rfl, hcodes, fun _ => hready rfl, by simp⟩
  | readLock =>
    have hfree : spinlockLock CQueue.lockAt q = .ret () { q with lock := true } := by
      have : q.lock = false := hlock
      simp [spinlockLock, CQueue.lockAt, this]
    refine ⟨{ q := { q with lock := true }, interrupts, pc := .readCheck, accepted, lookups }, L, ?_,
      hidle, hlen, rfl, hint, hcodes, fun _ => hready rfl, by simp⟩
    simp only [Keyboard.mainStep, hfree]
  | readCheck =>
    have h0 : q.numItems ≠ 0 := fun h0 => hready rfl (hidle.numItems_eq_zero.mp h0)
    refine ⟨_, L, rfl, ?_⟩
    simp only [if_neg h0]
    exact ⟨hidle, hlen, hlock, hint, hcodes, fun _ => hready rfl, by simp⟩
  | readTake =>
    obtain ⟨v, rest, rfl⟩ := List.exists_cons_of_ne_nil (hready rfl)
    have hval : q.buff q.readI.toNat = v := hidle.toHolds.take.1
    refine ⟨_, rest, rfl, (cqueueRead_cons hidle).2, hlen, hlock, hint, ?_, (fun hr => by cases hr),
      by simp⟩
    rw [hval, hcodes]
    show lookups ++ [] ++ v :: rest = lookups ++ [v] ++ rest
    simp
  | readUnlock v => exact ⟨_, L, rfl, hidle, hlen, rfl, hint, hcodes, (fun hr => by cases hr), by simp⟩
  | enable v => exact ⟨_, L, rfl, hidle, hlen, hlock, rfl, hcodes, (fun hr => by cases hr), by simp⟩
  | lookup v =>
    refine ⟨_, L, rfl, ?_⟩
    have hcodes' : accepted.map UInt8.toUInt32 = lookups ++ [v] ++ [] ++ L := by
      rw [hcodes, List.append_nil]
      rfl
    cases scancodeMap v.toNat with
    | none => exact ⟨hidle, hlen, hlock, hint, hcodes', (fun hr => by cases hr), by simp⟩
    | some ke => exact ⟨hidle, hlen, hlock, hint, hcodes', (fun hr => by cases hr), by simp⟩
  | event ke => exact ⟨_, L, rfl, hidle, hlen, hlock, hint, hcodes, (fun hr => by cases hr), by simp⟩
  | stopped => exact absurd rfl hrun

/-- **Every step keeps the invariant.** -/
theorem step {op : KeyboardStep} (hstep : s.step op = some t) : ∃ L', t.Inv L' := by
  cases op with
  | irq key =>
    rw [Keyboard.step] at hstep
    split at hstep
    · next hi =>
      rcases h.irq hi key with ⟨-, heq⟩ | ⟨-, q, heq, -, hinv⟩
      · rw [heq] at hstep
        cases hstep
        exact ⟨L, h⟩
      · rw [heq] at hstep
        cases hstep
        exact ⟨_, hinv⟩
    · cases hstep
  | main =>
    obtain ⟨t', L', heq, hinv⟩ := h.main
    rw [Keyboard.step, heq] at hstep
    cases hstep
    exact ⟨L', hinv⟩
  | work =>
    rw [Keyboard.step] at hstep
    split at hstep
    · cases hstep
      exact ⟨L, h⟩
    · cases hstep

end Keyboard.Inv

/-- The steps of the loop between `disable` and `enable` are `cqueue_read`. -/
theorem cqueueRead_steps {v : UInt32} {q : CQueue} (hpc : s.pc = .readLock)
    (h : cqueueRead s.q = .ret v q) :
    run Keyboard.step [.main, .main, .main, .main] s = some { s with q := q, pc := .enable v } := by
  obtain ⟨q₀, interrupts, pc, accepted, lookups⟩ := s
  cases hpc
  obtain ⟨_, q₁, hlock, hread⟩ := Outcome.bind_eq_ret.mp h
  simp only [hcf] at hread
  split at hread
  · cases hread
  · next hne =>
    cases hread
    simp [run, Keyboard.step, Keyboard.mainStep, hlock, hne]

theorem Keyboard.Inv.start {q : CQueue} (hlen : q.len = 200) (hempty : q.numItems = 0)
    (hcursor : q.writeI = q.readI) (hlt : q.readI.toNat < 200) (hlock : q.lock = false) :
    (Keyboard.start q).Inv [] := by
  have hlen' : q.len.toNat = 200 := by
    rw [hlen]
    rfl
  refine ⟨⟨⟨Nat.zero_le _, rfl, fun _ => ⟨?_, ?_, ?_⟩⟩, ?_, rfl⟩, hlen, hlock, rfl, rfl,
    (fun hr => by cases hr), by simp [Keyboard.start]⟩
  · show q.readI.toNat < q.len.toNat
    omega
  · show q.writeI.toNat < q.len.toNat
    rw [hcursor]
    omega
  · show q.writeI.toNat = q.readI.toNat % q.len.toNat
    rw [hcursor, Nat.mod_eq_of_lt (by omega)]
  · show q.numItems.toNat = 0
    rw [hempty]
    rfl

/--
**The keyboard pipeline delivers what it accepts.**

In every state that `kernel_main` and the keyboard interrupt reach, starting from an empty queue of
200 slots with a free lock, there is a list `queued` of codes in the queue such that: the codes
looked up, the one in flight and the queued ones are the accepted ones in the order of their
arrival; the handler finds the lock free, and drops its code only if 200 codes are queued;
`cqueue_read` is called and makes its check only if `num_items` is not 0; every index into
`scancode_map` is below 256; and `kernel_main` can make its next step.
-/
theorem keyboard_pipeline (q₀ : CQueue) (hlen : q₀.len = 200) (hempty : q₀.numItems = 0)
    (hcursor : q₀.writeI = q₀.readI) (hlt : q₀.readI.toNat < 200) (hlock : q₀.lock = false)
    (steps : List KeyboardStep) (s : Keyboard)
    (hrun : run Keyboard.step steps (Keyboard.start q₀) = some s) :
    ∃ queued : List UInt32,
      s.accepted.map UInt8.toUInt32 = s.lookups ++ s.pc.inFlight ++ queued ∧
      s.q.free.Idle queued ∧
      (s.interrupts = true → s.q.lock = false ∧ ∀ key : UInt8,
        (queued.length = 200 ∧ cqueueWrite key.toUInt32 s.q = .ret false s.q) ∨
          queued.length < 200 ∧ ∃ q, cqueueWrite key.toUInt32 s.q = .ret true q ∧
            q.Idle (queued ++ [key.toUInt32])) ∧
      (s.pc = .readLock ∨ s.pc = .readCheck → s.q.numItems ≠ 0) ∧
      (∀ code ∈ s.lookups ++ s.pc.inFlight, code.toNat < 256) ∧
      (s.step .main).isSome := by
  obtain ⟨L, hinv⟩ := run_invariant (fun s => ∃ L, s.Inv L) (fun _ _ _ ⟨_, hi⟩ hs => hi.step hs) steps
    ⟨[], Keyboard.Inv.start hlen hempty hcursor hlt hlock⟩ hrun
  refine ⟨L, hinv.codes, hinv.idle, fun hi => ⟨(hinv.idle_of_interrupts hi).unlocked, fun key => ?_⟩,
    ?_, fun code hcode => ?_, ?_⟩
  · rcases hinv.irq hi key with hfull | ⟨hroom, q, heq, hidle, -⟩
    · exact Or.inl hfull
    · exact Or.inr ⟨hroom, q, heq, hidle⟩
  · rintro (hpc | hpc)
    · exact hinv.numItems_ne_zero (hinv.ready (by rw [hpc]; rfl))
    · exact hinv.numItems_ne_zero (hinv.ready (by rw [hpc]; rfl))
  · have hmem : code ∈ s.accepted.map UInt8.toUInt32 := by
      rw [hinv.codes]
      exact List.mem_append_left _ hcode
    obtain ⟨key, -, rfl⟩ := List.mem_map.mp hmem
    exact key.toNat_lt
  · obtain ⟨t, L', heq, -⟩ := hinv.main
    rw [Keyboard.step, heq]
    rfl

/-- The code of a key, and the code of its release between the test and the read. -/
def sampleKeyboardSteps : List KeyboardStep :=
  [.irq 35, .main, .irq 163, .main, .main, .main, .main, .main, .main, .main]

def sampleKeyboard : Keyboard :=
  (run Keyboard.step sampleKeyboardSteps
    (Keyboard.start (cqueueCreate 200 (fun _ => 0) false))).get (by decide)

theorem keyboard_pipeline_sample :
    sampleKeyboard.lookups = [35] ∧
      ∃ queued, [35, 163] = sampleKeyboard.lookups ++ sampleKeyboard.pc.inFlight ++ queued ∧
        sampleKeyboard.q.free.Idle queued := by
  obtain ⟨queued, hcodes, hidle, -⟩ := keyboard_pipeline (cqueueCreate 200 (fun _ => 0) false) rfl rfl
    rfl (by decide) rfl sampleKeyboardSteps sampleKeyboard (Option.some_get _).symm
  exact ⟨by decide, queued, hcodes, hidle⟩

end BloreOs
