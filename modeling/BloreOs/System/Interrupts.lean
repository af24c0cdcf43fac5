import BloreOs.Hpet
import BloreOs.Idt
import BloreOs.Lib.Interrupts
import BloreOs.Queue.Keyboard

/-!
# The kernel and its interrupts (`idt.c`, `kernel.c`)

The local APIC passes the vectors of the two timers and of the keyboard on to the CPU that runs the loop
of `kernel_main`. Here a handler is a list of operations, requests come in between any two of them, and
which handler runs is what the CPU finds in the table that `idt_init` has written.

* `disciplined_kernelSystem` — the gates disable interrupts, and each handler calls `lapic_eoi` once,
* `interrupts_refine_pipeline` — so the kernel runs as if handlers ran at once: the keyboard and the loop
  take steps of the pipeline of `Queue/Keyboard.lean`, and no request is lost or answered twice,
* `handlers_return` — a handler that has been entered returns, whatever else happens.

The saved registers are not part of the state: `Isr.lean` shows that they are restored.
-/

namespace BloreOs

open Loop Interrupts

/-! ## The handlers -/

/-- What the handlers and `kernel_main` work on. -/
structure Kernel where
  keyboard : Keyboard
  hpet : Hpet
  kernelTimerSecs : BitVec 64
  /-- The local variable of `_handle_keyboard`. -/
  key : UInt8

/-- `cqueue_write(q_keyboard, key)` -/
def Kernel.writeKey (s : Kernel) : Option Kernel :=
  match cqueueWrite s.key.toUInt32 s.keyboard.q with
  | .ret true q =>
    some { s with keyboard := { s.keyboard with q := q, accepted := s.keyboard.accepted ++ [s.key] } }
  | .ret false q => some { s with keyboard := { s.keyboard with q := q } }
  | _ => none

/-- `_handle_timer`, between `isr_save` and `isr_restore`. -/
def handleTimerOps : List (Op UInt8 Kernel) :=
  [.work fun _ s => some { s with hpet := s.hpet.hpetIsr },
    .work fun _ s => some { s with hpet := s.hpet.hpetAck }, .eoi]

/-- `_handle_lapic_timer`, between `isr_save` and `isr_restore`. -/
def handleLapicTimerOps : List (Op UInt8 Kernel) :=
  [.work fun _ s => some { s with kernelTimerSecs := s.kernelTimerSecs + 1 }, .eoi]

/-- `_handle_keyboard`. The input of its first operation is what `ps2_read_no_wait` reads. -/
def handleKeyboardOps : List (Op UInt8 Kernel) :=
  [.work fun key s => some { s with key := key }, .work fun _ s => s.writeKey, .eoi]

/-- What is found at an address. The thunks of the faults do not return. -/
def KernelImage.codeAt (l : KernelImage) (rip : Nat) : Option (List (Op UInt8 Kernel)) :=
  if rip = l.handleTimer.toNat then some handleTimerOps
  else if rip = l.isrHandlerPs2.toNat then some handleKeyboardOps
  else if rip = l.handleLapicTimer.toNat then some handleLapicTimerOps
  else none

/-- A step of `kernel_main`. -/
inductive LoopStep where
  /-- The next statement. -/
  | main
  /-- A step inside `term_keyevent`. -/
  | work

def LoopStep.op : LoopStep → KeyboardStep
  | main => .main
  | work => .work

def Kernel.loopStep (m : LoopStep) (x : Bool × Kernel) : Option (Bool × Kernel) :=
  ({ x.2.keyboard with interrupts := x.1 } : Keyboard).step m.op |>.map fun k =>
    (k.interrupts, { x.2 with keyboard := k })

/-- The kernel on a CPU. The class of a vector is its upper half. -/
def kernelSystem (l : KernelImage) (c : Cpu) : System Nat UInt8 LoopStep Kernel where
  cls v := v / 16
  handler v := (c.deliver v).bind fun e => l.codeAt e.rip
  disables v := (c.deliver v).any (·.disables)
  main := Kernel.loopStep

/-- `kernel_main` enters its loop, with nothing requested. -/
def Kernel.start (q : CQueue) (hpet : Hpet) (secs : BitVec 64) : Kernel :=
  ⟨Keyboard.start q, hpet, secs, 0⟩

def kernelStart (k : Kernel) : State Nat UInt8 Kernel := ⟨∅, ∅, k.keyboard.interrupts, [], k⟩

/-! ## The table -/

/-- The handlers of the devices are at different addresses, and no thunk is one of them. -/
structure KernelImage.Distinct (l : KernelImage) (m : Memory) : Prop where
  handlers : [l.handleTimer, l.isrHandlerPs2, l.handleLapicTimer].Nodup
  thunks : ∀ i < 32, l.thunk m i ∉ [l.handleTimer, l.isrHandlerPs2, l.handleLapicTimer]

/-- The handlers by their vectors. -/
def vectorOps (v : Nat) : Option (List (Op UInt8 Kernel)) :=
  if v = timerVector then some handleTimerOps
  else if v = keyboardVector then some handleKeyboardOps
  else if v = lapictmrVector then some handleLapicTimerOps
  else none

variable {l : KernelImage} {c : Cpu} {m : Memory} {v : Nat} {ops : List (Op UInt8 Kernel)}

/-- Past the end of the table there are no gates. -/
theorem deliver_eq (hgdt : GdtLoaded l.gdt c) (hidtr : c.idtr = ⟨4095, l.idt⟩)
    (hgates : GatesAre l.idt (l.gates m) c.mem) (v : Nat) :
    c.deliver v = (l.handlerOf m v).map fun h => ⟨h.toNat, 0x08, true, 0⟩ := by
  rcases Nat.lt_or_ge v 256 with hv | hv
  · exact deliver_of_gatesAre hgdt hidtr hgates hv
  · have hnone : l.handlerOf m v = none := by
      have htimer : v ≠ timerVector := by simp only [timerVector]; omega
      have hkeyboard : v ≠ keyboardVector := by simp only [keyboardVector]; omega
      have hlapic : v ≠ lapictmrVector := by simp only [lapictmrVector]; omega
      rw [KernelImage.handlerOf, if_neg (by omega), if_neg htimer, if_neg hkeyboard, if_neg hlapic]
    rw [hnone, Cpu.deliver, hidtr, if_pos (by simp only; omega)]
    rfl

theorem codeAt_handlerOf (hl : l.Distinct m) (v : Nat) :
    ((l.handlerOf m v).bind fun h => l.codeAt h.toNat) = vectorOps v := by
  have hnodup := hl.handlers
  simp only [List.nodup_cons, List.mem_cons, List.not_mem_nil, or_false, not_or] at hnodup
  obtain ⟨⟨htk, htl⟩, hkl, -⟩ := hnodup
  have hthunk := hl.thunks v
  simp only [List.mem_cons, List.not_mem_nil, or_false, not_or] at hthunk
  simp only [KernelImage.handlerOf, vectorOps]
  by_cases h32 : v < 32
  · obtain ⟨ht, hk, hl'⟩ := hthunk h32
    have htimer : v ≠ timerVector := by simp only [timerVector]; omega
    have hkeyboard : v ≠ keyboardVector := by simp only [keyboardVector]; omega
    have hlapic : v ≠ lapictmrVector := by simp only [lapictmrVector]; omega
    simp [KernelImage.codeAt, h32, htimer, hkeyboard, hlapic, BitVec.toNat_inj, ht, hk, hl']
  · rw [if_neg h32]
    split_ifs
    · simp [KernelImage.codeAt]
    · simp [KernelImage.codeAt, BitVec.toNat_inj, Ne.symm htk]
    · simp [KernelImage.codeAt, BitVec.toNat_inj, Ne.symm htl, Ne.symm hkl]
    · rfl

/-- What the loaded tables say. -/
structure Handles (l : KernelImage) (c : Cpu) : Prop where
  handler : ∀ v, (kernelSystem l c).handler v = vectorOps v
  disables : ∀ v, vectorOps v ≠ none → (kernelSystem l c).disables v = true

theorem handles_of_loaded (hl : l.Distinct m) (hgdt : GdtLoaded l.gdt c) (hidtr : c.idtr = ⟨4095, l.idt⟩)
    (hgates : GatesAre l.idt (l.gates m) c.mem) : Handles l c := by
  have hdeliver := deliver_eq hgdt hidtr hgates
  refine ⟨fun v => ?_, fun v hv => ?_⟩
  · rw [← codeAt_handlerOf hl v]
    show (c.deliver v).bind _ = _
    rw [hdeliver, Option.bind_map]
    rfl
  · rw [← codeAt_handlerOf hl v] at hv
    show (c.deliver v).any _ = true
    rw [hdeliver]
    cases h : l.handlerOf m v with
    | none => exact absurd (by rw [h]; rfl) hv
    | some a => rfl

/-- A vector with a handler is one of three. -/
theorem vectorOps_cases (h : vectorOps v = some ops) : (v = timerVector ∧ ops = handleTimerOps) ∨
    (v = keyboardVector ∧ ops = handleKeyboardOps) ∨ (v = lapictmrVector ∧ ops = handleLapicTimerOps) := by
  unfold vectorOps at h
  split_ifs at h with ht hk hl <;> cases h
  · exact Or.inl ⟨ht, rfl⟩
  · exact Or.inr (Or.inl ⟨hk, rfl⟩)
  · exact Or.inr (Or.inr ⟨hl, rfl⟩)

/-- **The gates disable interrupts, and each handler calls `lapic_eoi` once.** -/
theorem disciplined_kernelSystem (h : Handles l c) : (kernelSystem l c).Disciplined where
  disables := fun v ops hv => h.disables v fun hnone => by
    rw [h.handler, hnone] at hv
    cases hv
  eoi := fun v ops hv => by
    rw [h.handler] at hv
    rcases vectorOps_cases hv with ⟨-, rfl⟩ | ⟨-, rfl⟩ | ⟨-, rfl⟩ <;> rfl

/-! ## Handlers that run at once -/

variable {a b : Atomic Nat Kernel} {e : AtomicEvent Nat UInt8 LoopStep} {is : List UInt8} {k k' : Kernel}

/-- What an event is for the pipeline. -/
def pipelineSteps : AtomicEvent Nat UInt8 LoopStep → List KeyboardStep
  | .raise _ => []
  | .irq v is => if v = keyboardVector then [.irq (is.headD 0)] else []
  | .main m => [m.op]

def KeyboardStep.isIrq : KeyboardStep → Bool
  | irq _ => true
  | _ => false

def KeyboardStep.loop? : KeyboardStep → Option LoopStep
  | irq _ => none
  | main => some .main
  | work => some .work

theorem runOps_handleTimerOps (h : runOps handleTimerOps is k = some k') :
    k' = { k with hpet := k.hpet.handleTimer } := by
  have hlen := length_of_runOps _ _ h
  obtain ⟨i, j, n, rfl⟩ := List.length_eq_three.mp hlen
  cases h
  rfl

theorem runOps_handleLapicTimerOps (h : runOps handleLapicTimerOps is k = some k') :
    k' = { k with kernelTimerSecs := k.kernelTimerSecs + 1 } := by
  have hlen := length_of_runOps _ _ h
  obtain ⟨i, j, rfl⟩ := List.length_eq_two.mp hlen
  cases h
  rfl

/-- The whole handler is the interrupt of the pipeline. -/
theorem runOps_handleKeyboardOps (hi : k.keyboard.interrupts = true)
    (h : runOps handleKeyboardOps is k = some k') :
    k.keyboard.step (.irq (is.headD 0)) = some k'.keyboard ∧ k'.keyboard.interrupts = true ∧
      k'.hpet = k.hpet ∧ k'.kernelTimerSecs = k.kernelTimerSecs := by
  have hlen := length_of_runOps _ _ h
  obtain ⟨key, i, j, rfl⟩ := List.length_eq_three.mp hlen
  have hwrite : ({ k with key := key } : Kernel).writeKey = some k' := by
    simp only [handleKeyboardOps, runOps, Op.exec, Option.bind_some, Option.bind_fun_some] at h
    exact h
  unfold Kernel.writeKey at hwrite
  simp only [Keyboard.step, hi, if_true, List.headD_cons]
  split at hwrite
  · next hret =>
    cases hwrite
    simp [hret, hi]
  · next hret =>
    cases hwrite
    simp [hret, hi]
  · cases hwrite

/-- What a counter gains from an event. -/
theorem ofNat_taken_irq (v w : Nat) (is : List UInt8) :
    BitVec.ofNat 64 (Atomic.taken v [(.irq w is : AtomicEvent Nat UInt8 LoopStep)]) =
      if w = v then 1 else 0 := by
  by_cases h : w = v <;> simp [Atomic.taken, AtomicEvent.taken?, h]

/-- **One event**, for the pipeline and for the counters. -/
theorem atomic_step (h : Handles l c) (hsync : a.enabled = a.data.keyboard.interrupts)
    (hstep : Atomic.step (kernelSystem l c) a e = some b) :
    b.enabled = b.data.keyboard.interrupts ∧
      run Keyboard.step (pipelineSteps e) a.data.keyboard = some b.data.keyboard ∧
      b.data.hpet.ticks = a.data.hpet.ticks + BitVec.ofNat 64 (Atomic.taken timerVector [e]) ∧
      b.data.kernelTimerSecs =
        a.data.kernelTimerSecs + BitVec.ofNat 64 (Atomic.taken lapictmrVector [e]) := by
  cases e with
  | raise v =>
    cases hstep
    exact ⟨hsync, rfl, (BitVec.add_zero _).symm, (BitVec.add_zero _).symm⟩
  | irq v is =>
    rw [ofNat_taken_irq, ofNat_taken_irq]
    simp only [Atomic.step, h.handler] at hstep
    split at hstep
    next hready =>
      simp only [Option.bind_eq_some_iff, Option.map_eq_some_iff] at hstep
      obtain ⟨ops, hops, d, hd, rfl⟩ := hstep
      have hkt : keyboardVector ≠ timerVector := by decide
      have hkl : keyboardVector ≠ lapictmrVector := by decide
      have htl : timerVector ≠ lapictmrVector := by decide
      rcases vectorOps_cases hops with ⟨rfl, rfl⟩ | ⟨rfl, rfl⟩ | ⟨rfl, rfl⟩
      · cases runOps_handleTimerOps hd
        simp [hsync, pipelineSteps, hkt.symm, htl, run, Hpet.handleTimer, Hpet.hpetIsr, Hpet.hpetAck]
      · obtain ⟨hirq, hd', hhpet, hsecs⟩ := runOps_handleKeyboardOps (hsync.symm.trans hready.1) hd
        refine ⟨hready.1.trans hd'.symm, ?_, ?_, ?_⟩
        · simp only [pipelineSteps, if_true, run, Option.bind_fun_some]
          exact hirq
        · simp [hkt, hhpet]
        · simp [hkl, hsecs]
      · cases runOps_handleLapicTimerOps hd
        simp [hsync, pipelineSteps, hkl.symm, htl.symm, run]
    next => cases hstep
  | main m =>
    simp only [Atomic.step, Option.map_eq_some_iff] at hstep
    obtain ⟨x, hx, rfl⟩ := hstep
    simp only [kernelSystem, Kernel.loopStep, hsync, Option.map_eq_some_iff] at hx
    obtain ⟨k, hk, rfl⟩ := hx
    exact ⟨rfl, run_cons_eq_some.mpr ⟨k, hk, rfl⟩, (BitVec.add_zero _).symm, (BitVec.add_zero _).symm⟩

/-- A run of events. -/
theorem atomic_run (h : Handles l c) (es : List (AtomicEvent Nat UInt8 LoopStep))
    (hsync : a.enabled = a.data.keyboard.interrupts)
    (hrun : run (Atomic.step (kernelSystem l c)) es a = some b) :
    b.enabled = b.data.keyboard.interrupts ∧
      run Keyboard.step (es.flatMap pipelineSteps) a.data.keyboard = some b.data.keyboard ∧
      b.data.hpet.ticks = a.data.hpet.ticks + BitVec.ofNat 64 (Atomic.taken timerVector es) ∧
      b.data.kernelTimerSecs =
        a.data.kernelTimerSecs + BitVec.ofNat 64 (Atomic.taken lapictmrVector es) := by
  induction es generalizing a with
  | nil =>
    cases hrun
    exact ⟨hsync, rfl, (BitVec.add_zero _).symm, (BitVec.add_zero _).symm⟩
  | cons e es ih =>
    obtain ⟨r, hr, hrun⟩ := run_cons_eq_some.mp hrun
    obtain ⟨hsync₁, hrun₁, hticks₁, hsecs₁⟩ := atomic_step h hsync hr
    obtain ⟨hsync₂, hrun₂, hticks₂, hsecs₂⟩ := ih hsync₁ hrun
    refine ⟨hsync₂, ?_, ?_, ?_⟩
    · rw [List.flatMap_cons, run_append, hrun₁]
      exact hrun₂
    · rw [hticks₂, hticks₁, Atomic.taken_cons timerVector e es, BitVec.ofNat_add, BitVec.add_assoc]
    · rw [hsecs₂, hsecs₁, Atomic.taken_cons lapictmrVector e es, BitVec.ofNat_add, BitVec.add_assoc]

theorem countP_pipelineSteps (es : List (AtomicEvent Nat UInt8 LoopStep)) :
    (es.flatMap pipelineSteps).countP KeyboardStep.isIrq = Atomic.taken keyboardVector es := by
  induction es with
  | nil => rfl
  | cons e es ih =>
    rw [List.flatMap_cons, List.countP_append, ih, Atomic.taken_cons keyboardVector e es]
    congr 1
    cases e with
    | raise v => rfl
    | irq v is =>
      by_cases hv : v = keyboardVector
      · simp [pipelineSteps, Atomic.taken, AtomicEvent.taken?, KeyboardStep.isIrq, hv]
      · simp [pipelineSteps, Atomic.taken, AtomicEvent.taken?, hv]
    | main m => cases m <;> rfl

theorem loop?_pipelineSteps (es : List (AtomicEvent Nat UInt8 LoopStep)) :
    (es.flatMap pipelineSteps).filterMap KeyboardStep.loop? = es.filterMap AtomicEvent.main? := by
  induction es with
  | nil => rfl
  | cons e es ih =>
    rw [List.flatMap_cons, List.filterMap_append, ih]
    cases e with
    | raise v => rfl
    | irq v is =>
      rw [pipelineSteps]
      split <;> rfl
    | main m => cases m <;> rfl

/-! ## The kernel -/

/-- No handler is running. -/
structure KernelIdle (s : State Nat UInt8 Kernel) : Prop where
  frames : s.frames = []
  inService : s.inService = ∅
  enabled : s.enabled = s.data.keyboard.interrupts

variable {s t : State Nat UInt8 Kernel}

def toAtomic (s : State Nat UInt8 Kernel) : Atomic Nat Kernel := ⟨s.requested, s.enabled, s.data⟩

theorem KernelIdle.eq_idle (h : KernelIdle s) : s = (toAtomic s).idle := by
  obtain ⟨requested, inService, enabled, frames, data⟩ := s
  obtain ⟨hframes, hservice, -⟩ := h
  cases hframes
  cases hservice
  rfl

/--
**The kernel runs as if its handlers ran at once.** After `init_gdt` and `idt_init`, from any state in
which no handler is running to any other one, the keyboard and the loop of `kernel_main` have taken
steps of the pipeline, with the same steps of the loop, and the timers' counters have gone up with their
interrupts. No vector is answered more often than it has been requested, and a request that has not been
answered is still there.
-/
theorem interrupts_refine_pipeline (hl : l.Apart) (c : Cpu) (hdistinct : l.Distinct c.mem) :
    ∃ c', (initGdt l.gdt l.gdtp c).map (idtInit l) = some c' ∧
      ∀ es s t, KernelIdle s → run (kernelSystem l c').step es s = some t → t.frames = [] →
        KernelIdle t ∧ ∃ (ks : List KeyboardStep) (answered : Nat → Nat),
          run Keyboard.step ks s.data.keyboard = some t.data.keyboard ∧
          ks.filterMap KeyboardStep.loop? = mains es ∧
          ks.countP KeyboardStep.isIrq = answered keyboardVector ∧
          t.data.hpet.ticks = s.data.hpet.ticks + BitVec.ofNat 64 (answered timerVector) ∧
          t.data.kernelTimerSecs = s.data.kernelTimerSecs + BitVec.ofNat 64 (answered lapictmrVector) ∧
          ∀ v, answered v + (if v ∈ t.requested then 1 else 0) ≤
              (raises es).count v + (if v ∈ s.requested then 1 else 0) ∧
            (v ∈ s.requested ∨ v ∈ raises es → answered v = 0 → v ∈ t.requested) := by
  obtain ⟨c', hc', hloaded, hidtr, hgates⟩ := initTables_loaded hl c
  have hhandles := handles_of_loaded hdistinct hloaded hidtr hgates
  refine ⟨c', hc', fun es s t hs hrun hframes => ?_⟩
  have hsim : Sim (kernelSystem l c') (toAtomic s) [] s := by
    have hidle := Sim.idle (g := kernelSystem l c') (a := toAtomic s)
    rwa [← hs.eq_idle] at hidle
  obtain ⟨es', b, ws, hrun', hsim', hraises, hmains⟩ :=
    sim_run (disciplined_kernelSystem hhandles) es hsim hrun
  cases hsim' with
  | busy => cases hframes
  | idle =>
    obtain ⟨hsync, hpipeline, hticks, hsecs⟩ := atomic_run hhandles es' hs.enabled hrun'
    rw [List.append_nil, List.nil_append] at hraises
    refine ⟨⟨rfl, rfl, hsync⟩, es'.flatMap pipelineSteps, fun v => Atomic.taken v es', hpipeline, ?_, ?_,
      hticks, hsecs, fun v => ⟨?_, fun hv htaken => ?_⟩⟩
    · rw [loop?_pipelineSteps, hmains]
    · exact countP_pipelineSteps es'
    · have hle := Atomic.taken_le v es' hrun'
      rwa [Atomic.requests, hraises] at hle
    · exact Atomic.pending v es' hrun' (by rwa [hraises]) htaken

theorem sampleImage_distinct : sampleImage.Distinct sampleCpu.mem where
  handlers := by decide
  thunks := by decide

/-- The LAPIC timer's interrupt, and the next one while the first one is served. -/
def sampleEvents : List (Event Nat UInt8 LoopStep) :=
  [.raise lapictmrVector, .accept, .handler 0, .raise lapictmrVector, .handler 0, .handler 0]

theorem sampleEvents_run (h : Handles l c) (hi : k.keyboard.interrupts = true) :
    run (kernelSystem l c).step sampleEvents (kernelStart k) =
      some ⟨{lapictmrVector}, ∅, true, [], { k with kernelTimerSecs := k.kernelTimerSecs + 1 }⟩ := by
  have hready : ready (kernelSystem l c).cls (insert lapictmrVector ∅) ∅ = some lapictmrVector := by
    rw [ready_empty]
    decide
  have hops : vectorOps lapictmrVector = some handleLapicTimerOps := rfl
  have hdisables := h.disables lapictmrVector (by rw [hops]; exact Option.some_ne_none _)
  simp only [sampleEvents, kernelStart, run, System.step, Option.bind_some, hi, if_true, hready, h.handler,
    hops, Option.map_some, hdisables, handleLapicTimerOps, Op.exec, Op.isEoi, Bool.false_eq_true, if_false]
  rfl

def sampleKernel : Kernel := Kernel.start (cqueueCreate 200 (fun _ => 0) false) (sampleHpet 10000000) 0

theorem interrupts_refine_pipeline_sample : ∃ c' t,
    (initGdt 0x1000 0x1018 sampleCpu).map (idtInit sampleImage) = some c' ∧
      run (kernelSystem sampleImage c').step sampleEvents (kernelStart sampleKernel) = some t ∧
      KernelIdle t ∧ ∃ ks, run Keyboard.step ks sampleKernel.keyboard = some t.data.keyboard ∧
        ks.filterMap KeyboardStep.loop? = [] := by
  obtain ⟨c', hc', hrefine⟩ := interrupts_refine_pipeline (l := sampleImage)
    ⟨by decide, by decide, by decide⟩ sampleCpu sampleImage_distinct
  obtain ⟨c'', hc'', hloaded, hidtr, hgates⟩ := initTables_loaded (l := sampleImage)
    ⟨by decide, by decide, by decide⟩ sampleCpu
  have hcc : c'' = c' := Option.some.inj (hc''.symm.trans hc')
  rw [hcc] at hloaded hidtr hgates
  have hrun := sampleEvents_run (k := sampleKernel)
    (handles_of_loaded sampleImage_distinct hloaded hidtr hgates) rfl
  obtain ⟨hidle, ks, answered, hks, hloop, -⟩ := hrefine _ _ _ ⟨rfl, rfl, rfl⟩ hrun rfl
  exact ⟨c', _, hc', hrun, hidle, ks, hks, hloop⟩

/-- Every handler returns where the pipeline is as it should be. -/
theorem runOps_isSome {L : List UInt32} (hinv : k.keyboard.Inv L) (hi : k.keyboard.interrupts = true)
    (hops : vectorOps v = some ops) (hlen : is.length = ops.length) : (runOps ops is k).isSome := by
  rcases vectorOps_cases hops with ⟨-, rfl⟩ | ⟨-, rfl⟩ | ⟨-, rfl⟩
  · obtain ⟨i, j, n, rfl⟩ := List.length_eq_three.mp hlen
    rfl
  · obtain ⟨key, i, j, rfl⟩ := List.length_eq_three.mp hlen
    have hwrite : ∃ k', ({ k with key := key } : Kernel).writeKey = some k' := by
      unfold Kernel.writeKey
      rcases hinv.irq hi key with ⟨-, heq⟩ | ⟨-, q, heq, -⟩
      · simp only [heq]
        exact ⟨_, rfl⟩
      · simp only [heq]
        exact ⟨_, rfl⟩
    obtain ⟨k', hk'⟩ := hwrite
    simp [handleKeyboardOps, runOps, Op.exec, hk']
  · obtain ⟨i, j, rfl⟩ := List.length_eq_two.mp hlen
    rfl

/--
**Handlers return.** In every state that is reached from the start of the loop, either no handler is
running, and then the loop can take its next step, and if interrupts are enabled so can the CPU the
highest request that has a handler; or exactly one is running, with interrupts disabled, and it returns
after what is left of it, whatever it reads from the keyboard, with all requests still there.
-/
theorem handlers_return (hl : l.Apart) (c : Cpu) (hdistinct : l.Distinct c.mem) (q₀ : CQueue)
    (hlen : q₀.len = 200) (hempty : q₀.numItems = 0) (hcursor : q₀.writeI = q₀.readI)
    (hlt : q₀.readI.toNat < 200) (hlock : q₀.lock = false) (hpet : Hpet) (secs : BitVec 64) :
    ∃ c', (initGdt l.gdt l.gdtp c).map (idtInit l) = some c' ∧
      ∀ es t, run (kernelSystem l c').step es (kernelStart (Kernel.start q₀ hpet secs)) = some t →
        (KernelIdle t ∧ ((kernelSystem l c').step t (.main .main)).isSome ∧
          ∀ v ops, t.enabled = true → highest t.requested = some v → vectorOps v = some ops →
            ∃ u, (kernelSystem l c').step t .accept = some u ∧ u.frames = [⟨v, true, ops⟩]) ∨
        ∃ v rest ops, t.frames = [⟨v, true, rest⟩] ∧ t.enabled = false ∧ vectorOps v = some ops ∧
          rest <:+ ops ∧ ∀ (keys : List UInt8) (key : UInt8), keys.length = rest.length →
            ∃ u, run (kernelSystem l c').step ((keys ++ [key]).map .handler) t = some u ∧
              KernelIdle u ∧ u.requested = t.requested := by
  obtain ⟨c', hc', hloaded, hidtr, hgates⟩ := initTables_loaded hl c
  have hhandles := handles_of_loaded hdistinct hloaded hidtr hgates
  have hg := disciplined_kernelSystem hhandles
  refine ⟨c', hc', fun es t hrun => ?_⟩
  obtain ⟨es', b, ws, hrun', hsim, -⟩ := sim_run hg es (a := toAtomic (kernelStart (Kernel.start q₀ hpet secs)))
    Sim.idle hrun
  obtain ⟨hsync, hpipeline, -⟩ := atomic_run hhandles es' rfl hrun'
  obtain ⟨L, hinv⟩ := run_invariant (fun s => ∃ L, s.Inv L) (fun _ _ _ ⟨_, hi⟩ hs => hi.step hs) _
    ⟨[], Keyboard.Inv.start hlen hempty hcursor hlt hlock⟩ hpipeline
  rcases hsim.returns fun v ops hops henabled is hislen => runOps_isSome hinv (hsync.symm.trans henabled)
    ((hhandles.handler v).symm.trans hops) hislen with rfl | ⟨v, rest, ops, hframes, henabled, hops, hrest, hreturn⟩
  · refine Or.inl ⟨⟨rfl, rfl, hsync⟩, ?_, fun v ops henabled hv hops => ?_⟩
    · obtain ⟨k, L', hk, -⟩ := hinv.main
      have hsame : ({ b.data.keyboard with interrupts := b.enabled } : Keyboard) = b.data.keyboard := by
        rw [hsync]
      simp only [System.step, Atomic.idle, kernelSystem, Kernel.loopStep, LoopStep.op, hsame, Keyboard.step, hk]
      rfl
    · have hready : ready (kernelSystem l c').cls b.requested ∅ = some v := (ready_empty _ _).trans hv
      have henabled' : b.enabled = true := henabled
      refine ⟨⟨b.requested.erase v, insert v ∅, !(kernelSystem l c').disables v, [⟨v, true, ops⟩], b.data⟩,
        ?_, rfl⟩
      simp only [System.step, Atomic.idle, henabled', if_true, hready, Option.bind_some, hhandles.handler,
        hops, Option.map_some]
  · refine Or.inr ⟨v, rest, ops, hframes, henabled, (hhandles.handler v).symm.trans hops, hrest,
      fun keys key hkeys => ?_⟩
    obtain ⟨u, hu, huframes, hurequested⟩ := hreturn keys key hkeys
    refine ⟨u, hu, ?_, hurequested⟩
    obtain ⟨es'', b', ws', hrun'', hsim', -⟩ := sim_run hg _ hsim hu
    cases hsim' with
    | busy => cases huframes
    | idle => exact ⟨rfl, rfl, (atomic_run hhandles es'' hsync hrun'').1⟩

theorem handlers_return_sample : ∃ c',
    (initGdt 0x1000 0x1018 sampleCpu).map (idtInit sampleImage) = some c' ∧
      ((kernelSystem sampleImage c').step (kernelStart sampleKernel) (.main .main)).isSome := by
  obtain ⟨c', hc', hreturn⟩ := handlers_return (l := sampleImage) ⟨by decide, by decide, by decide⟩
    sampleCpu sampleImage_distinct (cqueueCreate 200 (fun _ => 0) false) rfl rfl rfl (by decide) rfl
    (sampleHpet 10000000) 0
  rcases hreturn [] _ rfl with ⟨-, hmain, -⟩ | ⟨v, rest, ops, hframes, -⟩
  · exact ⟨c', hc', hmain⟩
  · cases hframes

end BloreOs
