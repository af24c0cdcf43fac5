import BloreOs.Lib.Driver

/-!
# Setting up the keyboard controller (`ps2_init`)

The driver and the 8042 share two ports with one buffer in each direction. The controller takes a byte
out of its input buffer some time after the driver has put it there, and the devices send bytes whenever
the output buffer is empty and they are not disabled.

* `Logical.stable` — what the controller is going to be once it has caught up,
* `outline_ps2Init` — the assertions between the operations of `ps2_init`,
* `ps2Init_configures` — in every order of steps nothing is overwritten, and the right configuration
  is set, if the mouse is silent while the command that disables it is waiting,
* `ps2Init_mouse_race` — otherwise its byte may be taken for the configuration.

The redirection of the interrupt is in `Irq.lean` and the map of the scan codes in `Ps2.lean`.
-/

namespace BloreOs

open Loop Driver

/-! ## The controller -/

/-- The 8042. `input` is a byte that it has not looked at yet, and whether it is a command. -/
structure Ps2Controller where
  /-- There is a second port, with the mouse. -/
  dual : Bool
  input : Option (Bool × BitVec 8)
  data : BitVec 8
  /-- The output buffer is full. -/
  full : Bool
  config : BitVec 8
  /-- The next byte of data is the configuration. -/
  expectsConfig : Bool

inductive Ps2Event where
  /-- The controller looks at its input. -/
  | process
  | key (b : BitVec 8)
  | mouse (b : BitVec 8)

namespace Ps2Controller

/-- Bits 0 and 1 of the status. -/
def status (s : Ps2Controller) : BitVec 8 :=
  (if s.full then 1 else 0) ||| (if s.input.isSome then 2 else 0)

/-- The configuration after a command. Bit 4 disables the keyboard, bit 5 the mouse. -/
def commanded (dual : Bool) (c config : BitVec 8) : BitVec 8 :=
  if c = 0xAD then config ||| 0x10
  else if c = 0xAE then config &&& ~~~0x10
  else if c = 0xA7 ∧ dual then config ||| 0x20
  else if c = 0xA8 ∧ dual then config &&& ~~~0x20
  else config

/-- A command. 0x20 asks for the configuration, 0x60 announces it. -/
def command (s : Ps2Controller) (c : BitVec 8) : Ps2Controller :=
  { s with
    config := commanded s.dual c s.config
    data := if c = 0x20 then s.config else s.data
    full := c = 0x20 || s.full
    expectsConfig := c = 0x60 }

/-- Data that is not the configuration goes to the keyboard. -/
def receive (s : Ps2Controller) (v : BitVec 8) : Ps2Controller :=
  if s.expectsConfig then { s with config := v, expectsConfig := false } else s

/-- The state once the input has been looked at. -/
def settle (s : Ps2Controller) : Ps2Controller :=
  match s.input with
  | none => s
  | some (true, c) => command { s with input := none } c
  | some (false, v) => receive { s with input := none } v

/-- A byte from a device. -/
def send (s : Ps2Controller) (b : BitVec 8) : Ps2Controller := { s with data := b, full := true }

def own : Ps2Event → Ps2Controller → Option Ps2Controller
  | .process, s => if s.input.isSome then some s.settle else none
  | .key b, s => if s.config.getLsbD 4 || s.full then none else some (s.send b)
  | .mouse b, s => if !s.dual || s.config.getLsbD 5 || s.full then none else some (s.send b)

end Ps2Controller

/-! ## The driver -/

/-- `PORT_PS2_DATA` -/
def portPs2Data : BitVec 16 := 0x60

/-- `PORT_PS2_STATUSCMD` -/
def portPs2Statuscmd : BitVec 16 := 0x64

/-- `PORT_PS2_CONFIG` -/
def portPs2Config : BitVec 8 := 0x20

/-- `ps2_read` -/
def ps2Read : Prog (BitVec 8) :=
  .wait portPs2Statuscmd (fun status => status &&& 1 ≠ 0) (.inb portPs2Data .ret)

/-- `ps2_read_no_wait` -/
def ps2ReadNoWait : Prog (BitVec 8) := .inb portPs2Data .ret

/-- `ps2_write` -/
def ps2Write (port : BitVec 16) (value : BitVec 8) : Prog Unit :=
  .wait portPs2Statuscmd (fun status => status &&& 2 = 0) (.outb port value (.ret ()))

/-- `ps2_read_config` -/
def ps2ReadConfig : Prog (BitVec 8) := do
  ps2Write portPs2Statuscmd portPs2Config
  ps2Read

/-- `ps2_write_config`. The command has the number of the data port. -/
def ps2WriteConfig (value : BitVec 8) : Prog Unit := do
  ps2Write portPs2Statuscmd (portPs2Data.setWidth 8)
  ps2Write portPs2Data value

/-- What `ps2_init` makes of the configuration. -/
def newConfig (config : BitVec 8) : BitVec 8 :=
  let config := config ||| (1#8 <<< 0 ||| 1#8 <<< 6)
  if config &&& 1#8 <<< 5 ≠ 0 then config ||| 1#8 <<< 1 else config

/-- The rest of `ps2_init`. -/
def afterFlush : Prog Unit := do
  let config ← ps2ReadConfig
  let config := newConfig config
  ps2WriteConfig config
  ps2Write portPs2Statuscmd 0xAE
  if config &&& 1#8 <<< 5 ≠ 0 then ps2Write portPs2Statuscmd 0xA8 else pure ()

/-- The accesses to the controller in `ps2_init`. -/
def ps2Init : Prog Unit := do
  ps2Write portPs2Statuscmd 0xAD
  ps2Write portPs2Statuscmd 0xA7
  let _ ← ps2ReadNoWait
  afterFlush

/-- The controller behind its ports. The mouse is silent while the command to disable it is waiting, and
nothing is written while the input buffer is full. -/
def ps2Rules : Rules Ps2Controller Ps2Event where
  inb port s :=
    if port = portPs2Statuscmd then (s.status, s)
    else if port = portPs2Data then (s.data, { s with full := false })
    else (0xFF, s)
  outb port value s :=
    if port = portPs2Statuscmd then { s with input := some (true, value) }
    else if port = portPs2Data then { s with input := some (false, value) }
    else s
  own := Ps2Controller.own
  may s
    | .mouse _ => s.input ≠ some (true, 0xA7)
    | _ => True
  allowed _ _ s := s.input = none

/-! ## What the controller is going to be -/

variable {s t : Ps2Controller} {e : Ps2Event} {c b : BitVec 8} {port : BitVec 16}

namespace Ps2Controller

theorem settle_of_none (h : s.input = none) : s.settle = s := by
  simp only [settle, h]

@[simp] theorem settle_input (s : Ps2Controller) : s.settle.input = none := by
  obtain ⟨dual, input, data, full, config, expectsConfig⟩ := s
  rcases input with _ | ⟨_ | _, v⟩
  · rfl
  · cases expectsConfig <;> rfl
  · rfl

@[simp] theorem settle_dual (s : Ps2Controller) : s.settle.dual = s.dual := by
  obtain ⟨dual, input, data, full, config, expectsConfig⟩ := s
  rcases input with _ | ⟨_ | _, v⟩
  · rfl
  · cases expectsConfig <;> rfl
  · rfl

/-- A byte from a device does not interfere. -/
theorem settle_send (s : Ps2Controller) (b : BitVec 8) : (s.send b).settle.config = s.settle.config ∧
    (s.send b).settle.expectsConfig = s.settle.expectsConfig := by
  obtain ⟨dual, input, data, full, config, expectsConfig⟩ := s
  rcases input with _ | ⟨_ | _, v⟩
  · exact ⟨rfl, rfl⟩
  · cases expectsConfig <;> exact ⟨rfl, rfl⟩
  · exact ⟨rfl, rfl⟩

/-- Neither does reading one. -/
theorem settle_read (s : Ps2Controller) : ({ s with full := false } : Ps2Controller).settle.config =
    s.settle.config ∧ ({ s with full := false } : Ps2Controller).settle.expectsConfig =
      s.settle.expectsConfig := by
  obtain ⟨dual, input, data, full, config, expectsConfig⟩ := s
  rcases input with _ | ⟨_ | _, v⟩
  · exact ⟨rfl, rfl⟩
  · cases expectsConfig <;> exact ⟨rfl, rfl⟩
  · exact ⟨rfl, rfl⟩

/-- What the controller does on its own. -/
theorem own_cases (h : own e s = some t) : (e = .process ∧ s.input.isSome ∧ t = s.settle) ∨
    (∃ b, e = .key b ∧ s.config.getLsbD 4 = false ∧ s.full = false ∧ t = s.send b) ∨
      ∃ b, e = .mouse b ∧ s.dual = true ∧ s.config.getLsbD 5 = false ∧ s.full = false ∧ t = s.send b := by
  cases e with
  | process =>
    simp only [own] at h
    split at h
    next hinput =>
      cases h
      exact Or.inl ⟨rfl, hinput, rfl⟩
    next => cases h
  | key b =>
    simp only [own] at h
    split at h
    next => cases h
    next hnot =>
      cases h
      simp only [Bool.or_eq_true, not_or, Bool.not_eq_true] at hnot
      exact Or.inr (Or.inl ⟨b, rfl, hnot.1, hnot.2, rfl⟩)
  | mouse b =>
    simp only [own] at h
    split at h
    next => cases h
    next hnot =>
      cases h
      simp only [Bool.or_eq_true, Bool.not_eq_true', not_or, Bool.not_eq_true, Bool.not_eq_false] at hnot
      exact Or.inr (Or.inr ⟨b, rfl, hnot.1.1, hnot.1.2, hnot.2, rfl⟩)

theorem status_and_two (s : Ps2Controller) : s.status &&& 2 = 0 ↔ s.input = none := by
  obtain ⟨dual, input, data, full, config, expectsConfig⟩ := s
  cases input <;> cases full <;> simp [status]

theorem status_and_one (s : Ps2Controller) : s.status &&& 1 ≠ 0 ↔ s.full = true := by
  obtain ⟨dual, input, data, full, config, expectsConfig⟩ := s
  cases input <;> cases full <;> simp [status]

theorem settle_full (h : s.full = true) : s.settle.full = true := by
  obtain ⟨dual, input, data, full, config, expectsConfig⟩ := s
  cases h
  rcases input with _ | ⟨_ | _, v⟩
  · rfl
  · cases expectsConfig <;> rfl
  · exact Bool.or_true _

end Ps2Controller

/-- The controller once it has caught up. -/
structure Logical (dual : Bool) (config : BitVec 8) (expects : Bool) (s : Ps2Controller) : Prop where
  dual : s.dual = dual
  config : s.settle.config = config
  expects : s.settle.expectsConfig = expects

namespace Logical

variable {d ex : Bool}

/-- **Neither the controller nor the devices change that.** -/
theorem stable : Stable ps2Rules (Logical d c ex) := by
  rintro s e t ⟨hdual, hconfig, hexpects⟩ - hown
  rcases Ps2Controller.own_cases hown with ⟨-, -, rfl⟩ | ⟨b, -, -, -, rfl⟩ | ⟨b, -, -, -, -, rfl⟩
  · have hsettle := Ps2Controller.settle_of_none (Ps2Controller.settle_input s)
    exact ⟨(Ps2Controller.settle_dual s).trans hdual, by rw [hsettle]; exact hconfig,
      by rw [hsettle]; exact hexpects⟩
  · obtain ⟨h1, h2⟩ := Ps2Controller.settle_send s b
    exact ⟨hdual, h1.trans hconfig, h2.trans hexpects⟩
  · obtain ⟨h1, h2⟩ := Ps2Controller.settle_send s b
    exact ⟨hdual, h1.trans hconfig, h2.trans hexpects⟩

/-- Where nothing is waiting it is what the controller is now. -/
theorem now (h : Logical d c ex s) (hin : s.input = none) : s.config = c ∧ s.expectsConfig = ex := by
  obtain ⟨-, hconfig, hexpects⟩ := h
  rw [Ps2Controller.settle_of_none hin] at hconfig hexpects
  exact ⟨hconfig, hexpects⟩

theorem read (h : Logical d c ex s) : Logical d c ex { s with full := false } := by
  obtain ⟨hconfig, hexpects⟩ := Ps2Controller.settle_read s
  exact ⟨h.dual, hconfig.trans h.config, hexpects.trans h.expects⟩

theorem command (h : Logical d c ex s) (hin : s.input = none) (v : BitVec 8) :
    Logical d (Ps2Controller.commanded d v c) (v = 0x60) (ps2Rules.outb portPs2Statuscmd v s) := by
  obtain ⟨hconfig, -⟩ := h.now hin
  refine ⟨h.dual, ?_, rfl⟩
  rw [← hconfig, ← h.dual]
  rfl

theorem receive (h : Logical d c true s) (hin : s.input = none) (v : BitVec 8) :
    Logical d v false (ps2Rules.outb portPs2Data v s) := by
  obtain ⟨-, hexpects⟩ := h.now hin
  obtain ⟨dual, input, data, full, config, expectsConfig⟩ := s
  cases hexpects
  exact ⟨h.dual, rfl, rfl⟩

end Logical

/-! ## The outline -/

variable {P P' : Ps2Controller → Prop} {Q : BitVec 8 → Ps2Controller → Prop}

/-- `ps2_write` waits until the input buffer is empty. -/
theorem outline_ps2Write {v : BitVec 8} (hP : Stable ps2Rules P) (hP' : Stable ps2Rules P')
    (h : ∀ s, P s → s.input = none → P' (ps2Rules.outb port v s)) :
    Outline ps2Rules (ps2Write port v) P fun _ => P' := by
  refine ⟨P, fun s => P s ∧ s.input = none, hP, ?_, fun _ h => h, fun s hs => ?_,
    P', hP', fun s hs => ⟨hs.2, h s hs.1 hs.2⟩, fun _ h => h⟩
  · rintro s e t ⟨hs, hin⟩ hmay hown
    refine ⟨hP s e t hs hmay hown, ?_⟩
    rcases Ps2Controller.own_cases hown with ⟨-, hsome, -⟩ | ⟨b, -, -, -, rfl⟩ | ⟨b, -, -, -, -, rfl⟩
    · rw [hin] at hsome
      cases hsome
    · exact hin
    · exact hin
  · by_cases hin : s.input = none
    · exact Or.inl ⟨decide_eq_true ((Ps2Controller.status_and_two s).mpr hin), hs, hin⟩
    · have hsome : s.input.isSome = true := Option.isSome_iff_ne_none.mpr hin
      exact Or.inr ⟨decide_eq_false (mt (Ps2Controller.status_and_two s).mp hin), hs, .process, s.settle,
        trivial, if_pos hsome, decide_eq_true ((Ps2Controller.status_and_two _).mpr s.settle_input)⟩

/-- `ps2_read` waits until the output buffer is full. -/
theorem outline_ps2Read (hP : Stable ps2Rules P) (hQ : ∀ b, Stable ps2Rules (Q b))
    (hwait : ∀ s, P s → s.full = false → s.input.isSome = true ∧ s.settle.full = true)
    (h : ∀ s, P s → s.full = true → Q s.data { s with full := false }) :
    Outline ps2Rules ps2Read P Q := by
  refine ⟨P, fun s => P s ∧ s.full = true, hP, ?_, fun _ h => h, fun s hs => ?_,
    Q, hQ, fun s hs => h s hs.1 hs.2, fun b s hs => hs⟩
  · rintro s e t ⟨hs, hfull⟩ hmay hown
    refine ⟨hP s e t hs hmay hown, ?_⟩
    rcases Ps2Controller.own_cases hown with ⟨-, -, rfl⟩ | ⟨b, -, -, -, rfl⟩ | ⟨b, -, -, -, -, rfl⟩
    · exact Ps2Controller.settle_full hfull
    · rfl
    · rfl
  · cases hfull : s.full with
    | true => exact Or.inl ⟨decide_eq_true ((Ps2Controller.status_and_one s).mpr hfull), hs, hfull⟩
    | false =>
      obtain ⟨hsome, hsettle⟩ := hwait s hs hfull
      have hnot : ¬ s.status &&& 1 ≠ 0 := fun h => by
        rw [(Ps2Controller.status_and_one s).mp h] at hfull
        cases hfull
      exact Or.inr ⟨decide_eq_false hnot, hs, .process, s.settle, trivial, if_pos hsome,
        decide_eq_true ((Ps2Controller.status_and_one _).mpr hsettle)⟩

/-- The configuration while both devices are disabled. -/
def disabledConfig (dual : Bool) (c : BitVec 8) : BitVec 8 :=
  Ps2Controller.commanded dual 0xA7 (Ps2Controller.commanded dual 0xAD c)

/-- The configuration after the devices have been enabled. -/
def enabledConfig (dual : Bool) (config : BitVec 8) : BitVec 8 :=
  let enabled := Ps2Controller.commanded dual 0xAE config
  if config &&& 1#8 <<< 5 ≠ 0 then Ps2Controller.commanded dual 0xA8 enabled else enabled

/-- The configuration in the end. -/
def finalConfig (dual : Bool) (c : BitVec 8) : BitVec 8 :=
  enabledConfig dual (newConfig (disabledConfig dual c))

theorem disabledConfig_keyboard (dual : Bool) (c : BitVec 8) : (disabledConfig dual c).getLsbD 4 = true := by
  cases dual <;> simp [disabledConfig, Ps2Controller.commanded]

theorem disabledConfig_mouse (c : BitVec 8) : (disabledConfig true c).getLsbD 5 = true := by
  simp [disabledConfig, Ps2Controller.commanded]

/-- The keyboard is disabled, the mouse is about to be. -/
structure Disabling (d : Bool) (c : BitVec 8) (s : Ps2Controller) : Prop where
  logical : Logical d (disabledConfig d c) false s
  keyboard : s.config.getLsbD 4 = true
  input : s.input = none ∨ s.input = some (true, 0xA7)

theorem Disabling.stable {d : Bool} : Stable ps2Rules (Disabling d c) := by
  rintro s e t ⟨hlogical, hkeyboard, hinput⟩ hmay hown
  have hlogical' := Logical.stable s e t hlogical hmay hown
  rcases Ps2Controller.own_cases hown with ⟨-, -, rfl⟩ | ⟨b, -, -, -, rfl⟩ | ⟨b, -, -, -, -, rfl⟩
  · exact ⟨hlogical', by rw [hlogical.config]; exact disabledConfig_keyboard d c, Or.inl s.settle_input⟩
  · exact ⟨hlogical', hkeyboard, hinput⟩
  · exact ⟨hlogical', hkeyboard, hinput⟩

/-- The output buffer has been flushed. -/
def Flushed (d : Bool) (c : BitVec 8) (s : Ps2Controller) : Prop := Disabling d c s ∧ s.full = false

/-- Neither device sends any more: the mouse is silent until its command has been looked at. -/
theorem Flushed.stable {d : Bool} : Stable ps2Rules (Flushed d c) := by
  rintro s e t ⟨h, hfull⟩ hmay hown
  refine ⟨Disabling.stable s e t h hmay hown, ?_⟩
  rcases Ps2Controller.own_cases hown with ⟨-, hsome, rfl⟩ | ⟨b, -, hoff, -⟩ | ⟨b, rfl, hdual, hoff, -⟩
  · rcases h.input with hin | hin
    · rw [hin] at hsome
      cases hsome
    · simp only [Ps2Controller.settle, hin, Ps2Controller.command, hfull]
      rfl
  · rw [h.keyboard] at hoff
    cases hoff
  · rcases h.input with hin | hin
    · rw [(h.logical.now hin).1, ← h.logical.dual, hdual, disabledConfig_mouse] at hoff
      cases hoff
    · exact absurd hin hmay

/-- The configuration has been asked for. -/
structure Asked (d : Bool) (c : BitVec 8) (s : Ps2Controller) : Prop where
  logical : Logical d (disabledConfig d c) false s
  config : s.config = disabledConfig d c
  reply : (s.input = some (true, portPs2Config) ∧ s.full = false) ∨
    (s.input = none ∧ s.full = true ∧ s.data = disabledConfig d c)

theorem Asked.stable {d : Bool} : Stable ps2Rules (Asked d c) := by
  rintro s e t ⟨hlogical, hconfig, hreply⟩ hmay hown
  have hlogical' := Logical.stable s e t hlogical hmay hown
  rcases Ps2Controller.own_cases hown with ⟨-, hsome, rfl⟩ | ⟨b, -, hoff, -⟩ | ⟨b, -, hdual, hoff, -⟩
  · rcases hreply with ⟨hin, -⟩ | ⟨hin, -⟩
    · refine ⟨hlogical', hlogical.config, Or.inr ⟨s.settle_input, ?_, ?_⟩⟩
      · simp only [Ps2Controller.settle, hin, Ps2Controller.command]
        rfl
      · simp only [Ps2Controller.settle, hin, Ps2Controller.command]
        exact hconfig
    · rw [hin] at hsome
      cases hsome
  · rw [hconfig, disabledConfig_keyboard] at hoff
    cases hoff
  · rw [hconfig, ← hlogical.dual, hdual, disabledConfig_mouse] at hoff
    cases hoff

/-- What `ps2_read_config` returns is the configuration. -/
theorem outline_ps2ReadConfig {d : Bool} : Outline ps2Rules ps2ReadConfig (Flushed d c) fun b s =>
    b = disabledConfig d c ∧ Logical d (disabledConfig d c) false s := by
  have hwrite : Outline ps2Rules (ps2Write portPs2Statuscmd portPs2Config) (Flushed d c) fun _ => Asked d c :=
    outline_ps2Write Flushed.stable Asked.stable fun s hs hin =>
      ⟨hs.1.logical.command hin portPs2Config, (hs.1.logical.now hin).1, Or.inl ⟨rfl, hs.2⟩⟩
  refine hwrite.bind fun _ => outline_ps2Read Asked.stable ?_ (fun s hs hfull => ?_) fun s hs hfull => ?_
  · rintro b s e t ⟨hb, hs⟩ hmay hown
    exact ⟨hb, Logical.stable s e t hs hmay hown⟩
  · rcases hs.reply with ⟨hin, -⟩ | ⟨-, htrue, -⟩
    · refine ⟨by rw [hin]; rfl, ?_⟩
      simp only [Ps2Controller.settle, hin, Ps2Controller.command]
      rfl
    · rw [hfull] at htrue
      cases htrue
  · rcases hs.reply with ⟨-, hfalse⟩ | ⟨-, -, hdata⟩
    · rw [hfull] at hfalse
      cases hfalse
    · exact ⟨hdata, hs.logical.read⟩

/-- The command that enables a device, or any other one after which no data is expected. -/
theorem outline_command {d ex : Bool} {v : BitVec 8} (hv : v ≠ 0x60) :
    Outline ps2Rules (ps2Write portPs2Statuscmd v) (Logical d c ex) fun _ =>
      Logical d (Ps2Controller.commanded d v c) false := by
  refine outline_ps2Write Logical.stable Logical.stable fun s hs hin => ?_
  have hcommand := hs.command hin v
  rwa [decide_eq_false hv] at hcommand

/-- `ps2_write_config` sets the configuration. -/
theorem outline_ps2WriteConfig {d : Bool} (v : BitVec 8) :
    Outline ps2Rules (ps2WriteConfig v) (Logical d c false) fun _ => Logical d v false := by
  have hannounce : Outline ps2Rules (ps2Write portPs2Statuscmd (portPs2Data.setWidth 8)) (Logical d c false)
      fun _ => Logical d c true :=
    outline_ps2Write Logical.stable Logical.stable fun s hs hin => hs.command hin 0x60
  exact hannounce.bind fun _ => outline_ps2Write Logical.stable Logical.stable fun s hs hin => hs.receive hin v

/-- **The assertions of `ps2_init`.** -/
theorem outline_ps2Init (d ex : Bool) (c : BitVec 8) :
    Outline ps2Rules ps2Init (Logical d c ex) fun _ => Logical d (finalConfig d c) false := by
  have hkeyboard : Outline ps2Rules (ps2Write portPs2Statuscmd 0xAD) (Logical d c ex) fun _ =>
      Logical d (Ps2Controller.commanded d 0xAD c) false := outline_command (by decide)
  -- the keyboard is disabled by the time the second command is written
  have hmouse : Outline ps2Rules (ps2Write portPs2Statuscmd 0xA7)
      (Logical d (Ps2Controller.commanded d 0xAD c) false) fun _ => Disabling d c := by
    refine outline_ps2Write Logical.stable Disabling.stable fun s hs hin =>
      ⟨hs.command hin 0xA7, ?_, Or.inr rfl⟩
    show s.config.getLsbD 4 = true
    rw [(hs.now hin).1]
    simp [Ps2Controller.commanded]
  have hflush : Outline ps2Rules ps2ReadNoWait (Disabling d c) fun _ => Flushed d c :=
    ⟨fun _ => Flushed d c, fun _ => Flushed.stable,
      fun s hs => ⟨⟨hs.logical.read, hs.keyboard, hs.input⟩, rfl⟩, fun _ _ hs => hs⟩
  refine hkeyboard.bind fun _ => hmouse.bind fun _ => hflush.bind fun _ => outline_ps2ReadConfig.bind fun b => ?_
  by_cases hb : b = disabledConfig d c
  · subst hb
    have hset : Outline ps2Rules (ps2WriteConfig (newConfig (disabledConfig d c)))
        (fun s => disabledConfig d c = disabledConfig d c ∧ Logical d (disabledConfig d c) false s)
        fun _ => Logical d (newConfig (disabledConfig d c)) false :=
      (outline_ps2WriteConfig _).mono (fun _ h => h.2) fun _ _ h => h
    refine hset.bind fun _ => Outline.bind (outline_command (by decide)) fun _ => ?_
    unfold finalConfig enabledConfig
    dsimp only
    split
    · exact outline_command (by decide)
    · exact fun s hs => hs
  · -- no other byte is read
    exact Outline.of_false _ fun s hs => hb hs.1

/-! ## Runs -/

/-- The devices are set up: interrupts and translation of the keyboard, and interrupts of the mouse if
there is one, or if bit 5 says so. -/
structure Configured (dual : Bool) (c config : BitVec 8) : Prop where
  interrupt : config.getLsbD 0 = true
  mouseInterrupt : config.getLsbD 1 = (c.getLsbD 1 || dual || c.getLsbD 5)
  keyboard : config.getLsbD 4 = false
  mouse : config.getLsbD 5 = (!dual && c.getLsbD 5)
  translation : config.getLsbD 6 = true
  other : ∀ i, i = 2 ∨ i = 3 ∨ i = 7 → config.getLsbD i = c.getLsbD i

theorem and_bit5 (x : BitVec 8) : x &&& 1#8 <<< 5 ≠ 0 ↔ x.getLsbD 5 = true := by
  rw [show 1#8 <<< 5 = BitVec.twoPow 8 5 from rfl, BitVec.and_twoPow]
  cases x.getLsbD 5 <;> decide

theorem bit_cases {i : Nat} (hi : i < 8) :
    i = 0 ∨ i = 1 ∨ i = 2 ∨ i = 3 ∨ i = 4 ∨ i = 5 ∨ i = 6 ∨ i = 7 := by omega

theorem getLsbD_newConfig (x : BitVec 8) {i : Nat} (hi : i < 8) :
    (newConfig x).getLsbD i = (x.getLsbD i || i = 0 || i = 6 || (i = 1 && x.getLsbD 5)) := by
  have h5 : (x ||| (1#8 <<< 0 ||| 1#8 <<< 6)).getLsbD 5 = x.getLsbD 5 := by simp
  unfold newConfig
  simp only [and_bit5, h5]
  cases hx : x.getLsbD 5 <;>
    rcases bit_cases hi with rfl | rfl | rfl | rfl | rfl | rfl | rfl | rfl <;> simp

theorem getLsbD_disabledConfig (dual : Bool) (c : BitVec 8) {i : Nat} (hi : i < 8) :
    (disabledConfig dual c).getLsbD i = (c.getLsbD i || i = 4 || (i = 5 && dual)) := by
  cases dual <;> rcases bit_cases hi with rfl | rfl | rfl | rfl | rfl | rfl | rfl | rfl <;>
    simp [disabledConfig, Ps2Controller.commanded]

theorem getLsbD_finalConfig (dual : Bool) (c : BitVec 8) {i : Nat} (hi : i < 8) :
    (finalConfig dual c).getLsbD i =
      ((newConfig (disabledConfig dual c)).getLsbD i && i ≠ 4 && !(i = 5 && dual)) := by
  have h5 := getLsbD_newConfig (disabledConfig dual c) (i := 5) (by omega)
  rw [getLsbD_disabledConfig dual c (by omega)] at h5
  unfold finalConfig enabledConfig
  simp only [and_bit5, h5]
  cases dual <;> rcases bit_cases hi with rfl | rfl | rfl | rfl | rfl | rfl | rfl | rfl <;>
    simp [Ps2Controller.commanded]

theorem configured_finalConfig (dual : Bool) (c : BitVec 8) : Configured dual c (finalConfig dual c) := by
  have hbit : ∀ i, i < 8 → (finalConfig dual c).getLsbD i =
      ((c.getLsbD i || i = 4 || (i = 5 && dual) || i = 0 || i = 6 || (i = 1 && (c.getLsbD 5 || dual))) &&
        i ≠ 4 && !(i = 5 && dual)) := by
    intro i hi
    rw [getLsbD_finalConfig dual c hi, getLsbD_newConfig _ hi, getLsbD_disabledConfig dual c hi,
      getLsbD_disabledConfig dual c (by omega)]
    simp
  refine ⟨?_, ?_, ?_, ?_, ?_, fun i hi => ?_⟩
  · rw [hbit 0 (by omega)]
    simp
  · rw [hbit 1 (by omega)]
    cases dual <;> simp
  · rw [hbit 4 (by omega)]
    simp
  · rw [hbit 5 (by omega)]
    cases dual <;> simp
  · rw [hbit 6 (by omega)]
    simp
  · rcases hi with rfl | rfl | rfl
    · rw [hbit 2 (by omega)]
      simp
    · rw [hbit 3 (by omega)]
      simp
    · rw [hbit 7 (by omega)]
      simp

/--
**`ps2_init` against every behaviour of the controller.** Whatever is waiting in its buffers, and in
every order of steps in which the mouse is silent while the command 0xA7 is waiting: no byte is written
over another one; once `ps2_init` has returned and the controller has caught up, the devices are set up
and the rest of its configuration is kept; and every run can be continued to that point.
-/
theorem ps2Init_configures (s : Ps2Controller) (es : List (Step Ps2Event)) {y : Prog Unit × Ps2Controller}
    (hrun : RunIf (step ps2Rules.toDevice) (Obeys ps2Rules) es (ps2Init, s) y) :
    Allowed ps2Rules y ∧
      (∀ t, y = (.ret (), t) → Configured s.dual s.settle.config t.settle.config) ∧
      ∃ es' t, RunIf (step ps2Rules.toDevice) (Obeys ps2Rules) es' y (.ret (), t) ∧
        Configured s.dual s.settle.config t.settle.config := by
  have hkeeps := outline_run (outline_ps2Init s.dual s.settle.expectsConfig s.settle.config) Logical.stable
    ⟨rfl, rfl, rfl⟩ es hrun
  have hfinal := configured_finalConfig s.dual s.settle.config
  refine ⟨hkeeps.allowed, fun t ht => ?_, ?_⟩
  · subst ht
    rw [hkeeps.post.config]
    exact hfinal
  · obtain ⟨es', _, t, hrun', ht⟩ := outline_completes hkeeps
    refine ⟨es', t, hrun', ?_⟩
    rw [ht.config]
    exact hfinal

/-- A controller with a mouse that is enabled. -/
def sampleController : Ps2Controller := ⟨true, none, 0, false, 0x45, false⟩

/-- The first command has been written, and the controller has not looked at it. -/
theorem ps2Init_configures_sample : ∃ y,
    RunIf (step ps2Rules.toDevice) (Obeys ps2Rules) [.driver, .driver] (ps2Init, sampleController) y ∧
      Allowed ps2Rules y ∧ ∃ es' t, RunIf (step ps2Rules.toDevice) (Obeys ps2Rules) es' y (.ret (), t) ∧
        Configured true 0x45 t.settle.config := by
  have hrun : RunIf (step ps2Rules.toDevice) (Obeys ps2Rules) [.driver, .driver] (ps2Init, sampleController)
      _ := ⟨trivial, _, rfl, trivial, _, rfl, rfl⟩
  obtain ⟨hallowed, -, hend⟩ := ps2Init_configures sampleController [.driver, .driver] hrun
  exact ⟨_, hrun, hallowed, hend⟩

theorem run_of_step {α : Type} {x y : Prog α × Ps2Controller} {e : Step Ps2Event}
    (h : step ps2Rules.toDevice x e = some y) (es : List (Step Ps2Event)) :
    run (step ps2Rules.toDevice) (e :: es) x = run (step ps2Rules.toDevice) es y := by
  rw [run, h, Option.bind_some]

/-- `ps2_write` while nothing is waiting. -/
theorem run_ps2Write {α : Type} {v : BitVec 8} (f : Unit → Prog α) (hin : s.input = none)
    (es : List (Step Ps2Event)) :
    run (step ps2Rules.toDevice) (.driver :: .driver :: es) ((ps2Write port v).bind f, s) =
      run (step ps2Rules.toDevice) es (f (), ps2Rules.outb port v s) := by
  have hready : decide (s.status &&& 2 = 0) = true :=
    decide_eq_true ((Ps2Controller.status_and_two s).mpr hin)
  refine (run_of_step (y := (.outb port v (f ()), s)) ?_ _).trans rfl
  show some (if decide (s.status &&& 2 = 0) then Prog.outb port v (f ()) else _, s) = _
  rw [if_pos hready]

/-- `ps2_read` while the output buffer is full. -/
theorem run_ps2Read {α : Type} (f : BitVec 8 → Prog α) (hfull : s.full = true) (es : List (Step Ps2Event)) :
    run (step ps2Rules.toDevice) (.driver :: .driver :: es) (ps2Read.bind f, s) =
      run (step ps2Rules.toDevice) es (f s.data, { s with full := false }) := by
  have hready : decide (s.status &&& 1 ≠ 0) = true :=
    decide_eq_true ((Ps2Controller.status_and_one s).mpr hfull)
  refine (run_of_step (y := (.inb portPs2Data f, s)) ?_ _).trans rfl
  show some (if decide (s.status &&& 1 ≠ 0) then Prog.inb portPs2Data f else _, s) = _
  rw [if_pos hready]

theorem run_process {α : Type} (prog : Prog α) {v : Bool × BitVec 8} (hin : s.input = some v)
    (es : List (Step Ps2Event)) : run (step ps2Rules.toDevice) (.own .process :: es) (prog, s) =
      run (step ps2Rules.toDevice) es (prog, s.settle) := by
  refine run_of_step ?_ es
  have hown : ps2Rules.own .process s = some s.settle := if_pos (by rw [hin]; rfl)
  rw [step, hown, Option.map_some]

theorem run_mouse {α : Type} (prog : Prog α) (hdual : s.dual = true) (hmouse : s.config.getLsbD 5 = false)
    (hfull : s.full = false) (b : BitVec 8) (es : List (Step Ps2Event)) :
    run (step ps2Rules.toDevice) (.own (.mouse b) :: es) (prog, s) =
      run (step ps2Rules.toDevice) es (prog, s.send b) := by
  refine run_of_step ?_ es
  have hown : ps2Rules.own (.mouse b) s = some (s.send b) := if_neg (by rw [hdual, hmouse, hfull]; decide)
  rw [step, hown, Option.map_some]

/-- The accesses one by one. -/
theorem afterFlush_eq : afterFlush = (ps2Write portPs2Statuscmd portPs2Config).bind fun _ =>
    ps2Read.bind fun config => (ps2Write portPs2Statuscmd (portPs2Data.setWidth 8)).bind fun _ =>
      (ps2Write portPs2Data (newConfig config)).bind fun _ => (ps2Write portPs2Statuscmd 0xAE).bind fun _ =>
        if newConfig config &&& 1#8 <<< 5 ≠ 0 then ps2Write portPs2Statuscmd 0xA8 else .ret () := rfl

/-- The order of steps in which the mouse sends its byte between the flush and the end of its command. -/
def raceSteps (b : BitVec 8) : List (Step Ps2Event) :=
  [.driver, .driver, .own .process, .driver, .driver, .driver, .own (.mouse b), .own .process,
    .driver, .driver, .driver, .driver, .own .process, .driver, .driver, .own .process, .driver, .driver,
    .own .process, .driver, .driver]

/-- The state in which that ends. -/
def racedController (s : Ps2Controller) (b : BitVec 8) : Ps2Controller where
  dual := true
  input := some (true, 0xAE)
  data := disabledConfig true s.config
  full := true
  config := newConfig b
  expectsConfig := false

theorem run_raceSteps (hdual : s.dual = true) (hin : s.input = none) (hmouse : s.config.getLsbD 5 = false)
    (b : BitVec 8) : run (step ps2Rules.toDevice) (raceSteps b) (ps2Init, s) =
      some (if newConfig b &&& 1#8 <<< 5 ≠ 0 then ps2Write portPs2Statuscmd 0xA8 else .ret (),
        racedController s b) := by
  obtain ⟨dual, input, data, full, config, expectsConfig⟩ := s
  cases hdual
  cases hin
  have hmouse' : (config ||| 0x10).getLsbD 5 = false := by
    rw [BitVec.getLsbD_or, show config.getLsbD 5 = false from hmouse]
    decide
  refine (run_ps2Write _ rfl _).trans ?_
  refine (run_process _ rfl _).trans ?_
  refine (run_ps2Write _ rfl _).trans ?_
  -- the flush, and the byte of the mouse
  refine (run_of_step (y := (afterFlush, ⟨true, some (true, 0xA7), data, false, config ||| 0x10, false⟩))
    rfl _).trans ?_
  refine (run_mouse (s := ⟨true, some (true, 0xA7), data, false, config ||| 0x10, false⟩) afterFlush rfl
    hmouse' rfl b _).trans ?_
  generalize hoff : disabledConfig true config = off
  have hsettle : (⟨true, some (true, 0xA7), b, true, config ||| 0x10, false⟩ : Ps2Controller).settle =
      ⟨true, none, b, true, off, false⟩ := by
    rw [← hoff]
    rfl
  refine (run_process (s := ⟨true, some (true, 0xA7), b, true, config ||| 0x10, false⟩) _ rfl _).trans ?_
  rw [hsettle, afterFlush_eq]
  -- the byte is read as the configuration
  refine (run_ps2Write (s := ⟨true, none, b, true, off, false⟩) _ rfl _).trans ?_
  refine (run_ps2Read (s := ⟨true, some (true, 0x20), b, true, off, false⟩) _ rfl _).trans ?_
  refine (run_process (s := ⟨true, some (true, 0x20), b, false, off, false⟩) _ rfl _).trans ?_
  refine (run_ps2Write (s := ⟨true, none, off, true, off, false⟩) _ rfl _).trans ?_
  refine (run_process (s := ⟨true, some (true, 0x60), off, true, off, false⟩) _ rfl _).trans ?_
  refine (run_ps2Write (s := ⟨true, none, off, true, off, true⟩) _ rfl _).trans ?_
  refine (run_process (s := ⟨true, some (false, newConfig b), off, true, off, true⟩) _ rfl _).trans ?_
  refine (run_ps2Write (s := ⟨true, none, off, true, newConfig b, false⟩) _ rfl _).trans ?_
  rw [racedController, hoff]
  rfl

/--
**A byte of the mouse may be taken for the configuration.** If the mouse is enabled, it may send any
byte after the flush and before the command that disables it takes effect. `ps2_init` then goes on with
that byte, and the configuration itself stays behind in the output buffer, as a scan code to come.
-/
theorem ps2Init_mouse_race (s : Ps2Controller) (hdual : s.dual = true) (hin : s.input = none)
    (hmouse : s.config.getLsbD 5 = false) (b : BitVec 8) : ∃ es t,
      run (step ps2Rules.toDevice) es (ps2Init, s) = some (.ret (), t) ∧
        t.settle.config = enabledConfig true (newConfig b) ∧
        t.full = true ∧ t.data = disabledConfig true s.config := by
  have hrace := run_raceSteps hdual hin hmouse b
  by_cases hbit : newConfig b &&& 1#8 <<< 5 ≠ 0
  · rw [if_pos hbit] at hrace
    refine ⟨raceSteps b ++ [.own .process, .driver, .driver],
      ps2Rules.outb portPs2Statuscmd 0xA8 (racedController s b).settle, ?_, ?_, rfl, rfl⟩
    · rw [run_append, hrace, Option.bind_some]
      refine (run_process (s := racedController s b) _ rfl _).trans ?_
      exact run_ps2Write .ret rfl []
    · rw [enabledConfig, if_pos hbit]
      rfl
  · rw [if_neg hbit] at hrace
    refine ⟨raceSteps b, _, hrace, ?_, rfl, rfl⟩
    rw [enabledConfig, if_neg hbit]
    rfl

theorem ps2Init_mouse_race_sample : ∃ es t,
    run (step ps2Rules.toDevice) es (ps2Init, sampleController) = some (.ret (), t) ∧
      t.settle.config = enabledConfig true (newConfig 0x08) ∧
      t.full = true ∧ t.data = disabledConfig true 0x45 :=
  ps2Init_mouse_race sampleController rfl rfl (by decide) 0x08

end BloreOs
