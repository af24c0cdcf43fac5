import BloreOs.Lib.Driver
import BloreOs.Str.Log

/-!
# The serial port (`serial.c`)

`init_serial` sets up the chip and sends a byte to itself to test it, `write_serial_str` sends the log.
The chip takes a byte out of its holding register some time after it has been written, and puts it on
the line, or in loopback mode into its own receiver.

* `outline_initSerial` — the assertions between the operations of `init_serial`,
* `outline_writeSerialStr` — and of `write_serial_str`,
* `serial_log` — together: in every order of steps the whole text gets on the line if the test has
  succeeded, and nothing at all if it has not.
-/

namespace BloreOs.Serial

open Loop Driver

/-! ## The chip -/

/-- A 16550. `line` is what it has sent so far. -/
structure Uart where
  /-- The transmitter holding register, unless it is empty. -/
  thr : Option (BitVec 8)
  /-- The receiver buffer. -/
  rbr : BitVec 8
  ier : BitVec 8
  lcr : BitVec 8
  mcr : BitVec 8
  divisorLow : BitVec 8
  divisorHigh : BitVec 8
  line : List (BitVec 8)

inductive UartEvent where
  /-- The byte in the holding register is sent. -/
  | transmit
  /-- A byte comes in. -/
  | receive (b : BitVec 8)

namespace Uart

def dlab (s : Uart) : Bool := s.lcr.getLsbD 7

def loopback (s : Uart) : Bool := s.mcr.getLsbD 4

/-- The line status. -/
def lsr (s : Uart) : BitVec 8 := if s.thr = none then 0x20 else 0

def own : UartEvent → Uart → Option Uart
  | .transmit, s =>
    s.thr.map fun v =>
      if s.loopback then { s with thr := none, rbr := v } else { s with thr := none, line := s.line ++ [v] }
  | .receive b, s => if s.loopback then none else some { s with rbr := b }

def outb (port p : BitVec 16) (v : BitVec 8) (s : Uart) : Uart :=
  if p = port then if s.dlab then { s with divisorLow := v } else { s with thr := some v }
  else if p = port + 1 then if s.dlab then { s with divisorHigh := v } else { s with ier := v }
  else if p = port + 2 then
    -- bits 1 and 2 clear the receiver and the transmitter
    { s with rbr := if v.getLsbD 1 then 0 else s.rbr, thr := if v.getLsbD 2 then none else s.thr }
  else if p = port + 3 then { s with lcr := v }
  else if p = port + 4 then { s with mcr := v }
  else s

def inb (port p : BitVec 16) (s : Uart) : BitVec 8 × Uart :=
  if p = port then (if s.dlab then s.divisorLow else s.rbr, s)
  else if p = port + 5 then (s.lsr, s)
  else (0xFF, s)

end Uart

/-- `PORT_COM1` -/
def portCom1 : BitVec 16 := 0x3F8

/-- The chip behind its ports. The byte of the test does not come in from outside, and nothing is written
into a holding register that is full. -/
def uartRules : Rules Uart UartEvent where
  inb := Uart.inb portCom1
  outb := Uart.outb portCom1
  own := Uart.own
  may _
    | .receive b => b ≠ 0xAE
    | .transmit => True
  allowed p _ s := p = portCom1 → s.dlab = true ∨ s.thr = none

/-! ## The driver -/

/-- `init_serial` after its first write. -/
def afterFirst (port : BitVec 16) : Prog Int :=
  .outb (port + 3) 0x80 <|
  .outb (port + 0) 0x03 <|
  .outb (port + 1) 0x00 <|
  .outb (port + 3) 0x03 <|
  .outb (port + 2) 0xC7 <|
  .outb (port + 4) 0x0B <|
  .outb (port + 4) 0x1E <|
  .outb (port + 0) 0xAE <|
  .inb (port + 0) fun b =>
    if b ≠ 0xAE then .ret 1 else .outb (port + 4) 0x0F (.ret 0)

/-- `init_serial` -/
def initSerial (port : BitVec 16) : Prog Int := .outb (port + 1) 0x00 (afterFirst port)

/-- `write_serial` -/
def writeSerial (port : BitVec 16) (a : BitVec 8) : Prog Unit :=
  .wait (port + 5) (fun status => status &&& 0x20 ≠ 0) (.outb port a (.ret ()))

/-- The loop of `write_serial_str` from index `i` on, for at most `n` characters. -/
def writeSerialFrom (port : BitVec 16) (str : CharBuffer) : Nat → Nat → Prog Unit
  | 0, _ => .ret ()
  | n + 1, i =>
    if str.data i = 0 then .ret ()
    else (writeSerial port (str.data i).toBitVec).bind fun _ => writeSerialFrom port str n (i + 1)

/-- `write_serial_str` -/
def writeSerialStr (port : BitVec 16) (str : CharBuffer) : Prog Unit := writeSerialFrom port str 256 0

/-- The kernel's log: `init_serial`, whose result nobody looks at, and one text. -/
def logText (str : CharBuffer) : Prog Int :=
  (initSerial portCom1).bind fun r => (writeSerialStr portCom1 str).bind fun _ => .ret r

/-! ## The outlines -/

variable {s t : Uart} {e : UartEvent} {L : List (BitVec 8)}

theorem own_cases (h : Uart.own e s = some t) :
    (∃ v, e = .transmit ∧ s.thr = some v ∧ s.loopback = true ∧ t = { s with thr := none, rbr := v }) ∨
      (∃ v, e = .transmit ∧ s.thr = some v ∧ s.loopback = false ∧
        t = { s with thr := none, line := s.line ++ [v] }) ∨
      ∃ b, e = .receive b ∧ s.loopback = false ∧ t = { s with rbr := b } := by
  cases e with
  | transmit =>
    simp only [Uart.own, Option.map_eq_some_iff] at h
    obtain ⟨v, hv, rfl⟩ := h
    cases hloop : s.loopback with
    | true => exact Or.inl ⟨v, rfl, hv, rfl, rfl⟩
    | false => exact Or.inr (Or.inl ⟨v, rfl, hv, rfl, rfl⟩)
  | receive b =>
    simp only [Uart.own] at h
    split at h
    next => cases h
    next hloop =>
      cases h
      exact Or.inr (Or.inr ⟨b, rfl, by simpa using hloop, rfl⟩)

/-- A byte in the holding register can be sent. -/
theorem own_transmit {v : BitVec 8} (h : s.thr = some v) : ∃ t, Uart.own .transmit s = some t ∧ t.thr = none := by
  simp only [Uart.own, h, Option.map_some]
  split
  · exact ⟨_, rfl, rfl⟩
  · exact ⟨_, rfl, rfl⟩

theorem lsr_and (s : Uart) : s.lsr &&& 0x20 ≠ 0 ↔ s.thr = none := by
  unfold Uart.lsr
  split
  · next h => simp [h]
  · next h => simp [h]

/-- Nothing is being sent. -/
def Quiet (L : List (BitVec 8)) (φ : Uart → Prop) (s : Uart) : Prop := s.thr = none ∧ s.line = L ∧ φ s

/-- Then only the receiver changes. -/
theorem Quiet.stable {φ : Uart → Prop}
    (hφ : ∀ s b, s.loopback = false → b ≠ 0xAE → φ s → φ { s with rbr := b }) :
    Stable uartRules (Quiet L φ) := by
  rintro s e t ⟨hthr, hline, hs⟩ hmay hown
  rcases own_cases hown with ⟨v, -, hv, -⟩ | ⟨v, -, hv, -⟩ | ⟨b, rfl, hloop, rfl⟩
  · rw [hthr] at hv
    cases hv
  · rw [hthr] at hv
    cases hv
  · exact ⟨hthr, hline, hφ s b hloop hmay hs⟩

/-- 38400 baud, 8 bits, no parity, one stop bit. -/
structure LineSet (s : Uart) : Prop where
  lcr : s.lcr = 0x03
  divisorLow : s.divisorLow = 0x03
  divisorHigh : s.divisorHigh = 0x00

theorem LineSet.dlab (h : LineSet s) : s.dlab = false := by
  rw [Uart.dlab, h.lcr]
  decide

/-- The byte of the test is on its way, or has come back. -/
structure Testing (L : List (BitVec 8)) (s : Uart) : Prop where
  lineSet : LineSet s
  mcr : s.mcr = 0x1E
  line : s.line = L
  test : (s.thr = some 0xAE ∧ s.rbr ≠ 0xAE) ∨ (s.thr = none ∧ s.rbr = 0xAE)

theorem loopback_of_test (h : s.mcr = 0x1E) : s.loopback = true := by
  rw [Uart.loopback, h]
  decide

theorem Testing.stable : Stable uartRules (Testing L) := by
  rintro s e t ⟨hset, hmcr, hline, htest⟩ - hown
  have hloop := loopback_of_test hmcr
  rcases own_cases hown with ⟨v, -, hv, -, rfl⟩ | ⟨v, -, -, hloop', -⟩ | ⟨b, -, hloop', -⟩
  · refine ⟨⟨hset.lcr, hset.divisorLow, hset.divisorHigh⟩, hmcr, hline, Or.inr ⟨rfl, ?_⟩⟩
    rcases htest with ⟨hthr, -⟩ | ⟨hthr, -⟩
    · rw [hv] at hthr
      exact Option.some.inj hthr
    · rw [hv] at hthr
      cases hthr
  · rw [hloop] at hloop'
    cases hloop'
  · rw [hloop] at hloop'
    cases hloop'

/-- What has become of a text, after the test has ended with `r`. -/
structure Logged (L text : List (BitVec 8)) (r : Int) (s : Uart) : Prop where
  lineSet : LineSet s
  sent : (r = 0 ∧ s.mcr = 0x0F ∧ s.line ++ s.thr.toList = L ++ text) ∨ (r = 1 ∧ s.mcr = 0x1E ∧ s.line = L)

theorem Logged.stable {text : List (BitVec 8)} {r : Int} : Stable uartRules (Logged L text r) := by
  rintro s e t ⟨hset, hsent⟩ - hown
  have hset' : ∀ thr rbr line, LineSet { s with thr := thr, rbr := rbr, line := line } :=
    fun _ _ _ => ⟨hset.lcr, hset.divisorLow, hset.divisorHigh⟩
  rcases own_cases hown with ⟨v, -, hv, hloop, rfl⟩ | ⟨v, -, hv, hloop, rfl⟩ | ⟨b, -, hloop, rfl⟩
  · refine ⟨hset' _ _ _, hsent.imp_left fun ⟨_, hmcr, _⟩ => ?_⟩
    rw [Uart.loopback, hmcr] at hloop
    cases hloop
  · refine ⟨hset' _ _ _, ?_⟩
    rcases hsent with ⟨hr, hmcr, hline⟩ | ⟨-, hmcr, -⟩
    · rw [hv] at hline
      exact Or.inl ⟨hr, hmcr, by rw [← hline]; simp⟩
    · rw [loopback_of_test hmcr] at hloop
      cases hloop
  · exact ⟨hset' _ _ _, hsent⟩

/-- `write_serial` waits until the holding register is empty. -/
theorem outline_writeSerial {text : List (BitVec 8)} {r : Int} (a : BitVec 8) :
    Outline uartRules (writeSerial portCom1 a) (Logged L text r) fun _ => Logged L (text ++ [a]) r := by
  refine ⟨Logged L text r, fun s => Logged L text r s ∧ s.thr = none, Logged.stable, ?_, fun _ h => h,
    fun s hs => ?_, Logged L (text ++ [a]) r, Logged.stable, ?_, fun _ h => h⟩
  · rintro s e t ⟨hs, hthr⟩ hmay hown
    refine ⟨Logged.stable s e t hs hmay hown, ?_⟩
    rcases own_cases hown with ⟨v, -, -, -, rfl⟩ | ⟨v, -, -, -, rfl⟩ | ⟨b, -, -, rfl⟩
    · rfl
    · rfl
    · exact hthr
  · cases hthr : s.thr with
    | none => exact Or.inl ⟨decide_eq_true ((lsr_and s).mpr hthr), hs, hthr⟩
    | some v =>
      have hnot : ¬ s.lsr &&& 0x20 ≠ 0 := mt (lsr_and s).mp (by rw [hthr]; exact Option.some_ne_none v)
      obtain ⟨t, ht, htthr⟩ := own_transmit hthr
      exact Or.inr ⟨decide_eq_false hnot, hs, .transmit, t, trivial, ht, decide_eq_true ((lsr_and t).mpr htthr)⟩
  · rintro s ⟨⟨hset, hsent⟩, hthr⟩
    have hout : uartRules.outb portCom1 a s = { s with thr := some a } := by
      show (if s.dlab then _ else _) = _
      rw [hset.dlab]
      rfl
    refine ⟨fun _ => Or.inr hthr, ?_⟩
    rw [hout]
    refine ⟨⟨hset.lcr, hset.divisorLow, hset.divisorHigh⟩, hsent.imp_left fun ⟨hr, hmcr, hline⟩ => ⟨hr, hmcr, ?_⟩⟩
    rw [hthr, Option.toList_none, List.append_nil] at hline
    rw [Option.toList_some, hline, List.append_assoc]

/-- A register is set while nothing is sent. -/
theorem outline_setup {φ : Uart → Prop} (φ' : Uart → Prop) {p : BitVec 16} {v : BitVec 8} {rest : Prog Int}
    {Q : Int → Uart → Prop} (hφ : ∀ s b, s.loopback = false → b ≠ 0xAE → φ' s → φ' { s with rbr := b })
    (hset : ∀ s, s.thr = none → φ s → (Uart.outb portCom1 p v s).thr = none ∧
      (Uart.outb portCom1 p v s).line = s.line ∧ φ' (Uart.outb portCom1 p v s))
    (hrest : Outline uartRules rest (Quiet L φ') Q) : Outline uartRules (.outb p v rest) (Quiet L φ) Q := by
  refine ⟨Quiet L φ', Quiet.stable hφ, fun s ⟨hthr, hline, hs⟩ => ⟨fun _ => Or.inr hthr, ?_⟩, hrest⟩
  obtain ⟨hthr', hline', hs'⟩ := hset s hthr hs
  exact ⟨hthr', hline'.trans hline, hs'⟩

/-- The second register, whichever it is. -/
theorem outb_one (v : BitVec 8) (s : Uart) : Uart.outb portCom1 (portCom1 + 1) v s =
    if s.dlab then { s with divisorHigh := v } else { s with ier := v } := rfl

theorem outb_zero (v : BitVec 8) (s : Uart) : Uart.outb portCom1 (portCom1 + 0) v s =
    if s.dlab then { s with divisorLow := v } else { s with thr := some v } := rfl

theorem dlab_of_lcr (h : s.lcr = 0x80) : s.dlab = true := by
  rw [Uart.dlab, h]
  decide

/-- The test, up to the byte that is sent. -/
structure Looped (s : Uart) : Prop where
  lineSet : LineSet s
  mcr : s.mcr = 0x1E
  rbr : s.rbr ≠ 0xAE

/-- **The assertions of `init_serial`.** -/
theorem outline_initSerial :
    Outline uartRules (initSerial portCom1) (Quiet L fun _ => True) (Logged L []) := by
  refine outline_setup (fun _ => True) (fun _ _ _ _ _ => trivial) (fun s hthr _ => ?_) ?_
  · rw [outb_one]
    split <;> exact ⟨hthr, rfl, trivial⟩
  refine outline_setup (fun s => s.lcr = 0x80) (fun _ _ _ _ h => h) (fun s hthr _ => ⟨hthr, rfl, rfl⟩) ?_
  refine outline_setup (fun s => s.lcr = 0x80 ∧ s.divisorLow = 0x03) (fun _ _ _ _ h => h)
    (fun s hthr hlcr => ?_) ?_
  · rw [outb_zero, dlab_of_lcr hlcr]
    exact ⟨hthr, rfl, hlcr, rfl⟩
  refine outline_setup (fun s => s.divisorLow = 0x03 ∧ s.divisorHigh = 0x00) (fun _ _ _ _ h => h)
    (fun s hthr ⟨hlcr, hlow⟩ => ?_) ?_
  · rw [outb_one, dlab_of_lcr hlcr]
    exact ⟨hthr, rfl, hlow, rfl⟩
  refine outline_setup LineSet (fun _ _ _ _ h => ⟨h.lcr, h.divisorLow, h.divisorHigh⟩)
    (fun s hthr ⟨hlow, hhigh⟩ => ⟨hthr, rfl, rfl, hlow, hhigh⟩) ?_
  -- the receiver is cleared
  have hreceive : ∀ (s : Uart) (b : BitVec 8), s.loopback = false → b ≠ 0xAE → LineSet s ∧ s.rbr ≠ 0xAE →
      LineSet { s with rbr := b } ∧ ({ s with rbr := b } : Uart).rbr ≠ 0xAE :=
    fun s b _ hb h => ⟨⟨h.1.lcr, h.1.divisorLow, h.1.divisorHigh⟩, hb⟩
  refine outline_setup (fun s => LineSet s ∧ s.rbr ≠ 0xAE) hreceive (fun s hthr hs =>
    ⟨rfl, rfl, ⟨hs.lcr, hs.divisorLow, hs.divisorHigh⟩, fun h => absurd (show (0 : BitVec 8) = 0xAE from h)
      (by decide)⟩) ?_
  refine outline_setup (fun s => LineSet s ∧ s.rbr ≠ 0xAE) hreceive (fun s hthr hs =>
    ⟨hthr, rfl, ⟨hs.1.lcr, hs.1.divisorLow, hs.1.divisorHigh⟩, hs.2⟩) ?_
  refine outline_setup Looped (fun s b hloop _ h => ?_) (fun s hthr hs =>
    ⟨hthr, rfl, ⟨hs.1.lcr, hs.1.divisorLow, hs.1.divisorHigh⟩, rfl, hs.2⟩) ?_
  · rw [loopback_of_test h.mcr] at hloop
    cases hloop
  refine ⟨Testing L, Testing.stable, fun s ⟨hthr, hline, hs⟩ => ⟨fun _ => Or.inr hthr, ?_⟩, ?_⟩
  · show Testing L (Uart.outb portCom1 (portCom1 + 0) 0xAE s)
    rw [outb_zero, hs.lineSet.dlab]
    exact ⟨⟨hs.lineSet.lcr, hs.lineSet.divisorLow, hs.lineSet.divisorHigh⟩, hs.mcr, hline, Or.inl ⟨rfl, hs.rbr⟩⟩
  -- what is read is the byte of the test only once that has come back
  refine ⟨fun b s => Testing L s ∧ (b = 0xAE → s.thr = none), fun b => ?_, fun s hs => ⟨hs, fun hb => ?_⟩,
    fun b => ?_⟩
  · rintro s e t ⟨hs, hb⟩ hmay hown
    refine ⟨Testing.stable s e t hs hmay hown, fun h => ?_⟩
    rcases own_cases hown with ⟨v, -, -, -, rfl⟩ | ⟨v, -, -, -, rfl⟩ | ⟨b, -, -, rfl⟩
    · rfl
    · rfl
    · exact hb h
  · have hread : (if s.dlab then s.divisorLow else s.rbr) = 0xAE := hb
    rw [hs.lineSet.dlab] at hread
    rcases hs.test with ⟨-, hrbr⟩ | ⟨hthr, -⟩
    · exact absurd hread hrbr
    · exact hthr
  · by_cases hb : b = 0xAE
    · show Outline uartRules (if b ≠ 0xAE then _ else _) _ _
      rw [if_neg (not_not.mpr hb)]
      refine ⟨Logged L [] 0, Logged.stable, fun s ⟨hs, hthr⟩ => ⟨fun h => absurd h (by decide), ?_⟩,
        fun _ h => h⟩
      refine ⟨⟨hs.lineSet.lcr, hs.lineSet.divisorLow, hs.lineSet.divisorHigh⟩, Or.inl ⟨rfl, rfl, ?_⟩⟩
      show s.line ++ s.thr.toList = L ++ []
      rw [hthr hb, hs.line]
      rfl
    · show Outline uartRules (if b ≠ 0xAE then _ else _) _ _
      rw [if_pos hb]
      exact fun s ⟨hs, _⟩ => ⟨hs.lineSet, Or.inr ⟨rfl, hs.mcr, hs.line⟩⟩

/-! ## The text -/

/-- The string from an index on. -/
def rest (str : CharBuffer) (n i : Nat) : List (BitVec 8) :=
  ((str.slice i n).takeWhile (· ≠ 0)).map UInt8.toBitVec

theorem slice_succ (str : CharBuffer) (i n : Nat) :
    str.slice i (n + 1) = str.data i :: str.slice (i + 1) n := by
  rw [Nat.add_comm n 1, Buffer.slice_add, Buffer.slice_one]
  rfl

/-- **The assertions of `write_serial_str`.** -/
theorem outline_writeSerialFrom {r : Int} (str : CharBuffer) (n : Nat) : ∀ (i : Nat) (text : List (BitVec 8)),
    Outline uartRules (writeSerialFrom portCom1 str n i) (Logged L text r) fun _ =>
      Logged L (text ++ rest str n i) r := by
  induction n with
  | zero =>
    intro i text s hs
    rwa [rest, Buffer.slice, List.range_zero, List.map_nil, List.takeWhile_nil, List.map_nil, List.append_nil]
  | succ n ih =>
    intro i text
    rw [writeSerialFrom]
    by_cases hzero : str.data i = 0
    · rw [if_pos hzero]
      intro s hs
      have hrest : rest str (n + 1) i = [] := by
        rw [rest, slice_succ, hzero]
        rfl
      rwa [hrest, List.append_nil]
    · rw [if_neg hzero]
      have hrest : text ++ rest str (n + 1) i = text ++ [(str.data i).toBitVec] ++ rest str n (i + 1) := by
        rw [rest, slice_succ, List.takeWhile_cons_of_pos (by simpa using hzero), List.append_assoc]
        rfl
      rw [hrest]
      exact (outline_writeSerial _).bind fun _ => ih (i + 1) _

theorem outline_writeSerialStr {r : Int} (str : CharBuffer) :
    Outline uartRules (writeSerialStr portCom1 str) (Logged L [] r) fun _ =>
      Logged L ((BloreOs.writeSerialStr str).map UInt8.toBitVec) r := outline_writeSerialFrom str 256 0 []

theorem outline_logText (str : CharBuffer) : Outline uartRules (logText str) (Quiet L fun _ => True)
    (Logged L ((BloreOs.writeSerialStr str).map UInt8.toBitVec)) :=
  outline_initSerial.bind fun _ => (outline_writeSerialStr str).bind fun _ _ hs => hs

/--
**The log on the line.** Whatever the chip's registers hold, if it is not sending, and as long as the
test byte `0xAE` does not come in from outside: `init_serial` and then `write_serial_str` never write into
a full holding register, and they can always end. If the test of `init_serial` has succeeded the whole
text is then on the line or in the holding register, at 38400 baud, and otherwise, with the chip in
loopback mode, none of it gets there.
-/
theorem serial_log (s : Uart) (hthr : s.thr = none) (str : CharBuffer) (es : List (Step UartEvent))
    {y : Prog Int × Uart} (hrun : RunIf (step uartRules.toDevice) (Obeys uartRules) es (logText str, s) y) :
    Allowed uartRules y ∧
      (∀ r t, y = (.ret r, t) → LineSet t ∧
        ((r = 0 ∧ t.line ++ t.thr.toList = s.line ++ (BloreOs.writeSerialStr str).map UInt8.toBitVec) ∨
          (r = 1 ∧ t.loopback = true ∧ t.line = s.line))) ∧
      ∃ es' r t, RunIf (step uartRules.toDevice) (Obeys uartRules) es' y (.ret r, t) := by
  have hkeeps := outline_run (outline_logText str) (Quiet.stable fun _ _ _ _ h => h) ⟨hthr, rfl, trivial⟩ es hrun
  refine ⟨hkeeps.allowed, fun r t hy => ?_, ?_⟩
  · subst hy
    obtain ⟨hset, hsent⟩ := hkeeps.post
    exact ⟨hset, hsent.imp (fun ⟨hr, _, hline⟩ => ⟨hr, hline⟩)
      fun ⟨hr, hmcr, hline⟩ => ⟨hr, loopback_of_test hmcr, hline⟩⟩
  · obtain ⟨es', r, t, hrun', -⟩ := outline_completes hkeeps
    exact ⟨es', r, t, hrun'⟩

/-- If the chip does nothing on its own in the meantime, the test fails. -/
theorem initSerial_too_early (s : Uart) : ∃ t, run (step uartRules.toDevice) (List.replicate 10 .driver)
    (initSerial portCom1, s) = some (.ret 1, t) ∧ t.loopback = true := by
  -- the first register may be that of the divisor or that of the interrupts
  generalize hu : Uart.outb portCom1 (portCom1 + 1) 0 s = u
  have hrun : run (step uartRules.toDevice) (List.replicate 10 .driver) (initSerial portCom1, s) =
      run (step uartRules.toDevice) (List.replicate 9 .driver) (afterFirst portCom1, u) := by
    rw [← hu]
    rfl
  obtain ⟨thr, rbr, ier, lcr, mcr, divisorLow, divisorHigh, line⟩ := u
  rw [hrun]
  refine ⟨⟨some 0xAE, 0, ier, 0x03, 0x1E, 0x03, 0x00, line⟩, ?_, loopback_of_test rfl⟩
  simp [run, step, afterFirst, uartRules, Uart.outb, Uart.inb, Uart.dlab, portCom1, List.replicate]

/-- A chip after a reset. -/
def sampleUart : Uart := ⟨none, 0, 0, 0, 0, 0, 0, []⟩

/-- The test comes too early: the byte has not come back when it is looked for. -/
theorem serial_log_sample : ∃ y, RunIf (step uartRules.toDevice) (Obeys uartRules)
    (List.replicate 10 .driver) (logText ⟨fun _ => 0x41, 0⟩, sampleUart) y ∧ Allowed uartRules y ∧
      ∃ es' r t, RunIf (step uartRules.toDevice) (Obeys uartRules) es' y (.ret r, t) := by
  have hrun : RunIf (step uartRules.toDevice) (Obeys uartRules) (List.replicate 10 .driver)
      (logText ⟨fun _ => 0x41, 0⟩, sampleUart) _ :=
    ⟨trivial, _, rfl, trivial, _, rfl, trivial, _, rfl, trivial, _, rfl, trivial, _, rfl,
      trivial, _, rfl, trivial, _, rfl, trivial, _, rfl, trivial, _, rfl, trivial, _, rfl, rfl⟩
  obtain ⟨hallowed, -, hend⟩ := serial_log sampleUart rfl ⟨fun _ => 0x41, 0⟩ (List.replicate 10 .driver) hrun
  exact ⟨_, hrun, hallowed, hend⟩

end BloreOs.Serial
