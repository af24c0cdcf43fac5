import BloreOs.Ps2
import BloreOs.Str.Log

/-!
# The terminal (`terminal.c`)

A `Device` is what the boot loader provides: the frame buffer's geometry and the font. A `Terminal`
holds the variables of `terminal.c` that change after `term_init`.

Pixels are 32 bits wide, and all pointers into the frame buffer point to pixels, so the frame buffer
is a buffer of pixels and a count of bytes is divided by 4. Its extent says how far it has been
accessed; nothing keeps the code from accessing pixels that are not there.
-/

namespace BloreOs

open Loop Buffer CharBuffer

/-- `a + b` in `uint32_t`. -/
def add32 (a b : Nat) : Nat := (a + b) % 2 ^ 32

/-- `a - b` in `uint32_t`. -/
def sub32 (a b : Nat) : Nat := (a + (2 ^ 32 - b % 2 ^ 32)) % 2 ^ 32

theorem add32_eq {a b : Nat} (h : a + b < 2 ^ 32) : add32 a b = a + b := Nat.mod_eq_of_lt h

theorem sub32_eq {a b : Nat} (h : b ≤ a) (ha : a < 2 ^ 32) : sub32 a b = a - b := by
  unfold sub32
  omega

/-- The frame buffer's geometry (`struct limine_framebuffer`) and the font: the height of its
characters (`font_header->char_height`) and its `glyph_data`. -/
structure Device where
  width : Nat
  height : Nat
  pitch : Nat
  charHeight : UInt8
  glyphData : Nat → UInt8

namespace Device

/-- `glyph_height` -/
def glyphHeight (d : Device) : Nat := d.charHeight.toNat + 1

/-- `max_rows` -/
def maxRows (d : Device) : Nat := d.height / (d.charHeight.toNat + 1) % 2 ^ 32

/-- `max_cols` -/
def maxCols (d : Device) : Nat := d.width / 9 % 2 ^ 32

/-- Pixels from one row to the next, `frame_buffer->pitch / 4`. -/
def stride (d : Device) : Nat := d.pitch / 4

end Device

/-- `glyph_width` -/
def glyphWidth : Nat := 9

/-- `TERM_DEFAULT_FGCOLOR` -/
def termDefaultFgcolor : UInt32 := 0xCCCCCC

/-- `TERM_CURSOR_COLOR` -/
def termCursorColor : UInt32 := 0xFFFFFF

/-- The variables of `terminal.c`. -/
structure Terminal where
  fb : Buffer UInt32
  isReady : Bool
  fgcolor : UInt32
  bgcolor : UInt32
  renderX : Nat
  renderY : Nat
  inputRenderX : Nat
  inputRenderY : Nat
  cursorX : Nat
  cursorY : Nat
  inputStr : CharBuffer
  cursorVisible : Bool

/-! ## Drawing -/

/-- `fbindex`. The arguments are cut to 32 bits, and so is the result. -/
def fbindex (d : Device) (x y : Nat) : Nat :=
  add64 (mul64 (y % 2 ^ 32) d.stride) (x % 2 ^ 32) % 2 ^ 32

/-- `memset(&fb[blank_start], 0x00, (char*)&fb[blank_end] - (char*)&fb[blank_start])` -/
def blank (fb : Buffer UInt32) (blankStart blankEnd : Nat) : Buffer UInt32 :=
  fb.fill blankStart (sub64 (4 * blankEnd) (4 * blankStart) / 4) 0

/-- `_clear_screen` -/
def clearScreen (d : Device) (fb : Buffer UInt32) : Buffer UInt32 :=
  blank fb (fbindex d 0 0) (fbindex d d.width d.height)

/-- `_put_pixel` -/
def putPixel (d : Device) (x y : Nat) (color : UInt32) (fb : Buffer UInt32) : Buffer UInt32 :=
  fb.write (fbindex d x y) color

/-- `_shift_screen_up` -/
def shiftScreenUp (d : Device) (fb : Buffer UInt32) : Buffer UInt32 :=
  let startPixelIndex := fbindex d 0 d.glyphHeight
  let endPixelIndex := fbindex d d.width d.height
  let fb := fb.move 0 startPixelIndex (sub64 (4 * endPixelIndex) (4 * startPixelIndex) / 4)
  blank fb (fbindex d 0 (sub64 d.height d.glyphHeight)) (fbindex d d.width d.height)

/-- Where the glyph of a character starts in `glyph_data`. A `char` is signed. -/
def dataIndex (d : Device) (ch : UInt8) : Nat :=
  if ch < 128 then ch.toNat * d.charHeight.toNat
  else sub32 0 ((256 - ch.toNat) * d.charHeight.toNat)

/-- Bit `bitIndex` of row `glyphRow` of a glyph. -/
def glyphBit (d : Device) (ch : UInt8) (glyphRow bitIndex : Nat) : Bool :=
  (d.glyphData (add32 (dataIndex d ch) glyphRow)).toNat.testBit bitIndex

/-- `_render_glyph` -/
def renderGlyph (d : Device) (fgcolor bgcolor : UInt32) (ch : UInt8) (x y : Nat)
    (fb : Buffer UInt32) : Buffer UInt32 :=
  (List.range d.charHeight.toNat).foldl (fun fb glyphRow =>
    (List.range 8).foldl (fun fb bitIndex =>
      putPixel d (x + (8 - bitIndex)) (y + glyphRow)
        (if glyphBit d ch glyphRow bitIndex then fgcolor else bgcolor) fb) fb) fb

/-- A vertical line, as the two cursor functions draw it. -/
def drawCursor (d : Device) (x y : Nat) (color : UInt32) (fb : Buffer UInt32) : Buffer UInt32 :=
  (List.range d.glyphHeight).foldl (fun fb i => putPixel d x (y + i) color fb) fb

/-- `_clear_cursor` -/
def clearCursor (d : Device) (t : Terminal) : Terminal :=
  { t with fb := drawCursor d t.cursorX t.cursorY t.bgcolor t.fb }

/-- `_render_cursor` -/
def renderCursor (d : Device) (t : Terminal) : Terminal :=
  if t.cursorVisible then
    { t with
      fb := drawCursor d t.inputRenderX t.inputRenderY termCursorColor t.fb
      cursorX := t.inputRenderX
      cursorY := t.inputRenderY }
  else t

/-- One character of the prompt. -/
def renderPromptChar (d : Device) (t : Terminal) (ch : UInt8) : Terminal :=
  { t with
    fb := renderGlyph d t.fgcolor t.bgcolor ch t.inputRenderX t.inputRenderY t.fb
    inputRenderX := add32 t.inputRenderX glyphWidth }

/-- `_render_input_line` -/
def renderInputLine (d : Device) (t : Terminal) : Terminal :=
  let t := { t with
    inputRenderX := 0
    inputRenderY := if 0 < t.renderX then add32 t.renderY d.glyphHeight else t.renderY
    fgcolor := 0x44AAFF }
  let t := [chr '#', chr ' '].foldl (renderPromptChar d) t
  renderCursor d { t with fgcolor := termDefaultFgcolor }

/-- Blank the line of the output. -/
def blankLine (d : Device) (t : Terminal) : Terminal :=
  { t with
    fb := blank t.fb (fbindex d 0 t.renderY) (fbindex d d.width (add32 t.renderY d.glyphHeight)) }

/-- Blank the line of the output if nothing is written in it yet, as `tprintf` and
`_move_to_next_line` do first. -/
def blankUnwritten (d : Device) (t : Terminal) : Terminal :=
  if t.renderX = 0 then blankLine d t else t

/-- The bottom of the screen, in `_move_to_next_line`. -/
def scroll (d : Device) (t : Terminal) : Terminal :=
  if sub64 d.height d.glyphHeight < t.renderY then
    { t with fb := shiftScreenUp d t.fb, renderY := sub32 t.renderY d.glyphHeight }
  else t

/-- `_move_to_next_line` -/
def moveToNextLine (d : Device) (t : Terminal) : Terminal :=
  let t := blankUnwritten d t
  let t := scroll d { t with renderX := 0, renderY := add32 t.renderY d.glyphHeight }
  renderInputLine d (blankLine d t)

/-! ## Printing -/

/-- The loop body of `tprintf`. -/
def printChar (d : Device) (t : Terminal) (ch : UInt8) : Terminal :=
  if ch = chr '\n' then moveToNextLine d t
  else
    let t := { t with
      fb := renderGlyph d t.fgcolor t.bgcolor ch t.renderX t.renderY t.fb
      renderX := add32 t.renderX 9 }
    if sub64 d.width glyphWidth < t.renderX then moveToNextLine d t else t

/-- The condition of the loop of `tprintf`, at character `k`. -/
def untilNul (buffer : CharBuffer) (k : Nat) : Nat ⊕ Nat :=
  if buffer.data k = 0 then .inr k else .inl (k + 1)

/-- The characters that the loop of `tprintf` prints from its buffer: the first one, whatever it is,
and all up to a NUL. `none` means that no NUL follows. -/
def bufferChars (buffer : CharBuffer) : Option (List UInt8) :=
  (loop (untilNul buffer) (2 ^ 64) 1).map (buffer.slice 0)

/-- A call of `tprintf`, with what is on the stack. -/
structure TprintfCall where
  format : List UInt8
  args : List Arg
  stack : Nat → UInt8

/-- The buffer of a call. A text that is written behind its 256 bytes overwrites the stack frame of
`tprintf`, the return address included, so the call does not come back: `none`. -/
def TprintfCall.buffer (call : TprintfCall) : Option CharBuffer :=
  (formatted call.format call.args call.stack).filter fun b => b.extent ≤ 256

theorem TprintfCall.buffer_eq_some_iff {call : TprintfCall} {b : CharBuffer} :
    call.buffer = some b ↔
      formatted call.format call.args call.stack = some b ∧ b.extent ≤ 256 := by
  rw [TprintfCall.buffer, Option.filter_eq_some_iff, decide_eq_true_iff]

/-- The characters that a call prints. -/
def TprintfCall.chars (call : TprintfCall) : Option (List UInt8) := call.buffer.bind bufferChars

/-- Print characters from the current position on. -/
def printChars (d : Device) (t : Terminal) (cs : List UInt8) : Terminal :=
  cs.foldl (printChar d) (blankUnwritten d t)

/-- `tprintf` -/
def tprintf (d : Device) (t : Terminal) (call : TprintfCall) : Option Terminal :=
  if t.isReady then call.chars.map (printChars d t) else some t

/-- `term_clear` -/
def termClear (d : Device) (t : Terminal) : Terminal :=
  renderInputLine d { t with
    fb := clearScreen d t.fb
    renderX := 0
    renderY := 0
    inputRenderX := 0
    inputRenderY := 0
    cursorX := 0
    cursorY := 0 }

/-- The variables before `term_init`. The frame buffer holds what the boot loader left there. -/
def Terminal.boot (pixels : Nat → UInt32) : Terminal where
  fb := ⟨pixels, 0⟩
  isReady := false
  fgcolor := termDefaultFgcolor
  bgcolor := 0
  renderX := 0
  renderY := 0
  inputRenderX := 0
  inputRenderY := 0
  cursorX := 0
  cursorY := 0
  inputStr := ⟨fun _ => 0, 0⟩
  cursorVisible := false

/-- `term_init`. What it logs reaches COM1 only, since the terminal is not ready yet. -/
def termInit (d : Device) (t : Terminal) : Terminal :=
  { renderInputLine d t with isReady := true }

end BloreOs
