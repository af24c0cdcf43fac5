import BloreOs.Terminal.Bounds

/-!
# Typing (`term_keyevent`)

The input is held twice: as text in `input_str`, and as the column behind the prompt where the next
character goes. Keys change both, printing changes the column only.

* `termKeyevent_cases` — the four things that a key event can do,
* `enterKey_inputStr` — after a command the text is empty.
-/

namespace BloreOs

open Loop Buffer CharBuffer

/-! ## The functions -/

/-- The loop of `strlen`, with `n` iterations left. -/
def strlenFrom (str : CharBuffer) : Nat → Nat → Nat
  | 0, _ => 2 ^ 64 - 1
  | n + 1, i => if str.data i = 0 then i else strlenFrom str n (i + 1)

/-- `strlen`. It gives up after 65535 characters. -/
def strlen (str : CharBuffer) : Nat := strlenFrom str 65535 0

/-- `strcmp`, from index `i` of the first string on. A string is equal to its prefixes. -/
def strcmpFrom (l : CharBuffer) : Nat → List UInt8 → Int
  | _, [] => 0
  | i, c :: r => if l.data i = 0 then 0 else if l.data i ≠ c then -1 else strcmpFrom l (i + 1) r

/-- `strcmp` -/
def strcmp (l : CharBuffer) (r : List UInt8) : Int := strcmpFrom l 0 r

/-- The characters of a string constant. -/
def bytes (s : String) : List UInt8 := s.toList.map chr

/-- What a key event finds: the stack at each of its calls of `tprintf`, and `kernel_timer_secs`. -/
structure Env where
  stack : Nat → Nat → UInt8
  timer : BitVec 64

/-- A call with a format and arguments. -/
def Env.call (env : Env) (k : Nat) (format : List UInt8) (args : List Arg) : TprintfCall :=
  ⟨format ++ [0], args, env.stack k⟩

/-- `_handle_cmd` -/
def handleCmd (d : Device) (env : Env) (t : Terminal) : Option Terminal :=
  if strcmp t.inputStr (bytes "hello") = 0 then tprintf d t (env.call 3 (bytes "World!\n") [])
  else if strcmp t.inputStr (bytes "cls") = 0 then some (termClear d t)
  else if strcmp t.inputStr (bytes "time") = 0 then
    tprintf d t (env.call 3 (bytes "Kerner Time: %lums\n") [.long env.timer])
  else if strcmp t.inputStr (bytes "stime") = 0 then
    tprintf d t (env.call 3 (bytes "Kerner Time: %lus\n") [.long (env.timer / 1000)])
  else tprintf d t (env.call 3 (bytes "Unknown command.\n") [])

/-- The enter key. The text is the format of its own echo. -/
def enterKey (d : Device) (env : Env) (t : Terminal) : Option Terminal :=
  (tprintf d t (env.call 0 (bytes "# ") [])).bind fun t =>
    (tprintf d t ⟨t.inputStr.slice 0 256, [], env.stack 1⟩).bind fun t =>
      (tprintf d t (env.call 2 (bytes "\n") [])).bind fun t =>
        (handleCmd d env t).map fun t => { t with inputStr := t.inputStr.write 0 0 }

/-- The backspace key, if there is something to erase. -/
def eraseChar (d : Device) (t : Terminal) : Terminal :=
  let t := { t with inputStr := t.inputStr.write (sub64 (strlen t.inputStr) 1) 0 }
  let t := clearCursor d t
  let fb := (List.range d.glyphHeight).foldl (fun fb y =>
    blank fb (fbindex d (sub32 t.inputRenderX glyphWidth) (t.inputRenderY + y))
      (fbindex d t.inputRenderX (t.inputRenderY + y))) t.fb
  renderCursor d { t with fb := fb, inputRenderX := sub32 t.inputRenderX glyphWidth }

/-- A character key. -/
def appendChar (d : Device) (ascii : UInt8) (t : Terminal) : Terminal :=
  let t := { t with
    fb := renderGlyph d t.fgcolor t.bgcolor ascii t.inputRenderX t.inputRenderY t.fb
    inputRenderX := add32 t.inputRenderX glyphWidth }
  let len := strlen t.inputStr
  let t := { t with inputStr := (t.inputStr.write len ascii).write (add64 len 1) 0 }
  renderCursor d (clearCursor d t)

/-- `term_keyevent` -/
def termKeyevent (d : Device) (env : Env) (ke : KeyEvent) (t : Terminal) : Option Terminal :=
  if ke.eventType = ps2Keydown ∧ ke.scanCode = ps2ScancodeEnter then enterKey d env t
  else if (ke.eventType = ps2Keydown ∧ ke.scanCode = ps2ScancodeBackspace) ∧ t.inputStr.data 0 ≠ 0 then
    some (eraseChar d t)
  else if ke.eventType = 0 ∧ ke.ascii ≠ 0 then some (appendChar d ke.ascii t)
  else some t

variable {d : Device} {t t' : Terminal} {env : Env} {ke : KeyEvent}

/-! ## Printing does not touch the text -/

theorem printChars_sameMode (d : Device) (t : Terminal) (cs : List UInt8) :
    SameMode t (printChars d t cs) := by
  obtain ⟨fb, hfb⟩ := blankUnwritten_eq d t
  have hblank : SameMode t (blankUnwritten d t) := by
    rw [hfb]
    exact ⟨rfl, rfl, rfl, rfl⟩
  exact List.foldlRecOn (motive := SameMode t) cs _ hblank fun t' ht' c _ =>
    ht'.trans (printChar_sameMode d t' c)

theorem tprintf_sameMode {call : TprintfCall} (h : tprintf d t call = some t') :
    SameMode t t' := by
  rw [tprintf] at h
  split at h
  · obtain ⟨cs, -, rfl⟩ := Option.map_eq_some_iff.mp h
    exact printChars_sameMode d t cs
  · cases h
    exact SameMode.rfl

theorem termClear_sameMode (d : Device) (t : Terminal) : SameMode t (termClear d t) := by
  have hclear : SameMode t { t with
      fb := clearScreen d t.fb, renderX := 0, renderY := 0, inputRenderX := 0, inputRenderY := 0
      cursorX := 0, cursorY := 0 } := ⟨rfl, rfl, rfl, rfl⟩
  exact hclear.trans (renderInputLine_sameMode d _)

theorem handleCmd_sameMode (h : handleCmd d env t = some t') : SameMode t t' := by
  unfold handleCmd at h
  split at h
  · exact tprintf_sameMode h
  split at h
  · cases h
    exact termClear_sameMode d t
  split at h
  · exact tprintf_sameMode h
  split at h
  · exact tprintf_sameMode h
  · exact tprintf_sameMode h

/-- The text after the enter key. -/
theorem enterKey_inputStr (h : enterKey d env t = some t') :
    t'.inputStr = t.inputStr.write 0 0 ∧ t'.isReady = t.isReady := by
  obtain ⟨t₁, h1, h⟩ := Option.bind_eq_some_iff.mp h
  obtain ⟨t₂, h2, h⟩ := Option.bind_eq_some_iff.mp h
  obtain ⟨t₃, h3, h⟩ := Option.bind_eq_some_iff.mp h
  obtain ⟨t₄, h4, rfl⟩ := Option.map_eq_some_iff.mp h
  have hmode := (((tprintf_sameMode h1).trans (tprintf_sameMode h2)).trans (tprintf_sameMode h3)).trans
    (handleCmd_sameMode h4)
  exact ⟨by rw [← hmode.input], hmode.ready⟩

/-! ## Keys -/

theorem eraseChar_eq (d : Device) (t : Terminal) : ∃ fb x y, eraseChar d t = { t with
    fb := fb, cursorX := x, cursorY := y
    inputStr := t.inputStr.write (sub64 (strlen t.inputStr) 1) 0
    inputRenderX := sub32 t.inputRenderX glyphWidth } := by
  simp only [eraseChar]
  obtain ⟨fb, x, y, h⟩ := renderCursor_eq d _
  rw [h]
  exact ⟨fb, x, y, rfl⟩

theorem appendChar_eq (d : Device) (c : UInt8) (t : Terminal) : ∃ fb x y, appendChar d c t = { t with
    fb := fb, cursorX := x, cursorY := y
    inputStr := (t.inputStr.write (strlen t.inputStr) c).write (add64 (strlen t.inputStr) 1) 0
    inputRenderX := add32 t.inputRenderX glyphWidth } := by
  simp only [appendChar]
  obtain ⟨fb, x, y, h⟩ := renderCursor_eq d _
  rw [h]
  exact ⟨fb, x, y, rfl⟩

/-- The event appends a character to the line. -/
def KeyEvent.Types (ke : KeyEvent) : Prop :=
  ke.eventType = ps2Keydown ∧ ke.scanCode ≠ ps2ScancodeEnter ∧ ke.ascii ≠ 0

instance (ke : KeyEvent) : Decidable ke.Types := inferInstanceAs (Decidable (_ ∧ _))

/-- The line that an editor holds after an event. -/
def editLine (line : List UInt8) (ke : KeyEvent) : List UInt8 :=
  if ke.eventType = ps2Keydown then
    if ke.scanCode = ps2ScancodeEnter then []
    else if ke.scanCode = ps2ScancodeBackspace then line.dropLast
    else if ke.ascii ≠ 0 then line ++ [ke.ascii]
    else line
  else line

/-- The backspace key types nothing. -/
theorem backspace_ascii (hke : ke ∈ keyMap) (hdown : ke.eventType = ps2Keydown)
    (hback : ke.scanCode = ps2ScancodeBackspace) : ke.ascii = 0 := by
  have hall : keyMap.all (fun ke => !(ke.eventType = ps2Keydown ∧
      ke.scanCode = ps2ScancodeBackspace : Bool) || ke.ascii = 0) = true := by rfl
  have h := List.all_eq_true.mp hall ke hke
  simpa [hdown, hback] using h

theorem KeyEvent.Types.editLine_eq (h : ke.Types) (hke : ke ∈ keyMap) (line : List UInt8) :
    editLine line ke = line ++ [ke.ascii] := by
  obtain ⟨hdown, henter, hascii⟩ := h
  have hback : ¬ ke.scanCode = ps2ScancodeBackspace := fun hback =>
    hascii (backspace_ascii hke hdown hback)
  rw [editLine, if_pos hdown, if_neg henter, if_neg hback, if_pos hascii]

/-- **The four things that a key event can do**, to the terminal and to the line. -/
theorem termKeyevent_cases (d : Device) (env : Env) (hke : ke ∈ keyMap) (line : List UInt8)
    (hline : t.inputStr.data 0 = 0 → line = []) :
    (ke.eventType = ps2Keydown ∧ ke.scanCode = ps2ScancodeEnter ∧
      termKeyevent d env ke t = enterKey d env t ∧ editLine line ke = []) ∨
    (t.inputStr.data 0 ≠ 0 ∧ ¬ ke.Types ∧
      termKeyevent d env ke t = some (eraseChar d t) ∧ editLine line ke = line.dropLast) ∨
    (ke.Types ∧
      termKeyevent d env ke t = some (appendChar d ke.ascii t) ∧
      editLine line ke = line ++ [ke.ascii]) ∨
    (¬ ke.Types ∧ termKeyevent d env ke t = some t ∧ editLine line ke = line) := by
  unfold termKeyevent editLine KeyEvent.Types
  by_cases hdown : ke.eventType = ps2Keydown
  · by_cases henter : ke.scanCode = ps2ScancodeEnter
    · exact Or.inl ⟨hdown, henter, if_pos ⟨hdown, henter⟩, by rw [if_pos hdown, if_pos henter]⟩
    · have hno : ¬ (ke.eventType = ps2Keydown ∧ ke.scanCode = ps2ScancodeEnter) :=
        fun h => henter h.2
      rw [if_neg hno, if_pos hdown, if_neg henter]
      by_cases hback : ke.scanCode = ps2ScancodeBackspace
      · have hascii := backspace_ascii hke hdown hback
        rw [if_pos hback]
        by_cases hempty : t.inputStr.data 0 = 0
        · rw [if_neg (fun h => h.2 hempty), if_neg (fun h => h.2 hascii), hline hempty]
          exact Or.inr (Or.inr (Or.inr ⟨fun h => h.2.2 hascii, rfl, rfl⟩))
        · rw [if_pos ⟨⟨hdown, hback⟩, hempty⟩]
          exact Or.inr (Or.inl ⟨hempty, fun h => h.2.2 hascii, rfl, rfl⟩)
      · rw [if_neg (fun h => hback h.1.2), if_neg hback]
        by_cases hascii : ke.ascii = 0
        · rw [if_neg (fun h => h.2 hascii), if_neg (not_not.mpr hascii)]
          exact Or.inr (Or.inr (Or.inr ⟨fun h => h.2.2 hascii, rfl, rfl⟩))
        · rw [if_pos ⟨hdown, hascii⟩, if_pos hascii]
          exact Or.inr (Or.inr (Or.inl ⟨⟨hdown, henter, hascii⟩, rfl, rfl⟩))
  · rw [if_neg (fun h => hdown h.1), if_neg (fun h => hdown h.1.1), if_neg (fun h => hdown h.1),
      if_neg hdown]
    exact Or.inr (Or.inr (Or.inr ⟨fun h => hdown h.1, rfl, rfl⟩))

end BloreOs
