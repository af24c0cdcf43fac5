import BloreOs.Terminal.Keys

/-!
# The input line

Beside the terminal runs an editor that holds the line as a list, without an array. `input_str`
holds the same line as long as nobody types a 256th character, for which the array has no room:
`term_keyevent` does not look.

* `termStep_holds` — one key event or one call of `tprintf`,
* `input_holds_iff` — runs.
-/

namespace BloreOs

open Loop Buffer CharBuffer

variable {d : Device} {t : Terminal} {env : Env} {ke : KeyEvent} {line : List UInt8}

/-- A key event from the table, or a call of `tprintf`. -/
inductive TermOp where
  | key (ke : KeyEvent) (mem : ke ∈ keyMap) (env : Env)
  | print (call : TprintfCall)

/-- Carry out an operation, on the terminal and on the editor's line. -/
def termStep (d : Device) (s : Terminal × List UInt8) : TermOp → Option (Terminal × List UInt8)
  | .key ke _ env => (termKeyevent d env ke s.1).map fun t => (t, editLine s.2 ke)
  | .print call => (tprintf d s.1 call).map fun t => (t, s.2)

/-- `input_str` is a string inside its 256 bytes, nothing has been written outside of them, and the
string is the editor's line. -/
def InputHolds (s : Terminal × List UInt8) : Prop :=
  s.1.inputStr.extent ≤ 256 ∧ (∃ k < 256, s.1.inputStr.data k = 0) ∧ s.1.inputStr.cstr 256 = s.2

/-- A character is typed only if there is room for it and for the NUL. -/
def HasRoom (s : Terminal × List UInt8) : TermOp → Prop
  | .key ke _ _ => ke.Types → s.2.length < 255
  | .print _ => True

theorem inputHolds_iff {s : Terminal × List UInt8} :
    InputHolds s ↔ Holds s.1.inputStr 256 s.2 := holds_iff.symm

theorem strlenFrom_eq {b : CharBuffer} {n : Nat} (hn : b.data n = 0) : ∀ (m fuel i : Nat),
    i + m = n → (∀ k, i ≤ k → k < n → b.data k ≠ 0) → m < fuel → strlenFrom b fuel i = n
  | 0, fuel, i, hi, _, hfuel => by
    obtain ⟨fuel, rfl⟩ := Nat.exists_eq_add_one_of_ne_zero (by omega : fuel ≠ 0)
    obtain rfl : i = n := hi
    exact if_pos hn
  | m + 1, fuel, i, hi, hne, hfuel => by
    obtain ⟨fuel, rfl⟩ := Nat.exists_eq_add_one_of_ne_zero (by omega : fuel ≠ 0)
    rw [strlenFrom, if_neg (hne i le_rfl (by omega))]
    exact strlenFrom_eq hn m fuel (i + 1) (by omega) (fun k hk => hne k (by omega)) (by omega)

/-- `strlen` of a short string. -/
theorem strlen_eq {b : CharBuffer} {cs : List UInt8} (h : Holds b 256 cs) : strlen b = cs.length := by
  have hlen := h.length_lt
  exact strlenFrom_eq h.nul cs.length 65535 0 (by omega) (fun k _ hk => h.data_ne_zero hk) (by omega)

/-! ## Steps -/

theorem eraseChar_holds (h : Holds t.inputStr 256 line) (h0 : t.inputStr.data 0 ≠ 0) :
    Holds (eraseChar d t).inputStr 256 line.dropLast := by
  have hne := h.ne_nil h0
  have hpos := List.length_pos_iff.mpr hne
  have hlen := h.length_lt
  obtain ⟨fb, x, y, heq⟩ := eraseChar_eq d t
  rw [heq, strlen_eq h, sub64_eq (by omega) (by omega)]
  exact h.pop hne

theorem appendChar_inputStr (h : Holds t.inputStr 256 line) (c : UInt8) :
    (appendChar d c t).inputStr = (t.inputStr.write line.length c).write (line.length + 1) 0 := by
  have hlen := h.length_lt
  obtain ⟨fb, x, y, heq⟩ := appendChar_eq d c t
  rw [heq, strlen_eq h, add64_eq (by omega)]

/-- A typed character is in the string, or its NUL is behind the array. -/
theorem appendChar_holds_iff (h : Holds t.inputStr 256 line) {c : UInt8} (hc : c ≠ 0) :
    Holds (appendChar d c t).inputStr 256 (line ++ [c]) ↔ line.length < 255 := by
  rw [appendChar_inputStr h]
  constructor
  · intro h'
    have hext : max (t.inputStr.write line.length c).extent (line.length + 1 + 1) ≤ 256 :=
      h'.extent_le
    have := (le_max_right _ _).trans hext
    omega
  · exact fun hlen => h.push hc (by omega)

/-- **One step**: exactly the typing of a 256th character fails. -/
theorem termStep_holds {s s' : Terminal × List UInt8} {op : TermOp} (hs : InputHolds s)
    (hstep : termStep d s op = some s') : InputHolds s' ↔ HasRoom s op := by
  rw [inputHolds_iff] at *
  cases op with
  | print call =>
    obtain ⟨t, ht, rfl⟩ := Option.map_eq_some_iff.mp hstep
    rw [← (tprintf_sameMode ht).input] at hs
    exact ⟨fun _ => trivial, fun _ => hs⟩
  | key ke mem env =>
    obtain ⟨t, ht, rfl⟩ := Option.map_eq_some_iff.mp hstep
    rcases termKeyevent_cases d env mem s.2 hs.data_eq_zero with
      ⟨-, henter, hke, hline⟩ | ⟨h0, htypes, hke, hline⟩ | ⟨htypes, hke, hline⟩ |
      ⟨htypes, hke, hline⟩
    · have hno : HasRoom s (.key ke mem env) := fun htypes => absurd henter htypes.2.1
      refine ⟨fun _ => hno, fun _ => ?_⟩
      rw [hke] at ht
      simp only [hline, (enterKey_inputStr ht).1]
      exact hs.clear
    · rw [hke] at ht
      cases ht
      simp only [hline]
      exact ⟨fun _ htypes' => absurd htypes' htypes, fun _ => eraseChar_holds hs h0⟩
    · rw [hke] at ht
      cases ht
      simp only [hline]
      rw [appendChar_holds_iff hs htypes.2.2]
      exact ⟨fun hlen _ => hlen, fun hroom => hroom htypes⟩
    · rw [hke] at ht
      cases ht
      simp only [hline]
      exact ⟨fun _ htypes' => absurd htypes' htypes, fun _ => hs⟩

/-! ## Runs -/

/--
**`input_str` holds the line exactly as long as nobody types a 256th character.**

For every run of key events from the table and calls of `tprintf`, in any order, from any state in
which `input_str` holds the line (as it does at the start, where both are empty).
-/
theorem input_holds_iff (d : Device) (ops : List TermOp) {s s' : Terminal × List UInt8}
    (hs : InputHolds s) (hrun : run (termStep d) ops s = some s') :
    Throughout (termStep d) InputHolds ops s ↔ RunIf (termStep d) HasRoom ops s s' :=
  throughout_iff_of_step (fun _ => True) InputHolds (fun _ => True)
    (fun _ _ _ _ hs hstep _ => ⟨termStep_holds hs hstep, trivial⟩) ops trivial hs hrun
    (throughout_of_step (fun _ => True) (fun _ => True) (fun _ _ _ _ _ _ => trivial) ops trivial
      fun _ _ => trivial)

theorem inputHolds_boot (d : Device) (pixels : Nat → UInt32) :
    InputHolds (termInit d (Terminal.boot pixels), []) := by
  have hinput := (renderInputLine_sameMode d (Terminal.boot pixels)).input
  show (renderInputLine d (Terminal.boot pixels)).inputStr.extent ≤ 256 ∧
    (∃ k < 256, (renderInputLine d (Terminal.boot pixels)).inputStr.data k = 0) ∧
    (renderInputLine d (Terminal.boot pixels)).inputStr.cstr 256 = []
  rw [hinput]
  exact ⟨Nat.zero_le _, ⟨0, by decide, rfl⟩, rfl⟩

/-- The `a` key. -/
def keyA : TermOp := .key ⟨30, 0, chr 'a', false⟩ (by decide) ⟨fun _ _ => 0, 0⟩

theorem termStep_keyA (d : Device) (s : Terminal × List UInt8) :
    termStep d s keyA = some (appendChar d (chr 'a') s.1, s.2 ++ [chr 'a']) := rfl

/-- Typing `a` once. -/
theorem input_holds_a : Throughout (termStep sampleDevice) InputHolds [keyA]
    (termInit sampleDevice (Terminal.boot fun _ => 0), []) := by
  have hrun : run (termStep sampleDevice) [keyA]
      (termInit sampleDevice (Terminal.boot fun _ => 0), []) = some (appendChar sampleDevice (chr 'a')
        (termInit sampleDevice (Terminal.boot fun _ => 0)), [] ++ [chr 'a']) :=
    run_cons_eq_some.mpr ⟨_, termStep_keyA sampleDevice _, rfl⟩
  refine (input_holds_iff sampleDevice [keyA] (inputHolds_boot _ _) hrun).mpr ⟨?_, _, rfl, rfl⟩
  exact fun _ => by decide

theorem run_keyA (d : Device) : ∀ (n : Nat) (s : Terminal × List UInt8),
    ∃ s', run (termStep d) (List.replicate n keyA) s = some s' ∧ s'.2.length = s.2.length + n
  | 0, s => ⟨s, rfl, rfl⟩
  | n + 1, s => by
    obtain ⟨s', hrun, hlen⟩ := run_keyA d n (appendChar d (chr 'a') s.1, s.2 ++ [chr 'a'])
    refine ⟨s', run_cons_eq_some.mpr ⟨_, termStep_keyA d s, hrun⟩, ?_⟩
    rw [hlen, List.length_append, List.length_singleton]
    omega

/-- Typing `a` 256 times. -/
theorem input_overruns_a : ∃ s, run (termStep sampleDevice) (List.replicate 256 keyA)
    (termInit sampleDevice (Terminal.boot fun _ => 0), []) = some s ∧ ¬ InputHolds s := by
  obtain ⟨s, hrun, hlen⟩ := run_keyA sampleDevice 256
    (termInit sampleDevice (Terminal.boot fun _ => 0), [])
  refine ⟨s, hrun, fun hs => ?_⟩
  have hlt := (inputHolds_iff.mp hs).length_lt
  rw [hlen, List.length_nil] at hlt
  omega

end BloreOs
