import BloreOs.Terminal.Keys

/-!
# Commands (`_handle_cmd`)

The line is compared with the names of the commands one after another. `strcmp` leaves its loop at
the end of either string and then returns 0, so it takes a string and its prefixes for equal:

* `strcmp_eq_zero_iff` — when `strcmp` returns 0,
* `dispatch_eq_some_iff` — which lines run a command,
* `commandMatching_iff` — when the comparison, and the choice of the command, are exact.
-/

namespace BloreOs

open CharBuffer

/-! ## `strcmp` -/

/-- One of the two strings is a prefix of the other. -/
def Comparable (l r : List UInt8) : Prop := l <+: r ∨ r <+: l

instance (l r : List UInt8) : Decidable (Comparable l r) := inferInstanceAs (Decidable (_ ∨ _))

theorem Comparable.rfl {l : List UInt8} : Comparable l l := Or.inl (List.prefix_refl l)

theorem comparable_cons {c : UInt8} {l r : List UInt8} :
    Comparable (c :: l) (c :: r) ↔ Comparable l r := by
  rw [Comparable, List.prefix_cons_inj, List.prefix_cons_inj, Comparable]

theorem not_comparable_cons {c c' : UInt8} {l r : List UInt8} (h : c ≠ c') :
    ¬ Comparable (c :: l) (c' :: r) := by
  rintro (hp | hp)
  · exact h (List.cons_prefix_cons.mp hp).1
  · exact h (List.cons_prefix_cons.mp hp).1.symm

variable {b : CharBuffer} {l r cs : List UInt8}

theorem strcmpFrom_eq_zero_iff (hb : b.Spells l) : ∀ (r : List UInt8) {i : Nat}, i ≤ l.length →
    (strcmpFrom b i r = 0 ↔ Comparable (l.drop i) r)
  | [], i, _ => by
    simp [strcmpFrom, Comparable]
  | c :: r, i, hi => by
    rw [strcmpFrom]
    by_cases hend : i = l.length
    · -- the end of the first string
      rw [hend, if_pos hb.nul, List.drop_length]
      simp [Comparable]
    · have hlt : i < l.length := by omega
      rw [if_neg (hb.data_ne_zero hlt), List.drop_eq_getElem_cons hlt, hb.data_eq hlt]
      by_cases hc : l[i] = c
      · rw [if_neg (not_not.mpr hc), hc, comparable_cons]
        exact strcmpFrom_eq_zero_iff hb r (by omega)
      · rw [if_pos hc]
        exact ⟨fun h => absurd h (by decide), fun h => absurd h (not_comparable_cons hc)⟩

/-- **`strcmp` takes a string and its prefixes for equal.** -/
theorem strcmp_eq_zero_iff (hb : b.Spells l) : strcmp b r = 0 ↔ Comparable l r :=
  strcmpFrom_eq_zero_iff hb r (Nat.zero_le _)

/-! ## The commands -/

inductive Command where
  | hello
  | cls
  | time
  | stime
deriving DecidableEq, Repr

namespace Command

/-- The name that the line is compared with. -/
def name : Command → List UInt8
  | hello => bytes "hello"
  | cls => bytes "cls"
  | time => bytes "time"
  | stime => bytes "stime"

/-- The commands in the order in which `_handle_cmd` tries them. -/
def all : List Command := [hello, cls, time, stime]

theorem mem_all (c : Command) : c ∈ all := by
  cases c <;> decide

/-- No name is a prefix of another. -/
theorem comparable_name_iff (c c' : Command) : Comparable c.name c'.name ↔ c' = c := by
  cases c <;> cases c' <;> decide

end Command

/-- What `_handle_cmd` does for the command that it has picked. -/
def runCommand (d : Device) (env : Env) (t : Terminal) : Option Command → Option Terminal
  | some .hello => tprintf d t (env.call 3 (bytes "World!\n") [])
  | some .cls => some (termClear d t)
  | some .time => tprintf d t (env.call 3 (bytes "Kerner Time: %lums\n") [.long env.timer])
  | some .stime => tprintf d t (env.call 3 (bytes "Kerner Time: %lus\n") [.long (env.timer / 1000)])
  | none => tprintf d t (env.call 3 (bytes "Unknown command.\n") [])

/-- The command that `_handle_cmd` picks: the first whose name `strcmp` does not tell from the
line. `none` is an unknown command. -/
def dispatch (line : CharBuffer) : Option Command :=
  Command.all.find? fun c => strcmp line c.name = 0

/-- `_handle_cmd` picks a command and runs it. -/
theorem handleCmd_eq (d : Device) (env : Env) (t : Terminal) :
    handleCmd d env t = runCommand d env t (dispatch t.inputStr) := by
  unfold handleCmd dispatch Command.all
  simp only [List.find?, Command.name]
  by_cases hhello : strcmp t.inputStr (bytes "hello") = 0
  · simp only [hhello, ↓reduceIte, decide_true, runCommand]
  by_cases hcls : strcmp t.inputStr (bytes "cls") = 0
  · simp only [hhello, hcls, ↓reduceIte, decide_true, decide_false, runCommand]
  by_cases htime : strcmp t.inputStr (bytes "time") = 0
  · simp only [hhello, hcls, htime, ↓reduceIte, decide_true, decide_false, runCommand]
  by_cases hstime : strcmp t.inputStr (bytes "stime") = 0
  · simp only [hhello, hcls, htime, hstime, ↓reduceIte, decide_true, decide_false, runCommand]
  · simp only [hhello, hcls, htime, hstime, ↓reduceIte, decide_false, runCommand]

theorem dispatch_eq_none_iff (hb : b.Spells l) :
    dispatch b = none ↔ ∀ c : Command, ¬ Comparable l c.name := by
  rw [dispatch, List.find?_eq_none]
  constructor
  · intro h c hc
    exact h c c.mem_all (by simpa using (strcmp_eq_zero_iff hb).mpr hc)
  · intro h c _ hc
    exact h c ((strcmp_eq_zero_iff hb).mp (by simpa using hc))

theorem comparable_of_dispatch {c : Command} (hb : b.Spells l) (h : dispatch b = some c) :
    Comparable l c.name := by
  have hfound := List.find?_some h
  exact (strcmp_eq_zero_iff hb).mp (by simpa using hfound)

/-- A line that is a name runs that command. -/
theorem dispatch_name {c : Command} (hb : b.Spells c.name) : dispatch b = some c := by
  cases hd : dispatch b with
  | none => exact absurd Comparable.rfl ((dispatch_eq_none_iff hb).mp hd c)
  | some c' => rw [(Command.comparable_name_iff c c').mp (comparable_of_dispatch hb hd)]

/--
**When commands are matched exactly.**

`strcmp` decides equality of two strings exactly if they are equal or neither is a prefix of the
other. `_handle_cmd` runs every command for its own name only exactly if the line is a name, or is
comparable with none.
-/
theorem commandMatching_iff (b : CharBuffer) (l r : List UInt8) (hb : b.Spells l)
    (input : CharBuffer) (line : List UInt8) (hinput : input.Spells line) :
    ((strcmp b r = 0 ↔ l = r) ↔ l = r ∨ ¬ Comparable l r) ∧
      (∀ d env t, t.inputStr = input → handleCmd d env t = runCommand d env t (dispatch input)) ∧
      ((∀ c : Command, dispatch input = some c ↔ line = c.name) ↔
        (∃ c : Command, line = c.name) ∨ ∀ c : Command, ¬ Comparable line c.name) := by
  refine ⟨?_, fun d env t ht => ht ▸ handleCmd_eq d env t, ⟨fun h => ?_, ?_⟩⟩
  · rw [strcmp_eq_zero_iff hb]
    constructor
    · intro h
      by_cases hc : Comparable l r
      · exact Or.inl (h.mp hc)
      · exact Or.inr hc
    · rintro (rfl | hc)
      · exact iff_of_true Comparable.rfl rfl
      · exact iff_of_false hc fun heq => hc (heq ▸ Comparable.rfl)
  · by_cases hname : ∃ c : Command, line = c.name
    · exact Or.inl hname
    · refine Or.inr ((dispatch_eq_none_iff hinput).mp ?_)
      rw [Option.eq_none_iff_forall_ne_some]
      exact fun c hc => hname ⟨c, (h c).mp hc⟩
  · rintro (⟨c, rfl⟩ | hnone) c'
    · rw [dispatch_name hinput, Option.some.injEq]
      constructor
      · rintro rfl
        rfl
      · intro heq
        exact ((Command.comparable_name_iff c c').mp (heq ▸ Comparable.rfl)).symm
    · rw [(dispatch_eq_none_iff hinput).mpr hnone]
      refine iff_of_false (by simp) fun heq => hnone c' (heq ▸ Comparable.rfl)

/-- A buffer that holds a string constant. -/
def literal (cs : List UInt8) : CharBuffer where
  data k := cs.getD k 0
  extent := cs.length + 1

theorem literal_spells (h : 0 ∉ cs) : (literal cs).Spells cs := by
  refine ⟨List.ext_getElem (by simp [Buffer.length_slice]) fun k h1 h2 => ?_, ?_, h⟩
  · rw [Buffer.getElem_slice h1]
    simp [literal, h2]
  · simp [literal]

/-- `dir` is comparable with no name. -/
theorem commandMatching_dir :
    (¬ strcmp (literal (bytes "dir")) (bytes "cls") = 0) ∧
      ∀ c : Command, dispatch (literal (bytes "dir")) = some c ↔ bytes "dir" = c.name := by
  obtain ⟨h1, -, h2⟩ := commandMatching_iff (literal (bytes "dir")) (bytes "dir") (bytes "cls")
    (literal_spells (by decide)) (literal (bytes "dir")) (bytes "dir") (literal_spells (by decide))
  refine ⟨fun h => ?_, h2.mpr (Or.inr fun c => by cases c <;> decide)⟩
  exact absurd ((h1.mpr (Or.inr (by decide))).mp h) (by decide)

/-- An empty line prints `World!`. -/
theorem empty_line_runs_hello :
    (literal []).Spells [] ∧ strcmp (literal []) (bytes "hello") = 0 ∧ [] ≠ bytes "hello" ∧
      ∀ d env t, t.inputStr = literal [] →
        handleCmd d env t = tprintf d t (env.call 3 (bytes "World!\n") []) := by
  refine ⟨literal_spells (by decide), by decide, by decide, fun d env t ht => ?_⟩
  rw [handleCmd_eq, ht]
  rfl

end BloreOs
