import BloreOs.Bump

/-!
# The bump allocator out of memory

`bump_malloc` does not look at what `kpalloc` returns. After a `NULL` the cursor is the size of the
request, and the next small request is served from there.

* `failsCleanly_iff` — one call, for any page allocator and any state,
* `NullRun.step_iff` — one call of a run in which `kpalloc` may fail,
* `bump_null_iff` — both, the latter for whole runs.
-/

namespace BloreOs

open Loop

section

variable {ω : Type} (kpalloc : Nat → ω → Nat × ω)

/-- `kpalloc` with a record of its answers, the last one first. -/
def logged (numPages : Nat) (x : ω × List Nat) : Nat × ω × List Nat :=
  ((kpalloc numPages x.1).1, (kpalloc numPages x.1).2, (kpalloc numPages x.1).1 :: x.2)

/-- The record in the result of a call. -/
def recorded (r : Nat × Bump × ω × List Nat) : List Nat := r.2.2.2

/-- What `kpalloc` answers during a call of `bump_malloc`. -/
def bumpAnswers (size : Nat) (b : Bump) (w : ω) : List Nat :=
  recorded (bumpMalloc (logged kpalloc) size b (w, []))

/-- If a call of `kpalloc` returns `NULL`, so does `bump_malloc`, and its state is as before. -/
def FailsCleanly (size : Nat) (b : Bump) (w : ω) : Prop :=
  0 ∈ bumpAnswers kpalloc size b w →
    (bumpMalloc kpalloc size b w).1 = 0 ∧ (bumpMalloc kpalloc size b w).2.1 = b

/-- The state that a failed call leaves. -/
def bumpLeft (size : Nat) : Bump where
  cursor := size
  offset :=
    if 1 < divRoundup size pageSize then
      sub64 (mul64 (divRoundup size pageSize) pageSize) size % 2 ^ 16
    else size % 2 ^ 16

variable {size : Nat} {b : Bump} {w : ω}

/-! ## The paths through `bump_malloc` -/

theorem bumpMalloc_many (hmany : 1 < divRoundup size pageSize) : bumpMalloc kpalloc size b w
    = ((kpalloc (divRoundup size pageSize) w).1,
      ⟨add64 (kpalloc (divRoundup size pageSize) w).1 size,
        sub64 (mul64 (divRoundup size pageSize) pageSize) size % 2 ^ 16⟩,
      (kpalloc (divRoundup size pageSize) w).2) := by
  rw [bumpMalloc, if_pos hmany]

/-- One page, because there is none yet or because the current one is full. -/
theorem bumpMalloc_one (hmany : ¬ 1 < divRoundup size pageSize)
    (h : if b.cursor = 0 then ¬ sub64 pageSize 0 < size else sub64 pageSize b.offset < size) :
    bumpMalloc kpalloc size b w
      = ((kpalloc 1 w).1, ⟨add64 (kpalloc 1 w).1 size, size % 2 ^ 16⟩, (kpalloc 1 w).2) := by
  rw [bumpMalloc, if_neg hmany]
  by_cases hcur : b.cursor = 0
  · rw [if_pos hcur] at h
    simp only [if_pos hcur, bumpPage, if_neg h, Nat.zero_add]
  · rw [if_neg hcur] at h
    simp only [if_neg hcur, bumpPage, if_pos h, Nat.zero_add]

/-- Two pages: the first request, with a size that wraps. -/
theorem bumpMalloc_two (hmany : ¬ 1 < divRoundup size pageSize) (hcur : b.cursor = 0)
    (hbig : sub64 pageSize 0 < size) : bumpMalloc kpalloc size b w
      = ((kpalloc 1 (kpalloc 1 w).2).1, ⟨add64 (kpalloc 1 (kpalloc 1 w).2).1 size, size % 2 ^ 16⟩,
        (kpalloc 1 (kpalloc 1 w).2).2) := by
  rw [bumpMalloc, if_neg hmany]
  simp only [if_pos hcur, bumpPage, if_pos hbig, Nat.zero_add]

theorem bumpMalloc_here (hmany : ¬ 1 < divRoundup size pageSize) (hcur : b.cursor ≠ 0)
    (hfit : ¬ sub64 pageSize b.offset < size) : bumpMalloc kpalloc size b w
      = (b.cursor, ⟨add64 b.cursor size, (b.offset + size) % 2 ^ 16⟩, w) := by
  rw [bumpMalloc, if_neg hmany]
  simp only [if_neg hcur, if_neg hfit]

/-- The answers of a call are in the state that it leaves. -/
theorem bumpAnswers_of_eq {r : Nat} {t : Bump} {x : ω × List Nat}
    (h : bumpMalloc (logged kpalloc) size b (w, []) = (r, t, x)) :
    bumpAnswers kpalloc size b w = x.2 := by
  rw [bumpAnswers, h, recorded]

theorem logged_answers (numPages : Nat) (w : ω) (l : List Nat) :
    (logged kpalloc numPages (w, l)).2.2 = (kpalloc numPages w).1 :: l := rfl

theorem add64_zero (hsize : size < 2 ^ 64) : add64 0 size = size := by
  rw [add64, Nat.zero_add, Nat.mod_eq_of_lt hsize]

/-- Recording the answers changes nothing else. -/
theorem bumpMalloc_logged (l : List Nat) :
    (bumpMalloc (logged kpalloc) size b (w, l)).1 = (bumpMalloc kpalloc size b w).1 ∧
      (bumpMalloc (logged kpalloc) size b (w, l)).2.1 = (bumpMalloc kpalloc size b w).2.1 ∧
      (bumpMalloc (logged kpalloc) size b (w, l)).2.2.1 = (bumpMalloc kpalloc size b w).2.2 := by
  by_cases hmany : 1 < divRoundup size pageSize
  · rw [bumpMalloc_many _ hmany, bumpMalloc_many _ hmany]
    exact ⟨rfl, rfl, rfl⟩
  · by_cases hone : if b.cursor = 0 then ¬ sub64 pageSize 0 < size
        else sub64 pageSize b.offset < size
    · rw [bumpMalloc_one _ hmany hone, bumpMalloc_one _ hmany hone]
      exact ⟨rfl, rfl, rfl⟩
    · by_cases hcur : b.cursor = 0
      · rw [if_pos hcur, not_not] at hone
        rw [bumpMalloc_two _ hmany hcur hone, bumpMalloc_two _ hmany hcur hone]
        exact ⟨rfl, rfl, rfl⟩
      · rw [if_neg hcur] at hone
        rw [bumpMalloc_here _ hmany hcur hone, bumpMalloc_here _ hmany hcur hone]
        exact ⟨rfl, rfl, rfl⟩

/-! ## One call -/

/-- A call with one answer, which is also its result. -/
theorem failsCleanly_of_answer {r offset : Nat} {w' : ω} (hsize : size < 2 ^ 64)
    (hanswers : bumpAnswers kpalloc size b w = [r])
    (heq : bumpMalloc kpalloc size b w = (r, ⟨add64 r size, offset⟩, w'))
    (hleft : bumpLeft size = ⟨size, offset⟩) :
    FailsCleanly kpalloc size b w ↔ 0 ∉ bumpAnswers kpalloc size b w ∨ b = bumpLeft size := by
  rw [FailsCleanly, hanswers, heq, hleft, List.mem_singleton]
  by_cases h0 : 0 = r
  · rw [← h0, add64_zero hsize]
    constructor
    · intro h
      exact Or.inr (h rfl).2.symm
    · rintro (hne | hb)
      · exact absurd rfl hne
      · exact fun _ => ⟨rfl, hb.symm⟩
  · exact ⟨fun _ => Or.inl h0, fun _ h => absurd h h0⟩

/-- **When a call fails cleanly**: no answer is `NULL`, or the state is already the one that a failed
call leaves. -/
theorem failsCleanly_iff (hsize : size < 2 ^ 64) :
    FailsCleanly kpalloc size b w ↔ 0 ∉ bumpAnswers kpalloc size b w ∨ b = bumpLeft size := by
  by_cases hmany : 1 < divRoundup size pageSize
  · refine failsCleanly_of_answer kpalloc hsize ?_ (bumpMalloc_many kpalloc hmany) ?_
    · rw [bumpAnswers_of_eq kpalloc (bumpMalloc_many _ hmany), logged_answers]
    · rw [bumpLeft, if_pos hmany]
  · have hleft : bumpLeft size = ⟨size, size % 2 ^ 16⟩ := by rw [bumpLeft, if_neg hmany]
    by_cases hone : if b.cursor = 0 then ¬ sub64 pageSize 0 < size
        else sub64 pageSize b.offset < size
    · refine failsCleanly_of_answer kpalloc hsize ?_ (bumpMalloc_one kpalloc hmany hone) hleft
      rw [bumpAnswers_of_eq kpalloc (bumpMalloc_one _ hmany hone), logged_answers]
    · by_cases hcur : b.cursor = 0
      · rw [if_pos hcur, not_not] at hone
        -- the cursor was 0 and is not 0 afterwards
        have hne : b ≠ bumpLeft size := by
          intro hb
          have hzero := congrArg Bump.cursor hb
          rw [hcur, hleft] at hzero
          exact absurd hzero (Nat.ne_of_lt (Nat.zero_lt_of_lt hone))
        refine ⟨fun h => Or.inl fun h0 => hne ?_, fun h h0 => absurd h0 (h.resolve_right hne)⟩
        obtain ⟨hnull, hsame⟩ := h h0
        rw [bumpMalloc_two kpalloc hmany hcur hone] at hnull hsame
        simp only at hnull
        rw [hleft, ← hsame, hnull, add64_zero hsize]
      · rw [if_neg hcur] at hone
        rw [FailsCleanly, bumpAnswers_of_eq kpalloc (bumpMalloc_here _ hmany hcur hone)]
        simp

end

/-! ## Runs -/

/-- A page allocator that may fail: an answer 0 is `NULL`, and grants nothing. -/
def Grants.tryKpalloc (numPages : Nat) (g : Grants) : Nat × Grants :=
  (g.answers.headD 0,
    ⟨if g.answers.headD 0 = 0 then g.granted
      else ⟨g.answers.headD 0, numPages * pageSize⟩ :: g.granted, g.answers.tail⟩)

namespace BumpRun

/-- One call of `bump_malloc`. The blocks are the results other than `NULL`. -/
def tryStep (h : BumpRun) (size : Nat) : Option BumpRun :=
  if 1 ≤ size ∧ size ≤ 2 ^ 64 - 4096 then
    let r := bumpMalloc Grants.tryKpalloc size h.bump h.grants
    if r.2.2.Fresh then
      some ⟨r.2.1, r.2.2, if r.1 = 0 then h.blocks else ⟨r.1, size⟩ :: h.blocks⟩
    else none
  else none

/-- A call of a run fails cleanly. -/
def Clean (h : BumpRun) (size : Nat) : Prop := FailsCleanly Grants.tryKpalloc size h.bump h.grants

/-- The condition on a call that may find no page: as in `StepOk`, and it finds one unless the state
is already the one that a failed call leaves. -/
def NullOk (h : BumpRun) (size : Nat) : Prop :=
  (0 ∉ bumpAnswers Grants.tryKpalloc size h.bump h.grants ∨ h.bump = bumpLeft size) ∧ h.StepOk size

variable {h t : BumpRun} {size : Nat}

/-- A call that is served from the current page asks for none. -/
theorem bumpAnswers_current (h1 : 1 ≤ size) (h64 : size + 4095 < 2 ^ 64) (hs : h.bump.Serves size) :
    bumpAnswers Grants.tryKpalloc size h.bump h.grants = [] :=
  bumpAnswers_of_eq _ (bumpMalloc_current _ h1 h64 hs)

theorem bumpAnswers_fresh (h1 : 1 ≤ size) (h64 : size + 4095 < 2 ^ 64) (hs : ¬ h.bump.Serves size) :
    bumpAnswers Grants.tryKpalloc size h.bump h.grants = [h.grants.answers.headD 0] := by
  obtain ⟨offset, heq⟩ := bumpMalloc_fresh (logged Grants.tryKpalloc) h1 h64
    (w := (h.grants, [])) hs
  rw [bumpAnswers_of_eq _ heq, logged_answers]
  rfl

/-- **One call** fails cleanly and keeps blocks contained exactly under the condition. -/
theorem tryStep_iff (hinv : h.Inv) (hcont : h.Contained) (hstep : h.tryStep size = some t) :
    (h.Clean size ∧ t.Contained ↔ h.NullOk size) ∧ (h.NullOk size → t.Inv) := by
  rw [tryStep] at hstep
  split at hstep
  · next hsize =>
    have h64 : size + 4095 < 2 ^ 64 := by omega
    rw [Clean, failsCleanly_iff _ (by omega), NullOk]
    by_cases hs : h.bump.Serves size
    · rw [bumpAnswers_current hsize.1 h64 hs]
      rw [bumpMalloc_current _ hsize.1 h64 hs] at hstep
      simp only [if_pos hinv.fresh, if_neg hs.2.1, Option.some.injEq] at hstep
      have hiff := hinv.current_step hcont hsize.1 hs ((h.bump.offset + size) % 2 ^ 16)
      rw [← hstep]
      refine ⟨and_congr_right fun _ => ⟨fun hc _ => hiff.1.mp hc, fun hok => hiff.1.mpr (hok hs)⟩,
        fun hok => hiff.2 (hok.2 hs)⟩
    · have hok : h.StepOk size := fun hc => absurd hc hs
      rw [bumpAnswers_fresh hsize.1 h64 hs, List.mem_singleton]
      obtain ⟨offset, heq⟩ := bumpMalloc_fresh Grants.tryKpalloc hsize.1 h64 (w := h.grants) hs
      have hclean := failsCleanly_iff Grants.tryKpalloc (b := h.bump) (w := h.grants)
        (show size < 2 ^ 64 by omega)
      rw [FailsCleanly, bumpAnswers_fresh hsize.1 h64 hs, List.mem_singleton, heq] at hclean
      rw [heq] at hstep
      by_cases h0 : h.grants.answers.headD 0 = 0
      · -- no page: nothing has been granted and nothing is returned
        simp only [Grants.tryKpalloc, if_pos h0] at hstep hclean
        split at hstep
        · have ht := Option.some.inj hstep
          have htc : t.Contained := by
            rw [← ht]
            exact hcont
          refine ⟨and_congr_right fun _ => ⟨fun _ => hok, fun _ => htc⟩, fun hc => ?_⟩
          have hsame := (hclean.mpr hc.1 h0.symm).2
          rw [← ht, hsame]
          exact ⟨hinv.fresh, hinv.started, hinv.cursor⟩
        · cases hstep
      · simp only [Grants.tryKpalloc, if_neg h0] at hstep
        split at hstep
        · next hfresh =>
          have hgood := hinv.fresh_step hcont hsize.1 h64 offset rfl hfresh
          rw [← Option.some.inj hstep]
          exact ⟨and_congr_right fun _ => ⟨fun _ => hok, fun _ => hgood.1⟩, fun _ => hgood.2⟩
        · cases hstep
  · cases hstep

end BumpRun

/--
**When `bump_malloc` fails cleanly.**

In any state, with any page allocator: a call that gets a `NULL` returns `NULL` and changes nothing
exactly if the state is already the one that a failed call leaves. And for runs: all calls fail
cleanly and all blocks lie in granted pages, apart from each other, exactly if every call meets
`BumpRun.NullOk`.
-/
theorem bump_null_iff {ω : Type} (kpalloc : Nat → ω → Nat × ω) (size : Nat) (b : Bump) (w : ω)
    (hsize : size < 2 ^ 64) (answers sizes : List Nat) (t : BumpRun) :
    (FailsCleanly kpalloc size b w ↔ 0 ∉ bumpAnswers kpalloc size b w ∨ b = bumpLeft size) ∧
      (RunIf BumpRun.tryStep (fun h size => h.Contained ∧ h.Clean size) sizes
          (BumpRun.start answers) t ∧ t.Contained ↔
        RunIf BumpRun.tryStep BumpRun.NullOk sizes (BumpRun.start answers) t) :=
  ⟨failsCleanly_iff kpalloc hsize,
    runIf_iff_of_step BumpRun.Inv BumpRun.Contained BumpRun.Clean
      (fun _ _ _ hi hc hs => BumpRun.tryStep_iff hi hc hs) sizes (BumpRun.start_inv answers)
      (BumpRun.start_contained answers)⟩

theorem bump_null_page : FailsCleanly (fun _ (_ : Unit) => (0x10000, ())) 100 Bump.zero () :=
  (bump_null_iff (fun _ (_ : Unit) => (0x10000, ())) 100 Bump.zero () (by decide) [] []
    (BumpRun.start [])).1.mpr (Or.inl (by decide))

/-- The first request fails and leaves the cursor at 100. The next one returns the address 100, with
no page granted at all. -/
theorem bump_null_sample :
    bumpMalloc (fun _ (_ : Unit) => (0, ())) 100 Bump.zero () = (0, ⟨100, 100⟩, ()) ∧
      ¬ FailsCleanly (fun _ (_ : Unit) => (0, ())) 100 Bump.zero () ∧
      ∃ t, run BumpRun.tryStep [100, 50] (BumpRun.start []) = some t ∧
        t.blocks = [⟨100, 50⟩] ∧ t.grants.granted = [] ∧ ¬ t.Contained := by
  refine ⟨by decide, fun h => ?_, _, rfl, rfl, rfl, fun h => ?_⟩
  · exact absurd (h (by decide)).2 (by decide)
  · exact absurd (h.1 ⟨100, 50⟩ List.mem_cons_self 100 (by decide)) (by decide)

end BloreOs
