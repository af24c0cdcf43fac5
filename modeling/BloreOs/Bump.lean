import BloreOs.Basic
import BloreOs.Lib.Loop
import BloreOs.Lib.Span

/-!
# The bump allocator (`bump.c`)

`_cursor` points behind the last allocation, and `_offset` is meant to say how much of its page is
used. The page allocator is a parameter here, a function on some state `ω`.

After a request of several pages `_offset` is set to the bytes that are **left** in the last page.
A later small request then compares with the wrong number. `bump_runs_iff` says that allocations
stay inside their pages, and apart, exactly in those runs in which every request that is served
from the current page also fits behind the cursor.
-/

namespace BloreOs

open Loop

/-- `_cursor` and `_offset`, a pointer and a `uint16_t`. -/
structure Bump where
  cursor : Nat
  offset : Nat
deriving DecidableEq, Repr

/-- The globals before the first call. -/
def Bump.zero : Bump where
  cursor := 0
  offset := 0

section

variable {ω : Type} (kpalloc : Nat → ω → Nat × ω)

/-- Start a new page. -/
def bumpPage (w : ω) : Bump × ω := (⟨(kpalloc 1 w).1, 0⟩, (kpalloc 1 w).2)

/-- `bump_malloc`. -/
def bumpMalloc (size : Nat) (b : Bump) (w : ω) : Nat × Bump × ω :=
  let numPages := divRoundup size pageSize
  if 1 < numPages then
    let r := kpalloc numPages w
    (r.1, ⟨add64 r.1 size, sub64 (mul64 numPages pageSize) size % 2 ^ 16⟩, r.2)
  else
    -- first allocation
    let x := if b.cursor = 0 then bumpPage kpalloc w else (b, w)
    -- the request does not fit into the rest of the page
    let x := if sub64 pageSize x.1.offset < size then bumpPage kpalloc x.2 else x
    (x.1.cursor, ⟨add64 x.1.cursor size, (x.1.offset + size) % 2 ^ 16⟩, x.2)

variable {size : Nat} {b : Bump} {w : ω}

/-- Whether a request is served from the current page. -/
def Bump.Serves (b : Bump) (size : Nat) : Prop :=
  size ≤ pageSize ∧ b.cursor ≠ 0 ∧ size ≤ sub64 pageSize b.offset

instance (b : Bump) (size : Nat) : Decidable (b.Serves size) :=
  inferInstanceAs (Decidable (_ ∧ _ ∧ _))

theorem divRoundup_le_one (h1 : 1 ≤ size) (h64 : size + 4095 < 2 ^ 64) :
    ¬ 1 < divRoundup size pageSize ↔ size ≤ pageSize := by
  rw [divRoundup_eq h64]
  unfold pageSize
  omega

/-- A request that is served from the current page. -/
theorem bumpMalloc_current (h1 : 1 ≤ size) (h64 : size + 4095 < 2 ^ 64) (hs : b.Serves size) :
    bumpMalloc kpalloc size b w
      = (b.cursor, ⟨add64 b.cursor size, (b.offset + size) % 2 ^ 16⟩, w) := by
  obtain ⟨hle, hcur, hfit⟩ := hs
  rw [bumpMalloc, if_neg ((divRoundup_le_one h1 h64).mpr hle)]
  simp only [if_neg hcur, if_neg (Nat.not_lt.mpr hfit)]

/-- Any other request takes new pages, exactly as many as it needs. -/
theorem bumpMalloc_fresh (h1 : 1 ≤ size) (h64 : size + 4095 < 2 ^ 64) (hs : ¬ b.Serves size) :
    ∃ offset, bumpMalloc kpalloc size b w
      = ((kpalloc ((size + 4095) / 4096) w).1,
        ⟨add64 (kpalloc ((size + 4095) / 4096) w).1 size, offset⟩,
        (kpalloc ((size + 4095) / 4096) w).2) := by
  by_cases hmany : 1 < divRoundup size pageSize
  · rw [bumpMalloc, if_pos hmany, divRoundup_eq h64]
    exact ⟨_, rfl⟩
  · have hle := (divRoundup_le_one h1 h64).mp hmany
    have hone : (size + 4095) / 4096 = 1 := by
      unfold pageSize at hle
      omega
    have hfit : ¬ sub64 pageSize 0 < size := Nat.not_lt.mpr hle
    rw [bumpMalloc, if_neg hmany, hone]
    by_cases hcur : b.cursor = 0
    · exact ⟨(0 + size) % 2 ^ 16, by simp only [if_pos hcur, bumpPage, if_neg hfit]⟩
    · have hsmall : sub64 pageSize b.offset < size := by
        by_contra hc
        exact hs ⟨hle, hcur, Nat.not_lt.mp hc⟩
      exact ⟨(0 + size) % 2 ^ 16, by simp only [if_neg hcur, if_pos hsmall, bumpPage]⟩

end

/-! ## Runs -/

/-- A page allocator that gives the blocks of `answers`, one after the other, and remembers what it
has given. Without an answer it returns `NULL`. -/
structure Grants where
  granted : List Span
  answers : List Nat

def Grants.kpalloc (numPages : Nat) (g : Grants) : Nat × Grants :=
  (g.answers.headD 0,
    ⟨⟨g.answers.headD 0, numPages * pageSize⟩ :: g.granted, g.answers.tail⟩)

/-- What is assumed of the page allocator: no call fails, and blocks are page-aligned and disjoint.
-/
def Grants.Fresh (g : Grants) : Prop :=
  (∀ r ∈ g.granted, r.base ≠ 0 ∧ r.base % pageSize = 0 ∧ r.base + r.len < 2 ^ 64) ∧
    g.granted.Pairwise Span.Clear

instance (g : Grants) : Decidable g.Fresh := inferInstanceAs (Decidable (_ ∧ _))

/-- The allocator, the pages it got, and the blocks it has returned. -/
structure BumpRun where
  bump : Bump
  grants : Grants
  blocks : List Span

/-- One call of `bump_malloc`. -/
def BumpRun.step (h : BumpRun) (size : Nat) : Option BumpRun :=
  if 1 ≤ size ∧ size ≤ 2 ^ 64 - 4096 then
    let r := bumpMalloc Grants.kpalloc size h.bump h.grants
    if r.2.2.Fresh then some ⟨r.2.1, r.2.2, ⟨r.1, size⟩ :: h.blocks⟩ else none
  else none

def BumpRun.start (answers : List Nat) : BumpRun := ⟨Bump.zero, ⟨[], answers⟩, []⟩

/-- Blocks lie inside the pages that were granted, and do not overlap. -/
def BumpRun.Contained (h : BumpRun) : Prop :=
  (∀ b ∈ h.blocks, ∀ a, b.Has a → 0 < Span.cover h.grants.granted a) ∧
    h.blocks.Pairwise Span.Apart

/-- The bytes between the cursor and the next page boundary. -/
def Bump.room (b : Bump) : Nat := (pageSize - b.cursor % pageSize) % pageSize

/-- The condition on a request: if it is served from the current page, it fits behind the cursor. -/
def BumpRun.StepOk (h : BumpRun) (size : Nat) : Prop := h.bump.Serves size → size ≤ h.bump.room

variable {h t : BumpRun} {size : Nat}

/-- Where the cursor is: in the last page of a granted block, behind everything that has been
returned from it, and not at its start. -/
structure BumpRun.Inv (h : BumpRun) : Prop where
  fresh : h.grants.Fresh
  started : ∀ r ∈ h.grants.granted, ∃ b ∈ h.blocks, b.Has r.base
  cursor : h.bump.cursor = 0 ∨ ∃ r ∈ h.grants.granted, r.base < h.bump.cursor ∧
    h.bump.cursor ≤ r.base + r.len ∧ r.base + r.len < h.bump.cursor + pageSize ∧
    r.len % pageSize = 0 ∧ ∀ b ∈ h.blocks, ∀ a, h.bump.cursor ≤ a → a < r.base + r.len → ¬ b.Has a

/-- The room behind the cursor reaches to the end of its granted block. -/
theorem Bump.room_eq {b : Bump} {r : Span} (hb : r.base % pageSize = 0) (hl : r.len % pageSize = 0)
    (h1 : b.cursor ≤ r.base + r.len) (h2 : r.base + r.len < b.cursor + pageSize) :
    b.cursor + b.room = r.base + r.len := by
  unfold Bump.room
  simp only [pageSize] at *
  omega

/-- **A request that takes new pages** is always contained. -/
theorem BumpRun.Inv.fresh_step (hinv : h.Inv) (hcont : h.Contained) (h1 : 1 ≤ size)
    (h64 : size + 4095 < 2 ^ 64) {a : Nat} {g : Grants} (offset : Nat)
    (hg : g.granted = ⟨a, (size + 4095) / 4096 * pageSize⟩ :: h.grants.granted) (hfresh : g.Fresh) :
    let t : BumpRun := ⟨⟨add64 a size, offset⟩, g, ⟨a, size⟩ :: h.blocks⟩
    t.Contained ∧ t.Inv := by
  intro t
  have hall := hfresh.1
  have hpair := hfresh.2
  rw [hg, List.forall_mem_cons] at hall
  rw [hg, List.pairwise_cons] at hpair
  obtain ⟨⟨h0, hmod, hend⟩, -⟩ := hall
  obtain ⟨hnew, -⟩ := hpair
  have hlen : size ≤ (size + 4095) / 4096 * pageSize ∧
      (size + 4095) / 4096 * pageSize < size + pageSize := by
    unfold pageSize
    omega
  have hadd : add64 a size = a + size := by
    simp only at hend
    exact add64_eq (by omega)
  -- earlier blocks lie in earlier grants, so not in the new one
  have hold : ∀ b ∈ h.blocks, ∀ x, a ≤ x → x < a + (size + 4095) / 4096 * pageSize → ¬ b.Has x := by
    intro b hb x hx1 hx2 hbx
    obtain ⟨r, hr, hrx⟩ := Span.cover_pos.mp (hcont.1 b hb x hbx)
    exact (hnew r hr).apart x ⟨hx1, hx2⟩ hrx
  refine ⟨⟨?_, ?_⟩, hfresh, ?_, Or.inr ⟨⟨a, (size + 4095) / 4096 * pageSize⟩, ?_, ?_⟩⟩
  · show ∀ b ∈ (⟨a, size⟩ : Span) :: h.blocks, ∀ x, b.Has x → 0 < Span.cover g.granted x
    rw [hg, List.forall_mem_cons]
    refine ⟨fun x hx => ?_, fun b hb x hx => ?_⟩
    · rw [Span.cover_pos]
      refine ⟨_, List.mem_cons_self, hx.1, ?_⟩
      have hx2 : x < a + size := hx.2
      show x < a + (size + 4095) / 4096 * pageSize
      omega
    · rw [Span.cover_cons]
      exact Nat.add_pos_left (hcont.1 b hb x hx) _
  · refine List.pairwise_cons.mpr ⟨fun b hb x hx => ?_, hcont.2⟩
    have hx2 : x < a + size := hx.2
    exact hold b hb x hx.1 (by omega)
  · show ∀ r ∈ g.granted, ∃ b ∈ (⟨a, size⟩ : Span) :: h.blocks, b.Has r.base
    rw [hg, List.forall_mem_cons]
    refine ⟨⟨_, List.mem_cons_self, Nat.le_refl _, Nat.lt_add_of_pos_right h1⟩, fun r hr => ?_⟩
    obtain ⟨b, hb, hbr⟩ := hinv.started r hr
    exact ⟨b, List.mem_cons_of_mem _ hb, hbr⟩
  · show _ ∈ g.granted
    rw [hg]
    exact List.mem_cons_self
  · show a < add64 a size ∧ add64 a size ≤ a + (size + 4095) / 4096 * pageSize ∧
      a + (size + 4095) / 4096 * pageSize < add64 a size + pageSize ∧
      (size + 4095) / 4096 * pageSize % pageSize = 0 ∧
      ∀ b ∈ (⟨a, size⟩ : Span) :: h.blocks, ∀ x, add64 a size ≤ x →
        x < a + (size + 4095) / 4096 * pageSize → ¬ b.Has x
    rw [hadd]
    refine ⟨by omega, by omega, by omega, Nat.mul_mod_left _ _, ?_⟩
    rw [List.forall_mem_cons]
    refine ⟨fun x hx _ hbx => ?_, fun b hb x hx1 hx2 => hold b hb x (by omega) hx2⟩
    have hx2 : x < a + size := hbx.2
    omega

/-- **A request that is served from the current page** is contained exactly if it fits. -/
theorem BumpRun.Inv.current_step (hinv : h.Inv) (hcont : h.Contained) (h1 : 1 ≤ size)
    (hs : h.bump.Serves size) (offset : Nat) :
    let t : BumpRun := ⟨⟨add64 h.bump.cursor size, offset⟩, h.grants, ⟨h.bump.cursor, size⟩ :: h.blocks⟩
    (t.Contained ↔ size ≤ h.bump.room) ∧ (size ≤ h.bump.room → t.Inv) := by
  intro t
  obtain ⟨r, hr, hlow, hhigh, hlast, hlen, hfree⟩ := hinv.cursor.resolve_left hs.2.1
  obtain ⟨-, hmod, hend⟩ := hinv.fresh.1 r hr
  have hroom := Bump.room_eq hmod hlen hhigh hlast
  have hgood : size ≤ h.bump.room → t.Contained := by
    intro hle
    refine ⟨?_, List.pairwise_cons.mpr ⟨fun b hb x hx hbx => ?_, hcont.2⟩⟩
    · show ∀ b ∈ (⟨h.bump.cursor, size⟩ : Span) :: h.blocks, _
      rw [List.forall_mem_cons]
      refine ⟨fun x hx => Span.cover_pos.mpr ⟨r, hr, ?_⟩, hcont.1⟩
      have hx1 : h.bump.cursor ≤ x := hx.1
      have hx2 : x < h.bump.cursor + size := hx.2
      exact ⟨by omega, by omega⟩
    · have hx2 : x < h.bump.cursor + size := hx.2
      exact hfree b hb x hx.1 (by omega) hbx
  refine ⟨⟨fun ht => ?_, hgood⟩, fun hle => ⟨hinv.fresh, fun r' hr' => ?_, Or.inr ⟨r, hr, ?_⟩⟩⟩
  · -- the first byte behind the granted block would have to be granted, but then it is in use
    by_contra hlong
    have hnew : (⟨h.bump.cursor, size⟩ : Span).Has (r.base + r.len) :=
      ⟨hhigh, by show r.base + r.len < h.bump.cursor + size; omega⟩
    obtain ⟨r', hr', hin, hin'⟩ := Span.cover_pos.mp (ht.1 _ List.mem_cons_self _ hnew)
    have hne : r ≠ r' := by
      rintro rfl
      omega
    have : Std.Symm Span.Clear := ⟨fun _ _ h => h.symm⟩
    have hbase : r'.base = r.base + r.len := by
      rcases hinv.fresh.2.forall hr hr' hne with hc | hc <;> omega
    obtain ⟨b, hb, hbr⟩ := hinv.started r' hr'
    rw [hbase] at hbr
    exact (List.pairwise_cons.mp ht.2).1 b hb _ hnew hbr
  · obtain ⟨b, hb, hbr⟩ := hinv.started r' hr'
    exact ⟨b, List.mem_cons_of_mem _ hb, hbr⟩
  · have hadd : add64 h.bump.cursor size = h.bump.cursor + size := add64_eq (by omega)
    show r.base < add64 h.bump.cursor size ∧ add64 h.bump.cursor size ≤ r.base + r.len ∧
      r.base + r.len < add64 h.bump.cursor size + pageSize ∧ r.len % pageSize = 0 ∧
      ∀ b ∈ (⟨h.bump.cursor, size⟩ : Span) :: h.blocks, ∀ x, add64 h.bump.cursor size ≤ x →
        x < r.base + r.len → ¬ b.Has x
    rw [hadd, List.forall_mem_cons]
    refine ⟨by omega, by omega, by omega, hlen, fun x hx _ hbx => ?_, fun b hb x hx1 hx2 =>
      hfree b hb x (by omega) hx2⟩
    have hx2 : x < h.bump.cursor + size := hbx.2
    omega

/-- **One call** keeps blocks contained exactly under the condition. -/
theorem BumpRun.step_iff (hinv : h.Inv) (hcont : h.Contained) (hstep : h.step size = some t) :
    (t.Contained ↔ h.StepOk size) ∧ (h.StepOk size → t.Inv) := by
  rw [BumpRun.step] at hstep
  split at hstep
  · next hsize =>
    have h64 : size + 4095 < 2 ^ 64 := by omega
    by_cases hs : h.bump.Serves size
    · rw [bumpMalloc_current _ hsize.1 h64 hs] at hstep
      simp only [if_pos hinv.fresh, Option.some.injEq] at hstep
      have hiff := hinv.current_step hcont hsize.1 hs ((h.bump.offset + size) % 2 ^ 16)
      rw [← hstep]
      exact ⟨⟨fun hc _ => hiff.1.mp hc, fun hok => hiff.1.mpr (hok hs)⟩, fun hok => hiff.2 (hok hs)⟩
    · obtain ⟨offset, heq⟩ := bumpMalloc_fresh Grants.kpalloc hsize.1 h64 (w := h.grants) hs
      rw [heq] at hstep
      dsimp only at hstep
      split at hstep
      · next hfresh =>
        have hgood := hinv.fresh_step hcont hsize.1 h64 offset rfl hfresh
        simp only [Option.some.injEq] at hstep
        rw [← hstep]
        exact ⟨⟨fun _ hc => absurd hc hs, fun _ => hgood.1⟩, fun _ => hgood.2⟩
      · cases hstep
  · cases hstep

theorem BumpRun.start_inv (answers : List Nat) : (BumpRun.start answers).Inv := by
  refine ⟨⟨?_, List.Pairwise.nil⟩, ?_, Or.inl rfl⟩
  · intro r hr
    cases hr
  · intro r hr
    cases hr

theorem BumpRun.start_contained (answers : List Nat) : (BumpRun.start answers).Contained := by
  refine ⟨?_, List.Pairwise.nil⟩
  intro b hb
  cases hb

/--
**When the bump allocator stays inside its pages.**

Whatever fresh pages it is given, all blocks lie inside granted pages and apart from each other in
every state of a run exactly if every request that is served from the current page fits behind
the cursor.
-/
theorem bump_runs_iff (answers : List Nat) (sizes : List Nat) (t : BumpRun) :
    RunIf BumpRun.step (fun h _ => h.Contained) sizes (BumpRun.start answers) t ∧ t.Contained ↔
      RunIf BumpRun.step BumpRun.StepOk sizes (BumpRun.start answers) t := by
  have hiff := runIf_iff_of_step (C := BumpRun.StepOk) BumpRun.Inv BumpRun.Contained
    (fun _ _ => True)
    (fun h op t hi hc hs => ⟨by rw [true_and]; exact (BumpRun.step_iff hi hc hs).1,
      (BumpRun.step_iff hi hc hs).2⟩)
    sizes (t := t) (BumpRun.start_inv answers) (BumpRun.start_contained answers)
  simpa only [and_true] using hiff

/-- After 8191 bytes in two pages one byte is left, but a request of 4000 is served from there. -/
theorem bump_overruns : ∃ t, run BumpRun.step [8191, 4000] (BumpRun.start [0x10000]) = some t ∧
    t.blocks = [⟨0x11fff, 4000⟩, ⟨0x10000, 8191⟩] ∧ t.grants.granted = [⟨0x10000, 8192⟩] ∧
    ¬ t.Contained := by
  refine ⟨_, rfl, rfl, rfl, fun h => ?_⟩
  have hcover := h.1 ⟨0x11fff, 4000⟩ List.mem_cons_self 0x12000 (by decide)
  exact absurd hcover (by decide)

end BloreOs
