import BloreOs.Basic
import BloreOs.Lib.Span

/-!
# The Limine memory map

The boot loader hands over a list of entries. The kernel takes memory from it by **carving**: the
first usable entry that is long enough loses its front (`carve`). `memmap_alloc` and
`_create_page_bitmap` contain the same loop.

`MemmapOk` collects what the boot protocol promises about usable entries: they do not overlap,
none starts at address 0, and all of them are visible in the direct map. Page alignment is
promised as well, but kept apart (`PageAligned`) because most results do not need it.
-/

namespace BloreOs

/-- `LIMINE_MEMMAP_*`. -/
inductive MemmapType where
  | usable
  | reserved
  | acpiReclaimable
  | acpiNvs
  | badMemory
  | bootloaderReclaimable
  | kernelAndModules
  | framebuffer
deriving DecidableEq, Repr

/-- `struct limine_memmap_entry`. -/
structure MemmapEntry where
  base : Nat
  length : Nat
  type : MemmapType
deriving DecidableEq, Repr

namespace MemmapEntry

def span (e : MemmapEntry) : Span := ⟨e.base, e.length⟩

/-- The entry after its first `size` bytes have been taken. -/
def advance (e : MemmapEntry) (size : Nat) : MemmapEntry :=
  { e with base := add64 e.base size, length := e.length - size }

end MemmapEntry

/-- Take `size` bytes from the front of the first usable entry that has them. -/
def carve (size : Nat) : List MemmapEntry → Option (Nat × List MemmapEntry)
  | [] => none
  | e :: es =>
    if e.type = .usable ∧ size ≤ e.length then some (e.base, e.advance size :: es)
    else (carve size es).map fun r => (r.1, e :: r.2)

/-- The entries the kernel may use. -/
def usable (es : List MemmapEntry) : List MemmapEntry := es.filter fun e => e.type = .usable

/-- The address ranges of the usable entries. -/
def usableSpans (es : List MemmapEntry) : List Span := (usable es).map MemmapEntry.span

/-- The whole pages that the usable entries hold. -/
def usablePages (es : List MemmapEntry) : Nat :=
  ((usable es).map fun e => e.length / pageSize).sum

/-- What the boot protocol promises about the map and about the direct map at `hhdm`. -/
structure MemmapOk (hhdm : Nat) (es : List MemmapEntry) : Prop where
  apart : (usableSpans es).Pairwise Span.Apart
  inRange : ∀ e ∈ usable es, e.base + e.length + hhdm < 2 ^ 64
  base_ne_zero : ∀ e ∈ usable es, e.base ≠ 0

/-- Less than that: the usable entries are disjoint ranges of 64-bit addresses. -/
structure MemmapApart (es : List MemmapEntry) : Prop where
  apart : (usableSpans es).Pairwise Span.Apart
  inRange : ∀ e ∈ usable es, e.base < 2 ^ 64 ∧ e.base + e.length ≤ 2 ^ 64

/-- Usable entries consist of whole pages. -/
def PageAligned (es : List MemmapEntry) : Prop :=
  ∀ e ∈ usable es, e.base % pageSize = 0 ∧ e.length % pageSize = 0

variable {hhdm size b : Nat} {es es' : List MemmapEntry} {e : MemmapEntry}

theorem mem_usable : e ∈ usable es ↔ e ∈ es ∧ e.type = .usable := by
  simp [usable]

theorem usable_append (es es' : List MemmapEntry) : usable (es ++ es') = usable es ++ usable es' :=
  List.filter_append ..

theorem usable_cons_of_pos (h : e.type = .usable) : usable (e :: es) = e :: usable es := by
  simp [usable, h]

theorem usable_cons_of_neg (h : e.type ≠ .usable) : usable (e :: es) = usable es := by
  simp [usable, h]

/-! ## What carving does -/

/-- **The one thing a carve can do.** It splits the map at the first usable entry that fits. -/
theorem carve_cases (h : carve size es = some (b, es')) :
    ∃ pre e post, es = pre ++ e :: post ∧ e.type = .usable ∧ size ≤ e.length ∧ b = e.base ∧
      es' = pre ++ e.advance size :: post := by
  induction es generalizing es' with
  | nil => simp [carve] at h
  | cons e es ih =>
    rw [carve] at h
    split at h
    · next hfit =>
      simp only [Option.some.injEq, Prod.mk.injEq] at h
      exact ⟨[], e, es, rfl, hfit.1, hfit.2, h.1.symm, h.2.symm⟩
    · rw [Option.map_eq_some_iff] at h
      obtain ⟨⟨b', rest⟩, hr, heq⟩ := h
      simp only [Prod.mk.injEq] at heq
      obtain ⟨rfl, rfl⟩ := heq
      obtain ⟨pre, e', post, rfl, hu, hl, hb, rfl⟩ := ih hr
      exact ⟨e :: pre, e', post, rfl, hu, hl, hb, rfl⟩

theorem carve_eq_none : carve size es = none ↔ ∀ e ∈ usable es, e.length < size := by
  induction es with
  | nil => simp [carve, usable]
  | cons e es ih =>
    rw [carve]
    by_cases hu : e.type = .usable
    · rw [usable_cons_of_pos hu]
      by_cases hl : size ≤ e.length
      · rw [if_pos ⟨hu, hl⟩]
        simp only [List.mem_cons, forall_eq_or_imp, reduceCtorEq, false_iff, not_and]
        omega
      · rw [if_neg (fun hc => hl hc.2), Option.map_eq_none_iff, ih]
        simp only [List.mem_cons, forall_eq_or_imp]
        exact ⟨fun h => ⟨by omega, h⟩, fun h => h.2⟩
    · rw [usable_cons_of_neg hu, if_neg (fun hc => hu hc.1), Option.map_eq_none_iff, ih]

/-- The usable entries around the one that is carved. -/
theorem carve_usable (h : carve size es = some (b, es')) :
    ∃ pre e post, usable es = pre ++ e :: post ∧ size ≤ e.length ∧ b = e.base ∧
      usable es' = pre ++ e.advance size :: post := by
  obtain ⟨pre, e, post, rfl, hu, hl, hb, rfl⟩ := carve_cases h
  refine ⟨usable pre, e, usable post, ?_, hl, hb, ?_⟩
  · rw [usable_append, usable_cons_of_pos hu]
  · rw [usable_append, usable_cons_of_pos (show (e.advance size).type = .usable from hu)]

theorem carve_usable_length (h : carve size es = some (b, es')) :
    (usable es').length = (usable es).length := by
  obtain ⟨pre, e, post, h1, -, -, h2⟩ := carve_usable h
  simp [h1, h2]

theorem MemmapOk.advance_base (hok : MemmapOk hhdm es) (he : e ∈ usable es) (hl : size ≤ e.length) :
    (e.advance size).base = e.base + size := by
  have := hok.inRange e he
  exact add64_eq (by omega)

theorem MemmapOk.toApart (hok : MemmapOk hhdm es) : MemmapApart es where
  apart := hok.apart
  inRange := fun e he => by
    have := hok.inRange e he
    omega

/-- What an entry covers after its front has been taken. The base of an entry that is used up may
have wrapped. -/
theorem cover_advance {a : Nat} (hr : e.base + e.length ≤ 2 ^ 64) (hl : size ≤ e.length) :
    Span.cover [(e.advance size).span] a
      = Span.cover [⟨e.base + size, e.length - size⟩] a := by
  by_cases hlt : e.base + size < 2 ^ 64
  · rw [MemmapEntry.span, MemmapEntry.advance, add64_eq hlt]
  · have hlen : (e.advance size).span.len = e.length - size := rfl
    have hleft : ¬ (e.advance size).span.Has a := fun h => by
      have := h.1
      have := h.2
      omega
    have hright : ¬ (⟨e.base + size, e.length - size⟩ : Span).Has a := fun h => by
      obtain ⟨h1, h2⟩ := h
      simp only at h1 h2
      omega
    rw [Span.cover_cons, Span.cover_cons, if_neg hleft, if_neg hright]

/-- **The carved bytes and what is left make up what was there.** -/
theorem MemmapApart.carve_cover (hok : MemmapApart es) (h : carve size es = some (b, es')) (a : Nat) :
    Span.cover [⟨b, size⟩] a + Span.cover (usableSpans es') a = Span.cover (usableSpans es) a := by
  obtain ⟨pre, e, post, h1, hl, rfl, h2⟩ := carve_usable h
  have he : e ∈ usable es := by rw [h1]; simp
  have hadv := cover_advance (a := a) (hok.inRange e he).2 hl
  have hsplit := Span.cover_split (a := a) (b := e.base) hl
  simp only [usableSpans, h1, h2, List.map_append, List.map_cons, Span.cover_append,
    Span.cover_cons, Span.cover_nil] at hadv hsplit ⊢
  rw [show e.span = ⟨e.base, e.length⟩ from rfl]
  omega

theorem carve_cover (hok : MemmapOk hhdm es) (h : carve size es = some (b, es')) (a : Nat) :
    Span.cover [⟨b, size⟩] a + Span.cover (usableSpans es') a = Span.cover (usableSpans es) a :=
  hok.toApart.carve_cover h a

theorem carve_usablePages (hsize : size % pageSize = 0) (h : carve size es = some (b, es')) :
    usablePages es' + size / pageSize = usablePages es := by
  obtain ⟨pre, e, post, h1, hl, -, h2⟩ := carve_usable h
  have hlen : (e.length - size) / pageSize + size / pageSize = e.length / pageSize := by
    unfold pageSize at *
    omega
  simp only [usablePages, h1, h2, List.map_append, List.map_cons, List.sum_append, List.sum_cons,
    MemmapEntry.advance]
  omega

/-- A fact about usable entries that carving keeps, entry by entry. -/
theorem forall_usable_carve {P : MemmapEntry → Prop} (h : carve size es = some (b, es'))
    (hadv : ∀ e ∈ usable es, size ≤ e.length → P e → P (e.advance size))
    (hP : ∀ e ∈ usable es, P e) : ∀ e ∈ usable es', P e := by
  obtain ⟨pre, e, post, h1, hl, -, h2⟩ := carve_usable h
  have he : e ∈ usable es := by rw [h1]; simp
  intro x hx
  rw [h2] at hx
  rcases List.mem_append.mp hx with hx | hx
  · exact hP x (by rw [h1]; exact List.mem_append_left _ hx)
  · rcases List.mem_cons.mp hx with rfl | hx
    · exact hadv e he hl (hP e he)
    · exact hP x (by rw [h1]; exact List.mem_append_right _ (List.mem_cons_of_mem _ hx))

/-- **Carving leaves disjoint ranges.** -/
theorem MemmapApart.carve (hok : MemmapApart es) (h : carve size es = some (b, es')) :
    MemmapApart es' where
  apart := by
    refine Span.pairwise_of_cover_le_one fun a => ?_
    have h1 := hok.carve_cover h a
    have h2 := Span.cover_le_one hok.apart a
    omega
  inRange := by
    refine forall_usable_carve h ?_ hok.inRange
    intro e he hl hr
    show add64 e.base size < _ ∧ add64 e.base size + (e.length - size) ≤ _
    unfold add64
    omega

/-- **Carving keeps what the boot protocol promised.** -/
theorem MemmapOk.carve (hok : MemmapOk hhdm es) (h : carve size es = some (b, es')) :
    MemmapOk hhdm es' where
  apart := (hok.toApart.carve h).apart
  inRange := by
    refine forall_usable_carve h ?_ hok.inRange
    intro e he hl hr
    rw [hok.advance_base he hl]
    show e.base + size + (e.length - size) + hhdm < _
    omega
  base_ne_zero := by
    refine forall_usable_carve h ?_ hok.base_ne_zero
    intro e he hl hr
    rw [hok.advance_base he hl]
    omega

theorem PageAligned.carve (hok : MemmapOk hhdm es) (hal : PageAligned es)
    (hsize : size % pageSize = 0) (h : carve size es = some (b, es')) : PageAligned es' := by
  refine forall_usable_carve h ?_ hal
  intro e he hl hr
  rw [hok.advance_base he hl]
  show (e.base + size) % pageSize = 0 ∧ (e.length - size) % pageSize = 0
  unfold pageSize at *
  omega

/-- **Carving keeps the ranges one behind the other**, and the carved one among them. -/
theorem carve_clear (hok : MemmapOk hhdm es) (hclear : (usableSpans es).Pairwise Span.Clear)
    (h : carve size es = some (b, es')) :
    ((⟨b, size⟩ : Span) :: usableSpans es').Pairwise Span.Clear := by
  obtain ⟨pre, e, post, h1, hl, rfl, h2⟩ := carve_usable h
  have he : e ∈ usable es := by rw [h1]; simp
  have hrest : (e.advance size).span = ⟨e.base + size, e.length - size⟩ :=
    congrArg (Span.mk · _) (hok.advance_base he hl)
  rw [usableSpans, h1, List.map_append, List.map_cons, List.pairwise_append, List.pairwise_cons]
    at hclear
  obtain ⟨hpre, ⟨hmid, hpost⟩, hcross⟩ := hclear
  have hfront : ∀ r ∈ pre.map MemmapEntry.span,
      r.Clear ⟨e.base, size⟩ ∧ r.Clear ⟨e.base + size, e.length - size⟩ := fun r hr =>
    (hcross r hr e.span List.mem_cons_self).split hl
  have hback : ∀ r ∈ post.map MemmapEntry.span,
      r.Clear ⟨e.base, size⟩ ∧ r.Clear ⟨e.base + size, e.length - size⟩ := fun r hr =>
    (hmid r hr).symm.split hl
  rw [usableSpans, h2, List.map_append, List.map_cons, hrest, List.pairwise_cons,
    List.pairwise_append, List.pairwise_cons]
  refine ⟨fun r hr => ?_, hpre, ⟨fun r hr => (hback r hr).2.symm, hpost⟩, fun r hr r' hr' => ?_⟩
  · rcases List.mem_append.mp hr with hr | hr
    · exact (hfront r hr).1.symm
    · rcases List.mem_cons.mp hr with rfl | hr
      · exact Or.inl (Nat.le_refl _)
      · exact (hback r hr).1.symm
  · rcases List.mem_cons.mp hr' with rfl | hr'
    · exact (hfront r hr).2
    · exact hcross r hr r' (List.mem_cons_of_mem _ hr')

/-- The carved range lies in one usable entry. -/
theorem carve_span (h : carve size es = some (b, es')) :
    ∃ e ∈ usable es, e.base = b ∧ b + size ≤ e.base + e.length := by
  obtain ⟨pre, e, post, h1, hl, hb, -⟩ := carve_usable h
  exact ⟨e, by rw [h1]; simp, hb.symm, by omega⟩

end BloreOs
