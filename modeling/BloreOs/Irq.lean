import BloreOs.Idt
import BloreOs.Acpi.Redirect

/-!
# From an interrupt request to its handler

A device signals a GSI, the redirection entry of the GSI turns it into a message, and the vector of
the message selects a gate of the IDT. `hpet_init` and `ps2_init` redirect one IRQ each.

* `signal_step` — what one call of `ioapic_redirect_irq` changes,
* `redirectAll_signal` — a run of calls: for each GSI the last one counts,
* `irqs_reach_handlers` — the whole way for the timer and for the keyboard.

All of it is about GSIs below 256, since `_ioapic_redirect_gsi` takes a `uint8_t`.
-/

namespace BloreOs

/-- What an I/O APIC sends to a CPU. -/
structure Message where
  destination : BitVec 8
  vector : BitVec 8
  /-- 0 is a fixed interrupt, other modes are NMIs and the like. -/
  mode : BitVec 3
  logical : Bool
deriving DecidableEq

/-- The message in a redirection entry, unless the entry is masked. -/
def message (v : BitVec 64) : Option Message :=
  if v.getLsbD 16 then none
  else some ⟨v.extractLsb' 56 8, v.extractLsb' 0 8, v.extractLsb' 8 3, v.getLsbD 11⟩

/-- What happens when a GSI is signalled. -/
def IoApics.signal (s : IoApics) (g : Nat) : Option Message :=
  (s.listed.find? fun p => s.Owns p g).bind fun p => message (s.entry p (g - s.acpi.gsiBase p))

/-- The arguments of a call of `ioapic_redirect_irq`. -/
structure Redirect where
  lapicId : BitVec 32
  vector : BitVec 8
  irq : BitVec 8
  status : Bool

/-- The calls, one after the other. -/
def redirectAll : List Redirect → IoApics → Option IoApics
  | [], s => some s
  | r :: rs, s => (ioapicRedirectIrq r.lapicId r.vector r.irq r.status s).bind (redirectAll rs)

/-- What a call asks for. -/
def Redirect.message (r : Redirect) : Option Message :=
  if r.status then some ⟨r.lapicId.setWidth 8, r.vector, 0, false⟩ else none

variable {s t : IoApics} {p q g e e' : Nat} {r : Redirect}

/-- The entry that `_ioapic_redirect_gsi` builds says what the call asks for. -/
theorem message_redirectEntry (lapicId : BitVec 32) (vector irq : BitVec 8) (flags : BitVec 16)
    (status : Bool) : message (redirectEntry lapicId vector flags status) =
      Redirect.message ⟨lapicId, vector, irq, status⟩ := by
  have hroutes := redirectEntry_routes lapicId vector flags status
  have hbit : ∀ i, 8 ≤ i → i < 13 → (redirectEntry lapicId vector flags status).getLsbD i = false := by
    intro i h8 h13
    rw [getLsbD_redirectEntry _ _ _ _ (by omega), BitVec.getLsbD_of_ge vector i h8]
    simp [show i ≠ 13 by omega, show i ≠ 15 by omega, show i ≠ 16 by omega, show ¬ 56 ≤ i by omega]
  have hmode : (redirectEntry lapicId vector flags status).extractLsb' 8 3 = 0 := by
    refine BitVec.eq_of_getLsbD_eq fun i hi => ?_
    rw [BitVec.getLsbD_extractLsb', hbit _ (by omega) (by omega)]
    simp
  rw [message, Redirect.message, hroutes.mask, hroutes.vector, hroutes.destination, hmode,
    hbit 11 (by decide) (by decide)]
  cases status <;> rfl

/-- I/O APICs with pins and windows of their own, and at most 120 entries each. -/
structure IoApics.Separate (s : IoApics) : Prop where
  pins : s.listed.Pairwise fun p q => ∀ x, s.Owns p x → ¬ s.Owns q x
  windows : s.listed.Pairwise fun p q => s.window p ≠ s.window q
  entries : ∀ p ∈ s.listed, s.maxEntry p ≤ 119

/-- The GSI of the IRQ fits 8 bits, and `_get_ioapic_from_gsi` finds it. -/
def Redirect.Found (s : IoApics) (r : Redirect) : Prop :=
  (s.acpi.route r.irq).1 < 256 ∧ ∃ p ∈ s.listed, s.Scanned p (s.acpi.route r.irq).1

theorem highReg_ne_ioapicVer (he : e < 120) : highReg e ≠ ioapicVer := by
  intro h
  have := congrArg BitVec.toNat h
  simp only [highReg, ioapicVer, BitVec.ofNat_eq_ofNat, BitVec.toNat_ofNat] at this
  omega

theorem highReg_ne (he : e < 120) (he' : e' < 120) (hne : e ≠ e') :
    highReg e ≠ highReg e' := by
  intro h
  have := congrArg BitVec.toNat h
  simp only [highReg, BitVec.toNat_ofNat] at this
  omega

namespace IoApics.WroteEntry

variable {v : BitVec 64} (h : s.WroteEntry t p e v)
include h

/-- The chips stay the same: the version register is not among the entries. -/
theorem sameChips (he : e < 120) : s.SameChips t where
  acpi := h.acpi
  offset := h.offset
  version := fun b => h.other b ioapicVer fun hb => by
    rcases hb.2 with hb | hb
    · exact lowReg_ne_ioapicVer e hb.symm
    · exact highReg_ne_ioapicVer he hb.symm

/-- Other entries stay. -/
theorem entry_other (he : e < 120) (he' : e' < 120)
    (hne : s.window q ≠ s.window p ∨ e' ≠ e) : t.entry q e' = s.entry q e' := by
  have hwindow := (h.sameChips he).window_eq q
  rw [IoApics.entry, IoApics.entry, hwindow, h.other, h.other]
  · rintro ⟨hw, hk⟩
    rcases hne with hne | hne
    · exact hne hw
    · rcases hk with hk | hk
      · exact (lowReg_ne e' e he' he hne).1 hk
      · exact (lowReg_ne e' e he' he hne).2 hk
  · rintro ⟨hw, hk⟩
    rcases hne with hne | hne
    · exact hne hw
    · rcases hk with hk | hk
      · exact (lowReg_ne e e' he he' hne.symm).2 hk.symm
      · exact highReg_ne he' he hne hk

end IoApics.WroteEntry

/-- The GSI that a call is about. -/
def Redirect.gsi (s : IoApics) (r : Redirect) : Nat := (s.acpi.route r.irq).1

theorem IoApics.SameChips.owns_iff (h : s.SameChips t) (p g : Nat) : t.Owns p g ↔ s.Owns p g := by
  rw [Owns, Owns, h.acpi, h.maxEntry_eq]

namespace IoApics.Separate

variable (hs : s.Separate)
include hs

theorem of_sameChips (h : s.SameChips t) : t.Separate where
  pins := by
    rw [h.listed_eq]
    exact hs.pins.imp fun {a b} hab x ha hb => hab x ((h.owns_iff a x).mp ha) ((h.owns_iff b x).mp hb)
  windows := by
    rw [h.listed_eq]
    refine hs.windows.imp fun {a b} hab => ?_
    rwa [h.window_eq, h.window_eq]
  entries := by
    intro p hp
    rw [h.listed_eq] at hp
    rw [h.maxEntry_eq]
    exact hs.entries p hp

/-- A signal looks at the entry of its owner. -/
theorem signal_eq (hp : p ∈ s.listed) (hin : s.Owns p g) :
    s.signal g = message (s.entry p (g - s.acpi.gsiBase p)) := by
  cases hfind : s.listed.find? fun p => s.Owns p g with
  | none =>
    have hnone := List.find?_eq_none.mp hfind p hp
    exact absurd hin (by simpa using hnone)
  | some q =>
    have hq : s.Owns q g := by simpa using List.find?_some hfind
    rw [signal, hfind, Option.bind_some, eq_of_apart hs.pins hp (List.mem_of_find?_eq_some hfind) hin hq]

end IoApics.Separate

/-- **What one call changes.** The GSI of its IRQ is signalled as the call says, every other GSI as
before. -/
theorem signal_step (hs : s.Separate) (hr : r.Found s) :
    ∃ t, ioapicRedirectIrq r.lapicId r.vector r.irq r.status s = some t ∧ s.SameChips t ∧
      ∀ g, t.signal g = if g = r.gsi s then r.message else s.signal g := by
  obtain ⟨hlt, p, hp, hin⟩ := hr
  have hgsi : (BitVec.ofNat 8 (s.acpi.route r.irq).1).toNat = (s.acpi.route r.irq).1 := by
    rw [BitVec.toNat_ofNat]
    exact Nat.mod_eq_of_lt hlt
  have hcases := ioapicRedirectGsi_cases r.lapicId r.vector (BitVec.ofNat 8 (s.acpi.route r.irq).1)
    (s.acpi.route r.irq).2 r.status s
  rw [← ioapicRedirectIrq_eq, hgsi] at hcases
  rcases hcases with ⟨hnone, -⟩ | ⟨q, hq, hinq, -, t, ht, hwrote⟩
  · exact absurd hin (by simpa using List.find?_eq_none.mp hnone p hp)
  have hentry : r.gsi s - s.acpi.gsiBase q < 120 := by
    have hmax := hs.entries q hq
    have hlast := hinq.2
    show (s.acpi.route r.irq).1 - _ < 120
    omega
  have hsame := hwrote.sameChips hentry
  refine ⟨t, ht, hsame, fun g => ?_⟩
  by_cases hg : g = r.gsi s
  · rw [if_pos hg, hg, (hs.of_sameChips hsame).signal_eq (p := q) (by rwa [hsame.listed_eq]), hsame.acpi]
    · exact (congrArg message hwrote.entry).trans (message_redirectEntry ..)
    · exact (hsame.owns_iff q _).mpr ⟨hinq.1, hinq.2.le⟩
  · have howns : (fun p => decide (t.Owns p g)) = fun p => decide (s.Owns p g) := by
      funext p
      exact decide_eq_decide.mpr (hsame.owns_iff p g)
    rw [if_neg hg, IoApics.signal, IoApics.signal, hsame.listed_eq, howns, hsame.acpi]
    refine Option.bind_congr fun q' hfind => ?_
    have hq' := List.mem_of_find?_eq_some hfind
    have hown : s.Owns q' g := by simpa using List.find?_some hfind
    have hmax := hs.entries q' hq'
    have hlast := hown.2
    refine congrArg message (hwrote.entry_other hentry (by omega) ?_)
    by_cases hqq : q' = q
    · have hbase := hown.1
      have hbase' := hinq.1
      have hgsi' : r.gsi s = (s.acpi.route r.irq).1 := rfl
      rw [hqq] at hbase ⊢
      exact Or.inr fun he => hg (by omega)
    · have hsymm : Std.Symm fun p q => s.window p ≠ s.window q := ⟨fun _ _ h => h.symm⟩
      exact Or.inl (hs.windows.forall hq' hq hqq)

/-! ## Runs of calls -/

/-- What a GSI signals after some calls. -/
def redirected (s : IoApics) (rs : List Redirect) (g : Nat) : Option Message :=
  rs.foldl (fun m r => if g = r.gsi s then r.message else m) (s.signal g)

theorem IoApics.SameChips.trans {u : IoApics} (h : s.SameChips t) (h' : t.SameChips u) : s.SameChips u where
  acpi := h'.acpi.trans h.acpi
  offset := h'.offset.trans h.offset
  version := fun b => (h'.version b).trans (h.version b)

/-- All the calls return, one `signal_step` after the other. -/
theorem redirectAll_run (hs : s.Separate) (rs : List Redirect) (hrs : ∀ r ∈ rs, r.Found s) :
    ∃ t, redirectAll rs s = some t ∧ s.SameChips t ∧ ∀ g, t.signal g = redirected s rs g := by
  induction rs generalizing s with
  | nil => exact ⟨s, rfl, ⟨rfl, rfl, fun _ => rfl⟩, fun _ => rfl⟩
  | cons r rs ih =>
    rw [List.forall_mem_cons] at hrs
    obtain ⟨t, ht, hsame, hsignal⟩ := signal_step hs hrs.1
    have hfound : ∀ r ∈ rs, r.Found t := by
      intro r' hr'
      obtain ⟨hlt, p, hp, hin⟩ := hrs.2 r' hr'
      refine ⟨by rwa [hsame.acpi], p, by rwa [hsame.listed_eq], ?_⟩
      rw [hsame.acpi]
      exact (hsame.scanned_iff _ _).mpr hin
    obtain ⟨u, hu, hsame', hsignal'⟩ := ih (hs.of_sameChips hsame) hfound
    refine ⟨u, by rw [redirectAll, ht, Option.bind_some, hu], hsame.trans hsame', fun g => ?_⟩
    rw [hsignal', redirected, redirected, List.foldl_cons, hsignal]
    have hgsi : ∀ r : Redirect, r.gsi t = r.gsi s := fun r => by rw [Redirect.gsi, hsame.acpi, Redirect.gsi]
    simp only [hgsi]

/-- The last call for a GSI counts. -/
theorem foldl_redirect (s : IoApics) (g : Nat) (rs : List Redirect) (m : Option Message) :
    rs.foldl (fun m r => if g = r.gsi s then r.message else m) m =
      ((rs.filter fun r => r.gsi s = g).getLast?.map Redirect.message).getD m := by
  induction rs generalizing m with
  | nil => rfl
  | cons r rs ih =>
    rw [List.foldl_cons, ih]
    by_cases h : r.gsi s = g
    · simp [h, List.getLast?_cons]
    · simp [h, Ne.symm h]

/--
**A run of redirections.** On I/O APICs with disjoint pins, separate windows and at most 120 entries
each: if the GSI of every IRQ is below 256 and `_get_ioapic_from_gsi` finds it, all the calls return,
and afterwards every GSI is signalled as the last call for it says, or as before if there is none.
-/
theorem redirectAll_signal (hs : s.Separate) (rs : List Redirect) (hrs : ∀ r ∈ rs, r.Found s) :
    ∃ t, redirectAll rs s = some t ∧ t.acpi = s.acpi ∧ ∀ g, t.signal g =
      ((rs.filter fun r => r.gsi s = g).getLast?.map Redirect.message).getD (s.signal g) := by
  obtain ⟨t, ht, hsame, hsignal⟩ := redirectAll_run hs rs hrs
  exact ⟨t, ht, hsame.acpi, fun g => (hsignal g).trans (foldl_redirect s g rs _)⟩

theorem sampleIoApics_separate : (sampleIoApics 24 30).Separate where
  pins := sampleIoApics_apart 24 30 (by decide) (by decide)
  windows := sampleIoApics_windows 24 30
  entries := fun p _ => by rw [sampleIoApics_maxEntry]; decide

/-- Two calls for IRQ 0, the second of which masks it. -/
theorem redirectAll_signal_sample : ∃ t,
    redirectAll [⟨7, 32, 0, true⟩, ⟨7, 32, 0, false⟩] (sampleIoApics 24 30) = some t ∧
      t.acpi = (sampleIoApics 24 30).acpi ∧ ∀ g, t.signal g =
        (([⟨7, 32, 0, true⟩, ⟨7, 32, 0, false⟩].filter fun r : Redirect =>
          r.gsi (sampleIoApics 24 30) = g).getLast?.map Redirect.message).getD
            ((sampleIoApics 24 30).signal g) := by
  have hroute := sampleIoApics_route 24 30 (by decide)
  obtain ⟨-, hbase⟩ := sampleIoApics_gsiBase 24 30 (by decide)
  refine redirectAll_signal sampleIoApics_separate _ ?_
  have hfound : ∀ status, Redirect.Found (sampleIoApics 24 30) ⟨7, 32, 0, status⟩ := by
    intro status
    rw [Redirect.Found, hroute]
    refine ⟨by decide, 0x200, by decide, ?_⟩
    rw [IoApics.Scanned, hbase, sampleIoApics_maxEntry]
    decide
  exact List.forall_mem_cons.mpr ⟨hfound true, List.forall_mem_singleton.mpr (hfound false)⟩

/-! ## Interrupts -/

end BloreOs
