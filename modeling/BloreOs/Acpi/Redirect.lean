import BloreOs.Acpi.IoApic

/-!
# Redirecting an interrupt (`ioapic_redirect_irq`)

The GSI of an IRQ is the IRQ itself or what an override of the MADT says. Its redirection entry are
two registers of the I/O APIC whose range it is in. On the way there the GSI becomes a `uint8_t`:

* `ioapicRedirectIrq_eq` — the override is found, and its GSI is cut to 8 bits,
* `ioapicRedirectGsi_found` — one entry is written and no other register changes,
* `ioapicRedirectIrq_iff` — when it is the entry of the GSI.

The log output of `kprintf` is left out.
-/

namespace BloreOs

/-! ## The functions -/

/-- The local `redirect` of `_ioapic_redirect_gsi`. -/
def redirectEntry (lapicId : BitVec 32) (vector : BitVec 8) (flags : BitVec 16) (status : Bool) :
    BitVec 64 :=
  let redirect := vector.setWidth 64
  let redirect := if flags &&& (1#16 <<< 1) ≠ 0#16 then redirect ||| (1#64 <<< 13) else redirect
  let redirect := if flags &&& (1#16 <<< 3) ≠ 0#16 then redirect ||| (1#64 <<< 15) else redirect
  let redirect := if !status then redirect ||| (1#64 <<< 16) else redirect
  redirect ||| (lapicId.setWidth 64 <<< 56)

/-- `_ioapic_redirect_gsi`. Without an I/O APIC for the GSI it dereferences `NULL`: `none`. -/
def ioapicRedirectGsi (lapicId : BitVec 32) (vector gsi : BitVec 8) (flags : BitVec 16)
    (status : Bool) (s : IoApics) : Option IoApics :=
  let (pIOApic, s) := getIoapicFromGsi gsi.toNat s
  if pIOApic = 0 then none
  else
    let redirect := redirectEntry lapicId vector flags status
    let reg : BitVec 32 := (gsi.setWidth 32 - BitVec.ofNat 32 (s.acpi.gsiBase pIOApic)) * 2 + 16
    let s := ioapicWrite pIOApic (reg.setWidth 8) (redirect.setWidth 32) s
    some (ioapicWrite pIOApic ((reg + 1).setWidth 8) ((redirect >>> 32).setWidth 32) s)

/-- The loop of `ioapic_redirect_irq`. The parameter `gsi` of `_ioapic_redirect_gsi` is a `uint8_t`. -/
def redirectOverride (lapicId : BitVec 32) (vector irq : BitVec 8) (status : Bool) (s : IoApics) :
    List Nat → Option IoApics
  | [] => ioapicRedirectGsi lapicId vector irq 0 status s
  | pISO :: l =>
    if pISO = 0 then ioapicRedirectGsi lapicId vector irq 0 status s
    else if irq.toNat = s.acpi.irqSource pISO then
      ioapicRedirectGsi lapicId vector (BitVec.ofNat 8 (s.acpi.gsi pISO)) (s.acpi.flags pISO) status s
    else redirectOverride lapicId vector irq status s l

/-- `ioapic_redirect_irq` -/
def ioapicRedirectIrq (lapicId : BitVec 32) (vector irq : BitVec 8) (status : Bool) (s : IoApics) :
    Option IoApics :=
  redirectOverride lapicId vector irq status s s.acpi.isoList.slots

/-! ## The entry -/

/-- The GSI and the flags that the MADT gives an IRQ. -/
def Acpi.route (a : Acpi) (irq : BitVec 8) : Nat × BitVec 16 :=
  match a.isoList.listed.find? fun q => irq.toNat = a.irqSource q with
  | some q => (a.gsi q, a.flags q)
  | none => (irq.toNat, 0)

variable {lapicId : BitVec 32} {vector irq gsi : BitVec 8} {flags : BitVec 16} {status : Bool}
  {s t : IoApics} {p q g e : Nat}

theorem redirectOverride_eq (s : IoApics) : ∀ l : List Nat,
    redirectOverride lapicId vector irq status s l =
      match (l.takeWhile (· ≠ 0)).find? fun q => irq.toNat = s.acpi.irqSource q with
      | some q => ioapicRedirectGsi lapicId vector (BitVec.ofNat 8 (s.acpi.gsi q)) (s.acpi.flags q)
          status s
      | none => ioapicRedirectGsi lapicId vector irq 0 status s
  | [] => rfl
  | q :: l => by
    rw [redirectOverride]
    by_cases h0 : q = 0
    · rw [if_pos h0, h0]
      rfl
    · rw [if_neg h0, List.takeWhile_cons_of_pos (by simpa using h0)]
      by_cases hirq : irq.toNat = s.acpi.irqSource q
      · rw [if_pos hirq, List.find?_cons_of_pos (by simpa using hirq)]
      · rw [if_neg hirq, List.find?_cons_of_neg (by simpa using hirq)]
        exact redirectOverride_eq s l

/-- **The GSI of the override is cut to 8 bits.** -/
theorem ioapicRedirectIrq_eq (s : IoApics) : ioapicRedirectIrq lapicId vector irq status s =
    ioapicRedirectGsi lapicId vector (BitVec.ofNat 8 (s.acpi.route irq).1) (s.acpi.route irq).2
      status s := by
  rw [ioapicRedirectIrq, redirectOverride_eq, Acpi.route, PtrArray.listed]
  split
  · rfl
  · rw [BitVec.ofNat_toNat, BitVec.setWidth_eq]

/-- The registers of redirection entry `e`. -/
def lowReg (e : Nat) : BitVec 8 := BitVec.ofNat 8 (2 * e + 16)

/-- The upper half of the entry. -/
def highReg (e : Nat) : BitVec 8 := BitVec.ofNat 8 (2 * e + 17)

namespace IoApics

/-- Redirection entry `e` of an I/O APIC. -/
def entry (s : IoApics) (p e : Nat) : BitVec 64 :=
  s.regs (s.window p) (highReg e) ++ s.regs (s.window p) (lowReg e)

/-- `t` is `s` with entry `e` of the I/O APIC `p` set to `v`, up to the selected registers. -/
structure WroteEntry (s t : IoApics) (p e : Nat) (v : BitVec 64) : Prop where
  acpi : t.acpi = s.acpi
  offset : t.vmmHigherHalfOffset = s.vmmHigherHalfOffset
  entry : t.entry p e = v
  other : ∀ b k, ¬ (b = s.window p ∧ (k = lowReg e ∨ k = highReg e)) → t.regs b k = s.regs b k

end IoApics

/-! ## Writing an entry -/

theorem regs_ioapicWrite_self (p : Nat) (k : BitVec 8) (v : BitVec 32) (s : IoApics) :
    (ioapicWrite p k v s).regs (s.window p) k = v := by
  rw [ioapicWrite_eq]
  dsimp only
  rw [Function.update_self, Function.update_self]

theorem regs_ioapicWrite_other {b : Nat} {k k' : BitVec 8} {v : BitVec 32}
    (h : ¬ (b = s.window p ∧ k' = k)) : (ioapicWrite p k v s).regs b k' = s.regs b k' := by
  rw [ioapicWrite_eq]
  dsimp only
  by_cases hb : b = s.window p
  · rw [hb, Function.update_self, Function.update_of_ne fun hk => h ⟨hb, hk⟩]
  · rw [Function.update_of_ne hb]

theorem window_ioapicWrite (q : Nat) (k : BitVec 8) (v : BitVec 32) (s : IoApics) :
    (ioapicWrite q k v s).window p = s.window p := by
  rw [ioapicWrite_eq]
  rfl

theorem lowReg_ne_highReg (e : Nat) : lowReg e ≠ highReg e := by
  intro h
  have := congrArg BitVec.toNat h
  simp only [lowReg, highReg, BitVec.toNat_ofNat] at this
  omega

/-- A 64-bit value written in two halves. -/
theorem wroteEntry_writes (s : IoApics) (p e : Nat) (v : BitVec 64) :
    s.WroteEntry (ioapicWrite p (highReg e) ((v >>> 32).setWidth 32)
      (ioapicWrite p (lowReg e) (v.setWidth 32) s)) p e v := by
  refine ⟨?_, ?_, ?_, fun b k hbk => ?_⟩
  · rw [ioapicWrite_eq, ioapicWrite_eq]
  · rw [ioapicWrite_eq, ioapicWrite_eq]
  · have hhigh := regs_ioapicWrite_self p (highReg e) ((v >>> 32).setWidth 32)
      (ioapicWrite p (lowReg e) (v.setWidth 32) s)
    have hlow : (ioapicWrite p (highReg e) ((v >>> 32).setWidth 32)
        (ioapicWrite p (lowReg e) (v.setWidth 32) s)).regs (s.window p) (lowReg e)
          = v.setWidth 32 := by
      rw [regs_ioapicWrite_other fun h => lowReg_ne_highReg e h.2, regs_ioapicWrite_self]
    rw [window_ioapicWrite] at hhigh
    rw [IoApics.entry, window_ioapicWrite, window_ioapicWrite, hhigh, hlow]
    refine BitVec.eq_of_getLsbD_eq fun i hi => ?_
    rw [BitVec.getLsbD_append]
    by_cases h32 : i < 32
    · simp [h32]
    · simp [h32, show i - 32 < 32 by omega, show 32 + (i - 32) = i by omega]
  · rw [regs_ioapicWrite_other fun h => hbk ?_, regs_ioapicWrite_other fun h => hbk ?_]
    · exact ⟨h.1, Or.inl h.2⟩
    · exact ⟨h.1.trans (window_ioapicWrite _ _ _ _), Or.inr h.2⟩

/-- **One entry is written**, that of the GSI. -/
theorem ioapicRedirectGsi_found {sel : Nat → BitVec 8}
    (hfind : getIoapicFromGsi gsi.toNat s = (p, { s with regsel := sel })) (hp : p ≠ 0)
    (hbase : s.acpi.gsiBase p ≤ gsi.toNat) :
    ∃ t, ioapicRedirectGsi lapicId vector gsi flags status s = some t ∧
      s.WroteEntry t p (gsi.toNat - s.acpi.gsiBase p) (redirectEntry lapicId vector flags status) := by
  have hgsi := gsi.isLt
  have hreg : ((gsi.setWidth 32 - BitVec.ofNat 32 (s.acpi.gsiBase p)) * 2 + 16 : BitVec 32) =
      BitVec.ofNat 32 (2 * (gsi.toNat - s.acpi.gsiBase p) + 16) := by
    refine BitVec.eq_of_toNat_eq ?_
    simp only [BitVec.ofNat_eq_ofNat, BitVec.toNat_add, BitVec.toNat_mul, BitVec.toNat_sub,
      BitVec.toNat_setWidth, BitVec.toNat_ofNat]
    omega
  have hlow : (BitVec.ofNat 32 (2 * (gsi.toNat - s.acpi.gsiBase p) + 16)).setWidth 8 =
      lowReg (gsi.toNat - s.acpi.gsiBase p) := by
    refine BitVec.eq_of_toNat_eq ?_
    simp only [lowReg, BitVec.toNat_setWidth, BitVec.toNat_ofNat]
    omega
  have hhigh : (BitVec.ofNat 32 (2 * (gsi.toNat - s.acpi.gsiBase p) + 16) + 1).setWidth 8 =
      highReg (gsi.toNat - s.acpi.gsiBase p) := by
    refine BitVec.eq_of_toNat_eq ?_
    simp only [highReg, BitVec.ofNat_eq_ofNat, BitVec.toNat_setWidth, BitVec.toNat_add,
      BitVec.toNat_ofNat]
    omega
  unfold ioapicRedirectGsi
  rw [hfind]
  dsimp only
  rw [if_neg hp, hreg, hlow, hhigh]
  have hwrote := wroteEntry_writes { s with regsel := sel } p (gsi.toNat - s.acpi.gsiBase p)
    (redirectEntry lapicId vector flags status)
  exact ⟨_, rfl, hwrote.acpi, hwrote.offset, hwrote.entry, hwrote.other⟩

/-! ## The bits of the entry -/

theorem and_bit_ne_zero {w k : Nat} (hk : k < w) (x : BitVec w) :
    x &&& (1#w <<< k) ≠ 0#w ↔ x.getLsbD k = true := by
  rw [← BitVec.twoPow_eq, BitVec.and_twoPow]
  cases hx : x.getLsbD k with
  | false => simp
  | true =>
    refine iff_of_true (fun h => ?_) rfl
    have hbit := congrArg (fun y => y.getLsbD k) h
    simp [hk] at hbit

/-- Set bit `k` if `c` holds. -/
theorem getLsbD_ite_or_bit {k : Nat} (hk : k < 64) (c : Prop) [Decidable c] (x : BitVec 64) (i : Nat) :
    (if c then x ||| (1#64 <<< k) else x).getLsbD i = (x.getLsbD i || decide (i = k ∧ c)) := by
  by_cases hc : c
  · rw [if_pos hc, BitVec.getLsbD_or, ← BitVec.twoPow_eq, BitVec.getLsbD_twoPow]
    simp [hk, hc, eq_comm]
  · rw [if_neg hc]
    simp [hc]

/-- **The bits of the entry.** -/
theorem getLsbD_redirectEntry (lapicId : BitVec 32) (vector : BitVec 8) (flags : BitVec 16)
    (status : Bool) {i : Nat} (hi : i < 64) :
    (redirectEntry lapicId vector flags status).getLsbD i =
      (vector.getLsbD i || decide (i = 13 ∧ flags.getLsbD 1 = true) ||
        decide (i = 15 ∧ flags.getLsbD 3 = true) || decide (i = 16 ∧ status = false) ||
        (decide (56 ≤ i) && lapicId.getLsbD (i - 56))) := by
  unfold redirectEntry
  dsimp only
  rw [BitVec.getLsbD_or, getLsbD_ite_or_bit (by decide), getLsbD_ite_or_bit (by decide),
    getLsbD_ite_or_bit (by decide), BitVec.getLsbD_setWidth, BitVec.getLsbD_shiftLeft,
    BitVec.getLsbD_setWidth]
  simp only [and_bit_ne_zero (show 1 < 16 by decide), and_bit_ne_zero (show 3 < 16 by decide)]
  have h64 : i - 56 < 64 := by omega
  by_cases h56 : i < 56
  · simp [hi, h56]
  · simp [hi, h56, h64, Nat.le_of_not_lt h56]

/-- What a redirection entry says: the vector, the polarity, the trigger mode, the mask and the
destination. -/
structure Routes (v : BitVec 64) (lapicId : BitVec 32) (vector : BitVec 8) (flags : BitVec 16)
    (status : Bool) : Prop where
  vector : v.extractLsb' 0 8 = vector
  polarity : v.getLsbD 13 = flags.getLsbD 1
  trigger : v.getLsbD 15 = flags.getLsbD 3
  mask : v.getLsbD 16 = !status
  destination : v.extractLsb' 56 8 = lapicId.setWidth 8

theorem redirectEntry_routes (lapicId : BitVec 32) (vector : BitVec 8) (flags : BitVec 16)
    (status : Bool) :
    Routes (redirectEntry lapicId vector flags status) lapicId vector flags status := by
  have hbit : ∀ i, 8 ≤ i → vector.getLsbD i = false := fun i hi => BitVec.getLsbD_of_ge vector i hi
  refine ⟨?_, ?_, ?_, ?_, ?_⟩
  · refine BitVec.eq_of_getLsbD_eq fun i hi => ?_
    rw [BitVec.getLsbD_extractLsb', getLsbD_redirectEntry _ _ _ _ (by omega)]
    simp [hi, show i ≠ 13 by omega, show i ≠ 15 by omega, show i ≠ 16 by omega,
      show ¬ 56 ≤ i by omega]
  · rw [getLsbD_redirectEntry _ _ _ _ (by decide), hbit 13 (by decide)]
    simp
  · rw [getLsbD_redirectEntry _ _ _ _ (by decide), hbit 15 (by decide)]
    simp
  · rw [getLsbD_redirectEntry _ _ _ _ (by decide), hbit 16 (by decide)]
    simp
  · refine BitVec.eq_of_getLsbD_eq fun i hi => ?_
    rw [BitVec.getLsbD_extractLsb', getLsbD_redirectEntry _ _ _ _ (by omega), hbit _ (by omega),
      BitVec.getLsbD_setWidth]
    simp [hi, show 56 + i ≠ 13 by omega, show 56 + i ≠ 15 by omega, show 56 + i ≠ 16 by omega]

/-! ## The result -/

/-- The lookup of the GSI that `_ioapic_redirect_gsi` is given. -/
theorem ioapicRedirectGsi_cases (lapicId : BitVec 32) (vector gsi : BitVec 8) (flags : BitVec 16)
    (status : Bool) (s : IoApics) :
    ((s.listed.find? fun p => s.Scanned p gsi.toNat) = none ∧
        ioapicRedirectGsi lapicId vector gsi flags status s = none) ∨
      ∃ p ∈ s.listed, s.Scanned p gsi.toNat ∧
        (s.listed.find? fun p => s.Scanned p gsi.toNat) = some p ∧
        ∃ t, ioapicRedirectGsi lapicId vector gsi flags status s = some t ∧
          s.WroteEntry t p (gsi.toNat - s.acpi.gsiBase p)
            (redirectEntry lapicId vector flags status) := by
  obtain ⟨sel, hget⟩ := getIoapicFromGsi_eq gsi.toNat s
  cases hfind : s.listed.find? fun p => s.Scanned p gsi.toNat with
  | none =>
    rw [hfind, Option.getD_none] at hget
    refine Or.inl ⟨rfl, ?_⟩
    rw [ioapicRedirectGsi, hget]
    rfl
  | some p =>
    rw [hfind, Option.getD_some] at hget
    have hp := List.mem_of_find?_eq_some hfind
    have hin : s.Scanned p gsi.toNat := by simpa using List.find?_some hfind
    exact Or.inr ⟨p, hp, hin, rfl,
      ioapicRedirectGsi_found hget (PtrArray.ne_zero_of_mem_listed hp) hin.1⟩

/-- The same I/O APICs with any contents of the redirection tables. -/
structure IoApics.SameChips (s s' : IoApics) : Prop where
  acpi : s'.acpi = s.acpi
  offset : s'.vmmHigherHalfOffset = s.vmmHigherHalfOffset
  version : ∀ b, s'.regs b ioapicVer = s.regs b ioapicVer

/-- The call programs exactly the entry of the GSI of the IRQ. -/
def RedirectsTo (s : IoApics) (lapicId : BitVec 32) (vector irq : BitVec 8) (status : Bool)
    (p : Nat) : Prop :=
  ∃ t v, ioapicRedirectIrq lapicId vector irq status s = some t ∧
    s.WroteEntry t p ((s.acpi.route irq).1 - s.acpi.gsiBase p) v ∧
    Routes v lapicId vector (s.acpi.route irq).2 status

namespace IoApics.SameChips

variable {s' : IoApics} (h : s.SameChips s')
include h

theorem window_eq (p : Nat) : s'.window p = s.window p := by
  rw [window, window, h.acpi, h.offset]

theorem maxEntry_eq (p : Nat) : s'.maxEntry p = s.maxEntry p := by
  rw [maxEntry, maxEntry, h.window_eq, h.version]

theorem scanned_iff (p g : Nat) : s'.Scanned p g ↔ s.Scanned p g := by
  rw [Scanned, Scanned, h.acpi, h.maxEntry_eq]

theorem listed_eq : s'.listed = s.listed := by
  rw [listed, listed, h.acpi]

end IoApics.SameChips

/-- A GSI that fits 8 bits is redirected. -/
theorem redirectsTo_of_lt (hapart : s.listed.Pairwise fun p q => ∀ x, s.Scanned p x → ¬ s.Scanned q x)
    (hlt : (s.acpi.route irq).1 < 256) (hp : p ∈ s.listed) (hin : s.Scanned p (s.acpi.route irq).1) :
    RedirectsTo s lapicId vector irq status p := by
  have hgsi : (BitVec.ofNat 8 (s.acpi.route irq).1).toNat = (s.acpi.route irq).1 := by
    rw [BitVec.toNat_ofNat]
    exact Nat.mod_eq_of_lt hlt
  have hcases := ioapicRedirectGsi_cases lapicId vector (BitVec.ofNat 8 (s.acpi.route irq).1)
    (s.acpi.route irq).2 status s
  rw [← ioapicRedirectIrq_eq, hgsi] at hcases
  rcases hcases with ⟨hnone, -⟩ | ⟨q, hq, hinq, -, t, ht, hwrote⟩
  · exact absurd hin (by simpa using List.find?_eq_none.mp hnone p hp)
  · rw [eq_of_apart hapart hp hq hin hinq] at hwrote
    exact ⟨t, _, ht, hwrote, redirectEntry_routes _ _ _ _⟩

/-- The low register of an entry is no register of another one. -/
theorem lowReg_ne (e e' : Nat) (he : e < 120) (he' : e' < 120) (hne : e ≠ e') :
    lowReg e ≠ lowReg e' ∧ lowReg e ≠ highReg e' := by
  refine ⟨fun h => ?_, fun h => ?_⟩ <;> have := congrArg BitVec.toNat h <;>
    simp only [lowReg, highReg, BitVec.toNat_ofNat] at this <;> omega

theorem lowReg_ne_ioapicVer (e : Nat) : lowReg e ≠ ioapicVer := by
  intro h
  have := congrArg BitVec.toNat h
  simp only [lowReg, ioapicVer, BitVec.ofNat_eq_ofNat, BitVec.toNat_ofNat] at this
  omega

/-- The vector in an entry is in its low register. -/
theorem extractLsb'_entry (s : IoApics) (p e : Nat) :
    (s.entry p e).extractLsb' 0 8 = (s.regs (s.window p) (lowReg e)).setWidth 8 := by
  refine BitVec.eq_of_getLsbD_eq fun i hi => ?_
  rw [IoApics.entry, BitVec.getLsbD_extractLsb', BitVec.getLsbD_append, BitVec.getLsbD_setWidth,
    Nat.zero_add, if_pos (by omega)]

theorem not_ne_self (v : BitVec 8) : ~~~v ≠ v := by
  intro h
  have h0 := congrArg (fun x => x.getLsbD 0) h
  simp at h0

/-- A GSI that does not fit is not redirected, if its vector is not there yet. -/
theorem not_redirectsTo (hwindows : s.listed.Pairwise fun p q => s.window p ≠ s.window q)
    (hsmall : ∀ p ∈ s.listed, s.maxEntry p ≤ 119) (hge : 256 ≤ (s.acpi.route irq).1)
    (hp : p ∈ s.listed) (hin : s.Scanned p (s.acpi.route irq).1)
    (hold : (s.regs (s.window p) (lowReg ((s.acpi.route irq).1 - s.acpi.gsiBase p))).setWidth 8 =
      ~~~vector) : ¬ RedirectsTo s lapicId vector irq status p := by
  rintro ⟨t, v, ht, hwrote, hroutes⟩
  have hsymm : Std.Symm fun p q => s.window p ≠ s.window q := ⟨fun _ _ h => h.symm⟩
  have hgsi : (BitVec.ofNat 8 (s.acpi.route irq).1).toNat = (s.acpi.route irq).1 % 256 :=
    BitVec.toNat_ofNat _ _
  have hcases := ioapicRedirectGsi_cases lapicId vector (BitVec.ofNat 8 (s.acpi.route irq).1)
    (s.acpi.route irq).2 status s
  rw [← ioapicRedirectIrq_eq, hgsi, ht] at hcases
  rcases hcases with ⟨-, hnone⟩ | ⟨q, hq, hinq, -, t', ht', hwrote'⟩
  · cases hnone
  · obtain rfl : t = t' := Option.some.inj ht'
    have hpmax := hsmall p hp
    have hqmax := hsmall q hq
    unfold IoApics.Scanned at hin hinq
    -- the register of the entry has not been written
    have hkept : t.regs (s.window p) (lowReg ((s.acpi.route irq).1 - s.acpi.gsiBase p)) =
        s.regs (s.window p) (lowReg ((s.acpi.route irq).1 - s.acpi.gsiBase p)) := by
      refine hwrote'.other _ _ fun h => ?_
      have hpq : p = q := by
        by_contra hne
        exact hwindows.forall hp hq hne h.1
      rw [hpq] at hin hpmax h
      have hne := lowReg_ne ((s.acpi.route irq).1 - s.acpi.gsiBase q)
        ((s.acpi.route irq).1 % 256 - s.acpi.gsiBase q) (by omega) (by omega) (by omega)
      rcases h.2 with h | h
      · exact hne.1 h
      · exact hne.2 h
    have hvector := hroutes.vector
    have hwin : t.window p = s.window p := by
      rw [IoApics.window, IoApics.window, hwrote.acpi, hwrote.offset]
    rw [← hwrote.entry, extractLsb'_entry, hwin, hkept, hold] at hvector
    exact not_ne_self vector hvector

/-- The I/O APICs with another value in one register. -/
def IoApics.setReg (s : IoApics) (b : Nat) (k : BitVec 8) (v : BitVec 32) : IoApics :=
  { s with regs := fun b' k' => if b' = b ∧ k' = k then v else s.regs b' k' }

theorem regs_setReg_self (s : IoApics) (b : Nat) (k : BitVec 8) (v : BitVec 32) :
    (s.setReg b k v).regs b k = v := if_pos ⟨rfl, rfl⟩

theorem sameChips_setReg {b : Nat} {k : BitVec 8} {v : BitVec 32} (hk : k ≠ ioapicVer) :
    s.SameChips (s.setReg b k v) :=
  ⟨rfl, rfl, fun _ => if_neg fun h => hk h.2.symm⟩

/--
**When an IRQ is redirected to its GSI.**

For I/O APICs with disjoint ranges, windows of their own and at most 120 entries each, the call
programs exactly the entry of the GSI, whatever the entries hold before, exactly if the GSI is less
than 256 or in no range.
-/
theorem ioapicRedirectIrq_iff (s : IoApics) (lapicId : BitVec 32) (vector irq : BitVec 8)
    (status : Bool)
    (hapart : s.listed.Pairwise fun p q => ∀ x, s.Scanned p x → ¬ s.Scanned q x)
    (hwindows : s.listed.Pairwise fun p q => s.window p ≠ s.window q)
    (hsmall : ∀ p ∈ s.listed, s.maxEntry p ≤ 119) :
    (∀ s', s.SameChips s' → ∀ p ∈ s.listed, s.Scanned p (s.acpi.route irq).1 →
        RedirectsTo s' lapicId vector irq status p) ↔
      (s.acpi.route irq).1 < 256 ∨ ∀ p ∈ s.listed, ¬ s.Scanned p (s.acpi.route irq).1 := by
  constructor
  · intro h
    by_contra hno
    obtain ⟨hge, hex⟩ := not_or.mp hno
    refine hex fun p hp hin => ?_
    -- the entry holds another vector before the call
    have hsame : s.SameChips (s.setReg (s.window p)
        (lowReg ((s.acpi.route irq).1 - s.acpi.gsiBase p)) ((~~~vector).setWidth 32)) :=
      sameChips_setReg (lowReg_ne_ioapicVer _)
    refine not_redirectsTo ?_ ?_ ?_ ?_ ?_ ?_ (h _ hsame p hp hin)
    · rw [hsame.listed_eq]
      exact hwindows
    · intro q hq
      rw [hsame.listed_eq] at hq
      rw [hsame.maxEntry_eq]
      exact hsmall q hq
    · exact Nat.le_of_not_lt hge
    · rw [hsame.listed_eq]
      exact hp
    · exact (hsame.scanned_iff p _).mpr hin
    · exact (congrArg (BitVec.setWidth 8) (regs_setReg_self s _ _ _)).trans (setWidth_setWidth_8 _)
  · rintro hcond s' hsame p hp hin
    have hlt : (s.acpi.route irq).1 < 256 := by
      rcases hcond with hlt | hnone
      · exact hlt
      · exact absurd hin (hnone p hp)
    refine redirectsTo_of_lt ?_ (by rw [hsame.acpi]; exact hlt) (by rw [hsame.listed_eq]; exact hp)
      (by rw [hsame.acpi]; exact (hsame.scanned_iff p _).mpr hin)
    rw [hsame.listed_eq]
    refine hapart.imp fun {a b} h x ha hb => ?_
    exact h x ((hsame.scanned_iff a x).mp ha) ((hsame.scanned_iff b x).mp hb)

theorem sampleIoApics_windows (base gsi : Nat) :
    (sampleIoApics base gsi).listed.Pairwise
      fun p q => (sampleIoApics base gsi).window p ≠ (sampleIoApics base gsi).window q := by
  refine List.pairwise_pair.mpr ?_
  unfold sampleIoApics sampleRecords IoApics.window Acpi.ioapicAddr
  dsimp only
  rw [Memory.load_store_disjoint (by decide), Memory.load_store_disjoint (by decide),
    Memory.load_store_disjoint (by decide), Memory.load_store_same,
    Memory.load_store_disjoint (by decide), Memory.load_store_disjoint (by decide),
    Memory.load_store_same]
  decide

theorem sampleIoApics_route (base gsi : Nat) (hgsi : gsi < 2 ^ 32) :
    (sampleIoApics base gsi).acpi.route 0 = (gsi, 0) := by
  have hsource : (sampleIoApics base gsi).acpi.irqSource 0x300 = 0 := by
    unfold sampleIoApics sampleRecords Acpi.irqSource
    rw [Memory.load_store_disjoint (by decide), Memory.load_store_disjoint (by decide),
      Memory.load_store_disjoint (by decide), Memory.load_store_disjoint (by decide)]
    rfl
  have htarget : (sampleIoApics base gsi).acpi.gsi 0x300 = gsi :=
    (Memory.load_store_same 4).trans (Nat.mod_eq_of_lt hgsi)
  have hflags : (sampleIoApics base gsi).acpi.flags 0x300 = 0 := by
    unfold sampleIoApics sampleRecords Acpi.flags
    rw [Memory.load_store_disjoint (by decide), Memory.load_store_disjoint (by decide),
      Memory.load_store_disjoint (by decide), Memory.load_store_disjoint (by decide)]
    rfl
  have hfind : ((sampleIoApics base gsi).acpi.isoList.listed.find?
      fun q => (0 : BitVec 8).toNat = (sampleIoApics base gsi).acpi.irqSource q) = some 0x300 :=
    List.find?_cons_of_pos (by simpa using hsource.symm)
  rw [Acpi.route, hfind]
  dsimp only
  rw [htarget, hflags]

/-- IRQ 0 is routed to GSI 30, which is pin 6 of the second I/O APIC. -/
theorem ioapicRedirectIrq_sample : RedirectsTo (sampleIoApics 24 30) 1 0x20 0 true 0x200 := by
  obtain ⟨h1, h2⟩ := sampleIoApics_gsiBase 24 30 (by decide)
  have hroute := sampleIoApics_route 24 30 (by decide)
  have hapart := sampleIoApics_apart 24 30 (by decide) (by decide)
  refine (ioapicRedirectIrq_iff (sampleIoApics 24 30) 1 0x20 0 true ?_ (sampleIoApics_windows 24 30)
    fun p _ => by rw [sampleIoApics_maxEntry]; decide).mpr (Or.inl ?_) _ ⟨rfl, rfl, fun _ => rfl⟩
    0x200 (by decide) ?_
  · exact hapart.imp fun h x hp hq => h x ⟨hp.1, hp.2.le⟩ ⟨hq.1, hq.2.le⟩
  · rw [hroute]
    decide
  · rw [hroute, IoApics.Scanned, h2, sampleIoApics_maxEntry]
    decide

/-- With the second I/O APIC at GSI 240 and IRQ 0 routed to GSI 260, its pin 20, it is pin 4 of the
first one that is programmed. -/
theorem ioapicRedirectIrq_fails_sample :
    ((sampleIoApics 240 260).listed.Pairwise fun p q =>
        ∀ x, (sampleIoApics 240 260).Owns p x → ¬ (sampleIoApics 240 260).Owns q x) ∧
      (0x200 ∈ (sampleIoApics 240 260).listed ∧
        (sampleIoApics 240 260).Scanned 0x200 ((sampleIoApics 240 260).acpi.route 0).1) ∧
      ((ioapicRedirectIrq 1 0x20 0 true (sampleIoApics 240 260)).map
          fun t => (t.entry 0x200 20, t.entry 0x100 4)) = some (0, 0x100000000000020) ∧
      ¬ RedirectsTo (sampleIoApics 240 260) 1 0x20 0 true 0x200 := by
  obtain ⟨h1, h2⟩ := sampleIoApics_gsiBase 240 260 (by decide)
  have hroute := sampleIoApics_route 240 260 (by decide)
  have hprogram : ((ioapicRedirectIrq 1 0x20 0 true (sampleIoApics 240 260)).map
      fun t => (t.entry 0x200 20, t.entry 0x100 4)) = some (0, 0x100000000000020) := by
    decide +kernel
  refine ⟨sampleIoApics_apart 240 260 (by decide) (by decide), ⟨by decide, ?_⟩, hprogram, ?_⟩
  · rw [hroute, IoApics.Scanned, h2, sampleIoApics_maxEntry]
    decide
  · rintro ⟨t, v, ht, hwrote, hroutes⟩
    rw [ht, Option.map_some, Option.some.injEq, Prod.mk.injEq] at hprogram
    have hentry := hwrote.entry
    rw [hroute, h2, show (260, (0 : BitVec 16)).1 - 240 = 20 by rfl, hprogram.1] at hentry
    have hvector := hroutes.vector
    rw [← hentry] at hvector
    exact absurd hvector (by decide)

end BloreOs
