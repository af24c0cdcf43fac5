import BloreOs.Mem.Reach

/-!
# The room for the two tables

`_create_page_bitmap` divides the number of pages by 8 before it rounds up to whole pages. The
division drops up to 7 bits, and the rounding makes up for them except where the bytes already fill
whole pages: at 1 to 7 pages more than a multiple of 32768 the last bits have no byte of their own.
The entry table is not affected.

* `TablesFit` — every page of the map has its bit and its entry inside their own table,
* `tablesFit_iff` — for which maps `kmem_init` leaves such tables.
-/

namespace BloreOs

variable {boot : Boot} {m m' : Memory} {s : Pmm} {b e i : Nat} {rest : List MemmapEntry}

/-- The bytes that `_create_page_bitmap` reserves, as the kernel addresses them. -/
def Pmm.bitmapBytes (s : Pmm) : Span := ⟨s.pageBitmap, bitmapSize s.numPagesInMap⟩

/-- The bytes that `kmem_init` reserves for the entry table. -/
def Pmm.entryBytes (s : Pmm) : Span := ⟨s.entryMap, entryMapSize s.numPagesInMap⟩

/-- Two memories agree on a range. -/
def AgreeOn (r : Span) (m m' : Memory) : Prop := ∀ a, r.Has a → m a = m' a

/-- Every access to the bit or the entry of a page of the map stays in its own table: the tables
hold them, they do not overlap, what is read depends on the own table only, and what is written
leaves everything else as it was. -/
structure TablesFit (s : Pmm) : Prop where
  bit_has : ∀ i < s.numPagesInMap, s.bitmapBytes.Has (s.pageBitmap + i / 8)
  entry_has : ∀ i < s.numPagesInMap, ∀ k < 4, s.entryBytes.Has (s.entryMap + 4 * i + k)
  apart : s.bitmapBytes.Apart s.entryBytes
  bitmapTest_local : ∀ i < s.numPagesInMap, ∀ m m', AgreeOn s.bitmapBytes m m' →
    bitmapTest m s.pageBitmap i = bitmapTest m' s.pageBitmap i
  bitmapSet_local : ∀ i < s.numPagesInMap, ∀ (m : Memory) (a : Nat), ¬ s.bitmapBytes.Has a →
    bitmapOn m s.pageBitmap i a = m a ∧ bitmapOff m s.pageBitmap i a = m a
  entryLoad_local : ∀ i < s.numPagesInMap, ∀ m m', AgreeOn s.entryBytes m m' →
    m.load (s.entryMap + 4 * i) 4 = m'.load (s.entryMap + 4 * i) 4
  entryStore_local : ∀ i < s.numPagesInMap, ∀ (m : Memory) (v a : Nat), ¬ s.entryBytes.Has a →
    m.store (s.entryMap + 4 * i) 4 v a = m a

/-- Accesses are local because the bytes they touch lie in the tables. -/
theorem tablesFit_of_has (hbit : ∀ i < s.numPagesInMap, s.bitmapBytes.Has (s.pageBitmap + i / 8))
    (hentry : ∀ i < s.numPagesInMap, ∀ k < 4, s.entryBytes.Has (s.entryMap + 4 * i + k))
    (hapart : s.bitmapBytes.Apart s.entryBytes) : TablesFit s where
  bit_has := hbit
  entry_has := hentry
  apart := hapart
  bitmapTest_local := fun i hi _ _ hag => bitmapTest_congr (hag _ (hbit i hi))
  bitmapSet_local := by
    intro i hi m a ha
    have hne : a ≠ s.pageBitmap + i / 8 := fun h => ha (h ▸ hbit i hi)
    exact ⟨Memory.set_other hne, Memory.set_other hne⟩
  entryLoad_local := by
    intro i hi m m' hag
    refine Memory.load_congr 4 fun a h1 h2 => hag a ?_
    have hk := hentry i hi (a - (s.entryMap + 4 * i)) (by omega)
    rwa [Nat.add_sub_cancel' h1] at hk
  entryStore_local := by
    intro i hi m v a ha
    refine Memory.store_outside ?_
    by_contra hc
    have hk := hentry i hi (a - (s.entryMap + 4 * i)) (by omega)
    rw [Nat.add_sub_cancel' (by omega)] at hk
    exact ha hk

/-- The page counts at which the division loses bits. -/
def BitsLost (n : Nat) : Prop := 1 ≤ n % 32768 ∧ n % 32768 ≤ 7

instance : DecidablePred BitsLost := fun _ => inferInstanceAs (Decidable (_ ∧ _))

theorem bitmapSize_capacity {n : Nat} (h : n < 2 ^ 52) : n ≤ 8 * bitmapSize n ↔ ¬ BitsLost n := by
  rw [bitmapSize_eq h, BitsLost]
  omega

namespace Booted

variable (h : Booted boot m s b e rest)
include h

theorem bytes_apart (hok : MemmapOk boot.hhdmOffset boot.memmap) :
    s.bitmapBytes.Apart s.entryBytes := by
  intro a h1 h2
  simp only [Pmm.bitmapBytes, Pmm.entryBytes, h.bitmapAt, h.tableAt, Span.has_iff] at h1 h2
  refine h.tables_apart hok (a - boot.hhdmOffset) ⟨?_, ?_⟩ ⟨?_, ?_⟩ <;> simp only <;> omega

theorem entry_has (hi : i < s.numPagesInMap) {k : Nat} (hk : k < 4) :
    s.entryBytes.Has (s.entryMap + 4 * i + k) := by
  have hsize := entryMapSize_eq h.pages_lt
  refine ⟨?_, ?_⟩
  · show s.entryMap ≤ s.entryMap + 4 * i + k
    omega
  · show s.entryMap + 4 * i + k < s.entryMap + entryMapSize s.numPagesInMap
    omega

/-- The bitmap holds all bits exactly if no bits are lost. -/
theorem bit_has_iff : (∀ i < s.numPagesInMap, s.bitmapBytes.Has (s.pageBitmap + i / 8)) ↔
    ¬ BitsLost s.numPagesInMap := by
  rw [← bitmapSize_capacity h.pages_lt]
  constructor
  · intro hall
    by_contra hc
    -- the bit of the last page
    have hlast := (hall (s.numPagesInMap - 1) (by omega)).2
    simp only [Pmm.bitmapBytes] at hlast
    have hmod := alignUp_mod (s.numPagesInMap / 8)
    change bitmapSize s.numPagesInMap % 4096 = 0 at hmod
    omega
  · intro hcap i hi
    refine ⟨Nat.le_add_right _ _, ?_⟩
    show s.pageBitmap + i / 8 < s.pageBitmap + bitmapSize s.numPagesInMap
    omega

end Booted

/--
**The tables have room for every page of the map, unless its page count is 1 to 7 above a multiple
of 32768.**
-/
theorem tablesFit_iff (boot : Boot) (m : Memory) (s : Pmm)
    (hok : MemmapOk boot.hhdmOffset boot.memmap) (h : kmemInit boot (Pmm.zero m) = .ret () s) :
    TablesFit s ↔ ¬ BitsLost boot.pages := by
  obtain ⟨b, e, rest, hb⟩ := kmemInit_booted hok h
  rw [← hb.numPagesInMap_eq]
  constructor
  · intro hfit
    exact hb.bit_has_iff.mp hfit.bit_has
  · intro hlost
    exact tablesFit_of_has (hb.bit_has_iff.mpr hlost) (fun i hi k hk => hb.entry_has hi hk)
      (hb.bytes_apart hok)

theorem tablesFit_sample : TablesFit samplePmm :=
  (tablesFit_iff sampleBoot (fun _ => 0) samplePmm sampleBoot_ok sample_kmemInit).mpr
    (by decide +kernel)

/-- A map of five pages. Its bitmap has no byte at all. -/
def fivePages : Boot where
  memmap := [⟨0x100000, 0x5000, .usable⟩]
  hhdmOffset := 0xffff800000000000

def fivePagesPmm : Pmm := (kmemInit fivePages (Pmm.zero fun _ => 0)).state?.get (by decide +kernel)

/-- Both tables start at the same address: the bits of the five pages lie in the first entry, and
the marking of free pages writes there. -/
theorem tables_overlap_sample :
    MemmapOk fivePages.hhdmOffset fivePages.memmap ∧ PageAligned fivePages.memmap ∧
      kmemInit fivePages (Pmm.zero fun _ => 0) = .ret () fivePagesPmm ∧
      fivePagesPmm.numPagesInMap = 5 ∧ fivePagesPmm.bitmapBytes.len = 0 ∧
      fivePagesPmm.entryBytes.Has (fivePagesPmm.pageBitmap + 4 / 8) ∧
      ¬ TablesFit fivePagesPmm := by
  have hpages : fivePagesPmm.numPagesInMap = 5 := by decide +kernel
  have hlen : fivePagesPmm.bitmapBytes.len = 0 := by decide +kernel
  refine ⟨⟨List.Pairwise.imp Span.Clear.apart (by decide), by decide, by decide⟩,
    by unfold PageAligned; decide, Outcome.eq_ret_of_state? _, hpages, hlen, by decide +kernel,
    fun hfit => ?_⟩
  have hbit := (hfit.bit_has 4 (by omega)).2
  rw [hlen] at hbit
  simp only [Pmm.bitmapBytes] at hbit
  omega

end BloreOs
