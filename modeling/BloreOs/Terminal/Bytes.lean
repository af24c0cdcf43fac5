import BloreOs.Mem.Memmove
import BloreOs.Terminal.Pixels

/-!
# The frame buffer in memory

The terminal is about pixels, `memmove` and `memset` are about bytes. `shiftScreenUpBytes` is
`_shift_screen_up` as it works on memory, and `shiftScreenUp_represents` says that it does to the
bytes of the frame buffer what `shiftScreenUp` does to the pixels.
-/

namespace BloreOs

open Buffer

/-- The bytes of a pixel, the lowest one first. -/
def pixelByte (c : UInt32) (o : Nat) : BitVec 8 := BitVec.ofNat 8 (c.toNat / 256 ^ o)

/-- `&fb[i]` -/
def pixelAddr (address : BitVec 64) (i : Nat) : BitVec 64 := address + BitVec.ofNat 64 (4 * i)

/-- `_shift_screen_up`, in memory. -/
def shiftScreenUpBytes (d : Device) (address : BitVec 64) (m : Memory) : Option Memory :=
  let start := pixelAddr address (fbindex d 0 d.glyphHeight)
  let stop := pixelAddr address (fbindex d d.width d.height)
  (memmove address start (stop - start) m).bind fun r =>
    let blankStart := pixelAddr address (fbindex d 0 (sub64 d.height d.glyphHeight))
    (memsetLoop blankStart 0 (stop - blankStart) r.2).map Prod.snd

variable {d : Device} {fb : Buffer UInt32} {address : BitVec 64} {m : Memory} {i j : Nat}

theorem toNat_pixelAddr (address : BitVec 64) (h : address.toNat + 4 * i < 2 ^ 64) :
    (pixelAddr address i).toNat = address.toNat + 4 * i := by
  rw [pixelAddr, BitVec.toNat_add, BitVec.toNat_ofNat, Nat.mod_eq_of_lt (by omega : 4 * i < 2 ^ 64),
    Nat.mod_eq_of_lt h]

/-- The bytes between two pixels. -/
theorem toNat_pixelAddr_sub (address : BitVec 64) (hij : i ≤ j) (h : 4 * j < 2 ^ 64) :
    (pixelAddr address j - pixelAddr address i).toNat = 4 * (j - i) := by
  have hj : pixelAddr address j = BitVec.ofNat 64 (4 * (j - i)) + pixelAddr address i := by
    rw [pixelAddr, pixelAddr, (by omega : 4 * j = 4 * i + 4 * (j - i)), BitVec.ofNat_add]
    ac_rfl
  rw [hj, BitVec.add_sub_cancel, BitVec.toNat_ofNat, Nat.mod_eq_of_lt (by omega)]

/-- **Scrolling moves the bytes of the frame buffer as it moves the pixels.** -/
theorem shiftScreenUp_represents (h : d.Regular)
    (hfit : address.toNat + 4 * (d.height * d.stride + d.width) ≤ 2 ^ 64)
    (hr : Represents 4 pixelByte address.toNat fb m) :
    ∃ m', shiftScreenUpBytes d address m = some m' ∧
      Represents 4 pixelByte address.toNat (shiftScreenUp d fb) m' := by
  have hheight := h.height_ge
  have hwidth := h.width_ge
  have hsmall := h.small
  have hle : d.glyphHeight * d.stride ≤ d.height * d.stride := Nat.mul_le_mul_right _ hheight
  have hle' : (d.height - d.glyphHeight) * d.stride ≤ d.height * d.stride :=
    Nat.mul_le_mul_right _ (Nat.sub_le _ _)
  have hstart : fbindex d 0 d.glyphHeight = d.glyphHeight * d.stride :=
    h.fbindex_eq hheight (Nat.zero_le _)
  have hstop : fbindex d d.width d.height = d.height * d.stride + d.width :=
    h.fbindex_eq le_rfl le_rfl
  have hblank : fbindex d 0 (sub64 d.height d.glyphHeight)
      = (d.height - d.glyphHeight) * d.stride := by
    rw [sub64_eq hheight (h.height_lt.trans (by decide))]
    exact h.fbindex_eq (Nat.sub_le _ _) (Nat.zero_le _)
  have hmove := toNat_pixelAddr_sub address (i := fbindex d 0 d.glyphHeight)
    (j := fbindex d d.width d.height) (by omega) (by omega)
  have hfill := toNat_pixelAddr_sub address (i := fbindex d 0 (sub64 d.height d.glyphHeight))
    (j := fbindex d d.width d.height) (by omega) (by omega)
  have haddr := toNat_pixelAddr address (i := fbindex d 0 d.glyphHeight) (by omega)
  have haddr' := toNat_pixelAddr address (i := fbindex d 0 (sub64 d.height d.glyphHeight)) (by omega)
  obtain ⟨m₁, hret₁, hr₁⟩ := represents_memmove hr (i := 0) (Nat.add_zero _) haddr hmove
    (by omega) (by omega)
  obtain ⟨m₂, hret₂, hr₂⟩ := represents_memset (x := 0) hr₁ haddr' hfill (by omega) (c := 0)
    (by decide)
  refine ⟨m₂, ?_, ?_⟩
  · simp only [shiftScreenUpBytes, hret₁, Option.bind_some, hret₂, Option.map_some]
  · have hcount : sub64 (4 * fbindex d d.width d.height) (4 * fbindex d 0 d.glyphHeight) / 4
        = fbindex d d.width d.height - fbindex d 0 d.glyphHeight := by
      rw [sub64_eq (by omega) (by omega)]
      omega
    rw [shiftScreenUp, hcount, blank_eq (by omega) (by omega)]
    exact hr₂

end BloreOs
