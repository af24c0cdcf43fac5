import BloreOs.Lib.Buffer
import BloreOs.Mem.Pmm

/-!
# Copying and filling memory (`mem.c`)

`memset`, `memcpy` and `memmove` go through memory byte by byte, with counters and pointers of 64
bits. `memmove` counts up or down, so that it reads every byte before it overwrites it.

* `memsetLoop_eq_memset`, `memmove_eq_move` — they are the filling and the moving of buffers, as long
  as the ranges do not leave the address space,
* `memmove_moves` — so `memmove` is right for every overlap,
* `memcpy_eq_memmove_iff` — and `memcpy`, which always counts up, unless the destination starts inside
  the source,
* `represents_memmove` — also for arrays of larger elements, such as pixels.
-/

namespace BloreOs

open Loop Buffer

/-! ## The functions -/

/-- `pdest[i] = psrc[i]` -/
def copyByte (dest src i : BitVec 64) (m : Memory) : Memory :=
  m.set (dest + i).toNat (m (src + i).toNat)

/-- `memset`, byte by byte. The value is cut to 8 bits. -/
def memsetLoop (p : BitVec 64) (c : BitVec 32) (n : BitVec 64) (m : Memory) :
    Option (BitVec 64 × Memory) :=
  (forLoop n.toNat (0 : BitVec 64) (fun i m => some (m.set (p + i).toNat (c.setWidth 8))) m).map
    (p, ·)

/-- `memmove` -/
def memmove (dest src n : BitVec 64) (m : Memory) : Option (BitVec 64 × Memory) :=
  if dest < src then
    (forLoop n.toNat (0 : BitVec 64) (fun i m => some (copyByte dest src i m)) m).map (dest, ·)
  else if src < dest then
    (downLoop n (fun i m => some (copyByte dest src (i - 1) m)) m).map (dest, ·)
  else some (dest, m)

/-- `memcpy` -/
def memcpy (dest src n : BitVec 64) (m : Memory) : Option (BitVec 64 × Memory) :=
  (forLoop n.toNat (0 : BitVec 64) (fun i m => some (copyByte dest src i m)) m).map (dest, ·)

variable {dest src n p : BitVec 64} {m m' : Memory} {a i j k : Nat}

/-! ## Loops over a range of addresses -/

/-- The address of an element inside the address space. -/
theorem toNat_add_ofNat (hp : p.toNat + n.toNat ≤ 2 ^ 64) (hk : k < n.toNat) :
    (p + BitVec.ofNat 64 k).toNat = p.toNat + k := by
  rw [BitVec.toNat_add, BitVec.toNat_ofNat, Nat.mod_eq_of_lt (by omega : k < 2 ^ 64),
    Nat.mod_eq_of_lt (by omega)]

/-- A byte is copied as an element of a buffer is. -/
theorem copyByte_eq_copy (hdest : dest.toNat + n.toNat ≤ 2 ^ 64)
    (hsrc : src.toNat + n.toNat ≤ 2 ^ 64) (hk : k < n.toNat) (b : Buffer (BitVec 8)) :
    copyByte dest src (BitVec.ofNat 64 k) b.data = (b.copy (dest.toNat + k) (src.toNat + k)).data := by
  rw [copyByte, toNat_add_ofNat hdest hk, toNat_add_ofNat hsrc hk]
  funext a
  exact (Function.update_apply ..).symm

/-- So is a range of bytes, in any order. -/
theorem foldl_copyByte (hdest : dest.toNat + n.toNat ≤ 2 ^ 64)
    (hsrc : src.toNat + n.toNat ≤ 2 ^ 64) : ∀ (ks : List Nat) (b : Buffer (BitVec 8)),
    (∀ k ∈ ks, k < n.toNat) → ks.foldl (fun m k => copyByte dest src (BitVec.ofNat 64 k) m) b.data
      = (ks.foldl (fun b k => b.copy (dest.toNat + k) (src.toNat + k)) b).data
  | [], _, _ => rfl
  | k :: ks, b, hks => by
    rw [List.forall_mem_cons] at hks
    rw [List.foldl_cons, List.foldl_cons, copyByte_eq_copy hdest hsrc hks.1]
    exact foldl_copyByte hdest hsrc ks _ hks.2

/-- The loop that counts up. -/
theorem forLoop_copyByte (dest src n : BitVec 64) (m : Memory) :
    forLoop n.toNat (0 : BitVec 64) (fun i m => some (copyByte dest src i m)) m
      = some ((List.range n.toNat).foldl
        (fun m k => copyByte dest src (BitVec.ofNat 64 k) m) m) := by
  rw [List.range_eq_range']
  exact forLoop_eq_foldl (g := fun m i => copyByte dest src i m) n.isLt (fun _ _ _ => rfl)
    (Nat.zero_le _) m

/-- The loop that counts down. -/
theorem downLoop_copyByte (dest src n : BitVec 64) (m : Memory) :
    downLoop n (fun i m => some (copyByte dest src (i - 1) m)) m
      = some ((List.range n.toNat).reverse.foldl
        (fun m k => copyByte dest src (BitVec.ofNat 64 k) m) m) := by
  rw [downLoop_eq_foldl (g := fun m i => copyByte dest src (i - 1) m) (fun _ _ _ => rfl)]
  refine congrArg some (List.foldl_ext _ _ _ fun m k _ => ?_)
  rw [BitVec.ofNat_add]
  exact congrArg (copyByte dest src · m) (BitVec.add_sub_cancel _ _)

/-! ## Moving -/

/-- **`memmove` moves a range of a buffer.** -/
theorem memmove_eq_move (hdest : dest.toNat + n.toNat ≤ 2 ^ 64)
    (hsrc : src.toNat + n.toNat ≤ 2 ^ 64) (b : Buffer (BitVec 8)) : memmove dest src n b.data
      = some (dest, (b.move dest.toNat src.toNat n.toNat).data) := by
  rw [memmove, move]
  by_cases hup : dest < src
  · rw [if_pos hup, if_pos (BitVec.lt_def.mp hup), forLoop_copyByte,
      foldl_copyByte hdest hsrc _ _ fun k hk => List.mem_range.mp hk, Option.map_some]
  · rw [if_neg hup, if_neg (mt BitVec.lt_def.mpr hup)]
    by_cases hdown : src < dest
    · rw [if_pos hdown, if_pos (BitVec.lt_def.mp hdown), downLoop_copyByte,
        foldl_copyByte hdest hsrc _ _ fun k hk => List.mem_range.mp (List.mem_reverse.mp hk),
        Option.map_some]
    · rw [if_neg hdown, if_neg (mt BitVec.lt_def.mpr hdown)]

/--
**`memmove` is right for every overlap.**

For every memory and all ranges inside the address space: `memmove` returns `dest`, every byte of the
destination is the byte that the source held before the call, and no byte outside the destination has
changed.
-/
theorem memmove_moves (m : Memory) (dest src n : BitVec 64)
    (hdest : dest.toNat + n.toNat ≤ 2 ^ 64) (hsrc : src.toNat + n.toNat ≤ 2 ^ 64) :
    ∃ m', memmove dest src n m = some (dest, m') ∧
      (∀ i < n.toNat, m' (dest.toNat + i) = m (src.toNat + i)) ∧
      ∀ a, a < dest.toNat ∨ dest.toNat + n.toNat ≤ a → m' a = m a := by
  refine ⟨_, memmove_eq_move hdest hsrc ⟨m, 0⟩, fun i hi => ?_, fun a ha => ?_⟩
  · rw [data_move_any, if_pos (by omega), Nat.add_sub_cancel_left]
  · rw [data_move_any, if_neg (by omega)]

/-- The ranges overlap, and the destination is behind the source. -/
theorem memmove_moves_sample : ∃ m', memmove 0x1001 0x1000 3 (fun a => BitVec.ofNat 8 a)
      = some (0x1001, m') ∧ m' 0x1001 = 0 ∧ m' 0x1002 = 1 ∧ m' 0x1003 = 2 ∧ m' 0x1004 = 4 := by
  obtain ⟨m', hret, hin, hout⟩ :=
    memmove_moves (fun a => BitVec.ofNat 8 a) 0x1001 0x1000 3 (by decide) (by decide)
  exact ⟨m', hret, hin 0 (by decide), hin 1 (by decide), hin 2 (by decide),
    hout 0x1004 (Or.inr (by decide))⟩

/-! ## Copying -/

/-- The bytes that `memcpy` leaves. -/
theorem memcpy_bytes (hdest : dest.toNat + n.toNat ≤ 2 ^ 64) (hsrc : src.toNat + n.toNat ≤ 2 ^ 64)
    (m : Memory) : ∃ m', memcpy dest src n m = some (dest, m') ∧ ∀ a, m' a =
      if dest.toNat ≤ a ∧ a < dest.toNat + n.toNat then
        m (src.toNat + if src < dest then (a - dest.toNat) % (dest.toNat - src.toNat) else a - dest.toNat)
      else m a := by
  refine ⟨_, ?_, data_copy_up ⟨m, 0⟩ dest.toNat src.toNat n.toNat⟩
  rw [memcpy, forLoop_copyByte]
  have hfold := foldl_copyByte hdest hsrc (List.range n.toNat) ⟨m, 0⟩ fun k hk => List.mem_range.mp hk
  rw [Option.map_some, ← hfold]

/--
**`memcpy` is `memmove` unless the destination starts inside the source.**

For all ranges inside the address space: the two agree on every memory if and only if the destination
does not start behind the first byte of the source and in front of its end.
-/
theorem memcpy_eq_memmove_iff (dest src n : BitVec 64) (hdest : dest.toNat + n.toNat ≤ 2 ^ 64)
    (hsrc : src.toNat + n.toNat ≤ 2 ^ 64) : (∀ m, memcpy dest src n m = memmove dest src n m) ↔
      ¬ (src.toNat < dest.toNat ∧ dest.toNat < src.toNat + n.toNat) := by
  constructor
  · rintro hall ⟨hlt, hinside⟩
    -- `memcpy` writes the first byte of the source twice
    let m : Memory := fun a => if a = src.toNat then 1 else 0
    obtain ⟨m', hcpy, hbytes⟩ := memcpy_bytes hdest hsrc m
    have hmove := memmove_eq_move hdest hsrc ⟨m, 0⟩
    rw [← hall, hcpy, Option.some.injEq, Prod.mk.injEq] at hmove
    have hin : dest.toNat ≤ dest.toNat + (dest.toNat - src.toNat) ∧
        dest.toNat + (dest.toNat - src.toNat) < dest.toNat + n.toNat := by omega
    have hagain : m' (dest.toNat + (dest.toNat - src.toNat)) = 1 := by
      rw [hbytes, if_pos hin, if_pos (BitVec.lt_def.mpr hlt), Nat.add_sub_cancel_left, Nat.mod_self]
      exact if_pos (Nat.add_zero _)
    have hmoved : m' (dest.toNat + (dest.toNat - src.toNat)) = 0 := by
      rw [hmove.2, data_move_any, if_pos hin, Nat.add_sub_cancel_left]
      exact if_neg (by omega)
    rw [hagain] at hmoved
    cases hmoved
  · intro hout m
    obtain ⟨m', hcpy, hbytes⟩ := memcpy_bytes hdest hsrc m
    rw [hcpy, memmove_eq_move hdest hsrc ⟨m, 0⟩, Option.some.injEq, Prod.mk.injEq]
    refine ⟨rfl, funext fun a => ?_⟩
    rw [hbytes, data_move_any]
    by_cases hin : dest.toNat ≤ a ∧ a < dest.toNat + n.toNat
    · rw [if_pos hin, if_pos hin]
      split
      · next hback =>
        rw [BitVec.lt_def] at hback
        rw [Nat.mod_eq_of_lt (by omega)]
      · rfl
    · rw [if_neg hin, if_neg hin]

/-- Adjacent ranges agree, and overlapping ones do not. -/
theorem memcpy_eq_memmove_iff_sample :
    memcpy 0x1003 0x1000 3 (fun a => BitVec.ofNat 8 a) = memmove 0x1003 0x1000 3 (fun a => BitVec.ofNat 8 a) ∧
      ¬ ∀ m, memcpy 0x1002 0x1000 3 m = memmove 0x1002 0x1000 3 m :=
  ⟨(memcpy_eq_memmove_iff 0x1003 0x1000 3 (by decide) (by decide)).mpr (by decide) _,
    fun h => (memcpy_eq_memmove_iff 0x1002 0x1000 3 (by decide) (by decide)).mp h (by decide)⟩

/-! ## Filling -/

theorem foldl_set (a : Nat) (x : BitVec 8) : ∀ (n : Nat) (m : Memory),
    (List.range n).foldl (fun m k => m.set (a + k) x) m = m.fill a n x
  | 0, m => by
    funext i
    rw [Memory.fill_outside (by omega)]
    rfl
  | n + 1, m => by
    rw [List.range_succ, List.foldl_append, foldl_set a x n m, List.foldl_cons, List.foldl_nil]
    funext i
    simp only [Memory.set, Memory.fill]
    by_cases hi : i = a + n
    · rw [if_pos hi, if_pos (by omega)]
    · rw [if_neg hi]
      refine if_congr ?_ rfl rfl
      omega

/-- **`memset` fills a range.** -/
theorem memsetLoop_eq_memset (hp : p.toNat + n.toNat ≤ 2 ^ 64) (c : BitVec 32) (m : Memory) :
    memsetLoop p c n m = some (p, memset m p.toNat (c.setWidth 8) n.toNat) := by
  have hloop : forLoop n.toNat (0 : BitVec 64)
      (fun i m => some (m.set (p + i).toNat (c.setWidth 8))) m
      = some (m.fill p.toNat n.toNat (c.setWidth 8)) := by
    have hzero : (0 : BitVec 64).toNat ≤ n.toNat := Nat.zero_le _
    refine (forLoop_eq_foldl (g := fun m i => m.set (p + i).toNat (c.setWidth 8)) n.isLt
      (fun _ _ _ => rfl) hzero m).trans (congrArg some ?_)
    rw [← foldl_set, List.range_eq_range']
    refine List.foldl_ext _ _ _ fun m k hk => ?_
    rw [List.mem_range'_1] at hk
    rw [toNat_add_ofNat hp (lt_of_lt_of_eq hk.2 (Nat.zero_add _))]
  rw [memsetLoop, hloop, Option.map_some]
  rfl

/-! ## Arrays of larger elements -/

/-- Elements of `w` bytes each lie in memory, from the address `base` on. -/
def Represents {α : Type} (w : Nat) (enc : α → Nat → BitVec 8) (base : Nat) (b : Buffer α)
    (m : Memory) : Prop :=
  ∀ k, ∀ o < w, m (base + w * k + o) = enc (b.data k) o

variable {α : Type} {w base : Nat} {enc : α → Nat → BitVec 8} {b : Buffer α} {x : α}

/-- A byte of an element is in a range of elements exactly if the element is. -/
theorem byte_mem_iff (base : Nat) {o : Nat} (ho : o < w) : base + w * i ≤ base + w * k + o ∧
    base + w * k + o < base + w * i + w * j ↔ i ≤ k ∧ k < i + j := by
  rw [Nat.add_assoc base, Nat.add_assoc base, ← Nat.mul_add]
  constructor
  · rintro ⟨h1, h2⟩
    constructor
    · by_contra hlt
      have hle := Nat.mul_le_mul_left w (by omega : k + 1 ≤ i)
      rw [Nat.mul_add, Nat.mul_one] at hle
      omega
    · by_contra hge
      have hle := Nat.mul_le_mul_left w (by omega : i + j ≤ k)
      omega
  · rintro ⟨h1, h2⟩
    have hle := Nat.mul_le_mul_left w h1
    have hlt := Nat.mul_le_mul_left w (by omega : k + 1 ≤ i + j)
    rw [Nat.mul_add w k, Nat.mul_one] at hlt
    omega

/-- **`memmove` moves elements.** -/
theorem represents_memmove (hr : Represents w enc base b m) (hdest : dest.toNat = base + w * i)
    (hsrc : src.toNat = base + w * j) (hn : n.toNat = w * k)
    (hdest_le : dest.toNat + n.toNat ≤ 2 ^ 64) (hsrc_le : src.toNat + n.toNat ≤ 2 ^ 64) :
    ∃ m', memmove dest src n m = some (dest, m') ∧ Represents w enc base (b.move i j k) m' := by
  refine ⟨_, memmove_eq_move hdest_le hsrc_le ⟨m, 0⟩, fun e o ho => ?_⟩
  rw [data_move_any, data_move_any, hdest, hsrc, hn]
  by_cases hin : i ≤ e ∧ e < i + k
  · obtain ⟨c, rfl⟩ := Nat.exists_eq_add_of_le hin.1
    rw [if_pos ((byte_mem_iff base ho).mpr hin), if_pos hin, Nat.add_sub_cancel_left, ← hr (j + c) o ho,
      Nat.mul_add, Nat.mul_add]
    exact congrArg m (by omega)
  · rw [if_neg (mt (byte_mem_iff base ho).mp hin), if_neg hin]
    exact hr e o ho

/-- `memset` fills elements all of whose bytes are the same. -/
theorem represents_memset (hr : Represents w enc base b m) (hp : p.toNat = base + w * i)
    (hn : n.toNat = w * k) (hle : p.toNat + n.toNat ≤ 2 ^ 64) {c : BitVec 32}
    (hx : ∀ o < w, enc x o = c.setWidth 8) :
    ∃ m', memsetLoop p c n m = some (p, m') ∧ Represents w enc base (b.fill i k x) m' := by
  refine ⟨_, memsetLoop_eq_memset hle c m, fun e o ho => ?_⟩
  rw [data_fill, memset, hp, hn]
  by_cases hin : i ≤ e ∧ e < i + k
  · have hbyte := (byte_mem_iff base ho).mpr hin
    rw [Memory.fill_inside hbyte.1 hbyte.2, if_pos hin, hx o ho]
  · have hbyte := mt (byte_mem_iff base ho).mp hin
    rw [Memory.fill_outside (by omega), if_neg hin]
    exact hr e o ho

end BloreOs
