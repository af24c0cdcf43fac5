import BloreOs.Lib.Chain
import BloreOs.Mem.Pmm

/-!
# The SLOB allocator (`slob.c`)

The free list is a chain of `struct SlobEntry` records in memory: 24 bytes with the link at offset
0, the physical base of a free range at 8 and its length at 16. The first entries are written into
a table that `slob_init` takes from the memory map. Later ones are allocated by `slob_free` from
the very ranges they describe. In front of every block stands a `struct SlobHeader` of 8 bytes.

Links and blocks are pointers into the direct map, bases are physical addresses.

The log output of `kprintf` is left out.
-/

namespace BloreOs

open Loop

/-- The globals of `slob.c`, over those of `mem.c`. -/
structure Slob where
  pmm : Pmm
  init : Bool
  pHead : Nat

namespace Slob

/-- The globals before the first call. -/
def zero (pmm : Pmm) : Slob where
  pmm := pmm
  init := false
  pHead := 0

def mem (s : Slob) : Memory := s.pmm.mem

def offset (s : Slob) : Nat := s.pmm.vmmHigherHalfOffset

def setMem (s : Slob) (m : Memory) : Slob := { s with pmm := { s.pmm with mem := m } }

end Slob

/-- `pEntry->pNext`. -/
def pNext (m : Memory) (p : Nat) : Nat := m.load p 8

/-- `pEntry->base`. -/
def entryBase (m : Memory) (p : Nat) : Nat := m.load (p + 8) 8

/-- `pEntry->length`. -/
def entryLength (m : Memory) (p : Nat) : Nat := m.load (p + 16) 8

/-! ## `slob_init` -/

/-- The second loop of `slob_init`: one record for every usable entry, linked to the next one. -/
def initEntries (pHead numEntries : Nat) : List MemmapEntry → Nat → Memory → Memory
  | [], _, m => m
  | entry :: es, entryIndex, m =>
    if entry.type = .usable then
      let p := pHead + 24 * entryIndex
      let m := m.store (p + 16) 8 entry.length
      let m := m.store (p + 8) 8 entry.base
      let m := m.store p 8 (if entryIndex + 1 < numEntries then pHead + 24 * (entryIndex + 1) else 0)
      initEntries pHead numEntries es (entryIndex + 1) m
    else initEntries pHead numEntries es entryIndex m

/-- `slob_init`. The second loop walks the map that `memmap_alloc` has left. -/
def slobInit (s : Slob) : Outcome Slob Unit :=
  let numEntries := (usable s.pmm.memmap).length
  match memmapAlloc (mul64 24 numEntries) s.pmm with
  | .ret p pmm =>
    .ret () { s with
      pHead := p
      pmm := { pmm with mem := initEntries p numEntries pmm.memmap 0 pmm.mem } }
  | .halt pmm => .halt { s with pmm := pmm }
  | .spin pmm => .spin { s with pmm := pmm }

/-! ## `slob_malloc` and `slob_free` -/

/-- Whether an entry can hold `size` bytes and a header. -/
def entryFits (m : Memory) (size p : Nat) : Bool := decide (add64 size 8 ≤ entryLength m p)

/-- Split a block of `size` bytes off the front of the entry at `p`. The base is read again after
the header has been written. -/
def slobSplit (s : Slob) (size p : Nat) : Nat × Slob :=
  let totalSize := add64 8 size
  let m := s.mem.store (add64 (entryBase s.mem p) s.offset) 8 totalSize
  let pAlloc := add64 (add64 (entryBase m p) 8) s.offset
  let m := m.store (p + 8) 8 (add64 (entryBase m p) totalSize)
  let m := m.store (p + 16) 8 (sub64 (entryLength m p) totalSize)
  (pAlloc, s.setMem m)

/-- The part of `slob_malloc` after the lazy initialisation. Pointers have 64 bits, so a walk of
`2 ^ 64` steps has been in a cycle. 0 is the `NULL` of a failed allocation. -/
def slobFind (size : Nat) (s : Slob) : Outcome Slob Nat :=
  match loop (Chain.search (entryFits s.mem size) (pNext s.mem)) (2 ^ 64) s.pHead with
  | none => .spin s
  | some none => .ret 0 s
  | some (some p) => .ret (slobSplit s size p).1 (slobSplit s size p).2

/-- The lazy initialisation in `slob_malloc`. -/
def slobReady (s : Slob) : Outcome Slob Unit :=
  if s.init then .ret () s else (slobInit s).bind fun _ s => .ret () { s with init := true }

/-- `slob_malloc`. -/
def slobMalloc (size : Nat) (s : Slob) : Outcome Slob Nat :=
  (slobReady s).bind fun _ s => slobFind size s

/-- The writes of `slob_free` into the new record at `pEntry`. -/
def slobLink (s : Slob) (pHeader pEntry : Nat) : Slob :=
  let m := s.mem.store (pEntry + 8) 8 (sub64 pHeader s.offset)
  let m := m.store (pEntry + 16) 8 (m.load pHeader 8)
  let m := m.store pEntry 8 s.pHead
  { s.setMem m with pHead := pEntry }

/-- `slob_free`. The result of the inner `slob_malloc` is not checked. -/
def slobFree (ptr : Nat) (s : Slob) : Outcome Slob Unit :=
  (slobMalloc 24 s).bind fun pEntry s => .ret () (slobLink s (sub64 ptr 8) pEntry)

end BloreOs
