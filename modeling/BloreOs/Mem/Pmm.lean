import BloreOs.Bitmap
import BloreOs.Mem.Memmap

/-!
# The physical memory manager (`mem.c`)

The state is the file's global variables and the memory they point into. `page_bitmap` and
`entry_map` are pointers: the bits and the `PageEntry` records are bytes of `mem`, reached through
the direct map at `vmm_higher_half_offset`, so nothing but their addresses keeps them apart.

The log output of `kprintf` is left out.
-/

namespace BloreOs

open Loop

/-- The globals of `mem.c` and the memory. -/
structure Pmm where
  mem : Memory
  memmap : List MemmapEntry
  vmmHigherHalfOffset : Nat
  totalMemoryBytes : Nat
  maxPagesAvailable : Nat
  highestAddress : Nat
  lowestAddress : Nat
  numPagesInMap : Nat
  pageBitmap : Nat
  entryMap : Nat
  allocationCursor : Nat
  numPagesAvailable : Nat
  lock : Bool

/-- The responses of the boot loader that `_init_stats` reads. -/
structure Boot where
  memmap : List MemmapEntry
  hhdmOffset : Nat

namespace Pmm

/-- The globals before `kmem_init`: all zero, over memory of any content. -/
def zero (mem : Memory) : Pmm where
  mem := mem
  memmap := []
  vmmHigherHalfOffset := 0
  totalMemoryBytes := 0
  maxPagesAvailable := 0
  highestAddress := 0
  lowestAddress := 0
  numPagesInMap := 0
  pageBitmap := 0
  entryMap := 0
  allocationCursor := 0
  numPagesAvailable := 0
  lock := false

/-- The global `lock`. -/
def lockAt : SpinlockAt Pmm where
  get := Pmm.lock
  put := fun s l => { s with lock := l }

/-- The bit of page `i` in the page bitmap. -/
def taken (s : Pmm) (i : Nat) : Bool := bitmapTest s.mem s.pageBitmap i

/-- `entry_map[p].pages_allocated`, a `uint32_t`. -/
def pagesAllocated (s : Pmm) (p : Nat) : Nat := s.mem.load (s.entryMap + 4 * p) 4

end Pmm

/-- `memset(s, c, n)`. -/
def memset (m : Memory) (s : Nat) (c : BitVec 8) (n : Nat) : Memory := m.fill s n c

/-! ## Initialisation -/

/-- The loop body of `_init_stats`. -/
def initStatsEntry (s : Pmm) (entry : MemmapEntry) : Pmm :=
  if entry.type = .usable then
    { s with
      totalMemoryBytes := add64 s.totalMemoryBytes entry.length
      maxPagesAvailable := add64 s.maxPagesAvailable (entry.length / pageSize)
      highestAddress := cMax s.highestAddress (add64 entry.base entry.length)
      lowestAddress :=
        if s.lowestAddress = 0 then entry.base else cMin s.lowestAddress entry.base }
  else s

/-- `_init_stats`. -/
def initStats (boot : Boot) (s : Pmm) : Pmm :=
  let s := { s with memmap := boot.memmap, vmmHigherHalfOffset := boot.hhdmOffset }
  let s := s.memmap.foldl initStatsEntry s
  { s with numPagesInMap := sub64 s.highestAddress s.lowestAddress / pageSize }

/-- The local `bitmap_size` of `_create_page_bitmap`. -/
def bitmapSize (numPagesInMap : Nat) : Nat := alignUp (numPagesInMap / 8) pageSize

/-- `_create_page_bitmap`. Without an entry that is long enough it does nothing. -/
def createPageBitmap (s : Pmm) : Pmm :=
  match carve (bitmapSize s.numPagesInMap) s.memmap with
  | none => s
  | some (base, memmap) =>
    { s with
      pageBitmap := add64 base s.vmmHigherHalfOffset
      mem := memset s.mem (add64 base s.vmmHigherHalfOffset) 0xFF (bitmapSize s.numPagesInMap)
      memmap := memmap
      maxPagesAvailable :=
        sub64 s.maxPagesAvailable (bitmapSize s.numPagesInMap / pageSize) }

/-- `memmap_alloc`. -/
def memmapAlloc (length : Nat) (s : Pmm) : Outcome Pmm Nat :=
  match carve (alignUp length pageSize) s.memmap with
  | none => hcf s
  | some (base, memmap) =>
    .ret (add64 base s.vmmHigherHalfOffset)
      { s with
        mem := memset s.mem (add64 base s.vmmHigherHalfOffset) 0 (alignUp length pageSize)
        memmap := memmap
        maxPagesAvailable := sub64 s.maxPagesAvailable (alignUp length pageSize / pageSize) }

/-- The loop body of `_get_free_pages`. `num_pages_available++` runs once for every bit. -/
def getFreePagesEntry (s : Pmm) (entry : MemmapEntry) : Pmm :=
  if entry.type = .usable then
    let startBit := sub64 entry.base s.lowestAddress / pageSize
    let stopBit := add64 startBit (entry.length / pageSize)
    { s with
      mem := bitmapOffRange s.mem s.pageBitmap startBit stopBit
      numPagesAvailable := add64 s.numPagesAvailable (stopBit - startBit) }
  else s

/-- `_get_free_pages`. -/
def getFreePages (s : Pmm) : Pmm := s.memmap.foldl getFreePagesEntry s

/-- The size of the entry table that `kmem_init` asks for; `sizeof(struct PageEntry)` is 4. -/
def entryMapSize (numPagesInMap : Nat) : Nat := alignUp (mul64 4 numPagesInMap) pageSize

/-- `kmem_init`. -/
def kmemInit (boot : Boot) (s : Pmm) : Outcome Pmm Unit :=
  let s := createPageBitmap (initStats boot s)
  (memmapAlloc (entryMapSize s.numPagesInMap) s).bind fun entryMap s =>
    .ret () (getFreePages { s with entryMap := entryMap })

/-! ## Pages and addresses -/

/-- `_get_addr_from_page`. -/
def getAddrFromPage (s : Pmm) (page : Nat) : Nat :=
  add64 (add64 s.lowestAddress (mul64 page pageSize)) s.vmmHigherHalfOffset

/-- `_get_page_from_addr`. -/
def getPageFromAddr (s : Pmm) (addr : Nat) : Nat :=
  sub64 (sub64 addr s.lowestAddress) s.vmmHigherHalfOffset / pageSize

/-- `_reserve_pages`. -/
def reservePages (s : Pmm) (startPage pages : Nat) : Memory :=
  bitmapOnRange s.mem s.pageBitmap startPage (add64 startPage pages)

/-! ## `kalloc` -/

/-- The locals of `kalloc` and the cursor, at the head of the `while` loop. -/
structure Scan where
  cursor : Nat
  startAllocPage : Nat
  allocatedPages : Nat
  looped : Bool
  allocating : Bool
deriving DecidableEq, Repr

/-- How the `while` loop of `kalloc` is left, with the cursor it leaves behind. -/
inductive ScanEnd where
  | found (startAllocPage allocatedPages cursor : Nat)
  | failed (cursor : Nat)
deriving DecidableEq, Repr

/-- The first half of the loop body: look at the page under the cursor. -/
def scanPage (pageState : Bool) (x : Scan) : Scan :=
  if !x.allocating then
    if !pageState then
      { x with startAllocPage := x.cursor, allocating := true, allocatedPages := 1 }
    else x
  else if pageState then { x with allocating := false }
  else { x with allocatedPages := add64 x.allocatedPages 1 }

/-- The second half: stop with enough pages, or forward the cursor with a bounds check. -/
def scanForward (maxPages pagesToAlloc : Nat) (x : Scan) : Scan ⊕ ScanEnd :=
  let cursor := add64 x.cursor 1
  if x.allocatedPages = pagesToAlloc then
    .inr (.found x.startAllocPage x.allocatedPages (if cursor = maxPages then 0 else cursor))
  else if cursor = maxPages then
    if x.looped then .inr (.failed 0)
    else .inl { x with cursor := 0, looped := true, allocating := false }
  else .inl { x with cursor := cursor }

/-- One iteration of the `while` loop of `kalloc`. -/
def scanBody (taken : Nat → Bool) (maxPages pagesToAlloc : Nat) (x : Scan) : Scan ⊕ ScanEnd :=
  scanForward maxPages pagesToAlloc (scanPage (taken x.cursor) x)

/-- The locals as `kalloc` initialises them. -/
def scanStart (cursor : Nat) : Scan where
  cursor := cursor
  startAllocPage := 0
  allocatedPages := 0
  looped := false
  allocating := false

/-- More iterations than a 64-bit cursor can make: the cursor meets the bound once in every
`2 ^ 64` iterations, and the second time ends the loop. -/
def scanFuel : Nat := 2 ^ 65

/-- The part of `kalloc` after pages have been found. -/
def kallocFound (s : Pmm) (startAllocPage allocatedPages cursor : Nat) : Pmm :=
  { s with
    allocationCursor := cursor
    mem := (reservePages s startAllocPage allocatedPages).store
      (s.entryMap + 4 * startAllocPage) 4 allocatedPages
    numPagesAvailable := sub64 s.numPagesAvailable allocatedPages }

/-- `kalloc`. `none` is the `NULL` of a failed allocation. -/
def kalloc (numBytes : Nat) (s : Pmm) : Outcome Pmm (Option Nat) :=
  (spinlockLock Pmm.lockAt s).bind fun _ s =>
    let pagesToAlloc := divRoundup numBytes pageSize
    match loop (scanBody s.taken s.maxPagesAvailable pagesToAlloc) scanFuel
        (scanStart s.allocationCursor) with
    | none => .spin s
    | some (.failed cursor) =>
      .ret none (spinlockUnlock Pmm.lockAt { s with allocationCursor := cursor })
    | some (.found startAllocPage allocatedPages cursor) =>
      .ret (some (getAddrFromPage s startAllocPage))
        (spinlockUnlock Pmm.lockAt (kallocFound s startAllocPage allocatedPages cursor))

/-- `kpalloc`. -/
def kpalloc (numPages : Nat) (s : Pmm) : Outcome Pmm (Option Nat) :=
  kalloc (mul64 pageSize numPages) s

/-! ## `kfree` -/

/-- One iteration of the loop of `kfree` over the bits of the block at `page`. The loop condition
reads `entry_map[page_index].pages_allocated` every time. -/
def kfreeBody (bitmap entryMap page : Nat) (x : Nat × Memory) : (Nat × Memory) ⊕ Memory :=
  if x.1 < add64 page (x.2.load (entryMap + 4 * page) 4) then
    .inl (add64 x.1 1, bitmapOff x.2 bitmap x.1)
  else .inr x.2

/-- `kfree`. Clearing bits cannot make `pages_allocated` larger, so `2 ^ 32` iterations are enough
for the loop even if the bitmap were to overlap the entry table. -/
def kfree (ptr : Nat) (s : Pmm) : Outcome Pmm Unit :=
  (spinlockLock Pmm.lockAt s).bind fun _ s =>
    let page := getPageFromAddr s ptr
    if s.maxPagesAvailable ≤ page then hcf s
    else
      match loop (kfreeBody s.pageBitmap s.entryMap page) (2 ^ 32) (page, s.mem) with
      | none => .spin s
      | some mem =>
        .ret () (spinlockUnlock Pmm.lockAt
          { s with mem := mem.store (s.entryMap + 4 * page) 4 0 })

end BloreOs
