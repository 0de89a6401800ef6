import NewGc.Layout
import NewGc.Library.Outcome

/-!
# Space — page descriptors and the state of the page heap

The reservation is a run of 64 KB pages.  Cells are named by their global index (offset from
`base_ptr` in 8-byte cells); an address is a natural number.  The start-bit, mark-bit and card
bitmaps are functions from the index they are packed by.
-/

namespace NewGc

open Library

abbrev pageSizeCells : Nat := 8192
abbrev pageSizeBytes : Nat := 65536
abbrev cardSizeCells : Nat := 64
abbrev cardSizeBytes : Nat := 512
abbrev cardsPerPage : Nat := 128

/-! ## Page descriptors -/

namespace Generation

/-- Next generation a page promotes to. -/
def promoted : Generation → Generation
  | .Free => .Free
  | .G0 => .G1
  | .G1 => .Tenured
  | .Tenured => .Tenured

end Generation

/-- Per-page metadata. -/
structure PageDesc where
  scanStartOffset : Nat
  wordsUsed : Nat
  generation : Generation
  kind : PageKind
  pinByte : BitVec 8
  age : Nat
  nSpan : Nat
  zeroed : Bool
  deriving DecidableEq, Repr

namespace PageDesc

/-- Canonical descriptor for a free page (`PageDesc::FREE`). -/
def free : PageDesc where
  scanStartOffset := 0
  wordsUsed := 0
  generation := .Free
  kind := .Free
  pinByte := 0
  age := 0
  nSpan := 0
  zeroed := false

/-- Descriptor of a page just assigned to a cohort. -/
def fresh (generation : Generation) (kind : PageKind) : PageDesc where
  scanStartOffset := 0
  wordsUsed := 0
  generation := generation
  kind := kind
  pinByte := 0
  age := 0
  nSpan := match kind with
    | .Cons | .Boxed => 1
    | _ => 0
  zeroed := false

/-- `release`: back to `FREE`, contents unknown. -/
def release (_ : PageDesc) : PageDesc := free

/-- `release_zeroed`: back to `FREE`, contents known to be zero. -/
def releaseZeroed (_ : PageDesc) : PageDesc := { free with zeroed := true }

def hasPins (d : PageDesc) : Bool := d.pinByte != 0

/-- Pin sub-region `slot`. -/
def setPin (d : PageDesc) (slot : Nat) : PageDesc :=
  { d with pinByte := d.pinByte ||| (1#8 <<< slot) }

def clearPins (d : PageDesc) : PageDesc := { d with pinByte := 0 }

def isPinned (d : PageDesc) (slot : Nat) : Bool := (d.pinByte &&& (1#8 <<< slot)) != 0

def isLargeHead (d : PageDesc) : Bool := d.kind = .Large && 1 ≤ d.nSpan

def isLargeCont (d : PageDesc) : Bool := d.kind = .Large && d.nSpan = 0

end PageDesc

/-- `u16::saturating_add(n as u16)`. -/
def saturatingAddU16 (a n : Nat) : Nat := min 65535 (a + n % 65536)

/-! ## Start-bit pairs -/

/-- The two start bits of a cell: `00`, `01` (header object) or `11` (cons). -/
inductive StartPair
  | none
  | header
  | cons
  deriving DecidableEq, Repr

/-- `fetch_or` with `01`. -/
def StartPair.orHeader : StartPair → StartPair
  | .cons => .cons
  | _ => .header

/-! ## Allocation regions -/

/-- Currently-open page of one (generation, kind) pair; `none` is the `NO_PAGE` sentinel. -/
structure AllocRegion where
  currentPage : Option Nat
  offset : Nat
  deriving DecidableEq, Repr

def AllocRegion.empty : AllocRegion where
  currentPage := none
  offset := 0

/-! ## The heap -/

/-- Iteration order of a hash table: some permutation of its content. -/
structure HashOrder where
  iter : List Nat → List Nat
  perm : ∀ l, (iter l).Perm l

/-- Insertion order, the simplest iteration order. -/
def HashOrder.insertion : HashOrder where
  iter := id
  perm := fun l => List.Perm.refl l

/-- The page heap.  `os k` is the operating system's answer to the `k`-th commit request. -/
structure PageHeap where
  base : Nat
  nPages : Nat
  mem : Nat → Word
  committed : Nat → Bool
  os : Nat → Bool
  osRequests : Nat
  descs : Nat → PageDesc
  freePageList : List Nat
  pagesHighWater : Nat
  allocRegions : Generation → PageKind → AllocRegion
  poisoned : Bool
  bytesAllocSinceGc : Nat
  startBits : Nat → StartPair
  cards : Nat → Bool
  markBits : Nat → Bool
  hashOrder : HashOrder
  pinnedCells : List Nat
  explicitPins : List (Nat × Nat)
  recycleLiveCounts : Nat → Nat
  recycleLiveCountsTarget : Option Generation
  lastMarkLiveCells : Nat
  lastMarkLivePages : Nat
  lastZeroLivePagesReleased : Nat
  minorsSinceG0Promote : Nat
  g0PromotesSinceG1Promote : Nat
  lastPinSummary : Nat × Nat
  youngPageCap : Nat

namespace PageHeap

/-- `with_reservation`: every page Free, nothing committed. -/
def withReservation (base nPages : Nat) (os : Nat → Bool) (order : HashOrder) : PageHeap where
  base := base
  nPages := nPages
  mem := fun _ => 0
  committed := fun _ => false
  os := os
  osRequests := 0
  descs := fun _ => PageDesc.free
  freePageList := List.range nPages
  pagesHighWater := 0
  allocRegions := fun _ _ => AllocRegion.empty
  poisoned := false
  bytesAllocSinceGc := 0
  startBits := fun _ => .none
  cards := fun _ => false
  markBits := fun _ => false
  hashOrder := order
  pinnedCells := []
  explicitPins := []
  recycleLiveCounts := fun _ => 0
  recycleLiveCountsTarget := none
  lastMarkLiveCells := 0
  lastMarkLivePages := 0
  lastZeroLivePagesReleased := 0
  minorsSinceG0Promote := 0
  g0PromotesSinceG1Promote := 0
  lastPinSummary := (0, 0)
  youngPageCap := nPages

/-- `PageHeap::new`: at least four pages, and a soft cap on the pages of G0. -/
def new (base youngBytes oldBytes : Nat) (os : Nat → Bool) (order : HashOrder) : PageHeap :=
  let bytes := max (youngBytes + oldBytes) (4 * pageSizeBytes)
  let nPages := (bytes + (pageSizeBytes - 1)) / pageSizeBytes
  { withReservation base nPages os order with
    youngPageCap := min (max (youngBytes / pageSizeBytes) 2) nPages }

/-- The constructor is a reservation with a cap of its own. -/
theorem new_eq (base youngBytes oldBytes : Nat) (os : Nat → Bool) (order : HashOrder) :
    ∃ n cap, new base youngBytes oldBytes os order =
      { withReservation base n os order with youngPageCap := cap } := ⟨_, _, rfl⟩

/-! ## Addresses and pages -/

def reservedBytes (h : PageHeap) : Nat := h.nPages * pageSizeBytes

def totalCells (h : PageHeap) : Nat := h.nPages * pageSizeCells

/-- Address of a cell. -/
def cellAddr (h : PageHeap) (cell : Nat) : Nat := h.base + cell * 8

/-- Page containing an address, `none` outside the reservation. -/
def pageOf (h : PageHeap) (addr : Nat) : Option Nat :=
  if h.base ≤ addr ∧ addr < h.base + h.reservedBytes then
    some ((addr - h.base) / pageSizeBytes)
  else
    none

/-- Global cell index of an address in the reservation. -/
def cellOf (h : PageHeap) (addr : Nat) : Nat := (addr - h.base) / 8

/-! ## Field updates -/

def setDesc (h : PageHeap) (idx : Nat) (d : PageDesc) : PageHeap :=
  { h with descs := Function.update h.descs idx d }

def modifyDesc (h : PageHeap) (idx : Nat) (f : PageDesc → PageDesc) : PageHeap :=
  h.setDesc idx (f (h.descs idx))

def setCell (h : PageHeap) (cell : Nat) (w : Word) : PageHeap :=
  { h with mem := Function.update h.mem cell w }

def setAllocRegion (h : PageHeap) (generation : Generation) (kind : PageKind) (r : AllocRegion) :
    PageHeap :=
  { h with
    allocRegions :=
      Function.update h.allocRegions generation
        (Function.update (h.allocRegions generation) kind r) }

/-- Zero every cell of a page (`zero_whole_page`). -/
def zeroWholePage (h : PageHeap) (idx : Nat) : PageHeap :=
  { h with mem := fun c => if c / pageSizeCells = idx then 0 else h.mem c }

/-- Zero the page's slice of the start-bit table (`clear_page_start_bits`). -/
def clearPageStartBits (h : PageHeap) (idx : Nat) : PageHeap :=
  { h with startBits := fun c => if c / pageSizeCells = idx then .none else h.startBits c }

def clearPageCards (h : PageHeap) (idx : Nat) : PageHeap :=
  { h with cards := fun k => if k / cardsPerPage = idx then false else h.cards k }

/-! ## Start bits -/

def setStartBitAt (h : PageHeap) (cell : Nat) : PageHeap :=
  { h with startBits := Function.update h.startBits cell (h.startBits cell).orHeader }

def setConsStartBitAt (h : PageHeap) (cell : Nat) : PageHeap :=
  { h with startBits := Function.update h.startBits cell .cons }

def isStartAt (h : PageHeap) (cell : Nat) : Bool := h.startBits cell != .none

def isConsStartAt (h : PageHeap) (cell : Nat) : Bool := h.startBits cell == .cons

/-! ## Generations -/

def pagesInGen (h : PageHeap) (target : Generation) : List Nat :=
  (List.range h.nPages).filter fun i => (h.descs i).generation = target

def countPagesInGen (h : PageHeap) (target : Generation) : Nat :=
  (h.pagesInGen target).length

/-! ## Commit and decommit -/

/-- `commit_page`: `none` when the OS refuses or the index is out of range, otherwise whether this
call performed the commit, in which case the OS has zero-filled the page. -/
def commitPage (h : PageHeap) (idx : Nat) : Option Bool × PageHeap :=
  if h.nPages ≤ idx then (none, h)
  else if h.committed idx then (some false, h)
  else if h.os h.osRequests then
    (some true,
      { h.zeroWholePage idx with
        committed := Function.update h.committed idx true
        osRequests := h.osRequests + 1 })
  else (none, { h with osRequests := h.osRequests + 1 })

/-- `decommit_page`: the page loses its backing and its cards are cleared. -/
def decommitPage (h : PageHeap) (idx : Nat) : PageHeap :=
  if h.nPages ≤ idx then h
  else if h.committed idx then
    { h.clearPageCards idx with committed := Function.update h.committed idx false }
  else h

/-! ## Access to the backing -/

/-- Do the cells `[cell, cell + n)` lie on pages with backing? -/
def backed (h : PageHeap) (cell n : Nat) : Bool :=
  n == 0 ||
    (List.range' (cell / pageSizeCells)
      ((cell + n - 1) / pageSizeCells + 1 - cell / pageSizeCells)).all h.committed

/-- An access to the cells `[cell, cell + n)`. -/
def access (h : PageHeap) (cell n : Nat) : Except GcPanic Unit :=
  require (h.backed cell n) .accessViolation

/-- An access to each cell of a list. -/
def accessCells (h : PageHeap) (cells : List Nat) : Except GcPanic Unit :=
  require (cells.all fun c => h.committed (c / pageSizeCells)) .accessViolation

theorem backed_iff {h : PageHeap} {cell n : Nat} :
    h.backed cell n = true ↔ ∀ i < n, h.committed ((cell + i) / pageSizeCells) = true := by
  unfold backed
  by_cases hn : n = 0
  · subst hn
    simp
  · rw [Bool.or_eq_true, beq_iff_eq, List.all_eq_true]
    constructor
    · rintro (hzero | hall) i hi
      · exact absurd hzero hn
      · refine hall _ (List.mem_range'_1.2 ⟨Nat.div_le_div_right (by omega), ?_⟩)
        have hle : (cell + i) / pageSizeCells ≤ (cell + n - 1) / pageSizeCells :=
          Nat.div_le_div_right (by omega)
        omega
    · intro hall
      right
      intro p hp
      obtain ⟨hlo, hhi⟩ := List.mem_range'_1.1 hp
      -- the first cell of the range on page `p`
      by_cases hfirst : p = cell / pageSizeCells
      · rw [hfirst]
        exact hall 0 (by omega)
      · have hcell : cell ≤ p * pageSizeCells := by
          unfold pageSizeCells at *
          omega
        have hlast : p * pageSizeCells - cell < n := by
          unfold pageSizeCells at *
          omega
        have := hall (p * pageSizeCells - cell) hlast
        rwa [Nat.add_sub_cancel' hcell, Nat.mul_div_cancel _ (by decide)] at this

/-! ## Cards -/

/-- Mark every card the byte range `[lo, hi)` of the reservation touches. -/
def markCardsSpanned (h : PageHeap) (lo hi : Nat) : PageHeap :=
  { h with cards := fun k =>
      h.cards k ||
        (decide (lo < hi) && decide (lo / cardSizeBytes ≤ k) &&
          decide (k ≤ (hi - 1) / cardSizeBytes) && decide (k < h.nPages * cardsPerPage)) }

/-- `mark_card_at`: the write barrier. -/
def markCardAt (h : PageHeap) (slotAddr : Nat) : PageHeap :=
  if slotAddr < h.base then h
  else if slotAddr - h.base < h.reservedBytes then
    { h with cards := Function.update h.cards ((slotAddr - h.base) / cardSizeBytes) true }
  else h

/-- `true` when some cell of the card classifies as a heap pointer. -/
def cardHasHeapPointer (L : HeapLayout) (h : PageHeap) (card : Nat) : Bool :=
  (List.range' (card * cardSizeCells) cardSizeCells).any fun c =>
    (L.classify (h.mem c)).pointer?.isSome

/-- `rebuild_cards_for_old_gens`: over the touched prefix, a card is dirty iff it lies on a page in
use and some cell of it classifies as a heap pointer. -/
def rebuildCardsForOldGens (L : HeapLayout) (h : PageHeap) : PageHeap :=
  { h with cards := fun k =>
      let pageIdx := k / cardsPerPage
      if pageIdx < h.pagesHighWater then
        if (h.descs pageIdx).generation = .Free then false else h.cardHasHeapPointer L k
      else h.cards k }

/-- The reads of `rebuild_cards_for_old_gens`: every page in use of the touched prefix. -/
def accessTouched (h : PageHeap) : Except GcPanic Unit :=
  require ((List.range h.pagesHighWater).all fun p =>
    (h.descs p).generation == .Free || h.committed p) .accessViolation

/-! ## Mark bitmap -/

def isMarked (h : PageHeap) (cell : Nat) : Bool := h.markBits cell

def setMark (h : PageHeap) (cell : Nat) : PageHeap :=
  { h with markBits := Function.update h.markBits cell true }

/-- `clear_mark_bits_in_gen`. -/
def clearMarkBitsInGen (h : PageHeap) (target : Generation) : PageHeap :=
  { h with markBits := fun c =>
      if c / pageSizeCells < h.nPages ∧ (h.descs (c / pageSizeCells)).generation = target then false
      else h.markBits c }

/-- Marked cells of one page. -/
def countMarksOnPage (h : PageHeap) (idx : Nat) : Nat :=
  (List.range' (idx * pageSizeCells) pageSizeCells).countP h.markBits

/-! ## Recycle live counts -/

def recycleLiveCountsActiveFor (h : PageHeap) (target : Generation) : Bool :=
  h.recycleLiveCountsTarget = some target

def clearRecycleLiveCounts (h : PageHeap) : PageHeap :=
  { h with recycleLiveCounts := fun _ => 0, recycleLiveCountsTarget := none }

/-- `prepare_recycle_live_counts_from_marks`. -/
def prepareRecycleLiveCountsFromMarks (h : PageHeap) (target : Generation) : PageHeap :=
  let targetPages := h.pagesInGen target
  { h with
    recycleLiveCounts := fun p =>
      if p < h.nPages ∧ (h.descs p).generation = target then h.countMarksOnPage p % 65536 else 0
    lastMarkLiveCells := (targetPages.map h.countMarksOnPage).sum
    lastMarkLivePages := targetPages.countP fun p => 0 < h.countMarksOnPage p
    lastZeroLivePagesReleased := 0
    recycleLiveCountsTarget := some target }

/-- `gc_free_page_reserve_for_mutator_slab`. -/
def gcFreePageReserveForMutatorSlab (h : PageHeap) : Nat :=
  if h.nPages ≤ 1 then 0 else min ((h.nPages + 3) / 4) (h.nPages - 1)

end PageHeap

end NewGc
