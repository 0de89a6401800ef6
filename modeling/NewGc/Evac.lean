import NewGc.Library.Outcome
import NewGc.Pin

/-!
# Evac — mark, copy, rewrite, reclaim

`evacuate_with_roots` empties one generation into another.  It marks from the presented roots,
folds in the pins, and then works through the generation's pages in chunks: phase 1 copies the
marked objects of the chunk and leaves forwarding markers, phase 2 rewrites the slots that lead to
a marker, phase 3 flips the chunk's pages that hold pins and releases the others.
-/

namespace NewGc

open Library PageHeap

/-- Tally of one evacuation. -/
structure EvacResult where
  objectsCopied : Nat
  cellsCopied : Nat
  pagesFreed : Nat
  pagesFlipped : Nat
  deriving DecidableEq, Repr

def EvacResult.zero : EvacResult where
  objectsCopied := 0
  cellsCopied := 0
  pagesFreed := 0
  pagesFlipped := 0

/-! ## Forwarding markers -/

namespace PageHeap

/-- `is_real_forward_target_at`: the address a start cell forwards to. -/
def realForwardTargetAt (L : HeapLayout) (h : PageHeap) (cell : Nat) (raw : Word) : Option Nat :=
  match L.classify raw with
  | .forwarded target =>
      if h.isStartAt cell = false then none
      else if (h.pageOf target).isNone then none
      else some target
  | _ => none

/-- `maybe_rewrite` / `maybe_rewrite_word`: the word's replacement when its target carries a
forwarding marker. -/
def maybeRewrite (L : HeapLayout) (h : PageHeap) (w : Word) : Option Word :=
  match (L.classify w).pointer? with
  | none => none
  | some (addr, _) =>
      match h.pageOf addr with
      | none => none
      | some pageIdx =>
          if (h.descs pageIdx).generation = .Free then none
          else
            let cell := h.cellOf addr
            (h.realForwardTargetAt L cell (h.mem cell)).map (L.rewritePointerAddr w)

/-- Does what `maybe_rewrite` reads of a word lie on a page with backing? -/
def followable (L : HeapLayout) (h : PageHeap) (w : Word) : Bool :=
  match (L.classify w).pointer? with
  | none => true
  | some (addr, _) =>
      match h.pageOf addr with
      | none => true
      | some pageIdx => (h.descs pageIdx).generation == .Free || h.committed pageIdx

/-- Rewrite one cell in place. -/
def rewriteCell (L : HeapLayout) (h : PageHeap) (cell : Nat) : PageHeap :=
  match h.maybeRewrite L (h.mem cell) with
  | some w => h.setCell cell w
  | none => h

/-- Rewrite a list of cells, in order. -/
def rewriteCells (L : HeapLayout) (h : PageHeap) (cells : List Nat) : PageHeap :=
  cells.foldl (rewriteCell L) h

/-- The reads of `rewriteCells`: the cells and what their words lead to. -/
def accessRewrite (L : HeapLayout) (h : PageHeap) (cells : List Nat) : Except GcPanic Unit :=
  require (cells.all fun c => h.committed (c / pageSizeCells) && h.followable L (h.mem c))
    .accessViolation

/-- The diagnostic of a failed destination allocation. -/
def midEvacOom (h : PageHeap) (fromGen destGen : Generation) (attemptedCells : Nat)
    (attemptedKind : PageKind) (copied : EvacResult) : GcStallError where
  fromGen := fromGen
  destGen := destGen
  attemptedCells := attemptedCells
  attemptedKind := attemptedKind
  freePages := h.countPagesInGen .Free
  g0Pages := h.countPagesInGen .G0
  g1Pages := h.countPagesInGen .G1
  tenuredPages := h.countPagesInGen .Tenured
  pinnedPages := ((List.range h.nPages).filter fun p => (h.descs p).hasPins).length
  pinSetSize := h.pinnedCells.length
  objectsCopiedBeforeFailure := copied.objectsCopied
  cellsCopiedBeforeFailure := copied.cellsCopied
  reservePages := h.gcFreePageReserveForMutatorSlab
  markLiveBytes := h.lastMarkLiveCells * 8
  markLivePages := h.lastMarkLivePages
  zeroLivePagesReleased := h.lastZeroLivePagesReleased
  pagesRecycledMidEvac := copied.pagesFreed

end PageHeap

/-! ## The scanner handed to the root closure -/

/-- `Mark`: visit marks the target; `Rewrite`: visit follows forwarding markers. -/
inductive EvacMode
  | mark
  | rewrite
  deriving DecidableEq, Repr

/-- The evacuator: the heap, the memory outside the reservation (`ext`, by address), the pass. -/
structure PageEvacuator where
  heap : PageHeap
  ext : Nat → Word
  fromGen : Generation
  destGen : Generation
  mode : EvacMode
  markQueue : List Nat

/-- A fresh evacuator. -/
def PageEvacuator.new (heap : PageHeap) (ext : Nat → Word) (fromGen destGen : Generation)
    (mode : EvacMode) : PageEvacuator where
  heap := heap
  ext := ext
  fromGen := fromGen
  destGen := destGen
  mode := mode
  markQueue := []

/-- A `visit_roots` closure. -/
abbrev RootVisitor := PageEvacuator → Except GcPanic PageEvacuator

namespace PageEvacuator

/-- Mark a large object from its head: pin every page of the run, record the head cell, queue it. -/
def markLarge (e : PageEvacuator) (pageIdx : Nat) : PageEvacuator :=
  let headPage := e.heap.largeHeadPage pageIdx
  let headCell := headPage * pageSizeCells
  if e.heap.isMarked headCell then e
  else
    let nSpan := (e.heap.descs headPage).nSpan
    let h := e.heap.setMark headCell
    { e with
      heap := { h with
        descs := fun p =>
          if headPage ≤ p ∧ p < headPage + nSpan then (h.descs p).setPin 0 else h.descs p
        pinnedCells := setInsert headCell h.pinnedCells }
      markQueue := headCell :: e.markQueue }

/-- `mark_visit_slot`. -/
def markVisitWord (L : HeapLayout) (e : PageEvacuator) (w : Word) : PageEvacuator :=
  match (L.classify w).pointer? with
  | none => e
  | some (addr, ptrKind) =>
      match e.heap.pageOf addr with
      | none => e
      | some pageIdx =>
          if (e.heap.descs pageIdx).generation ≠ e.fromGen then e
          else
            match (e.heap.descs pageIdx).kind with
            | .Large => e.markLarge pageIdx
            | .Free => e
            | _ =>
                let cell := e.heap.cellOf addr
                if e.heap.isStartAt cell = false then e
                else
                  match ptrKind, e.heap.isConsStartAt cell with
                  | .cons, true | .header, false =>
                      if e.heap.isMarked cell then e
                      else
                        { e with heap := e.heap.setMark cell, markQueue := cell :: e.markQueue }
                  | _, _ => e

/-- `visit`, on a slot outside the reservation. -/
def visit (L : HeapLayout) (e : PageEvacuator) (slot : Nat) : PageEvacuator :=
  match e.mode with
  | .mark => e.markVisitWord L (e.ext slot)
  | .rewrite =>
      match e.heap.maybeRewrite L (e.ext slot) with
      | some w => { e with ext := Function.update e.ext slot w }
      | none => e

/-- `visit_cell`, on a cell of the reservation. -/
def visitCell (L : HeapLayout) (e : PageEvacuator) (cell : Nat) : PageEvacuator :=
  match e.mode with
  | .mark => e.markVisitWord L (e.heap.mem cell)
  | .rewrite => { e with heap := e.heap.rewriteCell L cell }

/-- Offer the cells of a list to `visit_cell`, in order. -/
def visitCells (L : HeapLayout) (e : PageEvacuator) (cells : List Nat) : PageEvacuator :=
  cells.foldl (visitCell L) e

/-- Does what a visit of the word `w` reads lie on a page with backing? -/
def reaches (L : HeapLayout) (e : PageEvacuator) (w : Word) : Bool :=
  match e.mode with
  | .mark => true
  | .rewrite => e.heap.followable L w

/-- `visit`, faulting without backing. -/
def tryVisit (L : HeapLayout) (e : PageEvacuator) (slot : Nat) : Except GcPanic PageEvacuator := do
  require (e.reaches L (e.ext slot)) .accessViolation
  return e.visit L slot

/-- `visit_cell`, faulting without backing. -/
def tryVisitCell (L : HeapLayout) (e : PageEvacuator) (cell : Nat) :
    Except GcPanic PageEvacuator := do
  require (e.heap.committed (cell / pageSizeCells) && e.reaches L (e.heap.mem cell))
    .accessViolation
  return e.visitCell L cell

/-- `visit_cell` on the cells of a list, in order. -/
def tryVisitCells (L : HeapLayout) (e : PageEvacuator) (cells : List Nat) :
    Except GcPanic PageEvacuator :=
  cells.foldlM (tryVisitCell L) e

/-- `mark_scan_object`. -/
def markScanObject (L : HeapLayout) (e : PageEvacuator) (cell : Nat) :
    Except GcPanic PageEvacuator := do
  let isCons := match (e.heap.descs (cell / pageSizeCells)).kind with
    | .Cons => some true
    | .Boxed => some (e.heap.isConsStartAt cell)
    | .Large => some false
    | .Free => none
  let visitWords := fun cells : List Nat =>
    cells.foldl (fun e c => markVisitWord L e (e.heap.mem c)) e
  match isCons with
  | none => return e
  | some true =>
      e.heap.accessCells [cell, cell + 1]
      return visitWords [cell, cell + 1]
  | some false =>
      e.heap.access cell 1
      let layout ← L.headerLayout (e.heap.mem cell)
      let cells := List.range' (cell + layout.pointerCellsStart)
        (layout.pointerCellsEnd - layout.pointerCellsStart)
      e.heap.accessCells cells
      return visitWords cells

/-- `mark_drain`, with the same bound on the number of pops as `PageMarker.drain`. -/
def markDrainFuel (L : HeapLayout) : Nat → PageEvacuator → Except GcPanic PageEvacuator
  | 0, e => .ok e
  | fuel + 1, e =>
      match e.markQueue with
      | [] => .ok e
      | cell :: rest => do
          let e ← markScanObject L { e with markQueue := rest } cell
          markDrainFuel L fuel e

def markDrain (L : HeapLayout) (e : PageEvacuator) : Except GcPanic PageEvacuator :=
  markDrainFuel L (e.heap.totalCells + e.markQueue.length) e

/-! ## Object-aware card scan -/

/-- The walk of `visit_card_pointer_cells`: object by object until the card ends or a cell that is
no object start is met. -/
def visitCardLoop (L : HeapLayout) (cardEnd : Nat) :
    Nat → Nat → PageEvacuator → Except GcPanic PageEvacuator
  | 0, _, e => .ok e
  | fuel + 1, s, e =>
      if cardEnd ≤ s then .ok e
      else if e.heap.isStartAt s = false then .ok e
      else do
        let layout ← e.heap.objectPointerCells L s
        let e ← e.tryVisitCells L (List.range' (s + layout.pointerCellsStart)
          (layout.pointerCellsEnd - layout.pointerCellsStart))
        if layout.totalCells = 0 then return e
        else visitCardLoop L cardEnd fuel (s + layout.totalCells) e

/-- `PageEvacuator::visit_card_pointer_cells`. -/
def visitCardPointerCells (L : HeapLayout) (e : PageEvacuator) (cardStart cardEnd : Nat) :
    Except GcPanic PageEvacuator :=
  let s := match e.heap.objectStartAtOrBefore cardStart with
    | some s => s
    | none => e.heap.firstStartFrom (cardEnd - cardStart) cardStart
  visitCardLoop L cardEnd (cardEnd - s) s e

end PageEvacuator

/-! ## Phase 1: copy -/

/-- The heap and the tallies of phase 1. -/
structure CopyState where
  heap : PageHeap
  objs : Nat
  cells : Nat

namespace PageHeap

/-- `ptr::copy_nonoverlapping(src, dest, size)`. -/
def copyCells (h : PageHeap) (src dest size : Nat) : PageHeap :=
  { h with mem := fun c => if dest ≤ c ∧ c < dest + size then h.mem (c - dest + src) else h.mem c }

/-- Copy an object's cells, leave the marker, and mark the destination's cards. -/
def forwardObject (L : HeapLayout) (h : PageHeap) (src dest size : Nat) : PageHeap :=
  ((h.copyCells src dest size).setCell src (L.makeForward (h.cellAddr dest))).markCardsSpanned
    (dest * 8) (dest * 8 + size * 8)

/-- Size of the object at a start cell: two cells for a cons, otherwise what the header says. -/
def startedObjectSize (L : HeapLayout) (h : PageHeap) (cell : Nat) (isCons : Bool) :
    Except GcPanic Nat :=
  if isCons then .ok 2 else do
    h.access cell 1
    let layout ← L.headerLayout (h.mem cell)
    return layout.totalCells

/-- Destination of a copy. -/
def allocDest (h : PageHeap) (destGen : Generation) (isCons : Bool) (size : Nat) :
    Option Nat × PageHeap :=
  if isCons then h.tryAllocConsIn destGen else h.tryAllocBoxedIn destGen size

/-- One round of the cell loop of phase 1: by how far the cursor moves, and the state. -/
def phase1Cell (L : HeapLayout) (fromGen destGen : Generation) (total : EvacResult) (cell : Nat)
    (s : CopyState) : Except GcPanic (Nat × CopyState) :=
  if s.heap.isMarked cell = false then .ok (1, s)
  else if s.heap.isStartAt cell = false then .ok (1, s)
  else do
    s.heap.access cell 1
    if (s.heap.realForwardTargetAt L cell (s.heap.mem cell)).isSome then return (1, s)
    else
      let isCons := s.heap.isConsStartAt cell
      let size ← s.heap.startedObjectSize L cell isCons
      if s.heap.isPinnedCell cell then return (size, s)
      else
        match s.heap.allocDest destGen isCons size with
        | (none, h) =>
            .error (.midEvacOom (h.midEvacOom fromGen destGen size
              (if isCons then .Cons else .Boxed)
              { total with
                objectsCopied := total.objectsCopied + s.objs
                cellsCopied := total.cellsCopied + s.cells }))
        | (some dest, h) =>
            h.access cell size
            h.access dest size
            return (size,
              { heap := h.forwardObject L cell dest size
                objs := s.objs + 1
                cells := s.cells + size })

/-- One page of a chunk in phase 1. -/
def phase1ChunkPage (L : HeapLayout) (fromGen destGen : Generation) (total : EvacResult)
    (s : CopyState) (pageIdx : Nat) : Except GcPanic CopyState :=
  let d := s.heap.descs pageIdx
  if d.generation ≠ fromGen then .ok s
  else if d.kind = .Large then .ok s
  else
    let firstCell := pageIdx * pageSizeCells
    cellLoop (firstCell + d.wordsUsed) (phase1Cell L fromGen destGen total) d.wordsUsed firstCell s

/-- `phase1_copy_chunk`. -/
def phase1CopyChunk (L : HeapLayout) (h : PageHeap) (fromGen destGen : Generation)
    (chunk : List Nat) (total : EvacResult) : Except GcPanic CopyState :=
  chunk.foldlM (phase1ChunkPage L fromGen destGen total) { heap := h, objs := 0, cells := 0 }

/-! ## Phase 2: rewrite -/

/-- Pointer cells of the started object at `cell`. -/
def startedPointerCells (L : HeapLayout) (h : PageHeap) (cell : Nat) :
    Except GcPanic (Nat × List Nat) :=
  if h.isConsStartAt cell then .ok (2, [cell, cell + 1]) else do
    h.access cell 1
    let layout ← L.headerLayout (h.mem cell)
    return (layout.totalCells, List.range' (cell + layout.pointerCellsStart)
      (layout.pointerCellsEnd - layout.pointerCellsStart))

/-- One round of the cell loop of `rewrite_page`. -/
def rewritePageCell (L : HeapLayout) (cell : Nat) (h : PageHeap) :
    Except GcPanic (Nat × PageHeap) :=
  if h.isStartAt cell = false then .ok (1, h)
  else do
    h.access cell 1
    if (h.realForwardTargetAt L cell (h.mem cell)).isSome then return (1, h)
    else
      let (size, cells) ← h.startedPointerCells L cell
      h.accessRewrite L cells
      return (size, h.rewriteCells L cells)

/-- `rewrite_page`. -/
def rewritePage (L : HeapLayout) (h : PageHeap) (pageIdx : Nat) : Except GcPanic PageHeap :=
  let d := h.descs pageIdx
  if d.generation = .Free then .ok h
  else
    let firstCell := pageIdx * pageSizeCells
    cellLoop (firstCell + d.wordsUsed) (rewritePageCell L) d.wordsUsed firstCell h

/-- `rewrite_pinned_object`. -/
def rewritePinnedObject (L : HeapLayout) (h : PageHeap) (cell : Nat) : Except GcPanic PageHeap :=
  if (h.descs (cell / pageSizeCells)).generation = .Free then .ok h
  else do
    h.access cell 1
    if (h.realForwardTargetAt L cell (h.mem cell)).isSome then return h
    else
      let (_, cells) ← h.startedPointerCells L cell
      h.accessRewrite L cells
      return h.rewriteCells L cells

/-- `phase2_rewrite`: the presented slots, the destination generation, the pinned objects. -/
def phase2Rewrite (L : HeapLayout) (h : PageHeap) (ext : Nat → Word)
    (fromGen destGen : Generation) (visitRoots : RootVisitor) :
    Except GcPanic (PageHeap × (Nat → Word)) := do
  let e ← visitRoots (.new h ext fromGen destGen .rewrite)
  let h ← (e.heap.pagesInGen destGen).foldlM (rewritePage L) e.heap
  let h ← (h.hashOrder.iter h.pinnedCells).foldlM (rewritePinnedObject L) h
  return (h, e.ext)

/-! ## Phase 3: reclaim -/

/-- Flip a live large run to `destGen`. -/
def flipLargeRun (h : PageHeap) (destGen : Generation) (headPage nSpan : Nat) : PageHeap :=
  { h with
    descs := fun p =>
      if headPage ≤ p ∧ p < headPage + nSpan then
        { h.descs p with generation := destGen, age := 0, pinByte := 0 }
      else h.descs p
    startBits := fun c =>
      if headPage < c / pageSizeCells ∧ c / pageSizeCells < headPage + nSpan then .none
      else h.startBits c }

/-- Release one page of a dead large run. -/
def releaseLargePage (h : PageHeap) (pageIdx : Nat) : PageHeap :=
  (((h.clearPageStartBits pageIdx).zeroWholePage pageIdx).releasePageToFree pageIdx true).decommitPage
    pageIdx

/-- Release a small page. -/
def releaseSmallPage (h : PageHeap) (pageIdx : Nat) : PageHeap :=
  ((h.releasePageToFree pageIdx true).clearPageStartBits pageIdx).zeroWholePage pageIdx

/-- Cell ranges of the pinned objects on a page. -/
def pinnedRanges (L : HeapLayout) (h : PageHeap) (pageIdx : Nat) (pinnedWithKind : List (Nat × Bool)) :
    Except GcPanic (List (Nat × Nat)) :=
  (pinnedWithKind.filter fun e => e.1 / pageSizeCells = pageIdx).mapM fun e => do
    let size ← h.startedObjectSize L e.1 e.2
    return (e.1, size)

/-- Restore the start bit of a pinned object. -/
def restoreStartBit (h : PageHeap) (e : Nat × Bool) : PageHeap :=
  if e.2 then h.setConsStartBitAt e.1 else h.setStartBitAt e.1

/-- `zero_page_outside_ranges`. -/
def zeroPageOutsideRanges (h : PageHeap) (pageIdx : Nat) (ranges : List (Nat × Nat)) : PageHeap :=
  { h with mem := fun c =>
      if c / pageSizeCells = pageIdx ∧ (ranges.all fun r => !(r.1 ≤ c && c < r.1 + r.2)) then 0
      else h.mem c }

/-- The writes of `zero_page_outside_ranges`: none when the ranges cover the page. -/
def accessOutsideRanges (h : PageHeap) (pageIdx : Nat) (ranges : List (Nat × Nat)) :
    Except GcPanic Unit :=
  require (h.committed pageIdx ||
    (List.range' (pageIdx * pageSizeCells) pageSizeCells).all fun c =>
      ranges.any fun r => r.1 ≤ c && c < r.1 + r.2) .accessViolation

/-- Flip a small page that holds pins. -/
def flipSmallPage (L : HeapLayout) (h : PageHeap) (destGen : Generation) (pageIdx : Nat)
    (pinnedWithKind : List (Nat × Bool)) : Except GcPanic PageHeap := do
  let ranges ← h.pinnedRanges L pageIdx pinnedWithKind
  h.accessOutsideRanges pageIdx ranges
  let h := (h.modifyDesc pageIdx fun d => { d with generation := destGen, age := 0 }).clearPageStartBits
    pageIdx
  let h := (pinnedWithKind.filter fun e => e.1 / pageSizeCells = pageIdx).foldl restoreStartBit h
  let h := h.zeroPageOutsideRanges pageIdx ranges
  return ranges.foldl (fun h r => h.markCardsSpanned (r.1 * 8) (r.1 * 8 + r.2 * 8)) h

/-- The heap and the tallies of phase 3. -/
structure ReclaimState where
  heap : PageHeap
  released : Nat
  flipped : Nat

/-- One page of a chunk in phase 3. -/
def phase3Page (L : HeapLayout) (destGen : Generation) (pinnedWithKind : List (Nat × Bool))
    (s : ReclaimState) (pageIdx : Nat) : Except GcPanic ReclaimState :=
  let d := s.heap.descs pageIdx
  if d.generation = .Free then .ok s
  else if d.isLargeCont then .ok s
  else if d.isLargeHead then
    if d.hasPins then
      .ok { s with
        heap := s.heap.flipLargeRun destGen pageIdx d.nSpan
        flipped := s.flipped + d.nSpan }
    else do
      s.heap.access (pageIdx * pageSizeCells) (d.nSpan * pageSizeCells)
      return { s with
        heap := (List.range' pageIdx d.nSpan).foldl releaseLargePage s.heap
        released := s.released + d.nSpan }
  else if d.hasPins then do
    let h ← s.heap.flipSmallPage L destGen pageIdx pinnedWithKind
    return { s with heap := h, flipped := s.flipped + 1 }
  else do
    s.heap.access (pageIdx * pageSizeCells) pageSizeCells
    return { s with heap := s.heap.releaseSmallPage pageIdx, released := s.released + 1 }

/-- `phase3_reclaim`. -/
def phase3Reclaim (L : HeapLayout) (h : PageHeap) (destGen : Generation) (chunk : List Nat)
    (pinnedWithKind : List (Nat × Bool)) : Except GcPanic ReclaimState :=
  chunk.foldlM (phase3Page L destGen pinnedWithKind) { heap := h, released := 0, flipped := 0 }

/-! ## The driver -/

/-- The internal mark pass of `evacuate_with_roots`. -/
def internalMark (L : HeapLayout) (h : PageHeap) (ext : Nat → Word) (fromGen destGen : Generation)
    (visitRoots : RootVisitor) : Except GcPanic (PageHeap × (Nat → Word)) := do
  let e ← visitRoots (.new (h.clearMarkBitsInGen fromGen) ext fromGen destGen .mark)
  let e ← e.markDrain L
  return (e.heap.prepareRecycleLiveCountsFromMarks fromGen, e.ext)

/-- The pin set with the is-cons bit of each cell. -/
def pinnedWithKind (h : PageHeap) : List (Nat × Bool) :=
  (h.hashOrder.iter h.pinnedCells).map fun c => (c, h.isConsStartAt c)

/-- Reset the open pages of a generation. -/
def resetAllocRegions (h : PageHeap) (generation : Generation) : PageHeap :=
  (h.setAllocRegion generation .Cons AllocRegion.empty).setAllocRegion generation .Boxed
    AllocRegion.empty

/-- Distinct pages that hold a pinned cell. -/
def pinnedPages (h : PageHeap) : List Nat := (h.pinnedCells.map (· / pageSizeCells)).dedup

/-- Pages of the next chunk: seven eighths of the replenishable free pages, at least one, at most
what remains. -/
def chunkSize (h : PageHeap) (fromGen : Generation) (pinnedPages : List Nat) (remaining : Nat) :
    Nat :=
  let availFree := h.countPagesInGen .Free
  let pinnedPending := pinnedPages.countP fun p => (h.descs p).generation = fromGen
  min (max ((availFree - pinnedPending) * 7 / 8) 1) remaining

end PageHeap

/-- The state of the chunk loop: what is left of the page snapshot, the heap, the memory outside
the reservation and the tallies. -/
structure ChunkState where
  rest : List Nat
  heap : PageHeap
  ext : Nat → Word
  total : EvacResult

/-- What the chunk loop keeps fixed. -/
structure ChunkParams where
  fromGen : Generation
  destGen : Generation
  visitRoots : RootVisitor
  pinnedWithKind : List (Nat × Bool)
  pinnedPages : List Nat

namespace ChunkState

/-- The pages of the next chunk. -/
def chunk (p : ChunkParams) (s : ChunkState) : List Nat :=
  s.rest.take (s.heap.chunkSize p.fromGen p.pinnedPages s.rest.length)

/-- A chunk takes at least one page while there is one. -/
theorem chunkSize_pos (p : ChunkParams) (s : ChunkState) (hne : s.rest ≠ []) :
    1 ≤ s.heap.chunkSize p.fromGen p.pinnedPages s.rest.length := by
  have hpos := List.length_pos_iff.2 hne
  unfold chunkSize
  exact le_min (le_max_right _ _) hpos

/-- One iteration: copy, rewrite, reclaim. -/
def step (L : HeapLayout) (p : ChunkParams) (s : ChunkState) : Except GcPanic ChunkState := do
  let copied ← s.heap.phase1CopyChunk L p.fromGen p.destGen (s.chunk p) s.total
  let (h, ext) ← copied.heap.phase2Rewrite L s.ext p.fromGen p.destGen p.visitRoots
  let reclaimed ← h.phase3Reclaim L p.destGen (s.chunk p) p.pinnedWithKind
  return {
    rest := s.rest.drop (s.heap.chunkSize p.fromGen p.pinnedPages s.rest.length)
    heap := reclaimed.heap
    ext := ext
    total :=
      { objectsCopied := s.total.objectsCopied + copied.objs
        cellsCopied := s.total.cellsCopied + copied.cells
        pagesFreed := s.total.pagesFreed + reclaimed.released
        pagesFlipped := s.total.pagesFlipped + reclaimed.flipped } }

/-- The chunk loop; every iteration takes at least one page of `rest`. -/
def loop (L : HeapLayout) (p : ChunkParams) : Nat → ChunkState → Except GcPanic ChunkState
  | 0, s => .ok s
  | fuel + 1, s =>
      if s.rest = [] then .ok s
      else do
        let s ← s.step L p
        loop L p fuel s

end ChunkState

namespace PageHeap

/-- Step 1 of `evacuate_with_roots`: populate the marks unless the caller already has, then
reconcile the pin set. -/
def markAndPin (L : HeapLayout) (h : PageHeap) (ext : Nat → Word) (fromGen destGen : Generation)
    (visitRoots : RootVisitor) : Except GcPanic (PageHeap × (Nat → Word)) := do
  let (h, ext) ←
    if h.recycleLiveCountsActiveFor fromGen then .ok (h, ext)
    else h.internalMark L ext fromGen destGen visitRoots
  let h ← h.applyPinsAndExtendMark L fromGen
  return (h, ext)

/-- What the chunk loop of an evacuation keeps fixed, read off the heap after marking. -/
def chunkParams (h : PageHeap) (fromGen destGen : Generation) (visitRoots : RootVisitor) :
    ChunkParams where
  fromGen := fromGen
  destGen := destGen
  visitRoots := visitRoots
  pinnedWithKind := h.pinnedWithKind
  pinnedPages := h.pinnedPages

/-- The chunk loop's first state, read off the heap after marking. -/
def chunkStart (h : PageHeap) (ext : Nat → Word) (fromGen : Generation) : ChunkState where
  rest := h.pagesInGen fromGen
  heap := h.resetAllocRegions fromGen
  ext := ext
  total := EvacResult.zero

/-- `evacuate_with_roots`. -/
def evacuateWithRoots (L : HeapLayout) (h : PageHeap) (ext : Nat → Word)
    (fromGen destGen : Generation) (visitRoots : RootVisitor) :
    Except GcPanic (EvacResult × PageHeap × (Nat → Word)) :=
  if fromGen = .Free then .error .fromGenFree
  else if destGen = .Free then .error .destGenFree
  else do
    let (h, ext) ← h.markAndPin L ext fromGen destGen visitRoots
    let s := h.chunkStart ext fromGen
    let s ← s.loop L (h.chunkParams fromGen destGen visitRoots) s.rest.length
    return (s.total, (s.heap.clearMarkBitsInGen fromGen).clearRecycleLiveCounts, s.ext)

end PageHeap

end NewGc
