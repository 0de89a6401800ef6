import NewGc.Cards

/-!
# Cycle — minor, major and full collections

The logical cycles run one to three evacuations back to back and then rebuild the card table and
drop the pin set.  `visitRoots` is the caller's root closure; every pass but the last of a full
collection adds the dirty-card scan, filtered by a snapshot of the page descriptors.
-/

namespace NewGc

open Library PageHeap

def g0PromotionThreshold : Nat := 3
def g1PromotionThreshold : Nat := 5

/-- Summary of a minor or major cycle. -/
structure CollectResult where
  evac : EvacResult
  cascade : Option EvacResult
  promotedG0 : Bool
  promotedG1 : Bool
  minorsSinceG0PromoteAfter : Nat
  deriving DecidableEq, Repr

/-- Summary of a full cycle. -/
structure FullCollectResult where
  g0Evac : EvacResult
  g1Evac : EvacResult
  tenuredEvac : EvacResult
  tenuredFreedBytes : Nat
  deriving DecidableEq, Repr

/-- `u32::saturating_add(1)`. -/
def saturatingSuccU32 (n : Nat) : Nat := min (2 ^ 32 - 1) (n + 1)

/-- The closure of a pass: the caller's roots, then the dirty cards of the reservation. -/
def withCardScan (L : HeapLayout) (visitRoots : RootVisitor) (snapshot : Nat → PageDesc) :
    RootVisitor := fun e => do
  let e ← visitRoots e
  e.scanReservationCards L (some snapshot)

namespace PageHeap

/-- End of a logical cycle: rebuild the cards, drop the pins. -/
def closeCycle (L : HeapLayout) (h : PageHeap) : PageHeap :=
  (h.rebuildCardsForOldGens L).clearAllPins

/-- `close_cycle`, which faults where the rebuild reads a cell that has no backing. -/
def finishCycle (L : HeapLayout) (h : PageHeap) : Except GcPanic PageHeap := do
  h.accessTouched
  return h.closeCycle L

/-- `collect_minor`. -/
def collectMinor (L : HeapLayout) (h : PageHeap) (ext : Nat → Word) (visitRoots : RootVisitor) :
    Except GcPanic (CollectResult × PageHeap × (Nat → Word)) := do
  let minors := saturatingSuccU32 h.minorsSinceG0Promote
  let h := { h with minorsSinceG0Promote := minors }
  let promoteG0 := decide (g0PromotionThreshold ≤ minors)
  let snapshot := h.descs
  let visitor := withCardScan L visitRoots snapshot
  let (evac, h, ext) ← h.evacuateWithRoots L ext .G0 (if promoteG0 then .G1 else .G0) visitor
  if promoteG0 then
    let promotes := saturatingSuccU32 h.g0PromotesSinceG1Promote
    let h := { h with minorsSinceG0Promote := 0, g0PromotesSinceG1Promote := promotes }
    if g1PromotionThreshold ≤ promotes then
      -- the cascade reuses the snapshot taken before the first pass
      let (cascade, h, ext) ← h.evacuateWithRoots L ext .G1 .Tenured visitor
      let h ← PageHeap.finishCycle L { h with g0PromotesSinceG1Promote := 0 }
      return ({ evac := evac, cascade := some cascade, promotedG0 := true, promotedG1 := true,
                minorsSinceG0PromoteAfter := 0 }, h, ext)
    else
      let h ← h.finishCycle L
      return ({ evac := evac, cascade := none, promotedG0 := true, promotedG1 := false,
                minorsSinceG0PromoteAfter := 0 }, h, ext)
  else
    let h ← h.finishCycle L
    return ({ evac := evac, cascade := none, promotedG0 := false, promotedG1 := false,
              minorsSinceG0PromoteAfter := minors }, h, ext)

/-- `collect_major`: G1 → Tenured, then G0 → G0. -/
def collectMajor (L : HeapLayout) (h : PageHeap) (ext : Nat → Word) (visitRoots : RootVisitor) :
    Except GcPanic (CollectResult × PageHeap × (Nat → Word)) := do
  let (g1Result, h, ext) ←
    h.evacuateWithRoots L ext .G1 .Tenured (withCardScan L visitRoots h.descs)
  let (g0Result, h, ext) ←
    h.evacuateWithRoots L ext .G0 .G0 (withCardScan L visitRoots h.descs)
  let h ← h.finishCycle L
  let h := { h with minorsSinceG0Promote := 0, g0PromotesSinceG1Promote := 0 }
  return ({ evac := g0Result, cascade := some g1Result, promotedG0 := false,
            promotedG1 := decide (0 < g1Result.objectsCopied) || decide (0 < g1Result.pagesFlipped),
            minorsSinceG0PromoteAfter := 0 }, h, ext)

/-- `collect_full`: G0 → G1, G1 → Tenured, Tenured → Tenured.  The last pass has no card scan. -/
def collectFull (L : HeapLayout) (h : PageHeap) (ext : Nat → Word) (visitRoots : RootVisitor) :
    Except GcPanic (FullCollectResult × PageHeap × (Nat → Word)) := do
  let (g0Evac, h, ext) ←
    h.evacuateWithRoots L ext .G0 .G1 (withCardScan L visitRoots h.descs)
  let (g1Evac, h, ext) ←
    h.evacuateWithRoots L ext .G1 .Tenured (withCardScan L visitRoots h.descs)
  let (tenuredEvac, h, ext) ← h.evacuateWithRoots L ext .Tenured .Tenured visitRoots
  let h ← h.finishCycle L
  let h := { h with minorsSinceG0Promote := 0, g0PromotesSinceG1Promote := 0 }
  return ({ g0Evac := g0Evac, g1Evac := g1Evac, tenuredEvac := tenuredEvac,
            tenuredFreedBytes := tenuredEvac.pagesFreed * pageSizeBytes }, h, ext)

/-- `usize::saturating_mul`. -/
def saturatingMulUsize (a b : Nat) : Nat := min (2 ^ 64 - 1) (a * b)

/-- `tenured_used_bytes`. -/
def tenuredUsedBytes (h : PageHeap) : Nat :=
  ((h.pagesInGen .Tenured).map fun p => (h.descs p).wordsUsed * 8).sum

/-- `should_collect_major`; `thresholdBps` is `tenured_full_threshold_bps`. -/
def shouldCollectMajor (h : PageHeap) (thresholdBps : Nat) : Bool :=
  decide (saturatingMulUsize h.reservedBytes thresholdBps ≤
    saturatingMulUsize h.tenuredUsedBytes 10000)

/-- `collect_auto`: major under Tenured pressure, minor otherwise; then the allocation counter
starts over. -/
def collectAuto (L : HeapLayout) (h : PageHeap) (ext : Nat → Word) (thresholdBps : Nat)
    (visitRoots : RootVisitor) : Except GcPanic (CollectResult × PageHeap × (Nat → Word)) := do
  let (result, h, ext) ←
    if h.shouldCollectMajor thresholdBps then h.collectMajor L ext visitRoots
    else h.collectMinor L ext visitRoots
  return (result, { h with bytesAllocSinceGc := 0 }, ext)

/-! ## The production minor cycle -/

/-- A static area: its cards, base address and cell count. -/
structure StaticArea where
  cards : Nat → Bool
  base : Nat
  cells : Nat

/-- The static area without cells. -/
def StaticArea.empty : StaticArea where
  cards := fun _ => false
  base := 0
  cells := 0

/-- `mark_minor_with_static`; `roots` are the addresses of the caller's root slots. -/
def markMinorWithStatic (L : HeapLayout) (h : PageHeap) (ext : Nat → Word) (area : StaticArea)
    (roots : List Nat) : Except GcPanic PageHeap := do
  let m := roots.foldl (fun m slot => m.visitWord L (ext slot)) (PageMarker.new h .G0)
  let m := m.scanExternalCards L ext area.cards area.base area.cells
  let m ← m.scanReservationCards L (some h.descs)
  let m ← m.drain L
  return m.heap.prepareRecycleLiveCountsFromMarks .G0

/-- `release_zero_live_unpinned_pages`. -/
def releaseZeroLiveUnpinnedPages (h : PageHeap) (target : Generation) : PageHeap :=
  let releasable := (h.pagesInGen target).filter fun p =>
    !(h.descs p).hasPins && h.recycleLiveCounts p == 0
  releasable.foldl
    (fun h p =>
      { h.releasePageToFree p false with
        recycleLiveCounts := Function.update h.recycleLiveCounts p 0 })
    { h with lastZeroLivePagesReleased := releasable.length }

/-- The mark extension and the early release of `collect_minor_with_static`. -/
def extendAndReleaseEarly (L : HeapLayout) (h : PageHeap) : Except GcPanic PageHeap :=
  if h.recycleLiveCountsActiveFor .G0 then do
    let h ← h.extendMarkFromPinned L .G0
    let h ← h.extendMarkFromPinned L .G1
    let h ← h.extendMarkFromCrossGenPinned L .G0
    return (h.prepareRecycleLiveCountsFromMarks .G0).releaseZeroLiveUnpinnedPages .G0
  else .ok h

/-- The closure `collect_minor_with_static` hands to `collect_minor`. -/
def staticVisitor (L : HeapLayout) (area : StaticArea) (roots : List Nat)
    (snapshot : Nat → PageDesc) : RootVisitor := fun e => do
  let e ← roots.foldlM (PageEvacuator.tryVisit L) e
  let e ← e.scanExternalCards L area.cards area.base area.cells
  e.scanReservationCards L (some snapshot)

/-- `clear_cards_unless_intergen` over the reservation. -/
def clearCardsUnlessIntergen (L : HeapLayout) (h : PageHeap) : PageHeap :=
  { h with cards := fun k =>
      h.cards k && (decide (h.nPages * cardsPerPage ≤ k) || h.cardHasHeapPointer L k) }

/-- The reads of `clear_cards_unless_intergen`: every dirty card. -/
def accessDirtyCards (h : PageHeap) : Except GcPanic Unit :=
  require ((List.range (h.nPages * cardsPerPage)).all fun k =>
    !h.cards k || h.committed (k / cardsPerPage)) .accessViolation

/-- `clear_cards_unless_intergen` over a static area. -/
def StaticArea.clearCardsUnlessIntergen (L : HeapLayout) (area : StaticArea) (ext : Nat → Word) :
    StaticArea :=
  { area with cards := fun k =>
      area.cards k &&
        (decide ((area.cells + (cardSizeCells - 1)) / cardSizeCells ≤ k) ||
          (List.range' (k * cardSizeCells)
              (min (k * cardSizeCells + cardSizeCells) area.cells - k * cardSizeCells)).any
            fun c => (L.classify (ext (area.base + c * 8))).pointer?.isSome) }

/-- `collect_minor_with_static`. -/
def collectMinorWithStatic (L : HeapLayout) (h : PageHeap) (ext : Nat → Word) (area : StaticArea)
    (pinStackRanges : List (Nat × Nat)) (roots : List Nat) :
    Except GcPanic (PageHeap × (Nat → Word) × StaticArea) := do
  let (pinG0, h) := h.pinPointersInRanges L ext .G0 pinStackRanges
  let (pinG1, h) := h.pinPointersInRanges L ext .G1 pinStackRanges
  let h := { h with
    lastPinSummary := (pinG0.nObjects + pinG1.nObjects, pinG0.nCells + pinG1.nCells) }
  let h ← h.extendAndReleaseEarly L
  let (_, h, ext) ← h.collectMinor L ext (staticVisitor L area roots h.descs)
  h.accessDirtyCards
  return (h.clearCardsUnlessIntergen L, ext, area.clearCardsUnlessIntergen L ext)

end PageHeap

end NewGc
