import NewGc.Evac

/-!
# Cards — dirty-card scans and the static-area collection entry points

The write barrier leaves dirty cards; a collection turns them into roots.  A card of the
reservation is scanned object by object, an external area cell by cell.
-/

namespace NewGc

open PageHeap

/-! ## Card scans as roots -/

/-- Page filter of a scan: a snapshot of the page descriptors. -/
abbrev PageFilter := Option (Nat → PageDesc)

namespace PageEvacuator

/-- Does the filter let a card of the reservation through, for an evacuation of `fromGen`? -/
def cardPassesFilter (h : PageHeap) (fromGen : Generation) (filter : PageFilter) (card : Nat) :
    Bool :=
  match filter with
  | none => true
  | some descs =>
      let pageIdx := card * cardSizeCells / pageSizeCells
      decide (pageIdx < h.nPages) && (descs pageIdx).generation != .Free &&
        (descs pageIdx).generation != fromGen

/-- One dirty card of `scan_dirty_cards_as_roots`, reservation side.  The filter is asked first, as
the cheaper of the two tests. -/
def scanReservationCard (L : HeapLayout) (cards : Nat → Bool) (filter : PageFilter)
    (e : PageEvacuator) (card : Nat) : Except GcPanic PageEvacuator :=
  if cardPassesFilter e.heap e.fromGen filter card = false then .ok e
  else if cards card = false then .ok e
  else e.visitCardPointerCells L (card * cardSizeCells)
    (min (card * cardSizeCells + cardSizeCells) e.heap.totalCells)

/-- The tests in the order of the source: a clean card is skipped before the filter is asked. -/
theorem scanReservationCard_eq (L : HeapLayout) (cards : Nat → Bool) (filter : PageFilter)
    (e : PageEvacuator) (card : Nat) : scanReservationCard L cards filter e card =
      if cards card = false then .ok e
      else if cardPassesFilter e.heap e.fromGen filter card = false then .ok e
      else e.visitCardPointerCells L (card * cardSizeCells)
        (min (card * cardSizeCells + cardSizeCells) e.heap.totalCells) := by
  unfold scanReservationCard
  cases cards card with
  | false => simp
  | true => simp

/-- `scan_dirty_cards_as_roots` over the reservation.  The card table is shared with the heap, so
its state is read at every card. -/
def scanReservationCards (L : HeapLayout) (filter : PageFilter) (e : PageEvacuator) :
    Except GcPanic PageEvacuator :=
  (List.range (e.heap.nPages * cardsPerPage)).foldlM
    (fun e card => scanReservationCard L e.heap.cards filter e card) e

/-- One dirty card of an external area: every cell is offered. -/
def scanExternalCard (L : HeapLayout) (cards : Nat → Bool) (base cells : Nat) (e : PageEvacuator)
    (card : Nat) : Except GcPanic PageEvacuator :=
  if cards card then
    (List.range' (card * cardSizeCells)
        (min (card * cardSizeCells + cardSizeCells) cells - card * cardSizeCells)).foldlM
      (fun e c => e.tryVisit L (base + c * 8)) e
  else .ok e

/-- `scan_dirty_cards_as_roots` over an external area; `cards` is the area's own table. -/
def scanExternalCards (L : HeapLayout) (cards : Nat → Bool) (base cells : Nat)
    (e : PageEvacuator) : Except GcPanic PageEvacuator :=
  (List.range ((cells + (cardSizeCells - 1)) / cardSizeCells)).foldlM
    (scanExternalCard L cards base cells) e

end PageEvacuator

namespace PageMarker

/-- The walk of `PageMarker::visit_card_pointer_cells`. -/
def visitCardLoop (L : HeapLayout) (cardEnd : Nat) :
    Nat → Nat → PageMarker → Except GcPanic PageMarker
  | 0, _, m => .ok m
  | fuel + 1, s, m =>
      if cardEnd ≤ s then .ok m
      else if m.heap.isStartAt s = false then .ok m
      else do
        let layout ← m.heap.objectPointerCells L s
        let cells := List.range' (s + layout.pointerCellsStart)
          (layout.pointerCellsEnd - layout.pointerCellsStart)
        m.heap.accessCells cells
        let m := m.visitCells L cells
        if layout.totalCells = 0 then return m
        else visitCardLoop L cardEnd fuel (s + layout.totalCells) m

/-- `PageMarker::visit_card_pointer_cells`. -/
def visitCardPointerCells (L : HeapLayout) (m : PageMarker) (cardStart cardEnd : Nat) :
    Except GcPanic PageMarker :=
  let s := match m.heap.objectStartAtOrBefore cardStart with
    | some s => s
    | none => m.heap.firstStartFrom (cardEnd - cardStart) cardStart
  visitCardLoop L cardEnd (cardEnd - s) s m

/-- Does the filter let a card through?  The marker scans G1 and Tenured pages only. -/
def cardPassesFilter (h : PageHeap) (filter : PageFilter) (card : Nat) : Bool :=
  match filter with
  | none => true
  | some descs =>
      let pageIdx := card * cardSizeCells / pageSizeCells
      decide (pageIdx < h.nPages) &&
        ((descs pageIdx).generation == .G1 || (descs pageIdx).generation == .Tenured)

/-- One dirty card of `scan_dirty_cards_as_marks`, reservation side. -/
def scanReservationCard (L : HeapLayout) (cards : Nat → Bool) (filter : PageFilter)
    (m : PageMarker) (card : Nat) : Except GcPanic PageMarker :=
  if cards card = false then .ok m
  else if cardPassesFilter m.heap filter card = false then .ok m
  else m.visitCardPointerCells L (card * cardSizeCells)
    (min (card * cardSizeCells + cardSizeCells) m.heap.totalCells)

/-- `scan_dirty_cards_as_marks` over the reservation. -/
def scanReservationCards (L : HeapLayout) (filter : PageFilter) (m : PageMarker) :
    Except GcPanic PageMarker :=
  (List.range (m.heap.nPages * cardsPerPage)).foldlM
    (fun m card => scanReservationCard L m.heap.cards filter m card) m

/-- One dirty card of an external area; `ext` is the memory outside the reservation. -/
def scanExternalCard (L : HeapLayout) (ext : Nat → Word) (cards : Nat → Bool) (base cells : Nat)
    (m : PageMarker) (card : Nat) : PageMarker :=
  if cards card then
    (List.range' (card * cardSizeCells)
        (min (card * cardSizeCells + cardSizeCells) cells - card * cardSizeCells)).foldl
      (fun m c => m.visitWord L (ext (base + c * 8))) m
  else m

/-- `scan_dirty_cards_as_marks` over an external area. -/
def scanExternalCards (L : HeapLayout) (ext : Nat → Word) (cards : Nat → Bool) (base cells : Nat)
    (m : PageMarker) : PageMarker :=
  (List.range ((cells + (cardSizeCells - 1)) / cardSizeCells)).foldl
    (scanExternalCard L ext cards base cells) m

end PageMarker

end NewGc
