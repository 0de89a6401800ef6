import NewGc.Alloc

/-!
# Mark — the worklist marker of the page heap

`PageMarker` marks one generation: a root word that passes the gates sets the mark bit of the cell
it points at and queues the cell; draining the queue walks the pointer cells of every queued
object.  The mark bit doubles as the "seen" predicate.
-/

namespace NewGc

open PageHeap

/-! ## Object shape as the scanners read it -/

namespace PageHeap

/-- `object_pointer_cells`: size and half-open pointer range of the object at `cell`, as offsets. -/
def objectPointerCells (L : HeapLayout) (h : PageHeap) (cell : Nat) :
    Except GcPanic ObjectLayout :=
  let isCons := match (h.descs (cell / pageSizeCells)).kind with
    | .Cons => some true
    | .Boxed => some (h.isConsStartAt cell)
    | .Large => some false
    | .Free => none
  match isCons with
  | none => .ok { totalCells := 1, pointerCellsStart := 0, pointerCellsEnd := 0 }
  | some true => .ok { totalCells := 2, pointerCellsStart := 0, pointerCellsEnd := 2 }
  | some false => do
      h.access cell 1
      L.headerLayout (h.mem cell)

/-- Head page of the large run a page belongs to: step back over continuation pages. -/
def largeHeadPage (h : PageHeap) : Nat → Nat
  | 0 => 0
  | p + 1 => if (h.descs (p + 1)).isLargeCont then h.largeHeadPage p else p + 1

/-- `object_start_at_or_before`. -/
def objectStartAtOrBefore (h : PageHeap) (cell : Nat) : Option Nat :=
  let page := cell / pageSizeCells
  match (h.descs page).kind with
  | .Large => some (h.largeHeadPage page * pageSizeCells)
  | .Free => none
  | _ => scan (page * pageSizeCells) (cell - page * pageSizeCells)
where
  /-- Walk down from `first + off` to `first`. -/
  scan (first : Nat) : Nat → Option Nat
    | 0 => if h.isStartAt first then some first else none
    | off + 1 => if h.isStartAt (first + (off + 1)) then some (first + (off + 1)) else scan first off

/-- First start bit in `[cell, cell + fuel)`; `cell + fuel` when there is none. -/
def firstStartFrom (h : PageHeap) : Nat → Nat → Nat
  | 0, cell => cell
  | fuel + 1, cell => if h.isStartAt cell then cell else h.firstStartFrom fuel (cell + 1)

end PageHeap

/-! ## The marker -/

structure PageMarker where
  heap : PageHeap
  target : Generation
  queue : List Nat

namespace PageMarker

/-- `PageMarker::new`: clears the generation's mark bits. -/
def new (heap : PageHeap) (target : Generation) : PageMarker where
  heap := heap.clearMarkBitsInGen target
  target := target
  queue := []

/-- `PageMarker::new_without_clear`. -/
def newWithoutClear (heap : PageHeap) (target : Generation) : PageMarker where
  heap := heap
  target := target
  queue := []

/-- The five gates of `try_mark_root`: the cell a word marks, if it marks one. -/
def markTarget (L : HeapLayout) (h : PageHeap) (target : Generation) (w : Word) : Option Nat :=
  match (L.classify w).pointer? with
  | none => none
  | some (addr, ptrKind) =>
      match h.pageOf addr with
      | none => none
      | some pageIdx =>
          if (h.descs pageIdx).generation ≠ target then none
          else if (h.descs pageIdx).kind = .Free then none
          else
            let cell := h.cellOf addr
            if h.isStartAt cell = false then none
            else
              match ptrKind, h.isConsStartAt cell with
              | .cons, true => some cell
              | .header, false => some cell
              | _, _ => none

/-- `try_mark_root`. -/
def visitWord (L : HeapLayout) (m : PageMarker) (w : Word) : PageMarker :=
  match markTarget L m.heap m.target w with
  | none => m
  | some cell =>
      if m.heap.isMarked cell then m
      else { m with heap := m.heap.setMark cell, queue := cell :: m.queue }

/-- Offer the cells of a list, in order. -/
def visitCells (L : HeapLayout) (m : PageMarker) (cells : List Nat) : PageMarker :=
  cells.foldl (fun m c => visitWord L m (m.heap.mem c)) m

/-- `scan_marked_object`. -/
def scanMarkedObject (L : HeapLayout) (m : PageMarker) (cell : Nat) :
    Except GcPanic PageMarker := do
  let isCons := match (m.heap.descs (cell / pageSizeCells)).kind with
    | .Cons => some true
    | .Boxed => some (m.heap.isConsStartAt cell)
    | .Large => some false
    | .Free => none
  match isCons with
  | none => return m
  | some true =>
      m.heap.accessCells [cell, cell + 1]
      return visitCells L m [cell, cell + 1]
  | some false =>
      m.heap.access cell 1
      let layout ← L.headerLayout (m.heap.mem cell)
      let start := cell + layout.pointerCellsStart
      let cells := List.range' start (layout.pointerCellsEnd - layout.pointerCellsStart)
      m.heap.accessCells cells
      return visitCells L m cells

/-- `drain`: pop until the queue is empty.  Every push sets a fresh mark bit, so
`totalCells + queue.length` pops always suffice. -/
def drainFuel (L : HeapLayout) : Nat → PageMarker → Except GcPanic PageMarker
  | 0, m => .ok m
  | fuel + 1, m =>
      match m.queue with
      | [] => .ok m
      | cell :: rest => do
          let m ← scanMarkedObject L { m with queue := rest } cell
          drainFuel L fuel m

def drain (L : HeapLayout) (m : PageMarker) : Except GcPanic PageMarker :=
  drainFuel L (m.heap.totalCells + m.queue.length) m

end PageMarker

namespace PageHeap

/-- `mark_from_roots`. -/
def markFromRoots (L : HeapLayout) (h : PageHeap) (target : Generation) (roots : List Word) :
    Except GcPanic PageHeap := do
  let m := roots.foldl (PageMarker.visitWord L) (PageMarker.new h target)
  let m ← m.drain L
  return m.heap

/-! ## Extension from the pin set -/

/-- One pinned cell of `extend_mark_from_pinned`. -/
def extendMarkStep (m : PageMarker) (cell : Nat) : PageMarker :=
  let d := m.heap.descs (cell / pageSizeCells)
  if d.generation ≠ m.target then m
  else if d.kind = .Free then m
  else if m.heap.isStartAt cell = false then m
  else if m.heap.isMarked cell then m
  else { m with heap := m.heap.setMark cell, queue := cell :: m.queue }

/-- `extend_mark_from_pinned`: every pinned object of `target` is an additional root. -/
def extendMarkFromPinned (L : HeapLayout) (h : PageHeap) (target : Generation) :
    Except GcPanic PageHeap :=
  if h.pinnedCells.isEmpty then .ok h
  else do
    let m := (h.hashOrder.iter h.pinnedCells).foldl extendMarkStep
      (PageMarker.newWithoutClear h target)
    let m ← m.drain L
    return m.heap

/-- One pinned cell of `extend_mark_from_cross_gen_pinned`. -/
def extendMarkCrossGenStep (L : HeapLayout) (m : PageMarker) (cell : Nat) :
    Except GcPanic PageMarker :=
  let d := m.heap.descs (cell / pageSizeCells)
  if d.generation = m.target then .ok m
  else if d.generation = .Free then .ok m
  else if d.kind = .Free then .ok m
  else if m.heap.isStartAt cell = false then .ok m
  else if m.heap.isConsStartAt cell then do
    m.heap.accessCells [cell, cell + 1]
    return m.visitCells L [cell, cell + 1]
  else do
    m.heap.access cell 1
    let layout ← L.headerLayout (m.heap.mem cell)
    let cells := List.range' (cell + layout.pointerCellsStart)
      (layout.pointerCellsEnd - layout.pointerCellsStart)
    m.heap.accessCells cells
    return m.visitCells L cells

/-- `extend_mark_from_cross_gen_pinned`: the payloads of pinned objects of the other generations
are additional roots for `target`. -/
def extendMarkFromCrossGenPinned (L : HeapLayout) (h : PageHeap) (target : Generation) :
    Except GcPanic PageHeap :=
  if h.pinnedCells.isEmpty then .ok h
  else do
    let m ← (h.hashOrder.iter h.pinnedCells).foldlM (extendMarkCrossGenStep L)
      (PageMarker.newWithoutClear h target)
    let m ← m.drain L
    return m.heap

end PageHeap

end NewGc
