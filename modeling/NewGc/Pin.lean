import NewGc.Mark

/-!
# Pin — conservative stack pins and explicit pins

A pin is recorded twice: the start cell in the `pinned_cells` table and one bit per 8 KB sub-region
in the page's `pin_byte`.  Conservative pins come from a scan of stack ranges and last until
`clear_all_pins`; explicit pins are refcounted, persist across cycles and are folded into the pin
set at the start of every evacuation.
-/

namespace NewGc

abbrev cellsPerPinSlot : Nat := 1024

/-- Sub-region of its page a cell falls into. -/
def pinSlot (cell : Nat) : Nat := (cell % pageSizeCells) / cellsPerPinSlot

/-- Insert into a hash set. -/
def setInsert (c : Nat) (l : List Nat) : List Nat := if c ∈ l then l else c :: l

/-- Handle returned by `pin`; `none` when there was nothing to pin. -/
abbrev PinHandle := Option Nat

structure PinScanResult where
  nObjects : Nat
  nCells : Nat
  deriving DecidableEq, Repr

namespace PageHeap

/-- Insert into `pinned_cells` and set the page-byte slot. -/
def recordPin (h : PageHeap) (cell : Nat) : PageHeap :=
  { h.modifyDesc (cell / pageSizeCells) (fun d => d.setPin (pinSlot cell)) with
    pinnedCells := setInsert cell h.pinnedCells }

/-- `is_pinned_cell`: the page byte rejects, the table confirms. -/
def isPinnedCell (h : PageHeap) (cell : Nat) : Bool :=
  decide (cell / pageSizeCells < h.nPages) &&
    (h.descs (cell / pageSizeCells)).isPinned (pinSlot cell) && decide (cell ∈ h.pinnedCells)

/-- `clear_all_pins`. -/
def clearAllPins (h : PageHeap) : PageHeap :=
  { h with descs := fun p => (h.descs p).clearPins, pinnedCells := [] }

/-! ## Conservative pins -/

/-- The cell one stack word pins, if it passes the gates of `pin_range_one`. -/
def pinCandidate (L : HeapLayout) (h : PageHeap) (target : Generation) (rangeLo rangeHi : Nat)
    (raw : Word) : Option Nat :=
  match (L.classify raw).pointer? with
  | none => none
  | some (addr, _) =>
      if rangeLo ≤ addr ∧ addr < rangeHi then none
      else
        match h.pageOf addr with
        | none => none
        | some pageIdx =>
            if (h.descs pageIdx).generation ≠ target then none
            else if h.isStartAt (h.cellOf addr) then some (h.cellOf addr) else none

/-- One candidate word: the state and the number of new pins. -/
def pinWord (L : HeapLayout) (target : Generation) (rangeLo rangeHi : Nat)
    (s : PageHeap × Nat) (raw : Word) : PageHeap × Nat :=
  match pinCandidate L s.1 target rangeLo rangeHi raw with
  | none => s
  | some cell => (s.1.recordPin cell, if cell ∈ s.1.pinnedCells then s.2 else s.2 + 1)

/-- The 8-aligned addresses whose word lies inside `[lo, hi)`. -/
def stackSlots (rangeLo rangeHi : Nat) : List Nat :=
  if rangeHi ≤ rangeLo then []
  else
    let scanStart := (rangeLo + 7) / 8 * 8
    let scanEnd := rangeHi / 8 * 8
    (List.range ((scanEnd - scanStart) / 8)).map fun i => scanStart + 8 * i

/-- `pin_range_one`; `ext` is the memory outside the reservation, by address. -/
def pinRangeOne (L : HeapLayout) (ext : Nat → Word) (target : Generation)
    (s : PageHeap × Nat) (range : Nat × Nat) : PageHeap × Nat :=
  (stackSlots range.1 range.2).foldl
    (fun s slot => pinWord L target range.1 range.2 s (ext slot)) s

/-- `pin_pointers_in_ranges`, with `NCL_NO_CONSERVATIVE_PIN` unset. -/
def pinPointersInRanges (L : HeapLayout) (ext : Nat → Word) (h : PageHeap) (target : Generation)
    (ranges : List (Nat × Nat)) : PinScanResult × PageHeap :=
  let s := ranges.foldl (pinRangeOne L ext target) (h, 0)
  ({ nObjects := s.2, nCells := 0 }, s.1)

/-! ## Explicit pins -/

/-- `pin_target_cell`. -/
def pinTargetCell (L : HeapLayout) (h : PageHeap) (w : Word) : Option Nat :=
  match (L.classify w).pointer? with
  | none => none
  | some (addr, _) =>
      match h.pageOf addr with
      | none => none
      | some pageIdx =>
          if (h.descs pageIdx).generation = .Free then none
          else if h.isStartAt (h.cellOf addr) then some (h.cellOf addr) else none

/-- Outstanding pins of a cell. -/
def explicitPinCount (h : PageHeap) (cell : Nat) : Option Nat :=
  (h.explicitPins.find? fun e => e.1 = cell).map (·.2)

/-- `*entry(cell).or_insert(0) += 1` on a `u32` counter. -/
def bumpExplicitPin (cell : Nat) : List (Nat × Nat) → List (Nat × Nat)
  | [] => [(cell, 1)]
  | (c, n) :: rest =>
      if c = cell then (c, (n + 1) % 2 ^ 32) :: rest else (c, n) :: bumpExplicitPin cell rest

/-- Decrement the counter and drop the entry when it reaches zero. -/
def dropExplicitPin (cell : Nat) : List (Nat × Nat) → List (Nat × Nat)
  | [] => []
  | (c, n) :: rest =>
      if c = cell then (if n - 1 = 0 then rest else (c, n - 1) :: rest)
      else (c, n) :: dropExplicitPin cell rest

/-- `pin`. -/
def pin (L : HeapLayout) (h : PageHeap) (w : Word) : PinHandle × PageHeap :=
  match h.pinTargetCell L w with
  | some cell => (some cell, { h with explicitPins := bumpExplicitPin cell h.explicitPins })
  | none => (none, h)

/-- `unpin`. -/
def unpin (h : PageHeap) (handle : PinHandle) : PageHeap :=
  match handle with
  | none => h
  | some cell => { h with explicitPins := dropExplicitPin cell h.explicitPins }

/-- Fold one explicit pin into the pin set. -/
def foldExplicitPin (h : PageHeap) (cell : Nat) : PageHeap :=
  if (h.descs (cell / pageSizeCells)).generation = .Free then h else h.recordPin cell

/-- `apply_pins_and_extend_mark`. -/
def applyPinsAndExtendMark (L : HeapLayout) (h : PageHeap) (fromGen : Generation) :
    Except GcPanic PageHeap := do
  let h := (h.hashOrder.iter (h.explicitPins.map (·.1))).foldl foldExplicitPin h
  if h.recycleLiveCountsActiveFor fromGen && !h.pinnedCells.isEmpty then
    let h ← h.extendMarkFromPinned L fromGen
    let h ← h.extendMarkFromCrossGenPinned L fromGen
    return h.prepareRecycleLiveCountsFromMarks fromGen
  else return h

end PageHeap

end NewGc
