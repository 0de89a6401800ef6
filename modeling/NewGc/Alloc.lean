import NewGc.Space

/-!
# Alloc — pages, allocation regions, TLAB slabs and large runs

Small objects are bumped within the open page of their (generation, kind) region; a page that does
not fit the request is retired and a fresh one is taken from the free-page list.  Allocators return
the global index of the first cell together with the new state: a failed call can leave a trace
(the free list may have been popped), so the state is returned on both outcomes.
-/

namespace NewGc

namespace PageHeap

/-! ## Free pages -/

/-- `release_page_to_free`. -/
def releasePageToFree (h : PageHeap) (idx : Nat) (zeroed : Bool) : PageHeap :=
  { h.modifyDesc idx (if zeroed then PageDesc.releaseZeroed else PageDesc.release) with
    freePageList := idx :: h.freePageList }

/-- Pop the free-page list, discarding stale entries; fall back to a scan when it is exhausted. -/
def popFreePage (h : PageHeap) : Option Nat × List Nat :=
  match h.freePageList.dropWhile fun i => (h.descs i).generation ≠ .Free with
  | i :: rest => (some i, rest)
  | [] => ((List.range h.nPages).find? fun i => (h.descs i).generation = .Free, [])

/-- `acquire_free_page`. -/
def acquireFreePage (h : PageHeap) (generation : Generation) (kind : PageKind) :
    Option Nat × PageHeap :=
  let popped := h.popFreePage
  let h := { h with freePageList := popped.2 }
  match popped.1 with
  | none => (none, h)
  | some idx =>
      let h := { h with pagesHighWater := max h.pagesHighWater (idx + 1) }
      match h.commitPage idx with
      | (none, h) => (none, h)
      | (some freshlyZeroed, h) =>
          let alreadyZero := freshlyZeroed || (h.descs idx).zeroed
          let h := (h.setDesc idx (PageDesc.fresh generation kind)).clearPageStartBits idx
          (some idx, if alreadyZero then h else h.zeroWholePage idx)

/-! ## Bump allocation -/

/-- `try_bump_in_current`: the fast path within the region's open page. -/
def tryBumpInCurrent (h : PageHeap) (generation : Generation) (kind : PageKind) (nCells : Nat)
    (isCons : Bool) : Option (Nat × PageHeap) :=
  let r := h.allocRegions generation kind
  match r.currentPage with
  | none => none
  | some pageIdx =>
      if r.offset + nCells > pageSizeCells then none
      else
        let cell := pageIdx * pageSizeCells + r.offset
        let h := h.setAllocRegion generation kind { r with offset := r.offset + nCells }
        let h := h.modifyDesc pageIdx fun d =>
          { d with wordsUsed := saturatingAddU16 d.wordsUsed nCells }
        let h := if isCons then h.setConsStartBitAt cell else h.setStartBitAt cell
        some (cell, { h with bytesAllocSinceGc := h.bytesAllocSinceGc + nCells * 8 })

/-- The young-page cap: outside a G0 evacuation, no fresh page is opened past it. -/
def youngCapReached (h : PageHeap) (generation : Generation) : Bool :=
  generation = .G0 && !h.recycleLiveCountsActiveFor .G0 &&
    decide (h.youngPageCap ≤ h.countPagesInGen .G0)

/-- `try_alloc_in_region`. -/
def tryAllocInRegion (h : PageHeap) (generation : Generation) (kind : PageKind) (nCells : Nat)
    (isCons : Bool) : Option Nat × PageHeap :=
  if h.poisoned then (none, h)
  else
    match h.tryBumpInCurrent generation kind nCells isCons with
    | some (cell, h) => (some cell, h)
    | none =>
        if h.youngCapReached generation then (none, h)
        else
          match h.acquireFreePage generation kind with
          | (none, h) => (none, h)
          | (some newPage, h) =>
              let h := h.setAllocRegion generation kind { currentPage := some newPage, offset := 0 }
              match h.tryBumpInCurrent generation kind nCells isCons with
              | some (cell, h) => (some cell, h)
              | none => (none, h)

/-- `try_alloc_cons_in`. -/
def tryAllocConsIn (h : PageHeap) (generation : Generation) : Option Nat × PageHeap :=
  h.tryAllocInRegion generation .Cons 2 true

/-- `try_alloc_boxed_in`. -/
def tryAllocBoxedIn (h : PageHeap) (generation : Generation) (nCells : Nat) :
    Option Nat × PageHeap :=
  if nCells = 0 ∨ pageSizeCells < nCells then (none, h)
  else h.tryAllocInRegion generation .Boxed nCells false

/-! ## TLAB slabs -/

/-- `carve_tlab_in_current`: the slab's first cell and its length. -/
def carveTlabInCurrent (h : PageHeap) (generation : Generation) (kind : PageKind) (want : Nat) :
    Option ((Nat × Nat) × PageHeap) :=
  let r := h.allocRegions generation kind
  match r.currentPage with
  | none => none
  | some pageIdx =>
      let avail := pageSizeCells - r.offset
      if avail = 0 then none
      else
        let slab := min want avail
        let cell := pageIdx * pageSizeCells + r.offset
        let h := h.setAllocRegion generation kind { r with offset := r.offset + slab }
        let h := h.modifyDesc pageIdx fun d =>
          { d with wordsUsed := saturatingAddU16 d.wordsUsed slab }
        some ((cell, slab), h)

/-- Cells left in the open page of a region. -/
def remainingCells (h : PageHeap) (generation : Generation) (kind : PageKind) : Nat :=
  let r := h.allocRegions generation kind
  match r.currentPage with
  | none => 0
  | some _ => pageSizeCells - r.offset

/-- `reserve_tlab`. -/
def reserveTlab (h : PageHeap) (generation : Generation) (kind : PageKind)
    (minCells wantCells : Nat) : Option (Nat × Nat) × PageHeap :=
  if h.poisoned then (none, h)
  else
    let min := max minCells 1
    let want := max min (Nat.min wantCells pageSizeCells)
    if min ≤ h.remainingCells generation kind then
      match h.carveTlabInCurrent generation kind want with
      | some (slab, h) => (some slab, h)
      | none => (none, h)
    else if h.youngCapReached generation then (none, h)
    else
      match h.acquireFreePage generation kind with
      | (none, h) => (none, h)
      | (some newPage, h) =>
          let h := h.setAllocRegion generation kind { currentPage := some newPage, offset := 0 }
          match h.carveTlabInCurrent generation kind want with
          | some (slab, h) => (some slab, h)
          | none => (none, h)

/-! ## Large objects -/

/-- `find_contiguous_free_pages`: the scan of the page table, carrying the current run. -/
def findContiguousFreePages (h : PageHeap) (n : Nat) : Option Nat :=
  go (List.range h.nPages) 0 0
where
  go : List Nat → Nat → Nat → Option Nat
    | [], _, _ => none
    | i :: rest, runStart, runLen =>
        if (h.descs i).generation = .Free then
          let runStart := if runLen = 0 then i else runStart
          if n ≤ runLen + 1 then some runStart else go rest runStart (runLen + 1)
        else go rest runStart 0

/-- Commit and stamp the pages of a run, in order; stops at the first refused commit. -/
def stampLargePages (generation : Generation) (startIdx nPages : Nat) :
    List Nat → PageHeap → Bool × PageHeap
  | [], h => (true, h)
  | i :: rest, h =>
      let idx := startIdx + i
      match h.commitPage idx with
      | (none, h) => (false, h)
      | (some freshlyZeroed, h) =>
          let alreadyZero := freshlyZeroed || (h.descs idx).zeroed
          let d := { PageDesc.fresh generation .Large with
            wordsUsed := pageSizeCells
            nSpan := if i = 0 then nPages % 65536 else 0 }
          let h := h.setDesc idx d
          let h := if alreadyZero then h else h.zeroWholePage idx
          stampLargePages generation startIdx nPages rest (h.clearPageStartBits idx)

/-- `try_alloc_large`. -/
def tryAllocLarge (h : PageHeap) (nCells : Nat) (generation : Generation) : Option Nat × PageHeap :=
  if h.poisoned then (none, h)
  else
    let nPages := (nCells + (pageSizeCells - 1)) / pageSizeCells
    if generation = .G0 ∧ h.recycleLiveCountsActiveFor .G0 = false ∧
        h.youngPageCap < h.countPagesInGen .G0 + nPages then
      (none, h)
    else
      match h.findContiguousFreePages nPages with
      | none => (none, h)
      | some startIdx =>
          let h := { h with pagesHighWater := max h.pagesHighWater (startIdx + nPages) }
          match stampLargePages generation startIdx nPages (List.range nPages) h with
          | (false, h) => (none, h)
          | (true, h) =>
              let h := h.setStartBitAt (startIdx * pageSizeCells)
              (some (startIdx * pageSizeCells),
                { h with bytesAllocSinceGc := h.bytesAllocSinceGc + nCells * 8 })

/-! ## Mutator slabs -/

/-- `try_bump_g0_mixed`: bump the open G0 Boxed page without setting start bits. -/
def tryBumpG0Mixed (h : PageHeap) (cells : Nat) : Option (Nat × PageHeap) :=
  let r := h.allocRegions .G0 .Boxed
  match r.currentPage with
  | none => none
  | some pageIdx =>
      if r.offset + cells > pageSizeCells then none
      else
        let cell := pageIdx * pageSizeCells + r.offset
        let h := h.setAllocRegion .G0 .Boxed { r with offset := r.offset + cells }
        let h := h.modifyDesc pageIdx fun d =>
          { d with wordsUsed := saturatingAddU16 d.wordsUsed cells }
        some (cell, { h with bytesAllocSinceGc := h.bytesAllocSinceGc + cells * 8 })

/-- `try_alloc_g0_cons_slab`. -/
def tryAllocG0ConsSlab (h : PageHeap) (cells : Nat) : Option Nat × PageHeap :=
  let cells := min cells pageSizeCells
  match h.tryBumpG0Mixed cells with
  | some (cell, h) => (some cell, h)
  | none =>
      if h.countPagesInGen .Free ≤ h.gcFreePageReserveForMutatorSlab then (none, h)
      else if h.youngPageCap ≤ h.countPagesInGen .G0 then (none, h)
      else
        match h.acquireFreePage .G0 .Boxed with
        | (none, h) => (none, h)
        | (some newPage, h) =>
            let h := h.setAllocRegion .G0 .Boxed { currentPage := some newPage, offset := 0 }
            match h.tryBumpG0Mixed cells with
            | some (cell, h) => (some cell, h)
            | none => (none, h)

/-- `try_alloc_g0_slab`: the slab and the granted cell count. -/
def tryAllocG0Slab (h : PageHeap) (cells : Nat) : Option (Nat × Nat) × PageHeap :=
  if cells = 0 then (none, h)
  else
    let granted := min cells pageSizeCells
    match h.tryAllocG0ConsSlab cells with
    | (some slab, h) => (some (slab, granted), h)
    | (none, h) => (none, h)

end PageHeap

end NewGc
