import NewGc.Cycle

/-!
# Abort — the heap an aborted collection leaves behind

A collection that runs out of memory unwinds out of phase 1 of one of its chunks.  What was copied
before keeps its forwarding markers, and nothing is undone.  The functions below run a collection
and keep, next to the panic, the heap at that point; erasing it gives back the collection.
-/

namespace NewGc

open Library PageHeap

/-- How a collection ends early: out of memory in phase 1, with the heap and the memory outside the
reservation at that point, or in another panic. -/
inductive Abort
  | midEvacOom (stall : GcStallError) (heap : PageHeap) (ext : Nat → Word)
  | other (panic : GcPanic)

namespace Abort

/-- The panic alone. -/
def panic : Abort → GcPanic
  | .midEvacOom stall _ _ => .midEvacOom stall
  | .other panic => panic

/-- A panic raised while the heap is `h`. -/
def raisedIn (h : PageHeap) (ext : Nat → Word) : GcPanic → Abort
  | .midEvacOom stall => .midEvacOom stall h ext
  | e => .other e

/-- The parts of a collection that allocate nothing. -/
def lift {α : Type} (x : Except GcPanic α) : Except Abort α := x.mapError .other

theorem panic_raisedIn (h : PageHeap) (ext : Nat → Word) (e : GcPanic) : (Abort.raisedIn h ext e).panic = e := by
  cases e <;> rfl

theorem erases_raisedIn {α : Type} (h : PageHeap) (ext : Nat → Word) (x : Except GcPanic α) :
    Erases panic (x.mapError (Abort.raisedIn h ext)) x := by
  cases x with
  | ok a => rfl
  | error e => exact congrArg Except.error (panic_raisedIn h ext e)

theorem erases_lift {α : Type} (x : Except GcPanic α) : Erases panic (lift x) x := by
  cases x <;> rfl

end Abort

/-! ## Phase 1 -/

namespace PageHeap

/-- The heap when no destination is found for the object at `cell`. -/
def failedCopy (L : HeapLayout) (destGen : Generation) (h : PageHeap) (cell : Nat) : PageHeap :=
  match h.startedObjectSize L cell (h.isConsStartAt cell) with
  | .ok size => (h.allocDest destGen (h.isConsStartAt cell) size).2
  | .error _ => h

/-- `phase1Cell`, with the heap at a panic. -/
def phase1CellTracked (L : HeapLayout) (ext : Nat → Word) (fromGen destGen : Generation)
    (total : EvacResult) (cell : Nat) (s : CopyState) : Except Abort (Nat × CopyState) :=
  (phase1Cell L fromGen destGen total cell s).mapError
    (Abort.raisedIn (s.heap.failedCopy L destGen cell) ext)

/-- `phase1ChunkPage`, with the heap at a panic. -/
def phase1ChunkPageTracked (L : HeapLayout) (ext : Nat → Word) (fromGen destGen : Generation)
    (total : EvacResult) (s : CopyState) (pageIdx : Nat) : Except Abort CopyState :=
  let d := s.heap.descs pageIdx
  if d.generation ≠ fromGen then .ok s
  else if d.kind = .Large then .ok s
  else
    let firstCell := pageIdx * pageSizeCells
    cellLoop (firstCell + d.wordsUsed) (phase1CellTracked L ext fromGen destGen total) d.wordsUsed
      firstCell s

/-- `phase1CopyChunk`, with the heap at a panic. -/
def phase1CopyChunkTracked (L : HeapLayout) (h : PageHeap) (ext : Nat → Word)
    (fromGen destGen : Generation) (chunk : List Nat) (total : EvacResult) :
    Except Abort CopyState :=
  chunk.foldlM (phase1ChunkPageTracked L ext fromGen destGen total)
    { heap := h, objs := 0, cells := 0 }

theorem erases_phase1ChunkPage (L : HeapLayout) (ext : Nat → Word) (fromGen destGen : Generation)
    (total : EvacResult) (s : CopyState) (pageIdx : Nat) :
    Erases Abort.panic (phase1ChunkPageTracked L ext fromGen destGen total s pageIdx)
      (phase1ChunkPage L fromGen destGen total s pageIdx) := by
  unfold phase1ChunkPageTracked phase1ChunkPage
  dsimp only
  split
  · exact .ok s
  · split
    · exact .ok s
    · exact Erases.cellLoop (fun cell (s : CopyState) =>
        Abort.erases_raisedIn (s.heap.failedCopy L destGen cell) ext _) _ _ _

theorem erases_phase1CopyChunk (L : HeapLayout) (h : PageHeap) (ext : Nat → Word)
    (fromGen destGen : Generation) (chunk : List Nat) (total : EvacResult) :
    Erases Abort.panic (h.phase1CopyChunkTracked L ext fromGen destGen chunk total)
      (h.phase1CopyChunk L fromGen destGen chunk total) :=
  Erases.foldlM (erases_phase1ChunkPage L ext fromGen destGen total) chunk _

end PageHeap

/-! ## The chunk loop -/

namespace ChunkState

/-- `step`, with the heap at a panic of phase 1. -/
def stepTracked (L : HeapLayout) (p : ChunkParams) (s : ChunkState) : Except Abort ChunkState := do
  let copied ←
    s.heap.phase1CopyChunkTracked L s.ext p.fromGen p.destGen (s.chunk p) s.total
  let (h, ext) ← Abort.lift (copied.heap.phase2Rewrite L s.ext p.fromGen p.destGen p.visitRoots)
  let reclaimed ← Abort.lift (h.phase3Reclaim L p.destGen (s.chunk p) p.pinnedWithKind)
  return {
    rest := s.rest.drop (s.heap.chunkSize p.fromGen p.pinnedPages s.rest.length)
    heap := reclaimed.heap
    ext := ext
    total :=
      { objectsCopied := s.total.objectsCopied + copied.objs
        cellsCopied := s.total.cellsCopied + copied.cells
        pagesFreed := s.total.pagesFreed + reclaimed.released
        pagesFlipped := s.total.pagesFlipped + reclaimed.flipped } }

/-- `loop`, with the heap at a panic of phase 1. -/
def loopTracked (L : HeapLayout) (p : ChunkParams) : Nat → ChunkState → Except Abort ChunkState
  | 0, s => .ok s
  | fuel + 1, s =>
      if s.rest = [] then .ok s
      else do
        let s ← s.stepTracked L p
        loopTracked L p fuel s

theorem erases_step (L : HeapLayout) (p : ChunkParams) (s : ChunkState) :
    Erases Abort.panic (s.stepTracked L p) (s.step L p) := by
  refine (erases_phase1CopyChunk L s.heap s.ext p.fromGen p.destGen (s.chunk p) s.total).bind
    fun copied => ?_
  refine (Abort.erases_lift _).bind fun r => ?_
  exact (Abort.erases_lift _).bind fun reclaimed => .pure _

theorem erases_loop (L : HeapLayout) (p : ChunkParams) (fuel : Nat) (s : ChunkState) :
    Erases Abort.panic (s.loopTracked L p fuel) (s.loop L p fuel) := by
  induction fuel generalizing s with
  | zero => rfl
  | succ fuel ih =>
      unfold loopTracked loop
      split
      · exact .ok s
      · exact (erases_step L p s).bind ih

end ChunkState

/-! ## Evacuations and cycles -/

namespace PageHeap

/-- `evacuateWithRoots`, with the heap at a panic of phase 1. -/
def evacuateTracked (L : HeapLayout) (h : PageHeap) (ext : Nat → Word)
    (fromGen destGen : Generation) (visitRoots : RootVisitor) :
    Except Abort (EvacResult × PageHeap × (Nat → Word)) :=
  if fromGen = .Free then .error (.other .fromGenFree)
  else if destGen = .Free then .error (.other .destGenFree)
  else do
    let (h, ext) ← Abort.lift (h.markAndPin L ext fromGen destGen visitRoots)
    let s := h.chunkStart ext fromGen
    let s ← s.loopTracked L (h.chunkParams fromGen destGen visitRoots) s.rest.length
    return (s.total, (s.heap.clearMarkBitsInGen fromGen).clearRecycleLiveCounts, s.ext)

/-- `collectMinor`, with the heap at a panic of phase 1. -/
def collectMinorTracked (L : HeapLayout) (h : PageHeap) (ext : Nat → Word)
    (visitRoots : RootVisitor) : Except Abort (CollectResult × PageHeap × (Nat → Word)) := do
  let minors := saturatingSuccU32 h.minorsSinceG0Promote
  let h := { h with minorsSinceG0Promote := minors }
  let promoteG0 := decide (g0PromotionThreshold ≤ minors)
  let visitor := withCardScan L visitRoots h.descs
  let (evac, h, ext) ← h.evacuateTracked L ext .G0 (if promoteG0 then .G1 else .G0) visitor
  if promoteG0 then
    let promotes := saturatingSuccU32 h.g0PromotesSinceG1Promote
    let h := { h with minorsSinceG0Promote := 0, g0PromotesSinceG1Promote := promotes }
    if g1PromotionThreshold ≤ promotes then
      let (cascade, h, ext) ← h.evacuateTracked L ext .G1 .Tenured visitor
      let h ← Abort.lift (PageHeap.finishCycle L { h with g0PromotesSinceG1Promote := 0 })
      return ({ evac := evac, cascade := some cascade, promotedG0 := true, promotedG1 := true,
                minorsSinceG0PromoteAfter := 0 }, h, ext)
    else
      let h ← Abort.lift (h.finishCycle L)
      return ({ evac := evac, cascade := none, promotedG0 := true, promotedG1 := false,
                minorsSinceG0PromoteAfter := 0 }, h, ext)
  else
    let h ← Abort.lift (h.finishCycle L)
    return ({ evac := evac, cascade := none, promotedG0 := false, promotedG1 := false,
              minorsSinceG0PromoteAfter := minors }, h, ext)

/-- `collectMajor`, with the heap at a panic of phase 1. -/
def collectMajorTracked (L : HeapLayout) (h : PageHeap) (ext : Nat → Word)
    (visitRoots : RootVisitor) : Except Abort (CollectResult × PageHeap × (Nat → Word)) := do
  let (g1Result, h, ext) ←
    h.evacuateTracked L ext .G1 .Tenured (withCardScan L visitRoots h.descs)
  let (g0Result, h, ext) ←
    h.evacuateTracked L ext .G0 .G0 (withCardScan L visitRoots h.descs)
  let h ← Abort.lift (h.finishCycle L)
  let h := { h with minorsSinceG0Promote := 0, g0PromotesSinceG1Promote := 0 }
  return ({ evac := g0Result, cascade := some g1Result, promotedG0 := false,
            promotedG1 := decide (0 < g1Result.objectsCopied) || decide (0 < g1Result.pagesFlipped),
            minorsSinceG0PromoteAfter := 0 }, h, ext)

/-- `collectFull`, with the heap at a panic of phase 1. -/
def collectFullTracked (L : HeapLayout) (h : PageHeap) (ext : Nat → Word)
    (visitRoots : RootVisitor) : Except Abort (FullCollectResult × PageHeap × (Nat → Word)) := do
  let (g0Evac, h, ext) ←
    h.evacuateTracked L ext .G0 .G1 (withCardScan L visitRoots h.descs)
  let (g1Evac, h, ext) ←
    h.evacuateTracked L ext .G1 .Tenured (withCardScan L visitRoots h.descs)
  let (tenuredEvac, h, ext) ← h.evacuateTracked L ext .Tenured .Tenured visitRoots
  let h ← Abort.lift (h.finishCycle L)
  let h := { h with minorsSinceG0Promote := 0, g0PromotesSinceG1Promote := 0 }
  return ({ g0Evac := g0Evac, g1Evac := g1Evac, tenuredEvac := tenuredEvac,
            tenuredFreedBytes := tenuredEvac.pagesFreed * pageSizeBytes }, h, ext)

/-- `collectAuto`, with the heap at a panic of phase 1. -/
def collectAutoTracked (L : HeapLayout) (h : PageHeap) (ext : Nat → Word) (thresholdBps : Nat)
    (visitRoots : RootVisitor) : Except Abort (CollectResult × PageHeap × (Nat → Word)) := do
  let (result, h, ext) ←
    if h.shouldCollectMajor thresholdBps then h.collectMajorTracked L ext visitRoots
    else h.collectMinorTracked L ext visitRoots
  return (result, { h with bytesAllocSinceGc := 0 }, ext)

theorem erases_evacuate (L : HeapLayout) (h : PageHeap) (ext : Nat → Word)
    (fromGen destGen : Generation) (visitRoots : RootVisitor) :
    Erases Abort.panic (h.evacuateTracked L ext fromGen destGen visitRoots)
      (h.evacuateWithRoots L ext fromGen destGen visitRoots) := by
  unfold evacuateTracked evacuateWithRoots
  split
  · rfl
  · split
    · rfl
    · refine (Abort.erases_lift _).bind fun r => ?_
      exact (ChunkState.erases_loop L _ _ _).bind fun s => .pure _

theorem erases_collectMinor (L : HeapLayout) (h : PageHeap) (ext : Nat → Word)
    (visitRoots : RootVisitor) :
    Erases Abort.panic (h.collectMinorTracked L ext visitRoots)
      (h.collectMinor L ext visitRoots) := by
  unfold collectMinorTracked collectMinor
  refine (erases_evacuate L _ ext .G0 _ _).bind fun r => ?_
  dsimp only
  split
  · split
    · refine (erases_evacuate L _ r.2.2 .G1 .Tenured _).bind fun r' => ?_
      exact (Abort.erases_lift _).bind fun h => .pure _
    · exact (Abort.erases_lift _).bind fun h => .pure _
  · exact (Abort.erases_lift _).bind fun h => .pure _

theorem erases_collectMajor (L : HeapLayout) (h : PageHeap) (ext : Nat → Word)
    (visitRoots : RootVisitor) :
    Erases Abort.panic (h.collectMajorTracked L ext visitRoots)
      (h.collectMajor L ext visitRoots) := by
  refine (erases_evacuate L h ext .G1 .Tenured _).bind fun r => ?_
  refine (erases_evacuate L r.2.1 r.2.2 .G0 .G0 _).bind fun r' => ?_
  exact (Abort.erases_lift _).bind fun h => .pure _

theorem erases_collectFull (L : HeapLayout) (h : PageHeap) (ext : Nat → Word)
    (visitRoots : RootVisitor) :
    Erases Abort.panic (h.collectFullTracked L ext visitRoots)
      (h.collectFull L ext visitRoots) := by
  refine (erases_evacuate L h ext .G0 .G1 _).bind fun r => ?_
  refine (erases_evacuate L r.2.1 r.2.2 .G1 .Tenured _).bind fun r' => ?_
  refine (erases_evacuate L r'.2.1 r'.2.2 .Tenured .Tenured _).bind fun r'' => ?_
  exact (Abort.erases_lift _).bind fun h => .pure _

theorem erases_collectAuto (L : HeapLayout) (h : PageHeap) (ext : Nat → Word) (thresholdBps : Nat)
    (visitRoots : RootVisitor) :
    Erases Abort.panic (h.collectAutoTracked L ext thresholdBps visitRoots)
      (h.collectAuto L ext thresholdBps visitRoots) := by
  unfold collectAutoTracked collectAuto
  split
  · exact (erases_collectMajor L h ext visitRoots).bind fun r => .pure _
  · exact (erases_collectMinor L h ext visitRoots).bind fun r => .pure _

end PageHeap

end NewGc
