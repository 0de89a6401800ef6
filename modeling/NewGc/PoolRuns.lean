import NewGc.Client
import NewGc.PoolSteps

/-!
# PoolRuns — collections and whole runs as pool events

A collection is a run of events whose pages are opened in, or flipped to, the destination of one of
its evacuations; a request of the client is a run of events.  What the events keep therefore holds
in every state a client can drive the heap to, whatever words it stores.
-/

namespace NewGc

open Library PageHeap

/-- A closure that leaves the pool alone. -/
def RootVisitor.KeepsPool (V : RootVisitor) : Prop := ∀ P, V.Keeps fun h => h.pool = P

theorem keepsPool_slotsVisitor (L : HeapLayout) (slots : List Slot) :
    (slotsVisitor L slots).KeepsPool := fun P => (visitInvariant_pool P).slotsVisitor L slots

theorem keepsPool_withCardScan {L : HeapLayout} {V : RootVisitor} (hV : V.KeepsPool)
    (snapshot : Nat → PageDesc) : (withCardScan L V snapshot).KeepsPool :=
  fun P => (visitInvariant_pool P).withCardScan (hV P) snapshot

theorem keepsPool_staticVisitor (L : HeapLayout) (area : StaticArea) (roots : List Nat)
    (snapshot : Nat → PageDesc) : (staticVisitor L area roots snapshot).KeepsPool :=
  fun P => (visitInvariant_pool P).staticVisitor L area roots snapshot

/-! ## Marking -/

theorem OnlyMarks.pool {h h' : PageHeap} (hM : OnlyMarks h h') : h'.pool = h.pool := by
  obtain ⟨bits, rfl⟩ := hM
  rfl

theorem foldExplicitPin_pool (h : PageHeap) (cell : Nat) :
    (h.foldExplicitPin cell).pool = h.pool := by
  unfold foldExplicitPin
  split
  · rfl
  · exact recordPin_pool h cell

theorem applyPinsAndExtendMark_pool {L : HeapLayout} (h : PageHeap) (fromGen : Generation) :
    Outcome AnyPanic (h.applyPinsAndExtendMark L fromGen) fun h' => h'.pool = h.pool := by
  have hfold := foldl_pool foldExplicitPin_pool (h.hashOrder.iter (h.explicitPins.map (·.1))) h
  unfold applyPinsAndExtendMark
  dsimp only
  generalize (h.hashOrder.iter (h.explicitPins.map (·.1))).foldl foldExplicitPin h = h₀ at *
  split
  · refine (OnlyMarks.extendMarkFromPinned h₀ fromGen).bind fun h₁ hM₁ => ?_
    refine (OnlyMarks.extendMarkFromCrossGenPinned h₁ fromGen).bind fun h₂ hM₂ => ?_
    exact hM₂.pool.trans (hM₁.pool.trans hfold)
  · exact hfold

theorem markAndPin_pool {L : HeapLayout} (h : PageHeap) (ext : Nat → Word)
    (fromGen destGen : Generation) {V : RootVisitor} (hV : V.KeepsPool) :
    Outcome AnyPanic (h.markAndPin L ext fromGen destGen V) fun r => r.1.pool = h.pool := by
  have hmark : Outcome AnyPanic (h.internalMark L ext fromGen destGen V)
      fun r => r.1.pool = h.pool := by
    refine (hV h.pool (.new (h.clearMarkBitsInGen fromGen) ext fromGen destGen .mark) rfl).bind
      fun e hI₁ => ?_
    exact ((visitInvariant_pool h.pool).markDrainFuel _ e hI₁).bind fun e hI₂ => hI₂
  unfold markAndPin
  split
  · exact (applyPinsAndExtendMark_pool h fromGen).bind fun h₂ hI₂ => hI₂
  · refine hmark.bind fun r hI₁ => ?_
    exact (applyPinsAndExtendMark_pool r.1 fromGen).bind fun h₂ hI₂ => hI₂.trans hI₁

/-! ## One evacuation -/

/-- The pages a chunk loop still has to visit lie in the reservation. -/
structure Ahead (dest : Generation) (P : Pool) (s : ChunkState) : Prop where
  steps : Pool.Steps (Pool.EvacEvent dest) P s.heap.pool
  inside : ∀ q ∈ s.rest, q < P.nPages

theorem chunkStep_steps {L : HeapLayout} {p : ChunkParams} (hV : p.visitRoots.KeepsPool)
    (hg : p.destGen ≠ .Free) {P : Pool} {s : ChunkState} (hA : Ahead p.destGen P s) :
    Outcome AnyPanic (s.step L p) fun s' => Ahead p.destGen P s' := by
  unfold ChunkState.step
  refine (phase1CopyChunk_steps s.heap p.fromGen hg (s.chunk p) s.total).bind fun copied h₁ => ?_
  refine ((visitInvariant_pool copied.heap.pool).phase2Rewrite rfl s.ext p.fromGen p.destGen
    (hV copied.heap.pool)).bind fun r h₂ => ?_
  have hsteps := hA.steps.trans (h₁.mono fun e he => he.evac)
  have hn : r.1.nPages = P.nPages :=
    (congrArg Pool.nPages h₂).trans hsteps.fixed.1
  have hchunk : ∀ q ∈ s.chunk p, q < r.1.nPages := fun q hq => by
    rw [hn]
    exact hA.inside q (List.mem_of_mem_take hq)
  refine (phase3Reclaim_steps r.1 hg hchunk p.pinnedWithKind).bind fun reclaimed h₃ => ?_
  rw [h₂] at h₃
  exact ⟨hsteps.trans h₃, fun q hq => hA.inside q (List.mem_of_mem_drop hq)⟩

theorem chunkLoop_steps {L : HeapLayout} {p : ChunkParams} (hV : p.visitRoots.KeepsPool)
    (hg : p.destGen ≠ .Free) {P : Pool} : ∀ fuel (s : ChunkState), Ahead p.destGen P s →
      Outcome AnyPanic (s.loop L p fuel) fun s' => Ahead p.destGen P s' := by
  intro fuel
  induction fuel with
  | zero => intro s hA; exact hA
  | succ fuel ih =>
      intro s hA
      unfold ChunkState.loop
      split
      · exact hA
      · exact (chunkStep_steps hV hg hA).bind ih

/-- An evacuation opens and flips pages into its destination, and releases pages. -/
theorem evacuateWithRoots_steps {L : HeapLayout} (h : PageHeap) (ext : Nat → Word)
    (fromGen destGen : Generation) {V : RootVisitor} (hV : V.KeepsPool) :
    Outcome AnyPanic (h.evacuateWithRoots L ext fromGen destGen V) fun r =>
      Pool.Steps (Pool.EvacEvent destGen) h.pool r.2.1.pool := by
  unfold evacuateWithRoots
  split
  · trivial
  · split
    · trivial
    · rename_i hg
      refine (markAndPin_pool h ext fromGen destGen hV).bind fun r hpool => ?_
      have hstart : Ahead destGen h.pool (r.1.chunkStart r.2 fromGen) := by
        refine ⟨.of_eq hpool, ?_⟩
        intro q hq
        rw [← congrArg Pool.nPages hpool]
        exact List.mem_range.1 (List.mem_filter.1 hq).1
      exact (chunkLoop_steps (p := r.1.chunkParams fromGen destGen V) hV hg _ _ hstart).bind
        fun s hA => hA.steps

/-! ## The cycles -/

theorem finishCycle_pool {L : HeapLayout} (h : PageHeap) :
    Outcome AnyPanic (h.finishCycle L) fun h' => h'.pool = h.pool := by
  refine (finishCycle_ends L h).mono ?_
  rintro h' rfl
  rfl

/-- An evacuation inside a cycle. -/
theorem evacuation_cycle {L : HeapLayout} (h : PageHeap) (ext : Nat → Word)
    (fromGen destGen : Generation) {V : RootVisitor} (hV : V.KeepsPool) :
    Outcome AnyPanic (h.evacuateWithRoots L ext fromGen destGen V) fun r =>
      Pool.Steps Pool.CycleEvent h.pool r.2.1.pool :=
  (evacuateWithRoots_steps h ext fromGen destGen hV).mono fun _ hs =>
    hs.mono fun _ he => he.cycle

/-- The bookkeeping of a cycle. -/
theorem Pool.Steps.counted {P Q : Pool} (m n : Nat)
    (hs : Pool.Steps Pool.CycleEvent (P.after (.count m n)) Q) : Pool.Steps Pool.CycleEvent P Q :=
  Pool.Steps.trans (.of (.count m n) trivial trivial rfl) hs

theorem Pool.Steps.counting {P Q : Pool} (hs : Pool.Steps Pool.CycleEvent P Q) (m n : Nat) :
    Pool.Steps Pool.CycleEvent P (Q.after (.count m n)) :=
  hs.tail ⟨.count m n, trivial, trivial, rfl⟩

theorem collectMinor_steps {L : HeapLayout} (h : PageHeap) (ext : Nat → Word) {V : RootVisitor}
    (hV : V.KeepsPool) : Outcome AnyPanic (h.collectMinor L ext V) fun r =>
      Pool.Steps Pool.CycleEvent h.pool r.2.1.pool := by
  unfold collectMinor
  dsimp only
  have hscan := keepsPool_withCardScan (L := L) hV h.descs
  refine (evacuation_cycle
    { h with minorsSinceG0Promote := saturatingSuccU32 h.minorsSinceG0Promote } ext .G0 _
    hscan).bind fun r h₁ => ?_
  have hfirst := Pool.Steps.counted (P := h.pool) _ h.g0PromotesSinceG1Promote h₁
  split
  · have hpromoted := hfirst.counting 0 (saturatingSuccU32 r.2.1.g0PromotesSinceG1Promote)
    split
    · refine (evacuation_cycle { r.2.1 with
        minorsSinceG0Promote := 0
        g0PromotesSinceG1Promote := saturatingSuccU32 r.2.1.g0PromotesSinceG1Promote }
        r.2.2 .G1 .Tenured hscan).bind fun r' h₂ => ?_
      refine (finishCycle_pool _).bind fun h' hpool => ?_
      exact ((hpromoted.trans h₂).counting r'.2.1.minorsSinceG0Promote 0).trans (.of_eq hpool)
    · exact (finishCycle_pool _).bind fun h' hpool => hpromoted.trans (.of_eq hpool)
  · exact (finishCycle_pool _).bind fun h' hpool => hfirst.trans (.of_eq hpool)

theorem collectMajor_steps {L : HeapLayout} (h : PageHeap) (ext : Nat → Word) {V : RootVisitor}
    (hV : V.KeepsPool) : Outcome AnyPanic (h.collectMajor L ext V) fun r =>
      Pool.Steps Pool.CycleEvent h.pool r.2.1.pool := by
  unfold collectMajor
  refine (evacuation_cycle h ext .G1 .Tenured (keepsPool_withCardScan hV _)).bind fun r h₁ => ?_
  refine (evacuation_cycle r.2.1 r.2.2 .G0 .G0 (keepsPool_withCardScan hV _)).bind
    fun r' h₂ => ?_
  refine (finishCycle_pool _).bind fun h' hpool => ?_
  exact ((h₁.trans h₂).trans (.of_eq hpool)).counting 0 0

theorem collectFull_steps {L : HeapLayout} (h : PageHeap) (ext : Nat → Word) {V : RootVisitor}
    (hV : V.KeepsPool) : Outcome AnyPanic (h.collectFull L ext V) fun r =>
      Pool.Steps Pool.CycleEvent h.pool r.2.1.pool := by
  unfold collectFull
  refine (evacuation_cycle h ext .G0 .G1 (keepsPool_withCardScan hV _)).bind fun r h₁ => ?_
  refine (evacuation_cycle r.2.1 r.2.2 .G1 .Tenured (keepsPool_withCardScan hV _)).bind
    fun r' h₂ => ?_
  refine (evacuation_cycle r'.2.1 r'.2.2 .Tenured .Tenured hV).bind fun r'' h₃ => ?_
  refine (finishCycle_pool _).bind fun h' hpool => ?_
  exact (((h₁.trans h₂).trans h₃).trans (.of_eq hpool)).counting 0 0

theorem collectAuto_steps {L : HeapLayout} (h : PageHeap) (ext : Nat → Word) (thresholdBps : Nat)
    {V : RootVisitor} (hV : V.KeepsPool) :
    Outcome AnyPanic (h.collectAuto L ext thresholdBps V) fun r =>
      Pool.Steps Pool.CycleEvent h.pool r.2.1.pool := by
  unfold collectAuto
  split
  · exact (collectMajor_steps h ext hV).bind fun r hs => hs
  · exact (collectMinor_steps h ext hV).bind fun r hs => hs

/-! ### The production minor cycle -/

theorem markMinorWithStatic_pool {L : HeapLayout} (h : PageHeap) (ext : Nat → Word)
    (area : StaticArea) (roots : List Nat) :
    Outcome AnyPanic (h.markMinorWithStatic L ext area roots) fun h' => h'.pool = h.pool := by
  have hroots : OnlyMarks h (roots.foldl (fun m slot => m.visitWord L (ext slot))
      (PageMarker.new h .G0)).heap :=
    foldl_inv (I := fun m : PageMarker => OnlyMarks h m.heap) roots
      (fun _ _ _ hM => PageMarker.visitWord_onlyMarks hM _) ⟨_, rfl⟩
  have hcards := PageMarker.scanExternalCards_onlyMarks (L := L) ext area.cards area.base area.cells
    hroots
  refine (PageMarker.scanReservationCards_onlyMarks (some h.descs) hcards).bind fun m hM₁ => ?_
  exact (PageMarker.drainFuel_onlyMarks _ m hM₁).bind fun m hM₂ => hM₂.pool

theorem pinPointersInRanges_pool {L : HeapLayout} (ext : Nat → Word) (h : PageHeap)
    (target : Generation) (ranges : List (Nat × Nat)) :
    (h.pinPointersInRanges L ext target ranges).2.pool = h.pool := by
  have hword : ∀ (s : PageHeap × Nat) lo hi raw,
      (pinWord L target lo hi s raw).1.pool = s.1.pool := by
    intro s lo hi raw
    unfold pinWord
    split
    · rfl
    · exact recordPin_pool _ _
  refine foldl_inv (I := fun s : PageHeap × Nat => s.1.pool = h.pool) ranges ?_ rfl
  intro range _ s hs
  refine foldl_inv (I := fun s : PageHeap × Nat => s.1.pool = h.pool) _ ?_ hs
  intro slot _ s' hs'
  exact (hword s' _ _ _).trans hs'

/-- The early release frees pages of the target generation one by one. -/
theorem releaseZeroLive_pool (h : PageHeap) (target : Generation) :
    ∃ l : List Nat, l.Nodup ∧ (∀ p ∈ l, p ∈ h.pagesInGen target) ∧
      (h.releaseZeroLiveUnpinnedPages target).pool =
        l.foldl (fun P p => P.after (.drop p)) h.pool := by
  have main : ∀ (l : List Nat) (h : PageHeap), (l.foldl (fun h p =>
      { h.releasePageToFree p false with
        recycleLiveCounts := Function.update h.recycleLiveCounts p 0 }) h).pool =
      l.foldl (fun P p => P.after (.drop p)) h.pool := by
    intro l
    induction l with
    | nil => intro h; rfl
    | cons p l ih =>
        intro h
        rw [List.foldl_cons, List.foldl_cons, ih]
        exact congrArg (fun P => l.foldl (fun P p => P.after (.drop p)) P)
          (releasePageToFree_pool h p false)
  refine ⟨_, ?_, fun p hp => (List.mem_filter.1 hp).1, main _ _⟩
  exact (List.nodup_range.filter _).filter _

/-- Freed pages, as events of either sort. -/
theorem Pool.Steps.foldl_drop (may : Pool.Event → Prop) (ev : Nat → Pool.Event)
    (hmay : ∀ p, may (ev p)) (hafter : ∀ (P : Pool) p, P.after (ev p) = P.after (.drop p)) :
    ∀ (l : List Nat) (P : Pool), l.Nodup → (∀ p ∈ l, P.Enabled (ev p)) →
      (∀ (P : Pool) p q, p ≠ q → P.Enabled (ev p) → (P.after (.drop q)).Enabled (ev p)) →
      Pool.Steps may P (l.foldl (fun P p => P.after (.drop p)) P) := by
  intro l
  induction l with
  | nil => intro P _ _ _; exact .refl
  | cons q l ih =>
      intro P hnodup hen hkeeps
      obtain ⟨hq, hnodup⟩ := List.nodup_cons.1 hnodup
      refine Pool.Steps.trans (.of (ev q) (hmay q) (hen q List.mem_cons_self) (hafter P q).symm) ?_
      refine ih _ hnodup (fun p hp => ?_) hkeeps
      have hne : p ≠ q := fun heq => hq (heq ▸ hp)
      exact hkeeps P p q hne (hen p (List.mem_cons_of_mem q hp))

theorem extendAndReleaseEarly_pool {L : HeapLayout} (h : PageHeap) :
    Outcome AnyPanic (h.extendAndReleaseEarly L) fun h' => ∃ l : List Nat, l.Nodup ∧
      (∀ p ∈ l, p ∈ h.pagesInGen .G0) ∧ h'.pool = l.foldl (fun P p => P.after (.drop p)) h.pool := by
  unfold extendAndReleaseEarly
  split
  · refine (OnlyMarks.extendMarkFromPinned h .G0).bind fun h₁ hM₁ => ?_
    refine (OnlyMarks.extendMarkFromPinned h₁ .G1).bind fun h₂ hM₂ => ?_
    refine (OnlyMarks.extendMarkFromCrossGenPinned h₂ .G0).bind fun h₃ hM₃ => ?_
    obtain ⟨bits, rfl⟩ := (hM₁.trans hM₂).trans hM₃
    exact releaseZeroLive_pool
      (PageHeap.prepareRecycleLiveCountsFromMarks { h with markBits := bits } .G0) .G0
  · exact ⟨[], List.nodup_nil, fun p hp => absurd hp List.not_mem_nil, rfl⟩

/-- The production cycle: an early release of young pages, then a minor collection. -/
theorem collectMinorWithStatic_minor {L : HeapLayout} (h : PageHeap) (ext : Nat → Word)
    (area : StaticArea) (ranges : List (Nat × Nat)) (roots : List Nat) :
    Outcome AnyPanic (h.collectMinorWithStatic L ext area ranges roots) fun r =>
      ∃ (l : List Nat) (h₁ : PageHeap) (r₁ : CollectResult × PageHeap × (Nat → Word)),
        l.Nodup ∧ (∀ p ∈ l, p < h.nPages ∧ (h.pool.role p).generation = .G0) ∧
        h₁.pool = l.foldl (fun P p => P.after (.drop p)) h.pool ∧
        h₁.collectMinor L ext (staticVisitor L area roots h₁.descs) = .ok r₁ ∧
        r.1.pool = r₁.2.1.pool := by
  have h₁ := pinPointersInRanges_pool (L := L) ext h .G0 ranges
  have h₂ := pinPointersInRanges_pool (L := L) ext
    (h.pinPointersInRanges L ext .G0 ranges).2 .G1 ranges
  unfold collectMinorWithStatic
  dsimp only
  generalize ((h.pinPointersInRanges L ext .G0 ranges).2.pinPointersInRanges L ext .G1
    ranges) = pins at *
  have hpins : ({ pins.2 with lastPinSummary :=
      ((h.pinPointersInRanges L ext .G0 ranges).1.nObjects + pins.1.nObjects,
        (h.pinPointersInRanges L ext .G0 ranges).1.nCells + pins.1.nCells) } : PageHeap).pool =
      h.pool := h₂.trans h₁
  refine (extendAndReleaseEarly_pool _).bind ?_
  rintro h₃ ⟨l, hnodup, hl, hpool⟩
  rw [hpins] at hpool
  cases hminor : h₃.collectMinor L ext (staticVisitor L area roots h₃.descs) with
  | error e => trivial
  | ok r =>
      refine Outcome.after (x := r.2.1.accessDirtyCards) fun _ => ?_
      refine ⟨l, h₃, r, hnodup, ?_, hpool, hminor, rfl⟩
      intro p hp
      have hmem := List.mem_filter.1 (hl p hp)
      have hrole : (PageHeap.pool _).role p = h.pool.role p :=
        congrFun (congrArg Pool.role hpins) p
      refine ⟨?_, ?_⟩
      · rw [show h.nPages = h.pool.nPages from rfl, ← hpins]
        exact List.mem_range.1 hmem.1
      · rw [← hrole]
        exact of_decide_eq_true hmem.2

/-! ## Runs of requests -/

/-- Any event. -/
abbrev Pool.AnyEvent : Pool.Event → Prop := fun _ => True

/-- The calls the allocators answer: there is no allocation region for the Free generation, and
buffers are carved from pages of conses or of boxed objects. -/
def Op.valid : Op → Bool
  | .allocCons g _ _ | .allocBoxed g _ | .allocLarge g _ => decide (g ≠ .Free)
  | .reserveTlab g k _ _ => decide (g ≠ .Free) && (decide (k = .Cons) || decide (k = .Boxed))
  | _ => true

/-- Requests that run evacuations. -/
def Op.collects : Op → Bool
  | .evacuate _ _ _ | .collectMinor _ | .collectMajor _ | .collectFull _ | .collectAuto _ _
  | .minorWithStatic _ _ _ => true
  | _ => false

namespace World

/-- The worlds requests can drive a heap to, whether or not the client keeps its contract, when
every request meets `C`. -/
inductive Driven (L : HeapLayout) (C : World → Op → Prop) : World → Prop
  | start (base nPages : Nat) (os : Nat → Bool) (order : HashOrder) (ext : Nat → Word) :
      Driven L C (init base nPages os order ext)
  | create (base youngBytes oldBytes : Nat) (os : Nat → Bool) (order : HashOrder)
      (ext : Nat → Word) : Driven L C (create base youngBytes oldBytes os order ext)
  | step {w w' : World} (op : Op) (hw : Driven L C w) (hvalid : op.valid = true) (hC : C w op)
      (hstep : w.step L op = .ok w') : Driven L C w'

theorem allows_valid {L : HeapLayout} {w : World} {op : Op} (hallowed : w.allows L op = true) :
    op.valid = true := by
  cases op with
  | allocCons g car cdr =>
      simp only [allows, Bool.and_eq_true] at hallowed
      exact hallowed.1.1
  | allocBoxed g header =>
      simp only [allows, Bool.and_eq_true] at hallowed
      exact hallowed.1
  | allocLarge g header =>
      simp only [allows, Bool.and_eq_true] at hallowed
      exact hallowed.1
  | reserveTlab g k m n => exact hallowed
  | _ => rfl

theorem Reached.driven {L : HeapLayout} {C : World → Op → Prop} {w : World}
    (hw : Reached L C w) : Driven L C w := by
  induction hw with
  | start base nPages os order ext _ _ => exact .start base nPages os order ext
  | create base youngBytes oldBytes os order ext _ _ =>
      exact .create base youngBytes oldBytes os order ext
  | step op _ hallowed hC hstep ih => exact ih.step op (allows_valid hallowed) hC hstep

theorem Driven.mono {L : HeapLayout} {C C' : World → Op → Prop} {w : World} (hw : Driven L C w)
    (himp : ∀ w op, C w op → C' w op) : Driven L C' w := by
  induction hw with
  | start base nPages os order ext => exact .start base nPages os order ext
  | create base youngBytes oldBytes os order ext =>
      exact .create base youngBytes oldBytes os order ext
  | step op _ hvalid hC hstep ih => exact ih.step op hvalid (himp _ _ hC) hstep

theorem barrierStore_pool (h : PageHeap) (cell : Nat) (v : Word) :
    (barrierStore h cell v).pool = h.pool := markCardAt_pool _ _

theorem initCons_pool (h : PageHeap) (cell : Nat) (car cdr : Word) :
    (initCons h cell car cdr).pool = h.pool :=
  (barrierStore_pool _ _ _).trans (barrierStore_pool _ _ _)

theorem withHeader_pool (w : World) (header : Word) (r : Option Nat × PageHeap) :
    (w.withHeader header r).heap.pool = r.2.pool := by
  rcases r with ⟨_ | cell, h⟩ <;> rfl

/-- A request of the mutator alone opens pages in one generation, unless it is a large one. -/
theorem step_opens {L : HeapLayout} {w w' : World} {op : Op} (hvalid : op.valid = true)
    (hstep : w.step L op = .ok w') (hlarge : ∀ g header, op ≠ .allocLarge g header)
    (hquiet : op.collects = false) :
    ∃ g, Pool.Steps (Pool.OpenEvent g) w.heap.pool w'.heap.pool := by
  cases op with
  | allocCons g car cdr =>
      have hs := tryAllocConsIn_steps w.heap (of_decide_eq_true hvalid)
      simp only [step] at hstep
      split at hstep
      · rename_i cell h₁ halloc
        cases hstep
        rw [halloc] at hs
        exact ⟨g, hs.trans (.of_eq (initCons_pool _ _ _ _))⟩
      · rename_i h₁ halloc
        cases hstep
        rw [halloc] at hs
        exact ⟨g, hs⟩
  | allocBoxed g header =>
      cases hstep
      rw [withHeader_pool]
      exact ⟨g, tryAllocBoxedIn_steps w.heap (of_decide_eq_true hvalid) _⟩
  | allocLarge g header => exact absurd rfl (hlarge g header)
  | reserveTlab g k m n =>
      simp only [Op.valid, Bool.and_eq_true, Bool.or_eq_true, decide_eq_true_eq] at hvalid
      have hs := reserveTlab_steps w.heap hvalid.1 hvalid.2 m n
      simp only [step] at hstep
      split at hstep
      · rename_i slab h₁ halloc
        cases hstep
        rw [halloc] at hs
        exact ⟨g, hs⟩
      · rename_i h₁ halloc
        cases hstep
        rw [halloc] at hs
        exact ⟨g, hs⟩
  | reserveSlab cells =>
      have hs := tryAllocG0Slab_steps w.heap cells
      simp only [step] at hstep
      split at hstep
      · rename_i slab h₁ halloc
        cases hstep
        rw [halloc] at hs
        exact ⟨.G0, hs⟩
      · rename_i h₁ halloc
        cases hstep
        rw [halloc] at hs
        exact ⟨.G0, hs⟩
  | bumpCons i car cdr =>
      simp only [step] at hstep
      split at hstep
      · cases hstep
        exact ⟨.G0, .of_eq (initCons_pool _ _ _ _)⟩
      · cases hstep
        exact ⟨.G0, .refl⟩
  | bumpBoxed i header =>
      simp only [step] at hstep
      split at hstep <;> cases hstep <;> exact ⟨.G0, .refl⟩
  | flushTlabs =>
      cases hstep
      exact ⟨.G0, .refl⟩
  | store obj off v =>
      cases hstep
      exact ⟨.G0, .of_eq (barrierStore_pool _ _ _)⟩
  | storeExt addr v =>
      cases hstep
      exact ⟨.G0, .refl⟩
  | pin v =>
      cases hstep
      refine ⟨.G0, .of_eq ?_⟩
      show (w.heap.pin L v).2.pool = w.heap.pool
      unfold PageHeap.pin
      split <;> rfl
  | unpin cell =>
      cases hstep
      exact ⟨.G0, .refl⟩
  | pinRanges target ranges =>
      cases hstep
      exact ⟨.G0, .of_eq (pinPointersInRanges_pool w.ext w.heap target ranges)⟩
  | clearPins =>
      cases hstep
      exact ⟨.G0, .refl⟩
  | evacuate | collectMinor | collectMajor | collectFull | collectAuto | minorWithStatic =>
      cases hquiet

/-- All requests but two only open, release and flip pages: a large allocation claims a run, and the
production cycle releases young pages early. -/
theorem step_cycles {L : HeapLayout} {w w' : World} {op : Op} (hvalid : op.valid = true)
    (hstep : w.step L op = .ok w') (hlarge : ∀ g header, op ≠ .allocLarge g header)
    (hstatic : ∀ area ranges roots, op ≠ .minorWithStatic area ranges roots) :
    Pool.Steps Pool.CycleEvent w.heap.pool w'.heap.pool := by
  cases hquiet : op.collects with
  | false =>
      obtain ⟨g, hs⟩ := step_opens hvalid hstep hlarge hquiet
      exact hs.mono fun _ he => he.evac.cycle
  | true =>
      cases op with
      | evacuate fromGen destGen slots =>
          obtain ⟨r, hr, hok⟩ := bind_eq_ok hstep
          cases hok
          exact (evacuation_cycle w.heap w.ext fromGen destGen
            (keepsPool_slotsVisitor L slots)).value hr
      | collectMinor roots =>
          obtain ⟨r, hr, hok⟩ := bind_eq_ok hstep
          cases hok
          exact (collectMinor_steps w.heap w.ext (keepsPool_slotsVisitor L _)).value hr
      | collectMajor roots =>
          obtain ⟨r, hr, hok⟩ := bind_eq_ok hstep
          cases hok
          exact (collectMajor_steps w.heap w.ext (keepsPool_slotsVisitor L _)).value hr
      | collectFull roots =>
          obtain ⟨r, hr, hok⟩ := bind_eq_ok hstep
          cases hok
          exact (collectFull_steps w.heap w.ext (keepsPool_slotsVisitor L _)).value hr
      | collectAuto thresholdBps roots =>
          obtain ⟨r, hr, hok⟩ := bind_eq_ok hstep
          cases hok
          exact (collectAuto_steps w.heap w.ext thresholdBps
            (keepsPool_slotsVisitor L _)).value hr
      | minorWithStatic area ranges roots => exact absurd rfl (hstatic area ranges roots)
      | _ => cases hquiet

/-- Those requests are made of whole events. -/
theorem step_whole {L : HeapLayout} {w w' : World} {op : Op} (hvalid : op.valid = true)
    (hstep : w.step L op = .ok w') (hlarge : ∀ g header, op ≠ .allocLarge g header)
    (hstatic : ∀ area ranges roots, op ≠ .minorWithStatic area ranges roots) :
    Pool.Steps Pool.WholeEvent w.heap.pool w'.heap.pool :=
  (step_cycles hvalid hstep hlarge hstatic).mono fun _ he => he.whole

/-- The large allocation of a client. -/
theorem step_allocLarge {L : HeapLayout} {w w' : World} {g : Generation} {header : Word}
    (hg : g ≠ .Free) (hstep : w.step L (.allocLarge g header) = .ok w') :
    w'.heap.pool = w.heap.pool ∨ ∃ start m,
      w.heap.pool.Enabled (.claim start m (largePages (headerCells L header)) g) ∧
        w'.heap.pool = w.heap.pool.after (.claim start m (largePages (headerCells L header)) g) ∧
        ((w.heap.tryAllocLarge (headerCells L header) g).1 ≠ none →
          m = largePages (headerCells L header)) := by
  cases hstep
  rw [withHeader_pool]
  exact tryAllocLarge_pool w.heap _ hg

/-- The production cycle of a client: young pages are released early, then a minor collection
runs. -/
theorem step_minorWithStatic {L : HeapLayout} {w w' : World} {area : StaticArea}
    {ranges : List (Nat × Nat)} {roots : List Nat}
    (hstep : w.step L (.minorWithStatic area ranges roots) = .ok w') :
    ∃ (l : List Nat) (h₁ : PageHeap) (V : RootVisitor)
      (r₁ : CollectResult × PageHeap × (Nat → Word)),
      l.Nodup ∧ (∀ p ∈ l, p < w.heap.nPages ∧ (w.heap.pool.role p).generation = .G0) ∧
      h₁.pool = l.foldl (fun P p => P.after (.drop p)) w.heap.pool ∧ V.KeepsPool ∧
      h₁.collectMinor L w.ext V = .ok r₁ ∧ w'.heap.pool = r₁.2.1.pool := by
  obtain ⟨h₁, hr₁, hrest⟩ := bind_eq_ok hstep
  obtain ⟨r, hr, hok⟩ := bind_eq_ok hrest
  cases hok
  have hpool := (markMinorWithStatic_pool w.heap w.ext area roots).value hr₁
  obtain ⟨l, h₂, r₁, hnodup, hl, hfreed, hminor, hend⟩ :=
    (collectMinorWithStatic_minor h₁ w.ext area ranges roots).value hr
  rw [hpool] at hl hfreed
  refine ⟨l, h₂, _, r₁, hnodup, ?_, hfreed, keepsPool_staticVisitor L area roots h₂.descs, hminor,
    hend⟩
  intro p hp
  rw [← show h₁.nPages = w.heap.nPages from congrArg Pool.nPages hpool]
  exact hl p hp

/-- Every request is a run of pool events. -/
theorem step_pool {L : HeapLayout} {w w' : World} {op : Op} (hvalid : op.valid = true)
    (hstep : w.step L op = .ok w') : Pool.Steps Pool.AnyEvent w.heap.pool w'.heap.pool := by
  by_cases hlarge : ∃ g header, op = .allocLarge g header
  · obtain ⟨g, header, rfl⟩ := hlarge
    rcases step_allocLarge (of_decide_eq_true hvalid) hstep with heq | ⟨start, m, hen, heq, -⟩
    · exact .of_eq heq
    · exact .of _ trivial hen heq
  · by_cases hstatic : ∃ area ranges roots, op = .minorWithStatic area ranges roots
    · obtain ⟨area, ranges, roots, rfl⟩ := hstatic
      obtain ⟨l, h₁, V, r₁, hnodup, hl, hpool, hV, hminor, hend⟩ := step_minorWithStatic hstep
      have hfreed := Pool.Steps.foldl_drop Pool.AnyEvent Pool.Event.drop
        (fun _ => trivial) (fun _ _ => rfl) l w.heap.pool hnodup (fun p hp => (hl p hp).1)
        (fun _ _ _ _ hlt => hlt)
      have hs := (collectMinor_steps h₁ w.ext hV).value hminor
      rw [hpool, ← hend] at hs
      exact hfreed.trans (hs.mono fun _ _ => trivial)
    · push Not at hlarge hstatic
      exact (step_whole hvalid hstep hlarge hstatic).mono fun _ _ => trivial

/-- A run does not change the size of the reservation or the operating system. -/
theorem run_fixed {L : HeapLayout} {w w' : World} {ops : List Op}
    (hrun : w.run L ops = some w') :
    w'.heap.nPages = w.heap.nPages ∧ w'.heap.os = w.heap.os := by
  induction ops generalizing w with
  | nil =>
      cases hrun
      exact ⟨rfl, rfl⟩
  | cons op ops ih =>
      obtain ⟨hallowed, w₁, hstep, hrest⟩ := run_cons hrun
      obtain ⟨hn, hos⟩ := (step_pool (allows_valid hallowed) hstep).fixed
      obtain ⟨hn', hos'⟩ := ih hrest
      exact ⟨hn'.trans hn, hos'.trans hos⟩

end World

end NewGc
