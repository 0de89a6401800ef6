import NewGc.Entries
import NewGc.Plans
import NewGc.Premark

/-!
# Production — the minor cycle with a static area

`collect_minor_with_static` adds the stack's pins to the marks that `mark_minor_with_static` left,
extends the marks from them, and releases the young pages on which nothing is marked and nothing
pinned.  What the release leaves is a heap in order again when no explicit pin and no run of pages
has been cut; the minor collection that follows takes the marks for its own.
-/

namespace NewGc

open Library PageHeap

/-! ## Marks that outlive a step -/

/-- `h'` is the marked heap `h` with more marks of `g` and more pins. -/
structure MarksHeld (L : HeapLayout) (h : PageHeap) (T : ObjTable) (g : Generation)
    (h' : PageHeap) : Prop where
  objects : SameObjects h h'
  cards : h'.cards = h.cards
  allocRegions : h'.allocRegions = h.allocRegions
  hashOrder : h'.hashOrder = h.hashOrder
  explicitPins : h'.explicitPins = h.explicitPins
  pinned : ∀ c ∈ h.pinnedCells, c ∈ h'.pinnedCells
  bits : ∀ q slot, (h.descs q).isPinned slot = true → (h'.descs q).isPinned slot = true
  pins : ∀ c ∈ h'.pinnedCells, (T c).isSome ∧
    (h'.descs (c / pageSizeCells)).isPinned (pinSlot c) = true
  marks : ∀ c, h.isMarked c = true → h'.isMarked c = true
  closed : MarkClosed h' T g (PageMarker.markTarget L h g)
  fresh : ∀ c, h'.isMarked c = true → h.genAt c = g → (T c).isSome
  active : h'.recycleLiveCountsTarget = some g

/-- The marks and the live counts of a heap, and its statistics, have changed. -/
structure Recounted (h h' : PageHeap) : Prop where
  base : h'.base = h.base
  nPages : h'.nPages = h.nPages
  mem : h'.mem = h.mem
  startBits : h'.startBits = h.startBits
  descs : h'.descs = h.descs
  cards : h'.cards = h.cards
  allocRegions : h'.allocRegions = h.allocRegions
  hashOrder : h'.hashOrder = h.hashOrder
  explicitPins : h'.explicitPins = h.explicitPins
  pinnedCells : h'.pinnedCells = h.pinnedCells
  committed : h'.committed = h.committed

theorem Recounted.sameObjects {h h' : PageHeap} (hR : Recounted h h') : SameObjects h h' :=
  ⟨hR.base, hR.nPages, hR.mem, hR.startBits, fun q => by rw [hR.descs]; exact .refl _,
    hR.committed, hR.cards⟩

theorem Recounted.of_marks {h h' : PageHeap} (hsame : h' = { h with markBits := h'.markBits }) :
    Recounted h h' := by
  rw [hsame]
  exact ⟨rfl, rfl, rfl, rfl, rfl, rfl, rfl, rfl, rfl, rfl, rfl⟩

namespace MarksHeld

variable {L : HeapLayout} {h h' h'' : PageHeap} {T : ObjTable} {g : Generation}

theorem shape (hH : MarksHeld L h T g h') (hS : Shape L h T Forwarding.empty) :
    Shape L h' T Forwarding.empty := hH.objects.shape hS

theorem target (hH : MarksHeld L h T g h') :
    PageMarker.markTarget L h' g = PageMarker.markTarget L h g :=
  funext (markTarget_congr hH.objects)

/-- Closed marks, in the heap's own terms. -/
theorem closed' (hH : MarksHeld L h T g h') :
    MarkClosed h' T g (PageMarker.markTarget L h' g) := by
  rw [hH.target]
  exact hH.closed

/-- More marks, closed again. -/
theorem recounted (hH : MarksHeld L h T g h') (hR : Recounted h' h'')
    (hmarks : ∀ c, h'.isMarked c = true → h''.isMarked c = true)
    (hclosed : MarkClosed h'' T g (PageMarker.markTarget L h' g))
    (hfresh : ∀ c, h''.isMarked c = true → h.genAt c = g → (T c).isSome)
    (hactive : h''.recycleLiveCountsTarget = some g) : MarksHeld L h T g h'' where
  objects := hH.objects.trans hR.sameObjects
  cards := hR.cards.trans hH.cards
  allocRegions := hR.allocRegions.trans hH.allocRegions
  hashOrder := hR.hashOrder.trans hH.hashOrder
  explicitPins := hR.explicitPins.trans hH.explicitPins
  pinned := fun c hc => hR.pinnedCells ▸ hH.pinned c hc
  bits := fun q slot hq => by
    rw [hR.descs]
    exact hH.bits q slot hq
  pins := by
    rw [hR.pinnedCells, hR.descs]
    exact hH.pins
  marks := fun c hc => hmarks c (hH.marks c hc)
  closed := by
    rw [← hH.target]
    exact hclosed
  fresh := hfresh
  active := hactive

/-- Marks closed in one heap are closed in another with the same marks and objects. -/
theorem closed_congr {target : Word → Option Nat} (hO : SameObjects h' h'')
    (hbits : h''.markBits = h'.markBits) (hclosed : MarkClosed h' T g target) :
    MarkClosed h'' T g target := by
  intro x y hx hy
  rw [markSucc_congr hO] at hy
  unfold PageHeap.isMarked at hx ⊢
  rw [hbits] at hx ⊢
  exact hclosed x y hx hy

/-- Pins on objects, recorded with their page. -/
theorem pin (hH : MarksHeld L h T g h') (hS : Shape L h T Forwarding.empty)
    (hP : StartsPinned h' h'') : MarksHeld L h T g h'' := by
  obtain ⟨cells, hR, hcells⟩ := hP
  have hbits : h''.markBits = h'.markBits := by rw [hR.same]
  exact
    { objects := hH.objects.trans hR.sameObjects
      cards := by rw [hR.same]; exact hH.cards
      allocRegions := by rw [hR.same]; exact hH.allocRegions
      hashOrder := by rw [hR.same]; exact hH.hashOrder
      explicitPins := by rw [hR.same]; exact hH.explicitPins
      pinned := fun c hc => hR.pinned c (hH.pinned c hc)
      bits := fun q slot hq => hR.bits q slot (hH.bits q slot hq)
      pins := by
        intro c hc
        rcases hR.newPins c hc with hold | ⟨hin, hlive⟩
        · exact ⟨(hH.pins c hold).1, hR.bits _ _ (hH.pins c hold).2⟩
        · refine ⟨?_, (hR.recorded c hin hlive).2⟩
          obtain ⟨o, ho⟩ := ((hH.shape hS).isStartAt_iff hlive).1 (hcells c hin).2
          exact Option.isSome_of_eq_some ho
      marks := by
        intro c hc
        show h''.markBits c = true
        rw [hbits]
        exact hH.marks c hc
      closed := closed_congr hR.sameObjects hbits hH.closed
      fresh := by
        intro c hc
        have hc' : h''.markBits c = true := hc
        rw [hbits] at hc'
        exact hH.fresh c hc'
      active := by rw [hR.same]; exact hH.active }

/-- The statistics of a pin scan. -/
theorem summary (hH : MarksHeld L h T g h') (s : Nat × Nat) :
    MarksHeld L h T g { h' with lastPinSummary := s } :=
  hH.recounted ⟨rfl, rfl, rfl, rfl, rfl, rfl, rfl, rfl, rfl, rfl, rfl⟩ (fun _ hc => hc)
    (closed_congr ⟨rfl, rfl, rfl, rfl, fun _ => .refl _, rfl, rfl⟩ rfl hH.closed') hH.fresh hH.active

/-- The live counts, taken from the marks. -/
theorem recount (hH : MarksHeld L h T g h') :
    MarksHeld L h T g (h'.prepareRecycleLiveCountsFromMarks g) :=
  hH.recounted ⟨rfl, rfl, rfl, rfl, rfl, rfl, rfl, rfl, rfl, rfl, rfl⟩ (fun _ hc => hc)
    (closed_congr (prepareRecycle_frame _ _).sameObjects rfl hH.closed') hH.fresh rfl

/-- More objects of the generation and what they reach. -/
theorem extended {extra : Nat → Prop} (hH : MarksHeld L h T g h')
    (hS : Shape L h T Forwarding.empty) (hg : g ≠ .Free)
    (hE : Extended L h' T g extra h'') (hextra : ∀ x, extra x → (T x).isSome) :
    MarksHeld L h T g h'' := by
  refine hH.recounted (.of_marks hE.same) hE.mono hE.closed ?_ ?_
  · intro c hc hgen
    rcases hE.sound c hc with hold | ⟨x, hx, hr⟩
    · exact hH.fresh c hold hgen
    · exact markReach_end (markTarget_ok (hH.shape hS) hg) hr (hextra x hx)
  · rw [hE.same]
    exact hH.active

/-- Marks of another generation. -/
theorem extendOther (hH : MarksHeld L h T g h') (g' : Generation)
    (hne : g' ≠ g) (hS : Shape L h T Forwarding.empty) (hg' : g' ≠ .Free) :
    ∃ h'', h'.extendMarkFromPinned L g' = .ok h'' ∧ MarksHeld L h T g h'' := by
  obtain ⟨h'', hok, hsame, hmono, hnew⟩ :=
    extendMarkFromPinned_marks (L := L) (T := T) (hH.shape hS) hg'
  have hR : Recounted h' h'' := .of_marks hsame
  have hother : ∀ c, h''.isMarked c = true → h.genAt c = g → h'.isMarked c = true := by
    intro c hc hgen
    rcases hnew c hc with hold | ⟨-, hgen'⟩
    · exact hold
    · rw [hH.objects.genAt, hgen] at hgen'
      exact absurd hgen'.symm hne
  refine ⟨h'', hok, hH.recounted hR hmono ?_ ?_ ?_⟩
  · intro x y hx hy
    rw [markSucc_congr hR.sameObjects] at hy
    obtain ⟨o, i, -, hgen, -⟩ := mem_markSucc.1 hy
    -- an object of the generation was marked before
    rw [hH.objects.genAt] at hgen
    exact hmono y (hH.closed' x y (hother x hx hgen) hy)
  · exact fun c hc hgen => hH.fresh c (hother c hc hgen) hgen
  · rw [hsame]
    exact hH.active

end MarksHeld

/-- The marks of `mark_minor_with_static`. -/
theorem Premarked.held {L : HeapLayout} {h h' : PageHeap} {T : ObjTable} {ext : Nat → Word}
    {g : Generation} {slots : List Slot} (hP : Premarked L h T ext g slots h')
    (hI : Coherent L h T) : MarksHeld L h' T g h' where
  objects := .refl _
  cards := rfl
  allocRegions := rfl
  hashOrder := rfl
  explicitPins := rfl
  pinned := fun _ hc => hc
  bits := fun _ _ hq => hq
  pins := by
    rw [hP.pinnedCells, hP.descs]
    exact hI.pins
  marks := fun _ hc => hc
  closed := by
    rw [show PageMarker.markTarget L h' g = PageMarker.markTarget L h g from
      funext (markTarget_congr hP.frame.sameObjects)]
    exact hP.closed
  fresh := by
    intro c hc hgen
    rw [hP.frame.genAt] at hgen
    exact hP.fresh c hc hgen
  active := hP.active

/-! ## The early release -/

/-- The pages `release_zero_live_unpinned_pages` releases. -/
def PageHeap.Releasable (h : PageHeap) (g : Generation) (q : Nat) : Prop :=
  q < h.nPages ∧ (h.descs q).generation = g ∧ (h.descs q).hasPins = false ∧
    h.recycleLiveCounts q = 0

/-- `h'` is `h` without the pages of `dropped`, whose contents are left as they are. -/
structure Thinned (h : PageHeap) (dropped : Nat → Prop) (h' : PageHeap) : Prop where
  base : h'.base = h.base
  nPages : h'.nPages = h.nPages
  mem : h'.mem = h.mem
  startBits : h'.startBits = h.startBits
  markBits : h'.markBits = h.markBits
  cards : h'.cards = h.cards
  allocRegions : h'.allocRegions = h.allocRegions
  hashOrder : h'.hashOrder = h.hashOrder
  explicitPins : h'.explicitPins = h.explicitPins
  pinnedCells : h'.pinnedCells = h.pinnedCells
  target : h'.recycleLiveCountsTarget = h.recycleLiveCountsTarget
  committed : h'.committed = h.committed
  gone : ∀ q, dropped q → h'.descs q = PageDesc.free
  kept : ∀ q, ¬ dropped q → h'.descs q = h.descs q

theorem releaseZeroLiveUnpinnedPages_thinned (h : PageHeap) (g : Generation) :
    Thinned h (h.Releasable g) (h.releaseZeroLiveUnpinnedPages g) := by
  unfold releaseZeroLiveUnpinnedPages
  have hmem : ∀ q, q ∈ ((h.pagesInGen g).filter fun p =>
      !(h.descs p).hasPins && h.recycleLiveCounts p == 0) ↔ h.Releasable g q := by
    intro q
    rw [List.mem_filter, mem_pagesInGen, Bool.and_eq_true, beq_iff_eq, Bool.not_eq_true',
      and_assoc]
    rfl
  have hfold := foldl_prefix
    (I := fun done (h' : PageHeap) => Thinned h (· ∈ done) h')
    (f := fun (h : PageHeap) p => { h.releasePageToFree p false with
      recycleLiveCounts := Function.update h.recycleLiveCounts p 0 })
    (s := { h with lastZeroLivePagesReleased := ((h.pagesInGen g).filter fun p =>
      !(h.descs p).hasPins && h.recycleLiveCounts p == 0).length })
    ((h.pagesInGen g).filter fun p => !(h.descs p).hasPins && h.recycleLiveCounts p == 0)
    (by
      intro done p h₁ _ hT
      refine ⟨hT.base, hT.nPages, hT.mem, hT.startBits, hT.markBits, hT.cards, hT.allocRegions,
        hT.hashOrder, hT.explicitPins, hT.pinnedCells, hT.target, hT.committed,
        ?_, ?_⟩
      · intro q hq
        show Function.update h₁.descs p PageDesc.free q = _
        by_cases hqp : q = p
        · rw [hqp, Function.update_self]
        · rw [Function.update_of_ne hqp]
          refine hT.gone q ?_
          rcases List.mem_append.1 hq with hq | hq
          · exact hq
          · exact absurd (List.mem_singleton.1 hq) hqp
      · intro q hq
        rw [List.mem_append, not_or, List.mem_singleton] at hq
        show Function.update h₁.descs p PageDesc.free q = _
        rw [Function.update_of_ne hq.2]
        exact hT.kept q hq.1)
    ⟨rfl, rfl, rfl, rfl, rfl, rfl, rfl, rfl, rfl, rfl, rfl, rfl,
      fun q hq => absurd hq List.not_mem_nil, fun _ _ => rfl⟩
  exact ⟨hfold.base, hfold.nPages, hfold.mem, hfold.startBits, hfold.markBits, hfold.cards,
    hfold.allocRegions, hfold.hashOrder, hfold.explicitPins, hfold.pinnedCells, hfold.target,
    hfold.committed, fun q hq => hfold.gone q ((hmem q).2 hq),
    fun q hq => hfold.kept q fun hin => hq ((hmem q).1 hin)⟩

/-- A page with a marked cell is not released. -/
theorem not_releasable_of_marked {h : PageHeap} {g : Generation} {c : Nat}
    (hgen : h.genAt c = g) (hlt : c / pageSizeCells < h.nPages) (hc : h.isMarked c = true) :
    ¬ (h.prepareRecycleLiveCountsFromMarks g).Releasable g (c / pageSizeCells) := by
  rintro ⟨-, -, -, hcount⟩
  have hcount' : (if c / pageSizeCells < h.nPages ∧ (h.descs (c / pageSizeCells)).generation = g
      then h.countMarksOnPage (c / pageSizeCells) % 65536 else 0) = 0 := hcount
  rw [if_pos ⟨hlt, hgen⟩] at hcount'
  -- a page has 8192 cells, so its count has not wrapped
  have hle : h.countMarksOnPage (c / pageSizeCells) ≤ pageSizeCells := by
    unfold countMarksOnPage
    refine Nat.le_trans List.countP_le_length ?_
    rw [List.length_range']
  have hpos : 0 < h.countMarksOnPage (c / pageSizeCells) := by
    unfold countMarksOnPage
    refine List.countP_pos_iff.2 ⟨c, List.mem_range'_1.2 ⟨?_, ?_⟩, hc⟩
    · exact Nat.div_mul_le_self c pageSizeCells
    · have hdiv := Nat.div_add_mod' c pageSizeCells
      have hmod := Nat.mod_lt c (show 0 < pageSizeCells by decide)
      omega
  have hsize : pageSizeCells < 65536 := by decide
  rw [Nat.mod_eq_of_lt (by omega)] at hcount'
  omega

/-- Extending the marks from the pins, then releasing the pages without any. -/
theorem extendAndReleaseEarly_thinned {L : HeapLayout} {h h' : PageHeap} {T : ObjTable}
    (hH : MarksHeld L h T .G0 h') (hS : Shape L h T Forwarding.empty) :
    ∃ h₂ h₃, h'.extendAndReleaseEarly L = .ok h₃ ∧ MarksHeld L h T .G0 h₂ ∧
      Thinned h₂ (h₂.Releasable .G0) h₃ ∧
      ∀ c, h₂.isMarked c = true → h.genAt c = .G0 → ¬ h₂.Releasable .G0 (c / pageSizeCells) := by
  have hg : Generation.G0 ≠ .Free := by decide
  have hok₀ : h'.recycleLiveCountsActiveFor .G0 = true := decide_eq_true hH.active
  obtain ⟨h₅, hok₅, hE₅⟩ := extendMarkFromPinned_extended (hH.shape hS) hg hH.closed'
  have hH₅ := hH.extended hS hg hE₅ fun x hx => hx.2.1
  obtain ⟨h₆, hok₆, hH₆⟩ := hH₅.extendOther .G1 (by decide) hS (by decide)
  obtain ⟨h₇, hok₇, hE₇⟩ := extendMarkFromCrossGenPinned_extended (hH₆.shape hS) hg hH₆.closed'
  have hH₇ := hH₆.extended hS hg hE₇ fun x hx => by
    obtain ⟨c, o, i, -, -, -, -, ht⟩ := hx
    exact (markTarget_ok (hH₆.shape hS) hg).object _ _ ht
  refine ⟨_, _, ?_, hH₇.recount, releaseZeroLiveUnpinnedPages_thinned _ _, ?_⟩
  · unfold extendAndReleaseEarly
    rw [if_pos hok₀, hok₅]
    show (PageHeap.extendMarkFromPinned L h₅ .G1 >>= _) = _
    rw [hok₆]
    show (PageHeap.extendMarkFromCrossGenPinned L h₆ .G0 >>= _) = _
    rw [hok₇]
    rfl
  · intro c hc hgen
    have hgen₇ : h₇.genAt c = .G0 := (hH₇.objects.genAt c).trans hgen
    refine not_releasable_of_marked hgen₇ ((hH₇.shape hS).pages.page_lt ?_) hc
    show h₇.genAt c ≠ .Free
    rw [hgen₇]
    exact hg

/-- The heap `collect_minor_with_static` hands to its minor collection: marked, pinned, and with the
young pages that hold nothing live released. -/
def PageHeap.earlyReleased (L : HeapLayout) (h : PageHeap) (ext : Nat → Word) (area : StaticArea)
    (pinStackRanges : List (Nat × Nat)) (roots : List Nat) : Except GcPanic PageHeap := do
  let h ← h.markMinorWithStatic L ext area roots
  let (pinG0, h) := h.pinPointersInRanges L ext .G0 pinStackRanges
  let (pinG1, h) := h.pinPointersInRanges L ext .G1 pinStackRanges
  let h := { h with
    lastPinSummary := (pinG0.nObjects + pinG1.nObjects, pinG0.nCells + pinG1.nCells) }
  h.extendAndReleaseEarly L

/-- The early release frees pages in use, one by one. -/
theorem earlyReleased_pool {L : HeapLayout} (h : PageHeap) (ext : Nat → Word) (area : StaticArea)
    (ranges : List (Nat × Nat)) (roots : List Nat) :
    Outcome AnyPanic (h.earlyReleased L ext area ranges roots) fun h' => ∃ l : List Nat, l.Nodup ∧
      (∀ p ∈ l, (h.pool.role p).generation = .G0) ∧
      h'.pool = l.foldl (fun P p => P.after (.drop p)) h.pool := by
  unfold earlyReleased
  refine (markMinorWithStatic_pool h ext area roots).bind fun h₁ hmark => ?_
  have hG0 := pinPointersInRanges_pool (L := L) ext h₁ .G0 ranges
  have hG1 := pinPointersInRanges_pool (L := L) ext
    (h₁.pinPointersInRanges L ext .G0 ranges).2 .G1 ranges
  have hpins := hG1.trans (hG0.trans hmark)
  refine (extendAndReleaseEarly_pool _).mono ?_
  rintro h' ⟨l, hnodup, hl, hpool⟩
  refine ⟨l, hnodup, fun p hp => ?_, ?_⟩
  · have hrole := congrFun (congrArg Pool.role hpins) p
    rw [← hrole]
    exact (mem_pagesInGen.1 (hl p hp)).2
  · rw [hpool]
    exact congrArg (fun P : Pool => l.foldl (fun P p => P.after (.drop p)) P) hpins

/-- What precedes the minor collection: the marks `h₁`, the marks and pins `h₂`, and the heap `h₃`
that is left when the empty pages are gone. -/
structure EarlyReleased (L : HeapLayout) (h : PageHeap) (T : ObjTable) (ext : Nat → Word)
    (area : StaticArea) (roots : List Nat) (h₁ h₂ h₃ : PageHeap) : Prop where
  premarked : Premarked L h T ext .G0 (premarkSlots h T area roots) h₁
  held : MarksHeld L h₁ T .G0 h₂
  thinned : Thinned h₂ (h₂.Releasable .G0) h₃
  stays : ∀ c, h₂.isMarked c = true → h.genAt c = .G0 → ¬ h₂.Releasable .G0 (c / pageSizeCells)

theorem earlyReleased_ok {L : HeapLayout} {h : PageHeap} {T : ObjTable} (hI : Coherent L h T)
    (ext : Nat → Word) (area : StaticArea) (ranges : List (Nat × Nat)) (roots : List Nat) :
    ∃ h₁ h₂ h₃, h.earlyReleased L ext area ranges roots = .ok h₃ ∧
      EarlyReleased L h T ext area roots h₁ h₂ h₃ := by
  obtain ⟨h₁, hmark, hP⟩ := markMinorWithStatic_premarked hI.shape ext area roots
  have hS₁ : Shape L h₁ T Forwarding.empty := hP.frame.shape hI.shape
  -- the pins of both young generations
  have hH₁ := (hP.held hI).pin hS₁
    (pinPointersInRanges_pinned (L := L) ext h₁ (show Generation.G0 ≠ .Free by decide) ranges)
  have hH₂ := hH₁.pin hS₁ (pinPointersInRanges_pinned (L := L) ext
    (h₁.pinPointersInRanges L ext .G0 ranges).2 (show Generation.G1 ≠ .Free by decide) ranges)
  obtain ⟨h₂, h₃, hok, hH, hthin, hstays⟩ := extendAndReleaseEarly_thinned (hH₂.summary _) hS₁
  refine ⟨h₁, h₂, h₃, ?_, hP, hH, hthin, fun c hc hgen => hstays c hc ?_⟩
  · unfold earlyReleased
    rw [hmark]
    exact hok
  · rw [hP.frame.genAt]
    exact hgen

/-! ## What the release leaves -/

/-- The objects on the pages `h'` still uses. -/
def ObjTable.within (T : ObjTable) (h' : PageHeap) : ObjTable := fun c =>
  if h'.genAt c = .Free then Option.none else T c

/-- The release has cut no run: its pages go together. -/
def RunsTogether (h h' : PageHeap) : Prop :=
  ∀ head q, (h.descs head).kind = .Large → OnRun head (h.descs head).nSpan q →
    ((h'.descs q).generation = .Free ↔ (h'.descs head).generation = .Free)

theorem ObjTable.within_some {T : ObjTable} {h' : PageHeap} {c : Nat} {o : ObjInfo} :
    T.within h' c = some o ↔ h'.genAt c ≠ .Free ∧ T c = some o := by
  unfold ObjTable.within
  split
  · rename_i hfree
    simp [hfree]
  · rename_i hlive
    simp [hlive]

/-- Where a word leads is read off the page it leads to. -/
theorem markTarget_desc {L : HeapLayout} {h h' : PageHeap} {g : Generation} {w : Word} {y : Nat}
    (hbase : h'.base = h.base) (hn : h'.nPages = h.nPages) (hstart : h'.startBits = h.startBits)
    (hdesc : h'.descs (y / pageSizeCells) = h.descs (y / pageSizeCells))
    (hw : PageMarker.markTarget L h' g w = some y) : PageMarker.markTarget L h g w = some y := by
  have hcell := (markTarget_cell hw).1
  unfold PageHeap.targetCell at hcell
  unfold PageMarker.markTarget isStartAt isConsStartAt at hw ⊢
  cases hp : (L.classify w).pointer? with
  | none => simp [hp] at hw
  | some r =>
      obtain ⟨addr, kind⟩ := r
      simp only [hp] at hw hcell ⊢
      have hof : h'.cellOf addr = h.cellOf addr := by
        unfold cellOf
        rw [hbase]
      rw [pageOf_congr hbase hn] at hw hcell
      cases hq : h.pageOf addr with
      | none => simp [hq] at hw
      | some q =>
          rw [hq] at hcell
          simp only [Option.isSome_some, if_true, Option.some.injEq] at hcell
          have hpage := pageOf_eq hq
          rw [← hcell, hof, ← hpage] at hdesc
          simp only [hq, hdesc, hof, hstart] at hw ⊢
          exact hw

namespace Thinned

variable {L : HeapLayout} {h h' : PageHeap} {T : ObjTable} {g : Generation} {dropped : Nat → Prop}

theorem kept_of_live (hT : Thinned h dropped h') {q : Nat}
    (hlive : (h'.descs q).generation ≠ .Free) : ¬ dropped q ∧ h'.descs q = h.descs q := by
  have hq : ¬ dropped q := fun hq => hlive (by rw [hT.gone q hq]; rfl)
  exact ⟨hq, hT.kept q hq⟩

theorem live_of_large (hT : Thinned h dropped h') (hP : PagesOk h) {q : Nat}
    (hk : (h'.descs q).kind = .Large) :
    (h'.descs q).generation ≠ .Free ∧ h'.descs q = h.descs q := by
  have hq : ¬ dropped q := by
    intro hq
    rw [hT.gone q hq] at hk
    cases hk
  have hkept := hT.kept q hq
  refine ⟨?_, hkept⟩
  rw [hkept] at hk ⊢
  intro hfree
  rw [(hP.kindFree q).2 hfree] at hk
  cases hk

theorem pages (hT : Thinned h dropped h') (hP : PagesOk h) (hruns : RunsTogether h h') :
    PagesOk h' where
  aligned := hT.base ▸ hP.aligned
  fits := by
    rw [hT.base, hT.nPages]
    exact hP.fits
  beyond := by
    intro p hp
    rw [hT.nPages] at hp
    by_cases hlive : (h'.descs p).generation = .Free
    · exact hlive
    · rw [(hT.kept_of_live hlive).2]
      exact hP.beyond p hp
  kindFree := by
    intro p
    by_cases hlive : (h'.descs p).generation = .Free
    · refine ⟨fun _ => hlive, fun _ => ?_⟩
      by_contra hk
      have hnot : ¬ dropped p := fun hd => hk (by rw [hT.gone p hd]; rfl)
      rw [hT.kept p hnot] at hk hlive
      exact hk ((hP.kindFree p).2 hlive)
    · rw [(hT.kept_of_live hlive).2]
      exact hP.kindFree p
  used := by
    intro p
    by_cases hd : dropped p
    · rw [hT.gone p hd]
      exact Nat.zero_le _
    · rw [hT.kept p hd]
      exact hP.used p
  run := by
    intro p j hk hj hlt
    obtain ⟨hlive, hkept⟩ := hT.live_of_large hP hk
    rw [hkept] at hk hlt
    have hon : OnRun p (h.descs p).nSpan (p + j) := by unfold OnRun; omega
    have hlive' : (h'.descs (p + j)).generation ≠ .Free :=
      fun hfree => hlive ((hruns p _ hk hon).1 hfree)
    rw [(hT.kept_of_live hlive').2, hkept]
    exact hP.run p j hk hj hlt
  head := by
    intro p hk hspan
    obtain ⟨hlive, hkept⟩ := hT.live_of_large hP hk
    rw [hkept] at hk hspan
    obtain ⟨q, hlt, hkq, hin⟩ := hP.head p hk hspan
    have hon : OnRun q (h.descs q).nSpan p := by unfold OnRun; omega
    have hliveq : (h'.descs q).generation ≠ .Free :=
      fun hfree => hlive ((hruns q p hkq hon).2 hfree)
    rw [← (hT.kept_of_live hliveq).2] at hkq hin
    exact ⟨q, hlt, hkq, hin⟩
  backing := by
    refine ⟨fun p hlive => ?_, fun k hk => ?_⟩
    · rw [hT.committed]
      refine hP.backing.live p ?_
      rw [← (hT.kept_of_live hlive).2]
      exact hlive
    · rw [hT.committed]
      rw [hT.cards] at hk
      exact hP.backing.dirty k hk

/-- The objects on the pages left make a heap in order. -/
theorem shape (hT : Thinned h dropped h') (hS : Shape L h T Forwarding.empty)
    (hruns : RunsTogether h h') : Shape L h' (T.within h') Forwarding.empty := by
  refine hS.shrink (hT.pages hS.pages hruns) (fun c o hc => (ObjTable.within_some.1 hc).2) ?_ ?_ ?_
    fun _ _ hK => by cases hK
  · intro c o hc
    obtain ⟨hlive, hTc⟩ := ObjTable.within_some.1 hc
    have hkept := (hT.kept_of_live hlive).2
    refine (hS.obj c o hTc).transport hT.base hT.nPages hlive ?_ ?_ ?_ (Or.inl ?_)
    · unfold PageHeap.kindAt
      rw [hkept]
    · rw [hkept]
    · rw [hkept]
    · rw [hT.mem]
  · intro c hlive
    have hkept := (hT.kept_of_live hlive).2
    have hwithin : T.within h' c = T c := if_neg hlive
    rw [hwithin, hT.startBits]
    refine hS.start c ?_
    unfold PageHeap.genAt at hlive ⊢
    rw [hkept] at hlive
    exact hlive
  · intro p hk hspan
    obtain ⟨hlive, hkept⟩ := hT.live_of_large hS.pages hk
    rw [hkept] at hk hspan
    obtain ⟨o, ho⟩ := Option.isSome_iff_exists.1 (hS.largeHead p hk hspan)
    refine Option.isSome_of_eq_some (ObjTable.within_some.2 ⟨?_, ho⟩)
    unfold PageHeap.genAt
    rw [(RunPlaced.start_page p).1]
    exact hlive

/-- A word leads, over the pages left, where it led before. -/
theorem markTarget_some (hT : Thinned h dropped h') (hg : g ≠ .Free) {w : Word} {y : Nat} :
    PageMarker.markTarget L h' g w = some y ↔
      PageMarker.markTarget L h g w = some y ∧ h'.genAt y ≠ .Free := by
  constructor
  · intro hw
    have hlive : h'.genAt y ≠ .Free := by
      rw [(markTarget_cell hw).2.1]
      exact hg
    exact ⟨markTarget_desc hT.base hT.nPages hT.startBits (hT.kept_of_live hlive).2 hw, hlive⟩
  · rintro ⟨hw, hlive⟩
    exact markTarget_desc hT.base.symm hT.nPages.symm hT.startBits.symm
      (hT.kept_of_live hlive).2.symm hw

/-- The marks of the pages left are closed. -/
theorem markClosed (hT : Thinned h dropped h') (hg : g ≠ .Free)
    (hclosed : MarkClosed h T g (PageMarker.markTarget L h g)) :
    MarkClosed h' (T.within h') g (PageMarker.markTarget L h' g) := by
  intro x y hx hy
  obtain ⟨o, i, hTx, hgen, hptr, ht⟩ := mem_markSucc.1 hy
  obtain ⟨hlive, hTx'⟩ := ObjTable.within_some.1 hTx
  rw [hT.mem] at ht
  have hgen' : h.genAt x = g := by
    unfold PageHeap.genAt at hgen ⊢
    rwa [(hT.kept_of_live hlive).2] at hgen
  unfold PageHeap.isMarked at hx ⊢
  rw [hT.markBits] at hx ⊢
  exact hclosed x y hx (mem_markSucc.2
    ⟨o, i, hTx', hgen', hptr, ((hT.markTarget_some hg).1 ht).1⟩)

end Thinned

/-- The early release frees no page of an explicitly pinned object and cuts no run. -/
structure PageHeap.EarlySafe (h h' : PageHeap) : Prop where
  explicit : ∀ e ∈ h.explicitCells, h'.genAt e ≠ .Free
  runs : RunsTogether h h'

/-- What stays where it is. -/
def Forwarding.kept (T : ObjTable) (h' : PageHeap) : Forwarding := Forwarding.still (T.within h')

namespace EarlyReleased

variable {L : HeapLayout} {h h₁ h₂ h₃ : PageHeap} {T : ObjTable} {ext : Nat → Word}
  {area : StaticArea} {roots : List Nat}

theorem objects (hE : EarlyReleased L h T ext area roots h₁ h₂ h₃) : SameObjects h h₂ :=
  hE.premarked.frame.sameObjects.trans hE.held.objects

theorem runsTogether (hE : EarlyReleased L h T ext area roots h₁ h₂ h₃) (hsafe : h.EarlySafe h₃) :
    RunsTogether h₂ h₃ := by
  intro head q hk hon
  rw [hE.objects.kind] at hk
  rw [hE.objects.nSpan] at hon
  exact hsafe.runs head q hk hon

theorem explicitCells (hE : EarlyReleased L h T ext area roots h₁ h₂ h₃) :
    h₃.explicitCells = h.explicitCells := by
  unfold PageHeap.explicitCells
  rw [hE.thinned.explicitPins, hE.held.explicitPins, hE.premarked.frame.explicitPins]

theorem shape (hE : EarlyReleased L h T ext area roots h₁ h₂ h₃) (hI : Coherent L h T)
    (hsafe : h.EarlySafe h₃) : Shape L h₃ (T.within h₃) Forwarding.empty :=
  hE.thinned.shape (hE.objects.shape hI.shape) (hE.runsTogether hsafe)

/-- The page of a pinned object stays. -/
theorem pinned (hE : EarlyReleased L h T ext area roots h₁ h₂ h₃) (hI : Coherent L h T) {c : Nat}
    (hc : c ∈ h₂.pinnedCells) : h₃.genAt c ≠ .Free ∧ (T.within h₃ c).isSome ∧
      h₃.descs (c / pageSizeCells) = h₂.descs (c / pageSizeCells) := by
  obtain ⟨hsome, hbit⟩ := hE.held.pins c hc
  obtain ⟨o, ho⟩ := Option.isSome_iff_exists.1 hsome
  have hkept : ¬ h₂.Releasable .G0 (c / pageSizeCells) := by
    rintro ⟨-, -, hnone, -⟩
    rw [PageDesc.hasPins_of_isPinned hbit] at hnone
    cases hnone
  have hdesc := hE.thinned.kept _ hkept
  have hlive : h₃.genAt c ≠ .Free := by
    unfold PageHeap.genAt
    rw [hdesc, hE.objects.generation]
    exact hI.shape.live ho
  exact ⟨hlive, Option.isSome_of_eq_some (ObjTable.within_some.2 ⟨hlive, ho⟩), hdesc⟩

/-- What is left is marked, and its pins are in order. -/
theorem markState (hE : EarlyReleased L h T ext area roots h₁ h₂ h₃) (hI : Coherent L h T)
    (hsafe : h.EarlySafe h₃) : MarkState L h₃ (T.within h₃) .G0 where
  shape := hE.shape hI hsafe
  live := by decide
  closed := hE.thinned.markClosed (by decide) hE.held.closed'
  fresh := by
    intro c hc hgen
    have hc' : h₂.isMarked c = true := by
      unfold PageHeap.isMarked at hc ⊢
      rwa [hE.thinned.markBits] at hc
    have hlive : h₃.genAt c ≠ .Free := by
      rw [hgen]
      decide
    have hgen₁ : h₁.genAt c = .G0 := by
      rw [← hE.held.objects.genAt]
      unfold PageHeap.genAt at hgen ⊢
      rwa [(hE.thinned.kept_of_live hlive).2] at hgen
    obtain ⟨o, ho⟩ := Option.isSome_iff_exists.1 (hE.held.fresh c hc' hgen₁)
    exact Option.isSome_of_eq_some (ObjTable.within_some.2 ⟨hlive, ho⟩)
  pins := by
    intro c hc
    rw [hE.thinned.pinnedCells] at hc
    obtain ⟨-, hsome, hdesc⟩ := hE.pinned hI hc
    refine Or.inr ⟨hsome, Or.inr (Or.inl ?_)⟩
    rw [hdesc]
    exact (hE.held.pins c hc).2
  explicit := by
    intro e he
    rw [hE.explicitCells] at he
    obtain ⟨o, ho⟩ := Option.isSome_iff_exists.1 (hI.explicit e he)
    refine ⟨Option.isSome_of_eq_some (ObjTable.within_some.2 ⟨hsafe.explicit e he, ho⟩), ?_⟩
    intro _ c hc _
    rw [hE.thinned.pinnedCells] at hc
    rw [(hE.pinned hI hc).2.2]
    exact (hE.held.pins c hc).2
  active := hE.thinned.target.trans hE.held.active

/-- The regions of the other generations are in order still. -/
theorem regions (hE : EarlyReleased L h T ext area roots h₁ h₂ h₃) (hI : Coherent L h T)
    {g : Generation} (hg : g ≠ .G0) (k : PageKind) : RegionOk h₃ g k := by
  intro q hq
  have hregion : h₃.allocRegions = h.allocRegions := by
    rw [hE.thinned.allocRegions, hE.held.allocRegions, hE.premarked.frame.allocRegions]
  rw [hregion] at hq ⊢
  have hok := hI.regions g k q hq
  have hrole := hE.objects.role q
  -- a released page was young
  have hkept : ¬ h₂.Releasable .G0 q := by
    rintro ⟨-, hgen, -⟩
    rw [hrole.generation, hok.1] at hgen
    exact hg hgen
  rw [hE.thinned.kept q hkept, hrole.generation, hrole.kind, hrole.wordsUsed]
  exact hok

/-- Only the kinds that have regions have open pages. -/
theorem noRegion (hE : EarlyReleased L h T ext area roots h₁ h₂ h₃) (hI : Coherent L h T)
    {g : Generation} {k : PageKind} (hcons : k ≠ .Cons) (hboxed : k ≠ .Boxed) :
    (h₃.allocRegions g k).currentPage = none := by
  have hregion : h₃.allocRegions = h.allocRegions := by
    rw [hE.thinned.allocRegions, hE.held.allocRegions, hE.premarked.frame.allocRegions]
  rw [hregion, Option.eq_none_iff_forall_ne_some]
  intro q hq
  rcases (hI.regions g k q hq).2.2.2.2 with hk | hk
  · exact hcons hk
  · exact hboxed hk

/-- The release moves nothing. -/
theorem carried (hE : EarlyReleased L h T ext area roots h₁ h₂ h₃) (hI : Coherent L h T)
    (hsafe : h.EarlySafe h₃) : Carried L h T h₃ (T.within h₃) (Forwarding.kept T h₃) := by
  have hstill : ∀ c c', Forwarding.kept T h₃ c = some c' ↔ c' = c ∧ (T.within h₃ c).isSome := by
    intro c c'
    unfold Forwarding.kept Forwarding.still
    split
    · rename_i hsome
      rw [Option.some.injEq]
      exact ⟨fun heq => ⟨heq.symm, hsome⟩, fun hand => hand.1.symm⟩
    · rename_i hnone
      exact ⟨fun heq => (by cases heq), fun hand => absurd hand.2 hnone⟩
  have hkeep : ∀ {q}, (h₃.descs q).generation ≠ .Free → (h.descs q).SameRole (h₃.descs q) := by
    intro q hlive
    rw [(hE.thinned.kept_of_live hlive).2]
    exact hE.objects.role q
  refine
    { nPages := hE.thinned.nPages.trans hE.objects.nPages
      base := hE.thinned.base.trans hE.objects.base
      fate_some := ?_
      fate_inj := fun c d e hc hd =>
        (((hstill c e).1 hc).1.symm).trans ((hstill d e).1 hd).1
      fate_onto := fun c o hc => ⟨c, (hstill c c).2 ⟨rfl, Option.isSome_of_eq_some hc⟩⟩
      plain := ?_
      explicitCells := hE.explicitCells
      explicit := ?_
      pinned := ?_
      runs := ?_
      large := ?_ }
  · intro c c' hc
    obtain ⟨rfl, hsome⟩ := (hstill c c').1 hc
    obtain ⟨o, ho⟩ := Option.isSome_iff_exists.1 hsome
    exact ⟨o, (ObjTable.within_some.1 ho).2, ho⟩
  · intro c c' o i hc _ _ _
    obtain ⟨rfl, -⟩ := (hstill c c').1 hc
    rw [hE.thinned.mem, hE.objects.mem]
  · intro e he
    obtain ⟨o, ho⟩ := Option.isSome_iff_exists.1 (hI.explicit e he)
    exact (hstill e e).2 ⟨rfl, Option.isSome_of_eq_some
      (ObjTable.within_some.2 ⟨hsafe.explicit e he, ho⟩)⟩
  · intro c hc _ hk hbit
    have hc₁ : c ∈ h₁.pinnedCells := by
      rw [hE.premarked.pinnedCells]
      exact hc
    have hc₂ := hE.held.pinned c hc₁
    obtain ⟨hlive, hsome, hdesc⟩ := hE.pinned hI hc₂
    refine ⟨(hstill c c).2 ⟨rfl, hsome⟩, ?_, ?_, ?_⟩
    · rw [hE.thinned.pinnedCells]
      exact hc₂
    · unfold PageHeap.kindAt at hk ⊢
      rw [(hkeep hlive).kind]
      exact hk
    · rw [hdesc]
      exact (hE.held.pins c hc₂).2
  · intro head hk hn
    have hhead : OnRun head (h.descs head).nSpan head := by unfold OnRun; omega
    by_cases hlive : (h₃.descs head).generation = .Free
    · right
      intro q hon hkq
      have hfree := (hsafe.runs head q hk hon).2 hlive
      have hpages := hE.thinned.pages (hE.objects.shape hI.shape).pages (hE.runsTogether hsafe)
      rw [(hpages.kindFree q).2 hfree] at hkq
      cases hkq
    · left
      refine ⟨(h.descs head).generation, ?_, ?_⟩
      · rw [← (hkeep hlive).generation]
        exact hlive
      · intro q hon
        have hliveq : (h₃.descs q).generation ≠ .Free :=
          fun hfree => hlive ((hsafe.runs head q hk hon).1 hfree)
        obtain ⟨hkq, hgq⟩ := hI.shape.pages.run_page hk hon
        rw [(hkeep hliveq).kind, (hkeep hliveq).generation, (hkeep hliveq).nSpan]
        exact ⟨hkq, hgq, rfl⟩
  · intro q hkq
    obtain ⟨hlive, -⟩ := hE.thinned.live_of_large (hE.objects.shape hI.shape).pages hkq
    rw [← (hkeep hlive).kind, (hkeep hlive).nSpan]
    exact ⟨hkq, rfl⟩

end EarlyReleased

/-! ## The collection over given marks -/

/-- The small objects a heap's marks name. -/
def HeldMark (h : PageHeap) (g : Generation) (c : Nat) : Prop :=
  h.isMarked c = true ∧ h.genAt c = g ∧ h.kindAt c ≠ .Large

namespace MarkState

variable {L : HeapLayout} {h : PageHeap} {T : ObjTable} {g dest : Generation} {ext : Nat → Word}
  {slots : List Slot} {filters : List (Nat → PageDesc)}

/-- The counters are not part of the marks. -/
theorem minorStart (hM : MarkState L h T g) : MarkState L h.minorStart T g where
  shape := hM.shape.congr rfl rfl (fun _ => .refl _) rfl rfl rfl
    fun _ => Or.inl
  live := hM.live
  closed := hM.closed
  fresh := hM.fresh
  pins := hM.pins
  explicit := hM.explicit
  active := hM.active

/-- Step 1 of an evacuation whose marks are there already. -/
theorem prepared (hM : MarkState L h T g) (ext : Nat → Word) (dest : Generation)
    (v : RootVisitor) : ∃ hm, h.markAndPin L ext g dest v = .ok (hm, ext) ∧
      Prepared L h T g (HeldMark h g) hm := by
  obtain ⟨hm, hok, hA⟩ := applyPins_applied hM
  refine ⟨hm, ?_, hA.prepared (.refl h) hM (fun c hc => hc.1) (fun c hc hk => absurd hk hc.2.2)
    fun c hc hgen hk => ⟨hc, hgen, hk⟩⟩
  unfold markAndPin recycleLiveCountsActiveFor
  rw [if_pos (decide_eq_true hM.active)]
  show (h.applyPinsAndExtendMark L g >>= fun h => _) = _
  rw [hok]
  rfl

/-- An evacuation over given marks runs out of memory or takes a step. -/
theorem evacuates (hM : MarkState L h T g) (hregions : ∀ g', g' ≠ g → ∀ k, RegionOk h g' k)
    (hempty : ∀ k, k ≠ .Cons → k ≠ .Boxed → (h.allocRegions g k).currentPage = none)
    (hd : dest ≠ .Free) (hslots : ∀ s ∈ slots, SlotSafe h T g s)
    (hsafe : PassSafe L h ext g dest slots filters) :
    Outcome GcPanic.IsOom (h.evacuateWithRoots L ext g dest (passVisitor L slots filters)) fun r =>
      ∃ hm s T' F, PassStep L h T g dest (passVisitor L slots filters) (HeldMark h g) hm s T' F r := by
  obtain ⟨hm, hmark, hprep⟩ := hM.prepared ext dest (passVisitor L slots filters)
  refine (hprep.evacuate (Q := fun _ _ _ => True) hM.shape hmark
    (hprep.loopStart _ hM.shape hregions hempty hM.live hd) hslots hsafe trivial
    (fun _ _ _ _ _ _ _ _ _ => trivial)).mono ?_
  rintro r ⟨s, T', F, hstep, -⟩
  exact ⟨hm, s, T', F, hstep⟩

end MarkState

/-- The slots the closure of `collect_minor_with_static` presents. -/
abbrev staticSlots (area : StaticArea) (roots : List Nat) : List Slot :=
  (roots ++ area.slots).map Slot.ext

theorem slotSafe_staticSlots (h : PageHeap) (T : ObjTable) (g : Generation) (area : StaticArea)
    (roots : List Nat) : ∀ s ∈ staticSlots area roots, SlotSafe h T g s := by
  intro s hs
  obtain ⟨a, -, rfl⟩ := List.mem_map.1 hs
  trivial

/-- The closure of the minor collection's passes scans the same snapshot twice. -/
theorem staticVisitor_pass (L : HeapLayout) (area : StaticArea) (roots : List Nat)
    (D : Nat → PageDesc) : withCardScan L (staticVisitor L area roots D) D =
      passVisitor L (staticSlots area roots) [D, D] := by
  rw [staticVisitor_eq]
  rfl

/-- The passes of the minor collection over the heap the early release left. -/
def StaticMinorSafe (L : HeapLayout) (h : PageHeap) (ext : Nat → Word) (area : StaticArea)
    (roots : List Nat) : Prop :=
  PassMeets L h.minorStart ext .G0 h.minorDest
      (passVisitor L (staticSlots area roots) [h.descs, h.descs]) (NoReuse L) ∧
    ∀ r₁, h.minorStart.evacuateWithRoots L ext .G0 h.minorDest
        (passVisitor L (staticSlots area roots) [h.descs, h.descs]) = .ok r₁ →
      h.cascades r₁.2.1 = true →
        PassSafe L r₁.2.1.cascadeStart r₁.2.2 .G1 .Tenured (staticSlots area roots)
          [h.descs, h.descs]

/-- The production minor cycle is safe: the early release frees no page of an explicitly pinned
object and cuts no run, and the passes that follow are safe. -/
def StaticSafe (L : HeapLayout) (h : PageHeap) (ext : Nat → Word) (area : StaticArea)
    (ranges : List (Nat × Nat)) (roots : List Nat) : Prop :=
  ∀ h₃, h.earlyReleased L ext area ranges roots = .ok h₃ →
    h.EarlySafe h₃ ∧ StaticMinorSafe L h₃ ext area roots

namespace EarlyReleased

variable {L : HeapLayout} {h h₁ h₂ h₃ : PageHeap} {T : ObjTable} {ext : Nat → Word}
  {area : StaticArea} {roots : List Nat}

/-- The first pass after the early release. -/
theorem firstPass (hE : EarlyReleased L h T ext area roots h₁ h₂ h₃) (hI : Coherent L h T)
    (hsafe : h.EarlySafe h₃) (hmeets : PassMeets L h₃.minorStart ext .G0 h₃.minorDest
      (passVisitor L (staticSlots area roots) [h₃.descs, h₃.descs]) (NoReuse L)) :
    Outcome GcPanic.IsOom (h₃.minorStart.evacuateWithRoots L ext .G0 h₃.minorDest
      (passVisitor L (staticSlots area roots) [h₃.descs, h₃.descs])) fun r => ∃ hm s T' F,
        PassStep L h₃.minorStart (T.within h₃) .G0 h₃.minorDest
          (passVisitor L (staticSlots area roots) [h₃.descs, h₃.descs])
          (HeldMark h₃.minorStart .G0) hm s T' F r := by
  have hM : MarkState L h₃.minorStart (T.within h₃) .G0 := (hE.markState hI hsafe).minorStart
  refine hM.evacuates (fun g' hne k => hE.regions hI hne k) (fun k => hE.noRegion hI)
    (minorDest_live h₃) (slotSafe_staticSlots _ _ _ _ _) ⟨hmeets, fun hm ext' hmark D hD => ?_⟩
  -- both snapshots are of the heap the pass starts from
  obtain ⟨hm', hmark', hprep⟩ := hM.prepared ext h₃.minorDest
    (passVisitor L (staticSlots area roots) [h₃.descs, h₃.descs])
  rw [hmark'] at hmark
  cases hmark
  have hDeq : D = h₃.descs := by simpa using hD
  rw [hDeq]
  exact filterSafe_fresh hprep.objects.role _ .G0

/-- The minor collection after the early release. -/
theorem collected (hE : EarlyReleased L h T ext area roots h₁ h₂ h₃) (hI : Coherent L h T)
    (hsafe : h.EarlySafe h₃) (hpasses : StaticMinorSafe L h₃ ext area roots) :
    Outcome GcPanic.IsOom (h₃.collectMinor L ext (staticVisitor L area roots h₃.descs)) fun r =>
      Cycled L h T r.2.1 := by
  have hcycle := @collectMinor_of_first L h₃ (T.within h₃) ext (staticSlots area roots)
    [h₃.descs, h₃.descs] (staticVisitor L area roots h₃.descs) (HeldMark h₃.minorStart .G0)
    (staticVisitor_pass L area roots h₃.descs)
    (fun s hs h' T' => slotSafe_staticSlots h' T' .G1 area roots s hs)
    (hE.firstPass hI hsafe hpasses.1) hpasses.2
  refine hcycle.mono ?_
  rintro r ⟨h₄, T', F, hcarried, hP, hend⟩
  exact ⟨h₄, T', _, (hE.carried hI hsafe).trans hcarried, hP, hend⟩

end EarlyReleased

/-! ## Planned production cycles -/

/-- The heap shows beforehand that the production cycle is safe: nothing in G0 is large or pinned by
the client, and the minor collection will not cascade. -/
def PageHeap.StaticPlanned (h : PageHeap) : Prop :=
  (∀ q ∈ h.pagesInGen .G0, (h.descs q).kind ≠ .Large) ∧ (∀ e ∈ h.explicitCells, h.genAt e ≠ .G0) ∧
    h.willCascade = false

instance (h : PageHeap) : Decidable h.StaticPlanned :=
  inferInstanceAs (Decidable ((∀ q ∈ h.pagesInGen .G0, _) ∧ (∀ e ∈ h.explicitCells, _) ∧ _))

/-- Released pages are no promotion. -/
theorem earlyReleased_willCascade {L : HeapLayout} {h h₃ : PageHeap} {ext : Nat → Word}
    {area : StaticArea} {ranges : List (Nat × Nat)} {roots : List Nat}
    (hearly : h.earlyReleased L ext area ranges roots = .ok h₃) :
    h₃.willCascade = h.willCascade := by
  obtain ⟨l, -, -, hpool⟩ := (earlyReleased_pool h ext area ranges roots).value hearly
  have hdrops : ∀ (l : List Nat) (P : Pool),
      (l.foldl (fun P p => P.after (.drop p)) P).minors = P.minors ∧
        (l.foldl (fun P p => P.after (.drop p)) P).promotes = P.promotes := by
    intro l
    induction l with
    | nil => exact fun _ => ⟨rfl, rfl⟩
    | cons p l ih => exact fun P => ih (P.after (.drop p))
  obtain ⟨hminors, hpromotes⟩ := hdrops l h.pool
  rw [← hpool] at hminors hpromotes
  have hm : h₃.minorsSinceG0Promote = h.minorsSinceG0Promote := hminors
  have hp : h₃.g0PromotesSinceG1Promote = h.g0PromotesSinceG1Promote := hpromotes
  unfold willCascade promotesG0
  rw [hm, hp]

namespace EarlyReleased

variable {L : HeapLayout} {h h₁ h₂ h₃ : PageHeap} {T : ObjTable} {ext : Nat → Word}
  {area : StaticArea} {roots : List Nat}

/-- A page of another generation is none the release considers. -/
theorem kept_of_other (hE : EarlyReleased L h T ext area roots h₁ h₂ h₃) {q : Nat}
    (hgen : (h.descs q).generation ≠ .G0) : (h.descs q).SameRole (h₃.descs q) := by
  rw [hE.thinned.kept q]
  · exact hE.objects.role q
  · rintro ⟨-, hyoung, -⟩
    rw [hE.objects.generation] at hyoung
    exact hgen hyoung

theorem earlySafe_of_plan (hE : EarlyReleased L h T ext area roots h₁ h₂ h₃) (hI : Coherent L h T)
    (hplan : h.StaticPlanned) : h.EarlySafe h₃ where
  explicit := by
    intro e he
    obtain ⟨o, ho⟩ := Option.isSome_iff_exists.1 (hI.explicit e he)
    have hgen := hplan.2.1 e he
    unfold genAt at hgen ⊢
    rw [(hE.kept_of_other hgen).generation]
    exact hI.shape.live ho
  runs := by
    intro head q hk hon
    have hlive : (h.descs head).generation ≠ .Free := by
      intro hfree
      rw [(hI.shape.pages.kindFree head).2 hfree] at hk
      cases hk
    have hgen : (h.descs head).generation ≠ .G0 := by
      intro hyoung
      exact hplan.1 head (mem_pagesInGen.2 ⟨hI.shape.pages.page_lt hlive, hyoung⟩) hk
    have hgenq := (hI.shape.pages.run_page hk hon).2
    rw [(hE.kept_of_other (hgenq ▸ hgen)).generation, (hE.kept_of_other hgen).generation, hgenq]

/-- The pages of G0 the release leaves are small. -/
theorem small_of_plan (hE : EarlyReleased L h T ext area roots h₁ h₂ h₃) (hI : Coherent L h T)
    (hplan : h.StaticPlanned) (q : Nat) (hgen : (h₃.descs q).generation = .G0) :
    (h₃.descs q).kind ≠ .Large := by
  have hlive : (h₃.descs q).generation ≠ .Free := by
    rw [hgen]
    decide
  rw [(hE.thinned.kept_of_live hlive).2] at hgen ⊢
  rw [hE.objects.generation] at hgen
  rw [hE.objects.kind]
  refine hplan.1 q (mem_pagesInGen.2 ⟨hI.shape.pages.page_lt ?_, hgen⟩)
  rw [hgen]
  decide

theorem staticMinorSafe_of_plan (hE : EarlyReleased L h T ext area roots h₁ h₂ h₃)
    (hI : Coherent L h T) (hplan : h.StaticPlanned) {ranges : List (Nat × Nat)}
    (hearly : h.earlyReleased L ext area ranges roots = .ok h₃) :
    StaticMinorSafe L h₃ ext area roots := by
  have hsafe := hE.earlySafe_of_plan hI hplan
  have hM : MarkState L h₃.minorStart (T.within h₃) .G0 := (hE.markState hI hsafe).minorStart
  have hsmall := hE.small_of_plan hI hplan
  refine ⟨?_, fun r₁ hr₁ hcascade => ?_⟩
  · intro hm ext' hmark
    obtain ⟨hm', hmark', hprep⟩ := hM.prepared ext h₃.minorDest
      (passVisitor L (staticSlots area roots) [h₃.descs, h₃.descs])
    rw [hmark'] at hmark
    cases hmark
    have hX := hprep.loopStart
      (passVisitor L (staticSlots area roots) [h₃.descs, h₃.descs]) hM.shape
      (fun g' hne k => hE.regions hI hne k) (fun k => hE.noRegion hI) (by decide)
      (minorDest_live h₃)
    have hO := hprep.sameReset
    have hvisit : VisitOk (hm.resetAllocRegions .G0) (T.within h₃) .G0 (staticSlots area roots)
        [h₃.descs, h₃.descs] := by
      refine ⟨slotSafe_staticSlots _ _ _ _ _, fun D hD => ?_⟩
      have hDeq : D = h₃.descs := by simpa using hD
      rw [hDeq]
      exact filterSafe_fresh hO.role _ .G0
    have hserves := @serves_passVisitor L (hm.chunkParams .G0 h₃.minorDest
      (passVisitor L (staticSlots area roots) [h₃.descs, h₃.descs])) _ _ _ _ hX.shape rfl hvisit
    refine Evacuating.meets hX hserves (fun s T' F hEv => hEv.noReuse hX fun q hq => ?_) _ _ _ _
      (Evacuating.start hX ext EvacResult.zero)
    rw [hO.generation] at hq
    rw [hO.kind]
    exact hsmall q hq
  · -- there is no second pass
    have hkeeps : (passVisitor L (staticSlots area roots) [h₃.descs, h₃.descs]).KeepsPool :=
      keepsPool_withCardScan (keepsPool_withCardScan (keepsPool_slotsVisitor L _) _) _
    have hwill := willCascade_of_cascades hkeeps hr₁ hcascade
    rw [earlyReleased_willCascade hearly, hplan.2.2] at hwill
    cases hwill

end EarlyReleased

theorem staticSafe_of_plan {L : HeapLayout} {h : PageHeap} {T : ObjTable} (hI : Coherent L h T)
    (hplan : h.StaticPlanned) (ext : Nat → Word) (area : StaticArea) (ranges : List (Nat × Nat))
    (roots : List Nat) : StaticSafe L h ext area ranges roots := by
  intro h₃ hearly
  obtain ⟨h₁, h₂, h₃', hearly', hE⟩ := earlyReleased_ok hI ext area ranges roots
  rw [hearly] at hearly'
  cases hearly'
  exact ⟨hE.earlySafe_of_plan hI hplan, hE.staticMinorSafe_of_plan hI hplan hearly⟩

/-- `mark_minor_with_static` and `collect_minor_with_static`, one after the other. -/
theorem minorWithStatic_eq (L : HeapLayout) (w : World) (area : StaticArea)
    (ranges : List (Nat × Nat)) (roots : List Nat) :
    w.step L (.minorWithStatic area ranges roots) =
      (w.heap.earlyReleased L w.ext area ranges roots >>= fun h₃ =>
        h₃.collectMinor L w.ext (staticVisitor L area roots h₃.descs) >>= fun r =>
          r.2.1.accessDirtyCards >>= fun _ =>
            .ok { w with heap := r.2.1.clearCardsUnlessIntergen L, ext := r.2.2 }) := by
  simp only [World.step, earlyReleased, collectMinorWithStatic, bind_assoc]
  rfl

/-- Every dirty card of a heap in order can be read. -/
theorem PagesOk.accessDirtyCards {h : PageHeap} (hP : PagesOk h) : h.accessDirtyCards = .ok () := by
  unfold PageHeap.accessDirtyCards
  rw [require_eq_ok, List.all_eq_true]
  intro k _
  cases hk : h.cards k with
  | false => rfl
  | true => simpa using hP.backing.dirty k hk

/-- The end of the production cycle drops pins, and makes no card dirty. -/
theorem DropsPins.clearCards {h h' : PageHeap} (L : HeapLayout) (hU : DropsPins h h') :
    DropsPins h (h'.clearCardsUnlessIntergen L) where
  descs := hU.descs
  mem := hU.mem
  startBits := hU.startBits
  base := hU.base
  nPages := hU.nPages
  allocRegions := hU.allocRegions
  pinnedCells := hU.pinnedCells
  explicitPins := hU.explicitPins
  target := hU.target
  committed := hU.committed
  newCards := fun k hk => hU.newCards k (Bool.and_eq_true_iff.1 hk).1

namespace World.Sound

variable {L : HeapLayout} {w w' : World} {T : ObjTable}

/-- A production minor cycle that is safe sweeps the world and drops the pins. -/
theorem minorWithStatic (hW : Sound L w T) {area : StaticArea} {ranges : List (Nat × Nat)}
    {roots : List Nat} (hallowed : w.allows L (.minorWithStatic area ranges roots) = true)
    (hsafe : StaticSafe L w.heap w.ext area ranges roots)
    (hstep : w.step L (.minorWithStatic area ranges roots) = .ok w') : SweptClean L w w' T := by
  obtain ⟨h₁, h₂, h₃, hearly, hE⟩ := earlyReleased_ok hW.heap w.ext area ranges roots
  obtain ⟨hkeeps, hpasses⟩ := hsafe h₃ hearly
  have hcycle := hE.collected hW.heap hkeeps hpasses
  rw [minorWithStatic_eq, hearly] at hstep
  obtain ⟨r, hcollect, hrest⟩ := bind_eq_ok (show (h₃.collectMinor L w.ext
    (staticVisitor L area roots h₃.descs) >>= fun r => r.2.1.accessDirtyCards >>= fun _ =>
      .ok { w with heap := r.2.1.clearCardsUnlessIntergen L, ext := r.2.2 }) = .ok w' from hstep)
  obtain ⟨h₄, T', F, hcarried, hP, hend⟩ := hcycle.value hcollect
  rw [(hP.finish hend).shape.pages.accessDirtyCards] at hrest
  cases hrest
  have hU := hend.unpinned.clearCards L
  exact ⟨⟨h₄, T', F, hcarried, hP, Or.inr hU, List.isEmpty_iff.1 hallowed⟩, hU.pinnedCells⟩

end World.Sound

end NewGc
