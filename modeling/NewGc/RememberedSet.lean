import NewGc.HighWater
import NewGc.Keeps
import NewGc.Phase3

/-!
# RememberedSet — the card table after a cycle

A cycle ends with a sweep that makes a card dirty exactly when it holds a pointer.  The sweep stops
at `pages_high_water`, so the table is complete only if nothing in use lies above the mark.  Every
part of a collection keeps `HighWater`: marking touches mark bits and the pins of large runs,
copying goes through the allocators, rewriting changes words only, reclaiming frees or flips pages
that were already below the mark.
-/

namespace NewGc

open Library PageHeap

/-- A closure keeps the touched prefix. -/
def KeepsPrefix (V : RootVisitor) : Prop :=
  ∀ e, HighWater e.heap → Outcome AnyPanic (V e) fun e' => HighWater e'.heap

/-! ## Marking -/

namespace HighWater

variable {L : HeapLayout} {h : PageHeap}

/-- The head of a large run is large: every continuation page lies in the run of a head. -/
theorem largeHeadPage (hI : HighWater h) :
    ∀ p, (h.descs p).kind = .Large → (h.descs (h.largeHeadPage p)).kind = .Large := by
  intro p
  induction p with
  | zero => intro hk; exact hk
  | succ p ih =>
      intro hk
      unfold PageHeap.largeHeadPage
      split
      · rename_i hcont
        have hz : (h.descs (p + 1)).nSpan = 0 := by
          simp only [PageDesc.isLargeCont, Bool.and_eq_true, decide_eq_true_eq] at hcont
          exact hcont.2
        obtain ⟨q, hq, hkq, hlt⟩ := hI.head (p + 1) hk hz
        apply ih
        by_cases heq : p = q
        · rw [heq]
          exact hkq
        · have := (hI.run q (p - q) hkq (by omega) (by omega)).1
          rwa [Nat.add_sub_cancel' (by omega)] at this
      · exact hk

/-- Pinning the pages of a large run. -/
theorem pinRun (hI : HighWater h) {head : Nat} (hk : (h.descs head).kind = .Large) :
    HighWater { h with
      descs := fun p =>
        if head ≤ p ∧ p < head + (h.descs head).nSpan then (h.descs p).setPin 0 else h.descs p } := by
  refine hI.redescribe _ ?_ ?_ ?_ ?_
  · intro p
    left
    split <;> rfl
  · intro p
    split <;> rfl
  · intro p
    split <;> rfl
  · intro p hp
    split at hp
    · rename_i hin
      by_cases heq : p = head
      · rw [heq]
        exact hk
      · have := (hI.run head (p - head) hk (by omega) (by omega)).1
        rwa [Nat.add_sub_cancel' hin.1] at this
    · exact hI.pins p hp

end HighWater

namespace PageEvacuator

variable {L : HeapLayout} {e : PageEvacuator}

theorem markLarge_prefix (hI : HighWater e.heap) {p : Nat} (hk : (e.heap.descs p).kind = .Large) :
    HighWater (e.markLarge p).heap := by
  unfold markLarge
  dsimp only
  split
  · exact hI
  · exact hI.pinRun (hI.largeHeadPage p hk)

end PageEvacuator

/-- Marking and rewriting keep the touched prefix. -/
theorem visitInvariant_highWater : VisitInvariant HighWater where
  marks := fun _ _ hI => hI
  word := fun _ _ _ hI => hI
  large := fun _ _ hI hk => PageEvacuator.markLarge_prefix hI hk

/-! ### The closures a cycle hands to the evacuator -/

theorem keepsPrefix_slotsVisitor (L : HeapLayout) (slots : List Slot) :
    KeepsPrefix (slotsVisitor L slots) :=
  visitInvariant_highWater.slotsVisitor L slots

theorem keepsPrefix_withCardScan {L : HeapLayout} {V : RootVisitor} (hV : KeepsPrefix V)
    (snapshot : Nat → PageDesc) : KeepsPrefix (withCardScan L V snapshot) :=
  visitInvariant_highWater.withCardScan hV snapshot

theorem keepsPrefix_staticVisitor (L : HeapLayout) (area : StaticArea) (roots : List Nat)
    (snapshot : Nat → PageDesc) : KeepsPrefix (staticVisitor L area roots snapshot) :=
  visitInvariant_highWater.staticVisitor L area roots snapshot

/-! ### The marker of the production path -/

theorem OnlyMarks.keeps {h h' : PageHeap} (hM : OnlyMarks h h') (hI : HighWater h) : HighWater h' := by
  obtain ⟨bits, rfl⟩ := hM
  exact hI

/-! ### Pins -/

namespace HighWater

variable {L : HeapLayout} {h : PageHeap}

/-- Without explicit pins the pin table is left alone. -/
theorem applyPinsAndExtendMark (hI : HighWater h) (fromGen : Generation) :
    Outcome AnyPanic (h.applyPinsAndExtendMark L fromGen) HighWater := by
  have hnone : h.hashOrder.iter (h.explicitPins.map (·.1)) = [] := by
    rw [hI.explicit]
    exact (h.hashOrder.perm []).eq_nil
  unfold PageHeap.applyPinsAndExtendMark
  rw [hnone]
  dsimp only [List.foldl_nil]
  split
  · refine (OnlyMarks.extendMarkFromPinned h fromGen).bind fun h₁ hM₁ => ?_
    exact (OnlyMarks.extendMarkFromCrossGenPinned h₁ fromGen).bind fun h₂ hM₂ => hM₂.keeps (hM₁.keeps hI)
  · exact hI

/-! ## Phase 1 -/

theorem allocDest (hI : HighWater h) {destGen : Generation} {isCons : Bool} {size : Nat}
    {r : Option Nat} {h' : PageHeap} (halloc : h.allocDest destGen isCons size = (r, h'))
    (hsize : isCons = true → size = 2) :
    HighWater h' ∧ ∀ dest, r = some dest → Touched h' dest size := by
  unfold PageHeap.allocDest at halloc
  cases isCons with
  | true =>
      rw [hsize rfl]
      obtain ⟨hraised, hcell⟩ := hI.tryAllocConsIn halloc
      exact ⟨hraised.keeps, hcell⟩
  | false =>
      obtain ⟨hraised, hcell⟩ := hI.tryAllocBoxedIn halloc
      exact ⟨hraised.keeps, hcell⟩

/-- The copy stays on its page, and so do the cards it marks. -/
theorem forwardObject (hI : HighWater h) {src dest size : Nat} (hT : Touched h dest size) :
    HighWater (h.forwardObject L src dest size) :=
  markCards (h := (h.copyCells src dest size).setCell src (L.makeForward (h.cellAddr dest))) hI
    (hT.mono le_rfl)

theorem phase1Cell {fromGen destGen : Generation} {total : EvacResult} {cell : Nat}
    {s : CopyState} (hI : HighWater s.heap) :
    Outcome AnyPanic (phase1Cell L fromGen destGen total cell s) fun r => HighWater r.2.heap := by
  unfold PageHeap.phase1Cell
  split
  · exact hI
  · split
    · exact hI
    · refine Outcome.after fun _ => ?_
      split
      · exact hI
      · dsimp only
        cases hsize : s.heap.startedObjectSize L cell (s.heap.isConsStartAt cell) with
        | error err => trivial
        | ok size =>
            show Outcome AnyPanic (if _ then _ else _) _
            split
            · exact hI
            · have hcons : s.heap.isConsStartAt cell = true → size = 2 := by
                intro hc
                rw [hc] at hsize
                cases hsize
                rfl
              split
              · trivial
              · rename_i dest h₁ halloc
                obtain ⟨hI₁, hcell⟩ := hI.allocDest halloc hcons
                exact Outcome.after fun _ => Outcome.after fun _ => hI₁.forwardObject (hcell dest rfl)

theorem phase1CopyChunk (hI : HighWater h) (fromGen destGen : Generation) (chunk : List Nat)
    (total : EvacResult) :
    Outcome AnyPanic (h.phase1CopyChunk L fromGen destGen chunk total)
      fun s => HighWater s.heap := by
  refine Outcome.foldlM_inv (I := fun s : CopyState => HighWater s.heap) _ ?_ hI
  intro p _ s hI
  unfold phase1ChunkPage
  dsimp only
  split
  · exact hI
  · split
    · exact hI
    · exact cellLoop_keeps (I := fun s : CopyState => HighWater s.heap)
        (fun cell s hI => phase1Cell hI) _ _ _ hI

/-! ## Phase 3 -/

/-- Every page below the mark is below it after a flip; a flipped run keeps its pages large. -/
theorem flipLargeRun (hI : HighWater h) {destGen : Generation} {head : Nat} (hg : destGen ≠ .Free)
    (hk : (h.descs head).kind = .Large) :
    HighWater (h.flipLargeRun destGen head (h.descs head).nSpan) := by
  have hlarge : ∀ p, head ≤ p ∧ p < head + (h.descs head).nSpan → (h.descs p).kind = .Large := by
    intro p hin
    by_cases heq : p = head
    · rw [heq]
      exact hk
    · have := (hI.run head (p - head) hk (by omega) (by omega)).1
      rwa [Nat.add_sub_cancel' hin.1] at this
  have hflip : HighWater { h with
      descs := fun p =>
        if head ≤ p ∧ p < head + (h.descs head).nSpan then
          { h.descs p with generation := destGen, age := 0, pinByte := 0 }
        else h.descs p } := by
    refine hI.redescribe _ ?_ ?_ ?_ ?_
    · intro p
      by_cases hin : head ≤ p ∧ p < head + (h.descs head).nSpan
      · right
        rw [if_pos hin]
        exact ⟨hlarge p hin, hg⟩
      · left
        rw [if_neg hin]
    · intro p
      split <;> rfl
    · intro p
      split <;> rfl
    · intro p hp
      split at hp
      · rename_i hin
        exact hlarge p hin
      · exact hI.pins p hp
  refine hflip.clearStarts ?_
  intro c
  by_cases hc : head < c / pageSizeCells ∧ c / pageSizeCells < head + (h.descs head).nSpan
  · exact Or.inl (if_pos hc)
  · exact Or.inr (if_neg hc)

theorem releaseLargePages_mark (h : PageHeap) (l : List Nat) :
    (l.foldl releaseLargePage h).pagesHighWater = h.pagesHighWater := by
  refine foldl_inv (I := fun h' : PageHeap => h'.pagesHighWater = h.pagesHighWater) l ?_ rfl
  intro p _ h' hh'
  unfold releaseLargePage decommitPage
  split
  · exact hh'
  · split
    · exact hh'
    · exact hh'

/-- Releasing a whole run leaves the other runs whole: runs do not overlap. -/
theorem releaseRun (hI : HighWater h) {head : Nat} (hk : (h.descs head).kind = .Large)
    (hn : 1 ≤ (h.descs head).nSpan) :
    HighWater ((List.range' head (h.descs head).nSpan).foldl releaseLargePage h) := by
  have hR := releaseLargePages_released h (List.range' head (h.descs head).nSpan)
  have hmark := releaseLargePages_mark h (List.range' head (h.descs head).nSpan)
  generalize (List.range' head (h.descs head).nSpan).foldl releaseLargePage h = h' at *
  have hmem : ∀ p, p ∈ List.range' head (h.descs head).nSpan ↔
      head ≤ p ∧ p < head + (h.descs head).nSpan := fun p => List.mem_range'_1
  have hcont : ∀ p, head < p → p < head + (h.descs head).nSpan →
      (h.descs p).kind = .Large ∧ (h.descs p).nSpan = 0 := by
    intro p h1 h2
    have := hI.run head (p - head) hk (by omega) (by omega)
    rwa [Nat.add_sub_cancel' (by omega)] at this
  have hbelow : ∀ p, p ∈ List.range' head (h.descs head).nSpan → p < h.pagesHighWater := by
    intro p hp
    rw [hmem] at hp
    by_cases heq : p = head
    · rw [heq]
      exact hI.large_below hk
    · exact hI.large_below (hcont p (by omega) hp.2).1
  have hlarge : ∀ p, (h'.descs p).kind = .Large →
      p ∉ List.range' head (h.descs head).nSpan ∧ (h.descs p).kind = .Large := by
    intro p hp
    by_cases hin : p ∈ List.range' head (h.descs head).nSpan
    · rw [hR.inside p hin] at hp
      cases hp
    · rw [hR.outside p hin] at hp
      exact ⟨hin, hp⟩
  unfold HighWater
  refine ⟨?_, ?_, ?_, ?_, ?_, ?_, ?_, ?_, ?_⟩
  · intro p hp
    rw [hmark] at hp
    by_cases hin : p ∈ List.range' head (h.descs head).nSpan
    · exact absurd (hbelow p hin) (Nat.not_lt.2 hp)
    · rw [hR.outside p hin]
      exact hI.free p hp
  · intro g k p hp
    rw [hR.allocRegions] at hp
    rw [hmark]
    exact hI.region g k p hp
  · intro c hc
    rw [hmark]
    by_cases hin : c / pageSizeCells ∈ List.range' head (h.descs head).nSpan
    · exact hbelow _ hin
    · rw [hR.start c hin] at hc
      exact hI.start c hc
  · intro k hc
    rw [hmark]
    by_cases hin : k / cardsPerPage ∈ List.range' head (h.descs head).nSpan
    · exact hbelow _ hin
    · rw [hR.cards k hin] at hc
      exact hI.card k hc
  · intro p hp
    obtain ⟨hin, hp'⟩ := hlarge p hp
    rw [hR.outside p hin]
    exact hI.largeUsed p hp'
  · intro p j hp hj hlt
    obtain ⟨hin, hp'⟩ := hlarge p hp
    rw [hR.outside p hin] at hlt
    have hpj := hI.run p j hp' hj hlt
    rw [hmem] at hin
    have hout : p + j ∉ List.range' head (h.descs head).nSpan := by
      rw [hmem]
      intro hpj'
      by_cases hph : p < head
      · -- the released head would be a continuation page of `p`
        have := hI.run p (head - p) hp' (by omega) (by omega)
        rw [Nat.add_sub_cancel' (by omega)] at this
        omega
      · omega
    rw [hR.outside _ hout]
    exact hpj
  · intro p hp hz
    obtain ⟨hin, hp'⟩ := hlarge p hp
    rw [hR.outside p hin] at hz
    obtain ⟨q, hq, hkq, hlt⟩ := hI.head p hp' hz
    rw [hmem] at hin
    have hout : q ∉ List.range' head (h.descs head).nSpan := by
      rw [hmem]
      intro hq'
      by_cases heq : q = head
      · subst heq
        omega
      · have := (hcont q (by omega) hq'.2).2
        omega
    exact ⟨q, hq, by rw [hR.outside q hout]; exact hkq, by rw [hR.outside q hout]; exact hlt⟩
  · intro p hp
    by_cases hin : p ∈ List.range' head (h.descs head).nSpan
    · rw [hR.inside p hin] at hp
      cases hp
    · rw [hR.outside p hin] at hp ⊢
      exact hI.pins p hp
  · rw [hR.control.explicitPins]
    exact hI.explicit

theorem phase3Page (hI : HighWater h) {destGen : Generation} (hg : destGen ≠ .Free)
    (pinned : List (Nat × Bool)) (p : Nat) (s : ReclaimState) (hs : s.heap = h) :
    Outcome AnyPanic (phase3Page L destGen pinned s p) fun s' => HighWater s'.heap := by
  subst hs
  unfold PageHeap.phase3Page
  dsimp only
  split
  · exact hI
  · rename_i hlive
    have hbelow : p < s.heap.pagesHighWater := by
      by_contra hge
      exact hlive (hI.free p (Nat.le_of_not_lt hge))
    split
    · exact hI
    · rename_i hcont
      split
      · rename_i hhead
        simp only [PageDesc.isLargeHead, Bool.and_eq_true, decide_eq_true_eq] at hhead
        split
        · exact hI.flipLargeRun hg hhead.1
        · exact Outcome.after fun _ => hI.releaseRun hhead.1 hhead.2
      · rename_i hhead
        have hsmall : (s.heap.descs p).kind ≠ .Large := by
          intro hk
          simp only [PageDesc.isLargeCont, PageDesc.isLargeHead, hk, decide_true, Bool.true_and,
            decide_eq_true_eq] at hcont hhead
          omega
        split
        · -- only large pages hold pins
          rename_i hpins
          exact absurd (hI.pins p hpins) hsmall
        · exact Outcome.after fun _ =>
            (hI.setSmall (d := { PageDesc.free with zeroed := true }) hbelow hsmall
              (by simp [PageDesc.free]) rfl).clearPageStartBits p

theorem phase3Reclaim (hI : HighWater h) {destGen : Generation} (hg : destGen ≠ .Free)
    (chunk : List Nat) (pinned : List (Nat × Bool)) :
    Outcome AnyPanic (h.phase3Reclaim L destGen chunk pinned) fun s => HighWater s.heap :=
  Outcome.foldlM_inv (I := fun s : ReclaimState => HighWater s.heap) _
    (fun p _ s hI => hI.phase3Page hg pinned p s rfl) hI

/-! ## One evacuation -/

theorem loop {p : ChunkParams} (hV : KeepsPrefix p.visitRoots) (hg : p.destGen ≠ .Free) :
    ∀ fuel (s : ChunkState), HighWater s.heap →
      Outcome AnyPanic (s.loop L p fuel) fun s' => HighWater s'.heap := by
  intro fuel
  induction fuel with
  | zero => intro s hI; exact hI
  | succ fuel ih =>
      intro s hI
      unfold ChunkState.loop
      split
      · exact hI
      · refine Outcome.bind ?_ ih
        refine (hI.phase1CopyChunk _ _ _ _).bind fun copied hI₁ => ?_
        refine (visitInvariant_highWater.phase2Rewrite hI₁ s.ext p.fromGen p.destGen hV).bind fun r hI₂ => ?_
        exact (hI₂.phase3Reclaim hg _ _).bind fun reclaimed hI₃ => hI₃

theorem internalMark (hI : HighWater h) (ext : Nat → Word) (fromGen destGen : Generation)
    {V : RootVisitor} (hV : KeepsPrefix V) :
    Outcome AnyPanic (h.internalMark L ext fromGen destGen V) fun r => HighWater r.1 := by
  refine (hV (.new (h.clearMarkBitsInGen fromGen) ext fromGen destGen .mark) hI).bind
    fun e hI₁ => ?_
  exact (visitInvariant_highWater.markDrainFuel _ e hI₁).bind fun e hI₂ => hI₂

theorem evacuateWithRoots (hI : HighWater h) (ext : Nat → Word) (fromGen destGen : Generation)
    {V : RootVisitor} (hV : KeepsPrefix V) :
    Outcome AnyPanic (h.evacuateWithRoots L ext fromGen destGen V) fun r => HighWater r.2.1 := by
  unfold PageHeap.evacuateWithRoots
  split
  · trivial
  · split
    · trivial
    · rename_i hg
      have hmark : Outcome AnyPanic (h.markAndPin L ext fromGen destGen V)
          fun r => HighWater r.1 := by
        unfold markAndPin
        split
        · exact (hI.applyPinsAndExtendMark fromGen).bind fun h₂ hI₂ => hI₂
        · refine (hI.internalMark ext fromGen destGen hV).bind fun r hI₁ => ?_
          exact (hI₁.applyPinsAndExtendMark fromGen).bind fun h₂ hI₂ => hI₂
      refine hmark.bind fun r hI₁ => ?_
      have hstart : HighWater (r.1.resetAllocRegions fromGen) :=
        (hI₁.setRegion (by intro p hp; cases hp)).setRegion (by intro p hp; cases hp)
      exact (loop hV hg _ _ hstart).bind fun s hI₂ => hI₂

end HighWater

/-! ## The card table after a cycle -/

/-- Every pointer of a page in use lies in a dirty card, the cards of a free page of the touched
prefix are clean, and nothing above the prefix was ever touched. -/
structure RememberedSet (L : HeapLayout) (h : PageHeap) : Prop where
  complete : ∀ c, h.genAt c ≠ .Free → (L.classify (h.mem c)).pointer?.isSome = true →
    h.cards (c / cardSizeCells) = true
  freeClean : ∀ k, k / cardsPerPage < h.pagesHighWater →
    (h.descs (k / cardsPerPage)).generation = .Free → h.cards k = false
  untouched : ∀ p, h.pagesHighWater ≤ p → (h.descs p).generation = .Free ∧
    (∀ c, c / pageSizeCells = p → h.startBits c = .none) ∧
    ∀ k, k / cardsPerPage = p → h.cards k = false

/-- A heap as a cycle leaves it. -/
structure CycleEnd (L : HeapLayout) (h : PageHeap) : Prop where
  keeps : HighWater h
  remembered : RememberedSet L h

namespace HighWater

variable {L : HeapLayout} {h : PageHeap}

/-- A pointer makes its card hold one. -/
theorem cardHasHeapPointer_of_cell {c : Nat}
    (hc : (L.classify (h.mem c)).pointer?.isSome = true) :
    h.cardHasHeapPointer L (c / cardSizeCells) = true := by
  unfold PageHeap.cardHasHeapPointer
  rw [List.any_eq_true]
  refine ⟨c, ?_, hc⟩
  rw [List.mem_range'_1]
  unfold cardSizeCells
  omega

/-- The sweep over the touched prefix reaches every page in use. -/
theorem closeCycle (hI : HighWater h) : CycleEnd L (h.closeCycle L) := by
  have hdesc : ∀ p, ((h.closeCycle L).descs p).generation = (h.descs p).generation :=
    fun p => rfl
  have hcards : ∀ k, (h.closeCycle L).cards k =
      if k / cardsPerPage < h.pagesHighWater then
        if (h.descs (k / cardsPerPage)).generation = .Free then false else h.cardHasHeapPointer L k
      else h.cards k := fun k => rfl
  have hrebuilt : HighWater (h.rebuildCardsForOldGens L) := by
    refine hI.setCards ?_
    intro k hk
    by_cases hlt : k / cardsPerPage < h.pagesHighWater
    · exact Or.inr hlt
    · left
      simpa [hlt] using hk
  refine ⟨?_, ?_, ?_, ?_⟩
  · refine hrebuilt.redescribe (fun p => (h.descs p).clearPins)
      (fun p => Or.inl rfl) (fun p => rfl) (fun p => rfl) ?_
    intro p hp
    cases hp
  · intro c hlive hc
    have hlive' : (h.descs (c / pageSizeCells)).generation ≠ .Free := hlive
    have hpage : c / cardSizeCells / cardsPerPage = c / pageSizeCells := by
      unfold cardSizeCells cardsPerPage pageSizeCells
      omega
    have hbelow : c / pageSizeCells < h.pagesHighWater := by
      by_contra hge
      exact hlive' (hI.free _ (Nat.le_of_not_lt hge))
    rw [hcards, hpage, if_pos hbelow, if_neg hlive']
    exact cardHasHeapPointer_of_cell hc
  · intro k hlt hfree
    have hlt' : k / cardsPerPage < h.pagesHighWater := hlt
    rw [hdesc] at hfree
    rw [hcards, if_pos hlt', if_pos hfree]
  · intro p hp
    have hp' : h.pagesHighWater ≤ p := hp
    refine ⟨(hdesc p).trans (hI.free p hp'), ?_, ?_⟩
    · intro c hc
      by_contra hstart
      exact absurd (hI.start c hstart) (by omega)
    · intro k hk
      rw [hcards, if_neg (by omega), Bool.eq_false_iff]
      intro hcard
      exact absurd (hI.card k hcard) (by omega)

theorem finishCycle (hI : HighWater h) : Outcome AnyPanic (h.finishCycle L) (CycleEnd L) := by
  refine (finishCycle_ends L h).mono ?_
  rintro _ rfl
  exact hI.closeCycle

/-! ## The cycles -/

theorem collectMinor (hI : HighWater h) (ext : Nat → Word) {V : RootVisitor} (hV : KeepsPrefix V) :
    Outcome AnyPanic (h.collectMinor L ext V) fun r => CycleEnd L r.2.1 := by
  unfold PageHeap.collectMinor
  dsimp only
  have hscan := keepsPrefix_withCardScan (L := L) hV h.descs
  refine (evacuateWithRoots
    (h := { h with minorsSinceG0Promote := saturatingSuccU32 h.minorsSinceG0Promote })
    hI ext .G0 _ hscan).bind fun r hI₁ => ?_
  split
  · split
    · -- the cascade: G1 follows in the same cycle
      refine (evacuateWithRoots (h := { r.2.1 with
          minorsSinceG0Promote := 0
          g0PromotesSinceG1Promote := saturatingSuccU32 r.2.1.g0PromotesSinceG1Promote })
        hI₁ r.2.2 .G1 .Tenured hscan).bind fun r' hI₂ => ?_
      exact (finishCycle (h := { r'.2.1 with g0PromotesSinceG1Promote := 0 }) hI₂).bind
        fun h' hend => hend
    · exact (finishCycle (h := { r.2.1 with
        minorsSinceG0Promote := 0
        g0PromotesSinceG1Promote := saturatingSuccU32 r.2.1.g0PromotesSinceG1Promote }) hI₁).bind
          fun h' hend => hend
  · exact hI₁.finishCycle.bind fun h' hend => hend

theorem collectMajor (hI : HighWater h) (ext : Nat → Word) {V : RootVisitor} (hV : KeepsPrefix V) :
    Outcome AnyPanic (h.collectMajor L ext V) fun r => CycleEnd L r.2.1 := by
  unfold PageHeap.collectMajor
  refine (hI.evacuateWithRoots ext .G1 .Tenured (keepsPrefix_withCardScan hV _)).bind
    fun r hI₁ => ?_
  refine (hI₁.evacuateWithRoots r.2.2 .G0 .G0 (keepsPrefix_withCardScan hV _)).bind
    fun r' hI₂ => ?_
  refine hI₂.finishCycle.bind fun h' hend => ?_
  exact ⟨hend.keeps, hend.remembered.complete, hend.remembered.freeClean, hend.remembered.untouched⟩

theorem collectFull (hI : HighWater h) (ext : Nat → Word) {V : RootVisitor} (hV : KeepsPrefix V) :
    Outcome AnyPanic (h.collectFull L ext V) fun r => CycleEnd L r.2.1 := by
  unfold PageHeap.collectFull
  refine (hI.evacuateWithRoots ext .G0 .G1 (keepsPrefix_withCardScan hV _)).bind fun r hI₁ => ?_
  refine (hI₁.evacuateWithRoots r.2.2 .G1 .Tenured (keepsPrefix_withCardScan hV _)).bind
    fun r' hI₂ => ?_
  refine (hI₂.evacuateWithRoots r'.2.2 .Tenured .Tenured hV).bind fun r'' hI₃ => ?_
  refine hI₃.finishCycle.bind fun h' hend => ?_
  exact ⟨hend.keeps, hend.remembered.complete, hend.remembered.freeClean, hend.remembered.untouched⟩

theorem collectAuto (hI : HighWater h) (ext : Nat → Word) (thresholdBps : Nat) {V : RootVisitor}
    (hV : KeepsPrefix V) :
    Outcome AnyPanic (h.collectAuto L ext thresholdBps V) fun r => CycleEnd L r.2.1 := by
  have hcount : ∀ r : CollectResult × PageHeap × (Nat → Word), CycleEnd L r.2.1 →
      CycleEnd L { r.2.1 with bytesAllocSinceGc := 0 } := fun r hend =>
    ⟨hend.keeps, hend.remembered.complete, hend.remembered.freeClean, hend.remembered.untouched⟩
  unfold PageHeap.collectAuto
  split
  · exact (hI.collectMajor ext hV).bind hcount
  · exact (hI.collectMinor ext hV).bind hcount

/-! ### The production minor cycle -/

theorem markMinorWithStatic (h : PageHeap) (ext : Nat → Word) (area : StaticArea)
    (roots : List Nat) :
    Outcome AnyPanic (h.markMinorWithStatic L ext area roots) fun h' =>
      ∃ m, OnlyMarks h m ∧ h' = m.prepareRecycleLiveCountsFromMarks .G0 := by
  have hroots : OnlyMarks h (roots.foldl (fun m slot => m.visitWord L (ext slot))
      (PageMarker.new h .G0)).heap :=
    foldl_inv (I := fun m : PageMarker => OnlyMarks h m.heap) roots
      (fun _ _ _ hM => PageMarker.visitWord_onlyMarks hM _) ⟨_, rfl⟩
  have hcards := PageMarker.scanExternalCards_onlyMarks (L := L) ext area.cards area.base area.cells
    hroots
  refine (PageMarker.scanReservationCards_onlyMarks (some h.descs) hcards).bind fun m hM₁ => ?_
  exact (PageMarker.drainFuel_onlyMarks _ m hM₁).bind fun m hM₂ => ⟨m.heap, hM₂, rfl⟩

/-- The early release takes small pages only, when no large object is young. -/
theorem releaseZeroLiveUnpinnedPages (hI : HighWater h) {target : Generation} (hg : target ≠ .Free)
    (hsmall : ∀ p, (h.descs p).generation = target → (h.descs p).kind ≠ .Large) :
    HighWater (h.releaseZeroLiveUnpinnedPages target) := by
  unfold PageHeap.releaseZeroLiveUnpinnedPages
  dsimp only
  have main : ∀ (l : List Nat) (h' : PageHeap), HighWater h' → (∀ p ∈ l,
      p < h'.pagesHighWater ∧ (h'.descs p).kind ≠ .Large) →
      HighWater (l.foldl (fun h p =>
        { h.releasePageToFree p false with
          recycleLiveCounts := Function.update h.recycleLiveCounts p 0 }) h') := by
    intro l
    induction l with
    | nil => intro h' hI' _; exact hI'
    | cons q l ih =>
        intro h' hI' hl
        obtain ⟨hlt, hk⟩ := hl q List.mem_cons_self
        refine ih _ (hI'.setSmall (d := PageDesc.free) hlt hk (by simp [PageDesc.free]) rfl) ?_
        intro p hp
        obtain ⟨hlt', hk'⟩ := hl p (List.mem_cons_of_mem q hp)
        refine ⟨hlt', ?_⟩
        show (Function.update h'.descs q _ p).kind ≠ .Large
        by_cases hpq : p = q
        · rw [hpq, Function.update_self]
          simp [PageDesc.release, PageDesc.free]
        · rw [Function.update_of_ne hpq]
          exact hk'
  refine main _ _ hI ?_
  intro p hp
  have hgen := (mem_pagesInGen.1 (List.mem_filter.1 hp).1).2
  refine ⟨?_, hsmall p hgen⟩
  by_contra hge
  have hfree := hI.free p (Nat.le_of_not_lt hge)
  rw [hgen] at hfree
  exact hg hfree

theorem extendAndReleaseEarly (hI : HighWater h)
    (hsmall : ∀ p, (h.descs p).generation = .G0 → (h.descs p).kind ≠ .Large) :
    Outcome AnyPanic (h.extendAndReleaseEarly L) HighWater := by
  unfold PageHeap.extendAndReleaseEarly
  split
  · refine (OnlyMarks.extendMarkFromPinned h .G0).bind fun h₁ hM₁ => ?_
    refine (OnlyMarks.extendMarkFromPinned h₁ .G1).bind fun h₂ hM₂ => ?_
    refine (OnlyMarks.extendMarkFromCrossGenPinned h₂ .G0).bind fun h₃ hM₃ => ?_
    have hM := (hM₁.trans hM₂).trans hM₃
    refine releaseZeroLiveUnpinnedPages (h := h₃.prepareRecycleLiveCountsFromMarks .G0)
      (hM.keeps hI) (by simp) ?_
    show ∀ p, (h₃.descs p).generation = .G0 → (h₃.descs p).kind ≠ .Large
    rw [hM.descs]
    exact hsmall
  · exact hI

theorem clearCardsUnlessIntergen (hI : HighWater h) : HighWater (h.clearCardsUnlessIntergen L) := by
  refine hI.setCards ?_
  intro k hk
  rw [Bool.and_eq_true] at hk
  exact Or.inl hk.1

theorem collectMinorWithStatic (hI : HighWater h)
    (hsmall : ∀ p, (h.descs p).generation = .G0 → (h.descs p).kind ≠ .Large) (ext : Nat → Word)
    (area : StaticArea) (roots : List Nat) :
    Outcome AnyPanic (h.collectMinorWithStatic L ext area [] roots) fun r => HighWater r.1 := by
  unfold PageHeap.collectMinorWithStatic
  dsimp only [pinPointersInRanges, List.foldl_nil]
  refine (extendAndReleaseEarly (h := { h with lastPinSummary := (0 + 0, 0 + 0) }) hI hsmall).bind
    fun h₁ hI₁ => ?_
  refine (hI₁.collectMinor ext (keepsPrefix_staticVisitor L area roots h₁.descs)).bind
    fun r hend => ?_
  exact Outcome.after fun _ => hend.keeps.clearCardsUnlessIntergen

end HighWater

/-! ## Runs -/

/-- The logical cycles. -/
def Op.isCycle : Op → Bool
  | .collectMinor _ | .collectMajor _ | .collectFull _ | .collectAuto _ _ => true
  | _ => false

namespace World

/-- A run of allocations, stores and collections: nothing is pinned, and a store marks a card of a
page in use. -/
def Unpinned (w : World) : Op → Prop
  | .pin _ => False
  | .pinRanges _ _ => False
  | .minorWithStatic _ pinStackRanges _ => pinStackRanges = []
  | .store obj off _ => w.heap.genAt (obj + off) ≠ .Free
  | _ => True

/-- A large allocation gets all its pages or leaves the page table alone, its span fits the
sixteen bits of `n_span`, and no young large object meets the early release. -/
def WholeRuns (L : HeapLayout) (w : World) : Op → Prop
  | .allocLarge generation header =>
      (headerCells L header + (pageSizeCells - 1)) / pageSizeCells < 65536 ∧
        ((w.heap.tryAllocLarge (headerCells L header) generation).1 = none →
          (w.heap.tryAllocLarge (headerCells L header) generation).2.descs = w.heap.descs)
  | .minorWithStatic _ _ _ =>
      ∀ p, (w.heap.descs p).generation = .G0 → (w.heap.descs p).kind ≠ .Large
  | _ => True

/-- The touched prefix, with the open buffers on pages below the mark. -/
structure PrefixOk (w : World) : Prop where
  heap : HighWater w.heap
  slabs : ∀ s ∈ w.slabs, ∃ p, p < w.heap.pagesHighWater ∧ p * pageSizeCells ≤ s.cursor ∧
    s.stop ≤ (p + 1) * pageSizeCells

theorem barrierStore_mark (h : PageHeap) (cell : Nat) (v : Word) :
    (barrierStore h cell v).pagesHighWater = h.pagesHighWater := by
  unfold barrierStore markCardAt
  repeat' split
  all_goals rfl

theorem initCons_mark (h : PageHeap) (cell : Nat) (car cdr : Word) :
    (initCons h cell car cdr).pagesHighWater = h.pagesHighWater :=
  (barrierStore_mark _ _ _).trans (barrierStore_mark _ _ _)

namespace PrefixOk

variable {L : HeapLayout} {w : World}

/-- The open buffers stay below a mark that has not sunk. -/
theorem withHeap (hP : PrefixOk w) {h : PageHeap} (hI : HighWater h)
    (hmark : w.heap.pagesHighWater ≤ h.pagesHighWater) : PrefixOk { w with heap := h } where
  heap := hI
  slabs := by
    intro s hs
    obtain ⟨p, hp, hin⟩ := hP.slabs s hs
    exact ⟨p, hp.trans_le hmark, hin⟩

/-- A buffer that was just reserved. -/
theorem openSlab (hP : PrefixOk w) {h : PageHeap} {kind : PageKind} {slab : Nat × Nat}
    (hR : Raised w.heap h) (hT : Touched h slab.1 slab.2) :
    PrefixOk { w with
      heap := h
      slabs := { kind := kind, cursor := slab.1, stop := slab.1 + slab.2 } :: w.slabs } where
  heap := hR.keeps
  slabs := by
    intro s hs
    rcases List.mem_cons.1 hs with rfl | hs
    · refine ⟨slab.1 / pageSizeCells, hT.below, ?_, ?_⟩
      · exact Nat.div_mul_le_self _ _
      · have hinside := hT.inside
        dsimp only
        unfold pageSizeCells at *
        omega
    · exact (hP.withHeap hR.keeps hR.mark).slabs s hs

/-- A bump stays inside its buffer. -/
theorem bump (hP : PrefixOk w) {i n cell : Nat} {slabs : List Slab} (hn : 1 ≤ n)
    (hbump : w.bumpSlab i n = some (cell, slabs)) :
    Touched w.heap cell n ∧ PrefixOk { w with slabs := slabs } := by
  unfold bumpSlab at hbump
  cases hs : w.slabs[i]? with
  | none => simp [hs] at hbump
  | some s =>
      rw [hs] at hbump
      dsimp only at hbump
      split at hbump
      · rename_i hroom
        cases hbump
        obtain ⟨p, hp, hlo, hhi⟩ := hP.slabs s (List.mem_of_getElem? hs)
        refine ⟨⟨?_, ?_⟩, hP.heap, ?_⟩
        · have hpage : s.cursor / pageSizeCells = p := by
            unfold pageSizeCells at *
            omega
          rw [hpage]
          exact hp
        · unfold pageSizeCells at *
          omega
        · intro t ht
          rcases List.mem_or_eq_of_mem_set ht with hold | rfl
          · exact hP.slabs t hold
          · exact ⟨p, hp, by dsimp only; omega, hhi⟩
      · cases hbump

/-- A collection starts without open buffers. -/
theorem afterCollection {h : PageHeap} {ext : Nat → Word} (hclosed : w.slabs.isEmpty = true)
    (hI : HighWater h) : PrefixOk { w with heap := h, ext := ext } where
  heap := hI
  slabs := by
    intro s hs
    rw [List.isEmpty_iff.1 hclosed] at hs
    cases hs

/-- Every request of the run keeps the prefix. -/
theorem step (hP : PrefixOk w) {w' : World} {op : Op} (hallowed : w.allows L op = true)
    (hunpinned : w.Unpinned op) (hwhole : w.WholeRuns L op) (hstep : w.step L op = .ok w') :
    PrefixOk w' := by
  have hI := hP.heap
  cases op with
  | allocCons generation car cdr =>
      cases halloc : w.heap.tryAllocConsIn generation with
      | mk r h =>
          obtain ⟨hR, hcell⟩ := hI.tryAllocConsIn halloc
          simp only [World.step, halloc] at hstep
          cases r with
          | none =>
              cases hstep
              exact hP.withHeap hR.keeps hR.mark
          | some cell =>
              cases hstep
              exact hP.withHeap (hR.keeps.initCons (hcell cell rfl) car cdr)
                (hR.mark.trans_eq (initCons_mark _ _ _ _).symm)
  | allocBoxed generation header =>
      cases halloc : w.heap.tryAllocBoxedIn generation (headerCells L header) with
      | mk r h =>
          obtain ⟨hR, hcell⟩ := hI.tryAllocBoxedIn halloc
          simp only [World.step, World.withHeader, halloc] at hstep
          cases r with
          | none =>
              cases hstep
              exact hP.withHeap hR.keeps hR.mark
          | some cell =>
              cases hstep
              exact hP.withHeap (h := h.setCell cell header) hR.keeps hR.mark
  | allocLarge generation header =>
      simp only [allows, Bool.and_eq_true, decide_eq_true_eq] at hallowed
      have hcells : 1 ≤ headerCells L header := by
        have hok := hallowed.2
        unfold headerOk at hok
        unfold headerCells
        cases hl : L.headerLayout header with
        | error e => rw [hl] at hok; cases hok
        | ok layout =>
            rw [hl] at hok
            simp only [ObjectLayout.wellFormed, Bool.and_eq_true, decide_eq_true_eq] at hok
            exact hok.1.1
      have hR := hI.tryAllocLarge hcells hwhole.1 hallowed.1 hwhole.2
      cases halloc : w.heap.tryAllocLarge (headerCells L header) generation with
      | mk r h =>
          simp only [World.step, World.withHeader, halloc] at hstep hR
          cases r with
          | none =>
              cases hstep
              exact hP.withHeap hR.keeps hR.mark
          | some cell =>
              cases hstep
              exact hP.withHeap (h := h.setCell cell header) hR.keeps hR.mark
  | reserveTlab generation kind minCells wantCells =>
      simp only [allows, Bool.and_eq_true, Bool.or_eq_true, decide_eq_true_eq] at hallowed
      have hkind : kind ≠ .Large := by
        rcases hallowed.2 with hk | hk <;> simp [hk]
      cases hres : w.heap.reserveTlab generation kind minCells wantCells with
      | mk r h =>
          obtain ⟨hR, hslab⟩ := hI.reserveTlab hkind hres
          simp only [World.step, hres] at hstep
          cases r with
          | none =>
              cases hstep
              exact hP.withHeap hR.keeps hR.mark
          | some slab =>
              cases hstep
              exact hP.openSlab hR (hslab slab rfl)
  | reserveSlab cells =>
      cases hres : w.heap.tryAllocG0Slab cells with
      | mk r h =>
          obtain ⟨hR, hslab⟩ := hI.tryAllocG0Slab hres
          simp only [World.step, hres] at hstep
          cases r with
          | none =>
              cases hstep
              exact hP.withHeap hR.keeps hR.mark
          | some slab =>
              cases hstep
              exact hP.openSlab hR (hslab slab rfl)
  | bumpCons i car cdr =>
      cases hbump : w.bumpSlab i 2 with
      | none =>
          simp only [World.step, hbump] at hstep
          cases hstep
          exact hP
      | some r =>
          obtain ⟨hT, hP'⟩ := hP.bump (by omega) hbump
          simp only [World.step, hbump] at hstep
          cases hstep
          have hstart : HighWater (w.heap.setConsStartBitAt r.1) := hI.setStart hT.below _
          exact hP'.withHeap (hstart.initCons (hT.mono le_rfl) car cdr)
            (le_of_eq (initCons_mark (w.heap.setConsStartBitAt r.1) r.1 car cdr).symm)
  | bumpBoxed i header =>
      cases hbump : w.bumpSlab i (headerCells L header) with
      | none =>
          simp only [World.step, hbump] at hstep
          cases hstep
          exact hP
      | some r =>
          simp only [allows, Bool.and_eq_true] at hallowed
          have hcells : 1 ≤ headerCells L header := by
            have hok := hallowed.1
            unfold headerOk at hok
            unfold headerCells
            cases hl : L.headerLayout header with
            | error e => rw [hl] at hok; cases hok
            | ok layout =>
                rw [hl] at hok
                simp only [ObjectLayout.wellFormed, Bool.and_eq_true, decide_eq_true_eq] at hok
                exact hok.1.1
          obtain ⟨hT, hP'⟩ := hP.bump hcells hbump
          simp only [World.step, hbump] at hstep
          cases hstep
          exact hP'.withHeap (h := (w.heap.setStartBitAt r.1).setCell r.1 header)
            (hI.setStart hT.below _) le_rfl
  | flushTlabs =>
      cases hstep
      exact ⟨hI, by intro s hs; cases hs⟩
  | store obj off v =>
      cases hstep
      have hlt : (obj + off) / pageSizeCells < w.heap.pagesHighWater := by
        by_contra hge
        exact hunpinned (hI.free _ (Nat.le_of_not_lt hge))
      exact hP.withHeap (hI.barrierStore hlt v) (le_of_eq (barrierStore_mark _ _ _).symm)
  | storeExt addr v =>
      cases hstep
      exact ⟨hI, hP.slabs⟩
  | pin v => exact hunpinned.elim
  | unpin cell =>
      cases hstep
      refine ⟨?_, hP.slabs⟩
      refine SameTable.keeps (h := w.heap) ⟨rfl, rfl, rfl, rfl, rfl, ?_⟩ hI
      show dropExplicitPin cell w.heap.explicitPins = w.heap.explicitPins
      rw [hI.explicit]
      rfl
  | pinRanges target ranges => exact hunpinned.elim
  | clearPins =>
      cases hstep
      refine hP.withHeap ?_ le_rfl
      exact hI.redescribe (fun p => (w.heap.descs p).clearPins)
        (fun p => Or.inl rfl) (fun p => rfl) (fun p => rfl) (by intro p hp; cases hp)
  | evacuate fromGen destGen slots =>
      simp only [allows, Bool.and_eq_true] at hallowed
      obtain ⟨r, hr, hok⟩ := bind_eq_ok hstep
      cases hok
      have hI' := (hI.evacuateWithRoots w.ext fromGen destGen
        (keepsPrefix_slotsVisitor L slots)).value hr
      exact afterCollection hallowed.1.2 hI'
  | collectMinor roots =>
      obtain ⟨r, hr, hok⟩ := bind_eq_ok hstep
      cases hok
      exact afterCollection hallowed
        ((hI.collectMinor w.ext (keepsPrefix_slotsVisitor L _)).value hr).keeps
  | collectMajor roots =>
      obtain ⟨r, hr, hok⟩ := bind_eq_ok hstep
      cases hok
      exact afterCollection hallowed
        ((hI.collectMajor w.ext (keepsPrefix_slotsVisitor L _)).value hr).keeps
  | collectFull roots =>
      obtain ⟨r, hr, hok⟩ := bind_eq_ok hstep
      cases hok
      exact afterCollection hallowed
        ((hI.collectFull w.ext (keepsPrefix_slotsVisitor L _)).value hr).keeps
  | collectAuto thresholdBps roots =>
      obtain ⟨r, hr, hok⟩ := bind_eq_ok hstep
      cases hok
      exact afterCollection hallowed
        ((hI.collectAuto w.ext thresholdBps (keepsPrefix_slotsVisitor L _)).value hr).keeps
  | minorWithStatic area pinStackRanges roots =>
      obtain ⟨h₁, hr₁, hrest⟩ := bind_eq_ok hstep
      obtain ⟨r, hr, hok⟩ := bind_eq_ok hrest
      cases hok
      obtain ⟨m, hM, rfl⟩ := (HighWater.markMinorWithStatic w.heap w.ext area roots).value hr₁
      have hI₁ : HighWater (m.prepareRecycleLiveCountsFromMarks .G0) := hM.keeps hI
      have hsmall : ∀ p, ((m.prepareRecycleLiveCountsFromMarks .G0).descs p).generation = .G0 →
          ((m.prepareRecycleLiveCountsFromMarks .G0).descs p).kind ≠ .Large := by
        show ∀ p, (m.descs p).generation = .G0 → (m.descs p).kind ≠ .Large
        rw [hM.descs]
        exact hwhole
      have hranges : pinStackRanges = [] := hunpinned
      subst hranges
      exact afterCollection hallowed
        ((hI₁.collectMinorWithStatic hsmall w.ext area roots).value hr)

end PrefixOk

/-- The prefix of every run. -/
theorem Reached.prefixOk {L : HeapLayout} {w : World}
    (hw : Reached L (fun w op => w.Unpinned op ∧ w.WholeRuns L op) w) : PrefixOk w := by
  induction hw with
  | start base nPages os order ext haligned hfits =>
      exact ⟨HighWater.withReservation base nPages os order, by intro s hs; cases hs⟩
  | create base youngBytes oldBytes os order ext haligned hfits =>
      exact ⟨HighWater.new base youngBytes oldBytes os order, by intro s hs; cases hs⟩
  | step op hw hallowed hC hstep ih => exact ih.step hallowed hC.1 hC.2 hstep

/-- The remembered set is complete after every cycle of a run whose large allocations are whole. -/
theorem remembered_after_cycle {L : HeapLayout} {w w' : World} {op : Op}
    (hw : Reached L (fun w op => w.Unpinned op ∧ w.WholeRuns L op) w) (hcycle : op.isCycle = true)
    (hstep : w.step L op = .ok w') : RememberedSet L w'.heap := by
  have hI := hw.prefixOk.heap
  cases op with
  | collectMinor roots =>
      obtain ⟨r, hr, hok⟩ := bind_eq_ok hstep
      cases hok
      exact ((hI.collectMinor w.ext (keepsPrefix_slotsVisitor L _)).value hr).remembered
  | collectMajor roots =>
      obtain ⟨r, hr, hok⟩ := bind_eq_ok hstep
      cases hok
      exact ((hI.collectMajor w.ext (keepsPrefix_slotsVisitor L _)).value hr).remembered
  | collectFull roots =>
      obtain ⟨r, hr, hok⟩ := bind_eq_ok hstep
      cases hok
      exact ((hI.collectFull w.ext (keepsPrefix_slotsVisitor L _)).value hr).remembered
  | collectAuto thresholdBps roots =>
      obtain ⟨r, hr, hok⟩ := bind_eq_ok hstep
      cases hok
      exact ((hI.collectAuto w.ext thresholdBps (keepsPrefix_slotsVisitor L _)).value hr).remembered
  | _ => cases hcycle

/-- A run that meets the conditions: a cons is allocated and survives a minor collection. -/
theorem remembered_after_cycle_minor : ∃ w w' : World,
    (lispWorld 2 []).run lispLayout
        [.allocCons .G0 (LispLayout.fixnum 1) LispLayout.nil, .storeExt 0 (consAt 0)] = some w ∧
      w.step lispLayout (.collectMinor [0]) = .ok w' ∧ RememberedSet lispLayout w'.heap := by
  have hrun : (((lispWorld 2 []).run lispLayout
      ([.allocCons .G0 (LispLayout.fixnum 1) LispLayout.nil, .storeExt 0 (consAt 0)] ++
        [.collectMinor [0]])).isSome) = true := by decide +kernel
  obtain ⟨w', hw'⟩ := Option.isSome_iff_exists.1 hrun
  obtain ⟨w, hw, -, hstep⟩ := run_snoc hw'
  refine ⟨w, w', hw, hstep, remembered_after_cycle ?_ rfl hstep⟩
  refine run_reached (lispWorld_reached [] (by decide)) ?_ hw
  intro w op hop
  simp only [List.mem_cons, List.not_mem_nil, or_false] at hop
  rcases hop with rfl | rfl <;> exact ⟨trivial, trivial⟩

/-! ### A run that is cut short

Two large allocations are refused a commit after their first page.  Their heads stay in the page
table with a span over pages they do not own: releasing or flipping such a run moves the pages of
others, until a pinned page is flipped with a word of client data as the header that tells how many
cards to mark.  Meanwhile the pages the first release took away are opened again, so that every page
the last collection frees has its backing. -/

/-- The commit requests that are refused: the second page of three large runs. -/
def cutRunRefused : List Nat := [1, 3, 5]

def cutRunOps : List Op :=
  [.collectMinor [], .collectMinor [],
    .allocLarge .G1 (heapHeader .String 16383),
    .allocLarge .G0 (heapHeader .String 32767),
    .allocLarge .G0 (heapHeader .String 16383),
    .allocLarge .G0 (heapHeader .String 16383),
    .storeExt 0 (boxAt 8192),
    .evacuate .G0 .Tenured [.ext 0],
    .allocCons .G0 (heapHeader .String 16777215) LispLayout.nil,
    .allocBoxed .G0 (heapHeader .String 3),
    .evacuate .Tenured .G0 [.ext 0],
    .evacuate .G1 .Tenured [],
    .storeExt 8 (boxAt 32768)]

/-- Without the condition on large runs the remembered set is not what the claim says: after the
last minor collection a card above the mark is dirty. -/
theorem remembered_set_overrun : ∃ (w w' : World) (op : Op),
    Reached lispLayout Unpinned w ∧ op.isCycle = true ∧ w.allows lispLayout op = true ∧
      w.step lispLayout op = .ok w' ∧ ¬ RememberedSet lispLayout w'.heap := by
  have hrun : (((lispWorld 11 cutRunRefused).run lispLayout
      (cutRunOps ++ [.collectMinor [8]])).map fun w =>
        w.heap.cards 640 && decide (w.heap.pagesHighWater ≤ 5)) = some true := by
    set_option maxRecDepth 100000 in decide +kernel
  obtain ⟨w', hw', hcard⟩ := Option.map_eq_some_iff.1 hrun
  simp only [Bool.and_eq_true, decide_eq_true_eq] at hcard
  obtain ⟨w, hw, hallowed, hstep⟩ := run_snoc hw'
  refine ⟨w, w', .collectMinor [8], ?_, rfl, hallowed, hstep, ?_⟩
  · refine run_reached (lispWorld_reached cutRunRefused (by decide)) ?_ hw
    intro w op hop
    simp only [cutRunOps, List.mem_cons, List.not_mem_nil, or_false] at hop
    rcases hop with rfl | rfl | rfl | rfl | rfl | rfl | rfl | rfl | rfl | rfl | rfl | rfl | rfl <;>
      exact trivial
  · intro hremembered
    have hclean := (hremembered.untouched 5 hcard.2).2.2 640 (by decide)
    rw [hcard.1] at hclean
    cases hclean

end World

end NewGc
