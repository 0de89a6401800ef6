import NewGc.Library.Outcome
import NewGc.Graph

/-!
# Keeps — what marking and rewriting leave alone

Marking sets mark bits and pins the pages of large runs; rewriting replaces words.  A property of
the heap that survives these three updates survives every closure, scan and drain of the collector,
whatever the words of the heap are.
-/

namespace NewGc

open Library PageHeap

/-- Any panic is a permitted end. -/
abbrev AnyPanic : GcPanic → Prop := fun _ => True

/-- Whatever comes first, only what follows it counts. -/
theorem Outcome.after {α β : Type} {x : Except GcPanic α} {f : α → Except GcPanic β}
    {Q : β → Prop} (hf : ∀ a, Outcome AnyPanic (f a) Q) : Outcome AnyPanic (x >>= f) Q :=
  (Outcome.any (fun _ => trivial) x).bind fun a _ => hf a

/-- A property that the primitive updates of marking and rewriting keep. -/
structure VisitInvariant (I : PageHeap → Prop) : Prop where
  marks : ∀ h bits, I h → I { h with markBits := bits }
  word : ∀ h c w, I h → I (h.setCell c w)
  large : ∀ (e : PageEvacuator) p, I e.heap → (e.heap.descs p).kind = .Large →
    I (e.markLarge p).heap

/-- A closure keeps a property of the heap. -/
def RootVisitor.Keeps (V : RootVisitor) (I : PageHeap → Prop) : Prop :=
  ∀ e, I e.heap → Outcome AnyPanic (V e) fun e' => I e'.heap

/-- The end of a cycle, when it does not fault. -/
theorem finishCycle_ends (L : HeapLayout) (h : PageHeap) :
    Outcome AnyPanic (h.finishCycle L) fun h' => h' = h.closeCycle L :=
  Outcome.after fun _ => rfl

/-- A cursor loop keeps a fixed invariant whatever its steps. -/
theorem cellLoop_keeps {σ : Type} {E : GcPanic → Prop} {last : Nat}
    {body : Nat → σ → Except GcPanic (Nat × σ)} {I : σ → Prop}
    (hbody : ∀ cell s, I s → Outcome E (body cell s) fun r => I r.2) :
    ∀ fuel cell s, I s → Outcome E (cellLoop last body fuel cell s) I := by
  intro fuel
  induction fuel with
  | zero => intro cell s hI; exact hI
  | succ fuel ih =>
      intro cell s hI
      unfold cellLoop
      split
      · exact hI
      · exact (hbody cell s hI).bind fun r hr => ih _ _ hr

namespace VisitInvariant

variable {I : PageHeap → Prop} (hV : VisitInvariant I) {L : HeapLayout} {e : PageEvacuator}

include hV

/-! ## Visiting words -/

theorem markVisitWord (hI : I e.heap) (w : Word) : I (e.markVisitWord L w).heap := by
  unfold PageEvacuator.markVisitWord
  split
  · exact hI
  · split
    · exact hI
    · split
      · exact hI
      · split
        · rename_i hk
          exact hV.large e _ hI hk
        · exact hI
        · dsimp only
          split
          · exact hI
          · split
            · split
              · exact hI
              · exact hV.marks _ _ hI
            · split
              · exact hI
              · exact hV.marks _ _ hI
            · exact hI

theorem visit (hI : I e.heap) (slot : Nat) : I (e.visit L slot).heap := by
  unfold PageEvacuator.visit
  split
  · exact hV.markVisitWord hI _
  · split
    · exact hI
    · exact hI

theorem rewriteCell {h : PageHeap} (hI : I h) (c : Nat) : I (h.rewriteCell L c) := by
  unfold PageHeap.rewriteCell
  split
  · exact hV.word _ _ _ hI
  · exact hI

theorem visitCell (hI : I e.heap) (c : Nat) : I (e.visitCell L c).heap := by
  unfold PageEvacuator.visitCell
  split
  · exact hV.markVisitWord hI _
  · exact hV.rewriteCell hI c

/-- The same for visits that may fault. -/
theorem tryVisit (hI : I e.heap) (slot : Nat) :
    Outcome AnyPanic (e.tryVisit L slot) fun e' => I e'.heap :=
  Outcome.after fun _ => hV.visit hI slot

theorem tryVisitCell (hI : I e.heap) (c : Nat) :
    Outcome AnyPanic (e.tryVisitCell L c) fun e' => I e'.heap :=
  Outcome.after fun _ => hV.visitCell hI c

theorem tryVisitCells (hI : I e.heap) (cells : List Nat) :
    Outcome AnyPanic (e.tryVisitCells L cells) fun e' => I e'.heap :=
  Outcome.foldlM_inv (I := fun e : PageEvacuator => I e.heap) cells
    (fun c _ _ hI => hV.tryVisitCell hI c) hI

/-! ## Draining -/

theorem markScanObject (hI : I e.heap) (cell : Nat) :
    Outcome AnyPanic (e.markScanObject L cell) fun e' => I e'.heap := by
  have hwords : ∀ cells : List Nat,
      I (cells.foldl (fun e c => PageEvacuator.markVisitWord L e (e.heap.mem c)) e).heap :=
    fun cells => foldl_inv (I := fun e : PageEvacuator => I e.heap) cells
      (fun c _ _ hI => hV.markVisitWord hI _) hI
  unfold PageEvacuator.markScanObject
  dsimp only
  split
  · exact hI
  · exact Outcome.after fun _ => hwords _
  · refine Outcome.after fun _ => Outcome.after fun layout => ?_
    exact Outcome.after fun _ => hwords _

theorem markDrainFuel : ∀ fuel (e : PageEvacuator), I e.heap →
    Outcome AnyPanic (e.markDrainFuel L fuel) fun e' => I e'.heap := by
  intro fuel
  induction fuel with
  | zero => intro e hI; exact hI
  | succ fuel ih =>
      intro e hI
      unfold PageEvacuator.markDrainFuel
      split
      · exact hI
      · rename_i cell rest _
        exact (hV.markScanObject (e := { e with markQueue := rest }) hI cell).bind ih

/-! ## Card scans -/

/-- The card walk offers cells and changes nothing else. -/
theorem visitCardLoop {cardEnd : Nat} : ∀ fuel s (e : PageEvacuator), I e.heap →
    Outcome AnyPanic (PageEvacuator.visitCardLoop L cardEnd fuel s e) fun e' => I e'.heap := by
  intro fuel
  induction fuel with
  | zero => intro s e hI; exact hI
  | succ fuel ih =>
      intro s e hI
      unfold PageEvacuator.visitCardLoop
      split
      · exact hI
      · split
        · exact hI
        · refine Outcome.after fun layout => ?_
          refine (hV.tryVisitCells hI _).bind fun e' hI' => ?_
          split
          · exact hI'
          · exact ih _ _ hI'

theorem scanReservationCards (filter : PageFilter) (hI : I e.heap) :
    Outcome AnyPanic (e.scanReservationCards L filter) fun e' => I e'.heap := by
  refine Outcome.foldlM_inv (I := fun e : PageEvacuator => I e.heap) _ ?_ hI
  intro card _ e hI
  rw [PageEvacuator.scanReservationCard_eq]
  split
  · exact hI
  · split
    · exact hI
    · exact hV.visitCardLoop _ _ _ hI

theorem scanExternalCards (cards : Nat → Bool) (base cells : Nat) (hI : I e.heap) :
    Outcome AnyPanic (e.scanExternalCards L cards base cells) fun e' => I e'.heap := by
  refine Outcome.foldlM_inv (I := fun e : PageEvacuator => I e.heap) _ ?_ hI
  intro card _ e hI
  unfold PageEvacuator.scanExternalCard
  split
  · exact Outcome.foldlM_inv (I := fun e : PageEvacuator => I e.heap) _
      (fun c _ _ hI => hV.tryVisit hI _) hI
  · exact hI

/-! ## The closures a cycle hands to the evacuator -/

theorem slotsVisitor (L : HeapLayout) (slots : List Slot) : (slotsVisitor L slots).Keeps I := by
  intro e hI
  refine Outcome.foldlM_inv (I := fun e : PageEvacuator => I e.heap) slots ?_ hI
  intro slot _ e hI
  cases slot with
  | ext a => exact hV.tryVisit hI a
  | cell c => exact hV.tryVisitCell hI c

theorem withCardScan {V : RootVisitor} (hkeeps : V.Keeps I) (snapshot : Nat → PageDesc) :
    (withCardScan L V snapshot).Keeps I := by
  intro e hI
  exact (hkeeps e hI).bind fun e' hI' => hV.scanReservationCards _ hI'

theorem staticVisitor (L : HeapLayout) (area : StaticArea) (roots : List Nat)
    (snapshot : Nat → PageDesc) : (staticVisitor L area roots snapshot).Keeps I := by
  intro e hI
  have hroots : Outcome AnyPanic (roots.foldlM (PageEvacuator.tryVisit L) e) fun e' => I e'.heap :=
    Outcome.foldlM_inv (I := fun e : PageEvacuator => I e.heap) roots
      (fun c _ _ hI => hV.tryVisit hI c) hI
  refine hroots.bind fun e₁ hI₁ => ?_
  exact (hV.scanExternalCards _ _ _ hI₁).bind fun e₂ hI₂ => hV.scanReservationCards _ hI₂

/-! ## Phase 2 -/

theorem rewriteCells {h : PageHeap} (hI : I h) (cells : List Nat) : I (h.rewriteCells L cells) :=
  foldl_inv (I := I) cells (fun c _ _ hI => hV.rewriteCell hI c) hI

theorem rewritePage {h : PageHeap} (hI : I h) (p : Nat) :
    Outcome AnyPanic (h.rewritePage L p) I := by
  unfold PageHeap.rewritePage
  dsimp only
  split
  · exact hI
  · refine cellLoop_keeps (I := I) ?_ _ _ _ hI
    intro cell h hI
    unfold rewritePageCell
    split
    · exact hI
    · refine Outcome.after fun _ => ?_
      split
      · exact hI
      · exact Outcome.after fun r => Outcome.after fun _ => hV.rewriteCells hI r.2

theorem rewritePinnedObject {h : PageHeap} (hI : I h) (cell : Nat) :
    Outcome AnyPanic (h.rewritePinnedObject L cell) I := by
  unfold PageHeap.rewritePinnedObject
  split
  · exact hI
  · refine Outcome.after fun _ => ?_
    split
    · exact hI
    · exact Outcome.after fun r => Outcome.after fun _ => hV.rewriteCells hI r.2

/-- Rewriting changes words only. -/
theorem phase2Rewrite {h : PageHeap} (hI : I h) (ext : Nat → Word) (fromGen destGen : Generation)
    {V : RootVisitor} (hkeeps : V.Keeps I) :
    Outcome AnyPanic (h.phase2Rewrite L ext fromGen destGen V) fun r => I r.1 := by
  refine (hkeeps (.new h ext fromGen destGen .rewrite) hI).bind fun e hI₁ => ?_
  refine (Outcome.foldlM_inv (I := I) _ (fun p _ h hI => hV.rewritePage hI p) hI₁).bind
    fun h₂ hI₂ => ?_
  exact (Outcome.foldlM_inv (I := I) _ (fun c _ h hI => hV.rewritePinnedObject hI c) hI₂).bind
    fun h₃ hI₃ => hI₃

end VisitInvariant

/-! ## The marker of the production path -/

/-- Only mark bits have changed. -/
def OnlyMarks (h h' : PageHeap) : Prop := ∃ bits, h' = { h with markBits := bits }

namespace OnlyMarks

variable {h h' h'' : PageHeap}

theorem refl (h : PageHeap) : OnlyMarks h h := ⟨h.markBits, rfl⟩

theorem trans (h₁ : OnlyMarks h h') (h₂ : OnlyMarks h' h'') : OnlyMarks h h'' := by
  obtain ⟨bits, rfl⟩ := h₁
  obtain ⟨bits', rfl⟩ := h₂
  exact ⟨bits', rfl⟩

theorem setMark (hM : OnlyMarks h h') (c : Nat) : OnlyMarks h (h'.setMark c) :=
  hM.trans ⟨_, rfl⟩

theorem descs (hM : OnlyMarks h h') : h'.descs = h.descs := by
  obtain ⟨bits, rfl⟩ := hM
  rfl

end OnlyMarks

namespace PageMarker

variable {L : HeapLayout} {m : PageMarker} {h : PageHeap}

theorem visitWord_onlyMarks (hI : OnlyMarks h m.heap) (w : Word) : OnlyMarks h (m.visitWord L w).heap := by
  unfold visitWord
  split
  · exact hI
  · split
    · exact hI
    · exact hI.setMark _

theorem visitCells_onlyMarks (hI : OnlyMarks h m.heap) (cells : List Nat) :
    OnlyMarks h (m.visitCells L cells).heap :=
  foldl_inv (I := fun m : PageMarker => OnlyMarks h m.heap) cells
    (fun _ _ _ hI => visitWord_onlyMarks hI _) hI

theorem scanMarkedObject_onlyMarks (hI : OnlyMarks h m.heap) (cell : Nat) :
    Outcome AnyPanic (m.scanMarkedObject L cell) fun m' => OnlyMarks h m'.heap := by
  unfold scanMarkedObject
  dsimp only
  split
  · exact hI
  · exact Outcome.after fun _ => visitCells_onlyMarks hI _
  · refine Outcome.after fun _ => Outcome.after fun layout => ?_
    exact Outcome.after fun _ => visitCells_onlyMarks hI _

theorem drainFuel_onlyMarks :
    ∀ fuel (m : PageMarker), OnlyMarks h m.heap →
      Outcome AnyPanic (m.drainFuel L fuel) fun m' => OnlyMarks h m'.heap := by
  intro fuel
  induction fuel with
  | zero => intro m hI; exact hI
  | succ fuel ih =>
      intro m hI
      unfold drainFuel
      split
      · exact hI
      · rename_i cell rest _
        exact (scanMarkedObject_onlyMarks (m := { m with queue := rest }) hI cell).bind ih

theorem visitCardLoop_onlyMarks {cardEnd : Nat} :
    ∀ fuel s (m : PageMarker), OnlyMarks h m.heap →
      Outcome AnyPanic (visitCardLoop L cardEnd fuel s m) fun m' => OnlyMarks h m'.heap := by
  intro fuel
  induction fuel with
  | zero => intro s m hI; exact hI
  | succ fuel ih =>
      intro s m hI
      unfold visitCardLoop
      split
      · exact hI
      · split
        · exact hI
        · refine Outcome.after fun layout => Outcome.after fun _ => ?_
          have hcells := visitCells_onlyMarks (L := L) hI
            (List.range' (s + layout.pointerCellsStart)
              (layout.pointerCellsEnd - layout.pointerCellsStart))
          dsimp only
          split
          · exact hcells
          · exact ih _ _ hcells

theorem scanReservationCards_onlyMarks (filter : PageFilter) (hI : OnlyMarks h m.heap) :
    Outcome AnyPanic (m.scanReservationCards L filter) fun m' => OnlyMarks h m'.heap := by
  refine Outcome.foldlM_inv (I := fun m : PageMarker => OnlyMarks h m.heap) _ ?_ hI
  intro card _ m hI
  unfold scanReservationCard
  split
  · exact hI
  · split
    · exact hI
    · exact visitCardLoop_onlyMarks _ _ _ hI

theorem scanExternalCards_onlyMarks (ext : Nat → Word) (cards : Nat → Bool) (base cells : Nat)
    (hI : OnlyMarks h m.heap) : OnlyMarks h (m.scanExternalCards L ext cards base cells).heap := by
  refine foldl_inv (I := fun m : PageMarker => OnlyMarks h m.heap) _ ?_ hI
  intro card _ m hI
  unfold scanExternalCard
  split
  · exact foldl_inv (I := fun m : PageMarker => OnlyMarks h m.heap) _
      (fun _ _ _ hI => visitWord_onlyMarks hI _) hI
  · exact hI

end PageMarker

/-! ## The extension of the marks -/

namespace OnlyMarks

variable {L : HeapLayout}

theorem extendMarkFromPinned (h : PageHeap) (target : Generation) :
    Outcome AnyPanic (h.extendMarkFromPinned L target) (OnlyMarks h) := by
  unfold PageHeap.extendMarkFromPinned
  split
  · exact OnlyMarks.refl h
  · have hfold : OnlyMarks h ((h.hashOrder.iter h.pinnedCells).foldl extendMarkStep
        (PageMarker.newWithoutClear h target)).heap := by
      refine foldl_inv (I := fun m : PageMarker => OnlyMarks h m.heap) _ ?_ (OnlyMarks.refl h)
      intro c _ m hM
      unfold extendMarkStep
      dsimp only
      repeat' split
      all_goals first | exact hM | exact hM.setMark c
    exact (PageMarker.drainFuel_onlyMarks _ _ hfold).bind fun m hm => hm

theorem extendMarkFromCrossGenPinned (h : PageHeap) (target : Generation) :
    Outcome AnyPanic (h.extendMarkFromCrossGenPinned L target) (OnlyMarks h) := by
  unfold PageHeap.extendMarkFromCrossGenPinned
  split
  · exact OnlyMarks.refl h
  · have hfold : Outcome AnyPanic ((h.hashOrder.iter h.pinnedCells).foldlM
        (extendMarkCrossGenStep L) (PageMarker.newWithoutClear h target))
        fun m => OnlyMarks h m.heap := by
      refine Outcome.foldlM_inv (I := fun m : PageMarker => OnlyMarks h m.heap) _ ?_
        (OnlyMarks.refl h)
      intro c _ m hM
      unfold extendMarkCrossGenStep
      dsimp only
      split
      · exact hM
      · split
        · exact hM
        · split
          · exact hM
          · split
            · exact hM
            · split
              · exact Outcome.after fun _ => PageMarker.visitCells_onlyMarks hM _
              · refine Outcome.after fun _ => Outcome.after fun layout => ?_
                exact Outcome.after fun _ => PageMarker.visitCells_onlyMarks hM _
    refine hfold.bind fun m hm => ?_
    exact (PageMarker.drainFuel_onlyMarks _ _ hm).bind fun m hm => hm

end OnlyMarks

end NewGc
