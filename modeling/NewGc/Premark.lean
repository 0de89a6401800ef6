import NewGc.Cycles

/-!
# Premark — the marks of the production minor cycle

`mark_minor_with_static` marks G0 before the pins are known: from the roots, from the dirty cards of
the static area and from the dirty cards of the old generations.  The marks are closed under the
pointers of G0 objects, so the evacuation that follows may take them for its own.
-/

namespace NewGc

open Library PageHeap

/-! ## The marker's card scan -/

/-- The cells a list of slots leads the plain marker to. -/
def slotTargets (L : HeapLayout) (h : PageHeap) (ext : Nat → Word) (g : Generation)
    (slots : List Slot) : List Nat :=
  slots.filterMap fun s => PageMarker.markTarget L h g (s.read h ext)

theorem slotTargets_append (L : HeapLayout) (h : PageHeap) (ext : Nat → Word) (g : Generation)
    (slots slots' : List Slot) : slotTargets L h ext g (slots ++ slots') =
      slotTargets L h ext g slots ++ slotTargets L h ext g slots' :=
  List.filterMap_append

/-- The marker `m` has been offered what the slots lead to, and has become `m'`. -/
structure SlotsOffered (L : HeapLayout) (h₀ : PageHeap) (T : ObjTable) (ext : Nat → Word)
    (g : Generation) (slots : List Slot) (m m' : PageMarker) : Prop where
  marking : HeapMarking h₀ T g m'
  search : m'.search = m.search.offerAll (slotTargets L h₀ ext g slots)

namespace SlotsOffered

variable {L : HeapLayout} {h₀ : PageHeap} {T : ObjTable} {ext : Nat → Word} {g : Generation}
  {slots slots' : List Slot} {m m' m'' : PageMarker}

theorem nil (hI : HeapMarking h₀ T g m) : SlotsOffered L h₀ T ext g [] m m := ⟨hI, rfl⟩

theorem append (h₁ : SlotsOffered L h₀ T ext g slots m m')
    (h₂ : SlotsOffered L h₀ T ext g slots' m' m'') :
    SlotsOffered L h₀ T ext g (slots ++ slots') m m'' where
  marking := h₂.marking
  search := by
    rw [h₂.search, h₁.search, slotTargets_append]
    exact (List.foldl_append ..).symm

variable (ext)

/-- Offering the words outside the reservation. -/
theorem addrs (hS : Shape L h₀ T Forwarding.empty) (hg : g ≠ .Free) (hI : HeapMarking h₀ T g m)
    (as : List Nat) : SlotsOffered L h₀ T ext g (as.map Slot.ext) m
      (as.foldl (fun m a => m.visitWord L (ext a)) m) := by
  have hwords := HeapMarking.visitWords hS hg hI (as.map ext)
  rw [List.foldl_map] at hwords
  refine ⟨hwords.1, hwords.2.trans ?_⟩
  unfold slotTargets
  rw [List.filterMap_map, List.filterMap_map]
  rfl

/-- Offering cells of the reservation. -/
theorem cells (hS : Shape L h₀ T Forwarding.empty) (hg : g ≠ .Free) (hI : HeapMarking h₀ T g m)
    (cs : List Nat) : SlotsOffered L h₀ T ext g (cs.map Slot.cell) m (m.visitCells L cs) := by
  have hcells := hI.visitCells hS hg cs
  refine ⟨hcells.1, hcells.2.trans ?_⟩
  unfold slotTargets
  rw [List.filterMap_map]
  rfl

end SlotsOffered

section Scan

variable {L : HeapLayout} {h₀ : PageHeap} {T : ObjTable} (ext : Nat → Word) {g : Generation}

/-- The loop of a card scan offers what `cardWalk` lists. -/
theorem markCardLoop_walk (hS : Shape L h₀ T Forwarding.empty) (hg : g ≠ .Free) {lo cardEnd : Nat}
    (hlive : ∀ x, lo ≤ x → x < cardEnd → h₀.genAt x ≠ .Free) :
    ∀ fuel s m, HeapMarking h₀ T g m → lo ≤ s →
      ∃ m', PageMarker.visitCardLoop L cardEnd fuel s m = .ok m' ∧
        SlotsOffered L h₀ T ext g ((cardWalk T cardEnd fuel s).map Slot.cell) m m' := by
  intro fuel
  induction fuel with
  | zero => exact fun s m hI _ => ⟨m, rfl, .nil hI⟩
  | succ fuel ih =>
      intro s m hI hs
      unfold PageMarker.visitCardLoop cardWalk
      by_cases hdone : cardEnd ≤ s
      · rw [if_pos hdone, if_pos hdone]
        exact ⟨m, rfl, .nil hI⟩
      · rw [if_neg hdone, if_neg hdone]
        have hS' := hI.frame.shape hS
        have hlive' : m.heap.genAt s ≠ .Free := by
          rw [hI.frame.genAt]
          exact hlive s hs (Nat.lt_of_not_le hdone)
        cases hT : T s with
        | none =>
            have hstart : m.heap.isStartAt s = false := by
              rw [Bool.eq_false_iff]
              intro hstart
              obtain ⟨o, ho⟩ := (hS'.isStartAt_iff hlive').1 hstart
              rw [hT] at ho
              cases ho
            rw [if_pos hstart]
            exact ⟨m, rfl, .nil hI⟩
        | some o =>
            rw [if_neg (by rw [hS'.isStartAt hT]; simp),
              hS'.objectPointerCells hT (Or.inl rfl)]
            have hpos : o.layout.totalCells ≠ 0 := Nat.one_le_iff_ne_zero.1 (hS'.wf hT).pos
            have hoffer := SlotsOffered.cells ext hS hg hI (o.ptrCells s)
            obtain ⟨m', hok, hrest⟩ := ih (s + o.totalCells) (m.visitCells L (o.ptrCells s))
              hoffer.marking (Nat.le_trans hs (Nat.le_add_right _ _))
            refine ⟨m', ?_, ?_⟩
            · show (m.heap.accessCells (o.ptrCells s) >>= fun _ =>
                if o.layout.totalCells = 0 then _ else _) = _
              rw [hS'.accessPtrCells hT, if_neg hpos]
              exact hok
            · dsimp only
              rw [List.map_append]
              exact hoffer.append hrest

/-- The scan of a card on a page in use offers `cardCells`. -/
theorem markCard_offers (hS : Shape L h₀ T Forwarding.empty) (hg : g ≠ .Free) {card : Nat}
    (hfree : h₀.kindAt (card * cardSizeCells) ≠ .Free) {m : PageMarker}
    (hI : HeapMarking h₀ T g m) :
    ∃ m', m.visitCardPointerCells L (card * cardSizeCells) (cardLimit m.heap card) = .ok m' ∧
      SlotsOffered L h₀ T ext g ((cardCells h₀ T card).map Slot.cell) m m' := by
  have hlimit : cardLimit m.heap card = cardLimit h₀ card := by
    unfold cardLimit
    rw [hI.frame.totalCells]
  have hstart := cardWalkStart_congr hI.frame.startBits hI.frame.role (card * cardSizeCells)
    (cardLimit h₀ card)
  obtain ⟨lo, hlo, hpages⟩ := cardWalk_pages hS.pages hfree
  unfold cardCells
  rw [if_neg hfree]
  show ∃ m', PageMarker.visitCardLoop L _ (_ - cardWalkStart _ _ _) (cardWalkStart _ _ _) _ = _ ∧ _
  rw [hlimit, hstart]
  exact markCardLoop_walk ext hS hg (fun x h1 h2 => (hpages x h1 h2).1) _ _ m hI hlo

/-- The cards of old pages the marker goes through. -/
def oldCards (h : PageHeap) : List Nat :=
  (List.range (h.nPages * cardsPerPage)).filter fun card =>
    h.cards card && PageMarker.cardPassesFilter h (some h.descs) card

/-- The slots on them. -/
def oldCardSlots (h : PageHeap) (T : ObjTable) : List Slot :=
  (oldCards h).flatMap fun card => (cardCells h T card).map Slot.cell

theorem markReservationCards_offers (hS : Shape L h₀ T Forwarding.empty) (hg : g ≠ .Free)
    {m : PageMarker} (hI : HeapMarking h₀ T g m) :
    ∃ m', m.scanReservationCards L (some h₀.descs) = .ok m' ∧
      SlotsOffered L h₀ T ext g (oldCardSlots h₀ T) m m' := by
  unfold PageMarker.scanReservationCards
  rw [hI.frame.nPages]
  unfold oldCardSlots oldCards
  generalize List.range (h₀.nPages * cardsPerPage) = cards
  induction cards generalizing m with
  | nil => exact ⟨m, rfl, .nil hI⟩
  | cons card cards ih =>
      have hfilter : PageMarker.cardPassesFilter m.heap (some h₀.descs) card =
          PageMarker.cardPassesFilter h₀ (some h₀.descs) card := by
        unfold PageMarker.cardPassesFilter
        rw [hI.frame.nPages]
      rw [List.foldlM_cons]
      unfold PageMarker.scanReservationCard
      rw [hI.frame.cards, hfilter]
      by_cases hpass : (h₀.cards card &&
          PageMarker.cardPassesFilter h₀ (some h₀.descs) card) = true
      · rw [List.filter_cons_of_pos (by exact hpass), List.flatMap_cons]
        rw [Bool.and_eq_true] at hpass
        rw [if_neg (by rw [hpass.1]; simp), if_neg (by rw [hpass.2]; simp)]
        -- a page of G1 or Tenured is in use
        have hfree : h₀.kindAt (card * cardSizeCells) ≠ .Free := by
          intro hk
          have hgen := (hS.pages.kindFree _).1 hk
          have hold := hpass.2
          simp [PageMarker.cardPassesFilter, hgen] at hold
        obtain ⟨m', hok, hoffer⟩ := markCard_offers ext hS hg hfree hI
        obtain ⟨m'', hok', hrest⟩ := ih hoffer.marking
        unfold cardLimit at hok
        rw [hok]
        exact ⟨m'', hok', hoffer.append hrest⟩
      · rw [List.filter_cons_of_neg (by exact hpass)]
        obtain ⟨m', hok, hrest⟩ := ih hI
        refine ⟨m', ?_, hrest⟩
        cases hc : h₀.cards card with
        | false =>
            rw [if_pos rfl]
            exact hok
        | true =>
            rw [hc, Bool.true_and] at hpass
            rw [if_neg (by simp), if_pos (Bool.eq_false_iff.2 hpass)]
            exact hok

/-- The scan of a static area offers its slots. -/
theorem markExternalCards_offers (hS : Shape L h₀ T Forwarding.empty) (hg : g ≠ .Free)
    {m : PageMarker} (hI : HeapMarking h₀ T g m) (area : StaticArea) :
    SlotsOffered L h₀ T ext g (area.slots.map Slot.ext) m
      (m.scanExternalCards L ext area.cards area.base area.cells) := by
  unfold PageMarker.scanExternalCards StaticArea.slots
  generalize List.range ((area.cells + (cardSizeCells - 1)) / cardSizeCells) = cards
  induction cards generalizing m with
  | nil => exact .nil hI
  | cons card cards ih =>
      rw [List.foldl_cons]
      unfold PageMarker.scanExternalCard
      cases hc : area.cards card with
      | false =>
          rw [List.filter_cons_of_neg (by rw [hc]; simp)]
          exact ih hI
      | true =>
          rw [List.filter_cons_of_pos (by rw [hc]), List.flatMap_cons, List.map_append, if_pos rfl]
          have hfirst := SlotsOffered.addrs ext hS hg hI
            ((List.range' (card * cardSizeCells) (min (card * cardSizeCells + cardSizeCells)
              area.cells - card * cardSizeCells)).map fun c => area.base + c * 8)
          rw [List.foldl_map] at hfirst
          exact hfirst.append (ih hfirst.marking)

end Scan

/-! ## The marks -/

/-- What `mark_minor_with_static` leaves behind: the heap of `h`, with marks on the objects of `g`
that the slots reach. -/
structure Premarked (L : HeapLayout) (h : PageHeap) (T : ObjTable) (ext : Nat → Word)
    (g : Generation) (slots : List Slot) (h' : PageHeap) : Prop where
  frame : MarksOnly h h'
  descs : h'.descs = h.descs
  pinnedCells : h'.pinnedCells = h.pinnedCells
  closed : MarkClosed h' T g (PageMarker.markTarget L h g)
  roots : ∀ s ∈ slots, ∀ y, PageMarker.markTarget L h g (s.read h ext) = some y →
    h'.isMarked y = true
  fresh : ∀ c, h'.isMarked c = true → h.genAt c = g → (T c).isSome
  sound : ∀ c, h'.isMarked c = true → h.genAt c = g → ∃ s ∈ slots, ∃ x,
    PageMarker.markTarget L h g (s.read h ext) = some x ∧
      MarkReach h T g (PageMarker.markTarget L h g) x c
  active : h'.recycleLiveCountsTarget = some g

/-- The slots of `mark_minor_with_static`. -/
def premarkSlots (h : PageHeap) (T : ObjTable) (area : StaticArea) (roots : List Nat) : List Slot :=
  roots.map Slot.ext ++ area.slots.map Slot.ext ++ oldCardSlots h T

theorem prepareRecycle_frame (h : PageHeap) (g : Generation) :
    MarksOnly h (h.prepareRecycleLiveCountsFromMarks g) :=
  ⟨rfl, rfl, rfl, rfl, rfl, rfl, rfl, rfl, rfl, fun _ => ⟨_, rfl⟩, fun _ _ => rfl, fun _ hp => hp,
    fun _ hx => hx, fun _ hx => Or.inl hx⟩

theorem oldCardSlots_cleared (h : PageHeap) (T : ObjTable) (g : Generation) :
    oldCardSlots (h.clearMarkBitsInGen g) T = oldCardSlots h T := by
  have hM := clearMarkBitsInGen_frame h g
  have hcells : ∀ card, cardCells (h.clearMarkBitsInGen g) T card = cardCells h T card := by
    intro card
    unfold cardCells cardLimit totalCells kindAt
    rw [hM.nPages, (hM.role _).kind, cardWalkStart_congr hM.startBits hM.role]
  unfold oldCardSlots
  simp only [hcells]
  rfl

/-- Marking from the roots, the static area and the dirty cards of old pages. -/
theorem markMinorWithStatic_premarked {L : HeapLayout} {h : PageHeap} {T : ObjTable}
    (hS : Shape L h T Forwarding.empty) (ext : Nat → Word) (area : StaticArea)
    (roots : List Nat) : ∃ h', h.markMinorWithStatic L ext area roots = .ok h' ∧
      Premarked L h T ext .G0 (premarkSlots h T area roots) h' := by
  have hg : Generation.G0 ≠ .Free := by decide
  have hM := clearMarkBitsInGen_frame h .G0
  have hS' : Shape L (h.clearMarkBitsInGen .G0) T Forwarding.empty := hM.shape hS
  have htarget : ∀ w, PageMarker.markTarget L (h.clearMarkBitsInGen .G0) .G0 w =
      PageMarker.markTarget L h .G0 w := markTarget_congr hM.sameObjects
  have hclear : ∀ {c}, h.genAt c = .G0 → (h.clearMarkBitsInGen .G0).isMarked c = false :=
    clearMarkBitsInGen_clear hS.pages hg
  -- nothing of G0 is marked at the start, so the marks are closed
  have hclosed : MarkClosed (h.clearMarkBitsInGen .G0) T .G0
      (PageMarker.markTarget L (h.clearMarkBitsInGen .G0) .G0) := by
    intro x y hx hy
    obtain ⟨o, i, -, hgen, -⟩ := mem_markSucc.1 hy
    rw [hclear (by rw [← hM.genAt]; exact hgen)] at hx
    cases hx
  have hroots := SlotsOffered.addrs ext hS' hg (HeapMarking.start _ T .G0) roots
  have hstatic := markExternalCards_offers ext hS' hg hroots.marking area
  obtain ⟨m₂, hok₂, hcards⟩ := markReservationCards_offers ext hS' hg hstatic.marking
  have hall := (hroots.append hstatic).append hcards
  rw [oldCardSlots_cleared] at hall
  obtain ⟨m₃, hok₃, hE⟩ := extended_of_drain hS' hg hclosed hall.marking hall.search
  have hslots : ∀ y, y ∈ slotTargets L (h.clearMarkBitsInGen .G0) ext .G0
      (premarkSlots h T area roots) ↔ ∃ s ∈ premarkSlots h T area roots,
        PageMarker.markTarget L h .G0 (s.read h ext) = some y := by
    intro y
    unfold slotTargets
    rw [List.mem_filterMap]
    refine exists_congr fun s => and_congr_right fun _ => ?_
    rw [htarget]
    cases s <;> rfl
  refine ⟨m₃.heap.prepareRecycleLiveCountsFromMarks .G0, ?_, ?_⟩
  · unfold markMinorWithStatic
    show (PageMarker.scanReservationCards L (some h.descs) _ >>= fun m => m.drain L >>= fun m =>
      .ok (m.heap.prepareRecycleLiveCountsFromMarks .G0)) = _
    have hscan : PageMarker.scanReservationCards L (some h.descs) (PageMarker.scanExternalCards L ext
        area.cards area.base area.cells (roots.foldl (fun m a => m.visitWord L (ext a))
          (PageMarker.new h .G0))) = .ok m₂ := hok₂
    rw [hscan]
    show (m₂.drain L >>= _) = _
    rw [hok₃]
    rfl
  · have hframe := hM.trans hE.frame
    exact
      { frame := hframe.trans (prepareRecycle_frame _ _)
        descs := by
          show m₃.heap.descs = h.descs
          rw [hE.same]
          rfl
        pinnedCells := by
          show m₃.heap.pinnedCells = h.pinnedCells
          rw [hE.same]
          rfl
        closed := by
          intro x y hx hy
          rw [markSucc_congr (prepareRecycle_frame m₃.heap .G0).sameObjects] at hy
          refine hE.closed x y hx ?_
          rwa [show PageMarker.markTarget L (h.clearMarkBitsInGen .G0) .G0 =
            PageMarker.markTarget L h .G0 from funext htarget]
        roots := fun s hs y hy => hE.added y ((hslots y).2 ⟨s, hs, hy⟩)
        fresh := by
          intro c hc hgen
          rcases hE.sound c hc with hold | ⟨x, hx, hr⟩
          · rw [hclear hgen] at hold
            cases hold
          · obtain ⟨s, -, hs⟩ := (hslots x).1 hx
            refine markReach_end (markTarget_ok hS' hg) hr ?_
            exact (markTarget_ok hS hg).object _ x hs
        sound := by
          intro c hc hgen
          rcases hE.sound c hc with hold | ⟨x, hx, hr⟩
          · rw [hclear hgen] at hold
            cases hold
          · obtain ⟨s, hs, ht⟩ := (hslots x).1 hx
            exact ⟨s, hs, x, ht, markReach_congr hM.sameObjects htarget hr⟩
        active := rfl }

end NewGc
