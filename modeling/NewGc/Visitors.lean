import NewGc.Pinning

/-!
# Visitors — what the root closures present

A root closure presents a list of slots.  For the dirty-card scan the list is read off the object
table: the walk of a card visits the pointer cells of object after object until it leaves the card
or meets a cell where nothing starts.
-/

namespace NewGc

open Library PageHeap

/-! ## What visiting keeps -/

/-- Visiting keeps the object table and all that a card scan reads. -/
structure ScanKept (L : HeapLayout) (T : ObjTable) (K : Forwarding) (e e' : PageEvacuator) :
    Prop where
  shape : Shape L e'.heap T K
  nPages : e'.heap.nPages = e.heap.nPages
  startBits : e'.heap.startBits = e.heap.startBits
  role : ∀ q, (e.heap.descs q).SameRole (e'.heap.descs q)
  cards : e'.heap.cards = e.heap.cards
  fromGen : e'.fromGen = e.fromGen

/-- Whatever scannable slots are visited, the scan goes on in the same heap. -/
def Steady (L : HeapLayout) (T : ObjTable) (K : Forwarding) (e : PageEvacuator) : Prop :=
  ∀ slots, (∀ c, Slot.cell c ∈ slots → Scannable T c) → ScanKept L T K e (e.visitSlots L slots)

section Steady

variable {L : HeapLayout} {T : ObjTable} {K : Forwarding} {e : PageEvacuator}

theorem steady_rewrite (hmode : e.mode = .rewrite) (hS : Shape L e.heap T K) :
    Steady L T K e := by
  intro slots hscan
  have hV := visitSlots_rewrite hmode hS slots hscan
  exact
    { shape := hV.heap.shape hS hscan
      nPages := hV.heap.nPages
      startBits := hV.heap.startBits
      role := by
        intro q
        rw [hV.heap.descs]
        exact PageDesc.SameRole.refl _
      cards := hV.heap.cards
      fromGen := hV.fromGen }

theorem steady_mark (hmode : e.mode = .mark) (hq : e.markQueue = [])
    (hg : e.fromGen ≠ .Free) (hS : Shape L e.heap T Forwarding.empty) :
    Steady L T Forwarding.empty e := by
  intro slots _
  obtain ⟨hI, -⟩ := EvacMarking.visitSlots hS hg (EvacMarking.refl (T := T) hmode hq) slots
  exact
    { shape := hI.frame.shape hS
      nPages := hI.frame.nPages
      startBits := hI.frame.startBits
      role := hI.frame.role
      cards := hI.frame.cards
      fromGen := hI.fromGen }

end Steady

theorem visitSlots_append (L : HeapLayout) (e : PageEvacuator) (slots slots' : List Slot) :
    e.visitSlots L (slots ++ slots') = (e.visitSlots L slots).visitSlots L slots' := by
  unfold PageEvacuator.visitSlots
  exact List.foldl_append

theorem tryVisitCells_eq (L : HeapLayout) (e : PageEvacuator) (cells : List Nat) :
    e.tryVisitCells L cells = e.tryVisitSlots L (cells.map Slot.cell) := by
  unfold PageEvacuator.tryVisitCells PageEvacuator.tryVisitSlots
  rw [List.foldlM_map]
  rfl

/-- A visit of a scannable slot has its backing. -/
theorem Shape.tryVisitSlot {L : HeapLayout} {T : ObjTable} {K : Forwarding} {e : PageEvacuator}
    (hS : Shape L e.heap T K) {s : Slot} (hs : ∀ c, s = .cell c → Scannable T c) :
    e.tryVisitSlot L s = .ok (e.visitSlot L s) := by
  have hreaches : ∀ w, e.reaches L w = true := by
    intro w
    unfold PageEvacuator.reaches
    cases e.mode with
    | mark => rfl
    | rewrite => exact hS.followable w
  cases s with
  | ext a =>
      show (do require (e.reaches L (e.ext a)) GcPanic.accessViolation; return e.visit L a) = _
      rw [hreaches]
      rfl
  | cell c =>
      obtain ⟨x, o, i, hx, hi, rfl⟩ := hs c rfl
      show (do
        require (e.heap.committed ((x + i) / pageSizeCells) &&
          e.reaches L (e.heap.mem (x + i))) GcPanic.accessViolation
        return e.visitCell L (x + i)) = _
      rw [hreaches, hS.committed hx ((hS.wf hx).inside i hi)]
      rfl

/-- Scannable slots are visited without a fault. -/
theorem Steady.tryVisitSlots {L : HeapLayout} {T : ObjTable} {K : Forwarding} {e : PageEvacuator}
    (hE : Steady L T K e) (slots : List Slot) :
    ∀ done, (∀ c, Slot.cell c ∈ done ++ slots → Scannable T c) →
      (e.visitSlots L done).tryVisitSlots L slots = .ok (e.visitSlots L (done ++ slots)) := by
  induction slots with
  | nil =>
      intro done _
      rw [List.append_nil]
      rfl
  | cons s slots ih =>
      intro done hscan
      have hkept := hE done fun c hc => hscan c (List.mem_append_left _ hc)
      unfold PageEvacuator.tryVisitSlots
      rw [List.foldlM_cons, hkept.shape.tryVisitSlot fun c hc => hscan c (by simp [hc])]
      have hnext := ih (done ++ [s]) (by simpa using hscan)
      rw [visitSlots_append, List.append_assoc] at hnext
      exact hnext

theorem Steady.tryVisitSlots_start {L : HeapLayout} {T : ObjTable} {K : Forwarding}
    {e : PageEvacuator} (hE : Steady L T K e) {slots : List Slot}
    (hscan : ∀ c, Slot.cell c ∈ slots → Scannable T c) :
    e.tryVisitSlots L slots = .ok (e.visitSlots L slots) :=
  hE.tryVisitSlots slots [] hscan

/-! ## The walk of a card -/

/-- The cells a card walk visits from `s` on. -/
def cardWalk (T : ObjTable) (cardEnd : Nat) : Nat → Nat → List Nat
  | 0, _ => []
  | fuel + 1, s =>
      if cardEnd ≤ s then []
      else
        match T s with
        | none => []
        | some o => o.ptrCells s ++ cardWalk T cardEnd fuel (s + o.totalCells)

theorem cardWalk_scannable {T : ObjTable} {cardEnd : Nat} :
    ∀ fuel s c, c ∈ cardWalk T cardEnd fuel s → Scannable T c := by
  intro fuel
  induction fuel with
  | zero =>
      intro s c hc
      simp [cardWalk] at hc
  | succ fuel ih =>
      intro s c hc
      unfold cardWalk at hc
      split at hc
      · simp at hc
      · split at hc
        · simp at hc
        · rename_i o ho
          rcases List.mem_append.1 hc with hptr | hrest
          · exact scannable_ptrCells ho hptr
          · exact ih _ c hrest

/-- The header of an object can be read: it is not overwritten, or there is none. -/
def Readable (h : PageHeap) (T : ObjTable) (K : Forwarding) (c : Nat) : Prop :=
  (T c).isSome → K c = none ∨ h.kindAt c = .Cons

theorem Shape.objectPointerCells {L : HeapLayout} {h : PageHeap} {T : ObjTable} {K : Forwarding}
    {c : Nat} {o : ObjInfo} (hS : Shape L h T K) (hc : T c = some o)
    (hread : K c = none ∨ h.kindAt c = .Cons) : h.objectPointerCells L c = .ok o.layout := by
  have hO := hS.obj c o hc
  have hcons : o.isCons = true → o.layout = ObjInfo.cons.layout := fun ho => by
    rw [(hO.wf).cons ho]
  have hheader : h.kindAt c ≠ .Cons → o.isCons = false →
      (do h.access c 1; L.headerLayout (h.mem c)) = .ok o.layout := by
    intro hk ho
    rw [hS.accessHead hc]
    exact hO.header (hread.resolve_right hk) ho
  unfold PageHeap.objectPointerCells
  cases hk : (h.descs (c / pageSizeCells)).kind with
  | Free =>
      exact absurd ((hS.pages.kindFree _).1 hk) hO.live
  | Cons =>
      rw [hcons (hO.consPage hk)]
      rfl
  | Boxed =>
      dsimp only
      rw [hS.isConsStartAt hc]
      cases ho : o.isCons with
      | true =>
          rw [hcons ho]
          rfl
      | false => exact hheader (by unfold kindAt; rw [hk]; simp) ho
  | Large =>
      dsimp only
      exact hheader (by unfold kindAt; rw [hk]; simp) (hO.large hk).2.1

section Walk

variable {L : HeapLayout} {T : ObjTable} {K : Forwarding} {e₀ : PageEvacuator}

/-- The loop of a card scan visits what `cardWalk` lists, when the pages up to the end of the card
are in use. -/
theorem visitCardLoop_walk (hE : Steady L T K e₀) {lo cardEnd : Nat}
    (hlive : ∀ x, lo ≤ x → x < cardEnd → e₀.heap.genAt x ≠ .Free)
    (hread : ∀ x, lo ≤ x → x < cardEnd → Readable e₀.heap T K x) :
    ∀ fuel s slots, (∀ c, Slot.cell c ∈ slots → Scannable T c) → lo ≤ s →
      PageEvacuator.visitCardLoop L cardEnd fuel s (e₀.visitSlots L slots) =
        .ok (e₀.visitSlots L (slots ++ (cardWalk T cardEnd fuel s).map Slot.cell)) := by
  intro fuel
  induction fuel with
  | zero =>
      intro s slots _ _
      simp [PageEvacuator.visitCardLoop, cardWalk]
  | succ fuel ih =>
      intro s slots hscan hs
      have hkept := hE slots hscan
      unfold PageEvacuator.visitCardLoop cardWalk
      by_cases hdone : cardEnd ≤ s
      · rw [if_pos hdone, if_pos hdone, List.map_nil, List.append_nil]
      · rw [if_neg hdone, if_neg hdone]
        -- the page is in use, so the start bit tells what the table says
        have hlive' : (e₀.visitSlots L slots).heap.genAt s ≠ .Free := by
          unfold genAt
          rw [(hkept.role _).generation]
          exact hlive s hs (Nat.lt_of_not_le hdone)
        cases hT : T s with
        | none =>
            have hstart : (e₀.visitSlots L slots).heap.isStartAt s = false := by
              rw [Bool.eq_false_iff]
              intro hs
              obtain ⟨o, ho⟩ := (hkept.shape.isStartAt_iff hlive').1 hs
              rw [hT] at ho
              cases ho
            rw [if_pos hstart, List.map_nil, List.append_nil]
        | some o =>
            have hr : K s = none ∨ (e₀.visitSlots L slots).heap.kindAt s = .Cons := by
              refine (hread s hs (Nat.lt_of_not_le hdone) (by rw [hT]; rfl)).imp_right fun hk => ?_
              unfold kindAt at hk ⊢
              rw [(hkept.role _).kind]
              exact hk
            have hscan' : ∀ c, Slot.cell c ∈ slots ++ (o.ptrCells s).map Slot.cell →
                Scannable T c := by
              intro c hc
              rcases List.mem_append.1 hc with hold | hnew
              · exact hscan c hold
              · obtain ⟨x, hx, heq⟩ := List.mem_map.1 hnew
                cases heq
                exact scannable_ptrCells hT hx
            have hnext := ih (s + o.totalCells) (slots ++ (o.ptrCells s).map Slot.cell) hscan'
              (Nat.le_trans hs (Nat.le_add_right _ _))
            rw [if_neg (by rw [hkept.shape.isStartAt hT]; simp),
              hkept.shape.objectPointerCells hT hr]
            have hpos : o.layout.totalCells ≠ 0 := Nat.one_le_iff_ne_zero.1 (hkept.shape.wf hT).pos
            have hvisit := hE.tryVisitSlots ((o.ptrCells s).map Slot.cell) slots hscan'
            rw [← tryVisitCells_eq] at hvisit
            unfold ObjInfo.ptrCells at hvisit hnext ⊢
            simp only [bind, Except.bind, hvisit, if_neg hpos]
            exact hnext.trans (by rw [List.map_append, List.append_assoc])

/-- On a free page the loop visits nothing, whatever start bits are left on it. -/
theorem visitCardLoop_free (L : HeapLayout) {e : PageEvacuator} {q cardEnd : Nat}
    (hkind : (e.heap.descs q).kind = .Free) (hend : cardEnd ≤ (q + 1) * pageSizeCells) :
    ∀ fuel s, q * pageSizeCells ≤ s → PageEvacuator.visitCardLoop L cardEnd fuel s e = .ok e := by
  intro fuel
  induction fuel with
  | zero => exact fun _ _ => rfl
  | succ fuel ih =>
      intro s hs
      unfold PageEvacuator.visitCardLoop
      by_cases hdone : cardEnd ≤ s
      · rw [if_pos hdone]
      · rw [if_neg hdone]
        split
        · rfl
        · have hpage : s / pageSizeCells = q := by
            unfold pageSizeCells at *
            omega
          have hcells : e.heap.objectPointerCells L s =
              .ok { totalCells := 1, pointerCellsStart := 0, pointerCellsEnd := 0 } := by
            unfold PageHeap.objectPointerCells
            rw [hpage, hkind]
          rw [hcells]
          exact ih (s + 1) (Nat.le_succ_of_le hs)

end Walk

/-! ## A dirty card -/

/-- Where the walk of a card starts: at the object that covers its first cell, or at the first one
in the card. -/
def cardWalkStart (h : PageHeap) (cardStart cardEnd : Nat) : Nat :=
  match h.objectStartAtOrBefore cardStart with
  | some s => s
  | none => h.firstStartFrom (cardEnd - cardStart) cardStart

/-- First cell past a card of the reservation. -/
def cardLimit (h : PageHeap) (card : Nat) : Nat :=
  min (card * cardSizeCells + cardSizeCells) h.totalCells

/-- The cells the scan of a card presents. -/
def cardCells (h : PageHeap) (T : ObjTable) (card : Nat) : List Nat :=
  if h.kindAt (card * cardSizeCells) = .Free then []
  else
    cardWalk T (cardLimit h card)
      (cardLimit h card - cardWalkStart h (card * cardSizeCells) (cardLimit h card))
      (cardWalkStart h (card * cardSizeCells) (cardLimit h card))

theorem cardCells_scannable {h : PageHeap} {T : ObjTable} {card c : Nat}
    (hc : c ∈ cardCells h T card) : Scannable T c := by
  unfold cardCells at hc
  split at hc
  · simp at hc
  · exact cardWalk_scannable _ _ _ hc

section Congr

variable {h h' : PageHeap}

theorem firstStartFrom_congr (hstart : h'.startBits = h.startBits) :
    ∀ fuel c, h'.firstStartFrom fuel c = h.firstStartFrom fuel c := by
  intro fuel
  induction fuel with
  | zero => exact fun _ => rfl
  | succ fuel ih =>
      intro c
      unfold firstStartFrom isStartAt
      rw [hstart, ih]

theorem objectStartAtOrBefore_scan_congr (hstart : h'.startBits = h.startBits) (first : Nat) :
    ∀ off, objectStartAtOrBefore.scan h' first off = objectStartAtOrBefore.scan h first off := by
  intro off
  induction off with
  | zero =>
      unfold objectStartAtOrBefore.scan isStartAt
      rw [hstart]
  | succ off ih =>
      unfold objectStartAtOrBefore.scan isStartAt
      rw [hstart, ih]

theorem largeHeadPage_role (hrole : ∀ q, (h.descs q).SameRole (h'.descs q)) (q : Nat) :
    h'.largeHeadPage q = h.largeHeadPage q := by
  induction q with
  | zero => rfl
  | succ q ih =>
      have hcont : (h'.descs (q + 1)).isLargeCont = (h.descs (q + 1)).isLargeCont := by
        unfold PageDesc.isLargeCont
        rw [(hrole _).kind, (hrole _).nSpan]
      unfold PageHeap.largeHeadPage
      rw [hcont, ih]

theorem cardWalkStart_congr (hstart : h'.startBits = h.startBits)
    (hrole : ∀ q, (h.descs q).SameRole (h'.descs q)) (cardStart cardEnd : Nat) :
    cardWalkStart h' cardStart cardEnd = cardWalkStart h cardStart cardEnd := by
  unfold cardWalkStart objectStartAtOrBefore
  dsimp only
  rw [(hrole _).kind, largeHeadPage_role hrole, objectStartAtOrBefore_scan_congr hstart,
    firstStartFrom_congr hstart]

end Congr

theorem firstStartFrom_le (h : PageHeap) : ∀ fuel c, c ≤ h.firstStartFrom fuel c := by
  intro fuel
  induction fuel with
  | zero => exact fun c => Nat.le_refl c
  | succ fuel ih =>
      intro c
      unfold firstStartFrom
      split
      · exact Nat.le_refl c
      · exact Nat.le_of_succ_le (ih (c + 1))

theorem objectStartAtOrBefore_scan_le {h : PageHeap} {first s : Nat} :
    ∀ off, objectStartAtOrBefore.scan h first off = some s → first ≤ s := by
  intro off
  induction off with
  | zero =>
      intro hs
      unfold objectStartAtOrBefore.scan at hs
      split at hs
      · cases hs
        exact Nat.le_refl first
      · cases hs
  | succ off ih =>
      intro hs
      unfold objectStartAtOrBefore.scan at hs
      split at hs
      · cases hs
        exact Nat.le_add_right _ _
      · exact ih hs

/-- Off the large runs the walk starts on the page of the card. -/
theorem cardWalkStart_page {h : PageHeap} (cardEnd : Nat) {cardStart : Nat}
    (hkind : h.kindAt cardStart ≠ .Large) :
    cardStart / pageSizeCells * pageSizeCells ≤ cardWalkStart h cardStart cardEnd := by
  have hfirst : cardStart / pageSizeCells * pageSizeCells ≤
      h.firstStartFrom (cardEnd - cardStart) cardStart :=
    (Nat.div_mul_le_self _ _).trans (firstStartFrom_le h _ _)
  unfold cardWalkStart objectStartAtOrBefore
  dsimp only
  cases hk : (h.descs (cardStart / pageSizeCells)).kind with
  | Large => exact absurd hk hkind
  | Free => exact hfirst
  | Cons | Boxed =>
      dsimp only
      split
      · rename_i s hs
        exact objectStartAtOrBefore_scan_le _ hs
      · exact hfirst

/-- The first cell of a card lies on the card's page. -/
theorem card_page (card : Nat) : card * cardSizeCells / pageSizeCells = card / cardsPerPage := by
  unfold cardSizeCells pageSizeCells cardsPerPage
  omega

/-- The cells a walk may stop at: from its start to the end of the card every page is in use, and
it is the card's page or one of the same large run. -/
theorem cardWalk_pages {h : PageHeap} (hP : PagesOk h) {card : Nat}
    (hfree : h.kindAt (card * cardSizeCells) ≠ .Free) :
    ∃ lo ≤ cardWalkStart h (card * cardSizeCells) (cardLimit h card),
      ∀ x, lo ≤ x → x < cardLimit h card → h.genAt x ≠ .Free ∧
        (h.kindAt x = .Large ∨ x / pageSizeCells = card / cardsPerPage) := by
  have hpage := card_page card
  have hend : cardLimit h card ≤ (card / cardsPerPage + 1) * pageSizeCells := by
    refine (Nat.min_le_left _ _).trans ?_
    unfold cardSizeCells pageSizeCells cardsPerPage
    omega
  have hlive : (h.descs (card / cardsPerPage)).generation ≠ .Free := by
    rw [← hpage]
    exact fun hg => hfree ((hP.kindFree _).2 hg)
  by_cases hlarge : h.kindAt (card * cardSizeCells) = .Large
  · -- the walk starts at the head of the run, whose pages up to the card's are in use
    have hk : (h.descs (card / cardsPerPage)).kind = .Large := by
      rw [← hpage]
      exact hlarge
    obtain ⟨head, hkh, hspan, hle, hlt⟩ := hP.exists_head hk
    have hhead : h.largeHeadPage (card / cardsPerPage) = head := by
      have := hP.largeHeadPage hkh hspan (card / cardsPerPage - head) (by omega)
      rwa [Nat.add_sub_cancel' hle] at this
    refine ⟨head * pageSizeCells, ?_, fun x h1 h2 => ?_⟩
    · unfold cardWalkStart objectStartAtOrBefore
      dsimp only
      rw [hpage, hk, hhead]
    · obtain ⟨hkx, hgx⟩ := hP.run_page (q := x / pageSizeCells) hkh
        ⟨by unfold pageSizeCells at *; omega, by unfold pageSizeCells at *; omega⟩
      refine ⟨?_, Or.inl hkx⟩
      unfold genAt
      rw [hgx]
      intro hg
      rw [(hP.kindFree head).2 hg] at hkh
      cases hkh
  · have hle := cardWalkStart_page (cardLimit h card) hlarge
    rw [hpage] at hle
    refine ⟨_, hle, fun x h1 h2 => ?_⟩
    have hx : x / pageSizeCells = card / cardsPerPage := by
      unfold pageSizeCells at *
      omega
    refine ⟨?_, Or.inr hx⟩
    unfold genAt
    rw [hx]
    exact hlive

section Card

variable {L : HeapLayout} {T : ObjTable} {K : Forwarding} {e₀ : PageEvacuator}

/-- The scan of one card presents `cardCells`. -/
theorem visitCardPointerCells_presents (hE : Steady L T K e₀)
    (hS : Shape L e₀.heap T K) (card : Nat)
    (hread : ∀ x, (e₀.heap.kindAt x = .Large ∨ x / pageSizeCells = card / cardsPerPage) →
      Readable e₀.heap T K x) (slots : List Slot)
    (hscan : ∀ c, Slot.cell c ∈ slots → Scannable T c) :
    (e₀.visitSlots L slots).visitCardPointerCells L (card * cardSizeCells)
        (cardLimit (e₀.visitSlots L slots).heap card) =
      .ok (e₀.visitSlots L (slots ++ (cardCells e₀.heap T card).map Slot.cell)) := by
  have hkept := hE slots hscan
  have hpage := card_page card
  have hlimit : cardLimit (e₀.visitSlots L slots).heap card = cardLimit e₀.heap card := by
    unfold cardLimit totalCells
    rw [hkept.nPages]
  have hstart := cardWalkStart_congr hkept.startBits hkept.role (card * cardSizeCells)
    (cardLimit e₀.heap card)
  show PageEvacuator.visitCardLoop L _ (_ - cardWalkStart _ _ _) (cardWalkStart _ _ _) _ = _
  rw [hlimit, hstart]
  unfold cardCells
  by_cases hfree : e₀.heap.kindAt (card * cardSizeCells) = .Free
  · have hend : cardLimit e₀.heap card ≤ (card / cardsPerPage + 1) * pageSizeCells := by
      refine (Nat.min_le_left _ _).trans ?_
      unfold cardSizeCells pageSizeCells cardsPerPage
      omega
    rw [if_pos hfree, List.map_nil, List.append_nil]
    have hle := cardWalkStart_page (cardLimit e₀.heap card)
      (show e₀.heap.kindAt (card * cardSizeCells) ≠ .Large by rw [hfree]; simp)
    rw [hpage] at hle
    refine visitCardLoop_free L ?_ hend _ _ hle
    unfold kindAt at hfree
    rw [(hkept.role _).kind, ← hpage]
    exact hfree
  · rw [if_neg hfree]
    obtain ⟨lo, hlo, hpages⟩ := cardWalk_pages hS.pages hfree
    exact visitCardLoop_walk hE (fun x h1 h2 => (hpages x h1 h2).1)
      (fun x h1 h2 => hread x (hpages x h1 h2).2) _ _ slots hscan hlo

/-! ## The scan of the reservation -/

/-- The cards a filtered scan goes through. -/
def scannedCards (h : PageHeap) (fromGen : Generation) (filter : PageFilter) : List Nat :=
  (List.range (h.nPages * cardsPerPage)).filter fun card =>
    h.cards card && PageEvacuator.cardPassesFilter h fromGen filter card

/-- The slots a filtered scan presents. -/
def scannedSlots (h : PageHeap) (T : ObjTable) (fromGen : Generation) (filter : PageFilter) :
    List Slot :=
  (scannedCards h fromGen filter).flatMap fun card => (cardCells h T card).map Slot.cell

theorem scannedSlots_scannable {h : PageHeap} {fromGen : Generation} {filter : PageFilter}
    {c : Nat} (hc : Slot.cell c ∈ scannedSlots h T fromGen filter) : Scannable T c := by
  obtain ⟨card, -, hc⟩ := List.mem_flatMap.1 hc
  obtain ⟨x, hx, heq⟩ := List.mem_map.1 hc
  cases heq
  exact cardCells_scannable hx

/-- What a scan presents depends on what `ScanKept` keeps. -/
theorem scannedSlots_congr {h h' : PageHeap} (hn : h'.nPages = h.nPages)
    (hstart : h'.startBits = h.startBits) (hrole : ∀ q, (h.descs q).SameRole (h'.descs q))
    (hcards : h'.cards = h.cards) (fromGen : Generation) (filter : PageFilter) :
    scannedSlots h' T fromGen filter = scannedSlots h T fromGen filter := by
  have hcells : ∀ card, cardCells h' T card = cardCells h T card := by
    intro card
    unfold cardCells cardLimit totalCells kindAt
    rw [hn, (hrole _).kind, cardWalkStart_congr hstart hrole]
  unfold scannedSlots scannedCards PageEvacuator.cardPassesFilter
  simp only [hn, hcards, hcells]

/-- The scan of the reservation presents the pointer cells its walks reach. -/
theorem scanReservationCards_presents (hE : Steady L T K e₀) (hS : Shape L e₀.heap T K)
    {filter : PageFilter}
    (hread : ∀ card ∈ scannedCards e₀.heap e₀.fromGen filter, ∀ x,
      (e₀.heap.kindAt x = .Large ∨ x / pageSizeCells = card / cardsPerPage) →
        Readable e₀.heap T K x) (slots : List Slot)
    (hscan : ∀ c, Slot.cell c ∈ slots → Scannable T c) :
    (e₀.visitSlots L slots).scanReservationCards L filter =
      .ok (e₀.visitSlots L (slots ++ scannedSlots e₀.heap T e₀.fromGen filter)) := by
  have hn : (e₀.visitSlots L slots).heap.nPages = e₀.heap.nPages := (hE slots hscan).nPages
  unfold PageEvacuator.scanReservationCards
  rw [hn]
  unfold scannedSlots scannedCards at *
  -- over a prefix of the card table, with what has been presented so far
  generalize List.range (e₀.heap.nPages * cardsPerPage) = cards at *
  clear hn
  induction cards generalizing slots with
  | nil =>
      rw [List.filter_nil, List.flatMap_nil, List.append_nil]
      rfl
  | cons card cards ih =>
      have hkept := hE slots hscan
      have hfilter : PageEvacuator.cardPassesFilter (e₀.visitSlots L slots).heap
          (e₀.visitSlots L slots).fromGen filter card =
            PageEvacuator.cardPassesFilter e₀.heap e₀.fromGen filter card := by
        unfold PageEvacuator.cardPassesFilter
        rw [hkept.nPages, hkept.fromGen]
      rw [List.foldlM_cons]
      rw [PageEvacuator.scanReservationCard_eq]
      rw [hkept.cards, hfilter]
      by_cases hpass : (e₀.heap.cards card &&
          PageEvacuator.cardPassesFilter e₀.heap e₀.fromGen filter card) = true
      · rw [List.filter_cons_of_pos (by exact hpass), List.flatMap_cons, ← List.append_assoc]
        rw [Bool.and_eq_true] at hpass
        rw [if_neg (by rw [hpass.1]; simp), if_neg (by rw [hpass.2]; simp)]
        have hcard := visitCardPointerCells_presents hE hS card
          (hread card (List.mem_filter.2 ⟨List.mem_cons_self, by rw [hpass.1, hpass.2]; rfl⟩))
          slots hscan
        unfold cardLimit at hcard
        rw [hcard]
        refine ih _ ?_ fun card' hmem => hread card' ?_
        · intro c hc
          rcases List.mem_append.1 hc with hold | hnew
          · exact hscan c hold
          · obtain ⟨x, hx, heq⟩ := List.mem_map.1 hnew
            cases heq
            exact cardCells_scannable hx
        · obtain ⟨hin, hp⟩ := List.mem_filter.1 hmem
          exact List.mem_filter.2 ⟨List.mem_cons_of_mem _ hin, hp⟩
      · rw [List.filter_cons_of_neg (by exact hpass)]
        have hskip : (if e₀.heap.cards card = false then
              (.ok (e₀.visitSlots L slots) : Except GcPanic PageEvacuator)
            else if PageEvacuator.cardPassesFilter e₀.heap e₀.fromGen filter card = false then
              .ok (e₀.visitSlots L slots)
            else (e₀.visitSlots L slots).visitCardPointerCells L (card * cardSizeCells)
              (min (card * cardSizeCells + cardSizeCells) (e₀.visitSlots L slots).heap.totalCells)) =
            .ok (e₀.visitSlots L slots) := by
          cases hc : e₀.heap.cards card with
          | false => rw [if_pos rfl]
          | true =>
              rw [hc, Bool.true_and] at hpass
              rw [if_neg (by simp), if_pos (Bool.eq_false_iff.2 hpass)]
        rw [hskip]
        refine ih slots hscan fun card' hmem => hread card' ?_
        obtain ⟨hin, hp⟩ := List.mem_filter.1 hmem
        exact List.mem_filter.2 ⟨List.mem_cons_of_mem _ hin, hp⟩

end Card

/-! ## The closures of the cycles -/

/-- The slots of the dirty cards of a static area. -/
def PageHeap.StaticArea.slots (area : StaticArea) : List Nat :=
  ((List.range ((area.cells + (cardSizeCells - 1)) / cardSizeCells)).filter area.cards).flatMap
    fun card => (List.range' (card * cardSizeCells)
      (min (card * cardSizeCells + cardSizeCells) area.cells - card * cardSizeCells)).map
        fun c => area.base + c * 8

theorem foldlM_tryVisit (L : HeapLayout) (e : PageEvacuator) (addrs : List Nat) :
    addrs.foldlM (PageEvacuator.tryVisit L) e = e.tryVisitSlots L (addrs.map Slot.ext) := by
  unfold PageEvacuator.tryVisitSlots
  rw [List.foldlM_map]
  rfl

theorem tryVisitSlots_append (L : HeapLayout) (e : PageEvacuator) (slots slots' : List Slot) :
    e.tryVisitSlots L (slots ++ slots') =
      e.tryVisitSlots L slots >>= fun e => e.tryVisitSlots L slots' := by
  unfold PageEvacuator.tryVisitSlots
  exact List.foldlM_append

theorem scanExternalCards_eq (L : HeapLayout) (area : StaticArea) (e : PageEvacuator) :
    e.scanExternalCards L area.cards area.base area.cells =
      e.tryVisitSlots L (area.slots.map Slot.ext) := by
  unfold PageEvacuator.scanExternalCards StaticArea.slots
  generalize List.range ((area.cells + (cardSizeCells - 1)) / cardSizeCells) = cards
  induction cards generalizing e with
  | nil => rfl
  | cons card cards ih =>
      rw [List.foldlM_cons]
      unfold PageEvacuator.scanExternalCard
      cases hc : area.cards card with
      | false =>
          rw [List.filter_cons_of_neg (by rw [hc]; simp)]
          exact ih e
      | true =>
          rw [List.filter_cons_of_pos (by rw [hc]), List.flatMap_cons, List.map_append,
            tryVisitSlots_append, if_pos rfl, ← foldlM_tryVisit, List.foldlM_map]
          exact congrArg _ (funext ih)

/-- The production closure is a card scan after a list of external slots. -/
theorem staticVisitor_eq (L : HeapLayout) (area : StaticArea) (roots : List Nat)
    (snapshot : Nat → PageDesc) : staticVisitor L area roots snapshot =
      withCardScan L (slotsVisitor L ((roots ++ area.slots).map Slot.ext)) snapshot := by
  funext e
  unfold staticVisitor withCardScan slotsVisitor
  rw [List.map_append, tryVisitSlots_append, foldlM_tryVisit, bind_assoc]
  exact congrArg _ (funext fun e => by rw [scanExternalCards_eq])

section Presented

variable {L : HeapLayout} {T : ObjTable} {K : Forwarding} {e₀ : PageEvacuator}

/-- A closure that presents the slots of a list. -/
def Shows (L : HeapLayout) (v : RootVisitor) (e : PageEvacuator) (T : ObjTable)
    (slots : List Slot) : Prop :=
  v e = .ok (e.visitSlots L slots) ∧ ∀ c, Slot.cell c ∈ slots → Scannable T c

theorem Shows.presents {v : RootVisitor} {slots : List Slot} (hv : Shows L v e₀ T slots)
    {must : Slot → Prop} (hmust : ∀ s, must s → s ∈ slots) : Presents L v e₀ T must :=
  ⟨slots, hv.1, hmust, hv.2⟩

/-- A closure that presents scannable slots shows them. -/
theorem Steady.shows (hE : Steady L T K e₀) {slots : List Slot}
    (hscan : ∀ c, Slot.cell c ∈ slots → Scannable T c) :
    Shows L (slotsVisitor L slots) e₀ T slots :=
  ⟨hE.tryVisitSlots_start hscan, hscan⟩

/-- A card scan after a closure presents the scanned slots too. -/
theorem Shows.withCardScan {v : RootVisitor} {slots : List Slot} (hv : Shows L v e₀ T slots)
    (hE : Steady L T K e₀) (hS : Shape L e₀.heap T K) {snapshot : Nat → PageDesc}
    (hread : ∀ card ∈ scannedCards e₀.heap e₀.fromGen (some snapshot), ∀ x,
      (e₀.heap.kindAt x = .Large ∨ x / pageSizeCells = card / cardsPerPage) →
        Readable e₀.heap T K x) :
    Shows L (withCardScan L v snapshot) e₀ T
      (slots ++ scannedSlots e₀.heap T e₀.fromGen (some snapshot)) := by
  refine ⟨?_, ?_⟩
  · have hscan := scanReservationCards_presents hE hS hread slots hv.2
    unfold NewGc.withCardScan
    rw [hv.1]
    exact hscan
  · intro c hc
    exact (List.mem_append.1 hc).elim (hv.2 c) scannedSlots_scannable

end Presented

end NewGc
