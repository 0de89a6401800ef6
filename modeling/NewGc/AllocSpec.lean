import NewGc.Pool
import NewGc.ShapeUpdates

/-!
# AllocSpec — what the allocators do to the heap

Every small allocation is a reservation of a range of cells on one page, the region's open page or a
free page opened for it, followed at most by a start bit.  `Reserved` records what a reservation
changes; a failed call changes nothing the collector reads.
-/

namespace NewGc

open PageHeap

/-- The fields no step of an evacuation touches once the marking is done. -/
structure SameControl (h h' : PageHeap) : Prop where
  base : h'.base = h.base
  nPages : h'.nPages = h.nPages
  markBits : h'.markBits = h.markBits
  hashOrder : h'.hashOrder = h.hashOrder
  pinnedCells : h'.pinnedCells = h.pinnedCells
  explicitPins : h'.explicitPins = h.explicitPins
  target : h'.recycleLiveCountsTarget = h.recycleLiveCountsTarget

theorem SameControl.refl (h : PageHeap) : SameControl h h := ⟨rfl, rfl, rfl, rfl, rfl, rfl, rfl⟩

theorem SameControl.trans {h h' h'' : PageHeap} (h₁ : SameControl h h') (h₂ : SameControl h' h'') :
    SameControl h h'' where
  base := h₂.base.trans h₁.base
  nPages := h₂.nPages.trans h₁.nPages
  markBits := h₂.markBits.trans h₁.markBits
  hashOrder := h₂.hashOrder.trans h₁.hashOrder
  pinnedCells := h₂.pinnedCells.trans h₁.pinnedCells
  explicitPins := h₂.explicitPins.trans h₁.explicitPins
  target := h₂.target.trans h₁.target

/-- Nothing the collector reads has changed: a failed allocation. -/
structure Untouched (h h' : PageHeap) : Prop where
  control : SameControl h h'
  cards : h'.cards = h.cards
  mem : h'.mem = h.mem
  descs : h'.descs = h.descs
  startBits : h'.startBits = h.startBits
  allocRegions : h'.allocRegions = h.allocRegions
  committed : h'.committed = h.committed

theorem Untouched.refl (h : PageHeap) : Untouched h h :=
  ⟨SameControl.refl h, rfl, rfl, rfl, rfl, rfl, rfl⟩

/-! ## Free pages -/

theorem popFreePage_free {h : PageHeap} {idx : Nat} (hpop : h.popFreePage.1 = some idx) :
    (h.descs idx).generation = .Free :=
  Pool.popped_free (P := h.pool) hpop

/-- A page taken from the free list. -/
structure Acquired (h h' : PageHeap) (g : Generation) (k : PageKind) (idx : Nat) : Prop where
  control : SameControl h h'
  cards : h'.cards = h.cards
  lt : idx < h.nPages
  free : (h.descs idx).generation = .Free
  descs : h'.descs = Function.update h.descs idx (PageDesc.fresh g k)
  allocRegions : h'.allocRegions = h.allocRegions
  start : ∀ c, c / pageSizeCells ≠ idx → h'.startBits c = h.startBits c
  clear : ∀ c, c / pageSizeCells = idx → h'.startBits c = .none
  mem : ∀ c, c / pageSizeCells ≠ idx → h'.mem c = h.mem c
  committed : ∀ q, q = idx ∨ h.committed q = true → h'.committed q = true

theorem acquireFreePage_none {h h' : PageHeap} {g : Generation} {k : PageKind}
    (hacq : h.acquireFreePage g k = (none, h')) : Untouched h h' := by
  unfold acquireFreePage at hacq
  cases hpop : h.popFreePage.1 with
  | none =>
      simp only [hpop] at hacq
      cases hacq
      exact ⟨⟨rfl, rfl, rfl, rfl, rfl, rfl, rfl⟩, rfl, rfl, rfl, rfl, rfl, rfl⟩
  | some idx =>
      simp only [hpop, commitPage] at hacq
      split at hacq
      · rename_i hcommit
        split at hcommit
        · cases hcommit
          cases hacq
          exact ⟨⟨rfl, rfl, rfl, rfl, rfl, rfl, rfl⟩, rfl, rfl, rfl, rfl, rfl, rfl⟩
        · split at hcommit
          · cases hcommit
          · split at hcommit
            · cases hcommit
            · cases hcommit
              cases hacq
              exact ⟨⟨rfl, rfl, rfl, rfl, rfl, rfl, rfl⟩, rfl, rfl, rfl, rfl, rfl, rfl⟩
      · cases hacq

/-- A granted commit changes the page it commits and nothing else. -/
theorem commitPage_some {h h' : PageHeap} {idx : Nat} {z : Bool}
    (hc : h.commitPage idx = (some z, h')) : idx < h.nPages ∧ SameControl h h' ∧
      h'.cards = h.cards ∧ h'.descs = h.descs ∧ h'.startBits = h.startBits ∧
      h'.allocRegions = h.allocRegions ∧ (∀ c, c / pageSizeCells ≠ idx → h'.mem c = h.mem c) ∧
      h'.committed = Function.update h.committed idx true := by
  unfold commitPage at hc
  split at hc
  · cases hc
  · rename_i hlt
    split at hc
    · rename_i hcommitted
      cases hc
      refine ⟨Nat.lt_of_not_le hlt, SameControl.refl h, rfl, rfl, rfl, rfl, fun _ _ => rfl, ?_⟩
      rw [← hcommitted, Function.update_eq_self]
    · split at hc
      · cases hc
        refine ⟨Nat.lt_of_not_le hlt, ⟨rfl, rfl, rfl, rfl, rfl, rfl, rfl⟩, rfl, rfl, rfl, rfl, ?_,
          rfl⟩
        intro c hne
        show (if c / pageSizeCells = idx then 0 else h.mem c) = h.mem c
        rw [if_neg hne]
      · cases hc

theorem acquireFreePage_some {h h' : PageHeap} {g : Generation} {k : PageKind} {idx : Nat}
    (hacq : h.acquireFreePage g k = (some idx, h')) : Acquired h h' g k idx := by
  unfold acquireFreePage at hacq
  cases hpop : h.popFreePage.1 with
  | none =>
      simp only [hpop] at hacq
      cases hacq
  | some i =>
      simp only [hpop] at hacq
      split at hacq
      · cases hacq
      · rename_i z h₁ hcommit
        obtain ⟨hlt, hcontrol, hcards, hdescs, hstart, hregions, hmem, hcommitted⟩ :=
          commitPage_some hcommit
        have hfree := popFreePage_free hpop
        simp only [Prod.mk.injEq, Option.some.injEq] at hacq
        obtain ⟨rfl, rfl⟩ := hacq
        refine ⟨?_, ?_, hlt, hfree, ?_, ?_, ?_, ?_, ?_, ?_⟩
        · refine SameControl.trans (SameControl.trans ?_ hcontrol) ?_
          · exact ⟨rfl, rfl, rfl, rfl, rfl, rfl, rfl⟩
          · split <;> exact ⟨rfl, rfl, rfl, rfl, rfl, rfl, rfl⟩
        · split <;> simp [clearPageStartBits, setDesc, zeroWholePage, hcards]
        · split <;> simp [clearPageStartBits, setDesc, zeroWholePage, hdescs]
        · split <;> simp [clearPageStartBits, setDesc, zeroWholePage, hregions]
        · intro c hne
          split <;> simp [clearPageStartBits, setDesc, zeroWholePage, hne, hstart]
        · intro c heq
          split <;> simp [clearPageStartBits, setDesc, zeroWholePage, heq]
        · intro c hne
          split <;> simp [clearPageStartBits, setDesc, zeroWholePage, hne, hmem c hne]
        · intro q hq
          have hq' : h₁.committed q = true := by
            rw [hcommitted]
            by_cases heq : q = i
            · subst heq
              exact Function.update_self ..
            · exact (Function.update_of_ne heq ..).trans (hq.resolve_left heq)
          split <;> exact hq'

/-! ## Reservations -/

/-- The open page of a region: its generation, its kind, and the region's offset is the high-water
mark of the page. -/
def RegionOk (h : PageHeap) (g : Generation) (k : PageKind) : Prop :=
  ∀ p, (h.allocRegions g k).currentPage = some p →
    (h.descs p).generation = g ∧ (h.descs p).kind = k ∧
      (h.descs p).wordsUsed = (h.allocRegions g k).offset ∧ g ≠ .Free ∧ (k = .Cons ∨ k = .Boxed)

def RegionsOk (h : PageHeap) : Prop := ∀ g k, RegionOk h g k

/-- Cells `[cell, cell + n)` were reserved for the region `(g, k)`. -/
structure Reserved (h h' : PageHeap) (g : Generation) (k : PageKind) (cell n : Nat) : Prop where
  control : SameControl h h'
  cards : h'.cards = h.cards
  lt : cell / pageSizeCells < h.nPages
  fits : cell % pageSizeCells + n ≤ pageSizeCells
  descs : h'.descs = Function.update h.descs (cell / pageSizeCells) (h'.descs (cell / pageSizeCells))
  generation : h'.genAt cell = g
  kind : h'.kindAt cell = k
  used : (h'.descs (cell / pageSizeCells)).wordsUsed = cell % pageSizeCells + n
  source : (h.genAt cell = .Free ∧ cell % pageSizeCells = 0 ∧
      (h'.descs (cell / pageSizeCells)).pinByte = 0) ∨
    (h.genAt cell = g ∧ h.kindAt cell = k ∧
      (h.allocRegions g k).currentPage = some (cell / pageSizeCells) ∧
      (h.descs (cell / pageSizeCells)).wordsUsed = cell % pageSizeCells ∧
      (h'.descs (cell / pageSizeCells)).pinByte = (h.descs (cell / pageSizeCells)).pinByte ∧
      (h'.descs (cell / pageSizeCells)).nSpan = (h.descs (cell / pageSizeCells)).nSpan)
  region : h'.allocRegions g k =
    { currentPage := some (cell / pageSizeCells), offset := cell % pageSizeCells + n }
  otherRegion : ∀ g' k', (g', k') ≠ (g, k) → h'.allocRegions g' k' = h.allocRegions g' k'
  start : ∀ c, h.genAt c ≠ .Free → h'.startBits c = h.startBits c
  clear : ∀ c, c / pageSizeCells = cell / pageSizeCells → h.genAt c = .Free →
    h'.startBits c = .none
  mem : ∀ c, h.genAt c ≠ .Free → h'.mem c = h.mem c
  committed : ∀ q, (h.genAt cell = .Free ∧ q = cell / pageSizeCells) ∨ h.committed q = true →
    h'.committed q = true

/-- Advance a region's open page by `n` cells. -/
def advanceRegion (h : PageHeap) (g : Generation) (k : PageKind) (page off n : Nat) : PageHeap :=
  (h.setAllocRegion g k { currentPage := some page, offset := off + n }).modifyDesc page fun d =>
    { d with wordsUsed := saturatingAddU16 d.wordsUsed n }

@[simp] theorem setAllocRegion_self (h : PageHeap) (g : Generation) (k : PageKind)
    (r : AllocRegion) : (h.setAllocRegion g k r).allocRegions g k = r := by
  simp [setAllocRegion]

theorem setAllocRegion_other (h : PageHeap) {g g' : Generation} {k k' : PageKind}
    (r : AllocRegion) (hne : (g', k') ≠ (g, k)) :
    (h.setAllocRegion g k r).allocRegions g' k' = h.allocRegions g' k' := by
  unfold setAllocRegion
  by_cases hg : g' = g
  · subst hg
    have hk : k' ≠ k := by
      rintro rfl
      exact hne rfl
    simp [hk]
  · simp [hg]

theorem saturatingAddU16_eq {a n : Nat} (h : a + n ≤ pageSizeCells) :
    saturatingAddU16 a n = a + n := by
  unfold saturatingAddU16 pageSizeCells at *
  omega

/-- The open page has room. -/
theorem Reserved.of_open {h : PageHeap} {g : Generation} {k : PageKind} {p n : Nat}
    (hP : PagesOk h) (hR : RegionOk h g k) (hp : (h.allocRegions g k).currentPage = some p)
    (hroom : (h.allocRegions g k).offset + n ≤ pageSizeCells)
    (hlt' : (h.allocRegions g k).offset < pageSizeCells) :
    Reserved h (advanceRegion h g k p (h.allocRegions g k).offset n) g k
      (p * pageSizeCells + (h.allocRegions g k).offset) n := by
  obtain ⟨hgen, hkind, hused, hg, -⟩ := hR p hp
  have hlt : p < h.nPages := hP.page_lt (by rw [hgen]; exact hg)
  generalize hoff : (h.allocRegions g k).offset = off at *
  have hdiv : (p * pageSizeCells + off) / pageSizeCells = p := by
    unfold pageSizeCells at *
    omega
  have hmod : (p * pageSizeCells + off) % pageSizeCells = off := by
    unfold pageSizeCells at *
    omega
  have hself : (advanceRegion h g k p off n).descs p =
      { h.descs p with wordsUsed := off + n } := by
    simp [advanceRegion, modifyDesc, setDesc, setAllocRegion, hused, saturatingAddU16_eq hroom]
  refine ⟨⟨rfl, rfl, rfl, rfl, rfl, rfl, rfl⟩, rfl, ?_, ?_, ?_, ?_, ?_, ?_, Or.inr ?_, ?_, ?_, ?_, ?_,
    ?_, ?_⟩
  · rw [hdiv]; exact hlt
  · rw [hmod]; exact hroom
  · rw [hdiv, hself]
    simp [advanceRegion, modifyDesc, setDesc, setAllocRegion, hused, saturatingAddU16_eq hroom]
  · unfold genAt
    rw [hdiv, hself]
    exact hgen
  · unfold kindAt
    rw [hdiv, hself]
    exact hkind
  · rw [hdiv, hmod, hself]
  · unfold genAt kindAt
    rw [hdiv, hmod, hself]
    exact ⟨hgen, hkind, hp, hused, rfl, rfl⟩
  · rw [hdiv, hmod]
    exact setAllocRegion_self h g k _
  · intro g' k' hne
    exact setAllocRegion_other h _ hne
  · intro c _
    rfl
  · intro c hc hfree
    rw [hdiv] at hc
    unfold genAt at hfree
    rw [hc, hgen] at hfree
    exact absurd hfree hg
  · intro c _
    rfl
  · rintro q (⟨hfree, -⟩ | hq)
    · unfold genAt at hfree
      rw [hdiv, hgen] at hfree
      exact absurd hfree hg
    · exact hq

/-- A page is opened for the reservation. -/
theorem Reserved.of_acquired {h h₁ : PageHeap} {g : Generation} {k : PageKind} {p n : Nat}
    (hA : Acquired h h₁ g k p) (hroom : n ≤ pageSizeCells) :
    Reserved h (advanceRegion (h₁.setAllocRegion g k { currentPage := some p, offset := 0 }) g k p 0 n)
      g k (p * pageSizeCells) n := by
  have hdiv : p * pageSizeCells / pageSizeCells = p := by
    unfold pageSizeCells
    omega
  have hmod : p * pageSizeCells % pageSizeCells = 0 := by
    unfold pageSizeCells
    omega
  have hself : (advanceRegion (h₁.setAllocRegion g k { currentPage := some p, offset := 0 }) g k p 0
      n).descs p = { PageDesc.fresh g k with wordsUsed := n } := by
    simp [advanceRegion, modifyDesc, setDesc, setAllocRegion, hA.descs, PageDesc.fresh,
      saturatingAddU16_eq (show 0 + n ≤ pageSizeCells by omega)]
  have hne : ∀ c, h.genAt c ≠ .Free → c / pageSizeCells ≠ p := by
    intro c hlive hc
    apply hlive
    unfold genAt
    rw [hc]
    exact hA.free
  refine ⟨?_, hA.cards, ?_, ?_, ?_, ?_, ?_, ?_, Or.inl ?_, ?_, ?_, ?_, ?_, ?_, ?_⟩
  · exact hA.control.trans ⟨rfl, rfl, rfl, rfl, rfl, rfl, rfl⟩
  · rw [hdiv]; exact hA.lt
  · rw [hmod]; omega
  · rw [hdiv, hself]
    simp [advanceRegion, modifyDesc, setDesc, setAllocRegion, hA.descs, PageDesc.fresh,
      saturatingAddU16_eq (show 0 + n ≤ pageSizeCells by omega)]
  · unfold genAt
    rw [hdiv, hself]
    rfl
  · unfold kindAt
    rw [hdiv, hself]
    rfl
  · rw [hdiv, hmod, hself]
    exact (Nat.zero_add n).symm
  · unfold genAt
    rw [hdiv, hmod, hself]
    exact ⟨hA.free, rfl, rfl⟩
  · rw [hdiv, hmod]
    exact setAllocRegion_self _ g k _
  · intro g' k' hne'
    show (PageHeap.setAllocRegion (h₁.setAllocRegion g k _) g k _).allocRegions g' k' = _
    rw [setAllocRegion_other _ _ hne', setAllocRegion_other _ _ hne', hA.allocRegions]
  · intro c hlive
    exact hA.start c (hne c hlive)
  · intro c hc _
    rw [hdiv] at hc
    exact hA.clear c hc
  · intro c hlive
    exact hA.mem c (hne c hlive)
  · intro q hq
    rw [hdiv] at hq
    exact hA.committed q (hq.imp_left And.right)

namespace Reserved

variable {L : HeapLayout} {h h' : PageHeap} {T : ObjTable} {K : Forwarding} {g : Generation}
  {k : PageKind} {cell n : Nat}

/-- A reservation has its backing. -/
theorem backing (hV : Reserved h h' g k cell n) (hS : Shape L h T K) : h'.Backing where
  live := fun q hlive => by
    apply hV.committed
    by_cases hq : q = cell / pageSizeCells
    · by_cases hfree : h.genAt cell = .Free
      · exact Or.inl ⟨hfree, hq⟩
      · rw [hq]
        exact Or.inr (hS.pages.backing.live _ hfree)
    · rw [hV.descs, Function.update_of_ne hq] at hlive
      exact Or.inr (hS.pages.backing.live q hlive)
  dirty := fun k hk => by
    rw [hV.cards] at hk
    exact hV.committed _ (Or.inr (hS.pages.backing.dirty k hk))

/-- A reservation keeps the table. -/
theorem shape (hV : Reserved h h' g k cell n) (hS : Shape L h T K) (hg : g ≠ .Free)
    (hk : k = .Cons ∨ k = .Boxed) : Shape L h' T K := by
  refine hS.claimPage hV.control.base hV.control.nPages hV.descs hV.lt ?_ ?_ ?_ ?_ hV.start hV.clear
    hV.mem (hV.backing hS)
  · have hgen := hV.generation
    unfold genAt at hgen
    rw [hgen]
    exact hg
  · have hkind := hV.kind
    unfold kindAt at hkind
    rw [hkind]
    exact hk
  · rw [hV.used]
    exact hV.fits
  · rcases hV.source with ⟨hfree, -, -⟩ | ⟨-, hkind, -, hused, -, hspan⟩
    · exact Or.inl hfree
    · refine Or.inr ⟨?_, hspan, ?_⟩
      · exact hV.kind.trans hkind.symm
      · rw [hused, hV.used]
        omega

/-- The reserved cells hold no object. -/
theorem gap (hV : Reserved h h' g k cell n) (hS : Shape L h T K) (hk : k = .Cons ∨ k = .Boxed) :
    Shape.Gap T cell n := by
  intro c o hc
  have hlive := hS.live hc
  have hfits := hV.fits
  by_cases hpage : c / pageSizeCells = cell / pageSizeCells
  · rcases hV.source with ⟨hfree, -, -⟩ | ⟨-, hkind, -, hused, -, -⟩
    · unfold genAt at hfree hlive
      rw [hpage] at hlive
      exact absurd hfree hlive
    · have hsmall : h.kindAt c ≠ .Large := by
        unfold kindAt at hkind ⊢
        rw [hpage, hkind]
        rcases hk with hk | hk <;> rw [hk] <;> simp
      have hin := (hS.obj c o hc).small hsmall
      rw [hpage, hused] at hin
      left
      unfold pageSizeCells at *
      omega
  · rcases hS.cell_page hc (i := o.totalCells - 1) (by have := (hS.wf hc).pos; omega) with
      ⟨hsmall, hpg⟩ | ⟨hlarge, j, hpg, hj⟩
    · have := (hS.wf hc).pos
      unfold pageSizeCells at *
      omega
    · have hpos := (hS.wf hc).pos
      by_contra hmeet
      push Not at hmeet
      obtain ⟨h1, h2⟩ := hmeet
      have hmod := ((hS.obj c o hc).large hlarge).1
      have hlt : c / pageSizeCells < cell / pageSizeCells := by
        unfold pageSizeCells at *
        omega
      have hrun := hS.pages.run _ (cell / pageSizeCells - c / pageSizeCells) hlarge (by omega) (by
        unfold pageSizeCells at *
        omega)
      rw [Nat.add_sub_cancel' (Nat.le_of_lt hlt)] at hrun
      rcases hV.source with ⟨hfree, -, -⟩ | ⟨-, hkind, -, -, -, -⟩
      · have := hrun.2.2
        unfold genAt at hfree hlive
        rw [hfree] at this
        exact hlive this.symm
      · unfold kindAt at hkind
        rw [hrun.1] at hkind
        rcases hk with hk | hk <;> rw [hk] at hkind <;> cases hkind

theorem regions (hV : Reserved h h' g k cell n) (hR : RegionsOk h) (hg : g ≠ .Free)
    (hk : k = .Cons ∨ k = .Boxed) : RegionsOk h' := by
  intro g' k' p hp
  by_cases heq : (g', k') = (g, k)
  · cases heq
    rw [hV.region] at hp ⊢
    cases hp
    exact ⟨hV.generation, hV.kind, hV.used, hg, hk⟩
  · rw [hV.otherRegion g' k' heq] at hp ⊢
    obtain ⟨hgen, hkind, hused, hg', hk'⟩ := hR g' k' p hp
    have hne : p ≠ cell / pageSizeCells := by
      rintro rfl
      rcases hV.source with ⟨hfree, -, -⟩ | ⟨hgen₀, hkind₀, -, -, -, -⟩
      · unfold genAt at hfree
        rw [hgen] at hfree
        exact hg' hfree
      · unfold genAt at hgen₀
        unfold kindAt at hkind₀
        apply heq
        rw [← hgen, ← hkind, hgen₀, hkind₀]
    rw [hV.descs, Function.update_of_ne hne]
    exact ⟨hgen, hkind, hused, hg', hk'⟩

end Reserved

/-! ## The allocators -/

/-- The bump within the open page: a reservation, a start bit, the allocation counter. -/
theorem tryBumpInCurrent_eq (h : PageHeap) (g : Generation) (k : PageKind) (n : Nat)
    (isCons : Bool) : h.tryBumpInCurrent g k n isCons =
      (h.allocRegions g k).currentPage.bind fun p =>
        if (h.allocRegions g k).offset + n > pageSizeCells then none
        else
          let cell := p * pageSizeCells + (h.allocRegions g k).offset
          let h' := advanceRegion h g k p (h.allocRegions g k).offset n
          let h' := if isCons then h'.setConsStartBitAt cell else h'.setStartBitAt cell
          some (cell, { h' with bytesAllocSinceGc := h'.bytesAllocSinceGc + n * 8 }) := by
  unfold tryBumpInCurrent
  cases hp : (h.allocRegions g k).currentPage with
  | none => simp [hp]
  | some p => simp [hp, advanceRegion]

/-- Set the start pair of a fresh object. -/
def markStart (h : PageHeap) (cell : Nat) (isCons : Bool) : PageHeap :=
  if isCons then h.setConsStartBitAt cell else h.setStartBitAt cell

/-- A heap with another allocation counter. -/
def countBytes (h : PageHeap) (n : Nat) : PageHeap :=
  { h with bytesAllocSinceGc := h.bytesAllocSinceGc + n * 8 }

/-- The bump of a slab: no start bit is set. -/
theorem tryBumpG0Mixed_eq (h : PageHeap) (n : Nat) : h.tryBumpG0Mixed n =
    (h.allocRegions .G0 .Boxed).currentPage.bind fun p =>
      if (h.allocRegions .G0 .Boxed).offset + n > pageSizeCells then none
      else
        some (p * pageSizeCells + (h.allocRegions .G0 .Boxed).offset,
          countBytes (advanceRegion h .G0 .Boxed p (h.allocRegions .G0 .Boxed).offset n) n) := by
  unfold tryBumpG0Mixed
  cases hp : (h.allocRegions .G0 .Boxed).currentPage with
  | none => simp [hp]
  | some p => simp [hp, advanceRegion, countBytes]

/-- The carving of a buffer: neither a start bit nor the counter. -/
theorem carveTlabInCurrent_eq (h : PageHeap) (g : Generation) (k : PageKind) (want : Nat) :
    h.carveTlabInCurrent g k want = (h.allocRegions g k).currentPage.bind fun p =>
      let off := (h.allocRegions g k).offset
      if pageSizeCells - off = 0 then none
      else
        some ((p * pageSizeCells + off, min want (pageSizeCells - off)),
          advanceRegion h g k p off (min want (pageSizeCells - off))) := by
  unfold carveTlabInCurrent
  cases hp : (h.allocRegions g k).currentPage with
  | none => simp [hp]
  | some p => simp [hp, advanceRegion]

/-- A small allocation: the reservation and then the start bit. -/
structure Allocated (h h' : PageHeap) (g : Generation) (k : PageKind) (cell n : Nat)
    (isCons : Bool) (h₁ : PageHeap) : Prop where
  reserved : Reserved h h₁ g k cell n
  result : h' = countBytes (markStart h₁ cell isCons) n

theorem tryBumpInCurrent_some {h h' : PageHeap} {g : Generation} {k : PageKind} {n cell : Nat}
    {isCons : Bool} (hP : PagesOk h) (hR : RegionOk h g k) (hn : 1 ≤ n)
    (hbump : h.tryBumpInCurrent g k n isCons = some (cell, h')) :
    ∃ h₁, Allocated h h' g k cell n isCons h₁ := by
  rw [tryBumpInCurrent_eq] at hbump
  cases hp : (h.allocRegions g k).currentPage with
  | none => simp [hp] at hbump
  | some p =>
      rw [hp, Option.bind_some] at hbump
      split at hbump
      · cases hbump
      · rename_i hroom
        cases hbump
        exact ⟨_, Reserved.of_open hP hR hp (by omega) (by omega), rfl⟩

theorem tryAllocInRegion_some {h h' : PageHeap} {g : Generation} {k : PageKind} {n cell : Nat}
    {isCons : Bool} (hP : PagesOk h) (hR : RegionOk h g k) (hn : 1 ≤ n)
    (halloc : h.tryAllocInRegion g k n isCons = (some cell, h')) :
    ∃ h₁, Allocated h h' g k cell n isCons h₁ := by
  unfold tryAllocInRegion at halloc
  split at halloc
  · cases halloc
  · split at halloc
    · rename_i c h₂ hbump
      cases halloc
      exact tryBumpInCurrent_some hP hR hn hbump
    · split at halloc
      · cases halloc
      · split at halloc
        · cases halloc
        · rename_i p h₂ hacq
          have hA := acquireFreePage_some hacq
          dsimp only at halloc
          rw [tryBumpInCurrent_eq, setAllocRegion_self, Option.bind_some] at halloc
          by_cases hroom : n ≤ pageSizeCells
          · rw [if_neg (by simp only [Nat.zero_add]; omega)] at halloc
            cases halloc
            exact ⟨_, by simpa using Reserved.of_acquired hA hroom, rfl⟩
          · rw [if_pos (by simp only [Nat.zero_add]; omega)] at halloc
            cases halloc

theorem tryAllocInRegion_none {h h' : PageHeap} {g : Generation} {k : PageKind} {n : Nat}
    {isCons : Bool} (hn : n ≤ pageSizeCells)
    (halloc : h.tryAllocInRegion g k n isCons = (none, h')) : Untouched h h' := by
  unfold tryAllocInRegion at halloc
  split at halloc
  · cases halloc
    exact Untouched.refl h
  · split at halloc
    · cases halloc
    · split at halloc
      · cases halloc
        exact Untouched.refl h
      · split at halloc
        · rename_i h₂ hacq
          cases halloc
          exact acquireFreePage_none hacq
        · rename_i p h₂ hacq
          dsimp only at halloc
          rw [tryBumpInCurrent_eq, setAllocRegion_self, Option.bind_some,
            if_neg (by simp only [Nat.zero_add]; omega)] at halloc
          cases halloc

/-! ## Large runs -/

/-- The scan finds a run of free pages.  `runLen` pages before the cursor are known to be free. -/
theorem findContiguousFreePages_go {h : PageHeap} {n start : Nat} (hn : 1 ≤ n) :
    ∀ m i runStart runLen,
      (∀ j, i - runLen ≤ j → j < i → (h.descs j).generation = .Free) → runLen ≤ i →
      (runLen ≠ 0 → runStart = i - runLen) → runLen < n →
      findContiguousFreePages.go h n (List.range' i m) runStart runLen = some start →
      start + n ≤ i + m ∧ ∀ j, start ≤ j → j < start + n → (h.descs j).generation = .Free := by
  intro m
  induction m with
  | zero =>
      intro i runStart runLen _ _ _ _ hgo
      cases hgo
  | succ m ih =>
      intro i runStart runLen hfree hle hstart hlt hgo
      rw [List.range'_succ, findContiguousFreePages.go] at hgo
      by_cases hi : (h.descs i).generation = .Free
      · rw [if_pos hi] at hgo
        have hrun : ∀ j, i + 1 - (runLen + 1) ≤ j → j < i + 1 → (h.descs j).generation = .Free := by
          intro j hj hji
          by_cases heq : j = i
          · rw [heq]
            exact hi
          · exact hfree j (by omega) (by omega)
        have hstart' : (if runLen = 0 then i else runStart) = i + 1 - (runLen + 1) := by
          by_cases hz : runLen = 0
          · rw [if_pos hz]
            omega
          · rw [if_neg hz, hstart hz]
            omega
        rw [hstart'] at hgo
        by_cases hdone : n ≤ runLen + 1
        · rw [if_pos hdone] at hgo
          cases hgo
          exact ⟨by omega, fun j hj hjn => hrun j hj (by omega)⟩
        · rw [if_neg hdone] at hgo
          have := ih (i + 1) _ (runLen + 1) hrun (by omega) (fun _ => rfl) (by omega) hgo
          exact ⟨by omega, this.2⟩
      · rw [if_neg hi] at hgo
        have := ih (i + 1) runStart 0 (by intro j hj hji; omega) (by omega) (by simp) (by omega) hgo
        exact ⟨by omega, this.2⟩

theorem findContiguousFreePages_free {h : PageHeap} {n start : Nat} (hn : 1 ≤ n)
    (hfind : h.findContiguousFreePages n = some start) : start + n ≤ h.nPages ∧
      ∀ j, start ≤ j → j < start + n → (h.descs j).generation = .Free := by
  unfold findContiguousFreePages at hfind
  rw [List.range_eq_range'] at hfind
  have := findContiguousFreePages_go hn h.nPages 0 0 0 (by intro j _ hj; omega) le_rfl (by simp)
    (by omega) hfind
  exact ⟨by omega, this.2⟩

/-- A refused commit changes nothing the collector reads. -/
theorem commitPage_none {h h' : PageHeap} {idx : Nat} (hc : h.commitPage idx = (none, h')) :
    Untouched h h' := by
  unfold commitPage at hc
  split at hc
  · cases hc
    exact Untouched.refl h
  · split at hc
    · cases hc
    · split at hc
      · cases hc
      · cases hc
        exact ⟨⟨rfl, rfl, rfl, rfl, rfl, rfl, rfl⟩, rfl, rfl, rfl, rfl, rfl, rfl⟩

/-- Descriptor of page `i` of a large run. -/
def largeDesc (g : Generation) (n i : Nat) : PageDesc :=
  { PageDesc.fresh g .Large with
    wordsUsed := pageSizeCells
    nSpan := if i = 0 then n % 65536 else 0 }

/-- Page `p` is one of the pages `start + i`, `i ∈ l`. -/
def InRun (start : Nat) (l : List Nat) (p : Nat) : Prop := start ≤ p ∧ p - start ∈ l

instance (start : Nat) (l : List Nat) (p : Nat) : Decidable (InRun start l p) :=
  inferInstanceAs (Decidable (_ ∧ _))

/-- The pages of a run were committed and stamped. -/
structure Stamped (g : Generation) (start n : Nat) (l : List Nat) (h h' : PageHeap) : Prop where
  control : SameControl h h'
  cards : h'.cards = h.cards
  allocRegions : h'.allocRegions = h.allocRegions
  lt : ∀ i ∈ l, start + i < h.nPages
  descs : ∀ p, h'.descs p = if InRun start l p then largeDesc g n (p - start) else h.descs p
  startBits : ∀ c, h'.startBits c =
    if InRun start l (c / pageSizeCells) then .none else h.startBits c
  mem : ∀ c, ¬ InRun start l (c / pageSizeCells) → h'.mem c = h.mem c
  committed : ∀ p, h'.committed p = if InRun start l p then true else h.committed p

namespace Stamped

variable {g : Generation} {start n : Nat} {h h' h'' : PageHeap}

theorem nil (hU : Untouched h h') : Stamped g start n [] h h' where
  control := hU.control
  cards := hU.cards
  allocRegions := hU.allocRegions
  lt := by intro i hi; cases hi
  descs := by intro p; rw [if_neg (by rintro ⟨_, hm⟩; cases hm), hU.descs]
  startBits := by intro c; rw [if_neg (by rintro ⟨_, hm⟩; cases hm), hU.startBits]
  mem := by intro c _; rw [hU.mem]
  committed := by intro p; rw [if_neg (by rintro ⟨_, hm⟩; cases hm), hU.committed]

theorem inRun_cons {i : Nat} {l : List Nat} {p : Nat} :
    InRun start (i :: l) p ↔ p = start + i ∨ InRun start l p := by
  unfold InRun
  rw [List.mem_cons]
  constructor
  · rintro ⟨hle, hm | hm⟩
    · exact Or.inl (by omega)
    · exact Or.inr ⟨hle, hm⟩
  · rintro (heq | ⟨hle, hm⟩)
    · exact ⟨by omega, Or.inl (by omega)⟩
    · exact ⟨hle, Or.inr hm⟩

/-- One more page in front. -/
theorem cons {i : Nat} {l : List Nat} (hcontrol : SameControl h h') (hcards : h'.cards = h.cards)
    (hregions : h'.allocRegions = h.allocRegions) (hlt : start + i < h.nPages)
    (hdescs : h'.descs = Function.update h.descs (start + i) (largeDesc g n i))
    (hstart : ∀ c, h'.startBits c = if c / pageSizeCells = start + i then .none else h.startBits c)
    (hmem : ∀ c, c / pageSizeCells ≠ start + i → h'.mem c = h.mem c)
    (hcommitted : h'.committed = Function.update h.committed (start + i) true)
    (hrest : Stamped g start n l h' h'') : Stamped g start n (i :: l) h h'' where
  control := hcontrol.trans hrest.control
  cards := hrest.cards.trans hcards
  allocRegions := hrest.allocRegions.trans hregions
  lt := by
    intro j hj
    rcases List.mem_cons.1 hj with rfl | hj
    · exact hlt
    · rw [← hcontrol.nPages]
      exact hrest.lt j hj
  descs := by
    intro p
    rw [hrest.descs]
    by_cases hin : InRun start l p
    · rw [if_pos hin, if_pos (inRun_cons.2 (Or.inr hin))]
    · rw [if_neg hin, hdescs]
      by_cases heq : p = start + i
      · rw [if_pos (inRun_cons.2 (Or.inl heq)), heq, Function.update_self, Nat.add_sub_cancel_left]
      · rw [if_neg (by rw [inRun_cons]; simp [heq, hin]), Function.update_of_ne heq]
  startBits := by
    intro c
    rw [hrest.startBits, hstart]
    by_cases hin : InRun start l (c / pageSizeCells)
    · rw [if_pos hin, if_pos (inRun_cons.2 (Or.inr hin))]
    · rw [if_neg hin]
      by_cases heq : c / pageSizeCells = start + i
      · rw [if_pos heq, if_pos (inRun_cons.2 (Or.inl heq))]
      · rw [if_neg heq, if_neg (by rw [inRun_cons]; simp [heq, hin])]
  mem := by
    intro c hc
    rw [inRun_cons] at hc
    push Not at hc
    rw [hrest.mem c hc.2, hmem c hc.1]
  committed := by
    intro p
    rw [hrest.committed]
    by_cases hin : InRun start l p
    · rw [if_pos hin, if_pos (inRun_cons.2 (Or.inr hin))]
    · rw [if_neg hin, hcommitted]
      by_cases heq : p = start + i
      · rw [if_pos (inRun_cons.2 (Or.inl heq)), heq, Function.update_self]
      · rw [if_neg (by rw [inRun_cons]; simp [heq, hin]), Function.update_of_ne heq]

end Stamped

/-- The stamping loop covers a prefix of the run, all of it when it succeeds. -/
theorem stampLargePages_stamped {g : Generation} {start n : Nat} :
    ∀ (l : List Nat) (h : PageHeap) {b : Bool} {h' : PageHeap},
      stampLargePages g start n l h = (b, h') →
      ∃ l', l' <+: l ∧ Stamped g start n l' h h' ∧ (b = true → l' = l) := by
  intro l
  induction l with
  | nil =>
      intro h b h' hs
      cases hs
      exact ⟨[], List.prefix_refl _, Stamped.nil (Untouched.refl h), fun _ => rfl⟩
  | cons i rest ih =>
      intro h b h' hs
      unfold stampLargePages at hs
      dsimp only at hs
      split at hs
      · rename_i h₁ hcommit
        cases hs
        exact ⟨[], List.nil_prefix, Stamped.nil (commitPage_none hcommit), by intro hb; cases hb⟩
      · rename_i z h₁ hcommit
        obtain ⟨hlt, hcontrol, hcards, hdescs, hstart, hregions, hmem, hcommitted⟩ :=
          commitPage_some hcommit
        obtain ⟨l', hpre, hst, hall⟩ := ih _ hs
        refine ⟨i :: l', (List.cons_prefix_cons).2 ⟨rfl, hpre⟩, ?_, fun hb => by rw [hall hb]⟩
        refine Stamped.cons ?_ ?_ ?_ hlt ?_ ?_ ?_ ?_ hst
        · refine SameControl.trans hcontrol ?_
          split <;> exact ⟨rfl, rfl, rfl, rfl, rfl, rfl, rfl⟩
        · split <;> simp [clearPageStartBits, setDesc, zeroWholePage, hcards]
        · split <;> simp [clearPageStartBits, setDesc, zeroWholePage, hregions]
        · split <;> simp [clearPageStartBits, setDesc, zeroWholePage, hdescs, largeDesc]
        · intro c
          split <;> simp [clearPageStartBits, setDesc, zeroWholePage, hstart]
        · intro c hne
          split <;> simp [clearPageStartBits, setDesc, zeroWholePage, hne, hmem c hne]
        · split <;> exact hcommitted

end NewGc
