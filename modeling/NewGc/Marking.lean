import NewGc.Library.Worklist
import NewGc.Loop

/-!
# Marking — what the markers mark

Both markers are graph searches: `Library.Search` with the mark bits as the seen set.  The target of
a word is what marking it marks; the successors of an object are the targets of its pointer cells.
Besides mark bits, marking touches only the pins of large runs.
-/

namespace NewGc

open Library PageHeap

/-! ## The frame of a marker -/

/-- The objects, their words and the roles of the pages are the same. -/
structure SameObjects (h h' : PageHeap) : Prop where
  base : h'.base = h.base
  nPages : h'.nPages = h.nPages
  mem : h'.mem = h.mem
  startBits : h'.startBits = h.startBits
  role : ∀ q, (h.descs q).SameRole (h'.descs q)
  committed : h'.committed = h.committed
  cards : h'.cards = h.cards

namespace SameObjects

variable {h h' h'' : PageHeap}

theorem refl (h : PageHeap) : SameObjects h h :=
  ⟨rfl, rfl, rfl, rfl, fun _ => PageDesc.SameRole.refl _, rfl, rfl⟩

theorem trans (h₁ : SameObjects h h') (h₂ : SameObjects h' h'') : SameObjects h h'' where
  base := h₂.base.trans h₁.base
  nPages := h₂.nPages.trans h₁.nPages
  mem := h₂.mem.trans h₁.mem
  startBits := h₂.startBits.trans h₁.startBits
  role := fun q => ⟨(h₂.role q).generation.trans (h₁.role q).generation,
    (h₂.role q).kind.trans (h₁.role q).kind, (h₂.role q).wordsUsed.trans (h₁.role q).wordsUsed,
    (h₂.role q).nSpan.trans (h₁.role q).nSpan⟩
  committed := h₂.committed.trans h₁.committed
  cards := h₂.cards.trans h₁.cards

theorem generation (hM : SameObjects h h') (q : Nat) :
    (h'.descs q).generation = (h.descs q).generation := (hM.role q).generation

theorem kind (hM : SameObjects h h') (q : Nat) : (h'.descs q).kind = (h.descs q).kind :=
  (hM.role q).kind

theorem nSpan (hM : SameObjects h h') (q : Nat) : (h'.descs q).nSpan = (h.descs q).nSpan :=
  (hM.role q).nSpan

theorem genAt (hM : SameObjects h h') (c : Nat) : h'.genAt c = h.genAt c := hM.generation _

theorem kindAt (hM : SameObjects h h') (c : Nat) : h'.kindAt c = h.kindAt c := hM.kind _

theorem totalCells (hM : SameObjects h h') : h'.totalCells = h.totalCells := by
  unfold PageHeap.totalCells
  rw [hM.nPages]

theorem shape {L : HeapLayout} {T : ObjTable} {K : Forwarding} (hM : SameObjects h h')
    (hS : Shape L h T K) : Shape L h' T K :=
  hS.congr hM.base hM.nPages hM.role hM.startBits hM.mem hM.committed
    fun k hk => Or.inl (by rwa [hM.cards] at hk)

theorem regions (hM : SameObjects h h') (hregions : h'.allocRegions = h.allocRegions)
    (hR : RegionsOk h) : RegionsOk h' := by
  intro g k q hq
  rw [hregions] at hq ⊢
  obtain ⟨hgen, hkind, hused, hg, hk⟩ := hR g k q hq
  exact ⟨by rw [hM.generation, hgen], by rw [hM.kind, hkind], by rw [(hM.role q).wordsUsed, hused],
    hg, hk⟩

end SameObjects

/-- Nothing but marks, the pins of large pages and the tallies of the marker has changed. -/
structure MarksOnly (h h' : PageHeap) : Prop where
  base : h'.base = h.base
  nPages : h'.nPages = h.nPages
  mem : h'.mem = h.mem
  startBits : h'.startBits = h.startBits
  cards : h'.cards = h.cards
  allocRegions : h'.allocRegions = h.allocRegions
  hashOrder : h'.hashOrder = h.hashOrder
  explicitPins : h'.explicitPins = h.explicitPins
  committed : h'.committed = h.committed
  descs : ∀ q, ∃ b, h'.descs q = { h.descs q with pinByte := b }
  small : ∀ q, (h.descs q).kind ≠ .Large → h'.descs q = h.descs q
  keepsPins : ∀ q, (h.descs q).hasPins = true → (h'.descs q).hasPins = true
  pinned : ∀ c ∈ h.pinnedCells, c ∈ h'.pinnedCells
  newPins : ∀ c ∈ h'.pinnedCells, c ∈ h.pinnedCells ∨
    (h.kindAt c = .Large ∧ c % pageSizeCells = 0 ∧ 1 ≤ (h.descs (c / pageSizeCells)).nSpan)

namespace MarksOnly

variable {h h' h'' : PageHeap}

theorem refl (h : PageHeap) : MarksOnly h h :=
  ⟨rfl, rfl, rfl, rfl, rfl, rfl, rfl, rfl, rfl, fun _ => ⟨_, rfl⟩, fun _ _ => rfl, fun _ hp => hp,
    fun _ hc => hc, fun _ hc => Or.inl hc⟩

theorem role (hM : MarksOnly h h') (q : Nat) : (h.descs q).SameRole (h'.descs q) := by
  obtain ⟨b, hb⟩ := hM.descs q
  rw [hb]
  exact ⟨rfl, rfl, rfl, rfl⟩

theorem sameObjects (hM : MarksOnly h h') : SameObjects h h' :=
  ⟨hM.base, hM.nPages, hM.mem, hM.startBits, hM.role, hM.committed, hM.cards⟩

theorem genAt (hM : MarksOnly h h') (c : Nat) : h'.genAt c = h.genAt c := hM.sameObjects.genAt c

theorem kindAt (hM : MarksOnly h h') (c : Nat) : h'.kindAt c = h.kindAt c :=
  hM.sameObjects.kindAt c

theorem nSpan (hM : MarksOnly h h') (q : Nat) : (h'.descs q).nSpan = (h.descs q).nSpan :=
  hM.sameObjects.nSpan q

theorem totalCells (hM : MarksOnly h h') : h'.totalCells = h.totalCells :=
  hM.sameObjects.totalCells

theorem trans (h₁ : MarksOnly h h') (h₂ : MarksOnly h' h'') : MarksOnly h h'' where
  base := h₂.base.trans h₁.base
  nPages := h₂.nPages.trans h₁.nPages
  mem := h₂.mem.trans h₁.mem
  startBits := h₂.startBits.trans h₁.startBits
  cards := h₂.cards.trans h₁.cards
  allocRegions := h₂.allocRegions.trans h₁.allocRegions
  hashOrder := h₂.hashOrder.trans h₁.hashOrder
  explicitPins := h₂.explicitPins.trans h₁.explicitPins
  committed := h₂.committed.trans h₁.committed
  descs := by
    intro q
    obtain ⟨b, hb⟩ := h₁.descs q
    obtain ⟨b', hb'⟩ := h₂.descs q
    exact ⟨b', by rw [hb', hb]⟩
  small := by
    intro q hk
    rw [h₂.small q (by rw [h₁.sameObjects.kind]; exact hk), h₁.small q hk]
  keepsPins := fun q hp => h₂.keepsPins q (h₁.keepsPins q hp)
  pinned := fun c hc => h₂.pinned c (h₁.pinned c hc)
  newPins := by
    intro c hc
    rcases h₂.newPins c hc with hc' | ⟨hk, hmod, hn⟩
    · exact h₁.newPins c hc'
    · rw [h₁.kindAt] at hk
      rw [h₁.nSpan] at hn
      exact Or.inr ⟨hk, hmod, hn⟩

theorem shape {L : HeapLayout} {T : ObjTable} {K : Forwarding} (hM : MarksOnly h h')
    (hS : Shape L h T K) : Shape L h' T K := hM.sameObjects.shape hS

/-- The pin set still agrees with the pages. -/
theorem pins {L : HeapLayout} {T : ObjTable} (hM : MarksOnly h h')
    (hS : Shape L h T Forwarding.empty) (hP : ∀ c ∈ h.pinnedCells, PinOk h T c) :
    ∀ c ∈ h'.pinnedCells, PinOk h' T c := by
  intro c hc
  rcases hM.newPins c hc with hold | ⟨hk, hmod, hn⟩
  · rcases hP c hold with ⟨hfree, hmod⟩ | ⟨hsome, hpin⟩
    · left
      rw [hM.genAt]
      exact ⟨hfree, hmod⟩
    · right
      refine ⟨hsome, ?_⟩
      rw [hM.kindAt]
      by_cases hk : h.kindAt c = .Large
      · exact Or.inl hk
      · rw [hM.small _ hk]
        exact hpin
  · right
    have hhead := hS.largeHead _ hk hn
    rw [show c / pageSizeCells * pageSizeCells = c by unfold pageSizeCells at *; omega] at hhead
    exact ⟨hhead, Or.inl (by rw [hM.kindAt]; exact hk)⟩

end MarksOnly

/-! ## Targets -/

/-- The first page of the run a large page belongs to. -/
theorem PagesOk.largeHeadPage {h : PageHeap} (hP : PagesOk h) {head : Nat}
    (hk : (h.descs head).kind = .Large) (hn : 1 ≤ (h.descs head).nSpan) :
    ∀ j, j < (h.descs head).nSpan → h.largeHeadPage (head + j) = head := by
  intro j
  induction j with
  | zero =>
      intro _
      rw [Nat.add_zero]
      cases head with
      | zero => rfl
      | succ p =>
          show (if _ then _ else _) = _
          rw [if_neg]
          unfold PageDesc.isLargeCont
          simp only [hk, decide_true, Bool.true_and, decide_eq_true_eq]
          omega
  | succ j ih =>
      intro hj
      obtain ⟨hk', hn', -⟩ := hP.run head (j + 1) hk (by omega) hj
      show (if _ then _ else _) = _
      rw [if_pos]
      · exact ih (by omega)
      · have heq : (h.descs (head + j + 1)).isLargeCont = true := by
          unfold PageDesc.isLargeCont
          rw [show head + j + 1 = head + (j + 1) by omega, hk', hn']
          rfl
        exact heq

/-- What the evacuator marks for a word: the object, or the head of the run it leads into. -/
def evacTarget (L : HeapLayout) (h : PageHeap) (fromGen : Generation) (w : Word) : Option Nat :=
  match (L.classify w).pointer? with
  | none => none
  | some (addr, _) =>
      match h.pageOf addr with
      | none => none
      | some q =>
          if (h.descs q).generation ≠ fromGen then none
          else if (h.descs q).kind = .Large then some (h.largeHeadPage q * pageSizeCells)
          else PageMarker.markTarget L h fromGen w

/-- A target is an object of the generation. -/
structure TargetsOk (h : PageHeap) (T : ObjTable) (g : Generation) (target : Word → Option Nat) :
    Prop where
  object : ∀ w y, target w = some y → (T y).isSome
  generation : ∀ w y, target w = some y → h.genAt y = g

section Targets

variable {L : HeapLayout} {h h' : PageHeap} {T : ObjTable} {K : Forwarding} {g : Generation}

theorem markTarget_cell {w : Word} {y : Nat} (hw : PageMarker.markTarget L h g w = some y) :
    h.targetCell L w = some y ∧ h.genAt y = g ∧ h.kindAt y ≠ .Free ∧ h.isStartAt y = true := by
  unfold PageMarker.markTarget at hw
  unfold targetCell
  cases hp : (L.classify w).pointer? with
  | none => simp [hp] at hw
  | some r =>
      obtain ⟨addr, kind⟩ := r
      simp only [hp] at hw
      cases hq : h.pageOf addr with
      | none => simp [hq] at hw
      | some q =>
          simp only [hq] at hw
          have hpage := pageOf_eq hq
          split at hw
          · cases hw
          · rename_i hgen
            split at hw
            · cases hw
            · rename_i hkind
              split at hw
              · cases hw
              · rename_i hstart
                have hy : h.cellOf addr = y := by
                  split at hw <;> simp_all
                subst hy
                refine ⟨by simp [hq], ?_, ?_, by simpa using hstart⟩
                · unfold genAt
                  rw [← hpage]
                  exact not_not.1 hgen
                · unfold kindAt
                  rw [← hpage]
                  exact hkind

theorem markTarget_ok (hS : Shape L h T K) (hg : g ≠ .Free) :
    TargetsOk h T g (PageMarker.markTarget L h g) where
  object := by
    intro w y hw
    obtain ⟨-, hgen, -, hstart⟩ := markTarget_cell hw
    obtain ⟨o, ho⟩ := (hS.isStartAt_iff (by rw [hgen]; exact hg)).1 hstart
    rw [ho]
    rfl
  generation := fun w y hw => (markTarget_cell hw).2.1

theorem evacTarget_ok (hS : Shape L h T K) (hg : g ≠ .Free) :
    TargetsOk h T g (evacTarget L h g) := by
  have hboth : ∀ w y, evacTarget L h g w = some y → (T y).isSome = true ∧ h.genAt y = g := by
    intro w y hw
    unfold evacTarget at hw
    cases hp : (L.classify w).pointer? with
    | none => simp [hp] at hw
    | some r =>
        obtain ⟨addr, kind⟩ := r
        simp only [hp] at hw
        cases hq : h.pageOf addr with
        | none => simp [hq] at hw
        | some q =>
            simp only [hq] at hw
            split at hw
            · cases hw
            · rename_i hgen
              split at hw
              · rename_i hkind
                cases hw
                obtain ⟨head, hk, hn, hle, hlt⟩ := hS.pages.exists_head hkind
                have hhead := hS.pages.largeHeadPage hk hn (q - head) (by omega)
                rw [show head + (q - head) = q by omega] at hhead
                rw [hhead]
                refine ⟨hS.largeHead head hk hn, ?_⟩
                unfold genAt
                rw [show head * pageSizeCells / pageSizeCells = head by unfold pageSizeCells; omega,
                  ← (hS.pages.run_page hk ⟨hle, hlt⟩).2]
                exact not_not.1 hgen
              · exact ⟨(markTarget_ok hS hg).object w y hw, (markTarget_ok hS hg).generation w y hw⟩
  exact ⟨fun w y hw => (hboth w y hw).1, fun w y hw => (hboth w y hw).2⟩

/-- What the plain marker marks, the evacuator marks too. -/
theorem evacTarget_of_markTarget (hS : Shape L h T K) (hg : g ≠ .Free) {w : Word} {y : Nat}
    (hw : PageMarker.markTarget L h g w = some y) : evacTarget L h g w = some y := by
  obtain ⟨htarget, hgen, hkind, -⟩ := markTarget_cell hw
  obtain ⟨addr, kind, hp, hq, hcell⟩ := targetCell_some htarget
  unfold evacTarget
  rw [hp]
  simp only [hq]
  rw [if_neg (show ¬ (h.descs (y / pageSizeCells)).generation ≠ g from not_not.2 hgen)]
  split
  · rename_i hk
    obtain ⟨o, ho⟩ := Option.isSome_iff_exists.1 ((markTarget_ok hS hg).object w y hw)
    obtain ⟨hmod, -, hn, -⟩ := (hS.obj y o ho).large hk
    have hhead := hS.pages.largeHeadPage hk hn 0 (by omega)
    rw [Nat.add_zero] at hhead
    rw [hhead, show y / pageSizeCells * pageSizeCells = y by unfold pageSizeCells at *; omega]
  · exact hw

/-- A pointer to an object of the generation is a target of the plain marker. -/
theorem markTarget_of_pointee (hS : Shape L h T Forwarding.empty) {w : Word} {y : Nat}
    (hw : h.pointee L w = some y) (hgen : h.genAt y = g) :
    PageMarker.markTarget L h g w = some y := by
  unfold pointee at hw
  unfold PageMarker.markTarget
  cases hp : (L.classify w).pointer? with
  | none => simp [hp] at hw
  | some r =>
      obtain ⟨addr, kind⟩ := r
      simp only [hp] at hw
      split at hw
      · rename_i hin
        obtain ⟨q, hq⟩ := Option.isSome_iff_exists.1 hin
        have hpage := pageOf_eq hq
        cases hobj : h.objAt L (h.cellOf addr) with
        | none => simp [hobj] at hw
        | some o =>
            simp only [hobj] at hw
            split at hw
            · rename_i hkind
              cases hw
              rw [hS.objAt_eq] at hobj
              have hstart := hS.isStartAt hobj
              have hcons := hS.isConsStartAt hobj
              have hlive := hS.live hobj
              have hkfree : (h.descs q).kind ≠ .Free := by
                intro hf
                apply hlive
                unfold genAt
                rw [← hpage]
                exact (hS.pages.kindFree q).1 hf
              unfold genAt at hgen
              rw [← hpage] at hgen
              simp only [hq]
              rw [if_neg (not_not.2 hgen), if_neg hkfree, if_neg (by simp [hstart]), hcons]
              unfold ObjInfo.pointerKind at hkind
              cases hc : o.isCons with
              | true =>
                  rw [hc] at hkind
                  simp only [if_true] at hkind
                  rw [← hkind]
              | false =>
                  rw [hc] at hkind
                  simp only [Bool.false_eq_true, if_false] at hkind
                  rw [← hkind]
            · cases hw
      · cases hw

theorem markTarget_congr (hM : SameObjects h h') (w : Word) :
    PageMarker.markTarget L h' g w = PageMarker.markTarget L h g w := by
  unfold PageMarker.markTarget isStartAt isConsStartAt cellOf
  simp only [pageOf_congr hM.base hM.nPages, hM.generation, hM.kind, hM.startBits, hM.base]

theorem largeHeadPage_congr (hM : SameObjects h h') (q : Nat) :
    h'.largeHeadPage q = h.largeHeadPage q := by
  induction q with
  | zero => rfl
  | succ q ih =>
      show (if _ then _ else _) = (if _ then _ else _)
      rw [ih]
      unfold PageDesc.isLargeCont
      rw [hM.kind, hM.nSpan]

theorem evacTarget_congr (hM : SameObjects h h') (w : Word) :
    evacTarget L h' g w = evacTarget L h g w := by
  unfold evacTarget
  simp only [pageOf_congr hM.base hM.nPages, hM.generation, hM.kind, largeHeadPage_congr hM,
    markTarget_congr hM]

end Targets

/-- The successors of an object of the generation. -/
def markSucc (h : PageHeap) (T : ObjTable) (g : Generation) (target : Word → Option Nat)
    (c : Nat) : List Nat :=
  match T c with
  | some o => if h.genAt c = g then (o.ptrCells c).filterMap fun x => target (h.mem x) else []
  | none => []

theorem mem_markSucc {h : PageHeap} {T : ObjTable} {g : Generation} {target : Word → Option Nat}
    {x y : Nat} : y ∈ markSucc h T g target x ↔ ∃ o i, T x = some o ∧ h.genAt x = g ∧ o.IsPtr i ∧
      target (h.mem (x + i)) = some y := by
  unfold markSucc
  cases hT : T x with
  | none => simp
  | some o =>
      by_cases hg : h.genAt x = g
      · simp only [hg, if_true, List.mem_filterMap, Option.some.injEq, true_and,
          exists_and_left, exists_eq_left']
        constructor
        · rintro ⟨z, hz, htarget⟩
          obtain ⟨i, hi, rfl⟩ := ObjInfo.mem_ptrCells.1 hz
          exact ⟨i, hi, htarget⟩
        · rintro ⟨i, hi, htarget⟩
          exact ⟨x + i, ObjInfo.mem_ptrCells.2 ⟨i, hi, rfl⟩, htarget⟩
      · simp [hg]

/-- What an object outside the generation points at. -/
def crossSucc (h : PageHeap) (T : ObjTable) (g : Generation) (target : Word → Option Nat)
    (c : Nat) : List Nat :=
  match T c with
  | some o => if h.genAt c = g then [] else (o.ptrCells c).filterMap fun x => target (h.mem x)
  | none => []

theorem mem_crossSucc {h : PageHeap} {T : ObjTable} {g : Generation} {target : Word → Option Nat}
    {x y : Nat} : y ∈ crossSucc h T g target x ↔ ∃ o i, T x = some o ∧ h.genAt x ≠ g ∧ o.IsPtr i ∧
      target (h.mem (x + i)) = some y := by
  unfold crossSucc
  cases hT : T x with
  | none => simp
  | some o =>
      by_cases hg : h.genAt x = g
      · simp [hg]
      · simp only [hg, if_false, List.mem_filterMap, Option.some.injEq]
        constructor
        · rintro ⟨z, hz, htarget⟩
          obtain ⟨i, hi, rfl⟩ := ObjInfo.mem_ptrCells.1 hz
          exact ⟨o, i, rfl, hg, hi, htarget⟩
        · rintro ⟨o', i, ho, -, hi, htarget⟩
          subst ho
          exact ⟨x + i, ObjInfo.mem_ptrCells.2 ⟨i, hi, rfl⟩, htarget⟩

/-! ## The evacuator as a search -/

namespace PageEvacuator

/-- The mark bits and the queue. -/
def search (e : PageEvacuator) : Search Nat := { seen := e.heap.markBits, queue := e.markQueue }

/-- Mark a cell, and pin its run when it heads one. -/
def markCell (e : PageEvacuator) (c : Nat) : PageEvacuator :=
  if e.heap.isMarked c then e
  else if e.heap.kindAt c = .Large then e.markLarge (c / pageSizeCells)
  else { e with heap := e.heap.setMark c, markQueue := c :: e.markQueue }

theorem markVisitWord_eq {L : HeapLayout} {e : PageEvacuator} (hP : PagesOk e.heap) (w : Word) :
    e.markVisitWord L w = match evacTarget L e.heap e.fromGen w with
      | none => e
      | some c => e.markCell c := by
  unfold markVisitWord evacTarget PageMarker.markTarget
  cases hp : (L.classify w).pointer? with
  | none => rfl
  | some r =>
      obtain ⟨addr, kind⟩ := r
      simp only
      cases hq : e.heap.pageOf addr with
      | none => rfl
      | some q =>
          simp only
          by_cases hgen : (e.heap.descs q).generation = e.fromGen
          · simp only [ne_eq, hgen, not_true_eq_false, if_false]
            have hpage := pageOf_eq hq
            cases hkind : (e.heap.descs q).kind with
            | Large =>
                simp only [if_true]
                obtain ⟨head, hk, hn, hle, hlt⟩ := hP.exists_head hkind
                have hhead := hP.largeHeadPage hk hn (q - head) (by omega)
                rw [show head + (q - head) = q by omega] at hhead
                have hhead' := hP.largeHeadPage hk hn 0 (by omega)
                rw [Nat.add_zero] at hhead'
                have hdiv : head * pageSizeCells / pageSizeCells = head := by
                  unfold pageSizeCells
                  omega
                unfold markCell markLarge kindAt
                rw [hhead, hdiv, hhead', if_pos hk]
                by_cases hm : e.heap.isMarked (head * pageSizeCells) = true
                · simp [hm]
                · simp [hm]
            | Free => simp
            | Cons =>
                have hcell : e.heap.kindAt (e.heap.cellOf addr) = .Cons := by
                  unfold kindAt
                  rw [← hpage, hkind]
                simp only [reduceCtorEq, if_false]
                cases e.heap.isStartAt (e.heap.cellOf addr) with
                | false => simp
                | true =>
                    cases kind <;> cases e.heap.isConsStartAt (e.heap.cellOf addr) <;>
                      simp [markCell, hcell]
            | Boxed =>
                have hcell : e.heap.kindAt (e.heap.cellOf addr) = .Boxed := by
                  unfold kindAt
                  rw [← hpage, hkind]
                simp only [reduceCtorEq, if_false]
                cases e.heap.isStartAt (e.heap.cellOf addr) with
                | false => simp
                | true =>
                    cases kind <;> cases e.heap.isConsStartAt (e.heap.cellOf addr) <;>
                      simp [markCell, hcell]
          · simp [hgen]

end PageEvacuator

/-- The evacuator while it marks. -/
structure EvacMarking (h₀ : PageHeap) (T : ObjTable) (e₀ e : PageEvacuator) : Prop where
  frame : MarksOnly h₀ e.heap
  ext : e.ext = e₀.ext
  fromGen : e.fromGen = e₀.fromGen
  mode : e.mode = .mark
  queued : ∀ c ∈ e.markQueue, (T c).isSome ∧ h₀.genAt c = e₀.fromGen
  fresh : ∀ c, e.heap.isMarked c = true → h₀.isMarked c = true ∨
    ((T c).isSome ∧ h₀.genAt c = e₀.fromGen ∧ (h₀.kindAt c = .Large →
      c ∈ e.heap.pinnedCells ∧ (e.heap.descs (c / pageSizeCells)).hasPins = true))

theorem setPin_hasPins (d : PageDesc) : (d.setPin 0).hasPins = true := by
  unfold PageDesc.setPin PageDesc.hasPins
  rw [bne_iff_ne]
  intro h
  have hbit := congrArg (fun b : BitVec 8 => b.getLsbD 0) h
  simp at hbit

theorem mem_setInsert {c x : Nat} {l : List Nat} : x ∈ setInsert c l ↔ x = c ∨ x ∈ l := by
  unfold setInsert
  by_cases hc : c ∈ l
  · rw [if_pos hc]
    constructor
    · exact Or.inr
    · rintro (rfl | hx)
      · exact hc
      · exact hx
  · rw [if_neg hc, List.mem_cons]

namespace EvacMarking

variable {L : HeapLayout} {h₀ : PageHeap} {T : ObjTable} {e₀ e : PageEvacuator}

theorem refl (hmode : e₀.mode = .mark) (hq : e₀.markQueue = []) :
    EvacMarking e₀.heap T e₀ e₀ where
  frame := MarksOnly.refl _
  ext := rfl
  fromGen := rfl
  mode := hmode
  queued := by simp [hq]
  fresh := fun _ hm => Or.inl hm

/-- Marking one cell. -/
theorem markCell (hS : Shape L h₀ T Forwarding.empty) (hI : EvacMarking h₀ T e₀ e) {c : Nat}
    (hc : (T c).isSome) (hgen : h₀.genAt c = e₀.fromGen) :
    EvacMarking h₀ T e₀ (e.markCell c) ∧ (e.markCell c).search = e.search.offer c := by
  have hP := (hI.frame.shape hS).pages
  unfold PageEvacuator.markCell Search.offer
  by_cases hm : e.heap.isMarked c = true
  · rw [if_pos hm, if_pos (show e.search.seen c = true from hm)]
    exact ⟨hI, rfl⟩
  · rw [if_neg hm, if_neg (show ¬ e.search.seen c = true from hm)]
    have hqueued : ∀ x ∈ c :: e.markQueue, (T x).isSome ∧ h₀.genAt x = e₀.fromGen := by
      intro x hx
      rcases List.mem_cons.1 hx with rfl | hx
      · exact ⟨hc, hgen⟩
      · exact hI.queued x hx
    by_cases hk : e.heap.kindAt c = .Large
    · rw [if_pos hk]
      obtain ⟨o, ho⟩ := Option.isSome_iff_exists.1 hc
      have hk₀ : h₀.kindAt c = .Large := by rw [← hI.frame.kindAt]; exact hk
      obtain ⟨hmod, -, hn, -⟩ := (hS.obj c o ho).large hk₀
      have hn' : 1 ≤ (e.heap.descs (c / pageSizeCells)).nSpan := by rw [hI.frame.nSpan]; exact hn
      have hhead := hP.largeHeadPage hk hn' 0 (by omega)
      rw [Nat.add_zero] at hhead
      have hcell : c / pageSizeCells * pageSizeCells = c := by
        unfold pageSizeCells at *
        omega
      unfold PageEvacuator.markLarge
      simp only [hhead, hcell, if_neg hm]
      refine ⟨⟨hI.frame.trans ?_, hI.ext, hI.fromGen, hI.mode, hqueued, ?_⟩, rfl⟩
      · refine ⟨rfl, rfl, rfl, rfl, rfl, rfl, rfl, rfl, rfl, ?_, ?_, ?_, ?_, ?_⟩
        · intro q
          dsimp only
          split
          · exact ⟨_, rfl⟩
          · exact ⟨_, rfl⟩
        · intro q hq
          dsimp only
          rw [if_neg]
          · rfl
          · intro hin
            exact hq (hP.run_page hk hin).1
        · intro q hq
          dsimp only
          split
          · have hmono : ∀ d : PageDesc, (d.setPin 0).hasPins = true := setPin_hasPins
            exact hmono _
          · exact hq
        · intro x hx
          exact mem_setInsert.2 (Or.inr hx)
        · intro x hx
          rcases mem_setInsert.1 hx with rfl | hx
          · exact Or.inr ⟨hk, hmod, hn'⟩
          · exact Or.inl hx
      · intro x hx
        change Function.update e.heap.markBits c true x = true at hx
        by_cases hxc : x = c
        · subst hxc
          refine Or.inr ⟨hc, hgen, fun _ => ⟨mem_setInsert.2 (Or.inl rfl), ?_⟩⟩
          dsimp only
          rw [if_pos ⟨Nat.le_refl _, by omega⟩]
          exact setPin_hasPins _
        · rw [Function.update_of_ne hxc] at hx
          refine (hI.fresh x hx).imp_right ?_
          rintro ⟨hsome, hg, hpins⟩
          refine ⟨hsome, hg, fun hl => ?_⟩
          obtain ⟨hmem, hp⟩ := hpins hl
          refine ⟨mem_setInsert.2 (Or.inr hmem), ?_⟩
          dsimp only
          split
          · exact setPin_hasPins _
          · exact hp
    · rw [if_neg hk]
      refine ⟨⟨hI.frame.trans ?_, hI.ext, hI.fromGen, hI.mode, hqueued, ?_⟩, rfl⟩
      · exact ⟨rfl, rfl, rfl, rfl, rfl, rfl, rfl, rfl, rfl, fun _ => ⟨_, rfl⟩, fun _ _ => rfl,
          fun _ hp => hp, fun _ hx => hx, fun _ hx => Or.inl hx⟩
      · intro x hx
        change Function.update e.heap.markBits c true x = true at hx
        by_cases hxc : x = c
        · subst hxc
          refine Or.inr ⟨hc, hgen, fun hl => ?_⟩
          rw [← hI.frame.kindAt] at hl
          exact absurd hl hk
        · rw [Function.update_of_ne hxc] at hx
          exact hI.fresh x hx

/-- Visiting one word. -/
theorem markVisitWord (hS : Shape L h₀ T Forwarding.empty) (hg : e₀.fromGen ≠ .Free)
    (hI : EvacMarking h₀ T e₀ e) (w : Word) : EvacMarking h₀ T e₀ (e.markVisitWord L w) ∧
      (e.markVisitWord L w).search =
        e.search.offerAll (evacTarget L h₀ e₀.fromGen w).toList := by
  rw [PageEvacuator.markVisitWord_eq (hI.frame.shape hS).pages, evacTarget_congr hI.frame.sameObjects,
    hI.fromGen]
  have hok := evacTarget_ok hS hg
  cases ht : evacTarget L h₀ e₀.fromGen w with
  | none => exact ⟨hI, rfl⟩
  | some c => exact hI.markCell hS (hok.object w c ht) (hok.generation w c ht)

/-- Visiting the words of a list of cells. -/
theorem visitWords (hS : Shape L h₀ T Forwarding.empty) (hg : e₀.fromGen ≠ .Free)
    (hI : EvacMarking h₀ T e₀ e) (cells : List Nat) :
    EvacMarking h₀ T e₀ (cells.foldl (fun e c => e.markVisitWord L (e.heap.mem c)) e) ∧
      (cells.foldl (fun e c => e.markVisitWord L (e.heap.mem c)) e).search =
        e.search.offerAll (cells.filterMap fun c => evacTarget L h₀ e₀.fromGen (h₀.mem c)) := by
  induction cells generalizing e with
  | nil => exact ⟨hI, rfl⟩
  | cons c cells ih =>
      obtain ⟨hI', hs⟩ := hI.markVisitWord hS hg (e.heap.mem c)
      obtain ⟨hI'', hs'⟩ := ih hI'
      refine ⟨hI'', ?_⟩
      rw [List.foldl_cons, hs', hs, hI.frame.mem, List.filterMap_cons]
      cases evacTarget L h₀ e₀.fromGen (h₀.mem c) with
      | none => rfl
      | some y => rfl

theorem visitSlots (hS : Shape L h₀ T Forwarding.empty) (hg : e₀.fromGen ≠ .Free)
    (hI : EvacMarking h₀ T e₀ e) (slots : List Slot) :
    EvacMarking h₀ T e₀ (e.visitSlots L slots) ∧ (e.visitSlots L slots).search =
      e.search.offerAll
        (slots.filterMap fun s => evacTarget L h₀ e₀.fromGen (s.read h₀ e₀.ext)) := by
  unfold PageEvacuator.visitSlots
  induction slots generalizing e with
  | nil => exact ⟨hI, rfl⟩
  | cons s slots ih =>
      have hone : PageEvacuator.visitSlot L e s = e.markVisitWord L (s.read h₀ e₀.ext) := by
        cases s with
        | ext a =>
            unfold PageEvacuator.visitSlot PageEvacuator.visit
            simp only [hI.mode, hI.ext]
            rfl
        | cell c =>
            unfold PageEvacuator.visitSlot PageEvacuator.visitCell
            simp only [hI.mode, hI.frame.mem]
            rfl
      obtain ⟨hI', hs⟩ := hI.markVisitWord hS hg (s.read h₀ e₀.ext)
      rw [List.foldl_cons, hone]
      obtain ⟨hI'', hs'⟩ := ih hI'
      refine ⟨hI'', ?_⟩
      rw [hs', hs, List.filterMap_cons]
      cases evacTarget L h₀ e₀.fromGen (s.read h₀ e₀.ext) with
      | none => rfl
      | some y => rfl

/-- Scanning a queued object. -/
theorem markScanObject (hS : Shape L h₀ T Forwarding.empty) (hg : e₀.fromGen ≠ .Free)
    (hI : EvacMarking h₀ T e₀ e) {c : Nat} (hc : (T c).isSome) (hgen : h₀.genAt c = e₀.fromGen) :
    ∃ e', e.markScanObject L c = .ok e' ∧ EvacMarking h₀ T e₀ e' ∧ e'.search =
      e.search.offerAll (markSucc h₀ T e₀.fromGen (evacTarget L h₀ e₀.fromGen) c) := by
  obtain ⟨o, ho⟩ := Option.isSome_iff_exists.1 hc
  have hS' := hI.frame.shape hS
  have hsucc : markSucc h₀ T e₀.fromGen (evacTarget L h₀ e₀.fromGen) c =
      (o.ptrCells c).filterMap fun x => evacTarget L h₀ e₀.fromGen (h₀.mem x) := by
    unfold markSucc
    rw [ho]
    simp only [hgen, if_true]
  have hwords := hI.visitWords hS hg (o.ptrCells c)
  rw [hsucc]
  refine ⟨_, ?_, hwords⟩
  unfold PageEvacuator.markScanObject
  have hlive := hS'.live ho
  have hcons := hS'.isConsStartAt ho
  have hO := hS'.obj c o ho
  have hheader : o.isCons = false → L.headerLayout (e.heap.mem c) = .ok o.layout := hO.header rfl
  have hcells := hS'.accessPtrCells ho
  cases hk : (e.heap.descs (c / pageSizeCells)).kind with
  | Free =>
      exact absurd ((hS'.pages.kindFree _).1 hk) hlive
  | Cons =>
      have := hO.consPage hk
      rw [hO.wf.cons this, ObjInfo.ptrCells_cons] at hcells ⊢
      simp only [hcells]
      rfl
  | Boxed =>
      cases hb : o.isCons with
      | true =>
          rw [hO.wf.cons hb, ObjInfo.ptrCells_cons] at hcells ⊢
          simp only [hcons, hb, hcells]
          rfl
      | false =>
          unfold ObjInfo.ptrCells at hcells
          simp only [hcons, hb, hS'.accessHead ho, hheader hb, bind, Except.bind, hcells]
          rfl
  | Large =>
      have hb := (hO.large hk).2.1
      unfold ObjInfo.ptrCells at hcells
      simp only [hS'.accessHead ho, hheader hb, bind, Except.bind, hcells]
      rfl

/-- Draining the queue runs the search. -/
theorem markDrainFuel (hS : Shape L h₀ T Forwarding.empty) (hg : e₀.fromGen ≠ .Free) :
    ∀ fuel e, EvacMarking h₀ T e₀ e → ∃ e', e.markDrainFuel L fuel = .ok e' ∧
      EvacMarking h₀ T e₀ e' ∧ e'.search =
        Search.run (markSucc h₀ T e₀.fromGen (evacTarget L h₀ e₀.fromGen)) fuel e.search := by
  intro fuel
  induction fuel with
  | zero => exact fun e hI => ⟨e, rfl, hI, rfl⟩
  | succ fuel ih =>
      intro e hI
      unfold PageEvacuator.markDrainFuel Search.run
      cases hq : e.markQueue with
      | nil =>
          have hq' : e.search.queue = [] := hq
          exact ⟨e, rfl, hI, by rw [hq']⟩
      | cons c rest =>
          obtain ⟨hc, hgen⟩ := hI.queued c (by rw [hq]; exact List.mem_cons_self)
          have hI' : EvacMarking h₀ T e₀ { e with markQueue := rest } :=
            { hI with queued := fun x hx => hI.queued x (by rw [hq]; exact List.mem_cons_of_mem c hx) }
          obtain ⟨e₁, hok, hI₁, hs₁⟩ := hI'.markScanObject hS hg hc hgen
          obtain ⟨e₂, hok₂, hI₂, hs₂⟩ := ih e₁ hI₁
          refine ⟨e₂, ?_, hI₂, ?_⟩
          · simp only
            rw [hok]
            exact hok₂
          · have hq' : e.search.queue = c :: rest := hq
            rw [hs₂, hs₁, hq']
            rfl

end EvacMarking

/-! ## The plain marker as a search -/

/-- The mark bits and the queue. -/
def PageMarker.search (m : PageMarker) : Search Nat := { seen := m.heap.markBits, queue := m.queue }

/-- Mark a cell. -/
def PageMarker.markCell (m : PageMarker) (c : Nat) : PageMarker :=
  if m.heap.isMarked c then m else { m with heap := m.heap.setMark c, queue := c :: m.queue }

/-- The plain marker while it marks: nothing but mark bits changes. -/
structure HeapMarking (h₀ : PageHeap) (T : ObjTable) (g : Generation) (m : PageMarker) : Prop where
  same : m.heap = { h₀ with markBits := m.heap.markBits }
  target : m.target = g
  queued : ∀ c ∈ m.queue, (T c).isSome ∧ h₀.genAt c = g
  fresh : ∀ c, m.heap.isMarked c = true → h₀.isMarked c = true ∨ ((T c).isSome ∧ h₀.genAt c = g)

theorem MarksOnly.of_marks {h h' : PageHeap} (hsame : h' = { h with markBits := h'.markBits }) :
    MarksOnly h h' := by
  rw [hsame]
  exact ⟨rfl, rfl, rfl, rfl, rfl, rfl, rfl, rfl, rfl, fun _ => ⟨_, rfl⟩, fun _ _ => rfl,
    fun _ hp => hp, fun _ hx => hx, fun _ hx => Or.inl hx⟩

namespace HeapMarking

variable {L : HeapLayout} {h₀ : PageHeap} {T : ObjTable} {g : Generation} {m : PageMarker}

theorem frame (hI : HeapMarking h₀ T g m) : MarksOnly h₀ m.heap := .of_marks hI.same

theorem start (h₀ : PageHeap) (T : ObjTable) (g : Generation) :
    HeapMarking h₀ T g (PageMarker.newWithoutClear h₀ g) where
  same := rfl
  target := rfl
  queued := by simp [PageMarker.newWithoutClear]
  fresh := fun _ hm => Or.inl hm

/-- Marking one cell. -/
theorem markCell (hI : HeapMarking h₀ T g m) {c : Nat} (hc : (T c).isSome) (hgen : h₀.genAt c = g) :
    HeapMarking h₀ T g (m.markCell c) ∧ (m.markCell c).search = m.search.offer c := by
  unfold PageMarker.markCell Search.offer
  by_cases hm : m.heap.isMarked c = true
  · rw [if_pos hm, if_pos (show m.search.seen c = true from hm)]
    exact ⟨hI, rfl⟩
  · rw [if_neg hm, if_neg (show ¬ m.search.seen c = true from hm)]
    refine ⟨⟨?_, hI.target, ?_, ?_⟩, rfl⟩
    · show m.heap.setMark c = _
      rw [hI.same]
      rfl
    · intro x hx
      rcases List.mem_cons.1 hx with rfl | hx
      · exact ⟨hc, hgen⟩
      · exact hI.queued x hx
    · intro x hx
      change Function.update m.heap.markBits c true x = true at hx
      by_cases hxc : x = c
      · subst hxc
        exact Or.inr ⟨hc, hgen⟩
      · rw [Function.update_of_ne hxc] at hx
        exact hI.fresh x hx

theorem visitWord (hS : Shape L h₀ T Forwarding.empty) (hg : g ≠ .Free)
    (hI : HeapMarking h₀ T g m) (w : Word) : HeapMarking h₀ T g (m.visitWord L w) ∧
      (m.visitWord L w).search =
        m.search.offerAll (PageMarker.markTarget L h₀ g w).toList := by
  have hok := markTarget_ok hS hg
  have hstep : m.visitWord L w = match PageMarker.markTarget L m.heap m.target w with
    | none => m
    | some c => m.markCell c := rfl
  rw [hstep, markTarget_congr hI.frame.sameObjects, hI.target]
  cases ht : PageMarker.markTarget L h₀ g w with
  | none => exact ⟨hI, rfl⟩
  | some c => exact hI.markCell (hok.object w c ht) (hok.generation w c ht)

theorem visitCells (hS : Shape L h₀ T Forwarding.empty) (hg : g ≠ .Free)
    (hI : HeapMarking h₀ T g m) (cells : List Nat) : HeapMarking h₀ T g (m.visitCells L cells) ∧
      (m.visitCells L cells).search = m.search.offerAll
        (cells.filterMap fun c => PageMarker.markTarget L h₀ g (h₀.mem c)) := by
  unfold PageMarker.visitCells
  induction cells generalizing m with
  | nil => exact ⟨hI, rfl⟩
  | cons c cells ih =>
      obtain ⟨hI', hs⟩ := hI.visitWord hS hg (m.heap.mem c)
      obtain ⟨hI'', hs'⟩ := ih hI'
      refine ⟨hI'', ?_⟩
      rw [List.foldl_cons, hs', hs, hI.frame.mem, List.filterMap_cons]
      cases PageMarker.markTarget L h₀ g (h₀.mem c) with
      | none => rfl
      | some y => rfl

/-- Visiting words that come from outside. -/
theorem visitWords (hS : Shape L h₀ T Forwarding.empty) (hg : g ≠ .Free)
    (hI : HeapMarking h₀ T g m) (words : List Word) :
    HeapMarking h₀ T g (words.foldl (PageMarker.visitWord L) m) ∧
      (words.foldl (PageMarker.visitWord L) m).search =
        m.search.offerAll (words.filterMap (PageMarker.markTarget L h₀ g)) := by
  induction words generalizing m with
  | nil => exact ⟨hI, rfl⟩
  | cons w words ih =>
      obtain ⟨hI', hs⟩ := hI.visitWord hS hg w
      obtain ⟨hI'', hs'⟩ := ih hI'
      refine ⟨hI'', ?_⟩
      rw [List.foldl_cons, hs', hs, List.filterMap_cons]
      cases PageMarker.markTarget L h₀ g w with
      | none => rfl
      | some y => rfl

theorem scanMarkedObject (hS : Shape L h₀ T Forwarding.empty) (hg : g ≠ .Free)
    (hI : HeapMarking h₀ T g m) {c : Nat} (hc : (T c).isSome) (hgen : h₀.genAt c = g) :
    ∃ m', m.scanMarkedObject L c = .ok m' ∧ HeapMarking h₀ T g m' ∧ m'.search =
      m.search.offerAll (markSucc h₀ T g (PageMarker.markTarget L h₀ g) c) := by
  obtain ⟨o, ho⟩ := Option.isSome_iff_exists.1 hc
  have hS' := hI.frame.shape hS
  have hsucc : markSucc h₀ T g (PageMarker.markTarget L h₀ g) c =
      (o.ptrCells c).filterMap fun x => PageMarker.markTarget L h₀ g (h₀.mem x) := by
    unfold markSucc
    rw [ho]
    simp only [hgen, if_true]
  have hcells := hI.visitCells hS hg (o.ptrCells c)
  rw [hsucc]
  refine ⟨_, ?_, hcells⟩
  unfold PageMarker.scanMarkedObject
  have hlive := hS'.live ho
  have hcons := hS'.isConsStartAt ho
  have hO := hS'.obj c o ho
  have hheader : o.isCons = false → L.headerLayout (m.heap.mem c) = .ok o.layout := hO.header rfl
  have haccess := hS'.accessPtrCells ho
  cases hk : (m.heap.descs (c / pageSizeCells)).kind with
  | Free => exact absurd ((hS'.pages.kindFree _).1 hk) hlive
  | Cons =>
      have := hO.consPage hk
      rw [hO.wf.cons this, ObjInfo.ptrCells_cons] at haccess ⊢
      simp only [haccess]
      rfl
  | Boxed =>
      cases hb : o.isCons with
      | true =>
          rw [hO.wf.cons hb, ObjInfo.ptrCells_cons] at haccess ⊢
          simp only [hcons, hb, haccess]
          rfl
      | false =>
          unfold ObjInfo.ptrCells at haccess
          simp only [hcons, hb, hS'.accessHead ho, hheader hb, bind, Except.bind, haccess]
          rfl
  | Large =>
      have hb := (hO.large hk).2.1
      unfold ObjInfo.ptrCells at haccess
      simp only [hS'.accessHead ho, hheader hb, bind, Except.bind, haccess]
      rfl

theorem drainFuel (hS : Shape L h₀ T Forwarding.empty) (hg : g ≠ .Free) :
    ∀ fuel m, HeapMarking h₀ T g m → ∃ m', m.drainFuel L fuel = .ok m' ∧
      HeapMarking h₀ T g m' ∧ m'.search =
        Search.run (markSucc h₀ T g (PageMarker.markTarget L h₀ g)) fuel m.search := by
  intro fuel
  induction fuel with
  | zero => exact fun m hI => ⟨m, rfl, hI, rfl⟩
  | succ fuel ih =>
      intro m hI
      unfold PageMarker.drainFuel Search.run
      cases hq : m.queue with
      | nil =>
          have hq' : m.search.queue = [] := hq
          exact ⟨m, rfl, hI, by rw [hq']⟩
      | cons c rest =>
          obtain ⟨hc, hgen⟩ := hI.queued c (by rw [hq]; exact List.mem_cons_self)
          have hI' : HeapMarking h₀ T g { m with queue := rest } :=
            { hI with queued := fun x hx => hI.queued x (by rw [hq]; exact List.mem_cons_of_mem c hx) }
          obtain ⟨m₁, hok, hI₁, hs₁⟩ := hI'.scanMarkedObject hS hg hc hgen
          obtain ⟨m₂, hok₂, hI₂, hs₂⟩ := ih m₁ hI₁
          refine ⟨m₂, ?_, hI₂, ?_⟩
          · simp only
            rw [hok]
            exact hok₂
          · have hq' : m.search.queue = c :: rest := hq
            rw [hs₂, hs₁, hq']
            rfl

/-- Offering a pinned object of the generation. -/
theorem extendMarkStep (hS : Shape L h₀ T Forwarding.empty) (hg : g ≠ .Free)
    (hI : HeapMarking h₀ T g m) (c : Nat) : HeapMarking h₀ T g (extendMarkStep m c) ∧
      (extendMarkStep m c).search = m.search.offerAll
        (if (T c).isSome ∧ h₀.genAt c = g then [c] else []) := by
  have hS' := hI.frame.shape hS
  unfold PageHeap.extendMarkStep
  dsimp only
  by_cases hgen : h₀.genAt c = g
  · have hgen' : (m.heap.descs (c / pageSizeCells)).generation = m.target := by
      rw [hI.target, ← hgen]
      exact hI.frame.genAt c
    have hlive : m.heap.genAt c ≠ .Free := by
      rw [hI.frame.genAt, hgen]
      exact hg
    rw [if_neg (not_not.2 hgen'), if_neg fun hk => hlive ((hS'.pages.kindFree _).1 hk)]
    cases hT : T c with
    | none =>
        have hstart : m.heap.isStartAt c = false := by
          rw [Bool.eq_false_iff]
          intro hs
          obtain ⟨o, ho⟩ := (hS'.isStartAt_iff hlive).1 hs
          rw [hT] at ho
          cases ho
        rw [if_pos hstart, if_neg (by simp)]
        exact ⟨hI, rfl⟩
    | some o =>
        rw [if_neg (by simp [hS'.isStartAt hT]),
          if_pos (show (some o).isSome = true ∧ h₀.genAt c = g from ⟨rfl, hgen⟩)]
        exact hI.markCell (by rw [hT]; rfl) hgen
  · have hgen' : (m.heap.descs (c / pageSizeCells)).generation ≠ m.target := by
      rw [hI.target]
      intro heq
      exact hgen (by rw [← hI.frame.genAt]; exact heq)
    rw [if_pos hgen', if_neg fun h => hgen h.2]
    exact ⟨hI, rfl⟩

/-- Offering the payload of a pinned object of another generation. -/
theorem extendMarkCrossGenStep (hS : Shape L h₀ T Forwarding.empty) (hg : g ≠ .Free)
    (hI : HeapMarking h₀ T g m) (c : Nat) :
    ∃ m', extendMarkCrossGenStep L m c = .ok m' ∧ HeapMarking h₀ T g m' ∧
      m'.search = m.search.offerAll (crossSucc h₀ T g (PageMarker.markTarget L h₀ g) c) := by
  have hS' := hI.frame.shape hS
  unfold crossSucc
  unfold PageHeap.extendMarkCrossGenStep
  dsimp only
  have hgenEq : (m.heap.descs (c / pageSizeCells)).generation = h₀.genAt c := hI.frame.genAt c
  rw [hgenEq, hI.target]
  by_cases hgen : h₀.genAt c = g
  · rw [if_pos hgen]
    refine ⟨m, rfl, hI, ?_⟩
    cases T c with
    | none => rfl
    | some o =>
        simp only [hgen, if_true]
        rfl
  · rw [if_neg hgen]
    by_cases hfree : h₀.genAt c = .Free
    · rw [if_pos hfree]
      refine ⟨m, rfl, hI, ?_⟩
      rw [hS.none_of_free hfree]
      rfl
    · rw [if_neg hfree]
      have hlive : m.heap.genAt c ≠ .Free := by
        rw [hI.frame.genAt]
        exact hfree
      rw [if_neg fun hk => hlive ((hS'.pages.kindFree _).1 hk)]
      cases hT : T c with
      | none =>
          have hstart : m.heap.isStartAt c = false := by
            rw [Bool.eq_false_iff]
            intro hs
            obtain ⟨o, ho⟩ := (hS'.isStartAt_iff hlive).1 hs
            rw [hT] at ho
            cases ho
          rw [if_pos hstart]
          exact ⟨m, rfl, hI, rfl⟩
      | some o =>
          rw [if_neg (by simp [hS'.isStartAt hT]), hS'.isConsStartAt hT]
          have hcells := hI.visitCells hS hg (o.ptrCells c)
          have haccess := hS'.accessPtrCells hT
          simp only [hgen, if_false]
          cases hb : o.isCons with
          | true =>
              rw [(hS.wf hT).cons hb, ObjInfo.ptrCells_cons] at hcells haccess
              rw [(hS.wf hT).cons hb, ObjInfo.ptrCells_cons, if_pos rfl, haccess]
              exact ⟨_, rfl, hcells⟩
          | false =>
              unfold ObjInfo.ptrCells at haccess
              simp only [hS'.accessHead hT, (hS'.obj c o hT).header rfl hb, bind, Except.bind,
                haccess]
              exact ⟨_, rfl, hcells⟩

end HeapMarking

/-! ## The internal mark pass -/

/-- The marks of a generation are closed: a marked object's targets are marked. -/
def MarkClosed (h : PageHeap) (T : ObjTable) (g : Generation) (target : Word → Option Nat) : Prop :=
  ∀ x y, h.isMarked x = true → y ∈ markSucc h T g target x → h.isMarked y = true

/-- `y` can be reached from `x` through targets. -/
abbrev MarkReach (h : PageHeap) (T : ObjTable) (g : Generation) (target : Word → Option Nat) :
    Nat → Nat → Prop :=
  Relation.ReflTransGen fun x y => y ∈ markSucc h T g target x

theorem markSucc_congr {h h' : PageHeap} {T : ObjTable} {g : Generation}
    {target : Word → Option Nat} (hM : SameObjects h h') (x : Nat) :
    markSucc h' T g target x = markSucc h T g target x := by
  unfold markSucc
  simp only [hM.genAt, hM.mem]

theorem markSucc_bound {L : HeapLayout} {h : PageHeap} {T : ObjTable} {K : Forwarding}
    {g : Generation} {target : Word → Option Nat} (hS : Shape L h T K)
    (hok : TargetsOk h T g target) :
    ∀ a, ∀ b ∈ markSucc h T g target a, b ∈ List.range h.totalCells := by
  intro a b hb
  obtain ⟨o, i, -, -, -, htarget⟩ := mem_markSucc.1 hb
  obtain ⟨o', ho'⟩ := Option.isSome_iff_exists.1 (hok.object _ b htarget)
  exact List.mem_range.2 (hS.cell_lt ho')

theorem work_le (s : Search Nat) (n : Nat) :
    s.work (List.range n) ≤ n + s.queue.length := by
  unfold Search.work
  have := List.countP_le_length (p := fun a => !s.seen a) (l := List.range n)
  rw [List.length_range] at this
  omega

/-- What the internal mark pass establishes. -/
structure InternalMarked (L : HeapLayout) (h : PageHeap) (T : ObjTable) (ext : Nat → Word)
    (g : Generation) (slots : List Slot) (h' : PageHeap) : Prop where
  frame : MarksOnly h h'
  closed : MarkClosed h' T g (evacTarget L h g)
  roots : ∀ s ∈ slots, ∀ y, evacTarget L h g (s.read h ext) = some y → h'.isMarked y = true
  fresh : ∀ c, h'.isMarked c = true → h.genAt c = g → (T c).isSome ∧ (h.kindAt c = .Large →
    c ∈ h'.pinnedCells ∧ (h'.descs (c / pageSizeCells)).hasPins = true)
  sound : ∀ c, h'.isMarked c = true → h.genAt c = g → ∃ s ∈ slots, ∃ x,
    evacTarget L h g (s.read h ext) = some x ∧ MarkReach h T g (evacTarget L h g) x c
  active : h'.recycleLiveCountsTarget = some g

theorem clearMarkBitsInGen_frame (h : PageHeap) (g : Generation) :
    MarksOnly h (h.clearMarkBitsInGen g) := .of_marks rfl

theorem clearMarkBitsInGen_clear {h : PageHeap} {g : Generation} (hP : PagesOk h) (hg : g ≠ .Free)
    {c : Nat} (hc : h.genAt c = g) : (h.clearMarkBitsInGen g).isMarked c = false := by
  have hlt := hP.page_lt (p := c / pageSizeCells) (by
    unfold genAt at hc
    rw [hc]
    exact hg)
  show (if _ then _ else _) = _
  rw [if_pos ⟨hlt, hc⟩]

theorem internalMark_marked {L : HeapLayout} {h : PageHeap} {T : ObjTable} {ext : Nat → Word}
    {fromGen destGen : Generation} {visitRoots : RootVisitor} {slots : List Slot}
    (hS : Shape L h T Forwarding.empty) (hg : fromGen ≠ .Free)
    (hv : visitRoots (.new (h.clearMarkBitsInGen fromGen) ext fromGen destGen .mark) =
      .ok ((PageEvacuator.new (h.clearMarkBitsInGen fromGen) ext fromGen destGen .mark).visitSlots L
        slots)) :
    ∃ h', h.internalMark L ext fromGen destGen visitRoots = .ok (h', ext) ∧
      InternalMarked L h T ext fromGen slots h' := by
  generalize he₀ : PageEvacuator.new (h.clearMarkBitsInGen fromGen) ext fromGen destGen .mark = e₀
    at hv
  have hM₀ := clearMarkBitsInGen_frame h fromGen
  have hheap : e₀.heap = h.clearMarkBitsInGen fromGen := by rw [← he₀]; rfl
  have hfrom : e₀.fromGen = fromGen := by rw [← he₀]; rfl
  have hext : e₀.ext = ext := by rw [← he₀]; rfl
  have hS₀ : Shape L e₀.heap T Forwarding.empty := by
    rw [hheap]
    exact hM₀.shape hS
  have hg₀ : e₀.fromGen ≠ .Free := by rw [hfrom]; exact hg
  have hstart : EvacMarking e₀.heap T e₀ e₀ := .refl (by rw [← he₀]; rfl) (by rw [← he₀]; rfl)
  obtain ⟨hI₁, hs₁⟩ := hstart.visitSlots hS₀ hg₀ slots
  obtain ⟨e₂, hok, hI₂, hs₂⟩ := EvacMarking.markDrainFuel hS₀ hg₀
    ((e₀.visitSlots L slots).heap.totalCells + (e₀.visitSlots L slots).markQueue.length) _ hI₁
  have htargets := evacTarget_ok hS₀ hg₀
  have hbound := markSucc_bound hS₀ htargets
  -- the cells marked before the pass have no successors in the generation
  have hclear : ∀ c, h.genAt c = fromGen → e₀.heap.isMarked c = false := by
    intro c hc
    rw [hheap]
    exact clearMarkBitsInGen_clear hS.pages hg hc
  have hclosing : e₀.search.Closing
      (markSucc e₀.heap T e₀.fromGen (evacTarget L e₀.heap e₀.fromGen)) := by
    intro a ha
    right
    intro b hb
    obtain ⟨o, i, -, hgen, -⟩ := mem_markSucc.1 hb
    rw [hfrom, hheap, hM₀.genAt] at hgen
    have hfalse := hclear a hgen
    rw [show e₀.heap.isMarked a = true from ha] at hfalse
    cases hfalse
  have hqueued : e₀.search.Queued := by
    intro a ha
    change a ∈ e₀.markQueue at ha
    rw [← he₀] at ha
    cases ha
  have hfuel : (e₀.visitSlots L slots).search.work (List.range e₀.heap.totalCells) ≤
      (e₀.visitSlots L slots).heap.totalCells + (e₀.visitSlots L slots).markQueue.length := by
    rw [hI₁.frame.totalCells]
    exact work_le _ _
  have hseen : ∀ c, e₂.heap.isMarked c = e₂.search.seen c := fun _ => rfl
  have hM₂ : MarksOnly h e₂.heap := hM₀.trans (hheap ▸ hI₂.frame)
  have htarget : ∀ w, evacTarget L e₀.heap e₀.fromGen w = evacTarget L h fromGen w := by
    intro w
    rw [hfrom, hheap]
    exact evacTarget_congr hM₀.sameObjects w
  have htargetFun : evacTarget L e₀.heap e₀.fromGen = evacTarget L h fromGen := funext htarget
  have hmemEq : e₀.heap.mem = h.mem := by rw [hheap]; rfl
  have hsuccEq : ∀ x, markSucc e₀.heap T e₀.fromGen (evacTarget L e₀.heap e₀.fromGen) x =
      markSucc h T fromGen (evacTarget L h fromGen) x := by
    intro x
    rw [htargetFun, hfrom, hheap]
    exact markSucc_congr hM₀.sameObjects x
  have hread : ∀ s : Slot, s.read e₀.heap e₀.ext = s.read h ext := by
    intro s
    cases s with
    | ext a => exact congrFun hext a
    | cell c => exact congrFun hmemEq c
  refine ⟨e₂.heap.prepareRecycleLiveCountsFromMarks fromGen, ?_, ?_⟩
  · unfold internalMark
    rw [he₀, hv]
    show (PageEvacuator.markDrain L _ >>= fun e => _) = _
    unfold PageEvacuator.markDrain
    rw [hok]
    show Except.ok _ = _
    rw [hI₂.ext, hext]
  · have hprep : MarksOnly e₂.heap (e₂.heap.prepareRecycleLiveCountsFromMarks fromGen) :=
      ⟨rfl, rfl, rfl, rfl, rfl, rfl, rfl, rfl, rfl, fun _ => ⟨_, rfl⟩, fun _ _ => rfl, fun _ hp => hp,
        fun _ hc => hc, fun _ hc => Or.inl hc⟩
    refine ⟨hM₂.trans hprep, ?_, ?_, ?_, ?_, rfl⟩
    · intro x y hx hy
      rw [markSucc_congr (hM₂.trans hprep).sameObjects, ← hsuccEq] at hy
      change e₂.heap.isMarked x = true at hx
      change e₂.heap.isMarked y = true
      rw [hseen, hs₂] at hx ⊢
      refine Search.run_closed hbound hfuel ?_ hx hy
      rw [hs₁]
      exact hclosing.offerAll _
    · intro s hs y hy
      change e₂.heap.isMarked y = true
      rw [hseen, hs₂]
      refine Search.run_mono _ _ ?_
      rw [hs₁, Search.offerAll_seen]
      right
      refine List.mem_filterMap.2 ⟨s, hs, ?_⟩
      rw [htarget, hread]
      exact hy
    · intro c hc hgen
      change e₂.heap.isMarked c = true at hc
      rcases hI₂.fresh c hc with hold | ⟨hsome, -, hpins⟩
      · rw [hclear c hgen] at hold
        cases hold
      · refine ⟨hsome, fun hk => hpins ?_⟩
        rw [hheap, hM₀.kindAt]
        exact hk
    · intro c hc hgen
      change e₂.heap.isMarked c = true at hc
      rw [hseen, hs₂, hs₁] at hc
      obtain ⟨a, ha, hreach⟩ := Search.run_sound _ _ (hqueued.offerAll _) hc
      have hreach' : MarkReach h T fromGen (evacTarget L h fromGen) a c := by
        refine Relation.ReflTransGen.mono ?_ a c hreach
        intro x y hxy
        rw [← hsuccEq]
        exact hxy
      rcases (Search.offerAll_seen _ _ a).1 ha with hold | hin
      · -- a stale mark leads nowhere, so it would be `c` itself
        have hac : a = c := by
          rcases Relation.ReflTransGen.cases_head hreach' with heq | ⟨b, hab, -⟩
          · exact heq
          · obtain ⟨o, i, -, hga, -⟩ := mem_markSucc.1 hab
            have hfalse := hclear a hga
            rw [show e₀.heap.isMarked a = true from hold] at hfalse
            cases hfalse
        subst hac
        have hfalse := hclear a hgen
        rw [show e₀.heap.isMarked a = true from hold] at hfalse
        cases hfalse
      · obtain ⟨s, hs, hx⟩ := List.mem_filterMap.1 hin
        rw [htarget, hread] at hx
        exact ⟨s, hs, a, hx, hreach'⟩

end NewGc
