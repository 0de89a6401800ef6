import NewGc.Cohorts
import NewGc.Pass

/-!
# Requests — what holds between the requests of a run

`Coherent` is the heap between two requests, `Sound` the world: the heap and the open buffers.  The
requests that do not collect keep it, and they keep every object where it is.
-/

namespace NewGc

open Library PageHeap

/-! ## The heap between requests -/

/-- A well-shaped heap whose pins name objects; every pinned cell has its bit set. -/
structure Coherent (L : HeapLayout) (h : PageHeap) (T : ObjTable) : Prop where
  shape : Shape L h T Forwarding.empty
  regions : RegionsOk h
  pins : ∀ c ∈ h.pinnedCells, (T c).isSome ∧
    (h.descs (c / pageSizeCells)).isPinned (pinSlot c) = true
  explicit : ∀ e ∈ h.explicitCells, (T e).isSome
  inactive : h.recycleLiveCountsTarget = none

theorem Coherent.passOk {L : HeapLayout} {h : PageHeap} {T : ObjTable} (hI : Coherent L h T) :
    PassOk L h T where
  shape := hI.shape
  regions := hI.regions
  pins := fun c hc => Or.inr ⟨(hI.pins c hc).1, Or.inr (Or.inl (hI.pins c hc).2)⟩
  explicit := fun e he => ⟨hI.explicit e he, fun _ c hc _ => (hI.pins c hc).2⟩
  inactive := hI.inactive

/-- `h'` is `h` without its pins, whatever its counters say; a card that became dirty lies on a page
in use. -/
structure DropsPins (h h' : PageHeap) : Prop where
  descs : h'.descs = fun p => (h.descs p).clearPins
  mem : h'.mem = h.mem
  startBits : h'.startBits = h.startBits
  base : h'.base = h.base
  nPages : h'.nPages = h.nPages
  allocRegions : h'.allocRegions = h.allocRegions
  pinnedCells : h'.pinnedCells = []
  explicitPins : h'.explicitPins = h.explicitPins
  target : h'.recycleLiveCountsTarget = h.recycleLiveCountsTarget
  committed : h'.committed = h.committed
  newCards : ∀ k, h'.cards k = true →
    h.cards k = true ∨ (h.descs (k / cardsPerPage)).generation ≠ .Free

theorem DropsPins.clearAllPins (h : PageHeap) : DropsPins h h.clearAllPins :=
  ⟨rfl, rfl, rfl, rfl, rfl, rfl, rfl, rfl, rfl, rfl, fun _ => Or.inl⟩

/-- Dropping the pins of a heap in order leaves it intact. -/
theorem PassOk.unpinned {L : HeapLayout} {h h' : PageHeap} {T : ObjTable} (hP : PassOk L h T)
    (hU : DropsPins h h') : Coherent L h' T where
  shape := hP.shape.congr hU.base hU.nPages
    (fun q => by rw [hU.descs]; exact ⟨rfl, rfl, rfl, rfl⟩) hU.startBits hU.mem hU.committed
    fun k hk => (hU.newCards k hk).imp_right (hP.shape.pages.backing.live _)
  regions := by
    intro g k q hq
    rw [hU.allocRegions] at hq ⊢
    rw [hU.descs]
    exact hP.regions g k q hq
  pins := by
    rw [hU.pinnedCells]
    exact fun c hc => absurd hc List.not_mem_nil
  explicit := by
    intro e he
    unfold PageHeap.explicitCells at he
    rw [hU.explicitPins] at he
    exact (hP.explicit e he).1
  inactive := hU.target.trans hP.inactive

/-- An object has been written into free room: its start bit, its first cell, nothing else. -/
structure Initialized (L : HeapLayout) (h h' : PageHeap) (cell : Nat) (o : ObjInfo) : Prop where
  control : SameControl h h'
  descs : h'.descs = h.descs
  allocRegions : h'.allocRegions = h.allocRegions
  startBits : h'.startBits = Function.update h.startBits cell o.startPair
  mem : ∀ c, c < cell ∨ cell + o.totalCells ≤ c → h'.mem c = h.mem c
  header : o.isCons = false → L.headerLayout (h'.mem cell) = .ok o.layout
  plain : h.plainWord L (h'.mem cell) = true
  committed : h'.committed = h.committed
  newCards : ∀ k, h'.cards k = true → h.cards k = true ∨
    ∃ i < o.totalCells, k = (cell + i) / cardSizeCells

/-- Room for an object: cells of a page in use where nothing starts. -/
structure FreeRoom (h : PageHeap) (T : ObjTable) (cell : Nat) (o : ObjInfo) : Prop where
  live : h.genAt cell ≠ .Free
  small : h.kindAt cell ≠ .Large
  fits : cell % pageSizeCells + o.totalCells ≤ (h.descs (cell / pageSizeCells)).wordsUsed
  cons : h.kindAt cell = .Cons → o.isCons = true
  gap : Shape.Gap T cell o.totalCells

namespace Coherent

variable {L : HeapLayout} {h h' : PageHeap} {T : ObjTable} {g : Generation} {k : PageKind}
  {cell n : Nat} {o : ObjInfo}

/-- A reservation keeps the heap intact. -/
theorem reserve (hI : Coherent L h T) (hV : Reserved h h' g k cell n) (hg : g ≠ .Free)
    (hk : k = .Cons ∨ k = .Boxed) : Coherent L h' T where
  shape := hV.shape hI.shape hg hk
  regions := hV.regions hI.regions hg hk
  pins := by
    intro c hc
    rw [hV.control.pinnedCells] at hc
    obtain ⟨hsome, hbit⟩ := hI.pins c hc
    refine ⟨hsome, ?_⟩
    by_cases hpage : c / pageSizeCells = cell / pageSizeCells
    · rw [hpage] at hbit ⊢
      rcases hV.source with ⟨hfree, -, -⟩ | ⟨-, -, -, -, hbyte, -⟩
      · -- a page that was free holds no pinned object
        obtain ⟨o, ho⟩ := Option.isSome_iff_exists.1 hsome
        refine absurd ?_ (hI.shape.live ho)
        unfold genAt at hfree ⊢
        rw [hpage, hfree]
      · unfold PageDesc.isPinned at hbit ⊢
        rw [hbyte]
        exact hbit
    · rw [hV.descs, Function.update_of_ne hpage]
      exact hbit
  explicit := by
    intro e he
    unfold explicitCells at he
    rw [hV.control.explicitPins] at he
    exact hI.explicit e he
  inactive := hV.control.target.trans hI.inactive

/-- The invariant reads the shape of the heap, its pages, its regions and its pins. -/
theorem of_shape (hI : Coherent L h T) (hS : Shape L h' T Forwarding.empty)
    (hcontrol : SameControl h h') (hdescs : h'.descs = h.descs)
    (hregions : h'.allocRegions = h.allocRegions) : Coherent L h' T where
  shape := hS
  regions := by
    intro g k q hq
    rw [hregions] at hq ⊢
    rw [hdescs]
    exact hI.regions g k q hq
  pins := by
    intro c hc
    rw [hcontrol.pinnedCells] at hc
    rw [hdescs]
    exact hI.pins c hc
  explicit := by
    intro e he
    unfold explicitCells at he
    rw [hcontrol.explicitPins] at he
    exact hI.explicit e he
  inactive := hcontrol.target.trans hI.inactive

theorem of_untouched (hI : Coherent L h T) (hU : Untouched h h') : Coherent L h' T :=
  hI.of_shape (hI.shape.congr hU.control.base hU.control.nPages
    (fun q => by rw [hU.descs]; exact PageDesc.SameRole.refl _) hU.startBits hU.mem hU.committed
    fun k hk => Or.inl (by rwa [hU.cards] at hk)) hU.control
    hU.descs hU.allocRegions

/-- A new object in free room. -/
theorem place (hI : Coherent L h T) (hroom : FreeRoom h T cell o) (hwf : o.WellFormed)
    (hN : Initialized L h h' cell o) : Coherent L h' (Function.update T cell (some o)) := by
  have hkeep : ∀ c, (T c).isSome → (Function.update T cell (some o) c).isSome := by
    intro c hc
    by_cases hcell : c = cell
    · subst hcell
      rw [Function.update_self]
      rfl
    · rw [Function.update_of_ne hcell]
      exact hc
  constructor
  · refine hI.shape.place hN.control.base hN.control.nPages
      (fun p => by rw [hN.descs]; exact PageDesc.SameRole.refl _) hN.committed ?_ hroom.live
      hroom.small hwf hroom.fits hroom.cons hroom.gap hN.startBits ?_ hN.header hN.plain
    · -- the cards over the object lie on its page
      intro k hk
      refine (hN.newCards k hk).imp_right ?_
      rintro ⟨i, hi, rfl⟩
      have hfits := hroom.fits
      have hused := hI.shape.pages.used (cell / pageSizeCells)
      have hpage : (cell + i) / cardSizeCells / cardsPerPage = cell / pageSizeCells := by
        unfold cardSizeCells cardsPerPage pageSizeCells at *
        omega
      rw [hpage]
      exact hI.shape.pages.backing.live _ hroom.live
    · intro c o' hc
      have hpos := (hI.shape.wf hc).pos
      refine hN.mem c ?_
      rcases hroom.gap c o' hc with hle | hle
      · left; omega
      · right; omega
  · intro g k q hq
    rw [hN.allocRegions] at hq ⊢
    rw [hN.descs]
    exact hI.regions g k q hq
  · intro c hc
    rw [hN.control.pinnedCells] at hc
    rw [hN.descs]
    exact ⟨hkeep c (hI.pins c hc).1, (hI.pins c hc).2⟩
  · intro e he
    unfold explicitCells at he
    rw [hN.control.explicitPins] at he
    exact hkeep e (hI.explicit e he)
  · exact hN.control.target.trans hI.inactive

end Coherent

/-! ## Open buffers -/

/-- An open buffer: cells of one page in use that no object holds. -/
structure SlabOk (h : PageHeap) (T : ObjTable) (s : Slab) : Prop where
  ordered : s.cursor ≤ s.stop
  kind : s.kind = .Cons ∨ s.kind = .Boxed
  page : ∃ p, p * pageSizeCells ≤ s.cursor ∧ s.stop ≤ p * pageSizeCells + (h.descs p).wordsUsed ∧
    (h.descs p).generation ≠ .Free ∧ (h.descs p).kind = s.kind
  gap : Shape.Gap T s.cursor (s.stop - s.cursor)

/-- Two buffers share no cell. -/
def Slab.Apart (s s' : Slab) : Prop := s.stop ≤ s'.cursor ∨ s'.stop ≤ s.cursor

structure SlabsOk (h : PageHeap) (T : ObjTable) (slabs : List Slab) : Prop where
  each : ∀ s ∈ slabs, SlabOk h T s
  apart : slabs.Pairwise Slab.Apart

namespace SlabOk

variable {L : HeapLayout} {h h' : PageHeap} {T : ObjTable} {g : Generation} {k : PageKind}
  {cell n : Nat} {s : Slab}

theorem congr (hs : SlabOk h T s) (hdescs : h'.descs = h.descs) : SlabOk h' T s := by
  obtain ⟨p, hp⟩ := hs.page
  exact ⟨hs.ordered, hs.kind, ⟨p, by rw [hdescs]; exact hp⟩, hs.gap⟩

/-- A reservation stays clear of the open buffers. -/
theorem reserve (hs : SlabOk h T s) (hP : PagesOk h) (hV : Reserved h h' g k cell n) :
    SlabOk h' T s ∧ (s.stop ≤ cell ∨ cell + n ≤ s.cursor) := by
  obtain ⟨p, hlo, hhi, hlive, hkind⟩ := hs.page
  have hused := hP.used p
  have hfits := hV.fits
  by_cases hpage : p = cell / pageSizeCells
  · rcases hV.source with ⟨hfree, -, -⟩ | ⟨hgen₀, hkind₀, -, hused₀, -, -⟩
    · unfold genAt at hfree
      rw [← hpage] at hfree
      exact absurd hfree hlive
    · have hgen := hV.generation
      have hkindV := hV.kind
      have husedV := hV.used
      unfold genAt at hgen₀ hgen
      unfold kindAt at hkind₀ hkindV
      rw [← hpage] at hgen₀ hkind₀ hused₀ hgen hkindV husedV
      refine ⟨⟨hs.ordered, hs.kind, ⟨p, hlo, ?_, ?_, ?_⟩, hs.gap⟩, ?_⟩
      · rw [husedV]
        omega
      · rw [hgen, ← hgen₀]
        exact hlive
      · rw [hkindV, ← hkind₀]
        exact hkind
      · left
        unfold pageSizeCells at *
        omega
  · refine ⟨⟨hs.ordered, hs.kind, ⟨p, hlo, ?_⟩, hs.gap⟩, ?_⟩
    · rw [hV.descs, Function.update_of_ne hpage]
      exact ⟨hhi, hlive, hkind⟩
    · have hord := hs.ordered
      unfold pageSizeCells at *
      omega

/-- An object written outside the buffer. -/
theorem place (hs : SlabOk h T s) {o : ObjInfo} (hdescs : h'.descs = h.descs)
    (hout : s.stop ≤ cell ∨ cell + o.totalCells ≤ s.cursor) :
    SlabOk h' (Function.update T cell (some o)) s := by
  obtain ⟨p, hp⟩ := hs.page
  refine ⟨hs.ordered, hs.kind, ⟨p, by rw [hdescs]; exact hp⟩, ?_⟩
  intro c o' hc
  have hord := hs.ordered
  by_cases hcell : c = cell
  · subst hcell
    rw [Function.update_self] at hc
    cases hc
    omega
  · rw [Function.update_of_ne hcell] at hc
    exact hs.gap c o' hc

/-- The page of the cell a buffer is bumped at. -/
theorem cursor_page (hs : SlabOk h T s) (hP : PagesOk h) (hn : 1 ≤ n)
    (hroom : s.cursor + n ≤ s.stop) : h.genAt s.cursor ≠ .Free ∧ h.kindAt s.cursor = s.kind ∧
      s.cursor % pageSizeCells + n ≤ (h.descs (s.cursor / pageSizeCells)).wordsUsed := by
  obtain ⟨p, hlo, hhi, hlive, hkind⟩ := hs.page
  have hused := hP.used p
  have hpage : s.cursor / pageSizeCells = p := by
    unfold pageSizeCells at *
    omega
  unfold genAt kindAt
  rw [hpage]
  refine ⟨hlive, hkind, ?_⟩
  unfold pageSizeCells at *
  omega

end SlabOk

namespace SlabsOk

variable {L : HeapLayout} {h h' : PageHeap} {T : ObjTable} {g : Generation} {k : PageKind}
  {cell n : Nat} {slabs : List Slab}

theorem congr (hs : SlabsOk h T slabs) (hdescs : h'.descs = h.descs) : SlabsOk h' T slabs :=
  ⟨fun s hm => (hs.each s hm).congr hdescs, hs.apart⟩

theorem nil (h : PageHeap) (T : ObjTable) : SlabsOk h T [] :=
  ⟨fun _ hm => absurd hm List.not_mem_nil, List.Pairwise.nil⟩

theorem reserve (hs : SlabsOk h T slabs) (hP : PagesOk h) (hV : Reserved h h' g k cell n) :
    SlabsOk h' T slabs :=
  ⟨fun s hm => ((hs.each s hm).reserve hP hV).1, hs.apart⟩

/-- The reserved cells become a buffer. -/
theorem cons (hs : SlabsOk h T slabs) (hS : Shape L h T Forwarding.empty)
    (hV : Reserved h h' g k cell n) (hg : g ≠ .Free) (hk : k = .Cons ∨ k = .Boxed) :
    SlabsOk h' T ({ kind := k, cursor := cell, stop := cell + n } :: slabs) := by
  have hP := hS.pages
  refine ⟨?_, List.pairwise_cons.2 ⟨?_, hs.apart⟩⟩
  · intro s hm
    rcases List.mem_cons.1 hm with rfl | hm
    · refine ⟨Nat.le_add_right _ _, hk, ⟨cell / pageSizeCells, ?_, ?_, ?_, hV.kind⟩, ?_⟩
      · unfold pageSizeCells
        dsimp only
        omega
      · have hused := hV.used
        unfold pageSizeCells at *
        dsimp only
        omega
      · have hgen := hV.generation
        unfold genAt at hgen
        rw [hgen]
        exact hg
      · show Shape.Gap T cell (cell + n - cell)
        rw [Nat.add_sub_cancel_left]
        exact hV.gap hS hk
    · exact ((hs.each s hm).reserve hP hV).1
  · intro s hm
    exact ((hs.each s hm).reserve hP hV).2.symm

end SlabsOk

section PairwiseSet

variable {α : Type} {R : α → α → Prop} {l : List α} {x y : α}

/-- A pairwise relation survives the replacement of one element by one that stands in the same
relations. -/
theorem pairwise_set (hl : l.Pairwise R) (hleft : ∀ z ∈ l, R x z → R y z)
    (hright : ∀ z ∈ l, R z x → R z y) : ∀ i, l[i]? = some x → (l.set i y).Pairwise R := by
  induction l with
  | nil => intro i hi; cases hi
  | cons z l ih =>
      intro i hi
      obtain ⟨hz, hl'⟩ := List.pairwise_cons.1 hl
      cases i with
      | zero =>
          cases hi
          refine List.pairwise_cons.2 ⟨?_, hl'⟩
          exact fun w hw => hleft w (List.mem_cons_of_mem _ hw) (hz w hw)
      | succ i =>
          have hi' : l[i]? = some x := hi
          refine List.pairwise_cons.2 ⟨?_, ih hl'
            (fun w hw => hleft w (List.mem_cons_of_mem _ hw))
            (fun w hw => hright w (List.mem_cons_of_mem _ hw)) i hi'⟩
          intro w hw
          rcases List.mem_or_eq_of_mem_set hw with hw | rfl
          · exact hz w hw
          · exact hright z List.mem_cons_self (hz x (List.mem_of_getElem? hi'))

/-- The other elements of the list stand in the relation to the one that is replaced. -/
theorem mem_set_pairwise (hl : l.Pairwise R) {z : α} :
    ∀ i, l[i]? = some x → z ∈ l.set i y → z = y ∨ (z ∈ l ∧ (R x z ∨ R z x)) := by
  induction l with
  | nil => intro i hi; cases hi
  | cons w l ih =>
      intro i hi hz
      obtain ⟨hw, hl'⟩ := List.pairwise_cons.1 hl
      cases i with
      | zero =>
          cases hi
          rcases List.mem_cons.1 hz with rfl | hz
          · exact Or.inl rfl
          · exact Or.inr ⟨List.mem_cons_of_mem _ hz, Or.inl (hw z hz)⟩
      | succ i =>
          have hi' : l[i]? = some x := hi
          rcases List.mem_cons.1 hz with rfl | hz
          · exact Or.inr ⟨List.mem_cons_self, Or.inr (hw x (List.mem_of_getElem? hi'))⟩
          · refine (ih hl' i hi' hz).imp_right ?_
            exact fun h => ⟨List.mem_cons_of_mem _ h.1, h.2⟩

end PairwiseSet

/-- A buffer is bumped: the new object lies in its cells, and in no other buffer's. -/
theorem SlabsOk.bump {h h' : PageHeap} {T : ObjTable} {slabs : List Slab} (hs : SlabsOk h T slabs)
    {i : Nat} {s : Slab} {o : ObjInfo} (hi : slabs[i]? = some s)
    (hroom : s.cursor + o.totalCells ≤ s.stop) (hpos : 1 ≤ o.totalCells)
    (hdescs : h'.descs = h.descs) : SlabsOk h' (Function.update T s.cursor (some o))
      (slabs.set i { s with cursor := s.cursor + o.totalCells }) := by
  have hslab := hs.each s (List.mem_of_getElem? hi)
  constructor
  · intro z hz
    rcases mem_set_pairwise hs.apart i hi hz with rfl | ⟨hmem, hapart⟩
    · -- the rest of the buffer itself
      obtain ⟨p, hlo, hhi, hlive⟩ := hslab.page
      refine ⟨hroom, hslab.kind, ⟨p, Nat.le_trans hlo (Nat.le_add_right _ _), ?_⟩, ?_⟩
      · rw [hdescs]
        exact ⟨hhi, hlive⟩
      · intro c o' hc
        dsimp only at *
        by_cases hcell : c = s.cursor
        · subst hcell
          rw [Function.update_self] at hc
          cases hc
          exact Or.inl (Nat.le_refl _)
        · rw [Function.update_of_ne hcell] at hc
          rcases hslab.gap c o' hc with hle | hle
          · left; omega
          · right; omega
    · refine (hs.each z hmem).place hdescs ?_
      have hord := (hs.each z hmem).ordered
      unfold Slab.Apart at hapart
      omega
  · refine pairwise_set hs.apart ?_ ?_ i hi
    · intro z _ hz
      unfold Slab.Apart at hz ⊢
      dsimp only
      omega
    · intro z _ hz
      unfold Slab.Apart at hz ⊢
      dsimp only
      omega

/-! ## Writing an object -/

/-- The start bit of a new object is set, and nothing else has changed. -/
structure Started (h h' : PageHeap) (cell : Nat) (o : ObjInfo) : Prop where
  control : SameControl h h'
  descs : h'.descs = h.descs
  allocRegions : h'.allocRegions = h.allocRegions
  startBits : h'.startBits = Function.update h.startBits cell o.startPair
  mem : h'.mem = h.mem
  committed : h'.committed = h.committed
  cards : h'.cards = h.cards

section Writing

variable {L : HeapLayout} {h h' h₁ : PageHeap} {T : ObjTable} {g : Generation} {cell : Nat}
  {o : ObjInfo}

theorem markCardAt_eq (h : PageHeap) (c : Nat) :
    ∃ cards, h.markCardAt (h.cellAddr c) = { h with cards := cards } ∧
      ∀ k, cards k = true → h.cards k = true ∨ k = c / cardSizeCells := by
  unfold markCardAt
  split
  · exact ⟨_, rfl, fun _ => Or.inl⟩
  · split
    · refine ⟨_, rfl, fun k hk => ?_⟩
      have hcard : (h.cellAddr c - h.base) / cardSizeBytes = c / cardSizeCells := by
        unfold cellAddr cardSizeBytes cardSizeCells
        omega
      rw [hcard] at hk
      by_cases hkc : k = c / cardSizeCells
      · exact Or.inr hkc
      · rw [Function.update_of_ne hkc] at hk
        exact Or.inl hk
    · exact ⟨_, rfl, fun _ => Or.inl⟩

theorem barrierStore_eq (h : PageHeap) (c : Nat) (v : Word) :
    ∃ cards, World.barrierStore h c v = { h.setCell c v with cards := cards } ∧
      ∀ k, cards k = true → h.cards k = true ∨ k = c / cardSizeCells :=
  markCardAt_eq (h.setCell c v) c

theorem initCons_eq (h : PageHeap) (c : Nat) (car cdr : Word) :
    ∃ cards, World.initCons h c car cdr = { h with
      mem := Function.update (Function.update h.mem c car) (c + 1) cdr
      cards := cards } ∧
      ∀ k, cards k = true → h.cards k = true ∨ ∃ i < 2, k = (c + i) / cardSizeCells := by
  unfold World.initCons
  obtain ⟨cards, hcar, hnew⟩ := barrierStore_eq h c car
  rw [hcar]
  obtain ⟨cards', hcdr, hnew'⟩ :=
    barrierStore_eq ({ h.setCell c car with cards := cards }) (c + 1) cdr
  refine ⟨cards', hcdr, fun k hk => ?_⟩
  rcases hnew' k hk with hold | hk'
  · exact (hnew k hold).imp_right fun hk' => ⟨0, by decide, hk'⟩
  · exact Or.inr ⟨1, by decide, hk'⟩

/-- A cons is written behind the barrier. -/
theorem Started.cons (hN : Started h h' cell ObjInfo.cons) {car cdr : Word}
    (hcar : h.plainWord L car = true) :
    Initialized L h (World.initCons h' cell car cdr) cell ObjInfo.cons := by
  obtain ⟨cards, heq, hnew⟩ := initCons_eq h' cell car cdr
  rw [heq]
  refine ⟨hN.control.trans ⟨rfl, rfl, rfl, rfl, rfl, rfl, rfl⟩, hN.descs, hN.allocRegions,
    hN.startBits, ?_, ?_, ?_, hN.committed, fun k hk => by rw [← hN.cards]; exact hnew k hk⟩
  · intro c hc
    have htotal : ObjInfo.cons.totalCells = 2 := rfl
    rw [htotal] at hc
    show Function.update (Function.update h'.mem cell car) (cell + 1) cdr c = h.mem c
    rw [Function.update_of_ne (by omega), Function.update_of_ne (by omega), hN.mem]
  · intro hcons
    cases hcons
  · show h.plainWord L (Function.update (Function.update h'.mem cell car) (cell + 1) cdr cell) = true
    rw [Function.update_of_ne (by omega), Function.update_self]
    exact hcar

/-- A header is written. -/
theorem Started.header (hN : Started h h' cell o) (hpos : 1 ≤ o.totalCells) {header : Word}
    (hlayout : L.headerLayout header = .ok o.layout) (hplain : h.plainWord L header = true) :
    Initialized L h (h'.setCell cell header) cell o := by
  have hself : (h'.setCell cell header).mem cell = header := Function.update_self ..
  refine ⟨hN.control.trans ⟨rfl, rfl, rfl, rfl, rfl, rfl, rfl⟩, hN.descs, hN.allocRegions,
    hN.startBits, ?_, ?_, ?_, hN.committed, fun k hk => Or.inl (by rw [← hN.cards]; exact hk)⟩
  · intro c hc
    show Function.update h'.mem cell header c = h.mem c
    rw [Function.update_of_ne (by omega), hN.mem]
  · intro _
    rw [hself]
    exact hlayout
  · rw [hself]
    exact hplain

/-- An allocator starts the object in the heap of its reservation. -/
theorem Allocated.started
    (hA : Allocated h h' g (destKind o.isCons) cell o.totalCells o.isCons h₁)
    (hS : Shape L h T Forwarding.empty) (hg : g ≠ .Free) (hwf : o.WellFormed) :
    Started h₁ h' cell o := by
  have hT := hA.fresh hS hwf
  have hS₁ := hA.reserved.shape hS hg (destKind_small _)
  have hlive : h₁.genAt cell ≠ .Free := by
    rw [hA.reserved.generation]
    exact hg
  refine ⟨?_, hA.descs, hA.allocRegions, hA.startBits hS₁ hT hlive, hA.mem, hA.committed,
    hA.cards.trans hA.reserved.cards.symm⟩
  rw [hA.result]
  unfold countBytes markStart
  split <;> exact ⟨rfl, rfl, rfl, rfl, rfl, rfl, rfl⟩

/-- The reserved cells are room for the object. -/
theorem Reserved.room (hV : Reserved h h₁ g (destKind o.isCons) cell o.totalCells)
    (hS : Shape L h T Forwarding.empty) (hg : g ≠ .Free) : FreeRoom h₁ T cell o where
  live := by
    rw [hV.generation]
    exact hg
  small := by
    rw [hV.kind]
    exact destKind_ne_large _
  fits := by rw [hV.used]
  cons := by
    intro hk
    rw [hV.kind] at hk
    revert hk
    cases o.isCons <;> simp [destKind]
  gap := hV.gap hS (destKind_small _)

end Writing

/-! ## Reserving a buffer -/

section Slabs

variable {h h' : PageHeap} {g : Generation} {k : PageKind} {cell n : Nat}

theorem Reserved.countBytes (hV : Reserved h h' g k cell n) (m : Nat) :
    Reserved h (countBytes h' m) g k cell n :=
  ⟨hV.control.trans ⟨rfl, rfl, rfl, rfl, rfl, rfl, rfl⟩, hV.cards, hV.lt, hV.fits, hV.descs,
    hV.generation, hV.kind, hV.used, hV.source, hV.region, hV.otherRegion, hV.start, hV.clear,
    hV.mem, hV.committed⟩

/-- What carving a buffer out of the open page reserves. -/
theorem carveTlabInCurrent_some {want : Nat} (hP : PagesOk h) (hR : RegionOk h g k)
    (hwant : 1 ≤ want) (hcarve : h.carveTlabInCurrent g k want = some ((cell, n), h')) :
    Reserved h h' g k cell n := by
  rw [carveTlabInCurrent_eq] at hcarve
  obtain ⟨p, hp, hcarve⟩ := Option.bind_eq_some_iff.1 hcarve
  dsimp only at hcarve
  split at hcarve
  · cases hcarve
  · rename_i havail
    cases hcarve
    refine Reserved.of_open hP hR hp ?_ ?_
    · have hmin := Nat.min_le_right want (pageSizeCells - (h.allocRegions g k).offset)
      omega
    · omega

/-- A buffer is carved at the offset of the open page. -/
theorem carveTlabInCurrent_at {p off len want : Nat}
    (hr : h.allocRegions g k = { currentPage := some p, offset := off }) (hoff : off < pageSizeCells)
    (hlen : len = min want (pageSizeCells - off)) (hcell : cell = p * pageSizeCells + off) :
    h.carveTlabInCurrent g k want = some ((cell, len), advanceRegion h g k p off len) := by
  have hroom : ¬ pageSizeCells - off = 0 := by omega
  rw [carveTlabInCurrent_eq, hr, Option.bind_some, hlen, hcell]
  exact if_neg hroom

/-- The mixed region is bumped at the offset of the open page. -/
theorem tryBumpG0Mixed_at {p off : Nat}
    (hr : h.allocRegions .G0 .Boxed = { currentPage := some p, offset := off })
    (hoff : off + n ≤ pageSizeCells) (hcell : cell = p * pageSizeCells + off) :
    h.tryBumpG0Mixed n = some (cell, countBytes (advanceRegion h .G0 .Boxed p off n) n) := by
  have hroom : ¬ off + n > pageSizeCells := by omega
  rw [tryBumpG0Mixed_eq, hr, Option.bind_some, hcell]
  exact if_neg hroom

/-- A freshly opened page can be carved. -/
theorem carveTlabInCurrent_opened {h₁ : PageHeap} {p want : Nat} (hA : Acquired h h₁ g k p) :
    ∃ n h', (h₁.setAllocRegion g k { currentPage := some p, offset := 0 }).carveTlabInCurrent
      g k want = some ((p * pageSizeCells, n), h') ∧ Reserved h h' g k (p * pageSizeCells) n :=
  ⟨min want pageSizeCells, _,
    carveTlabInCurrent_at (setAllocRegion_self _ _ _ _) (by decide) (by rw [Nat.sub_zero])
      (Nat.add_zero _).symm,
    Reserved.of_acquired hA (Nat.min_le_right _ _)⟩

/-- A freshly opened page can be bumped by the mutators. -/
theorem tryBumpG0Mixed_opened {h₁ : PageHeap} {p : Nat} (hA : Acquired h h₁ .G0 .Boxed p)
    (hn : n ≤ pageSizeCells) :
    ∃ h', (h₁.setAllocRegion .G0 .Boxed { currentPage := some p, offset := 0 }).tryBumpG0Mixed n =
      some (p * pageSizeCells, h') ∧ Reserved h h' .G0 .Boxed (p * pageSizeCells) n :=
  ⟨_, tryBumpG0Mixed_at (setAllocRegion_self _ _ _ _) (by omega) (Nat.add_zero _).symm,
    (Reserved.of_acquired hA hn).countBytes n⟩

theorem reserveTlab_some {minCells wantCells : Nat} (hP : PagesOk h) (hR : RegionOk h g k)
    (hres : h.reserveTlab g k minCells wantCells = (some (cell, n), h')) :
    Reserved h h' g k cell n := by
  have hwant : 1 ≤ max (max minCells 1) (Nat.min wantCells pageSizeCells) :=
    le_max_of_le_left (le_max_right _ _)
  unfold reserveTlab at hres
  split at hres
  · cases hres
  · dsimp only at hres
    split at hres
    · split at hres
      · rename_i slab h₂ hcarve
        cases hres
        exact carveTlabInCurrent_some hP hR hwant hcarve
      · cases hres
    · split at hres
      · cases hres
      · split at hres
        · cases hres
        · rename_i p h₁ hacq
          obtain ⟨m, h₂, hcarve, hV⟩ := carveTlabInCurrent_opened (acquireFreePage_some hacq)
          rw [hcarve] at hres
          cases hres
          exact hV

theorem reserveTlab_none {minCells wantCells : Nat}
    (hres : h.reserveTlab g k minCells wantCells = (none, h')) : Untouched h h' := by
  have hwant : 1 ≤ max (max minCells 1) (Nat.min wantCells pageSizeCells) :=
    le_max_of_le_left (le_max_right _ _)
  unfold reserveTlab at hres
  split at hres
  · cases hres
    exact Untouched.refl h
  · dsimp only at hres
    split at hres
    · split at hres
      · cases hres
      · cases hres
        exact Untouched.refl h
    · split at hres
      · cases hres
        exact Untouched.refl h
      · split at hres
        · rename_i h₂ hacq
          cases hres
          exact acquireFreePage_none hacq
        · rename_i p h₁ hacq
          obtain ⟨m, h₂, hcarve, -⟩ := carveTlabInCurrent_opened (acquireFreePage_some hacq)
          rw [hcarve] at hres
          cases hres

/-- The mixed slab of the mutators is a reservation in the Boxed region of G0. -/
theorem tryAllocG0Slab_some {cells : Nat} (hP : PagesOk h) (hR : RegionOk h .G0 .Boxed)
    (hres : h.tryAllocG0Slab cells = (some (cell, n), h')) :
    Reserved h h' .G0 .Boxed cell n := by
  unfold tryAllocG0Slab at hres
  split at hres
  · cases hres
  · rename_i hcells
    have hmin : 1 ≤ min cells pageSizeCells := by
      unfold pageSizeCells
      omega
    dsimp only at hres
    split at hres
    · rename_i slab h₂ hslab
      cases hres
      unfold tryAllocG0ConsSlab at hslab
      dsimp only at hslab
      rw [tryBumpG0Mixed_eq] at hslab
      split at hslab
      · rename_i c h₃ hbump
        cases hslab
        obtain ⟨p, hp, hbump⟩ := Option.bind_eq_some_iff.1 hbump
        split at hbump
        · cases hbump
        · rename_i hroom
          cases hbump
          exact (Reserved.of_open hP hR hp (by omega) (by omega)).countBytes _
      · split at hslab
        · cases hslab
        · split at hslab
          · cases hslab
          · split at hslab
            · cases hslab
            · rename_i p h₁ hacq
              obtain ⟨h₂, hbump, hV⟩ := tryBumpG0Mixed_opened (acquireFreePage_some hacq)
                (Nat.min_le_right cells pageSizeCells)
              rw [hbump] at hslab
              cases hslab
              exact hV
    · cases hres

theorem tryAllocG0Slab_none {cells : Nat} (hres : h.tryAllocG0Slab cells = (none, h')) :
    Untouched h h' := by
  unfold tryAllocG0Slab at hres
  split at hres
  · cases hres
    exact Untouched.refl h
  · dsimp only at hres
    split at hres
    · cases hres
    · rename_i h₂ hslab
      cases hres
      unfold tryAllocG0ConsSlab at hslab
      dsimp only at hslab
      split at hslab
      · cases hslab
      · split at hslab
        · cases hslab
          exact Untouched.refl h
        · split at hslab
          · cases hslab
            exact Untouched.refl h
          · split at hslab
            · rename_i h₃ hacq
              cases hslab
              exact acquireFreePage_none hacq
            · rename_i p h₁ hacq
              obtain ⟨h₂, hbump, -⟩ := tryBumpG0Mixed_opened (acquireFreePage_some hacq)
                (Nat.min_le_right cells pageSizeCells)
              rw [hbump] at hslab
              cases hslab

end Slabs

/-! ## Pins -/

section Pins

variable {L : HeapLayout} {h h' : PageHeap} {T : ObjTable} {g : Generation}

/-- Cells were pinned: starts on pages in use. -/
def StartsPinned (h h' : PageHeap) : Prop :=
  ∃ cells, PinsRecorded h cells h' ∧ ∀ c ∈ cells, h.genAt c ≠ .Free ∧ h.isStartAt c = true

/-- The gates of a conservative pin. -/
theorem pinCandidate_some {rangeLo rangeHi : Nat} {raw : Word} {c : Nat}
    (hc : pinCandidate L h g rangeLo rangeHi raw = some c) :
    h.genAt c = g ∧ h.isStartAt c = true := by
  unfold pinCandidate at hc
  split at hc
  · cases hc
  · split at hc
    · cases hc
    · split at hc
      · cases hc
      · rename_i p hp
        split at hc
        · cases hc
        · rename_i hgen
          split at hc
          · rename_i hstart
            cases hc
            unfold PageHeap.genAt
            rw [← pageOf_eq hp]
            exact ⟨not_not.1 hgen, hstart⟩
          · cases hc

theorem StartsPinned.pinWord (hg : g ≠ .Free) (rangeLo rangeHi : Nat) {s : PageHeap × Nat}
    (hs : StartsPinned h s.1) (raw : Word) :
    StartsPinned h (pinWord L g rangeLo rangeHi s raw).1 := by
  unfold PageHeap.pinWord
  split
  · exact hs
  · rename_i c hc
    obtain ⟨cells, hR, hcells⟩ := hs
    obtain ⟨hgen, hstart⟩ := pinCandidate_some hc
    rw [hR.genAt] at hgen
    have hstart' : h.isStartAt c = true := by
      unfold isStartAt at hstart ⊢
      rwa [hR.sameObjects.startBits] at hstart
    refine ⟨cells ++ [c], hR.snoc (by rw [hgen]; exact hg), ?_⟩
    intro x hx
    rcases List.mem_append.1 hx with hx | hx
    · exact hcells x hx
    · rw [List.mem_singleton] at hx
      subst hx
      exact ⟨by rw [hgen]; exact hg, hstart'⟩

/-- A scan of ranges pins object starts. -/
theorem pinPointersInRanges_pinned (ext : Nat → Word) (h : PageHeap) (hg : g ≠ .Free)
    (ranges : List (Nat × Nat)) :
    StartsPinned h (h.pinPointersInRanges L ext g ranges).2 := by
  have hone : ∀ (r : Nat × Nat) (s : PageHeap × Nat), StartsPinned h s.1 →
      StartsPinned h (pinRangeOne L ext g s r).1 := by
    intro r s hs
    unfold pinRangeOne
    generalize stackSlots r.1 r.2 = slots
    induction slots generalizing s with
    | nil => exact hs
    | cons slot slots ih => exact ih _ (hs.pinWord hg r.1 r.2 (ext slot))
  have hfold : ∀ s : PageHeap × Nat, StartsPinned h s.1 →
      StartsPinned h (ranges.foldl (pinRangeOne L ext g) s).1 := by
    induction ranges with
    | nil => exact fun s hs => hs
    | cons r ranges ih => exact fun s hs => ih _ (hone r s hs)
  exact hfold (h, 0) ⟨[], .nil h, by simp⟩

/-- Pinning starts keeps the heap intact. -/
theorem Coherent.pinned (hI : Coherent L h T) (hP : StartsPinned h h') : Coherent L h' T := by
  obtain ⟨cells, hR, hcells⟩ := hP
  have hO := hR.sameObjects
  have hsame := hR.same
  have hexplicit : h'.explicitPins = h.explicitPins := by rw [hsame]
  have hregions : h'.allocRegions = h.allocRegions := by rw [hsame]
  have htarget : h'.recycleLiveCountsTarget = h.recycleLiveCountsTarget := by rw [hsame]
  constructor
  · exact hO.shape hI.shape
  · intro g k q hq
    rw [hregions] at hq ⊢
    have hrole := hO.role q
    rw [hrole.generation, hrole.kind, hrole.wordsUsed]
    exact hI.regions g k q hq
  · intro c hc
    rcases hR.newPins c hc with hold | ⟨hin, hlive⟩
    · exact ⟨(hI.pins c hold).1, hR.bits _ _ (hI.pins c hold).2⟩
    · obtain ⟨o, ho⟩ := (hI.shape.isStartAt_iff hlive).1 (hcells c hin).2
      exact ⟨Option.isSome_of_eq_some ho, (hR.recorded c hin hlive).2⟩
  · intro e he
    unfold explicitCells at he
    rw [hexplicit] at he
    exact hI.explicit e he
  · exact htarget.trans hI.inactive

/-- The pins a client holds, changed so that each still names an object. -/
theorem Coherent.repin (hI : Coherent L h T) {pins : List (Nat × Nat)}
    (hpins : ∀ e ∈ pins.map (·.1), (T e).isSome) : Coherent L { h with explicitPins := pins } T where
  shape := hI.shape.congr rfl rfl (fun _ => PageDesc.SameRole.refl _) rfl rfl rfl
    fun _ => Or.inl
  regions := hI.regions
  pins := hI.pins
  explicit := hpins
  inactive := hI.inactive

theorem mem_bumpExplicitPin {cell e : Nat} : ∀ {pins : List (Nat × Nat)},
    e ∈ (bumpExplicitPin cell pins).map (·.1) → e = cell ∨ e ∈ pins.map (·.1) := by
  intro pins
  induction pins with
  | nil => simp [bumpExplicitPin]
  | cons head pins ih =>
      obtain ⟨c, n⟩ := head
      unfold bumpExplicitPin
      split
      · exact fun he => Or.inr he
      · intro he
        rw [List.map_cons, List.mem_cons] at he ⊢
        rcases he with he | he
        · exact Or.inr (Or.inl he)
        · exact (ih he).imp_right Or.inr

theorem mem_dropExplicitPin {cell e : Nat} : ∀ {pins : List (Nat × Nat)},
    e ∈ (dropExplicitPin cell pins).map (·.1) → e ∈ pins.map (·.1) := by
  intro pins
  induction pins with
  | nil => simp [dropExplicitPin]
  | cons head pins ih =>
      obtain ⟨c, n⟩ := head
      unfold dropExplicitPin
      split
      · split
        · exact fun he => List.mem_cons_of_mem _ he
        · exact fun he => he
      · intro he
        rw [List.map_cons, List.mem_cons] at he ⊢
        exact he.imp_right ih

/-- What can be pinned is an object. -/
theorem pinTargetCell_some (hS : Shape L h T Forwarding.empty) {v : Word} {c : Nat}
    (hc : h.pinTargetCell L v = some c) : (T c).isSome := by
  unfold pinTargetCell at hc
  split at hc
  · cases hc
  · split at hc
    · cases hc
    · rename_i p hp
      split at hc
      · cases hc
      · rename_i hgen
        split at hc
        · rename_i hstart
          cases hc
          rw [pageOf_eq hp] at hgen
          obtain ⟨o, ho⟩ := (hS.isStartAt_iff hgen).1 hstart
          exact Option.isSome_of_eq_some ho
        · cases hc

end Pins

/-! ## Large objects -/

/-- Page `q` belongs to the run of `n` pages from `start` on. -/
def OnRun (start n q : Nat) : Prop := start ≤ q ∧ q < start + n

instance (start n q : Nat) : Decidable (OnRun start n q) := inferInstanceAs (Decidable (_ ∧ _))

/-- A large object has been written over a run of free pages. -/
structure RunPlaced (L : HeapLayout) (h h' : PageHeap) (g : Generation) (start n : Nat)
    (o : ObjInfo) : Prop where
  control : SameControl h h'
  allocRegions : h'.allocRegions = h.allocRegions
  pos : 1 ≤ n
  span : n < 65536
  fits : start + n ≤ h.nPages
  free : ∀ q, OnRun start n q → (h.descs q).generation = .Free
  inside : ∀ q, OnRun start n q → h'.descs q = largeDesc g n (q - start)
  outside : ∀ q, ¬ OnRun start n q → h'.descs q = h.descs q
  startBits : ∀ c, h'.startBits c = if c = start * pageSizeCells then .header
    else if OnRun start n (c / pageSizeCells) then .none else h.startBits c
  mem : ∀ c, ¬ OnRun start n (c / pageSizeCells) → h'.mem c = h.mem c
  header : L.headerLayout (h'.mem (start * pageSizeCells)) = .ok o.layout
  plain : h.plainWord L (h'.mem (start * pageSizeCells)) = true
  committed : ∀ q, OnRun start n q ∨ h.committed q = true → h'.committed q = true
  cards : h'.cards = h.cards

namespace RunPlaced

variable {L : HeapLayout} {h h' : PageHeap} {T : ObjTable} {g : Generation} {start n : Nat}
  {o : ObjInfo}

theorem nSpan (hR : RunPlaced L h h' g start n o) {q : Nat} (hq : OnRun start n q) :
    (h'.descs q).kind = .Large ∧ (h'.descs q).generation = g ∧
      (h'.descs q).wordsUsed = pageSizeCells ∧
      (h'.descs q).nSpan = if q = start then n else 0 := by
  rw [hR.inside q hq]
  refine ⟨rfl, rfl, rfl, ?_⟩
  have hspan : n % 65536 = n := Nat.mod_eq_of_lt hR.span
  show (if q - start = 0 then n % 65536 else 0) = _
  rw [hspan]
  unfold OnRun at hq
  split <;> split <;> omega

/-- A page in use before is off the run, and its descriptor is unchanged. -/
theorem live (hR : RunPlaced L h h' g start n o) {q : Nat}
    (hq : (h.descs q).generation ≠ .Free) : ¬ OnRun start n q ∧ h'.descs q = h.descs q := by
  have hout : ¬ OnRun start n q := fun hin => hq (hR.free q hin)
  exact ⟨hout, hR.outside q hout⟩

/-- The page table with the new run. -/
theorem pages (hR : RunPlaced L h h' g start n o) (hP : PagesOk h) (hg : g ≠ .Free) :
    PagesOk h' where
  aligned := by
    rw [hR.control.base]
    exact hP.aligned
  fits := by
    rw [hR.control.base, hR.control.nPages]
    exact hP.fits
  beyond := by
    intro q hq
    rw [hR.control.nPages] at hq
    have hfits := hR.fits
    rw [hR.outside q (by unfold OnRun; omega)]
    exact hP.beyond q hq
  kindFree := by
    intro q
    by_cases hq : OnRun start n q
    · obtain ⟨hk, hgen, -⟩ := hR.nSpan hq
      rw [hk, hgen]
      simp [hg]
    · rw [hR.outside q hq]
      exact hP.kindFree q
  used := by
    intro q
    by_cases hq : OnRun start n q
    · rw [(hR.nSpan hq).2.2.1]
    · rw [hR.outside q hq]
      exact hP.used q
  run := by
    intro q j hk hpos hj
    by_cases hq : OnRun start n q
    · obtain ⟨-, hgen, -, hspan⟩ := hR.nSpan hq
      rw [hspan] at hj
      have hhead : q = start := by
        by_contra hne
        rw [if_neg hne] at hj
        omega
      subst hhead
      rw [if_pos rfl] at hj
      have hin : OnRun q n (q + j) := by unfold OnRun; omega
      obtain ⟨hk', hgen', -, hspan'⟩ := hR.nSpan hin
      exact ⟨hk', by rw [hspan', if_neg (by omega)], hgen'.trans hgen.symm⟩
    · rw [hR.outside q hq] at hk hj ⊢
      obtain ⟨hk', hspan', hgen'⟩ := hP.run q j hk hpos hj
      have hlive : (h.descs (q + j)).generation ≠ .Free := by
        intro hfree
        rw [(hP.kindFree _).2 hfree] at hk'
        cases hk'
      rw [(hR.live hlive).2]
      exact ⟨hk', hspan', hgen'⟩
  head := by
    intro q hk hspan
    by_cases hq : OnRun start n q
    · have hne : q ≠ start := by
        rintro rfl
        rw [(hR.nSpan hq).2.2.2, if_pos rfl] at hspan
        have := hR.pos
        omega
      have hpos := hR.pos
      have hin : OnRun start n start := by unfold OnRun; omega
      refine ⟨start, ?_, (hR.nSpan hin).1, ?_⟩
      · unfold OnRun at hq
        omega
      · rw [(hR.nSpan hin).2.2.2, if_pos rfl]
        exact hq.2
    · rw [hR.outside q hq] at hk hspan
      obtain ⟨head, hlt, hkh, hin⟩ := hP.head q hk hspan
      have hlive : (h.descs head).generation ≠ .Free := by
        intro hfree
        rw [(hP.kindFree _).2 hfree] at hkh
        cases hkh
      refine ⟨head, hlt, ?_, ?_⟩
      · rw [(hR.live hlive).2]
        exact hkh
      · rw [(hR.live hlive).2]
        exact hin
  backing :=
    { live := by
        intro q hlive
        apply hR.committed
        by_cases hq : OnRun start n q
        · exact Or.inl hq
        · rw [hR.outside q hq] at hlive
          exact Or.inr (hP.backing.live q hlive)
      dirty := by
        intro k hk
        rw [hR.cards] at hk
        exact hR.committed _ (Or.inr (hP.backing.dirty k hk)) }

theorem start_page (start : Nat) : start * pageSizeCells / pageSizeCells = start ∧
    start * pageSizeCells % pageSizeCells = 0 := by
  unfold pageSizeCells
  omega

/-- Nothing starts on the run before. -/
theorem none_before (hR : RunPlaced L h h' g start n o) (hS : Shape L h T Forwarding.empty) {c : Nat}
    (hc : OnRun start n (c / pageSizeCells)) : T c = none :=
  hS.none_of_free (hR.free _ hc)

theorem shape (hR : RunPlaced L h h' g start n o) (hS : Shape L h T Forwarding.empty)
    (hg : g ≠ .Free) (hwf : o.WellFormed) (hcons : o.isCons = false)
    (hcells : o.totalCells ≤ n * pageSizeCells) :
    Shape L h' (Function.update T (start * pageSizeCells) (some o)) Forwarding.empty := by
  obtain ⟨hdiv, hmod⟩ := start_page start
  have hpos := hR.pos
  have hin : OnRun start n start := by unfold OnRun; omega
  have hhead := hR.nSpan hin
  rw [if_pos rfl] at hhead
  have htable : ∀ c o', Function.update T (start * pageSizeCells) (some o) c = some o' →
      (c = start * pageSizeCells ∧ o' = o) ∨
        (¬ OnRun start n (c / pageSizeCells) ∧ T c = some o') := by
    intro c o' hc
    by_cases heq : c = start * pageSizeCells
    · subst heq
      rw [Function.update_self] at hc
      cases hc
      exact Or.inl ⟨rfl, rfl⟩
    · rw [Function.update_of_ne heq] at hc
      exact Or.inr ⟨(hR.live (hS.live hc)).1, hc⟩
  refine ⟨hR.pages hS.pages hg, ?_, ?_, ?_, ?_, ?_⟩
  · intro c o' hc
    rcases htable c o' hc with ⟨rfl, rfl⟩ | ⟨hout, hT⟩
    · have hkind : h'.kindAt (start * pageSizeCells) = .Large := by
        unfold kindAt
        rw [hdiv]
        exact hhead.1
      refine ⟨?_, hwf, fun hk => absurd hkind hk, ?_, ?_, fun _ _ => hR.header, ?_, ?_⟩
      · unfold genAt
        rw [hdiv, hhead.2.1]
        exact hg
      · intro _
        rw [hdiv, hhead.2.2.2, hhead.2.2.1]
        exact ⟨hmod, hcons, hpos, hcells, by decide⟩
      · intro hk
        rw [hkind] at hk
        cases hk
      · intro _
        rw [plainWord_congr hR.control.base hR.control.nPages]
        exact hR.plain
      · intro d hd
        cases hd
    · have hdesc := hR.outside _ hout
      have hmem : h'.mem c = h.mem c := hR.mem c hout
      refine (hS.obj c o' hT).transport hR.control.base hR.control.nPages ?_ ?_ ?_ ?_ (Or.inl hmem)
      · unfold genAt
        rw [hdesc]
        exact hS.live hT
      · unfold kindAt
        rw [hdesc]
      · rw [hdesc]
      · rw [hdesc]
  · intro c hc
    rw [hR.startBits]
    by_cases heq : c = start * pageSizeCells
    · subst heq
      rw [if_pos rfl, Function.update_self]
      show StartPair.header = o.startPair
      unfold ObjInfo.startPair
      rw [hcons]
      rfl
    · rw [if_neg heq, Function.update_of_ne heq]
      by_cases hon : OnRun start n (c / pageSizeCells)
      · rw [if_pos hon, hR.none_before hS hon]
        rfl
      · rw [if_neg hon]
        refine hS.start c ?_
        unfold genAt at hc ⊢
        rwa [hR.outside _ hon] at hc
  · intro q hk hspan
    by_cases hon : OnRun start n q
    · have hq : q = start := by
        by_contra hne
        rw [(hR.nSpan hon).2.2.2, if_neg hne] at hspan
        omega
      subst hq
      rw [Function.update_self]
      rfl
    · rw [hR.outside q hon] at hk hspan
      have hne : q * pageSizeCells ≠ start * pageSizeCells := by
        intro heq
        refine hon ?_
        have : q = start := by
          unfold pageSizeCells at heq
          omega
        rw [this]
        exact hin
      rw [Function.update_of_ne hne]
      exact hS.largeHead q hk hspan
  · intro c o₁ c' o₂ hc hc' hpage hlt
    rcases htable c o₁ hc with ⟨rfl, rfl⟩ | ⟨hout, hT⟩ <;>
      rcases htable c' o₂ hc' with ⟨rfl, rfl⟩ | ⟨hout', hT'⟩
    · omega
    · rw [← hpage, hdiv] at hout'
      exact absurd hin hout'
    · rw [hpage, hdiv] at hout
      exact absurd hin hout
    · exact hS.ordered c o₁ c' o₂ hT hT' hpage hlt
  · intro c d hd
    cases hd

/-- The heap with the new run. -/
theorem intact (hR : RunPlaced L h h' g start n o) (hI : Coherent L h T)
    (hg : g ≠ .Free) (hwf : o.WellFormed) (hcons : o.isCons = false)
    (hcells : o.totalCells ≤ n * pageSizeCells) :
    Coherent L h' (Function.update T (start * pageSizeCells) (some o)) := by
  have hkeep : ∀ c, (T c).isSome →
      (Function.update T (start * pageSizeCells) (some o) c).isSome := by
    intro c hc
    by_cases hcell : c = start * pageSizeCells
    · subst hcell
      rw [Function.update_self]
      rfl
    · rw [Function.update_of_ne hcell]
      exact hc
  refine ⟨hR.shape hI.shape hg hwf hcons hcells, ?_, ?_, ?_, hR.control.target.trans hI.inactive⟩
  · intro g' k q hq
    rw [hR.allocRegions] at hq ⊢
    have hregion := hI.regions g' k q hq
    rw [(hR.live (by rw [hregion.1]; exact hregion.2.2.2.1)).2]
    exact hregion
  · intro c hc
    rw [hR.control.pinnedCells] at hc
    obtain ⟨hsome, hbit⟩ := hI.pins c hc
    obtain ⟨o', ho'⟩ := Option.isSome_iff_exists.1 hsome
    rw [(hR.live (hI.shape.live ho')).2]
    exact ⟨hkeep c hsome, hbit⟩
  · intro e he
    unfold explicitCells at he
    rw [hR.control.explicitPins] at he
    exact hkeep e (hI.explicit e he)

end RunPlaced

section LargeRequests

variable {L : HeapLayout} {h h' : PageHeap} {T : ObjTable} {g : Generation} {n cell : Nat}

/-- The mark of the highest page used is none of the collector's controls. -/
theorem SameControl.raised {m : Nat} (hc : SameControl { h with pagesHighWater := m } h') :
    SameControl h h' :=
  ⟨hc.base, hc.nPages, hc.markBits, hc.hashOrder, hc.pinnedCells, hc.explicitPins, hc.target⟩

/-- A granted run: its pages are stamped, its first cell gets the start bit. -/
theorem tryAllocLarge_some (hn : 1 ≤ n) (halloc : h.tryAllocLarge n g = (some cell, h')) :
    ∃ start h₂, cell = start * pageSizeCells ∧ start + largePages n ≤ h.nPages ∧
      (∀ q, OnRun start (largePages n) q → (h.descs q).generation = .Free) ∧
      Stamped g start (largePages n) (List.range (largePages n)) h h₂ ∧
      h' = countBytes (h₂.setStartBitAt (start * pageSizeCells)) n := by
  unfold tryAllocLarge at halloc
  rw [← largePages] at halloc
  split at halloc
  · cases halloc
  · dsimp only at halloc
    split at halloc
    · cases halloc
    · split at halloc
      · cases halloc
      · rename_i start hfind
        split at halloc
        · cases halloc
        · rename_i h₂ hstamp
          cases halloc
          have hpages : 1 ≤ largePages n := by
            unfold largePages pageSizeCells
            omega
          obtain ⟨hfits, hfree⟩ := findContiguousFreePages_free hpages hfind
          obtain ⟨l, -, hst, hall⟩ := stampLargePages_stamped _ _ hstamp
          rw [hall rfl] at hst
          refine ⟨start, h₂, rfl, hfits, fun q hq => hfree q hq.1 hq.2, ?_, rfl⟩
          exact ⟨hst.control.raised, hst.cards,
            hst.allocRegions, hst.lt, hst.descs, hst.startBits, hst.mem, hst.committed⟩

/-- A refused run that is not cut leaves the heap untouched. -/
theorem tryAllocLarge_none (hn : 1 ≤ n) (hg : g ≠ .Free) (hcut : ¬ h.CutsRun n g)
    (halloc : h.tryAllocLarge n g = (none, h')) : Untouched h h' := by
  have hclean := (tryAllocLarge_failedCleanly hg).2 hcut
  rw [halloc] at hclean
  have hdescs := (hclean rfl).descs
  unfold tryAllocLarge at halloc
  rw [← largePages] at halloc
  split at halloc
  · cases halloc
    exact Untouched.refl h
  · dsimp only at halloc
    split at halloc
    · cases halloc
      exact Untouched.refl h
    · split at halloc
      · cases halloc
        exact Untouched.refl h
      · rename_i start hfind
        split at halloc
        · rename_i h₂ hstamp
          cases halloc
          have hpages : 1 ≤ largePages n := by
            unfold largePages pageSizeCells
            omega
          obtain ⟨hfits, hfree⟩ := findContiguousFreePages_free hpages hfind
          obtain ⟨l, hpre, hst, -⟩ := stampLargePages_stamped _ _ hstamp
          cases l with
          | nil =>
              have hout : ∀ q, ¬ InRun start [] q := by
                rintro q ⟨-, hm⟩
                cases hm
              refine ⟨hst.control.raised, hst.cards,
                ?_, hdescs, ?_, hst.allocRegions, ?_⟩
              · funext c
                exact hst.mem c (hout _)
              · funext c
                rw [hst.startBits, if_neg (hout _)]
              · funext p
                rw [hst.committed, if_neg (hout _)]
          | cons i l =>
              -- the pages stamped before the refusal would show
              exfalso
              have hi : i ∈ List.range (largePages n) := hpre.subset List.mem_cons_self
              rw [List.mem_range] at hi
              have hin : InRun start (i :: l) (start + i) :=
                ⟨Nat.le_add_right _ _, by rw [Nat.add_sub_cancel_left]; exact List.mem_cons_self⟩
              have hpage := congrFun hdescs (start + i)
              rw [hst.descs, if_pos hin] at hpage
              have hgen := congrArg PageDesc.generation hpage
              rw [hfree (start + i) (by omega) (by omega)] at hgen
              exact hg hgen
        · cases halloc

theorem inRun_range {start n q : Nat} : InRun start (List.range n) q ↔ OnRun start n q := by
  unfold InRun OnRun
  rw [List.mem_range]
  omega

/-- The header of a large object is written on its run. -/
theorem Stamped.placed {start m : Nat} {h₂ : PageHeap} {o : ObjInfo} {header : Word}
    (hst : Stamped g start n (List.range n) h h₂) (hn : 1 ≤ n) (hspan : n < 65536)
    (hfits : start + n ≤ h.nPages) (hfree : ∀ q, OnRun start n q → (h.descs q).generation = .Free)
    (hlayout : L.headerLayout header = .ok o.layout) (hplain : h.plainWord L header = true) :
    RunPlaced L h ((countBytes (h₂.setStartBitAt (start * pageSizeCells)) m).setCell
      (start * pageSizeCells) header) g start n o := by
  obtain ⟨hdiv, -⟩ := RunPlaced.start_page start
  have hself : ((countBytes (h₂.setStartBitAt (start * pageSizeCells)) m).setCell
      (start * pageSizeCells) header).mem (start * pageSizeCells) = header :=
    Function.update_self ..
  have hin : OnRun start n start := by unfold OnRun; omega
  refine ⟨SameControl.trans hst.control ⟨rfl, rfl, rfl, rfl, rfl, rfl, rfl⟩, hst.allocRegions, hn,
    hspan, hfits, hfree, ?_, ?_, ?_, ?_, by rw [hself]; exact hlayout, by rw [hself]; exact hplain,
    fun q hq => ?_, hst.cards⟩
  · intro q hq
    show h₂.descs q = _
    rw [hst.descs, if_pos (inRun_range.2 hq)]
  · intro q hq
    show h₂.descs q = _
    rw [hst.descs, if_neg (fun hin => hq (inRun_range.1 hin))]
  · intro c
    show Function.update h₂.startBits (start * pageSizeCells)
      (h₂.startBits (start * pageSizeCells)).orHeader c = _
    by_cases heq : c = start * pageSizeCells
    · subst heq
      rw [Function.update_self, if_pos rfl, hst.startBits, hdiv, if_pos (inRun_range.2 hin)]
      rfl
    · rw [Function.update_of_ne heq, if_neg heq, hst.startBits]
      by_cases hon : OnRun start n (c / pageSizeCells)
      · rw [if_pos (inRun_range.2 hon), if_pos hon]
      · rw [if_neg (fun hin => hon (inRun_range.1 hin)), if_neg hon]
  · intro c hc
    have hne : c ≠ start * pageSizeCells := by
      rintro rfl
      rw [hdiv] at hc
      exact hc hin
    show Function.update h₂.mem (start * pageSizeCells) header c = _
    rw [Function.update_of_ne hne]
    exact hst.mem c (fun hin => hc (inRun_range.1 hin))
  · show h₂.committed q = true
    rw [hst.committed]
    split
    · rfl
    · exact hq.resolve_left fun hon => absurd (inRun_range.2 hon) ‹_›

end LargeRequests

/-! ## The world between requests -/

/-- What holds of a world between its requests. -/
structure World.Sound (L : HeapLayout) (w : World) (T : ObjTable) : Prop where
  heap : Coherent L w.heap T
  slabs : SlabsOk w.heap T w.slabs

/-- What a request that does not collect leaves: every object where it is, every page in use in its
role, and every cell of an object but the one a store names. -/
structure Quiet (op : Op) (h h' : PageHeap) (T T' : ObjTable) : Prop where
  base : h'.base = h.base
  nPages : h'.nPages = h.nPages
  objects : ∀ c o, T c = some o → T' c = some o
  generation : ∀ q, (h.descs q).generation ≠ .Free →
    (h'.descs q).generation = (h.descs q).generation
  kind : ∀ q, (h.descs q).generation ≠ .Free → (h'.descs q).kind = (h.descs q).kind
  nSpan : ∀ q, (h.descs q).generation ≠ .Free → (h'.descs q).nSpan = (h.descs q).nSpan
  pinned : op ≠ .clearPins → ∀ c ∈ h.pinnedCells, c ∈ h'.pinnedCells
  mem : ∀ c o i, T c = some o → i < o.totalCells → (∀ v, op ≠ .store c i v) →
    h'.mem (c + i) = h.mem (c + i)

namespace Quiet

variable {op : Op} {h h' h'' : PageHeap} {T T' T'' : ObjTable}

theorem refl (op : Op) (h : PageHeap) (T : ObjTable) : Quiet op h h T T :=
  ⟨rfl, rfl, fun _ _ h => h, fun _ _ => rfl, fun _ _ => rfl, fun _ _ => rfl, fun _ _ hc => hc,
    fun _ _ _ _ _ _ => rfl⟩

theorem trans (h₁ : Quiet op h h' T T') (h₂ : Quiet op h' h'' T' T'') : Quiet op h h'' T T'' where
  base := h₂.base.trans h₁.base
  nPages := h₂.nPages.trans h₁.nPages
  objects := fun c o hc => h₂.objects c o (h₁.objects c o hc)
  generation := by
    intro q hq
    rw [h₂.generation q (by rw [h₁.generation q hq]; exact hq), h₁.generation q hq]
  kind := by
    intro q hq
    rw [h₂.kind q (by rw [h₁.generation q hq]; exact hq), h₁.kind q hq]
  nSpan := by
    intro q hq
    rw [h₂.nSpan q (by rw [h₁.generation q hq]; exact hq), h₁.nSpan q hq]
  pinned := fun hop c hc => h₂.pinned hop c (h₁.pinned hop c hc)
  mem := by
    intro c o i hc hi hop
    rw [h₂.mem c o i (h₁.objects c o hc) hi hop, h₁.mem c o i hc hi hop]

theorem of_untouched (op : Op) (T : ObjTable) (hU : Untouched h h') : Quiet op h h' T T where
  base := hU.control.base
  nPages := hU.control.nPages
  objects := fun _ _ hc => hc
  generation := fun q _ => by rw [hU.descs]
  kind := fun q _ => by rw [hU.descs]
  nSpan := fun q _ => by rw [hU.descs]
  pinned := fun _ c hc => by rw [hU.control.pinnedCells]; exact hc
  mem := fun c _ i _ _ _ => by rw [hU.mem]

variable {L : HeapLayout} {g : Generation} {k : PageKind} {cell n : Nat}

theorem of_reserved (op : Op) (hS : Shape L h T Forwarding.empty)
    (hV : Reserved h h' g k cell n) : Quiet op h h' T T := by
  have hrole : ∀ q, (h.descs q).generation ≠ .Free →
      (h'.descs q).generation = (h.descs q).generation ∧ (h'.descs q).kind = (h.descs q).kind ∧
        (h'.descs q).nSpan = (h.descs q).nSpan := by
    intro q hq
    by_cases hpage : q = cell / pageSizeCells
    · subst hpage
      rcases hV.source with ⟨hfree, -, -⟩ | ⟨hgen, hkind, -, -, -, hspan⟩
      · exact absurd hfree hq
      · exact ⟨hV.generation.trans hgen.symm, hV.kind.trans hkind.symm, hspan⟩
    · rw [hV.descs, Function.update_of_ne hpage]
      exact ⟨rfl, rfl, rfl⟩
  refine ⟨hV.control.base, hV.control.nPages, fun _ _ hc => hc, fun q hq => (hrole q hq).1,
    fun q hq => (hrole q hq).2.1, fun q hq => (hrole q hq).2.2, ?_, ?_⟩
  · intro _ c hc
    rw [hV.control.pinnedCells]
    exact hc
  · intro c o i hc hi _
    refine hV.mem _ ?_
    rw [hS.genAt_inside hc hi]
    exact hS.live hc

theorem of_initialized (op : Op) {o : ObjInfo} (hroom : FreeRoom h T cell o)
    (hpos : 1 ≤ o.totalCells) (hN : Initialized L h h' cell o)
    (hS : Shape L h T Forwarding.empty) : Quiet op h h' T (Function.update T cell (some o)) where
  base := hN.control.base
  nPages := hN.control.nPages
  objects := by
    intro c o' hc
    rw [Function.update_of_ne]
    · exact hc
    · rintro rfl
      have := (hS.wf hc).pos
      rcases hroom.gap _ o' hc with hle | hle <;> omega
  generation := fun q _ => by rw [hN.descs]
  kind := fun q _ => by rw [hN.descs]
  nSpan := fun q _ => by rw [hN.descs]
  pinned := fun _ c hc => by rw [hN.control.pinnedCells]; exact hc
  mem := by
    intro c o' i hc hi _
    refine hN.mem _ ?_
    rcases hroom.gap c o' hc with hle | hle
    · left; omega
    · right; omega

end Quiet

/-! ## The requests -/

namespace World

/-- A request that does not collect leaves a sound world, with every object where it was. -/
def Keeps (L : HeapLayout) (op : Op) (w w' : World) (T : ObjTable) : Prop :=
  ∃ T', Sound L w' T' ∧ Quiet op w.heap w'.heap T T'

/-- Dropping the pins of a heap in order leaves every object where it is. -/
theorem clearPins_keeps {L : HeapLayout} {w w' : World} {T : ObjTable} (hP : PassOk L w.heap T)
    (hslabs : SlabsOk w.heap T w.slabs) (hstep : w.step L .clearPins = .ok w') :
    Keeps L .clearPins w w' T := by
  cases hstep
  refine ⟨T, ⟨hP.unpinned (.clearAllPins _), ?_, hslabs.apart⟩, ⟨rfl, rfl, fun _ _ hc => hc,
    fun _ _ => rfl, fun _ _ => rfl, fun _ _ => rfl, fun hop => absurd rfl hop,
    fun _ _ _ _ _ _ => rfl⟩⟩
  intro s hs
  obtain ⟨hord, hkind, hpage, hgap⟩ := hslabs.each s hs
  exact ⟨hord, hkind, hpage, hgap⟩

namespace Sound

variable {L : HeapLayout} {w w' : World} {T : ObjTable} {g : Generation} {k : PageKind}
  {cell n : Nat}

theorem untouched (hW : Sound L w T) (op : Op) {h : PageHeap} (hU : Untouched w.heap h) :
    Keeps L op w { w with heap := h } T :=
  ⟨T, ⟨hW.heap.of_untouched hU, hW.slabs.congr hU.descs⟩, .of_untouched op T hU⟩

/-- An object is allocated and written. -/
theorem allocated (hW : Sound L w T) (op : Op) {ha h₁ hf : PageHeap} {o : ObjInfo}
    (hA : Allocated w.heap ha g (destKind o.isCons) cell o.totalCells o.isCons h₁) (hg : g ≠ .Free)
    (hwf : o.WellFormed) (hN : Initialized L h₁ hf cell o) :
    Keeps L op w { w with heap := hf } T := by
  have hV := hA.reserved
  have hS := hW.heap.shape
  have hroom := hV.room hS hg
  have hI₁ := hW.heap.reserve hV hg (destKind_small _)
  refine ⟨Function.update T cell (some o), ⟨hI₁.place hroom hwf hN, ?_, hW.slabs.apart⟩,
    (Quiet.of_reserved op hS hV).trans (.of_initialized op hroom hwf.pos hN hI₁.shape)⟩
  intro s hs
  obtain ⟨hs₁, hout⟩ := (hW.slabs.each s hs).reserve hS.pages hV
  exact hs₁.place hN.descs hout

theorem allocCons (hW : Sound L w T) {car cdr : Word}
    (hallowed : w.allows L (.allocCons g car cdr) = true)
    (hstep : w.step L (.allocCons g car cdr) = .ok w') : Keeps L (.allocCons g car cdr) w w' T := by
  simp only [allows, Bool.and_eq_true, decide_eq_true_eq] at hallowed
  obtain ⟨⟨hg, hcar⟩, -⟩ := hallowed
  have hS := hW.heap.shape
  simp only [step] at hstep
  cases halloc : w.heap.tryAllocConsIn g with
  | mk res h =>
      rw [halloc] at hstep
      cases res with
      | none =>
          cases hstep
          exact hW.untouched _ (tryAllocInRegion_none (by decide) halloc)
      | some cell =>
          cases hstep
          obtain ⟨h₁, hA⟩ := tryAllocInRegion_some hS.pages (hW.heap.regions _ _) (by decide) halloc
          have hstarted := Allocated.started (o := ObjInfo.cons) hA hS hg ObjInfo.wellFormed_cons
          refine hW.allocated (o := ObjInfo.cons) _ hA hg ObjInfo.wellFormed_cons (hstarted.cons ?_)
          rw [plainWord_congr hA.reserved.control.base hA.reserved.control.nPages]
          exact hcar

/-- A header the contract admits heads a well-formed object. -/
theorem headerOk_layout {h : PageHeap} {header : Word} (hok : headerOk L h header = true) :
    ∃ o : ObjInfo, o.isCons = false ∧ L.headerLayout header = .ok o.layout ∧ o.WellFormed ∧
      headerCells L header = o.totalCells ∧ h.plainWord L header = true := by
  unfold headerOk at hok
  cases hlayout : L.headerLayout header with
  | error e => simp [hlayout] at hok
  | ok layout =>
      rw [hlayout, Bool.and_eq_true] at hok
      refine ⟨{ isCons := false, layout := layout }, rfl, rfl,
        ObjectLayout.wellFormed_header hok.1, ?_, hok.2⟩
      unfold headerCells
      rw [hlayout]
      rfl

theorem allocBoxed (hW : Sound L w T) {header : Word}
    (hallowed : w.allows L (.allocBoxed g header) = true)
    (hstep : w.step L (.allocBoxed g header) = .ok w') :
    Keeps L (.allocBoxed g header) w w' T := by
  simp only [allows, Bool.and_eq_true, decide_eq_true_eq] at hallowed
  obtain ⟨hg, hheader⟩ := hallowed
  obtain ⟨o, hcons, hlayout, hwf, hcells, hplain⟩ := headerOk_layout hheader
  have hS := hW.heap.shape
  simp only [step, hcells] at hstep
  cases hstep
  unfold tryAllocBoxedIn
  split
  · exact hW.untouched _ (Untouched.refl _)
  · rename_i hsize
    have hfits : o.totalCells ≤ pageSizeCells := by omega
    cases halloc : w.heap.tryAllocInRegion g .Boxed o.totalCells false with
    | mk res h =>
        cases res with
        | none => exact hW.untouched _ (tryAllocInRegion_none hfits halloc)
        | some cell =>
            obtain ⟨h₁, hA⟩ :=
              tryAllocInRegion_some hS.pages (hW.heap.regions _ _) hwf.pos halloc
            have hkind : destKind o.isCons = .Boxed := by rw [hcons]; rfl
            rw [← hkind, ← hcons] at hA
            refine hW.allocated _ hA hg hwf ((hA.started hS hg hwf).header hwf.pos hlayout ?_)
            rw [plainWord_congr hA.reserved.control.base hA.reserved.control.nPages]
            exact hplain

/-- A buffer is opened. -/
theorem opened (hW : Sound L w T) (op : Op) {h : PageHeap} (hV : Reserved w.heap h g k cell n)
    (hg : g ≠ .Free) (hk : k = .Cons ∨ k = .Boxed) :
    Keeps L op w { w with
      heap := h
      slabs := { kind := k, cursor := cell, stop := cell + n } :: w.slabs } T :=
  ⟨T, ⟨hW.heap.reserve hV hg hk, hW.slabs.cons hW.heap.shape hV hg hk⟩,
    .of_reserved op hW.heap.shape hV⟩

theorem reserveTlab (hW : Sound L w T) {minCells wantCells : Nat}
    (hallowed : w.allows L (.reserveTlab g k minCells wantCells) = true)
    (hstep : w.step L (.reserveTlab g k minCells wantCells) = .ok w') :
    Keeps L (.reserveTlab g k minCells wantCells) w w' T := by
  simp only [allows, Bool.and_eq_true, Bool.or_eq_true, decide_eq_true_eq] at hallowed
  simp only [step] at hstep
  rcases hres : w.heap.reserveTlab g k minCells wantCells with ⟨slab, h⟩
  rw [hres] at hstep
  cases slab with
  | none =>
      cases hstep
      exact hW.untouched _ (reserveTlab_none hres)
  | some slab =>
      obtain ⟨cell, n⟩ := slab
      cases hstep
      exact hW.opened _ (reserveTlab_some hW.heap.shape.pages (hW.heap.regions _ _) hres)
        hallowed.1 hallowed.2

theorem reserveSlab (hW : Sound L w T) {cells : Nat}
    (hstep : w.step L (.reserveSlab cells) = .ok w') : Keeps L (.reserveSlab cells) w w' T := by
  simp only [step] at hstep
  rcases hres : w.heap.tryAllocG0Slab cells with ⟨slab, h⟩
  rw [hres] at hstep
  cases slab with
  | none =>
      cases hstep
      exact hW.untouched _ (tryAllocG0Slab_none hres)
  | some slab =>
      obtain ⟨cell, n⟩ := slab
      cases hstep
      exact hW.opened _ (tryAllocG0Slab_some hW.heap.shape.pages (hW.heap.regions _ _) hres)
        (by decide) (Or.inr rfl)

/-- The buffer a bump uses. -/
theorem bumpSlab_some {i nCells : Nat} {slabs : List Slab}
    (hbump : w.bumpSlab i nCells = some (cell, slabs)) :
    ∃ s, w.slabs[i]? = some s ∧ cell = s.cursor ∧ s.cursor + nCells ≤ s.stop ∧
      slabs = w.slabs.set i { s with cursor := s.cursor + nCells } := by
  unfold bumpSlab at hbump
  cases hs : w.slabs[i]? with
  | none => simp [hs] at hbump
  | some s =>
      rw [hs] at hbump
      dsimp only at hbump
      split at hbump
      · cases hbump
        exact ⟨s, rfl, rfl, by assumption, rfl⟩
      · cases hbump

/-- An object is written at the cursor of an open buffer. -/
theorem bumped (hW : Sound L w T) (op : Op) {i : Nat} {s : Slab} {o : ObjInfo} {h : PageHeap}
    (hs : w.slabs[i]? = some s) (hroom : s.cursor + o.totalCells ≤ s.stop) (hwf : o.WellFormed)
    (hkind : s.kind = .Cons → o.isCons = true) (hN : Initialized L w.heap h s.cursor o) :
    Keeps L op w { w with
      heap := h
      slabs := w.slabs.set i { s with cursor := s.cursor + o.totalCells } } T := by
  have hpos := hwf.pos
  have hslab := hW.slabs.each s (List.mem_of_getElem? hs)
  obtain ⟨hlive, hkindAt, hfits⟩ := hslab.cursor_page hW.heap.shape.pages hpos hroom
  have hfree : FreeRoom w.heap T s.cursor o := by
    refine ⟨hlive, ?_, hfits, fun hk => hkind (hkindAt ▸ hk), ?_⟩
    · rw [hkindAt]
      rcases hslab.kind with hk | hk <;> rw [hk] <;> decide
    · intro c o' hc
      rcases hslab.gap c o' hc with hle | hle
      · left; omega
      · right; omega
  exact ⟨_, ⟨hW.heap.place hfree hwf hN, hW.slabs.bump hs hroom hpos hN.descs⟩,
    .of_initialized op hfree hpos hN hW.heap.shape⟩

/-- Nothing starts at the cursor of an open buffer. -/
theorem cursor_start (hW : Sound L w T) {i : Nat} {s : Slab} (hs : w.slabs[i]? = some s)
    (hn : 1 ≤ n) (hroom : s.cursor + n ≤ s.stop) : w.heap.startBits s.cursor = .none := by
  have hslab := hW.slabs.each s (List.mem_of_getElem? hs)
  obtain ⟨hlive, -⟩ := hslab.cursor_page hW.heap.shape.pages hn hroom
  rw [hW.heap.shape.start _ hlive, ObjInfo.pairOf_eq_none, Option.eq_none_iff_forall_ne_some]
  intro o ho
  have hpos := (hW.heap.shape.wf ho).pos
  rcases hslab.gap _ o ho with hle | hle <;> omega

theorem bumpCons (hW : Sound L w T) {i : Nat} {car cdr : Word}
    (hallowed : w.allows L (.bumpCons i car cdr) = true)
    (hstep : w.step L (.bumpCons i car cdr) = .ok w') : Keeps L (.bumpCons i car cdr) w w' T := by
  simp only [allows, Bool.and_eq_true] at hallowed
  simp only [step] at hstep
  cases hbump : w.bumpSlab i 2 with
  | none =>
      rw [hbump] at hstep
      cases hstep
      exact ⟨T, hW, .refl _ _ _⟩
  | some next =>
      obtain ⟨cell, slabs⟩ := next
      rw [hbump] at hstep
      cases hstep
      obtain ⟨s, hs, rfl, hroom, rfl⟩ := bumpSlab_some hbump
      have hstarted : Started w.heap (w.heap.setConsStartBitAt s.cursor) s.cursor ObjInfo.cons :=
        ⟨⟨rfl, rfl, rfl, rfl, rfl, rfl, rfl⟩, rfl, rfl, rfl, rfl, rfl, rfl⟩
      exact hW.bumped (o := ObjInfo.cons) _ hs hroom ObjInfo.wellFormed_cons (fun _ => rfl)
        (hstarted.cons hallowed.1)

theorem bumpBoxed (hW : Sound L w T) {i : Nat} {header : Word}
    (hallowed : w.allows L (.bumpBoxed i header) = true)
    (hstep : w.step L (.bumpBoxed i header) = .ok w') : Keeps L (.bumpBoxed i header) w w' T := by
  simp only [allows, Bool.and_eq_true] at hallowed
  obtain ⟨o, hcons, hlayout, hwf, hcells, hplain⟩ := headerOk_layout hallowed.1
  have hkind := hallowed.2
  simp only [step, hcells] at hstep
  cases hbump : w.bumpSlab i o.totalCells with
  | none =>
      rw [hbump] at hstep
      cases hstep
      exact ⟨T, hW, .refl _ _ _⟩
  | some next =>
      obtain ⟨cell, slabs⟩ := next
      rw [hbump] at hstep
      cases hstep
      obtain ⟨s, hs, rfl, hroom, rfl⟩ := bumpSlab_some hbump
      have hstarted : Started w.heap (w.heap.setStartBitAt s.cursor) s.cursor o := by
        refine ⟨⟨rfl, rfl, rfl, rfl, rfl, rfl, rfl⟩, rfl, rfl, ?_, rfl, rfl, rfl⟩
        unfold setStartBitAt ObjInfo.startPair
        rw [hW.cursor_start hs hwf.pos hroom, hcons]
        rfl
      refine hW.bumped _ hs hroom hwf ?_ (hstarted.header hwf.pos hlayout hplain)
      intro hk
      rw [hs] at hkind
      simp [hk] at hkind

/-- A store leaves every object where it is, and every other cell of one as it was. -/
theorem store (hW : Sound L w T) {obj off : Nat} {v : Word}
    (hallowed : w.allows L (.store obj off v) = true)
    (hstep : w.step L (.store obj off v) = .ok w') : Keeps L (.store obj off v) w w' T := by
  have hS := hW.heap.shape
  simp only [allows, storeOk, hS.objAt_eq] at hallowed
  cases hT : T obj with
  | none => simp [hT] at hallowed
  | some o =>
      rw [hT] at hallowed
      simp only [Bool.and_eq_true, Bool.or_eq_true, Bool.not_eq_true', decide_eq_true_eq,
        decide_eq_false_iff_not] at hallowed
      obtain ⟨⟨hoff, hheader⟩, hptr⟩ := hallowed
      cases hstep
      obtain ⟨cards, heq, hnew⟩ := barrierStore_eq w.heap (obj + off) v
      rw [heq]
      have hshape : Shape L { w.heap.setCell (obj + off) v with cards := cards } T
          Forwarding.empty := by
        refine hS.transport rfl rfl (fun q => PageDesc.SameRole.refl _) rfl rfl ?_ ?_
        · intro k hk
          refine (hnew k hk).imp_right ?_
          rintro rfl
          have hpage : (obj + off) / cardSizeCells / cardsPerPage = (obj + off) / pageSizeCells := by
            unfold cardSizeCells cardsPerPage pageSizeCells
            omega
          rw [hpage]
          exact hS.committed hT hoff
        intro c o' hc
        by_cases hcell : c = obj + off
        · -- only the first cell of a cons is both a start and open to stores
          have hobj := hS.cell_inj hc hT (hS.wf hc).pos hoff hcell
          have hzero : off = 0 := by omega
          subst hzero
          subst hobj
          rw [hT] at hc
          cases hc
          have hcons : o.isCons = true := by
            rcases hheader with hcons | hone
            · exact hcons
            · omega
          refine Or.inr ⟨rfl, hcons, ?_⟩
          have hread : ({ w.heap.setCell (c + 0) v with cards := cards } : PageHeap).mem c = v :=
            Function.update_self ..
          rw [hread]
          refine hptr.resolve_left (fun hno => hno ?_)
          rw [(hS.wf hT).cons hcons]
          decide
        · exact Or.inl (Function.update_of_ne hcell ..)
      refine ⟨T, ⟨hW.heap.of_shape hshape ⟨rfl, rfl, rfl, rfl, rfl, rfl, rfl⟩ rfl rfl,
        hW.slabs.congr rfl⟩, ⟨rfl, rfl, fun _ _ hc => hc, fun _ _ => rfl, fun _ _ => rfl,
          fun _ _ => rfl, fun _ _ hc => hc, ?_⟩⟩
      intro c o' i hc hi hother
      refine Function.update_of_ne ?_ ..
      intro hcell
      have hobj := hS.cell_inj hc hT hi hoff hcell
      subst hobj
      have hoffset : i = off := by omega
      subst hoffset
      exact hother v rfl

/-- A large object is allocated whole. -/
theorem allocLarge (hW : Sound L w T) {header : Word}
    (hallowed : w.allows L (.allocLarge g header) = true)
    (hspan : largePages (headerCells L header) ≤ w.heap.nPages →
      largePages (headerCells L header) < 65536)
    (hcut : ¬ w.heap.CutsRun (headerCells L header) g)
    (hstep : w.step L (.allocLarge g header) = .ok w') :
    Keeps L (.allocLarge g header) w w' T := by
  simp only [allows, Bool.and_eq_true, decide_eq_true_eq] at hallowed
  obtain ⟨hg, hheader⟩ := hallowed
  obtain ⟨o, hcons, hlayout, hwf, hcells, hplain⟩ := headerOk_layout hheader
  have hS := hW.heap.shape
  have hpos := hwf.pos
  rw [hcells] at hspan hcut
  simp only [step, hcells] at hstep
  cases hstep
  rcases halloc : w.heap.tryAllocLarge o.totalCells g with ⟨res, h⟩
  cases res with
  | none => exact hW.untouched _ (tryAllocLarge_none hpos hg hcut halloc)
  | some cell =>
      obtain ⟨start, h₂, rfl, hfits, hfree, hst, rfl⟩ := tryAllocLarge_some hpos halloc
      have hpages : 1 ≤ largePages o.totalCells := by
        unfold largePages pageSizeCells
        omega
      have hroom : o.totalCells ≤ largePages o.totalCells * pageSizeCells := by
        unfold largePages pageSizeCells
        omega
      have hR := hst.placed (m := o.totalCells) hpages
        (hspan (Nat.le_trans (Nat.le_add_left _ _) hfits)) hfits hfree hlayout hplain
      dsimp only [withHeader]
      generalize PageHeap.setCell (countBytes (h₂.setStartBitAt (start * pageSizeCells))
        o.totalCells) (start * pageSizeCells) header = hf at hR ⊢
      refine ⟨_, ⟨hR.intact hW.heap hg hwf hcons hroom, ?_, hW.slabs.apart⟩, ?_⟩
      · intro s hs
        have hslab := hW.slabs.each s hs
        obtain ⟨p, hlo, hhi, hlive, hkind⟩ := hslab.page
        obtain ⟨hout, hdesc⟩ := hR.live hlive
        refine ⟨hslab.ordered, hslab.kind, ⟨p, hlo, ?_⟩, ?_⟩
        · rw [hdesc]
          exact ⟨hhi, hlive, hkind⟩
        · intro c o' hc
          by_cases hcell : c = start * pageSizeCells
          · -- the run and the page of the buffer are different pages
            subst hcell
            rw [Function.update_self] at hc
            cases hc
            have hused := hS.pages.used p
            have hord := hslab.ordered
            unfold OnRun at hout
            unfold pageSizeCells at *
            omega
          · rw [Function.update_of_ne hcell] at hc
            exact hslab.gap c o' hc
      · refine ⟨hR.control.base, hR.control.nPages, ?_, ?_, ?_, ?_, ?_, ?_⟩
        · intro c o' hc
          rw [Function.update_of_ne]
          · exact hc
          · rintro rfl
            rw [hR.none_before hS (by
              rw [(RunPlaced.start_page start).1]
              unfold OnRun
              omega)] at hc
            cases hc
        · intro q hq
          rw [(hR.live hq).2]
        · intro q hq
          rw [(hR.live hq).2]
        · intro q hq
          rw [(hR.live hq).2]
        · intro _ c hc
          rw [hR.control.pinnedCells]
          exact hc
        · intro c o' i hc hi _
          refine hR.mem _ ?_
          have hlive : w.heap.genAt (c + i) ≠ .Free := by
            rw [hS.genAt_inside hc hi]
            exact hS.live hc
          exact (hR.live hlive).1

theorem pin (hW : Sound L w T) {v : Word} (hstep : w.step L (.pin v) = .ok w') :
    Keeps L (.pin v) w w' T := by
  cases hstep
  show Keeps L _ w { w with heap := (w.heap.pin L v).2, handles := _ } T
  unfold PageHeap.pin
  split
  · rename_i cell hcell
    have hsome := pinTargetCell_some hW.heap.shape hcell
    refine ⟨T, ⟨hW.heap.repin ?_, hW.slabs.congr rfl⟩,
      ⟨rfl, rfl, fun _ _ hc => hc, fun _ _ => rfl, fun _ _ => rfl, fun _ _ => rfl,
        fun _ _ hc => hc, fun _ _ _ _ _ _ => rfl⟩⟩
    intro e he
    rcases mem_bumpExplicitPin he with rfl | he
    · exact hsome
    · exact hW.heap.explicit e he
  · exact ⟨T, ⟨hW.heap, hW.slabs⟩, .refl _ _ _⟩

theorem unpin (hW : Sound L w T) (hstep : w.step L (.unpin cell) = .ok w') :
    Keeps L (.unpin cell) w w' T := by
  cases hstep
  exact ⟨T, ⟨hW.heap.repin fun e he => hW.heap.explicit e (mem_dropExplicitPin he),
    hW.slabs.congr rfl⟩, ⟨rfl, rfl, fun _ _ hc => hc, fun _ _ => rfl, fun _ _ => rfl,
      fun _ _ => rfl, fun _ _ hc => hc, fun _ _ _ _ _ _ => rfl⟩⟩

theorem pinRanges (hW : Sound L w T) {ranges : List (Nat × Nat)}
    (hallowed : w.allows L (.pinRanges g ranges) = true)
    (hstep : w.step L (.pinRanges g ranges) = .ok w') : Keeps L (.pinRanges g ranges) w w' T := by
  simp only [allows, decide_eq_true_eq] at hallowed
  cases hstep
  have hP := pinPointersInRanges_pinned (L := L) w.ext w.heap hallowed ranges
  refine ⟨T, ⟨hW.heap.pinned hP, ?_, hW.slabs.apart⟩, ?_⟩
  · obtain ⟨cells, hR, -⟩ := hP
    intro s hs
    obtain ⟨hord, hkind, ⟨p, hlo, hhi, hlive, hk⟩, hgap⟩ := hW.slabs.each s hs
    have hrole := hR.role p
    refine ⟨hord, hkind, ⟨p, hlo, ?_, ?_, ?_⟩, hgap⟩
    · rw [hrole.wordsUsed]
      exact hhi
    · rw [hrole.generation]
      exact hlive
    · rw [hrole.kind]
      exact hk
  · obtain ⟨cells, hR, -⟩ := hP
    refine ⟨hR.sameObjects.base, hR.sameObjects.nPages, fun _ _ hc => hc,
      fun q _ => (hR.role q).generation, fun q _ => (hR.role q).kind,
      fun q _ => (hR.role q).nSpan, fun _ => hR.pinned, ?_⟩
    intro c o i _ _ _
    rw [hR.sameObjects.mem]

/-- What every request but a collection does, when it keeps the large runs whole. -/
theorem keeps (hW : Sound L w T) {op : Op} (hquiet : op.collects = false)
    (hallowed : w.allows L op = true) (hkeeps : w.KeepsRuns L op) (hstep : w.step L op = .ok w') :
    Keeps L op w w' T := by
  cases op with
  | allocCons g car cdr => exact hW.allocCons hallowed hstep
  | allocBoxed g header => exact hW.allocBoxed hallowed hstep
  | allocLarge g header => exact hW.allocLarge hallowed (fun _ => hkeeps.1) hkeeps.2 hstep
  | reserveTlab g k m n => exact hW.reserveTlab hallowed hstep
  | reserveSlab cells => exact hW.reserveSlab hstep
  | bumpCons i car cdr => exact hW.bumpCons hallowed hstep
  | bumpBoxed i header => exact hW.bumpBoxed hallowed hstep
  | flushTlabs =>
      cases hstep
      exact ⟨T, ⟨hW.heap, .nil _ _⟩, .refl _ _ _⟩
  | store obj off v => exact hW.store hallowed hstep
  | storeExt addr v =>
      cases hstep
      exact ⟨T, ⟨hW.heap, hW.slabs⟩, .refl _ _ _⟩
  | pin v => exact hW.pin hstep
  | unpin cell => exact hW.unpin hstep
  | pinRanges g ranges => exact hW.pinRanges hallowed hstep
  | clearPins => exact clearPins_keeps hW.heap.passOk hW.slabs hstep
  | evacuate | collectMinor | collectMajor | collectFull | collectAuto | minorWithStatic =>
      cases hquiet

end Sound

end World

end NewGc
