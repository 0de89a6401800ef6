import NewGc.Client
import NewGc.Marking

/-!
# Gates — what the two markers mark on any heap

The facts of `Marking` suppose a well-shaped heap.  The markers themselves suppose nothing: on any
heap each of them is a search whose edges are the words that pass its gates, and the search ends
exactly unless it meets a header that does not decode, or a cell without backing.  The gates of the
two markers differ on large pages only.
-/

namespace NewGc

open Library PageHeap

/-! ## What the scanners read -/

namespace PageHeap

/-- The pointer cells a marker reads when it scans the object at a cell.  The header cell and the
pointer cells must have their backing. -/
def scanCells (L : HeapLayout) (h : PageHeap) (cell : Nat) : Except GcPanic (List Nat) :=
  let isCons := match (h.descs (cell / pageSizeCells)).kind with
    | .Cons => some true
    | .Boxed => some (h.isConsStartAt cell)
    | .Large => some false
    | .Free => none
  match isCons with
  | none => .ok []
  | some true => do
      h.accessCells [cell, cell + 1]
      return [cell, cell + 1]
  | some false => do
      h.access cell 1
      let layout ← L.headerLayout (h.mem cell)
      let cells := List.range' (cell + layout.pointerCellsStart)
        (layout.pointerCellsEnd - layout.pointerCellsStart)
      h.accessCells cells
      return cells

/-- The object at a cell can be scanned: what the scan reads is committed, and a header decodes. -/
def Decodes (L : HeapLayout) (h : PageHeap) (cell : Nat) : Prop :=
  ∃ cells, h.scanCells L cell = .ok cells

/-- The scanner takes the object at a cell for a cons. -/
def ScansCons (h : PageHeap) (cell : Nat) : Prop :=
  (h.descs (cell / pageSizeCells)).kind = .Cons ∨
    ((h.descs (cell / pageSizeCells)).kind = .Boxed ∧ h.isConsStartAt cell = true)

/-- What it is for an object to be scannable: a cons needs its two cells committed, anything else a
committed header cell that decodes and committed pages under its pointer range. -/
theorem decodes_iff {L : HeapLayout} {h : PageHeap} {cell : Nat} : h.Decodes L cell ↔
    (h.descs (cell / pageSizeCells)).kind = .Free ∨
    (h.ScansCons cell ∧ ∀ x ∈ [cell, cell + 1], h.committed (x / pageSizeCells) = true) ∨
    ((h.descs (cell / pageSizeCells)).kind ≠ .Free ∧ ¬ h.ScansCons cell ∧
      h.committed (cell / pageSizeCells) = true ∧
      ∃ layout, L.headerLayout (h.mem cell) = .ok layout ∧
        ∀ x ∈ List.range' (cell + layout.pointerCellsStart)
          (layout.pointerCellsEnd - layout.pointerCellsStart),
            h.committed (x / pageSizeCells) = true) := by
  have hread : ∀ cells, (∃ read, (do h.accessCells cells; return cells : Except GcPanic (List Nat)) =
      .ok read) ↔ ∀ x ∈ cells, h.committed (x / pageSizeCells) = true := by
    intro cells
    unfold accessCells
    constructor
    · rintro ⟨read, hr⟩
      obtain ⟨_, hall, -⟩ := bind_eq_ok hr
      exact List.all_eq_true.1 (require_eq_ok.1 hall)
    · exact fun hall => ⟨cells, require_bind (List.all_eq_true.2 hall) _⟩
  have hhead : h.access cell 1 = .ok () ↔ h.committed (cell / pageSizeCells) = true := by
    unfold access
    rw [require_eq_ok, backed_iff]
    simp
  have hheader : (∃ read, (do
      h.access cell 1
      let layout ← L.headerLayout (h.mem cell)
      let cells := List.range' (cell + layout.pointerCellsStart)
        (layout.pointerCellsEnd - layout.pointerCellsStart)
      h.accessCells cells
      return cells : Except GcPanic (List Nat)) = .ok read) ↔
      h.committed (cell / pageSizeCells) = true ∧
        ∃ layout, L.headerLayout (h.mem cell) = .ok layout ∧
          ∀ x ∈ List.range' (cell + layout.pointerCellsStart)
            (layout.pointerCellsEnd - layout.pointerCellsStart),
              h.committed (x / pageSizeCells) = true := by
    constructor
    · rintro ⟨read, hr⟩
      obtain ⟨_, haccess, hr⟩ := bind_eq_ok hr
      obtain ⟨layout, hl, hr⟩ := bind_eq_ok hr
      exact ⟨hhead.1 haccess, layout, hl, (hread _).1 ⟨_, hr⟩⟩
    · rintro ⟨hcommitted, layout, hl, hall⟩
      obtain ⟨read, hr⟩ := (hread _).2 hall
      exact ⟨read, bind_ok_iff.2 ⟨(), hhead.2 hcommitted, bind_ok_iff.2 ⟨layout, hl, hr⟩⟩⟩
  unfold Decodes scanCells ScansCons
  cases hk : (h.descs (cell / pageSizeCells)).kind with
  | Free => simp
  | Cons => exact (hread _).trans (by simp)
  | Boxed =>
      cases hb : h.isConsStartAt cell with
      | true => exact (hread _).trans (by simp)
      | false => exact hheader.trans (by simp)
  | Large => exact hheader.trans (by simp)

/-- The targets of the object at a cell. -/
def targetsOf (L : HeapLayout) (h : PageHeap) (target : Word → Option Nat) (cell : Nat) :
    Except GcPanic (List Nat) :=
  (h.scanCells L cell).map fun cells => cells.filterMap fun x => target (h.mem x)

end PageHeap

section Frame

variable {L : HeapLayout} {h h' : PageHeap}

theorem SameObjects.scanCells (hM : SameObjects h h') (cell : Nat) :
    h'.scanCells L cell = h.scanCells L cell := by
  unfold PageHeap.scanCells isConsStartAt PageHeap.accessCells PageHeap.access backed
  rw [hM.kind, hM.startBits, hM.mem, hM.committed]

theorem SameObjects.targetsOf (hM : SameObjects h h') (target : Word → Option Nat) :
    h'.targetsOf L target = h.targetsOf L target := by
  funext cell
  unfold PageHeap.targetsOf
  rw [hM.scanCells, hM.mem]

theorem mem_targetsOf {target : Word → Option Nat} {c : Nat} {as : List Nat}
    (has : h.targetsOf L target c = .ok as) {y : Nat} (hy : y ∈ as) :
    ∃ cells x, h.scanCells L c = .ok cells ∧ x ∈ cells ∧ target (h.mem x) = some y := by
  unfold PageHeap.targetsOf at has
  cases hcells : h.scanCells L c with
  | error e => simp [hcells, Except.map] at has
  | ok cells =>
      simp only [hcells, Except.map, Except.ok.injEq] at has
      subst has
      obtain ⟨x, hx, htarget⟩ := List.mem_filterMap.1 hy
      exact ⟨cells, x, rfl, hx, htarget⟩

theorem targetsOf_ok {target : Word → Option Nat} {c : Nat} {cells : List Nat}
    (hcells : h.scanCells L c = .ok cells) :
    h.targetsOf L target c = .ok (cells.filterMap fun x => target (h.mem x)) := by
  unfold PageHeap.targetsOf
  rw [hcells]
  rfl

theorem decodes_of_targetsOf {target : Word → Option Nat} {c : Nat} {as : List Nat}
    (has : h.targetsOf L target c = .ok as) : h.Decodes L c := by
  cases hcells : h.scanCells L c with
  | error e => simp [PageHeap.targetsOf, hcells, Except.map] at has
  | ok cells => exact ⟨cells, hcells⟩

theorem not_decodes_of_targetsOf {target : Word → Option Nat} {c : Nat} {e : GcPanic}
    (he : h.targetsOf L target c = .error e) : ¬ h.Decodes L c := by
  rintro ⟨cells, hcells⟩
  rw [targetsOf_ok hcells] at he
  cases he

/-- A cell a word passes the gates for lies on a page of the reservation. -/
theorem markTarget_page {g : Generation} {w : Word} {y : Nat}
    (hy : PageMarker.markTarget L h g w = some y) : y / pageSizeCells < h.nPages := by
  obtain ⟨addr, -, -, hpage, -⟩ := targetCell_some (markTarget_cell hy).1
  exact pageOf_lt hpage

/-- Clearing the marks of a generation clears them on its pages and nowhere else. -/
theorem isMarked_cleared {g : Generation} {c : Nat} (hlt : c / pageSizeCells < h.nPages)
    (hgen : h.genAt c = g) : (h.clearMarkBitsInGen g).isMarked c = false :=
  if_pos ⟨hlt, hgen⟩

theorem isMarked_kept {g : Generation} {c : Nat}
    (hc : ¬ (c / pageSizeCells < h.nPages ∧ h.genAt c = g)) :
    (h.clearMarkBitsInGen g).isMarked c = h.isMarked c :=
  if_neg hc

theorem cell_lt_of_page {c : Nat} (hc : c / pageSizeCells < h.nPages) : c < h.totalCells := by
  unfold totalCells pageSizeCells at *
  omega

end Frame

/-! ## The plain marker -/

/-- The plain marker on any heap: nothing but mark bits changes. -/
structure PlainMarking (h₀ : PageHeap) (g : Generation) (m : PageMarker) : Prop where
  same : m.heap = { h₀ with markBits := m.heap.markBits }
  target : m.target = g

namespace PlainMarking

variable {L : HeapLayout} {h₀ : PageHeap} {g : Generation} {m : PageMarker}

theorem frame (hI : PlainMarking h₀ g m) : SameObjects h₀ m.heap :=
  (MarksOnly.of_marks hI.same).sameObjects

theorem visitWord (hI : PlainMarking h₀ g m) (w : Word) : PlainMarking h₀ g (m.visitWord L w) ∧
    (m.visitWord L w).search = m.search.offerAll (PageMarker.markTarget L h₀ g w).toList := by
  unfold PageMarker.visitWord
  rw [markTarget_congr hI.frame, hI.target]
  cases ht : PageMarker.markTarget L h₀ g w with
  | none => exact ⟨hI, rfl⟩
  | some c =>
      show _ ∧ _ = m.search.offer c
      unfold Search.offer
      by_cases hm : m.heap.isMarked c = true
      · simp only [hm, if_true]
        rw [if_pos (show m.search.seen c = true from hm)]
        exact ⟨hI, rfl⟩
      · simp only [hm, if_false, Bool.false_eq_true]
        rw [if_neg (show ¬ m.search.seen c = true from hm)]
        refine ⟨⟨?_, rfl⟩, rfl⟩
        show m.heap.setMark c = _
        rw [hI.same]
        rfl

theorem visitWords (hI : PlainMarking h₀ g m) (words : List Word) :
    PlainMarking h₀ g (words.foldl (PageMarker.visitWord L) m) ∧
      (words.foldl (PageMarker.visitWord L) m).search =
        m.search.offerAll (words.filterMap (PageMarker.markTarget L h₀ g)) :=
  Search.foldl_offers (fun _ w hI => hI.visitWord w) words hI

theorem visitCells (hI : PlainMarking h₀ g m) (cells : List Nat) :
    PlainMarking h₀ g (m.visitCells L cells) ∧ (m.visitCells L cells).search =
      m.search.offerAll (cells.filterMap fun x => PageMarker.markTarget L h₀ g (h₀.mem x)) := by
  refine Search.foldl_offers (fun m x hI => ?_) cells hI
  rw [hI.frame.mem]
  exact hI.visitWord (h₀.mem x)

theorem scanMarkedObject_eq (m : PageMarker) (c : Nat) :
    m.scanMarkedObject L c = (m.heap.scanCells L c).map (m.visitCells L) := by
  unfold PageMarker.scanMarkedObject PageHeap.scanCells
  cases (m.heap.descs (c / pageSizeCells)).kind with
  | Free => rfl
  | Cons =>
      simp only [map_of_bind]
      rfl
  | Boxed =>
      cases m.heap.isConsStartAt c with
      | true =>
          simp only [map_of_bind]
          rfl
      | false =>
          simp only [map_of_bind]
          rfl
  | Large =>
      simp only [map_of_bind]
      rfl

/-- Draining the plain marker is a search. -/
theorem drains (L : HeapLayout) (h₀ : PageHeap) (g : Generation) :
    Search.Drains PageMarker.search (PlainMarking h₀ g)
      (h₀.targetsOf L (PageMarker.markTarget L h₀ g)) (fun fuel m => m.drainFuel L fuel) where
  zero := fun _ => rfl
  stop := by
    intro fuel m hq
    have hq' : m.queue = [] := hq
    unfold PageMarker.drainFuel
    rw [hq']
  pop := by
    intro fuel m c rest hI hq
    have hq' : m.queue = c :: rest := hq
    have hI' : PlainMarking h₀ g { m with queue := rest } := ⟨hI.same, hI.target⟩
    have hstep : m.drainFuel L (fuel + 1) =
        ((h₀.scanCells L c).map (PageMarker.visitCells L { m with queue := rest }) >>= fun m =>
          m.drainFuel L fuel) := by
      rw [← hI.frame.scanCells, ← scanMarkedObject_eq { m with queue := rest } c]
      conv_lhs => unfold PageMarker.drainFuel
      rw [hq']
    rw [hstep]
    cases hcells : h₀.scanCells L c with
    | error e =>
        refine Or.inr ⟨e, ?_, rfl⟩
        unfold PageHeap.targetsOf
        rw [hcells]
        rfl
    | ok cells =>
        obtain ⟨hI₁, hview⟩ := hI'.visitCells (L := L) cells
        exact Or.inl ⟨_, _, targetsOf_ok hcells, hI₁, hview, rfl⟩

end PlainMarking

/-! ## The least set -/

/-- The least set of cells that holds the target of every word that passes the gates, and of every
pointer cell of an object of the set that passes them. -/
inductive Traced (L : HeapLayout) (h : PageHeap) (g : Generation) (words : List Word) : Nat → Prop
  | root {w : Word} {y : Nat} (hw : w ∈ words) (hy : PageMarker.markTarget L h g w = some y) :
      Traced L h g words y
  | child {c x y : Nat} {cells : List Nat} (hc : Traced L h g words c)
      (hcells : h.scanCells L c = .ok cells) (hx : x ∈ cells)
      (hy : PageMarker.markTarget L h g (h.mem x) = some y) : Traced L h g words y

namespace Traced

variable {L : HeapLayout} {h : PageHeap} {g : Generation} {words : List Word} {c : Nat}

/-- A cell of the set is the target of some word. -/
theorem target (hc : Traced L h g words c) : ∃ w, PageMarker.markTarget L h g w = some c := by
  cases hc with
  | root hw hy => exact ⟨_, hy⟩
  | child hc hcells hx hy => exact ⟨_, hy⟩

theorem page_lt (hc : Traced L h g words c) : c / pageSizeCells < h.nPages := by
  obtain ⟨w, hw⟩ := hc.target
  exact markTarget_page hw

theorem genAt (hc : Traced L h g words c) : h.genAt c = g := by
  obtain ⟨w, hw⟩ := hc.target
  exact (markTarget_cell hw).2.1

theorem isStartAt (hc : Traced L h g words c) : h.isStartAt c = true := by
  obtain ⟨w, hw⟩ := hc.target
  exact (markTarget_cell hw).2.2.2

/-- What a search over the cleared marks finds is the least set. -/
theorem found_iff : Search.Found (h.targetsOf L (PageMarker.markTarget L h g))
    (h.clearMarkBitsInGen g).markBits (words.filterMap (PageMarker.markTarget L h g)) c ↔
      Traced L h g words c := by
  constructor
  · intro hc
    induction hc with
    | start ha =>
        obtain ⟨w, hw, hy⟩ := List.mem_filterMap.1 ha
        exact .root hw hy
    | step _ _ hnext hb ih =>
        obtain ⟨cells, x, hcells, hx, hy⟩ := mem_targetsOf hnext hb
        exact .child ih hcells hx hy
  · intro hc
    induction hc with
    | root hw hy => exact .start (List.mem_filterMap.2 ⟨_, hw, hy⟩)
    | child hc hcells hx hy ih =>
        exact .step ih (isMarked_cleared hc.page_lt hc.genAt) (targetsOf_ok hcells)
          (List.mem_filterMap.2 ⟨_, hx, hy⟩)

end Traced

/-- Marking from `words` has marked the least set: a cell of the generation is marked iff an object
of the set starts there, and nothing but the mark bits of the generation has changed. -/
structure MarkedExactly (L : HeapLayout) (h : PageHeap) (g : Generation) (words : List Word)
    (h' : PageHeap) : Prop where
  frame : h' = { h with markBits := h'.markBits }
  marked : ∀ c, c / pageSizeCells < h.nPages → h.genAt c = g →
    (h'.isMarked c = true ↔ h.isStartAt c = true ∧ Traced L h g words c)
  others : ∀ c, ¬ (c / pageSizeCells < h.nPages ∧ h.genAt c = g) → h'.isMarked c = h.isMarked c

/-- How the marker ends on a heap. -/
inductive MarkEnds (L : HeapLayout) (h : PageHeap) (g : Generation) (words : List Word) : Prop
  | exact (m : PageMarker)
      (hdrain : (words.foldl (PageMarker.visitWord L) (PageMarker.new h g)).drain L = .ok m)
      (hempty : m.queue = []) (hmarked : MarkedExactly L h g words m.heap)
      (hdecodes : ∀ c, Traced L h g words c → h.Decodes L c)
  | panics (e : GcPanic)
      (hdrain : (words.foldl (PageMarker.visitWord L) (PageMarker.new h g)).drain L = .error e)
      (c : Nat) (hc : Traced L h g words c) (hheader : ¬ h.Decodes L c)

theorem markEnds (L : HeapLayout) (h : PageHeap) (g : Generation) (words : List Word) :
    MarkEnds L h g words := by
  have hM : SameObjects h (h.clearMarkBitsInGen g) := (clearMarkBitsInGen_frame h g).sameObjects
  have hstart : PlainMarking (h.clearMarkBitsInGen g) g (PageMarker.new h g) := ⟨rfl, rfl⟩
  obtain ⟨hI, hview⟩ := hstart.visitWords (L := L) words
  have htarget : PageMarker.markTarget L (h.clearMarkBitsInGen g) g = PageMarker.markTarget L h g :=
    funext (markTarget_congr hM)
  have hnext : (h.clearMarkBitsInGen g).targetsOf L
      (PageMarker.markTarget L (h.clearMarkBitsInGen g) g) =
        h.targetsOf L (PageMarker.markTarget L h g) := by
    rw [htarget, hM.targetsOf]
  have hbound : ∀ a as, h.targetsOf L (PageMarker.markTarget L h g) a = .ok as →
      ∀ b ∈ as, b ∈ List.range h.totalCells := by
    intro a as has b hb
    obtain ⟨cells, x, -, -, hy⟩ := mem_targetsOf has hb
    exact List.mem_range.2 (cell_lt_of_page (markTarget_page hy))
  generalize hm₀ : words.foldl (PageMarker.visitWord L) (PageMarker.new h g) = m₀ at hI hview
  have hsearch : m₀.search = Search.fresh (h.clearMarkBitsInGen g).markBits
      (words.filterMap (PageMarker.markTarget L h g)) := by
    rw [hview, htarget]
    rfl
  have hfuel : m₀.search.work (List.range h.totalCells) ≤ m₀.heap.totalCells + m₀.queue.length := by
    rw [hI.frame.totalCells, show (h.clearMarkBitsInGen g).totalCells = h.totalCells from rfl]
    exact work_le _ _
  have hdrains := PlainMarking.drains L (h.clearMarkBitsInGen g) g
  rw [hnext] at hdrains
  rcases hdrains.exact hbound hI hsearch hfuel with
    ⟨m, hdrain, hI', hempty, hseen, hread⟩ | ⟨e, c, hdrain, hfound, -, hfails⟩
  · have hmarked : ∀ c, m.heap.isMarked c = true ↔
        (h.clearMarkBitsInGen g).isMarked c = true ∨ Traced L h g words c := by
      intro c
      rw [← Traced.found_iff]
      exact hseen c
    refine .exact m (by rw [hm₀]; exact hdrain) hempty ⟨?_, ?_, ?_⟩ ?_
    · rw [hI'.same]
      rfl
    · intro c hlt hgen
      rw [hmarked, isMarked_cleared hlt hgen]
      constructor
      · rintro (hfalse | hc)
        · cases hfalse
        · exact ⟨hc.isStartAt, hc⟩
      · exact fun hc => Or.inr hc.2
    · intro c hother
      rw [Bool.eq_iff_iff, hmarked, isMarked_kept hother]
      constructor
      · rintro (hold | hc)
        · exact hold
        · exact absurd ⟨hc.page_lt, hc.genAt⟩ hother
      · exact Or.inl
    · intro c hc
      obtain ⟨as, has⟩ := hread c (Traced.found_iff.2 hc) (isMarked_cleared hc.page_lt hc.genAt)
      exact decodes_of_targetsOf has
  · exact .panics e (by rw [hm₀]; exact hdrain) c (Traced.found_iff.1 hfound)
      (not_decodes_of_targetsOf hfails)

/-- The plain marker terminates and marks exactly the least set, on any heap, for any generation and
any words, if and only if every object of the set can be scanned. -/
theorem mark_from_roots_exact (L : HeapLayout) (h : PageHeap) (g : Generation)
    (words : List Word) :
    (∃ m, (words.foldl (PageMarker.visitWord L) (PageMarker.new h g)).drain L = .ok m ∧
        m.queue = [] ∧ h.markFromRoots L g words = .ok m.heap ∧
        MarkedExactly L h g words m.heap) ↔
      ∀ c, Traced L h g words c → h.Decodes L c := by
  have hreturns : ∀ m, (words.foldl (PageMarker.visitWord L) (PageMarker.new h g)).drain L = .ok m →
      h.markFromRoots L g words = .ok m.heap := by
    intro m hm
    unfold markFromRoots
    dsimp only
    rw [hm]
    rfl
  cases markEnds L h g words with
  | exact m hdrain hempty hmarked hdecodes =>
      exact ⟨fun _ => hdecodes, fun _ => ⟨m, hdrain, hempty, hreturns m hdrain, hmarked⟩⟩
  | panics e hdrain c hc hheader =>
      constructor
      · rintro ⟨m, hm, -⟩
        rw [hdrain] at hm
        cases hm
      · exact fun hall => absurd (hall c hc) hheader

/-- On a well-shaped heap every object of the set can be scanned. -/
theorem Shape.decodes {L : HeapLayout} {h : PageHeap} {T : ObjTable} {g : Generation}
    {words : List Word} (hS : Shape L h T Forwarding.empty) (hg : g ≠ .Free) {c : Nat}
    (hc : Traced L h g words c) : h.Decodes L c := by
  obtain ⟨w, hw⟩ := hc.target
  obtain ⟨o, ho⟩ := Option.isSome_iff_exists.1 ((markTarget_ok hS hg).object w c hw)
  have hcells : ∀ x ∈ o.ptrCells c, h.committed (x / pageSizeCells) = true := by
    intro x hx
    obtain ⟨i, hi, rfl⟩ := ObjInfo.mem_ptrCells.1 hx
    exact hS.committed ho ((hS.wf ho).inside i hi)
  rw [decodes_iff]
  by_cases hfree : (h.descs (c / pageSizeCells)).kind = .Free
  · exact Or.inl hfree
  by_cases hcons : h.ScansCons c
  · refine Or.inr (Or.inl ⟨hcons, ?_⟩)
    have hb : o.isCons = true := by
      rcases hcons with hk | ⟨-, hk⟩
      · exact (hS.obj c o ho).consPage hk
      · rw [← hS.isConsStartAt ho]
        exact hk
    rw [(hS.wf ho).cons hb] at hcells
    exact hcells
  · refine Or.inr (Or.inr ⟨hfree, hcons, hS.committed ho (hS.wf ho).pos, o.layout, ?_, hcells⟩)
    refine (hS.obj c o ho).header rfl ?_
    cases hb : o.isCons with
    | false => rfl
    | true =>
        -- a cons lies on a Cons page, or on a Boxed page behind its start bit
        exfalso
        apply hcons
        unfold ScansCons
        cases hk : (h.descs (c / pageSizeCells)).kind with
        | Free => exact absurd hk hfree
        | Cons => exact Or.inl rfl
        | Boxed => exact Or.inr ⟨rfl, (hS.isConsStartAt ho).trans hb⟩
        | Large =>
            have hfalse := ((hS.obj c o ho).large hk).2.1
            rw [hb] at hfalse
            cases hfalse

/-! ### A header under a cons

A region that outlived its page hands out cells of a page that was opened again: the cdr of the new
cons overwrites the header of a string. -/

def clobberedHeaderOps : List Op :=
  [.allocLarge .G0 (heapHeader .String 16383),
    .allocCons .G0 (LispLayout.fixnum 1) LispLayout.nil,
    .storeExt 0 (World.consAt 16384),
    .evacuate .G0 .G1 [.ext 0],
    .allocBoxed .G0 (heapHeader .String 3),
    .allocBoxed .G1 (heapHeader .String 2),
    .allocBoxed .G1 (heapHeader .String 0),
    .allocCons .G1 (LispLayout.fixnum 2) LispLayout.nil]

/-- Marking from that string panics, in a heap a client can reach. -/
theorem mark_from_roots_panics : ∃ w : World, World.Reachable lispLayout w ∧
    w.heap.markFromRoots lispLayout .G1 [World.boxAt 8195] = .error .invalidHeaderType ∧
      ¬ ∃ h', w.heap.markFromRoots lispLayout .G1 [World.boxAt 8195] = .ok h' ∧
        MarkedExactly lispLayout w.heap .G1 [World.boxAt 8195] h' := by
  have hrun : (((World.lispWorld 4 []).run lispLayout clobberedHeaderOps).map fun w =>
      match w.heap.markFromRoots lispLayout .G1 [World.boxAt 8195] with
      | .ok _ => false
      | .error e => e == .invalidHeaderType) = some true := by
    decide +kernel
  obtain ⟨w, hw, hcheck⟩ := Option.map_eq_some_iff.1 hrun
  refine ⟨w, World.run_reachable (World.lispWorld_reached [] (by decide)) hw, ?_⟩
  cases hmark : w.heap.markFromRoots lispLayout .G1 [World.boxAt 8195] with
  | ok h' => simp [hmark] at hcheck
  | error e =>
      simp only [hmark, beq_iff_eq] at hcheck
      refine ⟨by rw [hcheck], ?_⟩
      rintro ⟨h', hfalse, -⟩
      cases hfalse

/-! ## The evacuator -/

/-- The evacuator on any heap: besides the marks, only pins and the pin set change. -/
structure EvacTracing (h₀ : PageHeap) (g : Generation) (e : PageEvacuator) : Prop where
  frame : SameObjects h₀ e.heap
  fromGen : e.fromGen = g

namespace EvacTracing

variable {L : HeapLayout} {h₀ : PageHeap} {g : Generation} {e : PageEvacuator}

/-- Marking a cell of a small page. -/
theorem offerCell (hI : EvacTracing h₀ g e) (c : Nat) {e' : PageEvacuator}
    (he : e' = if e.heap.isMarked c then e
      else { e with heap := e.heap.setMark c, markQueue := c :: e.markQueue }) :
    EvacTracing h₀ g e' ∧ e'.search = e.search.offer c := by
  unfold Search.offer
  by_cases hm : e.heap.isMarked c = true
  · rw [he, if_pos hm, if_pos (show e.search.seen c = true from hm)]
    exact ⟨hI, rfl⟩
  · rw [he, if_neg hm, if_neg (show ¬ e.search.seen c = true from hm)]
    exact ⟨⟨hI.frame.trans ⟨rfl, rfl, rfl, rfl, fun _ => PageDesc.SameRole.refl _, rfl, rfl⟩,
      hI.fromGen⟩, rfl⟩

/-- Marking a run from one of its pages offers its head. -/
theorem markLarge (hI : EvacTracing h₀ g e) (q : Nat) : EvacTracing h₀ g (e.markLarge q) ∧
    (e.markLarge q).search = e.search.offer (e.heap.largeHeadPage q * pageSizeCells) := by
  unfold PageEvacuator.markLarge Search.offer
  dsimp only
  by_cases hm : e.heap.isMarked (e.heap.largeHeadPage q * pageSizeCells) = true
  · rw [if_pos hm, if_pos (show e.search.seen _ = true from hm)]
    exact ⟨hI, rfl⟩
  · rw [if_neg hm, if_neg (show ¬ e.search.seen _ = true from hm)]
    refine ⟨⟨hI.frame.trans ⟨rfl, rfl, rfl, rfl, ?_, rfl, rfl⟩, hI.fromGen⟩, rfl⟩
    -- the pages of the run get a pin
    intro p
    dsimp only
    split
    · exact ⟨rfl, rfl, rfl, rfl⟩
    · exact PageDesc.SameRole.refl _

theorem markVisitWord (hI : EvacTracing h₀ g e) (w : Word) :
    EvacTracing h₀ g (e.markVisitWord L w) ∧
      (e.markVisitWord L w).search = e.search.offerAll (evacTarget L h₀ g w).toList := by
  obtain rfl := hI.fromGen
  rw [← evacTarget_congr hI.frame]
  unfold PageEvacuator.markVisitWord evacTarget PageMarker.markTarget
  cases hp : (L.classify w).pointer? with
  | none => exact ⟨hI, rfl⟩
  | some r =>
      obtain ⟨addr, kind⟩ := r
      simp only
      cases hq : e.heap.pageOf addr with
      | none => exact ⟨hI, rfl⟩
      | some q =>
          simp only
          by_cases hgen : (e.heap.descs q).generation = e.fromGen
          · simp only [ne_eq, hgen, not_true_eq_false, if_false]
            cases hkind : (e.heap.descs q).kind with
            | Large => exact hI.markLarge q
            | Free => exact ⟨hI, rfl⟩
            | Cons =>
                cases e.heap.isStartAt (e.heap.cellOf addr) with
                | false => exact ⟨hI, rfl⟩
                | true =>
                    cases kind <;> cases e.heap.isConsStartAt (e.heap.cellOf addr)
                    · exact ⟨hI, rfl⟩
                    · exact hI.offerCell _ rfl
                    · exact hI.offerCell _ rfl
                    · exact ⟨hI, rfl⟩
            | Boxed =>
                cases e.heap.isStartAt (e.heap.cellOf addr) with
                | false => exact ⟨hI, rfl⟩
                | true =>
                    cases kind <;> cases e.heap.isConsStartAt (e.heap.cellOf addr)
                    · exact ⟨hI, rfl⟩
                    · exact hI.offerCell _ rfl
                    · exact hI.offerCell _ rfl
                    · exact ⟨hI, rfl⟩
          · simp only [ne_eq, hgen, not_false_eq_true, if_true]
            exact ⟨hI, rfl⟩

theorem visitWords (hI : EvacTracing h₀ g e) (words : List Word) :
    EvacTracing h₀ g (words.foldl (PageEvacuator.markVisitWord L) e) ∧
      (words.foldl (PageEvacuator.markVisitWord L) e).search =
        e.search.offerAll (words.filterMap (evacTarget L h₀ g)) :=
  Search.foldl_offers (fun _ w hI => hI.markVisitWord w) words hI

theorem visitCells (hI : EvacTracing h₀ g e) (cells : List Nat) :
    EvacTracing h₀ g (cells.foldl (fun e x => e.markVisitWord L (e.heap.mem x)) e) ∧
      (cells.foldl (fun e x => e.markVisitWord L (e.heap.mem x)) e).search =
        e.search.offerAll (cells.filterMap fun x => evacTarget L h₀ g (h₀.mem x)) := by
  refine Search.foldl_offers (fun e x hI => ?_) cells hI
  rw [hI.frame.mem]
  exact hI.markVisitWord (h₀.mem x)

theorem markScanObject_eq (e : PageEvacuator) (c : Nat) :
    e.markScanObject L c = (e.heap.scanCells L c).map fun cells =>
      cells.foldl (fun e x => e.markVisitWord L (e.heap.mem x)) e := by
  unfold PageEvacuator.markScanObject PageHeap.scanCells
  cases (e.heap.descs (c / pageSizeCells)).kind with
  | Free => rfl
  | Cons =>
      simp only [map_of_bind]
      rfl
  | Boxed =>
      cases e.heap.isConsStartAt c with
      | true =>
          simp only [map_of_bind]
          rfl
      | false =>
          simp only [map_of_bind]
          rfl
  | Large =>
      simp only [map_of_bind]
      rfl

/-- Draining the evacuator's queue is a search. -/
theorem drains (L : HeapLayout) (h₀ : PageHeap) (g : Generation) :
    Search.Drains PageEvacuator.search (EvacTracing h₀ g) (h₀.targetsOf L (evacTarget L h₀ g))
      (fun fuel e => e.markDrainFuel L fuel) where
  zero := fun _ => rfl
  stop := by
    intro fuel e hq
    have hq' : e.markQueue = [] := hq
    unfold PageEvacuator.markDrainFuel
    rw [hq']
  pop := by
    intro fuel e c rest hI hq
    have hq' : e.markQueue = c :: rest := hq
    have hI' : EvacTracing h₀ g { e with markQueue := rest } := ⟨hI.frame, hI.fromGen⟩
    have hstep : e.markDrainFuel L (fuel + 1) =
        ((h₀.scanCells L c).map (fun cells => cells.foldl
          (fun e x => PageEvacuator.markVisitWord L e (e.heap.mem x))
            { e with markQueue := rest }) >>= fun e => e.markDrainFuel L fuel) := by
      rw [← hI.frame.scanCells, ← markScanObject_eq { e with markQueue := rest } c]
      conv_lhs => unfold PageEvacuator.markDrainFuel
      rw [hq']
    rw [hstep]
    cases hcells : h₀.scanCells L c with
    | error err =>
        refine Or.inr ⟨err, ?_, rfl⟩
        unfold PageHeap.targetsOf
        rw [hcells]
        rfl
    | ok cells =>
        obtain ⟨hI₁, hview⟩ := hI'.visitCells (L := L) cells
        exact Or.inl ⟨_, _, targetsOf_ok hcells, hI₁, hview, rfl⟩

end EvacTracing

/-! ## Words into large runs -/

section Runs

variable {L : HeapLayout} {h : PageHeap} {g : Generation} {w : Word} {words : List Word}

/-- The large page of the generation a word leads into. -/
def largePage (L : HeapLayout) (h : PageHeap) (g : Generation) (w : Word) : Option Nat :=
  match (L.classify w).pointer? with
  | none => none
  | some (addr, _) =>
      match h.pageOf addr with
      | none => none
      | some q =>
          if (h.descs q).generation ≠ g then none
          else if (h.descs q).kind = .Large then some q
          else none

/-- The evacuator marks the head of the run a word leads into; anywhere else the gates agree. -/
theorem evacTarget_eq (L : HeapLayout) (h : PageHeap) (g : Generation) (w : Word) :
    evacTarget L h g w = match largePage L h g w with
      | some q => some (h.largeHeadPage q * pageSizeCells)
      | none => PageMarker.markTarget L h g w := by
  unfold evacTarget largePage PageMarker.markTarget
  cases (L.classify w).pointer? with
  | none => rfl
  | some r =>
      obtain ⟨addr, kind⟩ := r
      cases hq : h.pageOf addr with
      | none => simp [hq]
      | some q =>
          simp only [hq]
          by_cases hgen : (h.descs q).generation = g
          · by_cases hk : (h.descs q).kind = .Large
            · simp [hgen, hk]
            · simp [hgen, hk]
          · simp [hgen]

theorem largePage_some {q : Nat} (hq : largePage L h g w = some q) :
    q < h.nPages ∧ (h.descs q).generation = g ∧ (h.descs q).kind = .Large ∧
      ∀ y, PageMarker.markTarget L h g w = some y → y / pageSizeCells = q := by
  unfold largePage at hq
  cases hp : (L.classify w).pointer? with
  | none => simp [hp] at hq
  | some r =>
      obtain ⟨addr, kind⟩ := r
      simp only [hp] at hq
      cases hpage : h.pageOf addr with
      | none => simp [hpage] at hq
      | some p =>
          simp only [hpage] at hq
          split at hq
          · cases hq
          · rename_i hgen
            split at hq
            · rename_i hk
              cases hq
              refine ⟨pageOf_lt hpage, not_not.1 hgen, hk, ?_⟩
              intro y hy
              obtain ⟨addr', kind', hp', hpage', -⟩ := targetCell_some (markTarget_cell hy).1
              rw [hp] at hp'
              cases hp'
              rw [hpage] at hpage'
              exact (Option.some.inj hpage').symm
            · cases hq

/-- A marked cell of a large page is what some word named, or the head of a run. -/
theorem largePage_of_large {y : Nat} (hy : PageMarker.markTarget L h g w = some y)
    (hk : h.kindAt y = .Large) : largePage L h g w = some (y / pageSizeCells) := by
  obtain ⟨hcell, hgen, -, -⟩ := markTarget_cell hy
  obtain ⟨addr, kind, hp, hpage, -⟩ := targetCell_some hcell
  unfold largePage
  simp only [hp, hpage]
  rw [if_neg (show ¬ (h.descs (y / pageSizeCells)).generation ≠ g from not_not.2 hgen),
    if_pos (show (h.descs (y / pageSizeCells)).kind = .Large from hk)]

theorem largeHeadPage_le (h : PageHeap) (q : Nat) : h.largeHeadPage q ≤ q := by
  induction q with
  | zero => exact Nat.le_refl 0
  | succ q ih =>
      unfold PageHeap.largeHeadPage
      split
      · omega
      · exact Nat.le_refl _

/-- The head of a run heads its own page. -/
theorem largeHeadPage_idem (h : PageHeap) (q : Nat) :
    h.largeHeadPage (h.largeHeadPage q) = h.largeHeadPage q := by
  induction q with
  | zero => rfl
  | succ q ih =>
      by_cases hc : (h.descs (q + 1)).isLargeCont = true
      · have hstep : h.largeHeadPage (q + 1) = h.largeHeadPage q := by
          conv_lhs => unfold PageHeap.largeHeadPage
          rw [if_pos hc]
        rw [hstep, ih]
      · have hstep : h.largeHeadPage (q + 1) = q + 1 := by
          unfold PageHeap.largeHeadPage
          rw [if_neg hc]
        rw [hstep, hstep]

/-- What the evacuator marks lies on a page of the reservation. -/
theorem evacTarget_page {y : Nat} (hy : evacTarget L h g w = some y) :
    y / pageSizeCells < h.nPages := by
  rw [evacTarget_eq] at hy
  cases hq : largePage L h g w with
  | none =>
      rw [hq] at hy
      exact markTarget_page hy
  | some q =>
      simp only [hq, Option.some.injEq] at hy
      have hlt := (largePage_some hq).1
      have hle := largeHeadPage_le h q
      rw [← hy, Nat.mul_div_cancel _ (by decide)]
      omega

/-- A cell of a large page that the evacuator marks for some word, it marks for every word that
names the cell. -/
theorem evacTarget_named {w' : Word} {y : Nat} (hy : PageMarker.markTarget L h g w = some y)
    (hy' : evacTarget L h g w' = some y) : evacTarget L h g w = some y := by
  by_cases hk : h.kindAt y = .Large
  · have hpage := largePage_of_large hy hk
    rw [evacTarget_eq, hpage]
    rw [evacTarget_eq] at hy'
    cases hq : largePage L h g w' with
    | none =>
        rw [hq] at hy'
        rw [largePage_of_large hy' hk] at hq
        cases hq
    | some q =>
        simp only [hq, Option.some.injEq] at hy'
        have hdiv : y / pageSizeCells = h.largeHeadPage q := by
          rw [← hy', Nat.mul_div_cancel _ (by decide)]
        simp only [hdiv, largeHeadPage_idem, hy']
  · rw [evacTarget_eq]
    cases hq : largePage L h g w with
    | none => exact hy
    | some q =>
        obtain ⟨-, -, hlarge, hsame⟩ := largePage_some hq
        rw [← hsame y hy] at hlarge
        exact absurd hlarge hk

end Runs

/-! ## Agreement -/

/-- The evacuator in mark mode, after it visited `words`. -/
def evacVisited (L : HeapLayout) (h : PageHeap) (ext : Nat → Word) (g destGen : Generation)
    (words : List Word) : PageEvacuator :=
  words.foldl (PageEvacuator.markVisitWord L)
    (PageEvacuator.new (h.clearMarkBitsInGen g) ext g destGen .mark)

/-- Both markers return, with the same mark bits on the pages of the generation. -/
def MarkersAgree (L : HeapLayout) (h : PageHeap) (ext : Nat → Word) (g destGen : Generation)
    (words : List Word) : Prop :=
  ∃ h' e, h.markFromRoots L g words = .ok h' ∧
    (evacVisited L h ext g destGen words).markDrain L = .ok e ∧
      ∀ c, c / pageSizeCells < h.nPages → h.genAt c = g → e.heap.isMarked c = h'.isMarked c

/-- The cells the evacuator meets. -/
abbrev EvacMet (L : HeapLayout) (h : PageHeap) (g : Generation) (words : List Word) : Nat → Prop :=
  Search.Found (h.targetsOf L (evacTarget L h g)) (h.clearMarkBitsInGen g).markBits
    (words.filterMap (evacTarget L h g))

/-- How the evacuator's mark ends on a heap. -/
theorem evacEnds (L : HeapLayout) (h : PageHeap) (ext : Nat → Word) (g destGen : Generation)
    (words : List Word) :
    (∃ e, (evacVisited L h ext g destGen words).markDrain L = .ok e ∧
      (∀ c, e.heap.isMarked c = true ↔
        (h.clearMarkBitsInGen g).isMarked c = true ∨ EvacMet L h g words c) ∧
      ∀ c, EvacMet L h g words c → (h.clearMarkBitsInGen g).isMarked c = false → h.Decodes L c) ∨
    ∃ err c, (evacVisited L h ext g destGen words).markDrain L = .error err ∧
      EvacMet L h g words c ∧ (h.clearMarkBitsInGen g).isMarked c = false ∧ ¬ h.Decodes L c := by
  have hM : SameObjects h (h.clearMarkBitsInGen g) := (clearMarkBitsInGen_frame h g).sameObjects
  have hstart : EvacTracing (h.clearMarkBitsInGen g) g
      (PageEvacuator.new (h.clearMarkBitsInGen g) ext g destGen .mark) := ⟨SameObjects.refl _, rfl⟩
  obtain ⟨hI, hview⟩ := hstart.visitWords (L := L) words
  have htarget : evacTarget L (h.clearMarkBitsInGen g) g = evacTarget L h g :=
    funext (evacTarget_congr hM)
  have hnext : (h.clearMarkBitsInGen g).targetsOf L (evacTarget L (h.clearMarkBitsInGen g) g) =
      h.targetsOf L (evacTarget L h g) := by
    rw [htarget, hM.targetsOf]
  have hbound : ∀ a as, h.targetsOf L (evacTarget L h g) a = .ok as →
      ∀ b ∈ as, b ∈ List.range h.totalCells := by
    intro a as has b hb
    obtain ⟨cells, x, -, -, hy⟩ := mem_targetsOf has hb
    exact List.mem_range.2 (cell_lt_of_page (evacTarget_page hy))
  change EvacTracing _ g (evacVisited L h ext g destGen words) at hI
  change (evacVisited L h ext g destGen words).search = _ at hview
  generalize evacVisited L h ext g destGen words = e₀ at hI hview ⊢
  have hsearch : e₀.search = Search.fresh (h.clearMarkBitsInGen g).markBits
      (words.filterMap (evacTarget L h g)) := by
    rw [hview, htarget]
    rfl
  have hfuel : e₀.search.work (List.range h.totalCells) ≤
      e₀.heap.totalCells + e₀.markQueue.length := by
    rw [hI.frame.totalCells, show (h.clearMarkBitsInGen g).totalCells = h.totalCells from rfl]
    exact work_le _ _
  have hdrains := EvacTracing.drains L (h.clearMarkBitsInGen g) g
  rw [hnext] at hdrains
  rcases hdrains.exact hbound hI hsearch hfuel with
    ⟨e, hdrain, -, -, hseen, hread⟩ | ⟨err, c, hdrain, hfound, hnew, hfails⟩
  · refine Or.inl ⟨e, hdrain, hseen, ?_⟩
    intro c hc hnew
    obtain ⟨as, has⟩ := hread c hc hnew
    exact decodes_of_targetsOf has
  · exact Or.inr ⟨err, c, hdrain, hfound, hnew, not_decodes_of_targetsOf hfails⟩

/-- The words the markers are offered: the roots, the pointer cells of the objects of the least set,
and those of an unmarked object of another generation that heads a run of this one. -/
inductive Offered (L : HeapLayout) (h : PageHeap) (g : Generation) (words : List Word) : Word → Prop
  | root {w : Word} (hw : w ∈ words) : Offered L h g words w
  | child {c x : Nat} {cells : List Nat} (hc : Traced L h g words c)
      (hcells : h.scanCells L c = .ok cells) (hx : x ∈ cells) : Offered L h g words (h.mem x)
  | foreign {w : Word} {c x : Nat} {cells : List Nat} (hw : Offered L h g words w)
      (hc : evacTarget L h g w = some c) (hgen : h.genAt c ≠ g) (hnew : h.isMarked c = false)
      (hcells : h.scanCells L c = .ok cells) (hx : x ∈ cells) : Offered L h g words (h.mem x)

/-- The gates of the markers agree on a word: what the evacuator marks for it in the generation, the
object or the head of the run the word leads into, is in the least set; what it names in the least
set the evacuator marks; and where it leads into a run that heads in another generation, the head can
be scanned. -/
structure GatesAgree (L : HeapLayout) (h : PageHeap) (g : Generation) (words : List Word)
    (w : Word) : Prop where
  inside : ∀ y, evacTarget L h g w = some y → h.genAt y = g → Traced L h g words y
  named : ∀ y, PageMarker.markTarget L h g w = some y → Traced L h g words y →
    evacTarget L h g w = some y
  foreign : ∀ y, evacTarget L h g w = some y → h.genAt y ≠ g → h.isMarked y = false →
    h.Decodes L y

section Agreement

variable {L : HeapLayout} {h : PageHeap} {g : Generation} {words : List Word}

/-- Off the large runs of the generation the gates agree: on the roots, and on the pointer cells of
the least set. -/
theorem gatesAgree_of_small {w : Word} (hw : w ∈ words ∨ ∃ c cells x, Traced L h g words c ∧
    h.scanCells L c = .ok cells ∧ x ∈ cells ∧ h.mem x = w) (hsmall : largePage L h g w = none) :
    GatesAgree L h g words w := by
  have htarget : evacTarget L h g w = PageMarker.markTarget L h g w := by
    rw [evacTarget_eq, hsmall]
  refine ⟨fun y hy _ => ?_, fun y hy _ => by rw [htarget, hy], fun y hy hgen => ?_⟩
  · rw [htarget] at hy
    rcases hw with hroot | ⟨c, cells, x, hc, hcells, hx, rfl⟩
    · exact .root hroot hy
    · exact .child hc hcells hx hy
  · rw [htarget] at hy
    exact absurd (markTarget_cell hy).2.1 hgen

/-- Where the gates agree, the evacuator meets what it was offered, and in the generation nothing
but the least set. -/
theorem EvacMet.offered (hall : ∀ w, Offered L h g words w → GatesAgree L h g words w) {c : Nat}
    (hc : EvacMet L h g words c) :
    ∃ w, Offered L h g words w ∧ evacTarget L h g w = some c := by
  induction hc with
  | start ha =>
      obtain ⟨w, hw, hy⟩ := List.mem_filterMap.1 ha
      exact ⟨w, .root hw, hy⟩
  | @step a b as ha hnew hnext hb ih =>
      obtain ⟨cells, x, hcells, hx, hy⟩ := mem_targetsOf hnext hb
      obtain ⟨w, hw, ha'⟩ := ih
      by_cases hgen : h.genAt a = g
      · exact ⟨_, .child ((hall w hw).inside a ha' hgen) hcells hx, hy⟩
      · -- the head of a run in another generation keeps its old mark
        have hold : h.isMarked a = false := by
          rw [← isMarked_kept fun hin => hgen hin.2]
          exact hnew
        exact ⟨_, .foreign hw ha' hgen hold hcells hx, hy⟩

/-- Where the gates agree, the evacuator meets the least set. -/
theorem Traced.evacMet (hall : ∀ w, Offered L h g words w → GatesAgree L h g words w) {c : Nat}
    (hc : Traced L h g words c) : EvacMet L h g words c := by
  induction hc with
  | @root w y hw hy =>
      have htarget := (hall w (.root hw)).named y hy (.root hw hy)
      exact .start (List.mem_filterMap.2 ⟨w, hw, htarget⟩)
  | @child c x y cells hc hcells hx hy ih =>
      have htarget := (hall _ (.child hc hcells hx)).named y hy (.child hc hcells hx hy)
      exact .step ih (isMarked_cleared hc.page_lt hc.genAt) (targetsOf_ok hcells)
        (List.mem_filterMap.2 ⟨x, hx, htarget⟩)

/-- Where both markers mark the same cells, the evacuator meets the target of every word offered. -/
theorem Offered.evacMet (hsame : ∀ c, Traced L h g words c → EvacMet L h g words c) {w : Word}
    (hw : Offered L h g words w) {y : Nat} (hy : evacTarget L h g w = some y) :
    EvacMet L h g words y := by
  induction hw generalizing y with
  | root hw => exact .start (List.mem_filterMap.2 ⟨_, hw, hy⟩)
  | @child c x cells hc hcells hx =>
      exact .step (hsame c hc) (isMarked_cleared hc.page_lt hc.genAt) (targetsOf_ok hcells)
        (List.mem_filterMap.2 ⟨x, hx, hy⟩)
  | @foreign w c x cells _ hc hgen hnew hcells hx ih =>
      have hold : (h.clearMarkBitsInGen g).isMarked c = false := by
        rw [isMarked_kept fun hin => hgen hin.2]
        exact hnew
      exact .step (ih hc) hold (targetsOf_ok hcells) (List.mem_filterMap.2 ⟨x, hx, hy⟩)

/-- A cell the evacuator meets is the target of some word. -/
theorem EvacMet.target {c : Nat} (hc : EvacMet L h g words c) : ∃ w, evacTarget L h g w = some c := by
  cases hc with
  | start ha =>
      obtain ⟨w, -, hy⟩ := List.mem_filterMap.1 ha
      exact ⟨w, hy⟩
  | step _ _ hnext hb =>
      obtain ⟨cells, x, -, -, hy⟩ := mem_targetsOf hnext hb
      exact ⟨_, hy⟩

end Agreement

/-- The two markers agree, on any heap, for any generation and any words, if and only if the objects
of the least set can be scanned and the gates agree on every word the markers are offered. -/
theorem markers_agree (L : HeapLayout) (h : PageHeap) (ext : Nat → Word) (g destGen : Generation)
    (words : List Word) : MarkersAgree L h ext g destGen words ↔
      (∀ c, Traced L h g words c → h.Decodes L c) ∧
        ∀ w, Offered L h g words w → GatesAgree L h g words w := by
  constructor
  · rintro ⟨h', e, hmark, hdrain, hagree⟩
    -- neither marker panicked
    obtain ⟨m, hm, hmarked, hdecodes⟩ : ∃ m : PageMarker, m.heap = h' ∧
        MarkedExactly L h g words m.heap ∧ ∀ c, Traced L h g words c → h.Decodes L c := by
      unfold markFromRoots at hmark
      cases markEnds L h g words with
      | exact m hdrain _ hmarked hdecodes =>
          dsimp only at hmark
          rw [hdrain] at hmark
          cases hmark
          exact ⟨m, rfl, hmarked, hdecodes⟩
      | panics err hdrain =>
          dsimp only at hmark
          rw [hdrain] at hmark
          cases hmark
    subst hm
    obtain ⟨e', hdrain', hseen, hread⟩ : ∃ e', (evacVisited L h ext g destGen words).markDrain L =
        .ok e' ∧ (∀ c, e'.heap.isMarked c = true ↔
          (h.clearMarkBitsInGen g).isMarked c = true ∨ EvacMet L h g words c) ∧
        ∀ c, EvacMet L h g words c → (h.clearMarkBitsInGen g).isMarked c = false →
          h.Decodes L c := by
      refine (evacEnds L h ext g destGen words).resolve_right ?_
      rintro ⟨err, c, herr, -⟩
      rw [hdrain] at herr
      cases herr
    rw [hdrain] at hdrain'
    cases hdrain'
    -- on the generation's pages the evacuator met the least set
    have hiff : ∀ c, c / pageSizeCells < h.nPages → h.genAt c = g →
        (EvacMet L h g words c ↔ Traced L h g words c) := by
      intro c hlt hgen
      have hevac := hseen c
      rw [isMarked_cleared hlt hgen, hagree c hlt hgen, hmarked.marked c hlt hgen] at hevac
      constructor
      · exact fun hc => (hevac.2 (Or.inr hc)).2
      · exact fun hc => (hevac.1 ⟨hc.isStartAt, hc⟩).resolve_left (by simp)
    have hsame : ∀ c, Traced L h g words c → EvacMet L h g words c := fun c hc =>
      (hiff c hc.page_lt hc.genAt).2 hc
    refine ⟨hdecodes, fun w hw => ⟨?_, ?_, ?_⟩⟩
    · intro y hy hgen
      exact (hiff y (evacTarget_page hy) hgen).1 (hw.evacMet hsame hy)
    · intro y hy htraced
      obtain ⟨w', hw'⟩ := (hsame y htraced).target
      exact evacTarget_named hy hw'
    · intro y hy hgen hold
      refine hread y (hw.evacMet hsame hy) ?_
      rw [isMarked_kept fun hin => hgen hin.2]
      exact hold
  · rintro ⟨hdecodes, hall⟩
    obtain ⟨m, hdrainM, hmarked⟩ : ∃ m : PageMarker, h.markFromRoots L g words = .ok m.heap ∧
        MarkedExactly L h g words m.heap := by
      cases markEnds L h g words with
      | exact m hdrain _ hmarked _ =>
          refine ⟨m, ?_, hmarked⟩
          unfold markFromRoots
          dsimp only
          rw [hdrain]
          rfl
      | panics err _ c hc hheader => exact absurd (hdecodes c hc) hheader
    rcases evacEnds L h ext g destGen words with ⟨e, hdrain, hseen, -⟩ | ⟨err, c, -, hc, hnew, hheader⟩
    · refine ⟨m.heap, e, hdrainM, hdrain, ?_⟩
      intro c hlt hgen
      rw [Bool.eq_iff_iff, hseen, isMarked_cleared hlt hgen, hmarked.marked c hlt hgen]
      constructor
      · rintro (hfalse | hc)
        · cases hfalse
        · obtain ⟨w, hw, hy⟩ := EvacMet.offered hall hc
          have htraced := (hall w hw).inside c hy hgen
          exact ⟨htraced.isStartAt, htraced⟩
      · exact fun hc => Or.inr (hc.2.evacMet hall)
    · -- whatever the evacuator scans can be scanned
      obtain ⟨w, hw, hy⟩ := EvacMet.offered hall hc
      by_cases hgen : h.genAt c = g
      · exact absurd (hdecodes c ((hall w hw).inside c hy hgen)) hheader
      · refine absurd ((hall w hw).foreign c hy hgen ?_) hheader
        rw [← isMarked_kept fun hin => hgen hin.2]
        exact hnew

/-- A word into the middle of a large run: the plain marker ignores it, the evacuator marks the
head. -/
theorem markers_differ : ∃ (w : World) (words : List Word), World.Reachable lispLayout w ∧
    ¬ MarkersAgree lispLayout w.heap w.ext .G0 .G1 words := by
  have hrun : (((World.lispWorld 2 []).run lispLayout
      [.allocLarge .G0 (heapHeader .String 8191)]).map fun w =>
        match w.heap.markFromRoots lispLayout .G0 [World.boxAt 5],
          (evacVisited lispLayout w.heap w.ext .G0 .G1 [World.boxAt 5]).markDrain lispLayout with
        | .ok h', .ok e => decide (0 < w.heap.nPages) && w.heap.genAt 0 == .G0 &&
            (e.heap.isMarked 0 && !h'.isMarked 0)
        | _, _ => false) = some true := by
    decide +kernel
  obtain ⟨w, hw, hcheck⟩ := Option.map_eq_some_iff.1 hrun
  refine ⟨w, [World.boxAt 5], World.run_reachable (World.lispWorld_reached [] (by decide)) hw, ?_⟩
  rintro ⟨h', e, hmark, hdrain, hagree⟩
  simp only [hmark, hdrain, Bool.and_eq_true, decide_eq_true_eq, beq_iff_eq,
    Bool.not_eq_true'] at hcheck
  obtain ⟨⟨hpage, hgen⟩, hevac, hplain⟩ := hcheck
  have hsame := hagree 0 hpage hgen
  rw [hevac, hplain] at hsame
  cases hsame

end NewGc
