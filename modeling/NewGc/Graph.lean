import NewGc.Cycle

/-!
# Graph — the object graph a heap represents

What a client sees of the heap: the objects (cells with a start bit on a page in use), the cells a
word points at, and the edges their pointer cells draw.  The collector's contract is stated on this
graph.
-/

namespace NewGc

open PageHeap

/-! ## Slots -/

/-- A place that holds a word: an address outside the reservation or a cell of it. -/
inductive Slot
  | ext (addr : Nat)
  | cell (idx : Nat)
  deriving DecidableEq, Repr

/-- The word a slot holds. -/
def Slot.read (h : PageHeap) (ext : Nat → Word) : Slot → Word
  | .ext a => ext a
  | .cell c => h.mem c

namespace PageEvacuator

def visitSlot (L : HeapLayout) (e : PageEvacuator) : Slot → PageEvacuator
  | .ext a => e.visit L a
  | .cell c => e.visitCell L c

def visitSlots (L : HeapLayout) (e : PageEvacuator) (slots : List Slot) : PageEvacuator :=
  slots.foldl (visitSlot L) e

/-- `visit` or `visit_cell`, faulting without backing. -/
def tryVisitSlot (L : HeapLayout) (e : PageEvacuator) : Slot → Except GcPanic PageEvacuator
  | .ext a => e.tryVisit L a
  | .cell c => e.tryVisitCell L c

def tryVisitSlots (L : HeapLayout) (e : PageEvacuator) (slots : List Slot) :
    Except GcPanic PageEvacuator :=
  slots.foldlM (tryVisitSlot L) e

end PageEvacuator

/-- The closure that presents a list of slots. -/
def slotsVisitor (L : HeapLayout) (slots : List Slot) : RootVisitor := fun e =>
  e.tryVisitSlots L slots

/-! ## Objects -/

/-- What is known of an object besides its content. -/
structure ObjInfo where
  isCons : Bool
  layout : ObjectLayout
  deriving DecidableEq, Repr

namespace ObjInfo

/-- A cons: two cells, both pointers. -/
def cons : ObjInfo where
  isCons := true
  layout := { totalCells := 2, pointerCellsStart := 0, pointerCellsEnd := 2 }

def totalCells (o : ObjInfo) : Nat := o.layout.totalCells

/-- Is offset `i` a pointer cell? -/
def IsPtr (o : ObjInfo) (i : Nat) : Prop :=
  o.layout.pointerCellsStart ≤ i ∧ i < o.layout.pointerCellsEnd

instance (o : ObjInfo) (i : Nat) : Decidable (o.IsPtr i) := inferInstanceAs (Decidable (_ ∧ _))

/-- The pointer cells of an object at `c`. -/
def ptrCells (o : ObjInfo) (c : Nat) : List Nat :=
  List.range' (c + o.layout.pointerCellsStart)
    (o.layout.pointerCellsEnd - o.layout.pointerCellsStart)

/-- The start pair of the object. -/
def startPair (o : ObjInfo) : StartPair := if o.isCons then .cons else .header

/-- The kind of pointer that leads to the object. -/
def pointerKind (o : ObjInfo) : PointerKind := if o.isCons then .cons else .header

end ObjInfo

namespace PageHeap

/-- Page of a cell, its generation and its kind. -/
def genAt (h : PageHeap) (c : Nat) : Generation := (h.descs (c / pageSizeCells)).generation

def kindAt (h : PageHeap) (c : Nat) : PageKind := (h.descs (c / pageSizeCells)).kind

/-- The object that starts at a cell. -/
def objAt (L : HeapLayout) (h : PageHeap) (c : Nat) : Option ObjInfo :=
  if h.genAt c = .Free then none
  else
    match h.startBits c with
    | .none => none
    | .cons => some ObjInfo.cons
    | .header =>
        match L.headerLayout (h.mem c) with
        | .ok layout => some { isCons := false, layout := layout }
        | .error _ => none

/-- The cell of the reservation a pointer word names. -/
def targetCell (L : HeapLayout) (h : PageHeap) (w : Word) : Option Nat :=
  match (L.classify w).pointer? with
  | none => none
  | some (addr, _) => if (h.pageOf addr).isSome then some (h.cellOf addr) else none

/-- The object a word points at: its first cell is the one named and the tag fits its kind. -/
def pointee (L : HeapLayout) (h : PageHeap) (w : Word) : Option Nat :=
  match (L.classify w).pointer? with
  | none => none
  | some (addr, kind) =>
      if (h.pageOf addr).isSome then
        match h.objAt L (h.cellOf addr) with
        | some o => if o.pointerKind = kind then some (h.cellOf addr) else none
        | none => none
      else none

/-- `x` holds a pointer to `y`. -/
def Edge (L : HeapLayout) (h : PageHeap) (x y : Nat) : Prop :=
  ∃ o i, h.objAt L x = some o ∧ o.IsPtr i ∧ h.pointee L (h.mem (x + i)) = some y

/-- Cell `i` of the object `o` at `c` is no pointer: it lies outside the pointer range, or its word
leads to no cell of the reservation (a fixnum, nil, an address outside). -/
def PlainCell (L : HeapLayout) (h : PageHeap) (c : Nat) (o : ObjInfo) (i : Nat) : Prop :=
  o.IsPtr i → h.targetCell L (h.mem (c + i)) = none

/-- The word is no forwarding marker into the reservation. -/
def plainWord (L : HeapLayout) (h : PageHeap) (w : Word) : Bool :=
  match L.classify w with
  | .forwarded target => (h.pageOf target).isNone
  | _ => true

end PageHeap

/-- An object's layout is usable: it has a first cell, and its pointer cells lie inside, behind the
header. -/
def ObjectLayout.wellFormed (l : ObjectLayout) : Bool :=
  decide (1 ≤ l.totalCells) &&
    (decide (l.pointerCellsEnd ≤ l.pointerCellsStart) ||
      (decide (1 ≤ l.pointerCellsStart) && decide (l.pointerCellsEnd ≤ l.totalCells)))

end NewGc
