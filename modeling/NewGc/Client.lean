import NewGc.Graph

/-!
# Client — the runs a client of the heap can drive

A client allocates, initialises and stores words, opens and flushes allocation buffers, pins and
unpins, and starts collections.  `World.allows` is the contract it keeps: only words of its own go
into the heap, headers describe the object they head, and no allocation buffer is open when a
collection starts.
-/

namespace NewGc

open PageHeap

/-- An open allocation buffer: cells `[cursor, stop)` of one page, handed out without start bits. -/
structure Slab where
  kind : PageKind
  cursor : Nat
  stop : Nat
  deriving DecidableEq, Repr

/-- The heap, the memory outside the reservation, the open buffers and the pins not yet released. -/
structure World where
  heap : PageHeap
  ext : Nat → Word
  slabs : List Slab
  handles : List Nat

/-- What a client can ask for. -/
inductive Op
  | allocCons (generation : Generation) (car cdr : Word)
  | allocBoxed (generation : Generation) (header : Word)
  | allocLarge (generation : Generation) (header : Word)
  | reserveTlab (generation : Generation) (kind : PageKind) (minCells wantCells : Nat)
  | reserveSlab (cells : Nat)
  | bumpCons (slab : Nat) (car cdr : Word)
  | bumpBoxed (slab : Nat) (header : Word)
  | flushTlabs
  | store (obj off : Nat) (w : Word)
  | storeExt (addr : Nat) (w : Word)
  | pin (w : Word)
  | unpin (cell : Nat)
  | pinRanges (target : Generation) (ranges : List (Nat × Nat))
  | clearPins
  | evacuate (fromGen destGen : Generation) (slots : List Slot)
  | collectMinor (roots : List Nat)
  | collectMajor (roots : List Nat)
  | collectFull (roots : List Nat)
  | collectAuto (thresholdBps : Nat) (roots : List Nat)
  | minorWithStatic (area : StaticArea) (pinStackRanges : List (Nat × Nat)) (roots : List Nat)

/-- The closure that presents root slots outside the reservation. -/
def rootsVisitor (L : HeapLayout) (roots : List Nat) : RootVisitor :=
  slotsVisitor L (roots.map Slot.ext)

namespace World

/-- A fresh reservation. -/
def init (base nPages : Nat) (os : Nat → Bool) (order : HashOrder) (ext : Nat → Word) : World where
  heap := withReservation base nPages os order
  ext := ext
  slabs := []
  handles := []

/-- A fresh heap of the coordinator's constructor. -/
def create (base youngBytes oldBytes : Nat) (os : Nat → Bool) (order : HashOrder)
    (ext : Nat → Word) : World where
  heap := PageHeap.new base youngBytes oldBytes os order
  ext := ext
  slabs := []
  handles := []

/-! ## The client's stores -/

/-- A store behind the write barrier. -/
def barrierStore (h : PageHeap) (cell : Nat) (w : Word) : PageHeap :=
  (h.setCell cell w).markCardAt (h.cellAddr cell)

/-- Initialise a cons. -/
def initCons (h : PageHeap) (cell : Nat) (car cdr : Word) : PageHeap :=
  barrierStore (barrierStore h cell car) (cell + 1) cdr

/-- Bump the `i`-th buffer by `nCells`: the object's first cell, the buffers left. -/
def bumpSlab (w : World) (i nCells : Nat) : Option (Nat × List Slab) :=
  match w.slabs[i]? with
  | none => none
  | some s =>
      if s.cursor + nCells ≤ s.stop then
        some (s.cursor, w.slabs.set i { s with cursor := s.cursor + nCells })
      else none

/-! ## Steps -/

/-- Cells of the object a header heads. -/
def headerCells (L : HeapLayout) (header : Word) : Nat :=
  match L.headerLayout header with
  | .ok layout => layout.totalCells
  | .error _ => 0

/-- Write the header of a freshly allocated object. -/
def withHeader (w : World) (header : Word) : Option Nat × PageHeap → World
  | (some cell, h) => { w with heap := h.setCell cell header }
  | (none, h) => { w with heap := h }

/-- The state after a request, or the panic it raised. -/
def step (L : HeapLayout) (w : World) : Op → Except GcPanic World
  | .allocCons generation car cdr =>
      match w.heap.tryAllocConsIn generation with
      | (some cell, h) => .ok { w with heap := initCons h cell car cdr }
      | (none, h) => .ok { w with heap := h }
  | .allocBoxed generation header =>
      .ok (w.withHeader header (w.heap.tryAllocBoxedIn generation (headerCells L header)))
  | .allocLarge generation header =>
      .ok (w.withHeader header (w.heap.tryAllocLarge (headerCells L header) generation))
  | .reserveTlab generation kind minCells wantCells =>
      match w.heap.reserveTlab generation kind minCells wantCells with
      | (some slab, h) =>
          .ok { w with
            heap := h
            slabs := { kind := kind, cursor := slab.1, stop := slab.1 + slab.2 } :: w.slabs }
      | (none, h) => .ok { w with heap := h }
  | .reserveSlab cells =>
      match w.heap.tryAllocG0Slab cells with
      | (some slab, h) =>
          .ok { w with
            heap := h
            slabs := { kind := .Boxed, cursor := slab.1, stop := slab.1 + slab.2 } :: w.slabs }
      | (none, h) => .ok { w with heap := h }
  | .bumpCons i car cdr =>
      match w.bumpSlab i 2 with
      | some (cell, slabs) =>
          .ok { w with heap := initCons (w.heap.setConsStartBitAt cell) cell car cdr, slabs := slabs }
      | none => .ok w
  | .bumpBoxed i header =>
      match w.bumpSlab i (headerCells L header) with
      | some (cell, slabs) =>
          .ok { w with heap := (w.heap.setStartBitAt cell).setCell cell header, slabs := slabs }
      | none => .ok w
  | .flushTlabs => .ok { w with slabs := [] }
  | .store obj off v => .ok { w with heap := barrierStore w.heap (obj + off) v }
  | .storeExt addr v => .ok { w with ext := Function.update w.ext addr v }
  | .pin v =>
      let pinned := w.heap.pin L v
      .ok { w with heap := pinned.2, handles := pinned.1.toList ++ w.handles }
  | .unpin cell =>
      .ok { w with heap := w.heap.unpin (some cell), handles := w.handles.erase cell }
  | .pinRanges target ranges =>
      .ok { w with heap := (w.heap.pinPointersInRanges L w.ext target ranges).2 }
  | .clearPins => .ok { w with heap := w.heap.clearAllPins }
  | .evacuate fromGen destGen slots => do
      let (_, h, ext) ← w.heap.evacuateWithRoots L w.ext fromGen destGen (slotsVisitor L slots)
      return { w with heap := h, ext := ext }
  | .collectMinor roots => do
      let (_, h, ext) ← w.heap.collectMinor L w.ext (rootsVisitor L roots)
      return { w with heap := h, ext := ext }
  | .collectMajor roots => do
      let (_, h, ext) ← w.heap.collectMajor L w.ext (rootsVisitor L roots)
      return { w with heap := h, ext := ext }
  | .collectFull roots => do
      let (_, h, ext) ← w.heap.collectFull L w.ext (rootsVisitor L roots)
      return { w with heap := h, ext := ext }
  | .collectAuto thresholdBps roots => do
      let (_, h, ext) ← w.heap.collectAuto L w.ext thresholdBps (rootsVisitor L roots)
      return { w with heap := h, ext := ext }
  | .minorWithStatic area pinStackRanges roots => do
      let h ← w.heap.markMinorWithStatic L w.ext area roots
      let (h, ext, _) ← h.collectMinorWithStatic L w.ext area pinStackRanges roots
      return { w with heap := h, ext := ext }

/-! ## The client's contract -/

/-- A header the client may write: it decodes, to a usable layout, and is no marker. -/
def headerOk (L : HeapLayout) (h : PageHeap) (header : Word) : Bool :=
  match L.headerLayout header with
  | .ok layout => layout.wellFormed && h.plainWord L header
  | .error _ => false

/-- A store the client may perform: inside the object, not over its header, and no marker into a
pointer cell. -/
def storeOk (L : HeapLayout) (h : PageHeap) (obj off : Nat) (v : Word) : Bool :=
  match h.objAt L obj with
  | some o =>
      decide (off < o.totalCells) && (o.isCons || decide (1 ≤ off)) &&
        (!decide (o.IsPtr off) || h.plainWord L v)
  | none => false

/-- A slot the client may present to an evacuation of `fromGen`: outside the reservation, or a
pointer cell of an object of another generation. -/
def slotOk (L : HeapLayout) (h : PageHeap) (fromGen : Generation) : Slot → Bool
  | .ext _ => true
  | .cell c => (List.range (c + 1)).any fun i =>
      match h.objAt L (c - i) with
      | some o => decide (o.IsPtr i) && decide (h.genAt (c - i) ≠ fromGen)
      | none => false

/-- The requests the contract allows. -/
def allows (L : HeapLayout) (w : World) : Op → Bool
  | .allocCons generation car cdr =>
      decide (generation ≠ .Free) && w.heap.plainWord L car && w.heap.plainWord L cdr
  | .allocBoxed generation header | .allocLarge generation header =>
      decide (generation ≠ .Free) && headerOk L w.heap header
  | .reserveTlab generation kind _ _ =>
      decide (generation ≠ .Free) && (decide (kind = .Cons) || decide (kind = .Boxed))
  | .bumpCons _ car cdr => w.heap.plainWord L car && w.heap.plainWord L cdr
  | .bumpBoxed i header =>
      headerOk L w.heap header &&
        match w.slabs[i]? with
        | some s => decide (s.kind = .Boxed)
        | none => true
  | .store obj off v => storeOk L w.heap obj off v
  | .unpin cell => decide (cell ∈ w.handles)
  | .pinRanges target _ => decide (target ≠ .Free)
  | .evacuate fromGen destGen slots =>
      decide (fromGen ≠ .Free) && decide (destGen ≠ .Free) && w.slabs.isEmpty &&
        slots.all (slotOk L w.heap fromGen)
  | .collectMinor _ | .collectMajor _ | .collectFull _ | .collectAuto _ _
  | .minorWithStatic _ _ _ => w.slabs.isEmpty
  | .reserveSlab _ | .flushTlabs | .storeExt _ _ | .pin _ | .clearPins => true

/-! ## Runs -/

/-- The worlds a run reaches when every step of it is allowed and meets `C`. -/
inductive Reached (L : HeapLayout) (C : World → Op → Prop) : World → Prop
  | start (base nPages : Nat) (os : Nat → Bool) (order : HashOrder) (ext : Nat → Word)
      (haligned : base % 8 = 0) (hfits : base + nPages * pageSizeBytes ≤ 2 ^ 64) :
      Reached L C (init base nPages os order ext)
  | create (base youngBytes oldBytes : Nat) (os : Nat → Bool) (order : HashOrder)
      (ext : Nat → Word) (haligned : base % 8 = 0)
      (hfits : base + (PageHeap.new base youngBytes oldBytes os order).reservedBytes ≤ 2 ^ 64) :
      Reached L C (create base youngBytes oldBytes os order ext)
  | step {w w' : World} (op : Op) (hw : Reached L C w) (hallowed : w.allows L op = true)
      (hC : C w op) (hstep : w.step L op = .ok w') : Reached L C w'

/-- The worlds a client can reach. -/
abbrev Reachable (L : HeapLayout) : World → Prop := Reached L fun _ _ => True

/-- Run a list of requests; `none` when one is not allowed or panics. -/
def run (L : HeapLayout) (w : World) : List Op → Option World
  | [] => some w
  | op :: ops =>
      if w.allows L op then
        match w.step L op with
        | .ok w' => run L w' ops
        | .error _ => none
      else none

/-- The first request of a run. -/
theorem run_cons {L : HeapLayout} {w w' : World} {op : Op} {ops : List Op}
    (hrun : w.run L (op :: ops) = some w') :
    w.allows L op = true ∧ ∃ w₁, w.step L op = .ok w₁ ∧ w₁.run L ops = some w' := by
  simp only [run] at hrun
  by_cases hallowed : w.allows L op = true
  · rw [if_pos hallowed] at hrun
    cases hstep : w.step L op with
    | error e => simp [hstep] at hrun
    | ok w₁ =>
        rw [hstep] at hrun
        exact ⟨hallowed, w₁, rfl, hrun⟩
  · simp [hallowed] at hrun

/-- A run of requests that all meet `C` stays within the worlds so reached. -/
theorem run_reached {L : HeapLayout} {C : World → Op → Prop} {w w' : World} {ops : List Op}
    (hw : Reached L C w) (hC : ∀ w, ∀ op ∈ ops, C w op) (hrun : w.run L ops = some w') :
    Reached L C w' := by
  induction ops generalizing w with
  | nil =>
      cases hrun
      exact hw
  | cons op ops ih =>
      obtain ⟨hallowed, w₁, hstep, hrest⟩ := run_cons hrun
      exact ih (hw.step op hallowed (hC w op List.mem_cons_self) hstep)
        (fun w op hop => hC w op (List.mem_cons_of_mem _ hop)) hrest

/-- A run from a reachable world reaches one. -/
theorem run_reachable {L : HeapLayout} {w w' : World} {ops : List Op} (hw : Reachable L w)
    (hrun : w.run L ops = some w') : Reachable L w' :=
  run_reached hw (fun _ _ _ => trivial) hrun

/-- The last request of a run. -/
theorem run_snoc {L : HeapLayout} {w w' : World} {ops : List Op} {op : Op}
    (hrun : w.run L (ops ++ [op]) = some w') :
    ∃ w₁, w.run L ops = some w₁ ∧ w₁.allows L op = true ∧ w₁.step L op = .ok w' := by
  induction ops generalizing w with
  | nil =>
      obtain ⟨hallowed, w₁, hstep, hrest⟩ := run_cons hrun
      cases hrest
      exact ⟨w, rfl, hallowed, hstep⟩
  | cons op' ops ih =>
      obtain ⟨hallowed, w₁, hstep, hrest⟩ := run_cons hrun
      obtain ⟨w₂, hw₂, hlast⟩ := ih hrest
      refine ⟨w₂, ?_, hlast⟩
      simp only [run]
      rw [if_pos hallowed, hstep]
      exact hw₂

/-! ## Runs that check a condition -/

/-- Run a list of requests as `run` does, as long as each of them passes a check. -/
def runIf (L : HeapLayout) (check : World → Op → Bool) (w : World) : List Op → Option World
  | [] => some w
  | op :: ops => do
      guard (w.allows L op && check w op)
      let w' ← (w.step L op).toOption
      runIf L check w' ops

theorem runIf_cons {L : HeapLayout} {check : World → Op → Bool} {w w' : World} {op : Op}
    {ops : List Op} (hrun : w.runIf L check (op :: ops) = some w') :
    w.allows L op = true ∧ check w op = true ∧ ∃ w₁, w.step L op = .ok w₁ ∧
      w₁.runIf L check ops = some w' := by
  by_cases hboth : (w.allows L op && check w op) = true
  · rw [Bool.and_eq_true] at hboth
    refine ⟨hboth.1, hboth.2, ?_⟩
    cases hs : w.step L op with
    | error e => simp [runIf, hboth, hs, Except.toOption] at hrun
    | ok w₂ =>
        refine ⟨w₂, rfl, ?_⟩
        simpa [runIf, hboth, hs, Except.toOption] using hrun
  · simp [runIf, hboth] at hrun

theorem run_of_runIf {L : HeapLayout} {check : World → Op → Bool} {w w' : World} {ops : List Op}
    (hrun : w.runIf L check ops = some w') : w.run L ops = some w' := by
  induction ops generalizing w with
  | nil => exact hrun
  | cons op ops ih =>
      obtain ⟨hallowed, -, w₁, hstep, hrest⟩ := runIf_cons hrun
      simp only [run, hallowed, if_true, hstep]
      exact ih hrest

/-- A run that checks a condition reaches its world by requests that meet it. -/
theorem runIf_reached {L : HeapLayout} {C : World → Op → Prop} {check : World → Op → Bool}
    (hcheck : ∀ w op, check w op = true → C w op) {w w' : World} {ops : List Op}
    (hw : Reached L C w) (hrun : w.runIf L check ops = some w') : Reached L C w' := by
  induction ops generalizing w with
  | nil =>
      cases hrun
      exact hw
  | cons op ops ih =>
      obtain ⟨hallowed, hC, w₁, hstep, hrest⟩ := runIf_cons hrun
      exact ih (hw.step op hallowed (hcheck w op hC) hstep) hrest

/-! ## Concrete runs -/

/-- A fresh Lisp heap at 4 GiB; `refused` are the commit requests the operating system refuses. -/
def lispWorld (nPages : Nat) (refused : List Nat) : World :=
  init (2 ^ 32) nPages (fun k => !refused.contains k) HashOrder.insertion fun _ => 0

/-- A tagged cons pointer to a cell of it. -/
def consAt (cell : Nat) : Word := LispLayout.makePointer (2 ^ 32 + cell * 8) .cons

/-- A tagged pointer to a header-bearing object at a cell of it. -/
def boxAt (cell : Nat) : Word := LispLayout.makePointer (2 ^ 32 + cell * 8) .header

theorem lispWorld_reached {C : World → Op → Prop} {nPages : Nat} (refused : List Nat)
    (hfits : 2 ^ 32 + nPages * pageSizeBytes ≤ 2 ^ 64) :
    Reached lispLayout C (lispWorld nPages refused) :=
  .start _ _ _ _ _ (by decide) hfits

end World

end NewGc
