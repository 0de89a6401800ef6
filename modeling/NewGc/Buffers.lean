import NewGc.SafeRuns

/-!
# Buffers — central allocators and thread-local buffers

`PageHeap` hands out memory from its allocation regions, from large runs and as slabs; each
`Mutator` bumps objects from buffers of its own and takes the heap lock only to refill one.  A call
of a mutator is a loop of lock-free bumps and locked refills, so the calls of several mutators and
of the heap interleave step by step.  Every cell has one owner at a time: `Ledger` keeps the books.
-/

namespace NewGc

open PageHeap

/-! ## Mutators -/

/-- `INITIAL_TLAB_CELLS`. -/
def initialTlabCells : Nat := 512

/-- `MAX_TLAB_CELLS`. -/
def maxTlabCells : Nat := pageSizeCells

/-- A thread-local allocation buffer: its cursor and end, and the size of the next refill. -/
structure TlabBuffer where
  slab : Option (Nat × Nat)
  nextRefillCells : Nat
  deriving DecidableEq, Repr

def TlabBuffer.empty : TlabBuffer where
  slab := none
  nextRefillCells := initialTlabCells

/-- The fast path: advance the cursor when the object fits. -/
def TlabBuffer.bump (t : TlabBuffer) (nCells : Nat) : Option (Nat × TlabBuffer) :=
  match t.slab with
  | none => none
  | some (cursor, stop) =>
      if nCells ≤ stop - cursor then some (cursor, { t with slab := some (cursor + nCells, stop) })
      else none

/-- The buffer after a refill; it grows the next request. -/
def TlabBuffer.refilled (t : TlabBuffer) (slab : Nat × Nat) : TlabBuffer where
  slab := some (slab.1, slab.1 + slab.2)
  nextRefillCells := min (t.nextRefillCells * 2) maxTlabCells

/-- The arguments of `Mutator::bump`. -/
structure Request where
  generation : Generation
  kind : PageKind
  nCells : Nat
  isCons : Bool
  deriving DecidableEq, Repr

/-- A mutator: one buffer for each generation and kind, and the call it is in. -/
structure Mutator where
  tlabs : Generation → PageKind → TlabBuffer
  call : Option Request

def Mutator.idle : Mutator where
  tlabs := fun _ _ => TlabBuffer.empty
  call := none

def Mutator.setTlab (u : Mutator) (g : Generation) (k : PageKind) (t : TlabBuffer) : Mutator :=
  { u with tlabs := Function.update u.tlabs g (Function.update (u.tlabs g) k t) }

/-! ## Runs -/

/-- A range that was returned: its first cell and length, what was asked for, and whether it is an
object (`some isCons`) or a raw slab. -/
structure Grant where
  cell : Nat
  nCells : Nat
  generation : Generation
  kind : PageKind
  object : Option Bool
  deriving DecidableEq, Repr

/-- The heap, the mutators, and everything returned so far, oldest first. -/
structure Allocators where
  heap : PageHeap
  mutators : Nat → Mutator
  grants : List Grant

/-- One step of an interleaving.  `advance` is one round of the loop of `Mutator::bump`. -/
inductive AllocAction
  | heapCons (generation : Generation)
  | heapBoxed (generation : Generation) (nCells : Nat)
  | heapLarge (generation : Generation) (nCells : Nat)
  | heapSlab (cells : Nat)
  | callCons (m : Nat) (generation : Generation)
  | callBoxed (m : Nat) (generation : Generation) (nCells : Nat)
  | advance (m : Nat)
  | flushTlabs (m : Nat)
  deriving DecidableEq, Repr

/-- The arguments the allocators assert: `Free` has no region, a large object has a cell. -/
def AllocAction.valid : AllocAction → Bool
  | .heapCons g | .heapBoxed g _ | .callCons _ g | .callBoxed _ g _ => decide (g ≠ .Free)
  | .heapLarge g n => decide (g ≠ .Free) && decide (1 ≤ n)
  | .heapSlab _ | .advance _ | .flushTlabs _ => true

namespace Allocators

/-- A heap with idle mutators and empty buffers. -/
def start (h : PageHeap) : Allocators where
  heap := h
  mutators := fun _ => Mutator.idle
  grants := []

def setMutator (s : Allocators) (m : Nat) (u : Mutator) : Allocators :=
  { s with mutators := Function.update s.mutators m u }

/-- Record the result of an allocator. -/
def record (s : Allocators) (g : Generation) (k : PageKind) (n : Nat) (object : Option Bool) :
    Option Nat × PageHeap → Allocators
  | (some cell, h) =>
      { s with
        heap := h
        grants := s.grants ++
          [{ cell := cell, nCells := n, generation := g, kind := k, object := object }] }
  | (none, h) => { s with heap := h }

/-- Enter `Mutator::bump`: the poison flag is read once, without the lock. -/
def enter (s : Allocators) (m : Nat) (r : Request) : Allocators :=
  if s.heap.poisoned then s
  else if (s.mutators m).call = none then s.setMutator m { s.mutators m with call := some r }
  else s

/-- One round of `Mutator::bump`: bump the buffer, or refill it under the heap lock. -/
def round (s : Allocators) (m : Nat) (r : Request) : Allocators :=
  let u := s.mutators m
  let t := u.tlabs r.generation r.kind
  match t.bump r.nCells with
  | some (cell, t) =>
      (s.setMutator m { u.setTlab r.generation r.kind t with call := none }).record r.generation
        r.kind r.nCells (some r.isCons) (some cell, markStart s.heap cell r.isCons)
  | none =>
      match s.heap.reserveTlab r.generation r.kind r.nCells (max t.nextRefillCells r.nCells) with
      | (some slab, h) =>
          { s.setMutator m (u.setTlab r.generation r.kind (t.refilled slab)) with heap := h }
      | (none, h) => { s.setMutator m { u with call := none } with heap := h }

/-- One step of an interleaving. -/
def step (s : Allocators) : AllocAction → Allocators
  | .heapCons g => s.record g .Cons 2 (some true) (s.heap.tryAllocConsIn g)
  | .heapBoxed g n => s.record g .Boxed n (some false) (s.heap.tryAllocBoxedIn g n)
  | .heapLarge g n => s.record g .Large n (some false) (s.heap.tryAllocLarge n g)
  | .heapSlab cells =>
      match s.heap.tryAllocG0Slab cells with
      | (some slab, h) => s.record .G0 .Boxed slab.2 none (some slab.1, h)
      | (none, h) => s.record .G0 .Boxed 0 none (none, h)
  | .callCons m g =>
      s.enter m { generation := g, kind := .Cons, nCells := 2, isCons := true }
  | .callBoxed m g n =>
      if n = 0 ∨ pageSizeCells < n then s
      else s.enter m { generation := g, kind := .Boxed, nCells := n, isCons := false }
  | .advance m =>
      match (s.mutators m).call with
      | none => s
      | some r => s.round m r
  | .flushTlabs m =>
      if (s.mutators m).call = none then s.setMutator m Mutator.idle else s

/-- An interleaving. -/
def run (s : Allocators) (acts : List AllocAction) : Allocators := acts.foldl step s

end Allocators

/-! ## The contract -/

/-- A cell of an object of the heap. -/
def Covered (L : HeapLayout) (h : PageHeap) (x : Nat) : Prop :=
  ∃ c o, h.objAt L c = some o ∧ c ≤ x ∧ x < c + o.totalCells

/-- A cell of a granted range. -/
def Grant.Has (G : Grant) (x : Nat) : Prop := G.cell ≤ x ∧ x < G.cell + G.nCells

/-- The start pair of an object. -/
def startPairOf (isCons : Bool) : StartPair := if isCons then .cons else .header

/-- What the allocators owe: no two ranges share a cell, none lies in an object of the heap they
started from, small ranges lie on one page of the generation and kind asked for, and an object is
started at its first cell only. -/
structure Allocators.Sound (L : HeapLayout) (h₀ : PageHeap) (s : Allocators) : Prop where
  disjoint : ∀ (i j : Nat) (G G' : Grant), s.grants[i]? = some G → s.grants[j]? = some G' → i ≠ j →
    ∀ x, G.Has x → ¬ G'.Has x
  fresh : ∀ G ∈ s.grants, ∀ x, G.Has x → ¬ Covered L h₀ x
  placed : ∀ G ∈ s.grants, G.kind ≠ .Large → G.cell % pageSizeCells + G.nCells ≤ pageSizeCells ∧
    s.heap.genAt G.cell = G.generation ∧ s.heap.kindAt G.cell = G.kind
  started : ∀ G ∈ s.grants, ∀ isCons, G.object = some isCons →
    s.heap.startBits G.cell = startPairOf isCons ∧
      ∀ x, G.Has x → x ≠ G.cell → s.heap.startBits x = .none

/-- The heap the allocators start from: an open page with room belongs to its region and is empty
from the region's offset on, and no object lies on a free page. -/
structure Openable (L : HeapLayout) (h : PageHeap) : Prop where
  region : ∀ g k p, (h.allocRegions g k).currentPage = some p →
    (h.allocRegions g k).offset < pageSizeCells →
      (h.descs p).generation = g ∧ (h.descs p).kind = k ∧ g ≠ .Free ∧
        ∀ x, p * pageSizeCells + (h.allocRegions g k).offset ≤ x → x < (p + 1) * pageSizeCells →
          h.startBits x = .none ∧ ¬ Covered L h x
  free : ∀ x, h.genAt x = .Free → ¬ Covered L h x

/-! ## The ledger -/

/-- Who a cell belongs to. -/
inductive Owner
  | free
  | region (g : Generation) (k : PageKind)
  | tlab (m : Nat) (g : Generation) (k : PageKind)
  | object
  | grant (j : Nat)
  deriving DecidableEq, Repr

/-- Owners whose cells have no start bit yet. -/
def Owner.Blank : Owner → Prop
  | .region _ _ | .tlab _ _ _ => True
  | _ => False

/-- Cells `[lo, hi)` change hands. -/
def assign (owner : Nat → Owner) (lo hi : Nat) (o : Owner) : Nat → Owner := fun x =>
  if lo ≤ x ∧ x < hi then o else owner x

theorem assign_in {owner : Nat → Owner} {lo hi x : Nat} {o : Owner} (h1 : lo ≤ x) (h2 : x < hi) :
    assign owner lo hi o x = o := if_pos ⟨h1, h2⟩

theorem assign_out {owner : Nat → Owner} {lo hi x : Nat} {o : Owner} (h : ¬ (lo ≤ x ∧ x < hi)) :
    assign owner lo hi o x = owner x := if_neg h

/-- The heap's side of the books. -/
structure Book (L : HeapLayout) (h₀ h : PageHeap) (owner : Nat → Owner) : Prop where
  free : ∀ x, h.genAt x = .Free → owner x = .free
  region : ∀ g k p, (h.allocRegions g k).currentPage = some p →
    (h.allocRegions g k).offset < pageSizeCells →
      (h.descs p).generation = g ∧ (h.descs p).kind = k ∧ g ≠ .Free ∧
        ∀ x, p * pageSizeCells + (h.allocRegions g k).offset ≤ x → x < (p + 1) * pageSizeCells →
          owner x = .region g k
  object : ∀ x, Covered L h₀ x → owner x = .object
  blank : ∀ x, (owner x).Blank → h.startBits x = .none

/-- The books of a state. -/
structure Ledger (L : HeapLayout) (h₀ : PageHeap) (s : Allocators) (owner : Nat → Owner) :
    Prop where
  book : Book L h₀ s.heap owner
  tlab : ∀ m g k cursor stop, ((s.mutators m).tlabs g k).slab = some (cursor, stop) →
    cursor < stop → s.heap.genAt cursor = g ∧ s.heap.kindAt cursor = k ∧ g ≠ .Free ∧
      stop ≤ (cursor / pageSizeCells + 1) * pageSizeCells ∧
        ∀ x, cursor ≤ x → x < stop → owner x = .tlab m g k
  grant : ∀ j G, s.grants[j]? = some G → ∀ x, G.Has x → owner x = .grant j
  placed : ∀ G ∈ s.grants, G.kind ≠ .Large → G.generation ≠ .Free ∧
    G.cell % pageSizeCells + G.nCells ≤ pageSizeCells ∧
      s.heap.genAt G.cell = G.generation ∧ s.heap.kindAt G.cell = G.kind
  started : ∀ G ∈ s.grants, ∀ isCons, G.object = some isCons → G.Has G.cell ∧
    s.heap.startBits G.cell = startPairOf isCons ∧
      ∀ x, G.Has x → x ≠ G.cell → s.heap.startBits x = .none
  calls : ∀ m r, (s.mutators m).call = some r →
    r.generation ≠ .Free ∧ (r.kind = .Cons ∨ r.kind = .Boxed) ∧ 1 ≤ r.nCells ∧
      r.nCells ≤ pageSizeCells

/-- What a step leaves alone: buffers, objects and grants keep their cells, granted cells their
start bits, pages in use their generation and kind. -/
structure Frame (h : PageHeap) (owner : Nat → Owner) (h' : PageHeap) (owner' : Nat → Owner) :
    Prop where
  tlab : ∀ x m g k, owner x = .tlab m g k → owner' x = .tlab m g k
  grant : ∀ x j, owner x = .grant j → owner' x = .grant j
  start : ∀ x j, owner x = .grant j → h'.startBits x = h.startBits x
  page : ∀ p, (h.descs p).generation ≠ .Free →
    (h'.descs p).generation = (h.descs p).generation ∧ (h'.descs p).kind = (h.descs p).kind

namespace Ledger

variable {L : HeapLayout} {h₀ : PageHeap} {s : Allocators} {owner owner' : Nat → Owner}

/-- The books are sound: a cell has one owner. -/
theorem sound (hL : Ledger L h₀ s owner) : s.Sound L h₀ where
  disjoint := by
    intro i j G G' hi hj hne x hx hx'
    have h1 := hL.grant i G hi x hx
    rw [hL.grant j G' hj x hx'] at h1
    cases h1
    exact hne rfl
  fresh := by
    intro G hG x hx hcov
    obtain ⟨j, hj⟩ := List.mem_iff_getElem?.1 hG
    have h1 := hL.grant j G hj x hx
    rw [hL.book.object x hcov] at h1
    cases h1
  placed := fun G hG hk => (hL.placed G hG hk).2
  started := fun G hG isCons hobj => (hL.started G hG isCons hobj).2

/-- A step of the heap that respects the frame keeps the books. -/
theorem ofFrame (hL : Ledger L h₀ s owner) {h' : PageHeap} (hB : Book L h₀ h' owner')
    (hF : Frame s.heap owner h' owner') : Ledger L h₀ { s with heap := h' } owner' where
  book := hB
  tlab := by
    intro m g k cursor stop hslab hlt
    obtain ⟨hgen, hkind, hg, hstop, hown⟩ := hL.tlab m g k cursor stop hslab hlt
    have hlive : (s.heap.descs (cursor / pageSizeCells)).generation ≠ .Free := by
      show s.heap.genAt cursor ≠ .Free
      rw [hgen]
      exact hg
    obtain ⟨hgen', hkind'⟩ := hF.page _ hlive
    exact ⟨hgen'.trans hgen, hkind'.trans hkind, hg, hstop,
      fun x h1 h2 => hF.tlab x m g k (hown x h1 h2)⟩
  grant := fun j G hj x hx => hF.grant x j (hL.grant j G hj x hx)
  placed := by
    intro G hG hk
    obtain ⟨hg, hfits, hgen, hkind⟩ := hL.placed G hG hk
    have hlive : (s.heap.descs (G.cell / pageSizeCells)).generation ≠ .Free := by
      show s.heap.genAt G.cell ≠ .Free
      rw [hgen]
      exact hg
    obtain ⟨hgen', hkind'⟩ := hF.page _ hlive
    exact ⟨hg, hfits, hgen'.trans hgen, hkind'.trans hkind⟩
  started := by
    intro G hG isCons hobj
    obtain ⟨j, hj⟩ := List.mem_iff_getElem?.1 hG
    obtain ⟨hself, hpair, hrest⟩ := hL.started G hG isCons hobj
    refine ⟨hself, (hF.start _ j (hL.grant j G hj _ hself)).trans hpair, ?_⟩
    intro x hx hne
    exact (hF.start x j (hL.grant j G hj x hx)).trans (hrest x hx hne)
  calls := hL.calls

/-- One more grant. -/
theorem granted (hL : Ledger L h₀ s owner) {G : Grant}
    (hown : ∀ x, G.Has x → owner x = .grant s.grants.length)
    (hplaced : G.kind ≠ .Large → G.generation ≠ .Free ∧
      G.cell % pageSizeCells + G.nCells ≤ pageSizeCells ∧
        s.heap.genAt G.cell = G.generation ∧ s.heap.kindAt G.cell = G.kind)
    (hstarted : ∀ isCons, G.object = some isCons → G.Has G.cell ∧
      s.heap.startBits G.cell = startPairOf isCons ∧
        ∀ x, G.Has x → x ≠ G.cell → s.heap.startBits x = .none) :
    Ledger L h₀ { s with grants := s.grants ++ [G] } owner where
  book := hL.book
  tlab := hL.tlab
  grant := by
    intro j G' hj x hx
    by_cases hlt : j < s.grants.length
    · rw [List.getElem?_append_left hlt] at hj
      exact hL.grant j G' hj x hx
    · rw [List.getElem?_append_right (Nat.le_of_not_lt hlt)] at hj
      have hz : j - s.grants.length = 0 := by
        by_contra hpos
        rw [List.getElem?_eq_none (by simp; omega)] at hj
        cases hj
      rw [hz] at hj
      cases hj
      rw [hown x hx]
      congr 1
      omega
  placed := by
    intro G' hG'
    rcases List.mem_append.1 hG' with hold | hnew
    · exact hL.placed G' hold
    · rw [List.mem_singleton.1 hnew]
      exact hplaced
  started := by
    intro G' hG'
    rcases List.mem_append.1 hG' with hold | hnew
    · exact hL.started G' hold
    · rw [List.mem_singleton.1 hnew]
      exact hstarted
  calls := hL.calls

end Ledger

/-! ## Moving cells between owners -/

/-- A failed allocation moves nothing. -/
theorem Book.untouched {L : HeapLayout} {h₀ h h' : PageHeap} {owner : Nat → Owner}
    (hB : Book L h₀ h owner) (hU : Untouched h h') :
    Book L h₀ h' owner ∧ Frame h owner h' owner := by
  refine ⟨⟨?_, ?_, hB.object, ?_⟩, fun _ _ _ _ hx => hx, fun _ _ hx => hx, ?_, ?_⟩
  · intro x hx
    unfold genAt at hx
    rw [hU.descs] at hx
    exact hB.free x hx
  · rw [hU.allocRegions, hU.descs]
    exact hB.region
  · intro x hx
    rw [hU.startBits]
    exact hB.blank x hx
  · intro x _ _
    rw [hU.startBits]
  · intro q _
    rw [hU.descs]
    exact ⟨rfl, rfl⟩

namespace Book

variable {L : HeapLayout} {h₀ h h' : PageHeap} {owner : Nat → Owner}

/-- The next `n` cells of an open page go to a buffer or to a grant. -/
theorem take (hB : Book L h₀ h owner) (h' : PageHeap) {g : Generation} {k : PageKind} {p n lo : Nat}
    (o : Owner)
    (hp : (h.allocRegions g k).currentPage = some p) (hn : 1 ≤ n)
    (hroom : (h.allocRegions g k).offset + n ≤ pageSizeCells)
    (hlo : lo = p * pageSizeCells + (h.allocRegions g k).offset)
    (hdescs : ∀ q, (h'.descs q).generation = (h.descs q).generation ∧
      (h'.descs q).kind = (h.descs q).kind)
    (hregion : h'.allocRegions g k =
      { currentPage := some p, offset := (h.allocRegions g k).offset + n })
    (hregions : ∀ g' k', (g', k') ≠ (g, k) → h'.allocRegions g' k' = h.allocRegions g' k')
    (hstart : ∀ x, ¬ (lo ≤ x ∧ x < lo + n) → h'.startBits x = h.startBits x)
    (hblank : o.Blank → h'.startBits = h.startBits) :
    Book L h₀ h' (assign owner lo (lo + n) o) ∧ Frame h owner h' (assign owner lo (lo + n) o) := by
  obtain ⟨-, -, -, hrest⟩ := hB.region g k p hp (by omega)
  rw [← hlo] at hrest
  have hin : ∀ x, lo ≤ x ∧ x < lo + n → owner x = .region g k := by
    rintro x ⟨h1, h2⟩
    refine hrest x h1 ?_
    unfold pageSizeCells at *
    omega
  have hout : ∀ x, owner x ≠ .region g k → assign owner lo (lo + n) o x = owner x := by
    intro x hx
    exact assign_out fun hx' => hx (hin x hx')
  have hsame : ∀ x, owner x ≠ .region g k → h'.startBits x = h.startBits x := by
    intro x hx
    exact hstart x fun hx' => hx (hin x hx')
  refine ⟨⟨?_, ?_, ?_, ?_⟩, ?_, ?_, ?_, ?_⟩
  · intro x hx
    have hfree := hB.free x ((hdescs _).1.symm.trans hx)
    rw [hout x (by rw [hfree]; simp), hfree]
  · intro g' k' q hq hoff
    by_cases heq : (g', k') = (g, k)
    · cases heq
      rw [hregion] at hq hoff
      cases hq
      obtain ⟨hgen, hkind, hg, hown⟩ := hB.region g k p hp (by omega)
      refine ⟨(hdescs p).1.trans hgen, (hdescs p).2.trans hkind, hg, ?_⟩
      intro x h1 h2
      rw [hregion] at h1
      have hge : lo + n ≤ x := by
        dsimp only at h1
        omega
      rw [assign_out (by omega)]
      exact hrest x (by omega) h2
    · rw [hregions g' k' heq] at hq hoff
      obtain ⟨hgen, hkind, hg, hown⟩ := hB.region g' k' q hq hoff
      refine ⟨(hdescs q).1.trans hgen, (hdescs q).2.trans hkind, hg, ?_⟩
      intro x h1 h2
      rw [hregions g' k' heq] at h1
      have hx := hown x h1 h2
      rw [hout x ?_, hx]
      rw [hx]
      intro hcon
      cases hcon
      exact heq rfl
  · intro x hx
    have hobj := hB.object x hx
    rw [hout x (by rw [hobj]; simp), hobj]
  · intro x hx
    by_cases hx' : lo ≤ x ∧ x < lo + n
    · rw [assign_in hx'.1 hx'.2] at hx
      rw [hblank hx]
      exact hB.blank x (by rw [hin x hx']; trivial)
    · rw [assign_out hx'] at hx
      rw [hstart x hx']
      exact hB.blank x hx
  · intro x m g' k' hx
    rw [hout x (by rw [hx]; simp), hx]
  · intro x j hx
    rw [hout x (by rw [hx]; simp), hx]
  · intro x j hx
    exact hsame x (by rw [hx]; simp)
  · intro q _
    exact hdescs q

/-- A free page goes to a region. -/
theorem opened (hB : Book L h₀ h owner) {g : Generation} {k : PageKind} {p : Nat} (hg : g ≠ .Free)
    (hA : Acquired h h' g k p) :
    Book L h₀ (h'.setAllocRegion g k { currentPage := some p, offset := 0 })
        (assign owner (p * pageSizeCells) ((p + 1) * pageSizeCells) (.region g k)) ∧
      Frame h owner (h'.setAllocRegion g k { currentPage := some p, offset := 0 })
        (assign owner (p * pageSizeCells) ((p + 1) * pageSizeCells) (.region g k)) := by
  have hpage : ∀ x, p * pageSizeCells ≤ x ∧ x < (p + 1) * pageSizeCells ↔
      x / pageSizeCells = p := by
    intro x
    unfold pageSizeCells
    omega
  have hin : ∀ x, p * pageSizeCells ≤ x ∧ x < (p + 1) * pageSizeCells → owner x = .free := by
    intro x hx
    apply hB.free
    unfold genAt
    rw [(hpage x).1 hx]
    exact hA.free
  have hout : ∀ x, owner x ≠ .free →
      assign owner (p * pageSizeCells) ((p + 1) * pageSizeCells) (.region g k) x = owner x := by
    intro x hx
    exact assign_out fun hx' => hx (hin x hx')
  have hself : (h'.descs p).generation = g ∧ (h'.descs p).kind = k := by
    rw [hA.descs, Function.update_self]
    exact ⟨rfl, rfl⟩
  have hother : ∀ q, (h.descs q).generation ≠ .Free → h'.descs q = h.descs q := by
    intro q hq
    rw [hA.descs, Function.update_of_ne]
    rintro rfl
    exact hq hA.free
  refine ⟨⟨?_, ?_, ?_, ?_⟩, ?_, ?_, ?_, ?_⟩
  · intro x hx
    have hne : x / pageSizeCells ≠ p := by
      intro heq
      have hx' : (h'.descs (x / pageSizeCells)).generation = .Free := hx
      rw [heq, hself.1] at hx'
      exact hg hx'
    have hfree : h.genAt x = .Free := by
      have hx' : (h'.descs (x / pageSizeCells)).generation = .Free := hx
      rw [hA.descs, Function.update_of_ne hne] at hx'
      exact hx'
    rw [assign_out (by rw [hpage]; exact hne)]
    exact hB.free x hfree
  · intro g' k' q hq hoff
    by_cases heq : (g', k') = (g, k)
    · cases heq
      rw [setAllocRegion_self] at hq
      cases hq
      refine ⟨hself.1, hself.2, hg, ?_⟩
      intro x h1 h2
      rw [setAllocRegion_self, Nat.add_zero] at h1
      exact assign_in h1 h2
    · rw [setAllocRegion_other _ _ heq, hA.allocRegions] at hq hoff
      obtain ⟨hgen, hkind, hg', hown⟩ := hB.region g' k' q hq hoff
      have hlive : (h.descs q).generation ≠ .Free := by
        rw [hgen]
        exact hg'
      refine ⟨?_, ?_, hg', ?_⟩
      · show (h'.descs q).generation = g'
        rw [hother q hlive]
        exact hgen
      · show (h'.descs q).kind = k'
        rw [hother q hlive]
        exact hkind
      · intro x h1 h2
        rw [setAllocRegion_other _ _ heq, hA.allocRegions] at h1
        have hx := hown x h1 h2
        rw [hout x (by rw [hx]; simp), hx]
  · intro x hx
    have hobj := hB.object x hx
    rw [hout x (by rw [hobj]; simp), hobj]
  · intro x hx
    show h'.startBits x = .none
    by_cases hx' : x / pageSizeCells = p
    · exact hA.clear x hx'
    · rw [hA.start x hx']
      rw [assign_out (by rw [hpage]; exact hx')] at hx
      exact hB.blank x hx
  · intro x m g' k' hx
    rw [hout x (by rw [hx]; simp), hx]
  · intro x j hx
    rw [hout x (by rw [hx]; simp), hx]
  · intro x j hx
    refine hA.start x fun hx' => ?_
    rw [hin x ((hpage x).2 hx')] at hx
    cases hx
  · intro q hq
    show (h'.descs q).generation = _ ∧ (h'.descs q).kind = _
    rw [hother q hq]
    exact ⟨rfl, rfl⟩

/-- Free pages become pages of a large run; their cells are nobody's yet. -/
theorem stamped (hB : Book L h₀ h owner) {g : Generation} {start n : Nat} {l : List Nat}
    (hg : g ≠ .Free) (hS : Stamped g start n l h h')
    (hfree : ∀ p, InRun start l p → (h.descs p).generation = .Free) :
    Book L h₀ h' owner ∧ Frame h owner h' owner := by
  have hother : ∀ q, (h.descs q).generation ≠ .Free → h'.descs q = h.descs q := by
    intro q hq
    rw [hS.descs, if_neg fun hin => hq (hfree q hin)]
  have hsame : ∀ x, owner x ≠ .free → h'.startBits x = h.startBits x := by
    intro x hx
    rw [hS.startBits, if_neg]
    intro hin
    exact hx (hB.free x (hfree _ hin))
  refine ⟨⟨?_, ?_, hB.object, ?_⟩, fun _ _ _ _ hx => hx, fun _ _ hx => hx, ?_, ?_⟩
  · intro x hx
    apply hB.free
    have hx' : (h'.descs (x / pageSizeCells)).generation = .Free := hx
    rw [hS.descs] at hx'
    split at hx'
    · exact absurd hx' hg
    · exact hx'
  · intro g' k' q hq hoff
    rw [hS.allocRegions] at hq hoff
    obtain ⟨hgen, hkind, hg', hown⟩ := hB.region g' k' q hq hoff
    have hlive : (h.descs q).generation ≠ .Free := by
      rw [hgen]
      exact hg'
    rw [hother q hlive, hS.allocRegions]
    exact ⟨hgen, hkind, hg', hown⟩
  · intro x hx
    rw [hsame x ?_]
    · exact hB.blank x hx
    · intro hfree
      rw [hfree] at hx
      exact hx
  · intro x j hx
    exact hsame x (by rw [hx]; simp)
  · intro q hq
    rw [hother q hq]
    exact ⟨rfl, rfl⟩

/-- Cells on pages in use that belong to nobody become a grant. -/
theorem claim (hB : Book L h₀ h owner) (h' : PageHeap) (lo hi j : Nat)
    (hin : ∀ x, lo ≤ x ∧ x < hi → h.genAt x ≠ .Free ∧ owner x = .free)
    (hdescs : h'.descs = h.descs) (hregions : h'.allocRegions = h.allocRegions)
    (hstart : ∀ x, ¬ (lo ≤ x ∧ x < hi) → h'.startBits x = h.startBits x) :
    Book L h₀ h' (assign owner lo hi (.grant j)) ∧ Frame h owner h' (assign owner lo hi (.grant j)) := by
  have hout : ∀ x, owner x ≠ .free → ¬ (lo ≤ x ∧ x < hi) := fun x hx hx' => hx (hin x hx').2
  refine ⟨⟨?_, ?_, ?_, ?_⟩, ?_, ?_, ?_, ?_⟩
  · intro x hx
    unfold genAt at hx
    rw [hdescs] at hx
    rw [assign_out fun hx' => (hin x hx').1 hx]
    exact hB.free x hx
  · intro g k p hp hoff
    rw [hregions] at hp hoff
    obtain ⟨hgen, hkind, hg, hown⟩ := hB.region g k p hp hoff
    rw [hdescs, hregions]
    refine ⟨hgen, hkind, hg, ?_⟩
    intro x h1 h2
    have hx := hown x h1 h2
    rw [assign_out (hout x (by rw [hx]; simp)), hx]
  · intro x hx
    have hobj := hB.object x hx
    rw [assign_out (hout x (by rw [hobj]; simp)), hobj]
  · intro x hx
    by_cases hx' : lo ≤ x ∧ x < hi
    · rw [assign_in hx'.1 hx'.2] at hx
      exact hx.elim
    · rw [assign_out hx'] at hx
      rw [hstart x hx']
      exact hB.blank x hx
  · intro x m g k hx
    rw [assign_out (hout x (by rw [hx]; simp)), hx]
  · intro x i hx
    rw [assign_out (hout x (by rw [hx]; simp)), hx]
  · intro x i hx
    exact hstart x (hout x (by rw [hx]; simp))
  · intro q _
    rw [hdescs]
    exact ⟨rfl, rfl⟩

/-- A buffer gives cells up. -/
theorem surrender (hB : Book L h₀ h owner) {lo hi m : Nat} {g : Generation} {k : PageKind}
    (hin : ∀ x, lo ≤ x ∧ x < hi → owner x = .tlab m g k) : Book L h₀ h (assign owner lo hi .free) where
  free := by
    intro x hx
    unfold assign
    split
    · rfl
    · exact hB.free x hx
  region := by
    intro g' k' p hp hoff
    obtain ⟨hgen, hkind, hg, hown⟩ := hB.region g' k' p hp hoff
    refine ⟨hgen, hkind, hg, ?_⟩
    intro x h1 h2
    have hx := hown x h1 h2
    rw [assign_out ?_, hx]
    intro hx'
    rw [hin x hx'] at hx
    cases hx
  object := by
    intro x hx
    have hobj := hB.object x hx
    rw [assign_out ?_, hobj]
    intro hx'
    rw [hin x hx'] at hobj
    cases hobj
  blank := by
    intro x hx
    by_cases hx' : lo ≤ x ∧ x < hi
    · rw [assign_in hx'.1 hx'.2] at hx
      exact hx.elim
    · rw [assign_out hx'] at hx
      exact hB.blank x hx

end Book

/-! ## The steps keep the books -/

theorem advanceRegion_role (h : PageHeap) (g : Generation) (k : PageKind) (p off n q : Nat) :
    ((advanceRegion h g k p off n).descs q).generation = (h.descs q).generation ∧
      ((advanceRegion h g k p off n).descs q).kind = (h.descs q).kind := by
  by_cases hq : q = p
  · subst hq
    simp [advanceRegion, modifyDesc, setDesc, setAllocRegion]
  · simp [advanceRegion, modifyDesc, setDesc, setAllocRegion, hq]

/-- The start pair a blank cell gets. -/
theorem markStart_self {h : PageHeap} {cell : Nat} (isCons : Bool)
    (hblank : h.startBits cell = .none) :
    (markStart h cell isCons).startBits cell = startPairOf isCons := by
  cases isCons with
  | true => simp [markStart, setConsStartBitAt, startPairOf]
  | false => simp [markStart, setStartBitAt, startPairOf, hblank, StartPair.orHeader]

theorem markStart_other {h : PageHeap} {cell x : Nat} (isCons : Bool) (hx : x ≠ cell) :
    (markStart h cell isCons).startBits x = h.startBits x := by
  cases isCons with
  | true => simp [markStart, setConsStartBitAt, hx]
  | false => simp [markStart, setStartBitAt, hx]

theorem markStart_frame (h : PageHeap) (cell : Nat) (isCons : Bool) :
    (markStart h cell isCons).descs = h.descs ∧
      (markStart h cell isCons).allocRegions = h.allocRegions := by
  cases isCons with
  | true => exact ⟨rfl, rfl⟩
  | false => exact ⟨rfl, rfl⟩

namespace Ledger

variable {L : HeapLayout} {h₀ : PageHeap} {s : Allocators} {owner : Nat → Owner}
  {g : Generation} {k : PageKind}

theorem untouched (hL : Ledger L h₀ s owner) {h' : PageHeap} (hU : Untouched s.heap h') :
    Ledger L h₀ { s with heap := h' } owner :=
  hL.ofFrame (hL.book.untouched hU).1 (hL.book.untouched hU).2

/-- The first cell of a region's free range. -/
theorem open_cell {p off n : Nat} (hroom : off + n ≤ pageSizeCells) (hn : 1 ≤ n) :
    (p * pageSizeCells + off) / pageSizeCells = p ∧ (p * pageSizeCells + off) % pageSizeCells = off := by
  unfold pageSizeCells at *
  omega

/-- A bump in the open page of a region grants its next cells; `object` says whether it also sets
a start bit. -/
theorem bumpRegion (hL : Ledger L h₀ s owner) {p n : Nat} (object : Option Bool)
    {h' : PageHeap} (hp : (s.heap.allocRegions g k).currentPage = some p) (hn : 1 ≤ n)
    (hroom : (s.heap.allocRegions g k).offset + n ≤ pageSizeCells)
    (hdescs : h'.descs = (advanceRegion s.heap g k p (s.heap.allocRegions g k).offset n).descs)
    (hregions : h'.allocRegions =
      (advanceRegion s.heap g k p (s.heap.allocRegions g k).offset n).allocRegions)
    (hstart : h'.startBits = match object with
      | some isCons => (markStart s.heap (p * pageSizeCells + (s.heap.allocRegions g k).offset)
          isCons).startBits
      | none => s.heap.startBits) :
    ∃ owner', Ledger L h₀ (s.record g k n object
      (some (p * pageSizeCells + (s.heap.allocRegions g k).offset), h')) owner' := by
  obtain ⟨hgen, hkind, hg, hrest⟩ := hL.book.region g k p hp (by omega)
  obtain ⟨hdiv, hmod⟩ := open_cell (p := p) hroom hn
  generalize hcell : p * pageSizeCells + (s.heap.allocRegions g k).offset = cell at hdiv hmod hstart ⊢
  have hsame : ∀ x, x ≠ cell → h'.startBits x = s.heap.startBits x := by
    intro x hx
    rw [hstart]
    cases object with
    | none => rfl
    | some isCons => exact markStart_other isCons hx
  have hclear : ∀ x, cell ≤ x → x < cell + n → s.heap.startBits x = .none := by
    intro x h1 h2
    apply hL.book.blank
    rw [hrest x (by omega) (by unfold pageSizeCells at *; omega)]
    trivial
  obtain ⟨hB, hF⟩ := hL.book.take h' (.grant s.grants.length) hp hn hroom hcell.symm
    (by
      intro q
      rw [hdescs]
      exact advanceRegion_role _ _ _ _ _ _ q)
    (by
      rw [hregions]
      exact setAllocRegion_self _ _ _ _)
    (by
      intro g' k' hne
      rw [hregions]
      exact setAllocRegion_other _ _ hne)
    (by
      intro x hx
      exact hsame x (by omega))
    (fun hblank => hblank.elim)
  have hrole := advanceRegion_role s.heap g k p (s.heap.allocRegions g k).offset n
    (cell / pageSizeCells)
  refine ⟨_, (hL.ofFrame hB hF).granted ?_ ?_ ?_⟩
  · intro x hx
    exact assign_in hx.1 hx.2
  · intro _
    refine ⟨hg, ?_, ?_, ?_⟩
    · dsimp only
      rw [hmod]
      exact hroom
    · show (h'.descs (cell / pageSizeCells)).generation = g
      rw [hdescs, hrole.1, hdiv]
      exact hgen
    · show (h'.descs (cell / pageSizeCells)).kind = k
      rw [hdescs, hrole.2, hdiv]
      exact hkind
  · intro isCons hobj
    dsimp only at hobj
    subst hobj
    refine ⟨⟨le_rfl, by dsimp only; omega⟩, ?_, ?_⟩
    · show h'.startBits cell = _
      rw [hstart]
      exact markStart_self isCons (hclear cell le_rfl (by omega))
    · intro x hx hne
      show h'.startBits x = .none
      rw [hsame x hne]
      exact hclear x hx.1 hx.2

/-- A fresh page for a region. -/
theorem opened (hL : Ledger L h₀ s owner) (hg : g ≠ .Free) {p : Nat} {h' : PageHeap}
    (hacq : s.heap.acquireFreePage g k = (some p, h')) :
    ∃ owner', Ledger L h₀
      { s with heap := h'.setAllocRegion g k { currentPage := some p, offset := 0 } } owner' := by
  obtain ⟨hB, hF⟩ := hL.book.opened hg (acquireFreePage_some hacq)
  exact ⟨_, hL.ofFrame hB hF⟩

theorem tryBump (hL : Ledger L h₀ s owner) {n cell : Nat} {isCons : Bool} {h' : PageHeap}
    (hn : 1 ≤ n) (hbump : s.heap.tryBumpInCurrent g k n isCons = some (cell, h')) :
    ∃ owner', Ledger L h₀ (s.record g k n (some isCons) (some cell, h')) owner' := by
  rw [tryBumpInCurrent_eq] at hbump
  cases hp : (s.heap.allocRegions g k).currentPage with
  | none => simp [hp] at hbump
  | some p =>
      rw [hp, Option.bind_some] at hbump
      split at hbump
      · cases hbump
      · rename_i hroom
        cases isCons with
        | true =>
            cases hbump
            exact hL.bumpRegion (some true) hp hn (Nat.le_of_not_lt hroom) rfl rfl rfl
        | false =>
            cases hbump
            exact hL.bumpRegion (some false) hp hn (Nat.le_of_not_lt hroom) rfl rfl rfl

/-- A central small allocation. -/
theorem allocInRegion (hL : Ledger L h₀ s owner) (hg : g ≠ .Free) {n : Nat} {isCons : Bool}
    (hn : 1 ≤ n) (hfits : n ≤ pageSizeCells) :
    ∃ owner', Ledger L h₀
      (s.record g k n (some isCons) (s.heap.tryAllocInRegion g k n isCons)) owner' := by
  cases halloc : s.heap.tryAllocInRegion g k n isCons with
  | mk r h' =>
      cases r with
      | none => exact ⟨owner, hL.untouched (tryAllocInRegion_none hfits halloc)⟩
      | some cell =>
          unfold tryAllocInRegion at halloc
          split at halloc
          · cases halloc
          · split at halloc
            · rename_i c h₁ hbump
              cases halloc
              exact hL.tryBump hn hbump
            · split at halloc
              · cases halloc
              · split at halloc
                · cases halloc
                · rename_i p h₁ hacq
                  obtain ⟨owner₁, hL₁⟩ := hL.opened hg hacq
                  dsimp only at halloc
                  split at halloc
                  · rename_i c h₂ hbump
                    cases halloc
                    exact hL₁.tryBump hn hbump
                  · cases halloc

/-- A bump that sets no start bit grants a raw slab. -/
theorem bumpMixed (hL : Ledger L h₀ s owner) {cells cell : Nat} {h' : PageHeap} (hn : 1 ≤ cells)
    (hbump : s.heap.tryBumpG0Mixed cells = some (cell, h')) :
    ∃ owner', Ledger L h₀ (s.record .G0 .Boxed cells none (some cell, h')) owner' := by
  unfold tryBumpG0Mixed at hbump
  cases hp : (s.heap.allocRegions .G0 .Boxed).currentPage with
  | none => simp [hp] at hbump
  | some p =>
      simp only [hp] at hbump
      split at hbump
      · cases hbump
      · rename_i hroom
        cases hbump
        exact hL.bumpRegion none hp hn (Nat.le_of_not_lt hroom) rfl rfl rfl

/-- The slab allocator. -/
theorem allocSlab (hL : Ledger L h₀ s owner) {cells : Nat} {r : Option (Nat × Nat)} {h' : PageHeap}
    (halloc : s.heap.tryAllocG0Slab cells = (r, h')) :
    (r = none → ∃ owner', Ledger L h₀ { s with heap := h' } owner') ∧
      ∀ slab, r = some slab →
        ∃ owner', Ledger L h₀ (s.record .G0 .Boxed slab.2 none (some slab.1, h')) owner' := by
  unfold tryAllocG0Slab at halloc
  split at halloc
  · cases halloc
    exact ⟨fun _ => ⟨owner, hL⟩, by intro slab hslab; cases hslab⟩
  · rename_i hcells
    have hpos : 1 ≤ min cells pageSizeCells := by
      unfold pageSizeCells
      omega
    have hfits : min cells pageSizeCells ≤ pageSizeCells := min_le_right _ _
    have hslab : ∀ {r' : Option Nat} {h₁ : PageHeap}, s.heap.tryAllocG0ConsSlab cells = (r', h₁) →
        ∃ owner', Ledger L h₀ (s.record .G0 .Boxed (min cells pageSizeCells) none (r', h₁))
          owner' := by
      intro r' h₁ hs
      unfold tryAllocG0ConsSlab at hs
      dsimp only at hs
      split at hs
      · rename_i cell h₂ hbump
        cases hs
        exact hL.bumpMixed hpos hbump
      · split at hs
        · cases hs
          exact ⟨owner, hL⟩
        · split at hs
          · cases hs
            exact ⟨owner, hL⟩
          · split at hs
            · rename_i h₂ hacq
              cases hs
              exact ⟨owner, hL.untouched (acquireFreePage_none hacq)⟩
            · rename_i p h₂ hacq
              obtain ⟨owner₁, hL₁⟩ := hL.opened (by simp) hacq
              split at hs
              · rename_i cell h₃ hbump
                cases hs
                exact hL₁.bumpMixed hpos hbump
              · cases hs
                exact ⟨owner₁, hL₁⟩
    split at halloc
    · rename_i cell h₁ hs
      cases halloc
      exact ⟨(by intro hr; cases hr), by intro slab hr; cases hr; exact hslab hs⟩
    · rename_i h₁ hs
      cases halloc
      exact ⟨fun _ => hslab hs, by intro slab hr; cases hr⟩

/-- An object is placed on cells that belong to nobody. -/
theorem grantNobody (hL : Ledger L h₀ s owner) {G : Grant} (isCons : Bool) (h' : PageHeap)
    (hobj : G.object = some isCons) (hn : 1 ≤ G.nCells)
    (hin : ∀ x, G.Has x → s.heap.genAt x ≠ .Free ∧ owner x = .free ∧ s.heap.startBits x = .none)
    (hplaced : G.kind ≠ .Large → G.generation ≠ .Free ∧
      G.cell % pageSizeCells + G.nCells ≤ pageSizeCells ∧
        s.heap.genAt G.cell = G.generation ∧ s.heap.kindAt G.cell = G.kind)
    (hdescs : h'.descs = s.heap.descs) (hregions : h'.allocRegions = s.heap.allocRegions)
    (hstart : h'.startBits = (markStart s.heap G.cell isCons).startBits) :
    ∃ owner', Ledger L h₀ { s with heap := h', grants := s.grants ++ [G] } owner' := by
  have hself : G.Has G.cell := ⟨le_rfl, by omega⟩
  obtain ⟨hB, hF⟩ := hL.book.claim h' G.cell (G.cell + G.nCells) s.grants.length
    (fun x hx => ⟨(hin x hx).1, (hin x hx).2.1⟩) hdescs hregions
    (by
      intro x hx
      rw [hstart]
      refine markStart_other isCons ?_
      rintro rfl
      exact hx hself)
  refine ⟨_, (hL.ofFrame hB hF).granted ?_ ?_ ?_⟩
  · intro x hx
    exact assign_in hx.1 hx.2
  · intro hk
    obtain ⟨hg, hfits, hgen, hkind⟩ := hplaced hk
    unfold genAt at hgen ⊢
    unfold kindAt at hkind ⊢
    dsimp only
    rw [hdescs]
    exact ⟨hg, hfits, hgen, hkind⟩
  · intro b hb
    rw [hobj] at hb
    cases hb
    refine ⟨hself, ?_, ?_⟩
    · show h'.startBits G.cell = _
      rw [hstart]
      exact markStart_self isCons (hin _ hself).2.2
    · intro x hx hne
      show h'.startBits x = .none
      rw [hstart, markStart_other isCons hne]
      exact (hin x hx).2.2

/-- A large run: its pages were free, its cells were nobody's. -/
theorem allocLarge (hL : Ledger L h₀ s owner) (hg : g ≠ .Free) {n : Nat} (hn : 1 ≤ n) :
    ∃ owner', Ledger L h₀ (s.record g .Large n (some false) (s.heap.tryAllocLarge n g)) owner' := by
  unfold tryAllocLarge
  split
  · exact ⟨owner, hL⟩
  · dsimp only
    split
    · exact ⟨owner, hL⟩
    · generalize hpages : (n + (pageSizeCells - 1)) / pageSizeCells = nPages
      have hpos : 1 ≤ nPages ∧ n ≤ nPages * pageSizeCells := by
        unfold pageSizeCells at *
        omega
      cases hfind : s.heap.findContiguousFreePages nPages with
      | none => exact ⟨owner, hL⟩
      | some start =>
          obtain ⟨-, hfree⟩ := findContiguousFreePages_free hpos.1 hfind
          dsimp only
          cases hst : stampLargePages g start nPages (List.range nPages)
              { s.heap with pagesHighWater := max s.heap.pagesHighWater (start + nPages) } with
          | mk b h₂ =>
              obtain ⟨l', hpre, hS, hall⟩ := stampLargePages_stamped _ _ hst
              have hraised : Untouched s.heap
                  { s.heap with pagesHighWater := max s.heap.pagesHighWater (start + nPages) } :=
                ⟨⟨rfl, rfl, rfl, rfl, rfl, rfl, rfl⟩, rfl, rfl, rfl, rfl, rfl, rfl⟩
              have hL₁ := hL.untouched hraised
              have hin : ∀ p, InRun start l' p → (s.heap.descs p).generation = .Free := by
                intro p hp
                have := List.mem_range.1 (hpre.subset hp.2)
                exact hfree p hp.1 (by have := hp.1; omega)
              obtain ⟨hB, hF⟩ := hL₁.book.stamped hg hS hin
              have hL₂ := hL₁.ofFrame hB hF
              cases b with
              | false => exact ⟨owner, hL₂⟩
              | true =>
                  have hl' := hall rfl
                  subst hl'
                  have hrun : ∀ x, start * pageSizeCells ≤ x ∧ x < start * pageSizeCells + n →
                      InRun start (List.range nPages) (x / pageSizeCells) := by
                    intro x hx
                    refine ⟨?_, List.mem_range.2 ?_⟩
                    · unfold pageSizeCells at *
                      omega
                    · unfold pageSizeCells at *
                      omega
                  refine hL₂.grantNobody false
                    (countBytes (h₂.setStartBitAt (start * pageSizeCells)) n) rfl hn ?_
                    (fun hk => absurd rfl hk) rfl rfl rfl
                  intro x hx
                  refine ⟨?_, hL.book.free x (hin _ (hrun x hx)), ?_⟩
                  · show (h₂.descs (x / pageSizeCells)).generation ≠ .Free
                    rw [hS.descs, if_pos (hrun x hx)]
                    exact hg
                  · show h₂.startBits x = .none
                    rw [hS.startBits, if_pos (hrun x hx)]

/-! ### Mutators -/

theorem setTlab_self (u : Mutator) (g : Generation) (k : PageKind) (t : TlabBuffer) :
    (u.setTlab g k t).tlabs g k = t := by
  simp [Mutator.setTlab]

theorem setTlab_other (u : Mutator) {g g' : Generation} {k k' : PageKind} (t : TlabBuffer)
    (hne : (g', k') ≠ (g, k)) : (u.setTlab g k t).tlabs g' k' = u.tlabs g' k' := by
  unfold Mutator.setTlab
  by_cases hg : g' = g
  · subst hg
    have hk : k' ≠ k := by
      rintro rfl
      exact hne rfl
    simp [hk]
  · simp [hg]

/-- Mutator `m` becomes `u`: its buffers are as before but for one, which must be in the books. -/
theorem setMutator (hL : Ledger L h₀ s owner) {m : Nat} {u : Mutator}
    (htlab : ∀ g k cursor stop, (u.tlabs g k).slab = some (cursor, stop) → cursor < stop →
      u.tlabs g k = (s.mutators m).tlabs g k ∨
        (s.heap.genAt cursor = g ∧ s.heap.kindAt cursor = k ∧ g ≠ .Free ∧
          stop ≤ (cursor / pageSizeCells + 1) * pageSizeCells ∧
            ∀ x, cursor ≤ x → x < stop → owner x = .tlab m g k))
    (hcall : ∀ r, u.call = some r → r.generation ≠ .Free ∧ (r.kind = .Cons ∨ r.kind = .Boxed) ∧
      1 ≤ r.nCells ∧ r.nCells ≤ pageSizeCells) :
    Ledger L h₀ (s.setMutator m u) owner where
  book := hL.book
  tlab := by
    intro m' g k cursor stop hslab hlt
    by_cases hm : m' = m
    · subst hm
      simp only [Allocators.setMutator, Function.update_self] at hslab
      rcases htlab g k cursor stop hslab hlt with hold | hnew
      · rw [hold] at hslab
        exact hL.tlab m' g k cursor stop hslab hlt
      · exact hnew
    · simp only [Allocators.setMutator, Function.update_of_ne hm] at hslab
      exact hL.tlab m' g k cursor stop hslab hlt
  grant := hL.grant
  placed := hL.placed
  started := hL.started
  calls := by
    intro m' r hr
    by_cases hm : m' = m
    · subst hm
      simp only [Allocators.setMutator, Function.update_self] at hr
      exact hcall r hr
    · simp only [Allocators.setMutator, Function.update_of_ne hm] at hr
      exact hL.calls m' r hr

/-- A slab carved from a region goes to a buffer. -/
theorem carve (hL : Ledger L h₀ s owner) (m : Nat) {want : Nat} {slab : Nat × Nat} {h' : PageHeap}
    (hwant : 1 ≤ want) (hcarve : s.heap.carveTlabInCurrent g k want = some (slab, h')) :
    ∃ owner', Ledger L h₀ { s with heap := h' } owner' ∧ h'.genAt slab.1 = g ∧
      h'.kindAt slab.1 = k ∧ g ≠ .Free ∧
        slab.1 + slab.2 ≤ (slab.1 / pageSizeCells + 1) * pageSizeCells ∧
          ∀ x, slab.1 ≤ x → x < slab.1 + slab.2 → owner' x = .tlab m g k := by
  unfold carveTlabInCurrent at hcarve
  cases hp : (s.heap.allocRegions g k).currentPage with
  | none => simp [hp] at hcarve
  | some p =>
      simp only [hp] at hcarve
      split at hcarve
      · cases hcarve
      · rename_i havail
        have hpos : 1 ≤ min want (pageSizeCells - (s.heap.allocRegions g k).offset) := by omega
        have hroom : (s.heap.allocRegions g k).offset +
            min want (pageSizeCells - (s.heap.allocRegions g k).offset) ≤ pageSizeCells := by omega
        obtain ⟨hgen, hkind, hg, -⟩ := hL.book.region g k p hp (by omega)
        obtain ⟨hdiv, hmod⟩ := open_cell (p := p) hroom hpos
        generalize hlen : min want (pageSizeCells - (s.heap.allocRegions g k).offset) = n at *
        cases hcarve
        obtain ⟨hB, hF⟩ := hL.book.take
          (advanceRegion s.heap g k p (s.heap.allocRegions g k).offset n) (.tlab m g k) hp hpos hroom rfl
          (advanceRegion_role _ _ _ _ _ _) (setAllocRegion_self _ _ _ _)
          (fun g' k' hne => setAllocRegion_other _ _ hne) (fun _ _ => rfl) (fun _ => rfl)
        have hrole := advanceRegion_role s.heap g k p (s.heap.allocRegions g k).offset n p
        refine ⟨_, hL.ofFrame hB hF, ?_, ?_, hg, ?_, ?_⟩
        · show ((advanceRegion s.heap g k p (s.heap.allocRegions g k).offset n).descs
            ((p * pageSizeCells + (s.heap.allocRegions g k).offset) / pageSizeCells)).generation = g
          rw [hdiv, hrole.1]
          exact hgen
        · show ((advanceRegion s.heap g k p (s.heap.allocRegions g k).offset n).descs
            ((p * pageSizeCells + (s.heap.allocRegions g k).offset) / pageSizeCells)).kind = k
          rw [hdiv, hrole.2]
          exact hkind
        · dsimp only
          rw [hdiv]
          unfold pageSizeCells at *
          omega
        · intro x h1 h2
          exact assign_in h1 h2

/-- A refill: a slab for a buffer, or nothing. -/
theorem reserve (hL : Ledger L h₀ s owner) (hg : g ≠ .Free) (m : Nat) {minCells want : Nat}
    {r : Option (Nat × Nat)} {h' : PageHeap}
    (hres : s.heap.reserveTlab g k minCells want = (r, h')) :
    ∃ owner', Ledger L h₀ { s with heap := h' } owner' ∧ ∀ slab, r = some slab →
      h'.genAt slab.1 = g ∧ h'.kindAt slab.1 = k ∧ g ≠ .Free ∧
        slab.1 + slab.2 ≤ (slab.1 / pageSizeCells + 1) * pageSizeCells ∧
          ∀ x, slab.1 ≤ x → x < slab.1 + slab.2 → owner' x = .tlab m g k := by
  have hwant : 1 ≤ max (max minCells 1) (Nat.min want pageSizeCells) := by omega
  unfold reserveTlab at hres
  split at hres
  · cases hres
    exact ⟨owner, hL, by intro slab hslab; cases hslab⟩
  · dsimp only at hres
    split at hres
    · split at hres
      · rename_i slab h₁ hcarve
        cases hres
        obtain ⟨owner', hL', hslab⟩ := hL.carve m hwant hcarve
        exact ⟨owner', hL', by intro slab' heq; cases heq; exact hslab⟩
      · cases hres
        exact ⟨owner, hL, by intro slab hslab; cases hslab⟩
    · split at hres
      · cases hres
        exact ⟨owner, hL, by intro slab hslab; cases hslab⟩
      · split at hres
        · rename_i h₁ hacq
          cases hres
          exact ⟨owner, hL.untouched (acquireFreePage_none hacq), by intro slab hslab; cases hslab⟩
        · rename_i p h₁ hacq
          obtain ⟨owner₁, hL₁⟩ := hL.opened hg hacq
          split at hres
          · rename_i slab h₂ hcarve
            cases hres
            obtain ⟨owner', hL', hslab⟩ := hL₁.carve m hwant hcarve
            exact ⟨owner', hL', by intro slab' heq; cases heq; exact hslab⟩
          · cases hres
            exact ⟨owner₁, hL₁, by intro slab hslab; cases hslab⟩

/-- What the fast path does to a buffer. -/
theorem bump_some {t t' : TlabBuffer} {n cell : Nat} (hbump : t.bump n = some (cell, t')) :
    ∃ stop, t.slab = some (cell, stop) ∧ n ≤ stop - cell ∧
      t' = { t with slab := some (cell + n, stop) } := by
  unfold TlabBuffer.bump at hbump
  cases hslab : t.slab with
  | none => simp [hslab] at hbump
  | some range =>
      rw [hslab] at hbump
      dsimp only at hbump
      split at hbump
      · rename_i hroom
        cases hbump
        exact ⟨range.2, rfl, hroom, rfl⟩
      · cases hbump

/-- The fast path: the buffer gives up cells, then they are granted. -/
theorem bumpBuffer (hL : Ledger L h₀ s owner) {m cell n : Nat} {t : TlabBuffer} {isCons : Bool}
    (hn : 1 ≤ n) (hbump : ((s.mutators m).tlabs g k).bump n = some (cell, t)) :
    ∃ owner', Ledger L h₀ ((s.setMutator m { (s.mutators m).setTlab g k t with call := none }).record
      g k n (some isCons) (some cell, markStart s.heap cell isCons)) owner' := by
  obtain ⟨stop, hslab, hroom, rfl⟩ := bump_some hbump
  obtain ⟨hgen, hkind, hg, hstop, hown⟩ := hL.tlab m g k cell stop hslab (by omega)
  have hpage : ∀ x, cell ≤ x → x < stop → x / pageSizeCells = cell / pageSizeCells := by
    intro x h1 h2
    unfold pageSizeCells at *
    omega
  have hin : ∀ x, cell ≤ x ∧ x < cell + n → owner x = .tlab m g k :=
    fun x hx => hown x hx.1 (by omega)
  have hclear : ∀ x, cell ≤ x ∧ x < cell + n → s.heap.startBits x = .none := by
    intro x hx
    apply hL.book.blank
    rw [hin x hx]
    trivial
  have hkeep : ∀ x, (∀ m' g' k', owner x = .tlab m' g' k' → (m', g', k') ≠ (m, g, k)) →
      assign owner cell (cell + n) .free x = owner x := by
    intro x hx
    refine assign_out fun hx' => ?_
    exact hx m g k (hin x hx') rfl
  have hL₁ : Ledger L h₀ (s.setMutator m { (s.mutators m).setTlab g k
      { (s.mutators m).tlabs g k with slab := some (cell + n, stop) } with call := none })
      (assign owner cell (cell + n) .free) := by
    refine ⟨hL.book.surrender hin, ?_, ?_, hL.placed, hL.started, ?_⟩
    · intro m' g' k' c st hs hlt
      by_cases heq : (m', g', k') = (m, g, k)
      · -- what is left of the buffer
        cases heq
        simp only [Allocators.setMutator, Function.update_self, setTlab_self] at hs
        cases hs
        have hpg := hpage (cell + n) (by omega) hlt
        refine ⟨?_, ?_, hg, by rw [hpg]; exact hstop, ?_⟩
        · unfold genAt at hgen ⊢
          rw [hpg]
          exact hgen
        · unfold kindAt at hkind ⊢
          rw [hpg]
          exact hkind
        · intro x h1 h2
          rw [assign_out (by omega)]
          exact hown x (by omega) h2
      · have hold : ((s.mutators m').tlabs g' k').slab = some (c, st) := by
          by_cases hm : m' = m
          · subst hm
            have hgk : (g', k') ≠ (g, k) := by
              rintro hcon
              cases hcon
              exact heq rfl
            simp only [Allocators.setMutator, Function.update_self] at hs
            rw [← hs]
            exact congrArg TlabBuffer.slab (setTlab_other (s.mutators m') _ hgk).symm
          · simpa only [Allocators.setMutator, Function.update_of_ne hm] using hs
        obtain ⟨hgen', hkind', hg', hstop', hown'⟩ := hL.tlab m' g' k' c st hold hlt
        refine ⟨hgen', hkind', hg', hstop', ?_⟩
        intro x h1 h2
        have hx := hown' x h1 h2
        rw [hkeep x ?_, hx]
        intro m₁ g₁ k₁ hx₁
        rw [hx] at hx₁
        cases hx₁
        exact heq
    · intro j G hj x hx
      have hgrant := hL.grant j G hj x hx
      rw [hkeep x (by rw [hgrant]; simp), hgrant]
    · intro m' r hr
      by_cases hm : m' = m
      · subst hm
        simp [Allocators.setMutator] at hr
      · simp only [Allocators.setMutator, Function.update_of_ne hm] at hr
        exact hL.calls m' r hr
  obtain ⟨hdescs, hregions⟩ := markStart_frame s.heap cell isCons
  refine hL₁.grantNobody isCons (markStart s.heap cell isCons) rfl hn ?_ ?_ hdescs hregions rfl
  · intro x hx
    refine ⟨?_, assign_in hx.1 hx.2, hclear x hx⟩
    show s.heap.genAt x ≠ .Free
    unfold genAt at hgen ⊢
    rw [hpage x hx.1 (by have := hx.2; dsimp only at this; omega), hgen]
    exact hg
  · intro _
    refine ⟨hg, ?_, hgen, hkind⟩
    dsimp only
    unfold pageSizeCells at *
    omega

/-- One round of a mutator's call. -/
theorem round (hL : Ledger L h₀ s owner) {m : Nat} {r : Request}
    (hr : (s.mutators m).call = some r) : ∃ owner', Ledger L h₀ (s.round m r) owner' := by
  obtain ⟨hg, hk, hn, hfits⟩ := hL.calls m r hr
  unfold Allocators.round
  dsimp only
  split
  · rename_i cell t hbump
    exact hL.bumpBuffer hn hbump
  · split
    · rename_i slab h' hres
      obtain ⟨owner', hL', hslab⟩ := hL.reserve hg m hres
      obtain ⟨hgen, hkind, -, hstop, hown⟩ := hslab slab rfl
      refine ⟨owner', hL'.setMutator (m := m) ?_ (fun r' hr' => hL.calls m r' hr')⟩
      intro g k cursor stop hs hlt
      by_cases heq : (g, k) = (r.generation, r.kind)
      · cases heq
        rw [setTlab_self] at hs
        cases hs
        right
        exact ⟨hgen, hkind, hg, hstop, hown⟩
      · left
        exact setTlab_other _ _ heq
    · rename_i h' hres
      obtain ⟨owner', hL', -⟩ := hL.reserve hg m hres
      refine ⟨owner', hL'.setMutator (m := m) ?_ (by intro r' hr'; cases hr')⟩
      intro g k cursor stop _ _
      exact Or.inl rfl

/-- Entering a call. -/
theorem enter (hL : Ledger L h₀ s owner) (m : Nat) {r : Request} (hg : r.generation ≠ .Free)
    (hk : r.kind = .Cons ∨ r.kind = .Boxed) (hn : 1 ≤ r.nCells) (hfits : r.nCells ≤ pageSizeCells) :
    Ledger L h₀ (s.enter m r) owner := by
  unfold Allocators.enter
  split
  · exact hL
  · split
    · refine hL.setMutator (fun g k cursor stop _ _ => Or.inl rfl) ?_
      intro r' hr'
      cases hr'
      exact ⟨hg, hk, hn, hfits⟩
    · exact hL

/-- Every step keeps the books. -/
theorem step (hL : Ledger L h₀ s owner) {a : AllocAction} (hvalid : a.valid = true) :
    ∃ owner', Ledger L h₀ (s.step a) owner' := by
  cases a with
  | heapCons g =>
      exact hL.allocInRegion (by simpa [AllocAction.valid] using hvalid) (by omega) (by decide)
  | heapBoxed g n =>
      show ∃ owner', Ledger L h₀ (s.record g .Boxed n (some false) (s.heap.tryAllocBoxedIn g n)) owner'
      unfold tryAllocBoxedIn
      split
      · exact ⟨owner, hL⟩
      · rename_i hn
        exact hL.allocInRegion (by simpa [AllocAction.valid] using hvalid) (by omega) (by omega)
  | heapLarge g n =>
      simp only [AllocAction.valid, Bool.and_eq_true, decide_eq_true_eq] at hvalid
      exact hL.allocLarge hvalid.1 hvalid.2
  | heapSlab cells =>
      simp only [Allocators.step]
      cases halloc : s.heap.tryAllocG0Slab cells with
      | mk r h' =>
          obtain ⟨hnone, hsome⟩ := hL.allocSlab halloc
          cases r with
          | none => exact hnone rfl
          | some slab => exact hsome slab rfl
  | callCons m g =>
      exact ⟨owner, hL.enter m (by simpa [AllocAction.valid] using hvalid) (Or.inl rfl)
        (by dsimp only; omega) (by dsimp only; unfold pageSizeCells; omega)⟩
  | callBoxed m g n =>
      simp only [Allocators.step]
      split
      · exact ⟨owner, hL⟩
      · rename_i hn
        exact ⟨owner, hL.enter m (by simpa [AllocAction.valid] using hvalid) (Or.inr rfl)
          (by dsimp only; omega) (by dsimp only; omega)⟩
  | advance m =>
      simp only [Allocators.step]
      cases hr : (s.mutators m).call with
      | none => exact ⟨owner, hL⟩
      | some r => exact hL.round hr
  | flushTlabs m =>
      simp only [Allocators.step]
      split
      · refine ⟨owner, hL.setMutator ?_ (by intro r hr; cases hr)⟩
        intro g k cursor stop hs _
        cases hs
      · exact ⟨owner, hL⟩

/-- Every interleaving keeps the books. -/
theorem run (hL : Ledger L h₀ s owner) {acts : List AllocAction}
    (hvalid : ∀ a ∈ acts, a.valid = true) : ∃ owner', Ledger L h₀ (s.run acts) owner' := by
  induction acts generalizing s owner with
  | nil => exact ⟨owner, hL⟩
  | cons a acts ih =>
      obtain ⟨owner₁, hL₁⟩ := hL.step (hvalid a List.mem_cons_self)
      exact ih hL₁ fun b hb => hvalid b (List.mem_cons_of_mem a hb)

end Ledger

/-- The first entries: every cell of an object belongs to it, the free range of an open page to its
region, and all else to nobody. -/
noncomputable def firstOwner (L : HeapLayout) (h : PageHeap) : Nat → Owner := by
  classical
  exact fun x =>
    if Covered L h x then .object
    else if h.genAt x = .Free then .free
    else
      let g := h.genAt x
      let k := h.kindAt x
      let r := h.allocRegions g k
      if r.currentPage = some (x / pageSizeCells) ∧
          x / pageSizeCells * pageSizeCells + r.offset ≤ x then .region g k
      else .free

theorem Ledger.start {L : HeapLayout} {h : PageHeap} (ho : Openable L h) :
    Ledger L h (Allocators.start h) (firstOwner L h) where
  book := by
    refine ⟨?_, ?_, ?_, ?_⟩
    · intro x hx
      have hx' : h.genAt x = .Free := hx
      unfold firstOwner
      rw [if_neg (ho.free x hx'), if_pos hx']
    · intro g k p hp hoff
      obtain ⟨hgen, hkind, hg, hrest⟩ := ho.region g k p hp hoff
      refine ⟨hgen, hkind, hg, ?_⟩
      intro x h1 h2
      have hp' : (h.allocRegions g k).currentPage = some p := hp
      have h1' : p * pageSizeCells + (h.allocRegions g k).offset ≤ x := h1
      have hpage : x / pageSizeCells = p := by
        unfold pageSizeCells at *
        omega
      have hgx : h.genAt x = g := by
        unfold genAt
        rw [hpage]
        exact hgen
      have hkx : h.kindAt x = k := by
        unfold kindAt
        rw [hpage]
        exact hkind
      unfold firstOwner
      dsimp only
      rw [if_neg (hrest x h1 h2).2, hgx, if_neg hg, hkx, hpage, if_pos ⟨hp', h1'⟩]
    · intro x hx
      unfold firstOwner
      rw [if_pos hx]
    · intro x hx
      show h.startBits x = .none
      unfold firstOwner at hx
      split at hx
      · exact hx.elim
      · split at hx
        · exact hx.elim
        · dsimp only at hx
          split at hx
          · rename_i hreg
            refine ((ho.region _ _ _ hreg.1 ?_).2.2.2 x hreg.2 ?_).1
            · unfold pageSizeCells at *
              omega
            · unfold pageSizeCells at *
              omega
          · exact hx.elim
  tlab := by
    intro m g k cursor stop hs
    cases hs
  grant := by
    intro j G hj
    cases hj
  placed := by
    intro G hG
    cases hG
  started := by
    intro G hG
    cases hG
  calls := by
    intro m r hr
    cases hr

/-- No allocator hands out overlapping memory, whatever the interleaving. -/
theorem interleaving_sound {L : HeapLayout} {h : PageHeap} (ho : Openable L h)
    {acts : List AllocAction} (hvalid : ∀ a ∈ acts, a.valid = true) :
    ((Allocators.start h).run acts).Sound L h := by
  obtain ⟨owner, hL⟩ := (Ledger.start ho).run hvalid
  exact hL.sound

/-! ### Heaps to start from

Between the requests of a planned run the allocators find what they need: a large object keeps the
generation of its head on all its pages, a small one ends below the high-water mark of its page. -/

theorem Shape.not_covered_of_free {L : HeapLayout} {h : PageHeap} {T : ObjTable}
    (hS : Shape L h T Forwarding.empty) {x : Nat} (hfree : h.genAt x = .Free) :
    ¬ Covered L h x := by
  rintro ⟨c, o, ho, hle, hlt⟩
  rw [hS.objAt_eq] at ho
  have hgen := hS.genAt_inside ho (i := x - c) (by omega)
  rw [Nat.add_sub_cancel' hle, hfree] at hgen
  exact hS.live ho hgen.symm

theorem Shape.openable {L : HeapLayout} {h : PageHeap} {T : ObjTable}
    (hS : Shape L h T Forwarding.empty) (hR : RegionsOk h) : Openable L h where
  region := by
    intro g k p hp _
    obtain ⟨hgen, hkind, hused, hg, hk⟩ := hR g k p hp
    refine ⟨hgen, hkind, hg, fun x hlow hhigh => ?_⟩
    have hpage : x / pageSizeCells = p := by
      unfold pageSizeCells at *
      omega
    have hsmall : (h.descs p).kind ≠ .Large := by
      rw [hkind]
      rcases hk with rfl | rfl <;> decide
    have hclear : ¬ Covered L h x := by
      rintro ⟨c, o, ho, hle, hlt⟩
      rw [hS.objAt_eq] at ho
      have hin := hS.cell_page ho (i := x - c) (by omega)
      rw [Nat.add_sub_cancel' hle, hpage] at hin
      rcases hin with ⟨hk', hpc⟩ | ⟨hk', j, hpc, hj⟩
      · -- the object ends below the mark
        have hfit := (hS.obj c o ho).small hk'
        rw [← hpc, hused] at hfit
        unfold pageSizeCells at *
        omega
      · -- a page of a large run is no page of a region
        rcases Nat.eq_zero_or_pos j with rfl | hpos
        · exact hsmall (by rw [hpc]; exact hk')
        · exact hsmall (by rw [hpc]; exact (hS.pages.run _ j hk' hpos hj).1)
    refine ⟨?_, hclear⟩
    have hlive : h.genAt x ≠ .Free := by
      unfold genAt
      rw [hpage, hgen]
      exact hg
    rw [hS.start x hlive, ObjInfo.pairOf_eq_none]
    cases hT : T x with
    | none => rfl
    | some o =>
        have hpos := (hS.wf hT).pos
        exact absurd ⟨x, o, by rw [hS.objAt_eq, hT], Nat.le_refl x, by omega⟩ hclear
  free := fun _ hfree => hS.not_covered_of_free hfree

/-- The allocators may start from every heap that planned requests reach. -/
theorem World.openable_planned {L : HeapLayout} {w : World}
    (hw : World.Reached L (World.PlannedRequest L) w) : Openable L w.heap := by
  obtain ⟨T, hW⟩ := World.planned_runs_settled hw
  exact hW.heap.shape.openable hW.heap.regions

/-- A string that a collection has moved, on a page with room behind it. -/
def behindOps : List Op :=
  [.allocBoxed .G0 (heapHeader .String 3), .storeExt 0 (World.boxAt 0), .collectMinor [0]]

/-- Two buffers and the heap itself, carving the page behind the string and a fresh one. -/
theorem interleaving_sound_behind : ∃ w,
    (World.lispWorld 4 []).run lispLayout behindOps = some w ∧
      (∃ p, (w.heap.allocRegions .G0 .Boxed).currentPage = some p ∧
        (w.heap.objAt lispLayout (p * pageSizeCells)).isSome) ∧
        ((Allocators.start w.heap).run
          [.callBoxed 0 .G0 2, .callCons 1 .G0, .advance 1, .heapBoxed .G0 2, .advance 0,
            .advance 1, .advance 0]).Sound lispLayout w.heap := by
  have hrun : (((World.lispWorld 4 []).runIf lispLayout (World.plans lispLayout) behindOps).bind
      fun w => (w.heap.allocRegions .G0 .Boxed).currentPage.map fun p =>
        (w.heap.objAt lispLayout (p * pageSizeCells)).isSome) = some true := by
    decide +kernel
  obtain ⟨w, hw, hrest⟩ := Option.bind_eq_some_iff.1 hrun
  obtain ⟨p, hp, hobject⟩ := Option.map_eq_some_iff.1 hrest
  have hreached :=
    World.runIf_reached World.plannedRequest_of_plans (World.lispWorld_reached [] (by decide)) hw
  exact ⟨w, World.run_of_runIf hw, ⟨p, hp, hobject⟩,
    interleaving_sound (World.openable_planned hreached) (by decide)⟩

/-! ### A page the evacuation filled and released

A large run straddles the page that the first chunk reuses: the evacuation releases the page it
copied the cons to, and the region of the destination generation still points into it. -/

def releasedRegionOps : List Op :=
  [.allocLarge .G0 (heapHeader .String 16383),
    .allocCons .G0 (LispLayout.fixnum 1) LispLayout.nil,
    .storeExt 0 (World.consAt 16384),
    .evacuate .G0 .G1 [.ext 0]]

/-- The cons goes into the open region on the free page, the box opens that page afresh. -/
def releasedRegionActs : List AllocAction := [.heapCons .G1, .heapBoxed .G0 4, .heapBoxed .G1 4]

/-- From a heap whose region lies on a free page two allocations overlap. -/
theorem interleaving_overlap : ∃ (w : World) (acts : List AllocAction),
    World.Reachable lispLayout w ∧ w.slabs = [] ∧ (∀ a ∈ acts, a.valid = true) ∧
      ¬ ((Allocators.start w.heap).run acts).Sound lispLayout w.heap := by
  have hrun : (((World.lispWorld 4 []).run lispLayout releasedRegionOps).map fun w =>
      w.slabs.isEmpty &&
        ((Allocators.start w.heap).run releasedRegionActs).grants.map (fun G => (G.cell, G.nCells)) ==
          [(8194, 2), (16384, 4), (8192, 4)]) = some true := by
    decide +kernel
  obtain ⟨w, hw, hcheck⟩ := Option.map_eq_some_iff.1 hrun
  simp only [Bool.and_eq_true, List.isEmpty_iff, beq_iff_eq] at hcheck
  obtain ⟨hslabs, hgrants⟩ := hcheck
  refine ⟨w, releasedRegionActs, World.run_reachable (World.lispWorld_reached [] (by decide)) hw,
    hslabs, by decide, ?_⟩
  intro hsound
  generalize (Allocators.start w.heap).run releasedRegionActs = s at hgrants hsound
  obtain ⟨G, hG, hcell⟩ : ∃ G, s.grants[0]? = some G ∧ (G.cell, G.nCells) = (8194, 2) := by
    have h := congrArg (fun l => l[0]?) hgrants
    simpa [Option.map_eq_some_iff] using h
  obtain ⟨G', hG', hcell'⟩ : ∃ G, s.grants[2]? = some G ∧ (G.cell, G.nCells) = (8192, 4) := by
    have h := congrArg (fun l => l[2]?) hgrants
    simpa [Option.map_eq_some_iff] using h
  simp only [Prod.mk.injEq] at hcell hcell'
  refine hsound.disjoint 0 2 G G' hG hG' (by decide) 8194 ?_ ?_
  · exact ⟨by omega, by omega⟩
  · exact ⟨by omega, by omega⟩

end NewGc
