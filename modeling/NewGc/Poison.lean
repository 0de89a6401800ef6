import NewGc.Abort
import NewGc.Buffers
import NewGc.Refusals

/-!
# Poison — what is left to callers of a half-evacuated heap

`try_collect_*` catches the panic of a collection that ran out of memory and sets the poison flag,
which the allocators and later collections read.  `Mutator::collect_*` lets the panic unwind: the
flag stays as it was, and the mutex of the heap, held at that moment, is poisoned instead.
-/

namespace NewGc

open Library PageHeap

/-! ## The fallible collections -/

/-- `GcError`. -/
inductive GcError
  | midEvacOom (stall : GcStallError)
  | heapPoisoned
  deriving DecidableEq, Repr

/-- The collections that have a fallible variant. -/
inductive TryCycle
  | minor
  | major
  | auto (thresholdBps : Nat)
  deriving DecidableEq, Repr

/-- The collection behind a fallible one. -/
def TryCycle.collect (L : HeapLayout) (h : PageHeap) (ext : Nat → Word) (visitRoots : RootVisitor) :
    TryCycle → Except Abort (CollectResult × PageHeap × (Nat → Word))
  | .minor => h.collectMinorTracked L ext visitRoots
  | .major => h.collectMajorTracked L ext visitRoots
  | .auto thresholdBps => h.collectAutoTracked L ext thresholdBps visitRoots

/-- `try_collect_minor`, `try_collect_major` and `try_collect_auto`; panics other than the
out-of-memory one go on unwinding. -/
def PageHeap.tryCollect (L : HeapLayout) (h : PageHeap) (ext : Nat → Word) (cycle : TryCycle)
    (visitRoots : RootVisitor) :
    Except GcPanic (Except GcError CollectResult × PageHeap × (Nat → Word)) :=
  if h.poisoned then .ok (.error .heapPoisoned, h, ext)
  else
    match cycle.collect L h ext visitRoots with
    | .ok (result, h, ext) => .ok (.ok result, h, ext)
    | .error (.midEvacOom stall h ext) =>
        .ok (.error (.midEvacOom stall), { h with poisoned := true }, ext)
    | .error (.other e) => .error e

/-! ## The heap behind a mutex -/

/-- A heap as its callers share it: behind a mutex, with the buffers of the mutators.  A heap that
is owned directly is one whose mutex is never poisoned. -/
structure Guarded where
  heap : PageHeap
  ext : Nat → Word
  lockPoisoned : Bool
  tlabs : Nat → Generation → PageKind → TlabBuffer

/-- How a call ends.  `unwound`: in a panic that is not caught. -/
inductive Answer
  | refused
  | granted (cell nCells : Nat)
  | collected (result : CollectResult)
  | failed (error : GcError)
  | flag (poisoned : Bool)
  | returned
  | unwound
  deriving DecidableEq, Repr

/-- The calls a client may make later. -/
inductive LaterCall
  | heapCons (generation : Generation)
  | heapBoxed (generation : Generation) (nCells : Nat)
  | heapLarge (nCells : Nat) (generation : Generation)
  | heapSlab (cells : Nat)
  | heapTlab (generation : Generation) (kind : PageKind) (minCells wantCells : Nat)
  | mutatorCons (m : Nat) (generation : Generation)
  | mutatorBoxed (m : Nat) (generation : Generation) (nCells : Nat)
  | mutatorLarge (m nCells : Nat) (generation : Generation)
  | tryCollect (cycle : TryCycle) (visitRoots : RootVisitor)
  | isPoisoned

/-- The answer of an allocator that hands out `n` cells. -/
def Answer.ofCell (n : Nat) : Option Nat × PageHeap → Answer × PageHeap
  | (some cell, h) => (.granted cell n, h)
  | (none, h) => (.refused, h)

/-- The answer of an allocator that hands out a slab. -/
def Answer.ofSlab : Option (Nat × Nat) × PageHeap → Answer × PageHeap
  | (some slab, h) => (.granted slab.1 slab.2, h)
  | (none, h) => (.refused, h)

namespace Guarded

/-- `heap.lock().unwrap()`, then a call of the heap. -/
def locked (s : Guarded) (call : PageHeap → Answer × PageHeap) : Answer × Guarded :=
  if s.lockPoisoned then (.unwound, s) else ((call s.heap).1, { s with heap := (call s.heap).2 })

def setTlab (s : Guarded) (m : Nat) (g : Generation) (k : PageKind) (t : TlabBuffer) : Guarded :=
  { s with
    tlabs := Function.update s.tlabs m
      (Function.update (s.tlabs m) g (Function.update (s.tlabs m g) k t)) }

/-- The loop of `Mutator::bump`: bump the buffer, or refill it under the lock and go round again. -/
def bumpLoop (m : Nat) (r : Request) : Nat → Guarded → Answer × Guarded
  | 0, s => (.refused, s)
  | fuel + 1, s =>
      let t := s.tlabs m r.generation r.kind
      match t.bump r.nCells with
      | some (cell, t) =>
          (.granted cell r.nCells,
            { s.setTlab m r.generation r.kind t with
              heap := countBytes (markStart s.heap cell r.isCons) r.nCells })
      | none =>
          if s.lockPoisoned then (.unwound, s)
          else
            match s.heap.reserveTlab r.generation r.kind r.nCells
                (max t.nextRefillCells r.nCells) with
            | (none, h) => (.refused, { s with heap := h })
            | (some slab, h) =>
                bumpLoop m r fuel
                  { s.setTlab m r.generation r.kind (t.refilled slab) with heap := h }

/-- `Mutator::bump`: the poison flag is read once, without the lock.  A refilled buffer has room, so
there are at most two rounds. -/
def bump (s : Guarded) (m : Nat) (r : Request) : Answer × Guarded :=
  if s.heap.poisoned then (.refused, s) else bumpLoop m r 2 s

/-- A later call. -/
def call (L : HeapLayout) (s : Guarded) : LaterCall → Except GcPanic (Answer × Guarded)
  | .heapCons g => .ok (s.locked fun h => Answer.ofCell 2 (h.tryAllocConsIn g))
  | .heapBoxed g n => .ok (s.locked fun h => Answer.ofCell n (h.tryAllocBoxedIn g n))
  | .heapLarge n g => .ok (s.locked fun h => Answer.ofCell n (h.tryAllocLarge n g))
  | .heapSlab cells => .ok (s.locked fun h => Answer.ofSlab (h.tryAllocG0Slab cells))
  | .heapTlab g k min want => .ok (s.locked fun h => Answer.ofSlab (h.reserveTlab g k min want))
  | .mutatorCons m g =>
      .ok (s.bump m { generation := g, kind := .Cons, nCells := 2, isCons := true })
  | .mutatorBoxed m g n =>
      if n = 0 ∨ pageSizeCells < n then .ok (.refused, s)
      else .ok (s.bump m { generation := g, kind := .Boxed, nCells := n, isCons := false })
  | .mutatorLarge _ n g => .ok (s.locked fun h => Answer.ofCell n (h.tryAllocLarge n g))
  | .tryCollect cycle visitRoots =>
      if s.lockPoisoned then .ok (.unwound, s)
      else do
        let (result, h, ext) ← s.heap.tryCollect L s.ext cycle visitRoots
        return (match result with
          | .ok r => .collected r
          | .error e => .failed e, { s with heap := h, ext := ext })
  | .isPoisoned => .ok (s.locked fun h => (.flag h.poisoned, h))

/-- `Mutator::collect_minor` (`full = false`) and `Mutator::collect_full`: the world is stopped, so
every buffer is flushed; `ranges` are the stack windows of a `conservative-pin` build.  The panic of
a collection that runs out of memory unwinds while the mutex is held. -/
def drive (L : HeapLayout) (s : Guarded) (full : Bool) (ranges : List (Nat × Nat))
    (visitRoots : RootVisitor) : Except GcPanic (Answer × Guarded) :=
  if s.lockPoisoned then .ok (.unwound, s)
  else
    let pinGens : List Generation := if full then [.G0, .G1, .Tenured] else [.G0, .G1]
    let h := pinGens.foldl (fun h g => (h.pinPointersInRanges L s.ext g ranges).2) s.heap
    let cycle : Except Abort (PageHeap × (Nat → Word)) :=
      if full then do
        let (_, h, ext) ← h.collectFullTracked L s.ext visitRoots
        return (h, ext)
      else do
        let (_, h, ext) ← h.collectMinorTracked L s.ext visitRoots
        return (h, ext)
    let flushed : Guarded := { s with tlabs := fun _ _ _ => TlabBuffer.empty }
    match cycle with
    | .ok (h, ext) => .ok (.returned, { flushed with heap := h, ext := ext })
    | .error (.midEvacOom _ h ext) =>
        .ok (.unwound, { flushed with heap := h, ext := ext, lockPoisoned := true })
    | .error (.other e) => .error e

end Guarded

/-! ### Two rounds -/

/-- A reserved buffer has the cells asked for. -/
theorem reserveTlab_enough {h h' : PageHeap} {g : Generation} {k : PageKind} {min want : Nat}
    {slab : Nat × Nat} (hmin : min ≤ pageSizeCells)
    (hres : h.reserveTlab g k min want = (some slab, h')) : min ≤ slab.2 := by
  have hcarve : ∀ {h h' : PageHeap} {slab : Nat × Nat} {n m : Nat}, n ≤ m →
      n ≤ h.remainingCells g k → h.carveTlabInCurrent g k m = some (slab, h') → n ≤ slab.2 := by
    intro h h' slab n m hm hrem hc
    rw [carveTlabInCurrent_eq] at hc
    obtain ⟨p, hp, hc⟩ := Option.bind_eq_some_iff.1 hc
    simp only [remainingCells, hp] at hrem
    dsimp only at hc
    split at hc
    · cases hc
    · cases hc
      exact le_min hm hrem
  have hwant : max min 1 ≤ max (max min 1) (Nat.min want pageSizeCells) := le_max_left _ _
  refine (le_max_left min 1).trans ?_
  unfold reserveTlab at hres
  split at hres
  · cases hres
  · dsimp only at hres
    split at hres
    · rename_i hrem
      split at hres
      · rename_i hc
        cases hres
        exact hcarve hwant hrem hc
      · cases hres
    · split at hres
      · cases hres
      · split at hres
        · cases hres
        · split at hres
          · rename_i hc
            cases hres
            -- a page just opened is empty
            refine hcarve hwant ?_ hc
            simp only [remainingCells, setAllocRegion, Function.update_self, Nat.sub_zero]
            unfold pageSizeCells at *
            omega
          · cases hres

/-- A round that finds room in the buffer is the last. -/
theorem Guarded.bumpLoop_room {m : Nat} {r : Request} {s : Guarded} {b : Nat × TlabBuffer}
    (hroom : (s.tlabs m r.generation r.kind).bump r.nCells = some b) (fuel : Nat) :
    bumpLoop m r (fuel + 1) s = (.granted b.1 r.nCells,
      { s.setTlab m r.generation r.kind b.2 with
        heap := countBytes (markStart s.heap b.1 r.isCons) r.nCells }) := by
  unfold bumpLoop
  dsimp only
  rw [hroom]

/-- The loop of `Mutator::bump` ends: after a refill the object fits, whatever the fuel. -/
theorem Guarded.bumpLoop_two (m : Nat) {r : Request} (hr : r.nCells ≤ pageSizeCells) (fuel : Nat)
    (s : Guarded) : bumpLoop m r (fuel + 2) s = bumpLoop m r 2 s := by
  cases hbump : (s.tlabs m r.generation r.kind).bump r.nCells with
  | some b => rw [bumpLoop_room hbump, bumpLoop_room hbump]
  | none =>
      unfold bumpLoop
      dsimp only
      rw [hbump]
      dsimp only
      split
      · rfl
      · split
        · rfl
        · rename_i slab h hres
          have henough := reserveTlab_enough hr hres
          obtain ⟨b, hb⟩ : ∃ b, ((s.tlabs m r.generation r.kind).refilled slab).bump r.nCells =
              some b := by
            unfold TlabBuffer.refilled TlabBuffer.bump
            dsimp only
            rw [if_pos (by omega)]
            exact ⟨_, rfl⟩
          have hroom : (({ s.setTlab m r.generation r.kind
              ((s.tlabs m r.generation r.kind).refilled slab) with heap := h } : Guarded).tlabs m
              r.generation r.kind).bump r.nCells = some b := by
            simpa only [setTlab, Function.update_self] using hb
          rw [bumpLoop_room hroom, bumpLoop_room hroom]

/-! ## What a poisoned heap owes -/

/-- The page table, the regions and the cells are as they were. -/
structure Intact (h h' : PageHeap) : Prop where
  descs : h'.descs = h.descs
  allocRegions : h'.allocRegions = h.allocRegions
  mem : h'.mem = h.mem

theorem Intact.refl (h : PageHeap) : Intact h h := ⟨rfl, rfl, rfl⟩

/-- The answer a call owes: allocations return `None`, collections `HeapPoisoned`. -/
def LaterCall.Owes : LaterCall → Answer → Prop
  | .tryCollect _ _, a => a = .failed .heapPoisoned
  | .isPoisoned, a => a = .flag true
  | _, a => a = .refused

/-- Every call of a sequence is turned away and changes nothing, and the heap reports that it is
poisoned throughout. -/
def RefusesAll (L : HeapLayout) : Guarded → List LaterCall → Prop
  | s, [] => s.call L .isPoisoned = .ok (.flag true, s)
  | s, c :: cs => s.call L .isPoisoned = .ok (.flag true, s) ∧
      ∃ a s', s.call L c = .ok (a, s') ∧ c.Owes a ∧ Intact s.heap s'.heap ∧ RefusesAll L s' cs

/-- No page can be opened: none is Free, or the commit of the one offered is refused. -/
def PageHeap.NoPage (h : PageHeap) : Prop :=
  h.popFreePage.1 = none ∨
    ∃ idx, h.popFreePage.1 = some idx ∧ (h.nPages ≤ idx ∨ h.CommitRefused idx)

/-- The state turns a slab request away: it asks for nothing, or the open page has no room and none
may or can be opened. -/
def PageHeap.SlabTurnedAway (h : PageHeap) (cells : Nat) : Prop :=
  cells = 0 ∨ (¬ h.HasRoom .G0 .Boxed (min cells pageSizeCells) ∧
    (h.countPagesInGen .Free ≤ h.gcFreePageReserveForMutatorSlab ∨
      h.youngPageCap ≤ h.countPagesInGen .G0 ∨ h.NoPage))

/-- The slab requests of a sequence are turned away, each by the heap it finds. -/
def SlabsTurnedAway : PageHeap → List LaterCall → Prop
  | _, [] => True
  | h, .heapSlab cells :: cs =>
      h.SlabTurnedAway cells ∧ SlabsTurnedAway (h.tryAllocG0Slab cells).2 cs
  | h, _ :: cs => SlabsTurnedAway h cs

/-- A collection through one of the two doors ran out of memory and left this behind. -/
inductive Aborted (L : HeapLayout) : Guarded → Prop
  /-- `try_collect_minor`, `try_collect_major`, `try_collect_auto`. -/
  | caught {s s' : Guarded} (cycle : TryCycle) (visitRoots : RootVisitor) (stall : GcStallError)
      (h : s.call L (.tryCollect cycle visitRoots) = .ok (.failed (.midEvacOom stall), s')) :
      Aborted L s'
  /-- `Mutator::collect_minor`, `Mutator::collect_full`. -/
  | unwound {s s' : Guarded} (full : Bool) (ranges : List (Nat × Nat)) (visitRoots : RootVisitor)
      (hlock : s.lockPoisoned = false)
      (h : s.drive L full ranges visitRoots = .ok (.unwound, s')) : Aborted L s'

/-! ## Pages that cannot be opened -/

/-- A commit that fails changes nothing the flag or the tables depend on. -/
theorem commitPage_none_poisoned {h h' : PageHeap} {idx : Nat}
    (hc : h.commitPage idx = (none, h')) : h'.poisoned = h.poisoned := by
  unfold commitPage at hc
  split_ifs at hc <;> cases hc <;> rfl

theorem acquireFreePage_none_iff (h : PageHeap) (g : Generation) (k : PageKind) :
    (h.acquireFreePage g k).1 = none ↔ h.NoPage := by
  unfold acquireFreePage NoPage
  rcases hpop : h.popFreePage with ⟨r, rest⟩
  cases r with
  | none => simp
  | some idx =>
      dsimp only
      rcases hcommit : commitPage { h with
        freePageList := rest, pagesHighWater := max h.pagesHighWater (idx + 1) } idx with ⟨c, h₁⟩
      have hnone : c = none ↔ (h.nPages ≤ idx ∨ h.CommitRefused idx) := by
        by_cases hlt : idx < h.nPages
        · have hiff := commitPage_none_iff (h := { h with
            freePageList := rest, pagesHighWater := max h.pagesHighWater (idx + 1) }) hlt
          rw [hcommit] at hiff
          refine hiff.trans ⟨Or.inr, fun hor => hor.resolve_left (Nat.not_le.2 hlt)⟩
        · have hout := Nat.le_of_not_lt hlt
          have : c = none := by
            unfold commitPage at hcommit
            rw [if_pos hout] at hcommit
            exact (congrArg Prod.fst hcommit).symm
          simp [this, hout]
      cases c with
      | none => simpa using hnone.1 rfl
      | some z => simpa using hnone

/-- A slab request is answered with `None` exactly when the state turns it away. -/
theorem tryAllocG0Slab_none_iff (h : PageHeap) (cells : Nat) :
    (h.tryAllocG0Slab cells).1 = none ↔ h.SlabTurnedAway cells := by
  have hO := tryAllocG0Slab_opening h cells
  have hroom := tryBumpG0Mixed_isSome h (min cells pageSizeCells)
  have hnone := acquireFreePage_none_iff h .G0 .Boxed
  unfold SlabTurnedAway
  by_cases hzero : cells = 0
  · simp [hzero, tryAllocG0Slab]
  · by_cases hopens : (AllocRequest.slab cells).OpensPage h
    · -- the request stands and falls with the page it opens
      obtain ⟨-, hno, hreserve, hcap⟩ := hopens
      have hopens : (AllocRequest.slab cells).OpensPage h :=
        ⟨by omega, hno, hreserve, hcap⟩
      by_cases hacq : (h.acquireFreePage .G0 .Boxed).1 = none
      · have hr := congrArg Prod.fst (hO.refused hopens hacq)
        have hfail : (h.tryAllocG0Slab cells).1 = none := by
          simpa [AllocRequest.attempt] using hr
        simp only [hfail, true_iff]
        exact Or.inr ⟨hno, Or.inr (Or.inr (hnone.1 hacq))⟩
      · have hr := hO.granted hopens hacq
        have hsome : (h.tryAllocG0Slab cells).1 ≠ none := by
          intro hfail
          simp [AllocRequest.attempt, hfail] at hr
        simp only [hsome, false_iff]
        rintro (hz | ⟨-, hfree | hcap' | hpage⟩)
        · exact hzero hz
        · omega
        · omega
        · exact hacq (hnone.2 hpage)
    · by_cases hhas : h.HasRoom .G0 .Boxed (min cells pageSizeCells)
      · obtain ⟨r, hr⟩ := Option.isSome_iff_exists.1 (hroom.2 hhas)
        have hsome : (h.tryAllocG0Slab cells).1 ≠ none := by
          simp [tryAllocG0Slab, hzero, tryAllocG0ConsSlab, hr]
        simp only [hsome, false_iff]
        rintro (hz | ⟨hno, -⟩)
        · exact hzero hz
        · exact hno hhas
      · have hbump : h.tryBumpG0Mixed (min cells pageSizeCells) = none := by
          simpa [hhas] using hroom
        have hclosed : h.countPagesInGen .Free ≤ h.gcFreePageReserveForMutatorSlab ∨
            h.youngPageCap ≤ h.countPagesInGen .G0 := by
          by_contra hopen
          push Not at hopen
          exact hopens ⟨by omega, hhas, hopen.1, hopen.2⟩
        have hfail : (h.tryAllocG0Slab cells).1 = none := by
          rcases hclosed with hfree | hcap
          · simp [tryAllocG0Slab, hzero, tryAllocG0ConsSlab, hbump, hfree]
          · by_cases hfree : h.countPagesInGen .Free ≤ h.gcFreePageReserveForMutatorSlab
            · simp [tryAllocG0Slab, hzero, tryAllocG0ConsSlab, hbump, hfree]
            · simp [tryAllocG0Slab, hzero, tryAllocG0ConsSlab, hbump, hfree, hcap]
        simp only [hfail, true_iff]
        exact Or.inr ⟨hhas, hclosed.imp_right Or.inl⟩

/-- A slab request that is turned away leaves the heap intact and the flag alone. -/
theorem tryAllocG0Slab_intact {h : PageHeap} {cells : Nat}
    (hnone : (h.tryAllocG0Slab cells).1 = none) :
    Intact h (h.tryAllocG0Slab cells).2 ∧ (h.tryAllocG0Slab cells).2.poisoned = h.poisoned := by
  have hO := tryAllocG0Slab_opening h cells
  have hfail : ((AllocRequest.slab cells).attempt h).1 = false := by
    simp [AllocRequest.attempt, hnone]
  by_cases hopens : (AllocRequest.slab cells).OpensPage h
  · have hacq : (h.acquireFreePage .G0 .Boxed).1 = none := by
      by_contra hsome
      rw [hO.granted hopens hsome] at hfail
      cases hfail
    have hheap : (h.tryAllocG0Slab cells).2 = (h.acquireFreePage .G0 .Boxed).2 :=
      congrArg Prod.snd (hO.refused hopens hacq)
    have hU := acquireFreePage_none (Prod.ext hacq rfl)
    rw [hheap]
    refine ⟨⟨hU.descs, hU.allocRegions, hU.mem⟩, ?_⟩
    -- the flag survives a pop and a refused commit
    unfold acquireFreePage at hacq ⊢
    rcases hpop : h.popFreePage with ⟨r, rest⟩
    rw [hpop] at hacq
    cases r with
    | none => rfl
    | some idx =>
        dsimp only at hacq ⊢
        split at hacq
        · rename_i h₁ hcommit
          have := commitPage_none_poisoned hcommit
          exact this
        · cases hacq
  · have hsame : (h.tryAllocG0Slab cells).2 = h := hO.otherwise hopens hfail
    rw [hsame]
    exact ⟨Intact.refl h, rfl⟩

/-! ## Later calls -/

/-- What an abort leaves behind: the flag is set, or the mutex is poisoned. -/
theorem Aborted.spoiled {L : HeapLayout} {s : Guarded} (hA : Aborted L s) :
    (s.lockPoisoned = false ∧ s.heap.poisoned = true) ∨ s.lockPoisoned = true := by
  cases hA with
  | @caught s₀ _ cycle visitRoots stall h =>
      left
      simp only [Guarded.call] at h
      cases hlock : s₀.lockPoisoned with
      | true =>
          rw [hlock, if_pos rfl] at h
          cases h
      | false =>
          rw [hlock, if_neg Bool.false_ne_true] at h
          obtain ⟨⟨result, h₁, ext₁⟩, htry, hok⟩ := bind_eq_ok h
          cases result with
          | ok r => cases hok
          | error e =>
              cases hok
              refine ⟨rfl, ?_⟩
              unfold PageHeap.tryCollect at htry
              split at htry
              · cases htry
              · split at htry <;> cases htry
                rfl
  | @unwound s₀ _ full ranges visitRoots hlock h =>
      right
      unfold Guarded.drive at h
      rw [hlock, if_neg Bool.false_ne_true] at h
      dsimp only at h
      split at h
      · cases h
      · cases h
        rfl
      · cases h

/-- A call under a sound mutex that leaves the heap alone. -/
theorem Guarded.locked_kept {s : Guarded} (hlock : s.lockPoisoned = false)
    {f : PageHeap → Answer × PageHeap} {a : Answer} (hf : f s.heap = (a, s.heap)) :
    s.locked f = (a, s) := by
  unfold locked
  rw [if_neg (Bool.eq_false_iff.1 hlock), hf]

/-- On a poisoned heap whose mutex is sound, every call but a slab request is turned away. -/
theorem Guarded.call_poisoned {L : HeapLayout} {s : Guarded} (hlock : s.lockPoisoned = false)
    (hp : s.heap.poisoned = true) {c : LaterCall} (hslab : ∀ n, c ≠ .heapSlab n) :
    ∃ a, s.call L c = .ok (a, s) ∧ c.Owes a := by
  have hregion : ∀ g k n isCons, s.heap.tryAllocInRegion g k n isCons = (none, s.heap) := by
    intro g k n isCons
    simp [tryAllocInRegion, hp]
  have hlarge : ∀ n g, s.heap.tryAllocLarge n g = (none, s.heap) := by
    intro n g
    simp [tryAllocLarge, hp]
  cases c with
  | heapCons g =>
      refine ⟨.refused, congrArg Except.ok (locked_kept hlock ?_), rfl⟩
      rw [tryAllocConsIn, hregion]
      rfl
  | heapBoxed g n =>
      refine ⟨.refused, congrArg Except.ok (locked_kept hlock ?_), rfl⟩
      unfold tryAllocBoxedIn
      split
      · rfl
      · rw [hregion]
        rfl
  | heapLarge n g =>
      refine ⟨.refused, congrArg Except.ok (locked_kept hlock ?_), rfl⟩
      rw [hlarge]
      rfl
  | heapSlab n => exact absurd rfl (hslab n)
  | heapTlab g k min want =>
      refine ⟨.refused, congrArg Except.ok (locked_kept hlock ?_), rfl⟩
      unfold reserveTlab
      rw [hp, if_pos rfl]
      rfl
  | mutatorCons m g =>
      refine ⟨.refused, congrArg Except.ok ?_, rfl⟩
      unfold bump
      rw [hp, if_pos rfl]
  | mutatorBoxed m g n =>
      refine ⟨.refused, ?_, rfl⟩
      simp only [call]
      split
      · rfl
      · unfold bump
        rw [hp, if_pos rfl]
  | mutatorLarge m n g =>
      refine ⟨.refused, congrArg Except.ok (locked_kept hlock ?_), rfl⟩
      rw [hlarge]
      rfl
  | tryCollect cycle visitRoots =>
      refine ⟨.failed .heapPoisoned, ?_, rfl⟩
      simp only [call, PageHeap.tryCollect]
      rw [if_neg (Bool.eq_false_iff.1 hlock), if_pos hp]
      rfl
  | isPoisoned =>
      refine ⟨.flag true, congrArg Except.ok (locked_kept hlock ?_), rfl⟩
      rw [hp]

theorem Guarded.call_slab {L : HeapLayout} {s : Guarded} (hlock : s.lockPoisoned = false)
    (cells : Nat) : s.call L (.heapSlab cells) =
      .ok ((Answer.ofSlab (s.heap.tryAllocG0Slab cells)).1,
        { s with heap := (s.heap.tryAllocG0Slab cells).2 }) := by
  have hheap : (Answer.ofSlab (s.heap.tryAllocG0Slab cells)).2 =
      (s.heap.tryAllocG0Slab cells).2 := by
    rcases s.heap.tryAllocG0Slab cells with ⟨_ | slab, h⟩ <;> rfl
  simp only [call, locked]
  rw [if_neg (Bool.eq_false_iff.1 hlock), hheap]

/-- After an abort every later call is turned away if and only if the abort was caught (so the mutex
is sound) and the state turns away the slab requests among the calls. -/
theorem poisoned_refuses {L : HeapLayout} {s : Guarded} (hA : Aborted L s)
    (calls : List LaterCall) :
    RefusesAll L s calls ↔ s.lockPoisoned = false ∧ SlabsTurnedAway s.heap calls := by
  rcases hA.spoiled with ⟨hlock, hp⟩ | hlock
  · simp only [hlock, true_and]
    clear hA
    -- over the calls: the state stays spoiled in the same way
    induction calls generalizing s with
    | nil =>
        obtain ⟨a, hcall, rfl⟩ := s.call_poisoned (L := L) hlock hp (c := .isPoisoned)
          (fun n hc => by cases hc)
        exact ⟨fun _ => trivial, fun _ => hcall⟩
    | cons c cs ih =>
        obtain ⟨a, hflag, rfl⟩ := s.call_poisoned (L := L) hlock hp (c := .isPoisoned)
          (fun n hc => by cases hc)
        by_cases hslab : ∃ n, c = .heapSlab n
        · obtain ⟨n, rfl⟩ := hslab
          have hcall := s.call_slab (L := L) hlock n
          constructor
          · rintro ⟨-, a, s', hok, howes, -, hrest⟩
            rw [hcall] at hok
            cases hok
            have hnone : (s.heap.tryAllocG0Slab n).1 = none := by
              rcases hres : s.heap.tryAllocG0Slab n with ⟨_ | slab, h⟩
              · rfl
              · rw [hres] at howes
                cases howes
            obtain ⟨-, hp'⟩ := tryAllocG0Slab_intact hnone
            refine ⟨(tryAllocG0Slab_none_iff _ n).1 hnone, ?_⟩
            exact (ih (s := { s with heap := (s.heap.tryAllocG0Slab n).2 }) hlock
              (hp'.trans hp)).1 hrest
          · rintro ⟨haway, hrest⟩
            have hnone := (tryAllocG0Slab_none_iff _ n).2 haway
            obtain ⟨hintact, hp'⟩ := tryAllocG0Slab_intact hnone
            refine ⟨hflag, _, _, hcall, ?_, hintact, ?_⟩
            · rcases hres : s.heap.tryAllocG0Slab n with ⟨_ | slab, h⟩
              · rfl
              · rw [hres] at hnone
                cases hnone
            · exact (ih (s := { s with heap := (s.heap.tryAllocG0Slab n).2 }) hlock
                (hp'.trans hp)).2 hrest
        · push Not at hslab
          obtain ⟨a, hcall, howes⟩ := s.call_poisoned (L := L) hlock hp hslab
          have haway : SlabsTurnedAway s.heap (c :: cs) ↔ SlabsTurnedAway s.heap cs := by
            cases c with
            | heapSlab n => exact absurd rfl (hslab n)
            | _ => exact Iff.rfl
          rw [haway, ← ih hlock hp]
          constructor
          · rintro ⟨-, a', s', hok, -, -, hrest⟩
            rw [hcall] at hok
            cases hok
            exact hrest
          · exact fun hrest => ⟨hflag, a, s, hcall, howes, Intact.refl _, hrest⟩
  · -- nobody gets past the mutex, not even `is_poisoned`
    have hunwound : s.call L .isPoisoned = .ok (.unwound, s) := by
      simp [Guarded.call, Guarded.locked, hlock]
    have hnot : ¬ RefusesAll L s calls := by
      intro hall
      have hflag : s.call L .isPoisoned = .ok (.flag true, s) := by
        cases calls with
        | nil => exact hall
        | cons c cs => exact hall.1
      rw [hunwound] at hflag
      cases hflag
    simp [hnot, hlock]

/-! ### Two aborted collections -/

/-- The heap of a client, behind a mutex. -/
def Guarded.ofWorld (w : World) : Guarded where
  heap := w.heap
  ext := w.ext
  lockPoisoned := false
  tlabs := fun _ _ _ => TlabBuffer.empty

/-- One page, and a live cons on it: there is nowhere to copy it to. -/
def fullHeapOps : List Op :=
  [.allocCons .G0 (LispLayout.fixnum 1) LispLayout.nil, .storeExt 0 (World.consAt 0)]

/-- A box leaves a page of G0 open; a live cons in G1 takes the other page. -/
def openPageOps : List Op :=
  [.allocBoxed .G0 (heapHeader .String 1), .allocCons .G1 (LispLayout.fixnum 1) LispLayout.nil,
    .storeExt 0 (World.consAt 8192)]

theorem poisoned_refuses_full : ∃ s : Guarded, Aborted lispLayout s ∧
    (RefusesAll lispLayout s [.heapSlab 1, .heapCons .G0] ↔
      s.lockPoisoned = false ∧ SlabsTurnedAway s.heap [.heapSlab 1, .heapCons .G0]) := by
  have hrun : ((World.run lispLayout (World.lispWorld 1 []) fullHeapOps).map fun w =>
      match (Guarded.ofWorld w).call lispLayout (.tryCollect .minor (rootsVisitor lispLayout [0])) with
      | .ok (.failed (.midEvacOom _), _) => true
      | _ => false) = some true := by
    decide +kernel
  obtain ⟨w, -, hcheck⟩ := Option.map_eq_some_iff.1 hrun
  split at hcheck
  · rename_i stall s' hcall
    have hA : Aborted lispLayout s' := .caught _ _ stall hcall
    exact ⟨s', hA, poisoned_refuses hA _⟩
  · cases hcheck

/-- A major collection runs out of memory, and the poisoned heap hands out a slab.  A minor one of a
mutator runs out of memory, and the heap does not answer any more. -/
theorem poisoned_hands_out :
    (∃ (w : World) (s : Guarded) (visitRoots : RootVisitor) (stall : GcStallError),
      World.Reachable lispLayout w ∧
      (Guarded.ofWorld w).call lispLayout (.tryCollect .major visitRoots) =
        .ok (.failed (.midEvacOom stall), s) ∧
      ¬ RefusesAll lispLayout s [.heapSlab 4]) ∧
    ∃ (w : World) (s : Guarded) (visitRoots : RootVisitor), World.Reachable lispLayout w ∧
      (Guarded.ofWorld w).drive lispLayout false [] visitRoots = .ok (.unwound, s) ∧
      ¬ RefusesAll lispLayout s [.mutatorCons 0 .G0] := by
  constructor
  · have hrun : ((World.run lispLayout (World.lispWorld 2 []) openPageOps).map fun w =>
        match (Guarded.ofWorld w).call lispLayout
          (.tryCollect .major (rootsVisitor lispLayout [0])) with
        | .ok (.failed (.midEvacOom _), s) => (s.heap.tryAllocG0Slab 4).1.isSome && !s.lockPoisoned
        | _ => false) = some true := by
      decide +kernel
    obtain ⟨w, hw, hcheck⟩ := Option.map_eq_some_iff.1 hrun
    split at hcheck
    · rename_i stall s hcall
      rw [Bool.and_eq_true, Bool.not_eq_true'] at hcheck
      refine ⟨w, s, _, stall, World.run_reachable (World.lispWorld_reached [] (by decide)) hw,
        hcall, ?_⟩
      rintro ⟨-, a, s', hok, howes, -, -⟩
      rw [Guarded.call_slab hcheck.2] at hok
      cases hok
      rcases hres : s.heap.tryAllocG0Slab 4 with ⟨_ | slab, h⟩
      · rw [hres] at hcheck
        cases hcheck.1
      · rw [hres] at howes
        cases howes
    · cases hcheck
  · have hrun : ((World.run lispLayout (World.lispWorld 1 []) fullHeapOps).map fun w =>
        match (Guarded.ofWorld w).drive lispLayout false [] (rootsVisitor lispLayout [0]) with
        | .ok (.unwound, s) => s.lockPoisoned
        | _ => false) = some true := by
      decide +kernel
    obtain ⟨w, hw, hcheck⟩ := Option.map_eq_some_iff.1 hrun
    split at hcheck
    · rename_i s hdrive
      refine ⟨w, s, _, World.run_reachable (World.lispWorld_reached [] (by decide)) hw, hdrive, ?_⟩
      rintro ⟨hflag, -⟩
      -- `is_poisoned` itself panics on the poisoned mutex
      simp [Guarded.call, Guarded.locked, hcheck] at hflag
    · cases hcheck

end NewGc
