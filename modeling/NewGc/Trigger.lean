import NewGc.Client
import NewGc.Frames
import NewGc.Poison

/-!
# Trigger — the allocation counter and who resets it

`should_collect` compares a counter with a threshold.  Every allocation path adds what it hands out
to the counter, and the evacuator's copies go through one of these paths; `recompute_auto_trigger`
sets it back, and of the collection entry points only `collect_auto` calls that.  A run is metered
by a second count that the code does not have: what was handed out since the last collection.
-/

namespace NewGc

open Library PageHeap

/-! ## Metered heaps -/

/-- The collections a heap runs on its own. -/
inductive PlainCycle
  | minor
  | major
  | full
  | auto (thresholdBps : Nat)
  deriving DecidableEq, Repr

/-- The collection behind an entry point. -/
def PlainCycle.collect (L : HeapLayout) (h : PageHeap) (ext : Nat → Word)
    (visitRoots : RootVisitor) : PlainCycle → Except GcPanic (PageHeap × (Nat → Word))
  | .minor => do
      let (_, h, ext) ← h.collectMinor L ext visitRoots
      return (h, ext)
  | .major => do
      let (_, h, ext) ← h.collectMajor L ext visitRoots
      return (h, ext)
  | .full => do
      let (_, h, ext) ← h.collectFull L ext visitRoots
      return (h, ext)
  | .auto thresholdBps => do
      let (_, h, ext) ← h.collectAuto L ext thresholdBps visitRoots
      return (h, ext)

/-- A heap with its mutators, the threshold of `should_collect`, and the bytes handed out since the
last completed collection (`none` once a collection has been aborted). -/
structure Metered where
  guarded : Guarded
  autoGcTriggerBytes : Nat
  gcBudgetMinBytes : Nat
  since : Option Nat

/-- What happens in a run: allocations and collections of the heap and of the mutators, the settings
of the trigger, and whatever a client does between them. -/
inductive MeterOp
  | call (c : LaterCall)
  | drive (full : Bool) (pinStackRanges : List (Nat × Nat)) (visitRoots : RootVisitor)
  | collect (cycle : PlainCycle) (visitRoots : RootVisitor)
  | minorWithStatic (area : StaticArea) (pinStackRanges : List (Nat × Nat)) (roots : List Nat)
  | recomputeAutoTrigger
  | setGcBudgetMinBytes (bytes : Nat)
  | flushTlabs (m : Nat)
  | write (cell : Nat) (w : Word)
  | writeExt (addr : Nat) (w : Word)
  | markCard (addr : Nat)
  | pin (w : Word)
  | unpin (cell : Nat)
  | pinRanges (target : Generation) (ranges : List (Nat × Nat))

/-- The bytes of a granted range. -/
def Answer.bytes : Answer → Nat
  | .granted _ nCells => nCells * 8
  | _ => 0

/-- The bytes a call hands to the mutator; a refill of a buffer hands out nothing yet. -/
def LaterCall.handed : LaterCall → Answer → Nat
  | .heapTlab _ _ _ _, _ => 0
  | _, a => a.bytes

namespace Metered

/-- `should_collect`. -/
def shouldCollect (m : Metered) : Bool :=
  decide (m.autoGcTriggerBytes ≤ m.guarded.heap.bytesAllocSinceGc)

/-- The allocation budget until the next automatic collection. -/
def budget (m : Metered) : Nat := max (m.guarded.heap.tenuredUsedBytes / 2) m.gcBudgetMinBytes

/-- `recompute_auto_trigger`. -/
def recomputeAutoTrigger (m : Metered) : Metered :=
  { m with
    guarded := { m.guarded with heap := { m.guarded.heap with bytesAllocSinceGc := 0 } }
    autoGcTriggerBytes := m.budget }

/-- `set_gc_budget_min_bytes`. -/
def setGcBudgetMinBytes (m : Metered) (bytes : Nat) : Metered :=
  recomputeAutoTrigger { m with gcBudgetMinBytes := max bytes 1 }

/-- A fresh heap: the default budget is 8 MB. -/
def start (h : PageHeap) (ext : Nat → Word) : Metered where
  guarded :=
    { heap := h
      ext := ext
      lockPoisoned := false
      tlabs := fun _ _ _ => TlabBuffer.empty }
  autoGcTriggerBytes := 8 * 1024 * 1024
  gcBudgetMinBytes := 8 * 1024 * 1024
  since := some 0

/-- The heap gets other contents. -/
def withHeap (m : Metered) (h : PageHeap) : Metered :=
  { m with guarded := { m.guarded with heap := h } }

/-- The count after a call. -/
def afterCall (m : Metered) (c : LaterCall) (a : Answer) (s : Guarded) : Metered :=
  match c, a with
  | .tryCollect (.auto _) _, .collected _ =>
      recomputeAutoTrigger { m with guarded := s, since := some 0 }
  | .tryCollect _ _, .collected _ => { m with guarded := s, since := some 0 }
  | .tryCollect _ _, .failed (.midEvacOom _) => { m with guarded := s, since := none }
  | c, a => { m with guarded := s, since := m.since.map (· + c.handed a) }

/-- One step. -/
def step (L : HeapLayout) (m : Metered) : MeterOp → Except GcPanic Metered
  | .call c => do
      let (a, s) ← m.guarded.call L c
      return m.afterCall c a s
  | .drive full pinStackRanges visitRoots => do
      let (a, s) ← m.guarded.drive L full pinStackRanges visitRoots
      return { m with
        guarded := s
        since := if a = .returned then some 0 else if m.guarded.lockPoisoned then m.since else none }
  | .collect cycle visitRoots =>
      if m.guarded.lockPoisoned then .ok m
      else do
        let (h, ext) ← cycle.collect L m.guarded.heap m.guarded.ext visitRoots
        let m := { m with guarded := { m.guarded with heap := h, ext := ext }, since := some 0 }
        return match cycle with
          | .auto _ => m.recomputeAutoTrigger
          | _ => m
  | .minorWithStatic area pinStackRanges roots => do
      let h ← m.guarded.heap.markMinorWithStatic L m.guarded.ext area roots
      let (h, ext, _) ← h.collectMinorWithStatic L m.guarded.ext area pinStackRanges roots
      return { m with guarded := { m.guarded with heap := h, ext := ext }, since := some 0 }
  | .recomputeAutoTrigger => .ok m.recomputeAutoTrigger
  | .setGcBudgetMinBytes bytes => .ok (m.setGcBudgetMinBytes bytes)
  | .flushTlabs u =>
      .ok { m with guarded := { m.guarded with
        tlabs := Function.update m.guarded.tlabs u fun _ _ => TlabBuffer.empty } }
  | .write cell w => .ok (m.withHeap (m.guarded.heap.setCell cell w))
  | .writeExt addr w =>
      .ok { m with guarded := { m.guarded with ext := Function.update m.guarded.ext addr w } }
  | .markCard addr => .ok (m.withHeap (m.guarded.heap.markCardAt addr))
  | .pin w => .ok (m.withHeap (m.guarded.heap.pin L w).2)
  | .unpin cell => .ok (m.withHeap (m.guarded.heap.unpin (some cell)))
  | .pinRanges target ranges =>
      .ok (m.withHeap (m.guarded.heap.pinPointersInRanges L m.guarded.ext target ranges).2)

/-- The metered heaps a run reaches when every step of it meets `C`. -/
inductive Reached (L : HeapLayout) (C : Metered → MeterOp → Prop) : Metered → Prop
  | start (base nPages : Nat) (os : Nat → Bool) (order : HashOrder) (ext : Nat → Word) :
      Reached L C (start (withReservation base nPages os order) ext)
  | create (base youngBytes oldBytes : Nat) (os : Nat → Bool) (order : HashOrder)
      (ext : Nat → Word) :
      Reached L C (Metered.start (PageHeap.new base youngBytes oldBytes os order) ext)
  | step {m m' : Metered} (op : MeterOp) (hm : Reached L C m) (hC : C m op)
      (hstep : m.step L op = .ok m') : Reached L C m'

/-- The counter says what was handed out since the last completed collection, and `should_collect`
waits until that reaches the threshold. -/
def CountsAllocation (m : Metered) : Prop :=
  ∀ bytes, m.since = some bytes → m.guarded.heap.bytesAllocSinceGc = bytes ∧
    (m.shouldCollect = true → m.autoGcTriggerBytes ≤ bytes)

/-- The steps that leave the counter right: collections are automatic, and the counter is set back
by hand only when nothing has been handed out since. -/
def KeepsCount (m : Metered) : MeterOp → Prop
  | .call (.tryCollect .minor _) | .call (.tryCollect .major _) | .drive _ _ _ |
    .minorWithStatic _ _ _ => False
  | .collect cycle _ => ∃ thresholdBps, cycle = .auto thresholdBps
  | .recomputeAutoTrigger | .setGcBudgetMinBytes _ => m.since = some 0 ∨ m.since = none
  | _ => True

end Metered

/-! ## What is counted -/

/-- The counter stands where it stood. -/
def SameCount (h h' : PageHeap) : Prop := h'.bytesAllocSinceGc = h.bytesAllocSinceGc

theorem commitPage_sameCount (h : PageHeap) (idx : Nat) : SameCount h (h.commitPage idx).2 := by
  unfold commitPage SameCount
  split_ifs <;> rfl

/-- Nothing an allocation does moves the counter, except counting what it hands out. -/
theorem allocFrame_sameCount : AllocFrame SameCount where
  refl := fun _ => rfl
  trans := fun h₁ h₂ => h₂.trans h₁
  listed := fun _ _ _ => rfl
  commit := commitPage_sameCount
  opened := fun _ _ _ _ => rfl
  zeroed := fun _ _ => rfl
  starts := fun _ _ => rfl
  region := fun _ _ _ _ => rfl
  used := fun _ _ _ => rfl

theorem Granted.count {h h' : PageHeap} {n : Nat} (hG : Granted SameCount h n h') :
    h'.bytesAllocSinceGc = h.bytesAllocSinceGc + n * 8 := by
  obtain ⟨h₁, hsame, rfl⟩ := hG
  show h₁.bytesAllocSinceGc + n * 8 = _
  rw [hsame]

/-- The heap after a request counts the bytes of its answer. -/
theorem Answered.count {h : PageHeap} {n : Nat} {r : Option Nat × PageHeap}
    (hA : Answered SameCount h n r) : (Answer.ofCell n r).2.bytesAllocSinceGc =
      h.bytesAllocSinceGc + (Answer.ofCell n r).1.bytes := by
  obtain ⟨_ | cell, h'⟩ := r
  · exact hA
  · exact Granted.count hA

/-- A slab is as long as the request, up to a page. -/
theorem tryAllocG0Slab_length {h h' : PageHeap} {cells : Nat} {slab : Nat × Nat}
    (hslab : h.tryAllocG0Slab cells = (some slab, h')) : slab.2 = min cells pageSizeCells := by
  unfold tryAllocG0Slab at hslab
  split at hslab
  · cases hslab
  · dsimp only at hslab
    split at hslab
    · cases hslab
      rfl
    · cases hslab

theorem markStart_sameCount (h : PageHeap) (cell : Nat) (isCons : Bool) :
    SameCount h (markStart h cell isCons) :=
  allocFrame_sameCount.markStart h cell isCons

namespace Guarded

/-- A call under the lock counts what the heap counts. -/
theorem locked_count {s : Guarded} {f : PageHeap → Answer × PageHeap} {n : Answer → Nat}
    (hunwound : n .unwound = 0)
    (hcall : (f s.heap).2.bytesAllocSinceGc = s.heap.bytesAllocSinceGc + n (f s.heap).1) :
    (s.locked f).2.heap.bytesAllocSinceGc = s.heap.bytesAllocSinceGc + n (s.locked f).1 := by
  unfold locked
  split
  · rw [hunwound]
    rfl
  · exact hcall

/-- A mutator counts the objects it bumps, not the buffers it refills. -/
theorem bumpLoop_count (m : Nat) (r : Request) : ∀ (fuel : Nat) (s : Guarded),
    (bumpLoop m r fuel s).2.heap.bytesAllocSinceGc =
      s.heap.bytesAllocSinceGc + (bumpLoop m r fuel s).1.bytes := by
  intro fuel
  induction fuel with
  | zero => intro s; rfl
  | succ fuel ih =>
      intro s
      unfold bumpLoop
      dsimp only
      split
      · rename_i cell t hbump
        show (markStart s.heap cell r.isCons).bytesAllocSinceGc + r.nCells * 8 = _
        rw [markStart_sameCount]
        rfl
      · split
        · rfl
        · have hres := allocFrame_sameCount.reserveTlab s.heap r.generation r.kind r.nCells
            (max (s.tlabs m r.generation r.kind).nextRefillCells r.nCells)
          split
          · rename_i h heq
            rw [heq] at hres
            exact hres
          · rename_i slab h heq
            rw [heq] at hres
            rw [ih]
            exact congrArg (· + _) hres

theorem bump_count (s : Guarded) (m : Nat) (r : Request) :
    (s.bump m r).2.heap.bytesAllocSinceGc =
      s.heap.bytesAllocSinceGc + (s.bump m r).1.bytes := by
  unfold bump
  split
  · rfl
  · exact bumpLoop_count m r 2 s

/-- A call that does not collect counts what it hands out. -/
theorem call_count {L : HeapLayout} {s : Guarded} {c : LaterCall} {r : Answer × Guarded}
    (hcall : s.call L c = .ok r) (hquiet : ∀ cycle V, c ≠ .tryCollect cycle V) :
    r.2.heap.bytesAllocSinceGc = s.heap.bytesAllocSinceGc + c.handed r.1 := by
  have hA := allocFrame_sameCount
  cases c with
  | heapCons g =>
      cases hcall
      exact locked_count (f := fun h => Answer.ofCell 2 (h.tryAllocConsIn g)) rfl
        (hA.tryAllocConsIn s.heap g).count
  | heapBoxed g n =>
      cases hcall
      exact locked_count (f := fun h => Answer.ofCell n (h.tryAllocBoxedIn g n)) rfl
        (hA.tryAllocBoxedIn s.heap g n).count
  | heapLarge n g =>
      cases hcall
      exact locked_count (f := fun h => Answer.ofCell n (h.tryAllocLarge n g)) rfl
        (hA.tryAllocLarge s.heap n g).count
  | heapSlab cells =>
      cases hcall
      refine locked_count (n := Answer.bytes) rfl ?_
      have hslab := hA.tryAllocG0Slab s.heap cells
      rcases hres : s.heap.tryAllocG0Slab cells with ⟨_ | slab, h⟩
      · rw [hres] at hslab
        exact hslab
      · rw [hres] at hslab
        show h.bytesAllocSinceGc = _ + slab.2 * 8
        rw [tryAllocG0Slab_length hres]
        exact Granted.count hslab
  | heapTlab g k min want =>
      cases hcall
      refine locked_count (n := fun _ => 0) rfl ?_
      have hres := hA.reserveTlab s.heap g k min want
      rcases heq : s.heap.reserveTlab g k min want with ⟨_ | slab, h⟩
      · rw [heq] at hres
        exact hres
      · rw [heq] at hres
        exact hres
  | mutatorCons m g =>
      cases hcall
      exact bump_count s m _
  | mutatorBoxed m g n =>
      simp only [call] at hcall
      split at hcall
      · cases hcall
        rfl
      · cases hcall
        exact bump_count s m _
  | mutatorLarge m n g =>
      cases hcall
      exact locked_count (f := fun h => Answer.ofCell n (h.tryAllocLarge n g)) rfl
        (hA.tryAllocLarge s.heap n g).count
  | tryCollect cycle V => exact absurd rfl (hquiet cycle V)
  | isPoisoned =>
      cases hcall
      exact locked_count (f := fun h => (.flag h.poisoned, h)) (n := Answer.bytes) rfl rfl

end Guarded

/-! ## Runs -/

/-- Pins do not touch the counter. -/
theorem pinPointersInRanges_sameCount {L : HeapLayout} (ext : Nat → Word) (h : PageHeap)
    (g : Generation) (ranges : List (Nat × Nat)) :
    SameCount h (h.pinPointersInRanges L ext g ranges).2 := by
  have hword : ∀ (s : PageHeap × Nat) lo hi raw,
      (pinWord L g lo hi s raw).1.bytesAllocSinceGc = s.1.bytesAllocSinceGc := by
    intro s lo hi raw
    unfold pinWord
    split <;> rfl
  refine foldl_inv (I := fun s : PageHeap × Nat => SameCount h s.1) ranges ?_ rfl
  intro range _ s hs
  refine foldl_inv (I := fun s : PageHeap × Nat => SameCount h s.1) _ ?_ hs
  intro slot _ s' hs'
  exact (hword s' _ _ _).trans hs'

namespace Metered

variable {L : HeapLayout} {m m' : Metered}

/-- The threshold needs no invariant of its own. -/
theorem countsAllocation_of {m : Metered}
    (hcount : ∀ bytes, m.since = some bytes → m.guarded.heap.bytesAllocSinceGc = bytes) :
    m.CountsAllocation := by
  intro bytes hsince
  refine ⟨hcount bytes hsince, ?_⟩
  intro hcollect
  rw [← hcount bytes hsince]
  exact of_decide_eq_true hcollect

/-- A step that hands out nothing and leaves the counter alone. -/
theorem CountsAllocation.same (hm : m.CountsAllocation)
    (hheap : SameCount m.guarded.heap m'.guarded.heap) (hsince : m'.since = m.since) :
    m'.CountsAllocation := by
  refine countsAllocation_of fun bytes hb => ?_
  rw [hsince] at hb
  exact Eq.trans hheap (hm bytes hb).1

/-- Setting the counter back is right when nothing has been handed out. -/
theorem recomputeAutoTrigger_counts (hsince : m.since = some 0 ∨ m.since = none) :
    m.recomputeAutoTrigger.CountsAllocation := by
  refine countsAllocation_of fun bytes hb => ?_
  have hb' : m.since = some bytes := hb
  rcases hsince with hzero | hnone
  · rw [hzero] at hb'
    cases hb'
    rfl
  · rw [hnone] at hb'
    cases hb'

/-- A fallible collection completes, is aborted, or is turned away. -/
theorem tryCollect_cases {h : PageHeap} {ext : Nat → Word} {cycle : TryCycle} {V : RootVisitor}
    {r : Except GcError CollectResult × PageHeap × (Nat → Word)}
    (htry : h.tryCollect L ext cycle V = .ok r) :
    (∃ result, r.1 = .ok result) ∨ (∃ stall, r.1 = .error (.midEvacOom stall)) ∨
      (r.1 = .error .heapPoisoned ∧ r.2.1 = h) := by
  unfold PageHeap.tryCollect at htry
  split at htry
  · cases htry
    exact Or.inr (Or.inr ⟨rfl, rfl⟩)
  · split at htry
    · cases htry
      exact Or.inl ⟨_, rfl⟩
    · cases htry
      exact Or.inr (Or.inl ⟨_, rfl⟩)
    · cases htry

/-- An automatic collection that may fail. -/
theorem afterTryAuto_counts {bps : Nat} {V : RootVisitor} {r : Answer × Guarded}
    (hm : m.CountsAllocation) (hcall : m.guarded.call L (.tryCollect (.auto bps) V) = .ok r) :
    (m.afterCall (.tryCollect (.auto bps) V) r.1 r.2).CountsAllocation := by
  simp only [Guarded.call] at hcall
  split at hcall
  · -- the lock is poisoned: nothing happens
    cases hcall
    refine hm.same rfl ?_
    show m.since.map (· + 0) = m.since
    simp
  · obtain ⟨r₁, htry, hok⟩ := bind_eq_ok hcall
    cases hok
    rcases tryCollect_cases htry with ⟨result, hres⟩ | ⟨stall, hres⟩ | ⟨hres, hheap⟩
    · dsimp only
      rw [hres]
      exact recomputeAutoTrigger_counts (Or.inl rfl)
    · dsimp only
      rw [hres]
      exact countsAllocation_of fun bytes hb => by cases hb
    · dsimp only
      rw [hres]
      refine hm.same ?_ ?_
      · show SameCount m.guarded.heap r₁.2.1
        rw [hheap]
        rfl
      · show m.since.map (· + 0) = m.since
        simp

/-- A call of an allocator, or an automatic collection that may fail. -/
theorem afterCall_counts {c : LaterCall} {r : Answer × Guarded} (hm : m.CountsAllocation)
    (hC : m.KeepsCount (.call c)) (hcall : m.guarded.call L c = .ok r) :
    (m.afterCall c r.1 r.2).CountsAllocation := by
  have hquiet : (∀ cycle V, c ≠ .tryCollect cycle V) →
      CountsAllocation { m with guarded := r.2, since := m.since.map (· + c.handed r.1) } := by
    intro hne
    refine countsAllocation_of fun bytes hb => ?_
    obtain ⟨before, hbefore, rfl⟩ := Option.map_eq_some_iff.1 hb
    rw [Guarded.call_count hcall hne, (hm before hbefore).1]
  cases c with
  | tryCollect cycle V =>
      cases cycle with
      | minor => exact hC.elim
      | major => exact hC.elim
      | auto bps => exact afterTryAuto_counts hm hcall
  | _ => exact hquiet fun _ _ hne => by cases hne

/-- One step of a run whose collections are automatic. -/
theorem step_counts {op : MeterOp} (hm : m.CountsAllocation) (hC : m.KeepsCount op)
    (hstep : m.step L op = .ok m') : m'.CountsAllocation := by
  cases op with
  | call c =>
      obtain ⟨r, hcall, hok⟩ := bind_eq_ok hstep
      cases hok
      exact afterCall_counts hm hC hcall
  | drive full ranges V => exact hC.elim
  | collect cycle V =>
      obtain ⟨bps, rfl⟩ := hC
      simp only [step] at hstep
      split at hstep
      · cases hstep
        exact hm
      · obtain ⟨r, -, hok⟩ := bind_eq_ok hstep
        cases hok
        exact recomputeAutoTrigger_counts (Or.inl rfl)
  | minorWithStatic area ranges roots => exact hC.elim
  | recomputeAutoTrigger =>
      cases hstep
      exact recomputeAutoTrigger_counts hC
  | setGcBudgetMinBytes bytes =>
      cases hstep
      exact recomputeAutoTrigger_counts (m := { m with gcBudgetMinBytes := max bytes 1 }) hC
  | flushTlabs u =>
      cases hstep
      exact hm.same rfl rfl
  | write cell w =>
      cases hstep
      exact hm.same rfl rfl
  | writeExt addr w =>
      cases hstep
      exact hm.same rfl rfl
  | markCard addr =>
      cases hstep
      refine hm.same ?_ rfl
      show (m.guarded.heap.markCardAt addr).bytesAllocSinceGc = _
      unfold markCardAt
      repeat' split
      all_goals rfl
  | pin w =>
      cases hstep
      refine hm.same ?_ rfl
      show (m.guarded.heap.pin L w).2.bytesAllocSinceGc = _
      unfold PageHeap.pin
      split <;> rfl
  | unpin cell =>
      cases hstep
      exact hm.same rfl rfl
  | pinRanges target ranges =>
      cases hstep
      exact hm.same (pinPointersInRanges_sameCount m.guarded.ext m.guarded.heap target ranges) rfl

/-- In every run whose collections are automatic the counter measures allocation since the last
one. -/
theorem counter_measures_allocation (hm : Reached L KeepsCount m) : m.CountsAllocation := by
  induction hm with
  | start base nPages os order ext =>
      exact countsAllocation_of fun bytes hb => by cases hb; rfl
  | create base youngBytes oldBytes os order ext =>
      exact countsAllocation_of fun bytes hb => by cases hb; rfl
  | step op _ hC hstep ih => exact step_counts ih hC hstep

/-- A fresh Lisp heap. -/
def lispMetered (nPages : Nat) : Metered :=
  start (withReservation (2 ^ 32) nPages (fun _ => true) HashOrder.insertion) fun _ => 0

/-- Run a list of steps; `none` when one panics. -/
def run (L : HeapLayout) (m : Metered) : List MeterOp → Option Metered
  | [] => some m
  | op :: ops =>
      match m.step L op with
      | .ok m => run L m ops
      | .error _ => none

/-- A run of steps that all meet `C` stays within the metered heaps so reached. -/
theorem run_reached {C : Metered → MeterOp → Prop} {ops : List MeterOp} (hm : Reached L C m)
    (hC : ∀ m, ∀ op ∈ ops, C m op) (hrun : m.run L ops = some m') : Reached L C m' := by
  induction ops generalizing m with
  | nil =>
      cases hrun
      exact hm
  | cons op ops ih =>
      simp only [run] at hrun
      cases hstep : m.step L op with
      | error e => simp [hstep] at hrun
      | ok m₁ =>
          rw [hstep] at hrun
          exact ih (hm.step op (hC m op List.mem_cons_self) hstep)
            (fun m op hop => hC m op (List.mem_cons_of_mem _ hop)) hrun

def autoOps : List MeterOp :=
  [.call (.heapCons .G0), .writeExt 0 (World.consAt 0),
    .collect (.auto 7500) (rootsVisitor lispLayout [0]), .call (.mutatorBoxed 1 .G0 5)]

/-- An automatic collection copies a cons, then a mutator bumps five cells out of its buffer. -/
theorem counter_measures_allocation_auto : ∃ m, (lispMetered 3).run lispLayout autoOps = some m ∧
    m.since = some 40 ∧ m.guarded.heap.bytesAllocSinceGc = 40 := by
  have hcheck : ((lispMetered 3).run lispLayout autoOps).map (fun m => m.since) =
      some (some 40) := by decide +kernel
  obtain ⟨m, hrun, hsince⟩ := Option.map_eq_some_iff.1 hcheck
  have hkeeps : ∀ m, ∀ op ∈ autoOps, KeepsCount m op := by
    intro m op hop
    simp only [autoOps, List.mem_cons, List.not_mem_nil, or_false] at hop
    rcases hop with rfl | rfl | rfl | rfl
    · trivial
    · trivial
    · exact ⟨7500, rfl⟩
    · trivial
  have hm : Reached lispLayout KeepsCount m := run_reached (.start _ _ _ _ _) hkeeps hrun
  exact ⟨m, hrun, hsince, (counter_measures_allocation hm 40 hsince).1⟩

/-! ### A collection that does not reset

Two conses are allocated, one survives a minor collection: the counter still holds the bytes of both
and has those of the copy added. -/

def minorOps : List MeterOp :=
  [.call (.heapCons .G0), .call (.heapCons .G0), .writeExt 0 (World.consAt 0),
    .collect .minor (rootsVisitor lispLayout [0])]

theorem counter_not_reset :
    ¬ ∀ m, Reached lispLayout (fun _ _ => True) m → m.CountsAllocation := by
  intro hall
  have hcheck : ((lispMetered 3).run lispLayout minorOps).map
      (fun m => (m.since, m.guarded.heap.bytesAllocSinceGc)) = some (some 0, 48) := by
    decide +kernel
  obtain ⟨m, hrun, hm⟩ := Option.map_eq_some_iff.1 hcheck
  obtain ⟨hsince, hbytes⟩ := Prod.mk.inj hm
  have hreached : Reached lispLayout (fun _ _ => True) m :=
    run_reached (.start _ _ _ _ _) (fun _ _ _ => trivial) hrun
  have hzero := (hall m hreached 0 hsince).1
  rw [hbytes] at hzero
  cases hzero

end Metered

end NewGc
