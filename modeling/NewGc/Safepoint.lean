import NewGc.Space
import Mathlib.Tactic.Simps.Basic

/-!
# Safepoint — the stop-the-world handshake of many mutators

Each mutator runs on its own thread and moves through the atomic operations of
`register_mutator`, `poll_safepoint`, `enter_native`, `leave_native`, `drive_collect` and `drop`:
one lock, one load or one store at a time, in any interleaving.  A condvar wait releases
`park_mutex` and may wake at any moment.  A collection is the relocation its combined visitor
applies to the root words it is shown; a mid-evacuation panic unwinds through `ResumeGuard` and
leaves `coord_mutex` and the heap mutex poisoned.
-/

namespace NewGc

/-- A registered `Arc<MutatorInner>`. -/
abbrev MutatorId := Nat

/-- `MutatorInner::state`. -/
inductive RunState
  | inDylan
  | inNative
  deriving DecidableEq, Repr

/-- The part of a mutator a driver can see. -/
structure MutatorInner where
  lastEpoch : Nat
  isActive : Bool
  isActingCoordinator : Bool
  rootsSnapshot : List Word
  state : RunState

/-- A mutator nobody has registered. -/
def MutatorInner.blank : MutatorInner where
  lastEpoch := 0
  isActive := false
  isActingCoordinator := false
  rootsSnapshot := []
  state := .inDylan

/-- A thread-local allocation buffer and the cells left in it. -/
structure Tlab where
  generation : Generation
  kind : PageKind
  roomCells : Nat
  deriving DecidableEq, Repr

/-- The next atomic operation of a thread. -/
inductive Pc
  | unregistered
  -- register_mutator
  | registerCoord
  | registerEpoch
  | registerSlot (epoch : Nat)
  | registerUnlock
  -- the client's own code
  | running
  | refillLock (buffer : Tlab)
  | refillCarve (buffer : Tlab)
  -- park
  | parkPublish (target : Nat)
  | parkFlush (target : Nat)
  | parkLock (target : Nat)
  | parkAnnounce (target : Nat)
  | parkEpoch (cur : Nat)
  | parkWorld (cur : Nat)
  | parkWait (cur : Nat)
  | parkUnlock
  | parkCopy
  -- enter_native, the foreign call, leave_native
  | enterPublish
  | enterFlush
  | enterLock
  | enterState
  | enterUnlock
  | native
  | leaveLock
  | leaveWorld
  | leaveWait
  | leaveEpoch
  | leaveState
  | leaveUnlock
  | leaveCopy
  -- drive_collect
  | collectPublish
  | collectFlush
  | announceLock
  | announceFlag
  | announceUnlock
  | coordLock
  | stopLock
  | stopEpoch
  | stopLast (target : Nat)
  | stopWorld (target : Nat)
  | stopUnlock (target : Nat)
  | registrySnapshot (target : Nat)
  | waitLock (target : Nat) (pending others : List MutatorId)
  | waitCheck (target : Nat) (pending others : List MutatorId)
  | waitSleep (target : Nat) (pending others : List MutatorId)
  | waitUnlock (others : List MutatorId)
  | heapLock (others : List MutatorId)
  | collecting (others : List MutatorId)
  | visiting (pending others : List MutatorId) (relocate : Word → Word)
  | heapUnlock (unwinding : Bool)
  | guardLock (unwinding : Bool)
  | guardWorld (unwinding : Bool)
  | guardFlag (unwinding : Bool)
  | guardUnlock (unwinding : Bool)
  | coordUnlock (unwinding : Bool)
  | collectCopy
  | unwound
  -- drop
  | dropLock
  | dropInactive
  | dropUnlock
  | dropSlot
  | dropped

/-- A mutator handle, the thread that owns it and what its caller holds.  The fields from
`published` on are history: what the last publish put into the snapshot, how many collections had
run by then, and which collections have been shown the closure's slots since the call. -/
structure Thread where
  pc : Pc
  slot : Nat
  tlabs : List Tlab
  roots : List Word
  extra : List Word
  published : List Word
  publishedAt : Nat
  extraAtCall : List Word
  calledAt : Nat
  presented : List Nat

/-- A collection that has visited its roots: who drove it, and where it moved things. -/
structure Cycle where
  driver : MutatorId
  relocate : Word → Word

/-- The shared state, every thread, and the collections so far, oldest first.  `epoch` is a `u64`
that goes up by one per collection; it is a natural number here. -/
structure Coordinator where
  epoch : Nat
  worldRunning : Bool
  parkMutex : Option MutatorId
  coordMutex : Option MutatorId
  heapMutex : Option MutatorId
  coordPoisoned : Bool
  heapPoisoned : Bool
  slots : List (Option MutatorId)
  inner : MutatorId → MutatorInner
  thread : MutatorId → Thread
  cycles : List Cycle

/-- A choice of the client, the scheduler's next operation, or how a collection goes. -/
inductive Action
  | register
  | bump (buffer : Nat) (nCells : Nat)
  | refill (buffer : Tlab)
  | poll (roots : List Word)
  | enterNative (roots : List Word)
  | leaveNative
  | collect (roots extra : List Word)
  | drop
  | relocate (f : Word → Word)
  | panic
  | next

/-! ## Registry -/

namespace Registry

/-- The slot `register` takes: the first empty one, or a new one. -/
def freeSlot (slots : List (Option MutatorId)) : Nat :=
  (slots.findIdx? Option.isNone).getD slots.length

/-- `Registry::register`. -/
def register (slots : List (Option MutatorId)) (m : MutatorId) : List (Option MutatorId) :=
  if freeSlot slots < slots.length then slots.set (freeSlot slots) (some m) else slots ++ [some m]

/-- `Registry::deregister`. -/
def deregister (slots : List (Option MutatorId)) (slot : Nat) : List (Option MutatorId) :=
  slots.set slot none

/-- `Registry::snapshot`. -/
def snapshot (slots : List (Option MutatorId)) : List MutatorId := slots.filterMap id

end Registry

/-! ## Relocations -/

/-- Where a run of collections, oldest first, takes a word. -/
def relocated (cycles : List Cycle) (w : Word) : Word :=
  cycles.foldl (fun w c => c.relocate w) w

/-- `roots[..n].copy_from_slice(&snap[..n])` with `n` the shorter length. -/
def copyBack (roots snap : List Word) : List Word :=
  snap.take roots.length ++ roots.drop snap.length

namespace Coordinator

/-! ## State updates -/

/-- Before any mutator is registered. -/
def init (inner : MutatorId → MutatorInner) : Coordinator where
  epoch := 0
  worldRunning := true
  parkMutex := none
  coordMutex := none
  heapMutex := none
  coordPoisoned := false
  heapPoisoned := false
  slots := []
  inner := fun m => { inner m with isActive := false }
  thread := fun _ =>
    { pc := .unregistered, slot := 0, tlabs := [], roots := [], extra := [], published := []
      publishedAt := 0, extraAtCall := [], calledAt := 0, presented := [] }
  cycles := []

/-- The program counter of a thread. -/
abbrev pc (s : Coordinator) (m : MutatorId) : Pc := (s.thread m).pc

/-- Change one thread. -/
@[simps]
def setThread (s : Coordinator) (m : MutatorId) (f : Thread → Thread) : Coordinator :=
  { s with thread := Function.update s.thread m (f (s.thread m)) }

/-- Change the shared part of one mutator. -/
@[simps]
def setInner (s : Coordinator) (m : MutatorId) (f : MutatorInner → MutatorInner) : Coordinator :=
  { s with inner := Function.update s.inner m (f (s.inner m)) }

/-- Move a thread on. -/
@[simps!]
def goto (s : Coordinator) (m : MutatorId) (pc : Pc) : Coordinator :=
  s.setThread m fun t => { t with pc := pc }

/-- Lock `park_mutex`. -/
def lockPark (s : Coordinator) (m : MutatorId) (pc : Pc) : Option Coordinator :=
  if s.parkMutex = none then some ({ s with parkMutex := some m }.goto m pc) else none

/-- Unlock `park_mutex`. -/
@[simps!]
def unlockPark (s : Coordinator) (m : MutatorId) (pc : Pc) : Coordinator :=
  { s with parkMutex := none }.goto m pc

/-- `*roots_snapshot.lock().unwrap() = roots.to_vec()`. -/
@[simps!]
def publish (s : Coordinator) (m : MutatorId) (pc : Pc) : Coordinator :=
  (s.setInner m fun i => { i with rootsSnapshot := (s.thread m).roots }).setThread m fun t =>
    { t with pc := pc, published := t.roots, publishedAt := s.cycles.length }

/-- `flush_tlabs`. -/
@[simps!]
def flushTlabs (s : Coordinator) (m : MutatorId) (pc : Pc) : Coordinator :=
  s.setThread m fun t => { t with pc := pc, tlabs := [] }

/-- Copy the snapshot back into the caller's slice and return to it. -/
@[simps!]
def copyRoots (s : Coordinator) (m : MutatorId) : Coordinator :=
  s.setThread m fun t =>
    { t with pc := .running, roots := copyBack t.roots (s.inner m).rootsSnapshot }

/-- The visitor of a collection has shown every root word. -/
@[simps]
def recordCycle (s : Coordinator) (m : MutatorId) (f : Word → Word) : Coordinator :=
  { s with cycles := s.cycles ++ [Cycle.mk m f] }

/-- The condition under which a driver keeps waiting for a mutator. -/
def mustWaitFor (s : Coordinator) (target : Nat) (m : MutatorId) : Bool :=
  (s.inner m).isActive && !(s.inner m).isActingCoordinator &&
    decide ((s.inner m).state ≠ .inNative) && decide ((s.inner m).lastEpoch < target)

/-! ## Steps -/

/-- `Mutator::bump` in a buffer with room. -/
def bumpTlab (tlabs : List Tlab) (buffer nCells : Nat) : Option (List Tlab) :=
  match tlabs[buffer]? with
  | none => none
  | some b =>
      if nCells ≤ b.roomCells then
        some (tlabs.set buffer { b with roomCells := b.roomCells - nCells })
      else none

/-- The caller of a handle starts something, from its own code. -/
def call (s : Coordinator) (m : MutatorId) : Action → Option Coordinator
  | .bump buffer nCells =>
      (bumpTlab (s.thread m).tlabs buffer nCells).map fun tlabs =>
        s.setThread m fun t => { t with tlabs := tlabs }
  | .refill buffer => some (s.goto m (.refillLock buffer))
  | .poll roots =>
      let s' := s.setThread m fun t => { t with roots := roots }
      if (s.inner m).lastEpoch = s.epoch then some s' else some (s'.goto m (.parkPublish s.epoch))
  | .enterNative roots =>
      some (s.setThread m fun t => { t with pc := .enterPublish, roots := roots })
  | .collect roots extra =>
      some (s.setThread m fun t =>
        { t with
          pc := .collectPublish, roots := roots, extra := extra, extraAtCall := extra
          calledAt := s.cycles.length, presented := [] })
  | .drop => some (s.goto m .dropLock)
  | _ => none

/-- Show the next mutator's snapshot to the evacuator; an inactive one is skipped. -/
@[simps! epoch worldRunning parkMutex coordMutex heapMutex coordPoisoned heapPoisoned slots thread
  cycles]
def visitSnapshot (s : Coordinator) (j : MutatorId) (f : Word → Word) : Coordinator :=
  s.setInner j fun i =>
    if i.isActive then { i with rootsSnapshot := i.rootsSnapshot.map f } else i

/-- One atomic operation of a thread that is inside a call. -/
def advance (s : Coordinator) (m : MutatorId) : Pc → Option Coordinator
  | .registerCoord =>
      if s.coordPoisoned then none
      else if s.coordMutex = none then some ({ s with coordMutex := some m }.goto m .registerEpoch)
      else none
  | .registerEpoch => some (s.goto m (.registerSlot s.epoch))
  | .registerSlot epoch =>
      some ({ s with slots := Registry.register s.slots m }.setInner m (fun _ =>
        { lastEpoch := epoch, isActive := true, isActingCoordinator := false, rootsSnapshot := []
          state := .inDylan }) |>.setThread m fun t =>
        { t with pc := .registerUnlock, slot := Registry.freeSlot s.slots, tlabs := [] })
  | .registerUnlock => some ({ s with coordMutex := none }.goto m .running)
  | .refillLock buffer =>
      if s.heapMutex = none then
        if s.heapPoisoned then some (s.goto m .unwound)
        else some ({ s with heapMutex := some m }.goto m (.refillCarve buffer))
      else none
  | .refillCarve buffer =>
      some ({ s with heapMutex := none }.setThread m fun t =>
        { t with
          pc := .running
          tlabs := buffer :: t.tlabs.filter fun b =>
            !(decide (b.generation = buffer.generation) && decide (b.kind = buffer.kind)) })
  | .parkPublish target => some (s.publish m (.parkFlush target))
  | .parkFlush target => some (s.flushTlabs m (.parkLock target))
  | .parkLock target => s.lockPark m (.parkAnnounce target)
  | .parkAnnounce target =>
      some ((s.setInner m fun i => { i with lastEpoch := target }).goto m (.parkEpoch target))
  | .parkEpoch cur =>
      -- a straggler that sees a newer epoch announces itself again
      if s.epoch = cur then some (s.goto m (.parkWorld cur))
      else some ((s.setInner m fun i => { i with lastEpoch := s.epoch }).goto m (.parkEpoch s.epoch))
  | .parkWorld cur =>
      if s.worldRunning then some (s.goto m .parkUnlock) else some (s.unlockPark m (.parkWait cur))
  | .parkWait cur => s.lockPark m (.parkEpoch cur)
  | .parkUnlock => some (s.unlockPark m .parkCopy)
  | .parkCopy => some (s.copyRoots m)
  | .enterPublish => some (s.publish m .enterFlush)
  | .enterFlush => some (s.flushTlabs m .enterLock)
  | .enterLock => s.lockPark m .enterState
  | .enterState => some ((s.setInner m fun i => { i with state := .inNative }).goto m .enterUnlock)
  | .enterUnlock => some (s.unlockPark m .native)
  | .leaveLock => s.lockPark m .leaveWorld
  | .leaveWorld =>
      if s.worldRunning then some (s.goto m .leaveEpoch) else some (s.unlockPark m .leaveWait)
  | .leaveWait => s.lockPark m .leaveWorld
  | .leaveEpoch =>
      some ((s.setInner m fun i => { i with lastEpoch := s.epoch }).goto m .leaveState)
  | .leaveState => some ((s.setInner m fun i => { i with state := .inDylan }).goto m .leaveUnlock)
  | .leaveUnlock => some (s.unlockPark m .leaveCopy)
  | .leaveCopy => some (s.copyRoots m)
  | .collectPublish => some (s.publish m .collectFlush)
  | .collectFlush => some (s.flushTlabs m .announceLock)
  | .announceLock => s.lockPark m .announceFlag
  | .announceFlag =>
      some ((s.setInner m fun i => { i with isActingCoordinator := true }).goto m .announceUnlock)
  | .announceUnlock => some (s.unlockPark m .coordLock)
  | .coordLock =>
      if s.coordPoisoned then some (s.goto m .unwound)
      else if s.coordMutex = none then some ({ s with coordMutex := some m }.goto m .stopLock)
      else none
  | .stopLock => s.lockPark m .stopEpoch
  | .stopEpoch => some ({ s with epoch := s.epoch + 1 }.goto m (.stopLast (s.epoch + 1)))
  | .stopLast target =>
      some ((s.setInner m fun i => { i with lastEpoch := target }).goto m (.stopWorld target))
  | .stopWorld target => some ({ s with worldRunning := false }.goto m (.stopUnlock target))
  | .stopUnlock target => some (s.unlockPark m (.registrySnapshot target))
  | .registrySnapshot target =>
      some (s.goto m (.waitLock target (Registry.snapshot s.slots) (Registry.snapshot s.slots)))
  | .waitLock target pending others => s.lockPark m (.waitCheck target pending others)
  | .waitCheck _ [] others => some (s.goto m (.waitUnlock others))
  | .waitCheck target (j :: pending) others =>
      -- the four flags are only written by holders of `park_mutex`, or before registration ends
      if s.mustWaitFor target j then some (s.unlockPark m (.waitSleep target (j :: pending) others))
      else some (s.goto m (.waitCheck target pending others))
  | .waitSleep target pending others => s.lockPark m (.waitCheck target pending others)
  | .waitUnlock others => some (s.unlockPark m (.heapLock others))
  | .heapLock others =>
      if s.heapMutex = none then
        if s.heapPoisoned then some (s.goto m (.guardLock true))
        else some ({ s with heapMutex := some m }.goto m (.collecting others))
      else none
  | .visiting (j :: pending) others f =>
      some ((s.visitSnapshot j f).goto m (.visiting pending others f))
  | .visiting [] _ f =>
      some ((s.recordCycle m f).goto m (.heapUnlock false))
  | .heapUnlock unwinding =>
      some ({ s with heapMutex := none, heapPoisoned := s.heapPoisoned || unwinding }.goto m
        (.guardLock unwinding))
  | .guardLock unwinding => s.lockPark m (.guardWorld unwinding)
  | .guardWorld unwinding => some ({ s with worldRunning := true }.goto m (.guardFlag unwinding))
  | .guardFlag unwinding =>
      some ((s.setInner m fun i => { i with isActingCoordinator := false }).goto m
        (.guardUnlock unwinding))
  | .guardUnlock unwinding => some (s.unlockPark m (.coordUnlock unwinding))
  | .coordUnlock unwinding =>
      some ({ s with coordMutex := none, coordPoisoned := s.coordPoisoned || unwinding }.goto m
        (if unwinding then .unwound else .collectCopy))
  | .collectCopy => some (s.copyRoots m)
  -- the client catches the unwind
  | .unwound => some (s.goto m .running)
  | .dropLock => s.lockPark m .dropInactive
  | .dropInactive =>
      some ((s.setInner m fun i => { i with isActive := false }).goto m .dropUnlock)
  | .dropUnlock => some (s.unlockPark m .dropSlot)
  | .dropSlot =>
      some ({ s with slots := Registry.deregister s.slots (s.thread m).slot }.goto m .dropped)
  | _ => none

/-- One step of thread `m`. -/
def step (s : Coordinator) (m : MutatorId) (a : Action) : Option Coordinator :=
  match a, s.pc m with
  | .register, .unregistered =>
      if s.heapMutex = none ∧ s.heapPoisoned = false then some (s.goto m .registerCoord) else none
  | .next, pc => s.advance m pc
  | .leaveNative, .native => some (s.goto m .leaveLock)
  | .drop, .native => some (s.goto m .dropLock)
  | .drop, .unwound => some (s.goto m .dropLock)
  -- the combined visitor shows the driver's own closure first
  | .relocate f, .collecting others =>
      some (s.setThread m fun t =>
        { t with
          pc := .visiting others others f
          extra := t.extra.map f
          presented := s.cycles.length :: t.presented })
  -- phase 1 can run out of memory before the first sweep over the roots or after the last one
  | .panic, .collecting _ => some (s.goto m (.heapUnlock true))
  | .panic, .visiting [] _ f =>
      some ((s.recordCycle m f).goto m (.heapUnlock true))
  | a, .running => s.call m a
  | _, _ => none

/-- The states any interleaving reaches. -/
inductive Reachable : Coordinator → Prop
  | init (inner : MutatorId → MutatorInner) : Reachable (init inner)
  | step {s s' : Coordinator} (m : MutatorId) (a : Action) (hs : Reachable s)
      (hstep : s.step m a = some s') : Reachable s'

/-- Take a list of steps. -/
def run (s : Coordinator) : List (MutatorId × Action) → Option Coordinator
  | [] => some s
  | (m, a) :: rest =>
      match s.step m a with
      | some s' => run s' rest
      | none => none

/-- `n` operations of one thread. -/
def nexts (m : MutatorId) (n : Nat) : List (MutatorId × Action) := List.replicate n (m, .next)

theorem run_reachable {s s' : Coordinator} {l : List (MutatorId × Action)} (hs : Reachable s)
    (hrun : s.run l = some s') : Reachable s' := by
  induction l generalizing s with
  | nil =>
      cases hrun
      exact hs
  | cons e l ih =>
      simp only [run] at hrun
      cases hstep : s.step e.1 e.2 with
      | none => simp [hstep] at hrun
      | some next =>
          rw [hstep] at hrun
          exact ih (hs.step e.1 e.2 hstep) hrun

end Coordinator

end NewGc
