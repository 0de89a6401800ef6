import NewGc.Safepoint

/-!
# Handshake — what one step of a thread can do

Where a thread is decides which locks it holds, which of its flags are set and whether its
allocation buffers are empty.  Each lemma goes once through the operations of the protocol.
-/

namespace NewGc

open Coordinator

/-! ## Where a thread is -/

namespace Pc

/-- Inside a `park_mutex` section. -/
def holdsPark : Pc → Bool
  | .parkAnnounce _ | .parkEpoch _ | .parkWorld _ | .parkUnlock | .enterState | .enterUnlock
  | .leaveWorld | .leaveEpoch | .leaveState | .leaveUnlock | .announceFlag | .announceUnlock
  | .stopEpoch | .stopLast _ | .stopWorld _ | .stopUnlock _ | .waitCheck _ _ _ | .waitUnlock _
  | .guardWorld _ | .guardFlag _ | .guardUnlock _ | .dropInactive | .dropUnlock => true
  | _ => false

/-- Inside a `coord_mutex` section. -/
def holdsCoord : Pc → Bool
  | .registerEpoch | .registerSlot _ | .registerUnlock | .stopLock | .stopEpoch | .stopLast _
  | .stopWorld _ | .stopUnlock _ | .registrySnapshot _ | .waitLock _ _ _ | .waitCheck _ _ _
  | .waitSleep _ _ _ | .waitUnlock _ | .heapLock _ | .collecting _ | .visiting _ _ _
  | .heapUnlock _ | .guardLock _ | .guardWorld _ | .guardFlag _ | .guardUnlock _
  | .coordUnlock _ => true
  | _ => false

/-- Inside a section of the heap mutex. -/
def holdsHeap : Pc → Bool
  | .refillCarve _ | .collecting _ | .visiting _ _ _ | .heapUnlock _ => true
  | _ => false

/-- Between the store that stops the world and the store that resumes it. -/
def stopsWorld : Pc → Bool
  | .stopUnlock _ | .registrySnapshot _ | .waitLock _ _ _ | .waitCheck _ _ _ | .waitSleep _ _ _
  | .waitUnlock _ | .heapLock _ | .collecting _ | .visiting _ _ _ | .heapUnlock _ | .guardLock _
  | .guardWorld _ => true
  | _ => false

/-- Between the epoch bump and the store that resumes the world. -/
def hasBumped : Pc → Bool
  | .stopLast _ | .stopWorld _ => true
  | pc => pc.stopsWorld

/-- Between the end of the wait loop and the drop of the `ResumeGuard`. -/
def collects : Pc → Bool
  | .waitUnlock _ | .heapLock _ | .collecting _ | .visiting _ _ _ | .heapUnlock _ | .guardLock _
  | .guardWorld _ => true
  | _ => false

/-- The epoch a thread blocked in `park` has announced. -/
def parkedAt : Pc → Option Nat
  | .parkEpoch cur | .parkWorld cur | .parkWait cur => some cur
  | _ => none

/-- The epoch a thread on its way into `park` will announce. -/
def parkTarget : Pc → Option Nat
  | .parkPublish t | .parkFlush t | .parkLock t | .parkAnnounce t | .registerSlot t => some t
  | _ => none

/-- The epoch a driver waits for. -/
def driverTarget : Pc → Option Nat
  | .stopLast t | .stopWorld t | .stopUnlock t | .registrySnapshot t | .waitLock t _ _
  | .waitCheck t _ _ | .waitSleep t _ _ => some t
  | _ => none

/-- The mutators a driver in or past its wait loop has yet to see stopped. -/
def awaits : Pc → Option (List MutatorId)
  | .waitLock _ pending _ | .waitCheck _ pending _ | .waitSleep _ pending _ => some pending
  | .waitUnlock _ | .heapLock _ | .collecting _ | .visiting _ _ _ | .heapUnlock _ | .guardLock _
  | .guardWorld _ => some []
  | _ => none

/-- The mutators a driver found in the registry. -/
def roster : Pc → Option (List MutatorId)
  | .waitLock _ _ others | .waitCheck _ _ others | .waitSleep _ _ others | .waitUnlock others
  | .heapLock others | .collecting others | .visiting _ others _ => some others
  | _ => none

/-- Is the handle alive? -/
def active : Pc → Bool
  | .unregistered | .registerCoord | .registerEpoch | .registerSlot _ | .dropUnlock | .dropSlot
  | .dropped => false
  | _ => true

/-- Does the registry hold the handle's slot? -/
def inRegistry : Pc → Bool
  | .unregistered | .registerCoord | .registerEpoch | .registerSlot _ | .dropped => false
  | _ => true

/-- Between the store of `IN_NATIVE` and the store of `IN_DYLAN`. -/
def inNative : Pc → Bool
  | .enterUnlock | .native | .leaveLock | .leaveWorld | .leaveWait | .leaveEpoch
  | .leaveState => true
  | _ => false

/-- Dropping a live handle. -/
def dropping : Pc → Bool
  | .dropLock | .dropInactive => true
  | _ => false

/-- Between the two stores of `is_acting_coordinator`. -/
def flagged : Pc → Bool
  | .announceUnlock | .coordLock => true
  | .stopLock | .stopEpoch | .stopLast _ | .stopWorld _ | .stopUnlock _ | .registrySnapshot _
  | .waitLock _ _ _ | .waitCheck _ _ _ | .waitSleep _ _ _ | .waitUnlock _ | .heapLock _
  | .collecting _ | .visiting _ _ _ | .heapUnlock _ | .guardLock _ | .guardWorld _
  | .guardFlag _ => true
  | _ => false

/-- Past `flush_tlabs`, and not yet back in the caller's code. -/
def flushed : Pc → Bool
  | .parkLock _ | .parkAnnounce _ | .parkEpoch _ | .parkWorld _ | .parkWait _ | .parkUnlock
  | .parkCopy | .enterLock | .enterState | .enterUnlock | .native | .leaveLock | .leaveWorld
  | .leaveWait | .leaveEpoch | .leaveState | .leaveUnlock | .leaveCopy | .announceLock
  | .announceFlag | .announceUnlock | .coordLock | .stopLock | .stopEpoch | .stopLast _
  | .stopWorld _ | .stopUnlock _ | .registrySnapshot _ | .waitLock _ _ _ | .waitCheck _ _ _
  | .waitSleep _ _ _ | .waitUnlock _ | .heapLock _ | .collecting _ | .visiting _ _ _
  | .heapUnlock _ | .guardLock _ | .guardWorld _ | .guardFlag _ | .guardUnlock _ | .coordUnlock _
  | .collectCopy => true
  | _ => false

/-- In foreign code, or on the way out of it before `park_mutex` shows a running world. -/
def abroad : Pc → Bool
  | .native | .leaveLock | .leaveWorld | .leaveWait => true
  | _ => false

theorem holdsCoord_of_driverTarget {pc : Pc} {t : Nat} (h : pc.driverTarget = some t) :
    pc.holdsCoord = true := by
  cases pc <;> simp_all [Pc.driverTarget, Pc.holdsCoord]

theorem holdsCoord_of_hasBumped {pc : Pc} (h : pc.hasBumped = true) : pc.holdsCoord = true := by
  cases pc <;> simp_all [Pc.hasBumped, Pc.stopsWorld, Pc.holdsCoord]

theorem hasBumped_of_stopsWorld {pc : Pc} (h : pc.stopsWorld = true) : pc.hasBumped = true := by
  cases pc <;> simp_all [Pc.hasBumped, Pc.stopsWorld]

theorem stopsWorld_of_awaits {pc : Pc} {pending : List MutatorId} (h : pc.awaits = some pending) :
    pc.stopsWorld = true := by
  cases pc <;> simp_all [Pc.awaits, Pc.stopsWorld]

theorem stopsWorld_of_collects {pc : Pc} (h : pc.collects = true) : pc.stopsWorld = true := by
  cases pc <;> simp_all [Pc.collects, Pc.stopsWorld]

theorem awaits_of_collects {pc : Pc} (h : pc.collects = true) : pc.awaits = some [] := by
  cases pc <;> simp_all [Pc.collects, Pc.awaits]

theorem holdsCoord_of_roster {pc : Pc} {others : List MutatorId} (h : pc.roster = some others) :
    pc.holdsCoord = true := by
  cases pc <;> simp_all [Pc.roster, Pc.holdsCoord]

end Pc

namespace Coordinator

/-! ## One step -/

section Updates

variable (s : Coordinator) (m : MutatorId) (pc : Pc)

@[simp] theorem pc_goto : (s.goto m pc).pc m = pc := by
  simp [goto, setThread, Coordinator.pc]

@[simp] theorem pc_setThread (f : Thread → Thread) :
    (s.setThread m f).pc m = (f (s.thread m)).pc := by
  simp [setThread, Coordinator.pc]

@[simp] theorem pc_unlockPark : (s.unlockPark m pc).pc m = pc := pc_goto _ m pc

@[simp] theorem pc_publish : (s.publish m pc).pc m = pc := by
  simp [publish]

@[simp] theorem pc_flushTlabs : (s.flushTlabs m pc).pc m = pc := by
  simp [flushTlabs]

@[simp] theorem pc_copyRoots : (s.copyRoots m).pc m = .running := by
  simp [copyRoots]

theorem step_elim {s s' : Coordinator} {m : MutatorId} {a : Action} {P : Prop}
    (h : s.step m a = some s')
    (register : s.pc m = .unregistered → s' = s.goto m .registerCoord → P)
    (advance : s.advance m (s.pc m) = some s' → P)
    (leave : s.pc m = .native → s' = s.goto m .leaveLock → P)
    (drop : s.pc m = .native ∨ s.pc m = .unwound → s' = s.goto m .dropLock → P)
    (relocate : ∀ others f, s.pc m = .collecting others →
      s' = s.setThread m (fun t =>
        { t with
          pc := .visiting others others f
          extra := t.extra.map f
          presented := s.cycles.length :: t.presented }) → P)
    (panicEarly : ∀ others, s.pc m = .collecting others → s' = s.goto m (.heapUnlock true) → P)
    (panicLate : ∀ others f, s.pc m = .visiting [] others f →
      s' = (s.recordCycle m f).goto m (.heapUnlock true) → P)
    (call : s.pc m = .running → s.call m a = some s' → P) : P := by
  unfold step at h
  split at h
  · split at h
    · exact register (by assumption) (by simpa using h.symm)
    · cases h
  · exact advance h
  · exact leave (by assumption) (by simpa using h.symm)
  · exact drop (Or.inl (by assumption)) (by simpa using h.symm)
  · exact drop (Or.inr (by assumption)) (by simpa using h.symm)
  · exact relocate _ _ (by assumption) (by simpa using h.symm)
  · exact panicEarly _ (by assumption) (by simpa using h.symm)
  · exact panicLate _ _ (by assumption) (by simpa using h.symm)
  · exact call (by assumption) h
  · cases h

section VisitSnapshot

variable (i j : MutatorId) (f : Word → Word)

theorem visitSnapshot_inner : ((s.visitSnapshot i f).inner j) = s.inner j ∨
    ((s.inner j).isActive = true ∧ (s.visitSnapshot i f).inner j =
      { s.inner j with rootsSnapshot := (s.inner j).rootsSnapshot.map f }) := by
  by_cases hj : j = i
  · subst hj
    cases hactive : (s.inner j).isActive <;> simp [visitSnapshot, hactive]
  · exact Or.inl (by simp [visitSnapshot, hj])

@[simp] theorem visitSnapshot_isActive :
    ((s.visitSnapshot i f).inner j).isActive = (s.inner j).isActive := by
  rcases visitSnapshot_inner s i j f with h | ⟨-, h⟩ <;> rw [h]

@[simp] theorem visitSnapshot_state :
    ((s.visitSnapshot i f).inner j).state = (s.inner j).state := by
  rcases visitSnapshot_inner s i j f with h | ⟨-, h⟩ <;> rw [h]

@[simp] theorem visitSnapshot_isActingCoordinator :
    ((s.visitSnapshot i f).inner j).isActingCoordinator = (s.inner j).isActingCoordinator := by
  rcases visitSnapshot_inner s i j f with h | ⟨-, h⟩ <;> rw [h]

@[simp] theorem visitSnapshot_lastEpoch :
    ((s.visitSnapshot i f).inner j).lastEpoch = (s.inner j).lastEpoch := by
  rcases visitSnapshot_inner s i j f with h | ⟨-, h⟩ <;> rw [h]

end VisitSnapshot

/-- A call starts from the client's code and only moves its own thread. -/
theorem call_running {s s' : Coordinator} {m : MutatorId} {a : Action}
    (h : s.call m a = some s') : ∃ f : Thread → Thread, s' = s.setThread m f ∧
      (∀ t, (f t).slot = t.slot) ∧
      (s'.pc m = s.pc m ∨ (∃ b, s'.pc m = .refillLock b) ∨ s'.pc m = .parkPublish s.epoch ∨
        s'.pc m = .enterPublish ∨ s'.pc m = .collectPublish ∨ s'.pc m = .dropLock) := by
  cases a with
  | bump buffer nCells =>
      simp only [call, Option.map_eq_some_iff] at h
      obtain ⟨tlabs, -, rfl⟩ := h
      exact ⟨_, rfl, fun _ => rfl, Or.inl (by simp)⟩
  | refill buffer =>
      obtain rfl := Option.some.inj h
      exact ⟨_, rfl, fun _ => rfl, by simp⟩
  | poll roots =>
      simp only [call] at h
      split at h
      · obtain rfl := Option.some.inj h
        exact ⟨_, rfl, fun _ => rfl, Or.inl (by simp)⟩
      · obtain rfl := Option.some.inj h
        refine ⟨fun t => { t with roots := roots, pc := .parkPublish s.epoch }, ?_, fun _ => rfl, ?_⟩
        · simp [goto, setThread]
        · simp
  | enterNative roots =>
      obtain rfl := Option.some.inj h
      exact ⟨_, rfl, fun _ => rfl, by simp⟩
  | collect roots extra =>
      obtain rfl := Option.some.inj h
      exact ⟨_, rfl, fun _ => rfl, by simp⟩
  | drop =>
      obtain rfl := Option.some.inj h
      exact ⟨_, rfl, fun _ => rfl, by simp⟩
  | _ => cases h

end Updates

/-! ## Frames -/

section Frames

variable {s s' : Coordinator} {m j : MutatorId} {a : Action}

theorem advance_thread (h : s.advance m (s.pc m) = some s') (hj : j ≠ m) :
    s'.thread j = s.thread j := by
  cases hpc : s.pc m <;> rw [hpc] at h <;> simp only [advance, lockPark] at h
  case visiting pending others f =>
    cases pending <;> cases h <;> simp [visitSnapshot, hj]
  case waitCheck t pending others =>
    cases pending with
    | nil =>
        cases h
        simp [hj]
    | cons j' pending =>
        dsimp only at h
        split at h <;> cases h <;> simp [hj]
  all_goals repeat' split at h
  all_goals cases h
  all_goals simp [hj]

/-- A step moves one thread. -/
theorem step_thread (h : s.step m a = some s') (hj : j ≠ m) : s'.thread j = s.thread j := by
  apply step_elim h
  · rintro - rfl
    simp [hj]
  · exact fun h => advance_thread h hj
  · rintro - rfl
    simp [hj]
  · rintro - rfl
    simp [hj]
  · rintro others f - rfl
    simp [hj]
  · rintro others - rfl
    simp [hj]
  · rintro others f - rfl
    simp [hj]
  · intro _ h
    obtain ⟨f, rfl, -⟩ := call_running h
    simp [hj]

theorem step_pc (h : s.step m a = some s') (hj : j ≠ m) : s'.pc j = s.pc j := by
  unfold Coordinator.pc
  rw [step_thread h hj]

/-- What a thread's step may do to the shared part of another mutator: the evacuator rewrites the
snapshot it is shown. -/
def Shown (s : Coordinator) (m j : MutatorId) (i : MutatorInner) : Prop :=
  ∃ pending others f, s.pc m = .visiting (j :: pending) others f ∧ (s.inner j).isActive = true ∧
    i = { s.inner j with rootsSnapshot := (s.inner j).rootsSnapshot.map f }

theorem advance_inner (h : s.advance m (s.pc m) = some s') (hj : j ≠ m) :
    s'.inner j = s.inner j ∨ Shown s m j (s'.inner j) := by
  cases hpc : s.pc m <;> rw [hpc] at h <;> simp only [advance, lockPark] at h
  case visiting pending others f =>
    cases pending with
    | nil =>
        cases h
        exact Or.inl rfl
    | cons j' pending =>
        cases h
        by_cases hj' : j = j'
        · subst hj'
          cases hactive : (s.inner j).isActive with
          | false => exact Or.inl (by simp [visitSnapshot, hactive])
          | true => exact Or.inr ⟨pending, others, f, hpc, hactive, by simp [visitSnapshot, hactive]⟩
        · exact Or.inl (by simp [visitSnapshot, hj'])
  case waitCheck t pending others =>
    cases pending with
    | nil =>
        cases h
        exact Or.inl rfl
    | cons j' pending =>
        dsimp only at h
        split at h <;> cases h <;> exact Or.inl rfl
  all_goals repeat' split at h
  all_goals cases h
  all_goals left
  all_goals simp [hj]

theorem step_inner (h : s.step m a = some s') (hj : j ≠ m) :
    s'.inner j = s.inner j ∨ Shown s m j (s'.inner j) := by
  apply step_elim h
  · rintro - rfl
    exact Or.inl rfl
  · exact fun h => advance_inner h hj
  · rintro - rfl
    exact Or.inl rfl
  · rintro - rfl
    exact Or.inl rfl
  · rintro others f - rfl
    exact Or.inl rfl
  · rintro others - rfl
    exact Or.inl rfl
  · rintro others f - rfl
    exact Or.inl rfl
  · intro _ h
    obtain ⟨f, rfl, -⟩ := call_running h
    exact Or.inl rfl

end Frames

/-! ## Locks -/

/-- What one step does to a lock and to whether its thread holds it. -/
def LockStep (m : MutatorId) (held held' : Option MutatorId) (before after : Bool) : Prop :=
  (held' = held ∧ after = before) ∨ (held = none ∧ held' = some m ∧ after = true) ∨
    (before = true ∧ held' = none ∧ after = false)

/-- A lock is held by the thread that is inside its section. -/
def Owned (s : Coordinator) (held : Option MutatorId) (holds : Pc → Bool) : Prop :=
  ∀ j, held = some j ↔ holds (s.pc j) = true

theorem Owned.unique {s : Coordinator} {held : Option MutatorId} {holds : Pc → Bool}
    (hO : Owned s held holds) {i j : MutatorId} (hi : holds (s.pc i) = true)
    (hj : holds (s.pc j) = true) : i = j := by
  have h := (hO i).2 hi
  rw [(hO j).2 hj] at h
  exact (Option.some.inj h).symm

/-- A lock stays with the thread inside its section. -/
theorem Owned.step {s s' : Coordinator} {m : MutatorId} {a : Action} {held held' : Option MutatorId}
    {holds : Pc → Bool} (hO : Owned s held holds) (h : s.step m a = some s')
    (hlock : LockStep m held held' (holds (s.pc m)) (holds (s'.pc m))) :
    Owned s' held' holds := by
  intro j
  by_cases hj : j = m
  · subst hj
    have hm := hO j
    rcases hlock with ⟨h₁, h₂⟩ | ⟨h₁, h₂, h₃⟩ | ⟨h₁, h₂, h₃⟩
    · rw [h₁, h₂]
      exact hm
    · simp [h₂, h₃]
    · simp [h₂, h₃]
  · rw [step_pc h hj, ← hO j]
    rcases hlock with ⟨h₁, h₂⟩ | ⟨h₁, h₂, h₃⟩ | ⟨h₁, h₂, h₃⟩
    · rw [h₁]
    · simp [h₁, h₂, Ne.symm hj]
    · have hm := (hO m).2 h₁
      simp [hm, h₂, Ne.symm hj]

section Locks

variable {s s' : Coordinator} {m : MutatorId} {a : Action}

theorem advance_locks (h : s.advance m (s.pc m) = some s') :
    LockStep m s.parkMutex s'.parkMutex (s.pc m).holdsPark (s'.pc m).holdsPark ∧
    LockStep m s.coordMutex s'.coordMutex (s.pc m).holdsCoord (s'.pc m).holdsCoord ∧
    LockStep m s.heapMutex s'.heapMutex (s.pc m).holdsHeap (s'.pc m).holdsHeap := by
  cases hpc : s.pc m <;> rw [hpc] at h <;> simp only [advance, lockPark] at h
  case coordUnlock unwinding =>
    cases unwinding <;> cases h <;> simp [LockStep, Pc.holdsPark, Pc.holdsCoord, Pc.holdsHeap]
  case visiting pending others f =>
    cases pending <;> cases h <;>
      simp [LockStep, Pc.holdsPark, Pc.holdsCoord, Pc.holdsHeap, visitSnapshot]
  case waitCheck t pending others =>
    cases pending with
    | nil =>
        cases h
        simp [LockStep, Pc.holdsPark, Pc.holdsCoord, Pc.holdsHeap]
    | cons j pending =>
        dsimp only at h
        split at h <;> cases h <;> simp [LockStep, Pc.holdsPark, Pc.holdsCoord, Pc.holdsHeap]
  all_goals repeat' split at h
  all_goals cases h
  all_goals simp [LockStep, Pc.holdsPark, Pc.holdsCoord, Pc.holdsHeap, *]

/-- Every lock is taken and released by the thread whose section it guards. -/
theorem step_locks (h : s.step m a = some s') :
    LockStep m s.parkMutex s'.parkMutex (s.pc m).holdsPark (s'.pc m).holdsPark ∧
    LockStep m s.coordMutex s'.coordMutex (s.pc m).holdsCoord (s'.pc m).holdsCoord ∧
    LockStep m s.heapMutex s'.heapMutex (s.pc m).holdsHeap (s'.pc m).holdsHeap := by
  apply step_elim h
  · rintro hpc rfl
    simp [LockStep, hpc, Pc.holdsPark, Pc.holdsCoord, Pc.holdsHeap]
  · exact advance_locks
  · rintro hpc rfl
    simp [LockStep, hpc, Pc.holdsPark, Pc.holdsCoord, Pc.holdsHeap]
  · rintro (hpc | hpc) rfl <;>
      simp [LockStep, hpc, Pc.holdsPark, Pc.holdsCoord, Pc.holdsHeap]
  · rintro others f hpc rfl
    simp [LockStep, hpc, Pc.holdsPark, Pc.holdsCoord, Pc.holdsHeap]
  · rintro others hpc rfl
    simp [LockStep, hpc, Pc.holdsPark, Pc.holdsCoord, Pc.holdsHeap]
  · rintro others f hpc rfl
    simp [LockStep, hpc, Pc.holdsPark, Pc.holdsCoord, Pc.holdsHeap]
  · intro hpc h
    obtain ⟨f, rfl, -, hpc'⟩ := call_running h
    rcases hpc' with h' | ⟨b, h'⟩ | h' | h' | h' | h' <;> rw [h'] <;>
      simp [LockStep, hpc, Pc.holdsPark, Pc.holdsCoord, Pc.holdsHeap]

/-- A poisoned `coord_mutex` is never taken again. -/
theorem step_poisoned (h : s.step m a = some s') :
    (s.coordPoisoned = true → s'.coordPoisoned = true) ∧
    (s.coordPoisoned = true → s.coordMutex = none → s'.coordMutex = none) ∧
    (s'.coordPoisoned = true → s.coordPoisoned = true ∨ s'.coordMutex = none) := by
  apply step_elim h
  · rintro - rfl
    exact ⟨id, fun _ => id, Or.inl⟩
  · intro h
    cases hpc : s.pc m <;> rw [hpc] at h <;> simp only [advance, lockPark] at h
    case visiting pending others f =>
      cases pending <;> cases h <;> simp +contextual [visitSnapshot]
    case waitCheck t pending others =>
      cases pending with
      | nil =>
          cases h
          simp +contextual
      | cons j pending =>
          dsimp only at h
          split at h <;> cases h <;> simp +contextual
    all_goals repeat' split at h
    all_goals cases h
    all_goals simp +contextual [*]
  · rintro - rfl
    exact ⟨id, fun _ => id, Or.inl⟩
  · rintro - rfl
    exact ⟨id, fun _ => id, Or.inl⟩
  · rintro others f - rfl
    exact ⟨id, fun _ => id, Or.inl⟩
  · rintro others - rfl
    exact ⟨id, fun _ => id, Or.inl⟩
  · rintro others f - rfl
    exact ⟨id, fun _ => id, Or.inl⟩
  · intro _ h
    obtain ⟨f, rfl, -⟩ := call_running h
    exact ⟨id, fun _ => id, Or.inl⟩

end Locks

/-! ## Stopping and resuming the world -/

/-- What one step does to the epoch and to `world_running`. -/
inductive WorldStep (s s' : Coordinator) (m : MutatorId) : Prop
  | same (hepoch : s'.epoch = s.epoch) (hworld : s'.worldRunning = s.worldRunning)
      (hstops : (s'.pc m).stopsWorld = (s.pc m).stopsWorld)
      (hbumped : (s'.pc m).hasBumped = (s.pc m).hasBumped)
  | bump (hpc : s.pc m = .stopEpoch) (hepoch : s'.epoch = s.epoch + 1)
      (hworld : s'.worldRunning = s.worldRunning) (hpc' : s'.pc m = .stopLast (s.epoch + 1))
  | stop (t : Nat) (hpc : s.pc m = .stopWorld t) (hepoch : s'.epoch = s.epoch)
      (hworld : s'.worldRunning = false) (hpc' : s'.pc m = .stopUnlock t)
  | resume (u : Bool) (hpc : s.pc m = .guardWorld u) (hepoch : s'.epoch = s.epoch)
      (hworld : s'.worldRunning = true) (hpc' : s'.pc m = .guardFlag u)

section World

variable {s s' : Coordinator} {m : MutatorId} {a : Action}

theorem advance_world (h : s.advance m (s.pc m) = some s') : WorldStep s s' m := by
  cases hpc : s.pc m <;> rw [hpc] at h <;> simp only [advance, lockPark] at h
  case stopEpoch =>
    cases h
    exact .bump hpc rfl rfl (by simp)
  case stopWorld t =>
    cases h
    exact .stop t hpc rfl rfl (by simp)
  case guardWorld u =>
    cases h
    exact .resume u hpc rfl rfl (by simp)
  case coordUnlock unwinding =>
    cases unwinding <;> cases h <;> apply WorldStep.same <;>
      simp [hpc, Pc.stopsWorld, Pc.hasBumped]
  case visiting pending others f =>
    cases pending <;> cases h <;> apply WorldStep.same <;>
      simp [hpc, Pc.stopsWorld, Pc.hasBumped, visitSnapshot]
  case waitCheck t pending others =>
    cases pending with
    | nil =>
        cases h
        apply WorldStep.same <;> simp [hpc, Pc.stopsWorld, Pc.hasBumped]
    | cons j pending =>
        dsimp only at h
        split at h <;> cases h <;> apply WorldStep.same <;>
          simp [hpc, Pc.stopsWorld, Pc.hasBumped]
  all_goals repeat' split at h
  all_goals cases h
  all_goals apply WorldStep.same <;> simp [hpc, Pc.stopsWorld, Pc.hasBumped]

theorem step_world (h : s.step m a = some s') : WorldStep s s' m := by
  apply step_elim h
  · rintro hpc rfl
    apply WorldStep.same <;> simp [hpc, Pc.stopsWorld, Pc.hasBumped]
  · exact advance_world
  · rintro hpc rfl
    apply WorldStep.same <;> simp [hpc, Pc.stopsWorld, Pc.hasBumped]
  · rintro (hpc | hpc) rfl <;> apply WorldStep.same <;>
      simp [hpc, Pc.stopsWorld, Pc.hasBumped]
  · rintro others f hpc rfl
    apply WorldStep.same <;> simp [hpc, Pc.stopsWorld, Pc.hasBumped]
  · rintro others hpc rfl
    apply WorldStep.same <;> simp [hpc, Pc.stopsWorld, Pc.hasBumped]
  · rintro others f hpc rfl
    apply WorldStep.same <;> simp [hpc, Pc.stopsWorld, Pc.hasBumped]
  · intro hpc h
    obtain ⟨f, rfl, -, hpc'⟩ := call_running h
    apply WorldStep.same
    · rfl
    · rfl
    all_goals rcases hpc' with h' | ⟨b, h'⟩ | h' | h' | h' | h' <;> rw [h'] <;>
      simp [hpc, Pc.stopsWorld, Pc.hasBumped]

theorem WorldStep.epoch_le (h : WorldStep s s' m) : s.epoch ≤ s'.epoch := by
  cases h <;> omega

end World

/-! ## What a thread knows about itself -/

/-- A thread's flags, buffers and epochs agree with where it is. -/
structure ThreadOk (s : Coordinator) (j : MutatorId) : Prop where
  active : (s.inner j).isActive = (s.pc j).active
  native : (s.pc j).inNative = true → (s.inner j).state = .inNative
  foreign : (s.pc j).active = true → (s.inner j).state = .inNative →
    (s.pc j).inNative = true ∨ (s.pc j).dropping = true
  flag : (s.pc j).flagged = true → (s.inner j).isActingCoordinator = true
  driver : (s.pc j).active = true → (s.inner j).isActingCoordinator = true →
    (s.pc j).flagged = true ∨ s.coordPoisoned = true
  flushed : (s.pc j).flushed = true → (s.thread j).tlabs = []
  epoch : (s.pc j).active = true → (s.inner j).lastEpoch ≤ s.epoch
  parked : ∀ cur, (s.pc j).parkedAt = some cur → (s.inner j).lastEpoch = cur
  target : ∀ t, (s.pc j).parkTarget = some t → t ≤ s.epoch
  bumped : ∀ t, (s.pc j).driverTarget = some t → t = s.epoch

section OwnStep

variable {s s' : Coordinator} {m : MutatorId} {a : Action}

theorem ThreadOk.advance (hT : ThreadOk s m) (h : s.advance m (s.pc m) = some s') :
    ThreadOk s' m := by
  obtain ⟨hactive, hnative, hforeign, hflag, hdriver, hflushed, hepoch, hparked, htarget,
    hbumped⟩ := hT
  cases hpc : s.pc m
  all_goals
    rw [hpc] at h hactive hnative hforeign hflag hdriver hflushed hepoch hparked htarget hbumped
    simp only [Coordinator.advance, lockPark] at h
    simp only [Pc.active, Pc.inNative, Pc.dropping, Pc.flagged, Pc.flushed, Pc.parkedAt,
      Pc.parkTarget, Pc.driverTarget, forall_const, reduceCtorEq, false_implies, Option.some.injEq,
      forall_eq', or_false, false_or, true_or, or_true, Bool.false_eq_true, implies_true]
      at hactive hnative hforeign hflag hdriver hflushed hepoch hparked htarget hbumped
  case visiting pending others f =>
    cases pending <;> cases h <;> constructor <;>
      simp_all [Pc.active, Pc.inNative, Pc.dropping, Pc.flagged, Pc.flushed,
        Pc.parkedAt, Pc.parkTarget, Pc.driverTarget]
  case coordUnlock unwinding =>
    cases unwinding <;> cases h <;> constructor <;>
      simp_all [Pc.active, Pc.inNative, Pc.dropping, Pc.flagged, Pc.flushed,
        Pc.parkedAt, Pc.parkTarget, Pc.driverTarget]
  case waitCheck t pending others =>
    cases pending with
    | nil =>
        cases h
        constructor <;> simp_all [Pc.active, Pc.inNative, Pc.dropping, Pc.flagged, Pc.flushed,
          Pc.parkedAt, Pc.parkTarget, Pc.driverTarget]
    | cons j pending =>
        dsimp only at h
        split at h <;> cases h <;> constructor <;>
          simp_all [Pc.active, Pc.inNative, Pc.dropping, Pc.flagged, Pc.flushed,
            Pc.parkedAt, Pc.parkTarget, Pc.driverTarget]
  case stopEpoch =>
    cases h
    constructor <;> simp_all [Pc.active, Pc.inNative, Pc.dropping, Pc.flagged, Pc.flushed,
      Pc.parkedAt, Pc.parkTarget, Pc.driverTarget]
    omega
  all_goals repeat' split at h
  all_goals cases h
  all_goals constructor <;>
    simp_all [Pc.active, Pc.inNative, Pc.dropping, Pc.flagged, Pc.flushed,
        Pc.parkedAt, Pc.parkTarget, Pc.driverTarget]

/-- A thread's own step keeps it so. -/
theorem ThreadOk.own (hT : ThreadOk s m) (h : s.step m a = some s') : ThreadOk s' m := by
  have hflags := hT
  obtain ⟨hactive, hnative, hforeign, hflag, hdriver, hflushed, hepoch, hparked, htarget,
    hbumped⟩ := hT
  apply step_elim h
  · rintro hpc rfl
    rw [hpc] at hactive
    constructor <;> simp_all [Pc.active, Pc.inNative, Pc.dropping, Pc.flagged, Pc.flushed,
      Pc.parkedAt, Pc.parkTarget, Pc.driverTarget]
  · exact hflags.advance
  · rintro hpc rfl
    constructor <;> simp_all [Pc.active, Pc.inNative, Pc.dropping, Pc.flagged, Pc.flushed,
      Pc.parkedAt, Pc.parkTarget, Pc.driverTarget]
  · rintro (hpc | hpc) rfl <;> constructor <;> simp_all [Pc.active, Pc.inNative, Pc.dropping,
      Pc.flagged, Pc.flushed, Pc.parkedAt, Pc.parkTarget, Pc.driverTarget]
  · rintro others f hpc rfl
    constructor <;> simp_all [Pc.active, Pc.inNative, Pc.dropping, Pc.flagged, Pc.flushed,
      Pc.parkedAt, Pc.parkTarget, Pc.driverTarget]
  · rintro others hpc rfl
    constructor <;> simp_all [Pc.active, Pc.inNative, Pc.dropping, Pc.flagged, Pc.flushed,
      Pc.parkedAt, Pc.parkTarget, Pc.driverTarget]
  · rintro others f hpc rfl
    constructor <;> simp_all [Pc.active, Pc.inNative, Pc.dropping, Pc.flagged, Pc.flushed,
      Pc.parkedAt, Pc.parkTarget, Pc.driverTarget]
  · intro hpc h
    obtain ⟨f, rfl, -, hpc'⟩ := call_running h
    have hinner : (s.setThread m f).inner = s.inner := rfl
    have hepoch' : (s.setThread m f).epoch = s.epoch := rfl
    rcases hpc' with h' | ⟨b, h'⟩ | h' | h' | h' | h' <;>
      constructor <;> simp_all [Pc.active, Pc.inNative, Pc.dropping, Pc.flagged, Pc.flushed,
        Pc.parkedAt, Pc.parkTarget, Pc.driverTarget]

end OwnStep

/-! ## The other threads -/

section OtherStep

variable {s s' : Coordinator} {m j : MutatorId} {a : Action}

/-- Another thread's step keeps a mutator's flags. -/
theorem step_flags (h : s.step m a = some s') (hj : j ≠ m) :
    (s'.inner j).lastEpoch = (s.inner j).lastEpoch ∧ (s'.inner j).isActive = (s.inner j).isActive ∧
    (s'.inner j).isActingCoordinator = (s.inner j).isActingCoordinator ∧
    (s'.inner j).state = (s.inner j).state := by
  rcases step_inner h hj with hsame | ⟨pending, others, f, -, -, hshown⟩
  · rw [hsame]
    exact ⟨rfl, rfl, rfl, rfl⟩
  · rw [hshown]
    exact ⟨rfl, rfl, rfl, rfl⟩

/-- Only a thread that holds `coord_mutex` moves the epoch. -/
theorem step_epoch (h : s.step m a = some s') (hm : (s.pc m).holdsCoord = false) :
    s'.epoch = s.epoch := by
  cases step_world h with
  | same hepoch => exact hepoch
  | bump hpc => simp [hpc, Pc.holdsCoord] at hm
  | stop t hpc hepoch => exact hepoch
  | resume u hpc hepoch => exact hepoch

/-- Another thread's step keeps what a thread knows about itself. -/
theorem ThreadOk.other (hT : ThreadOk s j) (hcoord : Owned s s.coordMutex Pc.holdsCoord)
    (h : s.step m a = some s') (hj : j ≠ m) : ThreadOk s' j := by
  obtain ⟨hlast, hactive, hflag, hstate⟩ := step_flags h hj
  have hpc := step_pc h hj
  have hepoch := (step_world h).epoch_le
  constructor
  · rw [hactive, hpc]
    exact hT.active
  · rw [hstate, hpc]
    exact hT.native
  · rw [hstate, hpc]
    exact hT.foreign
  · rw [hflag, hpc]
    exact hT.flag
  · rw [hflag, hpc]
    exact fun h₁ h₂ => (hT.driver h₁ h₂).imp_right (step_poisoned h).1
  · rw [hpc, step_thread h hj]
    exact hT.flushed
  · rw [hlast, hpc]
    exact fun h₁ => le_trans (hT.epoch h₁) hepoch
  · rw [hlast, hpc]
    exact hT.parked
  · rw [hpc]
    exact fun t ht => le_trans (hT.target t ht) hepoch
  · rw [hpc]
    intro t ht
    -- a driver holds `coord_mutex`, so nobody else can move the epoch
    cases hm : (s.pc m).holdsCoord with
    | true => exact absurd (hcoord.unique (Pc.holdsCoord_of_driverTarget ht) hm) hj
    | false => rw [step_epoch h hm, hT.bumped t ht]

end OtherStep

end Coordinator

end NewGc
