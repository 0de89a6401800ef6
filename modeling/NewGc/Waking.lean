import NewGc.Exclusion
import NewGc.Library.Settling

/-!
# Waking — no thread sleeps through its notification

The handshake in which a condvar wakes its waiters only by `notify_all`.  Every store that another
thread may be waiting for is made under `park_mutex` and followed by a `notify_all` there, so no
waiter needs the timeout of `wait_timeout` or a spurious wake-up: however the operations of the
calls in progress are interleaved, they come to an end, and then every call has returned.
-/

namespace NewGc

open Library Coordinator

/-! ## Where threads sleep and where they wake others -/

namespace Pc

/-- Inside `park_cv.wait` or `park_cv.wait_timeout`. -/
def sleeps : Pc → Bool
  | .parkWait _ | .leaveWait | .waitSleep _ _ _ => true
  | _ => false

/-- The next operation is the last store before a `park_cv.notify_all`. -/
def notifies (epoch : Nat) : Pc → Bool
  | .parkAnnounce _ | .enterState | .announceFlag | .guardFlag _ | .dropInactive => true
  -- a straggler announces itself at the new epoch
  | .parkEpoch cur => decide (epoch ≠ cur)
  | _ => false

/-- Is the thread still to move the epoch, or to enter the registry? -/
def opens : Pc → Nat
  | .registerCoord | .registerEpoch | .registerSlot _ | .collectPublish | .collectFlush
  | .announceLock | .announceFlag | .announceUnlock | .coordLock | .stopLock | .stopEpoch => 1
  | _ => 0

/-- How often the thread may still notify at this epoch; `stale` is 1 where it has yet to announce
the epoch. -/
def notes (epoch stale : Nat) : Pc → Nat
  | .parkPublish t | .parkFlush t | .parkLock t | .parkAnnounce t => 1 + if t = epoch then 0 else 1
  | .parkEpoch cur | .parkWorld cur | .parkWait cur => if cur = epoch then 0 else 1
  | .enterPublish | .enterFlush | .enterLock | .enterState | .dropLock | .dropInactive => 1
  | .collectPublish | .collectFlush | .announceLock | .announceFlag => 1 + stale
  | .stopLast t => 1 + if t = epoch then 0 else 1
  | .stopWorld _ | .stopUnlock _ | .registrySnapshot _ | .waitLock _ _ _ | .waitCheck _ _ _
  | .waitSleep _ _ _ | .waitUnlock _ | .heapLock _ | .collecting _ | .visiting _ _ _
  | .heapUnlock _ | .guardLock _ | .guardWorld _ | .guardFlag _ => 1 + stale
  | .running | .refillLock _ | .refillCarve _ | .parkUnlock | .parkCopy | .registerUnlock
  | .leaveState | .leaveUnlock | .leaveCopy | .announceUnlock | .coordLock | .stopLock | .stopEpoch
  | .guardUnlock _ | .coordUnlock _ | .collectCopy | .unwound => stale
  | _ => 0

/-- How many operations the thread may take without a notification; a thread asleep takes none. -/
def rank (slots : Nat) (woken : Bool) (stale : Nat) : Pc → Nat
  | .running => 5 * stale
  | .parkPublish _ => 4
  | .parkFlush _ => 3
  | .parkLock _ => 2
  | .parkAnnounce _ => 1
  | .parkWait _ => if woken then 11 else 0
  | .parkEpoch _ => 10
  | .parkWorld _ => 9
  | .parkUnlock => 8
  | .parkCopy => 7
  | .registerCoord => 3
  | .registerEpoch => 2
  | .registerSlot _ => 1
  | .registerUnlock => 6
  | .refillLock _ => 7
  | .refillCarve _ | .unwound => 6
  | .enterPublish => 5
  | .enterFlush => 4
  | .enterLock => 3
  | .enterState => 2
  | .enterUnlock => 1
  | .leaveWait => if woken then 11 else 0
  | .leaveLock => 11
  | .leaveWorld => 10
  | .leaveEpoch => 9
  | .leaveState => 8
  | .leaveUnlock => 7
  | .leaveCopy => 6
  | .collectPublish => 8
  | .collectFlush => 7
  | .announceLock => 6
  | .announceFlag => 5
  | .announceUnlock => 4
  | .coordLock => 3
  | .stopLock => 2
  | .stopEpoch => 1
  | .stopLast _ => 22 + 2 * slots
  | .stopWorld _ => 21 + 2 * slots
  | .stopUnlock _ => 20 + 2 * slots
  | .registrySnapshot _ => 19 + 2 * slots
  | .waitLock _ pending others => 18 + others.length + pending.length
  | .waitSleep _ pending others => if woken then 18 + others.length + pending.length else 0
  | .waitCheck _ pending others => 17 + others.length + pending.length
  | .waitUnlock others => 16 + others.length
  | .heapLock others => 15 + others.length
  | .collecting others => 14 + others.length
  | .visiting pending _ _ => 13 + pending.length
  | .heapUnlock _ => 12
  | .guardLock _ => 11
  | .guardWorld _ => 10
  | .guardFlag _ => 9
  | .guardUnlock _ => 8
  | .coordUnlock _ => 7
  | .collectCopy => 6
  | .dropLock => 4
  | .dropInactive => 3
  | .dropUnlock => 2
  | .dropSlot => 1
  | .unregistered | .native | .dropped => 0

end Pc

/-- The handshake with its condvar: `woken` says which waiters a notification has reached. -/
structure Waking where
  state : Coordinator
  woken : MutatorId → Bool

namespace Waking

/-- One step of thread `m`; a thread inside a wait goes on only after a notification. -/
def step (w : Waking) (m : MutatorId) (a : Action) : Option Waking :=
  if (w.state.pc m).sleeps && !w.woken m then none
  else
    (w.state.step m a).map fun s =>
      { state := s
        woken := fun j =>
          if (w.state.pc m).notifies w.state.epoch then true
          else if j = m then false
          else w.woken j }

/-- The states any interleaving reaches; a waiter may also wake by itself. -/
inductive Reachable : Waking → Prop
  | init (inner : MutatorId → MutatorInner) :
      Reachable { state := Coordinator.init inner, woken := fun _ => false }
  | step {w w' : Waking} (m : MutatorId) (a : Action) (hw : Reachable w)
      (hstep : w.step m a = some w') : Reachable w'
  | wake {w : Waking} (m : MutatorId) (hw : Reachable w) :
      Reachable { w with woken := Function.update w.woken m true }

/-- The operations of the calls in progress: the next one of a thread, how a collection goes, and
the poll of a thread that finds a safepoint pending. -/
def inProgress (s : Coordinator) (m : MutatorId) : Action → Prop
  | .next | .relocate _ | .panic => True
  | .poll _ => (s.inner m).lastEpoch ≠ s.epoch
  | _ => False

/-- A step of a call in progress. -/
def Proceeds (w w' : Waking) : Prop :=
  ∃ m a, inProgress w.state m a ∧ w.step m a = some w'

/-- Nobody is inside a call: each thread is in its client's code with no safepoint pending, in
foreign code, gone, or not yet registered.  A thread whose registration ran into the poisoned
`coord_mutex` has panicked there. -/
structure AtRest (s : Coordinator) : Prop where
  park : s.parkMutex = none
  coord : s.coordMutex = none
  heap : s.heapMutex = none
  world : s.worldRunning = true
  thread : ∀ j, s.pc j = .running ∧ (s.inner j).lastEpoch = s.epoch ∨ s.pc j = .native ∨
    s.pc j = .dropped ∨ s.pc j = .unregistered ∨ s.pc j = .registerCoord ∧ s.coordPoisoned = true

section Steps

variable {w w' : Waking} {m j : MutatorId} {a : Action}

/-- A step of the handshake, taken by a thread that is awake. -/
theorem step_iff : w.step m a = some w' ↔
    ((w.state.pc m).sleeps = true → w.woken m = true) ∧ w.state.step m a = some w'.state ∧
      w'.woken = fun j =>
        if (w.state.pc m).notifies w.state.epoch then true
        else if j = m then false
        else w.woken j := by
  unfold step
  constructor
  · intro h
    split at h
    · cases h
    · rename_i hawake
      obtain ⟨s, hs, rfl⟩ := Option.map_eq_some_iff.1 h
      refine ⟨fun hsleeps => ?_, hs, rfl⟩
      simpa [hsleeps] using hawake
  · rintro ⟨hawake, hs, hwoken⟩
    rw [if_neg, hs]
    · cases w'
      cases hwoken
      rfl
    · cases hsleeps : (w.state.pc m).sleeps with
      | false => simp
      | true => simp [hawake hsleeps]

/-- An awake thread steps as the handshake does. -/
theorem step_awake {s : Coordinator} (hawake : (w.state.pc m).sleeps = true → w.woken m = true)
    (hs : w.state.step m a = some s) : ∃ w', w.step m a = some w' ∧ w'.state = s :=
  ⟨Waking.mk s _, step_iff.2 ⟨hawake, hs, rfl⟩, rfl⟩

theorem woken_other (h : w.step m a = some w') (hj : j ≠ m) (hwoken : w'.woken j = false) :
    (w.state.pc m).notifies w.state.epoch = false ∧ w.woken j = false := by
  rw [(step_iff.1 h).2.2] at hwoken
  cases hn : (w.state.pc m).notifies w.state.epoch with
  | true => simp [hn] at hwoken
  | false => exact ⟨rfl, by simpa [hn, hj] using hwoken⟩

end Steps

/-- Only finitely many threads have registered. -/
theorem Reachable.support {w : Waking} (hw : Reachable w) :
    ∃ S : Finset MutatorId, ∀ j, j ∉ S → w.state.pc j = .unregistered := by
  induction hw with
  | init inner => exact ⟨∅, fun _ _ => rfl⟩
  | step m a _ hstep ih =>
      obtain ⟨S, hS⟩ := ih
      refine ⟨insert m S, fun j hj => ?_⟩
      rw [Finset.mem_insert, not_or] at hj
      rw [step_pc (step_iff.1 hstep).2.1 hj.1]
      exact hS j hj.2
  | wake m _ ih => exact ih

/-! ## Nobody sleeps through the store it waits for -/

/-- The world is stopped, or the driver that resumed it has yet to notify. -/
def StillStopped (s : Coordinator) : Prop :=
  s.worldRunning = false ∨ ∃ d unwinding, s.pc d = .guardFlag unwinding

/-- A thread that no notification has reached still waits for something. -/
structure Watched (w : Waking) : Prop where
  inv : Inv w.state
  seen : ∀ j cur, w.state.pc j = .parkWorld cur → cur = w.state.epoch
  park : ∀ j cur, w.state.pc j = .parkWait cur → w.woken j = false →
    cur = w.state.epoch ∧ StillStopped w.state
  leave : ∀ j, w.state.pc j = .leaveWait → w.woken j = false → StillStopped w.state
  drive : ∀ d t pending others, w.state.pc d = .waitSleep t pending others → w.woken d = false →
    ∃ j rest, pending = j :: rest ∧ w.state.mustWaitFor t j = true

section Stores

variable {s s' : Coordinator} {m j d : MutatorId} {a : Action}

/-- A stop is over only once its driver has notified. -/
theorem StillStopped.step (hstop : StillStopped s) (h : s.step m a = some s')
    (hn : (s.pc m).notifies s.epoch = false) : StillStopped s' := by
  have hdriver : ∀ d u, s.pc d = .guardFlag u → s'.pc d = .guardFlag u := by
    intro d u hd
    have hdm : d ≠ m := by
      rintro rfl
      simp [hd, Pc.notifies] at hn
    rw [step_pc h hdm, hd]
  cases step_world h with
  | same hepoch hworld hstops =>
      rcases hstop with hw | ⟨d, u, hd⟩
      · exact Or.inl (hworld.trans hw)
      · exact Or.inr ⟨d, u, hdriver d u hd⟩
  | bump hpc hepoch hworld hpc' =>
      rcases hstop with hw | ⟨d, u, hd⟩
      · exact Or.inl (hworld.trans hw)
      · exact Or.inr ⟨d, u, hdriver d u hd⟩
  | stop t hpc hepoch hworld hpc' => exact Or.inl hworld
  | resume u hpc hepoch hworld hpc' => exact Or.inr ⟨m, u, hpc'⟩

/-- A stop has a driver, and no other thread gets to the next one. -/
theorem StillStopped.driver (hI : Inv s) (hstop : StillStopped s) :
    ∃ d, (s.pc d).holdsCoord = true ∧ s.pc d ≠ .stopEpoch := by
  rcases hstop with hw | ⟨d, u, hd⟩
  · obtain ⟨d, hd⟩ := hI.stopped.1 hw
    refine ⟨d, Pc.holdsCoord_of_hasBumped (Pc.hasBumped_of_stopsWorld hd), fun hpc => ?_⟩
    simp [hpc, Pc.stopsWorld] at hd
  · exact ⟨d, by simp [hd, Pc.holdsCoord], by simp [hd]⟩

theorem StillStopped.epoch (hI : Inv s) (hstop : StillStopped s) (h : s.step m a = some s') :
    s'.epoch = s.epoch := by
  cases step_world h with
  | same hepoch => exact hepoch
  | stop t hpc hepoch => exact hepoch
  | resume u hpc hepoch => exact hepoch
  | bump hpc =>
      -- the bump belongs to the one holder of `coord_mutex`
      obtain ⟨d, hcoord, hne⟩ := hstop.driver hI
      obtain rfl := hI.coord.unique hcoord (j := m) (by rw [hpc]; rfl)
      exact absurd hpc hne

/-- A thread begins to wait under `park_mutex`, having seen what it waits for. -/
theorem step_sleeps (h : s.step m a = some s') (hs : (s'.pc m).sleeps = true) :
    s' = s.unlockPark m (s'.pc m) ∧
    ((∃ cur, s.pc m = .parkWorld cur ∧ s'.pc m = .parkWait cur ∧ s.worldRunning = false) ∨
      (s.pc m = .leaveWorld ∧ s'.pc m = .leaveWait ∧ s.worldRunning = false) ∨
      ∃ t i rest others, s.pc m = .waitCheck t (i :: rest) others ∧
        s'.pc m = .waitSleep t (i :: rest) others ∧ s.mustWaitFor t i = true) := by
  apply step_elim h
  · rintro hpc rfl
    simp [Pc.sleeps] at hs
  · intro h
    cases hpc : s.pc m <;> rw [hpc] at h <;> simp only [Coordinator.advance, lockPark] at h
    case parkWorld cur =>
      split at h
      · cases h
        simp [Pc.sleeps] at hs
      · rename_i hw
        cases h
        exact ⟨by simp, Or.inl ⟨cur, rfl, by simp, by simpa using hw⟩⟩
    case leaveWorld =>
      split at h
      · cases h
        simp [Pc.sleeps] at hs
      · rename_i hw
        cases h
        exact ⟨by simp, Or.inr (Or.inl ⟨rfl, by simp, by simpa using hw⟩)⟩
    case waitCheck t pending others =>
      cases pending with
      | nil =>
          cases h
          simp [Pc.sleeps] at hs
      | cons i rest =>
          dsimp only at h
          split at h
          · rename_i hmust
            cases h
            exact ⟨by simp, Or.inr (Or.inr ⟨t, i, rest, others, rfl, by simp, hmust⟩)⟩
          · cases h
            simp [Pc.sleeps] at hs
    case visiting pending others f => cases pending <;> cases h <;> simp [Pc.sleeps] at hs
    case coordUnlock unwinding => cases unwinding <;> cases h <;> simp [Pc.sleeps] at hs
    all_goals repeat' split at h
    all_goals cases h
    all_goals simp [Pc.sleeps] at hs
  · rintro hpc rfl
    simp [Pc.sleeps] at hs
  · rintro (hpc | hpc) rfl <;> simp [Pc.sleeps] at hs
  · rintro others f hpc rfl
    simp [Pc.sleeps] at hs
  · rintro others hpc rfl
    simp [Pc.sleeps] at hs
  · rintro others f hpc rfl
    simp [Pc.sleeps] at hs
  · intro hpc h
    obtain ⟨f, rfl, -, hpc'⟩ := call_running h
    rcases hpc' with h' | ⟨b, h'⟩ | h' | h' | h' | h' <;> rw [h'] at hs <;>
      simp [hpc, Pc.sleeps] at hs

/-- A parked thread looks at the world after it has found its epoch current. -/
theorem step_parkWorld (h : s.step m a = some s') {cur : Nat} (hm : s'.pc m = .parkWorld cur) :
    cur = s'.epoch := by
  apply step_elim h
  · rintro hpc rfl
    simp at hm
  · intro h
    cases hpc : s.pc m <;> rw [hpc] at h <;> simp only [Coordinator.advance, lockPark] at h
    case parkEpoch cur' =>
      split at h
      · rename_i hepoch
        cases h
        obtain rfl : cur' = cur := by simpa using hm
        exact hepoch.symm
      · cases h
        simp at hm
    case visiting pending others f => cases pending <;> cases h <;> simp at hm
    case coordUnlock unwinding => cases unwinding <;> cases h <;> simp at hm
    case waitCheck t pending others =>
      cases pending with
      | nil =>
          cases h
          simp at hm
      | cons i rest =>
          dsimp only at h
          split at h <;> cases h <;> simp at hm
    all_goals repeat' split at h
    all_goals cases h
    all_goals simp at hm
  · rintro hpc rfl
    simp at hm
  · rintro - rfl
    simp at hm
  · rintro others f hpc rfl
    simp at hm
  · rintro others hpc rfl
    simp at hm
  · rintro others f hpc rfl
    simp at hm
  · intro hpc h
    obtain ⟨f, rfl, -, hpc'⟩ := call_running h
    rcases hpc' with h' | ⟨b, h'⟩ | h' | h' | h' | h' <;> rw [h'] at hm <;> simp [hpc] at hm

/-- The four flags a driver waits for change in front of a notification, or under `coord_mutex`, or
on the way out of foreign code. -/
theorem step_ownFlags (h : s.step m a = some s') (hn : (s.pc m).notifies s.epoch = false)
    (hcoord : (s.pc m).holdsCoord = false) (hleave : s.pc m ≠ .leaveEpoch)
    (hleave' : s.pc m ≠ .leaveState) :
    (s'.inner m).lastEpoch = (s.inner m).lastEpoch ∧ (s'.inner m).isActive = (s.inner m).isActive ∧
    (s'.inner m).isActingCoordinator = (s.inner m).isActingCoordinator ∧
    (s'.inner m).state = (s.inner m).state := by
  apply step_elim h
  · rintro - rfl
    exact ⟨rfl, rfl, rfl, rfl⟩
  · intro h
    cases hpc : s.pc m <;> rw [hpc] at h hn hcoord hleave hleave' <;>
      simp [Pc.notifies, Pc.holdsCoord] at hn hcoord hleave hleave' <;>
      simp only [Coordinator.advance, lockPark] at h
    all_goals repeat' split at h
    all_goals cases h
    all_goals simp_all
  · rintro - rfl
    exact ⟨rfl, rfl, rfl, rfl⟩
  · rintro - rfl
    exact ⟨rfl, rfl, rfl, rfl⟩
  · rintro others f - rfl
    exact ⟨rfl, rfl, rfl, rfl⟩
  · rintro others - rfl
    exact ⟨rfl, rfl, rfl, rfl⟩
  · rintro others f - rfl
    exact ⟨rfl, rfl, rfl, rfl⟩
  · intro _ h
    obtain ⟨f, rfl, -⟩ := call_running h
    exact ⟨rfl, rfl, rfl, rfl⟩

/-- While a driver sleeps, what it waits for stays so until a notification. -/
theorem mustWaitFor_step (hI : Inv s) {t : Nat} {pending others : List MutatorId}
    (hd : s.pc d = .waitSleep t pending others) (hmust : s.mustWaitFor t j = true)
    (h : s.step m a = some s') (hdm : d ≠ m) (hn : (s.pc m).notifies s.epoch = false) :
    s'.mustWaitFor t j = true := by
  have hflags : (s'.inner j).lastEpoch = (s.inner j).lastEpoch ∧
      (s'.inner j).isActive = (s.inner j).isActive ∧
      (s'.inner j).isActingCoordinator = (s.inner j).isActingCoordinator ∧
      (s'.inner j).state = (s.inner j).state := by
    by_cases hj : j = m
    · subst hj
      have hw : s.worldRunning = false := hI.stopped.2 ⟨d, by rw [hd]; rfl⟩
      have hrun : ¬ s.worldRunning = true := by rw [hw]; simp
      exact step_ownFlags h hn (hI.coord.other (d := d) (by rw [hd]; rfl) (Ne.symm hdm))
        (fun hpc => hrun (hI.leaving j (Or.inl hpc)))
        (fun hpc => hrun (hI.leaving j (Or.inr (Or.inl hpc))))
    · exact step_flags h hj
  obtain ⟨h₁, h₂, h₃, h₄⟩ := hflags
  unfold mustWaitFor
  rw [h₁, h₂, h₃, h₄]
  exact hmust

end Stores

section Runs

variable {w w' : Waking} {m : MutatorId} {a : Action}

/-- A thread that is about to look at the world has seen the current epoch. -/
theorem Watched.step_seen (hW : Watched w) (h : w.state.step m a = some w'.state) {j : MutatorId}
    {cur : Nat} (hj : w'.state.pc j = .parkWorld cur) : cur = w'.state.epoch := by
  by_cases hjm : j = m
  · subst hjm
    exact step_parkWorld h hj
  · have hj' := hj
    rw [step_pc h hjm] at hj'
    rw [hW.seen j cur hj']
    -- the epoch moves under `park_mutex`, which `j` holds
    cases step_world h with
    | same hepoch => exact hepoch.symm
    | stop t hpc hepoch => exact hepoch.symm
    | resume u hpc hepoch => exact hepoch.symm
    | bump hpc =>
        exact absurd (hW.inv.park.unique (by rw [hj']; rfl) (by rw [hpc]; rfl)) hjm

/-- A step keeps every sleeper watched. -/
theorem Watched.step (hW : Watched w) (h : w.step m a = some w') : Watched w' := by
  obtain ⟨-, hstep, -⟩ := step_iff.1 h
  refine ⟨hW.inv.step hstep, fun j cur hj => hW.step_seen hstep hj, ?_, ?_, ?_⟩
  · intro j cur hj hwoken
    by_cases hjm : j = m
    · subst hjm
      obtain ⟨hs, hfrom⟩ := step_sleeps hstep (by rw [hj]; rfl)
      rcases hfrom with ⟨cur', hpc, hpc', hw⟩ | ⟨-, hpc', -⟩ | ⟨t, i, rest, others, -, hpc', -⟩
      · obtain rfl : cur' = cur := by simpa [hpc'] using hj
        have hworld : w'.state.worldRunning = false := by
          rw [hs]
          exact hw
        have hepoch : w'.state.epoch = w.state.epoch := by
          rw [hs]
          rfl
        exact ⟨(hW.seen _ _ hpc).trans hepoch.symm, Or.inl hworld⟩
      · simp [hpc'] at hj
      · simp [hpc'] at hj
    · obtain ⟨hn, hasleep⟩ := woken_other h hjm hwoken
      rw [step_pc hstep hjm] at hj
      obtain ⟨hcur, hstop⟩ := hW.park j cur hj hasleep
      exact ⟨hcur.trans (hstop.epoch hW.inv hstep).symm, hstop.step hstep hn⟩
  · intro j hj hwoken
    by_cases hjm : j = m
    · subst hjm
      obtain ⟨hs, hfrom⟩ := step_sleeps hstep (by rw [hj]; rfl)
      have hw : w.state.worldRunning = false := by
        rcases hfrom with ⟨cur', -, -, hw⟩ | ⟨-, -, hw⟩ | ⟨t, i, rest, others, -, hpc', -⟩
        · exact hw
        · exact hw
        · simp [hpc'] at hj
      left
      rw [hs]
      exact hw
    · obtain ⟨hn, hasleep⟩ := woken_other h hjm hwoken
      rw [step_pc hstep hjm] at hj
      exact (hW.leave j hj hasleep).step hstep hn
  · intro d t pending others hd hwoken
    by_cases hdm : d = m
    · subst hdm
      obtain ⟨hs, hfrom⟩ := step_sleeps hstep (by rw [hd]; rfl)
      rcases hfrom with ⟨cur', -, hpc', -⟩ | ⟨-, hpc', -⟩ | ⟨t', i, rest, others', -, hpc', hmust⟩
      · simp [hpc'] at hd
      · simp [hpc'] at hd
      · rw [hpc'] at hd
        cases hd
        refine ⟨i, rest, rfl, ?_⟩
        rw [hs]
        exact hmust
    · obtain ⟨hn, hasleep⟩ := woken_other h hdm hwoken
      rw [step_pc hstep hdm] at hd
      obtain ⟨j, rest, hpending, hmust⟩ := hW.drive d t pending others hd hasleep
      exact ⟨j, rest, hpending, mustWaitFor_step hW.inv hd hmust hstep hdm hn⟩

theorem Reachable.watched (hw : Reachable w) : Watched w := by
  induction hw with
  | init inner =>
      constructor
      · exact Inv.init inner
      all_goals
        intros
        simp_all [Coordinator.init, Coordinator.pc]
  | step m a _ hstep ih => exact ih.step hstep
  | @wake w m hw ih =>
      have hasleep : ∀ j, Function.update w.woken m true j = false → w.woken j = false := by
        intro j hj
        by_cases hjm : j = m
        · simp [hjm] at hj
        · simpa [hjm] using hj
      exact ⟨ih.inv, ih.seen, fun j cur hj hwoken => ih.park j cur hj (hasleep j hwoken),
        fun j hj hwoken => ih.leave j hj (hasleep j hwoken),
        fun d t pending others hd hwoken => ih.drive d t pending others hd (hasleep d hwoken)⟩

end Runs

/-! ## Where no call can proceed -/

section Stuck

variable {s : Coordinator} {w : Waking} {m d : MutatorId}

/-- A thread inside `park_mutex` can take its next step. -/
theorem advance_of_holdsPark (hm : (s.pc m).holdsPark = true) :
    ∃ s', s.advance m (s.pc m) = some s' := by
  cases hpc : s.pc m <;> rw [hpc] at hm <;> simp [Pc.holdsPark] at hm <;>
    simp only [Coordinator.advance]
  case waitCheck t pending others =>
    cases pending with
    | nil => exact ⟨_, rfl⟩
    | cons i rest =>
        dsimp only
        split <;> exact ⟨_, rfl⟩
  all_goals try split
  all_goals exact ⟨_, rfl⟩

/-- What a thread without a next step is doing while `park_mutex` and the heap mutex are free: it
is in its client's code, in foreign code or gone, between two parts of a collection, or at
`coord_mutex`. -/
theorem advance_none (hpark : s.parkMutex = none) (hheap : s.heapMutex = none)
    (h : s.advance m (s.pc m) = none) :
    s.pc m = .running ∨ s.pc m = .native ∨ s.pc m = .dropped ∨ s.pc m = .unregistered ∨
    (∃ others, s.pc m = .collecting others) ∨
    (s.pc m = .registerCoord ∧ (s.coordPoisoned = true ∨ s.coordMutex ≠ none)) ∨
    (s.pc m = .coordLock ∧ s.coordMutex ≠ none) := by
  cases hpc : s.pc m <;> rw [hpc] at h <;>
    simp only [Coordinator.advance, lockPark, hpark, hheap, if_true] at h
  case visiting pending others f => cases pending <;> cases h
  case waitCheck t pending others =>
    cases pending with
    | nil => cases h
    | cons i rest =>
        dsimp only at h
        split at h <;> cases h
  all_goals repeat' split at h
  all_goals try cases h
  all_goals simp_all

/-- In a state where no call can proceed, a thread is at rest, at `coord_mutex` or asleep. -/
theorem stuck_pc (hI : Inv w.state) (hstuck : ¬ ∃ w', Proceeds w w') (m : MutatorId) :
    w.state.pc m = .running ∧ (w.state.inner m).lastEpoch = w.state.epoch ∨
    w.state.pc m = .native ∨ w.state.pc m = .dropped ∨ w.state.pc m = .unregistered ∨
    (w.state.pc m = .registerCoord ∧
      (w.state.coordPoisoned = true ∨ w.state.coordMutex ≠ none)) ∨
    (w.state.pc m = .coordLock ∧ w.state.coordMutex ≠ none) ∨
    ((w.state.pc m).sleeps = true ∧ w.woken m = false) := by
  have hnone : ∀ j a, inProgress w.state j a →
      ((w.state.pc j).sleeps = true → w.woken j = true) → w.state.step j a = none := by
    intro j a ha hawake
    cases hs : w.state.step j a with
    | none => rfl
    | some s =>
        obtain ⟨w', hw', -⟩ := step_awake hawake hs
        exact absurd ⟨w', j, a, ha, hw'⟩ hstuck
  have hnext : ∀ j, ((w.state.pc j).sleeps = true → w.woken j = true) →
      w.state.advance j (w.state.pc j) = none := by
    intro j hawake
    have := hnone j .next trivial hawake
    simpa [Coordinator.step] using this
  -- the locks that are held for a few operations only are free
  have hpark : w.state.parkMutex = none := by
    cases hp : w.state.parkMutex with
    | none => rfl
    | some j =>
        have hj := (hI.park j).1 hp
        obtain ⟨s, hs⟩ := advance_of_holdsPark hj
        rw [hnext j (fun hsleeps => by
          cases hpc : w.state.pc j <;> simp [hpc, Pc.holdsPark, Pc.sleeps] at hj hsleeps)] at hs
        cases hs
  have hheap : w.state.heapMutex = none := by
    cases hh : w.state.heapMutex with
    | none => rfl
    | some j =>
        have hj := (hI.heap j).1 hh
        have hawake : (w.state.pc j).sleeps = true → w.woken j = true := by
          intro hsleeps
          cases hpc : w.state.pc j <;> simp [hpc, Pc.holdsHeap, Pc.sleeps] at hj hsleeps
        have hadv := hnext j hawake
        cases hpc : w.state.pc j <;> rw [hpc] at hj hadv <;> simp [Pc.holdsHeap] at hj
        case collecting others =>
          have := hnone j (.relocate id) trivial hawake
          simp [Coordinator.step, hpc] at this
        case visiting pending others f => cases pending <;> cases hadv
        all_goals cases hadv
  by_cases hawake : (w.state.pc m).sleeps = true → w.woken m = true
  · rcases advance_none hpark hheap (hnext m hawake) with
      hpc | hpc | hpc | hpc | ⟨others, hpc⟩ | hpc | hpc
    · refine Or.inl ⟨hpc, ?_⟩
      by_contra hepoch
      -- a thread in its client's code with a safepoint pending can poll
      have := hnone m (.poll []) hepoch hawake
      simp only [Coordinator.step, hpc, call] at this
      split at this <;> cases this
    · exact Or.inr (Or.inl hpc)
    · exact Or.inr (Or.inr (Or.inl hpc))
    · exact Or.inr (Or.inr (Or.inr (Or.inl hpc)))
    · exact absurd ((hI.heap m).2 (by rw [hpc]; rfl)) (by rw [hheap]; simp)
    · exact Or.inr (Or.inr (Or.inr (Or.inr (Or.inl hpc))))
    · exact Or.inr (Or.inr (Or.inr (Or.inr (Or.inr (Or.inl hpc)))))
  · simp only [Classical.not_imp, Bool.not_eq_true] at hawake
    exact Or.inr (Or.inr (Or.inr (Or.inr (Or.inr (Or.inr hawake)))))

/-- Where no call can proceed, nobody holds `coord_mutex`: its holder would be asleep, waiting for a
mutator that is at rest, asleep as well or not to be waited for. -/
theorem coord_free (hW : Watched w) (hstuck : ¬ ∃ w', Proceeds w w') :
    w.state.coordMutex = none := by
  cases hc : w.state.coordMutex with
  | none => rfl
  | some d =>
      exfalso
      have hI := hW.inv
      have hd := (hI.coord d).1 hc
      -- the holder sleeps in its wait loop
      have hasleep : (w.state.pc d).sleeps = true ∧ w.woken d = false := by
        rcases stuck_pc hI hstuck d with ⟨h, -⟩ | h | h | h | ⟨h, -⟩ | ⟨h, -⟩ | h
        · simp [h, Pc.holdsCoord] at hd
        · simp [h, Pc.holdsCoord] at hd
        · simp [h, Pc.holdsCoord] at hd
        · simp [h, Pc.holdsCoord] at hd
        · simp [h, Pc.holdsCoord] at hd
        · simp [h, Pc.holdsCoord] at hd
        · exact h
      obtain ⟨t, pending, others, hpc⟩ : ∃ t pending others,
          w.state.pc d = .waitSleep t pending others := by
        cases hpc : w.state.pc d <;> simp [hpc, Pc.holdsCoord, Pc.sleeps] at hd hasleep
        exact ⟨_, _, _, rfl⟩
      obtain ⟨j, rest, -, hmust⟩ := hW.drive d t pending others hpc hasleep.2
      have hT := hI.thread j
      have ht : t = w.state.epoch := (hI.thread d).bumped t (by rw [hpc]; rfl)
      simp only [mustWaitFor, Bool.and_eq_true, Bool.not_eq_true', decide_eq_true_eq] at hmust
      obtain ⟨⟨⟨hactive, hflag⟩, hstate⟩, hlast⟩ := hmust
      rw [hT.active] at hactive
      rcases stuck_pc hI hstuck j with ⟨-, hepoch⟩ | h | h | h | ⟨h, -⟩ | ⟨h, -⟩ | ⟨hsleeps, hwoken⟩
      · omega
      · exact hstate (hT.native (by rw [h]; rfl))
      · simp [h, Pc.active] at hactive
      · simp [h, Pc.active] at hactive
      · simp [h, Pc.active] at hactive
      · -- a queued driver has announced itself
        rw [hT.flag (by rw [h]; rfl)] at hflag
        cases hflag
      · cases hj : w.state.pc j <;> rw [hj] at hsleeps <;> simp [Pc.sleeps] at hsleeps
        case parkWait cur =>
          -- a parked thread has announced the epoch it sleeps at
          have hcur := (hW.park j cur hj hwoken).1
          have := hT.parked cur (by rw [hj]; rfl)
          omega
        case leaveWait => exact hstate (hT.native (by rw [hj]; rfl))
        case waitSleep t' pending' others' =>
          rw [hT.flag (by rw [hj]; rfl)] at hflag
          cases hflag

/-- Where no call can proceed, every call has returned. -/
theorem atRest_of_stuck (hW : Watched w) (hstuck : ¬ ∃ w', Proceeds w w') : AtRest w.state := by
  have hI := hW.inv
  have hcoord := coord_free hW hstuck
  have hnobody : ∀ d, (w.state.pc d).holdsCoord = false := by
    intro d
    cases hd : (w.state.pc d).holdsCoord with
    | false => rfl
    | true => simp [(hI.coord d).2 hd] at hcoord
  have hrunning : ¬ StillStopped w.state := by
    intro hstop
    obtain ⟨d, hd, -⟩ := hstop.driver hI
    simp [hnobody d] at hd
  have hthread : ∀ j, w.state.pc j = .running ∧ (w.state.inner j).lastEpoch = w.state.epoch ∨
      w.state.pc j = .native ∨ w.state.pc j = .dropped ∨ w.state.pc j = .unregistered ∨
      w.state.pc j = .registerCoord ∧ w.state.coordPoisoned = true := by
    intro j
    rcases stuck_pc hI hstuck j with h | h | h | h | ⟨h, hp | hc⟩ | ⟨-, hc⟩ | ⟨hsleeps, hwoken⟩
    · exact Or.inl h
    · exact Or.inr (Or.inl h)
    · exact Or.inr (Or.inr (Or.inl h))
    · exact Or.inr (Or.inr (Or.inr (Or.inl h)))
    · exact Or.inr (Or.inr (Or.inr (Or.inr ⟨h, hp⟩)))
    · exact absurd hcoord hc
    · exact absurd hcoord hc
    · exfalso
      cases hj : w.state.pc j <;> rw [hj] at hsleeps <;> simp [Pc.sleeps] at hsleeps
      case parkWait cur => exact hrunning (hW.park j cur hj hwoken).2
      case leaveWait => exact hrunning (hW.leave j hj hwoken)
      case waitSleep t pending others =>
        have := hnobody j
        simp [hj, Pc.holdsCoord] at this
  refine ⟨?_, hcoord, ?_, ?_, hthread⟩
  · cases hp : w.state.parkMutex with
    | none => rfl
    | some j =>
        have hj := (hI.park j).1 hp
        rcases hthread j with ⟨h, -⟩ | h | h | h | ⟨h, -⟩ <;> simp [h, Pc.holdsPark] at hj
  · cases hh : w.state.heapMutex with
    | none => rfl
    | some j =>
        have hj := (hI.heap j).1 hh
        rcases hthread j with ⟨h, -⟩ | h | h | h | ⟨h, -⟩ <;> simp [h, Pc.holdsHeap] at hj
  · cases hw : w.state.worldRunning with
    | true => rfl
    | false => exact absurd (Or.inl hw) hrunning

end Stuck

/-! ## Every step lowers a measure -/

/-- Has the mutator yet to announce the current epoch? -/
def stale (s : Coordinator) (j : MutatorId) : Nat :=
  if (s.inner j).lastEpoch = s.epoch then 0 else 1

/-- What a step of a call in progress does to the thread that takes it: it moves the epoch or enters
the registry, or it notifies, or it gets closer to its end. -/
structure Lowered (s s' : Coordinator) (m : MutatorId) (woken : Bool) : Prop where
  opens : (s'.pc m).opens ≤ (s.pc m).opens
  frame : (s'.pc m).opens = (s.pc m).opens →
    s'.epoch = s.epoch ∧ s'.slots.length = s.slots.length ∧
    (s'.pc m).notes s.epoch (stale s' m) ≤ (s.pc m).notes s.epoch (stale s m)
  quiet : (s'.pc m).opens = (s.pc m).opens →
    (s'.pc m).notes s.epoch (stale s' m) = (s.pc m).notes s.epoch (stale s m) →
      (s.pc m).notifies s.epoch = false ∧
      (s'.pc m).rank s.slots.length false (stale s' m) <
        (s.pc m).rank s.slots.length woken (stale s m)

section Lower

variable {s s' : Coordinator} {m : MutatorId} {a : Action} {woken : Bool}

theorem length_snapshot_le (slots : List (Option MutatorId)) :
    (Registry.snapshot slots).length ≤ slots.length := List.length_filterMap_le _ _

theorem length_deregister (slots : List (Option MutatorId)) (slot : Nat) :
    (Registry.deregister slots slot).length = slots.length := List.length_set

theorem advance_lowers (hI : Inv s) (hawake : (s.pc m).sleeps = true → woken = true)
    (h : s.advance m (s.pc m) = some s') : Lowered s s' m woken := by
  have hT := hI.thread m
  have hparked := hT.parked
  have hbumped := hT.bumped
  have hslots := length_snapshot_le s.slots
  cases hpc : s.pc m <;> rw [hpc] at h hawake hparked hbumped <;>
    simp only [Coordinator.advance, lockPark] at h <;>
    simp only [Pc.parkedAt, Pc.driverTarget, Pc.sleeps, Option.some.injEq, forall_eq',
      reduceCtorEq, false_implies, implies_true, forall_const, Bool.false_eq_true]
      at hawake hparked hbumped
  case visiting pending others f =>
    cases pending <;> cases h <;> constructor <;>
      simp [hpc, Pc.opens, Pc.notes, Pc.notifies, Pc.rank, stale]
  case coordUnlock unwinding =>
    cases unwinding <;> cases h <;> constructor <;>
      simp [hpc, Pc.opens, Pc.notes, Pc.notifies, Pc.rank, stale]
  case waitCheck t pending others =>
    cases pending with
    | nil =>
        cases h
        constructor <;> simp [hpc, Pc.opens, Pc.notes, Pc.notifies, Pc.rank, stale]
    | cons i rest =>
        dsimp only at h
        split at h <;> cases h <;> constructor <;>
          simp [hpc, Pc.opens, Pc.notes, Pc.notifies, Pc.rank, stale]
  all_goals repeat' split at h
  all_goals cases h
  all_goals constructor <;>
    simp_all [Pc.opens, Pc.notes, Pc.notifies, Pc.rank, stale, length_deregister]
  all_goals first | omega | (split <;> omega)

theorem step_lowers (hI : Inv s) (ha : inProgress s m a)
    (hawake : (s.pc m).sleeps = true → woken = true) (h : s.step m a = some s') :
    Lowered s s' m woken := by
  cases a with
  | next =>
      refine advance_lowers hI hawake ?_
      simpa [Coordinator.step] using h
  | poll roots =>
      -- the poll enters `park` with the epoch it has just read
      have hstale : ¬ (s.inner m).lastEpoch = s.epoch := ha
      cases hpc : s.pc m <;> simp [Coordinator.step, hpc, call, hstale] at h
      subst h
      constructor <;> simp [hpc, Pc.opens, Pc.notes, Pc.notifies, Pc.rank, stale, hstale]
  | relocate f =>
      cases hpc : s.pc m <;> simp [Coordinator.step, hpc, call] at h
      subst h
      constructor <;> simp [hpc, Pc.opens, Pc.notes, Pc.notifies, Pc.rank, stale]
  | panic =>
      cases hpc : s.pc m <;> simp [Coordinator.step, hpc, call] at h
      case collecting others =>
        subst h
        constructor <;> simp [hpc, Pc.opens, Pc.notes, Pc.notifies, Pc.rank, stale]
        omega
      case visiting pending others f =>
        cases pending <;> simp at h
        subst h
        constructor <;> simp [hpc, Pc.opens, Pc.notes, Pc.notifies, Pc.rank, stale]
  | _ => cases ha

end Lower

section Load

variable {w w' : Waking} {S : Finset MutatorId}

/-- What the calls in progress have left to do. -/
def load (S : Finset MutatorId) (w : Waking) : ℕ ×ₗ ℕ ×ₗ ℕ :=
  threefold (∑ j ∈ S, (w.state.pc j).opens)
    (∑ j ∈ S, (w.state.pc j).notes w.state.epoch (stale w.state j))
    (∑ j ∈ S, (w.state.pc j).rank w.state.slots.length (w.woken j) (stale w.state j))

/-- A thread without a handle has no call in progress. -/
theorem registered_of_proceeds {s s' : Coordinator} {m : MutatorId} {a : Action}
    (ha : inProgress s m a) (h : s.step m a = some s') : s.pc m ≠ .unregistered := by
  intro hpc
  cases a with
  | next => simp [Coordinator.step, hpc, Coordinator.advance] at h
  | poll roots => simp [Coordinator.step, hpc] at h
  | relocate f => simp [Coordinator.step, hpc] at h
  | panic => simp [Coordinator.step, hpc] at h
  | _ => cases ha

theorem load_lt (hW : Watched w) (hS : ∀ j, j ∉ S → w.state.pc j = .unregistered)
    (h : Proceeds w w') : load S w' < load S w := by
  obtain ⟨m, a, ha, hstep⟩ := h
  obtain ⟨hawake, hstate, hwoken⟩ := step_iff.1 hstep
  have hL := step_lowers hW.inv ha hawake hstate
  have hm : m ∈ S := by
    by_contra hm
    exact registered_of_proceeds ha hstate (hS m hm)
  refine threefold_lt (sum_le_of_moved (fun j hj => by rw [step_pc hstate hj]) hL.opens) ?_
  intro hopens
  have hsame : (w'.state.pc m).opens = (w.state.pc m).opens := by
    by_contra hne
    have hlt : ∑ j ∈ S, (w'.state.pc j).opens < ∑ j ∈ S, (w.state.pc j).opens :=
      sum_lt_of_moved hm (fun j hj => by rw [step_pc hstate hj]) (lt_of_le_of_ne hL.opens hne)
    exact hlt.ne hopens
  -- the epoch stands still, so the other threads owe what they owed
  obtain ⟨hepoch, hlength, hnotes⟩ := hL.frame hsame
  have hstale : ∀ j, j ≠ m → stale w'.state j = stale w.state j := by
    intro j hj
    unfold stale
    rw [(step_flags hstate hj).1, hepoch]
  rw [hepoch, hlength]
  refine ⟨sum_le_of_moved (fun j hj => by rw [step_pc hstate hj, hstale j hj]) hnotes, ?_⟩
  intro hnotes'
  have hquiet : (w'.state.pc m).notes w.state.epoch (stale w'.state m) =
      (w.state.pc m).notes w.state.epoch (stale w.state m) := by
    by_contra hne
    have hlt : ∑ j ∈ S, (w'.state.pc j).notes w.state.epoch (stale w'.state j) <
        ∑ j ∈ S, (w.state.pc j).notes w.state.epoch (stale w.state j) :=
      sum_lt_of_moved hm (fun j hj => by rw [step_pc hstate hj, hstale j hj])
        (lt_of_le_of_ne hnotes hne)
    exact hlt.ne hnotes'
  obtain ⟨hn, hrank⟩ := hL.quiet hsame hquiet
  -- nobody has been woken
  refine sum_lt_of_moved hm (fun j hj => ?_) ?_
  · rw [step_pc hstate hj, hstale j hj, hwoken]
    simp [hn, hj]
  · rw [hwoken]
    simpa [hn] using hrank

/-- Every call returns.  From any state that an interleaving of any mutators reaches, also with
spurious wake-ups and timeouts on the way, every run of the calls in progress is finite, and a run
that cannot go on has left every call, with all locks free and the world running.  From there on
threads wake by notifications alone. -/
theorem every_call_returns (hw : Reachable w) : Settles Proceeds (fun w => AtRest w.state) w := by
  obtain ⟨S, hS⟩ := hw.support
  refine Settles.of_measure
    (I := fun w => Watched w ∧ ∀ j, j ∉ S → w.state.pc j = .unregistered) (load S)
    ?_ ?_ ?_ ⟨hw.watched, hS⟩
  · rintro w w' ⟨hW, hS⟩ ⟨m, a, ha, hstep⟩
    have hstate := (step_iff.1 hstep).2.1
    refine ⟨hW.step hstep, fun j hj => ?_⟩
    have hjm : j ≠ m := by
      rintro rfl
      exact registered_of_proceeds ha hstate (hS j hj)
    rw [step_pc hstate hjm]
    exact hS j hj
  · rintro w w' ⟨hW, hS⟩ h
    exact load_lt hW hS h
  · rintro w ⟨hW, -⟩ hstuck
    exact atRest_of_stuck hW hstuck

end Load

/-- Take a list of steps. -/
def run (w : Waking) : List (MutatorId × Action) → Option Waking
  | [] => some w
  | (m, a) :: rest =>
      match w.step m a with
      | some w' => run w' rest
      | none => none

theorem run_reachable {w w' : Waking} {l : List (MutatorId × Action)} (hw : Reachable w)
    (hrun : w.run l = some w') : Reachable w' := by
  induction l generalizing w with
  | nil =>
      cases hrun
      exact hw
  | cons e l ih =>
      simp only [run] at hrun
      cases hstep : w.step e.1 e.2 with
      | none => simp [hstep] at hrun
      | some next =>
          rw [hstep] at hrun
          exact ih (hw.step e.1 e.2 hstep) hrun

/-- Three mutators register; the first drives and falls asleep waiting for the second, the third is
parked. -/
def sleepingRun : List (MutatorId × Action) :=
  [(0, .register)] ++ nexts 0 4 ++ [(1, .register)] ++ nexts 1 4 ++ [(2, .register)] ++
    nexts 2 4 ++ [(0, .collect [7] [])] ++ nexts 0 11 ++ [(2, .poll [9])] ++ nexts 2 6 ++ nexts 0 4

theorem every_call_returns_sleeping : ∃ w : Waking, (w.state.pc 0).sleeps = true ∧
    w.woken 0 = false ∧ (w.state.pc 2).sleeps = true ∧ w.woken 2 = false ∧
    Settles Proceeds (fun w => AtRest w.state) w := by
  have hrun : ((Waking.mk (Coordinator.init fun _ => .blank) fun _ => false).run sleepingRun).map
      (fun w => ((w.state.pc 0).sleeps, w.woken 0, (w.state.pc 2).sleeps, w.woken 2)) =
        some (true, false, true, false) := by decide +kernel
  obtain ⟨w, hw, hat⟩ := Option.map_eq_some_iff.1 hrun
  obtain ⟨h₁, h₂, h₃, h₄⟩ : (w.state.pc 0).sleeps = true ∧ w.woken 0 = false ∧
      (w.state.pc 2).sleeps = true ∧ w.woken 2 = false := by simpa using hat
  exact ⟨w, h₁, h₂, h₃, h₄, every_call_returns (run_reachable (.init _) hw)⟩

end Waking

end NewGc
