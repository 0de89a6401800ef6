import NewGc.Handshake

/-!
# Exclusion — who runs while a driver collects

The world is stopped exactly between a driver's stop and its resume, and a driver that has left its
wait loop has every other active mutator parked, in foreign code, or queued behind it.
-/

namespace NewGc

open Coordinator

namespace Coordinator

/-! ## Quiet mutators -/

/-- A mutator that cannot touch the heap before the world runs again: parked at the current epoch,
in foreign code, queued for `coord_mutex`, or dropping its handle out of foreign code. -/
def Quiet (s : Coordinator) (j : MutatorId) : Prop :=
  (s.pc j).parkedAt = some s.epoch ∨ (s.pc j).abroad = true ∨ s.pc j = .coordLock ∨
    ((s.pc j).dropping = true ∧ (s.inner j).state = .inNative)

/-- What the protocol maintains. -/
structure Inv (s : Coordinator) : Prop where
  park : Owned s s.parkMutex Pc.holdsPark
  coord : Owned s s.coordMutex Pc.holdsCoord
  heap : Owned s s.heapMutex Pc.holdsHeap
  poisoned : s.coordPoisoned = true → s.coordMutex = none
  stopped : s.worldRunning = false ↔ ∃ d, (s.pc d).stopsWorld = true
  leaving : ∀ j, s.pc j = .leaveEpoch ∨ s.pc j = .leaveState ∨ s.pc j = .parkUnlock →
    s.worldRunning = true
  thread : ∀ j, ThreadOk s j
  bumped : ∀ d j, (s.pc d).hasBumped = true → j ≠ d → (s.pc j).active = true →
    (s.inner j).lastEpoch = s.epoch → (s.pc j).parkedAt = some s.epoch
  awaited : ∀ d pending, (s.pc d).awaits = some pending → ∀ j, j ≠ d → (s.pc j).active = true →
    j ∈ pending ∨ Quiet s j
  slots : ∀ i j, s.slots[i]? = some (some j) → (s.thread j).slot = i ∧ (s.pc j).inRegistry = true
  listed : ∀ j, (s.pc j).inRegistry = true → s.slots[(s.thread j).slot]? = some (some j)
  roster : ∀ d others, (s.pc d).roster = some others → others.Nodup ∧
    ∀ j, (s.pc j).active = true → j ∈ others

section Inv

variable {s s' : Coordinator} {m j d : MutatorId} {a : Action}

/-- While the world is stopped and another thread holds `coord_mutex`, a quiet mutator stays
quiet, whatever it does next. -/
theorem Quiet.own (hq : Quiet s m) (hT : ThreadOk s m) (hw : s.worldRunning = false) (hc : s.coordMutex = some d)
    (hp : s.coordPoisoned = false) (hm : (s.pc m).holdsCoord = false) (h : s.step m a = some s')
    (hactive : (s'.pc m).active = true) : Quiet s' m := by
  have hepoch := step_epoch h hm
  unfold Quiet
  rw [hepoch]
  apply step_elim h
  · rintro hpc rfl
    simp [Quiet, hpc, Pc.parkedAt, Pc.abroad, Pc.dropping] at hq
  · intro h
    rcases hq with hq | hq | hq | ⟨hq, hstate⟩
    · -- parked: it looks at the epoch, at the world, and sleeps again
      cases hpc : s.pc m <;> rw [hpc] at h hq <;> simp only [Coordinator.advance, lockPark] at h <;>
        simp [Pc.parkedAt] at hq
      · rw [if_pos hq.symm] at h
        cases h
        simp [Pc.parkedAt, hq]
      · rw [if_neg (by simp [hw])] at h
        cases h
        simp [Pc.parkedAt, hq]
      · split at h
        · cases h
          simp [Pc.parkedAt, hq]
        · cases h
    · -- abroad: `leave_native` waits for the world
      cases hpc : s.pc m <;> rw [hpc] at h hq <;> simp only [Coordinator.advance, lockPark] at h <;>
        simp [Pc.abroad] at hq
      · cases h
      · split at h
        · cases h
          simp [Pc.abroad]
        · cases h
      · rw [if_neg (by simp [hw])] at h
        cases h
        simp [Pc.abroad]
      · split at h
        · cases h
          simp [Pc.abroad]
        · cases h
    · rw [hq] at h
      simp [Coordinator.advance, hp, hc] at h
    · cases hpc : s.pc m <;> rw [hpc] at h hq <;> simp only [Coordinator.advance, lockPark] at h <;>
        simp [Pc.dropping] at hq
      · split at h
        · cases h
          simp [Pc.dropping, hstate]
        · cases h
      · cases h
        simp [Pc.active] at hactive
  · rintro hpc rfl
    simp [Pc.abroad]
  · rintro (hpc | hpc) rfl
    · have hstate := hT.native (by simp [hpc, Pc.inNative])
      simp [Pc.dropping, hstate]
    · simp [Quiet, hpc, Pc.parkedAt, Pc.abroad, Pc.dropping] at hq
  · rintro others f hpc rfl
    simp [hpc, Pc.holdsCoord] at hm
  · rintro others hpc rfl
    simp [hpc, Pc.holdsCoord] at hm
  · rintro others f hpc rfl
    simp [hpc, Pc.holdsCoord] at hm
  · intro hpc _
    simp [Quiet, hpc, Pc.parkedAt, Pc.abroad, Pc.dropping] at hq

/-- A driver passes a mutator only when it is quiet or gone. -/
theorem Inv.quiet_of_passed (hI : Inv s) {t : Nat} {pending others : List MutatorId}
    (hd : s.pc d = .waitCheck t pending others) (hj : j ≠ d) (hactive : (s.pc j).active = true)
    (hpass : s.mustWaitFor t j = false) : Quiet s j := by
  have hpark : ¬ (s.pc j).holdsPark = true := fun h =>
    hj (hI.park.unique h (by rw [hd]; rfl))
  have hcoord : ¬ (s.pc j).holdsCoord = true := fun h =>
    hj (hI.coord.unique h (by rw [hd]; rfl))
  have hheld : s.coordMutex = some d := (hI.coord d).2 (by rw [hd]; rfl)
  have hnotPoisoned : s.coordPoisoned ≠ true := fun h => by
    simp [hI.poisoned h] at hheld
  have hT := hI.thread j
  have ht : t = s.epoch := (hI.thread d).bumped t (by rw [hd]; rfl)
  simp only [mustWaitFor, hT.active, hactive, Bool.true_and, Bool.and_eq_false_iff,
    Bool.not_eq_false', decide_eq_false_iff_not, not_not, not_lt] at hpass
  rcases hpass with (hflag | hstate) | hlast
  · -- a queued driver
    rcases hT.driver hactive hflag with h | h
    · cases hpc : s.pc j <;> simp_all [Pc.flagged, Pc.holdsPark, Pc.holdsCoord, Quiet]
    · exact absurd h hnotPoisoned
  · -- in foreign code
    rcases hT.foreign hactive hstate with h | h
    · cases hpc : s.pc j <;> simp_all [Pc.inNative, Pc.holdsPark, Quiet, Pc.abroad]
    · exact Or.inr (Or.inr (Or.inr ⟨h, hstate⟩))
  · -- arrived at the target epoch
    have hepoch : (s.inner j).lastEpoch = s.epoch :=
      le_antisymm (hT.epoch hactive) (ht ▸ hlast)
    exact Or.inl (hI.bumped d j (by rw [hd]; rfl) hj hactive hepoch)

theorem Quiet.other (hq : Quiet s j) (h : s.step m a = some s') (hj : j ≠ m)
    (hepoch : s'.epoch = s.epoch) : Quiet s' j := by
  obtain ⟨-, -, -, hstate⟩ := step_flags h hj
  unfold Quiet
  rw [step_pc h hj, hepoch, hstate]
  exact hq

theorem Owned.held {held : Option MutatorId} {holds : Pc → Bool} (hO : Owned s held holds)
    (hd : holds (s.pc d) = true) : held = some d := (hO d).2 hd

/-- While one thread is inside the lock, no other is. -/
theorem Owned.other {held : Option MutatorId} {holds : Pc → Bool} (hO : Owned s held holds)
    (hd : holds (s.pc d) = true) (hj : j ≠ d) : holds (s.pc j) = false := by
  cases h : holds (s.pc j) with
  | false => rfl
  | true => exact absurd (hO.unique h hd) hj

theorem Inv.step_stopped (hI : Inv s) (h : s.step m a = some s') :
    s'.worldRunning = false ↔ ∃ d, (s'.pc d).stopsWorld = true := by
  have hother : ∀ d, d ≠ m → ((s'.pc d).stopsWorld = true ↔ (s.pc d).stopsWorld = true) :=
    fun d hd => by rw [step_pc h hd]
  cases step_world h with
  | same hepoch hworld hstops =>
      rw [hworld, hI.stopped]
      refine exists_congr fun d => ?_
      by_cases hd : d = m
      · rw [hd, hstops]
      · exact (hother d hd).symm
  | bump hpc hepoch hworld hpc' =>
      rw [hworld, hI.stopped]
      refine exists_congr fun d => ?_
      by_cases hd : d = m
      · rw [hd, hpc, hpc']
        simp [Pc.stopsWorld]
      · exact (hother d hd).symm
  | stop t hpc hepoch hworld hpc' =>
      simp only [hworld, true_iff]
      exact ⟨m, by rw [hpc']; rfl⟩
  | resume u hpc hepoch hworld hpc' =>
      rw [hworld]
      refine iff_of_false (by simp) ?_
      rintro ⟨d, hd⟩
      by_cases hdm : d = m
      · rw [hdm, hpc'] at hd
        simp [Pc.stopsWorld] at hd
      · -- two threads inside `coord_mutex`
        have hd' := (hother d hdm).1 hd
        refine hdm (hI.coord.unique (Pc.holdsCoord_of_hasBumped (Pc.hasBumped_of_stopsWorld hd')) ?_)
        rw [hpc]
        rfl

/-- `world_running` is only cleared by a holder of `park_mutex`. -/
theorem Inv.step_leaving (hI : Inv s) (h : s.step m a = some s')
    (hj : s'.pc j = .leaveEpoch ∨ s'.pc j = .leaveState ∨ s'.pc j = .parkUnlock) :
    s'.worldRunning = true := by
  have hholds : (s'.pc j).holdsPark = true := by
    rcases hj with h | h | h <;> rw [h] <;> rfl
  by_cases hjm : j = m
  · subst hjm
    apply step_elim h
    · rintro hpc rfl
      simp at hj
    · intro h
      cases hpc : s.pc j <;> rw [hpc] at h <;> simp only [Coordinator.advance, lockPark] at h
      case coordUnlock unwinding => cases unwinding <;> cases h <;> simp at hj
      case visiting pending others f => cases pending <;> cases h <;> simp at hj
      case waitCheck t pending others =>
        cases pending with
        | nil =>
            cases h
            simp at hj
        | cons i pending =>
            dsimp only at h
            split at h <;> cases h <;> simp at hj
      case parkWorld cur =>
        split at h
        · cases h
          assumption
        · cases h
          simp at hj
      case leaveWorld =>
        split at h
        · cases h
          assumption
        · cases h
          simp at hj
      case leaveEpoch =>
        cases h
        exact hI.leaving j (by simp [hpc])
      all_goals repeat' split at h
      all_goals cases h
      all_goals simp at hj
    · rintro hpc rfl
      simp at hj
    · rintro - rfl
      simp at hj
    · rintro others f hpc rfl
      simp at hj
    · rintro others hpc rfl
      simp at hj
    · rintro others f hpc rfl
      simp at hj
    · intro hpc h
      obtain ⟨f, rfl, -, hpc'⟩ := call_running h
      rcases hpc' with h' | ⟨b, h'⟩ | h' | h' | h' | h' <;> rw [h'] at hj <;> simp [hpc] at hj
  · have hj' := hj
    rw [step_pc h hjm] at hj' hholds
    have hrun := hI.leaving j hj'
    cases step_world h with
    | same hepoch hworld => rw [hworld, hrun]
    | bump hpc hepoch hworld => rw [hworld, hrun]
    | stop t hpc => exact absurd (hI.park.unique hholds (by rw [hpc]; rfl)) hjm
    | resume u hpc hepoch hworld => exact hworld

/-- How a thread's own step moves the epoch it has announced. -/
theorem step_lastEpoch (h : s.step m a = some s') (hactive : (s'.pc m).active = true) :
    (s'.inner m).lastEpoch = (s.inner m).lastEpoch ∧ (s.pc m).active = true ∧
        ((s'.pc m).parkedAt = (s.pc m).parkedAt ∨ ∃ cur, s.pc m = .parkWorld cur ∧
          s'.pc m = .parkUnlock) ∨
      (s'.pc m).parkedAt = some (s'.inner m).lastEpoch ∨ s.pc m = .leaveEpoch ∨
      (s.pc m).holdsCoord = true := by
  apply step_elim h
  · rintro hpc rfl
    simp [Pc.active] at hactive
  · intro h
    cases hpc : s.pc m <;> rw [hpc] at h <;> simp only [Coordinator.advance, lockPark] at h
    case visiting pending others f => simp [Pc.holdsCoord]
    case coordUnlock unwinding => simp [Pc.holdsCoord]
    case waitCheck t pending others => simp [Pc.holdsCoord]
    all_goals repeat' split at h
    all_goals cases h
    all_goals simp_all [Pc.parkedAt, Pc.active, Pc.holdsCoord]
  · rintro hpc rfl
    simp [hpc, Pc.parkedAt, Pc.active]
  · rintro (hpc | hpc) rfl <;> simp [hpc, Pc.parkedAt, Pc.active]
  · rintro others f hpc rfl
    simp [hpc, Pc.holdsCoord]
  · rintro others hpc rfl
    simp [hpc, Pc.holdsCoord]
  · rintro others f hpc rfl
    simp [hpc, Pc.holdsCoord]
  · intro hpc h
    obtain ⟨f, rfl, -, hpc'⟩ := call_running h
    have hinner : (s.setThread m f).inner = s.inner := rfl
    rcases hpc' with h' | ⟨b, h'⟩ | h' | h' | h' | h' <;> rw [h', hinner] <;>
      simp [hpc, Pc.parkedAt, Pc.active]

theorem Inv.step_bumped (hI : Inv s) (h : s.step m a = some s')
    (hd : (s'.pc d).hasBumped = true) (hj : j ≠ d) (hactive : (s'.pc j).active = true)
    (hlast : (s'.inner j).lastEpoch = s'.epoch) : (s'.pc j).parkedAt = some s'.epoch := by
  by_cases hdm : d = m
  · subst hdm
    have hflags := step_flags h hj
    rw [step_pc h hj] at hactive ⊢
    rw [hflags.1] at hlast
    have hle := (hI.thread j).epoch hactive
    cases step_world h with
    | same hepoch hworld hstops hbumped =>
        rw [hepoch] at hlast ⊢
        exact hI.bumped d j (hbumped ▸ hd) hj hactive hlast
    | bump hpc hepoch hworld hpc' => omega
    | stop t hpc hepoch hworld hpc' =>
        rw [hepoch] at hlast ⊢
        exact hI.bumped d j (by rw [hpc]; rfl) hj hactive hlast
    | resume u hpc hepoch hworld hpc' =>
        rw [hpc'] at hd
        simp [Pc.hasBumped, Pc.stopsWorld] at hd
  · rw [step_pc h hdm] at hd
    have hcoord := Pc.holdsCoord_of_hasBumped hd
    have hepoch : s'.epoch = s.epoch := step_epoch h (hI.coord.other hcoord (Ne.symm hdm))
    rw [hepoch] at hlast ⊢
    by_cases hjm : j = m
    · subst hjm
      -- the driver is between its stop and its resume, so nobody leaves `park` or foreign code
      have hnotRunning : (s.pc j).holdsPark = true → s.worldRunning = false := by
        intro hpark
        rw [hI.stopped]
        refine ⟨d, ?_⟩
        have hdpark : (s.pc d).holdsPark = false := hI.park.other hpark hdm
        cases hpc : s.pc d <;> simp_all [Pc.hasBumped, Pc.stopsWorld, Pc.holdsPark]
      rcases step_lastEpoch h hactive with ⟨hsame, hact, hpark | ⟨cur, hpc, hpc'⟩⟩ | hpark | hpc | hm
      · rw [hpark]
        exact hI.bumped d j hd hj hact (hsame ▸ hlast)
      · have hw := hI.step_leaving h (Or.inr (Or.inr hpc'))
        have hstop := hnotRunning (by rw [hpc]; rfl)
        cases step_world h <;> simp_all
      · rw [hpark, hlast]
      · have hw := hI.leaving j (Or.inl hpc)
        rw [hnotRunning (by rw [hpc]; rfl)] at hw
        cases hw
      · exact absurd (hI.coord.unique hm hcoord) hj
    · rw [step_pc h hjm] at hactive ⊢
      rw [(step_flags h hjm).1] at hlast
      exact hI.bumped d j hd hj hactive hlast

/-- A handle comes alive under `coord_mutex` only. -/
theorem step_active (h : s.step m a = some s') (hactive : (s'.pc m).active = true) :
    (s.pc m).active = true ∨ (s.pc m).holdsCoord = true := by
  cases hact : (s.pc m).active with
  | true => exact Or.inl rfl
  | false =>
      right
      apply step_elim h
      · rintro hpc rfl
        simp [Pc.active] at hactive
      · intro h
        cases hpc : s.pc m <;> rw [hpc] at h hact <;> simp [Pc.active] at hact <;>
          simp only [Coordinator.advance] at h
        all_goals repeat' split at h
        all_goals cases h
        all_goals simp_all [Pc.active, Pc.holdsCoord]
      · rintro hpc rfl
        simp [hpc, Pc.active] at hact
      · rintro (hpc | hpc) rfl <;> simp [hpc, Pc.active] at hact
      · rintro others f hpc rfl
        simp [hpc, Pc.active] at hact
      · rintro others hpc rfl
        simp [hpc, Pc.active] at hact
      · rintro others f hpc rfl
        simp [hpc, Pc.active] at hact
      · intro hpc _
        simp [hpc, Pc.active] at hact

/-- How a driver's own step moves its wait list. -/
theorem step_awaits (h : s.step m a = some s') {pending : List MutatorId}
    (hw : (s'.pc m).awaits = some pending) :
    (∃ t, s.pc m = .registrySnapshot t ∧ pending = Registry.snapshot s.slots) ∨
    (s.pc m).awaits = some pending ∨
    ∃ t i others, s.pc m = .waitCheck t (i :: pending) others ∧ s.mustWaitFor t i = false := by
  apply step_elim h
  · rintro hpc rfl
    simp [Pc.awaits] at hw
  · intro h
    cases hpc : s.pc m <;> rw [hpc] at h <;> simp only [Coordinator.advance, lockPark] at h
    case coordUnlock unwinding => cases unwinding <;> cases h <;> simp [Pc.awaits] at hw
    case visiting waiting others f => cases waiting <;> cases h <;> simp_all [Pc.awaits]
    case waitCheck t waiting others =>
      cases waiting with
      | nil =>
          cases h
          simp_all [Pc.awaits]
      | cons i waiting =>
          dsimp only at h
          split at h
          · cases h
            simp_all [Pc.awaits]
          · rename_i hpass
            cases h
            simp only [pc_goto, Pc.awaits, Option.some.injEq] at hw
            subst hw
            exact Or.inr (Or.inr ⟨t, i, others, rfl, by simpa using hpass⟩)
    all_goals repeat' split at h
    all_goals cases h
    all_goals simp_all [Pc.awaits]
  · rintro hpc rfl
    simp [Pc.awaits] at hw
  · rintro (hpc | hpc) rfl <;> simp [Pc.awaits] at hw
  · rintro others f hpc rfl
    simp_all [Pc.awaits]
  · rintro others hpc rfl
    simp_all [Pc.awaits]
  · rintro others f hpc rfl
    simp_all [Pc.awaits]
  · intro hpc h
    obtain ⟨f, rfl, -, hpc'⟩ := call_running h
    rcases hpc' with h' | ⟨b, h'⟩ | h' | h' | h' | h' <;> rw [h'] at hw <;>
      simp [hpc, Pc.awaits] at hw

theorem mem_snapshot {slots : List (Option MutatorId)} {i : Nat}
    (h : slots[i]? = some (some j)) : j ∈ Registry.snapshot slots :=
  List.mem_filterMap.2 ⟨some j, List.mem_of_getElem? h, rfl⟩

theorem Pc.inRegistry_of_active {pc : Pc} (h : pc.active = true) : pc.inRegistry = true := by
  cases pc <;> simp_all [Pc.active, Pc.inRegistry]

theorem Inv.step_awaited (hI : Inv s) (h : s.step m a = some s') {pending : List MutatorId}
    (hd : (s'.pc d).awaits = some pending) (hj : j ≠ d) (hactive : (s'.pc j).active = true) :
    j ∈ pending ∨ Quiet s' j := by
  by_cases hdm : d = m
  · subst hdm
    have hactive' := hactive
    rw [step_pc h hj] at hactive'
    have hepoch : s'.epoch = s.epoch := by
      cases step_world h with
      | same hepoch => exact hepoch
      | bump hpc hepoch hworld hpc' =>
          rw [hpc'] at hd
          simp [Pc.awaits] at hd
      | stop t hpc hepoch => exact hepoch
      | resume u hpc hepoch => exact hepoch
    rcases step_awaits h hd with ⟨t, hpc, rfl⟩ | hsame | ⟨t, i, others, hpc, hpass⟩
    · exact Or.inl (mem_snapshot (hI.listed j (Pc.inRegistry_of_active hactive')))
    · exact (hI.awaited d pending hsame j hj hactive').imp_right fun hq => hq.other h hj hepoch
    · by_cases hji : j = i
      · subst hji
        exact Or.inr ((hI.quiet_of_passed hpc hj hactive' hpass).other h hj hepoch)
      · rcases hI.awaited d (i :: pending) (by rw [hpc]; rfl) j hj hactive' with hmem | hq
        · exact Or.inl ((List.mem_cons.1 hmem).resolve_left hji)
        · exact Or.inr (hq.other h hj hepoch)
  · rw [step_pc h hdm] at hd
    have hstops := Pc.stopsWorld_of_awaits hd
    have hcoord := Pc.holdsCoord_of_hasBumped (Pc.hasBumped_of_stopsWorld hstops)
    have hmcoord := hI.coord.other hcoord (Ne.symm hdm)
    have hepoch : s'.epoch = s.epoch := step_epoch h hmcoord
    by_cases hjm : j = m
    · subst hjm
      have hheld := hI.coord.held hcoord
      have hnotPoisoned : s.coordPoisoned = false := by
        cases hp : s.coordPoisoned with
        | false => rfl
        | true => simp [hI.poisoned hp] at hheld
      rcases step_active h hactive with hact | hm
      · exact (hI.awaited d pending hd j hj hact).imp_right fun hq =>
          hq.own (hI.thread j) (hI.stopped.2 ⟨d, hstops⟩) hheld hnotPoisoned hmcoord h hactive
      · rw [hmcoord] at hm
        cases hm
    · rw [step_pc h hjm] at hactive
      exact (hI.awaited d pending hd j hj hactive).imp_right fun hq => hq.other h hjm hepoch

/-! ## The registry -/

theorem freeSlot_empty (slots : List (Option MutatorId)) (i : MutatorId) :
    slots[Registry.freeSlot slots]? ≠ some (some i) := by
  unfold Registry.freeSlot
  cases hfind : slots.findIdx? Option.isNone with
  | none => simp
  | some k =>
      obtain ⟨hk, hnone, -⟩ := List.findIdx?_eq_some_iff_getElem.1 hfind
      simp only [Option.getD_some, List.getElem?_eq_getElem hk]
      intro h
      rw [Option.some.inj h] at hnone
      cases hnone

theorem freeSlot_le (slots : List (Option MutatorId)) : Registry.freeSlot slots ≤ slots.length := by
  unfold Registry.freeSlot
  cases hfind : slots.findIdx? Option.isNone with
  | none => simp
  | some k =>
      obtain ⟨hk, -⟩ := List.findIdx?_eq_some_iff_getElem.1 hfind
      exact le_of_lt hk

theorem getElem?_register (slots : List (Option MutatorId)) (i : Nat) :
    (Registry.register slots m)[i]? =
      if i = Registry.freeSlot slots then some (some m) else slots[i]? := by
  unfold Registry.register
  have hle := freeSlot_le slots
  split
  · rename_i hlt
    rw [List.getElem?_set]
    by_cases hi : Registry.freeSlot slots = i
    · subst hi
      simp [hlt]
    · simp [hi, Ne.symm hi]
  · rename_i hge
    have heq : Registry.freeSlot slots = slots.length := by omega
    rw [heq]
    by_cases hi : i = slots.length
    · simp [hi]
    · rw [if_neg hi]
      by_cases hlt : i < slots.length
      · rw [List.getElem?_append_left hlt]
      · rw [List.getElem?_eq_none (by simp; omega), List.getElem?_eq_none (by omega)]

/-- What one step does to the registry. -/
theorem step_slots (h : s.step m a = some s') :
    (s'.slots = s.slots ∧ (s'.thread m).slot = (s.thread m).slot ∧
      (s'.pc m).inRegistry = (s.pc m).inRegistry) ∨
    (s'.slots = Registry.register s.slots m ∧ (s'.thread m).slot = Registry.freeSlot s.slots ∧
      (s.pc m).inRegistry = false ∧ (s'.pc m).inRegistry = true) ∨
    (s'.slots = Registry.deregister s.slots (s.thread m).slot ∧ (s.pc m).inRegistry = true ∧
      (s'.pc m).inRegistry = false) := by
  apply step_elim h
  · rintro hpc rfl
    simp [hpc, Pc.inRegistry]
  · intro h
    cases hpc : s.pc m <;> rw [hpc] at h <;> simp only [Coordinator.advance, lockPark] at h
    case registerSlot e =>
      cases h
      exact Or.inr (Or.inl ⟨rfl, by simp, rfl, by simp [Pc.inRegistry]⟩)
    case dropSlot =>
      cases h
      exact Or.inr (Or.inr ⟨rfl, rfl, by simp [Pc.inRegistry]⟩)
    case coordUnlock unwinding => cases unwinding <;> cases h <;> simp [Pc.inRegistry]
    case visiting pending others f => cases pending <;> cases h <;> simp [Pc.inRegistry]
    case waitCheck t pending others =>
      cases pending with
      | nil =>
          cases h
          simp [Pc.inRegistry]
      | cons i pending =>
          dsimp only at h
          split at h <;> cases h <;> simp [Pc.inRegistry]
    all_goals repeat' split at h
    all_goals cases h
    all_goals simp [Pc.inRegistry]
  · rintro hpc rfl
    simp [hpc, Pc.inRegistry]
  · rintro (hpc | hpc) rfl <;> simp [hpc, Pc.inRegistry]
  · rintro others f hpc rfl
    simp [hpc, Pc.inRegistry]
  · rintro others hpc rfl
    simp [hpc, Pc.inRegistry]
  · rintro others f hpc rfl
    simp [hpc, Pc.inRegistry]
  · intro hpc h
    obtain ⟨f, rfl, hslot, hpc'⟩ := call_running h
    refine Or.inl ⟨rfl, by simp [hslot], ?_⟩
    rcases hpc' with h' | ⟨b, h'⟩ | h' | h' | h' | h' <;> rw [h'] <;> simp [hpc, Pc.inRegistry]

theorem Inv.slot_unique (hI : Inv s) {i i' : Nat} (h : s.slots[i]? = some (some j))
    (h' : s.slots[i']? = some (some j)) : i = i' :=
  (hI.slots i j h).1.symm.trans (hI.slots i' j h').1

theorem Inv.step_slots (hI : Inv s) (h : s.step m a = some s') (i : Nat)
    (hi : s'.slots[i]? = some (some j)) : (s'.thread j).slot = i ∧ (s'.pc j).inRegistry = true := by
  rcases Coordinator.step_slots h with ⟨hs, hslot, hin⟩ | ⟨hs, hslot, hin, hin'⟩ | ⟨hs, hin, hin'⟩
  · rw [hs] at hi
    obtain ⟨h₁, h₂⟩ := hI.slots i j hi
    by_cases hj : j = m
    · subst hj
      exact ⟨hslot.trans h₁, hin.trans h₂⟩
    · rw [step_thread h hj, step_pc h hj]
      exact ⟨h₁, h₂⟩
  · rw [hs, getElem?_register] at hi
    split at hi
    · rename_i hfree
      obtain rfl : m = j := by simpa using hi
      exact ⟨hslot.trans hfree.symm, hin'⟩
    · obtain ⟨h₁, h₂⟩ := hI.slots i j hi
      have hj : j ≠ m := by
        rintro rfl
        rw [hin] at h₂
        cases h₂
      rw [step_thread h hj, step_pc h hj]
      exact ⟨h₁, h₂⟩
  · rw [hs, Registry.deregister, List.getElem?_set] at hi
    split at hi
    · split at hi <;> simp at hi
    · rename_i hne
      obtain ⟨h₁, h₂⟩ := hI.slots i j hi
      have hj : j ≠ m := by
        rintro rfl
        exact hne h₁
      rw [step_thread h hj, step_pc h hj]
      exact ⟨h₁, h₂⟩

theorem Inv.step_listed (hI : Inv s) (h : s.step m a = some s')
    (hj : (s'.pc j).inRegistry = true) : s'.slots[(s'.thread j).slot]? = some (some j) := by
  rcases Coordinator.step_slots h with ⟨hs, hslot, hin⟩ | ⟨hs, hslot, hin, hin'⟩ | ⟨hs, hin, hin'⟩
  · rw [hs]
    by_cases hjm : j = m
    · subst hjm
      rw [hslot]
      exact hI.listed j (hin ▸ hj)
    · rw [step_pc h hjm] at hj
      rw [step_thread h hjm]
      exact hI.listed j hj
  · rw [hs, getElem?_register]
    by_cases hjm : j = m
    · subst hjm
      rw [if_pos hslot]
    · rw [step_pc h hjm] at hj
      rw [step_thread h hjm]
      have hlisted := hI.listed j hj
      rw [if_neg]
      · exact hlisted
      · intro heq
        rw [heq] at hlisted
        exact freeSlot_empty _ _ hlisted
  · have hjm : j ≠ m := by
      rintro rfl
      rw [hin'] at hj
      cases hj
    rw [step_pc h hjm] at hj
    rw [hs, step_thread h hjm, Registry.deregister, List.getElem?_set, if_neg]
    · exact hI.listed j hj
    · intro heq
      have hm := hI.listed m hin
      rw [heq, hI.listed j hj] at hm
      exact hjm (by simpa using hm)

theorem nodup_snapshot {slots : List (Option MutatorId)}
    (hunique : ∀ (i i' : Nat) (j : MutatorId), slots[i]? = some (some j) →
      slots[i']? = some (some j) → i = i') : (Registry.snapshot slots).Nodup := by
  induction slots with
  | nil => exact List.nodup_nil
  | cons o slots ih =>
      have htail := ih fun i i' j h h' => by
        have := hunique (i + 1) (i' + 1) j (by simpa using h) (by simpa using h')
        omega
      cases o with
      | none => exact htail
      | some k =>
          refine List.nodup_cons.2 ⟨fun hmem => ?_, htail⟩
          obtain ⟨o, ho, hk⟩ := List.mem_filterMap.1 hmem
          obtain ⟨i, hi⟩ := List.mem_iff_getElem?.1 ho
          cases (show o = some k from hk)
          have := hunique 0 (i + 1) k rfl (by simpa using hi)
          omega

/-- How a driver's own step moves its roster. -/
theorem step_ownRoster (h : s.step m a = some s') {others : List MutatorId}
    (hr : (s'.pc m).roster = some others) :
    (∃ t, s.pc m = .registrySnapshot t ∧ others = Registry.snapshot s.slots) ∨
    (s.pc m).roster = some others := by
  apply step_elim h
  · rintro hpc rfl
    simp [Pc.roster] at hr
  · intro h
    cases hpc : s.pc m <;> rw [hpc] at h <;> simp only [Coordinator.advance, lockPark] at h
    case coordUnlock unwinding => cases unwinding <;> cases h <;> simp [Pc.roster] at hr
    case visiting pending roster f => cases pending <;> cases h <;> simp_all [Pc.roster]
    case waitCheck t pending roster =>
      cases pending with
      | nil =>
          cases h
          simp_all [Pc.roster]
      | cons i pending =>
          dsimp only at h
          split at h <;> cases h <;> simp_all [Pc.roster]
    all_goals repeat' split at h
    all_goals cases h
    all_goals simp_all [Pc.roster]
  · rintro hpc rfl
    simp [Pc.roster] at hr
  · rintro (hpc | hpc) rfl <;> simp [Pc.roster] at hr
  · rintro roster f hpc rfl
    simp_all [Pc.roster]
  · rintro roster hpc rfl
    simp [Pc.roster] at hr
  · rintro roster f hpc rfl
    simp [Pc.roster] at hr
  · intro hpc h
    obtain ⟨f, rfl, -, hpc'⟩ := call_running h
    rcases hpc' with h' | ⟨b, h'⟩ | h' | h' | h' | h' <;> rw [h'] at hr <;>
      simp [hpc, Pc.roster] at hr

theorem Inv.step_roster (hI : Inv s) (h : s.step m a = some s') {others : List MutatorId}
    (hr : (s'.pc d).roster = some others) :
    others.Nodup ∧ ∀ j, (s'.pc j).active = true → j ∈ others := by
  -- nobody registers while the driver holds `coord_mutex`
  have hactive : ∀ j, (s.pc d).holdsCoord = true → (s'.pc j).active = true →
      (s.pc j).active = true := by
    intro j hcoord hact
    by_cases hj : j = m
    · subst hj
      rcases step_active h hact with hact | hm
      · exact hact
      · obtain rfl := hI.coord.unique hcoord hm
        cases hpc : s.pc d <;> rw [hpc] at hcoord <;> simp_all [Pc.holdsCoord, Pc.active]
        all_goals
          have hreg := Coordinator.step_ownRoster h hr
          simp [hpc, Pc.roster] at hreg
    · rwa [step_pc h hj] at hact
  by_cases hdm : d = m
  · subst hdm
    rcases step_ownRoster h hr with ⟨t, hpc, rfl⟩ | hsame
    · refine ⟨nodup_snapshot fun i i' j h h' => hI.slot_unique h h', fun j hj => ?_⟩
      have hj' := hactive j (by rw [hpc]; rfl) hj
      exact mem_snapshot (hI.listed j (Pc.inRegistry_of_active hj'))
    · obtain ⟨hnodup, hmem⟩ := hI.roster d others hsame
      exact ⟨hnodup, fun j hj => hmem j (hactive j (Pc.holdsCoord_of_roster hsame) hj)⟩
  · rw [step_pc h hdm] at hr
    obtain ⟨hnodup, hmem⟩ := hI.roster d others hr
    exact ⟨hnodup, fun j hj => hmem j (hactive j (Pc.holdsCoord_of_roster hr) hj)⟩

/-! ## Every reachable state -/

theorem Inv.init (inner : MutatorId → MutatorInner) : Inv (init inner) where
  park := fun j => by simp [Coordinator.init, Coordinator.pc, Pc.holdsPark]
  coord := fun j => by simp [Coordinator.init, Coordinator.pc, Pc.holdsCoord]
  heap := fun j => by simp [Coordinator.init, Coordinator.pc, Pc.holdsHeap]
  poisoned := fun _ => rfl
  stopped := by simp [Coordinator.init, Coordinator.pc, Pc.stopsWorld]
  leaving := fun _ _ => rfl
  thread := fun j => by
    constructor <;> simp [Coordinator.init, Coordinator.pc, Pc.active, Pc.inNative, Pc.flagged,
      Pc.flushed, Pc.parkedAt, Pc.parkTarget, Pc.driverTarget]
  bumped := fun d j hd => by
    simp [Coordinator.init, Coordinator.pc, Pc.hasBumped, Pc.stopsWorld] at hd
  awaited := fun d pending hd => by simp [Coordinator.init, Coordinator.pc, Pc.awaits] at hd
  slots := fun i j hi => by simp [Coordinator.init] at hi
  listed := fun j hj => by simp [Coordinator.init, Coordinator.pc, Pc.inRegistry] at hj
  roster := fun d others hr => by simp [Coordinator.init, Coordinator.pc, Pc.roster] at hr

theorem Inv.step (hI : Inv s) (h : s.step m a = some s') : Inv s' where
  park := hI.park.step h (step_locks h).1
  coord := hI.coord.step h (step_locks h).2.1
  heap := hI.heap.step h (step_locks h).2.2
  poisoned := fun hp => by
    obtain ⟨-, hkeep, hnew⟩ := step_poisoned h
    rcases hnew hp with hp | hnone
    · exact hkeep hp (hI.poisoned hp)
    · exact hnone
  stopped := hI.step_stopped h
  leaving := fun j hj => hI.step_leaving h hj
  thread := fun j => by
    by_cases hj : j = m
    · subst hj
      exact (hI.thread j).own h
    · exact (hI.thread j).other hI.coord h hj
  bumped := fun d j hd hj hactive hlast => hI.step_bumped h hd hj hactive hlast
  awaited := fun d pending hd j hj hactive => hI.step_awaited h hd hj hactive
  slots := fun i j hi => hI.step_slots h i hi
  listed := fun j hj => hI.step_listed h hj
  roster := fun d others hr => hI.step_roster h hr

theorem Reachable.inv (hs : Reachable s) : Inv s := by
  induction hs with
  | init inner => exact .init inner
  | step m a _ hstep ih => exact ih.step hstep

/-! ## Exclusion -/

/-- What a driver has made of another mutator: parked with the world stopped, in foreign code, or
queued for `coord_mutex` with its buffers empty. -/
def Stopped (s : Coordinator) (j : MutatorId) : Prop :=
  ((s.pc j).parkedAt.isSome = true ∧ s.worldRunning = false) ∨
  (s.inner j).state = .inNative ∨
  (s.pc j = .coordLock ∧ (s.thread j).tlabs = [])

theorem Inv.stopped_of_quiet (hI : Inv s) (hw : s.worldRunning = false) (hq : Quiet s j) :
    Stopped s j := by
  have hT := hI.thread j
  rcases hq with hq | hq | hq | ⟨-, hq⟩
  · exact Or.inl ⟨by rw [hq]; rfl, hw⟩
  · refine Or.inr (Or.inl (hT.native ?_))
    cases hpc : s.pc j <;> simp_all [Pc.abroad, Pc.inNative]
  · exact Or.inr (Or.inr ⟨hq, hT.flushed (by rw [hq]; rfl)⟩)
  · exact Or.inr (Or.inl hq)

/-- Past its wait loop, a driver has everybody else stopped. -/
theorem Inv.stopped_of_collects (hI : Inv s) (hd : (s.pc d).collects = true) (hj : j ≠ d)
    (hactive : (s.inner j).isActive = true) : Stopped s j := by
  have hw := hI.stopped.2 ⟨d, Pc.stopsWorld_of_collects hd⟩
  have hact : (s.pc j).active = true := (hI.thread j).active ▸ hactive
  rcases hI.awaited d [] (Pc.awaits_of_collects hd) j hj hact with hmem | hq
  · cases hmem
  · exact hI.stopped_of_quiet hw hq

/-- A step during which the world stays stopped. -/
def StoppedStep (s s' : Coordinator) : Prop :=
  ∃ m a, s.step m a = some s' ∧ s'.worldRunning = false

theorem Pc.holdsCoord_of_collects {pc : Pc} (h : pc.collects = true) : pc.holdsCoord = true :=
  Pc.holdsCoord_of_hasBumped (Pc.hasBumped_of_stopsWorld (Pc.stopsWorld_of_collects h))

/-- A driver past its wait loop stays there until it lets the world run. -/
theorem StoppedStep.collects (hd : (s.pc d).collects = true) (h : StoppedStep s s') :
    (s'.pc d).collects = true := by
  obtain ⟨m, a, hstep, hw⟩ := h
  by_cases hdm : d = m
  · subst hdm
    apply step_elim hstep
    · rintro hpc rfl
      simp [hpc, Pc.collects] at hd
    · intro h
      cases hpc : s.pc d <;> rw [hpc] at h hd <;> simp [Pc.collects] at hd <;>
        simp only [Coordinator.advance, lockPark] at h
      case visiting pending others f => cases pending <;> cases h <;> simp [Pc.collects]
      case guardWorld u =>
        cases h
        simp at hw
      all_goals repeat' split at h
      all_goals cases h
      all_goals simp [Pc.collects]
    · rintro hpc rfl
      simp [hpc, Pc.collects] at hd
    · rintro (hpc | hpc) rfl <;> simp [hpc, Pc.collects] at hd
    · rintro others f hpc rfl
      simp [Pc.collects]
    · rintro others hpc rfl
      simp [Pc.collects]
    · rintro others f hpc rfl
      simp [Pc.collects]
    · intro hpc _
      simp [hpc, Pc.collects] at hd
  · rw [step_pc hstep hdm]
    exact hd

theorem Inv.collects_of_stoppedSteps (hI : Inv s) (hd : (s.pc d).collects = true)
    (h : Relation.ReflTransGen StoppedStep s s') : Inv s' ∧ (s'.pc d).collects = true := by
  induction h with
  | refl => exact ⟨hI, hd⟩
  | tail _ hstep ih =>
      have hnext := hstep
      obtain ⟨m, a, hone, -⟩ := hnext
      exact ⟨ih.1.step hone, hstep.collects ih.2⟩

/-- Stop-the-world exclusion: the world is stopped only between a driver's stop and its resume,
one driver at a time is past its wait loop, and from there until the world runs again every other
active mutator is stopped. -/
theorem world_stopped_excludes (hs : Reachable s) :
    (s.worldRunning = false → ∃ d, (s.pc d).stopsWorld = true) ∧
    ∀ d, (s.pc d).collects = true →
      s.worldRunning = false ∧
      (∀ d', (s.pc d').collects = true → d' = d) ∧
      ∀ s', Relation.ReflTransGen StoppedStep s s' →
        ∀ j, j ≠ d → (s'.inner j).isActive = true → Stopped s' j := by
  have hI := hs.inv
  refine ⟨hI.stopped.1, fun d hd => ⟨hI.stopped.2 ⟨d, Pc.stopsWorld_of_collects hd⟩, ?_, ?_⟩⟩
  · intro d' hd'
    exact hI.coord.unique (Pc.holdsCoord_of_collects hd') (Pc.holdsCoord_of_collects hd)
  · intro s' hrun j hj hactive
    obtain ⟨hI', hd'⟩ := hI.collects_of_stoppedSteps hd hrun
    exact hI'.stopped_of_collects hd' hj hactive

end Inv

/-- Two mutators register; the first drives and the second parks for it. -/
def parkedRun : List (MutatorId × Action) :=
  [(0, .register)] ++ nexts 0 4 ++ [(1, .register)] ++
    nexts 1 4 ++ [(0, .collect [7] [])] ++ nexts 0 12 ++
    [(1, .poll [9])] ++ nexts 1 6 ++ nexts 0 5

theorem world_stopped_excludes_parked : ∃ s, Reachable s ∧ s.worldRunning = false ∧
    (s.pc 0).collects = true ∧ (s.inner 1).isActive = true ∧ Stopped s 1 := by
  have hrun : ((init fun _ => .blank).run parkedRun).map
      (fun s => ((s.pc 0).collects, (s.inner 1).isActive)) = some (true, true) := by decide +kernel
  obtain ⟨s, hs, hat⟩ := Option.map_eq_some_iff.1 hrun
  obtain ⟨hcollects, hactive⟩ := Prod.mk.inj hat
  have hreach := run_reachable (.init _) hs
  obtain ⟨hw, -, hstopped⟩ := (world_stopped_excludes hreach).2 0 hcollects
  exact ⟨s, hreach, hw, hcollects, hactive, hstopped s .refl 1 (by decide) hactive⟩

end Coordinator

end NewGc
