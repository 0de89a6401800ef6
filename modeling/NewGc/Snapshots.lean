import NewGc.Exclusion

/-!
# Snapshots — published roots across collections

A mutator publishes its roots before it stops, every collection that runs meanwhile rewrites them
in place, and it copies them back before it goes on.  The slots of a driver's `extra` closure are
shown to that driver's own collection only.
-/

namespace NewGc

open Coordinator

/-! ## Where roots are published -/

namespace Pc

/-- Between the publish and the copy back. -/
def published : Pc → Bool
  | .parkFlush _ | .parkLock _ | .parkAnnounce _ | .parkEpoch _ | .parkWorld _ | .parkWait _
  | .parkUnlock | .parkCopy | .enterFlush | .enterLock | .enterState | .enterUnlock | .native
  | .leaveLock | .leaveWorld | .leaveWait | .leaveEpoch | .leaveState | .leaveUnlock | .leaveCopy
  | .collectFlush | .announceLock | .announceFlag | .announceUnlock | .coordLock | .stopLock
  | .stopEpoch | .stopLast _ | .stopWorld _ | .stopUnlock _ | .registrySnapshot _ | .waitLock _ _ _
  | .waitCheck _ _ _ | .waitSleep _ _ _ | .waitUnlock _ | .heapLock _ | .collecting _
  | .visiting _ _ _ | .heapUnlock _ | .guardLock _ | .guardWorld _ | .guardFlag _ | .guardUnlock _
  | .coordUnlock _ | .collectCopy => true
  | _ => false

/-- About to publish. -/
def publishes : Pc → Bool
  | .parkPublish _ | .enterPublish | .collectPublish => true
  | _ => false

/-- About to copy back. -/
def returns : Pc → Bool
  | .parkCopy | .leaveCopy | .collectCopy => true
  | _ => false

/-- The mutators a visiting driver has left, and where it moves things. -/
def visit : Pc → Option (List MutatorId × (Word → Word))
  | .visiting pending _ f => some (pending, f)
  | _ => none

/-- Inside `drive_collect`, before the driver's own collection shows any root. -/
def awaitsOwn : Pc → Bool
  | .collectPublish | .collectFlush | .announceLock | .announceFlag | .announceUnlock | .coordLock
  | .stopLock | .stopEpoch | .stopLast _ | .stopWorld _ | .stopUnlock _ | .registrySnapshot _
  | .waitLock _ _ _ | .waitCheck _ _ _ | .waitSleep _ _ _ | .waitUnlock _ | .heapLock _
  | .collecting _ => true
  | _ => false

/-- Inside `drive_collect`, after a collection that did not panic. -/
def pastOwn : Pc → Bool
  | .heapUnlock u | .guardLock u | .guardWorld u | .guardFlag u | .guardUnlock u
  | .coordUnlock u => !u
  | .collectCopy => true
  | _ => false

theorem collectCopy_of_pastOwn {pc : Pc} (h : (pc.pastOwn && !pc.holdsCoord) = true) :
    pc = .collectCopy := by
  cases pc <;> simp [pastOwn, holdsCoord] at h
  rfl

theorem active_of_published {pc : Pc} (h : pc.published = true) : pc.active = true := by
  cases pc <;> simp_all [published, active]

theorem collects_of_visit {pc : Pc} {v : List MutatorId × (Word → Word)} (h : pc.visit = some v) :
    pc.collects = true := by
  cases pc <;> simp_all [visit, collects]

end Pc

namespace Coordinator

/-! ## What a step does to the collections -/

/-- What one step does to the snapshots and to the list of collections. -/
inductive VisitStep (s s' : Coordinator) (m : MutatorId) : Prop
  | idle (hcycles : s'.cycles = s.cycles) (hpc : (s.pc m).visit = none)
      (hpc' : (s'.pc m).visit = none)
  | start (others : List MutatorId) (f : Word → Word) (hpc : s.pc m = .collecting others)
      (hs' : s' = s.setThread m fun t =>
        { t with
          pc := .visiting others others f
          extra := t.extra.map f
          presented := s.cycles.length :: t.presented })
  | visit (i : MutatorId) (pending others : List MutatorId) (f : Word → Word)
      (hpc : s.pc m = .visiting (i :: pending) others f)
      (hs' : s' = (s.visitSnapshot i f).goto m (.visiting pending others f))
  | finish (others : List MutatorId) (f : Word → Word) (u : Bool)
      (hpc : s.pc m = .visiting [] others f)
      (hs' : s' = (s.recordCycle m f).goto m (.heapUnlock u))

section Steps

variable {s s' : Coordinator} {m j d : MutatorId} {a : Action}

theorem step_visit (h : s.step m a = some s') : VisitStep s s' m := by
  apply step_elim h
  · rintro hpc rfl
    exact .idle rfl (by rw [hpc]; rfl) (by simp [Pc.visit])
  · intro h
    cases hpc : s.pc m <;> rw [hpc] at h <;> simp only [Coordinator.advance, lockPark] at h
    case visiting pending others f =>
      cases pending with
      | nil => exact .finish others f false hpc (Option.some.inj h).symm
      | cons i pending => exact .visit i pending others f hpc (Option.some.inj h).symm
    case coordUnlock unwinding =>
      cases unwinding <;> cases h <;> apply VisitStep.idle <;> simp [hpc, Pc.visit]
    case waitCheck t pending others =>
      cases pending with
      | nil =>
          cases h
          apply VisitStep.idle <;> simp [hpc, Pc.visit]
      | cons i pending =>
          dsimp only at h
          split at h <;> cases h <;> apply VisitStep.idle <;> simp [hpc, Pc.visit]
    all_goals repeat' split at h
    all_goals cases h
    all_goals apply VisitStep.idle <;> simp [hpc, Pc.visit]
  · rintro hpc rfl
    exact .idle rfl (by rw [hpc]; rfl) (by simp [Pc.visit])
  · rintro (hpc | hpc) rfl <;> exact .idle rfl (by rw [hpc]; rfl) (by simp [Pc.visit])
  · exact fun others f hpc hs' => .start others f hpc hs'
  · rintro others hpc rfl
    exact .idle rfl (by rw [hpc]; rfl) (by simp [Pc.visit])
  · exact fun others f hpc hs' => .finish others f true hpc hs'
  · intro hpc h
    obtain ⟨f, rfl, -, hpc'⟩ := call_running h
    refine .idle rfl (by rw [hpc]; rfl) ?_
    rcases hpc' with h' | ⟨b, h'⟩ | h' | h' | h' | h' <;> rw [h'] <;> simp [hpc, Pc.visit]

/-- What a thread's own step does to its published roots, outside a visit. -/
theorem step_ownSnapshot (h : s.step m a = some s') (hv : (s.pc m).visit = none)
    (hpub : (s'.pc m).published = true) :
    ((s.pc m).publishes = true ∧ (s'.inner m).rootsSnapshot = (s'.thread m).roots ∧
      (s'.thread m).published = (s'.thread m).roots ∧
      (s'.thread m).publishedAt = s.cycles.length) ∨
    ((s.pc m).published = true ∧ (s'.inner m).rootsSnapshot = (s.inner m).rootsSnapshot ∧
      (s'.thread m).roots = (s.thread m).roots ∧
      (s'.thread m).published = (s.thread m).published ∧
      (s'.thread m).publishedAt = (s.thread m).publishedAt) := by
  apply step_elim h
  · rintro hpc rfl
    simp [Pc.published] at hpub
  · intro h
    cases hpc : s.pc m <;> rw [hpc] at h <;> simp only [Coordinator.advance, lockPark] at h
    case visiting pending others f => simp [hpc, Pc.visit] at hv
    case coordUnlock unwinding =>
      cases unwinding <;> cases h <;> simp_all [Pc.published, Pc.publishes]
    case waitCheck t pending others =>
      cases pending with
      | nil =>
          cases h
          simp_all [Pc.published, Pc.publishes]
      | cons i pending =>
          dsimp only at h
          split at h <;> cases h <;> simp_all [Pc.published, Pc.publishes]
    all_goals repeat' split at h
    all_goals cases h
    all_goals simp_all [Pc.published, Pc.publishes]
  · rintro hpc rfl
    simp [hpc, Pc.published]
  · rintro (hpc | hpc) rfl <;> simp [Pc.published] at hpub
  · rintro others f hpc rfl
    simp [hpc, Pc.published]
  · rintro others hpc rfl
    simp [hpc, Pc.published]
  · rintro others f hpc rfl
    simp [hpc, Pc.visit] at hv
  · intro hpc h
    obtain ⟨f, rfl, -, hpc'⟩ := call_running h
    rcases hpc' with h' | ⟨b, h'⟩ | h' | h' | h' | h' <;> rw [h'] at hpub <;>
      simp [hpc, Pc.published] at hpub

end Steps

/-! ## Snapshots in flight -/

/-- What a collection that is showing its roots has already done to a mutator's snapshot. -/
def pendingMove (s : Coordinator) (j : MutatorId) (w : Word) : Word :=
  match s.coordMutex with
  | none => w
  | some d =>
      match (s.pc d).visit with
      | none => w
      | some (pending, f) => if j ∈ pending then w else f w

/-- A published snapshot holds the published words, relocated by every collection since. -/
structure SnapshotOk (s : Coordinator) (j : MutatorId) : Prop where
  publishedAt : (s.thread j).publishedAt ≤ s.cycles.length
  roots : (s.thread j).roots = (s.thread j).published
  snapshot : (s.inner j).rootsSnapshot = (s.thread j).published.map fun w =>
    pendingMove s j (relocated (s.cycles.drop (s.thread j).publishedAt) w)

/-- Every published snapshot is up to date, and no mutator is shown twice. -/
structure SnapshotsOk (s : Coordinator) : Prop where
  snapshot : ∀ j, (s.pc j).published = true → SnapshotOk s j
  nodup : ∀ d pending f, (s.pc d).visit = some (pending, f) → pending.Nodup

theorem relocated_append (l l' : List Cycle) (w : Word) :
    relocated (l ++ l') w = relocated l' (relocated l w) := by
  unfold relocated
  rw [List.foldl_append]

section Published

variable {s s' : Coordinator} {m j d : MutatorId} {a : Action}

theorem pendingMove_visit (hI : Inv s) {pending : List MutatorId} {f : Word → Word}
    (hd : (s.pc d).visit = some (pending, f)) (w : Word) :
    pendingMove s j w = if j ∈ pending then w else f w := by
  have hheld := hI.coord.held (Pc.holdsCoord_of_collects (Pc.collects_of_visit hd))
  simp only [pendingMove, hheld, hd]

theorem pendingMove_idle (h : ∀ d, (s.pc d).visit = none) (w : Word) : pendingMove s j w = w := by
  unfold pendingMove
  split
  · rfl
  · rw [h]

theorem Inv.visit_unique (hI : Inv s) {v : List MutatorId × (Word → Word)}
    (hd : (s.pc d).visit = some v) (hj : j ≠ d) : (s.pc j).visit = none := by
  cases hv : (s.pc j).visit with
  | none => rfl
  | some v' =>
      exact absurd (hI.coord.unique (Pc.holdsCoord_of_collects (Pc.collects_of_visit hv))
        (Pc.holdsCoord_of_collects (Pc.collects_of_visit hd))) hj

/-- A mutator that is neither stopped nor driving keeps the roots from being shown. -/
theorem Inv.not_visiting (hI : Inv s) (hactive : (s.pc j).active = true) (hq : ¬ Quiet s j)
    (hj : (s.pc j).visit = none) : ∀ d, (s.pc d).visit = none := by
  intro d
  cases hv : (s.pc d).visit with
  | none => rfl
  | some v =>
      have hne : j ≠ d := by
        rintro rfl
        rw [hj] at hv
        cases hv
      rcases hI.awaited d [] (Pc.awaits_of_collects (Pc.collects_of_visit hv)) j hne hactive with h | h
      · cases h
      · exact absurd h hq

/-- The copy back and the publish happen while nobody is shown anything. -/
theorem Inv.idle_of_own (hI : Inv s) (h : (s.pc j).publishes = true ∨ (s.pc j).returns = true) :
    ∀ d, (s.pc d).visit = none := by
  apply hI.not_visiting (j := j)
  · cases hpc : s.pc j <;> rw [hpc] at h <;> simp_all [Pc.publishes, Pc.returns, Pc.active]
  · unfold Quiet
    cases hpc : s.pc j <;> rw [hpc] at h <;>
      simp_all [Pc.publishes, Pc.returns, Pc.parkedAt, Pc.abroad, Pc.dropping]
  · cases hpc : s.pc j <;> rw [hpc] at h <;> simp_all [Pc.publishes, Pc.returns, Pc.visit]

/-- A step that shows nothing leaves what is in flight alone. -/
theorem pendingMove_same (hI : Inv s) (hI' : Inv s') (h : s.step m a = some s')
    (hpc : (s.pc m).visit = none) (hpc' : (s'.pc m).visit = none) (w : Word) :
    pendingMove s' j w = pendingMove s j w := by
  by_cases hidle : ∀ d, (s.pc d).visit = none
  · rw [pendingMove_idle hidle, pendingMove_idle]
    intro d
    by_cases hd : d = m
    · rw [hd, hpc']
    · rw [step_pc h hd]
      exact hidle d
  · obtain ⟨d, hd⟩ := not_forall.1 hidle
    cases hv : (s.pc d).visit with
    | none => exact absurd hv hd
    | some v =>
        have hdm : d ≠ m := by
          rintro rfl
          exact hd hpc
        rw [pendingMove_visit hI hv, pendingMove_visit hI' (d := d) (by rw [step_pc h hdm, hv])]

theorem SnapshotsOk.step (hI : Inv s) (hI' : Inv s') (hS : SnapshotsOk s)
    (h : s.step m a = some s') : SnapshotsOk s' := by
  cases step_visit h with
  | idle hcycles hpc hpc' =>
      refine ⟨fun j hpub => ?_, fun d pending f hd => ?_⟩
      · by_cases hj : j = m
        · subst hj
          rcases step_ownSnapshot h hpc hpub with ⟨hpubs, hsnap, hpubl, hat⟩ |
            ⟨hpub₀, hsnap, hroots, hpubl, hat⟩
          · -- a publish
            refine ⟨by rw [hat, hcycles], hpubl.symm, ?_⟩
            have hidle := hI.idle_of_own (Or.inl hpubs)
            have hmove : ∀ w, pendingMove s' j w = w := fun w => by
              rw [pendingMove_same hI hI' h hpc hpc', pendingMove_idle hidle]
            rw [hsnap, hat, hcycles, hpubl]
            simp [hmove, relocated]
          · obtain ⟨hle, hr, hs⟩ := hS.snapshot j hpub₀
            refine ⟨by rw [hat, hcycles]; exact hle, by rw [hroots, hpubl]; exact hr, ?_⟩
            rw [hsnap, hat, hcycles, hpubl, hs]
            exact List.map_congr_left fun w _ => (pendingMove_same hI hI' h hpc hpc' _).symm
        · rw [step_pc h hj] at hpub
          obtain ⟨hle, hr, hs⟩ := hS.snapshot j hpub
          have hinner : s'.inner j = s.inner j := by
            rcases step_inner h hj with hsame | ⟨pending, others, f, hvisit, -⟩
            · exact hsame
            · rw [hvisit] at hpc
              simp [Pc.visit] at hpc
          refine ⟨by rw [step_thread h hj, hcycles]; exact hle,
            by rw [step_thread h hj]; exact hr, ?_⟩
          rw [hinner, step_thread h hj, hcycles, hs]
          exact List.map_congr_left fun w _ => (pendingMove_same hI hI' h hpc hpc' _).symm
      · by_cases hdm : d = m
        · rw [hdm, hpc'] at hd
          cases hd
        · rw [step_pc h hdm] at hd
          exact hS.nodup d pending f hd
  | start others f hpc hs' =>
      have hidle : ∀ d, (s.pc d).visit = none := by
        intro d
        by_cases hd : d = m
        · rw [hd, hpc]
          rfl
        · cases hv : (s.pc d).visit with
          | none => rfl
          | some v =>
              exact absurd (hI.coord.unique
                (Pc.holdsCoord_of_collects (Pc.collects_of_visit hv)) (by rw [hpc]; rfl)) hd
      obtain ⟨hnodup, hmem⟩ := hI.roster m others (by rw [hpc]; rfl)
      have hvisit : (s'.pc m).visit = some (others, f) := by
        rw [hs']
        simp [Pc.visit]
      refine ⟨fun j hpub => ?_, fun d pending g hd => ?_⟩
      · have hpub₀ : (s.pc j).published = true := by
          by_cases hj : j = m
          · rw [hj, hpc]
            rfl
          · rwa [step_pc h hj] at hpub
        obtain ⟨hle, hr, hs⟩ := hS.snapshot j hpub₀
        have hthread : (s'.thread j).publishedAt = (s.thread j).publishedAt ∧
            (s'.thread j).roots = (s.thread j).roots ∧
            (s'.thread j).published = (s.thread j).published := by
          by_cases hj : j = m
          · subst hj
            rw [hs']
            simp
          · rw [step_thread h hj]
            exact ⟨rfl, rfl, rfl⟩
        obtain ⟨hat, hroots, hpubl⟩ := hthread
        have hcycles : s'.cycles = s.cycles := by rw [hs']; rfl
        have hinner : s'.inner = s.inner := by rw [hs']; rfl
        refine ⟨by rw [hat, hcycles]; exact hle, by rw [hroots, hpubl]; exact hr, ?_⟩
        rw [hinner, hat, hcycles, hpubl, hs]
        refine List.map_congr_left fun w _ => ?_
        rw [pendingMove_idle hidle, pendingMove_visit hI' hvisit,
          if_pos (hmem j (Pc.active_of_published hpub₀))]
      · by_cases hdm : d = m
        · rw [hdm, hvisit] at hd
          obtain ⟨rfl, -⟩ := Prod.mk.inj (Option.some.inj hd)
          exact hnodup
        · rw [step_pc h hdm] at hd
          exact hS.nodup d pending g hd
  | visit i pending others f hpc hs' =>
      have hvisit : (s.pc m).visit = some (i :: pending, f) := by rw [hpc]; rfl
      have hvisit' : (s'.pc m).visit = some (pending, f) := by
        rw [hs']
        simp [Pc.visit]
      have hnodup := hS.nodup m _ f hvisit
      refine ⟨fun j hpub => ?_, fun d waiting g hd => ?_⟩
      · have hpub₀ : (s.pc j).published = true := by
          by_cases hj : j = m
          · rw [hj, hpc]
            rfl
          · rwa [step_pc h hj] at hpub
        obtain ⟨hle, hr, hs⟩ := hS.snapshot j hpub₀
        have hthread : (s'.thread j).publishedAt = (s.thread j).publishedAt ∧
            (s'.thread j).roots = (s.thread j).roots ∧
            (s'.thread j).published = (s.thread j).published := by
          by_cases hj : j = m
          · subst hj
            rw [hs']
            simp
          · rw [step_thread h hj]
            exact ⟨rfl, rfl, rfl⟩
        obtain ⟨hat, hroots, hpubl⟩ := hthread
        have hcycles : s'.cycles = s.cycles := by rw [hs']; rfl
        have hinner : s'.inner j = (s.visitSnapshot i f).inner j := by rw [hs']; rfl
        have hactive : (s.inner j).isActive = true :=
          (hI.thread j).active.trans (Pc.active_of_published hpub₀)
        refine ⟨by rw [hat, hcycles]; exact hle, by rw [hroots, hpubl]; exact hr, ?_⟩
        rw [hinner, hat, hcycles, hpubl]
        simp only [pendingMove_visit hI' hvisit']
        simp only [pendingMove_visit hI hvisit] at hs
        by_cases hji : j = i
        · -- the snapshot that is being shown
          subst hji
          have hnotMem : j ∉ pending := (List.nodup_cons.1 hnodup).1
          simp only [visitSnapshot, setInner_inner, Function.update_self, hactive, if_true, hs,
            List.map_map, hnotMem, if_false]
          simp [Function.comp_def]
        · have hmem : j ∈ i :: pending ↔ j ∈ pending := by simp [hji]
          simp only [visitSnapshot, setInner_inner, ne_eq, hji, not_false_eq_true,
            Function.update_of_ne, hs, hmem]
      · by_cases hdm : d = m
        · rw [hdm, hvisit'] at hd
          obtain ⟨rfl, -⟩ := Prod.mk.inj (Option.some.inj hd)
          exact (List.nodup_cons.1 hnodup).2
        · rw [step_pc h hdm] at hd
          exact hS.nodup d waiting g hd
  | finish others f u hpc hs' =>
      have hvisit : (s.pc m).visit = some ([], f) := by rw [hpc]; rfl
      have hidle : ∀ d, (s'.pc d).visit = none := by
        intro d
        by_cases hd : d = m
        · rw [hd, hs']
          simp [Pc.visit]
        · rw [step_pc h hd]
          exact hI.visit_unique hvisit hd
      refine ⟨fun j hpub => ?_, fun d pending g hd => ?_⟩
      · have hpub₀ : (s.pc j).published = true := by
          by_cases hj : j = m
          · rw [hj, hpc]
            rfl
          · rwa [step_pc h hj] at hpub
        obtain ⟨hle, hr, hs⟩ := hS.snapshot j hpub₀
        have hthread : (s'.thread j).publishedAt = (s.thread j).publishedAt ∧
            (s'.thread j).roots = (s.thread j).roots ∧
            (s'.thread j).published = (s.thread j).published := by
          by_cases hj : j = m
          · subst hj
            rw [hs']
            simp
          · rw [step_thread h hj]
            exact ⟨rfl, rfl, rfl⟩
        obtain ⟨hat, hroots, hpubl⟩ := hthread
        have hcycles : s'.cycles = s.cycles ++ [Cycle.mk m f] := by rw [hs']; rfl
        have hinner : s'.inner = s.inner := by rw [hs']; rfl
        refine ⟨?_, by rw [hroots, hpubl]; exact hr, ?_⟩
        · rw [hat, hcycles, List.length_append]
          omega
        · rw [hinner, hat, hcycles, hpubl, hs, List.drop_append_of_le_length hle]
          refine List.map_congr_left fun w _ => ?_
          rw [pendingMove_visit hI hvisit, pendingMove_idle hidle, relocated_append]
          simp [relocated]
      · rw [hidle d] at hd
        cases hd

theorem Reachable.snapshots (hs : Reachable s) : SnapshotsOk s := by
  induction hs with
  | init inner =>
      refine ⟨fun j hpub => ?_, fun d pending f hd => ?_⟩
      · simp [Coordinator.init, Coordinator.pc, Pc.published] at hpub
      · simp [Coordinator.init, Coordinator.pc, Pc.visit] at hd
  | step m a hs hstep ih => exact ih.step hs.inv (hs.inv.step hstep) hstep

theorem copyBack_of_length {roots snap : List Word} (h : snap.length = roots.length) :
    copyBack roots snap = snap := by
  unfold copyBack
  rw [List.take_of_length_le (by omega), List.drop_of_length_le (by omega), List.append_nil]

/-- What is copied back, once the copy is due. -/
theorem SnapshotOk.copyBack (hI : Inv s) (hok : SnapshotOk s j) (hret : (s.pc j).returns = true) :
    copyBack (s.thread j).roots (s.inner j).rootsSnapshot =
      (s.thread j).published.map (relocated (s.cycles.drop (s.thread j).publishedAt)) := by
  obtain ⟨-, hroots, hsnap⟩ := hok
  have hidle := hI.idle_of_own (Or.inr hret)
  rw [copyBack_of_length (by rw [hsnap, hroots, List.length_map]), hsnap]
  exact List.map_congr_left fun w _ => pendingMove_idle hidle _

theorem published_of_returns {pc : Pc} (h : pc.returns = true) : pc.published = true := by
  cases pc <;> simp_all [Pc.returns, Pc.published]

/-- No published root is lost or forwarded twice: when `poll_safepoint`, `leave_native`,
`collect_minor` or `collect_full` comes back, the caller's slice holds what was published, relocated
by exactly the collections that ran since, in order; a poll that does not park leaves it alone. -/
theorem roots_relocated_once (hs : Reachable s) :
    (∀ s', (s.pc m).returns = true → s.step m .next = some s' →
      s'.pc m = .running ∧ (s'.thread m).roots =
        (s.thread m).published.map (relocated (s.cycles.drop (s.thread m).publishedAt))) ∧
    (∀ s' roots, s.pc m = .running → s.step m (.poll roots) = some s' → s'.pc m = .running →
      (s'.thread m).roots = roots ∧ s'.cycles = s.cycles) := by
  have hI := hs.inv
  refine ⟨fun s' hret hstep => ?_, fun s' roots hpc hstep hrun => ?_⟩
  · have hok := hs.snapshots.snapshot m (published_of_returns hret)
    have hs' : s' = s.copyRoots m := by
      cases hpc : s.pc m <;> rw [hpc] at hret <;> simp [Pc.returns] at hret <;>
        simpa [Coordinator.step, hpc, Coordinator.advance] using hstep.symm
    subst hs'
    exact ⟨by simp, by simpa using hok.copyBack hI hret⟩
  · simp only [Coordinator.step, hpc, call] at hstep
    split at hstep
    · obtain rfl := Option.some.inj hstep
      exact ⟨by simp, rfl⟩
    · obtain rfl := Option.some.inj hstep
      simp at hrun

end Published

/-- A mutator parks for one collection and comes back with its root relocated. -/
def parkAndReturn : List (MutatorId × Action) :=
  parkedRun ++ [(0, .next), (0, .relocate (· + 1))] ++ nexts 0 9 ++
    nexts 1 4

theorem roots_relocated_once_parked : ∃ s s', Reachable s ∧ s.step 1 .next = some s' ∧
    s'.pc 1 = .running ∧ (s'.thread 1).roots =
      (s.thread 1).published.map (relocated (s.cycles.drop (s.thread 1).publishedAt)) := by
  have hrun : ((init fun _ => .blank).run parkAndReturn).map
      (fun s => ((s.pc 1).returns, (s.step 1 .next).isSome)) = some (true, true) := by decide +kernel
  obtain ⟨s, hs, hat⟩ := Option.map_eq_some_iff.1 hrun
  obtain ⟨hret, hsome⟩ := Prod.mk.inj hat
  obtain ⟨s', hstep⟩ := Option.isSome_iff_exists.1 hsome
  have hreach := run_reachable (.init _) hs
  exact ⟨s, s', hreach, hstep, (roots_relocated_once hreach).1 s' hret hstep⟩

/-! ## The `extra` closure -/

/-- No collection driven by `j` is among those from `k` on. -/
def NoneBy (cycles : List Cycle) (j : MutatorId) (k : Nat) : Prop :=
  ∀ c ∈ cycles.drop k, c.driver ≠ j

/-- What the slots of an `extra` closure have been through since the call. -/
structure CallOk (s : Coordinator) (j : MutatorId) : Prop where
  before : (s.pc j).awaitsOwn = true → (s.thread j).presented = [] ∧
    (s.thread j).extra = (s.thread j).extraAtCall ∧
    (s.thread j).calledAt ≤ s.cycles.length ∧ NoneBy s.cycles j (s.thread j).calledAt
  during : ∀ pending others f, s.pc j = .visiting pending others f →
    (s.thread j).presented = [s.cycles.length] ∧
    (s.thread j).extra = (s.thread j).extraAtCall.map f ∧
    (s.thread j).calledAt ≤ s.cycles.length ∧ NoneBy s.cycles j (s.thread j).calledAt
  after : (s.pc j).pastOwn = true → ∃ earlier f, s.cycles = earlier ++ [Cycle.mk j f] ∧
    (s.thread j).presented = [earlier.length] ∧
    (s.thread j).extra = (s.thread j).extraAtCall.map f ∧
    (s.thread j).calledAt ≤ earlier.length ∧ NoneBy earlier j (s.thread j).calledAt

section Extra

variable {s s' : Coordinator} {m j d : MutatorId} {a : Action}

/-- What a driver's own step does to its slots, outside a visit. -/
theorem step_ownCall (h : s.step m a = some s') (hv : (s.pc m).visit = none)
    (hv' : (s'.pc m).visit = none) :
    ((s'.pc m).awaitsOwn = true → (s'.thread m).presented = [] ∧
      (s'.thread m).extra = (s'.thread m).extraAtCall ∧
      (s'.thread m).calledAt = s.cycles.length ∨
      (s.pc m).awaitsOwn = true ∧ (s'.thread m).presented = (s.thread m).presented ∧
      (s'.thread m).extra = (s.thread m).extra ∧
      (s'.thread m).extraAtCall = (s.thread m).extraAtCall ∧
      (s'.thread m).calledAt = (s.thread m).calledAt) ∧
    ((s'.pc m).pastOwn = true → (s.pc m).pastOwn = true ∧
      (s'.thread m).presented = (s.thread m).presented ∧
      (s'.thread m).extra = (s.thread m).extra ∧
      (s'.thread m).extraAtCall = (s.thread m).extraAtCall ∧
      (s'.thread m).calledAt = (s.thread m).calledAt) := by
  apply step_elim h
  · rintro hpc rfl
    simp [Pc.awaitsOwn, Pc.pastOwn]
  · intro h
    cases hpc : s.pc m <;> rw [hpc] at h <;> simp only [Coordinator.advance, lockPark] at h
    case visiting pending others f => simp [hpc, Pc.visit] at hv
    case coordUnlock unwinding =>
      cases unwinding <;> cases h <;> simp_all [Pc.awaitsOwn, Pc.pastOwn]
    case waitCheck t pending others =>
      cases pending with
      | nil =>
          cases h
          simp_all [Pc.awaitsOwn, Pc.pastOwn]
      | cons i pending =>
          dsimp only at h
          split at h <;> cases h <;> simp_all [Pc.awaitsOwn, Pc.pastOwn]
    all_goals repeat' split at h
    all_goals cases h
    all_goals simp_all [Pc.awaitsOwn, Pc.pastOwn]
  · rintro hpc rfl
    simp [Pc.awaitsOwn, Pc.pastOwn]
  · rintro (hpc | hpc) rfl <;> simp [Pc.awaitsOwn, Pc.pastOwn]
  · rintro others f hpc rfl
    simp [Pc.visit] at hv'
  · rintro others hpc rfl
    simp [Pc.awaitsOwn, Pc.pastOwn]
  · rintro others f hpc rfl
    simp [hpc, Pc.visit] at hv
  · intro hpc h
    cases a <;> simp only [call] at h
    case bump buffer nCells =>
      simp only [Option.map_eq_some_iff] at h
      obtain ⟨tlabs, -, rfl⟩ := h
      simp [hpc, Pc.awaitsOwn, Pc.pastOwn]
    case poll roots =>
      split at h <;> cases h <;> simp [hpc, Pc.awaitsOwn, Pc.pastOwn]
    all_goals cases h
    all_goals simp [Pc.awaitsOwn, Pc.pastOwn]

theorem NoneBy.nil (cycles : List Cycle) : NoneBy cycles j cycles.length := by
  intro c hc
  simp at hc

theorem NoneBy.append {cycles : List Cycle} {k : Nat} {f : Word → Word} (h : NoneBy cycles j k)
    (hk : k ≤ cycles.length) (hm : m ≠ j) : NoneBy (cycles ++ [Cycle.mk m f]) j k := by
  intro c hc
  rw [List.drop_append_of_le_length hk] at hc
  rcases List.mem_append.1 hc with hc | hc
  · exact h c hc
  · rw [List.mem_singleton.1 hc]
    exact hm

/-- A driver that has collected but not returned keeps every other collection from finishing. -/
theorem Inv.not_visiting_of_pastOwn (hI : Inv s) (hj : (s.pc j).pastOwn = true) :
    ∀ d, (s.pc d).visit = none := by
  by_cases hret : s.pc j = .collectCopy
  · exact hI.idle_of_own (Or.inr (by rw [hret]; rfl))
  · intro d
    have hcoord : (s.pc j).holdsCoord = true := by
      cases hpc : s.pc j <;> simp_all [Pc.pastOwn, Pc.holdsCoord]
    by_cases hdj : d = j
    · subst hdj
      cases hpc : s.pc d <;> simp_all [Pc.pastOwn, Pc.visit]
    · cases hv : (s.pc d).visit with
      | none => rfl
      | some v =>
          exact absurd (hI.coord.unique (Pc.holdsCoord_of_collects (Pc.collects_of_visit hv))
            hcoord) hdj

theorem CallOk.step (hI : Inv s) (hC : ∀ j, CallOk s j) (h : s.step m a = some s') (j : MutatorId) :
    CallOk s' j := by
  obtain ⟨hbefore, hduring, hafter⟩ := hC j
  by_cases hj : j = m
  · subst hj
    cases step_visit h with
    | idle hcycles hpc hpc' =>
        obtain ⟨hown, hpast⟩ := step_ownCall h hpc hpc'
        refine ⟨fun hb => ?_, fun pending others f hv => ?_, fun ha => ?_⟩
        · rw [hcycles]
          rcases hown hb with ⟨h₁, h₂, h₃⟩ | ⟨hb₀, h₁, h₂, h₃, h₄⟩
          · rw [h₃]
            exact ⟨h₁, h₂, le_rfl, .nil _⟩
          · rw [h₁, h₂, h₃, h₄]
            exact hbefore hb₀
        · rw [hv] at hpc'
          cases hpc'
        · obtain ⟨ha₀, h₁, h₂, h₃, h₄⟩ := hpast ha
          rw [hcycles, h₁, h₂, h₃, h₄]
          exact hafter ha₀
    | start others f hpc hs' =>
        obtain ⟨h₁, h₂, h₃, h₄⟩ := hbefore (by rw [hpc]; rfl)
        subst hs'
        refine ⟨fun hb => by simp [Pc.awaitsOwn] at hb, fun pending roster g hv => ?_,
          fun ha => by simp [Pc.pastOwn] at ha⟩
        obtain ⟨-, -, rfl⟩ : _ ∧ _ ∧ f = g := by simpa using hv
        refine ⟨?_, ?_, ?_, ?_⟩
        · simp [h₁]
        · simp [h₂]
        · simpa using h₃
        · simpa using h₄
    | visit i pending others f hpc hs' =>
        obtain ⟨h₁, h₂, h₃, h₄⟩ := hduring _ _ _ hpc
        subst hs'
        refine ⟨fun hb => by simp [Pc.awaitsOwn] at hb, fun waiting roster g hv => ?_,
          fun ha => by simp [Pc.pastOwn] at ha⟩
        obtain ⟨-, -, rfl⟩ : _ ∧ _ ∧ f = g := by simpa using hv
        simp only [goto_thread, visitSnapshot_thread, Function.update_self, goto_cycles,
          visitSnapshot_cycles]
        exact ⟨h₁, h₂, h₃, h₄⟩
    | finish others f u hpc hs' =>
        obtain ⟨h₁, h₂, h₃, h₄⟩ := hduring _ _ _ hpc
        subst hs'
        refine ⟨fun hb => by simp [Pc.awaitsOwn] at hb, fun waiting roster g hv => by simp at hv,
          fun _ => ⟨s.cycles, f, rfl, ?_⟩⟩
        simp only [goto_thread, recordCycle_thread, Function.update_self]
        exact ⟨h₁, h₂, h₃, h₄⟩
  · have hthread := step_thread h hj
    have hpcj := step_pc h hj
    have hcase : s'.cycles = s.cycles ∨ ∃ f, s'.cycles = s.cycles ++ [Cycle.mk m f] ∧
        (s.pc m).visit = some ([], f) := by
      cases step_visit h with
      | idle hcycles => exact Or.inl hcycles
      | start others f hpc hs' => exact Or.inl (by rw [hs']; rfl)
      | visit i pending others f hpc hs' => exact Or.inl (by rw [hs']; rfl)
      | finish others f u hpc hs' => exact Or.inr ⟨f, by rw [hs']; rfl, by rw [hpc]; rfl⟩
    rcases hcase with hcycles | ⟨f, hcycles, hvisit⟩
    · refine ⟨?_, ?_, ?_⟩
      · rw [hpcj, hthread, hcycles]
        exact hbefore
      · rw [hpcj, hthread, hcycles]
        exact hduring
      · rw [hpcj, hthread, hcycles]
        exact hafter
    · refine ⟨fun hb => ?_, fun pending others g hv => ?_, fun ha => ?_⟩
      · rw [hpcj] at hb
        obtain ⟨h₁, h₂, h₃, h₄⟩ := hbefore hb
        rw [hthread, hcycles]
        refine ⟨h₁, h₂, ?_, h₄.append h₃ (Ne.symm hj)⟩
        rw [List.length_append]
        omega
      · rw [hpcj] at hv
        have hnone := hI.visit_unique hvisit hj
        rw [hv] at hnone
        cases hnone
      · rw [hpcj] at ha
        have hnone := hI.not_visiting_of_pastOwn ha m
        rw [hvisit] at hnone
        cases hnone

theorem Reachable.callOk (hs : Reachable s) : ∀ j, CallOk s j := by
  induction hs with
  | init inner =>
      intro j
      refine ⟨?_, ?_, ?_⟩ <;> simp [Coordinator.init, Coordinator.pc, Pc.awaitsOwn, Pc.pastOwn]
  | step m a hs hstep ih => exact CallOk.step hs.inv ih hstep

/-- Every collection since the call has been shown the slots of the closure. -/
def ExtraProtected (s : Coordinator) (m : MutatorId) : Prop :=
  ∀ k, (s.thread m).calledAt ≤ k → k < s.cycles.length → k ∈ (s.thread m).presented

/-- Every collection since the call was driven by the caller itself. -/
def DrivesAlone (s : Coordinator) (m : MutatorId) : Prop :=
  ∀ c ∈ s.cycles.drop (s.thread m).calledAt, c.driver = m

/-- The slots a driver's `extra` closure visits are shown to every collection between the call and
the return, and end up relocated by all of them, exactly when no other driver's collection came
first: a late driver queues for `coord_mutex` with only its snapshot published. -/
theorem extra_protected_iff (hs : Reachable s) (hpc : s.pc m = .collectCopy) :
    (ExtraProtected s m ∧ (s.thread m).extra = (s.thread m).extraAtCall.map
      (relocated (s.cycles.drop (s.thread m).calledAt))) ↔ DrivesAlone s m := by
  obtain ⟨earlier, f, hcycles, hpresented, hextra, hle, hnone⟩ :=
    (hs.callOk m).after (by rw [hpc]; rfl)
  have hdrop : s.cycles.drop (s.thread m).calledAt =
      earlier.drop (s.thread m).calledAt ++ [Cycle.mk m f] := by
    rw [hcycles, List.drop_append_of_le_length hle]
  constructor
  · rintro ⟨hprotected, -⟩ c hc
    -- the only collection that is shown the slots is the caller's own, the last one
    have hat : (s.thread m).calledAt = earlier.length := by
      have := hprotected (s.thread m).calledAt le_rfl (by rw [hcycles]; simp; omega)
      rw [hpresented] at this
      exact List.mem_singleton.1 this
    rw [hdrop, hat, List.drop_length, List.nil_append] at hc
    rw [List.mem_singleton.1 hc]
  · intro halone
    have hempty : earlier.drop (s.thread m).calledAt = [] := by
      refine List.eq_nil_iff_forall_not_mem.2 fun c hc => hnone c hc (halone c ?_)
      rw [hdrop]
      exact List.mem_append_left _ hc
    have hat : earlier.length ≤ (s.thread m).calledAt := List.drop_eq_nil_iff.1 hempty
    refine ⟨fun k hk hk' => ?_, ?_⟩
    · rw [hcycles, List.length_append, List.length_singleton] at hk'
      rw [hpresented, List.mem_singleton]
      omega
    · rw [hextra, hdrop, hempty]
      rfl

end Extra

/-- The second mutator's call queues behind the first one's collection. -/
def lateDriver : List (MutatorId × Action) :=
  [(0, .register)] ++ nexts 0 4 ++ [(1, .register)] ++
    nexts 1 4 ++ [(0, .collect [] [])] ++ nexts 0 6 ++
    [(1, .collect [] [9])] ++ nexts 1 5 ++ nexts 0 12 ++
    [(0, .relocate (· + 1))] ++ nexts 0 10 ++ [(0, .drop)] ++
    nexts 0 4 ++ nexts 1 12 ++
    [(1, .relocate (· + 1))] ++ nexts 1 8

/-- The first collection moves everything up by one and never sees the late driver's slot. -/
theorem extra_unprotected : ¬ ∀ s m, Reachable s → s.pc m = .collectCopy →
    ExtraProtected s m ∧ (s.thread m).extra = (s.thread m).extraAtCall.map
      (relocated (s.cycles.drop (s.thread m).calledAt)) := by
  intro hall
  have hrun : ((init fun _ => .blank).run lateDriver).map
      (fun s => ((s.pc 1).pastOwn && !(s.pc 1).holdsCoord, (s.thread 1).extra,
        (s.thread 1).extraAtCall.map (relocated (s.cycles.drop (s.thread 1).calledAt)))) =
      some (true, [10], [11]) := by decide +kernel
  obtain ⟨s, hs, hat⟩ := Option.map_eq_some_iff.1 hrun
  obtain ⟨hpc, hat⟩ := Prod.mk.inj hat
  obtain ⟨hextra, hmoved⟩ := Prod.mk.inj hat
  have hcopy : s.pc 1 = .collectCopy := Pc.collectCopy_of_pastOwn hpc
  have hlost := (hall s 1 (run_reachable (.init _) hs) hcopy).2
  rw [hextra, hmoved] at hlost
  exact absurd hlost (by decide)

/-- A driver with a slot of its own closure collects while its peer is parked. -/
def drivesAlone : List (MutatorId × Action) :=
  [(0, .register)] ++ nexts 0 4 ++ [(1, .register)] ++
    nexts 1 4 ++ [(0, .collect [7] [5])] ++ nexts 0 12 ++
    [(1, .poll [9])] ++ nexts 1 6 ++ nexts 0 6 ++ [(0, .relocate (· + 1))] ++ nexts 0 9

/-- The slot of the closure has followed the collection. -/
theorem extra_protected_alone : ∃ s, Reachable s ∧ s.pc 0 = .collectCopy ∧
    (s.thread 0).extraAtCall = [5] ∧ (s.thread 0).extra = [6] ∧ ExtraProtected s 0 ∧
      (s.thread 0).extra = (s.thread 0).extraAtCall.map
        (relocated (s.cycles.drop (s.thread 0).calledAt)) := by
  have hrun : ((init fun _ => .blank).run drivesAlone).map
      (fun s => ((s.pc 0).pastOwn && !(s.pc 0).holdsCoord, (s.thread 0).extraAtCall,
        (s.thread 0).extra, (s.cycles.drop (s.thread 0).calledAt).map Cycle.driver)) =
      some (true, [5], [6], [0]) := by decide +kernel
  obtain ⟨s, hs, hat⟩ := Option.map_eq_some_iff.1 hrun
  obtain ⟨hpc, hat⟩ := Prod.mk.inj hat
  obtain ⟨hcall, hat⟩ := Prod.mk.inj hat
  obtain ⟨hextra, hdrivers⟩ := Prod.mk.inj hat
  have hcopy : s.pc 0 = .collectCopy := Pc.collectCopy_of_pastOwn hpc
  have hreach := run_reachable (.init _) hs
  have halone : DrivesAlone s 0 := by
    intro c hc
    have hdriver := List.mem_map_of_mem (f := Cycle.driver) hc
    rw [hdrivers] at hdriver
    exact List.mem_singleton.1 hdriver
  obtain ⟨hprotected, hmoved⟩ := (extra_protected_iff hreach hcopy).2 halone
  exact ⟨s, hreach, hcopy, hcall, hextra, hprotected, hmoved⟩

end Coordinator

end NewGc
