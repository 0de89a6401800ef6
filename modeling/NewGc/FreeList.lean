import NewGc.PoolRuns

/-!
# FreeList — the free-page list never forgets a page

As long as the operating system commits what is asked for, the list holds every Free page: large
allocations claim pages without removing them from the list, which leaves stale entries, but no
page becomes Free without being pushed.  The scan behind the list is dead code.
-/

namespace NewGc

open PageHeap

/-- What the list promises to whoever asks for a page. -/
structure FreeListExact (h : PageHeap) : Prop where
  /-- Every Free page is listed. -/
  complete : ∀ p < h.nPages, (h.descs p).generation = .Free → p ∈ h.freePageList
  /-- A request fails only when no page is Free. -/
  exhausted : ∀ g k, (h.acquireFreePage g k).1 = none →
    ∀ p < h.nPages, (h.descs p).generation ≠ .Free
  /-- When the list has run out, the scan finds nothing. -/
  fallback : (∀ p ∈ h.freePageList, (h.descs p).generation ≠ .Free) →
    ((List.range h.nPages).find? fun p => (h.descs p).generation = .Free) = none
  /-- A page handed out was Free and listed. -/
  unused : ∀ g k idx, (h.acquireFreePage g k).1 = some idx →
    idx < h.nPages ∧ (h.descs idx).generation = .Free ∧ idx ∈ h.freePageList

/-- Pages past the reservation are not in use. -/
def Pool.Confined (P : Pool) : Prop := ∀ p, P.nPages ≤ p → (P.role p).generation = .Free

theorem Pool.Confined.after {P : Pool} (hC : P.Confined) (hI : P.Listed) {e : Pool.Event}
    (hen : P.Enabled e) : (P.after e).Confined := by
  intro p hp
  cases e with
  | exhaust => exact hC p hp
  | lose idx => exact hC p hp
  | count m n => exact hC p hp
  | «open» idx g k =>
      have hne : p ≠ idx := Nat.ne_of_gt (Nat.lt_of_lt_of_le hen.2.1 hp)
      simp only [Pool.after, Function.update_of_ne hne]
      exact hC p hp
  | claim start m n g =>
      have hout : ¬ Pool.Within start m p := fun hin =>
        absurd (hen.2.2.2 p ⟨hin.1, Nat.lt_of_lt_of_le hin.2 (Nat.add_le_add_left hen.2.1 _)⟩).1
          (Nat.not_lt.2 hp)
      simp only [Pool.after, if_neg hout]
      exact hC p hp
  | release idx =>
      have hne : p ≠ idx := Nat.ne_of_gt (Nat.lt_of_lt_of_le hen.1 hp)
      simp only [Pool.after, Function.update_of_ne hne]
      exact hC p hp
  | drop idx =>
      have hne : p ≠ idx := Nat.ne_of_gt (Nat.lt_of_lt_of_le hen hp)
      simp only [Pool.after, Function.update_of_ne hne]
      exact hC p hp
  | releaseRun head n =>
      simp only [Pool.after]
      split
      · rfl
      · exact hC p hp
  | flip idx g =>
      have hne : p ≠ idx := by
        rintro rfl
        exact hen.2.2 (hC p hp)
      simp only [Pool.after, Function.update_of_ne hne]
      exact hC p hp
  | flipRun head n g =>
      -- a run lies inside the reservation
      have hout : ¬ Pool.Within head n p := by
        rintro ⟨-, hlt⟩
        have hspan := hI.spans head hen.2.1
        rw [hen.2.2.1] at hspan
        exact absurd (Nat.lt_of_lt_of_le hlt hspan) (Nat.not_lt.2 hp)
      simp only [Pool.after, if_neg hout]
      exact hC p hp

/-- The constructors list every page. -/
theorem listed_withReservation (base nPages : Nat) (os : Nat → Bool) (order : HashOrder) :
    (withReservation base nPages os order).pool.Listed where
  complete := fun _ hlt _ => List.mem_range.2 hlt
  inside := fun _ hp => List.mem_range.1 hp
  spans := by intro p hp; cases hp

theorem listed_new (base youngBytes oldBytes : Nat) (os : Nat → Bool) (order : HashOrder) :
    (PageHeap.new base youngBytes oldBytes os order).pool.Listed := by
  obtain ⟨n, cap, hnew⟩ := new_eq base youngBytes oldBytes os order
  rw [hnew]
  exact listed_withReservation base n os order

/-- From the pool to the allocator: a complete list answers every request for a page. -/
theorem FreeListExact.of_listed {h : PageHeap} (hI : h.pool.Listed) (hos : ∀ k, h.os k = true) :
    FreeListExact h where
  complete := hI.complete
  exhausted := by
    intro g k hnone
    rcases acquireFreePage_cases h g k with ⟨hpop, -⟩ | ⟨idx, hpop, hrest⟩
    · exact hI.popped_none hpop
    · -- a popped page lies inside the reservation, so its commit is granted
      exfalso
      obtain ⟨rest, hlist, -⟩ := hI.popped_some hpop
      have hlt : idx < h.nPages :=
        hI.inside idx (List.dropWhile_subset _ (by rw [hlist]; exact List.mem_cons_self))
      rcases hrest with ⟨h₁, hcommit, -⟩ | ⟨z, h₁, -, hsome, -⟩
      · have hrefused := (commitPage_none_iff (h := popFor h idx) hlt).1 (by rw [hcommit])
        have hgranted : (popFor h idx).os (popFor h idx).osRequests = true := hos _
        rw [hrefused.2] at hgranted
        cases hgranted
      · rw [hnone] at hsome
        cases hsome
  fallback := by
    intro hstale
    rw [List.find?_eq_none]
    intro p hp hfree
    have hfree' : (h.descs p).generation = .Free := by simpa using hfree
    exact hstale p (hI.complete p (List.mem_range.1 hp) hfree') hfree'
  unused := by
    intro g k idx hsome
    rcases acquireFreePage_cases h g k with ⟨-, hacq⟩ | ⟨i, hpop, hrest⟩
    · rw [hacq] at hsome
      cases hsome
    · have hi : i = idx := by
        rcases hrest with ⟨h₁, -, hacq⟩ | ⟨z, h₁, -, hacq, -⟩
        · rw [hacq] at hsome
          cases hsome
        · rw [hacq] at hsome
          exact Option.some.inj hsome
      subst hi
      obtain ⟨rest, hlist, -⟩ := hI.popped_some hpop
      have hmem : i ∈ h.freePageList :=
        List.dropWhile_subset _ (show i ∈ List.dropWhile _ h.pool.free by
          rw [hlist]
          exact List.mem_cons_self)
      exact ⟨hI.inside i hmem, popFreePage_free hpop, hmem⟩

namespace World

/-- The list of every world a client can drive the heap to. -/
theorem Driven.listed {L : HeapLayout} {C : World → Op → Prop} {w : World} (hw : Driven L C w) :
    (∀ k, w.heap.os k = true) → w.heap.pool.Listed := by
  induction hw with
  | start base nPages os order ext => exact fun _ => listed_withReservation base nPages os order
  | create base youngBytes oldBytes os order ext =>
      exact fun _ => listed_new base youngBytes oldBytes os order
  | step op _ hvalid _ hstep ih =>
      intro hos
      have hs := step_pool hvalid hstep
      -- the system is the same in every state of the run
      have hgrants : ∀ k, _ = true := fun k => (congrFun hs.fixed.2 k).symm.trans (hos k)
      exact (ih hgrants).steps hgrants hs

/-- No page past the reservation is in use. -/
theorem Driven.confined {L : HeapLayout} {C : World → Op → Prop} {w : World} (hw : Driven L C w) :
    (∀ k, w.heap.os k = true) → w.heap.pool.Confined := by
  induction hw with
  | start base nPages os order ext => exact fun _ _ _ => rfl
  | create base youngBytes oldBytes os order ext =>
      intro _
      obtain ⟨n, cap, hnew⟩ := new_eq base youngBytes oldBytes os order
      show (PageHeap.new base youngBytes oldBytes os order).pool.Confined
      rw [hnew]
      exact fun _ _ => rfl
  | step op hw hvalid _ hstep ih =>
      intro hos
      have hs := step_pool hvalid hstep
      have hgrants : ∀ k, _ = true := fun k => (congrFun hs.fixed.2 k).symm.trans (hos k)
      refine (hs.keeps (I := fun P => (P.Listed ∧ ∀ k, P.grants k = true) ∧ P.Confined) ?_
        ⟨⟨hw.listed hgrants, hgrants⟩, ih hgrants⟩).2
      rintro P e ⟨⟨hI, hP⟩, hC⟩ hmay hen
      have hfixed := (Pool.Steps.of e hmay hen rfl).fixed.2
      exact ⟨⟨hI.after hP hen, fun k => (congrFun hfixed k).trans (hP k)⟩, hC.after hI hen⟩

/-- In every run whose commits are granted the free list is exact: between two requests (no events)
and at every point inside one, where the pool has gone through some of its events. -/
theorem free_list_exact {L : HeapLayout} {C : World → Op → Prop} {w : World} (hw : Driven L C w)
    (hos : ∀ k, w.heap.os k = true) {h : PageHeap}
    (hinside : Pool.Steps Pool.AnyEvent w.heap.pool h.pool) : FreeListExact h := by
  have hgrants : ∀ k, h.os k = true := fun k => (congrFun hinside.fixed.2 k).trans (hos k)
  exact FreeListExact.of_listed ((hw.listed hos).steps hos hinside) hgrants

/-- A collection moves the cons to the page of the dead string; the next string takes the page the
cons has left, past the list. -/
def staleEntryOps : List Op :=
  [.allocLarge .G0 (heapHeader .String 3),
    .allocCons .G0 (LispLayout.fixnum 1) LispLayout.nil,
    .storeExt 0 (consAt 8192),
    .collectMinor [0],
    .allocLarge .G0 (heapHeader .String 3)]

/-- After that run the list has a stale entry; inside the next request, when the page has been
acquired and no cell is given out yet, every page is in use. -/
theorem free_list_exact_stale : ∃ w, (lispWorld 3 []).run lispLayout staleEntryOps = some w ∧
    1 ∈ w.heap.freePageList ∧ (w.heap.descs 1).generation ≠ .Free ∧ FreeListExact w.heap ∧
      (w.heap.acquireFreePage .G1 .Cons).1.isSome ∧
        FreeListExact (w.heap.acquireFreePage .G1 .Cons).2 := by
  have hrun : (((lispWorld 3 []).run lispLayout staleEntryOps).map fun w =>
      decide (1 ∈ w.heap.freePageList ∧ (w.heap.descs 1).generation ≠ .Free ∧
        (w.heap.acquireFreePage .G1 .Cons).1.isSome)) = some true := by
    decide +kernel
  obtain ⟨w, hw, hchecks⟩ := Option.map_eq_some_iff.1 hrun
  obtain ⟨hlisted, hused, hgranted⟩ := of_decide_eq_true hchecks
  have hdriven := (run_reachable (lispWorld_reached [] (by decide)) hw).driven
  have hos : ∀ k, w.heap.os k = true := fun k => congrFun (run_fixed hw).2 k
  exact ⟨w, hw, hlisted, hused, free_list_exact hdriven hos .refl, hgranted,
    free_list_exact hdriven hos
      ((acquireFreePage_steps w.heap (by decide) (Or.inl rfl)).mono fun _ _ => trivial)⟩

end World

end NewGc
