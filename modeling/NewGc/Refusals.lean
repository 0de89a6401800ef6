import NewGc.AllocSpec
import NewGc.Client

/-!
# Refusals — what a failed allocation leaves behind

An allocator returns `None` for one of three reasons: a gate turns the request away, no page is
Free, or the operating system refuses to commit a page.  The first two leave the heap as it was.
The third happens after the free list was popped or after part of a run was stamped, and nothing
is undone: the popped page is on no list any more, the stamped pages belong to no object.
-/

namespace NewGc

open PageHeap

/-! ## Requests -/

/-- A call of one of the allocation entry points. -/
inductive AllocRequest
  | cons (generation : Generation)
  | boxed (generation : Generation) (nCells : Nat)
  | large (nCells : Nat) (generation : Generation)
  | slab (cells : Nat)
  | tlab (generation : Generation) (kind : PageKind) (minCells wantCells : Nat)
  deriving DecidableEq, Repr

/-- Make the request: was it granted, and the heap after it. -/
def AllocRequest.attempt (h : PageHeap) : AllocRequest → Bool × PageHeap
  | .cons g => ((h.tryAllocConsIn g).1.isSome, (h.tryAllocConsIn g).2)
  | .boxed g n => ((h.tryAllocBoxedIn g n).1.isSome, (h.tryAllocBoxedIn g n).2)
  | .large n g => ((h.tryAllocLarge n g).1.isSome, (h.tryAllocLarge n g).2)
  | .slab n => ((h.tryAllocG0Slab n).1.isSome, (h.tryAllocG0Slab n).2)
  | .tlab g k m n => ((h.reserveTlab g k m n).1.isSome, (h.reserveTlab g k m n).2)

/-- Requests name a generation objects live in. -/
def AllocRequest.generation : AllocRequest → Generation
  | .cons g | .boxed g _ | .large _ g | .tlab g _ _ _ => g
  | .slab _ => .G0

/-- Nothing a later request depends on has changed, and no Free page dropped off the free list. -/
structure FailedCleanly (h h' : PageHeap) : Prop where
  descs : h'.descs = h.descs
  allocRegions : h'.allocRegions = h.allocRegions
  startBits : ∀ c, h.genAt c ≠ .Free → h'.startBits c = h.startBits c
  bytes : h'.bytesAllocSinceGc = h.bytesAllocSinceGc
  listed : ∀ p < h.nPages, (h.descs p).generation = .Free → p ∈ h.freePageList →
    p ∈ h'.freePageList

theorem FailedCleanly.refl (h : PageHeap) : FailedCleanly h h where
  descs := rfl
  allocRegions := rfl
  startBits := fun _ _ => rfl
  bytes := rfl
  listed := fun _ _ _ hp => hp

/-! ## When a request goes wrong -/

namespace PageHeap

/-- The open page of a region has room for `n` more cells. -/
def HasRoom (h : PageHeap) (g : Generation) (k : PageKind) (n : Nat) : Prop :=
  (h.allocRegions g k).currentPage.isSome ∧ (h.allocRegions g k).offset + n ≤ pageSizeCells

/-- The next commit request is for an uncommitted page, and the operating system refuses it. -/
def CommitRefused (h : PageHeap) (idx : Nat) : Prop :=
  h.committed idx = false ∧ h.os h.osRequests = false

/-- The page the free list offers next is refused, and the list does not hold it twice. -/
def LosesPage (h : PageHeap) : Prop :=
  ∃ idx rest, (h.freePageList.dropWhile fun i => (h.descs i).generation ≠ .Free) = idx :: rest ∧
    idx < h.nPages ∧ h.CommitRefused idx ∧ idx ∉ rest

/-- When the pages of a run are committed in order, page `i` of it is refused. -/
def RunRefused (h : PageHeap) (start i : Nat) : Prop :=
  h.committed (start + i) = false ∧
    h.os (h.osRequests + (List.range i).countP fun j => !h.committed (start + j)) = false

/-- Pages a large object takes. -/
def largePages (nCells : Nat) : Nat := (nCells + (pageSizeCells - 1)) / pageSizeCells

/-- The gates of `try_alloc_large` let the request through. -/
def LargeAdmitted (h : PageHeap) (nCells : Nat) (g : Generation) : Prop :=
  h.poisoned = false ∧ ¬ (g = .G0 ∧ h.recycleLiveCountsActiveFor .G0 = false ∧
    h.youngPageCap < h.countPagesInGen .G0 + largePages nCells)

/-- A run is found, its first page is committed and a later one is refused. -/
def CutsRun (h : PageHeap) (nCells : Nat) (g : Generation) : Prop :=
  h.LargeAdmitted nCells g ∧ ∃ start, h.findContiguousFreePages (largePages nCells) = some start ∧
    ¬ h.RunRefused start 0 ∧ ∃ i < largePages nCells, h.RunRefused start i

instance (h : PageHeap) (start i : Nat) : Decidable (h.RunRefused start i) :=
  inferInstanceAs (Decidable (_ ∧ _))

instance (h : PageHeap) (nCells : Nat) (g : Generation) : Decidable (h.LargeAdmitted nCells g) :=
  inferInstanceAs (Decidable (_ ∧ _))

instance (h : PageHeap) (nCells : Nat) (g : Generation) : Decidable (h.CutsRun nCells g) :=
  decidable_of_iff (h.LargeAdmitted nCells g ∧
    ∃ start ∈ (h.findContiguousFreePages (largePages nCells)).toList,
      ¬ h.RunRefused start 0 ∧ ∃ i < largePages nCells, h.RunRefused start i) <| by
    simp only [CutsRun, Option.mem_toList]

end PageHeap

namespace AllocRequest

/-- A small request passes the gates and has to open a page. -/
def OpensPage (h : PageHeap) : AllocRequest → Prop
  | .cons g => h.poisoned = false ∧ ¬ h.HasRoom g .Cons 2 ∧ h.youngCapReached g = false
  | .boxed g n => (1 ≤ n ∧ n ≤ pageSizeCells) ∧
      h.poisoned = false ∧ ¬ h.HasRoom g .Boxed n ∧ h.youngCapReached g = false
  | .slab n => 1 ≤ n ∧ ¬ h.HasRoom .G0 .Boxed (min n pageSizeCells) ∧
      h.gcFreePageReserveForMutatorSlab < h.countPagesInGen .Free ∧
      h.countPagesInGen .G0 < h.youngPageCap
  | .tlab g k m _ => h.poisoned = false ∧ ¬ h.HasRoom g k (max m 1) ∧ h.youngCapReached g = false
  | .large _ _ => False

/-- The request fails half way: it loses the page it popped, or leaves part of a run stamped. -/
def Leaks (h : PageHeap) : AllocRequest → Prop
  | .large n g => h.CutsRun n g
  | r => r.OpensPage h ∧ h.LosesPage

end AllocRequest

/-! ## Commits -/

/-- A page of the reservation fails to be committed exactly when the request is refused. -/
theorem commitPage_none_iff {h : PageHeap} {idx : Nat} (hlt : idx < h.nPages) :
    (h.commitPage idx).1 = none ↔ h.CommitRefused idx := by
  unfold commitPage CommitRefused
  rw [if_neg (Nat.not_le.2 hlt)]
  cases hcom : h.committed idx with
  | true => simp
  | false =>
      cases hos : h.os h.osRequests with
      | true => simp
      | false => simp

/-- A granted commit consumes one request unless the page was committed before. -/
theorem commitPage_granted {h h' : PageHeap} {idx : Nat} {z : Bool}
    (hc : h.commitPage idx = (some z, h')) : h'.os = h.os ∧
      h'.osRequests = h.osRequests + (if h.committed idx then 0 else 1) ∧
      ∀ j, j ≠ idx → h'.committed j = h.committed j := by
  unfold commitPage at hc
  by_cases hlt : h.nPages ≤ idx
  · rw [if_pos hlt] at hc
    cases hc
  · rw [if_neg hlt] at hc
    cases hcom : h.committed idx with
    | true =>
        rw [if_pos hcom] at hc
        cases hc
        exact ⟨rfl, rfl, fun _ _ => rfl⟩
    | false =>
        rw [hcom] at hc
        cases hos : h.os h.osRequests with
        | true =>
            rw [hos] at hc
            cases hc
            exact ⟨rfl, rfl, fun j hj => Function.update_of_ne hj _ _⟩
        | false =>
            rw [hos] at hc
            cases hc

/-! ## Opening a page -/

/-- A refused page leaves the tables as they were; only the free list was popped. -/
theorem acquireFreePage_popped {h h' : PageHeap} {g : Generation} {k : PageKind}
    (hacq : h.acquireFreePage g k = (none, h')) :
    h'.freePageList = h.popFreePage.2 ∧ h'.bytesAllocSinceGc = h.bytesAllocSinceGc := by
  unfold acquireFreePage at hacq
  cases hpop : h.popFreePage.1 with
  | none =>
      simp only [hpop] at hacq
      cases hacq
      exact ⟨rfl, rfl⟩
  | some idx =>
      simp only [hpop, commitPage] at hacq
      -- out of range, already committed, granted, refused
      split_ifs at hacq <;> cases hacq <;> exact ⟨rfl, rfl⟩

/-- A page the list offers is taken unless its commit is refused. -/
theorem acquireFreePage_none_cons {h h' : PageHeap} {g : Generation} {k : PageKind} {idx : Nat}
    {rest : List Nat} (hacq : h.acquireFreePage g k = (none, h')) (hlt : idx < h.nPages)
    (hlist : (h.freePageList.dropWhile fun i => (h.descs i).generation ≠ .Free) = idx :: rest) :
    h.CommitRefused idx := by
  have hpop : h.popFreePage = (some idx, rest) := by
    unfold popFreePage
    rw [hlist]
  unfold acquireFreePage at hacq
  simp only [hpop] at hacq
  split at hacq
  · rename_i h₁ hcommit
    refine (commitPage_none_iff (h := { h with
      freePageList := rest
      pagesHighWater := max h.pagesHighWater (idx + 1) }) hlt).1 ?_
    rw [hcommit]
  · cases hacq

/-- A request that fails at the commit is clean exactly when it does not lose the page. -/
theorem acquireFreePage_failedCleanly {h h' : PageHeap} {g : Generation} {k : PageKind}
    (hacq : h.acquireFreePage g k = (none, h')) : FailedCleanly h h' ↔ ¬ h.LosesPage := by
  have hU := acquireFreePage_none hacq
  obtain ⟨hlist', hbytes⟩ := acquireFreePage_popped hacq
  constructor
  · rintro hclean ⟨idx, rest, hlist, hlt, hrefused, hout⟩
    have hpop : h.popFreePage = (some idx, rest) := by
      unfold popFreePage
      rw [hlist]
    have hfree : (h.descs idx).generation = .Free := popFreePage_free (by rw [hpop])
    have hmem : idx ∈ h.freePageList :=
      List.dropWhile_subset _ (by rw [hlist]; exact List.mem_cons_self)
    have := hclean.listed idx hlt hfree hmem
    rw [hlist', hpop] at this
    exact hout this
  · intro hkeeps
    refine ⟨hU.descs, hU.allocRegions, fun c _ => by rw [hU.startBits], hbytes, ?_⟩
    intro p hlt hfree hp
    have hdrop : p ∈ h.freePageList.dropWhile fun i => (h.descs i).generation ≠ .Free :=
      Pool.mem_dropWhile_free (P := h.pool) hp hfree
    rw [hlist']
    unfold popFreePage
    cases hlist : h.freePageList.dropWhile fun i => (h.descs i).generation ≠ .Free with
    | nil =>
        rw [hlist] at hdrop
        cases hdrop
    | cons idx rest =>
        rw [hlist] at hdrop
        rcases List.mem_cons.1 hdrop with rfl | hrest
        · -- the popped page itself: refused, so the list holds it once more
          have hrefused := acquireFreePage_none_cons hacq hlt hlist
          exact not_not.1 fun hne => hkeeps ⟨p, rest, hlist, hlt, hrefused, hne⟩
        · exact hrest

/-- A lost page was not handed out. -/
theorem acquireFreePage_lost {h : PageHeap} (hlost : h.LosesPage) (g : Generation)
    (k : PageKind) : (h.acquireFreePage g k).1 = none := by
  obtain ⟨idx, rest, hlist, hlt, ⟨hcom, hos⟩, -⟩ := hlost
  have hpop : h.popFreePage = (some idx, rest) := by
    unfold popFreePage
    rw [hlist]
  simp [acquireFreePage, hpop, commitPage, Nat.not_le.2 hlt, hcom, hos]

/-! ## Small requests -/

/-- What a small request does: with a page to open it stands and falls with the page, without one a
failure changes nothing. -/
structure Opening (h : PageHeap) (opens : Prop) (g : Generation) (k : PageKind)
    (r : Bool × PageHeap) : Prop where
  refused : opens → (h.acquireFreePage g k).1 = none → r = (false, (h.acquireFreePage g k).2)
  granted : opens → (h.acquireFreePage g k).1 ≠ none → r.1 = true
  otherwise : ¬ opens → r.1 = false → r.2 = h

theorem Opening.failedCleanly {h : PageHeap} {opens : Prop} {g : Generation} {k : PageKind}
    {r : Bool × PageHeap} (hO : Opening h opens g k r) :
    (r.1 = false → FailedCleanly h r.2) ↔ ¬ (opens ∧ h.LosesPage) := by
  by_cases hopen : opens
  · cases hacq : (h.acquireFreePage g k).1 with
    | none =>
        have hr := hO.refused hopen hacq
        have hiff := acquireFreePage_failedCleanly (h := h) (g := g) (k := k) (Prod.ext hacq rfl)
        rw [hr]
        simpa [hopen] using hiff
    | some idx =>
        have hr := hO.granted hopen (by simp [hacq])
        have hkeeps : ¬ h.LosesPage := fun hlost => by
          simp [acquireFreePage_lost hlost g k] at hacq
        simp [hr, hkeeps]
  · constructor
    · rintro - ⟨hopens, -⟩
      exact hopen hopens
    · intro _ hfail
      rw [hO.otherwise hopen hfail]
      exact FailedCleanly.refl h

/-- The bump succeeds exactly when there is room. -/
theorem tryBumpInCurrent_isSome (h : PageHeap) (g : Generation) (k : PageKind) (n : Nat)
    (isCons : Bool) : (h.tryBumpInCurrent g k n isCons).isSome = true ↔ h.HasRoom g k n := by
  rw [tryBumpInCurrent_eq]
  unfold HasRoom
  cases (h.allocRegions g k).currentPage with
  | none => simp
  | some p =>
      by_cases hroom : (h.allocRegions g k).offset + n ≤ pageSizeCells
      · simp [hroom]
      · simp [hroom, Nat.lt_of_not_le hroom]

/-- A page just opened has room for whatever fits a page. -/
theorem hasRoom_opened (h : PageHeap) (g : Generation) (k : PageKind) (p : Nat) {n : Nat}
    (hn : n ≤ pageSizeCells) :
    (h.setAllocRegion g k { currentPage := some p, offset := 0 }).HasRoom g k n := by
  simpa [HasRoom] using hn

theorem tryAllocInRegion_opening (h : PageHeap) (g : Generation) (k : PageKind) {n : Nat}
    (isCons : Bool) (hn : n ≤ pageSizeCells) :
    Opening h (h.poisoned = false ∧ ¬ h.HasRoom g k n ∧ h.youngCapReached g = false) g k
      ((h.tryAllocInRegion g k n isCons).1.isSome, (h.tryAllocInRegion g k n isCons).2) := by
  have hroom := tryBumpInCurrent_isSome h g k n isCons
  cases hpoison : h.poisoned with
  | true =>
      refine ⟨by simp, by simp, ?_⟩
      intro _ _
      simp [tryAllocInRegion, hpoison]
  | false =>
      cases hbump : h.tryBumpInCurrent g k n isCons with
      | some r =>
          rw [hbump] at hroom
          refine ⟨by simp [hroom.1 rfl], by simp [hroom.1 rfl], ?_⟩
          intro _ hfail
          simp [tryAllocInRegion, hpoison, hbump] at hfail
      | none =>
          have hno : ¬ h.HasRoom g k n := by simpa [hbump] using hroom
          cases hcap : h.youngCapReached g with
          | true =>
              refine ⟨by simp, by simp, ?_⟩
              intro _ _
              simp [tryAllocInRegion, hpoison, hbump, hcap]
          | false =>
              refine ⟨?_, ?_, by simp [hno]⟩
              · intro _ hacq
                rcases hr : h.acquireFreePage g k with ⟨r, h₁⟩
                rw [hr] at hacq
                subst hacq
                simp [tryAllocInRegion, hpoison, hbump, hcap, hr]
              · intro _ hacq
                rcases hr : h.acquireFreePage g k with ⟨r, h₁⟩
                cases r with
                | none => simp [hr] at hacq
                | some p =>
                    -- the fresh page has room for any small object
                    obtain ⟨c, hc⟩ := Option.isSome_iff_exists.1
                      ((tryBumpInCurrent_isSome _ g k n isCons).2 (hasRoom_opened h₁ g k p hn))
                    simp [tryAllocInRegion, hpoison, hbump, hcap, hr, hc]

theorem tryAllocBoxedIn_opening (h : PageHeap) (g : Generation) (n : Nat) :
    Opening h ((AllocRequest.boxed g n).OpensPage h) g .Boxed
      ((AllocRequest.boxed g n).attempt h) := by
  by_cases hn : 1 ≤ n ∧ n ≤ pageSizeCells
  · have hO := tryAllocInRegion_opening h g .Boxed false hn.2
    have hin : ¬ (n = 0 ∨ pageSizeCells < n) := by omega
    simpa only [AllocRequest.OpensPage, AllocRequest.attempt, tryAllocBoxedIn, if_neg hin, hn,
      and_self, true_and] using hO
  · have hout : n = 0 ∨ pageSizeCells < n := by omega
    refine ⟨fun ho => absurd ho.1 hn, fun ho => absurd ho.1 hn, ?_⟩
    intro _ _
    simp [AllocRequest.attempt, tryAllocBoxedIn, if_pos hout]

theorem tryBumpG0Mixed_isSome (h : PageHeap) (n : Nat) :
    (h.tryBumpG0Mixed n).isSome = true ↔ h.HasRoom .G0 .Boxed n := by
  rw [tryBumpG0Mixed_eq]
  unfold HasRoom
  cases (h.allocRegions .G0 .Boxed).currentPage with
  | none => simp
  | some p =>
      by_cases hroom : (h.allocRegions .G0 .Boxed).offset + n ≤ pageSizeCells
      · simp [hroom]
      · simp [hroom, Nat.lt_of_not_le hroom]

theorem tryAllocG0Slab_opening (h : PageHeap) (n : Nat) :
    Opening h ((AllocRequest.slab n).OpensPage h) .G0 .Boxed ((AllocRequest.slab n).attempt h) := by
  have hroom := tryBumpG0Mixed_isSome h (min n pageSizeCells)
  simp only [AllocRequest.OpensPage, AllocRequest.attempt]
  by_cases hn : n = 0
  · subst hn
    refine ⟨by simp, by simp, ?_⟩
    intro _ _
    simp [tryAllocG0Slab]
  · cases hbump : h.tryBumpG0Mixed (min n pageSizeCells) with
    | some r =>
        rw [hbump] at hroom
        refine ⟨by simp [hroom.1 rfl], by simp [hroom.1 rfl], ?_⟩
        intro _ hfail
        simp [tryAllocG0Slab, hn, tryAllocG0ConsSlab, hbump] at hfail
    | none =>
        have hno : ¬ h.HasRoom .G0 .Boxed (min n pageSizeCells) := by simpa [hbump] using hroom
        by_cases hfree : h.countPagesInGen .Free ≤ h.gcFreePageReserveForMutatorSlab
        · refine ⟨by omega, by omega, ?_⟩
          intro _ _
          simp [tryAllocG0Slab, hn, tryAllocG0ConsSlab, hbump, hfree]
        · by_cases hcap : h.youngPageCap ≤ h.countPagesInGen .G0
          · refine ⟨by omega, by omega, ?_⟩
            intro _ _
            simp [tryAllocG0Slab, hn, tryAllocG0ConsSlab, hbump, hfree, hcap]
          · refine ⟨?_, ?_, fun ho => absurd ⟨by omega, hno, by omega, by omega⟩ ho⟩
            · intro _ hacq
              rcases hr : h.acquireFreePage .G0 .Boxed with ⟨r, h₁⟩
              rw [hr] at hacq
              subst hacq
              simp [tryAllocG0Slab, hn, tryAllocG0ConsSlab, hbump, hfree, hcap, hr]
            · intro _ hacq
              rcases hr : h.acquireFreePage .G0 .Boxed with ⟨r, h₁⟩
              cases r with
              | none => simp [hr] at hacq
              | some p =>
                  obtain ⟨c, hc⟩ := Option.isSome_iff_exists.1 ((tryBumpG0Mixed_isSome _ _).2
                    (hasRoom_opened h₁ .G0 .Boxed p (Nat.min_le_right n pageSizeCells)))
                  simp [tryAllocG0Slab, hn, tryAllocG0ConsSlab, hbump, hfree, hcap, hr, hc]

/-- The buffer is carved when the open page has a cell left. -/
theorem carveTlabInCurrent_isSome (h : PageHeap) (g : Generation) (k : PageKind) (want : Nat) :
    (h.carveTlabInCurrent g k want).isSome = true ↔ h.HasRoom g k 1 := by
  rw [carveTlabInCurrent_eq]
  unfold HasRoom
  cases (h.allocRegions g k).currentPage with
  | none => simp
  | some p =>
      by_cases hroom : (h.allocRegions g k).offset + 1 ≤ pageSizeCells
      · have hleft : pageSizeCells - (h.allocRegions g k).offset ≠ 0 := by omega
        simp only [Option.bind_some, if_neg hleft, Option.isSome_some, hroom, and_self]
      · have hfull : pageSizeCells - (h.allocRegions g k).offset = 0 := by omega
        simp only [Option.bind_some, if_pos hfull, hroom, and_false]
        simp

theorem hasRoom_iff_remaining (h : PageHeap) (g : Generation) (k : PageKind) {n : Nat}
    (hn : 1 ≤ n) : h.HasRoom g k n ↔ n ≤ h.remainingCells g k := by
  unfold HasRoom remainingCells
  cases hp : (h.allocRegions g k).currentPage with
  | none =>
      simp only [hp, Option.isSome_none, Bool.false_eq_true, false_and, false_iff]
      omega
  | some p =>
      simp only [hp, Option.isSome_some, true_and]
      omega

theorem reserveTlab_opening (h : PageHeap) (g : Generation) (k : PageKind) (minCells want : Nat) :
    Opening h ((AllocRequest.tlab g k minCells want).OpensPage h) g k
      ((AllocRequest.tlab g k minCells want).attempt h) := by
  simp only [AllocRequest.OpensPage, AllocRequest.attempt]
  have hroom := hasRoom_iff_remaining h g k (n := max minCells 1) (le_max_right _ _)
  cases hpoison : h.poisoned with
  | true =>
      refine ⟨by simp, by simp, ?_⟩
      intro _ _
      simp [reserveTlab, hpoison]
  | false =>
      by_cases hrem : max minCells 1 ≤ h.remainingCells g k
      · refine ⟨by simp [hroom.2 hrem], by simp [hroom.2 hrem], ?_⟩
        intro _ hfail
        -- a page with room for the minimum has a cell left
        have hcell : h.HasRoom g k 1 := ⟨(hroom.2 hrem).1, by have := (hroom.2 hrem).2; omega⟩
        obtain ⟨r, hr⟩ := Option.isSome_iff_exists.1 ((carveTlabInCurrent_isSome h g k
          (max (max minCells 1) (Nat.min want pageSizeCells))).2 hcell)
        simp only [reserveTlab, hpoison, Bool.false_eq_true, if_false, if_pos hrem, hr] at hfail
        cases hfail
      · have hno : ¬ h.HasRoom g k (max minCells 1) := fun hr => hrem (hroom.1 hr)
        cases hcap : h.youngCapReached g with
        | true =>
            refine ⟨by simp, by simp, ?_⟩
            intro _ _
            simp [reserveTlab, hpoison, hrem, hcap]
        | false =>
            refine ⟨?_, ?_, by simp [hno]⟩
            · intro _ hacq
              rcases hr : h.acquireFreePage g k with ⟨r, h₁⟩
              rw [hr] at hacq
              subst hacq
              simp [reserveTlab, hpoison, hrem, hcap, hr]
            · intro _ hacq
              rcases hr : h.acquireFreePage g k with ⟨r, h₁⟩
              cases r with
              | none => simp [hr] at hacq
              | some p =>
                  obtain ⟨c, hc⟩ := Option.isSome_iff_exists.1
                    ((carveTlabInCurrent_isSome _ g k (max (max minCells 1)
                      (Nat.min want pageSizeCells))).2
                      (hasRoom_opened h₁ g k p (n := 1) (by decide)))
                  simp only [reserveTlab, hpoison, Bool.false_eq_true, if_false, if_neg hrem, hcap,
                    hr, hc, Option.isSome_some]

/-! ## Large requests -/

/-- What the stamping loop sees of the commit machinery after the first `i` pages of a run that
starts in `h₀` were granted. -/
structure RunCommits (h₀ h : PageHeap) (start i : Nat) : Prop where
  os : h.os = h₀.os
  nPages : h.nPages = h₀.nPages
  requests : h.osRequests =
    h₀.osRequests + (List.range i).countP fun j => !h₀.committed (start + j)
  committed : ∀ j, i ≤ j → h.committed (start + j) = h₀.committed (start + j)

theorem RunCommits.start (h : PageHeap) (start : Nat) : RunCommits h h start 0 :=
  ⟨rfl, rfl, rfl, fun _ _ => rfl⟩

/-- A refusal of the next page, seen from the heap the run started in. -/
theorem RunCommits.refused_iff {h₀ h : PageHeap} {start i : Nat} (hC : RunCommits h₀ h start i) :
    h.CommitRefused (start + i) ↔ h₀.RunRefused start i := by
  unfold CommitRefused RunRefused
  rw [hC.committed i le_rfl, hC.os, hC.requests]

/-- A granted page. -/
theorem RunCommits.next {h₀ h h₁ h₂ : PageHeap} {start i : Nat} {z : Bool}
    (hC : RunCommits h₀ h start i) (hcommit : h.commitPage (start + i) = (some z, h₁))
    (hos : h₂.os = h₁.os) (hn : h₂.nPages = h₁.nPages) (hreq : h₂.osRequests = h₁.osRequests)
    (hcom : h₂.committed = h₁.committed) : RunCommits h₀ h₂ start (i + 1) := by
  obtain ⟨hos₁, hreq₁, hcom₁⟩ := commitPage_granted hcommit
  obtain ⟨-, hcontrol, -⟩ := commitPage_some hcommit
  refine ⟨by rw [hos, hos₁, hC.os], by rw [hn, hcontrol.nPages, hC.nPages], ?_, ?_⟩
  · rw [hreq, hreq₁, hC.requests, hC.committed i le_rfl, List.range_succ, List.countP_append]
    cases hpage : h₀.committed (start + i) with
    | true => simp [hpage]
    | false => simp [hpage, Nat.add_assoc]
  · intro j hj
    rw [hcom, hcom₁ _ (by omega), hC.committed j (by omega)]

/-- The stamping loop stops exactly when a page of the run is refused. -/
theorem stampLargePages_fails_iff {h₀ : PageHeap} {g : Generation} {start n : Nat} :
    ∀ m i h, RunCommits h₀ h start i → start + (i + m) ≤ h₀.nPages →
      ((stampLargePages g start n (List.range' i m) h).1 = false ↔
        ∃ j, i ≤ j ∧ j < i + m ∧ h₀.RunRefused start j) := by
  intro m
  induction m with
  | zero =>
      intro i h _ _
      simp only [List.range'_zero, stampLargePages]
      constructor
      · intro hf
        cases hf
      · rintro ⟨j, hle, hlt, -⟩
        omega
  | succ m ih =>
      intro i h hC hfits
      have hrefused := hC.refused_iff
      have hin : start + i < h.nPages := by
        rw [hC.nPages]
        omega
      rw [List.range'_succ, stampLargePages]
      dsimp only
      split
      · -- refused here
        rename_i h₁ hcommit
        simp only [true_iff]
        refine ⟨i, le_rfl, by omega, hrefused.1 ((commitPage_none_iff hin).1 ?_)⟩
        rw [hcommit]
      · -- granted: a refusal can only come later
        rename_i z h₁ hcommit
        have hgranted : ¬ h₀.RunRefused start i := by
          rw [← hrefused, ← commitPage_none_iff hin, hcommit]
          simp
        rw [ih (i + 1)]
        · constructor
          · rintro ⟨j, hle, hlt, hj⟩
            exact ⟨j, by omega, by omega, hj⟩
          · rintro ⟨j, hle, hlt, hj⟩
            have hne : j ≠ i := by
              rintro rfl
              exact hgranted hj
            exact ⟨j, by omega, by omega, hj⟩
        · refine hC.next hcommit ?_ ?_ ?_ ?_ <;> split <;> rfl
        · omega

/-- A run cut after its first page leaves that page stamped. -/
theorem stampLargePages_cut {g : Generation} {start n m : Nat} {h h' : PageHeap} (hg : g ≠ .Free)
    (hfree : (h.descs start).generation = .Free) (hfirst : ¬ h.RunRefused start 0)
    (hlt : start < h.nPages)
    (hstamp : stampLargePages g start n (List.range' 0 (m + 1)) h = (false, h')) :
    h'.descs ≠ h.descs := by
  have hC := (RunCommits.start h start).refused_iff
  rw [List.range'_succ, stampLargePages] at hstamp
  dsimp only at hstamp
  split at hstamp
  · rename_i h₁ hcommit
    have hnone : (h.commitPage (start + 0)).1 = none := by rw [hcommit]
    exact absurd (hC.1 ((commitPage_none_iff hlt).1 hnone)) hfirst
  · rename_i z h₁ hcommit
    obtain ⟨l, hpre, hst, -⟩ := stampLargePages_stamped _ _ hstamp
    -- the pages stamped later are others than the head
    have hout : ¬ InRun start l start := by
      rintro ⟨-, hmem⟩
      have := hpre.subset hmem
      simp only [List.mem_range'_1] at this
      omega
    intro hdescs
    have hhead := congrFun hdescs start
    rw [hst.descs, if_neg hout] at hhead
    have hgen := congrArg PageDesc.generation hhead
    rw [hfree] at hgen
    apply hg
    rw [← hgen]
    split <;> simp [clearPageStartBits, setDesc, zeroWholePage, PageDesc.fresh]

/-- A refusal of the first page leaves nothing behind. -/
theorem stampLargePages_refused {g : Generation} {start n : Nat} {h : PageHeap}
    (hfirst : h.RunRefused start 0) (hlt : start < h.nPages) (l : List Nat) :
    FailedCleanly h (stampLargePages g start n (0 :: l) h).2 := by
  have hC := (RunCommits.start h start).refused_iff
  rcases hcommit : h.commitPage (start + 0) with ⟨r, h₁⟩
  have hnone : r = none := by
    have := (commitPage_none_iff hlt).2 (hC.2 hfirst)
    rwa [show h.commitPage start = (r, h₁) from hcommit] at this
  subst hnone
  have hU := commitPage_none hcommit
  have hkept : h₁.freePageList = h.freePageList ∧ h₁.bytesAllocSinceGc = h.bytesAllocSinceGc := by
    unfold commitPage at hcommit
    split_ifs at hcommit <;> cases hcommit <;> exact ⟨rfl, rfl⟩
  rw [stampLargePages, hcommit]
  exact ⟨hU.descs, hU.allocRegions, fun c _ => by rw [hU.startBits], hkept.2,
    fun p _ _ hp => by rwa [hkept.1]⟩

/-- Stamping a free run fails cleanly unless the run is cut after its first page. -/
theorem stampLargePages_failedCleanly {g : Generation} {start m : Nat} {h : PageHeap}
    (hg : g ≠ .Free) (hfits : start + (m + 1) ≤ h.nPages)
    (hfree : (h.descs start).generation = .Free) :
    ((stampLargePages g start (m + 1) (List.range (m + 1)) h).1 = false →
        FailedCleanly h (stampLargePages g start (m + 1) (List.range (m + 1)) h).2) ↔
      ¬ (¬ h.RunRefused start 0 ∧ ∃ i < m + 1, h.RunRefused start i) := by
  have hfails := stampLargePages_fails_iff (g := g) (n := m + 1) (m + 1) 0 h
    (RunCommits.start h start) (by simpa using hfits)
  rw [List.range_eq_range']
  by_cases hfirst : h.RunRefused start 0
  · have hclean := stampLargePages_refused (g := g) (n := m + 1) hfirst (by omega)
      (List.range' 1 m)
    constructor
    · rintro - ⟨hne, -⟩
      exact hne hfirst
    · intro _ _
      exact hclean
  · constructor
    · rintro hclean ⟨-, i, hi, hrefused⟩
      have hfalse := hfails.2 ⟨i, Nat.zero_le i, by omega, hrefused⟩
      refine stampLargePages_cut hg hfree hfirst (by omega) (Prod.ext hfalse rfl) ?_
      exact (hclean hfalse).descs
    · intro hnone hfalse
      obtain ⟨i, -, hi, hrefused⟩ := hfails.1 hfalse
      exact absurd ⟨hfirst, i, by omega, hrefused⟩ hnone

/-- The request for a run is clean unless the run is cut. -/
theorem tryAllocLarge_failedCleanly {h : PageHeap} {n : Nat} {g : Generation} (hg : g ≠ .Free) :
    ((h.tryAllocLarge n g).1 = none → FailedCleanly h (h.tryAllocLarge n g).2) ↔
      ¬ h.CutsRun n g := by
  have hclean : (none : Option Nat) = none → FailedCleanly h h := fun _ => FailedCleanly.refl h
  unfold tryAllocLarge CutsRun LargeAdmitted
  rw [← largePages]
  by_cases hpoison : h.poisoned = true
  · rw [if_pos hpoison]
    simp [hpoison, FailedCleanly.refl]
  · rw [if_neg hpoison]
    by_cases hcap : g = .G0 ∧ h.recycleLiveCountsActiveFor .G0 = false ∧
        h.youngPageCap < h.countPagesInGen .G0 + largePages n
    · rw [if_pos hcap]
      exact ⟨fun _ hcut => hcut.1.2 hcap, fun _ => hclean⟩
    · rw [if_neg hcap]
      cases hfind : h.findContiguousFreePages (largePages n) with
      | none => simp [FailedCleanly.refl]
      | some start =>
          dsimp only
          cases hm : largePages n with
          | zero => simp [stampLargePages]
          | succ m =>
              obtain ⟨hfits, hfree⟩ := findContiguousFreePages_free (by omega) hfind
              rw [hm] at hfits hfree hcap
              -- the raised mark is no business of the commits
              have hrun := stampLargePages_failedCleanly (g := g) (m := m)
                (h := { h with pagesHighWater := max h.pagesHighWater (start + (m + 1)) })
                hg hfits (hfree start le_rfl (by omega))
              rcases hstamp : stampLargePages g start (m + 1) (List.range (m + 1))
                { h with pagesHighWater := max h.pagesHighWater (start + (m + 1)) } with ⟨b, h₂⟩
              rw [hstamp] at hrun
              have hcuts : ((h.poisoned = false ∧ ¬ (g = .G0 ∧
                    h.recycleLiveCountsActiveFor .G0 = false ∧
                    h.youngPageCap < h.countPagesInGen .G0 + (m + 1))) ∧
                  ∃ s, some start = some s ∧ ¬ h.RunRefused s 0 ∧ ∃ i < m + 1, h.RunRefused s i) ↔
                  (¬ h.RunRefused start 0 ∧ ∃ i < m + 1, h.RunRefused start i) := by
                constructor
                · rintro ⟨-, s, hs, hrest⟩
                  cases hs
                  exact hrest
                · exact fun hrest => ⟨⟨by simpa using hpoison, hcap⟩, start, rfl, hrest⟩
              rw [hcuts]
              cases b with
              | true =>
                  refine Iff.trans ⟨fun _ hf => ?_, fun _ hf => ?_⟩ hrun
                  · cases hf
                  · cases hf
              | false =>
                  refine Iff.trans ⟨fun hc _ => ?_, fun hc _ => ?_⟩ hrun
                  · have := hc rfl
                    exact ⟨this.descs, this.allocRegions, this.startBits, this.bytes, this.listed⟩
                  · have := hc rfl
                    exact ⟨this.descs, this.allocRegions, this.startBits, this.bytes, this.listed⟩

/-! ## Every request -/

/-- A failed request changes nothing if and only if it does not leak: it neither loses the page the
free list offered nor leaves a run half stamped. -/
theorem failed_allocation_clean (h : PageHeap) (r : AllocRequest) (hg : r.generation ≠ .Free) :
    ((r.attempt h).1 = false → FailedCleanly h (r.attempt h).2) ↔ ¬ r.Leaks h := by
  cases r with
  | cons g => exact (tryAllocInRegion_opening h g .Cons true (by decide)).failedCleanly
  | boxed g n => exact (tryAllocBoxedIn_opening h g n).failedCleanly
  | slab n => exact (tryAllocG0Slab_opening h n).failedCleanly
  | tlab g k m n => exact (reserveTlab_opening h g k m n).failedCleanly
  | large n g =>
      have hlarge := tryAllocLarge_failedCleanly (h := h) (n := n) (g := g) hg
      simpa [AllocRequest.attempt, AllocRequest.Leaks] using hlarge

/-- A cons has taken the first page and the system refuses the second one: the large request fails
and leaves nothing behind. -/
theorem failed_allocation_clean_refused : ∃ w,
    (World.lispWorld 2 [1]).run lispLayout
        [.allocCons .G0 (LispLayout.fixnum 1) LispLayout.nil] = some w ∧
      ((AllocRequest.large 4 .G0).attempt w.heap).1 = false ∧
      FailedCleanly w.heap ((AllocRequest.large 4 .G0).attempt w.heap).2 := by
  have hrun : (((World.lispWorld 2 [1]).run lispLayout
      [.allocCons .G0 (LispLayout.fixnum 1) LispLayout.nil]).map fun w =>
        decide (((AllocRequest.large 4 .G0).attempt w.heap).1 = false) &&
          decide (¬ w.heap.CutsRun 4 .G0)) = some true := by
    decide +kernel
  obtain ⟨w, hw, hchecks⟩ := Option.map_eq_some_iff.1 hrun
  simp only [Bool.and_eq_true, decide_eq_true_eq] at hchecks
  obtain ⟨hfails, hcut⟩ := hchecks
  exact ⟨w, hw, hfails, (failed_allocation_clean w.heap (.large 4 .G0) (by decide)).2 hcut hfails⟩

/-! ## Two failures that leave a trace -/

/-- The system refuses the only page: it is Free and on no list.  It refuses the second page of a
large run: the first one stays stamped as the head of a run of two. -/
theorem failed_allocation_leaks :
    (∃ (w : World) (r : AllocRequest), World.Reachable lispLayout w ∧ r.generation ≠ .Free ∧
      (r.attempt w.heap).1 = false ∧ ¬ FailedCleanly w.heap (r.attempt w.heap).2) ∧
    ∃ (w : World) (n p : Nat), World.Reachable lispLayout w ∧
      ((AllocRequest.large n .G0).attempt w.heap).1 = false ∧
      (w.heap.descs p).generation = .Free ∧
      (((AllocRequest.large n .G0).attempt w.heap).2.descs p).isLargeHead = true := by
  constructor
  · refine ⟨World.lispWorld 1 [0], .cons .G0, World.lispWorld_reached [0] (by decide), by decide,
      by decide +kernel, ?_⟩
    intro hclean
    have hlisted := hclean.listed 0 (by decide) (by decide) (by decide)
    have hempty : ((AllocRequest.cons .G0).attempt (World.lispWorld 1 [0]).heap).2.freePageList = []
        := by decide +kernel
    rw [hempty] at hlisted
    cases hlisted
  · exact ⟨World.lispWorld 2 [1], 8193, 0, World.lispWorld_reached [1] (by decide),
      by decide +kernel, by decide, by decide +kernel⟩

end NewGc
