import NewGc.Keeps
import NewGc.Pool
import NewGc.Refusals

/-!
# PoolSteps — every function of the heap is a run of pool events

The allocators open pages and claim runs, phase 1 opens pages in the destination generation,
phase 3 releases or flips the pages of its chunk, and everything else leaves the pool alone.
-/

namespace NewGc

open Library PageHeap

/-! ## Updates the pool does not see -/

theorem PageHeap.pool_eq {h h' : PageHeap} (hn : h'.nPages = h.nPages) (hos : h'.os = h.os)
    (hrole : ∀ p, (h'.descs p).role = (h.descs p).role) (hfree : h'.freePageList = h.freePageList)
    (hcount : h'.minorsSinceG0Promote = h.minorsSinceG0Promote ∧
      h'.g0PromotesSinceG1Promote = h.g0PromotesSinceG1Promote) : h'.pool = h.pool := by
  simp only [PageHeap.pool, hn, hos, hrole, hfree, hcount]

theorem setDesc_pool (h : PageHeap) (idx : Nat) (d : PageDesc) :
    (h.setDesc idx d).pool = { h.pool with role := Function.update h.pool.role idx d.role } := by
  unfold PageHeap.pool setDesc
  congr 1
  funext p
  by_cases heq : p = idx
  · simp [heq]
  · simp [Function.update_of_ne heq]

/-- Whether or not it is granted, a commit is no event. -/
theorem commitPage_pool {h h' : PageHeap} {idx : Nat} {r : Option Bool}
    (hc : h.commitPage idx = (r, h')) : h'.pool = h.pool := by
  unfold commitPage at hc
  split_ifs at hc <;> cases hc <;> rfl

theorem modifyDesc_pool {h : PageHeap} {idx : Nat} {f : PageDesc → PageDesc}
    (hf : (f (h.descs idx)).role = (h.descs idx).role) : (h.modifyDesc idx f).pool = h.pool := by
  refine pool_eq rfl rfl (fun p => ?_) rfl ⟨rfl, rfl⟩
  show (Function.update h.descs idx (f (h.descs idx)) p).role = _
  by_cases heq : p = idx
  · rw [heq, Function.update_self, hf]
  · rw [Function.update_of_ne heq]

@[simp] theorem advanceRegion_pool (h : PageHeap) (g : Generation) (k : PageKind) (p off n : Nat) :
    (advanceRegion h g k p off n).pool = h.pool :=
  modifyDesc_pool (h := h.setAllocRegion g k _) rfl

theorem markStart_pool (h : PageHeap) (cell : Nat) (isCons : Bool) :
    (markStart h cell isCons).pool = h.pool := by
  unfold markStart
  split <;> rfl

theorem recordPin_pool (h : PageHeap) (cell : Nat) : (h.recordPin cell).pool = h.pool := by
  have hdesc : (h.modifyDesc (cell / pageSizeCells) fun d => d.setPin (pinSlot cell)).pool =
      h.pool := modifyDesc_pool rfl
  exact hdesc

theorem markCardAt_pool (h : PageHeap) (slot : Nat) : (h.markCardAt slot).pool = h.pool := by
  unfold markCardAt
  repeat' split
  all_goals rfl

theorem decommitPage_pool (h : PageHeap) (idx : Nat) : (h.decommitPage idx).pool = h.pool := by
  unfold decommitPage
  repeat' split
  all_goals rfl

/-- Marking and rewriting leave the pool alone. -/
theorem visitInvariant_pool (P : Pool) : VisitInvariant fun h => h.pool = P where
  marks := fun _ _ hI => hI
  word := fun _ _ _ hI => hI
  large := by
    intro e p hI _
    subst hI
    unfold PageEvacuator.markLarge
    dsimp only
    split
    · rfl
    · refine pool_eq rfl rfl (fun q => ?_) rfl ⟨rfl, rfl⟩
      dsimp only
      split <;> rfl

/-! ## Opening a page -/

/-- The heap when a page has been popped: the list is shorter, the touched prefix covers it. -/
def popFor (h : PageHeap) (idx : Nat) : PageHeap :=
  { h with
    freePageList := h.popFreePage.2
    pagesHighWater := max h.pagesHighWater (idx + 1) }

/-- The three ways to ask for a page: none is Free, the commit is refused, it is opened. -/
theorem acquireFreePage_cases (h : PageHeap) (g : Generation) (k : PageKind) :
    (h.popFreePage.1 = none ∧
      h.acquireFreePage g k = (none, { h with freePageList := h.popFreePage.2 })) ∨
    ∃ idx, h.popFreePage.1 = some idx ∧
      ((∃ h₁, (popFor h idx).commitPage idx = (none, h₁) ∧ h.acquireFreePage g k = (none, h₁)) ∨
       ∃ z h₁, (popFor h idx).commitPage idx = (some z, h₁) ∧
        (h.acquireFreePage g k).1 = some idx ∧ (h.acquireFreePage g k).2.pool =
          (h₁.setDesc idx (PageDesc.fresh g k)).pool) := by
  unfold PageHeap.acquireFreePage
  dsimp only
  cases hidx : h.popFreePage.1 with
  | none => exact Or.inl ⟨rfl, rfl⟩
  | some idx =>
      refine Or.inr ⟨idx, rfl, ?_⟩
      rcases hcommit : (popFor h idx).commitPage idx with ⟨r, h₁⟩
      have hcommit' : ({ h with
          freePageList := h.popFreePage.2
          pagesHighWater := max h.pagesHighWater (idx + 1) } : PageHeap).commitPage idx
            = (r, h₁) := hcommit
      simp only [hcommit']
      cases r with
      | none => exact Or.inl ⟨h₁, rfl, rfl⟩
      | some z =>
          refine Or.inr ⟨z, h₁, rfl, rfl, ?_⟩
          dsimp only
          split <;> rfl

/-- A fresh page, or the reason there is none. -/
theorem acquireFreePage_steps (h : PageHeap) {g : Generation} {k : PageKind} (hg : g ≠ .Free)
    (hk : k = .Cons ∨ k = .Boxed) :
    Pool.Steps (Pool.OpenEvent g) h.pool (h.acquireFreePage g k).2.pool := by
  rcases acquireFreePage_cases h g k with ⟨hpop, hacq⟩ | ⟨idx, hpop, hrest⟩
  · rw [hacq]
    exact .of .exhaust trivial hpop rfl
  · have hstart : (popFor h idx).pool = { h.pool with free := h.pool.popped.2 } := rfl
    rcases hrest with ⟨h₁, hcommit, hacq⟩ | ⟨z, h₁, hcommit, -, hacq⟩
    · rw [hacq]
      refine .of (.lose idx) trivial ⟨hpop, ?_⟩ ((commitPage_pool hcommit).trans hstart)
      by_cases hlt : idx < h.nPages
      · have hrefused := (commitPage_none_iff (h := popFor h idx) hlt).1 (by rw [hcommit])
        exact Or.inr ⟨_, hrefused.2⟩
      · exact Or.inl (Nat.le_of_not_lt hlt)
    · rw [hacq]
      obtain ⟨hlt, -⟩ := commitPage_some hcommit
      refine .of (.open idx g k) rfl ⟨hpop, hlt, hg, hk⟩ ?_
      rw [setDesc_pool, commitPage_pool hcommit, hstart]
      rfl

/-! ## Small allocations -/

theorem tryBumpInCurrent_pool {h h' : PageHeap} {g : Generation} {k : PageKind} {n cell : Nat}
    {isCons : Bool} (hbump : h.tryBumpInCurrent g k n isCons = some (cell, h')) :
    h'.pool = h.pool := by
  rw [tryBumpInCurrent_eq] at hbump
  cases hp : (h.allocRegions g k).currentPage with
  | none => simp [hp] at hbump
  | some p =>
      rw [hp, Option.bind_some] at hbump
      split at hbump
      · cases hbump
      · cases hbump
        exact (markStart_pool _ _ isCons).trans (advanceRegion_pool h g k p _ n)

theorem tryAllocInRegion_steps (h : PageHeap) {g : Generation} {k : PageKind} (hg : g ≠ .Free)
    (hk : k = .Cons ∨ k = .Boxed) (n : Nat) (isCons : Bool) :
    Pool.Steps (Pool.OpenEvent g) h.pool (h.tryAllocInRegion g k n isCons).2.pool := by
  have hacq := acquireFreePage_steps h hg hk
  unfold tryAllocInRegion
  split
  · exact .refl
  · split
    · rename_i hbump
      exact .of_eq (tryBumpInCurrent_pool hbump)
    · split
      · exact .refl
      · split
        · rename_i hnone
          rw [hnone] at hacq
          exact hacq
        · rename_i p h₁ hsome
          rw [hsome] at hacq
          dsimp only
          split
          · rename_i hbump
            rw [tryBumpInCurrent_pool hbump]
            exact hacq
          · exact hacq

theorem tryAllocConsIn_steps (h : PageHeap) {g : Generation} (hg : g ≠ .Free) :
    Pool.Steps (Pool.OpenEvent g) h.pool (h.tryAllocConsIn g).2.pool :=
  tryAllocInRegion_steps h hg (Or.inl rfl) 2 true

theorem tryAllocBoxedIn_steps (h : PageHeap) {g : Generation} (hg : g ≠ .Free) (n : Nat) :
    Pool.Steps (Pool.OpenEvent g) h.pool (h.tryAllocBoxedIn g n).2.pool := by
  unfold tryAllocBoxedIn
  split
  · exact .refl
  · exact tryAllocInRegion_steps h hg (Or.inr rfl) n false

theorem carveTlabInCurrent_pool {h h' : PageHeap} {g : Generation} {k : PageKind} {want : Nat}
    {slab : Nat × Nat} (hcarve : h.carveTlabInCurrent g k want = some (slab, h')) :
    h'.pool = h.pool := by
  rw [carveTlabInCurrent_eq] at hcarve
  cases hp : (h.allocRegions g k).currentPage with
  | none => simp [hp] at hcarve
  | some p =>
      rw [hp, Option.bind_some] at hcarve
      dsimp only at hcarve
      split at hcarve
      · cases hcarve
      · cases hcarve
        exact advanceRegion_pool h g k p _ _

theorem reserveTlab_steps (h : PageHeap) {g : Generation} {k : PageKind} (hg : g ≠ .Free)
    (hk : k = .Cons ∨ k = .Boxed) (minCells want : Nat) :
    Pool.Steps (Pool.OpenEvent g) h.pool (h.reserveTlab g k minCells want).2.pool := by
  have hacq := acquireFreePage_steps h hg hk
  unfold reserveTlab
  split
  · exact .refl
  · dsimp only
    split
    · split
      · rename_i hcarve
        exact .of_eq (carveTlabInCurrent_pool hcarve)
      · exact .refl
    · split
      · exact .refl
      · split
        · rename_i hnone
          rw [hnone] at hacq
          exact hacq
        · rename_i p h₁ hsome
          rw [hsome] at hacq
          split
          · rename_i hcarve
            rw [carveTlabInCurrent_pool hcarve]
            exact hacq
          · exact hacq

theorem tryBumpG0Mixed_pool {h h' : PageHeap} {n cell : Nat}
    (hbump : h.tryBumpG0Mixed n = some (cell, h')) : h'.pool = h.pool := by
  rw [tryBumpG0Mixed_eq] at hbump
  cases hp : (h.allocRegions .G0 .Boxed).currentPage with
  | none => simp [hp] at hbump
  | some p =>
      rw [hp, Option.bind_some] at hbump
      split at hbump
      · cases hbump
      · cases hbump
        exact advanceRegion_pool h .G0 .Boxed p _ n

theorem tryAllocG0ConsSlab_steps (h : PageHeap) (cells : Nat) :
    Pool.Steps (Pool.OpenEvent .G0) h.pool (h.tryAllocG0ConsSlab cells).2.pool := by
  have hacq := acquireFreePage_steps h (g := .G0) (k := .Boxed) (by simp) (Or.inr rfl)
  unfold tryAllocG0ConsSlab
  dsimp only
  split
  · rename_i hbump
    exact .of_eq (tryBumpG0Mixed_pool hbump)
  · split
    · exact .refl
    · split
      · exact .refl
      · split
        · rename_i hnone
          rw [hnone] at hacq
          exact hacq
        · rename_i p h₁ hsome
          rw [hsome] at hacq
          split
          · rename_i hbump
            rw [tryBumpG0Mixed_pool hbump]
            exact hacq
          · exact hacq

theorem tryAllocG0Slab_steps (h : PageHeap) (cells : Nat) :
    Pool.Steps (Pool.OpenEvent .G0) h.pool (h.tryAllocG0Slab cells).2.pool := by
  have hslab := tryAllocG0ConsSlab_steps h cells
  unfold tryAllocG0Slab
  split
  · exact .refl
  · dsimp only
    split
    · rename_i hsome
      rwa [hsome] at hslab
    · rename_i hnone
      rwa [hnone] at hslab

/-! ## Large runs -/

/-- Stamping changes roles only. -/
theorem stampLargePages_fixed (g : Generation) (start n : Nat) :
    ∀ (l : List Nat) (h : PageHeap), ∃ role,
      (stampLargePages g start n l h).2.pool = { h.pool with role := role } := by
  intro l
  induction l with
  | nil => intro h; exact ⟨_, rfl⟩
  | cons i rest ih =>
      intro h
      unfold stampLargePages
      dsimp only
      split
      · rename_i hcommit
        exact ⟨_, commitPage_pool hcommit⟩
      · rename_i z h₁ hcommit
        have hpage : (if z || (h₁.descs (start + i)).zeroed then
              h₁.setDesc (start + i) (largeDesc g n i)
            else (h₁.setDesc (start + i) (largeDesc g n i)).zeroWholePage (start + i)).pool =
            { h.pool with role :=
                Function.update h.pool.role (start + i) (largeDesc g n i).role } := by
          split
          · exact (setDesc_pool _ _ _).trans (by rw [commitPage_pool hcommit])
          · exact (setDesc_pool _ _ _).trans (by rw [commitPage_pool hcommit])
        obtain ⟨role, hrole⟩ := ih ((if z || (h₁.descs (start + i)).zeroed then
              h₁.setDesc (start + i) (largeDesc g n i)
            else (h₁.setDesc (start + i) (largeDesc g n i)).zeroWholePage
              (start + i)).clearPageStartBits (start + i))
        exact ⟨role, hrole.trans (congrArg (fun P : Pool => { P with role := role }) hpage)⟩

/-- The pages stamped are a first part of the run, all of it unless a commit was refused. -/
theorem stampLargePages_pool {g : Generation} {start n : Nat} {h h' : PageHeap} {b : Bool}
    (hfits : start + n ≤ h.nPages) (hstamp : stampLargePages g start n (List.range n) h = (b, h')) :
    ∃ m, m ≤ n ∧ (b = true → m = n) ∧ (b = false → ∃ k, h.os k = false) ∧
      h'.pool = h.pool.after (.claim start m n g) := by
  obtain ⟨l, hpre, hst, hall⟩ := stampLargePages_stamped _ _ hstamp
  have hl : l = List.range l.length := by
    have := List.prefix_iff_eq_take.1 hpre
    rwa [List.take_range, Nat.min_eq_left (by simpa using hpre.length_le)] at this
  refine ⟨l.length, by simpa using hpre.length_le, ?_, ?_, ?_⟩
  · intro hb
    rw [hall hb, List.length_range]
  · intro hb
    subst hb
    have hfails := stampLargePages_fails_iff (g := g) (n := n) n 0 h (RunCommits.start h start)
      (by simpa using hfits)
    rw [← List.range_eq_range', hstamp] at hfails
    obtain ⟨i, -, -, -, hos⟩ := hfails.1 rfl
    exact ⟨_, hos⟩
  · obtain ⟨role, hfixed⟩ := stampLargePages_fixed g start n (List.range n) h
    rw [hstamp] at hfixed
    have hsame : role = h'.pool.role := (congrArg Pool.role hfixed).symm
    have hin : ∀ p, InRun start l p ↔ Pool.Within start l.length p := by
      intro p
      unfold InRun Pool.Within
      rw [hl, List.mem_range, List.length_range]
      omega
    have hrole : h'.pool.role = fun p =>
        if Pool.Within start l.length p then
          { generation := g, kind := .Large, nSpan := if p = start then n % 65536 else 0 }
        else h.pool.role p := by
      funext p
      show (h'.descs p).role = _
      rw [hst.descs]
      by_cases hp : Pool.Within start l.length p
      · rw [if_pos ((hin p).2 hp), if_pos hp]
        have hzero : p - start = 0 ↔ p = start := by
          unfold Pool.Within at hp
          omega
        simp [PageDesc.role, largeDesc, PageDesc.fresh, hzero]
      · rw [if_neg (fun hr => hp ((hin p).1 hr)), if_neg hp]
        rfl
    rw [hfixed, hsame, hrole]
    rfl

/-- A large request claims the run it finds, a part of it, or nothing. -/
theorem tryAllocLarge_claim (h : PageHeap) (n : Nat) {g : Generation} (hg : g ≠ .Free) :
    (h.tryAllocLarge n g).2.pool = h.pool ∨
      ∃ start m, h.pool.Enabled (.claim start m (largePages n) g) ∧
        (h.tryAllocLarge n g).2.pool = h.pool.after (.claim start m (largePages n) g) ∧
        ((h.tryAllocLarge n g).1 ≠ none → m = largePages n) ∧
        h.LargeAdmitted n g ∧ h.findContiguousFreePages (largePages n) = some start := by
  unfold tryAllocLarge LargeAdmitted
  rw [← largePages]
  split
  · exact Or.inl rfl
  · rename_i hpoison
    dsimp only
    split
    · exact Or.inl rfl
    · rename_i hcap
      split
      · exact Or.inl rfl
      · rename_i start hfind
        by_cases hn : 1 ≤ largePages n
        · right
          obtain ⟨hfits, hfree⟩ := findContiguousFreePages_free hn hfind
          rcases hstamp : stampLargePages g start (largePages n) (List.range (largePages n))
            { h with pagesHighWater := max h.pagesHighWater (start + largePages n) } with ⟨b, h₁⟩
          obtain ⟨m, hle, hall, hcut, hpool⟩ := stampLargePages_pool
            (h := { h with pagesHighWater := max h.pagesHighWater (start + largePages n) })
            hfits hstamp
          have hen : h.pool.Enabled (.claim start m (largePages n) g) := by
            refine ⟨hg, hle, ?_, ?_⟩
            · intro hlt
              cases b with
              | true => exact absurd (hall rfl) (Nat.ne_of_lt hlt)
              | false => exact hcut rfl
            · intro p hp
              exact ⟨Nat.lt_of_lt_of_le hp.2 hfits, hfree p hp.1 hp.2⟩
          refine ⟨start, m, hen, ?_, ?_, ⟨Bool.eq_false_iff.2 hpoison, hcap⟩, hfind⟩
          · cases b with
            | true => exact hpool
            | false => exact hpool
          · cases b with
            | true => exact fun _ => hall rfl
            | false => exact fun hsome => absurd rfl hsome
        · left
          have hzero : largePages n = 0 := by omega
          rw [hzero]
          rfl

theorem tryAllocLarge_pool (h : PageHeap) (n : Nat) {g : Generation} (hg : g ≠ .Free) :
    (h.tryAllocLarge n g).2.pool = h.pool ∨
      ∃ start m, h.pool.Enabled (.claim start m (largePages n) g) ∧
        (h.tryAllocLarge n g).2.pool = h.pool.after (.claim start m (largePages n) g) ∧
        ((h.tryAllocLarge n g).1 ≠ none → m = largePages n) := by
  rcases tryAllocLarge_claim h n hg with heq | ⟨start, m, hen, hafter, hgranted, -⟩
  · exact Or.inl heq
  · exact Or.inr ⟨start, m, hen, hafter, hgranted⟩

/-! ## Phase 1 -/

theorem allocDest_steps (h : PageHeap) {dest : Generation} (hg : dest ≠ .Free) (isCons : Bool)
    (size : Nat) : Pool.Steps (Pool.OpenEvent dest) h.pool (h.allocDest dest isCons size).2.pool := by
  cases isCons with
  | true => exact tryAllocConsIn_steps h hg
  | false => exact tryAllocBoxedIn_steps h hg size

theorem phase1Cell_steps {L : HeapLayout} {fromGen dest : Generation} (hg : dest ≠ .Free)
    {total : EvacResult} {P : Pool} {cell : Nat} {s : CopyState}
    (hI : Pool.Steps (Pool.OpenEvent dest) P s.heap.pool) :
    Outcome AnyPanic (phase1Cell L fromGen dest total cell s) fun r =>
      Pool.Steps (Pool.OpenEvent dest) P r.2.heap.pool := by
  unfold phase1Cell
  split
  · exact hI
  · split
    · exact hI
    · refine Outcome.after fun _ => ?_
      split
      · exact hI
      · refine Outcome.after fun size => ?_
        have hdest := allocDest_steps s.heap hg (s.heap.isConsStartAt cell) size
        split
        · exact hI
        · split
          · trivial
          · rename_i dest' h₁ halloc
            rw [halloc] at hdest
            exact Outcome.after fun _ => Outcome.after fun _ => hI.trans hdest

/-- Copying opens pages in the destination and does nothing else to the pool. -/
theorem phase1CopyChunk_steps {L : HeapLayout} (h : PageHeap) (fromGen : Generation)
    {dest : Generation} (hg : dest ≠ .Free) (chunk : List Nat) (total : EvacResult) :
    Outcome AnyPanic (h.phase1CopyChunk L fromGen dest chunk total) fun s =>
      Pool.Steps (Pool.OpenEvent dest) h.pool s.heap.pool := by
  refine Outcome.foldlM_inv
    (I := fun s : CopyState => Pool.Steps (Pool.OpenEvent dest) h.pool s.heap.pool) _ ?_ .refl
  intro p _ s hI
  unfold phase1ChunkPage
  dsimp only
  split
  · exact hI
  · split
    · exact hI
    · exact cellLoop_keeps
        (I := fun s : CopyState => Pool.Steps (Pool.OpenEvent dest) h.pool s.heap.pool)
        (fun cell s hI => phase1Cell_steps hg hI) _ _ _ hI

/-! ## Phase 3 -/

theorem flipLargeRun_pool (h : PageHeap) (dest : Generation) (head n : Nat) :
    (h.flipLargeRun dest head n).pool = h.pool.after (.flipRun head n dest) := by
  unfold PageHeap.pool Pool.after flipLargeRun
  congr 1
  funext p
  by_cases hin : Pool.Within head n p
  · rw [if_pos hin]
    simp [if_pos (show head ≤ p ∧ p < head + n from hin), PageDesc.role]
  · rw [if_neg hin]
    simp [if_neg (show ¬ (head ≤ p ∧ p < head + n) from hin)]

theorem releasePageToFree_pool (h : PageHeap) (idx : Nat) (zeroed : Bool) :
    (h.releasePageToFree idx zeroed).pool = h.pool.after (.drop idx) := by
  unfold PageHeap.pool Pool.after releasePageToFree modifyDesc setDesc
  congr 1
  funext p
  by_cases heq : p = idx
  · subst heq
    cases zeroed <;> simp [PageRole.free, PageDesc.release, PageDesc.releaseZeroed, PageDesc.role]
  · simp [Function.update_of_ne heq]

theorem releaseLargePage_pool (h : PageHeap) (idx : Nat) :
    (h.releaseLargePage idx).pool = h.pool.after (.drop idx) :=
  (decommitPage_pool _ idx).trans (releasePageToFree_pool _ idx true)

theorem releaseLargePages_pool (h : PageHeap) (l : List Nat) :
    (l.foldl releaseLargePage h).pool = l.foldl (fun P p => P.after (.drop p)) h.pool := by
  induction l generalizing h with
  | nil => rfl
  | cons p l ih => rw [List.foldl_cons, List.foldl_cons, ih, releaseLargePage_pool]

/-- The frame of a fold over the heap: what every step leaves alone. -/
theorem foldl_pool {α : Type} {f : PageHeap → α → PageHeap} (hf : ∀ h a, (f h a).pool = h.pool)
    (l : List α) (h : PageHeap) : (l.foldl f h).pool = h.pool := by
  induction l generalizing h with
  | nil => rfl
  | cons a l ih => rw [List.foldl_cons, ih, hf]

theorem restoreStartBit_pool (h : PageHeap) (e : Nat × Bool) :
    (h.restoreStartBit e).pool = h.pool := by
  unfold restoreStartBit
  split <;> rfl

theorem flipSmallPage_pool {L : HeapLayout} (h : PageHeap) (dest : Generation) (p : Nat)
    (pinned : List (Nat × Bool)) :
    Outcome AnyPanic (h.flipSmallPage L dest p pinned) fun h' =>
      h'.pool = h.pool.after (.flip p dest) := by
  unfold flipSmallPage
  refine Outcome.after fun ranges => Outcome.after fun _ => ?_
  have hflip : (h.modifyDesc p fun d => { d with generation := dest, age := 0 }).pool =
      h.pool.after (.flip p dest) := by
    unfold PageHeap.pool Pool.after modifyDesc setDesc
    congr 1
    funext q
    by_cases heq : q = p
    · subst heq
      simp [PageDesc.role]
    · simp [Function.update_of_ne heq]
  -- restoring start bits, zeroing cells and marking cards are no events
  have hstarts := foldl_pool restoreStartBit_pool
    (pinned.filter fun e => decide (e.1 / pageSizeCells = p))
    ((h.modifyDesc p fun d => { d with generation := dest, age := 0 }).clearPageStartBits p)
  have hcards := foldl_pool
    (f := fun h (r : Nat × Nat) => h.markCardsSpanned (r.1 * 8) (r.1 * 8 + r.2 * 8))
    (fun _ _ => rfl) ranges
    (((pinned.filter fun e => decide (e.1 / pageSizeCells = p)).foldl restoreStartBit
      ((h.modifyDesc p fun d => { d with generation := dest, age := 0 }).clearPageStartBits
        p)).zeroPageOutsideRanges p ranges)
  exact hcards.trans (hstarts.trans hflip)

/-- What phase 3 can do to page `p`. -/
inductive ReclaimEvent (dest : Generation) (p : Nat) : Pool.Event → Prop
  | release : ReclaimEvent dest p (.release p)
  | releaseRun (n : Nat) : ReclaimEvent dest p (.releaseRun p n)
  | flip : ReclaimEvent dest p (.flip p dest)
  | flipRun (n : Nat) : ReclaimEvent dest p (.flipRun p n dest)

theorem ReclaimEvent.evac {dest : Generation} {p : Nat} {e : Pool.Event}
    (he : ReclaimEvent dest p e) : Pool.EvacEvent dest e := by
  cases he with
  | release => trivial
  | releaseRun n => trivial
  | flip => rfl
  | flipRun n => rfl

/-- Phase 3 passes over a Free page and over the inner pages of a run, and disposes of any other. -/
theorem phase3Page_event {L : HeapLayout} {dest : Generation} (hg : dest ≠ .Free)
    (pinned : List (Nat × Bool)) {p : Nat} (s : ReclaimState) (hlt : p < s.heap.nPages) :
    Outcome AnyPanic (phase3Page L dest pinned s p) fun s' =>
      (s'.heap.pool = s.heap.pool ∧ ((s.heap.pool.role p).generation = .Free ∨
        ((s.heap.pool.role p).kind = .Large ∧ (s.heap.pool.role p).nSpan = 0))) ∨
      ∃ e, ReclaimEvent dest p e ∧ s.heap.pool.Enabled e ∧ s'.heap.pool = s.heap.pool.after e := by
  unfold phase3Page
  dsimp only
  split
  · rename_i hfree
    exact Or.inl ⟨rfl, Or.inl hfree⟩
  · rename_i hlive
    split
    · rename_i hcont
      simp only [PageDesc.isLargeCont, Bool.and_eq_true, decide_eq_true_eq] at hcont
      exact Or.inl ⟨rfl, Or.inr hcont⟩
    · rename_i hcont
      split
      · rename_i hhead
        simp only [PageDesc.isLargeHead, Bool.and_eq_true, decide_eq_true_eq] at hhead
        split
        · exact Or.inr ⟨_, .flipRun _, ⟨hg, hhead.1, rfl, hhead.2⟩, flipLargeRun_pool _ _ _ _⟩
        · refine Outcome.after fun _ => Or.inr ⟨_, .releaseRun _, ⟨hhead.1, rfl, hhead.2⟩, ?_⟩
          exact (releaseLargePages_pool _ _).trans (Pool.foldl_drop_run _ _ _)
      · rename_i hhead
        have hsmall : (s.heap.descs p).kind ≠ .Large := by
          intro hk
          simp only [PageDesc.isLargeCont, PageDesc.isLargeHead, hk, decide_true, Bool.true_and,
            decide_eq_true_eq] at hcont hhead
          omega
        split
        · refine (flipSmallPage_pool s.heap dest p pinned).bind fun h' hpool => ?_
          exact Or.inr ⟨_, .flip, ⟨hg, hsmall, hlive⟩, hpool⟩
        · exact Outcome.after fun _ => Or.inr ⟨_, .release, ⟨hlt, hsmall, hlive⟩,
            releasePageToFree_pool s.heap p true⟩

theorem phase3Reclaim_steps {L : HeapLayout} (h : PageHeap) {dest : Generation} (hg : dest ≠ .Free)
    {chunk : List Nat} (hchunk : ∀ p ∈ chunk, p < h.nPages) (pinned : List (Nat × Bool)) :
    Outcome AnyPanic (h.phase3Reclaim L dest chunk pinned) fun s =>
      Pool.Steps (Pool.EvacEvent dest) h.pool s.heap.pool := by
  refine Outcome.foldlM_inv
    (I := fun s : ReclaimState => Pool.Steps (Pool.EvacEvent dest) h.pool s.heap.pool) _ ?_ .refl
  intro p hp s hI
  have hn : s.heap.nPages = h.nPages := hI.fixed.1
  refine (phase3Page_event hg pinned s (by rw [hn]; exact hchunk p hp)).mono ?_
  rintro s' (⟨heq, -⟩ | ⟨e, he, hen, heq⟩)
  · rw [heq]
    exact hI
  · exact hI.tail ⟨e, he.evac, hen, heq⟩

end NewGc
