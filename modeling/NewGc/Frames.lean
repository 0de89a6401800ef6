import NewGc.Client
import NewGc.Refusals

/-!
# Frames — what an allocation may do to a heap

Whatever it returns, an allocation is made of a few updates: the free list and the touched prefix, a
commit, a new descriptor for a Free page, zeroes, start bits, a region, a fill level, the counter.  A
relation that every one of them keeps relates the heap before an allocation to the heap after it.
-/

namespace NewGc

open PageHeap

/-- A relation between heaps that every update of an allocation keeps; the counter is apart. -/
structure AllocFrame (R : PageHeap → PageHeap → Prop) : Prop where
  refl : ∀ h, R h h
  trans : ∀ {h h' h''}, R h h' → R h' h'' → R h h''
  listed : ∀ h l m, R h { h with freePageList := l, pagesHighWater := m }
  commit : ∀ h idx, R h (h.commitPage idx).2
  opened : ∀ h idx d, (h.descs idx).generation = .Free → R h (h.setDesc idx d)
  zeroed : ∀ h idx, R h (h.zeroWholePage idx)
  starts : ∀ h s, R h { h with startBits := s }
  region : ∀ h g k r, R h (h.setAllocRegion g k r)
  used : ∀ h idx n, R h (h.setDesc idx { h.descs idx with wordsUsed := n })

/-- The heap after a request that was granted `n` cells and counted them. -/
def Granted (R : PageHeap → PageHeap → Prop) (h : PageHeap) (n : Nat) (h' : PageHeap) : Prop :=
  ∃ h₁, R h h₁ ∧ h' = countBytes h₁ n

/-- A request for `n` cells is refused, or it is granted and counted. -/
def Answered {α : Type} (R : PageHeap → PageHeap → Prop) (h : PageHeap) (n : Nat) :
    Option α × PageHeap → Prop
  | (none, h') => R h h'
  | (some _, h') => Granted R h n h'

namespace AllocFrame

variable {R : PageHeap → PageHeap → Prop} (hR : AllocFrame R) {h h' : PageHeap} {g : Generation}
  {k : PageKind}

include hR

theorem advanceRegion (h : PageHeap) (g : Generation) (k : PageKind) (p off n : Nat) :
    R h (NewGc.advanceRegion h g k p off n) :=
  hR.trans (hR.region h g k _) (hR.used _ p _)

theorem markStart (h : PageHeap) (cell : Nat) (isCons : Bool) :
    R h (NewGc.markStart h cell isCons) := by
  cases isCons <;> exact hR.starts h _

theorem granted_of_left {h₁ : PageHeap} {n : Nat} (h₀ : R h h₁) (hG : Granted R h₁ n h') :
    Granted R h n h' := by
  obtain ⟨h₂, h₁₂, heq⟩ := hG
  exact ⟨h₂, hR.trans h₀ h₁₂, heq⟩

theorem tryBumpInCurrent {n cell : Nat} {isCons : Bool}
    (hbump : h.tryBumpInCurrent g k n isCons = some (cell, h')) : Granted R h n h' := by
  rw [tryBumpInCurrent_eq] at hbump
  cases hp : (h.allocRegions g k).currentPage with
  | none => simp [hp] at hbump
  | some p =>
      rw [hp, Option.bind_some] at hbump
      split at hbump
      · cases hbump
      · cases hbump
        exact ⟨_, hR.trans (hR.advanceRegion h g k p _ n) (hR.markStart _ _ isCons), rfl⟩

theorem acquireFreePage (h : PageHeap) (g : Generation) (k : PageKind) :
    R h (h.acquireFreePage g k).2 := by
  have hpop : ∀ idx, R h { h with
      freePageList := h.popFreePage.2
      pagesHighWater := max h.pagesHighWater (idx + 1) } := fun idx => hR.listed h _ _
  unfold PageHeap.acquireFreePage
  dsimp only
  split
  · exact hR.listed h h.popFreePage.2 h.pagesHighWater
  · rename_i idx hidx
    have hcommit := hR.trans (hpop idx) (hR.commit _ idx)
    split
    · rename_i h₁ hnone
      rw [hnone] at hcommit
      exact hcommit
    · rename_i z h₁ hsome
      rw [hsome] at hcommit
      -- the page popped is still Free when it gets its descriptor
      have hfree : (h₁.descs idx).generation = .Free := by
        rw [(commitPage_some hsome).2.2.2.1]
        exact popFreePage_free (h := h) hidx
      have hopened := hR.trans hcommit (hR.opened h₁ idx (PageDesc.fresh g k) hfree)
      have hcleared := hR.trans hopened (hR.starts _ fun c =>
        if c / pageSizeCells = idx then .none else h₁.startBits c)
      split
      · exact hcleared
      · exact hR.trans hcleared (hR.zeroed _ idx)

/-! ## Small objects -/

theorem tryAllocInRegion (h : PageHeap) (g : Generation) (k : PageKind) (n : Nat) (isCons : Bool) :
    Answered R h n (h.tryAllocInRegion g k n isCons) := by
  have hacq := hR.acquireFreePage h g k
  unfold PageHeap.tryAllocInRegion
  split
  · exact hR.refl h
  · split
    · rename_i hbump
      exact hR.tryBumpInCurrent hbump
    · split
      · exact hR.refl h
      · split
        · rename_i hnone
          rw [hnone] at hacq
          exact hacq
        · rename_i p h₁ hsome
          rw [hsome] at hacq
          have hset := hR.trans hacq (hR.region h₁ g k { currentPage := some p, offset := 0 })
          dsimp only
          split
          · rename_i hbump
            exact hR.granted_of_left hset (hR.tryBumpInCurrent hbump)
          · exact hset

theorem tryAllocConsIn (h : PageHeap) (g : Generation) :
    Answered R h 2 (h.tryAllocConsIn g) :=
  hR.tryAllocInRegion h g .Cons 2 true

theorem tryAllocBoxedIn (h : PageHeap) (g : Generation) (n : Nat) :
    Answered R h n (h.tryAllocBoxedIn g n) := by
  unfold PageHeap.tryAllocBoxedIn
  split
  · exact hR.refl h
  · exact hR.tryAllocInRegion h g .Boxed n false

/-! ## Buffers -/

theorem carveTlabInCurrent {want : Nat} {slab : Nat × Nat}
    (hcarve : h.carveTlabInCurrent g k want = some (slab, h')) : R h h' := by
  rw [carveTlabInCurrent_eq] at hcarve
  cases hp : (h.allocRegions g k).currentPage with
  | none => simp [hp] at hcarve
  | some p =>
      rw [hp, Option.bind_some] at hcarve
      dsimp only at hcarve
      split at hcarve
      · cases hcarve
      · cases hcarve
        exact hR.advanceRegion h g k p _ _

/-- A buffer is reserved without being counted. -/
theorem reserveTlab (h : PageHeap) (g : Generation) (k : PageKind) (minCells want : Nat) :
    R h (h.reserveTlab g k minCells want).2 := by
  have hacq := hR.acquireFreePage h g k
  unfold PageHeap.reserveTlab
  split
  · exact hR.refl h
  · dsimp only
    split
    · split
      · rename_i hcarve
        exact hR.carveTlabInCurrent hcarve
      · exact hR.refl h
    · split
      · exact hR.refl h
      · split
        · rename_i hnone
          rw [hnone] at hacq
          exact hacq
        · rename_i p h₁ hsome
          rw [hsome] at hacq
          have hset := hR.trans hacq (hR.region h₁ g k { currentPage := some p, offset := 0 })
          split
          · rename_i hcarve
            exact hR.trans hset (hR.carveTlabInCurrent hcarve)
          · exact hset

theorem tryBumpG0Mixed {n cell : Nat} (hbump : h.tryBumpG0Mixed n = some (cell, h')) :
    Granted R h n h' := by
  rw [tryBumpG0Mixed_eq] at hbump
  cases hp : (h.allocRegions .G0 .Boxed).currentPage with
  | none => simp [hp] at hbump
  | some p =>
      rw [hp, Option.bind_some] at hbump
      split at hbump
      · cases hbump
      · cases hbump
        exact ⟨_, hR.advanceRegion h .G0 .Boxed p _ n, rfl⟩

theorem tryAllocG0ConsSlab (h : PageHeap) (cells : Nat) :
    Answered R h (min cells pageSizeCells) (h.tryAllocG0ConsSlab cells) := by
  have hacq := hR.acquireFreePage h .G0 .Boxed
  unfold PageHeap.tryAllocG0ConsSlab
  dsimp only
  split
  · rename_i hbump
    exact hR.tryBumpG0Mixed hbump
  · split
    · exact hR.refl h
    · split
      · exact hR.refl h
      · split
        · rename_i hnone
          rw [hnone] at hacq
          exact hacq
        · rename_i p h₁ hsome
          rw [hsome] at hacq
          have hset := hR.trans hacq
            (hR.region h₁ .G0 .Boxed { currentPage := some p, offset := 0 })
          split
          · rename_i hbump
            exact hR.granted_of_left hset (hR.tryBumpG0Mixed hbump)
          · exact hset

theorem tryAllocG0Slab (h : PageHeap) (cells : Nat) :
    Answered R h (min cells pageSizeCells) (h.tryAllocG0Slab cells) := by
  have hslab := hR.tryAllocG0ConsSlab h cells
  unfold PageHeap.tryAllocG0Slab
  split
  · exact hR.refl h
  · dsimp only
    split
    · rename_i cell h₁ hsome
      rw [hsome] at hslab
      exact hslab
    · rename_i h₁ hnone
      rw [hnone] at hslab
      exact hslab

/-! ## Large objects -/

/-- The pages of the run are Free until each is stamped in its turn. -/
theorem stampLargePages (start n : Nat) (l : List Nat) (h : PageHeap) (hnodup : l.Nodup)
    (hfree : ∀ i ∈ l, (h.descs (start + i)).generation = .Free) :
    R h (PageHeap.stampLargePages g start n l h).2 := by
  induction l generalizing h with
  | nil => exact hR.refl h
  | cons i rest ih =>
      have hcommit := hR.commit h (start + i)
      rw [PageHeap.stampLargePages]
      dsimp only
      split
      · rename_i h₁ hnone
        rw [hnone] at hcommit
        exact hcommit
      · rename_i z h₁ hsome
        rw [hsome] at hcommit
        have hdescs : h₁.descs = h.descs := (commitPage_some hsome).2.2.2.1
        have hopened := hR.trans hcommit (hR.opened h₁ (start + i) (largeDesc g n i)
          (by rw [hdescs]; exact hfree i List.mem_cons_self))
        -- the pages still to be stamped are other pages
        have hrest : ∀ j ∈ rest, (Function.update h₁.descs (start + i) (largeDesc g n i)
            (start + j)).generation = .Free := by
          intro j hj
          have hne : start + j ≠ start + i := by
            intro heq
            exact (List.nodup_cons.1 hnodup).1 (by rwa [Nat.add_left_cancel heq] at hj)
          rw [Function.update_of_ne hne, hdescs]
          exact hfree j (List.mem_cons_of_mem _ hj)
        split
        · exact hR.trans (hR.trans hopened (hR.starts _ _))
            (ih _ (List.nodup_cons.1 hnodup).2 hrest)
        · exact hR.trans (hR.trans (hR.trans hopened (hR.zeroed _ _)) (hR.starts _ _))
            (ih _ (List.nodup_cons.1 hnodup).2 hrest)

theorem tryAllocLarge (h : PageHeap) (n : Nat) (g : Generation) :
    Answered R h n (h.tryAllocLarge n g) := by
  unfold PageHeap.tryAllocLarge
  rw [← largePages]
  split
  · exact hR.refl h
  · dsimp only
    split
    · exact hR.refl h
    · split
      · exact hR.refl h
      · rename_i start hfind
        have hwater : R h { h with pagesHighWater := max h.pagesHighWater (start + largePages n) } :=
          hR.listed h h.freePageList _
        have hstamp := hR.trans hwater (hR.stampLargePages (g := g) start (largePages n)
          (List.range (largePages n)) _ List.nodup_range (by
            intro i hi
            have hpos : 1 ≤ largePages n := Nat.one_le_iff_ne_zero.2 fun hz => by
              rw [hz] at hi
              simp at hi
            exact (findContiguousFreePages_free hpos hfind).2 _ (by omega)
              (by have := List.mem_range.1 hi; omega)))
        split
        · rename_i h₁ heq
          rw [heq] at hstamp
          exact hstamp
        · rename_i h₁ heq
          rw [heq] at hstamp
          exact ⟨_, hR.trans hstamp (hR.starts h₁ _), rfl⟩

end AllocFrame

end NewGc
