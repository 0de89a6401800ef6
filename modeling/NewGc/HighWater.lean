import NewGc.AllocSpec

/-!
# HighWater — the touched prefix of the reservation

The sweeps at the end of a cycle stop at `pages_high_water`.  Every path that hands out memory
raises the mark on its own: the page allocator, the large-run allocator, and through them the
regions, the buffers and the evacuation.  `TouchedPrefix` says what the mark promises; nothing in it
depends on the objects of the heap, so it also holds of heaps whose object graph is damaged.
-/

namespace NewGc

open Library PageHeap

/-! ## The invariant -/

/-- Pages at or above the mark are untouched, large runs are whole, and only large pages are
pinned (a client that never pins). -/
structure TouchedPrefix (mark : Nat) (descs : Nat → PageDesc) (startBits : Nat → StartPair)
    (cards : Nat → Bool) (regions : Generation → PageKind → AllocRegion)
    (explicitPins : List (Nat × Nat)) : Prop where
  free : ∀ p, mark ≤ p → (descs p).generation = .Free
  region : ∀ g k p, (regions g k).currentPage = some p → p < mark
  start : ∀ c, startBits c ≠ .none → c / pageSizeCells < mark
  card : ∀ k, cards k = true → k / cardsPerPage < mark
  largeUsed : ∀ p, (descs p).kind = .Large → (descs p).generation ≠ .Free
  run : ∀ p j, (descs p).kind = .Large → 0 < j → j < (descs p).nSpan →
    (descs (p + j)).kind = .Large ∧ (descs (p + j)).nSpan = 0
  head : ∀ p, (descs p).kind = .Large → (descs p).nSpan = 0 →
    ∃ q, q < p ∧ (descs q).kind = .Large ∧ p < q + (descs q).nSpan
  pins : ∀ p, (descs p).hasPins = true → (descs p).kind = .Large
  explicit : explicitPins = []

/-- The invariant of a heap.  It reads six fields, so every update of another field keeps it. -/
def HighWater (h : PageHeap) : Prop :=
  TouchedPrefix h.pagesHighWater h.descs h.startBits h.cards h.allocRegions h.explicitPins

/-- `[cell, cell + n)` lies inside one page below the mark. -/
structure Touched (h : PageHeap) (cell n : Nat) : Prop where
  below : cell / pageSizeCells < h.pagesHighWater
  inside : cell % pageSizeCells + n ≤ pageSizeCells

/-- The invariant still holds and the mark has not sunk. -/
structure Raised (h h' : PageHeap) : Prop where
  keeps : HighWater h'
  mark : h.pagesHighWater ≤ h'.pagesHighWater

theorem Raised.trans {h h' h'' : PageHeap} (h₁ : Raised h h') (h₂ : Raised h' h'') :
    Raised h h'' :=
  ⟨h₂.keeps, h₁.mark.trans h₂.mark⟩

theorem Touched.mono {h h' : PageHeap} {cell n : Nat} (hT : Touched h cell n)
    (hmark : h.pagesHighWater ≤ h'.pagesHighWater) : Touched h' cell n :=
  ⟨hT.below.trans_le hmark, hT.inside⟩

namespace HighWater

variable {h h' : PageHeap}

/-- A fresh reservation. -/
theorem withReservation (base nPages : Nat) (os : Nat → Bool) (order : HashOrder) :
    HighWater (withReservation base nPages os order) where
  free := fun _ _ => rfl
  region := by intro _ _ p hp; cases hp
  start := by intro c hc; exact absurd rfl hc
  card := by intro k hk; cases hk
  largeUsed := by intro p hp; cases hp
  run := by intro p j hp; cases hp
  head := by intro p hp; cases hp
  pins := by intro p hp; cases hp
  explicit := rfl

theorem new (base youngBytes oldBytes : Nat) (os : Nat → Bool) (order : HashOrder) :
    HighWater (PageHeap.new base youngBytes oldBytes os order) := by
  obtain ⟨n, cap, hnew⟩ := new_eq base youngBytes oldBytes os order
  rw [hnew]
  exact HighWater.withReservation base n os order

/-- Raising the mark keeps the invariant. -/
theorem raise (hI : HighWater h) (n : Nat) :
    HighWater { h with pagesHighWater := max h.pagesHighWater n } where
  free := fun p hp => hI.free p (le_trans (le_max_left _ _) hp)
  region := fun g k p hp => lt_of_lt_of_le (hI.region g k p hp) (le_max_left _ _)
  start := fun c hc => lt_of_lt_of_le (hI.start c hc) (le_max_left _ _)
  card := fun k hk => lt_of_lt_of_le (hI.card k hk) (le_max_left _ _)
  largeUsed := hI.largeUsed
  run := hI.run
  head := hI.head
  pins := hI.pins
  explicit := hI.explicit

/-- A page is large only below the mark. -/
theorem large_below (hI : HighWater h) {p : Nat} (hk : (h.descs p).kind = .Large) :
    p < h.pagesHighWater := by
  by_contra hge
  exact hI.largeUsed p hk (hI.free p (Nat.le_of_not_lt hge))

/-- New descriptors of the same kind and span; a large page may change its generation, pins sit on
large pages only. -/
theorem redescribe (hI : HighWater h) (descs : Nat → PageDesc)
    (hgen : ∀ p, (descs p).generation = (h.descs p).generation ∨
      ((h.descs p).kind = .Large ∧ (descs p).generation ≠ .Free))
    (hkind : ∀ p, (descs p).kind = (h.descs p).kind)
    (hspan : ∀ p, (descs p).nSpan = (h.descs p).nSpan)
    (hpins : ∀ p, (descs p).hasPins = true → (h.descs p).kind = .Large) :
    HighWater { h with descs := descs } where
  free := by
    intro p hp
    rcases hgen p with hsame | ⟨hk, -⟩
    · exact hsame.trans (hI.free p hp)
    · exact absurd (hI.large_below hk) (Nat.not_lt.2 hp)
  region := hI.region
  start := hI.start
  card := hI.card
  largeUsed := by
    intro p hk
    show (descs p).generation ≠ .Free
    rcases hgen p with hsame | ⟨-, hne⟩
    · rw [hsame]
      exact hI.largeUsed p ((hkind p).symm.trans hk)
    · exact hne
  run := by
    intro p j hk hj hlt
    have := hI.run p j ((hkind p).symm.trans hk) hj (by rw [← hspan]; exact hlt)
    exact ⟨(hkind _).trans this.1, (hspan _).trans this.2⟩
  head := by
    intro p hk hn
    obtain ⟨q, hq, hkq, hlt⟩ := hI.head p ((hkind p).symm.trans hk) ((hspan p).symm.trans hn)
    exact ⟨q, hq, (hkind q).trans hkq, by rw [hspan]; exact hlt⟩
  pins := fun p hp => (hkind p).trans (hpins p hp)
  explicit := hI.explicit

/-- A page below the mark that is no part of a large run gets a new small descriptor. -/
theorem setSmall (hI : HighWater h) {idx : Nat} {d : PageDesc} (hlt : idx < h.pagesHighWater)
    (hold : (h.descs idx).kind ≠ .Large) (hnew : d.kind ≠ .Large) (hpins : d.hasPins = false) :
    HighWater (h.setDesc idx d) := by
  have hother : ∀ p, p ≠ idx → (h.setDesc idx d).descs p = h.descs p := fun p hp =>
    Function.update_of_ne hp _ _
  have hself : (h.setDesc idx d).descs idx = d := Function.update_self _ _ _
  have hlarge : ∀ p, ((h.setDesc idx d).descs p).kind = .Large →
      p ≠ idx ∧ (h.descs p).kind = .Large := by
    intro p hk
    by_cases hp : p = idx
    · rw [hp, hself] at hk
      exact absurd hk hnew
    · rw [hother p hp] at hk
      exact ⟨hp, hk⟩
  have hback : ∀ p, (h.descs p).kind = .Large → (h.setDesc idx d).descs p = h.descs p := by
    intro p hk
    apply hother
    rintro rfl
    exact hold hk
  refine ⟨?_, hI.region, hI.start, hI.card, ?_, ?_, ?_, ?_, hI.explicit⟩
  · intro p hp
    rw [hother p (by rintro rfl; exact absurd hlt (Nat.not_lt.2 hp))]
    exact hI.free p hp
  · intro p hk
    obtain ⟨hp, hk'⟩ := hlarge p hk
    rw [hother p hp]
    exact hI.largeUsed p hk'
  · intro p j hk hj hspan
    obtain ⟨hp, hk'⟩ := hlarge p hk
    rw [hother p hp] at hspan
    have hcont := hI.run p j hk' hj hspan
    rw [hback _ hcont.1]
    exact hcont
  · intro p hk hn
    obtain ⟨hp, hk'⟩ := hlarge p hk
    rw [hother p hp] at hn
    obtain ⟨q, hq, hkq, hspan⟩ := hI.head p hk' hn
    exact ⟨q, hq, by rw [hback q hkq]; exact hkq, by rw [hback q hkq]; exact hspan⟩
  · intro p hp
    by_cases hidx : p = idx
    · rw [hidx, hself, hpins] at hp
      cases hp
    · rw [hother p hidx] at hp ⊢
      exact hI.pins p hp

/-- A free page is no part of a large run. -/
theorem small_of_free (hI : HighWater h) {p : Nat} (hfree : (h.descs p).generation = .Free) :
    (h.descs p).kind ≠ .Large := fun hk => hI.largeUsed p hk hfree

/-- Setting a start bit below the mark. -/
theorem setStart (hI : HighWater h) {cell : Nat} (hlt : cell / pageSizeCells < h.pagesHighWater)
    (x : StartPair) : HighWater { h with startBits := Function.update h.startBits cell x } where
  free := hI.free
  region := hI.region
  start := by
    intro c hc
    by_cases heq : c = cell
    · rw [heq]
      exact hlt
    · apply hI.start c
      simpa [Function.update_of_ne heq] using hc
  card := hI.card
  largeUsed := hI.largeUsed
  run := hI.run
  head := hI.head
  pins := hI.pins
  explicit := hI.explicit

/-- Clearing start bits. -/
theorem clearStarts (hI : HighWater h) {s : Nat → StartPair}
    (hs : ∀ c, s c = .none ∨ s c = h.startBits c) : HighWater { h with startBits := s } where
  free := hI.free
  region := hI.region
  start := by
    intro c hc
    rcases hs c with hnone | hsame
    · exact absurd hnone hc
    · exact hI.start c (by rw [← hsame]; exact hc)
  card := hI.card
  largeUsed := hI.largeUsed
  run := hI.run
  head := hI.head
  pins := hI.pins
  explicit := hI.explicit

theorem clearPageStartBits (hI : HighWater h) (idx : Nat) :
    HighWater (h.clearPageStartBits idx) := by
  refine hI.clearStarts ?_
  intro c
  by_cases hc : c / pageSizeCells = idx
  · exact Or.inl (if_pos hc)
  · exact Or.inr (if_neg hc)

/-- A new card table whose dirty cards lie below the mark. -/
theorem setCards (hI : HighWater h) {cards : Nat → Bool}
    (hcards : ∀ k, cards k = true → h.cards k = true ∨ k / cardsPerPage < h.pagesHighWater) :
    HighWater { h with cards := cards } where
  free := hI.free
  region := hI.region
  start := hI.start
  card := by
    intro k hk
    rcases hcards k hk with hold | hlt
    · exact hI.card k hold
    · exact hlt
  largeUsed := hI.largeUsed
  run := hI.run
  head := hI.head
  pins := hI.pins
  explicit := hI.explicit

/-- An object below the mark has its cards below the mark. -/
theorem markCards (hI : HighWater h) {cell n : Nat} (hT : Touched h cell n) :
    HighWater (h.markCardsSpanned (cell * 8) (cell * 8 + n * 8)) := by
  refine hI.setCards ?_
  intro k hk
  rw [Bool.or_eq_true] at hk
  refine hk.imp_right fun hspan => ?_
  simp only [Bool.and_eq_true, decide_eq_true_eq] at hspan
  have hpage : k / cardsPerPage = cell / pageSizeCells := by
    have hinside := hT.inside
    unfold pageSizeCells cardSizeBytes cardsPerPage at *
    omega
  rw [hpage]
  exact hT.below

/-- The write barrier on a cell below the mark. -/
theorem markCardAt (hI : HighWater h) {cell : Nat} (hlt : cell / pageSizeCells < h.pagesHighWater) :
    HighWater (h.markCardAt (h.cellAddr cell)) := by
  unfold PageHeap.markCardAt
  split
  · exact hI
  · split
    · refine hI.setCards ?_
      intro k hk
      by_cases heq : k = (h.cellAddr cell - h.base) / cardSizeBytes
      · right
        have hpage : k / cardsPerPage = cell / pageSizeCells := by
          unfold cellAddr at heq
          unfold pageSizeCells cardSizeBytes cardsPerPage at *
          omega
        rw [hpage]
        exact hlt
      · left
        rwa [Function.update_of_ne heq] at hk
    · exact hI

theorem barrierStore (hI : HighWater h) {cell : Nat} (hlt : cell / pageSizeCells < h.pagesHighWater)
    (w : Word) : HighWater (World.barrierStore h cell w) :=
  markCardAt (h := h.setCell cell w) hI hlt

theorem initCons (hI : HighWater h) {cell : Nat} (hT : Touched h cell 2) (car cdr : Word) :
    HighWater (World.initCons h cell car cdr) := by
  have hmark : (World.barrierStore h cell car).pagesHighWater = h.pagesHighWater := by
    unfold World.barrierStore PageHeap.markCardAt
    repeat' split
    all_goals rfl
  refine (hI.barrierStore hT.below car).barrierStore ?_ cdr
  have hnext : (cell + 1) / pageSizeCells = cell / pageSizeCells := by
    have hinside := hT.inside
    unfold pageSizeCells at *
    omega
  rw [hmark, hnext]
  exact hT.below

/-- Reopening a region on a page below the mark. -/
theorem setRegion (hI : HighWater h) {g : Generation} {k : PageKind} {r : AllocRegion}
    (hr : ∀ p, r.currentPage = some p → p < h.pagesHighWater) :
    HighWater (h.setAllocRegion g k r) where
  free := hI.free
  region := by
    intro g' k' p hp
    by_cases heq : (g', k') = (g, k)
    · cases heq
      rw [setAllocRegion_self] at hp
      exact hr p hp
    · rw [setAllocRegion_other h r heq] at hp
      exact hI.region g' k' p hp
  start := hI.start
  card := hI.card
  largeUsed := hI.largeUsed
  run := hI.run
  head := hI.head
  pins := hI.pins
  explicit := hI.explicit

/-- Advancing a region: only `words_used` of its page changes. -/
theorem advance (hI : HighWater h) {g : Generation} {k : PageKind} {p : Nat} (off n : Nat)
    (hlt : p < h.pagesHighWater) : HighWater (advanceRegion h g k p off n) := by
  have hregion : HighWater (h.setAllocRegion g k { currentPage := some p, offset := off + n }) :=
    hI.setRegion (by intro q hq; cases hq; exact hlt)
  refine hregion.redescribe _ ?_ ?_ ?_ ?_
  all_goals
    intro q
    by_cases hq : q = p
    · subst hq
      simp [setAllocRegion, PageDesc.hasPins]
      try exact fun hp => hI.pins q (by simpa [PageDesc.hasPins] using hp)
    · simp [hq, setAllocRegion]
      try exact hI.pins q

end HighWater

/-! ## The allocators raise the mark -/

/-- The six fields the invariant reads are the same. -/
structure SameTable (h h' : PageHeap) : Prop where
  mark : h'.pagesHighWater = h.pagesHighWater
  descs : h'.descs = h.descs
  startBits : h'.startBits = h.startBits
  cards : h'.cards = h.cards
  allocRegions : h'.allocRegions = h.allocRegions
  explicitPins : h'.explicitPins = h.explicitPins

theorem SameTable.refl (h : PageHeap) : SameTable h h := ⟨rfl, rfl, rfl, rfl, rfl, rfl⟩

theorem SameTable.keeps {h h' : PageHeap} (hS : SameTable h h') (hI : HighWater h) :
    HighWater h' := by
  unfold HighWater at *
  rw [hS.mark, hS.descs, hS.startBits, hS.cards, hS.allocRegions, hS.explicitPins]
  exact hI

theorem commitPage_sameTable (h : PageHeap) (idx : Nat) : SameTable h (h.commitPage idx).2 := by
  unfold commitPage
  split
  · exact SameTable.refl h
  · split
    · exact SameTable.refl h
    · split
      · exact ⟨rfl, rfl, rfl, rfl, rfl, rfl⟩
      · exact ⟨rfl, rfl, rfl, rfl, rfl, rfl⟩

namespace HighWater

variable {h h' : PageHeap} {g : Generation} {k : PageKind}

theorem zeroWholePage (hI : HighWater h) (idx : Nat) : HighWater (h.zeroWholePage idx) := hI

/-- The page allocator raises the mark over the page it takes, also when the commit fails. -/
theorem acquireFreePage (hI : HighWater h) (hk : k ≠ .Large) {r : Option Nat}
    (hacq : h.acquireFreePage g k = (r, h')) :
    Raised h h' ∧ ∀ p, r = some p → p < h'.pagesHighWater := by
  unfold PageHeap.acquireFreePage at hacq
  cases hpop : h.popFreePage.1 with
  | none =>
      simp only [hpop] at hacq
      cases hacq
      exact ⟨⟨hI, le_rfl⟩, by intro p hp; cases hp⟩
  | some idx =>
      have hfree := popFreePage_free hpop
      simp only [hpop] at hacq
      generalize hraise : ({ h with
        freePageList := h.popFreePage.2
        pagesHighWater := max h.pagesHighWater (idx + 1) } : PageHeap) = h₁ at hacq
      have hI₁ : HighWater h₁ := by
        rw [← hraise]
        exact hI.raise (idx + 1)
      have hdescs : h₁.descs = h.descs := by rw [← hraise]
      have hmark : h₁.pagesHighWater = max h.pagesHighWater (idx + 1) := by rw [← hraise]
      have hcommit := commitPage_sameTable h₁ idx
      split at hacq
      · rename_i h₂ heq
        cases hacq
        rw [heq] at hcommit
        refine ⟨⟨hcommit.keeps hI₁, ?_⟩, by intro p hp; cases hp⟩
        rw [hcommit.mark, hmark]
        exact le_max_left _ _
      · rename_i z h₂ heq
        rw [heq] at hcommit
        simp only [Prod.mk.injEq] at hacq
        obtain ⟨rfl, rfl⟩ := hacq
        have hbelow : idx < h₂.pagesHighWater := by
          rw [hcommit.mark, hmark]
          exact lt_of_lt_of_le (Nat.lt_succ_self idx) (le_max_right _ _)
        have hold : (h₂.descs idx).kind ≠ .Large := by
          rw [hcommit.descs, hdescs]
          exact hI.small_of_free hfree
        have hstamped : HighWater ((h₂.setDesc idx (PageDesc.fresh g k)).clearPageStartBits idx) :=
          ((hcommit.keeps hI₁).setSmall hbelow hold hk rfl).clearPageStartBits idx
        have hup : h.pagesHighWater ≤ h₂.pagesHighWater := by
          rw [hcommit.mark, hmark]
          exact le_max_left _ _
        split
        · exact ⟨⟨hstamped, hup⟩, by intro p hp; cases hp; exact hbelow⟩
        · exact ⟨⟨hstamped, hup⟩, by intro p hp; cases hp; exact hbelow⟩

/-- Where the next object of a region goes. -/
theorem bump_cell {p off n : Nat} (hlt : p < h.pagesHighWater) (hn : 1 ≤ n)
    (hroom : off + n ≤ pageSizeCells) : Touched h (p * pageSizeCells + off) n := by
  have hdiv : (p * pageSizeCells + off) / pageSizeCells = p := by
    unfold pageSizeCells at *
    omega
  refine ⟨by rw [hdiv]; exact hlt, ?_⟩
  unfold pageSizeCells at *
  omega

/-- The bump sets a start bit below the mark. -/
theorem tryBumpInCurrent (hI : HighWater h) {n cell : Nat} {isCons : Bool} (hn : 1 ≤ n)
    (hbump : h.tryBumpInCurrent g k n isCons = some (cell, h')) :
    Raised h h' ∧ Touched h' cell n := by
  rw [tryBumpInCurrent_eq] at hbump
  cases hp : (h.allocRegions g k).currentPage with
  | none => simp [hp] at hbump
  | some p =>
      rw [hp, Option.bind_some] at hbump
      split at hbump
      · cases hbump
      · rename_i hroom
        have hlt := hI.region g k p hp
        have hadv := hI.advance (g := g) (k := k) (h.allocRegions g k).offset n hlt
        have hcell : Touched h (p * pageSizeCells + (h.allocRegions g k).offset) n :=
          bump_cell hlt hn (Nat.le_of_not_lt hroom)
        cases hbump
        cases isCons with
        | true => exact ⟨⟨hadv.setStart hcell.below _, le_rfl⟩, hcell.mono le_rfl⟩
        | false => exact ⟨⟨hadv.setStart hcell.below _, le_rfl⟩, hcell.mono le_rfl⟩

theorem tryAllocInRegion (hI : HighWater h) (hk : k ≠ .Large) {n : Nat} {isCons : Bool}
    {r : Option Nat} (hn : 1 ≤ n) (halloc : h.tryAllocInRegion g k n isCons = (r, h')) :
    Raised h h' ∧ ∀ cell, r = some cell → Touched h' cell n := by
  unfold PageHeap.tryAllocInRegion at halloc
  split at halloc
  · cases halloc
    exact ⟨⟨hI, le_rfl⟩, by intro c hc; cases hc⟩
  · split at halloc
    · rename_i cell h₁ hbump
      cases halloc
      obtain ⟨hraised, hcell⟩ := hI.tryBumpInCurrent hn hbump
      exact ⟨hraised, by intro c hc; cases hc; exact hcell⟩
    · split at halloc
      · cases halloc
        exact ⟨⟨hI, le_rfl⟩, by intro c hc; cases hc⟩
      · split at halloc
        · rename_i h₁ hacq
          cases halloc
          exact ⟨(hI.acquireFreePage hk hacq).1, by intro c hc; cases hc⟩
        · rename_i p h₁ hacq
          obtain ⟨hraised, hpage⟩ := hI.acquireFreePage hk hacq
          have hopen : HighWater (h₁.setAllocRegion g k { currentPage := some p, offset := 0 }) :=
            hraised.keeps.setRegion (by intro q hq; cases hq; exact hpage p rfl)
          dsimp only at halloc
          split at halloc
          · rename_i cell h₂ hbump
            cases halloc
            obtain ⟨hraised', hcell⟩ := hopen.tryBumpInCurrent hn hbump
            exact ⟨⟨hraised'.keeps, hraised.mark.trans hraised'.mark⟩,
              by intro c hc; cases hc; exact hcell⟩
          · cases halloc
            exact ⟨⟨hopen, hraised.mark⟩, by intro c hc; cases hc⟩

theorem tryAllocConsIn (hI : HighWater h) {r : Option Nat} (halloc : h.tryAllocConsIn g = (r, h')) :
    Raised h h' ∧ ∀ cell, r = some cell → Touched h' cell 2 :=
  hI.tryAllocInRegion (by simp) (by omega) halloc

theorem tryAllocBoxedIn (hI : HighWater h) {n : Nat} {r : Option Nat}
    (halloc : h.tryAllocBoxedIn g n = (r, h')) :
    Raised h h' ∧ ∀ cell, r = some cell → Touched h' cell n := by
  unfold PageHeap.tryAllocBoxedIn at halloc
  split at halloc
  · cases halloc
    exact ⟨⟨hI, le_rfl⟩, by intro c hc; cases hc⟩
  · rename_i hn
    exact hI.tryAllocInRegion (by simp) (by omega) halloc

/-! ### Buffers -/

theorem carveTlabInCurrent (hI : HighWater h) {want : Nat} {slab : Nat × Nat} (hwant : 1 ≤ want)
    (hcarve : h.carveTlabInCurrent g k want = some (slab, h')) :
    Raised h h' ∧ Touched h' slab.1 slab.2 := by
  unfold PageHeap.carveTlabInCurrent at hcarve
  cases hp : (h.allocRegions g k).currentPage with
  | none => simp [hp] at hcarve
  | some p =>
      simp only [hp] at hcarve
      split at hcarve
      · cases hcarve
      · rename_i havail
        have hlt := hI.region g k p hp
        cases hcarve
        have hcell : Touched h (p * pageSizeCells + (h.allocRegions g k).offset)
            (min want (pageSizeCells - (h.allocRegions g k).offset)) :=
          bump_cell hlt (by omega) (by omega)
        have hadv := hI.advance (g := g) (k := k) (h.allocRegions g k).offset
          (min want (pageSizeCells - (h.allocRegions g k).offset)) hlt
        rw [advanceRegion] at hadv
        exact ⟨⟨hadv, le_rfl⟩, hcell.mono le_rfl⟩

theorem reserveTlab (hI : HighWater h) (hk : k ≠ .Large) {minCells wantCells : Nat}
    {r : Option (Nat × Nat)} (hres : h.reserveTlab g k minCells wantCells = (r, h')) :
    Raised h h' ∧ ∀ slab, r = some slab → Touched h' slab.1 slab.2 := by
  have hwant : 1 ≤ max (max minCells 1) (Nat.min wantCells pageSizeCells) := by omega
  unfold PageHeap.reserveTlab at hres
  split at hres
  · cases hres
    exact ⟨⟨hI, le_rfl⟩, by intro c hc; cases hc⟩
  · dsimp only at hres
    split at hres
    · split at hres
      · rename_i slab h₁ hcarve
        cases hres
        obtain ⟨hraised, hslab⟩ := hI.carveTlabInCurrent hwant hcarve
        exact ⟨hraised, by intro c hc; cases hc; exact hslab⟩
      · cases hres
        exact ⟨⟨hI, le_rfl⟩, by intro c hc; cases hc⟩
    · split at hres
      · cases hres
        exact ⟨⟨hI, le_rfl⟩, by intro c hc; cases hc⟩
      · split at hres
        · rename_i h₁ hacq
          cases hres
          exact ⟨(hI.acquireFreePage hk hacq).1, by intro c hc; cases hc⟩
        · rename_i p h₁ hacq
          obtain ⟨hraised, hpage⟩ := hI.acquireFreePage hk hacq
          have hopen : HighWater (h₁.setAllocRegion g k { currentPage := some p, offset := 0 }) :=
            hraised.keeps.setRegion (by intro q hq; cases hq; exact hpage p rfl)
          split at hres
          · rename_i slab h₂ hcarve
            cases hres
            obtain ⟨hraised', hslab⟩ := hopen.carveTlabInCurrent hwant hcarve
            exact ⟨⟨hraised'.keeps, hraised.mark.trans hraised'.mark⟩,
              by intro c hc; cases hc; exact hslab⟩
          · cases hres
            exact ⟨⟨hopen, hraised.mark⟩, by intro c hc; cases hc⟩

theorem tryBumpG0Mixed (hI : HighWater h) {cells cell : Nat} (hn : 1 ≤ cells)
    (hbump : h.tryBumpG0Mixed cells = some (cell, h')) : Raised h h' ∧ Touched h' cell cells := by
  unfold PageHeap.tryBumpG0Mixed at hbump
  cases hp : (h.allocRegions .G0 .Boxed).currentPage with
  | none => simp [hp] at hbump
  | some p =>
      simp only [hp] at hbump
      split at hbump
      · cases hbump
      · rename_i hroom
        have hlt := hI.region .G0 .Boxed p hp
        cases hbump
        have hcell := bump_cell hlt hn (Nat.le_of_not_lt hroom)
        have hadv := hI.advance (g := .G0) (k := .Boxed) (h.allocRegions .G0 .Boxed).offset cells hlt
        rw [advanceRegion] at hadv
        exact ⟨⟨hadv, le_rfl⟩, hcell.mono le_rfl⟩

theorem tryAllocG0Slab (hI : HighWater h) {cells : Nat} {r : Option (Nat × Nat)}
    (halloc : h.tryAllocG0Slab cells = (r, h')) :
    Raised h h' ∧ ∀ slab, r = some slab → Touched h' slab.1 slab.2 := by
  unfold PageHeap.tryAllocG0Slab at halloc
  split at halloc
  · cases halloc
    exact ⟨⟨hI, le_rfl⟩, by intro c hc; cases hc⟩
  · rename_i hn
    have hpos : 1 ≤ min cells pageSizeCells := by
      unfold pageSizeCells
      omega
    have hslab : ∀ {r' : Option Nat} {h₁ : PageHeap}, h.tryAllocG0ConsSlab cells = (r', h₁) →
        Raised h h₁ ∧ ∀ cell, r' = some cell → Touched h₁ cell (min cells pageSizeCells) := by
      intro r' h₁ hs
      unfold PageHeap.tryAllocG0ConsSlab at hs
      dsimp only at hs
      split at hs
      · rename_i cell h₂ hbump
        cases hs
        obtain ⟨hraised, hcell⟩ := hI.tryBumpG0Mixed hpos hbump
        exact ⟨hraised, by intro c hc; cases hc; exact hcell⟩
      · split at hs
        · cases hs
          exact ⟨⟨hI, le_rfl⟩, by intro c hc; cases hc⟩
        · split at hs
          · cases hs
            exact ⟨⟨hI, le_rfl⟩, by intro c hc; cases hc⟩
          · split at hs
            · rename_i h₂ hacq
              cases hs
              exact ⟨(hI.acquireFreePage (by simp) hacq).1, by intro c hc; cases hc⟩
            · rename_i p h₂ hacq
              obtain ⟨hraised, hpage⟩ := hI.acquireFreePage (by simp) hacq
              have hopen :
                  HighWater (h₂.setAllocRegion .G0 .Boxed { currentPage := some p, offset := 0 }) :=
                hraised.keeps.setRegion (by intro q hq; cases hq; exact hpage p rfl)
              split at hs
              · rename_i cell h₃ hbump
                cases hs
                obtain ⟨hraised', hcell⟩ := hopen.tryBumpG0Mixed hpos hbump
                exact ⟨⟨hraised'.keeps, hraised.mark.trans hraised'.mark⟩,
                  by intro c hc; cases hc; exact hcell⟩
              · cases hs
                exact ⟨⟨hopen, hraised.mark⟩, by intro c hc; cases hc⟩
    split at halloc
    · rename_i slab h₁ hs
      cases halloc
      obtain ⟨hraised, hcell⟩ := hslab hs
      exact ⟨hraised, by intro c hc; cases hc; exact hcell slab rfl⟩
    · rename_i h₁ hs
      cases halloc
      exact ⟨(hslab hs).1, by intro c hc; cases hc⟩

/-! ### Large runs -/

theorem stampLargePages_mark (start n : Nat) :
    ∀ (l : List Nat) (h : PageHeap),
      (stampLargePages g start n l h).2.pagesHighWater = h.pagesHighWater := by
  intro l
  induction l with
  | nil => intro h; rfl
  | cons i rest ih =>
      intro h
      have hcommit := commitPage_sameTable h (start + i)
      unfold stampLargePages
      dsimp only
      split
      · rename_i h₁ heq
        rw [heq] at hcommit
        exact hcommit.mark
      · rename_i z h₁ heq
        rw [heq] at hcommit
        rw [ih]
        split <;> exact hcommit.mark

/-- A whole run stamped over free pages. -/
theorem stampRun (hI : HighWater h) {start n : Nat} (hn : 1 ≤ n) (hspan : n < 65536)
    (hg : g ≠ .Free) (hmark : start + n ≤ h.pagesHighWater)
    (hfree : ∀ j, start ≤ j → j < start + n → (h.descs j).generation = .Free)
    (hS : Stamped g start n (List.range n) h h') (hsame : h'.pagesHighWater = h.pagesHighWater) :
    HighWater h' := by
  have hin : ∀ p, InRun start (List.range n) p ↔ start ≤ p ∧ p < start + n := by
    intro p
    unfold InRun
    rw [List.mem_range]
    omega
  have hself : ∀ p, start ≤ p → p < start + n → h'.descs p = largeDesc g n (p - start) := by
    intro p h1 h2
    rw [hS.descs, if_pos ((hin p).2 ⟨h1, h2⟩)]
  have hother : ∀ p, ¬ (start ≤ p ∧ p < start + n) → h'.descs p = h.descs p := by
    intro p hp
    rw [hS.descs, if_neg (by rw [hin]; exact hp)]
  have hsmall : ∀ p, (h.descs p).kind = .Large → ¬ (start ≤ p ∧ p < start + n) := by
    intro p hk hp
    exact hI.small_of_free (hfree p hp.1 hp.2) hk
  have hhead : (h'.descs start).kind = .Large ∧ (h'.descs start).nSpan = n := by
    rw [hself start le_rfl (by omega), Nat.sub_self]
    exact ⟨rfl, Nat.mod_eq_of_lt hspan⟩
  unfold HighWater
  refine ⟨?_, ?_, ?_, ?_, ?_, ?_, ?_, ?_, ?_⟩
  · intro p hp
    rw [hsame] at hp
    rw [hother p (by omega)]
    exact hI.free p hp
  · intro g' k' p hp
    rw [hS.allocRegions] at hp
    rw [hsame]
    exact hI.region g' k' p hp
  · intro c hc
    rw [hS.startBits] at hc
    rw [hsame]
    split at hc
    · exact absurd rfl hc
    · exact hI.start c hc
  · intro k' hk
    rw [hS.cards] at hk
    rw [hsame]
    exact hI.card k' hk
  · intro p hk
    by_cases hp : start ≤ p ∧ p < start + n
    · rw [hself p hp.1 hp.2]
      exact hg
    · rw [hother p hp] at hk ⊢
      exact hI.largeUsed p hk
  · intro p j hk hj hlt
    by_cases hp : start ≤ p ∧ p < start + n
    · -- only the head of the new run has a span
      rw [hself p hp.1 hp.2] at hlt
      by_cases hz : p = start
      · subst hz
        have hjn : j < n := by
          simpa [largeDesc, Nat.mod_eq_of_lt hspan] using hlt
        rw [hself (p + j) (by omega) (by omega)]
        have hpos : p + j - p ≠ 0 := by omega
        exact ⟨rfl, if_neg hpos⟩
      · have hpos : p - start ≠ 0 := by omega
        simp [largeDesc, hpos] at hlt
    · rw [hother p hp] at hk hlt
      have hcont := hI.run p j hk hj hlt
      rw [hother _ (hsmall _ hcont.1)]
      exact hcont
  · intro p hk hz
    by_cases hp : start ≤ p ∧ p < start + n
    · have hne : p ≠ start := by
        rintro rfl
        omega
      exact ⟨start, by omega, hhead.1, by rw [hhead.2]; exact hp.2⟩
    · rw [hother p hp] at hk hz
      obtain ⟨q, hq, hkq, hlt⟩ := hI.head p hk hz
      exact ⟨q, hq, by rw [hother q (hsmall q hkq)]; exact hkq,
        by rw [hother q (hsmall q hkq)]; exact hlt⟩
  · intro p hp
    by_cases hin' : start ≤ p ∧ p < start + n
    · rw [hself p hin'.1 hin'.2]
      rfl
    · rw [hother p hin'] at hp ⊢
      exact hI.pins p hp
  · rw [hS.control.explicitPins]
    exact hI.explicit

/-- The large-run allocator raises the mark over the whole run before it commits a page. -/
theorem tryAllocLarge (hI : HighWater h) {nCells : Nat} (hn : 1 ≤ nCells)
    (hspan : (nCells + (pageSizeCells - 1)) / pageSizeCells < 65536) (hg : g ≠ .Free)
    (hwhole : (h.tryAllocLarge nCells g).1 = none →
      (h.tryAllocLarge nCells g).2.descs = h.descs) :
    Raised h (h.tryAllocLarge nCells g).2 := by
  unfold PageHeap.tryAllocLarge at hwhole ⊢
  split
  · exact ⟨hI, le_rfl⟩
  · rename_i hpoisoned
    rw [if_neg hpoisoned] at hwhole
    dsimp only at hwhole ⊢
    split
    · exact ⟨hI, le_rfl⟩
    · rename_i hcap
      rw [if_neg hcap] at hwhole
      generalize hpages : (nCells + (pageSizeCells - 1)) / pageSizeCells = n at *
      have hpos : 1 ≤ n := by
        unfold pageSizeCells at hpages
        omega
      cases hfind : h.findContiguousFreePages n with
      | none => exact ⟨hI, le_rfl⟩
      | some start =>
          simp only [hfind] at hwhole ⊢
          obtain ⟨-, hfree⟩ := findContiguousFreePages_free hpos hfind
          have hI₁ : HighWater { h with pagesHighWater := max h.pagesHighWater (start + n) } :=
            hI.raise (start + n)
          have hmark := stampLargePages_mark (g := g) start n (List.range n)
            { h with pagesHighWater := max h.pagesHighWater (start + n) }
          cases hst : stampLargePages g start n (List.range n)
              { h with pagesHighWater := max h.pagesHighWater (start + n) } with
          | mk b h₂ =>
              rw [hst] at hmark hwhole
              obtain ⟨l', -, hS, hall⟩ := stampLargePages_stamped _ _ hst
              have hup : h.pagesHighWater ≤ h₂.pagesHighWater := by
                rw [hmark]
                exact le_max_left _ _
              cases b with
              | false =>
                  -- a refused commit: the run was not stamped, start bits at most cleared
                  have hdescs : h₂.descs = h.descs := hwhole rfl
                  have hclear : HighWater
                      { h with
                        pagesHighWater := max h.pagesHighWater (start + n)
                        startBits := h₂.startBits } := by
                    refine hI₁.clearStarts ?_
                    intro c
                    rw [hS.startBits]
                    split
                    · exact Or.inl rfl
                    · exact Or.inr rfl
                  have hsame : SameTable
                      { h with
                        pagesHighWater := max h.pagesHighWater (start + n)
                        startBits := h₂.startBits } h₂ :=
                    ⟨hmark, hdescs, rfl, hS.cards, hS.allocRegions, hS.control.explicitPins⟩
                  exact ⟨hsame.keeps hclear, hup⟩
              | true =>
                  rw [hall rfl] at hS
                  have hrun : HighWater h₂ :=
                    hI₁.stampRun hpos hspan hg (le_max_right _ _) hfree hS hmark
                  have hhead : start * pageSizeCells / pageSizeCells < h₂.pagesHighWater := by
                    rw [Nat.mul_div_cancel _ (by decide), hmark]
                    exact lt_of_lt_of_le (by omega) (le_max_right _ _)
                  exact ⟨hrun.setStart hhead _, hup⟩

end HighWater

end NewGc
