import NewGc.Passes

/-!
# Cycles — the logical cycles as passes

A minor collection is one pass or two, a major one two, a full one three; then the cards are rebuilt
and the pins dropped.  A cycle whose passes are safe leaves the heap intact.
-/

namespace NewGc

open Library PageHeap

/-! ## How a cycle ends -/

/-- The heap `h` after the end of a cycle, whatever the counters say. -/
def CycleClosed (L : HeapLayout) (h h' : PageHeap) : Prop :=
  ∃ minors promotes bytes, h' = { h.closeCycle L with
    minorsSinceG0Promote := minors
    g0PromotesSinceG1Promote := promotes
    bytesAllocSinceGc := bytes }

namespace CycleClosed

variable {L : HeapLayout} {h h' : PageHeap} {T : ObjTable}

theorem of_close (L : HeapLayout) (h : PageHeap) : CycleClosed L h (h.closeCycle L) :=
  ⟨_, _, _, rfl⟩

theorem counters (hE : CycleClosed L h h') (minors promotes bytes : Nat) :
    CycleClosed L h { h' with
      minorsSinceG0Promote := minors
      g0PromotesSinceG1Promote := promotes
      bytesAllocSinceGc := bytes } := by
  obtain ⟨m, p, b, rfl⟩ := hE
  exact ⟨minors, promotes, bytes, rfl⟩

end CycleClosed

/-- A cycle that ends with `h` leaves a heap that meets `Q`, or it may fault. -/
def Closes (L : HeapLayout) (E : GcPanic → Prop) (h : PageHeap) (Q : PageHeap → Prop) : Prop :=
  (E .accessViolation ∨ h.accessTouched = .ok ()) ∧ ∀ h', CycleClosed L h h' → Q h'

/-- Every page the end of a cycle reads has its backing. -/
theorem PagesOk.accessTouched {h : PageHeap} (hP : PagesOk h) : h.accessTouched = .ok () := by
  unfold PageHeap.accessTouched
  rw [require_eq_ok, List.all_eq_true]
  intro p _
  rw [Bool.or_eq_true, beq_iff_eq]
  by_cases hfree : (h.descs p).generation = .Free
  · exact Or.inl hfree
  · exact Or.inr (hP.backing.live p hfree)

theorem Closes.of_passOk {L : HeapLayout} {E : GcPanic → Prop} {h : PageHeap} {T : ObjTable}
    {Q : PageHeap → Prop} (hP : PassOk L h T) (hQ : ∀ h', CycleClosed L h h' → Q h') :
    Closes L E h Q := ⟨Or.inr hP.shape.pages.accessTouched, hQ⟩

/-- The counters are no part of what the end of a cycle needs. -/
theorem Closes.counted {L : HeapLayout} {E : GcPanic → Prop} {h : PageHeap} {Q : PageHeap → Prop}
    (hC : Closes L E h Q) (minors promotes : Nat) :
    Closes L E { h with minorsSinceG0Promote := minors, g0PromotesSinceG1Promote := promotes } Q := by
  refine ⟨hC.1, fun h' hE => hC.2 h' ?_⟩
  obtain ⟨m, p, b, rfl⟩ := hE
  exact ⟨m, p, b, rfl⟩

/-- The end of a cycle, and what follows. -/
theorem Closes.finish {L : HeapLayout} {E : GcPanic → Prop} {h : PageHeap} {α : Type}
    {Q : PageHeap → Prop} {R : α → Prop} (hC : Closes L E h Q) {f : PageHeap → Except GcPanic α}
    (hf : (∀ h', CycleClosed L h h' → Q h') → Outcome E (f (h.closeCycle L)) R) :
    Outcome E (h.finishCycle L >>= f) R := by
  have htouched : Outcome E h.accessTouched fun _ => True := by
    rcases hC.1 with hE | hok
    · exact (Outcome.require hE).mono fun _ _ => trivial
    · rw [hok]
      trivial
  have hclosed : Outcome E (h.finishCycle L) fun h' => h' = h.closeCycle L :=
    htouched.bind fun _ _ => rfl
  refine hclosed.bind ?_
  rintro h' rfl
  exact hf hC.2

theorem CycleClosed.unpinned {L : HeapLayout} {h h' : PageHeap} (hE : CycleClosed L h h') :
    DropsPins h h' := by
  obtain ⟨m, p, b, rfl⟩ := hE
  refine ⟨rfl, rfl, rfl, rfl, rfl, rfl, rfl, rfl, rfl, rfl, fun k hk => ?_⟩
  -- a rebuilt card lies on a page in use
  simp only [closeCycle, PageHeap.clearAllPins, rebuildCardsForOldGens] at hk
  split at hk
  · split at hk
    · cases hk
    · exact Or.inr ‹_›
  · exact Or.inl hk

theorem PassOk.finish {L : HeapLayout} {h h' : PageHeap} {T : ObjTable} (hP : PassOk L h T)
    (hE : CycleClosed L h h') : Coherent L h' T :=
  hP.unpinned hE.unpinned

/-- The counters are not part of what a pass needs. -/
theorem PassOk.counted {L : HeapLayout} {h : PageHeap} {T : ObjTable} (hP : PassOk L h T)
    (minors promotes : Nat) : PassOk L { h with
      minorsSinceG0Promote := minors
      g0PromotesSinceG1Promote := promotes } T where
  shape := hP.shape.congr rfl rfl (fun _ => PageDesc.SameRole.refl _) rfl rfl rfl
    fun _ => Or.inl
  regions := hP.regions
  pins := hP.pins
  explicit := hP.explicit
  inactive := hP.inactive

/-! ## The passes of a cycle -/

namespace PageHeap

/-- The heap a minor collection hands to its first pass. -/
def minorStart (h : PageHeap) : PageHeap :=
  { h with minorsSinceG0Promote := saturatingSuccU32 h.minorsSinceG0Promote }

/-- This minor collection promotes G0. -/
def promotesG0 (h : PageHeap) : Bool :=
  decide (g0PromotionThreshold ≤ saturatingSuccU32 h.minorsSinceG0Promote)

def minorDest (h : PageHeap) : Generation := if h.promotesG0 then .G1 else .G0

/-- A minor collection of `h` whose first pass left `h₁` goes on to promote G1. -/
def cascades (h h₁ : PageHeap) : Bool :=
  h.promotesG0 && decide (g1PromotionThreshold ≤ saturatingSuccU32 h₁.g0PromotesSinceG1Promote)

/-- The heap the second pass of a minor collection starts from. -/
def cascadeStart (h : PageHeap) : PageHeap :=
  { h with
    minorsSinceG0Promote := 0
    g0PromotesSinceG1Promote := saturatingSuccU32 h.g0PromotesSinceG1Promote }

end PageHeap

section Rules

variable {L : HeapLayout} {E : GcPanic → Prop} {h : PageHeap} {ext : Nat → Word} {v : RootVisitor}
  {Q : PageHeap × (Nat → Word) → Prop}

/-- The rule of a minor collection. -/
theorem collectMinor_rule (hfirst : Outcome E
      (h.minorStart.evacuateWithRoots L ext .G0 h.minorDest (withCardScan L v h.descs)) fun r₁ =>
        (h.cascades r₁.2.1 = false → Closes L E r₁.2.1 fun h' => Q (h', r₁.2.2)) ∧
        (h.cascades r₁.2.1 = true → Outcome E
          (r₁.2.1.cascadeStart.evacuateWithRoots L r₁.2.2 .G1 .Tenured
            (withCardScan L v h.descs)) fun r₂ =>
              Closes L E r₂.2.1 fun h' => Q (h', r₂.2.2))) :
    Outcome E (h.collectMinor L ext v) fun r => Q r.2 := by
  unfold collectMinor
  refine hfirst.bind fun r₁ hr₁ => ?_
  obtain ⟨hlast, hcascade⟩ := hr₁
  unfold cascades promotesG0 at hlast hcascade
  dsimp only
  split
  · rename_i hpromote
    rw [hpromote, Bool.true_and] at hlast hcascade
    split
    · rename_i hthreshold
      rw [decide_eq_true hthreshold] at hcascade
      refine (hcascade rfl).bind fun r₂ hr₂ => ?_
      refine (hr₂.counted _ 0).finish fun hQ => hr₂.2 _ ?_
      exact (CycleClosed.of_close L r₂.2.1).counters _ _ _
    · rename_i hthreshold
      rw [decide_eq_false hthreshold] at hlast
      refine ((hlast rfl).counted 0 _).finish fun hQ => (hlast rfl).2 _ ?_
      exact (CycleClosed.of_close L r₁.2.1).counters _ _ _
  · rename_i hpromote
    rw [Bool.eq_false_iff.2 hpromote, Bool.false_and] at hlast
    exact (hlast rfl).finish fun hQ => hQ _ (CycleClosed.of_close L r₁.2.1)

/-- The rule of a major collection. -/
theorem collectMajor_rule (hfirst : Outcome E
      (h.evacuateWithRoots L ext .G1 .Tenured (withCardScan L v h.descs)) fun r₁ => Outcome E
        (r₁.2.1.evacuateWithRoots L r₁.2.2 .G0 .G0 (withCardScan L v r₁.2.1.descs)) fun r₂ =>
          Closes L E r₂.2.1 fun h' => Q (h', r₂.2.2)) :
    Outcome E (h.collectMajor L ext v) fun r => Q r.2 := by
  unfold collectMajor
  refine hfirst.bind fun r₁ hr₁ => ?_
  refine hr₁.bind fun r₂ hr₂ => ?_
  exact hr₂.finish fun hQ => hQ _ ((CycleClosed.of_close L r₂.2.1).counters _ _ _)

/-- The rule of a full collection. -/
theorem collectFull_rule (hfirst : Outcome E
      (h.evacuateWithRoots L ext .G0 .G1 (withCardScan L v h.descs)) fun r₁ => Outcome E
        (r₁.2.1.evacuateWithRoots L r₁.2.2 .G1 .Tenured (withCardScan L v r₁.2.1.descs)) fun r₂ =>
          Outcome E (r₂.2.1.evacuateWithRoots L r₂.2.2 .Tenured .Tenured v) fun r₃ =>
            Closes L E r₃.2.1 fun h' => Q (h', r₃.2.2)) :
    Outcome E (h.collectFull L ext v) fun r => Q r.2 := by
  unfold collectFull
  refine hfirst.bind fun r₁ hr₁ => ?_
  refine hr₁.bind fun r₂ hr₂ => ?_
  refine hr₂.bind fun r₃ hr₃ => ?_
  exact hr₃.finish fun hQ => hQ _ ((CycleClosed.of_close L r₃.2.1).counters _ _ _)

/-- The rule of an automatic collection. -/
theorem collectAuto_rule {threshold : Nat}
    (hbytes : ∀ r, Q r → Q ({ r.1 with bytesAllocSinceGc := 0 }, r.2))
    (hmajor : h.shouldCollectMajor threshold = true →
      Outcome E (h.collectMajor L ext v) fun r => Q r.2)
    (hminor : h.shouldCollectMajor threshold = false →
      Outcome E (h.collectMinor L ext v) fun r => Q r.2) :
    Outcome E (h.collectAuto L ext threshold v) fun r => Q r.2 := by
  unfold collectAuto
  cases hshould : h.shouldCollectMajor threshold with
  | true =>
      rw [if_pos rfl]
      exact (hmajor hshould).bind fun r hr => hbytes r.2 hr
  | false =>
      rw [if_neg (by simp)]
      exact (hminor hshould).bind fun r hr => hbytes r.2 hr

end Rules

/-! ## Safe cycles -/

/-- The closure of the caller's roots with a card scan is the closure of a pass. -/
abbrev rootSlots (roots : List Nat) : List Slot := roots.map Slot.ext

theorem slotSafe_rootSlots (h : PageHeap) (T : ObjTable) (g : Generation) (roots : List Nat) :
    ∀ s ∈ rootSlots roots, SlotSafe h T g s := by
  intro s hs
  obtain ⟨a, -, rfl⟩ := List.mem_map.1 hs
  trivial

/-- A pass with a snapshot of its own. -/
def FreshSafe (L : HeapLayout) (h : PageHeap) (ext : Nat → Word) (g dest : Generation)
    (roots : List Nat) : Prop :=
  PassMeets L h ext g dest (withCardScan L (rootsVisitor L roots) h.descs) (NoReuse L)

/-- The passes of a minor collection are safe: the second one scans through the first one's
snapshot. -/
def MinorSafe (L : HeapLayout) (h : PageHeap) (ext : Nat → Word) (roots : List Nat) : Prop :=
  FreshSafe L h.minorStart ext .G0 h.minorDest roots ∧
    ∀ r₁, h.minorStart.evacuateWithRoots L ext .G0 h.minorDest
        (withCardScan L (rootsVisitor L roots) h.descs) = .ok r₁ →
      h.cascades r₁.2.1 = true →
        PassSafe L r₁.2.1.cascadeStart r₁.2.2 .G1 .Tenured (rootSlots roots) [h.descs]

def MajorSafe (L : HeapLayout) (h : PageHeap) (ext : Nat → Word) (roots : List Nat) : Prop :=
  FreshSafe L h ext .G1 .Tenured roots ∧
    ∀ r₁, h.evacuateWithRoots L ext .G1 .Tenured
        (withCardScan L (rootsVisitor L roots) h.descs) = .ok r₁ →
      FreshSafe L r₁.2.1 r₁.2.2 .G0 .G0 roots

def FullSafe (L : HeapLayout) (h : PageHeap) (ext : Nat → Word) (roots : List Nat) : Prop :=
  FreshSafe L h ext .G0 .G1 roots ∧
    ∀ r₁, h.evacuateWithRoots L ext .G0 .G1
        (withCardScan L (rootsVisitor L roots) h.descs) = .ok r₁ →
      FreshSafe L r₁.2.1 r₁.2.2 .G1 .Tenured roots ∧
        ∀ r₂, r₁.2.1.evacuateWithRoots L r₁.2.2 .G1 .Tenured
            (withCardScan L (rootsVisitor L roots) r₁.2.1.descs) = .ok r₂ →
          PassMeets L r₂.2.1 r₂.2.2 .Tenured .Tenured (rootsVisitor L roots) (NoReuse L)

section Safe

variable {L : HeapLayout} {h : PageHeap} {T : ObjTable} {ext : Nat → Word} {g dest : Generation}
  {roots : List Nat}

/-- A snapshot taken at the start makes the filter part of the condition void. -/
theorem FreshSafe.passSafe (hP : PassOk L h T) (hg : g ≠ .Free)
    (hsafe : FreshSafe L h ext g dest roots) :
    PassSafe L h ext g dest (rootSlots roots) [h.descs] := by
  refine ⟨hsafe, fun hm ext' hmark D hD => ?_⟩
  obtain ⟨hm', hmark', hM⟩ := markAndPin_prepared dest hP hg
    (@shows_mark L h T g (rootSlots roots) [h.descs] ext dest hP.shape hg
      (slotSafe_rootSlots h T g roots))
  rw [hmark'] at hmark
  cases hmark
  rw [List.mem_singleton] at hD
  subst hD
  exact filterSafe_fresh hM.objects.role _ g

theorem PassOk.evacuates_fresh (hP : PassOk L h T) (hg : g ≠ .Free) (hd : dest ≠ .Free)
    (hsafe : FreshSafe L h ext g dest roots) :
    Outcome GcPanic.IsOom
      (h.evacuateWithRoots L ext g dest (withCardScan L (rootsVisitor L roots) h.descs)) fun r =>
        ∃ hm s T' F, PassStep L h T g dest (withCardScan L (rootsVisitor L roots) h.descs)
          (PassMarked L h T ext g (rootSlots roots) [h.descs]) hm s T' F r :=
  @PassOk.evacuates L h T ext g dest (rootSlots roots) [h.descs] hP hg hd
    (slotSafe_rootSlots h T g roots) (hsafe.passSafe hP hg)

/-- What a cycle leaves: passes have carried the heap over, and the end of the cycle has made it
intact. -/
def Cycled (L : HeapLayout) (h : PageHeap) (T : ObjTable) (h' : PageHeap) : Prop :=
  ∃ h₁ T' F, Carried L h T h₁ T' F ∧ PassOk L h₁ T' ∧ CycleClosed L h₁ h'

theorem Cycled.intact {h' : PageHeap} (hC : Cycled L h T h') : ∃ T', Coherent L h' T' := by
  obtain ⟨h₁, T', F, -, hP, hE⟩ := hC
  exact ⟨T', hP.finish hE⟩

theorem minorDest_live (h : PageHeap) : h.minorDest ≠ .Free := by
  unfold minorDest
  split <;> decide

/-- A minor collection whose first pass takes a step. -/
theorem collectMinor_of_first {slots : List Slot} {filters : List (Nat → PageDesc)}
    {v : RootVisitor} {marked : Nat → Prop}
    (hv : withCardScan L v h.descs = passVisitor L slots filters)
    (hslots : ∀ s ∈ slots, ∀ h' T', SlotSafe h' T' .G1 s)
    (hfirst : Outcome GcPanic.IsOom
      (h.minorStart.evacuateWithRoots L ext .G0 h.minorDest (passVisitor L slots filters)) fun r =>
        ∃ hm s T' F, PassStep L h.minorStart T .G0 h.minorDest (passVisitor L slots filters) marked
          hm s T' F r)
    (hsecond : ∀ r₁, h.minorStart.evacuateWithRoots L ext .G0 h.minorDest
        (passVisitor L slots filters) = .ok r₁ → h.cascades r₁.2.1 = true →
      PassSafe L r₁.2.1.cascadeStart r₁.2.2 .G1 .Tenured slots filters) :
    Outcome GcPanic.IsOom (h.collectMinor L ext v) fun r => Cycled L h T r.2.1 := by
  refine collectMinor_rule (Q := fun r => Cycled L h T r.1) ?_
  rw [hv]
  refine Outcome.of_value (fun r₁ hr₁ => ?_) fun e he => hfirst.failure he
  obtain ⟨hm, s, T₁, F, hstep⟩ := hfirst.value hr₁
  have hcarried : Carried L h T r₁.2.1 T₁ F :=
    (hstep.carried (minorDest_live h)).congr_left rfl rfl rfl rfl rfl rfl
  refine ⟨fun _ => .of_passOk hstep.next fun h' hE => ⟨r₁.2.1, T₁, F, hcarried, hstep.next, hE⟩,
    fun hcascade => ?_⟩
  have hP₁ : PassOk L r₁.2.1.cascadeStart T₁ := hstep.next.counted _ _
  refine (hP₁.evacuates (by decide) (by decide) (fun s hs => hslots s hs _ _)
    (hsecond r₁ hr₁ hcascade)).mono ?_
  rintro r₂ ⟨hm₂, s₂, T₂, G, hstep₂⟩
  refine .of_passOk hstep₂.next fun h' hE => ?_
  have hcarried₂ : Carried L r₁.2.1 T₁ r₂.2.1 T₂ G :=
    (hstep₂.carried (by decide)).congr_left rfl rfl rfl rfl rfl rfl
  exact ⟨r₂.2.1, T₂, _, hcarried.trans hcarried₂, hstep₂.next, hE⟩

theorem collectMinor_cycled (hP : PassOk L h T) (hsafe : MinorSafe L h ext roots) :
    Outcome GcPanic.IsOom (h.collectMinor L ext (rootsVisitor L roots)) fun r =>
      Cycled L h T r.2.1 := by
  have hP₀ : PassOk L h.minorStart T := hP.counted _ _
  -- the closure of a pass over the roots and one snapshot
  refine @collectMinor_of_first L h T ext (rootSlots roots) [h.descs] (rootsVisitor L roots)
    (PassMarked L h.minorStart T ext .G0 (rootSlots roots) [h.descs]) rfl
    (fun s hs h' T' => slotSafe_rootSlots h' T' .G1 roots s hs) ?_ hsafe.2
  exact hP₀.evacuates_fresh (by decide) (minorDest_live h) hsafe.1

theorem collectMajor_cycled (hP : PassOk L h T) (hsafe : MajorSafe L h ext roots) :
    Outcome GcPanic.IsOom (h.collectMajor L ext (rootsVisitor L roots)) fun r =>
      Cycled L h T r.2.1 := by
  have hfirst := hP.evacuates_fresh (by decide) (by decide) hsafe.1
  refine collectMajor_rule (Q := fun r => Cycled L h T r.1) ?_
  refine Outcome.of_value (fun r₁ hr₁ => ?_) fun e he => hfirst.failure he
  obtain ⟨hm, s, T₁, F, hstep⟩ := hfirst.value hr₁
  refine (hstep.next.evacuates_fresh (by decide) (by decide) (hsafe.2 r₁ hr₁)).mono ?_
  rintro r₂ ⟨hm₂, s₂, T₂, G, hstep₂⟩
  refine .of_passOk hstep₂.next fun h' hE => ?_
  exact ⟨r₂.2.1, T₂, _, (hstep.carried (by decide)).trans (hstep₂.carried (by decide)),
    hstep₂.next, hE⟩

theorem collectFull_cycled (hP : PassOk L h T) (hsafe : FullSafe L h ext roots) :
    Outcome GcPanic.IsOom (h.collectFull L ext (rootsVisitor L roots)) fun r =>
      Cycled L h T r.2.1 := by
  have hfirst := hP.evacuates_fresh (by decide) (by decide) hsafe.1
  refine collectFull_rule (Q := fun r => Cycled L h T r.1) ?_
  refine Outcome.of_value (fun r₁ hr₁ => ?_) fun e he => hfirst.failure he
  obtain ⟨hm, s, T₁, F, hstep⟩ := hfirst.value hr₁
  obtain ⟨hsafe₁, hsafe₂⟩ := hsafe.2 r₁ hr₁
  have hsecond := hstep.next.evacuates_fresh (by decide) (by decide) hsafe₁
  refine Outcome.of_value (fun r₂ hr₂ => ?_) fun e he => hsecond.failure he
  obtain ⟨hm₂, s₂, T₂, G, hstep₂⟩ := hsecond.value hr₂
  have hlast : PassSafe L r₂.2.1 r₂.2.2 .Tenured .Tenured (rootSlots roots) [] :=
    ⟨hsafe₂ r₂ hr₂, fun _ _ _ D hD => absurd hD List.not_mem_nil⟩
  refine (hstep₂.next.evacuates (by decide) (by decide) (slotSafe_rootSlots _ _ _ _) hlast).mono ?_
  rintro r₃ ⟨hm₃, s₃, T₃, H, hstep₃⟩
  refine .of_passOk hstep₃.next fun h' hE => ?_
  exact ⟨r₃.2.1, T₃, _, ((hstep.carried (by decide)).trans (hstep₂.carried (by decide))).trans
    (hstep₃.carried (by decide)), hstep₃.next, hE⟩

/-- The passes of an automatic collection are safe. -/
def AutoSafe (L : HeapLayout) (h : PageHeap) (ext : Nat → Word) (threshold : Nat)
    (roots : List Nat) : Prop :=
  (h.shouldCollectMajor threshold = true → MajorSafe L h ext roots) ∧
    (h.shouldCollectMajor threshold = false → MinorSafe L h ext roots)

theorem collectAuto_cycled {threshold : Nat} (hP : PassOk L h T)
    (hsafe : AutoSafe L h ext threshold roots) :
    Outcome GcPanic.IsOom (h.collectAuto L ext threshold (rootsVisitor L roots)) fun r =>
      Cycled L h T r.2.1 := by
  refine collectAuto_rule (Q := fun r => Cycled L h T r.1) ?_
    (fun hmajor => collectMajor_cycled hP (hsafe.1 hmajor))
    (fun hminor => collectMinor_cycled hP (hsafe.2 hminor))
  rintro r ⟨h₁, T', F, hcarried, hP₁, hE⟩
  exact ⟨h₁, T', F, hcarried, hP₁, hE.counters _ _ _⟩

end Safe

end NewGc
