import NewGc.Visitors

/-!
# Pass — one evacuation, from its marks to its last chunk

`PassOk` is what an evacuation expects of the heap and leaves behind.  `Prepared` says what the mark
pass and the pins decide, `Passed` what has become of every object when the chunk loop is through.
-/

namespace NewGc

open Library PageHeap

/-! ## Between two evacuations -/

/-- The heap between the evacuations of a cycle. -/
structure PassOk (L : HeapLayout) (h : PageHeap) (T : ObjTable) : Prop where
  shape : Shape L h T Forwarding.empty
  regions : RegionsOk h
  pins : ∀ c ∈ h.pinnedCells, PinOk h T c
  explicit : ∀ e ∈ h.explicitCells, ExplicitOk h T e
  inactive : h.recycleLiveCountsTarget = none

/-- Every header-bearing object the evacuation of `g` is about to copy lies on a page the snapshot
shows free or in `g`: no card scanned through the snapshot meets its marker. -/
def FilterSafe (h : PageHeap) (T : ObjTable) (g : Generation) (snapshot : Nat → PageDesc) : Prop :=
  ∀ c, ToCopy h T g c → h.kindAt c = .Boxed →
    (snapshot (c / pageSizeCells)).generation = .Free ∨
      (snapshot (c / pageSizeCells)).generation = g

/-- A snapshot taken when the evacuation starts is safe. -/
theorem filterSafe_fresh {h h' : PageHeap} (hrole : ∀ q, (h.descs q).SameRole (h'.descs q))
    (T : ObjTable) (g : Generation) : FilterSafe h' T g h.descs := by
  intro c hto _
  right
  rw [← (hrole _).generation]
  exact hto.generation

/-- A slot an evacuation of `g` may be shown: outside the reservation, or a pointer cell of an
object of another generation. -/
def SlotSafe (h : PageHeap) (T : ObjTable) (g : Generation) : Slot → Prop
  | .ext _ => True
  | .cell c => ∃ x o i, T x = some o ∧ h.genAt x ≠ g ∧ o.IsPtr i ∧ c = x + i

/-- The closure of a pass: a list of slots, then filtered card scans. -/
def passVisitor (L : HeapLayout) (slots : List Slot) (filters : List (Nat → PageDesc)) :
    RootVisitor :=
  filters.foldl (withCardScan L) (slotsVisitor L slots)

/-- The slots the closure of a pass presents. -/
def passSlots (h : PageHeap) (T : ObjTable) (g : Generation) (slots : List Slot)
    (filters : List (Nat → PageDesc)) : List Slot :=
  slots ++ filters.flatMap fun D => scannedSlots h T g (some D)

/-- The client's part of a pass: what it may show, and through which snapshots cards are scanned. -/
structure VisitOk (h : PageHeap) (T : ObjTable) (g : Generation) (slots : List Slot)
    (filters : List (Nat → PageDesc)) : Prop where
  slots : ∀ s ∈ slots, SlotSafe h T g s
  filters : ∀ D ∈ filters, FilterSafe h T g D

section Shows

variable {L : HeapLayout} {T : ObjTable} {K : Forwarding} {e₀ : PageEvacuator}

theorem shows_passVisitor (hE : Steady L T K e₀) (hS : Shape L e₀.heap T K) (slots : List Slot)
    (hslots : ∀ c, Slot.cell c ∈ slots → Scannable T c) (filters : List (Nat → PageDesc))
    (hread : ∀ D ∈ filters, ∀ card ∈ scannedCards e₀.heap e₀.fromGen (some D), ∀ x,
      (e₀.heap.kindAt x = .Large ∨ x / pageSizeCells = card / cardsPerPage) →
        Readable e₀.heap T K x) :
    Shows L (passVisitor L slots filters) e₀ T (passSlots e₀.heap T e₀.fromGen slots filters) := by
  unfold passVisitor passSlots
  -- over the snapshots already scanned with
  refine foldl_prefix (I := fun done v => Shows L v e₀ T
    (slots ++ done.flatMap fun D => scannedSlots e₀.heap T e₀.fromGen (some D))) filters ?_ ?_
  · intro done D v hpre hv
    have hD : D ∈ filters := hpre.subset (List.mem_append_right _ List.mem_cons_self)
    have hnext := hv.withCardScan hE hS (hread D hD)
    rw [List.append_assoc] at hnext
    rw [List.flatMap_append, List.flatMap_singleton]
    exact hnext
  · rw [List.flatMap_nil, List.append_nil]
    exact hE.shows hslots

end Shows

theorem mem_scannedCards {h : PageHeap} {g : Generation} {D : Nat → PageDesc} {card : Nat}
    (hcard : card ∈ scannedCards h g (some D)) : h.cards card = true ∧
      card / cardsPerPage < h.nPages ∧ (D (card / cardsPerPage)).generation ≠ .Free ∧
        (D (card / cardsPerPage)).generation ≠ g := by
  have hpage : card * cardSizeCells / pageSizeCells = card / cardsPerPage := by
    unfold cardSizeCells pageSizeCells cardsPerPage
    omega
  obtain ⟨-, hp⟩ := List.mem_filter.1 hcard
  simp only [PageEvacuator.cardPassesFilter, Bool.and_eq_true, decide_eq_true_eq, bne_iff_ne,
    hpage] at hp
  exact ⟨hp.1, hp.2.1.1, hp.2.1.2, hp.2.2⟩

/-- In the mark pass every closure presents its slots. -/
theorem shows_mark {L : HeapLayout} {h : PageHeap} {T : ObjTable} {fromGen : Generation}
    {slots : List Slot} {filters : List (Nat → PageDesc)} (ext : Nat → Word) (destGen : Generation)
    (hS : Shape L h T Forwarding.empty) (hg : fromGen ≠ .Free)
    (hslots : ∀ s ∈ slots, SlotSafe h T fromGen s) :
    Shows L (passVisitor L slots filters)
      (.new (h.clearMarkBitsInGen fromGen) ext fromGen destGen .mark) T
      (passSlots h T fromGen slots filters) := by
  have hM := clearMarkBitsInGen_frame h fromGen
  have hS' : Shape L (h.clearMarkBitsInGen fromGen) T Forwarding.empty := hM.shape hS
  have hshows := shows_passVisitor (L := L) (T := T) (K := Forwarding.empty)
    (steady_mark (e := .new (h.clearMarkBitsInGen fromGen) ext fromGen destGen .mark) rfl rfl hg hS')
    hS' slots (by
      intro c hc
      obtain ⟨x, o, i, hx, -, hptr, rfl⟩ := hslots _ hc
      exact ⟨x, o, i, hx, hptr, rfl⟩) filters (by
      intro D _ card _ x _ _
      exact Or.inl rfl)
  have hslotsEq : passSlots (h.clearMarkBitsInGen fromGen) T fromGen slots filters =
      passSlots h T fromGen slots filters := by
    have hscan : (fun D => scannedSlots (h.clearMarkBitsInGen fromGen) T fromGen (some D)) =
        fun D => scannedSlots h T fromGen (some D) := by
      funext D
      exact scannedSlots_congr hM.nPages hM.startBits hM.role hM.cards fromGen (some D)
    unfold passSlots
    rw [hscan]
  rw [← hslotsEq]
  exact hshows

/-- In phase 2 of any chunk the closure shows the slots of its list and those of its scans. -/
theorem shows_midway {L : HeapLayout} {p : ChunkParams} {h₀ hc : PageHeap} {T₀ Tc : ObjTable}
    {K : Forwarding} {slots : List Slot} {filters : List (Nat → PageDesc)}
    (hS : Shape L h₀ T₀ Forwarding.empty) (hv : VisitOk h₀ T₀ p.fromGen slots filters)
    (hM : Midway L p h₀ T₀ hc Tc K) (ext : Nat → Word) :
    Shows L (passVisitor L slots filters) (.new hc ext p.fromGen p.destGen .rewrite) Tc
      (passSlots hc Tc p.fromGen slots filters) :=
  shows_passVisitor (L := L) (T := Tc) (K := K)
    (steady_rewrite (e := .new hc ext p.fromGen p.destGen .rewrite) rfl hM.shape) hM.shape slots (by
      intro c hmem
      obtain ⟨x, o, i, hx, hgen, hptr, rfl⟩ := hv.slots _ hmem
      exact ⟨x, o, i, hM.others x o hx hgen, hptr, rfl⟩) filters (by
      intro D hD card hcard x hx _
      obtain ⟨-, -, hlive, hgen⟩ := mem_scannedCards hcard
      cases hK : K x with
      | none => exact Or.inl rfl
      | some d =>
          -- a moved object comes from the generation that is evacuated
          right
          have hto := hM.source x d hK
          obtain ⟨o, ho⟩ := Option.isSome_iff_exists.1 hto.object
          have hkind : hc.kindAt x = h₀.kindAt x := hM.sourceKind x d hK
          rcases hx with hlarge | hpage
          · exact absurd (hkind ▸ hlarge) hto.small
          · show hc.kindAt x = .Cons
            rw [hkind]
            cases hk : h₀.kindAt x with
            | Cons => rfl
            | Large => exact absurd hk hto.small
            | Free => exact absurd ((hS.pages.kindFree _).1 hk) (hS.live ho)
            | Boxed =>
                rcases hv.filters D hD x hto hk with hfree | hsame
                · exact absurd (hpage ▸ hfree) hlive
                · exact absurd (hpage ▸ hsame) hgen)

/-- In phase 2 of any chunk the closure presents at least the slots of the list. -/
theorem serves_passVisitor {L : HeapLayout} {p : ChunkParams} {h₀ : PageHeap} {T₀ : ObjTable}
    {slots : List Slot} {filters : List (Nat → PageDesc)} (hS : Shape L h₀ T₀ Forwarding.empty)
    (hp : p.visitRoots = passVisitor L slots filters)
    (hv : VisitOk h₀ T₀ p.fromGen slots filters) : Serves L p h₀ T₀ fun s => s ∈ slots := by
  intro hc ext Tc K hM
  rw [hp]
  exact (shows_midway hS hv hM ext).presents fun s hs => List.mem_append_left _ hs

/-! ## Marks and pins -/

/-- What the mark pass and the pins leave behind: `marked` are the objects the mark pass reached. -/
structure Prepared (L : HeapLayout) (h : PageHeap) (T : ObjTable) (g : Generation)
    (marked : Nat → Prop) (hm : PageHeap) : Prop where
  objects : SameObjects h hm
  cards : hm.cards = h.cards
  allocRegions : hm.allocRegions = h.allocRegions
  hashOrder : hm.hashOrder = h.hashOrder
  explicitPins : hm.explicitPins = h.explicitPins
  pinned : ∀ c ∈ h.pinnedCells, c ∈ hm.pinnedCells
  bits : ∀ c, h.kindAt c ≠ .Large → (h.descs (c / pageSizeCells)).isPinned (pinSlot c) = true →
    (hm.descs (c / pageSizeCells)).isPinned (pinSlot c) = true
  newPins : ∀ c ∈ hm.pinnedCells, c ∈ h.pinnedCells ∨ c ∈ h.explicitCells ∨ h.kindAt c = .Large
  newBits : ∀ q, (hm.descs q).hasPins = true → (h.descs q).hasPins = true ∨
    (∃ e ∈ h.explicitCells, e / pageSizeCells = q) ∨ (h.descs q).kind = .Large
  pins : ∀ c ∈ hm.pinnedCells, PinOk hm T c
  explicit : ∀ e ∈ h.explicitCells, ExplicitOk hm T e ∧ e ∈ hm.pinnedCells ∧
    (hm.descs (e / pageSizeCells)).isPinned (pinSlot e) = true
  closed : MarkClosed hm T g (PageMarker.markTarget L h g)
  marks : ∀ c, marked c → hm.isMarked c = true
  largeMarks : ∀ c, marked c → h.kindAt c = .Large →
    c ∈ hm.pinnedCells ∧ (hm.descs (c / pageSizeCells)).hasPins = true
  roots : ∀ x, PinRoot L hm T g x → hm.isMarked x = true
  fresh : ∀ c, hm.isMarked c = true → h.genAt c = g → (T c).isSome
  sound : ∀ c, hm.isMarked c = true → h.genAt c = g → h.kindAt c ≠ .Large → marked c ∨
    ∃ x, PinRoot L hm T g x ∧ MarkReach h T g (PageMarker.markTarget L h g) x c

/-- The objects of `g` reached from a list of slots. -/
def MarkedFrom (L : HeapLayout) (h : PageHeap) (T : ObjTable) (ext : Nat → Word) (g : Generation)
    (slots : List Slot) (c : Nat) : Prop :=
  ∃ s ∈ slots, ∃ x, evacTarget L h g (s.read h ext) = some x ∧
    MarkReach h T g (evacTarget L h g) x c

section Prepare

variable {L : HeapLayout} {h : PageHeap} {T : ObjTable} {g : Generation}

theorem markReach_congr {h' : PageHeap} {target target' : Word → Option Nat}
    (hO : SameObjects h h') (ht : ∀ w, target' w = target w) {x c : Nat}
    (hr : MarkReach h' T g target' x c) : MarkReach h T g target x c := by
  refine Relation.ReflTransGen.mono ?_ x c hr
  intro a b hab
  rw [show target' = target from funext ht] at hab
  rw [← markSucc_congr hO]
  exact hab

/-- The marks of the mark pass are closed for the plain marker too. -/
theorem InternalMarked.markState {h₁ : PageHeap} {ext : Nat → Word} {slots : List Slot}
    (hP : PassOk L h T) (hg : g ≠ .Free) (hI : InternalMarked L h T ext g slots h₁) :
    MarkState L h₁ T g where
  shape := hI.frame.shape hP.shape
  live := hg
  closed := by
    intro x y hx hy
    refine hI.closed x y hx ?_
    obtain ⟨o, i, hT, hgen, hptr, ht⟩ := mem_markSucc.1 hy
    rw [markTarget_congr hI.frame.sameObjects] at ht
    exact mem_markSucc.2 ⟨o, i, hT, hgen, hptr, evacTarget_of_markTarget hP.shape hg ht⟩
  fresh := by
    intro c hc hgen
    rw [hI.frame.genAt] at hgen
    exact (hI.fresh c hc hgen).1
  pins := hI.frame.pins hP.shape hP.pins
  explicit := by
    intro e he
    have he' : e ∈ h.explicitCells := by
      unfold explicitCells at he ⊢
      rwa [hI.frame.explicitPins] at he
    obtain ⟨hobj, hpage⟩ := hP.explicit e he'
    refine ⟨hobj, ?_⟩
    intro hsmall c hc hce
    rw [hI.frame.kindAt] at hsmall
    have hk : h.kindAt c ≠ .Large := by
      unfold kindAt at hsmall ⊢
      rwa [hce]
    -- the mark pass pins large heads only
    rcases hI.frame.newPins c hc with hold | ⟨hlarge, -⟩
    · rw [hI.frame.small _ hk]
      exact hpage hsmall c hold hce
    · exact absurd hlarge hk
  active := hI.active

/-- The pins, on top of marks that `MarkState` describes. -/
theorem PinsApplied.prepared {h₁ hm : PageHeap} {marked : Nat → Prop} (hM : MarksOnly h h₁)
    (hS : MarkState L h₁ T g) (hA : PinsApplied L h₁ T g hm)
    (hmarks : ∀ c, marked c → h₁.isMarked c = true)
    (hlarge : ∀ c, marked c → h.kindAt c = .Large →
      c ∈ h₁.pinnedCells ∧ (h₁.descs (c / pageSizeCells)).hasPins = true)
    (hsound : ∀ c, h₁.isMarked c = true → h.genAt c = g → h.kindAt c ≠ .Large → marked c) :
    Prepared L h T g marked hm := by
  have hO : SameObjects h h₁ := hM.sameObjects
  have hcells : h₁.explicitCells = h.explicitCells := by
    unfold explicitCells
    rw [hM.explicitPins]
  have htarget : ∀ w, PageMarker.markTarget L h₁ g w = PageMarker.markTarget L h g w :=
    markTarget_congr hO
  refine
    { objects := hO.trans hA.objects
      cards := hA.cards.trans hM.cards
      allocRegions := hA.allocRegions.trans hM.allocRegions
      hashOrder := hA.hashOrder.trans hM.hashOrder
      explicitPins := hA.explicitPins.trans hM.explicitPins
      pinned := fun c hc => hA.pinned c (hM.pinned c hc)
      bits := ?_
      newPins := ?_
      newBits := ?_
      pins := hA.pins
      explicit := ?_
      closed := ?_
      marks := fun c hc => hA.marks c (hmarks c hc)
      largeMarks := ?_
      roots := hA.roots
      fresh := fun c hc hgen => hA.fresh c hc ((hO.genAt c).trans hgen)
      sound := ?_ }
  · intro c hk hbit
    refine hA.bits _ _ ?_
    rw [hM.small _ hk]
    exact hbit
  · intro c hc
    rcases hA.newPins c hc with hold | he
    · rcases hM.newPins c hold with hold | ⟨hk, -⟩
      · exact Or.inl hold
      · exact Or.inr (Or.inr hk)
    · exact Or.inr (Or.inl (hcells ▸ he))
  · intro q hq
    rcases hA.newBits q with hsame | ⟨e, he, heq⟩
    · by_cases hk : (h.descs q).kind = .Large
      · exact Or.inr (Or.inr hk)
      · rw [hsame, hM.small q hk] at hq
        exact Or.inl hq
    · exact Or.inr (Or.inl ⟨e, hcells ▸ he, heq⟩)
  · intro e he
    rw [← hcells] at he
    obtain ⟨hobj, hpage⟩ := hS.explicit e he
    refine ⟨⟨hobj, ?_⟩, hA.explicit e he⟩
    intro hsmall c hc hce
    rw [hA.objects.kindAt] at hsmall
    rcases hA.newPins c hc with hold | hc'
    · exact hA.bits _ _ (hpage hsmall c hold hce)
    · exact (hA.explicit c hc').2
  · have hclosed := hA.closed
    rw [show PageMarker.markTarget L h₁ g = PageMarker.markTarget L h g from funext htarget]
      at hclosed
    exact hclosed
  · intro c hc hk
    obtain ⟨hp, hb⟩ := hlarge c hc hk
    exact ⟨hA.pinned c hp, hA.hasPins _ hb⟩
  · intro c hc hgen hk
    rcases hA.sound c hc with hold | ⟨x, hx, hr⟩
    · exact Or.inl (hsound c hold hgen hk)
    · exact Or.inr ⟨x, hx, markReach_congr hO htarget hr⟩

/-- What is reached from a target of the generation stays in it. -/
theorem markReach_genAt {target : Word → Option Nat} (hok : TargetsOk h T g target) {x c : Nat}
    (hr : MarkReach h T g target x c) (hx : h.genAt x = g) : h.genAt c = g := by
  induction hr with
  | refl => exact hx
  | tail _ hstep _ =>
      obtain ⟨o, i, -, -, -, ht⟩ := mem_markSucc.1 hstep
      exact hok.generation _ _ ht

theorem InternalMarked.reached {h₁ : PageHeap} {ext : Nat → Word} {slots : List Slot}
    (hI : InternalMarked L h T ext g slots h₁) {c : Nat} (hc : MarkedFrom L h T ext g slots c) :
    h₁.isMarked c = true := by
  obtain ⟨s, hs, x, hx, hr⟩ := hc
  have hroot := hI.roots s hs x hx
  clear hx
  induction hr with
  | refl => exact hroot
  | tail _ hstep ih =>
      exact hI.closed _ _ ih (by rw [markSucc_congr hI.frame.sameObjects]; exact hstep)

/-- Step 1 of an evacuation whose marks are not there yet. -/
theorem markAndPin_prepared {ext : Nat → Word} (destGen : Generation) {v : RootVisitor}
    {slots : List Slot} (hP : PassOk L h T) (hg : g ≠ .Free)
    (hv : Shows L v (.new (h.clearMarkBitsInGen g) ext g destGen .mark) T slots) :
    ∃ hm, h.markAndPin L ext g destGen v = .ok (hm, ext) ∧
      Prepared L h T g (MarkedFrom L h T ext g slots) hm := by
  obtain ⟨h₁, hok₁, hI⟩ := internalMark_marked hP.shape hg hv.1
  obtain ⟨hm, hok₂, hA⟩ := applyPins_applied (hI.markState hP hg)
  have hO := hI.frame.sameObjects
  have htargets := evacTarget_ok hP.shape hg
  refine ⟨hm, ?_, hA.prepared hI.frame (hI.markState hP hg) ?_ ?_ ?_⟩
  · unfold markAndPin recycleLiveCountsActiveFor
    rw [hP.inactive, if_neg (by simp), hok₁]
    show (h₁.applyPinsAndExtendMark L g >>= fun h => _) = _
    rw [hok₂]
    rfl
  · exact fun c hc => hI.reached hc
  · intro c hc hk
    have hgen : h.genAt c = g := by
      obtain ⟨_, _, x, hx, hr⟩ := hc
      exact markReach_genAt htargets hr (htargets.generation _ x hx)
    exact (hI.fresh c (hI.reached hc) hgen).2 hk
  · intro c hc hgen _
    exact hI.sound c hc hgen

end Prepare

/-! ## The chunk loop -/

theorem resetAllocRegions_other (h : PageHeap) {g g' : Generation} (hne : g' ≠ g) (k : PageKind) :
    (h.resetAllocRegions g).allocRegions g' k = h.allocRegions g' k := by
  unfold resetAllocRegions
  rw [setAllocRegion_other _ _ (by simp [hne]), setAllocRegion_other _ _ (by simp [hne])]

theorem resetAllocRegions_self (h : PageHeap) (g : Generation) {k : PageKind}
    (hk : k = .Cons ∨ k = .Boxed) :
    ((h.resetAllocRegions g).allocRegions g k).currentPage = none := by
  unfold resetAllocRegions
  rcases hk with rfl | rfl
  · rw [setAllocRegion_other _ _ (by simp), setAllocRegion_self]
    rfl
  · rw [setAllocRegion_self]
    rfl

/-- The chunk loop starts in order: the open pages of the generation are given up first. -/
theorem Prepared.loopStart {L : HeapLayout} {h hm : PageHeap} {T : ObjTable} {g dest : Generation}
    {marked : Nat → Prop} (v : RootVisitor) (hshape : Shape L h T Forwarding.empty)
    (hregions : ∀ g', g' ≠ g → ∀ k, RegionOk h g' k) (hempty : ∀ k, k ≠ .Cons → k ≠ .Boxed →
      (h.allocRegions g k).currentPage = none) (hM : Prepared L h T g marked hm)
    (hg : g ≠ .Free) (hd : dest ≠ .Free) :
    LoopStart L (hm.chunkParams g dest v) (hm.resetAllocRegions g) T := by
  have hS : Shape L hm T Forwarding.empty := hM.objects.shape hshape
  have hregions' : ∀ g', g' ≠ g → ∀ k, RegionOk hm g' k := by
    intro g' hne k q hq
    rw [hM.allocRegions] at hq ⊢
    have hrole := hM.objects.role q
    rw [hrole.generation, hrole.kind, hrole.wordsUsed]
    exact hregions g' hne k q hq
  have hopen : ∀ g' k q, ((hm.resetAllocRegions g).allocRegions g' k).currentPage = some q →
      g' ≠ g ∧ (hm.allocRegions g' k).currentPage = some q := by
    intro g' k q hq
    by_cases hgg : g' = g
    · subst hgg
      by_cases hk : k = .Cons ∨ k = .Boxed
      · rw [resetAllocRegions_self hm g' hk] at hq
        cases hq
      · -- the other kinds have no open page
        push Not at hk
        unfold resetAllocRegions at hq
        rw [setAllocRegion_other _ _ (by simp [hk.2]), setAllocRegion_other _ _ (by simp [hk.1]),
          hM.allocRegions, hempty k hk.1 hk.2] at hq
        cases hq
    · rw [resetAllocRegions_other hm hgg] at hq
      exact ⟨hgg, hq⟩
  exact
    { shape := hS.congr rfl rfl (fun _ => .refl _) rfl rfl rfl
        fun _ => Or.inl
      regions := by
        intro g' k q hq
        obtain ⟨hne, hq'⟩ := hopen g' k q hq
        rw [resetAllocRegions_other hm hne]
        exact hregions' g' hne k q hq'
      away := by
        intro g' k q hq
        obtain ⟨hne, hq'⟩ := hopen g' k q hq
        show (hm.descs q).generation ≠ g
        rw [(hregions' g' hne k q hq').1]
        exact hne
      fromLive := hg
      destLive := hd
      pins := hM.pins
      listed := by
        intro c
        show Listed hm.pinnedWithKind c ↔ c ∈ hm.pinnedCells
        unfold Listed pinnedWithKind
        rw [List.map_map]
        show c ∈ List.map id _ ↔ _
        rw [List.map_id]
        exact (hm.hashOrder.perm hm.pinnedCells).mem_iff
      kinds := by
        intro e he o hT
        obtain ⟨c, -, rfl⟩ := List.mem_map.1 he
        exact hS.isConsStartAt hT }

/-- Between two evacuations every region is in order. -/
theorem PassOk.loopStart {L : HeapLayout} {h hm : PageHeap} {T : ObjTable} {g dest : Generation}
    {marked : Nat → Prop} (v : RootVisitor) (hP : PassOk L h T) (hM : Prepared L h T g marked hm)
    (hg : g ≠ .Free) (hd : dest ≠ .Free) :
    LoopStart L (hm.chunkParams g dest v) (hm.resetAllocRegions g) T := by
  refine hM.loopStart v hP.shape (fun g' _ k => hP.regions g' k) ?_ hg hd
  intro k hcons hboxed
  rw [Option.eq_none_iff_forall_ne_some]
  intro q hq
  rcases (hP.regions g k q hq).2.2.2.2 with hk | hk
  · exact hcons hk
  · exact hboxed hk

/-- Every chunk of an evacuation starts in a state that meets `C`. -/
def PassMeets (L : HeapLayout) (h : PageHeap) (ext : Nat → Word) (fromGen destGen : Generation)
    (v : RootVisitor) (C : ChunkParams → ChunkState → Prop) : Prop :=
  ∀ hm ext', h.markAndPin L ext fromGen destGen v = .ok (hm, ext') →
    (hm.chunkStart ext' fromGen).meets L (hm.chunkParams fromGen destGen v)
      (C (hm.chunkParams fromGen destGen v)) (hm.pagesInGen fromGen).length

/-- The state an evacuation ends in. -/
structure PassEnd (L : HeapLayout) (p : ChunkParams) (h₀ : PageHeap) (T₀ : ObjTable)
    (s : ChunkState) (T : ObjTable) (F : Forwarding)
    (r : EvacResult × PageHeap × (Nat → Word)) : Prop where
  done : s.rest = []
  evacuated : Evacuating L p h₀ T₀ s T F
  heap : r.2.1 = (s.heap.clearMarkBitsInGen p.fromGen).clearRecycleLiveCounts
  ext : r.2.2 = s.ext

/-- Nothing has moved yet. -/
def Forwarding.still (T : ObjTable) : Forwarding := fun c => if (T c).isSome then some c else none

section Evacuate

variable {L : HeapLayout} {h hm : PageHeap} {T : ObjTable} {ext : Nat → Word}
  {g dest : Generation} {v : RootVisitor} {marked : Nat → Prop}

/-- What an evacuation does after step 1. -/
theorem evacuateWithRoots_eq (hg : g ≠ .Free) (hd : dest ≠ .Free) {ext' : Nat → Word}
    (hmark : h.markAndPin L ext g dest v = .ok (hm, ext')) :
    h.evacuateWithRoots L ext g dest v =
      ((hm.chunkStart ext' g).loop L (hm.chunkParams g dest v) (hm.pagesInGen g).length >>= fun s =>
        .ok (s.total, (s.heap.clearMarkBitsInGen g).clearRecycleLiveCounts, s.ext)) := by
  unfold evacuateWithRoots
  rw [if_neg hg, if_neg hd, hmark]
  rfl

/-- An evacuation after its step 1: the loop rule, from the marks to the end. -/
theorem LoopStart.evacuate {must : Slot → Prop} {C : ChunkParams → ChunkState → Prop}
    {Q : ChunkState → ObjTable → Forwarding → Prop} (hg : g ≠ .Free) (hd : dest ≠ .Free)
    (hX : LoopStart L (hm.chunkParams g dest v) (hm.resetAllocRegions g) T) {ext' : Nat → Word}
    (hmark : h.markAndPin L ext g dest v = .ok (hm, ext'))
    (hserves : Serves L (hm.chunkParams g dest v) (hm.resetAllocRegions g) T must)
    (hC : ∀ p s, C p s → NoReuse L p s) (hmeets : PassMeets L h ext g dest v C)
    (hQ₀ : Q (hm.chunkStart ext' g) T (Forwarding.still T))
    (hQ : ∀ s T₁ F s' T₂ K,
      Evacuating L (hm.chunkParams g dest v) (hm.resetAllocRegions g) T s T₁ F →
      C (hm.chunkParams g dest v) s →
      ChunkResult L (hm.chunkParams g dest v) must s T₁ s' T₂ K → Q s T₁ F →
      Q s' T₂ (Evacuating.advance (hm.chunkParams g dest v) s F K)) :
    Outcome GcPanic.IsOom (h.evacuateWithRoots L ext g dest v) fun r => ∃ s T' F,
      PassEnd L (hm.chunkParams g dest v) (hm.resetAllocRegions g) T s T' F r ∧ Q s T' F := by
  rw [evacuateWithRoots_eq hg hd hmark]
  refine (Evacuating.loop hX hserves (hC _) hQ _ (hm.chunkStart ext' g) T (Forwarding.still T)
    (Nat.le_refl _) (Evacuating.start hX ext' EvacResult.zero) hQ₀ (hmeets hm ext' hmark)).bind ?_
  rintro s ⟨hdone, T', F, hE, hq⟩
  exact ⟨s, T', F, ⟨hdone, hE, rfl, rfl⟩, hq⟩

/-- Where every run of several pages is pinned, no page is free before its chunk. -/
theorem Evacuating.noReuse_of_held {p : ChunkParams} {h₀ : PageHeap} {T₀ T' : ObjTable}
    {s : ChunkState} {F : Forwarding} (hX : LoopStart L p h₀ T₀)
    (hheld : ∀ head, (h₀.descs head).generation = p.fromGen → (h₀.descs head).kind = .Large →
      2 ≤ (h₀.descs head).nSpan → (h₀.descs head).hasPins = true)
    (hE : Evacuating L p h₀ T₀ s T' F) : NoReuse L p s := by
  refine undisturbed_of_busy L _ _ _ _ fun q hq => ?_
  have hgen := hE.listedFrom q hq
  by_cases hk : (h₀.descs q).kind = .Large
  · obtain ⟨head, hkh, hspan, hle, hlt⟩ := hX.shape.pages.exists_head hk
    have hgenh : (h₀.descs head).generation = p.fromGen :=
      (hX.shape.pages.run_page hkh ⟨hle, hlt⟩).2.symm.trans hgen
    have hfate := hE.run head q hkh hspan hle hlt
    by_cases hrest : head ∈ s.rest
    · -- its head is listed too
      rw [(hfate.kept (Or.inr hrest)).generation, hgen]
      exact hX.fromLive
    · -- its head has been flipped, and the run with it
      have hne : q ≠ head := fun heq => hrest (heq ▸ hq)
      have hpins := hheld head hgenh hkh (by omega)
      rw [(hfate.flipped hgenh hrest hpins).generation]
      exact hX.destLive
  · have hlive : (h₀.descs q).generation ≠ .Free := by
      rw [hgen]
      exact hX.fromLive
    rw [(hE.alike_rest hq hlive fun hlarge => absurd hlarge hk).generation]
    exact hlive

/-- Where no large run is evacuated, no page is free before its chunk. -/
theorem Evacuating.noReuse {p : ChunkParams} {h₀ : PageHeap} {T₀ T' : ObjTable} {s : ChunkState}
    {F : Forwarding} (hX : LoopStart L p h₀ T₀)
    (hsmall : ∀ q, (h₀.descs q).generation = p.fromGen → (h₀.descs q).kind ≠ .Large)
    (hE : Evacuating L p h₀ T₀ s T' F) : NoReuse L p s :=
  hE.noReuse_of_held hX fun head hgen hk _ => absurd hk (hsmall head hgen)

theorem Evacuating.meets {p : ChunkParams} {h₀ : PageHeap} {T₀ : ObjTable} {must : Slot → Prop}
    (hX : LoopStart L p h₀ T₀) (hserves : Serves L p h₀ T₀ must)
    (hN : ∀ s T' F, Evacuating L p h₀ T₀ s T' F → NoReuse L p s) :
    ∀ fuel s T' F, Evacuating L p h₀ T₀ s T' F → s.meets L p (NoReuse L p) fuel := by
  intro fuel
  induction fuel with
  | zero => exact fun _ _ _ _ => trivial
  | succ fuel ih =>
      intro s T' F hE _
      refine ⟨hN s T' F hE, ?_⟩
      intro s' hs
      have hstep := (hE.ready hX).step_result must (hN s T' F hE) fun hc Tc K hI =>
        hserves hc s.ext Tc K (hE.midway hX hI)
      obtain ⟨T'', K, hR⟩ := hstep.value hs
      exact ih s' T'' _ (hE.step hX hR)

end Evacuate

end NewGc
