import NewGc.Worlds

/-!
# Plans — collections whose safety the heap shows beforehand

Whether an evacuation opens a page that its own list still holds depends on how its chunks fall.
Two conditions on the heap it starts from rule that out: the generation fits into one chunk, or each
of its runs of several pages is named by a slot or an explicit pin, so that none of them is freed.
-/

namespace NewGc

open Library PageHeap

/-! ## The conditions -/

namespace PageHeap

/-- A page that may hold a pinned cell once the roots are marked. -/
def mayPin (h : PageHeap) (q : Nat) : Bool :=
  decide ((h.descs q).kind = .Large) ||
    (h.pinnedCells ++ h.explicitCells).any fun c => decide (c / pageSizeCells = q)

/-- As many pages of `g` as the first chunk takes at least, whatever is pinned. -/
def chunkAtLeast (h : PageHeap) (g : Generation) : Nat :=
  max ((h.countPagesInGen .Free - (h.pagesInGen g).countP h.mayPin) * 7 / 8) 1

/-- The free pages suffice to evacuate `g` in one chunk. -/
def OneChunk (h : PageHeap) (g : Generation) : Prop :=
  (h.pagesInGen g).length ≤ h.chunkAtLeast g

instance (h : PageHeap) (g : Generation) : Decidable (h.OneChunk g) :=
  inferInstanceAs (Decidable (_ ≤ _))

/-- The word leads into the run of `head`. -/
def leadsInto (L : HeapLayout) (h : PageHeap) (w : Word) (head : Nat) : Bool :=
  (h.targetCell L w).any fun t => decide (OnRun head (h.descs head).nSpan (t / pageSizeCells))

/-- The head of the run is pinned by the client, or a slot leads into it. -/
def RunNamed (L : HeapLayout) (h : PageHeap) (ext : Nat → Word) (slots : List Slot) (head : Nat) :
    Prop :=
  head * pageSizeCells ∈ h.explicitCells ∨
    ∃ s ∈ slots, h.leadsInto L (s.read h ext) head = true

/-- Every run of several pages in one of the generations `gens` is named. -/
def RunsNamed (L : HeapLayout) (h : PageHeap) (ext : Nat → Word) (slots : List Slot)
    (gens : List Generation) : Prop :=
  ∀ head < h.nPages, (h.descs head).kind = .Large → 2 ≤ (h.descs head).nSpan →
    (h.descs head).generation ∈ gens → h.RunNamed L ext slots head

instance (L : HeapLayout) (h : PageHeap) (ext : Nat → Word) (slots : List Slot) (head : Nat) :
    Decidable (h.RunNamed L ext slots head) :=
  inferInstanceAs (Decidable (_ ∨ _))

instance (L : HeapLayout) (h : PageHeap) (ext : Nat → Word) (slots : List Slot)
    (gens : List Generation) : Decidable (h.RunsNamed L ext slots gens) :=
  inferInstanceAs (Decidable (∀ head < h.nPages, _))

/-- An evacuation of `g` will open no page that its list still holds. -/
def PassPlanned (L : HeapLayout) (h : PageHeap) (ext : Nat → Word) (g : Generation)
    (slots : List Slot) : Prop :=
  h.OneChunk g ∨ h.RunsNamed L ext slots [g]

instance (L : HeapLayout) (h : PageHeap) (ext : Nat → Word) (g : Generation)
    (slots : List Slot) : Decidable (h.PassPlanned L ext g slots) :=
  inferInstanceAs (Decidable (_ ∨ _))

/-- No page of `g` that holds header-bearing objects holds a pin. -/
def NoBoxedPins (h : PageHeap) (g : Generation) : Prop :=
  ∀ q < h.nPages, (h.descs q).generation = g → (h.descs q).kind = .Boxed →
    (h.descs q).hasPins = false ∧ ∀ e ∈ h.explicitCells, e / pageSizeCells ≠ q

instance (h : PageHeap) (g : Generation) : Decidable (h.NoBoxedPins g) :=
  inferInstanceAs (Decidable (∀ q < h.nPages, _))

/-- A minor collection of `h` goes on to promote G1. -/
def willCascade (h : PageHeap) : Bool :=
  h.promotesG0 && decide (g1PromotionThreshold ≤ saturatingSuccU32 h.g0PromotesSinceG1Promote)

/-- The passes of a minor collection are planned.  The second pass of a cascade scans cards through
the snapshot of the first: what the first one promotes must not lie on a page that was in use. -/
def MinorPlanned (L : HeapLayout) (h : PageHeap) (ext : Nat → Word) (roots : List Nat) : Prop :=
  h.PassPlanned L ext .G0 (rootSlots roots) ∧ (h.willCascade = true →
    h.OneChunk .G0 ∧ h.NoBoxedPins .G0 ∧ h.RunsNamed L ext (rootSlots roots) [.G0, .G1])

def MajorPlanned (L : HeapLayout) (h : PageHeap) (ext : Nat → Word) (roots : List Nat) : Prop :=
  h.PassPlanned L ext .G1 (rootSlots roots) ∧ h.RunsNamed L ext (rootSlots roots) [.G0]

def FullPlanned (L : HeapLayout) (h : PageHeap) (ext : Nat → Word) (roots : List Nat) : Prop :=
  h.RunsNamed L ext (rootSlots roots) [.G0, .G1, .Tenured]

def AutoPlanned (L : HeapLayout) (h : PageHeap) (ext : Nat → Word) (threshold : Nat)
    (roots : List Nat) : Prop :=
  if h.shouldCollectMajor threshold = true then h.MajorPlanned L ext roots
  else h.MinorPlanned L ext roots

instance (L : HeapLayout) (h : PageHeap) (ext : Nat → Word) (roots : List Nat) :
    Decidable (h.MinorPlanned L ext roots) :=
  inferInstanceAs (Decidable (_ ∧ (_ → _)))

instance (L : HeapLayout) (h : PageHeap) (ext : Nat → Word) (roots : List Nat) :
    Decidable (h.MajorPlanned L ext roots) :=
  inferInstanceAs (Decidable (_ ∧ _))

instance (L : HeapLayout) (h : PageHeap) (ext : Nat → Word) (roots : List Nat) :
    Decidable (h.FullPlanned L ext roots) :=
  inferInstanceAs (Decidable (h.RunsNamed L ext _ _))

instance (L : HeapLayout) (h : PageHeap) (ext : Nat → Word) (threshold : Nat)
    (roots : List Nat) : Decidable (h.AutoPlanned L ext threshold roots) :=
  inferInstanceAs (Decidable (if h.shouldCollectMajor threshold = true then h.MajorPlanned L ext roots
    else h.MinorPlanned L ext roots))

end PageHeap

/-! ## One chunk -/

section OneChunk

variable {L : HeapLayout} {h hm : PageHeap} {T : ObjTable} {g dest : Generation}
  {marked : Nat → Prop} {v : RootVisitor} {ext : Nat → Word} {slots : List Slot}

theorem SameObjects.pagesInGen (hO : SameObjects h hm) (g : Generation) :
    hm.pagesInGen g = h.pagesInGen g := by
  unfold PageHeap.pagesInGen
  rw [hO.nPages]
  refine List.filter_congr fun q _ => ?_
  rw [(hO.role q).generation]

/-- Step 1 pins cells on no more pages of the generation than the heap before it suggests. -/
theorem Prepared.pinnedPages_le (hM : Prepared L h T g marked hm) (hP : PagesOk h) (hg : g ≠ .Free) :
    (hm.pinnedPages.countP fun q => decide (((hm.resetAllocRegions g).descs q).generation = g)) ≤
      (h.pagesInGen g).countP h.mayPin := by
  rw [List.countP_eq_length_filter, List.countP_eq_length_filter]
  refine (List.Nodup.subperm ((List.nodup_dedup _).filter _) fun q hq => ?_).length_le
  obtain ⟨hq, hgen⟩ := List.mem_filter.1 hq
  have hgenq : (h.descs q).generation = g := by
    rw [← hM.objects.generation q]
    exact of_decide_eq_true hgen
  refine List.mem_filter.2 ⟨mem_pagesInGen.2 ⟨hP.page_lt (by rw [hgenq]; exact hg), hgenq⟩, ?_⟩
  obtain ⟨c, hc, rfl⟩ := List.mem_map.1 (List.mem_dedup.1 hq)
  -- a pinned cell was pinned before, or is pinned by the client, or heads a run
  unfold mayPin
  rw [Bool.or_eq_true, decide_eq_true_eq, List.any_eq_true]
  rcases hM.newPins c hc with hpin | hpin | hlarge
  · exact Or.inr ⟨c, List.mem_append_left _ hpin, decide_eq_true rfl⟩
  · exact Or.inr ⟨c, List.mem_append_right _ hpin, decide_eq_true rfl⟩
  · exact Or.inl hlarge

/-- The first chunk takes what the heap promises. -/
theorem Prepared.chunkAtLeast_le (hM : Prepared L h T g marked hm) (hP : PagesOk h) (hg : g ≠ .Free)
    (ext : Nat → Word) : (h.pagesInGen g).take (h.chunkAtLeast g) <+:
      (hm.chunkStart ext g).chunk (hm.chunkParams g dest v) := by
  have hpins := hM.pinnedPages_le hP hg
  have hfree : (hm.resetAllocRegions g).countPagesInGen .Free = h.countPagesInGen .Free :=
    congrArg List.length (hM.sameReset.pagesInGen .Free)
  rw [← hM.objects.pagesInGen g]
  refine List.prefix_take_iff.2 ⟨List.take_prefix _ _, ?_⟩
  rw [List.length_take]
  refine min_le_min_right _ (max_le_max_right _ (Nat.div_le_div_right
    (Nat.mul_le_mul_right 7 ?_)))
  show _ ≤ (hm.resetAllocRegions g).countPagesInGen .Free - hm.pinnedPages.countP _
  rw [hfree]
  exact Nat.sub_le_sub_left hpins _

/-- Where one chunk suffices, the first one takes every page. -/
theorem Prepared.chunk_all (hM : Prepared L h T g marked hm) (hP : PagesOk h) (hg : g ≠ .Free)
    (hone : h.OneChunk g) (ext : Nat → Word) :
    (hm.chunkStart ext g).chunk (hm.chunkParams g dest v) = hm.pagesInGen g := by
  have hfirst := @Prepared.chunkAtLeast_le L h hm T g dest marked v hM hP hg ext
  rw [List.take_of_length_le hone, ← hM.objects.pagesInGen g] at hfirst
  exact (hfirst.eq_of_length_le (List.length_take_le' _ _)).symm

theorem step_rest {p : ChunkParams} {s s' : ChunkState} (hstep : s.step L p = .ok s') :
    s'.rest = s.rest.drop (s.heap.chunkSize p.fromGen p.pinnedPages s.rest.length) := by
  obtain ⟨copied, -, hrest⟩ := bind_eq_ok hstep
  obtain ⟨r, -, hrest⟩ := bind_eq_ok hrest
  obtain ⟨reclaimed, -, hok⟩ := bind_eq_ok hrest
  cases hok
  rfl

/-- A chunk that takes every page is the last one. -/
theorem step_rest_nil {p : ChunkParams} {s s' : ChunkState} (hall : s.chunk p = s.rest)
    (hstep : s.step L p = .ok s') : s'.rest = [] := by
  rw [step_rest hstep, List.drop_eq_nil_iff]
  have hlen := congrArg List.length hall
  unfold ChunkState.chunk at hlen
  rw [List.length_take] at hlen
  omega

end OneChunk

/-! ## Planned passes -/

/-- For a word that leads into a run the evacuator marks its head. -/
theorem evacTarget_run {L : HeapLayout} {h : PageHeap} (hP : PagesOk h) {head t : Nat}
    (hk : (h.descs head).kind = .Large) (hspan : 1 ≤ (h.descs head).nSpan) {w : Word}
    (ht : h.targetCell L w = some t) (hon : OnRun head (h.descs head).nSpan (t / pageSizeCells)) :
    evacTarget L h (h.descs head).generation w = some (head * pageSizeCells) := by
  obtain ⟨addr, kind, hp, hq, rfl⟩ := targetCell_some ht
  obtain ⟨hkq, hgq⟩ := hP.run_page hk hon
  have hhead := hP.largeHeadPage hk hspan (h.cellOf addr / pageSizeCells - head) (by
    unfold OnRun at hon
    omega)
  rw [Nat.add_sub_cancel' hon.1] at hhead
  unfold evacTarget
  simp only [hp, hq]
  rw [if_neg (not_not.2 hgq), if_pos hkq, hhead]

section Planned

variable {L : HeapLayout} {h hm : PageHeap} {T : ObjTable} {g dest : Generation}
  {ext : Nat → Word} {slots : List Slot} {filters : List (Nat → PageDesc)}

/-- A run that is named is pinned when the roots have been marked. -/
theorem Prepared.hasPins_of_named (hP : PagesOk h)
    (hM : Prepared L h T g (PassMarked L h T ext g slots filters) hm) {head : Nat}
    (hk : (h.descs head).kind = .Large) (hspan : 1 ≤ (h.descs head).nSpan)
    (hgen : (h.descs head).generation = g)
    (hnamed : h.RunNamed L ext slots head) : (hm.descs head).hasPins = true := by
  have hpage := (RunPlaced.start_page head).1
  rcases hnamed with he | ⟨s, hs, ht⟩
  · have hbits := PageDesc.hasPins_of_isPinned (hM.explicit _ he).2.2
    rwa [hpage] at hbits
  · obtain ⟨t, htarget, hon⟩ := (Option.any_eq_true _ _).1 ht
    have hmark := evacTarget_run hP hk hspan htarget (of_decide_eq_true hon)
    rw [hgen] at hmark
    have hkind : h.kindAt (head * pageSizeCells) = .Large := by
      unfold kindAt
      rw [hpage]
      exact hk
    have hbits := (hM.largeMarks _ ⟨s, List.mem_append_left _ hs, _, hmark, .refl⟩ hkind).2
    rwa [hpage] at hbits

/-- A planned pass opens no page that its list still holds. -/
theorem noReuse_of_plan (hP : PassOk L h T) (hg : g ≠ .Free) (hd : dest ≠ .Free)
    (hslots : ∀ s ∈ slots, SlotSafe h T g s)
    (hfilters : ∀ hm, SameObjects h hm → ∀ D ∈ filters, FilterSafe hm T g D)
    (hplan : h.PassPlanned L ext g slots) :
    PassMeets L h ext g dest (passVisitor L slots filters) (NoReuse L) := by
  intro hm ext' hmark
  obtain ⟨hm', hmark', hM⟩ := markAndPin_prepared dest hP hg
    (@shows_mark L h T g slots filters ext dest hP.shape hg hslots)
  rw [hmark] at hmark'
  cases hmark'
  rcases hplan with hone | hnamed
  · -- the first chunk takes all pages, each of them in use
    generalize (hm.pagesInGen g).length = fuel
    cases fuel with
    | zero => trivial
    | succ fuel =>
        intro _
        refine ⟨undisturbed_of_busy L _ _ _ _ fun q hq => ?_, fun s' hstep => ?_⟩
        · have hgen : (hm.descs q).generation = g := (mem_pagesInGen.1 hq).2
          show (hm.descs q).generation ≠ .Free
          rw [hgen]
          exact hg
        · have hrest := step_rest_nil (hM.chunk_all hP.shape.pages hg hone ext) hstep
          cases fuel with
          | zero => trivial
          | succ fuel => exact fun hne => absurd hrest hne
  · have hX := hP.loopStart (passVisitor L slots filters) hM hg hd
    have hO := hM.sameReset
    have hvisit : VisitOk (hm.resetAllocRegions g) T g slots filters :=
      ⟨fun s hs => slotSafe_congr hO (hslots s hs), fun D hD => hfilters _ hO D hD⟩
    have hserves := @serves_passVisitor L
      (hm.chunkParams g dest (passVisitor L slots filters)) _ T slots filters hX.shape rfl hvisit
    refine Evacuating.meets hX hserves (fun s T' F hE => hE.noReuse_of_held hX ?_) _ _ _ _
      (Evacuating.start hX ext EvacResult.zero)
    intro head hgen hk hspan
    rw [hO.generation] at hgen
    rw [hO.kind] at hk
    rw [hO.nSpan] at hspan
    have hlt := hP.shape.pages.page_lt (show (h.descs head).generation ≠ .Free from hgen ▸ hg)
    have hrun := hnamed head hlt hk hspan (List.mem_singleton.2 hgen)
    exact hM.hasPins_of_named hP.shape.pages hk (by omega) hgen hrun

/-- A planned pass is safe where its filters are. -/
theorem passSafe_of_plan (hP : PassOk L h T) (hg : g ≠ .Free) (hd : dest ≠ .Free)
    (hslots : ∀ s ∈ slots, SlotSafe h T g s)
    (hfilters : ∀ hm, SameObjects h hm → ∀ D ∈ filters, FilterSafe hm T g D)
    (hplan : h.PassPlanned L ext g slots) : PassSafe L h ext g dest slots filters := by
  refine ⟨noReuse_of_plan hP hg hd hslots hfilters hplan, fun hm ext' hmark D hD => ?_⟩
  obtain ⟨hm', hmark', hM⟩ := markAndPin_prepared dest hP hg
    (@shows_mark L h T g slots filters ext dest hP.shape hg hslots)
  rw [hmark] at hmark'
  cases hmark'
  rw [(hM.objects.shape hP.shape).table_eq]
  exact hfilters hm hM.objects D hD

theorem freshSafe_of_plan {roots : List Nat} (hP : PassOk L h T) (hg : g ≠ .Free) (hd : dest ≠ .Free)
    (hplan : h.PassPlanned L ext g (rootSlots roots)) : FreshSafe L h ext g dest roots := by
  refine @noReuse_of_plan L h T g dest ext (rootSlots roots) [h.descs] hP hg hd
    (slotSafe_rootSlots h T g roots) (fun hm hO D hD => ?_) hplan
  rw [List.mem_singleton] at hD
  subst hD
  exact filterSafe_fresh hO.role T g

end Planned

/-! ## After a planned pass -/

section After

variable {L : HeapLayout} {h hm : PageHeap} {T T' : ObjTable} {g dest : Generation}
  {ext : Nat → Word} {slots : List Slot} {filters : List (Nat → PageDesc)} {v : RootVisitor}
  {marked : Nat → Prop} {s : ChunkState} {F : Forwarding}
  {r : EvacResult × PageHeap × (Nat → Word)}

/-- A word that leads into a large run leads there after the pass too. -/
theorem PassOk.evacuates_ext (hP : PassOk L h T) (hg : g ≠ .Free) (hd : dest ≠ .Free)
    (hslots : ∀ s ∈ slots, SlotSafe h T g s) (hsafe : PassSafe L h ext g dest slots filters) :
    Outcome GcPanic.IsOom (h.evacuateWithRoots L ext g dest (passVisitor L slots filters)) fun r =>
      ∀ a t, h.targetCell L (ext a) = some t → h.kindAt t = .Large → r.2.2 a = ext a := by
  refine (hP.evacuate (Q := fun _ s _ _ => ∀ a t, h.targetCell L (ext a) = some t →
    h.kindAt t = .Large → s.ext a = ext a) hg hd hslots hsafe (fun _ _ _ _ _ _ _ => rfl) ?_).mono ?_
  · intro hm s T₁ F s' T₂ K hM hE hR hq a t ht hk
    have hX := hP.loopStart (passVisitor L slots filters) hM hg hd
    have hold := hq a t ht hk
    rcases hR.ext a with hnew | ⟨hsame, -⟩
    · rw [hnew, hold]
      refine redirect_of_none ?_
      rw [targetCell_congr (hE.control.base.trans hM.objects.base)
        (hE.control.nPages.trans hM.objects.nPages), ht, Option.bind_some]
      -- only small objects move
      rw [← Option.not_isSome_iff_eq_none]
      intro hmoved
      obtain ⟨hto, hin⟩ := (hR.dom t).1 hmoved
      have hsmall := ((hE.toCopy_iff hX (Evacuating.chunk_rest hin)).1 hto).small
      rw [hM.sameReset.kindAt] at hsmall
      exact hsmall hk
    · exact hsame.trans hold
  · rintro r ⟨hm, s, T', F, hstep, hq⟩ a t ht hk
    rw [hstep.ended.ext]
    exact hq a t ht hk

/-- The runs that are left are named as before. -/
theorem PassStep.runsNamed (hP : PassStep L h T g dest v marked hm s T' F r) (hd : dest ≠ .Free)
    (hext : ∀ a t, h.targetCell L (ext a) = some t → h.kindAt t = .Large → r.2.2 a = ext a)
    {roots : List Nat} {gens : List Generation}
    (hnamed : h.RunsNamed L ext (rootSlots roots) gens) (gens' : List Generation)
    (hgens : ∀ g' ∈ gens', (g' = dest → g ∈ gens) ∧ (g' ≠ g → g' ∈ gens)) :
    r.2.1.RunsNamed L r.2.2 (rootSlots roots) gens' := by
  intro head hlt hk hspan hgen
  have hC := hP.carried hd
  obtain ⟨hk₀, hsame⟩ := hC.large head hk
  rw [hsame] at hspan
  have hafter := hP.run_generation hk (by omega)
  have hin : (h.descs head).generation ∈ gens := by
    obtain ⟨hjoin, hstay⟩ := hgens _ hgen
    by_cases hfrom : (h.descs head).generation = g
    · rw [hfrom]
      rw [if_pos hfrom] at hafter
      exact hjoin hafter
    · rw [if_neg hfrom] at hafter
      rw [← hafter]
      exact hstay (hafter ▸ hfrom)
  rcases hnamed head (hC.nPages ▸ hlt) hk₀ hspan hin with he | ⟨slot, hs, ht⟩
  · left
    rw [hC.explicitCells]
    exact he
  · right
    obtain ⟨a, ha, rfl⟩ := List.mem_map.1 hs
    refine ⟨.ext a, hs, ?_⟩
    obtain ⟨t, htarget, hon⟩ :=
      (Option.any_eq_true _ _).1 (show h.leadsInto L (ext a) head = true from ht)
    have hkt : h.kindAt t = .Large := (hP.shape.pages.run_page hk₀ (of_decide_eq_true hon)).1
    refine (Option.any_eq_true _ _).2 ⟨t, ?_, ?_⟩
    · show r.2.1.targetCell L (r.2.2 a) = some t
      rw [hext a t htarget hkt, targetCell_congr hC.base hC.nPages]
      exact htarget
    · rw [hsame]
      exact hon

/-- A state of the loop of a pass in one chunk: everything is still to be done, or everything is
done and no page of the generation holds header-bearing objects any more. -/
def AtOnce (h : PageHeap) (g : Generation) (p : ChunkParams) (s : ChunkState) : Prop :=
  (s.chunk p = s.rest ∧ (∀ q, (h.descs q).SameRole (s.heap.descs q)) ∧
    ∀ q, (h.descs q).generation = g → q ∈ s.rest ∧
      ((h.descs q).kind = .Boxed → (s.heap.descs q).hasPins = false)) ∨
  (s.rest = [] ∧ ∀ q, (h.descs q).generation = g →
    (s.heap.descs q).generation = .Free ∨ (s.heap.descs q).kind ≠ .Boxed)

/-- The one chunk releases every page of header-bearing objects. -/
theorem atOnce_step {p : ChunkParams} {h₀ : PageHeap} {T₀ T₁ T₂ : ObjTable} {s s' : ChunkState}
    {F K : Forwarding} {must : Slot → Prop} (hg : g ≠ .Free) (hE : Evacuating L p h₀ T₀ s T₁ F)
    (hR : ChunkResult L p must s T₁ s' T₂ K) (hA : AtOnce h g p s) : AtOnce h g p s' := by
  right
  have hpages := hE.shape.pages
  rcases hA with ⟨hall, hrole, hlisted⟩ | ⟨hrest, hgone⟩
  · refine ⟨?_, fun q hgen => ?_⟩
    · rw [hR.rest, List.drop_eq_nil_iff]
      have hlen := congrArg List.length hall
      unfold ChunkState.chunk at hlen
      rw [List.length_take] at hlen
      omega
    · have hgenq : (s.heap.descs q).generation = g := (hrole q).generation.trans hgen
      by_cases hk : (s.heap.descs q).kind = .Large
      · -- the run is flipped or released with its head
        obtain ⟨head, hkh, hspan, hle, hlt⟩ := hpages.exists_head hk
        have hhead : (h.descs head).generation = g := by
          rw [← (hrole head).generation, ← (hpages.run_page hkh ⟨hle, hlt⟩).2, hgenq]
        have hfate := hR.run head q hkh hspan hle hlt
        rw [if_pos (hall ▸ (hlisted head hhead).1)] at hfate
        cases hpins : (s.heap.descs head).hasPins with
        | true =>
            right
            rw [hfate.kind, hpins]
            unfold PageDesc.reclaimed
            rw [if_pos rfl]
            show (s.heap.descs q).kind ≠ .Boxed
            rw [hk]
            decide
        | false =>
            left
            rw [hfate.generation, hpins]
            rfl
      · have hfate := hR.small q (hgenq ▸ hg) hk
        rw [if_pos (hall ▸ (hlisted q hgen).1)] at hfate
        cases hpins : (s.heap.descs q).hasPins with
        | true =>
            right
            rw [hfate.kind, hpins]
            intro hboxed
            have hnone := (hlisted q hgen).2 ((hrole q).kind.symm.trans hboxed)
            rw [hpins] at hnone
            cases hnone
        | false =>
            left
            rw [hfate.generation, hpins]
            rfl
  · have hchunk : s.chunk p = [] := by
      unfold ChunkState.chunk
      rw [hrest, List.take_nil]
    refine ⟨by rw [hR.rest, hrest, List.drop_nil], fun q hgen => ?_⟩
    by_cases hfree : (s.heap.descs q).generation = .Free
    · left
      rcases hR.free q hfree with hsame | ⟨-, -, -, -, hopen⟩
      · rw [hsame]
        exact hfree
      · -- nothing is left to copy
        exfalso
        obtain ⟨o, ho⟩ := Option.isSome_iff_exists.1 hopen
        obtain ⟨c, hT, hK | ⟨-, heq⟩⟩ := hR.origin _ o ho
        · have hin := ((hR.dom c).1 (Option.isSome_of_eq_some hK)).2
          rw [hchunk] at hin
          cases hin
        · rw [← heq] at hT
          refine absurd ?_ (hE.shape.live hT)
          unfold genAt
          rw [(RunPlaced.start_page q).1]
          exact hfree
    · right
      have hkind := (hgone q hgen).resolve_left hfree
      by_cases hk : (s.heap.descs q).kind = .Large
      · obtain ⟨head, hkh, hspan, hle, hlt⟩ := hpages.exists_head hk
        have hfate := hR.run head q hkh hspan hle hlt
        rw [hchunk, if_neg List.not_mem_nil] at hfate
        rwa [hfate.kind]
      · have hfate := hR.small q hfree hk
        rw [hchunk, if_neg List.not_mem_nil] at hfate
        rwa [hfate.kind]

/-- After a pass in one chunk that met no pinned page of header-bearing objects, no page that was
its own holds such objects. -/
theorem PassOk.evacuates_atOnce (hP : PassOk L h T) (hg : g ≠ .Free) (hd : dest ≠ .Free)
    (hslots : ∀ s ∈ slots, SlotSafe h T g s) (hsafe : PassSafe L h ext g dest slots filters)
    (hone : h.OneChunk g) (hpins : h.NoBoxedPins g) :
    Outcome GcPanic.IsOom (h.evacuateWithRoots L ext g dest (passVisitor L slots filters)) fun r =>
      ∀ q, (h.descs q).generation = g →
        (r.2.1.descs q).generation = .Free ∨ (r.2.1.descs q).kind ≠ .Boxed := by
  refine (hP.evacuate (Q := fun p s _ _ => AtOnce h g p s) hg hd hslots hsafe ?_
    fun _ _ _ _ _ _ _ _ hE hR hA => atOnce_step hg hE hR hA).mono ?_
  · intro hm _ hM
    left
    refine ⟨hM.chunk_all hP.shape.pages hg hone ext, hM.objects.role, fun q hgen => ?_⟩
    have hlt := hP.shape.pages.page_lt (show (h.descs q).generation ≠ .Free from hgen ▸ hg)
    refine ⟨?_, fun hk => ?_⟩
    · show q ∈ hm.pagesInGen g
      rw [hM.objects.pagesInGen]
      exact mem_pagesInGen.2 ⟨hlt, hgen⟩
    · -- step 1 pins nothing on the page either
      show (hm.descs q).hasPins = false
      obtain ⟨hnone, hexplicit⟩ := hpins q hlt hgen hk
      rw [Bool.eq_false_iff]
      intro hnew
      rcases hM.newBits q hnew with hold | ⟨e, he, hpage⟩ | hlarge
      · rw [hnone] at hold
        cases hold
      · exact hexplicit e he hpage
      · rw [hk] at hlarge
        cases hlarge
  · rintro r ⟨hm, s, T', F, hstep, hA⟩ q hgen
    rw [hstep.descs]
    rcases hA with ⟨-, -, hlisted⟩ | ⟨-, hgone⟩
    · exact absurd (hlisted q hgen).1 (hstep.done q)
    · exact hgone q hgen

/-- A page of a generation the pass does not touch stays in it. -/
theorem PassStep.other_generation (hP : PassStep L h T g dest v marked hm s T' F r) {q : Nat}
    (hlive : (h.descs q).generation ≠ .Free) (hgen : (h.descs q).generation ≠ g) :
    (r.2.1.descs q).generation = (h.descs q).generation := by
  have hO := hP.prepared.sameReset
  rw [← hO.generation q] at hlive hgen ⊢
  rw [hP.descs]
  exact (hP.evacuated.other_alike hP.start hlive hgen).generation

end After

/-! ## Planned cycles -/

section Cycles

variable {L : HeapLayout} {h : PageHeap} {T : ObjTable} {ext : Nat → Word} {roots : List Nat}

/-- Whether a minor collection cascades is decided before it starts. -/
theorem willCascade_of_cascades {g dest : Generation} {v : RootVisitor} (hv : v.KeepsPool)
    {r : EvacResult × PageHeap × (Nat → Word)}
    (hr : h.minorStart.evacuateWithRoots L ext g dest v = .ok r)
    (hcascade : h.cascades r.2.1 = true) : h.willCascade = true := by
  have hcounters := ((evacuateWithRoots_steps h.minorStart ext g dest hv).value hr).counters
  have hsame : r.2.1.g0PromotesSinceG1Promote = h.g0PromotesSinceG1Promote := hcounters.2
  unfold cascades at hcascade
  rwa [hsame] at hcascade

theorem minorSafe_of_plan (hP : PassOk L h T) (hplan : h.MinorPlanned L ext roots) :
    MinorSafe L h ext roots := by
  have hP₀ : PassOk L h.minorStart T := hP.counted _ _
  have hfirst : FreshSafe L h.minorStart ext .G0 h.minorDest roots :=
    freshSafe_of_plan hP₀ (by decide) (minorDest_live h) hplan.1
  refine ⟨hfirst, fun r₁ hr₁ hcascade => ?_⟩
  have hwill := willCascade_of_cascades
    (keepsPool_withCardScan (keepsPool_slotsVisitor L (rootSlots roots)) h.descs) hr₁ hcascade
  obtain ⟨hone, hpins, hnamed⟩ := hplan.2 hwill
  have hdest : h.minorDest = .G1 := by
    unfold willCascade at hwill
    unfold minorDest
    rw [if_pos (Bool.and_eq_true_iff.1 hwill).1]
  rw [hdest] at hfirst hr₁
  have hslots := slotSafe_rootSlots h.minorStart T .G0 roots
  have hsafe := hfirst.passSafe hP₀ (by decide)
  obtain ⟨hm, s, T₁, F, hstep⟩ :=
    (hP₀.evacuates_fresh (by decide) (by decide) hfirst).value hr₁
  have hext := (hP₀.evacuates_ext (by decide) (by decide) hslots hsafe).value hr₁
  have hgone := (hP₀.evacuates_atOnce (by decide) (by decide) hslots hsafe hone hpins).value hr₁
  have hruns := hstep.runsNamed (by decide) hext hnamed [.G1] (by decide)
  have hP₁ : PassOk L r₁.2.1.cascadeStart T₁ := hstep.next.counted _ _
  refine passSafe_of_plan hP₁ (by decide) (by decide) (slotSafe_rootSlots _ _ _ _) ?_ (Or.inr hruns)
  intro hm₁ hO D hD c hto hk
  rw [List.mem_singleton] at hD
  subst hD
  -- the page of a promoted object was free, or in G1
  have hgen₁ : (r₁.2.1.descs (c / pageSizeCells)).generation = .G1 :=
    (hO.generation _).symm.trans hto.generation
  have hkind₁ : (r₁.2.1.descs (c / pageSizeCells)).kind = .Boxed := (hO.kind _).symm.trans hk
  cases hgen : (h.descs (c / pageSizeCells)).generation with
  | Free => exact Or.inl rfl
  | G1 => exact Or.inr rfl
  | G0 =>
      exfalso
      rcases hgone (c / pageSizeCells) hgen with hfree | hboxed
      · rw [hgen₁] at hfree
        cases hfree
      · exact hboxed hkind₁
  | Tenured =>
      exfalso
      have hsame := hstep.other_generation (q := c / pageSizeCells)
        (show (h.descs _).generation ≠ _ by rw [hgen]; decide)
        (show (h.descs _).generation ≠ _ by rw [hgen]; decide)
      rw [hgen₁] at hsame
      exact absurd (hsame.trans hgen) (by decide)

theorem majorSafe_of_plan (hP : PassOk L h T) (hplan : h.MajorPlanned L ext roots) :
    MajorSafe L h ext roots := by
  have hfirst : FreshSafe L h ext .G1 .Tenured roots :=
    freshSafe_of_plan hP (by decide) (by decide) hplan.1
  refine ⟨hfirst, fun r₁ hr₁ => ?_⟩
  obtain ⟨hm, s, T₁, F, hstep⟩ := (hP.evacuates_fresh (by decide) (by decide) hfirst).value hr₁
  have hext := (hP.evacuates_ext (by decide) (by decide) (slotSafe_rootSlots h T .G1 roots)
    (hfirst.passSafe hP (by decide))).value hr₁
  have hruns := hstep.runsNamed (by decide) hext hplan.2 [.G0] (by decide)
  exact freshSafe_of_plan hstep.next (by decide) (by decide) (Or.inr hruns)

theorem RunsNamed.sub {gens gens' : List Generation} {slots : List Slot}
    (hnamed : h.RunsNamed L ext slots gens) (hsub : ∀ g ∈ gens', g ∈ gens) :
    h.RunsNamed L ext slots gens' :=
  fun head hlt hk hspan hgen => hnamed head hlt hk hspan (hsub _ hgen)

theorem fullSafe_of_plan (hP : PassOk L h T) (hplan : h.FullPlanned L ext roots) :
    FullSafe L h ext roots := by
  have hfirst : FreshSafe L h ext .G0 .G1 roots :=
    freshSafe_of_plan hP (by decide) (by decide) (Or.inr (RunsNamed.sub hplan (by decide)))
  refine ⟨hfirst, fun r₁ hr₁ => ?_⟩
  obtain ⟨hm, s, T₁, F, hstep⟩ := (hP.evacuates_fresh (by decide) (by decide) hfirst).value hr₁
  have hext := (hP.evacuates_ext (by decide) (by decide) (slotSafe_rootSlots h T .G0 roots)
    (hfirst.passSafe hP (by decide))).value hr₁
  have hruns := hstep.runsNamed (by decide) hext hplan [.G0, .G1, .Tenured] (by decide)
  have hP₁ := hstep.next
  have hsecond : FreshSafe L r₁.2.1 r₁.2.2 .G1 .Tenured roots :=
    freshSafe_of_plan hP₁ (by decide) (by decide) (Or.inr (RunsNamed.sub hruns (by decide)))
  refine ⟨hsecond, fun r₂ hr₂ => ?_⟩
  obtain ⟨hm₂, s₂, T₂, G, hstep₂⟩ :=
    (hP₁.evacuates_fresh (by decide) (by decide) hsecond).value hr₂
  have hext₂ := (hP₁.evacuates_ext (by decide) (by decide) (slotSafe_rootSlots _ T₁ .G1 roots)
    (hsecond.passSafe hP₁ (by decide))).value hr₂
  have hruns₂ := hstep₂.runsNamed (by decide) hext₂ hruns [.Tenured] (by decide)
  exact @noReuse_of_plan L r₂.2.1 T₂ .Tenured .Tenured r₂.2.2 (rootSlots roots) [] hstep₂.next
    (by decide) (by decide) (slotSafe_rootSlots _ T₂ .Tenured roots)
    (fun _ _ D hD => absurd hD List.not_mem_nil) (Or.inr hruns₂)

theorem autoSafe_of_plan {threshold : Nat} (hP : PassOk L h T)
    (hplan : h.AutoPlanned L ext threshold roots) : AutoSafe L h ext threshold roots := by
  unfold AutoPlanned at hplan
  refine ⟨fun hmajor => ?_, fun hminor => ?_⟩
  · rw [if_pos hmajor] at hplan
    exact majorSafe_of_plan hP hplan
  · rw [if_neg (by rw [hminor]; decide)] at hplan
    exact minorSafe_of_plan hP hplan

end Cycles

end NewGc
