import NewGc.FreeList
import NewGc.SafeRuns

/-!
# Promotion — what an evacuation does to the object graph

An evacuation moves the objects of its generation that the presented slots and the pinned objects
lead to, and redirects the pointers among them.  Into another generation it does so only as long as
no object waits for a later chunk while an earlier one moves what it points at: a waiting page is
not rewritten.
-/

namespace NewGc

open Library PageHeap

/-! ## Live objects -/

section Live

variable (L : HeapLayout) (h : PageHeap) (ext : Nat → Word) (g : Generation) (slots : List Slot)

/-- The objects of `g` that the slots and the pinned objects of `g` lead to, through objects of
`g`. -/
inductive LiveIn : Nat → Prop
  | root {s : Slot} {x : Nat} (hs : s ∈ slots) (hx : h.pointee L (s.read h ext) = some x)
      (hgen : h.genAt x = g) : LiveIn x
  | pinned {x : Nat} (hpin : x ∈ h.pinnedCells ∨ x ∈ h.explicitCells) (hgen : h.genAt x = g) :
      LiveIn x
  | step {x y : Nat} (hx : LiveIn x) (hedge : Edge L h x y) (hgen : h.genAt y = g) : LiveIn y

/-- Every pointer into `g` from an object of another generation is among the slots. -/
def SlotsCover : Prop :=
  ∀ x o i t, h.objAt L x = some o → h.genAt x ≠ g → o.IsPtr i →
    h.pointee L (h.mem (x + i)) = some t → h.genAt t = g → Slot.cell (x + i) ∈ slots

end Live

section Targets

variable {L : HeapLayout} {h : PageHeap} {T : ObjTable} {ext : Nat → Word} {g : Generation}
  {slots : List Slot}

theorem pointee_iff {w : Word} {y : Nat} : h.pointee L w = some y ↔ ∃ addr o,
    (L.classify w).pointer? = some (addr, o.pointerKind) ∧ (h.pageOf addr).isSome = true ∧
      h.cellOf addr = y ∧ h.objAt L y = some o := by
  unfold pointee
  constructor
  · intro hw
    cases hp : (L.classify w).pointer? with
    | none => simp [hp] at hw
    | some r =>
        obtain ⟨addr, kind⟩ := r
        simp only [hp] at hw
        split at hw
        · rename_i hin
          cases hobj : h.objAt L (h.cellOf addr) with
          | none => simp [hobj] at hw
          | some o =>
              simp only [hobj] at hw
              split at hw
              · rename_i hkind
                cases hw
                exact ⟨addr, o, by rw [hkind], hin, rfl, hobj⟩
              · cases hw
        · cases hw
  · rintro ⟨addr, o, hp, hin, rfl, hobj⟩
    simp only [hp, hobj]
    rw [if_pos hin]
    exact if_pos trivial

theorem targetCell_of_pointee {w : Word} {y : Nat} (hw : h.pointee L w = some y) :
    h.targetCell L w = some y := by
  obtain ⟨addr, o, hp, hin, hcell, -⟩ := pointee_iff.1 hw
  unfold targetCell
  simp only [hp]
  rw [if_pos hin, hcell]

/-- What the plain marker marks for a word is the object the word points at. -/
theorem pointee_of_markTarget (hS : Shape L h T Forwarding.empty) (hg : g ≠ .Free) {w : Word}
    {y : Nat} (hw : PageMarker.markTarget L h g w = some y) : h.pointee L w = some y := by
  obtain ⟨htarget, hgen, -, hstart⟩ := markTarget_cell hw
  obtain ⟨addr, kind, hp, hq, hcell⟩ := targetCell_some htarget
  obtain ⟨o, ho⟩ := (hS.isStartAt_iff (by rw [hgen]; exact hg)).1 hstart
  have hcons := hS.isConsStartAt ho
  have hkind : o.pointerKind = kind := by
    unfold PageMarker.markTarget at hw
    rw [hp] at hw
    simp only [hq, hcell] at hw
    unfold ObjInfo.pointerKind
    split at hw
    · cases hw
    · split at hw
      · cases hw
      · split at hw
        · cases hw
        · rw [hcons] at hw
          cases kind <;> cases hc : o.isCons <;> simp_all
  exact pointee_iff.2 ⟨addr, o, by rw [hp, hkind], by rw [hq]; rfl, hcell,
    by rw [hS.objAt_eq]; exact ho⟩

/-- In a generation without large runs both markers mark the same. -/
theorem markTarget_of_evacTarget (hsmall : ∀ q, (h.descs q).generation = g →
    (h.descs q).kind ≠ .Large) {w : Word} {y : Nat} (hw : evacTarget L h g w = some y) :
    PageMarker.markTarget L h g w = some y := by
  unfold evacTarget at hw
  cases hp : (L.classify w).pointer? with
  | none => simp [hp] at hw
  | some r =>
      obtain ⟨addr, kind⟩ := r
      simp only [hp] at hw
      cases hq : h.pageOf addr with
      | none => simp [hq] at hw
      | some q =>
          simp only [hq] at hw
          split at hw
          · cases hw
          · rename_i hgen
            rwa [if_neg (hsmall q (not_not.1 hgen))] at hw

theorem LiveIn.genAt {c : Nat} (hc : LiveIn L h ext g slots c) : h.genAt c = g := by
  cases hc with
  | root _ _ hgen => exact hgen
  | pinned _ hgen => exact hgen
  | step _ _ hgen => exact hgen

theorem LiveIn.of_reach (hS : Shape L h T Forwarding.empty) (hg : g ≠ .Free)
    {target : Word → Option Nat} (htarget : ∀ w y, target w = some y →
      PageMarker.markTarget L h g w = some y) {x c : Nat} (hx : LiveIn L h ext g slots x)
    (hr : MarkReach h T g target x c) : LiveIn L h ext g slots c := by
  induction hr with
  | refl => exact hx
  | tail _ hstep ih =>
      obtain ⟨o, i, hT, -, hptr, ht⟩ := mem_markSucc.1 hstep
      have hmark := htarget _ _ ht
      exact .step ih ⟨o, i, by rw [hS.objAt_eq]; exact hT, hptr, pointee_of_markTarget hS hg hmark⟩
        (markTarget_cell hmark).2.1

/-- The marks are exactly the live objects. -/
theorem marked_iff_liveIn {hm : PageHeap} (hI : Coherent L h T) (hg : g ≠ .Free)
    (hsmall : ∀ q, (h.descs q).generation = g → (h.descs q).kind ≠ .Large)
    (hcover : SlotsCover L h g slots)
    (hM : Prepared L h T g (MarkedFrom L h T ext g slots) hm) (c : Nat) :
    (hm.isMarked c = true ∧ h.genAt c = g) ↔ LiveIn L h ext g slots c := by
  have hS := hI.shape
  have hobj : ∀ x o, T x = some o → h.objAt L x = some o := fun x o hT => by
    rw [hS.objAt_eq]
    exact hT
  constructor
  · rintro ⟨hmark, hgen⟩
    rcases hM.sound c hmark hgen (hsmall _ hgen) with ⟨s, hs, x, hx, hr⟩ | ⟨x, hroot, hr⟩
    · -- marked from a slot
      have htarget := markTarget_of_evacTarget hsmall hx
      exact .of_reach hS hg (fun _ _ => markTarget_of_evacTarget hsmall)
        (.root hs (pointee_of_markTarget hS hg htarget) (markTarget_cell htarget).2.1) hr
    · refine .of_reach hS hg (fun _ _ h => h) ?_ hr
      rcases hroot with ⟨hpin, -, hxgen⟩ | ⟨d, o, i, -, hT, hdgen, hptr, ht⟩
      · -- a pinned object of the generation
        rw [hM.objects.genAt] at hxgen
        rcases hM.newPins x hpin with hold | hold | hlarge
        · exact .pinned (Or.inl hold) hxgen
        · exact .pinned (Or.inr hold) hxgen
        · exact absurd hlarge (hsmall _ hxgen)
      · -- a pinned object of another generation: its cell is among the slots
        rw [hM.objects.genAt] at hdgen
        rw [markTarget_congr hM.objects, hM.objects.mem] at ht
        have hp := pointee_of_markTarget hS hg ht
        have hxgen := (markTarget_cell ht).2.1
        exact .root (s := .cell (d + i)) (hcover d o i x (hobj d o hT) hdgen hptr hp hxgen) hp hxgen
  · intro hc
    refine ⟨?_, hc.genAt⟩
    induction hc with
    | root hs hx hgen =>
        exact hM.marks _ ⟨_, hs, _, evacTarget_of_markTarget hS hg (markTarget_of_pointee hS hx hgen),
          .refl⟩
    | @pinned x hpin hgen =>
        have hobjx : (T x).isSome = true ∧ x ∈ hm.pinnedCells := by
          rcases hpin with hp | hp
          · exact ⟨(hI.pins x hp).1, hM.pinned x hp⟩
          · exact ⟨hI.explicit x hp, (hM.explicit x hp).2.1⟩
        exact hM.roots x (Or.inl ⟨hobjx.2, hobjx.1, by rw [hM.objects.genAt]; exact hgen⟩)
    | @step x y hx hedge hgen ih =>
        obtain ⟨o, i, ho, hptr, hp⟩ := hedge
        rw [hS.objAt_eq] at ho
        refine hM.closed x y ih (mem_markSucc.2 ⟨o, i, ho, ?_, hptr, ?_⟩)
        · rw [hM.objects.genAt]
          exact hx.genAt
        · rw [hM.objects.mem]
          exact markTarget_of_pointee hS hp hgen

end Targets

/-! ## Pointers that wait -/

/-- The pages of `g` that the first chunk takes in any case. -/
def PageHeap.firstPages (h : PageHeap) (g : Generation) : List Nat :=
  (h.pagesInGen g).take (h.chunkAtLeast g)

/-- No live object points at an object on an earlier page, pages of the first chunk apart. -/
def PointsForward (L : HeapLayout) (h : PageHeap) (ext : Nat → Word) (g : Generation)
    (slots : List Slot) : Prop :=
  ∀ c o i t, LiveIn L h ext g slots c → h.objAt L c = some o → o.IsPtr i →
    h.pointee L (h.mem (c + i)) = some t → h.genAt t = g →
      c / pageSizeCells ≤ t / pageSizeCells ∨ c / pageSizeCells ∈ h.firstPages g

/-- One chunk takes every page. -/
theorem pointsForward_of_oneChunk {L : HeapLayout} {h : PageHeap} {T : ObjTable}
    (hS : Shape L h T Forwarding.empty) {g : Generation} (hone : h.OneChunk g) (ext : Nat → Word)
    (slots : List Slot) : PointsForward L h ext g slots := by
  intro c o i t hc ho _ _ _
  right
  unfold firstPages
  rw [List.take_of_length_le hone]
  rw [hS.objAt_eq] at ho
  exact mem_pagesInGen.2 ⟨hS.pages.page_lt (hS.live ho), hc.genAt⟩

/-- No live object that waits for a later chunk points at an object of this chunk. -/
def NoneWaits (L : HeapLayout) (p : ChunkParams) (h₀ : PageHeap) (T₀ : ObjTable)
    (live : Nat → Prop) (s : ChunkState) : Prop :=
  ∀ c o i t, live c → T₀ c = some o → o.IsPtr i → h₀.pointee L (h₀.mem (c + i)) = some t →
    h₀.genAt t = p.fromGen → c / pageSizeCells ∈ s.rest → c / pageSizeCells ∉ s.chunk p →
      t / pageSizeCells ∉ s.chunk p

/-- The pages still listed, in order; the pages `first` are taken first. -/
structure Listing (first : List Nat) (p : ChunkParams) (s : ChunkState) : Prop where
  sorted : s.rest.Pairwise (· < ·)
  first : (∀ q ∈ first, q ∈ s.chunk p) ∨ ∀ q ∈ first, q ∉ s.rest

namespace Listing

variable {L : HeapLayout} {h h₀ hm : PageHeap} {T T₀ T₁ T₂ : ObjTable} {p : ChunkParams}
  {s s' : ChunkState} {K : Forwarding} {must : Slot → Prop} {first : List Nat}

theorem start {g : Generation} {marked : Nat → Prop} (hM : Prepared L h T g marked hm)
    (hP : PagesOk h) (hg : g ≠ .Free) (dest : Generation) (v : RootVisitor) (ext : Nat → Word) :
    Listing (h.firstPages g) (hm.chunkParams g dest v) (hm.chunkStart ext g) where
  sorted := List.pairwise_lt_range.filter _
  first := Or.inl fun _ hq => (hM.chunkAtLeast_le hP hg ext).subset hq

theorem step (hI : Listing first p s) (hR : ChunkResult L p must s T₁ s' T₂ K) :
    Listing first p s' where
  sorted := by
    rw [hR.rest]
    exact hI.sorted.drop
  first := by
    right
    intro q hq hrest
    rw [hR.rest] at hrest
    rcases hI.first with hchunk | hgone
    · -- a page of this chunk is no longer listed
      have hnodup : s.rest.Nodup := hI.sorted.imp fun hlt => Nat.ne_of_lt hlt
      exact List.disjoint_take_drop hnodup (Nat.le_refl _) (hchunk q hq) hrest
    · exact hgone q hq (List.mem_of_mem_drop hrest)

/-- What lies behind the chunk is on later pages, so that its pointers forward lead past it. -/
theorem noneWaits (hI : Listing first p s) {live : Nat → Prop}
    (hforward : ∀ c o i t, live c → T₀ c = some o → o.IsPtr i →
      h₀.pointee L (h₀.mem (c + i)) = some t → h₀.genAt t = p.fromGen →
        c / pageSizeCells ≤ t / pageSizeCells ∨ c / pageSizeCells ∈ first) :
    NoneWaits L p h₀ T₀ live s := by
  intro c o i t hlive hT hptr hpointee hgen hrest hchunk ht
  have hdrop : c / pageSizeCells ∈ s.rest.drop
      (s.heap.chunkSize p.fromGen p.pinnedPages s.rest.length) := by
    have hsplit := List.take_append_drop
      (s.heap.chunkSize p.fromGen p.pinnedPages s.rest.length) s.rest
    rw [← hsplit] at hrest
    exact (List.mem_append.1 hrest).resolve_left hchunk
  have hlt : t / pageSizeCells < c / pageSizeCells := by
    have hsorted := hI.sorted
    rw [← List.take_append_drop
      (s.heap.chunkSize p.fromGen p.pinnedPages s.rest.length) s.rest] at hsorted
    exact (List.pairwise_append.1 hsorted).2.2 _ ht _ hdrop
  rcases hforward c o i t hlive hT hptr hpointee hgen with hle | hfirst
  · omega
  · rcases hI.first with hin | hout
    · exact hchunk (hin _ hfirst)
    · exact hout _ hfirst hrest

end Listing

section Follow

variable {L : HeapLayout} {p : ChunkParams} {h₀ : PageHeap} {T₀ T T' : ObjTable}
  {s s' : ChunkState} {F K : Forwarding} {slots : List Slot} {ext₀ : Nat → Word}
  {live : Nat → Prop}

/-- The cells whose pointers the evacuation must redirect. -/
def MustFollow (L : HeapLayout) (h₀ : PageHeap) (g : Generation) (slots : List Slot)
    (live : Nat → Prop) (c i : Nat) : Prop :=
  (∃ t, h₀.pointee L (h₀.mem (c + i)) = some t ∧ h₀.genAt t = g) ∧
    (live c ∨ Slot.cell (c + i) ∈ slots)

/-- An object of the evacuated generation that stays put while its page is no longer listed has
joined the destination. -/
theorem Evacuating.gen_of_stayed (hX : LoopStart L p h₀ T₀) (hE : Evacuating L p h₀ T₀ s T F)
    (hsmall : ∀ q, (h₀.descs q).generation = p.fromGen → (h₀.descs q).kind ≠ .Large) {c : Nat}
    (hF : F c = some c) (hgen : h₀.genAt c = p.fromGen) (hrest : c / pageSizeCells ∉ s.rest) :
    s.heap.genAt c = p.destGen := by
  have hlive : (h₀.descs (c / pageSizeCells)).generation ≠ .Free := by
    rw [show (h₀.descs (c / pageSizeCells)).generation = p.fromGen from hgen]
    exact hX.fromLive
  have hfate := hE.small _ hlive (hsmall _ hgen)
  cases hpins : (h₀.descs (c / pageSizeCells)).hasPins with
  | true => exact (hfate.flipped hgen hrest hpins).generation
  | false =>
      -- a released page has been opened again: an object is on it
      obtain ⟨o, -, hT⟩ := hE.fate_some c c hF
      rcases hfate.released hgen hrest hpins with hfree | hreused
      · exact absurd hfree (hE.shape.live hT)
      · exact hreused.1

theorem Evacuating.traceable (hX : LoopStart L p h₀ T₀)
    (hsmall : ∀ q, (h₀.descs q).generation = p.fromGen → (h₀.descs q).kind ≠ .Large)
    (hlive : ∀ c, live c → h₀.genAt c = p.fromGen ∧ h₀.isMarked c = true)
    (hE : Evacuating L p h₀ T₀ s T F) (hR : ChunkResult L p (· ∈ slots) s T s' T' K)
    (hnone : p.fromGen ≠ p.destGen → NoneWaits L p h₀ T₀ live s) :
    Traceable L p (· ∈ slots) h₀ T₀ ext₀ (MustFollow L h₀ p.fromGen slots live)
      (fun a => Slot.ext a ∈ slots) s F K where
  cells := by
    intro c o i t hT₀ hptr hfollow hFc hK hdest hpin hmust htarget
    obtain ⟨⟨t', hpointee, htgen⟩, hlive' | hslot⟩ := hfollow
    · have htt : t' = t := by
        have heq := targetCell_of_pointee hpointee
        rw [htarget] at heq
        cases heq
        rfl
      subst htt
      obtain ⟨hgen, hmark⟩ := hlive c hlive'
      -- the object has not been processed: its page is listed
      have hrest : c / pageSizeCells ∈ s.rest := by
        by_contra hrest
        exact hdest (hE.gen_of_stayed hX hsmall hFc hgen hrest)
      have hlisted := hE.listed_alike hX hrest hT₀
      have hne : p.fromGen ≠ p.destGen := by
        intro heq
        apply hdest
        show (s.heap.descs (c / pageSizeCells)).generation = p.destGen
        rw [hlisted.generation, ← heq]
        exact hgen
      have hmark' : s.heap.isMarked c = true := by
        rw [isMarked_congr hE.control]
        exact hmark
      rw [← Option.not_isSome_iff_eq_none]
      intro hsome
      obtain ⟨hto, hin⟩ := (hR.dom t').1 hsome
      by_cases hchunk : c / pageSizeCells ∈ s.chunk p
      · -- in the chunk, but not copied: it is pinned
        have hunpinned : s.heap.isPinnedCell c = false := by
          cases hc : s.heap.isPinnedCell c with
          | false => rfl
          | true =>
              unfold isPinnedCell at hc
              rw [Bool.and_eq_true, decide_eq_true_eq] at hc
              exact absurd hc.2 hpin
        have hcopy : ToCopy s.heap T p.fromGen c := by
          refine ⟨?_, ?_, ?_, hmark', hunpinned⟩
          · rw [hE.table_rest hrest, hT₀]
            rfl
          · show (s.heap.descs (c / pageSizeCells)).generation = p.fromGen
            rw [hlisted.generation]
            exact hgen
          · show (s.heap.descs (c / pageSizeCells)).kind ≠ .Large
            rw [hlisted.kind]
            exact hsmall _ hgen
        have hmoved := (hR.dom c).2 ⟨hcopy, hchunk⟩
        rw [hK] at hmoved
        cases hmoved
      · -- it waits: what it points at is not copied before it
        exact hnone hne c o i t' hlive' hT₀ hptr hpointee htgen hrest hchunk hin
    · exact absurd hslot hmust
  ext := fun a _ hslot hmust => absurd hslot hmust

end Follow

/-! ## Running an evacuation of small pages -/

theorem ChunkState.meets_and {L : HeapLayout} {p : ChunkParams} {C D : ChunkState → Prop} :
    ∀ fuel (s : ChunkState), s.meets L p C fuel → s.meets L p D fuel →
      s.meets L p (fun s => C s ∧ D s) fuel := by
  intro fuel
  induction fuel with
  | zero => exact fun _ _ _ => trivial
  | succ fuel ih =>
      intro s hC hD hne
      obtain ⟨hCs, hCnext⟩ := hC hne
      obtain ⟨hDs, hDnext⟩ := hD hne
      exact ⟨⟨hCs, hDs⟩, fun s' hstep => ih s' (hCnext s' hstep) (hDnext s' hstep)⟩

theorem ChunkState.meets_of_forall {L : HeapLayout} {p : ChunkParams} {C : ChunkState → Prop}
    (hC : ∀ s, C s) : ∀ fuel (s : ChunkState), s.meets L p C fuel := by
  intro fuel
  induction fuel with
  | zero => exact fun _ => trivial
  | succ fuel ih => exact fun s _ => ⟨hC s, fun s' _ => ih s'⟩

section Small

variable {L : HeapLayout} {h : PageHeap} {T : ObjTable} {ext : Nat → Word} {g dest : Generation}
  {slots : List Slot}

/-- An evacuation of a generation without large runs reuses no listed page; it runs out of memory
or takes a step, along which it keeps what every chunk keeps. -/
theorem PassOk.evacuate_small
    {Q : PageHeap → ChunkParams → ChunkState → ObjTable → Forwarding → Prop} (hP : PassOk L h T)
    (hg : g ≠ .Free) (hd : dest ≠ .Free) (hslots : ∀ s ∈ slots, SlotSafe h T g s)
    (hsmall : ∀ q, (h.descs q).generation = g → (h.descs q).kind ≠ .Large)
    (hQ₀ : ∀ hm, Prepared L h T g (MarkedFrom L h T ext g slots) hm →
      Q hm (hm.chunkParams g dest (slotsVisitor L slots)) (hm.chunkStart ext g) T
        (Forwarding.still T))
    (hQ : ∀ hm s T₁ F s' T₂ K, Prepared L h T g (MarkedFrom L h T ext g slots) hm →
      LoopStart L (hm.chunkParams g dest (slotsVisitor L slots)) (hm.resetAllocRegions g) T →
      Evacuating L (hm.chunkParams g dest (slotsVisitor L slots)) (hm.resetAllocRegions g)
        T s T₁ F →
      ChunkResult L (hm.chunkParams g dest (slotsVisitor L slots)) (· ∈ slots) s T₁ s' T₂ K →
      Q hm (hm.chunkParams g dest (slotsVisitor L slots)) s T₁ F →
      Q hm (hm.chunkParams g dest (slotsVisitor L slots)) s' T₂
        (Evacuating.advance (hm.chunkParams g dest (slotsVisitor L slots)) s F K)) :
    Outcome GcPanic.IsOom (h.evacuateWithRoots L ext g dest (slotsVisitor L slots)) fun r =>
      ∃ hm s T' F, PassStep L h T g dest (slotsVisitor L slots) (MarkedFrom L h T ext g slots)
        hm s T' F r ∧ Q hm (hm.chunkParams g dest (slotsVisitor L slots)) s T' F := by
  obtain ⟨hm, hmark, hM⟩ := markAndPin_prepared dest hP hg
    (@shows_mark L h T g slots [] ext dest hP.shape hg hslots)
  have hpass : passSlots h T g slots [] = slots := List.append_nil _
  rw [hpass] at hM
  change h.markAndPin L ext g dest (slotsVisitor L slots) = .ok (hm, ext) at hmark
  have hX := hP.loopStart (slotsVisitor L slots) hM hg hd
  have hO := hM.sameReset
  have hserves : Serves L (hm.chunkParams g dest (slotsVisitor L slots))
      (hm.resetAllocRegions g) T (· ∈ slots) :=
    @serves_passVisitor L _ _ T slots [] hX.shape rfl
      ⟨fun s hs => slotSafe_congr hO (hslots s hs), fun _ hD => absurd hD List.not_mem_nil⟩
  have hsmall' : ∀ q, ((hm.resetAllocRegions g).descs q).generation = g →
      ((hm.resetAllocRegions g).descs q).kind ≠ .Large := by
    intro q hq
    have hrole := hO.role q
    rw [hrole.generation] at hq
    rw [hrole.kind]
    exact hsmall q hq
  have hmeets : PassMeets L h ext g dest (slotsVisitor L slots) (NoReuse L) := by
    intro hm' ext' hmark'
    rw [hmark] at hmark'
    cases hmark'
    exact Evacuating.meets hX hserves (fun s T' F hE => hE.noReuse hX hsmall') _ _ _ _
      (Evacuating.start hX ext EvacResult.zero)
  refine (hX.evacuate hg hd hmark hserves (fun _ _ hC => hC) hmeets (hQ₀ hm hM)
    (fun s T₁ F s' T₂ K hE _ hR hq => hQ hm s T₁ F s' T₂ K hM hX hE hR hq)).mono ?_
  rintro r ⟨s, T', F, hend, hq⟩
  exact ⟨hm, s, T', F, ⟨hP.shape, hM, hX, hend⟩, hq⟩

end Small

/-! ## The graph afterwards -/

/-- The word `w` that pointed at `t` has become `w'` and points at `d`, where `t` now is. -/
def Repointed (L : HeapLayout) (h h' : PageHeap) (w w' : Word) (t d : Nat) : Prop :=
  w' = (if d = t then w else L.rewritePointerAddr w (h.cellAddr d)) ∧ h'.pointee L w' = some d

/-- The live objects of `g` are where `F` says, in `dest`, and the pointers to them have followed;
every other cell holds the word it held, be it opaque, a fixnum, nil or a pointer to some other
generation. -/
structure GraphMoved (L : HeapLayout) (h : PageHeap) (ext : Nat → Word) (g dest : Generation)
    (slots : List Slot) (h' : PageHeap) (ext' : Nat → Word) (F : Forwarding) : Prop where
  object : ∀ c c', F c = some c' → (h.objAt L c).isSome ∧ h'.objAt L c' = h.objAt L c
  inj : ∀ c d e, F c = some e → F d = some e → c = d
  onto : ∀ c', (h'.objAt L c').isSome → ∃ c, F c = some c'
  others : ∀ c, (h.objAt L c).isSome → h.genAt c ≠ g → F c = some c ∧ h'.genAt c = h.genAt c
  kept : ∀ c, LiveIn L h ext g slots c → ∃ c', F c = some c' ∧ h'.genAt c' = dest
  only : ∀ c c', F c = some c' → h.genAt c = g → LiveIn L h ext g slots c
  fixed : ∀ c, c ∈ h.pinnedCells ∨ c ∈ h.explicitCells → F c = some c
  moved : ∀ c c', F c = some c' → c' = c → h.genAt c = g →
    c ∈ h.pinnedCells ∨ c ∈ h.explicitCells
  plain : ∀ c c' o i, F c = some c' → h.objAt L c = some o → i < o.totalCells →
    (o.IsPtr i → ∀ t, h.targetCell L (h.mem (c + i)) = some t → ¬ LiveIn L h ext g slots t) →
    h'.mem (c' + i) = h.mem (c + i)
  pointers : ∀ c c' o i t, F c = some c' → h.objAt L c = some o → o.IsPtr i →
    LiveIn L h ext g slots c ∨ Slot.cell (c + i) ∈ slots →
    h.pointee L (h.mem (c + i)) = some t → h.genAt t = g →
    ∃ d, F t = some d ∧ Repointed L h h' (h.mem (c + i)) (h'.mem (c' + i)) t d
  slots : ∀ a t, Slot.ext a ∈ slots → h.pointee L (ext a) = some t → h.genAt t = g →
    ∃ d, F t = some d ∧ Repointed L h h' (ext a) (ext' a) t d

section Graph

variable {L : HeapLayout} {h hm h' : PageHeap} {T T' : ObjTable} {ext ext' : Nat → Word}
  {g dest : Generation} {slots : List Slot} {s : ChunkState} {F : Forwarding}
  {r : EvacResult × PageHeap × (Nat → Word)}

theorem pointee_congr (hbase : h'.base = h.base) (hn : h'.nPages = h.nPages)
    (hobj : ∀ c, h'.objAt L c = h.objAt L c) (w : Word) : h'.pointee L w = h.pointee L w := by
  unfold pointee cellOf
  simp only [pageOf_congr hbase hn, hbase, hobj]

theorem pointee_of_same (hO : SameObjects h h') (hS : Shape L h T Forwarding.empty) (w : Word) :
    h'.pointee L w = h.pointee L w :=
  pointee_congr hO.base hO.nPages (fun c => by rw [(hO.shape hS).objAt_eq, hS.objAt_eq]) w

/-- A redirected word points at the object's new place. -/
theorem repointed_redirect (hS : Shape L h T Forwarding.empty) (hS' : Shape L h' T' Forwarding.empty)
    (hbase : h'.base = h.base) (hn : h'.nPages = h.nPages) {w : Word} {t d : Nat} {o : ObjInfo}
    (hw : h.pointee L w = some t) (hF : F t = some d) (ho : T t = some o) (ho' : T' d = some o) :
    Repointed L h h' w (redirect L h F.moves w) t d := by
  obtain ⟨addr, o₁, hp, hin, hcell, hobj⟩ := pointee_iff.1 hw
  rw [hS.objAt_eq, ho] at hobj
  cases hobj
  unfold Repointed
  by_cases hdt : d = t
  · -- it has stayed where it was
    subst hdt
    have hnone : (h.targetCell L w).bind F.moves = none := by
      rw [targetCell_of_pointee hw, Option.bind_some]
      unfold Forwarding.moves
      rw [hF]
      exact if_pos rfl
    rw [redirect_of_none hnone, if_pos rfl]
    refine ⟨rfl, pointee_iff.2 ⟨addr, o, hp, ?_, ?_, ?_⟩⟩
    · rw [pageOf_congr hbase hn]
      exact hin
    · unfold cellOf at hcell ⊢
      rw [hbase]
      exact hcell
    · rw [hS'.objAt_eq]
      exact ho'
  · have hmoves : F.moves t = some d := Forwarding.moves_some.2 ⟨hF, hdt⟩
    have hd : d < h.totalCells := by
      have hlt := hS'.cell_lt ho'
      unfold totalCells at hlt ⊢
      rwa [hn] at hlt
    rw [redirect_of_some (targetCell_of_pointee hw) hmoves, if_neg hdt]
    refine ⟨rfl, pointee_iff.2 ⟨h.cellAddr d, o, pointer?_rewriteTo hS.pages hp hd, ?_, ?_, ?_⟩⟩
    · rw [pageOf_congr hbase hn, pageOf_cellAddr hd]
      rfl
    · unfold cellOf
      rw [hbase]
      exact cellOf_cellAddr h d
    · rw [hS'.objAt_eq]
      exact ho'

variable {v : RootVisitor} {marked : Nat → Prop}

/-- What an evacuation of small pages does to the graph. -/
theorem PassStep.graphMoved (hI : Coherent L h T)
    (hsmall : ∀ q, (h.descs q).generation = g → (h.descs q).kind ≠ .Large)
    (hcover : SlotsCover L h g slots)
    (hP : PassStep L h T g dest v (MarkedFrom L h T ext g slots) hm s T' F r)
    (hF : Followed L (hm.resetAllocRegions g) T ext
      (MustFollow L (hm.resetAllocRegions g) g slots (LiveIn L h ext g slots))
      (fun a => Slot.ext a ∈ slots) s F)
    (hsame : SameObjects r.2.1 h') : GraphMoved L h ext g dest slots h' r.2.2 F := by
  have hS := hI.shape
  have hE := hP.evacuated
  have hM := hP.prepared
  have hX := hP.start
  have hg : g ≠ .Free := hX.fromLive
  have hO := hM.sameReset
  have hS' : Shape L h' T' Forwarding.empty := hsame.shape hP.next.shape
  have hobj : ∀ c, h.objAt L c = T c := fun c => hS.objAt_eq c
  have hobj' : ∀ c, h'.objAt L c = T' c := fun c => hS'.objAt_eq c
  have hmem : ∀ c, h'.mem c = s.heap.mem c := fun c => by rw [hsame.mem, hP.mem]
  have hgen' : ∀ c, h'.genAt c = s.heap.genAt c := fun c => by
    rw [hsame.genAt]
    unfold genAt
    rw [hP.descs]
  have hbase : h'.base = h.base := by
    rw [hsame.base, hP.ended.heap]
    exact hE.control.base.trans hM.objects.base
  have hn : h'.nPages = h.nPages := by
    rw [hsame.nPages, hP.ended.heap]
    exact hE.control.nPages.trans hM.objects.nPages
  have hgen₀ : ∀ c, (hm.resetAllocRegions g).genAt c = h.genAt c := fun c => hO.genAt c
  have hsmall₀ : ∀ q, ((hm.resetAllocRegions g).descs q).generation = g →
      ((hm.resetAllocRegions g).descs q).kind ≠ .Large := by
    intro q hq
    rw [(hO.role q).generation] at hq
    rw [(hO.role q).kind]
    exact hsmall q hq
  have hpointee : ∀ w, (hm.resetAllocRegions g).pointee L w = h.pointee L w := pointee_of_same hO hS
  have hlive := marked_iff_liveIn hI hg hsmall hcover hM
  have hredirect : ∀ w, redirect L (hm.resetAllocRegions g) F.moves w = redirect L h F.moves w :=
    redirect_congr hO.base hO.nPages F.moves
  -- what stays in place is pinned
  have hstays : ∀ c, h.genAt c = g → Stays (hm.resetAllocRegions g)
      (hm.chunkParams g dest v).pinnedWithKind c → c ∈ h.pinnedCells ∨ c ∈ h.explicitCells := by
    rintro c hgen ⟨-, hlarge | hlisted⟩
    · exact absurd hlarge (hsmall₀ _ ((hgen₀ c).trans hgen))
    · rcases hM.newPins c ((hX.listed c).1 hlisted) with hpin | hpin | hlarge
      · exact Or.inl hpin
      · exact Or.inr hpin
      · exact absurd hlarge (hsmall _ hgen)
  have hcopy : ∀ c o, T c = some o → LiveIn L h ext g slots c → hm.isPinnedCell c = false →
      ToCopy (hm.resetAllocRegions g) T g c := by
    intro c o hT hc hunpinned
    refine ⟨Option.isSome_of_eq_some hT, (hgen₀ c).trans hc.genAt,
      hsmall₀ _ ((hgen₀ c).trans hc.genAt), ((hlive c).2 hc).1, hunpinned⟩
  have hobject : ∀ c, LiveIn L h ext g slots c → ∃ o, T c = some o := fun c hc =>
    Option.isSome_iff_exists.1 (hM.fresh c ((hlive c).2 hc).1 hc.genAt)
  have hkept : ∀ c, LiveIn L h ext g slots c → ∃ c', F c = some c' ∧ h'.genAt c' = dest := by
    intro c hc
    obtain ⟨o, hT⟩ := hobject c hc
    cases hpin : hm.isPinnedCell c with
    | true =>
        unfold isPinnedCell at hpin
        rw [Bool.and_eq_true, Bool.and_eq_true, decide_eq_true_eq, decide_eq_true_eq] at hpin
        have hFc := hP.pinned_stays hT hpin.2 (PageDesc.hasPins_of_isPinned hpin.1.2)
        refine ⟨c, hFc, ?_⟩
        rw [hgen']
        exact hE.gen_of_stayed hX hsmall₀ hFc ((hgen₀ c).trans hc.genAt) (hP.done _)
    | false =>
        obtain ⟨c', hFc, hne⟩ := hE.copied c (hcopy c o hT hc hpin) (hP.done _)
        refine ⟨c', hFc, ?_⟩
        rw [hgen']
        exact (hE.moved c c' hFc hne).2.2.2.1
  have hfollow : ∀ w t, h.pointee L w = some t → LiveIn L h ext g slots t → ∃ d, F t = some d ∧
      Repointed L h h' w (redirect L h F.moves w) t d := by
    intro w t hw ht
    obtain ⟨d, hFt, -⟩ := hkept t ht
    obtain ⟨o, hT, hT'⟩ := hE.fate_some t d hFt
    exact ⟨d, hFt, repointed_redirect hS hS' hbase hn hw hFt hT hT'⟩
  refine
    { object := ?_, inj := hE.fate_inj, onto := ?_, others := ?_, kept := hkept, only := ?_,
      fixed := ?_, moved := ?_, plain := ?_, pointers := ?_, slots := ?_ }
  · intro c c' hFc
    obtain ⟨o, hT, hT'⟩ := hE.fate_some c c' hFc
    rw [hobj, hobj', hT, hT']
    exact ⟨rfl, rfl⟩
  · intro c' hc'
    rw [hobj'] at hc'
    obtain ⟨o, hT'⟩ := Option.isSome_iff_exists.1 hc'
    exact hE.fate_onto c' o hT'
  · intro c hc hgen
    rw [hobj] at hc
    obtain ⟨o, hT⟩ := Option.isSome_iff_exists.1 hc
    have hgen₁ : (hm.resetAllocRegions g).genAt c ≠ g := by
      rw [hgen₀]
      exact hgen
    have hfree : (hm.resetAllocRegions g).genAt c ≠ .Free := by
      rw [hgen₀]
      exact hS.live hT
    refine ⟨hE.waiting c o hT (Or.inl hgen₁), ?_⟩
    rw [hgen']
    exact (hE.other_alike hX hfree hgen₁).generation.trans (hgen₀ c)
  · intro c c' hFc hgen
    obtain ⟨o, hT, -⟩ := hE.fate_some c c' hFc
    by_contra hdead
    have hnone := hE.lost c ((hgen₀ c).trans hgen) (hP.done _)
      (fun hstay => hdead (.pinned (hstays c hgen hstay) hgen))
      (fun hto => hdead ((hlive c).1 ⟨hto.marked, hgen⟩))
    rw [hnone] at hFc
    cases hFc
  · intro c hpin
    by_cases hgen : h.genAt c = g
    · rcases hpin with hpin | hpin
      · obtain ⟨hsome, hbit⟩ := hI.pins c hpin
        obtain ⟨o, hT⟩ := Option.isSome_iff_exists.1 hsome
        exact hP.pinned_stays hT (hM.pinned c hpin)
          (PageDesc.hasPins_of_isPinned (hM.bits c (hsmall _ hgen) hbit))
      · obtain ⟨o, hT⟩ := Option.isSome_iff_exists.1 (hI.explicit c hpin)
        obtain ⟨-, hlisted, hbit⟩ := hM.explicit c hpin
        exact hP.pinned_stays hT hlisted (PageDesc.hasPins_of_isPinned hbit)
    · have hsome : (T c).isSome := by
        rcases hpin with hpin | hpin
        · exact (hI.pins c hpin).1
        · exact hI.explicit c hpin
      obtain ⟨o, hT⟩ := Option.isSome_iff_exists.1 hsome
      exact hE.waiting c o hT (Or.inl (by rw [hgen₀]; exact hgen))
  · intro c c' hFc hcc hgen
    subst hcc
    by_contra hfree
    have hdead : ¬ ToCopy (hm.resetAllocRegions g) T g c' := by
      intro hto
      obtain ⟨d, hFd, hne⟩ := hE.copied c' hto (hP.done _)
      rw [hFc] at hFd
      cases hFd
      exact hne rfl
    have hnone := hE.lost c' ((hgen₀ c').trans hgen) (hP.done _)
      (fun hstay => hfree (hstays c' hgen hstay)) hdead
    rw [hnone] at hFc
    cases hFc
  · intro c c' o i hFc hT hi hplain
    rw [hobj] at hT
    have hmem₀ : (hm.resetAllocRegions g).mem (c + i) = h.mem (c + i) := congrFun hO.mem (c + i)
    rw [hmem, hE.plain c c' o i hFc hT hi ?_, hmem₀]
    -- what is copied was live
    intro hptr t ht hto
    rw [hmem₀, targetCell_congr hO.base hO.nPages] at ht
    exact hplain hptr t ht ((hlive t).1 ⟨hto.marked, (hgen₀ t).symm.trans hto.generation⟩)
  · intro c c' o i t hFc hT hptr hwho hw hgen
    rw [hobj] at hT
    have ht : LiveIn L h ext g slots t := by
      rcases hwho with hc | hslot
      · exact .step hc ⟨o, i, (hobj c).trans hT, hptr, hw⟩ hgen
      · exact .root hslot hw hgen
    obtain ⟨d, hFt, hrep⟩ := hfollow _ t hw ht
    refine ⟨d, hFt, ?_⟩
    have hmem₀ : (hm.resetAllocRegions g).mem (c + i) = h.mem (c + i) := congrFun hO.mem (c + i)
    have hcell := hF.cells c c' o i hFc hT hptr
      ⟨⟨t, by rw [hmem₀, hpointee]; exact hw, (hgen₀ t).trans hgen⟩, hwho⟩
    rw [hmem, hcell, hredirect, hmem₀]
    exact hrep
  · intro a t hslot hw hgen
    obtain ⟨d, hFt, hrep⟩ := hfollow _ t hw (.root hslot hw hgen)
    refine ⟨d, hFt, ?_⟩
    rw [hP.ended.ext, hF.ext a hslot, hredirect]
    exact hrep

/-- An evacuation of small pages whose pointers lead forward moves the graph. -/
theorem Coherent.evacuate_graph (hI : Coherent L h T) (hg : g ≠ .Free) (hd : dest ≠ .Free)
    (hslots : ∀ s ∈ slots, SlotSafe h T g s)
    (hsmall : ∀ q, (h.descs q).generation = g → (h.descs q).kind ≠ .Large)
    (hcover : SlotsCover L h g slots) (hforward : g ≠ dest → PointsForward L h ext g slots) :
    Outcome GcPanic.IsOom (h.evacuateWithRoots L ext g dest (slotsVisitor L slots)) fun r =>
      ∀ h', SameObjects r.2.1 h' → (∃ T', Shape L h' T' Forwarding.empty) ∧
        ∃ F, GraphMoved L h ext g dest slots h' r.2.2 F := by
  have hpass := hI.passOk
  refine (hpass.evacuate_small (Q := fun hm p s _ F => Listing (h.firstPages g) p s ∧
    Followed L (hm.resetAllocRegions g) T ext
      (MustFollow L (hm.resetAllocRegions g) g slots (LiveIn L h ext g slots))
      (fun a => Slot.ext a ∈ slots) s F) hg hd hslots hsmall ?_ ?_).mono ?_
  · -- nothing has moved yet
    intro hm hM
    refine ⟨.start hM hI.shape.pages hg dest _ ext, ?_⟩
    have hmoves : ∀ c, (Forwarding.still T).moves c = none := by
      intro c
      unfold Forwarding.moves Forwarding.still
      split
      · rename_i d hd
        split at hd
        · cases hd
          exact if_pos rfl
        · cases hd
      · rfl
    have hredirect : ∀ w, redirect L (hm.resetAllocRegions g) (Forwarding.still T).moves w = w := by
      intro w
      refine redirect_of_none ?_
      cases (hm.resetAllocRegions g).targetCell L w with
      | none => rfl
      | some t => exact hmoves t
    refine ⟨?_, fun a _ => (hredirect (ext a)).symm⟩
    intro c c' o i hF _ _ _
    unfold Forwarding.still at hF
    split at hF
    · cases hF
      exact (hredirect _).symm
    · cases hF
  · rintro hm s T₁ F s' T₂ K hM hX hE hR ⟨hlist, hF⟩
    have hO := hM.objects
    refine ⟨hlist.step hR, Evacuating.followed_step hE hR hF (hE.traceable hX ?_ ?_ hR ?_)⟩
    · intro q hq
      have hrole := hO.role q
      show (hm.descs q).kind ≠ .Large
      change (hm.descs q).generation = g at hq
      rw [hrole.generation] at hq
      rw [hrole.kind]
      exact hsmall q hq
    · intro c hc
      exact ⟨(hO.genAt c).trans hc.genAt, ((marked_iff_liveIn hI hg hsmall hcover hM c).2 hc).1⟩
    · intro hne
      refine hlist.noneWaits fun c o i t hc hT hptr hpointee hgen => ?_
      have hp : (hm.resetAllocRegions g).pointee L ((hm.resetAllocRegions g).mem (c + i)) =
          h.pointee L (h.mem (c + i)) := by
        rw [hM.sameReset.mem]
        exact pointee_of_same hM.sameReset hI.shape _
      refine hforward hne c o i t hc ((hI.shape.objAt_eq c).trans hT) hptr (hp.symm.trans hpointee) ?_
      rw [← hM.sameReset.genAt]
      exact hgen
  · rintro r ⟨hm, s, T', F, hP, -, hF⟩ h' hsame
    exact ⟨⟨T', hsame.shape hP.next.shape⟩, F, hP.graphMoved hI hsmall hcover hF hsame⟩

end Graph

namespace World

variable {L : HeapLayout} {w w' : World} {g dest : Generation} {slots : List Slot}

/-- An allowed evacuation that returns is its step. -/
theorem step_evacuate (hstep : w.step L (.evacuate g dest slots) = .ok w') :
    ∃ r, w.heap.evacuateWithRoots L w.ext g dest (slotsVisitor L slots) = .ok r ∧
      w'.heap = r.2.1 ∧ w'.ext = r.2.2 := by
  simp only [step] at hstep
  cases hevac : w.heap.evacuateWithRoots L w.ext g dest (slotsVisitor L slots) with
  | error e =>
      rw [hevac] at hstep
      cases hstep
  | ok r =>
      rw [hevac] at hstep
      cases hstep
      exact ⟨r, rfl, rfl, rfl⟩

theorem Settled.slotsSafe {T : ObjTable} (hW : Settled L w T)
    (hallowed : w.allows L (.evacuate g dest slots) = true) :
    g ≠ .Free ∧ dest ≠ .Free ∧ ∀ s ∈ slots, SlotSafe w.heap T g s := by
  simp only [allows, Bool.and_eq_true, decide_eq_true_eq] at hallowed
  obtain ⟨⟨⟨hg, hd⟩, -⟩, hslots⟩ := hallowed
  exact ⟨hg, hd, fun s hs => hW.slotSafe (List.all_eq_true.1 hslots s hs)⟩

/-- The evacuation of a generation of small pages by a closure that presents every pointer into
it. -/
structure SmallEvacuation (L : HeapLayout) (w : World) (g dest : Generation) (slots : List Slot) :
    Prop where
  allowed : w.allows L (.evacuate g dest slots) = true
  small : ∀ q, (w.heap.descs q).generation = g →
    (w.heap.descs q).kind = .Cons ∨ (w.heap.descs q).kind = .Boxed
  cover : SlotsCover L w.heap g slots

theorem SmallEvacuation.graphMoved (hcall : SmallEvacuation L w g dest slots)
    (hw : Reached L (PlannedRequest L) w) (hpins : w.heap.PinsSettled)
    (hforward : g ≠ dest → PointsForward L w.heap w.ext g slots)
    (hstep : w.step L (.evacuate g dest slots) = .ok w') :
    (∃ T', Shape L w'.heap T' Forwarding.empty) ∧
      ∃ F, GraphMoved L w.heap w.ext g dest slots w'.heap w'.ext F := by
  obtain ⟨T, hW⟩ := planned_runs_settled hw
  obtain ⟨hg, hd, hslots⟩ := hW.slotsSafe hcall.allowed
  have hsmall : ∀ q, (w.heap.descs q).generation = g → (w.heap.descs q).kind ≠ .Large := by
    intro q hq
    rcases hcall.small q hq with hk | hk <;> rw [hk] <;> decide
  obtain ⟨r, hr, hheap, hext⟩ := step_evacuate hstep
  have hI := (hW.sound hpins).heap
  obtain ⟨hS, F, hF⟩ := (hI.evacuate_graph hg hd hslots hsmall hcall.cover hforward).value hr
    w'.heap (hheap ▸ SameObjects.refl r.2.1)
  rw [← hext] at hF
  exact ⟨hS, F, hF⟩

/-! ### Pointers as a check -/

/-- The pointer cells that lead to objects, checked one by one: `check x c t` for the object at `x`,
its cell `c` and the object at `t` it names.  Of page `q` the first `scan q` cells are looked at. -/
def edgesMeet (L : HeapLayout) (w : World) (scan : Nat → Nat) (check : Nat → Nat → Nat → Bool) :
    Bool :=
  (List.range w.heap.nPages).all fun q =>
    decide ((w.heap.descs q).generation = .Free) ||
      (List.range' (q * pageSizeCells) (scan q)).all fun x =>
        decide (w.heap.startBits x = .none) ||
          (w.heap.objAt L x).all fun o => (o.ptrCells x).all fun c =>
            (w.heap.pointee L (w.heap.mem c)).all fun t => check x c t

theorem edge_meets {scan : Nat → Nat} {check : Nat → Nat → Nat → Bool}
    (hconf : w.heap.pool.Confined) (hcheck : w.edgesMeet L scan check = true) {x i t : Nat}
    {o : ObjInfo} (hscan : x % pageSizeCells < scan (x / pageSizeCells))
    (ho : w.heap.objAt L x = some o) (hptr : o.IsPtr i)
    (hpointee : w.heap.pointee L (w.heap.mem (x + i)) = some t) : check x (x + i) t = true := by
  have hlive : w.heap.genAt x ≠ .Free := by
    intro hfree
    unfold objAt at ho
    rw [if_pos hfree] at ho
    cases ho
  have hlt : x / pageSizeCells < w.heap.nPages := by
    by_contra hge
    exact hlive (hconf _ (Nat.le_of_not_lt hge))
  have hpage := List.all_eq_true.1 hcheck _ (List.mem_range.2 hlt)
  simp only [Bool.or_eq_true, decide_eq_true_eq] at hpage
  have hsplit := Nat.div_add_mod' x pageSizeCells
  have hstart : w.heap.startBits x ≠ .none := by
    intro hnone
    unfold objAt at ho
    rw [if_neg hlive, hnone] at ho
    cases ho
  have hx := List.all_eq_true.1 (hpage.resolve_left hlive) x
    (List.mem_range'_1.2 ⟨Nat.div_mul_le_self .., by omega⟩)
  rw [Bool.or_eq_true, decide_eq_true_eq] at hx
  replace hx := hx.resolve_left hstart
  rw [ho, Option.all_some] at hx
  have hcell := List.all_eq_true.1 hx (x + i) (ObjInfo.mem_ptrCells.2 ⟨i, hptr, rfl⟩)
  rwa [hpointee, Option.all_some] at hcell

/-- All pages hold small objects, the pointers into `g` from outside are among the slots, and those
inside lead forward. -/
def edgesCovered (L : HeapLayout) (w : World) (g : Generation) (slots : List Slot) : Bool :=
  ((List.range w.heap.nPages).all fun q => decide ((w.heap.descs q).kind ≠ .Large)) &&
    w.edgesMeet L (fun q => (w.heap.descs q).wordsUsed) fun x c t =>
      decide (w.heap.genAt t ≠ g) ||
        if w.heap.genAt x = g then decide (x / pageSizeCells ≤ t / pageSizeCells)
        else decide (.cell c ∈ slots)

theorem Settled.edges_covered {T : ObjTable} (hW : Settled L w T)
    (hcheck : w.edgesCovered L g slots = true) :
    (∀ q, (w.heap.descs q).kind ≠ .Large) ∧ SlotsCover L w.heap g slots ∧
      PointsForward L w.heap w.ext g slots := by
  have hP := hW.heap.shape.pages
  obtain ⟨hpages, hedges⟩ := Bool.and_eq_true_iff.1 hcheck
  have hsmall : ∀ q, (w.heap.descs q).kind ≠ .Large := by
    intro q
    by_cases hq : q < w.heap.nPages
    · exact of_decide_eq_true (List.all_eq_true.1 hpages q (List.mem_range.2 hq))
    · rw [(hP.kindFree q).2 (hP.beyond q (Nat.le_of_not_lt hq))]
      decide
  have hused : ∀ x o, w.heap.objAt L x = some o →
      x % pageSizeCells < (w.heap.descs (x / pageSizeCells)).wordsUsed := by
    intro x o ho
    rw [hW.heap.shape.objAt_eq] at ho
    have hpos := (hW.heap.shape.wf ho).pos
    exact Nat.lt_of_lt_of_le (Nat.lt_add_of_pos_right hpos)
      ((hW.heap.shape.obj x o ho).small (hsmall _))
  refine ⟨hsmall, fun x o i t ho hne hptr hpointee hgen => ?_,
    fun c o i t hc ho hptr hpointee hgen => Or.inl ?_⟩
  · have hmeets := edge_meets hP.beyond hedges (hused x o ho) ho hptr hpointee
    simpa [hne, hgen] using hmeets
  · have hmeets := edge_meets hP.beyond hedges (hused c o ho) ho hptr hpointee
    simpa [hc.genAt, hgen] using hmeets

/-! ## Promotion -/

/-- Every live object has exactly one copy in the destination, and every pointer to it follows. -/
def Promoted (L : HeapLayout) (w w' : World) (g dest : Generation) (slots : List Slot) : Prop :=
  ∃ F, GraphMoved L w.heap w.ext g dest slots w'.heap w'.ext F ∧
    ∀ c c', F c = some c' → w.heap.genAt c = g → c' ≠ c

/-- In a heap that planned requests have built, without pins, an evacuation into another generation
preserves the object graph when the pointers between live objects lead forward. -/
theorem promotion_preserves_graph (hw : Reached L (PlannedRequest L) w)
    (hcall : SmallEvacuation L w g dest slots)
    (hpins : w.heap.pinnedCells = [] ∧ w.heap.explicitCells = [])
    (hforward : PointsForward L w.heap w.ext g slots)
    (hstep : w.step L (.evacuate g dest slots) = .ok w') : Promoted L w w' g dest slots := by
  have hsettled : w.heap.PinsSettled := by
    intro c hc
    rw [hpins.1] at hc
    exact absurd hc List.not_mem_nil
  obtain ⟨-, F, hF⟩ := hcall.graphMoved hw hsettled (fun _ => hforward) hstep
  refine ⟨F, hF, fun c c' hFc hgen hcc => ?_⟩
  have hpinned := hF.moved c c' hFc hcc hgen
  rw [hpins.1, hpins.2] at hpinned
  rcases hpinned with hmem | hmem <;> cases hmem

/-- Every page in use is a small page of `g`. -/
def onlySmall (w : World) (g : Generation) : Bool :=
  (List.range w.heap.nPages).all fun q =>
    decide ((w.heap.descs q).generation = .Free) ||
      (decide ((w.heap.descs q).generation = g) &&
        (decide ((w.heap.descs q).kind = .Cons) || decide ((w.heap.descs q).kind = .Boxed)))

theorem smallEvacuation_of_onlySmall {T : ObjTable} (hW : Sound L w T) (hg : g ≠ .Free)
    (honly : w.onlySmall g = true) (hallowed : w.allows L (.evacuate g dest slots) = true) :
    SmallEvacuation L w g dest slots := by
  have hpage : ∀ q, (w.heap.descs q).generation = .Free ∨ ((w.heap.descs q).generation = g ∧
      ((w.heap.descs q).kind = .Cons ∨ (w.heap.descs q).kind = .Boxed)) := by
    intro q
    by_cases hq : q < w.heap.nPages
    · have hcheck := List.all_eq_true.1 honly q (List.mem_range.2 hq)
      simpa using hcheck
    · exact Or.inl (hW.heap.shape.pages.beyond q (Nat.le_of_not_lt hq))
  refine ⟨hallowed, fun q hq => ?_, fun x o i t ho hne => ?_⟩
  · rcases hpage q with hfree | ⟨-, hk⟩
    · rw [hq] at hfree
      exact absurd hfree hg
    · exact hk
  · -- there is no other generation
    rw [hW.heap.shape.objAt_eq] at ho
    rcases hpage (x / pageSizeCells) with hfree | ⟨hgen, -⟩
    · exact absurd hfree (hW.heap.shape.live ho)
    · exact absurd hgen hne

/-- A vector on the first page points at a cons on the second, and a cons of G1 at the vector; two
free pages make chunks of one page. -/
def forwardPointerOps : List Op :=
  [.allocBoxed .G0 (heapHeader .Vector 1),
    .allocCons .G0 (LispLayout.fixnum 1) LispLayout.nil,
    .store 0 1 (consAt 8192),
    .allocCons .G1 (boxAt 0) LispLayout.nil]

theorem promotion_preserves_graph_forward : ∃ w w',
    (lispWorld 5 []).run lispLayout forwardPointerOps = some w ∧
    w.step lispLayout (.evacuate .G0 .G1 [.cell 16384]) = .ok w' ∧
      Promoted lispLayout w w' .G0 .G1 [.cell 16384] := by
  have hpre : (((lispWorld 5 []).runIf lispLayout (plans lispLayout) forwardPointerOps).map fun w =>
      w.edgesCovered lispLayout .G0 [.cell 16384] &&
        (w.heap.pinnedCells.isEmpty && w.heap.explicitCells.isEmpty)) = some true := by
    decide +kernel
  obtain ⟨w, hw, hpre⟩ := Option.map_eq_some_iff.1 hpre
  simp only [Bool.and_eq_true, List.isEmpty_iff] at hpre
  obtain ⟨hedges, hpins⟩ := hpre
  have hrun : (((lispWorld 5 []).run lispLayout
      (forwardPointerOps ++ [.evacuate .G0 .G1 [.cell 16384]])).map fun _ => true) = some true := by
    decide +kernel
  obtain ⟨w', hrun', -⟩ := Option.map_eq_some_iff.1 hrun
  obtain ⟨w₁, hw₁, hallowed, hstep⟩ := run_snoc hrun'
  rw [run_of_runIf hw] at hw₁
  cases hw₁
  have hreached := runIf_reached plannedRequest_of_plans (lispWorld_reached [] (by decide)) hw
  obtain ⟨T, hW⟩ := planned_runs_settled hreached
  obtain ⟨hsmall, hcover, hforward⟩ := hW.edges_covered hedges
  have hcall : SmallEvacuation lispLayout w .G0 .G1 [.cell 16384] := by
    refine ⟨hallowed, fun q hq => ?_, hcover⟩
    have hfree : (w.heap.descs q).kind ≠ .Free := by
      intro hk
      rw [(hW.heap.shape.pages.kindFree q).1 hk] at hq
      cases hq
    have hlarge := hsmall q
    revert hlarge hfree
    cases (w.heap.descs q).kind <;> simp
  exact ⟨w, w', run_of_runIf hw, hstep,
    promotion_preserves_graph hreached hcall hpins hforward hstep⟩

/-! ### A pointer that waits

Four pages make chunks of one page.  The first chunk copies the cons and frees its page, the second
copies the vector that points at it: its cell still holds the old address. -/

def backPointerOps : List Op :=
  [.allocCons .G0 (LispLayout.fixnum 1) LispLayout.nil,
    .allocBoxed .G0 (heapHeader .Vector 1),
    .store 8192 1 (consAt 0),
    .storeExt 0 (boxAt 8192)]

theorem back_pointer_not_rewritten : ¬ ∀ w g dest slots w', Reachable lispLayout w → g ≠ dest →
    SmallEvacuation lispLayout w g dest slots →
    (w.heap.pinnedCells = [] ∧ w.heap.explicitCells = []) →
    w.step lispLayout (.evacuate g dest slots) = .ok w' → Promoted lispLayout w w' g dest slots := by
  intro hall
  have hrun : (((lispWorld 4 []).run lispLayout
      (backPointerOps ++ [.evacuate .G0 .G1 [.ext 0]])).map fun w' =>
        decide (w'.heap.pointee lispLayout (w'.ext 0) = some 0) &&
          decide (w'.heap.pointee lispLayout (w'.heap.mem 1) = none)) = some true := by
    decide +kernel
  obtain ⟨w', hrun', hafter⟩ := Option.map_eq_some_iff.1 hrun
  obtain ⟨w, hw, hallowed, hstep⟩ := run_snoc hrun'
  have hpre : (((lispWorld 4 []).run lispLayout backPointerOps).map fun w =>
      w.onlySmall .G0 && (w.heap.pinnedCells.isEmpty && w.heap.explicitCells.isEmpty) &&
        (decide (w.heap.pointee lispLayout (w.ext 0) = some 8192) &&
          decide ((w.heap.objAt lispLayout 8192).any fun o => decide (o.IsPtr 1)) &&
          decide (w.heap.pointee lispLayout (w.heap.mem 8193) = some 0) &&
          decide (w.heap.genAt 8192 = .G0) && decide (w.heap.genAt 0 = .G0))) = some true := by
    decide +kernel
  rw [hw, Option.map_some, Option.some.injEq] at hpre
  simp only [Bool.and_eq_true, decide_eq_true_eq, List.isEmpty_iff] at hpre hafter
  obtain ⟨⟨honly, hpins⟩, ⟨⟨⟨hroot, hobj⟩, hcell⟩, hgen⟩, hgen'⟩ := hpre
  obtain ⟨-, T, hW⟩ := fresh_run_reached (by decide) (by decide) hw
  obtain ⟨F, hF, -⟩ := hall w .G0 .G1 [.ext 0] w' (run_reachable (lispWorld_reached [] (by decide)) hw)
    (by decide) (smallEvacuation_of_onlySmall hW (by decide) honly hallowed) hpins hstep
  -- the slot says where the vector is now
  obtain ⟨d, hFd, -, hd⟩ := hF.slots 0 8192 List.mem_cons_self hroot hgen
  rw [hafter.1] at hd
  cases hd
  cases ho : w.heap.objAt lispLayout 8192 with
  | none =>
      rw [ho] at hobj
      cases hobj
  | some o =>
      rw [ho, Option.any_some, decide_eq_true_eq] at hobj
      -- its cell still holds the old address, where the vector now lies
      obtain ⟨d', -, -, hd'⟩ := hF.pointers 8192 0 o 1 0 hFd ho hobj
        (Or.inl (.root List.mem_cons_self hroot hgen)) hcell hgen'
      rw [Nat.zero_add, hafter.2] at hd'
      cases hd'

/-! ## Compaction in place -/

/-- The live objects of `g` and the objects of `g` afterwards are the same, up to where they lie;
what is pinned has not moved. -/
def Compacted (L : HeapLayout) (w w' : World) (g : Generation) (slots : List Slot) : Prop :=
  ∃ F, GraphMoved L w.heap w.ext g g slots w'.heap w'.ext F ∧
    ∀ c', w'.heap.isStartAt c' = true → w'.heap.genAt c' = g →
      ∃ c, LiveIn L w.heap w.ext g slots c ∧ F c = some c'

/-- In a heap that planned requests have built, with settled pins, an evacuation of a generation
into itself preserves the object graph and honours the pins, in any number of chunks. -/
theorem compaction_preserves_graph (hw : Reached L (PlannedRequest L) w)
    (hcall : SmallEvacuation L w g g slots) (hsettled : w.heap.PinsSettled)
    (hstep : w.step L (.evacuate g g slots) = .ok w') : Compacted L w w' g slots := by
  obtain ⟨⟨T', hS⟩, F, hF⟩ := hcall.graphMoved hw hsettled (fun hne => absurd rfl hne) hstep
  refine ⟨F, hF, fun c' hstart hgen => ?_⟩
  have hg : g ≠ .Free := by
    obtain ⟨T, hW⟩ := planned_runs_settled hw
    exact (hW.slotsSafe hcall.allowed).1
  obtain ⟨o, hT'⟩ := (hS.isStartAt_iff (by rw [hgen]; exact hg)).1 hstart
  have hobj : (w'.heap.objAt L c').isSome := by
    rw [hS.objAt_eq, hT']
    rfl
  obtain ⟨c, hFc⟩ := hF.onto c' hobj
  refine ⟨c, ?_, hFc⟩
  by_cases hold : w.heap.genAt c = g
  · exact hF.only c c' hFc hold
  · -- an object of another generation stays in it
    obtain ⟨hstay, hsame⟩ := hF.others c (hF.object c c' hFc).1 hold
    rw [hFc] at hstay
    cases hstay
    rw [hgen] at hsame
    exact absurd hsame.symm hold

theorem compaction_preserves_graph_cons : ∃ w w', (lispWorld 4 []).run lispLayout
      [.allocCons .G0 (LispLayout.fixnum 1) LispLayout.nil, .storeExt 0 (consAt 0),
        .pin (consAt 0)] = some w ∧
    w.step lispLayout (.evacuate .G0 .G0 [.ext 0]) = .ok w' ∧
      Compacted lispLayout w w' .G0 [.ext 0] := by
  have hpre : (((lispWorld 4 []).runIf lispLayout (plans lispLayout)
      [.allocCons .G0 (LispLayout.fixnum 1) LispLayout.nil, .storeExt 0 (consAt 0),
        .pin (consAt 0)]).map fun w => w.onlySmall .G0 && decide w.heap.PinsSettled) = some true := by
    decide +kernel
  obtain ⟨w, hw, hpre⟩ := Option.map_eq_some_iff.1 hpre
  rw [Bool.and_eq_true, decide_eq_true_eq] at hpre
  have hrun : (((lispWorld 4 []).run lispLayout
      ([.allocCons .G0 (LispLayout.fixnum 1) LispLayout.nil, .storeExt 0 (consAt 0),
        .pin (consAt 0)] ++ [.evacuate .G0 .G0 [.ext 0]])).map fun _ => true) = some true := by
    decide +kernel
  obtain ⟨w', hrun', -⟩ := Option.map_eq_some_iff.1 hrun
  obtain ⟨w₁, hw₁, hallowed, hstep⟩ := run_snoc hrun'
  rw [run_of_runIf hw] at hw₁
  cases hw₁
  have hreached := runIf_reached plannedRequest_of_plans (lispWorld_reached [] (by decide)) hw
  obtain ⟨T, hW⟩ := planned_runs_settled hreached
  exact ⟨w, w', run_of_runIf hw, hstep, compaction_preserves_graph hreached
    (smallEvacuation_of_onlySmall (hW.sound hpre.2) (by decide) hpre.1 hallowed) hpre.2 hstep⟩

/-! ### Two objects in one place

A page that an earlier collection filled and then released as one of its from-pages has two owners:
the cons lies inside the string, and is not copied. -/

/-- No object outside `g` holds a pointer to an object. -/
def noPointersOutside (L : HeapLayout) (w : World) (g : Generation) : Bool :=
  w.edgesMeet L (fun q => if (w.heap.descs q).generation = g then 0 else pageSizeCells)
    fun _ _ _ => false

theorem slotsCover_of_noPointers (hconf : w.heap.pool.Confined)
    (hcheck : w.noPointersOutside L g = true) : SlotsCover L w.heap g slots := by
  intro x o i t ho hne hptr hpointee
  have hscan : x % pageSizeCells < (fun q => if (w.heap.descs q).generation = g then 0
      else pageSizeCells) (x / pageSizeCells) := by
    show _ < if w.heap.genAt x = g then 0 else pageSizeCells
    rw [if_neg hne]
    exact Nat.mod_lt _ (by decide)
  cases edge_meets hconf hcheck hscan ho hptr hpointee

def twoOwnersOps : List Op :=
  [.allocLarge .G0 (heapHeader .String 16383),
    .allocCons .G0 (LispLayout.fixnum 1) LispLayout.nil,
    .storeExt 0 (consAt 16384),
    .collectMinor [0],
    .allocCons .G1 (LispLayout.fixnum 2) LispLayout.nil,
    .allocBoxed .G0 (heapHeader .String 3),
    .allocCons .G0 (LispLayout.fixnum 3) LispLayout.nil,
    .storeExt 0 (boxAt 8192),
    .storeExt 1 (consAt 8194)]

theorem compaction_loses_object : ¬ ∀ w g slots w', Reachable lispLayout w →
    SmallEvacuation lispLayout w g g slots → w.step lispLayout (.evacuate g g slots) = .ok w' →
      Compacted lispLayout w w' g slots := by
  intro hall
  have hrun : (((lispWorld 4 []).run lispLayout
      (twoOwnersOps ++ [.evacuate .G0 .G0 [.ext 0, .ext 1]])).map fun w' =>
        decide (w'.heap.pointee lispLayout (w'.ext 1) = none)) = some true := by
    decide +kernel
  obtain ⟨w', hrun', hafter⟩ := Option.map_eq_some_iff.1 hrun
  obtain ⟨w, hw, hallowed, hstep⟩ := run_snoc hrun'
  have hpre : (((lispWorld 4 []).run lispLayout twoOwnersOps).map fun w =>
      w.noPointersOutside lispLayout .G0 && decide (w.heap.nPages = 4) && ((List.range 4).all fun q =>
          decide ((w.heap.descs q).generation ≠ .G0) || decide ((w.heap.descs q).kind = .Boxed)) &&
        (decide (w.heap.pointee lispLayout (w.ext 1) = some 8194) &&
          decide (w.heap.genAt 8194 = .G0))) = some true := by
    decide +kernel
  rw [hw, Option.map_some, Option.some.injEq] at hpre
  simp only [Bool.and_eq_true, decide_eq_true_eq] at hpre hafter
  obtain ⟨⟨⟨hcells, hn⟩, hpages⟩, hroot, hgen⟩ := hpre
  have hreachable := run_reachable (lispWorld_reached [] (by decide)) hw
  have hconf := hreachable.driven.confined (fun k => congrFun (run_fixed hw).2 k)
  have hcall : SmallEvacuation lispLayout w .G0 .G0 [.ext 0, .ext 1] := by
    refine ⟨hallowed, fun q hq => ?_, slotsCover_of_noPointers hconf hcells⟩
    by_cases hlt : q < 4
    · have hcheck := List.all_eq_true.1 hpages q (List.mem_range.2 hlt)
      rw [Bool.or_eq_true, decide_eq_true_eq, decide_eq_true_eq] at hcheck
      exact Or.inr (hcheck.resolve_left fun hne => hne hq)
    · have hfree : (w.heap.descs q).generation = .Free :=
        hconf q (show w.heap.nPages ≤ q by rw [hn]; exact Nat.le_of_not_lt hlt)
      rw [hq] at hfree
      cases hfree
  obtain ⟨F, hF, -⟩ := hall w .G0 [.ext 0, .ext 1] w' hreachable hcall hstep
  obtain ⟨d, -, -, hd⟩ := hF.slots 1 8194 (List.mem_cons_of_mem _ List.mem_cons_self) hroot hgen
  rw [hafter] at hd
  cases hd

end World

end NewGc
