import NewGc.Requests

/-!
# Passes — the evacuations of a cycle, one after the other

An evacuation of a heap in order ends in a heap in order; a logical cycle is one to three of them.
What a pass does to objects and pages is its `PassStep`; a cycle is read off its steps.
-/

namespace NewGc

open Library PageHeap

/-! ## One evacuation -/

/-- One evacuation, from the heap after step 1 to its end. -/
structure PassStep (L : HeapLayout) (h : PageHeap) (T : ObjTable) (g dest : Generation)
    (v : RootVisitor) (marked : Nat → Prop) (hm : PageHeap) (s : ChunkState) (T' : ObjTable)
    (F : Forwarding) (r : EvacResult × PageHeap × (Nat → Word)) : Prop where
  shape : Shape L h T Forwarding.empty
  prepared : Prepared L h T g marked hm
  start : LoopStart L (hm.chunkParams g dest v) (hm.resetAllocRegions g) T
  ended : PassEnd L (hm.chunkParams g dest v) (hm.resetAllocRegions g) T s T' F r

namespace PassStep

variable {L : HeapLayout} {h hm : PageHeap} {T T' : ObjTable} {g dest : Generation}
  {v : RootVisitor} {marked : Nat → Prop} {s : ChunkState} {F : Forwarding}
  {r : EvacResult × PageHeap × (Nat → Word)}

theorem evacuated (hP : PassStep L h T g dest v marked hm s T' F r) :
    Evacuating L (hm.chunkParams g dest v) (hm.resetAllocRegions g) T s T' F := hP.ended.evacuated

theorem done (hP : PassStep L h T g dest v marked hm s T' F r) (q : Nat) : q ∉ s.rest := by
  rw [hP.ended.done]
  exact List.not_mem_nil

/-- The end of an evacuation differs from the loop's last heap in marks and counts alone. -/
theorem descs (hP : PassStep L h T g dest v marked hm s T' F r) : r.2.1.descs = s.heap.descs := by
  rw [hP.ended.heap]
  rfl

theorem mem (hP : PassStep L h T g dest v marked hm s T' F r) : r.2.1.mem = s.heap.mem := by
  rw [hP.ended.heap]
  rfl

theorem pinnedCells (hP : PassStep L h T g dest v marked hm s T' F r) :
    r.2.1.pinnedCells = hm.pinnedCells := by
  have heq : r.2.1.pinnedCells = s.heap.pinnedCells := by
    rw [hP.ended.heap]
    rfl
  exact heq.trans hP.evacuated.control.pinnedCells

theorem explicitCells (hP : PassStep L h T g dest v marked hm s T' F r) :
    r.2.1.explicitCells = h.explicitCells := by
  have heq : r.2.1.explicitPins = s.heap.explicitPins := by
    rw [hP.ended.heap]
    rfl
  have hcontrol : s.heap.explicitPins = hm.explicitPins := hP.evacuated.control.explicitPins
  unfold PageHeap.explicitCells
  rw [heq, hcontrol, hP.prepared.explicitPins]

/-- A pinned object whose page bit is set stays where it is. -/
theorem pinned_stays (hP : PassStep L h T g dest v marked hm s T' F r) {c : Nat} {o : ObjInfo}
    (hT : T c = some o) (hpin : c ∈ hm.pinnedCells)
    (hbits : (hm.descs (c / pageSizeCells)).hasPins = true) : F c = some c := by
  have hE := hP.evacuated
  by_cases hgen : (hm.resetAllocRegions g).genAt c = g
  · refine hE.stays c o hT hgen (hP.done _) ⟨hbits, Or.inr ?_⟩
    exact (hP.start.listed c).2 hpin
  · exact hE.waiting c o hT (Or.inl hgen)

/-- What became of a page of a pinned object. -/
theorem page_pinned (hP : PassStep L h T g dest v marked hm s T' F r) {q : Nat}
    (hlive : (h.descs q).generation ≠ .Free) (hk : (h.descs q).kind ≠ .Large)
    (hbits : (hm.descs q).hasPins = true) : (r.2.1.descs q).pinByte = (hm.descs q).pinByte := by
  have hrole := hP.prepared.objects.role q
  have hlive₀ : ((hm.resetAllocRegions g).descs q).generation ≠ .Free := by
    show (hm.descs q).generation ≠ .Free
    rw [hrole.generation]
    exact hlive
  have hk₀ : ((hm.resetAllocRegions g).descs q).kind ≠ .Large := by
    show (hm.descs q).kind ≠ .Large
    rw [hrole.kind]
    exact hk
  have hfate := hP.evacuated.small q hlive₀ hk₀
  rw [hP.descs]
  by_cases hgen : ((hm.resetAllocRegions g).descs q).generation = g
  · have hA := hfate.flipped hgen (hP.done q) hbits
    rw [hA.pinByte]
    unfold PageDesc.reclaimed
    rw [if_pos rfl]
    exact if_neg hk₀
  · exact (hfate.kept (Or.inl hgen)).pinByte

/-- The heap after an evacuation is ready for the next one. -/
theorem next (hP : PassStep L h T g dest v marked hm s T' F r) : PassOk L r.2.1 T' where
  shape := by
    rw [hP.ended.heap]
    exact hP.evacuated.shape.congr rfl rfl (fun _ => PageDesc.SameRole.refl _) rfl rfl rfl
      fun _ => Or.inl
  regions := by
    rw [hP.ended.heap]
    exact hP.evacuated.regions
  pins := by
    intro c hc
    rw [hP.ended.heap] at hc ⊢
    exact hP.evacuated.pins c hc
  explicit := by
    intro e he
    rw [hP.explicitCells] at he
    obtain ⟨⟨hobj, hpage⟩, hpin, hbit⟩ := hP.prepared.explicit e he
    obtain ⟨o, ho⟩ := Option.isSome_iff_exists.1 hobj
    have hbits := PageDesc.hasPins_of_isPinned hbit
    have hF := hP.pinned_stays ho hpin hbits
    obtain ⟨o', -, ho'⟩ := hP.evacuated.fate_some e e hF
    refine ⟨Option.isSome_of_eq_some ho', ?_⟩
    intro hk c hc hce
    rw [hP.pinnedCells] at hc
    have hlive : (h.descs (e / pageSizeCells)).generation ≠ .Free := hP.shape.live ho
    by_cases hlarge : h.kindAt e = .Large
    · -- a large run stays one when it is flipped
      exfalso
      have hL := (hP.shape.obj e o ho).large hlarge
      have hrole := hP.prepared.objects.role (e / pageSizeCells)
      have hk₀ : ((hm.resetAllocRegions g).descs (e / pageSizeCells)).kind = .Large :=
        hrole.kind.trans hlarge
      have hn₀ : 1 ≤ ((hm.resetAllocRegions g).descs (e / pageSizeCells)).nSpan := by
        show 1 ≤ (hm.descs (e / pageSizeCells)).nSpan
        rw [hrole.nSpan]
        exact hL.2.2.1
      have hfate := hP.evacuated.run _ _ hk₀ hn₀ (Nat.le_refl _) (by omega)
      refine hk ?_
      unfold PageHeap.kindAt
      rw [hP.descs]
      by_cases hgen : ((hm.resetAllocRegions g).descs (e / pageSizeCells)).generation = g
      · rw [(hfate.flipped hgen (hP.done _) hbits).kind]
        unfold PageDesc.reclaimed
        rw [if_pos rfl]
        exact hk₀
      · rw [(hfate.kept (Or.inl hgen)).kind]
        exact hk₀
    · have hsmall : hm.kindAt e ≠ .Large := by
        rw [hP.prepared.objects.kindAt]
        exact hlarge
      have hbyte := hP.page_pinned hlive hlarge hbits
      have hcbit := hpage hsmall c hc hce
      rw [hce] at hcbit ⊢
      unfold PageDesc.isPinned at hcbit ⊢
      rw [hbyte]
      exact hcbit
  inactive := by
    rw [hP.ended.heap]
    rfl

end PassStep

/-! ## Running an evacuation -/

/-- The condition on an evacuation: no chunk opens a page that the snapshot still lists, and
no header-bearing object that is about to move lies where the card filters scan. -/
def PassSafe (L : HeapLayout) (h : PageHeap) (ext : Nat → Word) (g dest : Generation)
    (slots : List Slot) (filters : List (Nat → PageDesc)) : Prop :=
  PassMeets L h ext g dest (passVisitor L slots filters) (NoReuse L) ∧
    ∀ hm ext', h.markAndPin L ext g dest (passVisitor L slots filters) = .ok (hm, ext') →
      ∀ D ∈ filters, FilterSafe hm (hm.objAt L) g D

section Run

variable {L : HeapLayout} {h : PageHeap} {T : ObjTable} {ext : Nat → Word} {g dest : Generation}
  {slots : List Slot} {filters : List (Nat → PageDesc)}

/-- The table of a heap is what the heap shows. -/
theorem Shape.table_eq (hS : Shape L h T Forwarding.empty) : h.objAt L = T :=
  funext hS.objAt_eq

theorem slotSafe_congr {hm : PageHeap} (hO : SameObjects h hm) {s : Slot}
    (hs : SlotSafe h T g s) : SlotSafe hm T g s := by
  cases s with
  | ext a => trivial
  | cell c =>
      obtain ⟨x, o, i, hx, hgen, hptr, rfl⟩ := hs
      exact ⟨x, o, i, hx, by rwa [hO.genAt], hptr, rfl⟩

/-- The objects a pass marks. -/
abbrev PassMarked (L : HeapLayout) (h : PageHeap) (T : ObjTable) (ext : Nat → Word)
    (g : Generation) (slots : List Slot) (filters : List (Nat → PageDesc)) : Nat → Prop :=
  MarkedFrom L h T ext g (passSlots h T g slots filters)

theorem Prepared.sameReset {marked : Nat → Prop} {hm : PageHeap}
    (hM : Prepared L h T g marked hm) : SameObjects h (hm.resetAllocRegions g) :=
  ⟨hM.objects.base, hM.objects.nPages, hM.objects.mem, hM.objects.startBits, hM.objects.role,
    hM.objects.committed, hM.objects.cards⟩

/-- An evacuation whose step 1 is done runs out of memory or takes a step, along which it keeps what
every chunk keeps. -/
theorem Prepared.evacuate {marked : Nat → Prop} {hm : PageHeap}
    {Q : ChunkState → ObjTable → Forwarding → Prop}
    (hM : Prepared L h T g marked hm) (hshape : Shape L h T Forwarding.empty)
    (hmark : h.markAndPin L ext g dest (passVisitor L slots filters) = .ok (hm, ext))
    (hX : LoopStart L (hm.chunkParams g dest (passVisitor L slots filters))
      (hm.resetAllocRegions g) T)
    (hslots : ∀ s ∈ slots, SlotSafe h T g s) (hsafe : PassSafe L h ext g dest slots filters)
    (hQ₀ : Q (hm.chunkStart ext g) T (Forwarding.still T))
    (hQ : ∀ s T₁ F s' T₂ K,
      Evacuating L (hm.chunkParams g dest (passVisitor L slots filters)) (hm.resetAllocRegions g)
        T s T₁ F →
      ChunkResult L (hm.chunkParams g dest (passVisitor L slots filters)) (· ∈ slots) s T₁ s' T₂ K →
      Q s T₁ F →
      Q s' T₂ (Evacuating.advance (hm.chunkParams g dest (passVisitor L slots filters)) s F K)) :
    Outcome GcPanic.IsOom (h.evacuateWithRoots L ext g dest (passVisitor L slots filters)) fun r =>
      ∃ s T' F, PassStep L h T g dest (passVisitor L slots filters) marked hm s T' F r ∧
        Q s T' F := by
  have hvisit : VisitOk (hm.resetAllocRegions g) T g slots filters := by
    refine ⟨fun s hs => slotSafe_congr hM.sameReset (hslots s hs), fun D hD => ?_⟩
    have hfilter := hsafe.2 hm ext hmark D hD
    rw [(hM.objects.shape hshape).table_eq] at hfilter
    intro c hto hk
    exact hfilter c ⟨hto.object, hto.generation, hto.small, hto.marked, hto.unpinned⟩ hk
  have hserves : Serves L (hm.chunkParams g dest (passVisitor L slots filters))
      (hm.resetAllocRegions g) T (· ∈ slots) :=
    serves_passVisitor hX.shape rfl hvisit
  refine (hX.evacuate hX.fromLive hX.destLive hmark hserves (fun _ _ hC => hC) hsafe.1 hQ₀
    (fun s T₁ F s' T₂ K hE _ hR hq => hQ s T₁ F s' T₂ K hE hR hq)).mono ?_
  rintro r ⟨s, T', F, hend, hq⟩
  exact ⟨s, T', F, ⟨hshape, hM, hX, hend⟩, hq⟩

/-- An evacuation of a heap in order runs out of memory or takes a step, along which it keeps what
every chunk keeps. -/
theorem PassOk.evacuate {Q : ChunkParams → ChunkState → ObjTable → Forwarding → Prop}
    (hP : PassOk L h T) (hg : g ≠ .Free) (hd : dest ≠ .Free)
    (hslots : ∀ s ∈ slots, SlotSafe h T g s) (hsafe : PassSafe L h ext g dest slots filters)
    (hQ₀ : ∀ hm, h.markAndPin L ext g dest (passVisitor L slots filters) = .ok (hm, ext) →
      Prepared L h T g (PassMarked L h T ext g slots filters) hm →
      Q (hm.chunkParams g dest (passVisitor L slots filters)) (hm.chunkStart ext g) T
        (Forwarding.still T))
    (hQ : ∀ hm s T₁ F s' T₂ K,
      Prepared L h T g (PassMarked L h T ext g slots filters) hm →
      Evacuating L (hm.chunkParams g dest (passVisitor L slots filters)) (hm.resetAllocRegions g)
        T s T₁ F →
      ChunkResult L (hm.chunkParams g dest (passVisitor L slots filters)) (· ∈ slots) s T₁ s' T₂ K →
      Q (hm.chunkParams g dest (passVisitor L slots filters)) s T₁ F →
      Q (hm.chunkParams g dest (passVisitor L slots filters)) s' T₂
        (Evacuating.advance (hm.chunkParams g dest (passVisitor L slots filters)) s F K)) :
    Outcome GcPanic.IsOom (h.evacuateWithRoots L ext g dest (passVisitor L slots filters)) fun r =>
      ∃ hm s T' F, PassStep L h T g dest (passVisitor L slots filters)
        (PassMarked L h T ext g slots filters) hm s T' F r ∧
          Q (hm.chunkParams g dest (passVisitor L slots filters)) s T' F := by
  obtain ⟨hm, hmark, hM⟩ := markAndPin_prepared dest hP hg
    (shows_mark ext dest hP.shape hg hslots)
  refine (hM.evacuate hP.shape hmark (hP.loopStart _ hM hg hd) hslots hsafe (hQ₀ hm hmark hM)
    (fun s T₁ F s' T₂ K hE hR hq => hQ hm s T₁ F s' T₂ K hM hE hR hq)).mono ?_
  rintro r ⟨s, T', F, hstep, hq⟩
  exact ⟨hm, s, T', F, hstep, hq⟩

/-- An evacuation of a heap in order runs out of memory or takes a step. -/
theorem PassOk.evacuates (hP : PassOk L h T) (hg : g ≠ .Free) (hd : dest ≠ .Free)
    (hslots : ∀ s ∈ slots, SlotSafe h T g s) (hsafe : PassSafe L h ext g dest slots filters) :
    Outcome GcPanic.IsOom (h.evacuateWithRoots L ext g dest (passVisitor L slots filters)) fun r =>
      ∃ hm s T' F, PassStep L h T g dest (passVisitor L slots filters)
        (PassMarked L h T ext g slots filters) hm s T' F r := by
  refine (hP.evacuate (Q := fun _ _ _ _ => True) hg hd hslots hsafe (fun _ _ _ => trivial)
    (fun _ _ _ _ _ _ _ _ _ _ _ => trivial)).mono ?_
  rintro r ⟨hm, s, T', F, hstep, -⟩
  exact ⟨hm, s, T', F, hstep⟩

end Run

/-! ## What passes carry over -/

/-- The generations of the pages after a pass. -/
def GenerationsAfter (h h' : PageHeap) (g dest : Generation) : Prop :=
  ∀ q, (h'.descs q).generation = .Free ∨ (h'.descs q).generation = dest ∨
    ((h'.descs q).generation = (h.descs q).generation ∧ (h.descs q).generation ≠ g)

/-- What became of the large run headed by `head`: it is a run still, in one generation, or none of
its pages is large any more. -/
def RunCarried (h h' : PageHeap) (head : Nat) : Prop :=
  (∃ g, g ≠ .Free ∧ ∀ q, OnRun head (h.descs head).nSpan q →
    (h'.descs q).kind = .Large ∧ (h'.descs q).generation = g ∧
      (h'.descs q).nSpan = (h.descs q).nSpan) ∨
    ∀ q, OnRun head (h.descs head).nSpan q → (h'.descs q).kind ≠ .Large

/-- What one or more evacuations make of a heap: `F` says where each object is now. -/
structure Carried (L : HeapLayout) (h : PageHeap) (T : ObjTable) (h' : PageHeap) (T' : ObjTable)
    (F : Forwarding) : Prop where
  nPages : h'.nPages = h.nPages
  base : h'.base = h.base
  fate_some : ∀ c c', F c = some c' → ∃ o, T c = some o ∧ T' c' = some o
  fate_inj : ∀ c d e, F c = some e → F d = some e → c = d
  fate_onto : ∀ c' o, T' c' = some o → ∃ c, F c = some c'
  plain : ∀ c c' o i, F c = some c' → T c = some o → i < o.totalCells → h.PlainCell L c o i →
    h'.mem (c' + i) = h.mem (c + i)
  explicitCells : h'.explicitCells = h.explicitCells
  explicit : ∀ e ∈ h.explicitCells, F e = some e
  pinned : ∀ c ∈ h.pinnedCells, (T c).isSome → h.kindAt c ≠ .Large →
    (h.descs (c / pageSizeCells)).isPinned (pinSlot c) = true →
    F c = some c ∧ c ∈ h'.pinnedCells ∧ h'.kindAt c ≠ .Large ∧
      (h'.descs (c / pageSizeCells)).isPinned (pinSlot c) = true
  runs : ∀ head, (h.descs head).kind = .Large → 1 ≤ (h.descs head).nSpan → RunCarried h h' head
  large : ∀ q, (h'.descs q).kind = .Large → (h.descs q).kind = .Large ∧
    (h'.descs q).nSpan = (h.descs q).nSpan

namespace Carried

variable {L : HeapLayout} {h h' h'' : PageHeap} {T T' T'' : ObjTable} {F G : Forwarding}

/-- Where objects are after two passes. -/
def comp (F G : Forwarding) : Forwarding := fun c => (F c).bind G

theorem comp_some {c e : Nat} : comp F G c = some e ↔ ∃ d, F c = some d ∧ G d = some e :=
  Option.bind_eq_some_iff

theorem trans (hF : Carried L h T h' T' F) (hG : Carried L h' T' h'' T'' G) :
    Carried L h T h'' T'' (comp F G) where
  nPages := hG.nPages.trans hF.nPages
  base := hG.base.trans hF.base
  fate_some := by
    intro c e he
    obtain ⟨d, hd, he'⟩ := comp_some.1 he
    obtain ⟨o, hT, hT'⟩ := hF.fate_some c d hd
    obtain ⟨o', ho', hT''⟩ := hG.fate_some d e he'
    rw [hT'] at ho'
    cases ho'
    exact ⟨o, hT, hT''⟩
  fate_inj := by
    intro c₁ c₂ e h₁ h₂
    obtain ⟨d₁, hd₁, he₁⟩ := comp_some.1 h₁
    obtain ⟨d₂, hd₂, he₂⟩ := comp_some.1 h₂
    have hd := hG.fate_inj d₁ d₂ e he₁ he₂
    subst hd
    exact hF.fate_inj c₁ c₂ d₁ hd₁ hd₂
  fate_onto := by
    intro e o ho
    obtain ⟨d, hd⟩ := hG.fate_onto e o ho
    obtain ⟨o', hT', -⟩ := hG.fate_some d e hd
    obtain ⟨c, hc⟩ := hF.fate_onto d o' hT'
    exact ⟨c, comp_some.2 ⟨d, hc, hd⟩⟩
  plain := by
    intro c e o i he hT hi hplain
    obtain ⟨d, hd, he'⟩ := comp_some.1 he
    obtain ⟨o', hT₁, hT'⟩ := hF.fate_some c d hd
    rw [hT] at hT₁
    cases hT₁
    have hfirst := hF.plain c d o i hd hT hi hplain
    have hplain' := (plainCell_congr hF.base hF.nPages hfirst).2 hplain
    exact (hG.plain d e o i he' hT' hi hplain').trans hfirst
  explicitCells := hG.explicitCells.trans hF.explicitCells
  explicit := by
    intro e he
    exact comp_some.2 ⟨e, hF.explicit e he, hG.explicit e (hF.explicitCells ▸ he)⟩
  pinned := by
    intro c hc hsome hk hbit
    obtain ⟨hFc, hc', hk', hbit'⟩ := hF.pinned c hc hsome hk hbit
    obtain ⟨o, -, hT'⟩ := hF.fate_some c c hFc
    obtain ⟨hGc, hrest⟩ := hG.pinned c hc' (Option.isSome_of_eq_some hT') hk' hbit'
    exact ⟨comp_some.2 ⟨c, hFc, hGc⟩, hrest⟩
  runs := by
    intro head hk hn
    have hhead : OnRun head (h.descs head).nSpan head := by unfold OnRun; omega
    rcases hF.runs head hk hn with ⟨g, -, hin⟩ | hgone
    · obtain ⟨hk', -, hn'⟩ := hin head hhead
      have hspan : (h'.descs head).nSpan = (h.descs head).nSpan := hn'
      rcases hG.runs head hk' (by rw [hspan]; exact hn) with ⟨g', hg', hin'⟩ | hgone'
      · left
        rw [hspan] at hin'
        refine ⟨g', hg', fun q hq => ?_⟩
        obtain ⟨hkq, hgq, hnq⟩ := hin' q hq
        exact ⟨hkq, hgq, hnq.trans (hin q hq).2.2⟩
      · right
        rw [hspan] at hgone'
        exact hgone'
    · -- no page becomes large in a pass
      right
      exact fun q hq hkq => hgone q hq (hG.large q hkq).1
  large := by
    intro q hkq
    obtain ⟨hkq', hnq'⟩ := hG.large q hkq
    obtain ⟨hk, hn⟩ := hF.large q hkq'
    exact ⟨hk, hnq'.trans hn⟩

/-- The counters and the cards are none of what is carried. -/
theorem congr_right (hF : Carried L h T h' T' F) (hdescs : h''.descs = h'.descs)
    (hmem : h''.mem = h'.mem) (hpins : h''.pinnedCells = h'.pinnedCells)
    (hexplicit : h''.explicitPins = h'.explicitPins) (hn : h''.nPages = h'.nPages)
    (hbase : h''.base = h'.base) : Carried L h T h'' T' F where
  nPages := hn.trans hF.nPages
  base := hbase.trans hF.base
  fate_some := hF.fate_some
  fate_inj := hF.fate_inj
  fate_onto := hF.fate_onto
  plain := by
    rw [hmem]
    exact hF.plain
  explicitCells := by
    have hcells : h''.explicitCells = h'.explicitCells := by
      unfold PageHeap.explicitCells
      rw [hexplicit]
    exact hcells.trans hF.explicitCells
  explicit := hF.explicit
  pinned := by
    intro c hc hsome hk hbit
    unfold PageHeap.kindAt
    rw [hdescs, hpins]
    exact hF.pinned c hc hsome hk hbit
  runs := by
    unfold RunCarried
    rw [hdescs]
    exact hF.runs
  large := by
    rw [hdescs]
    exact hF.large

theorem congr_left (hF : Carried L h' T h'' T'' F) (hdescs : h'.descs = h.descs)
    (hmem : h'.mem = h.mem) (hpins : h'.pinnedCells = h.pinnedCells)
    (hexplicit : h'.explicitPins = h.explicitPins) (hn : h'.nPages = h.nPages)
    (hbase : h'.base = h.base) : Carried L h T h'' T'' F := by
  have hcells : h'.explicitCells = h.explicitCells := by
    unfold PageHeap.explicitCells
    rw [hexplicit]
  refine ⟨hF.nPages.trans hn, hF.base.trans hbase, hF.fate_some, hF.fate_inj, hF.fate_onto, ?_,
    hF.explicitCells.trans hcells, ?_, ?_, ?_, ?_⟩
  · intro c c' o i hc hT hi hplain
    rw [← hmem]
    exact hF.plain c c' o i hc hT hi ((plainCell_congr hbase hn (congrFun hmem (c + i))).2 hplain)
  · rw [← hcells]
    exact hF.explicit
  · have hpinned := hF.pinned
    unfold PageHeap.kindAt at hpinned ⊢
    rw [hdescs, hpins] at hpinned
    exact hpinned
  · have hruns := hF.runs
    unfold RunCarried at hruns ⊢
    rw [hdescs] at hruns
    exact hruns
  · rw [← hdescs]
    exact hF.large

end Carried

/-- A page that was released, and perhaps opened again since, is no page of a run. -/
theorem Reusable.not_large {p : ChunkParams} {h : PageHeap} {T : ObjTable} {rest : List Nat}
    {q : Nat} (hP : PagesOk h) (hR : Reusable p h T rest q) : (h.descs q).kind ≠ .Large := by
  rcases hR with hfree | ⟨-, hk, -⟩
  · rw [(hP.kindFree q).2 hfree]
    decide
  · exact hk

namespace PassStep

variable {L : HeapLayout} {h hm : PageHeap} {T T' : ObjTable} {g dest : Generation}
  {v : RootVisitor} {marked : Nat → Prop} {s : ChunkState} {F : Forwarding}
  {r : EvacResult × PageHeap × (Nat → Word)}

/-- The fate of a large run. -/
theorem run_fate (hP : PassStep L h T g dest v marked hm s T' F r) (hd : dest ≠ .Free) {head : Nat}
    (hk : (h.descs head).kind = .Large) (hn : 1 ≤ (h.descs head).nSpan) :
    RunCarried h r.2.1 head := by
  have hpages := hP.shape.pages
  have hrole := hP.prepared.objects.role
  have hE := hP.evacuated
  have hk₀ : ((hm.resetAllocRegions g).descs head).kind = .Large := (hrole head).kind.trans hk
  have hspan : ((hm.resetAllocRegions g).descs head).nSpan = (h.descs head).nSpan :=
    (hrole head).nSpan
  have hlive : (h.descs head).generation ≠ .Free := by
    intro hfree
    rw [(hpages.kindFree head).2 hfree] at hk
    cases hk
  have hfate : ∀ q, OnRun head (h.descs head).nSpan q →
      PageFate (hm.chunkParams g dest v) (hm.resetAllocRegions g) s.heap T' s.rest head q := by
    intro q hq
    exact hE.run head q hk₀ (by rw [hspan]; exact hn) hq.1 (by rw [hspan]; exact hq.2)
  have hpage : ∀ q, OnRun head (h.descs head).nSpan q →
      ((hm.resetAllocRegions g).descs q).kind = .Large ∧
        ((hm.resetAllocRegions g).descs q).generation = (h.descs head).generation ∧
          ((hm.resetAllocRegions g).descs q).nSpan = (h.descs q).nSpan := by
    intro q hq
    obtain ⟨hkq, hgq⟩ := hpages.run_page hk hq
    exact ⟨(hrole q).kind.trans hkq, (hrole q).generation.trans hgq, (hrole q).nSpan⟩
  unfold RunCarried
  rw [hP.descs]
  by_cases hgen : ((hm.resetAllocRegions g).descs head).generation = g
  · by_cases hbits : ((hm.resetAllocRegions g).descs head).hasPins = true
    · left
      refine ⟨dest, hd, fun q hq => ?_⟩
      have hA := (hfate q hq).flipped hgen (hP.done head) hbits
      obtain ⟨hkq, -, hnq⟩ := hpage q hq
      rw [hA.kind, hA.generation, hA.nSpan]
      unfold PageDesc.reclaimed
      rw [if_pos rfl]
      exact ⟨hkq, rfl, hnq⟩
    · right
      intro q hq
      exact Reusable.not_large hE.shape.pages
        ((hfate q hq).released hgen (hP.done head) (by simpa using hbits))
  · left
    refine ⟨(h.descs head).generation, hlive, fun q hq => ?_⟩
    have hA := (hfate q hq).kept (Or.inl hgen)
    obtain ⟨hkq, hgq, hnq⟩ := hpage q hq
    rw [hA.kind, hA.generation, hA.nSpan]
    exact ⟨hkq, hgq, hnq⟩

/-- A page that is large after the pass was large before it. -/
theorem large_before (hP : PassStep L h T g dest v marked hm s T' F r) {q : Nat}
    (hkq : (r.2.1.descs q).kind = .Large) : (h.descs q).kind = .Large := by
  have hE := hP.evacuated
  have hrole := hP.prepared.objects.role q
  rw [hP.descs] at hkq
  by_contra hk
  have hk₀ : ((hm.resetAllocRegions g).descs q).kind ≠ .Large := by
    show (hm.descs q).kind ≠ .Large
    rw [hrole.kind]
    exact hk
  by_cases hfree : ((hm.resetAllocRegions g).descs q).generation = .Free
  · exact Reusable.not_large hE.shape.pages (hE.free q hfree) hkq
  · have hfate := hE.small q hfree hk₀
    by_cases hgen : ((hm.resetAllocRegions g).descs q).generation = g
    · by_cases hbits : ((hm.resetAllocRegions g).descs q).hasPins = true
      · rw [(hfate.flipped hgen (hP.done q) hbits).kind] at hkq
        unfold PageDesc.reclaimed at hkq
        rw [if_pos rfl] at hkq
        exact hk₀ hkq
      · exact Reusable.not_large hE.shape.pages
          (hfate.released hgen (hP.done q) (by simpa using hbits)) hkq
    · rw [(hfate.kept (Or.inl hgen)).kind] at hkq
      exact hk₀ hkq

theorem carried (hP : PassStep L h T g dest v marked hm s T' F r) (hd : dest ≠ .Free) :
    Carried L h T r.2.1 T' F where
  nPages := by
    have heq : r.2.1.nPages = s.heap.nPages := by rw [hP.ended.heap]; rfl
    exact heq.trans (hP.evacuated.control.nPages.trans hP.prepared.objects.nPages)
  base := by
    have heq : r.2.1.base = s.heap.base := by rw [hP.ended.heap]; rfl
    exact heq.trans (hP.evacuated.control.base.trans hP.prepared.objects.base)
  fate_some := hP.evacuated.fate_some
  fate_inj := hP.evacuated.fate_inj
  fate_onto := hP.evacuated.fate_onto
  plain := by
    intro c c' o i hF hT hi hplain
    have hO := hP.prepared.objects
    have hmem : (hm.resetAllocRegions g).mem (c + i) = h.mem (c + i) := congrFun hO.mem (c + i)
    rw [hP.mem, hP.evacuated.plain c c' o i hF hT hi ?_]
    · exact hmem
    · intro hptr t ht
      have hnone : (hm.resetAllocRegions g).PlainCell L c o i :=
        (plainCell_congr hO.base hO.nPages hmem).2 hplain
      rw [hnone hptr] at ht
      cases ht
  explicitCells := hP.explicitCells
  explicit := by
    intro e he
    obtain ⟨⟨hobj, -⟩, hpin, hbit⟩ := hP.prepared.explicit e he
    obtain ⟨o, ho⟩ := Option.isSome_iff_exists.1 hobj
    exact hP.pinned_stays ho hpin (PageDesc.hasPins_of_isPinned hbit)
  pinned := by
    intro c hc hsome hk hbit
    obtain ⟨o, ho⟩ := Option.isSome_iff_exists.1 hsome
    have hbit' := hP.prepared.bits c hk hbit
    have hbits := PageDesc.hasPins_of_isPinned hbit'
    have hpin := hP.prepared.pinned c hc
    refine ⟨hP.pinned_stays ho hpin hbits, ?_, ?_, ?_⟩
    · rw [hP.pinnedCells]
      exact hpin
    · exact fun hkc => hk (hP.large_before hkc)
    · unfold PageDesc.isPinned at hbit' ⊢
      rw [hP.page_pinned (hP.shape.live ho) hk hbits]
      exact hbit'
  runs := fun head hk hn => hP.run_fate hd hk hn
  large := by
    intro q hkq
    have hk := hP.large_before hkq
    refine ⟨hk, ?_⟩
    obtain ⟨head, hkh, hnh, hle, hlt⟩ := hP.shape.pages.exists_head hk
    rcases hP.run_fate hd hkh hnh with ⟨g', -, hin⟩ | hgone
    · exact (hin q ⟨hle, hlt⟩).2.2
    · exact absurd hkq (hgone q ⟨hle, hlt⟩)

/-- A run that is there after the pass has stayed in its generation, or joined the destination. -/
theorem run_generation (hP : PassStep L h T g dest v marked hm s T' F r) {head : Nat}
    (hk : (r.2.1.descs head).kind = .Large) (hn : 1 ≤ (h.descs head).nSpan) :
    (r.2.1.descs head).generation =
      if (h.descs head).generation = g then dest else (h.descs head).generation := by
  have hO := hP.prepared.sameReset
  have hk₀ := (hO.role head).kind.trans (hP.large_before hk)
  have hn₀ : 1 ≤ ((hm.resetAllocRegions g).descs head).nSpan := by
    rw [(hO.role head).nSpan]
    exact hn
  have hfate := hP.evacuated.run head head hk₀ hn₀ (Nat.le_refl _) (by omega)
  rw [hP.descs] at hk ⊢
  rw [← hO.generation head]
  by_cases hgen : ((hm.resetAllocRegions g).descs head).generation = g
  · rw [if_pos hgen]
    cases hpins : ((hm.resetAllocRegions g).descs head).hasPins with
    | true => exact (hfate.flipped hgen (hP.done _) hpins).generation
    | false =>
        have hgone := hfate.released hgen (hP.done _) hpins
        exact absurd hk (Reusable.not_large hP.evacuated.shape.pages hgone)
  · rw [if_neg hgen]
    exact (hfate.kept (Or.inl hgen)).generation

/-- A pass empties the generation it evacuates into another one. -/
theorem generations (hP : PassStep L h T g dest v marked hm s T' F r) : GenerationsAfter h r.2.1 g dest := by
  intro q
  have hE := hP.evacuated
  have hO := hP.prepared.sameReset
  have hpages := hP.start.shape.pages
  rw [hP.descs, ← hO.generation q]
  have hreuse : Reusable (hm.chunkParams g dest v) s.heap T' s.rest q →
      (s.heap.descs q).generation = .Free ∨ (s.heap.descs q).generation = dest := by
    rintro (hfree | hopen)
    · exact Or.inl hfree
    · exact Or.inr hopen.1
  have hfate : ∀ head, ((hm.resetAllocRegions g).descs head).generation =
      ((hm.resetAllocRegions g).descs q).generation →
      PageFate (hm.chunkParams g dest v) (hm.resetAllocRegions g) s.heap T' s.rest head q →
      (s.heap.descs q).generation = .Free ∨ (s.heap.descs q).generation = dest ∨
        ((s.heap.descs q).generation = ((hm.resetAllocRegions g).descs q).generation ∧
          ((hm.resetAllocRegions g).descs q).generation ≠ g) := by
    intro head hgen hfate
    by_cases hg : ((hm.resetAllocRegions g).descs head).generation = g
    · cases hpins : ((hm.resetAllocRegions g).descs head).hasPins with
      | true =>
          right; left
          exact (hfate.flipped hg (hP.done _) hpins).generation
      | false => exact (hreuse (hfate.released hg (hP.done _) hpins)).imp_right Or.inl
    · right; right
      exact ⟨(hfate.kept (Or.inl hg)).generation, hgen ▸ hg⟩
  by_cases hfree : ((hm.resetAllocRegions g).descs q).generation = .Free
  · exact (hreuse (hE.free q hfree)).imp_right Or.inl
  · by_cases hk : ((hm.resetAllocRegions g).descs q).kind = .Large
    · obtain ⟨head, hkh, hspan, hle, hlt⟩ := hpages.exists_head hk
      exact hfate head (hpages.run_page hkh ⟨hle, hlt⟩).2.symm (hE.run head q hkh hspan hle hlt)
    · exact hfate q rfl (hE.small q hfree hk)

end PassStep

end NewGc
