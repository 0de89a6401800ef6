import NewGc.Phase3

/-!
# Chunk — one iteration of the evacuation loop

`ChunkResult` composes the three phases: which objects the chunk moved and where, which ones it
lost, what the cells of the others hold, and what became of the pages.
-/

namespace NewGc

open Library PageHeap

/-! ## Pins and cards -/

/-- An entry of the pin set: a started object whose page knows of the pin.  The head of a large run
can outlive its run; its cell is the first one of whatever the page holds now. -/
def PinOk (h : PageHeap) (T : ObjTable) (c : Nat) : Prop :=
  (h.genAt c = .Free ∧ c % pageSizeCells = 0) ∨
    ((T c).isSome ∧ (h.kindAt c = .Large ∨
      (h.descs (c / pageSizeCells)).isPinned (pinSlot c) = true ∨
      ((h.descs (c / pageSizeCells)).hasPins = false ∧ c % pageSizeCells = 0)))

/-- Every pointer cell that holds a heap pointer lies on a dirty card. -/
def CardsCover (L : HeapLayout) (h : PageHeap) (T : ObjTable) : Prop :=
  ∀ c o i, T c = some o → o.IsPtr i → (L.classify (h.mem (c + i))).pointer?.isSome = true →
    h.cards ((c + i) / cardSizeCells) = true

/-- Two descriptors agree on all an evacuation decides by. -/
structure PageDesc.Alike (d d' : PageDesc) : Prop where
  generation : d.generation = d'.generation
  kind : d.kind = d'.kind
  pinByte : d.pinByte = d'.pinByte
  nSpan : d.nSpan = d'.nSpan

namespace PageDesc.Alike

theorem refl (d : PageDesc) : d.Alike d := ⟨rfl, rfl, rfl, rfl⟩

theorem trans {d d' d'' : PageDesc} (h₁ : d.Alike d') (h₂ : d'.Alike d'') : d.Alike d'' :=
  ⟨h₁.generation.trans h₂.generation, h₁.kind.trans h₂.kind, h₁.pinByte.trans h₂.pinByte,
    h₁.nSpan.trans h₂.nSpan⟩

theorem hasPins {d d' : PageDesc} (h : d.Alike d') : d.hasPins = d'.hasPins := by
  unfold PageDesc.hasPins
  rw [h.pinByte]

theorem isPinned {d d' : PageDesc} (h : d.Alike d') (slot : Nat) :
    d.isPinned slot = d'.isPinned slot := by
  unfold PageDesc.isPinned
  rw [h.pinByte]

theorem reclaimed {d d' : PageDesc} (h : d.Alike d') (b : Bool) (g : Generation) :
    (d.reclaimed b g).Alike (d'.reclaimed b g) := by
  unfold PageDesc.reclaimed
  cases b with
  | true => exact ⟨rfl, h.kind, by simp [h.kind, h.pinByte], h.nSpan⟩
  | false => exact refl _

end PageDesc.Alike

/-- A bit of the pin byte makes the page pinned. -/
theorem PageDesc.hasPins_of_isPinned {d : PageDesc} {slot : Nat} (h : d.isPinned slot = true) :
    d.hasPins = true := by
  unfold PageDesc.isPinned at h
  unfold PageDesc.hasPins
  rw [bne_iff_ne] at h ⊢
  intro hzero
  rw [hzero] at h
  simp at h

theorem pointer?_redirect {L : HeapLayout} {h : PageHeap} {T : ObjTable} {K : Forwarding}
    (hS : Shape L h T K) (w : Word) :
    (L.classify (redirect L h K w)).pointer?.isSome = (L.classify w).pointer?.isSome := by
  cases ht : (h.targetCell L w).bind K with
  | none => rw [redirect_of_none ht]
  | some d =>
      obtain ⟨c, hc, hK⟩ := Option.bind_eq_some_iff.1 ht
      obtain ⟨o, -, hd, -⟩ := hS.moved c d hK
      obtain ⟨addr, kind, hp, -, -⟩ := targetCell_some hc
      rw [redirect_of_some hc hK, pointer?_rewriteTo hS.pages hp (hS.cell_lt hd), hp]
      rfl

/-! ## What a chunk does -/

/-- What a chunk is given: the state of the loop, the table, and a pin set the pages agree with. -/
structure ChunkReady (L : HeapLayout) (p : ChunkParams) (s : ChunkState) (T : ObjTable) : Prop where
  start : ChunkStart L p.fromGen p.destGen (s.chunk p) s.rest s.heap T
  pins : ∀ c ∈ s.heap.pinnedCells, PinOk s.heap T c
  listed : ∀ c, Listed p.pinnedWithKind c ↔ c ∈ s.heap.pinnedCells
  kinds : ∀ e ∈ p.pinnedWithKind, ∀ o, T e.1 = some o → e.1 / pageSizeCells ∈ s.chunk p →
    s.heap.kindAt e.1 ≠ .Large → e.2 = o.isCons

/-- Where the chunk leaves the object at `c`. -/
def ChunkFate (h : PageHeap) (pinned : List (Nat × Bool)) (chunk : List Nat) (K : Forwarding)
    (c c' : Nat) : Prop :=
  K c = some c' ∨ (¬ Dies h pinned chunk c ∧ c' = c)

structure ChunkResult (L : HeapLayout) (p : ChunkParams) (must : Slot → Prop) (s : ChunkState)
    (T : ObjTable) (s' : ChunkState) (T' : ObjTable) (K : Forwarding) : Prop where
  rest : s'.rest = s.rest.drop (s.heap.chunkSize p.fromGen p.pinnedPages s.rest.length)
  shape : Shape L s'.heap T' Forwarding.empty
  regions : RegionsOk s'.heap
  regionsAway : ∀ g k q, (s'.heap.allocRegions g k).currentPage = some q → q ∉ s.rest
  control : SameControl s.heap s'.heap
  dom : ∀ c, (K c).isSome ↔ ToCopy s.heap T p.fromGen c ∧ c / pageSizeCells ∈ s.chunk p
  inj : ∀ c c' d, K c = some d → K c' = some d → c = c'
  image : ∀ c d, K c = some d → T d = none ∧ d / pageSizeCells ∉ s.rest ∧
    s'.heap.genAt d = p.destGen ∧ s'.heap.kindAt d ≠ .Large
  unmoved : ∀ c o, T c = some o → ¬ Dies s.heap p.pinnedWithKind (s.chunk p) c → K c = none
  kept : ∀ c c' o, T c = some o → ChunkFate s.heap p.pinnedWithKind (s.chunk p) K c c' →
    T' c' = some o
  origin : ∀ c' o, T' c' = some o →
    ∃ c, T c = some o ∧ ChunkFate s.heap p.pinnedWithKind (s.chunk p) K c c'
  plain : ∀ c c' o i, T c = some o → ChunkFate s.heap p.pinnedWithKind (s.chunk p) K c c' →
    i < o.totalCells → ¬ o.IsPtr i → s'.heap.mem (c' + i) = s.heap.mem (c + i)
  ptr : ∀ c c' o i, T c = some o → ChunkFate s.heap p.pinnedWithKind (s.chunk p) K c c' →
    o.IsPtr i → s'.heap.mem (c' + i) = redirect L s.heap K (s.heap.mem (c + i)) ∨
      (s'.heap.mem (c' + i) = s.heap.mem (c + i) ∧ K c = none ∧ s.heap.genAt c ≠ p.destGen ∧
        c ∉ s.heap.pinnedCells ∧ ¬ must (.cell (c + i)))
  ext : ∀ a, s'.ext a = redirect L s.heap K (s.ext a) ∨
    (s'.ext a = s.ext a ∧ ¬ must (.ext a))
  free : ∀ q, (s.heap.descs q).generation = .Free → s'.heap.descs q = s.heap.descs q ∨
    ((s'.heap.descs q).generation = p.destGen ∧ (s'.heap.descs q).kind ≠ .Large ∧
      (s'.heap.descs q).pinByte = 0 ∧ q ∉ s.rest ∧ (T' (q * pageSizeCells)).isSome)
  small : ∀ q, (s.heap.descs q).generation ≠ .Free → (s.heap.descs q).kind ≠ .Large →
    (s'.heap.descs q).Alike
      (if q ∈ s.chunk p then (s.heap.descs q).reclaimed (s.heap.descs q).hasPins p.destGen
      else s.heap.descs q)
  run : ∀ head q, (s.heap.descs head).kind = .Large → 1 ≤ (s.heap.descs head).nSpan → head ≤ q →
    q < head + (s.heap.descs head).nSpan → (s'.heap.descs q).Alike
      (if head ∈ s.chunk p then (s.heap.descs q).reclaimed (s.heap.descs head).hasPins p.destGen
      else s.heap.descs q)
  covered : CardsCover L s.heap T → CardsCover L s'.heap T'
  cards : ∀ k, (s'.heap.descs (k / cardsPerPage)).generation ≠ .Free → s.heap.cards k = true →
    s'.heap.cards k = true
  used : ∀ q, (s.heap.descs q).generation ≠ .Free → (s.heap.descs q).kind ≠ .Large →
    q ∉ s.chunk p → (s.heap.descs q).wordsUsed ≤ (s'.heap.descs q).wordsUsed
  late : ∀ c d, K c = some d → s.heap.genAt d ≠ .Free →
    (s.heap.descs (d / pageSizeCells)).wordsUsed ≤ d % pageSizeCells

/-! ## The phases of a chunk -/

/-- The first two phases of a chunk, with the tables that go along. -/
structure ChunkCopied (L : HeapLayout) (p : ChunkParams) (must : Slot → Prop) (s : ChunkState)
    (T : ObjTable) (hc : PageHeap) (Tc : ObjTable) (K : Forwarding)
    (r : PageHeap × (Nat → Word)) : Prop where
  ready : ChunkReady L p s T
  copying : Copying L p.fromGen p.destGen s.rest s.heap T (fun x => x / pageSizeCells ∈ s.chunk p) hc
    Tc K
  rewritten : Phase2Done L K Tc p.destGen must hc s.ext r

namespace ChunkCopied

variable {L : HeapLayout} {p : ChunkParams} {must : Slot → Prop} {s : ChunkState} {T Tc : ObjTable}
  {hc : PageHeap} {K : Forwarding} {r : PageHeap × (Nat → Word)}

theorem descs (hC : ChunkCopied L p must s T hc Tc K r) : r.1.descs = hc.descs := by
  obtain ⟨⟨S, hR, -, -⟩, -⟩ := hC.rewritten
  exact hR.descs

theorem control (hC : ChunkCopied L p must s T hc Tc K r) : SameControl s.heap r.1 := by
  obtain ⟨⟨S, hR, -, -⟩, -⟩ := hC.rewritten
  exact hC.copying.control.trans hR.control

theorem shape (hC : ChunkCopied L p must s T hc Tc K r) : Shape L r.1 Tc K :=
  hC.rewritten.1.shape hC.copying.shape

/-- The pages the snapshot lists are as before the chunk. -/
theorem listed (hC : ChunkCopied L p must s T hc Tc K r) {q : Nat} (hq : q ∈ s.rest) :
    r.1.descs q = s.heap.descs q := by
  rw [hC.descs]
  exact hC.copying.listed q hq

theorem chunk_listed (hC : ChunkCopied L p must s T hc Tc K r) {q : Nat} (hq : q ∈ s.chunk p) :
    r.1.descs q = s.heap.descs q := hC.listed (hC.ready.start.listed q hq)

theorem alike (hC : ChunkCopied L p must s T hc Tc K r) {q : Nat}
    (hlive : (s.heap.descs q).generation ≠ .Free) : (r.1.descs q).Alike (s.heap.descs q) := by
  obtain ⟨hgen, hkind, hpin, hspan⟩ := hC.copying.role q hlive
  rw [hC.descs]
  exact ⟨hgen, hkind, hpin, hspan⟩

theorem genAt (hC : ChunkCopied L p must s T hc Tc K r) {c : Nat} (hlive : s.heap.genAt c ≠ .Free) :
    r.1.genAt c = s.heap.genAt c := (hC.alike hlive).generation

theorem kindAt (hC : ChunkCopied L p must s T hc Tc K r) {c : Nat}
    (hlive : s.heap.genAt c ≠ .Free) : r.1.kindAt c = s.heap.kindAt c := (hC.alike hlive).kind

/-- A started object of the chunk that the pin set names has not been copied. -/
theorem pinned_unmoved (hC : ChunkCopied L p must s T hc Tc K r) {c : Nat} {o : ObjInfo}
    (hc : T c = some o) (hpin : c ∈ s.heap.pinnedCells) (hkind : s.heap.kindAt c ≠ .Large)
    (hpins : (s.heap.descs (c / pageSizeCells)).hasPins = true) : K c = none := by
  have hS := hC.ready.start.shape
  rw [← Option.not_isSome_iff_eq_none]
  intro hsome
  have hto := ((hC.copying.dom c).1 hsome).1
  have hunpinned := hto.unpinned
  unfold isPinnedCell at hunpinned
  rcases hC.ready.pins c hpin with ⟨hfree, -⟩ | ⟨-, hk | hbit | ⟨hnone, -⟩⟩
  · exact hS.live hc hfree
  · exact hkind hk
  · rw [hbit] at hunpinned
    simp [hS.pages.page_lt (hS.live hc), hpin] at hunpinned
  · rw [hpins] at hnone
    cases hnone

/-- The table of the chunk's heap: old objects and copies. -/
theorem table_iff (hC : ChunkCopied L p must s T hc Tc K r) (c : Nat) (o : ObjInfo) :
    Tc c = some o ↔ T c = some o ∨ ∃ x, K x = some c ∧ T x = some o := by
  constructor
  · exact hC.copying.new c o
  · rintro (hT | ⟨x, hK, hT⟩)
    · exact hC.copying.old c o hT
    · obtain ⟨o', hx, hd, -⟩ := hC.copying.shape.moved x c hK
      rw [hC.copying.old x o hT] at hx
      cases hx
      exact hd

theorem reclaimStart (hC : ChunkCopied L p must s T hc Tc K r) :
    ReclaimStart L p.destGen (s.chunk p) p.pinnedWithKind r.1 Tc K where
  shape := hC.shape
  destLive := hC.ready.start.destLive
  nodup := hC.ready.start.nodup
  source := by
    intro c d hK
    obtain ⟨hto, hin⟩ := (hC.copying.dom c).1 (by rw [hK]; rfl)
    refine ⟨?_, hin⟩
    rw [hC.kindAt (by rw [hto.generation]; exact hC.ready.start.fromLive)]
    exact hto.small
  dest := by
    intro c d hK
    obtain ⟨-, -, hd⟩ := hC.copying.copy c d hK
    refine ⟨fun hin => hd (hC.ready.start.listed _ hin), ?_⟩
    have hsmall := hC.copying.copySmall c d hK
    unfold PageHeap.kindAt at hsmall ⊢
    rwa [hC.descs]
  pins := by
    intro e he hin hlive hkind hpins
    have hde := hC.chunk_listed hin
    unfold PageHeap.genAt at hlive
    unfold PageHeap.kindAt at hkind
    rw [hde] at hlive hkind hpins
    have hpin := (hC.ready.listed e.1).1 (listed_iff.2 ⟨e.2, he⟩)
    rcases hC.ready.pins e.1 hpin with ⟨hfree, -⟩ | ⟨hsome, -⟩
    · exact absurd hfree hlive
    · obtain ⟨o, ho⟩ := Option.isSome_iff_exists.1 hsome
      exact ⟨o, hC.copying.old _ o ho, hC.ready.kinds e he o ho hin hkind,
        hC.pinned_unmoved ho hpin hkind hpins⟩

end ChunkCopied

namespace ChunkResult

variable {L : HeapLayout} {p : ChunkParams} {must : Slot → Prop} {s : ChunkState}
  {T Tc Tx : ObjTable} {hc hx : PageHeap} {K : Forwarding} {r : PageHeap × (Nat → Word)}

theorem dies_iff (hC : ChunkCopied L p must s T hc Tc K r) (c : Nat) :
    Dies r.1 p.pinnedWithKind (s.chunk p) c ↔ Dies s.heap p.pinnedWithKind (s.chunk p) c := by
  unfold Dies PageHeap.kindAt
  refine and_congr_right fun hin => ?_
  rw [hC.chunk_listed hin]

/-- What the chunk keeps has not been copied. -/
theorem unmoved_of_kept (hC : ChunkCopied L p must s T hc Tc K r) {c : Nat} {o : ObjInfo}
    (hT : T c = some o) (hnd : ¬ Dies s.heap p.pinnedWithKind (s.chunk p) c) : K c = none := by
  rw [← Option.not_isSome_iff_eq_none]
  intro hsome
  obtain ⟨hto, hin⟩ := (hC.copying.dom c).1 hsome
  apply hnd
  refine ⟨hin, ?_⟩
  by_cases hpins : (s.heap.descs (c / pageSizeCells)).hasPins = true
  · right
    refine ⟨hto.small, ?_⟩
    intro hl
    have hnone := hC.pinned_unmoved hT ((hC.ready.listed c).1 hl) hto.small hpins
    rw [hnone] at hsome
    cases hsome
  · left
    simpa using hpins

theorem copy_kept (hC : ChunkCopied L p must s T hc Tc K r) {c d : Nat} (hK : K c = some d) :
    ¬ Dies r.1 p.pinnedWithKind (s.chunk p) d := by
  rintro ⟨hin, -⟩
  exact (hC.copying.copy c d hK).2.2 (hC.ready.start.listed _ hin)

/-- Before phase 2, the cells of a surviving object hold what they held before the chunk. -/
theorem copied_mem (hC : ChunkCopied L p must s T hc Tc K r) {c c' i : Nat} {o : ObjInfo}
    (hT : T c = some o)
    (hF : ChunkFate s.heap p.pinnedWithKind (s.chunk p) K c c') (hi : i < o.totalCells) :
    hc.mem (c' + i) = s.heap.mem (c + i) := by
  rcases hF with hK | ⟨hnd, rfl⟩
  · exact hC.copying.content c c' o i hK hT hi
  · exact hC.copying.keeps c' o i hT hi fun _ => unmoved_of_kept hC hT hnd

theorem of_ext (hC : ChunkCopied L p must s T hc Tc K r) (a : Nat) :
    r.2 a = redirect L s.heap K (s.ext a) ∨ (r.2 a = s.ext a ∧ ¬ must (.ext a)) := by
  obtain ⟨-, X, hE, hX⟩ := hC.rewritten
  by_cases ha : X a
  · left
    rw [hE.inside a ha]
    exact redirect_congr hC.copying.control.base hC.copying.control.nPages K _
  · exact Or.inr ⟨hE.outside a ha, fun hm => ha (hX a hm)⟩

variable (hC : ChunkCopied L p must s T hc Tc K r)
  (hI : Reclaiming L p.destGen p.pinnedWithKind r.1 Tc K (s.chunk p) hx Tx)

include hC hI

theorem of_kept {c c' : Nat} {o : ObjInfo} (hT : T c = some o)
    (hF : ChunkFate s.heap p.pinnedWithKind (s.chunk p) K c c') : Tx c' = some o := by
  rw [hI.table]
  rcases hF with hK | ⟨hnd, rfl⟩
  · exact ⟨(hC.table_iff c' o).2 (Or.inr ⟨c, hK, hT⟩), copy_kept hC hK⟩
  · exact ⟨hC.copying.old c' o hT, fun hd => hnd ((dies_iff hC c').1 hd)⟩

theorem of_origin {c' : Nat} {o : ObjInfo} (hTx : Tx c' = some o) :
    ∃ c, T c = some o ∧ ChunkFate s.heap p.pinnedWithKind (s.chunk p) K c c' := by
  obtain ⟨hTc, hnd⟩ := (hI.table c' o).1 hTx
  rcases (hC.table_iff c' o).1 hTc with hT | ⟨x, hK, hT⟩
  · exact ⟨c', hT, Or.inr ⟨fun hd => hnd ((dies_iff hC c').2 hd), rfl⟩⟩
  · exact ⟨x, hT, Or.inl hK⟩

theorem of_plain {c c' i : Nat} {o : ObjInfo} (hT : T c = some o)
    (hF : ChunkFate s.heap p.pinnedWithKind (s.chunk p) K c c') (hi : i < o.totalCells)
    (hplain : ¬ o.IsPtr i) : hx.mem (c' + i) = s.heap.mem (c + i) := by
  have hTx := of_kept hC hI hT hF
  have hTc := ((hI.table c' o).1 hTx).1
  rw [hI.mem c' o i hTx hi, ← copied_mem hC hT hF hi]
  obtain ⟨⟨S, hR, hscan, -⟩, -⟩ := hC.rewritten
  refine hR.outside _ ?_
  intro hin
  obtain ⟨y, o', j, hy, hj, heq⟩ := hscan _ hin
  have hyc := hC.copying.shape.cell_inj hTc hy hi ((hC.copying.shape.wf hy).inside j hj) heq
  subst hyc
  rw [hTc] at hy
  cases hy
  exact hplain (by rwa [Nat.add_left_cancel heq])

theorem of_ptr {c c' i : Nat} {o : ObjInfo} (hT : T c = some o)
    (hF : ChunkFate s.heap p.pinnedWithKind (s.chunk p) K c c') (hptr : o.IsPtr i) :
    hx.mem (c' + i) = redirect L s.heap K (s.heap.mem (c + i)) ∨
      (hx.mem (c' + i) = s.heap.mem (c + i) ∧ K c = none ∧ s.heap.genAt c ≠ p.destGen ∧
        c ∉ s.heap.pinnedCells ∧ ¬ must (.cell (c + i))) := by
  have hi := (hC.ready.start.shape.wf hT).inside i hptr
  have hTx := of_kept hC hI hT hF
  have hTc := ((hI.table c' o).1 hTx).1
  rw [hI.mem c' o i hTx hi]
  obtain ⟨⟨S, hR, -, hneed⟩, -⟩ := hC.rewritten
  by_cases hin : S (c' + i)
  · left
    rw [hR.inside _ hin, copied_mem hC hT hF hi]
    exact redirect_congr hC.copying.control.base hC.copying.control.nPages K _
  · right
    rw [hR.outside _ hin, copied_mem hC hT hF hi]
    have hKc' : K c' = none := by
      rcases hF with hK | ⟨hnd, rfl⟩
      · obtain ⟨-, -, -, hKd⟩ := hC.copying.shape.moved c c' hK
        exact hKd
      · exact unmoved_of_kept hC hT hnd
    have hnot : ¬ (hc.genAt c' = p.destGen ∨ c' ∈ hc.pinnedCells) := fun hor =>
      hin (hneed _ (Or.inr ⟨c', o, i, hTc, hKc', hor, hptr, rfl⟩))
    rcases hF with hK | ⟨-, rfl⟩
    · exact absurd (Or.inl (hC.copying.copy c c' hK).2.1) hnot
    · refine ⟨rfl, hKc', ?_, ?_, ?_⟩
      · intro hgen
        refine hnot (Or.inl ?_)
        rw [← hgen]
        exact (hC.copying.role _ (hC.ready.start.shape.live hT)).1
      · intro hpin
        refine hnot (Or.inr ?_)
        rw [hC.copying.control.pinnedCells]
        exact hpin
      · intro hmust
        exact hin (hneed _ (Or.inl hmust))

theorem of_small {q : Nat} (hlive : (s.heap.descs q).generation ≠ .Free)
    (hkind : (s.heap.descs q).kind ≠ .Large) : (hx.descs q).Alike
      (if q ∈ s.chunk p then (s.heap.descs q).reclaimed (s.heap.descs q).hasPins p.destGen
      else s.heap.descs q) := by
  have hA := hC.alike hlive
  rw [hI.small q (by rw [hA.generation]; exact hlive) (by rw [hA.kind]; exact hkind)]
  by_cases hq : q ∈ s.chunk p
  · rw [if_pos hq, if_pos hq, hA.hasPins]
    exact hA.reclaimed _ _
  · rw [if_neg hq, if_neg hq]
    exact hA

theorem of_run {head q : Nat} (hkind : (s.heap.descs head).kind = .Large)
    (hspan : 1 ≤ (s.heap.descs head).nSpan) (hle : head ≤ q)
    (hlt : q < head + (s.heap.descs head).nSpan) : (hx.descs q).Alike
      (if head ∈ s.chunk p then (s.heap.descs q).reclaimed (s.heap.descs head).hasPins p.destGen
      else s.heap.descs q) := by
  have hP := hC.ready.start.shape.pages
  have hlive : (s.heap.descs head).generation ≠ .Free := by
    intro hfree
    rw [(hP.kindFree head).2 hfree] at hkind
    cases hkind
  have hA := hC.alike hlive
  have hAq := hC.alike (q := q) (by rw [(hP.run_page hkind ⟨hle, hlt⟩).2]; exact hlive)
  rw [hI.run head q (by rw [hA.kind]; exact hkind) (by rw [hA.nSpan]; exact hspan) hle
    (by rw [hA.nSpan]; exact hlt)]
  by_cases hq : head ∈ s.chunk p
  · rw [if_pos hq, if_pos hq, hA.hasPins]
    exact hAq.reclaimed _ _
  · rw [if_neg hq, if_neg hq]
    exact hAq

theorem of_free {q : Nat} (hfree : (s.heap.descs q).generation = .Free) :
    hx.descs q = s.heap.descs q ∨ ((hx.descs q).generation = p.destGen ∧
      (hx.descs q).kind ≠ .Large ∧ (hx.descs q).pinByte = 0 ∧ q ∉ s.rest ∧
      (Tx (q * pageSizeCells)).isSome) := by
  rcases hC.copying.opened q hfree with hsame | ⟨hgen, hkind, hpin, hq⟩
  · left
    rw [hI.free q (by rw [hC.descs, hsame]; exact hfree), hC.descs, hsame]
  · right
    have hlive : (hc.descs q).generation ≠ .Free := by
      rw [hgen]
      exact hC.ready.start.destLive
    have hsmall : (hc.descs q).kind ≠ .Large := by
      intro hk
      rw [hk] at hkind
      simp at hkind
    have hqc : q ∉ s.chunk p := fun hin => hq (hC.ready.start.listed q hin)
    have hdq : hx.descs q = hc.descs q := by
      rw [hI.small q (by rw [hC.descs]; exact hlive) (by rw [hC.descs]; exact hsmall), if_neg hqc,
        hC.descs]
    rw [hdq]
    refine ⟨hgen, hsmall, hpin, hq, ?_⟩
    obtain ⟨o, ho⟩ := Option.isSome_iff_exists.1 (hC.copying.first q hfree hlive)
    rw [(hI.table _ o).2 ⟨ho, ?_⟩]
    · rfl
    · rintro ⟨hin, -⟩
      have hdiv : q * pageSizeCells / pageSizeCells = q := by
        unfold pageSizeCells
        omega
      rw [hdiv] at hin
      exact hqc hin

theorem of_regions : RegionsOk hx ∧
    ∀ g k q, (hx.allocRegions g k).currentPage = some q → q ∉ s.rest := by
  have hregions : hx.allocRegions = hc.allocRegions := by
    obtain ⟨⟨S, hR, -, -⟩, -⟩ := hC.rewritten
    rw [hI.allocRegions, hR.allocRegions]
  refine ⟨?_, ?_⟩
  · intro g k q hq
    rw [hregions] at hq ⊢
    obtain ⟨hgen, hkind, hused, hg, hk⟩ := hC.copying.regions g k q hq
    have hqc : q ∉ s.chunk p := fun hin =>
      hC.copying.regionsAway g k q hq (hC.ready.start.listed q hin)
    have hdq : hx.descs q = hc.descs q := by
      rw [hI.small q (by rw [hC.descs, hgen]; exact hg)
        (by rw [hC.descs, hkind]; rcases hk with rfl | rfl <;> simp), if_neg hqc, hC.descs]
    rw [hdq]
    exact ⟨hgen, hkind, hused, hg, hk⟩
  · intro g k q hq
    rw [hregions] at hq
    exact hC.copying.regionsAway g k q hq

/-- The loop's markers are gone with the chunk's pages. -/
theorem of_shape : Shape L hx Tx Forwarding.empty := by
  have hnone : (fun c => if c / pageSizeCells ∈ s.chunk p then none else K c) = Forwarding.empty := by
    funext c
    split
    · rfl
    · rename_i hin
      rw [Forwarding.empty_apply, ← Option.not_isSome_iff_eq_none]
      intro hsome
      exact hin ((hC.copying.dom c).1 hsome).2
  rw [← hnone]
  exact hI.shape

theorem of_cards {k : Nat} (hk : (hx.descs (k / cardsPerPage)).generation ≠ .Free)
    (hcard : s.heap.cards k = true) : hx.cards k = true := by
  refine hI.cards k hk ?_
  obtain ⟨⟨S, hR, -, -⟩, -⟩ := hC.rewritten
  rw [hR.cards]
  exact hC.copying.cards k hcard

theorem of_covered (hcover : CardsCover L s.heap T) : CardsCover L hx Tx := by
  intro c' o i hTx hptr hpointer
  have hS := of_shape hC hI
  have hi := (hS.wf hTx).inside i hptr
  obtain ⟨c, hT, hF⟩ := of_origin hC hI hTx
  have hlive : (hx.descs ((c' + i) / cardSizeCells / cardsPerPage)).generation ≠ .Free := by
    have hgen := hS.genAt_inside hTx hi
    have hne := hS.live hTx
    unfold PageHeap.genAt at hgen hne
    rw [show (c' + i) / cardSizeCells / cardsPerPage = (c' + i) / pageSizeCells by
      unfold cardSizeCells cardsPerPage pageSizeCells; omega, hgen]
    exact hne
  have hold : (L.classify (s.heap.mem (c + i))).pointer?.isSome = true := by
    rcases of_ptr hC hI hT hF hptr with heq | ⟨heq, -⟩
    · rw [heq, ← redirect_congr hC.copying.control.base hC.copying.control.nPages,
        pointer?_redirect hC.copying.shape] at hpointer
      exact hpointer
    · rwa [heq] at hpointer
  rcases hF with hK | ⟨-, rfl⟩
  · refine hI.cards _ hlive ?_
    obtain ⟨⟨S, hR, -, -⟩, -⟩ := hC.rewritten
    rw [hR.cards]
    exact hC.copying.copyCards c c' o i hK hT hi
  · exact of_cards hC hI hlive (hcover c' o i hT hptr hold)

end ChunkResult

/-- One iteration of the loop. -/
theorem ChunkReady.step_result {L : HeapLayout} {p : ChunkParams} {s : ChunkState} {T : ObjTable}
    (must : Slot → Prop) (hX : ChunkReady L p s T)
    (hspares : s.heap.Undisturbed L p.fromGen p.destGen (s.chunk p) s.rest s.total)
    (hv : ∀ hc Tc K, Copying L p.fromGen p.destGen s.rest s.heap T
      (fun x => x / pageSizeCells ∈ s.chunk p) hc Tc K →
      Presents L p.visitRoots (.new hc s.ext p.fromGen p.destGen .rewrite) Tc must) :
    Outcome GcPanic.IsOom (s.step L p) fun s' => ∃ T' K, ChunkResult L p must s T s' T' K := by
  unfold ChunkState.step
  refine (phase1CopyChunk_copying hX.start s.total hspares).bind ?_
  rintro copied ⟨Tc, K, hI⟩
  have hpin : ∀ c ∈ copied.heap.pinnedCells, copied.heap.genAt c = .Free ∨ (Tc c).isSome := by
    intro c hc
    rw [hI.control.pinnedCells] at hc
    rcases hX.pins c hc with ⟨hfree, hmod⟩ | ⟨hsome, -⟩
    · by_cases hlive : copied.heap.genAt c = .Free
      · exact Or.inl hlive
      · right
        have := hI.first _ hfree hlive
        rwa [show c / pageSizeCells * pageSizeCells = c by unfold pageSizeCells at *; omega] at this
    · obtain ⟨o, ho⟩ := Option.isSome_iff_exists.1 hsome
      rw [hI.old c o ho]
      exact Or.inr rfl
  refine (phase2Rewrite_done s.ext p.fromGen p.destGen hI.shape hpin (hv _ _ _ hI)).bind ?_
  intro r hr
  have hC : ChunkCopied L p must s T copied.heap Tc K r := ⟨hX, hI, hr⟩
  refine (phase3Reclaim_reclaiming hC.reclaimStart).bind ?_
  rintro reclaimed ⟨Tx, hR⟩
  refine ⟨Tx, K, ?_⟩
  constructor
  · rfl
  · exact ChunkResult.of_shape hC hR
  · exact (ChunkResult.of_regions hC hR).1
  · exact (ChunkResult.of_regions hC hR).2
  · exact hC.control.trans hR.control
  · exact hI.dom
  · exact hI.inj
  · intro c d hK
    obtain ⟨hTd, hgd, hd⟩ := hI.copy c d hK
    have hdc : d / pageSizeCells ∉ s.chunk p := fun hin => hd (hX.start.listed _ hin)
    have hsmall := hI.copySmall c d hK
    have hlive : copied.heap.genAt d ≠ .Free := by
      rw [hgd]
      exact hX.start.destLive
    have hdq : reclaimed.heap.descs (d / pageSizeCells) = copied.heap.descs (d / pageSizeCells) := by
      rw [hR.small _ (by rw [hC.descs]; exact hlive) (by rw [hC.descs]; exact hsmall), if_neg hdc,
        hC.descs]
    refine ⟨hTd, hd, ?_, ?_⟩
    · unfold genAt at hgd ⊢
      rw [hdq]
      exact hgd
    · unfold kindAt at hsmall ⊢
      rw [hdq]
      exact hsmall
  · exact fun c o hT hnd => ChunkResult.unmoved_of_kept hC hT hnd
  · exact fun c c' o hT hF => ChunkResult.of_kept hC hR hT hF
  · exact fun c' o hT => ChunkResult.of_origin hC hR hT
  · exact fun c c' o i hT hF hi hp => ChunkResult.of_plain hC hR hT hF hi hp
  · exact fun c c' o i hT hF hp => ChunkResult.of_ptr hC hR hT hF hp
  · exact fun a => ChunkResult.of_ext hC a
  · exact fun q hq => ChunkResult.of_free hC hR hq
  · exact fun q hlive hk => ChunkResult.of_small hC hR hlive hk
  · exact fun head q hk hs hle hlt => ChunkResult.of_run hC hR hk hs hle hlt
  · exact fun hcover => ChunkResult.of_covered hC hR hcover
  · exact fun k hk hcard => ChunkResult.of_cards hC hR hk hcard
  · intro q hlive hk hq
    have hA := hC.alike hlive
    rw [hR.small q (by rw [hA.generation]; exact hlive) (by rw [hA.kind]; exact hk), if_neg hq,
      hC.descs]
    exact hI.used q hlive
  · intro c d hK hlive
    obtain ⟨o, -, hd, -⟩ := hI.shape.moved c d hK
    exact hI.late d o hd (hI.copy c d hK).1 hlive

end NewGc
