import NewGc.Chunk

/-!
# Loop — the invariant of the chunk loop

`Evacuating` relates the heap the chunk loop started from to the heap after some chunks: where each
object is now, which ones are lost, and what became of every page.  The fate of an object depends on
its page, its mark and its pin alone, not on how the pages fall into chunks.
-/

namespace NewGc

open Library PageHeap

/-! ## What is decided before the loop -/

/-- An object whose page survives and takes it along. -/
def Stays (h : PageHeap) (pinned : List (Nat × Bool)) (c : Nat) : Prop :=
  (h.descs (c / pageSizeCells)).hasPins = true ∧ (h.kindAt c = .Large ∨ Listed pinned c)

theorem dies_iff_stays {h : PageHeap} {pinned : List (Nat × Bool)} {done : List Nat} {c : Nat} :
    Dies h pinned done c ↔ c / pageSizeCells ∈ done ∧ ¬ Stays h pinned c := by
  unfold Dies Stays
  refine and_congr_right fun _ => ?_
  cases (h.descs (c / pageSizeCells)).hasPins with
  | true => simp
  | false => simp

/-- The start of the loop. -/
structure LoopStart (L : HeapLayout) (p : ChunkParams) (h₀ : PageHeap) (T₀ : ObjTable) : Prop where
  shape : Shape L h₀ T₀ Forwarding.empty
  regions : RegionsOk h₀
  away : ∀ g k q, (h₀.allocRegions g k).currentPage = some q → (h₀.descs q).generation ≠ p.fromGen
  fromLive : p.fromGen ≠ .Free
  destLive : p.destGen ≠ .Free
  pins : ∀ c ∈ h₀.pinnedCells, PinOk h₀ T₀ c
  listed : ∀ c, Listed p.pinnedWithKind c ↔ c ∈ h₀.pinnedCells
  kinds : ∀ e ∈ p.pinnedWithKind, ∀ o, T₀ e.1 = some o → e.2 = o.isCons

/-- A page that has been released, or a free one: free still, or opened for copies since. -/
def Reusable (p : ChunkParams) (h : PageHeap) (T : ObjTable) (rest : List Nat) (q : Nat) : Prop :=
  (h.descs q).generation = .Free ∨
    ((h.descs q).generation = p.destGen ∧ (h.descs q).kind ≠ .Large ∧ (h.descs q).pinByte = 0 ∧
      q ∉ rest ∧ (T (q * pageSizeCells)).isSome)

/-- What became of the page `q` of the run headed by `head` (a small page heads itself). -/
structure PageFate (p : ChunkParams) (h₀ h : PageHeap) (T : ObjTable) (rest : List Nat)
    (head q : Nat) : Prop where
  kept : ((h₀.descs head).generation ≠ p.fromGen ∨ head ∈ rest) → (h.descs q).Alike (h₀.descs q)
  flipped : (h₀.descs head).generation = p.fromGen → head ∉ rest →
    (h₀.descs head).hasPins = true → (h.descs q).Alike ((h₀.descs q).reclaimed true p.destGen)
  released : (h₀.descs head).generation = p.fromGen → head ∉ rest →
    (h₀.descs head).hasPins = false → Reusable p h T rest q

/-- The copies of the next chunk open no page that the snapshot still lists. -/
def NoReuse (L : HeapLayout) (p : ChunkParams) (s : ChunkState) : Prop :=
  s.heap.Undisturbed L p.fromGen p.destGen (s.chunk p) s.rest s.total

/-! ## The invariant -/

structure Evacuating (L : HeapLayout) (p : ChunkParams) (h₀ : PageHeap) (T₀ : ObjTable)
    (s : ChunkState) (T : ObjTable) (F : Forwarding) : Prop where
  shape : Shape L s.heap T Forwarding.empty
  regions : RegionsOk s.heap
  regionsAway : ∀ g k q, (s.heap.allocRegions g k).currentPage = some q → q ∉ s.rest
  control : SameControl h₀ s.heap
  nodup : s.rest.Nodup
  listedFrom : ∀ q ∈ s.rest, (h₀.descs q).generation = p.fromGen
  pins : ∀ c ∈ s.heap.pinnedCells, PinOk s.heap T c
  fate_some : ∀ c c', F c = some c' → ∃ o, T₀ c = some o ∧ T c' = some o
  fate_inj : ∀ c d e, F c = some e → F d = some e → c = d
  fate_onto : ∀ c' o, T c' = some o → ∃ c, F c = some c'
  waiting : ∀ c o, T₀ c = some o → (h₀.genAt c ≠ p.fromGen ∨ c / pageSizeCells ∈ s.rest) →
    F c = some c
  stays : ∀ c o, T₀ c = some o → h₀.genAt c = p.fromGen → c / pageSizeCells ∉ s.rest →
    Stays h₀ p.pinnedWithKind c → F c = some c
  copied : ∀ c, ToCopy h₀ T₀ p.fromGen c → c / pageSizeCells ∉ s.rest →
    ∃ c', F c = some c' ∧ c' ≠ c
  lost : ∀ c, h₀.genAt c = p.fromGen → c / pageSizeCells ∉ s.rest →
    ¬ Stays h₀ p.pinnedWithKind c → ¬ ToCopy h₀ T₀ p.fromGen c → F c = none
  moved : ∀ c c', F c = some c' → c' ≠ c → ToCopy h₀ T₀ p.fromGen c ∧
    c / pageSizeCells ∉ s.rest ∧ c' / pageSizeCells ∉ s.rest ∧ s.heap.genAt c' = p.destGen ∧
      s.heap.kindAt c' ≠ .Large
  -- a cell keeps its word unless it is a pointer to something that is copied
  plain : ∀ c c' o i, F c = some c' → T₀ c = some o → i < o.totalCells →
    (o.IsPtr i → ∀ t, h₀.targetCell L (h₀.mem (c + i)) = some t → ¬ ToCopy h₀ T₀ p.fromGen t) →
    s.heap.mem (c' + i) = h₀.mem (c + i)
  small : ∀ q, (h₀.descs q).generation ≠ .Free → (h₀.descs q).kind ≠ .Large →
    PageFate p h₀ s.heap T s.rest q q
  run : ∀ head q, (h₀.descs head).kind = .Large → 1 ≤ (h₀.descs head).nSpan → head ≤ q →
    q < head + (h₀.descs head).nSpan → PageFate p h₀ s.heap T s.rest head q
  free : ∀ q, (h₀.descs q).generation = .Free → Reusable p s.heap T s.rest q
  covered : CardsCover L h₀ T₀ → CardsCover L s.heap T
  cards : ∀ k, (h₀.descs (k / cardsPerPage)).generation ≠ .Free →
    (h₀.descs (k / cardsPerPage)).generation ≠ p.fromGen → h₀.cards k = true →
    s.heap.cards k = true
  used : ∀ q, (h₀.descs q).generation ≠ .Free → (h₀.descs q).generation ≠ p.fromGen →
    (h₀.descs q).kind ≠ .Large → (h₀.descs q).wordsUsed ≤ (s.heap.descs q).wordsUsed
  -- what joins a page of another generation comes after what was there
  late : ∀ c o, T c = some o → h₀.genAt c ≠ .Free → h₀.genAt c ≠ p.fromGen → T₀ c = some o ∨
    (h₀.kindAt c ≠ .Large ∧ (h₀.descs (c / pageSizeCells)).wordsUsed ≤ c % pageSizeCells)

/-- A page in use belongs to a run: its own, or that of a head before it. -/
theorem PagesOk.exists_head {h : PageHeap} (hP : PagesOk h) {q : Nat}
    (hk : (h.descs q).kind = .Large) : ∃ head, (h.descs head).kind = .Large ∧
      1 ≤ (h.descs head).nSpan ∧ head ≤ q ∧ q < head + (h.descs head).nSpan := by
  by_cases hn : (h.descs q).nSpan = 0
  · obtain ⟨head, hlt, hkh, hin⟩ := hP.head _ hk hn
    exact ⟨head, hkh, by omega, by omega, hin⟩
  · exact ⟨q, hk, by omega, Nat.le_refl _, by omega⟩

namespace Evacuating

variable {L : HeapLayout} {p : ChunkParams} {h₀ : PageHeap} {T₀ T T' : ObjTable}
  {s s' : ChunkState} {F K : Forwarding} {must : Slot → Prop}

/-- Before the first chunk every object is where it was. -/
theorem start (hX : LoopStart L p h₀ T₀) (ext : Nat → Word) (total : EvacResult) :
    Evacuating L p h₀ T₀
      { rest := h₀.pagesInGen p.fromGen, heap := h₀, ext := ext, total := total } T₀
      fun c => if (T₀ c).isSome then some c else none := by
  have hfate : ∀ c c', (if (T₀ c).isSome then some c else none) = some c' →
      c' = c ∧ (T₀ c).isSome = true := by
    intro c c' hF
    split at hF
    · cases hF
      rename_i hc
      exact ⟨rfl, hc⟩
    · cases hF
  have hin : ∀ c, h₀.genAt c = p.fromGen → c / pageSizeCells ∈ h₀.pagesInGen p.fromGen := by
    intro c hgen
    refine mem_pagesInGen.2 ⟨hX.shape.pages.page_lt ?_, hgen⟩
    unfold genAt at hgen
    rw [hgen]
    exact hX.fromLive
  constructor
  · exact hX.shape
  · exact hX.regions
  · intro g k q hq hmem
    exact hX.away g k q hq (mem_pagesInGen.1 hmem).2
  · exact SameControl.refl h₀
  · exact List.Nodup.filter _ List.nodup_range
  · intro q hq
    exact (mem_pagesInGen.1 hq).2
  · exact hX.pins
  · intro c c' hF
    obtain ⟨rfl, hc⟩ := hfate c c' hF
    obtain ⟨o, ho⟩ := Option.isSome_iff_exists.1 hc
    exact ⟨o, ho, ho⟩
  · intro c d e hc hd
    rw [← (hfate c e hc).1, ← (hfate d e hd).1]
  · intro c o hc
    exact ⟨c, by rw [hc]; rfl⟩
  · intro c o hc _
    rw [hc]
    rfl
  · intro c o hc hgen hout _
    exact absurd (hin c hgen) hout
  · intro c hto hout
    exact absurd (hin c hto.generation) hout
  · intro c hgen hout _ _
    exact absurd (hin c hgen) hout
  · intro c c' hF hne
    exact absurd (hfate c c' hF).1 hne
  · intro c c' o i hF _ _ _
    rw [(hfate c c' hF).1]
  · intro q hlive hk
    refine ⟨fun _ => PageDesc.Alike.refl _, ?_, ?_⟩ <;>
      exact fun hgen hout => absurd
        (mem_pagesInGen.2 ⟨hX.shape.pages.page_lt hlive, hgen⟩) hout
  · intro head q hk hspan hle hlt
    have hlive : (h₀.descs head).generation ≠ .Free := by
      intro hfree
      rw [(hX.shape.pages.kindFree head).2 hfree] at hk
      cases hk
    refine ⟨fun _ => PageDesc.Alike.refl _, ?_, ?_⟩ <;>
      exact fun hgen hout => absurd
        (mem_pagesInGen.2 ⟨hX.shape.pages.page_lt hlive, hgen⟩) hout
  · intro q hfree
    exact Or.inl hfree
  · exact fun hc => hc
  · exact fun _ _ _ hk => hk
  · exact fun _ _ _ _ => Nat.le_refl _
  · exact fun _ _ hc _ _ => Or.inl hc

/-! ## The chunk's view of the start -/

/-- On a page the snapshot still lists, nothing has moved in or out. -/
theorem table_rest (hE : Evacuating L p h₀ T₀ s T F) {c : Nat} (hc : c / pageSizeCells ∈ s.rest) :
    T c = T₀ c := by
  apply Option.ext
  intro o
  constructor
  · intro hT
    obtain ⟨x, hF⟩ := hE.fate_onto c o hT
    by_cases hx : c = x
    · subst hx
      obtain ⟨o', hT₀, hT'⟩ := hE.fate_some c c hF
      rw [hT] at hT'
      cases hT'
      exact hT₀
    · exact absurd hc (hE.moved x c hF hx).2.2.1
  · intro hT₀
    obtain ⟨o', hT₀', hT⟩ := hE.fate_some c c (hE.waiting c o hT₀ (Or.inr hc))
    rw [hT₀] at hT₀'
    cases hT₀'
    exact hT

/-- A listed small page, or the listed head of a run, is as it was. -/
theorem alike_rest (hE : Evacuating L p h₀ T₀ s T F) {q : Nat} (hq : q ∈ s.rest)
    (hlive : (h₀.descs q).generation ≠ .Free)
    (hhead : (h₀.descs q).kind = .Large → 1 ≤ (h₀.descs q).nSpan) :
    (s.heap.descs q).Alike (h₀.descs q) := by
  by_cases hk : (h₀.descs q).kind = .Large
  · exact (hE.run q q hk (hhead hk) (Nat.le_refl q) (by have := hhead hk; omega)).kept (Or.inr hq)
  · exact (hE.small q hlive hk).kept (Or.inr hq)

theorem listed_alike (hX : LoopStart L p h₀ T₀) (hE : Evacuating L p h₀ T₀ s T F) {c : Nat}
    {o : ObjInfo} (hc : c / pageSizeCells ∈ s.rest) (hT : T₀ c = some o) :
    (s.heap.descs (c / pageSizeCells)).Alike (h₀.descs (c / pageSizeCells)) :=
  hE.alike_rest hc (hX.shape.live hT) fun hk => ((hX.shape.obj c o hT).large hk).2.2.1

theorem toCopy_iff (hX : LoopStart L p h₀ T₀) (hE : Evacuating L p h₀ T₀ s T F) {c : Nat}
    (hc : c / pageSizeCells ∈ s.rest) :
    ToCopy s.heap T p.fromGen c ↔ ToCopy h₀ T₀ p.fromGen c := by
  have htable := hE.table_rest hc
  constructor
  · intro hto
    obtain ⟨o, ho⟩ := Option.isSome_iff_exists.1 hto.object
    rw [htable] at ho
    have hA := listed_alike hX hE hc ho
    have hgen := hto.generation
    have hsmall := hto.small
    have hunpinned := hto.unpinned
    unfold genAt at hgen
    unfold kindAt at hsmall
    unfold isPinnedCell at hunpinned
    rw [hA.generation] at hgen
    rw [hA.kind] at hsmall
    rw [hA.isPinned, hE.control.nPages, hE.control.pinnedCells] at hunpinned
    exact ⟨htable ▸ hto.object, hgen, hsmall, by rw [← isMarked_congr hE.control]; exact hto.marked,
      hunpinned⟩
  · intro hto
    obtain ⟨o, ho⟩ := Option.isSome_iff_exists.1 hto.object
    have hA := listed_alike hX hE hc ho
    refine ⟨htable.symm ▸ hto.object, ?_, ?_, ?_, ?_⟩
    · unfold genAt
      rw [hA.generation]
      exact hto.generation
    · unfold kindAt
      rw [hA.kind]
      exact hto.small
    · rw [isMarked_congr hE.control]
      exact hto.marked
    · unfold isPinnedCell
      rw [hA.isPinned, hE.control.nPages, hE.control.pinnedCells]
      exact hto.unpinned

theorem chunk_rest {q : Nat} (hq : q ∈ s.chunk p) : q ∈ s.rest := List.mem_of_mem_take hq

theorem dies_iff (hX : LoopStart L p h₀ T₀) (hE : Evacuating L p h₀ T₀ s T F) {c : Nat}
    {o : ObjInfo} (hT : T c = some o) : Dies s.heap p.pinnedWithKind (s.chunk p) c ↔
      c / pageSizeCells ∈ s.chunk p ∧ ¬ Stays h₀ p.pinnedWithKind c := by
  rw [dies_iff_stays]
  refine and_congr_right fun hin => not_congr ?_
  rw [hE.table_rest (chunk_rest hin)] at hT
  have hA := listed_alike hX hE (chunk_rest hin) hT
  unfold Stays kindAt
  rw [hA.hasPins, hA.kind]


theorem ready (hX : LoopStart L p h₀ T₀) (hE : Evacuating L p h₀ T₀ s T F) :
    ChunkReady L p s T where
  start :=
    { shape := hE.shape
      regions := hE.regions
      regionsAway := hE.regionsAway
      fromLive := hX.fromLive
      destLive := hX.destLive
      listed := fun _ hq => chunk_rest hq
      nodup := hE.nodup.sublist (List.take_sublist _ _) }
  pins := hE.pins
  listed := by
    intro c
    rw [hE.control.pinnedCells]
    exact hX.listed c
  kinds := by
    intro e he o hT hin _
    rw [hE.table_rest (chunk_rest hin)] at hT
    exact hX.kinds e he o hT

/-! ## One chunk -/

/-- The fates after one more chunk. -/
def advance (p : ChunkParams) (s : ChunkState) (F K : Forwarding) : Forwarding :=
  fun c =>
    match F c with
    | none => none
    | some c' =>
        match K c' with
        | some d => some d
        | none => if Dies s.heap p.pinnedWithKind (s.chunk p) c' then none else some c'

theorem advance_some (hE : Evacuating L p h₀ T₀ s T F)
    (hR : ChunkResult L p must s T s' T' K) {c d : Nat} : advance p s F K c = some d ↔
      ∃ c', F c = some c' ∧ ChunkFate s.heap p.pinnedWithKind (s.chunk p) K c' d := by
  unfold advance ChunkFate
  cases hF : F c with
  | none => simp
  | some c' =>
      obtain ⟨o, -, hT⟩ := hE.fate_some c c' hF
      simp only [Option.some.injEq, exists_eq_left']
      cases hK : K c' with
      | some e =>
          have hd : Dies s.heap p.pinnedWithKind (s.chunk p) c' := by
            by_contra hnd
            rw [hR.unmoved c' o hT hnd] at hK
            cases hK
          simp [hd]
      | none =>
          by_cases hd : Dies s.heap p.pinnedWithKind (s.chunk p) c'
          · simp [hd]
          · simp [hd, eq_comm]

theorem rest_drop (hR : ChunkResult L p must s T s' T' K) {q : Nat} (hq : q ∈ s'.rest) :
    q ∈ s.rest := by
  rw [hR.rest] at hq
  exact List.mem_of_mem_drop hq

theorem rest_split (hR : ChunkResult L p must s T s' T' K) {q : Nat} (hq : q ∈ s.rest) :
    q ∈ s.chunk p ∨ q ∈ s'.rest := by
  rw [hR.rest]
  unfold ChunkState.chunk
  rw [← List.mem_append, List.take_append_drop]
  exact hq

theorem chunk_gone (hE : Evacuating L p h₀ T₀ s T F) (hR : ChunkResult L p must s T s' T' K)
    {q : Nat} (hq : q ∈ s.chunk p) : q ∉ s'.rest := by
  rw [hR.rest]
  unfold ChunkState.chunk at hq
  have hnd := hE.nodup
  rw [← List.take_append_drop (s.heap.chunkSize p.fromGen p.pinnedPages s.rest.length) s.rest,
    List.nodup_append] at hnd
  exact fun hq' => hnd.2.2 q hq q hq' rfl

/-- A reusable page stays reusable. -/
theorem reusable_step (hR : ChunkResult L p must s T s' T' K) {q : Nat} (hdest : p.destGen ≠ .Free)
    (hq : Reusable p s.heap T s.rest q) : Reusable p s'.heap T' s'.rest q := by
  rcases hq with hfree | ⟨hgen, hkind, hpin, hout, hfirst⟩
  · rcases hR.free q hfree with hsame | ⟨hgen, hkind, hpin, hout, hfirst⟩
    · left
      rw [hsame]
      exact hfree
    · exact Or.inr ⟨hgen, hkind, hpin, fun hq' => hout (rest_drop hR hq'), hfirst⟩
  · have hqc : q ∉ s.chunk p := fun hin => hout (chunk_rest hin)
    have hA := hR.small q (by rw [hgen]; exact hdest) hkind
    rw [if_neg hqc] at hA
    refine Or.inr ⟨by rw [hA.generation, hgen], by rw [hA.kind]; exact hkind, by rw [hA.pinByte, hpin],
      fun hq' => hout (rest_drop hR hq'), ?_⟩
    obtain ⟨o, ho⟩ := Option.isSome_iff_exists.1 hfirst
    rw [hR.kept _ _ o ho (Or.inr ⟨?_, rfl⟩)]
    · rfl
    · rintro ⟨hin, -⟩
      rw [show q * pageSizeCells / pageSizeCells = q by unfold pageSizeCells; omega] at hin
      exact hqc hin

/-- One chunk takes a page to its next fate, when it treats the page as its head says. -/
theorem pageFate_step (hX : LoopStart L p h₀ T₀) (hE : Evacuating L p h₀ T₀ s T F)
    (hR : ChunkResult L p must s T s' T' K) {head q : Nat}
    (hold : PageFate p h₀ s.heap T s.rest head q)
    (hheadRest : head ∈ s.rest → (s.heap.descs head).hasPins = (h₀.descs head).hasPins)
    (hstep : ((h₀.descs head).generation ≠ p.fromGen ∨ head ∈ s.rest ∨
        (h₀.descs head).hasPins = true) → (s'.heap.descs q).Alike
      (if head ∈ s.chunk p then (s.heap.descs q).reclaimed (s.heap.descs head).hasPins p.destGen
      else s.heap.descs q)) :
    PageFate p h₀ s'.heap T' s'.rest head q := by
  refine ⟨?_, ?_, ?_⟩
  · intro hkeep
    have hnc : head ∉ s.chunk p := by
      intro hin
      rcases hkeep with hgen | hrest
      · exact hgen (hE.listedFrom head (chunk_rest hin))
      · exact chunk_gone hE hR hin hrest
    have hkeep' := hkeep.imp_right fun hrest => rest_drop hR hrest
    have hA := hstep (hkeep'.imp_right Or.inl)
    rw [if_neg hnc] at hA
    exact hA.trans (hold.kept hkeep')
  · intro hgen hout hpins
    have hA := hstep (Or.inr (Or.inr hpins))
    by_cases hrest : head ∈ s.rest
    · have hin := (rest_split hR hrest).resolve_right hout
      rw [if_pos hin, hheadRest hrest, hpins] at hA
      exact hA.trans ((hold.kept (Or.inr hrest)).reclaimed _ _)
    · rw [if_neg fun hin => hrest (chunk_rest hin)] at hA
      exact hA.trans (hold.flipped hgen hrest hpins)
  · intro hgen hout hpins
    by_cases hrest : head ∈ s.rest
    · have hin := (rest_split hR hrest).resolve_right hout
      have hA := hstep (Or.inr (Or.inl hrest))
      rw [if_pos hin, hheadRest hrest, hpins] at hA
      left
      rw [hA.generation]
      rfl
    · exact reusable_step hR hX.destLive (hold.released hgen hrest hpins)

theorem pins_step (hX : LoopStart L p h₀ T₀) (hE : Evacuating L p h₀ T₀ s T F)
    (hR : ChunkResult L p must s T s' T' K) {c : Nat}
    (hc : c ∈ s.heap.pinnedCells) : PinOk s'.heap T' c := by
  have hready := ready hX hE
  rcases hE.pins c hc with ⟨hfree, hmod⟩ | ⟨hsome, hpin⟩
  · rcases hR.free _ hfree with hsame | ⟨hgen, hkind, hpin, -, hfirst⟩
    · left
      refine ⟨?_, hmod⟩
      unfold genAt
      rw [hsame]
      exact hfree
    · right
      rw [show c / pageSizeCells * pageSizeCells = c by unfold pageSizeCells at *; omega] at hfirst
      refine ⟨hfirst, Or.inr (Or.inr ⟨?_, hmod⟩)⟩
      unfold PageDesc.hasPins
      rw [hpin]
      rfl
  · obtain ⟨o, hT⟩ := Option.isSome_iff_exists.1 hsome
    have hlive := hE.shape.live hT
    by_cases hk : s.heap.kindAt c = .Large
    · obtain ⟨hmod, -, hspan, -⟩ := (hE.shape.obj c o hT).large hk
      have hA := hR.run (c / pageSizeCells) (c / pageSizeCells) hk hspan (Nat.le_refl _) (by omega)
      by_cases hin : c / pageSizeCells ∈ s.chunk p
      · rw [if_pos hin] at hA
        by_cases hpins : (s.heap.descs (c / pageSizeCells)).hasPins = true
        · right
          rw [hR.kept c c o hT (Or.inr ⟨?_, rfl⟩)]
          · refine ⟨rfl, Or.inl ?_⟩
            unfold kindAt at hk ⊢
            rw [hA.kind, hpins]
            exact hk
          · rintro ⟨-, hno | ⟨hsmall, -⟩⟩
            · rw [hpins] at hno
              cases hno
            · exact hsmall hk
        · left
          refine ⟨?_, hmod⟩
          unfold genAt
          rw [hA.generation, Bool.eq_false_iff.2 hpins]
          rfl
      · rw [if_neg hin] at hA
        right
        rw [hR.kept c c o hT (Or.inr ⟨fun hd => hin hd.1, rfl⟩)]
        refine ⟨rfl, Or.inl ?_⟩
        unfold kindAt at hk ⊢
        rw [hA.kind]
        exact hk
    · have hA := hR.small (c / pageSizeCells) hlive hk
      by_cases hin : c / pageSizeCells ∈ s.chunk p
      · rw [if_pos hin] at hA
        by_cases hpins : (s.heap.descs (c / pageSizeCells)).hasPins = true
        · right
          have hbit : (s.heap.descs (c / pageSizeCells)).isPinned (pinSlot c) = true := by
            rcases hpin with hlarge | hbit | ⟨hno, -⟩
            · exact absurd hlarge hk
            · exact hbit
            · rw [hpins] at hno
              cases hno
          rw [hR.kept c c o hT (Or.inr ⟨?_, rfl⟩)]
          · refine ⟨rfl, Or.inr (Or.inl ?_)⟩
            unfold kindAt at hk
            rw [hA.isPinned, hpins]
            simpa [PageDesc.reclaimed, PageDesc.isPinned, hk] using hbit
          · rintro ⟨-, hno | ⟨-, hl⟩⟩
            · rw [hpins] at hno
              cases hno
            · exact hl ((hready.listed c).2 hc)
        · left
          refine ⟨?_, ?_⟩
          · unfold genAt
            rw [hA.generation, Bool.eq_false_iff.2 hpins]
            rfl
          · rcases hpin with hlarge | hbit | ⟨-, hmod⟩
            · exact absurd hlarge hk
            · exact absurd (PageDesc.hasPins_of_isPinned hbit) hpins
            · exact hmod
      · rw [if_neg hin] at hA
        right
        rw [hR.kept c c o hT (Or.inr ⟨fun hd => hin hd.1, rfl⟩)]
        refine ⟨rfl, ?_⟩
        unfold kindAt
        rw [hA.kind, hA.isPinned, hA.hasPins]
        exact hpin

/-- The pages of the other generations are kept. -/
theorem other_alike (hX : LoopStart L p h₀ T₀) (hE : Evacuating L p h₀ T₀ s T F) {q : Nat}
    (hlive : (h₀.descs q).generation ≠ .Free) (hgen : (h₀.descs q).generation ≠ p.fromGen) :
    (s.heap.descs q).Alike (h₀.descs q) := by
  by_cases hk : (h₀.descs q).kind = .Large
  · obtain ⟨head, hkh, hspan, hle, hlt⟩ := hX.shape.pages.exists_head hk
    rw [(hX.shape.pages.run_page hkh ⟨hle, hlt⟩).2] at hgen
    exact (hE.run head q hkh hspan hle hlt).kept (Or.inl hgen)
  · exact (hE.small q hlive hk).kept (Or.inl hgen)

theorem other_alike_step (hX : LoopStart L p h₀ T₀) (hE : Evacuating L p h₀ T₀ s T F)
    (hR : ChunkResult L p must s T s' T' K) {q : Nat} (hlive : (h₀.descs q).generation ≠ .Free)
    (hgen : (h₀.descs q).generation ≠ p.fromGen) : (s'.heap.descs q).Alike (h₀.descs q) := by
  have hAq := other_alike hX hE hlive hgen
  refine PageDesc.Alike.trans ?_ hAq
  by_cases hk : (h₀.descs q).kind = .Large
  · obtain ⟨head, hkh, hspan, hle, hlt⟩ := hX.shape.pages.exists_head hk
    have hgh := (hX.shape.pages.run_page hkh ⟨hle, hlt⟩).2
    rw [hgh] at hgen hlive
    have hAh := other_alike hX hE hlive hgen
    have hA := hR.run head q (by rw [hAh.kind]; exact hkh) (by rw [hAh.nSpan]; exact hspan) hle
      (by rw [hAh.nSpan]; exact hlt)
    rwa [if_neg fun hin => hgen (hE.listedFrom head (chunk_rest hin))] at hA
  · have hA := hR.small q (by rw [hAq.generation]; exact hlive) (by rw [hAq.kind]; exact hk)
    rwa [if_neg fun hin => hgen (hE.listedFrom q (chunk_rest hin))] at hA

/-- A chunk leaves a word alone that leads to nothing that is copied. -/
theorem redirect_idle (hX : LoopStart L p h₀ T₀) (hE : Evacuating L p h₀ T₀ s T F)
    (hR : ChunkResult L p must s T s' T' K) {w : Word}
    (hw : ∀ t, h₀.targetCell L w = some t → ¬ ToCopy h₀ T₀ p.fromGen t) :
    redirect L s.heap K w = w := by
  apply redirect_of_none
  rw [targetCell_congr hE.control.base hE.control.nPages, Option.bind_eq_none_iff]
  intro t ht
  rw [← Option.not_isSome_iff_eq_none]
  intro hsome
  obtain ⟨hto, hin⟩ := (hR.dom t).1 hsome
  exact hw t ht ((toCopy_iff hX hE (chunk_rest hin)).1 hto)

/-- One chunk keeps the invariant. -/
theorem step (hX : LoopStart L p h₀ T₀) (hE : Evacuating L p h₀ T₀ s T F)
    (hR : ChunkResult L p must s T s' T' K) :
    Evacuating L p h₀ T₀ s' T' (advance p s F K) := by
  have hadv : ∀ {c d}, advance p s F K c = some d ↔ ∃ c', F c = some c' ∧
      ChunkFate s.heap p.pinnedWithKind (s.chunk p) K c' d := advance_some hE hR
  have hnoK : ∀ c o, T c = some o → c / pageSizeCells ∉ s.chunk p → K c = none := by
    intro c o hT hin
    refine hR.unmoved c o hT fun hd => hin hd.1
  -- an object away from the chunk keeps its place
  have haway : ∀ c c', F c = some c' → c' / pageSizeCells ∉ s.chunk p →
      advance p s F K c = some c' := by
    intro c c' hF hin
    exact hadv.2 ⟨c', hF, Or.inr ⟨fun hd => hin hd.1, rfl⟩⟩
  have hstay : ∀ c o, T₀ c = some o → c / pageSizeCells ∈ s.rest →
      Stays h₀ p.pinnedWithKind c → advance p s F K c = some c := by
    intro c o hT₀ hin hst
    have hF := hE.waiting c o hT₀ (Or.inr hin)
    obtain ⟨o', hT₀', hT⟩ := hE.fate_some c c hF
    refine hadv.2 ⟨c, hF, Or.inr ⟨?_, rfl⟩⟩
    rw [dies_iff hX hE hT]
    exact fun hd => hd.2 hst
  constructor
  · exact hR.shape
  · exact hR.regions
  · exact fun g k q hq hin => hR.regionsAway g k q hq (rest_drop hR hin)
  · exact hE.control.trans hR.control
  · rw [hR.rest]
    exact hE.nodup.sublist (List.drop_sublist _ _)
  · exact fun q hq => hE.listedFrom q (rest_drop hR hq)
  · intro c hc
    rw [hR.control.pinnedCells] at hc
    exact pins_step hX hE hR hc
  · intro c d hd
    obtain ⟨c', hF, hfate⟩ := hadv.1 hd
    obtain ⟨o, hT₀, hT⟩ := hE.fate_some c c' hF
    exact ⟨o, hT₀, hR.kept c' d o hT hfate⟩
  · intro c d e hc hd
    obtain ⟨c', hFc, hfc⟩ := hadv.1 hc
    obtain ⟨d', hFd, hfd⟩ := hadv.1 hd
    have heq : c' = d' := by
      rcases hfc with hK | ⟨-, rfl⟩ <;> rcases hfd with hK' | ⟨-, rfl⟩
      · exact hR.inj c' d' e hK hK'
      · obtain ⟨o, -, hT⟩ := hE.fate_some d e hFd
        rw [(hR.image c' e hK).1] at hT
        cases hT
      · obtain ⟨o, -, hT⟩ := hE.fate_some c e hFc
        rw [(hR.image d' e hK').1] at hT
        cases hT
      · rfl
    subst heq
    exact hE.fate_inj c d c' hFc hFd
  · intro e o hT'
    obtain ⟨c', hT, hfate⟩ := hR.origin e o hT'
    obtain ⟨c, hF⟩ := hE.fate_onto c' o hT
    exact ⟨c, hadv.2 ⟨c', hF, hfate⟩⟩
  · intro c o hT₀ hwait
    have hF := hE.waiting c o hT₀ (hwait.imp_right fun hin => rest_drop hR hin)
    refine haway c c hF ?_
    intro hin
    rcases hwait with hgen | hrest
    · exact hgen (hE.listedFrom _ (chunk_rest hin))
    · exact chunk_gone hE hR hin hrest
  · intro c o hT₀ hgen hout hst
    by_cases hin : c / pageSizeCells ∈ s.rest
    · exact hstay c o hT₀ hin hst
    · exact haway c c (hE.stays c o hT₀ hgen hin hst) fun hc => hin (chunk_rest hc)
  · intro c hto hout
    by_cases hin : c / pageSizeCells ∈ s.rest
    · obtain ⟨o, hT₀⟩ := Option.isSome_iff_exists.1 hto.object
      have hF := hE.waiting c o hT₀ (Or.inr hin)
      obtain ⟨o', hT₀', hT⟩ := hE.fate_some c c hF
      have hchunk := (rest_split hR hin).resolve_right hout
      obtain ⟨d, hK⟩ := Option.isSome_iff_exists.1
        ((hR.dom c).2 ⟨(toCopy_iff hX hE hin).2 hto, hchunk⟩)
      refine ⟨d, hadv.2 ⟨c, hF, Or.inl hK⟩, ?_⟩
      rintro rfl
      rw [(hR.image d d hK).1] at hT
      cases hT
    · obtain ⟨c', hF, hne⟩ := hE.copied c hto hin
      exact ⟨c', haway c c' hF fun hc => (hE.moved c c' hF hne).2.2.1 (chunk_rest hc), hne⟩
  · intro c hgen hout hst hto
    rw [Option.eq_none_iff_forall_ne_some]
    intro d hd
    obtain ⟨c', hF, hfate⟩ := hadv.1 hd
    by_cases hin : c / pageSizeCells ∈ s.rest
    · obtain ⟨o, hT₀, hT⟩ := hE.fate_some c c' hF
      have hFc := hE.waiting c o hT₀ (Or.inr hin)
      rw [hF] at hFc
      cases hFc
      have hchunk := (rest_split hR hin).resolve_right hout
      rcases hfate with hK | ⟨hnd, -⟩
      · have := ((hR.dom c).1 (by rw [hK]; rfl)).1
        exact hto ((toCopy_iff hX hE hin).1 this)
      · exact hnd ((dies_iff hX hE hT).2 ⟨hchunk, hst⟩)
    · rw [hE.lost c hgen hin hst hto] at hF
      cases hF
  · intro c d hd hne
    obtain ⟨c', hF, hfate⟩ := hadv.1 hd
    rcases hfate with hK | ⟨-, rfl⟩
    · obtain ⟨hto, hin⟩ := (hR.dom c').1 (by rw [hK]; rfl)
      have hcc : c' = c := by
        by_contra hcne
        exact (hE.moved c c' hF hcne).2.2.1 (chunk_rest hin)
      subst hcc
      obtain ⟨-, hout, hgen, hsmall⟩ := hR.image c' d hK
      exact ⟨(toCopy_iff hX hE (chunk_rest hin)).1 hto, chunk_gone hE hR hin,
        fun hq => hout (rest_drop hR hq), hgen, hsmall⟩
    · obtain ⟨hto, hout, hout', hgen, hsmall⟩ := hE.moved c d hF hne
      have hA := hR.small (d / pageSizeCells) (by unfold genAt at hgen; rw [hgen]; exact hX.destLive)
        hsmall
      rw [if_neg fun hin => hout' (chunk_rest hin)] at hA
      refine ⟨hto, fun hq => hout (rest_drop hR hq), fun hq => hout' (rest_drop hR hq), ?_, ?_⟩
      · unfold genAt at hgen ⊢
        rw [hA.generation, hgen]
      · unfold kindAt at hsmall ⊢
        rw [hA.kind]
        exact hsmall
  · intro c d o i hd hT₀ hi hp
    obtain ⟨c', hF, hfate⟩ := hadv.1 hd
    obtain ⟨o', hT₀', hT⟩ := hE.fate_some c c' hF
    rw [hT₀] at hT₀'
    cases hT₀'
    have hold := hE.plain c c' o i hF hT₀ hi hp
    by_cases hptr : o.IsPtr i
    · rcases hR.ptr c' d o i hT hfate hptr with heq | ⟨heq, -⟩
      · rw [heq, hold]
        exact redirect_idle hX hE hR (hp hptr)
      · rw [heq, hold]
    · rw [hR.plain c' d o i hT hfate hi hptr, hold]
  · intro q hlive hk
    have hold := hE.small q hlive hk
    refine pageFate_step hX hE hR hold ?_ ?_
    · intro hin
      exact (hold.kept (Or.inr hin)).hasPins
    · intro hcase
      have hA : (s.heap.descs q).generation ≠ .Free ∧ (s.heap.descs q).kind ≠ .Large := by
        by_cases hkeep : (h₀.descs q).generation ≠ p.fromGen ∨ q ∈ s.rest
        · have := hold.kept hkeep
          rw [this.generation, this.kind]
          exact ⟨hlive, hk⟩
        · push Not at hkeep
          have hpins := (hcase.resolve_left (not_not.2 hkeep.1)).resolve_left hkeep.2
          have := hold.flipped hkeep.1 hkeep.2 hpins
          rw [this.generation, this.kind]
          exact ⟨hX.destLive, hk⟩
      exact hR.small q hA.1 hA.2
  · intro head q hk hspan hle hlt
    have hhead := hE.run head head hk hspan (Nat.le_refl head) (by omega)
    refine pageFate_step hX hE hR (hE.run head q hk hspan hle hlt) ?_ ?_
    · intro hin
      exact (hhead.kept (Or.inr hin)).hasPins
    · intro hcase
      have hA : (s.heap.descs head).kind = .Large ∧
          (s.heap.descs head).nSpan = (h₀.descs head).nSpan := by
        by_cases hkeep : (h₀.descs head).generation ≠ p.fromGen ∨ head ∈ s.rest
        · have := hhead.kept hkeep
          rw [this.kind]
          exact ⟨hk, this.nSpan⟩
        · push Not at hkeep
          have hpins := (hcase.resolve_left (not_not.2 hkeep.1)).resolve_left hkeep.2
          have := hhead.flipped hkeep.1 hkeep.2 hpins
          rw [this.kind]
          exact ⟨hk, this.nSpan⟩
      exact hR.run head q hA.1 (by rw [hA.2]; exact hspan) hle (by rw [hA.2]; exact hlt)
  · exact fun q hfree => reusable_step hR hX.destLive (hE.free q hfree)
  · exact fun hcover => hR.covered (hE.covered hcover)
  · intro k hlive hgen hk
    refine hR.cards k ?_ (hE.cards k hlive hgen hk)
    have hA := other_alike_step hX hE hR hlive hgen
    rw [hA.generation]
    exact hlive
  · intro q hlive hgen hk
    have hAq := (hE.small q hlive hk).kept (Or.inl hgen)
    exact (hE.used q hlive hgen hk).trans (hR.used q (by rw [hAq.generation]; exact hlive)
      (by rw [hAq.kind]; exact hk) fun hin => hgen (hE.listedFrom q (chunk_rest hin)))
  · intro c o hc hlive hgen
    obtain ⟨c', hT, hfate⟩ := hR.origin c o hc
    rcases hfate with hK | ⟨-, rfl⟩
    · right
      have hsmall := (hR.image c' c hK).2.2.2
      have hA := other_alike hX hE hlive hgen
      have hA' := other_alike_step hX hE hR hlive hgen
      have hk : h₀.kindAt c ≠ .Large := by
        unfold kindAt at hsmall ⊢
        rwa [hA'.kind] at hsmall
      refine ⟨hk, (hE.used _ hlive hgen hk).trans (hR.late c' c hK ?_)⟩
      unfold genAt
      rw [hA.generation]
      exact hlive
    · exact hE.late c o hT hlive hgen

/-! ## The heap phase 2 works on -/

end Evacuating

/-- A heap between phase 1 and phase 2 of some chunk, as the root closure may find it. -/
structure Midway (L : HeapLayout) (p : ChunkParams) (h₀ : PageHeap) (T₀ : ObjTable)
    (hc : PageHeap) (Tc : ObjTable) (K : Forwarding) : Prop where
  shape : Shape L hc Tc K
  control : SameControl h₀ hc
  alike : ∀ q, (h₀.descs q).generation ≠ .Free → (h₀.descs q).generation ≠ p.fromGen →
    (hc.descs q).Alike (h₀.descs q)
  others : ∀ c o, T₀ c = some o → h₀.genAt c ≠ p.fromGen → Tc c = some o
  source : ∀ c d, K c = some d → ToCopy h₀ T₀ p.fromGen c
  sourceKind : ∀ c d, K c = some d → hc.kindAt c = h₀.kindAt c
  cards : ∀ k, (h₀.descs (k / cardsPerPage)).generation ≠ .Free →
    (h₀.descs (k / cardsPerPage)).generation ≠ p.fromGen → h₀.cards k = true → hc.cards k = true
  late : ∀ c o, Tc c = some o → h₀.genAt c ≠ .Free → h₀.genAt c ≠ p.fromGen → T₀ c = some o ∨
    (h₀.kindAt c ≠ .Large ∧ (h₀.descs (c / pageSizeCells)).wordsUsed ≤ c % pageSizeCells)

/-- The closure presents `must` whenever phase 2 calls it. -/
def Serves (L : HeapLayout) (p : ChunkParams) (h₀ : PageHeap) (T₀ : ObjTable)
    (must : Slot → Prop) : Prop :=
  ∀ hc ext Tc K, Midway L p h₀ T₀ hc Tc K →
    Presents L p.visitRoots (.new hc ext p.fromGen p.destGen .rewrite) Tc must

namespace Evacuating

theorem midway (hX : LoopStart L p h₀ T₀) (hE : Evacuating L p h₀ T₀ s T F) {hc : PageHeap}
    {Tc : ObjTable} (hI : Copying L p.fromGen p.destGen s.rest s.heap T
      (fun x => x / pageSizeCells ∈ s.chunk p) hc Tc K) : Midway L p h₀ T₀ hc Tc K where
  shape := hI.shape
  control := hE.control.trans hI.control
  alike := by
    intro q hlive hgen
    have hA := other_alike hX hE hlive hgen
    obtain ⟨hg, hk, hp, hn⟩ := hI.role q (by rw [hA.generation]; exact hlive)
    exact PageDesc.Alike.trans ⟨hg, hk, hp, hn⟩ hA
  others := by
    intro c o hT₀ hgen
    obtain ⟨o', hT₀', hT⟩ := hE.fate_some c c (hE.waiting c o hT₀ (Or.inl hgen))
    rw [hT₀] at hT₀'
    cases hT₀'
    exact hI.old c o hT
  source := by
    intro c d hK
    obtain ⟨hto, hin⟩ := (hI.dom c).1 (by rw [hK]; rfl)
    exact (toCopy_iff hX hE (chunk_rest hin)).1 hto
  sourceKind := by
    intro c d hK
    obtain ⟨hto, hin⟩ := (hI.dom c).1 (by rw [hK]; rfl)
    obtain ⟨o, ho⟩ := Option.isSome_iff_exists.1 hto.object
    rw [hE.table_rest (chunk_rest hin)] at ho
    unfold kindAt
    rw [hI.listed _ (chunk_rest hin), (listed_alike hX hE (chunk_rest hin) ho).kind]
  cards := fun k hlive hgen hk => hI.cards k (hE.cards k hlive hgen hk)
  late := by
    intro c o hc' hlive hgen
    have hA := other_alike hX hE hlive hgen
    cases hT : T c with
    | some o' =>
        have := hI.old c o' hT
        rw [hc'] at this
        cases this
        exact hE.late c o hT hlive hgen
    | none =>
        right
        have hnew := hI.late c o hc' hT (by unfold genAt; rw [hA.generation]; exact hlive)
        have hk : h₀.kindAt c ≠ .Large := by
          intro hk
          rcases hI.new c o hc' with hold | ⟨x, hK, -⟩
          · rw [hT] at hold
            cases hold
          · have hsmall := hI.copySmall x c hK
            have hlive' : (s.heap.descs (c / pageSizeCells)).generation ≠ .Free := by
              rw [hA.generation]
              exact hlive
            apply hsmall
            unfold kindAt at hk ⊢
            rw [(hI.role _ hlive').2.1, hA.kind]
            exact hk
        exact ⟨hk, (hE.used _ hlive hgen hk).trans hnew⟩

end Evacuating

/-! ## Following the moves -/

/-- The objects that have moved, and where to. -/
def Forwarding.moves (F : Forwarding) : Forwarding := fun c =>
  match F c with
  | some d => if d = c then none else some d
  | none => none

theorem Forwarding.moves_some {F : Forwarding} {c d : Nat} :
    F.moves c = some d ↔ F c = some d ∧ d ≠ c := by
  unfold Forwarding.moves
  cases F c with
  | none => simp
  | some e =>
      by_cases he : e = c
      · subst he
        simp
        intro h
        exact h.symm
      · simp only [if_neg he, Option.some.injEq]
        constructor
        · rintro rfl
          exact ⟨rfl, he⟩
        · exact And.left

/-- The pointer cells in `Good` and the words outside in `GoodExt` follow every move. -/
structure Followed (L : HeapLayout) (h₀ : PageHeap) (T₀ : ObjTable) (ext₀ : Nat → Word)
    (Good : Nat → Nat → Prop) (GoodExt : Nat → Prop) (s : ChunkState) (F : Forwarding) : Prop where
  cells : ∀ c c' o i, F c = some c' → T₀ c = some o → o.IsPtr i → Good c i →
    s.heap.mem (c' + i) = redirect L h₀ F.moves (h₀.mem (c + i))
  ext : ∀ a, GoodExt a → s.ext a = redirect L h₀ F.moves (ext₀ a)

/-- What the chunk's rewrite misses leads to nothing the chunk moves. -/
structure Traceable (L : HeapLayout) (p : ChunkParams) (must : Slot → Prop) (h₀ : PageHeap)
    (T₀ : ObjTable) (ext₀ : Nat → Word) (Good : Nat → Nat → Prop) (GoodExt : Nat → Prop)
    (s : ChunkState) (F K : Forwarding) : Prop where
  cells : ∀ c o i t, T₀ c = some o → o.IsPtr i → Good c i → F c = some c → K c = none →
    s.heap.genAt c ≠ p.destGen → c ∉ s.heap.pinnedCells → ¬ must (.cell (c + i)) →
    h₀.targetCell L (h₀.mem (c + i)) = some t → K t = none
  ext : ∀ a t, GoodExt a → ¬ must (.ext a) → h₀.targetCell L (ext₀ a) = some t → K t = none

namespace Evacuating

theorem moves_advance (hE : Evacuating L p h₀ T₀ s T F) (hR : ChunkResult L p must s T s' T' K)
    (c : Nat) : (advance p s F K).moves c = (F.moves c).or (K c) := by
  have hK_of_none : F c = none → K c = none := by
    intro hF
    rw [← Option.not_isSome_iff_eq_none]
    intro hsome
    obtain ⟨hto, hin⟩ := (hR.dom c).1 hsome
    obtain ⟨o, ho⟩ := Option.isSome_iff_exists.1 hto.object
    rw [hE.table_rest (chunk_rest hin)] at ho
    rw [hE.waiting c o ho (Or.inr (chunk_rest hin))] at hF
    cases hF
  apply Option.ext
  intro d
  rw [Forwarding.moves_some, advance_some hE hR, Option.or_eq_some_iff, Forwarding.moves_some]
  constructor
  · rintro ⟨⟨c', hF, hfate⟩, hne⟩
    rcases hfate with hK | ⟨-, rfl⟩
    · have hcc : c' = c := by
        by_contra hcne
        obtain ⟨-, hin⟩ := (hR.dom c').1 (by rw [hK]; rfl)
        exact (hE.moved c c' hF hcne).2.2.1 (chunk_rest hin)
      subst hcc
      right
      refine ⟨?_, hK⟩
      rw [Option.eq_none_iff_forall_ne_some]
      intro e he
      obtain ⟨hFe, hne'⟩ := Forwarding.moves_some.1 he
      rw [hF] at hFe
      cases hFe
      exact hne' rfl
    · exact Or.inl ⟨hF, hne⟩
  · rintro (⟨hF, hne⟩ | ⟨hnone, hK⟩)
    · refine ⟨⟨d, hF, Or.inr ⟨?_, rfl⟩⟩, hne⟩
      rintro ⟨hin, -⟩
      exact (hE.moved c d hF hne).2.2.1 (chunk_rest hin)
    · cases hF : F c with
      | none =>
          rw [hK_of_none hF] at hK
          cases hK
      | some c' =>
          have hcc : c' = c := by
            by_contra hcne
            rw [Forwarding.moves_some.2 ⟨hF, hcne⟩] at hnone
            cases hnone
          subst hcc
          refine ⟨⟨c', rfl, Or.inl hK⟩, ?_⟩
          rintro rfl
          obtain ⟨o, -, hT⟩ := hE.fate_some d d hF
          rw [(hR.image d d hK).1] at hT
          cases hT

/-- A moved object is not moved again. -/
theorem moved_once (hE : Evacuating L p h₀ T₀ s T F) (hR : ChunkResult L p must s T s' T' K)
    {c d : Nat} (hF : F.moves c = some d) : K d = none := by
  obtain ⟨hFc, hne⟩ := Forwarding.moves_some.1 hF
  rw [← Option.not_isSome_iff_eq_none]
  intro hsome
  exact (hE.moved c d hFc hne).2.2.1 (chunk_rest ((hR.dom d).1 hsome).2)

/-- Following the chunk's moves after the earlier ones is following all of them. -/
theorem redirect_advance (hE : Evacuating L p h₀ T₀ s T F) (hR : ChunkResult L p must s T s' T' K)
    (w : Word) : redirect L h₀ (advance p s F K).moves w =
      redirect L s.heap K (redirect L h₀ F.moves w) := by
  rw [redirect_congr hE.control.base hE.control.nPages]
  cases ht : h₀.targetCell L w with
  | none =>
      have hnone : ∀ G : Forwarding, (h₀.targetCell L w).bind G = none := by
        intro G
        rw [ht]
        rfl
      rw [redirect_of_none (hnone _), redirect_of_none (hnone _), redirect_of_none (hnone _)]
  | some t =>
      have hadv := moves_advance hE hR t
      cases hF : F.moves t with
      | some t' =>
          rw [hF, Option.some_or] at hadv
          rw [redirect_of_some ht hadv, redirect_of_some ht hF, redirect_of_none]
          obtain ⟨o, -, hT⟩ := hE.fate_some t t' (Forwarding.moves_some.1 hF).1
          have hlt := hE.shape.cell_lt hT
          have hP : PagesOk s.heap := hE.shape.pages
          have htarget := targetCell_rewriteTo hP
            (by rw [targetCell_congr hE.control.base hE.control.nPages]; exact ht) hlt
          rw [targetCell_congr hE.control.base hE.control.nPages,
            cellAddr_congr hE.control.base] at htarget
          rw [htarget]
          exact moved_once hE hR hF
      | none =>
          rw [hF, Option.none_or] at hadv
          have hin : (h₀.targetCell L w).bind F.moves = none := by rw [ht]; exact hF
          rw [redirect_of_none hin]
          cases hK : K t with
          | none =>
              rw [redirect_of_none (by rw [ht]; exact hadv.trans hK),
                redirect_of_none (by rw [ht]; exact hK)]
          | some d => rw [redirect_of_some ht (hadv.trans hK), redirect_of_some ht hK]

/-- A word that leads to nothing the chunk moves needs no redirection. -/
theorem redirect_skip (hE : Evacuating L p h₀ T₀ s T F) (hR : ChunkResult L p must s T s' T' K)
    {w : Word} (hw : ∀ t, h₀.targetCell L w = some t → K t = none) :
    redirect L h₀ (advance p s F K).moves w = redirect L h₀ F.moves w := by
  have heq : (h₀.targetCell L w).bind (advance p s F K).moves =
      (h₀.targetCell L w).bind F.moves := by
    cases ht : h₀.targetCell L w with
    | none => rfl
    | some t =>
        show (advance p s F K).moves t = F.moves t
        rw [moves_advance hE hR t, hw t ht, Option.or_none]
  unfold redirect
  rw [heq]

theorem followed_step {ext₀ : Nat → Word} {Good : Nat → Nat → Prop} {GoodExt : Nat → Prop}
    (hE : Evacuating L p h₀ T₀ s T F) (hR : ChunkResult L p must s T s' T' K)
    (hF : Followed L h₀ T₀ ext₀ Good GoodExt s F)
    (hT : Traceable L p must h₀ T₀ ext₀ Good GoodExt s F K) :
    Followed L h₀ T₀ ext₀ Good GoodExt s' (advance p s F K) where
  cells := by
    intro c d o i hd hT₀ hptr hgood
    obtain ⟨c', hFc, hfate⟩ := (advance_some hE hR).1 hd
    obtain ⟨o', hT₀', hTc⟩ := hE.fate_some c c' hFc
    rw [hT₀] at hT₀'
    cases hT₀'
    have hold := hF.cells c c' o i hFc hT₀ hptr hgood
    rcases hR.ptr c' d o i hTc hfate hptr with heq | ⟨heq, hK, hgen, hpin, hmust⟩
    · rw [heq, hold, redirect_advance hE hR]
    · have hcc : c' = c := by
        by_contra hne
        exact hgen (hE.moved c c' hFc hne).2.2.2.1
      subst hcc
      rw [heq, hold]
      exact (redirect_skip hE hR fun t ht =>
        hT.cells c' o i t hT₀ hptr hgood hFc hK hgen hpin hmust ht).symm
  ext := by
    intro a hgood
    rcases hR.ext a with heq | ⟨heq, hmust⟩
    · rw [heq, hF.ext a hgood, redirect_advance hE hR]
    · rw [heq, hF.ext a hgood]
      exact (redirect_skip hE hR fun t ht => hT.ext a t hgood hmust ht).symm

/-! ## The whole loop -/

end Evacuating

/-- Every chunk step of the loop starts in a state that meets `C`. -/
def ChunkState.meets (L : HeapLayout) (p : ChunkParams) (C : ChunkState → Prop) :
    Nat → ChunkState → Prop
  | 0, _ => True
  | fuel + 1, s => s.rest ≠ [] → C s ∧ ∀ s', s.step L p = .ok s' → s'.meets L p C fuel

namespace Evacuating

/-- The chunk loop: whatever a chunk preserves holds when every page has been processed. -/
theorem loop {C : ChunkState → Prop} {Q : ChunkState → ObjTable → Forwarding → Prop}
    (hX : LoopStart L p h₀ T₀) (hserves : Serves L p h₀ T₀ must) (hC : ∀ s, C s → NoReuse L p s)
    (hQ : ∀ s T F s' T' K, Evacuating L p h₀ T₀ s T F → C s → ChunkResult L p must s T s' T' K →
      Q s T F → Q s' T' (advance p s F K)) :
    ∀ fuel s T F, s.rest.length ≤ fuel → Evacuating L p h₀ T₀ s T F → Q s T F →
      s.meets L p C fuel → Outcome GcPanic.IsOom (s.loop L p fuel) fun s' =>
        s'.rest = [] ∧ ∃ T' F', Evacuating L p h₀ T₀ s' T' F' ∧ Q s' T' F' := by
  intro fuel
  induction fuel with
  | zero =>
      intro s T F hlen hE hq _
      exact ⟨List.length_eq_zero_iff.1 (Nat.le_zero.1 hlen), T, F, hE, hq⟩
  | succ fuel ih =>
      intro s T F hlen hE hq hmeets
      unfold ChunkState.loop
      by_cases hne : s.rest = []
      · rw [if_pos hne]
        exact ⟨hne, T, F, hE, hq⟩
      · rw [if_neg hne]
        obtain ⟨hCs, hnext⟩ := hmeets hne
        have hN := hC s hCs
        have hstep := (ready hX hE).step_result must hN fun hc Tc K hI =>
          hserves hc s.ext Tc K (midway hX hE hI)
        cases hs : s.step L p with
        | error e => exact hstep.failure hs
        | ok s' =>
            obtain ⟨T', K, hR⟩ := hstep.value hs
            refine ih s' T' (advance p s F K) ?_ (step hX hE hR) (hQ s T F s' T' K hE hCs hR hq)
              (hnext s' hs)
            rw [hR.rest, List.length_drop]
            have := s.chunkSize_pos p hne
            omega

end Evacuating

end NewGc
