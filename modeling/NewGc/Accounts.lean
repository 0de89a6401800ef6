import NewGc.Library.Tally
import NewGc.Survivors
import NewGc.PinRuns

/-!
# Accounts — the tallies of an evacuation

The chunk loop adds up what its phases report: objects and cells copied, pages freed and flipped.
Over a generation of small pages every object that must move is counted once, in the chunk of its
page, and every page once, as freed or as flipped.
-/

namespace NewGc

open Library PageHeap

/-! ## Phase 1 -/

/-- Cells of the object at `c`. -/
def cellsAt (T : ObjTable) (c : Nat) : Nat := (T c).elim 0 ObjInfo.totalCells

/-- Phase 1 has counted the objects to copy in `P`. -/
def CopyTally (h : PageHeap) (T : ObjTable) (fromGen : Generation) (P : Nat → Prop)
    (s : CopyState) : Prop :=
  Tally (fun c => ToCopy h T fromGen c ∧ P c) (cellsAt T) s.objs s.cells

section Phase1

variable {L : HeapLayout} {fromGen destGen : Generation} {chunk rest : List Nat} {h : PageHeap}
  {T : ObjTable} {done : List Nat} {q c : Nat} {s : CopyState}

/-- Cells without an object to copy change no tally. -/
theorem CopyTally.skip {n : Nat} (hN : CopyTally h T fromGen (PassedAt done q c) s)
    (hnone : ∀ i, i < n → ¬ ToCopy h T fromGen (c + i)) :
    CopyTally h T fromGen (PassedAt done q (c + n)) s := by
  refine hN.of_iff fun x => and_congr_right fun hx => ?_
  unfold PassedAt
  refine or_congr_right (and_congr_right fun _ => ⟨fun hlt => by omega, fun hlt => ?_⟩)
  by_contra hge
  exact hnone (x - c) (by omega) (by rwa [Nat.add_sub_cancel' (Nat.le_of_not_lt hge)])

/-- An object to copy is counted when the cursor passes it. -/
theorem CopyTally.copy {o : ObjInfo} (hS : Shape L h T Forwarding.empty)
    (hN : CopyTally h T fromGen (PassedAt done q c) s) (hT : T c = some o)
    (hto : ToCopy h T fromGen c) (hcq : c / pageSizeCells = q) (hqd : q ∉ done)
    {s' : CopyState} (hobjs : s'.objs = s.objs + 1) (hcells : s'.cells = s.cells + o.totalCells) :
    CopyTally h T fromGen (PassedAt done q (c + o.totalCells)) s' := by
  have hsize : cellsAt T c = o.totalCells := by
    unfold cellsAt
    rw [hT]
    rfl
  unfold CopyTally
  rw [hobjs, hcells, ← hsize]
  have hpos := (hS.wf hT).pos
  refine hN.insert ?_ fun x => ⟨?_, ?_⟩
  · rintro ⟨-, hin | ⟨-, hlt⟩⟩
    · exact hqd (hcq ▸ hin)
    · exact Nat.lt_irrefl c hlt
  · rintro ⟨hx, hin | ⟨hxq, hlt⟩⟩
    · exact Or.inl ⟨hx, Or.inl hin⟩
    · rcases Nat.lt_trichotomy x c with hlt' | heq | hgt
      · exact Or.inl ⟨hx, Or.inr ⟨hxq, hlt'⟩⟩
      · exact Or.inr heq
      · -- no object starts inside another
        obtain ⟨o', ho'⟩ := Option.isSome_iff_exists.1 hx.object
        have hinside : c + (x - c) = x := Nat.add_sub_cancel' (Nat.le_of_lt hgt)
        rw [← hinside] at ho'
        exact absurd ho' (fun ho' => hS.no_start_inside hT (by omega) (by omega) ho')
  · rintro (⟨hx, hin | ⟨hxq, hlt⟩⟩ | rfl)
    · exact ⟨hx, Or.inl hin⟩
    · exact ⟨hx, Or.inr ⟨hxq, by omega⟩⟩
    · exact ⟨hto, Or.inr ⟨hcq, by omega⟩⟩

/-- One round of the cell loop counts what it copies. -/
theorem phase1Cell_tally (hX : ChunkStart L fromGen destGen chunk rest h T) (hrest : q ∈ rest)
    (hqd : q ∉ done) (hgen : (h.descs q).generation = fromGen) (hkind : (h.descs q).kind ≠ .Large)
    (total : EvacResult) (hlt : c < q * pageSizeCells + (h.descs q).wordsUsed)
    (hW : WalkAt L fromGen destGen rest h T done q c s)
    (hN : CopyTally h T fromGen (PassedAt done q c) s) :
    Outcome GcPanic.IsOom (phase1Cell L fromGen destGen total c s) fun r =>
      CopyTally h T fromGen (PassedAt done q (c + r.1)) r.2 := by
  have hq := hW.1
  obtain ⟨Tc, K, hI⟩ := hW.2
  have hcq : c / pageSizeCells = q := by
    have := hX.shape.pages.used q
    unfold pageSizeCells at *
    omega
  have hdesc : s.heap.descs (c / pageSizeCells) = h.descs (c / pageSizeCells) := by
    rw [hcq]
    exact hI.listed q hrest
  have hlive : s.heap.genAt c ≠ .Free := by
    unfold genAt
    rw [hdesc, hcq, hgen]
    exact hX.fromLive
  have hone : ¬ ToCopy h T fromGen c → CopyTally h T fromGen (PassedAt done q (c + 1)) s :=
    fun hnot => hN.skip fun i hi hto => by
      have hi0 : i = 0 := by omega
      subst hi0
      exact hnot hto
  unfold phase1Cell
  rw [isMarked_congr hI.control]
  by_cases hmark : h.isMarked c = false
  · rw [if_pos hmark]
    refine hone fun hto => ?_
    rw [hto.marked] at hmark
    cases hmark
  rw [if_neg hmark]
  by_cases hstart : s.heap.isStartAt c = false
  · rw [if_pos hstart]
    refine hone fun hto => ?_
    obtain ⟨o, ho⟩ := Option.isSome_iff_exists.1 hto.object
    rw [hI.shape.isStartAt (hI.old c o ho)] at hstart
    cases hstart
  rw [if_neg hstart]
  obtain ⟨o, hTc⟩ := (hI.shape.isStartAt_iff hlive).1 (by simpa using hstart)
  have hT : T c = some o := by
    rcases hI.new c o hTc with hT | ⟨x, hx, -⟩
    · exact hT
    · exact absurd (hcq ▸ hrest) (hI.copy x c hx).2.2
  have hKc : K c = none := by
    rw [← Option.not_isSome_iff_eq_none]
    intro hsome
    rcases ((hI.dom c).1 hsome).2 with hd | ⟨-, hlt'⟩
    · exact hqd (hcq ▸ hd)
    · exact Nat.lt_irrefl c hlt'
  rw [hI.shape.accessHead hTc, hI.shape.realForwardTargetAt hlive, hKc, Option.map_none,
    Option.isSome_none, hI.shape.isConsStartAt hTc]
  dsimp only [bind, Except.bind, Bool.false_eq_true, if_false]
  rw [hI.shape.startedObjectSize hTc hKc]
  show Outcome _ (if s.heap.isPinnedCell c = true then _ else _) _
  rw [isPinnedCell_congr hI.control hdesc]
  by_cases hpin : h.isPinnedCell c = true
  · -- a pinned object is passed as a whole
    rw [if_pos hpin]
    refine hN.skip fun i hi hto => ?_
    rcases Nat.eq_zero_or_pos i with rfl | hpos
    · have hunpinned := hto.unpinned
      rw [Nat.add_zero, hpin] at hunpinned
      cases hunpinned
    · obtain ⟨o', ho'⟩ := Option.isSome_iff_exists.1 hto.object
      exact hX.shape.no_start_inside hT hi hpos ho'
  rw [if_neg hpin]
  have hto : ToCopy h T fromGen c := by
    refine ⟨by rw [hT]; rfl, ?_, ?_, by simpa using hmark, by simpa using hpin⟩
    · unfold genAt
      rw [hcq]
      exact hgen
    · unfold kindAt
      rw [hcq]
      exact hkind
  rcases halloc : s.heap.allocDest destGen o.isCons o.totalCells with ⟨dest | dest, ha⟩
  · trivial
  · obtain ⟨h₁, hA⟩ := allocDest_some hI.shape.pages hI.regions (hX.shape.wf hT) halloc
    obtain ⟨hsrc, hdest⟩ := hA.accessCopy hI.shape hX.destLive hTc
    simp only [hsrc, hdest]
    exact hN.copy hX.shape hT hto hcq hqd rfl rfl

/-- With no free page on the list, no copy disturbs it. -/
theorem sparesListed_of_busy (hbusy : ∀ q ∈ rest, (h.descs q).generation ≠ .Free)
    (s : CopyState) : SparesListed rest h s :=
  fun q hq hfree => absurd hfree (hbusy q hq)

theorem phase1ChunkPage_tally (hX : ChunkStart L fromGen destGen chunk rest h T)
    (hbusy : ∀ q ∈ rest, (h.descs q).generation ≠ .Free) (total : EvacResult)
    (hpre : done ++ [q] <+: chunk) (hB : BetweenPages L fromGen destGen rest h T done s)
    (hN : CopyTally h T fromGen (fun x => x / pageSizeCells ∈ done) s) :
    Outcome GcPanic.IsOom (phase1ChunkPage L fromGen destGen total s q)
      (CopyTally h T fromGen fun x => x / pageSizeCells ∈ done ++ [q]) := by
  obtain ⟨todo, htodo⟩ := hpre
  have hchunk : chunk = done ++ q :: todo := by rw [← htodo]; simp
  have hrest : q ∈ rest := hX.listed q (by rw [hchunk]; simp)
  have hnodup := hX.nodup
  rw [hchunk, List.nodup_append] at hnodup
  have hqd : q ∉ done := fun hq => hnodup.2.2 q hq q List.mem_cons_self rfl
  have hlisted : s.heap.descs q = h.descs q := by
    obtain ⟨Tc, K, hI⟩ := hB
    exact hI.listed q hrest
  have hskip : (∀ x, ToCopy h T fromGen x → x / pageSizeCells ≠ q) →
      CopyTally h T fromGen (fun x => x / pageSizeCells ∈ done ++ [q]) s := fun hnone =>
    hN.of_iff fun x => and_congr_right fun hx => by simp [hnone x hx]
  unfold phase1ChunkPage
  rw [hlisted]
  simp only
  split
  · rename_i hgen
    exact hskip fun x hx hxq => hgen (hxq ▸ hx.generation)
  · rename_i hgen
    split
    · rename_i hkind
      exact hskip fun x hx hxq => hx.small (by unfold kindAt; rw [hxq]; exact hkind)
    · rename_i hkind
      have hgen' : (h.descs q).generation = fromGen := not_not.1 hgen
      -- before its first cell the page has no passed object
      have hfirst : ∀ x, ToCopy h T fromGen x →
          (x / pageSizeCells ∈ done ↔ PassedAt done q (q * pageSizeCells) x) := by
        intro x hx
        unfold PassedAt
        refine ⟨Or.inl, ?_⟩
        rintro (hd | ⟨hp, hlt⟩)
        · exact hd
        · unfold pageSizeCells at *
          omega
      have hstart : WalkAt L fromGen destGen rest h T done q (q * pageSizeCells) s := by
        obtain ⟨Tc, K, hI⟩ := hB
        exact ⟨Nat.le_refl _, Tc, K, hI.weaken hfirst⟩
      have htally : CopyTally h T fromGen (PassedAt done q (q * pageSizeCells)) s :=
        hN.of_iff fun x => and_congr_right (hfirst x)
      refine (Outcome.cellLoop (I := fun c s => WalkAt L fromGen destGen rest h T done q c s ∧
        CopyTally h T fromGen (PassedAt done q c) s) (fun c s hlt hI => ?_) _ _ _ (Nat.le_refl _)
        ⟨hstart, htally⟩).mono ?_
      · refine ((phase1Cell_walk hX hrest hqd hgen' hkind total c s hlt hI.1
          fun r _ => sparesListed_of_busy hbusy r.2).both
          (phase1Cell_tally hX hrest hqd hgen' hkind total hlt hI.1 hI.2)).mono ?_
        rintro r ⟨⟨hpos, hwalk⟩, htally⟩
        exact ⟨hpos, hwalk, htally⟩
      · rintro s' ⟨c', hlast, -, htally⟩
        refine htally.of_iff fun x => and_congr_right fun hx => ?_
        unfold PassedAt
        simp only [List.mem_append, List.mem_singleton]
        refine or_congr_right (and_iff_left_of_imp fun hxq => ?_)
        obtain ⟨o, ho⟩ := Option.isSome_iff_exists.1 hx.object
        have hin := (hX.shape.obj x o ho).small hx.small
        have hpos := (hX.shape.wf ho).pos
        rw [hxq] at hin
        unfold pageSizeCells at *
        omega

/-- Phase 1 counts the objects of its chunk. -/
theorem phase1CopyChunk_tally (hX : ChunkStart L fromGen destGen chunk rest h T)
    (hbusy : ∀ q ∈ rest, (h.descs q).generation ≠ .Free) (total : EvacResult) :
    Outcome GcPanic.IsOom (h.phase1CopyChunk L fromGen destGen chunk total)
      (CopyTally h T fromGen fun x => x / pageSizeCells ∈ chunk) := by
  have hspares : ∀ s q, (s.heap.descs q).generation = fromGen → (s.heap.descs q).kind ≠ .Large →
      CellLoopMeets (q * pageSizeCells + (s.heap.descs q).wordsUsed)
        (phase1Cell L fromGen destGen total) (SparesListed rest h) (s.heap.descs q).wordsUsed
        (q * pageSizeCells) s := fun s q _ _ =>
    CellLoopMeets.of_forall (sparesListed_of_busy hbusy) _ _ _
  refine (Outcome.foldlM (I := fun done s => BetweenPages L fromGen destGen rest h T done s ∧
    CopyTally h T fromGen (fun x => x / pageSizeCells ∈ done) s) chunk ?_ ?_).mono fun s hs => hs.2
  · intro done q s hpre hI
    exact (phase1ChunkPage_between hX total hpre hI.1 (hspares s q)).both
      (phase1ChunkPage_tally hX hbusy total hpre hI.1 hI.2)
  · refine ⟨⟨T, Forwarding.empty, hX.copying.weaken fun x _ => ?_⟩, ?_⟩
    · exact ⟨fun h => h.elim, fun h => absurd h List.not_mem_nil⟩
    · exact .none fun x hx => absurd hx.2 List.not_mem_nil

end Phase1

/-! ## Phase 3 -/

/-- Phase 3 has counted every page of `done`, the ones that hold pins as flipped. -/
structure ReclaimTally (h : PageHeap) (done : List Nat) (s : ReclaimState) : Prop where
  pages : s.released + s.flipped = done.length
  flipped : s.flipped = done.countP fun q => (h.descs q).hasPins

section Phase3

variable {L : HeapLayout} {destGen : Generation} {chunk : List Nat} {pinned : List (Nat × Bool)}
  {h : PageHeap} {T : ObjTable} {K : Forwarding} {done : List Nat} {q : Nat} {s : ReclaimState}

theorem ReclaimTally.release {hx : PageHeap} (hN : ReclaimTally h done s)
    (hpins : (h.descs q).hasPins = false) :
    ReclaimTally h (done ++ [q]) { s with heap := hx, released := s.released + 1 } where
  pages := by
    have := hN.pages
    simp only [List.length_append, List.length_singleton]
    omega
  flipped := by simp [hN.flipped, hpins]

theorem ReclaimTally.flip {hx : PageHeap} (hN : ReclaimTally h done s)
    (hpins : (h.descs q).hasPins = true) :
    ReclaimTally h (done ++ [q]) { s with heap := hx, flipped := s.flipped + 1 } where
  pages := by
    have := hN.pages
    simp only [List.length_append, List.length_singleton]
    omega
  flipped := by simp [hN.flipped, hpins]

/-- A small page in use is counted once. -/
theorem phase3Page_tally {E : GcPanic → Prop} (hX : ReclaimStart L destGen chunk pinned h T K)
    (hpre : done ++ [q] <+: chunk) (hlive : (h.descs q).generation ≠ .Free)
    (hkind : (h.descs q).kind ≠ .Large)
    (hI : ∃ Tx, Reclaiming L destGen pinned h T K done s.heap Tx) (hN : ReclaimTally h done s) :
    Outcome E (phase3Page L destGen pinned s q) (ReclaimTally h (done ++ [q])) := by
  obtain ⟨Tx, hI⟩ := hI
  have hq : q ∈ chunk := hpre.subset (by simp)
  have hnew : q ∉ done := by
    have hnodup := hX.nodup.sublist hpre.sublist
    rw [List.nodup_append] at hnodup
    intro hd
    exact hnodup.2.2 q hd q (List.mem_singleton.2 rfl) rfl
  unfold phase3Page
  rw [hI.descs_todo hnew (absurd · hkind), if_neg hlive,
    if_neg (by simp [PageDesc.isLargeCont, hkind]), if_neg (by simp [PageDesc.isLargeHead, hkind])]
  by_cases hpins : (h.descs q).hasPins = true
  · rw [if_pos hpins]
    obtain ⟨hx', hok, -⟩ := hI.flipSmall hX hq hnew hlive hkind hpins
    rw [hok]
    exact hN.flip hpins
  · rw [if_neg hpins, hI.accessSmall hnew hlive hkind]
    exact hN.release (by simpa using hpins)

/-- Phase 3 counts the pages of its chunk. -/
theorem phase3Reclaim_tally {E : GcPanic → Prop} (hX : ReclaimStart L destGen chunk pinned h T K)
    (hsmall : ∀ q ∈ chunk, (h.descs q).generation ≠ .Free ∧ (h.descs q).kind ≠ .Large) :
    Outcome E (h.phase3Reclaim L destGen chunk pinned) (ReclaimTally h chunk) := by
  refine (Outcome.foldlM (I := fun done (s : ReclaimState) =>
    (∃ Tx, Reclaiming L destGen pinned h T K done s.heap Tx) ∧ ReclaimTally h done s) chunk ?_
    ?_).mono fun s hs => hs.2
  · intro done q s hpre hI
    obtain ⟨hlive, hkind⟩ := hsmall q (hpre.subset (by simp))
    exact (phase3Page_reclaiming hX hpre hI.1).both
      (phase3Page_tally hX hpre hlive hkind hI.1 hI.2)
  · exact ⟨⟨T, Reclaiming.start hX⟩, ⟨rfl, rfl⟩⟩

end Phase3

/-! ## One chunk -/

/-- What one iteration of the loop adds to the tallies. -/
structure ChunkTally (p : ChunkParams) (s : ChunkState) (T : ObjTable) (s' : ChunkState) :
    Prop where
  objects : ∃ n cells, Tally
    (fun c => ToCopy s.heap T p.fromGen c ∧ c / pageSizeCells ∈ s.chunk p) (cellsAt T) n cells ∧
      s'.total.objectsCopied = s.total.objectsCopied + n ∧
      s'.total.cellsCopied = s.total.cellsCopied + cells
  pages : s'.total.pagesFreed + s'.total.pagesFlipped =
    s.total.pagesFreed + s.total.pagesFlipped + (s.chunk p).length
  flipped : s'.total.pagesFlipped =
    s.total.pagesFlipped + (s.chunk p).countP fun q => (s.heap.descs q).hasPins

theorem ChunkReady.step_tally {L : HeapLayout} {p : ChunkParams} {s : ChunkState} {T : ObjTable}
    (must : Slot → Prop) (hX : ChunkReady L p s T)
    (hspares : s.heap.Undisturbed L p.fromGen p.destGen (s.chunk p) s.rest s.total)
    (hsmall : ∀ q ∈ s.rest, (s.heap.descs q).generation ≠ .Free ∧ (s.heap.descs q).kind ≠ .Large)
    (hv : ∀ hc Tc K, Copying L p.fromGen p.destGen s.rest s.heap T
      (fun x => x / pageSizeCells ∈ s.chunk p) hc Tc K →
      Presents L p.visitRoots (.new hc s.ext p.fromGen p.destGen .rewrite) Tc must) :
    Outcome GcPanic.IsOom (s.step L p) (ChunkTally p s T) := by
  unfold ChunkState.step
  refine ((phase1CopyChunk_copying hX.start s.total hspares).both
    (phase1CopyChunk_tally hX.start (fun q hq => (hsmall q hq).1) s.total)).bind ?_
  rintro copied ⟨⟨Tc, K, hI⟩, hcopied⟩
  have hpin : ∀ c ∈ copied.heap.pinnedCells, copied.heap.genAt c = .Free ∨ (Tc c).isSome := by
    intro c hc
    rw [hI.control.pinnedCells] at hc
    rcases hX.pins c hc with ⟨hfree, hmod⟩ | ⟨hsome, -⟩
    · by_cases hlive : copied.heap.genAt c = .Free
      · exact Or.inl hlive
      · right
        have := hI.first _ hfree hlive
        rwa [show c / pageSizeCells * pageSizeCells = c by unfold pageSizeCells at *; omega] at this
    · obtain ⟨o, ho⟩ := Option.isSome_iff_exists.1 hsome
      rw [hI.old c o ho]
      exact Or.inr rfl
  refine (phase2Rewrite_done s.ext p.fromGen p.destGen hI.shape hpin (hv _ _ _ hI)).bind ?_
  intro r hr
  have hC : ChunkCopied L p must s T copied.heap Tc K r := ⟨hX, hI, hr⟩
  refine (phase3Reclaim_tally hC.reclaimStart ?_).bind ?_
  · intro q hq
    rw [hC.chunk_listed hq]
    exact hsmall q (hX.start.listed q hq)
  intro reclaimed hN
  refine ⟨⟨copied.objs, copied.cells, hcopied, rfl, rfl⟩, ?_, ?_⟩
  · have := hN.pages
    show s.total.pagesFreed + reclaimed.released + (s.total.pagesFlipped + reclaimed.flipped) = _
    omega
  · show s.total.pagesFlipped + reclaimed.flipped = _
    rw [hN.flipped]
    refine congrArg _ (List.countP_congr fun q hq => ?_)
    rw [hC.chunk_listed hq]

/-! ## The chunk loop -/

/-- The tallies after some chunks, over the heap the loop started from. -/
structure Totals (p : ChunkParams) (h₀ : PageHeap) (T₀ : ObjTable) (s : ChunkState) : Prop where
  objects : Tally (fun c => ToCopy h₀ T₀ p.fromGen c ∧ c / pageSizeCells ∉ s.rest) (cellsAt T₀)
    s.total.objectsCopied s.total.cellsCopied
  pages : ∃ done, h₀.pagesInGen p.fromGen = done ++ s.rest ∧
    s.total.pagesFreed + s.total.pagesFlipped = done.length ∧
    s.total.pagesFlipped = done.countP fun q => (h₀.descs q).hasPins

section Loop

variable {L : HeapLayout} {p : ChunkParams} {h₀ : PageHeap} {T₀ T T' : ObjTable}
  {s s' : ChunkState} {F K : Forwarding} {must : Slot → Prop}

theorem Totals.start (hX : LoopStart L p h₀ T₀) (ext : Nat → Word) :
    Totals p h₀ T₀
      { rest := h₀.pagesInGen p.fromGen, heap := h₀, ext := ext, total := EvacResult.zero } where
  objects := by
    refine .none ?_
    rintro c ⟨hto, hout⟩
    have hlive : h₀.genAt c ≠ .Free := by
      rw [hto.generation]
      exact hX.fromLive
    exact hout (mem_pagesInGen.2 ⟨hX.shape.pages.page_lt hlive, hto.generation⟩)
  pages := ⟨[], rfl, rfl, rfl⟩

/-- One chunk adds its objects and its pages, each for the first time. -/
theorem Totals.step (hX : LoopStart L p h₀ T₀) (hE : Evacuating L p h₀ T₀ s T F)
    (hsmall : ∀ q ∈ s.rest, (h₀.descs q).kind ≠ .Large) (hR : ChunkResult L p must s T s' T' K)
    (hN : ChunkTally p s T s') (hT : Totals p h₀ T₀ s) : Totals p h₀ T₀ s' where
  objects := by
    obtain ⟨n, cells, htally, hobjects, hcells⟩ := hN.objects
    rw [hobjects, hcells]
    have hnew : Tally (fun c => ToCopy h₀ T₀ p.fromGen c ∧ c / pageSizeCells ∈ s.chunk p)
        (cellsAt T₀) n cells := by
      refine htally.congr (fun c => and_congr_left fun hin => ?_) fun c hc => ?_
      · exact hE.toCopy_iff hX (Evacuating.chunk_rest hin)
      · exact congrArg (Option.elim · 0 ObjInfo.totalCells)
          (hE.table_rest (Evacuating.chunk_rest hc.2))
    refine hT.objects.union hnew (fun c hc hc' => hc.2 (Evacuating.chunk_rest hc'.2)) fun c => ?_
    rw [← and_or_left]
    refine and_congr_right fun _ => ⟨fun hout => ?_, ?_⟩
    · by_cases hrest : c / pageSizeCells ∈ s.rest
      · exact Or.inr ((Evacuating.rest_split hR hrest).resolve_right hout)
      · exact Or.inl hrest
    · rintro (hout | hin)
      · exact fun hin => hout (Evacuating.rest_drop hR hin)
      · exact hE.chunk_gone hR hin
  pages := by
    obtain ⟨done, hdone, hpages, hflipped⟩ := hT.pages
    refine ⟨done ++ s.chunk p, ?_, ?_, ?_⟩
    · rw [hdone, hR.rest, List.append_assoc]
      exact congrArg _ (List.take_append_drop _ _).symm
    · rw [hN.pages, hpages, List.length_append]
    · rw [hN.flipped, hflipped, List.countP_append]
      refine congrArg _ (List.countP_congr fun q hq => ?_)
      have hq' := Evacuating.chunk_rest hq
      have hlive : (h₀.descs q).generation ≠ .Free := hE.listedFrom q hq' ▸ hX.fromLive
      rw [(hE.alike_rest hq' hlive fun hk => absurd hk (hsmall q hq')).hasPins]

/-- The tallies of the whole loop. -/
theorem Totals.loop (hX : LoopStart L p h₀ T₀) (hserves : Serves L p h₀ T₀ must)
    (hsmall : ∀ q, (h₀.descs q).generation = p.fromGen → (h₀.descs q).kind ≠ .Large) :
    ∀ fuel s T F, s.rest.length ≤ fuel → Evacuating L p h₀ T₀ s T F → Totals p h₀ T₀ s →
      Outcome GcPanic.IsOom (s.loop L p fuel) fun s' => s'.rest = [] ∧ Totals p h₀ T₀ s' := by
  intro fuel
  induction fuel with
  | zero =>
      intro s T F hlen _ hT
      exact ⟨List.length_eq_zero_iff.1 (Nat.le_zero.1 hlen), hT⟩
  | succ fuel ih =>
      intro s T F hlen hE hT
      unfold ChunkState.loop
      by_cases hne : s.rest = []
      · rw [if_pos hne]
        exact ⟨hne, hT⟩
      · rw [if_neg hne]
        have hlisted : ∀ q ∈ s.rest, (h₀.descs q).kind ≠ .Large := fun q hq =>
          hsmall q (hE.listedFrom q hq)
        have hbusy : ∀ q ∈ s.rest, (s.heap.descs q).generation ≠ .Free ∧
            (s.heap.descs q).kind ≠ .Large := by
          intro q hq
          have hlive : (h₀.descs q).generation ≠ .Free := hE.listedFrom q hq ▸ hX.fromLive
          have hA := hE.alike_rest hq hlive fun hk => absurd hk (hlisted q hq)
          exact ⟨hA.generation ▸ hlive, hA.kind ▸ hlisted q hq⟩
        have hpresents : ∀ hc Tc K, Copying L p.fromGen p.destGen s.rest s.heap T
            (fun x => x / pageSizeCells ∈ s.chunk p) hc Tc K →
            Presents L p.visitRoots (.new hc s.ext p.fromGen p.destGen .rewrite) Tc must :=
          fun hc Tc K hI => hserves hc s.ext Tc K (hE.midway hX hI)
        have hready := hE.ready hX
        have hspares := hE.noReuse hX hsmall
        have hstep := (hready.step_result must hspares hpresents).both
          (hready.step_tally must hspares hbusy hpresents)
        cases hs : s.step L p with
        | error e => exact hstep.failure hs
        | ok s' =>
            obtain ⟨⟨T', K, hR⟩, hN⟩ := hstep.value hs
            refine ih s' T' (Evacuating.advance p s F K) ?_ (hE.step hX hR)
              (hT.step hX hE hlisted hR hN)
            rw [hR.rest, List.length_drop]
            have := s.chunkSize_pos p hne
            omega

end Loop

/-! ## What an evacuation traces -/

/-- The cell is in the pin set, or the client has pinned it explicitly. -/
def PageHeap.Pins (h : PageHeap) (c : Nat) : Prop := c ∈ h.pinnedCells ∨ c ∈ h.explicitCells

/-- What an evacuation of `g` keeps: the objects of `g` that the presented slots, the pinned objects
and the pointers of pinned objects elsewhere lead to, within `g`. -/
inductive LedTo (L : HeapLayout) (h : PageHeap) (ext : Nat → Word) (g : Generation)
    (slots : List Slot) : Nat → Prop
  | slot {s : Slot} {c : Nat} (hs : s ∈ slots) (hgen : h.genAt c = g)
      (hc : h.pointee L (s.read h ext) = some c) : LedTo L h ext g slots c
  | pinned {c : Nat} (hpin : h.Pins c) (hgen : h.genAt c = g) (hobj : (h.objAt L c).isSome) :
      LedTo L h ext g slots c
  | crossed {x c : Nat} (hpin : h.Pins x) (hx : h.genAt x ≠ g) (hgen : h.genAt c = g)
      (hedge : Edge L h x c) : LedTo L h ext g slots c
  | step {x c : Nat} (hx : LedTo L h ext g slots x) (hgen : h.genAt c = g)
      (hedge : Edge L h x c) : LedTo L h ext g slots c

section Marks

variable {L : HeapLayout} {h hm : PageHeap} {T : ObjTable} {ext : Nat → Word} {g : Generation}
  {slots : List Slot} {c : Nat}

theorem LedTo.object (hc : LedTo L h ext g slots c) :
    ∃ o, h.objAt L c = some o := by
  cases hc with
  | slot _ _ hc => exact pointee_object hc
  | pinned _ _ hobj => exact Option.isSome_iff_exists.1 hobj
  | crossed _ _ _ hedge =>
      obtain ⟨o, i, -, -, hc⟩ := hedge
      exact pointee_object hc
  | step _ _ hedge =>
      obtain ⟨o, i, -, -, hc⟩ := hedge
      exact pointee_object hc

theorem LedTo.genAt (hc : LedTo L h ext g slots c) : h.genAt c = g := by
  cases hc with
  | slot _ hgen _ => exact hgen
  | pinned _ hgen _ => exact hgen
  | crossed _ _ hgen _ => exact hgen
  | step _ hgen _ => exact hgen

/-- Step 1 pins what the pin set and the client's pins name, and nothing else. -/
theorem Prepared.pins_iff {marked : Nat → Prop} (hM : Prepared L h T g marked hm)
    (hsmall : ∀ q, (h.descs q).kind ≠ .Large) (c : Nat) : c ∈ hm.pinnedCells ↔ h.Pins c := by
  constructor
  · intro hc
    rcases hM.newPins c hc with hpin | hpin | hlarge
    · exact Or.inl hpin
    · exact Or.inr hpin
    · exact absurd hlarge (hsmall _)
  · rintro (hpin | hpin)
    · exact hM.pinned c hpin
    · exact (hM.explicit c hpin).2.1

/-- Step 1 marks what the evacuation traces. -/
theorem Prepared.marked_of_traced (hM : Prepared L h T g (MarkedFrom L h T ext g slots) hm)
    (hS : Shape L h T Forwarding.empty) (hsmall : ∀ q, (h.descs q).kind ≠ .Large) (hg : g ≠ .Free)
    (hc : LedTo L h ext g slots c) : hm.isMarked c = true := by
  have hO := hM.objects
  induction hc with
  | slot hs hgen hc =>
      refine hM.marks _ ⟨_, hs, _, ?_, .refl⟩
      exact evacTarget_of_markTarget hS hg (markTarget_of_pointee hS hc hgen)
  | pinned hpin hgen hobj =>
      refine hM.roots _ (Or.inl ⟨(hM.pins_iff hsmall _).2 hpin, ?_, ?_⟩)
      · rwa [hS.objAt_eq] at hobj
      · rw [hO.genAt]
        exact hgen
  | @crossed x c hpin hx hgen hedge =>
      obtain ⟨o, i, ho, hi, hp⟩ := hedge
      rw [hS.objAt_eq] at ho
      refine hM.roots _ (Or.inr ⟨x, o, i, (hM.pins_iff hsmall _).2 hpin, ho, ?_, hi, ?_⟩)
      · rw [hO.genAt]
        exact hx
      · rw [markTarget_congr hO, hO.mem]
        exact markTarget_of_pointee hS hp hgen
  | @step x c hx hgen hedge ih =>
      obtain ⟨o, i, ho, hi, hp⟩ := hedge
      rw [hS.objAt_eq] at ho
      refine hM.closed x c ih (mem_markSucc.2 ⟨o, i, ho, ?_, hi, ?_⟩)
      · rw [hO.genAt]
        exact hx.genAt
      · rw [hO.mem]
        exact markTarget_of_pointee hS hp hgen

/-- What the evacuation traces is closed under the marker's targets. -/
theorem LedTo.reach (hS : Shape L h T Forwarding.empty) (hg : g ≠ .Free)
    {target : Word → Option Nat}
    (htarget : ∀ w y, target w = some y → PageMarker.markTarget L h g w = some y) {x : Nat}
    (hx : LedTo L h ext g slots x) (hr : MarkReach h T g target x c) :
    LedTo L h ext g slots c := by
  induction hr with
  | refl => exact hx
  | tail _ hstep ih =>
      obtain ⟨o, i, ho, -, hi, ht⟩ := mem_markSucc.1 hstep
      have hmark := htarget _ _ ht
      have hobj : h.objAt L _ = some o := (hS.objAt_eq _).trans ho
      exact ih.step (markTarget_cell hmark).2.1 ⟨o, i, hobj, hi, pointee_of_markTarget hS hg hmark⟩

/-- Step 1 marks nothing of the generation that the evacuation does not trace. -/
theorem Prepared.traced_of_marked (hM : Prepared L h T g (MarkedFrom L h T ext g slots) hm)
    (hS : Shape L h T Forwarding.empty) (hsmall : ∀ q, (h.descs q).kind ≠ .Large) (hg : g ≠ .Free)
    (hgen : h.genAt c = g) (hc : hm.isMarked c = true) : LedTo L h ext g slots c := by
  have hO := hM.objects
  have htarget : ∀ w y, evacTarget L h g w = some y → PageMarker.markTarget L h g w = some y :=
    fun w y => markTarget_of_evacTarget fun q _ => hsmall q
  rcases hM.sound c hc hgen (hsmall _) with ⟨s, hs, x, hx, hr⟩ | ⟨x, hx, hr⟩
  · have hmark := htarget _ _ hx
    exact (LedTo.slot hs (markTarget_cell hmark).2.1 (pointee_of_markTarget hS hg hmark)).reach hS
      hg htarget hr
  · refine LedTo.reach hS hg (fun _ _ ht => ht) ?_ hr
    rcases hx with ⟨hpin, hobj, hgenx⟩ | ⟨y, o, i, hpin, ho, hgeny, hi, ht⟩
    · refine .pinned ((hM.pins_iff hsmall x).1 hpin) ?_ ?_
      · rwa [hO.genAt] at hgenx
      · rw [hS.objAt_eq]
        exact hobj
    · rw [hO.genAt] at hgeny
      rw [markTarget_congr hO, hO.mem] at ht
      have hobj : h.objAt L y = some o := (hS.objAt_eq y).trans ho
      exact .crossed ((hM.pins_iff hsmall y).1 hpin) hgeny (markTarget_cell ht).2.1
        ⟨o, i, hobj, hi, pointee_of_markTarget hS hg ht⟩

/-- An evacuation copies what it traces and finds unpinned. -/
theorem Prepared.toCopy_iff (hM : Prepared L h T g (MarkedFrom L h T ext g slots) hm)
    (hS : Shape L h T Forwarding.empty) (hsmall : ∀ q, (h.descs q).kind ≠ .Large) (hg : g ≠ .Free)
    (hpins : h.PinsSettled) : ToCopy hm T g c ↔ LedTo L h ext g slots c ∧ ¬ h.Pins c := by
  have hO := hM.objects
  constructor
  · intro hto
    have hgen := hto.generation
    rw [hO.genAt] at hgen
    refine ⟨hM.traced_of_marked hS hsmall hg hgen hto.marked, fun hpin => ?_⟩
    have hbit : (hm.descs (c / pageSizeCells)).isPinned (pinSlot c) = true := by
      rcases hpin with hpin | hpin
      · exact hM.bits c (hsmall _) (hpins c hpin).2.2
      · exact (hM.explicit c hpin).2.2
    have hlt : c / pageSizeCells < hm.nPages := by
      rw [hO.nPages]
      exact hS.pages.page_lt (by
        show h.genAt c ≠ .Free
        rw [hgen]
        exact hg)
    have hunpinned := hto.unpinned
    unfold isPinnedCell at hunpinned
    rw [hbit] at hunpinned
    simp [hlt, (hM.pins_iff hsmall c).2 hpin] at hunpinned
  · rintro ⟨hc, hpin⟩
    obtain ⟨o, ho⟩ := hc.object
    rw [hS.objAt_eq] at ho
    refine ⟨by rw [ho]; rfl, (hO.genAt c).trans hc.genAt, ?_, hM.marked_of_traced hS hsmall hg hc, ?_⟩
    · rw [hO.kindAt]
      exact hsmall _
    · unfold isPinnedCell
      have hout : c ∉ hm.pinnedCells := fun hin => hpin ((hM.pins_iff hsmall c).1 hin)
      simp [hout]

end Marks

/-! ## The tallies of an evacuation -/

/-- The page holds a pin, conservative or explicit. -/
def PageHeap.pinsPage (h : PageHeap) (q : Nat) : Bool :=
  (h.descs q).hasPins || h.explicitCells.any fun e => e / pageSizeCells = q

theorem PageDesc.exists_pinned {d : PageDesc} (h : d.hasPins = true) :
    ∃ slot, slot < 8 ∧ d.isPinned slot = true := by
  have hbits : ∀ b : BitVec 8, (b != 0) = true → ∃ slot, slot < 8 ∧
      ((b &&& (1#8 <<< slot)) != 0) = true := by decide
  exact hbits d.pinByte h

/-- A page holds pins after step 1 when it held some before, or an explicit pin is on it. -/
theorem Prepared.hasPins_iff {L : HeapLayout} {h hm : PageHeap} {T : ObjTable} {g : Generation}
    {marked : Nat → Prop} (hM : Prepared L h T g marked hm)
    (hsmall : ∀ q, (h.descs q).kind ≠ .Large) (q : Nat) :
    (hm.descs q).hasPins = h.pinsPage q := by
  rw [Bool.eq_iff_iff]
  unfold PageHeap.pinsPage
  rw [Bool.or_eq_true, List.any_eq_true]
  constructor
  · intro hpins
    rcases hM.newBits q hpins with hold | ⟨e, he, hq⟩ | hlarge
    · exact Or.inl hold
    · exact Or.inr ⟨e, he, decide_eq_true hq⟩
    · exact absurd hlarge (hsmall q)
  · rintro (hpins | ⟨e, he, hq⟩)
    · obtain ⟨slot, hslot, hbit⟩ := PageDesc.exists_pinned hpins
      -- the first cell of the slot
      have hpage : (q * pageSizeCells + slot * cellsPerPinSlot) / pageSizeCells = q := by
        unfold pageSizeCells cellsPerPinSlot at *
        omega
      have hpin : pinSlot (q * pageSizeCells + slot * cellsPerPinSlot) = slot := by
        unfold pinSlot pageSizeCells cellsPerPinSlot at *
        omega
      have hkept := hM.bits (q * pageSizeCells + slot * cellsPerPinSlot) (hsmall _) (by
        rw [hpage, hpin]
        exact hbit)
      rw [hpage] at hkept
      exact PageDesc.hasPins_of_isPinned hkept
    · have hkept := (hM.explicit e he).2.2
      rw [of_decide_eq_true hq] at hkept
      exact PageDesc.hasPins_of_isPinned hkept

/-- What the result of an evacuation says. -/
structure Accounted (L : HeapLayout) (h : PageHeap) (ext : Nat → Word) (g : Generation)
    (slots : List Slot) (r : EvacResult) : Prop where
  objects : Tally (fun c => LedTo L h ext g slots c ∧ ¬ h.Pins c) (cellsAt (h.objAt L))
    r.objectsCopied r.cellsCopied
  flipped : r.pagesFlipped = (h.pagesInGen g).countP h.pinsPage
  pages : r.pagesFreed + r.pagesFlipped = h.countPagesInGen g

theorem PassOk.accounted {L : HeapLayout} {h : PageHeap} {T : ObjTable} {ext : Nat → Word}
    {g dest : Generation} {slots : List Slot} (hP : PassOk L h T) (hpins : h.PinsSettled)
    (hsmall : ∀ q, (h.descs q).kind ≠ .Large) (hg : g ≠ .Free) (hd : dest ≠ .Free)
    (hslots : ∀ s ∈ slots, SlotSafe h T g s) :
    Outcome GcPanic.IsOom (h.evacuateWithRoots L ext g dest (slotsVisitor L slots)) fun r =>
      Accounted L h ext g slots r.1 := by
  have hS := hP.shape
  have hshows : Shows L (slotsVisitor L slots) (.new (h.clearMarkBitsInGen g) ext g dest .mark) T
      slots := by
    have hshows := @shows_mark L h T g slots [] ext dest hS hg hslots
    unfold passSlots at hshows
    rwa [List.flatMap_nil, List.append_nil] at hshows
  obtain ⟨hm, hmark, hM⟩ := markAndPin_prepared dest hP hg hshows
  have hX := hP.loopStart (slotsVisitor L slots) hM hg hd
  have hO := hM.objects
  have hsmall' : ∀ q, ((hm.resetAllocRegions g).descs q).kind ≠ .Large := fun q =>
    hO.kind q ▸ hsmall q
  have hvisit : VisitOk (hm.resetAllocRegions g) T g slots [] := by
    refine ⟨fun s hs => slotSafe_congr (h := h) ?_ (hslots s hs), fun D hD => ?_⟩
    · exact hM.sameReset
    · exact absurd hD List.not_mem_nil
  have hserves : Serves L (hm.chunkParams g dest (slotsVisitor L slots)) (hm.resetAllocRegions g) T
      (· ∈ slots) := serves_passVisitor hX.shape rfl hvisit
  have hpages : hm.pagesInGen g = h.pagesInGen g := by
    unfold pagesInGen
    rw [hO.nPages]
    exact List.filter_congr fun q _ => by rw [hO.generation]
  rw [evacuateWithRoots_eq hg hd hmark]
  refine (Totals.loop hX hserves (fun q _ => hsmall' q) _ (hm.chunkStart ext g) T
    (Forwarding.still T) (Nat.le_refl _) (Evacuating.start hX ext EvacResult.zero)
    (Totals.start hX ext)).bind ?_
  rintro s ⟨hdone, hN⟩
  obtain ⟨done, hall, hcount, hflipped⟩ := hN.pages
  have hdone' : h.pagesInGen g = done := by
    have hlist : hm.pagesInGen g = done ++ s.rest := hall
    rw [hpages, hdone, List.append_nil] at hlist
    exact hlist
  refine ⟨?_, ?_, ?_⟩
  · refine hN.objects.congr (fun c => ?_) fun c _ => by rw [hS.table_eq]
    have hto : ToCopy (hm.resetAllocRegions g) T g c ↔ ToCopy hm T g c :=
      ⟨fun ⟨h₁, h₂, h₃, h₄, h₅⟩ => ⟨h₁, h₂, h₃, h₄, h₅⟩,
        fun ⟨h₁, h₂, h₃, h₄, h₅⟩ => ⟨h₁, h₂, h₃, h₄, h₅⟩⟩
    calc ToCopy (hm.resetAllocRegions g) T g c ∧ c / pageSizeCells ∉ s.rest
        ↔ ToCopy (hm.resetAllocRegions g) T g c := and_iff_left (by simp [hdone])
      _ ↔ ToCopy hm T g c := hto
      _ ↔ LedTo L h ext g slots c ∧ ¬ h.Pins c :=
          hM.toCopy_iff hS hsmall hg hpins
  · refine hflipped.trans ?_
    rw [hdone']
    exact List.countP_congr fun q _ => by rw [← hM.hasPins_iff hsmall q]; rfl
  · unfold countPagesInGen
    rw [hdone']
    exact hcount

namespace World

variable {L : HeapLayout} {w : World}

/-- Evacuation accounts for everything exactly once.  From any world that safe requests reach, with
settled pins and no large page, whatever was pinned and whatever slots the contract admits, for any
number of chunks: an evacuation that returns has counted every traced object it found unpinned, with its
cells, and no other, and every page of the generation, as flipped when it holds a pin and as freed
otherwise. -/
theorem evacuation_accounts_for_everything {g dest : Generation} {slots : List Slot}
    {r : EvacResult × PageHeap × (Nat → Word)} (hw : Reached L (SafeRequest L) w)
    (hallowed : w.allows L (.evacuate g dest slots) = true) (hpins : w.heap.PinsSettled)
    (hsmall : ∀ q, (w.heap.descs q).kind ≠ .Large)
    (hr : w.heap.evacuateWithRoots L w.ext g dest (slotsVisitor L slots) = .ok r) :
    Accounted L w.heap w.ext g slots r.1 := by
  obtain ⟨T, hW⟩ := safe_runs_settled hw
  simp only [allows, Bool.and_eq_true, decide_eq_true_eq] at hallowed
  obtain ⟨⟨⟨hg, hd⟩, -⟩, hslots⟩ := hallowed
  exact (hW.heap.accounted hpins hsmall hg hd fun s hs =>
    hW.slotSafe (List.all_eq_true.1 hslots s hs)).value hr

/-- A chain of two conses is copied, a third is garbage, and the fourth holds its page. -/
theorem evacuation_accounts_for_everything_pair : ∃ w r,
    (lispWorld 8 []).run lispLayout garbageOps = some w ∧
      w.heap.evacuateWithRoots lispLayout w.ext .G0 .G1 (slotsVisitor lispLayout [.ext 0]) = .ok r ∧
        (r.1.objectsCopied = 2 ∧ r.1.pagesFlipped = 1) ∧
          Accounted lispLayout w.heap w.ext .G0 [.ext 0] r.1 := by
  have hcheck : (((lispWorld 8 []).run lispLayout garbageOps).map fun w =>
      (smallPages w.heap && w.allows lispLayout (.evacuate .G0 .G1 [.ext 0]),
        (w.heap.evacuateWithRoots lispLayout w.ext .G0 .G1
          (slotsVisitor lispLayout [.ext 0])).toOption.map fun r =>
            (r.1.objectsCopied, r.1.pagesFlipped))) = some (true, some (2, 1)) := by
    decide +kernel
  obtain ⟨w, hw, hpair⟩ := Option.map_eq_some_iff.1 hcheck
  rw [Prod.mk.injEq, Bool.and_eq_true] at hpair
  obtain ⟨⟨hpages, hallowed⟩, hevac⟩ := hpair
  obtain ⟨hreached, T, hW⟩ := fresh_run_reached (by decide) (by decide) hw
  cases hr : w.heap.evacuateWithRoots lispLayout w.ext .G0 .G1
      (slotsVisitor lispLayout [.ext 0]) with
  | error e =>
      rw [hr] at hevac
      cases hevac
  | ok r =>
      rw [hr] at hevac
      have hcounts : (r.1.objectsCopied, r.1.pagesFlipped) = (2, 1) := Option.some.inj hevac
      rw [Prod.mk.injEq] at hcounts
      exact ⟨w, r, hw, hr, hcounts, evacuation_accounts_for_everything hreached hallowed
        hW.pinsSettled (small_of_pages hW.heap.shape.pages hpages) hr⟩

end World

end NewGc
