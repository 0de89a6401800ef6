import NewGc.PoolRuns

/-!
# Cohorts — the promotion schedule

An evacuation between two generations disposes of every page of the first one: a small page is
flipped or released, a large run follows its head, and no page is opened in the generation that is
being emptied.  The counters make every third minor collection promote G0 and every fifth promotion
of G0 promote G1.
-/

namespace NewGc

open Library PageHeap

/-! ## Emptying a generation -/

/-- The chunk loop of an evacuation out of `fromGen`: the runs are whole, and whatever is still in
`fromGen` is still to be visited, in ascending order. -/
structure Emptying (fromGen : Generation) (P : Pool) (s : ChunkState) : Prop where
  whole : s.heap.pool.Whole
  nPages : s.heap.pool.nPages = P.nPages
  sorted : s.rest.Pairwise (· < ·)
  inside : ∀ q ∈ s.rest, q < P.nPages
  ahead : ∀ p < P.nPages, (s.heap.pool.role p).generation = fromGen → p ∈ s.rest

/-- Phase 3 over a first part of the pages ahead leaves none of them in `fromGen`. -/
theorem phase3Reclaim_empties {L : HeapLayout} {h : PageHeap} {fromGen destGen : Generation}
    (hne : fromGen ≠ destGen) (hfrom : fromGen ≠ .Free) (hg : destGen ≠ .Free)
    (hwhole : h.pool.Whole) {chunk rest : List Nat} (hpre : chunk <+: rest)
    (hsorted : rest.Pairwise (· < ·)) (hinside : ∀ q ∈ rest, q < h.nPages)
    (hahead : ∀ p < h.nPages, (h.pool.role p).generation = fromGen → p ∈ rest)
    (pinned : List (Nat × Bool)) :
    Outcome AnyPanic (h.phase3Reclaim L destGen chunk pinned) fun s =>
      s.heap.pool.Whole ∧ s.heap.pool.nPages = h.pool.nPages ∧
        ∀ p < h.nPages, (s.heap.pool.role p).generation = fromGen → p ∈ rest ∧ p ∉ chunk := by
  refine Outcome.foldlM (I := fun done (s : ReclaimState) =>
    s.heap.pool.Whole ∧ s.heap.pool.nPages = h.pool.nPages ∧
      ∀ p < h.nPages, (s.heap.pool.role p).generation = fromGen → p ∈ rest ∧ p ∉ done) chunk ?_
    ⟨hwhole, rfl, fun p hp hgen => ⟨hahead p hp hgen, List.not_mem_nil⟩⟩
  rintro done a s hdone ⟨hW, hn, hrest⟩
  obtain ⟨more, rfl⟩ := hdone.trans hpre
  -- what is ahead of `a` in the list has a higher index
  have hlater : ∀ q ∈ more, a < q := by
    rw [List.append_assoc, List.pairwise_append] at hsorted
    exact (List.pairwise_cons.1 hsorted.2.1).1
  have ha : a < s.heap.nPages := by
    rw [show s.heap.nPages = h.nPages from hn]
    exact hinside a (by simp)
  refine (phase3Page_event hg pinned s ha).mono ?_
  rintro s' (⟨hsame, hskip⟩ | ⟨e, he, hen, hafter⟩)
  · -- a page passed over is not in `fromGen`: the head of its run would be ahead of it
    have hnot : (s.heap.pool.role a).generation ≠ fromGen := by
      intro hgen
      rcases hskip with hfree | ⟨hk, hz⟩
      · exact hfrom (hgen.symm.trans hfree)
      · obtain ⟨q, hqa, hqk, hqs⟩ := hW.head a hk hz
        have hqgen := (hW.inner q a hqk hqa hqs).2.2
        rw [hgen] at hqgen
        have hqlt : q < h.nPages := by
          have : s.heap.nPages = h.nPages := hn
          omega
        obtain ⟨hmem, hout⟩ := hrest q hqlt hqgen.symm
        simp only [List.append_assoc, List.mem_append, List.singleton_append,
          List.mem_cons] at hmem
        rcases hmem with hd | heq | hm
        · exact hout hd
        · omega
        · exact absurd (hlater q hm) (by omega)
    rw [hsame]
    refine ⟨hW, hn, ?_⟩
    intro p hp hgen
    obtain ⟨hmem, hout⟩ := hrest p hp hgen
    refine ⟨hmem, ?_⟩
    rw [List.mem_append, List.mem_singleton]
    rintro (hd | rfl)
    · exact hout hd
    · exact hnot hgen
  · rw [hafter]
    refine ⟨hW.after he.evac.whole hen, by simpa using hn, ?_⟩
    intro p hp hgen
    obtain ⟨hmem, hout⟩ := hrest p hp (he.evac.source hne hfrom hgen)
    refine ⟨hmem, ?_⟩
    rw [List.mem_append, List.mem_singleton]
    rintro (hd | rfl)
    · exact hout hd
    · -- the page itself is Free or in the destination now
      cases he with
      | release =>
          simp only [Pool.after, Function.update_self] at hgen
          exact hfrom hgen.symm
      | releaseRun n =>
          have hin : Pool.Within p n p := ⟨le_rfl, by have := hen.2.2; omega⟩
          simp only [Pool.after, if_pos hin] at hgen
          exact hfrom hgen.symm
      | flip =>
          simp only [Pool.after, Function.update_self] at hgen
          exact hne hgen.symm
      | flipRun n =>
          have hin : Pool.Within p n p := ⟨le_rfl, by have := hen.2.2.2; omega⟩
          simp only [Pool.after, if_pos hin] at hgen
          exact hne hgen.symm

/-- One chunk. -/
theorem chunkStep_empties {L : HeapLayout} {p : ChunkParams} (hV : p.visitRoots.KeepsPool)
    (hne : p.fromGen ≠ p.destGen) (hfrom : p.fromGen ≠ .Free) (hg : p.destGen ≠ .Free) {P : Pool}
    {s : ChunkState} (hE : Emptying p.fromGen P s) :
    Outcome AnyPanic (s.step L p) fun s' => Emptying p.fromGen P s' ∧
      s'.rest = s.rest.drop (s.heap.chunkSize p.fromGen p.pinnedPages s.rest.length) := by
  unfold ChunkState.step
  refine (phase1CopyChunk_steps s.heap p.fromGen hg (s.chunk p) s.total).bind fun copied h₁ => ?_
  refine ((visitInvariant_pool copied.heap.pool).phase2Rewrite rfl s.ext p.fromGen p.destGen
    (hV copied.heap.pool)).bind fun r h₂ => ?_
  have hopened : Pool.Steps (Pool.EvacEvent p.destGen) s.heap.pool r.1.pool := by
    rw [h₂]
    exact h₁.mono fun e he => he.evac
  have hn : r.1.nPages = P.nPages := hopened.fixed.1.trans hE.nPages
  have hwhole : r.1.pool.Whole := hE.whole.steps (fun e he => he.whole) hopened
  -- copying opened pages in the destination only
  have hahead : ∀ q < r.1.nPages, (r.1.pool.role q).generation = p.fromGen → q ∈ s.rest :=
    fun q hq hgen => hE.ahead q (by omega) (hopened.source hne hfrom hgen)
  refine (phase3Reclaim_empties hne hfrom hg hwhole (List.take_prefix _ _) hE.sorted
    (fun q hq => by rw [hn]; exact hE.inside q hq) hahead p.pinnedWithKind).bind ?_
  rintro reclaimed ⟨hW, hn', hrest⟩
  refine ⟨⟨hW, hn'.trans hn, hE.sorted.sublist (List.drop_sublist _ _), ?_, ?_⟩, rfl⟩
  · exact fun q hq => hE.inside q (List.mem_of_mem_drop hq)
  · intro q hq hgen
    obtain ⟨hmem, hout⟩ := hrest q (by omega) hgen
    rw [← List.take_append_drop (s.heap.chunkSize p.fromGen p.pinnedPages s.rest.length) s.rest,
      List.mem_append] at hmem
    exact hmem.resolve_left hout

theorem chunkLoop_empties {L : HeapLayout} {p : ChunkParams} (hV : p.visitRoots.KeepsPool)
    (hne : p.fromGen ≠ p.destGen) (hfrom : p.fromGen ≠ .Free) (hg : p.destGen ≠ .Free) {P : Pool} :
    ∀ fuel (s : ChunkState), Emptying p.fromGen P s → s.rest.length ≤ fuel →
      Outcome AnyPanic (s.loop L p fuel) fun s' => Emptying p.fromGen P s' ∧ s'.rest = [] := by
  intro fuel
  induction fuel with
  | zero =>
      intro s hE hlen
      exact ⟨hE, List.length_eq_zero_iff.1 (Nat.le_zero.1 hlen)⟩
  | succ fuel ih =>
      intro s hE hlen
      unfold ChunkState.loop
      split
      · rename_i hnil
        exact ⟨hE, hnil⟩
      · rename_i hcons
        have hpos := List.length_pos_iff.2 hcons
        refine (chunkStep_empties hV hne hfrom hg hE).bind ?_
        rintro s' ⟨hE', hrest⟩
        refine ih s' hE' ?_
        have := s.chunkSize_pos p hcons
        rw [hrest, List.length_drop]
        omega

/-- An evacuation between two generations leaves no page in the first. -/
theorem evacuateWithRoots_empties {L : HeapLayout} {h : PageHeap} (hwhole : h.pool.Whole)
    (ext : Nat → Word) {fromGen destGen : Generation} (hne : fromGen ≠ destGen) {V : RootVisitor}
    (hV : V.KeepsPool) :
    Outcome AnyPanic (h.evacuateWithRoots L ext fromGen destGen V) fun r =>
      r.2.1.pagesInGen fromGen = [] := by
  unfold evacuateWithRoots
  split
  · trivial
  · rename_i hfrom
    split
    · trivial
    · rename_i hg
      refine (markAndPin_pool h ext fromGen destGen hV).bind fun r hpool => ?_
      have hn : r.1.nPages = h.pool.nPages := congrArg Pool.nPages hpool
      have hstart : Emptying fromGen h.pool (r.1.chunkStart r.2 fromGen) := by
        refine ⟨?_, hn, List.pairwise_lt_range.filter _, ?_, ?_⟩
        · show r.1.pool.Whole
          rw [hpool]
          exact hwhole
        · intro q hq
          rw [← hn]
          exact List.mem_range.1 (List.mem_filter.1 hq).1
        · intro p hp hgen
          exact List.mem_filter.2 ⟨List.mem_range.2 (by rw [hn]; exact hp), decide_eq_true hgen⟩
      refine (chunkLoop_empties (p := r.1.chunkParams fromGen destGen V) hV hne hfrom hg _ _ hstart
        le_rfl).bind ?_
      rintro s ⟨hE, hnil⟩
      show List.filter _ _ = []
      rw [List.filter_eq_nil_iff]
      intro p hp hgen
      have hlt : p < h.pool.nPages := by
        rw [← hE.nPages]
        exact List.mem_range.1 hp
      have := hE.ahead p hlt (of_decide_eq_true hgen)
      rw [hnil] at this
      cases this

/-! ## The cycles -/

/-- Between two cycles: the runs are whole and the counters below their thresholds. -/
structure OnSchedule (P : Pool) : Prop where
  whole : P.Whole
  minors : P.minors < g0PromotionThreshold
  promotes : P.promotes < g1PromotionThreshold

/-- A generation without pages has none after an evacuation into another one. -/
theorem emptied_steps {h h' : PageHeap} {g dest : Generation}
    (hs : Pool.Steps (Pool.EvacEvent dest) h.pool h'.pool) (hg : g ≠ dest) (hfree : g ≠ .Free)
    (hnone : h.pagesInGen g = []) : h'.pagesInGen g = [] := by
  unfold pagesInGen at hnone ⊢
  rw [List.filter_eq_nil_iff] at hnone ⊢
  intro p hp hgen
  have hn : h'.nPages = h.nPages := hs.fixed.1
  rw [hn] at hp
  exact hnone p hp (decide_eq_true (hs.source hg hfree (of_decide_eq_true hgen)))

/-- What an evacuation inside a cycle leaves for the rest of the cycle. -/
structure Evacuated (h h' : PageHeap) (fromGen destGen : Generation) : Prop where
  steps : Pool.Steps (Pool.EvacEvent destGen) h.pool h'.pool
  emptied : fromGen ≠ destGen → h'.pagesInGen fromGen = []

theorem Evacuated.whole {h h' : PageHeap} {fromGen destGen : Generation}
    (hE : Evacuated h h' fromGen destGen) (hW : h.pool.Whole) : h'.pool.Whole :=
  hW.steps (fun _ he => Pool.EvacEvent.whole he) hE.steps

theorem evacuateWithRoots_evacuated {L : HeapLayout} {h : PageHeap} (hW : h.pool.Whole)
    (ext : Nat → Word) (fromGen destGen : Generation) {V : RootVisitor} (hV : V.KeepsPool) :
    Outcome AnyPanic (h.evacuateWithRoots L ext fromGen destGen V) fun r =>
      Evacuated h r.2.1 fromGen destGen := by
  refine .of_value ?_ fun _ _ => trivial
  intro r hr
  exact ⟨(evacuateWithRoots_steps h ext fromGen destGen hV).value hr,
    fun hne => (evacuateWithRoots_empties hW ext hne hV).value hr⟩

/-- What a minor collection does to the schedule: it counts itself, and promotes when the count
reaches the threshold. -/
structure MinorSchedule (h : PageHeap) (r : CollectResult × PageHeap × (Nat → Word)) : Prop where
  schedule : OnSchedule r.2.1.pool
  promotedG0 : r.1.promotedG0 = true → r.2.1.pagesInGen .G0 = []
  promotedG1 : r.1.promotedG1 = true → r.2.1.pagesInGen .G0 = [] ∧ r.2.1.pagesInGen .G1 = []
  counted : r.1.promotedG0 = false → r.2.1.pool.minors = h.pool.minors + 1

theorem collectMinor_schedule {L : HeapLayout} {h : PageHeap} (hI : OnSchedule h.pool)
    (ext : Nat → Word) {V : RootVisitor} (hV : V.KeepsPool) :
    Outcome AnyPanic (h.collectMinor L ext V) (MinorSchedule h) := by
  have hsucc : ∀ {n}, n < 5 → saturatingSuccU32 n = n + 1 := by
    intro n hn
    unfold saturatingSuccU32
    omega
  have hminors : h.minorsSinceG0Promote < 3 := hI.minors
  have hpromotes : h.g0PromotesSinceG1Promote < 5 := hI.promotes
  unfold collectMinor
  dsimp only
  have hscan := keepsPool_withCardScan (L := L) hV h.descs
  have hW₀ : PageHeap.pool { h with
      minorsSinceG0Promote := saturatingSuccU32 h.minorsSinceG0Promote } |>.Whole :=
    ⟨hI.whole.freeKind, hI.whole.inner, hI.whole.head⟩
  refine (evacuateWithRoots_evacuated hW₀ ext .G0 _ hscan).bind fun r hE => ?_
  have hW := hE.whole hW₀
  have hcounters := hE.steps.counters
  split
  · -- the third minor since the last promotion
    rename_i hdue
    rw [if_pos hdue] at hE
    have hempty := hE.emptied (by decide)
    have hcount : saturatingSuccU32 r.2.1.g0PromotesSinceG1Promote =
        h.g0PromotesSinceG1Promote + 1 := by
      rw [show r.2.1.g0PromotesSinceG1Promote = h.g0PromotesSinceG1Promote from hcounters.2]
      exact hsucc hpromotes
    split
    · -- the cascade: the fifth promotion of G0 promotes G1
      have hW₁ : PageHeap.pool { r.2.1 with
          minorsSinceG0Promote := 0
          g0PromotesSinceG1Promote :=
            saturatingSuccU32 r.2.1.g0PromotesSinceG1Promote } |>.Whole :=
        ⟨hW.freeKind, hW.inner, hW.head⟩
      refine (evacuateWithRoots_evacuated hW₁ r.2.2 .G1 .Tenured hscan).bind fun r' hE' => ?_
      have hW' := hE'.whole hW₁
      have hG0 : r'.2.1.pagesInGen .G0 = [] :=
        emptied_steps hE'.steps (by decide) (by decide) hempty
      refine (finishCycle_ends L _).bind ?_
      rintro h' rfl
      refine ⟨⟨⟨hW'.freeKind, hW'.inner, hW'.head⟩, ?_, Nat.zero_lt_succ _⟩, fun _ => hG0,
        fun _ => ⟨hG0, hE'.emptied (by decide)⟩, (fun hfalse => by cases hfalse)⟩
      show r'.2.1.pool.minors < 3
      rw [hE'.steps.counters.1]
      exact Nat.zero_lt_succ _
    · rename_i hbelow
      have hlt : saturatingSuccU32 r.2.1.g0PromotesSinceG1Promote < 5 := Nat.lt_of_not_le hbelow
      refine (finishCycle_ends L _).bind ?_
      rintro h' rfl
      exact ⟨⟨⟨hW.freeKind, hW.inner, hW.head⟩, Nat.zero_lt_succ _, hlt⟩, fun _ => hempty,
        (fun hfalse => by cases hfalse), (fun hfalse => by cases hfalse)⟩
  · rename_i hnot
    have hcount : r.2.1.minorsSinceG0Promote = h.minorsSinceG0Promote + 1 := by
      rw [show r.2.1.minorsSinceG0Promote = saturatingSuccU32 h.minorsSinceG0Promote
        from hcounters.1]
      exact hsucc (by omega)
    have hlt : saturatingSuccU32 h.minorsSinceG0Promote < 3 := by
      exact Nat.lt_of_not_le fun hle => hnot (decide_eq_true hle)
    refine (finishCycle_ends L _).bind ?_
    rintro h' rfl
    refine ⟨⟨⟨hW.freeKind, hW.inner, hW.head⟩, ?_, ?_⟩, (fun hfalse => by cases hfalse),
      (fun hfalse => by cases hfalse), fun _ => hcount⟩
    · show r.2.1.pool.minors < 3
      rw [hcounters.1]
      exact hlt
    · show r.2.1.pool.promotes < 5
      rw [hcounters.2]
      exact hpromotes

/-- A major collection empties G1. -/
theorem collectMajor_schedule {L : HeapLayout} {h : PageHeap} (hI : OnSchedule h.pool)
    (ext : Nat → Word) {V : RootVisitor} (hV : V.KeepsPool) :
    Outcome AnyPanic (h.collectMajor L ext V) fun r =>
      OnSchedule r.2.1.pool ∧ r.2.1.pagesInGen .G1 = [] := by
  unfold collectMajor
  refine (evacuateWithRoots_evacuated hI.whole ext .G1 .Tenured
    (keepsPool_withCardScan hV _)).bind fun r hE => ?_
  have hW := hE.whole hI.whole
  refine (evacuateWithRoots_evacuated hW r.2.2 .G0 .G0
    (keepsPool_withCardScan hV _)).bind fun r' hE' => ?_
  have hW' := hE'.whole hW
  have hG1 : r'.2.1.pagesInGen .G1 = [] :=
    emptied_steps hE'.steps (by decide) (by decide) (hE.emptied (by decide))
  refine (finishCycle_ends L _).bind ?_
  rintro h' rfl
  exact ⟨⟨⟨hW'.freeKind, hW'.inner, hW'.head⟩, Nat.zero_lt_succ _, Nat.zero_lt_succ _⟩, hG1⟩

/-- A full collection empties G0 and G1. -/
theorem collectFull_schedule {L : HeapLayout} {h : PageHeap} (hI : OnSchedule h.pool)
    (ext : Nat → Word) {V : RootVisitor} (hV : V.KeepsPool) :
    Outcome AnyPanic (h.collectFull L ext V) fun r =>
      OnSchedule r.2.1.pool ∧ r.2.1.pagesInGen .G0 = [] ∧ r.2.1.pagesInGen .G1 = [] := by
  unfold collectFull
  refine (evacuateWithRoots_evacuated hI.whole ext .G0 .G1
    (keepsPool_withCardScan hV _)).bind fun r hE => ?_
  have hW := hE.whole hI.whole
  refine (evacuateWithRoots_evacuated hW r.2.2 .G1 .Tenured
    (keepsPool_withCardScan hV _)).bind fun r' hE' => ?_
  have hW' := hE'.whole hW
  refine (evacuateWithRoots_evacuated hW' r'.2.2 .Tenured .Tenured hV).bind fun r'' hE'' => ?_
  have hW'' := hE''.whole hW'
  -- neither of the later passes opens a page of the generations already emptied
  have hG0' : r'.2.1.pagesInGen .G0 = [] :=
    emptied_steps hE'.steps (by decide) (by decide) (hE.emptied (by decide))
  have hG0 : r''.2.1.pagesInGen .G0 = [] :=
    emptied_steps hE''.steps (by decide) (by decide) hG0'
  have hG1 : r''.2.1.pagesInGen .G1 = [] :=
    emptied_steps hE''.steps (by decide) (by decide) (hE'.emptied (by decide))
  refine (finishCycle_ends L _).bind ?_
  rintro h' rfl
  exact ⟨⟨⟨hW''.freeKind, hW''.inner, hW''.head⟩, Nat.zero_lt_succ _, Nat.zero_lt_succ _⟩,
    hG0, hG1⟩

theorem collectAuto_schedule {L : HeapLayout} {h : PageHeap} (hI : OnSchedule h.pool)
    (ext : Nat → Word) (thresholdBps : Nat) {V : RootVisitor} (hV : V.KeepsPool) :
    Outcome AnyPanic (h.collectAuto L ext thresholdBps V) fun r => OnSchedule r.2.1.pool := by
  unfold collectAuto
  split
  · exact (collectMajor_schedule hI ext hV).bind fun r hr => hr.1
  · exact (collectMinor_schedule hI ext hV).bind fun r hr => hr.schedule

/-! ## Runs -/

namespace World

/-- The requests that leave the large runs whole: a large object gets all its pages or none, in a
number its head can record, and no large page is young when pages are released early. -/
def KeepsRuns (L : HeapLayout) (w : World) : Op → Prop
  | .allocLarge g header =>
      largePages (headerCells L header) < 65536 ∧ ¬ w.heap.CutsRun (headerCells L header) g
  | .minorWithStatic _ _ _ => ∀ p ∈ w.heap.pagesInGen .G0, (w.heap.descs p).kind ≠ .Large
  | _ => True

instance (L : HeapLayout) (w : World) (op : Op) : Decidable (w.KeepsRuns L op) := by
  cases op <;> unfold KeepsRuns <;> infer_instance

/-- A large request that is not cut claims its whole run or nothing. -/
theorem step_allocLarge_whole {L : HeapLayout} {w w' : World} {g : Generation} {header : Word}
    (hg : g ≠ .Free) (hstep : w.step L (.allocLarge g header) = .ok w')
    (hkeeps : w.KeepsRuns L (.allocLarge g header)) :
    Pool.Steps Pool.WholeEvent w.heap.pool w'.heap.pool := by
  obtain ⟨hsize, hcut⟩ := hkeeps
  rcases step_allocLarge hg hstep with heq | ⟨start, m, hen, hafter, hgranted⟩
  · exact .of_eq heq
  · cases hres : (w.heap.tryAllocLarge (headerCells L header) g).1 with
    | some cell =>
        have hm := hgranted (by rw [hres]; exact Option.some_ne_none cell)
        exact .of (.claim start m _ g) (Or.inr ⟨hm, hsize⟩) hen hafter
    | none =>
        -- refused, and nothing was stamped
        have hclean := (tryAllocLarge_failedCleanly hg).2 hcut hres
        cases hstep
        rw [withHeader_pool] at hafter ⊢
        have hrole : (w.heap.tryAllocLarge (headerCells L header) g).2.pool.role =
            w.heap.pool.role := by
          funext p
          show ((w.heap.tryAllocLarge (headerCells L header) g).2.descs p).role =
            (w.heap.descs p).role
          rw [hclean.descs]
        rw [hafter] at hrole
        exact .of_eq (hafter.trans (Pool.after_claim_eq hrole))

/-- The early release under that condition. -/
theorem released_onSchedule {L : HeapLayout} {w : World} {l : List Nat} {area : StaticArea}
    {ranges : List (Nat × Nat)} {roots : List Nat}
    (hkeeps : w.KeepsRuns L (.minorWithStatic area ranges roots)) (hI : OnSchedule w.heap.pool)
    (hnodup : l.Nodup)
    (hl : ∀ p ∈ l, p < w.heap.nPages ∧ (w.heap.pool.role p).generation = .G0) :
    OnSchedule (l.foldl (fun P p => P.after (.drop p)) w.heap.pool) := by
  have hfreed := Pool.Steps.foldl_drop (Pool.EvacEvent .G0) Pool.Event.release
    (fun _ => trivial) (fun _ _ => rfl) l w.heap.pool hnodup
    (fun p hp => ⟨(hl p hp).1, hkeeps p (List.mem_filter.2
      ⟨List.mem_range.2 (hl p hp).1, decide_eq_true (hl p hp).2⟩), by rw [(hl p hp).2]; decide⟩) ?_
  · refine ⟨hI.whole.steps (fun _ he => he.whole) hfreed, ?_, ?_⟩
    · rw [hfreed.counters.1]
      exact hI.minors
    · rw [hfreed.counters.2]
      exact hI.promotes
  · rintro P p q hne ⟨hlt, hk, hlive⟩
    refine ⟨hlt, ?_, ?_⟩
    · simpa only [Pool.after, Function.update_of_ne hne] using hk
    · simpa only [Pool.after, Function.update_of_ne hne] using hlive

/-- A request that does not collect keeps the runs whole and does not count. -/
theorem step_quiet {L : HeapLayout} {w w' : World} {op : Op} (hvalid : op.valid = true)
    (hstep : w.step L op = .ok w') (hkeeps : w.KeepsRuns L op) (hquiet : op.collects = false)
    (hI : OnSchedule w.heap.pool) :
    OnSchedule w'.heap.pool ∧ w'.heap.pool.minors = w.heap.pool.minors := by
  by_cases hlarge : ∃ g header, op = .allocLarge g header
  · obtain ⟨g, header, rfl⟩ := hlarge
    have hg := of_decide_eq_true hvalid
    have hW := hI.whole.steps (fun _ he => he) (step_allocLarge_whole hg hstep hkeeps)
    -- a claim touches roles only
    rcases step_allocLarge hg hstep with heq | ⟨start, m, -, heq, -⟩
    · rw [heq] at hW ⊢
      exact ⟨hI, rfl⟩
    · rw [heq] at hW ⊢
      exact ⟨⟨hW, hI.minors, hI.promotes⟩, rfl⟩
  · push Not at hlarge
    obtain ⟨g, hs⟩ := step_opens hvalid hstep hlarge hquiet
    have hevac := hs.mono fun _ he => he.evac
    refine ⟨⟨hI.whole.steps (fun _ he => he.whole) hevac, ?_, ?_⟩, hevac.counters.1⟩
    · rw [hevac.counters.1]
      exact hI.minors
    · rw [hevac.counters.2]
      exact hI.promotes

/-- One request keeps the schedule. -/
theorem step_onSchedule {L : HeapLayout} {w w' : World} {op : Op} (hvalid : op.valid = true)
    (hstep : w.step L op = .ok w') (hkeeps : w.KeepsRuns L op) (hI : OnSchedule w.heap.pool) :
    OnSchedule w'.heap.pool := by
  cases hquiet : op.collects with
  | false => exact (step_quiet hvalid hstep hkeeps hquiet hI).1
  | true =>
      cases op with
      | evacuate fromGen destGen slots =>
          obtain ⟨r, hr, hok⟩ := bind_eq_ok hstep
          cases hok
          have hE := (evacuateWithRoots_evacuated hI.whole w.ext fromGen destGen
            (keepsPool_slotsVisitor L slots)).value hr
          refine ⟨hE.whole hI.whole, ?_, ?_⟩
          · exact lt_of_eq_of_lt hE.steps.counters.1 hI.minors
          · exact lt_of_eq_of_lt hE.steps.counters.2 hI.promotes
      | collectMinor roots =>
          obtain ⟨r, hr, hok⟩ := bind_eq_ok hstep
          cases hok
          exact ((collectMinor_schedule hI w.ext (keepsPool_slotsVisitor L _)).value hr).schedule
      | collectMajor roots =>
          obtain ⟨r, hr, hok⟩ := bind_eq_ok hstep
          cases hok
          exact ((collectMajor_schedule hI w.ext (keepsPool_slotsVisitor L _)).value hr).1
      | collectFull roots =>
          obtain ⟨r, hr, hok⟩ := bind_eq_ok hstep
          cases hok
          exact ((collectFull_schedule hI w.ext (keepsPool_slotsVisitor L _)).value hr).1
      | collectAuto thresholdBps roots =>
          obtain ⟨r, hr, hok⟩ := bind_eq_ok hstep
          cases hok
          exact (collectAuto_schedule hI w.ext thresholdBps (keepsPool_slotsVisitor L _)).value hr
      | minorWithStatic area ranges roots =>
          obtain ⟨l, h₁, V, r₁, hnodup, hl, hpool, hV, hminor, hend⟩ := step_minorWithStatic hstep
          have hI₁ := released_onSchedule hkeeps hI hnodup hl
          rw [← hpool] at hI₁
          rw [hend]
          exact ((collectMinor_schedule hI₁ w.ext hV).value hminor).schedule
      | _ => cases hquiet

theorem onSchedule_withReservation (base nPages : Nat) (os : Nat → Bool) (order : HashOrder) :
    OnSchedule (withReservation base nPages os order).pool where
  whole := ⟨fun _ _ => rfl, fun _ _ hk => by (cases hk), fun _ hk => by (cases hk)⟩
  minors := Nat.zero_lt_succ _
  promotes := Nat.zero_lt_succ _

/-- The schedule of every run whose requests keep the runs whole. -/
theorem Driven.onSchedule {L : HeapLayout} {w : World} (hw : Driven L (KeepsRuns L) w) :
    OnSchedule w.heap.pool := by
  induction hw with
  | start base nPages os order ext => exact onSchedule_withReservation base nPages os order
  | create base youngBytes oldBytes os order ext =>
      obtain ⟨n, cap, hnew⟩ := new_eq base youngBytes oldBytes os order
      show OnSchedule (PageHeap.new base youngBytes oldBytes os order).pool
      rw [hnew]
      exact onSchedule_withReservation base n os order
  | step op _ hvalid hkeeps hstep ih => exact step_onSchedule hvalid hstep hkeeps ih

/-- Any number of requests that do not collect. -/
def Between (L : HeapLayout) (C : World → Op → Prop) : World → World → Prop :=
  Relation.ReflTransGen fun w w' =>
    ∃ op, op.valid = true ∧ op.collects = false ∧ C w op ∧ w.step L op = .ok w'

theorem Between.onSchedule {L : HeapLayout} {w w' : World} (hb : Between L (KeepsRuns L) w w')
    (hI : OnSchedule w.heap.pool) :
    OnSchedule w'.heap.pool ∧ w'.heap.pool.minors = w.heap.pool.minors := by
  induction hb with
  | refl => exact ⟨hI, rfl⟩
  | tail _ hlast ih =>
      obtain ⟨op, hvalid, hquiet, hkeeps, hstep⟩ := hlast
      obtain ⟨hI', hm⟩ := step_quiet hvalid hstep hkeeps hquiet ih.1
      exact ⟨hI', hm.trans ih.2⟩

/-- One minor collection of a client: G0 is empty after it, or it counts. -/
theorem step_collectMinor {L : HeapLayout} {w w' : World} {roots : List Nat}
    (hI : OnSchedule w.heap.pool) (hstep : w.step L (.collectMinor roots) = .ok w') :
    OnSchedule w'.heap.pool ∧ (w'.heap.pagesInGen .G0 = [] ∨
      w'.heap.pool.minors = w.heap.pool.minors + 1) := by
  obtain ⟨r, hr, hok⟩ := bind_eq_ok hstep
  cases hok
  have hm := (collectMinor_schedule hI w.ext (keepsPool_slotsVisitor L _)).value hr
  refine ⟨hm.schedule, ?_⟩
  cases hp : r.1.promotedG0 with
  | true => exact Or.inl (hm.promotedG0 hp)
  | false => exact Or.inr (hm.counted hp)

/-- What the schedule promises of a state between two requests. -/
structure CohortSchedule (L : HeapLayout) (C : World → Op → Prop) (w : World) : Prop where
  minors : w.heap.minorsSinceG0Promote < 3
  promotes : w.heap.g0PromotesSinceG1Promote < 5
  /-- A minor collection empties what it promotes. -/
  minor : ∀ slots r, w.heap.collectMinor L w.ext (slotsVisitor L slots) = .ok r →
    (r.1.promotedG0 = true → r.2.1.pagesInGen .G0 = []) ∧
    (r.1.promotedG1 = true → r.2.1.pagesInGen .G0 = [] ∧ r.2.1.pagesInGen .G1 = [])
  major : ∀ slots r, w.heap.collectMajor L w.ext (slotsVisitor L slots) = .ok r →
    r.2.1.pagesInGen .G1 = []
  full : ∀ slots r, w.heap.collectFull L w.ext (slotsVisitor L slots) = .ok r →
    r.2.1.pagesInGen .G0 = [] ∧ r.2.1.pagesInGen .G1 = []
  /-- Of three consecutive minor collections one empties G0. -/
  third : ∀ {w₁ v₁ w₂ v₂ w₃ : World} (roots₁ roots₂ roots₃ : List Nat),
    w.step L (.collectMinor roots₁) = .ok w₁ → Between L C w₁ v₁ →
    v₁.step L (.collectMinor roots₂) = .ok w₂ → Between L C w₂ v₂ →
    v₂.step L (.collectMinor roots₃) = .ok w₃ →
    w₁.heap.pagesInGen .G0 = [] ∨ w₂.heap.pagesInGen .G0 = [] ∨ w₃.heap.pagesInGen .G0 = []

/-- In every run whose requests keep the large runs whole, the generations are emptied on
schedule. -/
theorem cohort_schedule {L : HeapLayout} {w : World} (hw : Driven L (KeepsRuns L) w) :
    CohortSchedule L (KeepsRuns L) w where
  minors := hw.onSchedule.minors
  promotes := hw.onSchedule.promotes
  minor := fun slots r hr => by
    have hm := (collectMinor_schedule hw.onSchedule w.ext (keepsPool_slotsVisitor L slots)).value hr
    exact ⟨hm.promotedG0, hm.promotedG1⟩
  major := fun slots r hr =>
    ((collectMajor_schedule hw.onSchedule w.ext (keepsPool_slotsVisitor L slots)).value hr).2
  full := fun slots r hr =>
    ((collectFull_schedule hw.onSchedule w.ext (keepsPool_slotsVisitor L slots)).value hr).2
  third := by
    intro w₁ v₁ w₂ v₂ w₃ roots₁ roots₂ roots₃ h₁ hb₁ h₂ hb₂ h₃
    obtain ⟨hI₁, hm₁⟩ := step_collectMinor hw.onSchedule h₁
    obtain ⟨hJ₁, hk₁⟩ := hb₁.onSchedule hI₁
    obtain ⟨hI₂, hm₂⟩ := step_collectMinor hJ₁ h₂
    obtain ⟨hJ₂, hk₂⟩ := hb₂.onSchedule hI₂
    obtain ⟨hI₃, hm₃⟩ := step_collectMinor hJ₂ h₃
    rcases hm₁ with hempty | hm₁
    · exact Or.inl hempty
    · rcases hm₂ with hempty | hm₂
      · exact Or.inr (Or.inl hempty)
      · rcases hm₃ with hempty | hm₃
        · exact Or.inr (Or.inr hempty)
        · -- three counts would reach the threshold
          have hlt : w₃.heap.pool.minors < 3 := hI₃.minors
          omega

/-- A rooted cons and a large string, of which the system refuses the second page at first; then two
minor collections. -/
def scheduledOps : List Op :=
  [.allocCons .G0 (LispLayout.fixnum 1) LispLayout.nil,
    .storeExt 0 (consAt 0),
    .allocLarge .G0 (heapHeader .String 8191),
    .allocLarge .G0 (heapHeader .String 8191),
    .collectMinor [0],
    .collectMinor [0]]

/-- The third collection of that run promotes G0. -/
theorem cohort_schedule_promoted : ∃ w w',
    (lispWorld 6 [1]).run lispLayout scheduledOps = some w ∧
      w.step lispLayout (.collectMinor [0]) = .ok w' ∧
        w.heap.pagesInGen .G0 ≠ [] ∧ w'.heap.pagesInGen .G0 = [] ∧ w'.heap.pagesInGen .G1 ≠ [] ∧
          w'.heap.g0PromotesSinceG1Promote = 1 ∧
            CohortSchedule lispLayout (KeepsRuns lispLayout) w ∧
              CohortSchedule lispLayout (KeepsRuns lispLayout) w' := by
  have hrun : (((lispWorld 6 [1]).runIf lispLayout (fun w op => decide (w.KeepsRuns lispLayout op))
      scheduledOps).bind fun w => (w.runIf lispLayout
        (fun w op => decide (w.KeepsRuns lispLayout op)) [.collectMinor [0]]).map fun w' =>
          decide (w.heap.pagesInGen .G0 ≠ [] ∧ w'.heap.pagesInGen .G0 = [] ∧
            w'.heap.pagesInGen .G1 ≠ [] ∧ w'.heap.g0PromotesSinceG1Promote = 1)) = some true := by
    decide +kernel
  obtain ⟨w, hw, hrest⟩ := Option.bind_eq_some_iff.1 hrun
  obtain ⟨w', hw', hchecks⟩ := Option.map_eq_some_iff.1 hrest
  obtain ⟨hyoung, hempty, hold, hcount⟩ := of_decide_eq_true hchecks
  have hkeeps : ∀ (w : World) (op : Op), decide (w.KeepsRuns lispLayout op) = true →
      w.KeepsRuns lispLayout op := fun _ _ => of_decide_eq_true
  have hreached := runIf_reached hkeeps (lispWorld_reached [1] (by decide)) hw
  have hreached' := runIf_reached hkeeps hreached hw'
  obtain ⟨-, w₁, hstep, heq⟩ := run_cons (run_of_runIf hw')
  cases heq
  exact ⟨w, w', run_of_runIf hw, hstep, hyoung, hempty, hold, hcount,
    cohort_schedule hreached.driven, cohort_schedule hreached'.driven⟩

/-! ### A page that stays behind

The second page of a large object is refused: its head keeps a span of two.  The next large object
takes that second page for its own head, so releasing the first run frees it too, and the page
behind it is an inner page without a head. -/

def leftBehindOps : List Op :=
  [.collectMinor [], .collectMinor [],
    .allocLarge .G0 (heapHeader .String 16383),
    .allocLarge .G0 (heapHeader .String 16383)]

/-- A client can reach a heap whose next minor collection promotes G0 and leaves a page in it. -/
theorem cohort_left_behind : ∃ w : World, Reachable lispLayout w ∧
    ¬ CohortSchedule lispLayout (fun _ _ => True) w := by
  have hrun : ((run lispLayout (lispWorld 3 [1]) leftBehindOps).map fun w =>
      match w.heap.collectMinor lispLayout w.ext (slotsVisitor lispLayout []) with
      | .ok r => r.1.promotedG0 && !(r.2.1.pagesInGen .G0).isEmpty
      | .error _ => false) = some true := by
    decide +kernel
  obtain ⟨w, hw, hcheck⟩ := Option.map_eq_some_iff.1 hrun
  refine ⟨w, run_reachable (lispWorld_reached [1] (by decide)) hw, ?_⟩
  intro hschedule
  cases hminor : w.heap.collectMinor lispLayout w.ext (slotsVisitor lispLayout []) with
  | error e => simp [hminor] at hcheck
  | ok r =>
      simp only [hminor, Bool.and_eq_true, Bool.not_eq_true', List.isEmpty_eq_false_iff] at hcheck
      exact hcheck.2 ((hschedule.minor [] r hminor).1 hcheck.1)

end World

end NewGc
