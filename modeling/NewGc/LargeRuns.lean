import NewGc.Plans

/-!
# LargeRuns — the runs of pages large objects live on

A large object takes a run of pages, and only the first page of the run records how long it is.  A
run stays whole as long as no collection opens a page that its own snapshot still lists; that it
does not can be told from the heap before the collection.
-/

namespace NewGc

open Library PageHeap LispLayout

namespace PageHeap

/-- The page `head` starts a run. -/
def IsRun (h : PageHeap) (head : Nat) : Prop :=
  (h.descs head).kind = .Large ∧ 1 ≤ (h.descs head).nSpan

/-- The page `q` belongs to the run of `head`. -/
def InRunOf (h : PageHeap) (head q : Nat) : Prop :=
  h.IsRun head ∧ OnRun head (h.descs head).nSpan q

instance (h : PageHeap) (head q : Nat) : Decidable (h.InRunOf head q) :=
  inferInstanceAs (Decidable ((_ ∧ _) ∧ _))

/-- The pages of kind `Large` fall into runs. -/
structure LargeWhole (h : PageHeap) : Prop where
  partition : ∀ q, (h.descs q).kind = .Large → ∃! head, h.InRunOf head q
  inside : ∀ head q, h.InRunOf head q →
    q < h.nPages ∧ (h.descs q).kind = .Large ∧
      (h.descs q).generation = (h.descs head).generation ∧ (q ≠ head → (h.descs q).nSpan = 0)
  start : ∀ head c, h.InRunOf head (c / pageSizeCells) →
    (h.isStartAt c = true ↔ c = head * pageSizeCells)

end PageHeap

section Whole

variable {L : HeapLayout} {h : PageHeap} {T : ObjTable} {head q : Nat}

theorem PagesOk.inRunOf (hP : PagesOk h) (hq : h.InRunOf head q) :
    (h.descs q).kind = .Large ∧ (h.descs q).generation = (h.descs head).generation ∧
      (q ≠ head → (h.descs q).nSpan = 0) := by
  obtain ⟨⟨hk, -⟩, hle, hlt⟩ := hq
  by_cases heq : q = head
  · subst heq
    exact ⟨hk, rfl, fun hne => absurd rfl hne⟩
  · obtain ⟨hkq, hnq, hgq⟩ := hP.run head (q - head) hk (by omega) (by omega)
    rw [Nat.add_sub_cancel' hle] at hkq hnq hgq
    exact ⟨hkq, hgq, fun _ => hnq⟩

/-- The head of a run is on no other run. -/
theorem PagesOk.inRunOf_unique (hP : PagesOk h) {head' : Nat} (hq : h.InRunOf head q)
    (hq' : h.InRunOf head' q) : head' = head := by
  obtain ⟨hrun, hle, hlt⟩ := hq
  obtain ⟨hrun', hle', hlt'⟩ := hq'
  rcases Nat.lt_trichotomy head' head with hbefore | heq | hafter
  · have hzero := (hP.inRunOf (q := head) ⟨hrun', by omega, by omega⟩).2.2
      (by omega)
    exact absurd hrun.2 (by omega)
  · exact heq
  · have hzero := (hP.inRunOf (q := head') ⟨hrun, by omega, by omega⟩).2.2
      (by omega)
    exact absurd hrun'.2 (by omega)

theorem Shape.largeWhole (hS : Shape L h T Forwarding.empty) : h.LargeWhole where
  partition := by
    intro q hk
    obtain ⟨head, hkh, hn, hle, hlt⟩ := hS.pages.exists_head hk
    have hq : h.InRunOf head q := ⟨⟨hkh, hn⟩, hle, hlt⟩
    exact ⟨head, hq, fun head' hq' => hS.pages.inRunOf_unique hq hq'⟩
  inside := by
    intro head q hq
    obtain ⟨hk, hgen, hn⟩ := hS.pages.inRunOf hq
    refine ⟨hS.pages.page_lt ?_, hk, hgen, hn⟩
    intro hfree
    rw [(hS.pages.kindFree q).2 hfree] at hk
    cases hk
  start := by
    intro head c hc
    obtain ⟨hk, hgen, hn⟩ := hS.pages.inRunOf hc
    have hlive : h.genAt c ≠ .Free := by
      intro hfree
      rw [(hS.pages.kindFree _).2 hfree] at hk
      cases hk
    rw [hS.isStartAt_iff hlive]
    constructor
    · rintro ⟨o, ho⟩
      -- a large object starts on a page that records a span, so on the head
      obtain ⟨hzero, -, hspan, -⟩ := (hS.obj c o ho).large hk
      have heq : c / pageSizeCells = head := by
        by_contra hne
        have := hn hne
        omega
      rw [← heq]
      unfold pageSizeCells at *
      omega
    · intro heq
      rw [heq]
      exact Option.isSome_iff_exists.1 (hS.largeHead head hc.1.1 hc.1.2)

end Whole

/-! ## Runs of a client -/

namespace Op

/-- An allocation, a store, a pin or one of the three logical collections. -/
def placesOrCollects : Op → Bool
  | .evacuate _ _ _ | .collectAuto _ _ | .minorWithStatic _ _ _ => false
  | _ => true

end Op

namespace World

/-- A client that allocates, stores, pins and runs logical collections. -/
def RunRequest (_ : World) (op : Op) : Prop := op.placesOrCollects = true

/-- No pass of the request opens a page that its snapshot still lists, and no cascade copies a
header-bearing object off a page the first snapshot shows in use. -/
def PassesSafe (L : HeapLayout) (w : World) : Op → Prop
  | .collectMinor roots => MinorSafe L w.heap w.ext roots
  | .collectMajor roots => MajorSafe L w.heap w.ext roots
  | .collectFull roots => FullSafe L w.heap w.ext roots
  | .collectAuto threshold roots => AutoSafe L w.heap w.ext threshold roots
  | .evacuate g dest slots =>
      PassMeets L w.heap w.ext g dest (slotsVisitor L slots) (NoReuse L)
  | _ => True

/-- The heap shows beforehand that the passes of the request are safe. -/
def PassesPlanned (L : HeapLayout) (w : World) : Op → Prop
  | .collectMinor roots => w.heap.MinorPlanned L w.ext roots
  | .collectMajor roots => w.heap.MajorPlanned L w.ext roots
  | .collectFull roots => w.heap.FullPlanned L w.ext roots
  | .collectAuto threshold roots => w.heap.AutoPlanned L w.ext threshold roots
  | .evacuate g _ slots => w.heap.PassPlanned L w.ext g slots
  | _ => True

instance (L : HeapLayout) (w : World) : (op : Op) → Decidable (w.PassesPlanned L op)
  | .collectMinor roots => inferInstanceAs (Decidable (w.heap.MinorPlanned L w.ext roots))
  | .collectMajor roots => inferInstanceAs (Decidable (w.heap.MajorPlanned L w.ext roots))
  | .collectFull roots => inferInstanceAs (Decidable (w.heap.FullPlanned L w.ext roots))
  | .collectAuto threshold roots =>
      inferInstanceAs (Decidable (w.heap.AutoPlanned L w.ext threshold roots))
  | .evacuate g _ slots => inferInstanceAs (Decidable (w.heap.PassPlanned L w.ext g slots))
  | .allocCons _ _ _ | .allocBoxed _ _ | .allocLarge _ _ | .reserveTlab _ _ _ _ | .reserveSlab _
  | .bumpCons _ _ _ | .bumpBoxed _ _ | .flushTlabs | .store _ _ _ | .storeExt _ _ | .pin _
  | .unpin _ | .pinRanges _ _ | .clearPins | .minorWithStatic _ _ _ => isTrue trivial

/-- What the large runs are after a request. -/
def RunsStep (w w' : World) : Prop :=
  ∀ head, w.heap.IsRun head → RunCarried w.heap w'.heap head

/-- Every run of the world is whole, and every request that meets `C` keeps each of them, moves it
or frees it. -/
def RunsWhole (L : HeapLayout) (C : World → Op → Prop) (w : World) : Prop :=
  w.heap.LargeWhole ∧ ∀ op w', C w op → w.allows L op = true → w.step L op = .ok w' → RunsStep w w'

variable {L : HeapLayout} {w w' : World} {T : ObjTable}

/-- Where every commit succeeds no large object is cut short. -/
theorem not_cutsRun (hos : ∀ k, w.heap.os k = true) (n : Nat) (g : Generation) :
    ¬ w.heap.CutsRun n g := by
  rintro ⟨-, start, -, -, i, -, -, hrefused⟩
  rw [hos] at hrefused
  cases hrefused

theorem Keeps.runsStep {op : Op} (hW : Sound L w T) (hK : Keeps L op w w' T) : RunsStep w w' := by
  obtain ⟨T', -, hQ⟩ := hK
  intro head hrun
  have hlive : ∀ q, (w.heap.descs q).kind = .Large → (w.heap.descs q).generation ≠ .Free := by
    intro q hk hfree
    rw [(hW.heap.shape.pages.kindFree q).2 hfree] at hk
    cases hk
  left
  refine ⟨(w.heap.descs head).generation, hlive head hrun.1, fun q hq => ?_⟩
  obtain ⟨hk, hgen, -⟩ := hW.heap.shape.pages.inRunOf ⟨hrun, hq⟩
  have hl := hlive q hk
  exact ⟨(hQ.kind q hl).trans hk, (hQ.generation q hl).trans hgen, hQ.nSpan q hl⟩

theorem Swept.runsStep (hS : Swept L w w' T) : RunsStep w w' := by
  obtain ⟨h₁, T', F, hC, -, hE, -⟩ := hS
  intro head hrun
  -- the end of a cycle leaves the role of every page
  rcases hC.runs head hrun.1 hrun.2 with ⟨g, hlive, hkept⟩ | hfreed
  · left
    refine ⟨g, hlive, fun q hq => ?_⟩
    obtain ⟨hk, hg, hn⟩ := hkept q hq
    exact ⟨(hE.role q).kind.trans hk, (hE.role q).generation.trans hg, (hE.role q).nSpan.trans hn⟩
  · right
    intro q hq
    rw [(hE.role q).kind]
    exact hfreed q hq

theorem Settled.passesSafe (hW : Settled L w T) {op : Op} (hallowed : w.allows L op = true)
    (hplan : w.PassesPlanned L op) : w.PassesSafe L op := by
  cases op with
  | collectMinor roots => exact minorSafe_of_plan hW.heap hplan
  | collectMajor roots => exact majorSafe_of_plan hW.heap hplan
  | collectFull roots => exact fullSafe_of_plan hW.heap hplan
  | collectAuto threshold roots => exact autoSafe_of_plan hW.heap hplan
  | evacuate g dest slots =>
      simp only [allows, Bool.and_eq_true, decide_eq_true_eq] at hallowed
      obtain ⟨⟨⟨hg, hd⟩, -⟩, hslots⟩ := hallowed
      exact @noReuse_of_plan L w.heap T g dest w.ext slots [] hW.heap hg hd
        (fun s hs => hW.slotSafe (List.all_eq_true.1 hslots s hs))
        (fun _ _ D hD => absurd hD List.not_mem_nil) hplan
  | allocCons | allocBoxed | allocLarge | reserveTlab | reserveSlab | bumpCons | bumpBoxed
  | flushTlabs | store | storeExt | pin | unpin | pinRanges | clearPins | minorWithStatic =>
      trivial

/-- One request of such a run. -/
theorem Sound.runRequest (hW : Sound L w T) {op : Op} (hpages : w.heap.nPages ≤ 65535)
    (hos : ∀ k, w.heap.os k = true) (hop : RunRequest w op) (hplan : w.PassesPlanned L op)
    (hallowed : w.allows L op = true) (hstep : w.step L op = .ok w') :
    (∃ T', Sound L w' T') ∧ RunsStep w w' := by
  have hsafe := hW.settled.passesSafe hallowed hplan
  have hquiet : Keeps L op w w' T → (∃ T', Sound L w' T') ∧ RunsStep w w' :=
    fun hK => ⟨hK.sound, hK.runsStep hW⟩
  have hswept : SweptClean L w w' T → (∃ T', Sound L w' T') ∧ RunsStep w w' :=
    fun hS => ⟨hS.sound, hS.1.runsStep⟩
  cases op with
  | allocLarge g header =>
      exact hquiet (hW.allocLarge hallowed (fun hle => by omega) (not_cutsRun hos _ _) hstep)
  | collectMinor roots => exact hswept (hW.settled.collectMinor hallowed hsafe hstep)
  | collectMajor roots => exact hswept (hW.settled.collectMajor hallowed hsafe hstep)
  | collectFull roots => exact hswept (hW.settled.collectFull hallowed hsafe hstep)
  | evacuate | collectAuto | minorWithStatic => cases hop
  | allocCons | allocBoxed | reserveTlab | reserveSlab | bumpCons | bumpBoxed | flushTlabs | store
  | storeExt | pin | unpin | pinRanges | clearPins => exact hquiet (hW.keeps rfl hallowed trivial hstep)

/-- The requests whose passes are planned. -/
def PlannedRunRequest (L : HeapLayout) (w : World) (op : Op) : Prop :=
  RunRequest w op ∧ w.PassesPlanned L op

theorem runRequests_sound (hw : Reached L (PlannedRunRequest L) w) :
    w.heap.nPages ≤ 65535 → (∀ k, w.heap.os k = true) → ∃ T, Sound L w T := by
  induction hw with
  | start base nPages os order ext haligned hfits =>
      exact fun _ _ => ⟨_, Sound.init os order ext haligned hfits⟩
  | create base youngBytes oldBytes os order ext haligned hfits =>
      exact fun _ _ => ⟨_, Sound.create os order ext haligned hfits⟩
  | step op _ hallowed hC hstep ih =>
      intro hpages hos
      -- the reservation and the system are the same in every state of the run
      obtain ⟨hn, hgrants⟩ := (step_pool (allows_valid hallowed) hstep).fixed
      have hos' : ∀ k, _ = true := fun k => (congrFun hgrants k).symm.trans (hos k)
      have hpages' := Nat.le_trans (Nat.le_of_eq hn.symm) hpages
      obtain ⟨T, hW⟩ := ih hpages' hos'
      exact (hW.runRequest hpages' hos' hC.1 hC.2 hallowed hstep).1

/-- In every run whose passes are planned the large runs stay whole. -/
theorem large_runs_stay_whole (L : HeapLayout) (w : World) (hw : Reached L (PlannedRunRequest L) w)
    (hpages : w.heap.nPages ≤ 65535) (hos : ∀ k, w.heap.os k = true) :
    RunsWhole L (PlannedRunRequest L) w := by
  obtain ⟨T, hW⟩ := runRequests_sound hw hpages hos
  refine ⟨hW.heap.shape.largeWhole, ?_⟩
  intro op w' hC hallowed hstep
  exact (hW.runRequest hpages hos hC.1 hC.2 hallowed hstep).2

/-- The condition as a check. -/
def plansRun (L : HeapLayout) (w : World) (op : Op) : Bool :=
  op.placesOrCollects && decide (w.PassesPlanned L op)

theorem plannedRunRequest_of_check (w : World) (op : Op) (hcheck : plansRun L w op = true) :
    PlannedRunRequest L w op := by
  unfold plansRun at hcheck
  rw [Bool.and_eq_true, decide_eq_true_eq] at hcheck
  exact hcheck

/-- Two strings in G1, over two pages each; the first one has a root. -/
def twoRunsOps : List Op :=
  [.allocLarge .G1 (heapHeader .String 8192), .allocLarge .G1 (heapHeader .String 8192),
    .storeExt 0 (boxAt 0)]

/-- A major collection promotes the first string as a whole and frees the second as a whole. -/
theorem large_runs_stay_whole_major : ∃ w w',
    (lispWorld 13 []).run lispLayout twoRunsOps = some w ∧
      w.step lispLayout (.collectMajor [0]) = .ok w' ∧
        (w'.heap.InRunOf 0 1 ∧ (w'.heap.descs 1).generation = .Tenured) ∧
        (w.heap.InRunOf 2 3 ∧ (w'.heap.descs 3).generation = .Free) ∧
          RunsWhole lispLayout (PlannedRunRequest lispLayout) w ∧
            RunsWhole lispLayout (PlannedRunRequest lispLayout) w' := by
  have hrun : (((lispWorld 13 []).runIf lispLayout (plansRun lispLayout)
      twoRunsOps).bind fun w => (w.runIf lispLayout (plansRun lispLayout)
        [.collectMajor [0]]).map fun w' =>
          decide (w.heap.nPages ≤ 65535) && (decide (w'.heap.InRunOf 0 1) &&
            decide ((w'.heap.descs 1).generation = .Tenured)) && (decide (w.heap.InRunOf 2 3) &&
              decide ((w'.heap.descs 3).generation = .Free))) = some true := by
    decide +kernel
  obtain ⟨w, hw, hrest⟩ := Option.bind_eq_some_iff.1 hrun
  obtain ⟨w', hw', hchecks⟩ := Option.map_eq_some_iff.1 hrest
  simp only [Bool.and_eq_true, decide_eq_true_eq] at hchecks
  obtain ⟨⟨hpages, hpromoted⟩, hfreed⟩ := hchecks
  have hreached := runIf_reached plannedRunRequest_of_check (lispWorld_reached [] (by decide)) hw
  have hreached' := runIf_reached plannedRunRequest_of_check hreached hw'
  have hran := run_of_runIf hw
  have hran' := run_of_runIf hw'
  obtain ⟨-, w₁, hstep, heq⟩ := run_cons hran'
  cases heq
  have hos : ∀ k, w.heap.os k = true := fun k => congrFun (run_fixed hran).2 k
  obtain ⟨hsize, hsame⟩ := run_fixed hran'
  exact ⟨w, w', hran, hstep, hpromoted, hfreed,
    large_runs_stay_whole lispLayout w hreached hpages hos,
    large_runs_stay_whole lispLayout w' hreached' (hsize.symm ▸ hpages)
      fun k => (congrFun hsame k).trans (hos k)⟩

/-! ### A start bit inside a run

The head of a two-page string is in the first chunk of a minor collection and its second page in the
second one.  The copies of the second chunk open that page, and its reclaim frees it under the open
region: the next string takes the page, the next cons starts on it. -/

def brokenRunOps : List Op :=
  [.allocLarge .G0 (heapHeader .String 16383),
    .allocCons .G0 (LispLayout.fixnum 1) LispLayout.nil,
    .collectMinor [0],
    .allocLarge .G0 (heapHeader .String 12000),
    .allocCons .G0 (LispLayout.fixnum 1) LispLayout.nil]

/-- A fresh heap with one root, which will point at the first object after the string. -/
def rootedWorld : World :=
  init (2 ^ 32) 4 (fun _ => true) HashOrder.insertion (Function.update (fun _ => 0) 0 (consAt 16384))

theorem large_run_broken : ∃ w : World, Reached lispLayout RunRequest w ∧ w.heap.nPages ≤ 65535 ∧
    (∀ k, w.heap.os k = true) ∧ ¬ RunsWhole lispLayout RunRequest w := by
  have hrun : ((rootedWorld.run lispLayout brokenRunOps).map fun w =>
      decide (w.heap.nPages ≤ 65535) && (w.heap.descs 0).kind == .Large &&
        (w.heap.descs 0).nSpan == 2 && w.heap.isStartAt 8194) = some true := by
    decide +kernel
  obtain ⟨w, hw, hcheck⟩ := Option.map_eq_some_iff.1 hrun
  simp only [Bool.and_eq_true, decide_eq_true_eq, beq_iff_eq] at hcheck
  obtain ⟨⟨⟨hpages, hk⟩, hspan⟩, hstart⟩ := hcheck
  have hreached : Reached lispLayout RunRequest rootedWorld :=
    .start _ _ _ _ _ (by decide) (by decide)
  have hops : ∀ op ∈ brokenRunOps, op.placesOrCollects = true := by decide +kernel
  refine ⟨w, run_reached hreached (fun _ op hop => hops op hop) hw, hpages, ?_, ?_⟩
  · intro k
    exact congrFun (run_fixed hw).2 k
  · intro hwhole
    have hpage : w.heap.InRunOf 0 (8194 / pageSizeCells) := by
      refine ⟨⟨hk, by omega⟩, ?_⟩
      rw [hspan]
      decide
    exact absurd ((hwhole.1.start 0 8194 hpage).1 hstart) (by decide)

end World

end NewGc
