import NewGc.LargeRuns
import NewGc.Production

/-!
# SafeRuns — the runs in which the heap stays in order

A run whose requests avoid the four known traps keeps the heap in order: no large request is cut
short, no pass opens a page that its own list of from-pages still holds, no cascade copies a
header-bearing object off a page the first snapshot shows in use, and the early release of the
production cycle frees nothing that is pinned and cuts no run.  An evacuation the client calls
leaves its pins; where one of them has lost its bit, the next request drops the pins or collects.
-/

namespace NewGc

open Library PageHeap LispLayout

/-- Requests that neither collect nor place a large run. -/
def Op.isQuiet : Op → Bool
  | .allocLarge _ _ | .evacuate _ _ _ | .collectMinor _ | .collectMajor _ | .collectFull _
  | .collectAuto _ _ | .minorWithStatic _ _ _ => false
  | _ => true

namespace World

/-! ## Safe requests -/

/-- A large request gets all its pages or none, in a number its head can record. -/
def PlacesWhole (L : HeapLayout) (w : World) : Op → Prop
  | .allocLarge g header =>
      largePages (headerCells L header) < 65536 ∧ ¬ w.heap.CutsRun (headerCells L header) g
  | _ => True

/-- The production cycle is safe. -/
def ReleasesSafe (L : HeapLayout) (w : World) : Op → Prop
  | .minorWithStatic area ranges roots => StaticSafe L w.heap w.ext area ranges roots
  | _ => True

/-- Requests that take a pin set as an evacuation has left it. -/
def TakesPins (w : World) : Op → Prop
  | .clearPins | .evacuate _ _ _ | .collectMinor _ | .collectMajor _ | .collectFull _
  | .collectAuto _ _ => True
  | _ => w.heap.PinsSettled

/-- A request that keeps the heap in order. -/
structure SafeRequest (L : HeapLayout) (w : World) (op : Op) : Prop where
  places : w.PlacesWhole L op
  passes : w.PassesSafe L op
  releases : w.ReleasesSafe L op
  pins : w.TakesPins op

/-- The heap shows beforehand that the production cycle is safe. -/
def ReleasesPlanned (w : World) : Op → Prop
  | .minorWithStatic _ _ _ => w.heap.StaticPlanned
  | _ => True

/-- A request of which the world before it shows that it keeps the heap in order. -/
structure PlannedRequest (L : HeapLayout) (w : World) (op : Op) : Prop where
  places : w.PlacesWhole L op
  passes : w.PassesPlanned L op
  releases : w.ReleasesPlanned op
  pins : w.TakesPins op

variable {L : HeapLayout} {w w' : World} {T : ObjTable}

/-- A planned request is safe. -/
theorem Settled.safe_of_planned (hW : Settled L w T) {op : Op} (hallowed : w.allows L op = true)
    (hC : PlannedRequest L w op) : SafeRequest L w op where
  places := hC.places
  passes := hW.passesSafe hallowed hC.passes
  releases := by
    cases op with
    | minorWithStatic area ranges roots =>
        exact staticSafe_of_plan (hW.sound hC.pins).heap hC.releases w.ext area ranges roots
    | allocCons | allocBoxed | allocLarge | reserveTlab | reserveSlab | bumpCons | bumpBoxed
    | flushTlabs | store | storeExt | pin | unpin | pinRanges | clearPins | evacuate | collectMinor
    | collectMajor | collectFull | collectAuto => trivial
  pins := hC.pins

/-- A safe collection sweeps. -/
theorem Settled.sweeps (hW : Settled L w T) {op : Op} (hcollects : op.collects = true)
    (hallowed : w.allows L op = true) (hC : SafeRequest L w op) (hstep : w.step L op = .ok w') :
    Swept L w w' T := by
  cases op with
  | evacuate g dest slots => exact hW.evacuate hallowed hC.passes hstep
  | collectMinor roots => exact (hW.collectMinor hallowed hC.passes hstep).1
  | collectMajor roots => exact (hW.collectMajor hallowed hC.passes hstep).1
  | collectFull roots => exact (hW.collectFull hallowed hC.passes hstep).1
  | collectAuto threshold roots => exact (hW.collectAuto hallowed hC.passes hstep).1
  | minorWithStatic area ranges roots =>
      exact ((hW.sound hC.pins).minorWithStatic hallowed hC.releases hstep).1
  | allocCons | allocBoxed | allocLarge | reserveTlab | reserveSlab | bumpCons | bumpBoxed
  | flushTlabs | store | storeExt | pin | unpin | pinRanges | clearPins => cases hcollects

/-- Any other safe request leaves the objects where they are, and settled pins. -/
theorem Settled.keeps (hW : Settled L w T) {op : Op} (hcollects : op.collects = false)
    (hallowed : w.allows L op = true) (hC : SafeRequest L w op) (hstep : w.step L op = .ok w') :
    Keeps L op w w' T := by
  cases op with
  | allocLarge g header =>
      exact (hW.sound hC.pins).allocLarge hallowed (fun _ => hC.places.1) hC.places.2 hstep
  | clearPins => exact clearPins_keeps hW.heap hW.slabs hstep
  | allocCons | allocBoxed | reserveTlab | reserveSlab | bumpCons | bumpBoxed | flushTlabs | store
  | storeExt | pin | unpin | pinRanges =>
      exact (hW.sound hC.pins).keeps rfl hallowed trivial hstep
  | evacuate | collectMinor | collectMajor | collectFull | collectAuto | minorWithStatic =>
      cases hcollects

/-- A safe request leaves the objects where they are, or sweeps the world. -/
theorem Settled.request (hW : Settled L w T) {op : Op} (hallowed : w.allows L op = true)
    (hC : SafeRequest L w op) (hstep : w.step L op = .ok w') :
    Keeps L op w w' T ∨ Swept L w w' T := by
  cases hcollects : op.collects with
  | true => exact Or.inr (hW.sweeps hcollects hallowed hC hstep)
  | false => exact Or.inl (hW.keeps hcollects hallowed hC hstep)

theorem Settled.next (hW : Settled L w T) {op : Op} (hallowed : w.allows L op = true)
    (hC : SafeRequest L w op) (hstep : w.step L op = .ok w') : ∃ T', Settled L w' T' := by
  rcases hW.request hallowed hC hstep with hK | hS
  · obtain ⟨T', hW'⟩ := hK.sound
    exact ⟨T', hW'.settled⟩
  · exact hS.settled

/-- In a run of safe requests the heap is in order. -/
theorem safe_runs_settled (hw : Reached L (SafeRequest L) w) : ∃ T, Settled L w T := by
  induction hw with
  | start base nPages os order ext haligned hfits =>
      exact ⟨_, (Sound.init os order ext haligned hfits).settled⟩
  | create base youngBytes oldBytes os order ext haligned hfits =>
      exact ⟨_, (Sound.create os order ext haligned hfits).settled⟩
  | step op _ hallowed hC hstep ih =>
      obtain ⟨T, hW⟩ := ih
      exact hW.next hallowed hC hstep

/-- A run of planned requests is a run of safe ones. -/
theorem reached_safe (hw : Reached L (PlannedRequest L) w) : Reached L (SafeRequest L) w := by
  induction hw with
  | start base nPages os order ext haligned hfits =>
      exact .start base nPages os order ext haligned hfits
  | create base youngBytes oldBytes os order ext haligned hfits =>
      exact .create base youngBytes oldBytes os order ext haligned hfits
  | step op _ hallowed hC hstep ih =>
      obtain ⟨T, hW⟩ := safe_runs_settled ih
      exact ih.step op hallowed (hW.safe_of_planned hallowed hC) hstep

/-- In a run of planned requests the heap is in order. -/
theorem planned_runs_settled (hw : Reached L (PlannedRequest L) w) : ∃ T, Settled L w T :=
  safe_runs_settled (reached_safe hw)

/-- The pins of a sound world are settled. -/
theorem Sound.pinsSettled (hW : Sound L w T) : w.heap.PinsSettled := by
  intro c hc
  obtain ⟨hsome, hbit⟩ := hW.heap.pins c hc
  obtain ⟨o, ho⟩ := Option.isSome_iff_exists.1 hsome
  exact ⟨hW.heap.shape.live ho, hW.heap.shape.isStartAt ho, hbit⟩

theorem safeRequest_of_quiet (hW : Sound L w T) {op : Op} (hop : op.isQuiet = true) :
    SafeRequest L w op := by
  cases op <;> first | exact ⟨trivial, trivial, trivial, trivial⟩ |
    exact ⟨trivial, trivial, trivial, hW.pinsSettled⟩ | cases hop

/-- A run of quiet requests from a sound world is safe, and ends in a sound world. -/
theorem quiet_run_reached {ops : List Op} (hw : Reached L (SafeRequest L) w) (hW : Sound L w T)
    (hops : ∀ op ∈ ops, op.isQuiet = true) (hrun : w.run L ops = some w') :
    Reached L (SafeRequest L) w' ∧ ∃ T', Sound L w' T' := by
  induction ops generalizing w T with
  | nil =>
      cases hrun
      exact ⟨hw, T, hW⟩
  | cons op ops ih =>
      obtain ⟨hallowed, w₁, hstep, hrest⟩ := run_cons hrun
      have hop := hops op List.mem_cons_self
      have hC := safeRequest_of_quiet hW hop
      have hcollects : op.collects = false := by cases op <;> first | rfl | cases hop
      obtain ⟨T₁, hW₁⟩ := (hW.settled.keeps hcollects hallowed hC hstep).sound
      exact ih (hw.step op hallowed hC hstep) hW₁
        (fun op' hop' => hops op' (List.mem_cons_of_mem _ hop')) hrest

/-- A run of quiet requests on a fresh heap. -/
theorem fresh_run_reached {nPages : Nat} {ops : List Op}
    (hfits : 2 ^ 32 + nPages * pageSizeBytes ≤ 2 ^ 64) (hops : ∀ op ∈ ops, op.isQuiet = true)
    (hrun : (lispWorld nPages []).run lispLayout ops = some w') :
    Reached lispLayout (SafeRequest lispLayout) w' ∧ ∃ T', Sound lispLayout w' T' :=
  quiet_run_reached (lispWorld_reached [] hfits) (.init _ _ _ (by decide) hfits) hops hrun

/-! ### The condition as a check -/

instance (w : World) : (op : Op) → Decidable (w.TakesPins op)
  | .clearPins | .evacuate _ _ _ | .collectMinor _ | .collectMajor _ | .collectFull _
  | .collectAuto _ _ => isTrue trivial
  | .allocCons _ _ _ | .allocBoxed _ _ | .allocLarge _ _ | .reserveTlab _ _ _ _ | .reserveSlab _
  | .bumpCons _ _ _ | .bumpBoxed _ _ | .flushTlabs | .store _ _ _ | .storeExt _ _ | .pin _
  | .unpin _ | .pinRanges _ _ | .minorWithStatic _ _ _ =>
      inferInstanceAs (Decidable w.heap.PinsSettled)

/-- A planned request that places no large object and is no production cycle. -/
def plans (L : HeapLayout) (w : World) (op : Op) : Bool :=
  (match op with
  | .allocLarge _ _ | .minorWithStatic _ _ _ => false
  | _ => true) && decide (w.PassesPlanned L op) && decide (w.TakesPins op)

theorem plannedRequest_of_plans (w : World) (op : Op) (hplans : plans L w op = true) :
    PlannedRequest L w op := by
  unfold plans at hplans
  simp only [Bool.and_eq_true, decide_eq_true_eq] at hplans
  obtain ⟨⟨hop, hpasses⟩, hpins⟩ := hplans
  refine ⟨?_, hpasses, ?_, hpins⟩
  · cases op <;> trivial
  · cases op <;> trivial

end World

/-! ## Objects and words in use -/

namespace PageHeap

/-- The scans over the words in use of a page miss no object, and every open page is filled up to
its region's offset. -/
structure ScansCover (h : PageHeap) : Prop where
  below : ∀ c, h.kindAt c = .Cons ∨ h.kindAt c = .Boxed → h.isStartAt c = true →
    c % pageSizeCells < (h.descs (c / pageSizeCells)).wordsUsed
  bounded : ∀ p, (h.descs p).wordsUsed ≤ pageSizeCells
  regions : ∀ g k p, (h.allocRegions g k).currentPage = some p →
    (h.descs p).generation = g ∧ (h.descs p).kind = k ∧
      (h.descs p).wordsUsed = (h.allocRegions g k).offset
  scanned : ∀ p c, (h.descs p).kind = .Cons ∨ (h.descs p).kind = .Boxed →
    c / pageSizeCells = p → h.isStartAt c = true →
      c ∈ List.range' (p * pageSizeCells) (h.descs p).wordsUsed

end PageHeap

theorem PassOk.scansCover {L : HeapLayout} {h : PageHeap} {T : ObjTable} (hI : PassOk L h T) :
    h.ScansCover := by
  have hbelow : ∀ c, h.kindAt c = .Cons ∨ h.kindAt c = .Boxed → h.isStartAt c = true →
      c % pageSizeCells < (h.descs (c / pageSizeCells)).wordsUsed := by
    intro c hk hstart
    have hlive : h.genAt c ≠ .Free := by
      intro hfree
      have hkind : h.kindAt c = .Free := (hI.shape.pages.kindFree _).2 hfree
      rw [hkind] at hk
      rcases hk with hk | hk <;> cases hk
    obtain ⟨o, ho⟩ := (hI.shape.isStartAt_iff hlive).1 hstart
    have hsmall : h.kindAt c ≠ .Large := by
      rcases hk with hk | hk <;> rw [hk] <;> decide
    have hfits := (hI.shape.obj c o ho).small hsmall
    have hpos := (hI.shape.wf ho).pos
    exact Nat.lt_of_lt_of_le (Nat.lt_add_of_pos_right hpos) hfits
  refine ⟨hbelow, hI.shape.pages.used, fun g k p hp => ?_, fun p c hk hcp hstart => ?_⟩
  · obtain ⟨hgen, hkind, hused, -⟩ := hI.regions g k p hp
    exact ⟨hgen, hkind, hused⟩
  · subst hcp
    have hlt := hbelow c hk hstart
    have hdiv := Nat.div_add_mod' c pageSizeCells
    rw [List.mem_range'_1]
    omega

namespace World

/-- In a run of planned requests no object lies above the words in use of its page. -/
theorem no_object_above_words_used (L : HeapLayout) (w : World)
    (hw : Reached L (PlannedRequest L) w) : w.heap.ScansCover := by
  obtain ⟨T, hW⟩ := planned_runs_settled hw
  exact hW.heap.scansCover

/-- A cons with a root slot and a vector with an explicit pin go through a minor collection; then a
buffer is refilled, bumped and given up. -/
def coveredOps : List Op :=
  [.allocCons .G0 (LispLayout.fixnum 1) LispLayout.nil, .storeExt 0 (consAt 0),
    .allocBoxed .G0 (heapHeader .Vector 2), .pin (boxAt 8192), .collectMinor [0],
    .reserveTlab .G0 .Cons 2 4, .bumpCons 0 (LispLayout.fixnum 2) LispLayout.nil, .flushTlabs]

theorem no_object_above_words_used_collected : ∃ w,
    (lispWorld 3 []).run lispLayout coveredOps = some w ∧ w.heap.isStartAt 8192 = true ∧
      w.heap.ScansCover := by
  have hrun : (((lispWorld 3 []).runIf lispLayout (plans lispLayout) coveredOps).map
      fun w => w.heap.isStartAt 8192) = some true := by
    decide +kernel
  obtain ⟨w, hw, hstart⟩ := Option.map_eq_some_iff.1 hrun
  exact ⟨w, run_of_runIf hw, hstart, no_object_above_words_used lispLayout w
    (runIf_reached plannedRequest_of_plans (lispWorld_reached [] (by decide)) hw)⟩

/-! ### An open region on a free page

The dead string's second page is freed with its head by the first chunk, opened by the copy of the
cons in the second one and freed again as a from-page by the last: the region stays on it. -/

def strayRegionOps : List Op :=
  [.allocLarge .G0 (heapHeader .String 16383),
    .allocCons .G0 (LispLayout.fixnum 1) LispLayout.nil,
    .storeExt 0 (consAt 16384),
    .collectMinor [0]]

theorem region_on_free_page :
    ¬ ∀ w, Reachable lispLayout w → w.heap.ScansCover := by
  intro hall
  have hrun : (((lispWorld 4 []).run lispLayout strayRegionOps).map fun w =>
      w.heap.allocRegions .G0 .Cons == { currentPage := some 1, offset := 2 } &&
        (w.heap.descs 1).generation == .Free) = some true := by
    decide +kernel
  obtain ⟨w, hw, hcheck⟩ := Option.map_eq_some_iff.1 hrun
  rw [Bool.and_eq_true, beq_iff_eq, beq_iff_eq] at hcheck
  obtain ⟨hregion, hfree⟩ := hcheck
  have hcover := hall w (run_reachable (lispWorld_reached [] (by decide)) hw)
  have hpage := (hcover.regions .G0 .Cons 1 (by rw [hregion])).1
  rw [hfree] at hpage
  cases hpage

end World

end NewGc
