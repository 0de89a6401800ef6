import NewGc.Transparency
import NewGc.PinScan

/-!
# PinRuns — pinned objects over whole runs

The explicit pins are a multiset of cells kept as counters.  No allocation, store or collection
touches a counter, so the counters agree with the pins a client has not given back, and an object
with a pin outstanding stays where it is.  A conservative pin lasts until the collection it was made
for has returned.
-/

namespace NewGc

open Library PageHeap

/-! ## Counters -/

/-- The counter of a cell in a table of explicit pins. -/
def pinCount (pins : List (Nat × Nat)) (cell : Nat) : Option Nat :=
  (pins.find? fun e => e.1 = cell).map (·.2)

/-- How `n` outstanding pins are recorded. -/
def countOf (n : Nat) : Option Nat := if n = 0 then none else some n

theorem pinCount_cons (c n : Nat) (pins : List (Nat × Nat)) (x : Nat) :
    pinCount ((c, n) :: pins) x = if c = x then some n else pinCount pins x := by
  unfold pinCount
  rw [List.find?_cons]
  by_cases hx : c = x
  · rw [if_pos hx]
    simp [hx]
  · rw [if_neg hx]
    simp [hx]

theorem pinCount_none {pins : List (Nat × Nat)} {c : Nat} (hc : c ∉ pins.map (·.1)) :
    pinCount pins c = none := by
  induction pins with
  | nil => rfl
  | cons e pins ih =>
      obtain ⟨c', n⟩ := e
      rw [List.map_cons, List.mem_cons, not_or] at hc
      rw [pinCount_cons, if_neg fun heq => hc.1 heq.symm]
      exact ih hc.2

theorem mem_of_pinCount {pins : List (Nat × Nat)} {c n : Nat} (hc : pinCount pins c = some n) :
    c ∈ pins.map (·.1) := by
  by_contra hmem
  rw [pinCount_none hmem] at hc
  cases hc

theorem pinCount_bump (c : Nat) (pins : List (Nat × Nat)) (x : Nat) :
    pinCount (bumpExplicitPin c pins) x =
      if c = x then some (((pinCount pins c).getD 0 + 1) % 2 ^ 32) else pinCount pins x := by
  induction pins with
  | nil =>
      unfold bumpExplicitPin
      rw [pinCount_cons]
      rfl
  | cons e pins ih =>
      obtain ⟨c', n⟩ := e
      unfold bumpExplicitPin
      by_cases hc : c' = c
      · subst hc
        rw [if_pos rfl, pinCount_cons, pinCount_cons, pinCount_cons, if_pos rfl, Option.getD_some]
        by_cases hx : c' = x
        · rw [if_pos hx, if_pos hx]
        · rw [if_neg hx, if_neg hx, if_neg hx]
      · rw [if_neg hc, pinCount_cons, pinCount_cons, pinCount_cons, if_neg hc, ih]
        by_cases hx : c' = x
        · subst hx
          rw [if_pos rfl, if_pos rfl, if_neg fun heq => hc heq.symm]
        · rw [if_neg hx, if_neg hx]

theorem bump_nodup (c : Nat) {pins : List (Nat × Nat)} (hnodup : (pins.map (·.1)).Nodup) :
    ((bumpExplicitPin c pins).map (·.1)).Nodup := by
  induction pins with
  | nil => exact List.nodup_singleton c
  | cons e pins ih =>
      obtain ⟨c', n⟩ := e
      rw [List.map_cons, List.nodup_cons] at hnodup
      unfold bumpExplicitPin
      by_cases hc : c' = c
      · rw [if_pos hc, List.map_cons, List.nodup_cons]
        exact hnodup
      · rw [if_neg hc, List.map_cons, List.nodup_cons]
        refine ⟨fun hmem => ?_, ih hnodup.2⟩
        rcases mem_bumpExplicitPin hmem with heq | hmem
        · exact hc heq
        · exact hnodup.1 hmem

theorem pinCount_drop {pins : List (Nat × Nat)} (hnodup : (pins.map (·.1)).Nodup) (c x : Nat) :
    pinCount (dropExplicitPin c pins) x =
      if c = x then (pinCount pins c).bind fun n => countOf (n - 1) else pinCount pins x := by
  induction pins with
  | nil =>
      unfold dropExplicitPin pinCount
      split <;> rfl
  | cons e pins ih =>
      obtain ⟨c', n⟩ := e
      rw [List.map_cons, List.nodup_cons] at hnodup
      unfold dropExplicitPin
      by_cases hc : c' = c
      · subst hc
        rw [if_pos rfl, pinCount_cons, if_pos rfl, Option.bind_some]
        unfold countOf
        by_cases hn : n - 1 = 0
        · rw [if_pos hn, if_pos hn]
          by_cases hx : c' = x
          · subst hx
            rw [if_pos rfl]
            exact pinCount_none hnodup.1
          · rw [if_neg hx, pinCount_cons, if_neg hx]
        · rw [if_neg hn, if_neg hn, pinCount_cons, pinCount_cons]
          by_cases hx : c' = x
          · rw [if_pos hx, if_pos hx]
          · rw [if_neg hx, if_neg hx, if_neg hx]
      · rw [if_neg hc, pinCount_cons, pinCount_cons, pinCount_cons, if_neg hc, ih hnodup.2]
        by_cases hx : c' = x
        · subst hx
          rw [if_pos rfl, if_pos rfl, if_neg fun heq => hc heq.symm]
        · rw [if_neg hx, if_neg hx]

theorem drop_nodup (c : Nat) {pins : List (Nat × Nat)} (hnodup : (pins.map (·.1)).Nodup) :
    ((dropExplicitPin c pins).map (·.1)).Nodup := by
  induction pins with
  | nil => exact List.nodup_nil
  | cons e pins ih =>
      obtain ⟨c', n⟩ := e
      have hcons := hnodup
      rw [List.map_cons, List.nodup_cons] at hnodup
      unfold dropExplicitPin
      by_cases hc : c' = c
      · rw [if_pos hc]
        by_cases hn : n - 1 = 0
        · rw [if_pos hn]
          exact hnodup.2
        · rw [if_neg hn]
          exact hcons
      · rw [if_neg hc, List.map_cons, List.nodup_cons]
        exact ⟨fun hmem => hnodup.1 (mem_dropExplicitPin hmem), ih hnodup.2⟩

/-- The table `pins` counts the outstanding pins `handles`. -/
structure PinsCounted (pins : List (Nat × Nat)) (handles : List Nat) : Prop where
  nodup : (pins.map (·.1)).Nodup
  count : ∀ c, pinCount pins c = countOf (handles.count c)

namespace PinsCounted

variable {pins : List (Nat × Nat)} {handles : List Nat} {c : Nat}

theorem nil : PinsCounted [] [] := ⟨List.nodup_nil, fun _ => rfl⟩

theorem mem (hP : PinsCounted pins handles) (hc : c ∈ handles) : c ∈ pins.map (·.1) := by
  have hpos : handles.count c ≠ 0 := Nat.pos_iff_ne_zero.1 (List.count_pos_iff.2 hc)
  have hcount := hP.count c
  unfold countOf at hcount
  rw [if_neg hpos] at hcount
  exact mem_of_pinCount hcount

theorem pin (hP : PinsCounted pins handles) (hbound : handles.length + 1 < 2 ^ 32) (c : Nat) :
    PinsCounted (bumpExplicitPin c pins) (c :: handles) := by
  refine ⟨bump_nodup c hP.nodup, fun x => ?_⟩
  rw [pinCount_bump, List.count_cons]
  by_cases hx : c = x
  · subst hx
    have hle : handles.count c ≤ handles.length := List.count_le_length
    have hget : (pinCount pins c).getD 0 = handles.count c := by
      rw [hP.count]
      unfold countOf
      split
      · rename_i hzero
        rw [hzero]
        rfl
      · rfl
    rw [if_pos rfl, hget, Nat.mod_eq_of_lt (by omega)]
    simp [countOf]
  · rw [if_neg hx, hP.count]
    simp [hx]

theorem unpin (hP : PinsCounted pins handles) (c : Nat) :
    PinsCounted (dropExplicitPin c pins) (handles.erase c) := by
  refine ⟨drop_nodup c hP.nodup, fun x => ?_⟩
  rw [pinCount_drop hP.nodup]
  by_cases hx : c = x
  · subst hx
    rw [if_pos rfl, List.count_erase_self, hP.count]
    unfold countOf
    by_cases hzero : handles.count c = 0
    · rw [if_pos hzero, hzero]
      rfl
    · rw [if_neg hzero, Option.bind_some]
  · rw [if_neg hx, hP.count, List.count_erase_of_ne fun heq => hx heq.symm]

end PinsCounted

/-! ## What keeps the counters -/

/-- The explicit pins are untouched. -/
def SamePinTable (h h' : PageHeap) : Prop := h'.explicitPins = h.explicitPins

namespace SamePinTable

variable {L : HeapLayout} {h h' h'' : PageHeap}

theorem trans (h₁ : SamePinTable h h') (h₂ : SamePinTable h' h'') : SamePinTable h h'' :=
  Eq.trans h₂ h₁

theorem allocFrame : AllocFrame SamePinTable where
  refl := fun _ => rfl
  trans := fun h₁ h₂ => h₁.trans h₂
  listed := fun _ _ _ => rfl
  commit := by
    intro h idx
    unfold commitPage
    split_ifs <;> rfl
  opened := fun _ _ _ _ => rfl
  zeroed := fun _ _ => rfl
  starts := fun _ _ => rfl
  region := fun _ _ _ _ => rfl
  used := fun _ _ _ => rfl

theorem of_alloc {α : Type} {n : Nat} {r : Option α × PageHeap}
    (hr : Answered SamePinTable h n r) : SamePinTable h r.2 := by
  obtain ⟨_ | a, h'⟩ := r
  · exact hr
  · obtain ⟨h₁, hS, rfl⟩ := hr
    exact hS

theorem initCons (h : PageHeap) (cell : Nat) (car cdr : Word) :
    SamePinTable h (World.initCons h cell car cdr) := by
  obtain ⟨cards, heq, -⟩ := initCons_eq h cell car cdr
  rw [heq]
  rfl

theorem barrierStore (h : PageHeap) (cell : Nat) (v : Word) :
    SamePinTable h (World.barrierStore h cell v) := by
  obtain ⟨cards, heq, -⟩ := barrierStore_eq h cell v
  rw [heq]
  rfl

theorem withHeader {w : World} {header : Word} {r : Option Nat × PageHeap}
    (hr : SamePinTable w.heap r.2) : SamePinTable w.heap (w.withHeader header r).heap := by
  obtain ⟨_ | cell, h'⟩ := r
  · exact hr
  · exact hr

theorem closed (hE : CycleClosed L h h') : SamePinTable h h' := hE.unpinned.explicitPins

end SamePinTable

/-- An evacuation keeps the explicit pins. -/
theorem PassStep.samePinTable {L : HeapLayout} {h hm : PageHeap} {T T' : ObjTable}
    {g dest : Generation} {v : RootVisitor} {marked : Nat → Prop} {s : ChunkState} {F : Forwarding}
    {r : EvacResult × PageHeap × (Nat → Word)} (hP : PassStep L h T g dest v marked hm s T' F r) :
    SamePinTable h r.2.1 := by
  have heq : r.2.1.explicitPins = s.heap.explicitPins := by
    rw [hP.ended.heap]
    rfl
  have hcontrol : s.heap.explicitPins = hm.explicitPins := hP.evacuated.control.explicitPins
  exact heq.trans (hcontrol.trans hP.prepared.explicitPins)

section Cycles

variable {L : HeapLayout} {h : PageHeap} {T : ObjTable} {ext : Nat → Word} {roots : List Nat}

/-- A minor collection whose first pass takes a step keeps the explicit pins. -/
theorem collectMinor_samePinTable {slots : List Slot} {filters : List (Nat → PageDesc)}
    {v : RootVisitor} {marked : Nat → Prop}
    (hv : withCardScan L v h.descs = passVisitor L slots filters)
    (hslots : ∀ s ∈ slots, ∀ h' T', SlotSafe h' T' .G1 s)
    (hfirst : Outcome GcPanic.IsOom
      (h.minorStart.evacuateWithRoots L ext .G0 h.minorDest (passVisitor L slots filters)) fun r =>
        ∃ hm s T' F, PassStep L h.minorStart T .G0 h.minorDest (passVisitor L slots filters) marked
          hm s T' F r)
    (hsecond : ∀ r₁, h.minorStart.evacuateWithRoots L ext .G0 h.minorDest
        (passVisitor L slots filters) = .ok r₁ → h.cascades r₁.2.1 = true →
      PassSafe L r₁.2.1.cascadeStart r₁.2.2 .G1 .Tenured slots filters) :
    Outcome GcPanic.IsOom (h.collectMinor L ext v) fun r => SamePinTable h r.2.1 := by
  refine collectMinor_rule (Q := fun r => SamePinTable h r.1) ?_
  rw [hv]
  refine Outcome.of_value (fun r₁ hr₁ => ?_) fun e he => hfirst.failure he
  obtain ⟨hm, s, T₁, F, hstep⟩ := hfirst.value hr₁
  have hkept : SamePinTable h r₁.2.1 := hstep.samePinTable
  refine ⟨fun _ => .of_passOk hstep.next fun h' hE => hkept.trans (.closed hE), fun hcascade => ?_⟩
  have hP₁ : PassOk L r₁.2.1.cascadeStart T₁ := hstep.next.counted _ _
  refine (hP₁.evacuates (by decide) (by decide) (fun s hs => hslots s hs _ _)
    (hsecond r₁ hr₁ hcascade)).mono ?_
  rintro r₂ ⟨hm₂, s₂, T₂, G, hstep₂⟩
  have hkept₂ : SamePinTable r₁.2.1 r₂.2.1 := hstep₂.samePinTable
  exact .of_passOk hstep₂.next fun h' hE => (hkept.trans hkept₂).trans (.closed hE)

theorem minorSafe_samePinTable (hP : PassOk L h T) (hsafe : MinorSafe L h ext roots) :
    Outcome GcPanic.IsOom (h.collectMinor L ext (rootsVisitor L roots)) fun r =>
      SamePinTable h r.2.1 := by
  have hP₀ : PassOk L h.minorStart T := hP.counted _ _
  refine @collectMinor_samePinTable L h T ext (rootSlots roots) [h.descs] (rootsVisitor L roots)
    (PassMarked L h.minorStart T ext .G0 (rootSlots roots) [h.descs]) rfl
    (fun s hs h' T' => slotSafe_rootSlots h' T' .G1 roots s hs) ?_ hsafe.2
  exact hP₀.evacuates_fresh (by decide) (minorDest_live h) hsafe.1

theorem majorSafe_samePinTable (hP : PassOk L h T) (hsafe : MajorSafe L h ext roots) :
    Outcome GcPanic.IsOom (h.collectMajor L ext (rootsVisitor L roots)) fun r =>
      SamePinTable h r.2.1 := by
  have hfirst := hP.evacuates_fresh (by decide) (by decide) hsafe.1
  refine collectMajor_rule (Q := fun r => SamePinTable h r.1) ?_
  refine Outcome.of_value (fun r₁ hr₁ => ?_) fun e he => hfirst.failure he
  obtain ⟨hm, s, T₁, F, hstep⟩ := hfirst.value hr₁
  refine (hstep.next.evacuates_fresh (by decide) (by decide) (hsafe.2 r₁ hr₁)).mono ?_
  rintro r₂ ⟨hm₂, s₂, T₂, G, hstep₂⟩
  exact .of_passOk hstep₂.next fun h' hE =>
    (hstep.samePinTable.trans hstep₂.samePinTable).trans (.closed hE)

theorem fullSafe_samePinTable (hP : PassOk L h T) (hsafe : FullSafe L h ext roots) :
    Outcome GcPanic.IsOom (h.collectFull L ext (rootsVisitor L roots)) fun r =>
      SamePinTable h r.2.1 := by
  have hfirst := hP.evacuates_fresh (by decide) (by decide) hsafe.1
  refine collectFull_rule (Q := fun r => SamePinTable h r.1) ?_
  refine Outcome.of_value (fun r₁ hr₁ => ?_) fun e he => hfirst.failure he
  obtain ⟨hm, s, T₁, F, hstep⟩ := hfirst.value hr₁
  obtain ⟨hsafe₁, hsafe₂⟩ := hsafe.2 r₁ hr₁
  have hsecond := hstep.next.evacuates_fresh (by decide) (by decide) hsafe₁
  refine Outcome.of_value (fun r₂ hr₂ => ?_) fun e he => hsecond.failure he
  obtain ⟨hm₂, s₂, T₂, G, hstep₂⟩ := hsecond.value hr₂
  have hlast : PassSafe L r₂.2.1 r₂.2.2 .Tenured .Tenured (rootSlots roots) [] :=
    ⟨hsafe₂ r₂ hr₂, fun _ _ _ D hD => absurd hD List.not_mem_nil⟩
  refine (hstep₂.next.evacuates (by decide) (by decide) (slotSafe_rootSlots _ _ _ _) hlast).mono ?_
  rintro r₃ ⟨hm₃, s₃, T₃, H, hstep₃⟩
  exact .of_passOk hstep₃.next fun h' hE =>
    ((hstep.samePinTable.trans hstep₂.samePinTable).trans hstep₃.samePinTable).trans (.closed hE)

theorem autoSafe_samePinTable {threshold : Nat} (hP : PassOk L h T)
    (hsafe : AutoSafe L h ext threshold roots) :
    Outcome GcPanic.IsOom (h.collectAuto L ext threshold (rootsVisitor L roots)) fun r =>
      SamePinTable h r.2.1 :=
  collectAuto_rule (Q := fun r => SamePinTable h r.1) (fun _ hr => hr)
    (fun hmajor => majorSafe_samePinTable hP (hsafe.1 hmajor))
    (fun hminor => minorSafe_samePinTable hP (hsafe.2 hminor))

end Cycles

namespace World

variable {L : HeapLayout} {w w' : World} {T : ObjTable} {op : Op}

theorem samePinTable_of_cycle {α : Type} {cycle : Except GcPanic (α × PageHeap × (Nat → Word))}
    (hcycle : Outcome GcPanic.IsOom cycle fun r => SamePinTable w.heap r.2.1)
    (hstep : (cycle >>= fun r => .ok { w with heap := r.2.1, ext := r.2.2 }) = .ok w') :
    SamePinTable w.heap w'.heap ∧ w'.handles = w.handles := by
  obtain ⟨r, hr, hok⟩ := bind_eq_ok hstep
  cases hok
  exact ⟨hcycle.value hr, rfl⟩

theorem withHeader_handles (w : World) (header : Word) (r : Option Nat × PageHeap) :
    (w.withHeader header r).handles = w.handles := by
  obtain ⟨_ | cell, h⟩ := r <;> rfl

/-- A safe collection keeps the explicit pins. -/
theorem Settled.collects_samePinTable (hW : Settled L w T) (hcollects : op.collects = true)
    (hallowed : w.allows L op = true) (hC : SafeRequest L w op) (hstep : w.step L op = .ok w') :
    SamePinTable w.heap w'.heap ∧ w'.handles = w.handles := by
  have hP := hW.heap
  cases op with
  | evacuate g dest slots =>
      simp only [allows, Bool.and_eq_true, decide_eq_true_eq] at hallowed
      obtain ⟨⟨⟨hg, hd⟩, -⟩, hslots⟩ := hallowed
      have hpass := @PassOk.evacuates L w.heap T w.ext g dest slots [] hP hg hd
        (fun s hs => hW.slotSafe (List.all_eq_true.1 hslots s hs))
        ⟨hC.passes, fun _ _ _ D hD => absurd hD List.not_mem_nil⟩
      obtain ⟨r, hr, hok⟩ := bind_eq_ok hstep
      cases hok
      obtain ⟨hm, s, T', F, hstep⟩ := hpass.value hr
      exact ⟨hstep.samePinTable, rfl⟩
  | collectMinor roots => exact samePinTable_of_cycle (minorSafe_samePinTable hP hC.passes) hstep
  | collectMajor roots => exact samePinTable_of_cycle (majorSafe_samePinTable hP hC.passes) hstep
  | collectFull roots => exact samePinTable_of_cycle (fullSafe_samePinTable hP hC.passes) hstep
  | collectAuto threshold roots =>
      exact samePinTable_of_cycle (autoSafe_samePinTable hP hC.passes) hstep
  | minorWithStatic area ranges roots =>
      have hI := (hW.sound hC.pins).heap
      obtain ⟨h₁, h₂, h₃, hearly, hE⟩ := earlyReleased_ok hI w.ext area ranges roots
      obtain ⟨hkeeps, hpasses⟩ := hC.releases h₃ hearly
      have hcycle := @collectMinor_samePinTable L h₃ (T.within h₃) w.ext (staticSlots area roots)
        [h₃.descs, h₃.descs] (staticVisitor L area roots h₃.descs) (HeldMark h₃.minorStart .G0)
        (staticVisitor_pass L area roots h₃.descs)
        (fun s hs h' T' => slotSafe_staticSlots h' T' .G1 area roots s hs)
        (hE.firstPass hI hkeeps hpasses.1) hpasses.2
      have hbefore : SamePinTable w.heap h₃ := by
        unfold SamePinTable
        rw [hE.thinned.explicitPins, hE.held.explicitPins, hE.premarked.frame.explicitPins]
      rw [minorWithStatic_eq, hearly] at hstep
      obtain ⟨r, hr, hrest⟩ := bind_eq_ok (show (h₃.collectMinor L w.ext
        (staticVisitor L area roots h₃.descs) >>= fun r => r.2.1.accessDirtyCards >>= fun _ =>
          Except.ok { w with heap := r.2.1.clearCardsUnlessIntergen L, ext := r.2.2 }) = .ok w'
            from hstep)
      obtain ⟨-, -, hok⟩ := bind_eq_ok hrest
      cases hok
      exact ⟨hbefore.trans (hcycle.value hr), rfl⟩
  | allocCons | allocBoxed | allocLarge | reserveTlab | reserveSlab | bumpCons | bumpBoxed
  | flushTlabs | store | storeExt | pin | unpin | pinRanges | clearPins => cases hcollects

/-- A request that neither pins, unpins nor collects keeps the explicit pins. -/
theorem step_samePinTable (hcollects : op.collects = false) (hpin : ∀ v, op ≠ .pin v)
    (hunpin : ∀ c, op ≠ .unpin c) (hstep : w.step L op = .ok w') :
    SamePinTable w.heap w'.heap ∧ w'.handles = w.handles := by
  have hR := SamePinTable.allocFrame
  cases op with
  | allocCons g car cdr =>
      have halloc := SamePinTable.of_alloc (hR.tryAllocConsIn w.heap g)
      simp only [step] at hstep
      split at hstep
      · rename_i cell h₁ heq
        cases hstep
        rw [heq] at halloc
        exact ⟨halloc.trans (.initCons _ _ _ _), rfl⟩
      · rename_i h₁ heq
        cases hstep
        rw [heq] at halloc
        exact ⟨halloc, rfl⟩
  | allocBoxed g header =>
      cases hstep
      refine ⟨.withHeader (SamePinTable.of_alloc (hR.tryAllocBoxedIn w.heap g _)), ?_⟩
      exact withHeader_handles _ _ _
  | allocLarge g header =>
      cases hstep
      refine ⟨.withHeader (SamePinTable.of_alloc (hR.tryAllocLarge w.heap _ g)), ?_⟩
      exact withHeader_handles _ _ _
  | reserveTlab g k m n =>
      have hres := hR.reserveTlab w.heap g k m n
      simp only [step] at hstep
      split at hstep
      · rename_i slab h₁ heq
        cases hstep
        rw [heq] at hres
        exact ⟨hres, rfl⟩
      · rename_i h₁ heq
        cases hstep
        rw [heq] at hres
        exact ⟨hres, rfl⟩
  | reserveSlab cells =>
      have hres := SamePinTable.of_alloc (hR.tryAllocG0Slab w.heap cells)
      simp only [step] at hstep
      split at hstep
      · rename_i slab h₁ heq
        cases hstep
        rw [heq] at hres
        exact ⟨hres, rfl⟩
      · rename_i h₁ heq
        cases hstep
        rw [heq] at hres
        exact ⟨hres, rfl⟩
  | bumpCons i car cdr =>
      simp only [step] at hstep
      split at hstep
      · cases hstep
        exact ⟨.initCons _ _ _ _, rfl⟩
      · cases hstep
        exact ⟨rfl, rfl⟩
  | bumpBoxed i header =>
      simp only [step] at hstep
      split at hstep <;> cases hstep <;> exact ⟨rfl, rfl⟩
  | flushTlabs | storeExt | clearPins =>
      cases hstep
      exact ⟨rfl, rfl⟩
  | store obj off v =>
      cases hstep
      exact ⟨.barrierStore _ _ _, rfl⟩
  | pin v => exact absurd rfl (hpin v)
  | unpin cell => exact absurd rfl (hunpin cell)
  | pinRanges target ranges =>
      cases hstep
      have hscan := pinPointersInRanges_done L w.ext w.heap target ranges
      refine ⟨?_, rfl⟩
      have hsame : (w.heap.pinPointersInRanges L w.ext target ranges).2.explicitPins =
          w.heap.explicitPins := by
        have heq := congrArg PageHeap.explicitPins hscan.only.same
        exact heq
      exact hsame
  | evacuate | collectMinor | collectMajor | collectFull | collectAuto | minorWithStatic =>
      cases hcollects

/-! ## Runs -/

/-- A safe request that leaves fewer than 2^32 pins outstanding. -/
structure PinRequest (L : HeapLayout) (w : World) (op : Op) : Prop where
  safe : SafeRequest L w op
  bound : w.handles.length + 1 < 2 ^ 32

/-- A request keeps the counters in step with the pins. -/
theorem pins_counted_step (hP : PinsCounted w.heap.explicitPins w.handles) (hW : Settled L w T)
    (hallowed : w.allows L op = true) (hC : PinRequest L w op) (hstep : w.step L op = .ok w') :
    PinsCounted w'.heap.explicitPins w'.handles := by
  have hother : SamePinTable w.heap w'.heap ∧ w'.handles = w.handles →
      PinsCounted w'.heap.explicitPins w'.handles := by
    rintro ⟨hpins, hhandles⟩
    rw [hpins, hhandles]
    exact hP
  by_cases hcollects : op.collects = true
  · exact hother (hW.collects_samePinTable hcollects hallowed hC.safe hstep)
  · rw [Bool.not_eq_true] at hcollects
    by_cases hpin : ∃ v, op = .pin v
    · obtain ⟨v, rfl⟩ := hpin
      cases hstep
      show PinsCounted (w.heap.pin L v).2.explicitPins ((w.heap.pin L v).1.toList ++ w.handles)
      unfold PageHeap.pin
      split
      · exact hP.pin hC.bound _
      · exact hP
    · by_cases hunpin : ∃ c, op = .unpin c
      · obtain ⟨c, rfl⟩ := hunpin
        cases hstep
        exact hP.unpin c
      · exact hother (step_samePinTable hcollects (fun v heq => hpin ⟨v, heq⟩)
          (fun c heq => hunpin ⟨c, heq⟩) hstep)

/-- The counters agree with the pins that are outstanding. -/
theorem pins_counted (hw : Reached L (PinRequest L) w) :
    PinsCounted w.heap.explicitPins w.handles ∧ ∃ T, Settled L w T := by
  induction hw with
  | start base nPages os order ext haligned hfits =>
      exact ⟨.nil, _, (Sound.init os order ext haligned hfits).settled⟩
  | create base youngBytes oldBytes os order ext haligned hfits =>
      refine ⟨?_, _, (Sound.create os order ext haligned hfits).settled⟩
      obtain ⟨n, cap, heq⟩ := PageHeap.new_eq base youngBytes oldBytes os order
      show PinsCounted (PageHeap.new base youngBytes oldBytes os order).explicitPins []
      rw [heq]
      exact .nil
  | @step w w' op _ hallowed hC hstep ih =>
      obtain ⟨hcounted, T, hW⟩ := ih
      exact ⟨pins_counted_step hcounted hW hallowed hC hstep, hW.next hallowed hC.safe hstep⟩

/-- The run `ops` leads from one world to another; every step meets `C`. -/
inductive Trace (L : HeapLayout) (C : World → Op → Prop) : World → List Op → World → Prop
  | nil (w : World) : Trace L C w [] w
  | cons {w w₁ w' : World} {op : Op} {ops : List Op} (hallowed : w.allows L op = true)
      (hC : C w op) (hstep : w.step L op = .ok w₁) (hrest : Trace L C w₁ ops w') :
      Trace L C w (op :: ops) w'

/-- The object `o` stays at `c` through the run `ops`.  A cell of it that holds no pointer, inside the
pointer range or not, changes only by a store to it. -/
structure Stays (L : HeapLayout) (w : World) (ops : List Op) (w' : World) (c : Nat) (o : ObjInfo) :
    Prop where
  base : w'.heap.base = w.heap.base
  nPages : w'.heap.nPages = w.heap.nPages
  object : w.heap.objAt L c = some o ∧ w'.heap.objAt L c = some o
  live : w'.heap.genAt c ≠ .Free
  startBits : w'.heap.startBits c = w.heap.startBits c
  plain : ∀ i < o.totalCells, w.heap.PlainCell L c o i → (∀ v, .store c i v ∉ ops) →
    w'.heap.mem (c + i) = w.heap.mem (c + i)

theorem Stays.trans {w₁ : World} {ops ops' : List Op} {c : Nat} {o : ObjInfo}
    (h₁ : Stays L w ops w₁ c o) (h₂ : Stays L w₁ ops' w' c o) : Stays L w (ops ++ ops') w' c o where
  base := h₂.base.trans h₁.base
  nPages := h₂.nPages.trans h₁.nPages
  object := ⟨h₁.object.1, h₂.object.2⟩
  live := h₂.live
  startBits := h₂.startBits.trans h₁.startBits
  plain := by
    intro i hi hplain hstores
    have hfirst : ∀ v, .store c i v ∉ ops := fun v hmem =>
      hstores v (List.mem_append_left _ hmem)
    have hsecond : ∀ v, .store c i v ∉ ops' := fun v hmem =>
      hstores v (List.mem_append_right _ hmem)
    have hmem := h₁.plain i hi hplain hfirst
    have hplain' := (plainCell_congr h₁.base h₁.nPages hmem).2 hplain
    exact (h₂.plain i hi hplain' hsecond).trans hmem

theorem stays_of_tables {T' : ObjTable} {ops : List Op} {c : Nat} {o : ObjInfo}
    (hW : Settled L w T) (hW' : Settled L w' T') (hbase : w'.heap.base = w.heap.base)
    (hn : w'.heap.nPages = w.heap.nPages) (hT : T c = some o) (hT' : T' c = some o)
    (hplain : ∀ i < o.totalCells, w.heap.PlainCell L c o i → (∀ v, .store c i v ∉ ops) →
      w'.heap.mem (c + i) = w.heap.mem (c + i)) : Stays L w ops w' c o where
  base := hbase
  nPages := hn
  object := by
    rw [hW.heap.shape.objAt_eq, hW'.heap.shape.objAt_eq]
    exact ⟨hT, hT'⟩
  live := hW'.heap.shape.live hT'
  startBits := by
    rw [hW'.heap.shape.start c (hW'.heap.shape.live hT'), hW.heap.shape.start c
      (hW.heap.shape.live hT), hT, hT']
  plain := hplain

theorem stays_refl (hW : Settled L w T) {c : Nat} {o : ObjInfo} (hT : T c = some o) :
    Stays L w [] w c o :=
  stays_of_tables hW hW rfl rfl hT hT fun _ _ _ _ => rfl

/-- A request that leaves the objects where they are. -/
theorem stays_of_quiet (hW : Settled L w T) {T' : ObjTable} (hW' : Settled L w' T')
    (hQ : Quiet op w.heap w'.heap T T') {c : Nat} {o : ObjInfo} (hT : T c = some o) :
    Stays L w [op] w' c o :=
  stays_of_tables hW hW' hQ.base hQ.nPages hT (hQ.objects c o hT) fun i hi _ hstores =>
    hQ.mem c o i hT hi fun v heq => hstores v (List.mem_singleton.2 heq.symm)

/-- A request moves an object only when it collects, and then not when the passes leave it where it
is. -/
theorem Settled.stays (hW : Settled L w T) (hallowed : w.allows L op = true)
    (hC : SafeRequest L w op) (hstep : w.step L op = .ok w') {c : Nat} {o : ObjInfo}
    (hT : T c = some o) (hfixed : ∀ h₁ T₁ F, Carried L w.heap T h₁ T₁ F → F c = some c) :
    ∃ T', Settled L w' T' ∧ T' c = some o ∧ Stays L w [op] w' c o := by
  rcases hW.request hallowed hC hstep with ⟨T', hW', hQ⟩ | ⟨h₁, T₁, F, hcarried, hP, hE, hslabs⟩
  · exact ⟨T', hW'.settled, hQ.objects c o hT, stays_of_quiet hW hW'.settled hQ hT⟩
  · have hF := hfixed h₁ T₁ F hcarried
    obtain ⟨o', ho', hT₁⟩ := hcarried.fate_some c c hF
    rw [hT] at ho'
    cases ho'
    have hW' : Settled L w' T₁ := by
      refine ⟨hE.passOk hP, ?_⟩
      rw [hslabs]
      exact .nil _ _
    refine ⟨T₁, hW', hT₁, stays_of_tables hW hW' (hE.base.trans hcarried.base)
      (hE.nPages.trans hcarried.nPages) hT hT₁ fun i hi hplain _ => ?_⟩
    rw [hE.mem]
    exact hcarried.plain c c o i hF hT hi hplain

/-! ## Explicit pins -/

/-- A request while a pin of `c` is outstanding. -/
structure Holding (L : HeapLayout) (c : Nat) (w : World) (op : Op) : Prop where
  request : PinRequest L w op
  held : c ∈ w.handles

theorem holding_stays {c : Nat} {o : ObjInfo} {ops : List Op} (htrace : Trace L (Holding L c) w ops w')
    (hcounted : PinsCounted w.heap.explicitPins w.handles) (hW : Settled L w T) (hT : T c = some o) :
    Stays L w ops w' c o := by
  induction htrace generalizing T with
  | nil w => exact stays_refl hW hT
  | cons hallowed hC hstep _ ih =>
      -- the cell is in the table of explicit pins, so every pass leaves it
      have hmem := hcounted.mem hC.held
      obtain ⟨T', hW', hT', hfirst⟩ := hW.stays hallowed hC.request.safe hstep hT
        fun h₁ T₁ F hcarried => hcarried.explicit c hmem
      exact hfirst.trans
        (ih (pins_counted_step hcounted hW hallowed hC.request hstep) hW' hT')

/-- **An explicit pin fixes its object.**  In a run of safe requests the counter of a cell is the
number of its pins that are outstanding, and as long as one is, whatever the client allocates,
stores, pins, unpins and collects, the object stays at the cell, and the cells of it that hold no
pointer change by stores alone. -/
theorem explicit_pin_fixes_object (L : HeapLayout) (w w' : World) (c : Nat) (ops : List Op)
    (hw : Reached L (PinRequest L) w) (hc : c ∈ w.handles)
    (htrace : Trace L (Holding L c) w ops w') :
    w.heap.explicitPinCount c = some (w.handles.count c) ∧ ∃ o, Stays L w ops w' c o := by
  obtain ⟨hcounted, T, hW⟩ := pins_counted hw
  have hpos : w.handles.count c ≠ 0 := Nat.pos_iff_ne_zero.1 (List.count_pos_iff.2 hc)
  refine ⟨?_, ?_⟩
  · have hcount := hcounted.count c
    unfold countOf at hcount
    rw [if_neg hpos] at hcount
    exact hcount
  · obtain ⟨o, hT⟩ := Option.isSome_iff_exists.1 (hW.heap.explicit c (hcounted.mem hc)).1
    exact ⟨o, holding_stays htrace hcounted hW hT⟩

/-- A cons with an explicit pin. -/
def heldOps : List Op := [.allocCons .G0 (LispLayout.fixnum 1) LispLayout.nil, .pin (consAt 0)]

theorem explicit_pin_fixes_object_held : ∃ w w',
    (lispWorld 4 []).run lispLayout heldOps = some w ∧
      w.step lispLayout (.collectMinor []) = .ok w' ∧
        w.heap.explicitPinCount 0 = some (w.handles.count 0) ∧
          ∃ o, Stays lispLayout w [.collectMinor []] w' 0 o := by
  have hrun : (((lispWorld 4 []).run lispLayout (heldOps ++ [.collectMinor []])).map fun _ =>
      true) = some true := by
    decide +kernel
  obtain ⟨w', hrun', -⟩ := Option.map_eq_some_iff.1 hrun
  obtain ⟨w, hw, hallowed, hstep⟩ := run_snoc hrun'
  have hcheck : (((lispWorld 4 []).run lispLayout heldOps).map fun w =>
      decide (w.handles = [0]) && youngPages w.heap) = some true := by
    decide +kernel
  rw [hw, Option.map_some, Option.some.injEq, Bool.and_eq_true, decide_eq_true_eq] at hcheck
  obtain ⟨hhandles, hpages⟩ := hcheck
  -- the two requests of the run, each with few pins outstanding
  obtain ⟨hallowed₁, w₁, hstep₁, hrest⟩ := run_cons hw
  obtain ⟨hallowed₂, w₂, hstep₂, hdone⟩ := run_cons hrest
  cases hdone
  have hstart : Reached lispLayout (PinRequest lispLayout) (lispWorld 4 []) :=
    lispWorld_reached [] (by decide)
  have hsafe₁ : SafeRequest lispLayout (lispWorld 4 []) (.allocCons .G0 (LispLayout.fixnum 1)
      LispLayout.nil) := safeRequest_of_quiet (.init _ _ _ (by decide) (by decide)) rfl
  have hreached₁ := hstart.step _ hallowed₁ ⟨hsafe₁, by decide⟩ hstep₁
  have hnone : w₁.handles = [] :=
    (step_samePinTable rfl (fun _ heq => by cases heq) (fun _ heq => by cases heq) hstep₁).2
  have hbound₁ : w₁.handles.length + 1 < 2 ^ 32 := by
    rw [hnone]
    decide
  obtain ⟨T₁, hW₁, -⟩ := (Sound.init (fun _ => true) _ _ (by decide) (by decide)).settled.keeps rfl
    hallowed₁ hsafe₁ hstep₁
  have hreached := hreached₁.step _ hallowed₂ ⟨safeRequest_of_quiet hW₁ rfl, hbound₁⟩ hstep₂
  have hbound : w.handles.length + 1 < 2 ^ 32 := by
    rw [hhandles]
    decide
  have hheld : 0 ∈ w.handles := by
    rw [hhandles]
    exact List.mem_cons_self
  obtain ⟨-, T, hW⟩ := pins_counted hreached
  have hyoung := isYoung_of_pages hW.heap.shape.pages hpages
  have hsafe : SafeRequest lispLayout w (.collectMinor []) :=
    ⟨trivial, hyoung.minorSafe hW.heap, trivial, trivial⟩
  have htrace : Trace lispLayout (Holding lispLayout 0) w [.collectMinor []] w' :=
    .cons hallowed ⟨⟨hsafe, hbound⟩, hheld⟩ hstep (.nil w')
  exact ⟨w, w', hw, hstep, explicit_pin_fixes_object lispLayout w w' 0 [.collectMinor []] hreached
    hheld htrace⟩

/-! ## Conservative pins -/

/-- A safe request that neither collects nor drops the pins. -/
structure Waiting (L : HeapLayout) (w : World) (op : Op) : Prop where
  safe : SafeRequest L w op
  quiet : op.collects = false
  keeps : op ≠ .clearPins

/-- While nothing is collected a conservative pin stays, and so does its object. -/
theorem waiting_stays {c : Nat} {o : ObjInfo} {ops : List Op}
    (htrace : Trace L (Waiting L) w ops w') (hW : Sound L w T) (hT : T c = some o)
    (hpin : c ∈ w.heap.pinnedCells) (hsmall : w.heap.kindAt c ≠ .Large) :
    ∃ T', Sound L w' T' ∧ T' c = some o ∧ Stays L w ops w' c o ∧ c ∈ w'.heap.pinnedCells ∧
      w'.heap.kindAt c ≠ .Large := by
  induction htrace generalizing T with
  | nil w => exact ⟨T, hW, hT, stays_refl hW.settled hT, hpin, hsmall⟩
  | @cons w w₁ w' op ops hallowed hC hstep _ ih =>
      obtain ⟨T', hW', hQ⟩ := hW.settled.keeps hC.quiet hallowed hC.safe hstep
      have hT' := hQ.objects c o hT
      have hlive : (w.heap.descs (c / pageSizeCells)).generation ≠ .Free := hW.heap.shape.live hT
      have hsmall' : w₁.heap.kindAt c ≠ .Large := by
        unfold PageHeap.kindAt
        rw [hQ.kind _ hlive]
        exact hsmall
      obtain ⟨T'', hW'', hT'', hrest, hpin', hk⟩ := ih hW' hT' (hQ.pinned hC.keeps c hpin) hsmall'
      have hstays : Stays L w [op] w₁ c o := stays_of_quiet hW.settled hW'.settled hQ hT
      exact ⟨T'', hW'', hT'', hstays.trans hrest, hpin', hk⟩

/-- **A word on a scanned stack keeps its object in place.**  When `pin_pointers_in_ranges` finds a
word that points at a small object of the generation it scans for, the object stays at its cell,
with its cells that hold no pointer changed by stores alone, until the next collection has returned,
whatever generations that collects, or the client drops the pins. -/
theorem scanned_word_fixes_object (L : HeapLayout) (w₀ w w₁ w' : World) (g : Generation)
    (ranges : List (Nat × Nat)) (r : Nat × Nat) (slot c : Nat) (ops : List Op) (op : Op)
    (hw : Reached L (SafeRequest L) w₀) (hallowed₀ : w₀.allows L (.pinRanges g ranges) = true)
    (hC₀ : SafeRequest L w₀ (.pinRanges g ranges))
    (hscan : w₀.step L (.pinRanges g ranges) = .ok w) (hr : r ∈ ranges)
    (hslot : slot % 8 = 0 ∧ r.1 ≤ slot ∧ slot + 8 ≤ r.2)
    (hword : pinCandidate L w₀.heap g r.1 r.2 (w₀.ext slot) = some c)
    (hsmall : w₀.heap.kindAt c ≠ .Large) (htrace : Trace L (Waiting L) w ops w₁)
    (hallowed : w₁.allows L op = true) (hC : SafeRequest L w₁ op)
    (hstep : w₁.step L op = .ok w') :
    ∃ o, Stays L w₀ (.pinRanges g ranges :: (ops ++ [op])) w' c o := by
  obtain ⟨T₀, hW₀⟩ := safe_runs_settled hw
  have hg : g ≠ .Free := of_decide_eq_true hallowed₀
  obtain ⟨-, hgen⟩ := pinCandidate_page hword
  obtain ⟨-, -, -, -, -, hstart⟩ := pinCandidate_iff.1 hword
  have hlive : w₀.heap.genAt c ≠ .Free := by
    rw [hgen]
    exact hg
  obtain ⟨o, hT₀⟩ := (hW₀.heap.shape.isStartAt_iff hlive).1 hstart
  -- the scan records the cell and moves nothing
  obtain ⟨T, hW, hQ⟩ := hW₀.keeps rfl hallowed₀ hC₀ hscan
  have hT := hQ.objects c o hT₀
  have hpin : c ∈ w.heap.pinnedCells := by
    cases hscan
    exact ((pinPointersInRanges_done L w₀.ext w₀.heap g ranges).cells c).2
      (Or.inr ⟨(r, slot), mem_scannedWords.2 ⟨hr, hslot⟩, hword⟩)
  have hk : w.heap.kindAt c ≠ .Large := by
    unfold PageHeap.kindAt
    rw [hQ.kind _ hlive]
    exact hsmall
  have hfirst : Stays L w₀ [.pinRanges g ranges] w c o := stays_of_quiet hW₀ hW.settled hQ hT₀
  obtain ⟨T₁, hW₁, hT₁, hmiddle, hpin₁, hk₁⟩ := waiting_stays htrace hW hT hpin hk
  -- the passes of the collection leave a pinned object alone
  obtain ⟨T', -, -, hlast⟩ := hW₁.settled.stays hallowed hC hstep hT₁ fun h₂ T₂ F hcarried =>
    (hcarried.pinned c hpin₁ (Option.isSome_of_eq_some hT₁) hk₁ (hW₁.heap.pins c hpin₁).2).1
  exact ⟨o, hfirst.trans (hmiddle.trans hlast)⟩

/-- A cons that only a stack slot points at. -/
def stackOps : List Op :=
  [.allocCons .G0 (LispLayout.fixnum 1) LispLayout.nil, .storeExt 8 (consAt 0)]

/-- The slot is scanned, and another cons allocated before the collection. -/
def scanOps : List Op :=
  [.pinRanges .G0 [(0, 64)], .allocCons .G0 (LispLayout.fixnum 2) LispLayout.nil]

theorem scanned_word_fixes_object_stack : ∃ w₀ w',
    (lispWorld 4 []).run lispLayout stackOps = some w₀ ∧
      w₀.run lispLayout (scanOps ++ [.collectMinor []]) = some w' ∧
        ∃ o, Stays lispLayout w₀ (scanOps ++ [.collectMinor []]) w' 0 o := by
  have hrun : (((lispWorld 4 []).run lispLayout stackOps).bind fun w₀ =>
      ((w₀.run lispLayout (scanOps ++ [.collectMinor []])).map fun _ =>
        decide (pinCandidate lispLayout w₀.heap .G0 0 64 (w₀.ext 8) = some 0) &&
          decide (w₀.heap.kindAt 0 ≠ .Large))) = some true := by
    decide +kernel
  obtain ⟨w₀, hw₀, hrest⟩ := Option.bind_eq_some_iff.1 hrun
  obtain ⟨w', hw', hcheck⟩ := Option.map_eq_some_iff.1 hrest
  rw [Bool.and_eq_true, decide_eq_true_eq, decide_eq_true_eq] at hcheck
  obtain ⟨w₁, hw₁, hallowed, hstep⟩ := run_snoc hw'
  have hpages : (((lispWorld 4 []).run lispLayout stackOps).bind fun w₀ =>
      (w₀.run lispLayout scanOps).map fun w => youngPages w.heap) = some true := by
    decide +kernel
  rw [hw₀, Option.bind_some, hw₁, Option.map_some, Option.some.injEq] at hpages
  obtain ⟨hreached₀, T₀, hW₀⟩ := fresh_run_reached (by decide) (by decide) hw₀
  obtain ⟨-, T, hW⟩ := quiet_run_reached hreached₀ hW₀ (by decide) hw₁
  have hyoung := isYoung_of_pages hW.heap.shape.pages hpages
  have hsafe : SafeRequest lispLayout w₁ (.collectMinor []) :=
    ⟨trivial, hyoung.minorSafe hW.heap.passOk, trivial, trivial⟩
  obtain ⟨hallowed₀, w, hscan, hmiddle⟩ := run_cons hw₁
  obtain ⟨hallowed₂, w₂, hstep₂, hdone⟩ := run_cons hmiddle
  cases hdone
  have hsafe₀ : SafeRequest lispLayout w₀ (.pinRanges .G0 [(0, 64)]) := safeRequest_of_quiet hW₀ rfl
  obtain ⟨T₂, hW₂, -⟩ := hW₀.settled.keeps rfl hallowed₀ hsafe₀ hscan
  have htrace : Trace lispLayout (Waiting lispLayout) w
      [.allocCons .G0 (LispLayout.fixnum 2) LispLayout.nil] w₁ :=
    .cons hallowed₂ ⟨safeRequest_of_quiet hW₂ rfl, rfl, fun heq => by cases heq⟩ hstep₂ (.nil w₁)
  exact ⟨w₀, w', hw₀, hw', scanned_word_fixes_object lispLayout w₀ w w₁ w' .G0 [(0, 64)] (0, 64) 8 0
    _ (.collectMinor []) hreached₀ hallowed₀ hsafe₀ hscan List.mem_cons_self (by decide) hcheck.1
    hcheck.2
    htrace hallowed hsafe hstep⟩

end World

end NewGc
