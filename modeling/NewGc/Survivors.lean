import NewGc.Transparency

/-!
# Survivors — what is there after a collection

A collection invents nothing: every object of the heap it leaves was there before, with the same
layout and the same opaque cells.  A full collection of a heap without large runs leaves nothing but
what the root slots and the client's pins lead to.
-/

namespace NewGc

open Library PageHeap

/-! ## Objects and their origins -/

/-- Every object of `h'` has an origin in `h`, of the same layout and with the same words in all
cells that are no pointers, inside the pointer range or not; explicitly pinned objects are their own
origins. -/
structure Replaced (L : HeapLayout) (h h' : PageHeap) (F : Forwarding) : Prop where
  object : ∀ c c', F c = some c' → (h.objAt L c).isSome ∧ h'.objAt L c' = h.objAt L c
  inj : ∀ c d e, F c = some e → F d = some e → c = d
  onto : ∀ c', (h'.objAt L c').isSome → ∃ c, F c = some c'
  payload : ∀ c c' o i, F c = some c' → h.objAt L c = some o → i < o.totalCells →
    h.PlainCell L c o i → h'.mem (c' + i) = h.mem (c + i)
  explicit : ∀ c ∈ h.explicitCells, F c = some c

theorem Carried.replaced {L : HeapLayout} {h h₁ h' : PageHeap} {T T₁ : ObjTable} {F : Forwarding}
    (hC : Carried L h T h₁ T₁ F) (hS : Shape L h T Forwarding.empty) (hP : PassOk L h₁ T₁)
    (hE : Ends h₁ h') : Replaced L h h' F := by
  have hS' : Shape L h' T₁ Forwarding.empty := (hE.passOk hP).shape
  refine ⟨?_, hC.fate_inj, ?_, ?_, hC.explicit⟩
  · intro c c' hF
    obtain ⟨o, hT, hT₁⟩ := hC.fate_some c c' hF
    rw [hS.objAt_eq, hS'.objAt_eq, hT, hT₁]
    exact ⟨rfl, rfl⟩
  · intro c' hc'
    rw [hS'.objAt_eq] at hc'
    obtain ⟨o, ho⟩ := Option.isSome_iff_exists.1 hc'
    exact hC.fate_onto c' o ho
  · intro c c' o i hF ho hi hplain
    rw [hS.objAt_eq] at ho
    rw [hE.mem]
    exact hC.plain c c' o i hF ho hi hplain

namespace World

variable {L : HeapLayout} {w w' : World} {T : ObjTable} {op : Op}

/-- **A collection invents no object and alters no payload.**  After any safe collection, of
whatever kind, every object has an origin before it, distinct objects have distinct origins, and
layout, header and every cell that is no pointer are those of the origin; an explicitly pinned
object is where it was. -/
theorem collection_replaces_objects (hw : Reached L (SafeRequest L) w)
    (hcollects : op.collects = true) (hallowed : w.allows L op = true) (hC : SafeRequest L w op)
    (hstep : w.step L op = .ok w') : ∃ F, Replaced L w.heap w'.heap F := by
  obtain ⟨T, hW⟩ := safe_runs_settled hw
  obtain ⟨h₁, T₁, F, hcarried, hP, hE, -⟩ := hW.sweeps hcollects hallowed hC hstep
  exact ⟨F, hcarried.replaced hW.heap.shape hP hE⟩

/-- A string whose payload looks like a pointer to the cons before it, and a root slot for it. -/
def payloadOps : List Op :=
  [.allocCons .G0 (LispLayout.fixnum 1) LispLayout.nil, .allocBoxed .G0 (heapHeader .String 1),
    .store pageSizeCells 1 (consAt 0), .storeExt 0 (boxAt pageSizeCells)]

theorem collection_replaces_objects_payload : ∃ w w',
    (lispWorld 4 []).run lispLayout payloadOps = some w ∧
      w.step lispLayout (.collectMinor [0]) = .ok w' ∧
        ∃ F, Replaced lispLayout w.heap w'.heap F := by
  have hrun : (((lispWorld 4 []).run lispLayout (payloadOps ++ [.collectMinor [0]])).map fun _ =>
      true) = some true := by
    decide +kernel
  obtain ⟨w', hrun', -⟩ := Option.map_eq_some_iff.1 hrun
  obtain ⟨w, hw, hallowed, hstep⟩ := run_snoc hrun'
  have hpages : (((lispWorld 4 []).run lispLayout payloadOps).map fun w => youngPages w.heap) =
      some true := by
    decide +kernel
  rw [hw, Option.map_some, Option.some.injEq] at hpages
  obtain ⟨hreached, T, hW⟩ := fresh_run_reached (by decide) (by decide) hw
  have hyoung := isYoung_of_pages hW.heap.shape.pages hpages
  have hsafe : SafeRequest lispLayout w (.collectMinor [0]) :=
    ⟨trivial, hyoung.minorSafe hW.heap.passOk, trivial, trivial⟩
  exact ⟨w, w', hw, hstep, @collection_replaces_objects lispLayout w w' (.collectMinor [0])
    hreached rfl hallowed hsafe hstep⟩

end World

/-! ## What a pass leaves of its generation -/

section Precise

variable {L : HeapLayout} {h hm : PageHeap} {T T' : ObjTable} {ext : Nat → Word}
  {g dest : Generation} {roots : List Nat} {held : Nat → Prop} {filters : List (Nat → PageDesc)}
  {s : ChunkState} {F : Forwarding} {r : EvacResult × PageHeap × (Nat → Word)} {v : RootVisitor}

/-- A heap in the middle of a full collection that started without large runs; `held` are the
objects that were pinned at its start. -/
structure Pending (L : HeapLayout) (h : PageHeap) (T : ObjTable) (held : Nat → Prop) : Prop where
  ok : PassOk L h T
  small : ∀ q, (h.descs q).kind ≠ .Large
  holds : ∀ c, held c → h.Holds c ∧ (h.objAt L c).isSome
  only : ∀ c, c ∈ h.pinnedCells ∨ c ∈ h.explicitCells → held c

theorem Pending.step {marked : Nat → Prop} (hN : Pending L h T held) (hd : dest ≠ .Free)
    (hP : PassStep L h T g dest v marked hm s T' F r) : Pending L r.2.1 T' held := by
  have hC := hP.carried hd
  refine ⟨hP.next, fun q hk => hN.small q (hC.large q hk).1, fun c hc => ?_, fun c hc => ?_⟩
  · obtain ⟨hholds, hobj⟩ := hN.holds c hc
    obtain ⟨hF, hholds'⟩ := hC.holds hP.shape hobj hholds
    obtain ⟨o, -, hT'⟩ := hC.fate_some c c hF
    refine ⟨hholds', ?_⟩
    rw [hP.next.shape.objAt_eq, hT']
    rfl
  · rcases hc with hpin | hexplicit
    · rw [hP.pinnedCells] at hpin
      rcases hP.prepared.newPins c hpin with hold | hold | hlarge
      · exact hN.only c (Or.inl hold)
      · exact hN.only c (Or.inr hold)
      · exact absurd hlarge (hN.small _)
    · rw [hP.explicitCells] at hexplicit
      exact hN.only c (Or.inr hexplicit)

/-- The marker finds what is accessible and no more, when nothing is outside the generation. -/
theorem Pending.accessible_of_marked (hN : Pending L h T held) (hg : g ≠ .Free)
    (hall : ∀ x o, T x = some o → h.genAt x = g)
    (hM : Prepared L h T g (PassMarked L h T ext g (rootSlots roots) []) hm) {c : Nat}
    (hmark : hm.isMarked c = true) (hgen : h.genAt c = g) : Accessible L h ext roots held c := by
  have hS := hN.ok.shape
  have hsmall : ∀ q, (h.descs q).generation = g → (h.descs q).kind ≠ .Large :=
    fun q _ => hN.small q
  -- by induction on the path the marker has taken
  have hreach : ∀ {target : Word → Option Nat} {x y : Nat},
      (∀ w t, target w = some t → PageMarker.markTarget L h g w = some t) →
      Accessible L h ext roots held x → MarkReach h T g target x y →
      Accessible L h ext roots held y := by
    intro target x y htarget hx hr
    induction hr with
    | refl => exact hx
    | tail _ hstep ih =>
        obtain ⟨o, i, hT, -, hptr, ht⟩ := mem_markSucc.1 hstep
        exact .step ih ⟨o, i, by rw [hS.objAt_eq]; exact hT, hptr,
          pointee_of_markTarget hS hg (htarget _ _ ht)⟩
  rcases hM.sound c hmark hgen (hN.small _) with ⟨slot, hslot, x, hx, hr⟩ | ⟨x, hroot, hr⟩
  · -- from a root slot
    rcases List.mem_append.1 hslot with hroot | hscan
    · obtain ⟨a, ha, rfl⟩ := List.mem_map.1 hroot
      have hpointee := pointee_of_markTarget hS hg (markTarget_of_evacTarget hsmall hx)
      exact hreach (fun _ _ => markTarget_of_evacTarget hsmall) (.root ha hpointee) hr
    · cases hscan
  · rcases hroot with ⟨hpin, hT, -⟩ | ⟨d, o, i, -, hT, hdgen, -, -⟩
    · -- from a pinned object
      refine hreach (fun _ _ h => h) (.held (hN.only x ?_) (by rw [hS.objAt_eq]; exact hT)) hr
      rcases hM.newPins x hpin with hold | hold | hlarge
      · exact Or.inl hold
      · exact Or.inr hold
      · exact absurd hlarge (hN.small _)
    · -- no pinned object is in another generation
      rw [hM.objects.genAt] at hdgen
      exact absurd (hall d o hT) hdgen

/-- What survives such a pass was accessible. -/
theorem Pending.survivor_accessible (hN : Pending L h T held) (hg : g ≠ .Free)
    (hall : ∀ x o, T x = some o → h.genAt x = g)
    (hP : PassStep L h T g dest v (PassMarked L h T ext g (rootSlots roots) []) hm s T' F r)
    {c c' : Nat} (hF : F c = some c') : Accessible L h ext roots held c := by
  have hM := hP.prepared
  have hO := hM.sameReset
  have hE := hP.evacuated
  obtain ⟨o, hT, -⟩ := hE.fate_some c c' hF
  have hgen := hall c o hT
  have hgen₀ : (hm.resetAllocRegions g).genAt c = g := (hO.genAt c).trans hgen
  by_cases hstays : Stays (hm.resetAllocRegions g) (hm.chunkParams g dest v).pinnedWithKind c
  · -- it stayed because it is pinned
    obtain ⟨-, hlarge | hlisted⟩ := hstays
    · rw [hO.kindAt] at hlarge
      exact absurd hlarge (hN.small _)
    · refine .held (hN.only c ?_) (by rw [hN.ok.shape.objAt_eq, hT]; rfl)
      rcases hM.newPins c ((hP.start.listed c).1 hlisted) with hold | hold | hlarge
      · exact Or.inl hold
      · exact Or.inr hold
      · exact absurd hlarge (hN.small _)
  · by_cases hcopy : ToCopy (hm.resetAllocRegions g) T g c
    · exact hN.accessible_of_marked hg hall hM hcopy.marked hgen
    · have hlost := hE.lost c hgen₀ (hP.done _) hstays hcopy
      rw [hF] at hlost
      cases hlost

/-- A pass of a heap without large runs. -/
theorem Pending.pass (hN : Pending L h T held) (hg : g ≠ .Free) (hd : dest ≠ .Free) :
    Outcome GcPanic.IsOom
      (h.evacuateWithRoots L ext g dest (withCardScan L (rootsVisitor L roots) h.descs)) fun r =>
        ∃ T', Pending L r.2.1 T' held ∧ GenerationsAfter h r.2.1 g dest := by
  have hsafe : FreshSafe L h ext g dest roots :=
    freshSafe_of_small hN.ok hg hd fun q _ => hN.small q
  refine (hN.ok.evacuates hg hd (slotSafe_rootSlots h T g roots)
    (hsafe.passSafe hN.ok hg)).mono ?_
  rintro r ⟨hm, s, T', F, hstep⟩
  exact ⟨T', hN.step hd hstep, hstep.generations⟩

/-- What the last pass of a full collection leaves is accessible where it is now. -/
theorem Pending.lastPass (hN : Pending L h T held)
    (honly : ∀ q, (h.descs q).generation = .Free ∨ (h.descs q).generation = .Tenured) :
    Outcome GcPanic.IsOom
      (h.evacuateWithRoots L ext .Tenured .Tenured (rootsVisitor L roots)) fun r =>
        ∃ T', PassOk L r.2.1 T' ∧ GenerationsAfter h r.2.1 .Tenured .Tenured ∧
          ∀ c o, T' c = some o → Accessible L r.2.1 r.2.2 roots held c := by
  have hS := hN.ok.shape
  have hall : ∀ x o, T x = some o → h.genAt x = .Tenured := fun x o hT =>
    (honly (x / pageSizeCells)).resolve_left (hS.live hT)
  have hkeeps : PassKeeps L h ext .Tenured .Tenured roots held [] :=
    { safe := ⟨noReuse_of_small hN.ok (by decide) (by decide)
          (fun _ _ _ hD => absurd hD List.not_mem_nil) fun q _ => hN.small q,
        fun _ _ _ D hD => absurd hD List.not_mem_nil⟩
      waits := noPointerWaits_within L h ext .Tenured _
      covers := scanCovers_tenured honly hS
      large := largeSeen_of_small (fun q _ => hN.small q) _ _ _ }
  refine (hkeeps.step hN.ok (by decide) (by decide) fun c hc => (hN.holds c hc).1).mono ?_
  rintro r ⟨hm, s, T', F, hstep, hkept⟩
  refine ⟨T', hstep.next, hstep.generations, fun c' o hT' => ?_⟩
  obtain ⟨c, hF⟩ := hstep.evacuated.fate_onto c' o hT'
  exact hkept.accessible (hN.survivor_accessible (by decide) hall hstep hF) hF

/-- Nothing but Tenured is left, and of that what is accessible. -/
def CycleClean (L : HeapLayout) (roots : List Nat) (held : Nat → Prop)
    (r : PageHeap × (Nat → Word)) : Prop :=
  (∀ q, (r.1.descs q).generation = .Free ∨ (r.1.descs q).generation = .Tenured) ∧
    ∀ c, r.1.genAt c ≠ .Free → r.1.isStartAt c = true → Accessible L r.1 r.2 roots held c

theorem CycleClean.closed {h₁ h' : PageHeap} {ext₁ : Nat → Word} {T₁ : ObjTable}
    (honly : ∀ q, (h₁.descs q).generation = .Free ∨ (h₁.descs q).generation = .Tenured)
    (hP : PassOk L h₁ T₁) (hacc : ∀ c o, T₁ c = some o → Accessible L h₁ ext₁ roots held c)
    (hE : CycleClosed L h₁ h') : CycleClean L roots held (h', ext₁) := by
  have hU := hE.unpinned
  have hS := hP.shape
  have hS' := (hP.unpinned hU).shape
  refine ⟨fun q => ?_, fun c hlive hstart => ?_⟩
  · show (h'.descs q).generation = .Free ∨ (h'.descs q).generation = .Tenured
    rw [hU.descs]
    exact honly q
  · obtain ⟨o, ho⟩ := (hS'.isStartAt_iff hlive).1 hstart
    -- dropping the pins and rebuilding the cards leaves the graph alone
    have hobj : ∀ x, h'.objAt L x = h₁.objAt L x := fun x => by rw [hS'.objAt_eq, hS.objAt_eq]
    have hpointee : ∀ w, h'.pointee L w = h₁.pointee L w := pointee_congr hU.base hU.nPages hobj
    have hc := hacc c o ho
    clear ho hstart hlive
    induction hc with
    | root ha ht => exact .root ha ((hpointee _).trans ht)
    | held hc hsome => exact .held hc (by rw [hobj]; exact hsome)
    | step _ hedge ih =>
        obtain ⟨o', i, ho', hptr, hp⟩ := hedge
        exact .step ih ⟨o', i, (hobj _).trans ho', hptr, by rw [hpointee, hU.mem]; exact hp⟩

theorem collectFull_clean (hN : Pending L h T held) :
    Outcome GcPanic.IsOom (h.collectFull L ext (rootsVisitor L roots)) fun r =>
      CycleClean L roots held r.2 := by
  refine collectFull_rule (Q := CycleClean L roots held) ?_
  refine (hN.pass (by decide) (by decide)).mono ?_
  rintro r₁ ⟨T₁, hN₁, hgen₁⟩
  refine (hN₁.pass (by decide) (by decide)).mono ?_
  rintro r₂ ⟨T₂, hN₂, hgen₂⟩
  have honly := onlyTenured_of_passes hgen₁ hgen₂
  refine (hN₂.lastPass honly).mono ?_
  rintro r₃ ⟨T₃, hP₃, hgen₃, hacc⟩
  refine .of_passOk hP₃ fun h' hE => .closed (fun q => ?_) hP₃ hacc hE
  rcases hgen₃ q with hfree | htenured | ⟨heq, -⟩
  · exact Or.inl hfree
  · exact Or.inr htenured
  · rw [heq]
    exact honly q

end Precise

namespace World

variable {L : HeapLayout} {w w' : World}

/-- A world without large runs before a full collection. -/
theorem Sound.pending {T : ObjTable} (hW : Sound L w T)
    (hsmall : ∀ q, (w.heap.descs q).kind ≠ .Large) : Pending L w.heap T (w.Held L) where
  ok := hW.heap.passOk
  small := hsmall
  holds := fun c hc => hc
  only := by
    intro c hc
    unfold Held
    rw [hW.heap.shape.objAt_eq]
    rcases hc with hpin | hexplicit
    · exact ⟨Or.inr ⟨hpin, hsmall _, (hW.heap.pins c hpin).2⟩, (hW.heap.pins c hpin).1⟩
    · exact ⟨Or.inl hexplicit, hW.heap.explicit c hexplicit⟩

/-- **A full collection leaves no garbage.**  In a run of safe requests, of a heap without large
runs whose pins are settled `collect_full` leaves Tenured alone, and every object start in it is one
that the root slots or the objects pinned before the call lead to, whatever dead older objects the
first two passes kept through their cards. -/
theorem full_collection_leaves_no_garbage {roots : List Nat} (hw : Reached L (SafeRequest L) w)
    (hpins : w.heap.PinsSettled) (hsmall : ∀ q, (w.heap.descs q).kind ≠ .Large)
    (hstep : w.step L (.collectFull roots) = .ok w') :
    (∀ q, (w'.heap.descs q).generation = .Free ∨ (w'.heap.descs q).generation = .Tenured) ∧
      ∀ c, w'.heap.genAt c ≠ .Free → w'.heap.isStartAt c = true →
        Accessible L w'.heap w'.ext roots (w.Held L) c := by
  obtain ⟨T, hW⟩ := safe_runs_settled hw
  obtain ⟨r, hr, hok⟩ := bind_eq_ok hstep
  cases hok
  exact (collectFull_clean ((hW.sound hpins).pending hsmall)).value hr

/-- No page is large, page by page. -/
def smallPages (h : PageHeap) : Bool :=
  (List.range h.nPages).all fun q => decide ((h.descs q).kind ≠ .Large)

theorem small_of_pages {h : PageHeap} (hP : PagesOk h) (hcheck : smallPages h = true) (q : Nat) :
    (h.descs q).kind ≠ .Large := by
  intro hk
  have hlive : (h.descs q).generation ≠ .Free := by
    intro hfree
    rw [(hP.kindFree q).2 hfree] at hk
    cases hk
  have hq := List.all_eq_true.1 hcheck q (List.mem_range.2 (hP.page_lt hlive))
  exact of_decide_eq_true hq hk

/-- A rooted pair of conses and one that is garbage, another pinned. -/
def garbageOps : List Op :=
  pairOps ++ [.allocCons .G0 (LispLayout.fixnum 5) LispLayout.nil,
    .allocCons .G0 (LispLayout.fixnum 6) LispLayout.nil, .pin (consAt 6)]

theorem full_collection_leaves_no_garbage_pair : ∃ w w',
    (lispWorld 8 []).run lispLayout garbageOps = some w ∧
      w.step lispLayout (.collectFull [0]) = .ok w' ∧
        (∀ q, (w'.heap.descs q).generation = .Free ∨
          (w'.heap.descs q).generation = .Tenured) ∧
        ∀ c, w'.heap.genAt c ≠ .Free → w'.heap.isStartAt c = true →
          Accessible lispLayout w'.heap w'.ext [0] (w.Held lispLayout) c := by
  have hrun : (((lispWorld 8 []).run lispLayout (garbageOps ++ [.collectFull [0]])).map fun _ =>
      true) = some true := by
    decide +kernel
  obtain ⟨w', hrun', -⟩ := Option.map_eq_some_iff.1 hrun
  obtain ⟨w, hw, -, hstep⟩ := run_snoc hrun'
  have hpages : (((lispWorld 8 []).run lispLayout garbageOps).map fun w => smallPages w.heap) =
      some true := by
    decide +kernel
  rw [hw, Option.map_some, Option.some.injEq] at hpages
  obtain ⟨hreached, T, hW⟩ := fresh_run_reached (by decide) (by decide) hw
  exact ⟨w, w', hw, hstep, full_collection_leaves_no_garbage hreached hW.pinsSettled
    (small_of_pages hW.heap.shape.pages hpages) hstep⟩

end World

end NewGc
