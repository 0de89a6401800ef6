import NewGc.Marking

/-!
# Pinning — reconciling the pin set with the marks

Before the chunk loop the explicit pins are folded into the pin set and the marks are extended from
every pinned object.
-/

namespace NewGc

open Library PageHeap

/-! ## Extending the marks -/

/-- The marks have been extended by `extra` and closed again. -/
structure Extended (L : HeapLayout) (h : PageHeap) (T : ObjTable) (g : Generation)
    (extra : Nat → Prop) (h' : PageHeap) : Prop where
  same : h' = { h with markBits := h'.markBits }
  closed : MarkClosed h' T g (PageMarker.markTarget L h g)
  mono : ∀ c, h.isMarked c = true → h'.isMarked c = true
  added : ∀ c, extra c → h'.isMarked c = true
  sound : ∀ c, h'.isMarked c = true → h.isMarked c = true ∨
    ∃ x, extra x ∧ MarkReach h T g (PageMarker.markTarget L h g) x c

theorem Extended.frame {L : HeapLayout} {h h' : PageHeap} {T : ObjTable} {g : Generation}
    {extra : Nat → Prop} (hE : Extended L h T g extra h') : MarksOnly h h' := .of_marks hE.same

section Extend

variable {L : HeapLayout} {h : PageHeap} {T : ObjTable} {g : Generation}

/-- Draining a marker whose queue holds the extra cells. -/
theorem extended_of_drain (hS : Shape L h T Forwarding.empty) (hg : g ≠ .Free)
    (hclosed : MarkClosed h T g (PageMarker.markTarget L h g)) {m : PageMarker} {as : List Nat}
    (hI : HeapMarking h T g m)
    (hs : m.search = (PageMarker.newWithoutClear h g).search.offerAll as) :
    ∃ m', m.drain L = .ok m' ∧ Extended L h T g (· ∈ as) m'.heap := by
  have hbound := markSucc_bound hS (markTarget_ok hS hg)
  obtain ⟨m', hok, hI', hs'⟩ := HeapMarking.drainFuel hS hg
    (m.heap.totalCells + m.queue.length) m hI
  have hfuel : m.search.work (List.range h.totalCells) ≤ m.heap.totalCells + m.queue.length := by
    rw [hI.frame.totalCells]
    exact work_le _ _
  have hclosing : (PageMarker.newWithoutClear h g).search.Closing
      (markSucc h T g (PageMarker.markTarget L h g)) :=
    fun a ha => Or.inr fun b hb => hclosed a b ha hb
  have hqueued : (PageMarker.newWithoutClear h g).search.Queued := by
    intro a ha
    cases ha
  have hseen : ∀ c, m'.heap.isMarked c = m'.search.seen c := fun _ => rfl
  refine ⟨m', hok, hI'.same, ?_, ?_, ?_, ?_⟩
  · intro x y hx hy
    rw [markSucc_congr hI'.frame.sameObjects] at hy
    rw [hseen, hs'] at hx ⊢
    refine Search.run_closed hbound hfuel ?_ hx hy
    rw [hs]
    exact hclosing.offerAll _
  · intro c hc
    rw [hseen, hs']
    refine Search.run_mono _ _ ?_
    rw [hs, Search.offerAll_seen]
    exact Or.inl hc
  · intro c hc
    rw [hseen, hs']
    refine Search.run_mono _ _ ?_
    rw [hs, Search.offerAll_seen]
    exact Or.inr hc
  · intro c hc
    rw [hseen, hs', hs] at hc
    obtain ⟨a, ha, hreach⟩ := Search.run_sound _ _ (hqueued.offerAll _) hc
    rcases (Search.offerAll_seen _ _ a).1 ha with hold | hin
    · left
      clear hc ha
      induction hreach with
      | refl => exact hold
      | tail _ hstep ih => exact hclosed _ _ ih hstep
    · exact Or.inr ⟨a, hin, hreach⟩

/-- Without pins nothing is extended. -/
theorem Extended.refl (hclosed : MarkClosed h T g (PageMarker.markTarget L h g))
    {extra : Nat → Prop} (hno : ∀ c, ¬ extra c) : Extended L h T g extra h where
  same := rfl
  closed := hclosed
  mono := fun _ hc => hc
  added := fun c hc => absurd hc (hno c)
  sound := fun _ hc => Or.inl hc

theorem Extended.mono_extra {extra extra' : Nat → Prop} {h' : PageHeap}
    (hE : Extended L h T g extra h') (hiff : ∀ c, extra c ↔ extra' c) :
    Extended L h T g extra' h' where
  same := hE.same
  closed := hE.closed
  mono := hE.mono
  added := fun c hc => hE.added c ((hiff c).2 hc)
  sound := fun c hc => (hE.sound c hc).imp_right fun ⟨x, hx, hr⟩ => ⟨x, (hiff x).1 hx, hr⟩

/-- The marker of `extend_mark_from_pinned`, before it drains. -/
theorem extendMarkFromPinned_offers (hS : Shape L h T Forwarding.empty) (hg : g ≠ .Free) :
    (h.pinnedCells = [] ∧ h.extendMarkFromPinned L g = .ok h) ∨
      ∃ m as, HeapMarking h T g m ∧
        m.search = (PageMarker.newWithoutClear h g).search.offerAll as ∧
        (∀ c, c ∈ as ↔ c ∈ h.pinnedCells ∧ (T c).isSome ∧ h.genAt c = g) ∧
        h.extendMarkFromPinned L g = m.drain L >>= fun m => .ok m.heap := by
  unfold extendMarkFromPinned
  by_cases hempty : h.pinnedCells.isEmpty = true
  · left
    rw [if_pos hempty]
    exact ⟨List.isEmpty_iff.1 hempty, rfl⟩
  · right
    rw [if_neg hempty]
    have hfold : ∀ (l : List Nat) (m : PageMarker), HeapMarking h T g m →
        HeapMarking h T g (l.foldl extendMarkStep m) ∧ (l.foldl extendMarkStep m).search =
          m.search.offerAll
            (l.flatMap fun c => if (T c).isSome ∧ h.genAt c = g then [c] else []) := by
      intro l
      induction l with
      | nil => exact fun m hI => ⟨hI, rfl⟩
      | cons c l ih =>
          intro m hI
          obtain ⟨hI', hs⟩ := hI.extendMarkStep hS hg c
          obtain ⟨hI'', hs'⟩ := ih _ hI'
          refine ⟨hI'', ?_⟩
          rw [List.foldl_cons, hs', hs, List.flatMap_cons]
          exact (List.foldl_append ..).symm
    obtain ⟨hI, hs⟩ := hfold (h.hashOrder.iter h.pinnedCells) _ (HeapMarking.start h T g)
    refine ⟨_, _, hI, hs, fun c => ?_, rfl⟩
    rw [List.mem_flatMap]
    constructor
    · rintro ⟨x, hx, hc⟩
      split at hc
      · rename_i hcond
        rw [List.mem_singleton] at hc
        subst hc
        exact ⟨(h.hashOrder.perm _).mem_iff.1 hx, hcond⟩
      · cases hc
    · rintro ⟨hc, hcond⟩
      exact ⟨c, (h.hashOrder.perm _).mem_iff.2 hc, by
        rw [if_pos hcond]; exact List.mem_singleton.2 rfl⟩

theorem extendMarkFromPinned_extended (hS : Shape L h T Forwarding.empty) (hg : g ≠ .Free)
    (hclosed : MarkClosed h T g (PageMarker.markTarget L h g)) :
    ∃ h', h.extendMarkFromPinned L g = .ok h' ∧
      Extended L h T g (fun c => c ∈ h.pinnedCells ∧ (T c).isSome ∧ h.genAt c = g) h' := by
  rcases extendMarkFromPinned_offers hS hg with ⟨hempty, hok⟩ | ⟨m, as, hI, hs, has, hok⟩
  · refine ⟨h, hok, .refl hclosed ?_⟩
    rintro c ⟨hc, -⟩
    rw [hempty] at hc
    cases hc
  · obtain ⟨m', hdrain, hE⟩ := extended_of_drain hS hg hclosed hI hs
    refine ⟨m'.heap, ?_, hE.mono_extra has⟩
    rw [hok, hdrain]
    rfl

/-- `extend_mark_from_pinned` over marks that need not be closed: marks are added, to objects of
its generation alone. -/
theorem extendMarkFromPinned_marks (hS : Shape L h T Forwarding.empty) (hg : g ≠ .Free) :
    ∃ h', h.extendMarkFromPinned L g = .ok h' ∧ h' = { h with markBits := h'.markBits } ∧
      (∀ c, h.isMarked c = true → h'.isMarked c = true) ∧
      ∀ c, h'.isMarked c = true → h.isMarked c = true ∨ ((T c).isSome ∧ h.genAt c = g) := by
  rcases extendMarkFromPinned_offers hS hg with ⟨-, hok⟩ | ⟨m, as, hI, hs, -, hok⟩
  · exact ⟨h, hok, rfl, fun _ hc => hc, fun _ hc => Or.inl hc⟩
  · obtain ⟨m', hdrain, hI', hs'⟩ := HeapMarking.drainFuel hS hg
      (m.heap.totalCells + m.queue.length) m hI
    refine ⟨m'.heap, ?_, hI'.same, fun c hc => ?_, hI'.fresh⟩
    · have hdrain' : m.drain L = .ok m' := hdrain
      rw [hok, hdrain']
      rfl
    · show m'.search.seen c = true
      rw [hs']
      refine Search.run_mono _ _ ?_
      rw [hs, Search.offerAll_seen]
      exact Or.inl hc

/-- A cell the payload of a pinned object of another generation leads to. -/
def CrossGenTarget (L : HeapLayout) (h : PageHeap) (T : ObjTable) (g : Generation) (y : Nat) :
    Prop :=
  ∃ c o i, c ∈ h.pinnedCells ∧ T c = some o ∧ h.genAt c ≠ g ∧ o.IsPtr i ∧
    PageMarker.markTarget L h g (h.mem (c + i)) = some y

theorem extendMarkFromCrossGenPinned_extended (hS : Shape L h T Forwarding.empty) (hg : g ≠ .Free)
    (hclosed : MarkClosed h T g (PageMarker.markTarget L h g)) :
    ∃ h', h.extendMarkFromCrossGenPinned L g = .ok h' ∧
      Extended L h T g (CrossGenTarget L h T g) h' := by
  unfold extendMarkFromCrossGenPinned
  by_cases hempty : h.pinnedCells.isEmpty = true
  · rw [if_pos hempty]
    refine ⟨h, rfl, .refl hclosed ?_⟩
    rintro y ⟨c, o, i, hc, -⟩
    rw [List.isEmpty_iff.1 hempty] at hc
    cases hc
  · rw [if_neg hempty]
    have hfold : ∀ (l : List Nat) (m : PageMarker), HeapMarking h T g m →
        ∃ m', l.foldlM (extendMarkCrossGenStep L) m = .ok m' ∧ HeapMarking h T g m' ∧
          m'.search = m.search.offerAll
            (l.flatMap (crossSucc h T g (PageMarker.markTarget L h g))) := by
      intro l
      induction l with
      | nil => exact fun m hI => ⟨m, rfl, hI, rfl⟩
      | cons c l ih =>
          intro m hI
          obtain ⟨m₁, hok₁, hI₁, hs₁⟩ := hI.extendMarkCrossGenStep hS hg c
          obtain ⟨m₂, hok₂, hI₂, hs₂⟩ := ih m₁ hI₁
          refine ⟨m₂, ?_, hI₂, ?_⟩
          · rw [List.foldlM_cons, hok₁]
            exact hok₂
          · rw [hs₂, hs₁, List.flatMap_cons]
            exact (List.foldl_append ..).symm
    obtain ⟨m, hokFold, hI, hs⟩ := hfold (h.hashOrder.iter h.pinnedCells) _ (HeapMarking.start h T g)
    obtain ⟨m', hok, hE⟩ := extended_of_drain hS hg hclosed hI hs
    refine ⟨m'.heap, ?_, hE.mono_extra ?_⟩
    · rw [hokFold]
      show (m.drain L >>= fun m => _) = _
      rw [hok]
      rfl
    · intro y
      rw [List.mem_flatMap]
      constructor
      · rintro ⟨c, hc, hy⟩
        obtain ⟨o, i, hT, hgen, hi, htarget⟩ := mem_crossSucc.1 hy
        exact ⟨c, o, i, (h.hashOrder.perm _).mem_iff.1 hc, hT, hgen, hi, htarget⟩
      · rintro ⟨c, o, i, hc, hT, hgen, hi, htarget⟩
        exact ⟨c, (h.hashOrder.perm _).mem_iff.2 hc,
          mem_crossSucc.2 ⟨o, i, hT, hgen, hi, htarget⟩⟩

end Extend

/-! ## Recording pins -/

theorem pinSlot_lt (c : Nat) : pinSlot c < 8 := by
  unfold pinSlot cellsPerPinSlot pageSizeCells
  omega

theorem isPinned_setPin_self (d : PageDesc) {slot : Nat} (hs : slot < 8) :
    (d.setPin slot).isPinned slot = true := by
  unfold PageDesc.setPin PageDesc.isPinned
  rw [bne_iff_ne]
  intro h
  have hbit := congrArg (fun b : BitVec 8 => b.getLsbD slot) h
  simp [hs] at hbit

theorem isPinned_setPin (d : PageDesc) (slot : Nat) {slot' : Nat}
    (h : d.isPinned slot' = true) : (d.setPin slot).isPinned slot' = true := by
  unfold PageDesc.isPinned at h ⊢
  unfold PageDesc.setPin
  rw [bne_iff_ne] at h ⊢
  rw [BitVec.and_or_distrib_right]
  intro hzero
  exact h (BitVec.or_eq_zero_iff.1 hzero).1

theorem hasPins_setPin (d : PageDesc) (slot : Nat) (h : d.hasPins = true) :
    (d.setPin slot).hasPins = true := by
  unfold PageDesc.hasPins at h ⊢
  unfold PageDesc.setPin
  rw [bne_iff_ne] at h ⊢
  intro hzero
  exact h (BitVec.or_eq_zero_iff.1 hzero).1

/-- Pins have been recorded for cells in `cells`, nothing else has changed. -/
structure PinsRecorded (h : PageHeap) (cells : List Nat) (h' : PageHeap) : Prop where
  same : h' = { h with descs := h'.descs, pinnedCells := h'.pinnedCells }
  descs : ∀ q, ∃ b, h'.descs q = { h.descs q with pinByte := b }
  bits : ∀ q slot, (h.descs q).isPinned slot = true → (h'.descs q).isPinned slot = true
  hasPins : ∀ q, (h.descs q).hasPins = true → (h'.descs q).hasPins = true
  pinned : ∀ c ∈ h.pinnedCells, c ∈ h'.pinnedCells
  recorded : ∀ c ∈ cells, h.genAt c ≠ .Free → c ∈ h'.pinnedCells ∧
    (h'.descs (c / pageSizeCells)).isPinned (pinSlot c) = true
  newPins : ∀ c ∈ h'.pinnedCells, c ∈ h.pinnedCells ∨ (c ∈ cells ∧ h.genAt c ≠ .Free)
  newBits : ∀ q, h'.descs q = h.descs q ∨ ∃ c ∈ cells, c / pageSizeCells = q ∧ h.genAt c ≠ .Free

namespace PinsRecorded

variable {h h' : PageHeap} {cells : List Nat}

theorem nil (h : PageHeap) : PinsRecorded h [] h where
  same := rfl
  descs := fun _ => ⟨_, rfl⟩
  bits := fun _ _ hb => hb
  hasPins := fun _ hp => hp
  pinned := fun _ hc => hc
  recorded := by simp
  newPins := fun _ hc => Or.inl hc
  newBits := fun _ => Or.inl rfl

theorem role (hR : PinsRecorded h cells h') (q : Nat) : (h.descs q).SameRole (h'.descs q) := by
  obtain ⟨b, hb⟩ := hR.descs q
  rw [hb]
  exact ⟨rfl, rfl, rfl, rfl⟩

theorem sameObjects (hR : PinsRecorded h cells h') : SameObjects h h' := by
  have hsame := hR.same
  exact ⟨by rw [hsame], by rw [hsame], by rw [hsame], by rw [hsame], hR.role, by rw [hsame],
    by rw [hsame]⟩

theorem genAt (hR : PinsRecorded h cells h') (c : Nat) : h'.genAt c = h.genAt c :=
  hR.sameObjects.genAt c

theorem kindAt (hR : PinsRecorded h cells h') (c : Nat) : h'.kindAt c = h.kindAt c :=
  hR.sameObjects.kindAt c

/-- One more pin. -/
theorem snoc (hR : PinsRecorded h cells h') {c : Nat} (hlive : h.genAt c ≠ .Free) :
    PinsRecorded h (cells ++ [c]) (h'.recordPin c) := by
  have hself : (h'.recordPin c).descs (c / pageSizeCells) =
      (h'.descs (c / pageSizeCells)).setPin (pinSlot c) := by
    unfold recordPin modifyDesc setDesc
    exact Function.update_self ..
  have hother : ∀ q, q ≠ c / pageSizeCells → (h'.recordPin c).descs q = h'.descs q := by
    intro q hq
    unfold recordPin modifyDesc setDesc
    exact Function.update_of_ne hq ..
  have hmem : ∀ x, x ∈ (h'.recordPin c).pinnedCells ↔ x = c ∨ x ∈ h'.pinnedCells :=
    fun x => mem_setInsert
  refine ⟨?_, ?_, ?_, ?_, ?_, ?_, ?_, ?_⟩
  · have hsame := hR.same
    unfold recordPin modifyDesc setDesc
    rw [hsame]
  · intro q
    obtain ⟨b, hb⟩ := hR.descs q
    by_cases hq : q = c / pageSizeCells
    · subst hq
      rw [hself, hb]
      exact ⟨_, rfl⟩
    · rw [hother q hq]
      exact ⟨b, hb⟩
  · intro q slot hbit
    by_cases hq : q = c / pageSizeCells
    · subst hq
      rw [hself]
      exact isPinned_setPin _ _ (hR.bits _ _ hbit)
    · rw [hother q hq]
      exact hR.bits q slot hbit
  · intro q hp
    by_cases hq : q = c / pageSizeCells
    · subst hq
      rw [hself]
      exact hasPins_setPin _ _ (hR.hasPins _ hp)
    · rw [hother q hq]
      exact hR.hasPins q hp
  · exact fun x hx => (hmem x).2 (Or.inr (hR.pinned x hx))
  · intro x hx hxlive
    have hbit : x ∈ h'.pinnedCells ∧ (h'.descs (x / pageSizeCells)).isPinned (pinSlot x) = true →
        x ∈ (h'.recordPin c).pinnedCells ∧
          ((h'.recordPin c).descs (x / pageSizeCells)).isPinned (pinSlot x) = true := by
      rintro ⟨hm, hb⟩
      refine ⟨(hmem x).2 (Or.inr hm), ?_⟩
      by_cases hq : x / pageSizeCells = c / pageSizeCells
      · rw [hq, hself]
        rw [hq] at hb
        exact isPinned_setPin _ _ hb
      · rw [hother _ hq]
        exact hb
    rcases List.mem_append.1 hx with hx | hx
    · exact hbit (hR.recorded x hx hxlive)
    · rw [List.mem_singleton] at hx
      subst hx
      refine ⟨(hmem x).2 (Or.inl rfl), ?_⟩
      rw [hself]
      exact isPinned_setPin_self _ (pinSlot_lt x)
  · intro x hx
    rcases (hmem x).1 hx with rfl | hx
    · exact Or.inr ⟨by simp, hlive⟩
    · rcases hR.newPins x hx with hold | ⟨hin, hl⟩
      · exact Or.inl hold
      · exact Or.inr ⟨List.mem_append_left _ hin, hl⟩
  · intro q
    by_cases hq : q = c / pageSizeCells
    · exact Or.inr ⟨c, by simp, hq.symm, hlive⟩
    · rw [hother q hq]
      rcases hR.newBits q with hsame | ⟨x, hx, hxq, hl⟩
      · exact Or.inl hsame
      · exact Or.inr ⟨x, List.mem_append_left _ hx, hxq, hl⟩

theorem skip (hR : PinsRecorded h cells h') {c : Nat} (hfree : h.genAt c = .Free) :
    PinsRecorded h (cells ++ [c]) h' where
  same := hR.same
  descs := hR.descs
  bits := hR.bits
  hasPins := hR.hasPins
  pinned := hR.pinned
  recorded := by
    intro x hx hlive
    rcases List.mem_append.1 hx with hx | hx
    · exact hR.recorded x hx hlive
    · rw [List.mem_singleton] at hx
      subst hx
      exact absurd hfree hlive
  newPins := fun x hx => (hR.newPins x hx).imp_right fun ⟨hin, hl⟩ =>
    ⟨List.mem_append_left _ hin, hl⟩
  newBits := fun q => (hR.newBits q).imp_right fun ⟨x, hx, hxq, hl⟩ =>
    ⟨x, List.mem_append_left _ hx, hxq, hl⟩

/-- Folding the explicit pins. -/
theorem fold (h : PageHeap) (cells : List Nat) :
    PinsRecorded h cells (cells.foldl foldExplicitPin h) := by
  refine foldl_prefix (I := fun done (h' : PageHeap) => PinsRecorded h done h') cells ?_ (nil h)
  intro done c h' _ hR
  have hgen : (h'.descs (c / pageSizeCells)).generation = h.genAt c := hR.genAt c
  unfold foldExplicitPin
  rw [hgen]
  by_cases hfree : h.genAt c = .Free
  · rw [if_pos hfree]
    exact hR.skip hfree
  · rw [if_neg hfree]
    exact hR.snoc hfree

end PinsRecorded

/-- An outstanding explicit pin: an object, and its page agrees with the pin set. -/
def ExplicitOk (h : PageHeap) (T : ObjTable) (e : Nat) : Prop :=
  (T e).isSome ∧ (h.kindAt e ≠ .Large → ∀ c ∈ h.pinnedCells, c / pageSizeCells = e / pageSizeCells →
    (h.descs (c / pageSizeCells)).isPinned (pinSlot c) = true)

/-- Recording explicit pins keeps the pin set and the pages in agreement. -/
theorem PinsRecorded.pins {h h' : PageHeap} {T : ObjTable} {cells : List Nat}
    (hR : PinsRecorded h cells h') (hP : ∀ c ∈ h.pinnedCells, PinOk h T c)
    (hE : ∀ e ∈ cells, ExplicitOk h T e) : ∀ c ∈ h'.pinnedCells, PinOk h' T c := by
  intro c hc
  rcases hR.newPins c hc with hold | ⟨hin, hlive⟩
  · rcases hP c hold with ⟨hfree, hmod⟩ | ⟨hsome, hpin⟩
    · left
      rw [hR.genAt]
      exact ⟨hfree, hmod⟩
    · right
      refine ⟨hsome, ?_⟩
      rw [hR.kindAt]
      rcases hpin with hk | hbit | ⟨hnone, hmod⟩
      · exact Or.inl hk
      · exact Or.inr (Or.inl (hR.bits _ _ hbit))
      · by_cases hk : h.kindAt c = .Large
        · exact Or.inl hk
        · rcases hR.newBits (c / pageSizeCells) with hsame | ⟨e, he, hpage, -⟩
          · rw [hsame]
            exact Or.inr (Or.inr ⟨hnone, hmod⟩)
          · have hke : h.kindAt e ≠ .Large := by
              unfold PageHeap.kindAt at hk ⊢
              rw [hpage]
              exact hk
            exact Or.inr (Or.inl (hR.bits _ _ ((hE e he).2 hke c hold hpage.symm)))
  · right
    exact ⟨(hE c hin).1, Or.inr (Or.inl (hR.recorded c hin hlive).2)⟩

/-! ## `apply_pins_and_extend_mark` -/

/-- The cells with an outstanding explicit pin. -/
def PageHeap.explicitCells (h : PageHeap) : List Nat := h.explicitPins.map (·.1)

/-- The marks before the pins are applied. -/
structure MarkState (L : HeapLayout) (h : PageHeap) (T : ObjTable) (g : Generation) : Prop where
  shape : Shape L h T Forwarding.empty
  live : g ≠ .Free
  closed : MarkClosed h T g (PageMarker.markTarget L h g)
  fresh : ∀ c, h.isMarked c = true → h.genAt c = g → (T c).isSome
  pins : ∀ c ∈ h.pinnedCells, PinOk h T c
  explicit : ∀ e ∈ h.explicitCells, ExplicitOk h T e
  active : h.recycleLiveCountsTarget = some g

/-- Where the extension starts: the pinned objects of the generation, and what the payloads of the
others lead to. -/
def PinRoot (L : HeapLayout) (h : PageHeap) (T : ObjTable) (g : Generation) (x : Nat) : Prop :=
  (x ∈ h.pinnedCells ∧ (T x).isSome ∧ h.genAt x = g) ∨ CrossGenTarget L h T g x

/-- What applying the pins establishes. -/
structure PinsApplied (L : HeapLayout) (h : PageHeap) (T : ObjTable) (g : Generation)
    (h' : PageHeap) : Prop where
  objects : SameObjects h h'
  cards : h'.cards = h.cards
  allocRegions : h'.allocRegions = h.allocRegions
  hashOrder : h'.hashOrder = h.hashOrder
  explicitPins : h'.explicitPins = h.explicitPins
  bits : ∀ q slot, (h.descs q).isPinned slot = true → (h'.descs q).isPinned slot = true
  hasPins : ∀ q, (h.descs q).hasPins = true → (h'.descs q).hasPins = true
  pinned : ∀ c ∈ h.pinnedCells, c ∈ h'.pinnedCells
  newPins : ∀ c ∈ h'.pinnedCells, c ∈ h.pinnedCells ∨ c ∈ h.explicitCells
  newBits : ∀ q, h'.descs q = h.descs q ∨ ∃ e ∈ h.explicitCells, e / pageSizeCells = q
  explicit : ∀ e ∈ h.explicitCells, e ∈ h'.pinnedCells ∧
    (h'.descs (e / pageSizeCells)).isPinned (pinSlot e) = true
  pins : ∀ c ∈ h'.pinnedCells, PinOk h' T c
  closed : MarkClosed h' T g (PageMarker.markTarget L h g)
  marks : ∀ c, h.isMarked c = true → h'.isMarked c = true
  roots : ∀ x, PinRoot L h' T g x → h'.isMarked x = true
  fresh : ∀ c, h'.isMarked c = true → h.genAt c = g → (T c).isSome
  sound : ∀ c, h'.isMarked c = true → h.isMarked c = true ∨
    ∃ x, PinRoot L h' T g x ∧ MarkReach h T g (PageMarker.markTarget L h g) x c
  active : h'.recycleLiveCountsTarget = some g

theorem markReach_end {h : PageHeap} {T : ObjTable} {g : Generation} {target : Word → Option Nat}
    (hok : TargetsOk h T g target) {x c : Nat} (hr : MarkReach h T g target x c)
    (hx : (T x).isSome) : (T c).isSome := by
  induction hr with
  | refl => exact hx
  | tail _ hstep _ =>
      obtain ⟨o, i, -, -, -, ht⟩ := mem_markSucc.1 hstep
      exact hok.object _ _ ht

theorem applyPins_applied {L : HeapLayout} {h : PageHeap} {T : ObjTable} {g : Generation}
    (hM : MarkState L h T g) :
    ∃ h', h.applyPinsAndExtendMark L g = .ok h' ∧ PinsApplied L h T g h' := by
  have hperm := h.hashOrder.perm (h.explicitPins.map (·.1))
  have hR := PinsRecorded.fold h (h.hashOrder.iter (h.explicitPins.map (·.1)))
  unfold applyPinsAndExtendMark
  generalize (h.hashOrder.iter (h.explicitPins.map (·.1))).foldl foldExplicitPin h = h₁ at hR
  have hlist : ∀ e, e ∈ h.hashOrder.iter (h.explicitPins.map (·.1)) ↔ e ∈ h.explicitCells :=
    fun e => hperm.mem_iff
  have hO₁ := hR.sameObjects
  have hS₁ := hO₁.shape hM.shape
  have hlive : ∀ e ∈ h.explicitCells, h.genAt e ≠ .Free := by
    intro e he
    obtain ⟨o, ho⟩ := Option.isSome_iff_exists.1 (hM.explicit e he).1
    exact hM.shape.live ho
  have hpins₁ : ∀ c ∈ h₁.pinnedCells, PinOk h₁ T c :=
    hR.pins hM.pins fun e he => hM.explicit e ((hlist e).1 he)
  have htarget₁ : ∀ w, PageMarker.markTarget L h₁ g w = PageMarker.markTarget L h g w :=
    fun w => markTarget_congr hO₁ w
  have htargetFun : PageMarker.markTarget L h₁ g = PageMarker.markTarget L h g := funext htarget₁
  have hmarks₁ : h₁.markBits = h.markBits := by rw [hR.same]
  have hclosed₁ : MarkClosed h₁ T g (PageMarker.markTarget L h g) := by
    intro x y hx hy
    rw [markSucc_congr hO₁] at hy
    unfold isMarked at hx ⊢
    rw [hmarks₁] at hx ⊢
    exact hM.closed x y hx hy
  have hexplicit₁ : ∀ e ∈ h.explicitCells, e ∈ h₁.pinnedCells ∧
      (h₁.descs (e / pageSizeCells)).isPinned (pinSlot e) = true :=
    fun e he => hR.recorded e ((hlist e).2 he) (hlive e he)
  have hnewPins₁ : ∀ c ∈ h₁.pinnedCells, c ∈ h.pinnedCells ∨ c ∈ h.explicitCells :=
    fun c hc => (hR.newPins c hc).imp_right fun hin => (hlist c).1 hin.1
  have hnewBits₁ : ∀ q, h₁.descs q = h.descs q ∨ ∃ e ∈ h.explicitCells, e / pageSizeCells = q :=
    fun q => (hR.newBits q).imp_right fun ⟨e, he, hq, _⟩ => ⟨e, (hlist e).1 he, hq⟩
  have hactive₁ : h₁.recycleLiveCountsActiveFor g = true := by
    unfold recycleLiveCountsActiveFor
    rw [hR.same, hM.active]
    simp
  by_cases hempty : h₁.pinnedCells.isEmpty = true
  · refine ⟨h₁, ?_, ?_⟩
    · simp only [hempty, Bool.not_true, Bool.and_false, Bool.false_eq_true, if_false]
      rfl
    · have hnil := List.isEmpty_iff.1 hempty
      refine ⟨hO₁, ?_, ?_, ?_, ?_, hR.bits, hR.hasPins, hR.pinned, hnewPins₁, hnewBits₁, hexplicit₁,
        hpins₁, hclosed₁, ?_, ?_, ?_, ?_, ?_⟩
      · rw [hR.same]
      · rw [hR.same]
      · rw [hR.same]
      · rw [hR.same]
      · intro c hc
        unfold isMarked at hc ⊢
        rwa [hmarks₁]
      · rintro x (⟨hx, -⟩ | ⟨c, o, i, hc, -⟩)
        · rw [hnil] at hx
          cases hx
        · rw [hnil] at hc
          cases hc
      · intro c hc hgen
        unfold isMarked at hc
        rw [hmarks₁] at hc
        exact hM.fresh c hc hgen
      · intro c hc
        unfold isMarked at hc
        rw [hmarks₁] at hc
        exact Or.inl hc
      · rw [hR.same, hM.active]
  · obtain ⟨h₂, hok₂, hE₂⟩ := extendMarkFromPinned_extended (g := g) hS₁ hM.live
      (by rw [htargetFun]; exact hclosed₁)
    have hclosed₂ := htargetFun ▸ hE₂.closed
    have hsound₂ := htargetFun ▸ hE₂.sound
    have hO₂ := hE₂.frame.sameObjects
    have hS₂ := hO₂.shape hS₁
    have htargetFun₂ : PageMarker.markTarget L h₂ g = PageMarker.markTarget L h g :=
      funext fun w => (markTarget_congr hO₂ w).trans (htarget₁ w)
    obtain ⟨h₃, hok₃, hE₃⟩ := extendMarkFromCrossGenPinned_extended (g := g) hS₂ hM.live
      (by rw [htargetFun₂]; exact hclosed₂)
    have hclosed₃ := htargetFun₂ ▸ hE₃.closed
    have hsound₃ := htargetFun₂ ▸ hE₃.sound
    have hO₃ := hE₃.frame.sameObjects
    have hO : SameObjects h h₃ := (hO₁.trans hO₂).trans hO₃
    have hpinned₃ : h₃.pinnedCells = h₁.pinnedCells := by rw [hE₃.same, hE₂.same]
    have hdescs₃ : h₃.descs = h₁.descs := by rw [hE₃.same, hE₂.same]
    have hactive₂ : h₂.recycleLiveCountsTarget = h₁.recycleLiveCountsTarget := by rw [hE₂.same]
    refine ⟨h₃.prepareRecycleLiveCountsFromMarks g, ?_, ?_⟩
    · simp only [hactive₁, Bool.eq_false_iff.2 hempty, Bool.not_false, Bool.and_self, if_true, hok₂]
      show (h₂.extendMarkFromCrossGenPinned L g >>= fun h => _) = _
      rw [hok₃]
      rfl
    · have hroots : ∀ x, PinRoot L h₃ T g x ↔
          (x ∈ h₁.pinnedCells ∧ (T x).isSome ∧ h₁.genAt x = g) ∨ CrossGenTarget L h₂ T g x := by
        intro x
        unfold PinRoot CrossGenTarget
        have hpinned₂ : h₂.pinnedCells = h₁.pinnedCells := by rw [hE₂.same]
        simp only [hpinned₃, hpinned₂, hO₂.genAt, hO₃.genAt, hO₃.mem, hO₂.mem,
          markTarget_congr hO₃]
      have hprep : SameObjects h₃ (h₃.prepareRecycleLiveCountsFromMarks g) :=
        ⟨rfl, rfl, rfl, rfl, fun _ => .refl _, rfl, rfl⟩
      refine ⟨hO.trans hprep, ?_, ?_, ?_, ?_, ?_, ?_, ?_, ?_, ?_, ?_, ?_, ?_, ?_, ?_, ?_, ?_, rfl⟩
      · show h₃.cards = h.cards
        rw [hE₃.same, hE₂.same, hR.same]
      · show h₃.allocRegions = h.allocRegions
        rw [hE₃.same, hE₂.same, hR.same]
      · show h₃.hashOrder = h.hashOrder
        rw [hE₃.same, hE₂.same, hR.same]
      · show h₃.explicitPins = h.explicitPins
        rw [hE₃.same, hE₂.same, hR.same]
      · show ∀ q slot, _ → (h₃.descs q).isPinned slot = true
        rw [hdescs₃]
        exact hR.bits
      · show ∀ q, _ → (h₃.descs q).hasPins = true
        rw [hdescs₃]
        exact hR.hasPins
      · show ∀ c ∈ h.pinnedCells, c ∈ h₃.pinnedCells
        rw [hpinned₃]
        exact hR.pinned
      · show ∀ c ∈ h₃.pinnedCells, _
        rw [hpinned₃]
        exact hnewPins₁
      · show ∀ q, h₃.descs q = h.descs q ∨ _
        rw [hdescs₃]
        exact hnewBits₁
      · show ∀ e ∈ h.explicitCells, e ∈ h₃.pinnedCells ∧ (h₃.descs _).isPinned _ = true
        rw [hdescs₃, hpinned₃]
        exact hexplicit₁
      · exact hE₃.frame.pins hS₂ (hE₂.frame.pins hS₁ hpins₁)
      · exact hclosed₃
      · intro c hc
        refine hE₃.mono c (hE₂.mono c ?_)
        unfold isMarked at hc ⊢
        rwa [hmarks₁]
      · intro x hx
        rcases (hroots x).1 hx with hx | hx
        · exact hE₃.mono x (hE₂.added x hx)
        · exact hE₃.added x hx
      · intro c hc hgen
        have hobj : ∀ x, PinRoot L h₃ T g x → (T x).isSome := by
          rintro x (⟨-, hsome, -⟩ | ⟨_, _, _, -, -, -, -, ht⟩)
          · exact hsome
          · exact (markTarget_ok (hO₃.shape hS₂) hM.live).object _ x ht
        have hok := markTarget_ok hM.shape hM.live
        rcases hsound₃ c hc with hc₂ | ⟨x, hx, hr⟩
        · rcases hsound₂ c hc₂ with hc₁ | ⟨x, hx, hr⟩
          · unfold isMarked at hc₁
            rw [hmarks₁] at hc₁
            exact hM.fresh c hc₁ hgen
          · exact markReach_end (by
              refine ⟨fun w y hw => hok.object w y hw, fun w y hw => ?_⟩
              rw [hO₁.genAt]
              exact hok.generation w y hw) hr (hobj x ((hroots x).2 (Or.inl hx)))
        · exact markReach_end (by
            refine ⟨fun w y hw => hok.object w y hw, fun w y hw => ?_⟩
            rw [hO₂.genAt, hO₁.genAt]
            exact hok.generation w y hw) hr (hobj x ((hroots x).2 (Or.inr hx)))
      · intro c hc
        have hreach : ∀ {h' : PageHeap}, SameObjects h h' → ∀ {x c},
            MarkReach h' T g (PageMarker.markTarget L h g) x c →
            MarkReach h T g (PageMarker.markTarget L h g) x c := by
          intro h' hO' x c hr
          refine Relation.ReflTransGen.mono ?_ x c hr
          intro a b hab
          rw [← markSucc_congr hO']
          exact hab
        rcases hsound₃ c hc with hc₂ | ⟨x, hx, hr⟩
        · rcases hsound₂ c hc₂ with hc₁ | ⟨x, hx, hr⟩
          · left
            unfold isMarked at hc₁ ⊢
            rwa [hmarks₁] at hc₁
          · exact Or.inr ⟨x, (hroots x).2 (Or.inl hx), hreach hO₁ hr⟩
        · exact Or.inr ⟨x, (hroots x).2 (Or.inr hx), hreach (hO₁.trans hO₂) hr⟩

end NewGc
