import NewGc.Promotion

/-!
# Transparency — what a whole collection does to the object graph

A collection entry point runs one to three evacuations.  Each of them follows the root slots and the
dirty cards it scans, moves what they lead to, and redirects every pointer on the way.  When the
scans miss no pointer between generations and no pointer waits for a later chunk, the graph read
from the root slots is the same after the whole cycle as before it.
-/

namespace NewGc

open Library PageHeap

/-! ## What a card scan offers -/

/-- The dirty-card scan of an evacuation of `g` through `snapshot` offers the cell `c`. -/
structure ScanOffers (L : HeapLayout) (h : PageHeap) (g : Generation) (snapshot : Nat → PageDesc)
    (c : Nat) : Prop where
  dirty : h.cards (c / cardSizeCells) = true
  passes : PageEvacuator.cardPassesFilter h g (some snapshot) (c / cardSizeCells) = true
  walked : c ∈ cardCells h (h.objAt L) (c / cardSizeCells)

/-- A walk over a larger table visits at least as much. -/
theorem cardWalk_subset {T T' : ObjTable} (lo : Nat) {cardEnd : Nat}
    (hsub : ∀ s o, lo ≤ s → s < cardEnd → T s = some o → T' s = some o) {c : Nat} :
    ∀ fuel s, lo ≤ s → c ∈ cardWalk T cardEnd fuel s → c ∈ cardWalk T' cardEnd fuel s := by
  intro fuel
  induction fuel with
  | zero => exact fun _ _ hc => hc
  | succ fuel ih =>
      intro s hs hc
      unfold cardWalk at hc ⊢
      by_cases hdone : cardEnd ≤ s
      · rw [if_pos hdone] at hc
        cases hc
      · rw [if_neg hdone] at hc ⊢
        cases hT : T s with
        | none =>
            rw [hT] at hc
            cases hc
        | some o =>
            rw [hT] at hc
            rw [hsub s o hs (Nat.lt_of_not_le hdone) hT]
            rcases List.mem_append.1 hc with hptr | hrest
            · exact List.mem_append_left _ hptr
            · exact List.mem_append_right _ (ih _ (Nat.le_trans hs (Nat.le_add_right _ _)) hrest)

/-- A walk that visits anything starts at an object. -/
theorem cardWalk_start {T : ObjTable} {cardEnd fuel s c : Nat}
    (hc : c ∈ cardWalk T cardEnd fuel s) : s < cardEnd ∧ ∃ o, T s = some o := by
  cases fuel with
  | zero => cases hc
  | succ fuel =>
      unfold cardWalk at hc
      by_cases hdone : cardEnd ≤ s
      · rw [if_pos hdone] at hc
        cases hc
      · rw [if_neg hdone] at hc
        cases hT : T s with
        | none =>
            rw [hT] at hc
            cases hc
        | some o => exact ⟨Nat.lt_of_not_le hdone, o, rfl⟩

theorem scan_congr (h h' : PageHeap) (first : Nat) :
    ∀ off, (∀ j ≤ off, h'.isStartAt (first + j) = h.isStartAt (first + j)) →
      objectStartAtOrBefore.scan h' first off = objectStartAtOrBefore.scan h first off := by
  intro off
  induction off with
  | zero =>
      intro hbits
      unfold objectStartAtOrBefore.scan
      rw [show h'.isStartAt first = h.isStartAt first from hbits 0 (Nat.le_refl 0)]
  | succ off ih =>
      intro hbits
      unfold objectStartAtOrBefore.scan
      rw [hbits (off + 1) (Nat.le_refl _), ih fun j hj => hbits j (Nat.le_succ_of_le hj)]

theorem firstStartFrom_agree {h h' : PageHeap} :
    ∀ fuel c, (∀ x, c ≤ x → x ≤ h.firstStartFrom fuel c → h'.isStartAt x = h.isStartAt x) →
      h'.firstStartFrom fuel c = h.firstStartFrom fuel c := by
  intro fuel
  induction fuel with
  | zero => exact fun _ _ => rfl
  | succ fuel ih =>
      intro c hbits
      have hc := hbits c (Nat.le_refl c) (firstStartFrom_le h _ _)
      unfold firstStartFrom
      rw [hc]
      by_cases hstart : h.isStartAt c = true
      · rw [if_pos hstart, if_pos hstart]
      · rw [if_neg hstart, if_neg hstart]
        refine ih (c + 1) fun x hx hle => hbits x (Nat.le_of_succ_le hx) ?_
        unfold firstStartFrom
        rw [if_neg hstart]
        exact hle

section Midway

variable {L : HeapLayout} {p : ChunkParams} {h₀ hc : PageHeap} {T₀ Tc : ObjTable} {K : Forwarding}

/-- Below the words that were in use before the loop, a page of another generation has the same
objects while a chunk is under way. -/
theorem Midway.same_below (hM : Midway L p h₀ T₀ hc Tc K) {c : Nat}
    (hlive : h₀.genAt c ≠ .Free) (hgen : h₀.genAt c ≠ p.fromGen)
    (hbelow : h₀.kindAt c = .Large ∨
      c % pageSizeCells < (h₀.descs (c / pageSizeCells)).wordsUsed) : Tc c = T₀ c := by
  cases hT : T₀ c with
  | some o => exact hM.others c o hT hgen
  | none =>
      cases hTc : Tc c with
      | none => rfl
      | some o =>
          rcases hM.late c o hTc hlive hgen with hold | ⟨hsmall, hlate⟩
          · rw [hT] at hold
            cases hold
          · rcases hbelow with hlarge | hlt
            · exact absurd hlarge hsmall
            · omega

theorem Midway.start_below (hX : Shape L h₀ T₀ Forwarding.empty) (hM : Midway L p h₀ T₀ hc Tc K)
    {c : Nat} (hlive : h₀.genAt c ≠ .Free) (hgen : h₀.genAt c ≠ p.fromGen)
    (hbelow : h₀.kindAt c = .Large ∨
      c % pageSizeCells < (h₀.descs (c / pageSizeCells)).wordsUsed) :
    hc.isStartAt c = h₀.isStartAt c := by
  have hlive' : hc.genAt c ≠ .Free := by
    unfold genAt
    rw [(hM.alike _ hlive hgen).generation]
    exact hlive
  unfold isStartAt
  rw [hX.start c hlive, hM.shape.start c hlive', hM.same_below hlive hgen hbelow]

/-- A cell that the scan offers before the loop is offered in phase 2 of every chunk. -/
theorem Midway.offers (hX : Shape L h₀ T₀ Forwarding.empty) (hM : Midway L p h₀ T₀ hc Tc K)
    {x i : Nat} {o : ObjInfo} {D : Nat → PageDesc} (hT : T₀ x = some o)
    (hgen : h₀.genAt x ≠ p.fromGen) (hptr : o.IsPtr i)
    (hoff : ScanOffers L h₀ p.fromGen D (x + i)) :
    Slot.cell (x + i) ∈ scannedSlots hc Tc p.fromGen (some D) := by
  obtain ⟨hdirty, hpass, hwalk⟩ := hoff
  have hi := (hX.wf hT).inside i hptr
  have hsame := hX.genAt_inside hT hi
  generalize hcell : x + i = c at *
  generalize hcard : c / cardSizeCells = card at *
  have hpage : card / cardsPerPage = c / pageSizeCells := by
    unfold cardSizeCells cardsPerPage pageSizeCells at *
    omega
  have hstartPage := card_page card
  have hlive : (h₀.descs (c / pageSizeCells)).generation ≠ .Free := by
    have := hX.live hT
    rw [← hsame] at this
    exact this
  have hfrom : (h₀.descs (c / pageSizeCells)).generation ≠ p.fromGen := by
    rw [← hsame] at hgen
    exact hgen
  have hA := hM.alike _ hlive hfrom
  have hn : hc.nPages = h₀.nPages := hM.control.nPages
  have hlimit : cardLimit hc card = cardLimit h₀ card := by
    unfold cardLimit totalCells
    rw [hn]
  have hkind : hc.kindAt (card * cardSizeCells) = h₀.kindAt (card * cardSizeCells) := by
    unfold kindAt
    rw [hstartPage, hpage]
    exact hA.kind
  rw [hX.table_eq] at hwalk
  have hfree : h₀.kindAt (card * cardSizeCells) ≠ .Free := by
    intro hk
    unfold cardCells at hwalk
    rw [if_pos hk] at hwalk
    cases hwalk
  have hfiltered : card ∈ scannedCards hc p.fromGen (some D) := by
    refine List.mem_filter.2 ⟨?_, ?_⟩
    · rw [List.mem_range, hn]
      have hlt := hX.pages.page_lt hlive
      rw [← hpage] at hlt
      unfold cardsPerPage at *
      omega
    · rw [Bool.and_eq_true]
      refine ⟨hM.cards card (by rw [hpage]; exact hlive) (by rw [hpage]; exact hfrom) hdirty, ?_⟩
      unfold PageEvacuator.cardPassesFilter at hpass ⊢
      rw [hn]
      exact hpass
  refine List.mem_flatMap.2 ⟨card, hfiltered, List.mem_map.2 ⟨c, ?_, rfl⟩⟩
  unfold cardCells at hwalk ⊢
  rw [if_neg hfree] at hwalk
  rw [hkind, if_neg hfree, hlimit]
  obtain ⟨hlt, o₁, hT₁⟩ := cardWalk_start hwalk
  have hend : cardLimit h₀ card ≤ (c / pageSizeCells + 1) * pageSizeCells := by
    refine (Nat.min_le_left _ _).trans ?_
    rw [← hpage]
    unfold cardSizeCells pageSizeCells cardsPerPage
    omega
  by_cases hlarge : (h₀.descs (c / pageSizeCells)).kind = .Large
  · -- the walk starts at the head of the run, whose pages are all of one generation
    obtain ⟨head, hkh, hspan, hle, hlth⟩ := hX.pages.exists_head hlarge
    have hrun : ∀ q, head ≤ q → q < head + (h₀.descs head).nSpan →
        (h₀.descs q).kind = .Large ∧ (h₀.descs q).generation ≠ .Free ∧
          (h₀.descs q).generation ≠ p.fromGen := by
      intro q h1 h2
      obtain ⟨hk, hg⟩ := hX.pages.run_page hkh ⟨h1, h2⟩
      obtain ⟨-, hg'⟩ := hX.pages.run_page hkh ⟨hle, hlth⟩
      rw [hg, ← hg']
      exact ⟨hk, hlive, hfrom⟩
    obtain ⟨-, hheadLive, hheadFrom⟩ := hrun head (Nat.le_refl _) (by omega)
    have hAh := hM.alike head hheadLive hheadFrom
    have hhead₀ : h₀.largeHeadPage (c / pageSizeCells) = head := by
      have := hX.pages.largeHeadPage hkh hspan (c / pageSizeCells - head) (by omega)
      rwa [Nat.add_sub_cancel' hle] at this
    have hheadc : hc.largeHeadPage (c / pageSizeCells) = head := by
      have := hM.shape.pages.largeHeadPage (hAh.kind.trans hkh) (by rw [hAh.nSpan]; exact hspan)
        (c / pageSizeCells - head) (by rw [hAh.nSpan]; omega)
      rwa [Nat.add_sub_cancel' hle] at this
    have hstart₀ : cardWalkStart h₀ (card * cardSizeCells) (cardLimit h₀ card) =
        head * pageSizeCells := by
      unfold cardWalkStart objectStartAtOrBefore
      dsimp only
      rw [hstartPage, hpage, hlarge, hhead₀]
    have hstartc : cardWalkStart hc (card * cardSizeCells) (cardLimit h₀ card) =
        head * pageSizeCells := by
      unfold cardWalkStart objectStartAtOrBefore
      dsimp only
      rw [hstartPage, hpage, hA.kind, hlarge, hheadc]
    rw [hstartc]
    rw [hstart₀] at hwalk
    refine cardWalk_subset (head * pageSizeCells) (fun s o' h1 h2 hs => ?_) _ _
      (Nat.le_refl _) hwalk
    refine hM.others s o' hs (hrun _ ?_ ?_).2.2
    · unfold pageSizeCells at *
      omega
    · unfold pageSizeCells at *
      omega
  · -- the walk starts on the card's page, below the words in use
    have hkc : h₀.kindAt (card * cardSizeCells) ≠ .Large := by
      unfold kindAt
      rw [hstartPage, hpage]
      exact hlarge
    have hused : c % pageSizeCells < (h₀.descs (c / pageSizeCells)).wordsUsed := by
      rcases hX.cell_page hT hi with ⟨hsmall, hq⟩ | ⟨hk, j, hq, hj⟩
      · have hfit := (hX.obj x o hT).small hsmall
        rw [hcell] at hq
        rw [hq]
        unfold pageSizeCells at *
        omega
      · exfalso
        apply hlarge
        rw [← hcell, hq]
        have hspan := ((hX.obj x o hT).large hk).2.2.1
        exact (hX.pages.run_page hk ⟨Nat.le_add_right _ _, by omega⟩).1
    have hbits : ∀ y, y / pageSizeCells = c / pageSizeCells →
        y % pageSizeCells < (h₀.descs (c / pageSizeCells)).wordsUsed →
        hc.isStartAt y = h₀.isStartAt y := by
      intro y hy hlt
      refine hM.start_below hX ?_ ?_ (Or.inr ?_)
      · unfold genAt
        rw [hy]
        exact hlive
      · unfold genAt
        rw [hy]
        exact hfrom
      · rw [hy]
        exact hlt
    have hstart : cardWalkStart hc (card * cardSizeCells) (cardLimit h₀ card) =
        cardWalkStart h₀ (card * cardSizeCells) (cardLimit h₀ card) := by
      have hscan := scan_congr h₀ hc
        (card * cardSizeCells / pageSizeCells * pageSizeCells)
        (card * cardSizeCells - card * cardSizeCells / pageSizeCells * pageSizeCells) (by
          intro j hj
          refine hbits _ ?_ ?_
          · rw [← hpage, ← hstartPage]
            unfold pageSizeCells at *
            omega
          · refine lt_of_le_of_lt ?_ hused
            unfold cardSizeCells pageSizeCells cardsPerPage at *
            omega)
      have hfirst : ∀ fuel, h₀.firstStartFrom fuel (card * cardSizeCells) < cardLimit h₀ card →
          (∃ o', T₀ (h₀.firstStartFrom fuel (card * cardSizeCells)) = some o') →
          hc.firstStartFrom fuel (card * cardSizeCells) =
            h₀.firstStartFrom fuel (card * cardSizeCells) := by
        rintro fuel hlt' ⟨o', ho'⟩
        have hge := firstStartFrom_le h₀ fuel (card * cardSizeCells)
        have hq : h₀.firstStartFrom fuel (card * cardSizeCells) / pageSizeCells =
            c / pageSizeCells := by
          rw [← hpage] at hend ⊢
          unfold cardSizeCells pageSizeCells cardsPerPage at *
          omega
        have hsmall : h₀.kindAt (h₀.firstStartFrom fuel (card * cardSizeCells)) ≠ .Large := by
          unfold kindAt
          rw [hq]
          exact hlarge
        have hfit := (hX.obj _ _ ho').small hsmall
        have hpos := (hX.wf ho').pos
        rw [hq] at hfit
        refine firstStartFrom_agree fuel _ fun y hy hle => hbits y ?_ ?_
        · rw [← hpage] at hend hq ⊢
          unfold cardSizeCells pageSizeCells cardsPerPage at *
          omega
        · rw [← hpage] at hend hq hfit ⊢
          unfold cardSizeCells pageSizeCells cardsPerPage at *
          omega
      unfold cardWalkStart objectStartAtOrBefore at hlt hT₁ ⊢
      dsimp only at hlt hT₁ ⊢
      have hkinds : (hc.descs (card * cardSizeCells / pageSizeCells)).kind =
          (h₀.descs (card * cardSizeCells / pageSizeCells)).kind := hkind
      rw [hkinds]
      cases hk : (h₀.descs (card * cardSizeCells / pageSizeCells)).kind with
      | Large => exact absurd hk hkc
      | Free => exact absurd hk hfree
      | Cons | Boxed =>
          rw [hk] at hlt hT₁
          dsimp only at hlt hT₁ ⊢
          rw [hscan]
          cases hs : objectStartAtOrBefore.scan h₀
              (card * cardSizeCells / pageSizeCells * pageSizeCells)
              (card * cardSizeCells -
                card * cardSizeCells / pageSizeCells * pageSizeCells) with
          | some s => rfl
          | none =>
              rw [hs] at hlt hT₁
              exact hfirst _ hlt ⟨o₁, hT₁⟩
    rw [hstart]
    have hlo := cardWalkStart_page (h := h₀) (cardLimit h₀ card) hkc
    rw [hstartPage, hpage] at hlo
    refine cardWalk_subset (c / pageSizeCells * pageSizeCells) (fun s o' h1 h2 hs => ?_) _ _
      hlo hwalk
    refine hM.others s o' hs ?_
    unfold genAt
    have hq : s / pageSizeCells = c / pageSizeCells := by
      unfold pageSizeCells at *
      omega
    rw [hq]
    exact hfrom

end Midway


/-! ## Accessible objects -/

/-- The objects that the root slots and the objects in `held` lead to, in any generation. -/
inductive Accessible (L : HeapLayout) (h : PageHeap) (ext : Nat → Word) (roots : List Nat)
    (held : Nat → Prop) : Nat → Prop
  | root {a t : Nat} (ha : a ∈ roots) (ht : h.pointee L (ext a) = some t) :
      Accessible L h ext roots held t
  | held {c : Nat} (hc : held c) (hobj : (h.objAt L c).isSome) : Accessible L h ext roots held c
  | step {x y : Nat} (hx : Accessible L h ext roots held x) (hedge : Edge L h x y) :
      Accessible L h ext roots held y

/-- No object is held. -/
def Unheld (_ : Nat) : Prop := False

theorem Accessible.of_slots {L : HeapLayout} {h : PageHeap} {ext : Nat → Word} {roots : List Nat}
    {held : Nat → Prop} {c : Nat} (hc : Accessible L h ext roots Unheld c) :
    Accessible L h ext roots held c := by
  induction hc with
  | root ha ht => exact .root ha ht
  | held hc _ => exact hc.elim
  | step _ hedge ih => exact .step ih hedge

/-- The card scans of an evacuation of `g` offer every cell of an accessible object outside `g`
that points into `g`. -/
def ScanCovers (L : HeapLayout) (h : PageHeap) (ext : Nat → Word) (g : Generation)
    (roots : List Nat) (held : Nat → Prop) (filters : List (Nat → PageDesc)) : Prop :=
  ∀ x o i t, Accessible L h ext roots held x → h.objAt L x = some o → h.genAt x ≠ g → o.IsPtr i →
    h.pointee L (h.mem (x + i)) = some t → h.genAt t = g →
    ∃ D ∈ filters, ScanOffers L h g D (x + i)

/-- The marks of the pin steps do not hold a large run: one of `g` that is accessible is held itself,
or the root slots lead to it. -/
def LargeSeen (L : HeapLayout) (h : PageHeap) (ext : Nat → Word) (g : Generation)
    (roots : List Nat) (held : Nat → Prop) : Prop :=
  ∀ c, Accessible L h ext roots held c → h.genAt c = g → h.kindAt c = .Large →
    held c ∨ Accessible L h ext roots Unheld c

theorem largeSeen_of_small {L : HeapLayout} {h : PageHeap} {g : Generation}
    (hsmall : ∀ q, (h.descs q).generation = g → (h.descs q).kind ≠ .Large) (ext : Nat → Word)
    (roots : List Nat) (held : Nat → Prop) : LargeSeen L h ext g roots held :=
  fun _ _ hgen hk => absurd hk (hsmall _ hgen)

/-- No marked object that waits for a later chunk points at an object this chunk copies. -/
def NoPointerWaits (L : HeapLayout) (p : ChunkParams) (s : ChunkState) : Prop :=
  p.fromGen ≠ p.destGen → ∀ c o i t, s.heap.objAt L c = some o → o.IsPtr i →
    c / pageSizeCells ∈ s.rest → c / pageSizeCells ∉ s.chunk p → s.heap.isMarked c = true →
    s.heap.pointee L (s.heap.mem (c + i)) = some t → t / pageSizeCells ∈ s.chunk p →
    s.heap.kindAt t = .Large ∨ s.heap.isPinnedCell t = true

section Marking

variable {L : HeapLayout} {h h' : PageHeap} {T : ObjTable} {ext : Nat → Word} {g : Generation}
  {roots : List Nat} {held : Nat → Prop} {filters : List (Nat → PageDesc)}

theorem pointee_object {w : Word} {t : Nat} (hw : h.pointee L w = some t) :
    ∃ o, h.objAt L t = some o := by
  obtain ⟨-, o, -, -, -, ho⟩ := pointee_iff.1 hw
  exact ⟨o, ho⟩

theorem Accessible.object {c : Nat} (hc : Accessible L h ext roots held c) :
    ∃ o, h.objAt L c = some o := by
  cases hc with
  | root _ ht => exact pointee_object ht
  | held _ hobj => exact Option.isSome_iff_exists.1 hobj
  | step _ hedge =>
      obtain ⟨o, i, ho, hptr, hp⟩ := hedge
      exact pointee_object hp

theorem evacTarget_of_pointee (hS : Shape L h T Forwarding.empty) (hg : g ≠ .Free) {w : Word}
    {t : Nat} (hw : h.pointee L w = some t) (hgen : h.genAt t = g) : evacTarget L h g w = some t :=
  evacTarget_of_markTarget hS hg (markTarget_of_pointee hS hw hgen)

theorem mem_scannedSlots {c : Nat} {D : Nat → PageDesc} (hS : Shape L h T Forwarding.empty)
    (hoff : ScanOffers L h g D c) : Slot.cell c ∈ scannedSlots h T g (some D) := by
  obtain ⟨hdirty, hpass, hwalk⟩ := hoff
  rw [hS.table_eq] at hwalk
  refine List.mem_flatMap.2 ⟨_, List.mem_filter.2 ⟨?_, ?_⟩, List.mem_map.2 ⟨c, hwalk, rfl⟩⟩
  · unfold PageEvacuator.cardPassesFilter at hpass
    dsimp only at hpass
    rw [Bool.and_eq_true, Bool.and_eq_true, decide_eq_true_eq, card_page] at hpass
    rw [List.mem_range]
    have hlt := hpass.1.1
    unfold cardsPerPage at *
    omega
  · rw [hdirty, hpass]
    rfl

/-- What the root slots lead to is found by the internal mark. -/
theorem Accessible.passMarked (hS : Shape L h T Forwarding.empty) (hg : g ≠ .Free)
    (hcover : ScanCovers L h ext g roots held filters) {c : Nat}
    (hc : Accessible L h ext roots Unheld c) (hgen : h.genAt c = g) :
    PassMarked L h T ext g (rootSlots roots) filters c := by
  induction hc with
  | @root a t ha ht =>
      exact ⟨.ext a, List.mem_append_left _ (List.mem_map.2 ⟨a, ha, rfl⟩), t,
        evacTarget_of_pointee hS hg ht hgen, .refl⟩
  | held hc => exact hc.elim
  | @step x y hx hedge ih =>
      obtain ⟨o, i, ho, hptr, hp⟩ := hedge
      by_cases hgx : h.genAt x = g
      · -- inside the generation the drain follows the pointer
        obtain ⟨s, hs, r, hr, hreach⟩ := ih hgx
        refine ⟨s, hs, r, hr, hreach.tail (mem_markSucc.2 ⟨o, i, ?_, hgx, hptr, ?_⟩)⟩
        · rw [← hS.objAt_eq]
          exact ho
        · exact evacTarget_of_pointee hS hg hp hgen
      · -- from another generation the pointer is on a scanned card
        obtain ⟨D, hD, hoff⟩ := hcover x o i y hx.of_slots ho hgx hptr hp hgen
        exact ⟨.cell (x + i), List.mem_append_right _
          (List.mem_flatMap.2 ⟨D, hD, mem_scannedSlots hS hoff⟩), y,
          evacTarget_of_pointee hS hg hp hgen, .refl⟩

/-- What is accessible in the generation is marked when the pins have been applied. -/
theorem Accessible.marked {hm : PageHeap} (hS : Shape L h T Forwarding.empty) (hg : g ≠ .Free)
    (hcover : ScanCovers L h ext g roots held filters)
    (hM : Prepared L h T g (PassMarked L h T ext g (rootSlots roots) filters) hm)
    (hheld : ∀ c, held c → c ∈ hm.pinnedCells) {c : Nat} (hc : Accessible L h ext roots held c)
    (hgen : h.genAt c = g) : hm.isMarked c = true := by
  induction hc with
  | @root a t ha ht => exact hM.marks t (Accessible.passMarked hS hg hcover (.root ha ht) hgen)
  | @held c hc hobj =>
      refine hM.roots c (Or.inl ⟨hheld c hc, ?_, (hM.objects.genAt c).trans hgen⟩)
      rw [← hS.objAt_eq]
      exact hobj
  | @step x y hx hedge ih =>
      obtain ⟨o, i, ho, hptr, hp⟩ := hedge
      have hT : T x = some o := by
        rw [← hS.objAt_eq]
        exact ho
      by_cases hgx : h.genAt x = g
      · -- the marks are closed under the pointers within the generation
        refine hM.closed x y (ih hgx) (mem_markSucc.2 ⟨o, i, hT, ?_, hptr, ?_⟩)
        · exact (hM.objects.genAt x).trans hgx
        · rw [hM.objects.mem]
          exact markTarget_of_pointee hS hp hgen
      · obtain ⟨D, hD, hoff⟩ := hcover x o i y hx ho hgx hptr hp hgen
        exact hM.marks y ⟨.cell (x + i), List.mem_append_right _
          (List.mem_flatMap.2 ⟨D, hD, mem_scannedSlots hS hoff⟩), y,
          evacTarget_of_pointee hS hg hp hgen, .refl⟩

end Marking

/-! ## Following the pointers through the chunks -/

/-- The slots phase 2 presents in every chunk: the roots, and the cells the card scans offered. -/
def ScannedSlot (L : HeapLayout) (h : PageHeap) (T : ObjTable) (g : Generation) (roots : List Nat)
    (filters : List (Nat → PageDesc)) (s : Slot) : Prop :=
  s ∈ rootSlots roots ∨ ∃ x o i, s = .cell (x + i) ∧ T x = some o ∧ h.genAt x ≠ g ∧ o.IsPtr i ∧
    ∃ D ∈ filters, ScanOffers L h g D (x + i)

/-- The cells whose pointers a pass must redirect. -/
def AccessibleCell (L : HeapLayout) (h₀ : PageHeap) (live : Nat → Prop) (c i : Nat) : Prop :=
  live c ∧ ∃ t, h₀.pointee L (h₀.mem (c + i)) = some t

section Follow

variable {L : HeapLayout} {p : ChunkParams} {h₀ : PageHeap} {T₀ T T' : ObjTable}
  {s s' : ChunkState} {F K : Forwarding} {must : Slot → Prop} {ext₀ : Nat → Word}
  {live : Nat → Prop} {GoodExt : Nat → Prop}

/-- An object of the evacuated generation that stays put while its page is no longer listed has
joined the destination, large runs included. -/
theorem Evacuating.gen_of_kept (hX : LoopStart L p h₀ T₀) (hE : Evacuating L p h₀ T₀ s T F)
    {c : Nat} (hF : F c = some c) (hgen : h₀.genAt c = p.fromGen)
    (hrest : c / pageSizeCells ∉ s.rest) : s.heap.genAt c = p.destGen := by
  obtain ⟨o, hT₀, hT⟩ := hE.fate_some c c hF
  have hlive : (h₀.descs (c / pageSizeCells)).generation ≠ .Free := hX.shape.live hT₀
  have hfate : PageFate p h₀ s.heap T s.rest (c / pageSizeCells) (c / pageSizeCells) := by
    by_cases hk : (h₀.descs (c / pageSizeCells)).kind = .Large
    · have hspan := ((hX.shape.obj c o hT₀).large hk).2.2.1
      exact hE.run _ _ hk hspan (Nat.le_refl _) (by omega)
    · exact hE.small _ hlive hk
  cases hpins : (h₀.descs (c / pageSizeCells)).hasPins with
  | true => exact (hfate.flipped hgen hrest hpins).generation
  | false =>
      -- a released page has been opened again: an object is on it
      rcases hfate.released hgen hrest hpins with hfree | hreused
      · exact absurd hfree (hE.shape.live hT)
      · exact hreused.1

theorem Evacuating.waiting_pointee (hX : LoopStart L p h₀ T₀) (hE : Evacuating L p h₀ T₀ s T F)
    {t : Nat} (ht : t / pageSizeCells ∈ s.rest) {w : Word} (hw : h₀.pointee L w = some t) :
    s.heap.pointee L w = some t := by
  obtain ⟨addr, o, hp, hin, hcell, hobj⟩ := pointee_iff.1 hw
  refine pointee_iff.2 ⟨addr, o, hp, ?_, ?_, ?_⟩
  · rw [pageOf_congr hE.control.base hE.control.nPages]
    exact hin
  · unfold cellOf at hcell ⊢
    rw [hE.control.base]
    exact hcell
  · rw [hX.shape.objAt_eq] at hobj
    rw [hE.shape.objAt_eq, hE.table_rest ht]
    exact hobj

/-- A chunk leaves no pointer of an accessible object behind. -/
theorem Evacuating.traceable_accessible (hX : LoopStart L p h₀ T₀)
    (hmarked : ∀ c, live c → h₀.genAt c = p.fromGen → h₀.isMarked c = true ∧
      (h₀.kindAt c = .Large → c ∈ h₀.pinnedCells))
    (hcover : ∀ c o i t, live c → T₀ c = some o → h₀.genAt c ≠ p.fromGen → o.IsPtr i →
      h₀.pointee L (h₀.mem (c + i)) = some t → h₀.genAt t = p.fromGen → must (.cell (c + i)))
    (hroots : ∀ a, GoodExt a → must (.ext a)) (hE : Evacuating L p h₀ T₀ s T F)
    (hR : ChunkResult L p must s T s' T' K)
    (hF : Followed L h₀ T₀ ext₀ (AccessibleCell L h₀ live) GoodExt s F)
    (hsafe : NoPointerWaits L p s) :
    Traceable L p must h₀ T₀ ext₀ (AccessibleCell L h₀ live) GoodExt s F K where
  cells := by
    intro c o i t hT₀ hptr hgood hFc hK hdest hpin hmust htarget
    obtain ⟨hlive, t', hpointee⟩ := hgood
    have htt : t' = t := by
      have heq := targetCell_of_pointee hpointee
      rw [htarget] at heq
      cases heq
      rfl
    subst htt
    rw [← Option.not_isSome_iff_eq_none]
    intro hsome
    obtain ⟨hto, hin⟩ := (hR.dom t').1 hsome
    have ht := chunk_rest hin
    have htgen : h₀.genAt t' = p.fromGen := hE.listedFrom _ ht
    by_cases hgen : h₀.genAt c = p.fromGen
    · obtain ⟨hmark, hlargePin⟩ := hmarked c hlive hgen
      -- the object has not been processed: its page is listed
      have hrest : c / pageSizeCells ∈ s.rest := by
        by_contra hrest
        exact hdest (hE.gen_of_kept hX hFc hgen hrest)
      have hlisted := hE.listed_alike hX hrest hT₀
      have hne : p.fromGen ≠ p.destGen := by
        intro heq
        apply hdest
        show (s.heap.descs (c / pageSizeCells)).generation = p.destGen
        rw [hlisted.generation, ← heq]
        exact hgen
      have hmark' : s.heap.isMarked c = true := by
        rw [isMarked_congr hE.control]
        exact hmark
      by_cases hchunk : c / pageSizeCells ∈ s.chunk p
      · -- in the chunk, but not copied: it is pinned, as every marked large run is
        have hsmall : h₀.kindAt c ≠ .Large := by
          intro hk
          apply hpin
          rw [hE.control.pinnedCells]
          exact hlargePin hk
        have hunpinned : s.heap.isPinnedCell c = false := by
          cases hc : s.heap.isPinnedCell c with
          | false => rfl
          | true =>
              unfold isPinnedCell at hc
              rw [Bool.and_eq_true, decide_eq_true_eq] at hc
              exact absurd hc.2 hpin
        have hcopy : ToCopy s.heap T p.fromGen c := by
          refine ⟨?_, ?_, ?_, hmark', hunpinned⟩
          · rw [hE.table_rest hrest, hT₀]
            rfl
          · show (s.heap.descs (c / pageSizeCells)).generation = p.fromGen
            rw [hlisted.generation]
            exact hgen
          · show (s.heap.descs (c / pageSizeCells)).kind ≠ .Large
            rw [hlisted.kind]
            exact hsmall
        have hmoved := (hR.dom c).2 ⟨hcopy, hchunk⟩
        rw [hK] at hmoved
        cases hmoved
      · -- it waits: what it points at is not copied before it
        have hmem : s.heap.mem (c + i) = h₀.mem (c + i) := by
          rw [hF.cells c c o i hFc hT₀ hptr ⟨hlive, t', hpointee⟩]
          apply redirect_of_none
          rw [htarget, Option.bind_some]
          obtain ⟨o', ho'⟩ := Option.isSome_iff_exists.1 hto.object
          rw [hE.table_rest ht] at ho'
          unfold Forwarding.moves
          rw [hE.waiting t' o' ho' (Or.inr ht)]
          exact if_pos rfl
        rcases hsafe hne c o i t'
          (by rw [hE.shape.objAt_eq, hE.table_rest hrest]; exact hT₀) hptr hrest hchunk hmark'
          (by rw [hmem]; exact hE.waiting_pointee hX ht hpointee) hin with hk | hpinned
        · exact hto.small hk
        · rw [hto.unpinned] at hpinned
          cases hpinned
    · exact hmust (hcover c o i t' hlive hT₀ hgen hptr hpointee htgen)
  ext := fun a _ hgood hmust => absurd (hroots a hgood) hmust

end Follow

/-! ## The graph after a pass -/

/-- `w'` is `w` with its address rewritten, any number of times. -/
inductive Readdressed (L : HeapLayout) (w : Word) : Word → Prop
  | refl : Readdressed L w w
  | rewrite {w' : Word} (hw : Readdressed L w w') {addr : Nat} (haligned : addr % 8 = 0) :
      Readdressed L w (L.rewritePointerAddr w' addr)

theorem Readdressed.trans {L : HeapLayout} {w w' w'' : Word} (h₁ : Readdressed L w w')
    (h₂ : Readdressed L w' w'') : Readdressed L w w'' := by
  induction h₂ with
  | refl => exact h₁
  | rewrite _ haligned ih => exact ih.rewrite haligned

/-- Rewriting the address of a Lisp word keeps its tag. -/
theorem Readdressed.lisp_tag {w w' : Word} (hw : Readdressed lispLayout w w') :
    w' &&& LispLayout.tagMask = w &&& LispLayout.tagMask := by
  induction hw with
  | refl => rfl
  | @rewrite w' _ addr haligned ih => exact (LispLayout.rewrite_tag haligned w').trans ih

/-- The word `w` has become `w'`, which points at `d`. -/
structure Follows (L : HeapLayout) (h' : PageHeap) (w w' : Word) (d : Nat) : Prop where
  word : Readdressed L w w'
  target : h'.pointee L w' = some d

/-- `F` says where each object is now; what the root slots and the held objects led to is still
there, the held objects where they were, every pointer on the way has followed, and every cell that
is no pointer holds the word it held. -/
structure GraphKept (L : HeapLayout) (h : PageHeap) (ext : Nat → Word) (roots : List Nat)
    (held : Nat → Prop) (h' : PageHeap) (ext' : Nat → Word) (F : Forwarding) : Prop where
  base : h'.base = h.base
  nPages : h'.nPages = h.nPages
  object : ∀ c c', F c = some c' → (h.objAt L c).isSome ∧ h'.objAt L c' = h.objAt L c
  inj : ∀ c d e, F c = some e → F d = some e → c = d
  onto : ∀ c', (h'.objAt L c').isSome → ∃ c, F c = some c'
  plain : ∀ c c' o i, F c = some c' → h.objAt L c = some o → i < o.totalCells →
    h.PlainCell L c o i → h'.mem (c' + i) = h.mem (c + i)
  alive : ∀ c, Accessible L h ext roots held c → ∃ c', F c = some c'
  fixed : ∀ c, held c → (h.objAt L c).isSome → F c = some c
  pointers : ∀ c c' o i t, Accessible L h ext roots held c → F c = some c' →
    h.objAt L c = some o → o.IsPtr i → h.pointee L (h.mem (c + i)) = some t →
    ∃ d, F t = some d ∧ Follows L h' (h.mem (c + i)) (h'.mem (c' + i)) d
  slots : ∀ a ∈ roots, ∀ t, h.pointee L (ext a) = some t →
    ∃ d, F t = some d ∧ Follows L h' (ext a) (ext' a) d

namespace GraphKept

variable {L : HeapLayout} {h h' h'' : PageHeap} {ext ext' ext'' : Nat → Word} {roots : List Nat}
  {held : Nat → Prop} {F G : Forwarding}

/-- What was accessible is accessible at its new place. -/
theorem accessible (hF : GraphKept L h ext roots held h' ext' F) {c c' : Nat}
    (hc : Accessible L h ext roots held c) (hFc : F c = some c') :
    Accessible L h' ext' roots held c' := by
  induction hc generalizing c' with
  | @root a t ha ht =>
      obtain ⟨d, hFt, hw⟩ := hF.slots a ha t ht
      rw [hFc] at hFt
      cases hFt
      exact .root ha hw.target
  | @held c hc hobj =>
      rw [hF.fixed c hc hobj] at hFc
      cases hFc
      have hobj' := (hF.object c c (hF.fixed c hc hobj)).2
      exact .held hc (by rw [hobj']; exact hobj)
  | @step x y hx hedge ih =>
      obtain ⟨o, i, ho, hptr, hp⟩ := hedge
      obtain ⟨x', hFx⟩ := hF.alive x hx
      obtain ⟨d, hFy, hw⟩ := hF.pointers x x' o i y hx hFx ho hptr hp
      rw [hFc] at hFy
      cases hFy
      exact .step (ih hFx) ⟨o, i, (hF.object x x' hFx).2.trans ho, hptr, hw.target⟩

theorem trans (hF : GraphKept L h ext roots held h' ext' F)
    (hG : GraphKept L h' ext' roots held h'' ext'' G) :
    GraphKept L h ext roots held h'' ext'' (Carried.comp F G) where
  base := hG.base.trans hF.base
  nPages := hG.nPages.trans hF.nPages
  object := by
    intro c e he
    obtain ⟨d, hd, he'⟩ := Carried.comp_some.1 he
    obtain ⟨hc, hobj⟩ := hF.object c d hd
    exact ⟨hc, (hG.object d e he').2.trans hobj⟩
  inj := by
    intro c₁ c₂ e h₁ h₂
    obtain ⟨d₁, hd₁, he₁⟩ := Carried.comp_some.1 h₁
    obtain ⟨d₂, hd₂, he₂⟩ := Carried.comp_some.1 h₂
    have hd := hG.inj d₁ d₂ e he₁ he₂
    subst hd
    exact hF.inj c₁ c₂ d₁ hd₁ hd₂
  onto := by
    intro e he
    obtain ⟨d, hd⟩ := hG.onto e he
    obtain ⟨hsome, -⟩ := hG.object d e hd
    obtain ⟨c, hc⟩ := hF.onto d hsome
    exact ⟨c, Carried.comp_some.2 ⟨d, hc, hd⟩⟩
  plain := by
    intro c e o i he ho hi hplain
    obtain ⟨d, hd, he'⟩ := Carried.comp_some.1 he
    have ho' := (hF.object c d hd).2.trans ho
    have hfirst := hF.plain c d o i hd ho hi hplain
    have hplain' := (plainCell_congr hF.base hF.nPages hfirst).2 hplain
    exact (hG.plain d e o i he' ho' hi hplain').trans hfirst
  alive := by
    intro c hc
    obtain ⟨d, hd⟩ := hF.alive c hc
    obtain ⟨e, he⟩ := hG.alive d (hF.accessible hc hd)
    exact ⟨e, Carried.comp_some.2 ⟨d, hd, he⟩⟩
  fixed := by
    intro c hc hobj
    have hFc := hF.fixed c hc hobj
    have hobj' : (h'.objAt L c).isSome := by
      rw [(hF.object c c hFc).2]
      exact hobj
    exact Carried.comp_some.2 ⟨c, hFc, hG.fixed c hc hobj'⟩
  pointers := by
    intro c e o i t hc he ho hptr hp
    obtain ⟨d, hd, he'⟩ := Carried.comp_some.1 he
    obtain ⟨t₁, ht₁, hw₁⟩ := hF.pointers c d o i t hc hd ho hptr hp
    obtain ⟨t₂, ht₂, hw₂⟩ := hG.pointers d e o i t₁ (hF.accessible hc hd) he'
      ((hF.object c d hd).2.trans ho) hptr hw₁.target
    exact ⟨t₂, Carried.comp_some.2 ⟨t₁, ht₁, ht₂⟩, hw₁.word.trans hw₂.word, hw₂.target⟩
  slots := by
    intro a ha t hp
    obtain ⟨t₁, ht₁, hw₁⟩ := hF.slots a ha t hp
    obtain ⟨t₂, ht₂, hw₂⟩ := hG.slots a ha t₁ hw₁.target
    exact ⟨t₂, Carried.comp_some.2 ⟨t₁, ht₁, ht₂⟩, hw₁.word.trans hw₂.word, hw₂.target⟩

/-- Marks, pins and counters are no part of the graph. -/
theorem congr_right {T' : ObjTable} (hF : GraphKept L h ext roots held h' ext' F)
    (hS : Shape L h' T' Forwarding.empty) (hS' : Shape L h'' T' Forwarding.empty)
    (hbase : h''.base = h'.base) (hn : h''.nPages = h'.nPages) (hmem : h''.mem = h'.mem) :
    GraphKept L h ext roots held h'' ext' F := by
  have hobj : ∀ c, h''.objAt L c = h'.objAt L c := fun c => by rw [hS'.objAt_eq, hS.objAt_eq]
  have hpointee : ∀ w, h''.pointee L w = h'.pointee L w := pointee_congr hbase hn hobj
  refine ⟨hbase.trans hF.base, hn.trans hF.nPages,
    fun c c' hc => by rw [hobj]; exact hF.object c c' hc, hF.inj,
    fun c' hc' => hF.onto c' (by rw [← hobj]; exact hc'), ?_, hF.alive, hF.fixed, ?_, ?_⟩
  · intro c c' o i hc ho hi hplain
    rw [hmem]
    exact hF.plain c c' o i hc ho hi hplain
  · intro c c' o i t hc hFc ho hptr hp
    obtain ⟨d, hd, hw⟩ := hF.pointers c c' o i t hc hFc ho hptr hp
    rw [hmem]
    exact ⟨d, hd, hw.word, by rw [hpointee]; exact hw.target⟩
  · intro a ha t hp
    obtain ⟨d, hd, hw⟩ := hF.slots a ha t hp
    exact ⟨d, hd, hw.word, by rw [hpointee]; exact hw.target⟩

/-- The same of the heap before. -/
theorem congr_left {T : ObjTable} (hF : GraphKept L h' ext roots held h'' ext'' F)
    (hS : Shape L h T Forwarding.empty) (hO : SameObjects h h') :
    GraphKept L h ext roots held h'' ext'' F := by
  have hobj : ∀ c, h'.objAt L c = h.objAt L c := fun c => by
    rw [(hO.shape hS).objAt_eq, hS.objAt_eq]
  have hpointee : ∀ w, h'.pointee L w = h.pointee L w := pointee_of_same hO hS
  have haccess : ∀ c, Accessible L h ext roots held c → Accessible L h' ext roots held c := by
    intro c hc
    induction hc with
    | root ha ht => exact .root ha ((hpointee _).trans ht)
    | held hc hsome => exact .held hc (by rw [hobj]; exact hsome)
    | step _ hedge ih =>
        obtain ⟨o, i, ho, hptr, hp⟩ := hedge
        exact .step ih ⟨o, i, (hobj _).trans ho, hptr, by rw [hpointee, hO.mem]; exact hp⟩
  refine ⟨hF.base.trans hO.base, hF.nPages.trans hO.nPages,
    fun c c' hc => by rw [← hobj]; exact hF.object c c' hc, hF.inj, hF.onto, ?_,
    fun c hc => hF.alive c (haccess c hc),
    fun c hc hsome => hF.fixed c hc (by rw [hobj]; exact hsome), ?_, ?_⟩
  · intro c c' o i hc ho hi hplain
    rw [← hO.mem]
    exact hF.plain c c' o i hc ((hobj c).trans ho) hi
      ((plainCell_congr hO.base hO.nPages (congrFun hO.mem (c + i))).2 hplain)
  · intro c c' o i t hc hFc ho hptr hp
    rw [← hO.mem] at hp ⊢
    exact hF.pointers c c' o i t (haccess c hc) hFc ((hobj c).trans ho) hptr ((hpointee _).trans hp)
  · exact fun a ha t hp => hF.slots a ha t ((hpointee _).trans hp)

end GraphKept

/-! ## One pass -/

/-- The client holds the object at `c`: explicitly, or, when it is small, conservatively. -/
def PageHeap.Holds (h : PageHeap) (c : Nat) : Prop :=
  c ∈ h.explicitCells ∨ (c ∈ h.pinnedCells ∧ h.kindAt c ≠ .Large ∧
    (h.descs (c / pageSizeCells)).isPinned (pinSlot c) = true)

/-- A pass that keeps the graph: it is safe, its card scans miss no accessible pointer into the
generation it evacuates, no pointer waits, and no large run is accessible through pins alone. -/
structure PassKeeps (L : HeapLayout) (h : PageHeap) (ext : Nat → Word) (g dest : Generation)
    (roots : List Nat) (held : Nat → Prop) (filters : List (Nat → PageDesc)) : Prop where
  safe : PassSafe L h ext g dest (rootSlots roots) filters
  waits : PassMeets L h ext g dest (passVisitor L (rootSlots roots) filters) (NoPointerWaits L)
  covers : ScanCovers L h ext g roots held filters
  large : LargeSeen L h ext g roots held

section Pass

variable {L : HeapLayout} {h hm : PageHeap} {T T' : ObjTable} {ext : Nat → Word}
  {g dest : Generation} {roots : List Nat} {held : Nat → Prop} {filters : List (Nat → PageDesc)}
  {s : ChunkState} {F : Forwarding} {r : EvacResult × PageHeap × (Nat → Word)} {v : RootVisitor}

/-- What the client holds has its pins applied by step 1. -/
theorem Prepared.holds {marked : Nat → Prop} (hM : Prepared L h T g marked hm) {c : Nat}
    (hc : h.Holds c) :
    c ∈ hm.pinnedCells ∧ (hm.descs (c / pageSizeCells)).hasPins = true := by
  rcases hc with hexplicit | ⟨hpin, hk, hbit⟩
  · obtain ⟨-, hpin, hbit⟩ := hM.explicit c hexplicit
    exact ⟨hpin, PageDesc.hasPins_of_isPinned hbit⟩
  · exact ⟨hM.pinned c hpin, PageDesc.hasPins_of_isPinned (hM.bits c hk hbit)⟩

/-- A pass leaves what the client holds where it is, and held. -/
theorem Carried.holds {h' : PageHeap} (hC : Carried L h T h' T' F) (hS : Shape L h T Forwarding.empty)
    {c : Nat} (hobj : (h.objAt L c).isSome) (hc : h.Holds c) : F c = some c ∧ h'.Holds c := by
  rw [hS.objAt_eq] at hobj
  rcases hc with hexplicit | ⟨hpin, hk, hbit⟩
  · exact ⟨hC.explicit c hexplicit, Or.inl (hC.explicitCells ▸ hexplicit)⟩
  · obtain ⟨hF, hrest⟩ := hC.pinned c hpin hobj hk hbit
    exact ⟨hF, Or.inr hrest⟩

/-- What is accessible survives a pass. -/
theorem PassStep.kept_accessible (hg : g ≠ .Free) (hcover : ScanCovers L h ext g roots held filters)
    (hlarge : LargeSeen L h ext g roots held) (hheld : ∀ c, held c → h.Holds c)
    (hP : PassStep L h T g dest v (PassMarked L h T ext g (rootSlots roots) filters) hm s T' F r)
    {c : Nat} (hc : Accessible L h ext roots held c) : ∃ c', F c = some c' := by
  have hS := hP.shape
  have hM := hP.prepared
  have hE := hP.evacuated
  have hO := hM.sameReset
  obtain ⟨o, ho⟩ := hc.object
  rw [hS.objAt_eq] at ho
  by_cases hgen : h.genAt c = g
  · by_cases hk : h.kindAt c = .Large
    · -- a large run is held, or pinned by its mark
      rcases hlarge c hc hgen hk with hcheld | hslots
      · obtain ⟨hpin, hbits⟩ := hM.holds (hheld c hcheld)
        exact ⟨c, hP.pinned_stays ho hpin hbits⟩
      · obtain ⟨hpin, hbits⟩ := hM.largeMarks c (hslots.passMarked hS hg hcover hgen) hk
        exact ⟨c, hP.pinned_stays ho hpin hbits⟩
    · have hmark := hc.marked hS hg hcover hM (fun d hd => (hM.holds (hheld d hd)).1) hgen
      cases hpin : hm.isPinnedCell c with
      | true =>
          unfold isPinnedCell at hpin
          rw [Bool.and_eq_true, Bool.and_eq_true, decide_eq_true_eq, decide_eq_true_eq] at hpin
          exact ⟨c, hP.pinned_stays ho hpin.2 (PageDesc.hasPins_of_isPinned hpin.1.2)⟩
      | false =>
          obtain ⟨c', hF, -⟩ := hE.copied c ⟨Option.isSome_of_eq_some ho,
            (hO.genAt c).trans hgen, by rw [hO.kindAt]; exact hk, hmark, hpin⟩ (hP.done _)
          exact ⟨c', hF⟩
  · exact ⟨c, hE.waiting c o ho (Or.inl (by rw [hO.genAt]; exact hgen))⟩

/-- What a pass does to the graph, once its chunks have followed every accessible pointer. -/
theorem PassStep.graphKept (hg : g ≠ .Free) (hcover : ScanCovers L h ext g roots held filters)
    (hlarge : LargeSeen L h ext g roots held) (hheld : ∀ c, held c → h.Holds c)
    (hP : PassStep L h T g dest v (PassMarked L h T ext g (rootSlots roots) filters) hm s T' F r)
    (hF : Followed L (hm.resetAllocRegions g) T ext
      (AccessibleCell L (hm.resetAllocRegions g) (Accessible L h ext roots held)) (· ∈ roots) s F) :
    GraphKept L h ext roots held r.2.1 r.2.2 F := by
  have hS := hP.shape
  have hE := hP.evacuated
  have hO := hP.prepared.sameReset
  have hS' := hP.next.shape
  have hmem : ∀ c, r.2.1.mem c = s.heap.mem c := fun c => by rw [hP.mem]
  have hbase : r.2.1.base = h.base := by
    rw [hP.ended.heap]
    exact hE.control.base.trans hP.prepared.objects.base
  have hn : r.2.1.nPages = h.nPages := by
    rw [hP.ended.heap]
    exact hE.control.nPages.trans hP.prepared.objects.nPages
  have hredirect : ∀ w, redirect L (hm.resetAllocRegions g) F.moves w = redirect L h F.moves w :=
    redirect_congr hO.base hO.nPages F.moves
  have hpointee : ∀ w, (hm.resetAllocRegions g).pointee L w = h.pointee L w := pointee_of_same hO hS
  have hfollow : ∀ w t, h.pointee L w = some t → Accessible L h ext roots held t →
      ∃ d, F t = some d ∧ Follows L r.2.1 w (redirect L h F.moves w) d := by
    intro w t hw ht
    obtain ⟨d, hFt⟩ := hP.kept_accessible hg hcover hlarge hheld ht
    obtain ⟨o, hT, hT'⟩ := hE.fate_some t d hFt
    obtain ⟨heq, htarget⟩ := repointed_redirect hS hS' hbase hn hw hFt hT hT'
    refine ⟨d, hFt, ?_, htarget⟩
    rw [heq]
    split
    · exact .refl
    · exact Readdressed.refl.rewrite (hS.pages.cellAddr_aligned d)
  refine ⟨hbase, hn, ?_, hE.fate_inj, ?_, ?_, fun c hc => hP.kept_accessible hg hcover hlarge hheld hc, ?_, ?_,
    ?_⟩
  · intro c c' hFc
    obtain ⟨o, hT, hT'⟩ := hE.fate_some c c' hFc
    rw [hS.objAt_eq, hS'.objAt_eq, hT, hT']
    exact ⟨rfl, rfl⟩
  · intro c' hc'
    rw [hS'.objAt_eq] at hc'
    obtain ⟨o, hT'⟩ := Option.isSome_iff_exists.1 hc'
    exact hE.fate_onto c' o hT'
  · intro c c' o i hFc ho hi hplain
    rw [hS.objAt_eq] at ho
    have hmem₀ : (hm.resetAllocRegions g).mem (c + i) = h.mem (c + i) := congrFun hO.mem (c + i)
    rw [hmem, hE.plain c c' o i hFc ho hi ?_, hmem₀]
    intro hptr t ht
    rw [(plainCell_congr hO.base hO.nPages hmem₀).2 hplain hptr] at ht
    cases ht
  · intro c hc hobj
    rw [hS.objAt_eq] at hobj
    obtain ⟨o, ho⟩ := Option.isSome_iff_exists.1 hobj
    obtain ⟨hpin, hbits⟩ := hP.prepared.holds (hheld c hc)
    exact hP.pinned_stays ho hpin hbits
  · intro c c' o i t hc hFc ho hptr hp
    obtain ⟨d, hFt, hw⟩ := hfollow _ t hp (.step hc ⟨o, i, ho, hptr, hp⟩)
    refine ⟨d, hFt, ?_⟩
    rw [hS.objAt_eq] at ho
    have hmem₀ : (hm.resetAllocRegions g).mem (c + i) = h.mem (c + i) := congrFun hO.mem (c + i)
    rw [hmem, hF.cells c c' o i hFc ho hptr ⟨hc, t, by rw [hmem₀, hpointee]; exact hp⟩, hredirect,
      hmem₀]
    exact hw
  · intro a ha t hp
    obtain ⟨d, hFt, hw⟩ := hfollow _ t hp (.root ha hp)
    refine ⟨d, hFt, ?_⟩
    rw [hP.ended.ext, hF.ext a ha, hredirect]
    exact hw

end Pass

/-! ## Running a pass -/

section Run

variable {L : HeapLayout} {h : PageHeap} {T : ObjTable} {ext : Nat → Word} {g dest : Generation}
  {roots : List Nat} {held : Nat → Prop} {filters : List (Nat → PageDesc)}

/-- In phase 2 of any chunk the closure of a pass presents the roots and what its card scans offered
before the loop. -/
theorem serves_scanned {p : ChunkParams} {h₀ : PageHeap} {T₀ : ObjTable}
    (hS : Shape L h₀ T₀ Forwarding.empty)
    (hp : p.visitRoots = passVisitor L (rootSlots roots) filters)
    (hv : VisitOk h₀ T₀ p.fromGen (rootSlots roots) filters) :
    Serves L p h₀ T₀ (ScannedSlot L h₀ T₀ p.fromGen roots filters) := by
  intro hc ext Tc K hM
  rw [hp]
  refine (shows_midway hS hv hM ext).presents fun s hs => ?_
  rcases hs with hroot | ⟨x, o, i, rfl, hT, hgen, hptr, D, hD, hoff⟩
  · exact List.mem_append_left _ hroot
  · exact List.mem_append_right _ (List.mem_flatMap.2 ⟨D, hD, hM.offers hS hT hgen hptr hoff⟩)

/-- The offers of a scan depend on what marking keeps. -/
theorem ScanOffers.congr {h' : PageHeap} {D : Nat → PageDesc} {c : Nat}
    (hS : Shape L h T Forwarding.empty) (hO : SameObjects h h') (hcards : h'.cards = h.cards)
    (hoff : ScanOffers L h g D c) : ScanOffers L h' g D c := by
  obtain ⟨hdirty, hpass, hwalk⟩ := hoff
  refine ⟨by rw [hcards]; exact hdirty, ?_, ?_⟩
  · unfold PageEvacuator.cardPassesFilter at hpass ⊢
    rw [hO.nPages]
    exact hpass
  · rw [(hO.shape hS).table_eq, ← hS.table_eq]
    unfold cardCells cardLimit at hwalk ⊢
    rw [hO.kindAt, hO.totalCells, cardWalkStart_congr hO.startBits hO.role]
    exact hwalk

/-- Nothing has moved before the first chunk. -/
theorem redirect_still (h : PageHeap) (T : ObjTable) (w : Word) :
    redirect L h (Forwarding.still T).moves w = w := by
  have hmoves : ∀ c, (Forwarding.still T).moves c = none := by
    intro c
    unfold Forwarding.moves Forwarding.still
    by_cases hc : (T c).isSome = true
    · rw [if_pos hc]
      exact if_pos rfl
    · rw [if_neg hc]
  refine redirect_of_none ?_
  cases h.targetCell L w with
  | none => rfl
  | some t => exact hmoves t

theorem Followed.still (h₀ : PageHeap) (T₀ : ObjTable) (ext₀ : Nat → Word)
    (Good : Nat → Nat → Prop) (GoodExt : Nat → Prop) {s : ChunkState} (hmem : s.heap.mem = h₀.mem)
    (hext : s.ext = ext₀) :
    Followed L h₀ T₀ ext₀ Good GoodExt s (Forwarding.still T₀) where
  cells := by
    intro c c' o i hF _ _ _
    unfold Forwarding.still at hF
    by_cases hc : (T₀ c).isSome = true
    · rw [if_pos hc] at hF
      cases hF
      rw [redirect_still, hmem]
    · rw [if_neg hc] at hF
      cases hF
  ext := fun a _ => by rw [redirect_still, hext]

/-- A pass that keeps the graph, as a step. -/
theorem PassKeeps.step (hP : PassOk L h T) (hg : g ≠ .Free) (hd : dest ≠ .Free)
    (hheld : ∀ c, held c → h.Holds c) (hK : PassKeeps L h ext g dest roots held filters) :
    Outcome GcPanic.IsOom
      (h.evacuateWithRoots L ext g dest (passVisitor L (rootSlots roots) filters)) fun r =>
        ∃ hm s T' F, PassStep L h T g dest (passVisitor L (rootSlots roots) filters)
          (PassMarked L h T ext g (rootSlots roots) filters) hm s T' F r ∧
            GraphKept L h ext roots held r.2.1 r.2.2 F := by
  have hslots := slotSafe_rootSlots h T g roots
  obtain ⟨hm, hmark, hM⟩ := markAndPin_prepared dest hP hg (shows_mark ext dest hP.shape hg hslots)
  have hX := hP.loopStart (passVisitor L (rootSlots roots) filters) hM hg hd
  have hO := hM.sameReset
  have hvisit : VisitOk (hm.resetAllocRegions g) T g (rootSlots roots) filters := by
    refine ⟨slotSafe_rootSlots _ T g roots, fun D hD => ?_⟩
    have hfilter := hK.safe.2 hm ext hmark D hD
    rw [(hM.objects.shape hP.shape).table_eq] at hfilter
    exact fun c hto hk =>
      hfilter c ⟨hto.object, hto.generation, hto.small, hto.marked, hto.unpinned⟩ hk
  have hserves := @serves_scanned L roots filters
    (hm.chunkParams g dest (passVisitor L (rootSlots roots) filters)) _ T hX.shape rfl hvisit
  have hmeets : PassMeets L h ext g dest (passVisitor L (rootSlots roots) filters)
      fun p s => NoReuse L p s ∧ NoPointerWaits L p s := fun hm' ext' hmark' =>
    ChunkState.meets_and _ _ (hK.safe.1 hm' ext' hmark') (hK.waits hm' ext' hmark')
  -- along the chunks every accessible pointer follows
  refine (hX.evacuate (Q := fun s _ F => Followed L (hm.resetAllocRegions g) T ext
    (AccessibleCell L (hm.resetAllocRegions g) (Accessible L h ext roots held)) (· ∈ roots) s F)
    hg hd hmark hserves (fun _ _ hC => hC.1) hmeets (.still _ T ext _ _ rfl rfl) ?_).mono ?_
  · intro s T₁ F s' T₂ K hE hC hR hF
    refine Evacuating.followed_step hE hR hF
      (hE.traceable_accessible hX ?_ ?_ (fun a ha => Or.inl (List.mem_map.2 ⟨a, ha, rfl⟩)) hR hF
        hC.2)
    · intro c hc hgen
      rw [hO.genAt] at hgen
      refine ⟨hc.marked hP.shape hg hK.covers hM (fun d hd => (hM.holds (hheld d hd)).1) hgen,
        fun hk => ?_⟩
      rw [hO.kindAt] at hk
      rcases hK.large c hc hgen hk with hcheld | hslots
      · exact (hM.holds (hheld c hcheld)).1
      · exact (hM.largeMarks c (hslots.passMarked hP.shape hg hK.covers hgen) hk).1
    · intro c o i t hc hT hgen hptr hp htgen
      rw [hO.genAt] at hgen htgen
      rw [pointee_of_same hO hP.shape, hO.mem] at hp
      obtain ⟨D, hD, hoff⟩ := hK.covers c o i t hc (by rw [hP.shape.objAt_eq]; exact hT) hgen hptr
        hp htgen
      exact Or.inr ⟨c, o, i, rfl, hT, by rw [hO.genAt]; exact hgen, hptr, D, hD,
        hoff.congr hP.shape hO hM.cards⟩
  · rintro r ⟨s, T', F, hend, hF⟩
    have hstep : PassStep L h T g dest (passVisitor L (rootSlots roots) filters)
        (PassMarked L h T ext g (rootSlots roots) filters) hm s T' F r := ⟨hP.shape, hM, hX, hend⟩
    exact ⟨hm, s, T', F, hstep, hstep.graphKept hg hK.covers hK.large hheld hF⟩

/-- A pass that keeps the graph. -/
theorem PassKeeps.run (hP : PassOk L h T) (hg : g ≠ .Free) (hd : dest ≠ .Free)
    (hheld : ∀ c, held c → h.Holds c ∧ (h.objAt L c).isSome)
    (hK : PassKeeps L h ext g dest roots held filters) :
    Outcome GcPanic.IsOom
      (h.evacuateWithRoots L ext g dest (passVisitor L (rootSlots roots) filters)) fun r =>
        ∃ T' F, PassOk L r.2.1 T' ∧ GraphKept L h ext roots held r.2.1 r.2.2 F ∧
          GenerationsAfter h r.2.1 g dest ∧
            ∀ c, held c → r.2.1.Holds c ∧ (r.2.1.objAt L c).isSome := by
  refine (hK.step hP hg hd fun c hc => (hheld c hc).1).mono ?_
  rintro r ⟨hm, s, T', F, hstep, hkept⟩
  refine ⟨T', F, hstep.next, hkept, hstep.generations, fun c hc => ?_⟩
  obtain ⟨hholds, hobj⟩ := hheld c hc
  obtain ⟨hFc, hholds'⟩ := (hstep.carried hd).holds hP.shape hobj hholds
  refine ⟨hholds', ?_⟩
  rw [(hkept.object c c hFc).2]
  exact hobj

end Run

/-! ## The cycles -/

/-- The passes of a minor collection keep the graph. -/
def MinorKeeps (L : HeapLayout) (h : PageHeap) (ext : Nat → Word) (roots : List Nat)
    (held : Nat → Prop) : Prop :=
  PassKeeps L h.minorStart ext .G0 h.minorDest roots held [h.descs] ∧
    ∀ r₁, h.minorStart.evacuateWithRoots L ext .G0 h.minorDest
        (withCardScan L (rootsVisitor L roots) h.descs) = .ok r₁ →
      h.cascades r₁.2.1 = true →
        PassKeeps L r₁.2.1.cascadeStart r₁.2.2 .G1 .Tenured roots held [h.descs]

def MajorKeeps (L : HeapLayout) (h : PageHeap) (ext : Nat → Word) (roots : List Nat)
    (held : Nat → Prop) : Prop :=
  PassKeeps L h ext .G1 .Tenured roots held [h.descs] ∧
    ∀ r₁, h.evacuateWithRoots L ext .G1 .Tenured
        (withCardScan L (rootsVisitor L roots) h.descs) = .ok r₁ →
      PassKeeps L r₁.2.1 r₁.2.2 .G0 .G0 roots held [r₁.2.1.descs]

/-- The same of a full collection; its last pass scans no cards and stays within Tenured. -/
def FullKeeps (L : HeapLayout) (h : PageHeap) (ext : Nat → Word) (roots : List Nat)
    (held : Nat → Prop) : Prop :=
  PassKeeps L h ext .G0 .G1 roots held [h.descs] ∧
    ∀ r₁, h.evacuateWithRoots L ext .G0 .G1
        (withCardScan L (rootsVisitor L roots) h.descs) = .ok r₁ →
      PassKeeps L r₁.2.1 r₁.2.2 .G1 .Tenured roots held [r₁.2.1.descs] ∧
        ∀ r₂, r₁.2.1.evacuateWithRoots L r₁.2.2 .G1 .Tenured
            (withCardScan L (rootsVisitor L roots) r₁.2.1.descs) = .ok r₂ →
          PassMeets L r₂.2.1 r₂.2.2 .Tenured .Tenured (rootsVisitor L roots) (NoReuse L) ∧
            LargeSeen L r₂.2.1 r₂.2.2 .Tenured roots held

section Cycles

variable {L : HeapLayout} {h h' : PageHeap} {T : ObjTable} {ext : Nat → Word} {roots : List Nat}
  {held : Nat → Prop}

/-- What a cycle of passes leaves: the graph of `h` at its new place. -/
def CycleKept (L : HeapLayout) (h : PageHeap) (ext : Nat → Word) (roots : List Nat)
    (held : Nat → Prop) (r : PageHeap × (Nat → Word)) : Prop :=
  ∃ T' F, Shape L r.1 T' Forwarding.empty ∧ GraphKept L h ext roots held r.1 r.2 F

/-- The end of a cycle keeps what its passes have kept. -/
theorem CycleKept.closed {h₁ : PageHeap} {ext₁ : Nat → Word} {T₁ : ObjTable} {F : Forwarding}
    (hF : GraphKept L h ext roots held h₁ ext₁ F) (hP : PassOk L h₁ T₁)
    (hE : CycleClosed L h₁ h') : CycleKept L h ext roots held (h', ext₁) :=
  have hU := hE.unpinned
  have hS := (hP.unpinned hU).shape
  ⟨T₁, F, hS, hF.congr_right hP.shape hS hU.base hU.nPages hU.mem⟩

/-- The allocation counter is of no concern. -/
theorem CycleKept.counterReset {r : PageHeap × (Nat → Word)} (hr : CycleKept L h ext roots held r) :
    CycleKept L h ext roots held ({ r.1 with bytesAllocSinceGc := 0 }, r.2) := by
  obtain ⟨T', F, hS, hF⟩ := hr
  have hO : SameObjects r.1 { r.1 with bytesAllocSinceGc := 0 } :=
    ⟨rfl, rfl, rfl, rfl, fun _ => PageDesc.SameRole.refl _, rfl, rfl⟩
  exact ⟨T', F, hO.shape hS, hF.congr_right hS (hO.shape hS) rfl rfl rfl⟩

theorem sameObjects_counted (h : PageHeap) (minors promotes : Nat) : SameObjects h { h with
    minorsSinceG0Promote := minors
    g0PromotesSinceG1Promote := promotes } :=
  ⟨rfl, rfl, rfl, rfl, fun _ => PageDesc.SameRole.refl _, rfl, rfl⟩

theorem collectMinor_kept (hP : PassOk L h T)
    (hheld : ∀ c, held c → h.Holds c ∧ (h.objAt L c).isSome)
    (hK : MinorKeeps L h ext roots held) :
    Outcome GcPanic.IsOom (h.collectMinor L ext (rootsVisitor L roots)) fun r =>
      CycleKept L h ext roots held r.2 := by
  have hP₀ : PassOk L h.minorStart T := hP.counted _ _
  have hfirst := hK.1.run hP₀ (by decide) (minorDest_live h) hheld
  refine collectMinor_rule (Q := CycleKept L h ext roots held) ?_
  refine Outcome.of_value (fun r₁ hr₁ => ?_) fun e he => hfirst.failure he
  obtain ⟨T₁, F, hP₁, hF, -, hheld₁⟩ := hfirst.value hr₁
  have hF₁ : GraphKept L h ext roots held r₁.2.1 r₁.2.2 F :=
    hF.congr_left hP.shape (sameObjects_counted h _ _)
  refine ⟨fun _ => .of_passOk hP₁ fun h' hE => .closed hF₁ hP₁ hE, fun hcascade => ?_⟩
  -- the cascade
  have hP₂ : PassOk L r₁.2.1.cascadeStart T₁ := hP₁.counted _ _
  refine ((hK.2 r₁ hr₁ hcascade).run hP₂ (by decide) (by decide) hheld₁).mono ?_
  rintro r₂ ⟨T₂, G, hP₃, hG, -, -⟩
  exact .of_passOk hP₃ fun h' hE =>
    .closed (hF₁.trans (hG.congr_left hP₁.shape (sameObjects_counted r₁.2.1 _ _))) hP₃ hE

theorem collectMajor_kept (hP : PassOk L h T)
    (hheld : ∀ c, held c → h.Holds c ∧ (h.objAt L c).isSome)
    (hK : MajorKeeps L h ext roots held) :
    Outcome GcPanic.IsOom (h.collectMajor L ext (rootsVisitor L roots)) fun r =>
      CycleKept L h ext roots held r.2 := by
  have hfirst := hK.1.run hP (by decide) (by decide) hheld
  refine collectMajor_rule (Q := CycleKept L h ext roots held) ?_
  refine Outcome.of_value (fun r₁ hr₁ => ?_) fun e he => hfirst.failure he
  obtain ⟨T₁, F, hP₁, hF, -, hheld₁⟩ := hfirst.value hr₁
  refine ((hK.2 r₁ hr₁).run hP₁ (by decide) (by decide) hheld₁).mono ?_
  rintro r₂ ⟨T₂, G, hP₂, hG, -, -⟩
  exact .of_passOk hP₂ fun h' hE => .closed (hF.trans hG) hP₂ hE

/-- After the first two passes of a full collection only Tenured is left. -/
theorem onlyTenured_of_passes {h₁ h₂ : PageHeap} (hfirst : GenerationsAfter h h₁ .G0 .G1)
    (hsecond : GenerationsAfter h₁ h₂ .G1 .Tenured) (q : Nat) :
    (h₂.descs q).generation = .Free ∨ (h₂.descs q).generation = .Tenured := by
  rcases hsecond q with hfree | htenured | ⟨heq, hne⟩
  · exact Or.inl hfree
  · exact Or.inr htenured
  · rcases hfirst q with hfree | hg1 | ⟨heq₁, hne₁⟩
    · exact Or.inl (heq.trans hfree)
    · exact absurd hg1 hne
    · rw [heq, heq₁]
      rw [heq₁] at hne
      cases hg : (h.descs q).generation with
      | Free => exact Or.inl rfl
      | G0 => exact absurd hg hne₁
      | G1 => exact absurd hg hne
      | Tenured => exact Or.inr rfl

/-- Then no card scan is missed. -/
theorem scanCovers_tenured {h₂ : PageHeap} {T₂ : ObjTable}
    (honly : ∀ q, (h₂.descs q).generation = .Free ∨ (h₂.descs q).generation = .Tenured)
    (hS : Shape L h₂ T₂ Forwarding.empty) : ScanCovers L h₂ ext .Tenured roots held [] := by
  intro x o i t _ ho hgen _ _ _
  rw [hS.objAt_eq] at ho
  rcases honly (x / pageSizeCells) with hfree | htenured
  · exact absurd hfree (hS.live ho)
  · exact absurd htenured hgen

theorem collectFull_kept (hP : PassOk L h T)
    (hheld : ∀ c, held c → h.Holds c ∧ (h.objAt L c).isSome)
    (hK : FullKeeps L h ext roots held) :
    Outcome GcPanic.IsOom (h.collectFull L ext (rootsVisitor L roots)) fun r =>
      CycleKept L h ext roots held r.2 := by
  have hfirst := hK.1.run hP (by decide) (by decide) hheld
  refine collectFull_rule (Q := CycleKept L h ext roots held) ?_
  refine Outcome.of_value (fun r₁ hr₁ => ?_) fun e he => hfirst.failure he
  obtain ⟨T₁, F, hP₁, hF, hgen₁, hheld₁⟩ := hfirst.value hr₁
  obtain ⟨hK₁, hK₂⟩ := hK.2 r₁ hr₁
  have hsecond := hK₁.run hP₁ (by decide) (by decide) hheld₁
  refine Outcome.of_value (fun r₂ hr₂ => ?_) fun e he => hsecond.failure he
  obtain ⟨T₂, G, hP₂, hG, hgen₂, hheld₂⟩ := hsecond.value hr₂
  have hlast : PassKeeps L r₂.2.1 r₂.2.2 .Tenured .Tenured roots held [] :=
    { safe := ⟨(hK₂ r₂ hr₂).1, fun _ _ _ D hD => absurd hD List.not_mem_nil⟩
      waits := fun _ _ _ => ChunkState.meets_of_forall (fun _ hne => absurd rfl hne) _ _
      covers := scanCovers_tenured (onlyTenured_of_passes hgen₁ hgen₂) hP₂.shape
      large := (hK₂ r₂ hr₂).2 }
  refine (hlast.run hP₂ (by decide) (by decide) hheld₂).mono ?_
  rintro r₃ ⟨T₃, H, hP₃, hH, -, -⟩
  exact .of_passOk hP₃ fun h' hE => .closed ((hF.trans hG).trans hH) hP₃ hE

/-- The passes of an automatic collection keep the graph. -/
def AutoKeeps (L : HeapLayout) (h : PageHeap) (ext : Nat → Word) (threshold : Nat)
    (roots : List Nat) (held : Nat → Prop) : Prop :=
  (h.shouldCollectMajor threshold = true → MajorKeeps L h ext roots held) ∧
    (h.shouldCollectMajor threshold = false → MinorKeeps L h ext roots held)

theorem collectAuto_kept {threshold : Nat} (hP : PassOk L h T)
    (hheld : ∀ c, held c → h.Holds c ∧ (h.objAt L c).isSome)
    (hK : AutoKeeps L h ext threshold roots held) :
    Outcome GcPanic.IsOom (h.collectAuto L ext threshold (rootsVisitor L roots)) fun r =>
      CycleKept L h ext roots held r.2 := by
  exact collectAuto_rule (Q := CycleKept L h ext roots held) (fun _ hr => hr.counterReset)
    (fun hmajor => collectMajor_kept hP hheld (hK.1 hmajor))
    (fun hminor => collectMinor_kept hP hheld (hK.2 hminor))

end Cycles

/-! ## The entry points -/

/-- The root slots a collection is given. -/
def Op.roots : Op → List Nat
  | .collectMinor roots | .collectMajor roots | .collectFull roots | .collectAuto _ roots
  | .minorWithStatic _ _ roots => roots
  | _ => []

namespace World

variable {L : HeapLayout} {w w' : World} {op : Op}

/-- The objects the client holds. -/
def Held (L : HeapLayout) (w : World) (c : Nat) : Prop :=
  w.heap.Holds c ∧ (w.heap.objAt L c).isSome

/-- The request is a collection whose passes keep the graph. -/
def KeepsGraph (L : HeapLayout) (w : World) : Op → Prop
  | .collectMinor roots => MinorKeeps L w.heap w.ext roots (w.Held L)
  | .collectMajor roots => MajorKeeps L w.heap w.ext roots (w.Held L)
  | .collectFull roots => FullKeeps L w.heap w.ext roots (w.Held L)
  | .collectAuto threshold roots => AutoKeeps L w.heap w.ext threshold roots (w.Held L)
  | _ => False

end World

/-! ## A heap of small young objects -/

section Young

variable {L : HeapLayout} {h : PageHeap} {T : ObjTable} {ext : Nat → Word} {g dest : Generation}
  {roots : List Nat} {held : Nat → Prop}

/-- Without large runs in the generation an evacuation opens no page that its snapshot lists. -/
theorem noReuse_of_small {filters : List (Nat → PageDesc)} (hP : PassOk L h T) (hg : g ≠ .Free)
    (hd : dest ≠ .Free)
    (hfilters : ∀ hm, SameObjects h hm → ∀ D ∈ filters, FilterSafe hm T g D)
    (hsmall : ∀ q, (h.descs q).generation = g → (h.descs q).kind ≠ .Large) :
    PassMeets L h ext g dest (passVisitor L (rootSlots roots) filters) (NoReuse L) := by
  intro hm ext' hmark
  obtain ⟨hm', hmark', hM⟩ := markAndPin_prepared dest hP hg
    (@shows_mark L h T g (rootSlots roots) filters ext dest hP.shape hg
      (slotSafe_rootSlots h T g roots))
  rw [hmark] at hmark'
  cases hmark'
  have hX := hP.loopStart (passVisitor L (rootSlots roots) filters) hM hg hd
  have hO := hM.sameReset
  have hvisit : VisitOk (hm.resetAllocRegions g) T g (rootSlots roots) filters :=
    ⟨slotSafe_rootSlots _ T g roots, fun D hD => hfilters _ hO D hD⟩
  have hserves := @serves_passVisitor L
    (hm.chunkParams g dest (passVisitor L (rootSlots roots) filters)) _ T (rootSlots roots)
    filters hX.shape rfl hvisit
  refine Evacuating.meets hX hserves (fun s T' F hE => hE.noReuse hX fun q hq => ?_) _ _ _ _
    (Evacuating.start hX ext EvacResult.zero)
  rw [hO.generation] at hq
  rw [hO.kind]
  exact hsmall q hq

theorem freshSafe_of_small (hP : PassOk L h T) (hg : g ≠ .Free) (hd : dest ≠ .Free)
    (hsmall : ∀ q, (h.descs q).generation = g → (h.descs q).kind ≠ .Large) :
    FreshSafe L h ext g dest roots := by
  refine @noReuse_of_small L h T ext g dest roots [h.descs] hP hg hd (fun hm hO D hD => ?_) hsmall
  rw [List.mem_singleton] at hD
  subst hD
  exact filterSafe_fresh hO.role T g

/-- Within its own generation no pointer waits. -/
theorem noPointerWaits_within (L : HeapLayout) (h : PageHeap) (ext : Nat → Word) (g : Generation)
    (v : RootVisitor) : PassMeets L h ext g g v (NoPointerWaits L) :=
  fun _ _ _ => ChunkState.meets_of_forall (fun _ hne => absurd rfl hne) _ _

/-- When every object is in the generation, the card scans have nothing to offer. -/
theorem scanCovers_alone (hall : ∀ x o, h.objAt L x = some o → h.genAt x = g)
    (filters : List (Nat → PageDesc)) : ScanCovers L h ext g roots held filters :=
  fun x o _ _ _ ho hgen _ _ _ => absurd (hall x o ho) hgen

/-- The next minor collection keeps G0, and every object is small and young. -/
def IsYoung (h : PageHeap) : Prop :=
  h.promotesG0 = false ∧ ∀ q, (h.descs q).generation ≠ .Free →
    (h.descs q).generation = .G0 ∧ (h.descs q).kind ≠ .Large

/-- `IsYoung`, page by page. -/
def youngPages (h : PageHeap) : Bool :=
  !h.promotesG0 && (List.range h.nPages).all fun q =>
    decide ((h.descs q).generation = .Free) ||
      (decide ((h.descs q).generation = .G0) && decide ((h.descs q).kind ≠ .Large))

theorem isYoung_of_pages (hP : PagesOk h) (hcheck : youngPages h = true) : IsYoung h := by
  unfold youngPages at hcheck
  rw [Bool.and_eq_true, Bool.not_eq_true'] at hcheck
  refine ⟨hcheck.1, fun q hlive => ?_⟩
  have hq := List.all_eq_true.1 hcheck.2 q (List.mem_range.2 (hP.page_lt hlive))
  rw [Bool.or_eq_true, Bool.and_eq_true, decide_eq_true_eq, decide_eq_true_eq,
    decide_eq_true_eq] at hq
  exact hq.resolve_left hlive

theorem IsYoung.no_cascade (hY : IsYoung h) (h₁ : PageHeap) : h.cascades h₁ = false := by
  unfold PageHeap.cascades
  rw [hY.1, Bool.false_and]

theorem IsYoung.minorDest (hY : IsYoung h) : h.minorDest = .G0 := by
  unfold PageHeap.minorDest
  rw [hY.1]
  rfl

/-- A heap whose objects are small and young is compacted within G0 without a condition. -/
theorem IsYoung.minorSafe (hY : IsYoung h) (hP : PassOk L h T) : MinorSafe L h ext roots := by
  have hP₀ : PassOk L h.minorStart T := hP.counted _ _
  refine ⟨?_, fun r₁ _ hcascade => ?_⟩
  · rw [hY.minorDest]
    exact freshSafe_of_small hP₀ (by decide) (by decide) fun q hq =>
      (hY.2 q (by rw [show (h.descs q).generation = .G0 from hq]; decide)).2
  · rw [hY.no_cascade] at hcascade
    cases hcascade

/-- Such a compaction keeps the graph. -/
theorem IsYoung.minorKeeps (hY : IsYoung h) (hP : PassOk L h T) :
    MinorKeeps L h ext roots held := by
  have hP₀ : PassOk L h.minorStart T := hP.counted _ _
  have hsafe : FreshSafe L h.minorStart ext .G0 h.minorDest roots := (hY.minorSafe hP).1
  refine ⟨?_, fun r₁ _ hcascade => ?_⟩
  · rw [hY.minorDest] at hsafe ⊢
    have hsmall : ∀ q, (h.minorStart.descs q).generation = .G0 →
        (h.minorStart.descs q).kind ≠ .Large := fun q hq =>
      (hY.2 q (by rw [show (h.descs q).generation = .G0 from hq]; decide)).2
    refine ⟨hsafe.passSafe hP₀ (by decide), noPointerWaits_within L _ ext .G0 _, ?_,
      largeSeen_of_small hsmall _ _ _⟩
    refine scanCovers_alone (fun x o ho => ?_) _
    rw [hP₀.shape.objAt_eq] at ho
    exact (hY.2 _ (hP₀.shape.live ho)).1
  · rw [hY.no_cascade] at hcascade
    cases hcascade

end Young

namespace World

/-- A cons that a second one points at, and a root slot for the second. -/
def pairOps : List Op :=
  [.allocCons .G0 (LispLayout.fixnum 1) LispLayout.nil,
    .allocCons .G0 (consAt 0) LispLayout.nil,
    .storeExt 0 (consAt 2)]

end World

end NewGc
