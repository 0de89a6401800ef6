import NewGc.Phase2

/-!
# Phase3 — reclaiming the pages of a chunk

Phase 3 flips the pages of the chunk that hold pins and releases the others.  `Reclaiming` is what
holds after some pages of the chunk: the objects that died are those of the released pages and the
unpinned ones of the flipped pages, everything else is where it was with its content.
-/

namespace NewGc

open Library PageHeap

/-! ## What the primitive reclaims do -/

/-- Pages in `l` have been released, nothing is known of the other pages' change but that there is
none. -/
structure ReleasedPages (h h' : PageHeap) (l : List Nat) : Prop where
  control : SameControl h h'
  allocRegions : h'.allocRegions = h.allocRegions
  inside : ∀ q ∈ l, h'.descs q = { PageDesc.free with zeroed := true }
  outside : ∀ q, q ∉ l → h'.descs q = h.descs q
  start : ∀ c, c / pageSizeCells ∉ l → h'.startBits c = h.startBits c
  mem : ∀ c, c / pageSizeCells ∉ l → h'.mem c = h.mem c
  cards : ∀ k, k / cardsPerPage ∉ l → h'.cards k = h.cards k
  committed : ∀ q, q ∉ l → h'.committed q = h.committed q
  dirty : (∀ k, h.cards k = true → h.committed (k / cardsPerPage) = true) →
    ∀ k, h'.cards k = true → h'.committed (k / cardsPerPage) = true

theorem ReleasedPages.nil (h : PageHeap) : ReleasedPages h h [] :=
  ⟨SameControl.refl h, rfl, by simp, fun _ _ => rfl, fun _ _ => rfl, fun _ _ => rfl, fun _ _ => rfl,
    fun _ _ => rfl, fun hd => hd⟩

/-- The pages that stay in use keep their backing, and no card stays dirty without. -/
theorem ReleasedPages.backing {h h' : PageHeap} {l : List Nat} (hR : ReleasedPages h h' l)
    (hP : PagesOk h) : h'.Backing where
  live := fun q hlive => by
    have hq : q ∉ l := by
      intro hq
      rw [hR.inside q hq] at hlive
      exact hlive rfl
    rw [hR.outside q hq] at hlive
    rw [hR.committed q hq]
    exact hP.backing.live q hlive
  dirty := hR.dirty hP.backing.dirty

theorem ReleasedPages.snoc {h h₁ h₂ : PageHeap} {l : List Nat} {q : Nat}
    (h₁l : ReleasedPages h h₁ l) (h₂q : ReleasedPages h₁ h₂ [q]) : ReleasedPages h h₂ (l ++ [q]) where
  control := h₁l.control.trans h₂q.control
  allocRegions := h₂q.allocRegions.trans h₁l.allocRegions
  inside := by
    intro p hp
    by_cases hpq : p = q
    · exact h₂q.inside p (by simp [hpq])
    · rw [h₂q.outside p (by simp [hpq])]
      exact h₁l.inside p (by simpa [hpq] using hp)
  outside := by
    intro p hp
    rw [h₂q.outside p (by simp_all), h₁l.outside p (by simp_all)]
  start := by
    intro c hc
    rw [h₂q.start c (by simp_all), h₁l.start c (by simp_all)]
  mem := by
    intro c hc
    rw [h₂q.mem c (by simp_all), h₁l.mem c (by simp_all)]
  cards := by
    intro k hk
    rw [h₂q.cards k (by simp_all), h₁l.cards k (by simp_all)]
  committed := by
    intro p hp
    rw [h₂q.committed p (by simp_all), h₁l.committed p (by simp_all)]
  dirty := fun hd => h₂q.dirty (h₁l.dirty hd)

theorem releaseSmallPage_released (h : PageHeap) (q : Nat) :
    ReleasedPages h (h.releaseSmallPage q) [q] := by
  refine ⟨⟨rfl, rfl, rfl, rfl, rfl, rfl, rfl⟩, rfl, ?_, ?_, ?_, ?_, ?_, fun _ _ => rfl,
    fun hd => hd⟩
  · intro p hp
    simp only [List.mem_singleton] at hp
    subst hp
    simp [releaseSmallPage, releasePageToFree, modifyDesc, setDesc, clearPageStartBits,
      zeroWholePage, PageDesc.releaseZeroed]
  · intro p hp
    simp only [List.mem_singleton] at hp
    simp [releaseSmallPage, releasePageToFree, modifyDesc, setDesc, clearPageStartBits,
      zeroWholePage, hp]
  · intro c hc
    simp only [List.mem_singleton] at hc
    simp [releaseSmallPage, releasePageToFree, modifyDesc, setDesc, clearPageStartBits,
      zeroWholePage, hc]
  · intro c hc
    simp only [List.mem_singleton] at hc
    simp [releaseSmallPage, releasePageToFree, modifyDesc, setDesc, clearPageStartBits,
      zeroWholePage, hc]
  · intro k _
    rfl

theorem decommitPage_same (h : PageHeap) (q : Nat) : SameControl h (h.decommitPage q) ∧
    (h.decommitPage q).allocRegions = h.allocRegions ∧ (h.decommitPage q).descs = h.descs ∧
    (h.decommitPage q).startBits = h.startBits ∧ (h.decommitPage q).mem = h.mem ∧
    (∀ k, k / cardsPerPage ≠ q → (h.decommitPage q).cards k = h.cards k) ∧
    (∀ p, p ≠ q → (h.decommitPage q).committed p = h.committed p) ∧
    ((∀ k, h.cards k = true → h.committed (k / cardsPerPage) = true) →
      ∀ k, (h.decommitPage q).cards k = true →
        (h.decommitPage q).committed (k / cardsPerPage) = true) := by
  unfold decommitPage
  split
  · exact ⟨SameControl.refl h, rfl, rfl, rfl, rfl, fun _ _ => rfl, fun _ _ => rfl, fun hd => hd⟩
  · split
    · refine ⟨⟨rfl, rfl, rfl, rfl, rfl, rfl, rfl⟩, rfl, rfl, rfl, rfl, ?_, ?_, ?_⟩
      · intro k hk
        simp [clearPageCards, hk]
      · intro p hp
        simp [hp]
      · -- the page loses its dirty cards with its backing
        intro hd k hk
        by_cases hkq : k / cardsPerPage = q
        · simp [clearPageCards, hkq] at hk
        · simp only [clearPageCards, if_neg hkq] at hk
          show Function.update h.committed q false _ = true
          rw [Function.update_of_ne hkq]
          exact hd k hk
    · exact ⟨SameControl.refl h, rfl, rfl, rfl, rfl, fun _ _ => rfl, fun _ _ => rfl, fun hd => hd⟩

theorem releaseLargePage_released (h : PageHeap) (q : Nat) :
    ReleasedPages h (h.releaseLargePage q) [q] := by
  have hreleased : ReleasedPages h
      (((h.clearPageStartBits q).zeroWholePage q).releasePageToFree q true) [q] := by
    refine ⟨⟨rfl, rfl, rfl, rfl, rfl, rfl, rfl⟩, rfl, ?_, ?_, ?_, ?_, fun _ _ => rfl,
      fun _ _ => rfl, fun hd => hd⟩
    · intro p hp
      simp only [List.mem_singleton] at hp
      subst hp
      simp [releasePageToFree, modifyDesc, setDesc, PageDesc.releaseZeroed]
    · intro p hp
      simp only [List.mem_singleton] at hp
      simp [releasePageToFree, modifyDesc, setDesc, clearPageStartBits, zeroWholePage, hp]
    · intro c hc
      simp only [List.mem_singleton] at hc
      simp [releasePageToFree, modifyDesc, setDesc, clearPageStartBits, zeroWholePage, hc]
    · intro c hc
      simp only [List.mem_singleton] at hc
      simp [releasePageToFree, modifyDesc, setDesc, clearPageStartBits, zeroWholePage, hc]
  unfold releaseLargePage
  obtain ⟨hcontrol, hregions, hdescs, hstart, hmem, hcards, hcommitted, hdirty⟩ := decommitPage_same
    (((h.clearPageStartBits q).zeroWholePage q).releasePageToFree q true) q
  refine ⟨hreleased.control.trans hcontrol, hregions.trans hreleased.allocRegions, ?_, ?_, ?_, ?_,
    ?_, ?_, fun hd => hdirty (hreleased.dirty hd)⟩
  · intro p hp
    rw [hdescs]
    exact hreleased.inside p hp
  · intro p hp
    rw [hdescs]
    exact hreleased.outside p hp
  · intro c hc
    rw [hstart]
    exact hreleased.start c hc
  · intro c hc
    rw [hmem]
    exact hreleased.mem c hc
  · intro k hk
    rw [hcards k (by simpa using hk)]
    exact hreleased.cards k hk
  · intro p hp
    rw [hcommitted p (by simpa using hp)]
    exact hreleased.committed p hp

/-- The pages of a large run are released one by one. -/
theorem releaseLargePages_released (h : PageHeap) (l : List Nat) :
    ReleasedPages h (l.foldl releaseLargePage h) l :=
  foldl_prefix (I := fun done (h' : PageHeap) => ReleasedPages h h' done) l
    (fun _ q h' _ hR => hR.snoc (releaseLargePage_released h' q)) (ReleasedPages.nil h)

/-- Restoring the start bits of pinned objects. -/
theorem restoreStartBits {h : PageHeap} {T : ObjTable} (ents : List (Nat × Bool))
    (hents : ∀ e ∈ ents, ∃ o, T e.1 = some o ∧ e.2 = o.isCons)
    (hclear : ∀ e ∈ ents, h.startBits e.1 = .none) :
    let h' := ents.foldl restoreStartBit h
    (∀ c, (∃ b, (c, b) ∈ ents) → h'.startBits c = ObjInfo.pairOf (T c)) ∧
      (∀ c, (¬ ∃ b, (c, b) ∈ ents) → h'.startBits c = h.startBits c) ∧
      h' = { h with startBits := h'.startBits } := by
  refine foldl_prefix (I := fun done (h' : PageHeap) =>
    (∀ c, (∃ b, (c, b) ∈ done) → h'.startBits c = ObjInfo.pairOf (T c)) ∧
      (∀ c, (¬ ∃ b, (c, b) ∈ done) → h'.startBits c = h.startBits c) ∧
      h' = { h with startBits := h'.startBits }) ents ?_ ?_
  · rintro done ⟨c, b⟩ h' hpre ⟨hin, hout, hframe⟩
    have hmem : (c, b) ∈ ents := hpre.subset (by simp)
    obtain ⟨o, ho, hb⟩ := hents (c, b) hmem
    simp only at ho hb
    subst hb
    have hold : h'.startBits c = .none ∨ h'.startBits c = o.startPair := by
      by_cases hdone : ∃ b, (c, b) ∈ done
      · right
        rw [hin c hdone, ho]
        rfl
      · left
        rw [hout c hdone]
        exact hclear (c, o.isCons) hmem
    have hstep : restoreStartBit h' (c, o.isCons) =
        { h' with startBits := Function.update h'.startBits c o.startPair } := by
      unfold restoreStartBit ObjInfo.startPair
      cases hcons : o.isCons with
      | true => rfl
      | false =>
          unfold ObjInfo.startPair at hold
          rw [hcons] at hold
          show { h' with startBits := Function.update h'.startBits c (h'.startBits c).orHeader } = _
          rcases hold with heq | heq <;> rw [heq] <;> rfl
    rw [hstep]
    refine ⟨?_, ?_, ?_⟩
    · rintro x ⟨b', hx⟩
      show Function.update h'.startBits c o.startPair x = _
      by_cases hxc : x = c
      · subst hxc
        rw [Function.update_self, ho]
        rfl
      · rw [Function.update_of_ne hxc]
        refine hin x ⟨b', ?_⟩
        simpa [hxc] using hx
    · intro x hx
      show Function.update h'.startBits c o.startPair x = _
      have hxc : x ≠ c := by
        rintro rfl
        exact hx ⟨o.isCons, by simp⟩
      rw [Function.update_of_ne hxc]
      refine hout x ?_
      rintro ⟨b', hb'⟩
      exact hx ⟨b', List.mem_append_left _ hb'⟩
    · rw [hframe]
  · exact ⟨by simp, fun _ _ => rfl, rfl⟩

theorem foldl_markCards (h : PageHeap) (ranges : List (Nat × Nat)) :
    let h' := ranges.foldl (fun h r => h.markCardsSpanned (r.1 * 8) (r.1 * 8 + r.2 * 8)) h
    h' = { h with cards := h'.cards } ∧ (∀ k, h.cards k = true → h'.cards k = true) ∧
      (∀ k, h'.cards k = true → h.cards k = true ∨
        ∃ r ∈ ranges, ∃ i < r.2, k / cardsPerPage = (r.1 + i) / pageSizeCells) ∧
      ∀ r ∈ ranges, ∀ i, i < r.2 → r.1 + i < h.totalCells →
        h'.cards ((r.1 + i) / cardSizeCells) = true := by
  refine foldl_prefix (I := fun done (h' : PageHeap) => h' = { h with cards := h'.cards } ∧
    (∀ k, h.cards k = true → h'.cards k = true) ∧
    (∀ k, h'.cards k = true → h.cards k = true ∨
      ∃ r ∈ done, ∃ i < r.2, k / cardsPerPage = (r.1 + i) / pageSizeCells) ∧
    ∀ r ∈ done, ∀ i, i < r.2 → r.1 + i < h.totalCells →
      h'.cards ((r.1 + i) / cardSizeCells) = true) ranges ?_ ?_
  · rintro done r h' - ⟨hframe, hkeep, hnew, hdone⟩
    refine ⟨?_, fun k hk => markCardsSpanned_le (hkeep k hk), ?_, ?_⟩
    · rw [hframe]
      rfl
    · intro k hk
      rcases markCardsSpanned_new hk with hold | ⟨i, hi, hpage⟩
      · refine (hnew k hold).imp_right ?_
        rintro ⟨r', hr', hcell⟩
        exact ⟨r', List.mem_append_left _ hr', hcell⟩
      · exact Or.inr ⟨r, by simp, i, hi, hpage⟩
    · intro r' hr' i hi hlt
      rw [List.mem_append, List.mem_singleton] at hr'
      rcases hr' with hr' | rfl
      · exact markCardsSpanned_le (hdone r' hr' i hi hlt)
      · refine markCardsSpanned_cards hi ?_
        rw [hframe]
        exact hlt
  · exact ⟨rfl, fun _ hk => hk, fun _ hk => Or.inl hk, by simp⟩

/-- The cell ranges of the pinned objects of a page. -/
theorem pinnedRanges_ok {L : HeapLayout} {h : PageHeap} {T : ObjTable} {K : Forwarding} {q : Nat}
    {pinned : List (Nat × Bool)} (hS : Shape L h T K)
    (hents : ∀ e ∈ pinned, e.1 / pageSizeCells = q → ∃ o, T e.1 = some o ∧ e.2 = o.isCons ∧
      K e.1 = none) :
    ∃ ranges, h.pinnedRanges L q pinned = .ok ranges ∧
      (∀ r ∈ ranges, r.1 / pageSizeCells = q ∧ ∃ o, T r.1 = some o ∧ r.2 = o.totalCells) ∧
      ∀ e ∈ pinned, e.1 / pageSizeCells = q → ∀ o, T e.1 = some o → (e.1, o.totalCells) ∈ ranges := by
  unfold pinnedRanges
  induction pinned with
  | nil => exact ⟨[], rfl, by simp, by simp⟩
  | cons e rest ih =>
      obtain ⟨ranges, hok, hin, hall⟩ := ih fun e' he' => hents e' (List.mem_cons_of_mem e he')
      by_cases hq : e.1 / pageSizeCells = q
      · obtain ⟨o, ho, hb, hK⟩ := hents e List.mem_cons_self hq
        have hsize : h.startedObjectSize L e.1 e.2 = .ok o.totalCells := by
          rw [hb]
          exact hS.startedObjectSize ho hK
        refine ⟨(e.1, o.totalCells) :: ranges, ?_, ?_, ?_⟩
        · rw [List.filter_cons_of_pos (by simpa using hq), List.mapM_cons, hsize, hok]
          rfl
        · intro r hr
          rcases List.mem_cons.1 hr with rfl | hr
          · exact ⟨hq, o, ho, rfl⟩
          · exact hin r hr
        · intro e' he' hq' o' ho'
          rcases List.mem_cons.1 he' with rfl | he'
          · rw [ho] at ho'
            cases ho'
            exact List.mem_cons_self
          · exact List.mem_cons_of_mem _ (hall e' he' hq' o' ho')
      · refine ⟨ranges, ?_, hin, ?_⟩
        · rw [List.filter_cons_of_neg (by simpa using hq)]
          exact hok
        · intro e' he' hq' o' ho'
          rcases List.mem_cons.1 he' with rfl | he'
          · exact absurd hq' hq
          · exact hall e' he' hq' o' ho'

/-- Is the cell an entry of the pin list? -/
def Listed (pinned : List (Nat × Bool)) (c : Nat) : Prop := c ∈ pinned.map Prod.fst

instance (pinned : List (Nat × Bool)) (c : Nat) : Decidable (Listed pinned c) :=
  inferInstanceAs (Decidable (_ ∈ _))

theorem listed_iff {pinned : List (Nat × Bool)} {c : Nat} :
    Listed pinned c ↔ ∃ b, (c, b) ∈ pinned := by
  simp [Listed]

/-- A small page has changed its generation and kept its pinned objects. -/
structure FlippedPage (h h' : PageHeap) (destGen : Generation) (q : Nat)
    (pinned : List (Nat × Bool)) (T : ObjTable) : Prop where
  control : SameControl h h'
  allocRegions : h'.allocRegions = h.allocRegions
  descs : h'.descs = Function.update h.descs q { h.descs q with generation := destGen, age := 0 }
  startOther : ∀ c, c / pageSizeCells ≠ q → h'.startBits c = h.startBits c
  startKept : ∀ c, c / pageSizeCells = q → Listed pinned c →
    h'.startBits c = ObjInfo.pairOf (T c)
  startLost : ∀ c, c / pageSizeCells = q → ¬ Listed pinned c → h'.startBits c = .none
  memOther : ∀ c, c / pageSizeCells ≠ q → h'.mem c = h.mem c
  memKept : ∀ c o i, c / pageSizeCells = q → Listed pinned c → T c = some o → i < o.totalCells →
    h'.mem (c + i) = h.mem (c + i)
  cards : ∀ k, h.cards k = true → h'.cards k = true
  committed : h'.committed = h.committed
  newCards : ∀ k, h'.cards k = true → h.cards k = true ∨ h.committed (k / cardsPerPage) = true

theorem flipSmallPage_flipped {L : HeapLayout} {h : PageHeap} {T : ObjTable} {K : Forwarding}
    {q : Nat} (pinned : List (Nat × Bool)) (destGen : Generation) (hS : Shape L h T K)
    (hlive : (h.descs q).generation ≠ .Free)
    (hents : ∀ e ∈ pinned, e.1 / pageSizeCells = q → ∃ o, T e.1 = some o ∧ e.2 = o.isCons ∧
      K e.1 = none) :
    ∃ h', h.flipSmallPage L destGen q pinned = .ok h' ∧ FlippedPage h h' destGen q pinned T := by
  obtain ⟨ranges, hranges, hobjects, hall⟩ := pinnedRanges_ok hS hents
  have haccess : h.accessOutsideRanges q ranges = .ok () := by
    unfold accessOutsideRanges
    rw [hS.pages.backing.live q hlive, Bool.true_or]
    rfl
  unfold flipSmallPage
  rw [hranges]
  dsimp only [bind, Except.bind]
  rw [haccess]
  refine ⟨_, rfl, ?_⟩
  -- the heap before the start bits are restored
  generalize hcleared : (h.modifyDesc q fun d =>
    { d with generation := destGen, age := 0 }).clearPageStartBits q = h₁
  obtain ⟨hkept, hlost, hframe₁⟩ := restoreStartBits (h := h₁) (T := T)
    (pinned.filter fun e => e.1 / pageSizeCells = q)
    (by
      intro e he
      rw [List.mem_filter, decide_eq_true_eq] at he
      obtain ⟨o, ho, hb, -⟩ := hents e he.1 he.2
      exact ⟨o, ho, hb⟩)
    (by
      intro e he
      rw [List.mem_filter, decide_eq_true_eq] at he
      rw [← hcleared]
      simp [clearPageStartBits, he.2])
  generalize (pinned.filter fun e => e.1 / pageSizeCells = q).foldl restoreStartBit h₁ = h₂ at *
  obtain ⟨hframe₂, hcards, hnew, -⟩ := foldl_markCards (h₂.zeroPageOutsideRanges q ranges) ranges
  generalize ranges.foldl (fun h r => h.markCardsSpanned (r.1 * 8) (r.1 * 8 + r.2 * 8))
    (h₂.zeroPageOutsideRanges q ranges) = h₃ at *
  have hmemFilter : ∀ c, (∃ b, (c, b) ∈ pinned.filter fun e => e.1 / pageSizeCells = q) ↔
      c / pageSizeCells = q ∧ Listed pinned c := by
    intro c
    constructor
    · rintro ⟨b, hb⟩
      rw [List.mem_filter, decide_eq_true_eq] at hb
      exact ⟨hb.2, listed_iff.2 ⟨b, hb.1⟩⟩
    · rintro ⟨hq, hl⟩
      obtain ⟨b, hb⟩ := listed_iff.1 hl
      exact ⟨b, List.mem_filter.2 ⟨hb, by simpa using hq⟩⟩
  have hmem : h₃.mem = fun c => if c / pageSizeCells = q ∧
      (ranges.all fun r => !(r.1 ≤ c && c < r.1 + r.2)) then 0 else h.mem c := by
    rw [hframe₂]
    show (h₂.zeroPageOutsideRanges q ranges).mem = _
    unfold zeroPageOutsideRanges
    rw [hframe₁, ← hcleared]
    rfl
  have hstart : h₃.startBits = h₂.startBits := by
    rw [hframe₂]
    rfl
  have hcards₂ : (h₂.zeroPageOutsideRanges q ranges).cards = h.cards := by
    unfold zeroPageOutsideRanges
    rw [hframe₁, ← hcleared]
    rfl
  refine ⟨?_, ?_, ?_, ?_, ?_, ?_, ?_, ?_, ?_, ?_, ?_⟩
  · rw [hframe₂]
    unfold zeroPageOutsideRanges
    rw [hframe₁, ← hcleared]
    exact ⟨rfl, rfl, rfl, rfl, rfl, rfl, rfl⟩
  · rw [hframe₂]
    unfold zeroPageOutsideRanges
    rw [hframe₁, ← hcleared]
    rfl
  · rw [hframe₂]
    unfold zeroPageOutsideRanges
    rw [hframe₁, ← hcleared]
    rfl
  · intro c hc
    rw [hstart, hlost c (by rw [hmemFilter]; exact fun hx => hc hx.1), ← hcleared]
    simp [clearPageStartBits, hc, modifyDesc, setDesc]
  · intro c hc hl
    rw [hstart]
    exact hkept c ((hmemFilter c).2 ⟨hc, hl⟩)
  · intro c hc hl
    rw [hstart, hlost c (by rw [hmemFilter]; exact fun hx => hl hx.2), ← hcleared]
    simp [clearPageStartBits, hc]
  · intro c hc
    rw [hmem]
    simp [hc]
  · intro c o i hc hl ho hi
    rw [hmem]
    refine if_neg ?_
    rintro ⟨-, hout⟩
    obtain ⟨b, hb⟩ := listed_iff.1 hl
    have hin := List.all_eq_true.1 hout _ (hall (c, b) hb hc o ho)
    simp only [Bool.not_eq_true', Bool.and_eq_false_iff, decide_eq_false_iff_not] at hin
    omega
  · intro k hk
    refine hcards k ?_
    rw [hcards₂]
    exact hk
  · rw [hframe₂]
    unfold zeroPageOutsideRanges
    rw [hframe₁, ← hcleared]
    rfl
  · intro k hk
    have hk' := hnew k hk
    rw [hcards₂] at hk'
    refine hk'.imp_right ?_
    rintro ⟨r, hr, i, hi, hpage⟩
    obtain ⟨-, o, ho, hsize⟩ := hobjects r hr
    rw [hpage]
    exact hS.committed ho (by omega)

/-! ## The invariant of phase 3 -/

/-- Descriptor of a page of a reclaimed run (a small page is a run of one). -/
def PageDesc.reclaimed (d : PageDesc) (hasPins : Bool) (destGen : Generation) : PageDesc :=
  if hasPins then
    { d with
      generation := destGen
      age := 0
      pinByte := if d.kind = .Large then 0 else d.pinByte }
  else { PageDesc.free with zeroed := true }

/-- The object at `c` is lost when the pages in `done` are reclaimed. -/
def Dies (h : PageHeap) (pinned : List (Nat × Bool)) (done : List Nat) (c : Nat) : Prop :=
  c / pageSizeCells ∈ done ∧
    ((h.descs (c / pageSizeCells)).hasPins = false ∨ (h.kindAt c ≠ .Large ∧ ¬ Listed pinned c))

instance (h : PageHeap) (pinned : List (Nat × Bool)) (done : List Nat) (c : Nat) :
    Decidable (Dies h pinned done c) := inferInstanceAs (Decidable (_ ∧ _))

/-- What phase 3 needs to know of the chunk. -/
structure ReclaimStart (L : HeapLayout) (destGen : Generation) (chunk : List Nat)
    (pinned : List (Nat × Bool)) (h : PageHeap) (T : ObjTable) (K : Forwarding) : Prop where
  shape : Shape L h T K
  destLive : destGen ≠ .Free
  nodup : chunk.Nodup
  source : ∀ c d, K c = some d → h.kindAt c ≠ .Large ∧ c / pageSizeCells ∈ chunk
  dest : ∀ c d, K c = some d → d / pageSizeCells ∉ chunk ∧ h.kindAt d ≠ .Large
  pins : ∀ e ∈ pinned, e.1 / pageSizeCells ∈ chunk → h.genAt e.1 ≠ .Free → h.kindAt e.1 ≠ .Large →
    (h.descs (e.1 / pageSizeCells)).hasPins = true →
    ∃ o, T e.1 = some o ∧ e.2 = o.isCons ∧ K e.1 = none

/-- Phase 3 has reclaimed the pages in `done`, starting from the heap `h` with table `T`. -/
structure Reclaiming (L : HeapLayout) (destGen : Generation) (pinned : List (Nat × Bool))
    (h : PageHeap) (T : ObjTable) (K : Forwarding) (done : List Nat) (hx : PageHeap)
    (Tx : ObjTable) : Prop where
  shape : Shape L hx Tx fun c => if c / pageSizeCells ∈ done then none else K c
  control : SameControl h hx
  allocRegions : hx.allocRegions = h.allocRegions
  table : ∀ c o, Tx c = some o ↔ T c = some o ∧ ¬ Dies h pinned done c
  mem : ∀ c o i, Tx c = some o → i < o.totalCells → hx.mem (c + i) = h.mem (c + i)
  free : ∀ p, (h.descs p).generation = .Free → hx.descs p = h.descs p
  small : ∀ p, (h.descs p).generation ≠ .Free → (h.descs p).kind ≠ .Large → hx.descs p =
    if p ∈ done then (h.descs p).reclaimed (h.descs p).hasPins destGen else h.descs p
  run : ∀ head q, (h.descs head).kind = .Large → 1 ≤ (h.descs head).nSpan → head ≤ q →
    q < head + (h.descs head).nSpan → hx.descs q =
      if head ∈ done then (h.descs q).reclaimed (h.descs head).hasPins destGen else h.descs q
  cards : ∀ k, (hx.descs (k / cardsPerPage)).generation ≠ .Free → h.cards k = true →
    hx.cards k = true

namespace Reclaiming

variable {L : HeapLayout} {destGen : Generation} {chunk : List Nat} {pinned : List (Nat × Bool)}
  {h hx : PageHeap} {T Tx : ObjTable} {K : Forwarding} {done : List Nat} {q : Nat}

theorem start (hX : ReclaimStart L destGen chunk pinned h T K) :
    Reclaiming L destGen pinned h T K [] h T where
  shape := by simpa using hX.shape
  control := SameControl.refl h
  allocRegions := rfl
  table := by simp [Dies]
  mem := fun _ _ _ _ _ => rfl
  free := fun _ _ => rfl
  small := by simp
  run := by simp
  cards := fun _ _ hk => hk

/-- Nothing but small pages loses its forwarding markers. -/
theorem filter_eq (hX : ReclaimStart L destGen chunk pinned h T K)
    (hq : (h.descs q).kind = .Large ∨ (h.descs q).generation = .Free) :
    (fun c => if c / pageSizeCells ∈ done ++ [q] then none else K c) =
      fun c => if c / pageSizeCells ∈ done then none else K c := by
  funext c
  by_cases hc : c / pageSizeCells = q
  · have hK : K c = none := by
      rw [Option.eq_none_iff_forall_ne_some]
      intro d hd
      obtain ⟨hk, -⟩ := hX.source c d hd
      obtain ⟨o, ho, -, -⟩ := hX.shape.moved c d hd
      rcases hq with hq | hq
      · exact hk (by unfold kindAt; rw [hc]; exact hq)
      · exact hX.shape.live ho (by unfold genAt; rw [hc]; exact hq)
    simp [hK]
  · simp [hc]

theorem dies_snoc_of_ne {c : Nat} (hc : c / pageSizeCells ≠ q) :
    Dies h pinned (done ++ [q]) c ↔ Dies h pinned done c := by
  simp [Dies, hc]

theorem dies_snoc_self {c : Nat} (hq : q ∉ done) (hc : c / pageSizeCells = q) :
    ¬ Dies h pinned done c := by
  rintro ⟨hd, -⟩
  rw [hc] at hd
  exact hq hd

/-- A page without objects of its own is passed over. -/
theorem skip (hX : ReclaimStart L destGen chunk pinned h T K)
    (hI : Reclaiming L destGen pinned h T K done hx Tx)
    (hq : (h.descs q).generation = .Free ∨ ((h.descs q).kind = .Large ∧ (h.descs q).nSpan = 0)) :
    Reclaiming L destGen pinned h T K (done ++ [q]) hx Tx where
  shape := by
    rw [filter_eq hX (hq.symm.imp_left And.left)]
    exact hI.shape
  control := hI.control
  allocRegions := hI.allocRegions
  table := by
    intro c o
    rw [hI.table]
    refine and_congr_right fun hc => not_congr ?_
    refine (dies_snoc_of_ne ?_).symm
    rintro rfl
    rcases hq with hfree | ⟨hk, hspan⟩
    · exact hX.shape.live hc hfree
    · have := ((hX.shape.obj c o hc).large hk).2.2.1
      omega
  mem := hI.mem
  free := hI.free
  small := by
    intro p hlive hk
    have hpq : p ≠ q := by
      rintro rfl
      rcases hq with hfree | ⟨hk', -⟩
      · exact hlive hfree
      · exact hk hk'
    rw [hI.small p hlive hk]
    simp [hpq]
  run := by
    intro head p hk hspan hle hlt
    have hpq : head ≠ q := by
      rintro rfl
      rcases hq with hfree | ⟨-, hspan'⟩
      · rw [(hX.shape.pages.kindFree head).2 hfree] at hk
        cases hk
      · omega
    rw [hI.run head p hk hspan hle hlt]
    simp [hpq]
  cards := hI.cards

/-- The pages that have not been reclaimed are as they were. -/
theorem descs_todo (hI : Reclaiming L destGen pinned h T K done hx Tx) {p : Nat} (hp : p ∉ done)
    (hk : (h.descs p).kind = .Large → 1 ≤ (h.descs p).nSpan) : hx.descs p = h.descs p := by
  by_cases hfree : (h.descs p).generation = .Free
  · exact hI.free p hfree
  · by_cases hkind : (h.descs p).kind = .Large
    · rw [hI.run p p hkind (hk hkind) (Nat.le_refl p) (by have := hk hkind; omega), if_neg hp]
    · rw [hI.small p hfree hkind, if_neg hp]

/-- A small page without pins is released. -/
theorem releaseSmall (hX : ReclaimStart L destGen chunk pinned h T K)
    (hI : Reclaiming L destGen pinned h T K done hx Tx) (hq : q ∈ chunk) (hnew : q ∉ done)
    (hlive : (h.descs q).generation ≠ .Free) (hkind : (h.descs q).kind ≠ .Large)
    (hpins : (h.descs q).hasPins = false) :
    Reclaiming L destGen pinned h T K (done ++ [q]) (hx.releaseSmallPage q)
      fun c => if c / pageSizeCells = q then none else Tx c := by
  have hR := releaseSmallPage_released hx q
  have hdq : hx.descs q = h.descs q := hI.descs_todo hnew (absurd · hkind)
  have hother : ∀ p, p ≠ q → (hx.releaseSmallPage q).descs p = hx.descs p := fun p hp =>
    hR.outside p (by simpa using hp)
  have hself := hR.inside q (by simp)
  constructor
  · refine hI.shape.releasePage (p := q) (d := { PageDesc.free with zeroed := true }) hR.control.base
      hR.control.nPages ?_ ⟨rfl, rfl, Nat.zero_le _⟩ (by rw [hdq]; exact hlive)
      (by rw [hdq]; exact hkind) (fun c hc => hR.start c (by simpa using hc))
      (fun c hc => hR.mem c (by simpa using hc)) ?_ ?_ ?_ ?_ ?_ (hR.backing hI.shape.pages)
    · funext p
      by_cases hp : p = q
      · rw [hp, Function.update_self, hself]
      · rw [Function.update_of_ne hp, hother p hp]
    · intro c hc
      rw [if_neg hc]
    · intro c hc
      rw [if_pos hc]
    · intro c hc
      simp [hc]
    · intro c hc
      simp [hc]
    · intro c e hK hep
      split at hK
      · cases hK
      · exact (hX.dest c e hK).1 (hep ▸ hq)
  · exact hI.control.trans hR.control
  · exact hR.allocRegions.trans hI.allocRegions
  · intro c o
    by_cases hc : c / pageSizeCells = q
    · rw [if_pos hc]
      refine iff_of_false (by simp) ?_
      rintro ⟨-, hnd⟩
      exact hnd ⟨by simp [hc], Or.inl (by rw [hc]; exact hpins)⟩
    · rw [if_neg hc, hI.table, dies_snoc_of_ne hc]
  · intro c o i hc hi
    by_cases hcq : c / pageSizeCells = q
    · rw [if_pos hcq] at hc
      cases hc
    · rw [if_neg hcq] at hc
      rw [hR.mem, hI.mem c o i hc hi]
      rw [List.mem_singleton]
      intro hci
      rcases hI.shape.cell_page hc hi with ⟨-, hp⟩ | ⟨hk, j, hp, hj⟩
      · exact hcq (hp ▸ hci)
      · rcases Nat.eq_zero_or_pos j with rfl | hpos
        · exact hcq (by rw [← hci, hp]; rfl)
        · have hrun := (hI.shape.pages.run _ j hk hpos hj).1
          rw [← hp, hci, hdq] at hrun
          exact hkind hrun
  · intro p hp
    have hpq : p ≠ q := by
      rintro rfl
      exact hlive hp
    rw [hother p hpq]
    exact hI.free p hp
  · intro p hp hk
    by_cases hpq : p = q
    · subst hpq
      rw [hself, if_pos (by simp), hpins]
      rfl
    · rw [hother p hpq, hI.small p hp hk]
      simp [hpq]
  · intro head p hk hspan hle hlt
    have hheadq : head ≠ q := by
      rintro rfl
      exact hkind hk
    have hpq : p ≠ q := by
      rintro rfl
      exact hkind (hX.shape.pages.run_page hk ⟨hle, hlt⟩).1
    rw [hother p hpq, hI.run head p hk hspan hle hlt]
    simp [hheadq]
  · intro k hk hcard
    have hkq : k / cardsPerPage ≠ q := by
      intro heq
      rw [heq, hself] at hk
      exact hk rfl
    rw [hR.cards k (by simpa using hkq)]
    rw [hother _ hkq] at hk
    exact hI.cards k hk hcard

/-- A small page with pins is flipped. -/
theorem flipSmall (hX : ReclaimStart L destGen chunk pinned h T K)
    (hI : Reclaiming L destGen pinned h T K done hx Tx) (hq : q ∈ chunk) (hnew : q ∉ done)
    (hlive : (h.descs q).generation ≠ .Free) (hkind : (h.descs q).kind ≠ .Large)
    (hpins : (h.descs q).hasPins = true) :
    ∃ hx', hx.flipSmallPage L destGen q pinned = .ok hx' ∧
      Reclaiming L destGen pinned h T K (done ++ [q]) hx'
        fun c => if c / pageSizeCells = q ∧ ¬ Listed pinned c then none else Tx c := by
  have hents : ∀ e ∈ pinned, e.1 / pageSizeCells = q → ∃ o, T e.1 = some o ∧ e.2 = o.isCons ∧
      K e.1 = none := by
    intro e he heq
    refine hX.pins e he (by rw [heq]; exact hq) ?_ ?_ (by rw [heq]; exact hpins)
    · unfold genAt
      rw [heq]
      exact hlive
    · unfold kindAt
      rw [heq]
      exact hkind
  have hTx : ∀ c, c / pageSizeCells = q → Tx c = T c := by
    intro c hc
    apply Option.ext
    intro o
    rw [hI.table]
    exact and_iff_left (dies_snoc_self hnew hc)
  have hdq : hx.descs q = h.descs q := hI.descs_todo hnew (absurd · hkind)
  obtain ⟨hx', hok, hF⟩ := flipSmallPage_flipped (q := q) pinned destGen hI.shape
    (by rw [hdq]; exact hlive) (by
      intro e he heq
      obtain ⟨o, ho, hb, hK⟩ := hents e he heq
      exact ⟨o, by rw [hTx e.1 heq]; exact ho, hb, by simp [hK]⟩)
  refine ⟨hx', hok, ?_⟩
  have hother : ∀ p, p ≠ q → hx'.descs p = hx.descs p := by
    intro p hp
    rw [hF.descs, Function.update_of_ne hp]
  have hself : hx'.descs q = { h.descs q with generation := destGen, age := 0 } := by
    rw [hF.descs, Function.update_self, hdq]
  have hsub : ∀ c o, (if c / pageSizeCells = q ∧ ¬ Listed pinned c then none else Tx c) = some o →
      ¬ (c / pageSizeCells = q ∧ ¬ Listed pinned c) ∧ Tx c = some o := by
    intro c o hc
    split at hc
    · cases hc
    · rename_i hne
      exact ⟨hne, hc⟩
  -- the cells of an object of the new table are those of the old heap
  have hmem : ∀ c o i, Tx c = some o → ¬ (c / pageSizeCells = q ∧ ¬ Listed pinned c) →
      i < o.totalCells → hx'.mem (c + i) = hx.mem (c + i) := by
    intro c o i hc hne hi
    by_cases hcq : c / pageSizeCells = q
    · exact hF.memKept c o i hcq (not_not.1 fun hl => hne ⟨hcq, hl⟩) hc hi
    · refine hF.memOther _ ?_
      intro hci
      rcases hI.shape.cell_page hc hi with ⟨-, hp⟩ | ⟨hk, j, hp, hj⟩
      · exact hcq (hp ▸ hci)
      · rcases Nat.eq_zero_or_pos j with rfl | hpos
        · exact hcq (by rw [← hci, hp]; rfl)
        · have hrun := (hI.shape.pages.run _ j hk hpos hj).1
          rw [← hp, hci, hdq] at hrun
          exact hkind hrun
  constructor
  · refine hI.shape.flipPage (p := q) (d := { h.descs q with generation := destGen, age := 0 })
      hF.control.base hF.control.nPages (by rw [hF.descs, hdq]) hX.destLive
      (by rw [hdq]; exact ⟨rfl, rfl, rfl⟩) (by rw [hdq]; exact hlive) (by rw [hdq]; exact hkind)
      hF.startOther ?_ ?_ ?_ ?_ ?_ ?_ ?_ ?_ ?_
    · intro c hc
      by_cases hl : Listed pinned c
      · rw [hF.startKept c hc hl, if_neg (by simp [hl])]
      · rw [hF.startLost c hc hl, if_pos ⟨hc, hl⟩]
        rfl
    · intro c o hc
      obtain ⟨hne, hc'⟩ := hsub c o hc
      exact hmem c o 0 hc' hne (hI.shape.wf hc').pos
    · intro c hc
      rw [if_neg (by simp [hc])]
    · intro c o hc
      exact (hsub c o hc).2
    · intro c hc
      simp [hc]
    · intro c hc
      simp [hc]
    · intro c hc hsome
      obtain ⟨o, ho⟩ := Option.isSome_iff_exists.1 hsome
      obtain ⟨hne, -⟩ := hsub c o ho
      have hl : Listed pinned c := not_not.1 fun hl => hne ⟨hc, hl⟩
      obtain ⟨b, hb⟩ := listed_iff.1 hl
      obtain ⟨-, -, -, hK⟩ := hents (c, b) hb hc
      simp only at hK
      simp [hK]
    · intro c e hK hep
      split at hK
      · cases hK
      · exact (hX.dest c e hK).1 (hep ▸ hq)
    · refine ⟨fun p hp => ?_, fun k hk => ?_⟩
      · rw [hF.committed]
        refine hI.shape.pages.backing.live p ?_
        by_cases hpq : p = q
        · rw [hpq, hdq]
          exact hlive
        · rwa [hF.descs, Function.update_of_ne hpq] at hp
      · rw [hF.committed]
        exact (hF.newCards k hk).elim (hI.shape.pages.backing.dirty k) id
  · exact hI.control.trans hF.control
  · exact hF.allocRegions.trans hI.allocRegions
  · intro c o
    by_cases hc : c / pageSizeCells = q
    · have hdies : Dies h pinned (done ++ [q]) c ↔ ¬ Listed pinned c := by
        unfold Dies kindAt
        rw [hc]
        simp [hpins, hkind]
      rw [hdies, hTx c hc]
      by_cases hl : Listed pinned c
      · rw [if_neg (by simp [hl])]
        simp [hl]
      · rw [if_pos ⟨hc, hl⟩]
        simp [hl]
    · rw [if_neg (by simp [hc]), hI.table, dies_snoc_of_ne hc]
  · intro c o i hc hi
    obtain ⟨hne, hc'⟩ := hsub c o hc
    rw [hmem c o i hc' hne hi, hI.mem c o i hc' hi]
  · intro p hp
    have hpq : p ≠ q := by
      rintro rfl
      exact hlive hp
    rw [hother p hpq]
    exact hI.free p hp
  · intro p hp hk
    by_cases hpq : p = q
    · subst hpq
      rw [hself, if_pos (by simp), hpins]
      simp [PageDesc.reclaimed, hkind]
    · rw [hother p hpq, hI.small p hp hk]
      simp [hpq]
  · intro head p hk hspan hle hlt
    have hheadq : head ≠ q := by
      rintro rfl
      exact hkind hk
    have hpq : p ≠ q := by
      rintro rfl
      exact hkind (hX.shape.pages.run_page hk ⟨hle, hlt⟩).1
    rw [hother p hpq, hI.run head p hk hspan hle hlt]
    simp [hheadq]
  · intro k hk hcard
    refine hF.cards k (hI.cards k ?_ hcard)
    by_cases hkq : k / cardsPerPage = q
    · rw [hkq, hdq]
      exact hlive
    · rwa [hother _ hkq] at hk

/-- A large run with pins is flipped. -/
theorem flipRun (hX : ReclaimStart L destGen chunk pinned h T K)
    (hI : Reclaiming L destGen pinned h T K done hx Tx) (hnew : q ∉ done)
    (hkind : (h.descs q).kind = .Large) (hspan : 1 ≤ (h.descs q).nSpan)
    (hpins : (h.descs q).hasPins = true) :
    Reclaiming L destGen pinned h T K (done ++ [q])
      (hx.flipLargeRun destGen q (h.descs q).nSpan) Tx := by
  have hin : ∀ p, q ≤ p ∧ p < q + (h.descs q).nSpan → hx.descs p = h.descs p := by
    intro p hp
    rw [hI.run q p hkind hspan hp.1 hp.2, if_neg hnew]
  have hdq := hin q ⟨Nat.le_refl q, by omega⟩
  have hlive : (h.descs q).generation ≠ .Free := by
    intro hfree
    rw [(hX.shape.pages.kindFree q).2 hfree] at hkind
    cases hkind
  have hout : ∀ p, ¬ (q ≤ p ∧ p < q + (h.descs q).nSpan) →
      (hx.flipLargeRun destGen q (h.descs q).nSpan).descs p = hx.descs p := fun p hp => if_neg hp
  have hself : ∀ p, q ≤ p ∧ p < q + (h.descs q).nSpan →
      (hx.flipLargeRun destGen q (h.descs q).nSpan).descs p =
        { h.descs p with generation := destGen, age := 0, pinByte := 0 } := by
    intro p hp
    rw [← hin p hp]
    exact if_pos hp
  constructor
  · rw [filter_eq hX (Or.inl hkind)]
    have hx_kind : (hx.descs q).kind = .Large := by rw [hdq]; exact hkind
    have hx_span : 1 ≤ (hx.descs q).nSpan := by rw [hdq]; exact hspan
    refine hI.shape.flipRun q (g := destGen) rfl rfl hx_kind hX.destLive hx_span
      (by rw [hdq]; exact hlive) ?_ ?_ ?_ ?_ ?_ rfl ?_
    · intro p hle hlt
      rw [hdq] at hlt
      rw [hself p ⟨hle, hlt⟩]
    · intro p hp
      rw [hdq] at hp
      rw [hout p hp]
    · intro p
      by_cases hp : q ≤ p ∧ p < q + (h.descs q).nSpan
      · rw [hself p hp, hin p hp]
        exact ⟨rfl, rfl, rfl⟩
      · rw [hout p hp]
        exact ⟨rfl, rfl, rfl⟩
    · intro c hc
      rw [hdq] at hc
      exact if_neg hc
    · intro c hgt hlt
      rw [hdq] at hlt
      exact if_pos ⟨hgt, hlt⟩
    · refine ⟨fun p hp => ?_, hI.shape.pages.backing.dirty⟩
      refine hI.shape.pages.backing.live p ?_
      by_cases hpq : q ≤ p ∧ p < q + (h.descs q).nSpan
      · rw [hin p hpq, (hX.shape.pages.run_page hkind hpq).2]
        exact hlive
      · rwa [hout p hpq] at hp
  · exact hI.control.trans ⟨rfl, rfl, rfl, rfl, rfl, rfl, rfl⟩
  · exact hI.allocRegions
  · intro c o
    rw [hI.table]
    refine and_congr_right fun _ => not_congr ?_
    by_cases hc : c / pageSizeCells = q
    · refine iff_of_false (dies_snoc_self hnew hc) ?_
      rintro ⟨-, hno | ⟨hsmall, -⟩⟩
      · rw [hc, hpins] at hno
        cases hno
      · exact hsmall (by unfold kindAt; rw [hc]; exact hkind)
    · exact (dies_snoc_of_ne hc).symm
  · exact hI.mem
  · intro p hp
    have hpq : ¬ (q ≤ p ∧ p < q + (h.descs q).nSpan) := by
      intro hpq
      exact hlive ((hX.shape.pages.run_page hkind hpq).2 ▸ hp)
    rw [hout p hpq]
    exact hI.free p hp
  · intro p hp hk
    have hpq : ¬ (q ≤ p ∧ p < q + (h.descs q).nSpan) := fun hpq =>
      hk (hX.shape.pages.run_page hkind hpq).1
    have hne : p ≠ q := by
      rintro rfl
      exact hk hkind
    rw [hout p hpq, hI.small p hp hk]
    simp [hne]
  · intro head p hk hspan' hle hlt
    by_cases hheadq : head = q
    · subst hheadq
      rw [hself p ⟨hle, hlt⟩, if_pos (by simp), hpins]
      simp [PageDesc.reclaimed, (hX.shape.pages.run_page hkind ⟨hle, hlt⟩).1]
    · have hpq : ¬ (q ≤ p ∧ p < q + (h.descs q).nSpan) := by
        intro hpq
        have := hX.shape.pages.run_disjoint (j := p - head) hkind hk hspan (by omega) (by omega)
        exact hheadq this
      rw [hout p hpq, hI.run head p hk hspan' hle hlt]
      simp [hheadq]
  · intro k hk hcard
    refine hI.cards k ?_ hcard
    by_cases hpq : q ≤ k / cardsPerPage ∧ k / cardsPerPage < q + (h.descs q).nSpan
    · rw [hin _ hpq, (hX.shape.pages.run_page hkind hpq).2]
      exact hlive
    · rwa [hout _ hpq] at hk

/-- A large run without pins is released. -/
theorem releaseRun (hX : ReclaimStart L destGen chunk pinned h T K)
    (hI : Reclaiming L destGen pinned h T K done hx Tx) (hnew : q ∉ done)
    (hkind : (h.descs q).kind = .Large) (hspan : 1 ≤ (h.descs q).nSpan)
    (hpins : (h.descs q).hasPins = false) :
    Reclaiming L destGen pinned h T K (done ++ [q])
      ((List.range' q (h.descs q).nSpan).foldl releaseLargePage hx)
      fun c => if c / pageSizeCells = q then none else Tx c := by
  have hR := releaseLargePages_released hx (List.range' q (h.descs q).nSpan)
  generalize (List.range' q (h.descs q).nSpan).foldl releaseLargePage hx = hx' at hR ⊢
  have hmem : ∀ p, p ∈ List.range' q (h.descs q).nSpan ↔ q ≤ p ∧ p < q + (h.descs q).nSpan :=
    fun p => List.mem_range'_1
  have hin : ∀ p, q ≤ p ∧ p < q + (h.descs q).nSpan → hx.descs p = h.descs p := by
    intro p hp
    rw [hI.run q p hkind hspan hp.1 hp.2, if_neg hnew]
  have hdq := hin q ⟨Nat.le_refl q, by omega⟩
  have hlive : (h.descs q).generation ≠ .Free := by
    intro hfree
    rw [(hX.shape.pages.kindFree q).2 hfree] at hkind
    cases hkind
  have hout : ∀ p, ¬ (q ≤ p ∧ p < q + (h.descs q).nSpan) → hx'.descs p = hx.descs p :=
    fun p hp => hR.outside p (by rw [hmem]; exact hp)
  have hself : ∀ p, q ≤ p ∧ p < q + (h.descs q).nSpan →
      hx'.descs p = { PageDesc.free with zeroed := true } :=
    fun p hp => hR.inside p ((hmem p).2 hp)
  have hx_kind : (hx.descs q).kind = .Large := by rw [hdq]; exact hkind
  constructor
  · rw [filter_eq hX (Or.inl hkind)]
    have hx_span : 1 ≤ (hx.descs q).nSpan := by rw [hdq]; exact hspan
    refine hI.shape.releaseRun q hR.control.base hR.control.nPages hx_kind hx_span ?_ ?_ ?_
      ?_ ?_ ?_ ?_ ?_ (hR.backing hI.shape.pages)
    · intro p hle hlt
      rw [hdq] at hlt
      rw [hself p ⟨hle, hlt⟩]
      exact ⟨rfl, rfl, Nat.zero_le _⟩
    · intro p hp
      rw [hdq] at hp
      exact hout p hp
    · intro c hc
      rw [hdq] at hc
      exact hR.start c (by rw [hmem]; exact hc)
    · intro c hc
      rw [hdq] at hc
      exact hR.mem c (by rw [hmem]; exact hc)
    · intro c hc
      rw [if_neg hc]
    · intro c hc
      rw [if_pos hc]
    · intro c hK
      obtain ⟨d, hd⟩ := Option.ne_none_iff_exists'.1 hK
      split at hd
      · cases hd
      · have hsrc := (hX.source c d hd).1
        obtain ⟨o, ho, -, -⟩ := hX.shape.moved c d hd
        unfold kindAt at hsrc ⊢
        rename_i hcd
        rwa [hI.descs_todo hcd (absurd · hsrc)]
    · intro c e hK hke
      split at hK
      · cases hK
      · have hde := hX.dest c e hK
        unfold kindAt at hde hke
        obtain ⟨o, -, ho, -⟩ := hX.shape.moved c e hK
        have hlive' := hX.shape.live ho
        by_cases hed : e / pageSizeCells ∈ done
        · rw [hI.small _ hlive' hde.2, if_pos hed] at hke
          unfold PageDesc.reclaimed at hke
          split at hke
          · exact hde.2 hke
          · cases hke
        · rw [hI.descs_todo hed (absurd · hde.2)] at hke
          exact hde.2 hke
  · exact hI.control.trans hR.control
  · exact hR.allocRegions.trans hI.allocRegions
  · intro c o
    by_cases hc : c / pageSizeCells = q
    · rw [if_pos hc]
      refine iff_of_false (by simp) ?_
      rintro ⟨-, hnd⟩
      exact hnd ⟨by simp [hc], Or.inl (by rw [hc]; exact hpins)⟩
    · rw [if_neg hc, hI.table, dies_snoc_of_ne hc]
  · intro c o i hc hi
    by_cases hcq : c / pageSizeCells = q
    · rw [if_pos hcq] at hc
      cases hc
    · rw [if_neg hcq] at hc
      rw [hR.mem, hI.mem c o i hc hi]
      rw [hmem]
      intro hpq
      -- a cell of another object on the run would make that object the run's own
      have hdp : hx.descs ((c + i) / pageSizeCells) = _ := hin _ hpq
      have hkp := (hX.shape.pages.run_page hkind hpq).1
      rcases hI.shape.cell_page hc hi with ⟨hk, hp⟩ | ⟨hk, j, hp, hj⟩
      · apply hk
        unfold kindAt
        rw [← hp, hdp]
        exact hkp
      · have hpq' : q ≤ c / pageSizeCells + j ∧ c / pageSizeCells + j <
            q + (hx.descs q).nSpan := by
          rw [hdq, ← hp]
          exact hpq
        exact hcq (hI.shape.pages.run_disjoint hx_kind hk (by rw [hdq]; exact hspan) hj hpq')
  · intro p hp
    have hpq : ¬ (q ≤ p ∧ p < q + (h.descs q).nSpan) := by
      intro hpq
      exact hlive ((hX.shape.pages.run_page hkind hpq).2 ▸ hp)
    rw [hout p hpq]
    exact hI.free p hp
  · intro p hp hk
    have hpq : ¬ (q ≤ p ∧ p < q + (h.descs q).nSpan) := fun hpq =>
      hk (hX.shape.pages.run_page hkind hpq).1
    have hne : p ≠ q := by
      rintro rfl
      exact hk hkind
    rw [hout p hpq, hI.small p hp hk]
    simp [hne]
  · intro head p hk hspan' hle hlt
    by_cases hheadq : head = q
    · subst hheadq
      rw [hself p ⟨hle, hlt⟩, if_pos (by simp), hpins]
      rfl
    · have hpq : ¬ (q ≤ p ∧ p < q + (h.descs q).nSpan) := by
        intro hpq
        have := hX.shape.pages.run_disjoint (j := p - head) hkind hk hspan (by omega) (by omega)
        exact hheadq this
      rw [hout p hpq, hI.run head p hk hspan' hle hlt]
      simp [hheadq]
  · intro k hk hcard
    have hkq : ¬ (q ≤ k / cardsPerPage ∧ k / cardsPerPage < q + (h.descs q).nSpan) := by
      intro hpq
      rw [hself _ hpq] at hk
      exact hk rfl
    rw [hR.cards k (by rw [hmem]; exact hkq)]
    rw [hout _ hkq] at hk
    exact hI.cards k hk hcard

/-- The pages that are zeroed have their backing. -/
theorem accessSmall (hI : Reclaiming L destGen pinned h T K done hx Tx) (hnew : q ∉ done)
    (hlive : (h.descs q).generation ≠ .Free) (hkind : (h.descs q).kind ≠ .Large) :
    hx.access (q * pageSizeCells) pageSizeCells = .ok () := by
  unfold PageHeap.access
  rw [require_eq_ok, backed_iff]
  intro i hi
  have hpage : (q * pageSizeCells + i) / pageSizeCells = q := by
    unfold pageSizeCells at *
    omega
  rw [hpage]
  refine hI.shape.pages.backing.live q ?_
  rw [hI.descs_todo hnew (absurd · hkind)]
  exact hlive

theorem accessRun (hX : ReclaimStart L destGen chunk pinned h T K)
    (hI : Reclaiming L destGen pinned h T K done hx Tx) (hnew : q ∉ done)
    (hkind : (h.descs q).kind = .Large) :
    hx.access (q * pageSizeCells) ((h.descs q).nSpan * pageSizeCells) = .ok () := by
  unfold PageHeap.access
  rw [require_eq_ok, backed_iff]
  intro i hi
  have hpage : (q * pageSizeCells + i) / pageSizeCells = q + i / pageSizeCells := by
    unfold pageSizeCells at *
    omega
  have hin : q ≤ q + i / pageSizeCells ∧ q + i / pageSizeCells < q + (h.descs q).nSpan := by
    unfold pageSizeCells at *
    omega
  rw [hpage]
  refine hI.shape.pages.backing.live _ ?_
  rw [hI.run q _ hkind (by omega) hin.1 hin.2, if_neg hnew,
    (hX.shape.pages.run_page hkind hin).2]
  intro hfree
  rw [(hX.shape.pages.kindFree q).2 hfree] at hkind
  cases hkind

end Reclaiming

/-- One page of phase 3. -/
theorem phase3Page_reclaiming {L : HeapLayout} {destGen : Generation} {chunk : List Nat}
    {pinned : List (Nat × Bool)} {h : PageHeap} {T : ObjTable} {K : Forwarding} {done : List Nat}
    {q : Nat} {s : ReclaimState} {E : GcPanic → Prop}
    (hX : ReclaimStart L destGen chunk pinned h T K) (hpre : done ++ [q] <+: chunk)
    (hI : ∃ Tx, Reclaiming L destGen pinned h T K done s.heap Tx) :
    Outcome E (phase3Page L destGen pinned s q) fun s' =>
      ∃ Tx, Reclaiming L destGen pinned h T K (done ++ [q]) s'.heap Tx := by
  obtain ⟨Tx, hI⟩ := hI
  have hq : q ∈ chunk := hpre.subset (by simp)
  have hnew : q ∉ done := by
    have hnd := hX.nodup.sublist hpre.sublist
    rw [List.nodup_append] at hnd
    intro hd
    exact hnd.2.2 q hd q (List.mem_singleton.2 rfl) rfl
  unfold phase3Page
  by_cases hfree : (h.descs q).generation = .Free
  · rw [hI.free q hfree, if_pos hfree]
    exact ⟨Tx, hI.skip hX (Or.inl hfree)⟩
  · by_cases hkind : (h.descs q).kind = .Large
    · by_cases hspan : (h.descs q).nSpan = 0
      · -- a continuation page: its run has been dealt with, or is not part of the chunk
        obtain ⟨head, hlt, hkh, hin⟩ := hX.shape.pages.head q hkind hspan
        have hd := hI.run head q hkh (by omega) (by omega) hin
        have hskip : (s.heap.descs q).generation = .Free ∨ (s.heap.descs q).isLargeCont = true := by
          rw [hd]
          split
          · unfold PageDesc.reclaimed
            split
            · right
              simp [PageDesc.isLargeCont, hkind, hspan]
            · exact Or.inl rfl
          · right
            simp [PageDesc.isLargeCont, hkind, hspan]
        by_cases hf : (s.heap.descs q).generation = .Free
        · rw [if_pos hf]
          exact ⟨Tx, hI.skip hX (Or.inr ⟨hkind, hspan⟩)⟩
        · rw [if_neg hf, if_pos (hskip.resolve_left hf)]
          exact ⟨Tx, hI.skip hX (Or.inr ⟨hkind, hspan⟩)⟩
      · have hspan' : 1 ≤ (h.descs q).nSpan := by omega
        rw [hI.descs_todo hnew fun _ => hspan', if_neg hfree,
          if_neg (by simp [PageDesc.isLargeCont, hspan]),
          if_pos (by simp [PageDesc.isLargeHead, hkind, hspan'])]
        by_cases hpins : (h.descs q).hasPins = true
        · rw [if_pos hpins]
          exact ⟨Tx, hI.flipRun hX hnew hkind hspan' hpins⟩
        · rw [if_neg hpins, hI.accessRun hX hnew hkind]
          exact ⟨_, hI.releaseRun hX hnew hkind hspan' (by simpa using hpins)⟩
    · rw [hI.descs_todo hnew (absurd · hkind), if_neg hfree,
        if_neg (by simp [PageDesc.isLargeCont, hkind]),
        if_neg (by simp [PageDesc.isLargeHead, hkind])]
      by_cases hpins : (h.descs q).hasPins = true
      · rw [if_pos hpins]
        obtain ⟨hx', hok, hI'⟩ := hI.flipSmall hX hq hnew hfree hkind hpins
        rw [hok]
        exact ⟨_, hI'⟩
      · rw [if_neg hpins, hI.accessSmall hnew hfree hkind]
        exact ⟨_, hI.releaseSmall hX hq hnew hfree hkind (by simpa using hpins)⟩

/-- What phase 3 leaves behind. -/
theorem phase3Reclaim_reclaiming {L : HeapLayout} {destGen : Generation} {chunk : List Nat}
    {pinned : List (Nat × Bool)} {h : PageHeap} {T : ObjTable} {K : Forwarding}
    {E : GcPanic → Prop} (hX : ReclaimStart L destGen chunk pinned h T K) :
    Outcome E (h.phase3Reclaim L destGen chunk pinned) fun s =>
      ∃ Tx, Reclaiming L destGen pinned h T K chunk s.heap Tx := by
  have hstart : ∃ Tx, Reclaiming L destGen pinned h T K []
      ({ heap := h, released := 0, flipped := 0 } : ReclaimState).heap Tx :=
    ⟨T, Reclaiming.start hX⟩
  exact Outcome.foldlM (I := fun done (s : ReclaimState) =>
    ∃ Tx, Reclaiming L destGen pinned h T K done s.heap Tx) chunk
    (fun done q s hpre hI => phase3Page_reclaiming hX hpre hI) hstart

end NewGc
