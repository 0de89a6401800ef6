import NewGc.AllocSpec

/-!
# Phase1 — copying the marked objects of a chunk

`Copying` is what holds while phase 1 walks the pages of a chunk: every object passed so far that is
marked and not pinned has a copy with its old content, its first cell holds the marker, and nothing
else of the objects has changed.  The phase is undisturbed when no copy opens a page of the snapshot.
-/

namespace NewGc

open Library PageHeap

/-! ## One copy -/

/-- Page kind of the copies of conses and of header-bearing objects. -/
def destKind (isCons : Bool) : PageKind := if isCons then .Cons else .Boxed

theorem destKind_small (isCons : Bool) : destKind isCons = .Cons ∨ destKind isCons = .Boxed := by
  cases isCons
  · exact Or.inr rfl
  · exact Or.inl rfl

section ForwardObject

variable (L : HeapLayout) (h : PageHeap) (src dest n : Nat)

@[simp] theorem forwardObject_descs : (h.forwardObject L src dest n).descs = h.descs := rfl

@[simp] theorem forwardObject_startBits :
    (h.forwardObject L src dest n).startBits = h.startBits := rfl

@[simp] theorem forwardObject_allocRegions :
    (h.forwardObject L src dest n).allocRegions = h.allocRegions := rfl

theorem forwardObject_mem (x : Nat) : (h.forwardObject L src dest n).mem x =
    if x = src then L.makeForward (h.cellAddr dest)
    else if dest ≤ x ∧ x < dest + n then h.mem (x - dest + src) else h.mem x := by
  by_cases hx : x = src
  · subst hx
    rw [if_pos rfl]
    exact Function.update_self ..
  · rw [if_neg hx]
    exact Function.update_of_ne hx ..

theorem forwardObject_cards (k : Nat) : (h.forwardObject L src dest n).cards k =
    ((h.markCardsSpanned (dest * 8) (dest * 8 + n * 8)).cards k) := rfl

end ForwardObject

/-- The cards over a marked range are dirty. -/
theorem markCardsSpanned_cards {h : PageHeap} {lo n i : Nat} (hi : i < n)
    (hin : lo + i < h.totalCells) :
    (h.markCardsSpanned (lo * 8) (lo * 8 + n * 8)).cards ((lo + i) / cardSizeCells) = true := by
  unfold markCardsSpanned totalCells pageSizeCells cardSizeCells cardSizeBytes cardsPerPage at *
  simp only [Bool.or_eq_true, Bool.and_eq_true, decide_eq_true_eq]
  right
  refine ⟨⟨⟨?_, ?_⟩, ?_⟩, ?_⟩ <;> omega

/-- A card over a marked range that was clean lies over a cell of the range. -/
theorem markCardsSpanned_new {h : PageHeap} {lo n k : Nat}
    (hk : (h.markCardsSpanned (lo * 8) (lo * 8 + n * 8)).cards k = true) :
    h.cards k = true ∨ ∃ i < n, k / cardsPerPage = (lo + i) / pageSizeCells := by
  unfold markCardsSpanned at hk
  simp only [Bool.or_eq_true, Bool.and_eq_true, decide_eq_true_eq] at hk
  rcases hk with hk | ⟨⟨⟨hlt, hlo⟩, hhi⟩, -⟩
  · exact Or.inl hk
  · right
    unfold cardSizeBytes cardsPerPage pageSizeCells at *
    by_cases hfirst : k * 64 ≤ lo
    · exact ⟨0, by omega, by omega⟩
    · exact ⟨k * 64 - lo, by omega, by omega⟩

theorem markCardsSpanned_le {h : PageHeap} {lo hi k : Nat} (hk : h.cards k = true) :
    (h.markCardsSpanned lo hi).cards k = true := by
  unfold markCardsSpanned
  simp [hk]

theorem allocDest_some {h h' : PageHeap} {destGen : Generation} {o : ObjInfo} {dest : Nat}
    (hP : PagesOk h) (hR : RegionsOk h) (hwf : o.WellFormed)
    (halloc : h.allocDest destGen o.isCons o.totalCells = (some dest, h')) :
    ∃ h₁, Allocated h h' destGen (destKind o.isCons) dest o.totalCells o.isCons h₁ := by
  unfold allocDest at halloc
  cases hcons : o.isCons with
  | true =>
      rw [hcons] at halloc
      rw [hwf.cons hcons]
      exact tryAllocInRegion_some hP (hR _ _) (by decide) halloc
  | false =>
      rw [hcons] at halloc
      simp only [Bool.false_eq_true, if_false, tryAllocBoxedIn] at halloc
      split at halloc
      · cases halloc
      · exact tryAllocInRegion_some hP (hR _ _) hwf.pos halloc

section Allocated

variable {h h' h₁ : PageHeap} {g : Generation} {k : PageKind} {cell n : Nat} {isCons : Bool}

theorem Allocated.mem (hA : Allocated h h' g k cell n isCons h₁) : h'.mem = h₁.mem := by
  rw [hA.result]
  unfold countBytes markStart
  split <;> rfl

theorem Allocated.descs (hA : Allocated h h' g k cell n isCons h₁) : h'.descs = h₁.descs := by
  rw [hA.result]
  unfold countBytes markStart
  split <;> rfl

theorem Allocated.allocRegions (hA : Allocated h h' g k cell n isCons h₁) :
    h'.allocRegions = h₁.allocRegions := by
  rw [hA.result]
  unfold countBytes markStart
  split <;> rfl

theorem Allocated.committed (hA : Allocated h h' g k cell n isCons h₁) :
    h'.committed = h₁.committed := by
  rw [hA.result]
  unfold countBytes markStart
  split <;> rfl

theorem Allocated.cards (hA : Allocated h h' g k cell n isCons h₁) : h'.cards = h.cards := by
  rw [hA.result, ← hA.reserved.cards]
  unfold countBytes markStart
  split <;> rfl

theorem Allocated.control (hA : Allocated h h' g k cell n isCons h₁) : SameControl h h' := by
  refine hA.reserved.control.trans ?_
  rw [hA.result]
  unfold countBytes markStart
  split <;> exact ⟨rfl, rfl, rfl, rfl, rfl, rfl, rfl⟩

/-- The start bit of a fresh object. -/
theorem Allocated.startBits {L : HeapLayout} {T : ObjTable} {K : Forwarding} {o : ObjInfo}
    (hA : Allocated h h' g k cell n o.isCons h₁) (hS : Shape L h₁ T K) (hT : T cell = none)
    (hlive : h₁.genAt cell ≠ .Free) :
    h'.startBits = Function.update h₁.startBits cell o.startPair := by
  have hnone := hS.start cell hlive
  rw [hT] at hnone
  rw [hA.result]
  unfold countBytes markStart ObjInfo.startPair
  cases o.isCons with
  | true => rfl
  | false =>
      show Function.update h₁.startBits cell (h₁.startBits cell).orHeader = _
      rw [hnone]
      rfl

end Allocated

section CopyOne

variable {L : HeapLayout} {h ha h₁ : PageHeap} {T : ObjTable} {K : Forwarding} {g : Generation}
  {o : ObjInfo} {src dest : Nat}

theorem destKind_ne_large (isCons : Bool) : destKind isCons ≠ .Large := by
  cases isCons <;> decide

theorem Allocated.fresh (hA : Allocated h ha g (destKind o.isCons) dest o.totalCells o.isCons h₁)
    (hS : Shape L h T K) (hwf : o.WellFormed) : T dest = none := by
  rw [Option.eq_none_iff_forall_ne_some]
  intro o' ho'
  have hpos := hwf.pos
  have hpos' := (hS.wf ho').pos
  rcases hA.reserved.gap hS (destKind_small _) dest o' ho' with hle | hle <;> omega

/-- An object that is copied away from a heap of the right shape leaves one. -/
theorem Shape.copyObject (hS : Shape L h T K)
    (hA : Allocated h ha g (destKind o.isCons) dest o.totalCells o.isCons h₁) (hg : g ≠ .Free)
    (hsrc : T src = some o) (hK : K src = none) (hnot : ∀ c, K c ≠ some src) :
    Shape L (ha.forwardObject L src dest o.totalCells) (Function.update T dest (some o))
      (Function.update K src (some dest)) := by
  have hwf := hS.wf hsrc
  have hpos := hwf.pos
  have hV := hA.reserved
  have hS₁ := hV.shape hS hg (destKind_small _)
  have hgap := hV.gap hS (destKind_small _)
  have hTdest := hA.fresh hS hwf
  have hlive : h₁.genAt dest ≠ .Free := by rw [hV.generation]; exact hg
  have hne : src ≠ dest := by
    rintro rfl
    rw [hsrc] at hTdest
    cases hTdest
  have hmemOld : ∀ c o', T c = some o' → h₁.mem c = h.mem c := fun c o' hc => hV.mem c (hS.live hc)
  have hcopied : (ha.copyCells src dest o.totalCells).mem dest = h.mem src := by
    show (if dest ≤ dest ∧ dest < dest + o.totalCells then ha.mem (dest - dest + src)
      else ha.mem dest) = h.mem src
    rw [if_pos ⟨Nat.le_refl _, by omega⟩, Nat.sub_self, Nat.zero_add, hA.mem]
    exact hmemOld src o hsrc
  have hplaced : Shape L (ha.copyCells src dest o.totalCells) (Function.update T dest (some o)) K := by
    refine hS₁.place (hA.control.base.trans hV.control.base.symm)
      (hA.control.nPages.trans hV.control.nPages.symm) ?_ hA.committed
      (fun k hk => Or.inl (by rw [hV.cards, ← hA.cards]; exact hk)) hlive ?_ hwf ?_ ?_ hgap ?_ ?_ ?_ ?_
    · intro p
      show (h₁.descs p).SameRole (ha.descs p)
      rw [hA.descs]
      exact PageDesc.SameRole.refl _
    · rw [hV.kind]
      exact destKind_ne_large _
    · rw [hV.used]
    · intro hk
      rw [hV.kind] at hk
      revert hk
      cases o.isCons <;> simp [destKind]
    · exact hA.startBits hS₁ hTdest hlive
    · intro c o' hc
      show (if dest ≤ c ∧ c < dest + o.totalCells then ha.mem (c - dest + src) else ha.mem c) = _
      rw [if_neg, hA.mem]
      have hpos' := (hS.wf hc).pos
      rcases hgap c o' hc with hle | hle <;> omega
    · intro hcons
      rw [hcopied]
      exact (hS.obj src o hsrc).header hK hcons
    · rw [hcopied, plainWord_congr hV.control.base hV.control.nPages]
      exact (hS.obj src o hsrc).plain hK
  have hKdest : K dest = none := by
    rw [Option.eq_none_iff_forall_ne_some]
    intro d hd
    obtain ⟨o', ho', -, -⟩ := hS.moved dest d hd
    rw [hTdest] at ho'
    cases ho'
  refine hplaced.forward rfl rfl (fun p => PageDesc.SameRole.refl _) rfl ?_ rfl (o := o) ?_ ?_ hne
    hKdest hnot ?_ ?_
  · -- the cards over the copy
    intro k hk
    refine (markCardsSpanned_new hk).imp_right ?_
    rintro ⟨i, hi, hpage⟩
    rw [hpage]
    exact hplaced.committed (Function.update_self ..) hi
  · rw [Function.update_of_ne hne]
    exact hsrc
  · exact Function.update_self ..
  · rw [forwardObject_mem, if_pos rfl]
    rfl
  · intro c o' _ hc
    rw [forwardObject_mem, if_neg hc]
    rfl

end CopyOne

/-! ## The invariant of phase 1 -/

/-- The objects of a list of pages that phase 1 copies. -/
structure ToCopy (h : PageHeap) (T : ObjTable) (fromGen : Generation) (c : Nat) : Prop where
  object : (T c).isSome
  generation : h.genAt c = fromGen
  small : h.kindAt c ≠ .Large
  marked : h.isMarked c = true
  unpinned : h.isPinnedCell c = false

/-- Phase 1 has copied the objects in `passed`, starting from the heap `h` with table `T`; `rest` is
the part of the page snapshot that is still to be processed. -/
structure Copying (L : HeapLayout) (fromGen destGen : Generation) (rest : List Nat) (h : PageHeap)
    (T : ObjTable) (passed : Nat → Prop) (hc : PageHeap) (Tc : ObjTable) (K : Forwarding) : Prop
    where
  shape : Shape L hc Tc K
  regions : RegionsOk hc
  regionsAway : ∀ g k p, (hc.allocRegions g k).currentPage = some p → p ∉ rest
  control : SameControl h hc
  dom : ∀ c, (K c).isSome ↔ ToCopy h T fromGen c ∧ passed c
  old : ∀ c o, T c = some o → Tc c = some o
  new : ∀ d o, Tc d = some o → T d = some o ∨ ∃ c, K c = some d ∧ T c = some o
  copy : ∀ c d, K c = some d → T d = none ∧ hc.genAt d = destGen ∧ d / pageSizeCells ∉ rest
  inj : ∀ c c' d, K c = some d → K c' = some d → c = c'
  keeps : ∀ c o i, T c = some o → i < o.totalCells → (i = 0 → K c = none) →
    hc.mem (c + i) = h.mem (c + i)
  content : ∀ c d o i, K c = some d → T c = some o → i < o.totalCells →
    hc.mem (d + i) = h.mem (c + i)
  role : ∀ p, (h.descs p).generation ≠ .Free → (hc.descs p).generation = (h.descs p).generation ∧
    (hc.descs p).kind = (h.descs p).kind ∧ (hc.descs p).pinByte = (h.descs p).pinByte ∧
    (hc.descs p).nSpan = (h.descs p).nSpan
  opened : ∀ p, (h.descs p).generation = .Free → hc.descs p = h.descs p ∨
    ((hc.descs p).generation = destGen ∧ ((hc.descs p).kind = .Cons ∨ (hc.descs p).kind = .Boxed) ∧
      (hc.descs p).pinByte = 0 ∧ p ∉ rest)
  listed : ∀ p ∈ rest, hc.descs p = h.descs p
  cards : ∀ k, h.cards k = true → hc.cards k = true
  copyCards : ∀ c d o i, K c = some d → T c = some o → i < o.totalCells →
    hc.cards ((d + i) / cardSizeCells) = true
  copySmall : ∀ c d, K c = some d → hc.kindAt d ≠ .Large
  -- an opened page holds a copy at its first cell
  first : ∀ p, (h.descs p).generation = .Free → (hc.descs p).generation ≠ .Free →
    (Tc (p * pageSizeCells)).isSome
  used : ∀ p, (h.descs p).generation ≠ .Free → (h.descs p).wordsUsed ≤ (hc.descs p).wordsUsed
  late : ∀ d o, Tc d = some o → T d = none → h.genAt d ≠ .Free →
    (h.descs (d / pageSizeCells)).wordsUsed ≤ d % pageSizeCells

namespace Copying

variable {L : HeapLayout} {fromGen destGen : Generation} {rest : List Nat} {h hc ha h₁ : PageHeap}
  {T Tc : ObjTable} {K : Forwarding} {passed : Nat → Prop} {o : ObjInfo} {src dest : Nat}

theorem weaken {passed' : Nat → Prop} (hI : Copying L fromGen destGen rest h T passed hc Tc K)
    (hiff : ∀ c, ToCopy h T fromGen c → (passed c ↔ passed' c)) :
    Copying L fromGen destGen rest h T passed' hc Tc K :=
  { hI with
    dom := fun c => (hI.dom c).trans (and_congr_right fun hto => hiff c hto) }

/-- A destination page is not listed any more. -/
theorem dest_not_listed (hI : Copying L fromGen destGen rest h T passed hc Tc K)
    (hV : Reserved hc h₁ destGen (destKind o.isCons) dest o.totalCells)
    (hreuse : hc.genAt dest = .Free → dest / pageSizeCells ∉ rest) :
    dest / pageSizeCells ∉ rest := by
  rcases hV.source with ⟨hfree, -, -⟩ | ⟨-, -, hpage, -, -, -⟩
  · exact hreuse hfree
  · exact hI.regionsAway _ _ _ hpage

/-- One more object is copied. -/
theorem step (hI : Copying L fromGen destGen rest h T passed hc Tc K)
    (hA : Allocated hc ha destGen (destKind o.isCons) dest o.totalCells o.isCons h₁)
    (hdestGen : destGen ≠ .Free) (hsrc : T src = some o) (hto : ToCopy h T fromGen src)
    (hnew : ¬ passed src) (hreuse : hc.genAt dest = .Free → dest / pageSizeCells ∉ rest) :
    Copying L fromGen destGen rest h T (fun c => passed c ∨ c = src)
      (ha.forwardObject L src dest o.totalCells) (Function.update Tc dest (some o))
      (Function.update K src (some dest)) := by
  have hV := hA.reserved
  have hS := hI.shape
  have hsrc' := hI.old src o hsrc
  have hwf := hS.wf hsrc'
  have hK : K src = none := by
    rw [← Option.not_isSome_iff_eq_none]
    intro hsome
    exact hnew ((hI.dom src).1 hsome).2
  have hnot : ∀ c, K c ≠ some src := by
    intro c hc
    have hnone := (hI.copy c src hc).1
    rw [hsrc] at hnone
    cases hnone
  have hfresh := hA.fresh hS hwf
  have hTdest : T dest = none := by
    rw [Option.eq_none_iff_forall_ne_some]
    intro o' ho'
    rw [hI.old dest o' ho'] at hfresh
    cases hfresh
  have hgap := hV.gap hS (destKind_small _)
  have hlisted := hI.dest_not_listed hV hreuse
  have hother : ∀ p, p ≠ dest / pageSizeCells → h₁.descs p = hc.descs p := by
    intro p hp
    rw [hV.descs, Function.update_of_ne hp]
  have hmem : ∀ x, hc.genAt x ≠ .Free → x ≠ src → (x < dest ∨ dest + o.totalCells ≤ x) →
      (ha.forwardObject L src dest o.totalCells).mem x = hc.mem x := by
    intro x hlive hx hout
    rw [forwardObject_mem, if_neg hx, if_neg (by omega), hA.mem]
    exact hV.mem x hlive
  have hobj : ∀ c o', Tc c = some o' → ∀ i, i < o'.totalCells → c + i ≠ src →
      (ha.forwardObject L src dest o.totalCells).mem (c + i) = hc.mem (c + i) := by
    intro c o' hc' i hi hne
    refine hmem (c + i) ?_ hne ?_
    · rw [hS.genAt_inside hc' hi]
      exact hS.live hc'
    · rcases hgap c o' hc' with hle | hle <;> omega
  have hsrcDest : src + o.totalCells ≤ dest ∨ dest + o.totalCells ≤ src := hgap src o hsrc'
  have hpos := hwf.pos
  constructor
  · exact hS.copyObject hA hdestGen hsrc' hK hnot
  · intro g k p hp
    have hR := hV.regions hI.regions hdestGen (destKind_small _)
    have hp' : (h₁.allocRegions g k).currentPage = some p := by
      rw [← hA.allocRegions]
      exact hp
    have hR' := hR g k p hp'
    rw [forwardObject_descs, forwardObject_allocRegions, hA.descs, hA.allocRegions]
    exact hR'
  · intro g k p hp
    rw [forwardObject_allocRegions, hA.allocRegions] at hp
    by_cases heq : (g, k) = (destGen, destKind o.isCons)
    · cases heq
      rw [hV.region] at hp
      cases hp
      exact hlisted
    · rw [hV.otherRegion g k heq] at hp
      exact hI.regionsAway g k p hp
  · exact (hI.control.trans hA.control).trans ⟨rfl, rfl, rfl, rfl, rfl, rfl, rfl⟩
  · intro c
    by_cases hc' : c = src
    · subst hc'
      simp [hto]
    · rw [Function.update_of_ne hc', hI.dom c]
      simp [hc']
  · intro c o' hc'
    have hne : c ≠ dest := by
      rintro rfl
      rw [hc'] at hTdest
      cases hTdest
    rw [Function.update_of_ne hne]
    exact hI.old c o' hc'
  · intro d o' hd
    by_cases hd' : d = dest
    · subst hd'
      rw [Function.update_self] at hd
      cases hd
      exact Or.inr ⟨src, Function.update_self .., hsrc⟩
    · rw [Function.update_of_ne hd'] at hd
      rcases hI.new d o' hd with hT | ⟨c, hc', hT⟩
      · exact Or.inl hT
      · refine Or.inr ⟨c, ?_, hT⟩
        have hne : c ≠ src := by
          rintro rfl
          rw [hK] at hc'
          cases hc'
        rw [Function.update_of_ne hne]
        exact hc'
  · intro c d hKc
    by_cases hc' : c = src
    · subst hc'
      rw [Function.update_self] at hKc
      cases hKc
      refine ⟨hTdest, ?_, hlisted⟩
      unfold genAt
      rw [forwardObject_descs, hA.descs]
      exact hV.generation
    · rw [Function.update_of_ne hc'] at hKc
      obtain ⟨hTd, hgd, hld⟩ := hI.copy c d hKc
      refine ⟨hTd, ?_, hld⟩
      unfold genAt at hgd ⊢
      rw [forwardObject_descs, hA.descs]
      by_cases hp : d / pageSizeCells = dest / pageSizeCells
      · rw [hp]
        exact hV.generation
      · rw [hother _ hp]
        exact hgd
  · intro c c' d hKc hKc'
    have hnodest : ∀ x, K x ≠ some dest := by
      intro x hx
      obtain ⟨o', -, hd, -⟩ := hS.moved x dest hx
      rw [hfresh] at hd
      cases hd
    by_cases hc : c = src <;> by_cases hc' : c' = src
    · rw [hc, hc']
    · subst hc
      rw [Function.update_self] at hKc
      cases hKc
      rw [Function.update_of_ne hc'] at hKc'
      exact absurd hKc' (hnodest c')
    · subst hc'
      rw [Function.update_self] at hKc'
      cases hKc'
      rw [Function.update_of_ne hc] at hKc
      exact absurd hKc (hnodest c)
    · rw [Function.update_of_ne hc] at hKc
      rw [Function.update_of_ne hc'] at hKc'
      exact hI.inj c c' d hKc hKc'
  · intro c o' i hc' hi hfirst
    have hT := hI.old c o' hc'
    have hne : c + i ≠ src := by
      intro heq
      have hcs := hS.cell_inj hT hsrc' hi hpos (k := 0) heq
      subst hcs
      have hi0 : i = 0 := by omega
      have := hfirst hi0
      rw [Function.update_self] at this
      cases this
    rw [hobj c o' hT i hi hne]
    refine hI.keeps c o' i hc' hi ?_
    intro hi0
    have hnone := hfirst hi0
    rwa [Function.update_of_ne (by omega)] at hnone
  · intro c d o' i hKc hc' hi
    by_cases hcs : c = src
    · subst hcs
      rw [Function.update_self] at hKc
      cases hKc
      rw [hsrc] at hc'
      cases hc'
      rw [forwardObject_mem, if_neg (by omega), if_pos ⟨by omega, by omega⟩, hA.mem,
        show dest + i - dest + c = c + i by omega]
      rw [hV.mem (c + i) (by rw [hS.genAt_inside hsrc' hi]; exact hS.live hsrc')]
      exact hI.keeps c o i hsrc hi fun _ => hK
    · rw [Function.update_of_ne hcs] at hKc
      obtain ⟨o₂, hTc₂, hTd, -⟩ := hS.moved c d hKc
      have ho₂ : o₂ = o' := by
        have := hI.old c o' hc'
        rw [hTc₂] at this
        exact Option.some.inj this
      subst ho₂
      have hne : d + i ≠ src := by
        intro heq
        have hds := hS.cell_inj hTd hsrc' hi hpos (k := 0) heq
        subst hds
        have := (hI.copy c d hKc).1
        rw [hsrc] at this
        cases this
      rw [hobj d o₂ hTd i hi hne]
      exact hI.content c d o₂ i hKc hc' hi
  · intro p hlive
    obtain ⟨hgen, hkind, hpin, hspan⟩ := hI.role p hlive
    rw [forwardObject_descs, hA.descs]
    by_cases hp : p = dest / pageSizeCells
    · rcases hV.source with ⟨hfree, -, -⟩ | ⟨hg₀, hk₀, -, -, hp₀, hs₀⟩
      · unfold genAt at hfree
        rw [← hp, hgen] at hfree
        exact absurd hfree hlive
      · have hg₁ := hV.generation
        have hk₁ := hV.kind
        unfold genAt at hg₀ hg₁
        unfold kindAt at hk₀ hk₁
        rw [← hp] at hg₀ hg₁ hk₀ hk₁ hp₀ hs₀
        exact ⟨by rw [hg₁, ← hg₀, hgen], by rw [hk₁, ← hk₀, hkind], by rw [hp₀, hpin],
          by rw [hs₀, hspan]⟩
    · rw [hother p hp]
      exact ⟨hgen, hkind, hpin, hspan⟩
  · intro p hfree
    rw [forwardObject_descs, hA.descs]
    by_cases hp : p = dest / pageSizeCells
    · right
      have hg₁ := hV.generation
      have hk₁ := hV.kind
      unfold genAt at hg₁
      unfold kindAt at hk₁
      rw [← hp] at hg₁ hk₁ hlisted
      refine ⟨hg₁, by rw [hk₁]; exact destKind_small _, ?_, hlisted⟩
      rcases hV.source with ⟨-, -, hpin⟩ | ⟨hg₀, -, -, -, hp₀, -⟩
      · rw [hp]
        exact hpin
      · unfold genAt at hg₀
        rw [← hp] at hg₀ hp₀
        rcases hI.opened p hfree with hsame | ⟨-, -, hpin, -⟩
        · rw [hsame, hfree] at hg₀
          exact absurd hg₀.symm hdestGen
        · rw [hp₀, hpin]
    · rw [hother p hp]
      exact hI.opened p hfree
  · intro p hp
    have hne : p ≠ dest / pageSizeCells := by
      rintro rfl
      exact hlisted hp
    rw [forwardObject_descs, hA.descs, hother p hne]
    exact hI.listed p hp
  · intro k hk
    rw [forwardObject_cards]
    refine markCardsSpanned_le ?_
    rw [hA.cards]
    exact hI.cards k hk
  · intro c d o' i hKc hc' hi
    rw [forwardObject_cards]
    by_cases hcs : c = src
    · subst hcs
      rw [Function.update_self] at hKc
      cases hKc
      rw [hsrc] at hc'
      cases hc'
      refine markCardsSpanned_cards hi ?_
      have hlt := hV.lt
      have hfits := hV.fits
      have hn := hA.control.nPages
      unfold totalCells pageSizeCells at *
      rw [hn]
      omega
    · rw [Function.update_of_ne hcs] at hKc
      refine markCardsSpanned_le ?_
      rw [hA.cards]
      exact hI.copyCards c d o' i hKc hc' hi
  · intro c d hKc
    unfold kindAt
    rw [forwardObject_descs, hA.descs]
    by_cases hp : d / pageSizeCells = dest / pageSizeCells
    · have hk₁ := hV.kind
      unfold kindAt at hk₁
      rw [hp, hk₁]
      exact destKind_ne_large _
    · rw [hother _ hp]
      by_cases hcs : c = src
      · subst hcs
        rw [Function.update_self] at hKc
        cases hKc
        exact absurd rfl hp
      · rw [Function.update_of_ne hcs] at hKc
        exact hI.copySmall c d hKc
  · intro p hfree hlive
    rw [forwardObject_descs, hA.descs] at hlive
    by_cases hpd : p * pageSizeCells = dest
    · rw [hpd, Function.update_self]
      rfl
    · rw [Function.update_of_ne hpd]
      refine hI.first p hfree ?_
      by_cases hp : p = dest / pageSizeCells
      · rcases hV.source with ⟨-, hmod, -⟩ | ⟨hg₀, -, -, -, -, -⟩
        · unfold pageSizeCells at *
          omega
        · unfold genAt at hg₀
          rw [hp, hg₀]
          exact hdestGen
      · rwa [hother p hp] at hlive
  · intro p hlive
    rw [forwardObject_descs, hA.descs]
    have hold := hI.used p hlive
    by_cases hp : p = dest / pageSizeCells
    · have hu := hV.used
      rw [← hp] at hu
      rw [hu]
      rcases hV.source with ⟨hfree, -, -⟩ | ⟨-, -, -, hw, -, -⟩
      · unfold genAt at hfree
        rw [← hp, (hI.role p hlive).1] at hfree
        exact absurd hfree hlive
      · rw [← hp] at hw
        omega
    · rw [hother p hp]
      exact hold
  · intro d o' hd hTd hlive
    by_cases hdd : d = dest
    · subst hdd
      have hold := hI.used _ hlive
      rcases hV.source with ⟨hfree, -, -⟩ | ⟨-, -, -, hw, -, -⟩
      · unfold genAt at hfree hlive
        rw [(hI.role _ hlive).1] at hfree
        exact absurd hfree hlive
      · omega
    · rw [Function.update_of_ne hdd] at hd
      exact hI.late d o' hd hTd hlive

end Copying

/-! ## The loops of phase 1 -/

/-- The only panic a sound collection may raise. -/
def GcPanic.IsOom : GcPanic → Prop
  | .midEvacOom _ => True
  | _ => False

/-- The pages of `rest` that are free in `h` are free still. -/
def SparesListed (rest : List Nat) (h : PageHeap) (s : CopyState) : Prop :=
  ∀ q ∈ rest, (h.descs q).generation = .Free → (s.heap.descs q).generation = .Free

/-- Phase 1 of the chunk opens no page of `rest`. -/
def PageHeap.Undisturbed (L : HeapLayout) (h : PageHeap) (fromGen destGen : Generation)
    (chunk rest : List Nat) (total : EvacResult) : Prop :=
  FoldMeets (phase1ChunkPage L fromGen destGen total)
    (fun s q => (s.heap.descs q).generation = fromGen → (s.heap.descs q).kind ≠ .Large →
      CellLoopMeets (q * pageSizeCells + (s.heap.descs q).wordsUsed)
        (phase1Cell L fromGen destGen total) (SparesListed rest h) (s.heap.descs q).wordsUsed
        (q * pageSizeCells) s)
    chunk { heap := h, objs := 0, cells := 0 }

/-- Where no listed page is free there is none to open. -/
theorem PageHeap.undisturbed_of_busy (L : HeapLayout) {h : PageHeap} (fromGen destGen : Generation)
    (chunk : List Nat) {rest : List Nat} (total : EvacResult)
    (hbusy : ∀ q ∈ rest, (h.descs q).generation ≠ .Free) :
    h.Undisturbed L fromGen destGen chunk rest total :=
  .of_forall (fun s _ _ _ => .of_forall (fun _ q hq hfree => absurd hfree (hbusy q hq)) _ _ s) _ _

/-- What phase 1 is given: the heap before the chunk and its table, the chunk and what the snapshot
still lists. -/
structure ChunkStart (L : HeapLayout) (fromGen destGen : Generation) (chunk rest : List Nat)
    (h : PageHeap) (T : ObjTable) : Prop where
  shape : Shape L h T Forwarding.empty
  regions : RegionsOk h
  regionsAway : ∀ g k p, (h.allocRegions g k).currentPage = some p → p ∉ rest
  fromLive : fromGen ≠ .Free
  destLive : destGen ≠ .Free
  listed : ∀ q ∈ chunk, q ∈ rest
  nodup : chunk.Nodup

section Phase1

variable {L : HeapLayout} {fromGen destGen : Generation} {chunk rest : List Nat} {h : PageHeap}
  {T : ObjTable}

/-- Nothing is copied yet. -/
theorem ChunkStart.copying (hX : ChunkStart L fromGen destGen chunk rest h T) :
    Copying L fromGen destGen rest h T (fun _ => False) h T Forwarding.empty where
  shape := hX.shape
  regions := hX.regions
  regionsAway := hX.regionsAway
  control := SameControl.refl h
  dom := fun c => by simp
  old := fun _ _ hc => hc
  new := fun _ _ hd => Or.inl hd
  copy := fun _ _ hK => by cases hK
  inj := fun _ _ _ hK => by cases hK
  keeps := fun _ _ _ _ _ _ => rfl
  content := fun _ _ _ _ hK => by cases hK
  role := fun _ _ => ⟨rfl, rfl, rfl, rfl⟩
  opened := fun _ _ => Or.inl rfl
  listed := fun _ _ => rfl
  cards := fun _ hk => hk
  copyCards := fun _ _ _ _ hK => by cases hK
  copySmall := fun _ _ hK => by cases hK
  first := fun _ hfree hlive => absurd hfree hlive
  used := fun _ _ => Nat.le_refl _
  late := fun d o hd hT => by rw [hd] at hT; cases hT

theorem isPinnedCell_congr {h h' : PageHeap} {c : Nat} (hC : SameControl h h')
    (hd : h'.descs (c / pageSizeCells) = h.descs (c / pageSizeCells)) :
    h'.isPinnedCell c = h.isPinnedCell c := by
  unfold isPinnedCell
  rw [hC.nPages, hC.pinnedCells, hd]

theorem isMarked_congr {h h' : PageHeap} {c : Nat} (hC : SameControl h h') :
    h'.isMarked c = h.isMarked c := by
  unfold isMarked
  rw [hC.markBits]

/-- Cells passed when the pages `done` and the cells of page `q` below `c` are. -/
def PassedAt (done : List Nat) (q c x : Nat) : Prop :=
  x / pageSizeCells ∈ done ∨ (x / pageSizeCells = q ∧ x < c)

/-- The state of the walk at cell `c` of page `q`. -/
def WalkAt (L : HeapLayout) (fromGen destGen : Generation) (rest : List Nat) (h : PageHeap)
    (T : ObjTable) (done : List Nat) (q c : Nat) (s : CopyState) : Prop :=
  q * pageSizeCells ≤ c ∧
    ∃ Tc K, Copying L fromGen destGen rest h T (PassedAt done q c) s.heap Tc K

/-- The walk moves past cells among which nothing is to be copied. -/
theorem WalkAt.advance {done : List Nat} {q c n : Nat} {s : CopyState}
    (hW : WalkAt L fromGen destGen rest h T done q c s)
    (hnone : ∀ i, i < n → ¬ ToCopy h T fromGen (c + i)) :
    WalkAt L fromGen destGen rest h T done q (c + n) s := by
  obtain ⟨hq, Tc, K, hI⟩ := hW
  refine ⟨by omega, Tc, K, hI.weaken ?_⟩
  intro x hx
  unfold PassedAt
  constructor
  · rintro (hd | ⟨hp, hlt⟩)
    · exact Or.inl hd
    · exact Or.inr ⟨hp, by omega⟩
  · rintro (hd | ⟨hp, hlt⟩)
    · exact Or.inl hd
    · refine Or.inr ⟨hp, ?_⟩
      by_contra hge
      exact hnone (x - c) (by omega) (by rwa [Nat.add_sub_cancel' (Nat.le_of_not_lt hge)])

theorem WalkAt.skip {done : List Nat} {q c : Nat} {s : CopyState}
    (hW : WalkAt L fromGen destGen rest h T done q c s)
    (hnot : ¬ ((T c).isSome = true ∧ h.isMarked c = true ∧ h.isPinnedCell c = false)) :
    WalkAt L fromGen destGen rest h T done q (c + 1) s := by
  refine hW.advance (n := 1) ?_
  intro i hi hto
  have hi0 : i = 0 := by omega
  subst hi0
  exact hnot ⟨hto.object, hto.marked, hto.unpinned⟩

/-- An object that stays is passed as a whole. -/
theorem WalkAt.skipObject {done : List Nat} {q c : Nat} {s : CopyState} {o : ObjInfo}
    (hX : ChunkStart L fromGen destGen chunk rest h T)
    (hW : WalkAt L fromGen destGen rest h T done q c s) (hc : T c = some o)
    (hpin : h.isPinnedCell c = true) :
    WalkAt L fromGen destGen rest h T done q (c + o.totalCells) s := by
  refine hW.advance ?_
  intro i hi hto
  rcases Nat.eq_zero_or_pos i with rfl | hpos
  · have := hto.unpinned
    rw [Nat.add_zero, hpin] at this
    cases this
  · obtain ⟨o', ho'⟩ := Option.isSome_iff_exists.1 hto.object
    exact hX.shape.no_start_inside hc hi hpos ho'

theorem Shape.startedObjectSize {hc : PageHeap} {Tc : ObjTable} {K : Forwarding} {c : Nat}
    {o : ObjInfo} (hS : Shape L hc Tc K) (hT : Tc c = some o) (hK : K c = none) :
    hc.startedObjectSize L c o.isCons = .ok o.totalCells := by
  unfold PageHeap.startedObjectSize
  cases hcons : o.isCons with
  | true =>
      rw [(hS.wf hT).cons hcons]
      rfl
  | false =>
      rw [(hS.obj c o hT).header hK hcons, if_neg (by simp), hS.accessHead hT]
      rfl

/-- Source and destination of a copy have their backing. -/
theorem Allocated.accessCopy {hc ha h₁ : PageHeap} {Tc : ObjTable} {K : Forwarding}
    {g : Generation} {c dest : Nat} {o : ObjInfo} (hS : Shape L hc Tc K)
    (hA : Allocated hc ha g (destKind o.isCons) dest o.totalCells o.isCons h₁) (hg : g ≠ .Free)
    (hc' : Tc c = some o) :
    ha.access c o.totalCells = .ok () ∧ ha.access dest o.totalCells = .ok () := by
  have hS₁ := hA.reserved.shape hS hg (destKind_small _)
  have hpos := (hS.wf hc').pos
  unfold PageHeap.access
  rw [require_eq_ok, require_eq_ok, backed_iff, backed_iff, hA.committed]
  refine ⟨fun i hi => hS₁.committed hc' hi, fun i hi => hS₁.pages.backing.live _ ?_⟩
  -- the reserved cells lie on one page
  have hfits := hA.reserved.fits
  have hpage : (dest + i) / pageSizeCells = dest / pageSizeCells := by
    unfold pageSizeCells at *
    omega
  have hgen := hA.reserved.generation
  unfold genAt at hgen
  rw [hpage, hgen]
  exact hg

/-- Copying one object: the walk goes on behind it. -/
theorem WalkAt.copy {done : List Nat} {q c dest : Nat} {s : CopyState} {o : ObjInfo}
    {ha : PageHeap} (hX : ChunkStart L fromGen destGen chunk rest h T)
    (hW : WalkAt L fromGen destGen rest h T done q c s) (hc : T c = some o)
    (hto : ToCopy h T fromGen c) (hcq : c / pageSizeCells = q) (hqd : q ∉ done)
    (halloc : s.heap.allocDest destGen o.isCons o.totalCells = (some dest, ha)) {objs cells : Nat}
    (hspares : SparesListed rest h
      { heap := ha.forwardObject L c dest o.totalCells, objs := objs, cells := cells }) :
    WalkAt L fromGen destGen rest h T done q (c + o.totalCells)
      { heap := ha.forwardObject L c dest o.totalCells, objs := objs, cells := cells } := by
  obtain ⟨hq, Tc, K, hI⟩ := hW
  have hwf := hX.shape.wf hc
  have hpos := hwf.pos
  obtain ⟨h₁, hA⟩ := allocDest_some hI.shape.pages hI.regions hwf halloc
  have hreuse : s.heap.genAt dest = .Free → dest / pageSizeCells ∉ rest := by
    intro hfree hrest
    -- a listed page the copy opened would not be free any more
    have hstill : (h₁.descs (dest / pageSizeCells)).generation = .Free := by
      have hfree₀ : (h.descs (dest / pageSizeCells)).generation = .Free := by
        rw [← hI.listed _ hrest]
        exact hfree
      have hafter := hspares _ hrest hfree₀
      simp only [forwardObject_descs] at hafter
      rwa [hA.descs] at hafter
    have hopened := hA.reserved.generation
    unfold genAt at hopened
    rw [hopened] at hstill
    exact hX.destLive hstill
  have hnew : ¬ PassedAt done q c c := by
    rintro (hd | ⟨-, hlt'⟩)
    · exact hqd (hcq ▸ hd)
    · omega
  refine ⟨by omega, _, _, (hI.step hA hX.destLive hc hto hnew hreuse).weaken ?_⟩
  intro x hx
  unfold PassedAt
  constructor
  · rintro ((hd | ⟨hp, hlt'⟩) | rfl)
    · exact Or.inl hd
    · exact Or.inr ⟨hp, by omega⟩
    · exact Or.inr ⟨hcq, by omega⟩
  · rintro (hd | ⟨hp, hlt'⟩)
    · exact Or.inl (Or.inl hd)
    · by_cases hxc : x < c
      · exact Or.inl (Or.inr ⟨hp, hxc⟩)
      · right
        obtain ⟨o', ho'⟩ := Option.isSome_iff_exists.1 hx.object
        have := hX.shape.cell_inj hc ho' (i := x - c) (k := 0) (by omega) (hX.shape.wf ho').pos
          (by omega)
        exact this.symm

/-- One round of the cell loop. -/
theorem phase1Cell_walk (hX : ChunkStart L fromGen destGen chunk rest h T) {done : List Nat}
    {q : Nat} (hrest : q ∈ rest) (hqd : q ∉ done) (hgen : (h.descs q).generation = fromGen)
    (hkind : (h.descs q).kind ≠ .Large) (total : EvacResult) (c : Nat) (s : CopyState)
    (hlt : c < q * pageSizeCells + (h.descs q).wordsUsed)
    (hW : WalkAt L fromGen destGen rest h T done q c s)
    (hspares : ∀ r, phase1Cell L fromGen destGen total c s = .ok r → SparesListed rest h r.2) :
    Outcome GcPanic.IsOom (phase1Cell L fromGen destGen total c s) fun r =>
      1 ≤ r.1 ∧ WalkAt L fromGen destGen rest h T done q (c + r.1) r.2 := by
  have hq := hW.1
  obtain ⟨Tc, K, hI⟩ := hW.2
  have hcq : c / pageSizeCells = q := by
    have := hX.shape.pages.used q
    unfold pageSizeCells at *
    omega
  have hdesc : s.heap.descs (c / pageSizeCells) = h.descs (c / pageSizeCells) := by
    rw [hcq]
    exact hI.listed q hrest
  have hlive : s.heap.genAt c ≠ .Free := by
    unfold genAt
    rw [hdesc, hcq, hgen]
    exact hX.fromLive
  unfold phase1Cell at hspares ⊢
  rw [isMarked_congr hI.control] at hspares ⊢
  by_cases hmark : h.isMarked c = false
  · rw [if_pos hmark]
    exact ⟨Nat.le_refl 1, hW.skip fun hto => by rw [hmark] at hto; exact absurd hto.2.1 (by simp)⟩
  rw [if_neg hmark] at hspares ⊢
  by_cases hstart : s.heap.isStartAt c = false
  · rw [if_pos hstart]
    refine ⟨Nat.le_refl 1, hW.skip fun hto => ?_⟩
    obtain ⟨o, ho⟩ := Option.isSome_iff_exists.1 hto.1
    rw [hI.shape.isStartAt (hI.old c o ho)] at hstart
    cases hstart
  rw [if_neg hstart] at hspares ⊢
  obtain ⟨o, hTc⟩ := (hI.shape.isStartAt_iff hlive).1 (by simpa using hstart)
  have hT : T c = some o := by
    rcases hI.new c o hTc with hT | ⟨x, hx, -⟩
    · exact hT
    · exact absurd (hcq ▸ hrest) (hI.copy x c hx).2.2
  have hKc : K c = none := by
    rw [← Option.not_isSome_iff_eq_none]
    intro hsome
    rcases ((hI.dom c).1 hsome).2 with hd | ⟨-, hlt'⟩
    · exact hqd (hcq ▸ hd)
    · omega
  rw [hI.shape.accessHead hTc, hI.shape.realForwardTargetAt hlive, hKc, Option.map_none,
    Option.isSome_none] at hspares ⊢
  rw [hI.shape.isConsStartAt hTc] at hspares ⊢
  dsimp only [bind, Except.bind, Bool.false_eq_true, if_false] at hspares ⊢
  rw [hI.shape.startedObjectSize hTc hKc] at hspares ⊢
  have hpos := (hX.shape.wf hT).pos
  change ∀ r, (if s.heap.isPinnedCell c = true then _ else _) = _ → _ at hspares
  show Outcome _ (if s.heap.isPinnedCell c = true then _ else _) _
  rw [isPinnedCell_congr hI.control hdesc] at hspares ⊢
  by_cases hpin : h.isPinnedCell c = true
  · rw [if_pos hpin]
    exact ⟨hpos, hW.skipObject hX hT hpin⟩
  rw [if_neg hpin] at hspares ⊢
  have hto : ToCopy h T fromGen c := by
    refine ⟨by rw [hT]; rfl, ?_, ?_, by simpa using hmark, by simpa using hpin⟩
    · unfold genAt
      rw [hcq]
      exact hgen
    · unfold kindAt
      rw [hcq]
      exact hkind
  rcases halloc : s.heap.allocDest destGen o.isCons o.totalCells with ⟨dest | dest, ha⟩
  · trivial
  · obtain ⟨h₁, hA⟩ := allocDest_some hI.shape.pages hI.regions (hX.shape.wf hT) halloc
    obtain ⟨hsrc, hdest⟩ := hA.accessCopy hI.shape hX.destLive hTc
    rw [halloc] at hspares
    simp only [hsrc, hdest] at hspares ⊢
    exact ⟨hpos, hW.copy hX hT hto hcq hqd halloc (hspares _ rfl)⟩

/-- Phase 1 between two pages of the chunk. -/
def BetweenPages (L : HeapLayout) (fromGen destGen : Generation) (rest : List Nat)
    (h : PageHeap) (T : ObjTable) (done : List Nat) (s : CopyState) : Prop :=
  ∃ Tc K, Copying L fromGen destGen rest h T (fun x => x / pageSizeCells ∈ done) s.heap Tc K

/-- A page without objects to copy. -/
theorem BetweenPages.skipPage {done : List Nat} {q : Nat} {s : CopyState}
    (hB : BetweenPages L fromGen destGen rest h T done s)
    (hnone : ∀ x, ToCopy h T fromGen x → x / pageSizeCells ≠ q) :
    BetweenPages L fromGen destGen rest h T (done ++ [q]) s := by
  obtain ⟨Tc, K, hI⟩ := hB
  refine ⟨Tc, K, hI.weaken ?_⟩
  intro x hx
  simp [hnone x hx]

theorem phase1ChunkPage_between (hX : ChunkStart L fromGen destGen chunk rest h T)
    (total : EvacResult) {done : List Nat} {q : Nat} {s : CopyState}
    (hpre : done ++ [q] <+: chunk) (hB : BetweenPages L fromGen destGen rest h T done s)
    (hspares : (s.heap.descs q).generation = fromGen → (s.heap.descs q).kind ≠ .Large →
      CellLoopMeets (q * pageSizeCells + (s.heap.descs q).wordsUsed)
        (phase1Cell L fromGen destGen total) (SparesListed rest h) (s.heap.descs q).wordsUsed
        (q * pageSizeCells) s) :
    Outcome GcPanic.IsOom (phase1ChunkPage L fromGen destGen total s q)
      (BetweenPages L fromGen destGen rest h T (done ++ [q])) := by
  obtain ⟨todo, htodo⟩ := hpre
  have hchunk : chunk = done ++ q :: todo := by rw [← htodo]; simp
  have hrest : q ∈ rest := hX.listed q (by rw [hchunk]; simp)
  have hnodup := hX.nodup
  rw [hchunk, List.nodup_append] at hnodup
  have hqd : q ∉ done := fun hq => hnodup.2.2 q hq q List.mem_cons_self rfl
  have hlisted : s.heap.descs q = h.descs q := by
    obtain ⟨Tc, K, hI⟩ := hB
    exact hI.listed q hrest
  rw [hlisted] at hspares
  unfold phase1ChunkPage
  rw [hlisted]
  simp only
  split
  · rename_i hgen
    refine hB.skipPage fun x hx hxq => hgen ?_
    rw [← hxq]
    exact hx.generation
  · rename_i hgen
    split
    · rename_i hkind
      refine hB.skipPage fun x hx hxq => hx.small ?_
      unfold kindAt
      rw [hxq]
      exact hkind
    · rename_i hkind
      have hgen' : (h.descs q).generation = fromGen := not_not.1 hgen
      have hstart : WalkAt L fromGen destGen rest h T done q (q * pageSizeCells) s := by
        obtain ⟨Tc, K, hI⟩ := hB
        refine ⟨Nat.le_refl _, Tc, K, hI.weaken ?_⟩
        intro x hx
        unfold PassedAt
        constructor
        · exact Or.inl
        · rintro (hd | ⟨hp, hlt⟩)
          · exact hd
          · unfold pageSizeCells at *
            omega
      refine (Outcome.cellLoop_meets (phase1Cell_walk hX hrest hqd hgen' hkind total) _ _ _
        (Nat.le_refl _) hstart (hspares hgen' hkind)).mono ?_
      rintro s' ⟨c', hlast, hq', Tc, K, hI⟩
      refine ⟨Tc, K, hI.weaken ?_⟩
      intro x hx
      unfold PassedAt
      rw [List.mem_append, List.mem_singleton]
      refine or_congr_right (and_iff_left_of_imp fun hxq => ?_)
      obtain ⟨o, ho⟩ := Option.isSome_iff_exists.1 hx.object
      have hin := (hX.shape.obj x o ho).small hx.small
      have hpos := (hX.shape.wf ho).pos
      rw [hxq] at hin
      unfold pageSizeCells at *
      omega

/-- What phase 1 leaves behind. -/
theorem phase1CopyChunk_copying (hX : ChunkStart L fromGen destGen chunk rest h T)
    (total : EvacResult) (hspares : h.Undisturbed L fromGen destGen chunk rest total) :
    Outcome GcPanic.IsOom (h.phase1CopyChunk L fromGen destGen chunk total) fun s =>
      ∃ Tc K, Copying L fromGen destGen rest h T (fun x => x / pageSizeCells ∈ chunk) s.heap Tc K := by
  unfold phase1CopyChunk
  have hstart : BetweenPages L fromGen destGen rest h T [] { heap := h, objs := 0, cells := 0 } :=
    ⟨T, Forwarding.empty, hX.copying.weaken (by simp)⟩
  exact Outcome.foldlM_meets chunk (fun done q s hpre hB hmeets =>
    phase1ChunkPage_between hX total hpre hB hmeets) hstart hspares

end Phase1

end NewGc
