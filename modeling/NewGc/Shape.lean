import Mathlib.Tactic.Ring
import Mathlib.Tactic.Linarith
import NewGc.Client

/-!
# Shape — the structural invariant of the page heap

`Shape L h T K` says that `T` is the object table of `h`: which objects start where, with which
layout.  `K` names the objects the current chunk has copied: their first cell holds a forwarding
marker, and `T` knows the copy.  Between collections `K` is empty and `T` is what `objAt` reads off
the heap.
-/

namespace NewGc

open Library PageHeap

/-- Which object starts at a cell. -/
abbrev ObjTable := Nat → Option ObjInfo

/-- Where the object at a cell has been copied. -/
abbrev Forwarding := Nat → Option Nat

namespace Forwarding

def empty : Forwarding := fun _ => none

@[simp] theorem empty_apply (c : Nat) : empty c = none := rfl

end Forwarding

/-! ## Well-formed objects -/

namespace ObjInfo

structure WellFormed (o : ObjInfo) : Prop where
  pos : 1 ≤ o.totalCells
  inside : ∀ i, o.IsPtr i → i < o.totalCells
  behindHeader : o.isCons = false → ∀ i, o.IsPtr i → 1 ≤ i
  cons : o.isCons = true → o = ObjInfo.cons

theorem wellFormed_cons : ObjInfo.cons.WellFormed where
  pos := by decide
  inside := fun _ hi => hi.2
  behindHeader := by intro h; cases h
  cons := fun _ => rfl

theorem mem_ptrCells {o : ObjInfo} {c x : Nat} : x ∈ o.ptrCells c ↔ ∃ i, o.IsPtr i ∧ x = c + i := by
  unfold ptrCells IsPtr
  rw [List.mem_range'_1]
  constructor
  · intro hx
    exact ⟨x - c, by omega, by omega⟩
  · rintro ⟨i, hi, rfl⟩
    omega

@[simp] theorem ptrCells_cons (c : Nat) : ObjInfo.cons.ptrCells c = [c, c + 1] := by
  simp [ptrCells, cons, List.range']

/-- The start pair a table entry calls for. -/
def pairOf : Option ObjInfo → StartPair
  | none => .none
  | some o => o.startPair

theorem startPair_ne_none (o : ObjInfo) : o.startPair ≠ .none := by
  unfold startPair
  split <;> simp

theorem pairOf_eq_none {x : Option ObjInfo} : pairOf x = .none ↔ x = none := by
  cases x with
  | none => simp [pairOf]
  | some o => simp [pairOf, startPair_ne_none]

end ObjInfo

theorem ObjectLayout.wellFormed_header {l : ObjectLayout} (hl : l.wellFormed = true) :
    ObjInfo.WellFormed { isCons := false, layout := l } where
  pos := by
    simp only [ObjectLayout.wellFormed, Bool.and_eq_true, decide_eq_true_eq] at hl
    exact hl.1
  inside := by
    intro i hi
    simp only [ObjectLayout.wellFormed, Bool.and_eq_true, Bool.or_eq_true, decide_eq_true_eq] at hl
    simp only [ObjInfo.IsPtr] at hi
    show i < l.totalCells
    omega
  behindHeader := by
    intro _ i hi
    simp only [ObjectLayout.wellFormed, Bool.and_eq_true, Bool.or_eq_true, decide_eq_true_eq] at hl
    simp only [ObjInfo.IsPtr] at hi
    omega
  cons := by intro h; cases h

/-! ## The page table -/

/-- Pages in use and dirty cards have their backing. -/
structure PageHeap.Backing (h : PageHeap) : Prop where
  live : ∀ p, (h.descs p).generation ≠ .Free → h.committed p = true
  dirty : ∀ k, h.cards k = true → h.committed (k / cardsPerPage) = true

/-- Nothing loses its backing, no page comes into use and every card that becomes dirty has its
backing. -/
theorem PageHeap.Backing.congr {h h' : PageHeap} (hb : h.Backing)
    (hgen : ∀ p, (h'.descs p).generation = (h.descs p).generation)
    (hcommitted : h'.committed = h.committed)
    (hcards : ∀ k, h'.cards k = true →
      h.cards k = true ∨ h.committed (k / cardsPerPage) = true) : h'.Backing where
  live := fun p hp => by
    rw [hgen] at hp
    rw [hcommitted]
    exact hb.live p hp
  dirty := fun k hk => by
    rw [hcommitted]
    exact (hcards k hk).elim (hb.dirty k) id

/-- The page table is consistent: large runs are contiguous and headed, and pages in use and dirty
cards have their backing. -/
structure PagesOk (h : PageHeap) : Prop where
  aligned : h.base % 8 = 0
  fits : h.base + h.nPages * pageSizeBytes ≤ 2 ^ 64
  beyond : ∀ p, h.nPages ≤ p → (h.descs p).generation = .Free
  kindFree : ∀ p, (h.descs p).kind = .Free ↔ (h.descs p).generation = .Free
  used : ∀ p, (h.descs p).wordsUsed ≤ pageSizeCells
  run : ∀ p j, (h.descs p).kind = .Large → 0 < j → j < (h.descs p).nSpan →
    (h.descs (p + j)).kind = .Large ∧ (h.descs (p + j)).nSpan = 0 ∧
      (h.descs (p + j)).generation = (h.descs p).generation
  head : ∀ p, (h.descs p).kind = .Large → (h.descs p).nSpan = 0 →
    ∃ q, q < p ∧ (h.descs q).kind = .Large ∧ p < q + (h.descs q).nSpan
  backing : h.Backing

/-! ## The invariant -/

/-- One entry of the table: the object `o` at `c`, copied to `fwd` or not copied. -/
structure ObjOk (L : HeapLayout) (h : PageHeap) (fwd : Option Nat) (c : Nat) (o : ObjInfo) :
    Prop where
  live : h.genAt c ≠ .Free
  wf : o.WellFormed
  small : h.kindAt c ≠ .Large →
    c % pageSizeCells + o.totalCells ≤ (h.descs (c / pageSizeCells)).wordsUsed
  large : h.kindAt c = .Large →
    c % pageSizeCells = 0 ∧ o.isCons = false ∧ 1 ≤ (h.descs (c / pageSizeCells)).nSpan ∧
      o.totalCells ≤ (h.descs (c / pageSizeCells)).nSpan * pageSizeCells ∧
      1 ≤ (h.descs (c / pageSizeCells)).wordsUsed
  consPage : h.kindAt c = .Cons → o.isCons = true
  header : fwd = none → o.isCons = false → L.headerLayout (h.mem c) = .ok o.layout
  plain : fwd = none → h.plainWord L (h.mem c) = true
  marker : ∀ d, fwd = some d → h.mem c = L.makeForward (h.cellAddr d)

structure Shape (L : HeapLayout) (h : PageHeap) (T : ObjTable) (K : Forwarding) : Prop where
  pages : PagesOk h
  obj : ∀ c o, T c = some o → ObjOk L h (K c) c o
  start : ∀ c, h.genAt c ≠ .Free → h.startBits c = ObjInfo.pairOf (T c)
  largeHead : ∀ p, (h.descs p).kind = .Large → 1 ≤ (h.descs p).nSpan →
    (T (p * pageSizeCells)).isSome
  ordered : ∀ c o c' o', T c = some o → T c' = some o' → c / pageSizeCells = c' / pageSizeCells →
    c < c' → c + o.totalCells ≤ c'
  moved : ∀ c d, K c = some d → ∃ o, T c = some o ∧ T d = some o ∧ K d = none

/-! ## Addresses -/

namespace PagesOk

variable {h : PageHeap}

theorem page_lt (hp : PagesOk h) {p : Nat} (hlive : (h.descs p).generation ≠ .Free) :
    p < h.nPages := by
  by_contra hge
  exact hlive (hp.beyond p (Nat.le_of_not_lt hge))

theorem cell_lt (hp : PagesOk h) {c : Nat} (hlive : h.genAt c ≠ .Free) : c < h.totalCells := by
  have hlt := hp.page_lt hlive
  unfold totalCells pageSizeCells at *
  omega

theorem cellAddr_lt (hp : PagesOk h) {c : Nat} (hc : c < h.totalCells) : h.cellAddr c < 2 ^ 64 := by
  have hfits := hp.fits
  unfold totalCells cellAddr pageSizeCells pageSizeBytes at *
  omega

theorem cellAddr_aligned (hp : PagesOk h) (c : Nat) : h.cellAddr c % 8 = 0 := by
  have haligned := hp.aligned
  unfold cellAddr
  omega

end PagesOk

theorem pageOf_cellAddr {h : PageHeap} {c : Nat} (hc : c < h.totalCells) :
    h.pageOf (h.cellAddr c) = some (c / pageSizeCells) := by
  unfold pageOf cellAddr reservedBytes totalCells pageSizeCells pageSizeBytes at *
  rw [if_pos (by omega)]
  congr 1
  omega

@[simp] theorem cellOf_cellAddr (h : PageHeap) (c : Nat) : h.cellOf (h.cellAddr c) = c := by
  unfold cellOf cellAddr
  omega

/-- An address of the reservation lies on the page of its cell. -/
theorem pageOf_eq {h : PageHeap} {addr p : Nat} (hp : h.pageOf addr = some p) :
    p = h.cellOf addr / pageSizeCells := by
  unfold pageOf at hp
  split at hp
  · cases hp
    unfold cellOf pageSizeCells pageSizeBytes
    omega
  · cases hp

theorem pageOf_lt {h : PageHeap} {addr p : Nat} (hp : h.pageOf addr = some p) : p < h.nPages := by
  unfold pageOf reservedBytes pageSizeBytes at hp
  split at hp
  · cases hp
    omega
  · cases hp

theorem mem_pagesInGen {h : PageHeap} {g : Generation} {q : Nat} :
    q ∈ h.pagesInGen g ↔ q < h.nPages ∧ (h.descs q).generation = g := by
  unfold pagesInGen
  rw [List.mem_filter, List.mem_range, decide_eq_true_eq]

/-! ## Consequences -/

namespace Shape

variable {L : HeapLayout} {h : PageHeap} {T : ObjTable} {K : Forwarding}

theorem live (hS : Shape L h T K) {c : Nat} {o : ObjInfo} (hc : T c = some o) :
    h.genAt c ≠ .Free := (hS.obj c o hc).live

theorem wf (hS : Shape L h T K) {c : Nat} {o : ObjInfo} (hc : T c = some o) : o.WellFormed :=
  (hS.obj c o hc).wf

theorem cell_lt (hS : Shape L h T K) {c : Nat} {o : ObjInfo} (hc : T c = some o) :
    c < h.totalCells := hS.pages.cell_lt (hS.live hc)

/-- Nothing starts on a free page. -/
theorem none_of_free (hS : Shape L h T K) {c : Nat} (hfree : h.genAt c = .Free) : T c = none := by
  cases hT : T c with
  | none => rfl
  | some o => exact absurd hfree (hS.live hT)

theorem isStartAt_iff (hS : Shape L h T K) {c : Nat} (hlive : h.genAt c ≠ .Free) :
    h.isStartAt c = true ↔ ∃ o, T c = some o := by
  unfold isStartAt
  rw [hS.start c hlive, bne_iff_ne, ne_eq, ObjInfo.pairOf_eq_none, Option.eq_none_iff_forall_ne_some]
  push Not
  rfl

theorem isStartAt (hS : Shape L h T K) {c : Nat} {o : ObjInfo} (hc : T c = some o) :
    h.isStartAt c = true := (hS.isStartAt_iff (hS.live hc)).2 ⟨o, hc⟩

theorem isConsStartAt (hS : Shape L h T K) {c : Nat} {o : ObjInfo} (hc : T c = some o) :
    h.isConsStartAt c = o.isCons := by
  unfold PageHeap.isConsStartAt
  rw [hS.start c (hS.live hc), hc]
  show (o.startPair == .cons) = o.isCons
  unfold ObjInfo.startPair
  cases o.isCons <;> rfl

/-- A small object lies inside its page. -/
theorem small_fits (hS : Shape L h T K) {c : Nat} {o : ObjInfo} (hc : T c = some o)
    (hk : h.kindAt c ≠ .Large) : c % pageSizeCells + o.totalCells ≤ pageSizeCells :=
  ((hS.obj c o hc).small hk).trans (hS.pages.used _)

/-- A cell of an object lies on a page of the same kind of run as the first one. -/
theorem cell_page (hS : Shape L h T K) {c i : Nat} {o : ObjInfo} (hc : T c = some o)
    (hi : i < o.totalCells) :
    (h.kindAt c ≠ .Large ∧ (c + i) / pageSizeCells = c / pageSizeCells) ∨
      (h.kindAt c = .Large ∧ ∃ j, (c + i) / pageSizeCells = c / pageSizeCells + j ∧
        j < (h.descs (c / pageSizeCells)).nSpan) := by
  by_cases hk : h.kindAt c = .Large
  · obtain ⟨hmod, -, -, htotal, -⟩ := (hS.obj c o hc).large hk
    refine Or.inr ⟨hk, i / pageSizeCells, ?_, ?_⟩
    · unfold pageSizeCells at *
      omega
    · unfold pageSizeCells at *
      omega
  · have hfit := hS.small_fits hc hk
    refine Or.inl ⟨hk, ?_⟩
    unfold pageSizeCells at *
    omega

/-- The page of any cell of an object is in use, with the object's generation. -/
theorem genAt_inside (hS : Shape L h T K) {c i : Nat} {o : ObjInfo} (hc : T c = some o)
    (hi : i < o.totalCells) : h.genAt (c + i) = h.genAt c := by
  rcases hS.cell_page hc hi with ⟨_, hpage⟩ | ⟨hk, j, hpage, hj⟩
  · unfold genAt
    rw [hpage]
  · unfold genAt
    rw [hpage]
    rcases Nat.eq_zero_or_pos j with rfl | hpos
    · rfl
    · exact (hS.pages.run _ j hk hpos hj).2.2

/-- The cells of an object have their backing. -/
theorem committed (hS : Shape L h T K) {c i : Nat} {o : ObjInfo} (hc : T c = some o)
    (hi : i < o.totalCells) : h.committed ((c + i) / pageSizeCells) = true := by
  apply hS.pages.backing.live
  have hgen := hS.genAt_inside hc hi
  have hlive := hS.live hc
  unfold genAt at hgen hlive
  rw [hgen]
  exact hlive

theorem access (hS : Shape L h T K) {c n : Nat} {o : ObjInfo} (hc : T c = some o)
    (hn : n ≤ o.totalCells) : h.access c n = .ok () := by
  unfold PageHeap.access
  rw [require_eq_ok, backed_iff]
  exact fun i hi => hS.committed hc (by omega)

theorem accessHead (hS : Shape L h T K) {c : Nat} {o : ObjInfo} (hc : T c = some o) :
    h.access c 1 = .ok () := hS.access hc (hS.wf hc).pos

theorem accessCells (hS : Shape L h T K) {c : Nat} {o : ObjInfo} (hc : T c = some o)
    {cells : List Nat} (hcells : ∀ d ∈ cells, ∃ i < o.totalCells, d = c + i) :
    h.accessCells cells = .ok () := by
  unfold PageHeap.accessCells
  rw [require_eq_ok, List.all_eq_true]
  intro d hd
  obtain ⟨i, hi, rfl⟩ := hcells d hd
  exact hS.committed hc hi

theorem accessPtrCells (hS : Shape L h T K) {c : Nat} {o : ObjInfo} (hc : T c = some o) :
    h.accessCells (o.ptrCells c) = .ok () := by
  refine hS.accessCells hc fun d hd => ?_
  obtain ⟨i, hi, rfl⟩ := ObjInfo.mem_ptrCells.1 hd
  exact ⟨i, (hS.wf hc).inside i hi, rfl⟩

/-- What a word leads to on a page in use has its backing. -/
theorem followable (hS : Shape L h T K) (w : Word) : h.followable L w = true := by
  unfold PageHeap.followable
  cases (L.classify w).pointer? with
  | none => rfl
  | some r =>
      cases hp : h.pageOf r.1 with
      | none => simp only [hp]
      | some p =>
          simp only [hp, Bool.or_eq_true, beq_iff_eq]
          by_cases hfree : (h.descs p).generation = .Free
          · exact Or.inl hfree
          · exact Or.inr (hS.pages.backing.live p hfree)

/-- Two large objects whose runs meet are one. -/
theorem large_run_inj (hS : Shape L h T K) {p p' j j' : Nat} (hk : (h.descs p).kind = .Large)
    (hk' : (h.descs p').kind = .Large) (hn : 1 ≤ (h.descs p).nSpan) (hn' : 1 ≤ (h.descs p').nSpan)
    (hj : j < (h.descs p).nSpan) (hj' : j' < (h.descs p').nSpan) (heq : p + j = p' + j') :
    p = p' := by
  rcases Nat.lt_trichotomy p p' with hlt | heq' | hgt
  · have hrun := hS.pages.run p (p' - p) hk (by omega) (by omega)
    rw [Nat.add_sub_cancel' (Nat.le_of_lt hlt)] at hrun
    omega
  · exact heq'
  · have hrun := hS.pages.run p' (p - p') hk' (by omega) (by omega)
    rw [Nat.add_sub_cancel' (Nat.le_of_lt hgt)] at hrun
    omega

/-- Distinct objects share no cell. -/
theorem cell_inj (hS : Shape L h T K) {c c' i k : Nat} {o o' : ObjInfo} (hc : T c = some o)
    (hc' : T c' = some o') (hi : i < o.totalCells) (hk : k < o'.totalCells)
    (heq : c + i = c' + k) : c = c' := by
  by_cases hpage : c / pageSizeCells = c' / pageSizeCells
  · rcases Nat.lt_trichotomy c c' with hlt | h' | hgt
    · have := hS.ordered c o c' o' hc hc' hpage hlt
      omega
    · exact h'
    · have := hS.ordered c' o' c o hc' hc hpage.symm hgt
      omega
  · exfalso
    apply hpage
    have hp := hS.cell_page hc hi
    have hp' := hS.cell_page hc' hk
    rw [← heq] at hp'
    rcases hp with ⟨hk, hpg⟩ | ⟨hk, j, hpg, hj⟩ <;> rcases hp' with ⟨hk', hpg'⟩ | ⟨hk', j', hpg', hj'⟩
    · omega
    · rcases Nat.eq_zero_or_pos j' with rfl | hpos
      · omega
      · have hrun := (hS.pages.run _ j' hk' hpos hj').1
        rw [← hpg', hpg] at hrun
        exact absurd hrun hk
    · rcases Nat.eq_zero_or_pos j with rfl | hpos
      · omega
      · have hrun := (hS.pages.run _ j hk hpos hj).1
        rw [← hpg, hpg'] at hrun
        exact absurd hrun hk'
    · exact hS.large_run_inj hk hk' ((hS.obj c o hc).large hk).2.2.1 ((hS.obj c' o' hc').large hk').2.2.1 hj hj'
        (hpg ▸ hpg')

/-- No object starts inside another one. -/
theorem no_start_inside (hS : Shape L h T K) {c i : Nat} {o o' : ObjInfo} (hc : T c = some o)
    (hi : i < o.totalCells) (hpos : 0 < i) : T (c + i) ≠ some o' := by
  intro hc'
  have heq := hS.cell_inj hc hc' hi (hS.wf hc').pos (k := 0) rfl
  omega

/-- The moved objects carry a marker. -/
theorem classify_marker (hS : Shape L h T K) {c d : Nat} (hK : K c = some d) :
    L.classify (h.mem c) = .forwarded (h.cellAddr d) := by
  obtain ⟨o, hc, hd, -⟩ := hS.moved c d hK
  rw [(hS.obj c o hc).marker d hK]
  exact L.classify_makeForward _ (hS.pages.cellAddr_lt (hS.cell_lt hd)) (hS.pages.cellAddr_aligned d)

/-- Exactly the moved objects read as forwarded. -/
theorem realForwardTargetAt (hS : Shape L h T K) {c : Nat} (hlive : h.genAt c ≠ .Free) :
    h.realForwardTargetAt L c (h.mem c) = (K c).map h.cellAddr := by
  unfold PageHeap.realForwardTargetAt
  cases hK : K c with
  | some d =>
      obtain ⟨o, hc, hd, -⟩ := hS.moved c d hK
      simp [hS.classify_marker hK, hS.isStartAt hc, pageOf_cellAddr (hS.cell_lt hd)]
  | none =>
      cases hT : T c with
      | none =>
          have hstart : h.isStartAt c = false := by
            rw [Bool.eq_false_iff]
            intro hs
            obtain ⟨o, ho⟩ := (hS.isStartAt_iff hlive).1 hs
            rw [hT] at ho
            cases ho
          cases h.mem c |> L.classify <;> simp [hstart]
      | some o =>
          have hplain := (hS.obj c o hT).plain hK
          unfold plainWord at hplain
          cases hcl : L.classify (h.mem c) with
          | forwarded t => simp_all
          | _ => simp

/-- Between collections the table is what the heap shows. -/
theorem objAt_eq (hS : Shape L h T Forwarding.empty) (c : Nat) : h.objAt L c = T c := by
  unfold objAt
  by_cases hlive : h.genAt c = .Free
  · rw [if_pos hlive]
    cases hT : T c with
    | none => rfl
    | some o => exact absurd hlive (hS.live hT)
  · rw [if_neg hlive, hS.start c hlive]
    cases hT : T c with
    | none => rfl
    | some o =>
        cases hcons : o.isCons with
        | true => simp [ObjInfo.pairOf, ObjInfo.startPair, hcons, ← (hS.wf hT).cons hcons]
        | false =>
            have hheader := (hS.obj c o hT).header rfl hcons
            obtain ⟨isCons, layout⟩ := o
            subst hcons
            simp [ObjInfo.pairOf, ObjInfo.startPair, hheader]

end Shape

end NewGc
