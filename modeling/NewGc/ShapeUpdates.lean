import NewGc.Shape

/-!
# ShapeUpdates — what the primitive updates do to the invariant

One lemma for each way the allocator and the collector change the heap: fields `Shape` does not
read, words that stay words of the same role, pages that are opened, objects that appear, markers,
pages that are released or flipped.
-/

namespace NewGc

open PageHeap

/-! ## Heaps that agree on the fields `Shape` reads -/

theorem pageOf_congr {h h' : PageHeap} (hbase : h'.base = h.base) (hn : h'.nPages = h.nPages)
    (addr : Nat) : h'.pageOf addr = h.pageOf addr := by
  unfold pageOf reservedBytes
  rw [hbase, hn]

theorem plainWord_congr {L : HeapLayout} {h h' : PageHeap} (hbase : h'.base = h.base)
    (hn : h'.nPages = h.nPages) (w : Word) : h'.plainWord L w = h.plainWord L w := by
  unfold plainWord
  simp only [pageOf_congr hbase hn]

theorem cellAddr_congr {h h' : PageHeap} (hbase : h'.base = h.base) (c : Nat) :
    h'.cellAddr c = h.cellAddr c := by
  unfold cellAddr
  rw [hbase]

/-- Two descriptors of one role: `Shape` reads nothing else of a page. -/
structure PageDesc.SameRole (d d' : PageDesc) : Prop where
  generation : d'.generation = d.generation
  kind : d'.kind = d.kind
  wordsUsed : d'.wordsUsed = d.wordsUsed
  nSpan : d'.nSpan = d.nSpan

theorem PageDesc.SameRole.refl (d : PageDesc) : d.SameRole d := ⟨rfl, rfl, rfl, rfl⟩

namespace PagesOk

variable {h h' : PageHeap}

/-- Page descriptors of the same roles. -/
theorem congr (hp : PagesOk h) (hbase : h'.base = h.base) (hn : h'.nPages = h.nPages)
    (hrole : ∀ p, (h.descs p).SameRole (h'.descs p)) (hback : h'.committed = h.committed)
    (hdirty : ∀ k, h'.cards k = true →
      h.cards k = true ∨ h.committed (k / cardsPerPage) = true) : PagesOk h' where
  aligned := hbase ▸ hp.aligned
  fits := by rw [hbase, hn]; exact hp.fits
  beyond := fun p hge => by rw [(hrole p).generation]; exact hp.beyond p (hn ▸ hge)
  kindFree := fun p => by rw [(hrole p).kind, (hrole p).generation]; exact hp.kindFree p
  used := fun p => by rw [(hrole p).wordsUsed]; exact hp.used p
  run := fun p j hk hpos hj => by
    rw [(hrole p).kind] at hk
    rw [(hrole p).nSpan] at hj
    rw [(hrole (p + j)).kind, (hrole (p + j)).nSpan, (hrole (p + j)).generation,
      (hrole p).generation]
    exact hp.run p j hk hpos hj
  head := fun p hk hn0 => by
    rw [(hrole p).kind] at hk
    rw [(hrole p).nSpan] at hn0
    obtain ⟨q, hlt, hkq, hq⟩ := hp.head p hk hn0
    exact ⟨q, hlt, by rw [(hrole q).kind]; exact hkq, by rw [(hrole q).nSpan]; exact hq⟩
  backing := hp.backing.congr (fun p => (hrole p).generation) hback hdirty

/-- A page outside every large run takes another descriptor outside every large run. -/
theorem update (hp : PagesOk h) {p : Nat} {d : PageDesc} (hbase : h'.base = h.base)
    (hn : h'.nPages = h.nPages) (hdescs : h'.descs = Function.update h.descs p d)
    (hold : (h.descs p).kind ≠ .Large) (hnew : d.kind ≠ .Large)
    (hfree : d.kind = .Free ↔ d.generation = .Free) (hused : d.wordsUsed ≤ pageSizeCells)
    (hlt : p < h.nPages)
    (hback : h'.Backing) : PagesOk h' := by
  have hself : h'.descs p = d := by rw [hdescs, Function.update_self]
  have hother : ∀ q, q ≠ p → h'.descs q = h.descs q := by
    intro q hq
    rw [hdescs, Function.update_of_ne hq]
  refine ⟨hbase ▸ hp.aligned, by rw [hbase, hn]; exact hp.fits, ?_, ?_, ?_, ?_, ?_, hback⟩
  · intro q hq
    rw [hother q (by omega)]
    exact hp.beyond q (by omega)
  · intro q
    by_cases hq : q = p
    · rw [hq, hself]; exact hfree
    · rw [hother q hq]; exact hp.kindFree q
  · intro q
    by_cases hq : q = p
    · rw [hq, hself]; exact hused
    · rw [hother q hq]; exact hp.used q
  · intro q j hk hpos hj
    have hq : q ≠ p := by
      rintro rfl
      exact hnew (hself ▸ hk)
    rw [hother q hq] at hk hj
    have hrun := hp.run q j hk hpos hj
    have hqj : q + j ≠ p := by
      intro heq
      exact hold (heq ▸ hrun.1)
    rw [hother _ hqj, hother q hq]
    exact hrun
  · intro q hk hn0
    have hq : q ≠ p := by
      rintro rfl
      exact hnew (hself ▸ hk)
    rw [hother q hq] at hk hn0
    obtain ⟨r, hlt', hkr, hr⟩ := hp.head q hk hn0
    have hrp : r ≠ p := by
      rintro rfl
      exact hold hkr
    exact ⟨r, hlt', by rw [hother r hrp]; exact hkr, by rw [hother r hrp]; exact hr⟩

/-- Is `q` a page of the run at `head`? -/
theorem run_closed (hp : PagesOk h) {head q : Nat} (hk : (h.descs head).kind = .Large)
    (hn : 1 ≤ (h.descs q).nSpan) (hin : head ≤ q ∧ q < head + (h.descs head).nSpan) :
    q = head := by
  by_contra hne
  have hrun := hp.run head (q - head) hk (by omega) (by omega)
  rw [Nat.add_sub_cancel' hin.1] at hrun
  omega

/-- The runs of two heads do not meet. -/
theorem run_disjoint (hp : PagesOk h) {head q j : Nat} (hk : (h.descs head).kind = .Large)
    (hq : (h.descs q).kind = .Large) (hn : 1 ≤ (h.descs head).nSpan) (hj : j < (h.descs q).nSpan)
    (hin : head ≤ q + j ∧ q + j < head + (h.descs head).nSpan) : q = head := by
  rcases Nat.lt_trichotomy q head with hlt | heq | hgt
  · have hrun := hp.run q (head - q) hq (by omega) (by omega)
    rw [Nat.add_sub_cancel' (Nat.le_of_lt hlt)] at hrun
    omega
  · exact heq
  · exact hp.run_closed hk (by omega) ⟨by omega, by omega⟩

/-- Every page of a large run is large and of the head's generation. -/
theorem run_page (hp : PagesOk h) {head q : Nat} (hk : (h.descs head).kind = .Large)
    (hin : head ≤ q ∧ q < head + (h.descs head).nSpan) :
    (h.descs q).kind = .Large ∧ (h.descs q).generation = (h.descs head).generation := by
  rcases Nat.eq_or_lt_of_le hin.1 with rfl | hlt
  · exact ⟨hk, rfl⟩
  · have hrun := hp.run head (q - head) hk (by omega) (by omega)
    rw [Nat.add_sub_cancel' hin.1] at hrun
    exact ⟨hrun.1, hrun.2.2⟩

/-- All pages of a large run become free. -/
theorem releaseRun (hp : PagesOk h) {head : Nat} (hbase : h'.base = h.base)
    (hn : h'.nPages = h.nPages) (hk : (h.descs head).kind = .Large)
    (hspan : 1 ≤ (h.descs head).nSpan)
    (hin : ∀ q, head ≤ q → q < head + (h.descs head).nSpan → (h'.descs q).kind = .Free ∧
      (h'.descs q).generation = .Free ∧ (h'.descs q).wordsUsed ≤ pageSizeCells)
    (hout : ∀ q, ¬ (head ≤ q ∧ q < head + (h.descs head).nSpan) → h'.descs q = h.descs q)
    (hback : h'.Backing) : PagesOk h' := by
  have hlarge : ∀ q, (h'.descs q).kind = .Large →
      ¬ (head ≤ q ∧ q < head + (h.descs head).nSpan) := by
    intro q hkq hq
    rw [(hin q hq.1 hq.2).1] at hkq
    cases hkq
  refine ⟨hbase ▸ hp.aligned, by rw [hbase, hn]; exact hp.fits, ?_, ?_, ?_, ?_, ?_, hback⟩
  · intro q hge
    by_cases hq : head ≤ q ∧ q < head + (h.descs head).nSpan
    · exact (hin q hq.1 hq.2).2.1
    · rw [hout q hq]
      exact hp.beyond q (hn ▸ hge)
  · intro q
    by_cases hq : head ≤ q ∧ q < head + (h.descs head).nSpan
    · simp [(hin q hq.1 hq.2).1, (hin q hq.1 hq.2).2.1]
    · rw [hout q hq]
      exact hp.kindFree q
  · intro q
    by_cases hq : head ≤ q ∧ q < head + (h.descs head).nSpan
    · exact (hin q hq.1 hq.2).2.2
    · rw [hout q hq]
      exact hp.used q
  · intro q j hkq hpos hj
    have hq := hlarge q hkq
    rw [hout q hq] at hkq hj
    have hqj : ¬ (head ≤ q + j ∧ q + j < head + (h.descs head).nSpan) := by
      intro hqj
      have := hp.run_disjoint hk hkq hspan hj hqj
      subst this
      exact hq ⟨Nat.le_refl _, by omega⟩
    rw [hout _ hqj, hout q hq]
    exact hp.run q j hkq hpos hj
  · intro q hkq h0
    have hq := hlarge q hkq
    rw [hout q hq] at hkq h0
    obtain ⟨r, hlt, hkr, hr⟩ := hp.head q hkq h0
    have hr' : ¬ (head ≤ r ∧ r < head + (h.descs head).nSpan) := by
      intro hin'
      have := hp.run_closed hk (by omega) hin'
      subst this
      exact hq ⟨by omega, hr⟩
    exact ⟨r, hlt, by rw [hout r hr']; exact hkr, by rw [hout r hr']; exact hr⟩

/-- A large run changes its generation. -/
theorem flipRun (hp : PagesOk h) {head : Nat} {g : Generation} (hbase : h'.base = h.base)
    (hn : h'.nPages = h.nPages) (hk : (h.descs head).kind = .Large) (hg : g ≠ .Free)
    (hspan : 1 ≤ (h.descs head).nSpan) (hlive : (h.descs head).generation ≠ .Free)
    (hin : ∀ q, head ≤ q → q < head + (h.descs head).nSpan → (h'.descs q).generation = g)
    (hgen : ∀ q, ¬ (head ≤ q ∧ q < head + (h.descs head).nSpan) →
      (h'.descs q).generation = (h.descs q).generation)
    (hrole : ∀ q, (h'.descs q).kind = (h.descs q).kind ∧
      (h'.descs q).wordsUsed = (h.descs q).wordsUsed ∧ (h'.descs q).nSpan = (h.descs q).nSpan)
    (hback : h'.Backing) : PagesOk h' := by
  refine ⟨hbase ▸ hp.aligned, by rw [hbase, hn]; exact hp.fits, ?_, ?_, ?_, ?_, ?_, hback⟩
  · intro q hge
    by_cases hq : head ≤ q ∧ q < head + (h.descs head).nSpan
    · have hlt : q < h.nPages := by
        apply hp.page_lt
        rw [(hp.run_page hk hq).2]
        exact hlive
      omega
    · rw [hgen q hq]
      exact hp.beyond q (hn ▸ hge)
  · intro q
    rw [(hrole q).1]
    by_cases hq : head ≤ q ∧ q < head + (h.descs head).nSpan
    · simp [hin q hq.1 hq.2, hg, (hp.run_page hk hq).1]
    · rw [hgen q hq]
      exact hp.kindFree q
  · intro q
    rw [(hrole q).2.1]
    exact hp.used q
  · intro q j hkq hpos hj
    rw [(hrole q).1] at hkq
    rw [(hrole q).2.2] at hj
    have hrun := hp.run q j hkq hpos hj
    refine ⟨by rw [(hrole _).1]; exact hrun.1, by rw [(hrole _).2.2]; exact hrun.2.1, ?_⟩
    by_cases hq : head ≤ q ∧ q < head + (h.descs head).nSpan
    · have hqh : q = head := hp.run_closed hk (by omega) hq
      subst hqh
      rw [hin q hq.1 hq.2, hin (q + j) (by omega) (by omega)]
    · have hqj : ¬ (head ≤ q + j ∧ q + j < head + (h.descs head).nSpan) := by
        intro hqj
        have := hp.run_disjoint hk hkq hspan hj hqj
        subst this
        exact hq ⟨Nat.le_refl _, by omega⟩
      rw [hgen q hq, hgen _ hqj]
      exact hrun.2.2
  · intro q hkq h0
    rw [(hrole q).1] at hkq
    rw [(hrole q).2.2] at h0
    obtain ⟨r, hlt, hkr, hr⟩ := hp.head q hkq h0
    exact ⟨r, hlt, by rw [(hrole r).1]; exact hkr, by rw [(hrole r).2.2]; exact hr⟩

end PagesOk

/-- An object survives an update of the heap: its page keeps its role up to a change of generation
and more words in use, and its start cell still holds what it should. -/
theorem ObjOk.transport {L : HeapLayout} {h h' : PageHeap} {fwd : Option Nat} {c : Nat}
    {o : ObjInfo} (hO : ObjOk L h fwd c o) (hbase : h'.base = h.base) (hn : h'.nPages = h.nPages)
    (hlive : h'.genAt c ≠ .Free) (hkind : h'.kindAt c = h.kindAt c)
    (hspan : (h'.descs (c / pageSizeCells)).nSpan = (h.descs (c / pageSizeCells)).nSpan)
    (hused : (h.descs (c / pageSizeCells)).wordsUsed ≤ (h'.descs (c / pageSizeCells)).wordsUsed)
    (hmem : h'.mem c = h.mem c ∨
      (fwd = none ∧ o.isCons = true ∧ h.plainWord L (h'.mem c) = true)) :
    ObjOk L h' fwd c o where
  live := hlive
  wf := hO.wf
  small := fun hk => (hO.small (hkind ▸ hk)).trans hused
  large := fun hk => by
    obtain ⟨h1, h2, h3, h4, h5⟩ := hO.large (hkind ▸ hk)
    rw [hspan]
    exact ⟨h1, h2, h3, h4, h5.trans hused⟩
  consPage := fun hk => hO.consPage (hkind ▸ hk)
  header := fun hnone hcons => by
    rcases hmem with heq | ⟨-, hcons', -⟩
    · rw [heq]; exact hO.header hnone hcons
    · rw [hcons] at hcons'; cases hcons'
  plain := fun hnone => by
    rw [plainWord_congr hbase hn]
    rcases hmem with heq | ⟨-, -, hplain⟩
    · rw [heq]; exact hO.plain hnone
    · exact hplain
  marker := fun d hd => by
    rcases hmem with heq | ⟨hnone, -, -⟩
    · rw [heq, cellAddr_congr hbase]; exact hO.marker d hd
    · rw [hd] at hnone; cases hnone

namespace Shape

variable {L : HeapLayout} {h h' : PageHeap} {T : ObjTable} {K : Forwarding}

/-- Part of the table over another heap. -/
theorem shrink (hS : Shape L h T K) {T' : ObjTable} {K' : Forwarding} (hpages : PagesOk h')
    (hsub : ∀ c o, T' c = some o → T c = some o)
    (hobj : ∀ c o, T' c = some o → ObjOk L h' (K' c) c o)
    (hstart : ∀ c, h'.genAt c ≠ .Free → h'.startBits c = ObjInfo.pairOf (T' c))
    (hhead : ∀ p, (h'.descs p).kind = .Large → 1 ≤ (h'.descs p).nSpan →
      (T' (p * pageSizeCells)).isSome)
    (hmoved : ∀ c d, K' c = some d → K c = some d ∧ (T' c).isSome ∧ (T' d).isSome ∧ K' d = none) :
    Shape L h' T' K' where
  pages := hpages
  obj := hobj
  start := hstart
  largeHead := hhead
  ordered := fun c o c' o' hc hc' => hS.ordered c o c' o' (hsub c o hc) (hsub c' o' hc')
  moved := fun c d hK => by
    obtain ⟨hK0, hc, hd, hKd⟩ := hmoved c d hK
    obtain ⟨o, ho, hod, -⟩ := hS.moved c d hK0
    obtain ⟨o₁, h₁⟩ := Option.isSome_iff_exists.1 hc
    obtain ⟨o₂, h₂⟩ := Option.isSome_iff_exists.1 hd
    have e₁ := hsub c o₁ h₁
    have e₂ := hsub d o₂ h₂
    rw [ho] at e₁
    rw [hod] at e₂
    cases e₁
    cases e₂
    exact ⟨o, h₁, h₂, hKd⟩

/-- The same table over another heap. -/
theorem rebuild (hS : Shape L h T K) (hpages : PagesOk h')
    (hobj : ∀ c o, T c = some o → ObjOk L h' (K c) c o)
    (hlarge : ∀ p, (h'.descs p).kind = .Large →
      (h.descs p).kind = .Large ∧ (h'.descs p).nSpan = (h.descs p).nSpan)
    (hstart : ∀ c, h'.genAt c ≠ .Free → h'.startBits c = ObjInfo.pairOf (T c)) :
    Shape L h' T K := by
  refine hS.shrink hpages (fun _ _ hc => hc) hobj hstart ?_ ?_
  · intro p hk hspan
    obtain ⟨hk', hs⟩ := hlarge p hk
    exact hS.largeHead p hk' (hs ▸ hspan)
  · intro c d hK
    obtain ⟨o, hc, hd, hKd⟩ := hS.moved c d hK
    exact ⟨hK, by rw [hc]; rfl, by rw [hd]; rfl, hKd⟩

/-- Pages of the same roles, the same start bits, and start cells that stay what they are. -/
theorem transport (hS : Shape L h T K) (hbase : h'.base = h.base) (hn : h'.nPages = h.nPages)
    (hrole : ∀ p, (h.descs p).SameRole (h'.descs p)) (hstart : h'.startBits = h.startBits)
    (hback : h'.committed = h.committed)
    (hdirty : ∀ k, h'.cards k = true →
      h.cards k = true ∨ h.committed (k / cardsPerPage) = true)
    (hmem : ∀ c o, T c = some o → h'.mem c = h.mem c ∨
      (K c = none ∧ o.isCons = true ∧ h.plainWord L (h'.mem c) = true)) : Shape L h' T K := by
  refine hS.rebuild (hS.pages.congr hbase hn hrole hback hdirty) ?_ ?_ ?_
  · intro c o hc
    refine (hS.obj c o hc).transport hbase hn ?_ (hrole _).kind (hrole _).nSpan
      (hrole _).wordsUsed.ge (hmem c o hc)
    unfold genAt
    rw [(hrole _).generation]
    exact hS.live hc
  · intro p hk
    exact ⟨(hrole p).kind ▸ hk, (hrole p).nSpan⟩
  · intro c hlive
    unfold genAt at hlive
    rw [(hrole _).generation] at hlive
    rw [hstart]
    exact hS.start c hlive

/-- Fields outside the invariant's reach. -/
theorem congr (hS : Shape L h T K) (hbase : h'.base = h.base) (hn : h'.nPages = h.nPages)
    (hrole : ∀ p, (h.descs p).SameRole (h'.descs p)) (hstart : h'.startBits = h.startBits)
    (hmem : h'.mem = h.mem) (hback : h'.committed = h.committed)
    (hdirty : ∀ k, h'.cards k = true →
      h.cards k = true ∨ h.committed (k / cardsPerPage) = true) : Shape L h' T K :=
  hS.transport hbase hn hrole hstart hback hdirty fun c _ _ => Or.inl (by rw [hmem])

/-! ## Pages change hands -/

/-- A page that is no part of a large run takes another small-page descriptor: a free page is
opened, or an open page has more words in use.  Nothing is written to the pages in use. -/
theorem claimPage (hS : Shape L h T K) {p : Nat} {d : PageDesc} (hbase : h'.base = h.base)
    (hn : h'.nPages = h.nPages) (hdescs : h'.descs = Function.update h.descs p d)
    (hlt : p < h.nPages) (hgen : d.generation ≠ .Free) (hkind : d.kind = .Cons ∨ d.kind = .Boxed)
    (hused : d.wordsUsed ≤ pageSizeCells)
    (hold : (h.descs p).generation = .Free ∨
      (d.kind = (h.descs p).kind ∧ d.nSpan = (h.descs p).nSpan ∧
        (h.descs p).wordsUsed ≤ d.wordsUsed))
    (hstart : ∀ c, h.genAt c ≠ .Free → h'.startBits c = h.startBits c)
    (hclear : ∀ c, c / pageSizeCells = p → h.genAt c = .Free → h'.startBits c = .none)
    (hmem : ∀ c, h.genAt c ≠ .Free → h'.mem c = h.mem c)
    (hback : h'.Backing) : Shape L h' T K := by
  have hself : h'.descs p = d := by rw [hdescs, Function.update_self]
  have hother : ∀ q, q ≠ p → h'.descs q = h.descs q := by
    intro q hq
    rw [hdescs, Function.update_of_ne hq]
  have hdlarge : d.kind ≠ .Large := by
    rcases hkind with hk | hk <;> rw [hk] <;> simp
  have hdfree : d.kind ≠ .Free := by
    rcases hkind with hk | hk <;> rw [hk] <;> simp
  have hsmall : (h.descs p).kind ≠ .Large := by
    rcases hold with hfree | ⟨hk, -, -⟩
    · rw [(hS.pages.kindFree p).2 hfree]; simp
    · exact hk ▸ hdlarge
  refine hS.rebuild ?_ ?_ ?_ ?_
  · exact hS.pages.update hbase hn hdescs hsmall hdlarge (by simp [hdfree, hgen]) hused hlt hback
  · intro c o hc
    have hlive := hS.live hc
    by_cases hp : c / pageSizeCells = p
    · rcases hold with hfree | ⟨hk, hs, hu⟩
      · exact absurd (by unfold genAt; rw [hp]; exact hfree) hlive
      · refine (hS.obj c o hc).transport hbase hn ?_ ?_ ?_ ?_ (Or.inl (hmem c hlive))
        · unfold genAt; rw [hp, hself]; exact hgen
        · unfold kindAt; rw [hp, hself]; exact hk
        · rw [hp, hself]; exact hs
        · rw [hp, hself]; exact hu
    · have hd := hother _ hp
      refine (hS.obj c o hc).transport hbase hn ?_ ?_ ?_ ?_ (Or.inl (hmem c hlive))
      · unfold genAt; rw [hd]; exact hlive
      · unfold kindAt; rw [hd]
      · rw [hd]
      · rw [hd]
  · intro q hk
    have hq : q ≠ p := by
      rintro rfl
      exact hdlarge (hself ▸ hk)
    rw [hother q hq] at hk ⊢
    exact ⟨hk, rfl⟩
  · intro c hlive
    by_cases hc : h.genAt c = .Free
    · rw [hS.none_of_free hc]
      refine hclear c ?_ hc
      by_contra hp
      unfold genAt at hlive hc
      rw [hother _ hp] at hlive
      exact hlive hc
    · rw [hstart c hc]
      exact hS.start c hc

/-! ## Objects appear and move -/

/-- No object meets the cells `[cell, cell + n)`. -/
def Gap (T : ObjTable) (cell n : Nat) : Prop :=
  ∀ c o, T c = some o → c + o.totalCells ≤ cell ∨ cell + n ≤ c

/-- A new object in a gap of a small page. -/
theorem place (hS : Shape L h T K) {cell : Nat} {o : ObjInfo} (hbase : h'.base = h.base)
    (hn : h'.nPages = h.nPages) (hrole : ∀ p, (h.descs p).SameRole (h'.descs p))
    (hback : h'.committed = h.committed)
    (hdirty : ∀ k, h'.cards k = true →
      h.cards k = true ∨ h.committed (k / cardsPerPage) = true)
    (hlive : h.genAt cell ≠ .Free)
    (hsmall : h.kindAt cell ≠ .Large) (hwf : o.WellFormed)
    (hroom : cell % pageSizeCells + o.totalCells ≤ (h.descs (cell / pageSizeCells)).wordsUsed)
    (hcons : h.kindAt cell = .Cons → o.isCons = true) (hgap : Gap T cell o.totalCells)
    (hstart : h'.startBits = Function.update h.startBits cell o.startPair)
    (hmem : ∀ c o', T c = some o' → h'.mem c = h.mem c)
    (hheader : o.isCons = false → L.headerLayout (h'.mem cell) = .ok o.layout)
    (hplain : h.plainWord L (h'.mem cell) = true) :
    Shape L h' (Function.update T cell (some o)) K := by
  have hpos := hwf.pos
  have hfresh : T cell = none := by
    rw [Option.eq_none_iff_forall_ne_some]
    intro o' ho'
    have hpos' := (hS.wf ho').pos
    rcases hgap cell o' ho' with hle | hle <;> omega
  have hKcell : K cell = none := by
    rw [Option.eq_none_iff_forall_ne_some]
    intro d hd
    obtain ⟨o', ho', -, -⟩ := hS.moved cell d hd
    rw [hfresh] at ho'
    cases ho'
  have hgen : ∀ c, h'.genAt c = h.genAt c := fun c => (hrole _).generation
  have hkind : ∀ c, h'.kindAt c = h.kindAt c := fun c => (hrole _).kind
  have htable : ∀ c o', Function.update T cell (some o) c = some o' →
      (c = cell ∧ o' = o) ∨ (c ≠ cell ∧ T c = some o') := by
    intro c o' hc
    by_cases heq : c = cell
    · subst heq
      rw [Function.update_self] at hc
      cases hc
      exact Or.inl ⟨rfl, rfl⟩
    · rw [Function.update_of_ne heq] at hc
      exact Or.inr ⟨heq, hc⟩
  refine ⟨hS.pages.congr hbase hn hrole hback hdirty, ?_, ?_, ?_, ?_, ?_⟩
  · intro c o' hc
    rcases htable c o' hc with ⟨rfl, rfl⟩ | ⟨hne, hT⟩
    · refine ⟨by rw [hgen]; exact hlive, hwf, ?_, ?_, ?_, fun _ hc' => hheader hc', ?_, ?_⟩
      · intro _
        rw [(hrole _).wordsUsed]
        exact hroom
      · intro hk
        rw [hkind] at hk
        exact absurd hk hsmall
      · intro hk
        exact hcons (hkind c ▸ hk)
      · intro _
        rw [plainWord_congr hbase hn]
        exact hplain
      · intro d hd
        rw [hKcell] at hd
        cases hd
    · exact (hS.obj c o' hT).transport hbase hn (by rw [hgen]; exact hS.live hT) (hkind c)
        (hrole _).nSpan (hrole _).wordsUsed.ge (Or.inl (hmem c o' hT))
  · intro c hc
    rw [hstart]
    by_cases heq : c = cell
    · subst heq
      rw [Function.update_self, Function.update_self]
      rfl
    · rw [Function.update_of_ne heq, Function.update_of_ne heq]
      exact hS.start c (hgen c ▸ hc)
  · intro p hk hspan
    rw [(hrole p).kind] at hk
    rw [(hrole p).nSpan] at hspan
    by_cases heq : p * pageSizeCells = cell
    · rw [heq, Function.update_self]
      rfl
    · rw [Function.update_of_ne heq]
      exact hS.largeHead p hk hspan
  · intro c o₁ c' o₂ hc hc' hpage hlt
    rcases htable c o₁ hc with ⟨rfl, rfl⟩ | ⟨hne, hT⟩ <;>
      rcases htable c' o₂ hc' with ⟨rfl, rfl⟩ | ⟨hne', hT'⟩
    · omega
    · have hpos' := (hS.wf hT').pos
      rcases hgap c' o₂ hT' with hle | hle <;> omega
    · rcases hgap c o₁ hT with hle | hle <;> omega
    · exact hS.ordered c o₁ c' o₂ hT hT' hpage hlt
  · intro c d hK
    obtain ⟨o', hc, hd, hKd⟩ := hS.moved c d hK
    have hc' : c ≠ cell := by
      rintro rfl
      rw [hfresh] at hc
      cases hc
    have hd' : d ≠ cell := by
      rintro rfl
      rw [hfresh] at hd
      cases hd
    exact ⟨o', by rw [Function.update_of_ne hc']; exact hc, by
      rw [Function.update_of_ne hd']; exact hd, hKd⟩

/-- An object whose copy is in the table gets its forwarding marker. -/
theorem forward (hS : Shape L h T K) {src dest : Nat} {o : ObjInfo} (hbase : h'.base = h.base)
    (hn : h'.nPages = h.nPages) (hrole : ∀ p, (h.descs p).SameRole (h'.descs p))
    (hback : h'.committed = h.committed)
    (hdirty : ∀ k, h'.cards k = true →
      h.cards k = true ∨ h.committed (k / cardsPerPage) = true)
    (hstart : h'.startBits = h.startBits)
    (hsrc : T src = some o) (hdest : T dest = some o)
    (hne : src ≠ dest) (hKdest : K dest = none) (hnot : ∀ c, K c ≠ some src)
    (hmarker : h'.mem src = L.makeForward (h.cellAddr dest))
    (hmem : ∀ c o', T c = some o' → c ≠ src → h'.mem c = h.mem c) :
    Shape L h' T (Function.update K src (some dest)) := by
  refine ⟨hS.pages.congr hbase hn hrole hback hdirty, ?_, ?_, ?_, hS.ordered, ?_⟩
  · intro c o' hc
    by_cases heq : c = src
    · subst heq
      have hO := hS.obj c o' hc
      rw [Function.update_self]
      refine ⟨?_, hO.wf, ?_, ?_, ?_, ?_, ?_, ?_⟩
      · unfold genAt
        rw [(hrole _).generation]
        exact hO.live
      · intro hk
        rw [(hrole _).wordsUsed]
        exact hO.small (by unfold kindAt at hk ⊢; rwa [(hrole _).kind] at hk)
      · intro hk
        rw [(hrole _).wordsUsed, (hrole _).nSpan]
        exact hO.large (by unfold kindAt at hk ⊢; rwa [(hrole _).kind] at hk)
      · intro hk
        exact hO.consPage (by unfold kindAt at hk ⊢; rwa [(hrole _).kind] at hk)
      · intro hnone
        cases hnone
      · intro hnone
        cases hnone
      · intro d hd
        cases hd
        rw [cellAddr_congr hbase]
        exact hmarker
    · rw [Function.update_of_ne heq]
      refine (hS.obj c o' hc).transport hbase hn ?_ (hrole _).kind (hrole _).nSpan
        (hrole _).wordsUsed.ge (Or.inl (hmem c o' hc heq))
      unfold genAt
      rw [(hrole _).generation]
      exact hS.live hc
  · intro c hc
    unfold genAt at hc
    rw [(hrole _).generation] at hc
    rw [hstart]
    exact hS.start c hc
  · intro p hk hspan
    rw [(hrole p).kind] at hk
    rw [(hrole p).nSpan] at hspan
    exact hS.largeHead p hk hspan
  · intro c d hK
    by_cases heq : c = src
    · subst heq
      rw [Function.update_self] at hK
      cases hK
      exact ⟨o, hsrc, hdest, by rw [Function.update_of_ne (Ne.symm hne)]; exact hKdest⟩
    · rw [Function.update_of_ne heq] at hK
      obtain ⟨o', hc, hd, hKd⟩ := hS.moved c d hK
      have hd' : d ≠ src := by
        rintro rfl
        exact hnot c hK
      exact ⟨o', hc, hd, by rw [Function.update_of_ne hd']; exact hKd⟩

/-! ## Pages are released or change their generation -/

/-- A small page is released. -/
theorem releasePage (hS : Shape L h T K) {p : Nat} {T' : ObjTable} {K' : Forwarding} {d : PageDesc}
    (hbase : h'.base = h.base) (hn : h'.nPages = h.nPages)
    (hdescs : h'.descs = Function.update h.descs p d) (hd : d.generation = .Free ∧ d.kind = .Free ∧
      d.wordsUsed ≤ pageSizeCells) (hlive : (h.descs p).generation ≠ .Free)
    (hkind : (h.descs p).kind ≠ .Large)
    (hstart : ∀ c, c / pageSizeCells ≠ p → h'.startBits c = h.startBits c)
    (hmem : ∀ c, c / pageSizeCells ≠ p → h'.mem c = h.mem c)
    (hT : ∀ c, c / pageSizeCells ≠ p → T' c = T c) (hTp : ∀ c, c / pageSizeCells = p → T' c = none)
    (hK : ∀ c, c / pageSizeCells ≠ p → K' c = K c) (hKp : ∀ c, c / pageSizeCells = p → K' c = none)
    (hdest : ∀ c e, K c = some e → e / pageSizeCells ≠ p)
    (hback : h'.Backing) :
    Shape L h' T' K' := by
  have hother : ∀ q, q ≠ p → h'.descs q = h.descs q := by
    intro q hq
    rw [hdescs, Function.update_of_ne hq]
  have hself : h'.descs p = d := by rw [hdescs, Function.update_self]
  have hin : ∀ c o, T' c = some o → c / pageSizeCells ≠ p ∧ T c = some o := by
    intro c o hc
    by_cases hp : c / pageSizeCells = p
    · rw [hTp c hp] at hc
      cases hc
    · exact ⟨hp, (hT c hp) ▸ hc⟩
  refine hS.shrink ?_ (fun c o hc => (hin c o hc).2) ?_ ?_ ?_ ?_
  · exact hS.pages.update hbase hn hdescs hkind (by rw [hd.2.1]; simp) (by simp [hd.1, hd.2.1])
      hd.2.2 (hS.pages.page_lt hlive) hback
  · intro c o hc
    obtain ⟨hp, hTc⟩ := hin c o hc
    rw [hK c hp]
    have hde := hother _ hp
    refine (hS.obj c o hTc).transport hbase hn ?_ ?_ (by rw [hde]) (by rw [hde])
      (Or.inl (hmem c hp))
    · unfold genAt
      rw [hde]
      exact hS.live hTc
    · unfold kindAt
      rw [hde]
  · intro c hc
    by_cases hp : c / pageSizeCells = p
    · unfold genAt at hc
      rw [hp, hself] at hc
      exact absurd hd.1 hc
    · rw [hstart c hp, hT c hp]
      refine hS.start c ?_
      unfold genAt at hc ⊢
      rwa [hother _ hp] at hc
  · intro q hk hspan
    have hq : q ≠ p := by
      rintro rfl
      rw [hself, hd.2.1] at hk
      cases hk
    rw [hother q hq] at hk hspan
    rw [hT _ (by unfold pageSizeCells; omega)]
    exact hS.largeHead q hk hspan
  · intro c e hKc
    by_cases hp : c / pageSizeCells = p
    · rw [hKp c hp] at hKc
      cases hKc
    · rw [hK c hp] at hKc
      obtain ⟨o, hc, he, hKe⟩ := hS.moved c e hKc
      have hep := hdest c e hKc
      exact ⟨hKc, by rw [hT c hp, hc]; rfl, by rw [hT e hep, he]; rfl, by rw [hK e hep]; exact hKe⟩

/-- A small page changes its generation and loses part of its objects. -/
theorem flipPage (hS : Shape L h T K) {p : Nat} {T' : ObjTable} {K' : Forwarding} {d : PageDesc}
    (hbase : h'.base = h.base) (hn : h'.nPages = h.nPages)
    (hdescs : h'.descs = Function.update h.descs p d) (hd : d.generation ≠ .Free)
    (hrole : d.kind = (h.descs p).kind ∧ d.wordsUsed = (h.descs p).wordsUsed ∧
      d.nSpan = (h.descs p).nSpan)
    (hlive : (h.descs p).generation ≠ .Free) (hkind : (h.descs p).kind ≠ .Large)
    (hstart : ∀ c, c / pageSizeCells ≠ p → h'.startBits c = h.startBits c)
    (hstartp : ∀ c, c / pageSizeCells = p → h'.startBits c = ObjInfo.pairOf (T' c))
    (hmem : ∀ c o, T' c = some o → h'.mem c = h.mem c)
    (hT : ∀ c, c / pageSizeCells ≠ p → T' c = T c) (hsub : ∀ c o, T' c = some o → T c = some o)
    (hK : ∀ c, c / pageSizeCells ≠ p → K' c = K c) (hKp : ∀ c, c / pageSizeCells = p → K' c = none)
    (hKT : ∀ c, c / pageSizeCells = p → (T' c).isSome → K c = none)
    (hdest : ∀ c e, K c = some e → e / pageSizeCells ≠ p)
    (hback : h'.Backing) :
    Shape L h' T' K' := by
  have hother : ∀ q, q ≠ p → h'.descs q = h.descs q := by
    intro q hq
    rw [hdescs, Function.update_of_ne hq]
  have hself : h'.descs p = d := by rw [hdescs, Function.update_self]
  have hroles : ∀ q, (h'.descs q).kind = (h.descs q).kind ∧
      (h'.descs q).wordsUsed = (h.descs q).wordsUsed ∧ (h'.descs q).nSpan = (h.descs q).nSpan := by
    intro q
    by_cases hq : q = p
    · rw [hq, hself]
      exact hrole
    · rw [hother q hq]
      exact ⟨rfl, rfl, rfl⟩
  have hgen : ∀ c, h'.genAt c ≠ .Free ↔ h.genAt c ≠ .Free := by
    intro c
    unfold genAt
    by_cases hp : c / pageSizeCells = p
    · rw [hp, hself]
      exact iff_of_true hd hlive
    · rw [hother _ hp]
  have hkfree : (h.descs p).kind ≠ .Free := by
    intro hf
    exact hlive ((hS.pages.kindFree p).1 hf)
  refine hS.shrink ?_ hsub ?_ ?_ ?_ ?_
  · refine hS.pages.update hbase hn hdescs hkind (by rw [hrole.1]; exact hkind) ?_ ?_
      (hS.pages.page_lt hlive) hback
    · rw [hrole.1]
      simp [hkfree, hd]
    · rw [hrole.2.1]
      exact hS.pages.used p
  · intro c o hc
    have hTc := hsub c o hc
    have hKc : K' c = K c := by
      by_cases hp : c / pageSizeCells = p
      · rw [hKp c hp, hKT c hp (by rw [hc]; rfl)]
      · exact hK c hp
    rw [hKc]
    exact (hS.obj c o hTc).transport hbase hn ((hgen c).2 (hS.live hTc)) (hroles _).1 (hroles _).2.2
      (hroles _).2.1.ge (Or.inl (hmem c o hc))
  · intro c hc
    by_cases hp : c / pageSizeCells = p
    · exact hstartp c hp
    · rw [hstart c hp, hT c hp]
      exact hS.start c ((hgen c).1 hc)
  · intro q hk hspan
    rw [(hroles q).1] at hk
    rw [(hroles q).2.2] at hspan
    have hq : q ≠ p := by
      rintro rfl
      exact hkind hk
    rw [hT _ (by unfold pageSizeCells; omega)]
    exact hS.largeHead q hk hspan
  · intro c e hKc
    by_cases hp : c / pageSizeCells = p
    · rw [hKp c hp] at hKc
      cases hKc
    · rw [hK c hp] at hKc
      obtain ⟨o, hc, he, hKe⟩ := hS.moved c e hKc
      have hep := hdest c e hKc
      exact ⟨hKc, by rw [hT c hp, hc]; rfl, by rw [hT e hep, he]; rfl, by rw [hK e hep]; exact hKe⟩

/-- A large run is released with its object. -/
theorem releaseRun (hS : Shape L h T K) (head : Nat) {T' : ObjTable} (hbase : h'.base = h.base)
    (hn : h'.nPages = h.nPages) (hk : (h.descs head).kind = .Large)
    (hspan : 1 ≤ (h.descs head).nSpan)
    (hin : ∀ q, head ≤ q → q < head + (h.descs head).nSpan → (h'.descs q).kind = .Free ∧
      (h'.descs q).generation = .Free ∧ (h'.descs q).wordsUsed ≤ pageSizeCells)
    (hout : ∀ q, ¬ (head ≤ q ∧ q < head + (h.descs head).nSpan) → h'.descs q = h.descs q)
    (hstart : ∀ c, ¬ (head ≤ c / pageSizeCells ∧
      c / pageSizeCells < head + (h.descs head).nSpan) → h'.startBits c = h.startBits c)
    (hmem : ∀ c, ¬ (head ≤ c / pageSizeCells ∧
      c / pageSizeCells < head + (h.descs head).nSpan) → h'.mem c = h.mem c)
    (hT : ∀ c, c / pageSizeCells ≠ head → T' c = T c)
    (hThead : ∀ c, c / pageSizeCells = head → T' c = none)
    (hKhead : ∀ c, K c ≠ none → h.kindAt c ≠ .Large)
    (hKdest : ∀ c e, K c = some e → h.kindAt e ≠ .Large)
    (hback : h'.Backing) :
    Shape L h' T' K := by
  have hnotin : ∀ c o, T c = some o → c / pageSizeCells ≠ head →
      ¬ (head ≤ c / pageSizeCells ∧ c / pageSizeCells < head + (h.descs head).nSpan) := by
    intro c o hc hne hq
    have hkc := (hS.pages.run_page hk hq).1
    have := hS.pages.run_closed hk ((hS.obj c o hc).large hkc).2.2.1 hq
    exact hne this
  have hsub : ∀ c o, T' c = some o → c / pageSizeCells ≠ head ∧ T c = some o := by
    intro c o hc
    by_cases hp : c / pageSizeCells = head
    · rw [hThead c hp] at hc
      cases hc
    · exact ⟨hp, (hT c hp) ▸ hc⟩
  refine hS.shrink (hS.pages.releaseRun hbase hn hk hspan hin hout hback) (fun c o hc => (hsub c o hc).2)
    ?_ ?_ ?_ ?_
  · intro c o hc
    obtain ⟨hne, hTc⟩ := hsub c o hc
    have hq := hnotin c o hTc hne
    have hd := hout _ hq
    refine (hS.obj c o hTc).transport hbase hn ?_ ?_ (by rw [hd]) (by rw [hd]) (Or.inl (hmem c hq))
    · unfold genAt
      rw [hd]
      exact hS.live hTc
    · unfold kindAt
      rw [hd]
  · intro c hc
    by_cases hq : head ≤ c / pageSizeCells ∧ c / pageSizeCells < head + (h.descs head).nSpan
    · unfold genAt at hc
      exact absurd (hin _ hq.1 hq.2).2.1 hc
    · have hne : c / pageSizeCells ≠ head := by
        intro heq
        exact hq ⟨by omega, by omega⟩
      rw [hstart c hq, hT c hne]
      refine hS.start c ?_
      unfold genAt at hc ⊢
      rwa [hout _ hq] at hc
  · intro q hkq hs
    have hq : ¬ (head ≤ q ∧ q < head + (h.descs head).nSpan) := by
      intro hq
      rw [(hin q hq.1 hq.2).1] at hkq
      cases hkq
    rw [hout q hq] at hkq hs
    have hne : q * pageSizeCells / pageSizeCells ≠ head := by
      have : q ≠ head := by
        rintro rfl
        exact hq ⟨Nat.le_refl _, by omega⟩
      unfold pageSizeCells
      omega
    rw [hT _ hne]
    exact hS.largeHead q hkq hs
  · intro c e hKc
    obtain ⟨o, hc, he, hKe⟩ := hS.moved c e hKc
    have hc' : c / pageSizeCells ≠ head := by
      intro heq
      apply hKhead c (by rw [hKc]; simp)
      unfold kindAt
      rw [heq]
      exact hk
    have he' : e / pageSizeCells ≠ head := by
      intro heq
      apply hKdest c e hKc
      unfold kindAt
      rw [heq]
      exact hk
    exact ⟨hKc, by rw [hT c hc', hc]; rfl, by rw [hT e he', he]; rfl, hKe⟩

/-- A large run changes its generation. -/
theorem flipRun (hS : Shape L h T K) (head : Nat) {g : Generation} (hbase : h'.base = h.base)
    (hn : h'.nPages = h.nPages) (hk : (h.descs head).kind = .Large) (hg : g ≠ .Free)
    (hspan : 1 ≤ (h.descs head).nSpan) (hlive : (h.descs head).generation ≠ .Free)
    (hin : ∀ q, head ≤ q → q < head + (h.descs head).nSpan → (h'.descs q).generation = g)
    (hgen : ∀ q, ¬ (head ≤ q ∧ q < head + (h.descs head).nSpan) →
      (h'.descs q).generation = (h.descs q).generation)
    (hrole : ∀ q, (h'.descs q).kind = (h.descs q).kind ∧
      (h'.descs q).wordsUsed = (h.descs q).wordsUsed ∧ (h'.descs q).nSpan = (h.descs q).nSpan)
    (hstart : ∀ c, ¬ (head < c / pageSizeCells ∧
      c / pageSizeCells < head + (h.descs head).nSpan) → h'.startBits c = h.startBits c)
    (hclear : ∀ c, head < c / pageSizeCells → c / pageSizeCells < head + (h.descs head).nSpan →
      h'.startBits c = .none)
    (hmem : h'.mem = h.mem)
    (hback : h'.Backing) : Shape L h' T K := by
  have hlive' : ∀ c, h'.genAt c ≠ .Free → h.genAt c ≠ .Free := by
    intro c hc
    unfold genAt at hc ⊢
    by_cases hq : head ≤ c / pageSizeCells ∧ c / pageSizeCells < head + (h.descs head).nSpan
    · rw [(hS.pages.run_page hk hq).2]
      exact hlive
    · rwa [hgen _ hq] at hc
  refine hS.rebuild (hS.pages.flipRun hbase hn hk hg hspan hlive hin hgen hrole hback) ?_ ?_ ?_
  · intro c o hc
    refine (hS.obj c o hc).transport hbase hn ?_ (hrole _).1 (hrole _).2.2 (hrole _).2.1.ge
      (Or.inl (by rw [hmem]))
    unfold genAt
    by_cases hq : head ≤ c / pageSizeCells ∧ c / pageSizeCells < head + (h.descs head).nSpan
    · rw [hin _ hq.1 hq.2]
      exact hg
    · rw [hgen _ hq]
      exact hS.live hc
  · intro q hkq
    exact ⟨(hrole q).1 ▸ hkq, (hrole q).2.2⟩
  · intro c hc
    by_cases hq : head < c / pageSizeCells ∧ c / pageSizeCells < head + (h.descs head).nSpan
    · rw [hclear c hq.1 hq.2]
      symm
      rw [ObjInfo.pairOf_eq_none, Option.eq_none_iff_forall_ne_some]
      intro o ho
      have hq' : head ≤ c / pageSizeCells ∧ c / pageSizeCells < head + (h.descs head).nSpan :=
        ⟨by omega, hq.2⟩
      have hkc := (hS.pages.run_page hk hq').1
      have := hS.pages.run_closed hk ((hS.obj c o ho).large hkc).2.2.1 hq'
      omega
    · rw [hstart c hq]
      exact hS.start c (hlive' c hc)

end Shape

end NewGc
