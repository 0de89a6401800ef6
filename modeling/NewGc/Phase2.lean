import NewGc.Phase1

/-!
# Phase2 — following the forwarding markers

A rewrite replaces a word that leads to a copied object by the word that leads to the copy
(`redirect`).  Whatever order phase 2 visits the cells in, its effect is to redirect the words of a
set of pointer cells once: redirecting is idempotent, and no visit touches a marker or a header.
-/

namespace NewGc

open Library PageHeap

/-! ## Redirecting a word -/

/-- The word that leads to the copy when `w` leads to a copied object. -/
def redirect (L : HeapLayout) (h : PageHeap) (K : Forwarding) (w : Word) : Word :=
  match (h.targetCell L w).bind K with
  | some d => L.rewritePointerAddr w (h.cellAddr d)
  | none => w

theorem targetCell_congr {L : HeapLayout} {h h' : PageHeap} (hbase : h'.base = h.base)
    (hn : h'.nPages = h.nPages) (w : Word) : h'.targetCell L w = h.targetCell L w := by
  unfold targetCell cellOf
  simp only [pageOf_congr hbase hn, hbase]

theorem plainCell_congr {L : HeapLayout} {h h' : PageHeap} (hbase : h'.base = h.base)
    (hn : h'.nPages = h.nPages) {c c' i : Nat} {o : ObjInfo} (hmem : h'.mem (c' + i) = h.mem (c + i)) :
    h'.PlainCell L c' o i ↔ h.PlainCell L c o i := by
  unfold PlainCell
  rw [hmem, targetCell_congr hbase hn]

theorem redirect_congr {L : HeapLayout} {h h' : PageHeap} (hbase : h'.base = h.base)
    (hn : h'.nPages = h.nPages) (K : Forwarding) (w : Word) :
    redirect L h' K w = redirect L h K w := by
  unfold redirect
  rw [targetCell_congr hbase hn]
  simp only [cellAddr_congr hbase]

@[simp] theorem redirect_empty (L : HeapLayout) (h : PageHeap) (w : Word) :
    redirect L h Forwarding.empty w = w := by
  unfold redirect
  cases h.targetCell L w <;> rfl

theorem redirect_of_none {L : HeapLayout} {h : PageHeap} {K : Forwarding} {w : Word}
    (hw : (h.targetCell L w).bind K = none) : redirect L h K w = w := by
  unfold redirect
  rw [hw]

theorem redirect_of_some {L : HeapLayout} {h : PageHeap} {K : Forwarding} {w : Word} {c d : Nat}
    (hw : h.targetCell L w = some c) (hK : K c = some d) :
    redirect L h K w = L.rewritePointerAddr w (h.cellAddr d) := by
  unfold redirect
  rw [hw, Option.bind_some, hK]

theorem targetCell_some {L : HeapLayout} {h : PageHeap} {w : Word} {c : Nat}
    (hw : h.targetCell L w = some c) : ∃ addr kind, (L.classify w).pointer? = some (addr, kind) ∧
      h.pageOf addr = some (c / pageSizeCells) ∧ h.cellOf addr = c := by
  unfold targetCell at hw
  cases hp : (L.classify w).pointer? with
  | none => simp [hp] at hw
  | some r =>
      obtain ⟨addr, kind⟩ := r
      rw [hp] at hw
      simp only at hw
      split at hw
      · rename_i hin
        cases hw
        obtain ⟨q, hq⟩ := Option.isSome_iff_exists.1 hin
        exact ⟨addr, kind, rfl, by rw [hq, pageOf_eq hq], rfl⟩
      · cases hw

/-- A pointer rewritten to a cell of the reservation leads to that cell, with its kind. -/
theorem pointer?_rewriteTo {L : HeapLayout} {h : PageHeap} (hP : PagesOk h) {w : Word}
    {addr d : Nat} {kind : PointerKind} (hw : (L.classify w).pointer? = some (addr, kind))
    (hd : d < h.totalCells) :
    (L.classify (L.rewritePointerAddr w (h.cellAddr d))).pointer? = some (h.cellAddr d, kind) :=
  L.pointer?_rewrite hw (hP.cellAddr_lt hd) (hP.cellAddr_aligned d)

theorem targetCell_rewriteTo {L : HeapLayout} {h : PageHeap} (hP : PagesOk h) {w : Word}
    {c d : Nat} (hw : h.targetCell L w = some c) (hd : d < h.totalCells) :
    h.targetCell L (L.rewritePointerAddr w (h.cellAddr d)) = some d := by
  obtain ⟨addr, kind, hp, -, -⟩ := targetCell_some hw
  unfold targetCell
  rw [pointer?_rewriteTo hP hp hd]
  simp [pageOf_cellAddr hd]

/-- A word that is a pointer is no marker. -/
theorem plainWord_of_pointer {L : HeapLayout} {h : PageHeap} {w : Word} {r : Nat × PointerKind}
    (hw : (L.classify w).pointer? = some r) : h.plainWord L w = true := by
  unfold plainWord
  cases hc : L.classify w with
  | forwarded t => simp [hc, WordKind.pointer?] at hw
  | _ => rfl

/-- A marker leads nowhere. -/
theorem targetCell_forwarded {L : HeapLayout} {h : PageHeap} {w : Word} {t : Nat}
    (hw : L.classify w = .forwarded t) : h.targetCell L w = none := by
  unfold targetCell
  rw [hw]
  rfl

namespace Shape

variable {L : HeapLayout} {h h' : PageHeap} {T : ObjTable} {K : Forwarding}

theorem redirect_idem (hS : Shape L h T K) (w : Word) :
    redirect L h K (redirect L h K w) = redirect L h K w := by
  cases ht : h.targetCell L w with
  | none =>
      have hnone : (h.targetCell L w).bind K = none := by rw [ht]; rfl
      rw [redirect_of_none hnone, redirect_of_none hnone]
  | some c =>
      cases hK : K c with
      | none =>
          have hnone : (h.targetCell L w).bind K = none := by rw [ht]; exact hK
          rw [redirect_of_none hnone, redirect_of_none hnone]
      | some d =>
          obtain ⟨o, -, hd, hKd⟩ := hS.moved c d hK
          rw [redirect_of_some ht hK]
          apply redirect_of_none
          rw [targetCell_rewriteTo hS.pages ht (hS.cell_lt hd)]
          exact hKd

theorem redirect_plain (hS : Shape L h T K) {w : Word} (hw : h.plainWord L w = true) :
    h.plainWord L (redirect L h K w) = true := by
  cases ht : h.targetCell L w with
  | none => rwa [redirect_of_none (by rw [ht]; rfl)]
  | some c =>
      cases hK : K c with
      | none => rwa [redirect_of_none (by rw [ht]; exact hK)]
      | some d =>
          obtain ⟨o, -, hd, -⟩ := hS.moved c d hK
          obtain ⟨addr, kind, hp, -, -⟩ := targetCell_some ht
          rw [redirect_of_some ht hK]
          exact plainWord_of_pointer (pointer?_rewriteTo hS.pages hp (hS.cell_lt hd))

theorem redirect_marker (hS : Shape L h T K) {c d : Nat} (hK : K c = some d) :
    redirect L h K (h.mem c) = h.mem c :=
  redirect_of_none (by rw [targetCell_forwarded (hS.classify_marker hK)]; rfl)

/-- `maybe_rewrite` redirects. -/
theorem maybeRewrite_getD (hS : Shape L h T K) (w : Word) :
    (h.maybeRewrite L w).getD w = redirect L h K w := by
  unfold maybeRewrite redirect targetCell
  cases hp : (L.classify w).pointer? with
  | none => rfl
  | some r =>
      obtain ⟨addr, kind⟩ := r
      simp only
      cases hpage : h.pageOf addr with
      | none => simp
      | some q =>
          have hq := pageOf_eq hpage
          simp only [Option.isSome_some, if_true, Option.bind_some]
          by_cases hfree : (h.descs q).generation = .Free
          · rw [if_pos hfree]
            have hK : K (h.cellOf addr) = none := by
              rw [Option.eq_none_iff_forall_ne_some]
              intro d hd
              obtain ⟨o, hc, -, -⟩ := hS.moved _ d hd
              exact hS.live hc (by unfold genAt; rw [← hq]; exact hfree)
            rw [hK]
            rfl
          · rw [if_neg hfree, hS.realForwardTargetAt (by unfold genAt; rw [← hq]; exact hfree)]
            cases K (h.cellOf addr) <;> rfl

/-- Rewriting a cell in place. -/
theorem rewriteCell_eq (hS : Shape L h T K) (c : Nat) :
    h.rewriteCell L c = h.setCell c (redirect L h K (h.mem c)) := by
  unfold rewriteCell
  rw [← hS.maybeRewrite_getD]
  cases hw : h.maybeRewrite L (h.mem c) with
  | none =>
      unfold setCell
      rw [Option.getD_none, Function.update_eq_self]
  | some w => rfl

end Shape

/-! ## Sets of redirected cells -/

/-- The words of the cells in `S` have been redirected, nothing else has changed. -/
structure Rewritten (L : HeapLayout) (K : Forwarding) (h h' : PageHeap) (S : Nat → Prop) : Prop where
  frame : h' = { h with mem := h'.mem }
  inside : ∀ c, S c → h'.mem c = redirect L h K (h.mem c)
  outside : ∀ c, ¬ S c → h'.mem c = h.mem c

/-- A pointer cell of some object. -/
def Scannable (T : ObjTable) (c : Nat) : Prop := ∃ x o i, T x = some o ∧ o.IsPtr i ∧ c = x + i

theorem Shape.not_header_of_scannable {L : HeapLayout} {h : PageHeap} {T : ObjTable}
    {K : Forwarding} (hS : Shape L h T K) {c : Nat} {o : ObjInfo} (hc : Scannable T c)
    (ho : T c = some o) : o.isCons = true := by
  obtain ⟨x, o', i, hx, hi, rfl⟩ := hc
  have hin := (hS.wf hx).inside i hi
  have hxc := hS.cell_inj hx ho hin (hS.wf ho).pos (k := 0) rfl
  have hi0 : i = 0 := by omega
  subst hi0
  rw [Nat.add_zero, hx] at ho
  cases ho
  cases hcons : o.isCons with
  | true => rfl
  | false =>
      have := (hS.wf hx).behindHeader hcons 0 hi
      omega

namespace Rewritten

variable {L : HeapLayout} {h h' h'' : PageHeap} {T : ObjTable} {K : Forwarding}
  {S S' : Nat → Prop}

theorem refl (L : HeapLayout) (K : Forwarding) (h : PageHeap) :
    Rewritten L K h h fun _ => False := ⟨rfl, fun _ hc => hc.elim, fun _ _ => rfl⟩

theorem base (hR : Rewritten L K h h' S) : h'.base = h.base := by rw [hR.frame]

theorem nPages (hR : Rewritten L K h h' S) : h'.nPages = h.nPages := by rw [hR.frame]

theorem descs (hR : Rewritten L K h h' S) : h'.descs = h.descs := by rw [hR.frame]

theorem startBits (hR : Rewritten L K h h' S) : h'.startBits = h.startBits := by rw [hR.frame]

theorem allocRegions (hR : Rewritten L K h h' S) : h'.allocRegions = h.allocRegions := by
  rw [hR.frame]

theorem cards (hR : Rewritten L K h h' S) : h'.cards = h.cards := by rw [hR.frame]

theorem control (hR : Rewritten L K h h' S) : SameControl h h' := by
  rw [hR.frame]
  exact ⟨rfl, rfl, rfl, rfl, rfl, rfl, rfl⟩

theorem ext {S' : Nat → Prop} (hR : Rewritten L K h h' S) (hiff : ∀ c, S c ↔ S' c) :
    Rewritten L K h h' S' where
  frame := hR.frame
  inside := fun c hc => hR.inside c ((hiff c).2 hc)
  outside := fun c hc => hR.outside c fun hs => hc ((hiff c).1 hs)

/-- A cell holds its old word or the redirected one. -/
theorem mem_or (hR : Rewritten L K h h' S) (c : Nat) :
    h'.mem c = redirect L h K (h.mem c) ∨ h'.mem c = h.mem c := by
  by_cases hc : S c
  · exact Or.inl (hR.inside c hc)
  · exact Or.inr (hR.outside c hc)

/-- Redirecting pointer cells keeps the shape. -/
theorem shape (hR : Rewritten L K h h' S) (hS : Shape L h T K) (hscan : ∀ c, S c → Scannable T c) :
    Shape L h' T K := by
  refine hS.transport hR.base hR.nPages ?_ hR.startBits ?_ ?_ ?_
  · intro p
    rw [hR.descs]
    exact PageDesc.SameRole.refl _
  · rw [hR.frame]
  · exact fun k hk => Or.inl (by rwa [hR.cards] at hk)
  · intro c o hc
    by_cases hin : S c
    · rw [hR.inside c hin]
      cases hK : K c with
      | some d => exact Or.inl (hS.redirect_marker hK)
      | none =>
          exact Or.inr ⟨rfl, hS.not_header_of_scannable (hscan c hin) hc,
            hS.redirect_plain ((hS.obj c o hc).plain hK)⟩
    · exact Or.inl (hR.outside c hin)

theorem trans (hS : Shape L h T K) (h₁ : Rewritten L K h h' S) (h₂ : Rewritten L K h' h'' S') :
    Rewritten L K h h'' fun c => S c ∨ S' c where
  frame := by
    rw [h₂.frame, h₁.frame]
  inside := by
    intro c hc
    by_cases hc' : S' c
    · rw [h₂.inside c hc', redirect_congr h₁.base h₁.nPages]
      rcases h₁.mem_or c with heq | heq
      · rw [heq, hS.redirect_idem]
      · rw [heq]
    · rw [h₂.outside c hc']
      exact h₁.inside c (hc.resolve_right hc')
  outside := by
    intro c hc
    rw [h₂.outside c fun h' => hc (Or.inr h'), h₁.outside c fun h' => hc (Or.inl h')]

end Rewritten

namespace Shape

variable {L : HeapLayout} {h : PageHeap} {T : ObjTable} {K : Forwarding}

theorem rewriteCell (hS : Shape L h T K) (c : Nat) :
    Rewritten L K h (h.rewriteCell L c) fun x => x = c := by
  rw [hS.rewriteCell_eq]
  refine ⟨rfl, ?_, ?_⟩
  · rintro x rfl
    exact Function.update_self ..
  · intro x hx
    exact Function.update_of_ne hx ..

theorem rewriteCells (hS : Shape L h T K) (cells : List Nat) (hscan : ∀ c ∈ cells, Scannable T c) :
    Rewritten L K h (h.rewriteCells L cells) fun x => x ∈ cells := by
  unfold PageHeap.rewriteCells
  refine foldl_prefix (I := fun done h' => Rewritten L K h h' fun x => x ∈ done) cells ?_ ?_
  · intro done c h' hpre hR
    have hdone : ∀ x, x ∈ done → Scannable T x := fun x hx =>
      hscan x (hpre.subset (List.mem_append_left _ hx))
    refine (Rewritten.trans hS hR ((hR.shape hS hdone).rewriteCell c)).ext ?_
    simp
  · exact (Rewritten.refl L K h).ext (by simp)

theorem startedPointerCells (hS : Shape L h T K) {c : Nat} {o : ObjInfo} (hc : T c = some o)
    (hK : K c = none) : h.startedPointerCells L c = .ok (o.totalCells, o.ptrCells c) := by
  unfold PageHeap.startedPointerCells
  rw [hS.isConsStartAt hc]
  cases hcons : o.isCons with
  | true =>
      rw [(hS.wf hc).cons hcons]
      simp
      rfl
  | false =>
      rw [(hS.obj c o hc).header hK hcons, if_neg (by simp), hS.accessHead hc]
      rfl

end Shape

theorem scannable_ptrCells {T : ObjTable} {c x : Nat} {o : ObjInfo} (hc : T c = some o)
    (hx : x ∈ o.ptrCells c) : Scannable T x := by
  obtain ⟨i, hi, rfl⟩ := ObjInfo.mem_ptrCells.1 hx
  exact ⟨c, o, i, hc, hi, rfl⟩

/-- Redirecting pointer cells touches backing alone. -/
theorem Shape.accessRewrite (hS : Shape L h T K) {cells : List Nat}
    (hscan : ∀ c ∈ cells, Scannable T c) : h.accessRewrite L cells = .ok () := by
  unfold PageHeap.accessRewrite
  rw [require_eq_ok, List.all_eq_true]
  intro c hc
  obtain ⟨x, o, i, hx, hi, rfl⟩ := hscan c hc
  rw [hS.committed hx ((hS.wf hx).inside i hi), hS.followable, Bool.and_true]

/-! ## Sweeps -/

/-- Pointer cells have been redirected, among them the needed ones. -/
def Sweep (L : HeapLayout) (K : Forwarding) (T : ObjTable) (h : PageHeap) (need : Nat → Prop)
    (h' : PageHeap) : Prop :=
  ∃ S, Rewritten L K h h' S ∧ (∀ c, S c → Scannable T c) ∧ ∀ c, need c → S c

/-- The pointer cells of the objects in `P` that have not been moved. -/
def PtrCellsOf (T : ObjTable) (K : Forwarding) (P : Nat → Prop) (c : Nat) : Prop :=
  ∃ x o i, T x = some o ∧ K x = none ∧ P x ∧ o.IsPtr i ∧ c = x + i

namespace Sweep

variable {L : HeapLayout} {h h' : PageHeap} {T : ObjTable} {K : Forwarding} {need : Nat → Prop}

theorem mono {need' : Nat → Prop} (hW : Sweep L K T h need h') (hsub : ∀ c, need' c → need c) :
    Sweep L K T h need' h' := by
  obtain ⟨S, hR, hscan, hneed⟩ := hW
  exact ⟨S, hR, hscan, fun c hc => hneed c (hsub c hc)⟩

theorem shape (hW : Sweep L K T h need h') (hS : Shape L h T K) : Shape L h' T K := by
  obtain ⟨S, hR, hscan, -⟩ := hW
  exact hR.shape hS hscan

theorem genAt (hW : Sweep L K T h need h') (c : Nat) : h'.genAt c = h.genAt c := by
  obtain ⟨S, hR, -, -⟩ := hW
  unfold PageHeap.genAt
  rw [hR.descs]

theorem rewriteCells (hW : Sweep L K T h need h') (hS : Shape L h T K) (cells : List Nat)
    (hscan : ∀ c ∈ cells, Scannable T c) :
    Sweep L K T h (fun c => need c ∨ c ∈ cells) (h'.rewriteCells L cells) := by
  have hS' := hW.shape hS
  obtain ⟨S, hR, hscan', hneed⟩ := hW
  refine ⟨fun c => S c ∨ c ∈ cells, Rewritten.trans hS hR (hS'.rewriteCells cells hscan), ?_, ?_⟩
  · rintro c (hc | hc)
    · exact hscan' c hc
    · exact hscan c hc
  · rintro c (hc | hc)
    · exact Or.inl (hneed c hc)
    · exact Or.inr hc

/-- One round of the cell loop of `rewrite_page`. -/
theorem rewritePageCell {E : GcPanic → Prop} {q c : Nat} (hS : Shape L h T K)
    (hq : c / pageSizeCells = q) (hlive : (h.descs q).generation ≠ .Free)
    (hW : Sweep L K T h (fun x => need x ∨
      PtrCellsOf T K (fun y => y / pageSizeCells = q ∧ y < c) x) h') :
    Outcome E (rewritePageCell L c h') fun r => 1 ≤ r.1 ∧ Sweep L K T h (fun x => need x ∨
      PtrCellsOf T K (fun y => y / pageSizeCells = q ∧ y < c + r.1) x) r.2 := by
  have hS' := hW.shape hS
  have hlive' : h'.genAt c ≠ .Free := by
    rw [hW.genAt]
    unfold PageHeap.genAt
    rw [hq]
    exact hlive
  -- cells at which nothing is to be done
  have hskip : (∀ o, T c = some o → K c ≠ none) → Sweep L K T h (fun x => need x ∨
      PtrCellsOf T K (fun y => y / pageSizeCells = q ∧ y < c + 1) x) h' := by
    intro hnone
    refine hW.mono ?_
    rintro x (hx | ⟨y, o, i, hy, hKy, ⟨hyq, hyc⟩, hi, rfl⟩)
    · exact Or.inl hx
    · refine Or.inr ⟨y, o, i, hy, hKy, ⟨hyq, ?_⟩, hi, rfl⟩
      have hne : y ≠ c := by
        rintro rfl
        exact hnone o hy hKy
      omega
  unfold NewGc.PageHeap.rewritePageCell
  split
  · rename_i hstart
    refine ⟨Nat.le_refl 1, hskip ?_⟩
    intro o ho
    rw [hS'.isStartAt ho] at hstart
    cases hstart
  · rename_i hstart
    obtain ⟨o, ho⟩ := (hS'.isStartAt_iff hlive').1 (by simpa using hstart)
    rw [hS'.accessHead ho, hS'.realForwardTargetAt hlive']
    dsimp only [bind, Except.bind]
    split
    · rename_i hfwd
      refine ⟨Nat.le_refl 1, hskip ?_⟩
      intro o _ hK
      rw [hK] at hfwd
      cases hfwd
    · rename_i hfwd
      have hK : K c = none := by
        cases hK : K c with
        | none => rfl
        | some d => rw [hK] at hfwd; exact absurd rfl hfwd
      rw [hS'.startedPointerCells ho hK]
      dsimp only
      rw [hS'.accessRewrite fun x hx => scannable_ptrCells ho hx]
      have hpos := (hS.wf ho).pos
      refine ⟨hpos, (hW.rewriteCells hS (o.ptrCells c) fun x hx => scannable_ptrCells ho hx).mono ?_⟩
      rintro x (hx | ⟨y, o', i, hy, hKy, ⟨hyq, hyc⟩, hi, rfl⟩)
      · exact Or.inl (Or.inl hx)
      · by_cases hlt : y < c
        · exact Or.inl (Or.inr ⟨y, o', i, hy, hKy, ⟨hyq, hlt⟩, hi, rfl⟩)
        · right
          have hyc' : c = y := hS.cell_inj ho hy (i := y - c) (k := 0)
            (by dsimp only at hyc; omega) (hS.wf hy).pos (by omega)
          subst hyc'
          rw [ho] at hy
          cases hy
          exact ObjInfo.mem_ptrCells.2 ⟨i, hi, rfl⟩

/-- `rewrite_page` redirects the unmoved objects of its page. -/
theorem rewritePage {E : GcPanic → Prop} (hS : Shape L h T K) (hW : Sweep L K T h need h') (q : Nat) :
    Outcome E (h'.rewritePage L q) (Sweep L K T h fun x => need x ∨
      PtrCellsOf T K (fun y => y / pageSizeCells = q) x) := by
  have hdescs : h'.descs = h.descs := by
    obtain ⟨S, hR, -, -⟩ := hW
    exact hR.descs
  unfold PageHeap.rewritePage
  rw [hdescs]
  simp only
  split
  · rename_i hfree
    refine hW.mono ?_
    rintro x (hx | ⟨y, o, i, hy, -, hyq, -, -⟩)
    · exact hx
    · exact absurd (by unfold PageHeap.genAt; rw [hyq]; exact hfree) (hS.live hy)
  · rename_i hlive
    have hused := hS.pages.used q
    refine (Outcome.cellLoop (I := fun c h₁ => q * pageSizeCells ≤ c ∧ Sweep L K T h (fun x =>
      need x ∨ PtrCellsOf T K (fun y => y / pageSizeCells = q ∧ y < c) x) h₁) ?_ _ _ _
      (Nat.le_refl _) ⟨Nat.le_refl _, ?_⟩).mono ?_
    · rintro c h₁ hlt ⟨hle, hW₁⟩
      refine (Sweep.rewritePageCell hS ?_ hlive hW₁).mono ?_
      · unfold pageSizeCells at *
        omega
      · rintro r ⟨hr, hW₂⟩
        exact ⟨hr, by omega, hW₂⟩
    · refine hW.mono ?_
      rintro x (hx | ⟨y, o, i, hy, -, ⟨hyq, hyc⟩, -, -⟩)
      · exact hx
      · unfold pageSizeCells at *
        omega
    · rintro h₁ ⟨c, hlast, -, hW₁⟩
      refine hW₁.mono ?_
      rintro x (hx | ⟨y, o, i, hy, hKy, hyq, hi, rfl⟩)
      · exact Or.inl hx
      · refine Or.inr ⟨y, o, i, hy, hKy, ⟨hyq, ?_⟩, hi, rfl⟩
        have hO := hS.obj y o hy
        have hpos := hO.wf.pos
        by_cases hk : h.kindAt y = .Large
        · obtain ⟨hmod, -, -, -, hu⟩ := hO.large hk
          rw [hyq] at hu
          unfold pageSizeCells at *
          omega
        · have hin := hO.small hk
          rw [hyq] at hin
          unfold pageSizeCells at *
          omega

/-- `rewrite_pinned_object` redirects an unmoved object. -/
theorem rewritePinnedObject {E : GcPanic → Prop} (hS : Shape L h T K) (hW : Sweep L K T h need h')
    {c : Nat} (hc : h.genAt c = .Free ∨ (T c).isSome) :
    Outcome E (h'.rewritePinnedObject L c) (Sweep L K T h fun x => need x ∨
      PtrCellsOf T K (fun y => y = c) x) := by
  have hS' := hW.shape hS
  have hgen := hW.genAt c
  unfold PageHeap.genAt at hgen
  unfold PageHeap.rewritePinnedObject
  rw [hgen]
  split
  · rename_i hfree
    refine hW.mono ?_
    rintro x (hx | ⟨y, o, i, hy, -, rfl, -, -⟩)
    · exact hx
    · exact absurd hfree (hS.live hy)
  · rename_i hlive
    obtain ⟨o, ho⟩ := Option.isSome_iff_exists.1 (hc.resolve_left hlive)
    rw [hS'.accessHead ho, hS'.realForwardTargetAt (by rw [hW.genAt]; exact hlive)]
    dsimp only [bind, Except.bind]
    split
    · rename_i hfwd
      refine hW.mono ?_
      rintro x (hx | ⟨y, o', i, hy, hKy, rfl, -, -⟩)
      · exact hx
      · rw [hKy] at hfwd
        cases hfwd
    · rename_i hfwd
      have hK : K c = none := by
        cases hK : K c with
        | none => rfl
        | some d => rw [hK] at hfwd; exact absurd rfl hfwd
      rw [hS'.startedPointerCells ho hK]
      dsimp only
      rw [hS'.accessRewrite fun x hx => scannable_ptrCells ho hx]
      refine (hW.rewriteCells hS (o.ptrCells c) fun x hx => scannable_ptrCells ho hx).mono ?_
      rintro x (hx | ⟨y, o', i, hy, hKy, rfl, hi, rfl⟩)
      · exact Or.inl hx
      · right
        rw [ho] at hy
        cases hy
        exact ObjInfo.mem_ptrCells.2 ⟨i, hi, rfl⟩

end Sweep

/-! ## Presented slots -/

/-- What a closure does when it is called with `e`: it presents slots, `must` among them, and the
cells it presents are pointer cells of objects. -/
def Presents (L : HeapLayout) (v : RootVisitor) (e : PageEvacuator) (T : ObjTable)
    (must : Slot → Prop) : Prop :=
  ∃ slots, v e = .ok (e.visitSlots L slots) ∧ (∀ s, must s → s ∈ slots) ∧
    ∀ c, Slot.cell c ∈ slots → Scannable T c

/-- The words outside the reservation have been redirected at the addresses in `X`. -/
structure RewrittenExt (L : HeapLayout) (K : Forwarding) (h : PageHeap) (ext ext' : Nat → Word)
    (X : Nat → Prop) : Prop where
  inside : ∀ a, X a → ext' a = redirect L h K (ext a)
  outside : ∀ a, ¬ X a → ext' a = ext a

/-- The result of presenting slots in `Rewrite` mode. -/
structure VisitedRewrite (L : HeapLayout) (K : Forwarding) (slots : List Slot)
    (e e' : PageEvacuator) : Prop where
  heap : Rewritten L K e.heap e'.heap fun c => Slot.cell c ∈ slots
  ext : RewrittenExt L K e.heap e.ext e'.ext fun a => Slot.ext a ∈ slots
  mode : e'.mode = e.mode
  fromGen : e'.fromGen = e.fromGen
  destGen : e'.destGen = e.destGen

theorem visitSlots_rewrite {L : HeapLayout} {T : ObjTable} {K : Forwarding} {e : PageEvacuator}
    (hmode : e.mode = .rewrite) (hS : Shape L e.heap T K) (slots : List Slot)
    (hscan : ∀ c, Slot.cell c ∈ slots → Scannable T c) :
    VisitedRewrite L K slots e (e.visitSlots L slots) := by
  unfold PageEvacuator.visitSlots
  refine foldl_prefix (I := fun done e' => VisitedRewrite L K done e e') slots ?_ ?_
  · intro done s e' hpre hV
    have hS' : Shape L e'.heap T K := hV.heap.shape hS fun c hc =>
      hscan c (hpre.subset (List.mem_append_left _ hc))
    have hmode' : e'.mode = .rewrite := hV.mode.trans hmode
    cases s with
    | ext a =>
        have hstep : PageEvacuator.visitSlot L e' (.ext a) =
            { e' with ext := Function.update e'.ext a (redirect L e.heap K (e'.ext a)) } := by
          unfold PageEvacuator.visitSlot PageEvacuator.visit
          simp only [hmode']
          rw [← redirect_congr hV.heap.base hV.heap.nPages, ← hS'.maybeRewrite_getD]
          cases hw : e'.heap.maybeRewrite L (e'.ext a) with
          | none =>
              rw [Option.getD_none, Function.update_eq_self]
              cases e'
              cases hmode'
              rfl
          | some w => rfl
        rw [hstep]
        refine ⟨hV.heap.ext (by simp), ⟨?_, ?_⟩, hV.mode, hV.fromGen, hV.destGen⟩
        · intro b hb
          by_cases hab : b = a
          · subst hab
            show Function.update e'.ext b _ b = _
            rw [Function.update_self]
            by_cases hold : Slot.ext b ∈ done
            · rw [hV.ext.inside b hold, hS.redirect_idem]
            · rw [hV.ext.outside b hold]
          · show Function.update e'.ext a _ b = _
            rw [Function.update_of_ne hab]
            refine hV.ext.inside b ?_
            simpa [hab] using hb
        · intro b hb
          have hab : b ≠ a := by
            rintro rfl
            simp at hb
          show Function.update e'.ext a _ b = _
          rw [Function.update_of_ne hab]
          refine hV.ext.outside b ?_
          intro hold
          exact hb (List.mem_append_left _ hold)
    | cell c =>
        have hstep : PageEvacuator.visitSlot L e' (.cell c) =
            { e' with heap := e'.heap.rewriteCell L c } := by
          unfold PageEvacuator.visitSlot PageEvacuator.visitCell
          simp only [hmode']
        rw [hstep]
        refine ⟨(Rewritten.trans hS hV.heap (hS'.rewriteCell c)).ext ?_, ⟨?_, ?_⟩, hV.mode,
          hV.fromGen, hV.destGen⟩
        · intro x
          simp
        · intro a ha
          exact hV.ext.inside a (by simpa using ha)
        · intro a ha
          exact hV.ext.outside a (by simpa using ha)
  · exact ⟨(Rewritten.refl L K e.heap).ext (by simp), ⟨by simp, by simp⟩, rfl, rfl, rfl⟩

/-- What phase 2 does to a heap with moved objects: it redirects pointer cells, among them the
presented ones, those of the unmoved objects of `destGen` and those of the pinned objects. -/
def Phase2Done (L : HeapLayout) (K : Forwarding) (T : ObjTable) (destGen : Generation)
    (must : Slot → Prop) (h : PageHeap) (ext : Nat → Word) (r : PageHeap × (Nat → Word)) : Prop :=
  Sweep L K T h (fun c => must (.cell c) ∨
      PtrCellsOf T K (fun x => h.genAt x = destGen ∨ x ∈ h.pinnedCells) c) r.1 ∧
    ∃ X, RewrittenExt L K h ext r.2 X ∧ ∀ a, must (.ext a) → X a

theorem phase2Rewrite_done {L : HeapLayout} {T : ObjTable} {K : Forwarding} {h : PageHeap}
    {E : GcPanic → Prop} (ext : Nat → Word) (fromGen destGen : Generation) {visitRoots : RootVisitor}
    {must : Slot → Prop} (hS : Shape L h T K)
    (hpin : ∀ c ∈ h.pinnedCells, h.genAt c = .Free ∨ (T c).isSome)
    (hv : Presents L visitRoots (.new h ext fromGen destGen .rewrite) T must) :
    Outcome E (h.phase2Rewrite L ext fromGen destGen visitRoots)
      (Phase2Done L K T destGen must h ext) := by
  obtain ⟨slots, hcall, hmust, hscan⟩ := hv
  have hV := visitSlots_rewrite (e := .new h ext fromGen destGen .rewrite) rfl hS slots hscan
  unfold phase2Rewrite
  rw [hcall]
  generalize PageEvacuator.visitSlots L _ slots = e at hV
  have hW₀ : Sweep L K T h (fun c => must (.cell c)) e.heap :=
    ⟨_, hV.heap, hscan, fun c hc => hmust _ hc⟩
  have hpages : ∀ q, q ∈ e.heap.pagesInGen destGen ↔ q < h.nPages ∧
      (h.descs q).generation = destGen := by
    intro q
    rw [mem_pagesInGen, hV.heap.descs, hV.heap.nPages]
    rfl
  show Outcome E ((e.heap.pagesInGen destGen).foldlM (rewritePage L) e.heap >>= fun h₁ => _) _
  refine (Outcome.foldlM (I := fun done h₁ => Sweep L K T h (fun c => must (.cell c) ∨
    PtrCellsOf T K (fun x => x / pageSizeCells ∈ done) c) h₁) _ ?_ ?_).bind ?_
  · intro done q h₁ _ hW
    refine (Sweep.rewritePage hS hW q).mono ?_
    intro h₂ hW₂
    refine hW₂.mono ?_
    rintro c (hc | ⟨x, o, i, hx, hK, hxd, hi, rfl⟩)
    · exact Or.inl (Or.inl hc)
    · rw [List.mem_append, List.mem_singleton] at hxd
      rcases hxd with hxd | hxd
      · exact Or.inl (Or.inr ⟨x, o, i, hx, hK, hxd, hi, rfl⟩)
      · exact Or.inr ⟨x, o, i, hx, hK, hxd, hi, rfl⟩
  · refine hW₀.mono ?_
    rintro c (hc | ⟨x, o, i, -, -, hxd, -, -⟩)
    · exact hc
    · cases hxd
  · intro h₁ hW₁
    have hcontrol : SameControl h h₁ := by
      obtain ⟨S, hR, -, -⟩ := hW₁
      exact hR.control
    rw [hcontrol.hashOrder, hcontrol.pinnedCells]
    have hperm := h.hashOrder.perm h.pinnedCells
    refine (Outcome.foldlM (I := fun done h₂ => Sweep L K T h (fun c => must (.cell c) ∨
      PtrCellsOf T K (fun x => h.genAt x = destGen ∨ x ∈ done) c) h₂) _ ?_ ?_).bind ?_
    · intro done c h₂ hpre hW
      have hc : c ∈ h.pinnedCells :=
        hperm.subset (hpre.subset (List.mem_append_right _ List.mem_cons_self))
      refine (Sweep.rewritePinnedObject hS hW (hpin c hc)).mono ?_
      intro h₃ hW₃
      refine hW₃.mono ?_
      rintro y (hy | ⟨x, o, i, hx, hK, hxd, hi, rfl⟩)
      · exact Or.inl (Or.inl hy)
      · rw [List.mem_append, List.mem_singleton, ← or_assoc] at hxd
        rcases hxd with hxd | hxd
        · exact Or.inl (Or.inr ⟨x, o, i, hx, hK, hxd, hi, rfl⟩)
        · exact Or.inr ⟨x, o, i, hx, hK, hxd, hi, rfl⟩
    · refine hW₁.mono ?_
      rintro c (hc | ⟨x, o, i, hx, hK, hxd, hi, rfl⟩)
      · exact Or.inl hc
      · rcases hxd with hgen | hnil
        · refine Or.inr ⟨x, o, i, hx, hK, ?_, hi, rfl⟩
          exact (hpages _).2 ⟨hS.pages.page_lt (hS.live hx), hgen⟩
        · cases hnil
    · intro h₂ hW₂
      refine ⟨hW₂.mono ?_, _, hV.ext, fun a ha => hmust _ ha⟩
      rintro c (hc | ⟨x, o, i, hx, hK, hxd, hi, rfl⟩)
      · exact Or.inl hc
      · refine Or.inr ⟨x, o, i, hx, hK, ?_, hi, rfl⟩
        exact hxd.imp_right fun hp => hperm.mem_iff.2 hp

end NewGc
