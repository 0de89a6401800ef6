import NewGc.Transparency
import NewGc.Lisp.Renaming

/-!
# Direct — the page heap behind the evaluator

In direct mode the evaluator runs on a page heap of its own.  It gathers its root words into a
vector, and the collection rewrites them there.  A collection that keeps the object graph keeps the
collector's part of the contract: it relocates what the roots lead to.
-/

namespace NewGc.Lisp

open Library

/-! ## The heap -/

/-- The page heap with the settings of its triggers. -/
structure DirectHeap where
  pages : PageHeap
  autoGcTriggerBytes : Nat
  gcBudgetMinBytes : Nat
  tenuredFullThresholdBps : Nat

namespace DirectHeap

/-- The slots of the vector of roots, and what they hold. -/
def slots (roots : List Word) : List Nat := List.range roots.length

def external (roots : List Word) (a : Nat) : Word := roots.getD a LispLayout.nil

/-- `recompute_auto_trigger`. -/
def recomputeAutoTrigger (s : DirectHeap) : DirectHeap :=
  { s with
    pages := { s.pages with bytesAllocSinceGc := 0 }
    autoGcTriggerBytes := max (s.pages.tenuredUsedBytes / 2) s.gcBudgetMinBytes }

/-- The bytes in use on the pages of a generation. -/
def usedBytes (s : DirectHeap) (g : Generation) : Nat :=
  ((s.pages.pagesInGen g).map fun p => (s.pages.descs p).wordsUsed * 8).sum

/-- `stats`. -/
def stats (s : DirectHeap) : GcStats where
  totalUsedBytes := s.usedBytes .G0 + s.usedBytes .G1 + s.usedBytes .Tenured
  g0UsedBytes := s.usedBytes .G0
  tenuredUsedBytes := s.usedBytes .Tenured
  freePages := s.pages.countPagesInGen .Free
  bytesAllocSinceGc := s.pages.bytesAllocSinceGc
  autoGcTriggerBytes := s.autoGcTriggerBytes

/-- The entry point behind a collection of the evaluator. -/
def cycle (s : DirectHeap) (roots : List Word) :
    Collection → Except GcPanic (PageHeap × (Nat → Word))
  | .minor => do
      let (_, h, ext) ← s.pages.collectMinor lispLayout (external roots)
        (rootsVisitor lispLayout (slots roots))
      return (h, ext)
  | .major => do
      let (_, h, ext) ← s.pages.collectMajor lispLayout (external roots)
        (rootsVisitor lispLayout (slots roots))
      return (h, ext)
  | .auto => do
      let (_, h, ext) ← s.pages.collectAuto lispLayout (external roots) s.tenuredFullThresholdBps
        (rootsVisitor lispLayout (slots roots))
      return (h, ext)
  | .full => do
      let (_, h, ext) ← s.pages.collectFull lispLayout (external roots)
        (rootsVisitor lispLayout (slots roots))
      return (h, ext)

/-- A collection; only `collect_auto` sets the trigger itself. -/
def collect (kind : Collection) (s : DirectHeap) (roots : List Word) :
    Option (List Word × DirectHeap) :=
  match s.cycle roots kind with
  | .ok (h, ext) =>
      let s' := { s with pages := h }
      some ((slots roots).map ext, if kind = .auto then s'.recomputeAutoTrigger else s')
  | .error _ => none

end DirectHeap

/-- The heap operations in direct mode. -/
def direct : Heap DirectHeap where
  mode := .Direct
  tryAllocConsIn s :=
    let (c, h) := s.pages.tryAllocConsIn .G0
    (c.map h.cellAddr, { s with pages := h })
  tryAllocBoxedIn s n :=
    let (c, h) := s.pages.tryAllocBoxedIn .G0 n
    (c.map h.cellAddr, { s with pages := h })
  load s a := s.pages.mem (s.pages.cellOf a)
  store s a w := { s with pages := s.pages.setCell (s.pages.cellOf a) w }
  markCardAt s a := { s with pages := s.pages.markCardAt a }
  setGcBudgetMinBytes s n := { s with gcBudgetMinBytes := max n 1 }.recomputeAutoTrigger
  shouldCollect s := decide (s.autoGcTriggerBytes ≤ s.pages.bytesAllocSinceGc)
  shouldCollectMajor s := s.pages.shouldCollectMajor s.tenuredFullThresholdBps
  recomputeAutoTrigger := DirectHeap.recomputeAutoTrigger
  stats := DirectHeap.stats
  collect := DirectHeap.collect
  pollSafepoint s roots := some (roots, s)

/-! ## Tagged words -/

/-- The page heap reads the tag as the evaluator does. -/
theorem pointer?_eq (w : Word) : (lispLayout.classify w).pointer? =
    match Tag.fromBits w with
    | .Cons => some (addrOf w, .cons)
    | .Symbol | .Vector | .Function | .String => some (addrOf w, .header)
    | _ => none := by
  show (LispLayout.classify w).pointer? = _
  unfold LispLayout.classify Tag.fromBits addrOf
  dsimp only
  generalize (w &&& LispLayout.tagMask).toNat = tag
  match tag with
  | 0 | 1 | 2 | 3 | 4 | 5 | 6 | 7 => rfl
  | _ + 8 => rfl

theorem addr_of_pointer? {w : Word} {a : Nat} {k : PointerKind}
    (h : (lispLayout.classify w).pointer? = some (a, k)) : a = addrOf w := by
  rw [pointer?_eq] at h
  cases ht : Tag.fromBits w <;> rw [ht] at h <;> cases h <;> rfl

/-- A word is its address and its tag. -/
theorem word_eq {w v : Word} (haddr : addrOf w = addrOf v)
    (htag : w &&& LispLayout.tagMask = v &&& LispLayout.tagMask) : w = v := by
  have hsplit : ∀ u : Word, (u &&& LispLayout.payloadMask) ||| (u &&& LispLayout.tagMask) = u := by
    intro u
    unfold LispLayout.payloadMask
    rw [← BitVec.and_or_distrib_left, BitVec.or_comm, BitVec.or_not_self, BitVec.and_allOnes]
  have hpayload : w &&& LispLayout.payloadMask = v &&& LispLayout.payloadMask :=
    BitVec.eq_of_toNat_eq haddr
  calc w = (w &&& LispLayout.payloadMask) ||| (w &&& LispLayout.tagMask) := (hsplit w).symm
    _ = (v &&& LispLayout.payloadMask) ||| (v &&& LispLayout.tagMask) := by rw [hpayload, htag]
    _ = v := hsplit v

/-! ## Objects -/

namespace DirectHeap

/-- The cell a word names. -/
def cellAt (s : DirectHeap) (w : Word) : Nat := s.pages.cellOf (addrOf w)

/-- The objects of the page heap. -/
def blocks (s : DirectHeap) (a : Nat) : Option Block :=
  if (s.pages.pageOf a).isSome ∧ s.pages.cellAddr (s.pages.cellOf a) = a then
    (s.pages.objAt lispLayout (s.pages.cellOf a)).map fun o =>
      if o.isCons then .cons else .boxed o.totalCells
  else none

/-- The word names the object `o`. -/
structure Names (s : DirectHeap) (w : Word) (o : ObjInfo) : Prop where
  object : s.pages.objAt lispLayout (s.cellAt w) = some o
  addr : addrOf w = s.pages.cellAddr (s.cellAt w)
  pointee : s.pages.pointee lispLayout w = some (s.cellAt w)
  extent : direct.extent s w = o.totalCells
  field : ∀ i, i < o.totalCells → (o.IsPtr i ↔ IsField w i)

variable {s s' : DirectHeap} {w : Word}

theorem cell_eq (haddr : addrOf w = s.pages.cellAddr (s.cellAt w)) (i : Nat) :
    direct.cell s w i = s.pages.mem (s.cellAt w + i) := by
  have hcell : s.pages.cellOf (addrOf w + 8 * i) = s.cellAt w + i := by
    rw [haddr]
    unfold PageHeap.cellOf PageHeap.cellAddr
    omega
  show s.pages.mem (s.pages.cellOf (addrOf w + 8 * i)) = _
  rw [hcell]

/-- An object is a pair, or its header gives the layout. -/
theorem objAt_cases {h : PageHeap} {c : Nat} {o : ObjInfo} (ho : h.objAt lispLayout c = some o) :
    o = ObjInfo.cons ∨ o.isCons = false ∧ LispLayout.headerLayout (h.mem c) = .ok o.layout := by
  unfold PageHeap.objAt at ho
  split at ho
  · cases ho
  · split at ho
    · cases ho
    · exact Or.inl (Option.some.inj ho).symm
    · split at ho
      · rename_i layout hlayout
        cases ho
        exact Or.inr ⟨rfl, hlayout⟩
      · cases ho

/-- Every cell of a vector but the header is a pointer cell. -/
theorem vector_layout {header : Word} {layout : ObjectLayout}
    (hty : headerTy header = .ok .Vector)
    (hlayout : LispLayout.headerLayout header = .ok layout) :
    layout.totalCells = 1 + headerLengthCells header ∧ ∀ i, i < layout.totalCells →
      (layout.pointerCellsStart ≤ i ∧ i < layout.pointerCellsEnd ↔ 1 ≤ i) := by
  unfold LispLayout.headerLayout at hlayout
  rw [hty] at hlayout
  by_cases hlen : headerLengthCells header = 0
  · simp only [HeapType.wordFieldRange, hlen, if_true] at hlayout
    cases hlayout
    refine ⟨by rw [hlen]; rfl, fun i hi => ?_⟩
    have hzero : i = 0 := Nat.lt_one_iff.1 hi
    subst hzero
    exact ⟨fun h => absurd h.2 (Nat.lt_irrefl 0), fun h => absurd h (by decide)⟩
  · simp only [HeapType.wordFieldRange, hlen, if_false] at hlayout
    cases hlayout
    refine ⟨rfl, fun i hi => ⟨fun h => h.1, fun h => ⟨h, ?_⟩⟩⟩
    exact Nat.lt_of_lt_of_eq hi (Nat.add_comm 1 _)

/-- No cell of a string is one. -/
theorem string_layout {header : Word} {layout : ObjectLayout}
    (hty : headerTy header = .ok .String)
    (hlayout : LispLayout.headerLayout header = .ok layout) :
    layout.totalCells = 1 + headerLengthCells header ∧ ∀ i,
      ¬ (layout.pointerCellsStart ≤ i ∧ i < layout.pointerCellsEnd) := by
  unfold LispLayout.headerLayout at hlayout
  rw [hty] at hlayout
  cases hlayout
  exact ⟨rfl, fun i h => Nat.not_lt_zero i h.2⟩

/-- A word that fits its block names an object. -/
theorem names (h : direct.Fits s w (s.blocks (addrOf w))) : ∃ o, s.Names w o := by
  have hblocks : s.blocks (addrOf w) ≠ none := by
    intro hnone
    rw [hnone] at h
    exact h
  unfold blocks at h hblocks
  by_cases hin : (s.pages.pageOf (addrOf w)).isSome ∧
      s.pages.cellAddr (s.pages.cellOf (addrOf w)) = addrOf w
  case neg =>
    rw [if_neg hin] at hblocks
    exact absurd rfl hblocks
  rw [if_pos hin] at h hblocks
  cases hobj : s.pages.objAt lispLayout (s.pages.cellOf (addrOf w)) with
  | none =>
      rw [hobj] at hblocks
      exact absurd rfl hblocks
  | some o =>
      rw [hobj, Option.map_some] at h
      refine ⟨o, ?_⟩
      rcases objAt_cases hobj with rfl | ⟨hboxed, hlayout⟩
      · have htag : Tag.fromBits w = .Cons := h
        refine ⟨hobj, hin.2.symm, pointee_iff.2 ⟨addrOf w, .cons, ?_, hin.1, rfl, hobj⟩, ?_,
          fun i hi => ?_⟩
        · rw [pointer?_eq, htag]
          rfl
        · unfold Heap.extent
          rw [if_pos htag]
          rfl
        · exact ⟨fun _ => Or.inl htag, fun _ => ⟨Nat.zero_le i, hi⟩⟩
      · rw [hboxed, if_neg Bool.false_ne_true] at h
        obtain ⟨-, hkind⟩ := h
        have haddr : addrOf w = s.pages.cellAddr (s.cellAt w) := hin.2.symm
        have hheader : direct.cell s w 0 = s.pages.mem (s.cellAt w) := cell_eq haddr 0
        rw [hheader] at hkind
        have hpointer : o.pointerKind = .header := by
          unfold ObjInfo.pointerKind
          rw [hboxed, if_neg Bool.false_ne_true]
        have hpointee (hp : (lispLayout.classify w).pointer? = some (addrOf w, .header)) :
            s.pages.pointee lispLayout w = some (s.cellAt w) :=
          pointee_iff.2 ⟨addrOf w, o, by rw [hpointer]; exact hp, hin.1, rfl, hobj⟩
        rcases hkind with ⟨htag, hty⟩ | ⟨htag, hty⟩
        · obtain ⟨htotal, hfield⟩ := vector_layout hty hlayout
          refine ⟨hobj, haddr, hpointee (by rw [pointer?_eq, htag]), ?_, fun i hi => ?_⟩
          · unfold Heap.extent
            rw [if_neg (by rw [htag]; decide), hheader]
            exact htotal.symm
          · refine (hfield i hi).trans ⟨fun h => Or.inr ⟨htag, h⟩, ?_⟩
            rintro (hcons | ⟨-, h⟩)
            · rw [htag] at hcons
              cases hcons
            · exact h
        · obtain ⟨htotal, hfield⟩ := string_layout hty hlayout
          refine ⟨hobj, haddr, hpointee (by rw [pointer?_eq, htag]), ?_, fun i hi => ?_⟩
          · unfold Heap.extent
            rw [if_neg (by rw [htag]; decide), hheader]
            exact htotal.symm
          · refine iff_of_false (hfield i) ?_
            rintro (hcons | ⟨hvector, -⟩)
            · rw [htag] at hcons
              cases hcons
            · rw [htag] at hvector
              cases hvector

/-! ## Roots -/

section Rooted

variable {roots : List Word}

theorem external_get {i : Nat} (hi : i < roots.length) : external roots i = roots[i] := by
  unfold external List.getD
  rw [List.getElem?_eq_getElem hi, Option.getD_some]

theorem slot_of_root (hw : w ∈ roots) : ∃ a ∈ slots roots, external roots a = w := by
  obtain ⟨i, hi, rfl⟩ := List.mem_iff_getElem.1 hw
  exact ⟨i, List.mem_range.2 hi, external_get hi⟩

/-- Rewriting slot by slot is rewriting word by word. -/
theorem map_slots {ext : Nat → Word} {ρ : Word → Word}
    (h : ∀ a ∈ slots roots, ext a = ρ (external roots a)) :
    (slots roots).map ext = roots.map ρ := by
  have hroots : roots = (slots roots).map (external roots) := by
    refine List.ext_getElem (by rw [List.length_map]; exact List.length_range.symm) ?_
    intro i hi hi'
    rw [List.getElem_map]
    unfold slots
    rw [List.getElem_range]
    exact (external_get hi).symm
  conv_rhs => rw [hroots, List.map_map]
  exact List.map_congr_left h

variable (hrooted : WellRooted direct blocks s roots)

include hrooted

/-- What the root words lead to, the root slots lead to in the page heap. -/
theorem leadsTo_accessible (hw : LeadsTo direct s roots w) :
    Accessible lispLayout s.pages (external roots) (slots roots) Unheld (s.cellAt w) := by
  induction hw with
  | @root w hw =>
      obtain ⟨o, ho⟩ := names (hrooted.fits w (.root hw))
      obtain ⟨a, ha, hword⟩ := slot_of_root hw
      exact .root ha (by rw [hword]; exact ho.pointee)
  | @field w i hw hi hfield hptr ih =>
      obtain ⟨o, ho⟩ := names (hrooted.fits w hw)
      obtain ⟨o', ho'⟩ := names (hrooted.fits _ (.field hw hi hfield hptr))
      have hlt : i < o.totalCells := Nat.lt_of_lt_of_eq hi ho.extent
      have hword := cell_eq ho.addr i
      refine .step ih ⟨o, i, ho.object, (ho.field i hlt).2 hfield, ?_⟩
      rw [← hword]
      exact ho'.pointee

end Rooted

/-! ## Collections -/

/-- Where a word leads after the objects have moved by `F`. -/
def newWord (s s' : DirectHeap) (F : Forwarding) (w : Word) : Word :=
  match F (s.cellAt w) with
  | some d => LispLayout.rewritePointerAddr w (s'.pages.cellAddr d)
  | none => w

/-- The tags that no value has. -/
def Untyped (w : Word) : Prop := Tag.fromBits w = .Symbol ∨ Tag.fromBits w = .Function

/-- Every field holds the word of a value. -/
def HoldsValues (s : DirectHeap) (roots : List Word) : Prop :=
  ∀ w i, LeadsTo direct s roots w → i < direct.extent s w → IsField w i →
    ¬ Untyped (direct.cell s w i)

/-- A word that is no pointer of the evaluator, and has the tag of a value, is none of the page
heap. -/
theorem targetCell_none {h : PageHeap} (hptr : ¬ Pointer w) (htyped : ¬ Untyped w) :
    h.targetCell lispLayout w = none := by
  have hnone : (lispLayout.classify w).pointer? = none := by
    rw [pointer?_eq]
    unfold Pointer at hptr
    unfold Untyped at htyped
    cases ht : Tag.fromBits w <;> simp_all
  unfold PageHeap.targetCell
  rw [hnone]

section Moved

variable {T T' : ObjTable} {F : Forwarding} {ext' : Nat → Word} {roots : List Word}

/-- A word that points at an object holds its address. -/
theorem addrOf_pointee (hP : PagesOk s.pages) {d : Nat}
    (h : s.pages.pointee lispLayout w = some d) : addrOf w = s.pages.cellAddr d := by
  obtain ⟨addr, o, hp, hin, hcell, -⟩ := pointee_iff.1 h
  obtain rfl := addr_of_pointer? hp
  have hw := addrOf_aligned w
  have hbase := hP.aligned
  obtain ⟨p, hpage⟩ := Option.isSome_iff_exists.1 hin
  unfold PageHeap.pageOf at hpage
  split at hpage
  case isFalse => cases hpage
  rename_i hrange
  rw [← hcell]
  unfold PageHeap.cellAddr PageHeap.cellOf
  omega

/-- Pointers to one object with one tag are one word. -/
theorem newWord_eq (hP : PagesOk s'.pages) {w' : Word} {d : Nat} (hd : F (s.cellAt w) = some d)
    (h : Follows lispLayout s'.pages w w' d) : w' = newWord s s' F w := by
  have haddr := addrOf_pointee hP h.target
  have haligned := hP.cellAddr_aligned d
  have hlt : s'.pages.cellAddr d < 2 ^ 64 := by
    rw [← haddr]
    exact (w' &&& LispLayout.payloadMask).isLt
  unfold newWord
  rw [hd]
  refine word_eq ?_ ?_
  · rw [haddr]
    exact (LispLayout.rewrite_addr hlt haligned w).symm
  · exact h.word.lisp_tag.trans (LispLayout.rewrite_tag haligned w).symm

/-- The object `o` that `w` names is now at `d`. -/
structure MovedTo (s s' : DirectHeap) (F : Forwarding) (w : Word) (o : ObjInfo) (d : Nat) :
    Prop where
  names : s.Names w o
  place : F (s.cellAt w) = some d
  object : s'.pages.objAt lispLayout d = some o
  inside : d < s'.pages.totalCells
  addr : addrOf (newWord s s' F w) = s'.pages.cellAddr d
  tag : newWord s s' F w &&& LispLayout.tagMask = w &&& LispLayout.tagMask

namespace MovedTo

variable {o : ObjInfo} {d : Nat} (h : MovedTo s s' F w o d)

include h

theorem fromBits : Tag.fromBits (newWord s s' F w) = Tag.fromBits w := Tag.fromBits_congr h.tag

theorem cellAt_newWord : s'.cellAt (newWord s s' F w) = d := by
  unfold cellAt
  rw [h.addr, cellOf_cellAddr]

theorem cell (i : Nat) : direct.cell s' (newWord s s' F w) i = s'.pages.mem (d + i) := by
  have hcell := h.cellAt_newWord
  have hread := @cell_eq s' (newWord s s' F w) (by rw [hcell]; exact h.addr) i
  rw [hcell] at hread
  exact hread

/-- The block has moved with the object. -/
theorem blocks : s'.blocks (addrOf (newWord s s' F w)) = s.blocks (addrOf w) := by
  obtain ⟨addr, _, hp, hin, -⟩ := pointee_iff.1 h.names.pointee
  obtain rfl := addr_of_pointer? hp
  have hobj : s.pages.objAt lispLayout (s.pages.cellOf (addrOf w)) = some o := h.names.object
  have hhome : s.pages.cellAddr (s.pages.cellOf (addrOf w)) = addrOf w := h.names.addr.symm
  have hpage : (s'.pages.pageOf (s'.pages.cellAddr d)).isSome := by
    rw [pageOf_cellAddr h.inside]
    rfl
  unfold DirectHeap.blocks
  rw [h.addr, cellOf_cellAddr, if_pos ⟨hpage, rfl⟩, if_pos ⟨hin, hhome⟩, h.object, hobj]

end MovedTo

variable (hS' : Shape lispLayout s'.pages T' Forwarding.empty)
  (hF : GraphKept lispLayout s.pages (external roots) (slots roots) Unheld s'.pages ext' F)
  (hrooted : WellRooted direct blocks s roots)

include hS' hF hrooted

/-- Everything the roots led to has moved. -/
theorem moved_object (hw : LeadsTo direct s roots w) : ∃ o d, MovedTo s s' F w o d := by
  obtain ⟨o, ho⟩ := names (hrooted.fits w hw)
  obtain ⟨d, hd⟩ := hF.alive _ (leadsTo_accessible hrooted hw)
  have hobj := (hF.object _ d hd).2.trans ho.object
  have hcell : d < s'.pages.totalCells := hS'.cell_lt ((hS'.objAt_eq d).symm.trans hobj)
  have haligned := hS'.pages.cellAddr_aligned d
  have hword : newWord s s' F w = LispLayout.rewritePointerAddr w (s'.pages.cellAddr d) := by
    unfold newWord
    rw [hd]
  refine ⟨o, d, ho, hd, hobj, hcell, ?_, ?_⟩
  · rw [hword]
    exact LispLayout.rewrite_addr (hS'.pages.cellAddr_lt hcell) haligned w
  · rw [hword]
    exact LispLayout.rewrite_tag haligned w

/-- The roots have followed. -/
theorem roots_followed : (slots roots).map ext' = roots.map (newWord s s' F) := by
  refine map_slots fun a ha => ?_
  have hlt : a < roots.length := List.mem_range.1 ha
  have hmem : external roots a ∈ roots := by
    rw [external_get hlt]
    exact List.getElem_mem hlt
  obtain ⟨o, ho⟩ := names (hrooted.fits _ (.root hmem))
  obtain ⟨d, hd, hfollows⟩ := hF.slots a ha _ ho.pointee
  exact newWord_eq hS'.pages hd hfollows

/-- So has every field. -/
theorem field_followed {i : Nat} (hw : LeadsTo direct s roots w) (hi : i < direct.extent s w)
    (hfield : IsField w i) (hptr : Pointer (direct.cell s w i)) :
    direct.cell s' (newWord s s' F w) i = newWord s s' F (direct.cell s w i) := by
  obtain ⟨o, d, hm⟩ := moved_object hS' hF hrooted hw
  obtain ⟨o', ho'⟩ := names (hrooted.fits _ (.field hw hi hfield hptr))
  have hlt : i < o.totalCells := Nat.lt_of_lt_of_eq hi hm.names.extent
  have hword := cell_eq hm.names.addr i
  rw [hm.cell i]
  rw [hword] at ho' ⊢
  obtain ⟨e, he, hfollows⟩ := hF.pointers (s.cellAt w) d o i _ (leadsTo_accessible hrooted hw)
    hm.place hm.names.object ((hm.names.field i hlt).2 hfield) ho'.pointee
  exact newWord_eq hS'.pages he hfollows

/-- Every other cell is as it was. -/
theorem cell_kept (hvalues : s.HoldsValues roots) {i : Nat} (hw : LeadsTo direct s roots w)
    (hi : i < direct.extent s w) (hplain : ¬ (IsField w i ∧ Pointer (direct.cell s w i))) :
    direct.cell s' (newWord s s' F w) i = direct.cell s w i := by
  obtain ⟨o, d, hm⟩ := moved_object hS' hF hrooted hw
  have hlt : i < o.totalCells := Nat.lt_of_lt_of_eq hi hm.names.extent
  have hword := cell_eq hm.names.addr i
  rw [hm.cell i, hword]
  refine hF.plain _ d o i hm.place hm.names.object hlt fun hptr => ?_
  have hfield := (hm.names.field i hlt).1 hptr
  rw [← hword]
  exact targetCell_none (fun hp => hplain ⟨hfield, hp⟩) (hvalues w i hw hi hfield)

/-- **A collection that keeps the graph relocates.**  It gives what the roots led to new words, in
the roots and in every field. -/
theorem relocated (hvalues : s.HoldsValues roots) :
    Relocated direct blocks s roots (newWord s s' F) s' where
  tag w hw := by
    obtain ⟨o, d, hm⟩ := moved_object hS' hF hrooted hw
    exact hm.fromBits
  fits w hw := by
    obtain ⟨o, d, hm⟩ := moved_object hS' hF hrooted hw
    rw [hm.blocks]
    refine Heap.Fits.renamed (hrooted.fits w hw) hm.fromBits fun hne => ?_
    -- the header is no field
    refine cell_kept hS' hF hrooted hvalues hw (Heap.extent_pos s w) fun hfield => ?_
    rcases hfield.1 with hcons | ⟨-, hle⟩
    · exact hne hcons
    · exact absurd hle (by decide)
  apart w v hw hv heq := by
    obtain ⟨o, d, hm⟩ := moved_object hS' hF hrooted hw
    obtain ⟨o', d', hm'⟩ := moved_object hS' hF hrooted hv
    rw [hm.addr, hm'.addr] at heq
    have hd : d = d' := by
      unfold PageHeap.cellAddr at heq
      omega
    subst hd
    have hcell := hF.inj _ _ _ hm.place hm'.place
    refine hrooted.apart w v hw hv ?_
    rw [hm.names.addr, hm'.names.addr, hcell]
  pointers _ _ hw hi hfield hptr := field_followed hS' hF hrooted hw hi hfield hptr
  plain _ _ hw hi hplain := cell_kept hS' hF hrooted hvalues hw hi hplain

end Moved

/-! ## The contract -/

/-- The conditions under which a collection keeps the graph the root words lead to. -/
def KeepsGraph (s : DirectHeap) (roots : List Word) : Collection → Prop
  | .minor => MinorKeeps lispLayout s.pages (external roots) (slots roots) Unheld
  | .major => MajorKeeps lispLayout s.pages (external roots) (slots roots) Unheld
  | .auto => AutoKeeps lispLayout s.pages (external roots) s.tenuredFullThresholdBps (slots roots)
      Unheld
  | .full => FullKeeps lispLayout s.pages (external roots) (slots roots) Unheld

variable {T : ObjTable} {roots : List Word} {kind : Collection}

theorem cycle_kept (hP : PassOk lispLayout s.pages T) (hkeeps : s.KeepsGraph roots kind) :
    Outcome GcPanic.IsOom (s.cycle roots kind)
      (CycleKept lispLayout s.pages (external roots) (slots roots) Unheld) := by
  have hheld : ∀ c, Unheld c → s.pages.Holds c ∧ (s.pages.objAt lispLayout c).isSome :=
    fun c hc => hc.elim
  cases kind with
  | minor => exact (collectMinor_kept hP hheld hkeeps).bind fun _ hr => hr
  | major => exact (collectMajor_kept hP hheld hkeeps).bind fun _ hr => hr
  | auto => exact (collectAuto_kept hP hheld hkeeps).bind fun _ hr => hr
  | full => exact (collectFull_kept hP hheld hkeeps).bind fun _ hr => hr

/-- The page heap keeps the collector's part of the contract. -/
theorem collect_relocates (hP : PassOk lispLayout s.pages T) (hkeeps : s.KeepsGraph roots kind)
    (hvalues : s.HoldsValues roots) :
    Relocates direct blocks s roots (direct.collect kind s roots) := by
  intro hrooted roots' s' hres
  have hcycle := cycle_kept hP hkeeps
  have hcollect : s.collect kind roots = some (roots', s') := hres
  unfold collect at hcollect
  split at hcollect
  case h_2 => cases hcollect
  rename_i h ext hok
  have hkept := hcycle.value hok
  -- the trigger is of no concern
  have hafter : CycleKept lispLayout s.pages (external roots) (slots roots) Unheld
      (s'.pages, ext) := by
    cases hcollect
    split
    · exact hkept.counterReset
    · exact hkept
  obtain ⟨T', F, hS', hF⟩ := hafter
  have hroots : roots' = (slots roots).map ext := by
    cases hcollect
    rfl
  refine ⟨newWord s s' F, ?_, relocated hS' hF hrooted hvalues⟩
  rw [hroots]
  exact roots_followed hS' hF hrooted

/-- So does every heap that safe requests reach. -/
theorem collect_relocates_reached {w : World}
    (hw : World.Reached lispLayout (World.SafeRequest lispLayout) w) (hpages : s.pages = w.heap)
    (hkeeps : s.KeepsGraph roots kind) (hvalues : s.HoldsValues roots) :
    Relocates direct blocks s roots (direct.collect kind s roots) := by
  obtain ⟨T, hW⟩ := World.safe_runs_settled hw
  have hP : PassOk lispLayout s.pages T := by
    rw [hpages]
    exact hW.heap
  exact collect_relocates hP hkeeps hvalues

/-- A minor collection of small young objects needs no condition. -/
theorem minor_relocates (hP : PassOk lispLayout s.pages T) (hyoung : IsYoung s.pages)
    (hvalues : s.HoldsValues roots) :
    Relocates direct blocks s roots (direct.collect .minor s roots) :=
  collect_relocates hP (hyoung.minorKeeps hP) hvalues

/-! ### Two pairs -/

/-- A heap with the default settings. -/
def ofPages (h : PageHeap) : DirectHeap where
  pages := h
  autoGcTriggerBytes := 8 * 1024 * 1024
  gcBudgetMinBytes := 8 * 1024 * 1024
  tenuredFullThresholdBps := 7500

/-- The word of a pair fits the pair. -/
theorem fits_cons {c : Nat} (hcell : c < s.pages.totalCells)
    (hobj : s.pages.objAt lispLayout c = some ObjInfo.cons)
    (haddr : addrOf w = s.pages.cellAddr c) (htag : Tag.fromBits w = .Cons) :
    direct.Fits s w (s.blocks (addrOf w)) := by
  have hpage : (s.pages.pageOf (s.pages.cellAddr c)).isSome := by
    rw [pageOf_cellAddr hcell]
    rfl
  unfold blocks
  rw [haddr, cellOf_cellAddr, if_pos ⟨hpage, rfl⟩, hobj]
  exact htag

/-- A pair of a number and nil at cell 0, and at cell 2 a pair of that one and nil. -/
def HoldsPairs (h : PageHeap) : Prop :=
  h.base = 2 ^ 32 ∧ h.nPages = 4 ∧ h.objAt lispLayout 0 = some ObjInfo.cons ∧
    h.objAt lispLayout 2 = some ObjInfo.cons ∧ h.mem 0 = LispLayout.fixnum 1 ∧
      h.mem 1 = LispLayout.nil ∧ h.mem 2 = World.consAt 0 ∧ h.mem 3 = LispLayout.nil

instance (h : PageHeap) : Decidable (HoldsPairs h) :=
  inferInstanceAs (Decidable (_ ∧ _ ∧ _ ∧ _ ∧ _ ∧ _ ∧ _ ∧ _))

/-- The root of the second pair leads to both. -/
theorem pairs_lead {h : PageHeap} (hs : HoldsPairs h) :
    WellRooted direct blocks (ofPages h) [World.consAt 2] ∧
      (ofPages h).HoldsValues [World.consAt 2] := by
  obtain ⟨hbase, hn, hfirst, hsecond, h0, h1, h2, h3⟩ := hs
  have haddr : ∀ c, c = 0 ∨ c = 2 → addrOf (World.consAt c) = h.cellAddr c ∧
      Tag.fromBits (World.consAt c) = .Cons := by
    rintro c (rfl | rfl)
    · unfold PageHeap.cellAddr
      rw [hbase]
      exact ⟨by decide, by decide⟩
    · unfold PageHeap.cellAddr
      rw [hbase]
      exact ⟨by decide, by decide⟩
  have hcells : ∀ c, c = 0 ∨ c = 2 → ∀ i,
      direct.cell (ofPages h) (World.consAt c) i = h.mem (c + i) := by
    intro c hc i
    have hcell : (ofPages h).cellAt (World.consAt c) = c := by
      unfold cellAt
      rw [(haddr c hc).1]
      exact cellOf_cellAddr h c
    have hread := @cell_eq (ofPages h) (World.consAt c) (by rw [hcell]; exact (haddr c hc).1) i
    rw [hcell] at hread
    exact hread
  have hextent : ∀ c, c = 0 ∨ c = 2 → direct.extent (ofPages h) (World.consAt c) = 2 := by
    intro c hc
    unfold Heap.extent
    rw [if_pos (haddr c hc).2]
  have hwords : ∀ c, c = 0 ∨ c = 2 → ∀ i, i < 2 →
      h.mem (c + i) = LispLayout.fixnum 1 ∨ h.mem (c + i) = LispLayout.nil ∨
        h.mem (c + i) = World.consAt 0 := by
    rintro c (rfl | rfl) i hi
    · match i, hi with
      | 0, _ => exact Or.inl h0
      | 1, _ => exact Or.inr (Or.inl h1)
    · match i, hi with
      | 0, _ => exact Or.inr (Or.inr h2)
      | 1, _ => exact Or.inr (Or.inl h3)
  -- the only pointer among the cells is that of the first pair
  have hleads : ∀ w, LeadsTo direct (ofPages h) [World.consAt 2] w →
      ∃ c, (c = 0 ∨ c = 2) ∧ w = World.consAt c := by
    intro w hw
    induction hw with
    | root hw => exact ⟨2, Or.inr rfl, List.mem_singleton.1 hw⟩
    | @field w i _ hi _ hptr ih =>
        obtain ⟨c, hc, rfl⟩ := ih
        rw [hextent c hc] at hi
        rw [hcells c hc i] at hptr ⊢
        rcases hwords c hc i hi with hword | hword | hword
        · rw [hword] at hptr
          exact absurd hptr (by rintro (h | h | h) <;> exact absurd h (by decide))
        · rw [hword] at hptr
          exact absurd hptr (by rintro (h | h | h) <;> exact absurd h (by decide))
        · exact ⟨0, Or.inl rfl, hword⟩
  have htotal : (ofPages h).pages.totalCells = 4 * pageSizeCells := by
    show h.totalCells = _
    unfold PageHeap.totalCells
    rw [hn]
  refine ⟨⟨fun w hw => ?_, fun w v hw hv heq => ?_⟩, fun w i hw hi _ => ?_⟩
  · obtain ⟨c, hc, rfl⟩ := hleads w hw
    have hobj : h.objAt lispLayout c = some ObjInfo.cons := by
      rcases hc with rfl | rfl
      · exact hfirst
      · exact hsecond
    have hlt : c < 4 * pageSizeCells := by
      rcases hc with rfl | rfl <;> decide
    exact fits_cons (htotal ▸ hlt) hobj (haddr c hc).1 (haddr c hc).2
  · obtain ⟨c, hc, rfl⟩ := hleads w hw
    obtain ⟨d, hd, rfl⟩ := hleads v hv
    rw [(haddr c hc).1, (haddr d hd).1] at heq
    have hcd : c = d := by
      unfold PageHeap.cellAddr at heq
      omega
    rw [hcd]
  · obtain ⟨c, hc, rfl⟩ := hleads w hw
    rw [hextent c hc] at hi
    rw [hcells c hc i]
    rcases hwords c hc i hi with hword | hword | hword <;> rw [hword] <;>
      rintro (h | h) <;> exact absurd h (by decide)

/-- A minor collection moves both pairs and rewrites the root. -/
theorem minor_relocates_pairs : ∃ h roots' s',
    ((World.lispWorld 4 []).run lispLayout World.pairOps).map (·.heap) = some h ∧
      direct.collect .minor (ofPages h) [World.consAt 2] = some (roots', s') ∧
        ∃ ρ, roots' = [ρ (World.consAt 2)] ∧
          Relocated direct blocks (ofPages h) [World.consAt 2] ρ s' := by
  have hrun : (((World.lispWorld 4 []).run lispLayout World.pairOps).map fun w =>
      decide (HoldsPairs w.heap) && youngPages w.heap &&
        (direct.collect .minor (ofPages w.heap) [World.consAt 2]).isSome) = some true := by
    decide +kernel
  obtain ⟨w, hw, hcheck⟩ := Option.map_eq_some_iff.1 hrun
  rw [Bool.and_eq_true, Bool.and_eq_true, decide_eq_true_eq] at hcheck
  obtain ⟨⟨hpairs, hpages⟩, hsome⟩ := hcheck
  obtain ⟨⟨roots', s'⟩, hcollect⟩ := Option.isSome_iff_exists.1 hsome
  obtain ⟨-, T, hW⟩ := World.fresh_run_reached (by decide) (by decide) hw
  obtain ⟨hrooted, hvalues⟩ := pairs_lead hpairs
  have hyoung := isYoung_of_pages hW.heap.shape.pages hpages
  refine ⟨w.heap, roots', s', by rw [hw]; rfl, hcollect, ?_⟩
  have hP : PassOk lispLayout (ofPages w.heap).pages T := hW.heap.passOk
  exact minor_relocates hP hyoung hvalues hrooted roots' s' hcollect

end DirectHeap

end NewGc.Lisp
