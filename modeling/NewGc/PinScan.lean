import NewGc.Frames
import NewGc.Pinning
import NewGc.PoolRuns

/-!
# PinScan — what the conservative scan pins, and where it records it

A pin is stored twice, and a lookup asks the page byte before the table.  On every heap a sequence of
scans and clears leaves the cells found since the last clear, which both levels record, and, as long
as there was no clear, the cells pinned before.  Of these the byte may have been dropped by an
evacuation the client has called by itself; without one, a page that holds a pinned cell stays open,
with its byte, until the pins are dropped.
-/

namespace NewGc

open Library PageHeap

/-! ## The two levels -/

/-- Every pinned cell lies in the reservation, and its page byte has the cell's sub-region set. -/
def PinIndexed (h : PageHeap) : Prop :=
  ∀ c ∈ h.pinnedCells, c / pageSizeCells < h.nPages ∧
    (h.descs (c / pageSizeCells)).isPinned (pinSlot c) = true

/-- The pins are indexed, and none of them lies on a Free page. -/
def PinsOpen (h : PageHeap) : Prop :=
  PinIndexed h ∧ ∀ c ∈ h.pinnedCells, h.genAt c ≠ .Free

theorem pinsOpen_of_empty {h : PageHeap} (hempty : h.pinnedCells = []) : PinsOpen h := by
  constructor
  · intro c hc
    rw [hempty] at hc
    cases hc
  · intro c hc
    rw [hempty] at hc
    cases hc

theorem isPinnedCell_iff {h : PageHeap} {c : Nat} : h.isPinnedCell c = true ↔
    c / pageSizeCells < h.nPages ∧ (h.descs (c / pageSizeCells)).isPinned (pinSlot c) = true ∧
      c ∈ h.pinnedCells := by
  unfold isPinnedCell
  simp only [Bool.and_eq_true, decide_eq_true_eq, and_assoc]

theorem isPinnedCell_iff_of_mem {h : PageHeap} {c : Nat} (hc : c ∈ h.pinnedCells) :
    h.isPinnedCell c = true ↔ c / pageSizeCells < h.nPages ∧
      (h.descs (c / pageSizeCells)).isPinned (pinSlot c) = true := by
  rw [isPinnedCell_iff]
  exact ⟨fun hpin => ⟨hpin.1, hpin.2.1⟩, fun hpin => ⟨hpin.1, hpin.2, hc⟩⟩

/-- Where the pins are indexed, the page byte is a filter only: the lookup is the table's. -/
theorem PinIndexed.lookup {h : PageHeap} (hI : PinIndexed h) (c : Nat) :
    h.isPinnedCell c = true ↔ c ∈ h.pinnedCells :=
  ⟨fun hc => (isPinnedCell_iff.1 hc).2.2, fun hc => (isPinnedCell_iff_of_mem hc).2 (hI c hc)⟩

theorem pinIndexed_of_lookup {h : PageHeap}
    (hlookup : ∀ c, h.isPinnedCell c = true ↔ c ∈ h.pinnedCells) : PinIndexed h :=
  fun c hc => (isPinnedCell_iff_of_mem hc).1 ((hlookup c).2 hc)

/-- The pinned cells are the same, and the open pages are still open with the same pin byte. -/
structure SamePins (h h' : PageHeap) : Prop where
  cells : h'.pinnedCells = h.pinnedCells
  nPages : h'.nPages = h.nPages
  pages : ∀ p, (h.descs p).generation ≠ .Free →
    (h'.descs p).generation ≠ .Free ∧ (h'.descs p).pinByte = (h.descs p).pinByte

namespace SamePins

theorem refl (h : PageHeap) : SamePins h h := ⟨rfl, rfl, fun _ hp => ⟨hp, rfl⟩⟩

theorem trans {h h' h'' : PageHeap} (h₁ : SamePins h h') (h₂ : SamePins h' h'') :
    SamePins h h'' where
  cells := h₂.cells.trans h₁.cells
  nPages := h₂.nPages.trans h₁.nPages
  pages := by
    intro p hp
    obtain ⟨hopen₁, hbyte₁⟩ := h₁.pages p hp
    obtain ⟨hopen₂, hbyte₂⟩ := h₂.pages p hopen₁
    exact ⟨hopen₂, hbyte₂.trans hbyte₁⟩

theorem of_descs {h h' : PageHeap} (hcells : h'.pinnedCells = h.pinnedCells)
    (hn : h'.nPages = h.nPages) (hdescs : h'.descs = h.descs) : SamePins h h' :=
  ⟨hcells, hn, fun p hp => by rw [hdescs]; exact ⟨hp, rfl⟩⟩

/-- A descriptor that is rewritten keeps its generation and its pin byte, or was that of a Free
page. -/
theorem setDesc {h : PageHeap} {idx : Nat} {d : PageDesc}
    (hd : (h.descs idx).generation ≠ .Free →
      d.generation = (h.descs idx).generation ∧ d.pinByte = (h.descs idx).pinByte) :
    SamePins h (h.setDesc idx d) := by
  refine ⟨rfl, rfl, ?_⟩
  intro p hp
  by_cases heq : p = idx
  · subst heq
    have hself : (h.setDesc p d).descs p = d := Function.update_self ..
    rw [hself, (hd hp).1, (hd hp).2]
    exact ⟨hp, rfl⟩
  · have hother : (h.setDesc idx d).descs p = h.descs p := Function.update_of_ne heq ..
    rw [hother]
    exact ⟨hp, rfl⟩

theorem pinsOpen {h h' : PageHeap} (hS : SamePins h h') (hO : PinsOpen h) : PinsOpen h' := by
  constructor
  · intro c hc
    rw [hS.cells] at hc
    obtain ⟨hlt, hbit⟩ := hO.1 c hc
    have hbyte := (hS.pages _ (hO.2 c hc)).2
    refine ⟨by rwa [hS.nPages], ?_⟩
    unfold PageDesc.isPinned at hbit ⊢
    rwa [hbyte]
  · intro c hc
    rw [hS.cells] at hc
    exact (hS.pages _ (hO.2 c hc)).1

end SamePins

/-- Allocations open Free pages only. -/
theorem allocFrame_samePins : AllocFrame SamePins where
  refl := SamePins.refl
  trans := SamePins.trans
  listed := fun _ _ _ => .of_descs rfl rfl rfl
  commit := by
    intro h idx
    unfold commitPage
    split_ifs <;> exact .of_descs rfl rfl rfl
  opened := fun _ _ _ hfree => .setDesc fun hopen => absurd hfree hopen
  zeroed := fun _ _ => .of_descs rfl rfl rfl
  starts := fun _ _ => .of_descs rfl rfl rfl
  region := fun _ _ _ _ => .of_descs rfl rfl rfl
  used := fun _ _ _ => .setDesc fun _ => ⟨rfl, rfl⟩

/-- Whether or not it is granted, an allocation keeps the pins. -/
theorem samePins_of_alloc {α : Type} {h : PageHeap} {n : Nat} {r : Option α × PageHeap}
    (hr : Answered SamePins h n r) : SamePins h r.2 := by
  obtain ⟨_ | a, h'⟩ := r
  · exact hr
  · obtain ⟨h₁, hS, rfl⟩ := hr
    exact hS.trans (.of_descs rfl rfl rfl)

/-! ## One word -/

/-- Pins have been recorded, nothing else has changed. -/
structure OnlyPins (h h' : PageHeap) : Prop where
  same : h' = { h with descs := h'.descs, pinnedCells := h'.pinnedCells }
  descs : ∀ q, ∃ b, h'.descs q = { h.descs q with pinByte := b }

namespace OnlyPins

theorem refl (h : PageHeap) : OnlyPins h h := ⟨rfl, fun _ => ⟨_, rfl⟩⟩

theorem trans {h h' h'' : PageHeap} (h₁ : OnlyPins h h') (h₂ : OnlyPins h' h'') :
    OnlyPins h h'' where
  same := by rw [h₂.same, h₁.same]
  descs := by
    intro q
    obtain ⟨b₁, hb₁⟩ := h₁.descs q
    obtain ⟨b₂, hb₂⟩ := h₂.descs q
    exact ⟨b₂, by rw [hb₂, hb₁]⟩

theorem recordPin (h : PageHeap) (c : Nat) : OnlyPins h (h.recordPin c) := by
  refine ⟨rfl, ?_⟩
  intro q
  by_cases hq : q = c / pageSizeCells
  · subst hq
    exact ⟨_, Function.update_self ..⟩
  · exact ⟨_, Function.update_of_ne hq ..⟩

theorem clearAllPins (h : PageHeap) : OnlyPins h h.clearAllPins := ⟨rfl, fun _ => ⟨_, rfl⟩⟩

/-- What a word pins does not depend on the pins there are. -/
theorem pinCandidate_eq {L : HeapLayout} {h h' : PageHeap} (hO : OnlyPins h h') (g : Generation)
    (lo hi : Nat) (raw : Word) : pinCandidate L h' g lo hi raw = pinCandidate L h g lo hi raw := by
  have hgen : ∀ q, (h'.descs q).generation = (h.descs q).generation := by
    intro q
    obtain ⟨b, hb⟩ := hO.descs q
    rw [hb]
  have hpage : h'.pageOf = h.pageOf := by
    rw [hO.same]
    rfl
  have hcell : h'.cellOf = h.cellOf := by
    rw [hO.same]
    rfl
  have hstart : h'.isStartAt = h.isStartAt := by
    rw [hO.same]
    rfl
  unfold pinCandidate
  simp only [hpage, hcell, hstart, hgen]

end OnlyPins

/-- The gates of the scan, as conditions on the address the word holds. -/
theorem pinCandidate_iff {L : HeapLayout} {h : PageHeap} {g : Generation} {lo hi c : Nat}
    {raw : Word} : pinCandidate L h g lo hi raw = some c ↔
      ∃ a, (∃ tag, (L.classify raw).pointer? = some (a, tag)) ∧ ¬ (lo ≤ a ∧ a < hi) ∧
        (∃ p, h.pageOf a = some p ∧ (h.descs p).generation = g) ∧
        h.cellOf a = c ∧ h.isStartAt c = true := by
  unfold pinCandidate
  constructor
  · intro hc
    split at hc
    · cases hc
    · rename_i a tag hptr
      split at hc
      · cases hc
      · rename_i hin
        split at hc
        · cases hc
        · rename_i p hp
          split at hc
          · cases hc
          · rename_i hgen
            split at hc
            · rename_i hstart
              cases hc
              exact ⟨a, ⟨tag, hptr⟩, hin, ⟨p, hp, not_not.1 hgen⟩, rfl, hstart⟩
            · cases hc
  · rintro ⟨a, ⟨tag, hptr⟩, hin, ⟨p, hp, hgen⟩, rfl, hstart⟩
    simp [hptr, hin, hp, hgen, hstart]

theorem pinCandidate_page {L : HeapLayout} {h : PageHeap} {g : Generation} {lo hi c : Nat}
    {raw : Word} (hc : pinCandidate L h g lo hi raw = some c) :
    c / pageSizeCells < h.nPages ∧ h.genAt c = g := by
  obtain ⟨a, -, -, ⟨p, hp, hgen⟩, rfl, -⟩ := pinCandidate_iff.1 hc
  have hpage := pageOf_eq hp
  subst hpage
  exact ⟨pageOf_lt hp, hgen⟩

/-- A pin of a cell of the reservation is recorded at both levels. -/
theorem isPinnedCell_recordPin {h : PageHeap} {c : Nat} (hlt : c / pageSizeCells < h.nPages) :
    (h.recordPin c).isPinnedCell c = true := by
  have hself : (h.recordPin c).descs (c / pageSizeCells) =
      (h.descs (c / pageSizeCells)).setPin (pinSlot c) := Function.update_self ..
  refine isPinnedCell_iff.2 ⟨hlt, ?_, mem_setInsert.2 (Or.inl rfl)⟩
  rw [hself]
  exact isPinned_setPin_self _ (pinSlot_lt c)

/-- What was looked up as pinned still is. -/
theorem isPinnedCell_recordPin_of {h : PageHeap} {x : Nat} (c : Nat)
    (hx : h.isPinnedCell x = true) : (h.recordPin c).isPinnedCell x = true := by
  obtain ⟨hlt, hbit, hmem⟩ := isPinnedCell_iff.1 hx
  refine isPinnedCell_iff.2 ⟨hlt, ?_, mem_setInsert.2 (Or.inr hmem)⟩
  have hself : (h.recordPin c).descs (c / pageSizeCells) =
      (h.descs (c / pageSizeCells)).setPin (pinSlot c) := Function.update_self ..
  by_cases hq : x / pageSizeCells = c / pageSizeCells
  · rw [hq, hself]
    rw [hq] at hbit
    exact isPinned_setPin _ _ hbit
  · have hother : (h.recordPin c).descs (x / pageSizeCells) = h.descs (x / pageSizeCells) :=
      Function.update_of_ne hq ..
    rwa [hother]

/-! ## One scan -/

/-- The words a scan reads: the range each belongs to, and its address. -/
def scannedWords (ranges : List (Nat × Nat)) : List ((Nat × Nat) × Nat) :=
  ranges.flatMap fun r => (stackSlots r.1 r.2).map fun slot => (r, slot)

/-- The words of a range are the 8-aligned ones that lie inside it. -/
theorem mem_stackSlots {lo hi slot : Nat} :
    slot ∈ stackSlots lo hi ↔ slot % 8 = 0 ∧ lo ≤ slot ∧ slot + 8 ≤ hi := by
  unfold stackSlots
  by_cases hle : hi ≤ lo
  · rw [if_pos hle]
    simp only [List.not_mem_nil, false_iff]
    omega
  · rw [if_neg hle, List.mem_map]
    constructor
    · rintro ⟨i, hi', rfl⟩
      rw [List.mem_range] at hi'
      omega
    · rintro ⟨hmod, hlo, hhi⟩
      refine ⟨(slot - (lo + 7) / 8 * 8) / 8, ?_, ?_⟩
      · rw [List.mem_range]
        omega
      · omega

theorem mem_scannedWords {ranges : List (Nat × Nat)} {r : Nat × Nat} {slot : Nat} :
    (r, slot) ∈ scannedWords ranges ↔
      r ∈ ranges ∧ slot % 8 = 0 ∧ r.1 ≤ slot ∧ slot + 8 ≤ r.2 := by
  unfold scannedWords
  simp only [List.mem_flatMap, List.mem_map, Prod.mk.injEq]
  constructor
  · rintro ⟨r', hr', slot', hslot, rfl, rfl⟩
    exact ⟨hr', mem_stackSlots.1 hslot⟩
  · rintro ⟨hr, hslot⟩
    exact ⟨r, hr, slot, mem_stackSlots.2 hslot, rfl, rfl⟩

/-- A scan is one pass over its words. -/
theorem pinPointersInRanges_eq (L : HeapLayout) (ext : Nat → Word) (h : PageHeap) (g : Generation)
    (ranges : List (Nat × Nat)) : h.pinPointersInRanges L ext g ranges =
      (let s := (scannedWords ranges).foldl
        (fun s x => pinWord L g x.1.1 x.1.2 s (ext x.2)) (h, 0)
       ({ nObjects := s.2, nCells := 0 }, s.1)) := by
  unfold pinPointersInRanges scannedWords
  rw [List.foldl_flatMap]
  simp only [List.foldl_map]
  rfl

/-- What a scan of some words leaves. -/
structure ScanDone (L : HeapLayout) (ext : Nat → Word) (g : Generation)
    (words : List ((Nat × Nat) × Nat)) (h : PageHeap) (s : PageHeap × Nat) : Prop where
  only : OnlyPins h s.1
  kept : ∀ c, h.isPinnedCell c = true → s.1.isPinnedCell c = true
  found : ∀ c, ∀ x ∈ words, pinCandidate L h g x.1.1 x.1.2 (ext x.2) = some c →
    s.1.isPinnedCell c = true
  cells : ∀ c, c ∈ s.1.pinnedCells ↔ c ∈ h.pinnedCells ∨
    ∃ x ∈ words, pinCandidate L h g x.1.1 x.1.2 (ext x.2) = some c
  count : s.2 = (s.1.pinnedCells.toFinset \ h.pinnedCells.toFinset).card

namespace ScanDone

variable {L : HeapLayout} {ext : Nat → Word} {g : Generation} {words : List ((Nat × Nat) × Nat)}
  {h : PageHeap} {s : PageHeap × Nat}

theorem nil (h : PageHeap) : ScanDone L ext g [] h (h, 0) where
  only := .refl h
  kept := fun _ hc => hc
  found := fun _ _ hx => absurd hx List.not_mem_nil
  cells := by simp
  count := by simp

theorem count_new {A B : Finset Nat} {c : Nat} (hBA : B ⊆ A) (hc : c ∉ A) :
    (insert c A \ B).card = (A \ B).card + 1 := by
  have hcB : c ∉ B := fun hB => hc (hBA hB)
  rw [Finset.insert_sdiff_of_notMem A hcB, Finset.card_insert_of_notMem]
  exact fun hmem => hc (Finset.mem_sdiff.1 hmem).1

/-- One more word. -/
theorem snoc (hS : ScanDone L ext g words h s) (x : (Nat × Nat) × Nat) :
    ScanDone L ext g (words ++ [x]) h (pinWord L g x.1.1 x.1.2 s (ext x.2)) := by
  have hsame := hS.only.pinCandidate_eq (L := L) g x.1.1 x.1.2 (ext x.2)
  unfold pinWord
  rw [hsame]
  cases hcand : pinCandidate L h g x.1.1 x.1.2 (ext x.2) with
  | none =>
      refine ⟨hS.only, hS.kept, ?_, ?_, hS.count⟩
      · intro c y hy hcandy
        rcases List.mem_append.1 hy with hy | hy
        · exact hS.found c y hy hcandy
        · rw [List.mem_singleton.1 hy, hcand] at hcandy
          cases hcandy
      · intro c
        rw [hS.cells]
        simp [or_and_right, exists_or, hcand]
  | some cell =>
      have hlt : cell / pageSizeCells < s.1.nPages := by
        rw [hS.only.same]
        exact (pinCandidate_page hcand).1
      have hpinned : (s.1.recordPin cell).pinnedCells = setInsert cell s.1.pinnedCells := rfl
      refine ⟨hS.only.trans (.recordPin s.1 cell),
        fun c hc => isPinnedCell_recordPin_of cell (hS.kept c hc), ?_, ?_, ?_⟩
      · intro c y hy hcandy
        rcases List.mem_append.1 hy with hy | hy
        · exact isPinnedCell_recordPin_of cell (hS.found c y hy hcandy)
        · rw [List.mem_singleton.1 hy, hcand] at hcandy
          cases hcandy
          exact isPinnedCell_recordPin hlt
      · intro c
        show c ∈ setInsert cell s.1.pinnedCells ↔ _
        rw [mem_setInsert, hS.cells]
        have hlast : (∃ y ∈ words ++ [x], pinCandidate L h g y.1.1 y.1.2 (ext y.2) = some c) ↔
            (∃ y ∈ words, pinCandidate L h g y.1.1 y.1.2 (ext y.2) = some c) ∨ c = cell := by
          simp [or_and_right, exists_or, hcand, eq_comm]
        rw [hlast, or_comm, or_assoc]
      · have hsub : h.pinnedCells.toFinset ⊆ s.1.pinnedCells.toFinset := by
          intro c hc
          rw [List.mem_toFinset] at hc ⊢
          exact (hS.cells c).2 (Or.inl hc)
        show (if cell ∈ s.1.pinnedCells then s.2 else s.2 + 1) = _
        rw [hpinned]
        unfold setInsert
        split
        · exact hS.count
        · rename_i hnew
          rw [List.toFinset_cons, count_new hsub (by rwa [List.mem_toFinset]), hS.count]

end ScanDone

/-- A scan pins the cells its words name. -/
theorem pinPointersInRanges_done (L : HeapLayout) (ext : Nat → Word) (h : PageHeap)
    (g : Generation) (ranges : List (Nat × Nat)) :
    ScanDone L ext g (scannedWords ranges) h
      ((h.pinPointersInRanges L ext g ranges).2,
        (h.pinPointersInRanges L ext g ranges).1.nObjects) := by
  have hrun : ∀ (rest done : List ((Nat × Nat) × Nat)) (s : PageHeap × Nat),
      ScanDone L ext g done h s → ScanDone L ext g (done ++ rest) h
        (rest.foldl (fun s x => pinWord L g x.1.1 x.1.2 s (ext x.2)) s) := by
    intro rest
    induction rest with
    | nil => intro done s hS; simpa using hS
    | cons x rest ih => intro done s hS; simpa using ih (done ++ [x]) _ (hS.snoc x)
  rw [pinPointersInRanges_eq]
  exact hrun (scannedWords ranges) [] (h, 0) (.nil h)

/-! ## Scans and clears -/

/-- A call of the pinner. -/
inductive PinCall
  | scan (ext : Nat → Word) (target : Generation) (ranges : List (Nat × Nat))
  | clear

namespace PinCall

/-- The heap after a call. -/
def apply (L : HeapLayout) (h : PageHeap) : PinCall → PageHeap
  | scan ext target ranges => (h.pinPointersInRanges L ext target ranges).2
  | clear => h.clearAllPins

/-- A word fully inside a scanned range, 8-aligned, holds the address of the start cell `c`: outside
the range itself, on a page of the scan's target generation. -/
def Found (L : HeapLayout) (h : PageHeap) (c : Nat) : PinCall → Prop
  | scan ext target ranges => ∃ lo hi, (lo, hi) ∈ ranges ∧ ∃ slot, slot % 8 = 0 ∧ lo ≤ slot ∧
      slot + 8 ≤ hi ∧ ∃ a, (∃ tag, (L.classify (ext slot)).pointer? = some (a, tag)) ∧
        ¬ (lo ≤ a ∧ a < hi) ∧ (∃ p, h.pageOf a = some p ∧ (h.descs p).generation = target) ∧
        h.cellOf a = c ∧ h.isStartAt c = true
  | clear => False

/-- The heap after a sequence of calls. -/
def applyAll (L : HeapLayout) (h : PageHeap) (calls : List PinCall) : PageHeap :=
  calls.foldl (apply L) h

/-- Some scan since the last clear found the cell. -/
def FoundSince (L : HeapLayout) (h : PageHeap) (calls : List PinCall) (c : Nat) : Prop :=
  ∃ before call after, calls = before ++ call :: after ∧ clear ∉ after ∧ call.Found L h c

end PinCall

theorem PinCall.foundSince_snoc {L : HeapLayout} {h : PageHeap} {calls : List PinCall}
    {call : PinCall} {c : Nat} : FoundSince L h (calls ++ [call]) c ↔
      call.Found L h c ∨ (call ≠ clear ∧ FoundSince L h calls c) := by
  constructor
  · rintro ⟨before, found, after, hcalls, hclear, hfound⟩
    rcases List.eq_nil_or_concat after with rfl | ⟨after, last, rfl⟩
    · obtain ⟨-, hlast⟩ := List.append_inj' hcalls rfl
      cases hlast
      exact Or.inl hfound
    · have hsplit : calls ++ [call] = (before ++ found :: after) ++ [last] := by
        rw [hcalls, List.concat_eq_append, List.append_assoc, List.cons_append]
      obtain ⟨rfl, hlast⟩ := List.append_inj' hsplit rfl
      cases hlast
      rw [List.concat_eq_append, List.mem_append, List.mem_singleton, not_or] at hclear
      exact Or.inr ⟨fun heq => hclear.2 heq.symm, before, found, after, rfl, hclear.1, hfound⟩
  · rintro (hfound | ⟨hne, before, found, after, rfl, hclear, hfound⟩)
    · exact ⟨calls, call, [], rfl, List.not_mem_nil, hfound⟩
    · refine ⟨before, found, after ++ [call], by simp, ?_, hfound⟩
      rw [List.mem_append, List.mem_singleton, not_or]
      exact ⟨hclear, fun heq => hne heq.symm⟩

/-- What a sequence of calls leaves. -/
structure CallsDone (L : HeapLayout) (h : PageHeap) (calls : List PinCall) (h' : PageHeap) :
    Prop where
  only : OnlyPins h h'
  cells : ∀ c, c ∈ h'.pinnedCells ↔ PinCall.FoundSince L h calls c ∨
    (PinCall.clear ∉ calls ∧ c ∈ h.pinnedCells)
  found : ∀ c, PinCall.FoundSince L h calls c → h'.isPinnedCell c = true
  kept : PinCall.clear ∉ calls → ∀ c, h.isPinnedCell c = true → h'.isPinnedCell c = true

namespace CallsDone

variable {L : HeapLayout} {h h' : PageHeap} {calls : List PinCall}

theorem nil (h : PageHeap) : CallsDone L h [] h where
  only := .refl h
  cells := by simp [PinCall.FoundSince]
  found := by simp [PinCall.FoundSince]
  kept := fun _ _ hc => hc

/-- The words of a scan name the cells it finds, whatever was pinned before it. -/
theorem found_iff (hO : OnlyPins h h') (ext : Nat → Word) (g : Generation)
    (ranges : List (Nat × Nat)) (c : Nat) : (PinCall.scan ext g ranges).Found L h c ↔
      ∃ x ∈ scannedWords ranges, pinCandidate L h' g x.1.1 x.1.2 (ext x.2) = some c := by
  constructor
  · rintro ⟨lo, hi, hr, slot, hmod, hlo, hhi, hword⟩
    refine ⟨((lo, hi), slot), mem_scannedWords.2 ⟨hr, hmod, hlo, hhi⟩, ?_⟩
    rw [hO.pinCandidate_eq]
    exact pinCandidate_iff.2 hword
  · rintro ⟨⟨⟨lo, hi⟩, slot⟩, hx, hcand⟩
    obtain ⟨hr, hmod, hlo, hhi⟩ := mem_scannedWords.1 hx
    rw [hO.pinCandidate_eq] at hcand
    exact ⟨lo, hi, hr, slot, hmod, hlo, hhi, pinCandidate_iff.1 hcand⟩

theorem snoc (hD : CallsDone L h calls h') (call : PinCall) :
    CallsDone L h (calls ++ [call]) (call.apply L h') := by
  cases call with
  | scan ext g ranges =>
      have hscan := pinPointersInRanges_done L ext h' g ranges
      have hclear : PinCall.clear ∉ calls ++ [PinCall.scan ext g ranges] ↔
          PinCall.clear ∉ calls := by simp
      refine ⟨hD.only.trans hscan.only, ?_, ?_, ?_⟩
      · intro c
        show c ∈ (h'.pinPointersInRanges L ext g ranges).2.pinnedCells ↔ _
        rw [hscan.cells, ← found_iff hD.only, hD.cells, PinCall.foundSince_snoc, hclear]
        constructor
        · rintro ((hfound | hold) | hnew)
          · exact Or.inl (Or.inr ⟨by simp, hfound⟩)
          · exact Or.inr hold
          · exact Or.inl (Or.inl hnew)
        · rintro ((hnew | ⟨-, hfound⟩) | hold)
          · exact Or.inr hnew
          · exact Or.inl (Or.inl hfound)
          · exact Or.inl (Or.inr hold)
      · -- the last scan records both levels and takes no pin back
        intro c hfound
        rcases PinCall.foundSince_snoc.1 hfound with hnew | ⟨-, hold⟩
        · obtain ⟨x, hx, hcand⟩ := (found_iff hD.only ext g ranges c).1 hnew
          exact hscan.found c x hx hcand
        · exact hscan.kept c (hD.found c hold)
      · exact fun hno c hc => hscan.kept c (hD.kept (hclear.1 hno) c hc)
  | clear =>
      have hnone : ∀ c, ¬ PinCall.FoundSince L h (calls ++ [PinCall.clear]) c := by
        intro c
        rw [PinCall.foundSince_snoc]
        rintro (hfound | ⟨hne, -⟩)
        · exact hfound
        · exact hne rfl
      refine ⟨hD.only.trans (.clearAllPins h'), fun c => ?_, fun c hc => absurd hc (hnone c), ?_⟩
      · show c ∈ [] ↔ _
        simp [hnone c]
      · exact fun hno => absurd (List.mem_append_right calls (List.mem_singleton.2 rfl)) hno

/-- The calls, one after another. -/
theorem applyAll (h : PageHeap) (calls : List PinCall) :
    CallsDone L h calls (PinCall.applyAll L h calls) := by
  have hrun : ∀ (rest done : List PinCall) (h' : PageHeap), CallsDone L h done h' →
      CallsDone L h (done ++ rest) (rest.foldl (PinCall.apply L) h') := by
    intro rest
    induction rest with
    | nil => intro done h' hD; simpa using hD
    | cons call rest ih => intro done h' hD; simpa using ih (done ++ [call]) _ (hD.snoc call)
  exact hrun calls [] h (.nil h)

/-- After a clear, or when they agreed before, the two levels agree on every cell. -/
theorem indexed (hD : CallsDone L h calls h') (hbefore : PinCall.clear ∈ calls ∨ PinIndexed h) :
    PinIndexed h' := by
  intro c hc
  rw [← isPinnedCell_iff_of_mem hc]
  rcases (hD.cells c).1 hc with hfound | ⟨hno, hold⟩
  · exact hD.found c hfound
  · exact hD.kept hno c ((hbefore.resolve_left hno).lookup c |>.2 hold)

end CallsDone

/-! ## Runs -/

theorem finishCycle_pinnedCells {L : HeapLayout} (h : PageHeap) :
    Outcome AnyPanic (h.finishCycle L) fun h' => h'.pinnedCells = [] := by
  unfold finishCycle
  exact Outcome.bind (P := fun _ => True) (.of_value (fun _ _ => trivial) fun _ _ => trivial)
    fun _ _ => rfl

/-- An evacuation, with whatever it leaves. -/
theorem evacuateWithRoots_any {L : HeapLayout} (h : PageHeap) (ext : Nat → Word)
    (fromGen destGen : Generation) (V : RootVisitor) :
    Outcome AnyPanic (h.evacuateWithRoots L ext fromGen destGen V) fun _ => True :=
  .of_value (fun _ _ => trivial) fun _ _ => trivial

theorem collectMinor_unpinned {L : HeapLayout} (h : PageHeap) (ext : Nat → Word)
    (V : RootVisitor) :
    Outcome AnyPanic (h.collectMinor L ext V) fun r => r.2.1.pinnedCells = [] := by
  unfold collectMinor
  dsimp only
  refine (evacuateWithRoots_any _ ext .G0 _ _).bind fun r _ => ?_
  split
  · split
    · refine (evacuateWithRoots_any _ _ .G1 _ _).bind fun r _ => ?_
      exact (finishCycle_pinnedCells _).bind fun h' hh => hh
    · exact (finishCycle_pinnedCells _).bind fun h' hh => hh
  · exact (finishCycle_pinnedCells _).bind fun h' hh => hh

theorem collectMajor_unpinned {L : HeapLayout} (h : PageHeap) (ext : Nat → Word)
    (V : RootVisitor) :
    Outcome AnyPanic (h.collectMajor L ext V) fun r => r.2.1.pinnedCells = [] := by
  unfold collectMajor
  refine (evacuateWithRoots_any _ ext .G1 _ _).bind fun r _ => ?_
  refine (evacuateWithRoots_any _ _ .G0 _ _).bind fun r _ => ?_
  exact (finishCycle_pinnedCells _).bind fun h' hh => hh

theorem collectFull_unpinned {L : HeapLayout} (h : PageHeap) (ext : Nat → Word)
    (V : RootVisitor) :
    Outcome AnyPanic (h.collectFull L ext V) fun r => r.2.1.pinnedCells = [] := by
  unfold collectFull
  refine (evacuateWithRoots_any _ ext .G0 _ _).bind fun r _ => ?_
  refine (evacuateWithRoots_any _ _ .G1 _ _).bind fun r _ => ?_
  refine (evacuateWithRoots_any _ _ .Tenured _ _).bind fun r _ => ?_
  exact (finishCycle_pinnedCells _).bind fun h' hh => hh

theorem collectAuto_unpinned {L : HeapLayout} (h : PageHeap) (ext : Nat → Word) (bps : Nat)
    (V : RootVisitor) :
    Outcome AnyPanic (h.collectAuto L ext bps V) fun r => r.2.1.pinnedCells = [] := by
  unfold collectAuto
  split
  · exact (collectMajor_unpinned h ext V).bind fun r hr => hr
  · exact (collectMinor_unpinned h ext V).bind fun r hr => hr

theorem minorWithStatic_unpinned {L : HeapLayout} (h : PageHeap) (ext : Nat → Word)
    (area : StaticArea) (ranges : List (Nat × Nat)) (roots : List Nat) :
    Outcome AnyPanic (h.collectMinorWithStatic L ext area ranges roots)
      fun r => r.1.pinnedCells = [] := by
  unfold collectMinorWithStatic
  dsimp only
  refine Outcome.bind (P := fun _ => True)
    (.of_value (fun _ _ => trivial) fun _ _ => trivial) fun h₁ _ => ?_
  refine (collectMinor_unpinned h₁ ext _).bind fun r hr => ?_
  exact Outcome.bind (P := fun _ => True)
    (.of_value (fun _ _ => trivial) fun _ _ => trivial) fun _ _ => hr

namespace World

theorem barrierStore_samePins (h : PageHeap) (cell : Nat) (w : Word) :
    SamePins h (barrierStore h cell w) := by
  unfold barrierStore markCardAt
  repeat' split
  all_goals exact .of_descs rfl rfl rfl

theorem initCons_samePins (h : PageHeap) (cell : Nat) (car cdr : Word) :
    SamePins h (initCons h cell car cdr) :=
  (barrierStore_samePins h cell car).trans (barrierStore_samePins _ (cell + 1) cdr)

theorem withHeader_samePins {w : World} {header : Word} {r : Option Nat × PageHeap}
    (hr : SamePins w.heap r.2) : SamePins w.heap (w.withHeader header r).heap := by
  obtain ⟨a, h⟩ := r
  cases a with
  | none => exact hr
  | some cell => exact hr.trans (.of_descs rfl rfl rfl)

theorem pinRanges_pinsOpen {L : HeapLayout} {h : PageHeap} (hO : PinsOpen h) (ext : Nat → Word)
    {g : Generation} (hg : g ≠ .Free) (ranges : List (Nat × Nat)) :
    PinsOpen (h.pinPointersInRanges L ext g ranges).2 := by
  have hscan := pinPointersInRanges_done L ext h g ranges
  have hindexed : PinIndexed (h.pinPointersInRanges L ext g ranges).2 := by
    intro c hc
    rw [← isPinnedCell_iff_of_mem hc]
    rcases (hscan.cells c).1 hc with hold | ⟨x, hx, hcand⟩
    · exact hscan.kept c ((hO.1.lookup c).2 hold)
    · exact hscan.found c x hx hcand
  refine ⟨hindexed, ?_⟩
  intro c hc
  have hgen : (h.pinPointersInRanges L ext g ranges).2.genAt c = h.genAt c := by
    obtain ⟨b, hb⟩ := hscan.only.descs (c / pageSizeCells)
    unfold PageHeap.genAt
    rw [hb]
  rw [hgen]
  rcases (hscan.cells c).1 hc with hold | ⟨x, -, hcand⟩
  · exact hO.2 c hold
  · rw [(pinCandidate_page hcand).2]
    exact hg

/-- Every request but an evacuation called by itself keeps the pins in the open. -/
theorem step_pinsOpen {L : HeapLayout} {w w' : World} {op : Op} (hO : PinsOpen w.heap)
    (hop : ∀ g dest slots, op ≠ .evacuate g dest slots) (hallowed : w.allows L op = true)
    (hstep : w.step L op = .ok w') : PinsOpen w'.heap := by
  have hA := allocFrame_samePins
  -- a collection ends with no pins at all
  have hcollect : ∀ {x : Except GcPanic (World)},
      Outcome AnyPanic x (fun w' => w'.heap.pinnedCells = []) → x = .ok w' → PinsOpen w'.heap :=
    fun hout hx => pinsOpen_of_empty (hout.value hx)
  cases op with
  | allocCons g car cdr =>
      have hS := samePins_of_alloc (hA.tryAllocConsIn w.heap g)
      simp only [step] at hstep
      split at hstep
      · rename_i cell h heq
        rw [heq] at hS
        cases hstep
        exact (hS.trans (initCons_samePins h cell car cdr)).pinsOpen hO
      · rename_i h heq
        rw [heq] at hS
        cases hstep
        exact hS.pinsOpen hO
  | allocBoxed g header =>
      cases hstep
      exact (withHeader_samePins (samePins_of_alloc (hA.tryAllocBoxedIn w.heap g _))).pinsOpen hO
  | allocLarge g header =>
      cases hstep
      exact (withHeader_samePins (samePins_of_alloc (hA.tryAllocLarge w.heap _ g))).pinsOpen hO
  | reserveTlab g k minCells wantCells =>
      have hS := hA.reserveTlab w.heap g k minCells wantCells
      simp only [step] at hstep
      split at hstep <;> rename_i heq <;> rw [heq] at hS <;> cases hstep <;> exact hS.pinsOpen hO
  | reserveSlab cells =>
      have hS := samePins_of_alloc (hA.tryAllocG0Slab w.heap cells)
      simp only [step] at hstep
      split at hstep <;> rename_i heq <;> rw [heq] at hS <;> cases hstep <;> exact hS.pinsOpen hO
  | bumpCons i car cdr =>
      simp only [step] at hstep
      split at hstep
      · rename_i cell slabs heq
        cases hstep
        have hstart : SamePins w.heap (w.heap.setConsStartBitAt cell) := .of_descs rfl rfl rfl
        exact (hstart.trans (initCons_samePins _ cell car cdr)).pinsOpen hO
      · cases hstep
        exact hO
  | bumpBoxed i header =>
      simp only [step] at hstep
      split at hstep
      · rename_i cell slabs heq
        cases hstep
        have hset : SamePins w.heap ((w.heap.setStartBitAt cell).setCell cell header) :=
          .of_descs rfl rfl rfl
        exact hset.pinsOpen hO
      · cases hstep
        exact hO
  | flushTlabs =>
      cases hstep
      exact hO
  | store obj off v =>
      cases hstep
      exact (barrierStore_samePins w.heap (obj + off) v).pinsOpen hO
  | storeExt addr v =>
      cases hstep
      exact hO
  | pin v =>
      cases hstep
      have hpin : SamePins w.heap (w.heap.pin L v).2 := by
        unfold PageHeap.pin
        split <;> exact .of_descs rfl rfl rfl
      exact hpin.pinsOpen hO
  | unpin cell =>
      cases hstep
      have hunpin : SamePins w.heap (w.heap.unpin (some cell)) := .of_descs rfl rfl rfl
      exact hunpin.pinsOpen hO
  | pinRanges target ranges =>
      cases hstep
      exact pinRanges_pinsOpen hO w.ext (by simpa [allows] using hallowed) ranges
  | clearPins =>
      cases hstep
      exact pinsOpen_of_empty rfl
  | evacuate fromGen destGen slots => exact absurd rfl (hop fromGen destGen slots)
  | collectMinor roots =>
      refine hcollect ?_ hstep
      exact (collectMinor_unpinned _ _ _).bind fun r hr => hr
  | collectMajor roots =>
      refine hcollect ?_ hstep
      exact (collectMajor_unpinned _ _ _).bind fun r hr => hr
  | collectFull roots =>
      refine hcollect ?_ hstep
      exact (collectFull_unpinned _ _ _).bind fun r hr => hr
  | collectAuto bps roots =>
      refine hcollect ?_ hstep
      exact (collectAuto_unpinned _ _ _ _).bind fun r hr => hr
  | minorWithStatic area ranges roots =>
      refine hcollect ?_ hstep
      refine Outcome.bind (P := fun _ => True)
        (.of_value (fun _ _ => trivial) fun _ _ => trivial) fun h₁ _ => ?_
      exact (minorWithStatic_unpinned h₁ _ _ _ _).bind fun r hr => hr

/-- A world in which no evacuation has been called by itself since there was no pin at all. -/
inductive PinsCurrent (L : HeapLayout) : World → Prop
  | unpinned {w : World} (hw : Reachable L w) (hnone : w.heap.pinnedCells = []) : PinsCurrent L w
  | step {w w' : World} (op : Op) (hw : PinsCurrent L w)
      (hop : ∀ g dest slots, op ≠ .evacuate g dest slots) (hallowed : w.allows L op = true)
      (hstep : w.step L op = .ok w') : PinsCurrent L w'

/-- In such a world the pins are indexed, and lie on open pages. -/
theorem PinsCurrent.pinsOpen {L : HeapLayout} {w : World} (hw : PinsCurrent L w) :
    PinsOpen w.heap := by
  induction hw with
  | unpinned _ hnone => exact pinsOpen_of_empty hnone
  | step op _ hop hallowed hstep ih => exact step_pinsOpen ih hop hallowed hstep

/-- Whatever the heap, scans and clears leave exactly the cells found since the last clear, and
without a clear what was pinned before; they count the new ones.  A lookup knows every cell found
since the last clear and no cell that is not pinned, and both levels agree on all cells when there
was a clear, when they agreed before, or when no evacuation was called by itself since there was no
pin at all. -/
theorem pin_scan_exact (L : HeapLayout) (w : World) (calls : List PinCall) :
    (∀ c, c ∈ (PinCall.applyAll L w.heap calls).pinnedCells ↔
      PinCall.FoundSince L w.heap calls c ∨
        (PinCall.clear ∉ calls ∧ c ∈ w.heap.pinnedCells)) ∧
    (∀ c, PinCall.FoundSince L w.heap calls c →
      (PinCall.applyAll L w.heap calls).isPinnedCell c = true) ∧
    (∀ c, (PinCall.applyAll L w.heap calls).isPinnedCell c = true →
      c ∈ (PinCall.applyAll L w.heap calls).pinnedCells) ∧
    ((PinCall.clear ∈ calls ∨ (∀ c, w.heap.isPinnedCell c = true ↔ c ∈ w.heap.pinnedCells) ∨
        PinsCurrent L w) →
      ∀ c, (PinCall.applyAll L w.heap calls).isPinnedCell c = true ↔
        c ∈ (PinCall.applyAll L w.heap calls).pinnedCells) ∧
    ∀ ext target ranges,
      ((PinCall.applyAll L w.heap calls).pinPointersInRanges L ext target ranges).1.nObjects =
        (((PinCall.applyAll L w.heap calls).pinPointersInRanges L ext target
            ranges).2.pinnedCells.toFinset \
          (PinCall.applyAll L w.heap calls).pinnedCells.toFinset).card := by
  have hdone := CallsDone.applyAll (L := L) w.heap calls
  refine ⟨hdone.cells, hdone.found, fun c hc => (isPinnedCell_iff.1 hc).2.2, ?_, ?_⟩
  · intro hbefore
    have hindexed : PinCall.clear ∈ calls ∨ PinIndexed w.heap := by
      rcases hbefore with hclear | hagreed | hcurrent
      · exact Or.inl hclear
      · exact Or.inr (pinIndexed_of_lookup hagreed)
      · exact Or.inr hcurrent.pinsOpen.1
    exact (hdone.indexed hindexed).lookup
  · intro ext target ranges
    exact (pinPointersInRanges_done L ext _ target ranges).count

/-- A string of a page's size that a direct evacuation has moved to G1 with its page, and a cons. -/
def flippedStringOps : List Op :=
  [.allocLarge .G0 (heapHeader .String 8191), .storeExt 0 (boxAt 0), .evacuate .G0 .G1 [.ext 0],
    .allocCons .G0 0 0, .storeExt 8 (consAt 8192), .storeExt 16 (consAt 8192)]

/-- After it a scan of an unaligned and an overlapping range finds the cons, once. -/
theorem pin_scan_exact_cons : ∃ w, (lispWorld 3 []).run lispLayout flippedStringOps = some w ∧
    PinCall.FoundSince lispLayout w.heap [.clear, .scan w.ext .G0 [(3, 24), (0, 16)]] 8192 ∧
    ∀ c, (PinCall.applyAll lispLayout w.heap
        [.clear, .scan w.ext .G0 [(3, 24), (0, 16)]]).isPinnedCell c = true ↔
      c ∈ (PinCall.applyAll lispLayout w.heap
        [.clear, .scan w.ext .G0 [(3, 24), (0, 16)]]).pinnedCells := by
  have hcheck : (((lispWorld 3 []).run lispLayout flippedStringOps).map fun w =>
      (PinCall.applyAll lispLayout w.heap
        [.clear, .scan w.ext .G0 [(3, 24), (0, 16)]]).pinnedCells) = some [8192] := by
    decide +kernel
  obtain ⟨w, hrun, hpinned⟩ := Option.map_eq_some_iff.1 hcheck
  have hexact := pin_scan_exact lispLayout w [.clear, .scan w.ext .G0 [(3, 24), (0, 16)]]
  refine ⟨w, hrun, ?_, hexact.2.2.2.1 (Or.inl List.mem_cons_self)⟩
  have hmem := hexact.1 8192
  rw [hpinned] at hmem
  have hfound := hmem.1 List.mem_cons_self
  simpa using hfound

/-! ### A pin that nothing has scanned

The marker pins the head of every large object it meets, the page that joins the destination gives
its byte up, and an evacuation called by itself leaves the pins to its caller. -/

theorem evacuation_leaves_pin : ∃ w, (lispWorld 3 []).run lispLayout flippedStringOps = some w ∧
    (¬ ∀ c, c ∈ (PinCall.applyAll lispLayout w.heap []).pinnedCells ↔
      PinCall.FoundSince lispLayout w.heap [] c) ∧
    ¬ ∀ c, (PinCall.applyAll lispLayout w.heap []).isPinnedCell c = true ↔
      c ∈ (PinCall.applyAll lispLayout w.heap []).pinnedCells := by
  have hcheck : (((lispWorld 3 []).run lispLayout flippedStringOps).map fun w =>
      (w.heap.pinnedCells, w.heap.isPinnedCell 0)) = some ([0], false) := by
    decide +kernel
  obtain ⟨w, hrun, hpins⟩ := Option.map_eq_some_iff.1 hcheck
  rw [Prod.mk.injEq] at hpins
  have hmem : 0 ∈ (PinCall.applyAll lispLayout w.heap []).pinnedCells := by
    show 0 ∈ w.heap.pinnedCells
    rw [hpins.1]
    exact List.mem_cons_self
  refine ⟨w, hrun, fun hfound => ?_, fun hagree => ?_⟩
  · -- no call, so nothing found
    obtain ⟨before, call, after, hcalls, -⟩ := (hfound 0).1 hmem
    simp at hcalls
  · have hlook := (hagree 0).2 hmem
    change w.heap.isPinnedCell 0 = true at hlook
    rw [hpins.2] at hlook
    cases hlook

end World

end NewGc
