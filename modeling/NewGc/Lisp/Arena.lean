import NewGc.Lisp.Renaming

/-!
# Arena — a heap that moves everything

Each block sits in a slot of its own, and a collection moves every block one slot up, rewriting the
roots and the fields.  It keeps the contract of the evaluator.
-/

namespace NewGc.Lisp

/-! ## Words under addition -/

theorem addrOf_eq (w : Word) : addrOf w = w.toNat / 8 * 8 := by
  have hsplit : w.toNat = (w &&& LispLayout.payloadMask).toNat + (w &&& 7#64).toNat := by
    have hdisjoint : (w &&& LispLayout.payloadMask) &&& (w &&& 7#64) = 0#64 := by
      calc (w &&& LispLayout.payloadMask) &&& (w &&& 7#64)
          = (w &&& w) &&& (LispLayout.payloadMask &&& 7#64) := by ac_rfl
        _ = 0#64 := by
            rw [show (LispLayout.payloadMask &&& 7#64 : Word) = 0#64 by decide, BitVec.and_zero]
    have hor : (w &&& LispLayout.payloadMask) ||| (w &&& 7#64) = w := by
      calc (w &&& LispLayout.payloadMask) ||| (w &&& 7#64)
          = w &&& (LispLayout.payloadMask ||| 7#64) := (BitVec.and_or_distrib_left).symm
        _ = w := by
            rw [show (LispLayout.payloadMask ||| 7#64 : Word) = BitVec.allOnes 64 by decide,
              BitVec.and_allOnes]
    rw [← BitVec.toNat_add_of_and_eq_zero hdisjoint, BitVec.add_eq_or_of_and_eq_zero _ _ hdisjoint,
      hor]
  have hlow : (w &&& 7#64).toNat = w.toNat % 8 := by
    rw [BitVec.toNat_and, show (7#64 : Word).toNat = 2 ^ 3 - 1 from rfl,
      Nat.and_two_pow_sub_one_eq_mod]
  unfold addrOf
  omega

/-- The distance of two slots, in bytes. -/
def slotBytes : Nat := 2 ^ 24

def slotCount : Nat := 2 ^ 40

section Shift

variable {w : Word}

theorem toNat_shift (h : w.toNat + slotBytes < 2 ^ 64) :
    (w + BitVec.ofNat 64 slotBytes).toNat = w.toNat + slotBytes := by
  rw [BitVec.toNat_add, BitVec.toNat_ofNat, Nat.mod_eq_of_lt (show slotBytes < 2 ^ 64 by decide),
    Nat.mod_eq_of_lt h]

theorem addrOf_shift (h : w.toNat + slotBytes < 2 ^ 64) :
    addrOf (w + BitVec.ofNat 64 slotBytes) = addrOf w + slotBytes := by
  rw [addrOf_eq, addrOf_eq, toNat_shift h]
  unfold slotBytes
  omega

theorem fromBits_shift (w : Word) :
    Tag.fromBits (w + BitVec.ofNat 64 slotBytes) = Tag.fromBits w := by
  refine Tag.fromBits_congr (BitVec.eq_of_toNat_eq ?_)
  have hmask : LispLayout.tagMask.toNat = 2 ^ 3 - 1 := by decide
  rw [BitVec.toNat_and, BitVec.toNat_and, hmask, Nat.and_two_pow_sub_one_eq_mod,
    Nat.and_two_pow_sub_one_eq_mod, BitVec.toNat_add, BitVec.toNat_ofNat]
  unfold slotBytes
  omega

end Shift

instance (w : Word) : Decidable (Pointer w) :=
  inferInstanceAs (Decidable (_ ∨ _ ∨ _))

/-- The new word of what is one slot further up. -/
def forwardWord (w : Word) : Word := if Pointer w then w + BitVec.ofNat 64 slotBytes else w

/-! ## The heap -/

/-- The slots in use, from `first` to `next`. -/
structure Arena where
  first : Nat
  next : Nat
  kind : Nat → Block
  cells : Nat → Word
  ordered : first ≤ next
  inside : next ≤ slotCount
  fits : ∀ i, 8 * (kind i).cells ≤ slotBytes

namespace Arena

/-- The block at an address. -/
def blocks (s : Arena) (p : Nat) : Option Block :=
  if p % slotBytes = 0 ∧ s.first ≤ p / slotBytes ∧ p / slotBytes < s.next then
    some (s.kind (p / slotBytes))
  else none

/-- Take the next slot. -/
def alloc (b : Block) (s : Arena) : Option Nat × Arena :=
  if h : s.next < slotCount ∧ 8 * b.cells ≤ slotBytes then
    (some (slotBytes * s.next),
      { s with
        next := s.next + 1
        kind := Function.update s.kind s.next b
        ordered := Nat.le_succ_of_le s.ordered
        inside := h.1
        fits := fun i => by
          by_cases hi : i = s.next
          · subst hi
            rw [Function.update_self]
            exact h.2
          · rw [Function.update_of_ne hi]
            exact s.fits i })
  else (none, s)

/-- Does the cell hold a value? -/
def isField (s : Arena) (a : Nat) : Bool :=
  match s.kind (a / slotBytes) with
  | .cons => true
  | .boxed _ => (headerTy (s.cells (a / slotBytes * slotBytes))).toOption == some .Vector &&
      a % slotBytes != 0

/-- The cell one slot further down, if it holds a value, forwarded. -/
def movedCell (s : Arena) (a : Nat) : Word :=
  if s.isField (a - slotBytes) then forwardWord (s.cells (a - slotBytes))
  else s.cells (a - slotBytes)

/-- Move everything one slot up. -/
def moveAll (s : Arena) (roots : List Word) : Option (List Word × Arena) :=
  if h : s.next < slotCount then
    some (roots.map forwardWord,
      { first := s.first + 1
        next := s.next + 1
        kind := fun i => s.kind (i - 1)
        cells := s.movedCell
        ordered := Nat.succ_le_succ s.ordered
        inside := h
        fits := fun i => s.fits (i - 1) })
  else none

end Arena

/-- The heap operations; `eager` heaps collect at every safepoint. -/
def arena (mode : HeapMode) (eager : Bool) : Heap Arena where
  mode := mode
  tryAllocConsIn := Arena.alloc .cons
  tryAllocBoxedIn s n := Arena.alloc (.boxed n) s
  load s a := s.cells a
  store s a w := { s with cells := Function.update s.cells a w }
  markCardAt s _ := s
  setGcBudgetMinBytes s _ := s
  shouldCollect _ := eager
  shouldCollectMajor _ := false
  recomputeAutoTrigger s := s
  stats _ := ⟨0, 0, 0, 0, 0, 0⟩
  collect _ s roots := s.moveAll roots
  pollSafepoint s roots := s.moveAll roots

/-! ## The contract -/

namespace Arena

variable {mode : HeapMode} {eager : Bool} {s s' : Arena} {p : Nat} {b : Block}

theorem blocks_eq_some (h : s.blocks p = some b) :
    p = slotBytes * (p / slotBytes) ∧ s.first ≤ p / slotBytes ∧ p / slotBytes < s.next ∧
      s.kind (p / slotBytes) = b := by
  unfold blocks at h
  split at h
  · rename_i hp
    refine ⟨?_, hp.2.1, hp.2.2, Option.some.inj h⟩
    rw [Nat.mul_div_cancel' (Nat.dvd_of_mod_eq_zero hp.1)]
  · cases h

theorem blocks_handed (h : alloc b s = (some p, s')) :
    Handed (arena mode eager) blocks s p b s' := by
  unfold alloc at h
  split at h
  · obtain ⟨hp, rfl⟩ := Prod.mk.inj h
    obtain rfl := Option.some.inj hp
    have hslot : slotBytes * s.next / slotBytes = s.next :=
      Nat.mul_div_cancel_left _ (by decide)
    refine ⟨?_, fun _ _ _ _ _ => rfl, ?_⟩
    · unfold blocks
      rw [hslot]
      exact if_neg fun hlt => Nat.lt_irrefl _ hlt.2.2
    · funext a
      by_cases ha : a = slotBytes * s.next
      · subst ha
        rw [Function.update_self]
        unfold blocks
        rw [hslot, if_pos ⟨Nat.mul_mod_right _ _, s.ordered, Nat.lt_succ_self _⟩]
        exact congrArg some (Function.update_self ..)
      · rw [Function.update_of_ne ha]
        unfold blocks
        by_cases hmod : a % slotBytes = 0
        · have hne : a / slotBytes ≠ s.next := by
            intro hdiv
            refine ha ?_
            rw [← hdiv, Nat.mul_div_cancel' (Nat.dvd_of_mod_eq_zero hmod)]
          have hlt : a / slotBytes < s.next + 1 ↔ a / slotBytes < s.next :=
            ⟨fun h => Nat.lt_of_le_of_ne (Nat.le_of_lt_succ h) hne, Nat.lt_succ_of_lt⟩
          dsimp only
          rw [Function.update_of_ne hne]
          simp only [hlt]
        · rw [if_neg fun h => hmod h.1, if_neg fun h => hmod h.1]
  · cases (Prod.mk.inj h).1

/-- Where a cell of an object lies in its slot. -/
theorem slot_of_cell {w : Word} {i : Nat} (hw : (arena mode eager).Fits s w (s.blocks (addrOf w)))
    (hi : i < (arena mode eager).extent s w) :
    ∃ b, s.blocks (addrOf w) = some b ∧ s.kind ((addrOf w + 8 * i) / slotBytes) = b ∧
      (addrOf w + 8 * i) / slotBytes * slotBytes = addrOf w ∧
      (addrOf w + 8 * i) % slotBytes = 8 * i := by
  obtain ⟨b, hb, hle⟩ := hw.block
  obtain ⟨hp, -, -, hkind⟩ := blocks_eq_some hb
  have hfits := s.fits (addrOf w / slotBytes)
  rw [hkind] at hfits
  have hlt : 8 * i < slotBytes := by omega
  have hdiv : (addrOf w + 8 * i) / slotBytes = addrOf w / slotBytes := by
    rw [hp, Nat.mul_add_div (by decide), Nat.div_eq_of_lt hlt, Nat.mul_div_cancel_left _ (by decide)]
    rfl
  have hmod : (addrOf w + 8 * i) % slotBytes = 8 * i := by
    rw [hp, Nat.mul_add_mod, Nat.mod_eq_of_lt hlt]
  refine ⟨b, hb, ?_, ?_, hmod⟩
  · rw [hdiv]
    exact hkind
  · rw [hdiv, Nat.mul_comm]
    exact hp.symm

/-- The fields the collector rewrites are those that hold values. -/
theorem isField_iff {w : Word} {i : Nat} (hw : (arena mode eager).Fits s w (s.blocks (addrOf w)))
    (hi : i < (arena mode eager).extent s w) :
    s.isField (addrOf w + 8 * i) = true ↔ IsField w i := by
  obtain ⟨b, hb, hkind, hbase, hmod⟩ := slot_of_cell hw hi
  rw [hb] at hw
  unfold isField IsField
  rw [hkind, hbase, hmod]
  have hheader : s.cells (addrOf w) = (arena mode eager).cell s w 0 := rfl
  rw [hheader]
  match b, hw with
  | .cons, htag =>
      have htag : Tag.fromBits w = .Cons := htag
      exact ⟨fun _ => Or.inl htag, fun _ => rfl⟩
  | .boxed n, ⟨_, Or.inl ⟨htag, hty⟩⟩ =>
      rw [htag, hty]
      simp [Nat.one_le_iff_ne_zero, Except.toOption]
  | .boxed n, ⟨_, Or.inr ⟨htag, hty⟩⟩ =>
      rw [htag, hty]
      simp [Except.toOption]

theorem toNat_lt {w : Word} {i : Nat} (hblock : addrOf w = slotBytes * i) (hi : i < s.next)
    (hroom : s.next < slotCount) : w.toNat + slotBytes < 2 ^ 64 := by
  have haddr := addrOf_eq w
  unfold slotCount at hroom
  unfold slotBytes at hblock ⊢
  omega

theorem forwardWord_spec {w : Word}
    (hw : (arena mode eager).Fits s w (s.blocks (addrOf w))) (hroom : s.next < slotCount) :
    addrOf (forwardWord w) = addrOf w + slotBytes ∧
      Tag.fromBits (forwardWord w) = Tag.fromBits w := by
  obtain ⟨b, hb, -⟩ := hw.block
  obtain ⟨hp, -, hlt, -⟩ := blocks_eq_some hb
  unfold forwardWord
  rw [if_pos hw.pointer]
  exact ⟨addrOf_shift (toNat_lt hp hlt hroom), fromBits_shift w⟩

/-- A collection moves every object the roots lead to one slot up. -/
theorem relocates (s : Arena) (roots : List Word) :
    Relocates (arena mode eager) blocks s roots (s.moveAll roots) := by
  intro hrooted roots' s' hres
  unfold moveAll at hres
  split at hres
  case isFalse => cases hres
  rename_i hroom
  obtain ⟨rfl, hs'⟩ := Prod.mk.inj (Option.some.inj hres)
  refine ⟨forwardWord, rfl, ?_⟩
  have hspec := fun w (hw : LeadsTo (arena mode eager) s roots w) =>
    forwardWord_spec (hrooted.fits w hw) hroom
  have hblocks : ∀ a, s'.blocks (a + slotBytes) = s.blocks a := by
    intro a
    have hdiv : (a + slotBytes) / slotBytes = a / slotBytes + 1 :=
      Nat.add_div_right a (by decide)
    rw [← hs']
    unfold blocks
    dsimp only
    rw [Nat.add_mod_right, hdiv, Nat.add_sub_cancel]
    simp only [Nat.add_le_add_iff_right, Nat.add_lt_add_iff_right]
  have hcell : ∀ w, LeadsTo (arena mode eager) s roots w → ∀ i,
      (arena mode eager).cell s' (forwardWord w) i =
        if s.isField (addrOf w + 8 * i) then forwardWord ((arena mode eager).cell s w i)
        else (arena mode eager).cell s w i := by
    intro w hw i
    have hback : addrOf w + slotBytes + 8 * i - slotBytes = addrOf w + 8 * i := by omega
    show s'.cells (addrOf (forwardWord w) + 8 * i) = _
    rw [(hspec w hw).1, ← hs']
    show s.movedCell _ = _
    unfold movedCell
    rw [hback]
    rfl
  have hplain : ∀ w i, LeadsTo (arena mode eager) s roots w → i < (arena mode eager).extent s w →
      ¬ (IsField w i ∧ Pointer ((arena mode eager).cell s w i)) →
        (arena mode eager).cell s' (forwardWord w) i = (arena mode eager).cell s w i := by
    intro w i hw hi hfield
    rw [hcell w hw i]
    split
    · rename_i hf
      have hp := fun hp => hfield ⟨(isField_iff (hrooted.fits w hw) hi).1 hf, hp⟩
      exact if_neg hp
    · rfl
  constructor
  · exact fun w hw => (hspec w hw).2
  · intro w hw
    have hfits := hrooted.fits w hw
    -- the header is no field
    have hheader : Tag.fromBits w ≠ .Cons →
        (arena mode eager).cell s' (forwardWord w) 0 = (arena mode eager).cell s w 0 := by
      intro hne
      refine hplain w 0 hw (Heap.extent_pos s w) fun hf => ?_
      rcases hf.1 with hcons | ⟨-, hle⟩
      · exact hne hcons
      · exact absurd hle (by decide)
    rw [(hspec w hw).1, hblocks]
    exact hfits.renamed (hspec w hw).2 hheader
  · intro w v hw hv heq
    rw [(hspec w hw).1, (hspec v hv).1] at heq
    exact hrooted.apart w v hw hv (Nat.add_right_cancel heq)
  · intro w i hw hi hfield _
    rw [hcell w hw i, if_pos ((isField_iff (hrooted.fits w hw) hi).2 hfield)]
  · exact hplain

end Arena

/-- The heap that moves everything keeps the contract. -/
def arenaContract (mode : HeapMode) (eager : Bool) : Contract (arena mode eager) where
  blocks := Arena.blocks
  inside := by
    intro s a b h
    obtain ⟨ha, -, hlt, hkind⟩ := Arena.blocks_eq_some h
    have hfits := s.fits (a / slotBytes)
    have hinside := s.inside
    rw [hkind] at hfits
    unfold slotBytes at ha hfits hlt
    unfold slotCount at hinside
    omega
  apart := by
    intro s a a' b b' h h' hlt
    obtain ⟨ha, -, -, hkind⟩ := Arena.blocks_eq_some h
    obtain ⟨ha', -, -, -⟩ := Arena.blocks_eq_some h'
    have hfits := s.fits (a / slotBytes)
    rw [hkind] at hfits
    unfold slotBytes at ha ha' hfits
    omega
  load_store := by
    intro s a a' w _ _
    show Function.update s.cells a w a' = _
    rw [Function.update_apply]
    rfl
  blocks_store := fun _ _ _ => rfl
  markCardAt := fun _ _ => ⟨fun _ => rfl, rfl⟩
  setGcBudgetMinBytes := fun _ _ => ⟨fun _ => rfl, rfl⟩
  recomputeAutoTrigger := fun _ => ⟨fun _ => rfl, rfl⟩
  allocCons := Arena.blocks_handed
  allocBoxed := fun _ h => Arena.blocks_handed h
  collect := fun _ => Arena.relocates
  pollSafepoint := Arena.relocates

end NewGc.Lisp
