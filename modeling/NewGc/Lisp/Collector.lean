import NewGc.Encoding
import NewGc.Lisp.Eval

/-!
# Collector — what the evaluator asks of its heap

A heap hands out blocks and keeps their cells.  A collection may move the objects that the root
words lead to; it owes the evaluator one new word for each of them, in the roots and in every field,
and the other cells as they were.  Two heaps that keep this contract are compared through a renaming
of their words.
-/

namespace NewGc.Lisp

variable {σ τ : Type}

/-! ## Tagged words -/

namespace Tag

theorem toBits_and_mask (tag : Tag) : tag.toBits &&& LispLayout.tagMask = tag.toBits := by
  cases tag <;> decide

theorem fromBits_toBits (tag : Tag) : fromBits tag.toBits = tag := by
  cases tag <;> decide

theorem fromBits_congr {w v : Word} (h : w &&& LispLayout.tagMask = v &&& LispLayout.tagMask) :
    fromBits w = fromBits v := by
  unfold fromBits
  rw [h]

end Tag

section Tagged

variable {p : Nat} (haligned : p % 8 = 0) (tag : Tag)

include haligned

theorem fromBits_fromPtr : Tag.fromBits (fromPtr p tag) = tag := by
  have hmask : fromPtr p tag &&& LispLayout.tagMask = tag.toBits &&& LispLayout.tagMask := by
    have h := or_tag_and_mask (ofNat_and_seven haligned) tag.toBits
    have hbits : tag.toBits &&& 7#64 = tag.toBits := tag.toBits_and_mask
    calc fromPtr p tag &&& LispLayout.tagMask
        = (BitVec.ofNat 64 p ||| (tag.toBits &&& 7#64)) &&& 7#64 := by rw [hbits]; rfl
      _ = tag.toBits &&& LispLayout.tagMask := h
  calc Tag.fromBits (fromPtr p tag) = Tag.fromBits tag.toBits := Tag.fromBits_congr hmask
    _ = tag := tag.fromBits_toBits

theorem addrOf_fromPtr (hlt : p < 2 ^ 64) : addrOf (fromPtr p tag) = p := by
  have h := or_tag_and_not_mask (ofNat_and_seven haligned) tag.toBits
  rw [show tag.toBits &&& 7#64 = tag.toBits from tag.toBits_and_mask] at h
  unfold addrOf fromPtr LispLayout.payloadMask LispLayout.tagMask
  rw [h, BitVec.toNat_ofNat, Nat.mod_eq_of_lt hlt]

end Tagged

theorem addrOf_aligned (w : Word) : addrOf w % 8 = 0 := by
  have hzero : (w &&& LispLayout.payloadMask) &&& 7#64 = 0#64 := by
    rw [BitVec.and_assoc, show (LispLayout.payloadMask &&& 7#64 : Word) = 0#64 by decide,
      BitVec.and_zero]
  have h := congrArg BitVec.toNat hzero
  rw [BitVec.toNat_and, show (7#64 : Word).toNat = 2 ^ 3 - 1 from rfl,
    Nat.and_two_pow_sub_one_eq_mod] at h
  exact h

theorem fromBits_fixnumOf (n : Int64) : Tag.fromBits (fixnumOf n) = .Fixnum := by
  have hmask : fixnumOf n &&& LispLayout.tagMask = 0#64 &&& LispLayout.tagMask := by
    unfold fixnumOf LispLayout.tagMask
    apply BitVec.eq_of_toNat_eq
    rw [BitVec.toNat_and, show (7#64 : Word).toNat = 2 ^ 3 - 1 from rfl,
      Nat.and_two_pow_sub_one_eq_mod, BitVec.toNat_shiftLeft, Nat.shiftLeft_eq]
    show n.toBitVec.toNat * 8 % 2 ^ 64 % 8 = 0
    omega
  exact Tag.fromBits_congr hmask

/-- The word carries the tag of a heap value. -/
def Pointer (w : Word) : Prop :=
  Tag.fromBits w = .Cons ∨ Tag.fromBits w = .Vector ∨ Tag.fromBits w = .String

theorem not_pointer {w : Word} {tag : Tag} (ht : Tag.fromBits w = tag) (hcons : tag ≠ .Cons)
    (hvector : tag ≠ .Vector) (hstring : tag ≠ .String) : ¬ Pointer w := by
  rintro (h | h | h)
  · exact hcons (ht.symm.trans h)
  · exact hvector (ht.symm.trans h)
  · exact hstring (ht.symm.trans h)

/-! ## Headers -/

theorem withGcBits_zero (w : Word) : withGcBits w 0 = w := by
  unfold withGcBits
  simp

/-- A header says no more than the length it was built with. -/
theorem headerLengthCells_le (ty : HeapType) (n : Nat) :
    headerLengthCells (heapHeader ty n) ≤ n := by
  have hmod : heapHeader ty n = heapHeader ty (n % 2 ^ 24) := by
    unfold heapHeader
    rw [Nat.mod_mod]
  have hlt : n % 2 ^ 24 < 2 ^ 24 := Nat.mod_lt n (by decide)
  have hle : n % 2 ^ 24 ≤ maxObjectCells := Nat.le_sub_one_of_lt hlt
  have hlength := headerLengthCells_withGcBits ty hle 0
  rw [withGcBits_zero] at hlength
  rw [hmod, hlength]
  exact Nat.mod_le n _

theorem headerTy_heapHeader (ty : HeapType) (n : Nat) : headerTy (heapHeader ty n) = .ok ty := by
  have h := headerTy_withGcBits ty n 0
  rwa [withGcBits_zero] at h

/-! ## Objects -/

/-- What an allocation hands out. -/
inductive Block
  | cons
  | boxed (cells : Nat)

def Block.cells : Block → Nat
  | .cons => 2
  | .boxed n => n

namespace Heap

variable (H : Heap σ)

/-- The `i`-th cell of the object a word names. -/
def cell (s : σ) (w : Word) (i : Nat) : Word := H.load s (addrOf w + 8 * i)

/-- Cells of the object a word names. -/
def extent (s : σ) (w : Word) : Nat :=
  if Tag.fromBits w = .Cons then 2 else 1 + headerLengthCells (H.cell s w 0)

/-- The word names an object that fills a block of its kind. -/
def Fits (s : σ) (w : Word) : Option Block → Prop
  | none => False
  | some .cons => Tag.fromBits w = .Cons
  | some (.boxed n) => H.extent s w ≤ n ∧
      ((Tag.fromBits w = .Vector ∧ headerTy (H.cell s w 0) = .ok .Vector) ∨
        (Tag.fromBits w = .String ∧ headerTy (H.cell s w 0) = .ok .String))

end Heap

/-- Does the `i`-th cell of the object that `w` names hold a value?  Both cells of a pair do, and
the payload of a vector. -/
def IsField (w : Word) (i : Nat) : Prop :=
  Tag.fromBits w = .Cons ∨ (Tag.fromBits w = .Vector ∧ 1 ≤ i)

/-! ## The contract -/

section Contract

variable (H : Heap σ) (blocks : σ → Nat → Option Block)

/-- The words that the roots lead to. -/
inductive LeadsTo (s : σ) (roots : List Word) : Word → Prop
  | root {w : Word} (hw : w ∈ roots) : LeadsTo s roots w
  | field {w : Word} {i : Nat} (hw : LeadsTo s roots w) (hi : i < H.extent s w)
      (hfield : IsField w i) (hptr : Pointer (H.cell s w i)) : LeadsTo s roots (H.cell s w i)

/-- The roots lead to objects, and to each by one word. -/
structure WellRooted (s : σ) (roots : List Word) : Prop where
  fits : ∀ w, LeadsTo H s roots w → H.Fits s w (blocks s (addrOf w))
  apart : ∀ w v, LeadsTo H s roots w → LeadsTo H s roots v → addrOf w = addrOf v → w = v

/-- `ρ` gives the new word of everything the roots led to. -/
structure Relocated (s : σ) (roots : List Word) (ρ : Word → Word) (s' : σ) : Prop where
  tag : ∀ w, LeadsTo H s roots w → Tag.fromBits (ρ w) = Tag.fromBits w
  fits : ∀ w, LeadsTo H s roots w → H.Fits s' (ρ w) (blocks s' (addrOf (ρ w)))
  apart : ∀ w v, LeadsTo H s roots w → LeadsTo H s roots v → addrOf (ρ w) = addrOf (ρ v) → w = v
  pointers : ∀ w i, LeadsTo H s roots w → i < H.extent s w → IsField w i →
    Pointer (H.cell s w i) → H.cell s' (ρ w) i = ρ (H.cell s w i)
  plain : ∀ w i, LeadsTo H s roots w → i < H.extent s w →
    ¬ (IsField w i ∧ Pointer (H.cell s w i)) → H.cell s' (ρ w) i = H.cell s w i

/-- A collection that returns has relocated everything the roots led to, and rewritten the roots. -/
def Relocates (s : σ) (roots : List Word) (r : Option (List Word × σ)) : Prop :=
  WellRooted H blocks s roots → ∀ roots' s', r = some (roots', s') →
    ∃ ρ, roots' = roots.map ρ ∧ Relocated H blocks s roots ρ s'

/-- A block has been handed out; the others are as they were. -/
structure Handed (s : σ) (p : Nat) (b : Block) (s' : σ) : Prop where
  fresh : blocks s p = none
  kept : ∀ a b' i, blocks s a = some b' → i < b'.cells →
    H.load s' (a + 8 * i) = H.load s (a + 8 * i)
  blocks : blocks s' = Function.update (blocks s) p (some b)

/-- Neither cells nor blocks have changed. -/
structure Untouched (s s' : σ) : Prop where
  load : ∀ a, H.load s' a = H.load s a
  blocks : blocks s' = blocks s

end Contract

/-- What the evaluator relies on. -/
structure Contract (H : Heap σ) where
  blocks : σ → Nat → Option Block
  inside : ∀ {s a b}, blocks s a = some b → a % 8 = 0 ∧ a + 8 * b.cells ≤ 2 ^ 64
  apart : ∀ {s a a' b b'}, blocks s a = some b → blocks s a' = some b' → a < a' →
    a + 8 * b.cells ≤ a'
  load_store : ∀ s {a a'} w, a % 8 = 0 → a' % 8 = 0 →
    H.load (H.store s a w) a' = if a' = a then w else H.load s a'
  blocks_store : ∀ s a w, blocks (H.store s a w) = blocks s
  markCardAt : ∀ s a, Untouched H blocks s (H.markCardAt s a)
  setGcBudgetMinBytes : ∀ s n, Untouched H blocks s (H.setGcBudgetMinBytes s n)
  recomputeAutoTrigger : ∀ s, Untouched H blocks s (H.recomputeAutoTrigger s)
  allocCons : ∀ {s p s'}, H.tryAllocConsIn s = (some p, s') → Handed H blocks s p .cons s'
  allocBoxed : ∀ {s n p s'}, 1 ≤ n → H.tryAllocBoxedIn s n = (some p, s') →
    Handed H blocks s p (.boxed n) s'
  collect : ∀ kind s roots, Relocates H blocks s roots (H.collect kind s roots)
  pollSafepoint : ∀ s roots, Relocates H blocks s roots (H.pollSafepoint s roots)

end NewGc.Lisp
