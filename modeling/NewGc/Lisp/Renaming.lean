import NewGc.Lisp.Collector

/-!
# Renaming — two heaps that hold the same objects

A renaming relates words of two heaps.  `HeapsAlike` says that the objects it relates are the same
up to the renaming: the same tags, the same plain cells, related words in the fields.  Reads agree,
stores and allocations keep the relation, and a collection in either heap composes it with the
collector's own map.
-/

namespace NewGc.Lisp

variable {σ τ : Type} {H : Heap σ} {K : Heap τ}

/-! ## Objects under a contract -/

theorem isField_congr {w v : Word} (h : Tag.fromBits v = Tag.fromBits w) (i : Nat) :
    IsField v i ↔ IsField w i := by
  unfold IsField
  rw [h]

namespace Heap

variable {s s' : σ} {w : Word} {b : Option Block}

theorem Fits.pointer (h : H.Fits s w b) : Pointer w := by
  match b, h with
  | some .cons, h => exact Or.inl h
  | some (.boxed n), ⟨_, Or.inl ⟨h, _⟩⟩ => exact Or.inr (Or.inl h)
  | some (.boxed n), ⟨_, Or.inr ⟨h, _⟩⟩ => exact Or.inr (Or.inr h)

theorem Fits.block (h : H.Fits s w b) : ∃ b', b = some b' ∧ H.extent s w ≤ b'.cells := by
  match b, h with
  | some .cons, h =>
      have htag : Tag.fromBits w = .Cons := h
      refine ⟨.cons, rfl, ?_⟩
      unfold extent
      rw [if_pos htag]
      exact Nat.le_refl 2
  | some (.boxed n), ⟨h, _⟩ => exact ⟨.boxed n, rfl, h⟩

theorem extent_pos (s : σ) (w : Word) : 0 < H.extent s w := by
  unfold extent
  split
  · exact Nat.two_pos
  · exact Nat.add_pos_left Nat.one_pos _

/-- What the header says depends on the header alone. -/
theorem extent_congr (h : Tag.fromBits w ≠ .Cons → H.cell s' w 0 = H.cell s w 0) :
    H.extent s' w = H.extent s w := by
  unfold extent
  split
  · rfl
  · rename_i htag
    rw [h htag]

theorem Fits.renamed {v : Word} (h : H.Fits s w b) (ht : Tag.fromBits v = Tag.fromBits w)
    (hcell : Tag.fromBits w ≠ .Cons → H.cell s' v 0 = H.cell s w 0) : H.Fits s' v b := by
  match b, h with
  | some .cons, h => exact ht.trans h
  | some (.boxed n), ⟨hle, htag⟩ =>
      have hne : Tag.fromBits w ≠ .Cons := by
        rcases htag with ⟨h, -⟩ | ⟨h, -⟩ <;> simp [h]
      refine ⟨?_, ?_⟩
      · unfold extent at hle ⊢
        rw [if_neg hne] at hle
        rw [ht, if_neg hne, hcell hne]
        exact hle
      · rw [ht, hcell hne]
        exact htag

theorem Fits.congr (h : H.Fits s w b)
    (hcell : Tag.fromBits w ≠ .Cons → H.cell s' w 0 = H.cell s w 0) : H.Fits s' w b :=
  h.renamed rfl hcell

end Heap

namespace Contract

variable (C : Contract H) {s : σ} {w v : Word} {i j : Nat}

theorem cell_aligned (w : Word) (i : Nat) : (addrOf w + 8 * i) % 8 = 0 := by
  have := addrOf_aligned w
  omega

/-- Cells of two objects at one address are the same cell of the same object. -/
theorem cell_apart (hw : H.Fits s w (C.blocks s (addrOf w)))
    (hv : H.Fits s v (C.blocks s (addrOf v))) (hi : i < H.extent s w) (hj : j < H.extent s v)
    (heq : addrOf v + 8 * j = addrOf w + 8 * i) : addrOf w = addrOf v ∧ i = j := by
  obtain ⟨b, hb, hble⟩ := hw.block
  obtain ⟨b', hb', hble'⟩ := hv.block
  rcases Nat.lt_trichotomy (addrOf w) (addrOf v) with hlt | haddr | hgt
  · have := C.apart hb hb' hlt
    omega
  · omega
  · have := C.apart hb' hb hgt
    omega

/-- A store into a cell of `w` changes that cell alone. -/
theorem cell_store (hw : H.Fits s w (C.blocks s (addrOf w)))
    (hv : H.Fits s v (C.blocks s (addrOf v))) (hi : i < H.extent s w) (hj : j < H.extent s v)
    (hsame : addrOf w = addrOf v → w = v) (x : Word) :
    H.cell (H.store s (addrOf w + 8 * i) x) v j = if v = w ∧ j = i then x else H.cell s v j := by
  unfold Heap.cell
  rw [C.load_store s x (cell_aligned w i) (cell_aligned v j)]
  by_cases heq : addrOf v + 8 * j = addrOf w + 8 * i
  · obtain ⟨haddr, hij⟩ := C.cell_apart hw hv hi hj heq
    rw [if_pos heq, if_pos ⟨(hsame haddr).symm, hij.symm⟩]
  · rw [if_neg heq, if_neg]
    rintro ⟨rfl, rfl⟩
    exact heq rfl

end Contract

/-! ## The relation -/

/-- Which words of one heap stand for which words of another. -/
abbrev Renaming := Word → Word → Prop

/-- Words for the same thing: renamed ones, or equal ones that are no pointers. -/
def WordAlike (φ : Renaming) (x y : Word) : Prop := φ x y ∨ (x = y ∧ ¬ Pointer x)

/-- Values for the same thing. -/
inductive Same (φ : Renaming) : Value → Value → Prop
  | number (n : Int64) : Same φ (.number n) (.number n)
  | bool (b : Bool) : Same φ (.bool b) (.bool b)
  | nil : Same φ .nil .nil
  | symbol (name : String) : Same φ (.symbol name) (.symbol name)
  | pair {w v : Word} (h : φ w v) (ht : Tag.fromBits w = .Cons) : Same φ (.pair w) (.pair v)
  | vector {w v : Word} (h : φ w v) (ht : Tag.fromBits w = .Vector) : Same φ (.vector w) (.vector v)
  | str {w v : Word} (h : φ w v) (ht : Tag.fromBits w = .String) : Same φ (.str w) (.str v)

theorem WordAlike.mono {φ ψ : Renaming} (hle : φ ≤ ψ) {x y : Word} (h : WordAlike φ x y) :
    WordAlike ψ x y :=
  h.imp_left (hle x y)

theorem Same.mono {φ ψ : Renaming} (hle : φ ≤ ψ) {a b : Value} (h : Same φ a b) : Same ψ a b := by
  cases h with
  | number n => exact .number n
  | bool b => exact .bool b
  | nil => exact .nil
  | symbol name => exact .symbol name
  | pair h ht => exact .pair (hle _ _ h) ht
  | vector h ht => exact .vector (hle _ _ h) ht
  | str h ht => exact .str (hle _ _ h) ht

theorem Same.typeName {φ : Renaming} {a b : Value} (h : Same φ a b) : b.typeName = a.typeName := by
  cases h <;> rfl

theorem Same.isTruthy {φ : Renaming} {a b : Value} (h : Same φ a b) :
    b.isTruthy = a.isTruthy := by
  cases h <;> rfl

/-- The two heaps hold the same objects, up to the renaming. -/
structure HeapsAlike (C : Contract H) (D : Contract K) (φ : Renaming) (s : σ) (t : τ) : Prop where
  left : ∀ {w v}, φ w v → H.Fits s w (C.blocks s (addrOf w))
  right : ∀ {w v}, φ w v → K.Fits t v (D.blocks t (addrOf v))
  tag : ∀ {w v}, φ w v → Tag.fromBits v = Tag.fromBits w
  apart : ∀ {w v w' v'}, φ w v → φ w' v' → addrOf w = addrOf w' → w = w' ∧ v = v'
  apart' : ∀ {w v w' v'}, φ w v → φ w' v' → addrOf v = addrOf v' → w = w' ∧ v = v'
  fields : ∀ {w v i}, φ w v → i < H.extent s w → IsField w i →
    WordAlike φ (H.cell s w i) (K.cell t v i)
  plain : ∀ {w v i}, φ w v → i < H.extent s w → ¬ IsField w i → H.cell s w i = K.cell t v i

namespace HeapsAlike

variable {C : Contract H} {D : Contract K} {φ : Renaming} {s s' : σ} {t t' : τ} {w v : Word}
  {i : Nat}

theorem header (hA : HeapsAlike C D φ s t) (h : φ w v) (hne : Tag.fromBits w ≠ .Cons) :
    H.cell s w 0 = K.cell t v 0 := by
  refine hA.plain h (Heap.extent_pos s w) ?_
  rintro (hcons | ⟨-, hle⟩)
  · exact hne hcons
  · exact absurd hle (by decide)

theorem extent (hA : HeapsAlike C D φ s t) (h : φ w v) : K.extent t v = H.extent s w := by
  unfold Heap.extent
  rw [hA.tag h]
  split
  · rfl
  · rename_i hne
    rw [hA.header h hne]

theorem flip (hA : HeapsAlike C D φ s t) : HeapsAlike D C (fun v w => φ w v) t s where
  left := hA.right
  right := hA.left
  tag := fun h => (hA.tag h).symm
  apart := fun h h' haddr => (hA.apart' h h' haddr).symm
  apart' := fun h h' haddr => (hA.apart h h' haddr).symm
  fields := by
    intro v w i h hi hfield
    rw [hA.extent h] at hi
    rcases hA.fields h hi ((isField_congr (hA.tag h) i).1 hfield) with hw | ⟨heq, hp⟩
    · exact Or.inl hw
    · exact Or.inr ⟨heq.symm, heq ▸ hp⟩
  plain := by
    intro v w i h hi hfield
    rw [hA.extent h] at hi
    exact (hA.plain h hi fun hf => hfield ((isField_congr (hA.tag h) i).2 hf)).symm

/-- Heaps that show the same cells hold the same objects. -/
theorem untouched (hA : HeapsAlike C D φ s t) (hs : Untouched H C.blocks s s') :
    HeapsAlike C D φ s' t := by
  have hcell : ∀ w i, H.cell s' w i = H.cell s w i := fun w i => hs.load _
  have hextent : ∀ w, H.extent s' w = H.extent s w := fun w =>
    Heap.extent_congr fun _ => hcell w 0
  constructor
  · intro w v h
    rw [hs.blocks]
    exact (hA.left h).congr fun _ => hcell w 0
  · exact hA.right
  · exact hA.tag
  · exact hA.apart
  · exact hA.apart'
  · intro w v i h hi hfield
    rw [hcell]
    exact hA.fields h (hextent w ▸ hi) hfield
  · intro w v i h hi hfield
    rw [hcell]
    exact hA.plain h (hextent w ▸ hi) hfield

/-- Related words stored into the same field of related objects. -/
theorem store (hA : HeapsAlike C D φ s t) (h : φ w v) (hi : i < H.extent s w) (hfield : IsField w i)
    {x y : Word} (hxy : WordAlike φ x y) :
    HeapsAlike C D φ (H.store s (addrOf w + 8 * i) x) (K.store t (addrOf v + 8 * i) y) := by
  have hi' : i < K.extent t v := by
    rw [hA.extent h]
    exact hi
  have hfield' : IsField v i := (isField_congr (hA.tag h) i).2 hfield
  have hcell : ∀ {w' v' j}, φ w' v' → j < H.extent s w' →
      H.cell (H.store s (addrOf w + 8 * i) x) w' j =
        if w' = w ∧ j = i then x else H.cell s w' j := fun h' hj =>
    C.cell_store (hA.left h) (hA.left h') hi hj (fun haddr => (hA.apart h h' haddr).1) x
  have hcell' : ∀ {w' v' j}, φ w' v' → j < K.extent t v' →
      K.cell (K.store t (addrOf v + 8 * i) y) v' j =
        if v' = v ∧ j = i then y else K.cell t v' j := fun h' hj =>
    D.cell_store (hA.right h) (hA.right h') hi' hj (fun haddr => (hA.apart' h h' haddr).2) y
  -- a field is never the header
  have hheader : ∀ {w' v'}, φ w' v' → Tag.fromBits w' ≠ .Cons →
      H.cell (H.store s (addrOf w + 8 * i) x) w' 0 = H.cell s w' 0 := by
    intro w' v' h' hne
    rw [hcell h' (Heap.extent_pos s w'), if_neg]
    rintro ⟨rfl, rfl⟩
    rcases hfield with hcons | ⟨-, hle⟩
    · exact hne hcons
    · exact absurd hle (by decide)
  have hheader' : ∀ {w' v'}, φ w' v' → Tag.fromBits v' ≠ .Cons →
      K.cell (K.store t (addrOf v + 8 * i) y) v' 0 = K.cell t v' 0 := by
    intro w' v' h' hne
    rw [hcell' h' (Heap.extent_pos t v'), if_neg]
    rintro ⟨rfl, rfl⟩
    rcases hfield' with hcons | ⟨-, hle⟩
    · exact hne hcons
    · exact absurd hle (by decide)
  have hextent : ∀ {w' v'}, φ w' v' →
      H.extent (H.store s (addrOf w + 8 * i) x) w' = H.extent s w' := fun h' =>
    Heap.extent_congr (hheader h')
  constructor
  · intro w' v' h'
    rw [C.blocks_store]
    exact (hA.left h').congr (hheader h')
  · intro w' v' h'
    rw [D.blocks_store]
    exact (hA.right h').congr (hheader' h')
  · exact hA.tag
  · exact hA.apart
  · exact hA.apart'
  · intro w' v' j h' hj hf
    rw [hextent h'] at hj
    rw [hcell h' hj, hcell' h' (by rwa [hA.extent h'])]
    by_cases hhit : w' = w ∧ j = i
    · have hv : v' = v := (hA.apart h' h (congrArg addrOf hhit.1)).2
      rw [if_pos hhit, if_pos ⟨hv, hhit.2⟩]
      exact hxy
    · rw [if_neg hhit, if_neg]
      · exact hA.fields h' hj hf
      · rintro ⟨hv, hji⟩
        exact hhit ⟨(hA.apart' h' h (congrArg addrOf hv)).1, hji⟩
  · intro w' v' j h' hj hf
    rw [hextent h'] at hj
    rw [hcell h' hj, hcell' h' (by rwa [hA.extent h'])]
    have hmiss : ¬ (w' = w ∧ j = i) := by
      rintro ⟨rfl, rfl⟩
      exact hf hfield
    have hmiss' : ¬ (v' = v ∧ j = i) := by
      rintro ⟨hv, hji⟩
      exact hmiss ⟨(hA.apart' h' h (congrArg addrOf hv)).1, hji⟩
    rw [if_neg hmiss, if_neg hmiss']
    exact hA.plain h' hj hf

end HeapsAlike

/-! ## Values and words -/

theorem not_pointer_fixnum (n : Int64) : ¬ Pointer (fixnumOf n) :=
  not_pointer (fromBits_fixnumOf n) (by decide) (by decide) (by decide)

theorem not_pointer_nil : ¬ Pointer LispLayout.nil := by
  have ht : Tag.fromBits LispLayout.nil = .Immediate := by decide
  exact not_pointer ht (by decide) (by decide) (by decide)

theorem not_pointer_true : ¬ Pointer trueWord := by
  have ht : Tag.fromBits trueWord = .Immediate := by decide
  exact not_pointer ht (by decide) (by decide) (by decide)

/-- The words of the same values are alike. -/
theorem Same.word {φ : Renaming} {a b : Value} (h : Same φ a b) :
    Option.Rel (WordAlike φ) (valueToWord a) (valueToWord b) := by
  cases h with
  | number n => exact .some (Or.inr ⟨rfl, not_pointer_fixnum n⟩)
  | bool b =>
      cases b with
      | true => exact .some (Or.inr ⟨rfl, not_pointer_true⟩)
      | false => exact .some (Or.inr ⟨rfl, not_pointer_nil⟩)
  | nil => exact .some (Or.inr ⟨rfl, not_pointer_nil⟩)
  | symbol name => exact .none
  | pair h _ => exact .some (Or.inl h)
  | vector h _ => exact .some (Or.inl h)
  | str h _ => exact .some (Or.inl h)

namespace HeapsAlike

variable {C : Contract H} {D : Contract K} {φ : Renaming} {s s' : σ} {t t' : τ} {w v : Word}
  {i : Nat}

/-- Words that are alike hold the same value. -/
theorem value (hA : HeapsAlike C D φ s t) {x y : Word} (h : WordAlike φ x y) :
    Option.Rel (Same φ) (wordToValue x) (wordToValue y) := by
  unfold wordToValue
  rcases h with h | ⟨rfl, hp⟩
  · rw [hA.tag h]
    rcases (hA.left h).pointer with ht | ht | ht
    · rw [ht]
      exact .some (.pair h ht)
    · rw [ht]
      exact .some (.vector h ht)
    · rw [ht]
      exact .some (.str h ht)
  · cases ht : Tag.fromBits x with
    | Fixnum => exact .some (.number _)
    | Cons => exact absurd (Or.inl ht) hp
    | Vector => exact absurd (Or.inr (Or.inl ht)) hp
    | String => exact absurd (Or.inr (Or.inr ht)) hp
    | Symbol => exact .some .nil
    | Function => exact .some .nil
    | Immediate =>
        dsimp only
        split
        · exact .some (.bool true)
        · exact .some .nil
    | Forward => exact .none

/-! ## Reads -/

theorem pairField (hA : HeapsAlike C D φ s t) (h : φ w v) (ht : Tag.fromBits w = .Cons)
    (hi : i < 2) : Option.Rel (Same φ) (wordToValue (H.cell s w i)) (wordToValue (K.cell t v i)) := by
  refine hA.value (hA.fields h ?_ (Or.inl ht))
  unfold Heap.extent
  rw [if_pos ht]
  exact hi

theorem pairCar (hA : HeapsAlike C D φ s t) (h : φ w v) (ht : Tag.fromBits w = .Cons) :
    Option.Rel (Same φ) (H.pairCar s w) (K.pairCar t v) :=
  hA.pairField h ht Nat.two_pos

theorem pairCdr (hA : HeapsAlike C D φ s t) (h : φ w v) (ht : Tag.fromBits w = .Cons) :
    Option.Rel (Same φ) (H.pairCdr s w) (K.pairCdr t v) :=
  hA.pairField h ht Nat.one_lt_two

theorem vectorLen (hA : HeapsAlike C D φ s t) (h : φ w v) (hne : Tag.fromBits w ≠ .Cons) :
    K.vectorLen t v = H.vectorLen s w :=
  congrArg headerLengthCells (hA.header h hne).symm

theorem extent_eq (hne : Tag.fromBits w ≠ .Cons) : H.extent s w = 1 + H.vectorLen s w := by
  unfold Heap.extent
  rw [if_neg hne]
  rfl

theorem vectorRef (hA : HeapsAlike C D φ s t) (h : φ w v) (ht : Tag.fromBits w = .Vector)
    (idx : Nat) : Option.Rel (Same φ) (H.vectorRef s w idx) (K.vectorRef t v idx) := by
  have hne : Tag.fromBits w ≠ .Cons := by simp [ht]
  unfold Heap.vectorRef
  rw [hA.vectorLen h hne]
  split
  · exact .none
  · rename_i hlt
    refine hA.value (hA.fields h ?_ (Or.inr ⟨ht, Nat.le_add_right 1 idx⟩))
    rw [extent_eq hne]
    exact Nat.add_lt_add_left (Nat.lt_of_not_le hlt) 1

theorem stringBytes (hA : HeapsAlike C D φ s t) (h : φ w v) (ht : Tag.fromBits w = .String) :
    K.stringBytes t v = H.stringBytes s w := by
  have hne : Tag.fromBits w ≠ .Cons := by simp [ht]
  have hfield : ∀ i, ¬ IsField w i := by
    rintro i (hcons | ⟨hvector, -⟩)
    · exact hne hcons
    · simp [ht] at hvector
  have hlen : headerLengthCells (K.load t (addrOf v)) = headerLengthCells (H.load s (addrOf w)) :=
    hA.vectorLen h hne
  have hbytes : (List.range (headerLengthCells (H.load s (addrOf w)))).flatMap
        (fun i => Heap.unpackWord (K.load t (addrOf v + 8 * (1 + i)))) =
      (List.range (headerLengthCells (H.load s (addrOf w)))).flatMap
        (fun i => Heap.unpackWord (H.load s (addrOf w + 8 * (1 + i)))) := by
    refine List.flatMap_congr fun i hi => ?_
    have hlt : 1 + i < H.extent s w := by
      rw [extent_eq hne]
      exact Nat.add_lt_add_left (List.mem_range.1 hi) 1
    exact congrArg Heap.unpackWord (hA.plain h hlt (hfield _)).symm
  unfold Heap.stringBytes
  rw [hlen]
  dsimp only
  rw [hbytes]

theorem listLength_pair (H : Heap σ) (s : σ) (fuel : Nat) (p : Word) :
    H.listLength s (fuel + 1) (.pair p) = (H.pairCdr s p).bind fun rest =>
      (H.listLength s fuel rest).bind fun n => some (n.map (· + 1)) := by
  show (do
    let rest ← H.pairCdr s p
    let n ← H.listLength s fuel rest
    return n.map (· + 1)) = _
  rfl

/-- The walk along a list, by induction on its fuel. -/
theorem listLength (hA : HeapsAlike C D φ s t) (fuel : Nat) {a b : Value} (h : Same φ a b) :
    K.listLength t fuel b = H.listLength s fuel a := by
  induction fuel generalizing a b with
  | zero => rfl
  | succ fuel ih =>
      cases h with
      | number n => rfl
      | bool b => rfl
      | nil => rfl
      | symbol name => rfl
      | vector h _ => rfl
      | str h _ => rfl
      | pair h ht =>
          rw [listLength_pair, listLength_pair]
          have hrest := hA.pairCdr h ht
          revert hrest
          generalize H.pairCdr s _ = x, K.pairCdr t _ = y
          intro hrest
          cases hrest with
          | none => rw [Option.bind_none, Option.bind_none]
          | some hrest => rw [Option.bind_some, Option.bind_some, ih hrest]

/-! ## Equality -/

theorem words_eq (hA : HeapsAlike C D φ s t) {w v w' v' : Word} (h : φ w v) (h' : φ w' v') :
    (v == v') = (w == w') := by
  rw [Bool.eq_iff_iff, beq_iff_eq, beq_iff_eq]
  constructor
  · rintro rfl
    exact (hA.apart' h h' rfl).1
  · rintro rfl
    exact (hA.apart h h' rfl).2

theorem valueEq (hA : HeapsAlike C D φ s t) {a b a' b' : Value} (ha : Same φ a b)
    (ha' : Same φ a' b') : valueEq b b' = valueEq a a' := by
  cases ha <;> cases ha' <;> first | rfl | exact hA.words_eq ‹_› ‹_›

theorem checkEq (hA : HeapsAlike C D φ s t) {a b a' b' : Value} (ha : Same φ a b)
    (ha' : Same φ a' b') : checkEq K t b b' = checkEq H s a a' := by
  cases ha with
  | str h ht =>
      cases ha' with
      | str h' ht' =>
          exact congrArg₂ (· == ·) (hA.stringBytes h ht) (hA.stringBytes h' ht')
      | number n => rfl
      | bool b => rfl
      | nil => rfl
      | symbol name => rfl
      | pair h' _ => rfl
      | vector h' _ => rfl
  | number n => exact hA.valueEq (.number n) ha'
  | bool b => exact hA.valueEq (.bool b) ha'
  | nil => exact hA.valueEq .nil ha'
  | symbol name => exact hA.valueEq (.symbol name) ha'
  | pair h ht => exact hA.valueEq (.pair h ht) ha'
  | vector h ht => exact hA.valueEq (.vector h ht) ha'

end HeapsAlike

/-! ## Allocation -/

/-- What `storeAll` does. -/
structure Stored (C : Contract H) (p : Nat) (ws : List Word) (s s' : σ) : Prop where
  blocks : C.blocks s' = C.blocks s
  cells : ∀ {i x}, ws[i]? = some x → H.load s' (p + 8 * i) = x
  kept : ∀ {a}, a % 8 = 0 → a < p ∨ p + 8 * ws.length ≤ a → H.load s' a = H.load s a

theorem Contract.storeAll (C : Contract H) : ∀ (ws : List Word) (p : Nat) (s : σ), p % 8 = 0 →
    Stored C p ws s (H.storeAll p ws s)
  | [], p, s, _ => ⟨rfl, fun hi => by simp at hi, fun _ _ => rfl⟩
  | w :: ws, p, s, hp => by
      have ih := C.storeAll ws (p + 8) (H.store s p w) (by omega)
      have hfirst : H.load (H.store s p w) p = w := by
        rw [C.load_store s w hp hp, if_pos rfl]
      refine ⟨ih.blocks.trans (C.blocks_store s p w), ?_, ?_⟩
      · intro i x hi
        cases i with
        | zero =>
            rw [List.getElem?_cons_zero, Option.some.injEq] at hi
            have hkept : H.load (H.storeAll (p + 8) ws (H.store s p w)) p =
                H.load (H.store s p w) p := ih.kept hp (Or.inl (by omega))
            exact hkept.trans (hfirst.trans hi)
        | succ i =>
            rw [List.getElem?_cons_succ] at hi
            rw [← ih.cells hi]
            exact congrArg (H.load _) (by omega)
      · intro a ha hout
        rw [List.length_cons] at hout
        have hrest : H.load (H.storeAll (p + 8) ws (H.store s p w)) a =
            H.load (H.store s p w) a := ih.kept ha (by omega)
        have hne : a ≠ p := by omega
        exact hrest.trans (by rw [C.load_store s w hp ha, if_neg hne])

/-- A block has been handed out and filled. -/
structure Filled (C : Contract H) (s : σ) (p : Nat) (b : Block) (ws : List Word) (s' : σ) :
    Prop where
  aligned : p % 8 = 0
  below : p < 2 ^ 64
  block : C.blocks s' p = some b
  others : ∀ {a b'}, C.blocks s a = some b' → a ≠ p ∧ C.blocks s' a = some b'
  cells : ∀ {i x}, ws[i]? = some x → H.load s' (p + 8 * i) = x
  kept : ∀ {u i}, H.Fits s u (C.blocks s (addrOf u)) → i < H.extent s u →
    H.cell s' u i = H.cell s u i

theorem Contract.filled (C : Contract H) {s s₁ : σ} {p : Nat} {b : Block}
    (hs : Handed H C.blocks s p b s₁) (ws : List Word) (hpos : 1 ≤ b.cells) (hws : ws.length = b.cells) :
    Filled C s p b ws (H.storeAll p ws s₁) := by
  have hblock : C.blocks s₁ p = some b := by
    rw [hs.blocks, Function.update_self]
  obtain ⟨haligned, hend⟩ := C.inside hblock
  have hstored := C.storeAll ws p s₁ haligned
  have hothers : ∀ {a b'}, C.blocks s a = some b' → a ≠ p ∧ C.blocks s₁ a = some b' := by
    intro a b' ha
    have hne : a ≠ p := by
      rintro rfl
      rw [hs.fresh] at ha
      cases ha
    refine ⟨hne, ?_⟩
    rw [hs.blocks, Function.update_of_ne hne]
    exact ha
  refine ⟨haligned, by omega, ?_, ?_, hstored.cells, ?_⟩
  · rw [hstored.blocks]
    exact hblock
  · intro a b' ha
    rw [hstored.blocks]
    exact hothers ha
  · intro u i hu hi
    obtain ⟨b', hb', hle⟩ := hu.block
    obtain ⟨hne, hb₁⟩ := hothers hb'
    have hkept : H.load s₁ (addrOf u + 8 * i) = H.load s (addrOf u + 8 * i) :=
      hs.kept _ b' i hb' (Nat.lt_of_lt_of_le hi hle)
    refine (hstored.kept (Contract.cell_aligned u i) ?_).trans hkept
    -- the new block lies apart from the object
    rcases Nat.lt_or_gt_of_ne hne with hlt | hgt
    · have := C.apart hb₁ hblock hlt
      omega
    · have := C.apart hblock hb₁ hgt
      omega

/-- The renaming with one more pair. -/
def Renaming.extend (φ : Renaming) (w v : Word) : Renaming :=
  fun x y => φ x y ∨ (x = w ∧ y = v)

theorem Renaming.le_extend (φ : Renaming) (w v : Word) : φ ≤ φ.extend w v := fun _ _ h => Or.inl h

/-- The first cells of a block make an object of the tag. -/
def Heads (tag : Tag) (first : Word) : Block → Prop
  | .cons => tag = .Cons
  | .boxed n => 1 + headerLengthCells first ≤ n ∧
      ((tag = .Vector ∧ headerTy first = .ok .Vector) ∨
        (tag = .String ∧ headerTy first = .ok .String))

theorem Filled.fits {C : Contract H} {s s' : σ} {p : Nat} {b : Block} {w : Word} {ws : List Word}
    (hF : Filled C s p b (w :: ws) s') {tag : Tag} (hheads : Heads tag w b) :
    H.Fits s' (fromPtr p tag) (C.blocks s' (addrOf (fromPtr p tag))) := by
  have htag := fromBits_fromPtr hF.aligned tag
  have hcell : H.cell s' (fromPtr p tag) 0 = w := by
    unfold Heap.cell
    rw [addrOf_fromPtr hF.aligned tag hF.below]
    exact hF.cells rfl
  rw [addrOf_fromPtr hF.aligned tag hF.below, hF.block]
  cases b with
  | cons => exact htag.trans hheads
  | boxed n =>
      obtain ⟨hle, hty⟩ := hheads
      have hne : Tag.fromBits (fromPtr p tag) ≠ .Cons := by
        rw [htag]
        rcases hty with ⟨rfl, -⟩ | ⟨rfl, -⟩ <;> decide
      refine ⟨?_, ?_⟩
      · unfold Heap.extent
        rw [if_neg hne, hcell]
        exact hle
      · rw [htag, hcell]
        exact hty

theorem Filled.old {C : Contract H} {s s' : σ} {p : Nat} {b : Block} {ws : List Word}
    (hF : Filled C s p b ws s') {u : Word} (hu : H.Fits s u (C.blocks s (addrOf u))) :
    H.Fits s' u (C.blocks s' (addrOf u)) ∧ H.extent s' u = H.extent s u ∧ addrOf u ≠ p := by
  have hcell : Tag.fromBits u ≠ .Cons → H.cell s' u 0 = H.cell s u 0 := fun _ =>
    hF.kept hu (Heap.extent_pos s u)
  obtain ⟨b', hb', -⟩ := hu.block
  obtain ⟨hne, hblock⟩ := hF.others hb'
  refine ⟨?_, Heap.extent_congr hcell, hne⟩
  rw [hblock, ← hb']
  exact hu.congr hcell

/-- Two blocks filled alike are two more objects that are the same. -/
theorem HeapsAlike.filled {C : Contract H} {D : Contract K} {φ : Renaming} {s s' : σ} {t t' : τ}
    {p q : Nat} {b : Block} {x y : Word} {ws us : List Word} (tag : Tag)
    (hA : HeapsAlike C D φ s t) (hs : Filled C s p b (x :: ws) s')
    (ht : Filled D t q b (y :: us) t') (hheads : Heads tag x b) (hheads' : Heads tag y b)
    (hlen : (x :: ws).length = b.cells) (hlen' : (y :: us).length = b.cells)
    (hfields : ∀ i x' y', IsField (fromPtr p tag) i → (x :: ws)[i]? = some x' →
      (y :: us)[i]? = some y' → WordAlike φ x' y')
    (hplain : ∀ i x' y', ¬ IsField (fromPtr p tag) i → (x :: ws)[i]? = some x' →
      (y :: us)[i]? = some y' → x' = y') :
    HeapsAlike C D (φ.extend (fromPtr p tag) (fromPtr q tag)) s' t' := by
  have haddr := addrOf_fromPtr hs.aligned tag hs.below
  have haddr' := addrOf_fromPtr ht.aligned tag ht.below
  -- a cell of the new objects
  have hnew : ∀ i, i < H.extent s' (fromPtr p tag) → ∃ x' y', (x :: ws)[i]? = some x' ∧
      (y :: us)[i]? = some y' ∧ H.cell s' (fromPtr p tag) i = x' ∧
        K.cell t' (fromPtr q tag) i = y' := by
    intro i hi
    obtain ⟨b', hb', hle⟩ := (hs.fits hheads).block
    rw [haddr, hs.block, Option.some.injEq] at hb'
    have hi' : i < b.cells := Nat.lt_of_lt_of_le hi (hb' ▸ hle)
    have hx : i < (x :: ws).length := by
      rw [hlen]
      exact hi'
    have hy : i < (y :: us).length := by
      rw [hlen']
      exact hi'
    refine ⟨(x :: ws)[i], (y :: us)[i], List.getElem?_eq_getElem hx, List.getElem?_eq_getElem hy,
      ?_, ?_⟩
    · unfold Heap.cell
      rw [haddr]
      exact hs.cells (List.getElem?_eq_getElem hx)
    · unfold Heap.cell
      rw [haddr']
      exact ht.cells (List.getElem?_eq_getElem hy)
  constructor
  · rintro w v (h | ⟨rfl, -⟩)
    · exact (hs.old (hA.left h)).1
    · exact hs.fits hheads
  · rintro w v (h | ⟨-, rfl⟩)
    · exact (ht.old (hA.right h)).1
    · exact ht.fits hheads'
  · rintro w v (h | ⟨rfl, rfl⟩)
    · exact hA.tag h
    · rw [fromBits_fromPtr hs.aligned, fromBits_fromPtr ht.aligned]
  · rintro w v w' v' (h | ⟨rfl, rfl⟩) (h' | ⟨rfl, rfl⟩) heq
    · exact hA.apart h h' heq
    · exact absurd (heq.trans haddr) (hs.old (hA.left h)).2.2
    · exact absurd (heq.symm.trans haddr) (hs.old (hA.left h')).2.2
    · exact ⟨rfl, rfl⟩
  · rintro w v w' v' (h | ⟨rfl, rfl⟩) (h' | ⟨rfl, rfl⟩) heq
    · exact hA.apart' h h' heq
    · exact absurd (heq.trans haddr') (ht.old (hA.right h)).2.2
    · exact absurd (heq.symm.trans haddr') (ht.old (hA.right h')).2.2
    · exact ⟨rfl, rfl⟩
  · rintro w v i (h | ⟨rfl, rfl⟩) hi hfield
    · rw [(hs.old (hA.left h)).2.1] at hi
      rw [hs.kept (hA.left h) hi, ht.kept (hA.right h) (by rwa [hA.extent h])]
      exact (hA.fields h hi hfield).mono (φ.le_extend _ _)
    · obtain ⟨x', y', hx', hy', hcell, hcell'⟩ := hnew i hi
      rw [hcell, hcell']
      exact (hfields i x' y' hfield hx' hy').mono (φ.le_extend _ _)
  · rintro w v i (h | ⟨rfl, rfl⟩) hi hfield
    · rw [(hs.old (hA.left h)).2.1] at hi
      rw [hs.kept (hA.left h) hi, ht.kept (hA.right h) (by rwa [hA.extent h])]
      exact hA.plain h hi hfield
    · obtain ⟨x', y', hx', hy', hcell, hcell'⟩ := hnew i hi
      rw [hcell, hcell']
      exact hplain i x' y' hfield hx' hy'

/-! ## Collections -/

/-- The renaming after the collector has moved what the roots led to. -/
def Renaming.moved (φ : Renaming) (H : Heap σ) (s : σ) (roots : List Word) (ρ : Word → Word) :
    Renaming :=
  fun x v => ∃ w, LeadsTo H s roots w ∧ φ w v ∧ ρ w = x

section Collections

variable {C : Contract H} {D : Contract K} {φ : Renaming} {s s' : σ} {t : τ} {roots : List Word}
  {ρ : Word → Word}

/-- What renamed roots lead to is renamed. -/
theorem HeapsAlike.leadsTo (hA : HeapsAlike C D φ s t) (hroots : ∀ w ∈ roots, ∃ v, φ w v) {w : Word}
    (hw : LeadsTo H s roots w) : ∃ v, φ w v := by
  induction hw with
  | root hw => exact hroots _ hw
  | field _ hi hfield hptr ih =>
      obtain ⟨v, h⟩ := ih
      rcases hA.fields h hi hfield with h' | ⟨-, hp⟩
      · exact ⟨_, h'⟩
      · exact absurd hptr hp

theorem HeapsAlike.wellRooted (hA : HeapsAlike C D φ s t) (hroots : ∀ w ∈ roots, ∃ v, φ w v) :
    WellRooted H C.blocks s roots where
  fits := fun w hw => by
    obtain ⟨v, h⟩ := hA.leadsTo hroots hw
    exact hA.left h
  apart := fun w w' hw hw' heq => by
    obtain ⟨v, h⟩ := hA.leadsTo hroots hw
    obtain ⟨v', h'⟩ := hA.leadsTo hroots hw'
    exact (hA.apart h h' heq).1

/-- A collection in the left heap: the objects the roots led to are the same as before. -/
theorem HeapsAlike.relocated (hA : HeapsAlike C D φ s t)
    (hs : Relocated H C.blocks s roots ρ s') : HeapsAlike C D (φ.moved H s roots ρ) s' t := by
  have hextent : ∀ {w}, LeadsTo H s roots w → H.extent s' (ρ w) = H.extent s w := by
    intro w hw
    unfold Heap.extent
    rw [hs.tag w hw]
    split
    · rfl
    · rename_i hne
      rw [hs.plain w 0 hw (Heap.extent_pos s w)]
      rintro ⟨hcons | ⟨-, hle⟩, -⟩
      · exact hne hcons
      · exact absurd hle (by decide)
  constructor
  · rintro x v ⟨w, hw, h, rfl⟩
    exact hs.fits w hw
  · rintro x v ⟨w, hw, h, rfl⟩
    exact hA.right h
  · rintro x v ⟨w, hw, h, rfl⟩
    exact (hA.tag h).trans (hs.tag w hw).symm
  · rintro x v x' v' ⟨w, hw, h, rfl⟩ ⟨w', hw', h', rfl⟩ heq
    obtain rfl := hs.apart w w' hw hw' heq
    exact ⟨rfl, (hA.apart h h' rfl).2⟩
  · rintro x v x' v' ⟨w, hw, h, rfl⟩ ⟨w', hw', h', rfl⟩ heq
    obtain ⟨rfl, rfl⟩ := hA.apart' h h' heq
    exact ⟨rfl, rfl⟩
  · rintro x v i ⟨w, hw, h, rfl⟩ hi hfield
    rw [hextent hw] at hi
    have hfield' : IsField w i := (isField_congr (hs.tag w hw) i).1 hfield
    rcases hA.fields h hi hfield' with hcell | ⟨heq, hp⟩
    · have hptr : Pointer (H.cell s w i) := (hA.left hcell).pointer
      rw [hs.pointers w i hw hi hfield' hptr]
      exact Or.inl ⟨_, .field hw hi hfield' hptr, hcell, rfl⟩
    · rw [hs.plain w i hw hi fun hptr => hp hptr.2]
      exact Or.inr ⟨heq, hp⟩
  · rintro x v i ⟨w, hw, h, rfl⟩ hi hfield
    rw [hextent hw] at hi
    have hfield' : ¬ IsField w i := fun hf => hfield ((isField_congr (hs.tag w hw) i).2 hf)
    rw [hs.plain w i hw hi fun hptr => hfield' hptr.1]
    exact hA.plain h hi hfield'

end Collections

end NewGc.Lisp
