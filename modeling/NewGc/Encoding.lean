import NewGc.Layout

/-!
# Encoding — what the two layouts encode

Words: a marker and a pointer give back the address they were made from, and replacing the address
of a pointer keeps its tag.  Headers: the length a header was built with comes back whatever the
collector's own bits say, and the pointer range lies inside the object once the object has room for
the fixed fields of its type.
-/

namespace NewGc

/-! ## Words -/

/-- The laws a word encoding with the tag bits `tagMask` obeys at aligned addresses. -/
structure EncodingLaws (L : HeapLayout) (tagMask : Word) : Prop where
  forward : ∀ a, a < 2 ^ 64 → a % 8 = 0 → L.classify (L.makeForward a) = .forwarded a
  pointer : ∀ a k, a < 2 ^ 64 → a % 8 = 0 → (L.classify (L.makePointer a k)).pointer? = some (a, k)
  rewrite : ∀ w a, a < 2 ^ 64 → a % 8 = 0 → (L.classify w).pointer?.isSome →
    L.classify (L.rewritePointerAddr w a) = (L.classify w).withAddr a ∧
      L.rewritePointerAddr w a &&& tagMask = w &&& tagMask
  rewriteTwice : ∀ w a b, a < 2 ^ 64 → a % 8 = 0 → b < 2 ^ 64 → b % 8 = 0 →
    (L.classify w).pointer?.isSome →
      L.rewritePointerAddr (L.rewritePointerAddr w a) b = L.rewritePointerAddr w b

theorem LispLayout.makePointer_eq (a : Nat) (k : PointerKind) :
    LispLayout.makePointer a k =
      LispLayout.rewritePointerAddr (match k with | .cons => 1#64 | .header => 3#64) a := by
  cases k <;> rfl

theorem TinyLayout.makePointer_eq (a : Nat) (k : PointerKind) :
    TinyLayout.makePointer a k =
      TinyLayout.rewritePointerAddr (match k with | .cons => 1#64 | .header => 2#64) a := by
  cases k <;> rfl

theorem LispLayout.encodingLaws : EncodingLaws lispLayout LispLayout.tagMask where
  forward := lispLayout.classify_makeForward
  pointer := by
    intro a k hlt ha
    show (LispLayout.classify (LispLayout.makePointer a k)).pointer? = _
    rw [makePointer_eq, classify_rewrite hlt ha]
    cases k <;> rfl
  rewrite := fun w a hlt ha _ => ⟨classify_rewrite hlt ha w, rewrite_tag ha w⟩
  rewriteTwice := by
    intro w a b _ ha _ _ _
    show BitVec.ofNat 64 b ||| (rewritePointerAddr w a &&& tagMask) = _
    rw [rewrite_tag ha]
    rfl

theorem TinyLayout.encodingLaws : EncodingLaws tinyLayout TinyLayout.tagMask where
  forward := tinyLayout.classify_makeForward
  pointer := by
    intro a k hlt ha
    show (TinyLayout.classify (TinyLayout.makePointer a k)).pointer? = _
    rw [makePointer_eq, classify_rewrite hlt ha]
    cases k <;> rfl
  rewrite := fun w a hlt ha _ => ⟨classify_rewrite hlt ha w, rewrite_tag ha w⟩
  rewriteTwice := by
    intro w a b _ ha _ _ _
    show BitVec.ofNat 64 b ||| (rewritePointerAddr w a &&& tagMask) = _
    rw [rewrite_tag ha]
    rfl

/-- Both layouts obey the laws, each with its own tag bits. -/
theorem layouts_encode :
    EncodingLaws lispLayout LispLayout.tagMask ∧ EncodingLaws tinyLayout TinyLayout.tagMask :=
  ⟨LispLayout.encodingLaws, TinyLayout.encodingLaws⟩

/-! ## Headers -/

/-- `HeapHeader::set_gc_bit` for any set of the eight bits above the length. -/
def withGcBits (header : Word) (gcBits : BitVec 8) : Word :=
  header ||| (gcBits.setWidth 64 <<< 29)

/-- `tiny_header`; the count is a `u32`. -/
def tinyHeader (payloadCells : Nat) : Word := BitVec.ofNat 64 (payloadCells % 2 ^ 32)

/-- The header decodes to an object of a header cell and `length` payload cells whose pointer range
is empty or lies in the payload. -/
def LayoutInside (L : HeapLayout) (header : Word) (length : Nat) : Prop :=
  ∃ layout, L.headerLayout header = .ok layout ∧ layout.totalCells = 1 + length ∧
    (layout.pointerCellsEnd ≤ layout.pointerCellsStart ∨
      (1 ≤ layout.pointerCellsStart ∧ layout.pointerCellsStart ≤ layout.pointerCellsEnd ∧
        layout.pointerCellsEnd ≤ layout.totalCells))

/-- Payload cells the fixed fields of a type take: the scanned range of a function ends at offset 4,
that of a bignum too, that of a float at offset 1. -/
def HeapType.fixedCells : HeapType → Nat
  | .Function | .Bignum => 4
  | .Float => 1
  | _ => 0

theorem HeapType.toBits_lt (ty : HeapType) : ty.toBits < 2 ^ 5 := by
  cases ty <;> decide

theorem HeapType.fromBits_toBits (ty : HeapType) : HeapType.fromBits ty.toBits = some ty := by
  cases ty <;> rfl

theorem testBit_high {n k i : Nat} (hn : n < 2 ^ k) (hi : k ≤ i) : n.testBit i = false :=
  Nat.testBit_lt_two_pow (Nat.lt_of_lt_of_le hn (Nat.pow_le_pow_right (by decide) hi))

/-- The bits of a header: type, length, collector bits. -/
theorem withGcBits_getLsbD (ty : HeapType) (length : Nat) (gcBits : BitVec 8) {i : Nat}
    (hi : i < 64) : (withGcBits (heapHeader ty length) gcBits).getLsbD i =
      (ty.toBits.testBit i || (!decide (i < 5) && (length % 2 ^ 24).testBit (i - 5)) ||
        (!decide (i < 29) && gcBits.getLsbD (i - 29))) := by
  unfold withGcBits heapHeader
  simp only [BitVec.getLsbD_or, BitVec.getLsbD_shiftLeft, BitVec.getLsbD_ofNat,
    BitVec.getLsbD_setWidth, hi, decide_true, Bool.true_and]
  rw [decide_eq_true (show i - 5 < 64 by omega), decide_eq_true (show i - 29 < 64 by omega),
    Bool.true_and, Bool.true_and]

/-- The type comes back. -/
theorem headerTy_withGcBits (ty : HeapType) (length : Nat) (gcBits : BitVec 8) :
    headerTy (withGcBits (heapHeader ty length) gcBits) = .ok ty := by
  have hbits : (withGcBits (heapHeader ty length) gcBits &&& 0x1F#64).toNat = ty.toBits := by
    apply Nat.eq_of_testBit_eq
    intro i
    rw [BitVec.testBit_toNat, BitVec.getLsbD_and, BitVec.getLsbD_ofNat,
      show (0x1F : Nat) = 2 ^ 5 - 1 from rfl, Nat.testBit_two_pow_sub_one]
    by_cases hi : i < 5
    · rw [withGcBits_getLsbD ty length gcBits (by omega)]
      simp [hi, show i < 29 by omega, show i < 64 by omega]
    · simp [hi, testBit_high ty.toBits_lt (Nat.le_of_not_lt hi)]
  unfold headerTy
  rw [hbits, ty.fromBits_toBits]

/-- The length comes back, up to the cap on object lengths. -/
theorem headerLengthCells_withGcBits (ty : HeapType) {length : Nat} (hle : length ≤ maxObjectCells)
    (gcBits : BitVec 8) : headerLengthCells (withGcBits (heapHeader ty length) gcBits) = length := by
  have hlt : length < 2 ^ 24 := Nat.lt_of_le_of_lt hle (by decide)
  unfold headerLengthCells
  apply Nat.eq_of_testBit_eq
  intro i
  rw [BitVec.testBit_toNat, BitVec.getLsbD_and, BitVec.getLsbD_ushiftRight, BitVec.getLsbD_ofNat,
    show (0xFFFFFF : Nat) = 2 ^ 24 - 1 from rfl, Nat.testBit_two_pow_sub_one]
  by_cases hi : i < 24
  · rw [withGcBits_getLsbD ty length gcBits (by omega), Nat.mod_eq_of_lt hlt]
    simp [hi, testBit_high ty.toBits_lt (show 5 ≤ 5 + i by omega), show 5 + i < 29 by omega,
      show i < 64 by omega]
  · simp [hi, testBit_high hlt (Nat.le_of_not_lt hi)]

/-- What a header decodes to. -/
theorem headerLayout_withGcBits (ty : HeapType) {length : Nat} (hle : length ≤ maxObjectCells)
    (gcBits : BitVec 8) : lispLayout.headerLayout (withGcBits (heapHeader ty length) gcBits) =
      .ok (match ty.wordFieldRange length with
        | some (first, last) =>
            { totalCells := 1 + length, pointerCellsStart := first, pointerCellsEnd := last + 1 }
        | none => ObjectLayout.opaqueCells (1 + length)) := by
  show LispLayout.headerLayout _ = _
  unfold LispLayout.headerLayout
  rw [headerLengthCells_withGcBits ty hle, headerTy_withGcBits]
  show (match ty.wordFieldRange length with
    | some (first, last) => Except.ok _
    | none => Except.ok _) = _
  cases ty.wordFieldRange length <;> rfl

theorem tinyHeader_inside {length : Nat} (hle : length ≤ maxObjectCells) :
    LayoutInside tinyLayout (tinyHeader length) length := by
  have hlt : length < 2 ^ 24 := Nat.lt_of_le_of_lt hle (by decide)
  have hcount : (tinyHeader length).toNat = length := by
    unfold tinyHeader
    rw [BitVec.toNat_ofNat]
    omega
  refine ⟨_, rfl, ?_, Or.inr ?_⟩
  · show 1 + (tinyHeader length).toNat = 1 + length
    rw [hcount]
  · show 1 ≤ 1 ∧ 1 ≤ 1 + (tinyHeader length).toNat ∧ _ ≤ 1 + (tinyHeader length).toNat
    exact ⟨Nat.le_refl 1, Nat.le_add_right 1 _, Nat.le_refl _⟩

/-- The pointer range of a typed header lies inside the object exactly when the payload has room for
the fixed fields of the type; the second layout's always does. -/
theorem header_layouts_inside (ty : HeapType) (length : Nat) (gcBits : BitVec 8)
    (hle : length ≤ maxObjectCells) :
    (LayoutInside lispLayout (withGcBits (heapHeader ty length) gcBits) length ↔
      ty.fixedCells ≤ length) ∧ LayoutInside tinyLayout (tinyHeader length) length := by
  refine ⟨?_, tinyHeader_inside hle⟩
  unfold LayoutInside
  rw [headerLayout_withGcBits ty hle gcBits]
  simp only [Except.ok.injEq, exists_eq_left']
  cases ty with
  | Vector | Symbol | Ratio | Complex | Other =>
      -- the range follows the length, and a payload without cells has none
      rcases Nat.eq_zero_or_pos length with rfl | hpos
      · simp [HeapType.wordFieldRange, HeapType.fixedCells, ObjectLayout.opaqueCells]
      · have hne : length ≠ 0 := Nat.pos_iff_ne_zero.1 hpos
        simp only [HeapType.wordFieldRange, if_neg hne]
        exact iff_of_true ⟨trivial, Or.inr ⟨Nat.le_refl 1, Nat.le_add_left 1 length,
          Nat.le_of_eq (Nat.add_comm length 1)⟩⟩ (Nat.zero_le length)
  | Function | Bignum | Float =>
      simp [HeapType.wordFieldRange, HeapType.fixedCells]
      omega
  | String | FfiBlock =>
      simp [HeapType.wordFieldRange, HeapType.fixedCells, ObjectLayout.opaqueCells]

theorem header_layouts_inside_vector :
    (LayoutInside lispLayout (withGcBits (heapHeader .Vector 3) 5#8) 3 ↔
      HeapType.Vector.fixedCells ≤ 3) ∧ LayoutInside tinyLayout (tinyHeader 3) 3 :=
  header_layouts_inside .Vector 3 5#8 (by decide)

/-- The constructor admits a function without payload, whose range is cells 3 and 4 past it. -/
theorem function_header_outside : ¬ ∀ ty length gcBits, length ≤ maxObjectCells →
    LayoutInside lispLayout (withGcBits (heapHeader ty length) gcBits) length := by
  intro hall
  obtain ⟨layout, hok, htotal, hrange⟩ := hall .Function 0 0#8 (by decide)
  rw [headerLayout_withGcBits .Function (by decide)] at hok
  cases hok
  revert hrange
  decide

end NewGc
