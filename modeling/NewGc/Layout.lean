import Mathlib.Data.BitVec
import Mathlib.Data.List.Basic

/-!
# Layout — tagged words, object headers and the `HeapLayout` trait

The collector stores raw 64-bit cells and learns everything about them from a `HeapLayout`:
what a cell classifies as, how a forwarding marker is written, how the address part of a pointer
is replaced, and which cells of an object hold pointers.  `LispLayout` is the shipped binding
(three tag bits, typed headers), `TinyLayout` the second one (two tag bits, headers that carry a
length only).
-/

namespace NewGc

/-- A raw 64-bit cell. -/
abbrev Word := BitVec 64

/-! ## Page descriptors the errors mention -/

/-- Which cohort a page belongs to. -/
inductive Generation
  | Free
  | G0
  | G1
  | Tenured
  deriving DecidableEq, Repr

/-- What kind of objects live on a page. -/
inductive PageKind
  | Free
  | Cons
  | Boxed
  | Large
  deriving DecidableEq, Repr

/-! ## Panics -/

/-- The diagnostic carried by a mid-evacuation out-of-memory panic. -/
structure GcStallError where
  fromGen : Generation
  destGen : Generation
  attemptedCells : Nat
  attemptedKind : PageKind
  freePages : Nat
  g0Pages : Nat
  g1Pages : Nat
  tenuredPages : Nat
  pinnedPages : Nat
  pinSetSize : Nat
  objectsCopiedBeforeFailure : Nat
  cellsCopiedBeforeFailure : Nat
  reservePages : Nat
  markLiveBytes : Nat
  markLivePages : Nat
  zeroLivePagesReleased : Nat
  pagesRecycledMidEvac : Nat
  deriving DecidableEq, Repr

/-- How a collection can end without a result: its panics, and the access to a page without backing
that ends the process. -/
inductive GcPanic
  /-- `GcStallReason::MidEvacOOM`. -/
  | midEvacOom (stall : GcStallError)
  /-- `HeapHeader::ty`: "invalid header type". -/
  | invalidHeaderType
  /-- "evacuate: from_gen must not be Free". -/
  | fromGenFree
  /-- "evacuate: dest_gen must not be Free". -/
  | destGenFree
  /-- `SIGSEGV`. -/
  | accessViolation
  deriving DecidableEq, Repr

/-! ## The `HeapLayout` trait -/

/-- Classification of a 64-bit cell value. -/
inductive WordKind
  | immediate
  | pointerCons (addr : Nat)
  | pointerHeader (addr : Nat)
  | forwarded (addr : Nat)
  deriving DecidableEq, Repr

/-- Whether a tagged pointer points at a cons-shaped or a header-bearing object. -/
inductive PointerKind
  | cons
  | header
  deriving DecidableEq, Repr

/-- The address and the kind of a heap pointer; `none` for immediates and forwarding markers. -/
def WordKind.pointer? : WordKind → Option (Nat × PointerKind)
  | .pointerCons a => some (a, .cons)
  | .pointerHeader a => some (a, .header)
  | _ => none

/-- The same kind of word at another address. -/
def WordKind.withAddr : WordKind → Nat → WordKind
  | .immediate, _ => .immediate
  | .pointerCons _, b => .pointerCons b
  | .pointerHeader _, b => .pointerHeader b
  | .forwarded _, b => .forwarded b

/-- Size of an object and the half-open range of its pointer cells, relative to the first cell. -/
structure ObjectLayout where
  totalCells : Nat
  pointerCellsStart : Nat
  pointerCellsEnd : Nat
  deriving DecidableEq, Repr

/-- No pointer-bearing payload. -/
def ObjectLayout.opaqueCells (totalCells : Nat) : ObjectLayout :=
  { totalCells := totalCells, pointerCellsStart := 0, pointerCellsEnd := 0 }

/-- Every payload cell holds a pointer-typed word. -/
def ObjectLayout.allPointers (totalCells : Nat) : ObjectLayout :=
  { totalCells := totalCells, pointerCellsStart := 1, pointerCellsEnd := totalCells }

/-- The language binding: one structure of functions for the trait's methods.  `headerLayout`
receives the header cell's content; decoding can panic.  The last three fields are the trait's
contract: a marker classifies as a forwarding to its address, and replacing the address of a pointer
keeps its kind (cell addresses are multiples of eight). -/
structure HeapLayout where
  fillWord : Word
  classify : Word → WordKind
  makeForward : Nat → Word
  makePointer : Nat → PointerKind → Word
  rewritePointerAddr : Word → Nat → Word
  headerLayout : Word → Except GcPanic ObjectLayout
  classify_makeForward : ∀ a, a < 2 ^ 64 → a % 8 = 0 → classify (makeForward a) = .forwarded a
  classify_rewrite_cons : ∀ w a b, b < 2 ^ 64 → b % 8 = 0 → classify w = .pointerCons a →
    classify (rewritePointerAddr w b) = .pointerCons b
  classify_rewrite_header : ∀ w a b, b < 2 ^ 64 → b % 8 = 0 → classify w = .pointerHeader a →
    classify (rewritePointerAddr w b) = .pointerHeader b

/-- A rewritten pointer is a pointer of the same kind at the new address. -/
theorem HeapLayout.pointer?_rewrite (L : HeapLayout) {w : Word} {a b : Nat} {k : PointerKind}
    (hw : (L.classify w).pointer? = some (a, k)) (hlt : b < 2 ^ 64) (hb : b % 8 = 0) :
    (L.classify (L.rewritePointerAddr w b)).pointer? = some (b, k) := by
  cases hc : L.classify w with
  | immediate => simp [hc, WordKind.pointer?] at hw
  | forwarded c => simp [hc, WordKind.pointer?] at hw
  | pointerCons c =>
      rw [L.classify_rewrite_cons w c b hlt hb hc]
      simp [hc, WordKind.pointer?] at hw
      simp [WordKind.pointer?, hw.2]
  | pointerHeader c =>
      rw [L.classify_rewrite_header w c b hlt hb hc]
      simp [hc, WordKind.pointer?] at hw
      simp [WordKind.pointer?, hw.2]

/-! ## Headers -/

def maxObjectCells : Nat := 2 ^ 24 - 1

/-- The type tag inside a header. -/
inductive HeapType
  | Symbol
  | Vector
  | Function
  | String
  | FfiBlock
  | Other
  | Bignum
  | Float
  | Ratio
  | Complex
  deriving DecidableEq, Repr

namespace HeapType

def toBits : HeapType → Nat
  | .Symbol => 0
  | .Vector => 1
  | .Function => 2
  | .String => 3
  | .FfiBlock => 4
  | .Other => 5
  | .Bignum => 6
  | .Float => 7
  | .Ratio => 8
  | .Complex => 9

def fromBits : Nat → Option HeapType
  | 0 => some .Symbol
  | 1 => some .Vector
  | 2 => some .Function
  | 3 => some .String
  | 4 => some .FfiBlock
  | 5 => some .Other
  | 6 => some .Bignum
  | 7 => some .Float
  | 8 => some .Ratio
  | 9 => some .Complex
  | _ => none

/-- Inclusive range of the cell offsets that hold words the collector must scan. -/
def wordFieldRange (ty : HeapType) (lengthCells : Nat) : Option (Nat × Nat) :=
  match ty with
  | .Vector | .Symbol | .Ratio | .Complex | .Other =>
      if lengthCells = 0 then none else some (1, lengthCells)
  | .Function => some (3, 4)
  | .Bignum => some (1, 4)
  | .Float => some (1, 1)
  | .String | .FfiBlock => none

end HeapType

/-- `HeapHeader::new`: type in bits 0..5, length in bits 5..29. -/
def heapHeader (ty : HeapType) (lengthCells : Nat) : Word :=
  BitVec.ofNat 64 ty.toBits ||| (BitVec.ofNat 64 (lengthCells % 2 ^ 24) <<< 5)

/-- `HeapHeader::length_cells`. -/
def headerLengthCells (h : Word) : Nat :=
  ((h >>> 5) &&& 0xFFFFFF#64).toNat

/-- `HeapHeader::ty`; panics on the bit patterns that name no type. -/
def headerTy (h : Word) : Except GcPanic HeapType :=
  match HeapType.fromBits (h &&& 0x1F#64).toNat with
  | some ty => .ok ty
  | none => .error .invalidHeaderType

/-! ## Tag bits -/

/-- An address that is a multiple of eight leaves the low three bits clear. -/
theorem ofNat_and_seven {a : Nat} (ha : a % 8 = 0) : BitVec.ofNat 64 a &&& 7#64 = 0#64 := by
  apply BitVec.eq_of_toNat_eq
  simp only [BitVec.toNat_and, BitVec.toNat_ofNat]
  rw [show (7 % 2 ^ 64 : Nat) = 2 ^ 3 - 1 by decide, Nat.and_two_pow_sub_one_eq_mod]
  omega

theorem ofNat_and_three {a : Nat} (ha : a % 8 = 0) : BitVec.ofNat 64 a &&& 3#64 = 0#64 := by
  apply BitVec.eq_of_toNat_eq
  simp only [BitVec.toNat_and, BitVec.toNat_ofNat]
  rw [show (3 % 2 ^ 64 : Nat) = 2 ^ 2 - 1 by decide, Nat.and_two_pow_sub_one_eq_mod]
  omega

/-- Joining an address with tag bits: the mask recovers the tag. -/
theorem or_tag_and_mask {x m : Word} (hx : x &&& m = 0#64) (w : Word) :
    (x ||| (w &&& m)) &&& m = w &&& m := by
  ext i hi
  have hbit := congrArg (fun v : Word => v[i]) hx
  simp at hbit ⊢
  grind

/-- Joining an address with tag bits: the complement of the mask recovers the address. -/
theorem or_tag_and_not_mask {x m : Word} (hx : x &&& m = 0#64) (w : Word) :
    (x ||| (w &&& m)) &&& ~~~ m = x := by
  ext i hi
  have hbit := congrArg (fun v : Word => v[i]) hx
  simp at hbit ⊢
  grind

/-! ## `LispLayout` -/

namespace LispLayout

def tagMask : Word := 7#64
def payloadMask : Word := ~~~ tagMask

/-- `Word::NIL`: immediate tag, sub-tag 3. -/
def nil : Word := 0x1E#64

/-- `Word::fixnum`. -/
def fixnum (n : Nat) : Word := BitVec.ofNat 64 n <<< 3

def classify (raw : Word) : WordKind :=
  let addr := (raw &&& payloadMask).toNat
  match (raw &&& tagMask).toNat with
  | 1 => .pointerCons addr
  | 2 | 3 | 4 | 5 => .pointerHeader addr
  | 7 => .forwarded addr
  | _ => .immediate

def makeForward (newAddr : Nat) : Word :=
  BitVec.ofNat 64 newAddr ||| 7#64

def makePointer (addr : Nat) : PointerKind → Word
  | .cons => BitVec.ofNat 64 addr ||| 1#64
  | .header => BitVec.ofNat 64 addr ||| 3#64

/-- Keeps the three tag bits of the old word and replaces the address. -/
def rewritePointerAddr (oldRaw : Word) (newAddr : Nat) : Word :=
  BitVec.ofNat 64 newAddr ||| (oldRaw &&& tagMask)

def headerLayout (header : Word) : Except GcPanic ObjectLayout := do
  let length := headerLengthCells header
  let totalCells := 1 + length
  let ty ← headerTy header
  match ty.wordFieldRange length with
  | some (first, last) =>
      return { totalCells := totalCells, pointerCellsStart := first, pointerCellsEnd := last + 1 }
  | none => return ObjectLayout.opaqueCells totalCells

/-- Replacing the address of a word keeps its tag bits. -/
theorem rewrite_tag {a : Nat} (ha : a % 8 = 0) (w : Word) :
    rewritePointerAddr w a &&& tagMask = w &&& tagMask :=
  or_tag_and_mask (ofNat_and_seven ha) w

theorem rewrite_addr {a : Nat} (hlt : a < 2 ^ 64) (ha : a % 8 = 0) (w : Word) :
    (rewritePointerAddr w a &&& payloadMask).toNat = a := by
  have h : rewritePointerAddr w a &&& payloadMask = BitVec.ofNat 64 a :=
    or_tag_and_not_mask (ofNat_and_seven ha) w
  rw [h, BitVec.toNat_ofNat, Nat.mod_eq_of_lt hlt]

/-- A rewritten pointer classifies as the old one did, at the new address. -/
theorem classify_rewrite {a : Nat} (hlt : a < 2 ^ 64) (ha : a % 8 = 0) (w : Word) :
    classify (rewritePointerAddr w a) = (classify w).withAddr a := by
  unfold classify
  rw [rewrite_tag ha, rewrite_addr hlt ha]
  split <;> rfl

theorem makeForward_eq (a : Nat) : makeForward a = rewritePointerAddr 7#64 a := rfl

end LispLayout

/-- NCL's three-bit-tag Lisp layout. -/
def lispLayout : HeapLayout where
  fillWord := LispLayout.nil
  classify := LispLayout.classify
  makeForward := LispLayout.makeForward
  makePointer := LispLayout.makePointer
  rewritePointerAddr := LispLayout.rewritePointerAddr
  headerLayout := LispLayout.headerLayout
  classify_makeForward := by
    intro a hlt ha
    rw [LispLayout.makeForward_eq, LispLayout.classify_rewrite hlt ha]
    rfl
  classify_rewrite_cons := by
    intro w a b hlt hb hw
    rw [LispLayout.classify_rewrite hlt hb, hw]
    rfl
  classify_rewrite_header := by
    intro w a b hlt hb hw
    rw [LispLayout.classify_rewrite hlt hb, hw]
    rfl

/-! ## `TinyLayout` -/

namespace TinyLayout

def tagMask : Word := 3#64
def payloadMask : Word := ~~~ tagMask

def classify (raw : Word) : WordKind :=
  let addr := (raw &&& payloadMask).toNat
  match (raw &&& tagMask).toNat with
  | 1 => .pointerCons addr
  | 2 => .pointerHeader addr
  | 3 => .forwarded addr
  | _ => .immediate

def makeForward (newAddr : Nat) : Word :=
  BitVec.ofNat 64 newAddr ||| 3#64

def makePointer (addr : Nat) : PointerKind → Word
  | .cons => BitVec.ofNat 64 addr ||| 1#64
  | .header => BitVec.ofNat 64 addr ||| 2#64

def rewritePointerAddr (oldRaw : Word) (newAddr : Nat) : Word :=
  BitVec.ofNat 64 newAddr ||| (oldRaw &&& tagMask)

/-- The header is the payload-cell count and every payload cell is a pointer. -/
def headerLayout (header : Word) : Except GcPanic ObjectLayout :=
  .ok (ObjectLayout.allPointers (1 + header.toNat))

theorem rewrite_tag {a : Nat} (ha : a % 8 = 0) (w : Word) :
    rewritePointerAddr w a &&& tagMask = w &&& tagMask :=
  or_tag_and_mask (ofNat_and_three ha) w

theorem rewrite_addr {a : Nat} (hlt : a < 2 ^ 64) (ha : a % 8 = 0) (w : Word) :
    (rewritePointerAddr w a &&& payloadMask).toNat = a := by
  have h : rewritePointerAddr w a &&& payloadMask = BitVec.ofNat 64 a :=
    or_tag_and_not_mask (ofNat_and_three ha) w
  rw [h, BitVec.toNat_ofNat, Nat.mod_eq_of_lt hlt]

theorem classify_rewrite {a : Nat} (hlt : a < 2 ^ 64) (ha : a % 8 = 0) (w : Word) :
    classify (rewritePointerAddr w a) = (classify w).withAddr a := by
  unfold classify
  rw [rewrite_tag ha, rewrite_addr hlt ha]
  split <;> rfl

theorem makeForward_eq (a : Nat) : makeForward a = rewritePointerAddr 3#64 a := rfl

end TinyLayout

/-- The minimal second layout. -/
def tinyLayout : HeapLayout where
  fillWord := 0#64
  classify := TinyLayout.classify
  makeForward := TinyLayout.makeForward
  makePointer := TinyLayout.makePointer
  rewritePointerAddr := TinyLayout.rewritePointerAddr
  headerLayout := TinyLayout.headerLayout
  classify_makeForward := by
    intro a hlt ha
    rw [TinyLayout.makeForward_eq, TinyLayout.classify_rewrite hlt ha]
    rfl
  classify_rewrite_cons := by
    intro w a b hlt hb hw
    rw [TinyLayout.classify_rewrite hlt hb, hw]
    rfl
  classify_rewrite_header := by
    intro w a b hlt hb hw
    rw [TinyLayout.classify_rewrite hlt hb, hw]
    rfl

end NewGc
