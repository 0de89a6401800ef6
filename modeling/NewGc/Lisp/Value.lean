import NewGc.Layout

/-!
# Value — the runtime values of the mini-Lisp

Pairs, vectors and strings live in the collected heap and are held as tagged words; everything else
is immediate.  The evaluator sees the heap through `Heap`: the operations it calls, over whatever
state they keep.
-/

namespace NewGc.Lisp

/-! ## Expressions -/

inductive Sexp
  | number (n : Int64)
  | bool (b : Bool)
  | nil
  | string (s : String)
  | symbol (name : String)
  | list (items : List Sexp)

namespace Sexp

/-- `as_symbol`. -/
def asSymbol : Sexp → Option String
  | .symbol name => some name
  | _ => none

end Sexp

/-! ## Values -/

inductive Value
  | number (n : Int64)
  | bool (b : Bool)
  | nil
  | symbol (name : String)
  | pair (w : Word)
  | vector (w : Word)
  | str (w : Word)
  deriving DecidableEq

namespace Value

def isTruthy : Value → Bool
  | .bool false | .nil => false
  | _ => true

def typeName : Value → String
  | .number _ => "number"
  | .bool _ => "bool"
  | .nil => "nil"
  | .symbol _ => "symbol"
  | .pair _ => "pair"
  | .vector _ => "vector"
  | .str _ => "string"

/-- The word slot of a heap value. -/
def word? : Value → Option Word
  | .pair w | .vector w | .str w => some w
  | _ => none

/-- The same value with another word in its slot. -/
def withWord : Value → Word → Value
  | .pair _, w => .pair w
  | .vector _, w => .vector w
  | .str _, w => .str w
  | v, _ => v

end Value

/-! ## Words -/

/-- The tag of a word. -/
inductive Tag
  | Fixnum
  | Cons
  | Symbol
  | Vector
  | Function
  | String
  | Immediate
  | Forward
  deriving DecidableEq, Repr

namespace Tag

def toBits : Tag → Word
  | .Fixnum => 0
  | .Cons => 1
  | .Symbol => 2
  | .Vector => 3
  | .Function => 4
  | .String => 5
  | .Immediate => 6
  | .Forward => 7

def fromBits (bits : Word) : Tag :=
  match (bits &&& LispLayout.tagMask).toNat with
  | 0 => .Fixnum
  | 1 => .Cons
  | 2 => .Symbol
  | 3 => .Vector
  | 4 => .Function
  | 5 => .String
  | 6 => .Immediate
  | _ => .Forward

end Tag

/-- `Word::T`. -/
def trueWord : Word := 6

/-- `Word::fixnum`, without the range check of debug builds. -/
def fixnumOf (n : Int64) : Word := n.toBitVec <<< 3

/-- `Word::as_fixnum` of a word with the fixnum tag. -/
def asFixnum (w : Word) : Int64 := Int64.ofBitVec (w.sshiftRight 3)

/-- The address under the tag. -/
def addrOf (w : Word) : Nat := (w &&& LispLayout.payloadMask).toNat

/-- `Word::from_ptr`. -/
def fromPtr (addr : Nat) (tag : Tag) : Word := BitVec.ofNat 64 addr ||| tag.toBits

/-- `value_to_word`; `none` is its panic on symbols. -/
def valueToWord : Value → Option Word
  | .number n => some (fixnumOf n)
  | .bool true => some trueWord
  | .bool false => some LispLayout.nil
  | .nil => some LispLayout.nil
  | .symbol _ => none
  | .pair w | .vector w | .str w => some w

/-- `word_to_value`; `none` is its panic on forwarding markers. -/
def wordToValue (w : Word) : Option Value :=
  match Tag.fromBits w with
  | .Fixnum => some (.number (asFixnum w))
  | .Cons => some (.pair w)
  | .Vector => some (.vector w)
  | .String => some (.str w)
  | .Immediate => if w = trueWord then some (.bool true) else some .nil
  | .Symbol | .Function => some .nil
  | .Forward => none

/-! ## The heap -/

/-- The heap's two backends. -/
inductive HeapMode
  | Direct
  | Shared
  deriving DecidableEq, Repr

/-- The entry points that collect. -/
inductive Collection
  | minor
  | major
  | auto
  | full
  deriving DecidableEq, Repr

/-- The heap statistics a program can read. -/
structure GcStats where
  totalUsedBytes : Nat
  g0UsedBytes : Nat
  tenuredUsedBytes : Nat
  freePages : Nat
  bytesAllocSinceGc : Nat
  autoGcTriggerBytes : Nat

/-- The heap operations the evaluator calls, all in G0; `none` where one panics.  A collection, and
a safepoint at which a peer's collection runs, gets the root words and hands them back rewritten. -/
structure Heap (σ : Type) where
  mode : HeapMode
  tryAllocConsIn : σ → Option Nat × σ
  tryAllocBoxedIn : σ → Nat → Option Nat × σ
  load : σ → Nat → Word
  store : σ → Nat → Word → σ
  markCardAt : σ → Nat → σ
  setGcBudgetMinBytes : σ → Nat → σ
  shouldCollect : σ → Bool
  shouldCollectMajor : σ → Bool
  recomputeAutoTrigger : σ → σ
  stats : σ → GcStats
  collect : Collection → σ → List Word → Option (List Word × σ)
  pollSafepoint : σ → List Word → Option (List Word × σ)

namespace Heap

variable {σ : Type} (H : Heap σ)

/-- Store words in consecutive cells. -/
def storeAll (addr : Nat) : List Word → σ → σ
  | [], s => s
  | w :: ws, s => storeAll (addr + 8) ws (H.store s addr w)

/-! ## Allocation -/

/-- `alloc_pair`. -/
def allocPair (s : σ) (car cdr : Value) : Option (Word × σ) :=
  match H.tryAllocConsIn s with
  | (none, _) => none
  | (some p, s) => do
      let carWord ← valueToWord car
      let cdrWord ← valueToWord cdr
      let s := H.storeAll p [carWord, cdrWord] s
      return (fromPtr p .Cons, H.markCardAt s p)

/-- `alloc_vector`. -/
def allocVector (s : σ) (nPayload : Nat) (init : Value) : Option (Word × σ) :=
  match H.tryAllocBoxedIn s (1 + nPayload) with
  | (none, _) => none
  | (some p, s) => do
      let initWord ← valueToWord init
      let s := H.storeAll p (heapHeader .Vector nPayload :: List.replicate nPayload initWord) s
      return (fromPtr p .Vector, s)

/-- Eight bytes as one little-endian word. -/
def packWord (bytes : List UInt8) : Word :=
  bytes.foldr (fun b w => (w <<< 8) ||| b.toBitVec.setWidth 64) 0

/-- The payload cells of a string: its bytes, the tail zero. -/
def packBytes (bytes : List UInt8) : List Word :=
  (List.range ((bytes.length + 7) / 8)).map fun i => packWord ((bytes.drop (8 * i)).take 8)

/-- `alloc_string`. -/
def allocString (s : σ) (bytes : List UInt8) : Option (Word × σ) :=
  let payload := packBytes bytes
  match H.tryAllocBoxedIn s (1 + payload.length) with
  | (none, _) => none
  | (some p, s) =>
      some (fromPtr p .String, H.storeAll p (heapHeader .String payload.length :: payload) s)

/-! ## Access -/

/-- `pair_car`. -/
def pairCar (s : σ) (w : Word) : Option Value := wordToValue (H.load s (addrOf w))

/-- `pair_cdr`. -/
def pairCdr (s : σ) (w : Word) : Option Value := wordToValue (H.load s (addrOf w + 8))

/-- `vector_len`. -/
def vectorLen (s : σ) (w : Word) : Nat := headerLengthCells (H.load s (addrOf w))

/-- `vector_ref`. -/
def vectorRef (s : σ) (w : Word) (idx : Nat) : Option Value :=
  if H.vectorLen s w ≤ idx then none else wordToValue (H.load s (addrOf w + 8 * (1 + idx)))

/-- `vector_set`. -/
def vectorSet (s : σ) (w : Word) (idx : Nat) (v : Value) : Option σ :=
  if H.vectorLen s w ≤ idx then none
  else do
    let raw ← valueToWord v
    let slotAddr := addrOf w + 8 * (1 + idx)
    return H.markCardAt (H.store s slotAddr raw) slotAddr

/-- The bytes of a word, lowest first. -/
def unpackWord (w : Word) : List UInt8 :=
  (List.range 8).map fun i => UInt8.ofBitVec ((w >>> (8 * i)).setWidth 8)

/-- `string_bytes`: the payload without its trailing zeros. -/
def stringBytes (s : σ) (w : Word) : List UInt8 :=
  let cells := headerLengthCells (H.load s (addrOf w))
  let bytes := (List.range cells).flatMap fun i => unpackWord (H.load s (addrOf w + 8 * (1 + i)))
  (bytes.reverse.dropWhile (· == 0)).reverse

/-- `string_len`. -/
def stringLen (s : σ) (w : Word) : Nat := (H.stringBytes s w).length

/-- `list_length`: `none` when the walk panics or outlasts its fuel, `some none` for what is no
list. -/
def listLength (s : σ) : Nat → Value → Option (Option Nat)
  | 0, _ => none
  | fuel + 1, .pair p => do
      let rest ← H.pairCdr s p
      let n ← listLength s fuel rest
      return n.map (· + 1)
  | _ + 1, .nil => some (some 0)
  | _ + 1, _ => some none

end Heap

end NewGc.Lisp
