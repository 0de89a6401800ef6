import NewGc.Lisp.Value

/-!
# Eval — the tree-walking evaluator

`eval` pushes the value of an expression onto the value stack.  It is a state monad over the
interpreter; an evaluation ends in a `RunError`, in a panic of the process, or, when it recurses
deeper than the fuel, in no answer at all.
-/

namespace NewGc.Lisp

/-! ## Errors -/

inductive RunError
  | unbound (name : String)
  | badArity (name : String) (expected got : Nat)
  | typeError (msg : String)
  | other (msg : String)
  deriving DecidableEq

namespace RunError

/-- `msg`. -/
def msg : RunError → String
  | .unbound s => "unbound symbol: " ++ s
  | .badArity name expected got =>
      "bad arity for " ++ name ++ ": expected " ++ toString expected ++ ", got " ++ toString got
  | .typeError s => "type error: " ++ s
  | .other s => s

end RunError

/-- What the interpreter asks of its heap and gets, or panics. -/
inductive Demand
  | cons
  | boxed (cells : Nat)
  | collection (kind : Collection)
  | safepoint
  deriving DecidableEq

/-- How an evaluation ends without a value.  `leftLet` is no data of the source: it records that the
error has come out of a body form of a `let`.  `demand` is what the heap was asked for when the
process panicked, if anything. -/
inductive Exit
  | error (e : RunError) (leftLet : Bool)
  | panic (demand : Option Demand)
  | outOfFuel
  deriving DecidableEq

/-! ## Debug output -/

section Debug

/-- What the standard library's Unicode tables say of a character; they change with its version. -/
class UnicodeTables where
  graphemeExtend : Char → Bool
  printable : Char → Bool

variable [UnicodeTables]

/-- A character of a string, as `Debug` prints it. -/
def escapeChar (c : Char) : String :=
  if c = '"' then "\\\""
  else if c = '\\' then "\\\\"
  else if c = '\n' then "\\n"
  else if c = '\t' then "\\t"
  else if c = '\r' then "\\r"
  else if c = '\x00' then "\\0"
  else if !UnicodeTables.graphemeExtend c && UnicodeTables.printable c then c.toString
  else "\\u\x7b" ++ String.ofList (Nat.toDigits 16 c.toNat) ++ "\x7d"

def debugString (s : String) : String :=
  "\"" ++ s.toList.foldl (fun t c => t ++ escapeChar c) "" ++ "\""

def debugInt (n : Int64) : String := toString n.toInt

/-- The word of a heap value, as `Debug` prints it. -/
def debugWord (tag : String) (w : Word) : String :=
  "<" ++ tag ++ ":0x" ++ String.ofList (Nat.toDigits 16 (addrOf w)) ++ ">"

/-- The `Debug` text of a value. -/
def Value.debug : Value → String
  | .number n => "Number(" ++ debugInt n ++ ")"
  | .bool true => "Bool(true)"
  | .bool false => "Bool(false)"
  | .nil => "Nil"
  | .symbol s => "Symbol(" ++ debugString s ++ ")"
  | .pair w => "Pair(" ++ debugWord "Cons" w ++ ")"
  | .vector w => "Vector(" ++ debugWord "Vector" w ++ ")"
  | .str w => "Str(" ++ debugWord "String" w ++ ")"

mutual

/-- The `Debug` text of an expression. -/
def Sexp.debug : Sexp → String
  | .number n => "Number(" ++ debugInt n ++ ")"
  | .bool true => "Bool(true)"
  | .bool false => "Bool(false)"
  | .nil => "Nil"
  | .string s => "String(" ++ debugString s ++ ")"
  | .symbol s => "Symbol(" ++ debugString s ++ ")"
  | .list items => "List([" ++ Sexp.debugAll items ++ "])"

def Sexp.debugAll : List Sexp → String
  | [] => ""
  | [item] => Sexp.debug item
  | item :: items => Sexp.debug item ++ ", " ++ Sexp.debugAll items

end

end Debug

/-! ## The interpreter -/

structure FunctionDef where
  params : List String
  body : Sexp

structure Frame where
  bindings : List (String × Value)

/-- A hash map iterates over its entries in an order of its own. -/
structure MapOrder where
  iter : List (String × Value) → List (String × Value)
  perm : ∀ l, (iter l).Perm l

structure Stats where
  topLevelForms : Nat
  functionCalls : Nat
  minorGcs : Nat
  majorGcs : Nat
  allocations : Nat
  maxFrameDepth : Nat
  maxValueStack : Nat

/-- The interpreter; the last frame and the last value are the top ones. -/
structure Interpreter (σ : Type) where
  heap : σ
  globals : List (String × Value)
  globalsOrder : MapOrder
  functions : List (String × FunctionDef)
  frames : List Frame
  valueStack : List Value
  rngState : UInt64
  gcDriveCounter : Nat
  stats : Stats

abbrev EvalM (σ : Type) := EStateM Exit (Interpreter σ)

section Basic

variable {σ : Type}

def fail {α : Type} (e : RunError) : EvalM σ α := throw (.error e false)

def push (v : Value) : EvalM σ Unit :=
  modify fun s => { s with valueStack := s.valueStack ++ [v] }

/-- `value_stack.pop().unwrap()`. -/
def pop : EvalM σ Value := do
  let s ← get
  match s.valueStack.getLast? with
  | none => throw (.panic none)
  | some v =>
      set { s with valueStack := s.valueStack.dropLast }
      return v

/-- `value_stack.pop();`, whose result is dropped. -/
def drop : EvalM σ Unit := modify fun s => { s with valueStack := s.valueStack.dropLast }

/-- `value_stack.split_off(high_water)`. -/
def splitOff (highWater : Nat) : EvalM σ (List Value) := do
  let s ← get
  if s.valueStack.length < highWater then throw (.panic none)
  else
    set { s with valueStack := s.valueStack.take highWater }
    return s.valueStack.drop highWater

/-- What an operation returns, or its panic, of the heap or not. -/
def orPanic {α : Type} (demand : Option Demand) : Option α → EvalM σ α
  | some a => pure a
  | none => throw (.panic demand)

/-- A heap operation that reads. -/
def readHeap {α : Type} (f : σ → Option α) : EvalM σ α := do
  let s ← get
  orPanic none (f s.heap)

/-- A heap operation that changes the heap, an allocation when there is a demand. -/
def onHeap {α : Type} (demand : Option Demand) (f : σ → Option (α × σ)) : EvalM σ α := do
  let s ← get
  let (a, heap) ← orPanic demand (f s.heap)
  set { s with heap := heap }
  return a

def countAllocation : EvalM σ Unit :=
  modify fun s => { s with stats := { s.stats with allocations := s.stats.allocations + 1 } }

/-- Push a frame and note the depth. -/
def pushFrame (frame : Frame) : EvalM σ Unit :=
  modify fun s => { s with
    frames := s.frames ++ [frame]
    stats := { s.stats with maxFrameDepth := max s.stats.maxFrameDepth (s.frames.length + 1) } }

def Interpreter.popFrame (s : Interpreter σ) : Interpreter σ :=
  { s with frames := s.frames.dropLast }

end Basic

/-! ## Lookup -/

/-- The first binding of a name in a frame. -/
def Frame.find (name : String) (frame : Frame) : Option Value := frame.bindings.lookup name

/-- Assign to the first binding of a name in a frame. -/
def Frame.assign (name : String) (v : Value) (frame : Frame) : Option Frame :=
  go frame.bindings |>.map fun bindings => { bindings := bindings }
where
  go : List (String × Value) → Option (List (String × Value))
    | [] => none
    | (n, old) :: rest =>
        if n = name then some ((n, v) :: rest) else (go rest).map ((n, old) :: ·)

/-- Search the frames, the top one first. -/
def findLocal (name : String) (frames : List Frame) : Option Value :=
  frames.reverse.findSome? (Frame.find name)

/-- Assign in the topmost frame that binds the name; the frames are listed from the top. -/
def assignFrames (name : String) (v : Value) : List Frame → Option (List Frame)
  | [] => none
  | frame :: rest =>
      match frame.assign name v with
      | some frame' => some (frame' :: rest)
      | none => (assignFrames name v rest).map (frame :: ·)

def assignLocal (name : String) (v : Value) (frames : List Frame) : Option (List Frame) :=
  (assignFrames name v frames.reverse).map List.reverse

/-- `HashMap::insert`. -/
def insertKey {α : Type} (key : String) (a : α) : List (String × α) → List (String × α)
  | [] => [(key, a)]
  | (k, old) :: rest => if k = key then (k, a) :: rest else (k, old) :: insertKey key a rest

/-- `lookup`. -/
def lookup {σ : Type} (name : String) : EvalM σ Value := do
  let s ← get
  match findLocal name s.frames with
  | some v => return v
  | none =>
      match s.globals.lookup name with
      | some v => return v
      | none => fail (.unbound name)

/-! ## Collections -/

/-- Where a root word came from. -/
inductive RootKind
  | valueStack (i : Nat)
  | frame (frame binding : Nat)
  | global (name : String)
  deriving DecidableEq

section Roots

variable {σ : Type}

/-- The words of `value_stack`, of the frames and of the globals, with their places. -/
def gatherRoots (s : Interpreter σ) : List (Word × RootKind) :=
  (s.valueStack.zipIdx.filterMap fun (v, i) => v.word?.map fun w => (w, .valueStack i)) ++
  (s.frames.zipIdx.flatMap fun (frame, i) => frame.bindings.zipIdx.filterMap fun (b, j) =>
    b.2.word?.map fun w => (w, .frame i j)) ++
  ((s.globalsOrder.iter s.globals).filterMap fun (name, v) =>
    v.word?.map fun w => (w, .global name))

/-- The value in a place. -/
def Interpreter.valueAt (s : Interpreter σ) : RootKind → Option Value
  | .valueStack i => s.valueStack[i]?
  | .frame i j => s.frames[i]?.bind fun frame => frame.bindings[j]?.map (·.2)
  | .global name => s.globals.lookup name

/-- Put a value in a place. -/
def Interpreter.setValueAt (s : Interpreter σ) (v : Value) : RootKind → Interpreter σ
  | .valueStack i => { s with valueStack := s.valueStack.set i v }
  | .frame i j => { s with frames := s.frames.modify i fun frame =>
      { bindings := frame.bindings.modify j fun b => (b.1, v) } }
  | .global name => { s with globals := insertKey name v s.globals }

/-- `apply_redistribute`; `none` is its panic on a place without a heap value. -/
def applyRedistribute (s : Interpreter σ) (kind : RootKind) (new : Word) :
    Option (Interpreter σ) :=
  match s.valueAt kind with
  | none => none
  | some v => if v.word?.isSome then some (s.setValueAt (v.withWord new) kind) else none

/-- `scatter_roots`. -/
def scatterRoots (s : Interpreter σ) : List RootKind → List Word → Option (Interpreter σ)
  | [], _ => some s
  | _ :: _, [] => none
  | kind :: layout, root :: roots => do
      let s ← applyRedistribute s kind root
      scatterRoots s layout roots

inductive GcKind
  | Minor
  | Major
  | Auto
  deriving DecidableEq

variable (H : Heap σ)

/-- Gather the roots, let `f` rewrite them, scatter them. -/
def withRoots (demand : Demand) (f : σ → List Word → Option (List Word × σ)) : EvalM σ Unit := do
  let s ← get
  let gathered := gatherRoots s
  let (roots, heap) ← orPanic (some demand) (f s.heap (gathered.map (·.1)))
  let s ← orPanic none (scatterRoots { s with heap := heap } (gathered.map (·.2)) roots)
  set s

def countMinor : EvalM σ Unit :=
  modify fun s => { s with stats := { s.stats with minorGcs := s.stats.minorGcs + 1 } }

def countMajor : EvalM σ Unit :=
  modify fun s => { s with stats := { s.stats with majorGcs := s.stats.majorGcs + 1 } }

/-- A collection followed by `recompute_auto_trigger`. -/
def thenRecompute (f : σ → List Word → Option (List Word × σ)) (h : σ) (roots : List Word) :
    Option (List Word × σ) :=
  (f h roots).map fun r => (r.1, H.recomputeAutoTrigger r.2)

/-- `do_collect`. -/
def doCollect (kind : GcKind) : EvalM σ Unit := do
  match H.mode, kind with
  | .Direct, .Minor => do
      withRoots (.collection .minor) (thenRecompute H (H.collect .minor))
      countMinor
  | .Direct, .Major => do
      withRoots (.collection .major) (thenRecompute H (H.collect .major))
      countMajor
  | .Direct, .Auto => do
      let s ← get
      withRoots (.collection .auto) (H.collect .auto)
      if H.shouldCollectMajor s.heap then countMajor else countMinor
  | .Shared, .Major => do
      withRoots (.collection .full) (H.collect .full)
      countMajor
  | .Shared, _ => do
      withRoots (.collection .minor) (H.collect .minor)
      countMinor

/-- `SHARED_DRIVE_EVERY`. -/
def sharedDriveEvery : Nat := 48

/-- `maybe_gc`. -/
def maybeGc : EvalM σ Unit := do
  match H.mode with
  | .Shared => do
      withRoots .safepoint H.pollSafepoint
      let s ← get
      if sharedDriveEvery ≤ s.gcDriveCounter + 1 then
        set { s with gcDriveCounter := 0 }
        doCollect H .Minor
      else set { s with gcDriveCounter := s.gcDriveCounter + 1 }
  | .Direct => do
      let s ← get
      if H.shouldCollect s.heap then doCollect H .Auto else pure ()

end Roots

/-! ## Built-ins -/

section Builtins

variable {σ : Type} (H : Heap σ)

def arity (name : String) (expected : Nat) (args : List Value) : EvalM σ Unit :=
  if args.length = expected then pure () else fail (.badArity name expected args.length)

def expectNumber (place : String) : Value → EvalM σ Int64
  | .number n => pure n
  | other => fail (.typeError (place ++ ": expected number, got " ++ other.typeName))

def expectPair (place : String) : Value → EvalM σ Word
  | .pair w => pure w
  | other => fail (.typeError (place ++ ": expected pair, got " ++ other.typeName))

/-- `vector-ref` names the type it got, the other vector operations do not. -/
def expectVector (msg : Value → String) : Value → EvalM σ Word
  | .vector w => pure w
  | other => fail (.typeError (msg other))

def expectStr (msg : String) : Value → EvalM σ Word
  | .str w => pure w
  | _ => fail (.typeError msg)

/-- `args[i]`, whose bounds the arity check has fixed. -/
def arg (args : List Value) (i : Nat) : EvalM σ Value := orPanic none args[i]?

/-- Fold the arguments, all numbers. -/
def foldNumbers (place : String) (op : Int64 → Int64 → Int64) : Int64 → List Value → EvalM σ Int64
  | acc, [] => pure acc
  | acc, a :: args => do
      let n ← expectNumber place a
      foldNumbers place op (op acc n) args

/-- `+` and `*`. -/
def builtinFold (place : String) (op : Int64 → Int64 → Int64) (unit : Int64) (args : List Value) :
    EvalM σ Unit := do
  let acc ← foldNumbers place op unit args
  push (.number acc)

def builtinSub : List Value → EvalM σ Unit
  | [] => fail (.badArity "-" 1 0)
  | [a] => do
      let first ← expectNumber "-" a
      push (.number (-first))
  | a :: b :: args => do
      let first ← expectNumber "-" a
      let acc ← foldNumbers "-" (· - ·) first (b :: args)
      push (.number acc)

/-- `=`, `<` and `>`. -/
def builtinCompare (name : String) (op : Int64 → Int64 → Bool) (args : List Value) :
    EvalM σ Unit := do
  arity name 2 args
  let a ← expectNumber name (← arg args 0)
  let b ← expectNumber name (← arg args 1)
  push (.bool (op a b))

/-- Allocate the pair of the two topmost values. -/
def consTop : EvalM σ Unit := do
  let cdr ← pop
  let car ← pop
  let w ← onHeap (some .cons) fun h => H.allocPair h car cdr
  countAllocation
  push (.pair w)

def builtinCons (args : List Value) : EvalM σ Unit := do
  arity "cons" 2 args
  push (← arg args 0)
  push (← arg args 1)
  maybeGc H
  consTop H

/-- `car` and `cdr`. -/
def builtinField (name : String) (field : σ → Word → Option Value) (args : List Value) :
    EvalM σ Unit := do
  arity name 1 args
  let p ← expectPair name (← arg args 0)
  let v ← readHeap fun h => field h p
  push v

/-- The type predicates. -/
def builtinIs (name : String) (p : Value → Bool) (args : List Value) : EvalM σ Unit := do
  arity name 1 args
  let v ← arg args 0
  push (.bool (p v))

/-- The equality of `eq?`. -/
def valueEq : Value → Value → Bool
  | .number a, .number b => a == b
  | .bool a, .bool b => a == b
  | .nil, .nil => true
  | .pair a, .pair b => a == b
  | .vector a, .vector b => a == b
  | .str a, .str b => a == b
  | .symbol a, .symbol b => a == b
  | _, _ => false

def builtinEq (args : List Value) : EvalM σ Unit := do
  arity "eq?" 2 args
  let a ← arg args 0
  let b ← arg args 1
  push (.bool (valueEq a b))

def pushAll : List Value → EvalM σ Unit
  | [] => pure ()
  | v :: vs => do
      push v
      pushAll vs

/-- Cons the values on the stack, from the right. -/
def consLoop : Nat → EvalM σ Unit
  | 0 => pure ()
  | n + 1 => do
      maybeGc H
      consTop H
      consLoop n

def builtinList (args : List Value) : EvalM σ Unit := do
  pushAll args
  push .nil
  consLoop H args.length

def builtinLength (fuel : Nat) (args : List Value) : EvalM σ Unit := do
  arity "length" 1 args
  let v ← arg args 0
  let n ← readHeap fun h => H.listLength h fuel v
  match n with
  | some n => push (.number (Int64.ofNat n))
  | none => fail (.typeError ("length: not a list (" ++ v.typeName ++ ")"))

def builtinMakeVector (args : List Value) : EvalM σ Unit := do
  arity "make-vector" 2 args
  let n ← expectNumber "make-vector" (← arg args 0)
  if n < 0 ∨ 1000000 < n then fail (.other ("make-vector: bad size " ++ debugInt n))
  else
    push (← arg args 1)
    maybeGc H
    let init ← pop
    let w ← onHeap (some (.boxed (1 + n.toInt.toNat))) fun h =>
      H.allocVector h n.toInt.toNat init
    countAllocation
    push (.vector w)

/-- Pop values into a list, the topmost last. -/
def popAll : Nat → List Value → EvalM σ (List Value)
  | 0, vals => pure vals
  | n + 1, vals => do
      let v ← pop
      popAll n (v :: vals)

/-- Store values in consecutive slots of a vector. -/
def fillVector (w : Word) : Nat → List Value → EvalM σ Unit
  | _, [] => pure ()
  | i, v :: vals => do
      onHeap none fun h => (H.vectorSet h w i v).map fun h => ((), h)
      fillVector w (i + 1) vals

def builtinVector (args : List Value) : EvalM σ Unit := do
  pushAll args
  maybeGc H
  let w ← onHeap (some (.boxed (1 + args.length))) fun h => H.allocVector h args.length .nil
  countAllocation
  let vals ← popAll args.length []
  fillVector H w 0 vals
  push (.vector w)

/-- `i as usize`. -/
def toUsize (i : Int64) : Nat := i.toUInt64.toNat

def builtinVectorRef (args : List Value) : EvalM σ Unit := do
  arity "vector-ref" 2 args
  let v ← expectVector (fun v => "vector-ref: not a vector (" ++ v.typeName ++ ")") (← arg args 0)
  let i ← expectNumber "vector-ref" (← arg args 1)
  let r ← readHeap fun h => H.vectorRef h v (toUsize i)
  push r

def builtinVectorSet (args : List Value) : EvalM σ Unit := do
  arity "vector-set!" 3 args
  let v ← expectVector (fun _ => "vector-set!: not a vector") (← arg args 0)
  let i ← expectNumber "vector-set!" (← arg args 1)
  let new ← arg args 2
  onHeap none fun h => (H.vectorSet h v (toUsize i) new).map fun h => ((), h)
  push .nil

def builtinVectorLength (args : List Value) : EvalM σ Unit := do
  arity "vector-length" 1 args
  let v ← expectVector (fun _ => "vector-length: not a vector") (← arg args 0)
  let n ← readHeap fun h => some (H.vectorLen h v)
  push (.number (Int64.ofNat n))

def builtinStringLength (args : List Value) : EvalM σ Unit := do
  arity "string-length" 1 args
  let w ← expectStr "string-length: not a string" (← arg args 0)
  let n ← readHeap fun h => some (H.stringLen h w)
  push (.number (Int64.ofNat n))

/-- `gc-now`, `gc-minor` and `gc-major`. -/
def builtinGc (name : String) (kind : GcKind) (args : List Value) : EvalM σ Unit := do
  arity name 0 args
  doCollect H kind
  push .nil

/-- The statistics, of the interpreter and of the heap. -/
def builtinStat (name : String) (stat : Interpreter σ → Nat) (args : List Value) :
    EvalM σ Unit := do
  arity name 0 args
  let s ← get
  push (.number (Int64.ofNat (stat s)))

/-- The next state of the random generator. -/
def nextRng (state : UInt64) : UInt64 := state * 6364136223846793005 + 1442695040888963407

def builtinRandom (args : List Value) : EvalM σ Unit := do
  arity "random" 1 args
  let n ← expectNumber "random" (← arg args 0)
  if n ≤ 0 then fail (.other ("random: bound must be positive, got " ++ debugInt n))
  else
    let s ← get
    let state := nextRng s.rngState
    set { s with rngState := state }
    push (.number (Int64.ofInt (((state >>> 1).toNat : Int) % n.toInt)))

def builtinRandomSeed (args : List Value) : EvalM σ Unit := do
  arity "random-seed!" 1 args
  let n ← expectNumber "random-seed!" (← arg args 0)
  modify fun s => { s with rngState := n.toUInt64 ||| 1 }
  push .nil

def builtinAssert [UnicodeTables] (args : List Value) : EvalM σ Unit := do
  arity "assert" 1 args
  let v ← arg args 0
  if v.isTruthy then push .nil else fail (.other ("assertion failed: " ++ v.debug))

/-- The equality of `check-equal`: strings by their bytes. -/
def checkEq (h : σ) : Value → Value → Bool
  | .str a, .str b => H.stringBytes h a == H.stringBytes h b
  | a, b => valueEq a b

def builtinCheckEqual [UnicodeTables] (args : List Value) : EvalM σ Unit := do
  arity "check-equal" 2 args
  let a ← arg args 0
  let b ← arg args 1
  let eq ← readHeap fun h => some (checkEq H h a b)
  if eq then push .nil
  else fail (.other ("check-equal failed: expected " ++ a.debug ++ ", got " ++ b.debug))

def builtinSetGcThreshold (args : List Value) : EvalM σ Unit := do
  arity "set-gc-threshold!" 1 args
  let n ← expectNumber "set-gc-threshold!" (← arg args 0)
  if n < 0 then fail (.other "set-gc-threshold!: must be non-negative")
  else
    onHeap none fun h => some ((),
      if H.mode = .Direct then H.setGcBudgetMinBytes h (max n.toInt.toNat 1) else h)
    push .nil

/-- `String::from_utf8_lossy` on bytes that come from a string literal. -/
def fromUtf8Lossy (bytes : List UInt8) : String :=
  (String.fromUTF8? ⟨bytes.toArray⟩).getD "\uFFFD"

def builtinError : List Value → EvalM σ Unit
  | .str w :: _ => do
      let bytes ← readHeap fun h => some (H.stringBytes h w)
      fail (.other (fromUtf8Lossy bytes))
  | _ => fail (.other "error called from Lisp")

/-- The heap's statistics; the shared backend has none. -/
def heapStat (stat : GcStats → Nat) (s : Interpreter σ) : Nat :=
  if H.mode = .Direct then stat (H.stats s.heap) else 0

/-- The arms of `try_builtin`; `fuel` bounds the walk of `length`. -/
def builtins [UnicodeTables] (fuel : Nat) : List (String × (List Value → EvalM σ Unit)) :=
  [("+", builtinFold "+" (· + ·) 0),
    ("-", builtinSub),
    ("*", builtinFold "*" (· * ·) 1),
    ("=", builtinCompare "=" (· == ·)),
    ("<", builtinCompare "<" fun a b => decide (a < b)),
    (">", builtinCompare ">" fun a b => decide (b < a)),
    ("cons", builtinCons H),
    ("car", builtinField "car" H.pairCar),
    ("cdr", builtinField "cdr" H.pairCdr),
    ("null?", builtinIs "null?" fun v => v matches .nil),
    ("pair?", builtinIs "pair?" fun v => v matches .pair _),
    ("number?", builtinIs "number?" fun v => v matches .number _),
    ("vector?", builtinIs "vector?" fun v => v matches .vector _),
    ("string?", builtinIs "string?" fun v => v matches .str _),
    ("eq?", builtinEq),
    ("list", builtinList H),
    ("length", builtinLength H fuel),
    ("make-vector", builtinMakeVector H),
    ("vector", builtinVector H),
    ("vector-ref", builtinVectorRef H),
    ("vector-set!", builtinVectorSet H),
    ("vector-length", builtinVectorLength H),
    ("string-length", builtinStringLength H),
    ("gc-now", builtinGc H "gc-now" .Minor),
    ("gc-minor", builtinGc H "gc-minor" .Minor),
    ("gc-major", builtinGc H "gc-major" .Major),
    ("gc-stats-minor-cycles", builtinStat "gc-stats-minor-cycles" (·.stats.minorGcs)),
    ("gc-stats-major-cycles", builtinStat "gc-stats-major-cycles" (·.stats.majorGcs)),
    ("gc-stats-allocations", builtinStat "gc-stats-allocations" (·.stats.allocations)),
    ("heap-used-bytes", builtinStat "heap-used-bytes" (heapStat H (·.totalUsedBytes))),
    ("heap-g0-used-bytes", builtinStat "heap-g0-used-bytes" (heapStat H (·.g0UsedBytes))),
    ("heap-tenured-used-bytes",
      builtinStat "heap-tenured-used-bytes" (heapStat H (·.tenuredUsedBytes))),
    ("heap-free-pages", builtinStat "heap-free-pages" (heapStat H (·.freePages))),
    ("heap-bytes-alloc-since-gc",
      builtinStat "heap-bytes-alloc-since-gc" (heapStat H (·.bytesAllocSinceGc))),
    ("heap-auto-gc-trigger-bytes",
      builtinStat "heap-auto-gc-trigger-bytes" (heapStat H (·.autoGcTriggerBytes))),
    ("random", builtinRandom),
    ("random-seed!", builtinRandomSeed),
    ("assert", builtinAssert),
    ("check-equal", builtinCheckEqual H),
    ("set-gc-threshold!", builtinSetGcThreshold H),
    ("error", builtinError H)]

/-- `try_builtin`. -/
def tryBuiltin [UnicodeTables] (fuel : Nat) (name : String) (args : List Value) : EvalM σ Bool :=
  match (builtins H fuel).lookup name with
  | some body => do
      body args
      return true
  | none => return false

end Builtins

/-! ## Special forms -/

section Forms

variable {σ : Type} (H : Heap σ) (rec : Sexp → EvalM σ Unit)

/-- Evaluate forms one after the other, dropping all values but the last. -/
def evalForms : List Sexp → EvalM σ Unit
  | [] => pure ()
  | [form] => rec form
  | form :: forms => do
      rec form
      drop
      evalForms forms

/-- `eval_begin`. -/
def evalBegin (args : List Sexp) : EvalM σ Unit :=
  if args.isEmpty then push .nil else evalForms rec args

/-- A string literal. -/
def evalString (s : String) : EvalM σ Unit := do
  maybeGc H
  let bytes := s.toUTF8.toList
  let w ← onHeap (some (.boxed (1 + (Heap.packBytes bytes).length))) fun h =>
    H.allocString h bytes
  countAllocation
  push (.str w)

/-- `eval_quote`. -/
def evalQuote : List Sexp → EvalM σ Unit
  | [.number n] => push (.number n)
  | [.bool b] => push (.bool b)
  | [.nil] => push .nil
  | [.symbol s] => push (.symbol s)
  | [.string s] => evalString H s
  | [.list _] => fail (.other "(quote (...)) on a list is not supported in this mini-Lisp")
  | args => fail (.badArity "quote" 1 args.length)

/-- `eval_if`. -/
def evalIf : List Sexp → EvalM σ Unit
  | [test, yes] => do
      rec test
      let cond ← pop
      if cond.isTruthy then rec yes else push .nil
  | [test, yes, no] => do
      rec test
      let cond ← pop
      if cond.isTruthy then rec yes else rec no
  | args => fail (.badArity "if" 3 args.length)

/-- The bindings of a `let`, evaluated in the outer environment: the names. -/
def evalBindings : List Sexp → EvalM σ (List String)
  | [] => pure []
  | .list [.symbol name, expr] :: bindings => do
      rec expr
      let names ← evalBindings bindings
      return name :: names
  | .list [_, _] :: _ => fail (.other "let binding's lhs must be a symbol")
  | _ :: _ => fail (.other "let binding must be a (name expr) pair")

/-- An error that leaves the body of a `let`. -/
def leavingLet {α : Type} (body : EvalM σ α) : EvalM σ α := fun s =>
  match body s with
  | .error (.error e _) s' => .error (.error e true) s'
  | r => r

/-- `eval_let` over its bindings.  The `?` of the body loop returns before `frames.pop`. -/
def evalLetWith (bindings body : List Sexp) : EvalM σ Unit := do
  let s ← get
  let highWater := s.valueStack.length
  let names ← evalBindings rec bindings
  let values ← splitOff highWater
  pushFrame { bindings := names.zip values }
  leavingLet (evalForms rec body)
  modify Interpreter.popFrame

/-- `eval_let`. -/
def evalLet : List Sexp → EvalM σ Unit
  | .list bindings :: form :: body => evalLetWith rec bindings (form :: body)
  | .nil :: form :: body => evalLetWith rec [] (form :: body)
  | _ :: _ :: _ => fail (.other "let: bindings must be a list")
  | _ => fail (.other "let: malformed")

/-- The parameters of a function header. -/
def headerParams : List Sexp → Option (List String)
  | [] => some []
  | p :: ps => do
      let name ← p.asSymbol
      let names ← headerParams ps
      return name :: names

def defineGlobal (name : String) (v : Value) : EvalM σ Unit :=
  modify fun s => { s with globals := insertKey name v s.globals }

/-- `(define (name params...) body...)`. -/
def evalDefineFunction (header body : List Sexp) : EvalM σ Unit :=
  match header with
  | [] => fail (.other "define: empty function header")
  | .symbol fname :: params =>
      match headerParams params with
      | none => fail (.other "define: param must be a symbol")
      | some names => do
          let form := match body with
            | [form] => form
            | forms => .list (.symbol "begin" :: forms)
          modify fun s => { s with
            functions := insertKey fname { params := names, body := form } s.functions }
          push .nil
  | _ :: _ => fail (.other "define: function name must be a symbol")

/-- `eval_define`. -/
def evalDefine : List Sexp → EvalM σ Unit
  | [] => fail (.other "define: no args")
  | [.symbol name, expr] => do
      rec expr
      let v ← pop
      defineGlobal name v
      push .nil
  | .symbol _ :: _ => fail (.other "define: expected (define name value)")
  | .list header :: body => evalDefineFunction header body
  | _ => fail (.other "define: malformed")

/-- Assign to the topmost local binding, or to a global one. -/
def assign (name : String) (v : Value) : EvalM σ Unit := do
  let s ← get
  match assignLocal name v s.frames with
  | some frames => do
      set { s with frames := frames }
      push .nil
  | none =>
      if (s.globals.lookup name).isSome then do
        defineGlobal name v
        push .nil
      else fail (.unbound name)

/-- `eval_set`. -/
def evalSet : List Sexp → EvalM σ Unit
  | [.symbol name, expr] => do
      rec expr
      let v ← pop
      assign name v
  | [_, _] => fail (.other "set!: lhs must be a symbol")
  | args => fail (.badArity "set!" 2 args.length)

/-- `eval_when` and `eval_unless`; `wanted` is the truth value that runs the body. -/
def evalGuarded (name : String) (wanted : Bool) : List Sexp → EvalM σ Unit
  | [] => fail (.other (name ++ ": no args"))
  | test :: body => do
      rec test
      let c ← pop
      if c.isTruthy = wanted then evalBegin rec body else push .nil

/-- The loop of `eval_and` and `eval_or`: the first value that is truthy or not, as `stops` says,
or the last one. -/
def evalUntil (stops : Bool) : List Sexp → EvalM σ Unit
  | [] => push (.bool (!stops))
  | [form] => rec form
  | form :: forms => do
      rec form
      let v ← pop
      if v.isTruthy = stops then push v else evalUntil stops forms

/-! ## Calls -/

/-- Evaluate the arguments, leaving their values on the stack. -/
def evalArgs : List Sexp → EvalM σ Unit
  | [] => pure ()
  | a :: args => do
      rec a
      evalArgs args

/-- `let result = self.eval(&body); self.frames.pop(); result`. -/
def poppingFrame (body : EvalM σ Unit) : EvalM σ Unit := fun s =>
  match body s with
  | .ok a s' => .ok a s'.popFrame
  | .error (.error e l) s' => .error (.error e l) s'.popFrame
  | r => r

/-- The call of a function the program defined. -/
def applyFunction (name : String) (args : List Value) : EvalM σ Unit := do
  let s ← get
  match s.functions.lookup name with
  | none => fail (.unbound name)
  | some fdef =>
      if fdef.params.length = args.length then do
        pushFrame { bindings := fdef.params.zip args }
        modify fun s => { s with
          stats := { s.stats with functionCalls := s.stats.functionCalls + 1 } }
        poppingFrame (rec fdef.body)
      else fail (.badArity name fdef.params.length args.length)

/-- `eval_call`. -/
def evalCall [UnicodeTables] (fuel : Nat) (name : String) (args : List Sexp) : EvalM σ Unit := do
  let s ← get
  let highWater := s.valueStack.length
  evalArgs rec args
  let argValues ← splitOff highWater
  if ← tryBuiltin H fuel name argValues then pure () else applyFunction rec name argValues

/-- The special forms and calls of `eval_list`. -/
def evalSymbolForm [UnicodeTables] (fuel : Nat) (sym : String) (args : List Sexp) : EvalM σ Unit :=
  if sym = "quote" then evalQuote H args
  else if sym = "if" then evalIf rec args
  else if sym = "let" then evalLet rec args
  else if sym = "begin" then evalBegin rec args
  else if sym = "define" then evalDefine rec args
  else if sym = "set!" then evalSet rec args
  else if sym = "when" then evalGuarded rec "when" true args
  else if sym = "unless" then evalGuarded rec "unless" false args
  else if sym = "and" then evalUntil rec false args
  else if sym = "or" then evalUntil rec true args
  else evalCall H rec fuel sym args

/-- `eval_list`. -/
def evalList [UnicodeTables] (fuel : Nat) : List Sexp → EvalM σ Unit
  | [] => push .nil
  | head :: args =>
      match head.asSymbol with
      | some sym => evalSymbolForm H rec fuel sym args
      | none => fail (.other ("head of list isn't a symbol: " ++ head.debug))

def noteStackDepth : EvalM σ Unit :=
  modify fun s => { s with
    stats := { s.stats with maxValueStack := max s.stats.maxValueStack s.valueStack.length } }

/-- The body of `eval`; `rec` evaluates the subexpressions. -/
def evalForm [UnicodeTables] (fuel : Nat) (sexp : Sexp) : EvalM σ Unit := do
  noteStackDepth
  match sexp with
  | .number n => push (.number n)
  | .bool b => push (.bool b)
  | .nil => push .nil
  | .string s => evalString H s
  | .symbol name => do
      let v ← lookup name
      push v
  | .list items => evalList H rec fuel items

end Forms

/-- `eval`: push the value of `sexp`. -/
def eval [UnicodeTables] {σ : Type} (H : Heap σ) : Nat → Sexp → EvalM σ Unit
  | 0, _ => throw .outOfFuel
  | fuel + 1, sexp => evalForm H (eval H fuel) fuel sexp

/-! ## Top-level entry points -/

/-- `eval_top_level`. -/
def evalTopLevel [UnicodeTables] {σ : Type} (H : Heap σ) (fuel : Nat) (sexp : Sexp) : EvalM σ Value := do
  modify fun s => { s with stats := { s.stats with topLevelForms := s.stats.topLevelForms + 1 } }
  eval H fuel sexp
  let s ← get
  match s.valueStack.getLast? with
  | none => fail (.other "eval produced no value")
  | some v => do
      drop
      -- the value is held by no root while the safepoint collects
      maybeGc H
      return v

/-- The loop of `run_source`: the value of the last form. -/
def runForms [UnicodeTables] {σ : Type} (H : Heap σ) (fuel : Nat) : Value → List Sexp → EvalM σ Value
  | last, [] => pure last
  | _, form :: forms => do
      let v ← evalTopLevel H fuel form
      runForms H fuel v forms

/-- `run_source`, given what the reader made of the source. -/
def runSource [UnicodeTables] {σ : Type} (H : Heap σ) (fuel : Nat) (read : Except String (List Sexp)) :
    EvalM σ Value :=
  match read with
  | .error e => fail (.other ("read: " ++ e))
  | .ok forms => runForms H fuel .nil forms

/-- `Interpreter::new` and `from_mutator`, over a fresh heap. -/
def Interpreter.new {σ : Type} (heap : σ) (order : MapOrder) : Interpreter σ where
  heap := heap
  globals := []
  globalsOrder := order
  functions := []
  frames := []
  valueStack := []
  rngState := 0xc0ffee
  gcDriveCounter := 0
  stats :=
    { topLevelForms := 0, functionCalls := 0, minorGcs := 0, majorGcs := 0, allocations := 0,
      maxFrameDepth := 0, maxValueStack := 0 }

end NewGc.Lisp
