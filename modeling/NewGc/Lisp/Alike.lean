import NewGc.Lisp.Related

/-!
# Alike — the built-ins over two heaps

Each step of the evaluator, each allocation and each built-in leads related interpreters to related
ones.  A step that moves no object stays in its renaming, an allocation adds a pair to it, and after
a safepoint only what the interpreter holds is still related.
-/

namespace NewGc.Lisp

open Library

variable {σ τ : Type} {H : Heap σ} {K : Heap τ} {C : Contract H} {D : Contract K}

/-! ## Changes of both interpreters -/

namespace Related

variable {φ : Renaming} {s : Interpreter σ} {t : Interpreter τ}

theorem withStack (hR : Related C D φ s t) {vs us : List Value} (h : List.Forall₂ (Same φ) vs us) :
    Related C D φ { s with valueStack := vs } { t with valueStack := us } where
  heap := hR.heap
  valueStack := h
  frames := hR.frames
  globals := hR.globals
  nodup := hR.nodup
  functions := hR.functions
  plain := hR.plain
  rngState := hR.rngState
  allocations := hR.allocations

theorem withFrames (hR : Related C D φ s t) {fs gs : List Frame}
    (h : List.Forall₂ (FrameAlike φ) fs gs) :
    Related C D φ { s with frames := fs } { t with frames := gs } where
  heap := hR.heap
  valueStack := hR.valueStack
  frames := h
  globals := hR.globals
  nodup := hR.nodup
  functions := hR.functions
  plain := hR.plain
  rngState := hR.rngState
  allocations := hR.allocations

theorem withGlobals (hR : Related C D φ s t) {l u : List (String × Value)}
    (h : List.Forall₂ (BindingAlike φ) l u) (hnodup : (l.map (·.1)).Nodup) :
    Related C D φ { s with globals := l } { t with globals := u } where
  heap := hR.heap
  valueStack := hR.valueStack
  frames := hR.frames
  globals := h
  nodup := hnodup
  functions := hR.functions
  plain := hR.plain
  rngState := hR.rngState
  allocations := hR.allocations

theorem withFunctions (hR : Related C D φ s t) {fs : List (String × FunctionDef)}
    (h : ∀ f ∈ fs, f.2.body.asksHeap = false) :
    Related C D φ { s with functions := fs } { t with functions := fs } where
  heap := hR.heap
  valueStack := hR.valueStack
  frames := hR.frames
  globals := hR.globals
  nodup := hR.nodup
  functions := rfl
  plain := h
  rngState := hR.rngState
  allocations := hR.allocations

theorem withRng (hR : Related C D φ s t) (state : UInt64) :
    Related C D φ { s with rngState := state } { t with rngState := state } where
  heap := hR.heap
  valueStack := hR.valueStack
  frames := hR.frames
  globals := hR.globals
  nodup := hR.nodup
  functions := hR.functions
  plain := hR.plain
  rngState := rfl
  allocations := hR.allocations

theorem withStats (hR : Related C D φ s t) {stats stats' : Stats}
    (h : stats'.allocations = stats.allocations) :
    Related C D φ { s with stats := stats } { t with stats := stats' } where
  heap := hR.heap
  valueStack := hR.valueStack
  frames := hR.frames
  globals := hR.globals
  nodup := hR.nodup
  functions := hR.functions
  plain := hR.plain
  rngState := hR.rngState
  allocations := h

theorem popFrame (hR : Related C D φ s t) : Related C D φ s.popFrame t.popFrame :=
  hR.withFrames (forall₂_dropLast hR.frames)

end Related

/-! ## Steps of both interpreters -/

/-- Two steps that move no object. -/
abbrev Steps [UnicodeTables] {α β : Type} (C : Contract H) (D : Contract K) (φ : Renaming) (m : EvalM σ α)
    (m' : EvalM τ β) (R : α → β → Prop) : Prop :=
  InPlace (pairing C D) φ m m' R

/-- A step that returns nothing. -/
abbrev Done (_ _ : Unit) : Prop := True

namespace Steps

variable [UnicodeTables] {α β γ δ : Type} {φ : Renaming} {R : α → β → Prop}
  {Q : Renaming → α → β → Prop}

theorem bind {m : EvalM σ α} {m' : EvalM τ β} {f : α → EvalM σ γ} {g : β → EvalM τ δ}
    {Q : Renaming → γ → δ → Prop} (h : Steps C D φ m m' R)
    (hf : ∀ a b, R a b → Lockstep (pairing C D) φ (f a) (g b) Q) :
    Lockstep (pairing C D) φ (m >>= f) (m' >>= g) Q :=
  InPlace.bind h hf

theorem fail (e : RunError) :
    Lockstep (pairing C D) φ (Lisp.fail e : EvalM σ α) (Lisp.fail e : EvalM τ β) Q :=
  .throw fun _ _ hR => .error (.same e) hR

theorem panic (d : Option Demand) : Lockstep (pairing C D) φ (throw (.panic d) : EvalM σ α)
    (throw (.panic d) : EvalM τ β) Q :=
  .throw fun _ _ _ => .panic

theorem outOfFuel :
    Lockstep (pairing C D) φ (throw .outOfFuel : EvalM σ α) (throw .outOfFuel : EvalM τ β) Q :=
  .throw fun _ _ _ => .outOfFuel

theorem orPanic (d : Option Demand) {x : Option α} {y : Option β} (h : Option.Rel R x y) :
    Steps C D φ (Lisp.orPanic d x) (Lisp.orPanic d y) R := by
  cases h with
  | none => exact panic d
  | some h => exact .pure h

theorem push {a b : Value} (h : Same φ a b) : Steps C D φ (Lisp.push a) (Lisp.push b) Done :=
  .modify fun _ _ hR => hR.withStack (List.rel_append hR.valueStack (.cons h .nil))

theorem drop : Steps C D φ (Lisp.drop : EvalM σ Unit) (Lisp.drop : EvalM τ Unit) Done :=
  .modify fun _ _ hR => hR.withStack (forall₂_dropLast hR.valueStack)

theorem pop : Steps C D φ (Lisp.pop : EvalM σ Value) (Lisp.pop : EvalM τ Value) (Same φ) := by
  refine .get_bind fun s t hR => ?_
  have hlast := forall₂_getLast? hR.valueStack
  revert hlast
  generalize s.valueStack.getLast? = x, t.valueStack.getLast? = y
  intro hlast
  cases hlast with
  | none => exact .error .panic
  | some h => exact .ok (hR.withStack (forall₂_dropLast hR.valueStack)) ⟨rfl, h⟩

theorem splitOff (n : Nat) : Steps C D φ (Lisp.splitOff n : EvalM σ (List Value))
    (Lisp.splitOff n : EvalM τ (List Value)) (List.Forall₂ (Same φ)) := by
  refine .get_bind fun s t hR => ?_
  rw [hR.valueStack.length_eq]
  split
  · exact .error .panic
  · exact .ok (hR.withStack (List.forall₂_take n hR.valueStack))
      ⟨rfl, List.forall₂_drop n hR.valueStack⟩

theorem readHeap {f : σ → Option α} {g : τ → Option β}
    (h : ∀ x y, HeapsAlike C D φ x y → Option.Rel R (f x) (g y)) :
    Steps C D φ (Lisp.readHeap f) (Lisp.readHeap g) R :=
  .get_bind fun s t hR => orPanic none (h s.heap t.heap hR.heap) s t hR

/-- A heap operation that allocates nothing. -/
theorem onHeap {f : σ → Option (Unit × σ)} {g : τ → Option (Unit × τ)}
    (h : ∀ x y, HeapsAlike C D φ x y →
      Option.Rel (fun r r' => HeapsAlike C D φ r.2 r'.2) (f x) (g y)) :
    Steps C D φ (Lisp.onHeap none f) (Lisp.onHeap none g) Done := by
  refine .get_bind fun s t hR => ?_
  have hres := h s.heap t.heap hR.heap
  revert hres
  generalize f s.heap = x, g t.heap = y
  intro hres
  cases hres with
  | none => exact .error .panic
  | some hA => exact .ok (hR.onHeaps le_rfl hA) ⟨rfl, trivial⟩

theorem countAllocation : Steps C D φ (Lisp.countAllocation : EvalM σ Unit)
    (Lisp.countAllocation : EvalM τ Unit) Done :=
  .modify fun _ _ hR => hR.withStats (congrArg (· + 1) hR.allocations)

end Steps

/-! ## Allocation -/

/-- What two allocations give. -/
inductive Allocates (C : Contract H) (D : Contract K) (φ : Renaming) (d : Demand) (tag : Tag) (x : σ)
    (y : τ) : Option (Word × σ) → Option (Word × τ) → Prop
  | left {r : Option (Word × τ)} (h : ∀ s : Interpreter σ, s.heap = x → Refuses H s d) :
      Allocates C D φ d tag x y none r
  | right {r : Option (Word × σ)} (h : ∀ t : Interpreter τ, t.heap = y → Refuses K t d) :
      Allocates C D φ d tag x y r none
  | none : Allocates C D φ d tag x y none none
  | some {w v : Word} {x' : σ} {y' : τ} (ht : Tag.fromBits w = tag)
      (hA : HeapsAlike C D (φ.extend w v) x' y') :
      Allocates C D φ d tag x y (some (w, x')) (some (v, y'))

/-- An allocation leads to a renaming with one more object. -/
theorem Steps.alloc [UnicodeTables] {φ : Renaming} {d : Demand} {tag : Tag} {f : σ → Option (Word × σ)}
    {g : τ → Option (Word × τ)}
    (h : ∀ x y, HeapsAlike C D φ x y → Allocates C D φ d tag x y (f x) (g y)) :
    Lockstep (pairing C D) φ (Lisp.onHeap (some d) f) (Lisp.onHeap (some d) g) fun ψ w v =>
      ψ w v ∧ Tag.fromBits w = tag := by
  refine .get_bind fun s t hR => ?_
  have hres := h s.heap t.heap hR.heap
  revert hres
  generalize hx : f s.heap = x, hy : g t.heap = y
  intro hres
  cases hres with
  | left hrefuses => exact .left ⟨d, rfl, hrefuses s rfl⟩
  | right hrefuses =>
      cases x with
      | none => exact .right ⟨d, rfl, hrefuses t rfl⟩
      | some r => exact .right ⟨d, rfl, hrefuses t rfl⟩
  | none => exact .error .panic
  | some ht hA => exact .ok (hR.onHeaps (φ.le_extend _ _) hA) ⟨Or.inr ⟨rfl, rfl⟩, ht⟩

section Allocation

variable {φ : Renaming} {x : σ} {y : τ}

theorem HeapsAlike.touched (hA : HeapsAlike C D φ x y) {x' : σ} {y' : τ}
    (hs : Untouched H C.blocks x x') (ht : Untouched K D.blocks y y') : HeapsAlike C D φ x' y' :=
  ((hA.untouched hs).flip.untouched ht).flip

/-- `alloc_pair` on both sides. -/
theorem HeapsAlike.allocPair (hA : HeapsAlike C D φ x y) {a b a' b' : Value} (hcar : Same φ a b)
    (hcdr : Same φ a' b') :
    Allocates C D φ .cons .Cons x y (H.allocPair x a a') (K.allocPair y b b') := by
  unfold Heap.allocPair
  cases hx : H.tryAllocConsIn x with
  | mk o x₁ =>
  cases hy : K.tryAllocConsIn y with
  | mk o' y₁ =>
  cases o with
  | none => exact .left (by rintro s rfl; exact congrArg Prod.fst hx)
  | some p =>
  cases o' with
  | none => exact .right (by rintro t rfl; exact congrArg Prod.fst hy)
  | some q =>
  have hcarWord := hcar.word
  have hcdrWord := hcdr.word
  revert hcarWord hcdrWord
  show _ → _ → Allocates C D φ .cons .Cons x y ((valueToWord a).bind fun carWord =>
    (valueToWord a').bind fun cdrWord => some (fromPtr p .Cons,
      H.markCardAt (H.storeAll p [carWord, cdrWord] x₁) p)) ((valueToWord b).bind fun carWord =>
    (valueToWord b').bind fun cdrWord => some (fromPtr q .Cons,
      K.markCardAt (K.storeAll q [carWord, cdrWord] y₁) q))
  generalize valueToWord a = u, valueToWord b = v, valueToWord a' = u', valueToWord b' = v'
  intro hcarWord hcdrWord
  cases hcarWord with
  | none => exact .none
  | @some w v hcarWord =>
      cases hcdrWord with
      | none => exact .none
      | @some w' v' hcdrWord =>
          have hs := C.filled (C.allocCons hx) [w, w'] (Nat.le_succ 1) rfl
          have ht := D.filled (D.allocCons hy) [v, v'] (Nat.le_succ 1) rfl
          have hcells : List.Forall₂ (WordAlike φ) [w, w'] [v, v'] :=
            .cons hcarWord (.cons hcdrWord .nil)
          have htag := fromBits_fromPtr hs.aligned .Cons
          have hfilled := hA.filled .Cons hs ht rfl rfl rfl rfl
            (fun i x' y' _ hx' hy' => forall₂_at hcells hx' hy')
            (fun i x' y' hfield => absurd (Or.inl htag) hfield)
          exact .some htag (hfilled.touched (C.markCardAt _ _) (D.markCardAt _ _))

theorem forall₂_replicate {a b : Word} (hab : WordAlike φ a b) :
    ∀ n, List.Forall₂ (WordAlike φ) (List.replicate n a) (List.replicate n b)
  | 0 => .nil
  | n + 1 => .cons hab (forall₂_replicate hab n)

/-- `alloc_vector` on both sides. -/
theorem HeapsAlike.allocVector (hA : HeapsAlike C D φ x y) (n : Nat) {a b : Value}
    (hinit : Same φ a b) :
    Allocates C D φ (.boxed (1 + n)) .Vector x y (H.allocVector x n a) (K.allocVector y n b) := by
  unfold Heap.allocVector
  cases hx : H.tryAllocBoxedIn x (1 + n) with
  | mk o x₁ =>
  cases hy : K.tryAllocBoxedIn y (1 + n) with
  | mk o' y₁ =>
  cases o with
  | none => exact .left (by rintro s rfl; exact congrArg Prod.fst hx)
  | some p =>
  cases o' with
  | none => exact .right (by rintro t rfl; exact congrArg Prod.fst hy)
  | some q =>
  have hword := hinit.word
  revert hword
  show _ → Allocates C D φ (.boxed (1 + n)) .Vector x y
    ((valueToWord a).bind fun w => some (fromPtr p .Vector,
      H.storeAll p (heapHeader .Vector n :: List.replicate n w) x₁))
    ((valueToWord b).bind fun v => some (fromPtr q .Vector,
      K.storeAll q (heapHeader .Vector n :: List.replicate n v) y₁))
  generalize valueToWord a = u, valueToWord b = u'
  intro hword
  cases hword with
  | none => exact .none
  | @some w v hword =>
      have hpos : 1 ≤ 1 + n := Nat.le_add_right 1 n
      have hlen : ∀ w : Word,
          (heapHeader .Vector n :: List.replicate n w).length = (Block.boxed (1 + n)).cells := by
        intro w
        rw [List.length_cons, List.length_replicate, Nat.add_comm]
        rfl
      have hs := C.filled (C.allocBoxed hpos hx) (heapHeader .Vector n :: List.replicate n w) hpos
        (hlen w)
      have ht := D.filled (D.allocBoxed hpos hy) (heapHeader .Vector n :: List.replicate n v) hpos
        (hlen v)
      have htag := fromBits_fromPtr hs.aligned .Vector
      have hheads : Heads .Vector (heapHeader .Vector n) (.boxed (1 + n)) :=
        ⟨Nat.add_le_add_left (headerLengthCells_le _ n) 1, Or.inl ⟨rfl, headerTy_heapHeader _ n⟩⟩
      refine .some htag (hA.filled .Vector hs ht hheads hheads (hlen w) (hlen v) ?_ ?_)
      · intro i x' y' hfield hx' hy'
        cases i with
        | zero =>
            rcases hfield with hcons | ⟨-, hle⟩
            · rw [htag] at hcons
              cases hcons
            · exact absurd hle (by decide)
        | succ i => exact forall₂_at (forall₂_replicate hword n) hx' hy'
      · intro i x' y' hfield hx' hy'
        cases i with
        | zero =>
            -- the header
            rw [List.getElem?_cons_zero, Option.some.injEq] at hx' hy'
            exact hx'.symm.trans hy'
        | succ i => exact absurd (Or.inr ⟨htag, Nat.le_add_left 1 i⟩) hfield

/-- `alloc_string` on both sides. -/
theorem HeapsAlike.allocString (hA : HeapsAlike C D φ x y) (bytes : List UInt8) :
    Allocates C D φ (.boxed (1 + (Heap.packBytes bytes).length)) .String x y
      (H.allocString x bytes) (K.allocString y bytes) := by
  unfold Heap.allocString
  generalize hpayload : Heap.packBytes bytes = payload
  dsimp only
  cases hx : H.tryAllocBoxedIn x (1 + payload.length) with
  | mk o x₁ =>
  cases hy : K.tryAllocBoxedIn y (1 + payload.length) with
  | mk o' y₁ =>
  cases o with
  | none => exact .left (by rintro s rfl; exact congrArg Prod.fst hx)
  | some p =>
  cases o' with
  | none => exact .right (by rintro t rfl; exact congrArg Prod.fst hy)
  | some q =>
  have hpos : 1 ≤ 1 + payload.length := Nat.le_add_right 1 _
  have hlen : (heapHeader .String payload.length :: payload).length =
      (Block.boxed (1 + payload.length)).cells := by
    rw [List.length_cons, Nat.add_comm]
    rfl
  have hs := C.filled (C.allocBoxed hpos hx) (heapHeader .String payload.length :: payload) hpos hlen
  have ht := D.filled (D.allocBoxed hpos hy) (heapHeader .String payload.length :: payload) hpos hlen
  have htag := fromBits_fromPtr hs.aligned .String
  have hheads : Heads .String (heapHeader .String payload.length) (.boxed (1 + payload.length)) :=
    ⟨Nat.add_le_add_left (headerLengthCells_le _ _) 1, Or.inr ⟨rfl, headerTy_heapHeader _ _⟩⟩
  refine .some htag (hA.filled .String hs ht hheads hheads hlen hlen ?_ ?_)
  · -- a string has no fields
    rintro i x' y' (hcons | ⟨hvector, -⟩)
    · rw [htag] at hcons
      cases hcons
    · rw [htag] at hvector
      cases hvector
  · intro i x' y' _ hx' hy'
    rw [hx', Option.some.injEq] at hy'
    exact hy'

/-- `vector_set` on both sides. -/
theorem HeapsAlike.vectorSet (hA : HeapsAlike C D φ x y) {w v : Word} (h : φ w v)
    (ht : Tag.fromBits w = .Vector) (idx : Nat) {a b : Value} (hab : Same φ a b) :
    Option.Rel (HeapsAlike C D φ) (H.vectorSet x w idx a) (K.vectorSet y v idx b) := by
  have hne : Tag.fromBits w ≠ .Cons := by
    rw [ht]
    decide
  unfold Heap.vectorSet
  rw [hA.vectorLen h hne]
  split
  · exact .none
  · rename_i hlt
    have hi : 1 + idx < H.extent x w := by
      rw [HeapsAlike.extent_eq hne]
      exact Nat.add_lt_add_left (Nat.lt_of_not_le hlt) 1
    have hword := hab.word
    revert hword
    generalize valueToWord a = u, valueToWord b = u'
    intro hword
    cases hword with
    | none => exact .none
    | some hword =>
        have hstored := hA.store h hi (Or.inr ⟨ht, Nat.le_add_right 1 idx⟩) hword
        exact .some (hstored.touched (C.markCardAt _ _) (D.markCardAt _ _))

end Allocation

/-! ## Built-ins -/

theorem rel_of_eq {α : Type} {o o' : Option α} (h : o' = o) : Option.Rel Eq o o' := by
  subst h
  cases o' with
  | none => exact .none
  | some a => exact .some rfl

variable [UnicodeTables]

namespace Steps

variable {φ : Renaming} {args args' vals vals' : List Value} {a b : Value}

theorem goes {m : EvalM σ Unit} {m' : EvalM τ Unit} (h : Steps C D φ m m' Done) :
    Goes C D φ m m' :=
  h.mono fun _ _ _ _ => trivial

theorem arity (h : List.Forall₂ (Same φ) args args') (name : String) (n : Nat) :
    Steps C D φ (Lisp.arity name n args) (Lisp.arity name n args') Done := by
  unfold Lisp.arity
  rw [h.length_eq]
  split
  · exact .pure trivial
  · exact fail _

theorem arg (h : List.Forall₂ (Same φ) args args') (i : Nat) :
    Steps C D φ (Lisp.arg args i) (Lisp.arg args' i) (Same φ) :=
  orPanic none (forall₂_getElem? h i)

theorem expectNumber (place : String) (h : Same φ a b) :
    Steps C D φ (Lisp.expectNumber place a) (Lisp.expectNumber place b) Eq := by
  cases h <;> first | exact .pure rfl | exact fail _

theorem expectPair (place : String) (h : Same φ a b) :
    Steps C D φ (Lisp.expectPair place a) (Lisp.expectPair place b) fun w v =>
      φ w v ∧ Tag.fromBits w = .Cons := by
  cases h <;> first | exact .pure ⟨‹_›, ‹_›⟩ | exact fail _

theorem expectVector {msg : Value → String} (hmsg : ∀ {a b}, Same φ a b → msg b = msg a)
    (h : Same φ a b) : Steps C D φ (Lisp.expectVector msg a) (Lisp.expectVector msg b) fun w v =>
      φ w v ∧ Tag.fromBits w = .Vector := by
  have heq := hmsg h
  cases h with
  | vector h ht => exact .pure ⟨h, ht⟩
  | @pair w v h ht =>
      show Steps C D φ (Lisp.fail (.typeError (msg (.pair w))))
        (Lisp.fail (.typeError (msg (.pair v)))) _
      rw [heq]
      exact fail _
  | @str w v h ht =>
      show Steps C D φ (Lisp.fail (.typeError (msg (.str w))))
        (Lisp.fail (.typeError (msg (.str v)))) _
      rw [heq]
      exact fail _
  | number n => exact fail _
  | bool b => exact fail _
  | nil => exact fail _
  | symbol name => exact fail _

theorem expectStr (msg : String) (h : Same φ a b) :
    Steps C D φ (Lisp.expectStr msg a) (Lisp.expectStr msg b) fun w v =>
      φ w v ∧ Tag.fromBits w = .String := by
  cases h <;> first | exact .pure ⟨‹_›, ‹_›⟩ | exact fail _

/-- An argument that must be a number. -/
theorem argNumber (h : List.Forall₂ (Same φ) args args') (place : String) (i : Nat)
    {f : Int64 → EvalM σ Unit} {g : Int64 → EvalM τ Unit} (hf : ∀ n, Goes C D φ (f n) (g n)) :
    Goes C D φ (Lisp.arg args i >>= fun v => Lisp.expectNumber place v >>= f)
      (Lisp.arg args' i >>= fun v => Lisp.expectNumber place v >>= g) := by
  refine Steps.bind (arg h i) fun a b hab => Steps.bind (expectNumber place hab) ?_
  rintro n _ rfl
  exact hf n

theorem foldNumbers (place : String) (op : Int64 → Int64 → Int64)
    (h : List.Forall₂ (Same φ) args args') (acc : Int64) :
    Steps C D φ (Lisp.foldNumbers place op acc args) (Lisp.foldNumbers place op acc args') Eq := by
  induction h generalizing acc with
  | nil => exact .pure rfl
  | cons hab _ ih =>
      refine Steps.bind (expectNumber place hab) ?_
      rintro n _ rfl
      exact ih (op acc n)

theorem pushAll (h : List.Forall₂ (Same φ) args args') :
    Steps C D φ (Lisp.pushAll args) (Lisp.pushAll args') Done := by
  induction h with
  | nil => exact .pure trivial
  | cons hab _ ih => exact Steps.bind (push hab) fun _ _ _ => ih

theorem popAll (n : Nat) (h : List.Forall₂ (Same φ) vals vals') :
    Steps C D φ (Lisp.popAll n vals) (Lisp.popAll n vals') (List.Forall₂ (Same φ)) := by
  induction n generalizing vals vals' with
  | zero => exact .pure h
  | succ n ih => exact Steps.bind pop fun _ _ hab => ih (.cons hab h)

theorem vectorSet {w v : Word} (hw : φ w v) (ht : Tag.fromBits w = .Vector) (i : Nat)
    (hab : Same φ a b) :
    Steps C D φ (Lisp.onHeap none fun h => (H.vectorSet h w i a).map fun h => ((), h))
      (Lisp.onHeap none fun h => (K.vectorSet h v i b).map fun h => ((), h)) Done := by
  refine onHeap fun x y hA => ?_
  have hset := hA.vectorSet hw ht i hab
  revert hset
  generalize H.vectorSet x w i a = o, K.vectorSet y v i b = o'
  intro hset
  cases hset with
  | none => exact .none
  | some hA => exact .some hA

theorem fillVector {w v : Word} (hw : φ w v) (ht : Tag.fromBits w = .Vector) (i : Nat)
    (h : List.Forall₂ (Same φ) vals vals') :
    Steps C D φ (Lisp.fillVector H w i vals) (Lisp.fillVector K v i vals') Done := by
  induction h generalizing i with
  | nil => exact .pure trivial
  | cons hab _ ih => exact Steps.bind (vectorSet hw ht i hab) fun _ _ _ => ih (i + 1)

end Steps

/-- A built-in of the one heap and its counterpart of the other, on the same arguments. -/
def BuiltinAlike (C : Contract H) (D : Contract K) (body : List Value → EvalM σ Unit)
    (body' : List Value → EvalM τ Unit) : Prop :=
  ∀ φ args args', List.Forall₂ (Same φ) args args' → Goes C D φ (body args) (body' args')

section Builtins

theorem builtinFold_alike (place : String) (op : Int64 → Int64 → Int64) (unit : Int64) :
    BuiltinAlike C D (builtinFold place op unit) (builtinFold place op unit) := by
  intro φ args args' h
  refine Steps.bind (.foldNumbers place op h unit) ?_
  rintro acc _ rfl
  exact (Steps.push (.number acc)).goes

theorem builtinSub_alike : BuiltinAlike C D builtinSub builtinSub := by
  intro φ args args' h
  match args, args', h with
  | [], [], .nil => exact Steps.fail _
  | [a], [b], .cons hab .nil =>
      refine Steps.bind (.expectNumber "-" hab) ?_
      rintro n _ rfl
      exact (Steps.push (.number _)).goes
  | a :: a' :: args, b :: b' :: args', .cons hab hrest =>
      refine Steps.bind (.expectNumber "-" hab) ?_
      rintro n _ rfl
      refine Steps.bind (.foldNumbers "-" (· - ·) hrest n) ?_
      rintro acc _ rfl
      exact (Steps.push (.number acc)).goes

theorem builtinCompare_alike (name : String) (op : Int64 → Int64 → Bool) :
    BuiltinAlike C D (builtinCompare name op) (builtinCompare name op) := fun _ _ _ h =>
  Steps.bind (.arity h name 2) fun _ _ _ => Steps.argNumber h name 0 fun _ =>
    Steps.argNumber h name 1 fun _ => (Steps.push (.bool _)).goes

/-- The two topmost values become a pair. -/
theorem consTop_goes (φ : Renaming) : Goes C D φ (consTop H) (consTop K) :=
  Steps.bind .pop fun _ _ hcdr => Steps.bind .pop fun _ _ hcar =>
    Lockstep.bind (Steps.alloc fun _ _ hA => hA.allocPair hcar hcdr) fun _ _ _ hpair =>
      Steps.bind .countAllocation fun _ _ _ => (Steps.push (.pair hpair.1 hpair.2)).goes

theorem builtinCons_alike : BuiltinAlike C D (builtinCons H) (builtinCons K) := fun φ _ _ h =>
  Steps.bind (.arity h "cons" 2) fun _ _ _ => Steps.bind (.arg h 0) fun _ _ hcar =>
    Steps.bind (.push hcar) fun _ _ _ => Steps.bind (.arg h 1) fun _ _ hcdr =>
      Steps.bind (.push hcdr) fun _ _ _ => Lockstep.bind (Goes.maybeGc φ) fun ψ _ _ _ =>
        consTop_goes ψ

theorem builtinField_alike (name : String) {field : σ → Word → Option Value}
    {field' : τ → Word → Option Value}
    (hfield : ∀ {φ x y w v}, HeapsAlike C D φ x y → φ w v → Tag.fromBits w = .Cons →
      Option.Rel (Same φ) (field x w) (field' y v)) :
    BuiltinAlike C D (builtinField name field) (builtinField name field') := fun _ _ _ h =>
  Steps.bind (.arity h name 1) fun _ _ _ => Steps.bind (.arg h 0) fun _ _ hab =>
    Steps.bind (.expectPair name hab) fun _ _ hp =>
      Steps.bind (.readHeap fun _ _ hA => hfield hA hp.1 hp.2) fun _ _ hv => (Steps.push hv).goes

theorem builtinIs_alike (name : String) {p : Value → Bool}
    (hp : ∀ {φ a b}, Same φ a b → p b = p a) :
    BuiltinAlike C D (builtinIs name p) (builtinIs name p) := by
  intro φ args args' h
  refine Steps.bind (.arity h name 1) fun _ _ _ => Steps.bind (.arg h 0) fun a b hab => ?_
  rw [hp hab]
  exact (Steps.push (.bool _)).goes

theorem builtinEq_alike : BuiltinAlike C D builtinEq builtinEq := by
  intro φ args args' h
  refine Steps.bind (.arity h "eq?" 2) fun _ _ _ => Steps.bind (.arg h 0) fun a b hab =>
    Steps.bind (.arg h 1) fun a' b' hab' s t hR => ?_
  rw [hR.heap.valueEq hab hab']
  exact (Steps.push (.bool _)).goes s t hR

theorem consLoop_goes (n : Nat) (φ : Renaming) : Goes C D φ (consLoop H n) (consLoop K n) := by
  induction n generalizing φ with
  | zero => exact .pure trivial
  | succ n ih =>
      exact Lockstep.bind (Goes.maybeGc φ) fun ψ _ _ _ => Lockstep.bind (consTop_goes ψ)
        fun χ _ _ _ => ih χ

theorem builtinList_alike : BuiltinAlike C D (builtinList H) (builtinList K) := by
  intro φ args args' h
  refine Steps.bind (.pushAll h) fun _ _ _ => Steps.bind (.push .nil) fun _ _ _ => ?_
  rw [h.length_eq]
  exact consLoop_goes _ φ

theorem builtinLength_alike (fuel : Nat) :
    BuiltinAlike C D (builtinLength H fuel) (builtinLength K fuel) := by
  intro φ args args' h
  refine Steps.bind (.arity h "length" 1) fun _ _ _ => Steps.bind (.arg h 0) fun a b hab => ?_
  refine Steps.bind (.readHeap fun x y hA => rel_of_eq (hA.listLength fuel hab)) ?_
  rintro n _ rfl
  cases n with
  | some n => exact (Steps.push (.number _)).goes
  | none =>
      show Goes C D φ (fail (.typeError ("length: not a list (" ++ a.typeName ++ ")")))
        (fail (.typeError ("length: not a list (" ++ b.typeName ++ ")")))
      rw [hab.typeName]
      exact Steps.fail _

theorem builtinMakeVector_alike :
    BuiltinAlike C D (builtinMakeVector H) (builtinMakeVector K) := by
  intro φ args args' h
  refine Steps.bind (.arity h "make-vector" 2) fun _ _ _ => Steps.argNumber h _ 0 fun n => ?_
  split
  · exact Steps.fail _
  · exact Steps.bind (.arg h 1) fun _ _ hinit => Steps.bind (.push hinit) fun _ _ _ =>
      Lockstep.bind (Goes.maybeGc φ) fun ψ _ _ _ => Steps.bind .pop fun _ _ hinit =>
        Lockstep.bind (Steps.alloc fun _ _ hA => hA.allocVector _ hinit) fun _ _ _ hvector =>
          Steps.bind .countAllocation fun _ _ _ =>
            (Steps.push (.vector hvector.1 hvector.2)).goes

theorem builtinVector_alike : BuiltinAlike C D (builtinVector H) (builtinVector K) := by
  intro φ args args' h
  unfold builtinVector
  rw [h.length_eq]
  -- the vector is filled from the stack: the arguments may have moved
  exact Steps.bind (.pushAll h) fun _ _ _ => Lockstep.bind (Goes.maybeGc φ) fun _ _ _ _ =>
    Lockstep.bind (Steps.alloc fun _ _ hA => hA.allocVector _ .nil) fun _ _ _ hvector =>
      Steps.bind .countAllocation fun _ _ _ => Steps.bind (.popAll _ .nil) fun _ _ hvals =>
        Steps.bind (.fillVector hvector.1 hvector.2 0 hvals) fun _ _ _ =>
          (Steps.push (.vector hvector.1 hvector.2)).goes

theorem builtinVectorRef_alike : BuiltinAlike C D (builtinVectorRef H) (builtinVectorRef K) :=
  fun _ _ _ h => Steps.bind (.arity h "vector-ref" 2) fun _ _ _ =>
    Steps.bind (.arg h 0) fun _ _ hab =>
      Steps.bind (.expectVector (fun hab => by rw [hab.typeName]) hab) fun _ _ hv =>
        Steps.argNumber h "vector-ref" 1 fun n =>
          Steps.bind (.readHeap fun _ _ hA => hA.vectorRef hv.1 hv.2 (toUsize n))
            fun _ _ hr => (Steps.push hr).goes

theorem builtinVectorSet_alike : BuiltinAlike C D (builtinVectorSet H) (builtinVectorSet K) :=
  fun _ _ _ h => Steps.bind (.arity h "vector-set!" 3) fun _ _ _ =>
    Steps.bind (.arg h 0) fun _ _ hab =>
      Steps.bind (.expectVector (fun _ => rfl) hab) fun _ _ hv =>
        Steps.argNumber h "vector-set!" 1 fun n => Steps.bind (.arg h 2) fun _ _ hnew =>
          Steps.bind (.vectorSet hv.1 hv.2 (toUsize n) hnew) fun _ _ _ => (Steps.push .nil).goes

theorem builtinVectorLength_alike :
    BuiltinAlike C D (builtinVectorLength H) (builtinVectorLength K) := by
  intro φ args args' h
  refine Steps.bind (.arity h "vector-length" 1) fun _ _ _ => Steps.bind (.arg h 0)
    fun a b hab => Steps.bind (.expectVector (fun _ => rfl) hab) fun w v hv => ?_
  have hne : Tag.fromBits w ≠ .Cons := by
    rw [hv.2]
    decide
  refine Steps.bind (.readHeap fun x y hA =>
    rel_of_eq (congrArg some (hA.vectorLen hv.1 hne))) ?_
  rintro n _ rfl
  exact (Steps.push (.number _)).goes

theorem builtinStringLength_alike :
    BuiltinAlike C D (builtinStringLength H) (builtinStringLength K) := by
  intro φ args args' h
  refine Steps.bind (.arity h "string-length" 1) fun _ _ _ => Steps.bind (.arg h 0)
    fun a b hab => Steps.bind (.expectStr _ hab) fun w v hw => ?_
  refine Steps.bind (.readHeap fun x y hA =>
    rel_of_eq (congrArg (some ·.length) (hA.stringBytes hw.1 hw.2))) ?_
  rintro n _ rfl
  exact (Steps.push (.number _)).goes

theorem builtinGc_alike (name : String) (kind : GcKind) :
    BuiltinAlike C D (builtinGc H name kind) (builtinGc K name kind) := fun φ _ _ h =>
  Steps.bind (.arity h name 0) fun _ _ _ => Lockstep.bind (Goes.doCollect φ kind) fun _ _ _ _ =>
    (Steps.push .nil).goes

theorem builtinAllocations_alike (name : String) :
    BuiltinAlike C D (builtinStat name (·.stats.allocations))
      (builtinStat name (·.stats.allocations)) := by
  intro φ args args' h
  refine Steps.bind (.arity h name 0) fun _ _ _ => .get_bind fun s t hR => ?_
  show Agree _ _ (push (.number (Int64.ofNat s.stats.allocations)) s)
    (push (.number (Int64.ofNat t.stats.allocations)) t)
  rw [hR.allocations]
  exact (Steps.push (.number _)).goes s t hR

theorem builtinRandom_alike : BuiltinAlike C D builtinRandom builtinRandom := by
  intro φ args args' h
  refine Steps.bind (.arity h "random" 1) fun _ _ _ => Steps.argNumber h "random" 0 fun n => ?_
  split
  · exact Steps.fail _
  · refine .get_bind fun s t hR => ?_
    rw [hR.rngState]
    exact (Steps.push (.number _)).goes _ _ (hR.withRng (nextRng s.rngState))

theorem builtinRandomSeed_alike : BuiltinAlike C D builtinRandomSeed builtinRandomSeed :=
  fun _ _ _ h => Steps.bind (.arity h "random-seed!" 1) fun _ _ _ =>
    Steps.argNumber h "random-seed!" 0 fun n =>
      Steps.bind (.modify fun _ _ hR => hR.withRng (n.toUInt64 ||| 1)) fun _ _ _ =>
        (Steps.push .nil).goes

theorem builtinAssert_alike : BuiltinAlike C D builtinAssert builtinAssert := by
  intro φ args args' h
  refine Steps.bind (.arity h "assert" 1) fun _ _ _ => Steps.bind (.arg h 0) fun a b hab => ?_
  -- what fails the assertion is no heap value
  cases hab with
  | bool b =>
      cases b with
      | true => exact (Steps.push .nil).goes
      | false => exact Steps.fail _
  | nil => exact Steps.fail _
  | number n => exact (Steps.push .nil).goes
  | symbol name => exact (Steps.push .nil).goes
  | pair hw ht => exact (Steps.push .nil).goes
  | vector hw ht => exact (Steps.push .nil).goes
  | str hw ht => exact (Steps.push .nil).goes

theorem builtinCheckEqual_alike :
    BuiltinAlike C D (builtinCheckEqual H) (builtinCheckEqual K) := by
  intro φ args args' h
  refine Steps.bind (.arity h "check-equal" 2) fun _ _ _ => Steps.bind (.arg h 0)
    fun a b hab => Steps.bind (.arg h 1) fun a' b' hab' => ?_
  refine Steps.bind (.readHeap fun x y hA =>
    rel_of_eq (congrArg some (hA.checkEq hab hab'))) ?_
  rintro eq _ rfl
  cases eq with
  | true => exact (Steps.push .nil).goes
  | false => exact .throw fun s t hR => .error (.checkEqual hab.moved hab'.moved) hR

theorem builtinSetGcThreshold_alike :
    BuiltinAlike C D (builtinSetGcThreshold H) (builtinSetGcThreshold K) := by
  intro φ args args' h
  refine Steps.bind (.arity h "set-gc-threshold!" 1) fun _ _ _ =>
    Steps.argNumber h "set-gc-threshold!" 0 fun n => ?_
  split
  · exact Steps.fail _
  · refine Steps.bind (.onHeap fun x y hA => .some ?_) fun _ _ _ => (Steps.push .nil).goes
    refine hA.touched ?_ ?_
    · split
      · exact C.setGcBudgetMinBytes _ _
      · exact ⟨fun _ => rfl, rfl⟩
    · split
      · exact D.setGcBudgetMinBytes _ _
      · exact ⟨fun _ => rfl, rfl⟩

theorem builtinError_alike : BuiltinAlike C D (builtinError H) (builtinError K) := by
  intro φ args args' h
  cases h with
  | nil => exact Steps.fail _
  | cons hab _ =>
      cases hab with
      | str hw ht =>
          refine Steps.bind (.readHeap fun x y hA =>
            rel_of_eq (congrArg some (hA.stringBytes hw ht))) ?_
          rintro bytes _ rfl
          exact Steps.fail _
      | number n => exact Steps.fail _
      | bool b => exact Steps.fail _
      | nil => exact Steps.fail _
      | symbol name => exact Steps.fail _
      | pair hw ht => exact Steps.fail _
      | vector hw ht => exact Steps.fail _

/-- One row of the two tables of built-ins. -/
def RowAlike (C : Contract H) (D : Contract K) (b : String × (List Value → EvalM σ Unit))
    (b' : String × (List Value → EvalM τ Unit)) : Prop :=
  b.1 = b'.1 ∧ (b.1 ∉ heapQueries → BuiltinAlike C D b.2 b'.2)

theorem RowAlike.query {name : String} {body : List Value → EvalM σ Unit}
    {body' : List Value → EvalM τ Unit} (h : name ∈ heapQueries) :
    RowAlike C D (name, body) (name, body') :=
  ⟨rfl, fun hname => absurd h hname⟩

theorem builtins_alike (fuel : Nat) :
    List.Forall₂ (RowAlike C D) (builtins H fuel) (builtins K fuel) := by
  unfold builtins
  have row : ∀ {name : String} {body : List Value → EvalM σ Unit}
      {body' : List Value → EvalM τ Unit}, BuiltinAlike C D body body' →
        RowAlike C D (name, body) (name, body') := fun h => ⟨rfl, fun _ => h⟩
  refine .cons (row (builtinFold_alike _ _ _)) <| .cons (row builtinSub_alike) <|
    .cons (row (builtinFold_alike _ _ _)) <| .cons (row (builtinCompare_alike _ _)) <|
    .cons (row (builtinCompare_alike _ _)) <| .cons (row (builtinCompare_alike _ _)) <|
    .cons (row builtinCons_alike) <|
    .cons (row (builtinField_alike _ fun hA hw ht => hA.pairCar hw ht)) <|
    .cons (row (builtinField_alike _ fun hA hw ht => hA.pairCdr hw ht)) <|
    .cons (row (builtinIs_alike _ fun h => ?_)) <| .cons (row (builtinIs_alike _ fun h => ?_)) <|
    .cons (row (builtinIs_alike _ fun h => ?_)) <| .cons (row (builtinIs_alike _ fun h => ?_)) <|
    .cons (row (builtinIs_alike _ fun h => ?_)) <| .cons (row builtinEq_alike) <|
    .cons (row builtinList_alike) <| .cons (row (builtinLength_alike fuel)) <|
    .cons (row builtinMakeVector_alike) <| .cons (row builtinVector_alike) <|
    .cons (row builtinVectorRef_alike) <| .cons (row builtinVectorSet_alike) <|
    .cons (row builtinVectorLength_alike) <| .cons (row builtinStringLength_alike) <|
    .cons (row (builtinGc_alike _ _)) <| .cons (row (builtinGc_alike _ _)) <|
    .cons (row (builtinGc_alike _ _)) <| .cons (.query (by decide)) <| .cons (.query (by decide)) <|
    .cons (row (builtinAllocations_alike _)) <| .cons (.query (by decide)) <|
    .cons (.query (by decide)) <| .cons (.query (by decide)) <| .cons (.query (by decide)) <|
    .cons (.query (by decide)) <| .cons (.query (by decide)) <| .cons (row builtinRandom_alike) <|
    .cons (row builtinRandomSeed_alike) <| .cons (row builtinAssert_alike) <|
    .cons (row builtinCheckEqual_alike) <| .cons (row builtinSetGcThreshold_alike) <|
    .cons (row builtinError_alike) .nil
  all_goals cases h <;> rfl

end Builtins

end NewGc.Lisp
