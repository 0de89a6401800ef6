import NewGc.Lisp.Types

/-!
# BuiltinTypes — the built-ins meet their types

The rules for evaluations of typed programs: what a value stack of typed values lets each step do,
and that every built-in leaves a value of its result type.  A total one raises no error on arguments
of the types it is total for.
-/

namespace NewGc.Lisp

open Library

variable {σ : Type} {α β : Type}

/-! ## Triples of evaluations -/

/-- The exits of an evaluation: a total one raises no error, and no error leaves a `let`. -/
def Excused (total : Bool) : Exit → Prop
  | .error _ leftLet => total = false ∧ leftLet = false
  | _ => True

/-- The triples of evaluations. -/
abbrev Meets (total : Bool) (P : Interpreter σ → Prop) (m : EvalM σ α)
    (Q : α → Interpreter σ → Prop) : Prop :=
  Triple (Excused total) P m Q

namespace Meets

variable {total : Bool} {P : Interpreter σ → Prop} {Q : α → Interpreter σ → Prop}

theorem fail {e : RunError} (hnot : total = true → False) :
    Meets total P (Lisp.fail e : EvalM σ α) Q := by
  refine Triple.throw ⟨?_, rfl⟩
  cases total with
  | false => rfl
  | true => exact (hnot rfl).elim

theorem panic {d : Option Demand} : Meets total P (throw (.panic d) : EvalM σ α) Q :=
  Triple.throw trivial

theorem orPanic {d : Option Demand} {x : Option α} :
    Meets total P (Lisp.orPanic d x) fun a s => x = some a ∧ P s := by
  cases x with
  | none => exact panic
  | some a => exact Triple.pure fun s hs => ⟨rfl, hs⟩

theorem readHeap {f : σ → Option α} : Meets total P (Lisp.readHeap f) fun _ => P := by
  refine Triple.get_bind fun s hs => orPanic.post ?_
  rintro a s' ⟨-, rfl⟩
  exact hs

/-- No error leaves a body that raises none. -/
theorem leavingLet {m : EvalM σ α} (h : Meets true P m Q) :
    Meets total P (Lisp.leavingLet m) Q := by
  intro s hs
  have hrun := h s hs
  unfold Lisp.leavingLet
  cases hm : m s with
  | ok a s' =>
      rw [hm] at hrun
      exact hrun
  | error e s' =>
      rw [hm] at hrun
      cases e with
      | error e leftLet => cases hrun.1
      | panic d => trivial
      | outOfFuel => trivial

theorem poppingFrame {m : EvalM σ Unit} {Q : Unit → Interpreter σ → Prop}
    (h : Meets total P m fun a s => Q a s.popFrame) : Meets total P (Lisp.poppingFrame m) Q := by
  intro s hs
  have hrun := h s hs
  unfold Lisp.poppingFrame
  cases hm : m s with
  | ok a s' =>
      rw [hm] at hrun
      exact hrun
  | error e s' =>
      rw [hm] at hrun
      cases e with
      | error e leftLet => exact hrun
      | panic d => trivial
      | outOfFuel => trivial

/-! ### The arguments of a built-in -/

theorem arity {name : String} {n : Nat} {args : List Value}
    (hlen : total = true → args.length = n) :
    Meets total P (Lisp.arity name n args : EvalM σ Unit) fun _ => P := by
  unfold Lisp.arity
  split
  · exact Triple.pure fun _ hs => hs
  · rename_i hne
    exact fail fun ht => hne (hlen ht)

theorem expectNumber {place : String} {v : Value} (hv : total = true → Ty.number.Has v) :
    Meets total P (Lisp.expectNumber place v : EvalM σ Int64) fun _ => P := by
  cases v with
  | number n => exact Triple.pure fun _ hs => hs
  | _ => exact fail hv

theorem expectPair {place : String} {v : Value} (hv : total = true → Ty.pair.Has v) :
    Meets total P (Lisp.expectPair place v : EvalM σ Word) fun _ => P := by
  cases v with
  | pair w => exact Triple.pure fun _ hs => hs
  | _ => exact fail hv

theorem expectVector {msg : Value → String} {v : Value} (hv : total = true → Ty.vector.Has v) :
    Meets total P (Lisp.expectVector msg v : EvalM σ Word) fun _ => P := by
  cases v with
  | vector w => exact Triple.pure fun _ hs => hs
  | _ => exact fail hv

theorem expectStr {msg : String} {v : Value} (hv : total = true → Ty.str.Has v) :
    Meets total P (Lisp.expectStr msg v : EvalM σ Word) fun _ => P := by
  cases v with
  | str w => exact Triple.pure fun _ hs => hs
  | _ => exact fail hv

/-- An argument, of the type all arguments are checked for. -/
theorem arg {wants : List Ty} {args : List Value} {i : Nat}
    (hargs : total = true → List.Forall₂ Ty.Has wants args) {f : Value → EvalM σ β}
    {R : β → Interpreter σ → Prop}
    (hf : ∀ v, (∀ τ, wants[i]? = some τ → total = true → τ.Has v) → Meets total P (f v) R) :
    Meets total P (Lisp.arg args i >>= f) R := by
  refine Triple.bind orPanic fun v => Triple.pull fun hv => hf v fun τ hτ ht => ?_
  obtain ⟨hi, rfl⟩ := List.getElem?_eq_some_iff.1 hv
  obtain ⟨hi', rfl⟩ := List.getElem?_eq_some_iff.1 hτ
  exact (hargs ht).get hi' hi

theorem foldNumbers {place : String} {op : Int64 → Int64 → Int64} :
    ∀ {acc : Int64} {args : List Value}, (total = true → ∀ v ∈ args, Ty.number.Has v) →
      Meets total P (Lisp.foldNumbers place op acc args : EvalM σ Int64) fun _ => P
  | _, [], _ => Triple.pure fun _ hs => hs
  | _, a :: _, h => Triple.bind (expectNumber fun ht => h ht a List.mem_cons_self) fun _ =>
      foldNumbers fun ht v hv => h ht v (List.mem_cons_of_mem _ hv)

end Meets

/-! ## The value stack -/

namespace Meets

variable {T : Typing} {s₀ : Interpreter σ} {τs : List Ty} {τ τ' : Ty} {total : Bool}

theorem push {v : Value} (hv : τ.Has v) :
    Meets total (Holding T s₀ τs) (Lisp.push v) fun _ => Holding T s₀ (τs ++ [τ]) :=
  Triple.modify fun _ hs => hs.push hv

theorem pushAny {v : Value} :
    Meets total (Holding T s₀ τs) (Lisp.push v) fun _ => Holding T s₀ (τs ++ [.any]) :=
  push trivial

theorem pop {f : Value → EvalM σ β} {R : β → Interpreter σ → Prop}
    (hf : ∀ v, τ.Has v → Meets total (Holding T s₀ τs) (f v) R) :
    Meets total (Holding T s₀ (τs ++ [τ])) (Lisp.pop >>= f) R := by
  have hpop : Meets total (Holding T s₀ (τs ++ [τ])) (Lisp.pop : EvalM σ Value) fun v s =>
      τ.Has v ∧ Holding T s₀ τs s := by
    refine Triple.get_bind fun s hs => ?_
    obtain ⟨old, v, heq, hv, hrest⟩ := hs.pop
    rw [heq, List.getLast?_concat, List.dropLast_concat]
    exact Triple.bind (Q := fun _ => Holding T s₀ τs) (Triple.set hrest) fun _ =>
      Triple.pure fun _ h => ⟨hv, h⟩
  exact Triple.bind hpop fun v => Triple.pull (hf v)

theorem drop : Meets total (Holding T s₀ (τs ++ [τ])) (Lisp.drop : EvalM σ Unit) fun _ =>
    Holding T s₀ τs := by
  refine Triple.modify fun s hs => ?_
  obtain ⟨old, v, heq, -, hrest⟩ := hs.pop
  rw [heq, List.dropLast_concat]
  exact hrest

/-- Back to the height of the start. -/
theorem splitOff {f : List Value → EvalM σ β} {R : β → Interpreter σ → Prop}
    (hf : ∀ vs, List.Forall₂ Ty.Has τs vs → Meets total (Holding T s₀ []) (f vs) R) :
    Meets total (Holding T s₀ τs) (Lisp.splitOff s₀.valueStack.length >>= f) R := by
  have hsplit : Meets total (Holding T s₀ τs)
      (Lisp.splitOff s₀.valueStack.length : EvalM σ (List Value)) fun vs s =>
        List.Forall₂ Ty.Has τs vs ∧ Holding T s₀ [] s := by
    refine Triple.get_bind fun s hs => ?_
    obtain ⟨old, new, heq, hold, hnew⟩ := hs.values
    rw [heq, hold.length_eq, List.take_left, List.drop_left]
    split
    · exact panic
    · refine Triple.bind (Triple.set (Q := fun _ => Holding T s₀ []) ?_) fun _ =>
        Triple.pure fun _ h => ⟨hnew, h⟩
      exact ⟨hs.conforms.of_same rfl rfl rfl, ⟨hs.scope.frames, hs.scope.globals⟩, old, [],
        (List.append_nil _).symm, hold, .nil⟩
  exact Triple.bind hsplit fun vs => Triple.pull (hf vs)

/-! ### The heap -/

theorem onHeap {d : Option Demand} {f : σ → Option (α × σ)} :
    Meets total (Holding T s₀ τs) (Lisp.onHeap d f) fun _ => Holding T s₀ τs := by
  refine Triple.get_bind fun s hs => Triple.bind orPanic fun r => Triple.pull fun _ => ?_
  obtain ⟨a, heap⟩ := r
  have hheap : Holding T s₀ τs { s with heap := heap } := hs.of_same rfl rfl rfl rfl
  exact Triple.bind (Q := fun _ => Holding T s₀ τs) (Triple.set hheap) fun _ =>
    Triple.pure fun _ h => h

theorem countAllocation :
    Meets total (Holding T s₀ τs) (Lisp.countAllocation : EvalM σ Unit) fun _ => Holding T s₀ τs :=
  Triple.modify fun _ hs => hs.of_same rfl rfl rfl rfl

theorem withRoots {d : Demand} {f : σ → List Word → Option (List Word × σ)} :
    Meets total (Holding T s₀ τs) (Lisp.withRoots d f) fun _ => Holding T s₀ τs := by
  refine Triple.get_bind fun s hs => Triple.bind orPanic fun r => Triple.pull fun _ => ?_
  obtain ⟨roots, heap⟩ := r
  have hheap : Holding T s₀ τs { s with heap := heap } := hs.of_same rfl rfl rfl rfl
  exact Triple.bind orPanic fun s' => Triple.pull fun hscatter =>
    Triple.set (hheap.scatterRoots hscatter)

theorem countMinor :
    Meets total (Holding T s₀ τs) (Lisp.countMinor : EvalM σ Unit) fun _ => Holding T s₀ τs :=
  Triple.modify fun _ hs => hs.of_same rfl rfl rfl rfl

theorem countMajor :
    Meets total (Holding T s₀ τs) (Lisp.countMajor : EvalM σ Unit) fun _ => Holding T s₀ τs :=
  Triple.modify fun _ hs => hs.of_same rfl rfl rfl rfl

variable (H : Heap σ)

theorem doCollect (kind : GcKind) :
    Meets total (Holding T s₀ τs) (Lisp.doCollect H kind) fun _ => Holding T s₀ τs := by
  unfold Lisp.doCollect
  cases H.mode <;> cases kind
  case Direct.Auto =>
    refine Triple.get_bind fun s hs => Triple.bind (withRoots.at_state hs) fun _ => ?_
    split
    · exact countMajor
    · exact countMinor
  all_goals exact Triple.bind withRoots fun _ => by first | exact countMinor | exact countMajor

theorem maybeGc : Meets total (Holding T s₀ τs) (Lisp.maybeGc H) fun _ => Holding T s₀ τs := by
  unfold Lisp.maybeGc
  cases H.mode with
  | Shared =>
      refine Triple.bind withRoots fun _ => Triple.get_bind fun s hs => ?_
      split
      · have hreset : Holding T s₀ τs { s with gcDriveCounter := 0 } := hs.of_same rfl rfl rfl rfl
        exact Triple.bind (Triple.set hreset) fun _ => doCollect H .Minor
      · have hcount : Holding T s₀ τs { s with gcDriveCounter := s.gcDriveCounter + 1 } :=
          hs.of_same rfl rfl rfl rfl
        exact Triple.set hcount
  | Direct =>
      refine Triple.get_bind fun s hs => ?_
      split
      · exact (doCollect H .Auto).at_state hs
      · exact Triple.pure fun _ h => h ▸ hs

/-! ### Runs of values -/

theorem consTop : Meets total (Holding T s₀ (τs ++ [τ] ++ [τ'])) (Lisp.consTop H) fun _ =>
    Holding T s₀ (τs ++ [.pair]) :=
  pop fun _ _ => pop fun _ _ => Triple.bind onHeap fun _ => Triple.bind countAllocation fun _ =>
    push trivial

theorem pushAll : ∀ {vs : List Value} {τs : List Ty},
    Meets total (Holding T s₀ τs) (Lisp.pushAll vs : EvalM σ Unit) fun _ =>
      Holding T s₀ (τs ++ List.replicate vs.length .any)
  | [], τs => Triple.pure fun _ hs => by
      rw [List.length_nil, List.replicate_zero, List.append_nil]
      exact hs
  | v :: vs, τs => by
      have hrest : Meets total (Holding T s₀ (τs ++ [.any])) (Lisp.pushAll vs : EvalM σ Unit)
          fun _ => Holding T s₀ (τs ++ [.any] ++ List.replicate vs.length .any) := pushAll
      rw [List.append_assoc] at hrest
      exact Triple.bind pushAny fun _ => hrest

theorem consLoop : ∀ {n : Nat} {τ : Ty},
    Meets total (Holding T s₀ (τs ++ List.replicate n .any ++ [τ])) (Lisp.consLoop H n) fun _ =>
      Holding T s₀ (τs ++ [.any])
  | 0, τ => Triple.pure fun _ hs => by
      rw [List.replicate_zero, List.append_nil] at hs
      exact hs.weaken
  | n + 1, τ => by
      rw [List.replicate_succ', ← List.append_assoc]
      exact Triple.bind (maybeGc H) fun _ => Triple.bind (consTop H) fun _ => consLoop

theorem popAll : ∀ {n : Nat} {vals : List Value},
    Meets total (Holding T s₀ (τs ++ List.replicate n .any))
      (Lisp.popAll n vals : EvalM σ (List Value)) fun _ => Holding T s₀ τs
  | 0, vals => Triple.pure fun _ hs => by
      rw [List.replicate_zero, List.append_nil] at hs
      exact hs
  | n + 1, vals => by
      rw [List.replicate_succ', ← List.append_assoc]
      exact pop fun v _ => popAll

theorem fillVector {w : Word} : ∀ {vals : List Value} {i : Nat},
    Meets total (Holding T s₀ τs) (Lisp.fillVector H w i vals) fun _ => Holding T s₀ τs
  | [], _ => Triple.pure fun _ hs => hs
  | _ :: _, _ => Triple.bind onHeap fun _ => fillVector

end Meets

/-! ## Built-ins -/

namespace BuiltinMeets

variable {total : Bool} {body : List Value → EvalM σ Unit} {τ : Ty}

end BuiltinMeets

section Builtins

variable {total : Bool} (H : Heap σ)

end Builtins

end NewGc.Lisp
