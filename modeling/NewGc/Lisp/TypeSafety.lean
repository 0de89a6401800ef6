import NewGc.Lisp.BuiltinTypes

/-!
# TypeSafety — typed programs leave no frame behind

From a state that conforms to a typing the evaluation of a typed form ends in a state that conforms,
with a value of the form's type on top.  A total form raises no error, and no error comes out of the
body of a `let`, so that the stacks are balanced on every exit.
-/

namespace NewGc.Lisp

open Library

variable {σ : Type} {α β : Type}

/-! ## Special forms -/

/-- In every scope that binds the names `b` the evaluation leaves a value of the type. -/
def SoundEval (T : Typing) (total : Bool) (b : List String) (τ : Ty) (m : EvalM σ Unit) : Prop :=
  ∀ (s₀ : Interpreter σ) (τs : List Ty), (∀ x ∈ b, Bound s₀ x) →
    Meets total (Holding T s₀ τs) m fun _ => Holding T s₀ (τs ++ [τ])

section Forms

variable {H : Heap σ} {rec : Sexp → EvalM σ Unit} {T : Typing} {total : Bool} {b : List String}
  {τ : Ty}

theorem SoundEval.push {v : Value} (hv : τ.Has v) :
    SoundEval T total b τ (Lisp.push v : EvalM σ Unit) :=
  fun _ _ _ => Meets.push hv

theorem SoundEval.fail {e : RunError} (hnot : total = true → False) :
    SoundEval T total b τ (Lisp.fail e : EvalM σ Unit) :=
  fun _ _ _ => Meets.fail hnot

theorem Holding.defineGlobal {s₀ s : Interpreter σ} {τs : List Ty} {x : String} {v : Value}
    (h : Holding T s₀ τs s) (hv : (T.names x).Has v) :
    Holding T s₀ τs { s with globals := insertKey x v s.globals } := by
  have hC := h.conforms
  refine h.moved { hC with globals := ?_, bound := ?_ } ⟨rfl, ?_⟩ (Moved.refl_all _)
  · intro p hp
    rcases mem_insertKey hp with rfl | hold
    · exact hv
    · exact hC.globals p hold
  · exact fun y hy => lookup_insertKey_isSome (hC.bound y hy)
  · exact fun y hy => lookup_insertKey_isSome hy

theorem Holding.assignLocal {s₀ s : Interpreter σ} {τs : List Ty} {x : String} {v : Value}
    {frames : List Frame} (h : Holding T s₀ τs s) (hv : (T.names x).Has v)
    (hassign : assignLocal x v s.frames = some frames) :
    Holding T s₀ τs { s with frames := frames } := by
  obtain ⟨reversed, hframes, rfl⟩ := Option.map_eq_some_iff.1 hassign
  obtain ⟨hnames, hmem⟩ := assignFrames_spec hframes
  have hC := h.conforms
  refine h.moved { hC with frames := ?_ } ⟨?_, fun _ hx => hx⟩ (Moved.refl_all _)
  · intro frame' hframe' p hp
    rcases hmem frame' (List.mem_reverse.1 hframe') p hp with ⟨frame, hframe, hold⟩ | rfl
    · exact hC.frames frame (List.mem_reverse.1 hframe) p hold
    · exact hv
  · rw [List.map_reverse, hnames, List.map_reverse, List.reverse_reverse]

end Forms

/-! ## Frames -/

/-- `s` conforms, in the scope of `s₀` and one more frame that binds `names`, with the values of
`s₀`. -/
structure Entered (T : Typing) (s₀ : Interpreter σ) (names : List String) (s : Interpreter σ) :
    Prop where
  conforms : Conforms T s
  frames : s.frames.map Frame.names = s₀.frames.map Frame.names ++ [names]
  globals : ∀ x, (s₀.globals.lookup x).isSome → (s.globals.lookup x).isSome
  values : List.Forall₂ Moved s₀.valueStack s.valueStack

namespace Entered

variable {T : Typing} {s₀ s s' : Interpreter σ} {names : List String} {τs : List Ty}

theorem enter {frame : Frame} (h : Holding T s₀ [] s)
    (hframe : ∀ p ∈ frame.bindings, (T.names p.1).Has p.2) (stats : Stats) :
    Entered T s₀ frame.names { s with frames := s.frames ++ [frame], stats := stats } := by
  have hC := h.conforms
  obtain ⟨old, new, heq, hold, hnew⟩ := h.values
  refine ⟨{ hC with frames := ?_ }, ?_, h.scope.globals, ?_⟩
  · intro frame' hframe'
    rcases List.mem_append.1 hframe' with hmem | hmem
    · exact hC.frames frame' hmem
    · rw [List.mem_singleton.1 hmem]
      exact hframe
  · rw [List.map_append, h.scope.frames]
    rfl
  · cases hnew
    rw [List.append_nil] at heq
    exact heq ▸ hold

/-- The names of the frame are bound, and those that were. -/
theorem bound (h : Entered T s₀ names s) {b : List String} (hb : ∀ x ∈ b, Bound s₀ x) :
    ∀ x ∈ names ++ b, Bound s x := by
  intro x hx
  unfold Bound
  rw [h.frames, List.flatten_append, List.mem_append]
  rcases List.mem_append.1 hx with hx | hx
  · exact Or.inl (Or.inr (by simpa using hx))
  · exact (hb x hx).imp Or.inl (h.globals x)

/-- Back in the outer scope. -/
theorem leave (h : Entered T s₀ names s) (h' : Holding T s τs s') :
    Holding T s₀ τs s'.popFrame := by
  have hC := h'.conforms
  obtain ⟨old, new, heq, hold, hnew⟩ := h'.values
  have hframes : ∀ frame ∈ s'.frames.dropLast, ∀ p ∈ frame.bindings, (T.names p.1).Has p.2 :=
    fun frame hframe => hC.frames frame (List.mem_of_mem_dropLast hframe)
  refine ⟨{ hC with frames := hframes },
    ⟨?_, fun x hx => h'.scope.globals x (h.globals x hx)⟩, old, new, heq,
    Moved.trans_all h.values hold, hnew⟩
  show s'.frames.dropLast.map Frame.names = _
  rw [List.map_dropLast, h'.scope.frames, h.frames, List.dropLast_concat]

end Entered

section Frames

variable {H : Heap σ} {rec : Sexp → EvalM σ Unit} {T : Typing} {total : Bool} {b : List String}
  {τ : Ty}

theorem Meets.pushFrame {s₀ : Interpreter σ} {frame : Frame}
    (hframe : ∀ p ∈ frame.bindings, (T.names p.1).Has p.2) :
    Meets total (Holding T s₀ []) (Lisp.pushFrame frame) fun _ => Entered T s₀ frame.names :=
  Triple.modify fun _ hs => .enter hs hframe _

end Frames

/-! ## Whole evaluations -/

section Evaluation

variable {H : Heap σ} {rec : Sexp → EvalM σ Unit} {T : Typing} {total : Bool} {b : List String}
  {τ : Ty}

theorem SoundEval.weaken {m : EvalM σ Unit} (h : SoundEval T total b τ m) :
    SoundEval T total b .any m :=
  fun s₀ τs hb => (h s₀ τs hb).post fun _ _ hs => hs.weaken

end Evaluation

/-- Some typing fits the interpreter and the form. -/
def Typable (s : Interpreter σ) (sexp : Sexp) : Prop :=
  ∃ (T : Typing) (b : List String) (τ : Ty),
    Conforms T s ∧ (∀ x ∈ b, Bound s x) ∧ Typed T false b sexp τ

/-- No `let` stands in the form. -/
inductive Sexp.LetFree : Sexp → Prop
  | number {n : Int64} : LetFree (.number n)
  | bool {v : Bool} : LetFree (.bool v)
  | nil : LetFree .nil
  | string {s : String} : LetFree (.string s)
  | symbol {x : String} : LetFree (.symbol x)
  | list {items : List Sexp} (hhead : items.head? ≠ some (.symbol "let"))
      (hitems : ∀ item ∈ items, LetFree item) : LetFree (.list items)

/-- The typing that knows nothing. -/
def untyped : Typing where
  names _ := .any
  globals := []
  functions _ := none

theorem malformed_define {args : List Sexp} (h : malformed "define" args = false) :
    (∃ x e, args = [.symbol x, e]) ∨ ∃ f params names body,
      args = .list (.symbol f :: params) :: body ∧ headerParams params = some names := by
  unfold malformed at h
  split at h
  case h_3 => exact Or.inl ⟨_, _, rfl⟩
  case h_4 f params body _ =>
    rw [Option.isNone_eq_false_iff, Option.isSome_iff_exists] at h
    obtain ⟨names, hnames⟩ := h
    exact Or.inr ⟨f, params, names, body, rfl, hnames⟩
  all_goals simp_all

theorem malformed_set {args : List Sexp} (h : malformed "set!" args = false) :
    ∃ x e, args = [.symbol x, e] := by
  unfold malformed at h
  split at h
  case h_6 => exact ⟨_, _, rfl⟩
  all_goals simp_all
section Untyped

variable {args : List Sexp} (hargs : ∀ a ∈ args, ∀ b, Typed untyped false b a .any)
  (b : List String)

include hargs

theorem functionBody_untyped : Typed untyped false b (functionBody args) .any := by
  unfold functionBody
  split
  · exact hargs _ List.mem_cons_self b
  · exact .beginForm (fun a ha => hargs a ha b) (fun a ha => hargs a (List.mem_of_getLast? ha) b)
      fun _ => rfl

theorem define_untyped : Typed untyped false b (.list (.symbol "define" :: args)) .any := by
  cases hform : malformed "define" args with
  | true => exact .malformed hform
  | false =>
      rcases malformed_define hform with ⟨x, e, rfl⟩ | ⟨f, params, names, body, rfl, hparams⟩
      · exact .define (hargs e (by simp) b)
      · exact .defineUnknown rfl hparams (fun _ _ => rfl)
          (functionBody_untyped (fun a ha => hargs a (List.mem_cons_of_mem _ ha)) _)

theorem set_untyped : Typed untyped false b (.list (.symbol "set!" :: args)) .any := by
  cases hform : malformed "set!" args with
  | true => exact .malformed hform
  | false =>
      obtain ⟨x, e, rfl⟩ := malformed_set hform
      exact .set (fun h => absurd h Bool.false_ne_true) (hargs e (by simp) b)

end Untyped

/-- The rules leave out no form without a `let`. -/
theorem Sexp.LetFree.typed {sexp : Sexp} (h : sexp.LetFree) (b : List String) :
    Typed untyped false b sexp .any := by
  have hloose : ∀ {p : Prop}, false = true → p := fun h => absurd h Bool.false_ne_true
  induction h generalizing b with
  | number => exact .weaken .number
  | bool => exact .bool
  | nil => exact .nil
  | string => exact .weaken .string
  | symbol => exact .symbol hloose
  | @list items hhead hitems ih =>
      cases items with
      | nil => exact .empty
      | cons head args =>
          have hargs := fun a (ha : a ∈ args) => ih a (List.mem_cons_of_mem _ ha)
          cases head with
          | symbol name =>
              by_cases hspecial : name ∈ specialForms
              · simp only [specialForms, List.mem_cons, List.not_mem_nil, or_false] at hspecial
                rcases hspecial with rfl | rfl | rfl | rfl | rfl | rfl | rfl | rfl | rfl | rfl
                · exact .weaken (.quote hloose)
                · exact .ifForm hloose (fun a ha => hargs a ha b)
                    (fun a ha => hargs a (List.mem_of_mem_tail ha) b) fun h => absurd rfl h
                · exact (hhead rfl).elim
                · exact .beginForm (fun a ha => hargs a ha b)
                    (fun a ha => hargs a (List.mem_of_getLast? ha) b) fun _ => rfl
                · exact define_untyped hargs b
                · exact set_untyped hargs b
                · exact .guarded (Or.inl rfl) hloose fun a ha => hargs a ha b
                · exact .guarded (Or.inr rfl) hloose fun a ha => hargs a ha b
                · exact .untilForm (Or.inl rfl) fun a ha => hargs a ha b
                · exact .untilForm (Or.inr rfl) fun a ha => hargs a ha b
              · cases hname : builtinTypes.lookup name with
                | none => exact .callUnknown rfl hspecial hname fun a ha => hargs a ha b
                | some type =>
                    refine .weaken (.builtin hname (List.length_map fun _ => Ty.any).symm ?_ hloose)
                    intro p hp
                    obtain ⟨a, ha, heq⟩ := List.mem_map.1 (List.of_mem_zip hp).2
                    rw [← heq]
                    exact hargs p.1 (List.of_mem_zip hp).1 b
          | _ => exact .headless rfl

/-- So the stacks of a program without `let` are balanced, whatever it does. -/
theorem Sexp.LetFree.typable {sexp : Sexp} (h : sexp.LetFree) {s : Interpreter σ}
    (hfunctions : ∀ p ∈ s.functions, p.2.body.LetFree) : Typable s sexp := by
  refine ⟨untyped, [], .any, ?_, fun _ hx => absurd hx List.not_mem_nil, h.typed []⟩
  exact {
    frames := fun _ _ _ _ => trivial
    globals := fun _ _ => trivial
    functions := fun p hp => .unknown rfl (fun _ _ => rfl) ((hfunctions p hp).typed _)
    bound := fun _ hx => absurd hx List.not_mem_nil
    defined := fun _ _ hf => by cases hf }

/-! ### A function behind a `let` -/

end NewGc.Lisp
