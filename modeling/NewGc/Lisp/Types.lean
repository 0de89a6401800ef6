import NewGc.Library.Triple
import NewGc.Lisp.Stacks

/-!
# Types — forms that cannot fail

A typing gives every name one type, the type of its values wherever it is bound.  By its rules a
form is total, and then raises no error in a state that conforms to the typing, or it is not, and
then the body of every `let` in it is total.
-/

namespace NewGc.Lisp

open Library

/-! ## Types -/

/-- What a built-in can ask of a value. -/
inductive Ty
  | any
  | number
  | pair
  | vector
  | str
  deriving DecidableEq

/-- The value is of the type. -/
def Ty.Has : Ty → Value → Prop
  | .any, _ => True
  | .number, .number _ => True
  | .pair, .pair _ => True
  | .vector, .vector _ => True
  | .str, .str _ => True
  | _, _ => False

/-- A collection does not change a type. -/
theorem Ty.Has.moved {τ : Ty} {v v' : Value} (h : τ.Has v) (hmoved : Moved v v') : τ.Has v' := by
  obtain ⟨w, rfl⟩ := hmoved
  cases τ <;> cases v <;> exact h

/-- A user function as its callers know it.  A total one raises no error. -/
structure Signature where
  params : List String
  result : Ty
  total : Bool

/-- The types of all names, the globals that are bound throughout, and the functions whose
definitions keep to a signature.  Of any other function nothing is known. -/
structure Typing where
  names : String → Ty
  globals : List String
  functions : String → Option Signature

/-! ### Built-ins -/

/-- Arguments of the given types are of the wanted ones. -/
def fits : List Ty → List Ty → Bool
  | [], [] => true
  | want :: wants, τ :: τs => (decide (want = .any) || decide (want = τ)) && fits wants τs
  | _, _ => false

def allNumbers (τs : List Ty) : Bool := τs.all fun τ => decide (τ = .number)

/-- A built-in: the argument types for which it raises no error, and the type of its result. -/
structure BuiltinType where
  total : List Ty → Bool
  result : Ty

/-- The types of the built-ins, in the order of their arms. -/
def builtinTypes : List (String × BuiltinType) :=
  [("+", ⟨allNumbers, .number⟩),
    ("-", ⟨fun τs => !τs.isEmpty && allNumbers τs, .number⟩),
    ("*", ⟨allNumbers, .number⟩),
    ("=", ⟨fits [.number, .number], .any⟩),
    ("<", ⟨fits [.number, .number], .any⟩),
    (">", ⟨fits [.number, .number], .any⟩),
    ("cons", ⟨fits [.any, .any], .pair⟩),
    ("car", ⟨fits [.pair], .any⟩),
    ("cdr", ⟨fits [.pair], .any⟩),
    ("null?", ⟨fits [.any], .any⟩),
    ("pair?", ⟨fits [.any], .any⟩),
    ("number?", ⟨fits [.any], .any⟩),
    ("vector?", ⟨fits [.any], .any⟩),
    ("string?", ⟨fits [.any], .any⟩),
    ("eq?", ⟨fits [.any, .any], .any⟩),
    ("list", ⟨fun _ => true, .any⟩),
    ("length", ⟨fun _ => false, .number⟩),
    ("make-vector", ⟨fun _ => false, .vector⟩),
    ("vector", ⟨fun _ => true, .vector⟩),
    ("vector-ref", ⟨fits [.vector, .number], .any⟩),
    ("vector-set!", ⟨fits [.vector, .number, .any], .any⟩),
    ("vector-length", ⟨fits [.vector], .number⟩),
    ("string-length", ⟨fits [.str], .number⟩),
    ("gc-now", ⟨fits [], .any⟩),
    ("gc-minor", ⟨fits [], .any⟩),
    ("gc-major", ⟨fits [], .any⟩),
    ("gc-stats-minor-cycles", ⟨fits [], .number⟩),
    ("gc-stats-major-cycles", ⟨fits [], .number⟩),
    ("gc-stats-allocations", ⟨fits [], .number⟩),
    ("heap-used-bytes", ⟨fits [], .number⟩),
    ("heap-g0-used-bytes", ⟨fits [], .number⟩),
    ("heap-tenured-used-bytes", ⟨fits [], .number⟩),
    ("heap-free-pages", ⟨fits [], .number⟩),
    ("heap-bytes-alloc-since-gc", ⟨fits [], .number⟩),
    ("heap-auto-gc-trigger-bytes", ⟨fits [], .number⟩),
    ("random", ⟨fun _ => false, .number⟩),
    ("random-seed!", ⟨fits [.number], .any⟩),
    ("assert", ⟨fun _ => false, .any⟩),
    ("check-equal", ⟨fun _ => false, .any⟩),
    ("set-gc-threshold!", ⟨fun _ => false, .any⟩),
    ("error", ⟨fun _ => false, .any⟩)]

/-! ### Special forms -/

def specialForms : List String :=
  ["quote", "if", "let", "begin", "define", "set!", "when", "unless", "and", "or"]

/-- What `quote` makes without an error, and its type. -/
def quoteTy : List Sexp → Option Ty
  | [.number _] => some .number
  | [.bool _] | [.nil] | [.symbol _] => some .any
  | [.string _] => some .str
  | _ => none

/-- The bindings of a `let`. -/
def letBindings : Sexp → Option (List Sexp)
  | .list bindings => some bindings
  | .nil => some []
  | _ => none

/-- The name a binding binds. -/
def bindingName : Sexp → Option String
  | .list [.symbol name, _] => some name
  | _ => none

/-- The body a function definition stores. -/
def functionBody : List Sexp → Sexp
  | [form] => form
  | forms => .list (.symbol "begin" :: forms)

/-- The forms that raise an error before they evaluate anything. -/
def malformed : String → List Sexp → Bool
  | "let", lhs :: _ :: _ => (letBindings lhs).isNone
  | "let", _ => true
  | "define", [.symbol _, _] => false
  | "define", .list (.symbol _ :: params) :: _ => (headerParams params).isNone
  | "define", _ => true
  | "set!", [.symbol _, _] => false
  | "set!", _ => true
  | _, _ => false

/-! ## The rules -/

/-- `Typed T total b e τ`: where the names `b` are bound the values of `e` have the type `τ`. -/
inductive Typed (T : Typing) : Bool → List String → Sexp → Ty → Prop
  | weaken {total b e τ} (h : Typed T total b e τ) : Typed T total b e .any
  | number {total b n} : Typed T total b (.number n) .number
  | bool {total b v} : Typed T total b (.bool v) .any
  | nil {total b} : Typed T total b .nil .any
  | string {total b s} : Typed T total b (.string s) .str
  | symbol {total b x} (hx : total = true → x ∈ b) : Typed T total b (.symbol x) (T.names x)
  | empty {total b} : Typed T total b (.list []) .any
  | headless {b head args τ} (hhead : head.asSymbol = none) :
      Typed T false b (.list (head :: args)) τ
  | malformed {b name args τ} (hform : malformed name args = true) :
      Typed T false b (.list (.symbol name :: args)) τ
  | quote {total b args} (hargs : total = true → (quoteTy args).isSome) :
      Typed T total b (.list (.symbol "quote" :: args)) ((quoteTy args).getD .any)
  | ifForm {total b args τ} (hlen : total = true → args.length = 2 ∨ args.length = 3)
      (hargs : ∀ a ∈ args, Typed T total b a .any)
      (hbranches : ∀ a ∈ args.tail, Typed T total b a τ)
      (helse : τ ≠ .any → args.length = 3) : Typed T total b (.list (.symbol "if" :: args)) τ
  | letForm {total b lhs bindings form body τ} (hlhs : letBindings lhs = some bindings)
      (hpairs : total = true → ∀ x ∈ bindings, (bindingName x).isSome)
      (hbindings : ∀ x e, .list [.symbol x, e] ∈ bindings → Typed T total b e (T.names x))
      (hbody : ∀ f ∈ form :: body, Typed T true (bindings.filterMap bindingName ++ b) f .any)
      (hlast : ∀ f, (form :: body).getLast? = some f →
        Typed T true (bindings.filterMap bindingName ++ b) f τ) :
      Typed T total b (.list (.symbol "let" :: lhs :: form :: body)) τ
  | beginForm {total b args τ} (hargs : ∀ a ∈ args, Typed T total b a .any)
      (hlast : ∀ a, args.getLast? = some a → Typed T total b a τ) (hempty : args = [] → τ = .any) :
      Typed T total b (.list (.symbol "begin" :: args)) τ
  | define {total b x e} (h : Typed T total b e (T.names x)) :
      Typed T total b (.list [.symbol "define", .symbol x, e]) .any
  | defineKnown {total b f params sig body} (hf : T.functions f = some sig)
      (hparams : headerParams params = some sig.params)
      (hbody : Typed T sig.total (sig.params ++ T.globals) (functionBody body) sig.result) :
      Typed T total b (.list (.symbol "define" :: .list (.symbol f :: params) :: body)) .any
  | defineUnknown {total b f params names body} (hf : T.functions f = none)
      (hparams : headerParams params = some names) (hnames : ∀ x ∈ names, T.names x = .any)
      (hbody : Typed T false (names ++ T.globals) (functionBody body) .any) :
      Typed T total b (.list (.symbol "define" :: .list (.symbol f :: params) :: body)) .any
  | set {total b x e} (hx : total = true → x ∈ b) (h : Typed T total b e (T.names x)) :
      Typed T total b (.list [.symbol "set!", .symbol x, e]) .any
  | guarded {total b name args} (hname : name = "when" ∨ name = "unless")
      (hne : total = true → args ≠ []) (hargs : ∀ a ∈ args, Typed T total b a .any) :
      Typed T total b (.list (.symbol name :: args)) .any
  | untilForm {total b name args} (hname : name = "and" ∨ name = "or")
      (hargs : ∀ a ∈ args, Typed T total b a .any) :
      Typed T total b (.list (.symbol name :: args)) .any
  | builtin {total b name args τs type} (hname : builtinTypes.lookup name = some type)
      (hlen : args.length = τs.length) (hargs : ∀ p ∈ args.zip τs, Typed T total b p.1 p.2)
      (htotal : total = true → type.total τs = true) :
      Typed T total b (.list (.symbol name :: args)) type.result
  | callKnown {total b f args τs sig} (hf : T.functions f = some sig) (hspecial : f ∉ specialForms)
      (hbuiltin : builtinTypes.lookup f = none) (hlen : args.length = τs.length)
      (hargs : ∀ p ∈ args.zip τs, Typed T total b p.1 p.2)
      (hparams : args.length = sig.params.length → τs = sig.params.map T.names)
      (htotal : total = true → sig.total = true ∧ args.length = sig.params.length) :
      Typed T total b (.list (.symbol f :: args)) sig.result
  | callUnknown {b f args} (hf : T.functions f = none) (hspecial : f ∉ specialForms)
      (hbuiltin : builtinTypes.lookup f = none) (hargs : ∀ a ∈ args, Typed T false b a .any) :
      Typed T false b (.list (.symbol f :: args)) .any

/-- The definition of a function keeps to its signature. -/
inductive FunctionTyped (T : Typing) (f : String) (fdef : FunctionDef) : Prop
  | known {sig : Signature} (hf : T.functions f = some sig) (hparams : fdef.params = sig.params)
      (hbody : Typed T sig.total (sig.params ++ T.globals) fdef.body sig.result)
  | unknown (hf : T.functions f = none) (hparams : ∀ x ∈ fdef.params, T.names x = .any)
      (hbody : Typed T false (fdef.params ++ T.globals) fdef.body .any)

/-! ## States -/

variable {σ : Type}

def Frame.names (frame : Frame) : List String := frame.bindings.map (·.1)

/-- The bindings and the definitions of the interpreter keep to the typing. -/
structure Conforms (T : Typing) (s : Interpreter σ) : Prop where
  frames : ∀ frame ∈ s.frames, ∀ p ∈ frame.bindings, (T.names p.1).Has p.2
  globals : ∀ p ∈ s.globals, (T.names p.1).Has p.2
  functions : ∀ p ∈ s.functions, FunctionTyped T p.1 p.2
  bound : ∀ x ∈ T.globals, (s.globals.lookup x).isSome
  defined : ∀ f sig, T.functions f = some sig → sig.total = true →
    (s.functions.lookup f).isSome

/-- The name is bound, in a frame or globally. -/
def Bound (s : Interpreter σ) (x : String) : Prop :=
  x ∈ (s.frames.map Frame.names).flatten ∨ (s.globals.lookup x).isSome

/-- The same frames, and no global less. -/
structure SameScope (s s' : Interpreter σ) : Prop where
  frames : s'.frames.map Frame.names = s.frames.map Frame.names
  globals : ∀ x, (s.globals.lookup x).isSome → (s'.globals.lookup x).isSome

/-- `s` conforms, in the scope of `s₀`, with values of the types `τs` on top of those of `s₀`. -/
structure Holding (T : Typing) (s₀ : Interpreter σ) (τs : List Ty) (s : Interpreter σ) : Prop where
  conforms : Conforms T s
  scope : SameScope s₀ s
  values : ∃ old new, s.valueStack = old ++ new ∧ List.Forall₂ Moved s₀.valueStack old ∧
    List.Forall₂ Ty.Has τs new

theorem SameScope.refl (s : Interpreter σ) : SameScope s s := ⟨rfl, fun _ h => h⟩

theorem SameScope.trans {s s' s'' : Interpreter σ} (h₁ : SameScope s s') (h₂ : SameScope s' s'') :
    SameScope s s'' :=
  ⟨h₂.frames.trans h₁.frames, fun x h => h₂.globals x (h₁.globals x h)⟩

theorem SameScope.bound {s s' : Interpreter σ} (h : SameScope s s') {x : String} (hx : Bound s x) :
    Bound s' x := by
  rcases hx with hframe | hglobal
  · left
    rw [h.frames]
    exact hframe
  · exact Or.inr (h.globals x hglobal)

theorem Conforms.of_same {T : Typing} {s s' : Interpreter σ} (h : Conforms T s)
    (hframes : s'.frames = s.frames) (hglobals : s'.globals = s.globals)
    (hfunctions : s'.functions = s.functions) : Conforms T s' where
  frames := hframes ▸ h.frames
  globals := hglobals ▸ h.globals
  functions := hfunctions ▸ h.functions
  bound := hglobals ▸ h.bound
  defined := hfunctions ▸ h.defined

theorem Ty.has_moved {τs : List Ty} {vs vs' : List Value} (h : List.Forall₂ Ty.Has τs vs)
    (hmoved : List.Forall₂ Moved vs vs') : List.Forall₂ Ty.Has τs vs' := by
  induction h generalizing vs' with
  | nil =>
      cases hmoved
      exact .nil
  | cons hτ _ ih =>
      cases hmoved with
      | cons hv hvs => exact .cons (hτ.moved hv) (ih hvs)

namespace Holding

variable {T : Typing} {s₀ s s' : Interpreter σ} {τs : List Ty}

/-- From the state itself. -/
theorem start (h : Conforms T s) : Holding T s [] s :=
  ⟨h, .refl s, s.valueStack, [], (List.append_nil _).symm, Moved.refl_all _, .nil⟩

/-- Values may have moved. -/
theorem moved (h : Holding T s₀ τs s) (hconforms : Conforms T s') (hscope : SameScope s s')
    (hvalues : List.Forall₂ Moved s.valueStack s'.valueStack) : Holding T s₀ τs s' := by
  obtain ⟨old, new, heq, hold, hnew⟩ := h.values
  rw [heq] at hvalues
  refine ⟨hconforms, h.scope.trans hscope, s'.valueStack.take old.length,
    s'.valueStack.drop old.length, (List.take_append_drop _ _).symm, ?_, ?_⟩
  · have htake := List.forall₂_take old.length hvalues
    rw [List.take_left] at htake
    exact Moved.trans_all hold htake
  · have hdrop := List.forall₂_drop old.length hvalues
    rw [List.drop_left] at hdrop
    exact Ty.has_moved hnew hdrop

/-- The heap, the statistics and the random generator are of no concern. -/
theorem of_same (h : Holding T s₀ τs s) (hframes : s'.frames = s.frames)
    (hglobals : s'.globals = s.globals) (hfunctions : s'.functions = s.functions)
    (hvalues : s'.valueStack = s.valueStack) : Holding T s₀ τs s' := by
  refine h.moved (h.conforms.of_same hframes hglobals hfunctions) ⟨by rw [hframes], ?_⟩
    (hvalues ▸ Moved.refl_all _)
  intro x hx
  rw [hglobals]
  exact hx

theorem bound (h : Holding T s₀ τs s) {x : String} (hx : Bound s₀ x) : Bound s x := h.scope.bound hx

/-- One value more. -/
theorem push (h : Holding T s₀ τs s) {τ : Ty} {v : Value} (hv : τ.Has v) :
    Holding T s₀ (τs ++ [τ]) { s with valueStack := s.valueStack ++ [v] } := by
  obtain ⟨old, new, heq, hold, hnew⟩ := h.values
  refine ⟨h.conforms.of_same rfl rfl rfl, ⟨h.scope.frames, h.scope.globals⟩, old, new ++ [v], ?_,
    hold, List.rel_append hnew (.cons hv .nil)⟩
  show s.valueStack ++ [v] = _
  rw [heq, List.append_assoc]

/-- One value less. -/
theorem pop {τ : Ty} (h : Holding T s₀ (τs ++ [τ]) s) : ∃ rest v, s.valueStack = rest ++ [v] ∧
    τ.Has v ∧ Holding T s₀ τs { s with valueStack := rest } := by
  obtain ⟨old, new, heq, hold, hnew⟩ := h.values
  have htake := List.forall₂_take τs.length hnew
  have hdrop := List.forall₂_drop τs.length hnew
  rw [List.take_left] at htake
  rw [List.drop_left] at hdrop
  generalize htop : new.drop τs.length = top at hdrop
  cases hdrop with
  | cons hv hnil =>
      rename_i v _
      cases hnil
      refine ⟨old ++ new.take τs.length, v, ?_, hv, h.conforms.of_same rfl rfl rfl,
        ⟨h.scope.frames, h.scope.globals⟩, old, _, rfl, hold, htake⟩
      rw [heq, List.append_assoc, ← htop, List.take_append_drop]

/-- Less is known of the topmost value. -/
theorem weaken {τ : Ty} (h : Holding T s₀ (τs ++ [τ]) s) : Holding T s₀ (τs ++ [.any]) s := by
  obtain ⟨rest, v, heq, -, hrest⟩ := h.pop
  have hpush := hrest.push (show Ty.any.Has v from trivial)
  rw [← heq] at hpush
  exact hpush

/-- Two stretches, one after the other. -/
theorem trans {s' : Interpreter σ} {τs' : List Ty} (h₁ : Holding T s₀ τs s)
    (h₂ : Holding T s τs' s') : Holding T s₀ (τs ++ τs') s' := by
  obtain ⟨old, new, heq, hold, hnew⟩ := h₂.values
  have hbelow : Holding T s₀ τs { s' with valueStack := old } :=
    h₁.moved (h₂.conforms.of_same rfl rfl rfl) ⟨h₂.scope.frames, h₂.scope.globals⟩ hold
  obtain ⟨old', new', heq', hold', hnew'⟩ := hbelow.values
  refine ⟨h₂.conforms, h₁.scope.trans h₂.scope, old', new' ++ new, ?_, hold',
    List.rel_append hnew' hnew⟩
  rw [heq, show old = old' ++ new' from heq', List.append_assoc]

theorem height (h : Holding T s₀ τs s) :
    s.valueStack.length = s₀.valueStack.length + τs.length := by
  obtain ⟨old, new, heq, hold, hnew⟩ := h.values
  rw [heq, List.length_append, hold.length_eq, hnew.length_eq]

end Holding

/-! ## Lookup and assignment -/

/-- A bound name has a value, of its type. -/
theorem Conforms.findLocal {T : Typing} {s : Interpreter σ} (h : Conforms T s) {x : String}
    {v : Value} (hv : findLocal x s.frames = some v) : (T.names x).Has v := by
  obtain ⟨frame, hframe, hfind⟩ := List.exists_of_findSome?_eq_some hv
  exact h.frames frame (List.mem_reverse.1 hframe) (x, v) (lookup_mem hfind)

theorem Frame.assign_go {x : String} {v : Value} : ∀ {l l' : List (String × Value)},
    Frame.assign.go x v l = some l' →
      l'.map (·.1) = l.map (·.1) ∧ ∀ p ∈ l', p ∈ l ∨ p = (x, v)
  | (n, old) :: rest, l', h => by
      unfold Frame.assign.go at h
      split at h
      · rename_i hn
        cases h
        refine ⟨by rw [List.map_cons, List.map_cons], fun p hp => ?_⟩
        rcases List.mem_cons.1 hp with rfl | hp
        · right
          rw [hn]
        · exact Or.inl (List.mem_cons_of_mem _ hp)
      · obtain ⟨rest', hrest, rfl⟩ := Option.map_eq_some_iff.1 h
        obtain ⟨hnames, hmem⟩ := Frame.assign_go hrest
        refine ⟨by rw [List.map_cons, List.map_cons, hnames], fun p hp => ?_⟩
        rcases List.mem_cons.1 hp with rfl | hp
        · exact Or.inl List.mem_cons_self
        · exact (hmem p hp).imp_left (List.mem_cons_of_mem _)

/-- An assignment changes no name, and puts its value under its own. -/
theorem assignFrames_spec {x : String} {v : Value} : ∀ {frames frames' : List Frame},
    assignFrames x v frames = some frames' →
      frames'.map Frame.names = frames.map Frame.names ∧
        ∀ frame' ∈ frames', ∀ p ∈ frame'.bindings,
          (∃ frame ∈ frames, p ∈ frame.bindings) ∨ p = (x, v)
  | frame :: rest, frames', h => by
      unfold assignFrames at h
      split at h
      · rename_i frame₁ hassign
        cases h
        obtain ⟨bindings, hgo, rfl⟩ := Option.map_eq_some_iff.1 hassign
        obtain ⟨hnames, hmem⟩ := Frame.assign_go hgo
        refine ⟨by rw [List.map_cons, List.map_cons]; exact congrArg (· :: _) hnames, ?_⟩
        intro frame' hframe' p hp
        rcases List.mem_cons.1 hframe' with rfl | hframe'
        · exact (hmem p hp).imp_left fun hold => ⟨frame, List.mem_cons_self, hold⟩
        · exact Or.inl ⟨frame', List.mem_cons_of_mem _ hframe', hp⟩
      · obtain ⟨rest', hrest, rfl⟩ := Option.map_eq_some_iff.1 h
        obtain ⟨hnames, hmem⟩ := assignFrames_spec hrest
        refine ⟨by rw [List.map_cons, List.map_cons, hnames], ?_⟩
        intro frame' hframe' p hp
        rcases List.mem_cons.1 hframe' with rfl | hframe'
        · exact Or.inl ⟨frame', List.mem_cons_self, hp⟩
        · refine (hmem frame' hframe' p hp).imp_left ?_
          rintro ⟨frame₁, hframe₁, hold⟩
          exact ⟨frame₁, List.mem_cons_of_mem _ hframe₁, hold⟩

theorem lookup_insertKey_isSome {α : Type} {x y : String} {a : α} : ∀ {l : List (String × α)},
    (l.lookup y).isSome → ((insertKey x a l).lookup y).isSome
  | (k, old) :: rest, h => by
      unfold insertKey
      rw [List.lookup_cons] at h
      split
      · rw [List.lookup_cons]
        split at h
        · rfl
        · exact h
      · rw [List.lookup_cons]
        split at h
        · rfl
        · exact lookup_insertKey_isSome h

/-! ## Collections -/

theorem mem_modify {α : Type} {l : List α} {f : α → α} {i : Nat} {b : α} (h : b ∈ l.modify i f) :
    b ∈ l ∨ ∃ a, l[i]? = some a ∧ b = f a := by
  obtain ⟨k, hk⟩ := List.mem_iff_getElem?.1 h
  rw [List.getElem?_modify] at hk
  split at hk
  · rename_i hik
    subst hik
    obtain ⟨a, ha, rfl⟩ := Option.map_eq_some_iff.1 hk
    exact Or.inr ⟨a, ha, rfl⟩
  · obtain ⟨a, ha, rfl⟩ := Option.map_eq_some_iff.1 hk
    exact Or.inl (List.mem_of_getElem? ha)

theorem map_modify_of_same {α β : Type} {l : List α} {f : α → α} {g : α → β} {i : Nat}
    (h : ∀ a, g (f a) = g a) : (l.modify i f).map g = l.map g := by
  refine List.ext_getElem? fun k => ?_
  rw [List.getElem?_map, List.getElem?_map, List.getElem?_modify]
  split
  · cases l[k]? with
    | none => rfl
    | some a => exact congrArg some (h a)
  · cases l[k]? <;> rfl

/-- A root written back keeps its type. -/
theorem Holding.applyRedistribute {T : Typing} {s₀ s s' : Interpreter σ} {τs : List Ty}
    {kind : RootKind} {new : Word} (h : Holding T s₀ τs s)
    (hs : applyRedistribute s kind new = some s') : Holding T s₀ τs s' := by
  unfold Lisp.applyRedistribute at hs
  cases hv : s.valueAt kind with
  | none => simp [hv] at hs
  | some v =>
      rw [hv] at hs
      dsimp only at hs
      split at hs
      case isFalse => cases hs
      cases hs
      have hC := h.conforms
      cases kind with
      | valueStack i =>
          exact h.moved (hC.of_same rfl rfl rfl) ⟨rfl, fun _ hx => hx⟩
            (Moved.set_all hv (Moved.withWord v new))
      | frame i j =>
          refine h.moved { hC with frames := ?_ } ⟨?_, fun _ hx => hx⟩ (Moved.refl_all _)
          · intro frame' hframe' p hp
            rcases mem_modify hframe' with hold | ⟨frame, hframe, rfl⟩
            · exact hC.frames frame' hold p hp
            · have hmem := List.mem_of_getElem? hframe
              rcases mem_modify hp with hold | ⟨binding, hbinding, rfl⟩
              · exact hC.frames frame hmem p hold
              · -- the binding that is written back held the value
                have hvalue : binding.2 = v := by
                  have hat : (s.frames[i]?.bind fun frame => frame.bindings[j]?.map (·.2)) =
                      some v := hv
                  rw [hframe, Option.bind_some, hbinding] at hat
                  exact Option.some.inj hat
                have hty := hC.frames frame hmem binding (List.mem_of_getElem? hbinding)
                rw [hvalue] at hty
                exact hty.moved (Moved.withWord v new)
          · exact map_modify_of_same fun frame => map_modify_of_same fun _ => rfl
      | global name =>
          refine h.moved { hC with globals := ?_, bound := ?_ } ⟨rfl, ?_⟩ (Moved.refl_all _)
          · intro p hp
            rcases mem_insertKey hp with rfl | hold
            · exact (hC.globals _ (lookup_mem hv)).moved (Moved.withWord v new)
            · exact hC.globals p hold
          · exact fun x hx => lookup_insertKey_isSome (hC.bound x hx)
          · exact fun x hx => lookup_insertKey_isSome hx

theorem Holding.scatterRoots {T : Typing} {s₀ : Interpreter σ} {τs : List Ty} :
    ∀ {layout : List RootKind} {roots : List Word} {s s' : Interpreter σ}, Holding T s₀ τs s →
      scatterRoots s layout roots = some s' → Holding T s₀ τs s'
  | [], _, s, s', h, hs => by
      cases hs
      exact h
  | _ :: _, [], _, _, _, hs => by cases hs
  | kind :: layout, root :: roots, s, s', h, hs => by
      obtain ⟨s₁, happly, hrest⟩ := Option.bind_eq_some_iff.1 hs
      exact (h.applyRedistribute happly).scatterRoots hrest

end NewGc.Lisp
