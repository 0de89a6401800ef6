import NewGc.Lisp.Alike
import NewGc.Lisp.Arena

/-!
# Schedules — a program does not see the collector

An expression that does not ask about the heap is evaluated alike over two heaps, whatever each of
them does at its safepoints: the same errors, and the same values up to the words of heap objects.
-/

namespace NewGc.Lisp

open Library

variable {σ τ : Type} {H : Heap σ} {K : Heap τ} {C : Contract H} {D : Contract K}

/-! ## Names and frames -/

section Names

variable {φ : Renaming}

theorem rel_findSome? {l u : List Frame} (h : List.Forall₂ (FrameAlike φ) l u) (name : String) :
    Option.Rel (Same φ) (l.findSome? (Frame.find name)) (u.findSome? (Frame.find name)) := by
  induction h with
  | nil => exact .none
  | @cons f g l u hfg _ ih =>
      have hfind : Option.Rel (fun a a' => BindingAlike φ (name, a) (name, a'))
          (f.find name) (g.find name) := rel_lookup (fun hb => hb.1) hfg name
      rw [List.findSome?_cons, List.findSome?_cons]
      revert hfind
      generalize f.find name = a, g.find name = b
      intro hfind
      cases hfind with
      | none => exact ih
      | some hab => exact .some hab.2

theorem rel_findLocal {fs gs : List Frame} (h : List.Forall₂ (FrameAlike φ) fs gs)
    (name : String) : Option.Rel (Same φ) (findLocal name fs) (findLocal name gs) :=
  rel_findSome? (List.forall₂_reverse_iff.2 h) name

theorem rel_assignGo {l u : List (String × Value)} (h : List.Forall₂ (BindingAlike φ) l u)
    (name : String) {a b : Value} (hab : Same φ a b) :
    Option.Rel (List.Forall₂ (BindingAlike φ)) (Frame.assign.go name a l)
      (Frame.assign.go name b u) := by
  induction h with
  | nil => exact .none
  | @cons c d l u hcd hrest ih =>
      unfold Frame.assign.go
      rw [hcd.1]
      split
      · exact .some (.cons ⟨rfl, hab⟩ hrest)
      · revert ih
        generalize Frame.assign.go name a l = x, Frame.assign.go name b u = y
        intro ih
        cases ih with
        | none => exact .none
        | some ih => exact .some (.cons ⟨rfl, hcd.2⟩ ih)

theorem rel_assign {f g : Frame} (h : FrameAlike φ f g) (name : String) {a b : Value}
    (hab : Same φ a b) : Option.Rel (FrameAlike φ) (f.assign name a) (g.assign name b) := by
  have hgo := rel_assignGo h name hab
  unfold Frame.assign
  revert hgo
  generalize Frame.assign.go name a f.bindings = x, Frame.assign.go name b g.bindings = y
  intro hgo
  cases hgo with
  | none => exact .none
  | some hgo => exact .some hgo

theorem rel_assignFrames {fs gs : List Frame} (h : List.Forall₂ (FrameAlike φ) fs gs)
    (name : String) {a b : Value} (hab : Same φ a b) :
    Option.Rel (List.Forall₂ (FrameAlike φ)) (assignFrames name a fs) (assignFrames name b gs) := by
  induction h with
  | nil => exact .none
  | @cons f g fs gs hfg hrest ih =>
      have hassign := rel_assign hfg name hab
      unfold assignFrames
      revert ih hassign
      generalize f.assign name a = x, g.assign name b = y, assignFrames name a fs = xs,
        assignFrames name b gs = ys
      intro ih hassign
      cases hassign with
      | some hfg' => exact .some (.cons hfg' hrest)
      | none =>
          cases ih with
          | none => exact .none
          | some ih => exact .some (.cons hfg ih)

theorem rel_assignLocal {fs gs : List Frame} (h : List.Forall₂ (FrameAlike φ) fs gs)
    (name : String) {a b : Value} (hab : Same φ a b) :
    Option.Rel (List.Forall₂ (FrameAlike φ)) (assignLocal name a fs) (assignLocal name b gs) := by
  have hassign := rel_assignFrames (List.forall₂_reverse_iff.2 h) name hab
  unfold assignLocal
  revert hassign
  generalize assignFrames name a fs.reverse = x, assignFrames name b gs.reverse = y
  intro hassign
  cases hassign with
  | none => exact .none
  | some hassign => exact .some (List.forall₂_reverse_iff.2 hassign)

theorem forall₂_insertKey {l u : List (String × Value)} (h : List.Forall₂ (BindingAlike φ) l u)
    (name : String) {a b : Value} (hab : Same φ a b) :
    List.Forall₂ (BindingAlike φ) (insertKey name a l) (insertKey name b u) := by
  induction h with
  | nil => exact .cons ⟨rfl, hab⟩ .nil
  | @cons c d l u hcd hrest ih =>
      unfold insertKey
      rw [hcd.1]
      split
      · exact .cons ⟨rfl, hab⟩ hrest
      · exact .cons ⟨rfl, hcd.2⟩ ih

theorem nodup_insertKey {α : Type} {name : String} {a : α} : ∀ {l : List (String × α)},
    (l.map (·.1)).Nodup → ((insertKey name a l).map (·.1)).Nodup
  | [], _ => List.nodup_singleton name
  | (k, b) :: l, hnodup => by
      rw [List.map_cons, List.nodup_cons] at hnodup
      unfold insertKey
      split
      · rw [List.map_cons, List.nodup_cons]
        exact hnodup
      · rename_i hk
        rw [List.map_cons, List.nodup_cons]
        refine ⟨fun hmem => ?_, nodup_insertKey hnodup.2⟩
        obtain ⟨c, hc, heq⟩ := List.mem_map.1 hmem
        rcases mem_insertKey hc with rfl | hc
        · exact hk heq.symm
        · exact hnodup.1 (List.mem_map.2 ⟨c, hc, heq⟩)

theorem forall₂_zip {vs us : List Value} (h : List.Forall₂ (Same φ) vs us) :
    ∀ names : List String, List.Forall₂ (BindingAlike φ) (names.zip vs) (names.zip us) := by
  induction h with
  | nil =>
      intro names
      rw [List.zip_nil_right]
      exact .nil
  | cons hab _ ih =>
      intro names
      cases names with
      | nil => exact .nil
      | cons name names => exact .cons ⟨rfl, hab⟩ (ih names)

end Names

/-- Fresh interpreters are related: they hold nothing. -/
theorem Related.new (h : σ) (k : τ) (order order' : MapOrder) :
    Related C D (fun _ _ => False) (.new h order) (.new k order') where
  heap := by constructor <;> intros <;> contradiction
  valueStack := .nil
  frames := .nil
  globals := .nil
  nodup := List.nodup_nil
  functions := rfl
  plain := fun _ hf => absurd hf List.not_mem_nil
  rngState := rfl
  allocations := rfl

section Programs

/-! ## Steps of the special forms -/

variable [UnicodeTables]

section Steps

variable {φ : Renaming}

theorem lookup_steps (name : String) :
    Steps C D φ (lookup name : EvalM σ Value) (lookup name : EvalM τ Value) (Same φ) := by
  refine .get_bind fun s t hR => ?_
  have hlocal := rel_findLocal hR.frames name
  have hglobal := rel_lookup (fun hb => hb.1) hR.globals name
  revert hlocal hglobal
  generalize findLocal name s.frames = x, findLocal name t.frames = y,
    s.globals.lookup name = x', t.globals.lookup name = y'
  intro hlocal hglobal
  cases hlocal with
  | some hab => exact .ok hR ⟨rfl, hab⟩
  | none =>
      cases hglobal with
      | some hab => exact .ok hR ⟨rfl, hab.2⟩
      | none => exact .error (.error (.same _) hR)

theorem pushFrame_steps {f g : Frame} (h : FrameAlike φ f g) :
    Steps C D φ (pushFrame f : EvalM σ Unit) (pushFrame g : EvalM τ Unit) Done :=
  .modify fun _ _ hR =>
    (hR.withFrames (List.rel_append hR.frames (.cons h .nil))).withStats hR.allocations

theorem defineGlobal_steps (name : String) {a b : Value} (hab : Same φ a b) :
    Steps C D φ (defineGlobal name a : EvalM σ Unit) (defineGlobal name b : EvalM τ Unit) Done :=
  .modify fun _ _ hR =>
    hR.withGlobals (forall₂_insertKey hR.globals name hab) (nodup_insertKey hR.nodup)

theorem assign_goes (name : String) {a b : Value} (hab : Same φ a b) :
    Goes C D φ (assign name a) (assign name b) := by
  refine .get_bind fun s t hR => ?_
  have hlocal := rel_assignLocal hR.frames name hab
  have hglobal := rel_lookup (fun hb => hb.1) hR.globals name
  revert hlocal hglobal
  generalize assignLocal name a s.frames = x, assignLocal name b t.frames = y,
    s.globals.lookup name = x', t.globals.lookup name = y'
  intro hlocal hglobal
  cases hlocal with
  | some hframes => exact (Steps.push .nil).goes _ _ (hR.withFrames hframes)
  | none =>
      cases hglobal with
      | some _ =>
          exact Steps.bind (defineGlobal_steps name hab) (fun _ _ _ => (Steps.push .nil).goes) s t hR
      | none => exact .error (.error (.same _) hR)

theorem Goes.ite {p : Prop} [Decidable p] {m n : EvalM σ Unit} {m' n' : EvalM τ Unit}
    (hm : p → Goes C D φ m m') (hn : ¬ p → Goes C D φ n n') :
    Goes C D φ (if p then m else n) (if p then m' else n') := by
  by_cases hp : p
  · rw [if_pos hp, if_pos hp]
    exact hm hp
  · rw [if_neg hp, if_neg hp]
    exact hn hp

/-- The body of a `let` on both sides: the errors that leave it are marked on both. -/
theorem Goes.leavingLet {m : EvalM σ Unit} {m' : EvalM τ Unit} (h : Goes C D φ m m') :
    Goes C D φ (Lisp.leavingLet m) (Lisp.leavingLet m') := by
  intro s t hR
  have hrun := h s t hR
  unfold Lisp.leavingLet
  revert hrun
  generalize m s = r, m' t = r'
  intro hrun
  cases hrun with
  | ok hR' hq => exact .ok hR' hq
  | error he =>
      cases he with
      | error he hR' => exact .error (.error he hR')
      | panic => exact .error .panic
      | outOfFuel => exact .error .outOfFuel
  | left he =>
      obtain ⟨d, rfl, hrefuses⟩ := he
      exact .left ⟨d, rfl, hrefuses⟩
  | right he =>
      obtain ⟨d, rfl, hrefuses⟩ := he
      exact .right ⟨d, rfl, hrefuses⟩

theorem Goes.poppingFrame {m : EvalM σ Unit} {m' : EvalM τ Unit} (h : Goes C D φ m m') :
    Goes C D φ (Lisp.poppingFrame m) (Lisp.poppingFrame m') := by
  intro s t hR
  have hrun := h s t hR
  unfold Lisp.poppingFrame
  revert hrun
  generalize m s = r, m' t = r'
  intro hrun
  cases hrun with
  | ok hR' hq => exact .ok hR'.popFrame hq
  | error he =>
      cases he with
      | error he hR' => exact .error (.error he hR'.popFrame)
      | panic => exact .error .panic
      | outOfFuel => exact .error .outOfFuel
  | left he =>
      obtain ⟨d, rfl, hrefuses⟩ := he
      exact .left ⟨d, rfl, hrefuses⟩
  | right he =>
      obtain ⟨d, rfl, hrefuses⟩ := he
      exact .right ⟨d, rfl, hrefuses⟩

end Steps

/-! ## Special forms -/

/-- What the evaluator does with subexpressions, on both sides. -/
abbrev RecAlike (C : Contract H) (D : Contract K) (rec : Sexp → EvalM σ Unit)
    (again : Sexp → EvalM τ Unit) : Prop :=
  ∀ φ e, e.asksHeap = false → Goes C D φ (rec e) (again e)

section Forms

variable {rec : Sexp → EvalM σ Unit} {again : Sexp → EvalM τ Unit}

theorem evalForms_goes (hrec : RecAlike C D rec again) : ∀ (forms : List Sexp) (φ : Renaming),
    Sexp.anyAsksHeap forms = false → Goes C D φ (evalForms rec forms) (evalForms again forms)
  | [], _, _ => .pure trivial
  | [form], φ, h => hrec φ form (Sexp.anyAsksHeap_cons h).1
  | form :: form' :: forms, φ, h =>
      Lockstep.bind (hrec φ form (Sexp.anyAsksHeap_cons h).1) fun ψ _ _ _ =>
        Steps.bind .drop fun _ _ _ =>
          evalForms_goes hrec (form' :: forms) ψ (Sexp.anyAsksHeap_cons h).2

theorem evalBegin_goes (hrec : RecAlike C D rec again) (φ : Renaming) {args : List Sexp}
    (h : Sexp.anyAsksHeap args = false) :
    Goes C D φ (evalBegin rec args) (evalBegin again args) :=
  .ite (fun _ => (Steps.push .nil).goes) fun _ => evalForms_goes hrec args φ h

theorem evalString_goes (φ : Renaming) (s : String) :
    Goes C D φ (evalString H s) (evalString K s) :=
  Lockstep.bind (Goes.maybeGc φ) fun _ _ _ _ =>
    Lockstep.bind (Steps.alloc fun _ _ hA => hA.allocString _) fun _ _ _ hstr =>
      Steps.bind .countAllocation fun _ _ _ => (Steps.push (.str hstr.1 hstr.2)).goes

theorem evalQuote_goes (φ : Renaming) (args : List Sexp) :
    Goes C D φ (evalQuote H args) (evalQuote K args) := by
  match args with
  | [] => exact Steps.fail _
  | [.number n] => exact (Steps.push (.number n)).goes
  | [.bool b] => exact (Steps.push (.bool b)).goes
  | [.nil] => exact (Steps.push .nil).goes
  | [.symbol name] => exact (Steps.push (.symbol name)).goes
  | [.string s] => exact evalString_goes φ s
  | [.list items] => exact Steps.fail _
  | a :: b :: args => cases a <;> exact Steps.fail _

/-- A test, and what follows from its truth. -/
theorem evalTest_goes (hrec : RecAlike C D rec again) (φ : Renaming) {test : Sexp}
    (h : test.asksHeap = false) {f : Bool → EvalM σ Unit} {g : Bool → EvalM τ Unit}
    (hfg : ∀ ψ b, Goes C D ψ (f b) (g b)) :
    Goes C D φ (do
      rec test
      let cond ← pop
      f cond.isTruthy) (do
      again test
      let cond ← pop
      g cond.isTruthy) := by
  refine Lockstep.bind (hrec φ test h) fun ψ _ _ _ => Steps.bind .pop fun a b hab => ?_
  rw [hab.isTruthy]
  exact hfg ψ a.isTruthy

theorem evalIf_goes (hrec : RecAlike C D rec again) (φ : Renaming) {args : List Sexp}
    (h : Sexp.anyAsksHeap args = false) : Goes C D φ (evalIf rec args) (evalIf again args) := by
  match args with
  | [] => exact Steps.fail _
  | [_] => exact Steps.fail _
  | [test, yes] =>
      obtain ⟨htest, h⟩ := Sexp.anyAsksHeap_cons h
      exact evalTest_goes hrec φ htest (f := fun b => if b then rec yes else push .nil)
        (g := fun b => if b then again yes else push .nil) fun ψ b =>
          .ite (fun _ => hrec ψ yes (Sexp.anyAsksHeap_cons h).1) fun _ => (Steps.push .nil).goes
  | [test, yes, no] =>
      obtain ⟨htest, h⟩ := Sexp.anyAsksHeap_cons h
      obtain ⟨hyes, h⟩ := Sexp.anyAsksHeap_cons h
      exact evalTest_goes hrec φ htest (f := fun b => if b then rec yes else rec no)
        (g := fun b => if b then again yes else again no) fun ψ b =>
          .ite (fun _ => hrec ψ yes hyes) fun _ => hrec ψ no (Sexp.anyAsksHeap_cons h).1
  | _ :: _ :: _ :: _ :: _ => exact Steps.fail _

theorem evalGuarded_goes (hrec : RecAlike C D rec again) (φ : Renaming) (name : String)
    (wanted : Bool) {args : List Sexp} (h : Sexp.anyAsksHeap args = false) :
    Goes C D φ (evalGuarded rec name wanted args) (evalGuarded again name wanted args) := by
  match args with
  | [] => exact Steps.fail _
  | test :: body =>
      obtain ⟨htest, hbody⟩ := Sexp.anyAsksHeap_cons h
      exact evalTest_goes hrec φ htest
        (f := fun b => if b = wanted then evalBegin rec body else push .nil)
        (g := fun b => if b = wanted then evalBegin again body else push .nil) fun ψ b =>
          .ite (fun _ => evalBegin_goes hrec ψ hbody) fun _ => (Steps.push .nil).goes

theorem evalUntil_goes (hrec : RecAlike C D rec again) (stops : Bool) :
    ∀ (forms : List Sexp) (φ : Renaming), Sexp.anyAsksHeap forms = false →
      Goes C D φ (evalUntil rec stops forms) (evalUntil again stops forms)
  | [], _, _ => (Steps.push (.bool _)).goes
  | [form], φ, h => hrec φ form (Sexp.anyAsksHeap_cons h).1
  | form :: form' :: forms, φ, h => by
      obtain ⟨hform, hforms⟩ := Sexp.anyAsksHeap_cons h
      refine Lockstep.bind (hrec φ form hform) fun ψ _ _ _ => Steps.bind .pop fun a b hab => ?_
      rw [hab.isTruthy]
      exact Goes.ite (fun _ => (Steps.push hab).goes) fun _ =>
        evalUntil_goes hrec stops (form' :: forms) ψ hforms

/-- The bindings of a `let`: the same names, the values on the stacks. -/
theorem evalBindings_steps (hrec : RecAlike C D rec again) : ∀ (bindings : List Sexp)
    (φ : Renaming), Sexp.anyAsksHeap bindings = false →
      Lockstep (pairing C D) φ (evalBindings rec bindings) (evalBindings again bindings)
        fun _ names names' => names = names'
  | [], _, _ => .pure rfl
  | .number _ :: _, _, _ => Steps.fail _
  | .bool _ :: _, _, _ => Steps.fail _
  | .nil :: _, _, _ => Steps.fail _
  | .string _ :: _, _, _ => Steps.fail _
  | .symbol _ :: _, _, _ => Steps.fail _
  | .list [] :: _, _, _ => Steps.fail _
  | .list [a] :: _, _, _ => by cases a <;> exact Steps.fail _
  | .list (a :: _ :: _ :: _) :: _, _, _ => by cases a <;> exact Steps.fail _
  | .list [.number _, _] :: _, _, _ => Steps.fail _
  | .list [.bool _, _] :: _, _, _ => Steps.fail _
  | .list [.nil, _] :: _, _, _ => Steps.fail _
  | .list [.string _, _] :: _, _, _ => Steps.fail _
  | .list [.list _, _] :: _, _, _ => Steps.fail _
  | .list [.symbol name, expr] :: bindings, φ, h => by
      obtain ⟨hbinding, hrest⟩ := Sexp.anyAsksHeap_cons h
      have hexpr := (Sexp.anyAsksHeap_cons (Sexp.anyAsksHeap_cons hbinding).2).1
      refine Lockstep.bind (hrec φ expr hexpr) fun ψ _ _ _ =>
        Lockstep.bind (evalBindings_steps hrec bindings ψ hrest) ?_
      rintro χ names _ rfl
      exact .pure rfl

theorem evalLetWith_goes (hrec : RecAlike C D rec again) (φ : Renaming) {bindings body : List Sexp}
    (hbindings : Sexp.anyAsksHeap bindings = false) (hbody : Sexp.anyAsksHeap body = false) :
    Goes C D φ (evalLetWith rec bindings body) (evalLetWith again bindings body) := by
  refine .get_bind fun s t hR => ?_
  have hlet : ∀ n n', n = n' → Goes C D φ (do
      let names ← evalBindings rec bindings
      let values ← splitOff n
      pushFrame { bindings := names.zip values }
      leavingLet (evalForms rec body)
      modify Interpreter.popFrame : EvalM σ Unit) (do
      let names ← evalBindings again bindings
      let values ← splitOff n'
      pushFrame { bindings := names.zip values }
      leavingLet (evalForms again body)
      modify Interpreter.popFrame : EvalM τ Unit) := by
    rintro n _ rfl
    refine Lockstep.bind (evalBindings_steps hrec bindings φ hbindings) ?_
    rintro ψ names _ rfl
    exact Steps.bind (.splitOff n) fun _ _ hvalues =>
      Steps.bind (pushFrame_steps (forall₂_zip hvalues names)) fun _ _ _ =>
        Lockstep.bind (Goes.leavingLet (evalForms_goes hrec body ψ hbody)) fun _ _ _ _ =>
          .modify trivial fun _ _ hR => hR.popFrame
  exact hlet _ _ hR.valueStack.length_eq s t hR

theorem evalLet_goes (hrec : RecAlike C D rec again) (φ : Renaming) {args : List Sexp}
    (h : Sexp.anyAsksHeap args = false) : Goes C D φ (evalLet rec args) (evalLet again args) := by
  match args with
  | [] => exact Steps.fail _
  | [a] => cases a <;> exact Steps.fail _
  | a :: form :: body =>
      obtain ⟨ha, hbody⟩ := Sexp.anyAsksHeap_cons h
      cases a with
      | list bindings => exact evalLetWith_goes hrec φ ha hbody
      | nil => exact evalLetWith_goes hrec φ rfl hbody
      | number n => exact Steps.fail _
      | bool b => exact Steps.fail _
      | string s => exact Steps.fail _
      | symbol name => exact Steps.fail _

theorem evalDefineFunction_goes (φ : Renaming) {header body : List Sexp}
    (hbody : Sexp.anyAsksHeap body = false) :
    Goes C D φ (evalDefineFunction header body) (evalDefineFunction header body) := by
  match header with
  | [] => exact Steps.fail _
  | .number _ :: _ => exact Steps.fail _
  | .bool _ :: _ => exact Steps.fail _
  | .nil :: _ => exact Steps.fail _
  | .string _ :: _ => exact Steps.fail _
  | .list _ :: _ => exact Steps.fail _
  | .symbol fname :: params =>
      simp only [evalDefineFunction]
      cases headerParams params with
      | none => exact Steps.fail _
      | some names =>
          refine Steps.bind (.modify fun s t hR => ?_) fun _ _ _ => (Steps.push .nil).goes
          have hfunctions : t.functions = s.functions := hR.functions
          rw [hfunctions]
          refine hR.withFunctions fun f hf => ?_
          rcases mem_insertKey hf with rfl | hf
          · -- a body of several forms becomes a `begin`
            match body, hbody with
            | [], _ => rfl
            | [form], hbody => exact (Sexp.anyAsksHeap_cons hbody).1
            | form :: form' :: forms, hbody => exact hbody
          · exact hR.plain f hf

theorem evalDefine_goes (hrec : RecAlike C D rec again) (φ : Renaming) {args : List Sexp}
    (h : Sexp.anyAsksHeap args = false) :
    Goes C D φ (evalDefine rec args) (evalDefine again args) := by
  match args with
  | [] => exact Steps.fail _
  | .number _ :: _ => exact Steps.fail _
  | .bool _ :: _ => exact Steps.fail _
  | .nil :: _ => exact Steps.fail _
  | .string _ :: _ => exact Steps.fail _
  | .list header :: body => exact evalDefineFunction_goes φ (Sexp.anyAsksHeap_cons h).2
  | [.symbol _] => exact Steps.fail _
  | .symbol _ :: _ :: _ :: _ => exact Steps.fail _
  | [.symbol name, expr] =>
      have hexpr := (Sexp.anyAsksHeap_cons (Sexp.anyAsksHeap_cons h).2).1
      exact Lockstep.bind (hrec φ expr hexpr) fun _ _ _ _ => Steps.bind .pop fun _ _ hab =>
        Steps.bind (defineGlobal_steps name hab) fun _ _ _ => (Steps.push .nil).goes

theorem evalSet_goes (hrec : RecAlike C D rec again) (φ : Renaming) {args : List Sexp}
    (h : Sexp.anyAsksHeap args = false) : Goes C D φ (evalSet rec args) (evalSet again args) := by
  match args with
  | [] => exact Steps.fail _
  | [a] => cases a <;> exact Steps.fail _
  | a :: _ :: _ :: _ => cases a <;> exact Steps.fail _
  | [.number _, _] => exact Steps.fail _
  | [.bool _, _] => exact Steps.fail _
  | [.nil, _] => exact Steps.fail _
  | [.string _, _] => exact Steps.fail _
  | [.list _, _] => exact Steps.fail _
  | [.symbol name, expr] =>
      have hexpr := (Sexp.anyAsksHeap_cons (Sexp.anyAsksHeap_cons h).2).1
      exact Lockstep.bind (hrec φ expr hexpr) fun _ _ _ _ => Steps.bind .pop fun _ _ hab =>
        assign_goes name hab

/-! ## Calls -/

theorem evalArgs_goes (hrec : RecAlike C D rec again) : ∀ (args : List Sexp) (φ : Renaming),
    Sexp.anyAsksHeap args = false → Goes C D φ (evalArgs rec args) (evalArgs again args)
  | [], _, _ => .pure trivial
  | a :: args, φ, h =>
      Lockstep.bind (hrec φ a (Sexp.anyAsksHeap_cons h).1) fun ψ _ _ _ =>
        evalArgs_goes hrec args ψ (Sexp.anyAsksHeap_cons h).2

/-- The frame of a call. -/
theorem applyFunction_goes (hrec : RecAlike C D rec again) (φ : Renaming) (name : String)
    {args args' : List Value} (h : List.Forall₂ (Same φ) args args') :
    Goes C D φ (applyFunction rec name args) (applyFunction again name args') := by
  refine .get_bind fun s t hR => ?_
  have hfunctions : t.functions = s.functions := hR.functions
  rw [hfunctions]
  cases hlookup : s.functions.lookup name with
  | none => exact .error (.error (.same _) hR)
  | some fdef =>
      have hbody : fdef.body.asksHeap = false := hR.plain _ (lookup_mem hlookup)
      have hcall : ∀ n n', n = n' → Goes C D φ (if fdef.params.length = n then do
          pushFrame { bindings := fdef.params.zip args }
          modify fun s : Interpreter σ => { s with
            stats := { s.stats with functionCalls := s.stats.functionCalls + 1 } }
          poppingFrame (rec fdef.body)
        else fail (.badArity name fdef.params.length n)) (if fdef.params.length = n' then do
          pushFrame { bindings := fdef.params.zip args' }
          modify fun t : Interpreter τ => { t with
            stats := { t.stats with functionCalls := t.stats.functionCalls + 1 } }
          poppingFrame (again fdef.body)
        else fail (.badArity name fdef.params.length n')) := by
        rintro n _ rfl
        exact Goes.ite (fun _ => Steps.bind (pushFrame_steps (forall₂_zip h fdef.params))
          fun _ _ _ => Steps.bind (.modify fun _ _ hR => hR.withStats hR.allocations) fun _ _ _ =>
            Goes.poppingFrame (hrec φ fdef.body hbody)) fun _ => Steps.fail _
      exact hcall _ _ h.length_eq s t hR

theorem evalCall_goes (hrec : RecAlike C D rec again) (φ : Renaming) (fuel : Nat) {name : String}
    (hname : name ∉ heapQueries) {args : List Sexp} (h : Sexp.anyAsksHeap args = false) :
    Goes C D φ (evalCall H rec fuel name args) (evalCall K again fuel name args) := by
  refine .get_bind fun s t hR => ?_
  have hcall : ∀ n n', n = n' → Goes C D φ (do
      evalArgs rec args
      let argValues ← splitOff n
      if ← tryBuiltin H fuel name argValues then pure () else applyFunction rec name argValues) (do
      evalArgs again args
      let argValues ← splitOff n'
      if ← tryBuiltin K fuel name argValues then pure ()
      else applyFunction again name argValues) := by
    rintro n _ rfl
    refine Lockstep.bind (evalArgs_goes hrec args φ h) fun ψ _ _ _ =>
      Steps.bind (.splitOff n) fun vs us hvalues => ?_
    have hrow := rel_lookup (fun hb => hb.1) (builtins_alike (C := C) (D := D) fuel) name
    unfold tryBuiltin
    revert hrow
    generalize (builtins H fuel).lookup name = x, (builtins K fuel).lookup name = y
    intro hrow
    cases hrow with
    | none => exact applyFunction_goes hrec ψ name hvalues
    | @some body body' hrow =>
        have hbody := hrow.2 hname ψ vs us hvalues
        show Goes C D ψ ((body vs >>= fun _ => pure true) >>= _)
          ((body' us >>= fun _ => pure true) >>= _)
        rw [bind_assoc, bind_assoc]
        exact Lockstep.bind hbody fun _ _ _ _ => .pure trivial
  exact hcall _ _ hR.valueStack.length_eq s t hR

theorem evalSymbolForm_goes (hrec : RecAlike C D rec again) (φ : Renaming) (fuel : Nat)
    {sym : String} (hsym : sym ∉ heapQueries) {args : List Sexp}
    (h : Sexp.anyAsksHeap args = false) :
    Goes C D φ (evalSymbolForm H rec fuel sym args) (evalSymbolForm K again fuel sym args) :=
  .ite (fun _ => evalQuote_goes φ args) fun _ => .ite (fun _ => evalIf_goes hrec φ h) fun _ =>
    .ite (fun _ => evalLet_goes hrec φ h) fun _ => .ite (fun _ => evalBegin_goes hrec φ h) fun _ =>
    .ite (fun _ => evalDefine_goes hrec φ h) fun _ => .ite (fun _ => evalSet_goes hrec φ h) fun _ =>
    .ite (fun _ => evalGuarded_goes hrec φ _ _ h) fun _ =>
    .ite (fun _ => evalGuarded_goes hrec φ _ _ h) fun _ =>
    .ite (fun _ => evalUntil_goes hrec _ args φ h) fun _ =>
    .ite (fun _ => evalUntil_goes hrec _ args φ h) fun _ => evalCall_goes hrec φ fuel hsym h

theorem evalList_goes (hrec : RecAlike C D rec again) (φ : Renaming) (fuel : Nat)
    {items : List Sexp} (h : Sexp.anyAsksHeap items = false) :
    Goes C D φ (evalList H rec fuel items) (evalList K again fuel items) := by
  match items with
  | [] => exact (Steps.push .nil).goes
  | head :: args =>
      obtain ⟨hhead, hargs⟩ := Sexp.anyAsksHeap_cons h
      cases head with
      | symbol sym =>
          have hsym : sym ∉ heapQueries := fun hmem =>
            Bool.false_ne_true (hhead.symm.trans (List.contains_iff_mem.2 hmem))
          exact evalSymbolForm_goes hrec φ fuel hsym hargs
      | number n => exact Steps.fail _
      | bool b => exact Steps.fail _
      | nil => exact Steps.fail _
      | string s => exact Steps.fail _
      | list items => exact Steps.fail _

theorem evalForm_goes (hrec : RecAlike C D rec again) (φ : Renaming) (fuel : Nat) {sexp : Sexp}
    (h : sexp.asksHeap = false) :
    Goes C D φ (evalForm H rec fuel sexp) (evalForm K again fuel sexp) := by
  refine Steps.bind (.modify fun _ _ hR => hR.withStats hR.allocations) fun _ _ _ => ?_
  cases sexp with
  | number n => exact (Steps.push (.number n)).goes
  | bool b => exact (Steps.push (.bool b)).goes
  | nil => exact (Steps.push .nil).goes
  | string s => exact evalString_goes φ s
  | symbol name => exact Steps.bind (lookup_steps name) fun _ _ hab => (Steps.push hab).goes
  | list items => exact evalList_goes hrec φ fuel h

end Forms

/-! ## Whole programs -/

/-- By induction on the fuel, which is the depth of the recursion. -/
theorem eval_goes : ∀ (fuel : Nat), RecAlike C D (eval H fuel) (eval K fuel)
  | 0, _, _, _ => Steps.outOfFuel
  | fuel + 1, φ, _, h => evalForm_goes (eval_goes fuel) φ fuel h

theorem evalTopLevel_moved (φ : Renaming) (fuel : Nat) {sexp : Sexp} (h : sexp.asksHeap = false) :
    Lockstep (pairing C D) φ (evalTopLevel H fuel sexp) (evalTopLevel K fuel sexp)
      fun _ v v' => Moved v v' := by
  refine Steps.bind (.modify fun _ _ hR => hR.withStats hR.allocations) fun _ _ _ =>
    Lockstep.bind (eval_goes fuel φ sexp h) fun ψ _ _ _ => .get_bind fun s t hR => ?_
  have hlast := forall₂_getLast? hR.valueStack
  revert hlast
  generalize s.valueStack.getLast? = x, t.valueStack.getLast? = y
  intro hlast
  cases hlast with
  | none => exact .error (.error (.same _) hR)
  | @some a b hab =>
      -- the safepoint may move the object of the value, which no root holds
      have hend : Lockstep (pairing C D) ψ (do
          drop
          maybeGc H
          return a : EvalM σ Value) (do
          drop
          maybeGc K
          return b : EvalM τ Value) fun _ v v' => Moved v v' :=
        Steps.bind .drop fun _ _ _ => Lockstep.bind (Goes.maybeGc ψ) fun _ _ _ _ => .pure hab.moved
      exact hend s t hR

theorem runForms_moved (fuel : Nat) : ∀ (forms : List Sexp) (φ : Renaming) {v v' : Value},
    Moved v v' → Sexp.anyAsksHeap forms = false →
      Lockstep (pairing C D) φ (runForms H fuel v forms) (runForms K fuel v' forms)
        fun _ v v' => Moved v v'
  | [], _, _, _, hmoved, _ => .pure hmoved
  | form :: forms, φ, _, _, _, h => by
      obtain ⟨hform, hforms⟩ := Sexp.anyAsksHeap_cons h
      exact Lockstep.bind (evalTopLevel_moved φ fuel hform) fun ψ _ _ hmoved =>
        runForms_moved fuel forms ψ hmoved hforms

/-- What a program that does not ask about the heap computes depends neither on the heap nor on
when, or how, it collects. -/
theorem runSource_agrees (C : Contract H) (D : Contract K) (fuel : Nat)
    (read : Except String (List Sexp))
    (hread : ∀ forms, read = .ok forms → Sexp.anyAsksHeap forms = false) (h : σ) (k : τ)
    (order order' : MapOrder) :
    Agree (pairing C D) (fun _ v v' => Moved v v') (runSource H fuel read (.new h order))
      (runSource K fuel read (.new k order')) := by
  have hR : Related C D (fun _ _ => False) (.new h order) (.new k order') := .new h k order order'
  cases read with
  | error e => exact .error (.error (.same _) hR)
  | ok forms => exact runForms_moved fuel forms _ (Moved.refl .nil) (hread forms rfl) _ _ hR

end Programs

/-- `(define xs (list 1 2)) (car (cdr xs))`. -/
def secondOfList : List Sexp :=
  [.list [.symbol "define", .symbol "xs", .list [.symbol "list", .number 1, .number 2]],
    .list [.symbol "car", .list [.symbol "cdr", .symbol "xs"]]]

/-- An arena without blocks. -/
def Arena.empty : Arena where
  first := 0
  next := 0
  kind := fun _ => .cons
  cells := fun _ => 0
  ordered := Nat.le_refl 0
  inside := Nat.zero_le _
  fits := fun _ => by decide

/-- A heap that never collects by itself, and one that moves everything at every safepoint. -/
theorem runSource_agrees_arenas : letI := asciiTables
    Agree (pairing (arenaContract .Direct false) (arenaContract .Shared true))
      (fun _ v v' => Moved v v')
      (runSource (arena .Direct false) 6 (.ok secondOfList) (.new .empty ⟨id, List.Perm.refl⟩))
      (runSource (arena .Shared true) 6 (.ok secondOfList)
        (.new .empty ⟨List.reverse, List.reverse_perm⟩)) := by
  let _ := asciiTables
  refine runSource_agrees _ _ 6 _ ?_ _ _ _ _
  rintro forms hforms
  cases hforms
  decide

end NewGc.Lisp
