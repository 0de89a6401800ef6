import NewGc.Lisp.Eval

/-!
# Stacks — what an evaluation leaves on the interpreter's two stacks

An evaluation that succeeds leaves the frames as deep as they were and one more value on top of the
old ones.  An evaluation that fails leaves the frames as deep as they were unless the error comes
out of the body of a `let`, whose frame then stays.
-/

namespace NewGc.Lisp

variable {σ : Type} {α β : Type}

/-! ## Stack effects -/

/-- The same value, after collections may have moved its object. -/
def Moved (v v' : Value) : Prop := ∃ w, v' = v.withWord w

/-- `s'` has `k` values on top of the values of `s`, and as many frames. -/
structure Grown (s : Interpreter σ) (k : Nat) (s' : Interpreter σ) : Prop where
  frames : s'.frames.length = s.frames.length
  values : ∃ old new, s'.valueStack = old ++ new ∧ new.length = k ∧
    List.Forall₂ Moved s.valueStack old

/-- The frames after a failed evaluation that started with the frames of `s`. -/
def Unwound (s : Interpreter σ) (leftLet : Bool) (s' : Interpreter σ) : Prop :=
  if leftLet then s.frames.length < s'.frames.length else s'.frames.length = s.frames.length

/-- A result seen from `s`: `k` values more, or frames as `Unwound` says. -/
def Ends (s : Interpreter σ) (k : Nat) : EStateM.Result Exit (Interpreter σ) α → Prop
  | .ok _ s' => Grown s k s'
  | .error (.error _ leftLet) s' => Unwound s leftLet s'
  | .error _ _ => True

/-- From `k` values on top of `s₀` to `k'`. -/
def Leaves (s₀ : Interpreter σ) (k : Nat) (m : EvalM σ α) (k' : Nat) : Prop :=
  ∀ s, Grown s₀ k s → Ends s₀ k' (m s)

/-- An evaluation that adds `n` values. -/
def Balanced (m : EvalM σ α) (n : Nat) : Prop := ∀ s, Ends s n (m s)

namespace Moved

theorem refl (v : Value) : Moved v v := by
  cases v <;> first | exact ⟨0, rfl⟩ | exact ⟨_, rfl⟩

theorem withWord (v : Value) (w : Word) : Moved v (v.withWord w) := ⟨w, rfl⟩

theorem trans {v v' v'' : Value} (h₁ : Moved v v') (h₂ : Moved v' v'') : Moved v v'' := by
  obtain ⟨w, rfl⟩ := h₁
  obtain ⟨w', rfl⟩ := h₂
  refine ⟨w', ?_⟩
  cases v <;> rfl

theorem refl_all (vs : List Value) : List.Forall₂ Moved vs vs :=
  List.forall₂_same.2 fun v _ => refl v

theorem trans_all {vs vs' vs'' : List Value} (h₁ : List.Forall₂ Moved vs vs')
    (h₂ : List.Forall₂ Moved vs' vs'') : List.Forall₂ Moved vs vs'' := by
  induction h₁ generalizing vs'' with
  | nil => exact h₂
  | cons hv _ ih =>
      cases h₂ with
      | cons hv' htail => exact .cons (hv.trans hv') (ih htail)

end Moved

namespace Grown

variable {s s' s'' : Interpreter σ} {k n : Nat}

theorem refl (s : Interpreter σ) : Grown s 0 s :=
  ⟨rfl, s.valueStack, [], (List.append_nil _).symm, rfl, Moved.refl_all _⟩

theorem trans (h₁ : Grown s k s') (h₂ : Grown s' n s'') : Grown s (k + n) s'' := by
  obtain ⟨old, new, heq, hlen, hmoved⟩ := h₁.values
  obtain ⟨old', new', heq', hlen', hmoved'⟩ := h₂.values
  rw [heq] at hmoved'
  -- the values `s'` had on top are old ones for `s''`
  obtain ⟨olds, news, hsplit, holds, hnews⟩ :
      ∃ olds news, old' = olds ++ news ∧ List.Forall₂ Moved old olds ∧
        List.Forall₂ Moved new news := by
    refine ⟨old'.take old.length, old'.drop old.length, (List.take_append_drop _ _).symm, ?_, ?_⟩
    · have htake := List.forall₂_take old.length hmoved'
      rwa [List.take_left] at htake
    · have hdrop := List.forall₂_drop old.length hmoved'
      rwa [List.drop_left] at hdrop
  refine ⟨h₂.frames.trans h₁.frames, olds, news ++ new', ?_, ?_, Moved.trans_all hmoved holds⟩
  · rw [heq', hsplit, List.append_assoc]
  · rw [List.length_append, ← hnews.length_eq, hlen, hlen']

theorem of_same (h : Grown s k s') (hframes : s''.frames.length = s'.frames.length)
    (hvalues : s''.valueStack = s'.valueStack) : Grown s k s'' := by
  obtain ⟨old, new, heq, hlen, hmoved⟩ := h.values
  exact ⟨hframes.trans h.frames, old, new, hvalues.trans heq, hlen, hmoved⟩

/-- Nothing but moves. -/
theorem of_moved (hframes : s'.frames.length = s.frames.length)
    (hvalues : List.Forall₂ Moved s.valueStack s'.valueStack) : Grown s 0 s' :=
  ⟨hframes, s'.valueStack, [], (List.append_nil _).symm, rfl, hvalues⟩

theorem height (h : Grown s k s') : s'.valueStack.length = s.valueStack.length + k := by
  obtain ⟨old, new, heq, hlen, hmoved⟩ := h.values
  rw [heq, List.length_append, hlen, hmoved.length_eq]

end Grown

namespace Leaves

variable {s₀ : Interpreter σ} {k k' k'' : Nat}

theorem bind {m : EvalM σ α} {f : α → EvalM σ β} (hm : Leaves s₀ k m k')
    (hf : ∀ a, Leaves s₀ k' (f a) k'') : Leaves s₀ k (m >>= f) k'' := by
  intro s hs
  have hrun := hm s hs
  show Ends s₀ k'' (EStateM.bind m f s)
  unfold EStateM.bind
  cases hres : m s with
  | ok a s' =>
      rw [hres] at hrun
      exact hf a s' hrun
  | error e s' =>
      rw [hres] at hrun
      cases e with
      | error e l => exact hrun
      | panic d => trivial
      | outOfFuel => trivial

/-- Reading the state. -/
theorem get_bind {f : Interpreter σ → EvalM σ β}
    (hf : ∀ s, Grown s₀ k s → Ends s₀ k' (f s s)) : Leaves s₀ k (get >>= f) k' :=
  fun s hs => hf s hs

theorem pure (a : α) : Leaves s₀ k (pure a : EvalM σ α) k := fun _ hs => hs

theorem fail (e : RunError) : Leaves s₀ k (Lisp.fail e : EvalM σ α) k' := fun _ hs => hs.frames

theorem panic (d : Option Demand) : Leaves s₀ k (throw (.panic d) : EvalM σ α) k' :=
  fun _ _ => trivial

theorem outOfFuel : Leaves s₀ k (throw .outOfFuel : EvalM σ α) k' := fun _ _ => trivial

theorem modify {f : Interpreter σ → Interpreter σ}
    (hframes : ∀ s, (f s).frames.length = s.frames.length)
    (hvalues : ∀ s, (f s).valueStack = s.valueStack) :
    Leaves s₀ k (modify f : EvalM σ Unit) k :=
  fun s hs => hs.of_same (hframes s) (hvalues s)

theorem push (v : Value) : Leaves s₀ k (Lisp.push v : EvalM σ Unit) (k + 1) := by
  intro s hs
  obtain ⟨old, new, heq, hlen, hmoved⟩ := hs.values
  refine ⟨hs.frames, old, new ++ [v], ?_, ?_, hmoved⟩
  · show s.valueStack ++ [v] = _
    rw [heq, List.append_assoc]
  · rw [List.length_append, hlen]
    rfl

theorem drop : Leaves s₀ (k + 1) (Lisp.drop : EvalM σ Unit) k := by
  intro s hs
  obtain ⟨old, new, heq, hlen, hmoved⟩ := hs.values
  have hne : new ≠ [] := by
    rintro rfl
    cases hlen
  refine ⟨hs.frames, old, new.dropLast, ?_, ?_, hmoved⟩
  · show s.valueStack.dropLast = _
    rw [heq, List.dropLast_append_of_ne_nil hne]
  · rw [List.length_dropLast, hlen]
    rfl

theorem pop : Leaves s₀ (k + 1) (Lisp.pop : EvalM σ Value) k := by
  refine get_bind fun s hs => ?_
  cases s.valueStack.getLast? with
  | none => trivial
  | some v => exact drop s hs

theorem orPanic (d : Option Demand) (x : Option α) :
    Leaves s₀ k (Lisp.orPanic d x : EvalM σ α) k := by
  cases x with
  | none => exact panic d
  | some a => exact pure a

theorem readHeap (f : σ → Option α) : Leaves s₀ k (Lisp.readHeap f) k :=
  get_bind fun s hs => orPanic none (f s.heap) s hs

theorem onHeap (d : Option Demand) (f : σ → Option (α × σ)) :
    Leaves s₀ k (Lisp.onHeap d f) k := by
  refine get_bind fun s hs => ?_
  cases hf : f s.heap with
  | none => trivial
  | some r =>
      obtain ⟨a, heap⟩ := r
      exact hs.of_same rfl rfl

theorem countAllocation : Leaves s₀ k (Lisp.countAllocation : EvalM σ Unit) k :=
  modify (fun _ => rfl) fun _ => rfl

/-- Back to the height of the start. -/
theorem splitOff : Leaves s₀ k (Lisp.splitOff s₀.valueStack.length : EvalM σ (List Value)) 0 := by
  refine get_bind fun s hs => ?_
  obtain ⟨old, new, heq, hlen, hmoved⟩ := hs.values
  split
  · trivial
  · refine ⟨hs.frames, old, [], ?_, rfl, hmoved⟩
    show s.valueStack.take s₀.valueStack.length = _
    rw [heq, hmoved.length_eq, List.take_left, List.append_nil]

end Leaves

/-! ## Safepoints -/

theorem Moved.set_all {vs : List Value} {i : Nat} {v v' : Value} (hi : vs[i]? = some v)
    (hv : Moved v v') : List.Forall₂ Moved vs (vs.set i v') := by
  induction vs generalizing i with
  | nil => cases hi
  | cons u vs ih =>
      cases i with
      | zero =>
          cases hi
          exact .cons hv (Moved.refl_all vs)
      | succ i => exact .cons (Moved.refl u) (ih hi)

/-- Writing a root back moves values at most. -/
theorem applyRedistribute_grown {s s' : Interpreter σ} {kind : RootKind} {new : Word}
    (hs : applyRedistribute s kind new = some s') : Grown s 0 s' := by
  unfold applyRedistribute at hs
  cases hv : s.valueAt kind with
  | none => simp [hv] at hs
  | some v =>
      rw [hv] at hs
      dsimp only at hs
      split at hs
      · cases hs
        cases kind with
        | valueStack i => exact .of_moved rfl (Moved.set_all hv (Moved.withWord v new))
        | frame i j => exact .of_moved (List.length_modify ..) (Moved.refl_all _)
        | global name => exact .of_moved rfl (Moved.refl_all _)
      · cases hs

theorem scatterRoots_grown : ∀ (layout : List RootKind) (roots : List Word)
    {s s' : Interpreter σ}, scatterRoots s layout roots = some s' → Grown s 0 s'
  | [], _, s, s', hs => by
      cases hs
      exact .refl s
  | _ :: _, [], _, _, hs => by cases hs
  | kind :: layout, root :: roots, s, s', hs => by
      obtain ⟨s₁, happly, hrest⟩ := Option.bind_eq_some_iff.1 hs
      exact (applyRedistribute_grown happly).trans (scatterRoots_grown layout roots hrest)

namespace Leaves

variable {s₀ : Interpreter σ} {k : Nat} (H : Heap σ)

theorem withRoots (d : Demand) (f : σ → List Word → Option (List Word × σ)) :
    Leaves s₀ k (Lisp.withRoots d f) k := by
  refine get_bind fun s hs => ?_
  cases hf : f s.heap ((gatherRoots s).map (·.1)) with
  | none => trivial
  | some r =>
      obtain ⟨roots, heap⟩ := r
      cases hscatter : scatterRoots { s with heap := heap } ((gatherRoots s).map (·.2)) roots with
      | none =>
          show Ends s₀ k ((Lisp.orPanic none (scatterRoots _ _ _) >>= set) s)
          rw [hscatter]
          trivial
      | some s' =>
          show Ends s₀ k ((Lisp.orPanic none (scatterRoots _ _ _) >>= set) s)
          rw [hscatter]
          have hheap : Grown s 0 { s with heap := heap } := (Grown.refl s).of_same rfl rfl
          exact hs.trans (hheap.trans (scatterRoots_grown _ _ hscatter))

theorem countMinor : Leaves s₀ k (Lisp.countMinor : EvalM σ Unit) k :=
  modify (fun _ => rfl) fun _ => rfl

theorem countMajor : Leaves s₀ k (Lisp.countMajor : EvalM σ Unit) k :=
  modify (fun _ => rfl) fun _ => rfl

theorem doCollect (kind : GcKind) : Leaves s₀ k (Lisp.doCollect H kind) k := by
  unfold Lisp.doCollect
  cases H.mode <;> cases kind
  case Direct.Auto =>
    refine get_bind fun s hs => bind (withRoots _ _) (fun _ => ?_) s hs
    split
    · exact countMajor
    · exact countMinor
  all_goals exact bind (withRoots _ _) fun _ => by first | exact countMinor | exact countMajor

theorem maybeGc : Leaves s₀ k (Lisp.maybeGc H) k := by
  unfold Lisp.maybeGc
  cases H.mode with
  | Shared =>
      refine bind (withRoots _ _) fun _ => get_bind fun s hs => ?_
      split
      · exact (doCollect H .Minor) _ (hs.of_same rfl rfl)
      · exact hs.of_same rfl rfl
  | Direct =>
      refine get_bind fun s hs => ?_
      split
      · exact doCollect H .Auto s hs
      · exact hs

end Leaves

/-! ## Built-ins -/

namespace Leaves

variable {s₀ : Interpreter σ} {k : Nat} (H : Heap σ)

theorem arity (name : String) (n : Nat) (args : List Value) :
    Leaves s₀ k (Lisp.arity name n args : EvalM σ Unit) k := by
  unfold Lisp.arity
  split
  · exact pure ()
  · exact fail _

theorem expectNumber (place : String) (v : Value) :
    Leaves s₀ k (Lisp.expectNumber place v : EvalM σ Int64) k := by
  cases v <;> first | exact pure _ | exact fail _

theorem expectPair (place : String) (v : Value) :
    Leaves s₀ k (Lisp.expectPair place v : EvalM σ Word) k := by
  cases v <;> first | exact pure _ | exact fail _

theorem expectVector (msg : Value → String) (v : Value) :
    Leaves s₀ k (Lisp.expectVector msg v : EvalM σ Word) k := by
  cases v <;> first | exact pure _ | exact fail _

theorem expectStr (msg : String) (v : Value) :
    Leaves s₀ k (Lisp.expectStr msg v : EvalM σ Word) k := by
  cases v <;> first | exact pure _ | exact fail _

theorem arg (args : List Value) (i : Nat) : Leaves s₀ k (Lisp.arg args i : EvalM σ Value) k :=
  orPanic _ _

/-- The arguments of an operation, after its arity check. -/
theorem argNumber (place : String) (args : List Value) (i : Nat) {f : Int64 → EvalM σ β} {k' : Nat}
    (hf : ∀ n, Leaves s₀ k (f n) k') :
    Leaves s₀ k (Lisp.arg args i >>= fun v => Lisp.expectNumber place v >>= f) k' :=
  bind (arg args i) fun v => bind (expectNumber place v) hf

theorem foldNumbers (place : String) (op : Int64 → Int64 → Int64) :
    ∀ (acc : Int64) (args : List Value),
      Leaves s₀ k (Lisp.foldNumbers place op acc args : EvalM σ Int64) k
  | acc, [] => pure acc
  | acc, a :: args => bind (expectNumber place a) fun n => foldNumbers place op (op acc n) args

theorem consTop : Leaves s₀ (k + 2) (Lisp.consTop H) (k + 1) :=
  bind pop fun _ => bind pop fun _ => bind (onHeap _ _) fun _ => bind countAllocation fun _ => push _

theorem pushAll : ∀ (vs : List Value) {k : Nat},
    Leaves s₀ k (Lisp.pushAll vs : EvalM σ Unit) (k + vs.length)
  | [], _ => pure ()
  | v :: vs, k => by
      have hrest : Leaves s₀ (k + 1) (Lisp.pushAll vs : EvalM σ Unit) (k + 1 + vs.length) :=
        pushAll vs
      rw [Nat.add_assoc, Nat.add_comm 1] at hrest
      exact bind (push v) fun _ => hrest

theorem consLoop : ∀ (n : Nat), Leaves s₀ (k + n + 1) (Lisp.consLoop H n) (k + 1)
  | 0 => pure ()
  | n + 1 => by
      have hpair : Leaves s₀ (k + (n + 1) + 1) (Lisp.consTop H) (k + n + 1) := consTop H
      exact bind (maybeGc H) fun _ => bind hpair fun _ => consLoop n

theorem popAll : ∀ (n : Nat) (vals : List Value),
    Leaves s₀ (k + n) (Lisp.popAll n vals : EvalM σ (List Value)) k
  | 0, vals => pure vals
  | n + 1, vals => bind pop fun v => popAll n (v :: vals)

theorem fillVector (w : Word) : ∀ (i : Nat) (vals : List Value),
    Leaves s₀ k (Lisp.fillVector H w i vals) k
  | _, [] => pure ()
  | i, _ :: vals => bind (onHeap _ _) fun _ => fillVector w (i + 1) vals

end Leaves

section Builtins

variable (H : Heap σ)

theorem lookup_mem {β : Type} {key : String} {b : β} : ∀ {l : List (String × β)},
    l.lookup key = some b → (key, b) ∈ l
  | (k, c) :: l, h => by
      rw [List.lookup_cons] at h
      split at h
      · rename_i heq
        cases h
        rw [eq_of_beq heq]
        exact List.mem_cons_self
      · exact List.mem_cons_of_mem _ (lookup_mem h)

theorem rel_lookup {α β : Type} {R : String × α → String × β → Prop}
    (hkey : ∀ {b b'}, R b b' → b.1 = b'.1) {l : List (String × α)} {u : List (String × β)}
    (h : List.Forall₂ R l u) (name : String) :
    Option.Rel (fun a a' => R (name, a) (name, a')) (l.lookup name) (u.lookup name) := by
  induction h with
  | nil => exact .none
  | @cons b b' l u hab _ ih =>
      obtain ⟨k, a⟩ := b
      obtain ⟨k', a'⟩ := b'
      obtain rfl : k = k' := hkey hab
      rw [List.lookup_cons, List.lookup_cons]
      by_cases hname : name = k
      · subst hname
        rw [beq_self_eq_true]
        exact .some hab
      · rw [beq_eq_false_iff_ne.2 hname]
        exact ih

theorem mem_insertKey {α : Type} {name : String} {a : α} {c : String × α} :
    ∀ {l : List (String × α)}, c ∈ insertKey name a l → c = (name, a) ∨ c ∈ l
  | [], hc => Or.inl (List.mem_singleton.1 hc)
  | (k, b) :: l, hc => by
      unfold insertKey at hc
      split at hc
      · rename_i hk
        rcases List.mem_cons.1 hc with rfl | hc
        · exact Or.inl (by rw [hk])
        · exact Or.inr (List.mem_cons_of_mem _ hc)
      · rcases List.mem_cons.1 hc with rfl | hc
        · exact Or.inr List.mem_cons_self
        · exact (mem_insertKey hc).imp_right (List.mem_cons_of_mem _)

end Builtins

/-! ## Special forms -/

section Forms

variable {H : Heap σ} {rec : Sexp → EvalM σ Unit}

/-- `s'` is `s` with one more frame. -/
structure Framed (s s' : Interpreter σ) : Prop where
  frames : s'.frames.length = s.frames.length + 1
  values : s'.valueStack = s.valueStack

theorem Framed.popFrame {s s' s'' : Interpreter σ} {k : Nat} (h : Framed s s')
    (hgrown : Grown s' k s'') : Grown s k s''.popFrame := by
  obtain ⟨old, new, heq, hlen, hmoved⟩ := hgrown.values
  rw [h.values] at hmoved
  refine ⟨?_, old, new, heq, hlen, hmoved⟩
  show s''.frames.dropLast.length = s.frames.length
  rw [List.length_dropLast, hgrown.frames, h.frames]
  rfl

/-- A frame popped on the error path too. -/
theorem Framed.unwound {s s' s'' : Interpreter σ} {l : Bool} (h : Framed s s')
    (hu : Unwound s' l s'') : Unwound s l s''.popFrame := by
  unfold Unwound at hu ⊢
  have hpop : s''.popFrame.frames.length = s''.frames.length - 1 := List.length_dropLast
  rw [h.frames] at hu
  rw [hpop]
  cases l with
  | true => exact Nat.lt_sub_of_add_lt hu
  | false => exact Nat.sub_eq_of_eq_add hu

/-- Whatever ends the body of a `let` with an error leaves the frame of the `let`. -/
theorem Framed.leavingLet {s s' : Interpreter σ} {body : EvalM σ Unit} (h : Framed s s')
    (hbody : Balanced body 1) :
    Ends s 1 ((do
      leavingLet body
      modify Interpreter.popFrame : EvalM σ Unit) s') := by
  have hrun := hbody s'
  show Ends s 1 (EStateM.bind (Lisp.leavingLet body) (fun _ => modify Interpreter.popFrame) s')
  unfold EStateM.bind Lisp.leavingLet
  cases hres : body s' with
  | ok a s'' =>
      rw [hres] at hrun
      exact h.popFrame hrun
  | error e s'' =>
      rw [hres] at hrun
      cases e with
      | error e l =>
          -- an inner `let` may have left more frames
          have hdeep : s'.frames.length ≤ s''.frames.length := by
            simp only [Ends, Unwound] at hrun
            split at hrun
            · exact hrun.le
            · exact hrun.ge
          rw [h.frames] at hdeep
          exact hdeep
      | panic d => trivial
      | outOfFuel => trivial

theorem Framed.poppingFrame {s s' : Interpreter σ} {body : EvalM σ Unit} (h : Framed s s')
    (hbody : Balanced body 1) : Ends s 1 (poppingFrame body s') := by
  have hrun := hbody s'
  unfold Lisp.poppingFrame
  cases hres : body s' with
  | ok a s'' =>
      rw [hres] at hrun
      exact h.popFrame hrun
  | error e s'' =>
      rw [hres] at hrun
      cases e with
      | error e l => exact h.unwound hrun
      | panic d => trivial
      | outOfFuel => trivial

end Forms

/-! ## Whole evaluations -/

/-- Tables for ASCII texts. -/
abbrev asciiTables : UnicodeTables where
  graphemeExtend _ := false
  printable c := decide (0x20 ≤ c.toNat ∧ c.toNat < 0x7f)

end NewGc.Lisp
