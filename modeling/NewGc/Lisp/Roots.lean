import NewGc.Lisp.Eval

/-!
# Roots — gathering and scattering the interpreter's roots

`gather_roots` lists the words of the stack, the frames and the globals with their places, and
`scatter_roots` writes them back after a collection.  Whatever order the hash map of globals has,
scattering the rewritten roots renames every heap value of the interpreter and nothing else.
-/

namespace NewGc.Lisp

variable {σ : Type}

/-! ## Renaming an interpreter -/

/-- The value with its word rewritten. -/
def Value.rename (ρ : Word → Word) : Value → Value
  | .pair w => .pair (ρ w)
  | .vector w => .vector (ρ w)
  | .str w => .str (ρ w)
  | v => v

theorem Value.withWord_rename (ρ : Word → Word) {v : Value} {w : Word} (h : v.word? = some w) :
    v.withWord (ρ w) = v.rename ρ := by
  cases v <;> cases h <;> rfl

theorem Value.rename_of_plain (ρ : Word → Word) {v : Value} (h : v.word? = none) :
    v.rename ρ = v := by
  cases v <;> first | rfl | cases h

def renameBinding (ρ : Word → Word) (b : String × Value) : String × Value := (b.1, b.2.rename ρ)

def Frame.rename (ρ : Word → Word) (frame : Frame) : Frame where
  bindings := frame.bindings.map (renameBinding ρ)

/-- The interpreter with the words of all its values rewritten. -/
def Interpreter.rename (ρ : Word → Word) (s : Interpreter σ) : Interpreter σ :=
  { s with
    valueStack := s.valueStack.map (·.rename ρ)
    frames := s.frames.map (·.rename ρ)
    globals := s.globals.map (renameBinding ρ) }

/-! ## Scattering -/

section Scatter

variable (ρ : Word → Word)

/-- Scatter the rewritten words of some places. -/
def scatterAll (s : Interpreter σ) (l : List (Word × RootKind)) : Option (Interpreter σ) :=
  scatterRoots s (l.map (·.2)) ((l.map (·.1)).map ρ)

theorem scatterAll_append (s : Interpreter σ) (l l' : List (Word × RootKind)) :
    scatterAll ρ s (l ++ l') = (scatterAll ρ s l).bind fun s' => scatterAll ρ s' l' := by
  induction l generalizing s with
  | nil => rfl
  | cons r l ih =>
      show (applyRedistribute s r.2 (ρ r.1)).bind (fun s' => scatterAll ρ s' (l ++ l')) =
        ((applyRedistribute s r.2 (ρ r.1)).bind fun s' => scatterAll ρ s' l).bind _
      rw [Option.bind_assoc]
      exact congrArg _ (funext ih)

/-- One place that holds a heap value. -/
theorem scatterAll_cons {s : Interpreter σ} {kind : RootKind} {v : Value} {w : Word}
    (hv : s.valueAt kind = some v) (hw : v.word? = some w) (l : List (Word × RootKind)) :
    scatterAll ρ s ((w, kind) :: l) = scatterAll ρ (s.setValueAt (v.rename ρ) kind) l := by
  have happly : applyRedistribute s kind (ρ w) = some (s.setValueAt (v.rename ρ) kind) := by
    unfold applyRedistribute
    rw [hv]
    dsimp only
    rw [hw, Value.withWord_rename ρ hw]
    rfl
  show (applyRedistribute s kind (ρ w)).bind (fun s' => scatterAll ρ s' l) = _
  rw [happly, Option.bind_some]

/-! ## Numbered places -/

/-- The words of the values of a list, with their numbered places. -/
def placedRoots {α : Type} (value : α → Value) (place : Nat → RootKind) (n : Nat) (l : List α) :
    List (Word × RootKind) :=
  (l.zipIdx n).filterMap fun (a, i) => (value a).word?.map fun w => (w, place i)

theorem placedRoots_plain {α : Type} {value : α → Value} {a : α} (ha : (value a).word? = none)
    (place : Nat → RootKind) (n : Nat) (l : List α) :
    placedRoots value place n (a :: l) = placedRoots value place (n + 1) l := by
  have hnone : (value a).word?.map (fun w => (w, place n)) = none := by
    rw [ha]
    rfl
  unfold placedRoots
  rw [List.zipIdx_cons]
  exact List.filterMap_cons_none hnone

theorem placedRoots_word {α : Type} {value : α → Value} {a : α} {w : Word}
    (ha : (value a).word? = some w) (place : Nat → RootKind) (n : Nat) (l : List α) :
    placedRoots value place n (a :: l) = (w, place n) :: placedRoots value place (n + 1) l := by
  have hsome : (value a).word?.map (fun w => (w, place n)) = some (w, place n) := by
    rw [ha]
    rfl
  unfold placedRoots
  rw [List.zipIdx_cons]
  exact List.filterMap_cons_some hsome

/-- Scattering to the numbered places of a list renames its values. -/
theorem scatter_placed {α : Type} (value : α → Value) (place : Nat → RootKind)
    (update : α → Value → α) (put : List α → Interpreter σ)
    (hat : ∀ done a rest, (put (done ++ a :: rest)).valueAt (place done.length) = some (value a))
    (hset : ∀ done a rest v,
      (put (done ++ a :: rest)).setValueAt v (place done.length) = put (done ++ update a v :: rest))
    (hsame : ∀ a, update a (value a) = a) : ∀ (l done : List α),
      scatterAll ρ (put (done ++ l)) (placedRoots value place done.length l) =
        some (put (done ++ l.map fun a => update a ((value a).rename ρ)))
  | [], done => rfl
  | a :: l, done => by
      have hnext : ∀ b, scatterAll ρ (put (done ++ b :: l))
          (placedRoots value place (done.length + 1) l) =
            some (put (done ++ b :: l.map fun a => update a ((value a).rename ρ))) := by
        intro b
        have ih := scatter_placed value place update put hat hset hsame l (done ++ [b])
        rw [List.length_append, List.append_assoc, List.append_assoc] at ih
        exact ih
      cases hw : (value a).word? with
      | none => rw [placedRoots_plain hw, hnext, List.map_cons, Value.rename_of_plain ρ hw, hsame]
      | some w =>
          rw [placedRoots_word hw, scatterAll_cons ρ (hat done a l) hw, hset, hnext, List.map_cons]

theorem getElem?_middle {α : Type} (done : List α) (a : α) (rest : List α) :
    (done ++ a :: rest)[done.length]? = some a := by
  rw [List.getElem?_append_right (Nat.le_refl _), Nat.sub_self, List.getElem?_cons_zero]

theorem modify_middle {α : Type} (f : α → α) : ∀ (done : List α) (a : α) (rest : List α),
    (done ++ a :: rest).modify done.length f = done ++ f a :: rest
  | [], _, _ => rfl
  | b :: done, a, rest => by
      show b :: (done ++ a :: rest).modify done.length f = _
      rw [modify_middle f done a rest]
      rfl

/-- The roots of the value stack. -/
theorem scatter_stack (s : Interpreter σ) :
    scatterAll ρ s (placedRoots id .valueStack 0 s.valueStack) =
      some { s with valueStack := s.valueStack.map (·.rename ρ) } := by
  refine scatter_placed ρ id .valueStack (fun _ v => v)
    (fun vs => ({ s with valueStack := vs } : Interpreter σ)) ?_ ?_ (fun _ => rfl) s.valueStack []
  · exact fun done v rest => getElem?_middle done v rest
  · intro done v rest u
    have hset : (done ++ v :: rest).set done.length u = done ++ u :: rest := by
      rw [List.set_append_right _ _ (Nat.le_refl _), Nat.sub_self, List.set_cons_zero]
    show ({ s with valueStack := (done ++ v :: rest).set done.length u } : Interpreter σ) = _
    rw [hset]

/-- The roots of one frame. -/
theorem scatter_frame (s : Interpreter σ) (pre post : List Frame) (frame : Frame) :
    scatterAll ρ { s with frames := pre ++ frame :: post }
        (placedRoots (·.2) (.frame pre.length) 0 frame.bindings) =
      some { s with frames := pre ++ frame.rename ρ :: post } := by
  refine scatter_placed ρ (·.2) (.frame pre.length) (fun b v => (b.1, v))
    (fun bs => ({ s with frames := pre ++ { bindings := bs } :: post } : Interpreter σ))
    ?_ ?_ (fun _ => rfl) frame.bindings []
  · intro done b rest
    show ((pre ++ _ :: post)[pre.length]?.bind fun frame : Frame =>
      frame.bindings[done.length]?.map (·.2)) = some b.2
    rw [getElem?_middle, Option.bind_some, getElem?_middle]
    rfl
  · intro done b rest v
    show ({ s with frames := List.modify (pre ++ _ :: post) pre.length fun frame : Frame =>
      { bindings := frame.bindings.modify done.length fun b => (b.1, v) } } : Interpreter σ) = _
    rw [modify_middle, modify_middle]

def frameRoots (n : Nat) (frames : List Frame) : List (Word × RootKind) :=
  (frames.zipIdx n).flatMap fun (frame, i) => placedRoots (·.2) (.frame i) 0 frame.bindings

/-- The roots of the frames. -/
theorem scatter_frames (s : Interpreter σ) : ∀ (frames pre : List Frame),
    scatterAll ρ { s with frames := pre ++ frames } (frameRoots pre.length frames) =
      some { s with frames := pre ++ frames.map (·.rename ρ) }
  | [], pre => rfl
  | frame :: frames, pre => by
      have hroots : frameRoots pre.length (frame :: frames) =
          placedRoots (·.2) (.frame pre.length) 0 frame.bindings ++
            frameRoots (pre.length + 1) frames := rfl
      have ih := scatter_frames s frames (pre ++ [frame.rename ρ])
      rw [List.length_append, List.append_assoc, List.append_assoc] at ih
      rw [hroots, scatterAll_append, scatter_frame, Option.bind_some]
      exact ih

/-! ## The globals -/

/-- The roots of some globals. -/
def globalRoots (l : List (String × Value)) : List (Word × RootKind) :=
  l.filterMap fun (name, v) => v.word?.map fun w => (w, .global name)

theorem lookup_of_mem {α : Type} {name : String} {a : α} : ∀ {l : List (String × α)},
    (l.map (·.1)).Nodup → (name, a) ∈ l → l.lookup name = some a
  | (k, b) :: l, hnodup, hmem => by
      rw [List.map_cons, List.nodup_cons] at hnodup
      rcases List.mem_cons.1 hmem with heq | hmem
      · cases heq
        exact List.lookup_cons_self
      · have hne : name ≠ k := by
          intro heq
          rw [← heq] at hnodup
          exact hnodup.1 (List.mem_map.2 ⟨(name, a), hmem, rfl⟩)
        rw [List.lookup_cons, beq_eq_false_iff_ne.2 hne]
        exact lookup_of_mem hnodup.2 hmem

theorem map_eq_self {α : Type} {f : α → α} {l : List α} (h : ∀ a ∈ l, f a = a) : l.map f = l :=
  (List.map_congr_left h).trans (List.map_id' l)

/-- Bindings with nodup names are told apart by them. -/
theorem binding_unique {α : Type} {name : String} {a b : α} {l : List (String × α)}
    (hnodup : (l.map (·.1)).Nodup) (ha : (name, a) ∈ l) (hb : (name, b) ∈ l) : a = b := by
  have hlookup := lookup_of_mem hnodup ha
  rw [lookup_of_mem hnodup hb] at hlookup
  exact (Option.some.inj hlookup).symm

/-- Assigning to a global that exists. -/
theorem insertKey_of_mem {α : Type} {name : String} {a : α} : ∀ {l : List (String × α)},
    (l.map (·.1)).Nodup → name ∈ l.map (·.1) →
      insertKey name a l = l.map fun b => if b.1 = name then (b.1, a) else b
  | (k, b) :: l, hnodup, hmem => by
      rw [List.map_cons, List.nodup_cons] at hnodup
      rw [List.map_cons] at hmem ⊢
      unfold insertKey
      by_cases hk : k = name
      · -- no other binding has the name
        have hrest : (l.map fun b => if b.1 = name then (b.1, a) else b) = l := by
          refine map_eq_self fun c hc => if_neg ?_
          rintro hname
          exact hnodup.1 (List.mem_map.2 ⟨c, hc, hname.trans hk.symm⟩)
        rw [if_pos hk, if_pos hk, hrest]
      · have hmem' : name ∈ l.map (·.1) := by
          rcases List.mem_cons.1 hmem with heq | hmem
          · exact absurd heq.symm hk
          · exact hmem
        rw [if_neg hk, if_neg hk, insertKey_of_mem hnodup.2 hmem']

/-- Rename the bindings that have one of the names. -/
def renameIn (names : List String) (b : String × Value) : String × Value :=
  if b.1 ∈ names then renameBinding ρ b else b

theorem renameIn_fst (names : List String) (b : String × Value) : (renameIn ρ names b).1 = b.1 := by
  unfold renameIn
  split <;> rfl

theorem map_renameIn_keys (names : List String) (globals : List (String × Value)) :
    ((globals.map (renameIn ρ names)).map (·.1)) = globals.map (·.1) := by
  rw [List.map_map]
  exact List.map_congr_left fun b _ => renameIn_fst ρ names b

theorem renameIn_cons {name : String} {names : List String} (hname : name ∉ names)
    (b : String × Value) : renameIn ρ names (renameIn ρ [name] b) = renameIn ρ (name :: names) b := by
  unfold renameIn
  by_cases hb : b.1 = name
  · have hmiss : (renameBinding ρ b).1 ∉ names := fun h => hname (hb ▸ h)
    rw [if_pos (List.mem_singleton.2 hb), if_neg hmiss, if_pos (List.mem_cons.2 (Or.inl hb))]
  · have hiff : b.1 ∈ name :: names ↔ b.1 ∈ names :=
      ⟨fun h => (List.mem_cons.1 h).resolve_left hb, List.mem_cons_of_mem name⟩
    rw [if_neg (fun h => hb (List.mem_singleton.1 h)), if_congr hiff rfl rfl]

/-- The root of one global. -/
theorem scatter_global (s : Interpreter σ) {globals : List (String × Value)} {name : String}
    {v : Value} (hnodup : (globals.map (·.1)).Nodup) (hmem : (name, v) ∈ globals)
    (l : List (String × Value)) :
    scatterAll ρ { s with globals := globals } (globalRoots ((name, v) :: l)) =
      scatterAll ρ { s with globals := globals.map (renameIn ρ [name]) } (globalRoots l) := by
  have honly : ∀ b ∈ globals, b.1 = name → b = (name, v) := by
    rintro ⟨k, u⟩ hb rfl
    rw [binding_unique hnodup hb hmem]
  cases hw : v.word? with
  | none =>
      have hroots : globalRoots ((name, v) :: l) = globalRoots l := by
        refine List.filterMap_cons_none ?_
        show v.word?.map _ = none
        rw [hw]
        rfl
      have hsame : globals.map (renameIn ρ [name]) = globals := by
        refine map_eq_self fun b hb => ?_
        unfold renameIn
        split
        · rename_i hname
          rw [honly b hb (List.mem_singleton.1 hname)]
          unfold renameBinding
          rw [Value.rename_of_plain ρ hw]
        · rfl
      rw [hroots, hsame]
  | some w =>
      have hroots : globalRoots ((name, v) :: l) = (w, .global name) :: globalRoots l := by
        refine List.filterMap_cons_some ?_
        show v.word?.map _ = some _
        rw [hw]
        rfl
      have hset : insertKey name (v.rename ρ) globals = globals.map (renameIn ρ [name]) := by
        rw [insertKey_of_mem hnodup (List.mem_map.2 ⟨_, hmem, rfl⟩)]
        refine List.map_congr_left fun b hb => ?_
        unfold renameIn
        by_cases hname : b.1 = name
        · rw [if_pos hname, if_pos (List.mem_singleton.2 hname), honly b hb hname]
          rfl
        · rw [if_neg hname, if_neg fun h => hname (List.mem_singleton.1 h)]
      have hat : ({ s with globals := globals } : Interpreter σ).valueAt (.global name) = some v :=
        lookup_of_mem hnodup hmem
      rw [hroots, scatterAll_cons ρ hat hw]
      show scatterAll ρ { s with globals := insertKey name (v.rename ρ) globals } _ = _
      rw [hset]

/-- The roots of some globals, in any order. -/
theorem scatter_globals (s : Interpreter σ) : ∀ (l globals : List (String × Value)),
    (globals.map (·.1)).Nodup → (l.map (·.1)).Nodup → (∀ b ∈ l, b ∈ globals) →
      scatterAll ρ { s with globals := globals } (globalRoots l) =
        some { s with globals := globals.map (renameIn ρ (l.map (·.1))) }
  | [], globals, _, _, _ => by
      have hsame : globals.map (renameIn ρ []) = globals :=
        map_eq_self fun b _ => if_neg List.not_mem_nil
      rw [List.map_nil, hsame]
      rfl
  | (name, v) :: l, globals, hnodup, hl, hsub => by
      rw [List.map_cons, List.nodup_cons] at hl
      have hmem := hsub _ List.mem_cons_self
      -- the other globals are as they were
      have hsub' : ∀ b ∈ l, b ∈ globals.map (renameIn ρ [name]) := by
        intro b hb
        refine List.mem_map.2 ⟨b, hsub b (List.mem_cons_of_mem _ hb), if_neg ?_⟩
        intro h
        exact hl.1 (List.mem_map.2 ⟨b, hb, List.mem_singleton.1 h⟩)
      have hcomp : (globals.map (renameIn ρ [name])).map (renameIn ρ (l.map (·.1))) =
          globals.map (renameIn ρ (name :: l.map (·.1))) := by
        rw [List.map_map]
        exact List.map_congr_left fun b _ => renameIn_cons ρ hl.1 b
      rw [scatter_global ρ s hnodup hmem, scatter_globals s l _
        (by rwa [map_renameIn_keys]) hl.2 hsub', hcomp, List.map_cons]

/-! ## All roots -/

theorem gatherRoots_eq (s : Interpreter σ) :
    gatherRoots s = placedRoots id .valueStack 0 s.valueStack ++ frameRoots 0 s.frames ++
      globalRoots (s.globalsOrder.iter s.globals) := rfl

/-- Scattering what was gathered renames the interpreter. -/
theorem scatter_gather (s : Interpreter σ) (hnodup : (s.globals.map (·.1)).Nodup) :
    scatterRoots s ((gatherRoots s).map (·.2)) (((gatherRoots s).map (·.1)).map ρ) =
      some (s.rename ρ) := by
  have hperm := s.globalsOrder.perm s.globals
  have hkeys : ((s.globalsOrder.iter s.globals).map (·.1)).Nodup :=
    (hperm.map _).nodup_iff.2 hnodup
  have hglobals : s.globals.map (renameIn ρ ((s.globalsOrder.iter s.globals).map (·.1))) =
      s.globals.map (renameBinding ρ) := by
    refine List.map_congr_left fun b hb => if_pos ?_
    exact List.mem_map.2 ⟨b, hperm.mem_iff.2 hb, rfl⟩
  show scatterAll ρ s (gatherRoots s) = _
  rw [gatherRoots_eq, scatterAll_append, scatterAll_append, scatter_stack, Option.bind_some]
  have hframes := scatter_frames ρ { s with valueStack := s.valueStack.map (·.rename ρ) } s.frames []
  have hrest := scatter_globals ρ { s with
    valueStack := s.valueStack.map (·.rename ρ)
    frames := s.frames.map (·.rename ρ) } _ s.globals hnodup hkeys fun b hb => hperm.mem_iff.1 hb
  rw [hglobals] at hrest
  exact (congrArg (Option.bind · _) hframes).trans hrest

end Scatter

/-! ## What is gathered -/

section Gathered

variable {s : Interpreter σ} {v : Value} {w : Word}

/-- The values of the interpreter. -/
def Interpreter.Holds (s : Interpreter σ) (v : Value) : Prop :=
  v ∈ s.valueStack ∨ (∃ frame ∈ s.frames, ∃ b ∈ frame.bindings, b.2 = v) ∨
    ∃ b ∈ s.globals, b.2 = v

theorem mem_placedRoots {α : Type} {value : α → Value} {place : Nat → RootKind} {n : Nat}
    {l : List α} : w ∈ (placedRoots value place n l).map (·.1) ↔
      ∃ a ∈ l, (value a).word? = some w := by
  induction l generalizing n with
  | nil => exact ⟨fun h => absurd h List.not_mem_nil, fun ⟨_, h, _⟩ => absurd h List.not_mem_nil⟩
  | cons a l ih =>
      cases hw : (value a).word? with
      | none =>
          rw [placedRoots_plain hw, ih, List.exists_mem_cons_iff, hw]
          simp
      | some u =>
          rw [placedRoots_word hw, List.map_cons, List.mem_cons, ih, List.exists_mem_cons_iff, hw,
            Option.some.injEq, eq_comm]

theorem mem_frameRoots {n : Nat} {frames : List Frame} :
    w ∈ (frameRoots n frames).map (·.1) ↔
      ∃ frame ∈ frames, ∃ b ∈ frame.bindings, b.2.word? = some w := by
  induction frames generalizing n with
  | nil => exact ⟨fun h => absurd h List.not_mem_nil, fun ⟨_, h, _⟩ => absurd h List.not_mem_nil⟩
  | cons frame frames ih =>
      have hroots : frameRoots n (frame :: frames) =
          placedRoots (·.2) (.frame n) 0 frame.bindings ++ frameRoots (n + 1) frames := rfl
      rw [hroots, List.map_append, List.mem_append, ih, mem_placedRoots, List.exists_mem_cons_iff]

theorem mem_globalRoots {l : List (String × Value)} :
    w ∈ (globalRoots l).map (·.1) ↔ ∃ b ∈ l, b.2.word? = some w := by
  unfold globalRoots
  simp only [List.mem_map, List.mem_filterMap]
  constructor
  · rintro ⟨_, ⟨b, hb, heq⟩, rfl⟩
    obtain ⟨u, hu, rfl⟩ := Option.map_eq_some_iff.1 heq
    exact ⟨b, hb, hu⟩
  · rintro ⟨b, hb, hw⟩
    exact ⟨(w, .global b.1), ⟨b, hb, by rw [hw]; rfl⟩, rfl⟩

/-- The roots are the words of the values the interpreter holds. -/
theorem mem_gatherRoots : w ∈ (gatherRoots s).map (·.1) ↔ ∃ v, s.Holds v ∧ v.word? = some w := by
  have hglobals : (∃ b ∈ s.globalsOrder.iter s.globals, b.2.word? = some w) ↔
      ∃ b ∈ s.globals, b.2.word? = some w :=
    exists_congr fun b => and_congr_left fun _ => (s.globalsOrder.perm s.globals).mem_iff
  rw [gatherRoots_eq, List.map_append, List.map_append, List.mem_append, List.mem_append,
    mem_placedRoots, mem_frameRoots, mem_globalRoots, hglobals]
  constructor
  · rintro ((⟨v, hv, hw⟩ | ⟨frame, hframe, b, hb, hw⟩) | ⟨b, hb, hw⟩)
    · exact ⟨v, Or.inl hv, hw⟩
    · exact ⟨b.2, Or.inr (Or.inl ⟨frame, hframe, b, hb, rfl⟩), hw⟩
    · exact ⟨b.2, Or.inr (Or.inr ⟨b, hb, rfl⟩), hw⟩
  · rintro ⟨v, hv | ⟨frame, hframe, b, hb, rfl⟩ | ⟨b, hb, rfl⟩, hw⟩
    · exact Or.inl (Or.inl ⟨v, hv, hw⟩)
    · exact Or.inl (Or.inr ⟨frame, hframe, b, hb, hw⟩)
    · exact Or.inr ⟨b, hb, hw⟩

end Gathered

end NewGc.Lisp
