import NewGc.Library.Lockstep
import NewGc.Lisp.Renaming
import NewGc.Lisp.Roots
import NewGc.Lisp.Stacks

/-!
# Related — one interpreter over two heaps

Two interpreters are related when their stacks, frames and globals hold the same values up to a
renaming of the heap words.  A collection of either interpreter leads to related interpreters again,
so the two may collect when they like.
-/

namespace NewGc.Lisp

open Library

variable {σ τ : Type} {H : Heap σ} {K : Heap τ}

/-! ## Expressions that do not ask about the heap -/

/-- The built-ins whose value depends on what the collector has done. -/
def heapQueries : List String :=
  ["gc-stats-minor-cycles", "gc-stats-major-cycles", "heap-used-bytes", "heap-g0-used-bytes",
    "heap-tenured-used-bytes", "heap-free-pages", "heap-bytes-alloc-since-gc",
    "heap-auto-gc-trigger-bytes"]

mutual

/-- Does the expression name one of them? -/
def Sexp.asksHeap : Sexp → Bool
  | .symbol name => heapQueries.contains name
  | .list items => Sexp.anyAsksHeap items
  | _ => false

def Sexp.anyAsksHeap : List Sexp → Bool
  | [] => false
  | item :: items => item.asksHeap || Sexp.anyAsksHeap items

end

theorem Sexp.anyAsksHeap_cons {item : Sexp} {items : List Sexp}
    (h : Sexp.anyAsksHeap (item :: items) = false) :
    item.asksHeap = false ∧ Sexp.anyAsksHeap items = false :=
  Bool.or_eq_false_iff.1 h

/-! ## Lists side by side -/

section Lists

variable {α β γ : Type} {R : α → β → Prop}

theorem forall₂_map_of_mem {S : γ → β → Prop} {f : α → γ} {l : List α} {u : List β}
    (h : List.Forall₂ R l u) (hf : ∀ a ∈ l, ∀ b, R a b → S (f a) b) :
    List.Forall₂ S (l.map f) u := by
  induction h with
  | nil => exact .nil
  | cons hab _ ih =>
      refine .cons (hf _ List.mem_cons_self _ hab) (ih fun a ha => hf a ?_)
      exact List.mem_cons_of_mem _ ha

theorem forall₂_mem {l : List α} {u : List β} (h : List.Forall₂ R l u) {a : α} (ha : a ∈ l) :
    ∃ b ∈ u, R a b := by
  induction h with
  | nil => exact absurd ha List.not_mem_nil
  | cons hab _ ih =>
      rcases List.mem_cons.1 ha with rfl | ha
      · exact ⟨_, List.mem_cons_self, hab⟩
      · obtain ⟨b, hb, hR⟩ := ih ha
        exact ⟨b, List.mem_cons_of_mem _ hb, hR⟩

theorem forall₂_getElem? {l : List α} {u : List β} (h : List.Forall₂ R l u) (i : Nat) :
    Option.Rel R l[i]? u[i]? := by
  induction h generalizing i with
  | nil => exact .none
  | cons hab _ ih =>
      cases i with
      | zero => exact .some hab
      | succ i => exact ih i

theorem forall₂_at {l : List α} {u : List β} (h : List.Forall₂ R l u) {i : Nat} {a : α} {b : β}
    (ha : l[i]? = some a) (hb : u[i]? = some b) : R a b := by
  have hrel := forall₂_getElem? h i
  rw [ha, hb] at hrel
  cases hrel with
  | some hab => exact hab

theorem forall₂_getLast? {l : List α} {u : List β} (h : List.Forall₂ R l u) :
    Option.Rel R l.getLast? u.getLast? := by
  rw [List.getLast?_eq_getElem?, List.getLast?_eq_getElem?, h.length_eq]
  exact forall₂_getElem? h _

theorem forall₂_dropLast {l : List α} {u : List β} (h : List.Forall₂ R l u) :
    List.Forall₂ R l.dropLast u.dropLast := by
  rw [List.dropLast_eq_take, List.dropLast_eq_take, h.length_eq]
  exact List.forall₂_take _ h

theorem forall₂_flip {l : List α} {u : List β} (h : List.Forall₂ R l u) :
    List.Forall₂ (fun b a => R a b) u l := by
  induction h with
  | nil => exact .nil
  | cons hab _ ih => exact .cons hab ih

end Lists

/-! ## The relation -/

/-- Bindings of one name to the same value. -/
def BindingAlike (φ : Renaming) (b c : String × Value) : Prop := b.1 = c.1 ∧ Same φ b.2 c.2

def FrameAlike (φ : Renaming) (f g : Frame) : Prop :=
  List.Forall₂ (BindingAlike φ) f.bindings g.bindings

/-- The two interpreters are in the same state, up to the renaming. -/
structure Related (C : Contract H) (D : Contract K) (φ : Renaming) (s : Interpreter σ)
    (t : Interpreter τ) : Prop where
  heap : HeapsAlike C D φ s.heap t.heap
  valueStack : List.Forall₂ (Same φ) s.valueStack t.valueStack
  frames : List.Forall₂ (FrameAlike φ) s.frames t.frames
  globals : List.Forall₂ (BindingAlike φ) s.globals t.globals
  nodup : (s.globals.map (·.1)).Nodup
  functions : t.functions = s.functions
  plain : ∀ f ∈ s.functions, f.2.body.asksHeap = false
  rngState : t.rngState = s.rngState
  allocations : t.stats.allocations = s.stats.allocations

theorem Same.flip {φ : Renaming} (htag : ∀ {w v}, φ w v → Tag.fromBits v = Tag.fromBits w)
    {a b : Value} (h : Same φ a b) : Same (fun v w => φ w v) b a := by
  cases h with
  | number n => exact .number n
  | bool b => exact .bool b
  | nil => exact .nil
  | symbol name => exact .symbol name
  | pair h ht => exact .pair h ((htag h).trans ht)
  | vector h ht => exact .vector h ((htag h).trans ht)
  | str h ht => exact .str h ((htag h).trans ht)

/-- The words of the same values are renamed. -/
theorem Same.word? {φ : Renaming} {a b : Value} (h : Same φ a b) {w : Word}
    (hw : a.word? = some w) : ∃ v, φ w v := by
  cases h <;> cases hw <;> exact ⟨_, ‹_›⟩

theorem Same.moved {φ : Renaming} {a b : Value} (h : Same φ a b) : Moved a b := by
  cases h <;> first | exact ⟨0, rfl⟩ | exact ⟨_, rfl⟩

theorem bindings_keys {φ : Renaming} {l u : List (String × Value)}
    (h : List.Forall₂ (BindingAlike φ) l u) : u.map (·.1) = l.map (·.1) := by
  induction h with
  | nil => rfl
  | cons hab _ ih => rw [List.map_cons, List.map_cons, ih, hab.1]

namespace Related

variable {C : Contract H} {D : Contract K} {φ ψ : Renaming} {s : Interpreter σ} {t : Interpreter τ}

theorem flip (hR : Related C D φ s t) : Related D C (fun v w => φ w v) t s where
  heap := hR.heap.flip
  valueStack := (forall₂_flip hR.valueStack).imp fun _ _ h => h.flip hR.heap.tag
  frames := (forall₂_flip hR.frames).imp fun _ _ h =>
    (forall₂_flip h).imp fun _ _ hb => ⟨hb.1.symm, hb.2.flip hR.heap.tag⟩
  globals := (forall₂_flip hR.globals).imp fun _ _ hb => ⟨hb.1.symm, hb.2.flip hR.heap.tag⟩
  nodup := by
    rw [bindings_keys hR.globals]
    exact hR.nodup
  functions := hR.functions.symm
  plain := by
    rw [hR.functions]
    exact hR.plain
  rngState := hR.rngState.symm
  allocations := hR.allocations.symm

/-- Other heaps, in a larger renaming. -/
theorem onHeaps (hR : Related C D φ s t) (hle : φ ≤ ψ) {h : σ} {k : τ} (hA : HeapsAlike C D ψ h k) :
    Related C D ψ { s with heap := h } { t with heap := k } where
  heap := hA
  valueStack := hR.valueStack.imp fun _ _ h => h.mono hle
  frames := hR.frames.imp fun _ _ h => h.imp fun _ _ hb => ⟨hb.1, hb.2.mono hle⟩
  globals := hR.globals.imp fun _ _ hb => ⟨hb.1, hb.2.mono hle⟩
  nodup := hR.nodup
  functions := hR.functions
  plain := hR.plain
  rngState := hR.rngState
  allocations := hR.allocations

/-- Statistics the program cannot see. -/
theorem counted (hR : Related C D φ s t) (n : Nat) {stats : Stats}
    (hstats : stats.allocations = s.stats.allocations) :
    Related C D φ { s with gcDriveCounter := n, stats := stats } t where
  heap := hR.heap
  valueStack := hR.valueStack
  frames := hR.frames
  globals := hR.globals
  nodup := hR.nodup
  functions := hR.functions
  plain := hR.plain
  rngState := hR.rngState
  allocations := hR.allocations.trans hstats.symm

theorem holds (hR : Related C D φ s t) {a : Value} (ha : s.Holds a) : ∃ b, Same φ a b := by
  rcases ha with ha | ⟨frame, hframe, c, hc, rfl⟩ | ⟨c, hc, rfl⟩
  · obtain ⟨b, -, hb⟩ := forall₂_mem hR.valueStack ha
    exact ⟨b, hb⟩
  · obtain ⟨g, -, hg⟩ := forall₂_mem hR.frames hframe
    obtain ⟨b, -, hb⟩ := forall₂_mem hg hc
    exact ⟨b.2, hb.2⟩
  · obtain ⟨b, -, hb⟩ := forall₂_mem hR.globals hc
    exact ⟨b.2, hb.2⟩

/-- The roots are renamed. -/
theorem roots (hR : Related C D φ s t) : ∀ w ∈ (gatherRoots s).map (·.1), ∃ v, φ w v := by
  intro w hw
  obtain ⟨a, ha, hword⟩ := mem_gatherRoots.1 hw
  obtain ⟨b, hb⟩ := hR.holds ha
  exact hb.word? hword

end Related

/-! ## Collections -/

/-- The collector's map on a value that it has moved. -/
theorem Same.relocated {C : Contract H} {φ : Renaming} {h h' : σ} {roots : List Word}
    {ρ : Word → Word} (hs : Relocated H C.blocks h roots ρ h') {a b : Value} (hab : Same φ a b)
    (hroots : ∀ w, a.word? = some w → w ∈ roots) :
    Same (φ.moved H h roots ρ) (a.rename ρ) b := by
  have hmoved : ∀ {w v}, φ w v → a.word? = some w → φ.moved H h roots ρ (ρ w) v :=
    fun hw ha => ⟨_, .root (hroots _ ha), hw, rfl⟩
  have htag : ∀ {w}, a.word? = some w → Tag.fromBits (ρ w) = Tag.fromBits w :=
    fun ha => hs.tag _ (.root (hroots _ ha))
  cases hab with
  | number n => exact .number n
  | bool b => exact .bool b
  | nil => exact .nil
  | symbol name => exact .symbol name
  | pair hw ht => exact .pair (hmoved hw rfl) ((htag rfl).trans ht)
  | vector hw ht => exact .vector (hmoved hw rfl) ((htag rfl).trans ht)
  | str hw ht => exact .str (hmoved hw rfl) ((htag rfl).trans ht)

theorem Relocated.untouched {blocks : σ → Nat → Option Block} {h h' h'' : σ} {roots : List Word}
    {ρ : Word → Word} (hs : Relocated H blocks h roots ρ h') (hu : Untouched H blocks h' h'') :
    Relocated H blocks h roots ρ h'' where
  tag := hs.tag
  fits := fun w hw => by
    rw [hu.blocks]
    exact (hs.fits w hw).congr fun _ => hu.load _
  apart := hs.apart
  pointers := fun w i hw hi hfield hptr => (hu.load _).trans (hs.pointers w i hw hi hfield hptr)
  plain := fun w i hw hi hfield => (hu.load _).trans (hs.plain w i hw hi hfield)

/-- After a collection of the left interpreter. -/
theorem Related.relocated {C : Contract H} {D : Contract K} {φ : Renaming} {s : Interpreter σ}
    {t : Interpreter τ} {ρ : Word → Word} {h' : σ} (hR : Related C D φ s t)
    (hs : Relocated H C.blocks s.heap ((gatherRoots s).map (·.1)) ρ h') :
    Related C D (φ.moved H s.heap ((gatherRoots s).map (·.1)) ρ)
      (({ s with heap := h' } : Interpreter σ).rename ρ) t := by
  have hsame : ∀ a, s.Holds a → ∀ b, Same φ a b →
      Same (φ.moved H s.heap ((gatherRoots s).map (·.1)) ρ) (a.rename ρ) b :=
    fun a ha b hab => hab.relocated hs fun w hw => mem_gatherRoots.2 ⟨a, ha, hw⟩
  constructor
  · exact hR.heap.relocated hs
  · exact forall₂_map_of_mem hR.valueStack fun a ha b hab => hsame a (Or.inl ha) b hab
  · refine forall₂_map_of_mem hR.frames fun frame hframe g hfg => ?_
    refine forall₂_map_of_mem hfg fun c hc b hcb => ⟨hcb.1, hsame c.2 ?_ b.2 hcb.2⟩
    exact Or.inr (Or.inl ⟨frame, hframe, c, hc, rfl⟩)
  · refine forall₂_map_of_mem hR.globals fun c hc b hcb => ⟨hcb.1, hsame c.2 ?_ b.2 hcb.2⟩
    exact Or.inr (Or.inr ⟨c, hc, rfl⟩)
  · show ((s.globals.map (renameBinding ρ)).map (·.1)).Nodup
    rw [List.map_map]
    exact hR.nodup
  · exact hR.functions
  · exact hR.plain
  · exact hR.rngState
  · exact hR.allocations

/-- The interpreter's heap does not meet a demand: it has no room for the block, or the collection
of the interpreter's roots panics. -/
def Refuses (H : Heap σ) (s : Interpreter σ) : Demand → Prop
  | .cons => (H.tryAllocConsIn s.heap).1 = none
  | .boxed cells => (H.tryAllocBoxedIn s.heap cells).1 = none
  | .collection kind => H.collect kind s.heap ((gatherRoots s).map (·.1)) = none
  | .safepoint => H.pollSafepoint s.heap ((gatherRoots s).map (·.1)) = none

/-- A panic of the interpreter over a demand that its heap, as it stands, does not meet. -/
def GivesUp (H : Heap σ) (e : Exit) (s : Interpreter σ) : Prop :=
  ∃ d, e = .panic (some d) ∧ Refuses H s d

section Settles

variable (C : Contract H) (D : Contract K)

/-- A result of the left interpreter that the right one, where it stands, still matches. -/
def Settled {α : Type} (t : Interpreter τ) : EStateM.Result Exit (Interpreter σ) α → Prop
  | .ok _ s => ∃ φ, Related C D φ s t
  | .error e s => GivesUp H e s

/-- A step of one interpreter alone. -/
def Settles {α : Type} (m : EvalM σ α) : Prop :=
  ∀ φ s t, Related C D φ s t → Settled C D t (m s)

variable {C D} {α β : Type}

namespace Settles

theorem bind {m : EvalM σ α} {f : α → EvalM σ β} (hm : Settles C D m)
    (hf : ∀ a, Settles C D (f a)) : Settles C D (m >>= f) := by
  intro φ s t hR
  have hrun := hm φ s t hR
  show Settled C D t (EStateM.bind m f s)
  unfold EStateM.bind
  revert hrun
  generalize m s = r
  intro hrun
  cases r with
  | ok a s' =>
      obtain ⟨ψ, hR'⟩ := hrun
      exact hf a ψ s' t hR'
  | error e s' => exact hrun

theorem countMinor : Settles C D (Lisp.countMinor : EvalM σ Unit) :=
  fun φ s _ hR => ⟨φ, hR.counted s.gcDriveCounter rfl⟩

theorem countMajor : Settles C D (Lisp.countMajor : EvalM σ Unit) :=
  fun φ s _ hR => ⟨φ, hR.counted s.gcDriveCounter rfl⟩

/-- A collection between `gather_roots` and `scatter_roots`. -/
theorem withRoots {d : Demand} {f : σ → List Word → Option (List Word × σ)}
    (hf : ∀ h roots, Relocates H C.blocks h roots (f h roots))
    (hrefuses : ∀ s : Interpreter σ, f s.heap ((gatherRoots s).map (·.1)) = none → Refuses H s d) :
    Settles C D (Lisp.withRoots d f) := by
  intro φ s t hR
  show Settled C D t ((orPanic (some d) (f s.heap ((gatherRoots s).map (·.1))) >>= fun r => do
    let s ← orPanic none (scatterRoots { s with heap := r.2 } ((gatherRoots s).map (·.2)) r.1)
    set s : EvalM σ Unit) s)
  cases hres : f s.heap ((gatherRoots s).map (·.1)) with
  | none => exact ⟨d, rfl, hrefuses s hres⟩
  | some r =>
      obtain ⟨ρ, hroots, hs⟩ := hf _ _ (hR.heap.wellRooted hR.roots) r.1 r.2 hres
      have hscatter : scatterRoots { s with heap := r.2 } ((gatherRoots s).map (·.2)) r.1 =
          some (({ s with heap := r.2 } : Interpreter σ).rename ρ) := by
        rw [hroots]
        exact scatter_gather ρ { s with heap := r.2 } hR.nodup
      show Settled C D t ((orPanic none (scatterRoots { s with heap := r.2 } _ r.1) >>= fun s =>
        set s : EvalM σ Unit) s)
      rw [hscatter]
      exact ⟨_, hR.relocated hs⟩

/-- A collection and the new trigger after it. -/
theorem collectThenRecompute (kind : Collection) :
    Settles C D (Lisp.withRoots (.collection kind) (thenRecompute H (H.collect kind))) := by
  refine withRoots (fun h roots hrooted roots' h' hres => ?_) fun s hnone => ?_
  · obtain ⟨r, hcollect, heq⟩ := Option.map_eq_some_iff.1 hres
    obtain ⟨rfl, rfl⟩ := Prod.mk.inj heq
    obtain ⟨ρ, hroots, hs⟩ := C.collect kind h roots hrooted r.1 r.2 hcollect
    exact ⟨ρ, hroots, hs.untouched (C.recomputeAutoTrigger r.2)⟩
  · exact Option.map_eq_none_iff.1 hnone

theorem collect (kind : Collection) :
    Settles C D (Lisp.withRoots (.collection kind) (H.collect kind)) :=
  withRoots (C.collect kind) fun _ hnone => hnone

theorem pollSafepoint : Settles C D (Lisp.withRoots .safepoint H.pollSafepoint) :=
  withRoots C.pollSafepoint fun _ hnone => hnone

theorem doCollect (kind : GcKind) : Settles C D (Lisp.doCollect H kind) := by
  unfold Lisp.doCollect
  cases H.mode <;> cases kind
  case Direct.Minor => exact bind (collectThenRecompute .minor) fun _ => countMinor
  case Direct.Major => exact bind (collectThenRecompute .major) fun _ => countMajor
  case Direct.Auto =>
    -- the statistics say what `should_collect_major` said before the collection
    intro φ s t hR
    refine bind (collect .auto) (fun _ => ?_) φ s t hR
    split
    · exact countMajor
    · exact countMinor
  case Shared.Minor => exact bind (collect .minor) fun _ => countMinor
  case Shared.Major => exact bind (collect .full) fun _ => countMajor
  case Shared.Auto => exact bind (collect .minor) fun _ => countMinor

/-- A safepoint, whatever the mode of the heap. -/
theorem maybeGc : Settles C D (Lisp.maybeGc H) := by
  unfold Lisp.maybeGc
  cases H.mode with
  | Shared =>
      refine bind pollSafepoint fun _ φ s t hR => ?_
      show Settled C D t ((if sharedDriveEvery ≤ s.gcDriveCounter + 1 then do
        set { s with gcDriveCounter := 0 }
        Lisp.doCollect H .Minor
      else set { s with gcDriveCounter := s.gcDriveCounter + 1 } : EvalM σ Unit) s)
      split
      · exact doCollect .Minor φ _ t (hR.counted 0 rfl)
      · exact ⟨φ, hR.counted _ rfl⟩
  | Direct =>
      intro φ s t hR
      show Settled C D t ((if H.shouldCollect s.heap then Lisp.doCollect H .Auto else pure ()) s)
      split
      · exact doCollect .Auto φ s t hR
      · exact ⟨φ, hR⟩

end Settles

end Settles

/-! ## Ends that agree -/

section Pairs

variable [UnicodeTables] (C : Contract H) (D : Contract K)

/-- The message of a failed `check-equal` prints the words of its values; all other messages are
equal. -/
inductive ErrorAlike : RunError → RunError → Prop
  | same (e : RunError) : ErrorAlike e e
  | checkEqual {a b a' b' : Value} (ha : Moved a a') (hb : Moved b b') :
      ErrorAlike (.other ("check-equal failed: expected " ++ a.debug ++ ", got " ++ b.debug))
        (.other ("check-equal failed: expected " ++ a'.debug ++ ", got " ++ b'.debug))

inductive ExitsAlike : Exit → Interpreter σ → Exit → Interpreter τ → Prop
  | error {e e' : RunError} {leftLet : Bool} {φ : Renaming} {s : Interpreter σ} {t : Interpreter τ}
      (he : ErrorAlike e e') (hR : Related C D φ s t) :
      ExitsAlike (.error e leftLet) s (.error e' leftLet) t
  | panic {d d' : Option Demand} {s : Interpreter σ} {t : Interpreter τ} :
      ExitsAlike (.panic d) s (.panic d') t
  | outOfFuel {s : Interpreter σ} {t : Interpreter τ} : ExitsAlike .outOfFuel s .outOfFuel t

/-- A panic of one interpreter over what its heap refuses says nothing about the other one. -/
def pairing : Pairing Renaming Exit (Interpreter σ) (Interpreter τ) where
  related := Related C D
  fails := ExitsAlike C D
  left := GivesUp H
  right := GivesUp K

/-- Two evaluations that end alike. -/
abbrev Goes (φ : Renaming) (m : EvalM σ Unit) (m' : EvalM τ Unit) : Prop :=
  Lockstep (pairing C D) φ m m' fun _ _ _ => True

variable {C D}

/-- Each side settles on its own. -/
theorem Goes.of_settles {φ : Renaming} {m : EvalM σ Unit} {m' : EvalM τ Unit}
    (h : Settles C D m) (h' : Settles D C m') : Goes C D φ m m' := by
  intro s t hR
  have hleft := h φ s t hR
  revert hleft
  generalize m s = r
  intro hleft
  cases r with
  | error e s' => exact .left hleft
  | ok a s' =>
      obtain ⟨ψ, hR'⟩ := hleft
      have hright := h' _ t s' hR'.flip
      revert hright
      generalize m' t = r'
      intro hright
      cases r' with
      | error e t' => exact .right hright
      | ok a' t' =>
          obtain ⟨χ, hR''⟩ := hright
          exact .ok hR''.flip trivial

theorem Goes.doCollect (φ : Renaming) (kind : GcKind) :
    Goes C D φ (Lisp.doCollect H kind) (Lisp.doCollect K kind) :=
  .of_settles (.doCollect kind) (.doCollect kind)

/-- Safepoints: one side may collect where the other does not. -/
theorem Goes.maybeGc (φ : Renaming) : Goes C D φ (Lisp.maybeGc H) (Lisp.maybeGc K) :=
  .of_settles .maybeGc .maybeGc

end Pairs

end NewGc.Lisp
