import Mathlib.Data.List.TakeWhile
import Mathlib.Logic.Relation
import NewGc.Space

/-!
# Pool — the page pool as a state machine

The page table and the free-page list, with everything else of the heap forgotten: which page is
what, and which pages wait to be opened.  Allocation opens pages and claims runs, a collection
opens, releases and flips them.  What these events keep is proved here once; that every function
of the collector is a sequence of them is proved elsewhere.
-/

namespace NewGc

/-! ## States -/

/-- What a page is used for. -/
structure PageRole where
  generation : Generation
  kind : PageKind
  nSpan : Nat
  deriving DecidableEq, Repr

/-- The role a descriptor records. -/
def PageDesc.role (d : PageDesc) : PageRole where
  generation := d.generation
  kind := d.kind
  nSpan := d.nSpan

/-- A page of no use. -/
def PageRole.free : PageRole := PageDesc.free.role

/-- The pool: the roles of the pages, the free-page list and the two counters of the promotion
schedule.  `grants k` is the operating system's answer to the `k`-th commit request. -/
structure Pool where
  nPages : Nat
  grants : Nat → Bool
  role : Nat → PageRole
  free : List Nat
  minors : Nat
  promotes : Nat

/-- The pool of a heap. -/
def PageHeap.pool (h : PageHeap) : Pool where
  nPages := h.nPages
  grants := h.os
  role := fun p => (h.descs p).role
  free := h.freePageList
  minors := h.minorsSinceG0Promote
  promotes := h.g0PromotesSinceG1Promote

namespace Pool

/-- Pop the list, discarding stale entries; fall back to a scan when it is exhausted. -/
def popped (P : Pool) : Option Nat × List Nat :=
  match P.free.dropWhile fun i => (P.role i).generation ≠ .Free with
  | i :: rest => (some i, rest)
  | [] => ((List.range P.nPages).find? fun i => (P.role i).generation = .Free, [])

/-! ## Events -/

/-- What can happen to the pool. -/
inductive Event
  /-- The list was popped to its end and no page was found. -/
  | exhaust
  /-- A page was popped and its commit refused. -/
  | lose (idx : Nat)
  | open (idx : Nat) (generation : Generation) (kind : PageKind)
  /-- The first `m` pages of a run of `n` were stamped; `m < n` when a commit was refused. -/
  | claim (start m n : Nat) (generation : Generation)
  | release (idx : Nat)
  | releaseRun (head n : Nat)
  /-- The early release of a page without live objects, whatever its kind. -/
  | drop (idx : Nat)
  | flip (idx : Nat) (generation : Generation)
  | flipRun (head n : Nat) (generation : Generation)
  /-- A cycle moves the counters. -/
  | count (minors promotes : Nat)

/-- Page `p` lies in the run of `n` pages from `start`. -/
def Within (start n p : Nat) : Prop := start ≤ p ∧ p < start + n

instance (start n p : Nat) : Decidable (Within start n p) := inferInstanceAs (Decidable (_ ∧ _))

/-- When an event can happen. -/
def Enabled (P : Pool) : Event → Prop
  | .exhaust => P.popped.1 = none
  | .lose idx => P.popped.1 = some idx ∧ (P.nPages ≤ idx ∨ ∃ k, P.grants k = false)
  | .open idx g k => P.popped.1 = some idx ∧ idx < P.nPages ∧ g ≠ .Free ∧ (k = .Cons ∨ k = .Boxed)
  | .claim start m n g => g ≠ .Free ∧ m ≤ n ∧ (m < n → ∃ k, P.grants k = false) ∧
      ∀ p, Within start n p → p < P.nPages ∧ (P.role p).generation = .Free
  | .release idx =>
      idx < P.nPages ∧ (P.role idx).kind ≠ .Large ∧ (P.role idx).generation ≠ .Free
  | .releaseRun head n => (P.role head).kind = .Large ∧ (P.role head).nSpan = n ∧ 1 ≤ n
  | .drop idx => idx < P.nPages
  | .flip idx g => g ≠ .Free ∧ (P.role idx).kind ≠ .Large ∧ (P.role idx).generation ≠ .Free
  | .flipRun head n g => g ≠ .Free ∧ (P.role head).kind = .Large ∧ (P.role head).nSpan = n ∧ 1 ≤ n
  | .count _ _ => True

/-- The pool after an event. -/
def after (P : Pool) : Event → Pool
  | .exhaust | .lose _ => { P with free := P.popped.2 }
  | .open idx g k =>
      { P with role := Function.update P.role idx (PageDesc.fresh g k).role, free := P.popped.2 }
  | .claim start m n g =>
      { P with role := fun p =>
          if Within start m p then
            { generation := g, kind := .Large, nSpan := if p = start then n % 65536 else 0 }
          else P.role p }
  | .release idx | .drop idx =>
      { P with role := Function.update P.role idx PageRole.free, free := idx :: P.free }
  | .releaseRun head n =>
      { P with
        role := fun p => if Within head n p then PageRole.free else P.role p
        free := (List.range' head n).reverse ++ P.free }
  | .flip idx g =>
      { P with role := Function.update P.role idx { P.role idx with generation := g } }
  | .flipRun head n g =>
      { P with role := fun p =>
          if Within head n p then { P.role p with generation := g } else P.role p }
  | .count minors promotes => { P with minors := minors, promotes := promotes }

@[simp] theorem after_nPages (P : Pool) (e : Event) : (P.after e).nPages = P.nPages := by
  cases e <;> rfl

@[simp] theorem after_grants (P : Pool) (e : Event) : (P.after e).grants = P.grants := by
  cases e <;> rfl

/-- A claim changes nothing but roles. -/
theorem after_claim_eq {P : Pool} {start m n : Nat} {g : Generation}
    (hrole : (P.after (.claim start m n g)).role = P.role) : P.after (.claim start m n g) = P := by
  show { P with role := (P.after (.claim start m n g)).role } = P
  rw [hrole]

/-- One event of a given sort. -/
def Step (may : Event → Prop) (P Q : Pool) : Prop := ∃ e, may e ∧ P.Enabled e ∧ Q = P.after e

/-- Any number of events of a given sort. -/
def Steps (may : Event → Prop) (P Q : Pool) : Prop := Relation.ReflTransGen (Step may) P Q

theorem Steps.refl {may : Event → Prop} {P : Pool} : Steps may P P := Relation.ReflTransGen.refl

theorem Steps.trans {may : Event → Prop} {P Q R : Pool} (h₁ : Steps may P Q)
    (h₂ : Steps may Q R) : Steps may P R := Relation.ReflTransGen.trans h₁ h₂

theorem Steps.tail {may : Event → Prop} {P Q R : Pool} (h₁ : Steps may P Q) (h₂ : Step may Q R) :
    Steps may P R := Relation.ReflTransGen.tail h₁ h₂

theorem Steps.of {may : Event → Prop} {P Q : Pool} (e : Event) (hmay : may e) (hen : P.Enabled e)
    (hQ : Q = P.after e) : Steps may P Q :=
  Relation.ReflTransGen.single ⟨e, hmay, hen, hQ⟩

theorem Steps.of_eq {may : Event → Prop} {P Q : Pool} (hQ : Q = P) : Steps may P Q := by
  rw [hQ]
  exact Steps.refl

theorem Steps.mono {may may' : Event → Prop} {P Q : Pool} (hs : Steps may P Q)
    (himp : ∀ e, may e → may' e) : Steps may' P Q := by
  induction hs with
  | refl => exact Steps.refl
  | tail _ hlast ih =>
      obtain ⟨e, hmay, hen, hQ⟩ := hlast
      exact ih.tail ⟨e, himp e hmay, hen, hQ⟩

/-- The run rule: what every event of the sort keeps, every sequence of them keeps. -/
theorem Steps.keeps {may : Event → Prop} {I : Pool → Prop} {P Q : Pool} (hs : Steps may P Q)
    (hstep : ∀ P e, I P → may e → P.Enabled e → I (P.after e)) (hP : I P) : I Q := by
  induction hs with
  | refl => exact hP
  | tail _ hlast ih =>
      obtain ⟨e, hmay, hen, rfl⟩ := hlast
      exact hstep _ e ih hmay hen

theorem Steps.fixed {may : Event → Prop} {P Q : Pool} (hs : Steps may P Q) :
    Q.nPages = P.nPages ∧ Q.grants = P.grants :=
  hs.keeps (I := fun Q => Q.nPages = P.nPages ∧ Q.grants = P.grants)
    (fun Q e hQ _ _ => by simpa using hQ) ⟨rfl, rfl⟩

/-- Freeing the pages of a list one by one. -/
theorem foldl_drop (P : Pool) (l : List Nat) :
    l.foldl (fun P p => P.after (.drop p)) P =
      { P with
        role := fun p => if p ∈ l then PageRole.free else P.role p
        free := l.reverse ++ P.free } := by
  induction l generalizing P with
  | nil => simp
  | cons q l ih =>
      rw [List.foldl_cons, ih]
      simp only [after, List.mem_cons, List.reverse_cons, List.append_assoc, List.singleton_append]
      congr 1
      funext p
      by_cases hl : p ∈ l
      · simp [hl]
      · by_cases hq : p = q
        · simp [hq]
        · simp [hl, hq]

/-- Freeing a run page by page is releasing the run. -/
theorem foldl_drop_run (P : Pool) (head n : Nat) :
    (List.range' head n).foldl (fun P p => P.after (.drop p)) P = P.after (.releaseRun head n) := by
  rw [foldl_drop]
  simp only [after]
  congr 1
  funext p
  simp only [List.mem_range'_1]
  by_cases hin : Within head n p
  · rw [if_pos hin, if_pos (show head ≤ p ∧ p < head + n from hin)]
  · rw [if_neg hin, if_neg (show ¬ (head ≤ p ∧ p < head + n) from hin)]

/-! ## Sorts of events -/

/-- Events of a page being opened in `g`. -/
def OpenEvent (g : Generation) : Event → Prop
  | .exhaust | .lose _ => True
  | .open _ g' _ => g' = g
  | _ => False

/-- Events of an evacuation into `dest`. -/
def EvacEvent (dest : Generation) : Event → Prop
  | .exhaust | .lose _ | .release _ | .releaseRun _ _ => True
  | .open _ g _ | .flip _ g | .flipRun _ _ g => g = dest
  | _ => False

/-- Events of a collection, the early release apart. -/
def CycleEvent : Event → Prop
  | .claim _ _ _ _ | .drop _ => False
  | _ => True

/-- Events of runs whose large objects get all their pages or none, each less than 65536. -/
def WholeEvent : Event → Prop
  | .claim _ m n _ => m = 0 ∨ (m = n ∧ n < 65536)
  | .drop _ => False
  | _ => True

theorem OpenEvent.evac {g : Generation} {e : Event} (he : OpenEvent g e) : EvacEvent g e := by
  cases e with
  | exhaust | lose => trivial
  | «open» => exact he
  | _ => cases he

theorem EvacEvent.cycle {g : Generation} {e : Event} (he : EvacEvent g e) : CycleEvent e := by
  cases e with
  | claim => cases he
  | drop => cases he
  | _ => trivial

theorem CycleEvent.whole {e : Event} (he : CycleEvent e) : WholeEvent e := by
  cases e with
  | claim => cases he
  | drop => cases he
  | _ => trivial

theorem EvacEvent.whole {g : Generation} {e : Event} (he : EvacEvent g e) : WholeEvent e :=
  he.cycle.whole

/-! ## The popped page -/

/-- A free page on the list is still on it when the stale entries in front are discarded. -/
theorem mem_dropWhile_free {P : Pool} {p : Nat} (hp : p ∈ P.free)
    (hfree : (P.role p).generation = .Free) :
    p ∈ P.free.dropWhile fun i => (P.role i).generation ≠ .Free := by
  rw [← List.takeWhile_append_dropWhile
    (p := fun i => decide ((P.role i).generation ≠ .Free)) (l := P.free)] at hp
  rcases List.mem_append.1 hp with hstale | hrest
  · have := List.mem_takeWhile_imp hstale
    simp [hfree] at this
  · exact hrest

/-- What is left of the list is its end, without the page popped. -/
theorem popped_suffix (P : Pool) : P.popped.2 = [] ∨
    ∃ idx, P.popped.1 = some idx ∧ idx :: P.popped.2 <:+ P.free := by
  unfold popped
  cases hlist : P.free.dropWhile fun i => (P.role i).generation ≠ .Free with
  | nil => exact Or.inl rfl
  | cons i rest =>
      refine Or.inr ⟨i, rfl, ?_⟩
      rw [← hlist]
      exact List.dropWhile_suffix _

/-- What is left of the list was on it. -/
theorem popped_subset (P : Pool) : P.popped.2 ⊆ P.free := by
  intro p hp
  rcases P.popped_suffix with hnil | ⟨idx, -, hsuffix⟩
  · rw [hnil] at hp
    cases hp
  · exact hsuffix.subset (List.mem_cons_of_mem idx hp)

/-- A popped page is free. -/
theorem popped_free {P : Pool} {idx : Nat} (hpop : P.popped.1 = some idx) :
    (P.role idx).generation = .Free := by
  unfold popped at hpop
  cases hlist : P.free.dropWhile fun i => (P.role i).generation ≠ .Free with
  | nil =>
      rw [hlist] at hpop
      simpa using List.find?_some hpop
  | cons i rest =>
      rw [hlist] at hpop
      cases hpop
      have hhead := List.head_dropWhile_not (fun i => decide ((P.role i).generation ≠ .Free))
        (l := P.free) (by rw [hlist]; simp)
      simpa only [hlist, List.head_cons, decide_eq_false_iff_not, not_not] using hhead

/-! ## The free list -/

/-- Every Free page is listed, and the list and the large runs stay inside the reservation. -/
structure Listed (P : Pool) : Prop where
  complete : ∀ p < P.nPages, (P.role p).generation = .Free → p ∈ P.free
  inside : ∀ p ∈ P.free, p < P.nPages
  spans : ∀ p, (P.role p).kind = .Large → p + (P.role p).nSpan ≤ P.nPages

namespace Listed

variable {P : Pool}

/-- The list offers a page whenever there is one; the scan behind it never finds any. -/
theorem popped_none (hI : Listed P) (hpop : P.popped.1 = none) :
    ∀ p < P.nPages, (P.role p).generation ≠ .Free := by
  intro p hlt hfree
  have hmem := mem_dropWhile_free (hI.complete p hlt hfree) hfree
  unfold popped at hpop
  cases hlist : P.free.dropWhile fun i => (P.role i).generation ≠ .Free with
  | nil =>
      rw [hlist] at hmem
      cases hmem
  | cons i rest =>
      rw [hlist] at hpop
      cases hpop

/-- A page is popped off the list. -/
theorem popped_some (hI : Listed P) {idx : Nat} (hpop : P.popped.1 = some idx) :
    ∃ rest, (P.free.dropWhile fun i => (P.role i).generation ≠ .Free) = idx :: rest ∧
      P.popped.2 = rest := by
  cases hlist : P.free.dropWhile fun i => (P.role i).generation ≠ .Free with
  | cons i rest =>
      unfold popped at hpop ⊢
      rw [hlist] at hpop ⊢
      cases hpop
      exact ⟨rest, rfl, rfl⟩
  | nil =>
      -- the fallback would find a Free page that is not listed
      exfalso
      have hfind : (List.range P.nPages).find? (fun i => (P.role i).generation = .Free) =
          some idx := by
        unfold popped at hpop
        rwa [hlist] at hpop
      have hfree : (P.role idx).generation = .Free := by simpa using List.find?_some hfind
      have hlt : idx < P.nPages := List.mem_range.1 (List.mem_of_find?_eq_some hfind)
      have hmem := mem_dropWhile_free (hI.complete idx hlt hfree) hfree
      rw [hlist] at hmem
      cases hmem

/-- A freed page is pushed. -/
theorem freed (hI : Listed P) {idx : Nat} (hlt : idx < P.nPages) : Listed (P.after (.drop idx)) := by
  refine ⟨?_, ?_, ?_⟩
  · intro p hp hfree
    rw [Pool.after, List.mem_cons]
    by_cases heq : p = idx
    · exact Or.inl heq
    · simp only [Pool.after, Function.update_of_ne heq] at hfree
      exact Or.inr (hI.complete p hp hfree)
  · intro p hp
    rw [Pool.after, List.mem_cons] at hp
    show p < P.nPages
    rcases hp with rfl | hp
    · exact hlt
    · exact hI.inside p hp
  · intro p hlarge
    by_cases heq : p = idx
    · subst heq
      simp only [Pool.after, Function.update_self] at hlarge
      cases hlarge
    · simp only [Pool.after, Function.update_of_ne heq] at hlarge ⊢
      exact hI.spans p hlarge

/-- Where no commit is refused, every event keeps the list complete. -/
theorem after (hI : Listed P) (hgrants : ∀ k, P.grants k = true) {e : Event}
    (hen : P.Enabled e) : Listed (P.after e) := by
  have hrest : ∀ idx, P.popped.1 = some idx → ∀ p < P.nPages, p ≠ idx →
      (P.role p).generation = .Free → p ∈ P.popped.2 := by
    intro idx hpop p hlt hne hfree
    obtain ⟨rest, hlist, hrest⟩ := hI.popped_some hpop
    have hmem := mem_dropWhile_free (hI.complete p hlt hfree) hfree
    rw [hlist] at hmem
    rw [hrest]
    exact (List.mem_cons.1 hmem).resolve_left hne
  cases e with
  | exhaust =>
      refine ⟨?_, fun p hp => hI.inside p (P.popped_subset hp), hI.spans⟩
      intro p hlt hfree
      exact absurd hfree (hI.popped_none hen p hlt)
  | lose idx =>
      -- a page of the list is inside the reservation and no commit is refused
      obtain ⟨hpop, hout | ⟨k, hk⟩⟩ := hen
      · obtain ⟨rest, hlist, -⟩ := hI.popped_some hpop
        have hmem : idx ∈ P.free :=
          List.dropWhile_subset _ (by rw [hlist]; exact List.mem_cons_self)
        exact absurd (hI.inside idx hmem) (Nat.not_lt.2 hout)
      · rw [hgrants k] at hk
        cases hk
  | «open» idx g k =>
      obtain ⟨hpop, hlt, hg, hk⟩ := hen
      refine ⟨?_, fun p hp => hI.inside p (P.popped_subset hp), ?_⟩
      · intro p hp hfree
        by_cases heq : p = idx
        · subst heq
          simp only [Pool.after, Function.update_self] at hfree
          exact absurd hfree hg
        · simp only [Pool.after, Function.update_of_ne heq] at hfree
          exact hrest idx hpop p hp heq hfree
      · intro p hlarge
        by_cases heq : p = idx
        · subst heq
          simp only [Pool.after, Function.update_self] at hlarge
          rcases hk with rfl | rfl <;> cases hlarge
        · simp only [Pool.after, Function.update_of_ne heq] at hlarge ⊢
          exact hI.spans p hlarge
  | claim start m n g =>
      obtain ⟨hg, hle, -, hrun⟩ := hen
      refine ⟨?_, hI.inside, ?_⟩
      · intro p hlt hfree
        by_cases hin : Within start m p
        · simp only [Pool.after, if_pos hin] at hfree
          exact absurd hfree hg
        · simp only [Pool.after, if_neg hin] at hfree
          exact hI.complete p hlt hfree
      · intro p hlarge
        by_cases hin : Within start m p
        · simp only [Pool.after, if_pos hin]
          by_cases heq : p = start
          · -- the span of the head is the length of the claimed run, at most
            have hlast := (hrun (start + (n - 1)) (by unfold Within at *; omega)).1
            have hspan : n % 65536 ≤ n := Nat.mod_le n 65536
            rw [if_pos heq]
            unfold Within at hin
            omega
          · rw [if_neg heq]
            exact Nat.le_of_lt (hrun p (by unfold Within at *; omega)).1
        · simp only [Pool.after, if_neg hin] at hlarge ⊢
          exact hI.spans p hlarge
  | release idx => exact hI.freed hen.1
  | drop idx => exact hI.freed hen
  | releaseRun head n =>
      obtain ⟨hlarge, hn, -⟩ := hen
      have hfits := hI.spans head hlarge
      rw [hn] at hfits
      refine ⟨?_, ?_, ?_⟩
      · intro p hlt hfree
        rw [Pool.after, List.mem_append, List.mem_reverse, List.mem_range'_1]
        by_cases hin : Within head n p
        · exact Or.inl hin
        · simp only [Pool.after, if_neg hin] at hfree
          exact Or.inr (hI.complete p hlt hfree)
      · intro p hp
        rw [Pool.after, List.mem_append, List.mem_reverse, List.mem_range'_1] at hp
        show p < P.nPages
        rcases hp with hin | hp
        · omega
        · exact hI.inside p hp
      · intro p hlarge'
        by_cases hin : Within head n p
        · simp only [Pool.after, if_pos hin] at hlarge'
          cases hlarge'
        · simp only [Pool.after, if_neg hin] at hlarge' ⊢
          exact hI.spans p hlarge'
  | flip idx g =>
      obtain ⟨hg, hsmall, -⟩ := hen
      refine ⟨?_, hI.inside, ?_⟩
      · intro p hlt hfree
        by_cases heq : p = idx
        · subst heq
          simp only [Pool.after, Function.update_self] at hfree
          exact absurd hfree hg
        · simp only [Pool.after, Function.update_of_ne heq] at hfree
          exact hI.complete p hlt hfree
      · intro p hlarge
        by_cases heq : p = idx
        · subst heq
          simp only [Pool.after, Function.update_self] at hlarge
          exact absurd hlarge hsmall
        · simp only [Pool.after, Function.update_of_ne heq] at hlarge ⊢
          exact hI.spans p hlarge
  | flipRun head n g =>
      obtain ⟨hg, hlarge, hn, -⟩ := hen
      refine ⟨?_, hI.inside, ?_⟩
      · intro p hlt hfree
        by_cases hin : Within head n p
        · simp only [Pool.after, if_pos hin] at hfree
          exact absurd hfree hg
        · simp only [Pool.after, if_neg hin] at hfree
          exact hI.complete p hlt hfree
      · intro p hlarge'
        by_cases hin : Within head n p
        · simp only [Pool.after, if_pos hin] at hlarge' ⊢
          exact hI.spans p hlarge'
        · simp only [Pool.after, if_neg hin] at hlarge' ⊢
          exact hI.spans p hlarge'
  | count minors promotes => exact ⟨hI.complete, hI.inside, hI.spans⟩

/-- The list stays complete along any run of events. -/
theorem steps {may : Event → Prop} {Q : Pool} (hI : Listed P) (hgrants : ∀ k, P.grants k = true)
    (hs : Steps may P Q) : Listed Q := by
  have hrun := hs.keeps (I := fun Q => Listed Q ∧ ∀ k, Q.grants k = true)
    (fun Q e hQ _ hen => ⟨hQ.1.after hQ.2 hen, by simpa using hQ.2⟩) ⟨hI, hgrants⟩
  exact hrun.1

end Listed

/-! ## Large runs -/

/-- The pages of kind Large form runs: a head that says how many pages it spans, and inner pages of
the same generation, each inside the span of a head. -/
structure Whole (P : Pool) : Prop where
  freeKind : ∀ p, (P.role p).generation = .Free → (P.role p).kind = .Free
  inner : ∀ q p, (P.role q).kind = .Large → q < p → p < q + (P.role q).nSpan →
    (P.role p).kind = .Large ∧ (P.role p).nSpan = 0 ∧ (P.role p).generation = (P.role q).generation
  head : ∀ p, (P.role p).kind = .Large → (P.role p).nSpan = 0 →
    ∃ q, q < p ∧ (P.role q).kind = .Large ∧ p < q + (P.role q).nSpan

namespace Whole

variable {P : Pool}

/-- A page of a run is Large, and every page of the run has the generation of its head. -/
theorem member (hW : Whole P) {head p : Nat} (hk : (P.role head).kind = .Large)
    (hin : Within head (P.role head).nSpan p) :
    (P.role p).kind = .Large ∧ (P.role p).generation = (P.role head).generation := by
  by_cases heq : p = head
  · rw [heq]
    exact ⟨hk, rfl⟩
  · have := hW.inner head p hk (by unfold Within at hin; omega) hin.2
    exact ⟨this.1, this.2.2⟩

/-- Two runs have no page in common. -/
theorem apart (hW : Whole P) {q head p : Nat} (hq : (P.role q).kind = .Large)
    (hh : (P.role head).kind = .Large) (hne : q ≠ head)
    (hin : Within head (P.role head).nSpan p) : ¬ Within q (P.role q).nSpan p := by
  intro hin'
  unfold Within at hin hin'
  rcases Nat.lt_or_gt_of_ne hne with hlt | hlt
  · -- the head of the later run would be an inner page of the earlier one
    have := (hW.inner q head hq hlt (by omega)).2.1
    omega
  · have := (hW.inner head q hh hlt (by omega)).2.1
    omega

/-- Giving a page that is not Large another role that is not Large leaves the runs whole. -/
theorem setSmall (hW : Whole P) {idx : Nat} {r : PageRole} {free : List Nat}
    (hold : (P.role idx).kind ≠ .Large) (hnew : r.kind ≠ .Large)
    (hfree : r.generation = .Free → r.kind = .Free) :
    Whole { P with role := Function.update P.role idx r, free := free } := by
  have hlarge : ∀ p, (Function.update P.role idx r p).kind = .Large →
      p ≠ idx ∧ (P.role p).kind = .Large := by
    intro p hp
    by_cases heq : p = idx
    · rw [heq, Function.update_self] at hp
      exact absurd hp hnew
    · rw [Function.update_of_ne heq] at hp
      exact ⟨heq, hp⟩
  refine ⟨?_, ?_, ?_⟩
  · intro p hp
    by_cases heq : p = idx
    · subst heq
      simp only [Function.update_self] at hp ⊢
      exact hfree hp
    · simp only [Function.update_of_ne heq] at hp ⊢
      exact hW.freeKind p hp
  · intro q p hq hlt hspan
    obtain ⟨hne, hq'⟩ := hlarge q hq
    simp only [Function.update_of_ne hne] at hspan ⊢
    have hin := hW.inner q p hq' hlt hspan
    have hpne : p ≠ idx := by
      rintro rfl
      exact hold hin.1
    rw [Function.update_of_ne hpne]
    exact hin
  · intro p hp hz
    obtain ⟨hne, hp'⟩ := hlarge p hp
    simp only [Function.update_of_ne hne] at hz
    obtain ⟨q, hqp, hqk, hqs⟩ := hW.head p hp' hz
    have hqne : q ≠ idx := by
      rintro rfl
      exact hold hqk
    exact ⟨q, hqp, by simpa only [Function.update_of_ne hqne] using hqk,
      by simpa only [Function.update_of_ne hqne] using hqs⟩

/-- A free run becomes a large run. -/
theorem claim (hW : Whole P) {start n : Nat} {g : Generation} (hg : g ≠ .Free) (hn : n < 65536)
    (hfree : ∀ p, Within start n p → (P.role p).generation = .Free) :
    Whole (P.after (.claim start n n g)) := by
  have hsmall : ∀ p, Within start n p → (P.role p).kind ≠ .Large := by
    intro p hp hk
    rw [hW.freeKind p (hfree p hp)] at hk
    cases hk
  refine ⟨?_, ?_, ?_⟩
  · intro p hp
    by_cases hin : Within start n p
    · simp only [Pool.after, if_pos hin] at hp
      exact absurd hp hg
    · simp only [Pool.after, if_neg hin] at hp ⊢
      exact hW.freeKind p hp
  · intro q p hq hlt hspan
    by_cases hqin : Within start n q
    · -- only the head of the new run has a span
      simp only [Pool.after, if_pos hqin] at hspan
      by_cases hqs : q = start
      · rw [if_pos hqs, Nat.mod_eq_of_lt hn] at hspan
        have hpin : Within start n p := by unfold Within; omega
        simp only [Pool.after, if_pos hqin, if_pos hpin]
        rw [if_neg (by omega)]
        exact ⟨trivial, rfl, trivial⟩
      · rw [if_neg hqs] at hspan
        omega
    · simp only [Pool.after, if_neg hqin] at hq hspan ⊢
      have hin := hW.inner q p hq hlt hspan
      have hpin : ¬ Within start n p := fun hpin => hsmall p hpin hin.1
      rw [if_neg hpin]
      exact hin
  · intro p hp hz
    by_cases hpin : Within start n p
    · simp only [Pool.after, if_pos hpin] at hz
      have hne : p ≠ start := by
        rintro rfl
        rw [if_pos rfl, Nat.mod_eq_of_lt hn] at hz
        unfold Within at hpin
        omega
      have hsin : Within start n start := by unfold Within at hpin ⊢; omega
      refine ⟨start, by unfold Within at hpin; omega, ?_, ?_⟩
      · simp only [Pool.after, if_pos hsin]
      · simp only [Pool.after, if_pos hsin, if_true, Nat.mod_eq_of_lt hn]
        exact hpin.2
    · simp only [Pool.after, if_neg hpin] at hp hz
      obtain ⟨q, hqp, hqk, hqs⟩ := hW.head p hp hz
      have hqin : ¬ Within start n q := fun hqin => hsmall q hqin hqk
      exact ⟨q, hqp, by simpa only [Pool.after, if_neg hqin] using hqk,
        by simpa only [Pool.after, if_neg hqin] using hqs⟩

/-- Changing the roles of the pages of one run together: to Free, or to another generation. -/
theorem setRun (hW : Whole P) {head : Nat} {f : PageRole → PageRole} {l : List Nat}
    (hk : (P.role head).kind = .Large) (hn : 1 ≤ (P.role head).nSpan)
    (hf : (∀ r, f r = PageRole.free) ∨
      ∃ g, g ≠ .Free ∧ ∀ r, f r = { r with generation := g }) :
    Whole { P with
      role := fun p => if Within head (P.role head).nSpan p then f (P.role p) else P.role p
      free := l } := by
  have hself : Within head (P.role head).nSpan head := by unfold Within; omega
  -- the head of a page outside the run is another head, so it lies outside the run too
  have houter : ∀ q p, (P.role q).kind = .Large → q ≤ p → p < q + (P.role q).nSpan →
      ¬ Within head (P.role head).nSpan p → ¬ Within head (P.role head).nSpan q := by
    intro q p hq hle hlt hout hqin
    by_cases heq : q = head
    · subst heq
      exact hout ⟨hle, hlt⟩
    · exact hW.apart hq hk heq hqin (by unfold Within; omega)
  rcases hf with hf | ⟨g, hg, hf⟩
  · have hlarge : ∀ p, (if Within head (P.role head).nSpan p then f (P.role p)
        else P.role p).kind = .Large → ¬ Within head (P.role head).nSpan p := by
      intro p hp hin
      rw [if_pos hin, hf] at hp
      cases hp
    refine ⟨?_, ?_, ?_⟩
    · intro p hp
      by_cases hin : Within head (P.role head).nSpan p
      · simp only [if_pos hin, hf]
        rfl
      · simp only [if_neg hin] at hp ⊢
        exact hW.freeKind p hp
    · intro q p hq hlt hspan
      have hqout := hlarge q hq
      simp only [if_neg hqout] at hq hspan ⊢
      have hin := hW.inner q p hq hlt hspan
      have hne : q ≠ head := by
        rintro rfl
        exact hqout hself
      have hpout : ¬ Within head (P.role head).nSpan p := fun hpin =>
        hW.apart hq hk hne hpin ⟨Nat.le_of_lt hlt, hspan⟩
      rw [if_neg hpout]
      exact hin
    · intro p hp hz
      have hpout := hlarge p hp
      simp only [if_neg hpout] at hp hz
      obtain ⟨q, hqp, hqk, hqs⟩ := hW.head p hp hz
      have hqout := houter q p hqk (Nat.le_of_lt hqp) hqs hpout
      exact ⟨q, hqp, by simpa only [if_neg hqout] using hqk,
        by simpa only [if_neg hqout] using hqs⟩
  · have hrole : ∀ p, (if Within head (P.role head).nSpan p then f (P.role p)
        else P.role p).kind = (P.role p).kind ∧
        (if Within head (P.role head).nSpan p then f (P.role p)
        else P.role p).nSpan = (P.role p).nSpan := by
      intro p
      split
      · rw [hf]
        exact ⟨rfl, rfl⟩
      · exact ⟨rfl, rfl⟩
    refine ⟨?_, ?_, ?_⟩
    · intro p hp
      by_cases hin : Within head (P.role head).nSpan p
      · simp only [if_pos hin, hf] at hp
        exact absurd hp hg
      · simp only [if_neg hin] at hp ⊢
        exact hW.freeKind p hp
    · intro q p hq hlt hspan
      simp only [(hrole _).1, (hrole _).2] at hq hspan ⊢
      have hin := hW.inner q p hq hlt hspan
      refine ⟨hin.1, hin.2.1, ?_⟩
      by_cases hpin : Within head (P.role head).nSpan p
      · have hqin : Within head (P.role head).nSpan q := by
          by_contra hqout
          have hne : q ≠ head := by
            rintro rfl
            exact hqout hself
          exact hW.apart hq hk hne hpin ⟨Nat.le_of_lt hlt, hspan⟩
        simp only [if_pos hpin, if_pos hqin, hf]
      · have hqout := houter q p hq (Nat.le_of_lt hlt) hspan hpin
        simp only [if_neg hpin, if_neg hqout]
        exact hin.2.2
    · intro p hp hz
      simp only [(hrole _).1, (hrole _).2] at hp hz
      obtain ⟨q, hqp, hqk, hqs⟩ := hW.head p hp hz
      exact ⟨q, hqp, by simpa only [(hrole _).1] using hqk, by simpa only [(hrole _).2] using hqs⟩

/-- Whole events leave the runs whole. -/
theorem after (hW : Whole P) {e : Event} (hmay : WholeEvent e) (hen : P.Enabled e) :
    Whole (P.after e) := by
  have hpopped : ∀ idx, P.popped.1 = some idx → (P.role idx).kind ≠ .Large := by
    intro idx hpop hk
    rw [hW.freeKind idx (popped_free hpop)] at hk
    cases hk
  cases e with
  | exhaust => exact ⟨hW.freeKind, hW.inner, hW.head⟩
  | lose idx => exact ⟨hW.freeKind, hW.inner, hW.head⟩
  | «open» idx g k =>
      obtain ⟨hpop, -, hg, hk⟩ := hen
      refine hW.setSmall (hpopped idx hpop) ?_ fun hfree => absurd hfree hg
      rcases hk with rfl | rfl <;> intro hlarge <;> cases hlarge
  | claim start m n g =>
      obtain ⟨hg, -, -, hrun⟩ := hen
      rcases hmay with rfl | ⟨rfl, hn⟩
      · have hnone : ∀ p, ¬ Within start 0 p := by
          intro p hp
          unfold Within at hp
          omega
        have hsame : P.after (.claim start 0 n g) = P := by
          simp only [Pool.after, hnone, if_false]
        rw [hsame]
        exact hW
      · exact hW.claim hg hn fun p hp => (hrun p hp).2
  | release idx => exact hW.setSmall hen.2.1 (by intro hk; cases hk) fun _ => rfl
  | drop idx => cases hmay
  | releaseRun head n =>
      obtain ⟨hk, rfl, hn⟩ := hen
      exact hW.setRun (f := fun _ => PageRole.free) hk hn (Or.inl fun _ => rfl)
  | flip idx g =>
      obtain ⟨hg, hk, -⟩ := hen
      exact hW.setSmall hk hk fun hfree => absurd hfree hg
  | flipRun head n g =>
      obtain ⟨hg, hk, rfl, hn⟩ := hen
      exact hW.setRun (f := fun r => { r with generation := g }) (l := P.free) hk hn
        (Or.inr ⟨g, hg, fun _ => rfl⟩)
  | count minors promotes => exact ⟨hW.freeKind, hW.inner, hW.head⟩

theorem steps {may : Event → Prop} {Q : Pool} (hW : Whole P) (hmay : ∀ e, may e → WholeEvent e)
    (hs : Steps may P Q) : Whole Q :=
  hs.keeps (fun _ _ hW he hen => hW.after (hmay _ he) hen) hW

end Whole

/-! ## Generations -/

/-- An evacuation brings pages into its destination only. -/
theorem EvacEvent.source {P : Pool} {e : Event} {dest g : Generation} (he : EvacEvent dest e)
    (hg : g ≠ dest) (hfree : g ≠ .Free) {p : Nat} (hp : ((P.after e).role p).generation = g) :
    (P.role p).generation = g := by
  cases e with
  | exhaust => exact hp
  | lose idx => exact hp
  | «open» idx g' k =>
      cases he
      by_cases heq : p = idx
      · subst heq
        simp only [Pool.after, Function.update_self] at hp
        exact absurd hp.symm hg
      · simpa only [Pool.after, Function.update_of_ne heq] using hp
  | release idx =>
      by_cases heq : p = idx
      · subst heq
        simp only [Pool.after, Function.update_self] at hp
        exact absurd hp.symm hfree
      · simpa only [Pool.after, Function.update_of_ne heq] using hp
  | releaseRun head n =>
      by_cases hin : Within head n p
      · simp only [Pool.after, if_pos hin] at hp
        exact absurd hp.symm hfree
      · simpa only [Pool.after, if_neg hin] using hp
  | flip idx g' =>
      cases he
      by_cases heq : p = idx
      · subst heq
        simp only [Pool.after, Function.update_self] at hp
        exact absurd hp.symm hg
      · simpa only [Pool.after, Function.update_of_ne heq] using hp
  | flipRun head n g' =>
      cases he
      by_cases hin : Within head n p
      · simp only [Pool.after, if_pos hin] at hp
        exact absurd hp.symm hg
      · simpa only [Pool.after, if_neg hin] using hp
  | claim => cases he
  | drop => cases he
  | count => cases he

theorem Steps.source {P Q : Pool} {dest g : Generation} (hs : Steps (EvacEvent dest) P Q)
    (hg : g ≠ dest) (hfree : g ≠ .Free) {p : Nat} (hp : (Q.role p).generation = g) :
    (P.role p).generation = g :=
  hs.keeps (I := fun Q => (Q.role p).generation = g → (P.role p).generation = g)
    (fun _ _ hI he _ hp => hI (he.source hg hfree hp)) id hp

/-- An evacuation leaves the counters alone. -/
theorem Steps.counters {P Q : Pool} {dest : Generation} (hs : Steps (EvacEvent dest) P Q) :
    Q.minors = P.minors ∧ Q.promotes = P.promotes := by
  refine hs.keeps (I := fun Q => Q.minors = P.minors ∧ Q.promotes = P.promotes) ?_ ⟨rfl, rfl⟩
  intro Q e hQ he _
  cases e with
  | count => cases he
  | _ => exact hQ

end Pool

end NewGc
