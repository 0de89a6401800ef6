import Mathlib.Data.List.Basic
import Mathlib.Data.List.Count
import Mathlib.Logic.Function.Basic
import Mathlib.Logic.Relation

/-!
# Worklist — graph search with a seen set and a queue

`Search.run` pops a node and offers its successors until the queue is empty.  A node is queued when
it is first seen, so the unseen nodes and the queue together measure the work left.  The result is
closed under successors and holds nothing but what can be reached.
-/

namespace Library

variable {α : Type} [DecidableEq α]

structure Search (α : Type) where
  seen : α → Bool
  queue : List α

namespace Search

/-- See a node, and queue it when it is new. -/
def offer (s : Search α) (a : α) : Search α :=
  if s.seen a then s else { seen := Function.update s.seen a true, queue := a :: s.queue }

def offerAll (s : Search α) (as : List α) : Search α := as.foldl offer s

def run (succ : α → List α) : Nat → Search α → Search α
  | 0, s => s
  | fuel + 1, s =>
      match s.queue with
      | [] => s
      | a :: rest => run succ fuel ({ s with queue := rest }.offerAll (succ a))

/-! ## Offering nodes -/

theorem offer_seen (s : Search α) (a b : α) :
    (s.offer a).seen b = true ↔ s.seen b = true ∨ b = a := by
  unfold offer
  by_cases hs : s.seen a = true
  · rw [if_pos hs]
    constructor
    · exact Or.inl
    · rintro (h | rfl)
      · exact h
      · exact hs
  · rw [if_neg hs]
    by_cases hb : b = a
    · subst hb
      simp
    · simp [hb]

theorem offerAll_seen (as : List α) (s : Search α) (b : α) :
    (s.offerAll as).seen b = true ↔ s.seen b = true ∨ b ∈ as := by
  induction as generalizing s with
  | nil => simp [offerAll]
  | cons a as ih =>
      show ((s.offer a).offerAll as).seen b = true ↔ _
      rw [ih, offer_seen, List.mem_cons, or_assoc]

theorem offer_queue (s : Search α) (a b : α) :
    b ∈ (s.offer a).queue ↔ b ∈ s.queue ∨ (b = a ∧ s.seen a = false) := by
  unfold offer
  cases hs : s.seen a with
  | true => simp
  | false => simp [or_comm]

/-- A queued node has been seen. -/
def Queued (s : Search α) : Prop := ∀ a ∈ s.queue, s.seen a = true

theorem Queued.offer {s : Search α} (hs : s.Queued) (a : α) : (s.offer a).Queued := by
  intro b hb
  rw [offer_seen]
  rcases (offer_queue s a b).1 hb with h | ⟨rfl, -⟩
  · exact Or.inl (hs b h)
  · exact Or.inr rfl

theorem Queued.offerAll {s : Search α} (hs : s.Queued) (as : List α) : (s.offerAll as).Queued := by
  induction as generalizing s with
  | nil => exact hs
  | cons a as ih => exact ih (hs.offer a)

/-! ## The work left -/

/-- The unseen nodes of `univ` and the queue. -/
def work (univ : List α) (s : Search α) : Nat :=
  univ.countP (fun a => !s.seen a) + s.queue.length

theorem countP_unseen_le (seen : α → Bool) (univ : List α) (a : α) :
    univ.countP (fun b => !(Function.update seen a true) b) ≤ univ.countP (fun b => !seen b) := by
  refine List.countP_mono_left fun b _ hnew => ?_
  by_cases hba : b = a
  · subst hba
    simp at hnew
  · simpa [Function.update_of_ne hba] using hnew

theorem countP_unseen_lt {seen : α → Bool} {univ : List α} {a : α} (hs : seen a = false)
    (ha : a ∈ univ) : univ.countP (fun b => !(Function.update seen a true) b) <
      univ.countP (fun b => !seen b) := by
  induction univ with
  | nil => cases ha
  | cons b univ ih =>
      have hle := countP_unseen_le seen univ a
      rw [List.countP_cons, List.countP_cons]
      by_cases hba : b = a
      · subst hba
        simp only [Function.update_self, Bool.not_true, Bool.false_eq_true, if_false, hs,
          Bool.not_false, if_true]
        omega
      · have := ih ((List.mem_cons.1 ha).resolve_left fun h => hba h.symm)
        rw [Function.update_of_ne hba]
        omega

theorem work_offer {univ : List α} (s : Search α) {a : α} (ha : a ∈ univ) :
    (s.offer a).work univ ≤ s.work univ := by
  unfold offer
  cases hs : s.seen a with
  | true => simp
  | false =>
      have hlt := countP_unseen_lt hs ha
      simp only [Bool.false_eq_true, if_false, work, List.length_cons]
      omega

theorem work_offerAll {univ : List α} (as : List α) (s : Search α) (has : ∀ a ∈ as, a ∈ univ) :
    (s.offerAll as).work univ ≤ s.work univ := by
  induction as generalizing s with
  | nil => exact Nat.le_refl _
  | cons a as ih =>
      exact Nat.le_trans (ih (s.offer a) fun b hb => has b (List.mem_cons_of_mem a hb))
        (s.work_offer (has a List.mem_cons_self))

omit [DecidableEq α] in
theorem queue_le_work (univ : List α) (s : Search α) : s.queue.length ≤ s.work univ :=
  Nat.le_add_left _ _

/-! ## Closure -/

/-- Every seen node is queued, or its successors have been seen. -/
def Closing (succ : α → List α) (s : Search α) : Prop :=
  ∀ a, s.seen a = true → a ∈ s.queue ∨ ∀ b ∈ succ a, s.seen b = true

theorem Closing.offer {succ : α → List α} {s : Search α} (hs : s.Closing succ) (a : α) :
    (s.offer a).Closing succ := by
  intro b hb
  rw [offer_queue]
  rcases (offer_seen s a b).1 hb with h | rfl
  · rcases hs b h with hq | hsucc
    · exact Or.inl (Or.inl hq)
    · exact Or.inr fun c hc => (offer_seen s a c).2 (Or.inl (hsucc c hc))
  · cases hseen : s.seen b with
    | false => exact Or.inl (Or.inr ⟨rfl, rfl⟩)
    | true =>
        rcases hs b hseen with hq | hsucc
        · exact Or.inl (Or.inl hq)
        · exact Or.inr fun c hc => (offer_seen s b c).2 (Or.inl (hsucc c hc))

theorem Closing.offerAll {succ : α → List α} {s : Search α} (hs : s.Closing succ) (as : List α) :
    (s.offerAll as).Closing succ := by
  induction as generalizing s with
  | nil => exact hs
  | cons a as ih => exact ih (hs.offer a)

/-- Popping a node and offering its successors. -/
theorem Closing.pop {succ : α → List α} {s : Search α} (hs : s.Closing succ) {a : α}
    {rest : List α} (hq : s.queue = a :: rest) :
    ({ s with queue := rest }.offerAll (succ a)).Closing succ := by
  have hkeep : ∀ (as : List α) (t : Search α) (b : α), b ∈ t.queue → b ∈ (t.offerAll as).queue := by
    intro as
    induction as with
    | nil => exact fun _ _ hb => hb
    | cons c as ih => exact fun t b hb => ih (t.offer c) b ((offer_queue t c b).2 (Or.inl hb))
  have hnew : ∀ (as : List α) (t : Search α) (b : α), (t.offerAll as).seen b = true →
      t.seen b = true ∨ b ∈ (t.offerAll as).queue := by
    intro as
    induction as with
    | nil => exact fun _ _ hb => Or.inl hb
    | cons c as ih =>
        intro t b hb
        rcases ih (t.offer c) b hb with h | h
        · rcases (offer_seen t c b).1 h with h | rfl
          · exact Or.inl h
          · cases hc : t.seen b with
            | true => exact Or.inl rfl
            | false => exact Or.inr (hkeep as _ b ((offer_queue t b b).2 (Or.inr ⟨rfl, hc⟩)))
        · exact Or.inr h
  intro b hb
  rcases hnew (succ a) { s with queue := rest } b hb with h | h
  · rcases hs b h with hmem | hsucc
    · rw [hq] at hmem
      rcases List.mem_cons.1 hmem with rfl | hrest
      · exact Or.inr fun c hc => (offerAll_seen _ _ c).2 (Or.inr hc)
      · exact Or.inl (hkeep _ _ b hrest)
    · exact Or.inr fun c hc => (offerAll_seen _ _ c).2 (Or.inl (hsucc c hc))
  · exact Or.inl h

/-! ## The run -/

variable {succ : α → List α} {univ : List α}

theorem run_mono (fuel : Nat) (s : Search α) {a : α} (ha : s.seen a = true) :
    (run succ fuel s).seen a = true := by
  induction fuel generalizing s with
  | zero => exact ha
  | succ fuel ih =>
      unfold run
      cases hq : s.queue with
      | nil => exact ha
      | cons b rest => exact ih _ ((offerAll_seen _ _ a).2 (Or.inl ha))

/-- With enough fuel the run ends with an empty queue. -/
theorem run_empty (hsucc : ∀ a, ∀ b ∈ succ a, b ∈ univ) :
    ∀ fuel (s : Search α), s.work univ ≤ fuel → (run succ fuel s).queue = [] := by
  intro fuel
  induction fuel with
  | zero =>
      intro s hwork
      have := s.queue_le_work univ
      exact List.length_eq_zero_iff.1 (Nat.le_zero.1 (Nat.le_trans this hwork))
  | succ fuel ih =>
      intro s hwork
      unfold run
      cases hq : s.queue with
      | nil => exact hq
      | cons a rest =>
          refine ih _ (Nat.le_trans (work_offerAll (succ a) _ (hsucc a)) ?_)
          unfold work at hwork ⊢
          rw [hq, List.length_cons] at hwork
          dsimp only
          omega

theorem run_closing (fuel : Nat) (s : Search α) (hs : s.Closing succ) :
    (run succ fuel s).Closing succ := by
  induction fuel generalizing s with
  | zero => exact hs
  | succ fuel ih =>
      unfold run
      cases hq : s.queue with
      | nil => exact hs
      | cons a rest => exact ih _ (hs.pop hq)

/-- The result is closed under successors. -/
theorem run_closed (hsucc : ∀ a, ∀ b ∈ succ a, b ∈ univ) {fuel : Nat} {s : Search α}
    (hfuel : s.work univ ≤ fuel) (hs : s.Closing succ) {a b : α}
    (ha : (run succ fuel s).seen a = true) (hb : b ∈ succ a) : (run succ fuel s).seen b = true := by
  rcases run_closing fuel s hs a ha with hq | hall
  · rw [run_empty hsucc fuel s hfuel] at hq
    cases hq
  · exact hall b hb

/-- Whatever the run sees can be reached from what had been seen. -/
theorem run_sound (fuel : Nat) (s : Search α) (hs : s.Queued) {b : α}
    (hb : (run succ fuel s).seen b = true) :
    ∃ a, s.seen a = true ∧ Relation.ReflTransGen (fun x y => y ∈ succ x) a b := by
  induction fuel generalizing s with
  | zero => exact ⟨b, hb, .refl⟩
  | succ fuel ih =>
      unfold run at hb
      cases hq : s.queue with
      | nil =>
          rw [hq] at hb
          exact ⟨b, hb, .refl⟩
      | cons a rest =>
          rw [hq] at hb
          have hsa : s.seen a = true := hs a (by rw [hq]; exact List.mem_cons_self)
          have hrest : Queued { s with queue := rest } := fun c hc =>
            hs c (by rw [hq]; exact List.mem_cons_of_mem a hc)
          obtain ⟨c, hc, hreach⟩ := ih _ (hrest.offerAll (succ a)) hb
          rcases (offerAll_seen _ _ c).1 hc with h | h
          · exact ⟨c, h, hreach⟩
          · exact ⟨a, hsa, .head h hreach⟩

/-! ## Fallible successors -/

variable {ε : Type} {next : α → Except ε (List α)} {old : α → Bool} {starts : List α}

/-- The search when a node's successors may fail to be read. -/
def runM (next : α → Except ε (List α)) : Nat → Search α → Except ε (Search α)
  | 0, s => .ok s
  | fuel + 1, s =>
      match s.queue with
      | [] => .ok s
      | a :: rest => do
          let as ← next a
          runM next fuel ({ s with queue := rest }.offerAll as)

/-- A search from `starts` in which the `old` nodes count as seen from the beginning. -/
def fresh (old : α → Bool) (starts : List α) : Search α :=
  ({ seen := old, queue := [] } : Search α).offerAll starts

/-- What such a search meets: the least set that holds `starts` and the successors of its new
nodes. -/
inductive Found (next : α → Except ε (List α)) (old : α → Bool) (starts : List α) : α → Prop
  | start {a : α} (ha : a ∈ starts) : Found next old starts a
  | step {a b : α} {as : List α} (ha : Found next old starts a) (hnew : old a = false)
      (hnext : next a = .ok as) (hb : b ∈ as) : Found next old starts b

/-- The state of a search: what is seen is old or found, what is queued is new and found, and a new
node that has left the queue was read and its successors are seen. -/
structure Searching (next : α → Except ε (List α)) (old : α → Bool) (starts : List α)
    (s : Search α) : Prop where
  keeps : ∀ a, old a = true → s.seen a = true
  begun : ∀ a ∈ starts, s.seen a = true
  found : ∀ a, s.seen a = true → old a = true ∨ Found next old starts a
  queued : ∀ a ∈ s.queue, old a = false ∧ Found next old starts a
  read : ∀ a, s.seen a = true → old a = false →
    a ∈ s.queue ∨ ∃ as, next a = .ok as ∧ ∀ b ∈ as, s.seen b = true

theorem mem_offerAll_queue (as : List α) (s : Search α) (b : α) :
    b ∈ (s.offerAll as).queue ↔ b ∈ s.queue ∨ (b ∈ as ∧ s.seen b = false) := by
  induction as generalizing s with
  | nil => simp [offerAll]
  | cons a as ih =>
      show b ∈ ((s.offer a).offerAll as).queue ↔ _
      rw [ih, offer_queue, List.mem_cons]
      have hseen : (s.offer a).seen b = false ↔ s.seen b = false ∧ b ≠ a := by
        rw [← Bool.not_eq_true, offer_seen, not_or, Bool.not_eq_true]
      rw [hseen]
      by_cases hba : b = a
      · subst hba
        simp
      · simp [hba]

theorem Searching.fresh (next : α → Except ε (List α)) (old : α → Bool) (starts : List α) :
    Searching next old starts (fresh old starts) where
  keeps := fun a ha => (offerAll_seen _ _ a).2 (Or.inl ha)
  begun := fun a ha => (offerAll_seen _ _ a).2 (Or.inr ha)
  found := fun a ha => ((offerAll_seen _ _ a).1 ha).imp_right .start
  queued := by
    intro a ha
    rcases (mem_offerAll_queue _ _ a).1 ha with hq | ⟨hmem, hnew⟩
    · cases hq
    · exact ⟨hnew, .start hmem⟩
  read := by
    intro a ha hnew
    rcases (offerAll_seen _ _ a).1 ha with hold | hmem
    · rw [show old a = true from hold] at hnew
      cases hnew
    · exact Or.inl ((mem_offerAll_queue _ _ a).2 (Or.inr ⟨hmem, hnew⟩))

/-- One node is popped and read. -/
theorem Searching.pop {s : Search α} (hs : Searching next old starts s) {a : α} {rest as : List α}
    (hq : s.queue = a :: rest) (hnext : next a = .ok as) :
    Searching next old starts ({ s with queue := rest }.offerAll as) := by
  obtain ⟨hanew, hafound⟩ := hs.queued a (by rw [hq]; exact List.mem_cons_self)
  have hfound : ∀ b ∈ as, Found next old starts b := fun b hb => hafound.step hanew hnext hb
  refine ⟨?_, ?_, ?_, ?_, ?_⟩
  · exact fun b hb => (offerAll_seen _ _ b).2 (Or.inl (hs.keeps b hb))
  · exact fun b hb => (offerAll_seen _ _ b).2 (Or.inl (hs.begun b hb))
  · intro b hb
    rcases (offerAll_seen _ _ b).1 hb with hseen | hmem
    · exact hs.found b hseen
    · exact Or.inr (hfound b hmem)
  · intro b hb
    rcases (mem_offerAll_queue _ _ b).1 hb with hmem | ⟨hmem, hunseen⟩
    · exact hs.queued b (by rw [hq]; exact List.mem_cons_of_mem a hmem)
    · refine ⟨?_, hfound b hmem⟩
      cases hold : old b with
      | false => rfl
      | true => exact absurd (hs.keeps b hold) (by simpa using hunseen)
  · intro b hb hnew
    rcases (offerAll_seen _ _ b).1 hb with hseen | hmem
    · rcases hs.read b hseen hnew with hqueue | ⟨bs, hbs, hall⟩
      · rw [hq] at hqueue
        rcases List.mem_cons.1 hqueue with rfl | hrest
        · exact Or.inr ⟨as, hnext, fun c hc => (offerAll_seen _ _ c).2 (Or.inr hc)⟩
        · exact Or.inl ((mem_offerAll_queue _ _ b).2 (Or.inl hrest))
      · exact Or.inr ⟨bs, hbs, fun c hc => (offerAll_seen _ _ c).2 (Or.inl (hall c hc))⟩
    · cases hseen : s.seen b with
      | false => exact Or.inl ((mem_offerAll_queue _ _ b).2 (Or.inr ⟨hmem, hseen⟩))
      | true =>
          rcases hs.read b hseen hnew with hqueue | ⟨bs, hbs, hall⟩
          · rw [hq] at hqueue
            rcases List.mem_cons.1 hqueue with rfl | hrest
            · exact Or.inr ⟨as, hnext, fun c hc => (offerAll_seen _ _ c).2 (Or.inr hc)⟩
            · exact Or.inl ((mem_offerAll_queue _ _ b).2 (Or.inl hrest))
          · exact Or.inr ⟨bs, hbs, fun c hc => (offerAll_seen _ _ c).2 (Or.inl (hall c hc))⟩

omit [DecidableEq α] in
/-- An empty queue: exactly the old and the found nodes are seen, and every new one was read. -/
theorem Searching.exhausted {s : Search α} (hs : Searching next old starts s) (hq : s.queue = []) :
    (∀ a, s.seen a = true ↔ old a = true ∨ Found next old starts a) ∧
      ∀ a, Found next old starts a → old a = false → ∃ as, next a = .ok as := by
  have hread : ∀ a, s.seen a = true → old a = false →
      ∃ as, next a = .ok as ∧ ∀ b ∈ as, s.seen b = true := by
    intro a ha hnew
    refine (hs.read a ha hnew).resolve_left ?_
    rw [hq]
    exact List.not_mem_nil
  -- over the derivation: a found node has been seen
  have hseen : ∀ a, Found next old starts a → s.seen a = true := by
    intro a ha
    induction ha with
    | start hmem => exact hs.begun _ hmem
    | step _ hnew hnext hb ih =>
        obtain ⟨as, has, hall⟩ := hread _ ih hnew
        rw [hnext] at has
        cases has
        exact hall _ hb
  refine ⟨fun a => ⟨hs.found a, ?_⟩, ?_⟩
  · rintro (hold | hfound)
    · exact hs.keeps a hold
    · exact hseen a hfound
  · intro a ha hnew
    obtain ⟨as, has, -⟩ := hread a (hseen a ha) hnew
    exact ⟨as, has⟩

/-- How a search may end: with exactly the old and the found nodes seen, when every new node it
finds can be read; or with the failure of a found node. -/
def Exact (next : α → Except ε (List α)) (old : α → Bool) (starts : List α) :
    Except ε (Search α) → Prop
  | .ok s => s.queue = [] ∧ (∀ a, s.seen a = true ↔ old a = true ∨ Found next old starts a) ∧
      ∀ a, Found next old starts a → old a = false → ∃ as, next a = .ok as
  | .error e => ∃ a, Found next old starts a ∧ old a = false ∧ next a = .error e

/-- With enough fuel a search ends exactly. -/
theorem runM_exact (hnext : ∀ a as, next a = .ok as → ∀ b ∈ as, b ∈ univ) :
    ∀ fuel (s : Search α), s.work univ ≤ fuel → Searching next old starts s →
      Exact next old starts (runM next fuel s) := by
  intro fuel
  induction fuel with
  | zero =>
      intro s hwork hs
      have hle := s.queue_le_work univ
      have hq : s.queue = [] := List.length_eq_zero_iff.1 (by omega)
      exact ⟨hq, hs.exhausted hq⟩
  | succ fuel ih =>
      intro s hwork hs
      unfold runM
      split
      · rename_i hq
        exact ⟨hq, hs.exhausted hq⟩
      · rename_i a rest hq
        cases hread : next a with
        | error e =>
            obtain ⟨hnew, hfound⟩ := hs.queued a (by rw [hq]; exact List.mem_cons_self)
            exact ⟨a, hfound, hnew, hread⟩
        | ok as =>
            refine ih _ (Nat.le_trans (work_offerAll as _ (hnext a as hread)) ?_)
              (hs.pop hq hread)
            unfold work at hwork ⊢
            rw [hq, List.length_cons] at hwork
            dsimp only
            omega

/-! ## Programs that search -/

variable {σ β : Type} {view : σ → Search α} {I : σ → Prop}

/-- A program that offers the target of every word it visits. -/
theorem foldl_offers {visit : σ → β → σ} {target : β → Option α}
    (hvisit : ∀ s b, I s → I (visit s b) ∧ view (visit s b) = (view s).offerAll (target b).toList)
    (bs : List β) {s : σ} (hs : I s) :
    I (bs.foldl visit s) ∧ view (bs.foldl visit s) = (view s).offerAll (bs.filterMap target) := by
  induction bs generalizing s with
  | nil => exact ⟨hs, rfl⟩
  | cons b bs ih =>
      obtain ⟨hI, hview⟩ := hvisit s b hs
      obtain ⟨hI', hview'⟩ := ih hI
      refine ⟨hI', ?_⟩
      rw [List.foldl_cons, hview', hview, List.filterMap_cons]
      cases target b with
      | none => rfl
      | some a => rfl

/-- A loop that pops its queue until it is empty. -/
structure Drains (view : σ → Search α) (I : σ → Prop) (next : α → Except ε (List α))
    (drain : Nat → σ → Except ε σ) : Prop where
  zero : ∀ s, drain 0 s = .ok s
  stop : ∀ fuel s, (view s).queue = [] → drain (fuel + 1) s = .ok s
  pop : ∀ fuel s a rest, I s → (view s).queue = a :: rest →
    (∃ as s', next a = .ok as ∧ I s' ∧
      view s' = ({ view s with queue := rest } : Search α).offerAll as ∧
      drain (fuel + 1) s = drain fuel s') ∨
    ∃ e, next a = .error e ∧ drain (fuel + 1) s = .error e

/-- Such a loop is the search. -/
theorem Drains.runM {drain : Nat → σ → Except ε σ} (hd : Drains view I next drain) :
    ∀ fuel s, I s →
      (∃ s', drain fuel s = .ok s' ∧ I s' ∧ Search.runM next fuel (view s) = .ok (view s')) ∨
      ∃ e, drain fuel s = .error e ∧ Search.runM next fuel (view s) = .error e := by
  intro fuel
  induction fuel with
  | zero => exact fun s hs => Or.inl ⟨s, hd.zero s, hs, rfl⟩
  | succ fuel ih =>
      intro s hs
      unfold Search.runM
      split
      · rename_i hq
        exact Or.inl ⟨s, hd.stop fuel s hq, hs, rfl⟩
      · rename_i a rest hq
        rcases hd.pop fuel s a rest hs hq with ⟨as, s', hnext, hs', hview, hdrain⟩ | ⟨e, hnext, hdrain⟩
        · have hread : (next a >>= fun as =>
              Search.runM next fuel ({ view s with queue := rest }.offerAll as)) =
              Search.runM next fuel (view s') := by
            rw [hnext, hview]
            rfl
          rw [hread, hdrain]
          exact ih s' hs'
        · rw [hnext, hdrain]
          exact Or.inr ⟨e, rfl, rfl⟩

/-- With enough fuel such a loop ends exactly: with the old and the found nodes seen, or with the
failure of a new node it found. -/
theorem Drains.exact {drain : Nat → σ → Except ε σ} (hd : Drains view I next drain)
    (hnext : ∀ a as, next a = .ok as → ∀ b ∈ as, b ∈ univ) {fuel : Nat} {s : σ} (hs : I s)
    (hview : view s = fresh old starts) (hfuel : (view s).work univ ≤ fuel) :
    (∃ s', drain fuel s = .ok s' ∧ I s' ∧ (view s').queue = [] ∧
      (∀ a, (view s').seen a = true ↔ old a = true ∨ Found next old starts a) ∧
      ∀ a, Found next old starts a → old a = false → ∃ as, next a = .ok as) ∨
    ∃ e a, drain fuel s = .error e ∧ Found next old starts a ∧ old a = false ∧
      next a = .error e := by
  have hexact := runM_exact hnext fuel (view s) hfuel (hview ▸ Searching.fresh next old starts)
  rcases hd.runM fuel s hs with ⟨s', hdrain, hs', hrun⟩ | ⟨e, hdrain, hrun⟩
  · rw [hrun] at hexact
    obtain ⟨hempty, hseen, hread⟩ := hexact
    exact Or.inl ⟨s', hdrain, hs', hempty, hseen, hread⟩
  · rw [hrun] at hexact
    obtain ⟨a, hfound, hnew, hfails⟩ := hexact
    exact Or.inr ⟨e, a, hdrain, hfound, hnew, hfails⟩

end Search

end Library
