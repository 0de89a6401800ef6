import Mathlib.Algebra.Order.BigOperators.Group.Finset
import Mathlib.Data.Prod.Lex
import Mathlib.Logic.Relation
import Mathlib.Order.OrderIsoNat

/-!
# Settling — systems whose runs end where they should

A relation settles from a state when no run from there is infinite and every run that can go no
further has reached its goal.  A measure that each step lowers gives the one, an account of the
states without a step the other.  For a system of many parties the measure is a sum over the
parties, and a step that moves one party is judged by that party alone.
-/

namespace Library

/-! ## Settling -/

section Settles

variable {α β : Type*} {R : α → α → Prop} {Goal : α → Prop} {a b : α}

/-- No run is infinite, and a run that cannot go on has reached the goal. -/
structure Settles (R : α → α → Prop) (Goal : α → Prop) (a : α) : Prop where
  finite : ¬ ∃ run : ℕ → α, run 0 = a ∧ ∀ n, R (run n) (run (n + 1))
  rest : ∀ b, Relation.ReflTransGen R a b → (∃ c, R b c) ∨ Goal b

/-- A step keeps the invariant along a run. -/
theorem invariant_run {I : α → Prop} (hI : ∀ a b, I a → R a b → I b) (ha : I a)
    (h : Relation.ReflTransGen R a b) : I b := by
  induction h with
  | refl => exact ha
  | tail _ hstep ih => exact hI _ _ ih hstep

/-- Under an invariant that every step keeps, a measure that every step lowers and a goal wherever
there is no step make a system settle. -/
theorem Settles.of_measure [LinearOrder β] [WellFoundedLT β] {I : α → Prop} (μ : α → β)
    (hI : ∀ a b, I a → R a b → I b) (hμ : ∀ a b, I a → R a b → μ b < μ a)
    (hrest : ∀ a, I a → (¬ ∃ b, R a b) → Goal a) (ha : I a) : Settles R Goal a where
  finite := by
    rintro ⟨run, hstart, hrun⟩
    have hinv : ∀ n, I (run n) := by
      intro n
      induction n with
      | zero =>
          rw [hstart]
          exact ha
      | succ n ih => exact hI _ _ ih (hrun n)
    -- the measures along the run would fall for ever
    have hfall : ∀ n, μ (run (n + 1)) < μ (run n) := fun n => hμ _ _ (hinv n) (hrun n)
    exact not_strictAnti_of_wellFoundedLT (fun n => μ (run n)) (strictAnti_nat_of_succ_lt hfall)
  rest := by
    intro b hb
    by_cases hstep : ∃ c, R b c
    · exact Or.inl hstep
    · exact Or.inr (hrest b (invariant_run hI ha hb) hstep)

end Settles

/-! ## Sums over parties -/

section Parties

variable {ι : Type*} [DecidableEq ι] {S : Finset ι} {f f' : ι → ℕ} {m : ι}

/-- The party that moves decides how the sum moves. -/
theorem sum_le_of_moved (hothers : ∀ j, j ≠ m → f' j = f j) (hm : f' m ≤ f m) :
    ∑ j ∈ S, f' j ≤ ∑ j ∈ S, f j := by
  refine Finset.sum_le_sum fun j _ => ?_
  by_cases hj : j = m
  · rw [hj]
    exact hm
  · exact (hothers j hj).le

theorem sum_lt_of_moved (hS : m ∈ S) (hothers : ∀ j, j ≠ m → f' j = f j) (hm : f' m < f m) :
    ∑ j ∈ S, f' j < ∑ j ∈ S, f j := by
  refine Finset.sum_lt_sum (fun j _ => ?_) ⟨m, hS, hm⟩
  by_cases hj : j = m
  · rw [hj]
    exact hm.le
  · exact (hothers j hj).le

end Parties

/-! ## Three sums, the first first -/

/-- Three counts, compared in this order. -/
def threefold (a b c : ℕ) : ℕ ×ₗ ℕ ×ₗ ℕ := toLex (a, toLex (b, c))

theorem threefold_lt {a b c a' b' c' : ℕ} (ha : a' ≤ a)
    (h : a' = a → b' ≤ b ∧ (b' = b → c' < c)) : threefold a' b' c' < threefold a b c := by
  unfold threefold
  rw [Prod.Lex.toLex_lt_toLex]
  rcases ha.lt_or_eq with hlt | heq
  · exact Or.inl hlt
  · obtain ⟨hb, hc⟩ := h heq
    refine Or.inr ⟨heq, ?_⟩
    rw [Prod.Lex.toLex_lt_toLex]
    rcases hb.lt_or_eq with hlt | heq'
    · exact Or.inl hlt
    · exact Or.inr ⟨heq', hc heq'⟩

end Library
