import Mathlib.Algebra.BigOperators.Group.Finset.Basic

/-!
# Tally — counting what a loop has done

A loop that works through a set of things keeps two numbers: how many it has dealt with, and the sum
of their sizes.  `Tally P size n total` says that these are the numbers of the things that satisfy
`P`.
-/

namespace Library

variable {ι : Type} {P P' Q : ι → Prop} {size size' : ι → Nat} {n n' total total' : Nat}

/-- Exactly `n` things satisfy `P`, and their sizes add up to `total`. -/
def Tally (P : ι → Prop) (size : ι → Nat) (n total : Nat) : Prop :=
  ∃ S : Finset ι, (∀ x, x ∈ S ↔ P x) ∧ n = S.card ∧ total = ∑ x ∈ S, size x

namespace Tally

theorem none (hnone : ∀ x, ¬ P x) : Tally P size 0 0 :=
  ⟨∅, fun x => ⟨fun hx => absurd hx (Finset.notMem_empty x), fun hx => absurd hx (hnone x)⟩, rfl,
    rfl⟩

theorem congr (hT : Tally P size n total) (hP : ∀ x, P x ↔ P' x)
    (hsize : ∀ x, P x → size x = size' x) : Tally P' size' n total := by
  obtain ⟨S, hS, hn, htotal⟩ := hT
  refine ⟨S, fun x => (hS x).trans (hP x), hn, ?_⟩
  rw [htotal]
  exact Finset.sum_congr rfl fun x hx => hsize x ((hS x).1 hx)

theorem of_iff (hT : Tally P size n total) (hP : ∀ x, P x ↔ P' x) : Tally P' size n total :=
  hT.congr hP fun _ _ => rfl

/-- Two loops over different things. -/
theorem union (hT : Tally P size n total) (hT' : Tally P' size n' total')
    (hdisjoint : ∀ x, P x → ¬ P' x) (hQ : ∀ x, Q x ↔ P x ∨ P' x) :
    Tally Q size (n + n') (total + total') := by
  classical
  obtain ⟨S, hS, rfl, rfl⟩ := hT
  obtain ⟨S', hS', rfl, rfl⟩ := hT'
  have hapart : Disjoint S S' :=
    Finset.disjoint_left.2 fun x hx hx' => hdisjoint x ((hS x).1 hx) ((hS' x).1 hx')
  refine ⟨S ∪ S', fun x => ?_, (Finset.card_union_of_disjoint hapart).symm,
    (Finset.sum_union hapart).symm⟩
  rw [Finset.mem_union, hS, hS', hQ]

theorem single (a : ι) (hP : ∀ x, P x ↔ x = a) : Tally P size 1 (size a) :=
  ⟨{a}, fun x => Finset.mem_singleton.trans (hP x).symm, (Finset.card_singleton a).symm,
    (Finset.sum_singleton size a).symm⟩

/-- One more thing. -/
theorem insert {a : ι} (hT : Tally P size n total) (hnew : ¬ P a) (hQ : ∀ x, Q x ↔ P x ∨ x = a) :
    Tally Q size (n + 1) (total + size a) := by
  refine hT.union (single a fun _ => Iff.rfl) (fun x hx hxa => ?_) hQ
  rw [hxa] at hx
  exact hnew hx

end Tally

end Library
