import Mathlib.Data.List.Basic

/-!
# Triple — pre- and postconditions of programs with a state and errors

A program is a term of `EStateM ε σ α`.  `Triple E P m Q` says what `m` does from a state with `P`:
it returns a value and a state with `Q`, or throws an error that `E` allows.  There is one rule for
each way to put a program together.
-/

namespace Library

variable {ε σ α β : Type}

/-! ## Triples -/

/-- From `P` the program returns with `Q`, or throws an error that `E` allows; the state it throws
in is of no concern. -/
def Triple (E : ε → Prop) (P : σ → Prop) (m : EStateM ε σ α) (Q : α → σ → Prop) : Prop :=
  ∀ s, P s → match m s with
    | .ok a s' => Q a s'
    | .error e _ => E e

namespace Triple

variable {E E' : ε → Prop} {P P' : σ → Prop} {m : EStateM ε σ α} {Q Q' : α → σ → Prop}
  {R : β → σ → Prop}

/-- The rule of consequence. -/
theorem conseq (h : Triple E P m Q) (hpre : ∀ s, P' s → P s) (hpost : ∀ a s, Q a s → Q' a s)
    (herror : ∀ e, E e → E' e) : Triple E' P' m Q' := by
  intro s hs
  have hrun := h s (hpre s hs)
  cases hm : m s with
  | ok a s' =>
      rw [hm] at hrun
      exact hpost a s' hrun
  | error e s' =>
      rw [hm] at hrun
      exact herror e hrun

theorem post (h : Triple E P m Q) (hpost : ∀ a s, Q a s → Q' a s) : Triple E P m Q' :=
  h.conseq (fun _ hs => hs) hpost fun _ he => he

/-- From one of the states. -/
theorem at_state {s : σ} (h : Triple E P m Q) (hs : P s) : Triple E (Eq s) m Q := by
  rintro s' rfl
  exact h s hs

/-- A fact about no state goes from the precondition into the context. -/
theorem pull {p : Prop} (h : p → Triple E P m Q) : Triple E (fun s => p ∧ P s) m Q :=
  fun s hs => h hs.1 s hs.2

/-! ### Programs -/

theorem pure {a : α} (h : ∀ s, P s → Q a s) : Triple E P (pure a) Q := h

theorem throw {e : ε} (he : E e) : Triple E P (throw e) Q := fun _ _ => he

theorem modify {f : σ → σ} {Q : PUnit → σ → Prop} (h : ∀ s, P s → Q ⟨⟩ (f s)) :
    Triple E P (modify f) Q := h

theorem set {s' : σ} {Q : PUnit → σ → Prop} (h : Q ⟨⟩ s') : Triple E P (set s') Q := fun _ _ => h

/-- The sequencing rule. -/
theorem bind {f : α → EStateM ε σ β} (hm : Triple E P m Q) (hf : ∀ a, Triple E (Q a) (f a) R) :
    Triple E P (m >>= f) R := by
  intro s hs
  have hrun := hm s hs
  show match EStateM.bind m f s with
    | .ok b s' => R b s'
    | .error e _ => E e
  unfold EStateM.bind
  cases hres : m s with
  | ok a s' =>
      rw [hres] at hrun
      exact hf a s' hrun
  | error e s' =>
      rw [hres] at hrun
      exact hrun

/-- A program that reads the state first: what follows is looked at from each state. -/
theorem get_bind {f : σ → EStateM ε σ β} (hf : ∀ s, P s → Triple E (Eq s) (f s) R) :
    Triple E P (get >>= f) R :=
  fun s hs => hf s hs s rfl

end Triple

end Library
