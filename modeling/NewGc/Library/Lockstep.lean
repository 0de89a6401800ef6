import Mathlib.Logic.Relation

/-!
# Lockstep — two programs side by side

Two programs of the error-state monad run on states of different types.  A world says how the two
states correspond, and a step may lead to another world: `Lockstep P w m m' Q` says that from states
that correspond in `w` both programs end alike.  What an error on one side excuses is a parameter.
-/

namespace Library

/-- How the states and the failures of two programs correspond; `left` and `right` are the failures
that excuse the other side. -/
structure Pairing (W ε : Type) (S T : Type) where
  related : W → S → T → Prop
  fails : ε → S → ε → T → Prop
  left : ε → S → Prop
  right : ε → T → Prop

variable {W ε S T α α' β β' : Type}

/-- Two ends that agree. -/
inductive Agree (P : Pairing W ε S T) (Q : W → α → α' → Prop) :
    EStateM.Result ε S α → EStateM.Result ε T α' → Prop
  | ok {w : W} {a : α} {a' : α'} {s : S} {t : T} (hR : P.related w s t) (hQ : Q w a a') :
      Agree P Q (.ok a s) (.ok a' t)
  | error {e e' : ε} {s : S} {t : T} (he : P.fails e s e' t) : Agree P Q (.error e s) (.error e' t)
  | left {e : ε} {s : S} {r : EStateM.Result ε T α'} (he : P.left e s) : Agree P Q (.error e s) r
  | right {e : ε} {r : EStateM.Result ε S α} {t : T} (he : P.right e t) : Agree P Q r (.error e t)

/-- From states that correspond in `w`, both programs end alike. -/
def Lockstep (P : Pairing W ε S T) (w : W) (m : EStateM ε S α) (m' : EStateM ε T α')
    (Q : W → α → α' → Prop) : Prop :=
  ∀ s t, P.related w s t → Agree P Q (m s) (m' t)

section Rules

variable {P : Pairing W ε S T} {w : W} {m : EStateM ε S α} {m' : EStateM ε T α'}
  {Q Q' : W → α → α' → Prop}

theorem Agree.mono {r : EStateM.Result ε S α} {r' : EStateM.Result ε T α'} (h : Agree P Q r r')
    (hQ : ∀ w a a', Q w a a' → Q' w a a') : Agree P Q' r r' := by
  cases h with
  | ok hR hq => exact .ok hR (hQ _ _ _ hq)
  | error he => exact .error he
  | left he => exact .left he
  | right he => exact .right he

namespace Lockstep

theorem mono (h : Lockstep P w m m' Q) (hQ : ∀ w a a', Q w a a' → Q' w a a') :
    Lockstep P w m m' Q' :=
  fun s t hR => (h s t hR).mono hQ

/-- The sequencing rule: the second programs start in whatever world the first ones end in. -/
theorem bind {f : α → EStateM ε S β} {f' : α' → EStateM ε T β'} {R : W → β → β' → Prop}
    (h : Lockstep P w m m' Q) (hf : ∀ w a a', Q w a a' → Lockstep P w (f a) (f' a') R) :
    Lockstep P w (m >>= f) (m' >>= f') R := by
  intro s t hR
  have hrun := h s t hR
  show Agree P R (EStateM.bind m f s) (EStateM.bind m' f' t)
  unfold EStateM.bind
  revert hrun
  generalize m s = r, m' t = r'
  intro hrun
  cases hrun with
  | ok hR' hq => exact hf _ _ _ hq _ _ hR'
  | error he => exact .error he
  | left he => exact .left he
  | right he =>
      cases r with
      | ok a s' => exact .right he
      | error e s' => exact .right he

theorem pure {a : α} {a' : α'} (hQ : Q w a a') :
    Lockstep P w (Pure.pure a : EStateM ε S α) (Pure.pure a' : EStateM ε T α') Q :=
  fun _ _ hR => .ok hR hQ

/-- Both programs read their states. -/
theorem get_bind {f : S → EStateM ε S β} {f' : T → EStateM ε T β'} {R : W → β → β' → Prop}
    (hf : ∀ s t, P.related w s t → Agree P R (f s s) (f' t t)) :
    Lockstep P w (get >>= f) (get >>= f') R :=
  fun s t hR => hf s t hR

theorem throw {e e' : ε} (he : ∀ s t, P.related w s t → P.fails e s e' t) :
    Lockstep P w (throw e : EStateM ε S α) (throw e' : EStateM ε T α') Q :=
  fun s t hR => .error (he s t hR)

/-- Both programs change their states, into another world. -/
theorem modify {f : S → S} {f' : T → T} {w' : W} {Q : W → Unit → Unit → Prop} (hQ : Q w' () ())
    (hf : ∀ s t, P.related w s t → P.related w' (f s) (f' t)) :
    Lockstep P w (modify f : EStateM ε S Unit) (modify f' : EStateM ε T Unit) Q :=
  fun s t hR => .ok (hf s t hR) hQ

end Lockstep

/-- Both programs return, in the world they started in. -/
abbrev InPlace (P : Pairing W ε S T) (w : W) (m : EStateM ε S α) (m' : EStateM ε T α')
    (R : α → α' → Prop) : Prop :=
  Lockstep P w m m' fun w' a a' => w' = w ∧ R a a'

namespace InPlace

variable {R : α → α' → Prop}

theorem bind {f : α → EStateM ε S β} {f' : α' → EStateM ε T β'} {Q : W → β → β' → Prop}
    (h : InPlace P w m m' R) (hf : ∀ a a', R a a' → Lockstep P w (f a) (f' a') Q) :
    Lockstep P w (m >>= f) (m' >>= f') Q := by
  refine Lockstep.bind h ?_
  rintro _ a a' ⟨rfl, hR⟩
  exact hf a a' hR

theorem pure {a : α} {a' : α'} (hR : R a a') :
    InPlace P w (Pure.pure a : EStateM ε S α) (Pure.pure a' : EStateM ε T α') R :=
  Lockstep.pure ⟨rfl, hR⟩

/-- Both programs change their states, in their world. -/
theorem modify {f : S → S} {f' : T → T} (hf : ∀ s t, P.related w s t → P.related w (f s) (f' t)) :
    InPlace P w (modify f : EStateM ε S Unit) (modify f' : EStateM ε T Unit) fun _ _ => True :=
  Lockstep.modify ⟨rfl, trivial⟩ hf

end InPlace

end Rules

end Library
