import Mathlib.Data.List.Basic

/-!
# Outcome — partial correctness of fallible programs

A program is a term of `Except ε α`.  `Outcome E x Q` says how `x` may end: with a value that
satisfies `Q`, or with an error that `E` allows.  The rules below compose outcomes along `bind`,
list folds and the cursor loop `while cell < last { … ; cell += advance }`.
-/

namespace Library

variable {ε α β σ : Type}

/-! ## Outcomes -/

/-- `x` returns a value that satisfies `Q`, or raises an error that `E` allows. -/
def Outcome (E : ε → Prop) (x : Except ε α) (Q : α → Prop) : Prop :=
  match x with
  | .ok a => Q a
  | .error e => E e

namespace Outcome

variable {E : ε → Prop}

@[simp] theorem ok_iff {a : α} {Q : α → Prop} : Outcome E (.ok a) Q ↔ Q a := Iff.rfl

@[simp] theorem pure_iff {a : α} {Q : α → Prop} : Outcome E (pure a) Q ↔ Q a := Iff.rfl

@[simp] theorem error_iff {e : ε} {Q : α → Prop} : Outcome E (.error e) Q ↔ E e := Iff.rfl

theorem value {x : Except ε α} {Q : α → Prop} {a : α} (h : Outcome E x Q) (hx : x = .ok a) :
    Q a := by
  rw [hx] at h
  exact h

theorem failure {x : Except ε α} {Q : α → Prop} {e : ε} (h : Outcome E x Q) (hx : x = .error e) :
    E e := by
  rw [hx] at h
  exact h

theorem of_value {x : Except ε α} {Q : α → Prop} (h : ∀ a, x = .ok a → Q a)
    (he : ∀ e, x = .error e → E e) : Outcome E x Q := by
  cases hx : x with
  | ok a => exact h a hx
  | error e => exact he e hx

theorem mono {x : Except ε α} {P Q : α → Prop} (h : Outcome E x P) (hPQ : ∀ a, P a → Q a) :
    Outcome E x Q := by
  cases x with
  | ok a => exact hPQ a h
  | error e => exact h

/-- Two rules about one program. -/
theorem both {x : Except ε α} {P Q : α → Prop} (hP : Outcome E x P) (hQ : Outcome E x Q) :
    Outcome E x fun a => P a ∧ Q a := by
  cases x with
  | ok a => exact ⟨hP, hQ⟩
  | error e => exact hP

/-- Nothing is asked of a program whose every error is allowed. -/
theorem any (hE : ∀ e, E e) (x : Except ε α) : Outcome E x fun _ => True := by
  cases x with
  | ok a => trivial
  | error e => exact hE e

/-- The sequencing rule. -/
theorem bind {x : Except ε α} {f : α → Except ε β} {P : α → Prop} {Q : β → Prop}
    (hx : Outcome E x P) (hf : ∀ a, P a → Outcome E (f a) Q) : Outcome E (x >>= f) Q := by
  cases x with
  | ok a => exact hf a hx
  | error e => exact hx

end Outcome

/-! ## Checks -/

/-- A check: nothing happens when `b` holds, otherwise the program ends with `e`. -/
def require (b : Bool) (e : ε) : Except ε Unit := if b then .ok () else .error e

@[simp] theorem require_true (e : ε) : require true e = .ok () := rfl

@[simp] theorem require_false (e : ε) : require false e = .error e := rfl

theorem require_eq_ok {b : Bool} {e : ε} {u : Unit} : require b e = .ok u ↔ b = true := by
  cases b <;> simp [require]

/-- A program behind a check that holds. -/
theorem require_bind {b : Bool} {e : ε} (hb : b = true) (x : Except ε α) :
    (require b e >>= fun _ => x) = x := by
  subst hb
  rfl

/-- A check that may fail. -/
theorem Outcome.require {E : ε → Prop} {b : Bool} {e : ε} (he : E e) :
    Outcome E (Library.require b e) fun _ => b = true := by
  cases b with
  | true => rfl
  | false => exact he

/-- A successful sequence is a success of both parts. -/
theorem bind_eq_ok {x : Except ε α} {f : α → Except ε β} {b : β} (h : x >>= f = .ok b) :
    ∃ a, x = .ok a ∧ f a = .ok b := by
  cases x with
  | ok a => exact ⟨a, rfl, h⟩
  | error e => cases h

theorem bind_ok_iff {x : Except ε α} {f : α → Except ε β} {b : β} :
    x >>= f = .ok b ↔ ∃ a, x = .ok a ∧ f a = .ok b := by
  constructor
  · exact bind_eq_ok
  · rintro ⟨a, rfl, hf⟩
    exact hf

/-- What is done to the result of a sequence is done to that of its last part. -/
theorem map_of_bind {x : Except ε α} {f : α → Except ε β} {g : β → γ} :
    (x >>= f).map g = x >>= fun a => (f a).map g := by
  cases x <;> rfl

/-! ## Folds -/

/-- Every step of the fold is taken where `P` allows it. -/
def FoldMeets (f : σ → α → Except ε σ) (P : σ → α → Prop) : List α → σ → Prop
  | [], _ => True
  | a :: l, s => P s a ∧ ∀ s', f s a = .ok s' → FoldMeets f P l s'

theorem FoldMeets.of_forall {f : σ → α → Except ε σ} {P : σ → α → Prop} (hP : ∀ s a, P s a)
    (l : List α) (s : σ) : FoldMeets f P l s := by
  induction l generalizing s with
  | nil => trivial
  | cons a l ih => exact ⟨hP s a, fun s' _ => ih s'⟩

namespace Outcome

variable {E : ε → Prop}

/-- The fold rule: the invariant is indexed by the elements already consumed. -/
theorem foldlM_meets {f : σ → α → Except ε σ} {P : σ → α → Prop} {I : List α → σ → Prop}
    (l : List α)
    (hstep : ∀ done a s, done ++ [a] <+: l → I done s → P s a →
      Outcome E (f s a) (I (done ++ [a])))
    {s : σ} (hs : I [] s) (hmeets : FoldMeets f P l s) : Outcome E (l.foldlM f s) (I l) := by
  have main : ∀ rest done s, done ++ rest = l → I done s → FoldMeets f P rest s →
      Outcome E (rest.foldlM f s) (I l) := by
    intro rest
    induction rest with
    | nil =>
        intro done s hl hI _
        rw [List.append_nil] at hl
        subst hl
        exact hI
    | cons a rest ih =>
        intro done s hl hI hM
        have hpre : done ++ [a] <+: l := ⟨rest, by simpa using hl⟩
        have hfirst := hstep done a s hpre hI hM.1
        rw [List.foldlM_cons]
        cases hf : f s a with
        | error e => exact hfirst.failure hf
        | ok s' => exact ih (done ++ [a]) s' (by simpa using hl) (hfirst.value hf) (hM.2 s' hf)
  exact main l [] s rfl hs hmeets

/-- The fold rule without a condition on the steps. -/
theorem foldlM {f : σ → α → Except ε σ} {I : List α → σ → Prop} (l : List α)
    (hstep : ∀ done a s, done ++ [a] <+: l → I done s → Outcome E (f s a) (I (done ++ [a])))
    {s : σ} (hs : I [] s) : Outcome E (l.foldlM f s) (I l) :=
  foldlM_meets (P := fun _ _ => True) l (fun done a s hpre hI _ => hstep done a s hpre hI) hs
    (.of_forall (fun _ _ => trivial) l s)

/-- The fold rule with a fixed invariant. -/
theorem foldlM_inv {f : σ → α → Except ε σ} {I : σ → Prop} (l : List α)
    (hstep : ∀ a ∈ l, ∀ s, I s → Outcome E (f s a) I) {s : σ} (hs : I s) :
    Outcome E (l.foldlM f s) I := by
  induction l generalizing s with
  | nil => exact hs
  | cons a l ih =>
      rw [List.foldlM_cons]
      exact (hstep a List.mem_cons_self s hs).bind fun s' hs' =>
        ih (fun b hb => hstep b (List.mem_cons_of_mem a hb)) hs'

end Outcome

/-- The pure fold rule with a fixed invariant. -/
theorem foldl_inv {f : σ → α → σ} {I : σ → Prop} (l : List α)
    (hstep : ∀ a ∈ l, ∀ s, I s → I (f s a)) {s : σ} (hs : I s) : I (l.foldl f s) := by
  induction l generalizing s with
  | nil => exact hs
  | cons a l ih =>
      exact ih (fun b hb => hstep b (List.mem_cons_of_mem a hb)) (hstep a List.mem_cons_self s hs)

/-- The pure fold rule: the invariant is indexed by the elements already consumed. -/
theorem foldl_prefix {f : σ → α → σ} {I : List α → σ → Prop} (l : List α)
    (hstep : ∀ done a s, done ++ [a] <+: l → I done s → I (done ++ [a]) (f s a))
    {s : σ} (hs : I [] s) : I l (l.foldl f s) := by
  have main : ∀ rest done s, done ++ rest = l → I done s → I l (rest.foldl f s) := by
    intro rest
    induction rest with
    | nil =>
        intro done s hl hI
        rw [List.append_nil] at hl
        subst hl
        exact hI
    | cons a rest ih =>
        intro done s hl hI
        exact ih (done ++ [a]) (f s a) (by simpa using hl)
          (hstep done a s ⟨rest, by simpa using hl⟩ hI)
  exact main l [] s rfl hs

/-! ## The cursor loop -/

/-- `while cell < last`: the body returns by how much the cursor advances. -/
def cellLoop (last : Nat) (body : Nat → σ → Except ε (Nat × σ)) : Nat → Nat → σ → Except ε σ
  | 0, _, s => .ok s
  | fuel + 1, cell, s =>
      if last ≤ cell then .ok s
      else do
        let (advance, s) ← body cell s
        cellLoop last body fuel (cell + advance) s

/-- Every round of the cursor loop ends in a state that satisfies `C`. -/
def CellLoopMeets (last : Nat) (body : Nat → σ → Except ε (Nat × σ)) (C : σ → Prop) :
    Nat → Nat → σ → Prop
  | 0, _, _ => True
  | fuel + 1, cell, s => cell < last → ∀ r, body cell s = .ok r →
      C r.2 ∧ CellLoopMeets last body C fuel (cell + r.1) r.2

theorem CellLoopMeets.of_forall {last : Nat} {body : Nat → σ → Except ε (Nat × σ)} {C : σ → Prop}
    (hC : ∀ s, C s) : ∀ fuel cell s, CellLoopMeets last body C fuel cell s := by
  intro fuel
  induction fuel with
  | zero => exact fun _ _ => trivial
  | succ fuel ih => exact fun _ _ _ r _ => ⟨hC r.2, ih _ _⟩

/-- The cursor loop keeps a position-indexed invariant.  Every round advances by at least one cell,
so a fuel of `last - cell` lets the loop run to its end. -/
theorem Outcome.cellLoop_meets {E : ε → Prop} {last : Nat} {body : Nat → σ → Except ε (Nat × σ)}
    {C : σ → Prop} {I : Nat → σ → Prop}
    (hbody : ∀ cell s, cell < last → I cell s → (∀ r, body cell s = .ok r → C r.2) →
      Outcome E (body cell s) fun r => 1 ≤ r.1 ∧ I (cell + r.1) r.2) :
    ∀ fuel cell s, last ≤ cell + fuel → I cell s → CellLoopMeets last body C fuel cell s →
      Outcome E (cellLoop last body fuel cell s) fun s' => ∃ cell', last ≤ cell' ∧ I cell' s' := by
  intro fuel
  induction fuel with
  | zero =>
      intro cell s hfuel hI _
      exact ⟨cell, by simpa using hfuel, hI⟩
  | succ fuel ih =>
      intro cell s hfuel hI hM
      unfold Library.cellLoop
      by_cases hlast : last ≤ cell
      · rw [if_pos hlast]
        exact ⟨cell, hlast, hI⟩
      · rw [if_neg hlast]
        have hround := hM (Nat.lt_of_not_le hlast)
        have hfirst := hbody cell s (Nat.lt_of_not_le hlast) hI fun r hr => (hround r hr).1
        cases hb : body cell s with
        | error e => exact hfirst.failure hb
        | ok r =>
            obtain ⟨hadv, hI'⟩ := hfirst.value hb
            exact ih (cell + r.1) r.2 (by omega) hI' (hround r hb).2

/-- The cursor loop without a condition on its states. -/
theorem Outcome.cellLoop {E : ε → Prop} {last : Nat} {body : Nat → σ → Except ε (Nat × σ)}
    {I : Nat → σ → Prop}
    (hbody : ∀ cell s, cell < last → I cell s →
      Outcome E (body cell s) fun r => 1 ≤ r.1 ∧ I (cell + r.1) r.2)
    (fuel cell : Nat) (s : σ) (hfuel : last ≤ cell + fuel) (hI : I cell s) :
    Outcome E (Library.cellLoop last body fuel cell s) fun s' => ∃ cell', last ≤ cell' ∧ I cell' s' :=
  cellLoop_meets (C := fun _ => True) (fun cell s hlt hI _ => hbody cell s hlt hI) fuel cell s hfuel
    hI (.of_forall (fun _ => trivial) fuel cell s)

/-! ## Annotated errors -/

/-- `x'` is `x` without the annotations of its errors. -/
def Erases {ε' : Type} (f : ε → ε') (x : Except ε α) (x' : Except ε' α) : Prop :=
  x.mapError f = x'

namespace Erases

variable {ε' : Type} {f : ε → ε'}

theorem ok (a : α) : Erases f (.ok a) (.ok a) := rfl

theorem pure (a : α) : Erases f (pure a) (pure a) := rfl

theorem value {x : Except ε α} {x' : Except ε' α} (h : Erases f x x') {a : α} (hx : x = .ok a) :
    x' = .ok a := by
  subst hx
  exact h.symm

theorem failure {x : Except ε α} {x' : Except ε' α} (h : Erases f x x') {e : ε}
    (hx : x = .error e) : x' = .error (f e) := by
  subst hx
  exact h.symm

theorem bind {x : Except ε α} {x' : Except ε' α} {g : α → Except ε β} {g' : α → Except ε' β}
    (hx : Erases f x x') (hg : ∀ a, Erases f (g a) (g' a)) :
    Erases f (x >>= g) (x' >>= g') := by
  subst hx
  cases x with
  | ok a => exact hg a
  | error e => rfl

theorem foldlM {g : σ → α → Except ε σ} {g' : σ → α → Except ε' σ}
    (hg : ∀ s a, Erases f (g s a) (g' s a)) (l : List α) (s : σ) :
    Erases f (l.foldlM g s) (l.foldlM g' s) := by
  induction l generalizing s with
  | nil => rfl
  | cons a l ih =>
      rw [List.foldlM_cons, List.foldlM_cons]
      exact (hg s a).bind fun s' => ih s'

theorem cellLoop {last : Nat} {body : Nat → σ → Except ε (Nat × σ)}
    {body' : Nat → σ → Except ε' (Nat × σ)} (hbody : ∀ cell s, Erases f (body cell s) (body' cell s)) :
    ∀ fuel cell s, Erases f (cellLoop last body fuel cell s) (cellLoop last body' fuel cell s) := by
  intro fuel
  induction fuel with
  | zero => intro cell s; rfl
  | succ fuel ih =>
      intro cell s
      unfold Library.cellLoop
      split
      · rfl
      · exact (hbody cell s).bind fun r => ih _ _

end Erases

end Library
