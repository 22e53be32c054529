import Mathlib

/-! Computations in a state monad that only move the state along a preorder, and
what holds after them. -/
namespace StateSteps

variable {σ α β : Type}

/-- The state behind the computation is related to the one before it. -/
def Along (R : σ → σ → Prop) (m : StateM σ α) : Prop :=
  ∀ s, R s (m.run s).2

/-- From a state with `P`, the computation ends with `Q`. -/
def Ensures (P : σ → Prop) (m : StateM σ α) (Q : σ → Prop) : Prop :=
  ∀ s, P s → Q (m.run s).2

section Along

variable {R : σ → σ → Prop}

theorem Along.pure [Std.Refl R] (a : α) : Along R (Pure.pure a) :=
  fun s => Std.Refl.refl s

theorem Along.bind [IsTrans σ R] {m : StateM σ α} {f : α → StateM σ β} (hFirst : Along R m)
    (hRest : ∀ a, Along R (f a)) : Along R (m >>= f) :=
  fun s => IsTrans.trans _ _ _ (hFirst s) (hRest (m.run s).1 (m.run s).2)

/-- What follows may use what is known about the result. -/
theorem Along.bind_of [IsTrans σ R] {V : α → Prop} {m : StateM σ α} {f : α → StateM σ β}
    (hFirst : Along R m) (hResult : ∀ s, V (m.run s).1) (hRest : ∀ a, V a → Along R (f a)) :
    Along R (m >>= f) :=
  fun s => IsTrans.trans _ _ _ (hFirst s) (hRest (m.run s).1 (hResult s) (m.run s).2)

/-- One more computation behind a state. -/
theorem Along.after [IsTrans σ R] {m : StateM σ α} (h : Along R m) {s s' : σ} (hBefore : R s s') :
    R s (m.run s').2 :=
  IsTrans.trans _ _ _ hBefore (h s')

theorem Along.get [Std.Refl R] : Along R (get : StateM σ σ) :=
  fun s => Std.Refl.refl s

theorem Along.ite {c : Prop} [Decidable c] {m m' : StateM σ α} (hThen : c → Along R m)
    (hElse : ¬ c → Along R m') : Along R (if c then m else m') := by
  by_cases hCond : c
  · rw [if_pos hCond]
    exact hThen hCond
  · rw [if_neg hCond]
    exact hElse hCond

end Along

end StateSteps
