import Mathlib

/-! Straight code with labels, whose jumps go forward only, and the rules to run
it piece by piece. -/
namespace ForwardCode

/-- An operation, or a place to jump to. -/
inductive Item (Op Label : Type*) where
  | op (o : Op)
  | label (l : Label)
deriving DecidableEq

/-- What an operation does to the control flow. -/
inductive Effect (Label State Exit : Type*) where
  | next (s : State)
  | jump (l : Label) (s : State)
  | leave (e : Exit) (s : State)

/-- How a run of a piece of code ends: behind its last item, on the way to a
label that is not in the rest of it, or outside. -/
inductive Outcome (Label State Exit : Type*) where
  | fell (s : State)
  | lost (l : Label) (s : State)
  | left (e : Exit) (s : State)

/-- The state at the end of a run. -/
def Outcome.state {Label State Exit : Type*} : Outcome Label State Exit → State
  | .fell s | .lost _ s | .left _ s => s

/-- The exit that a run ends with, if it ends outside. -/
def Outcome.exit? {Label State Exit : Type*} : Outcome Label State Exit → Option Exit
  | .fell _ | .lost _ _ => none
  | .left e _ => some e

def Effect.state {Label State Exit : Type*} : Effect Label State Exit → State
  | .next s | .jump _ s | .leave _ s => s

def Effect.exit? {Label State Exit : Type*} : Effect Label State Exit → Option Exit
  | .next _ | .jump _ _ => none
  | .leave e _ => some e

/-- The meaning of the operations, and what reaching a label does. -/
structure Machine (Op Label State Exit : Type*) where
  step : Op → State → Effect Label State Exit
  enter : State → State

variable {Op Label State Exit : Type*} [DecidableEq Label] (m : Machine Op Label State Exit)

/-- Run code; with a target, only from that label on. -/
def run : List (Item Op Label) → Option Label → State → Outcome Label State Exit
  | [], none, s => .fell s
  | [], some l, s => .lost l s
  | .op o :: code, none, s =>
      match m.step o s with
      | .next s' => run code none s'
      | .jump l s' => run code (some l) s'
      | .leave e s' => .left e s'
  | .label _ :: code, none, s => run code none (m.enter s)
  | .op _ :: code, some l, s => run code (some l) s
  | .label l' :: code, some l, s =>
      if l' = l then run code none (m.enter s) else run code (some l) s

/-- Code after code starts where the first piece ends. -/
theorem run_append (first later : List (Item Op Label)) (target : Option Label) (s : State) :
    run m (first ++ later) target s =
      match run m first target s with
      | .fell s' => run m later none s'
      | .lost l s' => run m later (some l) s'
      | .left e s' => .left e s' := by
  induction first generalizing target s with
  | nil => cases target <;> rfl
  | cons item first ih =>
      cases item with
      | op o =>
          cases target with
          | none =>
              simp only [List.cons_append, run]
              cases m.step o s with
              | next s' => exact ih none s'
              | jump l s' => exact ih (some l) s'
              | leave e s' => rfl
          | some l => exact ih (some l) s
      | label l' =>
          cases target with
          | none => exact ih none (m.enter s)
          | some l =>
              simp only [List.cons_append, run]
              split_ifs with hHere
              · exact ih none (m.enter s)
              · exact ih (some l) s

variable {m}

theorem run_append_of_fell {first : List (Item Op Label)} {target : Option Label} {s s' : State}
    (hFirst : run m first target s = .fell s') (later : List (Item Op Label)) :
    run m (first ++ later) target s = run m later none s' := by
  rw [run_append, hFirst]

/-- What follows an exit is not run. -/
theorem run_append_of_left {first : List (Item Op Label)} {target : Option Label} {s s' : State}
    {e : Exit} (hFirst : run m first target s = .left e s') (later : List (Item Op Label)) :
    run m (first ++ later) target s = .left e s' := by
  rw [run_append, hFirst]

/-- What every operation of a piece of code keeps, the code keeps; and it leaves
only through the exits of its operations. -/
theorem run_along {R : State → State → Prop} [Std.Refl R] [IsTrans State R] {E : Exit → Prop}
    {code : List (Item Op Label)}
    (hStep : ∀ o, Item.op o ∈ code → ∀ s, R s (m.step o s).state ∧ ∀ e ∈ (m.step o s).exit?, E e)
    (hEnter : ∀ s, R s (m.enter s)) (target : Option Label) (s : State) :
    R s (run m code target s).state ∧ ∀ e ∈ (run m code target s).exit?, E e := by
  induction code generalizing target s with
  | nil => cases target <;> exact ⟨Std.Refl.refl s, fun e hExit => nomatch hExit⟩
  | cons item code ih =>
      have hRest : ∀ o, Item.op o ∈ code → ∀ s, R s (m.step o s).state ∧
          ∀ e ∈ (m.step o s).exit?, E e :=
        fun o ho => hStep o (List.mem_cons_of_mem item ho)
      have hEntered (target : Option Label) (s : State) :
          R s (run m code target (m.enter s)).state ∧
            ∀ e ∈ (run m code target (m.enter s)).exit?, E e := by
        obtain ⟨hMoved, hExit⟩ := ih hRest target (m.enter s)
        exact ⟨IsTrans.trans _ _ _ (hEnter s) hMoved, hExit⟩
      cases item with
      | op o =>
          cases target with
          | some l => exact ih hRest (some l) s
          | none =>
              have hOp := hStep o List.mem_cons_self s
              rw [run]
              cases hEffect : m.step o s with
              | next s' | jump l s' =>
                  rw [hEffect] at hOp
                  obtain ⟨hMoved, hExit⟩ := ih hRest _ s'
                  exact ⟨IsTrans.trans _ _ _ hOp.1 hMoved, hExit⟩
              | leave e s' =>
                  rw [hEffect] at hOp
                  exact hOp
      | label l' =>
          cases target with
          | none => exact hEntered none s
          | some l =>
              rw [run]
              split_ifs with hHere
              · exact hEntered none s
              · exact ih hRest (some l) s

/-- A jump passes over the code that does not have its label. -/
theorem run_skip {code : List (Item Op Label)} {l : Label} (hAbsent : Item.label l ∉ code)
    (s : State) : run m code (some l) s = .lost l s := by
  induction code with
  | nil => rfl
  | cons item code ih =>
      rw [List.mem_cons, not_or] at hAbsent
      cases item with
      | op o => exact ih hAbsent.2
      | label l' =>
          have hOther : l' ≠ l := fun hSame => hAbsent.1 (congrArg Item.label hSame.symm)
          rw [run, if_neg hOther]
          exact ih hAbsent.2

/-- A jump to the label between two pieces runs the second one. -/
theorem run_jump {first : List (Item Op Label)} {l : Label} (hAbsent : Item.label l ∉ first)
    (later : List (Item Op Label)) (s : State) :
    run m (first ++ .label l :: later) (some l) s = run m later none (m.enter s) := by
  rw [run_append, run_skip hAbsent]
  exact if_pos rfl

end ForwardCode
