import Mathlib

/-! Runs of a deterministic machine over a list of inputs, as left folds:
invariants, accumulated costs, and potentials that pay for them. -/
namespace FoldRun

variable {State Input : Type*} (step : State → Input → State)

/-- An invariant may mention the inputs read so far, the newest first. -/
theorem history_invariant {Inv : List Input → State → Prop}
    (hStep : ∀ past s a, Inv past s → Inv (a :: past) (step s a)) (inputs : List Input)
    {past : List Input} {start : State} (hStart : Inv past start) :
    Inv (inputs.reverse ++ past) (inputs.foldl step start) := by
  induction inputs generalizing past start with
  | nil => exact hStart
  | cons a inputs ih =>
      have hTail := ih (hStep past start a hStart)
      simpa using hTail

/-- `P` holds of every input of a run, together with the state it meets. -/
def AlongRun (P : State → Input → Prop) : State → List Input → Prop
  | _, [] => True
  | s, a :: inputs => P s a ∧ AlongRun P (step s a) inputs

theorem alongRun_congr {P Q : State → Input → Prop} (h : ∀ s a, P s a ↔ Q s a) (start : State)
    (inputs : List Input) : AlongRun step P start inputs ↔ AlongRun step Q start inputs := by
  induction inputs generalizing start with
  | nil => exact Iff.rfl
  | cons a inputs ih => exact and_congr (h start a) (ih _)

/-- What an invariant implies of each step holds along every allowed run. -/
theorem alongRun_of_invariant {Inv : State → Prop} {Allowed : Input → Prop}
    {P : State → Input → Prop} (hStep : ∀ s a, Allowed a → Inv s → Inv (step s a))
    (hInv : ∀ s a, Allowed a → Inv s → P s a) {inputs : List Input}
    (hAllowed : ∀ a ∈ inputs, Allowed a) {start : State} (hStart : Inv start) :
    AlongRun step P start inputs := by
  induction inputs generalizing start with
  | nil => trivial
  | cons a inputs ih =>
      have hHead := hAllowed a List.mem_cons_self
      exact ⟨hInv start a hHead hStart,
        ih (fun b hb => hAllowed b (List.mem_cons_of_mem _ hb)) (hStep start a hHead hStart)⟩

/-- The sum of the costs of the steps of a run. -/
def totalCost (cost : State → Input → Nat) : State → List Input → Nat
  | _, [] => 0
  | s, a :: inputs => cost s a + totalCost cost (step s a) inputs

/-- If every step lowers a potential by at least its cost, the start pays for
the whole run. -/
theorem totalCost_le_potential {cost : State → Input → Nat} {potential : State → Nat}
    {Inv : State → Prop} {Allowed : Input → Prop}
    (hStep : ∀ s a, Allowed a → Inv s →
      Inv (step s a) ∧ potential (step s a) + cost s a ≤ potential s)
    {inputs : List Input} (hAllowed : ∀ a ∈ inputs, Allowed a) {start : State}
    (hStart : Inv start) : totalCost step cost start inputs ≤ potential start := by
  induction inputs generalizing start with
  | nil => exact Nat.zero_le _
  | cons a inputs ih =>
      obtain ⟨hInv, hPays⟩ := hStep start a (hAllowed a List.mem_cons_self) hStart
      have hTail := ih (fun b hb => hAllowed b (List.mem_cons_of_mem _ hb)) hInv
      rw [totalCost]
      omega

end FoldRun
