import Mathlib.Data.List.Basic
import Mathlib.Tactic.Linarith

/-! Saturating up/down counters, and what a sequence of outcomes makes of one. -/
namespace SaturatingCounter

/-- One step up or down between 0 and `top`. -/
def step (top : Nat) (counter : Nat) (up : Bool) : Nat :=
  if up then min (counter + 1) top else counter - 1

def run (top : Nat) (counter : Nat) (outcomes : List Bool) : Nat :=
  outcomes.foldl (step top) counter

theorem run_concat (top counter : Nat) (outcomes : List Bool) (up : Bool) :
    run top counter (outcomes ++ [up]) = step top (run top counter outcomes) up :=
  List.foldl_concat ..

theorem run_append (top counter : Nat) (older newer : List Bool) :
    run top counter (older ++ newer) = run top (run top counter older) newer :=
  List.foldl_append

theorem step_le {top counter : Nat} (hCounter : counter ≤ top) (up : Bool) :
    step top counter up ≤ top := by
  cases up with
  | true => exact Nat.min_le_right _ _
  | false => exact Nat.le_trans (Nat.sub_le _ _) hCounter

theorem run_le {top counter : Nat} (hCounter : counter ≤ top) (outcomes : List Bool) :
    run top counter outcomes ≤ top := by
  induction outcomes generalizing counter with
  | nil => exact hCounter
  | cons up rest ih => exact ih (step_le hCounter up)

/-- One more vote for up or for down. -/
def vote (lead : Int) (up : Bool) : Int := if up then lead + 1 else lead - 1

/-- Count the votes of the outcomes, given with the latest first, until one side
leads by `half`; without such a lead the answer is up. -/
def firstLead (half : Nat) (lead : Int) : List Bool → Bool
  | [] => true
  | up :: older =>
      if vote lead up = half then true
      else if vote lead up = -half then false
      else firstLead half (vote lead up) older

/-- Back from the latest outcome, up is the first to lead by `half` votes, or
nobody ever does. -/
def leansUp (half : Nat) (outcomes : List Bool) : Bool := firstLead half 0 outcomes.reverse

section UpperHalf

variable {half : Nat}

/-- The outcomes `newer`, with a lead of `lead`, decide the upper half as if the
counter did not saturate. -/
def Decides (half : Nat) (lead : Int) (newer : List Bool) : Prop :=
  ∀ counter ≤ 2 * half - 1,
    (half ≤ run (2 * half - 1) counter newer ↔ (half : Int) ≤ counter + lead)

theorem Decides.cons {lead : Int} {newer : List Bool} (hNewer : Decides half lead newer)
    (hLow : -half < lead) (hHigh : lead < half) (up : Bool) :
    Decides half (vote lead up) (up :: newer) := by
  intro counter hCounter
  have hStep := hNewer _ (step_le hCounter up)
  rw [run, List.foldl_cons, ← run, hStep]
  cases up with
  | true =>
      simp only [step, vote, if_true]
      omega
  | false =>
      simp only [step, vote, Bool.false_eq_true, if_false]
      omega

theorem half_le_run_iff_firstLead (hHalf : 0 < half) {lead : Int} {newer : List Bool}
    (hNewer : Decides half lead newer) (hLow : -half < lead) (hHigh : lead < half)
    (older : List Bool) :
    half ≤ run (2 * half - 1) (2 * half - 1) (older.reverse ++ newer) ↔
      firstLead half lead older = true := by
  induction older generalizing lead newer with
  | nil =>
      have hStart := hNewer _ (Nat.le_refl _)
      rw [List.reverse_nil, List.nil_append, hStart, firstLead]
      simp only [iff_true]
      omega
  | cons up older ih =>
      have hMore := hNewer.cons hLow hHigh up
      have hOlder : run (2 * half - 1) (2 * half - 1) older.reverse ≤ 2 * half - 1 :=
        run_le (Nat.le_refl _) _
      have hDecided := hMore _ hOlder
      rw [List.reverse_cons, List.append_assoc, List.singleton_append, firstLead]
      by_cases hUp : vote lead up = half
      · rw [if_pos hUp, run_append, hDecided]
        simp only [iff_true]
        omega
      · rw [if_neg hUp]
        by_cases hDown : vote lead up = -half
        · rw [if_pos hDown, run_append, hDecided]
          simp only [Bool.false_eq_true, iff_false]
          omega
        · rw [if_neg hDown]
          refine ih hMore ?_ ?_ <;>
            cases up <;> simp only [vote, Bool.false_eq_true, if_false, if_true] at * <;> omega

/-- A counter that starts at the top is in its upper half exactly when its
outcomes lean up. -/
theorem half_le_run_iff (hHalf : 0 < half) (outcomes : List Bool) :
    half ≤ run (2 * half - 1) (2 * half - 1) outcomes ↔ leansUp half outcomes = true := by
  have hNone : Decides half 0 [] := fun counter _ => by
    rw [run, List.foldl_nil]
    omega
  have hLead := half_le_run_iff_firstLead hHalf hNone (by omega) (by omega) outcomes.reverse
  rwa [List.reverse_reverse, List.append_nil] at hLead

/-- How often the counter is still wrong if the outcome does not change any more. -/
def debt (half counter : Nat) (last : Bool) : Nat :=
  if last then half - counter else counter + 1 - half

/-- A wrong guess pays off debt, and only an outcome that turns makes debt. -/
theorem debt_step (hPos : 0 < half) {counter : Nat} (hCounter : counter ≤ 2 * half - 1)
    (last up : Bool) :
    (decide (half ≤ counter) != up).toNat + debt half (step (2 * half - 1) counter up) up ≤
      debt half counter last + half * (up != last).toNat := by
  by_cases hUpper : half ≤ counter
  · rw [decide_eq_true hUpper]
    cases up <;> cases last <;>
      simp only [debt, step, bne_self_eq_false, Bool.true_bne, Bool.false_bne, Bool.not_false,
        Bool.toNat_false, Bool.toNat_true, if_true, Bool.false_eq_true, if_false] <;>
      omega
  · rw [decide_eq_false hUpper]
    cases up <;> cases last <;>
      simp only [debt, step, bne_self_eq_false, Bool.true_bne, Bool.false_bne, Bool.not_false,
        Bool.toNat_false, Bool.toNat_true, if_true, Bool.false_eq_true, if_false] <;>
      omega

/-- An outcome other than the expected one makes debt of two at most, the wrong
guess included. -/
theorem debt_step_fixed (hPos : 0 < half) {counter : Nat} (hCounter : counter ≤ 2 * half - 1)
    (expected up : Bool) :
    (decide (half ≤ counter) != up).toNat + debt half (step (2 * half - 1) counter up) expected ≤
      debt half counter expected + 2 * (up != expected).toNat := by
  by_cases hUpper : half ≤ counter
  · rw [decide_eq_true hUpper]
    cases up <;> cases expected <;>
      simp only [debt, step, bne_self_eq_false, Bool.true_bne, Bool.false_bne, Bool.not_false,
        Bool.toNat_false, Bool.toNat_true, if_true, Bool.false_eq_true, if_false] <;>
      omega
  · rw [decide_eq_false hUpper]
    cases up <;> cases expected <;>
      simp only [debt, step, bne_self_eq_false, Bool.true_bne, Bool.false_bne, Bool.not_false,
        Bool.toNat_false, Bool.toNat_true, if_true, Bool.false_eq_true, if_false] <;>
      omega

end UpperHalf

end SaturatingCounter
