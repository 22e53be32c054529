import BranchPrediction.Tage.HistoryWindows

/-! The global history as an array of its own: which cells the update writes,
and what they hold after any calls. -/
namespace BranchPrediction.Tage

open ArrayLoops FoldRun

/-- A call of one of the two functions of the predictor. An update may come with
any prediction. -/
inductive PredictorCall where
  | lookup (PC : U64)
  | update (r : Record) (predDir : U64)

namespace PredictorCall

def run (predict : Predictor) : PredictorCall → Predictor
  | lookup PC => (getPrediction predict PC).2
  | update r predDir =>
      updatePredictor predict r.PC r.resolveDir predDir r.branchTarget r.randNo

/-- The outcome that an update reports. -/
def outcome : PredictorCall → Option Bool
  | lookup _ => none
  | update r _ => some r.taken

end PredictorCall

/-- The outcomes reported so far, newest first. -/
def reported (calls : List PredictorCall) : List Bool := calls.reverse.filterMap PredictorCall.outcome

/-- The indices of `ghr` that the shifting loop of an update writes. -/
def ghrWrites (predict : Predictor) : List Nat := (copyUpLogged ghrLength predict.ghr).2

theorem shiftGhr_eq_logged (ghr : Nat → U8) : shiftGhr ghr = (copyUpLogged ghrLength ghr).1 :=
  (copyUpLogged_fst ghrLength ghr).symm

/-- The writes of the shifting loop stay inside `ghr`. -/
def ShiftInside (predict : Predictor) : PredictorCall → Prop
  | .lookup _ => True
  | .update _ _ => ∀ k ∈ ghrWrites predict, k < ghrLength

/-- Cell `k` holds the outcome of age `k`, or 0 where there is none. -/
def HistoryRecorded (calls : List PredictorCall) : Prop :=
  ∀ k < ghrLength, (calls.foldl PredictorCall.run initTagePredictor).ghr k =
    outcomeCell ((reported calls).getD k false)

/-- The register is a shift register inside its array. -/
def ShiftsHistory (calls : List PredictorCall) : Prop :=
  AlongRun PredictorCall.run ShiftInside initTagePredictor calls ∧ HistoryRecorded calls

/-- The last iteration of the loop writes the cell after the array. -/
theorem not_shiftInside (predict : Predictor) (r : Record) (predDir : U64) :
    ¬ ShiftInside predict (.update r predDir) := by
  intro hInside
  have hMem : ghrLength ∈ ghrWrites predict :=
    (mem_copyUpLogged_snd predict.ghr).mpr ⟨by decide, Nat.le_refl _⟩
  exact absurd (hInside _ hMem) (Nat.lt_irrefl _)

/-- What the cells really hold: the newest outcome, and everywhere else the one
before it. -/
structure Smeared (outcomes : List Bool) (ghr : Nat → U8) : Prop where
  newest : ghr 0 = outcomeCell (outcomes.getD 0 false)
  older : ∀ k, 0 < k → k < ghrLength → ghr k = outcomeCell (outcomes.getD 1 false)

theorem updatePredictor_ghr (predict : Predictor) (r : Record) (predDir : U64) :
    (updatePredictor predict r.PC r.resolveDir predDir r.branchTarget r.randNo).ghr =
      (updateGhr predict r.resolveDir).ghr := by
  rw [updatePredictor, updateTables_frame, updateHistories, updateCompHist_eq]
  rfl

theorem Smeared.update {outcomes : List Bool} {predict : Predictor}
    (h : Smeared outcomes predict.ghr) (r : Record) (predDir : U64) :
    Smeared (r.taken :: outcomes)
      (PredictorCall.run predict (.update r predDir)).ghr := by
  rw [PredictorCall.run, updatePredictor_ghr]
  constructor
  · rw [updateGhr_zero, List.getD_cons_zero, Record.taken, outcomeCell]
    simp only [decide_eq_true_eq]
  · intro k hPos hk
    obtain ⟨k, rfl⟩ := Nat.exists_eq_succ_of_ne_zero (Nat.ne_of_gt hPos)
    rw [updateGhr_succ predict r.resolveDir (by omega), h.newest, List.getD_cons_succ]

theorem smeared_run (calls : List PredictorCall) :
    Smeared (reported calls) (calls.foldl PredictorCall.run initTagePredictor).ghr := by
  have hStep (past : List PredictorCall) (predict : Predictor) (call : PredictorCall)
      (h : Smeared (past.filterMap PredictorCall.outcome) predict.ghr) :
      Smeared ((call :: past).filterMap PredictorCall.outcome) (call.run predict).ghr := by
    cases call with
    | lookup PC =>
        rw [List.filterMap_cons_none rfl, PredictorCall.run, getPrediction_snd]
        exact h
    | update r predDir =>
        have hOutcome : (PredictorCall.update r predDir).outcome = some r.taken := rfl
        rw [List.filterMap_cons_some hOutcome]
        exact h.update r predDir
  have hInit : Smeared (([] : List PredictorCall).filterMap PredictorCall.outcome)
      initTagePredictor.ghr := ⟨rfl, fun _ _ _ => rfl⟩
  have hRun := history_invariant PredictorCall.run hStep calls hInit
  rwa [List.append_nil] at hRun

theorem outcomeCell_inj {a b : Bool} : outcomeCell a = outcomeCell b ↔ a = b := by
  cases a <;> cases b <;> decide

/-- The cells hold the right outcomes as long as those of age 1 and more are all
the same. -/
theorem historyRecorded_iff (calls : List PredictorCall) :
    HistoryRecorded calls ↔
      ∀ k, 0 < k → k < ghrLength →
        (reported calls).getD k false = (reported calls).getD 1 false := by
  obtain ⟨hNewest, hOlder⟩ := smeared_run calls
  constructor
  · intro hRecorded k hPos hk
    have hCell := hRecorded k hk
    rw [hOlder k hPos hk, outcomeCell_inj] at hCell
    exact hCell.symm
  · intro hSame k hk
    by_cases hPos : 0 < k
    · rw [hOlder k hPos hk, hSame k hPos hk]
    · obtain rfl : k = 0 := by omega
      exact hNewest

theorem shiftInside_run_iff (predict : Predictor) (calls : List PredictorCall) :
    AlongRun PredictorCall.run ShiftInside predict calls ↔
      calls.filterMap PredictorCall.outcome = [] := by
  induction calls generalizing predict with
  | nil => simp [AlongRun]
  | cons call calls ih =>
      cases call with
      | lookup PC =>
          rw [AlongRun, ih, List.filterMap_cons_none rfl]
          exact and_iff_right trivial
      | update r predDir =>
          have hOutcome : (PredictorCall.update r predDir).outcome = some r.taken := rfl
          rw [AlongRun, List.filterMap_cons_some hOutcome]
          exact iff_of_false (fun hAll => not_shiftInside predict r predDir hAll.1)
            (List.cons_ne_nil _ _)

/-- No update keeps inside the array, so the register works as intended only as
long as there is none. Its cells alone are right exactly when the older outcomes
are all the same. -/
theorem shiftsHistory_iff (calls : List PredictorCall) :
    (ShiftsHistory calls ↔ reported calls = []) ∧
      (HistoryRecorded calls ↔
        ∀ k, 0 < k → k < ghrLength →
          (reported calls).getD k false = (reported calls).getD 1 false) := by
  refine ⟨?_, historyRecorded_iff calls⟩
  have hReported : reported calls = [] ↔ calls.filterMap PredictorCall.outcome = [] := by
    rw [reported, List.filterMap_reverse, List.reverse_eq_nil_iff]
  rw [ShiftsHistory, shiftInside_run_iff, hReported, and_iff_left_iff_imp]
  intro hNone
  rw [historyRecorded_iff, hReported.mpr hNone]
  intro k _ _
  rfl

/-- Two updates: the older outcome is in all the older cells. -/
theorem history_smears :
    let calls := [PredictorCall.update (recordAtZero true) 1,
      PredictorCall.update (recordAtZero false) 1]
    ¬ ShiftsHistory calls ∧ ¬ HistoryRecorded calls := by
  intro calls
  refine ⟨fun hShifts => ?_, fun hRecorded => ?_⟩
  · exact not_shiftInside initTagePredictor (recordAtZero true) 1 hShifts.1.1
  · have hCell := (historyRecorded_iff calls).mp hRecorded 2 (by decide) (by decide)
    revert hCell
    decide

end BranchPrediction.Tage
