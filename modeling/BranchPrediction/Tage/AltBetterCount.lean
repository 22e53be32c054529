import BranchPrediction.Tage.Locality

/-! The counter that tells whether new entries do worse than the alternate
prediction. The lookup calls the provider new by the counters that it saw; the
update asks again after it has trained them. -/
namespace BranchPrediction.Tage

/-- The provider's entry with the values that the lookup saw. -/
def providerEntry (predict : Predictor) (PC : U64) : Component :=
  (lookup predict PC).entry (lookup predict PC).primeBank

/-- The record shows whether a new entry does worse: a new provider gave
another direction than the alternate prediction. -/
def JudgesNewEntry (predict : Predictor) (r : Record) : Prop :=
  (lookup predict r.PC).primeBank < numTagTables ∧ (providerEntry predict r.PC).isNew = true ∧
    (getPrediction predict r.PC).2.primePred ≠ (getPrediction predict r.PC).2.altPred

/-- The counter moves with the records that judge a new entry, and with them
only. -/
def CountsAltBetter (predict : Predictor) (r : Record) : Prop :=
  ((stepRecord predict r).altBetterCount ≠ predict.altBetterCount → JudgesNewEntry predict r) ∧
    (JudgesNewEntry predict r → (stepRecord predict r).altBetterCount =
      if (getPrediction predict r.PC).2.altPred = r.resolveDir then
        min (predict.altBetterCount + 1) 15
      else predict.altBetterCount - 1)

/-- `u` and `pred` of an entry that is new before a misprediction but not after
it, or the other way round. -/
def NewnessFlips (e : Component) : Prop :=
  (e.u = 0 ∧ (e.pred = 2 ∨ e.pred = 3 ∨ e.pred = 5)) ∨
    (e.u = 1 ∧ (e.pred = 2 ∨ e.pred = 4 ∨ e.pred = 5))

/-- When a provider disagrees with the alternate direction: a provider that is
right is not new, or the counter is at 0; one that is wrong does not change its
newness in training, or the counter is at 15. -/
def NewnessSettled (predict : Predictor) (r : Record) : Prop :=
  (lookup predict r.PC).primeBank < numTagTables →
    providerDirection predict r.PC ≠ alternateDirection predict r.PC →
      if providerDirection predict r.PC = r.taken then
        ¬ (providerEntry predict r.PC).isNew = true ∨ predict.altBetterCount = 0
      else predict.altBetterCount = 15 ∨ ¬ NewnessFlips (providerEntry predict r.PC)

section Training

theorem resolveDir_eq_boolWord {r : Record} (hBranch : r.IsBranch) :
    r.resolveDir = boolWord r.taken := by
  rcases hBranch with hDir | hDir <;> rw [Record.taken, hDir] <;> rfl

theorem isNew_iff {e : Component} : e.isNew = true ↔ e.u = 0 ∧ (e.pred = 3 ∨ e.pred = 4) := by
  simp only [Component.isNew, decide_eq_true_eq]

theorem direction_iff {e : Component} : e.direction = true ↔ 3 ≤ e.pred := by
  simp only [Component.direction, decide_eq_true_eq]
  exact Iff.rfl

variable {e : Component} {taken alt : Bool}

/-- A provider that beats the alternate direction becomes useful, and so is not
new any more. -/
theorem not_isNew_of_right (he : e.InRange) (hAlt : e.direction ≠ alt) (hRight : e.direction = taken)
    {trained : Component}
    (hTrained : trained.u = trainUseful e.u (boolWord alt) (boolWord taken) (boolWord e.direction)) :
    ¬ trained.isNew = true := by
  have hUp : incrementField e.u bimodalCtrMax = if e.u = 3 then e.u else e.u + 1 :=
    incrementField_of_mem he.u.1 he.u.2 (by decide)
  obtain ⟨hLow, _⟩ := he.u
  rw [trainUseful, if_pos (by rwa [ne_eq, boolWord_inj]), if_pos (by rw [hRight]), hUp] at hTrained
  rw [isNew_iff, hTrained]
  split_ifs <;> omega

/-- A provider that loses against the alternate direction is trained to be new
from one of these states. -/
theorem isNew_of_wrong_iff (he : e.InRange) (hAlt : e.direction ≠ alt) (hWrong : e.direction ≠ taken)
    {trained : Component} (hPred : trained.pred = trainPred e.pred (boolWord taken))
    (hUseful : trained.u =
      trainUseful e.u (boolWord alt) (boolWord taken) (boolWord e.direction)) :
    trained.isNew = true ↔ (e.u = 0 ∨ e.u = 1) ∧ (e.pred = 2 ∨ e.pred = 4 ∨ e.pred = 5) := by
  have hDown : decrementField e.u = if e.u = 0 then 0 else e.u - 1 :=
    decrementField_of_mem he.u.1 (Int.lt_of_le_of_lt he.u.2 (by decide))
  obtain ⟨hLow, _⟩ := he.u
  rw [trainUseful, if_pos (by rwa [ne_eq, boolWord_inj]), if_neg (by rwa [boolWord_inj]), hDown]
    at hUseful
  rw [trainPred_eq he.pred] at hPred
  obtain ⟨hPredLow, _⟩ := he.pred
  have hDir := direction_iff (e := e)
  cases taken with
  | true =>
      have hSet : boolWord true ≠ 0 := by decide
      have hNot : ¬ 3 ≤ e.pred := fun h => hWrong (hDir.mpr h)
      rw [if_pos hSet] at hPred
      rw [isNew_iff, hPred, hUseful]
      split_ifs <;> omega
  | false =>
      have hClear : ¬ boolWord false ≠ 0 := by decide
      have hTaken : 3 ≤ e.pred := hDir.mp (by simpa using hWrong)
      rw [if_neg hClear] at hPred
      rw [isNew_iff, hPred, hUseful]
      split_ifs <;> omega

end Training

section Counting

variable {predict : Predictor} {r : Record}

theorem stepRecord_altBetterCount (predict : Predictor) (r : Record) :
    (stepRecord predict r).altBetterCount = (beforeAllocation predict r).1.altBetterCount := by
  rw [stepRecord_eq, updateHistories_frame, tick_frame, allocate_frame]

/-- The update tests the provider's entry as the training left it. -/
theorem newEntry_trained_iff :
    newEntry (trainCounters (getPrediction predict r.PC).2 r.PC r.resolveDir
        (getPrediction predict r.PC).1) = true ↔
      (lookup predict r.PC).primeBank < numTagTables ∧
        (trainedProvider predict r).isNew = true := by
  simp only [newEntry, Bool.and_eq_true, decide_eq_true_eq, trainCounters_primeBank]
  apply and_congr_right
  intro hHit
  have hHit' : (getPrediction predict r.PC).2.primeBank < numTagTables := by
    rwa [getPrediction_primeBank]
  have hEntry : (trainCounters (getPrediction predict r.PC).2 r.PC r.resolveDir
      (getPrediction predict r.PC).1).entry (lookup predict r.PC).primeBank =
        trainedProvider predict r := by
    rw [trainCounters_of_hit _ _ _ _ hHit', ← getPrediction_primeBank]
    change ((getPrediction predict r.PC).2.setEntry _ _).tagPred _ _ = _
    rw [setEntry_apply, if_pos ⟨rfl, rfl⟩]
    rfl
  rw [hEntry]

/-- A saturating step of the counter. -/
theorem updateAltBetterCount_count {reached : Predictor} (hCount : reached.altBetterCount ≤ 15)
    (flag : Bool) (resolveDir : U64) :
    (updateAltBetterCount reached flag resolveDir).altBetterCount =
      if flag = true ∧ reached.primePred ≠ reached.altPred then
        if reached.altPred = resolveDir then min (reached.altBetterCount + 1) 15
        else reached.altBetterCount - 1
      else reached.altBetterCount := by
  unfold updateAltBetterCount
  by_cases hJudged : flag = true ∧ reached.primePred ≠ reached.altPred
  · rw [if_pos hJudged.1, if_pos hJudged.2, if_pos hJudged]
    by_cases hBetter : reached.altPred = resolveDir
    · rw [if_pos hBetter, if_pos hBetter]
      by_cases hTop : reached.altBetterCount < 15
      · rw [if_pos hTop]
        exact (Nat.min_eq_left hTop).symm
      · rw [if_neg hTop]
        omega
    · rw [if_neg hBetter, if_neg hBetter]
      by_cases hZero : reached.altBetterCount > 0
      · rw [if_pos hZero]
      · rw [if_neg hZero]
        omega
  · rw [if_neg hJudged]
    split_ifs with hFlag hDiffer
    all_goals first | rfl | exact absurd ⟨hFlag, hDiffer⟩ hJudged

/-- The counter moves with a provider that is new after its training. -/
theorem altBetterCount_eq (h : predict.InRange) :
    (stepRecord predict r).altBetterCount =
      if ((lookup predict r.PC).primeBank < numTagTables ∧
          (trainedProvider predict r).isNew = true) ∧
          (getPrediction predict r.PC).2.primePred ≠ (getPrediction predict r.PC).2.altPred then
        if (getPrediction predict r.PC).2.altPred = r.resolveDir then
          min (predict.altBetterCount + 1) 15
        else predict.altBetterCount - 1
      else predict.altBetterCount := by
  have hOld : (getPrediction predict r.PC).2.altBetterCount = predict.altBetterCount := by
    rw [getPrediction_snd]
    rfl
  have hReached : (trainCounters (getPrediction predict r.PC).2 r.PC r.resolveDir
      (getPrediction predict r.PC).1).altBetterCount ≤ 15 := by
    rw [trainCounters_frame]
    exact (h.getPrediction r.PC).altBetterCount
  rw [stepRecord_altBetterCount]
  simp only [beforeAllocation]
  rw [updateAltBetterCount_count hReached]
  simp only [newEntry_trained_iff]
  rw [trainCounters_frame]
  simp only [hOld]

/-- The provider that the update trains, after a hit. -/
theorem trainedProvider_of_hit (hBranch : r.IsBranch)
    (hHit : (lookup predict r.PC).primeBank < numTagTables) :
    (trainedProvider predict r).pred =
        trainPred (providerEntry predict r.PC).pred (boolWord r.taken) ∧
      (trainedProvider predict r).u =
        trainUseful (providerEntry predict r.PC).u (boolWord (alternateDirection predict r.PC))
          (boolWord r.taken) (boolWord (providerEntry predict r.PC).direction) := by
  have hAnswer : (getPrediction predict r.PC).1 =
      boolWord (providerEntry predict r.PC).direction := by
    rw [getPrediction_fst, if_pos hHit]
    rfl
  rw [trainedProvider, trainedEntry, hAnswer, getPrediction_snd, ← resolveDir_eq_boolWord hBranch]
  exact ⟨rfl, rfl⟩

theorem providerEntry_inRange (h : predict.InRange)
    (hHit : (lookup predict r.PC).primeBank < numTagTables) :
    (providerEntry predict r.PC).InRange := by
  have hHit' : (getPrediction predict r.PC).2.primeBank < numTagTables := by
    rwa [getPrediction_primeBank]
  have hRange := (h.getPrediction r.PC).entry hHit'
  rw [getPrediction_primeBank, getPrediction_snd] at hRange
  exact hRange

theorem getPrediction_directions (hHit : (lookup predict r.PC).primeBank < numTagTables) :
    (getPrediction predict r.PC).2.primePred = boolWord (providerDirection predict r.PC) ∧
      (getPrediction predict r.PC).2.altPred = boolWord (alternateDirection predict r.PC) := by
  rw [getPrediction_snd]
  exact ⟨if_pos hHit, rfl⟩

/-- Without a disagreement nothing is counted. -/
theorem countsAltBetter_of_agree (h : predict.InRange)
    (hAgree : ¬ ((lookup predict r.PC).primeBank < numTagTables ∧
      (getPrediction predict r.PC).2.primePred ≠ (getPrediction predict r.PC).2.altPred)) :
    CountsAltBetter predict r := by
  have hKept : (stepRecord predict r).altBetterCount = predict.altBetterCount := by
    rw [altBetterCount_eq h, if_neg]
    rintro ⟨⟨hHit, _⟩, hDiffer⟩
    exact hAgree ⟨hHit, hDiffer⟩
  constructor
  · intro hMoved
    exact absurd hKept hMoved
  · rintro ⟨hHit, _, hDiffer⟩
    exact absurd ⟨hHit, hDiffer⟩ hAgree

section Disagreement

variable (h : predict.InRange) (hBranch : r.IsBranch)
  (hHit : (lookup predict r.PC).primeBank < numTagTables)
  (hDiffer : providerDirection predict r.PC ≠ alternateDirection predict r.PC)
include h hBranch hHit hDiffer

/-- With a disagreement the counter is to move if the entry was new, and moves if
it is new after its training. -/
theorem countsAltBetter_iff_moves :
    CountsAltBetter predict r ↔
      let moved := if alternateDirection predict r.PC = r.taken then
        min (predict.altBetterCount + 1) 15 else predict.altBetterCount - 1
      let counted :=
        if (trainedProvider predict r).isNew = true then moved else predict.altBetterCount
      (counted ≠ predict.altBetterCount → (providerEntry predict r.PC).isNew = true) ∧
        ((providerEntry predict r.PC).isNew = true → counted = moved) := by
  obtain ⟨hPrime, hAlt⟩ := getPrediction_directions (r := r) hHit
  unfold CountsAltBetter JudgesNewEntry
  rw [altBetterCount_eq h, hPrime, hAlt, resolveDir_eq_boolWord hBranch]
  simp only [hHit, true_and, ne_eq, boolWord_inj, hDiffer, not_false_eq_true, and_true]

/-- A new provider that is right is never counted. -/
theorem countsAltBetter_iff_of_right (hRight : providerDirection predict r.PC = r.taken) :
    CountsAltBetter predict r ↔
      ¬ (providerEntry predict r.PC).isNew = true ∨ predict.altBetterCount = 0 := by
  have hNotAlt : ¬ alternateDirection predict r.PC = r.taken := fun hEq =>
    hDiffer (hRight.trans hEq.symm)
  obtain ⟨_, hUseful⟩ := trainedProvider_of_hit hBranch hHit
  have hOld := not_isNew_of_right (providerEntry_inRange h hHit) hDiffer hRight hUseful
  rw [countsAltBetter_iff_moves h hBranch hHit hDiffer]
  simp only [if_neg hNotAlt, if_neg hOld]
  constructor
  · rintro ⟨_, hMoves⟩
    by_cases hNew : (providerEntry predict r.PC).isNew = true
    · have hDown := hMoves hNew
      exact Or.inr (by omega)
    · exact Or.inl hNew
  · intro hSettled
    refine ⟨fun hMoved => absurd rfl hMoved, fun hNew => ?_⟩
    rcases hSettled with hOther | hZero
    · exact absurd hNew hOther
    · omega

/-- A provider that is wrong is counted if it is new after its training. -/
theorem countsAltBetter_iff_of_wrong (hWrong : ¬ providerDirection predict r.PC = r.taken) :
    CountsAltBetter predict r ↔
      predict.altBetterCount = 15 ∨ ¬ NewnessFlips (providerEntry predict r.PC) := by
  have hCount := h.altBetterCount
  have hAltRight : alternateDirection predict r.PC = r.taken := by
    cases hDir : providerDirection predict r.PC <;>
      cases hAltDir : alternateDirection predict r.PC <;> cases hTaken : r.taken <;> simp_all
  obtain ⟨hPred, hUseful⟩ := trainedProvider_of_hit hBranch hHit
  have hTrained :=
    isNew_of_wrong_iff (providerEntry_inRange h hHit) hDiffer hWrong hPred hUseful
  rw [countsAltBetter_iff_moves h hBranch hHit hDiffer]
  simp only [if_pos hAltRight, isNew_iff (e := providerEntry predict r.PC)]
  unfold NewnessFlips
  by_cases hNew : (trainedProvider predict r).isNew = true
  · have hState := hTrained.mp hNew
    rw [if_pos hNew]
    omega
  · have hState := mt hTrained.mpr hNew
    rw [if_neg hNew]
    omega

end Disagreement

/-- The counter does its work exactly when training does not interfere with the
newness of the provider. -/
theorem countsAltBetter_iff (h : predict.InRange) (hBranch : r.IsBranch) :
    CountsAltBetter predict r ↔ NewnessSettled predict r := by
  unfold NewnessSettled
  by_cases hHit : (lookup predict r.PC).primeBank < numTagTables
  · obtain ⟨hPrime, hAlt⟩ := getPrediction_directions (r := r) hHit
    by_cases hSame : providerDirection predict r.PC = alternateDirection predict r.PC
    · have hCounts : CountsAltBetter predict r := by
        apply countsAltBetter_of_agree h
        rintro ⟨_, hDiffer⟩
        rw [hPrime, hAlt, hSame] at hDiffer
        exact hDiffer rfl
      exact iff_of_true hCounts fun _ hDiffer => absurd hSame hDiffer
    · simp only [hHit, hSame, ne_eq, not_false_eq_true, forall_const]
      by_cases hRight : providerDirection predict r.PC = r.taken
      · rw [if_pos hRight]
        exact countsAltBetter_iff_of_right h hBranch hHit hSame hRight
      · rw [if_neg hRight]
        exact countsAltBetter_iff_of_wrong h hBranch hHit hSame hRight
  · have hCounts : CountsAltBetter predict r := countsAltBetter_of_agree h fun hBoth => hHit hBoth.1
    exact iff_of_true hCounts fun hFound => absurd hFound hHit

theorem countsAltBetter_init : CountsAltBetter initTagePredictor fallThrough :=
  (countsAltBetter_iff inRange_init (Or.inl rfl)).mpr fun hHit => absurd hHit (by decide)

/-- A new provider that is right where the alternate prediction is wrong leaves
the counter where it is. -/
theorem right_new_provider_not_counted :
    (stepRecord initTagePredictor fallThrough).InRange ∧ jump.IsBranch ∧
      ¬ CountsAltBetter (stepRecord initTagePredictor fallThrough) jump := by
  refine ⟨inRange_init.stepRecord fallThrough, Or.inr rfl, fun hCounts => ?_⟩
  have hJudged : JudgesNewEntry (stepRecord initTagePredictor fallThrough) jump :=
    ⟨by decide +kernel, by decide +kernel, by decide +kernel⟩
  have hDown := hCounts.2 hJudged
  revert hDown
  decide +kernel

end Counting

end BranchPrediction.Tage
