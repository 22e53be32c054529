import BranchPrediction.Library.TableSum
import BranchPrediction.Tage.Invariant

/-! Mispredictions on a trace whose outcomes are all the same. A potential over
the bimodal table and the tagged tables pays for them: an entry of a bank with
a shorter history weighs more than one of a longer history, so that training
the provider also pays for the entry that the misprediction allocates. -/
namespace BranchPrediction.Tage

open FoldRun TableSum

/-- What an entry of bank `i` can still cost when all outcomes are `r`. A taken
trace only counts entries up; an allocation on a trace that is never taken
writes a counter that predicts taken once more. -/
def entryWeight (r : Bool) (i : Nat) (e : Component) : Nat :=
  if r then (3 - e.pred).toNat else if e.direction then i + 1 else 0

def bimodalWeight (r : Bool) (counter : Nat) : Nat :=
  if r then 0 else if 2 ≤ counter then numTagTables + 1 else 0

/-- A bound on the weight of a fresh entry in a bank below `i`. -/
def allocationWeight (r : Bool) (i : Nat) : Nat := if r then 0 else i

def potential (r : Bool) (predict : Predictor) : Nat :=
  arraySum (2 ^ 14) (fun _ => bimodalWeight r) predict.bimodal +
    tableSum numTagTables (2 ^ 12) (entryWeight r) predict.tagPred

/-- The tables after outcomes that were all `r`. -/
structure OneSided (r : Bool) (predict : Predictor) : Prop where
  inRange : predict.InRange
  bimodal : ∀ b < predict.numBimodalEntries,
    if r then 2 ≤ predict.bimodal b else predict.bimodal b ≤ 2
  entries : predict.AllEntries fun e => r = false → e.pred ≤ 3

section Training

variable {r : Bool}

/-- Training towards `r` pays for a wrong direction and for an allocation. -/
theorem entryWeight_train {i : Nat} {e : Component} (he : e.InRange)
    (hSide : r = false → e.pred ≤ 3) {trained : Component}
    (hTrained : trained.pred = trainPred e.pred (boolWord r)) :
    entryWeight r i trained + (if e.direction = r then 0 else 1 + allocationWeight r i) ≤
      entryWeight r i e := by
  obtain ⟨hLow, hHigh⟩ := he.pred
  rw [trainPred_eq he.pred] at hTrained
  have hDir (c : Component) : c.direction = true ↔ 3 ≤ c.pred := by simp [Component.direction]
  cases r with
  | true =>
      rw [if_pos (by decide)] at hTrained
      simp only [entryWeight, allocationWeight, if_true, hDir, hTrained]
      split_ifs <;> omega
  | false =>
      have hThree := hSide rfl
      rw [if_neg (by decide)] at hTrained
      simp only [entryWeight, allocationWeight, Bool.false_eq_true, if_false, hDir, hTrained,
        ← Bool.not_eq_true]
      split_ifs <;> omega

theorem bimodalWeight_train {counter : Nat}
    (hSide : if r then 2 ≤ counter else counter ≤ 2) :
    bimodalWeight r (trainBimodal counter (boolWord r)) +
        (if decide (2 ≤ counter) = r then 0 else 1 + allocationWeight r numTagTables) ≤
      bimodalWeight r counter := by
  cases r with
  | true =>
      simp only [if_true] at hSide
      simp [bimodalWeight, hSide]
  | false =>
      simp only [Bool.false_eq_true, if_false] at hSide
      have hDown : trainBimodal counter (boolWord false) = satDecrement counter := rfl
      simp only [bimodalWeight, allocationWeight, Bool.false_eq_true, if_false, hDown,
        satDecrement, decide_eq_false_iff_not, numTagTables]
      split_ifs <;> omega

theorem trainPred_le_of_not_taken {e : Component} (he : e.InRange) (hSide : r = false → e.pred ≤ 3) :
    r = false → trainPred e.pred (boolWord r) ≤ 3 := by
  rintro rfl
  have hThree := hSide rfl
  rw [trainPred_eq he.pred, if_neg (by decide)]
  split_ifs <;> omega

theorem trainBimodal_side {counter : Nat} (hSide : if r then 2 ≤ counter else counter ≤ 2) :
    if r then 2 ≤ trainBimodal counter (boolWord r) else trainBimodal counter (boolWord r) ≤ 2 := by
  cases r with
  | true =>
      simp only [if_true] at hSide ⊢
      have hUp : trainBimodal counter (boolWord true) = satIncrement counter bimodalCtrMax := rfl
      rw [hUp, satIncrement]
      simp only [bimodalCtrMax]
      split_ifs <;> omega
  | false =>
      simp only [Bool.false_eq_true, if_false] at hSide ⊢
      have hDown : trainBimodal counter (boolWord false) = satDecrement counter := rfl
      rw [hDown, satDecrement]
      split_ifs <;> omega

end Training

/-- Writing the selected entry of bank `i` exchanges its weight. -/
theorem potential_setEntry (r : Bool) {predict : Predictor} (h : predict.InRange) {i : Nat}
    (hi : i < numTagTables) (e : Component) :
    potential r (predict.setEntry i e) + entryWeight r i (predict.entry i) =
      potential r predict + entryWeight r i e := by
  have hIndex : (predict.indexTagPred i).toNat < 2 ^ 12 := h.indexTagPred i hi
  have hSum := tableSum_update (entryWeight r) predict.tagPred hi hIndex e
  simp only [potential, Predictor.setEntry, Predictor.entry] at hSum ⊢
  omega

/-- The direction that `get_prediction` answers from the state it leaves. -/
def answeredDirection (predict : Predictor) (PC : U64) : Bool :=
  if predict.primeBank < numTagTables then (predict.entry predict.primeBank).direction
  else predict.basePrediction PC

theorem getPrediction_answered (predict : Predictor) (PC : U64) :
    (getPrediction predict PC).1 =
      boolWord (answeredDirection (getPrediction predict PC).2 PC) := by
  rw [getPrediction_fst, getPrediction_snd]
  rfl

theorem potential_getPrediction (r : Bool) (predict : Predictor) (PC : U64) :
    potential r (getPrediction predict PC).2 = potential r predict := by
  rw [getPrediction_snd]
  rfl

namespace OneSided

variable {r : Bool} {predict : Predictor} (h : OneSided r predict)
include h

theorem getPrediction (PC : U64) : OneSided r (getPrediction predict PC).2 := by
  have hRange := h.inRange.getPrediction PC
  rw [getPrediction_snd] at hRange ⊢
  exact ⟨hRange, h.bimodal, h.entries⟩

/-- The provider entry, as the invariant describes it. -/
theorem provider (hHit : predict.primeBank < numTagTables) :
    r = false → (predict.entry predict.primeBank).pred ≤ 3 :=
  h.entries _ hHit _ (h.inRange.index_lt hHit)

theorem trainCounters (PC predDir : U64) :
    OneSided r (trainCounters predict PC (boolWord r) predDir) := by
  have hRange := h.inRange.trainCounters PC (boolWord r) predDir
  by_cases hHit : predict.primeBank < numTagTables
  · rw [trainCounters_of_hit _ _ _ _ hHit] at hRange ⊢
    exact ⟨hRange, h.bimodal, h.entries.setEntry _
      (trainPred_le_of_not_taken (h.inRange.entry hHit) (h.provider hHit))⟩
  · rw [trainCounters_of_miss _ _ _ _ hHit] at hRange ⊢
    refine ⟨hRange, fun b hb => ?_, h.entries⟩
    by_cases hIndex : b = predict.bimodalIndex PC
    · subst b
      simpa only [Function.update_self] using trainBimodal_side (h.bimodal _ hb)
    · simpa only [Function.update_of_ne hIndex] using h.bimodal b hb

/-- Training pays one unit for a misprediction, and for the entry that the
misprediction may allocate. -/
theorem potential_trainCounters (PC predDir : U64) :
    potential r (Tage.trainCounters predict PC (boolWord r) predDir) +
        (if answeredDirection predict PC = r then 0
          else 1 + allocationWeight r predict.primeBank) ≤
      potential r predict := by
  by_cases hHit : predict.primeBank < numTagTables
  · have hTrained : (trainedEntry predict (boolWord r) predDir).pred =
        trainPred (predict.entry predict.primeBank).pred (boolWord r) := rfl
    have hPays : _ ≤ entryWeight r predict.primeBank (predict.entry predict.primeBank) :=
      entryWeight_train (h.inRange.entry hHit) (h.provider hHit) hTrained
    have hWrite := potential_setEntry r h.inRange hHit (trainedEntry predict (boolWord r) predDir)
    rw [trainCounters_of_hit _ _ _ _ hHit, answeredDirection, if_pos hHit]
    omega
  · have hBank : predict.primeBank = numTagTables :=
      Nat.le_antisymm h.inRange.primeBank (Nat.not_lt.mp hHit)
    have hIndex := h.inRange.bimodalIndex_lt PC
    have hPays := bimodalWeight_train (h.bimodal _ hIndex)
    rw [h.inRange.numBimodalEntries] at hIndex
    have hWrite := arraySum_update (fun _ => bimodalWeight r) predict.bimodal hIndex
      (trainBimodal (predict.bimodal (predict.bimodalIndex PC)) (boolWord r))
    have hBase : predict.basePrediction PC =
        decide (2 ≤ predict.bimodal (predict.bimodalIndex PC)) := rfl
    rw [trainCounters_of_miss _ _ _ _ hHit, answeredDirection, if_neg hHit, hBase, hBank]
    simp only [potential]
    omega

theorem updateAltBetterCount (newEntry : Bool) (resolveDir : U64) :
    OneSided r (updateAltBetterCount predict newEntry resolveDir) := by
  have hRange := h.inRange.updateAltBetterCount newEntry resolveDir
  rw [updateAltBetterCount_frame] at hRange ⊢
  exact ⟨hRange, h.bimodal, h.entries⟩

/-- An allocation adds at most the weight that the training has paid. -/
theorem allocate (newEntry : Bool) (predDir : U64) (randNo : Fin 100) :
    OneSided r (allocate predict newEntry (boolWord r) predDir randNo) ∧
      potential r (Tage.allocate predict newEntry (boolWord r) predDir randNo) ≤
        potential r predict +
          (if predDir = boolWord r then 0 else allocationWeight r predict.primeBank) := by
  have hRange := h.inRange.allocate newEntry (boolWord r) predDir randNo
  obtain hNone | ⟨i, hBelow, _, hWrong, hWrite⟩ :=
    allocate_cases predict newEntry (boolWord r) predDir randNo
  · rw [hNone]
    exact ⟨h, Nat.le_add_right _ _⟩
  · rw [hWrite] at hRange ⊢
    rw [if_neg hWrong]
    have hFresh : r = false → (predict.freshEntry (boolWord r) i).pred ≤ 3 := by
      rintro rfl
      exact Int.le_refl 3
    have hWeight : entryWeight r i (predict.freshEntry (boolWord r) i) ≤
        allocationWeight r predict.primeBank := by
      cases r with
      | true => exact Nat.le_refl 0
      | false =>
          have hDir : (predict.freshEntry (boolWord false) i).direction = true := rfl
          simp only [entryWeight, allocationWeight, hDir, Bool.false_eq_true, if_false, if_true]
          omega
    have hExists : i < numTagTables := Nat.lt_of_lt_of_le hBelow h.inRange.primeBank
    have hExchange := potential_setEntry r h.inRange hExists (predict.freshEntry (boolWord r) i)
    exact ⟨⟨hRange, h.bimodal, h.entries.setEntry i hFresh⟩, by omega⟩

/-- The reset changes no prediction counter. -/
theorem tick : OneSided r (tick predict) := by
  have hRange := h.inRange.tick
  have hPred (i j : Nat) := (tick_entry predict i j).1
  rw [tick_frame] at hRange ⊢
  refine ⟨hRange, h.bimodal, fun i hi j hj hr => ?_⟩
  exact (hPred i j).trans_le (h.entries i hi j hj hr)

omit h in
theorem potential_tick (r : Bool) (predict : Predictor) :
    potential r (Tage.tick predict) = potential r predict := by
  have hWeight (i : Nat) {e e' : Component} (hPred : e.pred = e'.pred) :
      entryWeight r i e = entryWeight r i e' := by
    unfold entryWeight Component.direction
    rw [hPred]
  have hTables : tableSum numTagTables (2 ^ 12) (entryWeight r) (Tage.tick predict).tagPred =
      tableSum numTagTables (2 ^ 12) (entryWeight r) predict.tagPred :=
    tableSum_congr fun i _ j _ => hWeight i (tick_entry predict i j).1
  have hBimodal : (Tage.tick predict).bimodal = predict.bimodal := by rw [tick_frame]
  simp only [potential, hTables, hBimodal]

theorem updateHistories (PC resolveDir : U64) :
    OneSided r (updateHistories predict PC resolveDir) := by
  have hRange := h.inRange.updateHistories PC resolveDir
  rw [updateHistories_frame] at hRange ⊢
  exact ⟨hRange, h.bimodal, h.entries⟩

omit h in
theorem potential_updateHistories (r : Bool) (predict : Predictor) (PC resolveDir : U64) :
    potential r (Tage.updateHistories predict PC resolveDir) = potential r predict := by
  rw [updateHistories_frame]
  rfl

/-- The update of the tables pays for a wrong answer. -/
theorem updateTables {PC predDir : U64} (hAnswer : predDir = boolWord (answeredDirection predict PC))
    (randNo : Fin 100) :
    OneSided r (updateTables predict PC (boolWord r) predDir randNo) ∧
      potential r (Tage.updateTables predict PC (boolWord r) predDir randNo) +
          (if answeredDirection predict PC = r then 0 else 1) ≤
        potential r predict := by
  have hPays := h.potential_trainCounters PC predDir
  have hTrained := h.trainCounters PC predDir
  have hTrainedBank : (Tage.trainCounters predict PC (boolWord r) predDir).primeBank =
      predict.primeBank := by
    rw [trainCounters_frame]
  unfold Tage.updateTables
  dsimp only
  generalize Tage.trainCounters predict PC (boolWord r) predDir = trained at *
  have hCounted := hTrained.updateAltBetterCount (newEntry trained) (boolWord r)
  have hCountedPotential :
      potential r (Tage.updateAltBetterCount trained (newEntry trained) (boolWord r)) =
        potential r trained := by
    rw [updateAltBetterCount_frame]
    rfl
  have hCountedBank :
      (Tage.updateAltBetterCount trained (newEntry trained) (boolWord r)).primeBank =
        trained.primeBank := by
    rw [updateAltBetterCount_frame]
  generalize Tage.updateAltBetterCount trained (newEntry trained) (boolWord r) = counted at *
  obtain ⟨hAllocated, hAdds⟩ := hCounted.allocate (newEntry trained) predDir randNo
  refine ⟨hAllocated.tick, ?_⟩
  rw [potential_tick]
  rw [hCountedPotential, hCountedBank, hTrainedBank] at hAdds
  have hGuard : predDir = boolWord r ↔ answeredDirection predict PC = r := by
    rw [hAnswer, boolWord_inj]
  by_cases hRight : answeredDirection predict PC = r
  · rw [if_pos hRight] at hPays ⊢
    rw [if_pos (hGuard.mpr hRight)] at hAdds
    omega
  · rw [if_neg hRight] at hPays ⊢
    rw [if_neg (hGuard.not.mpr hRight)] at hAdds
    omega

/-- One record: a misprediction lowers the potential. -/
theorem stepRecord {record : Record} (hOutcome : record.resolveDir = boolWord r) :
    OneSided r (stepRecord predict record) ∧
      potential r (Tage.stepRecord predict record) + (mispredicts predict record).toNat ≤
        potential r predict := by
  have hAnswer := getPrediction_answered predict record.PC
  obtain ⟨hUpdated, hPays⟩ := (h.getPrediction record.PC).updateTables hAnswer record.randNo
  have hCost : (mispredicts predict record).toNat =
      if answeredDirection (Tage.getPrediction predict record.PC).2 record.PC = r then 0
      else 1 := by
    simp only [mispredicts, hOutcome, hAnswer, ne_eq, boolWord_inj]
    split_ifs with hRight <;> simp [hRight]
  have hStep : Tage.stepRecord predict record =
      Tage.updateHistories (Tage.updateTables (Tage.getPrediction predict record.PC).2 record.PC
        (boolWord r) (Tage.getPrediction predict record.PC).1 record.randNo) record.PC
          (boolWord r) := by
    rw [← hOutcome]
    rfl
  rw [hStep, hCost, potential_updateHistories]
  refine ⟨hUpdated.updateHistories _ _, hPays.trans_eq ?_⟩
  exact potential_getPrediction r predict record.PC

end OneSided

theorem oneSided_init (r : Bool) : OneSided r initTagePredictor where
  inRange := inRange_init
  bimodal := fun _ _ => by cases r <;> exact Nat.le_refl 2
  entries := fun _ _ _ _ _ => (by decide : (0 : Int) ≤ 3)

theorem potential_init_le (r : Bool) : potential r initTagePredictor ≤ 5 * 2 ^ 14 := by
  have hEntry (i : Nat) : entryWeight r i { pred := 0, tag := 0, u := 0 } = if r then 3 else 0 := by
    cases r <;> rfl
  have hCounter : bimodalWeight r bimodalCtrInit = if r then 0 else 5 := by
    cases r <;> rfl
  have hBimodal : arraySum (2 ^ 14) (fun _ => bimodalWeight r) initTagePredictor.bimodal =
      2 ^ 14 * if r then 0 else 5 := by
    rw [← hCounter, ← arraySum_const (2 ^ 14) _ initTagePredictor.bimodal]
    rfl
  have hTables : tableSum numTagTables (2 ^ 12) (entryWeight r) initTagePredictor.tagPred =
      numTagTables * (2 ^ 12 * if r then 3 else 0) := by
    simp only [tableSum, arraySum, initTagePredictor, hEntry, Finset.sum_const,
      Finset.card_range, smul_eq_mul]
  rw [potential, hBimodal, hTables]
  cases r <;> decide

/-- On a trace whose outcomes are all `r` at most `5 * 2 ^ 14` records are
mispredicted, however long the trace is. -/
theorem mispredictions_le_of_one_direction (r : Bool) (records : List Record)
    (hOutcomes : ∀ record ∈ records, record.resolveDir = boolWord r) :
    mispredictions initTagePredictor records ≤ 5 * 2 ^ 14 :=
  (totalCost_le_potential stepRecord (fun _ _ hOutcome h => h.stepRecord hOutcome) hOutcomes
    (oneSided_init r)).trans (potential_init_le r)

theorem mispredictions_le_of_not_taken_twice :
    mispredictions initTagePredictor [recordAtZero false, recordAtZero false] ≤ 5 * 2 ^ 14 :=
  mispredictions_le_of_one_direction false _ (by decide)

end BranchPrediction.Tage
