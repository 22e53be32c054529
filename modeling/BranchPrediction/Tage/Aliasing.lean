import BranchPrediction.Tage.Invariant
import BranchPrediction.Tage.Locality

/-! What the predictor can tell apart, and what it can hold: the low 24 bits of a
PC, and one allocated entry for each misprediction. -/
namespace BranchPrediction.Tage

/-- The bits of the PC that enter the indices and the tags. -/
abbrev pcBits : Nat := 24

/-- Two records that the predictor cannot tell apart: other targets, and other PCs
above the bits that are hashed. -/
structure Record.Alias (r r' : Record) : Prop where
  PC : r.PC.setWidth pcBits = r'.PC.setWidth pcBits
  resolveDir : r.resolveDir = r'.resolveDir
  randNo : r.randNo = r'.randNo

section Hashes

variable {PC PC' : U64}

theorem getLsbD_eq_of_alias (hPC : PC.setWidth pcBits = PC'.setWidth pcBits) {k : Nat}
    (hk : k < pcBits) : PC.getLsbD k = PC'.getLsbD k := by
  have hBit := congrArg (fun x : BitVec pcBits => x.getLsbD k) hPC
  simpa [BitVec.getLsbD_setWidth, hk] using hBit

variable (predict : Predictor) (hPC : PC.setWidth pcBits = PC'.setWidth pcBits)
include hPC

theorem tagHash_alias (i : Nat) : predict.tagHash PC i = predict.tagHash PC' i := by
  apply BitVec.eq_of_getLsbD_eq
  intro k _
  simp only [Predictor.tagHash, BitVec.getLsbD_and, getLsbD_mask (by decide : 9 < 32)]
  by_cases hk : k < 9
  · simp only [BitVec.getLsbD_setWidth, BitVec.getLsbD_xor,
      getLsbD_eq_of_alias hPC (by simp only [pcBits]; omega : k < pcBits)]
  · simp [hk]

/-- An index is a part of the PC folded once onto its low bits. -/
theorem indexHash_alias (i : Nat) {k : Nat} (hk : k < tagPredLog) :
    (predict.indexHash PC i).getLsbD k = (predict.indexHash PC' i).getLsbD k := by
  have hLow (n : Nat) (hn : n < pcBits) := getLsbD_eq_of_alias hPC hn
  simp only [tagPredLog, pcBits] at hk hLow
  rcases i with _ | _ | _ | _ | i
  all_goals
    simp only [Predictor.indexHash, BitVec.getLsbD_xor, BitVec.getLsbD_ushiftRight, tagPredLog]
  · rw [hLow k (by omega), hLow (12 + k) (by omega)]
  · rw [hLow k (by omega), hLow (12 - 1 + k) (by omega)]
  · rw [hLow k (by omega), hLow (12 - 2 + k) (by omega)]
  · rw [hLow k (by omega), hLow (12 - 3 + k) (by omega)]

theorem tableIndex_alias (i : Nat) : predict.tableIndex PC i = predict.tableIndex PC' i := by
  apply BitVec.eq_of_getLsbD_eq
  intro k _
  simp only [Predictor.tableIndex, BitVec.getLsbD_and, getLsbD_mask (by decide : tagPredLog < 32)]
  by_cases hk : k < tagPredLog
  · simp only [BitVec.getLsbD_setWidth, indexHash_alias predict hPC i hk]
  · simp [hk]

theorem bimodalIndex_alias (hEntries : predict.numBimodalEntries = 2 ^ 14) :
    predict.bimodalIndex PC = predict.bimodalIndex PC' := by
  have hLow : PC.toNat % 2 ^ pcBits = PC'.toNat % 2 ^ pcBits := by
    simpa using congrArg BitVec.toNat hPC
  have hDvd : 2 ^ 14 ∣ 2 ^ pcBits := by decide
  rw [Predictor.bimodalIndex, Predictor.bimodalIndex, hEntries, ← Nat.mod_mod_of_dvd _ hDvd, hLow,
    Nat.mod_mod_of_dvd _ hDvd]

theorem lookup_alias : lookup predict PC = lookup predict PC' := by
  have hHash : hashPC predict PC = hashPC predict PC' := by
    rw [hashPC, hashPC, funext (tagHash_alias predict hPC), funext (tableIndex_alias predict hPC)]
  rw [lookup, lookup, hHash]

theorem getPrediction_alias (hEntries : predict.numBimodalEntries = 2 ^ 14) :
    getPrediction predict PC = getPrediction predict PC' := by
  have hBase : predict.basePrediction PC = predict.basePrediction PC' := by
    rw [Predictor.basePrediction, Predictor.basePrediction, bimodalIndex_alias predict hPC hEntries]
  rw [getPrediction, getPrediction, lookup_alias predict hPC, hBase]

theorem updatePhr_alias : updatePhr predict PC = updatePhr predict PC' := by
  have hBit : PC &&& 1#64 = PC' &&& 1#64 := by
    apply BitVec.eq_of_getLsbD_eq
    intro k _
    rw [BitVec.getLsbD_and, BitVec.getLsbD_and, BitVec.getLsbD_one]
    by_cases hZero : k = 0
    · rw [hZero, getLsbD_eq_of_alias hPC (by decide : 0 < pcBits)]
    · simp [hZero]
  rw [updatePhr, updatePhr, hBit]

end Hashes

/-- Records that cannot be told apart do the same. -/
theorem stepRecord_alias {predict : Predictor} (hEntries : predict.numBimodalEntries = 2 ^ 14)
    {r r' : Record} (hAlias : r.Alias r') : stepRecord predict r = stepRecord predict r' := by
  have hPrediction := getPrediction_alias predict hAlias.PC hEntries
  have hEntries' : (getPrediction predict r'.PC).2.numBimodalEntries = 2 ^ 14 := by
    rw [getPrediction_snd]
    exact hEntries
  have hTrain (predDir : U64) :
      trainCounters (getPrediction predict r'.PC).2 r.PC r'.resolveDir predDir =
        trainCounters (getPrediction predict r'.PC).2 r'.PC r'.resolveDir predDir := by
    rw [trainCounters, trainCounters, bimodalIndex_alias _ hAlias.PC hEntries']
  rw [stepRecord, stepRecord, hPrediction]
  simp only [updatePredictor, updateTables, updateHistories, hAlias.resolveDir, hAlias.randNo,
    hTrain, updatePhr_alias _ hAlias.PC]

theorem stepRecord_numBimodalEntries (predict : Predictor) (r : Record) :
    (stepRecord predict r).numBimodalEntries = predict.numBimodalEntries := by
  rw [stepRecord_eq, updateHistories_frame, tick_frame, allocate_frame]
  simp only [beforeAllocation]
  rw [updateAltBetterCount_frame, trainCounters_frame, getPrediction_snd]
  rfl

theorem mainLoop_alias {limit : Int} {s : Session}
    (hEntries : s.predictor.numBimodalEntries = 2 ^ 14) {records records' : List Record}
    (hAlias : List.Forall₂ Record.Alias records records') :
    mainLoop limit s records = mainLoop limit s records' := by
  induction hAlias generalizing s with
  | nil => rfl
  | @cons r r' records records' hFirst _ ih =>
      have hConsume : s.consume r = s.consume r' := by
        rw [Session.consume, Session.consume, stepRecord_alias hEntries hFirst,
          getPrediction_alias s.predictor hFirst.PC hEntries, hFirst.resolveDir]
      have hNext : (s.consume r').predictor.numBimodalEntries = 2 ^ 14 :=
        (stepRecord_numBimodalEntries _ _).trans hEntries
      rw [mainLoop, mainLoop, hConsume, ih hNext]

/-- One entry of bank 0 matches the PC 0; the others match no PC with one bit. -/
def onlyZero : Predictor :=
  { initTagePredictor with
    tagPred := fun i j => { pred := 0, tag := if i = 0 ∧ j = 0 then 0 else 511, u := 0 } }

theorem inRange_onlyZero : onlyZero.InRange where
  __ := inRange_init
  entries := fun i _ j _ => by
    have hTag : (if i = 0 ∧ j = 0 then 0 else 511 : U32).toNat < 2 ^ 9 := by
      split_ifs <;> decide
    exact ⟨(by decide : (0 : Int) ≤ 0 ∧ (0 : Int) ≤ 7), (by decide : (0 : Int) ≤ 0 ∧ (0 : Int) ≤ 3),
      hTag⟩

/-- Targets and the PC above bit 23 change nothing in any run, neither the counts
nor the tables; each of the lower bits can change a prediction. -/
theorem pc_bits_used :
    (∀ limit records records', List.Forall₂ Record.Alias records records' →
        mainLoop limit Session.init records = mainLoop limit Session.init records') ∧
      ∀ k < pcBits, ∃ predict : Predictor, predict.InRange ∧
        (getPrediction predict 0).1 ≠ (getPrediction predict (1 <<< k)).1 := by
  refine ⟨fun limit records records' hAlias => mainLoop_alias rfl hAlias, fun k hk => ?_⟩
  refine ⟨onlyZero, inRange_onlyZero, ?_⟩
  interval_cases k <;> decide +kernel

/-- The entries with a tag. Initially there are none. -/
def tagged (predict : Predictor) : Finset (Nat × Nat) :=
  (Finset.range numTagTables ×ˢ Finset.range (1 <<< tagPredLog)).filter fun cell =>
    (predict.tagPred cell.1 cell.2).tag ≠ 0

/-- Only an allocation changes a tag. -/
theorem stepRecord_tag {predict : Predictor} {r : Record} {i j : Nat}
    (hKept : ¬ (allocatedBank predict r = some i ∧ j = slot predict r.PC i)) :
    ((stepRecord predict r).tagPred i j).tag = (predict.tagPred i j).tag := by
  rw [(stepRecord_entry predict r i j).2, beforeTick_apply, if_neg hKept]
  by_cases hProvider : IsProvider predict r.PC i j
  · rw [beforeAllocation_apply_of_provider predict r hProvider, ← provider_entry hProvider]
    rfl
  · rw [beforeAllocation_apply_of_not_provider predict r hProvider]

/-- A record tags at most one entry more, and only after a misprediction. -/
theorem card_tagged_stepRecord (predict : Predictor) (r : Record) :
    (tagged (stepRecord predict r)).card ≤
      (tagged predict).card + (mispredicts predict r).toNat := by
  cases hBank : allocatedBank predict r with
  | none =>
      have hSubset : tagged (stepRecord predict r) ⊆ tagged predict := by
        intro cell hCell
        rw [tagged, Finset.mem_filter] at hCell ⊢
        rwa [stepRecord_tag (by simp [hBank])] at hCell
      exact Nat.le_trans (Finset.card_le_card hSubset) (Nat.le_add_right _ _)
  | some k =>
      have hWrong : mispredicts predict r = true :=
        decide_eq_true (allocatedBank_spec predict r hBank).1
      have hSubset : tagged (stepRecord predict r) ⊆
          insert (k, slot predict r.PC k) (tagged predict) := by
        intro cell hCell
        by_cases hFresh : cell = (k, slot predict r.PC k)
        · exact Finset.mem_insert.mpr (.inl hFresh)
        · refine Finset.mem_insert_of_mem ?_
          rw [tagged, Finset.mem_filter] at hCell ⊢
          rwa [stepRecord_tag] at hCell
          rintro ⟨hHere, hSlot⟩
          obtain rfl := Option.some.inj (hBank.symm.trans hHere)
          exact hFresh (Prod.ext rfl hSlot)
      rw [hWrong]
      exact Nat.le_trans (Finset.card_le_card hSubset) (Finset.card_insert_le _ _)

/-- After any records no more entries are tagged than records were mispredicted. -/
theorem tagged_le_mispredictions (records : List Record) :
    (tagged (runRecords initTagePredictor records)).card ≤
      mispredictions initTagePredictor records := by
  have hRun (predict : Predictor) : (tagged (runRecords predict records)).card ≤
      (tagged predict).card + mispredictions predict records := by
    induction records generalizing predict with
    | nil =>
        rw [runRecords, List.foldl_nil]
        exact Nat.le_add_right _ _
    | cons r records ih =>
        have hStep := card_tagged_stepRecord predict r
        have hRest := ih (stepRecord predict r)
        rw [runRecords, List.foldl_cons, ← runRecords, mispredictions, FoldRun.totalCost,
          ← mispredictions]
        omega
  have hNone : tagged initTagePredictor = ∅ := Finset.filter_eq_empty_iff.mpr fun _ _ => by
    simp [initTagePredictor]
  have hInit := hRun initTagePredictor
  rwa [hNone, Finset.card_empty, Nat.zero_add] at hInit

end BranchPrediction.Tage
