import BranchPrediction.Tage.Choice

/-! What one record can change in the tables: the counter that predicted it, and
after a misprediction one entry that was free. -/
namespace BranchPrediction.Tage

/-- The index that the lookup computes for bank `i`. -/
def slot (predict : Predictor) (PC : U64) (i : Nat) : Nat := (predict.tableIndex PC i).toNat

/-- The entry `(i, j)` gave the prediction for `PC`. -/
def IsProvider (predict : Predictor) (PC : U64) (i j : Nat) : Prop :=
  (lookup predict PC).primeBank < numTagTables ∧ i = (lookup predict PC).primeBank ∧
    j = slot predict PC i

/-- The bank in which the record allocates an entry. -/
def allocatedBank (predict : Predictor) (r : Record) : Option Nat :=
  let (reached, newEntry) := beforeAllocation predict r
  if wantsAllocation reached newEntry r.resolveDir (getPrediction predict r.PC).1 then
    allocationBank reached ((scanBanks reached).matchBank r.randNo)
  else none

/-- The predictor when the clock of the update is about to tick. -/
def beforeTick (predict : Predictor) (r : Record) : Predictor :=
  allocate (beforeAllocation predict r).1 (beforeAllocation predict r).2 r.resolveDir
    (getPrediction predict r.PC).1 r.randNo

/-- The provider's entry after training. -/
def trainedProvider (predict : Predictor) (r : Record) : Component :=
  trainedEntry (getPrediction predict r.PC).2 r.resolveDir (getPrediction predict r.PC).1

section Phases

variable (predict : Predictor) (r : Record)

theorem setEntry_apply (i : Nat) (e : Component) (i' j' : Nat) :
    (predict.setEntry i e).tagPred i' j' =
      if i' = i ∧ j' = (predict.indexTagPred i).toNat then e else predict.tagPred i' j' := by
  by_cases hBank : i' = i
  · subst i'
    by_cases hIndex : j' = (predict.indexTagPred i).toNat
    · simp [Predictor.setEntry, hIndex]
    · simp [Predictor.setEntry, hIndex]
  · simp [Predictor.setEntry, hBank]

theorem getPrediction_primeBank :
    (getPrediction predict r.PC).2.primeBank = (lookup predict r.PC).primeBank := by
  rw [getPrediction_snd]

/-- Up to the allocation the update keeps the scratch fields of the lookup. -/
theorem beforeAllocation_scratch :
    (beforeAllocation predict r).1.indexTagPred = predict.tableIndex r.PC ∧
      (beforeAllocation predict r).1.tag = predict.tagHash r.PC ∧
        (beforeAllocation predict r).1.clock = predict.clock ∧
          (beforeAllocation predict r).1.clockFlip = predict.clockFlip ∧
            (beforeAllocation predict r).1.numberTagEntries = predict.numberTagEntries := by
  simp only [beforeAllocation]
  rw [updateAltBetterCount_frame, trainCounters_frame, getPrediction_snd]
  exact ⟨rfl, rfl, rfl, rfl, rfl⟩

/-- Before the allocation only the provider's entry has changed. -/
theorem beforeAllocation_apply_of_not_provider {i j : Nat}
    (hOther : ¬ IsProvider predict r.PC i j) :
    (beforeAllocation predict r).1.tagPred i j = predict.tagPred i j := by
  simp only [beforeAllocation]
  rw [updateAltBetterCount_frame]
  by_cases hHit : (getPrediction predict r.PC).2.primeBank < numTagTables
  · rw [trainCounters_of_hit _ _ _ _ hHit]
    change ((getPrediction predict r.PC).2.setEntry _ _).tagPred i j = _
    rw [setEntry_apply, if_neg]
    · rw [getPrediction_snd]
      rfl
    · rintro ⟨rfl, hIndex⟩
      refine hOther ⟨?_, ?_, ?_⟩
      · rwa [getPrediction_primeBank] at hHit
      · rw [getPrediction_primeBank]
      · rw [hIndex, getPrediction_snd]
        rfl
  · rw [trainCounters_of_miss _ _ _ _ hHit, getPrediction_snd]
    rfl

theorem beforeAllocation_apply_of_provider {i j : Nat} (hProvider : IsProvider predict r.PC i j) :
    (beforeAllocation predict r).1.tagPred i j = trainedProvider predict r := by
  obtain ⟨hHit, rfl, rfl⟩ := hProvider
  simp only [beforeAllocation]
  rw [updateAltBetterCount_frame, trainCounters_of_hit]
  · change ((getPrediction predict r.PC).2.setEntry _ _).tagPred _ _ = _
    rw [setEntry_apply, if_pos]
    · rfl
    · rw [getPrediction_snd]
      exact ⟨rfl, rfl⟩
  · rwa [getPrediction_primeBank]

/-- The free banks that the scan sees are those that the lookup saw. -/
theorem beforeAllocation_isFree_of_lt {i : Nat} (hBelow : i < (lookup predict r.PC).primeBank) :
    (beforeAllocation predict r).1.isFree i = (lookup predict r.PC).isFree i := by
  have hSame : (beforeAllocation predict r).1.entry i = (lookup predict r.PC).entry i := by
    change (beforeAllocation predict r).1.tagPred i
      ((beforeAllocation predict r).1.indexTagPred i).toNat = _
    rw [(beforeAllocation_scratch predict r).1]
    apply beforeAllocation_apply_of_not_provider predict r
    intro hProvider
    exact Nat.ne_of_lt hBelow hProvider.2.1
  rw [Predictor.isFree, Predictor.isFree, hSame]

/-- The entry that a record allocates in bank `i`. -/
def allocatedEntry (predict : Predictor) (r : Record) (i : Nat) : Component :=
  { pred := if r.resolveDir ≠ 0 then 4 else 3, tag := predict.tagHash r.PC i, u := 0 }

theorem beforeTick_eq :
    beforeTick predict r =
      match allocatedBank predict r with
      | some k => (beforeAllocation predict r).1.setEntry k (allocatedEntry predict r k)
      | none => (beforeAllocation predict r).1 := by
  have hFresh (k : Nat) : (beforeAllocation predict r).1.freshEntry r.resolveDir k =
      allocatedEntry predict r k := by
    rw [Predictor.freshEntry, (beforeAllocation_scratch predict r).2.1, allocatedEntry]
  by_cases hWants : wantsAllocation (beforeAllocation predict r).1 (beforeAllocation predict r).2
      r.resolveDir (getPrediction predict r.PC).1 = true
  · have hBank : allocatedBank predict r = allocationBank (beforeAllocation predict r).1
        ((scanBanks (beforeAllocation predict r).1).matchBank r.randNo) := if_pos hWants
    rw [beforeTick, allocate_eq, if_pos hWants, allocateFrom, hBank]
    cases allocationBank (beforeAllocation predict r).1
        ((scanBanks (beforeAllocation predict r).1).matchBank r.randNo) with
    | none => rfl
    | some k => exact congrArg ((beforeAllocation predict r).1.setEntry k) (hFresh k)
  · have hBank : allocatedBank predict r = none := if_neg hWants
    rw [beforeTick, allocate_eq, if_neg hWants, hBank]

/-- The allocation writes the entry of the bank that it chose. -/
theorem beforeTick_apply (i j : Nat) :
    (beforeTick predict r).tagPred i j =
      if allocatedBank predict r = some i ∧ j = slot predict r.PC i then allocatedEntry predict r i
      else (beforeAllocation predict r).1.tagPred i j := by
  rw [beforeTick_eq]
  cases hBank : allocatedBank predict r with
  | none => simp
  | some k =>
      simp only [setEntry_apply, Option.some.injEq, (beforeAllocation_scratch predict r).1]
      by_cases hi : i = k
      · subst i
        rfl
      · rw [if_neg fun h => hi h.1, if_neg fun h => hi h.1.symm]

theorem beforeTick_clock :
    (beforeTick predict r).clock = predict.clock ∧
      (beforeTick predict r).clockFlip = predict.clockFlip ∧
        (beforeTick predict r).numberTagEntries = predict.numberTagEntries := by
  obtain ⟨_, _, hClock, hFlip, hEntries⟩ := beforeAllocation_scratch predict r
  unfold beforeTick
  rw [allocate_frame]
  exact ⟨hClock, hFlip, hEntries⟩

/-- After the tick the step touches no table any more. -/
theorem stepRecord_tagPred :
    (stepRecord predict r).tagPred = (tick (beforeTick predict r)).tagPred := by
  rw [stepRecord_eq, updateHistories_frame]
  rfl

/-- Unless the period is over, the tables stay as the allocation left them. -/
theorem stepRecord_tagPred_of_running (hRunning : nextClock predict ≠ resetPeriod) :
    (stepRecord predict r).tagPred = (beforeTick predict r).tagPred := by
  have hNext : nextClock (beforeTick predict r) = nextClock predict := by
    rw [nextClock, (beforeTick_clock predict r).1, nextClock]
  rw [stepRecord_tagPred, tick, if_neg (by rwa [hNext])]

/-- Whatever the clock says, a step keeps `pred` and `tag` as the allocation
left them. -/
theorem stepRecord_entry (i j : Nat) :
    ((stepRecord predict r).tagPred i j).pred = ((beforeTick predict r).tagPred i j).pred ∧
      ((stepRecord predict r).tagPred i j).tag = ((beforeTick predict r).tagPred i j).tag := by
  rw [stepRecord_tagPred]
  exact tick_entry _ i j

/-- An allocation follows a misprediction; it takes a free entry of a bank below
the provider. -/
theorem allocatedBank_spec {k : Nat} (hBank : allocatedBank predict r = some k) :
    (getPrediction predict r.PC).1 ≠ r.resolveDir ∧ k < (lookup predict r.PC).primeBank ∧
      ((lookup predict r.PC).entry k).u = 0 := by
  unfold allocatedBank at hBank
  dsimp only at hBank
  split_ifs at hBank with hWants
  simp only [wantsAllocation, Bool.and_eq_true, decide_eq_true_eq] at hWants
  obtain ⟨_, hWrong, hPos⟩ := hWants
  have hStart := matchBank_lt _ hPos r.randNo
  obtain ⟨hLe, hFree⟩ := allocationBank_spec _ hBank
  have hBelow : k < (lookup predict r.PC).primeBank := by
    rw [beforeAllocation_primeBank] at hStart
    omega
  rw [beforeAllocation_isFree_of_lt predict r hBelow] at hFree
  exact ⟨hWrong, hBelow, of_decide_eq_true hFree⟩

end Phases

section Local

variable {predict : Predictor}

/-- `pred` or `tag` of an entry differs after the record. -/
def EntryChanged (predict : Predictor) (r : Record) (i j : Nat) : Prop :=
  ((stepRecord predict r).tagPred i j).pred ≠ (predict.tagPred i j).pred ∨
    ((stepRecord predict r).tagPred i j).tag ≠ (predict.tagPred i j).tag

theorem allocated_of_changed {r : Record} {i j : Nat} (hOther : ¬ IsProvider predict r.PC i j)
    (hChanged : EntryChanged predict r i j) :
    allocatedBank predict r = some i ∧ j = slot predict r.PC i := by
  by_contra hNot
  have hSame : (beforeTick predict r).tagPred i j = predict.tagPred i j := by
    rw [beforeTick_apply, if_neg hNot, beforeAllocation_apply_of_not_provider predict r hOther]
  obtain ⟨hPred, hTag⟩ := stepRecord_entry predict r i j
  rw [EntryChanged, hPred, hTag, hSame] at hChanged
  simp at hChanged

/-- The provider is not the entry that is allocated. -/
theorem beforeTick_apply_of_provider {r : Record} {i j : Nat}
    (hProvider : IsProvider predict r.PC i j) :
    (beforeTick predict r).tagPred i j = trainedProvider predict r := by
  rw [beforeTick_apply, if_neg, beforeAllocation_apply_of_provider predict r hProvider]
  rintro ⟨hBank, _⟩
  have hBelow := (allocatedBank_spec predict r hBank).2.1
  exact Nat.ne_of_lt hBelow hProvider.2.1

theorem provider_entry {PC : U64} {i j : Nat} (hProvider : IsProvider predict PC i j) :
    (getPrediction predict PC).2.entry (getPrediction predict PC).2.primeBank =
      predict.tagPred i j := by
  obtain ⟨_, rfl, rfl⟩ := hProvider
  rw [getPrediction_snd]
  rfl

end Local

end BranchPrediction.Tage
