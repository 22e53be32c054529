import BranchPrediction.Tage.Locality

/-! The periodic reset of the useful counters over a whole run: when it happens
and which bit the entries lose. -/
namespace BranchPrediction.Tage

/-- The predictor after the first `n` records of a run. -/
def stateAfter (records : List Record) (n : Nat) : Predictor :=
  runRecords initTagePredictor (records.take n)

/-- The update for this record sweeps the tables. -/
def Sweeps (predict : Predictor) (r : Record) : Prop :=
  nextClock (beforeTick predict r) = resetPeriod

/-- The sweeps are the updates number `k * 2 ^ 18`. Every entry loses the most
significant bit of its useful counter if `k` is odd, and otherwise the least
significant one. -/
def SweepsAlternate (records : List Record) : Prop :=
  ∀ n r, records[n]? = some r →
    (Sweeps (stateAfter records n) r ↔ 2 ^ 18 ∣ n + 1) ∧
      ∀ k, n + 1 = k * 2 ^ 18 → ∀ i < numTagTables, ∀ j < 2 ^ 12,
        ((stateAfter records (n + 1)).tagPred i j).u =
          Int.land ((beforeTick (stateAfter records n) r).tagPred i j).u (if k % 2 = 1 then 1 else 2)

/-- An entry whose useful counter is never incremented between an odd sweep and
the next even one, both ends taken as above, has lost it after the latter. -/
def StaleEntriesCleared (records : List Record) : Prop :=
  ∀ m, 0 < m → 2 * m * 2 ^ 18 ≤ records.length → ∀ i < numTagTables, ∀ j < 2 ^ 12,
    (∀ n r, records[n]? = some r → (2 * m - 1) * 2 ^ 18 ≤ n → n < 2 * m * 2 ^ 18 →
      ((beforeTick (stateAfter records n) r).tagPred i j).u ≤
        ((stateAfter records n).tagPred i j).u) →
    ((stateAfter records (2 * m * 2 ^ 18)).tagPred i j).u = 0

/-- No entry is useful once the record has been trained: the provider's counter is
0 and does not grow, or 1 and shrinks, and all others are 0. -/
def NothingUseful (predict : Predictor) (r : Record) : Prop :=
  ∀ i < numTagTables, ∀ j < 2 ^ 12,
    (IsProvider predict r.PC i j →
      if providerDirection predict r.PC = alternateDirection predict r.PC then
        (predict.tagPred i j).u = 0
      else boolWord (providerDirection predict r.PC) ≠ r.resolveDir ∧ (predict.tagPred i j).u ≤ 1) ∧
    (¬ IsProvider predict r.PC i j → (predict.tagPred i j).u = 0)

section Step

variable {predict : Predictor} {r : Record}

/-- When training leaves a useful counter at 0. -/
theorem trainUseful_eq_zero_iff {u : Int} (h : 0 ≤ u ∧ u ≤ 3) (own alt : Bool) (resolveDir : U64) :
    trainUseful u (boolWord alt) resolveDir (boolWord own) = 0 ↔
      if own = alt then u = 0 else boolWord own ≠ resolveDir ∧ u ≤ 1 := by
  have hUp : incrementField u bimodalCtrMax = if u = 3 then u else u + 1 :=
    incrementField_of_mem h.1 h.2 (by decide)
  have hDown : decrementField u = if u = 0 then 0 else u - 1 :=
    decrementField_of_mem h.1 (Int.lt_of_le_of_lt h.2 (by decide))
  simp only [trainUseful, ne_eq, boolWord_inj, hUp, hDown]
  by_cases hAgree : own = alt
  · simp [hAgree]
  · by_cases hRight : boolWord own = resolveDir
    · simp only [hAgree, hRight, not_false_eq_true, if_true, if_false, not_true_eq_false, false_and,
        iff_false]
      split_ifs <;> omega
    · simp only [hAgree, hRight, not_false_eq_true, if_true, if_false, true_and]
      split_ifs <;> omega

theorem trainedProvider_u {i j : Nat} (hProvider : IsProvider predict r.PC i j) :
    (trainedProvider predict r).u = trainUseful (predict.tagPred i j).u
      (boolWord (alternateDirection predict r.PC)) r.resolveDir
      (boolWord (providerDirection predict r.PC)) := by
  have hAnswer : (getPrediction predict r.PC).1 = boolWord (providerDirection predict r.PC) := by
    rw [getPrediction_fst, if_pos hProvider.1]
  rw [trainedProvider, trainedEntry, provider_entry hProvider, hAnswer, getPrediction_snd]

/-- The tables have no useful entry when the sweep begins exactly when the
record finds none and makes none. -/
theorem beforeTick_useless_iff (h : predict.InRange) :
    (∀ i < numTagTables, ∀ j < 2 ^ 12, ((beforeTick predict r).tagPred i j).u = 0) ↔
      NothingUseful predict r := by
  unfold NothingUseful
  apply forall₂_congr
  intro i hi
  apply forall₂_congr
  intro j hj
  by_cases hProvider : IsProvider predict r.PC i j
  · have hRange : (predict.tagPred i j).InRange := by
      apply h.entries i hi j
      rw [h.numberTagEntries]
      exact hj
    rw [beforeTick_apply_of_provider hProvider, trainedProvider_u hProvider,
      trainUseful_eq_zero_iff hRange.u]
    simp only [hProvider, forall_const, not_true_eq_false, false_implies, and_true]
  · rw [beforeTick_apply, beforeAllocation_apply_of_not_provider predict r hProvider]
    simp only [hProvider, false_implies, not_false_eq_true, forall_const, true_and]
    split_ifs with hAllocated
    · obtain ⟨hBank, rfl⟩ := hAllocated
      have hFree := (allocatedBank_spec predict r hBank).2.2
      exact iff_of_true rfl hFree
    · exact Iff.rfl

theorem resetUseful_clock (predict : Predictor) :
    (resetUseful predict).clock = 0 ∧
      (resetUseful predict).clockFlip = if predict.clockFlip = 1 then 0 else 1 := by
  unfold resetUseful
  dsimp only
  split_ifs <;> exact ⟨rfl, by simp_all [maskUseful, flipClock]⟩

/-- A sweep keeps the bit that the flag selects once it is flipped. -/
theorem resetUseful_useful {i j : Nat} (hi : i < numTagTables)
    (hj : j < predict.numberTagEntries) :
    ((resetUseful predict).tagPred i j).u =
      Int.land (predict.tagPred i j).u (if predict.clockFlip = 1 then 2 else 1) := by
  have hMasked (mask : Int) : ((maskUseful (flipClock predict) mask).tagPred i j).u =
      Int.land (predict.tagPred i j).u mask := by
    rw [maskUseful]
    dsimp only
    rw [if_pos ⟨hi, hj⟩]
    rfl
  have hFlag : (flipClock predict).clockFlip = if predict.clockFlip = 1 then 0 else 1 := rfl
  rw [resetUseful, hFlag]
  by_cases hSet : predict.clockFlip = 1
  · simp only [if_pos hSet]
    exact hMasked 2
  · simp only [if_neg hSet]
    exact hMasked 1

theorem nextClock_beforeTick (h : predict.InRange) :
    nextClock (beforeTick predict r) = predict.clock + 1 := by
  have hClock := h.clock
  rw [nextClock, (beforeTick_clock predict r).1]
  exact Nat.mod_eq_of_lt (by omega)

/-- One tick of the clock. -/
theorem stepRecord_clock (h : predict.InRange) :
    (stepRecord predict r).clock = (predict.clock + 1) % 2 ^ 18 ∧
      (stepRecord predict r).clockFlip =
        if predict.clock + 1 = 2 ^ 18 then 1 - predict.clockFlip else predict.clockFlip := by
  have hClock := h.clock
  have hFlip := h.clockFlip
  obtain ⟨_, hSameFlip, _⟩ := beforeTick_clock predict r
  have hNext := nextClock_beforeTick (r := r) h
  rw [stepRecord_eq, updateHistories_frame]
  change (tick (beforeTick predict r)).clock = _ ∧ (tick (beforeTick predict r)).clockFlip = _
  rw [tick]
  by_cases hPeriod : predict.clock + 1 = 2 ^ 18
  · obtain ⟨hZero, hFlipped⟩ := resetUseful_clock (beforeTick predict r)
    have hSweep : nextClock (beforeTick predict r) = resetPeriod := hNext.trans hPeriod
    rw [if_pos hSweep, if_pos hPeriod, hZero, hFlipped, hSameFlip, hPeriod]
    refine ⟨rfl, ?_⟩
    split_ifs <;> omega
  · have hRunning : ¬ nextClock (beforeTick predict r) = resetPeriod := fun hSweep =>
      hPeriod (hNext.symm.trans hSweep)
    rw [if_neg hRunning, if_neg hPeriod, Nat.mod_eq_of_lt (by omega)]
    exact ⟨hNext, hSameFlip⟩

theorem beforeTick_entry_inRange (h : predict.InRange) {i j : Nat} (hi : i < numTagTables)
    (hj : j < 2 ^ 12) : ((beforeTick predict r).tagPred i j).InRange := by
  have hReached : (beforeTick predict r).InRange :=
    (beforeAllocation_inRange h r).allocate _ r.resolveDir _ r.randNo
  apply hReached.entries i hi j
  rw [hReached.numberTagEntries]
  exact hj

theorem stepRecord_useful_of_sweep (hSweep : Sweeps predict r) (h : predict.InRange) {i j : Nat}
    (hi : i < numTagTables) (hj : j < 2 ^ 12) :
    ((stepRecord predict r).tagPred i j).u =
      Int.land ((beforeTick predict r).tagPred i j).u (if predict.clockFlip = 1 then 2 else 1) := by
  obtain ⟨_, hSameFlip, hEntries⟩ := beforeTick_clock predict r
  have hExists : j < (beforeTick predict r).numberTagEntries := by
    rw [hEntries, h.numberTagEntries]
    exact hj
  have hTick : tick (beforeTick predict r) = resetUseful (beforeTick predict r) := if_pos hSweep
  rw [stepRecord_tagPred, hTick, resetUseful_useful hi hExists, hSameFlip]

end Step

section Run

theorem stateAfter_succ {records : List Record} {n : Nat} {r : Record} (hr : records[n]? = some r) :
    stateAfter records (n + 1) = stepRecord (stateAfter records n) r := by
  rw [stateAfter, List.take_add_one, hr, runRecords, List.foldl_append]
  rfl

theorem stateAfter_inRange (records : List Record) (n : Nat) : (stateAfter records n).InRange :=
  runRecords_inRange (records.take n)

/-- The clock counts the updates, and the flag the periods. -/
theorem stateAfter_clock {records : List Record} {n : Nat} (hn : n ≤ records.length) :
    (stateAfter records n).clock = n % 2 ^ 18 ∧
      (stateAfter records n).clockFlip = 1 - n / 2 ^ 18 % 2 := by
  induction n with
  | zero => exact ⟨rfl, rfl⟩
  | succ n ih =>
      obtain ⟨hClock, hFlip⟩ := ih (by omega)
      obtain ⟨r, hr⟩ : ∃ r, records[n]? = some r := ⟨_, List.getElem?_eq_getElem (by omega)⟩
      obtain ⟨hNext, hNextFlip⟩ := stepRecord_clock (r := r) (stateAfter_inRange records n)
      rw [stateAfter_succ hr, hNext, hNextFlip, hClock, hFlip]
      constructor
      · omega
      · split_ifs <;> omega

theorem sweeps_iff {records : List Record} {n : Nat} {r : Record} (hr : records[n]? = some r) :
    Sweeps (stateAfter records n) r ↔ 2 ^ 18 ∣ n + 1 := by
  have hn : n < records.length := (List.getElem?_eq_some_iff.mp hr).1
  rw [Sweeps, nextClock_beforeTick (stateAfter_inRange records n), (stateAfter_clock hn.le).1,
    resetPeriod, Nat.dvd_iff_mod_eq_zero]
  omega

/-- What the sweep number `k` does: it keeps the most significant bit if `k` is
odd, and the least significant bit otherwise. -/
theorem useful_after_sweep {records : List Record} {n k : Nat} {r : Record}
    (hr : records[n]? = some r) (hk : n + 1 = k * 2 ^ 18) {i j : Nat} (hi : i < numTagTables)
    (hj : j < 2 ^ 12) :
    ((stateAfter records (n + 1)).tagPred i j).u =
      Int.land ((beforeTick (stateAfter records n) r).tagPred i j).u
        (if k % 2 = 1 then 2 else 1) := by
  have hn : n < records.length := (List.getElem?_eq_some_iff.mp hr).1
  have hSweep := (sweeps_iff hr).mpr ⟨k, by rw [hk, Nat.mul_comm]⟩
  have hFlip := (stateAfter_clock hn.le).2
  have hPeriods : n / 2 ^ 18 = k - 1 := by omega
  rw [stateAfter_succ hr, stepRecord_useful_of_sweep hSweep (stateAfter_inRange records n) hi hj,
    hFlip, hPeriods]
  have hParity : 1 - (k - 1) % 2 = 1 ↔ k % 2 = 1 := by omega
  simp only [hParity]

/-- The two masks agree on a useful counter only where it is 0. -/
theorem land_eq_iff {u : Int} (h : 0 ≤ u ∧ u ≤ 3) {P : Prop} [Decidable P] :
    Int.land u (if P then 2 else 1) = Int.land u (if P then 1 else 2) ↔ u = 0 := by
  have hCases : u = 0 ∨ u = 1 ∨ u = 2 ∨ u = 3 := by omega
  by_cases hP : P
  · simp only [if_pos hP]
    rcases hCases with rfl | rfl | rfl | rfl <;> decide
  · simp only [if_neg hP]
    rcases hCases with rfl | rfl | rfl | rfl <;> decide

end Run

section LongRun

/-- A branch at PC 0 that falls through, as all entries predict from the start. -/
def idleRecord : Record :=
  { PC := 0, branchTarget := 0, resolveDir := 0, randNo := leastRand }

/-- The predictor after `c` such records. -/
def idle (c : Nat) : Predictor :=
  { initTagePredictor with
    primePred := 0
    altPred := 0
    primeBank := 0
    altBank := 1
    clock := c }

theorem tagHash_idle (c : Nat) : (idle c).tagHash 0 = fun _ => 0 := by
  funext i
  simp [Predictor.tagHash, idle, initTagePredictor]
theorem tableIndex_idle (c : Nat) : (idle c).tableIndex 0 = fun _ => 0 := by
  funext i
  rcases i with _ | _ | _ | _ | i <;>
    simp [Predictor.tableIndex, Predictor.indexHash, idle, initTagePredictor]

/-- A register of no outcomes stays empty while none is taken. -/
theorem computeHistory_of_empty {c : CompressedHist} (hEmpty : c.compHist = 0) :
    c.computeHistory (fun _ => 0) = c := by
  obtain ⟨L, T, x⟩ := c
  obtain rfl : x = 0 := hEmpty
  simp [CompressedHist.computeHistory]
theorem lookup_idle (c : Nat) : lookup (idle c) 0 = { idle c with primePred := -1, altPred := -1 } := by
  have hHash : hashPC (idle c) 0 = { idle c with primePred := -1, altPred := -1 } := by
    rw [hashPC, tagHash_idle, tableIndex_idle]
    rfl
  have hHits : (hashPC (idle c) 0).hits = fun _ => true := by
    rw [hHash]
    rfl
  rw [lookup, findBanks, hHits, hHash]
  rfl

theorem getPrediction_idle (c : Nat) : getPrediction (idle c) 0 = (0, idle c) := by
  rw [getPrediction]
  simp only [lookup_idle]
  rfl

theorem getPrediction_init : getPrediction initTagePredictor 0 = (0, idle 0) := by
  have h := getPrediction_idle 0
  exact h

theorem setEntry_entry (predict : Predictor) (i : Nat) :
    predict.setEntry i (predict.entry i) = predict := by
  rw [Predictor.setEntry, Predictor.entry, Function.update_eq_self, Function.update_eq_self]

/-- Before the clock ticks nothing has moved. -/
theorem beforeTick_idle (c : Nat) : beforeTick (idle c) idleRecord = idle c := by
  have hTrained : trainedEntry (idle c) 0 0 = (idle c).entry (idle c).primeBank := by
    change ({ pred := trainPred 0 0, tag := 0, u := trainUseful 0 0 0 0 } : Component) = _
    have hPred : trainPred 0 0 = 0 := by decide
    have hUseful : trainUseful 0 0 0 0 = 0 := by decide
    rw [hPred, hUseful]
    rfl
  have hTrain : trainCounters (idle c) 0 0 0 = idle c := by
    have hHit : (idle c).primeBank < numTagTables := Nat.zero_lt_succ 3
    rw [trainCounters_of_hit _ _ _ _ hHit, hTrained, setEntry_entry]
  have hReached : beforeAllocation (idle c) idleRecord = (idle c, false) := by
    simp only [beforeAllocation, idleRecord, getPrediction_idle, hTrain]
    rfl
  rw [beforeTick, hReached, idleRecord, getPrediction_idle]
  rfl

theorem updateGhr_idle (c : Nat) : updateGhr (idle c) 0 = idle c := by
  have hGhr : Function.update (shiftGhr (idle c).ghr) 0 0 = (idle c).ghr := by
    funext k
    by_cases hk : k = 0
    · subst k
      rfl
    · rw [Function.update_of_ne hk, shiftGhr_apply]
      split_ifs <;> rfl
  rw [updateGhr, if_neg (by decide), hGhr]

theorem updateHistories_idle (c : Nat) : updateHistories (idle c) 0 0 = idle c := by
  have hIndex : (fun i => if i < numTagTables then
      ((idle c).indexComp i).computeHistory (idle c).ghr else (idle c).indexComp i) =
        (idle c).indexComp := by
    funext i
    split_ifs
    · exact computeHistory_of_empty rfl
    · rfl
  have hTag : (fun j i => if j < 2 ∧ i < numTagTables then
      ((idle c).tagComp j i).computeHistory (idle c).ghr else (idle c).tagComp j i) =
        (idle c).tagComp := by
    funext j i
    split_ifs
    · exact computeHistory_of_empty rfl
    · rfl
  rw [updateHistories, updateGhr_idle, updateCompHist_eq, hIndex, hTag]
  simp [updatePhr, idle, initTagePredictor]

theorem stepRecord_idle {c : Nat} (hc : c + 1 < 2 ^ 18) :
    stepRecord (idle c) idleRecord = idle (c + 1) := by
  have hNext : nextClock (idle c) = c + 1 := Nat.mod_eq_of_lt (by change c + 1 < _; omega)
  have hTick : tick (idle c) = idle (c + 1) := by
    have hRunning : nextClock (idle c) ≠ resetPeriod := by
      rw [hNext]
      exact Nat.ne_of_lt hc
    rw [tick, if_neg hRunning, hNext]
    rfl
  rw [stepRecord_eq]
  change updateHistories (tick (beforeTick (idle c) idleRecord)) 0 0 = _
  rw [beforeTick_idle, hTick, updateHistories_idle]

theorem stepRecord_init_idle : stepRecord initTagePredictor idleRecord = idle 1 := by
  rw [← stepRecord_idle (by decide : 0 + 1 < 2 ^ 18)]
  simp only [stepRecord, idleRecord, getPrediction_init, getPrediction_idle]

/-- Up to the first sweep an idle run moves the clock only. -/
theorem runRecords_idle {n : Nat} (hn : n + 1 < 2 ^ 18) :
    runRecords initTagePredictor (List.replicate (n + 1) idleRecord) = idle (n + 1) := by
  induction n with
  | zero => exact stepRecord_init_idle
  | succ n ih =>
      rw [List.replicate_succ', runRecords, List.foldl_append]
      change stepRecord (runRecords initTagePredictor (List.replicate (n + 1) idleRecord))
        idleRecord = _
      rw [ih (by omega), stepRecord_idle hn]

/-- After `m` idle updates a branch falls through for the first time, and is
then taken. -/
def lateBranch (m : Nat) : List Record :=
  List.replicate m idleRecord ++ [fallThrough, jump]

theorem isBranch_lateBranch (m : Nat) : ∀ r ∈ lateBranch m, r.IsBranch := by
  intro r hr
  rcases List.mem_append.mp hr with hIdle | hLast
  · rw [List.eq_of_mem_replicate hIdle]
    exact Or.inl rfl
  · simp only [List.mem_cons, List.not_mem_nil, or_false] at hLast
    rcases hLast with rfl | rfl
    · exact Or.inl rfl
    · exact Or.inr rfl

theorem getElem?_lateBranch (m : Nat) : (lateBranch m)[m + 1]? = some jump := by
  rw [lateBranch, List.getElem?_append_right (by simp), List.length_replicate,
    Nat.add_sub_cancel_left m 1]
  rfl

/-- The state in which the last record of the run is consumed. -/
theorem stateAfter_lateBranch {m : Nat} (hm : m + 1 < 2 ^ 18) (hPos : 0 < m) :
    stateAfter (lateBranch m) (m + 1) = stepRecord (idle m) fallThrough := by
  obtain ⟨m, rfl⟩ := Nat.exists_eq_add_of_lt hPos
  have hTake : (lateBranch (0 + m + 1)).take (0 + m + 1 + 1) =
      List.replicate (0 + m + 1) idleRecord ++ [fallThrough] := by
    rw [lateBranch, List.take_append, List.take_of_length_le (by simp), List.length_replicate,
      Nat.add_sub_cancel_left (0 + m + 1) 1]
    rfl
  rw [stateAfter, hTake, runRecords, List.foldl_append]
  change stepRecord (runRecords initTagePredictor (List.replicate (0 + m + 1) idleRecord))
    fallThrough = _
  rw [runRecords_idle (by omega)]

/-- An entry that was allocated one update earlier is useful when the sweep
begins, by the bit that the first sweep should keep. -/
theorem useful_at_sweep :
    ((beforeTick (stepRecord (idle (2 ^ 18 - 2)) fallThrough) jump).tagPred 2 4).u = 1 := by
  decide +kernel

end LongRun

/-- The sweeps take the bits in the intended order, and clear what is stale,
exactly in the runs in which no sweep finds a useful entry. -/
theorem sweeps_as_intended_iff (records : List Record) :
    (SweepsAlternate records ∧ StaleEntriesCleared records) ↔
      ∀ n r, records[n]? = some r → 2 ^ 18 ∣ n + 1 → NothingUseful (stateAfter records n) r := by
  constructor
  · rintro ⟨hAlternate, _⟩ n r hr ⟨k, hk⟩
    rw [Nat.mul_comm] at hk
    rw [← beforeTick_useless_iff (stateAfter_inRange records n)]
    intro i hi j hj
    have hInRange := beforeTick_entry_inRange (r := r) (stateAfter_inRange records n) hi hj
    have hIntended := (hAlternate n r hr).2 k hk i hi j hj
    rw [useful_after_sweep hr hk hi hj] at hIntended
    exact (land_eq_iff hInRange.u).mp hIntended
  · intro hNothing
    have hZero (n k : Nat) (r : Record) (hr : records[n]? = some r) (hk : n + 1 = k * 2 ^ 18)
        (i : Nat) (hi : i < numTagTables) (j : Nat) (hj : j < 2 ^ 12) :
        ((beforeTick (stateAfter records n) r).tagPred i j).u = 0 :=
      (beforeTick_useless_iff (stateAfter_inRange records n)).mpr (hNothing n r hr ⟨k, by rw [hk, Nat.mul_comm]⟩) i hi j hj
    refine ⟨fun n r hr => ⟨sweeps_iff hr, fun k hk i hi j hj => ?_⟩, ?_⟩
    · rw [useful_after_sweep hr hk hi hj, hZero n k r hr hk i hi j hj]
      split_ifs <;> rfl
    · intro m hm hLength i hi j hj _
      obtain ⟨n, hn⟩ : ∃ n, n + 1 = 2 * m * 2 ^ 18 := ⟨2 * m * 2 ^ 18 - 1, by omega⟩
      obtain ⟨r, hr⟩ : ∃ r, records[n]? = some r := ⟨_, List.getElem?_eq_getElem (by omega)⟩
      rw [← hn, useful_after_sweep hr hn hi hj, hZero n (2 * m) r hr hn i hi j hj]
      split_ifs <;> rfl

/-- The first sweep takes the least significant bit. -/
theorem first_sweep_takes_low_bit :
    (∀ r ∈ lateBranch (2 ^ 18 - 2), r.IsBranch) ∧
      ¬ (SweepsAlternate (lateBranch (2 ^ 18 - 2)) ∧
        StaleEntriesCleared (lateBranch (2 ^ 18 - 2))) := by
  refine ⟨isBranch_lateBranch _, ?_⟩
  rintro ⟨hAlternate, _⟩
  have hLast := getElem?_lateBranch (2 ^ 18 - 2)
  have hState := stateAfter_lateBranch (m := 2 ^ 18 - 2) (by decide) (by decide)
  have hSweep : 2 ^ 18 - 2 + 1 + 1 = 1 * 2 ^ 18 := by decide
  have hBank : 2 < numTagTables := by decide
  have hIntended := (hAlternate _ _ hLast).2 1 hSweep 2 hBank 4 (by decide)
  rw [useful_after_sweep hLast hSweep hBank (by decide), hState, useful_at_sweep] at hIntended
  exact absurd hIntended (by decide)

end BranchPrediction.Tage
