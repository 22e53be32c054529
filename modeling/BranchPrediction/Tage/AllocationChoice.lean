import BranchPrediction.Library.FiniteRank
import BranchPrediction.Tage.Locality

/-! Which entry a misprediction allocates. The free bank with the longest
history is at the bottom of the list that the source builds, but the list is
indexed by the bank and read by the count. -/
namespace BranchPrediction.Tage

open FiniteRank

/-- The banks with a longer history than the provider whose entry is free. -/
def freeBanks (predict : Predictor) (PC : U64) : Finset Nat :=
  (Finset.range (lookup predict PC).primeBank).filter fun i => ((lookup predict PC).entry i).u = 0

/-- The bank that is to receive the entry: the largest free one, or for a third
of the random numbers the next smaller one. -/
def intendedBank (free : Finset Nat) (randNo : Fin 100) : Nat :=
  if free.card = 1 ∨ 33 < randNo.val then largest free else secondLargest free

section Chosen

variable {predict : Predictor} {r : Record}

theorem mem_freeBanks {i : Nat} :
    i ∈ freeBanks predict r.PC ↔
      i < (lookup predict r.PC).primeBank ∧ (lookup predict r.PC).isFree i = true := by
  rw [freeBanks, Finset.mem_filter, Finset.mem_range, Predictor.isFree, decide_eq_true_iff]

theorem isFree_iff_mem_freeBanks {i : Nat} :
    (i < (beforeAllocation predict r).1.primeBank ∧
      (beforeAllocation predict r).1.isFree i = true) ↔ i ∈ freeBanks predict r.PC := by
  rw [mem_freeBanks, beforeAllocation_primeBank]
  apply and_congr_right
  intro hBelow
  rw [beforeAllocation_isFree_of_lt predict r hBelow]

/-- The scan counts the free banks. -/
theorem scanBanks_count_eq_card :
    (scanBanks (beforeAllocation predict r).1).count = (freeBanks predict r.PC).card := by
  have hSet : ((scanBanks (beforeAllocation predict r).1).writes).toFinset =
      freeBanks predict r.PC := by
    ext i
    rw [List.mem_toFinset, mem_scanBanks_writes, isFree_iff_mem_freeBanks]
  have hNodup : (scanBanks (beforeAllocation predict r).1).writes.Nodup := by
    rw [scanBanks_writes]
    exact List.nodup_range.filter _
  rw [scanBanks_count, ← hSet, List.toFinset_card_of_nodup hNodup]

theorem scanBanks_bankStore_eq (i : Nat) :
    (scanBanks (beforeAllocation predict r).1).bankStore i =
      if i ∈ freeBanks predict r.PC then (i : Int) else -1 := by
  rw [scanBanks_bankStore]
  simp only [isFree_iff_mem_freeBanks]

/-- A provider always gives the prediction, so after a misprediction below bank 0
the guards of the allocation hold. -/
theorem wantsAllocation_of_wrong (hWrong : (getPrediction predict r.PC).1 ≠ r.resolveDir)
    (hPos : 0 < (lookup predict r.PC).primeBank) :
    wantsAllocation (beforeAllocation predict r).1 (beforeAllocation predict r).2 r.resolveDir
      (getPrediction predict r.PC).1 = true := by
  have hBank : 0 < (beforeAllocation predict r).1.primeBank := by
    rwa [beforeAllocation_primeBank]
  simp only [wantsAllocation, hWrong, hBank, ne_eq, not_false_eq_true, decide_true, Bool.and_true]
  cases hFlag : (beforeAllocation predict r).2 with
  | false => rfl
  | true =>
      have hHit : (lookup predict r.PC).primeBank < numTagTables := by
        simp only [beforeAllocation, newEntry, Bool.and_eq_true, decide_eq_true_eq,
          trainCounters_primeBank] at hFlag
        exact hFlag.1
      have hPrime : (beforeAllocation predict r).1.primePred = (getPrediction predict r.PC).1 := by
        simp only [beforeAllocation]
        rw [updateAltBetterCount_frame, trainCounters_frame, getPrediction_snd, getPrediction_fst]
        simp only [if_pos hHit]
      simp [hPrime, hWrong]

/-- The downward loop from a free bank stops there at once. -/
theorem allocationBank_of_free {reached : Predictor} {k : Nat} (hFree : reached.isFree k = true) :
    allocationBank reached k = some k := by
  have hRange : ((k : Int) + 1).toNat = k + 1 := by omega
  rw [allocationBank, hRange, List.range_succ, List.reverse_append, List.reverse_singleton,
    List.singleton_append, List.find?_cons_of_pos hFree]

/-- When the scan reads no cell, there is no free bank, and the loop tries bank 0
in vain. -/
theorem allocationBank_of_unread (hPos : 0 < (lookup predict r.PC).primeBank)
    (hUnread : (scanBanks (beforeAllocation predict r).1).readIndex r.randNo = none) :
    allocationBank (beforeAllocation predict r).1 0 = none := by
  have hNone : freeBanks predict r.PC = ∅ := by
    rw [← Finset.card_eq_zero, ← scanBanks_count_eq_card]
    unfold BankScan.readIndex at hUnread
    split_ifs at hUnread
    omega
  have hBusy : (beforeAllocation predict r).1.isFree 0 = false := by
    rw [Bool.eq_false_iff]
    intro hFree
    have hMem := isFree_iff_mem_freeBanks.mp ⟨by rwa [beforeAllocation_primeBank], hFree⟩
    rw [hNone] at hMem
    exact absurd hMem (Finset.notMem_empty 0)
  simp [allocationBank, List.range_succ, hBusy]

/-- After a misprediction the bank is the cell of `bank_store` that the count
selects, when that bank is free. -/
theorem allocatedBank_eq_some_iff (hWrong : (getPrediction predict r.PC).1 ≠ r.resolveDir)
    (hPos : 0 < (lookup predict r.PC).primeBank) (k : Nat) :
    allocatedBank predict r = some k ↔
      (scanBanks (beforeAllocation predict r).1).readIndex r.randNo = some k ∧
        k ∈ freeBanks predict r.PC := by
  have hChosen : allocatedBank predict r =
      allocationBank (beforeAllocation predict r).1
        ((scanBanks (beforeAllocation predict r).1).matchBank r.randNo) :=
    if_pos (wantsAllocation_of_wrong hWrong hPos)
  rw [hChosen, BankScan.matchBank]
  cases hRead : (scanBanks (beforeAllocation predict r).1).readIndex r.randNo with
  | none => simp [allocationBank_of_unread hPos hRead]
  | some m =>
      simp only [scanBanks_bankStore_eq, Option.some.injEq]
      by_cases hFree : m ∈ freeBanks predict r.PC
      · rw [if_pos hFree, allocationBank_of_free (isFree_iff_mem_freeBanks.mpr hFree).2,
          Option.some.injEq]
        constructor
        · rintro rfl
          exact ⟨rfl, hFree⟩
        · exact fun h => h.1
      · have hRange : ((-1 : Int) + 1).toNat = 0 := rfl
        rw [if_neg hFree, allocationBank, hRange]
        constructor
        · intro hFound
          cases hFound
        · rintro ⟨rfl, hMem⟩
          exact absurd hMem hFree

theorem intendedBank_mem {free : Finset Nat} (hSome : free.Nonempty) (randNo : Fin 100) :
    intendedBank free randNo ∈ free := by
  unfold intendedBank
  split_ifs with hLargest
  · exact largest_mem hSome
  · apply secondLargest_mem
    have hPos := Finset.card_pos.mpr hSome
    omega

/-- The cell that is read is the one numbered by how many free banks lie below
the intended one. -/
theorem readIndex_eq_rank (hSome : (freeBanks predict r.PC).Nonempty) :
    (scanBanks (beforeAllocation predict r).1).readIndex r.randNo =
      some (rank (freeBanks predict r.PC) (intendedBank (freeBanks predict r.PC) r.randNo)) := by
  have hPos := Finset.card_pos.mpr hSome
  have hRand := r.randNo.isLt
  unfold BankScan.readIndex intendedBank
  rw [scanBanks_count_eq_card]
  by_cases hOne : (freeBanks predict r.PC).card = 1
  · rw [if_pos hOne, if_pos (Or.inl hOne), rank_largest hSome, hOne]
  · rw [if_neg hOne, if_pos (by omega)]
    by_cases hHigh : 33 < r.randNo.val
    · rw [if_pos ⟨hHigh, by omega⟩, if_pos (Or.inr hHigh), rank_largest hSome]
    · rw [if_neg fun h => hHigh h.1, if_neg (by omega), rank_secondLargest (by omega)]

/-- A bank before the provider does not match. -/
theorem tag_ne_of_lt_primeBank {i : Nat} (hBelow : i < (lookup predict r.PC).primeBank) :
    (predict.tagPred i (slot predict r.PC i)).tag ≠ predict.tagHash r.PC i := by
  have hMiss : (hashPC predict r.PC).hits i = false :=
    ArrayLoops.firstHit_skipped (Nat.zero_le i) hBelow
  exact of_decide_eq_false hMiss

theorem not_provider_of_lt {i j : Nat} (hBelow : i < (lookup predict r.PC).primeBank) :
    ¬ IsProvider predict r.PC i j :=
  fun hProvider => Nat.ne_of_lt hBelow hProvider.2.1

end Chosen

/-- The entries that PC 4 selects first are useful in the given banks. -/
def usefulIn (banks : List Nat) : Predictor :=
  banks.foldl (fun predict i => predict.setEntry i { pred := 0, tag := 0, u := 1 })
    (getPrediction initTagePredictor 4).2

theorem usefulIn_inRange (banks : List Nat) : (usefulIn banks).InRange := by
  have hEntry : Component.InRange { pred := 0, tag := 0, u := 1 } :=
    ⟨by decide, by decide, by decide⟩
  have hFold (predict : Predictor) (h : predict.InRange) : (banks.foldl (fun predict i =>
      predict.setEntry i { pred := 0, tag := 0, u := 1 }) predict).InRange := by
    induction banks generalizing predict with
    | nil => exact h
    | cons i banks ih => exact ih _ { h with entries := h.entries.setEntry i hEntry }
  exact hFold _ (inRange_init.getPrediction 4)

/-- After the record the entry of bank `k` is newly allocated, and no other entry
but the provider's has changed. -/
def AllocatesOnly (predict : Predictor) (r : Record) (k : Nat) : Prop :=
  (stepRecord predict r).tagPred k (slot predict r.PC k) =
      { pred := if r.resolveDir = 1 then 4 else 3, tag := predict.tagHash r.PC k, u := 0 } ∧
    ∀ i j, ¬ IsProvider predict r.PC i j → ¬ (i = k ∧ j = slot predict r.PC k) →
      (stepRecord predict r).tagPred i j = predict.tagPred i j

/-- A misprediction that finds a free entry allocates the intended one exactly
when every bank below it is free too. -/
theorem allocates_intended_iff {predict : Predictor} {r : Record} (hBranch : r.IsBranch)
    (hRunning : nextClock predict ≠ resetPeriod)
    (hWrong : (getPrediction predict r.PC).1 ≠ r.resolveDir)
    (hPos : 0 < (lookup predict r.PC).primeBank) (hSome : (freeBanks predict r.PC).Nonempty) :
    AllocatesOnly predict r (intendedBank (freeBanks predict r.PC) r.randNo) ↔
      ∀ i < intendedBank (freeBanks predict r.PC) r.randNo, i ∈ freeBanks predict r.PC := by
  have hIntended := intendedBank_mem hSome r.randNo
  have hRead := readIndex_eq_rank hSome
  have hBelow := (mem_freeBanks.mp hIntended).1
  constructor
  · rintro ⟨hEntry, _⟩
    have hChanged : EntryChanged predict r _ _ :=
      Or.inr (by rw [hEntry]; exact (tag_ne_of_lt_primeBank hBelow).symm)
    obtain ⟨hBank, _⟩ := allocated_of_changed (not_provider_of_lt hBelow) hChanged
    have hIndex := ((allocatedBank_eq_some_iff hWrong hPos _).mp hBank).1
    rw [hRead, Option.some.injEq] at hIndex
    exact rank_eq_self_iff.mp hIndex
  · intro hAll
    have hBank := (allocatedBank_eq_some_iff hWrong hPos _).mpr
      ⟨hRead.trans (congrArg some (rank_eq_self_iff.mpr hAll)), hIntended⟩
    unfold AllocatesOnly
    rw [stepRecord_tagPred_of_running predict r hRunning]
    constructor
    · rw [beforeTick_apply, if_pos ⟨hBank, rfl⟩, allocatedEntry]
      rcases hBranch with hDir | hDir <;> rw [hDir] <;> rfl
    · intro i j hOther hFar
      rw [beforeTick_apply, if_neg, beforeAllocation_apply_of_not_provider predict r hOther]
      rintro ⟨hSame, rfl⟩
      obtain rfl := Option.some.inj (hBank.symm.trans hSame)
      exact hFar ⟨rfl, rfl⟩

/-- In the initial state all banks are free, and the first of a third of the
random numbers selects bank 2. -/
theorem allocates_intended_init : AllocatesOnly initTagePredictor fallThrough 2 := by
  have hIntended : intendedBank (freeBanks initTagePredictor fallThrough.PC)
      fallThrough.randNo = 2 := by decide +kernel
  have hAllocates : AllocatesOnly initTagePredictor fallThrough
      (intendedBank (freeBanks initTagePredictor fallThrough.PC) fallThrough.randNo) :=
    (allocates_intended_iff (Or.inl rfl) (by decide) (by decide) (by decide)
      (by decide +kernel)).mpr (by decide +kernel)
  rwa [hIntended] at hAllocates

/-- With bank 0 useful the intended bank is 3, and bank 2 gets the entry. -/
theorem hole_moves_allocation :
    (usefulIn [0]).InRange ∧ nextClock (usefulIn [0]) ≠ resetPeriod ∧
      (getPrediction (usefulIn [0]) 4).1 ≠ 0 ∧
      freeBanks (usefulIn [0]) 4 = {1, 2, 3} ∧
      ¬ AllocatesOnly (usefulIn [0]) { fallThrough with randNo := 99 }
        (intendedBank (freeBanks (usefulIn [0]) 4) 99) := by
  refine ⟨usefulIn_inRange [0], by decide, by decide, by decide +kernel, fun hAllocates => ?_⟩
  have hTag := congrArg Component.tag hAllocates.1
  revert hTag
  decide +kernel

/-- On a misprediction no free entry means that the entries below the provider
each become less useful, and nothing else happens to the tables. -/
def AgesEntries (predict : Predictor) (r : Record) : Prop :=
  (∀ i j, ¬ IsProvider predict r.PC i j → ¬ EntryChanged predict r i j) ∧
    ∀ i < (lookup predict r.PC).primeBank,
      ((stepRecord predict r).tagPred i (slot predict r.PC i)).u =
        (predict.tagPred i (slot predict r.PC i)).u - 1

/-- With no free entry a misprediction leaves every entry but the provider's as
it is, useful counters included. -/
theorem stepRecord_of_no_free {predict : Predictor} {r : Record}
    (hRunning : nextClock predict ≠ resetPeriod) (hNone : freeBanks predict r.PC = ∅) {i j : Nat}
    (hOther : ¬ IsProvider predict r.PC i j) :
    (stepRecord predict r).tagPred i j = predict.tagPred i j := by
  rw [stepRecord_tagPred_of_running predict r hRunning, beforeTick_apply, if_neg,
    beforeAllocation_apply_of_not_provider predict r hOther]
  rintro ⟨hBank, _⟩
  obtain ⟨_, hBelow, hFree⟩ := allocatedBank_spec predict r hBank
  have hMem : i ∈ freeBanks predict r.PC := mem_freeBanks.mpr ⟨hBelow, decide_eq_true hFree⟩
  rw [hNone] at hMem
  exact Finset.notMem_empty i hMem

/-- The ageing is never done: the flag that is to tell that some entry is free is
raised by every bank. -/
theorem not_agesEntries {predict : Predictor} {r : Record}
    (hRunning : nextClock predict ≠ resetPeriod)
    (hPos : 0 < (lookup predict r.PC).primeBank)
    (hBusy : ∀ i < (lookup predict r.PC).primeBank,
      0 < (predict.tagPred i (slot predict r.PC i)).u) : ¬ AgesEntries predict r := by
  have hNone : freeBanks predict r.PC = ∅ := by
    rw [Finset.eq_empty_iff_forall_notMem]
    intro i hMem
    obtain ⟨hBelow, hFree⟩ := mem_freeBanks.mp hMem
    have hUseful := hBusy i hBelow
    have hZero : (predict.tagPred i (slot predict r.PC i)).u = 0 := of_decide_eq_true hFree
    omega
  rintro ⟨_, hAged⟩
  have hBank := hAged 0 hPos
  rw [stepRecord_of_no_free hRunning hNone (not_provider_of_lt hPos)] at hBank
  omega

theorem not_agesEntries_all_useful : ¬ AgesEntries (usefulIn [0, 1, 2, 3]) fallThrough :=
  not_agesEntries (by decide) (by decide) (by decide +kernel)

/-- A misprediction with four useful entries leaves them as useful as before. -/
theorem useful_entries_keep :
    (usefulIn [0, 1, 2, 3]).InRange ∧ nextClock (usefulIn [0, 1, 2, 3]) ≠ resetPeriod ∧
      (getPrediction (usefulIn [0, 1, 2, 3]) 4).1 ≠ fallThrough.resolveDir ∧
      (∀ i < (lookup (usefulIn [0, 1, 2, 3]) 4).primeBank,
        0 < ((usefulIn [0, 1, 2, 3]).tagPred i (slot (usefulIn [0, 1, 2, 3]) 4 i)).u) ∧
      ¬ AgesEntries (usefulIn [0, 1, 2, 3]) fallThrough := by
  refine ⟨usefulIn_inRange _, by decide, by decide, by decide +kernel, fun hAges => ?_⟩
  have hUseful := hAges.2 0 (by decide)
  revert hUseful
  decide +kernel

/-- A lookup whose provider is an entry that nothing has modified since its
allocation repeats the outcome of the allocating record exactly if that outcome
was taken. -/
theorem primePred_of_fresh_iff {predict : Predictor} {r : Record} {k : Nat}
    (hBank : allocatedBank predict r = some k) {later : Predictor} {PC : U64}
    (hProvider : IsProvider later PC k (slot predict r.PC k))
    (hKept : later.tagPred k (slot predict r.PC k) =
      (stepRecord predict r).tagPred k (slot predict r.PC k)) :
    (getPrediction later PC).2.primePred = r.resolveDir ↔ r.resolveDir = 1 := by
  obtain ⟨hHit, hPrime, hIndex⟩ := hProvider
  have hEntry : (lookup later PC).entry (lookup later PC).primeBank =
      later.tagPred k (slot predict r.PC k) := by
    rw [← hPrime, hIndex]
    rfl
  have hWeak : 3 ≤ (later.tagPred k (slot predict r.PC k)).pred := by
    rw [hKept, (stepRecord_entry predict r _ _).1, beforeTick_apply, if_pos ⟨hBank, rfl⟩,
      allocatedEntry]
    dsimp only
    split_ifs <;> decide
  have hDirection : providerDirection later PC = true := by
    rw [providerDirection, hEntry]
    exact decide_eq_true hWeak
  have hPred : (getPrediction later PC).2.primePred = 1 := by
    rw [getPrediction_snd]
    change (if (lookup later PC).primeBank < numTagTables then _ else _) = (1 : U64)
    rw [if_pos hHit, hDirection]
    rfl
  rw [hPred]
  exact eq_comm

theorem primePred_of_fresh_fallThrough :
    (getPrediction (stepRecord initTagePredictor fallThrough) 4).2.primePred =
      fallThrough.resolveDir ↔ fallThrough.resolveDir = 1 :=
  primePred_of_fresh_iff (k := 2) (by decide +kernel)
    ⟨by decide +kernel, by decide +kernel, by decide +kernel⟩ rfl

/-- The entry allocated for a branch that fell through predicts taken. -/
theorem fresh_entry_predicts_taken :
    allocatedBank initTagePredictor fallThrough = some 2 ∧
      IsProvider (stepRecord initTagePredictor fallThrough) 4 2
        (slot initTagePredictor fallThrough.PC 2) ∧
      (getPrediction (stepRecord initTagePredictor fallThrough) 4).2.primePred ≠
        fallThrough.resolveDir :=
  ⟨by decide +kernel, ⟨by decide +kernel, by decide +kernel, by decide +kernel⟩,
    by decide +kernel⟩

end BranchPrediction.Tage
