import BranchPrediction.Tage.Run

/-! The scan for free banks in `update_predictor` and the cells of the local
array `bank_store` that it touches. -/
namespace BranchPrediction.Tage

open FoldRun

/-- `bank_store` as the source declares it. -/
def bankStoreSize : Nat := numTagTables - 1

section Scan

variable (predict : Predictor)

/-- After the scan of the banks below `n`, cell `i` holds `i` if bank `i` was
found free, and the initial value otherwise. -/
theorem scan_range (n : Nat) :
    let scan := (List.range n).foldl (BankScan.visit predict)
      { count := 0, bankStore := fun _ => -1, writes := [] }
    scan.writes = (List.range n).filter predict.isFree ∧
    scan.count = scan.writes.length ∧
    ∀ i, scan.bankStore i = if i < n ∧ predict.isFree i = true then (i : Int) else -1 := by
  induction n with
  | zero => exact ⟨rfl, rfl, fun i => by simp⟩
  | succ n ih =>
      obtain ⟨hWrites, hCount, hStore⟩ := ih
      simp only [List.range_succ, List.foldl_append, List.foldl_cons, List.foldl_nil,
        List.filter_append]
      by_cases hFree : predict.isFree n = true
      · refine ⟨?_, ?_, fun i => ?_⟩
        · simp [BankScan.visit, hFree, hWrites]
        · simp [BankScan.visit, hFree, hCount]
        · simp only [BankScan.visit, hFree, if_true]
          by_cases hi : i = n
          · subst i
            simp [hFree]
          · rw [Function.update_of_ne hi, hStore]
            have hIff : i < n + 1 ↔ i < n := by omega
            simp only [hIff]
      · refine ⟨?_, ?_, fun i => ?_⟩
        · simp [BankScan.visit, hFree, hWrites]
        · simp [BankScan.visit, hFree, hCount]
        · simp only [BankScan.visit, hFree, Bool.false_eq_true, if_false, hStore]
          by_cases hi : i = n
          · subst i
            simp [hFree]
          · have hIff : i < n + 1 ↔ i < n := by omega
            simp only [hIff]

theorem scanBanks_writes :
    (scanBanks predict).writes = (List.range predict.primeBank).filter predict.isFree :=
  (scan_range predict predict.primeBank).1

theorem scanBanks_count : (scanBanks predict).count = (scanBanks predict).writes.length :=
  (scan_range predict predict.primeBank).2.1

theorem scanBanks_bankStore (i : Nat) :
    (scanBanks predict).bankStore i =
      if i < predict.primeBank ∧ predict.isFree i = true then (i : Int) else -1 :=
  (scan_range predict predict.primeBank).2.2 i

theorem mem_scanBanks_writes {i : Nat} :
    i ∈ (scanBanks predict).writes ↔ i < predict.primeBank ∧ predict.isFree i = true := by
  rw [scanBanks_writes, List.mem_filter, List.mem_range]

theorem scanBanks_count_le : (scanBanks predict).count ≤ predict.primeBank := by
  rw [scanBanks_count, scanBanks_writes]
  exact (List.length_filter_le _ _).trans_eq List.length_range

/-- A bank that is not free leaves room below the count. -/
theorem scanBanks_count_lt {i : Nat} (hi : i < predict.primeBank)
    (hBusy : predict.isFree i = false) : (scanBanks predict).count < predict.primeBank := by
  rw [scanBanks_count, scanBanks_writes]
  have hLess : ((List.range predict.primeBank).filter predict.isFree).length <
      (List.range predict.primeBank).length :=
    List.length_filter_lt_length_iff_exists.mpr ⟨i, List.mem_range.mpr hi, by simp [hBusy]⟩
  rwa [List.length_range] at hLess

theorem readIndex_lt_count {scan : BankScan} {randNo : Fin 100} {k : Nat}
    (hRead : scan.readIndex randNo = some k) : k < scan.count := by
  unfold BankScan.readIndex at hRead
  split_ifs at hRead with hOne hMore <;> simp only [Option.some.injEq] at hRead <;> omega

/-- The downward loop starts below the provider. -/
theorem matchBank_lt (hBank : 0 < predict.primeBank) (randNo : Fin 100) :
    (scanBanks predict).matchBank randNo < predict.primeBank := by
  unfold BankScan.matchBank
  cases hRead : (scanBanks predict).readIndex randNo with
  | none => simpa using hBank
  | some k =>
      simp only [scanBanks_bankStore]
      split_ifs with hStored
      · exact_mod_cast hStored.1
      · omega

/-- The downward loop stops at a free bank that is not above its start. -/
theorem allocationBank_spec {start : Int} {i : Nat}
    (hBank : allocationBank predict start = some i) :
    (i : Int) ≤ start ∧ predict.isFree i = true := by
  have hMem := List.mem_of_find?_eq_some hBank
  rw [List.mem_reverse, List.mem_range] at hMem
  exact ⟨by omega, List.find?_some hBank⟩

end Scan

/-- What the allocation can do: nothing, or after a misprediction write a fresh
entry over a free one in a bank below the provider. -/
theorem allocate_cases (predict : Predictor) (newEntry : Bool) (resolveDir predDir : U64)
    (randNo : Fin 100) :
    allocate predict newEntry resolveDir predDir randNo = predict ∨
      ∃ i < predict.primeBank, predict.isFree i = true ∧ predDir ≠ resolveDir ∧
        allocate predict newEntry resolveDir predDir randNo =
          predict.setEntry i (predict.freshEntry resolveDir i) := by
  rw [allocate_eq]
  split_ifs with hWants
  · simp only [wantsAllocation, Bool.and_eq_true, decide_eq_true_eq] at hWants
    obtain ⟨_, hWrong, hPos⟩ := hWants
    unfold allocateFrom
    cases hBank : allocationBank predict ((scanBanks predict).matchBank randNo) with
    | none => exact Or.inl rfl
    | some i =>
        have hStart := matchBank_lt predict hPos randNo
        obtain ⟨hLe, hFree⟩ := allocationBank_spec predict hBank
        exact Or.inr ⟨i, by omega, hFree, hWrong, rfl⟩
  · exact Or.inl rfl

/-- The predictor and the flag `new_entry` with which a record reaches the
allocation. -/
def beforeAllocation (predict : Predictor) (r : Record) : Predictor × Bool :=
  let (predDir, predict) := getPrediction predict r.PC
  let trained := trainCounters predict r.PC r.resolveDir predDir
  (updateAltBetterCount trained (newEntry trained) r.resolveDir, newEntry trained)

/-- A step, from the point where the allocation begins. -/
theorem stepRecord_eq (predict : Predictor) (r : Record) :
    stepRecord predict r =
      updateHistories (tick (allocate (beforeAllocation predict r).1 (beforeAllocation predict r).2
        r.resolveDir (getPrediction predict r.PC).1 r.randNo)) r.PC r.resolveDir :=
  rfl

/-- The record enters the branch that declares `bank_store`. -/
def entersScan (predict : Predictor) (r : Record) : Bool :=
  let (reached, newEntry) := beforeAllocation predict r
  wantsAllocation reached newEntry r.resolveDir (getPrediction predict r.PC).1 &&
    strongOldPresent reached ≠ 0

/-- The indices of `bank_store` that a record writes and reads. -/
def bankStoreAccesses (predict : Predictor) (r : Record) : List Nat :=
  let scan := scanBanks (beforeAllocation predict r).1
  if entersScan predict r then scan.writes ++ (scan.readIndex r.randNo).toList else []

/-- Every access to `bank_store` is inside the array, and the downward loop
starts at a bank that exists. -/
def AllocationSafe (predict : Predictor) (r : Record) : Prop :=
  (∀ k ∈ bankStoreAccesses predict r, k < bankStoreSize) ∧
  (entersScan predict r = true →
    (scanBanks (beforeAllocation predict r).1).matchBank r.randNo ≤ 3)

/-- A record misses every bank, is mispredicted by the bimodal table and finds
the entry of the last bank free. -/
def OverrunsBankStore (predict : Predictor) (r : Record) : Prop :=
  (∀ i < numTagTables, (hashPC predict r.PC).hits i = false) ∧
  boolWord (predict.basePrediction r.PC) ≠ r.resolveDir ∧
  ((hashPC predict r.PC).entry (numTagTables - 1)).u = 0

section Reached

variable (predict : Predictor) (r : Record)

/-- Training keeps the bank of the lookup. -/
theorem trainCounters_primeBank :
    (trainCounters (getPrediction predict r.PC).2 r.PC r.resolveDir
      (getPrediction predict r.PC).1).primeBank = (lookup predict r.PC).primeBank := by
  rw [trainCounters_frame, getPrediction_snd]

theorem beforeAllocation_primeBank :
    (beforeAllocation predict r).1.primeBank = (lookup predict r.PC).primeBank := by
  simp only [beforeAllocation]
  rw [updateAltBetterCount_frame]
  exact trainCounters_primeBank predict r

/-- An access is a write at a free bank before the provider, or the read below
the count. -/
theorem bankStoreAccess_cases {k : Nat} (hk : k ∈ bankStoreAccesses predict r) :
    entersScan predict r = true ∧
      (k < (lookup predict r.PC).primeBank ∧ (beforeAllocation predict r).1.isFree k = true ∨
        k < (scanBanks (beforeAllocation predict r).1).count) := by
  unfold bankStoreAccesses at hk
  split_ifs at hk with hEnter
  · refine ⟨hEnter, ?_⟩
    rcases List.mem_append.mp hk with hWrite | hRead
    · rw [← beforeAllocation_primeBank]
      exact Or.inl ((mem_scanBanks_writes _).mp hWrite)
    · exact Or.inr (readIndex_lt_count (Option.mem_toList.mp hRead))
  · exact absurd hk List.not_mem_nil

/-- A record that enters the scan is mispredicted and has banks to scan. -/
theorem entersScan_iff :
    entersScan predict r = true ↔
      wantsAllocation (beforeAllocation predict r).1 (beforeAllocation predict r).2 r.resolveDir
        (getPrediction predict r.PC).1 = true := by
  simp only [entersScan, Bool.and_eq_true, decide_eq_true_eq, and_iff_left_iff_imp]
  intro hWants
  simp only [wantsAllocation, Bool.and_eq_true, decide_eq_true_eq] at hWants
  rw [strongOldPresent_eq, if_neg (by omega)]
  exact Nat.one_ne_zero

theorem primeBank_pos_of_entersScan (h : entersScan predict r = true) :
    0 < (beforeAllocation predict r).1.primeBank := by
  rw [entersScan_iff] at h
  simp only [wantsAllocation, Bool.and_eq_true, decide_eq_true_eq] at h
  exact h.2.2

/-- A miss trains the bimodal table only, so the scan sees the entries that the
lookup saw. -/
theorem beforeAllocation_isFree_of_miss (hMiss : ¬ (lookup predict r.PC).primeBank < numTagTables)
    (i : Nat) :
    (beforeAllocation predict r).1.isFree i = decide (((hashPC predict r.PC).entry i).u = 0) := by
  have hNoBank : ¬ (getPrediction predict r.PC).2.primeBank < numTagTables := by
    rw [getPrediction_snd]
    exact hMiss
  simp only [beforeAllocation]
  rw [updateAltBetterCount_frame, trainCounters_of_miss _ _ _ _ hNoBank, getPrediction_snd]
  rfl

/-- After a miss the scan is entered exactly on a misprediction. -/
theorem entersScan_of_miss (hMiss : ¬ (lookup predict r.PC).primeBank < numTagTables) :
    entersScan predict r = true ↔ boolWord (predict.basePrediction r.PC) ≠ r.resolveDir := by
  have hLe := lookup_primeBank_le predict r.PC
  have hBank : (beforeAllocation predict r).1.primeBank = numTagTables := by
    rw [beforeAllocation_primeBank]
    omega
  have hFlag : (beforeAllocation predict r).2 = false := by
    simp only [beforeAllocation, newEntry, trainCounters_primeBank, hMiss, decide_false,
      Bool.false_and]
  rw [entersScan_iff, wantsAllocation, hFlag, hBank, getPrediction_fst, if_neg hMiss]
  simp

/-- The downward loop always starts at a bank that exists. -/
theorem matchBank_le_of_entersScan (hEnter : entersScan predict r = true) :
    (scanBanks (beforeAllocation predict r).1).matchBank r.randNo ≤ 3 := by
  have hStart := matchBank_lt _ (primeBank_pos_of_entersScan predict r hEnter) r.randNo
  have hLe := lookup_primeBank_le predict r.PC
  rw [beforeAllocation_primeBank] at hStart
  simp only [numTagTables] at hLe
  omega

/-- With a provider the scan stays below bank 3 and so inside the array. -/
theorem allocationSafe_of_hit (hHit : (lookup predict r.PC).primeBank < numTagTables) :
    AllocationSafe predict r := by
  have hRoom : (lookup predict r.PC).primeBank ≤ bankStoreSize := Nat.le_of_lt_succ hHit
  refine ⟨fun k hk => ?_, matchBank_le_of_entersScan predict r⟩
  rcases (bankStoreAccess_cases predict r hk).2 with ⟨hBelow, _⟩ | hCount
  · omega
  · have hLe := scanBanks_count_le (beforeAllocation predict r).1
    rw [beforeAllocation_primeBank] at hLe
    omega

/-- With bank 3 busy the scan has room for the others. -/
theorem allocationSafe_of_busy (hBank : (lookup predict r.PC).primeBank = numTagTables)
    (hBusy : entersScan predict r = true →
      (beforeAllocation predict r).1.isFree (numTagTables - 1) = false) :
    AllocationSafe predict r := by
  refine ⟨fun k hk => ?_, matchBank_le_of_entersScan predict r⟩
  obtain ⟨hEnter, hAccess⟩ := bankStoreAccess_cases predict r hk
  have hLast := hBusy hEnter
  rcases hAccess with ⟨hBelow, hFree⟩ | hCount
  · have hNotLast : k ≠ numTagTables - 1 := by
      rintro rfl
      rw [hLast] at hFree
      cases hFree
    simp only [bankStoreSize, numTagTables] at hBank hNotLast ⊢
    omega
  · have hPrime : (beforeAllocation predict r).1.primeBank = numTagTables :=
      (beforeAllocation_primeBank predict r).trans hBank
    have hRoom := scanBanks_count_lt _ (by rw [hPrime]; decide) hLast
    simp only [bankStoreSize, numTagTables] at hPrime ⊢
    omega

/-- On a miss all four banks are scanned, and the last one has no cell. -/
theorem allocationSafe_of_miss_iff (hMiss : ¬ (lookup predict r.PC).primeBank < numTagTables) :
    AllocationSafe predict r ↔
      ¬ (boolWord (predict.basePrediction r.PC) ≠ r.resolveDir ∧
        ((hashPC predict r.PC).entry (numTagTables - 1)).u = 0) := by
  have hLe := lookup_primeBank_le predict r.PC
  have hBank : (lookup predict r.PC).primeBank = numTagTables := by omega
  have hFree := beforeAllocation_isFree_of_miss predict r hMiss
  constructor
  · rintro ⟨hInside, _⟩ ⟨hWrong, hLast⟩
    have hEnter := (entersScan_of_miss predict r hMiss).mpr hWrong
    have hWrite : numTagTables - 1 ∈ (scanBanks (beforeAllocation predict r).1).writes := by
      rw [mem_scanBanks_writes, beforeAllocation_primeBank, hBank, hFree]
      exact ⟨by decide, by simpa using hLast⟩
    have hMem : numTagTables - 1 ∈ bankStoreAccesses predict r := by
      rw [bankStoreAccesses, if_pos hEnter]
      exact List.mem_append_left _ hWrite
    exact absurd (hInside _ hMem) (by decide)
  · intro hSafe
    apply allocationSafe_of_busy predict r hBank
    intro hEnter
    have hWrong := (entersScan_of_miss predict r hMiss).mp hEnter
    rw [hFree]
    simpa using fun hLast => hSafe ⟨hWrong, hLast⟩

/-- One record: the array suffices exactly when the record does not overrun it. -/
theorem allocationSafe_iff : AllocationSafe predict r ↔ ¬ OverrunsBankStore predict r := by
  by_cases hHit : (lookup predict r.PC).primeBank < numTagTables
  · have hNoMiss : ¬ ∀ i < numTagTables, (hashPC predict r.PC).hits i = false := fun hAll =>
      (lookup_miss_iff predict r.PC).mpr hAll hHit
    exact ⟨fun _ hOver => hNoMiss hOver.1, fun _ => allocationSafe_of_hit predict r hHit⟩
  · have hAll := (lookup_miss_iff predict r.PC).mp hHit
    rw [allocationSafe_of_miss_iff predict r hHit, OverrunsBankStore]
    exact not_congr ⟨fun h => ⟨hAll, h⟩, fun h => h.2⟩

end Reached

/-- In a run from the initial state every access to `bank_store` is inside the
array exactly when no record overruns it. -/
theorem bankStore_safe_iff (records : List Record) :
    AlongRun stepRecord AllocationSafe initTagePredictor records ↔
      AlongRun stepRecord (fun predict r => ¬ OverrunsBankStore predict r) initTagePredictor
        records :=
  alongRun_congr stepRecord allocationSafe_iff initTagePredictor records

/-- The first record of a trace already writes past the array when it is a
branch at PC 4 that is not taken. -/
theorem first_record_overruns :
    let r : Record := { PC := 4, branchTarget := 0, resolveDir := 0, randNo := 0 }
    r.IsBranch ∧ bankStoreSize ∈ bankStoreAccesses initTagePredictor r ∧
      ¬ AlongRun stepRecord AllocationSafe initTagePredictor [r] := by
  intro r
  have hMem : bankStoreSize ∈ bankStoreAccesses initTagePredictor r := by decide
  exact ⟨Or.inl rfl, hMem, fun h => absurd (h.1.1 _ hMem) (Nat.lt_irrefl _)⟩

end BranchPrediction.Tage
