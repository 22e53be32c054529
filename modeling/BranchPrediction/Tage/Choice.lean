import BranchPrediction.Tage.Invariant

/-! What the prediction should be: the matching bank with the longest history
decides, unless its entry is newly allocated and new entries have done worse
than the alternate prediction. -/
namespace BranchPrediction.Tage

open ArrayLoops

/-- The banks that match a branch, the one with the longest history first. -/
def matchingBanks (tage : Predictor) (PC : U64) : List Nat :=
  (List.range numTagTables).filter (hashPC tage PC).hits

/-- The direction of the bimodal table. -/
def bimodalDirection (tage : Predictor) (PC : U64) : Bool :=
  2 ≤ tage.bimodal (PC.toNat % 2 ^ 14)

/-- The direction that competes with the provider's, given the matching banks
after the provider. -/
def directionAfter (tage : Predictor) (PC : U64) : List Nat → Bool
  | [] => bimodalDirection tage PC
  | q :: _ => ((hashPC tage PC).entry q).direction

/-- A prediction with the banks it comes from; a bank that is absent is 4. -/
structure Choice where
  prediction : Bool
  primeBank : Nat
  altBank : Nat
  altPred : Bool

/-- The choice that the comments of the source describe. -/
def intendedChoice (tage : Predictor) (PC : U64) : Choice :=
  match matchingBanks tage PC with
  | [] =>
      { prediction := bimodalDirection tage PC
        primeBank := 4
        altBank := 4
        altPred := bimodalDirection tage PC }
  | p :: rest =>
      let provider := (hashPC tage PC).entry p
      { prediction :=
          if provider.isNew = true ∧ 8 ≤ tage.altBetterCount then directionAfter tage PC rest
          else provider.direction
        primeBank := p
        altBank := rest.headD 4
        altPred := directionAfter tage PC rest }

/-- `get_prediction` answers with the choice and leaves its banks and its
alternate direction in the predictor. -/
def FollowsChoice (tage : Predictor) (PC : U64) (choice : Choice) : Prop :=
  (getPrediction tage PC).1 = boolWord choice.prediction ∧
    (getPrediction tage PC).2.primeBank = choice.primeBank ∧
      (getPrediction tage PC).2.altBank = choice.altBank ∧
        (getPrediction tage PC).2.altPred = boolWord choice.altPred

/-- The provider is newly allocated, new entries have done badly, and the
alternate direction is not taken. -/
def NewProviderOverruled (tage : Predictor) (PC : U64) : Prop :=
  match matchingBanks tage PC with
  | [] => False
  | p :: rest =>
      ((hashPC tage PC).entry p).isNew = true ∧ 8 ≤ tage.altBetterCount ∧
        directionAfter tage PC rest = false

section Lookup

variable {tage : Predictor} {PC : U64}

theorem matchingBanks_eq_range' :
    matchingBanks tage PC = (List.range' 0 numTagTables).filter (hashPC tage PC).hits := by
  rw [matchingBanks, List.range_eq_range']

/-- The two searches of the lookup find the first two matching banks. -/
theorem lookup_of_no_match (hNone : matchingBanks tage PC = []) :
    (lookup tage PC).primeBank = 4 ∧ (lookup tage PC).altBank = 4 := by
  rw [matchingBanks_eq_range'] at hNone
  have hPrime : (lookup tage PC).primeBank = 4 := by
    change firstHit (hashPC tage PC).hits 0 numTagTables = 4
    rw [firstHit_eq_head?, Nat.sub_zero, hNone]
    rfl
  refine ⟨hPrime, lookup_altBank_of_miss tage PC ?_⟩
  rw [hPrime]
  exact Nat.lt_irrefl 4

theorem lookup_of_match {p : Nat} {rest : List Nat} (hMatch : matchingBanks tage PC = p :: rest) :
    (lookup tage PC).primeBank = p ∧ (lookup tage PC).altBank = rest.headD 4 ∧
      p < numTagTables := by
  have hBank : p < numTagTables := by
    have hMem : p ∈ matchingBanks tage PC := by rw [hMatch]; exact List.mem_cons_self
    exact List.mem_range.mp (List.mem_filter.mp hMem).1
  rw [matchingBanks_eq_range'] at hMatch
  have hPrime : (lookup tage PC).primeBank = p := by
    change firstHit (hashPC tage PC).hits 0 numTagTables = p
    rw [firstHit_eq_head?, Nat.sub_zero, hMatch]
    rfl
  have hRest := filter_range'_eq_cons hMatch
  refine ⟨hPrime, ?_, hBank⟩
  change firstHit (hashPC tage PC).hits ((lookup tage PC).primeBank + 1) numTagTables = _
  rw [firstHit_eq_head?, hPrime, hRest, Nat.zero_add, List.headD_eq_head?_getD]

theorem lookup_entry (i : Nat) : (lookup tage PC).entry i = (hashPC tage PC).entry i := rfl

theorem basePrediction_eq (h : tage.InRange) : tage.basePrediction PC = bimodalDirection tage PC := by
  have hIndex : tage.bimodalIndex PC = PC.toNat % 2 ^ 14 := by
    rw [Predictor.bimodalIndex, h.numBimodalEntries]
  rw [Predictor.basePrediction, hIndex, bimodalDirection]
  exact decide_eq_decide.mpr Iff.rfl

/-- The alternate direction of the lookup is that of the banks after the
provider. -/
theorem alternateDirection_of_match (h : tage.InRange) {p : Nat} {rest : List Nat}
    (hMatch : matchingBanks tage PC = p :: rest) :
    alternateDirection tage PC = directionAfter tage PC rest := by
  obtain ⟨_, hAlt, _⟩ := lookup_of_match hMatch
  rw [alternateDirection, hAlt]
  cases rest with
  | nil => exact (if_pos rfl).trans (basePrediction_eq h)
  | cons q rest =>
      have hMem : q ∈ matchingBanks tage PC := by simp [hMatch]
      have hBank : q < 4 := List.mem_range.mp (List.mem_filter.mp hMem).1
      rw [List.headD_cons, if_neg (Nat.ne_of_lt hBank), lookup_entry]
      rfl

end Lookup

/-- A new entry is weak, and the threshold of the source reads both weak values
as taken. -/
theorem direction_of_isNew {e : Component} (hNew : e.isNew = true) : e.direction = true := by
  simp only [Component.isNew, decide_eq_true_eq] at hNew
  have hWeak : 3 ≤ e.pred := by omega
  exact decide_eq_true hWeak

/-- The lookup follows the intended choice exactly when no new provider is to be
overruled by a direction that is not taken. -/
theorem followsChoice_iff {tage : Predictor} (h : tage.InRange) (PC : U64) :
    FollowsChoice tage PC (intendedChoice tage PC) ↔ ¬ NewProviderOverruled tage PC := by
  unfold FollowsChoice intendedChoice NewProviderOverruled
  rw [getPrediction_fst, getPrediction_snd]
  cases hMatch : matchingBanks tage PC with
  | nil =>
      obtain ⟨hPrime, hAlt⟩ := lookup_of_no_match hMatch
      have hMiss : ¬ (lookup tage PC).primeBank < numTagTables := by rw [hPrime]; decide
      have hDirection : alternateDirection tage PC = bimodalDirection tage PC := by
        rw [alternateDirection, hAlt, if_pos rfl, basePrediction_eq h]
      simp only [if_neg hMiss, hDirection, basePrediction_eq h]
      simp only [hPrime, hAlt, and_self, not_false_eq_true]
  | cons p rest =>
      obtain ⟨hPrime, hAlt, hBank⟩ := lookup_of_match hMatch
      have hHit : (lookup tage PC).primeBank < numTagTables := by rw [hPrime]; exact hBank
      have hOwn : providerDirection tage PC = ((hashPC tage PC).entry p).direction := by
        rw [providerDirection, hPrime, lookup_entry]
      simp only [if_pos hHit, hOwn, alternateDirection_of_match h hMatch]
      simp only [hPrime, hAlt, and_true, boolWord_inj]
      by_cases hOverrule : ((hashPC tage PC).entry p).isNew = true ∧ 8 ≤ tage.altBetterCount
      · rw [if_pos hOverrule, direction_of_isNew hOverrule.1]
        simp only [hOverrule, true_and, Bool.not_eq_false]
        exact eq_comm
      · rw [if_neg hOverrule]
        simp only [true_iff]
        exact fun hAll => hOverrule ⟨hAll.1, hAll.2.1⟩

/-- In the initial state the first lookup of PC 0 hits every bank. -/
theorem followsChoice_init : FollowsChoice initTagePredictor 0 (intendedChoice initTagePredictor 0) :=
  (followsChoice_iff inRange_init 0).mpr (by
    change ¬ (_ ∧ _ ∧ _)
    decide)

/-- A branch at PC 4 that falls through. -/
def fallThrough : Record :=
  { PC := 4, branchTarget := 0, resolveDir := 0, randNo := leastRand }

/-- The same branch, taken. -/
def jump : Record := { fallThrough with resolveDir := 1 }

/-- The first branch of a run gets a new entry and a bimodal counter that leans
to not taken. The next lookup answers taken all the same. -/
theorem new_provider_decides :
    (stepRecord initTagePredictor fallThrough).InRange ∧
      ¬ FollowsChoice (stepRecord initTagePredictor fallThrough) 4
        (intendedChoice (stepRecord initTagePredictor fallThrough) 4) := by
  refine ⟨inRange_init.stepRecord fallThrough, fun hFollows => ?_⟩
  have hAnswer := hFollows.1
  revert hAnswer
  decide +kernel

end BranchPrediction.Tage
