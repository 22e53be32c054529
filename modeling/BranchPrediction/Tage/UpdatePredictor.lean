import BranchPrediction.Tage.History
import BranchPrediction.Tage.GetPrediction

/-! `update_predictor.h`, phase by phase: training of the provider or of the
bimodal counter, the counter that prefers the alternate prediction, allocation
on a misprediction, the periodic reset of the useful counters, and the
histories. -/
namespace BranchPrediction.Tage

/-- The value an `int32_t` has after conversion to `uint64_t`. -/
def toUInt64 (x : Int) : Nat := (x % 2 ^ 64).toNat

/-- The value a `uint64_t` has after conversion to `int32_t`. -/
def toInt32 (n : Nat) : Int := (n : Int).bmod (2 ^ 32)

def satIncrement (usefulBits maxVal : Nat) : Nat :=
  if usefulBits ≥ maxVal then maxVal else usefulBits + 1

def satDecrement (usefulBits : Nat) : Nat :=
  if usefulBits = 0 then 0 else usefulBits - 1

/-- `x = SatIncrement(x, max_val)` for an `int32_t`. -/
def incrementField (x : Int) (maxVal : Nat) : Int := toInt32 (satIncrement (toUInt64 x) maxVal)

/-- `x = SatDecrement(x)` for an `int32_t`. -/
def decrementField (x : Int) : Int := toInt32 (satDecrement (toUInt64 x))

/-- The useful counter of the provider moves when the final prediction differs
from the alternate one. -/
def trainUseful (u : Int) (altPred resolveDir predDir : U64) : Int :=
  if predDir ≠ altPred then
    if predDir = resolveDir then incrementField u bimodalCtrMax else decrementField u
  else u

def trainPred (pred : Int) (resolveDir : U64) : Int :=
  if resolveDir ≠ 0 then incrementField pred tagPredCtrMax else decrementField pred

def trainBimodal (counter : Nat) (resolveDir : U64) : Nat :=
  if resolveDir ≠ 0 then satIncrement counter bimodalCtrMax else satDecrement counter

/-- The provider entry after its counters were trained. -/
def trainedEntry (predict : Predictor) (resolveDir predDir : U64) : Component :=
  let e := predict.entry predict.primeBank
  { e with
    u := trainUseful e.u predict.altPred resolveDir predDir
    pred := trainPred e.pred resolveDir }

/-- Train the component that gave the prediction. -/
def trainCounters (predict : Predictor) (PC resolveDir predDir : U64) : Predictor :=
  if predict.primeBank < numTagTables then
    predict.setEntry predict.primeBank (trainedEntry predict resolveDir predDir)
  else
    { predict with
      bimodal := Function.update predict.bimodal (predict.bimodalIndex PC)
        (trainBimodal (predict.bimodal (predict.bimodalIndex PC)) resolveDir) }

/-- A weak counter that was never useful. -/
def Component.isNew (e : Component) : Bool := e.u = 0 ∧ (e.pred = 3 ∨ e.pred = 4)

/-- The flag `new_entry`, tested on the provider after it was trained. -/
def newEntry (predict : Predictor) : Bool :=
  predict.primeBank < numTagTables && (predict.entry predict.primeBank).isNew

def updateAltBetterCount (predict : Predictor) (newEntry : Bool) (resolveDir : U64) : Predictor :=
  if newEntry then
    if predict.primePred ≠ predict.altPred then
      if predict.altPred = resolveDir then
        if predict.altBetterCount < 15 then
          { predict with altBetterCount := predict.altBetterCount + 1 }
        else predict
      else if predict.altBetterCount > 0 then
        { predict with altBetterCount := predict.altBetterCount - 1 }
      else predict
    else predict
  else predict

/-- The scan for `strong_old_present`. The test on `u` guards an empty
statement, so every bank it visits raises the flag. -/
def strongOldPresent (predict : Predictor) : Nat :=
  (List.range predict.primeBank).foldl (fun _ _ => 1) 0

/-- `u--` for the banks below the provider, from the nearest down to bank 0. -/
def ageEntries (predict : Predictor) : Predictor :=
  (List.range predict.primeBank).reverse.foldl (fun predict i =>
    predict.setEntry i { predict.entry i with u := (predict.entry i).u - 1 }) predict

/-- Bank `i` has an entry that may be replaced. -/
def Predictor.isFree (predict : Predictor) (i : Nat) : Bool := (predict.entry i).u = 0

/-- The local variables of the scan for free banks, with the indices of
`bank_store` that were written. The array of the source has three cells; here
every index has a cell. -/
structure BankScan where
  count : Nat
  bankStore : Nat → Int
  writes : List Nat

def BankScan.visit (predict : Predictor) (scan : BankScan) (i : Nat) : BankScan :=
  if predict.isFree i then
    { count := scan.count + 1
      bankStore := Function.update scan.bankStore i i
      writes := scan.writes ++ [i] }
  else scan

def scanBanks (predict : Predictor) : BankScan :=
  (List.range predict.primeBank).foldl (BankScan.visit predict)
    { count := 0, bankStore := fun _ => -1, writes := [] }

/-- The cell of `bank_store` that is read to choose a bank, if any. -/
def BankScan.readIndex (scan : BankScan) (randNo : Fin 100) : Option Nat :=
  if scan.count = 1 then some 0
  else if scan.count > 1 then
    if 33 < randNo.val ∧ randNo.val ≤ 99 then some (scan.count - 1) else some (scan.count - 2)
  else none

def BankScan.matchBank (scan : BankScan) (randNo : Fin 100) : Int :=
  match scan.readIndex randNo with
  | some i => scan.bankStore i
  | none => 0

/-- The downward loop: the first free bank from `matchBank` on. -/
def allocationBank (predict : Predictor) (matchBank : Int) : Option Nat :=
  (List.range (matchBank + 1).toNat).reverse.find? predict.isFree

/-- The entry that an allocation writes into bank `i`. -/
def Predictor.freshEntry (predict : Predictor) (resolveDir : U64) (i : Nat) : Component :=
  { pred := if resolveDir ≠ 0 then 4 else 3, tag := predict.tag i, u := 0 }

def allocateFrom (predict : Predictor) (resolveDir : U64) (matchBank : Int) : Predictor :=
  match allocationBank predict matchBank with
  | some i => predict.setEntry i (predict.freshEntry resolveDir i)
  | none => predict

/-- The guards around the allocation. -/
def wantsAllocation (predict : Predictor) (newEntry : Bool) (resolveDir predDir : U64) : Bool :=
  (!newEntry || (newEntry && predict.primePred ≠ resolveDir)) &&
    (predDir ≠ resolveDir && 0 < predict.primeBank)

def allocate (predict : Predictor) (newEntry : Bool) (resolveDir predDir : U64)
    (randNo : Fin 100) : Predictor :=
  if wantsAllocation predict newEntry resolveDir predDir then
    if strongOldPresent predict = 0 then ageEntries predict
    else allocateFrom predict resolveDir ((scanBanks predict).matchBank randNo)
  else predict

/-- `u = u & mask` for every entry of every table. -/
def maskUseful (predict : Predictor) (mask : Int) : Predictor :=
  { predict with
    tagPred := fun jj ii =>
      if jj < numTagTables ∧ ii < predict.numberTagEntries then
        { predict.tagPred jj ii with u := Int.land (predict.tagPred jj ii).u mask }
      else predict.tagPred jj ii }

def resetPeriod : Nat := 256 * 1024

def flipClock (predict : Predictor) : Predictor :=
  { predict with clock := 0, clockFlip := if predict.clockFlip = 1 then 0 else 1 }

/-- Half of the reset: the turn of the most significant bit when the flag is
set after its flip, and otherwise that of the least significant bit. -/
def resetUseful (predict : Predictor) : Predictor :=
  let predict := flipClock predict
  if predict.clockFlip = 1 then maskUseful predict 1 else maskUseful predict 2

def nextClock (predict : Predictor) : Nat := (predict.clock + 1) % 2 ^ 32

/-- The clock, and half of the reset whenever it reaches `resetPeriod`. -/
def tick (predict : Predictor) : Predictor :=
  if nextClock predict = resetPeriod then resetUseful predict
  else { predict with clock := nextClock predict }

/-- The tables and counters: everything before the histories. -/
def updateTables (predict : Predictor) (PC resolveDir predDir : U64) (randNo : Fin 100) :
    Predictor :=
  let predict := trainCounters predict PC resolveDir predDir
  let newEntry := newEntry predict
  let predict := updateAltBetterCount predict newEntry resolveDir
  let predict := allocate predict newEntry resolveDir predDir randNo
  tick predict

def updateHistories (predict : Predictor) (PC resolveDir : U64) : Predictor :=
  updatePhr (updateCompHist (updateGhr predict resolveDir)) PC

/-- `update_predictor`; the branch target is not used. -/
def updatePredictor (predict : Predictor) (PC resolveDir predDir _branchTarget : U64)
    (randNo : Fin 100) : Predictor :=
  updateHistories (updateTables predict PC resolveDir predDir randNo) PC resolveDir

/-- For a counter in its range the conversions are exact. -/
theorem incrementField_of_mem {x : Int} {maxVal : Nat} (hLow : 0 ≤ x) (hHigh : x ≤ maxVal)
    (hMax : maxVal < 2 ^ 31) : incrementField x maxVal = if x = maxVal then x else x + 1 := by
  obtain ⟨n, rfl⟩ := Int.eq_ofNat_of_zero_le hLow
  have hWord : toUInt64 n = n := by
    rw [toUInt64, Int.emod_eq_of_lt (by omega) (by omega), Int.toNat_natCast]
  have hBack (m : Nat) (hm : m < 2 ^ 31) : toInt32 m = m :=
    Int.bmod_eq_of_le (by omega) (by omega)
  rw [incrementField, hWord, satIncrement]
  by_cases hTop : n = maxVal
  · rw [if_pos (by omega), if_pos (by omega), hBack _ hMax, hTop]
  · rw [if_neg (by omega), if_neg (by omega), hBack _ (by omega)]
    rfl

theorem decrementField_of_mem {x : Int} (hLow : 0 ≤ x) (hHigh : x < 2 ^ 31) :
    decrementField x = if x = 0 then 0 else x - 1 := by
  obtain ⟨n, rfl⟩ := Int.eq_ofNat_of_zero_le hLow
  have hWord : toUInt64 n = n := by
    rw [toUInt64, Int.emod_eq_of_lt (by omega) (by omega), Int.toNat_natCast]
  have hBack (m : Nat) (hm : m < 2 ^ 31) : toInt32 m = m :=
    Int.bmod_eq_of_le (by omega) (by omega)
  rw [decrementField, hWord, satDecrement]
  by_cases hZero : n = 0
  · rw [if_pos hZero, if_pos (by omega), hBack _ (by omega)]
    rfl
  · rw [if_neg hZero, if_neg (by omega), hBack _ (by omega)]
    omega

/-- The flag is raised as soon as the scan visits a bank. -/
theorem strongOldPresent_eq (predict : Predictor) :
    strongOldPresent predict = if predict.primeBank = 0 then 0 else 1 := by
  unfold strongOldPresent
  cases predict.primeBank with
  | zero => rfl
  | succ n => simp [List.range_succ]

/-- The ageing branch is never taken: the guards ask for a bank to scan, and
scanning one raises the flag. -/
theorem allocate_eq (predict : Predictor) (newEntry : Bool) (resolveDir predDir : U64)
    (randNo : Fin 100) :
    allocate predict newEntry resolveDir predDir randNo =
      if wantsAllocation predict newEntry resolveDir predDir then
        allocateFrom predict resolveDir ((scanBanks predict).matchBank randNo)
      else predict := by
  unfold allocate
  by_cases hWants : wantsAllocation predict newEntry resolveDir predDir = true
  · have hBank : predict.primeBank ≠ 0 := by
      simp only [wantsAllocation, Bool.and_eq_true, decide_eq_true_eq] at hWants
      omega
    simp [hWants, strongOldPresent_eq, hBank]
  · simp [hWants]

section Frames

variable (predict : Predictor) (PC resolveDir predDir branchTarget : U64) (randNo : Fin 100)

theorem trainCounters_of_hit (hHit : predict.primeBank < numTagTables) :
    trainCounters predict PC resolveDir predDir =
      predict.setEntry predict.primeBank (trainedEntry predict resolveDir predDir) :=
  if_pos hHit

theorem trainCounters_of_miss (hMiss : ¬ predict.primeBank < numTagTables) :
    trainCounters predict PC resolveDir predDir =
      { predict with
        bimodal := Function.update predict.bimodal (predict.bimodalIndex PC)
          (trainBimodal (predict.bimodal (predict.bimodalIndex PC)) resolveDir) } :=
  if_neg hMiss

theorem trainCounters_frame :
    trainCounters predict PC resolveDir predDir =
      { predict with
        tagPred := (trainCounters predict PC resolveDir predDir).tagPred
        bimodal := (trainCounters predict PC resolveDir predDir).bimodal } := by
  unfold trainCounters
  split <;> rfl

theorem updateAltBetterCount_frame (newEntry : Bool) :
    updateAltBetterCount predict newEntry resolveDir =
      { predict with
        altBetterCount := (updateAltBetterCount predict newEntry resolveDir).altBetterCount } := by
  unfold updateAltBetterCount
  split_ifs <;> rfl

theorem allocate_frame (newEntry : Bool) :
    allocate predict newEntry resolveDir predDir randNo =
      { predict with
        tagPred := (allocate predict newEntry resolveDir predDir randNo).tagPred } := by
  rw [allocate_eq]
  unfold allocateFrom
  split
  · split <;> rfl
  · rfl

theorem tick_frame :
    tick predict =
      { predict with
        clock := (tick predict).clock
        clockFlip := (tick predict).clockFlip
        tagPred := (tick predict).tagPred } := by
  unfold tick resetUseful
  dsimp only
  split_ifs <;> rfl

theorem maskUseful_entry (mask : Int) (i j : Nat) :
    ((maskUseful predict mask).tagPred i j).pred = (predict.tagPred i j).pred ∧
      ((maskUseful predict mask).tagPred i j).tag = (predict.tagPred i j).tag := by
  simp only [maskUseful]
  constructor <;> split_ifs <;> rfl

/-- The reset changes nothing but useful counters in the tables. -/
theorem tick_entry (i j : Nat) :
    ((tick predict).tagPred i j).pred = (predict.tagPred i j).pred ∧
      ((tick predict).tagPred i j).tag = (predict.tagPred i j).tag := by
  simp only [tick, resetUseful]
  split_ifs
  · exact maskUseful_entry (flipClock predict) 1 i j
  · exact maskUseful_entry (flipClock predict) 2 i j
  · exact ⟨rfl, rfl⟩

/-- The first half of an update leaves the histories and the scratch fields of
the lookup as they are. -/
theorem updateTables_frame :
    updateTables predict PC resolveDir predDir randNo =
      { predict with
        tagPred := (updateTables predict PC resolveDir predDir randNo).tagPred
        bimodal := (updateTables predict PC resolveDir predDir randNo).bimodal
        altBetterCount := (updateTables predict PC resolveDir predDir randNo).altBetterCount
        clock := (updateTables predict PC resolveDir predDir randNo).clock
        clockFlip := (updateTables predict PC resolveDir predDir randNo).clockFlip } := by
  unfold updateTables
  dsimp only
  rw [tick_frame, allocate_frame, updateAltBetterCount_frame, trainCounters_frame]

/-- The second half writes the histories only. -/
theorem updateHistories_frame :
    updateHistories predict PC resolveDir =
      { predict with
        ghr := (updateHistories predict PC resolveDir).ghr
        phr := (updateHistories predict PC resolveDir).phr
        indexComp := (updateHistories predict PC resolveDir).indexComp
        tagComp := (updateHistories predict PC resolveDir).tagComp } := by
  unfold updateHistories
  rw [updateCompHist_eq]
  rfl

end Frames

end BranchPrediction.Tage
