import BranchPrediction.Library.ArrayLoops
import BranchPrediction.Tage.State

/-! `get_prediction.h`: the hashes, the search for a matching bank and the
choice of the prediction. -/
namespace BranchPrediction.Tage

open ArrayLoops

/-- A truth value stored in a `uint64_t`. -/
def boolWord (b : Bool) : U64 := if b then 1 else 0

theorem boolWord_mem (b : Bool) : boolWord b = 0 ∨ boolWord b = 1 := by
  cases b
  · exact Or.inl rfl
  · exact Or.inr rfl

theorem boolWord_inj {a b : Bool} : boolWord a = boolWord b ↔ a = b := by
  cases a <;> cases b <;> decide

namespace Predictor

def bimodalIndex (tage : Predictor) (PC : U64) : Nat := PC.toNat % tage.numBimodalEntries

def basePrediction (tage : Predictor) (PC : U64) : Bool :=
  tage.bimodal (tage.bimodalIndex PC) > bimodalCtrMax / 2

/-- `tag[i]` after the mask to nine bits. -/
def tagHash (tage : Predictor) (PC : U64) (i : Nat) : U32 :=
  (PC ^^^ (tage.tagComp 0 i).compHist ^^^ ((tage.tagComp 1 i).compHist <<< 1)).setWidth 32 &&&
    ((1#32 <<< 9) - 1#32)

/-- The hash that is stored in `indexTagPred[i]` before it is masked. -/
def indexHash (tage : Predictor) (PC : U64) : Nat → U64
  | 0 => PC ^^^ (PC >>> tagPredLog) ^^^ (tage.indexComp 0).compHist ^^^ tage.phr ^^^
      (tage.phr >>> tagPredLog)
  | 1 => PC ^^^ (PC >>> (tagPredLog - 1)) ^^^ (tage.indexComp 1).compHist ^^^ tage.phr
  | 2 => PC ^^^ (PC >>> (tagPredLog - 2)) ^^^ (tage.indexComp 2).compHist ^^^ (tage.phr &&& 31)
  | 3 => PC ^^^ (PC >>> (tagPredLog - 3)) ^^^ (tage.indexComp 3).compHist ^^^ (tage.phr &&& 7)
  | _ => 0

/-- `indexTagPred[i]` after `index_mask`. -/
def tableIndex (tage : Predictor) (PC : U64) (i : Nat) : U32 :=
  (tage.indexHash PC i).setWidth 32 &&& ((1#32 <<< tagPredLog) - 1#32)

end Predictor

/-- `pred >= TAGPRED_CTR_MAX/2`. -/
def Component.direction (e : Component) : Bool := e.pred ≥ (tagPredCtrMax / 2 : Nat)

/-- The assignments to the scratch fields before the banks are searched. -/
def hashPC (tage : Predictor) (PC : U64) : Predictor :=
  { tage with
    tag := tage.tagHash PC
    indexTagPred := tage.tableIndex PC
    primePred := -1
    altPred := -1 }

/-- Bank `i` matches: the selected entry carries the computed tag. -/
def Predictor.hits (tage : Predictor) (i : Nat) : Bool := (tage.entry i).tag = tage.tag i

/-- The two searches, for the provider and for the next matching bank. -/
def findBanks (tage : Predictor) : Predictor :=
  let primeBank := firstHit tage.hits 0 numTagTables
  { tage with
    primeBank := primeBank
    altBank := firstHit tage.hits (primeBank + 1) numTagTables }

def lookup (tage : Predictor) (PC : U64) : Predictor := findBanks (hashPC tage PC)

def getPrediction (tage : Predictor) (PC : U64) : U64 × Predictor :=
  let basePrediction := tage.basePrediction PC
  let tage := lookup tage PC
  if tage.primeBank < numTagTables then
    let altPred :=
      if tage.altBank = numTagTables then boolWord basePrediction
      else boolWord (tage.entry tage.altBank).direction
    let prime := tage.entry tage.primeBank
    if prime.pred ≠ 3 ∨ prime.pred ≠ 4 ∨ prime.u ≠ 0 ∨ tage.altBetterCount < 8 then
      let primePred := boolWord prime.direction
      (primePred, { tage with altPred := altPred, primePred := primePred })
    else
      (altPred, { tage with altPred := altPred })
  else
    (boolWord basePrediction, { tage with altPred := boolWord basePrediction })

section Lookup

variable (tage : Predictor) (PC : U64)

/-- The direction of the alternate prediction: the next matching bank, or the
bimodal table when there is none. -/
def alternateDirection : Bool :=
  if (lookup tage PC).altBank = numTagTables then tage.basePrediction PC
  else ((lookup tage PC).entry (lookup tage PC).altBank).direction

/-- The direction of the provider entry. -/
def providerDirection : Bool :=
  ((lookup tage PC).entry (lookup tage PC).primeBank).direction

theorem lookup_primeBank_le : (lookup tage PC).primeBank ≤ numTagTables :=
  firstHit_le _ _ _

theorem lookup_altBank_le : (lookup tage PC).altBank ≤ numTagTables :=
  firstHit_le _ _ _

/-- The second search starts after the provider. -/
theorem lookup_primeBank_lt_altBank (hHit : (lookup tage PC).primeBank < numTagTables) :
    (lookup tage PC).primeBank < (lookup tage PC).altBank := by
  by_cases hAlt : (lookup tage PC).altBank < numTagTables
  · exact (firstHit_spec hAlt).1
  · omega

theorem lookup_altBank_of_miss (hMiss : ¬ (lookup tage PC).primeBank < numTagTables) :
    (lookup tage PC).altBank = numTagTables := by
  apply firstHit_eq_stop_iff.mpr
  intro i hStart hStop
  have hEnd : (lookup tage PC).primeBank + 1 ≤ i := hStart
  omega

/-- No bank matches. -/
theorem lookup_miss_iff :
    ¬ (lookup tage PC).primeBank < numTagTables ↔
      ∀ i < numTagTables, (hashPC tage PC).hits i = false := by
  have hLe := lookup_primeBank_le tage PC
  have hIff : (lookup tage PC).primeBank = numTagTables ↔
      ∀ i, 0 ≤ i → i < numTagTables → (hashPC tage PC).hits i = false := firstHit_eq_stop_iff
  constructor
  · intro hMiss i hi
    exact hIff.mp (by omega) i (Nat.zero_le i) hi
  · intro hNone
    have hEnd := hIff.mpr fun i _ hi => hNone i hi
    omega

/-- The guard of the choice joins `pred != 3` and `pred != 4` by "or", so it
holds of every entry and a provider always gives the prediction. -/
theorem getPrediction_fst :
    (getPrediction tage PC).1 =
      boolWord (if (lookup tage PC).primeBank < numTagTables then providerDirection tage PC
        else tage.basePrediction PC) := by
  have hGuard (e : Component) (P : Prop) : e.pred ≠ 3 ∨ e.pred ≠ 4 ∨ P := by omega
  by_cases hHit : (lookup tage PC).primeBank < numTagTables
  · simp only [getPrediction, if_pos hHit, if_pos (hGuard _ _), providerDirection]
  · simp only [getPrediction, if_neg hHit]

/-- A lookup writes the scratch fields only. -/
theorem getPrediction_snd :
    (getPrediction tage PC).2 =
      { lookup tage PC with
        altPred := boolWord (alternateDirection tage PC)
        primePred := if (lookup tage PC).primeBank < numTagTables then
          boolWord (providerDirection tage PC) else -1 } := by
  have hGuard (e : Component) (P : Prop) : e.pred ≠ 3 ∨ e.pred ≠ 4 ∨ P := by omega
  by_cases hHit : (lookup tage PC).primeBank < numTagTables
  · simp only [getPrediction, if_pos hHit, if_pos (hGuard _ _), providerDirection,
      alternateDirection, apply_ite boolWord]
  · simp only [getPrediction, if_neg hHit, alternateDirection,
      if_pos (lookup_altBank_of_miss tage PC hHit)]
    rfl

end Lookup

end BranchPrediction.Tage
