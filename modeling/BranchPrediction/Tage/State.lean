import Mathlib

/-! The data of the TAGE predictor, after `common_var.h` and the set-up code of
`main` in `predictor.c` (the same code is `initTagePredictor` in the shared
memory server). A C array is a total function on `Nat`; which cells really
exist is stated where it matters. Words that are hashed keep their width, and
bank numbers and counters are natural numbers. -/
namespace BranchPrediction.Tage

abbrev U8 := BitVec 8
abbrev U32 := BitVec 32
abbrev U64 := BitVec 64

abbrev numTagTables : Nat := 4
abbrev bimodalLog : Nat := 14
abbrev tagPredLog : Nat := 12
abbrev ghrLength : Nat := 131
abbrev bimodalCtrMax : Nat := 3
abbrev bimodalCtrInit : Nat := 2
abbrev tagPredCtrMax : Nat := 7

/-- One entry of a tagged table. `pred` and `u` are `int32_t`. -/
structure Component where
  pred : Int
  tag : U32
  u : Int
deriving DecidableEq, Repr

/-- A folded history register: `compHist` holds the last `geomLength` outcomes
folded onto `targetLength` bits. -/
structure CompressedHist where
  geomLength : Nat
  targetLength : Nat
  compHist : U64
deriving DecidableEq, Repr

/-- `struct predictor`, without the fields that no function reads
(`historyLength`, `bimodalLog`, `tagPredLog`). Cell 131 of `ghr` is past the
end of the C array and is padding of the struct. -/
structure Predictor where
  ghr : Nat → U8
  phr : U64
  bimodal : Nat → Nat
  numBimodalEntries : Nat
  tagPred : Nat → Nat → Component
  numberTagEntries : Nat
  geometric : Nat → Nat
  indexComp : Nat → CompressedHist
  tagComp : Nat → Nat → CompressedHist
  primePred : U64
  altPred : U64
  primeBank : Nat
  altBank : Nat
  indexTagPred : Nat → U32
  tag : Nat → U32
  clock : Nat
  clockFlip : Nat
  altBetterCount : Nat

namespace Predictor

/-- The entry of bank `i` that the last lookup selected. -/
def entry (predict : Predictor) (i : Nat) : Component :=
  predict.tagPred i (predict.indexTagPred i).toNat

/-- Write the entry of bank `i` that the last lookup selected. -/
def setEntry (predict : Predictor) (i : Nat) (e : Component) : Predictor :=
  { predict with
    tagPred := Function.update predict.tagPred i
      (Function.update (predict.tagPred i) (predict.indexTagPred i).toNat e) }

end Predictor

/-- History lengths, the longest in bank 0. -/
def geometricLength : Nat → Nat
  | 0 => 130
  | 1 => 44
  | 2 => 15
  | 3 => 5
  | _ => 0

/-- The two tag registers of a bank are folded onto 9 and onto 8 bits. -/
def tagTargetLength (j : Nat) : Nat := if j = 0 then 9 else 8

def initTagePredictor : Predictor where
  ghr := fun _ => 0
  phr := 0
  bimodal := fun _ => bimodalCtrInit
  numBimodalEntries := 1 <<< bimodalLog
  tagPred := fun _ _ => { pred := 0, tag := 0, u := 0 }
  numberTagEntries := 1 <<< tagPredLog
  geometric := geometricLength
  indexComp := fun i =>
    { geomLength := geometricLength i, targetLength := tagPredLog, compHist := 0 }
  tagComp := fun j i =>
    { geomLength := geometricLength i, targetLength := tagTargetLength j, compHist := 0 }
  primePred := -1
  altPred := -1
  primeBank := numTagTables
  altBank := numTagTables
  indexTagPred := fun _ => 0
  tag := fun _ => 0
  clock := 0
  clockFlip := 1
  altBetterCount := 8

/-- One record of the trace with the value `rand() % 100` drawn if the update
allocates. -/
structure Record where
  PC : U64
  branchTarget : U64
  resolveDir : U64
  randNo : Fin 100

end BranchPrediction.Tage
