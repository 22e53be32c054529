import BranchPrediction.Library.FoldRun
import BranchPrediction.Tage.UpdatePredictor

/-! The main loop of `predictor.c`: each record is predicted, the predictor is
updated, and the good predictions are counted. -/
namespace BranchPrediction.Tage

/-- The smallest random number, for runs on fixed inputs. -/
def leastRand : Fin 100 := 0

/-- `get_prediction` followed by `update_predictor` on one record. -/
def stepRecord (predict : Predictor) (r : Record) : Predictor :=
  let (predDir, predict) := getPrediction predict r.PC
  updatePredictor predict r.PC r.resolveDir predDir r.branchTarget r.randNo

def runRecords (predict : Predictor) (records : List Record) : Predictor :=
  records.foldl stepRecord predict

/-- The variables of the loop. The `double` counters hold natural numbers far
below `2 ^ 53`, where they are exact. -/
structure Session where
  predictor : Predictor
  iCount : Nat
  tagePred : Nat

def Session.init : Session :=
  { predictor := initTagePredictor, iCount := 0, tagePred := 0 }

/-- The body of the loop. -/
def Session.consume (s : Session) (r : Record) : Session :=
  { predictor := stepRecord s.predictor r
    iCount := s.iCount + 1
    tagePred :=
      if (getPrediction s.predictor r.PC).1 = r.resolveDir then s.tagePred + 1 else s.tagePred }

/-- The loop of `main`, which stops at the end of the file or at the limit
given on the command line. -/
def mainLoop (limit : Int) (s : Session) : List Record → Session
  | [] => s
  | r :: records => if (s.iCount : Int) < limit then mainLoop limit (s.consume r) records else s

/-- The loop takes one record more as long as it is below its limit. -/
theorem mainLoop_concat {limit : Int} {s : Session} {records : List Record} (r : Record)
    (hBelow : ((mainLoop limit s records).iCount : Int) < limit) :
    mainLoop limit s (records ++ [r]) = (mainLoop limit s records).consume r := by
  induction records generalizing s with
  | nil => exact if_pos hBelow
  | cons first rest ih =>
      by_cases hFirst : (s.iCount : Int) < limit
      · rw [mainLoop, if_pos hFirst] at hBelow
        rw [List.cons_append, mainLoop, mainLoop, if_pos hFirst, if_pos hFirst, ih hBelow]
      · rw [mainLoop, if_neg hFirst] at hBelow
        exact absurd hBelow hFirst

/-- At its limit the loop takes no more records. -/
theorem mainLoop_append {limit : Int} {s : Session} {records : List Record} (more : List Record)
    (hReached : limit ≤ (mainLoop limit s records).iCount) :
    mainLoop limit s (records ++ more) = mainLoop limit s records := by
  induction records generalizing s with
  | nil =>
      have hStop : ¬ (s.iCount : Int) < limit := Int.not_lt.mpr hReached
      cases more with
      | nil => rfl
      | cons r more => exact if_neg hStop
  | cons first rest ih =>
      rw [List.cons_append, mainLoop, mainLoop]
      by_cases hFirst : (s.iCount : Int) < limit
      · rw [mainLoop, if_pos hFirst] at hReached
        rw [if_pos hFirst, if_pos hFirst, ih hReached]
      · rw [if_neg hFirst, if_neg hFirst]

/-- The loop runs on the records up to its limit. -/
theorem mainLoop_eq (limit : Int) (s : Session) (records : List Record) :
    mainLoop limit s records =
      (records.take (limit - s.iCount).toNat).foldl Session.consume s := by
  induction records generalizing s with
  | nil => rw [List.take_nil]; rfl
  | cons r rest ih =>
      by_cases hBelow : (s.iCount : Int) < limit
      · have hRest : (limit - s.iCount).toNat = (limit - (s.consume r).iCount).toNat + 1 := by
          simp only [Session.consume]
          omega
        rw [mainLoop, if_pos hBelow, ih, hRest, List.take_succ_cons, List.foldl_cons]
      · have hNone : (limit - s.iCount).toNat = 0 := by omega
        rw [mainLoop, if_neg hBelow, hNone]
        rfl

/-- The prediction of a record differs from its outcome. -/
def mispredicts (predict : Predictor) (r : Record) : Bool :=
  (getPrediction predict r.PC).1 ≠ r.resolveDir

/-- The number of mispredicted records of a run. -/
def mispredictions (predict : Predictor) (records : List Record) : Nat :=
  FoldRun.totalCost stepRecord (fun predict r => (mispredicts predict r).toNat) predict records

/-- The outcome that the histories record. -/
def Record.taken (r : Record) : Bool := r.resolveDir = 1

/-- The outcome is 0 or 1, as in every trace that the helper writes. -/
def Record.IsBranch (r : Record) : Prop := r.resolveDir = 0 ∨ r.resolveDir = 1

/-- The bit of the PC that enters the path register. -/
def Record.pathBit (r : Record) : Bool := r.PC.getLsbD 0

end BranchPrediction.Tage
