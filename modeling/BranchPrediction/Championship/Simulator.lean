import BranchPrediction.Library.FoldRun

/-! The loop of `main.cc` of the championship simulator, which runs a predictor
over the branches of a trace. It calls the predictor by its interface alone. -/
namespace BranchPrediction.Championship

open FoldRun

abbrev U64 := BitVec 64

/-- `BrClass::Type`. -/
inductive BrType where
  | unknown
  | ret
  | jmp
  | call
deriving DecidableEq, Repr

inductive Directness where
  | unknown
  | direct
  | indirect
deriving DecidableEq, Repr

inductive Conditionality where
  | unknown
  | conditional
  | unconditional
deriving DecidableEq, Repr

structure BrClass where
  type : BrType
  directness : Directness
  conditionality : Conditionality
deriving DecidableEq, Repr

inductive OpType where
  | op
  | retUncond
  | jmpDirectUncond
  | jmpIndirectUncond
  | callDirectUncond
  | callIndirectUncond
  | retCond
  | jmpDirectCond
  | jmpIndirectCond
  | callDirectCond
  | callIndirectCond
  | error
  | max
deriving DecidableEq, Repr

/-- What the reader gives of one branch of the trace: its node and its edge. -/
structure Branch where
  brNodeIndex : Nat
  brVirtualAddr : U64
  brClass : BrClass
  isTakenPath : Bool
  brVirtualTarget : U64
deriving DecidableEq, Repr

/-- The inner `if` of every class, on the conditionality. -/
def Conditionality.choose (conditionality : Conditionality) (cond uncond : OpType) : OpType :=
  match conditionality with
  | .conditional => cond
  | .unconditional => uncond
  | .unknown => .error

/-- The first branch of a trace is not a real one and may have no type. -/
def Branch.opType (b : Branch) : OpType :=
  if b.brClass.type = .unknown ∧ b.brNodeIndex ≠ 0 then .error
  else if b.brClass.type = .ret then
    b.brClass.conditionality.choose .retCond .retUncond
  else if b.brClass.directness = .indirect then
    match b.brClass.type with
    | .call => b.brClass.conditionality.choose .callIndirectCond .callIndirectUncond
    | .jmp => b.brClass.conditionality.choose .jmpIndirectCond .jmpIndirectUncond
    | _ => .error
  else if b.brClass.directness = .direct then
    match b.brClass.type with
    | .call => b.brClass.conditionality.choose .callDirectCond .callDirectUncond
    | .jmp => b.brClass.conditionality.choose .jmpDirectCond .jmpDirectUncond
    | _ => .error
  else .error

/-- The interface of the class `PREDICTOR`. -/
structure PredictorClass (State : Type*) where
  init : State
  getPrediction : State → U64 → Bool × State
  updatePredictor : State → U64 → OpType → Bool → Bool → U64 → State
  trackOtherInst : State → U64 → OpType → Bool → U64 → State

/-- The variables of `main`. -/
structure Simulation (State : Type*) where
  brpred : State
  numIter : Nat
  numMispred : Nat
  condBranchInstructionCounter : Nat
  uncondBranchInstructionCounter : Nat

section Loop

variable {State : Type*} (P : PredictorClass State)

/-- Predict and update with a conditional branch. -/
def visit (brpred : State) (b : Branch) : State :=
  let (predDir, brpred) := P.getPrediction brpred b.brVirtualAddr
  P.updatePredictor brpred b.brVirtualAddr b.opType b.isTakenPath predDir b.brVirtualTarget

def mispredicts (brpred : State) (b : Branch) : Nat :=
  ((P.getPrediction brpred b.brVirtualAddr).1 != b.isTakenPath).toNat

/-- The body of the loop; the text is printed before `exit(-1)`. -/
def iteration (s : Simulation State) (b : Branch) : Except String (Simulation State) :=
  let s := { s with numIter := s.numIter + 1 }
  if b.opType = .error then
    if b.brNodeIndex ≠ 0 then .error "OPTYPE_ERROR" else .ok s
  else if b.brClass.conditionality = .conditional then
    .ok { s with
      brpred := visit P s.brpred b
      numMispred := s.numMispred + mispredicts P s.brpred b
      condBranchInstructionCounter := s.condBranchInstructionCounter + 1 }
  else if b.brClass.conditionality = .unconditional then
    .ok { s with
      brpred := P.trackOtherInst s.brpred b.brVirtualAddr b.opType b.isTakenPath b.brVirtualTarget
      uncondBranchInstructionCounter := s.uncondBranchInstructionCounter + 1 }
  else .error "CONDITIONALITY ERROR"

def Simulation.init : Simulation State where
  brpred := P.init
  numIter := 0
  numMispred := 0
  condBranchInstructionCounter := 0
  uncondBranchInstructionCounter := 0

def mainLoop (trace : List Branch) : Except String (Simulation State) :=
  trace.foldlM (iteration P) (Simulation.init P)

end Loop

section Classes

theorem Conditionality.choose_ne_error {conditionality : Conditionality} {cond uncond : OpType}
    (hChosen : conditionality.choose cond uncond ≠ .error) : conditionality ≠ .unknown := by
  rintro rfl
  exact hChosen rfl

/-- A branch that has an `OpType` has a conditionality. -/
theorem Branch.conditionality_of_opType {b : Branch} (hType : b.opType ≠ .error) :
    b.brClass.conditionality ≠ .unknown := by
  unfold Branch.opType at hType
  split_ifs at hType
  · exact absurd rfl hType
  · exact Conditionality.choose_ne_error hType
  · split at hType
    · exact Conditionality.choose_ne_error hType
    · exact Conditionality.choose_ne_error hType
    · exact absurd rfl hType
  · split at hType
    · exact Conditionality.choose_ne_error hType
    · exact Conditionality.choose_ne_error hType
    · exact absurd rfl hType
  · exact absurd rfl hType

/-- The loop stops at this branch. -/
def Branch.faulty (b : Branch) : Bool := decide (b.opType = .error ∧ b.brNodeIndex ≠ 0)

/-- The predictor is asked about this branch. -/
def Branch.predicted (b : Branch) : Bool :=
  decide (b.opType ≠ .error ∧ b.brClass.conditionality = .conditional)

/-- The predictor is told about this branch. -/
def Branch.tracked (b : Branch) : Bool :=
  decide (b.opType ≠ .error ∧ b.brClass.conditionality = .unconditional)

end Classes

section Runs

variable {State : Type*} (P : PredictorClass State)

/-- What the predictor makes of a branch. -/
def meet (brpred : State) (b : Branch) : State :=
  if b.predicted then visit P brpred b
  else if b.tracked then
    P.trackOtherInst brpred b.brVirtualAddr b.opType b.isTakenPath b.brVirtualTarget
  else brpred

def cost (brpred : State) (b : Branch) : Nat := if b.predicted then mispredicts P brpred b else 0

/-- What an iteration leaves of a branch that does not stop the loop. -/
def Simulation.next (s : Simulation State) (b : Branch) : Simulation State where
  brpred := meet P s.brpred b
  numIter := s.numIter + 1
  numMispred := s.numMispred + cost P s.brpred b
  condBranchInstructionCounter := s.condBranchInstructionCounter + b.predicted.toNat
  uncondBranchInstructionCounter := s.uncondBranchInstructionCounter + b.tracked.toNat

/-- The second `exit(-1)` is out of reach: a branch without a conditionality has
no type either. -/
theorem iteration_eq (s : Simulation State) (b : Branch) :
    iteration P s b = if b.faulty then .error "OPTYPE_ERROR" else .ok (s.next P b) := by
  by_cases hType : b.opType = .error
  · by_cases hNode : b.brNodeIndex = 0 <;>
      simp [iteration, Branch.faulty, Branch.predicted, Branch.tracked, Simulation.next, meet, cost,
        hType, hNode]
  · have hKnown := Branch.conditionality_of_opType hType
    cases hCond : b.brClass.conditionality with
    | unknown => exact absurd hCond hKnown
    | conditional | unconditional =>
        simp [iteration, Branch.faulty, Branch.predicted, Branch.tracked, Simulation.next, meet,
          cost, hType, hCond]

theorem foldlM_iteration (trace : List Branch) (s : Simulation State) :
    trace.foldlM (iteration P) s =
      if trace.any Branch.faulty then .error "OPTYPE_ERROR"
      else .ok (trace.foldl (Simulation.next P) s) := by
  induction trace generalizing s with
  | nil => rfl
  | cons b trace ih =>
      rw [List.foldlM_cons, iteration_eq, List.any_cons]
      cases hFault : b.faulty with
      | true => rfl
      | false =>
          rw [if_neg (by simp), Bool.false_or]
          exact ih (s.next P b)

theorem foldl_next (trace : List Branch) (s : Simulation State) :
    trace.foldl (Simulation.next P) s =
      { brpred := trace.foldl (meet P) s.brpred
        numIter := s.numIter + trace.length
        numMispred := s.numMispred + totalCost (meet P) (cost P) s.brpred trace
        condBranchInstructionCounter :=
          s.condBranchInstructionCounter + trace.countP Branch.predicted
        uncondBranchInstructionCounter :=
          s.uncondBranchInstructionCounter + trace.countP Branch.tracked } := by
  induction trace generalizing s with
  | nil => rfl
  | cons b trace ih =>
      have hBit (c : Bool) : (if c then 1 else 0) = c.toNat := by cases c <;> rfl
      rw [List.foldl_cons, ih, Simulation.mk.injEq]
      simp only [Simulation.next, List.foldl_cons, List.length_cons, totalCost, List.countP_cons,
        hBit, true_and]
      omega

/-- The simulator stops at a branch, other than the first node, that it cannot
classify. On any other trace it has predicted the conditional branches, and
counted its branches and what the predictor got wrong. -/
theorem simulation_eq (trace : List Branch) :
    mainLoop P trace =
      if trace.any Branch.faulty then .error "OPTYPE_ERROR"
      else .ok
        { brpred := trace.foldl (meet P) P.init
          numIter := trace.length
          numMispred := totalCost (meet P) (cost P) P.init trace
          condBranchInstructionCounter := trace.countP Branch.predicted
          uncondBranchInstructionCounter := trace.countP Branch.tracked } := by
  rw [mainLoop, foldlM_iteration, foldl_next]
  simp only [Simulation.init, Nat.zero_add]

end Runs

end BranchPrediction.Championship
