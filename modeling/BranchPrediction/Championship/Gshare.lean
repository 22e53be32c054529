import BranchPrediction.Championship.Simulator
import BranchPrediction.Library.CounterTable

/-! The predictor of `predictor_gshare.h`: one counter for each value of some bits
of the PC, exclusive or the latest outcomes. -/
namespace BranchPrediction.Championship

open CounterTable FoldRun

def phtCtrMax : Nat := 3

def phtCtrInit : Nat := 2

def histLen : Nat := 17

def satIncrement (x max : Nat) : Nat := if x < max then x + 1 else x

def satDecrement (x : Nat) : Nat := if x > 0 then x - 1 else x

/-- The members of the class. -/
structure Gshare where
  ghr : BitVec 32
  pht : Nat → Nat
  historyLength : Nat
  numPhtEntries : Nat

namespace Gshare

/-- The constructor. -/
def init : Gshare where
  ghr := 0
  pht := fun _ => phtCtrInit
  historyLength := histLen
  numPhtEntries := 1 <<< histLen

def phtIndex (g : Gshare) (PC : U64) : Nat := (PC ^^^ g.ghr.setWidth 64).toNat % g.numPhtEntries

def getPrediction (g : Gshare) (PC : U64) : Bool := decide (g.pht (g.phtIndex PC) > phtCtrMax / 2)

def updatePredictor (g : Gshare) (PC : U64) (resolveDir : Bool) : Gshare :=
  let phtIndex := g.phtIndex PC
  let phtCounter := g.pht phtIndex
  let pht := Function.update g.pht phtIndex
    (if resolveDir then satIncrement phtCounter phtCtrMax else satDecrement phtCounter)
  let ghr := g.ghr <<< 1
  { g with pht := pht, ghr := if resolveDir then ghr + 1#32 else ghr }

/-- The class, with the arguments that its functions do not use. -/
def predictor : PredictorClass Gshare where
  init := init
  getPrediction := fun g PC => (g.getPrediction PC, g)
  updatePredictor := fun g PC _ resolveDir _ _ => g.updatePredictor PC resolveDir
  trackOtherInst := fun g _ _ _ _ => g

end Gshare

section Keys

/-- The latest outcomes, the last one in bit 0; outcomes that have not been yet
count as not taken. -/
def latest (past : List Bool) : BitVec histLen :=
  (BitVec.ofBoolListLE (past.reverse.take histLen)).setWidth histLen

/-- The counter of a branch: the low bits of its PC with the latest outcomes. -/
def phtKey (past : List Bool) (PC : U64) : BitVec histLen := PC.setWidth histLen ^^^ latest past

/-- The conditional branches of a trace, by their counters. -/
def events (past : List Bool) : List Branch → List (Event (BitVec histLen))
  | [] => []
  | b :: trace =>
      if b.predicted then
        ⟨phtKey past b.brVirtualAddr, b.isTakenPath⟩ :: events (past ++ [b.isTakenPath]) trace
      else events past trace

def outcomes (trace : List Branch) : List Bool :=
  (trace.filter Branch.predicted).map Branch.isTakenPath

theorem getLsbD_latest (past : List Bool) {j : Nat} (hj : j < histLen) :
    (latest past).getLsbD j = past.reverse.getD j false := by
  simp only [latest, BitVec.getLsbD_setWidth, BitVec.getLsbD_ofBoolListLE, hj, decide_true,
    Bool.true_and]
  simp [List.getD_eq_getElem?_getD, hj]

end Keys

section Steps

theorem satIncrement_eq {x max : Nat} (hBelow : x ≤ max) : satIncrement x max = min (x + 1) max := by
  rw [satIncrement]
  split_ifs <;> omega

theorem satDecrement_eq (x : Nat) : satDecrement x = x - 1 := by
  rw [satDecrement]
  split_ifs <;> omega

theorem satTrain_eq {counter : Nat} (hCounter : counter ≤ phtCtrMax) (up : Bool) :
    (if up then satIncrement counter phtCtrMax else satDecrement counter) =
      SaturatingCounter.step 3 counter up := by
  rw [satIncrement_eq hCounter, satDecrement_eq]
  rfl

/-- The history register after an outcome. -/
theorem getLsbD_shiftIn (ghr : BitVec 32) (up : Bool) {j : Nat} (hj : j < 32) :
    (if up then ghr <<< 1 + 1#32 else ghr <<< 1).getLsbD j =
      if j = 0 then up else ghr.getLsbD (j - 1) := by
  have hDisjoint : ghr <<< 1 &&& 1#32 = 0#32 := by
    apply BitVec.eq_of_getLsbD_eq
    intro i hi
    rw [BitVec.getLsbD_and, BitVec.getLsbD_shiftLeft, BitVec.getLsbD_one]
    by_cases hZero : i = 0 <;> simp [hZero]
  cases up with
  | false =>
      rw [if_neg (by simp), BitVec.getLsbD_shiftLeft]
      by_cases hZero : j = 0 <;> simp [hZero, hj]
  | true =>
      rw [if_pos rfl, BitVec.add_eq_or_of_and_eq_zero _ _ hDisjoint, BitVec.getLsbD_or,
        BitVec.getLsbD_shiftLeft, BitVec.getLsbD_one]
      by_cases hZero : j = 0 <;> simp [hZero, hj]

/-- The table of the code is a table of counters by key. -/
structure Represents (past : List Bool) (counter : BitVec histLen → Nat) (g : Gshare) : Prop where
  entries : g.numPhtEntries = 2 ^ histLen
  pht : ∀ k : BitVec histLen, g.pht k.toNat = counter k
  bound : ∀ k, counter k ≤ phtCtrMax
  ghr : ∀ j < histLen, g.ghr.getLsbD j = past.reverse.getD j false

variable {past : List Bool} {counter : BitVec histLen → Nat} {g : Gshare}

theorem represents_init : Represents [] (fun _ => phtCtrInit) Gshare.init where
  entries := rfl
  pht := fun _ => rfl
  bound := fun _ => Nat.le_succ phtCtrInit
  ghr := fun j _ => by simp [Gshare.init]

theorem Represents.phtIndex (h : Represents past counter g) (PC : U64) :
    g.phtIndex PC = (phtKey past PC).toNat := by
  have hBits : (PC ^^^ g.ghr.setWidth 64).setWidth histLen = phtKey past PC := by
    apply BitVec.eq_of_getLsbD_eq
    intro j hj
    have hWide : j < 64 := Nat.lt_trans hj (by decide)
    rw [phtKey, BitVec.getLsbD_xor, BitVec.getLsbD_setWidth, BitVec.getLsbD_setWidth,
      BitVec.getLsbD_xor, BitVec.getLsbD_setWidth, getLsbD_latest past hj, h.ghr j hj]
    simp [hj, hWide]
  rw [Gshare.phtIndex, h.entries, ← BitVec.toNat_setWidth, hBits]

theorem Represents.getPrediction (h : Represents past counter g) (PC : U64) :
    g.getPrediction PC = guess 2 counter (phtKey past PC) := by
  rw [Gshare.getPrediction, h.phtIndex, h.pht]
  rfl

/-- An update trains the counter of the branch and records the outcome. -/
theorem Represents.updatePredictor (h : Represents past counter g) (PC : U64) (up : Bool) :
    Represents (past ++ [up]) (train 2 counter ⟨phtKey past PC, up⟩) (g.updatePredictor PC up) where
  entries := h.entries
  pht := by
    intro k
    simp only [Gshare.updatePredictor, h.phtIndex, h.pht, satTrain_eq (h.bound _)]
    by_cases hk : k = phtKey past PC
    · subst k
      rw [train, Function.update_self, Function.update_self]
    · have hIndex : k.toNat ≠ (phtKey past PC).toNat := fun hSame => hk (BitVec.eq_of_toNat_eq hSame)
      rw [train, Function.update_of_ne hIndex, Function.update_of_ne hk, h.pht]
  bound := fun k => train_le h.bound _ k
  ghr := by
    intro j hj
    have hWide : j < 32 := Nat.lt_trans hj (by decide)
    rw [List.reverse_append, List.reverse_singleton, List.singleton_append]
    simp only [Gshare.updatePredictor]
    rw [getLsbD_shiftIn _ _ hWide]
    cases j with
    | zero => rfl
    | succ j =>
        rw [if_neg (Nat.succ_ne_zero j), Nat.add_sub_cancel, h.ghr j (Nat.lt_of_succ_lt hj)]
        rfl

/-- What the simulator makes of the predictor and what it counts, by keys. -/
theorem Represents.run (h : Represents past counter g) (trace : List Branch) :
    Represents (past ++ outcomes trace) ((events past trace).foldl (train 2) counter)
        (trace.foldl (meet Gshare.predictor) g) ∧
      totalCost (meet Gshare.predictor) (cost Gshare.predictor) g trace =
        totalCost (train 2) (wrong 2) counter (events past trace) := by
  induction trace generalizing past counter g with
  | nil =>
      refine ⟨?_, rfl⟩
      simpa [outcomes, events] using h
  | cons b trace ih =>
      cases hPredicted : b.predicted with
      | true =>
          have hNext : Represents (past ++ [b.isTakenPath])
              (train 2 counter ⟨phtKey past b.brVirtualAddr, b.isTakenPath⟩)
              (meet Gshare.predictor g b) := by
            rw [meet, hPredicted, if_pos rfl]
            exact h.updatePredictor b.brVirtualAddr b.isTakenPath
          have hCost : cost Gshare.predictor g b =
              wrong 2 counter ⟨phtKey past b.brVirtualAddr, b.isTakenPath⟩ := by
            rw [cost, hPredicted, if_pos rfl, mispredicts, wrong, ← h.getPrediction]
            rfl
          obtain ⟨hRun, hTotal⟩ := ih hNext
          have hOutcomes : past ++ outcomes (b :: trace) =
              past ++ [b.isTakenPath] ++ outcomes trace := by
            simp [outcomes, hPredicted]
          rw [events, hPredicted, if_pos rfl, List.foldl_cons, List.foldl_cons, totalCost, totalCost,
            hOutcomes, hTotal, hCost]
          exact ⟨hRun, rfl⟩
      | false =>
          have hMeet : meet Gshare.predictor g b = g := by
            rw [meet, hPredicted, if_neg (by simp)]
            exact ite_self g
          have hCost : cost Gshare.predictor g b = 0 := by
            rw [cost, hPredicted, if_neg (by simp)]
          obtain ⟨hRun, hTotal⟩ := ih h
          have hOutcomes : outcomes (b :: trace) = outcomes trace := by
            simp [outcomes, hPredicted]
          rw [events, hPredicted, if_neg (by simp), List.foldl_cons, totalCost, hMeet, hCost,
            hOutcomes, hTotal, Nat.zero_add]
          exact ⟨hRun, rfl⟩

end Steps

/-- The predictor keeps no more of a trace than what each counter has seen: it
predicts by the outcomes of the earlier branches with the same low bits of the PC
and the same latest outcomes. -/
theorem gshare_prediction (trace : List Branch) (PC : U64) :
    (trace.foldl (meet Gshare.predictor) Gshare.init).getPrediction PC =
      decide (2 ≤ SaturatingCounter.run 3 2
        (((events [] trace).filter fun e => e.key = phtKey (outcomes trace) PC).map Event.up)) := by
  have hEnd := (represents_init.run trace).1
  rw [hEnd.getPrediction, guess, foldl_train, List.nil_append]
  rfl

/-- Whatever function of the low bits of the PC and of the latest outcomes is taken
for a forecast, the predictor is wrong at most twice as often, and once more for
each counter that it uses where the forecast is not taken. -/
theorem gshare_mispredictions_le (forecast : BitVec histLen → Bool) (trace : List Branch)
    (s : Simulation Gshare) (hRun : mainLoop Gshare.predictor trace = .ok s) :
    s.numMispred ≤
      (((events [] trace).map Event.key).toFinset.filter fun k => forecast k = false).card +
        2 * (events [] trace).countP fun e => e.up != forecast e.key := by
  have hCost : s.numMispred =
      totalCost (meet Gshare.predictor) (cost Gshare.predictor) Gshare.init trace := by
    rw [mainLoop, foldlM_iteration, foldl_next] at hRun
    split_ifs at hRun
    rw [← Except.ok.inj hRun]
    exact Nat.zero_add _
  have hKeys : ∀ e ∈ events [] trace, e.key ∈ ((events [] trace).map Event.key).toFinset :=
    fun e he => List.mem_toFinset.mpr (List.mem_map_of_mem he)
  have hBound : ∀ k : BitVec histLen, (fun _ => phtCtrInit) k ≤ 2 * 2 - 1 :=
    represents_init.bound
  have hStart (keys : Finset (BitVec histLen)) :
      totalDebt 2 keys (fun _ => phtCtrInit) forecast =
        (keys.filter fun k => forecast k = false).card := by
    rw [totalDebt, Finset.card_filter]
    refine Finset.sum_congr rfl fun k _ => ?_
    cases forecast k <;> rfl
  rw [hCost, (represents_init.run trace).2, ← hStart]
  exact totalCost_wrong_le forecast Nat.two_pos hBound hKeys

/-- A conditional jump that is never taken. -/
def neverTaken : List Branch :=
  List.replicate 8 ⟨1, 64, ⟨.jmp, .direct, .conditional⟩, false, 68⟩

theorem gshare_mispredictions_le_neverTaken :
    ∃ s, mainLoop Gshare.predictor neverTaken = .ok s ∧ s.numMispred ≤ 1 := by
  obtain ⟨s, hRun⟩ : ∃ s, mainLoop Gshare.predictor neverTaken = .ok s :=
    ⟨_, (foldlM_iteration Gshare.predictor neverTaken _).trans (if_neg (by decide))⟩
  exact ⟨s, hRun, (gshare_mispredictions_le (fun _ => false) neverTaken s hRun).trans (by decide)⟩

end BranchPrediction.Championship
