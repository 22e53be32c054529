import BranchPrediction.Library.ArrayLoops
import BranchPrediction.Library.CyclicFold
import BranchPrediction.Tage.State

/-! The history registers: `compute_history` of `common_var.h` and the end of
`update_predictor` (the global history, the folded registers and the path
register). -/
namespace BranchPrediction.Tage

open CyclicFold

/-- The body shared by both branches of `compute_history`. -/
def CompressedHist.computeHistory (ghr : Nat → U8) (c : CompressedHist) : CompressedHist :=
  let mask : U64 := (1#64 <<< c.targetLength) - 1#64
  let mask1 : U64 := (ghr c.geomLength).setWidth 64 <<< (c.geomLength % c.targetLength)
  let mask2 : U64 := 1#64 <<< c.targetLength
  let inserted := (c.compHist <<< 1) + (ghr 0).setWidth 64
  let wrapped := inserted ^^^ ((inserted &&& mask2) >>> c.targetLength)
  { c with compHist := (wrapped ^^^ mask1) &&& mask }

/-- `compute_history`: a column past the banks selects the index registers. -/
def computeHistory (predict : Predictor) (row col : Nat) : Predictor :=
  if col = numTagTables + 1 then
    { predict with
      indexComp := Function.update predict.indexComp row
        ((predict.indexComp row).computeHistory predict.ghr) }
  else
    { predict with
      tagComp := Function.update predict.tagComp row
        (Function.update (predict.tagComp row) col
          ((predict.tagComp row col).computeHistory predict.ghr)) }

/-- The shifting loop over `ghr`. -/
def shiftGhr (ghr : Nat → U8) : Nat → U8 :=
  (List.range ghrLength).foldl (fun ghr kk => Function.update ghr (kk + 1) (ghr kk)) ghr

def updateGhr (predict : Predictor) (resolveDir : U64) : Predictor :=
  { predict with
    ghr := Function.update (shiftGhr predict.ghr) 0 (if resolveDir = 1 then 1 else 0) }

def updateCompHist (predict : Predictor) : Predictor :=
  (List.range numTagTables).foldl (fun predict i =>
    computeHistory (computeHistory (computeHistory predict i (numTagTables + 1)) 0 i) 1 i) predict

def updatePhr (predict : Predictor) (PC : U64) : Predictor :=
  let phr := predict.phr <<< 1
  let phr := if PC &&& 1#64 ≠ 0 then phr + 1#64 else phr
  { predict with phr := phr &&& ((1#64 <<< 16) - 1#64) }

/-- The shift runs upwards in place, so it leaves copies of the newest outcome
in every older cell. -/
theorem shiftGhr_apply (ghr : Nat → U8) (k : Nat) :
    shiftGhr ghr k = if k ≤ ghrLength then ghr 0 else ghr k :=
  ArrayLoops.copyUp_apply ghrLength ghr k

theorem updateGhr_zero (predict : Predictor) (resolveDir : U64) :
    (updateGhr predict resolveDir).ghr 0 = if resolveDir = 1 then 1 else 0 := by
  simp [updateGhr]

theorem updateGhr_succ (predict : Predictor) (resolveDir : U64) {k : Nat} (hk : k < ghrLength) :
    (updateGhr predict resolveDir).ghr (k + 1) = predict.ghr 0 := by
  have hRange : k + 1 ≤ ghrLength := hk
  simp [updateGhr, shiftGhr_apply, hRange]

theorem computeHistory_index (predict : Predictor) (row : Nat) :
    computeHistory predict row (numTagTables + 1) =
      { predict with
        indexComp := Function.update predict.indexComp row
          ((predict.indexComp row).computeHistory predict.ghr) } := by
  rw [computeHistory, if_pos rfl]

theorem computeHistory_tag (predict : Predictor) (row : Nat) {col : Nat}
    (hCol : col < numTagTables) :
    computeHistory predict row col =
      { predict with
        tagComp := Function.update predict.tagComp row
          (Function.update (predict.tagComp row) col
            ((predict.tagComp row col).computeHistory predict.ghr)) } := by
  rw [computeHistory, if_neg (by simp only [numTagTables] at hCol ⊢; omega)]

/-- The loop over the banks applies `compute_history` once to each of the
twelve registers and changes nothing else. -/
theorem updateCompHist_eq (predict : Predictor) :
    updateCompHist predict =
      { predict with
        indexComp := fun i =>
          if i < numTagTables then (predict.indexComp i).computeHistory predict.ghr
          else predict.indexComp i
        tagComp := fun j i =>
          if j < 2 ∧ i < numTagTables then (predict.tagComp j i).computeHistory predict.ghr
          else predict.tagComp j i } := by
  have hRange : List.range numTagTables = [0, 1, 2, 3] := rfl
  rw [updateCompHist, hRange]
  have h0 : 0 < numTagTables := by decide
  have h1 : 1 < numTagTables := by decide
  have h2 : 2 < numTagTables := by decide
  have h3 : 3 < numTagTables := by decide
  simp only [List.foldl_cons, List.foldl_nil, computeHistory_index, computeHistory_tag _ _ h0,
    computeHistory_tag _ _ h1, computeHistory_tag _ _ h2, computeHistory_tag _ _ h3]
  congr 1
  · funext i
    rcases i with _ | _ | _ | _ | i <;> simp [Function.update, numTagTables]
  · funext j i
    rcases j with _ | _ | j <;> rcases i with _ | _ | _ | _ | i <;> simp [Function.update, numTagTables]

/-- A cell of `ghr` that holds an outcome. -/
def outcomeCell (b : Bool) : U8 := if b then 1 else 0

theorem getLsbD_outcomeCell (b : Bool) (k : Nat) :
    ((outcomeCell b).setWidth 64).getLsbD k = (b && decide (k = 0)) := by
  cases b
  · simp [outcomeCell]
  · have hOne : (1#8).setWidth 64 = 1#64 := by decide
    simp [outcomeCell, hOne, BitVec.getLsbD_one]

/-- An outcome that is shifted to position `m`. -/
theorem getLsbD_outcomeCell_shiftLeft {b : Bool} {m : Nat} (hm : m < 64) (k : Nat) :
    ((outcomeCell b).setWidth 64 <<< m).getLsbD k = (b && decide (m = k)) := by
  rw [BitVec.getLsbD_shiftLeft, getLsbD_outcomeCell, Bool.eq_iff_iff]
  simp only [Bool.and_eq_true, Bool.not_eq_true', decide_eq_true_eq, decide_eq_false_iff_not]
  constructor
  · rintro ⟨⟨_, hGe⟩, hBit, hEq⟩
    exact ⟨hBit, by omega⟩
  · rintro ⟨hBit, rfl⟩
    exact ⟨⟨hm, Nat.lt_irrefl m⟩, hBit, Nat.sub_self m⟩

theorem getLsbD_one_shiftLeft {w T : Nat} (hT : T < w) (k : Nat) :
    (1#w <<< T).getLsbD k = decide (k = T) := by
  rw [BitVec.getLsbD_shiftLeft, BitVec.getLsbD_one]
  by_cases hk : k = T
  · have hw : 0 < w := by omega
    simp [hk, hT, hw]
  · simp [hk]
    omega

theorem toNat_mask {w T : Nat} (hT : T < w) : ((1#w <<< T) - 1#w).toNat = 2 ^ T - 1 := by
  have hPow : 2 ^ T < 2 ^ w := Nat.pow_lt_pow_right (by decide) hT
  have hPos : 0 < 2 ^ T := Nat.two_pow_pos T
  have hOne : 1 % 2 ^ w = 1 := Nat.mod_eq_of_lt (by omega)
  have hWrap : 2 ^ w - 1 + 2 ^ T = (2 ^ T - 1) + 2 ^ w := by omega
  rw [BitVec.toNat_sub, BitVec.toNat_shiftLeft, BitVec.toNat_ofNat, hOne, Nat.shiftLeft_eq,
    Nat.one_mul, Nat.mod_eq_of_lt hPow, hWrap, Nat.add_mod_right, Nat.mod_eq_of_lt (by omega)]

/-- The mask `(1 << T) - 1` keeps the lowest `T` bits. -/
theorem getLsbD_mask {w T : Nat} (hT : T < w) (k : Nat) :
    ((1#w <<< T) - 1#w).getLsbD k = decide (k < T) := by
  rw [BitVec.getLsbD, toNat_mask hT, Nat.testBit_two_pow_sub_one]

theorem toNat_and_mask_lt {w T : Nat} (hT : T < w) (x : BitVec w) :
    (x &&& ((1#w <<< T) - 1#w)).toNat < 2 ^ T := by
  have hPos : 0 < 2 ^ T := Nat.two_pow_pos T
  rw [BitVec.toNat_and, toNat_mask hT]
  exact Nat.lt_of_le_of_lt Nat.and_le_right (by omega)

/-- Shifting a register left and adding an outcome puts the outcome in bit 0. -/
theorem getLsbD_insert (x : U64) (b : Bool) (k : Nat) :
    ((x <<< 1) + (outcomeCell b).setWidth 64).getLsbD k =
      (decide (k < 64) && if k = 0 then b else x.getLsbD (k - 1)) := by
  have hDisjoint : (x <<< 1) &&& (outcomeCell b).setWidth 64 = 0#64 := by
    apply BitVec.eq_of_getLsbD_eq
    intro i hi
    rw [BitVec.getLsbD_and, BitVec.getLsbD_shiftLeft, getLsbD_outcomeCell]
    by_cases h0 : i = 0 <;> simp [h0]
  rw [BitVec.add_eq_or_of_and_eq_zero _ _ hDisjoint, BitVec.getLsbD_or,
    BitVec.getLsbD_shiftLeft, getLsbD_outcomeCell]
  cases k with
  | zero => simp
  | succ k => simp

/-- One call of `compute_history` turns the register by one position, inserts
the newest outcome at position 0 and removes `ghr[geomLength]` from the position
where a window of that length ends. -/
theorem getLsbD_computeHistory {ghr : Nat → U8} {c : CompressedHist} {newest evicted : Bool}
    (hPos : 0 < c.targetLength) (hWidth : c.targetLength < 64)
    (hNewest : ghr 0 = outcomeCell newest)
    (hEvicted : ghr c.geomLength = outcomeCell evicted)
    (hFits : ∀ k, c.targetLength ≤ k → c.compHist.getLsbD k = false) (k : Nat) :
    (c.computeHistory ghr).compHist.getLsbD k =
      (decide (k < c.targetLength) &&
        (c.compHist.getLsbD (before c.targetLength k) ^^
          (newest && decide (k = 0)) ^^
          (evicted && decide (c.geomLength % c.targetLength = k)))) := by
  obtain ⟨L, T, x⟩ := c
  simp only at hPos hWidth hNewest hEvicted hFits ⊢
  have hPlace : L % T < 64 := Nat.lt_trans (Nat.mod_lt L hPos) hWidth
  simp only [CompressedHist.computeHistory, hNewest, hEvicted, BitVec.getLsbD_and,
    BitVec.getLsbD_xor, getLsbD_mask hWidth, getLsbD_insert, BitVec.getLsbD_ushiftRight,
    getLsbD_one_shiftLeft hWidth, getLsbD_outcomeCell_shiftLeft hPlace]
  by_cases hk : k < T
  · cases k with
    | zero =>
        have hT0 : T ≠ 0 := by omega
        simp [hPos, hT0, before_zero hPos, hWidth, Bool.xor_comm]
    | succ k =>
        have hk64 : k + 1 < 64 := by omega
        simp [hk, hk64]
  · simp [hk]

end BranchPrediction.Tage
