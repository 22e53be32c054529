import BranchPrediction.Tage.History

/-! What a folded register stands for: the last outcomes, shifted to their
positions on the cycle and combined by exclusive or. `compute_history` keeps
that up to date in one step, whatever the two lengths are. -/
namespace BranchPrediction.Tage

open CyclicFold

/-- A folded register of the predictor. -/
inductive Register where
  | index (row : Nat)
  | tag (row col : Nat)
deriving DecidableEq, Repr

def Predictor.register (predict : Predictor) : Register → CompressedHist
  | .index row => predict.indexComp row
  | .tag row col => predict.tagComp row col

/-- The register that `compute_history` works on. -/
def selected (row col : Nat) : Register :=
  if col = numTagTables + 1 then .index row else .tag row col

/-- The exclusive or of `cell j << (j mod T)` over the first `L` cells. -/
def directFold (cell : Nat → U8) (L T : Nat) : U64 :=
  (List.range L).foldl (fun folded j => folded ^^^ ((cell j).setWidth 64 <<< (j % T))) 0

theorem directFold_succ (cell : Nat → U8) (L T : Nat) :
    directFold cell (L + 1) T = directFold cell L T ^^^ ((cell L).setWidth 64 <<< (L % T)) := by
  rw [directFold, List.range_succ, List.foldl_append]
  rfl

/-- The direct fold, bit by bit. -/
theorem getLsbD_directFold {cell : Nat → U8} {bit : Nat → Bool} {T : Nat} (hPos : 0 < T)
    (hWidth : T ≤ 64) {L : Nat} (hBits : ∀ j < L, cell j = outcomeCell (bit j)) (k : Nat) :
    (directFold cell L T).getLsbD k = foldBit T 0 k ((List.range L).map bit) := by
  induction L with
  | zero => exact BitVec.getLsbD_zero
  | succ L ih =>
      have hPlace : L % T < 64 := Nat.lt_of_lt_of_le (Nat.mod_lt L hPos) hWidth
      rw [directFold_succ, BitVec.getLsbD_xor, ih fun j hj => hBits j (Nat.lt_succ_of_lt hj),
        hBits L (Nat.lt_succ_self L), getLsbD_outcomeCell_shiftLeft hPlace, List.range_succ,
        List.map_append, foldBit_append, List.length_map, List.length_range, Nat.zero_add]
      simp only [List.map_cons, List.map_nil, foldBit, Bool.xor_false]

/-- The computation of the code on a register that holds the fold of the `L`
cells behind the newest one. -/
theorem CompressedHist.computeHistory_directFold {ghr : Nat → U8} {c : CompressedHist}
    (hPos : 0 < c.targetLength) (hWidth : c.targetLength < 64)
    (hBits : ∀ j ≤ c.geomLength, ghr j = 0 ∨ ghr j = 1)
    (hFold : c.compHist = directFold (fun j => ghr (j + 1)) c.geomLength c.targetLength) :
    (c.computeHistory ghr).compHist = directFold ghr c.geomLength c.targetLength := by
  obtain ⟨L, T, x⟩ := c
  simp only at hPos hWidth hBits hFold
  let bit (j : Nat) : Bool := decide (ghr j = 1)
  have hCell (j : Nat) (hj : j ≤ L) : ghr j = outcomeCell (bit j) := by
    rcases hBits j hj with h | h <;> simp [bit, h, outcomeCell]
  have hOld (k : Nat) : x.getLsbD k =
      foldBit T 0 k ((List.range L).map fun j => bit (j + 1)) := by
    rw [hFold]
    exact getLsbD_directFold hPos (Nat.le_of_lt hWidth) (fun j hj => hCell (j + 1) hj) k
  have hNew (k : Nat) : (directFold ghr L T).getLsbD k =
      foldBit T 0 k ((List.range L).map bit) :=
    getLsbD_directFold hPos (Nat.le_of_lt hWidth) (fun j hj => hCell j (Nat.le_of_lt hj)) k
  have hFits (k : Nat) (hk : T ≤ k) : x.getLsbD k = false := by
    rw [hOld, foldBit_of_le hPos hk]
  apply BitVec.eq_of_getLsbD_eq
  intro k _
  rw [getLsbD_computeHistory hPos hWidth (hCell 0 (Nat.zero_le L)) (hCell L (Nat.le_refl L)) hFits,
    hNew, hOld]
  by_cases hk : k < T
  · -- the window with both ends, read from its newest and from its oldest bit
    have hWindow : bit 0 :: ((List.range L).map fun j => bit (j + 1)) =
        (List.range L).map bit ++ [bit L] := by
      rw [← List.map_singleton, ← List.map_append, ← List.range_succ, List.range_succ_eq_map,
        List.map_cons, List.map_map]
      rfl
    have hSlide := foldBit_slide hk hWindow
    rw [List.length_map, List.length_range] at hSlide
    rw [hSlide, decide_eq_true hk, Bool.true_and]
  · rw [decide_eq_false hk, Bool.false_and, foldBit_of_le hPos (Nat.le_of_not_lt hk)]

/-- `compute_history` changes the selected register alone. -/
theorem register_computeHistory (predict : Predictor) (row col : Nat) (r : Register) :
    (computeHistory predict row col).register r =
      if r = selected row col then (predict.register r).computeHistory predict.ghr
      else predict.register r := by
  by_cases hCol : col = numTagTables + 1
  · subst col
    rw [computeHistory_index, selected, if_pos rfl]
    cases r with
    | index i =>
        by_cases hRow : i = row <;> simp [Predictor.register, Function.update, hRow]
    | tag i j => rfl
  · rw [computeHistory, if_neg hCol, selected, if_neg hCol]
    cases r with
    | index i => rfl
    | tag i j =>
        by_cases hRow : i = row
        · subst i
          by_cases hColumn : j = col <;> simp [Predictor.register, Function.update, hColumn]
        · simp [Predictor.register, Function.update, hRow]

/-- If a register holds the fold of the outcomes before the newest one, then
`compute_history` makes it the fold of the newest ones, and leaves all other
registers as they are. -/
theorem computeHistory_refolds {predict : Predictor} {row col : Nat} {c : CompressedHist}
    (hRegister : predict.register (selected row col) = c) (hPos : 1 ≤ c.targetLength)
    (hWidth : c.targetLength ≤ 30)
    (hBits : ∀ j ≤ c.geomLength, predict.ghr j = 0 ∨ predict.ghr j = 1)
    (hFold : c.compHist =
      directFold (fun j => predict.ghr (j + 1)) c.geomLength c.targetLength) :
    (computeHistory predict row col).register (selected row col) =
        { c with compHist := directFold predict.ghr c.geomLength c.targetLength } ∧
      ∀ other, other ≠ selected row col →
        (computeHistory predict row col).register other = predict.register other := by
  have hComputed := c.computeHistory_directFold hPos (by omega) hBits hFold
  constructor
  · rw [register_computeHistory, if_pos rfl, hRegister, ← hComputed]
    rfl
  · intro other hOther
    rw [register_computeHistory, if_neg hOther]

/-- One taken outcome, one step old, in an otherwise empty history. -/
def oneTaken : Predictor :=
  { initTagePredictor with
    ghr := fun k => if k = 1 then 1 else 0
    indexComp := fun i =>
      { geomLength := geometricLength i, targetLength := tagPredLog, compHist := 1 } }

/-- The index register of the shortest bank moves it on by one position. -/
theorem computeHistory_refolds_oneTaken :
    (computeHistory oneTaken 3 (numTagTables + 1)).register (.index 3) =
        { geomLength := 5, targetLength := 12, compHist := 2 } ∧
      (computeHistory oneTaken 3 (numTagTables + 1)).register (.tag 0 3) =
        { geomLength := 5, targetLength := 9, compHist := 0 } := by
  have hBits (j : Nat) : oneTaken.ghr j = 0 ∨ oneTaken.ghr j = 1 := by
    by_cases hj : j = 1
    · exact .inr (if_pos hj)
    · exact .inl (if_neg hj)
  have hRefolds := @computeHistory_refolds oneTaken 3 (numTagTables + 1) _ rfl (by decide)
    (by decide) (fun j _ => hBits j) (by decide)
  have hFold : directFold oneTaken.ghr 5 12 = 2 := by decide
  refine ⟨hRefolds.1.trans ?_, hRefolds.2 (.tag 0 3) (by decide)⟩
  exact congrArg (CompressedHist.mk 5 12) hFold

end BranchPrediction.Tage
