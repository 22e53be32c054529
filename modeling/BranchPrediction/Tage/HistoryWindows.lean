import BranchPrediction.Tage.Run

/-! What the histories remember of a run. Each register has a closed form in the
past outcomes, from which follows which outcomes and which PC bits the hashes
of a lookup depend on. -/
namespace BranchPrediction.Tage

open CyclicFold

/-- Position `k` of a register of `T` bits for a history of length `L`, after
the outcomes `bits`, newest first. The bit evicted at a step is always the
outcome before the newest one, whatever `L` is, since the shift of `ghr` copies
it to every older cell. -/
def registerBit (L : Nat) (bits : List Bool) (T k : Nat) : Bool :=
  foldBit T 0 k bits ^^ foldBit T L k bits.tail

theorem registerBit_cons {L T k : Nat} (hk : k < T) (newest : Bool) (bits : List Bool) :
    registerBit L (newest :: bits) T k =
      (registerBit L bits T (before T k) ^^ (newest && decide (k = 0)) ^^
        (bits.headD false && decide (L % T = k))) := by
  have hOlder : foldBit T L k bits =
      ((bits.headD false && decide (L % T = k)) ^^ foldBit T L (before T k) bits.tail) := by
    cases bits with
    | nil => rfl
    | cons b bits => exact foldBit_cons_at L hk b bits
  simp only [registerBit, List.tail_cons, foldBit_cons hk, hOlder, Bool.xor_assoc, Bool.xor_comm]

/-- The content that `compute_history` gives to a register. -/
structure RegisterHolds (L T : Nat) (bits : List Bool) (c : CompressedHist) : Prop where
  geomLength : c.geomLength = L
  targetLength : c.targetLength = T
  compHist : ∀ k, c.compHist.getLsbD k =
    (decide (k < T) && registerBit L bits T k)

theorem RegisterHolds.computeHistory {L T : Nat} {bits : List Bool} {c : CompressedHist}
    (h : RegisterHolds L T bits c) (hPos : 0 < T) (hWidth : T < 64) {ghr : Nat → U8}
    {newest : Bool} (hNewest : ghr 0 = outcomeCell newest)
    (hEvicted : ghr L = outcomeCell (bits.headD false)) :
    RegisterHolds L T (newest :: bits) (c.computeHistory ghr) := by
  obtain ⟨hL, hT, hBits⟩ := h
  refine ⟨hL, hT, fun k => ?_⟩
  have hFits : ∀ k, c.targetLength ≤ k → c.compHist.getLsbD k = false := by
    intro j hj
    have hOut : ¬ j < T := by omega
    simp [hBits, hOut]
  rw [getLsbD_computeHistory (by omega) (by omega) hNewest (by rw [hL]; exact hEvicted) hFits,
    hBits, hT, hL]
  by_cases hk : k < T
  · have hBefore : before T k < T := before_lt hPos
    simp only [hk, hBefore, decide_true, Bool.true_and, registerBit_cons hk]
  · simp [hk]

/-- The histories after the records `past`, newest first. -/
structure Remembers (past : List Record) (predict : Predictor) : Prop where
  newest : predict.ghr 0 = outcomeCell ((past.map Record.taken).headD false)
  older : ∀ k, 0 < k → k < ghrLength →
    predict.ghr k = outcomeCell ((past.map Record.taken).tail.headD false)
  index : ∀ i < numTagTables,
    RegisterHolds (geometricLength i) tagPredLog (past.map Record.taken) (predict.indexComp i)
  tag : ∀ j < 2, ∀ i < numTagTables,
    RegisterHolds (geometricLength i) (tagTargetLength j) (past.map Record.taken)
      (predict.tagComp j i)
  path : ∀ k, predict.phr.getLsbD k =
    (decide (k < 16) && (past.map Record.pathBit).getD k false)

theorem geometricLength_mem {i : Nat} (hi : i < numTagTables) :
    0 < geometricLength i ∧ geometricLength i < ghrLength := by
  have hBank : i = 0 ∨ i = 1 ∨ i = 2 ∨ i = 3 := by simp only [numTagTables] at hi; omega
  rcases hBank with rfl | rfl | rfl | rfl <;> decide

theorem tagTargetLength_mem (j : Nat) : 0 < tagTargetLength j ∧ tagTargetLength j < 64 := by
  unfold tagTargetLength
  split <;> decide

theorem remembers_init : Remembers [] initTagePredictor where
  newest := rfl
  older := fun _ _ _ => rfl
  index := fun _ _ => ⟨rfl, rfl, fun k => by simp [initTagePredictor, registerBit]⟩
  tag := fun _ _ _ _ => ⟨rfl, rfl, fun k => by simp [initTagePredictor, registerBit]⟩
  path := fun k => by simp [initTagePredictor]

/-- The path register takes in the lowest bit of the PC like an outcome. -/
theorem updatePhr_eq (predict : Predictor) (PC : U64) :
    (updatePhr predict PC).phr =
      ((predict.phr <<< 1) + (outcomeCell (PC.getLsbD 0)).setWidth 64) &&&
        ((1#64 <<< 16) - 1#64) := by
  have hBit : PC &&& 1#64 = (BitVec.ofBool (PC.getLsbD 0)).setWidth 64 :=
    BitVec.and_one_eq_setWidth_ofBool_getLsbD
  cases hLow : PC.getLsbD 0 with
  | false =>
      have hZero : PC &&& 1#64 = 0 := by rw [hBit, hLow]; decide
      simp [updatePhr, hZero, outcomeCell]
  | true =>
      have hOne : PC &&& 1#64 ≠ 0 := by rw [hBit, hLow]; decide
      have hCell : (outcomeCell true).setWidth 64 = 1#64 := by decide
      simp only [updatePhr, hOne, ne_eq, not_false_eq_true, if_true, hCell]

theorem getLsbD_updatePhr (predict : Predictor) (PC : U64) (k : Nat) :
    (updatePhr predict PC).phr.getLsbD k =
      (decide (k < 16) && if k = 0 then PC.getLsbD 0 else predict.phr.getLsbD (k - 1)) := by
  rw [updatePhr_eq, BitVec.getLsbD_and, getLsbD_insert, getLsbD_mask (by decide)]
  by_cases hk : k < 16
  · have hk64 : k < 64 := by omega
    simp [hk, hk64]
  · simp [hk]

/-- One update adds its record to what the histories remember. -/
theorem Remembers.updateHistories {past : List Record} {predict : Predictor}
    (h : Remembers past predict) (r : Record) :
    Remembers (r :: past) (updateHistories predict r.PC r.resolveDir) := by
  let shifted := updateGhr predict r.resolveDir
  have hNewest : shifted.ghr 0 = outcomeCell r.taken := by
    rw [updateGhr_zero, Record.taken, outcomeCell]
    simp only [decide_eq_true_eq]
  have hOlder (k : Nat) (hPos : 0 < k) (hk : k < ghrLength) :
      shifted.ghr k = outcomeCell ((past.map Record.taken).headD false) := by
    obtain ⟨j, rfl⟩ : ∃ j, k = j + 1 := ⟨k - 1, by omega⟩
    rw [updateGhr_succ predict r.resolveDir (by omega), h.newest]
  have hEq : Tage.updateHistories predict r.PC r.resolveDir =
      updatePhr (updateCompHist shifted) r.PC := rfl
  rw [hEq, updateCompHist_eq]
  refine ⟨hNewest, hOlder, fun i hi => ?_, fun j hj i hi => ?_, fun k => ?_⟩
  · obtain ⟨hPos, hLen⟩ := geometricLength_mem hi
    have hReg := (h.index i hi).computeHistory (by decide) (by decide) hNewest
      (hOlder _ hPos hLen)
    change RegisterHolds _ _ _ (if i < numTagTables then _ else _)
    rw [if_pos hi]
    exact hReg
  · obtain ⟨hPos, hLen⟩ := geometricLength_mem hi
    obtain ⟨hTPos, hTWidth⟩ := tagTargetLength_mem j
    have hReg := (h.tag j hj i hi).computeHistory hTPos hTWidth hNewest (hOlder _ hPos hLen)
    change RegisterHolds _ _ _ (if j < 2 ∧ i < numTagTables then _ else _)
    rw [if_pos ⟨hj, hi⟩]
    exact hReg
  · rw [getLsbD_updatePhr]
    have hPhr : shifted.phr = predict.phr := rfl
    cases k with
    | zero => simp [Record.pathBit]
    | succ k =>
        simp only [hPhr, h.path, Nat.add_one_ne_zero, if_false, Nat.add_sub_cancel,
          List.map_cons, List.getD_cons_succ]
        by_cases hk : k + 1 < 16
        · have hk16 : k < 16 := by omega
          simp [hk, hk16]
        · simp [hk]

/-- Neither a lookup nor the training of the tables touches the histories. -/
theorem Remembers.stepRecord {past : List Record} {predict : Predictor}
    (h : Remembers past predict) (r : Record) :
    Remembers (r :: past) (stepRecord predict r) := by
  have hTables : Remembers past (updateTables (getPrediction predict r.PC).2 r.PC r.resolveDir
      (getPrediction predict r.PC).1 r.randNo) := by
    rw [updateTables_frame, getPrediction_snd]
    exact ⟨h.newest, h.older, h.index, h.tag, h.path⟩
  exact hTables.updateHistories r

theorem remembers_run (records : List Record) :
    Remembers records.reverse (runRecords initTagePredictor records) := by
  have hStep : ∀ past predict r, Remembers past predict →
      Remembers (r :: past) (Tage.stepRecord predict r) := fun _ _ r h => h.stepRecord r
  have h := FoldRun.history_invariant Tage.stepRecord hStep records remembers_init
  rw [List.append_nil] at h
  exact h

/-- The part of an index hash that does not come from a folded register. -/
def pathHash (phr PC : U64) : Nat → U64
  | 0 => PC ^^^ (PC >>> tagPredLog) ^^^ phr ^^^ (phr >>> tagPredLog)
  | 1 => PC ^^^ (PC >>> (tagPredLog - 1)) ^^^ phr
  | 2 => PC ^^^ (PC >>> (tagPredLog - 2)) ^^^ (phr &&& 31)
  | 3 => PC ^^^ (PC >>> (tagPredLog - 3)) ^^^ (phr &&& 7)
  | _ => 0

theorem indexHash_eq (tage : Predictor) (PC : U64) {i : Nat} (hi : i < numTagTables) :
    tage.indexHash PC i = pathHash tage.phr PC i ^^^ (tage.indexComp i).compHist := by
  have hBank : i = 0 ∨ i = 1 ∨ i = 2 ∨ i = 3 := by simp only [numTagTables] at hi; omega
  rcases hBank with rfl | rfl | rfl | rfl <;>
    simp only [Predictor.indexHash, pathHash] <;> ac_rfl

/-- Position `k` of a tag, from its register of nine bits and the shifted one
of eight. -/
def tagFold (register : Nat → Nat → Bool) (k : Nat) : Bool :=
  register 9 k ^^ (decide (1 ≤ k) && register 8 (k - 1))

theorem tagFold_xor (first second : Nat → Nat → Bool) (k : Nat) :
    tagFold (fun T k => first T k ^^ second T k) k = (tagFold first k ^^ tagFold second k) := by
  by_cases hk : 1 ≤ k
  · simp only [tagFold, hk, decide_true, Bool.true_and, Bool.xor_assoc, Bool.xor_left_comm]
  · simp [tagFold, hk]

section Hashes

variable {past : List Record} {predict : Predictor} (h : Remembers past predict) (PC : U64)
include h

/-- Bit `k` of an index, in terms of the run. -/
theorem Remembers.getLsbD_tableIndex {i : Nat} (hi : i < numTagTables) (k : Nat) :
    (predict.tableIndex PC i).getLsbD k =
      (decide (k < tagPredLog) && ((pathHash predict.phr PC i).getLsbD k ^^
        registerBit (geometricLength i) (past.map Record.taken) tagPredLog k)) := by
  rw [Predictor.tableIndex, indexHash_eq predict PC hi, BitVec.getLsbD_and,
    getLsbD_mask (by decide), BitVec.getLsbD_setWidth, BitVec.getLsbD_xor,
    (h.index i hi).compHist]
  by_cases hk : k < tagPredLog
  · have hk32 : k < 32 := by simp only [tagPredLog] at hk; omega
    simp [hk, hk32]
  · simp [hk]

/-- Bit `k` of a tag, in terms of the run. -/
theorem Remembers.getLsbD_tagHash {i : Nat} (hi : i < numTagTables) (k : Nat) :
    (predict.tagHash PC i).getLsbD k =
      (decide (k < 9) && (PC.getLsbD k ^^
        tagFold (registerBit (geometricLength i) (past.map Record.taken)) k)) := by
  have h0 := (h.tag 0 (by decide) i hi).compHist
  have h1 := (h.tag 1 (by decide) i hi).compHist
  have hT0 : tagTargetLength 0 = 9 := rfl
  have hT1 : tagTargetLength 1 = 8 := rfl
  rw [hT0] at h0
  rw [hT1] at h1
  rw [tagFold, Predictor.tagHash, BitVec.getLsbD_and, getLsbD_mask (by decide), BitVec.getLsbD_setWidth,
    BitVec.getLsbD_xor, BitVec.getLsbD_xor, BitVec.getLsbD_shiftLeft, h0, h1]
  by_cases hk : k < 9
  · have hk32 : k < 32 := by omega
    have hk64 : k < 64 := by omega
    cases k with
    | zero => simp
    | succ k =>
        have hk8 : k < 8 := by omega
        simp [hk, hk8, hk32, hk64]
  · simp [hk]

end Hashes

/-- What the outcomes older than a window of `L` leave at position `k` of a
register of `T` bits. An outcome of age `a` entered at position `a % T`; the bit
that the update meant to cancel it was inserted one step later, when the outcome
was one step old, and so it sits at position `(a + L - 1) % T`. -/
def residue (L : Nat) (old : List Bool) (T k : Nat) : Bool :=
  foldBit T L k old ^^ foldBit T (2 * L - 1) k old

/-- Two histories older than the window leave the same residue in the index of
a bank of history length `L`, and in its tag. -/
def SameResidue (L : Nat) (old₁ old₂ : List Bool) : Prop :=
  (∀ k < tagPredLog, residue L old₁ tagPredLog k = residue L old₂ tagPredLog k) ∧
  (∀ k < 9, tagFold (residue L old₁) k = tagFold (residue L old₂) k)

instance (L : Nat) (old₁ old₂ : List Bool) : Decidable (SameResidue L old₁ old₂) :=
  inferInstanceAs (Decidable (_ ∧ _))

/-- A register splits into the part of the window and the residue. -/
theorem registerBit_eq_window_xor_residue {L : Nat} (hL : 0 < L) {bits : List Bool}
    (hLen : L ≤ bits.length) :
    registerBit L bits = fun T k =>
      registerBit L (bits.take L) T k ^^ residue L (bits.drop L) T k := by
  funext T k
  have hTake : (bits.take L).length = L := List.length_take_of_le hLen
  have hTail : bits.tail = (bits.take L).tail ++ bits.drop L := by
    conv_lhs => rw [← List.take_append_drop L bits]
    rw [List.tail_append_of_ne_nil]
    exact List.ne_nil_of_length_pos (by omega)
  have hWhole : foldBit T 0 k bits =
      (foldBit T 0 k (bits.take L) ^^ foldBit T L k (bits.drop L)) := by
    conv_lhs => rw [← List.take_append_drop L bits, foldBit_append, hTake, Nat.zero_add]
  have hOld : L + (bits.take L).tail.length = 2 * L - 1 := by
    rw [List.length_tail, hTake]
    omega
  rw [registerBit, registerBit, hWhole, hTail, foldBit_append, hOld, residue]
  simp only [Bool.xor_assoc, Bool.xor_left_comm]

/-- The outcomes of a run, newest first. -/
def outcomes (records : List Record) : List Bool := records.reverse.map Record.taken

/-- The lowest bits of the PCs of a run, newest first. -/
def pathBits (records : List Record) : List Bool := records.reverse.map Record.pathBit

/-- The next lookup, for every PC, computes the same index and tag of bank `i`. -/
def SameHashes (i : Nat) (predict₁ predict₂ : Predictor) : Prop :=
  ∀ PC, (getPrediction predict₁ PC).2.indexTagPred i = (getPrediction predict₂ PC).2.indexTagPred i ∧
    (getPrediction predict₁ PC).2.tag i = (getPrediction predict₂ PC).2.tag i

theorem sameHashes_iff (i : Nat) (predict₁ predict₂ : Predictor) :
    SameHashes i predict₁ predict₂ ↔
      ∀ PC, predict₁.tableIndex PC i = predict₂.tableIndex PC i ∧
        predict₁.tagHash PC i = predict₂.tagHash PC i := by
  simp only [SameHashes, getPrediction_snd]
  rfl

/-- The path register holds the last sixteen path bits. -/
theorem Remembers.phr_eq {past₁ past₂ : List Record} {predict₁ predict₂ : Predictor}
    (h₁ : Remembers past₁ predict₁) (h₂ : Remembers past₂ predict₂)
    (hPath : (past₁.map Record.pathBit).take 16 = (past₂.map Record.pathBit).take 16) :
    predict₁.phr = predict₂.phr := by
  apply BitVec.eq_of_getLsbD_eq
  intro k _
  rw [h₁.path, h₂.path]
  by_cases hk : k < 16
  · have hTake (bits : List Bool) : bits.getD k false = (bits.take 16).getD k false := by
      simp only [List.getD_eq_getElem?_getD, List.getElem?_take_of_lt hk]
    rw [hTake, hPath, ← hTake]
  · simp [hk]

/-- With equal path registers two lookups agree on the index and the tag of a
bank exactly when its folded registers agree bit by bit. -/
theorem sameHashes_iff_registers {past₁ past₂ : List Record} {predict₁ predict₂ : Predictor}
    (h₁ : Remembers past₁ predict₁) (h₂ : Remembers past₂ predict₂)
    (hPhr : predict₁.phr = predict₂.phr) {i : Nat} (hi : i < numTagTables)
    {register₁ register₂ : Nat → Nat → Bool}
    (hRegister₁ : register₁ = registerBit (geometricLength i) (past₁.map Record.taken))
    (hRegister₂ : register₂ = registerBit (geometricLength i) (past₂.map Record.taken)) :
    SameHashes i predict₁ predict₂ ↔
      (∀ k < tagPredLog, register₁ tagPredLog k = register₂ tagPredLog k) ∧
      (∀ k < 9, tagFold register₁ k = tagFold register₂ k) := by
  have hIndex₁ := fun PC => h₁.getLsbD_tableIndex PC hi
  have hIndex₂ := fun PC => h₂.getLsbD_tableIndex PC hi
  have hTag₁ := fun PC => h₁.getLsbD_tagHash PC hi
  have hTag₂ := fun PC => h₂.getLsbD_tagHash PC hi
  rw [← hRegister₁] at hIndex₁ hTag₁
  rw [← hRegister₂] at hIndex₂ hTag₂
  rw [sameHashes_iff]
  constructor
  · intro hSame
    refine ⟨fun k hk => ?_, fun k hk => ?_⟩
    · have hBit := congrArg (BitVec.getLsbD · k) (hSame 0).1
      simpa only [hIndex₁, hIndex₂, hPhr, hk, decide_true, Bool.true_and,
        Bool.xor_right_inj] using hBit
    · have hBit := congrArg (BitVec.getLsbD · k) (hSame 0).2
      simpa only [hTag₁, hTag₂, hk, decide_true, Bool.true_and, Bool.xor_right_inj] using hBit
  · rintro ⟨hIndex, hTag⟩ PC
    refine ⟨BitVec.eq_of_getLsbD_eq fun k _ => ?_, BitVec.eq_of_getLsbD_eq fun k _ => ?_⟩
    · rw [hIndex₁, hIndex₂, hPhr]
      by_cases hk : k < tagPredLog
      · rw [hIndex k hk]
      · simp [hk]
    · rw [hTag₁, hTag₂]
      by_cases hk : k < 9
      · rw [hTag k hk]
      · simp [hk]

/-- Two runs whose last outcomes agree over the history length of a bank, and
whose last sixteen path bits agree, look up the same index and tag in that bank
exactly when the outcomes older than the window leave the same residue. -/
theorem sameHashes_iff_sameResidue {i : Nat} (hi : i < numTagTables)
    (records₁ records₂ : List Record)
    (hLen₁ : max (geometricLength i) 16 ≤ records₁.length)
    (hLen₂ : max (geometricLength i) 16 ≤ records₂.length)
    (hOutcomes : (outcomes records₁).take (geometricLength i) =
      (outcomes records₂).take (geometricLength i))
    (hPath : (pathBits records₁).take 16 = (pathBits records₂).take 16) :
    SameHashes i (runRecords initTagePredictor records₁)
        (runRecords initTagePredictor records₂) ↔
      SameResidue (geometricLength i) ((outcomes records₁).drop (geometricLength i))
        ((outcomes records₂).drop (geometricLength i)) := by
  have h₁ := remembers_run records₁
  have h₂ := remembers_run records₂
  obtain ⟨hL, _⟩ := geometricLength_mem hi
  have hLong₁ : geometricLength i ≤ (outcomes records₁).length := by
    simp only [outcomes, List.length_map, List.length_reverse]
    omega
  have hLong₂ : geometricLength i ≤ (outcomes records₂).length := by
    simp only [outcomes, List.length_map, List.length_reverse]
    omega
  have hSplit₁ := registerBit_eq_window_xor_residue hL hLong₁
  have hSplit₂ := registerBit_eq_window_xor_residue hL hLong₂
  rw [sameHashes_iff_registers h₁ h₂ (h₁.phr_eq h₂ hPath) hi hSplit₁.symm hSplit₂.symm,
    hOutcomes]
  simp only [SameResidue, tagFold_xor, Bool.xor_right_inj]

/-- A record at PC 0 with the given outcome. -/
def recordAtZero (taken : Bool) : Record :=
  { PC := 0, branchTarget := 0, resolveDir := boolWord taken, randNo := leastRand }

/-- Equal residues occur: two runs of sixteen records that differ in nothing but
the random numbers. -/
theorem sameHashes_of_equal_outcomes :
    SameHashes 3 (runRecords initTagePredictor (List.replicate 16 (recordAtZero true)))
      (runRecords initTagePredictor
        (List.replicate 16 { recordAtZero true with randNo := 99 })) :=
  (sameHashes_iff_sameResidue (by decide) _ _ (by decide) (by decide) (by decide)
    (by decide)).mpr (by decide)

/-- One taken outcome, followed by fifteen that are not, changes the index of the
bank that should remember five. -/
theorem stale_outcome_changes_index :
    let records₁ := recordAtZero true :: List.replicate 15 (recordAtZero false)
    let records₂ := List.replicate 16 (recordAtZero false)
    (∀ r ∈ records₁ ++ records₂, r.IsBranch) ∧
    max (geometricLength 3) 16 ≤ records₁.length ∧
    max (geometricLength 3) 16 ≤ records₂.length ∧
    (outcomes records₁).take (geometricLength 3) = (outcomes records₂).take (geometricLength 3) ∧
    (pathBits records₁).take 16 = (pathBits records₂).take 16 ∧
    (getPrediction (runRecords initTagePredictor records₁) 0).2.indexTagPred 3 ≠
      (getPrediction (runRecords initTagePredictor records₂) 0).2.indexTagPred 3 := by
  intro records₁ records₂
  refine ⟨?_, by decide, by decide, by decide, by decide, fun hEq => ?_⟩
  · intro r hr
    have hTaken : ∃ taken, r = recordAtZero taken := by
      simp only [records₁, records₂, List.cons_append, List.mem_cons, List.mem_append,
        List.mem_replicate] at hr
      rcases hr with rfl | ⟨_, rfl⟩ | ⟨_, rfl⟩
      exacts [⟨true, rfl⟩, ⟨false, rfl⟩, ⟨false, rfl⟩]
    obtain ⟨taken, rfl⟩ := hTaken
    cases taken
    · exact Or.inl rfl
    · exact Or.inr rfl
  · have h₁ := remembers_run records₁
    have h₂ := remembers_run records₂
    have hPhr := h₁.phr_eq h₂ (by decide)
    simp only [getPrediction_snd] at hEq
    have hBit := congrArg (BitVec.getLsbD · 3) hEq
    change ((runRecords initTagePredictor records₁).tableIndex 0 3).getLsbD 3 =
      ((runRecords initTagePredictor records₂).tableIndex 0 3).getLsbD 3 at hBit
    rw [h₁.getLsbD_tableIndex 0 (by decide), h₂.getLsbD_tableIndex 0 (by decide), hPhr] at hBit
    simp only [tagPredLog, Nat.reduceLT, decide_true, Bool.true_and, Bool.xor_right_inj] at hBit
    revert hBit
    decide

/-- On code whose PCs are multiples of four the path register stays clear, so the
hashes of the next lookup depend on its PC and on the outcomes alone. -/
theorem hashes_blind_to_path (records₁ records₂ : List Record)
    (hOutcomes : records₁.map Record.resolveDir = records₂.map Record.resolveDir)
    (hAligned : ∀ r ∈ records₁ ++ records₂, 4 ∣ r.PC.toNat) :
    ∀ i < numTagTables, SameHashes i (runRecords initTagePredictor records₁)
      (runRecords initTagePredictor records₂) := by
  intro i hi
  have h₁ := remembers_run records₁
  have h₂ := remembers_run records₂
  have hTaken : records₁.reverse.map Record.taken = records₂.reverse.map Record.taken := by
    have hMap (records : List Record) : records.reverse.map Record.taken =
        ((records.map Record.resolveDir).map fun resolveDir => decide (resolveDir = 1)).reverse := by
      rw [List.map_map, List.map_reverse]
      rfl
    rw [hMap, hMap, hOutcomes]
  have hClear (records : List Record) (hAll : ∀ r ∈ records, 4 ∣ r.PC.toNat) :
      records.reverse.map Record.pathBit = List.replicate records.length false := by
    refine List.eq_replicate_iff.mpr ⟨by simp, fun b hb => ?_⟩
    obtain ⟨r, hr, rfl⟩ := List.mem_map.mp hb
    have hDvd := hAll r (List.mem_reverse.mp hr)
    rw [Record.pathBit, BitVec.getLsbD, Nat.testBit_zero]
    simp only [decide_eq_false_iff_not]
    omega
  have hLength : records₁.length = records₂.length := by
    simpa using congrArg List.length hOutcomes
  have hPhr : (runRecords initTagePredictor records₁).phr =
      (runRecords initTagePredictor records₂).phr := by
    apply h₁.phr_eq h₂
    rw [hClear records₁ fun r hr => hAligned r (List.mem_append_left _ hr),
      hClear records₂ fun r hr => hAligned r (List.mem_append_right _ hr), hLength]
  exact (sameHashes_iff_registers h₁ h₂ hPhr hi rfl (by rw [hTaken])).mpr
    ⟨fun _ _ => rfl, fun _ _ => rfl⟩

theorem hashes_blind_to_path_two_traces :
    SameHashes 0 (runRecords initTagePredictor [recordAtZero true, recordAtZero false])
      (runRecords initTagePredictor
        [{ recordAtZero true with PC := 4, randNo := 50 },
          { recordAtZero false with PC := 400 }]) :=
  hashes_blind_to_path _ _ (by decide) (by decide) 0 (by decide)

end BranchPrediction.Tage
