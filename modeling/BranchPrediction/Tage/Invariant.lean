import BranchPrediction.Tage.Allocation
import BranchPrediction.Tage.HistoryWindows

/-! The representation invariant of the predictor, and the accesses to its
tables that it keeps in bounds. -/
namespace BranchPrediction.Tage

open FoldRun

structure Component.InRange (e : Component) : Prop where
  pred : 0 ≤ e.pred ∧ e.pred ≤ 7
  u : 0 ≤ e.u ∧ e.u ≤ 3
  tag : e.tag.toNat < 2 ^ 9

/-- The configuration of a register, and the bound that its mask enforces. -/
structure CompressedHist.InRange (L T : Nat) (c : CompressedHist) : Prop where
  geomLength : c.geomLength = L
  targetLength : c.targetLength = T
  compHist : c.compHist.toNat < 2 ^ c.targetLength

namespace Predictor

/-- Every entry of the tagged tables satisfies `P`. -/
def AllEntries (P : Component → Prop) (predict : Predictor) : Prop :=
  ∀ i < numTagTables, ∀ j < predict.numberTagEntries, P (predict.tagPred i j)

structure InRange (predict : Predictor) : Prop where
  numBimodalEntries : predict.numBimodalEntries = 2 ^ 14
  numberTagEntries : predict.numberTagEntries = 2 ^ 12
  bimodal : ∀ b < predict.numBimodalEntries, predict.bimodal b ≤ 3
  entries : predict.AllEntries Component.InRange
  tag : ∀ i < numTagTables, (predict.tag i).toNat < 2 ^ 9
  indexTagPred : ∀ i < numTagTables, (predict.indexTagPred i).toNat < 2 ^ 12
  primeBank : predict.primeBank ≤ numTagTables
  altBank : predict.altBank ≤ numTagTables
  banks : predict.primeBank < predict.altBank ∨
    (predict.primeBank = numTagTables ∧ predict.altBank = numTagTables)
  altBetterCount : predict.altBetterCount ≤ 15
  clock : predict.clock < 2 ^ 18
  clockFlip : predict.clockFlip = 0 ∨ predict.clockFlip = 1
  phr : predict.phr.toNat < 2 ^ 16
  indexComp : ∀ i < numTagTables,
    (predict.indexComp i).InRange (geometricLength i) tagPredLog
  tagComp : ∀ j < 2, ∀ i < numTagTables,
    (predict.tagComp j i).InRange (geometricLength i) (tagTargetLength j)
  ghr : ∀ k < ghrLength, predict.ghr k = 0 ∨ predict.ghr k = 1

end Predictor

section Counters

theorem trainUseful_mem {u : Int} (h : 0 ≤ u ∧ u ≤ 3) (altPred resolveDir predDir : U64) :
    0 ≤ trainUseful u altPred resolveDir predDir ∧
      trainUseful u altPred resolveDir predDir ≤ 3 := by
  have hUp : incrementField u bimodalCtrMax = if u = 3 then u else u + 1 :=
    incrementField_of_mem h.1 h.2 (by decide)
  have hDown := decrementField_of_mem h.1 (by omega)
  unfold trainUseful
  rw [hUp, hDown]
  split_ifs <;> omega

theorem trainPred_eq {pred : Int} (h : 0 ≤ pred ∧ pred ≤ 7) (resolveDir : U64) :
    trainPred pred resolveDir =
      if resolveDir ≠ 0 then (if pred = 7 then pred else pred + 1)
      else if pred = 0 then 0 else pred - 1 := by
  have hUp : incrementField pred tagPredCtrMax = if pred = 7 then pred else pred + 1 :=
    incrementField_of_mem h.1 h.2 (by decide)
  rw [trainPred, hUp, decrementField_of_mem h.1 (by omega)]

theorem trainPred_mem {pred : Int} (h : 0 ≤ pred ∧ pred ≤ 7) (resolveDir : U64) :
    0 ≤ trainPred pred resolveDir ∧ trainPred pred resolveDir ≤ 7 := by
  rw [trainPred_eq h]
  split_ifs <;> omega

theorem trainBimodal_le {counter : Nat} (h : counter ≤ 3) (resolveDir : U64) :
    trainBimodal counter resolveDir ≤ 3 := by
  unfold trainBimodal satIncrement satDecrement
  simp only [bimodalCtrMax]
  split_ifs <;> omega

/-- Both masks of the reset keep a useful counter in its range. -/
theorem maskedUseful_mem {u : Int} (h : 0 ≤ u ∧ u ≤ 3) {mask : Int}
    (hMask : mask = 1 ∨ mask = 2) : 0 ≤ Int.land u mask ∧ Int.land u mask ≤ 3 := by
  have hCases : u = 0 ∨ u = 1 ∨ u = 2 ∨ u = 3 := by omega
  rcases hMask with rfl | rfl <;> rcases hCases with rfl | rfl | rfl | rfl <;> decide

end Counters

/-- Writing one entry keeps a property of all entries. -/
theorem Predictor.AllEntries.setEntry {P : Component → Prop} {predict : Predictor}
    (h : predict.AllEntries P) (i : Nat) {e : Component} (he : P e) :
    (predict.setEntry i e).AllEntries P := by
  intro i' hi' j hj
  by_cases hBank : i' = i
  · subst i'
    by_cases hIndex : j = (predict.indexTagPred i).toNat
    · subst j
      simpa [Predictor.setEntry] using he
    · simpa [Predictor.setEntry, hIndex] using h i hi' j hj
  · simpa [Predictor.setEntry, hBank] using h i' hi' j hj

namespace Predictor.InRange

variable {predict : Predictor} (h : predict.InRange)
include h

/-- The entry of an existing bank that the last lookup selected exists. -/
theorem index_lt {i : Nat} (hi : i < numTagTables) :
    (predict.indexTagPred i).toNat < predict.numberTagEntries := by
  rw [h.numberTagEntries]
  exact h.indexTagPred i hi

theorem entry {i : Nat} (hi : i < numTagTables) : (predict.entry i).InRange :=
  h.entries i hi _ (h.index_lt hi)

theorem bimodalIndex_lt (PC : U64) : predict.bimodalIndex PC < predict.numBimodalEntries :=
  Nat.mod_lt _ (by rw [h.numBimodalEntries]; decide)

theorem getPrediction (PC : U64) : (getPrediction predict PC).2.InRange := by
  rw [getPrediction_snd]
  have hMask {T : Nat} (hT : T < 32) (x : U32) := toNat_and_mask_lt hT x
  exact {
    numBimodalEntries := h.numBimodalEntries
    numberTagEntries := h.numberTagEntries
    bimodal := h.bimodal
    entries := h.entries
    tag := fun i _ => hMask (by decide) _
    indexTagPred := fun i _ => hMask (by decide) _
    primeBank := lookup_primeBank_le predict PC
    altBank := lookup_altBank_le predict PC
    banks := by
      by_cases hHit : (lookup predict PC).primeBank < numTagTables
      · exact Or.inl (lookup_primeBank_lt_altBank predict PC hHit)
      · have hLe := lookup_primeBank_le predict PC
        exact Or.inr ⟨Nat.le_antisymm hLe (Nat.not_lt.mp hHit),
          lookup_altBank_of_miss predict PC hHit⟩
    altBetterCount := h.altBetterCount
    clock := h.clock
    clockFlip := h.clockFlip
    phr := h.phr
    indexComp := h.indexComp
    tagComp := h.tagComp
    ghr := h.ghr }

theorem trainCounters (PC resolveDir predDir : U64) :
    (trainCounters predict PC resolveDir predDir).InRange := by
  unfold Tage.trainCounters
  split_ifs with hHit
  · have hEntry := h.entry hHit
    exact { h with
      entries := h.entries.setEntry _
        ⟨trainPred_mem hEntry.pred _, trainUseful_mem hEntry.u _ _ _, hEntry.tag⟩ }
  · exact { h with
      bimodal := fun b hb => by
        by_cases hIndex : b = predict.bimodalIndex PC
        · subst b
          simpa using trainBimodal_le (h.bimodal _ hb) resolveDir
        · simpa [hIndex] using h.bimodal b hb }

theorem updateAltBetterCount (newEntry : Bool) (resolveDir : U64) :
    (updateAltBetterCount predict newEntry resolveDir).InRange := by
  have hCount := h.altBetterCount
  unfold Tage.updateAltBetterCount
  split_ifs
  · exact { h with altBetterCount := by dsimp only; omega }
  · exact h
  · exact { h with altBetterCount := by dsimp only; omega }
  · exact h
  · exact h
  · exact h

theorem allocate (newEntry : Bool) (resolveDir predDir : U64) (randNo : Fin 100) :
    (allocate predict newEntry resolveDir predDir randNo).InRange := by
  obtain hNone | ⟨i, hBelow, _, _, hWrite⟩ :=
    allocate_cases predict newEntry resolveDir predDir randNo
  · rw [hNone]
    exact h
  · have hExists : i < numTagTables := Nat.lt_of_lt_of_le hBelow h.primeBank
    have hFresh : (predict.freshEntry resolveDir i).InRange := by
      refine ⟨?_, ⟨Int.le_refl 0, (by decide : (0 : Int) ≤ 3)⟩, h.tag i hExists⟩
      simp only [Predictor.freshEntry]
      split_ifs <;> decide
    rw [hWrite]
    exact { h with entries := h.entries.setEntry i hFresh }

theorem maskUseful {mask : Int} (hMask : mask = 1 ∨ mask = 2) :
    (maskUseful predict mask).InRange := by
  refine { h with entries := fun i hi j hj => ?_ }
  have hEntry := h.entries i hi j hj
  simp only [Tage.maskUseful]
  split_ifs
  · exact ⟨hEntry.pred, maskedUseful_mem hEntry.u hMask, hEntry.tag⟩
  · exact hEntry

theorem tick : (tick predict).InRange := by
  have hClock := h.clock
  have hNext : nextClock predict = predict.clock + 1 := Nat.mod_eq_of_lt (by omega)
  unfold Tage.tick resetUseful
  split_ifs with hReset
  · have hFlipped : (flipClock predict).InRange :=
      { h with
        clock := (by decide : 0 < 2 ^ 18)
        clockFlip := by
          simp only [flipClock]
          split_ifs
          · exact Or.inl rfl
          · exact Or.inr rfl }
    dsimp only
    split_ifs
    · exact hFlipped.maskUseful (Or.inl rfl)
    · exact hFlipped.maskUseful (Or.inr rfl)
  · simp only [resetPeriod] at hReset
    exact { h with clock := by dsimp only; omega }

theorem updateTables (PC resolveDir predDir : U64) (randNo : Fin 100) :
    (updateTables predict PC resolveDir predDir randNo).InRange :=
  (((h.trainCounters PC resolveDir predDir).updateAltBetterCount _ resolveDir).allocate
    _ resolveDir predDir randNo).tick

theorem updateHistories (PC resolveDir : U64) :
    (updateHistories predict PC resolveDir).InRange := by
  have hRegister {L T : Nat} {c : CompressedHist} (hc : c.InRange L T) (hT : T < 64)
      (ghr : Nat → U8) : (c.computeHistory ghr).InRange L T :=
    { geomLength := hc.geomLength
      targetLength := hc.targetLength
      compHist := toNat_and_mask_lt (by rw [hc.targetLength]; exact hT) _ }
  have hGhr : ∀ k < ghrLength, (updateGhr predict resolveDir).ghr k = 0 ∨
      (updateGhr predict resolveDir).ghr k = 1 := by
    intro k hk
    cases k with
    | zero =>
        rw [updateGhr_zero]
        split_ifs
        · exact Or.inr rfl
        · exact Or.inl rfl
    | succ k =>
        rw [updateGhr_succ predict resolveDir (by omega)]
        exact h.ghr 0 (by decide)
  unfold Tage.updateHistories
  rw [updateCompHist_eq]
  exact { h with
    phr := toNat_and_mask_lt (by decide) _
    indexComp := fun i hi => by
      change CompressedHist.InRange _ _ (if i < numTagTables then _ else _)
      rw [if_pos hi]
      exact hRegister (h.indexComp i hi) (by decide) _
    tagComp := fun j hj i hi => by
      change CompressedHist.InRange _ _ (if j < 2 ∧ i < numTagTables then _ else _)
      rw [if_pos ⟨hj, hi⟩]
      exact hRegister (h.tagComp j hj i hi) (tagTargetLength_mem j).2 _
    ghr := hGhr }

theorem updatePredictor (PC resolveDir predDir branchTarget : U64) (randNo : Fin 100) :
    (updatePredictor predict PC resolveDir predDir branchTarget randNo).InRange :=
  (h.updateTables PC resolveDir predDir randNo).updateHistories PC resolveDir

theorem stepRecord (r : Record) : (stepRecord predict r).InRange :=
  (h.getPrediction r.PC).updatePredictor _ _ _ r.branchTarget _

end Predictor.InRange

theorem inRange_init : initTagePredictor.InRange where
  numBimodalEntries := rfl
  numberTagEntries := rfl
  bimodal := fun _ _ => (by decide : bimodalCtrInit ≤ 3)
  entries := fun _ _ _ _ =>
    ⟨(by decide : (0 : Int) ≤ 0 ∧ (0 : Int) ≤ 7), (by decide : (0 : Int) ≤ 0 ∧ (0 : Int) ≤ 3),
      (by decide : (0 : U32).toNat < 2 ^ 9)⟩
  tag := fun _ _ => (by decide : (0 : U32).toNat < 2 ^ 9)
  indexTagPred := fun _ _ => (by decide : (0 : U32).toNat < 2 ^ 12)
  primeBank := Nat.le_refl _
  altBank := Nat.le_refl _
  banks := Or.inr ⟨rfl, rfl⟩
  altBetterCount := (by decide : 8 ≤ 15)
  clock := (by decide : 0 < 2 ^ 18)
  clockFlip := Or.inr rfl
  phr := (by decide : (0 : U64).toNat < 2 ^ 16)
  indexComp := fun _ _ => ⟨rfl, rfl, Nat.two_pow_pos _⟩
  tagComp := fun _ _ _ _ => ⟨rfl, rfl, Nat.two_pow_pos _⟩
  ghr := fun _ _ => Or.inl rfl

/-- A predictor with its representation invariant. -/
abbrev ValidPredictor := { predict : Predictor // predict.InRange }

def ValidPredictor.init : ValidPredictor := ⟨initTagePredictor, inRange_init⟩

def ValidPredictor.step (valid : ValidPredictor) (r : Record) : ValidPredictor :=
  ⟨stepRecord valid.val r, valid.property.stepRecord r⟩

/-- A run over valid predictors erases to the run of the program. -/
theorem ValidPredictor.foldl_val (valid : ValidPredictor) (records : List Record) :
    (records.foldl ValidPredictor.step valid).val = runRecords valid.val records := by
  induction records generalizing valid with
  | nil => rfl
  | cons r records ih => exact ih (valid.step r)

/-- The predictor after any run from the initial state is valid. -/
theorem runRecords_inRange (records : List Record) :
    (runRecords initTagePredictor records).InRange := by
  have hErase := ValidPredictor.foldl_val ValidPredictor.init records
  exact hErase ▸ (records.foldl ValidPredictor.step ValidPredictor.init).property

/-- An access to a cell of the bimodal table or of a tagged table. -/
inductive TableAccess where
  | bimodal (index : Nat)
  | tagPred (bank index : Nat)

/-- The cell exists: `bimodal` has `1 << BIMODALLOG` cells and each of the four
banks was allocated with `1 << TAGPREDLOG` entries. -/
def TableAccess.InBounds : TableAccess → Prop
  | .bimodal index => index < 2 ^ 14
  | .tagPred bank index => bank < numTagTables ∧ index < 2 ^ 12

/-- The access to the entry of bank `i` that the cached index selects. -/
def Predictor.entryAccess (predict : Predictor) (i : Nat) : TableAccess :=
  .tagPred i (predict.indexTagPred i).toNat

/-- The accesses of `get_prediction`: the bimodal counter, the banks visited by
the two searches, and the entries that give the predictions. -/
def lookupAccesses (predict : Predictor) (PC : U64) : List TableAccess :=
  let looked := lookup predict PC
  let first := List.range (min (looked.primeBank + 1) numTagTables)
  let second := List.range' (looked.primeBank + 1)
    (min (looked.altBank + 1) numTagTables - (looked.primeBank + 1))
  let chosen := if looked.primeBank < numTagTables then
      (if looked.altBank = numTagTables then [] else [looked.altBank]) ++ [looked.primeBank]
    else []
  .bimodal (predict.bimodalIndex PC) :: (first ++ second ++ chosen).map looked.entryAccess

/-- The accesses of `update_predictor`: the trained counter, the banks scanned
for an allocation, the downward loop, and the sweeps of the reset. -/
def updateAccesses (predict : Predictor) (r : Record) : List TableAccess :=
  let reached := (beforeAllocation predict r).1
  let trained := if reached.primeBank < numTagTables then reached.entryAccess reached.primeBank
    else .bimodal (reached.bimodalIndex r.PC)
  let scanned := if entersScan predict r then
      List.range reached.primeBank ++
        List.range ((scanBanks reached).matchBank r.randNo + 1).toNat
    else []
  let swept := if nextClock predict = resetPeriod then
      (List.range numTagTables).flatMap fun jj =>
        (List.range predict.numberTagEntries).map (TableAccess.tagPred jj)
    else []
  trained :: scanned.map reached.entryAccess ++ swept

theorem Predictor.InRange.entryAccess_inBounds {predict : Predictor} (h : predict.InRange) {i : Nat}
    (hi : i < numTagTables) : (predict.entryAccess i).InBounds :=
  ⟨hi, h.indexTagPred i hi⟩

theorem Predictor.InRange.bimodal_inBounds {predict : Predictor} (h : predict.InRange) (PC : U64) :
    (TableAccess.bimodal (predict.bimodalIndex PC)).InBounds := by
  have hIndex := h.bimodalIndex_lt PC
  rwa [h.numBimodalEntries] at hIndex

theorem lookupAccesses_inBounds {predict : Predictor} (h : predict.InRange) (PC : U64) :
    ∀ a ∈ lookupAccesses predict PC, a.InBounds := by
  intro a ha
  have hLooked := h.getPrediction PC
  rw [getPrediction_snd] at hLooked
  have hAlt := lookup_altBank_le predict PC
  simp only [lookupAccesses, List.mem_cons, List.mem_map, List.mem_append] at ha
  rcases ha with rfl | ⟨i, hVisited, rfl⟩
  · exact h.bimodal_inBounds PC
  · apply hLooked.entryAccess_inBounds
    rcases hVisited with (hFirst | hSecond) | hChosen
    · rw [List.mem_range] at hFirst
      omega
    · rw [List.mem_range'_1] at hSecond
      omega
    · split_ifs at hChosen with hHit hNone
      · simp only [List.nil_append, List.mem_singleton] at hChosen
        omega
      · simp only [List.cons_append, List.nil_append, List.mem_cons, List.not_mem_nil,
          or_false] at hChosen
        omega
      · simp at hChosen

theorem beforeAllocation_inRange {predict : Predictor} (h : predict.InRange) (r : Record) :
    (beforeAllocation predict r).1.InRange :=
  ((h.getPrediction r.PC).trainCounters _ _ _).updateAltBetterCount _ _

theorem updateAccesses_inBounds {predict : Predictor} (h : predict.InRange) (r : Record) :
    ∀ a ∈ updateAccesses predict r, a.InBounds := by
  intro a ha
  have hReached := beforeAllocation_inRange h r
  have hBank := hReached.primeBank
  simp only [updateAccesses, List.cons_append, List.mem_cons, List.mem_append, List.mem_map] at ha
  rcases ha with rfl | ⟨i, hScanned, rfl⟩ | hSwept
  · split_ifs with hHit
    · exact hReached.entryAccess_inBounds hHit
    · exact hReached.bimodal_inBounds r.PC
  · apply hReached.entryAccess_inBounds
    split_ifs at hScanned with hEnter
    · have hStart := matchBank_lt _ (primeBank_pos_of_entersScan predict r hEnter) r.randNo
      simp only [List.mem_append, List.mem_range] at hScanned
      omega
    · simp at hScanned
  · split_ifs at hSwept
    · simp only [List.mem_flatMap, List.mem_map, List.mem_range, h.numberTagEntries] at hSwept
      obtain ⟨jj, hjj, ii, hii, rfl⟩ := hSwept
      exact ⟨hjj, hii⟩
    · simp at hSwept

/-- The representation invariant holds initially, every lookup and the update
that follows it preserve it, and so every access to the tables is in bounds on
every run. -/
theorem representation_invariant :
    initTagePredictor.InRange ∧
    (∀ predict : Predictor, predict.InRange → ∀ PC : U64,
      (getPrediction predict PC).2.InRange ∧
      ((getPrediction predict PC).1 = 0 ∨ (getPrediction predict PC).1 = 1) ∧
      ∀ (resolveDir branchTarget : U64) (randNo : Fin 100),
        (updatePredictor (getPrediction predict PC).2 PC resolveDir (getPrediction predict PC).1
          branchTarget randNo).InRange) ∧
    ∀ records : List Record, AlongRun stepRecord
      (fun predict r => ∀ a ∈ lookupAccesses predict r.PC ++ updateAccesses predict r, a.InBounds)
      initTagePredictor records := by
  refine ⟨inRange_init, fun predict h PC => ⟨h.getPrediction PC, ?_, fun resolveDir target randNo =>
    (h.getPrediction PC).updatePredictor _ _ _ target _⟩, fun records => ?_⟩
  · rw [getPrediction_fst]
    exact boolWord_mem _
  · refine alongRun_of_invariant stepRecord (fun _ r _ h => h.stepRecord r) (fun predict r _ h a ha => ?_)
      (fun _ _ => trivial) inRange_init
    rcases List.mem_append.mp ha with hLookup | hUpdate
    · exact lookupAccesses_inBounds h r.PC a hLookup
    · exact updateAccesses_inBounds h r a hUpdate

end BranchPrediction.Tage
