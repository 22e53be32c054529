import BranchPrediction.Bimodal.TableLength
import BranchPrediction.Tage.Run
import BranchPrediction.TraceFile.RoundTrip

/-! The two programs that read `test.txt`: `main` of `predictor.c` and of
`branch.c`. Both count what the first records of the file give, as far as whole
blocks were written. -/
namespace BranchPrediction.TraceFile

section Loop

variable {State : Type} (iCount : State → Nat) (body : State → Triple → Option State) (limit : Int)

/-- `while (acquire(fp, buffer) != -1 && iCount < atoi(argv[1]))`; `none` when the
body does not end. -/
def readLoop (fp : List (BitVec 8)) (buffer : Vector U64 size) (s : State) : Option State :=
  if (acquire fp buffer).1 = -1 then some s
  else if (iCount s : Int) < limit then do
    let s ← body s (recordOf (acquire fp buffer).2.1)
    readLoop (acquire fp buffer).2.2 (acquire fp buffer).2.1 s
  else some s
termination_by fp.length
decreasing_by exact length_acquire ‹_›

variable {iCount body limit}

/-- The loop runs on the records of the file up to its limit. -/
theorem readLoop_eq (hCount : ∀ s t s', body s t = some s' → iCount s' = iCount s + 1)
    (fp : List (BitVec 8)) (buffer : Vector U64 size) (s : State) :
    readLoop iCount body limit fp buffer s =
      ((acquireAll fp buffer).take (limit - iCount s).toNat).foldlM body s := by
  induction fp, buffer using acquireAll.induct generalizing s with
  | case1 fp buffer hEnd =>
      rw [readLoop, acquireAll, if_pos hEnd, if_pos hEnd, List.take_nil]
      rfl
  | case2 fp buffer hMore ih =>
      rw [readLoop, acquireAll, if_neg hMore, if_neg hMore]
      by_cases hBelow : (iCount s : Int) < limit
      · obtain ⟨n, hn⟩ : ∃ n, (limit - iCount s).toNat = n + 1 :=
          ⟨(limit - iCount s).toNat - 1, by omega⟩
        rw [if_pos hBelow, hn, List.take_succ_cons, List.foldlM_cons]
        cases hBody : body s (recordOf (acquire fp buffer).2.1) with
        | none => rfl
        | some s' =>
            have hNext := hCount s _ s' hBody
            have hRest : (limit - iCount s').toNat = n := by omega
            change readLoop iCount body limit _ _ s' = _
            rw [ih, hRest]
            rfl
      · have hNone : (limit - iCount s).toNat = 0 := by omega
        rw [if_neg hBelow, hNone, List.take_zero]
        rfl

end Loop

/-- A run in which all files open leaves the records of the complete blocks in the
file. -/
theorem acquireAll_runCalls {calls : List Call} (hOpens : ∀ c ∈ calls, c.fopens = true)
    (hBlocks : calls.length / 42 < 2 ^ 31 - 1) :
    ∃ helper, runCalls calls = .ok helper ∧ ∀ buffer, acquireAll helper.testTxt buffer =
      (calls.map Call.args).take (42 * (calls.length / 42)) := by
  obtain ⟨helper, hRun, hRepresents⟩ := runCalls_refines hOpens hBlocks
  obtain ⟨hLog, _⟩ := BlockBuffer.after_eq (by decide : 0 < 42) (calls.map Call.args)
  rw [List.length_map] at hLog
  refine ⟨helper, hRun, fun buffer => ?_⟩
  rw [hRepresents.testTxt, acquireAll_write, hLog]

section Tage

open BranchPrediction.Tage

/-- The arguments that `predictor.c` takes from the buffer, with the random number
of the update. -/
def Triple.record (t : Triple) (randNo : Fin 100) : Record :=
  { PC := t.pc, branchTarget := t.addr, resolveDir := t.tNt, randNo := randNo }

/-- The records made of some triples; `rand` gives the random numbers, one for each
update. -/
def records (rand : Nat → Fin 100) (triples : List Triple) : List Record :=
  triples.mapIdx fun n t => t.record (rand n)

/-- The body of the loop of `predictor.c`. -/
def predictorBody (rand : Nat → Fin 100) (s : Session) (t : Triple) : Option Session :=
  some (s.consume (t.record (rand s.iCount)))

/-- `main` of `predictor.c` up to the statistics. -/
def predictorMain (limit : Int) (rand : Nat → Fin 100) (fp : List (BitVec 8))
    (buffer : Vector U64 size) : Option Session :=
  readLoop Session.iCount (predictorBody rand) limit fp buffer Session.init

theorem foldlM_predictorBody (rand : Nat → Fin 100) (triples : List Triple) (s : Session) :
    triples.foldlM (predictorBody rand) s =
      some ((triples.mapIdx fun n t => t.record (rand (s.iCount + n))).foldl Session.consume s) := by
  induction triples generalizing s with
  | nil => rfl
  | cons t triples ih =>
      have hShift (n : Nat) : s.iCount + 1 + n = s.iCount + (n + 1) := by omega
      rw [List.foldlM_cons, List.mapIdx_cons, List.foldl_cons]
      change triples.foldlM (predictorBody rand) (s.consume (t.record (rand s.iCount))) = _
      rw [ih]
      simp only [Session.consume, hShift]
      rfl

theorem records_take (rand : Nat → Fin 100) (triples : List Triple) (n : Nat) :
    records rand (triples.take n) = (records rand triples).take n := by
  apply List.ext_getElem?
  intro i
  simp only [records, List.getElem?_mapIdx, List.getElem?_take]
  split_ifs <;> rfl

/-- The program counts what the loop over the records of the file counts. -/
theorem predictorMain_eq (limit : Int) (rand : Nat → Fin 100) (fp : List (BitVec 8))
    (buffer : Vector U64 size) :
    predictorMain limit rand fp buffer =
      some (mainLoop limit Session.init (records rand (acquireAll fp buffer))) := by
  have hCount (s : Session) (t : Triple) (s' : Session) (hBody : predictorBody rand s t = some s') :
      s'.iCount = s.iCount + 1 := by
    obtain rfl := Option.some.inj hBody
    rfl
  rw [predictorMain, readLoop_eq hCount, foldlM_predictorBody, mainLoop_eq, ← records_take]
  simp only [records, Session.init, Nat.zero_add]

/-- The statistics of `predictor.c` after a run of the helper are those of the
predictor on the calls of the complete blocks, whatever the buffer held. -/
theorem tage_statistics (calls : List Call) (hOpens : ∀ c ∈ calls, c.fopens = true)
    (hBlocks : calls.length / 42 < 2 ^ 31 - 1) :
    ∃ helper, runCalls calls = .ok helper ∧ ∀ limit rand buffer,
      predictorMain limit rand helper.testTxt buffer =
        some (mainLoop limit Session.init
          (records rand ((calls.map Call.args).take (42 * (calls.length / 42))))) := by
  obtain ⟨helper, hRun, hFile⟩ := acquireAll_runCalls hOpens hBlocks
  exact ⟨helper, hRun, fun limit rand buffer => by rw [predictorMain_eq, hFile]⟩

/-- A block of 42 calls and one more, which stays in the helper. -/
theorem tage_statistics_block :
    ∃ helper s, runCalls (List.replicate 43 ⟨⟨4, 16, 1⟩, true⟩) = .ok helper ∧
      predictorMain 50 (fun _ => leastRand) helper.testTxt (Vector.replicate size 0) = some s ∧
        s.iCount = 42 := by
  obtain ⟨helper, hRun, hMain⟩ := tage_statistics (List.replicate 43 ⟨⟨4, 16, 1⟩, true⟩)
    (fun c hc => by rw [List.eq_of_mem_replicate hc]) (by decide)
  exact ⟨helper, _, hRun, hMain 50 (fun _ => leastRand) _, rfl⟩

end Tage

section Bimodal

open BranchPrediction.Bimodal (bucket answersAfter)

/-- The variables of `main` of `branch.c`. -/
structure BranchSession where
  table : Bimodal.Store
  iCount : Nat
  bimodal2bit1024 : Nat

def BranchSession.init : BranchSession :=
  { table := .empty, iCount := 0, bimodal2bit1024 := 0 }

/-- The arguments that `branch.c` takes from the buffer. -/
def Triple.call (t : Triple) : Bimodal.Call := { PC := t.pc, taken := t.tNt, targetAddr := t.addr }

/-- The body of the loop of `branch.c`. -/
def branchBody (s : BranchSession) (t : Triple) : Option BranchSession := do
  let (correct, table) ← Bimodal.bimodalImplementation s.table t.pc t.tNt t.addr
  return {
    table := table
    iCount := s.iCount + 1
    bimodal2bit1024 := s.bimodal2bit1024 + correct.toNat }

/-- `main` of `branch.c`: the statistics and the table length. -/
def branchMain (limit : Int) (fp : List (BitVec 8)) (buffer : Vector U64 size) :
    Option (BranchSession × Nat) := do
  let s ← readLoop BranchSession.iCount branchBody limit fp buffer BranchSession.init
  return (s, ← s.table.tableLength)

theorem foldlM_branchBody (triples : List Triple) (s : BranchSession) :
    triples.foldlM branchBody s =
      (Bimodal.runCalls s.table (triples.map Triple.call)).map fun (answers, table) =>
        { table := table
          iCount := s.iCount + triples.length
          bimodal2bit1024 := s.bimodal2bit1024 + answers.count true } := by
  induction triples generalizing s with
  | nil => rfl
  | cons t triples ih =>
      rw [List.foldlM_cons, List.map_cons, Bimodal.runCalls]
      simp only [branchBody, Triple.call]
      cases Bimodal.bimodalImplementation s.table t.pc t.tNt t.addr with
      | none => rfl
      | some result =>
          obtain ⟨correct, table⟩ := result
          change triples.foldlM branchBody
              ⟨table, s.iCount + 1, s.bimodal2bit1024 + correct.toNat⟩ = _
          rw [ih]
          cases hRest : Bimodal.runCalls table (triples.map Triple.call) with
          | none => simp [hRest]
          | some rest =>
              have hCorrect : correct.toNat = if correct = true then 1 else 0 := by
                cases correct <;> rfl
              simp [hRest, List.count_cons, hCorrect]
              omega

/-- The loop of `branch.c` ends on every file, and leaves the table of the calls
and the number of correct answers. -/
theorem branchLoop_eq (limit : Int) (fp : List (BitVec 8)) (buffer : Vector U64 size) :
    ∃ table, readLoop BranchSession.iCount branchBody limit fp buffer BranchSession.init =
        some
          { table := table
            iCount := ((acquireAll fp buffer).take limit.toNat).length
            bimodal2bit1024 := (answersAfter bucket []
              (((acquireAll fp buffer).take limit.toNat).map Triple.call)).count true } ∧
      Bimodal.Represents table (((acquireAll fp buffer).take limit.toNat).map Triple.call) := by
  have hCount (s : BranchSession) (t : Triple) (s' : BranchSession) (hBody : branchBody s t = some s') :
      s'.iCount = s.iCount + 1 := by
    simp only [branchBody, Option.bind_eq_bind, Option.bind_eq_some_iff] at hBody
    obtain ⟨_, _, hNext⟩ := hBody
    obtain rfl := Option.some.inj hNext
    rfl
  obtain ⟨table, hRun, hRepresents⟩ := Bimodal.runCalls_represents Bimodal.represents_empty
    (((acquireAll fp buffer).take limit.toNat).map Triple.call)
  refine ⟨table, ?_, hRepresents⟩
  have hLimit : (limit - (BranchSession.init.iCount : Nat)).toNat = limit.toNat := by
    simp [BranchSession.init]
  rw [readLoop_eq hCount, hLimit, foldlM_branchBody]
  change (Bimodal.runCalls Bimodal.Store.empty _).map _ = _
  rw [hRun]
  simp [BranchSession.init]

/-- The calls of the complete blocks up to the limit, as `branch.c` sees them. -/
def usedCalls (limit : Int) (calls : List Call) : List Bimodal.Call :=
  (((calls.map Call.args).take (42 * (calls.length / 42))).take limit.toNat).map Triple.call

/-- The statistics of `branch.c` after a run of the helper: it counts the calls of
the complete blocks up to its limit, the answers of counters that the branches
of a bucket share, and one node for each PC and for each unused bucket. -/
theorem bimodal_statistics (calls : List Call) (limit : Int)
    (hOpens : ∀ c ∈ calls, c.fopens = true) (hBlocks : calls.length / 42 < 2 ^ 31 - 1)
    (hFits : (Bimodal.seenPCs (usedCalls limit calls)).length +
      (Bimodal.unusedBuckets (usedCalls limit calls)).length ≤ Bimodal.intMax) :
    ∃ helper, runCalls calls = .ok helper ∧ ∀ buffer, ∃ table,
      branchMain limit helper.testTxt buffer =
        some (⟨table, (usedCalls limit calls).length,
            (answersAfter bucket [] (usedCalls limit calls)).count true⟩,
          (Bimodal.seenPCs (usedCalls limit calls)).length +
            (Bimodal.unusedBuckets (usedCalls limit calls)).length) := by
  obtain ⟨helper, hRun, hFile⟩ := acquireAll_runCalls hOpens hBlocks
  refine ⟨helper, hRun, fun buffer => ?_⟩
  obtain ⟨table, hLoop, hRepresents⟩ := branchLoop_eq limit helper.testTxt buffer
  rw [hFile] at hLoop hRepresents
  have hLength := hRepresents.tableLength_eq hFits
  refine ⟨table, ?_⟩
  rw [branchMain, hLoop]
  simp only [Option.bind_eq_bind, Option.bind_some, usedCalls, hLength, List.length_map]
  rfl

/-- Of two calls with one PC the second is answered correctly. -/
theorem bimodal_statistics_block :
    ∃ helper s n, runCalls (List.replicate 43 ⟨⟨4, 16, 1⟩, true⟩) = .ok helper ∧
      branchMain 2 helper.testTxt (Vector.replicate size 0) = some (s, n) ∧ s.iCount = 2 ∧
        s.bimodal2bit1024 = 1 := by
  have hUsed : usedCalls 2 (List.replicate 43 ⟨⟨4, 16, 1⟩, true⟩) = [⟨4, 1, 16⟩, ⟨4, 1, 16⟩] := rfl
  have hSeen : (Bimodal.seenPCs [⟨4, 1, 16⟩, ⟨4, 1, 16⟩]).length = 1 := by decide
  have hUnused : (Bimodal.unusedBuckets [⟨4, 1, 16⟩, ⟨4, 1, 16⟩]).length ≤ 1024 :=
    (List.length_filter_le _ _).trans (List.length_range).le
  obtain ⟨helper, hRun, hMain⟩ := bimodal_statistics (List.replicate 43 ⟨⟨4, 16, 1⟩, true⟩) 2
    (fun c hc => by rw [List.eq_of_mem_replicate hc]) (by decide)
    (by rw [hUsed, hSeen, Bimodal.intMax]; omega)
  obtain ⟨table, hTable⟩ := hMain (Vector.replicate size 0)
  refine ⟨helper, _, _, hRun, hTable, rfl, ?_⟩
  have hGood : (answersAfter bucket [] [⟨4, 1, 16⟩, ⟨4, 1, 16⟩]).count true = 1 := by decide +kernel
  rw [hUsed]
  exact hGood

end Bimodal

end BranchPrediction.TraceFile
