import BranchPrediction.Library.BlockBuffer
import BranchPrediction.TraceFile.Reader

/-! The helper is a buffer of 42 records that is emptied into the file, and the
file is read back record by record. -/
namespace BranchPrediction.TraceFile

/-- The helper stands for this buffer of records: the words up to `added_length`
wait, the file is the log, and `cicle` counts the blocks. -/
structure Represents (s : Helper) (b : BlockBuffer.State Triple) : Prop where
  addedLength : s.addedLength = 3 * b.pending.length
  buff : s.buff.toList.take s.addedLength = b.pending.flatMap Triple.words
  testTxt : s.testTxt = wordLayout.write (b.log.flatMap Triple.words)
  cicle : s.cicle.toNat = b.log.length / 42

theorem represents_init : Represents Helper.init BlockBuffer.State.empty := ⟨rfl, rfl, rfl, rfl⟩

theorem cicle_nonneg {cicle : BitVec 32} (h : cicle.toNat < 2 ^ 31) : 0 ≤ cicle.toInt := by
  rw [BitVec.toInt_eq_toNat_of_lt (by omega)]
  exact Int.natCast_nonneg _

section Call

variable {s : Helper} {b : BlockBuffer.State Triple} {c : Call}

/-- A record that does not fill the block only moves `added_length`. -/
theorem printer_stays (h : Represents s b) (hActive : 0 ≤ s.cicle.toInt)
    (hRoom : b.pending.length + 1 < 42) :
    ∃ s', printer s c = .ok s' ∧ Represents s' { b with pending := b.pending ++ [c.args] } := by
  have hAdded := h.addedLength
  have hSize : bufferSize = 3 * 42 := rfl
  have hStay : s.addedLength < bufferSize - 3 := by omega
  obtain ⟨buff, hStored, hTaken⟩ :=
    storeTriple_spec s.buff (by omega : s.addedLength + 3 ≤ bufferSize) c.args
  refine ⟨{ s with buff := buff, addedLength := s.addedLength + 3 }, ?_, ?_, ?_, h.testTxt, h.cicle⟩
  · rw [printer, if_pos hActive, if_pos hStay, hStored]
    rfl
  · rw [List.length_append, hAdded]
    rfl
  · rw [hTaken, h.buff, List.flatMap_append, List.flatMap_singleton]

/-- A record that fills the block sends the whole buffer to the file. -/
theorem printer_flushes (h : Represents s b) (hActive : 0 ≤ s.cicle.toInt)
    (hFull : b.pending.length + 1 = 42) (hBlocks : b.log.length / 42 < 2 ^ 31 - 1)
    (hOpens : c.fopens = true) :
    ∃ s', printer s c = .ok s' ∧ Represents s' ⟨[], b.log ++ (b.pending ++ [c.args])⟩ := by
  have hAdded := h.addedLength
  have hCicle := h.cicle
  have hSize : bufferSize = 3 * 42 := rfl
  have hFlush : ¬ s.addedLength < bufferSize - 3 := by omega
  obtain ⟨buff, hStored, hTaken⟩ :=
    storeTriple_spec s.buff (by omega : s.addedLength + 3 ≤ bufferSize) c.args
  have hWhole : buff.toList = (b.pending ++ [c.args]).flatMap Triple.words := by
    rw [List.flatMap_append, List.flatMap_singleton, ← h.buff, ← hTaken, List.take_of_length_le]
    rw [Vector.length_toList]
    omega
  have hNext : (s.cicle + 1).toNat = s.cicle.toNat + 1 := by
    rw [BitVec.toNat_add]
    exact Nat.mod_eq_of_lt (by change s.cicle.toNat + 1 < 2 ^ 32; omega)
  refine ⟨{ buff := buff, addedLength := 0, cicle := s.cicle + 1,
            testTxt := s.testTxt ++ wordLayout.write buff.toList }, ?_, rfl, rfl, ?_, ?_⟩
  · rw [printer, if_pos hActive, if_neg hFlush, hStored]
    change (if c.fopens = true then _ else _) = _
    rw [if_pos hOpens]
    rfl
  · change s.testTxt ++ wordLayout.write buff.toList = _
    rw [hWhole, h.testTxt, ← wordLayout.write_append, ← List.flatMap_append]
  · change (s.cicle + 1).toNat = (b.log ++ (b.pending ++ [c.args])).length / 42
    rw [hNext, hCicle, List.length_append, List.length_append, List.length_singleton]
    omega

/-- One call puts its record into the buffer, and no store is out of bounds. -/
theorem printer_refines (h : Represents s b) (hRoom : b.pending.length < 42)
    (hBlocks : b.log.length / 42 < 2 ^ 31 - 1) (hOpens : c.fopens = true) :
    ∃ s', printer s c = .ok s' ∧ Represents s' (BlockBuffer.push 42 b c.args) := by
  have hCicle := h.cicle
  have hActive : 0 ≤ s.cicle.toInt := cicle_nonneg (by omega)
  by_cases hStay : b.pending.length + 1 < 42
  · rw [BlockBuffer.push, if_pos hStay]
    exact printer_stays h hActive hStay
  · rw [BlockBuffer.push, if_neg hStay]
    exact printer_flushes h hActive (by omega) hBlocks hOpens

end Call

/-- A run in which all files open goes through, and refines the buffer. -/
theorem runCalls_refines {calls : List Call} (hOpens : ∀ c ∈ calls, c.fopens = true)
    (hBlocks : calls.length / 42 < 2 ^ 31 - 1) :
    ∃ s, runCalls calls = .ok s ∧
      Represents s (BlockBuffer.after 42 (calls.map Call.args)) := by
  induction calls using List.reverseRecOn with
  | nil => exact ⟨Helper.init, rfl, represents_init⟩
  | append_singleton calls c ih =>
      rw [List.length_append, List.length_singleton] at hBlocks
      obtain ⟨s, hRun, hRepresents⟩ := ih (fun d hd => hOpens d (List.mem_append_left _ hd)) (by omega)
      obtain ⟨blocks, hSplits⟩ :=
        BlockBuffer.splits_after (by decide : 0 < 42) (calls.map Call.args)
      have hLog : (BlockBuffer.after 42 (calls.map Call.args)).log.length ≤ calls.length := by
        rw [hSplits.eq.1, List.length_take, List.length_map]
        exact Nat.min_le_right _ _
      obtain ⟨s', hStep, hRepresents'⟩ := printer_refines hRepresents hSplits.pending_length
        (by omega) (hOpens c (List.mem_append_right _ List.mem_cons_self))
      refine ⟨s', ?_, ?_⟩
      · rw [runCalls, List.foldlM_append]
        change (runCalls calls >>= fun s => [c].foldlM printer s) = _
        rw [hRun]
        simp [bind, Except.bind, hStep, pure, Except.pure]
      · rw [List.map_append]
        change Represents s' (BlockBuffer.after 42 (calls.map Call.args ++ [c.args]))
        rwa [BlockBuffer.after_concat]

/-- Reading the file back gives the records of the complete blocks in the order
of the calls, and the rest are the words that wait in `buff`. -/
theorem trace_round_trip {calls : List Call} (hOpens : ∀ c ∈ calls, c.fopens = true)
    (hBlocks : calls.length / 42 < 2 ^ 31 - 1) :
    ∃ s, runCalls calls = .ok s ∧
      (∀ buffer, acquireAll s.testTxt buffer =
        (calls.map Call.args).take (42 * (calls.length / 42))) ∧
      s.addedLength = 3 * (calls.length % 42) ∧
      s.buff.toList.take s.addedLength =
        ((calls.map Call.args).drop (42 * (calls.length / 42))).flatMap Triple.words := by
  obtain ⟨s, hRun, hRepresents⟩ := runCalls_refines hOpens hBlocks
  obtain ⟨hLog, hPending⟩ :=
    BlockBuffer.after_eq (by decide : 0 < 42) (calls.map Call.args)
  rw [List.length_map] at hLog hPending
  refine ⟨s, hRun, fun buffer => ?_, ?_, ?_⟩
  · rw [hRepresents.testTxt, acquireAll_write, hLog]
  · rw [hRepresents.addedLength, hPending, List.length_drop, List.length_map]
    omega
  · rw [hRepresents.buff, hPending]

/-- One block and a record more. -/
theorem trace_round_trip_block :
    ∃ s, runCalls (List.replicate 43 ⟨⟨4, 16, 1⟩, true⟩) = .ok s ∧
      (∀ buffer, acquireAll s.testTxt buffer = List.replicate 42 ⟨4, 16, 1⟩) ∧
      s.addedLength = 3 ∧ s.buff.toList.take s.addedLength = [4, 16, 1] :=
  trace_round_trip (fun c hc => by rw [List.eq_of_mem_replicate hc]) (by decide)

end BranchPrediction.TraceFile
