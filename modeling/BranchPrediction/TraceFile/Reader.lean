import BranchPrediction.TraceFile.Helper

/-! The reading of `test.txt`: `acquire` of `common_var.h` and the condition of
the loop in `predictor.c`. -/
namespace BranchPrediction.TraceFile

/-- `SIZE`, the words of one record. -/
abbrev size : Nat := 3

/-- The words that `fread` delivers go to the front of the buffer. -/
def overwrite (buffer : Vector U64 size) (words : List U64) : Vector U64 size :=
  Vector.ofFn fun i => words[i]?.getD buffer[i]

/-- `acquire`: its result, `buffer` and the position in the file. -/
def acquire (fp : List (BitVec 8)) (buffer : Vector U64 size) :
    Int × Vector U64 size × List (BitVec 8) :=
  let (words, rest) := wordLayout.read size fp
  (if words.length ≠ size then -1 else 0, overwrite buffer words, rest)

/-- The record that the buffer holds, with the names of the writer. -/
def recordOf (buffer : Vector U64 size) : Triple :=
  { pc := buffer[0], addr := buffer[1], tNt := buffer[2] }

theorem length_acquire {fp : List (BitVec 8)} {buffer : Vector U64 size}
    (hRead : (acquire fp buffer).1 ≠ -1) : (acquire fp buffer).2.2.length < fp.length := by
  have hFull : (wordLayout.read size fp).1.length = size := by
    by_contra hShort
    exact hRead (if_pos hShort)
  have hRest := wordLayout.length_read_snd hFull
  have hWidth : 0 < size * wordLayout.width := Nat.mul_pos (by decide) wordLayout.width_pos
  change (wordLayout.read size fp).2.length < fp.length
  omega

/-- The records that the loop sees before `acquire` returns -1. -/
def acquireAll (fp : List (BitVec 8)) (buffer : Vector U64 size) : List Triple :=
  if (acquire fp buffer).1 = -1 then []
  else
    recordOf (acquire fp buffer).2.1 ::
      acquireAll (acquire fp buffer).2.2 (acquire fp buffer).2.1
termination_by fp.length
decreasing_by exact length_acquire ‹_›

/-- At the end of the file there is no record. -/
theorem acquireAll_nil (buffer : Vector U64 size) : acquireAll [] buffer = [] := by
  have hEnd : (acquire [] buffer).1 = -1 := by
    rw [acquire, wordLayout.read_nil]
    rfl
  rw [acquireAll, if_pos hEnd]

/-- One record is read with its fields in the order of the writer. -/
theorem acquire_words (t : Triple) (rest : List (BitVec 8)) (buffer : Vector U64 size) :
    acquire (wordLayout.write t.words ++ rest) buffer =
      (0, #v[t.pc, t.addr, t.tNt], rest) := by
  have hRead : wordLayout.read size (wordLayout.write t.words ++ rest) = (t.words, rest) :=
    wordLayout.read_write t.words rest
  rw [acquire, hRead]
  rfl

/-- The loop sees the records that were written one after another. -/
theorem acquireAll_write (records : List Triple) (buffer : Vector U64 size) :
    acquireAll (wordLayout.write (records.flatMap Triple.words)) buffer = records := by
  induction records generalizing buffer with
  | nil => exact acquireAll_nil buffer
  | cons t records ih =>
      have hFirst := acquire_words t (wordLayout.write (records.flatMap Triple.words)) buffer
      have hMore : ¬ (0 : Int) = -1 := by decide
      rw [List.flatMap_cons, wordLayout.write_append, acquireAll, hFirst]
      change (if (0 : Int) = -1 then _ else _) = _
      rw [if_neg hMore, ih]
      rfl

end BranchPrediction.TraceFile
