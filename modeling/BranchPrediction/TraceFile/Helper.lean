import BranchPrediction.Library.WordStream

/-! The helper `printer` of `helper-a64.c` that writes the trace to `test.txt`. -/
namespace BranchPrediction.TraceFile

abbrev U64 := BitVec 64

abbrev bufferSize : Nat := 126

/-- The arguments of one call, which are one record of the trace. -/
structure Triple where
  pc : U64
  addr : U64
  tNt : U64
deriving DecidableEq, Repr

def Triple.words (t : Triple) : List U64 := [t.pc, t.addr, t.tNt]

/-- A call, and whether an `fopen` during it succeeds. -/
structure Call where
  args : Triple
  fopens : Bool
deriving DecidableEq, Repr

/-- What ends the program: an access outside `buff`, or `fwrite` to the stream
that `fopen` did not open, which the helper only reports. -/
inductive Fault where
  | outOfBounds (index : Nat)
  | nullStream (message : String)
deriving DecidableEq, Repr

/-- The words of a file, in the byte order of the host. -/
def wordLayout : WordStream.Layout U64 (BitVec 8) := WordStream.littleEndian 8 (by decide)

/-- The static variables of the helper, and the file. -/
structure Helper where
  buff : Vector U64 bufferSize
  addedLength : Nat
  cicle : BitVec 32
  testTxt : List (BitVec 8)

def Helper.init : Helper where
  buff := Vector.replicate bufferSize 0
  addedLength := 0
  cicle := 0
  testTxt := []

/-- `buff[index] = word`. -/
def storeWord (buff : Vector U64 bufferSize) (index : Nat) (word : U64) :
    Except Fault (Vector U64 bufferSize) :=
  if h : index < bufferSize then .ok (buff.set index word) else .error (.outOfBounds index)

/-- The three stores that both branches of the helper make. -/
def storeTriple (buff : Vector U64 bufferSize) (index : Nat) (t : Triple) :
    Except Fault (Vector U64 bufferSize) := do
  let buff ← storeWord buff index t.pc
  let buff ← storeWord buff (index + 1) t.addr
  storeWord buff (index + 2) t.tNt

/-- One call of the helper. The file is opened for appending, and `fwrite` puts
the whole buffer at its end. -/
def printer (s : Helper) (c : Call) : Except Fault Helper :=
  if 0 ≤ s.cicle.toInt then
    if s.addedLength < bufferSize - 3 then do
      let buff ← storeTriple s.buff s.addedLength c.args
      return { s with buff := buff, addedLength := s.addedLength + 3 }
    else do
      let buff ← storeTriple s.buff s.addedLength c.args
      if c.fopens then
        return {
          buff := buff
          addedLength := 0
          cicle := s.cicle + 1
          testTxt := s.testTxt ++ wordLayout.write buff.toList }
      else throw (.nullStream "ERROR OPENING FILE\n")
  else return s

/-- The calls of a run, from the start of the program and an empty file. -/
def runCalls (calls : List Call) : Except Fault Helper := calls.foldlM printer Helper.init

section Stores

variable (buff : Vector U64 bufferSize) {index : Nat}

theorem storeWord_spec (hIndex : index < bufferSize) (word : U64) :
    ∃ buff', storeWord buff index word = .ok buff' ∧
      buff'.toList.take (index + 1) = buff.toList.take index ++ [word] := by
  refine ⟨buff.set index word, dif_pos hIndex, ?_⟩
  have hLength : index < buff.toList.length := by
    rw [Vector.length_toList]
    exact hIndex
  rw [Vector.toList_set, List.take_add_one, List.take_set_of_le (Nat.le_refl index),
    List.getElem?_set_self hLength]
  rfl

/-- A triple that fits is stored behind what is there. -/
theorem storeTriple_spec (hIndex : index + 3 ≤ bufferSize) (t : Triple) :
    ∃ buff', storeTriple buff index t = .ok buff' ∧
      buff'.toList.take (index + 3) = buff.toList.take index ++ t.words := by
  obtain ⟨first, hFirst, hPc⟩ := storeWord_spec buff (by omega : index < bufferSize) t.pc
  obtain ⟨second, hSecond, hAddr⟩ :=
    storeWord_spec first (by omega : index + 1 < bufferSize) t.addr
  obtain ⟨third, hThird, hTaken⟩ :=
    storeWord_spec second (by omega : index + 2 < bufferSize) t.tNt
  refine ⟨third, ?_, ?_⟩
  · simp only [storeTriple, hFirst, hSecond, hThird, bind, Except.bind]
  · rw [hTaken, hAddr, hPc, List.append_assoc, List.append_assoc]
    rfl

end Stores

end BranchPrediction.TraceFile
