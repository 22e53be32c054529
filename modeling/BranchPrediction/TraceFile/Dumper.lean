import BranchPrediction.TraceFile.Helper

/-! The program `read.c`, which prints `test.txt` to `leggi.txt`. -/
namespace BranchPrediction.TraceFile

/-- `ITERA`, the blocks that are read. -/
abbrev itera : Nat := 1000

/-- What `fread` makes of an item of which the file has only these bytes. -/
abbrev TornItem := List (BitVec 8) → U64 → U64

/-- `fread` of one block: the items that the file has go to the front of the
buffer, and the rest keeps its words. -/
def freadBlock (torn : TornItem) (fp : List (BitVec 8)) (buffer : Vector U64 bufferSize) :
    Vector U64 bufferSize × List (BitVec 8) :=
  let (words, rest) := wordLayout.read bufferSize fp
  let tail := fp.drop (words.length * wordLayout.width)
  (Vector.ofFn fun i =>
    if h : i.val < words.length then words[i.val]
    else if i.val = words.length ∧ tail ≠ [] then torn tail buffer[i]
    else buffer[i], rest)

/-- `"%" PRIu64`. -/
def decimal (word : U64) : List Char := Nat.toDigits 10 word.toNat

/-- The line `"%s %s %s\n"`. -/
def Triple.line (t : Triple) : List Char :=
  decimal t.pc ++ ' ' :: decimal t.addr ++ ' ' :: decimal t.tNt ++ ['\n']

theorem three_mul_lt (r : Fin 42) : 3 * r.val + 2 < bufferSize := by
  have hr := r.isLt
  change 3 * r.val + 2 < 126
  omega

/-- The words that one round of the inner loop prints. -/
def bufferRecord (buffer : Vector U64 bufferSize) (i : Nat) (hi : i + 2 < bufferSize) : Triple where
  pc := buffer[i]
  addr := buffer[i + 1]
  tNt := buffer[i + 2]

/-- The inner loop, with `i = 3 * r`. -/
def printBlock (buffer : Vector U64 bufferSize) : List Char :=
  (List.finRange 42).flatMap fun r => (bufferRecord buffer (3 * r.val) (three_mul_lt r)).line

/-- The text that this many rounds of the outer loop print. -/
def dumpBlocks (torn : TornItem) : Nat → List (BitVec 8) → Vector U64 bufferSize → List Char
  | 0, _, _ => []
  | j + 1, fp, buffer =>
      let (buffer, fp) := freadBlock torn fp buffer
      printBlock buffer ++ dumpBlocks torn j fp buffer

/-- `main`: the content of `leggi.txt`. The buffer is not initialised. -/
def readMain (torn : TornItem) (buffer : Vector U64 bufferSize) (testTxt : List (BitVec 8)) :
    List Char :=
  dumpBlocks torn itera testTxt buffer

/-- The record with this number in a file. -/
def recordAt (file : List (BitVec 8)) (k : Nat) : Triple where
  pc := wordLayout.item file (3 * k)
  addr := wordLayout.item file (3 * k + 1)
  tNt := wordLayout.item file (3 * k + 2)

/-- The records of which the file has all 24 bytes. -/
def completeRecords (file : List (BitVec 8)) : List Triple :=
  (List.range (file.length / 24)).map (recordAt file)

section Lines

/-- A decimal number has no line break. -/
theorem count_decimal (word : U64) : (decimal word).count '\n' = 0 := by
  rw [List.count_eq_zero]
  intro hBreak
  have hDigit : '\n'.isDigit = true :=
    Nat.isDigit_of_mem_toDigits (by decide) (by decide) hBreak
  exact absurd hDigit (by decide)

theorem count_line (t : Triple) : t.line.count '\n' = 1 := by
  simp [Triple.line, List.count_append, count_decimal]

theorem count_lines (records : List Triple) :
    (records.flatMap Triple.line).count '\n' = records.length := by
  induction records with
  | nil => rfl
  | cons t records ih =>
      rw [List.flatMap_cons, List.count_append, count_line, ih, List.length_cons, Nat.add_comm]

theorem printBlock_eq (buffer : Vector U64 bufferSize) :
    printBlock buffer = ((List.finRange 42).map fun r =>
      bufferRecord buffer (3 * r.val) (three_mul_lt r)).flatMap Triple.line := by
  rw [printBlock, List.flatMap_map]

/-- Whatever the file holds, each round prints 42 lines. -/
theorem count_dumpBlocks (torn : TornItem) (m : Nat) (fp : List (BitVec 8))
    (buffer : Vector U64 bufferSize) : (dumpBlocks torn m fp buffer).count '\n' = 42 * m := by
  induction m generalizing fp buffer with
  | zero => rfl
  | succ m ih =>
      simp only [dumpBlocks]
      rw [List.count_append, ih, printBlock_eq, count_lines, List.length_map, List.length_finRange]
      omega

end Lines

section Blocks

variable {file : List (BitVec 8)}

/-- A block that the file has in full. -/
theorem freadBlock_of_le (torn : TornItem) (hLong : 1008 ≤ file.length)
    (buffer : Vector U64 bufferSize) :
    freadBlock torn file buffer =
      (Vector.ofFn fun i => wordLayout.item file i.val, file.drop 1008) := by
  have hRead : wordLayout.read bufferSize file =
      ((List.range bufferSize).map (wordLayout.item file), file.drop (bufferSize * 8)) :=
    wordLayout.read_of_le hLong
  have hDelivered : ((List.range bufferSize).map (wordLayout.item file)).length = bufferSize := by
    rw [List.length_map, List.length_range]
  simp only [freadBlock, hRead]
  congr 2
  funext i
  have hPart : i.val < ((List.range bufferSize).map (wordLayout.item file)).length := by
    rw [hDelivered]
    exact i.isLt
  rw [dif_pos hPart, List.getElem_map, List.getElem_range]

theorem recordAt_drop (file : List (BitVec 8)) (k : Nat) :
    recordAt (file.drop 1008) k = recordAt file (42 + k) := by
  have hWord (i : Nat) : wordLayout.item (file.drop 1008) i = wordLayout.item file (126 + i) :=
    wordLayout.item_drop file 126 i
  simp only [recordAt, hWord, Nat.mul_add, Nat.add_assoc]

theorem printBlock_freadBlock (torn : TornItem) (hLong : 1008 ≤ file.length)
    (buffer : Vector U64 bufferSize) :
    printBlock (freadBlock torn file buffer).1 =
      ((List.range 42).map (recordAt file)).flatMap Triple.line := by
  rw [freadBlock_of_le torn hLong, printBlock_eq, ← List.map_coe_finRange_eq_range, List.map_map]
  refine congrArg (List.flatMap Triple.line) (List.map_congr_left fun r _ => ?_)
  simp only [bufferRecord, recordAt, Function.comp_apply, Vector.getElem_ofFn]

/-- Rounds that find their blocks in the file print the records in order. -/
theorem dumpBlocks_eq (torn : TornItem) {m : Nat} (hLong : 1008 * m ≤ file.length)
    (buffer : Vector U64 bufferSize) :
    dumpBlocks torn m file buffer =
      ((List.range (42 * m)).map (recordAt file)).flatMap Triple.line := by
  induction m generalizing file buffer with
  | zero => rfl
  | succ m ih =>
      have hFirst : 1008 ≤ file.length := by omega
      have hRest : 1008 * m ≤ (file.drop 1008).length := by
        rw [List.length_drop]
        omega
      have hRange : List.range (42 * (m + 1)) =
          List.range 42 ++ (List.range (42 * m)).map (42 + ·) := by
        rw [Nat.mul_succ, Nat.add_comm, List.range_add]
      simp only [dumpBlocks]
      rw [printBlock_freadBlock torn hFirst, freadBlock_of_le torn hFirst, ih hRest, hRange,
        List.map_append, List.map_map, List.flatMap_append]
      have hShift : recordAt file ∘ (42 + ·) = recordAt (file.drop 1008) :=
        funext fun k => (recordAt_drop file k).symm
      rw [hShift]

end Blocks

/-- The program prints the records of a file, with or without an incomplete one at
its end, one a line and nothing else, exactly if there are 42000 of them. -/
theorem prints_records_iff (torn : TornItem) (buffer : Vector U64 bufferSize)
    (testTxt : List (BitVec 8)) :
    readMain torn buffer testTxt = (completeRecords testTxt).flatMap Triple.line ↔
      testTxt.length / 24 = 42000 := by
  constructor
  · intro hPrinted
    have hLines := congrArg (List.count '\n') hPrinted
    rw [readMain, count_dumpBlocks, count_lines, completeRecords, List.length_map,
      List.length_range] at hLines
    exact hLines.symm
  · intro hFull
    have hLong : 1008 * itera ≤ testTxt.length := by
      simp only [itera]
      omega
    have hAll : 42 * itera = testTxt.length / 24 := hFull.symm
    rw [readMain, dumpBlocks_eq torn hLong, completeRecords, hAll]

/-- A file of one record is printed as 42000 lines. -/
theorem one_record_printed :
    let testTxt := wordLayout.write (Triple.words ⟨4, 16, 1⟩)
    let leggiTxt := readMain (fun _ word => word) (Vector.replicate bufferSize 0) testTxt
    testTxt.length / 24 ≤ 42000 ∧ completeRecords testTxt = [⟨4, 16, 1⟩] ∧
      leggiTxt.count '\n' = 42000 ∧
      leggiTxt ≠ (completeRecords testTxt).flatMap Triple.line := by
  intro testTxt leggiTxt
  have hRecords : completeRecords testTxt = [⟨4, 16, 1⟩] := by decide
  have hLines : leggiTxt.count '\n' = 42000 := count_dumpBlocks _ itera _ _
  refine ⟨by decide, hRecords, hLines, fun hPrinted => ?_⟩
  rw [hPrinted, hRecords, count_lines] at hLines
  exact absurd hLines (by decide)

end BranchPrediction.TraceFile
