import BranchPrediction.Library.TableSum
import BranchPrediction.Bimodal.PerBranch

/-! The table as a whole: what the chains hold after any calls, and the size
that `main` prints. -/
namespace BranchPrediction.Bimodal

open LinkedChain

/-- The largest `int`. -/
abbrev intMax : Nat := 2 ^ 31 - 1

/-- A sum of two counters; the overflow of an `int` is undefined. -/
def addInt (a b : Nat) : Option Nat := if a + b ≤ intMax then some (a + b) else none

namespace Store

/-- The loop of `size_counter`; `none` is a loop that does not end, or an overflow. -/
def countNodes (s : Store) : Nat → Nat → Nat → Option Nat
  | 0, _, _ => none
  | fuel + 1, temp, counterSize =>
      match s.next temp with
      | none => some counterSize
      | some successor => do s.countNodes fuel successor (← addInt counterSize 1)

/-- `size_counter`, which answers 1 for an empty bucket too. -/
def sizeCounter (s : Store) (index : Nat) : Option Nat :=
  match s.table index with
  | none => some 1
  | some head => s.countNodes s.count head 1

/-- The loop over the first `n` buckets at the end of `main`. -/
def totalSize (s : Store) (n : Nat) : Option Nat :=
  (List.range n).foldlM (fun tot i => do addInt tot (← s.sizeCounter i)) 0

/-- The number that is printed as `table length`. -/
def tableLength (s : Store) : Option Nat := s.totalSize 1024

end Store

section Counting

variable {s : Store}

theorem countNodes_eq {head : Nat} {cells : List Nat} (hChain : Chain s.next (some head) cells)
    {fuel counter : Nat} (hFuel : cells.length ≤ fuel)
    (hFits : counter + cells.length ≤ intMax + 1) :
    s.countNodes fuel head counter = some (counter + cells.length - 1) := by
  induction fuel generalizing head cells counter with
  | zero =>
      cases hChain
      simp at hFuel
  | succ fuel ih =>
      cases hChain with
      | @cons _ rest hRest =>
          cases hNext : s.next head with
          | none =>
              rw [hNext] at hRest
              cases hRest
              simp [Store.countNodes, hNext]
          | some successor =>
              rw [hNext] at hRest
              have hAnother : 0 < rest.length := by
                cases hRest
                exact Nat.succ_pos _
              rw [List.length_cons] at hFuel hFits ⊢
              have hAdd : addInt counter 1 = some (counter + 1) := if_pos (by omega)
              have hCount := ih hRest (Nat.le_of_succ_le_succ hFuel)
                (by omega : counter + 1 + rest.length ≤ intMax + 1)
              simp only [Store.countNodes, hNext, hAdd, Option.bind_eq_bind, Option.bind_some,
                hCount, Option.some.injEq]
              omega

theorem BucketChain.sizeCounter_eq {PCs : List U64} {b : Nat} {cells : List Nat}
    (h : BucketChain s PCs b cells) (hFits : max 1 cells.length ≤ intMax) :
    s.sizeCounter b = some (max 1 cells.length) := by
  have hChain := h.chain
  cases hTable : s.table b with
  | none =>
      have hEmpty : cells = [] := hChain.start_eq_none_iff.mp hTable
      rw [Store.sizeCounter, hTable, hEmpty]
      rfl
  | some head =>
      rw [hTable] at hChain
      have hCount := countNodes_eq hChain h.length_le (by omega : 1 + cells.length ≤ intMax + 1)
      have hPos : 0 < cells.length := by
        cases hChain
        exact Nat.succ_pos _
      rw [Store.sizeCounter, hTable]
      change s.countNodes s.count head 1 = _
      rw [hCount]
      congr 1
      omega

/-- The loop over the buckets, as long as no sum overflows. -/
theorem totalSize_eq {size : Nat → Nat} {n : Nat}
    (hSize : ∀ b < n, size b ≤ intMax → s.sizeCounter b = some (size b))
    (hFits : ∑ b ∈ Finset.range n, size b ≤ intMax) :
    s.totalSize n = some (∑ b ∈ Finset.range n, size b) := by
  induction n with
  | zero => rfl
  | succ n ih =>
      rw [Finset.sum_range_succ] at hFits ⊢
      have hBefore := ih (fun b hb => hSize b (Nat.lt_succ_of_lt hb)) (by omega)
      have hLast := hSize n (Nat.lt_succ_self n) (by omega)
      have hAdd : addInt (∑ b ∈ Finset.range n, size b) (size n) =
          some (∑ b ∈ Finset.range n, size b + size n) := if_pos hFits
      rw [Store.totalSize, List.range_succ, List.foldlM_append]
      change (s.totalSize n >>= _) = _
      rw [hBefore]
      simp [hLast, hAdd]

end Counting

theorem bucket_lt (PC : U64) : bucket PC < 1024 := by
  rw [bucket, BitVec.toNat_umod]
  exact Nat.mod_lt _ (by decide)

/-- The buckets to which no PC of the calls hashes. -/
def unusedBuckets (calls : List Call) : List Nat :=
  (List.range 1024).filter fun b => ∀ call ∈ calls, bucket call.PC ≠ b

theorem filter_bucket_length_eq_zero_iff {calls : List Call} {b : Nat} :
    ((seenPCs calls).filter fun PC => bucket PC = b).length = 0 ↔
      ∀ call ∈ calls, bucket call.PC ≠ b := by
  rw [List.length_eq_zero_iff, List.filter_eq_nil_iff]
  simp only [mem_seenPCs, decide_eq_true_eq, ne_eq, List.forall_mem_map]

/-- Every PC is counted once, and every unused bucket as one. -/
theorem Represents.tableLength_eq {s : Store} {calls : List Call} (h : Represents s calls)
    (hFits : (seenPCs calls).length + (unusedBuckets calls).length ≤ intMax) :
    s.tableLength = some ((seenPCs calls).length + (unusedBuckets calls).length) := by
  let size (b : Nat) : Nat := ((seenPCs calls).filter fun PC => bucket PC = b).length
  have hBuckets : ∑ b ∈ Finset.range 1024, size b = (seenPCs calls).length :=
    TableSum.sum_length_filter bucket fun PC _ => bucket_lt PC
  have hUnused : ((List.range 1024).filter fun b => size b = 0) = unusedBuckets calls := by
    unfold unusedBuckets
    refine List.filter_congr fun b _ => ?_
    exact decide_eq_decide.mpr filter_bucket_length_eq_zero_iff
  have hTotal : ∑ b ∈ Finset.range 1024, max 1 (size b) =
      (seenPCs calls).length + (unusedBuckets calls).length := by
    rw [TableSum.sum_max_one, hBuckets, hUnused]
  rw [← hTotal]
  refine totalSize_eq (fun b _ hSmall => ?_) (hTotal ▸ hFits)
  obtain ⟨cells, hCells⟩ := h.chains b
  have hLength : cells.length = size b := by
    rw [← List.length_map s.pc, hCells.pcs]
  rw [← hLength] at hSmall ⊢
  exact hCells.sizeCounter_eq hSmall

/-- What a bucket is after calls that saw `PCs`: a chain without a cycle, with one
node for each PC of the bucket, in their order, that every walk gets through. -/
structure BucketInOrder (s : Store) (PCs : List U64) (b : Nat) (cells : List Nat) : Prop where
  chain : Chain s.next (s.table b) cells
  acyclic : cells.Nodup
  pcs : cells.map s.pc = PCs.filter fun PC => bucket PC = b
  distinct : (cells.map s.pc).Nodup
  hashed : ∀ a ∈ cells, bucket (s.pc a) = b
  state_le : ∀ a ∈ cells, (s.node a).state ≤ 3
  walks : ∀ PC head, s.table b = some head →
    ∃ temp, walk s.next (fun a => s.pc a = PC) s.count head = some temp

theorem Represents.bucketInOrder {s : Store} {calls : List Call} (h : Represents s calls) (b : Nat) :
    ∃ cells, BucketInOrder s (seenPCs calls) b cells := by
  obtain ⟨cells, hCells⟩ := h.chains b
  refine ⟨cells, hCells.chain, hCells.chain.nodup, hCells.pcs, ?_, fun a ha => hCells.bucket_pc ha,
    fun a ha => h.state_le a (hCells.allocated a ha), fun PC head hHead => ?_⟩
  · rw [hCells.pcs]
    exact (nodup_seenPCs calls).filter _
  · have hChain := hCells.chain
    rw [hHead] at hChain
    obtain ⟨_, found, _, hWalk, _⟩ := hChain.walk_eq (fun a => s.pc a = PC) hCells.length_le
    exact ⟨found, hWalk⟩

/-- A PC is in the table exactly if it was seen. -/
theorem Represents.stored_iff {s : Store} {calls : List Call} (h : Represents s calls) (PC : U64) :
    (∃ b < 1024, ∃ cells, Chain s.next (s.table b) cells ∧ PC ∈ cells.map s.pc) ↔
      PC ∈ calls.map Call.PC := by
  constructor
  · rintro ⟨b, _, cells, hChain, hStored⟩
    obtain ⟨cells', hCells⟩ := h.chains b
    rw [hChain.unique hCells.chain, hCells.pcs] at hStored
    exact mem_seenPCs.mp (List.mem_of_mem_filter hStored)
  · intro hSeen
    obtain ⟨cells, hCells⟩ := h.chains (bucket PC)
    refine ⟨bucket PC, bucket_lt PC, cells, hCells.chain, ?_⟩
    rw [hCells.pcs, List.mem_filter]
    exact ⟨mem_seenPCs.mpr hSeen, decide_eq_true rfl⟩

/-- After any calls the chains hold the PCs seen, once each and in the order of
their first calls, and the table length counts them and the unused buckets. -/
theorem table_after_calls (calls : List Call) :
    ∃ answers final, runCalls Store.empty calls = some (answers, final) ∧
      (∀ b < 1024, ∃ cells, BucketInOrder final (seenPCs calls) b cells) ∧
      (∀ PC, (∃ b < 1024, ∃ cells, Chain final.next (final.table b) cells ∧
        PC ∈ cells.map final.pc) ↔ PC ∈ calls.map Call.PC) ∧
      ((seenPCs calls).length + (unusedBuckets calls).length ≤ intMax →
        final.tableLength = some ((seenPCs calls).length + (unusedBuckets calls).length)) := by
  obtain ⟨final, hRun, hFinal⟩ := runCalls_represents represents_empty calls
  rw [List.nil_append] at hFinal
  exact ⟨_, final, hRun, fun b _ => hFinal.bucketInOrder b, hFinal.stored_iff,
    hFinal.tableLength_eq⟩

/-- Two PCs in one bucket leave 1023 buckets that count as one. -/
theorem table_after_calls_colliding :
    ∃ answers final, runCalls Store.empty collidingCalls = some (answers, final) ∧
      final.tableLength = some 1025 := by
  obtain ⟨answers, final, hRun, _, _, hLength⟩ := table_after_calls collidingCalls
  have hSeen : (seenPCs collidingCalls).length = 2 := by decide
  have hFirst : bucket 0x400000#64 = 383 := by decide +kernel
  have hSecond : bucket 0x400078#64 = 383 := by decide +kernel
  have hUnused : unusedBuckets collidingCalls = (List.range 1024).filter fun b => 383 ≠ b := by
    unfold unusedBuckets
    refine List.filter_congr fun b _ => ?_
    simp [collidingCalls, hFirst, hSecond]
  have hCount : ((List.range 1024).filter fun b => 383 ≠ b).length = 1023 := by decide +kernel
  rw [hSeen, hUnused, hCount] at hLength
  exact ⟨answers, final, hRun, hLength (by decide)⟩

end BranchPrediction.Bimodal
