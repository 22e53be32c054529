import BranchPrediction.Bimodal.CallHistory

/-! The chains of the hash table after any calls: bucket `b` holds one node for
each PC seen that hashes to `b`, in the order of the first calls, and its first
node holds the counter that all repeated calls of the bucket have trained. -/
namespace BranchPrediction.Bimodal

open LinkedChain

/-- `cells` is the chain of bucket `b` when `PCs` were seen. -/
structure BucketChain (s : Store) (PCs : List U64) (b : Nat) (cells : List Nat) : Prop where
  chain : Chain s.next (s.table b) cells
  pcs : cells.map s.pc = PCs.filter fun PC => bucket PC = b
  allocated : ∀ a ∈ cells, a < s.count

/-- The store that a sequence of calls leaves. -/
structure Represents (s : Store) (calls : List Call) : Prop where
  chains : ∀ b, ∃ cells, BucketChain s (seenPCs calls) b cells
  head : ∀ b a, s.table b = some a → (s.node a).state = counterAfter bucket b calls
  state_le : ∀ a < s.count, (s.node a).state ≤ 3

theorem trainState_eq {state : Nat} (hState : state ≤ 3) (taken : U64) :
    trainState taken state =
      (decide (2 ≤ state) == decide (taken = 1),
        SaturatingCounter.step 3 state (decide (taken = 1))) := by
  unfold trainState
  by_cases hTaken : taken = 1
  · rw [if_pos hTaken, decide_eq_true hTaken]
    interval_cases state <;> rfl
  · rw [if_neg hTaken, decide_eq_false hTaken]
    interval_cases state <;> rfl

section Updates

variable (s : Store) (PC targetAddr : U64) (index a b state : Nat)

theorem Store.next_setState : (s.setState a state).next = s.next := by
  funext a'
  by_cases hCell : a' = a <;> simp [Store.next, Store.setState, hCell]

theorem Store.pc_setState : (s.setState a state).pc = s.pc := by
  funext a'
  by_cases hCell : a' = a <;> simp [Store.pc, Store.setState, hCell]

theorem Store.pc_setNext : (s.setNext a b).pc = s.pc := by
  funext a'
  by_cases hCell : a' = a <;> simp [Store.pc, Store.setNext, hCell]

theorem Store.next_setNext : (s.setNext a b).next = Function.update s.next a (some b) := by
  funext a'
  by_cases hCell : a' = a <;> simp [Store.next, Store.setNext, hCell]

theorem Store.next_addNode : (s.addNode PC targetAddr).2.next = Function.update s.next s.count none := by
  funext a'
  by_cases hCell : a' = s.count <;>
    simp [Store.next, Store.addNode, hCell]

theorem Store.pc_addNode : (s.addNode PC targetAddr).2.pc = Function.update s.pc s.count PC := by
  funext a'
  by_cases hCell : a' = s.count <;> simp [Store.pc, Store.addNode, hCell]

end Updates

theorem bucketChain_empty (b : Nat) : BucketChain Store.empty [] b [] :=
  ⟨.nil, rfl, fun _ h => absurd h (by simp)⟩

theorem represents_empty : Represents Store.empty [] where
  chains := fun b => ⟨[], bucketChain_empty b⟩
  head := fun _ _ h => by simp [Store.empty] at h
  state_le := fun _ h => by simp [Store.empty] at h

namespace BucketChain

variable {s s' : Store} {PCs PCs' : List U64} {b : Nat} {cells : List Nat}

/-- Writes outside a chain leave it as it is. -/
theorem frame (h : BucketChain s PCs b cells) (hTable : s'.table b = s.table b)
    (hCells : ∀ a ∈ cells, s'.next a = s.next a ∧ s'.pc a = s.pc a) (hCount : s.count ≤ s'.count)
    (hPCs : (PCs'.filter fun PC => bucket PC = b) = PCs.filter fun PC => bucket PC = b) :
    BucketChain s' PCs' b cells where
  chain := by
    rw [hTable]
    exact h.chain.congr fun a ha => (hCells a ha).1
  pcs := by
    rw [hPCs, ← h.pcs]
    exact List.map_congr_left fun a ha => (hCells a ha).2
  allocated := fun a ha => Nat.lt_of_lt_of_le (h.allocated a ha) hCount

theorem bucket_pc (h : BucketChain s PCs b cells) {a : Nat} (ha : a ∈ cells) :
    bucket (s.pc a) = b := by
  have hMem := List.mem_map_of_mem (f := s.pc) ha
  rw [h.pcs, List.mem_filter] at hMem
  exact of_decide_eq_true hMem.2

theorem mem_pcs_iff (h : BucketChain s PCs b cells) {PC : U64} (hBucket : bucket PC = b) :
    PC ∈ PCs ↔ ∃ a ∈ cells, s.pc a = PC := by
  rw [← List.mem_map, h.pcs, List.mem_filter]
  simp [hBucket]

/-- The fuel of the walk covers the chain. -/
theorem length_le (h : BucketChain s PCs b cells) : cells.length ≤ s.count := by
  have hSubset : cells ⊆ List.range s.count := fun a ha => List.mem_range.mpr (h.allocated a ha)
  simpa using (List.subperm_of_subset h.chain.nodup hSubset).length_le

end BucketChain

theorem filter_bucket_concat_of_ne {PCs : List U64} {PC : U64} {b : Nat} (hBucket : bucket PC ≠ b) :
    ((PCs ++ [PC]).filter fun PC => bucket PC = b) = PCs.filter fun PC => bucket PC = b := by
  simp [List.filter_append, hBucket]

theorem filter_bucket_concat_self (PCs : List U64) (PC : U64) :
    ((PCs ++ [PC]).filter fun other => bucket other = bucket PC) =
      (PCs.filter fun other => bucket other = bucket PC) ++ [PC] := by
  simp [List.filter_append]

namespace Represents

variable {s : Store} {calls : List Call} (h : Represents s calls) (c : Call)
include h

theorem unseen_of_empty (hEmpty : s.table (bucket c.PC) = none) :
    ∀ PC ∈ calls.map Call.PC, bucket PC ≠ bucket c.PC := by
  intro PC hSeen hBucket
  obtain ⟨cells, hChain⟩ := h.chains (bucket c.PC)
  obtain ⟨a, ha, _⟩ := (hChain.mem_pcs_iff hBucket).mp (mem_seenPCs.mpr hSeen)
  rw [hChain.chain.start_eq_none_iff.mp hEmpty] at ha
  simp at ha

/-- The first node of a bucket is allocated. -/
theorem head_lt {b a : Nat} (hHead : s.table b = some a) : a < s.count := by
  obtain ⟨cells, hChain⟩ := h.chains b
  have hStart := hChain.chain
  rw [hHead] at hStart
  cases hStart
  exact hChain.allocated a List.mem_cons_self

theorem bucket_head {b a : Nat} (hHead : s.table b = some a) : bucket (s.pc a) = b := by
  obtain ⟨cells, hChain⟩ := h.chains b
  have hStart := hChain.chain
  rw [hHead] at hStart
  cases hStart
  exact hChain.bucket_pc List.mem_cons_self

/-- What the two places that add a node have in common. The link to the new node
is the only write to an old one. -/
theorem addNode (hNew : c.PC ∉ calls.map Call.PC) {s' : Store} (hCount : s'.count = s.count + 1)
    (hTable : ∀ b, bucket c.PC ≠ b → s'.table b = s.table b)
    (hNext : ∀ a < s.count, bucket (s.pc a) ≠ bucket c.PC → s'.next a = s.next a)
    (hPC : s'.pc = Function.update s.pc s.count c.PC)
    (hState : ∀ a, (s'.node a).state = if a = s.count then initialValue else (s.node a).state)
    (hHead : ∀ a, s'.table (bucket c.PC) = some a →
      s.table (bucket c.PC) = some a ∨ a = s.count ∧ s.table (bucket c.PC) = none)
    (hChain : ∃ cells, BucketChain s' (seenPCs (calls ++ [c])) (bucket c.PC) cells) :
    Represents s' (calls ++ [c]) := by
  have hOldHead (b a : Nat) (hOld : s.table b = some a) :
      (s'.node a).state = counterAfter bucket b calls := by
    rw [hState, if_neg (Nat.ne_of_lt (h.head_lt hOld)), h.head b a hOld]
  refine ⟨?_, ?_, ?_⟩
  · intro b
    by_cases hBucket : bucket c.PC = b
    · exact hBucket ▸ hChain
    · obtain ⟨cells, hCells⟩ := h.chains b
      refine ⟨cells, hCells.frame (hTable b hBucket) (fun a ha => ?_) (by omega) ?_⟩
      · have hOther : bucket (s.pc a) ≠ bucket c.PC := by
          rw [hCells.bucket_pc ha]
          exact Ne.symm hBucket
        have hLt := hCells.allocated a ha
        rw [hPC, Function.update_of_ne (Nat.ne_of_lt hLt)]
        exact ⟨hNext a hLt hOther, rfl⟩
      · rw [seenPCs_concat_of_not_mem hNew, filter_bucket_concat_of_ne hBucket]
  · intro b a hStart
    rw [counterAfter_concat_of_new hNew]
    by_cases hBucket : bucket c.PC = b
    · subst b
      obtain hOld | ⟨rfl, hEmpty⟩ := hHead a hStart
      · exact hOldHead _ a hOld
      · rw [hState, if_pos rfl, counterAfter_of_unseen (h.unseen_of_empty c hEmpty)]
    · exact hOldHead b a (hTable b hBucket ▸ hStart)
  · intro a ha
    rw [hState]
    split_ifs with hFresh
    · exact Nat.le_refl 3
    · exact h.state_le a (by omega)

/-- The first PC of a bucket. -/
theorem newBucket (hEmpty : s.table (bucket c.PC) = none) :
    Represents ((s.addNode c.PC c.targetAddr).2.setTable (bucket c.PC) s.count) (calls ++ [c]) := by
  have hNew : c.PC ∉ calls.map Call.PC := fun hSeen => h.unseen_of_empty c hEmpty c.PC hSeen rfl
  refine h.addNode c hNew rfl (fun b hBucket => ?_) (fun a ha _ => ?_)
    (s.pc_addNode c.PC c.targetAddr) (fun a => ?_) (fun a hHead => ?_) ⟨[s.count], ⟨?_, ?_, ?_⟩⟩
  · exact Function.update_of_ne (Ne.symm hBucket) _ _
  · show (s.addNode c.PC c.targetAddr).2.next a = _
    rw [Store.next_addNode, Function.update_of_ne (Nat.ne_of_lt ha)]
  · by_cases hFresh : a = s.count <;> simp [Store.setTable, Store.addNode, hFresh]
  · simp only [Store.setTable, Function.update_self, Option.some.injEq] at hHead
    exact .inr ⟨hHead.symm, hEmpty⟩
  · simp only [Store.setTable, Function.update_self]
    refine .cons ?_
    show Chain _ ((s.addNode c.PC c.targetAddr).2.next s.count) []
    rw [Store.next_addNode, Function.update_self]
    exact .nil
  · obtain ⟨cells, hChain⟩ := h.chains (bucket c.PC)
    have hPCs := hChain.pcs
    rw [hChain.chain.start_eq_none_iff.mp hEmpty, List.map_nil] at hPCs
    rw [seenPCs_concat_of_not_mem hNew, filter_bucket_concat_self, ← hPCs]
    show [(s.addNode c.PC c.targetAddr).2.pc s.count] = _
    rw [Store.pc_addNode, Function.update_self]
    rfl
  · simp [Store.setTable, Store.addNode]

/-- A PC that joins the end of a chain. -/
theorem newNode {before : List Nat} {last : Nat} (hNew : c.PC ∉ calls.map Call.PC)
    (hCells : BucketChain s (seenPCs calls) (bucket c.PC) (before ++ [last])) :
    Represents ((s.addNode c.PC c.targetAddr).2.setNext last s.count) (calls ++ [c]) := by
  have hLast : last < s.count := hCells.allocated last (by simp)
  have hNext : ((s.addNode c.PC c.targetAddr).2.setNext last s.count).next =
      Function.update (Function.update s.next s.count none) last (some s.count) := by
    rw [Store.next_setNext, Store.next_addNode]
  have hPC : ((s.addNode c.PC c.targetAddr).2.setNext last s.count).pc =
      Function.update s.pc s.count c.PC := by
    rw [Store.pc_setNext, Store.pc_addNode]
  refine h.addNode c hNew rfl (fun b _ => rfl) (fun a ha hOther => ?_) hPC (fun a => ?_)
    (fun a hHead => .inl hHead) ⟨before ++ [last, s.count], ⟨?_, ?_, ?_⟩⟩
  · have hNotLast : a ≠ last := by
      rintro rfl
      exact hOther (hCells.bucket_pc (by simp))
    rw [hNext, Function.update_of_ne hNotLast, Function.update_of_ne (Nat.ne_of_lt ha)]
  · by_cases hFresh : a = s.count
    · subst a
      simp [Store.setNext, Store.addNode, Function.update_of_ne (Nat.ne_of_gt hLast)]
    · by_cases hIsLast : a = last <;>
        simp [Store.setNext, Store.addNode, hFresh, hIsLast, Nat.ne_of_lt hLast]
  · refine hCells.chain.concat (fun a ha => ?_) ?_ ?_
    · have hNodup := hCells.chain.nodup
      have hNotLast : a ≠ last := by
        rintro rfl
        exact (List.nodup_append.mp hNodup).2.2 a ha a (by simp) rfl
      have hOld : a < s.count := hCells.allocated a (by simp [ha])
      rw [hNext, Function.update_of_ne hNotLast, Function.update_of_ne (Nat.ne_of_lt hOld)]
    · rw [hNext, Function.update_self]
    · rw [hNext, Function.update_of_ne (Nat.ne_of_gt hLast), Function.update_self]
  · have hOldPCs : (before ++ [last]).map (Function.update s.pc s.count c.PC) =
        (before ++ [last]).map s.pc :=
      List.map_congr_left fun a ha =>
        Function.update_of_ne (Nat.ne_of_lt (hCells.allocated a ha)) _ _
    have hSplit : before ++ [last, s.count] = (before ++ [last]) ++ [s.count] := by simp
    rw [hPC, hSplit, List.map_append, hOldPCs, hCells.pcs, seenPCs_concat_of_not_mem hNew,
      filter_bucket_concat_self, List.map_singleton, Function.update_self]
  · intro a ha
    have hLt : a < s.count + 1 := by
      rcases List.mem_append.mp ha with hBefore | hEnd
      · exact Nat.lt_succ_of_lt (hCells.allocated a (by simp [hBefore]))
      · simp only [List.mem_cons, List.not_mem_nil, or_false] at hEnd
        omega
    exact hLt

/-- A repeated call writes the first node of the bucket, wherever its own node is. -/
theorem train (hSeen : c.PC ∈ calls.map Call.PC) {head : Nat}
    (hHead : s.table (bucket c.PC) = some head) :
    Represents (s.setState head (SaturatingCounter.step 3 (s.node head).state c.up))
      (calls ++ [c]) := by
  have hHeadState := h.head _ _ hHead
  refine ⟨?_, ?_, ?_⟩
  · intro b
    obtain ⟨cells, hCells⟩ := h.chains b
    refine ⟨cells, hCells.frame rfl (fun a _ => ?_) (Nat.le_refl _) ?_⟩
    · rw [Store.next_setState, Store.pc_setState]
      exact ⟨rfl, rfl⟩
    · rw [seenPCs_concat_of_mem hSeen]
  · intro b a hStart
    have hOld : s.table b = some a := hStart
    by_cases hBucket : bucket c.PC = b
    · subst b
      obtain rfl : head = a := Option.some.inj (hHead.symm.trans hOld)
      rw [counterAfter_concat_of_seen hSeen, ← hHeadState]
      simp [Store.setState]
    · -- the first nodes of two buckets differ: their PCs hash to different buckets
      have hNotHead : a ≠ head := by
        rintro rfl
        exact hBucket ((h.bucket_head hHead).symm.trans (h.bucket_head hOld))
      rw [counterAfter_concat_of_key_ne hBucket, ← h.head b a hOld]
      simp [Store.setState, hNotHead]
  · intro a ha
    by_cases hIsHead : a = head
    · subst a
      simpa [Store.setState] using
        SaturatingCounter.step_le (h.state_le head (h.head_lt hHead)) c.up
    · simpa [Store.setState, hIsHead] using h.state_le a ha

/-- One call, as far as the table is concerned. -/
theorem call : ∃ s', bimodalImplementation s c.PC c.taken c.targetAddr =
    some (answerAfter bucket calls c, s') ∧ Represents s' (calls ++ [c]) := by
  cases hTable : s.table (bucket c.PC) with
  | none =>
      refine ⟨_, ?_, h.newBucket c hTable⟩
      have hNew : c.PC ∉ calls.map Call.PC := fun hSeen =>
        h.unseen_of_empty c hTable c.PC hSeen rfl
      simp only [bimodalImplementation, hTable, answerAfter, hNew, decide_false, Bool.false_and]
      rfl
  | some head =>
      obtain ⟨cells, hCells⟩ := h.chains (bucket c.PC)
      have hStart := hCells.chain
      rw [hTable] at hStart
      obtain ⟨before, found, after, hWalk, hSplit, hBefore, hFound⟩ :=
        hStart.walk_eq (fun a => s.pc a = c.PC) hCells.length_le
      by_cases hPC : s.pc found = c.PC
      · have hSeen : c.PC ∈ calls.map Call.PC :=
          mem_seenPCs.mp ((hCells.mem_pcs_iff rfl).mpr ⟨found, by simp [hSplit], hPC⟩)
        refine ⟨_, ?_, h.train c hSeen hTable⟩
        have hState := trainState_eq (h.state_le head (h.head_lt hTable)) c.taken
        simp only [bimodalImplementation, hTable, hWalk, Option.bind_eq_bind, Option.bind_some,
          if_pos hPC, hState, answerAfter, hSeen, decide_true, Bool.true_and,
          ← h.head _ _ hTable]
        rfl
      · have hAfter : after = [] := hFound.resolve_left (by simpa using hPC)
        subst after
        have hNew : c.PC ∉ calls.map Call.PC := by
          intro hSeen
          obtain ⟨a, ha, hEqual⟩ := (hCells.mem_pcs_iff rfl).mp (mem_seenPCs.mpr hSeen)
          rw [hSplit, List.mem_append, List.mem_singleton] at ha
          rcases ha with hMem | rfl
          · simpa [hEqual] using hBefore a hMem
          · exact hPC hEqual
        rw [hSplit] at hCells
        refine ⟨_, ?_, h.newNode c hNew hCells⟩
        simp only [bimodalImplementation, hTable, hWalk, Option.bind_eq_bind, Option.bind_some,
          if_neg hPC, answerAfter, hNew, decide_false, Bool.false_and]
        rfl

end Represents

/-- Any calls end, and leave the chains that they describe. -/
theorem runCalls_represents {s : Store} {calls : List Call} (h : Represents s calls)
    (rest : List Call) :
    ∃ final, runCalls s rest = some (answersAfter bucket calls rest, final) ∧
      Represents final (calls ++ rest) := by
  induction rest generalizing s calls with
  | nil => exact ⟨s, rfl, by simpa using h⟩
  | cons c rest ih =>
      obtain ⟨s', hCall, hNext⟩ := h.call c
      obtain ⟨final, hRun, hFinal⟩ := ih hNext
      refine ⟨final, ?_, by simpa using hFinal⟩
      simp only [runCalls, hCall, hRun, Option.bind_eq_bind, Option.bind_some, answersAfter]

end BranchPrediction.Bimodal
