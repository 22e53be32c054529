import Mathlib

/-! Loops that write an array in place. An array is a function on its indices,
and a loop is a left fold over the indices it visits. -/
namespace ArrayLoops

variable {Cell : Type*}

/-- Copy every cell to the next one, from the lowest index upwards. -/
def copyUp (n : Nat) (cells : Nat → Cell) : Nat → Cell :=
  (List.range n).foldl (fun cells k => Function.update cells (k + 1) (cells k)) cells

/-- Each copy reads a cell that the copy before it has just written, so the
whole range receives the first cell. -/
theorem copyUp_apply (n : Nat) (cells : Nat → Cell) (k : Nat) :
    copyUp n cells k = if k ≤ n then cells 0 else cells k := by
  induction n generalizing k with
  | zero =>
      by_cases hk : k = 0
      · subst k; rfl
      · have hFar : ¬ k ≤ 0 := by omega
        rw [if_neg hFar]; rfl
  | succ n ih =>
      have hLast : copyUp (n + 1) cells =
          Function.update (copyUp n cells) (n + 1) (copyUp n cells n) := by
        simp only [copyUp, List.range_succ, List.foldl_append, List.foldl_cons, List.foldl_nil]
      rw [hLast]
      by_cases hk : k = n + 1
      · subst k
        rw [Function.update_self, ih, if_pos (Nat.le_refl n), if_pos (Nat.le_refl _)]
      · rw [Function.update_of_ne hk, ih]
        by_cases hn : k ≤ n
        · rw [if_pos hn, if_pos (by omega)]
        · rw [if_neg hn, if_neg (by omega)]

/-- The same loop with the list of the indices that it writes. -/
def copyUpLogged (n : Nat) (cells : Nat → Cell) : (Nat → Cell) × List Nat :=
  (List.range n).foldl (fun (cells, writes) k =>
    (Function.update cells (k + 1) (cells k), writes ++ [k + 1])) (cells, [])

theorem copyUpLogged_succ (n : Nat) (cells : Nat → Cell) :
    copyUpLogged (n + 1) cells =
      (Function.update (copyUpLogged n cells).1 (n + 1) ((copyUpLogged n cells).1 n),
        (copyUpLogged n cells).2 ++ [n + 1]) := by
  simp only [copyUpLogged, List.range_succ, List.foldl_append, List.foldl_cons, List.foldl_nil]

theorem copyUpLogged_fst (n : Nat) (cells : Nat → Cell) :
    (copyUpLogged n cells).1 = copyUp n cells := by
  induction n with
  | zero => rfl
  | succ n ih =>
      rw [copyUpLogged_succ, ih]
      simp only [copyUp, List.range_succ, List.foldl_append, List.foldl_cons, List.foldl_nil]

/-- Every index after the first is written, up to `n`. -/
theorem mem_copyUpLogged_snd {n k : Nat} (cells : Nat → Cell) :
    k ∈ (copyUpLogged n cells).2 ↔ 0 < k ∧ k ≤ n := by
  induction n with
  | zero =>
      constructor
      · intro hMem
        cases hMem
      · rintro ⟨hPos, hLe⟩
        omega
  | succ n ih =>
      rw [copyUpLogged_succ, List.mem_append, ih, List.mem_singleton]
      omega

/-- The index at which `for (i = start; i < stop; i++) if (hit) break;` stops. -/
def firstHit (hit : Nat → Bool) (start stop : Nat) : Nat :=
  ((List.range' start (stop - start)).find? hit).getD stop

theorem firstHit_le (hit : Nat → Bool) (start stop : Nat) : firstHit hit start stop ≤ stop := by
  unfold firstHit
  cases hFind : (List.range' start (stop - start)).find? hit with
  | none => exact Nat.le_refl stop
  | some i =>
      have hMem := List.mem_of_find?_eq_some hFind
      simp only [List.mem_range'_1] at hMem
      simp only [Option.getD_some]
      omega

/-- A search that stops early stops at a hit, and not before its start. -/
theorem firstHit_spec {hit : Nat → Bool} {start stop : Nat}
    (hEarly : firstHit hit start stop < stop) :
    start ≤ firstHit hit start stop ∧ hit (firstHit hit start stop) = true := by
  unfold firstHit at hEarly ⊢
  cases hFind : (List.range' start (stop - start)).find? hit with
  | none => simp [hFind] at hEarly
  | some i =>
      have hMem := List.mem_of_find?_eq_some hFind
      simp only [List.mem_range'_1] at hMem
      exact ⟨hMem.1, List.find?_some hFind⟩

/-- The search passes every index before the one where it stops. -/
theorem firstHit_skipped {hit : Nat → Bool} {start stop i : Nat} (hStart : start ≤ i)
    (hBefore : i < firstHit hit start stop) : hit i = false := by
  have hStop : i < stop := Nat.lt_of_lt_of_le hBefore (firstHit_le hit start stop)
  unfold firstHit at hBefore
  cases hFind : (List.range' start (stop - start)).find? hit with
  | none =>
      have hMem : i ∈ List.range' start (stop - start) := by
        rw [List.mem_range'_1]
        omega
      simpa using List.find?_eq_none.mp hFind i hMem
  | some j =>
      rw [hFind, Option.getD_some] at hBefore
      obtain ⟨_, before, after, hList, hSkip⟩ := List.find?_eq_some_iff_append.mp hFind
      have hMem : i ∈ before ++ j :: after := by
        rw [← hList, List.mem_range'_1]
        omega
      have hSorted : (before ++ j :: after).Pairwise (· < ·) := by
        rw [← hList]
        exact List.pairwise_lt_range'
      rcases List.mem_append.mp hMem with hBeforeMem | hAfterMem
      · simpa using hSkip i hBeforeMem
      · have hNotLess : j ≤ i := by
          rcases List.mem_cons.mp hAfterMem with rfl | hTail
          · exact Nat.le_refl _
          · have hPair := (List.pairwise_append.mp hSorted).2.1
            exact (List.rel_of_pairwise_cons hPair hTail).le
        omega

/-- The search runs to its end exactly when nothing is hit. -/
theorem firstHit_eq_stop_iff {hit : Nat → Bool} {start stop : Nat} :
    firstHit hit start stop = stop ↔ ∀ i, start ≤ i → i < stop → hit i = false := by
  constructor
  · intro hEnd i hStart hStop
    have hBefore : i < firstHit hit start stop := by rw [hEnd]; exact hStop
    exact firstHit_skipped hStart hBefore
  · intro hNone
    by_contra hNe
    have hEarly := Nat.lt_of_le_of_ne (firstHit_le hit start stop) hNe
    obtain ⟨hStart, hHit⟩ := firstHit_spec hEarly
    simp [hNone _ hStart hEarly] at hHit

theorem firstHit_eq_head? (hit : Nat → Bool) (start stop : Nat) :
    firstHit hit start stop =
      (((List.range' start (stop - start)).filter hit).head?).getD stop := by
  rw [firstHit, List.head?_filter]

/-- After the first hit of a range come the hits of what remains of it. -/
theorem filter_range'_eq_cons {hit : Nat → Bool} {start n b : Nat} {rest : List Nat}
    (hHits : (List.range' start n).filter hit = b :: rest) :
    rest = (List.range' (b + 1) (start + n - (b + 1))).filter hit := by
  induction n generalizing start with
  | zero => simp at hHits
  | succ n ih =>
      rw [List.range'_succ] at hHits
      by_cases hStart : hit start = true
      · rw [List.filter_cons_of_pos hStart] at hHits
        obtain ⟨rfl, hRest⟩ := List.cons.inj hHits
        have hLeft : start + (n + 1) - (start + 1) = n := by omega
        rw [← hRest, hLeft]
      · rw [List.filter_cons_of_neg hStart] at hHits
        have hEnd : start + (n + 1) = start + 1 + n := by omega
        rw [ih hHits, hEnd]

end ArrayLoops
