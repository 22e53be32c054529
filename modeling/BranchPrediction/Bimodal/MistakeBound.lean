import BranchPrediction.Bimodal.TableLength
import BranchPrediction.Library.CounterTable

/-! How often `branch.c` is wrong: once for each branch that it has not seen, and
twice each time the outcomes of a bucket turn. -/
namespace BranchPrediction.Bimodal

section Keyed

variable {κ : Type*} [DecidableEq κ] (key : U64 → κ)

/-- The last outcome that trained key `k`. The initial state stands for taken. -/
def lastUp (k : κ) (calls : List Call) : Bool := (repeatedOutcomes key k calls).getLast?.getD true

/-- The call repeats a PC with another outcome than the last one of its key. -/
def turns (calls : List Call) (c : Call) : Bool :=
  (calls.map Call.PC).contains c.PC && c.up != lastUp key (key c.PC) calls

def turnsAfter (calls : List Call) : List Call → Nat
  | [] => 0
  | c :: rest => (turns key calls c).toNat + turnsAfter (calls ++ [c]) rest

variable {key} {k : κ} {calls : List Call} {c : Call}

theorem lastUp_concat_of_new (hNew : c.PC ∉ calls.map Call.PC) :
    lastUp key k (calls ++ [c]) = lastUp key k calls := by
  rw [lastUp, repeatedOutcomes, repeats_concat, if_neg hNew, List.append_nil]
  rfl

theorem lastUp_concat_of_key_ne (hKey : key c.PC ≠ k) :
    lastUp key k (calls ++ [c]) = lastUp key k calls := by
  have hDrop : ((if c.PC ∈ calls.map Call.PC then [c] else []).filter fun c => key c.PC = k) =
      [] := by
    split_ifs <;> simp [hKey]
  rw [lastUp, repeatedOutcomes, repeats_concat, List.filter_append, hDrop, List.append_nil]
  rfl

theorem lastUp_concat_of_seen (hSeen : c.PC ∈ calls.map Call.PC) :
    lastUp key (key c.PC) (calls ++ [c]) = c.up := by
  have hKeep : ([c].filter fun d => key d.PC = key c.PC) = [c] := by simp
  rw [lastUp, repeatedOutcomes, repeats_concat, if_pos hSeen, List.filter_append, hKeep,
    List.map_append, List.map_singleton, List.getLast?_concat]
  rfl

end Keyed

/-- The counters of the buckets. -/
def countersAfter (calls : List Call) (b : Nat) : Nat := counterAfter bucket b calls

/-- The last outcomes of the buckets. -/
def lastUps (calls : List Call) (b : Nat) : Bool := lastUp bucket b calls

section Buckets

variable {calls : List Call} {c : Call}

theorem buckets_concat_of_new (hNew : c.PC ∉ calls.map Call.PC) :
    countersAfter (calls ++ [c]) = countersAfter calls ∧
      lastUps (calls ++ [c]) = lastUps calls := by
  constructor <;> funext b
  · exact counterAfter_concat_of_new hNew
  · exact lastUp_concat_of_new hNew

/-- A repeated call trains its bucket. -/
theorem buckets_concat_of_seen (hSeen : c.PC ∈ calls.map Call.PC) :
    countersAfter (calls ++ [c]) =
        CounterTable.train 2 (countersAfter calls) ⟨bucket c.PC, c.up⟩ ∧
      lastUps (calls ++ [c]) = Function.update (lastUps calls) (bucket c.PC) c.up := by
  constructor <;> funext b <;> by_cases hb : b = bucket c.PC
  · subst b
    rw [CounterTable.train, Function.update_self]
    exact counterAfter_concat_of_seen hSeen
  · rw [CounterTable.train, Function.update_of_ne hb]
    exact counterAfter_concat_of_key_ne (Ne.symm hb)
  · subst b
    rw [Function.update_self]
    exact lastUp_concat_of_seen hSeen
  · rw [Function.update_of_ne hb]
    exact lastUp_concat_of_key_ne (Ne.symm hb)

end Buckets

def totalDebt (calls : List Call) : Nat :=
  CounterTable.totalDebt 2 (Finset.range 1024) (countersAfter calls) (lastUps calls)

theorem totalDebt_nil : totalDebt [] = 0 := by
  unfold totalDebt CounterTable.totalDebt
  refine Finset.sum_eq_zero fun b _ => ?_
  rfl

/-- One call. -/
theorem wrong_step (calls : List Call) (c : Call) :
    (!answerAfter bucket calls c).toNat + totalDebt (calls ++ [c]) ≤
      totalDebt calls +
        ((decide (c.PC ∉ calls.map Call.PC)).toNat + 2 * (turns bucket calls c).toNat) := by
  by_cases hSeen : c.PC ∈ calls.map Call.PC
  · have hCounter : countersAfter calls (bucket c.PC) ≤ 3 :=
      SaturatingCounter.run_le (Nat.le_refl _) _
    have hStep := CounterTable.wrong_step_last (lastUps calls) Nat.two_pos
      (e := ⟨bucket c.PC, c.up⟩) (Finset.mem_range.mpr (bucket_lt c.PC)) hCounter
    have hAnswer : answerAfter bucket calls c =
        (decide (2 ≤ counterAfter bucket (bucket c.PC) calls) == c.up) := by
      simp [answerAfter, hSeen]
    have hTurns : turns bucket calls c = (c.up != lastUp bucket (bucket c.PC) calls) := by
      simp [turns, hSeen]
    obtain ⟨hCounters, hLast⟩ := buckets_concat_of_seen hSeen
    rw [← hCounters, ← hLast] at hStep
    rw [hAnswer, hTurns, decide_eq_false (not_not_intro hSeen), Bool.toNat_false, Nat.zero_add]
    exact hStep
  · obtain ⟨hCounters, hLast⟩ := buckets_concat_of_new hSeen
    rw [totalDebt, hCounters, hLast]
    simp [answerAfter, turns, hSeen, totalDebt]
    omega

theorem count_false_answersAfter (calls rest : List Call) :
    (answersAfter bucket calls rest).count false + totalDebt (calls ++ rest) +
        (seenPCs calls).length ≤
      totalDebt calls + (seenPCs (calls ++ rest)).length + 2 * turnsAfter bucket calls rest := by
  induction rest generalizing calls with
  | nil => simp [answersAfter, turnsAfter]
  | cons c rest ih =>
      have hRest := ih (calls ++ [c])
      have hStep := wrong_step calls c
      have hCount : (answersAfter bucket calls (c :: rest)).count false =
          (!answerAfter bucket calls c).toNat +
            (answersAfter bucket (calls ++ [c]) rest).count false := by
        rw [answersAfter, List.count_cons, Nat.add_comm]
        cases answerAfter bucket calls c <;> rfl
      have hSeen : (seenPCs (calls ++ [c])).length =
          (seenPCs calls).length + (decide (c.PC ∉ calls.map Call.PC)).toNat := by
        by_cases hMem : c.PC ∈ calls.map Call.PC
        · rw [seenPCs_concat_of_mem hMem, decide_eq_false (not_not_intro hMem)]
          rfl
        · rw [seenPCs_concat_of_not_mem hMem, decide_eq_true hMem, List.length_append]
          rfl
      rw [List.append_assoc, List.singleton_append] at hRest
      rw [hCount, turnsAfter]
      omega

/-- In any sequence of calls `branch.c` is wrong at most once for each PC, and twice
for each call whose outcome is not that of the last repeated call of its bucket. -/
theorem wrong_answers_bounded (calls : List Call) :
    ∃ answers final, runCalls Store.empty calls = some (answers, final) ∧
      answers.count false ≤ (seenPCs calls).length + 2 * turnsAfter bucket [] calls := by
  obtain ⟨final, hRun, _⟩ := runCalls_represents represents_empty calls
  refine ⟨_, final, hRun, ?_⟩
  have hCount := count_false_answersAfter [] calls
  rw [totalDebt_nil, List.nil_append] at hCount
  omega

end BranchPrediction.Bimodal
