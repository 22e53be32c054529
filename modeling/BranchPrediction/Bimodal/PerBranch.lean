import BranchPrediction.Bimodal.Buckets

/-! The purpose of the table: every branch has a 2-bit counter of its own. The
code keeps the nodes apart but trains the first node of a bucket in place of
the node that it found. -/
namespace BranchPrediction.Bimodal

/-- A map from PCs to independent counters. -/
abbrev PerBranch := U64 → Option Nat

namespace PerBranch

def empty : PerBranch := fun _ => none

def call (m : PerBranch) (c : Call) : Bool × PerBranch :=
  match m c.PC with
  | none => (false, Function.update m c.PC (some 3))
  | some counter =>
      (decide (2 ≤ counter) == c.up,
        Function.update m c.PC (some (SaturatingCounter.step 3 counter c.up)))

def answers (m : PerBranch) : List Call → List Bool
  | [] => []
  | c :: calls => (m.call c).1 :: answers (m.call c).2 calls

/-- The map after some calls. -/
def after (calls : List Call) : PerBranch := fun PC =>
  if (calls.map Call.PC).contains PC then some (counterAfter id PC calls) else none

section After

variable {calls : List Call} {PC : U64}

theorem after_of_seen (hSeen : PC ∈ calls.map Call.PC) :
    after calls PC = some (counterAfter id PC calls) :=
  if_pos (List.contains_iff_mem.mpr hSeen)

theorem after_of_new (hNew : PC ∉ calls.map Call.PC) : after calls PC = none :=
  if_neg fun hContains => hNew (List.contains_iff_mem.mp hContains)

/-- A call touches the counter of its own PC only. -/
theorem after_concat_of_ne {c : Call} (hNe : PC ≠ c.PC) :
    after (calls ++ [c]) PC = after calls PC := by
  have hCounter : counterAfter id PC (calls ++ [c]) = counterAfter id PC calls :=
    counterAfter_concat_of_key_ne (Ne.symm hNe)
  by_cases hSeen : PC ∈ calls.map Call.PC
  · rw [after_of_seen hSeen, after_of_seen (by simp [List.mem_map.mp hSeen]), hCounter]
  · rw [after_of_new hSeen, after_of_new (by simpa [hNe] using hSeen)]

end After

theorem call_after (calls : List Call) (c : Call) :
    (after calls).call c = (answerAfter id calls c, after (calls ++ [c])) := by
  have hSelf : c.PC ∈ (calls ++ [c]).map Call.PC := by simp
  by_cases hSeen : c.PC ∈ calls.map Call.PC
  · have hTrained : counterAfter id c.PC (calls ++ [c]) =
        SaturatingCounter.step 3 (counterAfter id c.PC calls) c.up :=
      counterAfter_concat_of_seen hSeen
    simp only [call, after_of_seen hSeen, answerAfter, hSeen, decide_true, Bool.true_and, id_eq]
    congr 1
    funext PC
    by_cases hPC : PC = c.PC
    · subst PC
      rw [Function.update_self, after_of_seen hSelf, hTrained]
    · rw [Function.update_of_ne hPC, after_concat_of_ne hPC]
  · have hFresh : counterAfter id c.PC calls = initialValue :=
      counterAfter_of_unseen fun PC hPC hEqual => hSeen (hEqual ▸ hPC)
    simp only [call, after_of_new hSeen, answerAfter, hSeen, decide_false, Bool.false_and]
    congr 1
    funext PC
    by_cases hPC : PC = c.PC
    · subst PC
      rw [Function.update_self, after_of_seen hSelf, counterAfter_concat_of_new hSeen, hFresh]
    · rw [Function.update_of_ne hPC, after_concat_of_ne hPC]

theorem answers_eq (calls rest : List Call) :
    answers (after calls) rest = answersAfter id calls rest := by
  induction rest generalizing calls with
  | nil => rfl
  | cons c rest ih => rw [answers, call_after, answersAfter, ih]

end PerBranch

/-- At each call with a PC seen before, the earlier outcomes that train the bucket
of the PC and those that train the PC alone lean the same way. -/
def BucketsLeanAlike (calls : List Call) : Prop :=
  ∀ before c after, calls = before ++ c :: after → c.PC ∈ before.map Call.PC →
    SaturatingCounter.leansUp 2 (repeatedOutcomes bucket (bucket c.PC) before) =
      SaturatingCounter.leansUp 2 (repeatedOutcomes id c.PC before)

/-- Every sequence of calls ends, and its answers are those of independent
counters exactly when the outcomes of each bucket lean as those of the branch. -/
theorem answers_perBranch_iff (calls : List Call) :
    ∃ answers final, runCalls Store.empty calls = some (answers, final) ∧
      (answers = PerBranch.empty.answers calls ↔ BucketsLeanAlike calls) := by
  obtain ⟨final, hRun, _⟩ := runCalls_represents represents_empty calls
  have hSpec : PerBranch.empty.answers calls = answersAfter id [] calls :=
    PerBranch.answers_eq [] calls
  refine ⟨_, final, hRun, ?_⟩
  rw [hSpec, answersAfter_eq_iff]
  rfl

/-- Branches that do not share a bucket are predicted from their own counters. -/
theorem bucketsLeanAlike_of_injOn {calls : List Call}
    (hBuckets : Set.InjOn bucket { PC | PC ∈ calls.map Call.PC }) : BucketsLeanAlike calls := by
  rintro before c after rfl _
  have hSame : repeatedOutcomes bucket (bucket c.PC) before = repeatedOutcomes id c.PC before := by
    unfold repeatedOutcomes
    congr 1
    refine List.filter_congr fun d hRepeat => decide_eq_decide.mpr ⟨fun hBucket => ?_, ?_⟩
    · have hSeen := repeats_subset_seen hRepeat
      exact hBuckets (by simp [List.mem_map.mp hSeen]) (by simp) hBucket
    · exact congrArg bucket
  rw [hSame]

/-- Two branches of bucket 383: the second is not taken twice, and the first,
never seen to fall through, is predicted not taken. -/
def collidingCalls : List Call :=
  [⟨0x400000, 1, 0⟩, ⟨0x400078, 0, 0⟩, ⟨0x400078, 0, 0⟩, ⟨0x400078, 0, 0⟩, ⟨0x400000, 1, 0⟩]

theorem colliding_calls_share_counter :
    (runCalls Store.empty collidingCalls).map Prod.fst =
        some [false, false, false, false, false] ∧
      [false, false, false, false, false] ≠ PerBranch.empty.answers collidingCalls := by
  decide +kernel

end BranchPrediction.Bimodal
