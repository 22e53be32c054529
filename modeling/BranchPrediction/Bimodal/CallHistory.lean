import BranchPrediction.Library.SaturatingCounter
import BranchPrediction.Bimodal.Branch

/-! What a predictor with one counter for each value of a key answers, in terms
of the calls alone. With the PC as key every branch has its own counter; with
the bucket as key the branches of a bucket share one. -/
namespace BranchPrediction.Bimodal

/-- The PCs seen so far, in the order of their first calls. -/
def seenPCs (calls : List Call) : List U64 := (calls.map Call.PC).eraseDups

def repeatsFrom (seen : List U64) : List Call → List Call
  | [] => []
  | c :: calls =>
      if c.PC ∈ seen then c :: repeatsFrom seen calls else repeatsFrom (c.PC :: seen) calls

/-- The calls whose PC was seen before. -/
def repeats (calls : List Call) : List Call := repeatsFrom [] calls

section Keyed

variable {κ : Type*} [DecidableEq κ] (key : U64 → κ)

/-- The outcomes that train key `k`. The first call with a PC creates its node
and trains nothing. -/
def repeatedOutcomes (k : κ) (calls : List Call) : List Bool :=
  ((repeats calls).filter fun c => key c.PC = k).map Call.up

/-- The counter of key `k` after the calls. -/
def counterAfter (k : κ) (calls : List Call) : Nat :=
  SaturatingCounter.run 3 initialValue (repeatedOutcomes key k calls)

/-- The answer to a call after `calls`. -/
def answerAfter (calls : List Call) (c : Call) : Bool :=
  decide (c.PC ∈ calls.map Call.PC) && (decide (2 ≤ counterAfter key (key c.PC) calls) == c.up)

def answersAfter (calls : List Call) : List Call → List Bool
  | [] => []
  | c :: rest => answerAfter key calls c :: answersAfter (calls ++ [c]) rest

end Keyed

theorem mem_seenPCs {calls : List Call} {PC : U64} :
    PC ∈ seenPCs calls ↔ PC ∈ calls.map Call.PC :=
  List.mem_eraseDups

theorem seenPCs_concat_of_mem {calls : List Call} {c : Call} (hSeen : c.PC ∈ calls.map Call.PC) :
    seenPCs (calls ++ [c]) = seenPCs calls := by
  have hNone : [c.PC].removeAll (calls.map Call.PC) = [] := by
    rw [List.cons_removeAll, if_neg (by simpa using hSeen), List.nil_removeAll]
  rw [seenPCs, List.map_append, List.eraseDups_append, List.map_singleton, hNone,
    List.eraseDups_nil, List.append_nil, seenPCs]

theorem seenPCs_concat_of_not_mem {calls : List Call} {c : Call}
    (hNew : c.PC ∉ calls.map Call.PC) : seenPCs (calls ++ [c]) = seenPCs calls ++ [c.PC] := by
  have hOne : [c.PC].removeAll (calls.map Call.PC) = [c.PC] := by
    rw [List.cons_removeAll, if_pos (by simpa using hNew), List.nil_removeAll]
  rw [seenPCs, List.map_append, List.eraseDups_append, List.map_singleton, hOne, seenPCs]
  rfl

theorem nodup_seenPCs (calls : List Call) : (seenPCs calls).Nodup := by
  induction calls using List.reverseRecOn with
  | nil => exact List.nodup_nil
  | append_singleton calls c ih =>
      by_cases hSeen : c.PC ∈ calls.map Call.PC
      · rwa [seenPCs_concat_of_mem hSeen]
      · rw [seenPCs_concat_of_not_mem hSeen, ← List.concat_eq_append]
        exact ih.concat fun hMem => hSeen (mem_seenPCs.mp hMem)

theorem repeatsFrom_concat (seen : List U64) (calls : List Call) (c : Call) :
    repeatsFrom seen (calls ++ [c]) =
      repeatsFrom seen calls ++ if c.PC ∈ seen ∨ c.PC ∈ calls.map Call.PC then [c] else [] := by
  induction calls generalizing seen with
  | nil =>
      simp only [List.nil_append, repeatsFrom, List.map_nil, List.not_mem_nil, or_false]
  | cons first rest ih =>
      simp only [List.cons_append, repeatsFrom, List.map_cons, List.mem_cons]
      by_cases hSeen : first.PC ∈ seen
      · have hFirst : c.PC = first.PC → c.PC ∈ seen := fun h => h ▸ hSeen
        rw [if_pos hSeen, if_pos hSeen, ih, List.cons_append]
        congr 3
        exact propext ⟨by tauto, by tauto⟩
      · rw [if_neg hSeen, if_neg hSeen, ih]
        simp only [List.mem_cons]
        congr 2
        exact propext ⟨by tauto, by tauto⟩

theorem repeats_concat (calls : List Call) (c : Call) :
    repeats (calls ++ [c]) =
      repeats calls ++ if c.PC ∈ calls.map Call.PC then [c] else [] := by
  rw [repeats, repeatsFrom_concat]
  simp only [List.not_mem_nil, false_or]
  rfl

theorem repeats_subset_seen {calls : List Call} {c : Call} (hRepeat : c ∈ repeats calls) :
    c.PC ∈ calls.map Call.PC := by
  induction calls using List.reverseRecOn with
  | nil => simp [repeats, repeatsFrom] at hRepeat
  | append_singleton calls last ih =>
      rw [repeats_concat, List.mem_append] at hRepeat
      rw [List.map_append, List.mem_append]
      obtain hOld | hLast := hRepeat
      · exact .inl (ih hOld)
      · split_ifs at hLast with hSeen
        · obtain rfl := List.mem_singleton.mp hLast
          exact .inl hSeen
        · simp at hLast

section Keyed

variable {κ : Type*} [DecidableEq κ] {key : U64 → κ} {k : κ} {calls : List Call} {c : Call}

theorem two_le_counterAfter_iff :
    2 ≤ counterAfter key k calls ↔
      SaturatingCounter.leansUp 2 (repeatedOutcomes key k calls) = true :=
  SaturatingCounter.half_le_run_iff (by decide) _

theorem counterAfter_concat_of_new (hNew : c.PC ∉ calls.map Call.PC) :
    counterAfter key k (calls ++ [c]) = counterAfter key k calls := by
  rw [counterAfter, repeatedOutcomes, repeats_concat, if_neg hNew, List.append_nil]
  rfl

theorem counterAfter_concat_of_key_ne (hKey : key c.PC ≠ k) :
    counterAfter key k (calls ++ [c]) = counterAfter key k calls := by
  have hDrop : ((if c.PC ∈ calls.map Call.PC then [c] else []).filter fun c => key c.PC = k) =
      [] := by
    split_ifs <;> simp [hKey]
  rw [counterAfter, repeatedOutcomes, repeats_concat, List.filter_append, hDrop, List.append_nil]
  rfl

/-- A repeated call trains the counter of its key. -/
theorem counterAfter_concat_of_seen (hSeen : c.PC ∈ calls.map Call.PC) :
    counterAfter key (key c.PC) (calls ++ [c]) =
      SaturatingCounter.step 3 (counterAfter key (key c.PC) calls) c.up := by
  have hKeep : ([c].filter fun d => key d.PC = key c.PC) = [c] := by simp
  rw [counterAfter, repeatedOutcomes, repeats_concat, if_pos hSeen, List.filter_append, hKeep,
    List.map_append, List.map_singleton, SaturatingCounter.run_concat]
  rfl

theorem counterAfter_of_unseen (hUnseen : ∀ PC ∈ calls.map Call.PC, key PC ≠ k) :
    counterAfter key k calls = initialValue := by
  have hNone : ((repeats calls).filter fun c => key c.PC = k) = [] := by
    rw [List.filter_eq_nil_iff]
    intro c hRepeat
    simpa using hUnseen c.PC (repeats_subset_seen hRepeat)
  rw [counterAfter, repeatedOutcomes, hNone]
  rfl

end Keyed

/-- Two keys give the same answers when the outcomes that train the counters of
each repeated call lean the same way. -/
theorem answersAfter_eq_iff {κ μ : Type*} [DecidableEq κ] [DecidableEq μ] (key : U64 → κ)
    (key' : U64 → μ) (calls rest : List Call) :
    answersAfter key calls rest = answersAfter key' calls rest ↔
      ∀ before c after, rest = before ++ c :: after → c.PC ∈ (calls ++ before).map Call.PC →
        SaturatingCounter.leansUp 2 (repeatedOutcomes key (key c.PC) (calls ++ before)) =
          SaturatingCounter.leansUp 2 (repeatedOutcomes key' (key' c.PC) (calls ++ before)) := by
  induction rest generalizing calls with
  | nil => simp [answersAfter]
  | cons first rest ih =>
      have hFirst : answerAfter key calls first = answerAfter key' calls first ↔
          (first.PC ∈ calls.map Call.PC →
            SaturatingCounter.leansUp 2 (repeatedOutcomes key (key first.PC) calls) =
              SaturatingCounter.leansUp 2 (repeatedOutcomes key' (key' first.PC) calls)) := by
        simp only [answerAfter, two_le_counterAfter_iff, Bool.decide_eq_true]
        by_cases hSeen : first.PC ∈ calls.map Call.PC
        · cases first.up <;> simp [hSeen]
        · simp [hSeen]
      rw [answersAfter, answersAfter, List.cons.injEq, hFirst, ih]
      constructor
      · rintro ⟨hHead, hRest⟩ before c after hSplit
        cases before with
        | nil =>
            obtain ⟨rfl, rfl⟩ := List.cons.inj hSplit
            simpa using hHead
        | cons b before =>
            obtain ⟨rfl, rfl⟩ := List.cons.inj hSplit
            simpa using hRest before c after rfl
      · intro hAll
        refine ⟨by simpa using hAll [] first rest rfl, fun before c after hSplit => ?_⟩
        simpa using hAll (first :: before) c after (by rw [hSplit]; rfl)

end BranchPrediction.Bimodal
