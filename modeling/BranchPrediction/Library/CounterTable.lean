import BranchPrediction.Library.FoldRun
import BranchPrediction.Library.SaturatingCounter

/-! A table of saturating counters that guesses outcomes, one counter for each
key. What it gets wrong is bounded by what a forecast for each key gets wrong. -/
namespace CounterTable

open Finset FoldRun SaturatingCounter

/-- An outcome, and the counter that it trains. -/
structure Event (Key : Type*) where
  key : Key
  up : Bool

variable {Key : Type*} [DecidableEq Key] (half : Nat)

def guess (counter : Key → Nat) (k : Key) : Bool := decide (half ≤ counter k)

def train (counter : Key → Nat) (e : Event Key) : Key → Nat :=
  Function.update counter e.key (step (2 * half - 1) (counter e.key) e.up)

def wrong (counter : Key → Nat) (e : Event Key) : Nat := (guess half counter e.key != e.up).toNat

/-- What the counters in `keys` still get wrong if all outcomes are as forecast. -/
def totalDebt (keys : Finset Key) (counter : Key → Nat) (forecast : Key → Bool) : Nat :=
  ∑ k ∈ keys, debt half (counter k) (forecast k)

section Runs

variable {half} {counter : Key → Nat}

theorem train_le (hCounter : ∀ k, counter k ≤ 2 * half - 1) (e : Event Key) (k : Key) :
    train half counter e k ≤ 2 * half - 1 := by
  by_cases hk : k = e.key
  · subst k
    rw [train, Function.update_self]
    exact step_le (hCounter e.key) e.up
  · rw [train, Function.update_of_ne hk]
    exact hCounter k

/-- A counter has seen the outcomes of its own key. -/
theorem foldl_train (counter : Key → Nat) (events : List (Event Key)) (k : Key) :
    events.foldl (train half) counter k =
      run (2 * half - 1) (counter k) ((events.filter fun e => e.key = k).map Event.up) := by
  induction events generalizing counter with
  | nil => rfl
  | cons e events ih =>
      rw [List.foldl_cons, ih]
      by_cases hk : e.key = k
      · subst k
        rw [List.filter_cons_of_pos (by simp), List.map_cons, train, Function.update_self]
        rfl
      · rw [List.filter_cons_of_neg (by simpa using hk), train, Function.update_of_ne (Ne.symm hk)]

end Runs

section Mistakes

variable {half} {keys : Finset Key} {counter counter' : Key → Nat} {forecast forecast' : Key → Bool}

/-- What happens at one key decides what happens to the debt. -/
theorem totalDebt_of_own {k : Key} {paid made : Nat} (hKey : k ∈ keys)
    (hOthers : ∀ j ≠ k, counter' j = counter j ∧ forecast' j = forecast j)
    (hOwn : paid + debt half (counter' k) (forecast' k) ≤
      debt half (counter k) (forecast k) + made) :
    paid + totalDebt half keys counter' forecast' ≤ totalDebt half keys counter forecast + made := by
  have hRest : ∑ j ∈ keys.erase k, debt half (counter' j) (forecast' j) =
      ∑ j ∈ keys.erase k, debt half (counter j) (forecast j) := by
    refine sum_congr rfl fun j hj => ?_
    obtain ⟨hCounter, hForecast⟩ := hOthers j (ne_of_mem_erase hj)
    rw [hCounter, hForecast]
  rw [totalDebt, totalDebt, ← add_sum_erase _ _ hKey, ← add_sum_erase _ _ hKey, hRest]
  omega

/-- A wrong guess pays off debt of its own counter; a forecast that follows the
last outcome makes debt when the outcome turns. -/
theorem wrong_step_last (forecast : Key → Bool) (hPos : 0 < half) {e : Event Key}
    (hKey : e.key ∈ keys) (hCounter : counter e.key ≤ 2 * half - 1) :
    wrong half counter e +
        totalDebt half keys (train half counter e) (Function.update forecast e.key e.up) ≤
      totalDebt half keys counter forecast + half * (e.up != forecast e.key).toNat := by
  refine totalDebt_of_own hKey (fun j hj => ?_) ?_
  · exact ⟨Function.update_of_ne hj .., Function.update_of_ne hj ..⟩
  · rw [train, Function.update_self, Function.update_self]
    exact debt_step hPos hCounter (forecast e.key) e.up

/-- A forecast that stays makes debt when it is wrong itself. -/
theorem wrong_step (forecast : Key → Bool) (hPos : 0 < half) {e : Event Key}
    (hKey : e.key ∈ keys) (hCounter : counter e.key ≤ 2 * half - 1) :
    wrong half counter e + totalDebt half keys (train half counter e) forecast ≤
      totalDebt half keys counter forecast + 2 * (e.up != forecast e.key).toNat := by
  refine totalDebt_of_own hKey (fun j hj => ⟨Function.update_of_ne hj .., rfl⟩) ?_
  rw [train, Function.update_self]
  exact debt_step_fixed hPos hCounter (forecast e.key) e.up

/-- The counters do at most twice as badly as the best forecast for each key, up
to what they have to learn first. -/
theorem totalCost_wrong_le (forecast : Key → Bool) (hPos : 0 < half)
    (hCounter : ∀ k, counter k ≤ 2 * half - 1) {events : List (Event Key)}
    (hKeys : ∀ e ∈ events, e.key ∈ keys) :
    totalCost (train half) (wrong half) counter events ≤
      totalDebt half keys counter forecast +
        2 * events.countP fun e => e.up != forecast e.key := by
  induction events generalizing counter with
  | nil => exact Nat.zero_le _
  | cons e events ih =>
      have hStep := wrong_step forecast hPos (hKeys e List.mem_cons_self) (hCounter e.key)
      have hRest := ih (train_le hCounter e) fun e' he' => hKeys e' (List.mem_cons_of_mem _ he')
      have hBit : (if e.up != forecast e.key then 1 else 0) = (e.up != forecast e.key).toNat := by
        cases e.up != forecast e.key <;> rfl
      rw [totalCost, List.countP_cons, hBit]
      omega

end Mistakes

end CounterTable
