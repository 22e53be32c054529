import Mathlib

/-! Bit sequences folded onto a cycle of `T` positions. The head of a list is
the newest bit; a bit of age `a` lands on position `a % T` and the bits that
land on one position are combined by exclusive or. -/
namespace CyclicFold

/-- The position before `k` on the cycle. -/
def before (T k : Nat) : Nat := (k + T - 1) % T

theorem before_lt {T k : Nat} (hT : 0 < T) : before T k < T := Nat.mod_lt _ hT

@[simp] theorem before_zero {T : Nat} (hT : 0 < T) : before T 0 = T - 1 := by
  rw [before, Nat.zero_add]
  exact Nat.mod_eq_of_lt (Nat.sub_lt hT Nat.one_pos)

@[simp] theorem before_succ {T k : Nat} (hk : k + 1 < T) : before T (k + 1) = k := by
  have hSum : k + 1 + T - 1 = k + T := by omega
  rw [before, hSum, Nat.add_mod_right, Nat.mod_eq_of_lt (by omega)]

/-- One step of age is one step on the cycle. -/
theorem succ_mod_eq_iff {T k : Nat} (a : Nat) (hk : k < T) :
    (a + 1) % T = k ↔ a % T = before T k := by
  have hT : 0 < T := by omega
  have hStep : (a + 1) % T = (a % T + 1) % T := by rw [Nat.mod_add_mod]
  have hRem := Nat.mod_lt a hT
  rw [hStep]
  by_cases hWrap : a % T + 1 = T
  · rw [hWrap, Nat.mod_self]
    cases k with
    | zero => rw [before_zero hT]; omega
    | succ k => rw [before_succ hk]; omega
  · rw [Nat.mod_eq_of_lt (by omega)]
    cases k with
    | zero => rw [before_zero hT]; omega
    | succ k => rw [before_succ hk]; omega

/-- Position `k` of the fold of `bits`, whose head has age `a`. -/
def foldBit (T a k : Nat) : List Bool → Bool
  | [] => false
  | b :: bits => (b && decide (a % T = k)) ^^ foldBit T (a + 1) k bits

@[simp] theorem foldBit_nil (T a k : Nat) : foldBit T a k [] = false := rfl

theorem foldBit_append (T a k : Nat) (recent old : List Bool) :
    foldBit T a k (recent ++ old) =
      (foldBit T a k recent ^^ foldBit T (a + recent.length) k old) := by
  induction recent generalizing a with
  | nil => simp
  | cons b recent ih =>
      have hAge : a + 1 + recent.length = a + (recent.length + 1) := by omega
      simp only [List.cons_append, foldBit, ih, List.length_cons, hAge, Bool.xor_assoc]

/-- Ageing every bit by one turns the cycle by one position. -/
theorem foldBit_succ {T k : Nat} (a : Nat) (hk : k < T) (bits : List Bool) :
    foldBit T (a + 1) k bits = foldBit T a (before T k) bits := by
  induction bits generalizing a with
  | nil => rfl
  | cons b bits ih => simp only [foldBit, ih, succ_mod_eq_iff a hk]

/-- Folding in a new bit of age 0. -/
theorem foldBit_cons {T k : Nat} (hk : k < T) (b : Bool) (bits : List Bool) :
    foldBit T 0 k (b :: bits) =
      ((b && decide (k = 0)) ^^ foldBit T 0 (before T k) bits) := by
  rw [foldBit, foldBit_succ 0 hk, Nat.zero_mod]
  simp only [eq_comm]

/-- A fold started at a later age, with one more bit at the front. -/
theorem foldBit_cons_at {T k : Nat} (a : Nat) (hk : k < T) (b : Bool) (bits : List Bool) :
    foldBit T a k (b :: bits) =
      ((b && decide (a % T = k)) ^^ foldBit T a (before T k) bits) := by
  rw [foldBit, foldBit_succ a hk]

/-- Only the positions of the cycle are used. -/
theorem foldBit_of_le {T a k : Nat} (hT : 0 < T) (hk : T ≤ k) (bits : List Bool) :
    foldBit T a k bits = false := by
  induction bits generalizing a with
  | nil => rfl
  | cons b bits ih =>
      have hAway : a % T ≠ k := Nat.ne_of_lt (Nat.lt_of_lt_of_le (Nat.mod_lt a hT) hk)
      rw [foldBit, ih, decide_eq_false hAway, Bool.and_false]
      rfl

/-- A window that slides by one bit: the cycle turns, the newest bit enters at
position 0, and the evicted one is cancelled where the window ends. -/
theorem foldBit_slide {T k : Nat} (hk : k < T) {newest evicted : Bool} {old window : List Bool}
    (hWindow : newest :: old = window ++ [evicted]) :
    foldBit T 0 k window =
      (foldBit T 0 (before T k) old ^^ (newest && decide (k = 0)) ^^
        (evicted && decide (window.length % T = k))) := by
  have hWhole := foldBit_append T 0 k window [evicted]
  rw [← hWindow, foldBit_cons hk, Nat.zero_add] at hWhole
  simp only [foldBit, Bool.xor_false] at hWhole
  rw [Bool.xor_comm (foldBit T 0 (before T k) old), hWhole, Bool.xor_assoc, Bool.xor_self,
    Bool.xor_false]

end CyclicFold
