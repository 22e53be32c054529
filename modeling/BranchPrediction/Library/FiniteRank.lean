import Mathlib

/-! The two largest elements of a finite set of numbers, and how many elements
lie below them. -/
namespace FiniteRank

/-- The number of elements below `j`. -/
def rank (S : Finset Nat) (j : Nat) : Nat := (S.filter (· < j)).card

def largest (S : Finset Nat) : Nat := S.sup id

def secondLargest (S : Finset Nat) : Nat := largest (S.erase (largest S))

variable {S : Finset Nat}

/-- The elements below `j` are all the numbers below `j` exactly when there are
`j` of them. -/
theorem rank_eq_self_iff {j : Nat} : rank S j = j ↔ ∀ i < j, i ∈ S := by
  have hSub : S.filter (· < j) ⊆ Finset.range j := fun i hi =>
    Finset.mem_range.mpr (Finset.mem_filter.mp hi).2
  constructor
  · intro hRank i hi
    have hAll : S.filter (· < j) = Finset.range j := by
      apply Finset.eq_of_subset_of_card_le hSub
      rw [Finset.card_range]
      exact hRank.ge
    have hMem : i ∈ S.filter (· < j) := by
      rw [hAll]
      exact Finset.mem_range.mpr hi
    exact (Finset.mem_filter.mp hMem).1
  · intro hAll
    have hEq : S.filter (· < j) = Finset.range j := by
      apply Finset.Subset.antisymm hSub
      intro i hi
      rw [Finset.mem_range] at hi
      exact Finset.mem_filter.mpr ⟨hAll i hi, hi⟩
    rw [rank, hEq, Finset.card_range]

theorem le_largest {i : Nat} (hi : i ∈ S) : i ≤ largest S := Finset.le_sup (f := id) hi

theorem largest_mem (hSome : S.Nonempty) : largest S ∈ S := by
  obtain ⟨i, hi, hEq⟩ := Finset.exists_mem_eq_sup S hSome id
  rw [largest, hEq]
  exact hi

theorem rank_largest (hSome : S.Nonempty) : rank S (largest S) = S.card - 1 := by
  have hBelow : S.filter (· < largest S) = S.erase (largest S) := by
    ext i
    rw [Finset.mem_filter, Finset.mem_erase]
    constructor
    · rintro ⟨hi, hLess⟩
      exact ⟨Nat.ne_of_lt hLess, hi⟩
    · rintro ⟨hNe, hi⟩
      exact ⟨hi, Nat.lt_of_le_of_ne (le_largest hi) hNe⟩
  rw [rank, hBelow, Finset.card_erase_of_mem (largest_mem hSome)]

section TwoElements

variable (hTwo : 2 ≤ S.card)
include hTwo

theorem erase_largest_nonempty : (S.erase (largest S)).Nonempty := by
  have hSome : S.Nonempty := Finset.card_pos.mp (by omega)
  apply Finset.card_pos.mp
  rw [Finset.card_erase_of_mem (largest_mem hSome)]
  omega

theorem secondLargest_mem : secondLargest S ∈ S :=
  Finset.mem_of_mem_erase (largest_mem (erase_largest_nonempty hTwo))

theorem rank_secondLargest : rank S (secondLargest S) = S.card - 2 := by
  have hSome : S.Nonempty := Finset.card_pos.mp (by omega)
  have hRest := largest_mem (erase_largest_nonempty hTwo)
  have hLess : secondLargest S < largest S :=
    Nat.lt_of_le_of_ne (le_largest (secondLargest_mem hTwo)) (Finset.ne_of_mem_erase hRest)
  have hBelow : S.filter (· < secondLargest S) =
      (S.erase (largest S)).filter (· < largest (S.erase (largest S))) := by
    ext i
    simp only [Finset.mem_filter, Finset.mem_erase]
    constructor
    · rintro ⟨hi, hBefore⟩
      exact ⟨⟨by omega, hi⟩, hBefore⟩
    · rintro ⟨⟨_, hi⟩, hBefore⟩
      exact ⟨hi, hBefore⟩
  have hRank := rank_largest (erase_largest_nonempty hTwo)
  rw [rank, Finset.card_erase_of_mem (largest_mem hSome)] at hRank
  rw [rank, hBelow, hRank]
  omega

end TwoElements

end FiniteRank
