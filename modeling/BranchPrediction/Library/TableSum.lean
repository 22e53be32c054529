import Mathlib

/-! Sums of weights over the cells of arrays and tables, and how they change
when one cell is written. -/
namespace TableSum

open Finset

variable {Cell : Type*}

/-- The total weight of the first `n` cells; a weight may depend on the index. -/
def arraySum (n : Nat) (weight : Nat → Cell → Nat) (cells : Nat → Cell) : Nat :=
  ∑ k ∈ range n, weight k (cells k)

/-- Writing one cell exchanges its weight. -/
theorem arraySum_update {n : Nat} (weight : Nat → Cell → Nat) (cells : Nat → Cell) {k : Nat}
    (hk : k < n) (c : Cell) :
    arraySum n weight (Function.update cells k c) + weight k (cells k) =
      arraySum n weight cells + weight k c := by
  have hMem : k ∈ range n := mem_range.mpr hk
  have hRest : ∑ j ∈ (range n).erase k, weight j (Function.update cells k c j) =
      ∑ j ∈ (range n).erase k, weight j (cells j) :=
    sum_congr rfl fun j hj => by rw [Function.update_of_ne (ne_of_mem_erase hj)]
  have hNew := add_sum_erase (range n) (fun j => weight j (Function.update cells k c j)) hMem
  have hOld := add_sum_erase (range n) (fun j => weight j (cells j)) hMem
  simp only [Function.update_self] at hNew
  unfold arraySum
  omega

theorem arraySum_congr {n : Nat} {weight : Nat → Cell → Nat} {first second : Nat → Cell}
    (h : ∀ k < n, weight k (first k) = weight k (second k)) :
    arraySum n weight first = arraySum n weight second :=
  sum_congr rfl fun k hk => h k (mem_range.mp hk)

theorem arraySum_const (n weight : Nat) (cells : Nat → Cell) :
    arraySum n (fun _ _ => weight) cells = n * weight := by
  simp [arraySum]

/-- The total weight of a table of `m` rows of `n` cells. -/
def tableSum (m n : Nat) (weight : Nat → Cell → Nat) (table : Nat → Nat → Cell) : Nat :=
  arraySum m (fun i row => arraySum n (fun _ => weight i) row) table

theorem tableSum_update {m n : Nat} (weight : Nat → Cell → Nat) (table : Nat → Nat → Cell)
    {i j : Nat} (hi : i < m) (hj : j < n) (c : Cell) :
    tableSum m n weight (Function.update table i (Function.update (table i) j c)) +
        weight i (table i j) =
      tableSum m n weight table + weight i c := by
  have hRow := arraySum_update (fun _ => weight i) (table i) hj c
  have hTable := arraySum_update (fun i row => arraySum n (fun _ => weight i) row) table hi
    (Function.update (table i) j c)
  unfold tableSum
  omega

theorem tableSum_congr {m n : Nat} {weight : Nat → Cell → Nat} {first second : Nat → Nat → Cell}
    (h : ∀ i < m, ∀ j < n, weight i (first i j) = weight i (second i j)) :
    tableSum m n weight first = tableSum m n weight second :=
  arraySum_congr fun i hi => arraySum_congr fun j hj => h i hi j hj

section Buckets

variable {α : Type*} (key : α → Nat)

/-- Items that are sorted into buckets: every one is in exactly one of them. -/
theorem sum_length_filter {n : Nat} {items : List α} (hKey : ∀ a ∈ items, key a < n) :
    ∑ b ∈ range n, (items.filter fun a => key a = b).length = items.length := by
  induction items with
  | nil => simp
  | cons a items ih =>
      have hHead : key a < n := hKey a List.mem_cons_self
      have hSplit (b : Nat) : ((a :: items).filter fun a => key a = b).length =
          (items.filter fun a => key a = b).length + if key a = b then 1 else 0 := by
        by_cases hb : key a = b <;> simp [hb]
      have hOne : ∑ b ∈ range n, (if key a = b then 1 else 0) = 1 := by
        rw [sum_ite_eq, if_pos (mem_range.mpr hHead)]
      simp only [hSplit]
      rw [sum_add_distrib, hOne, ih fun a' ha' => hKey a' (List.mem_cons_of_mem a ha'),
        List.length_cons]

/-- A sum in which empty buckets count as one. -/
theorem sum_max_one (n : Nat) (size : Nat → Nat) :
    ∑ b ∈ range n, max 1 (size b) =
      ∑ b ∈ range n, size b + ((List.range n).filter fun b => size b = 0).length := by
  induction n with
  | zero => rfl
  | succ n ih =>
      rw [sum_range_succ, sum_range_succ, ih, List.range_succ, List.filter_append,
        List.length_append]
      by_cases hEmpty : size n = 0
      · simp [hEmpty]
        omega
      · simp [hEmpty]
        omega

end Buckets

end TableSum
