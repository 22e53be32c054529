import Mathlib.Data.List.Nodup

/-! Singly linked chains in a heap. The heap is seen through the function that
reads the link of a cell; a chain is the list of cells that following the links
meets before the null pointer. -/
namespace LinkedChain

variable {α : Type*}

inductive Chain (next : α → Option α) : Option α → List α → Prop where
  | nil : Chain next none []
  | cons {cell : α} {rest : List α} :
      Chain next (next cell) rest → Chain next (some cell) (cell :: rest)

/-- Follow the links to the first cell that is wanted, or to the last cell. The
walk gives up when the fuel runs out. -/
def walk (next : α → Option α) (wanted : α → Bool) : Nat → α → Option α
  | 0, _ => none
  | fuel + 1, cell =>
      match next cell with
      | none => some cell
      | some successor => if wanted cell then some cell else walk next wanted fuel successor

namespace Chain

variable {next next' : α → Option α} {start : Option α} {cells : List α}

theorem congr (hChain : Chain next start cells) (hNext : ∀ cell ∈ cells, next' cell = next cell) :
    Chain next' start cells := by
  induction hChain with
  | nil => exact .nil
  | @cons cell rest _ ih =>
      have hTail := ih fun c hc => hNext c (List.mem_cons_of_mem _ hc)
      rw [← hNext cell List.mem_cons_self] at hTail
      exact .cons hTail

theorem unique {other : List α} (hChain : Chain next start cells) (hOther : Chain next start other) :
    cells = other := by
  induction hChain generalizing other with
  | nil => cases hOther; rfl
  | cons _ ih =>
      cases hOther with
      | cons hRest => rw [ih hRest]

/-- A chain can be entered at each of its cells. -/
theorem drop {before after : List α} {cell : α} (hChain : Chain next start (before ++ cell :: after)) :
    Chain next (some cell) (cell :: after) := by
  induction before generalizing start with
  | nil =>
      cases hChain with
      | cons hRest => exact .cons hRest
  | cons _ _ ih =>
      cases hChain with
      | cons hRest => exact ih hRest

theorem start_eq_none_iff (hChain : Chain next start cells) : start = none ↔ cells = [] := by
  cases hChain <;> simp

/-- A chain that ends has no cycle: a cell met twice would have two different
chains behind it. -/
theorem nodup (hChain : Chain next start cells) : cells.Nodup := by
  induction hChain with
  | nil => exact List.nodup_nil
  | @cons cell rest hRest ih =>
      refine List.nodup_cons.mpr ⟨fun hMem => ?_, ih⟩
      obtain ⟨before, after, rfl⟩ := List.append_of_mem hMem
      have hAgain := (Chain.cons hRest).unique hRest.drop
      have hLength := congrArg List.length hAgain
      simp only [List.length_cons, List.length_append] at hLength
      omega

/-- Linking a fresh cell behind the last one. -/
theorem concat {before : List α} {last fresh : α} (hChain : Chain next start (before ++ [last]))
    (hBefore : ∀ cell ∈ before, next' cell = next cell) (hLast : next' last = some fresh)
    (hFresh : next' fresh = none) : Chain next' start (before ++ [last, fresh]) := by
  induction before generalizing start with
  | nil =>
      cases hChain with
      | cons _ =>
          apply Chain.cons
          rw [hLast]
          apply Chain.cons
          rw [hFresh]
          exact .nil
  | cons cell rest ih =>
      cases hChain with
      | cons hRest =>
          have hTail := ih hRest fun c hc => hBefore c (List.mem_cons_of_mem _ hc)
          rw [← hBefore cell List.mem_cons_self] at hTail
          exact .cons hTail

/-- Fuel for every cell lets the walk reach the first cell that is wanted, or
the last one. -/
theorem walk_eq (wanted : α → Bool) {fuel : Nat} {cell : α} (hChain : Chain next (some cell) cells)
    (hFuel : cells.length ≤ fuel) :
    ∃ before found after, walk next wanted fuel cell = some found ∧
      cells = before ++ found :: after ∧ (∀ c ∈ before, wanted c = false) ∧
      (wanted found = true ∨ after = []) := by
  induction fuel generalizing cell cells with
  | zero =>
      cases hChain
      simp at hFuel
  | succ fuel ih =>
      cases hChain with
      | @cons _ rest hRest =>
          cases hNext : next cell with
          | none =>
              rw [hNext] at hRest
              cases hRest
              exact ⟨[], cell, [], by simp [walk, hNext], rfl, by simp, .inr rfl⟩
          | some successor =>
              cases hWanted : wanted cell with
              | true =>
                  exact ⟨[], cell, rest, by simp [walk, hNext, hWanted], rfl, by simp, .inl hWanted⟩
              | false =>
                  rw [hNext] at hRest
                  obtain ⟨before, found, after, hWalk, hCells, hBefore, hFound⟩ :=
                    ih hRest (Nat.le_of_succ_le_succ hFuel)
                  refine ⟨cell :: before, found, after, ?_, by rw [hCells]; rfl, ?_, hFound⟩
                  · simp [walk, hNext, hWanted, hWalk]
                  · simpa [hWanted] using hBefore

end Chain

end LinkedChain
