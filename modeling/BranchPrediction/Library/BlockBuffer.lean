import Mathlib

/-! A buffer that is emptied into a log each time it is full: after any number
of items the log holds the complete blocks, and the buffer the rest. -/
namespace BlockBuffer

/-- Items that wait in the buffer, and items that have left it. -/
structure State (α : Type*) where
  pending : List α
  log : List α

variable {α : Type*} (size : Nat)

def State.empty : State α := ⟨[], []⟩

/-- Put an item into the buffer, and empty it if that was the last free place. -/
def push (s : State α) (a : α) : State α :=
  if s.pending.length + 1 < size then { s with pending := s.pending ++ [a] }
  else ⟨[], s.log ++ (s.pending ++ [a])⟩

/-- The buffer after these items. -/
def after (items : List α) : State α := items.foldl (push size) State.empty

theorem after_concat (items : List α) (a : α) :
    after size (items ++ [a]) = push size (after size items) a := by
  rw [after, List.foldl_append]
  rfl

/-- The log is a number of blocks, and the buffer has room for an item. -/
structure Splits (items : List α) (blocks : Nat) (s : State α) : Prop where
  order : s.log ++ s.pending = items
  log_length : s.log.length = size * blocks
  pending_length : s.pending.length < size

variable {size}

/-- One item more either stays in the buffer or completes a block. -/
theorem Splits.push {items : List α} {blocks : Nat} {s : State α} (h : Splits size items blocks s)
    (a : α) : ∃ blocks', Splits size (items ++ [a]) blocks' (push size s a) := by
  have hOrder : s.log ++ (s.pending ++ [a]) = items ++ [a] := by
    rw [← List.append_assoc, h.order]
  have hCount : (s.pending ++ [a]).length = s.pending.length + 1 := List.length_append
  have hRoom := h.pending_length
  by_cases hFull : s.pending.length + 1 < size
  · refine ⟨blocks, ?_⟩
    rw [BlockBuffer.push, if_pos hFull]
    exact ⟨hOrder, h.log_length, hCount.symm ▸ hFull⟩
  · refine ⟨blocks + 1, ?_⟩
    rw [BlockBuffer.push, if_neg hFull]
    refine ⟨(List.append_nil _).trans hOrder, ?_, Nat.zero_lt_of_lt hRoom⟩
    change (s.log ++ (s.pending ++ [a])).length = _
    rw [List.length_append, h.log_length, hCount, Nat.mul_succ]
    omega

theorem splits_after (hSize : 0 < size) (items : List α) :
    ∃ blocks, Splits size items blocks (after size items) := by
  induction items using List.reverseRecOn with
  | nil => exact ⟨0, rfl, rfl, hSize⟩
  | append_singleton items a ih =>
      obtain ⟨blocks, h⟩ := ih
      rw [after_concat]
      exact h.push a

/-- The number of blocks is the one that the number of items gives. -/
theorem Splits.eq {items : List α} {blocks : Nat} {s : State α} (h : Splits size items blocks s) :
    s.log = items.take (size * (items.length / size)) ∧
      s.pending = items.drop (size * (items.length / size)) := by
  obtain ⟨rfl, hLog, hRoom⟩ := h
  have hBlocks : (s.log ++ s.pending).length / size = blocks := by
    rw [List.length_append, hLog, Nat.mul_add_div (by omega), Nat.div_eq_of_lt hRoom, Nat.add_zero]
  rw [hBlocks, ← hLog]
  exact ⟨List.take_left.symm, List.drop_left.symm⟩

/-- After any number of items the log holds the complete blocks. -/
theorem after_eq (hSize : 0 < size) (items : List α) :
    (after size items).log = items.take (size * (items.length / size)) ∧
      (after size items).pending = items.drop (size * (items.length / size)) := by
  obtain ⟨blocks, h⟩ := splits_after hSize items
  exact h.eq

end BlockBuffer
