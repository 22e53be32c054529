import BranchPrediction.SharedMemory.FullMemory

/-! What becomes of the arguments of a call. A call that finds the memory full
waits for the server and returns without storing them. -/
namespace BranchPrediction.SharedMemory

/-- The cell that follows the last one used. -/
def nextAddress (nData : Nat) : Option CellAddress → CellAddress
  | none => ⟨0, 0⟩
  | some a => if a.index + 1 = nData then ⟨a.sector ^^^ 1, 0⟩ else ⟨a.sector, a.index + 1⟩

/-- While the call ran, its arguments were stored in the next cell and nothing
else was stored. -/
def ReturnedCall.Delivered (nData : Nat) (r : ReturnedCall) : Prop :=
  r.after = r.before ++ [(nextAddress nData (r.before.getLast?.map Prod.fst), r.args)]

theorem nextAddress_addressOf {nData : Nat} (hPos : 0 < nData) (k : Nat) :
    nextAddress nData (some (addressOf nData k)) = addressOf nData (k + 1) := by
  have hSplit := Nat.div_add_mod' k nData
  have hIndex := Nat.mod_lt k hPos
  by_cases hLast : k % nData + 1 = nData
  · have hNext : k + 1 = (k / nData + 1) * nData + 0 := by
      rw [Nat.add_mul, Nat.one_mul]
      omega
    rw [nextAddress, addressOf, if_pos hLast, hNext, addressOf_add hPos, xor_one_mod_two]
  · have hNext : k + 1 = k / nData * nData + (k % nData + 1) := by omega
    rw [nextAddress, addressOf, if_neg hLast, hNext, addressOf_add (by omega)]

/-- What the current call has stored so far. -/
def Printer.CallSoFar (nData : Nat) (x : Shared) (c : Printer) : Prop :=
  match c.label with
  | .idle | .exited => True
  | .connect | .lock | .check | .unlock => x.stored = c.before
  | .pick | .store _ => x.stored = c.before ∧ c.currStatus ≠ 3
  | .full => x.stored = c.before ∧ c.currStatus = 3
  | _ =>
      x.stored =
          c.before ++ [(nextAddress nData (c.before.getLast?.map Prod.fst), c.args)] ∧
        c.currStatus ≠ 3

structure CallLog (nData : Nat) (x : Shared) (c : Printer) : Prop where
  returned : ∀ r ∈ c.returned, r.first = false → (r.Delivered nData ↔ r.currStatus ≠ 3)
  current : c.CallSoFar nData x

section Steps

variable {p : Setup} {g : Ledger} {x x' : Shared} {c c' : Printer}

/-- The cell that the client writes follows the last one that it wrote. -/
theorem PrinterAt.store_address (hx : Coherent p g x) (h : PrinterAt p g x c) {sector : Nat}
    (hLabel : c.label = .store sector) :
    (⟨sector, c.cnt⟩ : CellAddress) = nextAddress p.nData (x.stored.getLast?.map Prod.fst) := by
  obtain ⟨_, _, _, hStored, hSector⟩ := h.facts hLabel
  have hLength : x.stored.length = g.closed * p.nData + c.cnt := hStored
  have hHere : addressOf p.nData x.stored.length = ⟨sector, c.cnt⟩ := by
    rw [hLength, addressOf_add h.cnt_lt, hSector]
  rw [← hHere, List.getLast?_eq_getElem?]
  cases hCount : x.stored.length with
  | zero => simp [List.length_eq_zero_iff.mp hCount, nextAddress, addressOf]
  | succ k =>
      obtain ⟨a, d, hLast⟩ := Shared.exists_stored (by omega : k < x.stored.length)
      rw [Nat.add_sub_cancel, hLast, Option.map_some, hx.address k a d hLast,
        nextAddress_addressOf p.nData_pos]

namespace CallLog

theorem finish_first {nData : Nat} (h : CallLog nData x c) (y : Shared) :
    CallLog nData y (c.finish y true) where
  returned := by
    intro r hMem hFirst
    rcases List.mem_append.mp hMem with hOld | hNew
    · exact h.returned r hOld hFirst
    · obtain rfl := List.mem_singleton.mp hNew
      simp at hFirst
  current := trivial

/-- The record of a call that ends. -/
theorem finish {nData : Nat}
    (hReturned : ∀ r ∈ c.returned, r.first = false → (r.Delivered nData ↔ r.currStatus ≠ 3))
    (y : Shared)
    (hLast : y.stored =
        c.before ++ [(nextAddress nData (c.before.getLast?.map Prod.fst), c.args)] ↔
      c.currStatus ≠ 3) : CallLog nData y (c.finish y false) where
  returned := by
    intro r hMem hFirst
    rcases List.mem_append.mp hMem with hOld | hNew
    · exact hReturned r hOld hFirst
    · obtain rfl := List.mem_singleton.mp hNew
      exact hLast
  current := trivial

theorem client_step (hx : Coherent p g x) (hClient : PrinterAt p g x c) (h : CallLog p.nData x c)
    {args : ShmCell} (hStep : c.step p args x = some (x', c')) : CallLog p.nData x' c' := by
  have hCurrent := h.current
  cases hLabel : c.label with
  | idle =>
      simp only [Printer.step, hLabel, Option.some.injEq, Prod.mk.injEq] at hStep
      obtain ⟨rfl, rfl⟩ := hStep
      refine ⟨h.returned, ?_⟩
      cases c.firstTime <;> exact rfl
  | connect =>
      simp only [Printer.step, hLabel, Option.bind_eq_bind, Option.bind_eq_some_iff,
        Option.some.injEq, Prod.mk.injEq] at hStep
      obtain ⟨value, _, rfl, rfl⟩ := hStep
      exact h.finish_first _
  | lock | closeLock =>
      simp only [Printer.step, hLabel, Option.bind_eq_bind, Option.bind_eq_some_iff,
        Option.some.injEq, Prod.mk.injEq] at hStep
      obtain ⟨value, _, rfl, rfl⟩ := hStep
      simp only [Printer.CallSoFar, hLabel] at hCurrent
      exact ⟨h.returned, hCurrent⟩
  | check | closeSide | closeStatus newStatus | closeToggle | closeToggleWrite side | closePost =>
      simp only [Printer.step, hLabel, Option.some.injEq, Prod.mk.injEq] at hStep
      obtain ⟨rfl, rfl⟩ := hStep
      simp only [Printer.CallSoFar, hLabel] at hCurrent
      exact ⟨h.returned, hCurrent⟩
  | unlock =>
      simp only [Printer.step, hLabel, Option.some.injEq, Prod.mk.injEq] at hStep
      obtain ⟨rfl, rfl⟩ := hStep
      simp only [Printer.CallSoFar, hLabel] at hCurrent
      by_cases hFull : c.currStatus = 3
      · rw [if_neg (not_not_intro hFull)]
        exact ⟨h.returned, hCurrent, hFull⟩
      · rw [if_pos hFull]
        exact ⟨h.returned, hCurrent, hFull⟩
  | pick =>
      simp only [Printer.step, hLabel, Option.some.injEq, Prod.mk.injEq] at hStep
      obtain ⟨rfl, rfl⟩ := hStep
      simp only [Printer.CallSoFar, hLabel] at hCurrent
      exact ⟨h.returned, hCurrent⟩
  | store sector =>
      have hAddress := hClient.store_address hx hLabel
      simp only [Printer.CallSoFar, hLabel] at hCurrent
      obtain ⟨hBefore, hRoom⟩ := hCurrent
      have hStored : (x.store sector c.cnt c.args).stored =
          c.before ++ [(nextAddress p.nData (c.before.getLast?.map Prod.fst), c.args)] := by
        rw [Shared.store, hAddress, hBefore]
      simp only [Printer.step, hLabel] at hStep
      by_cases hLast : c.cnt = p.nData - 1
      · rw [if_neg (not_not_intro hLast), Option.some.injEq, Prod.mk.injEq] at hStep
        obtain ⟨rfl, rfl⟩ := hStep
        exact ⟨h.returned, hStored, hRoom⟩
      · rw [if_pos hLast, Option.some.injEq, Prod.mk.injEq] at hStep
        obtain ⟨rfl, rfl⟩ := hStep
        exact finish (c := { c with cnt := c.cnt + 1 }) h.returned _ (iff_of_true hStored hRoom)
  | closeSwitch =>
      simp only [Printer.CallSoFar, hLabel] at hCurrent
      simp only [Printer.step, hLabel] at hStep
      split at hStep <;>
        · simp only [Option.some.injEq, Prod.mk.injEq] at hStep
          obtain ⟨rfl, rfl⟩ := hStep
          exact ⟨h.returned, by simp [Printer.CallSoFar, hCurrent]⟩
  | closeUnlock =>
      simp only [Printer.step, hLabel, Option.some.injEq, Prod.mk.injEq] at hStep
      obtain ⟨rfl, rfl⟩ := hStep
      simp only [Printer.CallSoFar, hLabel] at hCurrent
      exact finish h.returned _ (iff_of_true hCurrent.1 hCurrent.2)
  | full =>
      simp only [Printer.step, hLabel, Option.bind_eq_bind, Option.bind_eq_some_iff,
        Option.some.injEq, Prod.mk.injEq] at hStep
      obtain ⟨value, _, rfl, rfl⟩ := hStep
      simp only [Printer.CallSoFar, hLabel] at hCurrent
      obtain ⟨hBefore, hFull⟩ := hCurrent
      refine finish h.returned _ (iff_of_false ?_ (not_not_intro hFull))
      rw [hBefore]
      intro hEqual
      simp at hEqual
  | exited => simp [Printer.step, hLabel] at hStep

end CallLog

end Steps

theorem callLog_of_reachable {p : Setup} {s : System} (hReachable : Reachable p s) :
    CallLog p.nData s.shared s.left := by
  refine hReachable.invariant (P := fun s => CallLog p.nData s.shared s.left) ?_
    fun s s' hBefore h hStep => ?_
  · refine ⟨?_, trivial⟩
    intro r hMem
    simp [System.init, Printer.init] at hMem
  · obtain ⟨g, hx, hClient, hServer⟩ := consistent_of_reachable hBefore
    cases hStep with
    | left b hLeft =>
        obtain ⟨args, hLeft⟩ := hLeft
        exact h.client_step hx hClient hLeft
    | right a hRight =>
        -- the server stores nothing and does not touch the client
        obtain ⟨_, _, _, hMoves⟩ := hServer.step hx hRight
        refine ⟨h.returned, ?_⟩
        have hCurrent := h.current
        simp only [Printer.CallSoFar] at hCurrent ⊢
        rwa [hMoves.stored]

/-- In every interleaving, a call after the first one that returns has stored its
arguments, in the cell after the last one used, exactly if it did not read
status 3. -/
theorem delivered_iff_not_full (p : Setup) (s : System) (hReachable : Reachable p s) :
    ∀ r ∈ s.left.returned, r.first = false → (r.Delivered p.nData ↔ r.currStatus ≠ 3) :=
  (callLog_of_reachable hReachable).returned

/-- The second call of a run, which finds room. -/
theorem delivered_iff_not_full_busy :
    ∃ r ∈ busy.left.returned, r.first = false ∧ r.Delivered 1 := by
  have hMem : ⟨⟨4, 8, 1⟩, false, 0, [], [(⟨0, 0⟩, ⟨4, 8, 1⟩)]⟩ ∈ busy.left.returned := by decide
  exact ⟨_, hMem, rfl,
    (delivered_iff_not_full oneCell busy reachable_busy _ hMem rfl).mpr (by decide)⟩

/-- The call that found the memory full gets its token and returns. -/
theorem record_lost :
    ∃ s, Reachable oneIstr s ∧ ∃ r ∈ s.left.returned, r.first = false ∧ r.currStatus = 3 ∧
      r.after = r.before ∧ ¬ r.Delivered oneIstr.nData := by
  obtain ⟨⟨⟨cell, status, nextToRead, nextToWrite, statusMutex, clientWrote, serverRead, stored⟩,
    ⟨label, firstTime, cnt, args, currStatus, before, returned⟩,
    ⟨serverLabel, serverStatus, session, fed⟩⟩, h⟩ := inWindow
  obtain ⟨hReachable, rfl, rfl, hBefore, rfl, rfl, rfl⟩ := h
  simp only at hBefore
  subst hBefore
  have hToggle := hReachable.server rfl
  have hPost := hToggle.server rfl
  have hPosted := hPost.server rfl
  have hReturned := hPosted.client ⟨0, 0, 0⟩ rfl
  refine ⟨_, hReturned, ⟨args, false, 3, before, before⟩, ?_, rfl, rfl, rfl, ?_⟩
  · exact List.mem_append_right _ (List.mem_singleton.mpr rfl)
  · intro hDelivered
    simp [ReturnedCall.Delivered] at hDelivered

end BranchPrediction.SharedMemory
