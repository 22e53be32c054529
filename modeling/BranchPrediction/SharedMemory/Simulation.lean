import BranchPrediction.SharedMemory.Blocking
import BranchPrediction.SharedMemory.EmulatedClient
import BranchPrediction.SharedMemory.Statistics

/-! The helper follows `client.c` step by step: it is called with the cell that
the loop stores next. What holds of the helper and the server in every
interleaving holds of the loop and the server. -/
namespace BranchPrediction.SharedMemory

open Interleaving

namespace EmulatedClient

/-- Where the helper is. It has no step for `sem_getvalue`. -/
def printerLabel (c : EmulatedClient) : PrinterLabel :=
  match c.label with
  | .loop => .idle
  | .connect => .connect
  | .lock => .lock
  | .check => .check
  | .unlock => .unlock
  | .getValue => if c.currStatus ≠ 3 then .pick else .full
  | .pick => .pick
  | .store sector => .store sector
  | .closeLock => .closeLock
  | .closeSwitch => .closeSwitch
  | .closeSide => .closeSide
  | .closeStatus newStatus => .closeStatus newStatus
  | .closeToggle => .closeToggle
  | .closeToggleWrite side => .closeToggleWrite side
  | .closePost => .closePost
  | .closeUnlock => .closeUnlock
  | .full => .full
  | .exited => .exited

/-- The round has not stored its cell, and still can. -/
def BeforeStore (c : EmulatedClient) : Prop :=
  match c.label with
  | .lock | .check | .unlock | .getValue | .pick | .store _ => True
  | _ => False

/-- The helper is in a call for the next cell. -/
structure Follows (p : Setup) (c : EmulatedClient) (d : Printer) : Prop where
  label : d.label = c.printerLabel
  firstTime : d.firstTime = c.firstTime
  cnt : d.cnt = c.cnt
  currStatus : d.currStatus = c.currStatus
  args : c.BeforeStore → d.args = c.nextCell p

variable {p : Setup} {x x' : Shared} {c c' : EmulatedClient} {d : Printer}

theorem semWait_bind {α : Type} {value rest : Nat} (hWait : semWait value = some rest)
    (f : Nat → Option α) : (semWait value >>= f) = f rest := by
  rw [hWait]
  rfl

theorem Follows.step (h : Follows p c d) (hStep : c.step p x = some (x', c')) :
    x' = x ∧ Follows p c' d ∨ ∃ d', ClientStep p x d x' d' ∧ Follows p c' d' := by
  obtain ⟨label, _, _, round, tmp, _, value⟩ := c
  obtain ⟨_, firstTime, cnt, args, currStatus, before, returned⟩ := d
  obtain ⟨hLabel, hFirstTime, hCnt, hCurrStatus, hArgs⟩ := h
  simp only at hLabel hFirstTime hCnt hCurrStatus hArgs
  subst hLabel hFirstTime hCnt hCurrStatus
  cases label with
  | loop =>
      obtain ⟨rfl, rfl⟩ := Prod.mk.inj (Option.some.inj hStep)
      refine .inr ⟨_, ⟨_, rfl⟩, ?_, rfl, rfl, rfl, fun _ => rfl⟩
      cases firstTime <;> rfl
  | connect | full =>
      simp only [EmulatedClient.step, Option.bind_eq_bind, Option.bind_eq_some_iff,
        Option.some.injEq, Prod.mk.injEq] at hStep
      obtain ⟨rest, hWait, rfl, rfl⟩ := hStep
      exact .inr ⟨_, ⟨args, semWait_bind hWait _⟩, rfl, rfl, rfl, rfl, False.elim⟩
  | lock | closeLock =>
      simp only [EmulatedClient.step, Option.bind_eq_bind, Option.bind_eq_some_iff,
        Option.some.injEq, Prod.mk.injEq] at hStep
      obtain ⟨rest, hWait, rfl, rfl⟩ := hStep
      exact .inr ⟨_, ⟨args, semWait_bind hWait _⟩, rfl, rfl, rfl, rfl, hArgs⟩
  | check | unlock | pick | closeSide | closeStatus newStatus | closeToggle
  | closeToggleWrite side | closePost =>
      obtain ⟨rfl, rfl⟩ := Prod.mk.inj (Option.some.inj hStep)
      exact .inr ⟨_, ⟨args, rfl⟩, rfl, rfl, rfl, rfl, hArgs⟩
  | closeUnlock =>
      obtain ⟨rfl, rfl⟩ := Prod.mk.inj (Option.some.inj hStep)
      exact .inr ⟨_, ⟨args, rfl⟩, rfl, rfl, rfl, rfl, False.elim⟩
  | getValue =>
      -- the value of the semaphore is not used
      obtain ⟨rfl, rfl⟩ := Prod.mk.inj (Option.some.inj hStep)
      refine .inl ⟨rfl, ?_, rfl, rfl, rfl, fun _ => hArgs trivial⟩
      change (if currStatus ≠ 3 then PrinterLabel.pick else .full) = _
      by_cases hFull : currStatus = 3 <;> simp [printerLabel, hFull]
  | store sector =>
      obtain rfl := hArgs trivial
      by_cases hLast : cnt = p.nData - 1
      · have hCell : nextCell p ⟨.store sector, firstTime, cnt, round, tmp, currStatus, value⟩ =
            ⟨BitVec.ofNat 64 cnt, tmp + 1, 0xf0f0f0f0⟩ := by simp [nextCell, hLast]
        have hCloses := hStep.symm.trans (if_neg (not_not_intro hLast))
        obtain ⟨rfl, rfl⟩ := Prod.mk.inj (Option.some.inj hCloses)
        rw [hCell]
        exact .inr ⟨_, ⟨⟨0, 0, 0⟩, if_neg (not_not_intro hLast)⟩, rfl, rfl, rfl, rfl, False.elim⟩
      · have hCell : nextCell p ⟨.store sector, firstTime, cnt, round, tmp, currStatus, value⟩ =
            ⟨BitVec.ofNat 64 cnt, tmp, 0xf0f0f0f0⟩ := by simp [nextCell, hLast]
        have hStays := hStep.symm.trans (if_pos hLast)
        obtain ⟨rfl, rfl⟩ := Prod.mk.inj (Option.some.inj hStays)
        rw [hCell]
        exact .inr ⟨_, ⟨⟨0, 0, 0⟩, if_pos hLast⟩, rfl, rfl, rfl, rfl, False.elim⟩
  | closeSwitch =>
      obtain ⟨cell, status, nextToRead, nextToWrite, statusMutex, clientWrote, serverRead, stored⟩ := x
      obtain _ | _ | _ | status := status
      all_goals
        obtain ⟨rfl, rfl⟩ := Prod.mk.inj (Option.some.inj hStep)
        exact .inr ⟨_, ⟨args, rfl⟩, rfl, rfl, rfl, rfl, hArgs⟩
  | exited => exact absurd hStep (by simp [EmulatedClient.step])

/-- Blocked in `sem_wait(serverRead_sem)`. -/
def WaitsForServer (c : EmulatedClient) (x : Shared) : Prop :=
  (c.label = .connect ∨ c.label = .full) ∧ x.serverRead = 0

theorem Follows.waitsForServer (h : Follows p c d) (hWaits : c.WaitsForServer x) :
    d.WaitsForServer x := by
  refine ⟨?_, hWaits.2⟩
  rw [h.label, printerLabel]
  exact hWaits.1.imp (fun hLabel => by rw [hLabel]) fun hLabel => by rw [hLabel]

/-- The cell with the number `k` of the run. -/
def numberedCell (nData k : Nat) : ShmCell :=
  ⟨BitVec.ofNat 64 (k % nData), BitVec.ofNat 64 (numberOf nData k), 0xf0f0f0f0⟩

theorem nextCell_eq (h : Numbered p x c) : c.nextCell p = numberedCell p.nData x.stored.length := by
  have hNumber := h.nextCell
  rw [nextCell] at hNumber ⊢
  rw [numberedCell, ← hNumber, ← h.cnt]

end EmulatedClient

section Transfer

open EmulatedClient

variable {p : Setup} {s : Emulation}

/-- The shared memory and the server get to no other state than with the helper. -/
theorem follows_of_reachable (hReachable : Emulation.Reachable p s) :
    ∃ d, Reachable p ⟨s.shared, d, s.right⟩ ∧ Follows p s.left d :=
  hReachable.simulate_left (fun _ _ _ _ _ h hStep => h.step hStep) ⟨rfl, rfl, rfl, rfl, False.elim⟩

/-- The cells are numbered in the order of the stores. -/
theorem stored_numbered (hReachable : Emulation.Reachable p s) :
    s.shared.stored.map Prod.snd =
      (List.range s.shared.stored.length).map (numberedCell p.nData) := by
  refine hReachable.invariant
    (P := fun s => s.shared.stored.map Prod.snd =
      (List.range s.shared.stored.length).map (numberedCell p.nData)) rfl
    fun s s' hBefore h hStep => ?_
  cases hStep with
  | left b hLeft =>
      simp only at h ⊢
      obtain ⟨hStored, _, _⟩ | ⟨sector, hStored, _, _⟩ := EmulatedClient.step_cases hLeft
      · rw [hStored, h]
      · rw [hStored, List.map_append, h, List.length_append, List.length_singleton,
          List.range_succ, List.map_append, List.map_singleton, List.map_singleton,
          nextCell_eq (numbered_of_reachable hBefore)]
  | right c hRight =>
      simp only at h ⊢
      rw [Server.step_stored hRight, h]

end Transfer

/-- What holds of the helper holds of the loop of `client.c`: it never writes the
sector that the server reads, neither side finds a `status` out of range, and
the two sides do not wait for each other. -/
theorem emulation_safe (p : Setup) (s : Emulation) (hReachable : Emulation.Reachable p s) :
    (∀ sector sector' i, s.left.label = .store sector → s.right.label = .read sector' i →
        sector ≠ sector') ∧
      s.left.label ≠ .exited ∧ s.right.label ≠ .exited ∧
        ¬ (s.left.WaitsForServer s.shared ∧ s.right.WaitsForClient s.shared) := by
  obtain ⟨d, hFollowed, hFollows⟩ := follows_of_reachable hReachable
  obtain ⟨g, hx, hClient, hServer⟩ := consistent_of_reachable hFollowed
  have hLabel := hFollows.label
  refine ⟨?_, ?_, ?_, ?_⟩
  · intro sector sector' i hStore hRead
    rw [EmulatedClient.printerLabel, hStore] at hLabel
    have hRoom := hClient.room (by simp [Printer.HasRoom, hLabel])
    have hWork := hServer.work (by simp [Server.HasWork, hRead])
    have hSector : sector = g.closed % 2 := (hClient.facts hLabel).2.2.2.2
    have hSector' : sector' = g.released % 2 := (hServer.facts hRead).2.2.2.2.1
    omega
  · intro hExit
    rw [EmulatedClient.printerLabel, hExit] at hLabel
    obtain ⟨_, _, _, _, hCarries⟩ := hClient.facts hLabel
    exact hCarries
  · intro hExit
    obtain ⟨_, _, _, _, hCarries⟩ := hServer.facts hExit
    exact hCarries
  · rintro ⟨hLeft, hRight⟩
    obtain ⟨hFull, hClosed⟩ := hClient.closed_of_waits (hFollows.waitsForServer hLeft)
    have hReleased := hServer.posts_of_waits hRight
    obtain ⟨_, _, hClientPosts, _⟩ := hClient.facts hFull
    obtain ⟨_, _, hServerPosts, _⟩ := hServer.facts hRight.1
    simp only [PrinterLabel.unposted, ServerLabel.unposted, Bool.toNat_false] at *
    omega

/-- The step of one of the two programs. -/
def Emulation.turn (p : Setup) (s : Emulation) : Side → Option Emulation
  | .client => (s.left.step p s.shared).map fun (x, c) => ⟨x, c, s.right⟩
  | .server => (s.right.step p s.shared).map fun (x, b) => ⟨x, s.left, b⟩

theorem Emulation.step_of_turn {p : Setup} {s s' : Emulation} {side : Side}
    (hTurn : s.turn p side = some s') : Step (EmulatedClientStep p) (ServerStep p) s s' := by
  obtain ⟨x, c, b⟩ := s
  cases side with
  | client =>
      simp only [Emulation.turn, Option.map_eq_some_iff] at hTurn
      obtain ⟨⟨x', c'⟩, hStep, rfl⟩ := hTurn
      exact .left b hStep
  | server =>
      simp only [Emulation.turn, Option.map_eq_some_iff] at hTurn
      obtain ⟨⟨x', b'⟩, hStep, rfl⟩ := hTurn
      exact .right c hStep

/-- The loop fills a sector of one cell, which the server reads while the loop is
about to store into the other one. -/
def numbering : Emulation :=
  ((List.replicate 17 Side.client ++ List.replicate 15 Side.server ++
    List.replicate 6 Side.client).foldlM (Emulation.turn oneCell) (Emulation.init oneCell)).get
      (by decide)

theorem reachable_numbering : Emulation.Reachable oneCell numbering :=
  Reachable.init.foldlM (fun _ _ _ => Emulation.step_of_turn) (Option.some_get _).symm

theorem emulation_safe_numbering :
    numbering.left.label = .store 1 ∧ ∀ i, numbering.right.label ≠ .read 1 i :=
  ⟨by decide, fun i hRead =>
    (emulation_safe oneCell numbering reachable_numbering).1 1 1 i (by decide) hRead rfl⟩

/-- With `client.c` the server is fed the same cells in every interleaving, so
that it always counts the same. -/
theorem emulation_fed (p : Setup) (s : Emulation) (hReachable : Emulation.Reachable p s) :
    s.right.fed = (List.range s.right.fed.length).map (EmulatedClient.numberedCell p.nData) ∧
      (s.right.label = .done → s.right.session =
        Tage.mainLoop p.desiredIstr Tage.Session.init (recordsOf p
          ((List.range p.desiredIstr.toNat).map (EmulatedClient.numberedCell p.nData)))) := by
  obtain ⟨d, hFollowed, _⟩ := follows_of_reachable hReachable
  obtain ⟨g, hx, _, hServer⟩ := consistent_of_reachable hFollowed
  have hPrefix : s.right.fed <+: s.shared.stored.map Prod.snd := hServer.fed
  have hLength := hPrefix.length_le
  rw [List.length_map] at hLength
  have hFed : s.right.fed =
      (List.range s.right.fed.length).map (EmulatedClient.numberedCell p.nData) := by
    calc s.right.fed
        = (s.shared.stored.map Prod.snd).take s.right.fed.length :=
          List.prefix_iff_eq_take.mp hPrefix
      _ = ((List.range s.shared.stored.length).take s.right.fed.length).map
            (EmulatedClient.numberedCell p.nData) := by
          rw [stored_numbered hReachable, List.map_take]
      _ = (List.range s.right.fed.length).map (EmulatedClient.numberedCell p.nData) := by
          rw [List.take_range, Nat.min_eq_left hLength]
  refine ⟨hFed, fun hDone => ?_⟩
  have hEnough : s.right.fed.length = p.desiredIstr.toNat := length_fed_at_done hFollowed hDone
  rw [← hEnough, ← hFed]
  exact hServer.session

theorem emulation_fed_numbering :
    numbering.right.label = .done ∧ numbering.right.session =
      Tage.mainLoop 1 Tage.Session.init (recordsOf oneCell [⟨0, 1, 0xf0f0f0f0⟩]) :=
  ⟨by decide, (emulation_fed oneCell numbering reachable_numbering).2 (by decide)⟩

end BranchPrediction.SharedMemory
