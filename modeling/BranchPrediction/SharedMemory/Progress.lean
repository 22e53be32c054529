import BranchPrediction.SharedMemory.Blocking
import BranchPrediction.SharedMemory.Statistics

/-! Nothing that the two processes do keeps the server from finishing: from every
state that they reach, some further steps and calls lead to the end of its loop. -/
namespace BranchPrediction.SharedMemory

open Interleaving

section Ranks

/-- The steps to the end of the critical section. -/
def PrinterLabel.toUnlock : PrinterLabel → Nat
  | .closeSwitch => 7
  | .closeSide => 6
  | .closeStatus _ => 5
  | .closeToggle => 4
  | .closeToggleWrite _ => 3
  | .check | .closePost => 2
  | .unlock | .closeUnlock => 1
  | _ => 0

/-- A bound on the steps to the next write of `status` while the memory is empty. -/
def Printer.toStatus (nData : Nat) (c : Printer) : Nat :=
  match c.label with
  | .closeStatus _ => 1
  | .closeSide => 2
  | .closeSwitch => 3
  | .closeLock => 4
  | .store _ => 20 * (nData - c.cnt) + 5
  | .pick => 20 * (nData - c.cnt) + 6
  | .unlock => 20 * (nData - c.cnt) + if c.currStatus = 3 then 13 else 7
  | .check => 20 * (nData - c.cnt) + 8
  | .lock => 20 * (nData - c.cnt) + 9
  | .idle => 20 * (nData - c.cnt) + if c.firstTime then 12 else 10
  | .connect => 20 * (nData - c.cnt) + 11
  | .full => 20 * (nData - c.cnt) + 12
  | .closeUnlock => 20 * nData + 14
  | .closePost => 20 * nData + 15
  | .closeToggleWrite _ => 20 * nData + 16
  | .closeToggle => 20 * nData + 17
  | .exited => 0

/-- The steps of the server from the test of its status to the next wait. -/
def ServerLabel.toEmpty : ServerLabel → Nat
  | .check => 2
  | .unlock => 1
  | _ => 0

/-- The steps to the next cell while the memory is not empty. A status that was
read when it still was costs one more round. -/
def Server.toFeed (b : Server) : Nat :=
  match b.label with
  | .pick => 1
  | .unlock => if b.currStatus = 0 then 7 else 2
  | .check => 3
  | .lock => 4
  | .loopTest => 5
  | .empty => 6
  | _ => 0

/-- The steps from the last cell of a sector to the loop test. -/
def ServerLabel.toLoopTest : ServerLabel → Nat
  | .read _ _ => 9
  | .releaseLock => 8
  | .releaseSwitch => 7
  | .releaseSide => 6
  | .releaseStatus _ => 5
  | .releaseToggle => 4
  | .releaseToggleWrite _ => 3
  | .releasePost => 2
  | .releaseUnlock => 1
  | _ => 0

/-- The server has used the sector and has not given it back. -/
def Server.releasing (p : Setup) (b : Server) : Bool :=
  match b.label with
  | .read _ i => !decide (i < p.nData ∧ b.Continues p)
  | label => decide (0 < label.toLoopTest)

/-- The cells that the server still asks for, then the phase, then a bound on the
steps to the next one: a sector is given back, the client fills one, a cell is
used. -/
def System.rank (p : Setup) (s : System) : Nat × Nat × Nat :=
  (p.desiredIstr.toNat - s.right.fed.length,
    if s.right.releasing p then (2, s.left.label.toUnlock + s.right.label.toLoopTest)
    else if s.shared.status = 0 then (1, s.right.label.toEmpty + s.left.toStatus p.nData)
    else (0, s.left.label.toUnlock + s.right.toFeed))

end Ranks

theorem PrinterLabel.unposted_of_holds {label : PrinterLabel} (hFree : label.holds = false) :
    label.unposted = false := by
  cases label <;> simp_all [PrinterLabel.holds, PrinterLabel.unposted]

/-- Where neither process owns the mutex it can be taken. -/
theorem Coherent.semWait_mutex {p : Setup} {g : Ledger} {x : Shared} {c : Printer} {b : Server}
    (hx : Coherent p g x) (hClient : PrinterAt p g x c) (hServer : ServerAt p g x b)
    (hOurs : c.label.holds = false) (hTheirs : b.label.holds = false) :
    semWait x.statusMutex = some 0 := by
  have hMutex := hx.mutex
  cases hOwner : g.owner with
  | none =>
      rw [hOwner, if_pos rfl] at hMutex
      rw [hMutex]
      rfl
  | some side =>
      cases side with
      | client => simp [hClient.holds.mpr hOwner] at hOurs
      | server => simp [hServer.holds.mpr hOwner] at hTheirs

section Client

variable {p : Setup} {g : Ledger} {x : Shared} {c : Printer} {s : Server}

theorem Printer.step_toUnlock (hHolds : c.label.holds = true) (args : ShmCell) (x : Shared) :
    ∃ x' c', c.step p args x = some (x', c') ∧ c'.label.toUnlock < c.label.toUnlock := by
  cases hLabel : c.label with
  | idle | connect | lock | pick | store sector | closeLock | full | exited =>
      rw [hLabel] at hHolds
      cases hHolds
  | check | closeSide | closeStatus newStatus | closeToggle | closeToggleWrite side | closePost
  | closeUnlock =>
      refine ⟨_, _, by rw [Printer.step, hLabel], ?_⟩
      simp [PrinterLabel.toUnlock, Printer.finish]
  | unlock =>
      refine ⟨_, _, by rw [Printer.step, hLabel], ?_⟩
      by_cases hFull : c.currStatus = 3 <;> simp [hFull, PrinterLabel.toUnlock]
  | closeSwitch =>
      simp only [Printer.step, hLabel]
      split <;> exact ⟨_, _, rfl, by simp [PrinterLabel.toUnlock]⟩

/-- While the memory is empty nothing but the mutex can stop the client, and its
steps lead to a write of `status`. -/
theorem PrinterAt.step_toStatus (hx : Coherent p g x) (hClient : PrinterAt p g x c)
    (hServer : ServerAt p g x s) (hFree : s.label.holds = false) (hEmpty : x.status = 0)
    (args : ShmCell) :
    ∃ x' c', c.step p args x = some (x', c') ∧
      (x'.status = 0 → c'.toStatus p.nData < c.toStatus p.nData) := by
  have hCnt := hClient.cnt_lt
  have hCarries := hClient.carries
  have hNotFirst := hClient.firstTime_eq_false
  have hSame : g.closed = g.released := by
    have hStatus := hx.status
    obtain ⟨hSame, _⟩ | ⟨_, hEither⟩ | ⟨_, hThree⟩ := statusOf_cases hx.released_le hx.closed_le
    · exact hSame
    · omega
    · omega
  cases hLabel : c.label with
  | idle =>
      refine ⟨_, _, by rw [Printer.step, hLabel], fun _ => ?_⟩
      cases hFirst : c.firstTime <;> simp [Printer.toStatus, hLabel, hFirst]
  | connect =>
      rw [hLabel] at hCarries
      obtain ⟨value, hValue⟩ := Nat.exists_eq_add_of_lt hCarries
      have hWait : semWait x.serverRead = some value := by
        rw [semWait_eq_some]
        omega
      refine ⟨_, _, by rw [Printer.step, hLabel, hWait]; rfl, fun _ => ?_⟩
      simp [Printer.toStatus, Printer.finish, hLabel, hNotFirst (by simp [hLabel])]
  | lock =>
      have hTaken := hx.semWait_mutex hClient hServer (by rw [hLabel]; rfl) hFree
      refine ⟨_, _, by rw [Printer.step, hLabel, hTaken]; rfl, fun _ => ?_⟩
      simp [Printer.toStatus, hLabel]
  | check =>
      refine ⟨_, _, by rw [Printer.step, hLabel], fun _ => ?_⟩
      simp [Printer.toStatus, hLabel, hEmpty]
  | unlock =>
      refine ⟨_, _, by rw [Printer.step, hLabel], fun _ => ?_⟩
      by_cases hFull : c.currStatus = 3 <;> simp [Printer.toStatus, hLabel, hFull]
  | pick =>
      refine ⟨_, _, by rw [Printer.step, hLabel], fun _ => ?_⟩
      simp [Printer.toStatus, hLabel]
  | store sector =>
      simp only [Printer.step, hLabel]
      by_cases hLast : c.cnt = p.nData - 1
      · refine ⟨_, _, if_neg (not_not_intro hLast), fun _ => ?_⟩
        simp only [Printer.toStatus, hLabel]
        omega
      · refine ⟨_, _, if_pos hLast, fun _ => ?_⟩
        simp only [Printer.toStatus, Printer.finish, hLabel, hNotFirst (by simp [hLabel]),
          Bool.false_eq_true, if_false]
        omega
  | closeLock =>
      have hTaken := hx.semWait_mutex hClient hServer (by rw [hLabel]; rfl) hFree
      refine ⟨_, _, by rw [Printer.step, hLabel, hTaken]; rfl, fun _ => ?_⟩
      simp [Printer.toStatus, hLabel]
  | closeSwitch =>
      refine ⟨_, _, by rw [Printer.step, hLabel]; simp only [hEmpty]; rfl, fun _ => ?_⟩
      simp [Printer.toStatus, hLabel]
  | closeSide =>
      refine ⟨_, _, by rw [Printer.step, hLabel], fun _ => ?_⟩
      simp [Printer.toStatus, hLabel]
  | closeStatus newStatus =>
      refine ⟨_, _, by rw [Printer.step, hLabel], fun hStill => ?_⟩
      rw [hLabel] at hCarries
      obtain rfl : newStatus = statusOf (g.closed + 1) g.released := hCarries
      rw [hSame, statusOf_one] at hStill
      split_ifs at hStill
  | closeToggle | closeToggleWrite side | closePost =>
      refine ⟨_, _, by rw [Printer.step, hLabel], fun _ => ?_⟩
      simp [Printer.toStatus, hLabel]
  | closeUnlock =>
      refine ⟨_, _, by rw [Printer.step, hLabel], fun _ => ?_⟩
      simp only [Printer.toStatus, Printer.finish, hLabel, hNotFirst (by simp [hLabel]),
        Bool.false_eq_true, if_false]
      omega
  | full =>
      -- the server has posted for all that it released, up to the current sector
      have hPosts := hServer.posts
      have hToken : x.serverRead ≠ 0 := fun hZero => by
        have hFull := hClient.full (by simp [Printer.SawFull, hLabel]) hZero
        have hBit := Bool.toNat_le s.label.unposted
        omega
      obtain ⟨value, hValue⟩ := Nat.exists_eq_succ_of_ne_zero hToken
      refine ⟨_, _, by rw [Printer.step, hLabel, semWait_eq_some.mpr hValue]; rfl, fun _ => ?_⟩
      simp [Printer.toStatus, Printer.finish, hLabel, hNotFirst (by simp [hLabel])]
  | exited =>
      rw [hLabel] at hCarries
      exact hCarries.elim

end Client

section Server

/-- The server has found that it has not had enough, and has taken nothing since. -/
def ServerLabel.fetching : ServerLabel → Bool
  | .lock | .check | .unlock | .empty | .pick => true
  | _ => false

variable {p : Setup} {g : Ledger} {x x' : Shared} {c : Printer} {b b' : Server}

theorem Server.step_fetching (hMore : b.label.fetching = true → b.Continues p)
    (hStep : b.step p x = some (x', b')) : b'.label.fetching = true → b'.Continues p := by
  cases hLabel : b.label with
  | loopTest =>
      simp only [Server.step, hLabel, Option.some.injEq, Prod.mk.injEq] at hStep
      obtain ⟨rfl, rfl⟩ := hStep
      by_cases hBelow : b.Continues p
      · exact fun _ => hBelow
      · simp [hBelow, ServerLabel.fetching]
  | check | unlock | pick =>
      simp only [Server.step, hLabel, Option.some.injEq, Prod.mk.injEq] at hStep
      obtain ⟨rfl, rfl⟩ := hStep
      exact fun _ => hMore (by rw [hLabel]; rfl)
  | lock | empty =>
      simp only [Server.step, hLabel, Option.bind_eq_bind, Option.bind_eq_some_iff,
        Option.some.injEq, Prod.mk.injEq] at hStep
      obtain ⟨value, _, rfl, rfl⟩ := hStep
      exact fun _ => hMore (by rw [hLabel]; rfl)
  | read sector i =>
      simp only [Server.step, hLabel] at hStep
      split at hStep <;>
        · simp only [Option.some.injEq, Prod.mk.injEq] at hStep
          obtain ⟨rfl, rfl⟩ := hStep
          simp [ServerLabel.fetching]
  | releaseLock =>
      simp only [Server.step, hLabel, Option.bind_eq_bind, Option.bind_eq_some_iff,
        Option.some.injEq, Prod.mk.injEq] at hStep
      obtain ⟨value, _, rfl, rfl⟩ := hStep
      simp [ServerLabel.fetching]
  | releaseSwitch =>
      simp only [Server.step, hLabel] at hStep
      split at hStep <;>
        · simp only [Option.some.injEq, Prod.mk.injEq] at hStep
          obtain ⟨rfl, rfl⟩ := hStep
          simp [ServerLabel.fetching]
  | releaseSide | releaseStatus newStatus | releaseToggle | releaseToggleWrite side | releasePost
  | releaseUnlock =>
      simp only [Server.step, hLabel, Option.some.injEq, Prod.mk.injEq] at hStep
      obtain ⟨rfl, rfl⟩ := hStep
      simp [ServerLabel.fetching]
  | done | exited => simp [Server.step, hLabel] at hStep

theorem continues_of_fetching {s : System} (hReachable : Reachable p s) :
    s.right.label.fetching = true → s.right.Continues p := by
  refine hReachable.invariant
    (P := fun s => s.right.label.fetching = true → s.right.Continues p) (fun h => by cases h)
    fun s s' _ h hStep => ?_
  cases hStep with
  | left b hLeft => exact h
  | right c hRight => exact Server.step_fetching h hRight

/-- The server gives the sector back. -/
theorem ServerAt.step_toLoopTest (hx : Coherent p g x) (hClient : PrinterAt p g x c)
    (hServer : ServerAt p g x b) (hFree : c.label.holds = false)
    (hReleasing : b.releasing p = true) :
    ∃ x' b', b.step p x = some (x', b') ∧ b'.fed = b.fed ∧
      b'.label.toLoopTest < b.label.toLoopTest := by
  cases hLabel : b.label with
  | loopTest | lock | check | unlock | empty | pick | done | exited =>
      simp [Server.releasing, hLabel, ServerLabel.toLoopTest] at hReleasing
  | read sector i =>
      have hEnd : ¬ (i < p.nData ∧ b.Continues p) := by
        simpa only [Server.releasing, hLabel, Bool.not_eq_true', decide_eq_false_iff_not]
          using hReleasing
      simp only [Server.step, hLabel]
      exact ⟨_, _, if_neg hEnd, rfl, by simp [ServerLabel.toLoopTest]⟩
  | releaseLock =>
      have hTaken := hx.semWait_mutex hClient hServer hFree (by rw [hLabel]; rfl)
      refine ⟨_, _, by rw [Server.step, hLabel, hTaken]; rfl, ?_⟩
      simp [ServerLabel.toLoopTest]
  | releaseSwitch =>
      simp only [Server.step, hLabel]
      split <;> exact ⟨_, _, rfl, rfl, by simp [ServerLabel.toLoopTest]⟩
  | releaseSide | releaseStatus newStatus | releaseToggle | releaseToggleWrite side | releasePost
  | releaseUnlock =>
      refine ⟨_, _, by rw [Server.step, hLabel], ?_⟩
      simp [ServerLabel.toLoopTest]

/-- The server that looked at an empty memory leaves the critical section. -/
theorem ServerAt.step_toEmpty (hx : Coherent p g x) (hServer : ServerAt p g x b)
    (hHolds : b.label.holds = true) (hReleasing : b.releasing p = false) (hEmpty : x.status = 0) :
    ∃ x' b', b.step p x = some (x', b') ∧ x'.status = x.status ∧ b'.fed = b.fed ∧
      b'.releasing p = false ∧ b'.label.toEmpty < b.label.toEmpty := by
  have hWork := hServer.work
  cases hLabel : b.label with
  | loopTest | lock | empty | pick | read sector i | releaseLock | done | exited =>
      rw [hLabel] at hHolds
      cases hHolds
  | releaseSwitch | releaseSide | releaseStatus newStatus | releaseToggle | releaseToggleWrite side
  | releasePost | releaseUnlock =>
      simp [Server.releasing, hLabel, ServerLabel.toLoopTest] at hReleasing
  | check =>
      refine ⟨_, _, by rw [Server.step, hLabel], ?_⟩
      simp [Server.releasing, ServerLabel.toLoopTest, ServerLabel.toEmpty]
  | unlock =>
      have hSeen : b.currStatus = 0 := by
        by_contra hNot
        have hFull := hWork (by simpa [Server.HasWork, hLabel] using hNot)
        have hStatus := hx.status
        obtain ⟨_, _⟩ | ⟨_, hEither⟩ | ⟨_, hThree⟩ := statusOf_cases hx.released_le hx.closed_le <;>
          omega
      refine ⟨_, _, by rw [Server.step, hLabel], ?_⟩
      simp [Server.releasing, hSeen, ServerLabel.toLoopTest, ServerLabel.toEmpty]

/-- A server that finds work uses a cell. -/
theorem ServerAt.step_toFeed (hx : Coherent p g x) (hClient : PrinterAt p g x c)
    (hServer : ServerAt p g x b) (hFree : c.label.holds = false)
    (hReleasing : b.releasing p = false) (hWork : x.status ≠ 0) (hDone : b.label ≠ .done)
    (hMore : b.label.fetching = true → b.Continues p) :
    ∃ x' b', b.step p x = some (x', b') ∧
      (b.fed.length < p.desiredIstr.toNat ∧ b'.fed.length = b.fed.length + 1 ∨
        x'.status = x.status ∧ b'.fed = b.fed ∧ b'.releasing p = false ∧ b'.toFeed < b.toFeed) := by
  have hCarries := hServer.carries
  cases hLabel : b.label with
  | releaseLock | releaseSwitch | releaseSide | releaseStatus newStatus | releaseToggle
  | releaseToggleWrite side | releasePost | releaseUnlock =>
      simp [Server.releasing, hLabel, ServerLabel.toLoopTest] at hReleasing
  | loopTest =>
      refine ⟨_, _, by rw [Server.step, hLabel], .inr ?_⟩
      refine ⟨rfl, rfl, ?_⟩
      by_cases hBelow : b.Continues p <;>
        simp [hBelow, Server.releasing, ServerLabel.toLoopTest, Server.toFeed, hLabel]
  | lock =>
      have hTaken := hx.semWait_mutex hClient hServer hFree (by rw [hLabel]; rfl)
      refine ⟨_, _, by rw [Server.step, hLabel, hTaken]; rfl, .inr ?_⟩
      simp [Server.releasing, ServerLabel.toLoopTest, Server.toFeed, hLabel]
  | check =>
      refine ⟨_, _, by rw [Server.step, hLabel], .inr ?_⟩
      simp [Server.releasing, ServerLabel.toLoopTest, Server.toFeed, hLabel, hWork]
  | unlock =>
      refine ⟨_, _, by rw [Server.step, hLabel], .inr ?_⟩
      refine ⟨rfl, rfl, ?_⟩
      by_cases hSeen : b.currStatus = 0 <;>
        simp [hSeen, Server.releasing, ServerLabel.toLoopTest, Server.toFeed, hLabel]
  | empty =>
      -- a post is pending: the client has closed a sector and left its section
      have hPosts := hClient.posts
      have hToken : x.clientWrote ≠ 0 := fun hZero => by
        have hEmpty := hServer.empty (by simp [Server.SawEmpty, hLabel]) hZero
        rw [PrinterLabel.unposted_of_holds hFree, Bool.toNat_false, Nat.add_zero, hEmpty] at hPosts
        rw [hx.status, hPosts, statusOf_self] at hWork
        exact hWork rfl
      obtain ⟨value, hValue⟩ := Nat.exists_eq_succ_of_ne_zero hToken
      refine ⟨_, _, by rw [Server.step, hLabel, semWait_eq_some.mpr hValue]; rfl, .inr ?_⟩
      simp [Server.releasing, ServerLabel.toLoopTest, Server.toFeed, hLabel]
  | pick =>
      have hBelow := hMore (by rw [hLabel]; rfl)
      refine ⟨_, _, by rw [Server.step, hLabel], .inr ?_⟩
      refine ⟨rfl, rfl, ?_, ?_⟩
      · simp only [Server.releasing, Bool.not_eq_false', decide_eq_true_iff]
        exact ⟨p.nData_pos, hBelow⟩
      · simp [Server.toFeed, hLabel]
  | read sector i =>
      have hNext : i < p.nData ∧ b.Continues p := by
        simpa only [Server.releasing, hLabel, Bool.not_eq_false', decide_eq_true_iff]
          using hReleasing
      simp only [Server.step, hLabel]
      refine ⟨_, _, if_pos hNext, .inl ⟨?_, ?_⟩⟩
      · have hCount := hServer.iCount
        have hBelow := hNext.2
        rw [Server.Continues] at hBelow
        omega
      · simp [Server.feed]
  | done => exact absurd hLabel hDone
  | exited =>
      rw [hLabel] at hCarries
      exact hCarries.elim

end Server

variable {p : Setup} {s : System}

/-- A close never leaves the memory empty. -/
theorem status_ne_zero_of_client {g g' : Ledger} {x x' : Shared} (hx : Coherent p g x)
    (hx' : Coherent p g' x') (hMoves : ClientMoves g x g' x') (hWork : x.status ≠ 0) :
    x'.status ≠ 0 := by
  intro hEmpty
  have hStatus := hx'.status
  have hReleased := hMoves.released
  have hClosed := hMoves.closed
  have hBelow := hx.released_le
  have hSame : g'.closed = g'.released := by
    obtain ⟨hSame, _⟩ | ⟨_, hEither⟩ | ⟨_, hThree⟩ := statusOf_cases hx'.released_le hx'.closed_le
    · exact hSame
    · omega
    · omega
  have hBefore : g.closed = g.released := by omega
  rw [hx.status, hBefore, statusOf_self] at hWork
  exact hWork rfl

/-- Before the end of the loop some step brings the end closer. A sector that was
read is given back first; then the client fills one; then the server uses it. The
client leaves its critical section before the server needs the mutex. -/
theorem exists_step_rank (hReachable : Reachable p s) (hDone : s.right.label ≠ .done) :
    ∃ s', Step (ClientStep p) (ServerStep p) s s' ∧
      WellFoundedRelation.rel (System.rank p s') (System.rank p s) := by
  obtain ⟨x, c, b⟩ := s
  obtain ⟨g, hx, hClient, hServer⟩ := consistent_of_reachable hReachable
  have hMore := continues_of_fetching hReachable
  simp only at hx hClient hServer hMore hDone
  cases hReleasing : b.releasing p with
  | true =>
      cases hHolds : c.label.holds with
      | true =>
          obtain ⟨x', c', hStep, hLess⟩ := Printer.step_toUnlock (p := p) hHolds ⟨0, 0, 0⟩ x
          refine ⟨⟨x', c', b⟩, .left b ⟨_, hStep⟩, ?_⟩
          simp only [System.rank, hReleasing, if_true]
          exact Prod.Lex.right _ (Prod.Lex.right _ (Nat.add_lt_add_right hLess _))
      | false =>
          obtain ⟨x', b', hStep, hFed, hLess⟩ := hServer.step_toLoopTest hx hClient hHolds hReleasing
          refine ⟨⟨x', c, b'⟩, .right c hStep, ?_⟩
          simp only [System.rank, hReleasing, if_true, hFed]
          refine Prod.Lex.right _ ?_
          split_ifs
          · exact Prod.Lex.right _ (Nat.add_lt_add_left hLess _)
          · exact Prod.Lex.left _ _ (Nat.lt_succ_self 1)
          · exact Prod.Lex.left _ _ (Nat.zero_lt_succ 1)
  | false =>
      by_cases hEmpty : x.status = 0
      · cases hHolds : b.label.holds with
        | true =>
            obtain ⟨x', b', hStep, hStatus, hFed, hNext, hLess⟩ :=
              hServer.step_toEmpty hx hHolds hReleasing hEmpty
            refine ⟨⟨x', c, b'⟩, .right c hStep, ?_⟩
            simp only [System.rank, hReleasing, hNext, hStatus, hEmpty, hFed, if_true,
              Bool.false_eq_true, if_false]
            exact Prod.Lex.right _ (Prod.Lex.right _ (Nat.add_lt_add_right hLess _))
        | false =>
            obtain ⟨x', c', hStep, hLess⟩ :=
              hClient.step_toStatus hx hServer hHolds hEmpty ⟨0, 0, 0⟩
            refine ⟨⟨x', c', b⟩, .left b ⟨_, hStep⟩, ?_⟩
            simp only [System.rank, hReleasing, hEmpty, if_true, Bool.false_eq_true, if_false]
            refine Prod.Lex.right _ ?_
            split_ifs with hStill
            · exact Prod.Lex.right _ (Nat.add_lt_add_left (hLess hStill) _)
            · exact Prod.Lex.left _ _ Nat.zero_lt_one
      · cases hHolds : c.label.holds with
        | true =>
            obtain ⟨x', c', hStep, hLess⟩ := Printer.step_toUnlock (p := p) hHolds ⟨0, 0, 0⟩ x
            obtain ⟨g', hx', _, hMoves⟩ := hClient.step hx hStep
            have hStill := status_ne_zero_of_client hx hx' hMoves hEmpty
            refine ⟨⟨x', c', b⟩, .left b ⟨_, hStep⟩, ?_⟩
            simp only [System.rank, hReleasing, hEmpty, hStill, Bool.false_eq_true, if_false]
            exact Prod.Lex.right _ (Prod.Lex.right _ (Nat.add_lt_add_right hLess _))
        | false =>
            obtain ⟨x', b', hStep, hNext⟩ :=
              hServer.step_toFeed hx hClient hHolds hReleasing hEmpty hDone hMore
            refine ⟨⟨x', c, b'⟩, .right c hStep, ?_⟩
            obtain ⟨hBelow, hOne⟩ | ⟨hStatus, hFed, hQuiet, hLess⟩ := hNext
            · have hFewer : p.desiredIstr.toNat - b'.fed.length <
                  p.desiredIstr.toNat - b.fed.length := by
                omega
              exact Prod.Lex.left _ _ hFewer
            · simp only [System.rank, hReleasing, hQuiet, hStatus, hEmpty, hFed,
                Bool.false_eq_true, if_false]
              exact Prod.Lex.right _ (Prod.Lex.right _ (Nat.add_lt_add_left hLess _))

/-- Whatever the two processes have done, the server can still leave its loop: no
interleaving ends in a deadlock, and none loses a token that is needed later. -/
theorem can_finish (p : Setup) (s : System) (hReachable : Reachable p s) :
    ∃ s', Interleaving.Reachable (ClientStep p) (ServerStep p) s s' ∧ s'.right.label = .done := by
  obtain ⟨s', hRest, _, hDone⟩ := exists_reachable (Reachable p)
    (fun s => s.right.label = .done) (System.rank p)
    (fun s hBefore hNot => by
      obtain ⟨s', hStep, hLess⟩ := exists_step_rank hBefore hNot
      exact ⟨s', hStep, hBefore.step hStep, hLess⟩) hReachable
  exact ⟨s', hRest, hDone⟩

/-- The client has filled both sectors and waits. -/
theorem can_finish_waiting :
    ∃ s', Interleaving.Reachable (ClientStep oneCell) (ServerStep oneCell) waiting s' ∧
      s'.right.label = .done :=
  can_finish oneCell waiting (Reachable.play .init (Option.some_get _).symm)

end BranchPrediction.SharedMemory
