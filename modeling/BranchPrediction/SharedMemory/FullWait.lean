import BranchPrediction.SharedMemory.FullMemory

/-! The wait on a full memory. A token of `serverRead_sem` says that the server has
released a sector at some time; it says that there is room now only if there was
no token when the call read the status. -/
namespace BranchPrediction.SharedMemory

open Interleaving

/-- The steps in which the server posts `serverRead_sem`. -/
def serverPosts (s s' : System) : Nat :=
  if s.right.label = .releasePost ∧ s'.right.label = .releaseUnlock then 1 else 0

/-- A call that is about to read `status` in the first state is in the last one
about to complete its `sem_wait(serverRead_sem)`; on the way the server has
posted so many sectors. -/
structure CompletesWait (p : Setup) (read : System) (posts : Nat) (wait : System) : Prop where
  run : RunsFor (ClientStep p) (ServerStep p) serverPosts read wait posts
  sameCall : wait.left.returned = read.left.returned
  label : wait.left.label = .full
  token : 0 < wait.shared.serverRead

section Steps

variable {p : Setup} {x x' : Shared}

theorem serverPosts_client (x x' : Shared) (c c' : Printer) (b : Server) :
    serverPosts ⟨x, c, b⟩ ⟨x', c', b⟩ = 0 := by
  refine if_neg fun ⟨hBefore, hAfter⟩ => ?_
  rw [hBefore] at hAfter
  cases hAfter

theorem runsFor_client {read : System} {posts : Nat} {c c' : Printer} {b : Server} {args : ShmCell}
    (run : RunsFor (ClientStep p) (ServerStep p) serverPosts read ⟨x, c, b⟩ posts)
    (hStep : c.step p args x = some (x', c')) :
    RunsFor (ClientStep p) (ServerStep p) serverPosts read ⟨x', c', b⟩ posts := by
  have hRun := run.succ (.left b ⟨args, hStep⟩)
  rwa [serverPosts_client, Nat.add_zero] at hRun

/-- What a step of the server does to the tokens and to `status`. -/
theorem Server.step_tokens {b b' : Server} (c : Printer) (hStep : b.step p x = some (x', b')) :
    x'.serverRead = x.serverRead + serverPosts ⟨x, c, b⟩ ⟨x', c, b'⟩ ∧
      ((∃ new, b.label = .releaseStatus new ∧ x'.status = new) ∨
        x'.status = x.status ∧ (b'.label.unposted = true → b.label.unposted = true)) := by
  cases hLabel : b.label with
  | loopTest =>
      simp only [Server.step, hLabel, Option.some.injEq, Prod.mk.injEq] at hStep
      obtain ⟨rfl, rfl⟩ := hStep
      refine ⟨by simp [serverPosts, hLabel], .inr ⟨rfl, ?_⟩⟩
      split_ifs <;> exact id
  | lock | releaseLock | empty =>
      simp only [Server.step, hLabel, Option.bind_eq_bind, Option.bind_eq_some_iff,
        Option.some.injEq, Prod.mk.injEq] at hStep
      obtain ⟨value, _, rfl, rfl⟩ := hStep
      exact ⟨by simp [serverPosts, hLabel], .inr ⟨rfl, id⟩⟩
  | check | pick | releaseSide | releaseToggle | releaseToggleWrite side | releaseUnlock =>
      simp only [Server.step, hLabel, Option.some.injEq, Prod.mk.injEq] at hStep
      obtain ⟨rfl, rfl⟩ := hStep
      exact ⟨by simp [serverPosts, hLabel], .inr ⟨rfl, id⟩⟩
  | releasePost =>
      simp only [Server.step, hLabel, Option.some.injEq, Prod.mk.injEq] at hStep
      obtain ⟨rfl, rfl⟩ := hStep
      exact ⟨by simp [serverPosts, hLabel], .inr ⟨rfl, fun _ => rfl⟩⟩
  | unlock =>
      simp only [Server.step, hLabel, Option.some.injEq, Prod.mk.injEq] at hStep
      obtain ⟨rfl, rfl⟩ := hStep
      refine ⟨by simp [serverPosts, hLabel], .inr ⟨rfl, ?_⟩⟩
      split_ifs <;> exact id
  | read sector i =>
      simp only [Server.step, hLabel] at hStep
      split_ifs at hStep <;>
        · simp only [Option.some.injEq, Prod.mk.injEq] at hStep
          obtain ⟨rfl, rfl⟩ := hStep
          exact ⟨by simp [serverPosts, hLabel], .inr ⟨rfl, id⟩⟩
  | releaseSwitch =>
      simp only [Server.step, hLabel] at hStep
      split at hStep <;>
        · simp only [Option.some.injEq, Prod.mk.injEq] at hStep
          obtain ⟨rfl, rfl⟩ := hStep
          exact ⟨by simp [serverPosts, hLabel], .inr ⟨rfl, id⟩⟩
  | releaseStatus new =>
      simp only [Server.step, hLabel, Option.some.injEq, Prod.mk.injEq] at hStep
      obtain ⟨rfl, rfl⟩ := hStep
      exact ⟨by simp [serverPosts, hLabel], .inl ⟨new, rfl, rfl⟩⟩
  | done | exited => simp [Server.step, hLabel] at hStep

/-- A call that has returned stays in the history. -/
theorem Printer.step_returned {c c' : Printer} {args : ShmCell}
    (hStep : c.step p args x = some (x', c')) : c.returned <+: c'.returned := by
  cases hLabel : c.label with
  | idle | check | unlock | pick | closeSide | closeStatus newStatus | closeToggle
  | closeToggleWrite side | closePost =>
      simp only [Printer.step, hLabel, Option.some.injEq, Prod.mk.injEq] at hStep
      obtain ⟨rfl, rfl⟩ := hStep
      exact List.prefix_rfl
  | lock | closeLock =>
      simp only [Printer.step, hLabel, Option.bind_eq_bind, Option.bind_eq_some_iff,
        Option.some.injEq, Prod.mk.injEq] at hStep
      obtain ⟨value, _, rfl, rfl⟩ := hStep
      exact List.prefix_rfl
  | closeSwitch =>
      simp only [Printer.step, hLabel] at hStep
      split at hStep <;>
        · simp only [Option.some.injEq, Prod.mk.injEq] at hStep
          obtain ⟨rfl, rfl⟩ := hStep
          exact List.prefix_rfl
  | store sector =>
      simp only [Printer.step, hLabel] at hStep
      by_cases hLast : c.cnt = p.nData - 1
      · rw [if_neg (not_not_intro hLast), Option.some.injEq, Prod.mk.injEq] at hStep
        obtain ⟨rfl, rfl⟩ := hStep
        exact List.prefix_rfl
      · rw [if_pos hLast, Option.some.injEq, Prod.mk.injEq] at hStep
        obtain ⟨rfl, rfl⟩ := hStep
        exact List.prefix_append _ _
  | closeUnlock =>
      simp only [Printer.step, hLabel, Option.some.injEq, Prod.mk.injEq] at hStep
      obtain ⟨rfl, rfl⟩ := hStep
      exact List.prefix_append _ _
  | connect | full =>
      simp only [Printer.step, hLabel, Option.bind_eq_bind, Option.bind_eq_some_iff,
        Option.some.injEq, Prod.mk.injEq] at hStep
      obtain ⟨value, _, rfl, rfl⟩ := hStep
      exact List.prefix_append _ _
  | exited => simp [Printer.step, hLabel] at hStep

/-- A release leaves room. -/
theorem ServerAt.newStatus_ne_three {g : Ledger} {b : Server} (h : ServerAt p g x b)
    (hx : Coherent p g x) {new : Nat} (hLabel : b.label = .releaseStatus new) : new ≠ 3 := by
  have hCarries := h.carries
  rw [hLabel] at hCarries
  have hNew : new = statusOf g.closed (g.released + 1) := hCarries
  have hWork := h.work (by simp [Server.HasWork, hLabel])
  have hHigh := hx.closed_le
  have hCases := statusOf_cases hWork (by omega : g.closed ≤ g.released + 1 + 2)
  omega

/-- A call that read status 3 has not yet returned, and the server has posted so
many sectors since. The call found no token. -/
structure FullCall (posts : Nat) (s : System) : Prop where
  label : (s.left.label = .check ∧ s.shared.status = 3) ∨
    (s.left.label = .unlock ∧ s.left.currStatus = 3) ∨ s.left.label = .full
  token : 0 < s.shared.serverRead → 0 < posts
  full : s.shared.status = 3 → posts = 0 ∧ s.right.label.unposted = false

theorem FullCall.client_step {posts : Nat} {c c' : Printer} {b : Server} {args : ShmCell}
    (h : FullCall posts ⟨x, c, b⟩) (hStep : c.step p args x = some (x', c')) :
    c.returned.length < c'.returned.length ∨
      c'.returned = c.returned ∧ FullCall posts ⟨x', c', b⟩ := by
  obtain ⟨hLabel | hLabel | hLabel, hToken, hFull⟩ := h
  · obtain ⟨hLabel, hStatus⟩ := hLabel
    simp only at hLabel hStatus
    simp only [Printer.step, hLabel, Option.some.injEq, Prod.mk.injEq] at hStep
    obtain ⟨rfl, rfl⟩ := hStep
    exact .inr ⟨rfl, .inr (.inl ⟨rfl, hStatus⟩), hToken, hFull⟩
  · obtain ⟨hLabel, hStatus⟩ := hLabel
    simp only at hLabel hStatus
    simp only [Printer.step, hLabel, Option.some.injEq, Prod.mk.injEq] at hStep
    obtain ⟨rfl, rfl⟩ := hStep
    exact .inr ⟨rfl, .inr (.inr (if_neg (not_not_intro hStatus))), hToken, hFull⟩
  · simp only at hLabel
    simp only [Printer.step, hLabel, Option.bind_eq_bind, Option.bind_eq_some_iff,
      Option.some.injEq, Prod.mk.injEq] at hStep
    obtain ⟨value, _, rfl, rfl⟩ := hStep
    exact .inl (by simp [Printer.finish])

/-- The server makes room when it writes `status`, before it posts. -/
theorem FullCall.server_step {posts : Nat} {c : Printer} {b b' : Server}
    (hReachable : Reachable p ⟨x, c, b⟩) (h : FullCall posts ⟨x, c, b⟩)
    (hStep : b.step p x = some (x', b')) :
    FullCall (posts + serverPosts ⟨x, c, b⟩ ⟨x', c, b'⟩) ⟨x', c, b'⟩ := by
  obtain ⟨g, hx, hClient, hServer⟩ := consistent_of_reachable hReachable
  obtain ⟨hLabel, hToken, hFull⟩ := h
  simp only at hx hClient hServer hLabel hToken hFull
  obtain ⟨hTokens, hMoves⟩ := Server.step_tokens c hStep
  refine ⟨?_, ?_, ?_⟩
  · -- while the call reads the status, the client owns the mutex
    refine hLabel.imp_left fun ⟨hCheck, hStatus⟩ => ⟨hCheck, ?_⟩
    obtain ⟨new, hWrites, _⟩ | ⟨hSame, _⟩ := hMoves
    · have hOwner := hServer.holds.mp (by rw [hWrites]; rfl)
      have hOwner' := hClient.holds.mp (by rw [hCheck]; rfl)
      rw [hOwner] at hOwner'
      simp at hOwner'
    · exact hSame.trans hStatus
  · simp only [hTokens]
    omega
  · intro hStatus
    simp only at hStatus ⊢
    obtain ⟨new, hWrites, hNew⟩ | ⟨hSame, hUnposted⟩ := hMoves
    · exact absurd (hNew.symm.trans hStatus) (hServer.newStatus_ne_three hx hWrites)
    · obtain ⟨hNone, hPosted⟩ := hFull (hSame ▸ hStatus)
      have hPosted' : b'.label.unposted = false :=
        Bool.eq_false_iff.mpr fun hNow => by simp [hUnposted hNow] at hPosted
      refine ⟨?_, hPosted'⟩
      have hNoPost : serverPosts ⟨x, c, b⟩ ⟨x', c, b'⟩ = 0 :=
        if_neg fun hPost => by
          rw [hPost.1] at hPosted
          cases hPosted
      omega

end Steps

section Calls

variable {p : Setup} {read wait : System} {posts : Nat}

/-- While the call runs, every token that it finds was posted since it read the
status. -/
theorem fullCall_of_run (hReachable : Reachable p read) (hCheck : read.left.label = .check)
    (hStatus : read.shared.status = 3) (hNone : read.shared.serverRead = 0)
    (run : RunsFor (ClientStep p) (ServerStep p) serverPosts read wait posts) :
    read.left.returned.length < wait.left.returned.length ∨
      wait.left.returned = read.left.returned ∧ FullCall posts wait := by
  have hStart : FullCall 0 read := by
    obtain ⟨g, hx, hClient, hServer⟩ := consistent_of_reachable hReachable
    have hOwner := hClient.holds.mp (by rw [hCheck]; rfl)
    have hPosted := hx.serverPosted (by simp [hOwner])
    have hPosts := hServer.posts
    have hUnposted : read.right.label.unposted = false := Bool.toNat_eq_zero.mp (by omega)
    exact ⟨.inl ⟨hCheck, hStatus⟩, fun hSome => absurd hNone (Nat.ne_of_gt hSome),
      fun _ => ⟨rfl, hUnposted⟩⟩
  refine run.invariant
    (P := fun s posts => read.left.returned.length < s.left.returned.length ∨
      s.left.returned = read.left.returned ∧ FullCall posts s)
    hReachable (.inr ⟨rfl, hStart⟩) fun s s' posts hBefore h hStep => ?_
  cases hStep with
  | left b hLeft =>
      obtain ⟨args, hLeft⟩ := hLeft
      obtain hReturned | ⟨hSame, hCall⟩ := h
      · exact .inl (Nat.lt_of_lt_of_le hReturned (Printer.step_returned hLeft).length_le)
      · simp only at hSame
        rw [serverPosts_client, Nat.add_zero, ← hSame]
        exact hCall.client_step hLeft
  | right c hRight =>
      exact h.imp_right fun ⟨hSame, hCall⟩ => ⟨hSame, hCall.server_step hBefore hRight⟩

/-- A call that finds a token does not wait for the server. -/
theorem completesWait_at_once {x : Shared} {c : Printer} {b : Server} (hCheck : c.label = .check)
    (hStatus : x.status = 3) (hSome : 0 < x.serverRead) :
    ∃ wait, CompletesWait p ⟨x, c, b⟩ 0 wait ∧ wait.shared.status = 3 := by
  have hRead : c.step p c.args x =
      some (x, { c with label := .unlock, currStatus := x.status }) := by
    rw [Printer.step, hCheck]
  have hUnlock : { c with label := .unlock, currStatus := x.status }.step p c.args x =
      some ({ x with statusMutex := x.statusMutex + 1 },
        { c with label := .full, currStatus := x.status }) := by
    simp [Printer.step, hStatus]
  have hRun := runsFor_client (runsFor_client (b := b) .zero hRead) hUnlock
  exact ⟨_, ⟨hRun, rfl, rfl, hSome⟩, hStatus⟩

/-- The wait of a call that read status 3 means that there is room exactly if
the call found no token that an earlier release had left. -/
theorem full_wait_finds_room_iff (p : Setup) {s : System} (hReachable : Reachable p s)
    (hCheck : s.left.label = .check) (hStatus : s.shared.status = 3) :
    (∀ posts wait, CompletesWait p s posts wait → 0 < posts ∧ wait.shared.status ≠ 3) ↔
      s.shared.serverRead = 0 := by
  constructor
  · intro hRoom
    by_contra hSome
    obtain ⟨wait, hWait, hFull⟩ :=
      completesWait_at_once hCheck hStatus (Nat.pos_of_ne_zero hSome)
    exact (hRoom 0 wait hWait).2 hFull
  · intro hNone posts wait hWait
    obtain hReturned | ⟨_, hCall⟩ :=
      fullCall_of_run hReachable hCheck hStatus hNone hWait.run
    · rw [hWait.sameCall] at hReturned
      exact absurd hReturned (Nat.lt_irrefl _)
    · have hPosts := hCall.token hWait.token
      exact ⟨hPosts, fun hFull => Nat.ne_of_gt hPosts (hCall.full hFull).1⟩

end Calls

/-- The client fills both sectors of one cell and reads the status. -/
def readingFull : System :=
  ((System.init oneCell).play oneCell (List.replicate 31 (.client ⟨4, 8, 1⟩))).get (by decide)

theorem full_wait_finds_room_iff_reading :
    readingFull.shared.serverRead = 0 ∧ ¬ ∃ wait, CompletesWait oneCell readingFull 0 wait := by
  have hReachable : Reachable oneCell readingFull := Reachable.play .init (Option.some_get _).symm
  have hRoom := full_wait_finds_room_iff oneCell hReachable (by decide) (by decide)
  refine ⟨by decide, fun ⟨wait, hWait⟩ => ?_⟩
  exact absurd (hRoom.mpr (by decide) 0 wait hWait).1 (Nat.lt_irrefl 0)

/-- The server releases a sector, which nobody waits for; the client fills it
again, finds the memory full and returns at once. -/
theorem stale_token :
    ∃ s wait, Reachable oneIstr s ∧ s.left.label = .check ∧ s.shared.status = 3 ∧
      CompletesWait oneIstr s 0 wait ∧ wait.shared.status = 3 := by
  obtain ⟨⟨x, c, b⟩, h⟩ := filled_memory oneIstr
  obtain ⟨hReachable, hIdle, hFirstTime, hCnt, rfl, hStatus, hNextToWrite, hNextToRead, hMutex,
    hServerRead⟩ := h
  simp only at hIdle hFirstTime hCnt hStatus hNextToWrite hNextToRead hMutex hServerRead
  obtain ⟨⟨_, serverStatus, session, fed⟩, rfl, hToggle⟩ :=
    reach_window hReachable hStatus hNextToRead hMutex
  have hToggleWrite := hToggle.server rfl
  have hPost := hToggleWrite.server rfl
  have hUnlock := hPost.server rfl
  have hReleased := hUnlock.server rfl
  have hToken : ∃ b s, Ready oneIstr b 1 1 2 0 s :=
    ⟨_, _, hReleased, hIdle, hFirstTime, hCnt, rfl, rfl, hNextToWrite,
      congrArg (· ^^^ 1) hNextToRead, rfl, congrArg (· + 1) hServerRead⟩
  obtain ⟨b, hReady⟩ := hToken
  obtain ⟨s, h⟩ := ready_sector hReady (by decide) (by decide)
  obtain ⟨⟨cell, status, nextToRead, nextToWrite, statusMutex, clientWrote, serverRead, stored⟩,
    ⟨label, firstTime, cnt, oldArgs, currStatus, before, returned⟩, b⟩ := s
  obtain ⟨hFilled, rfl, rfl, rfl, rfl, rfl, rfl, rfl, rfl, rfl⟩ := h
  have hLock := hFilled.client ⟨4, 8, 1⟩ rfl
  obtain ⟨⟨y, d, _⟩, hCheck, hLabel, hThree, hSome⟩ : ∃ s, Reachable oneIstr s ∧
      s.left.label = .check ∧ s.shared.status = 3 ∧ 0 < s.shared.serverRead :=
    ⟨_, hLock.client ⟨4, 8, 1⟩ rfl, rfl, rfl, Nat.one_pos⟩
  obtain ⟨wait, hWait, hFull⟩ := completesWait_at_once hLabel hThree hSome
  exact ⟨_, wait, hCheck, hLabel, hThree, hWait, hFull⟩

end BranchPrediction.SharedMemory
