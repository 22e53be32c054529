import BranchPrediction.SharedMemory.Coherence

/-! Runs in which the client alone fills both sectors, at the sector size of the
source. -/
namespace BranchPrediction.SharedMemory

/-- The client is between two calls: it has closed some sectors and stored some
cells of the next one. The server, in whatever state, has released some. -/
structure Ready (p : Setup) (b : Server) (tokens released closed cnt : Nat) (s : System) :
    Prop where
  reachable : Reachable p s
  label : s.left.label = .idle
  firstTime : s.left.firstTime = false
  cnt : s.left.cnt = cnt
  server : s.right = b
  status : s.shared.status = statusOf closed released
  nextToWrite : s.shared.nextToWrite = closed % 2
  nextToRead : s.shared.nextToRead = released % 2
  statusMutex : s.shared.statusMutex = 1
  serverRead : s.shared.serverRead = tokens

section Alone

variable {p : Setup} {b : Server} {tokens released closed cnt : Nat}

/-- The first half of a call that finds room. -/
theorem Ready.reach_store {s : System} (h : Ready p b tokens released closed cnt s)
    (hLow : released ≤ closed) (hRoom : closed ≤ released + 1) (args : ShmCell) :
    Reachable p ⟨s.shared,
      { s.left with
        label := .store (closed % 2)
        args := args
        currStatus := statusOf closed released
        before := s.shared.stored }, b⟩ := by
  obtain ⟨⟨cell, status, nextToRead, nextToWrite, statusMutex, clientWrote, serverRead, stored⟩,
    ⟨label, firstTime, cnt, oldArgs, currStatus, before, returned⟩, b⟩ := s
  obtain ⟨hReachable, rfl, rfl, rfl, rfl, rfl, rfl, rfl, rfl, rfl⟩ := h
  have hNotFull : statusOf closed released ≠ 3 := by
    have hCases := statusOf_cases hLow (by omega)
    omega
  have hSector : (if closed % 2 = 0 then 0 else 1) = closed % 2 := by
    split_ifs <;> omega
  have hLock := hReachable.client args rfl
  have hCheck := hLock.client args rfl
  have hUnlock := hCheck.client args rfl
  have hPick := hUnlock.client args rfl
  rw [if_pos hNotFull] at hPick
  have hStore := hPick.client args rfl
  rwa [hSector] at hStore

theorem Ready.store_next {s : System} (h : Ready p b tokens released closed cnt s)
    (hLow : released ≤ closed) (hRoom : closed ≤ released + 1) (hMore : cnt + 1 < p.nData) :
    ∃ s', Ready p b tokens released closed (cnt + 1) s' := by
  have hStore := h.reach_store hLow hRoom ⟨0, 0, 0⟩
  have hNotLast : s.left.cnt ≠ p.nData - 1 := by
    rw [h.cnt]
    omega
  have hNext := hStore.client ⟨0, 0, 0⟩ (if_pos hNotLast)
  exact ⟨_, hNext, rfl, h.firstTime, congrArg (· + 1) h.cnt, rfl, h.status, h.nextToWrite,
    h.nextToRead, h.statusMutex, h.serverRead⟩

/-- The rest of the call that fills a sector, once `newStatus` is chosen. -/
theorem reach_closed {x : Shared} {c : Printer} {newStatus : Nat}
    (hReachable : Reachable p ⟨x, c, b⟩) (hLabel : c.label = .closeStatus newStatus) :
    Reachable p ⟨
      { x with
        status := newStatus
        nextToWrite := x.nextToWrite ^^^ 1
        clientWrote := x.clientWrote + 1
        statusMutex := x.statusMutex + 1 },
      c.finish x false, b⟩ := by
  obtain ⟨label, firstTime, cnt, args, currStatus, before, returned⟩ := c
  subst hLabel
  have hToggle := hReachable.client args rfl
  have hToggleWrite := hToggle.client args rfl
  have hPost := hToggleWrite.client args rfl
  have hUnlock := hPost.client args rfl
  exact hUnlock.client args rfl

/-- The call that fills a sector. -/
theorem Ready.close {s : System} (h : Ready p b tokens released closed (p.nData - 1) s)
    (hLow : released ≤ closed) (hRoom : closed ≤ released + 1) :
    ∃ s', Ready p b tokens released (closed + 1) 0 s' := by
  have hStore := h.reach_store hLow hRoom ⟨0, 0, 0⟩
  have hLock := hStore.client ⟨0, 0, 0⟩ (if_neg (not_not_intro h.cnt))
  obtain ⟨⟨cell, status, nextToRead, nextToWrite, statusMutex, clientWrote, serverRead, stored⟩,
    ⟨label, firstTime, cnt, oldArgs, currStatus, before, returned⟩, b⟩ := s
  obtain ⟨_, rfl, rfl, rfl, rfl, rfl, rfl, rfl, rfl, rfl⟩ := h
  have hSwitch := hLock.client ⟨0, 0, 0⟩ rfl
  obtain ⟨rfl, hEmpty⟩ | ⟨rfl, hOne | hTwo⟩ | ⟨rfl, _⟩ := statusOf_cases hLow (by omega)
  · simp only [hEmpty] at hSwitch
    have hSide := hSwitch.client ⟨0, 0, 0⟩ rfl
    have hStatus := hSide.client ⟨0, 0, 0⟩ rfl
    exact ⟨_, reach_closed hStatus rfl, rfl, rfl, rfl, rfl, (statusOf_one _).symm,
      xor_one_mod_two _, rfl, rfl, rfl⟩
  · simp only [hOne] at hSwitch
    have hStatus := hSwitch.client ⟨0, 0, 0⟩ rfl
    exact ⟨_, reach_closed hStatus rfl, rfl, rfl, rfl, rfl, (statusOf_two _).symm,
      xor_one_mod_two _, rfl, rfl, rfl⟩
  · simp only [hTwo] at hSwitch
    have hStatus := hSwitch.client ⟨0, 0, 0⟩ rfl
    exact ⟨_, reach_closed hStatus rfl, rfl, rfl, rfl, rfl, (statusOf_two _).symm,
      xor_one_mod_two _, rfl, rfl, rfl⟩
  · omega

/-- The client fills a sector on its own. -/
theorem ready_sector (hStart : ∃ s, Ready p b tokens released closed 0 s)
    (hLow : released ≤ closed) (hRoom : closed ≤ released + 1) :
    ∃ s, Ready p b tokens released (closed + 1) 0 s := by
  have hCells (cnt : Nat) (hCnt : cnt < p.nData) :
      ∃ s, Ready p b tokens released closed cnt s := by
    induction cnt with
    | zero => exact hStart
    | succ cnt ih =>
        obtain ⟨s, h⟩ := ih (by omega)
        exact h.store_next hLow hRoom hCnt
  have hPos := p.nData_pos
  obtain ⟨s, h⟩ := hCells (p.nData - 1) (by omega)
  exact h.close hLow hRoom

end Alone

/-- The client has closed some sectors and stored some cells of the next one; the
server has not moved. -/
structure Filled (p : Setup) (closed cnt : Nat) (s : System) : Prop where
  reachable : Reachable p s
  label : s.left.label = .idle
  firstTime : s.left.firstTime = false
  cnt : s.left.cnt = cnt
  server : s.right = Server.init
  status : s.shared.status = statusOf closed 0
  nextToWrite : s.shared.nextToWrite = closed % 2
  nextToRead : s.shared.nextToRead = 0
  statusMutex : s.shared.statusMutex = 1
  serverRead : s.shared.serverRead = 0

section Filling

variable {p : Setup} {closed cnt : Nat} {s : System}

theorem Filled.ready (h : Filled p closed cnt s) : Ready p Server.init 0 0 closed cnt s :=
  ⟨h.reachable, h.label, h.firstTime, h.cnt, h.server, h.status, h.nextToWrite, h.nextToRead,
    h.statusMutex, h.serverRead⟩

theorem Ready.filled (h : Ready p Server.init 0 0 closed cnt s) : Filled p closed cnt s :=
  ⟨h.reachable, h.label, h.firstTime, h.cnt, h.server, h.status, h.nextToWrite, h.nextToRead,
    h.statusMutex, h.serverRead⟩

theorem filled_start (p : Setup) : ∃ s, Filled p 0 0 s := by
  have hInit : Reachable p ⟨Shared.init p, Printer.init, Server.init⟩ := .init
  have hConnect := hInit.client ⟨0, 0, 0⟩ rfl
  have hConnected := hConnect.client ⟨0, 0, 0⟩ rfl
  exact ⟨_, hConnected, rfl, rfl, rfl, rfl, rfl, rfl, rfl, rfl, rfl⟩

theorem filled_memory (p : Setup) : ∃ s, Filled p 2 0 s := by
  obtain ⟨s, h⟩ := filled_start p
  have hOne := ready_sector ⟨s, h.ready⟩ (by decide) (by decide)
  obtain ⟨s', h'⟩ := ready_sector hOne (by decide) (by decide)
  exact ⟨s', h'.filled⟩

end Filling

/-- The sector size of the source, and a server that is asked for one record. -/
def oneIstr : Setup :=
  { oneCell with
    nData := 0x80000
    nData_pos := by decide }

/-- A call has found the memory full and waits, with no token left, while the
server has released a sector but not yet posted. -/
structure InWindow (s : System) : Prop where
  reachable : Reachable oneIstr s
  label : s.left.label = .full
  currStatus : s.left.currStatus = 3
  before : s.left.before = s.shared.stored
  server : s.right.label = .releaseToggle
  status : s.shared.status = 2
  serverRead : s.shared.serverRead = 0

/-- The server finds the memory full, reads its record and begins to release the
sector. -/
theorem reach_window {x : Shared} {c : Printer}
    (hReachable : Reachable oneIstr ⟨x, c, Server.init⟩) (hStatus : x.status = 3)
    (hNextToRead : x.nextToRead = 0) (hMutex : x.statusMutex = 1) :
    ∃ b, b.label = .releaseToggle ∧
      Reachable oneIstr ⟨{ x with status := 2, statusMutex := 0 }, c, b⟩ := by
  obtain ⟨cell, status, nextToRead, nextToWrite, statusMutex, clientWrote, serverRead, stored⟩ := x
  obtain ⟨rfl, rfl, rfl⟩ : status = 3 ∧ nextToRead = 0 ∧ statusMutex = 1 :=
    ⟨hStatus, hNextToRead, hMutex⟩
  have hLock := hReachable.server rfl
  have hCheck := hLock.server rfl
  have hUnlock := hCheck.server rfl
  have hPick := hUnlock.server rfl
  have hRead := hPick.server rfl
  have hFed := hRead.server rfl
  have hReleaseLock := hFed.server rfl
  have hSwitch := hReleaseLock.server rfl
  have hSide := hSwitch.server rfl
  have hRelease := hSide.server rfl
  exact ⟨_, rfl, hRelease.server rfl⟩

theorem inWindow : ∃ s, InWindow s := by
  obtain ⟨s, h⟩ := filled_memory oneIstr
  obtain ⟨⟨cell, status, nextToRead, nextToWrite, statusMutex, clientWrote, serverRead, stored⟩,
    ⟨label, firstTime, cnt, oldArgs, currStatus, before, returned⟩, b⟩ := s
  obtain ⟨hReachable, rfl, rfl, rfl, rfl, rfl, rfl, rfl, rfl, rfl⟩ := h
  have hLock := hReachable.client ⟨4, 8, 1⟩ rfl
  have hCheck := hLock.client ⟨4, 8, 1⟩ rfl
  have hUnlock := hCheck.client ⟨4, 8, 1⟩ rfl
  have hFull := hUnlock.client ⟨4, 8, 1⟩ rfl
  obtain ⟨b, hLabel, hReleased⟩ := reach_window hFull rfl rfl rfl
  exact ⟨_, hReleased, rfl, rfl, rfl, hLabel, rfl, rfl⟩

end BranchPrediction.SharedMemory
