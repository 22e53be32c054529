import BranchPrediction.SharedMemory.FullMemory

/-! Waiting. A side waits for the other one only on a memory that was full, or
empty, when the other side last posted; hence never both wait. -/
namespace BranchPrediction.SharedMemory

/-- Blocked in `sem_wait(serverRead_sem)`. -/
def Printer.WaitsForServer (c : Printer) (x : Shared) : Prop :=
  (c.label = .connect ∨ c.label = .full) ∧ x.serverRead = 0

/-- Blocked in `sem_wait(clientWrote_sem)`. -/
def Server.WaitsForClient (s : Server) (x : Shared) : Prop :=
  s.label = .empty ∧ x.clientWrote = 0

/-- Blocked in `sem_wait(statusMutex_sem)`. -/
def Printer.WaitsForMutex (c : Printer) (x : Shared) : Prop :=
  (c.label = .lock ∨ c.label = .closeLock) ∧ x.statusMutex = 0

def Server.WaitsForMutex (s : Server) (x : Shared) : Prop :=
  (s.label = .lock ∨ s.label = .releaseLock) ∧ x.statusMutex = 0

/-- The owner of the mutex can always take its next step. -/
theorem Printer.step_of_holds {p : Setup} {c : Printer} (hHolds : c.label.holds = true)
    (args : ShmCell) (x : Shared) : ∃ x' c', c.step p args x = some (x', c') := by
  cases hLabel : c.label <;> rw [hLabel] at hHolds <;>
    first
    | exact absurd hHolds (by decide)
    | exact ⟨_, _, by rw [Printer.step, hLabel]⟩
    | (simp only [Printer.step, hLabel]; split <;> exact ⟨_, _, rfl⟩)

theorem Server.step_of_holds {p : Setup} {s : Server} (hHolds : s.label.holds = true) (x : Shared) :
    ∃ x' s', s.step p x = some (x', s') := by
  cases hLabel : s.label <;> rw [hLabel] at hHolds <;>
    first
    | exact absurd hHolds (by decide)
    | exact ⟨_, _, by rw [Server.step, hLabel]⟩
    | (simp only [Server.step, hLabel]; split <;> exact ⟨_, _, rfl⟩)

section Waiting

variable {p : Setup} {g : Ledger} {x : Shared} {c : Printer} {s : Server}

theorem PrinterAt.closed_of_waits (hClient : PrinterAt p g x c) (hWaits : c.WaitsForServer x) :
    c.label = .full ∧ g.closed = g.serverPosts + 2 := by
  obtain ⟨hConnect | hFull, hZero⟩ := hWaits
  · have hToken := hClient.carries
    rw [hConnect] at hToken
    exact absurd hZero (Nat.ne_of_gt hToken)
  · exact ⟨hFull, hClient.full (by simp [Printer.SawFull, hFull]) hZero⟩

theorem ServerAt.posts_of_waits (hServer : ServerAt p g x s) (hWaits : s.WaitsForClient x) :
    g.clientPosts = g.released :=
  hServer.empty (by simp [Server.SawEmpty, hWaits.1]) hWaits.2

/-- While the mutex is taken, one of the two processes owns it. -/
theorem Coherent.owned (hx : Coherent p g x) (hZero : x.statusMutex = 0) :
    g.owner = some .client ∨ g.owner = some .server := by
  have hMutex := hx.mutex
  rw [hZero] at hMutex
  cases hOwner : g.owner with
  | none => simp [hOwner] at hMutex
  | some side =>
      cases side with
      | client => exact .inl rfl
      | server => exact .inr rfl

theorem server_holds_of_waits (hx : Coherent p g x) (hClient : PrinterAt p g x c)
    (hServer : ServerAt p g x s) (hWaits : c.WaitsForMutex x) : s.label.holds = true := by
  rcases hx.owned hWaits.2 with hOwned | hOwned
  · have hHolds := hClient.holds.mpr hOwned
    rcases hWaits.1 with hLabel | hLabel <;> rw [hLabel] at hHolds <;> cases hHolds
  · exact hServer.holds.mpr hOwned

theorem client_holds_of_waits (hx : Coherent p g x) (hClient : PrinterAt p g x c)
    (hServer : ServerAt p g x s) (hWaits : s.WaitsForMutex x) : c.label.holds = true := by
  rcases hx.owned hWaits.2 with hOwned | hOwned
  · exact hClient.holds.mpr hOwned
  · have hHolds := hServer.holds.mpr hOwned
    rcases hWaits.1 with hLabel | hLabel <;> rw [hLabel] at hHolds <;> cases hHolds

end Waiting

/-- No interleaving blocks both sides on each other. The client waits for the
server on status 3, or while the server is between its write of `status` and
its post; the server waits on status 0, or while the client is there. Whoever
owns the mutex can take its next step. -/
theorem no_mutual_blocking (p : Setup) (s : System) (hReachable : Reachable p s) :
    ¬ (s.left.WaitsForServer s.shared ∧ s.right.WaitsForClient s.shared) ∧
      (s.left.WaitsForServer s.shared →
        s.left.label = .full ∧ (s.shared.status = 3 ∨ s.right.label.unposted = true)) ∧
        (s.right.WaitsForClient s.shared →
          s.shared.status = 0 ∨ s.left.label.unposted = true) ∧
          (s.left.WaitsForMutex s.shared → s.right.label.holds = true ∧
            ∃ x' b', s.right.step p s.shared = some (x', b')) ∧
            (s.right.WaitsForMutex s.shared → s.left.label.holds = true ∧
              ∀ args, ∃ x' c', s.left.step p args s.shared = some (x', c')) := by
  obtain ⟨g, hx, hClient, hServer⟩ := consistent_of_reachable hReachable
  have hClientPosts := hClient.posts
  have hServerPosts := hServer.posts
  refine ⟨?_, ?_, ?_, ?_, ?_⟩
  · rintro ⟨hLeft, hRight⟩
    obtain ⟨hFull, hClosed⟩ := hClient.closed_of_waits hLeft
    have hReleased := hServer.posts_of_waits hRight
    rw [hFull] at hClientPosts
    rw [hRight.1] at hServerPosts
    simp only [PrinterLabel.unposted, ServerLabel.unposted, Bool.toNat_false] at *
    omega
  · intro hLeft
    obtain ⟨hFull, hClosed⟩ := hClient.closed_of_waits hLeft
    refine ⟨hFull, ?_⟩
    cases hUnposted : s.right.label.unposted with
    | true => exact .inr rfl
    | false =>
        rw [hUnposted, Bool.toNat_false, Nat.add_zero] at hServerPosts
        rw [hx.status, hClosed, hServerPosts, statusOf_two]
        exact .inl rfl
  · intro hRight
    have hReleased := hServer.posts_of_waits hRight
    cases hUnposted : s.left.label.unposted with
    | true => exact .inr rfl
    | false =>
        rw [hUnposted, Bool.toNat_false, Nat.add_zero] at hClientPosts
        rw [hx.status, hClientPosts, hReleased, statusOf_self]
        exact .inl rfl
  · intro hLeft
    have hHolds := server_holds_of_waits hx hClient hServer hLeft
    exact ⟨hHolds, Server.step_of_holds hHolds s.shared⟩
  · intro hRight
    have hHolds := client_holds_of_waits hx hClient hServer hRight
    exact ⟨hHolds, fun args => Printer.step_of_holds hHolds args s.shared⟩

/-- The client fills both sectors of one cell and waits. -/
def waiting : System :=
  ((System.init oneCell).play oneCell (List.replicate 33 (.client ⟨4, 8, 1⟩))).get (by decide)

theorem no_mutual_blocking_waiting :
    waiting.shared.status = 3 ∨ waiting.right.label.unposted = true :=
  ((no_mutual_blocking oneCell waiting (Reachable.play .init (Option.some_get _).symm)).2.1
    ⟨.inr (by decide), by decide⟩).2

/-- Between the two writes of the server the client can wait on status 2. -/
theorem waits_on_half_full :
    ∃ s, Reachable oneIstr s ∧ s.right.label ≠ .done ∧ s.left.label = .full ∧
      s.left.WaitsForServer s.shared ∧ s.shared.status ≠ 3 := by
  obtain ⟨s, h⟩ := inWindow
  refine ⟨s, h.reachable, ?_, h.label, ⟨.inr h.label, h.serverRead⟩, ?_⟩
  · rw [h.server]
    decide
  · rw [h.status]
    decide

end BranchPrediction.SharedMemory
