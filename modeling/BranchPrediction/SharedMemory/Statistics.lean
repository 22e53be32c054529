import BranchPrediction.SharedMemory.Delivery

/-! What the server has counted when it stops. The stores are the calls that
found room, in order, and the server takes as many as it was asked for. -/
namespace BranchPrediction.SharedMemory

/-- The call found room. The first call only connects. -/
def ReturnedCall.kept (r : ReturnedCall) : Bool := !r.first && decide (r.currStatus ≠ 3)

/-- The branch of the current call, once it is stored. -/
def Printer.inHand (c : Printer) : List ShmCell :=
  match c.label with
  | .closeLock | .closeSwitch | .closeSide | .closeStatus _ | .closeToggle | .closeToggleWrite _
  | .closePost | .closeUnlock | .exited => [c.args]
  | _ => []

/-- The branches that the helper was called with and that were not lost. -/
def Printer.delivered (c : Printer) : List ShmCell :=
  (c.returned.filter ReturnedCall.kept).map ReturnedCall.args ++ c.inHand

/-- The calls that have taken a token of `serverRead_sem`: they do not store. -/
def Printer.tokensTaken (c : Printer) : Nat := c.returned.countP fun r => !r.kept

section Steps

variable {p : Setup} {x x' : Shared} {c c' : Printer}

theorem Printer.delivered_finish (y : Shared) (hKept : c.currStatus ≠ 3) :
    (c.finish y false).delivered =
        (c.returned.filter ReturnedCall.kept).map ReturnedCall.args ++ [c.args] ∧
      (c.finish y false).tokensTaken = c.tokensTaken := by
  simp [Printer.delivered, Printer.tokensTaken, Printer.finish, Printer.inHand,
    ReturnedCall.kept, hKept]

theorem Printer.tokensTaken_finish (y : Shared) (first : Bool)
    (hTakes : first = true ∨ c.currStatus = 3) :
    (c.finish y first).delivered =
        (c.returned.filter ReturnedCall.kept).map ReturnedCall.args ∧
      (c.finish y first).tokensTaken = c.tokensTaken + 1 := by
  rcases hTakes with rfl | hFull
  · simp [Printer.delivered, Printer.tokensTaken, Printer.finish, Printer.inHand,
      ReturnedCall.kept]
  · simp [Printer.delivered, Printer.tokensTaken, Printer.finish, Printer.inHand,
      ReturnedCall.kept, hFull]

/-- What a step stores, delivers and takes. -/
structure Printer.Delivers (x : Shared) (c : Printer) (x' : Shared) (c' : Printer) : Prop where
  stored : ∃ stores, x'.stored = x.stored ++ stores ∧
    c'.delivered = c.delivered ++ stores.map Prod.snd
  token : x'.serverRead + c'.tokensTaken = x.serverRead + c.tokensTaken

/-- A step that returns from no call and leaves the current branch where it is. -/
theorem Printer.delivers_quiet (hStored : x'.stored = x.stored)
    (hServerRead : x'.serverRead = x.serverRead) (hReturned : c'.returned = c.returned)
    (hHand : c'.inHand = c.inHand) : c.Delivers x x' c' where
  stored := by
    refine ⟨[], by rw [hStored, List.append_nil], ?_⟩
    rw [Printer.delivered, Printer.delivered, hReturned, hHand, List.map_nil, List.append_nil]
  token := by rw [hServerRead, Printer.tokensTaken, Printer.tokensTaken, hReturned]

/-- A step stores what it delivers, and a call that delivers nothing takes a
token. -/
theorem Printer.step_delivers {nData : Nat} (hCurrent : c.CallSoFar nData x) {args : ShmCell}
    (hStep : c.step p args x = some (x', c')) : c.Delivers x x' c' := by
  cases hLabel : c.label with
  | idle =>
      simp only [Printer.step, hLabel, Option.some.injEq, Prod.mk.injEq] at hStep
      obtain ⟨rfl, rfl⟩ := hStep
      refine delivers_quiet rfl rfl rfl ?_
      cases c.firstTime <;> simp [Printer.inHand, hLabel]
  | check | pick | closeSide | closeStatus newStatus | closeToggle | closeToggleWrite side
  | closePost =>
      simp only [Printer.step, hLabel, Option.some.injEq, Prod.mk.injEq] at hStep
      obtain ⟨rfl, rfl⟩ := hStep
      exact delivers_quiet rfl rfl rfl (by simp [Printer.inHand, hLabel])
  | unlock =>
      simp only [Printer.step, hLabel, Option.some.injEq, Prod.mk.injEq] at hStep
      obtain ⟨rfl, rfl⟩ := hStep
      refine delivers_quiet rfl rfl rfl ?_
      by_cases hFull : c.currStatus = 3 <;> simp [Printer.inHand, hLabel, hFull]
  | lock | closeLock =>
      simp only [Printer.step, hLabel, Option.bind_eq_bind, Option.bind_eq_some_iff,
        Option.some.injEq, Prod.mk.injEq] at hStep
      obtain ⟨value, _, rfl, rfl⟩ := hStep
      exact delivers_quiet rfl rfl rfl (by simp [Printer.inHand, hLabel])
  | closeSwitch =>
      simp only [Printer.step, hLabel] at hStep
      split at hStep <;>
        · simp only [Option.some.injEq, Prod.mk.injEq] at hStep
          obtain ⟨rfl, rfl⟩ := hStep
          exact delivers_quiet rfl rfl rfl (by simp [Printer.inHand, hLabel])
  | store sector =>
      simp only [Printer.CallSoFar, hLabel] at hCurrent
      have hHand : c.delivered = (c.returned.filter ReturnedCall.kept).map ReturnedCall.args := by
        rw [Printer.delivered, Printer.inHand, hLabel, List.append_nil]
      simp only [Printer.step, hLabel] at hStep
      by_cases hLast : c.cnt = p.nData - 1
      · rw [if_neg (not_not_intro hLast), Option.some.injEq, Prod.mk.injEq] at hStep
        obtain ⟨rfl, rfl⟩ := hStep
        refine ⟨⟨_, rfl, ?_⟩, rfl⟩
        rw [hHand]
        rfl
      · rw [if_pos hLast, Option.some.injEq, Prod.mk.injEq] at hStep
        obtain ⟨rfl, rfl⟩ := hStep
        obtain ⟨hDelivered, hTaken⟩ := Printer.delivered_finish
          (c := { c with cnt := c.cnt + 1 }) (x.store sector c.cnt c.args) hCurrent.2
        refine ⟨⟨_, rfl, hDelivered.trans ?_⟩, congrArg (x.serverRead + ·) hTaken⟩
        rw [hHand]
        rfl
  | closeUnlock =>
      simp only [Printer.CallSoFar, hLabel] at hCurrent
      simp only [Printer.step, hLabel, Option.some.injEq, Prod.mk.injEq] at hStep
      obtain ⟨rfl, rfl⟩ := hStep
      obtain ⟨hDelivered, hTaken⟩ := Printer.delivered_finish x hCurrent.2
      refine ⟨⟨[], (List.append_nil _).symm, ?_⟩, by rw [hTaken]⟩
      rw [hDelivered, Printer.delivered, Printer.inHand, hLabel, List.map_nil, List.append_nil]
  | connect =>
      simp only [Printer.step, hLabel, Option.bind_eq_bind, Option.bind_eq_some_iff,
        Option.some.injEq, Prod.mk.injEq] at hStep
      obtain ⟨value, hWait, rfl, rfl⟩ := hStep
      obtain ⟨hDelivered, hTaken⟩ := Printer.tokensTaken_finish (c := c) x true (.inl rfl)
      rw [semWait_eq_some] at hWait
      refine ⟨⟨[], (List.append_nil _).symm, ?_⟩, ?_⟩
      · rw [hDelivered, Printer.delivered, Printer.inHand, hLabel, List.append_nil, List.map_nil,
          List.append_nil]
      · change value + (c.finish x _).tokensTaken = x.serverRead + c.tokensTaken
        omega
  | full =>
      simp only [Printer.CallSoFar, hLabel] at hCurrent
      simp only [Printer.step, hLabel, Option.bind_eq_bind, Option.bind_eq_some_iff,
        Option.some.injEq, Prod.mk.injEq] at hStep
      obtain ⟨value, hWait, rfl, rfl⟩ := hStep
      obtain ⟨hDelivered, hTaken⟩ := Printer.tokensTaken_finish x false (.inr hCurrent.2)
      rw [semWait_eq_some] at hWait
      refine ⟨⟨[], (List.append_nil _).symm, ?_⟩, ?_⟩
      · rw [hDelivered, Printer.delivered, Printer.inHand, hLabel, List.append_nil, List.map_nil,
          List.append_nil]
      · change value + (c.finish x _).tokensTaken = x.serverRead + c.tokensTaken
        omega
  | exited => simp [Printer.step, hLabel] at hStep

/-- The server feeds a cell only while it has not had enough. -/
theorem Server.step_fed {b b' : Server} (hStep : b.step p x = some (x', b')) :
    (b'.fed = b.fed ∨ b.Continues p ∧ ∃ d, b'.fed = b.fed ++ [d]) ∧
      (b'.label = .done → ¬ b'.Continues p) := by
  cases hLabel : b.label with
  | loopTest =>
      simp only [Server.step, hLabel, Option.some.injEq, Prod.mk.injEq] at hStep
      obtain ⟨rfl, rfl⟩ := hStep
      refine ⟨.inl rfl, fun hDone hMore => ?_⟩
      have hMore' : b.Continues p := hMore
      simp [hMore'] at hDone
  | check | pick | releaseSide | releaseStatus newStatus | releaseToggle | releaseToggleWrite side
  | releasePost | releaseUnlock =>
      simp only [Server.step, hLabel, Option.some.injEq, Prod.mk.injEq] at hStep
      obtain ⟨rfl, rfl⟩ := hStep
      exact ⟨.inl rfl, by simp⟩
  | unlock =>
      simp only [Server.step, hLabel, Option.some.injEq, Prod.mk.injEq] at hStep
      obtain ⟨rfl, rfl⟩ := hStep
      refine ⟨.inl rfl, ?_⟩
      split_ifs <;> simp
  | lock | empty | releaseLock =>
      simp only [Server.step, hLabel, Option.bind_eq_bind, Option.bind_eq_some_iff,
        Option.some.injEq, Prod.mk.injEq] at hStep
      obtain ⟨value, _, rfl, rfl⟩ := hStep
      exact ⟨.inl rfl, by simp⟩
  | read sector i =>
      simp only [Server.step, hLabel] at hStep
      by_cases hMore : i < p.nData ∧ b.Continues p
      · rw [if_pos hMore, Option.some.injEq, Prod.mk.injEq] at hStep
        obtain ⟨rfl, rfl⟩ := hStep
        exact ⟨.inr ⟨hMore.2, _, rfl⟩, by simp⟩
      · rw [if_neg hMore, Option.some.injEq, Prod.mk.injEq] at hStep
        obtain ⟨rfl, rfl⟩ := hStep
        exact ⟨.inl rfl, by simp⟩
  | releaseSwitch =>
      simp only [Server.step, hLabel] at hStep
      split at hStep <;>
        · simp only [Option.some.injEq, Prod.mk.injEq] at hStep
          obtain ⟨rfl, rfl⟩ := hStep
          exact ⟨.inl rfl, by simp⟩
  | done | exited => simp [Server.step, hLabel] at hStep

end Steps

/-- In every interleaving the memory has been given the delivered branches. -/
theorem delivered_of_reachable {p : Setup} {s : System} (hReachable : Reachable p s) :
    s.shared.stored.map Prod.snd = s.left.delivered := by
  refine hReachable.invariant (P := fun s => s.shared.stored.map Prod.snd = s.left.delivered) rfl
    fun s s' hBefore h hStep => ?_
  cases hStep with
  | left b hLeft =>
      obtain ⟨args, hLeft⟩ := hLeft
      obtain ⟨stores, hStored, hDelivered⟩ :=
        (Printer.step_delivers (callLog_of_reachable hBefore).current hLeft).stored
      simp only at h ⊢
      rw [hStored, hDelivered, List.map_append, h]
  | right c hRight =>
      obtain ⟨g, hx, _, hServer⟩ := consistent_of_reachable hBefore
      obtain ⟨_, _, _, hMoves⟩ := hServer.step hx hRight
      simp only at h ⊢
      rw [hMoves.stored, h]

/-- The server has not been fed more than it was asked for, and at the end not
less. -/
structure Server.Counted (p : Setup) (b : Server) : Prop where
  fed : b.fed.length ≤ p.desiredIstr.toNat
  done : b.label = .done → ¬ b.Continues p

theorem counted_of_reachable {p : Setup} {s : System} (hReachable : Reachable p s) :
    s.right.Counted p := by
  refine hReachable.invariant (P := fun s => s.right.Counted p) ⟨Nat.zero_le _, nofun⟩
    fun s s' hBefore h hStep => ?_
  cases hStep with
  | left b hLeft => exact h
  | right c hRight =>
      obtain ⟨g, hx, _, hServer⟩ := consistent_of_reachable hBefore
      have hCount := hServer.iCount
      have hFed := h.fed
      obtain ⟨hSame | ⟨hMore, d, hOne⟩, hDone⟩ := Server.step_fed hRight
      · exact ⟨by simpa only [hSame] using hFed, hDone⟩
      · refine ⟨?_, hDone⟩
        simp only [Server.Continues] at hMore hCount
        simp only [hOne, List.length_append, List.length_singleton]
        omega

/-- When the server leaves its loop it was fed as much as it was asked for. -/
theorem length_fed_at_done {p : Setup} {s : System} (hReachable : Reachable p s)
    (hDone : s.right.label = .done) : s.right.fed.length = p.desiredIstr.toNat := by
  obtain ⟨g, _, _, hServer⟩ := consistent_of_reachable hReachable
  have hCounted := counted_of_reachable hReachable
  have hFed := hCounted.fed
  have hStop := hCounted.done hDone
  have hCount := hServer.iCount
  rw [Server.Continues] at hStop
  omega

/-- When the server leaves its loop it has taken the branches that it was asked
for, the first ones delivered, and has counted what the loop of `predictor.c`
counts on the delivered branches. -/
theorem statistics_at_done (p : Setup) (s : System) (hReachable : Reachable p s)
    (hDone : s.right.label = .done) :
    s.right.fed = s.left.delivered.take p.desiredIstr.toNat ∧
      p.desiredIstr.toNat ≤ s.left.delivered.length ∧
        s.right.session =
          Tage.mainLoop p.desiredIstr Tage.Session.init (recordsOf p s.left.delivered) := by
  obtain ⟨g, _, _, hServer⟩ := consistent_of_reachable hReachable
  have hLength := length_fed_at_done hReachable hDone
  have hPrefix : s.right.fed <+: s.left.delivered := by
    rw [← delivered_of_reachable hReachable]
    exact hServer.fed
  refine ⟨?_, hLength ▸ hPrefix.length_le, ?_⟩
  · rw [← hLength]
    exact List.prefix_iff_eq_take.mp hPrefix
  · obtain ⟨rest, hRest⟩ := hPrefix
    have hSession := hServer.session
    have hReached : p.desiredIstr ≤
        (Tage.mainLoop p.desiredIstr Tage.Session.init (recordsOf p s.right.fed)).iCount := by
      rw [← hSession]
      exact Int.not_lt.mp ((counted_of_reachable hReachable).done hDone)
    rw [← hRest, recordsOf, List.mapIdx_append]
    exact hSession.trans (Tage.mainLoop_append _ hReached).symm

/-- The helper connects and fills a sector of one cell, which the server reads. -/
def finished : System :=
  ((System.init oneCell).play oneCell
    (List.replicate 16 (.client ⟨4, 8, 1⟩) ++ List.replicate 15 .server)).get (by decide)

theorem statistics_at_done_finished :
    finished.left.delivered = [⟨4, 8, 1⟩] ∧
      finished.right.fed = finished.left.delivered.take 1 := by
  have hReachable : Reachable oneCell finished := Reachable.play .init (Option.some_get _).symm
  exact ⟨by decide, (statistics_at_done oneCell finished hReachable (by decide)).1⟩

end BranchPrediction.SharedMemory
