import BranchPrediction.SharedMemory.FullWait
import BranchPrediction.SharedMemory.Statistics

/-! How many branches the helper can lose. A call that finds the memory full takes
a token of `serverRead_sem`, the server posts one for each sector that it
releases, and a sector is released after it was filled. -/
namespace BranchPrediction.SharedMemory

open Interleaving

/-- The calls that found the memory full, and lost their branch. -/
def Printer.lost (c : Printer) : Nat :=
  c.returned.countP fun r => !r.first && decide (r.currStatus = 3)

theorem statusOf_injective {closed released released' : Nat} (hLow : released ≤ closed)
    (hHigh : closed ≤ released + 2) (hLow' : released' ≤ closed) (hHigh' : closed ≤ released' + 2)
    (hStatus : statusOf closed released = statusOf closed released') : released = released' := by
  have hCases := statusOf_cases hLow hHigh
  have hCases' := statusOf_cases hLow' hHigh'
  omega

section Steps

variable {p : Setup} {g g' : Ledger} {x x' : Shared} {b b' : Server}

/-- The server posts what it has released: the write of `status` puts the post
off, and only `sem_post` makes up for it. -/
theorem Server.step_unposted (c : Printer) (hStep : b.step p x = some (x', b')) :
    (∃ new, b.label = .releaseStatus new ∧ x'.status = new ∧
        serverPosts ⟨x, c, b⟩ ⟨x', c, b'⟩ = 0 ∧ b'.label.unposted = true) ∨
      x'.status = x.status ∧
        serverPosts ⟨x, c, b⟩ ⟨x', c, b'⟩ + b'.label.unposted.toNat = b.label.unposted.toNat := by
  cases hLabel : b.label with
  | releaseStatus new =>
      simp only [Server.step, hLabel, Option.some.injEq, Prod.mk.injEq] at hStep
      obtain ⟨rfl, rfl⟩ := hStep
      exact .inl ⟨new, rfl, rfl, by simp [serverPosts, hLabel], rfl⟩
  | loopTest | unlock =>
      simp only [Server.step, hLabel, Option.some.injEq, Prod.mk.injEq] at hStep
      obtain ⟨rfl, rfl⟩ := hStep
      refine .inr ⟨rfl, ?_⟩
      split_ifs <;> simp [serverPosts, hLabel, ServerLabel.unposted]
  | check | pick | releaseSide | releaseToggle | releaseToggleWrite side | releasePost
  | releaseUnlock =>
      simp only [Server.step, hLabel, Option.some.injEq, Prod.mk.injEq] at hStep
      obtain ⟨rfl, rfl⟩ := hStep
      exact .inr ⟨rfl, by simp [serverPosts, hLabel, ServerLabel.unposted]⟩
  | lock | releaseLock | empty =>
      simp only [Server.step, hLabel, Option.bind_eq_bind, Option.bind_eq_some_iff,
        Option.some.injEq, Prod.mk.injEq] at hStep
      obtain ⟨value, _, rfl, rfl⟩ := hStep
      exact .inr ⟨rfl, by simp [serverPosts, hLabel, ServerLabel.unposted]⟩
  | read sector i | releaseSwitch =>
      simp only [Server.step, hLabel] at hStep
      split at hStep <;>
        · simp only [Option.some.injEq, Prod.mk.injEq] at hStep
          obtain ⟨rfl, rfl⟩ := hStep
          exact .inr ⟨rfl, by simp [serverPosts, hLabel, ServerLabel.unposted]⟩
  | done | exited => simp [Server.step, hLabel] at hStep

/-- Any account of the server after a step counts the same posts. -/
theorem ServerAt.serverPosts_step (hx : Coherent p g x) (h : ServerAt p g x b)
    (hx' : Coherent p g' x') (h' : ServerAt p g' x' b') (hClosed : g'.closed = g.closed)
    (c : Printer) (hStep : b.step p x = some (x', b')) :
    g'.serverPosts = g.serverPosts + SharedMemory.serverPosts ⟨x, c, b⟩ ⟨x', c, b'⟩ := by
  have hPosts := h.posts
  have hPosts' := h'.posts
  have hLow' := hx'.released_le
  have hHigh' := hx'.closed_le
  rw [hClosed] at hLow' hHigh'
  obtain ⟨new, hLabel, hNew, hNone, hUnposted'⟩ | ⟨hSame, hUnposted⟩ :=
    Server.step_unposted c hStep
  · have hWork := h.work (by simp [Server.HasWork, hLabel])
    have hCarries := h.carries
    rw [hLabel] at hCarries hPosts
    have hStatus : statusOf g.closed (g.released + 1) = statusOf g.closed g'.released := by
      rw [← hClosed, ← hx'.status, hNew, hClosed]
      exact hCarries.symm
    have hHigh := hx.closed_le
    have hReleased := statusOf_injective hWork (by omega) hLow' hHigh' hStatus
    rw [hUnposted', ← hReleased] at hPosts'
    simp only [ServerLabel.unposted, Bool.toNat_false, Bool.toNat_true] at hPosts hPosts'
    omega
  · have hStatus : statusOf g.closed g.released = statusOf g.closed g'.released := by
      rw [← hx.status, ← hSame, hx'.status, hClosed]
    have hReleased := statusOf_injective hx.released_le hx.closed_le hLow' hHigh' hStatus
    omega

/-- The first call connects, before any other. -/
def Printer.Connects (c : Printer) : Prop :=
  c.returned = [] ∧ (c.firstTime = true ∨ c.label = .connect) ∨
    ∃ r ∈ c.returned, r.first = true

theorem Printer.Connects.step {c c' : Printer} (hClient : PrinterAt p g x c) (h : c.Connects)
    {args : ShmCell} (hStep : c.step p args x = some (x', c')) : c'.Connects := by
  obtain ⟨hNone, hFirst⟩ | ⟨r, hMem, hFirst⟩ := h
  · rcases hFirst with hFirst | hLabel
    · have hLabel := (hClient.first hFirst).1
      simp only [Printer.step, hLabel, Option.some.injEq, Prod.mk.injEq] at hStep
      obtain ⟨rfl, rfl⟩ := hStep
      exact .inl ⟨hNone, .inr (if_pos hFirst)⟩
    · simp only [Printer.step, hLabel, Option.bind_eq_bind, Option.bind_eq_some_iff,
        Option.some.injEq, Prod.mk.injEq] at hStep
      obtain ⟨value, _, rfl, rfl⟩ := hStep
      exact .inr ⟨_, List.mem_append_right _ (List.mem_singleton.mpr rfl), rfl⟩
  · exact .inr ⟨r, (Printer.step_returned hStep).subset hMem, hFirst⟩

/-- One of the tokens was taken by the first call. -/
theorem Printer.Connects.lost_lt {c : Printer} (h : c.Connects) :
    c.lost = 0 ∨ c.lost + 1 ≤ c.tokensTaken := by
  obtain ⟨hNone, _⟩ | ⟨r, hMem, hFirst⟩ := h
  · exact .inl (by rw [Printer.lost, hNone]; rfl)
  · refine .inr ?_
    obtain ⟨before, after, hSplit⟩ := List.append_of_mem hMem
    have hLess (l : List ReturnedCall) :
        (l.countP fun r => !r.first && decide (r.currStatus = 3)) ≤ l.countP fun r => !r.kept := by
      refine List.countP_mono_left fun q _ hLost => ?_
      simp only [Bool.and_eq_true, decide_eq_true_eq] at hLost
      simp [ReturnedCall.kept, hLost.2]
    have hBefore := hLess before
    have hAfter := hLess after
    have hKept : r.kept = false := by simp [ReturnedCall.kept, hFirst]
    rw [Printer.lost, Printer.tokensTaken, hSplit]
    simp only [List.countP_append, List.countP_cons, hFirst, hKept]
    simp only [Bool.not_true, Bool.false_and, Bool.not_false, Bool.false_eq_true, if_true, if_false]
    omega

end Steps

/-- The tokens in and out of `serverRead_sem`, and what an account of the run says
of the posts. -/
structure TokensBalance (p : Setup) (posts : Nat) (s : System) : Prop where
  account : ∃ g, Coherent p g s.shared ∧ PrinterAt p g s.shared s.left ∧
    ServerAt p g s.shared s.right ∧ g.serverPosts = posts
  tokens : s.shared.serverRead + s.left.tokensTaken = posts + 1
  connects : s.left.Connects

theorem tokensBalance_of_run {p : Setup} {s : System} {posts : Nat}
    (run : RunsFor (ClientStep p) (ServerStep p) serverPosts (System.init p) s posts) :
    TokensBalance p posts s := by
  refine run.invariant (P := fun s posts => TokensBalance p posts s) .init ?_
    fun s s' posts hBefore h hStep => ?_
  · obtain ⟨g, hx, hClient, hServer⟩ := consistent_init p
    have hReleased := hx.released_le
    have hPosts := hServer.posts
    have hClosed : g.closed = 0 := by
      have hNone : g.closed * p.nData ≤ 0 := hx.closed_stored
      exact (Nat.mul_eq_zero.mp (Nat.le_zero.mp hNone)).resolve_right
        (Nat.ne_of_gt p.nData_pos)
    exact ⟨⟨g, hx, hClient, hServer, by omega⟩, rfl, .inl ⟨rfl, .inl rfl⟩⟩
  · obtain ⟨⟨g, hx, hClient, hServer, hPosts⟩, hTokens, hConnects⟩ := h
    cases hStep with
    | left b hLeft =>
        obtain ⟨args, hLeft⟩ := hLeft
        obtain ⟨g', hx', hClient', hMoves⟩ := hClient.step hx hLeft
        have hToken := (Printer.step_delivers (callLog_of_reachable hBefore).current hLeft).token
        rw [serverPosts_client, Nat.add_zero]
        exact ⟨⟨g', hx', hClient', hServer.stable hMoves, hMoves.serverPosts.trans hPosts⟩,
          hToken.trans hTokens, hConnects.step hClient hLeft⟩
    | right c hRight =>
        obtain ⟨g', hx', hServer', hMoves⟩ := hServer.step hx hRight
        have hCount := hServer.serverPosts_step hx hx' hServer' hMoves.closed c hRight
        obtain ⟨hToken, _⟩ := Server.step_tokens c hRight
        refine ⟨⟨g', hx', hClient.stable hMoves, hServer', hCount.trans (by rw [hPosts])⟩, ?_,
          hConnects⟩
        simp only at hTokens ⊢
        omega

/-- In every run the tokens taken and left are the posts of the server and the
one that it starts with. A call is lost only against a post, and for each post
the delivered branches have filled a sector; so of the delivered branches each
sector full costs at most one. -/
theorem lost_calls_bounded (p : Setup) {s : System} {posts : Nat}
    (run : RunsFor (ClientStep p) (ServerStep p) serverPosts (System.init p) s posts) :
    s.shared.serverRead + s.left.tokensTaken = posts + 1 ∧ s.left.lost ≤ posts ∧
      posts * p.nData ≤ s.left.delivered.length := by
  obtain ⟨⟨g, hx, _, hServer, hPosts⟩, hTokens, hConnects⟩ := tokensBalance_of_run run
  refine ⟨hTokens, ?_, ?_⟩
  · have hLost := hConnects.lost_lt
    omega
  · have hDelivered := delivered_of_reachable (run.reachable .init)
    have hReleased := hx.released_le
    have hPosted := hServer.posts
    calc posts * p.nData
        ≤ g.closed * p.nData := Nat.mul_le_mul_right _ (by omega)
      _ ≤ s.shared.stored.length := hx.closed_stored
      _ = s.left.delivered.length := by rw [← hDelivered, List.length_map]

/-- The helper fills both sectors and is called once more; the server releases a
sector. -/
def overrun : System :=
  ((System.init oneCell).play oneCell
    (List.replicate 33 (.client ⟨4, 8, 1⟩) ++ List.replicate 15 .server ++
      [.client ⟨4, 8, 1⟩])).get (by decide)

theorem lost_calls_bounded_overrun :
    overrun.left.lost = 1 ∧ overrun.left.delivered.length = 2 ∧
      ∃ posts, overrun.left.lost ≤ posts ∧ posts * 1 ≤ overrun.left.delivered.length := by
  have hReachable : Reachable oneCell overrun := Reachable.play .init (Option.some_get _).symm
  obtain ⟨posts, run⟩ := hReachable.runsFor serverPosts
  exact ⟨by decide, by decide, posts, (lost_calls_bounded oneCell run).2⟩

end BranchPrediction.SharedMemory
