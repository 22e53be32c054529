import BranchPrediction.SharedMemory.ClientSteps

/-! Every step of the server keeps the shared state coherent and its own
assertions true, and does to the client no more than `ServerMoves` says. -/
namespace BranchPrediction.SharedMemory

theorem prefix_concat_of_getElem? {α : Type*} {l all : List α} {a : α} (hPrefix : l <+: all)
    (hNext : all[l.length]? = some a) : l ++ [a] <+: all := by
  obtain ⟨rest, rfl⟩ := hPrefix
  rw [List.getElem?_append_right (Nat.le_refl _), Nat.sub_self] at hNext
  cases rest with
  | nil => simp at hNext
  | cons b rest =>
      obtain rfl : b = a := by simpa using hNext
      exact ⟨rest, by simp⟩

theorem recordsOf_concat (p : Setup) (cells : List ShmCell) (c : ShmCell) :
    recordsOf p (cells ++ [c]) = recordsOf p cells ++ [c.record (p.rand cells.length)] :=
  List.mapIdx_concat

variable {p : Setup} {g : Ledger} {x : Shared}

/-- The cell that the server reads holds the store of that number. -/
theorem Coherent.read (hx : Coherent p g x) (hWork : g.released + 1 ≤ g.closed) {i : Nat}
    (hi : i < p.nData) :
    (x.stored.map Prod.snd)[g.released * p.nData + i]? = some (x.cell (g.released % 2) i) := by
  have hMul := Nat.mul_le_mul_right p.nData hWork
  rw [Nat.add_mul, Nat.one_mul] at hMul
  have hLess : g.released * p.nData + i < x.stored.length := by
    have hStored := hx.closed_stored
    omega
  obtain ⟨a, c, hGet⟩ := Shared.exists_stored hLess
  have hAddress := hx.address _ a c hGet
  rw [addressOf_add hi] at hAddress
  have hCell := hx.contents _ a c hGet (Nat.le_add_right _ _)
  rw [hAddress] at hCell
  rw [List.getElem?_map, hGet, hCell]
  rfl

namespace ServerAt

variable {s : Server}

/-- The state that a step of the server leaves. -/
def Leads (p : Setup) (g : Ledger) (x x' : Shared) (s' : Server) : Prop :=
  ∃ g', Coherent p g' x' ∧ ServerAt p g' x' s' ∧ ServerMoves g x g' x'

/-- The assertions at a known label. -/
theorem facts (h : ServerAt p g x s) {label : ServerLabel} (hLabel : s.label = label) :
    (label.holds = true ↔ g.owner = some .server) ∧
      x.nextToRead = (g.released + label.toggling.toNat) % 2 ∧
        g.released = g.serverPosts + label.unposted.toNat ∧
          (s.Continues p → s.fed.length = label.position p.nData g.released) ∧
            label.Carries p g x := by
  subst label
  exact ⟨h.holds, h.nextToRead, h.posts, h.progress, h.carries⟩

/-- A new label that makes the same promises, with another value and owner of the
mutex. -/
theorem relabel (h : ServerAt p g x s) (value : Nat) (owner : Option Side) {s' : Server}
    (hHolds : s'.label.holds = true ↔ owner = some .server) (hFed : s'.fed = s.fed)
    (hSession : s'.session = s.session) (hFlags : s'.label.flags = s.label.flags)
    (hWork : s'.HasWork → g.released + 1 ≤ g.closed)
    (hEmpty : s'.SawEmpty → x.clientWrote = 0 → g.clientPosts = g.released)
    (hProgress : s.Continues p → s.fed.length = s'.label.position p.nData g.released)
    (hCarries : s'.label.Carries p { g with owner := owner } { x with statusMutex := value }) :
    ServerAt p { g with owner := owner } { x with statusMutex := value } s' where
  holds := hHolds
  nextToRead := by rw [(Prod.mk.inj hFlags).1]; exact h.nextToRead
  posts := by rw [(Prod.mk.inj hFlags).2]; exact h.posts
  work := hWork
  empty := hEmpty
  progress := by
    rw [hFed, Server.Continues, hSession]
    exact hProgress
  fed := by rw [hFed]; exact h.fed
  iCount := by rw [hFed, hSession]; exact h.iCount
  session := by rw [hFed, hSession]; exact h.session
  carries := hCarries

/-- A step that reads the shared state and changes none of it. -/
theorem leads_local (hx : Coherent p g x) (h : ServerAt p g x s) {s' : Server}
    (hFed : s'.fed = s.fed) (hSession : s'.session = s.session)
    (hHolds : s'.label.holds = s.label.holds) (hFlags : s'.label.flags = s.label.flags)
    (hWork : s'.HasWork → g.released + 1 ≤ g.closed)
    (hEmpty : s'.SawEmpty → x.clientWrote = 0 → g.clientPosts = g.released)
    (hProgress : s.Continues p → s.fed.length = s'.label.position p.nData g.released)
    (hCarries : s'.label.Carries p g x) : Leads p g x x s' :=
  ⟨g, hx, h.relabel x.statusMutex g.owner (by rw [hHolds, h.holds]) hFed hSession hFlags hWork
    hEmpty hProgress hCarries, ServerMoves.refl g x⟩

theorem leads_lock (hx : Coherent p g x) {value : Nat} (hWait : semWait x.statusMutex = some value)
    {s' : Server} (h : ServerAt p { g with owner := some .server } { x with statusMutex := 0 } s') :
    Leads p g x { x with statusMutex := value } s' := by
  obtain ⟨rfl, hOwner⟩ := hx.statusMutex_pos hWait
  refine ⟨_, hx.acquire hOwner .server, h, { ServerMoves.refl g x with owner := ?_, locked := ?_ }⟩
  · simp [hOwner]
  · simp [hOwner]

theorem leads_unlock (hx : Coherent p g x) (hOwner : g.owner = some .server) {s' : Server}
    (hUnposted : s'.label.unposted = false)
    (h : ServerAt p { g with owner := none } { x with statusMutex := x.statusMutex + 1 } s') :
    Leads p g x { x with statusMutex := x.statusMutex + 1 } s' := by
  have hServer : g.released = g.serverPosts := by
    have hPosts := h.posts
    rwa [hUnposted, Bool.toNat_false, Nat.add_zero] at hPosts
  have hClient := hx.clientPosted (by simp [hOwner])
  refine ⟨_, hx.release hOwner hClient hServer, h,
    { ServerMoves.refl g x with owner := ?_, locked := ?_ }⟩
  · simp [hOwner]
  · simp [hOwner]

/-- What the read of `status` tells the server: the client, which does not own the
mutex, has posted for every sector that it closed. -/
theorem leads_check (hx : Coherent p g x) (h : ServerAt p g x s) (hLabel : s.label = .check) :
    Leads p g x x { s with label := .unlock, currStatus := x.status } := by
  have hOwner : g.owner = some .server := h.holds.mp (by rw [hLabel]; rfl)
  have hClient := hx.clientPosted (by simp [hOwner])
  have hProgress := h.progress
  have hStatus := hx.status
  rw [hLabel] at hProgress
  obtain ⟨hSame, hZero⟩ | ⟨hOne, hEither⟩ | ⟨hTwo, hThree⟩ :=
    statusOf_cases hx.released_le hx.closed_le
  all_goals
    refine h.leads_local hx rfl rfl (by rw [hLabel]; rfl) (by rw [hLabel]; rfl) ?_ ?_ hProgress
      trivial
  all_goals
    simp only [Server.HasWork, Server.SawEmpty, hStatus]
    omega

theorem leads_wait (hx : Coherent p g x) (h : ServerAt p g x s) (hLabel : s.label = .empty)
    (value : Nat) : Leads p g x { x with clientWrote := value } { s with label := .loopTest } := by
  obtain ⟨hHolds, hNextToRead, hPosts, hProgress, _⟩ := h.facts hLabel
  refine ⟨g, { hx with }, ?_, { ServerMoves.refl g x with }⟩
  exact
    { h with
      holds := hHolds
      nextToRead := hNextToRead
      posts := hPosts
      work := fun hWork => hWork.elim
      empty := fun hEmpty => hEmpty.elim
      progress := hProgress
      carries := trivial }

/-- The inner loop: the cell is the next one that the client stored. -/
theorem leads_read (hx : Coherent p g x) (h : ServerAt p g x s) {sector i : Nat}
    (hLabel : s.label = .read sector i) (hi : i < p.nData) (hMore : s.Continues p) :
    Leads p g x x { s.feed p (x.cell sector i) with label := .read sector (i + 1) } := by
  obtain ⟨hHolds, hNextToRead, hPosts, hProgress, hCarries⟩ := h.facts hLabel
  have hWork := h.work (by simp [Server.HasWork, hLabel])
  have hFed : s.fed.length = g.released * p.nData + i := hProgress hMore
  obtain ⟨rfl, _⟩ : sector = g.released % 2 ∧ i ≤ p.nData := hCarries
  have hCell := hx.read hWork hi
  rw [← hFed] at hCell
  refine ⟨g, hx, ?_, ServerMoves.refl g x⟩
  exact
    { holds := hHolds
      nextToRead := hNextToRead
      posts := hPosts
      work := fun _ => hWork
      empty := fun hEmpty => hEmpty.elim
      progress := fun _ => by
        simp only [Server.feed, List.length_append, List.length_singleton, hFed,
          ServerLabel.position]
        omega
      fed := prefix_concat_of_getElem? h.fed hCell
      iCount := by
        simp only [Server.feed, Tage.Session.consume, h.iCount, List.length_append,
          List.length_singleton]
      session := by
        have hBelow := hMore
        rw [Server.Continues, h.session] at hBelow
        simp only [Server.feed]
        rw [recordsOf_concat, Tage.mainLoop_concat _ hBelow, ← h.session, h.iCount]
      carries := ⟨rfl, hi⟩ }

/-- The end of the inner loop. -/
theorem leads_readEnd (hx : Coherent p g x) (h : ServerAt p g x s) {sector i : Nat}
    (hLabel : s.label = .read sector i) (hEnd : ¬ (i < p.nData ∧ s.Continues p)) :
    Leads p g x x { s with label := .releaseLock } := by
  obtain ⟨_, _, _, hProgress, hCarries⟩ := h.facts hLabel
  obtain ⟨_, hi⟩ : sector = g.released % 2 ∧ i ≤ p.nData := hCarries
  have hWork := h.work (by simp [Server.HasWork, hLabel])
  refine h.leads_local hx rfl rfl (by rw [hLabel]; rfl) (by rw [hLabel]; rfl)
    (fun _ => hWork) (fun hEmpty => hEmpty.elim) (fun hMore => ?_) trivial
  have hLast : i = p.nData := by
    by_contra hNot
    exact hEnd ⟨by omega, hMore⟩
  rw [hProgress hMore, hLast]
  simp only [ServerLabel.position, Nat.add_mul, Nat.one_mul]

/-- The case of the switch that fits the status; the default is not taken. -/
theorem leads_releaseSwitch (hx : Coherent p g x) (h : ServerAt p g x s)
    (hLabel : s.label = .releaseSwitch) {s' : Server} (hStep : s.step p x = some (x, s')) :
    Leads p g x x s' := by
  have hWork := h.work (by simp [Server.HasWork, hLabel])
  have hProgress := h.progress
  have hStatus := hx.status
  rw [hLabel] at hProgress
  obtain ⟨hSame, _⟩ | ⟨hOne, hEither⟩ | ⟨hTwo, hThree⟩ :=
    statusOf_cases hx.released_le hx.closed_le
  · omega
  · have hZero : 0 = statusOf g.closed (g.released + 1) := by
      rw [hOne, statusOf_self]
    have hNext : s' = { s with label := .releaseStatus 0 } := by
      rcases hEither with hCase | hCase <;>
        simp only [Server.step, hLabel, hStatus, hCase, Option.some.injEq, Prod.mk.injEq,
          true_and] at hStep <;>
        exact hStep.symm
    subst s'
    exact h.leads_local hx rfl rfl (by rw [hLabel]; rfl) (by rw [hLabel]; rfl) (fun _ => hWork)
      (fun hEmpty => hEmpty.elim) hProgress hZero
  · simp only [Server.step, hLabel, hStatus, hThree, Option.some.injEq, Prod.mk.injEq,
      true_and] at hStep
    subst s'
    exact h.leads_local hx rfl rfl (by rw [hLabel]; rfl) (by rw [hLabel]; rfl) (fun _ => hWork)
      (fun hEmpty => hEmpty.elim) hProgress hTwo

/-- In case 3 the sector that is still full is the other one. -/
theorem leads_releaseSide (hx : Coherent p g x) (h : ServerAt p g x s)
    (hLabel : s.label = .releaseSide) :
    Leads p g x x { s with label := .releaseStatus (if x.nextToRead = 0 then 2 else 1) } := by
  obtain ⟨_, hNextToRead, _, hProgress, hTwo⟩ := h.facts hLabel
  have hClosed : g.closed = g.released + 1 + 1 := hTwo
  have hSide : x.nextToRead = g.released % 2 := hNextToRead
  have hNew : (if x.nextToRead = 0 then 2 else 1) = statusOf g.closed (g.released + 1) := by
    rw [hClosed, statusOf_one, hSide]
    split_ifs <;> omega
  exact h.leads_local hx rfl rfl (by rw [hLabel]; rfl) (by rw [hLabel]; rfl)
    (fun _ => h.work (by simp [Server.HasWork, hLabel])) (fun hEmpty => hEmpty.elim) hProgress hNew

/-- The write of `status` releases a sector. -/
theorem leads_releaseStatus (hx : Coherent p g x) (h : ServerAt p g x s) {newStatus : Nat}
    (hLabel : s.label = .releaseStatus newStatus) :
    Leads p g x { x with status := newStatus } { s with label := .releaseToggle } := by
  obtain ⟨hHolds, hNextToRead, hPosts, hProgress, hStatus⟩ := h.facts hLabel
  have hWork := h.work (by simp [Server.HasWork, hLabel])
  have hClosed := hx.closed_le
  obtain rfl : newStatus = statusOf g.closed (g.released + 1) := hStatus
  have hOwner : g.owner = some .server := hHolds.mp rfl
  refine ⟨{ g with released := g.released + 1 },
    { hx with
      released_le := hWork
      closed_le := by simp only; omega
      status := rfl
      serverPosted := fun hNot => absurd hOwner hNot
      contents := fun k a c hGet hLive => hx.contents k a c hGet
        ((Nat.mul_le_mul_right _ (Nat.le_succ _)).trans hLive) }, ?_,
    { ServerMoves.refl g x with
      released := Nat.le_succ _
      locked := by simp [hOwner] }⟩
  exact
    { h with
      holds := hHolds
      nextToRead := by
        have hOld : x.nextToRead = g.released % 2 := hNextToRead
        simp only [ServerLabel.toggling, Bool.toNat_true]
        omega
      posts := by
        have hOld : g.released = g.serverPosts := hPosts
        simp only [ServerLabel.unposted, Bool.toNat_true]
        omega
      work := fun hWork => hWork.elim
      empty := fun hEmpty => hEmpty.elim
      progress := hProgress
      carries := trivial }

theorem leads_releaseToggleWrite (hx : Coherent p g x) (h : ServerAt p g x s) {side : Nat}
    (hLabel : s.label = .releaseToggleWrite side) :
    Leads p g x { x with nextToRead := side ^^^ 1 } { s with label := .releasePost } := by
  obtain ⟨hHolds, hNextToRead, hPosts, hProgress, hSide⟩ := h.facts hLabel
  obtain rfl : side = x.nextToRead := hSide
  refine ⟨g, { hx with }, ?_, { ServerMoves.refl g x with }⟩
  exact
    { h with
      holds := hHolds
      nextToRead := by
        have hOld : x.nextToRead = (g.released + 1) % 2 := hNextToRead
        simp only [hOld, xor_one_mod_two, ServerLabel.toggling, Bool.toNat_false]
        omega
      posts := hPosts
      work := fun hWork => hWork.elim
      empty := fun hEmpty => hEmpty.elim
      progress := hProgress
      carries := trivial }

theorem leads_releasePost (hx : Coherent p g x) (h : ServerAt p g x s)
    (hLabel : s.label = .releasePost) :
    Leads p g x { x with serverRead := x.serverRead + 1 } { s with label := .releaseUnlock } := by
  obtain ⟨hHolds, hNextToRead, hPosts, hProgress, _⟩ := h.facts hLabel
  have hOwner : g.owner = some .server := hHolds.mp rfl
  refine ⟨{ g with serverPosts := g.serverPosts + 1 },
    { hx with serverPosted := fun hNot => absurd hOwner hNot }, ?_,
    { ServerMoves.refl g x with wakes := by simp }⟩
  exact
    { h with
      holds := hHolds
      nextToRead := hNextToRead
      posts := hPosts
      work := fun hWork => hWork.elim
      empty := fun hEmpty => hEmpty.elim
      progress := hProgress
      carries := trivial }

/-- Every step of the server. -/
theorem step (hx : Coherent p g x) (h : ServerAt p g x s) {x' : Shared} {s' : Server}
    (hStep : s.step p x = some (x', s')) : Leads p g x x' s' := by
  have hWork := h.work
  have hEmpty := h.empty
  have hProgress := h.progress
  cases hLabel : s.label with
  | loopTest =>
      simp only [Server.step, hLabel, Option.some.injEq, Prod.mk.injEq] at hStep
      obtain ⟨rfl, rfl⟩ := hStep
      rw [hLabel] at hProgress
      by_cases hMore : s.Continues p
      · rw [if_pos hMore]
        exact h.leads_local hx rfl rfl (by rw [hLabel]; rfl) (by rw [hLabel]; rfl)
          (fun hWork => hWork.elim) (fun hEmpty => hEmpty.elim) hProgress
          trivial
      · rw [if_neg hMore]
        exact h.leads_local hx rfl rfl (by rw [hLabel]; rfl) (by rw [hLabel]; rfl)
          (fun hWork => hWork.elim) (fun hEmpty => hEmpty.elim) hProgress
          trivial
  | lock =>
      simp only [Server.step, hLabel, Option.bind_eq_bind, Option.bind_eq_some_iff,
        Option.some.injEq, Prod.mk.injEq] at hStep
      obtain ⟨value, hWait, rfl, rfl⟩ := hStep
      rw [hLabel] at hProgress
      exact leads_lock hx hWait (h.relabel 0 _ (by simp [ServerLabel.holds]) rfl rfl
        (by rw [hLabel]; rfl) (fun hWork => hWork.elim)
        (fun hEmpty => hEmpty.elim) hProgress trivial)
  | check =>
      simp only [Server.step, hLabel, Option.some.injEq, Prod.mk.injEq] at hStep
      obtain ⟨rfl, rfl⟩ := hStep
      exact h.leads_check hx hLabel
  | unlock =>
      simp only [Server.step, hLabel, Option.some.injEq, Prod.mk.injEq] at hStep
      obtain ⟨rfl, rfl⟩ := hStep
      have hOwner : g.owner = some .server := h.holds.mp (by rw [hLabel]; rfl)
      simp only [Server.HasWork, Server.SawEmpty, hLabel] at hWork hEmpty
      rw [hLabel] at hProgress
      by_cases hZero : s.currStatus = 0
      · rw [if_pos hZero]
        exact leads_unlock hx hOwner rfl (h.relabel _ none (by simp [ServerLabel.holds]) rfl rfl
          (by rw [hLabel]; rfl) (fun hWork => hWork.elim)
          (fun _ => hEmpty hZero) hProgress trivial)
      · rw [if_neg hZero]
        exact leads_unlock hx hOwner rfl (h.relabel _ none (by simp [ServerLabel.holds]) rfl rfl
          (by rw [hLabel]; rfl) (fun _ => hWork hZero)
          (fun hEmpty => hEmpty.elim) hProgress trivial)
  | empty =>
      simp only [Server.step, hLabel, Option.bind_eq_bind, Option.bind_eq_some_iff,
        Option.some.injEq, Prod.mk.injEq] at hStep
      obtain ⟨value, _, rfl, rfl⟩ := hStep
      exact h.leads_wait hx hLabel value
  | pick =>
      simp only [Server.step, hLabel, Option.some.injEq, Prod.mk.injEq] at hStep
      obtain ⟨rfl, rfl⟩ := hStep
      have hSector : (if x.nextToRead = 0 then 0 else 1) = g.released % 2 := by
        have hNextToRead := h.nextToRead
        rw [hLabel] at hNextToRead
        simp only [ServerLabel.toggling, Bool.toNat_false] at hNextToRead
        split_ifs <;> omega
      simp only [Server.HasWork, hLabel] at hWork
      rw [hLabel] at hProgress
      exact h.leads_local hx rfl rfl (by rw [hLabel]; rfl) (by rw [hLabel]; rfl) hWork
        (fun hEmpty => hEmpty.elim) hProgress ⟨hSector, Nat.zero_le _⟩
  | read sector i =>
      simp only [Server.step, hLabel] at hStep
      by_cases hMore : i < p.nData ∧ s.Continues p
      · rw [if_pos hMore, Option.some.injEq, Prod.mk.injEq] at hStep
        obtain ⟨rfl, rfl⟩ := hStep
        exact h.leads_read hx hLabel hMore.1 hMore.2
      · rw [if_neg hMore, Option.some.injEq, Prod.mk.injEq] at hStep
        obtain ⟨rfl, rfl⟩ := hStep
        exact h.leads_readEnd hx hLabel hMore
  | releaseLock =>
      simp only [Server.step, hLabel, Option.bind_eq_bind, Option.bind_eq_some_iff,
        Option.some.injEq, Prod.mk.injEq] at hStep
      obtain ⟨value, hWait, rfl, rfl⟩ := hStep
      simp only [Server.HasWork, hLabel] at hWork
      rw [hLabel] at hProgress
      exact leads_lock hx hWait (h.relabel 0 _ (by simp [ServerLabel.holds]) rfl rfl
        (by rw [hLabel]; rfl) hWork (fun hEmpty => hEmpty.elim) hProgress
        trivial)
  | releaseSwitch =>
      have hSame : x' = x := by
        simp only [Server.step, hLabel] at hStep
        split at hStep <;>
          · simp only [Option.some.injEq, Prod.mk.injEq] at hStep
            exact hStep.1.symm
      subst x'
      exact h.leads_releaseSwitch hx hLabel hStep
  | releaseSide =>
      simp only [Server.step, hLabel, Option.some.injEq, Prod.mk.injEq] at hStep
      obtain ⟨rfl, rfl⟩ := hStep
      exact h.leads_releaseSide hx hLabel
  | releaseStatus newStatus =>
      simp only [Server.step, hLabel, Option.some.injEq, Prod.mk.injEq] at hStep
      obtain ⟨rfl, rfl⟩ := hStep
      exact h.leads_releaseStatus hx hLabel
  | releaseToggle =>
      simp only [Server.step, hLabel, Option.some.injEq, Prod.mk.injEq] at hStep
      obtain ⟨rfl, rfl⟩ := hStep
      rw [hLabel] at hProgress
      exact h.leads_local hx rfl rfl (by rw [hLabel]; rfl) (by rw [hLabel]; rfl)
        (fun hWork => hWork.elim) (fun hEmpty => hEmpty.elim) hProgress rfl
  | releaseToggleWrite side =>
      simp only [Server.step, hLabel, Option.some.injEq, Prod.mk.injEq] at hStep
      obtain ⟨rfl, rfl⟩ := hStep
      exact h.leads_releaseToggleWrite hx hLabel
  | releasePost =>
      simp only [Server.step, hLabel, Option.some.injEq, Prod.mk.injEq] at hStep
      obtain ⟨rfl, rfl⟩ := hStep
      exact h.leads_releasePost hx hLabel
  | releaseUnlock =>
      simp only [Server.step, hLabel, Option.some.injEq, Prod.mk.injEq] at hStep
      obtain ⟨rfl, rfl⟩ := hStep
      have hOwner : g.owner = some .server := h.holds.mp (by rw [hLabel]; rfl)
      rw [hLabel] at hProgress
      exact leads_unlock hx hOwner rfl (h.relabel _ none (by simp [ServerLabel.holds]) rfl rfl
        (by rw [hLabel]; rfl) (fun hWork => hWork.elim)
        (fun hEmpty => hEmpty.elim) hProgress trivial)
  | done => simp [Server.step, hLabel] at hStep
  | exited => simp [Server.step, hLabel] at hStep

end ServerAt

end BranchPrediction.SharedMemory
