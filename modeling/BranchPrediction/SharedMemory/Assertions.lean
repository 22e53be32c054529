import BranchPrediction.SharedMemory.System

/-! What ties the two processes together: the client has closed some sectors,
the server has released some of them, and `status` and both `nextTo` pointers
follow from these two numbers. Each process has its own assertions, which the
steps of the other one leave true. -/
namespace BranchPrediction.SharedMemory

inductive Side where
  | client
  | server
deriving DecidableEq

/-- Auxiliary variables of the proofs: the sectors closed and released, counted
at the write of `status`, the posts of the two semaphores, and the owner of the
mutex. -/
structure Ledger where
  closed : Nat
  released : Nat
  clientPosts : Nat
  serverPosts : Nat
  owner : Option Side

/-- The value of `status` when so many sectors were closed and released. -/
def statusOf (closed released : Nat) : Nat :=
  if closed = released then 0
  else if closed = released + 2 then 3
  else if released % 2 = 0 then 1 else 2

/-- The cell of the `k`-th store. -/
def addressOf (nData k : Nat) : CellAddress := ⟨k / nData % 2, k % nData⟩

/-- The shared state: what was stored and not yet released is in its cells. -/
structure Coherent (p : Setup) (g : Ledger) (x : Shared) : Prop where
  released_le : g.released ≤ g.closed
  closed_le : g.closed ≤ g.released + 2
  status : x.status = statusOf g.closed g.released
  mutex : x.statusMutex = if g.owner = none then 1 else 0
  clientPosted : g.owner ≠ some .client → g.closed = g.clientPosts
  serverPosted : g.owner ≠ some .server → g.released = g.serverPosts
  closed_stored : g.closed * p.nData ≤ x.stored.length
  address : ∀ k a c, x.stored[k]? = some (a, c) → a = addressOf p.nData k
  contents : ∀ k a c, x.stored[k]? = some (a, c) → g.released * p.nData ≤ k →
    x.cell a.sector a.index = c

section Labels

/-- The client owns the mutex. -/
def PrinterLabel.holds : PrinterLabel → Bool
  | .check | .unlock | .closeSwitch | .closeSide | .closeStatus _ | .closeToggle
  | .closeToggleWrite _ | .closePost | .closeUnlock => true
  | _ => false

/-- The last cell of a sector is stored, and `status` does not say so yet. -/
def PrinterLabel.closing : PrinterLabel → Bool
  | .closeLock | .closeSwitch | .closeSide | .closeStatus _ => true
  | _ => false

/-- `status` is ahead of `nextToWrite`. -/
def PrinterLabel.toggling : PrinterLabel → Bool
  | .closeToggle | .closeToggleWrite _ => true
  | _ => false

/-- `status` is ahead of `clientWrote_sem`. -/
def PrinterLabel.unposted : PrinterLabel → Bool
  | .closeToggle | .closeToggleWrite _ | .closePost => true
  | _ => false

/-- What a label promises apart from the mutex. -/
def PrinterLabel.flags (label : PrinterLabel) : Bool × Bool × Bool :=
  (label.toggling, label.unposted, label.closing)

/-- The call has seen a status other than 3 and not yet changed it. -/
def Printer.HasRoom (c : Printer) : Prop :=
  match c.label with
  | .unlock => c.currStatus ≠ 3
  | .pick | .store _ | .closeLock | .closeSwitch | .closeSide | .closeStatus _ => True
  | _ => False

/-- The call has seen status 3. -/
def Printer.SawFull (c : Printer) : Prop :=
  match c.label with
  | .unlock => c.currStatus = 3
  | .full => True
  | _ => False

/-- The values that a step has put into the label. -/
def PrinterLabel.Carries (g : Ledger) (x : Shared) : PrinterLabel → Prop
  | .connect => 0 < x.serverRead
  | .store sector => sector = g.closed % 2
  | .closeSide => g.closed = g.released
  | .closeStatus newStatus => newStatus = statusOf (g.closed + 1) g.released
  | .closeToggleWrite side => side = x.nextToWrite
  | .exited => False
  | _ => True

/-- The server owns the mutex. -/
def ServerLabel.holds : ServerLabel → Bool
  | .check | .unlock | .releaseSwitch | .releaseSide | .releaseStatus _ | .releaseToggle
  | .releaseToggleWrite _ | .releasePost | .releaseUnlock => true
  | _ => false

/-- `status` is ahead of `nextToRead`. -/
def ServerLabel.toggling : ServerLabel → Bool
  | .releaseToggle | .releaseToggleWrite _ => true
  | _ => false

/-- `status` is ahead of `serverRead_sem`. -/
def ServerLabel.unposted : ServerLabel → Bool
  | .releaseToggle | .releaseToggleWrite _ | .releasePost => true
  | _ => false

/-- What a label promises apart from the mutex. -/
def ServerLabel.flags (label : ServerLabel) : Bool × Bool := (label.toggling, label.unposted)

/-- The round has seen a status other than 0 and not yet changed it. -/
def Server.HasWork (s : Server) : Prop :=
  match s.label with
  | .unlock => s.currStatus ≠ 0
  | .pick | .read _ _ | .releaseLock | .releaseSwitch | .releaseSide | .releaseStatus _ => True
  | _ => False

/-- The round has seen status 0. -/
def Server.SawEmpty (s : Server) : Prop :=
  match s.label with
  | .unlock => s.currStatus = 0
  | .empty => True
  | _ => False

def ServerLabel.Carries (p : Setup) (g : Ledger) (x : Shared) : ServerLabel → Prop
  | .read sector i => sector = g.released % 2 ∧ i ≤ p.nData
  | .releaseSide => g.closed = g.released + 2
  | .releaseStatus newStatus => newStatus = statusOf g.closed (g.released + 1)
  | .releaseToggleWrite side => side = x.nextToRead
  | .exited => False
  | _ => True

/-- How many cells were fed, while the server has not had enough. -/
def ServerLabel.position (nData released : Nat) : ServerLabel → Nat
  | .read _ i => released * nData + i
  | .releaseLock | .releaseSwitch | .releaseSide | .releaseStatus _ => (released + 1) * nData
  | _ => released * nData

end Labels

/-- What the client knows. -/
structure PrinterAt (p : Setup) (g : Ledger) (x : Shared) (c : Printer) : Prop where
  holds : c.label.holds = true ↔ g.owner = some .client
  nextToWrite : x.nextToWrite = (g.closed + c.label.toggling.toNat) % 2
  posts : g.closed = g.clientPosts + c.label.unposted.toNat
  room : c.HasRoom → g.closed ≤ g.released + 1
  full : c.SawFull → x.serverRead = 0 → g.closed = g.serverPosts + 2
  cnt_lt : c.cnt < p.nData
  stored : x.stored.length = (g.closed + c.label.closing.toNat) * p.nData + c.cnt
  first : c.firstTime = true → c.label = .idle ∧ 0 < x.serverRead
  carries : c.label.Carries g x

/-- The records made of the cells, with the random numbers of their updates. -/
def recordsOf (p : Setup) (cells : List ShmCell) : List Tage.Record :=
  cells.mapIdx fun n c => c.record (p.rand n)

/-- What the server knows. -/
structure ServerAt (p : Setup) (g : Ledger) (x : Shared) (s : Server) : Prop where
  holds : s.label.holds = true ↔ g.owner = some .server
  nextToRead : x.nextToRead = (g.released + s.label.toggling.toNat) % 2
  posts : g.released = g.serverPosts + s.label.unposted.toNat
  work : s.HasWork → g.released + 1 ≤ g.closed
  empty : s.SawEmpty → x.clientWrote = 0 → g.clientPosts = g.released
  progress : s.Continues p → s.fed.length = s.label.position p.nData g.released
  fed : s.fed <+: x.stored.map Prod.snd
  iCount : s.session.iCount = s.fed.length
  session : s.session = Tage.mainLoop p.desiredIstr Tage.Session.init (recordsOf p s.fed)
  carries : s.label.Carries p g x

/-- What a step of the client may do to the server. -/
structure ClientMoves (g : Ledger) (x : Shared) (g' : Ledger) (x' : Shared) : Prop where
  released : g'.released = g.released
  serverPosts : g'.serverPosts = g.serverPosts
  closed : g.closed ≤ g'.closed
  owner : g'.owner = some .server ↔ g.owner = some .server
  locked : g.owner = some .server → g'.closed = g.closed
  nextToRead : x'.nextToRead = x.nextToRead
  wakes : x'.clientWrote = 0 → x.clientWrote = 0 ∧ g'.clientPosts = g.clientPosts
  stored : x.stored <+: x'.stored

/-- What a step of the server may do to the client. -/
structure ServerMoves (g : Ledger) (x : Shared) (g' : Ledger) (x' : Shared) : Prop where
  closed : g'.closed = g.closed
  clientPosts : g'.clientPosts = g.clientPosts
  released : g.released ≤ g'.released
  owner : g'.owner = some .client ↔ g.owner = some .client
  locked : g.owner = some .client → g'.released = g.released
  nextToWrite : x'.nextToWrite = x.nextToWrite
  wakes : x'.serverRead = 0 → x.serverRead = 0 ∧ g'.serverPosts = g.serverPosts
  stored : x'.stored = x.stored

theorem ClientMoves.refl (g : Ledger) (x : Shared) : ClientMoves g x g x :=
  ⟨rfl, rfl, Nat.le_refl _, Iff.rfl, fun _ => rfl, rfl, fun h => ⟨h, rfl⟩, List.prefix_rfl⟩

theorem ServerMoves.refl (g : Ledger) (x : Shared) : ServerMoves g x g x :=
  ⟨rfl, rfl, Nat.le_refl _, Iff.rfl, fun _ => rfl, rfl, fun h => ⟨h, rfl⟩, rfl⟩

/-- The assertions about the client survive the steps of the server. -/
theorem PrinterAt.stable {p : Setup} {g g' : Ledger} {x x' : Shared} {c : Printer}
    (hMoves : ServerMoves g x g' x') (h : PrinterAt p g x c) :
    PrinterAt p g' x' c where
  holds := h.holds.trans hMoves.owner.symm
  nextToWrite := by rw [hMoves.nextToWrite, hMoves.closed, h.nextToWrite]
  posts := by rw [hMoves.closed, hMoves.clientPosts, ← h.posts]
  room := fun hRoom => by
    have hOld := h.room hRoom
    have hLater := hMoves.released
    rw [hMoves.closed]
    omega
  full := fun hFull hZero => by
    obtain ⟨hOld, hPosts⟩ := hMoves.wakes hZero
    rw [hMoves.closed, hPosts]
    exact h.full hFull hOld
  cnt_lt := h.cnt_lt
  stored := by rw [hMoves.stored, hMoves.closed, h.stored]
  first := fun hFirst => by
    obtain ⟨hIdle, hToken⟩ := h.first hFirst
    exact ⟨hIdle, Nat.pos_of_ne_zero fun hZero => Nat.ne_of_gt hToken (hMoves.wakes hZero).1⟩
  carries := by
    have hCarries := h.carries
    have hOwner := h.holds
    cases hLabel : c.label <;> rw [hLabel] at hCarries hOwner <;>
      simp only [PrinterLabel.Carries] at hCarries ⊢
    case connect =>
      exact Nat.pos_of_ne_zero fun hZero => Nat.ne_of_gt hCarries (hMoves.wakes hZero).1
    case store => rw [hMoves.closed, hCarries]
    case closeSide =>
      rw [hMoves.closed, hMoves.locked (hOwner.mp rfl), hCarries]
    case closeStatus =>
      rw [hMoves.closed, hMoves.locked (hOwner.mp rfl), hCarries]
    case closeToggleWrite => rw [hMoves.nextToWrite, hCarries]

/-- The assertions about the server survive the steps of the client. -/
theorem ServerAt.stable {p : Setup} {g g' : Ledger} {x x' : Shared} {s : Server}
    (hMoves : ClientMoves g x g' x') (h : ServerAt p g x s) : ServerAt p g' x' s where
  holds := h.holds.trans hMoves.owner.symm
  nextToRead := by rw [hMoves.nextToRead, hMoves.released, h.nextToRead]
  posts := by rw [hMoves.released, hMoves.serverPosts, ← h.posts]
  work := fun hWork => by
    have hOld := h.work hWork
    have hLater := hMoves.closed
    rw [hMoves.released]
    omega
  empty := fun hEmpty hZero => by
    obtain ⟨hOld, hPosts⟩ := hMoves.wakes hZero
    rw [hMoves.released, hPosts]
    exact h.empty hEmpty hOld
  progress := by
    rw [hMoves.released]
    exact h.progress
  fed := h.fed.trans (hMoves.stored.map _)
  iCount := h.iCount
  session := h.session
  carries := by
    have hCarries := h.carries
    have hOwner := h.holds
    cases hLabel : s.label <;> rw [hLabel] at hCarries hOwner <;>
      simp only [ServerLabel.Carries] at hCarries ⊢
    case read => rwa [hMoves.released]
    case releaseSide =>
      rw [hMoves.released, hMoves.locked (hOwner.mp rfl), hCarries]
    case releaseStatus =>
      rw [hMoves.released, hMoves.locked (hOwner.mp rfl), hCarries]
    case releaseToggleWrite => rw [hMoves.nextToRead, hCarries]

end BranchPrediction.SharedMemory
