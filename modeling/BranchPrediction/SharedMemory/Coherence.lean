import BranchPrediction.SharedMemory.ServerSteps

/-! Safety of every interleaving: the sectors are exclusive, `status` and the
two pointers agree, and the server is fed what the client stored, in order. -/
namespace BranchPrediction.SharedMemory

/-- The assertions hold together in some account of the run so far. -/
def Consistent (p : Setup) (s : System) : Prop :=
  ∃ g, Coherent p g s.shared ∧ PrinterAt p g s.shared s.left ∧ ServerAt p g s.shared s.right

def Ledger.init : Ledger :=
  { closed := 0, released := 0, clientPosts := 0, serverPosts := 0, owner := none }

theorem consistent_init (p : Setup) : Consistent p (System.init p) := by
  refine ⟨Ledger.init, ?_, ?_, ?_⟩
  · exact
      { released_le := Nat.le_refl _
        closed_le := Nat.zero_le _
        status := rfl
        mutex := rfl
        clientPosted := fun _ => rfl
        serverPosted := fun _ => rfl
        closed_stored := by simp [Ledger.init]
        address := by simp [System.init, Shared.init]
        contents := by simp [System.init, Shared.init] }
  · exact
      { holds := by simp [System.init, Printer.init, PrinterLabel.holds, Ledger.init]
        nextToWrite := rfl
        posts := rfl
        room := fun hRoom => hRoom.elim
        full := fun hFull => hFull.elim
        cnt_lt := p.nData_pos
        stored := by
          simp [System.init, Printer.init, Shared.init, PrinterLabel.closing, Ledger.init]
        first := fun _ => ⟨rfl, Nat.zero_lt_one⟩
        carries := trivial }
  · exact
      { holds := by simp [System.init, Server.init, ServerLabel.holds, Ledger.init]
        nextToRead := rfl
        posts := rfl
        work := fun hWork => hWork.elim
        empty := fun hEmpty => hEmpty.elim
        progress := fun _ => by
          simp [System.init, Server.init, ServerLabel.position, Ledger.init]
        fed := List.nil_prefix
        iCount := rfl
        session := rfl
        carries := trivial }

theorem consistent_of_reachable {p : Setup} {s : System} (hReachable : Reachable p s) :
    Consistent p s :=
  hReachable.rely_guarantee (fun _ _ _ _ _ hx h ⟨_, hStep⟩ => h.step hx hStep)
    (fun _ _ _ _ _ hx h hStep => h.step hx hStep) (fun _ _ _ _ _ hMoves h => h.stable hMoves)
    (fun _ _ _ _ _ hMoves h => h.stable hMoves) (consistent_init p)

/-- The client is between taking the mutex to close a sector and giving it back. -/
def PrinterLabel.inClose : PrinterLabel → Bool
  | .closeSwitch | .closeSide | .closeStatus _ | .closeToggle | .closeToggleWrite _ | .closePost
  | .closeUnlock => true
  | _ => false

/-- The server is between taking the mutex to release a sector and giving it back. -/
def ServerLabel.inRelease : ServerLabel → Bool
  | .releaseSwitch | .releaseSide | .releaseStatus _ | .releaseToggle | .releaseToggleWrite _
  | .releasePost | .releaseUnlock => true
  | _ => false

theorem PrinterLabel.toggling_of_not_inClose {label : PrinterLabel} (hOutside : label.inClose = false) :
    label.toggling = false := by
  cases label <;> first | rfl | exact hOutside

theorem ServerLabel.toggling_of_not_inRelease {label : ServerLabel}
    (hOutside : label.inRelease = false) : label.toggling = false := by
  cases label <;> first | rfl | exact hOutside

/-- `status` and the pointers agree where neither pointer lags behind. -/
theorem pointers_of_status {closed released : Nat} (hLow : released ≤ closed)
    (hHigh : closed ≤ released + 2) :
    (statusOf closed released = 0 ∨ statusOf closed released = 3 → released % 2 = closed % 2) ∧
      (statusOf closed released = 1 → released % 2 = 0 ∧ closed % 2 = 1) ∧
        (statusOf closed released = 2 → released % 2 = 1 ∧ closed % 2 = 0) := by
  obtain ⟨rfl, hStatus⟩ | ⟨rfl, _⟩ | ⟨rfl, hStatus⟩ := statusOf_cases hLow hHigh
  · simp [hStatus]
  · rw [statusOf_one]
    split_ifs with hEven
    · exact ⟨by simp, fun _ => by omega, by simp⟩
    · exact ⟨by simp, by simp, fun _ => by omega⟩
  · simp [hStatus]

section BothBusy

/-- Sectors of one cell, and a server that stops after one record. -/
def oneCell : Setup where
  nData := 1
  nData_pos := Nat.zero_lt_one
  desiredIstr := 1
  rand := fun _ => Tage.leastRand
  cell := fun _ _ => ⟨0, 0, 0⟩

/-- The first call connects, the second one fills a sector, which the server
reads while the third one is about to store. -/
def busyTurns : List Turn :=
  List.replicate 16 (.client ⟨4, 8, 1⟩) ++ List.replicate 6 .server ++
    List.replicate 5 (.client ⟨8, 4, 1⟩)

def busy : System := ((System.init oneCell).play oneCell busyTurns).get (by decide)

theorem reachable_busy : Reachable oneCell busy :=
  Reachable.play .init (Option.some_get _).symm

end BothBusy

/-- The client never writes the sector that the server reads; outside the two
critical sections `status` and the pointers agree; neither switch reaches its
default. -/
theorem sector_exclusion (p : Setup) (s : System) (hReachable : Reachable p s) :
    (∀ sector sector' i, s.left.label = .store sector → s.right.label = .read sector' i →
        sector ≠ sector') ∧
      (s.left.label.inClose = false → s.right.label.inRelease = false →
        (s.shared.status = 0 ∨ s.shared.status = 3 →
            s.shared.nextToRead = s.shared.nextToWrite) ∧
          (s.shared.status = 1 → s.shared.nextToRead = 0 ∧ s.shared.nextToWrite = 1) ∧
            (s.shared.status = 2 → s.shared.nextToRead = 1 ∧ s.shared.nextToWrite = 0)) ∧
        s.left.label ≠ .exited ∧ s.right.label ≠ .exited := by
  obtain ⟨g, hx, hClient, hServer⟩ := consistent_of_reachable hReachable
  refine ⟨?_, ?_, ?_, ?_⟩
  · intro sector sector' i hStore hRead
    have hRoom := hClient.room (by simp [Printer.HasRoom, hStore])
    have hWork := hServer.work (by simp [Server.HasWork, hRead])
    have hSector : sector = g.closed % 2 := by
      have hCarries := hClient.carries
      rwa [hStore] at hCarries
    have hSector' : sector' = g.released % 2 := by
      have hCarries := hServer.carries
      rw [hRead] at hCarries
      exact hCarries.1
    omega
  · intro hLeft hRight
    have hWrite := hClient.nextToWrite
    have hRead := hServer.nextToRead
    rw [PrinterLabel.toggling_of_not_inClose hLeft, Bool.toNat_false, Nat.add_zero] at hWrite
    rw [ServerLabel.toggling_of_not_inRelease hRight, Bool.toNat_false, Nat.add_zero] at hRead
    rw [hWrite, hRead, hx.status]
    exact pointers_of_status hx.released_le hx.closed_le
  · intro hExit
    have hCarries := hClient.carries
    rw [hExit] at hCarries
    exact hCarries
  · intro hExit
    have hCarries := hServer.carries
    rw [hExit] at hCarries
    exact hCarries

theorem sector_exclusion_busy :
    busy.left.label = .store 1 ∧ busy.right.label = .read 0 1 ∧ (1 : Nat) ≠ 0 :=
  ⟨by decide, by decide,
    (sector_exclusion oneCell busy reachable_busy).1 1 0 1 (by decide) (by decide)⟩

/-- At every point of every interleaving the server was fed a prefix of what the
client stored, and its counters are those of the loop of `predictor.c` on that
prefix. -/
theorem fifo_delivery (p : Setup) (s : System) (hReachable : Reachable p s) :
    s.right.fed <+: s.shared.stored.map Prod.snd ∧
      s.right.session =
        Tage.mainLoop p.desiredIstr Tage.Session.init (recordsOf p s.right.fed) := by
  obtain ⟨_, _, _, hServer⟩ := consistent_of_reachable hReachable
  exact ⟨hServer.fed, hServer.session⟩

theorem fifo_delivery_busy :
    busy.right.fed = [⟨4, 8, 1⟩] ∧ busy.right.fed <+: busy.shared.stored.map Prod.snd :=
  ⟨by decide, (fifo_delivery oneCell busy reachable_busy).1⟩

end BranchPrediction.SharedMemory
