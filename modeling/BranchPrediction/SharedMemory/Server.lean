import BranchPrediction.SharedMemory.Shared

/-! The loop of `server.c`, which feeds the cells of a full sector to the TAGE
predictor. A step is one operation on a semaphore, one read or write of a shared
variable or cell, or a test of the loop. -/
namespace BranchPrediction.SharedMemory

open BranchPrediction.Tage

/-- The next operation of the server. -/
inductive ServerLabel where
  /-- `while (iCount < desiredIstr)` -/
  | loopTest
  /-- `sem_wait(statusMutex_sem)` -/
  | lock
  /-- `currStatus = status` -/
  | check
  /-- `sem_post(statusMutex_sem)` -/
  | unlock
  /-- the memory was empty: `sem_wait(clientWrote_sem)` -/
  | empty
  /-- choose the sector by `nextToRead` -/
  | pick
  /-- the test of the inner loop, and the use of cell `i` of the sector -/
  | read (sector i : Nat)
  /-- the sector was read: `sem_wait(statusMutex_sem)` -/
  | releaseLock
  /-- `switch (status)` -/
  | releaseSwitch
  /-- the test of `nextToRead` in case 3 -/
  | releaseSide
  /-- `status = newStatus` -/
  | releaseStatus (newStatus : Nat)
  /-- the read of `nextToRead ^= 1` -/
  | releaseToggle
  /-- the write of `nextToRead ^= 1` -/
  | releaseToggleWrite (side : Nat)
  /-- `sem_post(serverRead_sem)` -/
  | releasePost
  /-- `sem_post(statusMutex_sem)` -/
  | releaseUnlock
  /-- after the loop -/
  | done
  /-- `exit(0)` -/
  | exited
deriving DecidableEq, Repr

/-- The variables of `main`. The history `fed` lists the cells given to
`get_prediction` and `update_predictor`. -/
structure Server where
  label : ServerLabel
  currStatus : Nat
  session : Session
  fed : List ShmCell

/-- The arguments that the server takes from a cell, with the random number of
the update. -/
def ShmCell.record (c : ShmCell) (randNo : Fin 100) : Record :=
  { PC := c.pc, branchTarget := c.tAddr, resolveDir := c.tNt, randNo := randNo }

namespace Server

def init : Server where
  label := .loopTest
  currStatus := 0
  session := Session.init
  fed := []

/-- `iCount < desiredIstr`. -/
def Continues (p : Setup) (s : Server) : Prop := (s.session.iCount : Int) < p.desiredIstr

instance (p : Setup) (s : Server) : Decidable (s.Continues p) :=
  inferInstanceAs (Decidable (_ < _))

/-- Predict and update with one cell. -/
def feed (p : Setup) (s : Server) (c : ShmCell) : Server :=
  { s with
    session := s.session.consume (c.record (p.rand s.session.iCount))
    fed := s.fed ++ [c] }

/-- One step; `none` when a semaphore blocks, and at the end. -/
def step (p : Setup) (x : Shared) (s : Server) : Option (Shared × Server) :=
  match s.label with
  | .loopTest => some (x, { s with label := if s.Continues p then .lock else .done })
  | .lock => do
      let value ← semWait x.statusMutex
      some ({ x with statusMutex := value }, { s with label := .check })
  | .check => some (x, { s with label := .unlock, currStatus := x.status })
  | .unlock =>
      some ({ x with statusMutex := x.statusMutex + 1 },
        { s with label := if s.currStatus = 0 then .empty else .pick })
  | .empty => do
      let value ← semWait x.clientWrote
      some ({ x with clientWrote := value }, { s with label := .loopTest })
  | .pick => some (x, { s with label := .read (if x.nextToRead = 0 then 0 else 1) 0 })
  | .read sector i =>
      if i < p.nData ∧ s.Continues p then
        some (x, { s.feed p (x.cell sector i) with label := .read sector (i + 1) })
      else some (x, { s with label := .releaseLock })
  | .releaseLock => do
      let value ← semWait x.statusMutex
      some ({ x with statusMutex := value }, { s with label := .releaseSwitch })
  | .releaseSwitch =>
      match x.status with
      | 1 => some (x, { s with label := .releaseStatus 0 })
      | 2 => some (x, { s with label := .releaseStatus 0 })
      | 3 => some (x, { s with label := .releaseSide })
      | _ => some (x, { s with label := .exited })
  | .releaseSide =>
      some (x, { s with label := .releaseStatus (if x.nextToRead = 0 then 2 else 1) })
  | .releaseStatus newStatus =>
      some ({ x with status := newStatus }, { s with label := .releaseToggle })
  | .releaseToggle => some (x, { s with label := .releaseToggleWrite x.nextToRead })
  | .releaseToggleWrite side =>
      some ({ x with nextToRead := side ^^^ 1 }, { s with label := .releasePost })
  | .releasePost =>
      some ({ x with serverRead := x.serverRead + 1 }, { s with label := .releaseUnlock })
  | .releaseUnlock =>
      some ({ x with statusMutex := x.statusMutex + 1 }, { s with label := .loopTest })
  | .done => none
  | .exited => none

end Server

end BranchPrediction.SharedMemory
