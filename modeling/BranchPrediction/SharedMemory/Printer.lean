import BranchPrediction.SharedMemory.Shared

/-! The helper `printer` of `helper-a64.c`, the client of the shared memory. A
step is one operation on a semaphore, one read or write of a shared variable or
cell, or the start of a call. -/
namespace BranchPrediction.SharedMemory

/-- The next operation of the helper. -/
inductive PrinterLabel where
  /-- between two calls -/
  | idle
  /-- the first call: `sem_wait(serverRead_sem)` -/
  | connect
  /-- `sem_wait(statusMutex_sem)` -/
  | lock
  /-- `currStatus = status` -/
  | check
  /-- `sem_post(statusMutex_sem)` -/
  | unlock
  /-- choose the sector by `nextToWrite` -/
  | pick
  /-- write cell `cnt` of the sector -/
  | store (sector : Nat)
  /-- the sector is full: `sem_wait(statusMutex_sem)` -/
  | closeLock
  /-- `switch (status)` -/
  | closeSwitch
  /-- the test of `nextToWrite` in case 0 -/
  | closeSide
  /-- `status = newStatus` -/
  | closeStatus (newStatus : Nat)
  /-- the read of `nextToWrite ^= 1` -/
  | closeToggle
  /-- the write of `nextToWrite ^= 1` -/
  | closeToggleWrite (side : Nat)
  /-- `sem_post(clientWrote_sem)` -/
  | closePost
  /-- `sem_post(statusMutex_sem)` -/
  | closeUnlock
  /-- the memory was full: `sem_wait(serverRead_sem)` -/
  | full
  /-- `exit(0)` -/
  | exited
deriving DecidableEq, Repr

/-- A call that has returned: its arguments, whether it was the first one, the
status that it read, and the stores made before it began and when it returned. -/
structure ReturnedCall where
  args : ShmCell
  first : Bool
  currStatus : Nat
  before : List (CellAddress × ShmCell)
  after : List (CellAddress × ShmCell)
deriving DecidableEq

/-- The static and local variables of `printer`. The histories `before`, of the
stores that precede the current call, and `returned` are not in the code. -/
structure Printer where
  label : PrinterLabel
  firstTime : Bool
  cnt : Nat
  args : ShmCell
  currStatus : Nat
  before : List (CellAddress × ShmCell)
  returned : List ReturnedCall

namespace Printer

def init : Printer where
  label := .idle
  firstTime := true
  cnt := 0
  args := ⟨0, 0, 0⟩
  currStatus := 0
  before := []
  returned := []

/-- The return of the current call; `first` says which branch it ran. -/
def finish (c : Printer) (x : Shared) (first : Bool) : Printer :=
  { c with
    label := .idle
    returned := c.returned ++ [⟨c.args, first, c.currStatus, c.before, x.stored⟩] }

/-- One step. `args` are the arguments if the step starts a call; `none` when a
semaphore blocks, and after `exit`. -/
def step (p : Setup) (args : ShmCell) (x : Shared) (c : Printer) : Option (Shared × Printer) :=
  match c.label with
  | .idle =>
      some (x, { c with
        label := if c.firstTime then .connect else .lock
        firstTime := false
        args := args
        before := x.stored })
  | .connect => do
      let value ← semWait x.serverRead
      some ({ x with serverRead := value }, c.finish x true)
  | .lock => do
      let value ← semWait x.statusMutex
      some ({ x with statusMutex := value }, { c with label := .check })
  | .check => some (x, { c with label := .unlock, currStatus := x.status })
  | .unlock =>
      some ({ x with statusMutex := x.statusMutex + 1 },
        { c with label := if c.currStatus ≠ 3 then .pick else .full })
  | .pick => some (x, { c with label := .store (if x.nextToWrite = 0 then 0 else 1) })
  | .store sector =>
      let x := x.store sector c.cnt c.args
      if c.cnt ≠ p.nData - 1 then some (x, { c with cnt := c.cnt + 1 }.finish x false)
      else some (x, { c with label := .closeLock, cnt := 0 })
  | .closeLock => do
      let value ← semWait x.statusMutex
      some ({ x with statusMutex := value }, { c with label := .closeSwitch })
  | .closeSwitch =>
      match x.status with
      | 1 => some (x, { c with label := .closeStatus 3 })
      | 2 => some (x, { c with label := .closeStatus 3 })
      | 0 => some (x, { c with label := .closeSide })
      | _ => some (x, { c with label := .exited })
  | .closeSide =>
      some (x, { c with label := .closeStatus (if x.nextToWrite = 0 then 1 else 2) })
  | .closeStatus newStatus =>
      some ({ x with status := newStatus }, { c with label := .closeToggle })
  | .closeToggle => some (x, { c with label := .closeToggleWrite x.nextToWrite })
  | .closeToggleWrite side =>
      some ({ x with nextToWrite := side ^^^ 1 }, { c with label := .closePost })
  | .closePost =>
      some ({ x with clientWrote := x.clientWrote + 1 }, { c with label := .closeUnlock })
  | .closeUnlock =>
      some ({ x with statusMutex := x.statusMutex + 1 }, c.finish x false)
  | .full => do
      let value ← semWait x.serverRead
      some ({ x with serverRead := value }, c.finish x false)
  | .exited => none

end Printer

end BranchPrediction.SharedMemory
