import BranchPrediction.Tage.Run

/-! The memory and the semaphores that the QEMU helper and the server share. -/
namespace BranchPrediction.SharedMemory

abbrev U64 := BitVec 64

/-- `struct shm_cell_type`. -/
structure ShmCell where
  pc : U64
  tAddr : U64
  tNt : U64
deriving DecidableEq, Repr

/-- The sector and the index of a cell. -/
structure CellAddress where
  sector : Nat
  index : Nat
deriving DecidableEq, Repr

/-- `struct sharedMemory` with the values of the three semaphores. `cell 0` is
`shm_s0` and `cell 1` is `shm_s1`. The history `stored` lists the stores into
cells; the code does not have it and no step reads it. -/
structure Shared where
  cell : Nat → Nat → ShmCell
  status : Nat
  nextToRead : Nat
  nextToWrite : Nat
  statusMutex : Nat
  clientWrote : Nat
  serverRead : Nat
  stored : List (CellAddress × ShmCell)

/-- What the two programs are compiled and started with: the sector size, the
argument of the server, its random numbers (one for each update), and the cells
of the memory before the first store. -/
structure Setup where
  nData : Nat
  nData_pos : 0 < nData
  desiredIstr : Int
  rand : Nat → Fin 100
  cell : Nat → Nat → ShmCell

namespace Shared

/-- The memory and the semaphores as the server sets them up. -/
def init (p : Setup) : Shared where
  cell := p.cell
  status := 0
  nextToRead := 0
  nextToWrite := 0
  statusMutex := 1
  clientWrote := 0
  serverRead := 1
  stored := []

def store (x : Shared) (sector index : Nat) (c : ShmCell) : Shared :=
  { x with
    cell := Function.update x.cell sector (Function.update (x.cell sector) index c)
    stored := x.stored ++ [(⟨sector, index⟩, c)] }

theorem exists_stored {x : Shared} {k : Nat} (hLess : k < x.stored.length) :
    ∃ a c, x.stored[k]? = some (a, c) :=
  ⟨_, _, List.getElem?_eq_getElem hLess⟩

end Shared

/-- `sem_wait` on a semaphore with this value; `none` when it blocks. -/
def semWait : Nat → Option Nat
  | 0 => none
  | value + 1 => some value

end BranchPrediction.SharedMemory
