import Mathlib
import BranchPrediction.Library.LinkedChain

/-! The bimodal predictor of `branch.c`: a hash table with 1024 buckets, each a
chain of nodes linked in the order in which they were added. -/
namespace BranchPrediction.Bimodal

open LinkedChain

abbrev U64 := BitVec 64

abbrev initialValue : Nat := 3

/-- `struct node`. A pointer is the number of the allocation that returned it. -/
structure Node where
  PC : U64
  targetAddr : U64
  state : Nat
  next : Option Nat

/-- The heap, of which `count` nodes are allocated, and the bucket table. -/
structure Store where
  node : Nat → Node
  count : Nat
  table : Nat → Option Nat

/-- One round of the loop of `APHash`. -/
def apHashRound (addr hash : U64) (i : Nat) : U64 :=
  hash ^^^
    (if i % 2 = 0 then (hash <<< 7) ^^^ (((addr >>> i) &&& 1) * (hash >>> 3))
      else ~~~((hash <<< 11) + (((addr >>> i) &&& 1) ^^^ (hash >>> 5))))

/-- Bit 63 of the address is not hashed. -/
def apHash (addr : U64) : U64 :=
  (List.range 63).foldl (apHashRound addr) 0xCCCCCCCCCCCCCCCC

/-- The index `APHash(PC) % 1024` of the table. -/
def bucket (PC : U64) : Nat := (apHash PC % 1024).toNat

namespace Store

/-- The empty table of `main`. -/
def empty : Store where
  node := fun _ => { PC := 0, targetAddr := 0, state := 0, next := none }
  count := 0
  table := fun _ => none

def next (s : Store) (a : Nat) : Option Nat := (s.node a).next

def pc (s : Store) (a : Nat) : U64 := (s.node a).PC

/-- `add_node`, which also gets the outcome and does not use it. The memory does
not run out. -/
def addNode (s : Store) (PC targetAddr : U64) : Nat × Store :=
  (s.count,
    { s with
      node := Function.update s.node s.count
        { PC := PC, targetAddr := targetAddr, state := initialValue, next := none }
      count := s.count + 1 })

def setTable (s : Store) (index a : Nat) : Store :=
  { s with table := Function.update s.table index (some a) }

def setNext (s : Store) (a b : Nat) : Store :=
  { s with node := Function.update s.node a { s.node a with next := some b } }

def setState (s : Store) (a state : Nat) : Store :=
  { s with node := Function.update s.node a { s.node a with state := state } }

end Store

/-- The two switches: whether the prediction was correct, and the new state. -/
def trainState (taken : U64) (state : Nat) : Bool × Nat :=
  if taken = 1 then
    match state with
    | 0 => (false, 1)
    | 1 => (false, 2)
    | 2 => (true, 3)
    | 3 => (true, 3)
    | other => (false, other)
  else
    match state with
    | 0 => (true, 0)
    | 1 => (true, 0)
    | 2 => (false, 1)
    | 3 => (false, 2)
    | other => (false, other)

/-- `bimodal_implementation`. A chain without a cycle has at most `count` nodes,
which is the fuel of its walk; `none` is a walk that does not end. Both
switches read and write `table[index]`, the first node of the chain. -/
def bimodalImplementation (s : Store) (PC taken targetAddr : U64) : Option (Bool × Store) :=
  let index := bucket PC
  match s.table index with
  | none =>
      let (fresh, s) := s.addNode PC targetAddr
      some (false, s.setTable index fresh)
  | some head => do
      let temp ← walk s.next (fun a => s.pc a = PC) s.count head
      if s.pc temp = PC then
        let (correct, state) := trainState taken (s.node head).state
        some (correct, s.setState head state)
      else
        let (fresh, s) := s.addNode PC targetAddr
        some (false, s.setNext temp fresh)

/-- The arguments of one call. -/
structure Call where
  PC : U64
  taken : U64
  targetAddr : U64

/-- The direction that the code compares the counter with. -/
def Call.up (c : Call) : Bool := c.taken = 1

/-- A sequence of calls, with the answers. -/
def runCalls (s : Store) : List Call → Option (List Bool × Store)
  | [] => some ([], s)
  | c :: calls => do
      let (correct, s) ← bimodalImplementation s c.PC c.taken c.targetAddr
      let (answers, s) ← runCalls s calls
      some (correct :: answers, s)

end BranchPrediction.Bimodal
