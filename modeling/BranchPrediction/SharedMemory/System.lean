import BranchPrediction.Library.Interleaving
import BranchPrediction.SharedMemory.Printer
import BranchPrediction.SharedMemory.Server

/-! The helper and the server, interleaved. -/
namespace BranchPrediction.SharedMemory

open Interleaving

abbrev System := Config Shared Printer Server

/-- A step of the helper, which is called at any time with any arguments. -/
def ClientStep (p : Setup) (x : Shared) (c : Printer) (x' : Shared) (c' : Printer) : Prop :=
  ∃ args, c.step p args x = some (x', c')

def ServerStep (p : Setup) (x : Shared) (s : Server) (x' : Shared) (s' : Server) : Prop :=
  s.step p x = some (x', s')

def System.init (p : Setup) : System := ⟨Shared.init p, Printer.init, Server.init⟩

/-- The states that the two processes can reach. -/
def Reachable (p : Setup) (s : System) : Prop :=
  Interleaving.Reachable (ClientStep p) (ServerStep p) (System.init p) s

/-- Whose step it is; a call of the helper takes its arguments from here. -/
inductive Turn where
  | client (args : ShmCell)
  | server

/-- The step of one process; `none` when it cannot take one. -/
def System.turn (p : Setup) (s : System) : Turn → Option System
  | .client args => (s.left.step p args s.shared).map fun (x, c) => ⟨x, c, s.right⟩
  | .server => (s.right.step p s.shared).map fun (x, b) => ⟨x, s.left, b⟩

/-- A schedule, played from a state. -/
def System.play (p : Setup) (s : System) (turns : List Turn) : Option System :=
  turns.foldlM (System.turn p) s

section Playing

variable {p : Setup} {s s' : System}

theorem Reachable.client {x x' : Shared} {c c' : Printer} {b : Server} (args : ShmCell)
    (hReachable : Reachable p ⟨x, c, b⟩) (hStep : c.step p args x = some (x', c')) :
    Reachable p ⟨x', c', b⟩ :=
  hReachable.step (.left b ⟨args, hStep⟩)

theorem Reachable.server {x x' : Shared} {c : Printer} {b b' : Server}
    (hReachable : Reachable p ⟨x, c, b⟩) (hStep : b.step p x = some (x', b')) :
    Reachable p ⟨x', c, b'⟩ :=
  hReachable.step (.right c hStep)

theorem Reachable.turn (hReachable : Reachable p s) {turn : Turn} (hTurn : s.turn p turn = some s') :
    Reachable p s' := by
  obtain ⟨x, c, b⟩ := s
  cases turn with
  | client args =>
      simp only [System.turn, Option.map_eq_some_iff] at hTurn
      obtain ⟨⟨x', c'⟩, hStep, rfl⟩ := hTurn
      exact hReachable.client args hStep
  | server =>
      simp only [System.turn, Option.map_eq_some_iff] at hTurn
      obtain ⟨⟨x', b'⟩, hStep, rfl⟩ := hTurn
      exact hReachable.server hStep

/-- A schedule that can be played reaches its end. -/
theorem Reachable.play (hReachable : Reachable p s) {turns : List Turn}
    (hPlay : s.play p turns = some s') : Reachable p s' := by
  induction turns generalizing s with
  | nil =>
      obtain rfl : s = s' := by simpa [System.play] using hPlay
      exact hReachable
  | cons turn turns ih =>
      simp only [System.play, List.foldlM_cons, Option.bind_eq_bind,
        Option.bind_eq_some_iff] at hPlay
      obtain ⟨middle, hTurn, hRest⟩ := hPlay
      exact ih (hReachable.turn hTurn) hRest

end Playing

end BranchPrediction.SharedMemory
