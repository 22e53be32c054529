import Mathlib.Logic.Basic

/-! Two processes that take turns on a shared state, in any order. A safety
proof by rely and guarantee looks at each process alone: it says what the steps
of a process do to the shared state, and the assertions about the other process
have to survive that. -/
namespace Interleaving

variable {Shared Left Right : Type*}

structure Config (Shared Left Right : Type*) where
  shared : Shared
  left : Left
  right : Right

section Runs

variable (left : Shared → Left → Shared → Left → Prop)
variable (right : Shared → Right → Shared → Right → Prop)

inductive Step : Config Shared Left Right → Config Shared Left Right → Prop where
  | left {x x' : Shared} {a a' : Left} (b : Right) (hLeft : left x a x' a') :
      Step ⟨x, a, b⟩ ⟨x', a', b⟩
  | right {x x' : Shared} {b b' : Right} (a : Left) (hRight : right x b x' b') :
      Step ⟨x, a, b⟩ ⟨x', a, b'⟩

/-- The configurations that some interleaving of the two processes reaches. -/
inductive Reachable (init : Config Shared Left Right) : Config Shared Left Right → Prop where
  | init : Reachable init init
  | step {c d : Config Shared Left Right} (hBefore : Reachable init c) (hStep : Step left right c d) :
      Reachable init d

/-- A run from `start`, with the total weight of its steps. -/
inductive RunsFor (weight : Config Shared Left Right → Config Shared Left Right → Nat)
    (start : Config Shared Left Right) : Config Shared Left Right → Nat → Prop where
  | zero : RunsFor weight start start 0
  | succ {c d : Config Shared Left Right} {total : Nat} (prior : RunsFor weight start c total)
      (last : Step left right c d) : RunsFor weight start d (total + weight c d)

end Runs

section Invariants

variable {left : Shared → Left → Shared → Left → Prop}
variable {right : Shared → Right → Shared → Right → Prop}
variable {init c : Config Shared Left Right}

/-- A property that every step from a reachable configuration preserves. -/
theorem Reachable.invariant {P : Config Shared Left Right → Prop} (hInit : P init)
    (hStep : ∀ c d, Reachable left right init c → P c → Step left right c d → P d)
    (hReachable : Reachable left right init c) : P c := by
  induction hReachable with
  | init => exact hInit
  | step hBefore hLast ih => exact hStep _ _ hBefore ih hLast

theorem Reachable.trans {d : Config Shared Left Right} (hFirst : Reachable left right init c)
    (hRest : Reachable left right c d) : Reachable left right init d := by
  induction hRest with
  | init => exact hFirst
  | step _ hLast ih => exact ih.step hLast

/-- A goal is within reach if, short of it, some step keeps the invariant and
lowers the rank. -/
theorem exists_reachable (Inv Goal : Config Shared Left Right → Prop) {Rank : Type*}
    [hRel : WellFoundedRelation Rank] (rank : Config Shared Left Right → Rank)
    (hStep : ∀ c, Inv c → ¬ Goal c →
      ∃ d, Step left right c d ∧ Inv d ∧ WellFoundedRelation.rel (rank d) (rank c))
    (hInv : Inv c) : ∃ d, Reachable left right c d ∧ Inv d ∧ Goal d := by
  induction hRank : rank c using hRel.wf.induction generalizing c with
  | h r ih =>
      by_cases hGoal : Goal c
      · exact ⟨c, .init, hInv, hGoal⟩
      · obtain ⟨d, hFirst, hNext, hLess⟩ := hStep c hInv hGoal
        obtain ⟨e, hRest, hEnd, hReached⟩ := ih (rank d) (hRank ▸ hLess) hNext rfl
        exact ⟨e, (Reachable.init.step hFirst).trans hRest, hEnd, hReached⟩

/-- A schedule reaches its end. -/
theorem Reachable.foldlM {Turn : Type*}
    {turn : Config Shared Left Right → Turn → Option (Config Shared Left Right)}
    (hTurn : ∀ c t d, turn c t = some d → Step left right c d)
    (hReachable : Reachable left right init c) {turns : List Turn} {d : Config Shared Left Right}
    (hPlay : turns.foldlM turn c = some d) : Reachable left right init d := by
  induction turns generalizing c with
  | nil =>
      obtain rfl : c = d := by simpa using hPlay
      exact hReachable
  | cons t turns ih =>
      simp only [List.foldlM_cons, Option.bind_eq_bind, Option.bind_eq_some_iff] at hPlay
      obtain ⟨middle, hFirst, hRest⟩ := hPlay
      exact ih (hReachable.step (hTurn c t middle hFirst)) hRest

/-- The parallel rule. `ledger` stands for auxiliary variables, which each step
may update; `Common` constrains the shared state alone, and `LeftMoves` and
`RightMoves` are what a step of one process guarantees to the other. -/
theorem Reachable.rely_guarantee {Ledger : Type*} {Common : Ledger → Shared → Prop}
    {LeftAt : Ledger → Shared → Left → Prop} {RightAt : Ledger → Shared → Right → Prop}
    {LeftMoves RightMoves : Ledger → Shared → Ledger → Shared → Prop}
    (hLeft : ∀ g x a x' a', Common g x → LeftAt g x a → left x a x' a' →
      ∃ g', Common g' x' ∧ LeftAt g' x' a' ∧ LeftMoves g x g' x')
    (hRight : ∀ g x b x' b', Common g x → RightAt g x b → right x b x' b' →
      ∃ g', Common g' x' ∧ RightAt g' x' b' ∧ RightMoves g x g' x')
    (hLeftStable : ∀ g x g' x' a, RightMoves g x g' x' → LeftAt g x a → LeftAt g' x' a)
    (hRightStable : ∀ g x g' x' b, LeftMoves g x g' x' → RightAt g x b → RightAt g' x' b)
    (hInit : ∃ g, Common g init.shared ∧ LeftAt g init.shared init.left ∧
      RightAt g init.shared init.right)
    (hReachable : Reachable left right init c) :
    ∃ g, Common g c.shared ∧ LeftAt g c.shared c.left ∧ RightAt g c.shared c.right := by
  induction hReachable with
  | init => exact hInit
  | step _ hLast ih =>
      obtain ⟨g, hCommon, hAtLeft, hAtRight⟩ := ih
      cases hLast with
      | left b hStep =>
          obtain ⟨g', hCommon', hAtLeft', hMoves⟩ := hLeft _ _ _ _ _ hCommon hAtLeft hStep
          exact ⟨g', hCommon', hAtLeft', hRightStable _ _ _ _ _ hMoves hAtRight⟩
      | right a hStep =>
          obtain ⟨g', hCommon', hAtRight', hMoves⟩ := hRight _ _ _ _ _ hCommon hAtRight hStep
          exact ⟨g', hCommon', hLeftStable _ _ _ _ _ hMoves hAtLeft, hAtRight'⟩

/-- A left process that another one follows, with the same effect on the shared
state, reaches only shared states that the other one reaches. A step that leaves
the shared state alone may be followed by standing still. -/
theorem Reachable.simulate_left {Left' : Type*} {left' : Shared → Left' → Shared → Left' → Prop}
    {Rel : Left → Left' → Prop}
    (hStep : ∀ x a x' a' a₂, Rel a a₂ → left x a x' a' →
      x' = x ∧ Rel a' a₂ ∨ ∃ a₂', left' x a₂ x' a₂' ∧ Rel a' a₂')
    {start : Left'} (hStart : Rel init.left start) (hReachable : Reachable left right init c) :
    ∃ a₂, Reachable left' right ⟨init.shared, start, init.right⟩ ⟨c.shared, a₂, c.right⟩ ∧
      Rel c.left a₂ := by
  induction hReachable with
  | init => exact ⟨start, .init, hStart⟩
  | step _ hLast ih =>
      obtain ⟨a₂, hBefore, hRel⟩ := ih
      cases hLast with
      | left b hLeft =>
          obtain ⟨rfl, hSame⟩ | ⟨a₂', hFollow, hRel'⟩ := hStep _ _ _ _ _ hRel hLeft
          · exact ⟨a₂, hBefore, hSame⟩
          · exact ⟨a₂', hBefore.step (.left b hFollow), hRel'⟩
      | right a hRight => exact ⟨a₂, hBefore.step (.right a₂ hRight), hRel⟩

variable {weight : Config Shared Left Right → Config Shared Left Right → Nat}
variable {start : Config Shared Left Right} {total : Nat}

theorem RunsFor.reachable (run : RunsFor left right weight start c total)
    (hReachable : Reachable left right init start) : Reachable left right init c := by
  induction run with
  | zero => exact hReachable
  | succ prior last ih => exact ih.step last

theorem Reachable.runsFor (weight : Config Shared Left Right → Config Shared Left Right → Nat)
    (hReachable : Reachable left right init c) :
    ∃ total, RunsFor left right weight init c total := by
  induction hReachable with
  | init => exact ⟨0, .zero⟩
  | step _ hLast ih =>
      obtain ⟨total, run⟩ := ih
      exact ⟨_, run.succ hLast⟩

/-- A property of the configuration and of the weight so far. -/
theorem RunsFor.invariant {P : Config Shared Left Right → Nat → Prop}
    (hReachable : Reachable left right init start) (hStart : P start 0)
    (hStep : ∀ c d total, Reachable left right init c → P c total → Step left right c d →
      P d (total + weight c d))
    (run : RunsFor left right weight start c total) : P c total := by
  induction run with
  | zero => exact hStart
  | succ prior last ih => exact hStep _ _ _ (prior.reachable hReachable) ih last

end Invariants

end Interleaving
