import FrameLoop.Loop.Lifecycle

/-
  What a task can do to the loop that runs it.  A running task is a value of a type `τ`, and
  `Code τ` says what it does next; the answer of the loop decides with which value it goes on.
  Nothing is assumed about a task: it may never end, and it may submit itself again.
-/

namespace FrameLoop.Loop

/-- What a task, or anybody else, can see of a loop. -/
structure View where
  phase : Phase
  pending : Nat
  done : Bool
  deriving DecidableEq, Repr

/-- The next act of a running task. -/
inductive Op (τ : Type)
  /-- It is at its end. -/
  | finish
  /-- It fails. -/
  | panic
  /-- It submits a task to its own loop; it is told whether the loop took it. -/
  | submit (task : τ) (next : Bool → τ)
  /-- It asks its own loop to stop. -/
  | stop (grace : Grace) (next : τ)
  /-- It looks at its own loop. -/
  | look (next : View → τ)
  /-- It does something that does not concern the loop. -/
  | skip (next : τ)

/-- What running tasks do next. -/
abbrev Code (τ : Type) := τ → Op τ

end FrameLoop.Loop
