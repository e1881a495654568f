import FrameLoop.Span

/-
  The life of an event loop: it is started, asked to stop, closed to new tasks, and gone.
-/

namespace FrameLoop.Loop

/-- The phases of a loop, in their order. -/
inductive Phase
  /-- It takes and runs tasks. -/
  | started
  /-- It has been asked to stop; it still takes and runs tasks. -/
  | stopping
  /-- It takes no more tasks, and runs those that it has. -/
  | closed
  /-- Its thread is at its end. -/
  | gone
  deriving DecidableEq, Repr

namespace Phase

/-- The number of the phase, from 1. -/
def rank : Phase → Nat
  | started => 1
  | stopping => 2
  | closed => 3
  | gone => 4

/-- A loop in this phase has been asked to stop. -/
def isStopping (p : Phase) : Bool := 2 ≤ p.rank

/-- A loop in this phase takes no tasks. -/
def isClosed (p : Phase) : Bool := 3 ≤ p.rank

/-- A loop in this phase is gone. -/
def isGone (p : Phase) : Bool := p = gone

end Phase

/-- How to stop: when no task has run for `quiet`, and in any case when `timeout` has passed. -/
structure Grace where
  quiet : Span
  timeout : Span
  deriving DecidableEq, Repr

namespace Grace

/-- Stop as soon as there is nothing to run. -/
def none : Grace := ⟨.zero, .zero⟩

/-- What a loop keeps of a request: it need not be quiet for longer than it may take. -/
def stored (g : Grace) : Grace := { g with quiet := min g.quiet g.timeout }

end Grace

end FrameLoop.Loop
