import FrameLoop.Signal.Basic

/-
  The count of the children of a group that have come to their end.  The one that makes the count
  full completes the termination signal of the group.
-/

namespace FrameLoop

/-- The count, and the termination signal of the group, with listeners of type `ℓ`. -/
structure Tally (ℓ : Type) where
  size : Nat
  count : Nat := 0
  signal : Signal ℓ := {}
  deriving DecidableEq, Repr

namespace Tally

variable {ℓ : Type}

/-- A child has come to its end: the listeners that run because of it, and the tally. -/
def arrive (t : Tally ℓ) : List ℓ × Tally ℓ :=
  let t := { t with count := t.count + 1 }
  if t.count = t.size then
    match t.signal.complete? with
    | some (ls, signal) => (ls, { t with signal := signal.settle })
    | none => ([], t)
  else ([], t)

/-- Add a listener; it runs at once if the signal is complete. -/
def listen (t : Tally ℓ) (l : ℓ) : List ℓ × Tally ℓ :=
  match t.signal.listen? l with
  | some signal => ([], { t with signal })
  | none => ([l], t)

/-- The group as it is shown to people. -/
def text (t : Tally ℓ) : String :=
  "ExecutorGroup \x7b executors: " ++ toString t.size ++ ", terminated: " ++ toString t.count ++
    " \x7d"

end Tally

end FrameLoop
