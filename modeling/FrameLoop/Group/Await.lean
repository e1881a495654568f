import FrameLoop.Span

/-
  Waiting for the end of a group.  The deadline is fixed at the beginning, and all children are
  awaited against it, one after the other; a child that gives up early is awaited again.  A span
  that leads beyond the last moment that the clock can show is not accepted.
-/

namespace FrameLoop.Group

/-- The children that are awaited and the clock, in a world of type `σ`. -/
structure Waitable (σ : Type) where
  /-- Read the clock. -/
  now : σ → Instant × σ
  /-- Wait for the end of a child, for a time at most. -/
  await : Nat → Span → σ → Bool × σ
  /-- The child has come to its end. -/
  isGone : Nat → σ → Bool

/-- How waiting ends. -/
inductive Waited
  /-- Whether all children have come to their end. -/
  | ended (gone : Bool)
  /-- The deadline cannot be shown by the clock. -/
  | overflow
  /-- It has not ended yet. -/
  | waiting
  deriving DecidableEq, Repr

section

variable {σ : Type} (w : Waitable σ)

/-- A call of a child: which one, for how long, and what it answered. -/
structure ChildWait where
  child : Nat
  limit : Span
  gone : Bool
  deriving DecidableEq, Repr

/-- Wait for the children from `i` on, `k` of them, until the deadline.  The answer holds whether
waiting has come to an end in `fuel` calls of children, and these calls behind those made before,
the last one first. -/
def awaitUntil (deadline : Instant) :
    Nat → Nat → Nat → List ChildWait → σ → Bool × List ChildWait × σ
  | 0, _, _, calls, world => (false, calls, world)
  | _ + 1, 0, _, calls, world => (true, calls, world)
  | fuel + 1, k + 1, i, calls, world =>
    let (now, world) := w.now world
    let left := deadline.since now
    if left.isZero then (true, calls, world)
    else
      let (gone, world) := w.await i left world
      let calls := ⟨i, left, gone⟩ :: calls
      if gone then awaitUntil deadline fuel k (i + 1) calls world
      else awaitUntil deadline fuel (k + 1) i calls world

/-- Wait for the end of `n` children, for a time at most, with `fuel` calls of children; also the
calls, in order. -/
def await (fuel : Nat) (n : Nat) (limit : Span) (world : σ) : Waited × List ChildWait × σ :=
  let (now, world) := w.now world
  match now.deadline? limit with
  | none => (.overflow, [], world)
  | some deadline =>
    let (ended, calls, world) := awaitUntil w deadline fuel n 0 [] world
    let waited :=
      if ended then .ended ((List.range n).all fun i => w.isGone i world) else .waiting
    (waited, calls.reverse, world)

end

end FrameLoop.Group
