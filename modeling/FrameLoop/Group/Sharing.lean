import FrameLoop.Rotation

/-
  A group whose children are taken by many threads at once.  A call counts in one step, which tells
  it the position of its child, and looks the child up in a later one.  Between the two other calls
  do what they like, so that calls may return in another order than they have counted in.
-/

namespace FrameLoop.Group

/-- What a thread does that takes children. -/
inductive Taker
  /-- It has no call under way. -/
  | idle
  /-- It has counted, and is about to look up the child at this position. -/
  | counted (position : Nat)
  /-- There was no child at its position. -/
  | panicked
  deriving DecidableEq, Repr

/-- The position that a call under way was given. -/
def Taker.position? : Taker → Option Nat
  | counted position => some position
  | _ => none

/-- A group, as it is seen by those who take its children. -/
structure Sharing where
  /-- How many children there are. -/
  size : Nat
  rotation : Rotation
  takers : List Taker := []
  deriving DecidableEq, Repr

namespace Sharing

/-- What happens in a run. -/
inductive Event
  /-- A call counted, and was given a position. -/
  | counted (taker position : Nat)
  /-- A call returned the child at this position. -/
  | took (taker child : Nat)
  /-- A call found no child. -/
  | panicked (taker : Nat)
  deriving DecidableEq, Repr

/-- The steps. -/
inductive Step
  /-- There is one thread more. -/
  | join
  /-- A thread begins a call, and counts. -/
  | count (taker : Nat)
  /-- A thread looks up its child. -/
  | look (taker : Nat)
  deriving DecidableEq, Repr

/-- A group of so many children with the standard rotation, before a thread uses it. -/
def ofSize (size : Nat) : Option Sharing :=
  (Rotation.standard? (.ofNat size)).map fun rotation => { size, rotation }

/-- One step, if it can be made. -/
def step (g : Sharing) : Step → Option (Sharing × List Event)
  | .join => some ({ g with takers := g.takers ++ [.idle] }, [])
  | .count i =>
    match g.takers[i]? with
    | some .idle =>
      let (position, rotation) := g.rotation.next
      some ({ g with rotation, takers := g.takers.set i (.counted position) },
        [.counted i position])
    | _ => none
  | .look i =>
    match g.takers[i]? with
    | some (.counted position) =>
      if position < g.size then
        some ({ g with takers := g.takers.set i .idle }, [.took i position])
      else some ({ g with takers := g.takers.set i .panicked }, [.panicked i])
    | _ => none

/-- The positions of the calls under way. -/
def underWay (g : Sharing) : List Nat := g.takers.filterMap Taker.position?

end Sharing

end FrameLoop.Group
