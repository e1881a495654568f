import FrameLoop.Group.Await
import FrameLoop.Group.Build
import FrameLoop.Group.Settings
import FrameLoop.Group.Tally
import FrameLoop.Rotation

/-
  Groups over executors that are driven from outside: what they do is fixed by their kind, and they
  come to their end when somebody says so.  They show what a group asks of its children, and when.
  To be given up is nothing to them.
-/

namespace FrameLoop.Group

open Loop (Grace)

/-- When a driven executor comes to its end. -/
inductive DrivenKind
  /-- When somebody says so. -/
  | manual
  /-- When it is asked to stop. -/
  | auto
  /-- It is at its end from the beginning. -/
  | ended
  /-- When it is awaited for the `calls`th time; it gives up early before. -/
  | awaited (calls : Nat)
  deriving DecidableEq, Repr

/-- A driven executor. -/
structure Driven where
  kind : DrivenKind
  stopping : Bool := false
  closed : Bool := false
  gone : Bool := false
  /-- Its termination signal is complete. -/
  done : Bool := false
  /-- The group listens to its termination signal. -/
  heard : Bool := false
  /-- How often it has been awaited. -/
  awaits : Nat := 0
  deriving DecidableEq, Repr

/-- An entry of the log of a session. -/
inductive Note (α : Type)
  | create (i : Nat)
  | choose (n : Nat)
  | stop (i : Nat) (grace : Grace)
  | await (i : Nat)
  | task (i : Nat)
  | fired (label : α)
  deriving DecidableEq, Repr

/-- Which rotation a group is given; without a length, for the length it is asked for. -/
inductive RotationPlan
  | standard (length : Option Nat)
  | modulo (length : Option Nat)
  | masked (length : Option Nat)
  | fixed (length : Nat) (positions : List Nat)
  deriving DecidableEq, Repr

/-- The rotation, unless making it panics. -/
def RotationPlan.make? (plan : RotationPlan) (asked : Nat) : Option Rotation :=
  match plan with
  | standard length => Rotation.standard? (.ofNat (length.getD asked))
  | modulo length => Rotation.modulo? (.ofNat (length.getD asked))
  | masked length => Rotation.masked? (.ofNat (length.getD asked))
  | fixed length positions => some (.fixed length positions 0)

/-- What a session is about. -/
structure DrivenPlan where
  /-- How many children are asked for. -/
  size : Nat
  /-- The kinds of the children, over and over. -/
  kinds : List DrivenKind
  /-- What the factory does at one index instead of creating a child. -/
  failure : Option (Nat × Creation) := none
  rotation : RotationPlan := .standard none
  deriving DecidableEq, Repr

/-- A group with its children, and what a session sees of it. -/
structure DrivenWorld (α : Type) where
  plan : DrivenPlan
  children : List Driven := []
  tally : Tally α
  rotation : Option Rotation := none
  now : Instant := .bootedLongAgo
  log : List (Note α) := []

/-- How a group stops where nothing else is said. -/
def standardGrace : Grace :=
  ⟨.ofMillis GroupSettings.standardQuietMillis, .ofMillis GroupSettings.standardTimeoutMillis⟩

namespace DrivenWorld

variable {α : Type}

/-- The world of a plan before anything has happened. -/
def ofPlan (plan : DrivenPlan) : DrivenWorld α := { plan, tally := { size := plan.size } }

/-- Put an entry at the end of the log. -/
def note (w : DrivenWorld α) (n : Note α) : DrivenWorld α := { w with log := w.log ++ [n] }

/-- Change a child. -/
def onChild (w : DrivenWorld α) (i : Nat) (f : Driven → Driven) : DrivenWorld α :=
  { w with children := w.children.modify i f }

/-- A child has come to its end, and the group hears of it. -/
def arrive (w : DrivenWorld α) : DrivenWorld α :=
  let (labels, tally) := w.tally.arrive
  { w with tally, log := w.log ++ labels.map .fired }

/-- Complete the termination signal of a child; whether it was the first to do so. -/
def complete (w : DrivenWorld α) (i : Nat) : Bool × DrivenWorld α :=
  match w.children[i]? with
  | none => (false, w)
  | some child =>
    if child.done then (false, w)
    else
      let w := w.onChild i fun c => { c with done := true }
      (true, if child.heard then w.arrive else w)

/-- Bring a child to its end; whether its termination signal was completed by this. -/
def finish (w : DrivenWorld α) (i : Nat) : Bool × DrivenWorld α :=
  (w.onChild i fun c => { c with closed := true, gone := true }).complete i

/-- The factory. -/
def create (w : DrivenWorld α) (i : Nat) : Creation × DrivenWorld α :=
  let w := w.note (.create i)
  let kind := w.plan.kinds.getD (i % w.plan.kinds.length) .manual
  let child : Driven :=
    if kind = .ended then { kind, closed := true, gone := true, done := true } else { kind }
  match w.plan.failure with
  | some (k, creation) =>
    if k = i then (creation, w) else (.created, { w with children := w.children ++ [child] })
  | none => (.created, { w with children := w.children ++ [child] })

/-- Ask a child to stop. -/
def stopChild (w : DrivenWorld α) (i : Nat) (grace : Grace) : DrivenWorld α :=
  let w := (w.note (.stop i grace)).onChild i fun c => { c with stopping := true }
  match w.children[i]? with
  | some { kind := .auto, .. } => (w.finish i).2
  | _ => w

/-- Wait for the end of a child. -/
def awaitChild (w : DrivenWorld α) (i : Nat) (limit : Span) : Bool × DrivenWorld α :=
  let isOver (w : DrivenWorld α) : Bool := (w.children[i]?).any (·.gone)
  match w.children[i]? with
  | none => (false, w)
  | some child =>
    match child.kind with
    | .awaited calls =>
      let w := (w.note (.await i)).onChild i fun c => { c with awaits := c.awaits + 1 }
      let w := if calls ≤ child.awaits + 1 then (w.finish i).2 else w
      (isOver w, w)
    | _ =>
      let w := if child.done then w else { w with now := w.now.after limit }
      (isOver w, w)

/-- The rotation factory. -/
def choose (w : DrivenWorld α) (n : Nat) : Choice × DrivenWorld α :=
  let w := w.note (.choose n)
  match w.plan.rotation.make? n with
  | none => (.panicked, w)
  | some rotation => (.chosen rotation.length, { w with rotation := some rotation })

/-- Let the group listen to the end of a child. -/
def hear (w : DrivenWorld α) (i : Nat) : DrivenWorld α :=
  if (w.children[i]?).any (·.done) then w.arrive
  else w.onChild i fun c => { c with heard := true }

/-- What the builder of a group calls. -/
def surroundings : Surroundings (DrivenWorld α) where
  create := fun i w => w.create i
  stop := fun i grace w => w.stopChild i grace
  await := fun i limit w => w.awaitChild i limit
  choose := fun n w => w.choose n
  listen := fun i w => w.hear i
  drop := fun _ w => w

/-- How much later each reading of the clock is than the one before. -/
def clockStep : Span := .ofNanos 1000

/-- The clock, and the children as they are awaited. -/
def waitable : Waitable (DrivenWorld α) where
  now := fun w => (w.now, { w with now := w.now.after clockStep })
  await := fun i limit w => w.awaitChild i limit
  isGone := fun i w => (w.children[i]?).any (·.gone)

end DrivenWorld

end FrameLoop.Group
