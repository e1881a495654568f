import FrameLoop.Group.Error
import FrameLoop.Loop.Lifecycle

/-
  Building a group.  The children are created one after the other.  If one cannot be created, those
  before it are asked to stop and awaited, one after the other, before the error is handed out; the
  same happens to all of them if the rotation turns out to be made for another number of children.
  A group that no memory could hold fails before anything is created.

  Whenever no group is built the children that are there are given up, in order.  Behind a refusal
  they have come to their end by then.  Where the factory of rotations panics this is all that
  happens to them: what a child does upon it is its own affair, and nobody waits for it.

  What the children, their factory and the rotation do is left open: they live in a world of type
  `σ`, and `build` records in which order it calls them.
-/

namespace FrameLoop.Group

open Loop (Grace)

/-- What the factory does when it is asked for a child. -/
inductive Creation
  | created
  /-- It answers with an error. -/
  | failed (error : GroupError)
  /-- It panics. -/
  | panicked
  deriving DecidableEq, Repr

/-- What the rotation factory does: it hands over a rotation for so many children, or panics. -/
inductive Choice
  | chosen (length : Nat)
  | panicked
  deriving DecidableEq, Repr

/-- A call that the builder makes. -/
inductive Call
  /-- Create the `i`th child. -/
  | create (i : Nat)
  /-- Ask the `i`th child to stop. -/
  | stop (i : Nat) (grace : Grace)
  /-- Wait for the end of the `i`th child. -/
  | await (i : Nat) (limit : Span)
  /-- Make a rotation for so many children. -/
  | choose (n : Nat)
  /-- Listen to the end of the `i`th child. -/
  | listen (i : Nat)
  /-- Give up the `i`th child. -/
  | drop (i : Nat)
  deriving DecidableEq, Repr

/-- Everything that the builder calls, in a world of type `σ`. -/
structure Surroundings (σ : Type) where
  create : Nat → σ → Creation × σ
  stop : Nat → Grace → σ → σ
  await : Nat → Span → σ → Bool × σ
  choose : Nat → σ → Choice × σ
  listen : Nat → σ → σ
  /-- What a child does when it is given up: nobody holds it any more. -/
  drop : Nat → σ → σ

/-- How building ends. -/
inductive Outcome
  | built
  | refused (error : GroupError)
  /-- Building panicked: there is no room for so many children, or the rotation factory did. -/
  | panicked
  /-- A child did not come to its end, and is still awaited. -/
  | waiting
  deriving DecidableEq, Repr

/-- A world, and the calls that led to it. -/
structure Trail (σ : Type) where
  world : σ
  calls : List Call := []

/-- How long a child is awaited at a time. -/
def undoWait : Span := .ofSeconds 60

/-- The most children that a group can have.  It keeps an address of eight bytes for each of them,
and an array has less than 2^63 bytes. -/
def mostChildren : Nat := (Nat.pow 2 63 - 1) / 8

/-- The error that stands for the panic of a factory. -/
def factoryPanic : GroupError := .foreign "executor factory panicked"

section

variable {σ : Type} (s : Surroundings σ)

/-- Make one call to each of the children from `i` on, `k` of them. -/
def callFrom (act : Nat → σ → σ) (call : Nat → Call) : Nat → Nat → Trail σ → Trail σ
  | 0, _, t => t
  | k + 1, i, t => callFrom act call k (i + 1) ⟨act i t.world, t.calls ++ [call i]⟩

/-- Ask the first `k` children to stop. -/
def stopFirst (grace : Grace) (k : Nat) (t : Trail σ) : Trail σ :=
  callFrom (s.stop · grace) (.stop · grace) k 0 t

/-- Listen to the first `k` children. -/
def listenFirst (k : Nat) (t : Trail σ) : Trail σ := callFrom s.listen .listen k 0 t

/-- Give up the first `k` children. -/
def dropFirst (k : Nat) (t : Trail σ) : Trail σ := callFrom s.drop .drop k 0 t

/-- Await a child until it has come to its end, `patience` times at most; `false` if it has not. -/
def awaitChild (i : Nat) : Nat → Trail σ → Bool × Trail σ
  | 0, t => (false, t)
  | patience + 1, t =>
    let (gone, world) := s.await i undoWait t.world
    let t : Trail σ := ⟨world, t.calls ++ [.await i undoWait]⟩
    if gone then (true, t) else awaitChild i patience t

/-- Await the children from `i` on, `k` of them. -/
def awaitFrom (patience : Nat) : Nat → Nat → Trail σ → Bool × Trail σ
  | 0, _, t => (true, t)
  | k + 1, i, t =>
    match awaitChild s i patience t with
    | (true, t) => awaitFrom patience k (i + 1) t
    | (false, t) => (false, t)

/-- Stop the first `k` children, await them and give them up, then refuse to build the group. -/
def undo (patience : Nat) (grace : Grace) (k : Nat) (error : GroupError) (t : Trail σ) :
    Outcome × Trail σ :=
  match awaitFrom s patience k 0 (stopFirst s grace k t) with
  | (true, t) => (.refused error, dropFirst s k t)
  | (false, t) => (.waiting, t)

/-- Create the children from `i` on, `k` of them; on a failure, its index and its error. -/
def createFrom : Nat → Nat → Trail σ → Option (Nat × GroupError) × Trail σ
  | 0, _, t => (none, t)
  | k + 1, i, t =>
    let (creation, world) := s.create i t.world
    let t : Trail σ := ⟨world, t.calls ++ [.create i]⟩
    match creation with
    | .created => createFrom k (i + 1) t
    | .failed error => (some (i, error), t)
    | .panicked => (some (i, factoryPanic), t)

/-- Build a group of `n` children.  Each child that has to be stopped is awaited `patience` times
at most. -/
def build (patience : Nat) (grace : Grace) (n : Nat) (world : σ) : Outcome × Trail σ :=
  if n = 0 then (.refused (.invalid "number of executors must be > 0"), ⟨world, []⟩)
  else if mostChildren < n then (.panicked, ⟨world, []⟩)
  else
    match createFrom s n 0 ⟨world, []⟩ with
    | (some (index, error), t) => undo s patience grace index (.child index error) t
    | (none, t) =>
      let (choice, world) := s.choose n t.world
      let t : Trail σ := ⟨world, t.calls ++ [.choose n]⟩
      match choice with
      | .panicked => (.panicked, dropFirst s n t)
      | .chosen length =>
        if length = n then (.built, listenFirst s n t)
        else
          undo s patience grace n
            (.invalid "chooser length does not match executor count") t

end

end FrameLoop.Group
