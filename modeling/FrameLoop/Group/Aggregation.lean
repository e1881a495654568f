import FrameLoop.Signal.Threads

/-
  How a group learns that all of its children have come to their end.  The builder of the group
  brings a listener to the signal of each child, one after the other, while any thread may do what
  it likes with these signals.  The listener counts, and the one that makes the count full completes
  the signal of the group.

  The threads are those of a crowd, and the builder is the first of them.  Children and group have
  their signals there; more than one child may have the same.  What a group adds to the crowd is
  what its builder and its listeners do.
-/

namespace FrameLoop.Group

open Signal (Act Crowd Entry Happening Thread)

/-- How far a listener is. -/
inductive ListenerStage
  /-- About to count. -/
  | count
  /-- It made the count full; about to complete the signal of the group. -/
  | attempt
  /-- It has nothing left to do but to return from its call, if it made one. -/
  | atEnd
  deriving DecidableEq, Repr

/-- A child of the group. -/
structure Child where
  /-- What is completed when the child has come to its end. -/
  signal : Nat
  /-- The listener of the group, if the builder has brought it. -/
  listener : Option Nat := none
  /-- How far this listener is, while it runs. -/
  stage : Option ListenerStage := none
  deriving DecidableEq, Repr

namespace Child

/-- Whether this is the listener that the group has brought for the child. -/
def Has (c : Child) (signal listener : Nat) : Prop :=
  c.signal = signal ∧ c.listener = some listener

instance (c : Child) (signal listener : Nat) : Decidable (c.Has signal listener) :=
  inferInstanceAs (Decidable (_ ∧ _))

/-- Follow the listener of the child through what happens. -/
def hear (c : Child) : Happening → Child
  | .began p l => if c.Has p l then { c with stage := some .count } else c
  | .ended p l _ => if c.Has p l then { c with stage := none } else c
  | _ => c

end Child

/-- A group, and the threads that use its signal and those of its children. -/
structure Aggregation where
  crowd : Crowd
  /-- The signal of the group. -/
  signal : Nat
  children : List Child
  /-- The child for which the builder brings a listener next. -/
  next : Nat := 0
  /-- The builder has handed out the group. -/
  built : Bool := false
  /-- How many children have come to their end, as far as the group knows. -/
  count : Nat := 0

namespace Aggregation

/-- What happens in a run. -/
inductive Event
  | crowd (e : Entry)
  /-- The listener of a child counted. -/
  | counted (child : Nat)
  /-- The listener of a child began to complete the signal of the group. -/
  | attempted (child : Nat)
  deriving DecidableEq, Repr

/-- The steps. -/
inductive Step
  /-- A thread begins, or does something that is not a step of the builder or of a listener of the
  group. -/
  | crowd (label : Crowd.Step)
  /-- The builder brings a listener for the next child. -/
  | register
  /-- The builder hands out the group. -/
  | handOut
  /-- The listener of a child does its next step, on the thread on which it runs. -/
  | listener (child thread : Nat)
  deriving DecidableEq, Repr

/-- A group before the builder has begun, its children with these signals. -/
def begin (signal : Nat) (futures : List Nat) : Aggregation :=
  { crowd := { threads := [{}] }, signal, children := futures.map fun p => { signal := p } }

/-- How many children there are. -/
def size (a : Aggregation) : Nat := a.children.length

/-- What a thread may do by itself.  A listener of the group calls nothing by itself; it ends at its
end, and does not panic.  Nobody else completes the signal of the group. -/
def Allows (a : Aggregation) (x : Thread) : Act → Prop
  | .call p c =>
    (∀ f ∈ x.frames.head?, ∀ child ∈ a.children, ¬child.Has f.signal f.listener) ∧
      ¬(p = a.signal ∧ c = .complete)
  | .finish failed =>
    ∀ f ∈ x.frames.head?, ∀ child ∈ a.children, child.Has f.signal f.listener →
      failed = false ∧ child.stage = some .atEnd
  | .go | .timeUp => True

instance (a : Aggregation) (x : Thread) (act : Act) : Decidable (a.Allows x act) :=
  match act with
  | .call _ _ => inferInstanceAs (Decidable (_ ∧ ¬(_ ∧ _)))
  | .finish _ => inferInstanceAs (Decidable (∀ f ∈ x.frames.head?, _))
  | .go | .timeUp => inferInstanceAs (Decidable True)

/-- A step of the crowd, which the children hear. -/
def observe (a : Aggregation) (label : Crowd.Step) : Option (Aggregation × List Event) :=
  match a.crowd.step label with
  | none => none
  | some (crowd, entries) =>
    some ({ a with
      crowd
      children := a.children.map fun c => (entries.map Entry.what).foldl Child.hear c },
      entries.map .crowd)

/-- The builder brings a listener to the signal of the next child, which is `c`. -/
def register (a : Aggregation) (c : Child) : Option (Aggregation × List Event) :=
  match a.observe (.act 0 (.call c.signal .listen)) with
  | none => none
  | some (b, events) =>
    some ({ b with
      children := b.children.set a.next { c with listener := some a.crowd.registered }
      next := a.next + 1 }, events)

/-- The next step of the listener of the child `c` at the place `i`, on a thread. -/
def stepListener (a : Aggregation) (i : Nat) (c : Child) (thread : Nat) :
    Option (Aggregation × List Event) :=
  match c.stage with
  | some .count =>
    let stage := if a.count + 1 = a.size then .attempt else .atEnd
    some ({ a with
      count := a.count + 1
      children := a.children.set i { c with stage := some stage } }, [.counted i])
  | some .attempt =>
    match a.observe (.act thread (.call a.signal .complete)) with
    | none => none
    | some (b, events) =>
      some ({ b with children := b.children.set i { c with stage := some .atEnd } },
        .attempted i :: events)
  | _ => none

/-- One step, if it can be made. -/
def step (a : Aggregation) : Step → Option (Aggregation × List Event)
  | .crowd .fork => a.observe .fork
  | .crowd (.act i act) =>
    match a.crowd.threads[i]? with
    | none => none
    | some x => if a.Allows x act then a.observe (.act i act) else none
  | .register =>
    match a.children[a.next]? with
    | none => none
    | some c => if a.crowd.threads[0]? = some {} then a.register c else none
  | .handOut =>
    if a.next = a.size ∧ a.crowd.threads[0]? = some {} then some ({ a with built := true }, [])
    else none
  | .listener i thread =>
    match a.children[i]?, a.crowd.threads[thread]? with
    | some c, some ⟨none, f :: _⟩ =>
      if c.Has f.signal f.listener then a.stepListener i c thread else none
    | _, _ => none

/-- The states that can be reached, each with all that has happened on the way.  A group has
children, and a signal of its own. -/
inductive Reachable (signal : Nat) (futures : List Nat) : Aggregation → List Event → Prop
  | begin : futures ≠ [] → signal ∉ futures → Reachable signal futures (.begin signal futures) []
  | step {a b : Aggregation} {history events : List Event} (label : Step) :
    Reachable signal futures a history → a.step label = some (b, events) →
      Reachable signal futures b (history ++ events)

end Aggregation

end FrameLoop.Group
