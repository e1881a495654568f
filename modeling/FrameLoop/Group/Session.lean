import FrameLoop.Group.Driven

/-
  Sessions with a group of driven executors: requests from outside, one after the other, and what
  each of them shows.
-/

namespace FrameLoop.Group

open Loop (Grace)

/-- A request from outside. -/
inductive Request (α : Type)
  /-- The next children, so many of them. -/
  | next (count : Nat)
  /-- So many threads take so many children each; how often each child was taken. -/
  | tally (threads each : Nat)
  /-- Run a task on the next child. -/
  | run
  /-- All children, and which of them have come to their end. -/
  | children
  | stop (grace : Grace)
  | stopStandard
  | await (limit : Span)
  | state
  /-- The group as it is shown to people. -/
  | describe
  /-- Add a listener to the termination signal of the group. -/
  | listen (label : α)
  /-- Give up the group. -/
  | drop
  /-- Bring a child to its end. -/
  | finish (i : Nat)
  /-- Complete the termination signal of a child. -/
  | complete (i : Nat)
  /-- Set the flags of a child; the flag as it was. -/
  | flagStopping (i : Nat)
  | flagClosed (i : Nat)
  | flagGone (i : Nat)
  deriving DecidableEq, Repr

/-- What a request is answered. -/
inductive Reply
  | unit
  | truth (b : Bool)
  | numbers (ns : List Nat)
  | counts (ns : List (Nat × Nat))
  | accepted
  | refused (error : GroupError)
  | children (gone : List Bool)
  | states (stopping closed gone : Bool)
  | text (s : String)
  /-- The group has been given up. -/
  | dropped
  | panicked
  /-- There is no answer yet, and none will come. -/
  | waiting
  deriving DecidableEq, Repr

namespace DrivenWorld

variable {α : Type}

/-- Every child is asked to stop, and so on. -/
def all (w : DrivenWorld α) (p : Driven → Bool) : Bool := w.children.all p

/-- The next `count` children; none if the rotation points beyond them, which panics. -/
def takeNext : Nat → DrivenWorld α → Option (List Nat) × DrivenWorld α
  | 0, w => (some [], w)
  | count + 1, w =>
    match w.rotation with
    | none => (none, w)
    | some rotation =>
      let (i, rotation) := rotation.next
      let w := { w with rotation := some rotation }
      if i < w.children.length then
        let (is, w) := takeNext count w
        (is.map (i :: ·), w)
      else (none, w)

/-- What so many threads take that take so many children each, one thread after the other; none if
a thread panics, which ends this thread and not the others. -/
def takeByThreads (each : Nat) : Nat → DrivenWorld α → Option (List Nat) × DrivenWorld α
  | 0, w => (some [], w)
  | threads + 1, w =>
    let (is, w) := takeNext each w
    let (js, w) := takeByThreads each threads w
    (is.bind fun is => js.map (is ++ ·), w)

/-- Ask every child to stop. -/
def stopAll (w : DrivenWorld α) (grace : Grace) : DrivenWorld α :=
  (List.range w.children.length).foldl (fun w i => w.stopChild i grace) w

/-- Give up the group: unless all children have been asked to stop, they are asked now. -/
def drop (w : DrivenWorld α) : DrivenWorld α :=
  if w.all (·.stopping) then w else w.stopAll standardGrace

/-- How many calls of its children a group may need to be awaited. -/
def patience : Nat := 10000000

/-- Set a flag of a child; the flag as it was. -/
def flag (w : DrivenWorld α) (i : Nat) (get : Driven → Bool) (set : Driven → Driven) :
    Reply × DrivenWorld α :=
  (.truth ((w.children[i]?).any get), w.onChild i set)

/-- Answer a request that does not need the group. -/
def answerAlways (w : DrivenWorld α) : Request α → Option (Reply × DrivenWorld α)
  | .listen label =>
    let (labels, tally) := w.tally.listen label
    some (.unit, { w with tally, log := w.log ++ labels.map .fired })
  | .finish i =>
    let (b, w) := w.finish i
    some (.truth b, w)
  | .complete i =>
    let (b, w) := w.complete i
    some (.truth b, w)
  | .flagStopping i => some (w.flag i (·.stopping) fun c => { c with stopping := true })
  | .flagClosed i => some (w.flag i (·.closed) fun c => { c with closed := true })
  | .flagGone i => some (w.flag i (·.gone) fun c => { c with gone := true })
  | _ => none

/-- Answer a request to the group. -/
def answerGroup (w : DrivenWorld α) : Request α → Reply × DrivenWorld α
  | .next count =>
    match takeNext count w with
    | (some is, w) => (.numbers is, w)
    | (none, w) => (.panicked, w)
  | .tally threads each =>
    match takeByThreads each threads w with
    | (some is, w) => (.counts (Rotation.tally is), w)
    | (none, w) => (.panicked, w)
  | .run =>
    match takeNext 1 w with
    | (some [i], w) =>
      if (w.children[i]?).any (·.closed) then (.refused .rejected, w)
      else (.accepted, w.note (.task i))
    | (_, w) => (.panicked, w)
  | .children => (.children (w.children.map (·.gone)), w)
  | .stop grace => (.truth true, w.stopAll grace)
  | .stopStandard => (.truth true, w.stopAll standardGrace)
  | .await limit =>
    match await waitable patience w.children.length limit w with
    | (.ended b, _, w) => (.truth b, w)
    | (.overflow, _, w) => (.panicked, w)
    | (.waiting, _, w) => (.waiting, w)
  | .state =>
    (.states (w.all (·.stopping)) (w.all (·.closed)) (w.all (·.gone)), w)
  | .describe => (.text w.tally.text, w)
  | _ => (.unit, w)

end DrivenWorld

/-- What a step of a session shows: the answer, the new entries of the log, how many children have
come to their end (unless the group was given up), and whether the group has. -/
structure Shown (α : Type) where
  reply : Reply
  log : List (Note α)
  count : Option Nat
  done : Bool

/-- Answer requests one after the other; `alive` while the group has not been given up. -/
def answerAll {α : Type} :
    List (Request α) → Bool → DrivenWorld α → List (Shown α) × Bool × DrivenWorld α
  | [], alive, w => ([], alive, w)
  | request :: requests, alive, w =>
    let w := { w with log := [] }
    let (reply, alive, w) :=
      match request with
      | .drop => (Reply.unit, false, if alive then w.drop else w)
      | _ =>
        match w.answerAlways request with
        | some (reply, w) => (reply, alive, w)
        | none =>
          if alive then
            let (reply, w) := w.answerGroup request
            (reply, alive, w)
          else (.dropped, alive, w)
    let shown : Shown α :=
      { reply, log := w.log, count := if alive then some w.tally.count else none
        done := w.tally.signal.done }
    let (rest, alive, w) := answerAll requests alive w
    (shown :: rest, alive, w)

/-- What a session shows: how building ended; if the group was built, the log of building it,
whether it had come to its end by then, and the steps; the rest of the log; and which children
have come to their end. -/
structure Session (α : Type) where
  outcome : Outcome
  built : Option (List (Note α) × Bool)
  shown : List (Shown α)
  log : List (Note α)
  ended : List Bool

/-- A whole session.  At its end the group is given up. -/
def Session.run {α : Type} (plan : DrivenPlan) (requests : List (Request α)) : Session α :=
  let (outcome, trail) :=
    build DrivenWorld.surroundings DrivenWorld.patience standardGrace plan.size (.ofPlan plan)
  let w : DrivenWorld α := trail.world
  match outcome with
  | .built =>
    let (shown, alive, last) := answerAll requests true w
    let last := { last with log := [] }
    let last := if alive then last.drop else last
    { outcome, built := some (w.log, w.tally.signal.done), shown, log := last.log
      ended := last.children.map (·.done) }
  | _ => { outcome, built := none, shown := [], log := w.log, ended := w.children.map (·.done) }

end FrameLoop.Group
