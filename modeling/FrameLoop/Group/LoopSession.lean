import FrameLoop.Group.LoopGroup

/-
  Sessions with a group of event loops: requests from outside, one after the other, and what each
  of them shows.
-/

namespace FrameLoop.Group

open Loop (Entry Grace Host)

/-- A request from outside. -/
inductive LoopRequest (α : Type)
  /-- Run a task on each of the next loops, so many of them. -/
  | run (count : Nat)
  /-- Run a task on a loop. -/
  | runOn (i : Nat)
  /-- How many loops there are, and how many have come to their end. -/
  | count
  | stop (grace : Grace)
  | stopStandard
  | await (limit : Span)
  | state
  /-- The group as it is shown to people. -/
  | describe
  /-- Add a listener to the termination signal of the group. -/
  | listen (label : α)
  /-- Take the log. -/
  | takeLog
  | isDone
  /-- Wait for the termination signal of the group. -/
  | awaitSignal (limit : Span)
  /-- How far each loop is on its way to its end. -/
  | phases
  /-- Stop a loop at once, and wait for its end. -/
  | stopChild (i : Nat)
  /-- Give up the group. -/
  | drop
  deriving DecidableEq, Repr

/-- What a request shows. -/
inductive LoopReply (α : Type)
  | unit
  | truth (b : Bool)
  | numbers (ns : List Nat)
  | text (s : String)
  | ran (results : List (Except GroupError ThreadName))
  | ranOne (result : Except GroupError ThreadName)
  | states (stopping closed gone : Bool)
  | phases (ps : List Loop.Phase)
  | log (entries : List (Entry α))
  /-- The group has been given up. -/
  | dropped
  | panicked
  /-- There is no answer yet, and none will come. -/
  | waiting

/-- The time that a loop gets to stop at once. -/
def promptGrace : Grace := ⟨.zero, .ofSeconds 20⟩

namespace LoopWorld

variable {α : Type}

/-- Answer a request that does not need the group. -/
def answerAlways (w : LoopWorld α) : LoopRequest α → Option (LoopReply α × LoopWorld α)
  | .runOn i =>
    if i < w.members.length then
      let (result, w) := w.runOn i
      some (.ranOne result, w)
    else some (.panicked, w)
  | .listen label =>
    let (labels, tally) := w.tally.listen label
    some (.unit, { w with tally, log := w.log ++ labels.map .fired })
  | .takeLog => some (.log w.log, { w with log := [] })
  | .isDone => some (.truth w.tally.signal.done, w)
  | .awaitSignal limit =>
    let w := w.passUntilDone (w.now.after limit) patience
    some (.truth w.tally.signal.settled, w)
  | .phases => some (.phases (w.members.map (·.host.machine.phase)), w)
  | .stopChild i =>
    if i < w.members.length then
      let (b, w) := (w.stopChild i promptGrace).awaitChild i promptGrace.timeout
      some (.truth b, w)
    else some (.panicked, w)
  | _ => none

/-- Answer a request to the group. -/
def answerGroup (w : LoopWorld α) : LoopRequest α → LoopReply α × LoopWorld α
  | .run count =>
    match runNext count w with
    | (some results, w) => (.ran results, w)
    | (none, w) => (.panicked, w)
  | .count => (.numbers [w.members.length, w.tally.count], w)
  | .stop grace => (.truth true, w.stopAll grace)
  | .stopStandard => (.truth true, w.stopAll w.standardGrace)
  | .await limit =>
    match await waitable patience w.members.length limit w with
    | (.ended b, _, w) => (.truth b, w)
    | (.overflow, _, w) => (.panicked, w)
    | (.waiting, _, w) => (.waiting, w)
  | .state =>
    (.states (w.all (·.isStopping)) (w.all (·.isClosed)) (w.all (·.isGone)), w)
  | .describe => (.text w.tally.text, w)
  | _ => (.unit, w)

/-- Answer requests one after the other; `alive` while the group has not been given up. -/
def answerAll : List (LoopRequest α) → Bool → LoopWorld α → List (LoopReply α) × Bool × LoopWorld α
  | [], alive, w => ([], alive, w)
  | request :: requests, alive, w =>
    let (reply, alive, w) :=
      match request with
      | .drop => (LoopReply.unit, false, if alive then w.drop else w)
      | _ =>
        match w.answerAlways request with
        | some (reply, w) => (reply, alive, w)
        | none =>
          if alive then
            let (reply, w) := w.answerGroup request
            (reply, alive, w)
          else (.dropped, alive, w)
    let (replies, alive, w) := answerAll requests alive w
    (reply :: replies, alive, w)

/-- End a session: the group is given up, all loops are asked to stop at once, and the end of the
group is awaited. -/
def conclude (alive : Bool) (w : LoopWorld α) : LoopWorld α :=
  let w := if alive then w.drop else w
  let w := w.stopAll promptGrace
  w.passUntilDone (w.now.after Host.longWait) patience

end LoopWorld

/-- What a session shows: how building ended, the answers, whether the group came to its end, and
the rest of the log. -/
structure LoopSession (α : Type) where
  outcome : Outcome
  shown : List (LoopReply α)
  ended : Bool
  log : List (Entry α)

/-- A whole session with a group that is built for it. -/
def LoopSession.run {α : Type} (config : GroupSettings) (requests : List (LoopRequest α)) :
    LoopSession α :=
  let (outcome, w) := LoopWorld.start config
  match outcome with
  | .built =>
    let (shown, alive, w) := LoopWorld.answerAll requests true w
    let w := w.conclude alive
    { outcome, shown, ended := w.tally.signal.done, log := w.log }
  | _ => { outcome, shown := [], ended := w.tally.signal.done, log := w.log }

end FrameLoop.Group
