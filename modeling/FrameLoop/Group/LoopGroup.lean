import FrameLoop.Group.Await
import FrameLoop.Group.Build
import FrameLoop.Group.Settings
import FrameLoop.Group.Tally
import FrameLoop.Loop.Host
import FrameLoop.Rotation

/-
  Groups of event loops.  The loops go their own ways, but the time is the same for all of them.
-/

namespace FrameLoop.Group

open Loop (Entry Grace Host Script)

/-- A loop of a group. -/
structure Member (α : Type) where
  host : Host α
  /-- The group has heard of its end. -/
  heard : Bool := false

/-- A group of loops, and what a session sees of it. -/
structure LoopWorld (α : Type) where
  config : GroupSettings
  threads : ThreadPool
  members : List (Member α) := []
  tally : Tally α
  rotation : Option Rotation := none
  now : Instant := .bootedLongAgo
  log : List (Entry α) := []

namespace LoopWorld

variable {α : Type}

/-- The world before the group is built. -/
def ofConfig (config : GroupSettings) : LoopWorld α where
  config := config
  threads := (PoolRegistry.openPool {} config.pool).1
  tally := { size := config.loops }

/-- How the loops stop where nothing else is said. -/
def standardGrace (w : LoopWorld α) : Grace := ⟨w.config.quiet, w.config.timeout⟩

/-- Bring a loop to the present moment. -/
def catchUp (now : Instant) (h : Host α) : Host α :=
  if h.now < now then h.waitFor (fun _ => false) (now.since h.now) else h

/-- The group hears of the end of a loop, if it has come and is news: what becomes of the loop, of
the tally and of the log. -/
def hearOne (m : Member α) (tally : Tally α) : Member α × Tally α × List (Entry α) :=
  if m.host.signal.settled && !m.heard then
    let (labels, tally) := tally.arrive
    ({ m with heard := true }, tally, labels.map .fired)
  else (m, tally, [])

/-- The same for several loops. -/
def hearMany : List (Member α) → Tally α → List (Member α) × Tally α × List (Entry α)
  | [], tally => ([], tally, [])
  | m :: ms, tally =>
    let (m, tally, entries) := hearOne m tally
    let (ms, tally, more) := hearMany ms tally
    (m :: ms, tally, entries ++ more)

/-- The group hears of all news. -/
def hearAll (w : LoopWorld α) : LoopWorld α :=
  let (members, tally, entries) := hearMany w.members w.tally
  { w with members, tally, log := w.log ++ entries }

/-- Let the time go on for everybody. -/
def proceedTo (now : Instant) (w : LoopWorld α) : LoopWorld α :=
  hearAll { w with
    now, members := w.members.map fun m => { m with host := catchUp now m.host } }

/-- Do something with the loop at `i`; then the others catch up. -/
def onHost {β : Type} (w : LoopWorld α) (i : Nat) (default : β) (f : Host α → β × Host α) :
    β × LoopWorld α :=
  match w.members[i]? with
  | none => (default, w)
  | some m =>
    let (b, host) := f (catchUp w.now m.host)
    (b, proceedTo host.now { w with members := w.members.set i { m with host } })

/-- Create a loop; its thread must have a name that can be given. -/
def create (w : LoopWorld α) (_ : Nat) : Creation × LoopWorld α :=
  let (name, threads) := w.threads.next
  let w := { w with threads }
  if name.isUsable then
    let host := (Host.begin name w.config.park w.now).settle Host.patience
    (.created, { w with members := w.members ++ [{ host }] })
  else (.panicked, w)

/-- Ask a loop to stop. -/
def stopChild (w : LoopWorld α) (i : Nat) (grace : Grace) : LoopWorld α :=
  (w.onHost i () fun h => ((), h.stop grace)).2

/-- Wait for the end of a loop, for a time at most. -/
def awaitChild (w : LoopWorld α) (i : Nat) (limit : Span) : Bool × LoopWorld α :=
  w.onHost i false fun h => h.await limit

/-- Give up a loop: unless it has been asked to stop before, it is asked to stop at once. -/
def dropChild (w : LoopWorld α) (i : Nat) : LoopWorld α :=
  (w.onHost i () fun h => ((), h.release)).2

/-- The rotation of a group of loops. -/
def choose (w : LoopWorld α) (n : Nat) : Choice × LoopWorld α :=
  match Rotation.standard? (.ofNat n) with
  | none => (.panicked, w)
  | some rotation => (.chosen rotation.length, { w with rotation := some rotation })

/-- What the builder of a group calls. -/
def surroundings : Surroundings (LoopWorld α) where
  create := fun i w => w.create i
  stop := fun i grace w => w.stopChild i grace
  await := fun i limit w => w.awaitChild i limit
  choose := fun n w => w.choose n
  listen := fun _ w => w.hearAll
  drop := fun i w => w.dropChild i

/-- The clock, and the loops as they are awaited. -/
def waitable : Waitable (LoopWorld α) where
  now := fun w => (w.now, w)
  await := fun i limit w => w.awaitChild i limit
  isGone := fun i w => (w.members[i]?).any (·.host.isGone)

/-- All loops are so far on their way to their end. -/
def all (w : LoopWorld α) (p : Loop.Phase → Bool) : Bool :=
  w.members.all fun m => p m.host.machine.phase

/-- Ask every loop to stop. -/
def stopAll (w : LoopWorld α) (grace : Grace) : LoopWorld α :=
  (List.range w.members.length).foldl (fun w i => w.stopChild i grace) w

/-- Give up the group: unless all loops have been asked to stop, they are asked now. -/
def drop (w : LoopWorld α) : LoopWorld α :=
  if w.all (·.isStopping) then w else w.stopAll w.standardGrace

/-- How many calls of its loops a group may need to be awaited. -/
def patience : Nat := 10000000

/-- Let time pass until the group has come to its end, or the deadline. -/
def passUntilDone (deadline : Instant) : Nat → LoopWorld α → LoopWorld α
  | 0, w => w
  | fuel + 1, w =>
    if w.tally.signal.settled || deadline ≤ w.now then w
    else
      let next := w.members.foldl
        (fun t m =>
          match m.host.nextMove? with
          | some u => if u < t then u else t
          | none => t)
        deadline
      passUntilDone deadline fuel (proceedTo (max next w.now) w)

/-- Run a task on a loop and wait for it: the name of its thread, if the loop took it. -/
def runOn (w : LoopWorld α) (i : Nat) : Except GroupError ThreadName × LoopWorld α :=
  w.onHost i (.error .rejected) fun h =>
    match h.submit (.ofActions []) with
    | (none, h) => (.error .rejected, h)
    | (some call, h) => (.ok h.thread, h.waitForTask call)

/-- Run a task on each of the next `count` loops; none if the rotation points beyond them, which
panics. -/
def runNext : Nat → LoopWorld α → Option (List (Except GroupError ThreadName)) × LoopWorld α
  | 0, w => (some [], w)
  | count + 1, w =>
    match w.rotation with
    | none => (none, w)
    | some rotation =>
      let (i, rotation) := rotation.next
      let w := { w with rotation := some rotation }
      if i < w.members.length then
        let (result, w) := w.runOn i
        let (results, w) := runNext count w
        (results.map (result :: ·), w)
      else (none, w)

/-- Open a group: a configuration that is refused is reported as such. -/
def start (config : GroupSettings) : Outcome × LoopWorld α :=
  match config.approve with
  | .error error => (.refused error, .ofConfig config)
  | .ok () =>
    let w : LoopWorld α := .ofConfig config
    let (outcome, trail) := build surroundings patience w.standardGrace config.loops w
    (outcome, trail.world)

end LoopWorld

end FrameLoop.Group
