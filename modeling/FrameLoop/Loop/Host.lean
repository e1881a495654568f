import FrameLoop.Loop.Script
import FrameLoop.Signal.Basic

/-
  A loop that is run.  A host chooses among the steps of the automaton: a call from outside is
  carried to its end, then the thread of the loop goes on until it has to wait.  Each of its steps
  takes a little time; apart from that, time passes only when the one outside waits.
-/

namespace FrameLoop.Loop

/-- A loop with the time it is there, and all that a session sees of it. -/
structure Host (α : Type) where
  thread : ThreadName
  /-- The longest rest of the idle loop. -/
  park : Span
  machine : State (Script α)
  now : Instant
  /-- When the rest of the running script is over. -/
  resting : Option Instant := none
  /-- The script at the gate may pass. -/
  gateOpen : Bool := false
  /-- The calls whose tasks have ended. -/
  finished : List Nat := []
  /-- The termination signal, with the labels of its listeners. -/
  signal : Signal α := {}
  log : List (Entry α) := []

namespace Host

variable {α : Type}

/-- The shortest time that a thread sleeps, however short a rest it asks for.  So an idle loop that
is told not to rest at all lets the time pass in steps of this length. -/
def shortestSleep : Span := .ofNanos 50000

/-- A loop that begins at the moment `now`. -/
def begin (thread : ThreadName) (park : Span) (now : Instant) : Host α :=
  { thread, park := max park shortestSleep, now, machine := .begin now }

/-- How many steps the thread of a loop is followed, and how many moments are waited for, before
it is given up. -/
def patience : Nat := 10000000

/-- Put an entry at the end of the log. -/
def note (h : Host α) (e : Entry α) : Host α := { h with log := h.log ++ [e] }

/-- Take the consequences of an event: the termination signal is completed and its listeners run,
and ended tasks are remembered. -/
def observe (h : Host α) : Event → Host α
  | .finished call _ => { h with finished := call :: h.finished }
  | .completed =>
    match h.signal.complete? with
    | none => h
    | some (labels, signal) =>
      { h with signal := signal.settle, log := h.log ++ labels.map .fired }
  | _ => h

/-- Make a step of the automaton, if it can be made. -/
def make (h : Host α) (label : Step (Script α)) : Host α :=
  match step (Script.code h.thread) h.park h.machine label with
  | none => h
  | some (machine, events) => events.foldl observe { h with machine }

/-- The next instruction of the running script. -/
def instruction? (h : Host α) : Option (Instr α) :=
  match h.machine.place with
  | .body _ _ _ script => script.todo.head?
  | _ => none

/-- The running script waits at the gate. -/
def isAtGate (h : Host α) : Bool :=
  match h.instruction? with
  | some .gate => true
  | _ => false

/-- The thread of the loop has to wait. -/
def isHeld (h : Host α) : Bool :=
  match h.machine.place with
  | .asleep wakeAt => !h.machine.token && h.now < wakeAt
  | .stopped | .failed => true
  | _ =>
    match h.instruction? with
    | some .gate => !h.gateOpen
    | some (.rest _) => h.resting.any (h.now < ·)
    | _ => false

/-- When the thread of the loop will go on by itself. -/
def nextMove? (h : Host α) : Option Instant :=
  match h.machine.place with
  | .asleep wakeAt => some wakeAt
  | _ => h.resting

/-- The time that a step of the thread of the loop takes. -/
def stepTime : Span := .ofNanos 50

/-- A step of the thread of the loop, with what the running script does besides. -/
def tick (h : Host α) : Host α :=
  let h := { h with now := h.now.after stepTime }
  match h.instruction?, h.resting with
  | some (.note action reply), _ => (h.note (.did action reply)).make (.loop h.now)
  | some (.rest time), none => { h with resting := some (h.now.after time) }
  | some (.rest _), some _ => { h with resting := none }.make (.loop h.now)
  | some .gate, _ => { h with gateOpen := false }.make (.loop h.now)
  | _, _ => h.make (.loop h.now)

/-- Follow the thread of the loop until it has to wait. -/
def settle : Nat → Host α → Host α
  | 0, h => h
  | fuel + 1, h => if h.isHeld then h else settle fuel h.tick

/-- Let time pass until `goal` is reached, or the deadline. -/
def passUntil (goal : Host α → Bool) (deadline : Instant) : Nat → Host α → Host α
  | 0, h => h
  | fuel + 1, h =>
    let h := h.settle patience
    if goal h then h
    else
      match h.nextMove? with
      | none => { h with now := max h.now deadline }
      | some t =>
        if deadline < t then { h with now := max h.now deadline }
        else passUntil goal deadline fuel { h with now := t }

/-- Wait for `goal`, for a time at most. -/
def waitFor (goal : Host α → Bool) (limit : Span) (h : Host α) : Host α :=
  passUntil goal (h.now.after limit) patience h

/-- The steps that a call can take. -/
def longestCall : Nat := 6

/-- Carry a call to its end: nobody else calls meanwhile. -/
def finishCall : Nat → Host α → Host α
  | 0, h => h
  | fuel + 1, h => if h.machine.callers.isEmpty then h else finishCall fuel (h.make (.caller 0))

/-- A call from outside, and what the loop does upon it. -/
def call (h : Host α) (label : Step (Script α)) : Host α :=
  (finishCall longestCall (h.make label)).settle patience

/-- Submit a script: the number of the call, if the script was taken. -/
def submit (h : Host α) (script : Script α) : Option Nat × Host α :=
  let taken := !h.machine.phase.isClosed
  let number := h.machine.calls
  let h := h.call (.submit script)
  (if taken then some number else none, h)

/-- Ask the loop to stop. -/
def stop (h : Host α) (grace : Grace) : Host α := h.call (.request grace)

/-- Give up the last handle on the loop. -/
def release (h : Host α) : Host α := h.call .release

/-- The loop is gone. -/
def isGone (h : Host α) : Bool := h.machine.phase.isGone

/-- Wait for the end of the loop, for a time at most; whether it has come. -/
def await (h : Host α) (limit : Span) : Bool × Host α :=
  let h := h.waitFor (·.signal.settled) limit
  (h.isGone, h)

/-- Wait for the termination signal, for a time at most; whether it is settled. -/
def awaitSignal (h : Host α) (limit : Span) : Bool × Host α :=
  let h := h.waitFor (·.signal.settled) limit
  (h.signal.settled, h)

/-- Longer than any loop of a session takes. -/
def longWait : Span := .ofSeconds 3600

/-- Wait until the task of a call has ended. -/
def waitForTask (h : Host α) (call : Nat) : Host α :=
  h.waitFor (·.finished.contains call) longWait

/-- Wait until all that is queued has run; `false` if the loop takes no tasks. -/
def sync (h : Host α) : Bool × Host α :=
  match h.submit (.ofActions []) with
  | (none, h) => (false, h)
  | (some call, h) => (true, h.waitForTask call)

/-- Wait until the queue is empty, with `fuel` tries; `false` if the loop takes no tasks. -/
def syncAll : Nat → Host α → Bool × Host α
  | 0, h => (true, h)
  | fuel + 1, h =>
    match h.sync with
    | (false, h) => (false, h)
    | (true, h) => if h.machine.queue.isEmpty then (true, h) else syncAll fuel h

/-- Add a listener to the termination signal. -/
def listen (h : Host α) (label : α) : Host α :=
  match h.signal.listen? label with
  | some signal => { h with signal }
  | none => h.note (.fired label)

/-- The log so far, and the host with an empty one. -/
def takeLog (h : Host α) : List (Entry α) × Host α := (h.log, { h with log := [] })

/-- The loop as it is shown to people. -/
def text (h : Host α) : String :=
  "SingleThreadEventLoop \x7b state: " ++ toString h.machine.phase.rank ++ ", pending_tasks: " ++
    toString h.machine.queue.length ++ " \x7d"

end Host

end FrameLoop.Loop
