import FrameLoop.Group.Error
import FrameLoop.Loop.Machine
import FrameLoop.Naming

/-
  Tasks written as scripts.  A script is a list of actions; what each of them answered is noted in
  a log.  Scripts are the tasks of the loops that are run in a session.
-/

namespace FrameLoop.Loop

/-- What a script can do; logged values are of type `α`. -/
inductive Action (α : Type)
  /-- Log a value. -/
  | log (value : α)
  /-- Submit a script to the own loop. -/
  | spawn (body : List (Action α))
  /-- Ask the own loop to stop. -/
  | stop (grace : Grace)
  /-- Wait for the end of the own loop, which cannot come meanwhile. -/
  | await (limit : Span)
  /-- Whether this is the thread of the loop. -/
  | inLoop
  /-- How far the loop is on its way to its end. -/
  | state
  /-- How many tasks are queued. -/
  | pending
  /-- Whether the termination signal is complete. -/
  | isDone
  /-- The name of the thread. -/
  | name
  /-- Fail. -/
  | panic
  /-- Rest for a millisecond and submit the whole script again; only a refusal is logged. -/
  | respawn

/-- What an action, or a request from outside, answers. -/
inductive Reply (α : Type)
  | unit
  | accepted
  | refused (error : GroupError)
  | truth (b : Bool)
  | states (stopping closed gone : Bool)
  | number (n : Nat)
  | text (s : String)
  | name (n : ThreadName)
  | value (x : α)
  deriving DecidableEq, Repr

/-- An entry of the log of a session. -/
inductive Entry (α : Type)
  /-- A script did something, and was answered. -/
  | did (action : Action α) (reply : Reply α)
  /-- The termination listener with this label ran. -/
  | fired (label : α)

/-- What is left to do of a running script. -/
inductive Instr (α : Type)
  | act (action : Action α)
  /-- Note an answer in the log. -/
  | note (action : Action α) (reply : Reply α)
  | rest (time : Span)
  /-- Submit the whole script again. -/
  | resubmit
  /-- Wait at the gate. -/
  | gate

/-- A script: all of it, and what is left. -/
structure Script (α : Type) where
  whole : List (Action α)
  todo : List (Instr α)

namespace Script

variable {α : Type}

/-- A script at its beginning. -/
def ofActions (body : List (Action α)) : Script α := ⟨body, body.map .act⟩

/-- The script that waits at the gate. -/
def atGate : Script α := ⟨[], [.gate]⟩

/-- The answer to a submission. -/
def admission (accepted : Bool) : Reply α := if accepted then .accepted else .refused .rejected

/-- The flags of a phase. -/
def states (p : Phase) : Reply α := .states p.isStopping p.isClosed p.isGone

/-- What a running script does next, on the thread `thread`. -/
def code (thread : ThreadName) : Code (Script α) := fun s =>
  let go (todo : List (Instr α)) : Script α := { s with todo }
  match s.todo with
  | [] => .finish
  | .note _ _ :: r | .rest _ :: r | .gate :: r => .skip (go r)
  | .resubmit :: r =>
    .submit (ofActions s.whole) fun accepted =>
      go (if accepted then r else .note .respawn (admission false) :: r)
  | .act a :: r =>
    let note (reply : Reply α) : Script α := go (.note a reply :: r)
    match a with
    | .log x => .skip (note (.value x))
    | .spawn body => .submit (ofActions body) fun accepted => note (admission accepted)
    | .stop grace => .stop grace (note (.truth true))
    | .await _ => .look fun v => note (.truth v.phase.isGone)
    | .inLoop => .skip (note (.truth true))
    | .state => .look fun v => note (states v.phase)
    | .pending => .look fun v => note (.number v.pending)
    | .isDone => .look fun v => note (.truth v.done)
    | .name => .skip (note (.name thread))
    | .panic => .panic
    | .respawn => .skip (go (.rest (.ofMillis 1) :: .resubmit :: r))

end Script

end FrameLoop.Loop
