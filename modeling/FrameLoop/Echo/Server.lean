import FrameLoop.Echo.Connection
import FrameLoop.Group.Settings
import FrameLoop.Rotation

/-
  The echo server.  Each connection is pinned to a loop of a group, and has a reader of its own,
  which hands the chunks that it reads to the loop as tasks, and at the end a task that closes the
  connection.  Decoding and writing happen in the loop only, which does its tasks in their order.

  The server is an automaton: readers and loops do their steps in any order.  To read and to hand
  over are two steps of a reader, to take a task and to do it two of a loop, so that all the others
  can do theirs between them.  What is written gets through, and loops take every task: they are
  only asked to stop when no reader is left.
-/

namespace FrameLoop.Echo

/-- How the server is set up. -/
structure Settings where
  policy : Policy
  group : GroupSettings
  deriving DecidableEq, Repr

/-- Why the server does not begin. -/
inductive Refusal
  | badPolicy (error : FrameError)
  | noLoops (error : GroupError)
  deriving DecidableEq, Repr

namespace Refusal

/-- What the program answers when it ends because of this. -/
def exitCode : Refusal → Nat
  | badPolicy _ => 2
  | noLoops _ => 1

/-- The text shown to people. -/
def message : Refusal → String
  | badPolicy error => "bad decoder configuration: " ++ error.message
  | noLoops error => "failed to start event loops: " ++ error.message

end Refusal

namespace Settings

/-- What the environment says, on a machine with so many cores. -/
def ofEnvironment (cores : Nat) (env : Environment) : Settings where
  policy := .ofEnvironment env
  group := .ofEnvironment cores env

/-- Whether the server can begin; the decoders are looked at before the loops. -/
def check (s : Settings) : Except Refusal Unit :=
  match s.policy.check with
  | .error error => .error (.badPolicy error)
  | .ok () =>
    match s.group.approve with
    | .error error => .error (.noLoops error)
    | .ok () => .ok ()

end Settings

/-- How many bytes a reader reads at a time, at most. -/
def readSize : Nat := 4096

/-- What a reader finds. -/
inductive Input
  | chunk (bytes : Bytes)
  /-- The sender has come to an end. -/
  | ended
  /-- Nothing can be read any more. -/
  | failed
  deriving DecidableEq, Repr

/-- Whether it can be found at a time. -/
def Input.fits : Input → Bool
  | chunk bytes => 0 < bytes.length && bytes.length ≤ readSize
  | _ => true

/-- What the reader of a connection does. -/
inductive Reader
  | reading
  /-- It is about to hand over what it has found. -/
  | handing (errand : Errand)
  | gone
  deriving DecidableEq, Repr

/-- What a reader does when it has found this; of a failure it tells nobody. -/
def Reader.behind : Input → Reader
  | .chunk bytes => .handing (.answer bytes)
  | .ended => .handing .close
  | .failed => .gone

/-- What a reader does when it has handed this over; the end is the last thing that it finds. -/
def Reader.after : Errand → Reader
  | .answer _ => .reading
  | .close => .gone

/-- A task for a loop: something to be done with a connection. -/
structure Job where
  connection : Nat
  errand : Errand
  deriving DecidableEq, Repr

/-- A loop: the tasks that wait, and the one that it has taken. -/
structure Worker where
  queue : List Job := []
  running : Option Job := none
  deriving DecidableEq, Repr

/-- Hand a task to a loop. -/
def Worker.push (w : Worker) (job : Job) : Worker := { w with queue := w.queue ++ [job] }

/-- A connection with its reader and the loop that it is pinned to. -/
structure Peer where
  connection : Connection
  loop : Nat
  reader : Reader := .reading
  deriving DecidableEq, Repr

/-- A server that runs: its loops, and its connections. -/
structure Server where
  policy : Policy
  rotation : Rotation
  loops : List Worker
  peers : List Peer := []
  deriving DecidableEq, Repr

/-- What can happen next. -/
inductive Step
  /-- A connection comes in. -/
  | accept
  /-- The reader of a connection reads. -/
  | read (connection : Nat) (input : Input)
  /-- The reader of a connection hands over what it has found. -/
  | submit (connection : Nat)
  /-- A loop takes the task at the front of its queue. -/
  | take (loop : Nat)
  /-- A loop does the task that it has taken. -/
  | run (loop : Nat)
  deriving DecidableEq, Repr

namespace Server

/-- A server without connections, if it can begin.  A group that passes the check has a loop, and
so a rotation. -/
def start (settings : Settings) : Except Refusal Server := do
  settings.check
  return {
    policy := settings.policy
    rotation := (Rotation.standard? (.ofNat settings.group.loops)).getD (.modulo 0 1)
    loops := List.replicate settings.group.loops {} }

/-- Take a connection: it is pinned to the next loop. -/
def enroll (s : Server) (connection : Connection) : Server :=
  let (loop, rotation) := s.rotation.next
  { s with rotation, peers := s.peers ++ [{ connection, loop }] }

/-- Change what belongs to a connection. -/
def onPeer (s : Server) (i : Nat) (f : Peer → Peer) : Server :=
  { s with peers := s.peers.modify i f }

/-- Change a loop. -/
def onLoop (s : Server) (l : Nat) (f : Worker → Worker) : Server :=
  { s with loops := s.loops.modify l f }

/-- The reader of a connection goes on to something else. -/
def setReader (s : Server) (i : Nat) (reader : Reader) : Server :=
  s.onPeer i fun p => { p with reader }

/-- Do a task. -/
def perform (s : Server) (job : Job) : Server :=
  s.onPeer job.connection fun p => { p with connection := p.connection.perform job.errand }

/-- One step, if it can be made. -/
def step (s : Server) : Step → Option Server
  | .accept =>
    match Connection.accept s.policy (s.peers.length + 1) with
    | .error _ => none
    | .ok connection => some (s.enroll connection)
  | .read i input =>
    match s.peers[i]? with
    | some { reader := .reading, .. } =>
      if input.fits then some (s.setReader i (.behind input)) else none
    | _ => none
  | .submit i =>
    match s.peers[i]? with
    | some { reader := .handing errand, loop, .. } =>
      some ((s.onLoop loop (·.push ⟨i, errand⟩)).setReader i (.after errand))
    | _ => none
  | .take l =>
    match s.loops[l]? with
    | some { queue := job :: queue, running := none } =>
      some (s.onLoop l fun _ => { queue, running := some job })
    | _ => none
  | .run l =>
    match s.loops[l]? with
    | some { queue, running := some job } =>
      some ((s.onLoop l fun _ => { queue }).perform job)
    | _ => none

/-- The server after some steps, if they can be made. -/
def steps (s : Server) : List Step → Option Server
  | [] => some s
  | label :: labels => (s.step label).bind (steps · labels)

end Server

end FrameLoop.Echo
