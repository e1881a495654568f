import FrameLoop.Frame.Intake
import FrameLoop.Frame.Splitter

/-
  One connection of the echo server.  The bytes that it sends are cut into lines, and each line is
  sent back with a LF behind it, whatever ended it; a line that is too long is answered with a line
  that says so.
-/

namespace FrameLoop.Echo

/-- The bytes of a text. -/
def encode (text : String) : Bytes := text.toUTF8.data.toList

/-- The answer to what a decoder found. -/
def render : FrameEvent → Bytes
  | .frame bytes => bytes ++ [Bytes.lf]
  | .failed error => encode ("ERR " ++ error.message) ++ [Bytes.lf]

/-- What is to be done with a connection. -/
inductive Errand
  /-- Answer a chunk. -/
  | answer (chunk : Bytes)
  /-- Close it: its sender has come to an end. -/
  | close
  deriving DecidableEq, Repr

/-- A connection: its unfinished line, and what was sent back until it was closed. -/
structure Connection where
  intake : Intake Splitter
  sent : Bytes := []
  closed : Bool := false
  deriving DecidableEq, Repr

namespace Connection

/-- A fresh connection with a number, for lines as the policy has them. -/
def accept (policy : Policy) (number : Nat) : Except FrameError Connection := do
  let decoder ← Splitter.ofDelimiters policy Delimiters.line
  return { intake := { decoder, connection := number } }

/-- Answer a chunk.  Nothing can be sent once the connection is closed. -/
def receive (c : Connection) (chunk : Bytes) : Connection :=
  let fed := c.intake.feed chunk
  { c with
    intake := fed.intake
    sent := if c.closed then c.sent else c.sent ++ fed.events.flatMap render }

/-- Close the connection; an unfinished line is lost. -/
def close (c : Connection) : Connection := { c with closed := true }

/-- Do what is to be done. -/
def perform (c : Connection) : Errand → Connection
  | .answer chunk => c.receive chunk
  | .close => c.close

end Connection

end FrameLoop.Echo
