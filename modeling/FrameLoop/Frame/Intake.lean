import FrameLoop.Frame.Decoder

/-
  The buffer of one connection, and the loop that runs a decoder over it.  Chunks are appended as
  they arrive; the decoder is called until the buffer is empty or a call makes no progress.
-/

namespace FrameLoop

/-- What the consumer of a connection is told. -/
inductive FrameEvent
  | frame (bytes : Bytes)
  | failed (error : FrameError)
  deriving DecidableEq, Repr

/-- What the consumer is told about one decode call. -/
def Outcome.event? : Outcome → Option FrameEvent
  | .frame bytes => some (.frame bytes)
  | .nothing => none
  | .failed error => some (.failed error)

/-- The outcome hands out a frame. -/
def Outcome.isFrame : Outcome → Bool
  | .frame _ => true
  | _ => false

section Drain

variable {σ : Type} [Decoder σ]

/-- The decode calls of one pass over `buffer`, in order, at most `calls` of them.  The pass ends
when the buffer is empty, and after a call that neither gave a frame nor took a byte. -/
def drain : Nat → σ → Bytes → List (Turn σ)
  | 0, _, _ => []
  | calls + 1, decoder, buffer =>
    if buffer.isEmpty then []
    else
      let turn := Decoder.decode decoder buffer
      if turn.outcome.isFrame || turn.rest.length ≠ buffer.length then
        turn :: drain calls turn.decoder turn.rest
      else [turn]

end Drain

/-- The bytes of one connection that wait for a delimiter, and their decoder. -/
structure Intake (σ : Type) where
  decoder : σ
  connection : Nat
  buffer : Bytes := []
  deriving DecidableEq, Repr

/-- The result of a feed: what the consumer was told, and the intake afterwards. -/
structure Fed (σ : Type) where
  events : List FrameEvent
  frames : Nat
  intake : Intake σ

namespace Intake

variable {σ : Type} [Decoder σ]

/-- The number of bytes that wait for a delimiter. -/
def buffered (a : Intake σ) : Nat := a.buffer.length

/-- The decode calls that a chunk causes. -/
def turns (a : Intake σ) (chunk : Bytes) : List (Turn σ) :=
  let buffer := a.buffer ++ chunk
  drain (Decoder.calls a.decoder buffer) a.decoder buffer

/-- Append a chunk and decode as far as possible. -/
def feed (a : Intake σ) (chunk : Bytes) : Fed σ :=
  let turns := a.turns chunk
  { events := turns.filterMap (·.outcome.event?)
    frames := turns.countP (·.outcome.isFrame)
    intake :=
      match turns.getLast? with
      | none => { a with buffer := a.buffer ++ chunk }
      | some last => { a with decoder := last.decoder, buffer := last.rest } }

/-- Feed several chunks, one after the other; everything that the consumer was told. -/
def feedAll (a : Intake σ) : List Bytes → Fed σ
  | [] => { events := [], frames := 0, intake := a }
  | chunk :: chunks =>
    let fed := a.feed chunk
    let more := feedAll fed.intake chunks
    { events := fed.events ++ more.events
      frames := fed.frames + more.frames
      intake := more.intake }

end Intake

end FrameLoop
