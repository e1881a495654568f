import FrameLoop.Frame.Decoder

/-
  A decoder over a buffer that is driven by hand.  Bytes are appended, replaced and dropped without
  the decoder being told, and it is called whenever somebody likes.
-/

namespace FrameLoop

/-- What can be done. -/
inductive BufferAct
  | append (bytes : Bytes)
  /-- Put other bytes in the place of the whole buffer. -/
  | replace (bytes : Bytes)
  /-- Drop up to so many bytes from the front. -/
  | dropFront (count : Nat)
  /-- Call the decoder. -/
  | decode
  deriving DecidableEq, Repr

/-- A decoder and its buffer. -/
structure Buffered (σ : Type) where
  decoder : σ
  buffer : Bytes := []
  deriving DecidableEq, Repr

namespace Buffered

variable {σ : Type} [Decoder σ]

/-- Do something; the answer of the decoder, if it was called. -/
def act (b : Buffered σ) : BufferAct → Option Outcome × Buffered σ
  | .append bytes => (none, { b with buffer := b.buffer ++ bytes })
  | .replace bytes => (none, { b with buffer := bytes })
  | .dropFront count => (none, { b with buffer := b.buffer.drop count })
  | .decode =>
    let turn := Decoder.decode b.decoder b.buffer
    (some turn.outcome, ⟨turn.decoder, turn.rest⟩)

/-- Do several things, one after the other; the answers of the decoder. -/
def run (b : Buffered σ) : List BufferAct → List Outcome × Buffered σ
  | [] => ([], b)
  | a :: as =>
    let (outcome, b) := b.act a
    let (outcomes, b) := run b as
    (outcome.toList ++ outcomes, b)

/-- Call the decoder until it answers that there is nothing, `calls` times at most; its answers, the
last one included. -/
def exhaust : Nat → Buffered σ → List Outcome × Buffered σ
  | 0, b => ([], b)
  | calls + 1, b =>
    let turn := Decoder.decode b.decoder b.buffer
    let b : Buffered σ := ⟨turn.decoder, turn.rest⟩
    match turn.outcome with
    | .nothing => ([.nothing], b)
    | outcome =>
      let (outcomes, b) := exhaust calls b
      (outcome :: outcomes, b)

/-- What a caller does with a chunk: append it, and call the decoder until there is nothing. -/
def serve (b : Buffered σ) (chunk : Bytes) : List Outcome × Buffered σ :=
  let buffer := b.buffer ++ chunk
  exhaust (Decoder.calls b.decoder buffer) { b with buffer }

/-- The same with several chunks, one after the other; all answers of the decoder. -/
def serveAll (b : Buffered σ) : List Bytes → List Outcome × Buffered σ
  | [] => ([], b)
  | chunk :: chunks =>
    let (outcomes, b) := b.serve chunk
    let (more, b) := serveAll b chunks
    (outcomes ++ more, b)

end Buffered

end FrameLoop
