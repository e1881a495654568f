import FrameLoop.Bytes
import FrameLoop.Frame.Error

/-
  The interface between a frame decoder and the buffer it works on.  One decode call looks at the
  whole buffer, hands out at most one frame, and leaves the bytes that it has not used.
-/

namespace FrameLoop

/-- What one decode call answers. -/
inductive Outcome
  /-- A complete frame was cut off the front of the buffer. -/
  | frame (bytes : Bytes)
  /-- Nothing to hand out; bytes may have been dropped all the same. -/
  | nothing
  /-- A frame was found to be too long. -/
  | failed (error : FrameError)
  deriving DecidableEq, Repr

/-- One decode call: its answer, the decoder afterwards and the bytes left in the buffer. -/
structure Turn (σ : Type) where
  outcome : Outcome
  decoder : σ
  rest : Bytes
  deriving DecidableEq, Repr

/-- Decoders with state `σ`. -/
class Decoder (σ : Type) where
  /-- One call on the whole buffer. -/
  decode : σ → Bytes → Turn σ
  /-- How many calls suffice to work off a buffer.  A decoder that takes a byte with each frame
  needs one call for each byte, and a last one that finds nothing. -/
  calls : σ → Bytes → Nat := fun _ buffer => buffer.length + 1

/-- Whether a decoder is in the middle of dropping an oversized frame, and how many bytes of it
are gone. -/
inductive Mode
  | normal
  | discarding (dropped : Nat)
  deriving DecidableEq, Repr

namespace Mode

/-- The decoder is dropping an oversized frame. -/
def isDiscarding : Mode → Bool
  | normal => false
  | discarding _ => true

/-- The bytes dropped so far in the present episode. -/
def dropped : Mode → Nat
  | normal => 0
  | discarding n => n

end Mode

end FrameLoop
