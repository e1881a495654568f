import FrameLoop.Frame.Decoder
import FrameLoop.Frame.Policy

/-
  Splitting at any of several delimiters.  Of all delimiters that stand in the buffer the one that
  begins first wins, and of those that begin together the one listed first.  A frame that grows
  over the limit before its delimiter is seen is dropped as it arrives, until a delimiter comes.
-/

namespace FrameLoop

/-- A decoder for a list of delimiters. -/
structure Scan where
  delimiters : List Bytes
  policy : Policy
  mode : Mode := .normal
  deriving DecidableEq, Repr

namespace Scan

/-- The earlier of two hits, each the length of the frame and the delimiter behind it; the first
one on a tie. -/
def earlier (best : Option (Nat × Bytes)) (hit : Nat × Bytes) : Option (Nat × Bytes) :=
  match best with
  | none => some hit
  | some old => if hit.1 < old.1 then some hit else some old

/-- The shortest frame at the front of the buffer, with the delimiter that ends it. -/
def shortest (delimiters : List Bytes) (buffer : Bytes) : Option (Nat × Bytes) :=
  delimiters.foldl
    (fun best d =>
      match Bytes.indexOf? d buffer with
      | none => best
      | some length => earlier best (length, d))
    none

/-- One call.  A delimiter ends the episode of dropping, or it ends a frame; without one, the
buffer is dropped once it holds more than a frame may. -/
def decode (s : Scan) (buffer : Bytes) : Turn Scan :=
  match shortest s.delimiters buffer, s.mode with
  | some (length, d), .discarding dropped =>
    { outcome := if s.policy.failFast then .nothing else .failed (s.policy.tooLong dropped)
      decoder := { s with mode := .normal }
      rest := buffer.drop (length + d.length) }
  | some (length, d), .normal =>
    { outcome :=
        if s.policy.maxLength < length then .failed (s.policy.tooLong length)
        else .frame (buffer.take (if s.policy.strip then length else length + d.length))
      decoder := s
      rest := buffer.drop (length + d.length) }
  | none, .discarding dropped =>
    { outcome := .nothing
      decoder := { s with mode := .discarding (dropped + buffer.length) }
      rest := [] }
  | none, .normal =>
    if s.policy.maxLength < buffer.length then
      { outcome := if s.policy.failFast then .failed (s.policy.tooLong buffer.length) else .nothing
        decoder := { s with mode := .discarding buffer.length }
        rest := [] }
    else { outcome := .nothing, decoder := s, rest := buffer }

instance : Decoder Scan where
  decode := decode

end Scan

end FrameLoop
