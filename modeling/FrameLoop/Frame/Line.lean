import FrameLoop.Frame.Decoder
import FrameLoop.Frame.Policy

/-
  Splitting into lines.  A line ends in LF; one CR directly before it belongs to the end of the
  line, and any other CR to the line.  The decoder remembers how much of the buffer it has already
  searched, so that a long line that comes in small pieces is searched once.
-/

namespace FrameLoop

/-- A decoder for lines.  `scanned` bytes at the front of the buffer are known to hold no LF. -/
structure Line where
  policy : Policy
  mode : Mode := .normal
  scanned : Nat := 0
  deriving DecidableEq, Repr

namespace Line

/-- A line decoder for a policy, unless the policy is refused. -/
def ofPolicy (policy : Policy) : Except FrameError Line := do
  policy.check
  return { policy }

/-- The first end of a line at or behind `scanned`: the length of the line before it, and its own
length. -/
def lineEnd (scanned : Nat) (buffer : Bytes) : Option (Nat × Nat) :=
  match Bytes.indexOf? [Bytes.lf] (buffer.drop scanned) with
  | none => none
  | some behind =>
    let i := scanned + behind
    if 0 < i ∧ buffer[i - 1]? = some Bytes.cr then some (i - 1, 2) else some (i, 1)

/-- One call.  The end of a line ends the episode of dropping, or it ends a line; without one, the
buffer is dropped once it holds more than a line may. -/
def decode (l : Line) (buffer : Bytes) : Turn Line :=
  match lineEnd l.scanned buffer, l.mode with
  | some (length, width), .normal =>
    { outcome :=
        if l.policy.maxLength < length then .failed (l.policy.tooLong length)
        else .frame (buffer.take (if l.policy.strip then length else length + width))
      decoder := { l with scanned := 0 }
      rest := buffer.drop (length + width) }
  | some (length, width), .discarding dropped =>
    { outcome :=
        if l.policy.failFast then .nothing else .failed (l.policy.tooLong (dropped + length))
      decoder := { l with mode := .normal, scanned := 0 }
      rest := buffer.drop (length + width) }
  | none, .normal =>
    if l.policy.maxLength < buffer.length then
      { outcome := if l.policy.failFast then .failed (l.policy.tooLong buffer.length) else .nothing
        decoder := { l with mode := .discarding buffer.length, scanned := 0 }
        rest := [] }
    else { outcome := .nothing, decoder := { l with scanned := buffer.length }, rest := buffer }
  | none, .discarding dropped =>
    { outcome := .nothing
      decoder := { l with mode := .discarding (dropped + buffer.length), scanned := 0 }
      rest := [] }

instance : Decoder Line where
  decode := decode

end Line

end FrameLoop
