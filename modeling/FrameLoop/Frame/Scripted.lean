import FrameLoop.Frame.Decoder

/-
  A decoder that follows a script: each call takes a given number of bytes and gives a given kind
  of answer, whatever the bytes are.  It shows how the intake treats decoders of every kind,
  such as one that hands out frames without taking a byte.
-/

namespace FrameLoop

/-- One entry of a script: take up to so many bytes, and answer. -/
inductive Cue
  /-- Hand the bytes out as a frame. -/
  | frame (bytes : Nat)
  /-- Drop the bytes. -/
  | skip (bytes : Nat)
  /-- Drop the bytes and report them as too long. -/
  | fail (bytes : Nat)
  deriving DecidableEq, Repr

/-- A decoder with the entries of its script that are still to come. -/
structure Scripted where
  cues : List Cue
  deriving DecidableEq, Repr

namespace Scripted

/-- One call: the next entry, and nothing at all once the script is used up. -/
def decode (s : Scripted) (buffer : Bytes) : Turn Scripted :=
  match s.cues with
  | [] => { outcome := .nothing, decoder := s, rest := buffer }
  | .frame k :: cues =>
    { outcome := .frame (buffer.take k), decoder := ⟨cues⟩, rest := buffer.drop k }
  | .skip k :: cues => { outcome := .nothing, decoder := ⟨cues⟩, rest := buffer.drop k }
  | .fail k :: cues =>
    { outcome := .failed (.tooLong 0 (buffer.take k).length)
      decoder := ⟨cues⟩
      rest := buffer.drop k }

instance : Decoder Scripted where
  decode := decode
  calls := fun s _ => s.cues.length + 1

end Scripted

end FrameLoop
