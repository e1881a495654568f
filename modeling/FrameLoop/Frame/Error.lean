/-
  What can go wrong with framing: a decoder that cannot be built, and a frame that is too long.
-/

namespace FrameLoop

/-- Why a decoder was refused, or why a decode call failed. -/
inductive FrameError
  /-- One of the delimiters has no bytes. -/
  | emptyDelimiter
  /-- There is no delimiter to split at. -/
  | noDelimiters
  /-- The limit on the frame length is not positive. -/
  | invalidLimit (value : Nat)
  /-- A frame of `length` bytes exceeds `limit`. -/
  | tooLong (limit length : Nat)
  deriving DecidableEq, Repr

namespace FrameError

/-- The error is about how the decoder was configured, and not about the stream. -/
def isSetup : FrameError → Bool
  | tooLong _ _ => false
  | _ => true

/-- The text shown to people.  A frame whose length is still unknown is reported with length 0. -/
def message : FrameError → String
  | emptyDelimiter => "empty delimiter"
  | noDelimiters => "empty delimiters"
  | invalidLimit value => "max_frame_length must be a positive integer: " ++ toString value
  | tooLong limit 0 => "frame length exceeds " ++ toString limit ++ " - discarding"
  | tooLong limit (n + 1) =>
    "frame length exceeds " ++ toString limit ++ ": " ++ toString (n + 1) ++ " - discarded"

end FrameError

end FrameLoop
