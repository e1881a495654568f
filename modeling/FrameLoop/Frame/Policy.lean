import FrameLoop.Frame.Error
import FrameLoop.Setting

/-
  What a frame decoder is told about frames: how long they may be, whether the delimiter is handed
  out with them, and when an oversized frame is reported.
-/

namespace FrameLoop

/-- The rules that a decoder follows. -/
structure Policy where
  /-- The most bytes that a frame may have, its delimiter not counted. -/
  maxLength : Nat
  /-- Frames are handed out without their delimiter. -/
  strip : Bool := true
  /-- An oversized frame is reported as soon as it is known to be one, and not at its end. -/
  failFast : Bool := true
  deriving DecidableEq, Repr

namespace Policy

/-- The limit where nothing else is said. -/
def standardLength : Nat := 8192

/-- The report on a frame of `length` bytes. -/
def tooLong (p : Policy) (length : Nat) : FrameError := .tooLong p.maxLength length

/-- A policy is usable when it lets some frame pass. -/
def check (p : Policy) : Except FrameError Unit :=
  if p.maxLength = 0 then .error (.invalidLimit p.maxLength) else .ok ()

/-- The standard policy, as far as the environment does not overrule it. -/
def ofEnvironment (env : Environment) : Policy where
  maxLength := env.natural 64 "WEFT_MAX_FRAME_LENGTH" standardLength
  strip := env.flag "WEFT_STRIP_DELIMITER" true
  failFast := env.flag "WEFT_FAIL_FAST" true

end Policy

end FrameLoop
