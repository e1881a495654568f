import FrameLoop.Frame.Line
import FrameLoop.Frame.Scan

/-
  The decoder for a list of delimiters: the customary lists, the check that a list can be split at,
  and the choice between two ways to do it.  The list CR LF, LF is left to the line decoder, which
  searches the buffer once; every other list is scanned for.
-/

namespace FrameLoop

namespace Delimiters

/-- Lines end in CR LF or in LF. -/
def line : List Bytes := [[Bytes.cr, Bytes.lf], [Bytes.lf]]

/-- Records end in a zero byte. -/
def nul : List Bytes := [[0]]

/-- A list is usable when it has a member and no member is empty.  An empty member is reported
even where it is the only one. -/
def check (delimiters : List Bytes) : Except FrameError Unit :=
  if delimiters.any List.isEmpty then .error .emptyDelimiter
  else if delimiters.isEmpty then .error .noDelimiters
  else .ok ()

/-- The list is CR LF and LF, in either order: what a line decoder splits at. -/
def isLine (delimiters : List Bytes) : Bool :=
  delimiters = line || delimiters = line.reverse

end Delimiters

/-- A decoder built from a list of delimiters. -/
structure Splitter where
  delimiters : List Bytes
  engine : Scan ⊕ Line
  deriving DecidableEq, Repr

namespace Splitter

/-- The decoder for a list of delimiters.  Of several faults the limit is reported first, and an
empty delimiter before a missing one. -/
def ofDelimiters (policy : Policy) (delimiters : List Bytes) : Except FrameError Splitter := do
  policy.check
  Delimiters.check delimiters
  return {
    delimiters
    engine :=
      if Delimiters.isLine delimiters then .inr { policy } else .inl { delimiters, policy } }

/-- The decoder for a single delimiter. -/
def ofDelimiter (policy : Policy) (delimiter : Bytes) : Except FrameError Splitter :=
  ofDelimiters policy [delimiter]

/-- The line decoder does the work. -/
def isLine (s : Splitter) : Bool := s.engine.isRight

/-- Whether an oversized frame is being dropped. -/
def mode (s : Splitter) : Mode :=
  match s.engine with
  | .inl scan => scan.mode
  | .inr line => line.mode

/-- One call of the decoder that does the work. -/
def decode (s : Splitter) (buffer : Bytes) : Turn Splitter :=
  match s.engine with
  | .inl scan =>
    let turn := scan.decode buffer
    { turn with decoder := { s with engine := .inl turn.decoder } }
  | .inr line =>
    let turn := line.decode buffer
    { turn with decoder := { s with engine := .inr turn.decoder } }

instance : Decoder Splitter where
  decode := decode

end Splitter

end FrameLoop
