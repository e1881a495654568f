import FrameLoop.Bytes

/-
  How delimiters cut a stream, said of the whole stream at once: at the first place where one of
  them stands in full, then again behind it, until none is left.  Of several that stand at this
  place the one listed first is the delimiter.

  Lines are said without delimiters: what LF ends is a line (`lines`), and what is behind the last
  LF is not (`unended`).
-/

namespace FrameLoop

/-- A part of a stream that a delimiter ends. -/
structure Segment where
  body : Bytes
  delimiter : Bytes
  deriving DecidableEq, Repr

namespace Segment

/-- The bytes of the stream that it stands for. -/
def bytes (s : Segment) : Bytes := s.body ++ s.delimiter

/-- The line made of these bytes and LF.  One CR directly before the LF belongs to the end of the
line. -/
def ofLine (bytes : Bytes) : Segment :=
  if bytes.getLast? = some Bytes.cr then ⟨bytes.dropLast, [Bytes.cr, Bytes.lf]⟩
  else ⟨bytes, [Bytes.lf]⟩

end Segment

/-- The lines of a stream, one for each LF. -/
def lines (stream : Bytes) : List Segment :=
  (stream.splitOn Bytes.lf).dropLast.map Segment.ofLine

/-- The bytes behind the last LF of a stream. -/
def unended (stream : Bytes) : Bytes :=
  (stream.splitOn Bytes.lf).getLast (List.splitOn_ne_nil _ _)

/-- None of the delimiters stands in full anywhere. -/
def Undelimited (delimiters : List Bytes) (stream : Bytes) : Prop :=
  ∀ d ∈ delimiters, ∀ i, ¬ Bytes.OccursAt d stream i

/-- The delimiters cut the stream into these segments and this rest. -/
inductive Cuts (delimiters : List Bytes) : Bytes → List Segment → Bytes → Prop
  /-- There is nothing to cut at. -/
  | rest {stream : Bytes} : Undelimited delimiters stream → Cuts delimiters stream [] stream
  /-- The first segment ends where the first delimiter begins. -/
  | segment {body stream rest : Bytes} {before after segments} {d : Bytes} :
    delimiters = before ++ d :: after →
    (∀ e ∈ delimiters, ∀ i < body.length, ¬ Bytes.OccursAt e (body ++ d ++ stream) i) →
    (∀ e ∈ before, ¬ Bytes.OccursAt e (body ++ d ++ stream) body.length) →
    Cuts delimiters stream segments rest →
    Cuts delimiters (body ++ d ++ stream) (⟨body, d⟩ :: segments) rest

end FrameLoop
