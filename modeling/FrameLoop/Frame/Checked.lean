import FrameLoop.Frame.Splitter

/-
  The decoders once more, with operations that can fail.

  A buffer is indexed and sliced by offsets, and offsets and counts are words of 64 bits.  What is
  out of bounds, and what does not fit into a word, ends the program: here it is `none`.  A call is
  made step by step, each offset computed where it is used.
-/

namespace FrameLoop

namespace Checked

/-- Offsets and counts are less than this. -/
def wordLimit : Nat := Nat.pow 2 64

/-- The sum of two words. -/
def add? (m n : Nat) : Option Nat :=
  if m + n < wordLimit then some (m + n) else none

/-- The difference of two words. -/
def sub? (m n : Nat) : Option Nat :=
  if n ≤ m then some (m - n) else none

/-- The bytes from an offset on. -/
def from? (buffer : Bytes) (start : Nat) : Option Bytes :=
  if start ≤ buffer.length then some (buffer.drop start) else none

/-- Split so many bytes off the front. -/
def splitTo? (buffer : Bytes) (count : Nat) : Option (Bytes × Bytes) :=
  if count ≤ buffer.length then some (buffer.take count, buffer.drop count) else none

/-- Drop so many bytes from the front. -/
def advance? (buffer : Bytes) (count : Nat) : Option Bytes :=
  if count ≤ buffer.length then some (buffer.drop count) else none

/-- Drop a frame of `length` bytes and the delimiter of `width` bytes behind it. -/
def skip? (buffer : Bytes) (length width : Nat) : Option Bytes := do
  let count ← add? length width
  advance? buffer count

/-- Where a pattern first stands in full.  The windows of the buffer that it is compared with must
not be empty. -/
def find? (pattern buffer : Bytes) : Option (Option Nat) :=
  if pattern.isEmpty then none else some (Bytes.indexOf? pattern buffer)

end Checked

open Checked

/-- Cut off the frame of `length` bytes at the front and the delimiter of `width` bytes behind it:
the answer, and what is left. -/
def Policy.cutOff? (p : Policy) (buffer : Bytes) (length width : Nat) :
    Option (Outcome × Bytes) :=
  if p.maxLength < length then do
    let rest ← skip? buffer length width
    return (.failed (p.tooLong length), rest)
  else if p.strip then do
    let (frame, rest) ← splitTo? buffer length
    let rest ← advance? rest width
    return (.frame frame, rest)
  else do
    let count ← add? length width
    let (frame, rest) ← splitTo? buffer count
    return (.frame frame, rest)

namespace Line

/-- The first end of a line, from the remembered place on or from the end of the buffer. -/
def lineEnd? (scanned : Nat) (buffer : Bytes) : Option (Option (Nat × Nat)) := do
  let start := min scanned buffer.length
  let tail ← from? buffer start
  match Bytes.indexOf? [Bytes.lf] tail with
  | none => return none
  | some behind =>
    let i ← add? start behind
    if 0 < i then
      let last ← sub? i 1
      let byte ← buffer[last]?
      if byte = Bytes.cr then return some (last, 2) else return some (i, 1)
    else return some (i, 1)

/-- One call. -/
def decode? (l : Line) (buffer : Bytes) : Option (Turn Line) := do
  match ← lineEnd? l.scanned buffer, l.mode with
  | some (length, width), .normal =>
    let (outcome, rest) ← l.policy.cutOff? buffer length width
    return { outcome, decoder := { l with scanned := 0 }, rest }
  | some (length, width), .discarding dropped =>
    let total ← add? dropped length
    let rest ← skip? buffer length width
    return {
      outcome := if l.policy.failFast then .nothing else .failed (l.policy.tooLong total)
      decoder := { l with mode := .normal, scanned := 0 }
      rest }
  | none, .normal =>
    if l.policy.maxLength < buffer.length then
      let rest ← advance? buffer buffer.length
      return {
        outcome := if l.policy.failFast then .failed (l.policy.tooLong buffer.length) else .nothing
        decoder := { l with mode := .discarding buffer.length, scanned := 0 }
        rest }
    else
      return { outcome := .nothing, decoder := { l with scanned := buffer.length }, rest := buffer }
  | none, .discarding dropped =>
    let total ← add? dropped buffer.length
    return {
      outcome := .nothing
      decoder := { l with mode := .discarding total, scanned := 0 }
      rest := [] }

end Line

namespace Scan

/-- The shortest frame at the front of the buffer, with the delimiter that ends it. -/
def shortest? (delimiters : List Bytes) (buffer : Bytes) : Option (Option (Nat × Bytes)) :=
  delimiters.foldlM
    (fun best d => do
      match ← Checked.find? d buffer with
      | none => return best
      | some length => return earlier best (length, d))
    none

/-- One call. -/
def decode? (s : Scan) (buffer : Bytes) : Option (Turn Scan) := do
  match ← shortest? s.delimiters buffer, s.mode with
  | some (length, d), .discarding dropped =>
    let rest ← skip? buffer length d.length
    return {
      outcome := if s.policy.failFast then .nothing else .failed (s.policy.tooLong dropped)
      decoder := { s with mode := .normal }
      rest }
  | some (length, d), .normal =>
    let (outcome, rest) ← s.policy.cutOff? buffer length d.length
    return { outcome, decoder := s, rest }
  | none, .discarding dropped =>
    let total ← add? dropped buffer.length
    return { outcome := .nothing, decoder := { s with mode := .discarding total }, rest := [] }
  | none, .normal =>
    if s.policy.maxLength < buffer.length then
      return {
        outcome := if s.policy.failFast then .failed (s.policy.tooLong buffer.length) else .nothing
        decoder := { s with mode := .discarding buffer.length }
        rest := [] }
    else return { outcome := .nothing, decoder := s, rest := buffer }

end Scan

/-- One call of the decoder that does the work. -/
def Splitter.decode? (s : Splitter) (buffer : Bytes) : Option (Turn Splitter) :=
  match s.engine with
  | .inl scan => do
    let turn ← scan.decode? buffer
    return { turn with decoder := { s with engine := .inl turn.decoder } }
  | .inr line => do
    let turn ← line.decode? buffer
    return { turn with decoder := { s with engine := .inr turn.decoder } }

end FrameLoop
