/-
  Lengths of time and readings of the monotonic clock, in nanoseconds.

  A clock reading holds its whole seconds in a signed 64 bit word, so that adding a long span to
  it can overflow; waiting for a span, however long, cannot.
-/

namespace FrameLoop

/-- A length of time. -/
@[ext]
structure Span where
  nanos : Nat
  deriving DecidableEq, Repr

namespace Span

/-- No time at all. -/
def zero : Span := ⟨0⟩

def ofNanos (n : Nat) : Span := ⟨n⟩

def ofMillis (n : Nat) : Span := ⟨n * 1000000⟩

def ofSeconds (n : Nat) : Span := ⟨n * 1000000000⟩

/-- The longest span that can be written: all seconds of a 64 bit word, and the nanoseconds up to
the next. -/
def longest : Span := ⟨Nat.pow 2 64 * 1000000000 - 1⟩

/-- The whole seconds. -/
def seconds (d : Span) : Nat := d.nanos / 1000000000

/-- The nanoseconds behind the whole seconds. -/
def subNanos (d : Span) : Nat := d.nanos % 1000000000

instance : LE Span := ⟨fun a b => a.nanos ≤ b.nanos⟩

instance : LT Span := ⟨fun a b => a.nanos < b.nanos⟩

instance (a b : Span) : Decidable (a ≤ b) := inferInstanceAs (Decidable (a.nanos ≤ b.nanos))

instance (a b : Span) : Decidable (a < b) := inferInstanceAs (Decidable (a.nanos < b.nanos))

instance : Min Span := ⟨fun a b => ⟨min a.nanos b.nanos⟩⟩

instance : Max Span := ⟨fun a b => ⟨max a.nanos b.nanos⟩⟩

/-- What is left of `a` after `b`; nothing when `b` is the longer. -/
instance : Sub Span := ⟨fun a b => ⟨a.nanos - b.nanos⟩⟩

/-- No time at all. -/
def isZero (d : Span) : Bool := d.nanos == 0

end Span

/-- A reading of the monotonic clock. -/
@[ext]
structure Instant where
  nanos : Nat
  deriving DecidableEq, Repr

namespace Instant

instance : LE Instant := ⟨fun a b => a.nanos ≤ b.nanos⟩

instance : LT Instant := ⟨fun a b => a.nanos < b.nanos⟩

instance (a b : Instant) : Decidable (a ≤ b) := inferInstanceAs (Decidable (a.nanos ≤ b.nanos))

instance (a b : Instant) : Decidable (a < b) := inferInstanceAs (Decidable (a.nanos < b.nanos))

instance : Max Instant := ⟨fun a b => ⟨max a.nanos b.nanos⟩⟩

/-- A reading of the clock of a machine that has been up for a day. -/
def bootedLongAgo : Instant := ⟨86400 * 1000000000⟩

/-- The moment `d` behind `t`, on an unbounded clock. -/
def after (t : Instant) (d : Span) : Instant := ⟨t.nanos + d.nanos⟩

/-- The time that has passed between two readings; none if the first is the later. -/
def since (now earlier : Instant) : Span := ⟨now.nanos - earlier.nanos⟩

/-- The seconds that a reading can hold. -/
def maxSeconds : Nat := Nat.pow 2 63 - 1

/-- The moment `d` behind `t`, unless its seconds do not fit into a reading. -/
def deadline? (t : Instant) (d : Span) : Option Instant :=
  let u := t.after d
  if u.nanos / 1000000000 ≤ maxSeconds then some u else none

end Instant

end FrameLoop
