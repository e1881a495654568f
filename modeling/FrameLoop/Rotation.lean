/-
  Rotations hand out the positions of a fixed array in turn.  They count their calls in a 64 bit
  word that wraps around, and reduce the count by a mask where the length is a power of two, and
  by a remainder elsewhere.  Both are made for the length asked for (`length_masked?`,
  `length_modulo?`).
-/

namespace FrameLoop

/-- The number is a power of two. -/
def isPowerOfTwo (n : Nat) : Bool := Nat.pow 2 n.log2 == n

/-- A source of positions. -/
inductive Rotation
  /-- Count and mask; the length is the mask and one. -/
  | masked (count mask : UInt64)
  /-- Count and remainder. -/
  | modulo (count length : UInt64)
  /-- Positions given in advance, over and over, for an array said to be so long; without any, a
  position behind the array. -/
  | fixed (length : Nat) (positions : List Nat) (count : Nat)
  deriving DecidableEq, Repr

namespace Rotation

/-- The masking rotation; it needs a power of two. -/
def masked? (length : UInt64) : Option Rotation :=
  if isPowerOfTwo length.toNat then some (.masked 0 (length - 1)) else none

/-- The remainder rotation; it needs a position to choose. -/
def modulo? (length : UInt64) : Option Rotation :=
  if 0 < length then some (.modulo 0 length) else none

/-- The masking rotation where it can be used, and the remainder rotation elsewhere. -/
def standard? (length : UInt64) : Option Rotation :=
  if isPowerOfTwo length.toNat then masked? length else modulo? length

/-- The length of the array that the rotation was made for. -/
def length : Rotation → Nat
  | masked _ mask => (mask + 1).toNat
  | modulo _ length => length.toNat
  | fixed length _ _ => length

/-- The next position, and the rotation after the call. -/
def next : Rotation → Nat × Rotation
  | masked count mask => ((count &&& mask).toNat, masked (count + 1) mask)
  | modulo count length => ((count % length).toNat, modulo (count + 1) length)
  | fixed length positions count =>
    (positions.getD (count % positions.length) length, fixed length positions (count + 1))

/-- The next `k` positions, and the rotation after the calls. -/
def take : Nat → Rotation → List Nat × Rotation
  | 0, c => ([], c)
  | k + 1, c =>
    let (i, c) := c.next
    let (is, c) := take k c
    (i :: is, c)

/-- The rotation after `k` calls. -/
def skip : Nat → Rotation → Rotation
  | 0, c => c
  | k + 1, c => skip k c.next.2

/-- How often each position occurs, for the positions that do, in ascending order. -/
def tally (positions : List Nat) : List (Nat × Nat) :=
  (positions.mergeSort).foldr
    (fun i counts =>
      match counts with
      | (j, n) :: rest => if i = j then (j, n + 1) :: rest else (i, 1) :: counts
      | [] => [(i, 1)])
    []

theorem length_masked? {length : UInt64} {c : Rotation} (h : masked? length = some c) :
    c.length = length.toNat := by
  unfold masked? at h
  split at h
  · obtain rfl := Option.some.inj h
    simp only [Rotation.length, UInt64.sub_add_cancel]
  · exact absurd h (by simp)

theorem length_modulo? {length : UInt64} {c : Rotation} (h : modulo? length = some c) :
    c.length = length.toNat := by
  unfold modulo? at h
  split at h
  · obtain rfl := Option.some.inj h
    rfl
  · exact absurd h (by simp)

end Rotation

end FrameLoop
