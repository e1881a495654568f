/-
  Integers written in decimal: an optional sign and at least one digit, for a number in a given
  range.  Leading zeros are fine; anything else, and every number out of range, is refused.
-/

namespace FrameLoop.Numeral

/-- The integers from `low` to `high`, both included. -/
structure Range where
  low : Int
  high : Int
  deriving DecidableEq, Repr

/-- The integers that `bits` bits hold without a sign. -/
def Range.unsigned (bits : Nat) : Range := ⟨0, .ofNat (Nat.pow 2 bits) - 1⟩

/-- The integers that `bits` bits hold in two's complement. -/
def Range.signed (bits : Nat) : Range :=
  ⟨-.ofNat (Nat.pow 2 (bits - 1)), .ofNat (Nat.pow 2 (bits - 1)) - 1⟩

/-- The range holds the integer. -/
def Range.has (r : Range) (n : Int) : Bool := r.low ≤ n && n ≤ r.high

/-- The value of an ASCII digit. -/
def digit? (c : Char) : Option Nat :=
  if '0' ≤ c ∧ c ≤ '9' then some (c.toNat - '0'.toNat) else none

/-- The digits behind the number `n`, read as one number. -/
def digits? (n : Nat) : List Char → Option Nat
  | [] => some n
  | c :: cs =>
    match digit? c with
    | some d => digits? (10 * n + d) cs
    | none => none

/-- One or more digits. -/
def natural? : List Char → Option Nat
  | [] => none
  | c :: cs => digits? 0 (c :: cs)

/-- An optional sign and digits.  The minus sign belongs to the ranges with negative numbers only,
so that it is refused elsewhere even before a zero. -/
def signed? (r : Range) : List Char → Option Int
  | '+' :: cs => (natural? cs).map Int.ofNat
  | '-' :: cs => if r.low < 0 then (natural? cs).map fun n => -Int.ofNat n else none
  | cs => (natural? cs).map Int.ofNat

/-- The integer of the range that the text denotes. -/
def integer? (r : Range) (cs : List Char) : Option Int :=
  (signed? r cs).filter r.has

end FrameLoop.Numeral
