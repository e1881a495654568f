import FrameLoop.Text.Numeral

/-
  Integers read into a word that can overflow.  The number is built up digit by digit, each product
  and each sum within the range of the word: what leaves it on the way is refused at once.  A number
  with a minus sign is built up below zero, so that the lowest one can be read.
-/

namespace FrameLoop.Numeral

/-- The integer, if the range has it. -/
def Range.fit? (r : Range) (n : Int) : Option Int :=
  if r.has n then some n else none

/-- The digits behind the number `n`, which goes away from zero in the one or the other direction. -/
def extend? (r : Range) (below : Bool) (n : Int) : List Char → Option Int
  | [] => some n
  | c :: cs => do
    let d ← digit? c
    let tens ← r.fit? (n * 10)
    let m ← r.fit? (if below then tens - d else tens + d)
    extend? r below m cs

/-- One or more digits. -/
def number? (r : Range) (below : Bool) : List Char → Option Int
  | [] => none
  | c :: cs => extend? r below 0 (c :: cs)

/-- The integer of the range that the text denotes, without ever leaving the range. -/
def checked? (r : Range) : List Char → Option Int
  | '+' :: cs => number? r false cs
  | '-' :: cs => if r.low < 0 then number? r true cs else none
  | cs => number? r false cs

end FrameLoop.Numeral
