/-
  White space, after the property of that name of the Unicode character database, and the removal
  of it from both ends of a text.
-/

namespace FrameLoop.Text

/-- The white space characters: first and last code point of each run of them. -/
def blankRuns : List (Nat × Nat) := [
  (0x9, 0xd), (0x20, 0x20), (0x85, 0x85), (0xa0, 0xa0), (0x1680, 0x1680), (0x2000, 0x200a),
  (0x2028, 0x2029), (0x202f, 0x202f), (0x205f, 0x205f), (0x3000, 0x3000)]

/-- The character is white space. -/
def isBlank (c : Char) : Bool :=
  blankRuns.any fun run => run.1 ≤ c.toNat && c.toNat ≤ run.2

/-- The text without the white space at its front. -/
def trimLeft (cs : List Char) : List Char := cs.dropWhile isBlank

/-- The text without the white space at its front and its end. -/
def trim (cs : List Char) : List Char := (trimLeft (trimLeft cs).reverse).reverse

end FrameLoop.Text
