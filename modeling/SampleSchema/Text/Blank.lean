/-!
# White Space

The characters that count as blank around a line, and a text without them at
its ends.

These are the twenty-five characters with the Unicode property White_Space.

## Main definitions

* `Text.whiteRanges`: The characters, as ranges of code points.
* `Text.isWhite`: The character is one of them.
* `Text.trim`: A text without blanks at either end.
-/

namespace SampleSchema

namespace Text

/-- The characters with the property White_Space, as ranges of code points. -/
def whiteRanges : List (Nat × Nat) :=
  [(0x09, 0x0d), (0x20, 0x20), (0x85, 0x85), (0xa0, 0xa0), (0x1680, 0x1680), (0x2000, 0x200a),
    (0x2028, 0x2029), (0x202f, 0x202f), (0x205f, 0x205f), (0x3000, 0x3000)]

/-- The character has the property White_Space. -/
def isWhite (c : Char) : Bool :=
  whiteRanges.any fun r => r.1 ≤ c.toNat && c.toNat ≤ r.2

/-- A text without blanks at its start. -/
def trimStart (cs : List Char) : List Char := cs.dropWhile isWhite

/-- A text without blanks at either end. -/
def trim (cs : List Char) : List Char := (trimStart (trimStart cs).reverse).reverse

end Text

end SampleSchema
