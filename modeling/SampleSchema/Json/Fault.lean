/-!
# Faults in a Text

What can be wrong with the letter of a JSON text, and where.

A reader that gives up knows two things about the place: the text it had not
taken yet, and how many bytes of that it had already looked at. A token that
was wrong from its first byte has been looked at, a token that ended too soon
has not, so the number is mostly one or nothing. Keeping the rest of the text
instead of a running count leaves readers free of any bookkeeping; the place
is worked out once, from the rest, when there is something to report.

Lines count from one. A column is the number of bytes of the line up to and
including the last one looked at, so a fault at a line break is at column
zero of the line after it.

## Main definitions

* `Fault`: What is wrong.
* `Fault.message`: Its wording.
* `Position`: Line and column.
* `Position.afterBytes`: The place reached after some bytes of a text.
* `Stop`: A fault, with the text at which a reader stopped.
* `Stop.position`: The place of a stop in the whole text.
-/

namespace SampleSchema

namespace Json

/-- What is wrong with the letter of a text. -/
inductive Fault
  | endInList
  | endInObject
  | endInString
  | endInValue
  | expectedColon
  | expectedListSeparator
  | expectedObjectSeparator
  | expectedWord
  | expectedValue
  | trailingComma
  | trailingText
  | nameNotString
  | badNumber
  | numberTooLarge
  | badEscape
  | loneSurrogate
  | brokenSurrogate
  | controlCharacter
  | tooDeep
  deriving DecidableEq, Repr

/-- The wording of a fault. -/
def Fault.message : Fault → String
  | endInList => "EOF while parsing a list"
  | endInObject => "EOF while parsing an object"
  | endInString => "EOF while parsing a string"
  | endInValue => "EOF while parsing a value"
  | expectedColon => "expected `:`"
  | expectedListSeparator => "expected `,` or `]`"
  | expectedObjectSeparator => "expected `,` or `\x7d`"
  | expectedWord => "expected ident"
  | expectedValue => "expected value"
  | trailingComma => "trailing comma"
  | trailingText => "trailing characters"
  | nameNotString => "key must be a string"
  | badNumber => "invalid number"
  | numberTooLarge => "number out of range"
  | badEscape => "invalid escape"
  | loneSurrogate => "lone leading surrogate in hex escape"
  | brokenSurrogate => "unexpected end of hex escape"
  | controlCharacter => "control character (\\u0000-\\u001F) found while parsing a string"
  | tooDeep => "recursion limit exceeded"

/-- A place in a text. -/
structure Position where
  line : Nat
  column : Nat
  deriving DecidableEq, Repr

/-- The place before the first byte. -/
def Position.start : Position := ⟨1, 0⟩

/-- The place after one more character. -/
def Position.advance (p : Position) (c : Char) : Position :=
  if c = '\n' then ⟨p.line + 1, 0⟩ else ⟨p.line, p.column + c.utf8Size⟩

/-- The place after some bytes of a text, which may end inside a character. -/
def Position.afterBytes (p : Position) : List Char → Nat → Position
  | [], _ => p
  | c :: cs, n =>
      if n < c.utf8Size then ⟨p.line, p.column + n⟩
      else (p.advance c).afterBytes cs (n - c.utf8Size)

/-- The number of bytes of a text. -/
def byteCount (cs : List Char) : Nat := cs.foldr (fun c n => c.utf8Size + n) 0

/-- A fault, with the text at which a reader stopped. -/
structure Stop where
  fault : Fault
  /-- The text not yet taken. -/
  rest : List Char
  /-- How many bytes of it were looked at. -/
  looked : Nat
  deriving Repr

/-- The place of a stop in the whole text. -/
def Stop.position (s : Stop) (whole : List Char) : Position :=
  Position.start.afterBytes whole (byteCount whole - byteCount s.rest + s.looked)

end Json

end SampleSchema
