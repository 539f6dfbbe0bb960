import SampleSchema.Yaml.Fault

/-!
# Places in a YAML Document

Text that is left, with the line and column where it starts.

YAML is written in columns: where a token stands decides what it belongs to.
A cursor therefore keeps the place beside the text. Columns and the running
index count characters. A loop over a cursor takes the text in front of it as
a bound, of which each step lets go of one character.

Between two parts of a scalar there may be blanks and line breaks, and what
they stand for depends on which there are. Blanks within a line stand for
themselves. Where a line ends, blanks around the break are dropped, a single
break becomes one blank, and of several breaks the first is dropped.

## Main definitions

* `Cursor`: The text left, and where it starts.
* `isBreak`, `isBlank`: The characters between words.
* `Gap`: Blanks and breaks that have been passed.
* `Gap.text`: What they stand for.
* `Gap.pass`: Pass over blanks and breaks.
-/

namespace SampleSchema

namespace Yaml

/-- The text left, and where it starts. -/
structure Cursor where
  rest : List Char
  line : Nat := 0
  column : Nat := 0
  index : Nat := 0

/-- A character ends a line. -/
def isBreak (c : Char) : Bool :=
  c == '\n' || c == '\r' || c == '\u0085' || c == '\u2028' || c == '\u2029'

/-- A character is a blank within a line. -/
def isBlank (c : Char) : Bool := c == ' ' || c == '\t'

/-- A text starts with a blank or a break, or is over. -/
def atBlank : List Char → Bool
  | [] => true
  | c :: _ => isBlank c || isBreak c

/-- A text starts with a line break. -/
def atBreak : List Char → Bool
  | [] => false
  | c :: _ => isBreak c

namespace Cursor

/-- Some characters of the line further on. -/
def skip (c : Cursor) (n : Nat) : Cursor :=
  { c with rest := c.rest.drop n, column := c.column + n, index := c.index + n }

/-- The beginning of the next line. A carriage return with a line feed is one
    break. -/
def skipBreak (c : Cursor) : Cursor :=
  let n :=
    match c.rest with
    | '\r' :: '\n' :: _ => 2
    | _ => 1
  { rest := c.rest.drop n, line := c.line + 1, column := 0, index := c.index + n }

/-- The character that a break stands for. -/
def breakChar (c : Cursor) : Char :=
  match c.rest with
  | '\u2028' :: _ => '\u2028'
  | '\u2029' :: _ => '\u2029'
  | _ => '\n'

/-- The line starts with three given characters and then a blank. -/
def atTriple (c : Cursor) (m : Char) : Bool :=
  match c.rest with
  | x :: y :: z :: rest => c.column == 0 && x == m && y == m && z == m && atBlank rest
  | _ => false

/-- The line is a border between documents. -/
def atBorder (c : Cursor) : Bool := c.atTriple '-' || c.atTriple '.'

end Cursor

/-- Blanks and breaks that have been passed. -/
structure Gap where
  /-- Blanks since the last part, as long as the line has not ended. -/
  blanks : List Char := []
  /-- The breaks. -/
  breaks : List Char := []
  /-- The line has ended. -/
  ended : Bool := false
  /-- The line was made to end, so that its break stands for nothing. -/
  escaped : Bool := false

namespace Gap

/-- What blanks and breaks stand for between two parts of a scalar. -/
def text (g : Gap) : List Char :=
  if !g.ended then g.blanks
  else if g.escaped then g.breaks
  else
    match g.breaks with
    | ['\n'] => [' ']
    | '\n' :: more => more
    | breaks => breaks

/-- Pass over blanks and breaks, within a bound. Where a margin is given, a tab
    before it is a fault. -/
def pass (margin : Option Int) : List Char → Gap → Cursor → Except Fault (Gap × Cursor)
  | [], g, c => .ok (g, c)
  | _ :: bound, g, c =>
      match c.rest with
      | [] => .ok (g, c)
      | x :: _ =>
          if isBlank x then
            if g.ended && x == '\t' && margin.any fun m => decide (Int.ofNat c.column < m) then
              .error .tabIndentation
            else if g.ended then pass margin bound g (c.skip 1)
            else pass margin bound { g with blanks := g.blanks ++ [x] } (c.skip 1)
          else if isBreak x then
            pass margin bound
              { g with blanks := [], breaks := g.breaks ++ [c.breakChar], ended := true }
              c.skipBreak
          else .ok (g, c)

end Gap

end Yaml

end SampleSchema
