import SampleSchema.Json.Skim

/-!
# Reading JSON

From a text to a value.

Lists and objects are read by two loops that know nothing of what they
collect: `listOf` is given a reader of one element, `foldMembers` a reader
that takes in one named member. The reader of values uses them for both
kinds of brackets, and so do the readers of records, which differ from it
only in what they make of the members.

Brackets may nest 127 deep. The reader of values recurs on the depth that is
still allowed, so it ends without further argument; the loops inside one pair
of brackets are bounded by the text that is left when they begin.

## Main definitions

* `hasElement`: There is a further element in the list being read.
* `listOf`: The elements of a list.
* `foldMembers`: The members of an object, taken in one by one.
* `member`: The value of a member whose name is read.
* `writtenWithin`: A value as it was written, within a depth.
* `wholeText`: A reader applied to a whole text.
* `Json.parse`: The value of a text.
-/

namespace SampleSchema

namespace Json

/-- A reader from a function on the text left. -/
def Parser.of {α : Type} (f : List Char → Except Trouble (α × List Char)) : Parser α := f

/-- Brackets may nest this deep. -/
def depthLimit : Nat := 127

/-- The next character after blanks, which stays in the text. -/
def peek : Parser (Option Char) := fun cs =>
  .ok ((skipBlanks cs).head?, skipBlanks cs)

/-- Stop over the byte that comes next. -/
def stop {α : Type} (fault : Fault) : Parser α := fun cs => stopAt fault cs

/-- Take one character of the text left. -/
def skipOne : Parser Unit := fun cs => .ok ((), cs.tail)

/-! ### Lists -/

/-- There is a further element. The text then starts at it; otherwise it
    starts at the closing bracket. -/
def hasElement (first : Bool) (cs : List Char) : Except Trouble (Bool × List Char) :=
  match skipBlanks cs with
  | [] => stopAt .endInList []
  | c :: rest =>
      if c = ']' then .ok (false, c :: rest)
      else if first then .ok (true, c :: rest)
      else if c = ',' then
        match skipBlanks rest with
        | [] => stopAt .endInValue []
        | d :: rest => if d = ']' then stopAt .trailingComma (d :: rest) else .ok (true, d :: rest)
      else stopAt .expectedListSeparator (c :: rest)

/-- The elements of a list and the closing bracket, within a bound. -/
def elements {α : Type} (item : Parser α) : List Char → Bool → Parser (List α)
  | [], _ => stop .endInList
  | _ :: bound, first => do
      if ← hasElement first then
        let a ← item
        let as ← elements item bound false
        pure (a :: as)
      else
        skipOne
        pure []

/-- The elements of a list whose opening bracket is taken. -/
def listOf {α : Type} (item : Parser α) : Parser (List α) := fun cs =>
  elements item cs true cs

/-! ### Objects -/

/-- There is a further member. The text then starts after the quote that
    opens its name; otherwise it starts after the closing bracket. -/
def hasMember (first : Bool) (cs : List Char) : Except Trouble (Bool × List Char) :=
  match skipBlanks cs with
  | [] => stopAt .endInObject []
  | c :: rest =>
      if c = '\x7d' then .ok (false, rest)
      else if first then
        if c = '"' then .ok (true, rest) else stopAt .nameNotString (c :: rest)
      else if c = ',' then
        match skipBlanks rest with
        | [] => stopAt .endInValue []
        | d :: rest =>
            if d = '"' then .ok (true, rest)
            else if d = '\x7d' then stopAt .trailingComma (d :: rest)
            else stopAt .nameNotString (d :: rest)
      else stopAt .expectedObjectSeparator (c :: rest)

/-- The colon after a name. -/
def colon (cs : List Char) : Except Trouble (Unit × List Char) :=
  match skipBlanks cs with
  | [] => stopAt .endInObject []
  | c :: rest => if c = ':' then .ok ((), rest) else stopAt .expectedColon (c :: rest)

/-- The value of a member whose name is read. -/
def member {α : Type} (value : Parser α) : Parser α := do
  Parser.of colon
  value

/-- The members of an object and the closing bracket, within a bound. -/
def members {σ : Type} (take : σ → String → Parser σ) : List Char → Bool → σ → Parser σ
  | [], _, _ => stop .endInObject
  | _ :: bound, first, state => do
      if ← hasMember first then
        let name ← Parser.of stringTail
        let state ← take state name
        members take bound false state
      else pure state

/-- The members of an object whose opening bracket is taken, taken in one by
    one. `take` starts before the colon. -/
def foldMembers {σ : Type} (take : σ → String → Parser σ) (state : σ) : Parser σ := fun cs =>
  members take cs true state cs

/-! ### Values -/

/-- A value without brackets. -/
def scalar : List Char → Except Trouble (Written × List Char)
  | [] => stopAt .endInValue []
  | c :: cs =>
      match c with
      | 'n' => do let rest ← word ['u', 'l', 'l'] cs; pure (.null, rest)
      | 't' => do let rest ← word ['r', 'u', 'e'] cs; pure (.bool true, rest)
      | 'f' => do let rest ← word ['a', 'l', 's', 'e'] cs; pure (.bool false, rest)
      | '"' => do let (s, rest) ← stringTail cs; pure (.string s, rest)
      | c =>
          if c = '-' ∨ c.isDigit then number (c :: cs)
          else stopAt .expectedValue (c :: cs)

/-- Take an opening bracket, if brackets may still nest, and read on with the
    depth that remains. -/
def within {α : Type} (inside : Nat → Parser α) : Nat → Parser α
  | 0 => stop .tooDeep
  | depth + 1 => do
      skipOne
      inside depth

/-- A value as it was written, within a depth. -/
def writtenWithin : Nat → Parser Written
  | 0 => do
      match ← peek with
      | some '[' | some '\x7b' => stop .tooDeep
      | _ => Parser.of scalar
  | depth + 1 => do
      match ← peek with
      | some '[' =>
          skipOne
          let elements ← listOf (writtenWithin depth)
          pure (.array elements)
      | some '\x7b' =>
          skipOne
          let members ← foldMembers (fun members name => do
            let w ← member (writtenWithin depth)
            pure ((name, w) :: members)) []
          pure (.object members.reverse)
      | _ => Parser.of scalar

/-- A reader applied to a whole text. Nothing but blanks may follow. -/
def wholeText {α : Type} (reader : Parser α) (text : List Char) : Except Error α :=
  let result := do
    let (a, rest) ← reader text
    match skipBlanks rest with
    | [] => pure a
    | rest => stopAt .trailingText rest
  result.mapError (Trouble.error text)

/-- The value of a text, as it was written. -/
def parseWritten (text : String) : Except Error Written :=
  wholeText (writtenWithin depthLimit) text.toList

/-- The value of a text. -/
def parse (text : String) : Except Error Json := do
  let w ← parseWritten text
  pure w.value

end Json

end SampleSchema
