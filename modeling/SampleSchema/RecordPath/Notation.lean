import SampleSchema.RecordPath.Query

/-!
# Query Notation

How queries are written.

A query is a row of steps, read from the left, each as long as it can be:

* `$` for the root, and `@` for the current value with the steps after it;
* `.name`, `['name']` and `.['name']` for a member, `['a','b']` for several;
* `..name` and `..['name']` for a member anywhere inside;
* `.*`, `[*]` and `.[*]` for all elements or members, `..*` for all values
  inside;
* `[n]` for an element, `[n,m]` for several, `[a:b:c]` for a slice;
* `.length()` for a length.

A bare name consists of ASCII letters, digits and `_ - / \ #`, and follows
its dot directly. A quoted one is taken as it stands between its quotes,
escapes included. Blanks may stand around steps and inside brackets. A text
of which anything is left over is no query. There are no filters; a run that
meets these may be given another reader.

## Main definitions

* `Query.Step.read`: The step that a text starts with.
* `Query.readChain`: The steps that a text starts with.
* `Query.parse?`: The query that a text is.
-/

namespace SampleSchema

namespace Query

/-- Readers of a notation: what a text starts with, and the text after it. -/
abbrev Read (α : Type) := List Char → Option (α × List Char)

/-- The text after its leading blanks. -/
def skipBlanks : List Char → List Char
  | ' ' :: cs => skipBlanks cs
  | '\t' :: cs => skipBlanks cs
  | '\n' :: cs => skipBlanks cs
  | '\r' :: '\n' :: cs => skipBlanks cs
  | cs => cs

/-- A given character, after blanks. -/
def mark (m : Char) (cs : List Char) : Option (List Char) :=
  match skipBlanks cs with
  | c :: rest => if c = m then some rest else none
  | [] => none

/-- A character of a bare name. -/
def isNameChar (c : Char) : Bool :=
  c.isAlphanum || c == '_' || c == '-' || c == '/' || c == '\\' || c == '#'

/-- The call that stands for a length. -/
def lengthCall : List Char := ['l', 'e', 'n', 'g', 't', 'h', '(', ')']

/-- A bare name. -/
def bareName (cs : List Char) : Option (String × List Char) :=
  let name := cs.takeWhile isNameChar
  if name.isEmpty || lengthCall.isPrefixOf cs then none
  else some (String.ofList name, cs.dropWhile isNameChar)

/-- A character that may follow a backslash. -/
def isEscapable (c : Char) : Bool :=
  ['"', '\'', '\\', '/', 'b', 'f', 'n', 'r', 't', '(', ')'].contains c

/-- A digit of an escape by number. -/
def isHexDigit (c : Char) : Bool :=
  c.isDigit || ('a' ≤ c && c ≤ 'f') || ('A' ≤ c && c ≤ 'F')

/-- The text up to a closing quote. -/
def quotedTail (quote : Char) : Read (List Char)
  | [] => none
  | '\\' :: 'u' :: a :: b :: c :: d :: cs => do
      if [a, b, c, d].all isHexDigit then
        let (s, rest) ← quotedTail quote cs
        pure ('\\' :: 'u' :: a :: b :: c :: d :: s, rest)
      else none
  | '\\' :: c :: cs => do
      if isEscapable c then
        let (s, rest) ← quotedTail quote cs
        pure ('\\' :: c :: s, rest)
      else none
  | c :: cs => do
      if c = quote then pure ([], cs)
      else if c = '"' ∨ c = '\'' ∨ c = '\\' then none
      else
        let (s, rest) ← quotedTail quote cs
        pure (c :: s, rest)

/-- A quoted name, after blanks. -/
def quotedName : Read String := fun cs =>
  match skipBlanks cs with
  | c :: rest => do
      if c = '"' ∨ c = '\'' then
        let (s, rest) ← quotedTail c rest
        pure (String.ofList s, rest)
      else none
  | [] => none

/-- A natural number, after blanks. A zero does not begin a longer one. -/
def natural : Read Nat := fun cs =>
  match skipBlanks cs with
  | '0' :: rest => some (0, rest)
  | rest =>
      let ds := rest.takeWhile Char.isDigit
      if ds.isEmpty then none
      else
        some (ds.foldl (fun n c => 10 * n + (c.toNat - '0'.toNat)) 0, rest.dropWhile Char.isDigit)

/-- A whole number, after blanks. -/
def integer : Read Int := fun cs =>
  match skipBlanks cs with
  | '-' :: rest => do
      let (n, rest) ← natural rest
      pure (-Int.ofNat n, rest)
  | rest => do
      let (n, rest) ← natural rest
      pure (Int.ofNat n, rest)

/-- Further items, each after a comma, at most so many. -/
def moreItems {α : Type} (item : Read α) : Nat → Read (List α)
  | 0, cs => some ([], cs)
  | n + 1, cs =>
      match mark ',' cs with
      | none => some ([], cs)
      | some rest => do
          let (a, rest) ← item rest
          let (as, rest) ← moreItems item n rest
          pure (a :: as, rest)

/-- At least two items between commas, up to a closing bracket. -/
def severalItems {α : Type} (item : Read α) : Read (List α) := fun cs => do
  let (a, rest) ← item cs
  let (as, rest) ← moreItems item cs.length rest
  let rest ← mark ']' rest
  if as.isEmpty then none else pure (a :: as, rest)

/-- A number that may be left out. -/
def boundOr (absent : Int) : Read Int := fun cs =>
  match integer cs with
  | some found => some found
  | none => some (absent, cs)

/-- The bounds of a slice, up to a closing bracket. -/
def sliceTail : Read Step := fun cs => do
  let (start, rest) ← boundOr 0 cs
  let rest ← mark ':' rest
  let (stop, rest) ← boundOr 0 rest
  match mark ':' rest with
  | some rest => do
      let (distance, rest) ← natural rest
      let rest ← mark ']' rest
      pure (.slice start stop distance, rest)
  | none => do
      let rest ← mark ']' rest
      pure (.slice start stop 1, rest)

/-- All elements or members, up to a closing bracket. -/
def everyTail : Read Step := fun cs => do
  let rest ← mark '*' cs
  let rest ← mark ']' rest
  pure (.every, rest)

/-- A member, up to a closing bracket. -/
def memberTail : Read String := fun cs => do
  let (name, rest) ← quotedName cs
  let rest ← mark ']' rest
  pure (name, rest)

/-- An element, up to a closing bracket. -/
def elementTail : Read Step := fun cs => do
  let (position, rest) ← natural cs
  let rest ← mark ']' rest
  pure (.element position, rest)

/-- A step in brackets, of which the first is taken. -/
def bracketTail : Read Step := fun cs =>
  everyTail cs
    <|> (memberTail cs).map (fun r => (Step.member r.1, r.2))
    <|> (severalItems quotedName cs).map (fun r => (Step.members r.1, r.2))
    <|> (severalItems natural cs).map (fun r => (Step.elements r.1, r.2))
    <|> sliceTail cs
    <|> elementTail cs

/-- A step that begins with a dot, which is taken. -/
def dottedTail : Read Step
  | '.' :: '*' :: rest => some (.descendants, rest)
  | '.' :: '[' :: rest => (memberTail rest).map fun r => (.inside r.1, r.2)
  | '.' :: rest => (bareName rest).map fun r => (.inside r.1, r.2)
  | cs =>
      if lengthCall.isPrefixOf cs then some (.length, cs.drop lengthCall.length)
      else
        match bareName cs, skipBlanks cs with
        | some (name, rest), _ => some (.member name, rest)
        | none, '*' :: rest => some (.every, rest)
        | none, '[' :: rest => bracketTail rest
        | none, _ => none

/-- The steps that a text starts with, at most so many. -/
def readChain : Nat → List Char → List Step × List Char
  | 0, cs => ([], cs)
  | n + 1, cs =>
      match skipBlanks cs with
      | '@' :: rest =>
          let (chain, rest) := readChain n rest
          ([.current chain], rest)
      | rest =>
          let step : Option (Step × List Char) :=
            match rest with
            | '$' :: rest => some (.root, rest)
            | '.' :: rest => dottedTail rest
            | '[' :: rest => bracketTail rest
            | _ => none
          match step with
          | none => ([], cs)
          | some (s, rest) =>
              let (chain, rest) := readChain n rest
              (s :: chain, rest)

/-- The query that a text is. -/
def parse? (text : String) : Option (List Step) :=
  let cs := text.toList
  let (chain, rest) := readChain (cs.length + 1) cs
  if chain.isEmpty || !(skipBlanks rest).isEmpty then none else some chain

end Query

end SampleSchema
