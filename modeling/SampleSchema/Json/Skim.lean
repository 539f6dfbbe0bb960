import SampleSchema.Json.Lexeme

/-!
# Skimming

Passing over a value that nobody asked for.

A member whose name means nothing to the reader is skipped. Its text still
has to be well-formed, but it is never turned into a value, and so what only
matters to a value is not looked at: a number may be out of range, a
surrogate may lack its partner, and the brackets may nest to any depth. The
open brackets are therefore kept in a list rather than on a stack of calls.

Skimming is also coarser about what it reports. After a comma it simply
expects the next value or name, so it has no word for a trailing comma, and
inside numbers every fault is the same.

## Main definitions

* `Bracket`: An open bracket.
* `skimString`: Pass over a string.
* `skimScalar`: Pass over a value without brackets.
* `skimValue`, `skimRest`: Pass over a value, or over what follows one inside
  open brackets.
* `skim`: Pass over one value.
-/

namespace SampleSchema

namespace Json

/-- An open bracket. -/
inductive Bracket
  | list
  | object
  deriving DecidableEq, Repr

/-- Pass over the characters of a string, up to its closing quote, within a
    bound. -/
def skimChars : List Char → List Char → Except Trouble (List Char)
  | [], cs => stopAfter .endInString cs
  | _ :: _, [] => stopAfter .endInString []
  | _ :: bound, c :: cs =>
      if c = '"' then .ok cs
      else if c = '\\' then
        match cs with
        | [] => stopAfter .endInString []
        | 'u' :: cs => do
            let (_, rest) ← hexDigits cs
            skimChars bound rest
        | e :: cs =>
            if (shortEscape? e).isSome then skimChars bound cs
            else stopAt .badEscape (e :: cs)
      else if c.toNat < 0x20 then stopAfter .controlCharacter (c :: cs)
      else skimChars bound cs

/-- Pass over a string whose opening quote is taken. -/
def skimString (cs : List Char) : Except Trouble (List Char) := skimChars cs cs

/-- Pass over a value without brackets. -/
def skimScalar : List Char → Except Trouble (List Char)
  | [] => stopAt .endInValue []
  | c :: cs =>
      match c with
      | 'n' => word ['u', 'l', 'l'] cs
      | 't' => word ['r', 'u', 'e'] cs
      | 'f' => word ['a', 'l', 's', 'e'] cs
      | '"' => skimString cs
      | c =>
          if c = '-' ∨ c.isDigit then do
            let (_, rest) ← numeral .badNumber (c :: cs)
            pure rest
          else stopAt .expectedValue (c :: cs)

/-- Pass over the name of a member and its colon. -/
def skimName (cs : List Char) : Except Trouble (List Char) :=
  match skipBlanks cs with
  | [] => stopAt .endInObject []
  | c :: cs =>
      if c = '"' then do
        let rest ← skimString cs
        match skipBlanks rest with
        | [] => stopAt .endInObject []
        | c :: cs => if c = ':' then pure cs else stopAt .expectedColon (c :: cs)
      else stopAt .nameNotString (c :: cs)

/-- What is being skimmed: a value, or the text after an opening bracket or
    after an element inside the innermost of some open brackets. -/
inductive Skimming
  | value
  | opened
  | element

/-- Pass over the rest of a value inside the given open brackets. Each step
    takes a character or turns from an element to the next value, so twice as
    many steps as there are characters are enough. -/
def skimWithin : Nat → Skimming → List Bracket → List Char → Except Trouble (List Char)
  | 0, _, _, cs => stopAt .expectedValue cs
  | n + 1, .value, opened, cs =>
      match skipBlanks cs with
      | '[' :: rest => skimWithin n .opened (.list :: opened) rest
      | '\x7b' :: rest => skimWithin n .opened (.object :: opened) rest
      | rest => do
          let rest ← skimScalar rest
          skimWithin n .element opened rest
  | _ + 1, _, [], cs => .ok cs
  | n + 1, state, bracket :: opened, cs =>
      let next (rest : List Char) : Except Trouble (List Char) :=
        match bracket with
        | .list => skimWithin n .value (bracket :: opened) rest
        | .object => do
            let rest ← skimName rest
            skimWithin n .value (bracket :: opened) rest
      match skipBlanks cs, bracket, state with
      | [], .list, _ => stopAt .endInList []
      | [], .object, _ => stopAt .endInObject []
      | ']' :: rest, .list, _ => skimWithin n .element opened rest
      | '\x7d' :: rest, .object, _ => skimWithin n .element opened rest
      | ',' :: rest, _, .element => next rest
      | rest, .list, .element => stopAt .expectedListSeparator rest
      | rest, .object, .element => stopAt .expectedObjectSeparator rest
      | rest, _, _ => next rest

/-- Pass over one value. -/
def skim (cs : List Char) : Except Trouble (List Char) :=
  skimWithin (2 * cs.length + 2) .value [] cs

end Json

end SampleSchema
