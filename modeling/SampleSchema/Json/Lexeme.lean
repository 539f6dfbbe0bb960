import SampleSchema.Json.Basic
import SampleSchema.Json.Misfit

/-!
# Tokens of a JSON Text

Reading the parts of a text that contain no values: words, strings and
numbers.

A reader takes the text that is left and returns what it read with the text
after it. A loop whose steps differ in length takes that text a second time, as
a bound: each step lets go of one character of it and takes at least one from
the text, so the bound is never the shorter of the two.

Numbers are read in two steps. `numeral` settles the spelling: a sign, whole
digits, an optional fraction and an optional exponent. `Numeral.value` then
settles the value. Digits are gathered as long as they fit 64 bits; a digit
that no longer fits before the point only counts as a power of ten, and one
after the point counts for nothing. A numeral without fraction and exponent
whose value fits 64 bits is an integer. Any other is the double nearest to
the gathered digits, scaled by the power of ten in double arithmetic; a
result that is no finite number is refused, and one too small is zero.

## Main definitions

* `Trouble`: Why a reader stopped.
* `Parser`: Readers of a text.
* `skipBlanks`: The text after its leading blanks.
* `word`: The rest of `null`, `true` or `false`.
* `stringTail`: A string after its opening quote.
* `numeral`: The spelling of a number.
* `Numeral.value`: Its value.
-/

namespace SampleSchema

namespace Json

/-- Why a reader stopped: at a fault in the text, or over a value that does
    not fit. -/
inductive Trouble
  | malformed (stop : Stop)
  | misfit (reason : Misfit)
  deriving Repr

/-- The error that a reader's trouble is, in the whole text. -/
def Trouble.error (whole : List Char) : Trouble → Error
  | malformed stop => .malformed stop.fault (stop.position whole)
  | misfit reason => .misfit reason

/-- Readers of a text: what they read, with the text left. -/
abbrev Parser := StateT (List Char) (Except Trouble)

/-- Stop over a token that has been taken in full. -/
def stopAfter {α : Type} (fault : Fault) (rest : List Char) : Except Trouble α :=
  .error (.malformed ⟨fault, rest, 0⟩)

/-- Stop over the byte that comes next. -/
def stopAt {α : Type} (fault : Fault) (rest : List Char) : Except Trouble α :=
  .error (.malformed ⟨fault, rest, 1⟩)

/-- Stop over a value that does not fit. -/
def refuse {α : Type} (reason : Misfit) : Except Trouble α := .error (.misfit reason)

/-- What may stand between tokens. -/
def isBlank (c : Char) : Bool := c == ' ' || c == '\n' || c == '\t' || c == '\r'

/-- The text after its leading blanks. -/
def skipBlanks (cs : List Char) : List Char := cs.dropWhile isBlank

/-- The rest of a word whose first letter is taken. -/
def word : List Char → List Char → Except Trouble (List Char)
  | [], cs => .ok cs
  | _ :: _, [] => stopAfter .endInValue []
  | e :: es, c :: cs => if c = e then word es cs else stopAt .expectedWord (c :: cs)

/-! ### Strings -/

/-- The value of a hexadecimal digit. -/
def hexValue? (c : Char) : Option Nat :=
  if c.isDigit then some (c.toNat - '0'.toNat)
  else if 'a' ≤ c ∧ c ≤ 'f' then some (c.toNat - 'a'.toNat + 10)
  else if 'A' ≤ c ∧ c ≤ 'F' then some (c.toNat - 'A'.toNat + 10)
  else none

/-- The value of four hexadecimal digits. -/
def hexValue4? (a b c d : Char) : Option Nat := do
  let a ← hexValue? a
  let b ← hexValue? b
  let c ← hexValue? c
  let d ← hexValue? d
  pure (((a * 16 + b) * 16 + c) * 16 + d)

/-- The four digits of a `\u` escape. A text that is too short for them has
    ended inside the string, whatever it holds. -/
def hexDigits (cs : List Char) : Except Trouble (Nat × List Char) :=
  if byteCount (cs.take 4) < 4 then stopAfter .endInString []
  else
    match cs with
    | a :: b :: c :: d :: rest =>
        match hexValue4? a b c d with
        | some n => .ok (n, rest)
        | none => .error (.malformed ⟨.badEscape, cs, 4⟩)
    | _ => .error (.malformed ⟨.badEscape, cs, 4⟩)

/-- A character of a short escape. -/
def shortEscape? : Char → Option Char
  | '"' => some '"'
  | '\\' => some '\\'
  | '/' => some '/'
  | 'b' => some '\x08'
  | 'f' => some '\x0c'
  | 'n' => some '\n'
  | 'r' => some '\r'
  | 't' => some '\t'
  | _ => none

/-- One given character, or the fault of a surrogate without its partner. -/
def surrogateMark (mark : Char) : List Char → Except Trouble (List Char)
  | [] => stopAfter .endInString []
  | c :: cs => if c = mark then .ok cs else stopAt .brokenSurrogate (c :: cs)

/-- The character of a `\u` escape. A code unit from D800 to DBFF must be
    followed by a second escape with a unit from DC00 to DFFF, and the two
    make one character. -/
def unicodeEscape (cs : List Char) : Except Trouble (Char × List Char) := do
  let (n, rest) ← hexDigits cs
  if 0xDC00 ≤ n ∧ n ≤ 0xDFFF then stopAfter .loneSurrogate rest
  else if 0xD800 ≤ n ∧ n ≤ 0xDBFF then
    let rest ← surrogateMark '\\' rest
    let rest ← surrogateMark 'u' rest
    let (m, rest) ← hexDigits rest
    if 0xDC00 ≤ m ∧ m ≤ 0xDFFF then
      .ok (Char.ofNat ((n - 0xD800) * 0x400 + (m - 0xDC00) + 0x10000), rest)
    else stopAfter .loneSurrogate rest
  else .ok (Char.ofNat n, rest)

/-- The character of an escape whose backslash is taken. -/
def escaped : List Char → Except Trouble (Char × List Char)
  | [] => stopAfter .endInString []
  | 'u' :: cs => unicodeEscape cs
  | c :: cs =>
      match shortEscape? c with
      | some e => .ok (e, cs)
      | none => stopAt .badEscape (c :: cs)

/-- The characters of a string, up to its closing quote, within a bound. -/
def stringChars : List Char → List Char → Except Trouble (List Char × List Char)
  | [], cs => stopAfter .endInString cs
  | _ :: _, [] => stopAfter .endInString []
  | _ :: bound, c :: cs =>
      if c = '"' then .ok ([], cs)
      else if c = '\\' then do
        let (e, rest) ← escaped cs
        let (s, rest) ← stringChars bound rest
        pure (e :: s, rest)
      else if c.toNat < 0x20 then stopAt .controlCharacter (c :: cs)
      else do
        let (s, rest) ← stringChars bound cs
        pure (c :: s, rest)

/-- A string whose opening quote is taken. -/
def stringTail (cs : List Char) : Except Trouble (String × List Char) := do
  let (s, rest) ← stringChars cs cs
  pure (String.ofList s, rest)

/-! ### Numbers -/

/-- The exponent of a numeral. -/
structure Exponent where
  negative : Bool
  digits : List Char

/-- The spelling of a number. -/
structure Numeral where
  negative : Bool
  whole : List Char
  fraction : Option (List Char)
  exponent : Option Exponent

/-- The digits that a text starts with, and the text after them. -/
def digits (cs : List Char) : List Char × List Char :=
  (cs.takeWhile Char.isDigit, cs.dropWhile Char.isDigit)

/-- The whole digits: a zero that stands alone, or digits that start with
    another one. `atEnd` is the fault of a text that ends before them. -/
def wholeDigits (atEnd : Fault) : List Char → Except Trouble (List Char × List Char)
  | [] => stopAfter atEnd []
  | c :: cs =>
      if c = '0' then
        match cs with
        | d :: _ => if d.isDigit then stopAt .badNumber cs else .ok (['0'], cs)
        | [] => .ok (['0'], [])
      else if c.isDigit then .ok (digits (c :: cs))
      else stopAt .badNumber (c :: cs)

/-- The digits after a point, at least one of them. -/
def fractionDigits (atEnd : Fault) (cs : List Char) : Except Trouble (List Char × List Char) :=
  match digits cs with
  | ([], []) => stopAt atEnd []
  | ([], rest) => stopAt .badNumber rest
  | found => .ok found

/-- The sign and digits after the letter of an exponent. -/
def exponentDigits (atEnd : Fault) (cs : List Char) :
    Except Trouble (Exponent × List Char) :=
  let (negative, cs) :=
    match cs with
    | '+' :: rest => (false, rest)
    | '-' :: rest => (true, rest)
    | rest => (false, rest)
  match cs with
  | [] => stopAfter atEnd []
  | c :: _ =>
      if c.isDigit then .ok (⟨negative, (digits cs).1⟩, (digits cs).2)
      else stopAt .badNumber cs

/-- The spelling of a number, from its sign or first digit on. -/
def numeral (atEnd : Fault) (cs : List Char) : Except Trouble (Numeral × List Char) := do
  let (negative, cs) :=
    match cs with
    | '-' :: rest => (true, rest)
    | rest => (false, rest)
  let (whole, cs) ← wholeDigits atEnd cs
  let (fraction, cs) ←
    match cs with
    | '.' :: rest => do
        let (ds, rest) ← fractionDigits atEnd rest
        pure (some ds, rest)
    | rest => pure (none, rest)
  let (exponent, cs) ←
    match cs with
    | 'e' :: rest | 'E' :: rest => do
        let (e, rest) ← exponentDigits atEnd rest
        pure (some e, rest)
    | rest => pure (none, rest)
  pure (⟨negative, whole, fraction, exponent⟩, cs)

/-- The value of a digit. -/
def digitValue (c : Char) : Nat := c.toNat - '0'.toNat

/-- Append digits to a number while it stays below `bound`; also how many
    digits were appended. -/
def gather (bound : Nat) (n : Nat) : List Char → Nat × Nat
  | [] => (n, 0)
  | c :: cs =>
      if 10 * n + digitValue c < bound then
        let (m, count) := gather bound (10 * n + digitValue c) cs
        (m, count + 1)
      else (n, 0)

/-- The power of ten with a natural exponent, as a double. -/
def powerOfTen (n : Nat) : Float := Float.ofScientific 1 false n

/-- Scale by a power of ten, in steps that a double can hold. A natural below
    2⁶⁴ is zero after three divisions, so four steps are enough. -/
def scaled : Nat → Float → Int → Float
  | 0, x, _ => x
  | steps + 1, x, e =>
      if 0 ≤ e then
        if e ≤ 308 then x * powerOfTen e.toNat
        else if x == 0 then x else x * powerOfTen 308 * powerOfTen 308
      else if -308 ≤ e then x / powerOfTen (-e).toNat
      else scaled steps (x / powerOfTen 308) (e + 308)

/-- Exponents from here on are not computed: the number is zero or too large. -/
def exponentBound : Nat := Nat.pow 2 31

namespace Numeral

/-- The digits of a numeral that count, and the power of ten they are scaled by
    before any exponent. -/
def significand (n : Numeral) : Nat × Int :=
  let (m, kept) := gather (Nat.pow 2 64) 0 n.whole
  let (m, added) := gather (Nat.pow 2 64) m (n.fraction.getD [])
  (m, (n.whole.length - kept : Nat) - Int.ofNat added)

/-- The numeral as an integer, if it is one of 64 bits. Minus zero is not. -/
def integer? (n : Numeral) : Option Int :=
  let (m, kept) := gather (Nat.pow 2 64) 0 n.whole
  if n.fraction.isSome || n.exponent.isSome || kept < n.whole.length then none
  else if !n.negative then some m
  else if 0 < m ∧ m ≤ Nat.pow 2 63 then some (-m)
  else none

/-- A double with the sign of the numeral. -/
def signed (n : Numeral) (x : Float) : Float := if n.negative then -x else x

/-- The value of a numeral that stands before `rest`. -/
def value (n : Numeral) (rest : List Char) : Except Trouble Written := do
  match n.integer? with
  | some i => pure (.int i)
  | none =>
      let (m, shift) := n.significand
      let e := n.exponent.getD ⟨false, ['0']⟩
      let (power, kept) := gather exponentBound 0 e.digits
      if kept < e.digits.length then
        -- The exponent itself is beyond bounds: nothing is left, or far too much.
        if m = 0 || e.negative then pure (.float (n.signed 0))
        else stopAfter .numberTooLarge (e.digits.drop (kept + 1) ++ rest)
      else
        let x := scaled 4 m.toUInt64.toFloat
          (if e.negative then shift - Int.ofNat power else shift + Int.ofNat power)
        if x.isInf then stopAfter .numberTooLarge rest else pure (.float (n.signed x))

end Numeral

/-- A number, from its sign or first digit on. -/
def number (cs : List Char) : Except Trouble (Written × List Char) := do
  let (n, rest) ← numeral .endInValue cs
  let w ← n.value rest
  pure (w, rest)

end Json

end SampleSchema
