import SampleSchema.Yaml.Cursor

/-!
# YAML Scalars

Reading plain and quoted scalars.

A plain scalar is what stands there, word after word and line after line,
until something ends it: a colon before a blank, a number sign after one, a
border between documents, a line that is not indented beyond what encloses
it, or inside brackets a comma or bracket. A scalar in single quotes knows
one escape, the quote written twice. One in double quotes has escapes that
start with a backslash, and a backslash at the end of a line joins the next
line to it.

## Main definitions

* `plainWord`: The part of a plain scalar up to a blank or an end.
* `plainScalar`: A plain scalar.
* `quotedWord`: The part of a quoted scalar up to a blank or its end.
* `quotedScalar`: A quoted scalar.
-/

namespace SampleSchema

namespace Yaml

/-- A character that a colon may not run into inside brackets. -/
def isFlowMark (c : Char) : Bool := [',', '?', '[', ']', '\x7b', '\x7d'].contains c

/-- The part of a plain scalar up to a blank or an end. -/
def plainWord (inFlow : Bool) : List Char → Except Fault (List Char)
  | [] => .ok []
  | c :: cs =>
      if isBlank c || isBreak c then .ok []
      else if c = ':' ∧ inFlow ∧ cs.head?.any isFlowMark then .error .colonInFlow
      else if c = ':' ∧ atBlank cs then .ok []
      else if inFlow ∧ [',', '[', ']', '\x7b', '\x7d'].contains c then .ok []
      else do
        let word ← plainWord inFlow cs
        pure (c :: word)

/-- The words of a plain scalar, within a bound, after the words so far and a
    gap. Whether a line ended after the last word is returned as well. -/
def plainWords (inFlow : Bool) (margin : Int) :
    List Char → List Char → Gap → Cursor → Except Fault (List Char × Bool × Cursor)
  | [], text, g, c => .ok (text, g.ended, c)
  | _ :: bound, text, g, c =>
      if c.atBorder || c.rest.head? == some '#' then .ok (text, g.ended, c)
      else do
        let word ← plainWord inFlow c.rest
        let (text, g, c) :=
          if word.isEmpty then (text, g, c)
          else (text ++ g.text ++ word, ({} : Gap), c.skip word.length)
        if c.rest.isEmpty || !atBlank c.rest then pure (text, g.ended, c)
        else
          let (g, c) ← Gap.pass (some margin) c.rest g c
          if !inFlow && decide (Int.ofNat c.column < margin) then pure (text, g.ended, c)
          else plainWords inFlow margin bound text g c

/-- A plain scalar whose lines are indented by at least the margin. -/
def plainScalar (inFlow : Bool) (margin : Int) (c : Cursor) :
    Except Fault (String × Bool × Cursor) := do
  let (text, ended, c) ← plainWords inFlow margin c.rest [] {} c
  pure (String.ofList text, ended, c)

/-- The value of hexadecimal digits. -/
def hexNumber? (cs : List Char) : Option Nat :=
  cs.foldl
    (fun acc c => do
      let n ← acc
      if c.isDigit then pure (16 * n + (c.toNat - '0'.toNat))
      else if 'a' ≤ c ∧ c ≤ 'f' then pure (16 * n + (c.toNat - 'a'.toNat + 10))
      else if 'A' ≤ c ∧ c ≤ 'F' then pure (16 * n + (c.toNat - 'A'.toNat + 10))
      else none)
    (some 0)

/-- A character by its number, in so many digits. -/
def numberedChar (count : Nat) (cs : List Char) : Except Fault (Char × Nat) :=
  if cs.length < count then .error .badEscape
  else
    match hexNumber? (cs.take count) with
    | some n =>
        if (0xD800 ≤ n ∧ n ≤ 0xDFFF) ∨ 0x10FFFF < n then .error .badEscape
        else .ok (Char.ofNat n, count + 1)
    | none => .error .badEscape

/-- The character of an escape after its backslash, and how long the escape
    is. -/
def escapedChar : List Char → Except Fault (Char × Nat)
  | [] => .error .badEscape
  | c :: cs =>
      match c with
      | '0' => .ok ('\x00', 1)
      | 'a' => .ok ('\x07', 1)
      | 'b' => .ok ('\x08', 1)
      | 't' => .ok ('\t', 1)
      | '\t' => .ok ('\t', 1)
      | 'n' => .ok ('\n', 1)
      | 'v' => .ok ('\x0b', 1)
      | 'f' => .ok ('\x0c', 1)
      | 'r' => .ok ('\r', 1)
      | 'e' => .ok ('\x1b', 1)
      | ' ' => .ok (' ', 1)
      | '"' => .ok ('"', 1)
      | '/' => .ok ('/', 1)
      | '\\' => .ok ('\\', 1)
      | 'N' => .ok ('\u0085', 1)
      | '_' => .ok ('\u00a0', 1)
      | 'L' => .ok ('\u2028', 1)
      | 'P' => .ok ('\u2029', 1)
      | 'x' => numberedChar 2 cs
      | 'u' => numberedChar 4 cs
      | 'U' => numberedChar 8 cs
      | _ => .error .badEscape

/-- The part of a quoted scalar up to a blank or its end, within a bound.
    Whether it ends in an escaped break is returned as well. -/
def quotedWord (quote : Char) : List Char → Cursor → Except Fault (List Char × Bool × Cursor)
  | [], c => .ok ([], false, c)
  | _ :: bound, c =>
      let one (x : Char) (length : Nat) : Except Fault (List Char × Bool × Cursor) := do
        let (word, escaped, c) ← quotedWord quote bound (c.skip length)
        pure (x :: word, escaped, c)
      match c.rest with
      | [] => .ok ([], false, c)
      | x :: cs =>
          if isBlank x || isBreak x then .ok ([], false, c)
          else if quote = '\'' ∧ x = '\'' ∧ cs.head? = some '\'' then one '\'' 2
          else if x = quote then .ok ([], false, c)
          else if quote = '"' ∧ x = '\\' then
            if atBreak cs then .ok ([], true, (c.skip 1).skipBreak)
            else
              match escapedChar cs with
              | .ok (e, length) => one e (length + 1)
              | .error fault => .error fault
          else one x 1

/-- The words of a quoted scalar up to its closing quote, within a bound. -/
def quotedWords (quote : Char) :
    List Char → List Char → Cursor → Except Fault (List Char × Cursor)
  | [], _, _ => .error .unclosedQuote
  | _ :: bound, text, c =>
      if c.atBorder then .error .quoteOverBorder
      else if c.rest.isEmpty then .error .unclosedQuote
      else do
        let (word, escaped, c) ← quotedWord quote c.rest c
        if c.rest.head? == some quote then pure (text ++ word, c.skip 1)
        else
          let (g, c) ← Gap.pass none c.rest { ended := escaped, escaped } c
          quotedWords quote bound (text ++ word ++ g.text) c

/-- A quoted scalar, from its opening quote on. -/
def quotedScalar (quote : Char) (c : Cursor) : Except Fault (String × Cursor) := do
  let (text, c) ← quotedWords quote c.rest [] (c.skip 1)
  pure (String.ofList text, c)

end Yaml

end SampleSchema
