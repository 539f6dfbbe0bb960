import SampleSchema.Json.Basic
import SampleSchema.Number.Shortest

/-!
# JSON Text

Writing JSON down, on one line or spread over several.

Both styles share one recursion. A style only decides what stands between
the tokens: nothing, or line breaks with two blanks for each level of
nesting and a blank after each colon. An empty list or object stays on its
line in either style.

In strings the quote, the backslash and the control characters below U+0020
are escaped, the last ones by their short names where they have one. All
other characters stand for themselves.

## Main definitions

* `Style`: One line, or one line for each element.
* `escape`: A character as it stands inside a string.
* `quote`: A string with its quotes.
* `Written.render`: The text of a tree.
* `Json.compact`, `Json.pretty`: The text of a value.
-/

namespace SampleSchema

namespace Json

/-- How a text is spread over lines. -/
inductive Style
  /-- All on one line. -/
  | compact
  /-- One line for each element or member. -/
  | pretty
  deriving DecidableEq, Repr

/-- What stands before an element at a level of nesting. -/
def Style.lineBreak : Style → Nat → List Char
  | .compact, _ => []
  | .pretty, level => '\n' :: List.replicate (2 * level) ' '

/-- What stands between a name and its value. -/
def Style.colon : Style → List Char
  | .compact => [':']
  | .pretty => [':', ' ']

/-- A digit of a `\u` escape. -/
def hexDigit (n : Nat) : Char :=
  if n < 10 then Char.ofNat ('0'.toNat + n) else Char.ofNat ('a'.toNat + (n - 10))

/-- A character as it stands inside a string. -/
def escape (c : Char) : List Char :=
  match c with
  | '"' => ['\\', '"']
  | '\\' => ['\\', '\\']
  | '\x08' => ['\\', 'b']
  | '\t' => ['\\', 't']
  | '\n' => ['\\', 'n']
  | '\x0c' => ['\\', 'f']
  | '\r' => ['\\', 'r']
  | c =>
      if c.toNat < 0x20 then
        ['\\', 'u', '0', '0', hexDigit (c.toNat / 16), hexDigit (c.toNat % 16)]
      else [c]

/-- A string with its quotes. -/
def quote (s : String) : List Char := '"' :: (s.toList.flatMap escape ++ ['"'])

/-- Elements between brackets, at a level of nesting. -/
def enclose (style : Style) (level : Nat) (opening closing : Char)
    (elements : List (List Char)) : List Char :=
  if elements.isEmpty then [opening, closing]
  else
    opening :: style.lineBreak (level + 1) ++
      (',' :: style.lineBreak (level + 1)).intercalate elements ++
      style.lineBreak level ++ [closing]

/-- The text of a tree whose brackets open at a level of nesting. -/
def Written.render (style : Style) (level : Nat) : Written → List Char
  | .null => "null".toList
  | .bool b => (if b then "true" else "false").toList
  | .int n => (toString n).toList
  | .float x => (Binary.ofFloat x).text.toList
  | .string s => quote s
  | .array elements =>
      enclose style level '[' ']' (elements.map fun w => w.render style (level + 1))
  | .object members =>
      enclose style level '\x7b' '\x7d' (members.map fun m =>
        quote m.1 ++ style.colon ++ m.2.render style (level + 1))
termination_by w => w
decreasing_by
  · decreasing_tactic
  · next hm =>
      have hlt := List.sizeOf_lt_of_mem hm
      have hpair : sizeOf m = 1 + sizeOf m.1 + sizeOf m.2 := by cases m; rfl
      simp only [Written.object.sizeOf_spec]
      omega

/-- The text of a tree. -/
def Written.text (style : Style) (w : Written) : String := String.ofList (w.render style 0)

/-- The text of a value, members in ascending order. -/
def text (style : Style) (j : Json) : String := j.written.text style

/-- The text of a value on one line. -/
def compact (j : Json) : String := j.text .compact

/-- The text of a value, one line for each element or member. -/
def pretty (j : Json) : String := j.text .pretty

end Json

end SampleSchema
