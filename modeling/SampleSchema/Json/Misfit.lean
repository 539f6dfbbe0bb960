import SampleSchema.Number.Shortest
import SampleSchema.Json.Fault
import SampleSchema.Text.Visible

/-!
# Values of the Wrong Shape

What can be wrong with a well-formed value that is read as something in
particular: it is of another kind, names something unknown, or gives one
field twice.

`Json.Error` puts both sorts of trouble together, since whoever reads a text
may meet either: a `Fault` has a place in the text, a `Misfit` concerns the
value and has none.

Strings in these messages are quoted so that nothing invisible remains:
besides quote and backslash, all characters without a visible form of their
own are escaped, most of them by number.

## Main definitions

* `Found`: What a value turned out to be.
* `Wanted`: What the reader was looking for.
* `Misfit`: Why a value does not fit.
* `Json.Error`: What can go wrong in reading JSON.
-/

namespace SampleSchema

namespace Json

/-- A character as it stands in a quotation. -/
def quotedChar (c : Char) : String :=
  match c with
  | '"' => "\\\""
  | '\\' => "\\\\"
  | '\n' => "\\n"
  | '\r' => "\\r"
  | '\t' => "\\t"
  | '\x00' => "\\0"
  | c =>
      if Text.isVisible c then c.toString
      else "\\u\x7b" ++ String.ofList (Nat.toDigits 16 c.toNat) ++ "\x7d"

/-- A string as it is quoted in a message. -/
def quoted (s : String) : String := "\"" ++ String.join (s.toList.map quotedChar) ++ "\""

/-- What a value turned out to be. -/
inductive Found
  | null
  | bool (b : Bool)
  | int (n : Int)
  | float (x : Float)
  | string (s : String)
  | sequence
  | map
  deriving Repr

/-- The wording of what was found. -/
def Found.message : Found → String
  | null => "null"
  | bool b => "boolean `" ++ (if b then "true" else "false") ++ "`"
  | int n => "integer `" ++ toString n ++ "`"
  | float x => "floating point `" ++ (Binary.ofFloat x).text ++ "`"
  | string s => "string " ++ quoted s
  | sequence => "sequence"
  | map => "map"

/-- What a reader was looking for. -/
inductive Wanted
  | record (name : String)
  | boolean
  | string
  | sequence
  | map
  | choice
  | choiceName
  | unit
  deriving DecidableEq, Repr

/-- The wording of what was looked for. -/
def Wanted.message : Wanted → String
  | record name => "struct " ++ name
  | boolean => "a boolean"
  | string => "a string"
  | sequence => "a sequence"
  | map => "a map"
  | choice => "string or map"
  | choiceName => "variant identifier"
  | unit => "unit"

/-- Why a value does not fit. -/
inductive Misfit
  /-- It is of another kind than the one looked for. -/
  | wrongKind (found : Found) (wanted : Wanted)
  /-- It names none of the choices. -/
  | unknownChoice (name : String) (choices : List String)
  /-- One field is given twice. -/
  | repeatedField (name : String)
  /-- A list stands for a record and has more elements than that has fields. -/
  | tooManyFields (length : Nat)
  /-- A choice written as an object must have exactly one member. -/
  | notOneMember
  /-- None of several readings fits. -/
  | noReading (of : String)
  deriving Repr

/-- A list of choices in words. -/
def choiceList (choices : List String) : String :=
  let ticked := choices.map fun c => "`" ++ c ++ "`"
  match ticked with
  | [] => "there are no variants"
  | [a] => "expected " ++ a
  | [a, b] => "expected " ++ a ++ " or " ++ b
  | _ => "expected one of " ++ ", ".intercalate ticked

/-- The wording of a misfit. -/
def Misfit.message : Misfit → String
  | wrongKind found wanted => "invalid type: " ++ found.message ++ ", expected " ++ wanted.message
  | unknownChoice name choices => "unknown variant `" ++ name ++ "`, " ++ choiceList choices
  | repeatedField name => "duplicate field `" ++ name ++ "`"
  | tooManyFields length =>
      "invalid length " ++ toString length ++ ", expected fewer elements in array"
  | notOneMember => "invalid value: map, expected map with a single key"
  | noReading of => "data did not match any variant of untagged enum " ++ of

/-- What can go wrong in reading JSON. -/
inductive Error
  /-- The text is not well-formed at a place. -/
  | malformed (fault : Fault) (position : Position)
  /-- The value does not fit what it is read as. -/
  | misfit (reason : Misfit)
  deriving Repr

/-- The wording of an error. -/
def Error.message : Error → String
  | malformed fault p =>
      fault.message ++ " at line " ++ toString p.line ++ " column " ++ toString p.column
  | misfit reason => reason.message

end Json

end SampleSchema
