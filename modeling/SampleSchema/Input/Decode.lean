import SampleSchema.Error
import SampleSchema.Input.Basic
import SampleSchema.Reading.Readers
import SampleSchema.RecordPath.Steps
import SampleSchema.Text.Blank

/-!
# Decoding

The samples in the text of a file.

In a file with one value on each line, blank lines are skipped, and lines are
numbered as they stand in the file. Blanks around a line do not belong to the
value, which takes care of files whose lines end in a carriage return. Where
the value of a line is wrong, its line number is reported beside the place
within the line.

In a document, a record path leads to the samples. A path with a star in it is
a query, and everything it finds is a sample; but with a bracket and a minus
sign next to each other it is taken as dot notation. Dot notation leads to one
value: if that is a list, its elements are the samples. Without a path the
document is the sample, or the list of samples if the settings say so.

How a JSON text and a query are read is up to the readers that are given.

## Main definitions

* `DecodeError`: Why a text yields no samples.
* `decodeLines`: The values on some lines.
* `isQuery`: A record path is to be read as a query.
* `samplesFound`: The samples in what a query finds.
* `InputSettings.samples`: The samples in a document.
* `InputSettings.decode`: The samples in a text.
-/

namespace SampleSchema

/-- Why a text yields no samples. -/
inductive DecodeError
  /-- The document is no JSON. -/
  | document (reason : Json.Error)
  /-- A line is no JSON. -/
  | line (number : Nat) (reason : Json.Error)
  /-- The record path is no query. -/
  | badPath (reason : Option String)
  /-- There is nothing to read. -/
  | noSamples

/-- The error that a decoding ends in. -/
def DecodeError.error : DecodeError → Error
  | document reason => .decode ("Failed to parse JSON: " ++ reason.message)
  | line number reason =>
      .decode ("Failed to parse JSONL at line " ++ toString number ++ ": " ++ reason.message)
  | badPath reason => .path ("Invalid JSONPath" ++ (reason.map (": " ++ ·)).getD "")
  | noSamples => .decode "no samples found in input"

/-- The values on some lines, the first of which has the given number, by a
    reader of one value. -/
def decodeLines (parse : String → Except Json.Error Json) :
    Nat → List (List Char) → Except DecodeError (List Json)
  | _, [] => .ok []
  | number, cs :: lines =>
      let text := Text.trim cs
      if text.isEmpty then decodeLines parse (number + 1) lines
      else
        match parse (String.ofList text) with
        | .error reason => .error (.line number reason)
        | .ok j => do
            let js ← decodeLines parse (number + 1) lines
            pure (j :: js)

/-- The values in a text with one on each line. -/
def decodeLinesOf (parse : String → Except Json.Error Json) (text : String) :
    Except DecodeError (List Json) :=
  decodeLines parse 1 (RecordPath.splitAt '\n' text.toList)

/-- A record path is to be read as a query. -/
def isQuery (path : String) : Bool :=
  let cs := path.toList
  cs.contains '*' && !(cs.zip cs.tail).contains ('[', '-')

/-- The samples in what a query finds. -/
def samplesFound : Json → List Json
  | .array elements => elements
  | .null => []
  | j => [j]

namespace InputSettings

/-- The samples in a document. -/
def samples (s : InputSettings) (r : Readers) (j : Json) : Except DecodeError (List Json) :=
  match s.recordPath with
  | some path =>
      if isQuery path then
        match r.query path with
        | .ok find => .ok (samplesFound (find j))
        | .error reason => .error (.badPath reason)
      else
        match RecordPath.locate path j with
        | some (.array elements) => .ok elements
        | some j => .ok [j]
        | none => .ok []
  | none =>
      match j with
      | .array elements => .ok (if s.splitArray then elements else [j])
      | _ => .ok [j]

/-- The samples in a text. -/
def decode (s : InputSettings) (text : String) (r : Readers := {}) :
    Except DecodeError (List Json) :=
  match s.format with
  | .jsonl => decodeLinesOf r.json text
  | .json =>
      match r.json text with
      | .error reason => .error (.document reason)
      | .ok j => s.samples r j

end InputSettings

end SampleSchema
