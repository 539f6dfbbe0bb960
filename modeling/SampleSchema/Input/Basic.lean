import SampleSchema.Reading.FromJson

/-!
# Input Settings

How samples are written in the files that hold them.

A file is one JSON document or has one JSON value on each line. A document
may hold its samples somewhere inside, at a record path, or it may be a list
whose elements are the samples.

## Main definitions

* `InputFormat`: One document, or one value on each line.
* `InputSettings`: Format and place of the samples.
* `InputSettings.reader`: Settings from any source.
* `InputSettings.json`: Settings as a JSON value.
-/

namespace SampleSchema

/-- How a file is divided into values. -/
inductive InputFormat
  /-- One JSON document. -/
  | json
  /-- One JSON value on each line. -/
  | jsonl
  deriving DecidableEq, Inhabited, Repr

namespace InputFormat

/-- How a format is written. -/
def name : InputFormat → String
  | json => "json"
  | jsonl => "jsonl"

/-- The names under which formats are read. -/
def choices : List (String × InputFormat) := [json, jsonl].map fun f => (f.name, f)

/-- The format of a name. -/
def ofName? (s : String) : Option InputFormat :=
  (choices.find? fun c => c.1 == s).map Prod.snd

end InputFormat

/-- Format and place of the samples in a file. -/
structure InputSettings where
  format : InputFormat := .json
  /-- Where the samples are inside a document. -/
  recordPath : Option String := none
  /-- The elements of a list are the samples. -/
  splitArray : Bool := false
  deriving DecidableEq, Inhabited, Repr

namespace InputSettings

/-- Settings from any source. -/
def reader {r : Type → Type} [Source r] : r InputSettings :=
  Source.record "DecoderConfig"
    [ Source.field "format" (Source.choice InputFormat.choices)
        fun format s => { s with format },
      Source.field "record_path" (Source.optional Source.string)
        fun recordPath s => { s with recordPath },
      Source.field "split_array" Source.boolean
        fun splitArray s => { s with splitArray } ] {}

/-- Settings from a JSON value. -/
def ofJson (j : Json) : Except Json.Misfit InputSettings := (reader : FromJson InputSettings) j

/-- Settings as a JSON value. -/
def json (s : InputSettings) : Json :=
  .object (Keyed.ofList [
    ("format", .string s.format.name),
    ("record_path", (s.recordPath.map Json.string).getD .null),
    ("split_array", .bool s.splitArray)])

end InputSettings

end SampleSchema
