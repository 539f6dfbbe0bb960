import SampleSchema.Input.Basic
import SampleSchema.Reading.FromText
import SampleSchema.Reading.FromYaml
import SampleSchema.Sample.Designation
import SampleSchema.Schema.Wire
import SampleSchema.Text.Blank

/-!
# Settings

What a run of the program can be told in a file.

Settings are read from JSON or YAML. Three of them go by a second name in
camel case, and both names count as one field. A YAML file of nothing but
blanks has all settings at their defaults.

## Main definitions

* `Settings`: The settings of a run.
* `Settings.reader`: Settings from any source.
* `Settings.json`: Settings as a JSON value.
* `Settings.options`, `Settings.designation`: What they mean for inference.
* `Settings.parseJson`, `Settings.parseYaml`: Settings from a text.
-/

namespace SampleSchema

/-- The settings of a run. -/
structure Settings where
  /-- Requirements are neither inferred nor kept. -/
  noRequired : Bool := false
  /-- Objects under these names are maps. -/
  mapKeys : List String := []
  /-- An outermost object is a map. -/
  mapRoot : Bool := false
  /-- Output has one line for each element. -/
  pretty : Bool := false
  /-- How samples are written. -/
  input : InputSettings := {}
  deriving DecidableEq, Inhabited, Repr

namespace Settings

/-- Settings from any source. -/
def reader {r : Type → Type} [Source r] : r Settings :=
  Source.record "GensonConfig"
    [ (Source.field "no_required" Source.boolean
        fun noRequired s => { s with noRequired }).orNamed "noRequired",
      (Source.field "map_keys" (Source.list Source.string)
        fun mapKeys s => { s with mapKeys }).orNamed "mapKeys",
      (Source.field "map_root" Source.boolean
        fun mapRoot s => { s with mapRoot }).orNamed "mapRoot",
      Source.field "pretty" Source.boolean
        fun pretty s => { s with pretty },
      Source.field "input" InputSettings.reader
        fun input s => { s with input } ] {}

/-- Settings from a JSON text. -/
def parseJson (text : String) : Except Json.Error Settings := FromText.run reader text

/-- Settings from a YAML document. -/
def parseYaml (text : String) (document : Yaml.Reader := Yaml.Node.parse) :
    Except Yaml.Fault Settings :=
  if (Text.trim text.toList).isEmpty then .ok {} else FromYaml.run document reader text

/-- Settings as a JSON value. -/
def json (s : Settings) : Json :=
  .object (Keyed.ofList [
    ("no_required", .bool s.noRequired),
    ("map_keys", .array (s.mapKeys.map .string)),
    ("map_root", .bool s.mapRoot),
    ("pretty", .bool s.pretty),
    ("input", s.input.json)])

/-- The options of inference and merging. -/
def options (s : Settings) : MergeOptions := { noRequired := s.noRequired }

/-- The objects that are maps. -/
def designation (s : Settings) : Designation := { names := s.mapKeys, root := s.mapRoot }

end Settings

end SampleSchema
