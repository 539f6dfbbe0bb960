import SampleSchema.Json.Basic

/-!
# Samples

The values from which schemas are inferred.

A sample is a JSON value with one more distinction. A JSON object may stand
for two different things: a record, whose names are fixed and whose values
differ in kind, or a map, whose names are data and whose values are all
alike. Nothing in the value says which is meant, so a sample says it, and
`Sample.map` and `Sample.object` are different samples even when their
entries agree.

Samples need not come from JSON, so a number may also be infinite or no
number at all.

## Main definitions

* `Sample`: A sample value.
* `Sample.kind`: Its kind in one word.
* `Sample.asMap`: Take an object for a map.
-/

namespace SampleSchema

/-- A sample value. -/
inductive Sample
  | null
  | bool (b : Bool)
  | int (n : Int)
  | float (x : Float)
  | string (s : String)
  | list (elements : List Sample)
  /-- Values of one kind under names that are data. -/
  | map (entries : Keyed Sample)
  /-- Values under names that are fixed. -/
  | object (entries : Keyed Sample)
  deriving Inhabited

namespace Sample

/-- The kind of a sample in one word. -/
def kind : Sample → String
  | null => "null"
  | bool _ => "bool"
  | int _ => "int"
  | float _ => "float"
  | string _ => "string"
  | list _ => "list"
  | map _ => "map"
  | object _ => "object"

/-- Take an object for a map. Other samples stay as they are. -/
def asMap : Sample → Sample
  | object entries => map entries
  | v => v

end Sample

end SampleSchema
