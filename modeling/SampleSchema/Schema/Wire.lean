import SampleSchema.Json.Printer
import SampleSchema.Reading.FromText
import SampleSchema.Reading.FromYaml
import SampleSchema.Schema.Merge
import SampleSchema.Schema.Compare

/-!
# The Wire Form

Schemas, tags and options as JSON, in both directions.

A schema is an object with the five parts as members. Only present parts are
written, in the order `type`, `items`, `properties`, `required`, `anyOf`; in
the value, as in any JSON value, the members are in ascending order instead.
When a schema is read, a null part is an absent one, and members of other
names are passed over.

A tag is written as its name. It may also be read from an object whose only
member has the name and is null, and `map` also goes by its second spelling.
What stands under `type` is a tag if it can be read as one and else a list of
tags; anything else fits neither.

Reading recurs through `Source.record`, which hands a reader for the nested
schemas to itself. A level is allowed for each bracket of the source, which
is more than can be used, since a nested schema needs at least one.

## Main definitions

* `Tag.choices`: The names under which tags are read.
* `TypeSpec.ofWritten?`, `TypeSpec.written`: What stands under `type`.
* `Schema.reader`: Schemas from any source.
* `Schema.ofJson`, `Schema.parse`: A schema from a JSON value or text.
* `Schema.parseYaml`: A schema from a YAML document.
* `Schema.written`: A schema with its parts in order.
* `Schema.json`: A schema as a JSON value.
* `MergeOptions.reader`, `CompareOptions.reader`: Options from any source.
-/

namespace SampleSchema

/-! ### Tags -/

namespace Tag

/-- The names under which tags are read. -/
def choices : List (String × Tag) :=
  (all.filter (· != map)).map (fun t => (t.name, t)) ++ [(mapAlias, map), (map.name, map)]

/-- A tag from any source. -/
def reader {r : Type → Type} [Source r] : r Tag := Source.choice choices

/-- A tag from a JSON value. -/
def ofJson (j : Json) : Except Json.Misfit Tag := (reader : FromJson Tag) j

/-- A tag as it may be written under `type`. -/
def ofWritten? : Json.Written → Option Tag
  | .string s => ofName? s
  | .object [(name, .null)] => ofName? name
  | _ => none

end Tag

namespace TypeSpec

/-- What stands under `type`: a tag, or else a list of tags. -/
def ofWritten? (w : Json.Written) : Option TypeSpec :=
  match Tag.ofWritten? w, w with
  | some tag, _ => some (single tag)
  | none, .array elements => several <$> elements.mapM Tag.ofWritten?
  | none, _ => none

/-- What is written under `type`. -/
def written : TypeSpec → Json.Written
  | single tag => .string tag.name
  | several tags => .array (tags.map fun tag => .string tag.name)

end TypeSpec

/-! ### Schemas -/

namespace Schema

/-- The parts of a schema, given how to read a schema inside. -/
def fields {r : Type → Type} [Source r] (inside : r Schema) : List (Field r Schema) :=
  [ Source.field "type" (Source.optional (Source.anything "SchemaType" TypeSpec.ofWritten?))
      fun type s => { s with type },
    Source.field "items" (Source.optional inside)
      fun items s => { s with items },
    Source.field "properties" (Source.optional (Source.keyed inside))
      fun properties s => { s with properties },
    Source.field "required" (Source.optional (Source.list Source.string))
      fun required s => { s with required },
    Source.field "anyOf" (Source.optional (Source.list inside))
      fun anyOf s => { s with anyOf } ]

/-- A schema from any source, nested at most so many levels. -/
def reader {r : Type → Type} [Source r] : Nat → r Schema
  | 0 => Source.tooDeep
  | levels + 1 => Source.record "Schema" (fields (reader levels)) {}

/-- A schema from a JSON value. -/
def ofJson (j : Json) : Except Json.Misfit Schema := (reader (j.depth + 1) : FromJson Schema) j

/-- A schema from a JSON text. -/
def parse (text : String) : Except Json.Error Schema :=
  FromText.run (reader (Json.depthLimit + 1)) text

/-- A schema from a YAML document. -/
def parseYaml (text : String) (document : Yaml.Reader := Yaml.Node.parse) :
    Except Yaml.Fault Schema :=
  FromYaml.run document (reader (FromYaml.depthLimit + 1)) text

/-- A schema with its present parts in order. -/
def written : Schema → Json.Written
  | ⟨type, items, properties, required, anyOf⟩ =>
    .object <|
      (type.map fun t => ("type", t.written)).toList ++
      (match items with
        | some c => [("items", c.written)]
        | none => []) ++
      (match properties with
        | some r => [("properties", .object (r.mapMem fun _ c _ => c.written).toList)]
        | none => []) ++
      (required.map fun names => ("required", .array (names.map .string))).toList ++
      (match anyOf with
        | some cs => [("anyOf", .array (cs.map fun c => c.written))]
        | none => [])
termination_by s => s
decreasing_by
  · exact sizeOf_lt_of_mem_children (mem_children_of_items rfl)
  · exact sizeOf_lt_of_mem_children (mem_children_of_properties rfl ‹_›)
  · exact sizeOf_lt_of_mem_children (mem_children_of_anyOf rfl ‹_›)

theorem written_eq (s : Schema) :
    s.written = .object (
      (s.type.map fun t => ("type", t.written)).toList ++
      (s.items.map fun c => ("items", c.written)).toList ++
      (s.properties.map fun r =>
        ("properties", .object (r.map fun _ c => c.written).toList)).toList ++
      (s.required.map fun names => ("required", .array (names.map .string))).toList ++
      (s.anyOf.map fun cs => ("anyOf", .array (cs.map written))).toList) := by
  rcases s with ⟨type, items, properties, required, anyOf⟩
  cases items <;> cases properties <;> cases anyOf <;>
    simp [written, Keyed.mapMem_eq_map _ fun _ c => written c]

/-- A schema as a JSON value. -/
def json (s : Schema) : Json := s.written.value

end Schema

/-! ### Options -/

/-- Options of merging from any source. -/
def MergeOptions.reader {r : Type → Type} [Source r] : r MergeOptions :=
  Source.record "SchemaGenOptions"
    [Source.field "noRequired" Source.boolean fun noRequired o => { o with noRequired }] {}

/-- Options of merging as a JSON value. -/
def MergeOptions.json (o : MergeOptions) : Json :=
  .object (Keyed.ofList [("noRequired", .bool o.noRequired)])

/-- Options of comparison from any source. -/
def CompareOptions.reader {r : Type → Type} [Source r] : r CompareOptions :=
  Source.record "ComparisonOptions"
    [Source.field "ignoreRequired" Source.boolean fun ignoreRequired o => { o with ignoreRequired }]
    {}

/-- Options of comparison as a JSON value. -/
def CompareOptions.json (o : CompareOptions) : Json :=
  .object (Keyed.ofList [("ignoreRequired", .bool o.ignoreRequired)])

end SampleSchema
