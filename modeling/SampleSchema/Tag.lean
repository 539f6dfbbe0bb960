/-!
# Type Tags

The seventeen words that may stand under `type` in a schema.

Their order matters. A merge collects its alternatives tag by tag, so the
position of a tag in `Tag.all` is its position in every union the library
produces. The order of the constructors is that order.

Three tags are containers: `array`, `object` and `map` describe values with
further values inside. All others are leaves. Sampling only ever yields
`null`, `boolean`, `integer`, `number`, `string` and the containers; the
fixed-width leaves come from schemas written by hand, and no leaf but
`integer` is covered by another.

## Main definitions

* `Tag`: A type tag.
* `Tag.all`: Every tag, in canonical order.
* `Tag.index`: The position of a tag in that order.
* `Tag.name`: How a tag is written.
* `Tag.ofName?`: The tag of a written name.
* `Tag.isContainer`: The tag describes values with further values inside.

## Theorems

* `Tag.mem_all`: No tag is missing from the order.
* `Tag.ofName?_name`: A written tag is read back.
-/

namespace SampleSchema

/-- A type tag. -/
inductive Tag
  | null
  | boolean
  | integer
  | number
  | string
  | int16
  | int32
  | int64
  | uint32
  | uint64
  | double
  | bool
  | string16
  | string32
  | array
  | object
  | map
  deriving DecidableEq, Inhabited, Repr

namespace Tag

/-- Every tag, in canonical order. -/
def all : List Tag :=
  [null, boolean, integer, number, string, int16, int32, int64, uint32, uint64, double, bool,
    string16, string32, array, object, map]

/-- The position of a tag in canonical order. -/
def index (t : Tag) : Nat := all.idxOf t

/-- How a tag is written. -/
def name : Tag → String
  | null => "null"
  | boolean => "boolean"
  | integer => "integer"
  | number => "number"
  | string => "string"
  | int16 => "int16"
  | int32 => "int32"
  | int64 => "int64"
  | uint32 => "uint32"
  | uint64 => "uint64"
  | double => "double"
  | bool => "bool"
  | string16 => "string16"
  | string32 => "string32"
  | array => "array"
  | object => "object"
  | map => "map"

/-- A second spelling of `map`, which is read but never written. -/
def mapAlias : String := "Map"

/-- The tag of a written name. -/
def ofName? (s : String) : Option Tag :=
  if s = mapAlias then some map else all.find? fun t => t.name = s

/-- The tag describes values with further values inside. -/
def isContainer : Tag → Bool
  | array | object | map => true
  | _ => false

theorem mem_all (t : Tag) : t ∈ all := by cases t <;> decide

theorem nodup_all : all.Nodup := by decide

theorem pairwise_all : all.Pairwise fun a b => a.index < b.index := by decide

/-- A written tag is read back. -/
@[simp] theorem ofName?_name (t : Tag) : ofName? t.name = some t := by cases t <;> decide

end Tag

end SampleSchema
