import SampleSchema.Keyed
import SampleSchema.Json.Basic

/-!
# Sources

What a notation has to offer so that records can be read from it.

Schemas and settings are read from three places: from a JSON value that is
already there, from a JSON text while it is being parsed, and from a YAML
document. The places differ in what they report and when, but what is read is
the same, and it should be described once. `Source r` is the interface: `r α`
is a reader of an `α`, and the class lists the few things from which readers
of records are put together.

A record is described by its `Field`s. Fields may come in any order and may
be missing, unknown names are passed over, and a field given twice is an
error, where all names of one field count as the same.

## Main definitions

* `Field`: One field of a record.
* `Field.named?`: The field with a name.
* `Source`: A notation from which records are read.
* `Source.field`: A field from a reader of its value.
* `Field.orNamed`: A field with a second name.
-/

namespace SampleSchema

/-- One field of a record of type `σ`. -/
structure Field (r : Type → Type) (σ : Type) where
  /-- The name under which it is reported. -/
  name : String
  /-- Further names. -/
  aliases : List String
  /-- Reads a value, which then changes the record. -/
  update : r (σ → σ)

/-- The field with a name. -/
def Field.named? {r : Type → Type} {σ : Type} (fields : List (Field r σ)) (name : String) :
    Option (Field r σ) :=
  fields.find? fun f => f.name == name || f.aliases.contains name

/-- A notation from which records are read. -/
class Source (r : Type → Type) extends Functor r where
  /-- A truth value. -/
  boolean : r Bool
  /-- A text. -/
  string : r String
  /-- A value, or the mark for none. -/
  optional {α : Type} : r α → r (Option α)
  /-- Values one after another. -/
  list {α : Type} : r α → r (List α)
  /-- Values under names. The last one under a name counts. -/
  keyed {α : Type} : r α → r (Keyed α)
  /-- A record of a kind, starting from one in which no field is given. -/
  record {σ : Type} (kind : String) (fields : List (Field r σ)) (start : σ) : r σ
  /-- One of some named choices. -/
  choice {α : Type} (choices : List (String × α)) : r α
  /-- Any value at all that some function can make sense of. -/
  anything {α : Type} (kind : String) (sense : Json.Written → Option α) : r α
  /-- Nothing, because the nesting is deeper than what was allowed for. -/
  tooDeep {α : Type} : r α

/-- A field from a reader of its value. -/
def Source.field {r : Type → Type} [Source r] {σ α : Type} (name : String) (value : r α)
    (set : α → σ → σ) : Field r σ :=
  ⟨name, [], set <$> value⟩

/-- A field with a second name. -/
def Field.orNamed {r : Type → Type} {σ : Type} (f : Field r σ) (name : String) : Field r σ :=
  { f with aliases := name :: f.aliases }

end SampleSchema
