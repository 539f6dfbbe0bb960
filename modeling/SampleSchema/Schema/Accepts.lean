import SampleSchema.Number.Binary
import SampleSchema.Sample.Basic
import SampleSchema.Schema.Basic

/-!
# Instances

The samples that a schema describes.

A schema with alternatives describes what any of them describes, whatever
else it says. Any other schema goes by its type, and without one it describes
nothing. A whole number is an integer and a number, however it is stored. The
elements of a list must all be described by the items, and so must the values
of a map; without items only an empty one will do. An object may hold nothing
but properties, each described by its schema, and must hold the names that
are required.

The fixed-width tags describe no samples. They come from schemas written by
hand, and no sample is ever found to be of such a type.

An alternative is judged by the same sample and an element by a schema that
may be as high as the one around it. What gets smaller is therefore the
sample, or else the schema.

## Main definitions

* `Schema.names`: The type names a tag.
* `Schema.accepts`: The schema describes a sample.

## Theorems

* `Schema.accepts_of_anyOf`: What alternatives describe together.
* `Schema.accepts_list`, `Schema.accepts_map`, `Schema.accepts_object`: When a
  sample with something inside is described.
-/

namespace SampleSchema

namespace Schema

/-- The type names the tag. -/
def names (s : Schema) (tag : Tag) : Bool := s.type.any fun t => t.contains tag

/-- The schema describes the sample. -/
def accepts : Schema → Sample → Bool
  | ⟨_, _, _, _, some alternatives⟩, v => alternatives.attach.any fun a => a.1.accepts v
  | s, .null => s.names .null
  | s, .bool _ => s.names .boolean
  | s, .int _ => s.names .integer || s.names .number
  | s, .float x =>
      if (Binary.ofFloat x).isWhole then s.names .integer || s.names .number
      else s.names .number
  | s, .string _ => s.names .string
  | s, .list elements =>
      s.names .array && elements.attach.all fun e => s.items.any fun c => c.accepts e.1
  | s, .map entries =>
      s.names .map && entries.toList.attach.all fun e => s.items.any fun c => c.accepts e.1.2
  | s, .object entries =>
      s.names .object &&
      (entries.toList.attach.all fun e =>
        (s.property? e.1.1).any fun c => c.accepts e.1.2) &&
      s.requiredNames.all fun name => (entries.get? name).isSome
termination_by s v => (sizeOf v, s.height)
decreasing_by
  · exact Prod.Lex.right _ (height_lt (mem_children_of_anyOf rfl a.2))
  · apply Prod.Lex.left
    have hlt := List.sizeOf_lt_of_mem e.2
    simp only [Sample.list.sizeOf_spec]
    omega
  · apply Prod.Lex.left
    have hlt : sizeOf e.1.2 < sizeOf entries := Keyed.sizeOf_lt_of_mem e.2
    simp only [Sample.map.sizeOf_spec]
    omega
  · apply Prod.Lex.left
    have hlt : sizeOf e.1.2 < sizeOf entries := Keyed.sizeOf_lt_of_mem e.2
    simp only [Sample.object.sizeOf_spec]
    omega

/-- Alternatives describe together what any of them describes. -/
theorem accepts_of_anyOf {s : Schema} {alternatives : List Schema}
    (h : s.anyOf = some alternatives) (v : Sample) :
    s.accepts v = alternatives.any fun a => a.accepts v := by
  rcases s with ⟨_, _, _, _, anyOf⟩
  subst h
  rw [accepts]
  simp only [List.any_subtype, List.unattach_attach]

/-- A list is described through its elements. -/
theorem accepts_list {s : Schema} (h : s.anyOf = none) (elements : List Sample) :
    s.accepts (.list elements) =
      (s.names .array && elements.all fun e => s.items.any fun c => c.accepts e) := by
  rcases s with ⟨_, _, _, _, anyOf⟩
  subst h
  rw [accepts]
  · simp only [List.all_subtype, List.unattach_attach]
  · intro _ _ _ _ _ hs
    simp only [Schema.mk.injEq, reduceCtorEq, and_false] at hs

/-- A map is described through its values. -/
theorem accepts_map {s : Schema} (h : s.anyOf = none) (entries : Keyed Sample) :
    s.accepts (.map entries) =
      (s.names .map && entries.values.all fun e => s.items.any fun c => c.accepts e) := by
  rcases s with ⟨_, _, _, _, anyOf⟩
  subst h
  rw [accepts]
  · simp only [List.all_subtype, List.unattach_attach, Keyed.values, List.all_map,
      Function.comp_def]
  · intro _ _ _ _ _ hs
    simp only [Schema.mk.injEq, reduceCtorEq, and_false] at hs

/-- An object is described through its entries, and must have what is required. -/
theorem accepts_object {s : Schema} (h : s.anyOf = none) (entries : Keyed Sample) :
    s.accepts (.object entries) =
      (s.names .object &&
        (entries.toList.all fun e => (s.property? e.1).any fun c => c.accepts e.2) &&
        s.requiredNames.all fun name => (entries.get? name).isSome) := by
  rcases s with ⟨_, _, _, _, anyOf⟩
  subst h
  rw [accepts]
  · simp only [List.all_subtype, List.unattach_attach]
  · intro _ _ _ _ _ hs
    simp only [Schema.mk.injEq, reduceCtorEq, and_false] at hs

end Schema

end SampleSchema
