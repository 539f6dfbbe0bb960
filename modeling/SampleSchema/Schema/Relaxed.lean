import SampleSchema.Schema.Basic

/-!
# Schemas without Requirements

A schema with every requirement taken away, at every depth.

This is what the option to leave out requirements comes to: what is inferred
or merged under it carries none, and a comparison under it sees no difference
between schemas that agree once they are relaxed. Two schemas differ in their
requirements only exactly when their relaxed forms are equal.

## Main definitions

* `Schema.relaxed`: The schema without requirements.
* `Schema.isRelaxed`: No node has requirements.

## Theorems

* `Schema.relaxed_eq`: The relaxed form, part by part.
* `Schema.isRelaxed_iff`: A node is relaxed when it requires nothing and its
  children are relaxed.
-/

namespace SampleSchema

namespace Schema

/-- The schema without requirements, at any depth. -/
def relaxed : Schema → Schema
  | ⟨type, items, properties, _, anyOf⟩ =>
    { type := type
      items :=
        match items with
        | some c => some c.relaxed
        | none => none
      properties :=
        match properties with
        | some r => some (r.mapMem fun _ c _ => c.relaxed)
        | none => none
      anyOf :=
        match anyOf with
        | some cs => some (cs.map fun c => c.relaxed)
        | none => none }
termination_by s => s
decreasing_by
  · exact sizeOf_lt_of_mem_children (mem_children_of_items rfl)
  · exact sizeOf_lt_of_mem_children (mem_children_of_properties rfl ‹_›)
  · exact sizeOf_lt_of_mem_children (mem_children_of_anyOf rfl ‹_›)

theorem relaxed_eq (s : Schema) :
    s.relaxed =
      { type := s.type
        items := s.items.map relaxed
        properties := s.properties.map fun r => r.map fun _ c => c.relaxed
        anyOf := s.anyOf.map fun cs => cs.map relaxed } := by
  rcases s with ⟨type, items, properties, required, anyOf⟩
  cases items <;> cases properties <;> cases anyOf <;>
    simp only [relaxed, Option.map_some, Option.map_none,
      Keyed.mapMem_eq_map _ fun _ c => relaxed c]

/-- No node has requirements, at any depth. -/
def isRelaxed (s : Schema) : Bool :=
  s.required.isNone && s.children.attach.all fun c => c.1.isRelaxed
termination_by s
decreasing_by exact sizeOf_lt_of_mem_children c.2

theorem isRelaxed_iff {s : Schema} :
    s.isRelaxed ↔ s.required = none ∧ ∀ c ∈ s.children, c.isRelaxed := by
  rw [isRelaxed]
  simp only [List.all_subtype, List.unattach_attach, Bool.and_eq_true, Option.isNone_iff_eq_none,
    List.all_eq_true]

end Schema

end SampleSchema
