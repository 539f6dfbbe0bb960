import SampleSchema.Sample.Basic

/-!
# Designated Maps

Saying which JSON objects are maps.

A designation names properties. An object stored under one of these names,
wherever that is, becomes a map sample, and a flag does the same for the
outermost object. Only the object itself changes: what it holds is judged by
its own names, and the elements of a list are stored under no name at all,
so they stay objects even when the list is stored under a designated one.

## Main definitions

* `Designation`: The names whose objects are maps, and the flag for the root.
* `Designation.isEmpty`: Nothing is designated.
* `Designation.convert`: The sample of a JSON value.
* `Sample.ofJson`: The sample of a JSON value in which nothing is a map.
-/

namespace SampleSchema

/-- Which JSON objects are maps. -/
structure Designation where
  /-- Objects under these names are maps. -/
  names : List String := []
  /-- An outermost object is a map. -/
  root : Bool := false
  deriving DecidableEq, Inhabited, Repr

namespace Designation

/-- Nothing is designated. -/
def isEmpty (d : Designation) : Bool := d.names.isEmpty && !d.root

/-- A sample as it is seen under a name. -/
def under (d : Designation) (name : String) (v : Sample) : Sample :=
  if name ∈ d.names then v.asMap else v

/-- The sample of a JSON value that is not the root. -/
def inner (d : Designation) : Json → Sample
  | .null => .null
  | .bool b => .bool b
  | .int n => .int n
  | .float x => .float x
  | .string s => .string s
  | .array elements => .list (elements.map fun j => d.inner j)
  | .object members => .object (members.mapMem fun name j _ => d.under name (d.inner j))
termination_by j => j
decreasing_by
  · decreasing_tactic
  · next hm =>
      have hlt := Keyed.sizeOf_lt_of_mem hm
      simp only [Json.object.sizeOf_spec]
      omega

/-- The sample of a JSON value. -/
def convert (d : Designation) (j : Json) : Sample :=
  if d.root then (d.inner j).asMap else d.inner j

theorem inner_object (d : Designation) (members : Keyed Json) :
    d.inner (.object members) =
      .object (members.map fun name j => d.under name (d.inner j)) := by
  rw [inner, Keyed.mapMem_eq_map members fun name j => d.under name (d.inner j)]

end Designation

/-- The sample of a JSON value in which nothing is a map. -/
def Sample.ofJson (j : Json) : Sample := Designation.convert {} j

end SampleSchema
