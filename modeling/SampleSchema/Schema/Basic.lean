import SampleSchema.Tag
import SampleSchema.Keyed

/-!
# Schemas

A description of the values that may stand in one place.

A schema is a node with five optional parts. `type` names the kind of value,
or several kinds at once. `items` describes what is inside an array or a map,
`properties` and `required` what is inside an object, and `anyOf` lists
alternatives. Schemas written by hand may combine these parts in any way, so
nothing here rules a combination out; what the library itself produces is
much more regular, but that is a theorem about merging and not a matter of
the type.

Absent, empty and one-element parts are different things: no `required` is
not an empty one, and a type list with one tag is not that tag.

The parts that are schemas again are the `children` of a node, and every
recursion over schemas goes by them. `height` counts the nodes on the longest
way down, which is what shrinks when a merge turns to the parts of its
fragments.

## Main definitions

* `TypeSpec`: One tag, or a list of tags.
* `Schema`: A schema.
* `Schema.ofTag`, `Schema.ofTags`, `Schema.container`, `Schema.object`,
  `Schema.union`: Schemas of the common forms.
* `Schema.tag?`: The tag, if there is exactly one.
* `Schema.isSimple`: Nothing but a type.
* `Schema.children`: The schemas directly inside a node.
* `Schema.height`: The number of nodes on the longest way down.

## Theorems

* `Schema.induction`: What holds of a node whenever it holds of its children
  holds of every schema.
* `Schema.height_lt`: A child is less high.
-/

namespace SampleSchema

/-- What stands under `type`: one tag, or a list of tags. -/
inductive TypeSpec
  | single (tag : Tag)
  | several (tags : List Tag)
  deriving DecidableEq, Inhabited, Repr

namespace TypeSpec

/-- One tag stands for itself, any other number of tags is a list. -/
def ofTags : List Tag → TypeSpec
  | [tag] => single tag
  | tags => several tags

/-- The tags that are named. -/
def tags : TypeSpec → List Tag
  | single tag => [tag]
  | several tags => tags

/-- The tag is among those named. -/
def contains (t : TypeSpec) (tag : Tag) : Bool := decide (tag ∈ t.tags)

end TypeSpec

/-- A schema. -/
structure Schema where
  /-- The kind of value, or several kinds. -/
  type : Option TypeSpec := none
  /-- What is inside an array or a map. -/
  items : Option Schema := none
  /-- What is inside an object, by name. -/
  properties : Option (Keyed Schema) := none
  /-- The names that an object must have. -/
  required : Option (List String) := none
  /-- Alternatives, when no single type describes every value. -/
  anyOf : Option (List Schema) := none

namespace Schema

instance : Inhabited Schema := ⟨{}⟩

/-! ### Forms -/

/-- The schema that is nothing but a tag. -/
def ofTag (tag : Tag) : Schema := { type := some (.single tag) }

/-- The schema that is nothing but tags. -/
def ofTags (tags : List Tag) : Schema := { type := some (.ofTags tags) }

/-- An array or map, `items` being absent when nothing is known of them. -/
def container (tag : Tag) (items : Option Schema) : Schema :=
  { type := some (.single tag), items := items }

/-- An object. Empty properties and empty requirements are left out. -/
def object (properties : Keyed Schema) (required : Option (List String)) : Schema :=
  { type := some (.single .object)
    properties := if properties.isEmpty then none else some properties
    required := required.filter fun names => !names.isEmpty }

/-- Alternatives, taken as they are. -/
def union (alternatives : List Schema) : Schema := { anyOf := some alternatives }

/-! ### Parts -/

/-- The tag, if there is exactly one. -/
def tag? (s : Schema) : Option Tag :=
  match s.type with
  | some (.single tag) => some tag
  | _ => none

/-- The schema is nothing but a type. -/
def isSimple (s : Schema) : Bool :=
  s.type.isSome && s.items.isNone && s.properties.isNone && s.required.isNone && s.anyOf.isNone

/-- The schema's only tag is one of a container. -/
def isContainer (s : Schema) : Bool := s.tag?.any Tag.isContainer

/-- The schema of a property. -/
def property? (s : Schema) (name : String) : Option Schema :=
  s.properties.bind fun properties => properties.get? name

/-- The names that an object must have. -/
def requiredNames (s : Schema) : List String := s.required.getD []

/-- An object must have the name. -/
def isRequired (s : Schema) (name : String) : Bool := decide (name ∈ s.requiredNames)

/-- The names of the properties, ascending. -/
def propertyNames (s : Schema) : List String := (s.properties.map Keyed.keys).getD []

/-! ### Recursion -/

/-- The schemas directly inside a node. -/
def children (s : Schema) : List Schema :=
  s.items.toList ++ (s.properties.map Keyed.values).getD [] ++ s.anyOf.getD []

theorem mem_children_of_items {s c : Schema} (h : s.items = some c) : c ∈ s.children := by
  simp [children, h]

theorem mem_children_of_properties {s c : Schema} {properties : Keyed Schema} {name : String}
    (h : s.properties = some properties) (hc : (name, c) ∈ properties.toList) :
    c ∈ s.children := by
  have hmem : c ∈ properties.values := List.mem_map.2 ⟨(name, c), hc, rfl⟩
  simp [children, h, hmem]

theorem mem_children_of_property? {s c : Schema} {name : String} (h : s.property? name = some c) :
    c ∈ s.children := by
  rcases Option.bind_eq_some_iff.1 h with ⟨properties, hp, hc⟩
  exact mem_children_of_properties hp (Keyed.mem_toList_iff.2 hc)

theorem mem_children_of_anyOf {s c : Schema} {alternatives : List Schema}
    (h : s.anyOf = some alternatives) (hc : c ∈ alternatives) : c ∈ s.children := by
  simp [children, h, hc]

theorem sizeOf_lt_of_mem_children {s c : Schema} (h : c ∈ s.children) : sizeOf c < sizeOf s := by
  rcases s with ⟨type, items, properties, required, anyOf⟩
  simp only [children, List.mem_append, Option.mem_toList] at h
  simp only [Schema.mk.sizeOf_spec]
  rcases h with (h | h) | h
  · subst h
    simp only [Option.some.sizeOf_spec]
    omega
  · cases properties with
    | none => exact absurd h List.not_mem_nil
    | some properties =>
        rcases List.mem_map.1 h with ⟨⟨name, v⟩, he, rfl⟩
        have hlt := Keyed.sizeOf_lt_of_mem he
        simp only [Option.some.sizeOf_spec]
        omega
  · cases anyOf with
    | none => exact absurd h List.not_mem_nil
    | some alternatives =>
        have hlt := List.sizeOf_lt_of_mem h
        simp only [Option.getD_some, Option.some.sizeOf_spec] at hlt ⊢
        omega

/-- What holds of a node whenever it holds of its children holds of every
    schema. -/
theorem induction {P : Schema → Prop} (step : ∀ s, (∀ c ∈ s.children, P c) → P s) (s : Schema) :
    P s :=
  step s fun c _ => induction step c
termination_by s
decreasing_by exact sizeOf_lt_of_mem_children ‹_›

/-- The number of nodes on the longest way down. -/
def height (s : Schema) : Nat :=
  (s.children.attach.map fun c => c.1.height).foldr max 0 + 1
termination_by s
decreasing_by exact sizeOf_lt_of_mem_children c.2

/-- The height of the highest of some schemas. -/
def maxHeight (xs : List Schema) : Nat := (xs.map height).foldr max 0

theorem height_eq (s : Schema) : s.height = maxHeight s.children + 1 := by
  rw [height, maxHeight]
  simp

theorem height_le_maxHeight {xs : List Schema} {x : Schema} (h : x ∈ xs) :
    x.height ≤ maxHeight xs := by
  induction xs with
  | nil => exact absurd h List.not_mem_nil
  | cons y ys ih =>
      simp only [maxHeight, List.map_cons, List.foldr_cons] at ih ⊢
      rcases List.mem_cons.1 h with rfl | hmem
      · omega
      · have := ih hmem
        omega

theorem maxHeight_le {xs : List Schema} {n : Nat} (h : ∀ x ∈ xs, x.height ≤ n) :
    maxHeight xs ≤ n := by
  induction xs with
  | nil => exact Nat.zero_le n
  | cons y ys ih =>
      simp only [maxHeight, List.map_cons, List.foldr_cons] at ih ⊢
      have hy := h y List.mem_cons_self
      have hys := ih fun x hx => h x (List.mem_cons_of_mem _ hx)
      omega

/-- A child is less high than its parent. -/
theorem height_lt {s c : Schema} (h : c ∈ s.children) : c.height < s.height := by
  have := height_le_maxHeight h
  rw [height_eq s]
  omega

theorem height_pos (s : Schema) : 0 < s.height := by
  rw [height_eq]
  omega

theorem ofTag_height (tag : Tag) : (ofTag tag).height = 1 := by
  rw [height_eq]
  rfl

end Schema

end SampleSchema
