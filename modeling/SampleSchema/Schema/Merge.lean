import SampleSchema.Schema.Union

/-!
# Merging

The most specific schema that covers several.

All inputs are taken apart into fragments, and the fragments are sorted by
tag. Within one tag there is a rule for what becomes of them. Leaves with the
same tag say the same, so the first stands for all. Arrays, and likewise
maps, become one whose items are the merge of everything their items offer.
Objects become one with every property that any of them has, each the merge
of what is said about it, and with only those requirements that all of them
share. What comes out, at most one schema for each tag, is joined in the order
of the tags, except that a number covers the integers and drops them.

Every fragment needs a tag for this, so one without is refused. So is having
no fragment at all: there would be nothing to describe.

A property about which only one fragment says anything keeps that fragment as
it is.

Each step turns from fragments to what is inside them, so the highest of the
schemas being merged gets lower with every step, and the merge ends.

## Main definitions

* `MergeOptions`: Whether requirements are kept.
* `MergeError`: Why there is no merge.
* `Schema.tagged`: The fragments with a tag.
* `Schema.itemFragments`, `Schema.propertyFragments`: What fragments offer
  inside.
* `Schema.commonNames`: The names that all lists share.
* `Schema.absorb`: Integers are dropped beside numbers.
* `Schema.refusal?`: Why some fragments cannot be merged.
* `Schema.merge`: The most specific schema that covers several.
-/

namespace SampleSchema

/-- Options of inference and merging. -/
structure MergeOptions where
  /-- Requirements are neither inferred nor kept. -/
  noRequired : Bool := false
  deriving DecidableEq, Inhabited, Repr

/-- Why there is no merge. -/
inductive MergeError
  /-- There is nothing to merge. -/
  | nothing
  /-- A fragment has no type. -/
  | untyped (fragment : Schema)

namespace Schema

/-- The fragments with a tag. -/
def tagged (tag : Tag) (fragments : List Schema) : List Schema :=
  fragments.filter fun f => f.tag? == some tag

/-- What the items of some fragments offer. -/
def itemFragments (bucket : List Schema) : List Schema :=
  allFragments (bucket.filterMap fun f => f.items)

/-- What some fragments offer for a property. -/
def propertyFragments (name : String) (bucket : List Schema) : List Schema :=
  allFragments (bucket.filterMap fun f => f.property? name)

/-- The names that all lists share, in the order of the first. -/
def commonNames : List (List String) → List String
  | [] => []
  | first :: others =>
      first.eraseDups.filter fun name => others.all fun names => names.contains name

/-- Integers are dropped beside numbers, which cover them. -/
def absorb (found : List Schema) : List Schema :=
  if found.any fun s => s.tag? == some .number then
    found.filter fun s => s.tag? != some .integer
  else found

/-- One schema stands for itself, several are joined. -/
def joinFound : List Schema → Schema
  | [s] => s
  | found => join found

theorem maxHeight_itemFragments_lt {bucket : List Schema} (h : bucket ≠ []) :
    maxHeight (itemFragments bucket) < maxHeight bucket := by
  rcases List.exists_mem_of_ne_nil bucket h with ⟨b, hb⟩
  have hpos : 0 < maxHeight bucket := Nat.lt_of_lt_of_le (height_pos b) (height_le_maxHeight hb)
  have hle : maxHeight (bucket.filterMap fun f => f.items) ≤ maxHeight bucket - 1 := by
    apply maxHeight_le
    intro x hx
    rcases List.mem_filterMap.1 hx with ⟨f, hf, hx⟩
    have h1 := height_lt (mem_children_of_items hx)
    have h2 := height_le_maxHeight hf
    omega
  have := maxHeight_allFragments (bucket.filterMap fun f => f.items)
  unfold itemFragments
  omega

theorem maxHeight_propertyFragments_lt {bucket : List Schema} (name : String) (h : bucket ≠ []) :
    maxHeight (propertyFragments name bucket) < maxHeight bucket := by
  rcases List.exists_mem_of_ne_nil bucket h with ⟨b, hb⟩
  have hpos : 0 < maxHeight bucket := Nat.lt_of_lt_of_le (height_pos b) (height_le_maxHeight hb)
  have hle : maxHeight (bucket.filterMap fun f => f.property? name) ≤ maxHeight bucket - 1 := by
    apply maxHeight_le
    intro x hx
    rcases List.mem_filterMap.1 hx with ⟨f, hf, hx⟩
    have h1 := height_lt (mem_children_of_property? hx)
    have h2 := height_le_maxHeight hf
    omega
  have := maxHeight_allFragments (bucket.filterMap fun f => f.property? name)
  unfold propertyFragments
  omega

theorem maxHeight_tagged_le (tag : Tag) (xs : List Schema) :
    maxHeight (tagged tag (allFragments xs)) ≤ maxHeight xs := by
  apply maxHeight_le
  intro f hf
  have hmem : f ∈ allFragments xs := (List.mem_filter.1 hf).1
  exact Nat.le_trans (height_le_maxHeight hmem) (maxHeight_allFragments xs)

/-- Why some fragments cannot be merged: there are none, or one has no tag. -/
def refusal? (fragments : List Schema) : Option MergeError :=
  if fragments.isEmpty then some .nothing
  else (fragments.find? fun f => f.tag?.isNone).map .untyped

/-- The most specific schema that covers several. -/
def merge (o : MergeOptions) (xs : List Schema) : Except MergeError Schema :=
  match refusal? (allFragments xs) with
  | some e => .error e
  | none => do
      let found ← Tag.all.mapM fun tag =>
        let bucket := tagged tag (allFragments xs)
        if _h : bucket = [] then pure none
        else
          match tag with
          | .array | .map =>
              if (itemFragments bucket).isEmpty then pure (some (container tag none))
              else do
                let items ← merge o (itemFragments bucket)
                pure (some (container tag (some items)))
          | .object => do
              let names := Keyed.tabulate (bucket.flatMap propertyNames) fun _ => ()
              let properties ← names.mapM fun name _ =>
                match propertyFragments name bucket with
                -- Nothing to merge it with, so it stays even without a tag.
                | [f] => pure f
                | _ => merge o (propertyFragments name bucket)
              let required :=
                if o.noRequired then none else some (commonNames (bucket.map requiredNames))
              pure (some (object properties required))
          | _ => pure bucket.head?
      pure (joinFound (absorb (found.filterMap id)))
termination_by maxHeight xs
decreasing_by
  · exact Nat.lt_of_lt_of_le (maxHeight_itemFragments_lt _h) (maxHeight_tagged_le tag xs)
  · exact Nat.lt_of_lt_of_le (maxHeight_propertyFragments_lt name _h)
      (maxHeight_tagged_le _ xs)

end Schema

end SampleSchema
