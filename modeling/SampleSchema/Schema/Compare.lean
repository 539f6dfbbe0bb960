import SampleSchema.Schema.Identity
import SampleSchema.Schema.Merge

/-!
# Comparison

Whether two schemas describe the same, and whether one covers another.

Spelling does not count: both schemas are taken apart, and it is the
fragments that are compared. They are paired tag by tag. Leaves of one tag
are always equal, arrays and maps are equal when their items are, and objects
when they have the same properties, equal one by one, and the same required
names in whatever order. The requirements can also be left out of account.

Where several fragments share a tag, each fragment on the left takes the
first equal one on the right that is still free. Since being equal is an
equivalence, it does not matter which one is taken.

A fragment without a type has no rule of its own. As soon as there is one on
either side the fragments must be literally the same, in the same order.

One schema covers another when merging the other into it changes nothing.

## Main definitions

* `CompareOptions`: Whether requirements count.
* `pairOff`: Each element on the left takes an equal one on the right.
* `Schema.sameNames`: Two lists hold the same names.
* `Schema.equal`: Two schemas describe the same.
* `Schema.covers`: One schema covers another.
-/

namespace SampleSchema

/-- Options of comparison. -/
structure CompareOptions where
  /-- Requirements do not count. -/
  ignoreRequired : Bool := false
  deriving DecidableEq, Inhabited, Repr

/-- Each element on the left takes the first one on the right that is equal to
    it and still free. -/
def pairOff {α β : Type} (same : α → β → Bool) : List α → List β → Bool
  | [], _ => true
  | a :: as, bs =>
      match bs.findIdx? (same a) with
      | some i => pairOff same as (bs.eraseIdx i)
      | none => false

namespace Schema

/-- Two lists hold the same names. -/
def sameNames (a b : List String) : Bool :=
  a.all (fun name => b.contains name) && b.all fun name => a.contains name

/-- Two fragments with a tag describe the same, given how to compare what is
    inside the first. -/
def sameFragment (o : CompareOptions) (tag : Tag) (l r : Schema)
    (same : (c : Schema) → c ∈ l.children → Schema → Bool) : Bool :=
  match tag with
  | .array | .map =>
      match h : l.items, r.items with
      | some c, some d => same c (mem_children_of_items h) d
      | none, none => true
      | _, _ => false
  | .object =>
      decide (l.propertyNames = r.propertyNames) &&
      (match h : l.properties with
      | none => true
      | some properties =>
          properties.toList.attach.all fun e =>
            match r.property? e.1.1 with
            | some d => same e.1.2 (mem_children_of_properties h e.2) d
            | none => false) &&
      (o.ignoreRequired || sameNames l.requiredNames r.requiredNames)
  | _ => true

/-- Two schemas describe the same. -/
def equal (o : CompareOptions) (a b : Schema) : Bool :=
  let left := a.fragments
  let right := b.fragments
  if left.length ≠ right.length then false
  -- Without a tag there is nothing to pair by.
  else if (left ++ right).any fun f => f.tag?.isNone then decide (left = right)
  else
    Tag.all.all fun tag =>
      decide ((tagged tag left).length = (tagged tag right).length) &&
      pairOff
        (fun (l : { l // l ∈ tagged tag a.fragments }) r =>
          sameFragment o tag l.1 r fun c _ d => equal o c d)
        (tagged tag a.fragments).attach (tagged tag right)
termination_by a.height
decreasing_by
  have hmem := List.mem_filter.1 l.2
  exact Nat.lt_of_lt_of_le (height_lt ‹_›) (height_le_of_mem_fragments a l.1 hmem.1)

/-- The first schema covers the second: merging them gives nothing new. -/
def covers (main sub : Schema) : Except MergeError Bool := do
  let merged ← merge {} [main, sub]
  pure (equal {} merged main)

end Schema

end SampleSchema
