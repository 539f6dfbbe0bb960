import SampleSchema.Schema.Basic

/-!
# Identity of Schemas

Deciding whether two schemas are the same, part by part.

Comparison of schemas is mostly about what they describe, and ignores how
they are spelled. Where a fragment carries no type there is nothing to go by,
and then only literally the same fragments count as equal. This module
decides that. A schema is nested through options, lists and collections, so
each of these containers gets a decision procedure that only asks for
decisions about what it holds.

## Main definitions

* `decideList`, `decideOption`, `decideKeyed`: Equality of containers from
  equality of what one of them holds.
* `Schema.decideEq`: Equality of schemas.
-/

namespace SampleSchema

/-- Equality of lists, given how to compare the elements of the first. -/
def decideList {α : Type} : (xs : List α) → (∀ x ∈ xs, ∀ y, Decidable (x = y)) →
    (ys : List α) → Decidable (xs = ys)
  | [], _, [] => .isTrue rfl
  | [], _, _ :: _ => .isFalse (by simp)
  | _ :: _, _, [] => .isFalse (by simp)
  | x :: xs, dec, y :: ys =>
      have : Decidable (x = y) := dec x List.mem_cons_self y
      have : Decidable (xs = ys) :=
        decideList xs (fun x hx => dec x (List.mem_cons_of_mem _ hx)) ys
      decidable_of_iff (x = y ∧ xs = ys) (by simp)

/-- Equality of options, given how to compare what the first one holds. -/
def decideOption {α : Type} : (a : Option α) → (∀ x ∈ a, ∀ y, Decidable (x = y)) →
    (b : Option α) → Decidable (a = b)
  | none, _, none => .isTrue rfl
  | none, _, some _ => .isFalse (by simp)
  | some _, _, none => .isFalse (by simp)
  | some x, dec, some y =>
      have : Decidable (x = y) := dec x rfl y
      decidable_of_iff (x = y) (by simp)

/-- Equality of collections, given how to compare the values of the first. -/
def decideKeyed {α : Type} (r : Keyed α)
    (dec : ∀ k v, (k, v) ∈ r.toList → ∀ w, Decidable (v = w)) (s : Keyed α) :
    Decidable (r = s) :=
  have entries : Decidable (r.toList = s.toList) :=
    decideList r.toList (fun e he f =>
      have : Decidable (e.2 = f.2) := dec e.1 e.2 he f.2
      decidable_of_iff (e.1 = f.1 ∧ e.2 = f.2) Prod.ext_iff.symm) s.toList
  decidable_of_iff (r.toList = s.toList)
    ⟨fun h => by rw [← Keyed.ofList_toList r, h, Keyed.ofList_toList], fun h => by rw [h]⟩

namespace Schema

/-- Equality of schemas, part by part. -/
def decideEq (s t : Schema) : Decidable (s = t) :=
  have items : Decidable (s.items = t.items) :=
    decideOption s.items (fun x hx y => decideEq x y) t.items
  have properties : Decidable (s.properties = t.properties) :=
    decideOption s.properties
      (fun r hr q => decideKeyed r (fun _ v hv w => decideEq v w) q) t.properties
  have anyOf : Decidable (s.anyOf = t.anyOf) :=
    decideOption s.anyOf
      (fun xs hxs ys => decideList xs (fun x hx y => decideEq x y) ys) t.anyOf
  decidable_of_iff (s.type = t.type ∧ s.items = t.items ∧ s.properties = t.properties ∧
      s.required = t.required ∧ s.anyOf = t.anyOf)
    (by cases s; cases t; simp only [Schema.mk.injEq])
termination_by s
decreasing_by
  · exact sizeOf_lt_of_mem_children (mem_children_of_items hx)
  · exact sizeOf_lt_of_mem_children (mem_children_of_properties hr hv)
  · exact sizeOf_lt_of_mem_children (mem_children_of_anyOf hxs hx)

instance : DecidableEq Schema := decideEq

end Schema

end SampleSchema
