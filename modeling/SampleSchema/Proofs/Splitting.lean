import SampleSchema.Proofs.Acceptance
import SampleSchema.Proofs.Comparison

/-!
# Fragments Stand for a Schema

When it is enough to look at the fragments of a schema.

Merging and comparison never look at anything else: schemas with the same
fragments merge alike, compare alike and cover the same schemas. So whatever
is lost when a schema is taken apart is lost for both of them.

What a schema accepts is not lost, as long as it has the form that type lists
are meant for. A list names kinds of values about which nothing more is said;
where there is more to say the kind gets an alternative of its own. Written by
hand, a list may name a container and have its items beside it, and then the
fragments know nothing of the items.

## Theorems

* `Schema.covers_congr_fragments`: Covering looks at nothing but fragments.
* `Schema.fragments_suffice`: What fragments are enough for.
* `Schema.not_accepts_fragments_nullable`: What they are not enough for.
-/

namespace SampleSchema

namespace Schema

/-- Whether a schema covers another depends on nothing but fragments. -/
theorem covers_congr_fragments {main main' sub sub' : Schema}
    (hmain : main.fragments = main'.fragments) (hsub : sub.fragments = sub'.fragments) :
    covers main sub = covers main' sub' := by
  have hall : allFragments [main, sub] = allFragments [main', sub'] := by
    rw [allFragments_cons, allFragments_singleton, hmain, hsub, allFragments_cons,
      allFragments_singleton]
  unfold covers
  rw [merge_congr_fragments hall]
  refine congrArg (fun f => merge {} [main', sub'] >>= f) (funext fun merged => ?_)
  rw [equal_congr_fragments {} rfl hmain]

/-- The fragments of a schema accept together what the schema accepts, unless a
    type list describes the inside of the sample, and they are all that merging
    and comparison see of it. -/
theorem fragments_suffice :
    (∀ (s : Schema) v, s.splits v → (s.accepts v ↔ ∃ f ∈ s.fragments, f.accepts v)) ∧
    (∀ o xs ys, allFragments xs = allFragments ys → merge o xs = merge o ys) ∧
    (∀ o (a a' b b' : Schema), a.fragments = a'.fragments → b.fragments = b'.fragments →
      equal o a b = equal o a' b') ∧
    ∀ main main' sub sub' : Schema, main.fragments = main'.fragments →
      sub.fragments = sub'.fragments → covers main sub = covers main' sub' :=
  ⟨fun _ _ h => accepts_iff_of_splits h, fun _ _ _ h => merge_congr_fragments h,
    fun o _ _ _ _ ha hb => equal_congr_fragments o ha hb,
    fun _ _ _ _ hmain hsub => covers_congr_fragments hmain hsub⟩

/-- A nullable list of integers, as it may be written by hand. -/
def nullableIntegers : Schema :=
  { type := some (.several [.null, .array]), items := some (ofTag .integer) }

/-- Nothing is lost about the missing list, nor about any list in the spelling
    with alternatives. Merging does not see the items, and comparison sees no
    alternatives. -/
theorem fragments_suffice_nullable :
    nullableIntegers.accepts .null ∧
      (union [ofTag .null, container .array (some (ofTag .integer))]).accepts (.list [.int 1]) ∧
      merge {} [nullableIntegers] = merge {} [ofTags [.null, .array]] ∧
      equal {} nullableIntegers (union [ofTag .null, ofTag .array]) =
        equal {} (ofTags [.null, .array]) (ofTags [.null, .array]) ∧
      covers nullableIntegers (ofTag .null) = covers (ofTags [.null, .array]) (ofTag .null) := by
  refine ⟨(fragments_suffice.1 _ _ ?_).2 (List.any_eq_true.1 ?_),
    (fragments_suffice.1 _ _ ?_).2 (List.any_eq_true.1 ?_),
    fragments_suffice.2.1 _ _ _ ?_, fragments_suffice.2.2.1 _ _ _ _ _ ?_ ?_,
    fragments_suffice.2.2.2 _ _ _ _ ?_ rfl⟩
  all_goals cbv

/-- The fragments know nothing of the items: none of them accepts a list that
    has an element. -/
theorem not_accepts_fragments_nullable :
    nullableIntegers.accepts (.list [.int 1]) ∧
      ¬ ∃ f ∈ nullableIntegers.fragments, f.accepts (.list [.int 1]) := by
  have hnone : (nullableIntegers.fragments.any fun f => f.accepts (.list [.int 1])) = false := by
    cbv
  refine ⟨by cbv, fun h => ?_⟩
  rw [List.any_eq_true.2 h] at hnone
  cases hnone

end Schema

end SampleSchema
