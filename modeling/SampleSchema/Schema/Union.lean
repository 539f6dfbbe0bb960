import SampleSchema.Schema.Basic

/-!
# Alternatives

Taking a schema apart into its alternatives, and putting alternatives
together again.

The `fragments` of a schema are what it offers to choose from. An `anyOf` is
replaced by the fragments of its members, at every level, and a type list by
one bare tag for each entry. What remains has one tag or none, and merging and
comparison only ever look at fragments.

`wrap` goes the other way and writes alternatives in the one form in which
the library writes them. Alternatives that are only types collapse into one
entry naming each tag once, in order of first occurrence; the others follow
unchanged. If there are no others the entry is the whole schema, and the
union disappears.

## Main definitions

* `Schema.fragments`, `Schema.allFragments`: The alternatives of a schema, or
  of several, taken apart entirely.
* `Schema.simpleTags?`: The tags of an alternative that is only a type.
* `Schema.join`: Alternatives as one schema.
* `Schema.wrap`: A schema with its union in that form.

## Theorems

* `Schema.height_le_of_mem_fragments`: No fragment is higher than the schema.
-/

namespace SampleSchema

namespace Schema

/-- The alternatives of a schema, taken apart entirely. -/
def fragments : Schema → List Schema
  | ⟨_, _, _, _, some alternatives⟩ => alternatives.flatMap fun a => a.fragments
  | ⟨some (.several tags), _, _, _, none⟩ => tags.map ofTag
  | s => [s]
termination_by s => s
decreasing_by
  exact sizeOf_lt_of_mem_children (mem_children_of_anyOf rfl ‹_›)

/-- The alternatives of several schemas, one schema after another. -/
def allFragments (xs : List Schema) : List Schema := xs.flatMap fragments

theorem fragments_of_anyOf {s : Schema} {alternatives : List Schema}
    (h : s.anyOf = some alternatives) : s.fragments = allFragments alternatives := by
  rcases s with ⟨_, _, _, _, anyOf⟩
  subst h
  rw [fragments, allFragments]

theorem fragments_of_several {s : Schema} {tags : List Tag} (h : s.anyOf = none)
    (ht : s.type = some (.several tags)) : s.fragments = tags.map ofTag := by
  rcases s with ⟨type, _, _, _, anyOf⟩
  subst h ht
  rw [fragments]

theorem fragments_of_single {s : Schema} (h : s.anyOf = none)
    (ht : ∀ tags, s.type ≠ some (.several tags)) : s.fragments = [s] := by
  rw [fragments]
  · intro _ _ _ _ alternatives hs
    subst hs
    exact absurd h (by simp)
  · intro tags _ _ _ hs
    subst hs
    exact ht tags rfl

/-- No fragment is higher than the schema. -/
theorem height_le_of_mem_fragments (s : Schema) :
    ∀ f ∈ s.fragments, f.height ≤ s.height := by
  induction s using Schema.induction with
  | step s ih =>
      intro f hf
      cases ha : s.anyOf with
      | some alternatives =>
          rw [fragments_of_anyOf ha, allFragments, List.mem_flatMap] at hf
          rcases hf with ⟨a, ha', hf⟩
          have hmem := mem_children_of_anyOf ha ha'
          have h1 := ih a hmem f hf
          have h2 := height_lt hmem
          omega
      | none =>
          by_cases ht : ∃ tags, s.type = some (.several tags)
          · rcases ht with ⟨tags, ht⟩
            rw [fragments_of_several ha ht, List.mem_map] at hf
            rcases hf with ⟨tag, _, rfl⟩
            rw [ofTag_height]
            exact height_pos s
          · rw [fragments_of_single ha (fun tags h => ht ⟨tags, h⟩), List.mem_singleton] at hf
            subst hf
            exact Nat.le_refl _

theorem maxHeight_allFragments (xs : List Schema) :
    maxHeight (allFragments xs) ≤ maxHeight xs := by
  apply maxHeight_le
  intro f hf
  rcases List.mem_flatMap.1 hf with ⟨x, hx, hf⟩
  exact Nat.le_trans (height_le_of_mem_fragments x f hf) (height_le_maxHeight hx)

/-! ### Putting alternatives together -/

/-- The tags of an alternative that counts as only a type. A type list does so
    whatever stands beside it. -/
def simpleTags? (s : Schema) : Option (List Tag) :=
  match s.type with
  | some (.several tags) => some tags
  | some (.single tag) => if s.isSimple then some [tag] else none
  | none => none

/-- Alternatives as one schema. -/
def join (alternatives : List Schema) : Schema :=
  let tags := (alternatives.filterMap simpleTags?).flatten.eraseDups
  let others := alternatives.filter fun a => a.simpleTags?.isNone
  if others.isEmpty then ofTags tags
  else union ((if tags.isEmpty then [] else [ofTags tags]) ++ others)

/-- A schema with its union written in the library's form. A schema without
    alternatives stays as it is. -/
def wrap (s : Schema) : Schema :=
  match s.anyOf with
  | some (a :: as) => join (a :: as)
  | _ => s

end Schema

end SampleSchema
