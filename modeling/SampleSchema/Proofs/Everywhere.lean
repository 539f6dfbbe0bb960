import SampleSchema.Proofs.Reduction

/-!
# At Every Depth

What holds of a schema and of everything inside it.

Many things said of schemas are said of their nodes: that a type list stands
alone, that nothing is required, that a union is written in the library's
form. Each of them is a condition on one node, and the schema has it when
every node has. `Everywhere` is that step from the node to the tree, taken
once, so that what follows from it does not have to be proved for each
condition again.

The fragments of a schema are nodes of it, except that a type list leaves bare
tags, which need not have been there. So a condition that holds everywhere in
a schema holds everywhere in its fragments, provided it holds of bare tags.

## Main definitions

* `Schema.Everywhere`: A condition holds of a schema and of everything inside.

## Theorems

* `Schema.mem_children_iff`: The children of a node, part by part.
* `Schema.everywhere_iff`: The node has it, and so has what is inside.
* `Schema.everywhere_container_iff`, `Schema.everywhere_object_iff`,
  `Schema.everywhere_union_iff`: The same for schemas of the common forms.
* `Schema.Everywhere.of_mem_fragments`: Fragments inherit it.
* `Schema.Everywhere.of_mem_parts`: So do the fragments of what is inside.
-/

namespace SampleSchema

namespace Schema

/-- The condition holds of the schema and of everything inside it. -/
inductive Everywhere (P : Schema → Prop) : Schema → Prop
  | node {s : Schema} (here : P s) (inside : ∀ c ∈ s.children, Everywhere P c) : Everywhere P s

variable {P Q : Schema → Prop}

/-- The node has it, and so has what is inside. -/
theorem everywhere_iff {s : Schema} :
    s.Everywhere P ↔ P s ∧ ∀ c ∈ s.children, c.Everywhere P := by
  constructor
  · rintro ⟨here, inside⟩
    exact ⟨here, inside⟩
  · rintro ⟨here, inside⟩
    exact .node here inside

theorem Everywhere.here {s : Schema} (h : s.Everywhere P) : P s := (everywhere_iff.1 h).1

theorem Everywhere.inside {s c : Schema} (h : s.Everywhere P) (hc : c ∈ s.children) :
    c.Everywhere P := (everywhere_iff.1 h).2 c hc

theorem Everywhere.imp {s : Schema} (h : s.Everywhere P) (himp : ∀ t, P t → Q t) :
    s.Everywhere Q := by
  induction h with
  | node here _ ih => exact .node (himp _ here) ih

/-- A condition that can be decided of a node can be decided everywhere. -/
instance decideEverywhere [DecidablePred P] (s : Schema) : Decidable (s.Everywhere P) :=
  have inside : ∀ c ∈ s.children, Decidable (c.Everywhere P) := fun c _ => decideEverywhere c
  have : Decidable (∀ c : { c // c ∈ s.children }, c ∈ s.children.attach → c.1.Everywhere P) :=
    have : DecidablePred fun c : { c // c ∈ s.children } => c.1.Everywhere P :=
      fun c => inside c.1 c.2
    List.decidableBAll _ s.children.attach
  decidable_of_iff
    (P s ∧ ∀ c : { c // c ∈ s.children }, c ∈ s.children.attach → c.1.Everywhere P)
    (by
      rw [everywhere_iff]
      simp only [List.mem_attach, forall_const, Subtype.forall])
termination_by s
decreasing_by exact sizeOf_lt_of_mem_children ‹_›

/-! ### Common forms -/

/-- The children of a node, part by part. -/
theorem mem_children_iff {s c : Schema} :
    c ∈ s.children ↔ s.items = some c ∨ (∃ name, s.property? name = some c) ∨
      ∃ alternatives, s.anyOf = some alternatives ∧ c ∈ alternatives := by
  constructor
  · intro h
    simp only [children, List.mem_append, Option.mem_toList] at h
    rcases h with (h | h) | h
    · exact Or.inl h
    · cases hp : s.properties with
      | none =>
          rw [hp] at h
          cases h
      | some properties =>
          rw [hp] at h
          rcases List.mem_map.1 h with ⟨⟨name, c'⟩, he, rfl⟩
          refine Or.inr (Or.inl ⟨name, ?_⟩)
          rw [property?, hp]
          exact Keyed.mem_toList_iff.1 he
    · cases ha : s.anyOf with
      | none =>
          rw [ha] at h
          cases h
      | some alternatives =>
          rw [ha] at h
          exact Or.inr (Or.inr ⟨alternatives, rfl, h⟩)
  · rintro (h | ⟨name, h⟩ | ⟨alternatives, ha, h⟩)
    · exact mem_children_of_items h
    · exact mem_children_of_property? h
    · exact mem_children_of_anyOf ha h

theorem everywhere_ofTags {tags : List Tag} (h : P (ofTags tags)) : (ofTags tags).Everywhere P :=
  .node h fun _ hc => absurd hc List.not_mem_nil

theorem everywhere_ofTag {tag : Tag} (h : P (ofTag tag)) : (ofTag tag).Everywhere P :=
  .node h fun _ hc => absurd hc List.not_mem_nil

theorem everywhere_container_iff {tag : Tag} {items : Option Schema} :
    (container tag items).Everywhere P ↔
      P (container tag items) ∧ ∀ c, items = some c → c.Everywhere P := by
  rw [everywhere_iff]
  refine and_congr_right fun _ => ?_
  have hchildren : ∀ c, c ∈ (container tag items).children ↔ items = some c := by
    intro c
    rw [mem_children_iff]
    simp only [container, property?, Option.bind_none, reduceCtorEq, exists_false, false_and,
      or_false]
  simp only [hchildren]

theorem everywhere_object_iff {properties : Keyed Schema} {required : Option (List String)} :
    (object properties required).Everywhere P ↔
      P (object properties required) ∧
        ∀ name c, properties.get? name = some c → c.Everywhere P := by
  rw [everywhere_iff]
  refine and_congr_right fun _ => ?_
  have hchildren : ∀ c, c ∈ (object properties required).children ↔
      ∃ name, properties.get? name = some c := by
    intro c
    rw [mem_children_iff]
    simp only [property?_object]
    simp only [object, reduceCtorEq, false_and, exists_false, false_or, or_false]
  simp only [hchildren, forall_exists_index]
  exact forall_comm

theorem everywhere_union_iff {alternatives : List Schema} :
    (union alternatives).Everywhere P ↔
      P (union alternatives) ∧ ∀ a ∈ alternatives, a.Everywhere P := by
  rw [everywhere_iff]
  refine and_congr_right fun _ => ?_
  have hchildren : (union alternatives).children = alternatives := rfl
  rw [hchildren]

/-! ### Fragments -/

/-- Fragments are nodes of the schema, or bare tags. -/
theorem Everywhere.of_mem_fragments (htag : ∀ tag, P (ofTag tag)) {s : Schema}
    (hs : s.Everywhere P) : ∀ f ∈ s.fragments, f.Everywhere P := by
  induction s using fragments_cases with
  | anyOf s alternatives ha ih =>
      intro f hf
      rw [fragments_of_anyOf ha, allFragments, List.mem_flatMap] at hf
      rcases hf with ⟨a, ha', hf⟩
      exact ih a ha' (hs.inside (mem_children_of_anyOf ha ha')) f hf
  | several s tags ha ht =>
      intro f hf
      rw [fragments_of_several ha ht, List.mem_map] at hf
      rcases hf with ⟨tag, _, rfl⟩
      exact everywhere_ofTag (htag tag)
  | atomic s hatomic =>
      intro f hf
      rw [hatomic.fragments_eq, List.mem_singleton] at hf
      rw [hf]
      exact hs

theorem Everywhere.of_mem_allFragments (htag : ∀ tag, P (ofTag tag)) {xs : List Schema}
    (hxs : ∀ x ∈ xs, x.Everywhere P) {f : Schema} (hf : f ∈ allFragments xs) :
    f.Everywhere P := by
  rcases List.mem_flatMap.1 hf with ⟨x, hx, hf⟩
  exact (hxs x hx).of_mem_fragments htag f hf

/-- The fragments of what is inside some schemas inherit it from them. Items
    and properties are both such parts. -/
theorem Everywhere.of_mem_parts (htag : ∀ tag, P (ofTag tag)) {part : Schema → Option Schema}
    (hpart : ∀ {f c}, part f = some c → c ∈ f.children) {bucket : List Schema}
    (hbucket : ∀ f ∈ bucket, f.Everywhere P) :
    ∀ g ∈ allFragments (bucket.filterMap part), g.Everywhere P := by
  refine fun g hg => Everywhere.of_mem_allFragments htag (fun c hc => ?_) hg
  rcases List.mem_filterMap.1 hc with ⟨f, hf, hc⟩
  exact (hbucket f hf).inside (hpart hc)

end Schema

end SampleSchema
