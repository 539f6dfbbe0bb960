import SampleSchema.Schema.Accepts
import SampleSchema.Proofs.Everywhere

/-!
# What Fragments Describe

Acceptance seen through fragments.

`accepts` asks three things of a schema without alternatives: its type must
name one of the tags of the sample, the elements of the sample must fit the
items, and its entries the properties. `Sample.tags` and `Schema.fitsInside`
separate the first question from the other two, and `accepts_iff` puts them
together again. The second part does not look at the type at all, which is
why a type list accepts what one of its tags would.

Taking a schema apart has two steps, and the first loses nothing: a schema
accepts what one of its `choices` accepts, the nodes at which alternatives
end. In the second step a choice with a type list becomes bare tags. A bare
tag accepts only empty containers and asks for no names, so what stands beside
the list is lost, but it only matters for samples of a kind that the list
names, and there only if it is about what is inside the sample. `splits` says
that nothing of this sort is in the schema, and then the schema accepts the
sample just when one of its fragments does.

`hasBareLists` says so for all samples and at every depth: no type list has
`items`, `properties` or `required` beside it.

## Main definitions

* `Sample.tags`: The tags under which a sample may be described.
* `Schema.fitsInside`: What is inside the sample is described.
* `Schema.choices`: The nodes at which alternatives end.
* `Schema.describes`: A part is about what is inside the sample.
* `Schema.splits`: No type list has such a part beside it.
* `Schema.hasBareLists`: No type list has other parts beside it.

## Theorems

* `Schema.accepts_iff`: The two parts of acceptance.
* `Schema.accepts_iff_choices`: A schema accepts what one of its choices
  accepts.
* `Schema.accepts_iff_of_splits`: Where nothing is lost it accepts what one of
  its fragments accepts.
* `Schema.accepts_iff_fragments`: A schema with bare lists does.
* `Schema.OneEach.accepts_joinFound`: Joined fragments accept what one of them
  accepts.
-/

namespace SampleSchema

/-- The tags under which a sample may be described. -/
def Sample.tags : Sample → List Tag
  | .null => [.null]
  | .bool _ => [.boolean]
  | .int _ => [.integer, .number]
  | .float x => if (Binary.ofFloat x).isWhole then [.integer, .number] else [.number]
  | .string _ => [.string]
  | .list _ => [.array]
  | .map _ => [.map]
  | .object _ => [.object]

namespace Schema

/-- What is inside the sample is described: elements by the items, entries by
    the properties, and no required name is missing. -/
def fitsInside (s : Schema) : Sample → Prop
  | .list elements => ∀ e ∈ elements, ∃ c, s.items = some c ∧ c.accepts e
  | .map entries => ∀ e ∈ entries.values, ∃ c, s.items = some c ∧ c.accepts e
  | .object entries =>
      (∀ k e, entries.get? k = some e → ∃ c, s.property? k = some c ∧ c.accepts e) ∧
      ∀ name ∈ s.requiredNames, ∃ e, entries.get? name = some e
  | _ => True

theorem any_option_iff {α : Type} {a : Option α} {p : α → Bool} :
    a.any p = true ↔ ∃ x, a = some x ∧ p x := by
  cases a with
  | none => simp only [Option.any_none, Bool.false_eq_true, reduceCtorEq, false_and, exists_false]
  | some x => simp only [Option.any_some, Option.some.injEq, exists_eq_left']

/-- A schema without alternatives accepts a sample when it names one of its
    tags and describes what is inside. -/
theorem accepts_iff {s : Schema} (h : s.anyOf = none) (v : Sample) :
    s.accepts v ↔ (∃ tag ∈ v.tags, s.names tag) ∧ s.fitsInside v := by
  cases v with
  | list elements =>
      rw [accepts_list h]
      simp only [Bool.and_eq_true, List.all_eq_true, any_option_iff, Sample.tags,
        List.mem_singleton, exists_eq_left, fitsInside]
  | map entries =>
      rw [accepts_map h]
      simp only [Bool.and_eq_true, List.all_eq_true, any_option_iff, Sample.tags,
        List.mem_singleton, exists_eq_left, fitsInside]
  | object entries =>
      rw [accepts_object h]
      simp only [Bool.and_eq_true, List.all_eq_true, any_option_iff, Sample.tags,
        List.mem_singleton, exists_eq_left, fitsInside, Option.isSome_iff_exists, and_assoc]
      simp only [Prod.forall, Keyed.mem_toList_iff]
  | float x =>
      -- Without alternatives the clause for floats applies, and the last goal says so.
      rcases s with ⟨_, _, _, _, anyOf⟩
      subst h
      rw [accepts]
      · simp only [Sample.tags, fitsInside, and_true]
        by_cases hx : (Binary.ofFloat x).isWhole
        · rw [if_pos hx, if_pos hx]
          simp only [List.mem_cons, List.not_mem_nil, or_false, exists_eq_or_imp, exists_eq_left,
            Bool.or_eq_true]
        · rw [if_neg hx, if_neg hx]
          simp only [List.mem_singleton, exists_eq_left]
      · intro _ _ _ _ _ hs
        simp only [Schema.mk.injEq, reduceCtorEq, and_false] at hs
  | null | bool _ | int _ | string _ =>
      rcases s with ⟨_, _, _, _, anyOf⟩
      subst h
      rw [accepts]
      · simp only [Sample.tags, fitsInside, and_true, List.mem_cons, List.not_mem_nil, or_false,
          exists_eq_or_imp, exists_eq_left, Bool.or_eq_true]
      · intro _ _ _ _ _ hs
        simp only [Schema.mk.injEq, reduceCtorEq, and_false] at hs

/-- A sample described under a leaf tag has nothing inside. -/
theorem fitsInside_of_leaf {v : Sample} {tag : Tag} (htag : tag ∈ v.tags)
    (hleaf : tag.isContainer = false) (s : Schema) : s.fitsInside v := by
  cases v with
  | list _ | map _ | object _ =>
      rw [List.mem_singleton.1 htag] at hleaf
      cases hleaf
  | null | bool _ | int _ | float _ | string _ => trivial

/-- Items that accept more fit more lists and maps. -/
theorem fitsInside_of_items {tag : Tag} (ht : tag = .array ∨ tag = .map) {v : Sample}
    (htag : tag ∈ v.tags) {s t : Schema}
    (hitems : ∀ e, (∃ c, s.items = some c ∧ c.accepts e) → ∃ c, t.items = some c ∧ c.accepts e)
    (hv : s.fitsInside v) : t.fitsInside v := by
  cases v with
  | list elements => exact fun e he => hitems e (hv e he)
  | map entries => exact fun e he => hitems e (hv e he)
  | object entries =>
      rw [Sample.tags, List.mem_singleton] at htag
      rcases ht with rfl | rfl <;> cases htag
  | null | bool _ | int _ | float _ | string _ => trivial

/-- Properties that accept more, with fewer names required, fit more objects. -/
theorem fitsInside_of_properties {v : Sample} (htag : Tag.object ∈ v.tags) {s t : Schema}
    (hproperties : ∀ name e, (∃ c, s.property? name = some c ∧ c.accepts e) →
      ∃ c, t.property? name = some c ∧ c.accepts e)
    (hrequired : ∀ name ∈ t.requiredNames, name ∈ s.requiredNames)
    (hv : s.fitsInside v) : t.fitsInside v := by
  cases v with
  | object entries =>
      exact ⟨fun k e hk => hproperties k e (hv.1 k e hk),
        fun name hname => hv.2 name (hrequired name hname)⟩
  | list _ | map _ => cases List.mem_singleton.1 htag
  | null | bool _ | int _ | float _ | string _ => trivial

theorem names_iff {s : Schema} {tag : Tag} :
    s.names tag ↔ ∃ t, s.type = some t ∧ tag ∈ t.tags := by
  rw [names, any_option_iff]
  simp only [TypeSpec.contains, decide_eq_true_eq]

/-- A fragment with a tag accepts samples of that tag. -/
theorem IsOf.accepts_iff {s : Schema} {tag : Tag} (h : s.IsOf tag) (v : Sample) :
    s.accepts v ↔ tag ∈ v.tags ∧ s.fitsInside v := by
  rw [Schema.accepts_iff h.1]
  refine and_congr ?_ Iff.rfl
  simp only [names_iff, tag?_eq_some_iff.1 h.2, Option.some.injEq, exists_eq_left',
    TypeSpec.tags, List.mem_singleton, exists_eq_right]

/-! ### Choices -/

/-- The nodes at which taking alternatives apart ends. -/
def choices : Schema → List Schema
  | ⟨_, _, _, _, some alternatives⟩ => alternatives.flatMap fun a => a.choices
  | s => [s]
termination_by s => s
decreasing_by
  exact sizeOf_lt_of_mem_children (mem_children_of_anyOf rfl ‹_›)

theorem choices_of_anyOf {s : Schema} {alternatives : List Schema}
    (h : s.anyOf = some alternatives) : s.choices = alternatives.flatMap choices := by
  rcases s with ⟨_, _, _, _, anyOf⟩
  subst h
  rw [choices]

theorem choices_of_none {s : Schema} (h : s.anyOf = none) : s.choices = [s] := by
  rcases s with ⟨_, _, _, _, anyOf⟩
  subst h
  rw [choices]
  intro _ _ _ _ _ hs
  simp only [Schema.mk.injEq, reduceCtorEq, and_false] at hs

/-- Choices have no alternatives. -/
theorem anyOf_of_mem_choices (s : Schema) : ∀ c ∈ s.choices, c.anyOf = none := by
  induction s using alternatives_induction with
  | none s ha =>
      intro c hc
      rw [choices_of_none ha, List.mem_singleton] at hc
      rw [hc, ha]
  | anyOf s alternatives ha ih =>
      intro c hc
      rw [choices_of_anyOf ha, List.mem_flatMap] at hc
      rcases hc with ⟨a, ha', hc⟩
      exact ih a ha' c hc

/-- The fragments of a schema are those of its choices. -/
theorem fragments_eq_choices (s : Schema) : s.fragments = allFragments s.choices := by
  induction s using alternatives_induction with
  | none s ha => rw [choices_of_none ha, allFragments_singleton]
  | anyOf s alternatives ha ih =>
      rw [choices_of_anyOf ha, fragments_of_anyOf ha, allFragments, allFragments,
        List.flatMap_assoc, List.flatMap_def, List.map_congr_left ih]
      rfl

/-- A schema accepts what one of its choices accepts. -/
theorem accepts_iff_choices (s : Schema) (v : Sample) :
    s.accepts v ↔ ∃ c ∈ s.choices, c.accepts v := by
  induction s using alternatives_induction with
  | none s ha => simp only [choices_of_none ha, List.mem_singleton, exists_eq_left]
  | anyOf s alternatives ha ih =>
      rw [accepts_of_anyOf ha, choices_of_anyOf ha, List.any_eq_true]
      constructor
      · rintro ⟨a, ha', hv⟩
        rcases (ih a ha').1 hv with ⟨c, hc, hv⟩
        exact ⟨c, List.mem_flatMap.2 ⟨a, ha', hc⟩, hv⟩
      · rintro ⟨c, hc, hv⟩
        rcases List.mem_flatMap.1 hc with ⟨a, ha', hc⟩
        exact ⟨a, ha', (ih a ha').2 ⟨c, hc, hv⟩⟩

/-- The type is a list that names the tag. -/
def lists (s : Schema) (tag : Tag) : Bool :=
  match s.type with
  | some (.several tags) => decide (tag ∈ tags)
  | _ => false

/-- The node has a part that may decide about what is inside the sample. Items
    and properties decide about what is there, required names about what is
    missing when nothing is. -/
def describes (s : Schema) : Sample → Bool
  | .list elements => !elements.isEmpty && s.items.isSome
  | .map entries => !entries.isEmpty && s.items.isSome
  | .object entries =>
      if entries.isEmpty then !s.requiredNames.isEmpty else !s.propertyNames.isEmpty
  | _ => false

/-- Taking the schema apart loses nothing about the sample: no choice that
    lists one of its tags describes what is inside. -/
def splits (s : Schema) (v : Sample) : Bool :=
  s.choices.all fun c => !(v.tags.any c.lists && c.describes v)

/-- A node that does not describe the inside of a sample judges it like a bare
    tag. -/
theorem fitsInside_of_not_describes {s : Schema} {v : Sample} (h : ¬ s.describes v) (tag : Tag) :
    s.fitsInside v ↔ (ofTag tag).fitsInside v := by
  cases v with
  | list elements =>
      simp only [describes, Bool.and_eq_true, Bool.not_eq_true', List.isEmpty_eq_false_iff,
        not_and, Option.not_isSome_iff_eq_none] at h
      by_cases hempty : elements = []
      · simp only [fitsInside, hempty, List.not_mem_nil, false_imp_iff, implies_true]
      · simp only [fitsInside, h hempty, ofTag]
  | map entries =>
      simp only [describes, Bool.and_eq_true, Bool.not_eq_true', not_and,
        Option.not_isSome_iff_eq_none] at h
      by_cases hempty : entries.isEmpty
      · have hvalues : entries.values = [] := by
          rw [Keyed.values, List.isEmpty_iff.1 hempty]
          rfl
        simp only [fitsInside, hvalues, List.not_mem_nil, false_imp_iff, implies_true]
      · simp only [fitsInside, h (eq_false_of_ne_true hempty), ofTag]
  | object entries =>
      by_cases hempty : entries.isEmpty
      · simp only [describes, hempty, if_true, Bool.not_eq_true', Bool.not_eq_false,
          List.isEmpty_iff] at h
        simp only [fitsInside, Keyed.isEmpty_iff.1 hempty, h, reduceCtorEq, false_imp_iff,
          implies_true, List.not_mem_nil, true_and]
        simp only [ofTag, requiredNames, Option.getD_none, List.not_mem_nil, false_imp_iff,
          implies_true]
      · -- There is an entry, and neither side has a property for it.
        simp only [describes, hempty, Bool.false_eq_true, if_false, Bool.not_eq_true',
          Bool.not_eq_false, List.isEmpty_iff] at h
        rw [Keyed.isEmpty_iff, Classical.not_forall] at hempty
        rcases hempty with ⟨k, hk⟩
        rcases Option.ne_none_iff_exists'.1 hk with ⟨e, hk⟩
        constructor
        · intro hfits
          rcases hfits.1 k e hk with ⟨c, hc, _⟩
          have hmem := mem_propertyNames_iff.2 ⟨c, hc⟩
          rw [h] at hmem
          cases hmem
        · intro hfits
          rcases hfits.1 k e hk with ⟨c, hc, _⟩
          cases hc
  | null | bool _ | int _ | float _ | string _ => exact Iff.rfl

/-- A choice accepts what one of its fragments accepts, unless it lists a tag
    of the sample and describes what is inside. -/
theorem accepts_iff_of_choice {c : Schema} (ha : c.anyOf = none) {v : Sample}
    (h : ¬ (v.tags.any c.lists ∧ c.describes v)) :
    c.accepts v ↔ ∃ f ∈ c.fragments, f.accepts v := by
  by_cases ht : ∃ tags, c.type = some (.several tags)
  · rcases ht with ⟨tags, ht⟩
    -- For a tag of the sample that is listed, inside the choice says what a bare tag says.
    have hinside : ∀ tag ∈ v.tags, tag ∈ tags → (c.fitsInside v ↔ (ofTag tag).fitsInside v) := by
      intro tag htag hmem
      refine fitsInside_of_not_describes (fun hd => h ⟨List.any_eq_true.2 ⟨tag, htag, ?_⟩, hd⟩) tag
      rw [lists, ht, decide_eq_true_eq]
      exact hmem
    rw [fragments_of_several ha ht, Schema.accepts_iff ha]
    constructor
    · rintro ⟨⟨tag, htag, hname⟩, hv⟩
      rcases names_iff.1 hname with ⟨t, hst, hmem⟩
      rw [ht, Option.some.injEq] at hst
      subst hst
      exact ⟨ofTag tag, List.mem_map.2 ⟨tag, hmem, rfl⟩,
        ((isOf_ofTag tag).accepts_iff v).2 ⟨htag, (hinside tag htag hmem).1 hv⟩⟩
    · rintro ⟨f, hf, hv⟩
      rcases List.mem_map.1 hf with ⟨tag, hmem, rfl⟩
      rcases ((isOf_ofTag tag).accepts_iff v).1 hv with ⟨htag, hv⟩
      exact ⟨⟨tag, htag, names_iff.2 ⟨_, ht, hmem⟩⟩, (hinside tag htag hmem).2 hv⟩
  · have hatomic : c.IsAtomic := ⟨ha, fun tags hc => ht ⟨tags, hc⟩⟩
    simp only [hatomic.fragments_eq, List.mem_singleton, exists_eq_left]

/-- Where taking a schema apart loses nothing about a sample, the schema
    accepts it just when one of its fragments does. -/
theorem accepts_iff_of_splits {s : Schema} {v : Sample} (h : s.splits v) :
    s.accepts v ↔ ∃ f ∈ s.fragments, f.accepts v := by
  have hchoice : ∀ c ∈ s.choices, (c.accepts v ↔ ∃ f ∈ c.fragments, f.accepts v) := by
    intro c hc
    refine accepts_iff_of_choice (anyOf_of_mem_choices s c hc) fun hboth => ?_
    have hnot := List.all_eq_true.1 h c hc
    rw [hboth.1, hboth.2] at hnot
    cases hnot
  rw [accepts_iff_choices, fragments_eq_choices]
  constructor
  · rintro ⟨c, hc, hv⟩
    rcases (hchoice c hc).1 hv with ⟨f, hf, hv⟩
    exact ⟨f, List.mem_flatMap.2 ⟨c, hc, hf⟩, hv⟩
  · rintro ⟨f, hf, hv⟩
    rcases List.mem_flatMap.1 hf with ⟨c, hc, hf⟩
    exact ⟨c, hc, (hchoice c hc).2 ⟨f, hf, hv⟩⟩

/-! ### Bare lists -/

/-- Where there is a list of tags there are no items, properties or required
    names beside it, at any depth. -/
def hasBareLists (s : Schema) : Bool :=
  (match s.type with
    | some (.several _) => s.items.isNone && s.properties.isNone && s.required.isNone
    | _ => true) &&
  s.children.attach.all fun c => c.1.hasBareLists
termination_by s
decreasing_by exact sizeOf_lt_of_mem_children c.2

theorem hasBareLists_iff {s : Schema} :
    s.hasBareLists ↔
      (∀ tags, s.type = some (.several tags) →
        s.items = none ∧ s.properties = none ∧ s.required = none) ∧
      ∀ c ∈ s.children, c.hasBareLists := by
  rw [hasBareLists]
  simp only [List.all_subtype, List.unattach_attach, Bool.and_eq_true, List.all_eq_true]
  refine and_congr ?_ Iff.rfl
  split
  · next tags ht =>
      simp only [ht, Bool.and_eq_true, Option.isNone_iff_eq_none, Option.some.injEq,
        TypeSpec.several.injEq, forall_eq', and_assoc]
  · next hne =>
      constructor
      · intro _ tags ht
        exact absurd ht (hne tags)
      · intro _
        rfl

/-- The node has no list of tags with items, properties or required names
    beside it. -/
def BareList (s : Schema) : Prop :=
  ∀ tags, s.type = some (.several tags) → s.items = none ∧ s.properties = none ∧ s.required = none

theorem hasBareLists_iff_everywhere (s : Schema) : s.hasBareLists ↔ s.Everywhere BareList := by
  induction s using Schema.induction with
  | step s ih =>
      rw [hasBareLists_iff, everywhere_iff]
      exact and_congr_right fun _ => forall₂_congr ih

theorem bareList_ofTags (tags : List Tag) : BareList (ofTags tags) := fun _ _ => ⟨rfl, rfl, rfl⟩

theorem hasBareLists_ofTags (tags : List Tag) : (ofTags tags).hasBareLists :=
  (hasBareLists_iff_everywhere _).2 (everywhere_ofTags (bareList_ofTags tags))

/-- The fragments of schemas with bare lists have bare lists. -/
theorem hasBareLists_of_mem_allFragments {xs : List Schema} (hxs : ∀ x ∈ xs, x.hasBareLists)
    {f : Schema} (hf : f ∈ allFragments xs) : f.hasBareLists := by
  simp only [hasBareLists_iff_everywhere] at hxs ⊢
  exact .of_mem_allFragments (fun tag => bareList_ofTags [tag]) hxs hf

/-- Where no list has parts beside it nothing is lost. -/
theorem splits_of_hasBareLists (s : Schema) (hs : s.hasBareLists) (v : Sample) : s.splits v := by
  induction s using fragments_cases with
  | anyOf s alternatives ha ih =>
      rw [splits, choices_of_anyOf ha, List.all_flatMap, List.all_eq_true]
      intro a ha'
      exact ih a ha' ((hasBareLists_iff.1 hs).2 a (mem_children_of_anyOf ha ha'))
  | several s tags ha ht =>
      rcases (hasBareLists_iff.1 hs).1 tags ht with ⟨hi, hp, hr⟩
      have hnot : s.describes v = false := by
        cases v <;> simp only [describes, propertyNames, requiredNames, hi, hp, hr,
          Option.isSome_none, Bool.and_false, Option.map_none, Option.getD_none, List.isEmpty_nil,
          Bool.not_true, ite_self]
      rw [splits, choices_of_none ha, List.all_cons, hnot, Bool.and_false]
      rfl
  | atomic s hatomic =>
      have hnot : v.tags.any s.lists = false := by
        refine List.any_eq_false.2 fun tag _ => ?_
        unfold lists
        split
        · next tags h => exact absurd h (hatomic.2 tags)
        · exact Bool.false_ne_true
      rw [splits, choices_of_none hatomic.1, List.all_cons, hnot, Bool.false_and]
      rfl

/-- A schema with bare lists accepts what one of its fragments accepts. -/
theorem accepts_iff_fragments (s : Schema) (hs : s.hasBareLists) (v : Sample) :
    s.accepts v ↔ ∃ f ∈ s.fragments, f.accepts v :=
  accepts_iff_of_splits (splits_of_hasBareLists s hs v)

theorem exists_mem_map_ofTag_iff (tags : List Tag) (v : Sample) :
    (∃ s ∈ tags.map ofTag, s.accepts v) ↔ ∃ tag ∈ tags, (ofTag tag).accepts v := by
  constructor
  · rintro ⟨s, hs, hv⟩
    rcases List.mem_map.1 hs with ⟨tag, htag, rfl⟩
    exact ⟨tag, htag, hv⟩
  · rintro ⟨tag, htag, hv⟩
    exact ⟨ofTag tag, List.mem_map.2 ⟨tag, htag, rfl⟩, hv⟩

theorem accepts_ofTags_iff (tags : List Tag) (v : Sample) :
    (ofTags tags).accepts v ↔ ∃ tag ∈ tags, (ofTag tag).accepts v := by
  rw [accepts_iff_fragments _ (hasBareLists_ofTags tags), fragments_ofTags,
    exists_mem_map_ofTag_iff]

/-- Joined fragments accept what one of them accepts. -/
theorem OneEach.accepts_joinFound {found : List Schema} (h : OneEach found) (v : Sample) :
    (joinFound found).accepts v ↔ ∃ s ∈ found, s.accepts v := by
  -- The bare tags accept as one entry what they accept one by one.
  have hbare : (ofTags (bareTags found)).accepts v ↔ ∃ s ∈ found.filter isSimple, s.accepts v := by
    rw [accepts_ofTags_iff, ← h.map_ofTag_bareTags, exists_mem_map_ofTag_iff]
  have hsplit : (∃ s ∈ found, s.accepts v) ↔ (∃ s ∈ found.filter isSimple, s.accepts v) ∨
      ∃ s ∈ found.filter fun a => !a.isSimple, s.accepts v := by
    simp only [← (List.filter_append_perm isSimple found).mem_iff, List.mem_append, or_and_right,
      exists_or]
  have hjoin : (join found).accepts v ↔ ∃ s ∈ found, s.accepts v := by
    rw [h.join_eq, hsplit]
    by_cases hothers : (found.filter fun a => !a.isSimple).isEmpty
    · rw [if_pos hothers, List.isEmpty_iff.1 hothers, hbare]
      simp only [List.not_mem_nil, false_and, exists_false, or_false]
    · rw [if_neg hothers, accepts_of_anyOf rfl, List.any_append, Bool.or_eq_true, List.any_eq_true,
        List.any_eq_true, ← hbare]
      refine or_congr ?_ Iff.rfl
      by_cases hempty : (bareTags found).isEmpty
      · rw [if_pos hempty, accepts_ofTags_iff, List.isEmpty_iff.1 hempty]
        simp only [List.not_mem_nil, false_and, exists_false]
      · rw [if_neg hempty]
        simp only [List.mem_singleton, exists_eq_left]
  unfold joinFound
  split
  · simp only [List.mem_singleton, exists_eq_left]
  · exact hjoin

end Schema

end SampleSchema
