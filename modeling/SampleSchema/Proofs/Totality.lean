import Mathlib
import SampleSchema.Proofs.Blocks
import SampleSchema.Proofs.Everywhere

/-!
# When Merging Succeeds

Schemas that can always be merged.

A merge can fail in two ways. It has no fragment at all, or a fragment without
a tag, and either may come up at any depth, since items and properties are
merged in turn. Both come from nodes that offer nothing to choose from: an
empty list of alternatives, an empty type list, or no type. Where no node is
of this kind, every merge succeeds.

The condition is not necessary. A property about which nothing else is said is
kept unmerged, so it may have no type.

A merge that fails does so at one place, with one of the two errors, and the
way there leads through items and through properties that have other than one
fragment.

## Main definitions

* `Schema.OffersTag`: The node has alternatives, or its type names a tag.

## Theorems

* `Schema.fragments_of_offersTag`: There are fragments, and all have a tag.
* `Schema.exists_merge_ok`: Schemas whose nodes offer tags can be merged.
* `Schema.merge_error_induction`: Induction along the way to where a merge is
  refused.
-/

namespace SampleSchema

namespace Schema

/-- The node has something to choose from: alternatives, or else a type that
    names a tag. -/
def OffersTag (s : Schema) : Prop :=
  (∀ alternatives, s.anyOf = some alternatives → alternatives ≠ []) ∧
    (s.anyOf = none → ∃ t, s.type = some t ∧ t.tags ≠ [])

variable {o : MergeOptions}

theorem offersTag_ofTag (tag : Tag) : OffersTag (ofTag tag) := by
  refine ⟨fun alternatives h => ?_, fun _ => ⟨.single tag, rfl, List.cons_ne_nil tag []⟩⟩
  cases h

/-- Where every node offers a tag there are fragments, and all have one. -/
theorem fragments_of_offersTag (s : Schema) (hs : s.Everywhere OffersTag) :
    s.fragments ≠ [] ∧ ∀ f ∈ s.fragments, ∃ tag, f.tag? = some tag := by
  induction s using alternatives_induction with
  | anyOf s alternatives ha ih =>
      have hinside : ∀ a ∈ alternatives,
          a.fragments ≠ [] ∧ ∀ f ∈ a.fragments, ∃ tag, f.tag? = some tag :=
        fun a ha' => ih a ha' (hs.inside (mem_children_of_anyOf ha ha'))
      -- The first alternative has a fragment, and every fragment is that of some alternative.
      rw [fragments_of_anyOf ha, allFragments]
      constructor
      · rcases List.exists_mem_of_ne_nil _ (hs.here.1 alternatives ha) with ⟨a, ha'⟩
        rcases List.exists_mem_of_ne_nil _ (hinside a ha').1 with ⟨f, hf⟩
        exact List.ne_nil_of_mem (List.mem_flatMap.2 ⟨a, ha', hf⟩)
      · intro f hf
        rcases List.mem_flatMap.1 hf with ⟨a, ha', hf⟩
        exact (hinside a ha').2 f hf
  | none s ha =>
      rcases hs.here.2 ha with ⟨t, ht, htags⟩
      cases t with
      | several tags =>
          rw [fragments_of_several ha ht]
          refine ⟨mt List.map_eq_nil_iff.1 htags, fun f hf => ?_⟩
          rcases List.mem_map.1 hf with ⟨tag, _, rfl⟩
          exact ⟨tag, rfl⟩
      | single tag =>
          have hof : s.IsOf tag := ⟨ha, tag?_eq_some_iff.2 ht⟩
          rw [hof.isAtomic.fragments_eq]
          refine ⟨List.cons_ne_nil s [], fun f hf => ⟨tag, ?_⟩⟩
          rw [List.mem_singleton.1 hf]
          exact hof.2

theorem refusal?_of_offersTag {xs : List Schema} (hne : xs ≠ [])
    (hxs : ∀ x ∈ xs, x.Everywhere OffersTag) : refusal? (allFragments xs) = none := by
  refine refusal?_eq_none_iff.2 ⟨?_, fun f hf => ?_⟩
  · rcases List.exists_mem_of_ne_nil _ hne with ⟨x, hx⟩
    rcases List.exists_mem_of_ne_nil _ (fragments_of_offersTag x (hxs x hx)).1 with ⟨f, hf⟩
    exact List.ne_nil_of_mem (List.mem_flatMap.2 ⟨x, hx, hf⟩)
  · rcases List.mem_flatMap.1 hf with ⟨x, hx, hf⟩
    exact (fragments_of_offersTag x (hxs x hx)).2 f hf

theorem exists_mergeItems_ok {fs : List Schema} (h : fs ≠ [] → ∃ m, merge o fs = .ok m) :
    ∃ items, mergeItems o fs = .ok items := by
  by_cases hfs : fs = []
  · rw [hfs]
    exact ⟨none, rfl⟩
  · rcases h hfs with ⟨m, hm⟩
    exact ⟨some m, mergeItems_of_merge hm⟩

theorem exists_mergeProperty_ok {fs : List Schema} (hne : fs ≠ [])
    (h : fs ≠ [] → ∃ m, merge o fs = .ok m) : ∃ p, mergeProperty o fs = .ok p := by
  by_cases hone : ∃ f, fs = [f]
  · rcases hone with ⟨f, rfl⟩
    exact ⟨f, rfl⟩
  · rw [mergeProperty_of_ne_singleton fun f hf => hone ⟨f, hf⟩]
    exact h hne

theorem exists_mergeProperties_ok {bucket : List Schema}
    (h : ∀ name ∈ bucket.flatMap propertyNames,
      ∃ p, mergeProperty o (propertyFragments name bucket) = .ok p) :
    ∃ properties, mergeProperties o bucket = .ok properties := by
  choose! w hw using h
  refine ⟨_, Keyed.mapM_of_ok fun name u hu => hw name ?_⟩
  rw [Keyed.get?_tabulate, Option.ite_none_right_eq_some] at hu
  exact hu.1

/-- Where every node offers a tag, every property offers a fragment. -/
theorem propertyFragments_ne_nil {bucket : List Schema}
    (hbucket : ∀ f ∈ bucket, f.Everywhere OffersTag) {name : String}
    (hname : name ∈ bucket.flatMap propertyNames) : propertyFragments name bucket ≠ [] := by
  rcases List.mem_flatMap.1 hname with ⟨f, hf, hname⟩
  rcases mem_propertyNames_iff.1 hname with ⟨c, hc⟩
  have hoffers := (hbucket f hf).inside (mem_children_of_property? hc)
  rcases List.exists_mem_of_ne_nil _ (fragments_of_offersTag c hoffers).1 with ⟨g, hg⟩
  exact List.ne_nil_of_mem (mem_parts_iff.2 ⟨f, hf, c, hc, hg⟩)

/-- Fragments with one tag can be reduced when what is inside can be merged. -/
theorem exists_reduce_ok (tag : Tag) {bucket : List Schema}
    (hbucket : ∀ f ∈ bucket, f.Everywhere OffersTag)
    (hitems : itemFragments bucket ≠ [] → ∃ m, merge o (itemFragments bucket) = .ok m)
    (hproperties : ∀ name, propertyFragments name bucket ≠ [] →
      ∃ m, merge o (propertyFragments name bucket) = .ok m) :
    ∃ s, reduce o tag bucket = .ok s := by
  by_cases hb : bucket = []
  · rw [hb]
    exact ⟨none, reduce_nil tag⟩
  rcases tag_cases tag with ht | ht | rfl
  · exact ⟨_, reduce_leaf ht bucket⟩
  · rcases exists_mergeItems_ok hitems with ⟨items, hmerged⟩
    rw [reduce_container ht hb, hmerged]
    exact ⟨_, rfl⟩
  · -- A name in use has fragments, since its schema has.
    have hused : ∀ name ∈ bucket.flatMap propertyNames,
        ∃ p, mergeProperty o (propertyFragments name bucket) = .ok p := by
      intro name hname
      have hne := propertyFragments_ne_nil hbucket hname
      exact exists_mergeProperty_ok hne (hproperties name)
    rcases exists_mergeProperties_ok hused with ⟨properties, hmerged⟩
    rw [reduce_object hb, hmerged]
    exact ⟨_, rfl⟩

/-- Schemas whose nodes offer tags can be merged, by induction along the calls
    of a merge to itself. -/
theorem exists_merge_ok (o : MergeOptions) (xs : List Schema) :
    xs ≠ [] → (∀ x ∈ xs, x.Everywhere OffersTag) → ∃ m, merge o xs = .ok m := by
  induction xs using merge_induction with
  | step xs ihItems ihProperties =>
      intro hne hxs
      have hreduce : ∀ tag, ∃ s,
          reduce o tag (tagged tag (absorb (allFragments xs))) = .ok s := by
        intro tag
        have hbucket : ∀ f ∈ tagged tag (absorb (allFragments xs)), f.Everywhere OffersTag := by
          intro f hf
          exact .of_mem_allFragments offersTag_ofTag hxs
            (mem_of_mem_absorb (mem_tagged_iff.1 hf).1)
        by_cases hb : tagged tag (absorb (allFragments xs)) = []
        · rw [hb]
          exact ⟨none, reduce_nil tag⟩
        · exact exists_reduce_ok tag hbucket
            (fun hfs => ihItems tag hb hfs
              (.of_mem_parts offersTag_ofTag mem_children_of_items hbucket))
            (fun name hfs => ihProperties tag name hb hfs
              (.of_mem_parts offersTag_ofTag mem_children_of_property? hbucket))
      choose r hr using hreduce
      exact ⟨_, merge_eq_ok_iff.2 ⟨refusal?_of_offersTag hne hxs, r, hr, rfl⟩⟩

/-! ### Why a merge fails -/

/-- A merge is refused, or it fails under one of the tags. -/
theorem merge_eq_error {xs : List Schema} {e : MergeError} (h : merge o xs = .error e) :
    refusal? (allFragments xs) = some e ∨
      ∃ tag, reduce o tag (tagged tag (allFragments xs)) = .error e := by
  rw [merge_eq_reduce] at h
  cases hrefusal : refusal? (allFragments xs) with
  | some e' =>
      rw [hrefusal] at h
      cases h
      exact Or.inl rfl
  | none =>
      rw [hrefusal] at h
      rcases bind_eq_error h with hrow | ⟨found, -, h⟩
      · rcases exists_of_mapM_error hrow with ⟨tag, -, hreduce⟩
        exact Or.inr ⟨tag, hreduce⟩
      · cases h

/-- What fails under a tag is a merge of items, or of what several fragments
    say about a property. -/
theorem reduce_eq_error {tag : Tag} {bucket : List Schema} {e : MergeError}
    (h : reduce o tag bucket = .error e) :
    ((tag = .array ∨ tag = .map) ∧ itemFragments bucket ≠ [] ∧
      merge o (itemFragments bucket) = .error e) ∨
    (tag = .object ∧ ∃ name ∈ bucket.flatMap propertyNames,
      (∀ f, propertyFragments name bucket ≠ [f]) ∧
        merge o (propertyFragments name bucket) = .error e) := by
  have hb : bucket ≠ [] := by
    rintro rfl
    rw [reduce_nil] at h
    cases h
  rcases tag_cases tag with ht | ht | rfl
  · rw [reduce_leaf ht] at h
    cases h
  · rw [reduce_container ht hb] at h
    rcases bind_eq_error h with hitems | ⟨items, -, h⟩
    · have hfs : itemFragments bucket ≠ [] := by
        intro hnil
        rw [hnil] at hitems
        cases hitems
      rw [mergeItems_of_ne_nil hfs] at hitems
      rcases bind_eq_error hitems with hmerge | ⟨c, -, h⟩
      · exact Or.inl ⟨ht, hfs, hmerge⟩
      · cases h
    · cases h
  · rw [reduce_object hb] at h
    rcases bind_eq_error h with hproperties | ⟨properties, -, h⟩
    · rcases Keyed.exists_of_mapM_error hproperties with ⟨name, u, hname, hmerge⟩
      rw [Keyed.get?_tabulate, Option.ite_none_right_eq_some] at hname
      have hmany : ∀ f, propertyFragments name bucket ≠ [f] := by
        intro f hf
        rw [hf] at hmerge
        cases hmerge
      rw [mergeProperty_of_ne_singleton hmany] at hmerge
      exact Or.inr ⟨rfl, name, hname.1, hmany, hmerge⟩
    · cases h

/-! ### What is merged inside -/

/-- The fragments of a container are never absorbed. -/
theorem tagged_absorb_container {tag : Tag} (h : tag.isContainer) (fs : List Schema) :
    tagged tag (absorb fs) = tagged tag fs := by
  refine tagged_absorb_of_ne ?_ fs
  rintro rfl
  cases h

theorem ne_nil_of_itemFragments {bucket : List Schema} (h : itemFragments bucket ≠ []) :
    bucket ≠ [] := by
  rintro rfl
  exact h rfl

theorem ne_nil_of_mem_usedNames {bucket : List Schema} {name : String}
    (h : name ∈ bucket.flatMap propertyNames) : bucket ≠ [] := by
  rintro rfl
  cases h

/-- Where a merge succeeds, what is offered for the items has been merged. -/
theorem exists_merge_items {xs : List Schema} {m : Schema} (h : merge o xs = .ok m) {tag : Tag}
    (ht : tag = .array ∨ tag = .map) (hfs : itemFragments (tagged tag (allFragments xs)) ≠ []) :
    ∃ c, merge o (itemFragments (tagged tag (allFragments xs))) = .ok c := by
  rcases exists_of_merge_ok h with ⟨r, hr, -, -⟩
  have hreduce := hr tag
  rw [tagged_absorb_container (isContainer_of_list ht),
    reduce_container ht (ne_nil_of_itemFragments hfs), mergeItems_of_ne_nil hfs] at hreduce
  rcases bind_eq_ok_iff.1 hreduce with ⟨items, hitems, -⟩
  rcases bind_eq_ok_iff.1 hitems with ⟨c, hc, -⟩
  exact ⟨c, hc⟩

/-- Where a merge succeeds, what is offered for a property has been merged, or
    kept. -/
theorem exists_mergeProperty {xs : List Schema} {m : Schema} (h : merge o xs = .ok m)
    {name : String} (hname : name ∈ (tagged .object (allFragments xs)).flatMap propertyNames) :
    ∃ p, mergeProperty o (propertyFragments name (tagged .object (allFragments xs))) = .ok p := by
  rcases exists_of_merge_ok h with ⟨r, hr, -, -⟩
  have hreduce := hr .object
  rw [tagged_absorb_container rfl, reduce_object (ne_nil_of_mem_usedNames hname)] at hreduce
  rcases bind_eq_ok_iff.1 hreduce with ⟨properties, hproperties, -⟩
  rcases get?_of_mergeProperties hproperties hname with ⟨p, -, hp⟩
  exact ⟨p, hp⟩

/-- Induction into the items and the properties of what is merged. -/
theorem inside_induction {P : List Schema → Prop}
    (step : ∀ xs,
      (∀ tag, tag.isContainer → tagged tag (allFragments xs) ≠ [] →
        P (itemFragments (tagged tag (allFragments xs)))) →
      (∀ name, tagged .object (allFragments xs) ≠ [] →
        P (propertyFragments name (tagged .object (allFragments xs)))) → P xs)
    (xs : List Schema) : P xs := by
  induction xs using merge_induction with
  | step xs ihItems ihProperties =>
      refine step xs (fun tag htag hb => ?_) fun name hb => ?_
      · have hitems := ihItems tag
        rw [tagged_absorb_container htag] at hitems
        exact hitems hb
      · have hproperty := ihProperties .object name
        rw [tagged_absorb_container rfl] at hproperty
        exact hproperty hb

/-- Induction along the way to the place where a merge is refused. -/
theorem merge_error_induction {e : MergeError} {P : List Schema → Prop}
    (refused : ∀ xs, refusal? (allFragments xs) = some e → P xs)
    (items : ∀ xs tag, tag = .array ∨ tag = .map →
      itemFragments (tagged tag (allFragments xs)) ≠ [] →
        P (itemFragments (tagged tag (allFragments xs))) → P xs)
    (property : ∀ xs name, name ∈ (tagged .object (allFragments xs)).flatMap propertyNames →
      (∀ f, propertyFragments name (tagged .object (allFragments xs)) ≠ [f]) →
      merge o (propertyFragments name (tagged .object (allFragments xs))) = .error e →
        P (propertyFragments name (tagged .object (allFragments xs))) → P xs)
    (xs : List Schema) : merge o xs = .error e → P xs := by
  induction xs using inside_induction with
  | step xs ihItems ihProperties =>
      intro h
      rcases merge_eq_error h with hrefused | ⟨tag, hreduce⟩
      · exact refused xs hrefused
      rcases reduce_eq_error hreduce with ⟨ht, hfs, hmerge⟩ | ⟨rfl, name, hname, hmany, hmerge⟩
      · exact items xs tag ht hfs
          (ihItems tag (isContainer_of_list ht) (ne_nil_of_itemFragments hfs) hmerge)
      · exact property xs name hname hmany hmerge
          (ihProperties name (ne_nil_of_mem_usedNames hname) hmerge)

end Schema

end SampleSchema
