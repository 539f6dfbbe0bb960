import Mathlib
import SampleSchema.Proofs.Acceptance
import SampleSchema.Proofs.Reduction

/-!
# Merging Loses No Sample

Whatever one of the merged schemas accepts, the merge accepts.

The argument follows a sample into the merge. One fragment accepts it, and the
tag of that fragment is one of the sample's own. The fragments with this tag
reduce to one, which has to accept the sample too. For a leaf there is nothing
more to say. For the others it is asked again of what is inside: an element
fits one of the fragments that the items are merged from, an entry one of
those for the property, and there the answer is known already, since a merge
turns to lower schemas.

Requirements only get fewer. A name that is required of the merge is required
of every object merged.

What was found is joined in the end, except the integers beside a number, and
a number accepts every integer.

Type lists with something beside them are excluded. What stands beside them is
lost when the list is taken apart, so merging one such schema alone can make
it accept less.

## Theorems

* `Schema.accepts_of_mergeProperty`, `Schema.accepts_of_mergeItems`: The parts
  of a reduced fragment lose nothing.
* `Schema.accepts_of_reduce`: Nor does the fragment.
* `Schema.accepts_of_merge`: Nor does the merge.
-/

namespace SampleSchema

namespace Schema

variable {o : MergeOptions}

/-- The merge of these schemas accepts what one of them accepts. -/
def KeepsSamples (o : MergeOptions) (xs : List Schema) : Prop :=
  ∀ m v, merge o xs = .ok m → (∃ x ∈ xs, x.accepts v) → m.accepts v

/-! ### Inside a fragment -/

theorem accepts_of_mergeItems {fs : List Schema} (hfs : KeepsSamples o fs) {items : Option Schema}
    (h : mergeItems o fs = .ok items) {v : Sample} (hv : ∃ f ∈ fs, f.accepts v) :
    ∃ c, items = some c ∧ c.accepts v := by
  rcases hv with ⟨f, hf, hfv⟩
  rw [mergeItems_of_ne_nil (List.ne_nil_of_mem hf)] at h
  rcases bind_eq_ok_iff.1 h with ⟨c, hc, h⟩
  exact ⟨c, (Except.ok.inj h).symm, hfs c v hc ⟨f, hf, hfv⟩⟩

theorem accepts_of_mergeProperty {fs : List Schema} (hfs : KeepsSamples o fs) {p : Schema}
    (h : mergeProperty o fs = .ok p) {v : Sample} (hv : ∃ f ∈ fs, f.accepts v) :
    p.accepts v := by
  unfold mergeProperty at h
  split at h
  · next f =>
      -- A single fragment is kept, and it is the one that accepts.
      rcases hv with ⟨g, hg, hv⟩
      rw [List.mem_singleton.1 hg, Except.ok.inj h] at hv
      exact hv
  · exact hfs p v h hv

/-- What fits a part of a fragment fits one of the fragments that the parts
    are merged from. Items and properties are both such parts. -/
theorem exists_mem_parts {part : Schema → Option Schema}
    (hpart : ∀ {f c}, part f = some c → c ∈ f.children) {bucket : List Schema}
    (hbucket : ∀ f ∈ bucket, f.hasBareLists) {f c : Schema} (hf : f ∈ bucket)
    (hc : part f = some c) {v : Sample} (hv : c.accepts v) :
    ∃ g ∈ allFragments (bucket.filterMap part), g.accepts v := by
  have hcBare := (hasBareLists_iff.1 (hbucket f hf)).2 c (hpart hc)
  rcases (accepts_iff_fragments c hcBare v).1 hv with ⟨g, hg, hv⟩
  exact ⟨g, mem_parts_iff.2 ⟨f, hf, c, hc, hg⟩, hv⟩

theorem hasBareLists_of_mem_parts {part : Schema → Option Schema}
    (hpart : ∀ {f c}, part f = some c → c ∈ f.children) {bucket : List Schema}
    (hbucket : ∀ f ∈ bucket, f.hasBareLists) :
    ∀ g ∈ allFragments (bucket.filterMap part), g.hasBareLists := by
  simp only [hasBareLists_iff_everywhere] at hbucket ⊢
  exact .of_mem_parts (fun tag => bareList_ofTags [tag]) hpart hbucket

/-- A name that is required of the merge is required of all that was merged. -/
theorem mem_requiredNames_of_mem_mergeRequired {bucket : List Schema} {name : String}
    (h : name ∈ (mergeRequired o bucket).getD []) {f : Schema} (hf : f ∈ bucket) :
    name ∈ f.requiredNames := by
  unfold mergeRequired at h
  split at h
  · exact absurd h List.not_mem_nil
  · have hmap : f.requiredNames ∈ bucket.map requiredNames := List.mem_map.2 ⟨f, hf, rfl⟩
    exact (mem_commonNames_iff (List.ne_nil_of_mem hmap)).1 h f.requiredNames hmap

/-! ### One tag -/

theorem fitsInside_of_mergeItems {tag : Tag} (ht : tag = .array ∨ tag = .map)
    {bucket : List Schema} (hbucket : ∀ f ∈ bucket, f.hasBareLists)
    (hitems : KeepsSamples o (itemFragments bucket)) {items : Option Schema}
    (h : mergeItems o (itemFragments bucket) = .ok items) {f : Schema} (hf : f ∈ bucket)
    {v : Sample} (htag : tag ∈ v.tags) (hv : f.fitsInside v) :
    (container tag items).fitsInside v := by
  refine fitsInside_of_items ht htag ?_ hv
  rintro e ⟨c, hc, he⟩
  exact accepts_of_mergeItems hitems h (exists_mem_parts mem_children_of_items hbucket hf hc he)

theorem fitsInside_of_mergeProperties {bucket : List Schema}
    (hbucket : ∀ f ∈ bucket, f.hasBareLists)
    (hproperties : ∀ name, KeepsSamples o (propertyFragments name bucket))
    {properties : Keyed Schema} (h : mergeProperties o bucket = .ok properties)
    {f : Schema} (hf : f ∈ bucket) {v : Sample} (htag : Tag.object ∈ v.tags)
    (hv : f.fitsInside v) : (object properties (mergeRequired o bucket)).fitsInside v := by
  refine fitsInside_of_properties htag ?_ ?_ hv
  · -- The entry fits the property of one fragment, so the name is not left out.
    rintro name e ⟨c, hc, he⟩
    have hname : name ∈ bucket.flatMap propertyNames :=
      List.mem_flatMap.2 ⟨f, hf, mem_propertyNames_iff.2 ⟨c, hc⟩⟩
    rcases get?_of_mergeProperties h hname with ⟨p, hget, hp⟩
    refine ⟨p, ?_, accepts_of_mergeProperty (hproperties name) hp
      (exists_mem_parts mem_children_of_property? hbucket hf hc he)⟩
    rw [property?_object, hget]
  · intro name hname
    rw [requiredNames_object] at hname
    exact mem_requiredNames_of_mem_mergeRequired hname hf

/-- Fragments with one tag reduce to one that accepts what any of them
    accepts. -/
theorem accepts_of_reduce {tag : Tag} {bucket : List Schema}
    (hof : ∀ f ∈ bucket, f.IsOf tag) (hbucket : ∀ f ∈ bucket, f.hasBareLists)
    (hitems : KeepsSamples o (itemFragments bucket))
    (hproperties : ∀ name, KeepsSamples o (propertyFragments name bucket))
    {s : Option Schema} (h : reduce o tag bucket = .ok s) {v : Sample}
    {f : Schema} (hf : f ∈ bucket) (hv : f.accepts v) : ∃ t, s = some t ∧ t.accepts v := by
  rcases ((hof f hf).accepts_iff v).1 hv with ⟨htag, hinside⟩
  have hb : bucket ≠ [] := List.ne_nil_of_mem hf
  rcases tag_cases tag with ht | ht | rfl
  · -- Leaves with one tag accept the same, so the first does what the given one does.
    rw [reduce_leaf ht] at h
    cases bucket with
    | nil => exact absurd rfl hb
    | cons b bs =>
        refine ⟨b, (Except.ok.inj h).symm, ?_⟩
        exact ((hof b List.mem_cons_self).accepts_iff v).2 ⟨htag, fitsInside_of_leaf htag ht b⟩
  · rw [reduce_container ht hb] at h
    rcases bind_eq_ok_iff.1 h with ⟨items, hmerged, h⟩
    refine ⟨container tag items, (Except.ok.inj h).symm, ?_⟩
    exact ((isOf_container tag items).accepts_iff v).2
      ⟨htag, fitsInside_of_mergeItems ht hbucket hitems hmerged hf htag hinside⟩
  · rw [reduce_object hb] at h
    rcases bind_eq_ok_iff.1 h with ⟨properties, hmerged, h⟩
    refine ⟨object properties (mergeRequired o bucket), (Except.ok.inj h).symm, ?_⟩
    exact ((isOf_object properties _).accepts_iff v).2
      ⟨htag, fitsInside_of_mergeProperties hbucket hproperties hmerged hf htag hinside⟩

/-! ### All tags -/

/-- What accepts integers as such is no better than what accepts numbers. -/
theorem number_mem_tags {v : Sample} (h : Tag.integer ∈ v.tags) : Tag.number ∈ v.tags := by
  cases v with
  | int n => exact List.mem_cons_of_mem _ List.mem_cons_self
  | float x =>
      rw [Sample.tags] at h ⊢
      split
      · exact List.mem_cons_of_mem _ List.mem_cons_self
      · exact List.mem_singleton.2 rfl
  | null | bool _ | string _ | list _ | map _ | object _ => cases List.mem_singleton.1 h

/-- A fragment that is absorbed leaves a fragment that accepts as much. -/
theorem exists_mem_bucket {xs : List Schema} {f : Schema} {tag : Tag} (hof : f.IsOf tag)
    (hf : f ∈ allFragments xs) {v : Sample} (hv : f.accepts v) :
    ∃ tag', ∃ g ∈ tagged tag' (absorb (allFragments xs)), g.accepts v := by
  by_cases habsorbed : tag = .integer ∧ tagged .number (allFragments xs) ≠ []
  · -- An integer beside a number: any fragment for numbers takes its place.
    rcases habsorbed with ⟨rfl, hnumber⟩
    rcases List.exists_mem_of_ne_nil _ hnumber with ⟨g, hg⟩
    have htag := ((hof.accepts_iff v).1 hv).1
    refine ⟨.number, g, ?_, ?_⟩
    · rw [tagged_absorb_of_ne (by decide)]
      exact hg
    · exact ((isOf_of_mem_tagged hg).accepts_iff v).2
        ⟨number_mem_tags htag, fitsInside_of_leaf htag rfl g⟩
  · refine ⟨tag, f, ?_, hv⟩
    rw [tagged_absorb, if_neg habsorbed]
    exact mem_tagged_iff.2 ⟨hf, hof.2⟩

/-- A merge of schemas with bare lists accepts what any of them accepts, by
    induction along the calls of a merge to itself. -/
theorem keepsSamples (o : MergeOptions) (xs : List Schema) :
    (∀ x ∈ xs, x.hasBareLists) → KeepsSamples o xs := by
  induction xs using merge_induction with
  | step xs ihItems ihProperties =>
      rintro hxs m v hm ⟨x, hx, hv⟩
      rcases merge_eq_ok_iff.1 hm with ⟨hrefusal, _⟩
      rcases exists_of_merge_ok hm with ⟨r, hr, hrOf, rfl⟩
      -- Follow the sample to a fragment, and that fragment to its tag.
      rcases (accepts_iff_fragments x (hxs x hx) v).1 hv with ⟨f, hf, hv⟩
      have hmem : f ∈ allFragments xs := List.mem_flatMap.2 ⟨x, hx, hf⟩
      rcases (refusal?_eq_none_iff.1 hrefusal).2 f hmem with ⟨tag, htag⟩
      have hof : f.IsOf tag := ⟨(isAtomic_of_mem_allFragments hmem).1, htag⟩
      rcases exists_mem_bucket hof hmem hv with ⟨tag', g, hg, hv⟩
      have hbucket : ∀ b ∈ tagged tag' (absorb (allFragments xs)), b.hasBareLists := by
        intro b hb
        exact hasBareLists_of_mem_allFragments hxs (mem_of_mem_absorb (mem_tagged_iff.1 hb).1)
      have hb := List.ne_nil_of_mem hg
      have hitems := ihItems tag' hb (hasBareLists_of_mem_parts mem_children_of_items hbucket)
      have hproperties := fun name =>
        ihProperties tag' name hb (hasBareLists_of_mem_parts mem_children_of_property? hbucket)
      -- The tag reduces to something that accepts the sample, and joining keeps it.
      rcases accepts_of_reduce (fun b hb => isOf_of_mem_bucket hb) hbucket hitems hproperties
        (hr tag') hg hv with ⟨s, hs, hv⟩
      refine ((oneEach_filterMap hrOf).accepts_joinFound v).2 ⟨s, ?_, hv⟩
      exact List.mem_filterMap.2 ⟨tag', Tag.mem_all tag', hs⟩

/-- Merging loses no sample. -/
theorem accepts_of_merge (o : MergeOptions) (xs : List Schema) (m : Schema) (v : Sample)
    (hxs : ∀ x ∈ xs, x.hasBareLists) (hm : merge o xs = .ok m) (hv : ∃ x ∈ xs, x.accepts v) :
    m.accepts v :=
  keepsSamples o xs hxs m v hm hv

/-- A list of integers fits one alternative of the first schema, whose items
    are integers. The merged items are numbers and still take it. -/
theorem accepts_of_merge_lists :
    (union [ofTags [.integer, .string], container .array (some (ofTag .number)),
      object (.ofList [("id", ofTag .integer)]) none]).accepts (.list [.int 1, .int 2]) := by
  refine accepts_of_merge {}
    [union [ofTags [.string, .integer], container .array (some (ofTag .integer))],
      container .array (some (ofTag .number)),
      object (.ofList [("id", ofTag .integer)]) (some ["id"]), object .empty none]
    _ _ (fun x hx => ?_) (by cbv) ⟨_, List.mem_cons_self, by cbv⟩
  simp only [List.mem_cons, List.not_mem_nil, or_false] at hx
  rcases hx with rfl | rfl | rfl | rfl <;> cbv

end Schema

end SampleSchema
