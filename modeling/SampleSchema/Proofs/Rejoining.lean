import SampleSchema.Proofs.Canonical

/-!
# Canonical Schemas and Their Fragments

A canonical schema is what its fragments are joined to.

Taking a schema apart forgets how it is written. For a canonical schema there
is nothing to forget: its bare tags stand in one list, in their order, and
what is structured follows, in order too. `Arranged` describes fragments in
this arrangement. The fragments of a canonical schema have it, and joining
them gives the schema back.

It follows that canonical schemas with the same fragments are equal, whatever
the fragments are compared by. The order of the tags leaves only one way to
arrange them.

## Main definitions

* `Schema.Arranged`: Bare tags and structured fragments, each in order.

## Theorems

* `Schema.CanonicalNode.cases`: Without alternatives there are two forms.
* `Schema.IsCanonical.exists_arranged`: The fragments of a canonical schema are
  arranged.
* `Schema.IsCanonical.joinFound_fragments`: Joining them gives it back.
* `Schema.IsCanonical.oneEach`: No two of them have the same tag.
* `Schema.IsCanonical.eq_of_fragments`: The fragments determine the schema.
* `Schema.CanonicalNode.eq_of_parts`: The parts determine a fragment.
-/

namespace SampleSchema

namespace Schema

/-! ### Forms -/

theorem CanonicalNode.items_eq_none {s : Schema} (h : CanonicalNode s)
    (hne : ¬ (s.tag? = some .array ∨ s.tag? = some .map)) : s.items = none := by
  by_contra hsome
  exact hne (h.items (Option.isSome_iff_ne_none.2 hsome))

theorem CanonicalNode.properties_eq_none {s : Schema} (h : CanonicalNode s)
    (hne : s.tag? ≠ some .object) : s.properties = none :=
  Option.eq_none_iff_forall_ne_some.2 fun r hr => hne (h.properties r hr).1

theorem CanonicalNode.required_eq_none {s : Schema} (h : CanonicalNode s)
    (hne : s.tag? ≠ some .object) : s.required = none :=
  Option.eq_none_iff_forall_ne_some.2 fun names hnames => hne (h.required names hnames).1

/-- Items, properties and required names need a tag. -/
theorem CanonicalNode.parts_eq_none {s : Schema} (h : CanonicalNode s) (htag : s.tag? = none) :
    s.items = none ∧ s.properties = none ∧ s.required = none := by
  have hne : ∀ tag, s.tag? ≠ some tag := by
    intro tag heq
    rw [htag] at heq
    cases heq
  -- Each part asks for a tag of its own, and there is no tag at all.
  exact ⟨h.items_eq_none fun hi => hi.elim (hne _) (hne _), h.properties_eq_none (hne _),
    h.required_eq_none (hne _)⟩

/-- A type list has nothing beside it. -/
theorem CanonicalNode.eq_ofTags {s : Schema} {tags : List Tag} (h : CanonicalNode s)
    (ht : s.type = some (.several tags)) : s = ofTags tags := by
  have htag : s.tag? = none := by
    rw [tag?, ht]
  have hanyOf : s.anyOf = none := by
    have hone := h.type_or_anyOf
    rw [ht] at hone
    exact Option.isNone_iff_eq_none.1 hone.symm
  -- With two tags or more the list is written as a list.
  have htype : TypeSpec.ofTags tags = .several tags := by
    have hlist : CanonicalList tags := h.type _ ht
    unfold TypeSpec.ofTags
    split
    · exact absurd hlist.two_le (Nat.not_succ_le_self 1)
    · rfl
  rcases h.parts_eq_none htag with ⟨hitems, hproperties, hrequired⟩
  rcases s with ⟨type, items, properties, required, anyOf⟩
  simp only at ht hanyOf hitems hproperties hrequired
  rw [ht, hanyOf, hitems, hproperties, hrequired, ofTags, htype]

/-- Alternatives have nothing beside them. -/
theorem CanonicalNode.eq_union {s : Schema} {alternatives : List Schema} (h : CanonicalNode s)
    (ha : s.anyOf = some alternatives) : s = Schema.union alternatives := by
  have htype : s.type = none := by
    have hone := h.type_or_anyOf
    rw [ha] at hone
    exact Option.not_isSome_iff_eq_none.1 (ne_true_of_eq_false hone)
  have htag : s.tag? = none := by
    rw [tag?, htype]
  rcases h.parts_eq_none htag with ⟨hitems, hproperties, hrequired⟩
  rcases s with ⟨type, items, properties, required, anyOf⟩
  simp only at ha htype hitems hproperties hrequired
  rw [ha, htype, hitems, hproperties, hrequired, Schema.union]

/-- Without alternatives there is one tag, or there are several and nothing
    else. -/
theorem CanonicalNode.cases {s : Schema} (h : CanonicalNode s) (ha : s.anyOf = none) :
    (∃ tag, s.IsOf tag) ∨ ∃ tags, CanonicalList tags ∧ s = ofTags tags := by
  have hone := h.type_or_anyOf
  rw [ha] at hone
  rcases Option.isSome_iff_exists.1 hone with ⟨t, ht⟩
  cases t with
  | single tag => exact Or.inl ⟨tag, ha, tag?_eq_some_iff.2 ht⟩
  | several tags => exact Or.inr ⟨tags, h.type _ ht, h.eq_ofTags ht⟩

/-! ### Arranged fragments -/

/-- Bare tags in their order, and structured fragments in the order of theirs,
    with no tag twice. -/
structure Arranged (tags : List Tag) (others : List Schema) : Prop where
  /-- The bare tags ascend. -/
  bare : tags.Pairwise fun a b => a.index < b.index
  /-- A number leaves no integer beside it. -/
  absorbed : ¬ (Tag.integer ∈ tags ∧ Tag.number ∈ tags)
  /-- The other fragments are structured. -/
  structured : ∀ f ∈ others, ¬ f.isSimple ∧ ∃ tag, f.IsOf tag
  /-- Their tags ascend. -/
  ascending : (others.filterMap tag?).Pairwise fun a b => a.index < b.index
  /-- No tag occurs twice. -/
  nodup : (tags ++ others.filterMap tag?).Nodup

theorem filterMap_tag_map_ofTag (tags : List Tag) : (tags.map ofTag).filterMap tag? = tags := by
  rw [List.filterMap_map]
  exact List.filterMap_some

namespace Arranged

variable {tags : List Tag} {others : List Schema}

theorem oneEach (h : Arranged tags others) : OneEach (tags.map ofTag ++ others) := by
  refine ⟨fun f hf => ?_, ?_⟩
  · rcases List.mem_append.1 hf with hf | hf
    · rcases List.mem_map.1 hf with ⟨tag, _, rfl⟩
      exact ⟨tag, isOf_ofTag tag⟩
    · exact (h.structured f hf).2
  · rw [List.filterMap_append, filterMap_tag_map_ofTag]
    exact h.nodup

theorem filter_isSimple (h : Arranged tags others) :
    (tags.map ofTag ++ others).filter isSimple = tags.map ofTag := by
  have hbare : ∀ f ∈ tags.map ofTag, f.isSimple := by
    intro f hf
    rcases List.mem_map.1 hf with ⟨tag, _, rfl⟩
    rfl
  rw [List.filter_append, List.filter_eq_self.2 hbare,
    List.filter_eq_nil_iff.2 fun f hf => (h.structured f hf).1, List.append_nil]

theorem filter_not_isSimple (h : Arranged tags others) :
    ((tags.map ofTag ++ others).filter fun f => !f.isSimple) = others := by
  have hbare : ((tags.map ofTag).filter fun f => !f.isSimple) = [] := by
    refine List.filter_eq_nil_iff.2 fun f hf hnot => ?_
    rcases List.mem_map.1 hf with ⟨tag, _, rfl⟩
    cases hnot
  have hothers : (others.filter fun f => !f.isSimple) = others := by
    refine List.filter_eq_self.2 fun f hf => ?_
    rw [eq_false_of_ne_true (h.structured f hf).1]
    rfl
  rw [List.filter_append, hbare, hothers, List.nil_append]

/-- Arranged fragments are joined to a type list, or to a union with an entry
    for the bare tags in front. -/
theorem join_eq (h : Arranged tags others) :
    join (tags.map ofTag ++ others) =
      if others.isEmpty then ofTags tags
      else union ((if tags.isEmpty then [] else [ofTags tags]) ++ others) := by
  have hbare : bareTags (tags.map ofTag ++ others) = tags := by
    rw [bareTags, h.filter_isSimple, filterMap_tag_map_ofTag]
  rw [h.oneEach.join_eq, h.filter_not_isSimple, hbare]

end Arranged

theorem joinFound_of_two_le {found : List Schema} (h : 2 ≤ found.length) :
    joinFound found = join found := by
  unfold joinFound
  split
  · exact absurd h (Nat.not_succ_le_self 1)
  · rfl

/-! ### The fragments of a canonical schema -/

theorem CanonicalList.arranged {tags : List Tag} (h : CanonicalList tags) : Arranged tags [] := by
  refine ⟨h.ascending, h.absorbed, fun f hf => ?_, List.Pairwise.nil, ?_⟩
  · cases hf
  · rw [List.filterMap_nil, List.append_nil]
    refine h.ascending.imp fun hlt heq => ?_
    rw [heq] at hlt
    exact Nat.lt_irrefl _ hlt

theorem arranged_nil : Arranged [] [] := by
  refine ⟨List.Pairwise.nil, fun h => ?_, fun f hf => ?_, List.Pairwise.nil, List.nodup_nil⟩
  · cases h.1
  · cases hf

theorem arranged_structured {f : Schema} {tag : Tag} (hsimple : ¬ f.isSimple) (hof : f.IsOf tag) :
    Arranged [] [f] := by
  have htags : [f].filterMap tag? = [tag] := by
    rw [List.filterMap_cons_some hof.2, List.filterMap_nil]
  refine ⟨List.Pairwise.nil, fun h => ?_, fun g hg => ?_, ?_, ?_⟩
  · cases h.1
  · rw [List.mem_singleton.1 hg]
    exact ⟨hsimple, tag, hof⟩
  · rw [htags]
    exact List.pairwise_singleton _ _
  · rw [htags]
    exact List.nodup_singleton _

theorem arranged_tag (tag : Tag) : Arranged [tag] [] := by
  refine ⟨List.pairwise_singleton _ _, ?_, fun f hf => ?_, List.Pairwise.nil,
    List.nodup_singleton _⟩
  · rintro ⟨hinteger, hnumber⟩
    rw [List.mem_singleton] at hinteger hnumber
    rw [← hinteger] at hnumber
    cases hnumber
  · cases hf

/-- An entry of a union that is only a type is the entry for some bare tags. -/
theorem CanonicalNode.exists_eq_ofTags {a : Schema} (h : CanonicalNode a) (ha : a.anyOf = none)
    (hsimple : a.isSimple) : ∃ tags, a = ofTags tags ∧ tags ≠ [] ∧ Arranged tags [] := by
  rcases h.cases ha with ⟨tag, hof⟩ | ⟨tags, hlist, rfl⟩
  · exact ⟨[tag], eq_ofTag_of_isSimple hsimple hof.2, List.cons_ne_nil tag [], arranged_tag tag⟩
  · refine ⟨tags, rfl, fun hnil => ?_, hlist.arranged⟩
    have hlength := hlist.two_le
    rw [hnil] at hlength
    cases hlength

theorem flatMap_typeTags_of_tagged {others : List Schema} (h : ∀ a ∈ others, a.tag?.isSome) :
    others.flatMap typeTags = others.filterMap tag? := by
  rw [List.filterMap_eq_flatMap_toList]
  refine List.flatMap_congr fun a ha => ?_
  rcases Option.isSome_iff_exists.1 (h a ha) with ⟨tag, htag⟩
  rw [typeTags_of_tag htag, htag]
  rfl

/-- At most one entry of a canonical union is for bare tags. -/
theorem CanonicalUnion.exists_bare {alternatives : List Schema} (h : CanonicalUnion alternatives)
    (hnodes : ∀ a ∈ alternatives, CanonicalNode a) :
    ∃ tags, Arranged tags [] ∧
      alternatives.filter isSimple = if tags.isEmpty then [] else [ofTags tags] := by
  have hone := h.one_bare
  cases hfilter : alternatives.filter isSimple with
  | nil => exact ⟨[], arranged_nil, rfl⟩
  | cons a rest =>
      rw [hfilter, List.length_cons] at hone
      have hrest : rest = [] := List.eq_nil_of_length_eq_zero (by omega)
      have hmem : a ∈ alternatives.filter isSimple := by
        rw [hfilter]
        exact List.mem_cons_self
      rcases List.mem_filter.1 hmem with ⟨ha, hsimple⟩
      rcases (hnodes a ha).exists_eq_ofTags (h.flat a ha) hsimple with ⟨tags, rfl, hne, hsorted⟩
      refine ⟨tags, hsorted, ?_⟩
      rw [hrest, if_neg (mt List.isEmpty_iff.1 hne)]

/-- A canonical union is an entry for bare tags, if there are any, and then
    structured fragments, of which there is at least one. -/
theorem CanonicalUnion.exists_arranged {alternatives : List Schema}
    (h : CanonicalUnion alternatives) (hnodes : ∀ a ∈ alternatives, CanonicalNode a) :
    ∃ tags others, Arranged tags others ∧ others ≠ [] ∧
      alternatives = (if tags.isEmpty then [] else [ofTags tags]) ++ others := by
  rcases h.exists_bare hnodes with ⟨tags, hsorted, hfilter⟩
  refine ⟨tags, alternatives.filter fun a => !a.isSimple, ?_, fun hnil => ?_, ?_⟩
  · refine ⟨hsorted.bare, hsorted.absorbed, fun f hf => ?_, h.ascending, ?_⟩
    · rcases List.mem_filter.1 hf with ⟨hmem, hsimple⟩
      rcases Option.isSome_iff_exists.1 (h.tagged f hf) with ⟨tag, htag⟩
      refine ⟨fun hs => ?_, tag, h.flat f hmem, htag⟩
      rw [hs] at hsimple
      cases hsimple
    · -- The tags of all entries are those of the first and those of the others.
      have hnodup := h.nodup
      rw [h.bare_first, List.flatMap_append, flatMap_typeTags_of_tagged h.tagged, hfilter]
        at hnodup
      by_cases hempty : tags.isEmpty
      · rw [if_pos hempty] at hnodup
        rw [List.isEmpty_iff.1 hempty]
        exact hnodup
      · rw [if_neg hempty, List.flatMap_singleton, typeTags_ofTags] at hnodup
        exact hnodup
  · -- One entry for bare tags is not enough for a union.
    have hlength := h.two_le
    rw [h.bare_first, hnil, List.append_nil] at hlength
    have := h.one_bare
    omega
  · rw [← hfilter]
    exact h.bare_first

theorem CanonicalNode.exists_arranged {s : Schema} (h : CanonicalNode s) (ha : s.anyOf = none) :
    ∃ tags others, Arranged tags others ∧ s.fragments = tags.map ofTag ++ others ∧
      s = joinFound (tags.map ofTag ++ others) := by
  rcases h.cases ha with ⟨tag, hof⟩ | ⟨tags, hlist, rfl⟩
  · by_cases hsimple : s.isSimple
    · have heq := eq_ofTag_of_isSimple hsimple hof.2
      refine ⟨[tag], [], arranged_tag tag, ?_, heq⟩
      rw [hof.isAtomic.fragments_eq, heq]
      rfl
    · exact ⟨[], [s], arranged_structured hsimple hof, hof.isAtomic.fragments_eq, rfl⟩
  · refine ⟨tags, [], hlist.arranged, ?_, ?_⟩
    · rw [fragments_ofTags, List.append_nil]
    · rw [joinFound_of_two_le, hlist.arranged.join_eq]
      · rfl
      · rw [List.append_nil, List.length_map]
        exact hlist.two_le

theorem IsCanonical.exists_arranged_of_anyOf {s : Schema} {alternatives : List Schema}
    (h : s.IsCanonical) (ha : s.anyOf = some alternatives) :
    ∃ tags others, Arranged tags others ∧ s.fragments = tags.map ofTag ++ others ∧
      s = joinFound (tags.map ofTag ++ others) := by
  have hnodes : ∀ a ∈ alternatives, CanonicalNode a :=
    fun a ha' => (h.inside (mem_children_of_anyOf ha ha')).here
  have hunion := h.here.union alternatives ha
  rcases hunion.exists_arranged hnodes with ⟨tags, others, harranged, hne, hentries⟩
  have hothers : allFragments others = others := by
    refine allFragments_of_isAtomic fun f hf => ?_
    rcases (harranged.structured f hf).2 with ⟨tag, hof⟩
    exact hof.isAtomic
  have hfragments : s.fragments = tags.map ofTag ++ others := by
    rw [fragments_of_anyOf ha, hentries, allFragments_append, hothers]
    by_cases hempty : tags.isEmpty
    · rw [if_pos hempty, List.isEmpty_iff.1 hempty]
      rfl
    · rw [if_neg hempty, allFragments_singleton, fragments_ofTags]
  refine ⟨tags, others, harranged, hfragments, ?_⟩
  rw [joinFound_of_two_le, harranged.join_eq, if_neg (mt List.isEmpty_iff.1 hne), ← hentries]
  · exact h.here.eq_union ha
  · -- The entry for the bare tags has at least one of them.
    have hlength := hunion.two_le
    rw [hentries, List.length_append] at hlength
    rw [List.length_append, List.length_map]
    by_cases hempty : tags.isEmpty
    · rw [if_pos hempty, List.length_nil] at hlength
      omega
    · rw [if_neg hempty, List.length_singleton] at hlength
      have := List.length_pos_iff.2 (mt List.isEmpty_iff.2 hempty)
      omega

/-- The fragments of a canonical schema are arranged, and the schema is what
    they are joined to. -/
theorem IsCanonical.exists_arranged {s : Schema} (h : s.IsCanonical) :
    ∃ tags others, Arranged tags others ∧ s.fragments = tags.map ofTag ++ others ∧
      s = joinFound (tags.map ofTag ++ others) := by
  cases ha : s.anyOf with
  | none => exact h.here.exists_arranged ha
  | some alternatives => exact h.exists_arranged_of_anyOf ha

/-- No two fragments of a canonical schema have the same tag. -/
theorem IsCanonical.oneEach {s : Schema} (h : s.IsCanonical) : OneEach s.fragments := by
  rcases h.exists_arranged with ⟨tags, others, harranged, hfragments, _⟩
  rw [hfragments]
  exact harranged.oneEach

theorem OneEach.eq_of_isOf {found : List Schema} (h : OneEach found) {f g : Schema} {tag : Tag}
    (hf : f ∈ found) (hg : g ∈ found) (hfOf : f.IsOf tag) (hgOf : g.IsOf tag) : f = g := by
  by_contra hne
  have hsymm : Std.Symm fun f g : Schema => ∀ a ∈ f.tag?, ∀ b ∈ g.tag?, a ≠ b :=
    ⟨fun f g h a ha b hb heq => h b hb a ha heq.symm⟩
  have hpairs := List.pairwise_filterMap.1 h.nodup
  exact hpairs.forall hf hg hne tag hfOf.2 tag hgOf.2 rfl

/-- A canonical schema is what its fragments are joined to. -/
theorem IsCanonical.joinFound_fragments {s : Schema} (h : s.IsCanonical) :
    joinFound s.fragments = s := by
  rcases h.exists_arranged with ⟨tags, others, _, hfragments, hs⟩
  rw [hfragments]
  exact hs.symm

/-! ### Equal fragments -/

/-- A leaf has nothing beside its tag. -/
theorem CanonicalNode.eq_ofTag {s : Schema} {tag : Tag} (h : CanonicalNode s) (hof : s.IsOf tag)
    (ht : tag.isContainer = false) : s = ofTag tag := by
  have hne : ∀ other, other.isContainer → s.tag? ≠ some other := by
    intro other hother heq
    rw [hof.2] at heq
    cases heq
    rw [ht] at hother
    cases hother
  have hitems := h.items_eq_none fun hi => hi.elim (hne _ rfl) (hne _ rfl)
  have hproperties := h.properties_eq_none (hne _ rfl)
  have hrequired := h.required_eq_none (hne _ rfl)
  refine eq_ofTag_of_isSimple ?_ hof.2
  rw [isSimple, tag?_eq_some_iff.1 hof.2, hitems, hproperties, hrequired, hof.1]
  rfl

/-- An array or map has nothing beside its items. -/
theorem CanonicalNode.eq_container {s : Schema} {tag : Tag} (h : CanonicalNode s)
    (hof : s.IsOf tag) (ht : tag = .array ∨ tag = .map) : s = container tag s.items := by
  have hne : s.tag? ≠ some .object := by
    rw [hof.2]
    rcases ht with rfl | rfl <;> decide
  have hproperties := h.properties_eq_none hne
  have hrequired := h.required_eq_none hne
  have htype := tag?_eq_some_iff.1 hof.2
  have hanyOf := hof.1
  rcases s with ⟨type, items, properties, required, anyOf⟩
  simp only at htype hanyOf hproperties hrequired
  rw [htype, hanyOf, hproperties, hrequired]
  rfl

theorem CanonicalNode.properties_eq_some_iff {s : Schema} (h : CanonicalNode s)
    {r : Keyed Schema} :
    s.properties = some r ↔ ¬ r.isEmpty ∧ ∀ name, s.property? name = r.get? name := by
  constructor
  · intro hr
    refine ⟨(h.properties r hr).2, fun name => ?_⟩
    rw [property?, hr]
    rfl
  · rintro ⟨hne, hget⟩
    cases hq : s.properties with
    | none =>
        -- There would be nothing to look up.
        refine absurd (Keyed.isEmpty_iff.2 fun name => ?_) hne
        rw [← hget, property?, hq]
        rfl
    | some q =>
        refine congrArg some (Keyed.ext_get? fun name => ?_)
        rw [← hget, property?, hq]
        rfl

theorem CanonicalNode.required_eq_some_iff {s : Schema} (h : CanonicalNode s)
    {names : List String} : s.required = some names ↔ names ≠ [] ∧ s.requiredNames = names := by
  unfold requiredNames
  constructor
  · intro hnames
    refine ⟨(h.required names hnames).2.1, ?_⟩
    rw [hnames]
    rfl
  · rintro ⟨hne, rfl⟩
    cases hr : s.required with
    | none =>
        rw [hr] at hne
        exact absurd rfl hne
    | some names => rfl

/-- An object has nothing beside its properties and required names. The latter
    ascend, so it is enough to know which they are. -/
theorem CanonicalNode.eq_object {s t : Schema} (hs : CanonicalNode s) (ht : CanonicalNode t)
    (hsOf : s.IsOf .object) (htOf : t.IsOf .object)
    (hproperties : ∀ name, s.property? name = t.property? name)
    (hrequired : ∀ name, name ∈ s.requiredNames ↔ name ∈ t.requiredNames) : s = t := by
  have hitems : ∀ {u}, CanonicalNode u → u.IsOf .object → u.items = none := by
    intro u hu hof
    refine hu.items_eq_none ?_
    rw [hof.2]
    decide
  have hnames : s.requiredNames = t.requiredNames :=
    Keyed.eq_of_ascending hs.pairwise_requiredNames ht.pairwise_requiredNames hrequired
  have hp : s.properties = t.properties := by
    refine Option.ext fun r => ?_
    simp only [hs.properties_eq_some_iff, ht.properties_eq_some_iff, hproperties]
  have hr : s.required = t.required := by
    refine Option.ext fun names => ?_
    rw [hs.required_eq_some_iff, ht.required_eq_some_iff, hnames]
  have hi := (hitems hs hsOf).trans (hitems ht htOf).symm
  have htype := (tag?_eq_some_iff.1 hsOf.2).trans (tag?_eq_some_iff.1 htOf.2).symm
  have hanyOf := hsOf.1.trans htOf.1.symm
  rcases s with ⟨type, items, properties, required, anyOf⟩
  rcases t with ⟨type', items', properties', required', anyOf'⟩
  simp only at hp hr hi htype hanyOf
  rw [hp, hr, hi, htype, hanyOf]

/-- The parts that go with its tag determine a fragment. -/
theorem CanonicalNode.eq_of_parts {s t : Schema} {tag : Tag} (hs : CanonicalNode s)
    (ht : CanonicalNode t) (hsOf : s.IsOf tag) (htOf : t.IsOf tag)
    (hitems : tag = .array ∨ tag = .map → s.items = t.items)
    (hproperties : tag = .object → ∀ name, s.property? name = t.property? name)
    (hrequired : tag = .object → ∀ name, name ∈ s.requiredNames ↔ name ∈ t.requiredNames) :
    s = t := by
  rcases tag_cases tag with hleaf | hcontainer | rfl
  · rw [hs.eq_ofTag hsOf hleaf, ht.eq_ofTag htOf hleaf]
  · rw [hs.eq_container hsOf hcontainer, ht.eq_container htOf hcontainer, hitems hcontainer]
  · exact hs.eq_object ht hsOf htOf (hproperties rfl) (hrequired rfl)

/-! ### Equal schemas -/

theorem IsCanonical.of_mem_fragments {s f : Schema} (h : s.IsCanonical) (hf : f ∈ s.fragments) :
    f.IsCanonical :=
  Everywhere.of_mem_fragments (fun _ => canonicalNode_ofTags (Or.inl List.length_singleton)) h f hf

/-- There is no integer beside a number. -/
theorem IsCanonical.absorbed {s f g : Schema} (h : s.IsCanonical) (hf : f ∈ s.fragments)
    (hg : g ∈ s.fragments) (hinteger : f.tag? = some .integer) (hnumber : g.tag? = some .number) :
    False := by
  rcases h.exists_arranged with ⟨tags, others, harranged, hfragments, _⟩
  -- Both are leaves, and what is canonical has leaves among its bare tags only.
  have hbare : ∀ e ∈ s.fragments, ∀ tag, e.tag? = some tag → tag.isContainer = false →
      tag ∈ tags := by
    intro e he tag htag hleaf
    have hof := isOf_of_mem_fragments he htag
    have heq := (h.of_mem_fragments he).here.eq_ofTag hof hleaf
    have hmem : e ∈ (tags.map ofTag ++ others).filter isSimple := by
      rw [List.mem_filter, ← hfragments]
      refine ⟨he, ?_⟩
      rw [heq]
      rfl
    rw [harranged.filter_isSimple, heq] at hmem
    rcases List.mem_map.1 hmem with ⟨other, hother, hsame⟩
    cases hsame
    exact hother
  exact harranged.absorbed ⟨hbare f hf .integer hinteger rfl, hbare g hg .number hnumber rfl⟩

/-- Fragments with ascending tags are determined by which they are. -/
theorem eq_of_ascending_tags {fs gs : List Schema} (hfs : ∀ f ∈ fs, ∃ tag, f.IsOf tag)
    (hf : (fs.filterMap tag?).Pairwise fun a b => a.index < b.index)
    (hg : (gs.filterMap tag?).Pairwise fun a b => a.index < b.index)
    (h : ∀ f, f ∈ fs ↔ f ∈ gs) : fs = gs := by
  rw [List.pairwise_filterMap] at hf hg
  -- Ascending tags leave no fragment twice, so both lists are permutations of each other.
  have hirrefl : ∀ f ∈ fs, ¬ ∀ a ∈ f.tag?, ∀ b ∈ f.tag?, a.index < b.index := by
    intro f hmem hlt
    rcases hfs f hmem with ⟨tag, hof⟩
    exact Nat.lt_irrefl _ (hlt tag hof.2 tag hof.2)
  have hnodup : ∀ {ls : List Schema}, (∀ f ∈ ls, f ∈ fs) →
      (ls.Pairwise fun f g => ∀ a ∈ f.tag?, ∀ b ∈ g.tag?, a.index < b.index) → ls.Nodup := by
    intro ls hls hlt
    refine hlt.imp_of_mem fun {f g} hf _ hfg heq => ?_
    rw [← heq] at hfg
    exact hirrefl f (hls f hf) hfg
  have hperm : fs.Perm gs :=
    (List.perm_ext_iff_of_nodup (hnodup (fun _ hf => hf) hf)
      (hnodup (fun f hf => (h f).2 hf) hg)).2 h
  -- Of two fragments in the order of their tags only one can come first.
  refine hperm.eq_of_pairwise (fun f g hmem hmem' hfg hgf => ?_) hf hg
  rcases hfs f hmem with ⟨s, hs⟩
  rcases hfs g ((h g).2 hmem') with ⟨t, ht⟩
  exact absurd (Nat.lt_trans (hfg s hs.2 t ht.2) (hgf t ht.2 s hs.2)) (Nat.lt_irrefl _)

/-- Canonical schemas with the same fragments are equal. -/
theorem IsCanonical.eq_of_fragments {a b : Schema} (ha : a.IsCanonical) (hb : b.IsCanonical)
    (h : ∀ f, f ∈ a.fragments ↔ f ∈ b.fragments) : a = b := by
  rcases ha.exists_arranged with ⟨tags, others, harranged, hfragments, hjoin⟩
  rcases hb.exists_arranged with ⟨tags', others', harranged', hfragments', hjoin'⟩
  rw [hfragments, hfragments'] at h
  -- The bare tags and the structured fragments can be told apart, and each have one order.
  have hbare : tags.map ofTag = tags'.map ofTag := by
    refine eq_of_ascending_tags (fun f hf => ?_) ?_ ?_ fun f => ?_
    · exact harranged.oneEach.isOf f (List.mem_append_left _ hf)
    · rw [filterMap_tag_map_ofTag]
      exact harranged.bare
    · rw [filterMap_tag_map_ofTag]
      exact harranged'.bare
    · rw [← harranged.filter_isSimple, ← harranged'.filter_isSimple, List.mem_filter,
        List.mem_filter, h f]
  have hothers : others = others' := by
    refine eq_of_ascending_tags (fun f hf => (harranged.structured f hf).2) harranged.ascending
      harranged'.ascending fun f => ?_
    rw [← harranged.filter_not_isSimple, ← harranged'.filter_not_isSimple, List.mem_filter,
      List.mem_filter, h f]
  rw [hjoin, hjoin', hbare, hothers]

/-- It is enough that one of them has the fragments of the other, and no tag
    that the other does not have. -/
theorem IsCanonical.eq_of_fragments_subset {a b : Schema} (ha : a.IsCanonical)
    (hb : b.IsCanonical) (hsubset : ∀ f ∈ a.fragments, f ∈ b.fragments)
    (htags : ∀ g ∈ b.fragments, ∀ tag, g.IsOf tag → ∃ f ∈ a.fragments, f.IsOf tag) : a = b := by
  refine ha.eq_of_fragments hb fun g => ⟨hsubset g, fun hg => ?_⟩
  -- A fragment with the same tag is another fragment of that schema, so it is this one.
  rcases hb.oneEach.isOf g hg with ⟨tag, hgOf⟩
  rcases htags g hg tag hgOf with ⟨f, hf, hfOf⟩
  rw [hb.oneEach.eq_of_isOf hg (hsubset f hf) hgOf hfOf]
  exact hf

end Schema

end SampleSchema
