import SampleSchema.Schema.Merge

/-!
# Taking Apart and Joining

What the fragments of a schema are like, and that joining keeps them.

A fragment offers nothing to choose from: it has no alternatives and no type
list, so taking it apart again gives it back. `IsAtomic` is that condition.
Merging unwraps what it has unwrapped before, at every level, and the lemmas
about `allFragments` say that nothing is lost or doubled by it.

A merge ends with at most one fragment for each tag, which it joins.
`OneEach` is what those fragments have in common. Joining moves the bare tags
among them to the front and packs them into one entry; taking the result apart
undoes the packing but not the moving. So the fragments of what was joined are
the joined fragments in another order, and within one tag, where order
matters, there is only one.

## Main definitions

* `Schema.IsAtomic`: A schema that is its own only fragment.
* `Schema.IsOf`: A fragment with a given tag.
* `Schema.OneEach`: Fragments of which no two share a tag.
* `Schema.bareTags`: The tags of the alternatives that are only a tag.

## Theorems

* `Schema.fragments_cases`: Induction along taking a schema apart.
* `Schema.isAtomic_of_mem_fragments`: Fragments are atomic.
* `Schema.allFragments_allFragments`: Taking apart twice is once.
* `Schema.join_eq`: How fragments with different tags are joined.
* `Schema.OneEach.fragments_perm`: Joining keeps the fragments.
* `Schema.tagged_fragments_joinFound`: It keeps them tag by tag.
-/

namespace SampleSchema

namespace Schema

/-! ### Atomic schemas -/

/-- There is nothing to choose from: no alternatives and no type list. -/
def IsAtomic (s : Schema) : Prop := s.anyOf = none ∧ ∀ tags, s.type ≠ some (.several tags)

theorem IsAtomic.fragments_eq {s : Schema} (h : s.IsAtomic) : s.fragments = [s] :=
  fragments_of_single h.1 h.2

theorem isAtomic_ofTag (tag : Tag) : (ofTag tag).IsAtomic :=
  ⟨rfl, fun tags h => by cases h⟩

/-- What holds of schemas without alternatives, and of a schema whenever it
    holds of its alternatives, holds of every schema. -/
theorem alternatives_induction {P : Schema → Prop} (none : ∀ s, s.anyOf = none → P s)
    (anyOf : ∀ s alternatives, s.anyOf = some alternatives → (∀ a ∈ alternatives, P a) → P s)
    (s : Schema) : P s := by
  induction s using Schema.induction with
  | step s ih =>
      cases ha : s.anyOf with
      | none => exact none s ha
      | some alternatives =>
          exact anyOf s alternatives ha fun a ha' => ih a (mem_children_of_anyOf ha ha')

/-- Taking apart meets three kinds of node: alternatives, a type list, and one
    that is its own fragment. -/
theorem fragments_cases {P : Schema → Prop}
    (anyOf : ∀ s alternatives, s.anyOf = some alternatives → (∀ a ∈ alternatives, P a) → P s)
    (several : ∀ s tags, s.anyOf = none → s.type = some (.several tags) → P s)
    (atomic : ∀ s, s.IsAtomic → P s) (s : Schema) : P s := by
  induction s using alternatives_induction with
  | none s ha =>
      by_cases ht : ∃ tags, s.type = some (.several tags)
      · rcases ht with ⟨tags, ht⟩
        exact several s tags ha ht
      · exact atomic s ⟨ha, fun tags h => ht ⟨tags, h⟩⟩
  | anyOf s alternatives ha ih => exact anyOf s alternatives ha ih

/-- Fragments are atomic. -/
theorem isAtomic_of_mem_fragments (s : Schema) : ∀ f ∈ s.fragments, f.IsAtomic := by
  induction s using fragments_cases with
  | anyOf s alternatives ha ih =>
      intro f hf
      rw [fragments_of_anyOf ha, allFragments, List.mem_flatMap] at hf
      rcases hf with ⟨a, ha', hf⟩
      exact ih a ha' f hf
  | several s tags ha ht =>
      intro f hf
      rw [fragments_of_several ha ht, List.mem_map] at hf
      rcases hf with ⟨tag, _, rfl⟩
      exact isAtomic_ofTag tag
  | atomic s hs =>
      intro f hf
      rw [hs.fragments_eq, List.mem_singleton] at hf
      rw [hf]
      exact hs

theorem isAtomic_of_mem_allFragments {xs : List Schema} {f : Schema} (hf : f ∈ allFragments xs) :
    f.IsAtomic := by
  rcases List.mem_flatMap.1 hf with ⟨x, _, hf⟩
  exact isAtomic_of_mem_fragments x f hf

theorem allFragments_nil : allFragments [] = [] := rfl

theorem allFragments_cons (x : Schema) (xs : List Schema) :
    allFragments (x :: xs) = x.fragments ++ allFragments xs := List.flatMap_cons

theorem allFragments_append (xs ys : List Schema) :
    allFragments (xs ++ ys) = allFragments xs ++ allFragments ys := List.flatMap_append

theorem allFragments_singleton (x : Schema) : allFragments [x] = x.fragments := by
  rw [allFragments_cons, allFragments_nil, List.append_nil]

theorem allFragments_of_isAtomic {fs : List Schema} (h : ∀ f ∈ fs, f.IsAtomic) :
    allFragments fs = fs := by
  induction fs with
  | nil => rfl
  | cons f fs ih =>
      rw [allFragments_cons, (h f List.mem_cons_self).fragments_eq,
        ih fun g hg => h g (List.mem_cons_of_mem _ hg)]
      rfl

/-- Taking apart twice is taking apart once. -/
theorem allFragments_allFragments (xs : List Schema) :
    allFragments (allFragments xs) = allFragments xs :=
  allFragments_of_isAtomic fun _ hf => isAtomic_of_mem_allFragments hf

theorem allFragments_fragments (s : Schema) : allFragments s.fragments = s.fragments :=
  allFragments_of_isAtomic (isAtomic_of_mem_fragments s)

/-- The fragments of the parts of some schemas. -/
theorem mem_parts_iff {part : Schema → Option Schema} {fs : List Schema} {g : Schema} :
    g ∈ allFragments (fs.filterMap part) ↔ ∃ f ∈ fs, ∃ c, part f = some c ∧ g ∈ c.fragments := by
  rw [allFragments, List.mem_flatMap]
  constructor
  · rintro ⟨c, hc, hg⟩
    rcases List.mem_filterMap.1 hc with ⟨f, hf, hc⟩
    exact ⟨f, hf, c, hc, hg⟩
  · rintro ⟨f, hf, c, hc, hg⟩
    exact ⟨c, List.mem_filterMap.2 ⟨f, hf, hc⟩, hg⟩

/-! ### Fragments by tag -/

/-- A tag is a leaf, or that of an array or a map, or that of an object. -/
theorem tag_cases (tag : Tag) :
    tag.isContainer = false ∨ (tag = .array ∨ tag = .map) ∨ tag = .object := by
  cases tag <;> decide

theorem isContainer_of_list {tag : Tag} (ht : tag = .array ∨ tag = .map) : tag.isContainer := by
  rcases ht with rfl | rfl <;> rfl

theorem tag?_eq_some_iff {s : Schema} {tag : Tag} :
    s.tag? = some tag ↔ s.type = some (.single tag) := by
  unfold tag?
  split
  · next h => rw [h]; simp only [Option.some.injEq, TypeSpec.single.injEq]
  · next h =>
      constructor
      · intro hn
        cases hn
      · intro ht
        exact absurd ht (h tag)

/-- A fragment with the tag. -/
def IsOf (tag : Tag) (s : Schema) : Prop := s.anyOf = none ∧ s.tag? = some tag

theorem IsOf.isAtomic {tag : Tag} {s : Schema} (h : s.IsOf tag) : s.IsAtomic := by
  refine ⟨h.1, fun tags ht => ?_⟩
  rw [tag?_eq_some_iff.1 h.2] at ht
  cases ht

theorem isOf_ofTag (tag : Tag) : (ofTag tag).IsOf tag := ⟨rfl, rfl⟩

theorem isOf_container (tag : Tag) (items : Option Schema) : (container tag items).IsOf tag :=
  ⟨rfl, rfl⟩

theorem isOf_object (properties : Keyed Schema) (required : Option (List String)) :
    (object properties required).IsOf .object := ⟨rfl, rfl⟩

theorem mem_tagged_iff {tag : Tag} {fs : List Schema} {f : Schema} :
    f ∈ tagged tag fs ↔ f ∈ fs ∧ f.tag? = some tag := by
  rw [tagged, List.mem_filter, beq_iff_eq]

theorem tagged_append (tag : Tag) (fs gs : List Schema) :
    tagged tag (fs ++ gs) = tagged tag fs ++ tagged tag gs := List.filter_append fs gs

theorem isOf_of_mem_fragments {s f : Schema} {tag : Tag} (hf : f ∈ s.fragments)
    (htag : f.tag? = some tag) : f.IsOf tag := ⟨(isAtomic_of_mem_fragments s f hf).1, htag⟩

theorem isOf_of_mem_tagged {tag : Tag} {xs : List Schema} {f : Schema}
    (hf : f ∈ tagged tag (allFragments xs)) : f.IsOf tag := by
  rcases mem_tagged_iff.1 hf with ⟨hmem, htag⟩
  exact ⟨(isAtomic_of_mem_allFragments hmem).1, htag⟩

/-! ### Joining fragments with different tags -/

/-- A tag with nothing beside it is only that tag. -/
theorem eq_ofTag_of_isSimple {s : Schema} {tag : Tag} (hs : s.isSimple) (ht : s.tag? = some tag) :
    s = ofTag tag := by
  have htype := tag?_eq_some_iff.1 ht
  rcases s with ⟨type, items, properties, required, anyOf⟩
  simp only [isSimple, Bool.and_eq_true, Option.isNone_iff_eq_none] at hs
  rcases hs with ⟨⟨⟨⟨_, rfl⟩, rfl⟩, rfl⟩, rfl⟩
  simp only at htype
  rw [htype]
  rfl

theorem simpleTags?_of_tag {s : Schema} {tag : Tag} (ht : s.tag? = some tag) :
    s.simpleTags? = if s.isSimple then some [tag] else none := by
  rw [simpleTags?, tag?_eq_some_iff.1 ht]

/-- The tags of the alternatives that are only a tag. -/
def bareTags (alternatives : List Schema) : List Tag :=
  (alternatives.filter isSimple).filterMap tag?

/-- Fragments of which each has a tag, and no two the same. -/
structure OneEach (found : List Schema) : Prop where
  /-- Each has a tag and no alternatives. -/
  isOf : ∀ s ∈ found, ∃ tag, s.IsOf tag
  /-- No tag occurs twice. -/
  nodup : (found.filterMap tag?).Nodup

theorem eraseDups_of_nodup {α : Type} [DecidableEq α] {l : List α} (h : l.Nodup) :
    l.eraseDups = l := by
  induction l with
  | nil => rfl
  | cons a as ih =>
      rcases List.nodup_cons.1 h with ⟨hnot, hrest⟩
      have hkeep : (as.filter fun b => !b == a) = as := by
        refine List.filter_eq_self.2 fun b hb => ?_
        have hne : b ≠ a := fun he => hnot (he ▸ hb)
        rw [beq_eq_false_iff_ne.2 hne, Bool.not_false]
      rw [List.eraseDups_cons, hkeep, ih hrest]

namespace OneEach

variable {found : List Schema}

theorem isAtomic (h : OneEach found) : ∀ s ∈ found, s.IsAtomic := by
  intro s hs
  rcases h.isOf s hs with ⟨tag, hof⟩
  exact hof.isAtomic

theorem of_cons {s : Schema} (h : OneEach (s :: found)) : OneEach found := by
  rcases h.isOf s List.mem_cons_self with ⟨tag, hof⟩
  have hnodup := h.nodup
  rw [List.filterMap_cons_some hof.2] at hnodup
  exact ⟨fun f hf => h.isOf f (List.mem_cons_of_mem _ hf), (List.nodup_cons.1 hnodup).2⟩

theorem flatten_simpleTags (h : OneEach found) :
    (found.filterMap simpleTags?).flatten = bareTags found := by
  induction found with
  | nil => rfl
  | cons s found ih =>
      rcases h.isOf s List.mem_cons_self with ⟨tag, hof⟩
      unfold bareTags at ih ⊢
      have hsimple := simpleTags?_of_tag hof.2
      by_cases hs : s.isSimple
      · rw [if_pos hs] at hsimple
        rw [List.filterMap_cons_some hsimple, List.filter_cons_of_pos hs,
          List.filterMap_cons_some hof.2, List.flatten_cons, ih h.of_cons]
        rfl
      · rw [if_neg hs] at hsimple
        rw [List.filterMap_cons_none hsimple, List.filter_cons_of_neg hs, ih h.of_cons]

theorem nodup_bareTags (h : OneEach found) : (bareTags found).Nodup :=
  h.nodup.sublist (List.filter_sublist.filterMap tag?)

theorem map_ofTag_bareTags (h : OneEach found) :
    (bareTags found).map ofTag = found.filter isSimple := by
  induction found with
  | nil => rfl
  | cons s found ih =>
      rcases h.isOf s List.mem_cons_self with ⟨tag, hof⟩
      unfold bareTags at ih ⊢
      by_cases hs : s.isSimple
      · rw [List.filter_cons_of_pos hs, List.filterMap_cons_some hof.2, List.map_cons,
          ih h.of_cons, eq_ofTag_of_isSimple hs hof.2]
      · rw [List.filter_cons_of_neg hs, ih h.of_cons]

theorem isNone_simpleTags (h : OneEach found) :
    (found.filter fun a => a.simpleTags?.isNone) = found.filter fun a => !a.isSimple := by
  refine List.filter_congr fun s hs => ?_
  rcases h.isOf s hs with ⟨tag, hof⟩
  rw [simpleTags?_of_tag hof.2]
  by_cases hsimple : s.isSimple
  · rw [if_pos hsimple, hsimple]
    rfl
  · rw [if_neg hsimple, eq_false_of_ne_true hsimple]
    rfl

/-- Fragments with different tags are joined without dropping a tag: the bare
    tags make one entry, and the others follow. -/
theorem join_eq (h : OneEach found) :
    join found =
      if (found.filter fun a => !a.isSimple).isEmpty then ofTags (bareTags found)
      else union ((if (bareTags found).isEmpty then [] else [ofTags (bareTags found)]) ++
        found.filter fun a => !a.isSimple) := by
  rw [join, h.flatten_simpleTags, eraseDups_of_nodup h.nodup_bareTags, h.isNone_simpleTags]

end OneEach

theorem fragments_ofTags (tags : List Tag) : (ofTags tags).fragments = tags.map ofTag := by
  unfold ofTags
  cases tags with
  | nil => exact fragments_of_several rfl rfl
  | cons tag tags =>
      cases tags with
      | nil => exact (isAtomic_ofTag tag).fragments_eq
      | cons tag' tags => exact fragments_of_several rfl rfl

theorem fragments_union (alternatives : List Schema) :
    (union alternatives).fragments = allFragments alternatives := fragments_of_anyOf rfl

/-- The bare tags come first among the fragments of what was joined. -/
theorem OneEach.fragments_join {found : List Schema} (h : OneEach found) :
    (join found).fragments = found.filter isSimple ++ found.filter fun a => !a.isSimple := by
  have hothers : allFragments (found.filter fun a => !a.isSimple)
      = found.filter fun a => !a.isSimple :=
    allFragments_of_isAtomic fun s hs => h.isAtomic s (List.mem_filter.1 hs).1
  rw [h.join_eq, ← h.map_ofTag_bareTags]
  by_cases hempty : (found.filter fun a => !a.isSimple).isEmpty
  · rw [if_pos hempty, List.isEmpty_iff.1 hempty, List.append_nil, fragments_ofTags]
  · -- The entry for the bare tags is only there if there are any.
    rw [if_neg hempty, fragments_union, allFragments_append, hothers]
    by_cases hbare : (bareTags found).isEmpty
    · rw [if_pos hbare, List.isEmpty_iff.1 hbare]
      rfl
    · rw [if_neg hbare, allFragments_singleton, fragments_ofTags]

/-- Joining keeps the fragments, in some order. -/
theorem OneEach.fragments_perm {found : List Schema} (h : OneEach found) :
    (joinFound found).fragments.Perm found := by
  unfold joinFound
  split
  · next s =>
      rw [(h.isAtomic s List.mem_cons_self).fragments_eq]
  · rw [h.fragments_join]
    exact List.filter_append_perm isSimple found

/-! ### One fragment for each tag -/

theorem filterMap_eq_toList {α β : Type} {f : α → Option β} {l : List α} {a : α}
    (hl : l.Nodup) (ha : a ∈ l) (hf : ∀ b, b ≠ a → f b = none) :
    l.filterMap f = (f a).toList := by
  induction l with
  | nil => exact absurd ha List.not_mem_nil
  | cons b bs ih =>
      rcases List.nodup_cons.1 hl with ⟨hnot, hrest⟩
      rw [List.filterMap_cons]
      by_cases hb : b = a
      · -- The element itself, which does not come again.
        subst hb
        have hnone : bs.filterMap f = [] :=
          List.filterMap_eq_nil_iff.2 fun c hc => hf c fun he => hnot (he ▸ hc)
        rw [hnone]
        cases f b <;> rfl
      · rw [hf b hb]
        exact ih hrest ((List.mem_cons.1 ha).resolve_left (Ne.symm hb))

variable {r : Tag → Option Schema}

theorem filterMap_tag_filterMap (hr : ∀ tag s, r tag = some s → s.IsOf tag) (l : List Tag) :
    (l.filterMap r).filterMap tag? = l.filter fun tag => (r tag).isSome := by
  rw [List.filterMap_filterMap, ← List.filterMap_eq_filter]
  refine congrArg (fun f => l.filterMap f) (funext fun tag => ?_)
  cases h : r tag with
  | none => simp only [Option.bind_none, Option.guard, h, Option.isSome_none, Bool.false_eq_true,
      if_false]
  | some s => simp only [Option.bind_some, Option.guard, h, Option.isSome_some, if_true,
      (hr tag s h).2]

/-- What is found tag by tag has each tag at most once. -/
theorem oneEach_filterMap (hr : ∀ tag s, r tag = some s → s.IsOf tag) :
    OneEach (Tag.all.filterMap r) := by
  refine ⟨fun s hs => ?_, ?_⟩
  · rcases List.mem_filterMap.1 hs with ⟨tag, _, htag⟩
    exact ⟨tag, hr tag s htag⟩
  · rw [filterMap_tag_filterMap hr]
    exact Tag.nodup_all.filter _

theorem tagged_filterMap (hr : ∀ tag s, r tag = some s → s.IsOf tag) (tag : Tag) :
    tagged tag (Tag.all.filterMap r) = (r tag).toList := by
  rw [tagged, List.filter_filterMap]
  rw [filterMap_eq_toList Tag.nodup_all (Tag.mem_all tag)]
  · cases h : r tag with
    | none => rfl
    | some s => rw [Option.filter_some, (hr tag s h).2, beq_self_eq_true]; rfl
  · intro other hne
    cases h : r other with
    | none => rfl
    | some s =>
        have hfalse : (s.tag? == some tag) = false := by
          rw [(hr other s h).2]
          exact beq_eq_false_iff_ne.2 fun he => hne (Option.some.inj he)
        rw [Option.filter_some, hfalse]
        rfl

/-- Joining keeps what was found, tag by tag. -/
theorem tagged_fragments_joinFound (hr : ∀ tag s, r tag = some s → s.IsOf tag) (tag : Tag) :
    tagged tag (joinFound (Tag.all.filterMap r)).fragments = (r tag).toList := by
  have hperm : (tagged tag (joinFound (Tag.all.filterMap r)).fragments).Perm (r tag).toList := by
    rw [← tagged_filterMap hr]
    exact (oneEach_filterMap hr).fragments_perm.filter _
  -- At most one schema is left, and then there is only one order.
  cases h : r tag with
  | none =>
      rw [h] at hperm
      exact hperm.eq_nil
  | some s =>
      rw [h] at hperm
      exact hperm.eq_singleton

end Schema

end SampleSchema
