import SampleSchema.Proofs.Blocks
import SampleSchema.Proofs.Equivalence
import SampleSchema.Proofs.Exemplars

/-!
# Covering Oneself

Which schemas cover themselves.

A schema covers another when merging the other into it gives nothing new. This
is a comparison of what was written with what a merge makes of it, and a merge
does more than to add. It brings fragments with one tag together, it lets a
number take the integers in, and it leaves out items that offer nothing. So
where there is something of the kind to do, a merge of the schema with itself
is not the same schema any more. It has fewer fragments somewhere, or no items
where there were some, and a comparison sees that. Such a schema accepts all
that it accepts, and still it does not cover itself.

`isReduced` says that a merge has nothing to do, at any depth. It only looks
at what a fragment describes, which are the items of an array and the
properties of an object. What else stands beside a tag is never merged.

Spelling alone is no obstacle. The tags of a list and the alternatives of a
union may come in any order, and an object may require a name twice. And what
the library writes is reduced, so that it does cover itself.

The proof goes tag by tag. A merge of a schema with itself finds every
fragment twice. Where a tag has a single fragment, the two copies become one
fragment again, and what it describes has been merged with itself: there the
induction hypothesis applies. No property is taken over unmerged on the way,
since what is said about it is found twice and so is never a single fragment.

## Main definitions

* `Schema.described`: What a fragment describes.
* `Schema.isReduced`: A merge has nothing to do.

## Theorems

* `Schema.part_of_reduce_twice`: What becomes of the parts of a fragment that
  is found twice.
* `Schema.equal_merge_twice_iff`: Merging a schema with itself changes nothing
  when it is reduced.
* `Schema.covers_self`: The reduced schemas cover themselves, and no others.
* `Schema.covers_of_isCanonical`: Canonical schemas cover themselves.
-/

namespace SampleSchema

namespace Schema

variable {tag : Tag} {f t c : Schema}

/-! ### Reduced schemas -/

/-- What a fragment describes: the items of an array or a map, and the
    properties of an object. -/
def described (f : Schema) : List Schema :=
  match f.tag? with
  | some .array | some .map => f.items.toList
  | some .object => (f.properties.map Keyed.values).getD []
  | _ => []

theorem mem_children_of_described (h : c ∈ f.described) : c ∈ f.children := by
  unfold described at h
  unfold children
  split at h
  · exact List.mem_append_left _ (List.mem_append_left _ h)
  · exact List.mem_append_left _ (List.mem_append_left _ h)
  · exact List.mem_append_left _ (List.mem_append_right _ h)
  · cases h

/-- A merge has nothing to do: there are fragments, no two of them with one
    tag, and no integer beside a number, and all that they describe is
    reduced. -/
def isReduced (s : Schema) : Bool :=
  let tags := s.fragments.filterMap tag?
  !s.fragments.isEmpty && decide tags.Nodup && !(tags.contains .integer && tags.contains .number) &&
    s.fragments.attach.all fun f => f.1.described.attach.all fun c => c.1.isReduced
termination_by s.height
decreasing_by
  exact Nat.lt_of_lt_of_le (height_lt (mem_children_of_described c.2))
    (height_le_of_mem_fragments s f.1 f.2)

theorem isReduced_iff {s : Schema} :
    s.isReduced ↔ s.fragments ≠ [] ∧ (s.fragments.filterMap tag?).Nodup ∧
      ¬ (.integer ∈ s.fragments.filterMap tag? ∧ .number ∈ s.fragments.filterMap tag?) ∧
      ∀ f ∈ s.fragments, ∀ c ∈ f.described, c.isReduced := by
  rw [isReduced]
  simp only [List.all_subtype, List.unattach_attach, Bool.and_eq_true, Bool.not_eq_true',
    decide_eq_true_eq, List.all_eq_true, and_assoc, ← Bool.not_eq_true, List.contains_iff_mem,
    List.isEmpty_iff, ne_eq]

/-- What a fragment with a tag describes are its parts. -/
theorem mem_described_iff (htag : f.tag? = some tag) :
    c ∈ f.described ↔ ∃ name, f.part tag name = some c := by
  unfold described
  rw [htag]
  rcases tag_cases tag with ht | ht | rfl
  · simp only [part_leaf ht, reduceCtorEq, exists_false, iff_false]
    cases tag <;> first | exact List.not_mem_nil | cases ht
  · simp only [part_container ht, exists_const]
    rcases ht with rfl | rfl <;> exact Option.mem_toList
  · unfold part property?
    cases f.properties with
    | none => simp only [Option.map_none, Option.getD_none, List.not_mem_nil, Option.bind_none,
        reduceCtorEq, exists_false]
    | some properties =>
        simp only [Option.map_some, Option.getD_some, Option.bind_some, Keyed.values, List.mem_map,
          Prod.exists, exists_eq_right, Keyed.mem_toList_iff]

theorem described_of_untyped (htag : f.tag? = none) : f.described = [] := by
  unfold described
  rw [htag]

theorem count_tags (tag : Tag) (fs : List Schema) :
    (fs.filterMap tag?).count tag = (tagged tag fs).length := by
  rw [List.count_filterMap, List.countP_eq_length_filter]
  rfl

theorem mem_tags_iff {fs : List Schema} : tag ∈ fs.filterMap tag? ↔ tagged tag fs ≠ [] := by
  rw [← List.count_pos_iff, count_tags, List.length_pos_iff]

/-- Tag by tag: there is no fragment, or a single one that a merge keeps, and
    all that it describes is reduced. -/
theorem isReduced_iff_tagged {s : Schema} (hne : s.fragments ≠ []) :
    s.isReduced ↔ ∀ tag, tagged tag s.fragments = [] ∨
      ∃ f, tagged tag s.fragments = [f] ∧ ¬ (tag = .integer ∧ tagged .number s.fragments ≠ []) ∧
        ∀ c ∈ f.described, c.isReduced := by
  rw [isReduced_iff, and_iff_right hne, List.nodup_iff_count_le_one]
  simp only [count_tags, mem_tags_iff]
  constructor
  · rintro ⟨hone, habsorb, hinside⟩ tag
    -- A tag that occurs once at most has one fragment at most.
    have hlength := hone tag
    cases hb : tagged tag s.fragments with
    | nil => exact Or.inl rfl
    | cons f fs =>
        rw [hb, List.length_cons] at hlength
        have hfs : fs = [] := List.length_eq_zero_iff.1 (by omega)
        have hf : f ∈ tagged tag s.fragments := by
          rw [hb]
          exact List.mem_cons_self
        refine Or.inr ⟨f, by rw [hfs], ?_, hinside f (mem_tagged_iff.1 hf).1⟩
        rintro ⟨rfl, hnumber⟩
        exact habsorb ⟨List.ne_nil_of_mem hf, hnumber⟩
  · intro h
    refine ⟨fun tag => ?_, ?_, fun f hf c hc => ?_⟩
    · rcases h tag with hb | ⟨f, hb, _⟩
      · rw [hb]
        exact Nat.zero_le 1
      · rw [hb]
        exact Nat.le_refl 1
    · rintro ⟨hinteger, hnumber⟩
      rcases h .integer with hb | ⟨_, _, hkept, _⟩
      · exact hinteger hb
      · exact hkept ⟨rfl, hnumber⟩
    · cases htag : f.tag? with
      | none =>
          rw [described_of_untyped htag] at hc
          cases hc
      | some tag =>
          have hmem : f ∈ tagged tag s.fragments := mem_tagged_iff.2 ⟨hf, htag⟩
          rcases h tag with hb | ⟨g, hb, _, hinside⟩
          · rw [hb] at hmem
            cases hmem
          · rw [hb, List.mem_singleton] at hmem
            subst hmem
            exact hinside c hc

/-! ### A fragment that is found twice -/

section Twice

variable {o : MergeOptions}

theorem allFragments_twice (c : Schema) : allFragments [c, c] = c.fragments ++ c.fragments := by
  rw [allFragments_cons, allFragments_singleton]

/-- A part of a fragment that is found twice is found twice. -/
theorem parts_twice {part : Schema → Option Schema} (hc : part f = some c) :
    allFragments ([f, f].filterMap part) = allFragments [c, c] := by
  rw [List.filterMap_cons_some hc, List.filterMap_cons_some hc, List.filterMap_nil]

theorem mergeItems_twice {items : Option Schema} (h : mergeItems o (allFragments [c, c]) = .ok items) :
    (c.fragments = [] ∧ items = none) ∨ ∃ m, merge o [c, c] = .ok m ∧ items = some m := by
  rw [← merge_allFragments]
  by_cases hnil : c.fragments = []
  · rw [allFragments_twice, hnil] at h
    cases h
    exact Or.inl ⟨hnil, rfl⟩
  · have hne : allFragments [c, c] ≠ [] := by
      rw [allFragments_twice]
      exact List.append_ne_nil_of_left_ne_nil hnil _
    rw [mergeItems_of_ne_nil hne] at h
    rcases bind_eq_ok_iff.1 h with ⟨m, hm, h⟩
    cases h
    exact Or.inr ⟨m, hm, rfl⟩

/-- A property is merged with itself, since it does not have just one fragment. -/
theorem mergeProperty_twice {p : Schema} (h : mergeProperty o (allFragments [c, c]) = .ok p) :
    merge o [c, c] = .ok p := by
  rcases mergeProperty_cases h with hone | ⟨_, hmerge⟩
  · have hlength := congrArg List.length hone
    rw [allFragments_twice, List.length_append, List.length_singleton] at hlength
    omega
  · rw [merge_allFragments] at hmerge
    exact hmerge

/-- What becomes of the parts of a fragment that is found twice: each has been
    merged with itself. Only items that offer nothing are left out. -/
theorem part_of_reduce_twice (h : reduce o tag [f, f] = .ok (some t)) (name : String) :
    (f.part tag name = none ∧ t.part tag name = none) ∨
      ∃ c, f.part tag name = some c ∧
        ((c.fragments = [] ∧ t.part tag name = none) ∨
          ∃ m, merge o [c, c] = .ok m ∧ t.part tag name = some m) := by
  rcases reduce_cases h with ⟨ht, _⟩ | ⟨ht, items, hitems, rfl⟩ | ⟨rfl, properties, hproperties, rfl⟩
  · exact Or.inl ⟨part_leaf ht name f, part_leaf ht name t⟩
  · rw [part_container ht, part_container ht, items_container]
    cases hc : f.items with
    | none =>
        have hnil : itemFragments [f, f] = [] := by
          rw [itemFragments, List.filterMap_cons_none hc, List.filterMap_cons_none hc]
          rfl
        rw [hnil] at hitems
        cases hitems
        exact Or.inl ⟨rfl, rfl⟩
    | some c =>
        rw [itemFragments, parts_twice hc] at hitems
        exact Or.inr ⟨c, rfl, mergeItems_twice hitems⟩
  · unfold part
    rw [property?_object]
    cases hc : f.property? name with
    | none =>
        refine Or.inl ⟨rfl, get?_of_mergeProperties_eq_none hproperties fun hname => ?_⟩
        rcases List.mem_flatMap.1 hname with ⟨g, hg, hname⟩
        rcases mem_propertyNames_iff.1 hname with ⟨c, hc'⟩
        have hgf : g = f := by simpa using hg
        rw [hgf, hc] at hc'
        cases hc'
    | some c =>
        have hname : name ∈ [f, f].flatMap propertyNames :=
          List.mem_flatMap.2 ⟨f, List.mem_cons_self, mem_propertyNames_iff.2 ⟨c, hc⟩⟩
        rcases get?_of_mergeProperties hproperties hname with ⟨p, hp, hmerged⟩
        rw [propertyFragments, parts_twice hc] at hmerged
        exact Or.inr ⟨c, rfl, Or.inr ⟨p, mergeProperty_twice hmerged, hp⟩⟩

/-- The requirements of an object that is found twice stay. -/
theorem mem_requiredNames_of_reduce_twice (h : reduce {} .object [f, f] = .ok (some t))
    (name : String) : name ∈ t.requiredNames ↔ name ∈ f.requiredNames := by
  rw [reduce_object (List.cons_ne_nil f [f])] at h
  rcases bind_eq_ok_iff.1 h with ⟨properties, _, h⟩
  cases h
  rw [requiredNames_object]
  change name ∈ commonNames [f.requiredNames, f.requiredNames] ↔ _
  rw [mem_commonNames_iff (List.cons_ne_nil _ _)]
  simp only [List.forall_mem_cons, List.not_mem_nil, false_imp_iff, implies_true, and_true, and_self]

/-- A fragment that is found twice becomes an equal one just when all that it
    describes is reduced, if this is how it is for what it describes. -/
theorem sameTagged_reduce_twice_iff (htag : f.tag? = some tag)
    (h : reduce {} tag [f, f] = .ok (some t))
    (ih : ∀ c ∈ f.described, ∀ m, merge {} [c, c] = .ok m → (equal {} m c ↔ c.isReduced)) :
    sameTagged {} tag t f ↔ ∀ c ∈ f.described, c.isReduced := by
  have hpart : ∀ name, Option.Rel (fun d c => equal {} d c) (t.part tag name) (f.part tag name) ↔
      ∀ c, f.part tag name = some c → c.isReduced := by
    intro name
    rcases part_of_reduce_twice h name with ⟨hf, ht⟩ | ⟨c, hf, ⟨hnil, ht⟩ | ⟨m, hm, ht⟩⟩
    · simp only [hf, ht, Option.rel_none_none, reduceCtorEq, false_imp_iff, implies_true]
    · -- The items that are missing offer nothing, so they are not reduced.
      have hc : ¬ c.isReduced := fun hc => (isReduced_iff.1 hc).1 hnil
      simp only [hf, ht, Option.not_rel_none_some, Option.some.injEq, forall_eq', hc,
        Bool.false_eq_true]
    · simp only [hf, ht, Option.rel_some_some, Option.some.injEq, forall_eq']
      exact ih c ((mem_described_iff htag).2 ⟨name, hf⟩) m hm
  rw [sameTagged_iff_parts, and_iff_left, forall_congr' hpart]
  · simp only [mem_described_iff htag, forall_exists_index]
    exact forall_comm
  · -- Only objects have requirements, and theirs have not changed.
    rintro rfl
    exact Or.inr (mem_requiredNames_of_reduce_twice h)

end Twice

/-! ### Covering -/

theorem tagged_absorb_twice (tag : Tag) (fs : List Schema) :
    tagged tag (absorb (fs ++ fs)) =
      if tag = .integer ∧ tagged .number fs ≠ [] then [] else tagged tag fs ++ tagged tag fs := by
  rw [tagged_absorb, tagged_append, tagged_append]
  simp only [ne_eq, List.append_eq_nil_iff, and_self]

/-- Under one tag a merge of some fragments with themselves finds partners for
    all of them just when there are none, or a single one that is kept and
    describes what is reduced. -/
theorem paired_reduce_twice_iff {fs : List Schema} {r : Option Schema}
    (h : reduce {} tag (tagged tag (absorb (fs ++ fs))) = .ok r)
    (ih : ∀ f ∈ fs, ∀ c ∈ f.described, ∀ m, merge {} [c, c] = .ok m →
      (equal {} m c ↔ c.isReduced)) :
    Paired (fun s f => sameTagged {} tag s f) r.toList (tagged tag fs) ↔
      tagged tag fs = [] ∨
        ∃ f, tagged tag fs = [f] ∧ ¬ (tag = .integer ∧ tagged .number fs ≠ []) ∧
          ∀ c ∈ f.described, c.isReduced := by
  rw [tagged_absorb_twice] at h
  by_cases hdropped : tag = .integer ∧ tagged .number fs ≠ []
  · -- There are no integers any more, so there must not have been any.
    rw [if_pos hdropped, reduce_nil] at h
    cases h
    constructor
    · intro hpaired
      exact Or.inl (hpaired.eq_nil_iff.1 rfl)
    · rintro (hnil | ⟨f, _, hkept, _⟩)
      · rw [hnil]
        exact .nil
      · exact absurd hdropped hkept
  rw [if_neg hdropped] at h
  cases hb : tagged tag fs with
  | nil =>
      rw [hb] at h
      cases h
      simp only [true_or, iff_true]
      exact .nil
  | cons f others =>
      rw [hb] at h
      cases r with
      | none => cases eq_nil_of_reduce_none h
      | some t =>
          have hf : f ∈ tagged tag fs := by
            rw [hb]
            exact List.mem_cons_self
          have hfs : f ∈ fs := (mem_tagged_iff.1 hf).1
          have htag : f.tag? = some tag := (mem_tagged_iff.1 hf).2
          -- All copies have become one fragment, so there must have been just one.
          rw [Option.toList_some, Paired.singleton_left_iff]
          simp only [List.cons.injEq, reduceCtorEq, false_or, hdropped, not_false_eq_true, true_and]
          refine exists_congr fun g => and_congr_right ?_
          rintro ⟨rfl, rfl⟩
          exact sameTagged_reduce_twice_iff htag h (ih f hfs)

/-- Merging a schema with itself changes nothing when it is reduced, by
    induction on what is inside its fragments. -/
theorem equal_merge_twice_iff (s : Schema) :
    ∀ m, merge {} [s, s] = .ok m → (equal {} m s ↔ s.isReduced) := by
  induction s using fragment_induction with
  | step s ih =>
      intro m h
      have hrefusal := refusal?_eq_none_iff.1 (merge_eq_ok_iff.1 h).1
      rcases exists_of_merge_ok h with ⟨r, hr, hof, rfl⟩
      rw [allFragments_twice] at hrefusal hr
      have hne : s.fragments ≠ [] := fun hnil => hrefusal.1 (by rw [hnil]; rfl)
      have htyped : ∀ f ∈ s.fragments, ∃ tag, f.tag? = some tag :=
        fun f hf => hrefusal.2 f (List.mem_append_left _ hf)
      -- Both sides have tags throughout, so that they are compared tag by tag.
      have hfound : ∀ t ∈ (joinFound (Tag.all.filterMap r)).fragments, ∃ tag, t.tag? = some tag := by
        intro t ht
        rcases (oneEach_filterMap hof).isOf t
          ((oneEach_filterMap hof).fragments_perm.mem_iff.1 ht) with ⟨tag, htag⟩
        exact ⟨tag, htag.2⟩
      rw [equal_iff_tagged hfound htyped, isReduced_iff_tagged hne]
      refine forall_congr' fun tag => ?_
      rw [tagged_fragments_joinFound hof]
      exact paired_reduce_twice_iff (hr tag) fun f hf c hc =>
        ih f hf c (mem_children_of_described hc)

/-- The reduced schemas cover themselves, and no others that can be merged with
    themselves. -/
theorem covers_self (s m : Schema) (h : merge {} [s, s] = .ok m) :
    covers s s = .ok s.isReduced := by
  unfold covers
  rw [h]
  change Except.ok (equal {} m s) = .ok s.isReduced
  rw [Bool.eq_iff_iff.2 (equal_merge_twice_iff s m h)]

/-- A list with an integer beside a number does not cover itself: the merge has
    the number only. -/
theorem covers_self_integer_number :
    covers (ofTags [.integer, .number]) (ofTags [.integer, .number]) = .ok false := by
  have hmerge : merge {} [ofTags [.integer, .number], ofTags [.integer, .number]] =
      .ok (ofTag .number) := by
    cbv
  have hreduced : (ofTags [.integer, .number]).isReduced = false := by
    cbv
  rw [covers_self _ _ hmerge, hreduced]

/-! ### Canonical schemas -/

/-- What the library writes is reduced, by induction on what is inside its
    fragments. -/
theorem isReduced_of_isCanonical (s : Schema) : s.IsCanonical → s.isReduced := by
  induction s using fragment_induction with
  | step s ih =>
      intro h
      refine isReduced_iff.2 ⟨h.fragments_typed.1, h.oneEach.nodup, ?_, fun f hf c hc => ?_⟩
      · rintro ⟨hinteger, hnumber⟩
        rcases List.mem_filterMap.1 hinteger with ⟨f, hf, hftag⟩
        rcases List.mem_filterMap.1 hnumber with ⟨g, hg, hgtag⟩
        exact h.absorbed hf hg hftag hgtag
      · have hinside := mem_children_of_described hc
        exact ih f hf c hinside (h.inside hf hinside)

/-- Canonical schemas cover themselves. -/
theorem covers_of_isCanonical {s : Schema} (h : s.IsCanonical) : covers s s = .ok true := by
  have hoffers : ∀ x ∈ [s, s], x.Everywhere OffersTag := by
    simp only [List.forall_mem_cons, List.not_mem_nil, false_imp_iff, implies_true, and_true,
      and_self]
    exact Everywhere.imp h fun _ hnode => hnode.offersTag
  rcases exists_merge_ok {} [s, s] (List.cons_ne_nil s [s]) hoffers with ⟨m, hm⟩
  have hequal := (equal_merge_twice_iff s m hm).2 (isReduced_of_isCanonical s h)
  unfold covers
  rw [hm]
  exact congrArg Except.ok hequal

end Schema

end SampleSchema
