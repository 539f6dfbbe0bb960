import SampleSchema.Proofs.Blocks
import SampleSchema.Proofs.Equivalence

/-!
# Merging Respects Comparison

What compares as equal may be merged in its place, and in any order.

A comparison forgets much that a merge can see. It takes leaves with one tag
for equal, whatever stands beside the tag, and the first of them is the one
that a merge keeps. It does not look at the order of alternatives and of
required names, which a merge passes on. It may leave requirements out of
account altogether. So merging other schemas that compare as equal, or the same
ones in another order, may well give another schema. But it gives one that
compares as equal, and it fails where the other fails, for a reason of the same
kind.

What is merged are fragments, and `Alike` relates two of them that may stand
for each other: they are the same, or they are partners. A fragment without a
tag stands only for itself. Lists of fragments that can be paired in this way
are empty together, so both merges have something to merge or neither has; and
if a fragment has no tag there is one on the other side, so both refuse or
neither does. They can be paired under each tag, and what the pairs have inside
compares as equal, so that the fragments found there can be paired again. This
is what the induction needs. It also keeps the number of fragments, and with it
the decision whether a property has a single one that is kept as it is.

Which error comes first depends on tags and names only, since a merge goes
through both in an order of its own.

Covering is where this is needed. Whether a schema covers another is decided by
comparing a merge with what went into it, so what covers a schema may take its
place in other merges, and covering is transitive. That holds of all schemas,
also of those that do not cover themselves.

## Main definitions

* `MergeError.SameKind`: Two errors are of one kind.
* `Schema.Alike`: Two fragments may stand for each other.
* `Schema.MergeAlike`: Two merges end in the same way.

## Theorems

* `Schema.paired_allFragments`: Schemas that compare as equal have fragments
  that are alike.
* `Schema.reduce_alike`: Fragments with one tag reduce in the same way.
* `Schema.mergeAlike_of_paired`: Merging respects comparison.
* `Schema.merge_perm`: The order of the schemas does not matter.
* `Schema.merge_congr_equal`: Nor does it matter which of two equal schemas is
  among them.
* `Schema.covers_trans`: What covers a schema covers what that one covers.
-/

namespace SampleSchema

/-- Two errors are of one kind, whatever fragment they are about. -/
def MergeError.SameKind : MergeError → MergeError → Prop
  | .nothing, .nothing => True
  | .untyped _, .untyped _ => True
  | _, _ => False

namespace Schema

variable {o : MergeOptions} {c : CompareOptions} {tag : Tag} {f g : Schema}

/-! ### Fragments that are alike -/

/-- Two fragments may stand for each other: they are the same, or they have the
    same tag and compare as equal. -/
def Alike (c : CompareOptions) (f g : Schema) : Prop := f = g ∨ Partners c f g

theorem Alike.tag_eq (h : Alike c f g) : f.tag? = g.tag? := by
  rcases h with rfl | h
  · rfl
  · exact h.tag_eq

theorem Alike.sameTagged (h : Alike c f g) (hf : f.tag? = some tag) : sameTagged c tag f g := by
  rcases h with rfl | h
  · exact sameTagged_self fun d _ => equal_self c d
  · exact h.sameTagged hf

theorem Alike.equal (h : Alike c f g) (hf : f.IsAtomic) (hg : g.IsAtomic) : equal c f g := by
  rcases h with rfl | h
  · exact equal_self c f
  · rw [equal_iff_matched, hf.fragments_eq, hg.fragments_eq]
    exact Or.inr (.singleton h)

theorem paired_fragments {x y : Schema} (h : equal c x y) :
    Paired (Alike c) x.fragments y.fragments := by
  rcases equal_iff_matched.1 h with hsame | hpaired
  · rw [hsame]
    exact .of_perm (.refl _) fun f _ => Or.inl rfl
  · exact hpaired.imp fun f _ g _ hfg => Or.inr hfg

/-- Schemas that compare as equal have fragments that are alike. -/
theorem paired_allFragments {xs ys : List Schema} (h : Paired (fun x y => equal c x y) xs ys) :
    Paired (Alike c) (allFragments xs) (allFragments ys) := by
  rcases h with ⟨zs, hpairs, hperm⟩
  refine Paired.perm_right ?_ (hperm.flatMap_right fragments)
  clear hperm
  induction hpairs with
  | nil => exact .nil
  | @cons x z xs zs hxz _ ih =>
      change Paired (Alike c) (allFragments (x :: xs)) (allFragments (z :: zs))
      rw [allFragments_cons, allFragments_cons]
      exact (paired_fragments hxz).append ih

section Bucket

variable {bs cs : List Schema}

/-- What equal arrays or maps have as items is alike. -/
theorem paired_itemFragments (ht : tag = .array ∨ tag = .map)
    (h : Paired (fun f g => sameTagged c tag f g) bs cs) :
    Paired (Alike c) (itemFragments bs) (itemFragments cs) := by
  refine paired_allFragments (h.filterMap fun f g hsame => ?_)
  have hitems := (sameTagged_iff_parts.1 hsame).1 ""
  rw [part_container ht, part_container ht] at hitems
  exact hitems

/-- What equal objects have under a name is alike. -/
theorem paired_propertyFragments (h : Paired (fun f g => sameTagged c .object f g) bs cs)
    (name : String) : Paired (Alike c) (propertyFragments name bs) (propertyFragments name cs) :=
  paired_allFragments (h.filterMap fun _ _ hsame => (sameTagged_iff_parts.1 hsame).1 name)

end Bucket

/-- Fragments that are alike are refused for reasons of one kind. -/
theorem rel_refusal {fs gs : List Schema} (h : Paired (Alike c) fs gs) :
    Option.Rel MergeError.SameKind (refusal? fs) (refusal? gs) := by
  unfold refusal?
  by_cases hfs : fs = []
  · rw [if_pos (List.isEmpty_iff.2 hfs), if_pos (List.isEmpty_iff.2 (h.eq_nil_iff.1 hfs))]
    exact .some trivial
  · rw [if_neg (mt List.isEmpty_iff.1 hfs), if_neg (mt (h.eq_nil_iff.2 ∘ List.isEmpty_iff.1) hfs)]
    -- An untyped fragment on one side has one like it on the other.
    have huntyped : (fs.find? fun f => f.tag?.isNone).isSome ↔
        (gs.find? fun g => g.tag?.isNone).isSome := by
      rw [List.find?_isSome, List.find?_isSome]
      constructor
      · rintro ⟨f, hf, hnone⟩
        rcases h.exists_right hf with ⟨g, hg, hfg⟩
        exact ⟨g, hg, hfg.tag_eq ▸ hnone⟩
      · rintro ⟨g, hg, hnone⟩
        rcases h.exists_left hg with ⟨f, hf, hfg⟩
        exact ⟨f, hf, hfg.tag_eq ▸ hnone⟩
    cases hf : fs.find? fun f => f.tag?.isNone with
    | none =>
        cases hg : gs.find? fun g => g.tag?.isNone with
        | none => exact .none
        | some g =>
            rw [hf, hg] at huntyped
            cases huntyped.2 rfl
    | some f =>
        cases hg : gs.find? fun g => g.tag?.isNone with
        | none =>
            rw [hf, hg] at huntyped
            cases huntyped.1 rfl
        | some g => exact .some trivial

/-! ### What is inside -/

/-- Two merges end in the same way: in schemas that compare as equal, or in
    errors of one kind. -/
def MergeAlike (o : MergeOptions) (c : CompareOptions) (xs ys : List Schema) : Prop :=
  EndRelated MergeError.SameKind (fun m n => equal c m n) (merge o xs) (merge o ys)

theorem mergeItems_alike {fs gs : List Schema} (h : Paired (Alike c) fs gs)
    (hmerge : MergeAlike o c fs gs) :
    EndRelated MergeError.SameKind (Option.Rel fun m n => equal c m n) (mergeItems o fs)
      (mergeItems o gs) := by
  -- Nothing is offered on both sides or on neither.
  by_cases hfs : fs = []
  · rw [hfs, h.eq_nil_iff.1 hfs]
    exact Option.Rel.none
  · rw [mergeItems_of_ne_nil hfs, mergeItems_of_ne_nil (mt h.eq_nil_iff.2 hfs)]
    exact hmerge.bind fun m n hmn => .some hmn

theorem mergeProperty_alike {fs gs : List Schema} (h : Paired (Alike c) fs gs)
    (hfs : ∀ f ∈ fs, f.IsAtomic) (hgs : ∀ g ∈ gs, g.IsAtomic) (hmerge : MergeAlike o c fs gs) :
    EndRelated MergeError.SameKind (fun p q => equal c p q) (mergeProperty o fs)
      (mergeProperty o gs) := by
  by_cases hone : ∃ f, fs = [f]
  · -- There is a single fragment on either side, and both are kept.
    rcases hone with ⟨f, rfl⟩
    rcases Paired.singleton_left_iff.1 h with ⟨g, rfl, hfg⟩
    exact hfg.equal (hfs f List.mem_cons_self) (hgs g List.mem_cons_self)
  · have hother : ∀ g, gs ≠ [g] := by
      rintro g rfl
      have hlength := h.length_eq
      rw [List.length_singleton, List.length_eq_one_iff] at hlength
      exact hone hlength
    rw [mergeProperty_of_ne_singleton fun f hf => hone ⟨f, hf⟩,
      mergeProperty_of_ne_singleton hother]
    exact hmerge

/-! ### One tag -/

section Bucket

variable {bs cs : List Schema}

/-- Objects that compare as equal have the same names in use. -/
theorem mem_usedNames_iff_of_paired (h : Paired (fun f g => sameTagged c .object f g) bs cs)
    (name : String) : name ∈ bs.flatMap propertyNames ↔ name ∈ cs.flatMap propertyNames := by
  have hnames : ∀ {f g}, sameTagged c .object f g → f.propertyNames = g.propertyNames :=
    fun hsame => (sameTagged_object_iff.1 hsame).1
  rw [List.mem_flatMap, List.mem_flatMap]
  constructor
  · rintro ⟨f, hf, hname⟩
    rcases h.exists_right hf with ⟨g, hg, hsame⟩
    exact ⟨g, hg, hnames hsame ▸ hname⟩
  · rintro ⟨g, hg, hname⟩
    rcases h.exists_left hg with ⟨f, hf, hsame⟩
    exact ⟨f, hf, hnames hsame ▸ hname⟩

/-- The properties of objects that compare as equal are merged in the same way,
    under the same names. -/
theorem mergeProperties_alike (h : Paired (fun f g => sameTagged c .object f g) bs cs)
    (hmerge : ∀ name, MergeAlike o c (propertyFragments name bs) (propertyFragments name cs)) :
    EndRelated MergeError.SameKind
      (fun p q => ∀ name, Option.Rel (fun m n => equal c m n) (p.get? name) (q.get? name))
      (mergeProperties o bs) (mergeProperties o cs) := by
  -- The names are gone through in an order of their own, which is the same for both.
  have hnames : Keyed.tabulate (bs.flatMap propertyNames) (fun _ => ()) =
      Keyed.tabulate (cs.flatMap propertyNames) fun _ => () := by
    refine Keyed.ext_get? fun name => ?_
    rw [Keyed.get?_tabulate, Keyed.get?_tabulate]
    exact if_congr (mem_usedNames_iff_of_paired h name) rfl rfl
  rw [mergeProperties, mergeProperties, hnames]
  refine Keyed.mapM_related fun name _ _ => ?_
  exact mergeProperty_alike (paired_propertyFragments h name) (fun _ => isAtomic_of_mem_allFragments)
    (fun _ => isAtomic_of_mem_allFragments) (hmerge name)

/-- Where requirements count, the same names are required of all. -/
theorem mem_mergeRequired_iff (h : Paired (fun f g => sameTagged c .object f g) bs cs)
    (hbs : bs ≠ []) :
    c.ignoreRequired ∨ ∀ name, name ∈ (mergeRequired o bs).getD [] ↔
      name ∈ (mergeRequired o cs).getD [] := by
  by_cases hc : c.ignoreRequired
  · exact Or.inl hc
  · refine Or.inr fun name => ?_
    have hcs : cs ≠ [] := mt h.eq_nil_iff.2 hbs
    unfold mergeRequired
    by_cases ho : o.noRequired
    · rw [if_pos ho, if_pos ho]
    · rw [if_neg ho, if_neg ho, Option.getD_some, Option.getD_some,
        mem_commonNames_iff (mt List.map_eq_nil_iff.1 hbs),
        mem_commonNames_iff (mt List.map_eq_nil_iff.1 hcs), List.forall_mem_map,
        List.forall_mem_map]
      -- Each object requires what its partner does.
      have hrequired : ∀ {f g}, sameTagged c .object f g →
          (name ∈ f.requiredNames ↔ name ∈ g.requiredNames) :=
        fun hsame => (sameTagged_object_iff.1 hsame).2.2.resolve_left hc name
      constructor
      · intro hall g hg
        rcases h.exists_left hg with ⟨f, hf, hsame⟩
        exact (hrequired hsame).1 (hall f hf)
      · intro hall f hf
        rcases h.exists_right hf with ⟨g, hg, hsame⟩
        exact (hrequired hsame).2 (hall g hg)

/-- Fragments with one tag that can be paired reduce in the same way, if what
    is inside them is merged so. -/
theorem reduce_alike (h : Paired (fun f g => sameTagged c tag f g) bs cs)
    (hitems : tag = .array ∨ tag = .map → bs ≠ [] →
      MergeAlike o c (itemFragments bs) (itemFragments cs))
    (hproperties : tag = .object → bs ≠ [] → ∀ name,
      MergeAlike o c (propertyFragments name bs) (propertyFragments name cs)) :
    EndRelated MergeError.SameKind (Option.Rel fun s t => sameTagged c tag s t) (reduce o tag bs)
      (reduce o tag cs) := by
  by_cases hbs : bs = []
  · rw [hbs, h.eq_nil_iff.1 hbs]
    exact Option.Rel.none
  have hcs : cs ≠ [] := mt h.eq_nil_iff.2 hbs
  rcases tag_cases tag with ht | ht | rfl
  · -- The first leaf on either side is kept, and leaves with one tag are equal.
    rw [reduce_leaf ht, reduce_leaf ht, List.head?_eq_some_head hbs, List.head?_eq_some_head hcs]
    exact Option.Rel.some (sameTagged_leaf ht _ _)
  · rw [reduce_container ht hbs, reduce_container ht hcs]
    refine (mergeItems_alike (paired_itemFragments ht h) (hitems ht hbs)).bind fun items items' hrel => ?_
    refine Option.Rel.some ((sameTagged_container_iff ht).2 ?_)
    rw [items_container, items_container]
    cases hrel with
    | some hequal => exact Or.inr ⟨_, _, rfl, rfl, hequal⟩
    | none => exact Or.inl ⟨rfl, rfl⟩
  · rw [reduce_object hbs, reduce_object hcs]
    refine (mergeProperties_alike h (hproperties rfl hbs)).bind fun properties properties' hrel => ?_
    refine Option.Rel.some (sameTagged_iff_parts.2 ⟨fun name => ?_, fun _ => ?_⟩)
    · change Option.Rel _ (property? _ name) (property? _ name)
      rw [property?_object, property?_object]
      exact hrel name
    · rw [requiredNames_object, requiredNames_object]
      exact mem_mergeRequired_iff h hbs

end Bucket

/-! ### All tags -/

/-- What is joined compares as equal when it does tag by tag. -/
theorem equal_joinFound {r q : Tag → Option Schema} (hr : ∀ tag s, r tag = some s → s.IsOf tag)
    (hq : ∀ tag s, q tag = some s → s.IsOf tag)
    (h : ∀ tag, Option.Rel (fun s t => sameTagged c tag s t) (r tag) (q tag)) :
    equal c (joinFound (Tag.all.filterMap r)) (joinFound (Tag.all.filterMap q)) := by
  have hfound : Paired (Partners c) (Tag.all.filterMap r) (Tag.all.filterMap q) := by
    refine (Paired.of_perm (R := Eq) (.refl Tag.all) fun _ _ => rfl).filterMap ?_
    rintro tag _ rfl
    exact rel_imp (h tag) fun s t hs ht hsame => ⟨tag, (hr tag s hs).2, (hq tag t ht).2, hsame⟩
  refine equal_iff_matched.2 (Or.inr ?_)
  exact (hfound.perm_left (oneEach_filterMap hr).fragments_perm).perm_right
    (oneEach_filterMap hq).fragments_perm.symm

/-- Fragments that are alike can be paired under each tag, after integers have
    been absorbed. -/
theorem paired_bucket {fs gs : List Schema} (h : Paired (Alike c) fs gs) (tag : Tag) :
    Paired (fun f g => sameTagged c tag f g) (tagged tag (absorb fs)) (tagged tag (absorb gs)) := by
  have htagged : ∀ tag, Paired (Alike c) (tagged tag fs) (tagged tag gs) :=
    paired_tagged h fun _ _ => Alike.tag_eq
  rw [tagged_absorb, tagged_absorb]
  -- There is a number on both sides or on neither, so both drop their integers or neither does.
  by_cases hnumber : tag = .integer ∧ tagged .number fs ≠ []
  · rw [if_pos hnumber, if_pos ⟨hnumber.1, mt (htagged .number).eq_nil_iff.2 hnumber.2⟩]
    exact .nil
  · rw [if_neg hnumber, if_neg fun hn => hnumber ⟨hn.1, mt (htagged .number).eq_nil_iff.1 hn.2⟩]
    exact (htagged tag).imp fun f hf g _ hfg => hfg.sameTagged (mem_tagged_iff.1 hf).2

/-- What a merge has found under each tag has that tag. -/
theorem isOf_of_reduce_bucket {xs : List Schema} {r : Tag → Option Schema}
    (hr : ∀ tag ∈ Tag.all, reduce o tag (tagged tag (absorb (allFragments xs))) = .ok (r tag)) :
    ∀ tag s, r tag = some s → s.IsOf tag := by
  intro tag s hs
  have hreduce := hr tag (Tag.mem_all tag)
  rw [hs] at hreduce
  exact isOf_of_reduce (fun f hf => isOf_of_mem_bucket hf) hreduce

/-- Merges that reduce in the same way under each tag end in the same way. -/
theorem mergeAlike_of_reduce {xs ys : List Schema}
    (hrefusal : Option.Rel MergeError.SameKind (refusal? (allFragments xs))
      (refusal? (allFragments ys)))
    (hreduce : ∀ tag, EndRelated MergeError.SameKind (Option.Rel fun s t => sameTagged c tag s t)
      (reduce o tag (tagged tag (absorb (allFragments xs))))
      (reduce o tag (tagged tag (absorb (allFragments ys))))) : MergeAlike o c xs ys := by
  unfold MergeAlike
  rw [merge_eq, merge_eq]
  cases hxs : refusal? (allFragments xs) with
  | some e =>
      rcases exists_of_rel hrefusal hxs with ⟨e', hys, hkind⟩
      rw [hys]
      exact hkind
  | none =>
      rw [(eq_none_iff_of_rel hrefusal).1 hxs]
      have hrow := mapM_related fun tag (_ : tag ∈ Tag.all) => hreduce tag
      refine hrow.bind fun found kept ⟨r, q, hall, hfound, hkept⟩ => ?_
      rw [hfound, hkept, List.filterMap_map, List.filterMap_map]
      have hr := isOf_of_reduce_bucket fun tag htag => (hall tag htag).1
      have hq := isOf_of_reduce_bucket fun tag htag => (hall tag htag).2.1
      exact equal_joinFound hr hq fun tag => (hall tag (Tag.mem_all tag)).2.2

/-- Merging respects comparison, by induction along the calls of a merge to
    itself. -/
theorem mergeAlike_of_paired (o : MergeOptions) (c : CompareOptions) (xs : List Schema) :
    ∀ ys, Paired (Alike c) (allFragments xs) (allFragments ys) → MergeAlike o c xs ys := by
  induction xs using merge_induction with
  | step xs ihItems ihProperties =>
      intro ys h
      refine mergeAlike_of_reduce (rel_refusal h) fun tag => ?_
      have hbucket := paired_bucket h tag
      -- What is found inside has been taken apart, so the lists found there are paired as they are.
      refine reduce_alike hbucket (fun ht hne => ihItems tag hne _ ?_)
        fun ht hne name => ihProperties tag name hne _ ?_
      · have hparts := paired_itemFragments ht hbucket
        rw [itemFragments, itemFragments] at hparts ⊢
        rw [allFragments_allFragments, allFragments_allFragments]
        exact hparts
      · subst ht
        have hparts := paired_propertyFragments hbucket name
        rw [propertyFragments, propertyFragments] at hparts ⊢
        rw [allFragments_allFragments, allFragments_allFragments]
        exact hparts

/-- Schemas that compare as equal, one by one and in some order, merge to
    schemas that do, or neither merge succeeds, for reasons of one kind. -/
theorem merge_alike (o : MergeOptions) {xs ys : List Schema}
    (h : Paired (fun x y => equal c x y) xs ys) : MergeAlike o c xs ys :=
  mergeAlike_of_paired o c xs ys (paired_allFragments h)

/-! ### Order and choice -/

/-- The order in which schemas are merged makes no difference to a comparison,
    nor to whether they can be merged or why not. -/
theorem merge_perm (o : MergeOptions) (xs ys : List Schema) (h : xs.Perm ys) :
    EndRelated MergeError.SameKind (fun m n => equal {} m n) (merge o xs) (merge o ys) :=
  merge_alike o (.of_perm h fun x _ => equal_self {} x)

/-- A string that has items, which say nothing. -/
def strayString : Schema := { ofTag .string with items := some (ofTag .null) }

/-- The order shows in the result: of two strings the first is kept, with its
    stray items, and of two objects the first orders the names. -/
theorem merge_perm_stray :
    ∃ m n,
      merge {} [strayString, object .empty (some ["a", "b"]), ofTag .string,
        object .empty (some ["b", "c", "a"])] = .ok m ∧
      merge {} [ofTag .string, object .empty (some ["b", "c", "a"]), strayString,
        object .empty (some ["a", "b"])] = .ok n ∧
      m ≠ n ∧ equal {} m n := by
  have hstray : merge {} [strayString, object .empty (some ["a", "b"]), ofTag .string,
      object .empty (some ["b", "c", "a"])] =
        .ok (union [strayString, object .empty (some ["a", "b"])]) := by
    cbv
  have hbare : merge {} [ofTag .string, object .empty (some ["b", "c", "a"]), strayString,
      object .empty (some ["a", "b"])] =
        .ok (union [ofTag .string, object .empty (some ["b", "a"])]) := by
    cbv
  -- The first two schemas change places with the last two.
  have halike := merge_perm {} _ _ (List.perm_append_comm
    : ([strayString, object .empty (some ["a", "b"])] ++
      [ofTag .string, object .empty (some ["b", "c", "a"])]).Perm _)
  refine ⟨_, _, hstray, hbare, fun heq => ?_, halike.of_ok hstray hbare⟩
  cases heq

/-- One schema may be merged instead of another that compares as equal to it:
    both merges succeed or neither does, and what they give compares as equal
    again. -/
theorem merge_congr_equal (c : CompareOptions) (o : MergeOptions) (x y : Schema) (h : equal c x y)
    (us vs : List Schema) :
    ((∃ m, merge o (us ++ [x] ++ vs) = .ok m) ↔ ∃ n, merge o (us ++ [y] ++ vs) = .ok n) ∧
      ∀ m n, merge o (us ++ [x] ++ vs) = .ok m → merge o (us ++ [y] ++ vs) = .ok n →
        equal c m n := by
  have hsame : ∀ zs : List Schema, Paired (fun x y => equal c x y) zs zs :=
    fun zs => .of_perm (.refl zs) fun z _ => equal_self c z
  have halike := merge_alike o (((hsame us).append (.singleton h)).append (hsame vs))
  exact ⟨halike.exists_ok_iff, fun m n hm hn => halike.of_ok hm hn⟩

/-- A nullable property may be written as a list of tags or as alternatives, and
    an object may require a name twice. -/
theorem merge_congr_equal_nullable :
    ∃ m n,
      merge {} ([ofTag .null] ++ [object (.ofList [("a", ofTags [.string, .null])])
        (some ["a", "a"])] ++ [object (.ofList [("a", ofTag .integer)]) (some ["a"])]) = .ok m ∧
      merge {} ([ofTag .null] ++ [object (.ofList [("a", union [ofTag .null, ofTag .string])])
        (some ["a"])] ++ [object (.ofList [("a", ofTag .integer)]) (some ["a"])]) = .ok n ∧
      equal {} m n := by
  have h := merge_congr_equal {} {} (object (.ofList [("a", ofTags [.string, .null])])
    (some ["a", "a"])) (object (.ofList [("a", union [ofTag .null, ofTag .string])])
      (some ["a"])) (by cbv) [ofTag .null] [object (.ofList [("a", ofTag .integer)]) (some ["a"])]
  have hok : merge {} ([ofTag .null] ++ [object (.ofList [("a", ofTags [.string, .null])])
      (some ["a", "a"])] ++ [object (.ofList [("a", ofTag .integer)]) (some ["a"])]) =
        .ok (union [ofTag .null,
          object (.ofList [("a", ofTags [.null, .integer, .string])]) (some ["a"])]) := by
    cbv
  rcases h.1.1 ⟨_, hok⟩ with ⟨n, hn⟩
  exact ⟨_, n, hok, hn, h.2 _ n hok hn⟩

/-! ### Covering -/

/-- A schema covers another when their merge compares as equal to it. -/
theorem covers_eq_true_iff {a b : Schema} :
    covers a b = .ok true ↔ ∃ m, merge {} [a, b] = .ok m ∧ equal {} m a := by
  unfold covers
  constructor
  · intro h
    rcases bind_eq_ok_iff.1 h with ⟨m, hm, h⟩
    exact ⟨m, hm, Except.ok.inj h⟩
  · rintro ⟨m, hm, hequal⟩
    rw [hm]
    exact congrArg Except.ok hequal

/-- Two schemas may each be exchanged for one that compares as equal. -/
theorem merge_pair_alike (o : MergeOptions) {c : CompareOptions} {x x' y y' : Schema}
    (hx : equal c x x') (hy : equal c y y') : MergeAlike o c [x, y] [x', y'] := by
  have hpairs : Paired (fun s t => equal c s t) ([x] ++ [y]) ([x'] ++ [y']) :=
    Paired.append (.singleton hx) (.singleton hy)
  exact merge_alike o hpairs

/-- What covers a schema covers what that one covers. Merging all three can
    begin at either end. From the one it comes to the first and the last, from
    the other to the first alone. -/
theorem covers_trans (a b c : Schema) (hab : covers a b = .ok true) (hbc : covers b c = .ok true) :
    covers a c = .ok true := by
  rcases covers_eq_true_iff.1 hab with ⟨m, hm, hma⟩
  rcases covers_eq_true_iff.1 hbc with ⟨n, hn, hnb⟩
  have hleft : merge {} [m, c] = merge {} [a, b, c] := blockwise {} _ [] [a, b] [c] rfl m hm
  have hright : merge {} [a, n] = merge {} [a, b, c] := blockwise {} _ [a] [b, c] [] rfl n hn
  -- The last two together add no more than the middle one, which adds nothing.
  have hmiddle : MergeAlike {} {} [a, n] [a, b] := merge_pair_alike {} (equal_self {} a) hnb
  rcases hmiddle.exists_ok_iff.2 ⟨m, hm⟩ with ⟨k, hk⟩
  have hkm : equal {} k m := hmiddle.of_ok hk hm
  -- The first two together are the first one.
  have hfirst : MergeAlike {} {} [m, c] [a, c] := merge_pair_alike {} hma (equal_self {} c)
  have hmc : merge {} [m, c] = .ok k := by rw [hleft, ← hright, hk]
  rcases hfirst.exists_ok_iff.1 ⟨k, hmc⟩ with ⟨l, hl⟩
  have hkl : equal {} k l := hfirst.of_ok hmc hl
  exact covers_eq_true_iff.2 ⟨l, hl, equal_trans (equal_comm.1 hkl) (equal_trans hkm hma)⟩

/-- None of the three is written as a merge writes schemas. -/
theorem covers_trans_unordered :
    covers (object (.ofList [("a", ofTags [.string, .number, .null])]) none)
      (object (.ofList [("a", union [ofTag .integer, ofTag .null])]) (some ["a", "a"])) = .ok true ∧
    covers (object (.ofList [("a", union [ofTag .integer, ofTag .null])]) (some ["a", "a"]))
      (object (.ofList [("a", ofTags [.null])]) (some ["b", "a"])) = .ok true ∧
    covers (object (.ofList [("a", ofTags [.string, .number, .null])]) none)
      (object (.ofList [("a", ofTags [.null])]) (some ["b", "a"])) = .ok true := by
  have hab : covers (object (.ofList [("a", ofTags [.string, .number, .null])]) none)
      (object (.ofList [("a", union [ofTag .integer, ofTag .null])]) (some ["a", "a"])) =
        .ok true := by
    cbv
  have hbc : covers (object (.ofList [("a", union [ofTag .integer, ofTag .null])])
      (some ["a", "a"])) (object (.ofList [("a", ofTags [.null])]) (some ["b", "a"])) =
        .ok true := by
    cbv
  exact ⟨hab, hbc, covers_trans _ _ _ hab hbc⟩

end Schema

end SampleSchema
