import SampleSchema.Proofs.Congruence
import SampleSchema.Proofs.Requirements
import SampleSchema.Proofs.SelfCovering
import SampleSchema.Proofs.Totality

/-!
# Merging What Is There Already

When merging schemas a second time, together with themselves, adds nothing.

A merge finds every fragment twice where it found it once. For leaves that is
no difference, and for arrays and objects it only moves the question to what
is inside them. There is one place where the number of fragments matters: a
property about which a single fragment says anything keeps it as it is. With
every fragment found twice there is no single fragment any more, so the same
fragment is merged, and what it is merged to may be something else. It is
brought into the library's form, at every depth; requirements are dropped
from it if they are to be dropped; and where it describes something without a
type the merge is refused, which keeping it was not.

So repeating a merge adds nothing just when all that has been taken over as it
is would have stayed the same in a merge. `Kept` knows what has been taken
over, and `repeats_iff_kept` is that statement, by induction along the calls of
the merge to itself. The other way round nothing can happen: what can be merged
with itself can be merged.

## Main definitions

* `Schema.Repeats`: Merging schemas with themselves gives what they merge to.

## Theorems

* `Schema.exists_merge_of_repeat`: What can be merged with itself can be merged.
* `Schema.repeats_iff_kept`: When merging schemas with themselves adds nothing.
* `Schema.repeats_self_iff`: When a schema stays as it is, merged with itself.
* `Schema.merge_repeated`: Both for a single schema.
-/

namespace SampleSchema

namespace Schema

variable {o : MergeOptions} {tag : Tag} {b fs xs : List Schema} {f m s : Schema}

/-- The schemas can be merged together with themselves, and that gives the same
    as before. -/
def Repeats (o : MergeOptions) (xs : List Schema) (m : Schema) : Prop :=
  ∃ n, merge o (xs ++ xs) = .ok n ∧ equal {} n m

/-! ### Fragments that are found twice -/

theorem refusal?_repeat : refusal? (fs ++ fs) = none ↔ refusal? fs = none := by
  rw [refusal?_eq_none_iff, refusal?_eq_none_iff]
  simp only [ne_eq, List.append_eq_nil_iff, and_self, List.mem_append, or_self]

/-- Every fragment is found twice under its tag. -/
theorem bucket_repeat (tag : Tag) (xs : List Schema) :
    tagged tag (absorb (allFragments (xs ++ xs))) =
      tagged tag (absorb (allFragments xs)) ++ tagged tag (absorb (allFragments xs)) := by
  rw [allFragments_append, tagged_absorb_twice, tagged_absorb]
  split <;> rfl

theorem mem_mergeRequired_repeat (name : String) :
    name ∈ (mergeRequired o (b ++ b)).getD [] ↔ name ∈ (mergeRequired o b).getD [] := by
  by_cases hb : b = []
  · rw [hb, List.append_nil]
  · unfold mergeRequired
    split
    · exact Iff.rfl
    · rw [Option.getD_some, Option.getD_some, mem_commonNames_iff (by simpa using hb),
        mem_commonNames_iff (by simpa using hb)]
      simp only [List.map_append, List.mem_append, or_self]

/-- A property is merged, since it does not have just one fragment. -/
theorem mergeProperty_repeat (fs : List Schema) : mergeProperty o (fs ++ fs) = merge o (fs ++ fs) := by
  refine mergeProperty_of_ne_singleton fun g hg => ?_
  have hlength := congrArg List.length hg
  rw [List.length_append, List.length_singleton] at hlength
  omega

/-! ### What can be merged with itself can be merged -/

theorem exists_reduce_of_repeat
    (hitems : (∃ n, merge o (itemFragments b ++ itemFragments b) = .ok n) →
      ∃ m, merge o (itemFragments b) = .ok m)
    (hproperties : ∀ name, (∃ n, merge o (propertyFragments name b ++ propertyFragments name b) = .ok n) →
      ∃ m, merge o (propertyFragments name b) = .ok m)
    (h : ∃ t, reduce o tag (b ++ b) = .ok t) : ∃ s, reduce o tag b = .ok s := by
  rcases h with ⟨t, ht⟩
  by_cases hb : b = []
  · rw [hb]
    exact ⟨none, reduce_nil tag⟩
  have hbb : b ++ b ≠ [] := List.append_ne_nil_of_left_ne_nil hb b
  rcases tag_cases tag with htag | htag | rfl
  · exact ⟨_, reduce_leaf htag b⟩
  · rw [reduce_container htag hbb, itemFragments_append] at ht
    rcases bind_eq_ok_iff.1 ht with ⟨items, hmerged, -⟩
    have hfs : itemFragments b ≠ [] → ∃ m, merge o (itemFragments b) = .ok m := by
      intro hne
      rw [mergeItems_of_ne_nil (List.append_ne_nil_of_left_ne_nil hne _)] at hmerged
      rcases bind_eq_ok_iff.1 hmerged with ⟨n, hn, -⟩
      exact hitems ⟨n, hn⟩
    rcases exists_mergeItems_ok hfs with ⟨items, hitems⟩
    rw [reduce_container htag hb, hitems]
    exact ⟨_, rfl⟩
  · rw [reduce_object hbb] at ht
    rcases bind_eq_ok_iff.1 ht with ⟨merged, hmerged, -⟩
    have hused : ∀ name ∈ b.flatMap propertyNames,
        ∃ p, mergeProperty o (propertyFragments name b) = .ok p := by
      intro name hname
      have hname' : name ∈ (b ++ b).flatMap propertyNames := by
        rw [List.flatMap_append]
        exact List.mem_append_left _ hname
      rcases get?_of_mergeProperties hmerged hname' with ⟨p, -, hp⟩
      rw [propertyFragments_append, mergeProperty_repeat] at hp
      by_cases hone : ∃ f, propertyFragments name b = [f]
      · rcases hone with ⟨f, hf⟩
        rw [hf]
        exact ⟨f, rfl⟩
      · rw [mergeProperty_of_ne_singleton fun f hf => hone ⟨f, hf⟩]
        exact hproperties name ⟨p, hp⟩
    rcases exists_mergeProperties_ok hused with ⟨properties, hproperties⟩
    rw [reduce_object hb, hproperties]
    exact ⟨_, rfl⟩

/-- What can be merged with itself can be merged, by induction along the calls
    of the merge to itself. -/
theorem exists_merge_of_repeat (o : MergeOptions) (xs : List Schema) :
    (∃ n, merge o (xs ++ xs) = .ok n) → ∃ m, merge o xs = .ok m := by
  induction xs using merge_induction with
  | step xs ihItems ihProperties =>
      rintro ⟨n, hn⟩
      rcases merge_eq_ok_iff.1 hn with ⟨hrefusal, q, hq, -⟩
      have hreduce : ∀ tag, ∃ s,
          reduce o tag (tagged tag (absorb (allFragments xs))) = .ok s := by
        intro tag
        have htwice := hq tag
        rw [bucket_repeat] at htwice
        by_cases hb : tagged tag (absorb (allFragments xs)) = []
        · rw [hb]
          exact ⟨none, reduce_nil tag⟩
        · exact exists_reduce_of_repeat (ihItems tag hb) (fun name => ihProperties tag name hb)
            ⟨q tag, htwice⟩
      choose r hr using hreduce
      rw [allFragments_append, refusal?_repeat] at hrefusal
      exact ⟨_, merge_eq_ok_iff.2 ⟨hrefusal, r, hr, rfl⟩⟩

/-! ### One tag -/

theorem mergeItems_repeat_iff {items : Option Schema} (h : mergeItems o fs = .ok items) :
    (∃ items', mergeItems o (fs ++ fs) = .ok items' ∧
        Option.Rel (fun n m => equal {} n m) items' items) ↔
      ∀ c, items = some c → Repeats o fs c := by
  by_cases hfs : fs = []
  · subst hfs
    cases h
    constructor
    · intro _ c hc
      cases hc
    · intro _
      exact ⟨none, rfl, .none⟩
  · rw [mergeItems_of_ne_nil hfs] at h
    rcases bind_eq_ok_iff.1 h with ⟨m, hm, h⟩
    cases h
    rw [mergeItems_of_ne_nil (List.append_ne_nil_of_left_ne_nil hfs _)]
    constructor
    · rintro ⟨items', hitems', hrel⟩ c hc
      cases hc
      rcases bind_eq_ok_iff.1 hitems' with ⟨n, hn, h⟩
      cases h
      cases hrel with
      | some hequal => exact ⟨n, hn, hequal⟩
    · intro h
      rcases h m rfl with ⟨n, hn, hequal⟩
      rw [hn]
      exact ⟨some n, rfl, .some hequal⟩

theorem mergeProperties_repeat_iff {properties : Keyed Schema}
    (h : mergeProperties o b = .ok properties) :
    (∃ properties', mergeProperties o (b ++ b) = .ok properties' ∧
        ∀ name, Option.Rel (fun n m => equal {} n m) (properties'.get? name)
          (properties.get? name)) ↔
      ∀ name p, properties.get? name = some p → Repeats o (propertyFragments name b) p := by
  have hused : ∀ name, name ∈ (b ++ b).flatMap propertyNames ↔ name ∈ b.flatMap propertyNames := by
    intro name
    rw [List.flatMap_append, List.mem_append, or_self]
  constructor
  · rintro ⟨properties', h', hrel⟩ name p hp
    rcases exists_of_rel (rel_symm (hrel name) (S := fun m n => equal {} n m) fun _ _ _ h => h) hp
      with ⟨q, hq, hequal⟩
    have hmerged := mergeProperty_of_get? h' hq
    rw [propertyFragments_append, mergeProperty_repeat] at hmerged
    exact ⟨q, hmerged, hequal⟩
  · intro hrepeats
    have hmerged : ∀ name ∈ (b ++ b).flatMap propertyNames,
        ∃ p, mergeProperty o (propertyFragments name (b ++ b)) = .ok p := by
      intro name hname
      rcases get?_of_mergeProperties h ((hused name).1 hname) with ⟨p, hp, -⟩
      rcases hrepeats name p hp with ⟨n, hn, -⟩
      rw [propertyFragments_append, mergeProperty_repeat]
      exact ⟨n, hn⟩
    rcases exists_mergeProperties_ok hmerged with ⟨properties', h'⟩
    refine ⟨properties', h', fun name => ?_⟩
    by_cases hname : name ∈ b.flatMap propertyNames
    · rcases get?_of_mergeProperties h hname with ⟨p, hp, -⟩
      rcases get?_of_mergeProperties h' ((hused name).2 hname) with ⟨q, hq, hq'⟩
      rcases hrepeats name p hp with ⟨n, hn, hequal⟩
      rw [propertyFragments_append, mergeProperty_repeat, hn] at hq'
      cases hq'
      rw [hp, hq]
      exact .some hequal
    · rw [get?_of_mergeProperties_eq_none h hname,
        get?_of_mergeProperties_eq_none h' (mt (hused name).1 hname)]
      exact .none

/-- Fragments with one tag reduce to the same when they are found twice, just
    when what is inside them is merged to the same. -/
theorem reduce_repeat_iff (h : reduce o tag b = .ok (some s)) :
    (∃ t, reduce o tag (b ++ b) = .ok (some t) ∧ sameTagged {} tag t s) ↔
      (tag = .array ∨ tag = .map → ∀ c, s.items = some c → Repeats o (itemFragments b) c) ∧
      (tag = .object → ∀ name p, s.property? name = some p →
        Repeats o (propertyFragments name b) p) := by
  have hb := ne_nil_of_reduce h
  have hbb : b ++ b ≠ [] := List.append_ne_nil_of_left_ne_nil hb b
  rcases reduce_cases h with ⟨ht, hhead⟩ | ⟨ht, items, hitems, rfl⟩ |
    ⟨rfl, properties, hproperties, rfl⟩
  · -- The first leaf is still the first.
    have hcontainer : ¬ (tag = .array ∨ tag = .map) ∧ tag ≠ .object := by
      constructor
      · rintro (rfl | rfl) <;> cases ht
      · rintro rfl
        cases ht
    simp only [hcontainer, false_imp_iff, and_self, iff_true]
    refine ⟨s, ?_, sameTagged_leaf ht s s⟩
    rw [reduce_leaf ht, List.head?_append, hhead]
    rfl
  · have hne : tag ≠ .object := by
      rintro rfl
      rcases ht with ht | ht <;> cases ht
    simp only [ht, hne, true_imp_iff, false_imp_iff, and_true, items_container]
    rw [← mergeItems_repeat_iff hitems, reduce_container ht hbb, itemFragments_append]
    constructor
    · rintro ⟨t, ht', hsame⟩
      rcases bind_eq_ok_iff.1 ht' with ⟨items', hitems', h⟩
      cases h
      refine ⟨items', hitems', ?_⟩
      have hparts := (sameTagged_iff_parts.1 hsame).1 ""
      rw [part_container ht, part_container ht] at hparts
      exact hparts
    · rintro ⟨items', hitems', hrel⟩
      rw [hitems']
      refine ⟨_, rfl, (sameTagged_container_iff ht).2 ?_⟩
      rw [items_container, items_container]
      cases hrel with
      | some hequal => exact Or.inr ⟨_, _, rfl, rfl, hequal⟩
      | none => exact Or.inl ⟨rfl, rfl⟩
  · simp only [reduceCtorEq, or_self, false_imp_iff, true_and, true_imp_iff, property?_object]
    rw [← mergeProperties_repeat_iff hproperties, reduce_object hbb]
    constructor
    · rintro ⟨t, ht', hsame⟩
      rcases bind_eq_ok_iff.1 ht' with ⟨properties', hproperties', h⟩
      cases h
      refine ⟨properties', hproperties', fun name => ?_⟩
      have hparts := (sameTagged_iff_parts.1 hsame).1 name
      unfold part at hparts
      rw [property?_object, property?_object] at hparts
      exact hparts
    · rintro ⟨properties', hproperties', hrel⟩
      rw [hproperties']
      refine ⟨_, rfl, sameTagged_iff_parts.2 ⟨fun name => ?_, fun _ => Or.inr fun name => ?_⟩⟩
      · unfold part
        rw [property?_object, property?_object]
        exact hrel name
      · rw [requiredNames_object, requiredNames_object]
        exact mem_mergeRequired_repeat name

/-! ### All tags -/

/-- Repeating a merge adds nothing just when it adds nothing under any tag. -/
theorem repeats_iff_reduce {r : Tag → Option Schema}
    (hr : ∀ tag, reduce o tag (tagged tag (absorb (allFragments xs))) = .ok (r tag))
    (hm : merge o xs = .ok (joinFound (Tag.all.filterMap r))) :
    Repeats o xs (joinFound (Tag.all.filterMap r)) ↔
      ∀ tag s, r tag = some s → ∃ t,
        reduce o tag (tagged tag (absorb (allFragments xs)) ++
          tagged tag (absorb (allFragments xs))) = .ok (some t) ∧ sameTagged {} tag t s := by
  have hof : ∀ tag s, r tag = some s → s.IsOf tag := isOf_of_reduce_bucket fun tag _ => hr tag
  constructor
  · rintro ⟨n, hn, hequal⟩ tag s hs
    rcases exists_of_merge_ok hn with ⟨q, hq, hqof, rfl⟩
    have htyped : ∀ {k : Schema} {ys : List Schema}, merge o ys = .ok k →
        ∀ f ∈ k.fragments, ∃ tag, f.tag? = some tag :=
      fun h => (refusal?_eq_none_iff.1 (refusal?_fragments_of_merge h)).2
    have hpaired := (equal_iff_tagged (htyped hn) (htyped hm)).1 hequal tag
    rw [tagged_fragments_joinFound hqof, tagged_fragments_joinFound hof, hs] at hpaired
    rcases hpaired.exists_left (List.mem_singleton_self s) with ⟨t, ht, hsame⟩
    have hreduce := hq tag
    rw [bucket_repeat, Option.mem_toList.1 ht] at hreduce
    exact ⟨t, hreduce, hsame⟩
  · intro h
    -- Under each tag there is the same as before, or nothing, as before.
    have hreduce : ∀ tag, ∃ t, reduce o tag (tagged tag (absorb (allFragments (xs ++ xs)))) = .ok t ∧
        Option.Rel (fun t s => sameTagged {} tag t s) t (r tag) := by
      intro tag
      rw [bucket_repeat]
      cases hs : r tag with
      | none =>
          have hnil := (reduce_eq_none_iff (hr tag)).1 hs
          rw [hnil]
          exact ⟨none, reduce_nil tag, .none⟩
      | some s =>
          rcases h tag s hs with ⟨t, ht, hsame⟩
          exact ⟨some t, ht, .some hsame⟩
    choose q hq hrel using hreduce
    have hrefusal := (merge_eq_ok_iff.1 hm).1
    rw [← refusal?_repeat, ← allFragments_append] at hrefusal
    refine ⟨_, merge_eq_ok_iff.2 ⟨hrefusal, q, hq, rfl⟩, ?_⟩
    exact equal_joinFound (isOf_of_reduce_bucket fun tag _ => hq tag) hof hrel

/-- A leaf merged with itself stays as it is. -/
theorem repeats_leaf (ht : tag.isContainer = false) (hf : f.IsOf tag) : Repeats o [f] f := by
  have hfragments : allFragments ([f] ++ [f]) = [f, f] := by
    rw [allFragments_append, allFragments_singleton, hf.isAtomic.fragments_eq]
    rfl
  have htagged : ∀ tag', tagged tag' [f, f] = if tag' = tag then [f, f] else [] := by
    intro tag'
    simp only [tagged, List.filter_cons, hf.2, List.filter_nil, beq_iff_eq, Option.some.injEq,
      eq_comm (a := tag)]
    split <;> rfl
  have hbucket : ∀ tag', reduce o tag' (tagged tag' (absorb [f, f])) =
      .ok (if tag' = tag then some f else none) := by
    intro tag'
    by_cases htag : tag' = tag
    · -- A leaf that is a number is no integer, so it is not dropped.
      have hkept : ¬ (tag' = .integer ∧ tagged .number [f, f] ≠ []) := by
        rintro ⟨rfl, hnumber⟩
        rw [htagged, if_neg (by rw [← htag]; decide)] at hnumber
        exact hnumber rfl
      rw [tagged_absorb, if_neg hkept, htagged, if_pos htag, if_pos htag, htag, reduce_leaf ht]
      rfl
    · rw [tagged_absorb, htagged tag', if_neg htag, ite_self, if_neg htag]
      exact reduce_nil tag'
  have hmerged : merge o ([f] ++ [f]) = .ok f := by
    refine merge_eq_ok_iff.2 ⟨?_, _, fun tag' => by rw [hfragments]; exact hbucket tag', ?_⟩
    · rw [hfragments]
      refine refusal?_eq_none_iff.2 ⟨List.cons_ne_nil f [f], fun g hg => ⟨tag, ?_⟩⟩
      have hgf : g = f := by simpa using hg
      rw [hgf]
      exact hf.2
    · rw [filterMap_eq_toList Tag.nodup_all (Tag.mem_all tag) fun tag' h => if_neg h, if_pos rfl]
      rfl
  exact ⟨f, hmerged, equal_self {} f⟩

/-- The items of arrays or maps stay as they are when what is taken over from
    them does. -/
theorem repeats_items_iff (hreduce : reduce o tag b = .ok (some s)) (ht : tag = .array ∨ tag = .map)
    (ih : ∀ c, merge o (itemFragments b) = .ok c →
      (Repeats o (itemFragments b) c ↔ ∀ f, Kept (itemFragments b) f → Repeats o [f] f)) :
    (∀ c, s.items = some c → Repeats o (itemFragments b) c) ↔
      ∀ f, Kept (itemFragments b) f → Repeats o [f] f := by
  rw [reduce_container ht (ne_nil_of_reduce hreduce)] at hreduce
  rcases bind_eq_ok_iff.1 hreduce with ⟨items, hitems, h⟩
  cases h
  rw [items_container]
  by_cases hfs : itemFragments b = []
  · -- Nothing is known of the items, and nothing is taken over.
    rw [hfs] at hitems
    cases hitems
    constructor
    · intro _ f hf
      exact absurd hfs hf.ne_nil
    · intro _ c hc
      cases hc
  · rw [mergeItems_of_ne_nil hfs] at hitems
    rcases bind_eq_ok_iff.1 hitems with ⟨c, hc, h⟩
    cases h
    rw [← ih c hc]
    simp only [Option.some.injEq, forall_eq']

/-- The properties of objects stay as they are when what is taken over from
    them does, be it the only fragment or part of several. -/
theorem repeats_properties_iff (hreduce : reduce o .object b = .ok (some s))
    (ih : ∀ name p, merge o (propertyFragments name b) = .ok p →
      (Repeats o (propertyFragments name b) p ↔
        ∀ f, Kept (propertyFragments name b) f → Repeats o [f] f)) :
    (∀ name p, s.property? name = some p → Repeats o (propertyFragments name b) p) ↔
      ∀ name f, propertyFragments name b = [f] ∨
        (∀ g, propertyFragments name b ≠ [g]) ∧ Kept (propertyFragments name b) f →
          Repeats o [f] f := by
  rw [reduce_object (ne_nil_of_reduce hreduce)] at hreduce
  rcases bind_eq_ok_iff.1 hreduce with ⟨properties, hproperties, h⟩
  cases h
  simp only [property?_object]
  constructor
  · intro h name f hf
    have hne : propertyFragments name b ≠ [] := by
      rcases hf with hf | ⟨-, hf⟩
      · rw [hf]
        exact List.cons_ne_nil f []
      · exact hf.ne_nil
    have hused : name ∈ b.flatMap propertyNames := by
      by_contra hunused
      exact hne (propertyFragments_eq_nil hunused)
    rcases get?_of_mergeProperties hproperties hused with ⟨p, hp, hmerged⟩
    have hrepeats := h name p hp
    rcases mergeProperty_cases hmerged with hone | ⟨hmany, hmerged⟩
    · rw [hone] at hf hrepeats
      rcases hf with hf | ⟨hmany, -⟩
      · cases hf
        exact hrepeats
      · exact absurd rfl (hmany p)
    · rcases hf with hf | ⟨-, hf⟩
      · exact absurd hf (hmany f)
      · exact (ih name p hmerged).1 hrepeats f hf
  · intro h name p hp
    rcases mergeProperty_cases (mergeProperty_of_get? hproperties hp) with hone | ⟨hmany, hmerged⟩
    · rw [hone]
      exact h name p (Or.inl hone)
    · exact (ih name p hmerged).2 fun f hf => h name f (Or.inr ⟨hmany, hf⟩)

/-- Repeating a merge adds nothing just when what has been taken over as it is
    would stay the same in a merge, by induction along the calls of the merge
    to itself. -/
theorem repeats_iff_kept (o : MergeOptions) (xs : List Schema) :
    ∀ m, merge o xs = .ok m → (Repeats o xs m ↔ ∀ f, Kept xs f → Repeats o [f] f) := by
  induction xs using merge_induction with
  | step xs ihItems ihProperties =>
      intro m hm
      rcases exists_of_merge_ok hm with ⟨r, hr, -, rfl⟩
      have hsome : ∀ {tag s}, r tag = some s →
          reduce o tag (tagged tag (absorb (allFragments xs))) = .ok (some s) :=
        fun {tag _} hs => (hr tag).trans (congrArg Except.ok hs)
      have hfound : ∀ {tag}, tagged tag (absorb (allFragments xs)) ≠ [] → ∃ s, r tag = some s :=
        fun {tag} hb => Option.ne_none_iff_exists'.1 (mt (reduce_eq_none_iff (hr tag)).1 hb)
      have hitems := fun {tag s} (hs : r tag = some s) (ht : tag = .array ∨ tag = .map) =>
        repeats_items_iff (hsome hs) ht (ihItems tag (ne_nil_of_reduce (hsome hs)))
      have hproperties := fun {s} (hs : r .object = some s) =>
        repeats_properties_iff (hsome hs) fun name =>
          ihProperties .object name (ne_nil_of_reduce (hsome hs))
      rw [repeats_iff_reduce hr hm]
      constructor
      · intro h f hf
        have hinside := fun {tag s} (hs : r tag = some s) =>
          (reduce_repeat_iff (hsome hs)).1 (h tag s hs)
        cases hf with
        | leaf ht hhead => exact repeats_leaf ht (isOf_of_mem_bucket (List.mem_of_head? hhead))
        | @items _ tag _ ht hf =>
            have hb : tagged tag (absorb (allFragments xs)) ≠ [] := by
              intro hnil
              rw [hnil] at hf
              exact hf.ne_nil rfl
            rcases hfound hb with ⟨s, hs⟩
            exact (hitems hs ht).1 ((hinside hs).1 ht) f hf
        | @only _ name _ hone =>
            have hb : tagged .object (absorb (allFragments xs)) ≠ [] := by
              intro hnil
              rw [hnil] at hone
              cases hone
            rcases hfound hb with ⟨s, hs⟩
            exact (hproperties hs).1 ((hinside hs).2 rfl) name f (Or.inl hone)
        | @property _ name _ hmany hf =>
            have hb : tagged .object (absorb (allFragments xs)) ≠ [] := by
              intro hnil
              rw [hnil] at hf
              exact hf.ne_nil rfl
            rcases hfound hb with ⟨s, hs⟩
            exact (hproperties hs).1 ((hinside hs).2 rfl) name f (Or.inr ⟨hmany, hf⟩)
      · intro h tag s hs
        refine (reduce_repeat_iff (hsome hs)).2 ⟨fun ht => ?_, ?_⟩
        · exact (hitems hs ht).2 fun f hf => h f (.items ht hf)
        · rintro rfl
          refine (hproperties hs).2 fun name f hf => ?_
          rcases hf with hone | ⟨hmany, hf⟩
          · exact h f (.only hone)
          · exact h f (.property hmany hf)

/-! ### A single schema -/

/-- Without options, a schema merged with itself stays as it is when it can be
    merged and is in reduced form. -/
theorem repeats_self_iff :
    Repeats {} [f] f ↔ (∃ n, merge {} [f, f] = .ok n) ∧ f.isReduced := by
  unfold Repeats
  rw [List.singleton_append]
  constructor
  · rintro ⟨n, hn, hequal⟩
    exact ⟨⟨n, hn⟩, (equal_merge_twice_iff f n hn).1 hequal⟩
  · rintro ⟨⟨n, hn⟩, hreduced⟩
    exact ⟨n, hn, (equal_merge_twice_iff f n hn).2 hreduced⟩

/-- A schema that can be merged with itself can be merged, and the merge with
    itself adds nothing just when all that the single merge takes over as it is
    would stay the same, merged with itself. -/
theorem merge_repeated (o : MergeOptions) (s : Schema) :
    ((∃ n, merge o [s, s] = .ok n) → ∃ m, merge o [s] = .ok m) ∧
      ∀ m, merge o [s] = .ok m →
        ((∃ n, merge o [s, s] = .ok n ∧ equal {} n m) ↔
          ∀ f, Kept [s] f → ∃ g, merge o [f, f] = .ok g ∧ equal {} g f) :=
  ⟨exists_merge_of_repeat o [s], repeats_iff_kept o [s]⟩

/-- An object about whose only property one thing is said. -/
def around (p : Schema) : Schema := object (.ofList [("a", p)]) none

/-- An array of integers or numbers, which a merge calls numbers. -/
def looseArray : Schema := container .array (some (ofTags [.integer, .number]))

theorem kept_looseArray : Kept [around looseArray] looseArray := @Kept.only _ "a" _ (by cbv)

theorem kept_untyped : Kept [around {}] {} := @Kept.only _ "a" _ (by cbv)

/-- The only fragment of a property is taken over. What it is merged to with
    itself is something else for the array, and nothing at all without a
    type. -/
theorem merge_repeated_lone :
    (∃ m, merge {} [around looseArray] = .ok m ∧
      ¬ ∃ n, merge {} [around looseArray, around looseArray] = .ok n ∧ equal {} n m) ∧
    ∃ m, merge {} [around {}] = .ok m ∧
      ¬ ∃ n, merge {} [around {}, around {}] = .ok n ∧ equal {} n m := by
  have harray : merge {} [around looseArray] = .ok (around looseArray) := by cbv
  have huntyped : merge {} [around {}] = .ok (around {}) := by cbv
  refine ⟨⟨_, harray, fun h => ?_⟩, _, huntyped, fun h => ?_⟩
  · have hinner : merge {} [looseArray, looseArray] =
        .ok (container .array (some (ofTag .number))) := by
      cbv
    rcases ((merge_repeated {} _).2 _ harray).1 h _ kept_looseArray with ⟨g, hg, hequal⟩
    rw [hinner] at hg
    cases hg
    have hdiffers : equal {} (container .array (some (ofTag .number))) looseArray = false := by cbv
    exact Bool.false_ne_true (hdiffers.symm.trans hequal)
  · have hinner : merge {} [{}, {}] = .error (.untyped {}) := by cbv
    rcases ((merge_repeated {} _).2 _ huntyped).1 h _ kept_untyped with ⟨g, hg, -⟩
    rw [hinner] at hg
    cases hg

end Schema

end SampleSchema
