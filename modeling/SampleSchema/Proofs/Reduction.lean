import SampleSchema.Proofs.Attempts
import SampleSchema.Proofs.Fragments

/-!
# Merging Tag by Tag

A merge taken apart into what happens to the fragments of one tag.

`reduce` is that part of a merge: what the fragments with one tag become. It
is stated without the recursion, which only shows in `mergeItems` and
`mergeProperty`, the two places where a merge calls itself. Everything proved
about merging is proved about `reduce` first, one case for each kind of tag,
and carried over by `merge_eq_ok_iff` or `merge_congr`.

Integers are dropped beside numbers at the end of a merge. Since nothing
about integers can fail, they may as well be dropped at the beginning, before
the fragments are sorted by tag, and `merge_eq` says so. The result of each
tag is then final, and no later lemma has to remember the exception.

## Main definitions

* `Schema.mergeItems`, `Schema.mergeProperties`, `Schema.mergeRequired`: The
  parts of a reduced container or object.
* `Schema.reduce`: What the fragments with one tag become.

## Theorems

* `Schema.merge_eq`: A merge reduces tag by tag and joins.
* `Schema.merge_eq_ok_iff`: When a merge succeeds, and with what.
* `Schema.exists_of_merge_ok`: What a successful merge found.
* `Schema.merge_congr`: Merges that reduce alike are equal.
* `Schema.merge_induction`: Induction along the calls of a merge to itself.
* `Schema.reduce_cases`: What fragments with one tag reduce to.
* `Schema.isOf_of_reduce`: Reducing keeps the tag.
* `Schema.get?_of_mergeProperties`: What the properties become.
-/

namespace SampleSchema

namespace Schema

/-- What the items become. Items that offer nothing are left out. -/
def mergeItems (o : MergeOptions) (fs : List Schema) : Except MergeError (Option Schema) :=
  if fs.isEmpty then pure none
  else do
    let items ← merge o fs
    pure (some items)

/-- What a property becomes. A single fragment stays as it is. -/
def mergeProperty (o : MergeOptions) (fs : List Schema) : Except MergeError Schema :=
  match fs with
  | [f] => pure f
  | _ => merge o fs

/-- What the properties become, under every name that is used. -/
def mergeProperties (o : MergeOptions) (bucket : List Schema) : Except MergeError (Keyed Schema) :=
  (Keyed.tabulate (bucket.flatMap propertyNames) fun _ => ()).mapM fun name _ =>
    mergeProperty o (propertyFragments name bucket)

/-- What the required names become. -/
def mergeRequired (o : MergeOptions) (bucket : List Schema) : Option (List String) :=
  if o.noRequired then none else some (commonNames (bucket.map requiredNames))

/-- What the fragments with one tag become. -/
def reduce (o : MergeOptions) (tag : Tag) (bucket : List Schema) :
    Except MergeError (Option Schema) :=
  if bucket.isEmpty then pure none
  else
    match tag with
    | .array | .map => do
        let items ← mergeItems o (itemFragments bucket)
        pure (some (container tag items))
    | .object => do
        let properties ← mergeProperties o bucket
        pure (some (object properties (mergeRequired o bucket)))
    | _ => pure bucket.head?

variable {o : MergeOptions}

theorem mergeItems_of_ne_nil {fs : List Schema} (h : fs ≠ []) :
    mergeItems o fs = (merge o fs >>= fun items => pure (some items)) :=
  if_neg (mt List.isEmpty_iff.1 h)

/-- Items that are there have been merged. -/
theorem merge_of_mergeItems {fs : List Schema} {c : Schema} (h : mergeItems o fs = .ok (some c)) :
    merge o fs = .ok c := by
  by_cases hfs : fs = []
  · rw [hfs] at h
    cases h
  · rw [mergeItems_of_ne_nil hfs] at h
    rcases bind_eq_ok_iff.1 h with ⟨m, hm, h⟩
    cases h
    exact hm

/-- A property is its only fragment, or its fragments have been merged. -/
theorem mergeProperty_cases {fs : List Schema} {p : Schema} (h : mergeProperty o fs = .ok p) :
    fs = [p] ∨ (∀ f, fs ≠ [f]) ∧ merge o fs = .ok p := by
  unfold mergeProperty at h
  split at h
  · next f =>
      cases h
      exact Or.inl rfl
  · next hne => exact Or.inr ⟨hne, h⟩

/-! ### One tag -/

theorem reduce_nil (tag : Tag) : reduce o tag [] = .ok none := rfl

theorem reduce_leaf {tag : Tag} (ht : tag.isContainer = false) (bucket : List Schema) :
    reduce o tag bucket = .ok bucket.head? := by
  unfold reduce
  by_cases hb : bucket.isEmpty
  · rw [if_pos hb, List.isEmpty_iff.1 hb]
    rfl
  · rw [if_neg hb]
    cases tag <;> first | rfl | cases ht

theorem reduce_container {tag : Tag} (ht : tag = .array ∨ tag = .map) {bucket : List Schema}
    (hb : bucket ≠ []) :
    reduce o tag bucket =
      (mergeItems o (itemFragments bucket) >>= fun items => pure (some (container tag items))) := by
  unfold reduce
  rw [if_neg (mt List.isEmpty_iff.1 hb)]
  rcases ht with rfl | rfl <;> rfl

theorem reduce_object {bucket : List Schema} (hb : bucket ≠ []) :
    reduce o .object bucket =
      (mergeProperties o bucket >>= fun properties =>
        pure (some (object properties (mergeRequired o bucket)))) := by
  unfold reduce
  rw [if_neg (mt List.isEmpty_iff.1 hb)]

/-- There is something to reduce to only if there are fragments. -/
theorem ne_nil_of_reduce {tag : Tag} {bucket : List Schema} {s : Schema}
    (h : reduce o tag bucket = .ok (some s)) : bucket ≠ [] := by
  intro hnil
  rw [hnil, reduce_nil] at h
  cases h

/-- What fragments with one tag reduce to: the first of them, or an array or
    map with their items merged, or an object with their properties merged. -/
theorem reduce_cases {tag : Tag} {bucket : List Schema} {s : Schema}
    (h : reduce o tag bucket = .ok (some s)) :
    (tag.isContainer = false ∧ bucket.head? = some s) ∨
    ((tag = .array ∨ tag = .map) ∧ ∃ items,
      mergeItems o (itemFragments bucket) = .ok items ∧ s = container tag items) ∨
    (tag = .object ∧ ∃ properties,
      mergeProperties o bucket = .ok properties ∧
        s = object properties (mergeRequired o bucket)) := by
  have hb := ne_nil_of_reduce h
  rcases tag_cases tag with ht | ht | rfl
  · rw [reduce_leaf ht] at h
    exact Or.inl ⟨ht, Except.ok.inj h⟩
  · rw [reduce_container ht hb] at h
    rcases bind_eq_ok_iff.1 h with ⟨items, hitems, h⟩
    cases h
    exact Or.inr (Or.inl ⟨ht, items, hitems, rfl⟩)
  · rw [reduce_object hb] at h
    rcases bind_eq_ok_iff.1 h with ⟨properties, hproperties, h⟩
    cases h
    exact Or.inr (Or.inr ⟨rfl, properties, hproperties, rfl⟩)

/-- Fragments with a tag reduce to one with that tag. -/
theorem isOf_of_reduce {tag : Tag} {bucket : List Schema} (hbucket : ∀ f ∈ bucket, f.IsOf tag)
    {s : Schema} (h : reduce o tag bucket = .ok (some s)) : s.IsOf tag := by
  rcases reduce_cases h with ⟨_, hs⟩ | ⟨_, items, _, rfl⟩ | ⟨rfl, properties, _, rfl⟩
  · exact hbucket s (List.mem_of_head? hs)
  · exact isOf_container tag items
  · exact isOf_object properties _

/-- Only no fragments reduce to nothing. -/
theorem eq_nil_of_reduce_none {tag : Tag} {bucket : List Schema}
    (h : reduce o tag bucket = .ok none) : bucket = [] := by
  by_cases hb : bucket = []
  · exact hb
  · rcases tag_cases tag with ht | ht | rfl
    · rw [reduce_leaf ht] at h
      exact List.head?_eq_none_iff.1 (Except.ok.inj h)
    · rw [reduce_container ht hb] at h
      rcases bind_eq_ok_iff.1 h with ⟨items, _, h⟩
      cases h
    · rw [reduce_object hb] at h
      rcases bind_eq_ok_iff.1 h with ⟨properties, _, h⟩
      cases h

/-! ### Refusing and absorbing -/

theorem refusal?_eq_none_iff {fs : List Schema} :
    refusal? fs = none ↔ fs ≠ [] ∧ ∀ f ∈ fs, ∃ tag, f.tag? = some tag := by
  unfold refusal?
  by_cases hnil : fs = []
  · subst hnil
    simp only [List.isEmpty_nil, if_true, reduceCtorEq, ne_eq, not_true_eq_false, false_and]
  · rw [if_neg (mt List.isEmpty_iff.1 hnil), Option.map_eq_none_iff,
      List.find?_eq_none]
    simp only [ne_eq, hnil, not_false_eq_true, true_and, Option.isNone_iff_eq_none,
      ← Option.isSome_iff_exists, ← Option.ne_none_iff_isSome]

theorem any_number_iff {fs : List Schema} :
    (fs.any fun s => s.tag? == some .number) = true ↔ tagged .number fs ≠ [] := by
  rw [List.any_eq_true, tagged, ne_eq, List.filter_eq_nil_iff]
  constructor
  · rintro ⟨s, hs, ht⟩ h
    exact h s hs ht
  · intro h
    by_cases hex : ∃ s, s ∈ fs ∧ (s.tag? == some .number) = true
    · exact hex
    · exact absurd (fun s hs ht => hex ⟨s, hs, ht⟩) h

/-- Absorbing takes the integers away, and only if there is a number. -/
theorem tagged_absorb (tag : Tag) (fs : List Schema) :
    tagged tag (absorb fs) =
      if tag = .integer ∧ tagged .number fs ≠ [] then [] else tagged tag fs := by
  unfold absorb
  by_cases hnumber : tagged .number fs ≠ []
  · rw [if_pos (any_number_iff.2 hnumber), tagged, tagged, List.filter_filter]
    by_cases htag : tag = .integer
    · -- What is kept is no integer, so no integer is found among it.
      subst htag
      rw [if_pos ⟨rfl, hnumber⟩]
      refine List.filter_eq_nil_iff.2 fun s _ h => ?_
      simp only [bne, Bool.and_eq_true, beq_iff_eq, Bool.not_eq_true'] at h
      exact absurd (beq_iff_eq.2 h.1) (by rw [h.2]; exact Bool.false_ne_true)
    · -- Any other tag is not asked about twice.
      rw [if_neg fun h => htag h.1]
      refine List.filter_congr fun s _ => ?_
      by_cases hs : s.tag? = some tag
      · have hne : (s.tag? != some .integer) = true := by
          rw [hs]
          exact bne_iff_ne.2 fun he => htag (Option.some.inj he)
        rw [hne, Bool.and_true]
      · rw [beq_eq_false_iff_ne.2 hs, Bool.false_and]
  · rw [if_neg fun h => hnumber (any_number_iff.1 h), if_neg fun h => hnumber h.2]

/-! ### All tags -/

theorem merge_eq_reduce (o : MergeOptions) (xs : List Schema) :
    merge o xs =
      (match refusal? (allFragments xs) with
      | some e => .error e
      | none =>
          (Tag.all.mapM fun tag => reduce o tag (tagged tag (allFragments xs))) >>= fun found =>
            pure (joinFound (absorb (found.filterMap id)))) := by
  rw [merge]
  cases refusal? (allFragments xs) with
  | some e => rfl
  | none =>
      refine congrArg (fun x => x >>= fun found => pure (joinFound (absorb (found.filterMap id))))
        (mapM_congr fun tag _ => ?_)
      -- The definition makes sure of a fragment, so that what is merged inside is smaller.
      unfold reduce
      by_cases hb : tagged tag (allFragments xs) = []
      · rw [dif_pos hb, if_pos (List.isEmpty_iff.2 hb)]
      · rw [dif_neg hb, if_neg (mt List.isEmpty_iff.1 hb)]
        cases tag with
        | array | map =>
            simp only [mergeItems]
            split
            · rfl
            · cases merge o (itemFragments (tagged _ (allFragments xs))) <;> rfl
        | _ => rfl

/-- Absorbing what was found tag by tag only concerns the integers. -/
theorem absorb_filterMap {r : Tag → Option Schema} (hr : ∀ tag s, r tag = some s → s.IsOf tag) :
    absorb (Tag.all.filterMap r) =
      Tag.all.filterMap fun tag => if tag = .integer ∧ r .number ≠ none then none else r tag := by
  have hnumber : tagged .number (Tag.all.filterMap r) ≠ [] ↔ r .number ≠ none := by
    rw [tagged_filterMap hr, ne_eq, ne_eq, Option.toList_eq_nil_iff]
  unfold absorb
  by_cases hn : r .number ≠ none
  · rw [if_pos (any_number_iff.2 (hnumber.2 hn)), List.filter_filterMap]
    refine congrArg (fun f => Tag.all.filterMap f) (funext fun tag => ?_)
    cases htag : r tag with
    | none => rw [Option.filter_none, ite_self]
    | some s =>
        -- What was found under a tag has that tag, so only one tag is filtered out.
        rw [Option.filter_some, (hr tag s htag).2]
        by_cases hint : tag = .integer
        · subst hint
          exact (if_neg Bool.false_ne_true).trans (if_pos ⟨rfl, hn⟩).symm
        · have hkeep : (some tag != some Tag.integer) = true :=
            bne_iff_ne.2 fun he => hint (Option.some.inj he)
          exact (if_pos hkeep).trans (if_neg fun h => hint h.1).symm
  · rw [if_neg fun h => hn (hnumber.1 (any_number_iff.1 h))]
    refine congrArg (fun f => Tag.all.filterMap f) (funext fun tag => ?_)
    rw [if_neg fun h => hn h.2]

theorem reduce_eq_none_iff {tag : Tag} {bucket : List Schema} {s : Option Schema}
    (h : reduce o tag bucket = .ok s) : s = none ↔ bucket = [] := by
  constructor
  · rintro rfl
    exact eq_nil_of_reduce_none h
  · rintro rfl
    rw [reduce_nil] at h
    exact (Except.ok.inj h).symm

/-- Only the integers reduce differently without the absorbed ones, and they
    fail neither way. -/
theorem endAlike_reduce_absorb (tag : Tag) (fs : List Schema) :
    EndAlike (reduce o tag (tagged tag fs)) (reduce o tag (tagged tag (absorb fs))) := by
  rw [tagged_absorb]
  split
  · next h =>
      rw [h.1, reduce_leaf rfl, reduce_nil]
      exact Or.inl ⟨_, _, rfl, rfl⟩
  · exact EndAlike.of_eq rfl

/-- What is found among the kept fragments is what is found among all of them,
    without the integer beside a number. -/
theorem eq_of_reduce_absorb {fs : List Schema} {r k : Tag → Option Schema}
    (hr : ∀ tag, reduce o tag (tagged tag fs) = .ok (r tag))
    (hk : ∀ tag, reduce o tag (tagged tag (absorb fs)) = .ok (k tag)) :
    k = fun tag => if tag = .integer ∧ r .number ≠ none then none else r tag := by
  funext tag
  have hnumber := not_congr (reduce_eq_none_iff (hr .number))
  have hreduce := hk tag
  rw [tagged_absorb] at hreduce
  split at hreduce
  · next h =>
      rw [if_pos ⟨h.1, hnumber.2 h.2⟩]
      exact (Except.ok.inj hreduce).symm
  · next h =>
      rw [hr tag] at hreduce
      rw [if_neg fun hn => h ⟨hn.1, hnumber.1 hn.2⟩]
      exact (Except.ok.inj hreduce).symm

/-- A merge drops the integers beside numbers, reduces tag by tag, and joins
    what it finds. -/
theorem merge_eq (o : MergeOptions) (xs : List Schema) :
    merge o xs =
      (match refusal? (allFragments xs) with
      | some e => .error e
      | none =>
          (Tag.all.mapM fun tag => reduce o tag (tagged tag (absorb (allFragments xs)))) >>=
            fun found => pure (joinFound (found.filterMap id))) := by
  rw [merge_eq_reduce]
  cases refusal? (allFragments xs) with
  | some e => rfl
  | none =>
      have halike := fun tag (_ : tag ∈ Tag.all) =>
        endAlike_reduce_absorb (o := o) tag (allFragments xs)
      rcases mapM_agree halike with ⟨found, kept, hfound, hkept⟩ | ⟨e, hfound, hkept⟩
      · -- Both rows succeed: `r` drops its integer last, `k` never had it.
        rcases exists_of_mapM_ok hfound with ⟨r, hr, rfl⟩
        rcases exists_of_mapM_ok hkept with ⟨k, hk, rfl⟩
        have hr' := fun tag => hr tag (Tag.mem_all tag)
        have hof : ∀ tag s, r tag = some s → s.IsOf tag := by
          intro tag s hs
          have hreduce := hr' tag
          rw [hs] at hreduce
          exact isOf_of_reduce (fun f hf => isOf_of_mem_tagged hf) hreduce
        rw [hfound, hkept, eq_of_reduce_absorb hr' fun tag => hk tag (Tag.mem_all tag)]
        change Except.ok (joinFound (absorb ((Tag.all.map r).filterMap id))) = Except.ok _
        rw [List.filterMap_map, List.filterMap_map]
        exact congrArg (fun found => Except.ok (joinFound found)) (absorb_filterMap hof)
      · rw [hfound, hkept]
        rfl

/-- When a merge succeeds: nothing refuses, and each tag reduces. -/
theorem merge_eq_ok_iff {xs : List Schema} {m : Schema} :
    merge o xs = .ok m ↔
      refusal? (allFragments xs) = none ∧
      ∃ r : Tag → Option Schema,
        (∀ tag, reduce o tag (tagged tag (absorb (allFragments xs))) = .ok (r tag)) ∧
        m = joinFound (Tag.all.filterMap r) := by
  rw [merge_eq]
  constructor
  · intro h
    cases hrefusal : refusal? (allFragments xs) with
    | some e =>
        rw [hrefusal] at h
        cases h
    | none =>
        rw [hrefusal] at h
        rcases bind_eq_ok_iff.1 h with ⟨found, hfound, h⟩
        rcases exists_of_mapM_ok hfound with ⟨r, hr, rfl⟩
        cases h
        refine ⟨rfl, r, fun tag => hr tag (Tag.mem_all tag), ?_⟩
        rw [List.filterMap_map]
        rfl
  · rintro ⟨hrefusal, r, hr, rfl⟩
    rw [hrefusal, mapM_of_ok fun tag _ => hr tag]
    change Except.ok (joinFound ((Tag.all.map r).filterMap id)) = _
    rw [List.filterMap_map]
    rfl

/-- Merges that refuse alike and reduce alike are equal. -/
theorem merge_congr {xs ys : List Schema}
    (hrefusal : refusal? (allFragments xs) = refusal? (allFragments ys))
    (hreduce : ∀ tag, reduce o tag (tagged tag (absorb (allFragments xs))) =
      reduce o tag (tagged tag (absorb (allFragments ys)))) :
    merge o xs = merge o ys := by
  rw [merge_eq, merge_eq, hrefusal, mapM_congr fun tag _ => hreduce tag]

/-- A merge looks at nothing but fragments. -/
theorem merge_congr_fragments {xs ys : List Schema} (h : allFragments xs = allFragments ys) :
    merge o xs = merge o ys := by
  rw [merge_eq, merge_eq, h]

theorem merge_allFragments (xs : List Schema) : merge o (allFragments xs) = merge o xs :=
  merge_congr_fragments (allFragments_allFragments xs)

theorem mem_of_mem_absorb {fs : List Schema} {f : Schema} (h : f ∈ absorb fs) : f ∈ fs := by
  unfold absorb at h
  split at h
  · exact (List.mem_filter.1 h).1
  · exact h

theorem isOf_of_mem_bucket {tag : Tag} {xs : List Schema} {f : Schema}
    (hf : f ∈ tagged tag (absorb (allFragments xs))) : f.IsOf tag := by
  rcases mem_tagged_iff.1 hf with ⟨hmem, htag⟩
  exact isOf_of_mem_tagged (mem_tagged_iff.2 ⟨mem_of_mem_absorb hmem, htag⟩)

/-- What a successful merge found, with the tags in place. -/
theorem exists_of_merge_ok {xs : List Schema} {m : Schema} (h : merge o xs = .ok m) :
    ∃ r : Tag → Option Schema,
      (∀ tag, reduce o tag (tagged tag (absorb (allFragments xs))) = .ok (r tag)) ∧
      (∀ tag s, r tag = some s → s.IsOf tag) ∧ m = joinFound (Tag.all.filterMap r) := by
  rcases merge_eq_ok_iff.1 h with ⟨_, r, hr, hm⟩
  refine ⟨r, hr, fun tag s hs => ?_, hm⟩
  have hreduce := hr tag
  rw [hs] at hreduce
  exact isOf_of_reduce (fun f hf => isOf_of_mem_bucket hf) hreduce

/-! ### What a merge turns to -/

theorem maxHeight_bucket_le (tag : Tag) (xs : List Schema) :
    maxHeight (tagged tag (absorb (allFragments xs))) ≤ maxHeight xs := by
  apply maxHeight_le
  intro f hf
  have hmem : f ∈ allFragments xs := mem_of_mem_absorb (mem_tagged_iff.1 hf).1
  exact Nat.le_trans (height_le_maxHeight hmem) (maxHeight_allFragments xs)

/-- Of the fragments with one tag, a merge turns to the items and to each
    property. What holds of some schemas whenever it holds of those holds of
    all schemas. -/
theorem merge_induction {P : List Schema → Prop}
    (step : ∀ xs,
      (∀ tag, tagged tag (absorb (allFragments xs)) ≠ [] →
        P (itemFragments (tagged tag (absorb (allFragments xs))))) →
      (∀ tag name, tagged tag (absorb (allFragments xs)) ≠ [] →
        P (propertyFragments name (tagged tag (absorb (allFragments xs))))) → P xs)
    (xs : List Schema) : P xs :=
  step xs (fun _ _ => merge_induction step _) (fun _ _ _ => merge_induction step _)
termination_by maxHeight xs
decreasing_by
  · exact Nat.lt_of_lt_of_le (maxHeight_itemFragments_lt ‹_›) (maxHeight_bucket_le _ xs)
  · exact Nat.lt_of_lt_of_le (maxHeight_propertyFragments_lt _ ‹_›) (maxHeight_bucket_le _ xs)

/-- Only the integers are ever absorbed. -/
theorem tagged_absorb_of_ne {tag : Tag} (h : tag ≠ .integer) (fs : List Schema) :
    tagged tag (absorb fs) = tagged tag fs := by
  rw [tagged_absorb, if_neg fun hn => h hn.1]

/-! ### Parts of a reduced fragment -/

theorem items_container (tag : Tag) (items : Option Schema) :
    (container tag items).items = items := rfl

theorem property?_object (properties : Keyed Schema) (required : Option (List String))
    (name : String) : (object properties required).property? name = properties.get? name := by
  unfold object property?
  by_cases h : properties.isEmpty
  · rw [if_pos h, Keyed.isEmpty_iff.1 h name]
    rfl
  · rw [if_neg h]
    rfl

theorem propertyNames_object (properties : Keyed Schema) (required : Option (List String)) :
    (object properties required).propertyNames = properties.keys := by
  unfold object propertyNames
  by_cases h : properties.isEmpty
  · rw [if_pos h, Keyed.keys, List.isEmpty_iff.1 h]
    rfl
  · rw [if_neg h]
    rfl

theorem requiredNames_object (properties : Keyed Schema) (required : Option (List String)) :
    (object properties required).requiredNames = required.getD [] := by
  unfold object requiredNames
  cases required with
  | none => rfl
  | some names => cases names <;> rfl

theorem mem_propertyNames_iff {s : Schema} {name : String} :
    name ∈ s.propertyNames ↔ ∃ c, s.property? name = some c := by
  unfold propertyNames property?
  cases s.properties with
  | none =>
      constructor
      · intro h
        exact absurd h List.not_mem_nil
      · rintro ⟨c, hc⟩
        cases hc
  | some properties => exact Keyed.mem_keys_iff

/-- Each name that is used has a property, merged from what is said about it. -/
theorem get?_of_mergeProperties {bucket : List Schema} {properties : Keyed Schema}
    (h : mergeProperties o bucket = .ok properties) {name : String}
    (hname : name ∈ bucket.flatMap propertyNames) :
    ∃ p, properties.get? name = some p ∧
      mergeProperty o (propertyFragments name bucket) = .ok p := by
  rcases Keyed.exists_of_mapM_ok h with ⟨w, hw, rfl⟩
  have hget := Keyed.get?_tabulate (bucket.flatMap propertyNames) (fun _ => ()) name
  rw [if_pos hname] at hget
  refine ⟨w name (), ?_, hw name () hget⟩
  rw [Keyed.get?_map, hget]
  rfl

theorem get?_of_mergeProperties_eq_none {bucket : List Schema} {properties : Keyed Schema}
    (h : mergeProperties o bucket = .ok properties) {name : String}
    (hname : name ∉ bucket.flatMap propertyNames) : properties.get? name = none := by
  rcases Keyed.exists_of_mapM_ok h with ⟨w, hw, rfl⟩
  rw [Keyed.get?_map, Keyed.get?_tabulate, if_neg hname]
  rfl

/-- What stands under a name is what its fragments become. -/
theorem mergeProperty_of_get? {bucket : List Schema} {properties : Keyed Schema}
    (h : mergeProperties o bucket = .ok properties) {name : String} {p : Schema}
    (hget : properties.get? name = some p) :
    mergeProperty o (propertyFragments name bucket) = .ok p := by
  by_cases hname : name ∈ bucket.flatMap propertyNames
  · rcases get?_of_mergeProperties h hname with ⟨q, hq, hmerged⟩
    rw [hget] at hq
    cases hq
    exact hmerged
  · rw [get?_of_mergeProperties_eq_none h hname] at hget
    cases hget

/-! ### Required names -/

theorem commonNames_cons (first : List String) (others : List (List String)) :
    commonNames (first :: others) =
      first.eraseDups.filter fun name => others.all fun names => names.contains name := rfl

/-- A name is shared when every list has it. -/
theorem mem_commonNames_iff {lists : List (List String)} (h : lists ≠ []) {name : String} :
    name ∈ commonNames lists ↔ ∀ names ∈ lists, name ∈ names := by
  cases lists with
  | nil => exact absurd rfl h
  | cons first others =>
      simp only [commonNames_cons, List.mem_filter, List.mem_eraseDups, List.all_eq_true,
        List.contains_iff_mem, List.forall_mem_cons]

/-- Where the names of every list ascend, so do the shared ones. -/
theorem pairwise_commonNames {lists : List (List String)}
    (h : ∀ names ∈ lists, names.Pairwise (· < ·)) : (commonNames lists).Pairwise (· < ·) := by
  cases lists with
  | nil => exact List.Pairwise.nil
  | cons first others =>
      have hfirst := h first List.mem_cons_self
      rw [commonNames_cons, eraseDups_of_nodup (Keyed.nodup_of_ascending hfirst)]
      exact hfirst.filter _

theorem nodup_eraseDups {α : Type} [DecidableEq α] (l : List α) : l.eraseDups.Nodup := by
  induction hn : l.length using Nat.strongRecOn generalizing l with
  | ind n ih =>
      cases l with
      | nil => exact List.nodup_nil
      | cons a as =>
          rw [List.eraseDups_cons, List.nodup_cons]
          constructor
          · intro h
            have hmem := (List.mem_filter.1 (List.mem_eraseDups.1 h)).2
            rw [beq_self_eq_true] at hmem
            cases hmem
          · have hle := List.length_filter_le (fun b => !b == a) as
            rw [List.length_cons] at hn
            exact ih _ (by omega) _ rfl

theorem nodup_commonNames (lists : List (List String)) : (commonNames lists).Nodup := by
  cases lists with
  | nil => exact List.nodup_nil
  | cons first others => exact (nodup_eraseDups first).filter _

end Schema

end SampleSchema
