import Mathlib
import SampleSchema.Proofs.Reduction

/-!
# Merging in Blocks

Merging some of the schemas first does not change the outcome.

A block of schemas in the middle of a list may be replaced by its merge, and
the whole list merges to exactly the same schema, or fails with exactly the
same error. Merging again what was merged, widening a schema by one sample
after another, and merging merges are all cases of this.

Within one tag, the block has left a single fragment where its own fragments
stood. For a leaf it is the first of them, so the first of the whole list is
the same. For an array or map it carries the merged items, and for an object
the merged properties, so the question comes back one level down, with blocks in
the same places. The required names that all share are those that the block
shares and the others share, and the first list still gives the order.

A property kept as it is, because nothing else is said about it, is the
delicate case. Whether there is anything else depends on the rest of the
list, and a merged block may say one thing where its schemas said several.
`mergeProperty_block` goes through the possibilities.

## Main definitions

* `Schema.Blockwise`: A block may be replaced by its merge.

## Theorems

* `Schema.refusal?_fragments_of_merge`: A merge can be merged again.
* `Schema.reduce_block`: Blocks within one tag.
* `Schema.blockwise`: Every block may be replaced by its merge.
* `Schema.merge_blocks`: So may several blocks at once.
* `Schema.merge_block`: The same, spelled out.
* `Schema.merge_singleton_of_merge`: Merging a merge gives it back.
-/

namespace SampleSchema

namespace Schema

variable {o : MergeOptions}

/-- The middle one of three lists may be replaced by its merge. -/
def Blockwise (o : MergeOptions) (ys xs zs : List Schema) : Prop :=
  ∀ m, merge o xs = .ok m → merge o (ys ++ [m] ++ zs) = merge o (ys ++ xs ++ zs)

/-! ### The fragments of a merge -/

/-- The fragments of a merge are what it found, tag by tag. -/
theorem exists_tagged_of_merge_ok {xs : List Schema} {m : Schema} (h : merge o xs = .ok m) :
    ∃ r : Tag → Option Schema,
      (∀ tag, reduce o tag (tagged tag (absorb (allFragments xs))) = .ok (r tag)) ∧
      (∀ tag, tagged tag m.fragments = (r tag).toList) := by
  rcases exists_of_merge_ok h with ⟨r, hr, hof, rfl⟩
  exact ⟨r, hr, tagged_fragments_joinFound hof⟩

/-- A merge has fragments, and all of them have a tag, so it can be merged
    again. -/
theorem refusal?_fragments_of_merge {xs : List Schema} {m : Schema} (h : merge o xs = .ok m) :
    refusal? m.fragments = none := by
  rcases refusal?_eq_none_iff.1 (merge_eq_ok_iff.1 h).1 with ⟨hne, htags⟩
  rcases exists_of_merge_ok h with ⟨r, hr, hof, rfl⟩
  have hperm := (oneEach_filterMap hof).fragments_perm
  refine refusal?_eq_none_iff.2 ⟨?_, fun f hf => ?_⟩
  · -- Some fragment went in, and its tag, or number in place of integer, has found something.
    rcases List.exists_mem_of_ne_nil _ hne with ⟨f, hf⟩
    rcases htags f hf with ⟨tag, htag⟩
    have hbucket : ∃ tag', tagged tag' (absorb (allFragments xs)) ≠ [] := by
      by_cases habsorbed : tag = .integer ∧ tagged .number (allFragments xs) ≠ []
      · refine ⟨.number, ?_⟩
        rw [tagged_absorb_of_ne (by decide)]
        exact habsorbed.2
      · refine ⟨tag, ?_⟩
        rw [tagged_absorb, if_neg habsorbed]
        exact List.ne_nil_of_mem (mem_tagged_iff.2 ⟨hf, htag⟩)
    rcases hbucket with ⟨tag', hbucket⟩
    rcases Option.ne_none_iff_exists'.1 (mt (reduce_eq_none_iff (hr tag')).1 hbucket) with ⟨s, hs⟩
    exact List.ne_nil_of_mem
      (hperm.mem_iff.2 (List.mem_filterMap.2 ⟨tag', Tag.mem_all tag', hs⟩))
  · rcases (oneEach_filterMap hof).isOf f (hperm.mem_iff.1 hf) with ⟨tag, hoff⟩
    exact ⟨tag, hoff.2⟩

theorem fragments_ne_nil_of_merge {xs : List Schema} {m : Schema} (h : merge o xs = .ok m) :
    m.fragments ≠ [] :=
  (refusal?_eq_none_iff.1 (refusal?_fragments_of_merge h)).1

/-- A merge with one fragment is that fragment. -/
theorem eq_of_fragments_of_merge {xs : List Schema} {m f : Schema} (h : merge o xs = .ok m)
    (hf : m.fragments = [f]) : f = m := by
  rcases exists_of_merge_ok h with ⟨r, _, hof, rfl⟩
  have hperm := (oneEach_filterMap hof).fragments_perm
  rw [hf] at hperm
  rw [← List.singleton_perm.1 hperm]
  rfl

theorem append_ne_nil_of_middle {as bs cs : List Schema} (h : bs ≠ []) : as ++ bs ++ cs ≠ [] :=
  List.append_ne_nil_of_left_ne_nil (List.append_ne_nil_of_right_ne_nil as h) cs

/-- Whether fragments are refused does not depend on a block that is not. -/
theorem refusal?_append {as bs cs : List Schema} (hbs : refusal? bs = none) :
    refusal? (as ++ bs ++ cs) = ((as ++ cs).find? fun f => f.tag?.isNone).map .untyped := by
  rcases refusal?_eq_none_iff.1 hbs with ⟨hne, htags⟩
  have hnone : (bs.find? fun f => f.tag?.isNone) = none := by
    rw [List.find?_eq_none]
    intro f hf hnone
    rcases htags f hf with ⟨tag, htag⟩
    rw [htag] at hnone
    cases hnone
  rw [refusal?, if_neg (mt List.isEmpty_iff.1 (append_ne_nil_of_middle hne)),
    List.find?_append, List.find?_append, hnone, Option.or_none, ← List.find?_append]

/-! ### Blocks inside a container -/

theorem allFragments_filterMap_append (part : Schema → Option Schema) (as bs : List Schema) :
    allFragments ((as ++ bs).filterMap part) =
      allFragments (as.filterMap part) ++ allFragments (bs.filterMap part) := by
  rw [List.filterMap_append, allFragments_append]

theorem allFragments_filterMap_singleton (part : Schema → Option Schema) (s : Schema) :
    allFragments ([s].filterMap part) = allFragments (part s).toList := by
  rw [List.filterMap_cons]
  cases part s <;> rfl

theorem itemFragments_append (as bs : List Schema) :
    itemFragments (as ++ bs) = itemFragments as ++ itemFragments bs :=
  allFragments_filterMap_append _ as bs

theorem itemFragments_singleton (s : Schema) :
    itemFragments [s] = allFragments s.items.toList := allFragments_filterMap_singleton _ s

theorem merge_nil : merge o [] = .error .nothing := by
  rw [merge_eq]
  rfl

/-- Items that can be merged are not left out. -/
theorem mergeItems_of_merge {fs : List Schema} {m : Schema} (h : merge o fs = .ok m) :
    mergeItems o fs = .ok (some m) := by
  have hfs : fs ≠ [] := by
    rintro rfl
    rw [merge_nil] at h
    cases h
  rw [mergeItems_of_ne_nil hfs, h]
  rfl

theorem mergeItems_block {ps qs rs : List Schema} (hblock : Blockwise o ps qs rs)
    {items : Option Schema} (h : mergeItems o qs = .ok items) :
    mergeItems o (ps ++ allFragments items.toList ++ rs) = mergeItems o (ps ++ qs ++ rs) := by
  by_cases hqs : qs = []
  · subst hqs
    have hnone : none = items := Except.ok.inj h
    rw [← hnone]
    rfl
  · rw [mergeItems_of_ne_nil hqs] at h
    rcases bind_eq_ok_iff.1 h with ⟨m, hm, h⟩
    cases h
    have hfragments : merge o (ps ++ m.fragments ++ rs) = merge o (ps ++ [m] ++ rs) := by
      apply merge_congr_fragments
      simp only [allFragments_append, allFragments_fragments, allFragments_singleton]
    rw [Option.toList_some, allFragments_singleton,
      mergeItems_of_ne_nil (append_ne_nil_of_middle (fragments_ne_nil_of_merge hm)),
      mergeItems_of_ne_nil (append_ne_nil_of_middle hqs), hfragments, hblock m hm]

/-! ### Blocks inside an object -/

theorem propertyFragments_append (name : String) (as bs : List Schema) :
    propertyFragments name (as ++ bs) = propertyFragments name as ++ propertyFragments name bs :=
  allFragments_filterMap_append _ as bs

theorem propertyFragments_singleton (name : String) (s : Schema) :
    propertyFragments name [s] = allFragments (s.property? name).toList :=
  allFragments_filterMap_singleton _ s

theorem propertyFragments_eq_nil {name : String} {bucket : List Schema}
    (h : name ∉ bucket.flatMap propertyNames) : propertyFragments name bucket = [] := by
  have hnone : (bucket.filterMap fun f => f.property? name) = [] := by
    refine List.filterMap_eq_nil_iff.2 fun f hf => ?_
    cases hp : f.property? name with
    | none => rfl
    | some c =>
        exact absurd (List.mem_flatMap.2 ⟨f, hf, mem_propertyNames_iff.2 ⟨c, hp⟩⟩) h
  rw [propertyFragments, hnone]
  rfl

theorem mergeProperty_of_ne_singleton {fs : List Schema} (h : ∀ f, fs ≠ [f]) :
    mergeProperty o fs = merge o fs := by
  unfold mergeProperty
  split
  · next f => exact absurd rfl (h f)
  · rfl

/-- Replacing several fragments of a property by their merge. The merge may
    have a single fragment where there were several before, and then it is
    kept as it is and not merged again; but a merge with a single fragment is
    that fragment. -/
theorem mergeProperty_block {ps qs rs : List Schema} (hblock : Blockwise o ps qs rs)
    (hqs : ∀ f ∈ qs, f.IsAtomic) {p : Schema} (h : mergeProperty o qs = .ok p) :
    mergeProperty o (ps ++ p.fragments ++ rs) = mergeProperty o (ps ++ qs ++ rs) := by
  by_cases hone : ∃ f, qs = [f]
  · -- The block is a single fragment and has been kept.
    rcases hone with ⟨f, rfl⟩
    have hp : f = p := Except.ok.inj h
    rw [← hp, (hqs f List.mem_cons_self).fragments_eq]
  · have hmerge : merge o qs = .ok p := by
      rw [← mergeProperty_of_ne_singleton fun f hf => hone ⟨f, hf⟩]
      exact h
    have hnil : qs ≠ [] := by
      intro hnil
      rw [hnil, merge_nil] at hmerge
      cases hmerge
    -- The whole list is no single fragment either.
    have hright : ∀ g, ps ++ qs ++ rs ≠ [g] := by
      intro g hg
      rcases List.append_eq_singleton_iff.1 hg with ⟨hpq, _⟩ | ⟨hpq, _⟩
      · exact hnil (List.append_eq_nil_iff.1 hpq).2
      · rcases List.append_eq_singleton_iff.1 hpq with ⟨_, hq⟩ | ⟨_, hq⟩
        · exact hone ⟨g, hq⟩
        · exact hnil hq
    have hne := fragments_ne_nil_of_merge hmerge
    rw [mergeProperty_of_ne_singleton hright]
    by_cases hleft : ∃ g, ps ++ p.fragments ++ rs = [g]
    · rcases hleft with ⟨g, hg⟩
      have hparts : ps = [] ∧ rs = [] ∧ p.fragments = [g] := by
        rcases List.append_eq_singleton_iff.1 hg with ⟨hpq, _⟩ | ⟨hpq, hrs⟩
        · exact absurd (List.append_eq_nil_iff.1 hpq).2 hne
        · rcases List.append_eq_singleton_iff.1 hpq with ⟨hps, hp⟩ | ⟨_, hp⟩
          · exact ⟨hps, hrs, hp⟩
          · exact absurd hp hne
      rcases hparts with ⟨rfl, rfl, hp⟩
      rw [hg, List.nil_append, List.append_nil, hmerge, eq_of_fragments_of_merge hmerge hp]
      rfl
    · have hfragments : merge o (ps ++ p.fragments ++ rs) = merge o (ps ++ [p] ++ rs) := by
        apply merge_congr_fragments
        simp only [allFragments_append, allFragments_fragments, allFragments_singleton]
      rw [mergeProperty_of_ne_singleton fun g hg => hleft ⟨g, hg⟩, hfragments, hblock p hmerge]

theorem mergeProperties_block {as bs cs : List Schema} {properties : Keyed Schema}
    {required : Option (List String)}
    (hblock : ∀ name, Blockwise o (propertyFragments name as) (propertyFragments name bs)
      (propertyFragments name cs))
    (h : mergeProperties o bs = .ok properties) :
    mergeProperties o (as ++ [object properties required] ++ cs) =
      mergeProperties o (as ++ bs ++ cs) := by
  have hname : ∀ name, name ∈ (object properties required).propertyNames ↔
      name ∈ bs.flatMap propertyNames := by
    intro name
    rw [mem_propertyNames_iff, property?_object]
    constructor
    · rintro ⟨c, hc⟩
      by_cases hmem : name ∈ bs.flatMap propertyNames
      · exact hmem
      · rw [get?_of_mergeProperties_eq_none h hmem] at hc
        cases hc
    · intro hmem
      rcases get?_of_mergeProperties h hmem with ⟨p, hget, _⟩
      exact ⟨p, hget⟩
  -- The object uses the names of its block, so the same names are merged either way.
  have hnames : Keyed.tabulate ((as ++ [object properties required] ++ cs).flatMap propertyNames)
      (fun _ => ()) = Keyed.tabulate ((as ++ bs ++ cs).flatMap propertyNames) fun _ => () := by
    apply Keyed.ext_get?
    intro name
    simp only [Keyed.get?_tabulate, List.flatMap_append, List.mem_append, List.flatMap_singleton,
      hname]
  rw [mergeProperties, mergeProperties, hnames]
  refine Keyed.mapM_congr fun name _ _ => ?_
  simp only [propertyFragments_append, propertyFragments_singleton, property?_object]
  by_cases hmem : name ∈ bs.flatMap propertyNames
  · rcases get?_of_mergeProperties h hmem with ⟨p, hget, hp⟩
    rw [hget, Option.toList_some, allFragments_singleton]
    exact mergeProperty_block (hblock name) (fun f hf => isAtomic_of_mem_allFragments hf) hp
  · rw [get?_of_mergeProperties_eq_none h hmem, propertyFragments_eq_nil hmem]
    rfl

/-- What all share is what the block shares and the others share, and the
    order is that of the first list in either case. -/
theorem commonNames_block {as bs cs : List (List String)} (hbs : bs ≠ []) :
    commonNames (as ++ [commonNames bs] ++ cs) = commonNames (as ++ bs ++ cs) := by
  cases as with
  | nil =>
      -- The block comes first, so the list that gives the order is the first of the block.
      cases bs with
      | nil => exact absurd rfl hbs
      | cons first others =>
          rw [List.nil_append, List.nil_append, List.singleton_append, List.cons_append,
            commonNames_cons (commonNames (first :: others)) cs,
            eraseDups_of_nodup (nodup_commonNames (first :: others)),
            commonNames_cons first others, commonNames_cons first (others ++ cs),
            List.filter_filter]
          refine List.filter_congr fun name _ => ?_
          rw [List.all_append, Bool.and_comm]
  | cons first others =>
      -- Another list gives the order, and the block is only asked what all of it share.
      have hblock : ∀ name, ([commonNames bs].all fun names => names.contains name) =
          bs.all fun names => names.contains name := by
        intro name
        rw [Bool.eq_iff_iff]
        simp only [List.all_eq_true, List.mem_singleton, forall_eq, List.contains_iff_mem]
        exact mem_commonNames_iff hbs
      rw [List.cons_append, List.cons_append, List.cons_append, List.cons_append,
        commonNames_cons, commonNames_cons]
      refine List.filter_congr fun name _ => ?_
      rw [List.all_append, List.all_append, List.all_append, List.all_append, hblock]

theorem mergeRequired_block {as bs cs : List Schema} (hbs : bs ≠ []) (properties : Keyed Schema) :
    mergeRequired o (as ++ [object properties (mergeRequired o bs)] ++ cs) =
      mergeRequired o (as ++ bs ++ cs) := by
  unfold mergeRequired
  by_cases ho : o.noRequired
  · rw [if_pos ho, if_pos ho]
  · rw [if_neg ho, if_neg ho, if_neg ho]
    simp only [List.map_append, List.map_cons, List.map_nil, requiredNames_object,
      Option.getD_some]
    rw [commonNames_block fun hnil => hbs (List.map_eq_nil_iff.1 hnil)]

/-! ### Blocks within one tag -/

theorem reduce_block_leaf {tag : Tag} (ht : tag.isContainer = false) {as bs cs : List Schema}
    {s : Option Schema} (h : reduce o tag bs = .ok s) :
    reduce o tag (as ++ s.toList ++ cs) = reduce o tag (as ++ bs ++ cs) := by
  rw [reduce_leaf ht] at h
  rw [reduce_leaf ht, reduce_leaf ht, ← Except.ok.inj h]
  cases bs <;> simp only [List.head?_append, List.head?_nil, List.head?_cons, Option.toList_none,
    Option.toList_some]

/-- Within one tag, a block may be replaced by what it reduces to. -/
theorem reduce_block {tag : Tag} {as bs cs : List Schema}
    (hitems : bs ≠ [] → tag.isContainer →
      Blockwise o (itemFragments as) (itemFragments bs) (itemFragments cs))
    (hproperties : bs ≠ [] → tag.isContainer → ∀ name, Blockwise o (propertyFragments name as)
      (propertyFragments name bs) (propertyFragments name cs))
    {s : Option Schema} (h : reduce o tag bs = .ok s) :
    reduce o tag (as ++ s.toList ++ cs) = reduce o tag (as ++ bs ++ cs) := by
  by_cases hbs : bs = []
  · rw [hbs, reduce_nil] at h
    rw [hbs, ← Except.ok.inj h]
    rfl
  have hright : as ++ bs ++ cs ≠ [] := append_ne_nil_of_middle hbs
  have hleft : ∀ t : Schema, as ++ [t] ++ cs ≠ [] :=
    fun t => append_ne_nil_of_middle (List.cons_ne_nil t [])
  rcases tag_cases tag with ht | ht | rfl
  -- A leaf keeps its first; the others carry the block one level down.
  · exact reduce_block_leaf ht h
  · rw [reduce_container ht hbs] at h
    rcases bind_eq_ok_iff.1 h with ⟨items, hmerged, h⟩
    rw [← Except.ok.inj h, Option.toList_some, reduce_container ht (hleft _),
      reduce_container ht hright]
    simp only [itemFragments_append, itemFragments_singleton, items_container]
    rw [mergeItems_block (hitems hbs (isContainer_of_list ht)) hmerged]
  · rw [reduce_object hbs] at h
    rcases bind_eq_ok_iff.1 h with ⟨properties, hmerged, h⟩
    rw [← Except.ok.inj h, Option.toList_some, reduce_object (hleft _), reduce_object hright,
      mergeProperties_block (hproperties hbs rfl) hmerged, mergeRequired_block hbs]

/-! ### All tags -/

/-- The fragments with the tag of a container, part by part. -/
theorem bucket_append {tag : Tag} (h : tag.isContainer) (ys xs zs : List Schema) :
    tagged tag (absorb (allFragments (ys ++ xs ++ zs))) = tagged tag (allFragments ys) ++
      tagged tag (allFragments xs) ++ tagged tag (allFragments zs) := by
  have hne : tag ≠ .integer := by
    rintro rfl
    cases h
  rw [tagged_absorb_of_ne hne, allFragments_append, allFragments_append, tagged_append,
    tagged_append]

theorem bucket_ne_nil {tag : Tag} (h : tag.isContainer) {ys xs zs : List Schema}
    (hne : tagged tag (allFragments xs) ≠ []) :
    tagged tag (absorb (allFragments (ys ++ xs ++ zs))) ≠ [] := by
  rw [bucket_append h]
  exact append_ne_nil_of_middle hne

/-- Every block may be replaced by its merge, by induction along the calls of
    a merge of the whole list to itself. -/
theorem blockwise (o : MergeOptions) (ws : List Schema) :
    ∀ ys xs zs, ws = ys ++ xs ++ zs → Blockwise o ys xs zs := by
  induction ws using merge_induction with
  | step ws ihItems ihProperties =>
      rintro ys xs zs rfl m hm
      rcases exists_tagged_of_merge_ok hm with ⟨r, hr, hfragments⟩
      have hrefusal := (merge_eq_ok_iff.1 hm).1
      have hnumber : tagged .number m.fragments = [] ↔ tagged .number (allFragments xs) = [] := by
        rw [hfragments, Option.toList_eq_nil_iff, reduce_eq_none_iff (hr .number),
          tagged_absorb_of_ne (by decide)]
      apply merge_congr
      · -- Neither the block nor its merge is a reason to refuse.
        simp only [allFragments_append, allFragments_singleton]
        rw [refusal?_append (refusal?_fragments_of_merge hm), refusal?_append hrefusal]
      · intro tag
        have hwhole : tagged .number (allFragments (ys ++ [m] ++ zs)) = [] ↔
            tagged .number (allFragments (ys ++ xs ++ zs)) = [] := by
          simp only [allFragments_append, allFragments_singleton, tagged_append,
            List.append_eq_nil_iff, hnumber]
        rw [tagged_absorb, tagged_absorb]
        by_cases habsorbed : tag = .integer ∧ tagged .number (allFragments (ys ++ xs ++ zs)) ≠ []
        · -- A number anywhere in the list takes the integers away on both sides.
          rw [if_pos habsorbed, if_pos ⟨habsorbed.1, mt hwhole.1 habsorbed.2⟩]
        · have hkept : tagged tag (absorb (allFragments xs)) = tagged tag (allFragments xs) := by
            rw [tagged_absorb, if_neg]
            rintro ⟨htag, hne⟩
            refine habsorbed ⟨htag, fun hnil => hne ?_⟩
            simp only [allFragments_append, tagged_append, List.append_eq_nil_iff] at hnil
            exact hnil.1.2
          have hreduce := hr tag
          rw [hkept] at hreduce
          rw [if_neg habsorbed, if_neg fun h => habsorbed ⟨h.1, mt hwhole.2 h.2⟩]
          simp only [allFragments_append, allFragments_singleton, tagged_append, hfragments]
          -- What is inside the tag is again a block between what is inside the others.
          refine reduce_block (fun hne hcontainer => ?_) (fun hne hcontainer name => ?_) hreduce
          · refine ihItems tag (bucket_ne_nil hcontainer hne) _ _ _ ?_
            rw [bucket_append hcontainer, itemFragments_append, itemFragments_append]
          · refine ihProperties tag name (bucket_ne_nil hcontainer hne) _ _ _ ?_
            rw [bucket_append hcontainer, propertyFragments_append, propertyFragments_append]

/-- Several blocks at once may be replaced by their merges, and empty blocks by
    nothing. -/
theorem merge_blocks {α : Type} {f : α → Option Schema} {g : α → List Schema} {l : List α}
    (h : ∀ a ∈ l, (f a = none ∧ g a = []) ∨ ∃ m, f a = some m ∧ merge o (g a) = .ok m)
    (ys : List Schema) : merge o (ys ++ l.filterMap f) = merge o (ys ++ l.flatMap g) := by
  induction l generalizing ys with
  | nil => rfl
  | cons a as ih =>
      have hrest := ih fun b hb => h b (List.mem_cons_of_mem _ hb)
      rw [List.flatMap_cons]
      rcases h a List.mem_cons_self with ⟨hf, hg⟩ | ⟨m, hf, hg⟩
      · rw [List.filterMap_cons_none hf, hg]
        exact hrest ys
      · -- This block is expanded where it stands, and the induction goes on behind it.
        have hblock := blockwise o _ ys (g a) (as.filterMap f) rfl m hg
        rw [List.append_assoc] at hblock
        rw [List.filterMap_cons_some hf, ← List.append_assoc, ← hrest]
        exact hblock

/-- Merging some of the schemas first does not change the outcome, be it a
    schema or an error. -/
theorem merge_block (o : MergeOptions) (ys xs zs : List Schema) (m : Schema)
    (h : merge o xs = .ok m) : merge o (ys ++ [m] ++ zs) = merge o (ys ++ xs ++ zs) :=
  blockwise o _ ys xs zs rfl m h

/-- The merged block leaves an array whose items came from one schema only,
    and an integer that the number before it takes away either way. -/
theorem merge_block_absorbed :
    merge {} [ofTag .number, union [ofTag .integer, container .array (some (ofTag .integer))],
        container .array (some (ofTag .number))] =
      merge {} [ofTag .number, container .array none, ofTag .integer,
        container .array (some (ofTag .integer)), container .array (some (ofTag .number))] :=
  merge_block {} [ofTag .number]
    [container .array none, ofTag .integer, container .array (some (ofTag .integer))]
    [container .array (some (ofTag .number))] _ (by cbv)

/-- Merging a merge gives it back. -/
theorem merge_singleton_of_merge {xs : List Schema} {m : Schema} (h : merge o xs = .ok m) :
    merge o [m] = .ok m := by
  have hblock := blockwise o xs [] xs [] (List.append_nil xs).symm m h
  rw [List.nil_append, List.append_nil, List.append_nil] at hblock
  exact hblock.trans h

end Schema

end SampleSchema
