import SampleSchema.Proofs.Canonical
import SampleSchema.Proofs.Inference
import SampleSchema.Schema.Wire

/-!
# Samples One at a Time

Widening a schema by samples one after the other, and by all of them at once.

Widening by one sample is a merge, and a merge may be continued, so that many
steps come to the same as a single one. This is so whenever all the steps
succeed. They need not. A merge of everything may succeed where a merge of
only the first samples does not, since one of the later ones says what the
schema itself leaves open.

There is just one thing that can be left open in this way. A fragment without
a type is refused however much is merged with it. But a property may be there
and offer no fragment, as with an empty list of alternatives, and whether there
is anything to merge then depends on the samples. So when everything can be
merged at once, a step can only fail for want of something to merge. And if
every property that a merge can come to offers a fragment, no step fails.

`offersInside` is this condition. It pools the fragments as a merge does, and it
looks into every property, also into those that have a single fragment and
would be kept as they are, since a sample may add a second one.

## Main definitions

* `Schema.offersInside`: Every property that a merge can come to offers a
  fragment.

## Theorems

* `Schema.eq_nothing_of_merge_append`: A merge that more schemas make succeed
  has failed for want of something to merge.
* `Schema.offersInside_of_merge_nothing`: Where every property offers a
  fragment, there is something to merge.
* `Schema.extendAll_of_foldlM`: Steps that succeed come to the same as one.
* `Schema.extendAll_iff_foldlM`: When widening one by one and at once agree.
-/

namespace SampleSchema

namespace Schema

variable {o : MergeOptions} {s t : Schema} {v : Sample} {vs : List Sample}

/-! ### Properties that offer something -/

/-- Every property that merging the schemas, with others or alone, can come to
    offers a fragment. -/
def offersInside (xs : List Schema) : Bool :=
  Tag.all.all fun tag =>
    let bucket := tagged tag (allFragments xs)
    if _h : bucket = [] then true
    else
      match tag with
      | .array | .map => offersInside (itemFragments bucket)
      | .object =>
          (bucket.flatMap propertyNames).all fun name =>
            !(propertyFragments name bucket).isEmpty && offersInside (propertyFragments name bucket)
      | _ => true
termination_by maxHeight xs
decreasing_by
  · exact Nat.lt_of_lt_of_le (maxHeight_itemFragments_lt _h) (maxHeight_tagged_le tag xs)
  · exact Nat.lt_of_lt_of_le (maxHeight_propertyFragments_lt name _h) (maxHeight_tagged_le _ xs)

theorem offersInside_nil : offersInside [] := by
  rw [offersInside]
  rfl

theorem offersInside_iff {xs : List Schema} :
    offersInside xs ↔
      (∀ tag, tag = .array ∨ tag = .map →
        offersInside (itemFragments (tagged tag (allFragments xs)))) ∧
      ∀ name ∈ (tagged .object (allFragments xs)).flatMap propertyNames,
        propertyFragments name (tagged .object (allFragments xs)) ≠ [] ∧
          offersInside (propertyFragments name (tagged .object (allFragments xs))) := by
  rw [offersInside, List.all_eq_true]
  constructor
  · intro h
    constructor
    · intro tag ht
      by_cases hb : tagged tag (allFragments xs) = []
      · rw [hb]
        exact offersInside_nil
      · have htag := h tag (Tag.mem_all tag)
        rw [dif_neg hb] at htag
        rcases ht with rfl | rfl <;> exact htag
    · intro name hname
      have hb : tagged .object (allFragments xs) ≠ [] := by
        intro hnil
        rw [hnil] at hname
        cases hname
      have hobject := h .object (Tag.mem_all .object)
      rw [dif_neg hb] at hobject
      have hproperty := List.all_eq_true.1 hobject name hname
      simpa using hproperty
  · rintro ⟨hitems, hproperties⟩ tag -
    by_cases hb : tagged tag (allFragments xs) = []
    · rw [dif_pos hb]
    · rw [dif_neg hb]
      cases tag with
      | array => exact hitems .array (Or.inl rfl)
      | map => exact hitems .map (Or.inr rfl)
      | object =>
          refine List.all_eq_true.2 fun name hname => ?_
          simpa using hproperties name hname
      | _ => rfl

/-- Where every property of either list offers a fragment, so does every
    property of both. -/
theorem offersInside_append (xs : List Schema) :
    ∀ ys, offersInside xs → offersInside ys → offersInside (xs ++ ys) := by
  induction xs using inside_induction with
  | step xs ihItems ihProperties =>
      intro ys hxs hys
      rw [offersInside_iff] at hxs hys ⊢
      constructor
      · intro tag ht
        rw [allFragments_append, tagged_append, itemFragments_append]
        by_cases hb : tagged tag (allFragments xs) = []
        · rw [hb]
          exact hys.1 tag ht
        · exact ihItems tag (isContainer_of_list ht) hb _ (hxs.1 tag ht) (hys.1 tag ht)
      · intro name hname
        rw [allFragments_append, tagged_append] at hname ⊢
        rw [propertyFragments_append]
        by_cases hx : name ∈ (tagged .object (allFragments xs)).flatMap propertyNames
        · rcases hxs.2 name hx with ⟨hne, hoffers⟩
          refine ⟨List.append_ne_nil_of_left_ne_nil hne _, ?_⟩
          by_cases hy : name ∈ (tagged .object (allFragments ys)).flatMap propertyNames
          · exact ihProperties name (ne_nil_of_mem_usedNames hx) _ hoffers (hys.2 name hy).2
          · rw [propertyFragments_eq_nil hy, List.append_nil]
            exact hoffers
        · -- Only the second list knows of the property.
          rw [List.flatMap_append] at hname
          rw [propertyFragments_eq_nil hx]
          exact hys.2 name ((List.mem_append.1 hname).resolve_left hx)

/-- Where every node offers a tag, every property offers a fragment. -/
theorem offersInside_of_offersTag (xs : List Schema) :
    (∀ x ∈ xs, x.Everywhere OffersTag) → offersInside xs := by
  induction xs using inside_induction with
  | step xs ihItems ihProperties =>
      intro hxs
      have hbucket : ∀ tag, ∀ f ∈ tagged tag (allFragments xs), f.Everywhere OffersTag :=
        fun tag f hf => .of_mem_allFragments offersTag_ofTag hxs (mem_tagged_iff.1 hf).1
      rw [offersInside_iff]
      constructor
      · intro tag ht
        by_cases hb : tagged tag (allFragments xs) = []
        · rw [hb]
          exact offersInside_nil
        · exact ihItems tag (isContainer_of_list ht) hb
            (.of_mem_parts offersTag_ofTag mem_children_of_items (hbucket tag))
      · intro name hname
        refine ⟨propertyFragments_ne_nil (hbucket .object) hname, ?_⟩
        exact ihProperties name (ne_nil_of_mem_usedNames hname)
          (.of_mem_parts offersTag_ofTag mem_children_of_property? (hbucket .object))

/-- Every node of what is inferred offers a tag. -/
theorem offersTag_of_infer {ts : List Schema} (h : vs.mapM (infer o) = .ok ts) :
    ∀ t ∈ ts, t.Everywhere OffersTag := by
  rcases exists_of_mapM_ok h with ⟨r, hr, rfl⟩
  intro t ht
  rcases List.mem_map.1 ht with ⟨v, hv, rfl⟩
  have hcanonical := Everywhere.of_infer (keptByInference_canonicalNode o) (hr v hv)
  exact hcanonical.imp fun _ hnode => hnode.offersTag

/-! ### Where a step can fail -/

/-- A merge that more schemas make succeed has failed for want of something to
    merge, by induction along the way to the place where it is refused. -/
theorem eq_nothing_of_merge_append {xs : List Schema} {e : MergeError}
    (h : merge o xs = .error e) : ∀ ys m, merge o (xs ++ ys) = .ok m → e = .nothing := by
  refine merge_error_induction (P := fun xs => ∀ ys m, merge o (xs ++ ys) = .ok m → e = .nothing)
    ?_ ?_ ?_ xs h
  · intro xs hrefused ys m hm
    unfold refusal? at hrefused
    split at hrefused
    · exact (Option.some.inj hrefused).symm
    · -- A fragment without a type is still among the fragments of all.
      rcases Option.map_eq_some_iff.1 hrefused with ⟨f, hf, -⟩
      have htyped := (refusal?_eq_none_iff.1 (merge_eq_ok_iff.1 hm).1).2 f
      rw [allFragments_append] at htyped
      rcases htyped (List.mem_append_left _ (List.mem_of_find?_eq_some hf)) with ⟨tag, htag⟩
      have hnone := List.find?_some hf
      rw [htag] at hnone
      cases hnone
  · intro xs tag ht hfs ih ys m hm
    have hfs' : itemFragments (tagged tag (allFragments (xs ++ ys))) =
        itemFragments (tagged tag (allFragments xs)) ++
          itemFragments (tagged tag (allFragments ys)) := by
      rw [allFragments_append, tagged_append, itemFragments_append]
    have hmerged := exists_merge_items hm ht
    rw [hfs'] at hmerged
    rcases hmerged (List.append_ne_nil_of_left_ne_nil hfs _) with ⟨c, hc⟩
    exact ih _ c hc
  · intro xs name hname hmany herror ih ys m hm
    have hname' : name ∈ (tagged .object (allFragments (xs ++ ys))).flatMap propertyNames := by
      rw [allFragments_append, tagged_append, List.flatMap_append]
      exact List.mem_append_left _ hname
    rcases exists_mergeProperty hm hname' with ⟨p, hp⟩
    rw [allFragments_append, tagged_append, propertyFragments_append] at hp
    rcases mergeProperty_cases hp with hone | ⟨-, hp⟩
    · -- All there is comes from the others, so the first have nothing to merge.
      rcases List.append_eq_singleton_iff.1 hone with ⟨hnil, -⟩ | ⟨hone, -⟩
      · rw [hnil, merge_nil] at herror
        exact (Except.error.inj herror).symm
      · exact absurd hone (hmany p)
    · exact ih _ p hp

/-- Where every property offers a fragment, a merge fails for want of something
    to merge only if there is nothing at all. -/
theorem offersInside_of_merge_nothing {xs : List Schema} (h : merge o xs = .error .nothing) :
    offersInside xs → allFragments xs = [] := by
  refine merge_error_induction (P := fun xs => offersInside xs → allFragments xs = []) ?_ ?_ ?_ xs h
  · intro xs hrefused _
    unfold refusal? at hrefused
    split at hrefused
    · next hnil => exact List.isEmpty_iff.1 hnil
    · rcases Option.map_eq_some_iff.1 hrefused with ⟨f, -, hf⟩
      cases hf
  · intro xs tag ht hfs ih hoffers
    refine absurd (ih ((offersInside_iff.1 hoffers).1 tag ht)) ?_
    rw [itemFragments, allFragments_allFragments]
    exact hfs
  · intro xs name hname _ _ ih hoffers
    rcases (offersInside_iff.1 hoffers).2 name hname with ⟨hne, hinside⟩
    refine absurd (ih hinside) ?_
    rw [propertyFragments, allFragments_allFragments]
    exact hne

/-! ### Steps and a single step -/

theorem extendAll_eq_ok_iff {m : Schema} :
    extendAll o s vs = .ok m ↔ ∃ ts, vs.mapM (infer o) = .ok ts ∧ merge o (s :: ts) = .ok m := by
  rw [extendAll, bind_eq_ok_iff]
  refine exists_congr fun ts => and_congr_right fun _ => ?_
  constructor
  · exact merge_of_mergeInferred
  · intro h
    rw [mergeInferred, h]
    rfl

/-- The first step may be taken before the others. -/
theorem extendAll_cons (h : extend o s v = .ok t) (vs : List Sample) :
    extendAll o s (v :: vs) = extendAll o t vs := by
  rcases bind_eq_ok_iff.1 h with ⟨u, hu, hmerge⟩
  rw [extendAll, extendAll, List.mapM_cons, hu]
  cases vs.mapM (infer o) with
  | error e => rfl
  | ok us =>
      -- The schema and the first sample's are a block that the step has merged.
      have hblock := blockwise o _ [] [s, u] us rfl t (merge_of_mergeInferred hmerge)
      rw [List.nil_append, List.singleton_append, List.nil_append] at hblock
      change mergeInferred o (s :: u :: us) = mergeInferred o (t :: us)
      rw [mergeInferred, mergeInferred, hblock]
      rfl

/-- What comes from a step stays as it is when no other follows. -/
theorem extendAll_nil_of_extend (h : extend o s v = .ok t) : extendAll o t [] = .ok t := by
  rcases bind_eq_ok_iff.1 h with ⟨u, -, hmerge⟩
  exact extendAll_eq_ok_iff.2 ⟨[], rfl, merge_singleton_of_merge (merge_of_mergeInferred hmerge)⟩

/-- Steps that succeed come to the same as a single one. -/
theorem extendAll_of_foldlM (hvs : vs ≠ []) (h : vs.foldlM (extend o) s = .ok t) :
    extendAll o s vs = .ok t := by
  induction vs generalizing s with
  | nil => exact absurd rfl hvs
  | cons v vs ih =>
      rw [List.foldlM_cons] at h
      rcases bind_eq_ok_iff.1 h with ⟨u, hu, h⟩
      rw [extendAll_cons hu]
      by_cases hlast : vs = []
      · rw [hlast] at h ⊢
        cases h
        exact extendAll_nil_of_extend hu
      · exact ih hlast h

theorem mergeInferred_eq_error {xs : List Schema} {e : InferError}
    (h : mergeInferred o xs = .error e) : ∃ reason, merge o xs = .error reason ∧ e = .merge reason := by
  unfold mergeInferred at h
  cases hmerge : merge o xs with
  | ok m =>
      rw [hmerge] at h
      cases h
  | error reason =>
      rw [hmerge] at h
      cases h
      exact ⟨reason, rfl, rfl⟩

/-- If all samples can be added at once, adding the first one can only fail for
    want of something to merge. -/
theorem extend_eq_error {m : Schema} {e : InferError} (hm : extendAll o s (v :: vs) = .ok m)
    (h : extend o s v = .error e) : e = .merge .nothing := by
  rcases extendAll_eq_ok_iff.1 hm with ⟨ts, hts, hmerge⟩
  rw [List.mapM_cons] at hts
  rcases bind_eq_ok_iff.1 hts with ⟨u, hu, hts⟩
  rcases bind_eq_ok_iff.1 hts with ⟨us, -, hcons⟩
  cases hcons
  rw [extend, hu] at h
  rcases mergeInferred_eq_error h with ⟨reason, hfirst, rfl⟩
  rw [eq_nothing_of_merge_append hfirst us m hmerge]

/-- If all samples can be added at once, the steps lead to the same schema, or
    one of them fails for want of something to merge. -/
theorem foldlM_of_extendAll {m : Schema} (hvs : vs ≠ []) (h : extendAll o s vs = .ok m) :
    vs.foldlM (extend o) s = .ok m ∨ vs.foldlM (extend o) s = .error (.merge .nothing) := by
  induction vs generalizing s with
  | nil => exact absurd rfl hvs
  | cons v vs ih =>
      rw [List.foldlM_cons]
      cases hstep : extend o s v with
      | error e =>
          rw [extend_eq_error h hstep]
          exact Or.inr rfl
      | ok t =>
          rw [extendAll_cons hstep] at h
          by_cases hlast : vs = []
          · rw [hlast, extendAll_nil_of_extend hstep] at h
            rw [hlast]
            exact Or.inl h
          · exact ih hlast h

/-- Where the steps fail, so does adding the samples up to there at once. -/
theorem exists_prefix_of_foldlM_error {e : InferError} (h : vs.foldlM (extend o) s = .error e) :
    ∃ us ws, vs = us ++ ws ∧ us ≠ [] ∧ extendAll o s us = .error e := by
  induction vs generalizing s with
  | nil => cases h
  | cons v vs ih =>
      rw [List.foldlM_cons] at h
      rcases bind_eq_error h with hstep | ⟨t, hstep, h⟩
      · rw [extend_eq_extendAll] at hstep
        exact ⟨[v], vs, rfl, List.cons_ne_nil v [], hstep⟩
      · rcases ih h with ⟨us, ws, rfl, -, herror⟩
        refine ⟨v :: us, ws, rfl, List.cons_ne_nil v us, ?_⟩
        rw [extendAll_cons hstep]
        exact herror

/-- Where every property offers a fragment, no step fails if all samples can be
    added at once. -/
theorem foldlM_of_offersInside {m : Schema} (hs : offersInside [s]) (hvs : vs ≠ [])
    (h : extendAll o s vs = .ok m) : vs.foldlM (extend o) s = .ok m := by
  refine (foldlM_of_extendAll hvs h).resolve_right fun herror => ?_
  rcases exists_prefix_of_foldlM_error herror with ⟨us, ws, rfl, hus, herror⟩
  -- The samples up to there have schemas, as all of them do.
  rcases extendAll_eq_ok_iff.1 h with ⟨_, hall, -⟩
  rw [List.mapM_append] at hall
  rcases bind_eq_ok_iff.1 hall with ⟨ts, hts, -⟩
  rw [extendAll, hts] at herror
  rcases mergeInferred_eq_error herror with ⟨_, hnothing, h⟩
  cases h
  have hoffers := offersTag_of_infer hts
  have hnil : allFragments ([s] ++ ts) = [] :=
    offersInside_of_merge_nothing hnothing
      (offersInside_append [s] ts hs (offersInside_of_offersTag ts hoffers))
  -- But the samples are described by fragments.
  have hne : ts ≠ [] := by
    rintro rfl
    rcases exists_of_mapM_ok hts with ⟨r, -, hmap⟩
    exact hus (List.map_eq_nil_iff.1 hmap.symm)
  rw [allFragments_append, List.append_eq_nil_iff] at hnil
  exact (refusal?_eq_none_iff.1 (refusal?_of_offersTag hne hoffers)).1 hnil.2

/-- Adding samples one by one and at once. If the steps succeed, so does adding
    everything at once, and gives the same. If adding everything at once
    succeeds, the steps give the same or end for want of something to merge,
    and they do not end if every property of the schema offers a fragment. -/
theorem extendAll_iff_foldlM (o : MergeOptions) (s : Schema) (vs : List Sample) (hvs : vs ≠ []) :
    (∀ m, vs.foldlM (extend o) s = .ok m → extendAll o s vs = .ok m) ∧
      (∀ m, extendAll o s vs = .ok m →
        vs.foldlM (extend o) s = .ok m ∨ vs.foldlM (extend o) s = .error (.merge .nothing)) ∧
      (offersInside [s] → ∀ m, extendAll o s vs = .ok m ↔ vs.foldlM (extend o) s = .ok m) :=
  ⟨fun _ => extendAll_of_foldlM hvs, fun _ => foldlM_of_extendAll hvs,
    fun hs _ => ⟨foldlM_of_offersInside hs hvs, extendAll_of_foldlM hvs⟩⟩

/-- An object in an object, beside a property without a type. -/
def looseRecord : Schema :=
  object (.ofList [("a", object (.ofList [("b", ofTag .null)]) (some ["b"])), ("c", {})]) none

/-- Samples that leave all open, say more about a property, and are no object. -/
def mixedSamples : List Sample :=
  [.object .empty, .object (.ofList [("a", .object (.ofList [("b", .int 1)]))]), .null]

/-- Nothing is ever merged with the property without a type, so it may stay. -/
theorem extendAll_iff_foldlM_nested :
    ∃ m, extendAll {} looseRecord mixedSamples = .ok m ∧
      mixedSamples.foldlM (extend {}) looseRecord = .ok m := by
  have h := extendAll_iff_foldlM {} looseRecord mixedSamples (List.cons_ne_nil _ _)
  have hall : extendAll {} looseRecord mixedSamples =
      .ok (union [ofTag .null, object (.ofList
        [("a", object (.ofList [("b", ofTags [.null, .integer])]) (some ["b"])), ("c", {})]) none]) := by
    cbv
  exact ⟨_, hall, (h.2.2 (by cbv) _).1 hall⟩

/-- An object whose property has no alternatives. -/
def openRecord : Schema := object (.ofList [("a", union [])]) none

/-- Samples of which only the second has the property. -/
def lateSamples : List Sample := [.object .empty, .object (.ofList [("a", .int 1)])]

/-- A property without alternatives is filled by the second sample, but after
    the first one there is nothing to merge. -/
theorem not_extendAll_iff_foldlM_open :
    ofJson (.object (.ofList [("type", .string "object"),
      ("properties", .object (.ofList [("a", .object (.ofList [("anyOf", .array [])]))]))])) =
        .ok openRecord ∧
    ¬ ((∃ m, extendAll {} openRecord lateSamples = .ok m) ↔
      ∃ m, lateSamples.foldlM (extend {}) openRecord = .ok m) := by
  constructor
  · cbv
  · have hall : extendAll {} openRecord lateSamples =
        .ok (object (.ofList [("a", ofTag .integer)]) none) := by
      cbv
    have hsteps : lateSamples.foldlM (extend {}) openRecord = .error (.merge .nothing) := by
      cbv
    intro h
    rcases h.1 ⟨_, hall⟩ with ⟨m, hm⟩
    rw [hsteps] at hm
    cases hm

end Schema

end SampleSchema
