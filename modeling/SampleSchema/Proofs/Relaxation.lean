import SampleSchema.Proofs.Failures
import SampleSchema.Schema.Relaxed

/-!
# Inference without Requirements

Leaving out requirements changes nothing else about what is inferred.

Requirements stand in objects only, but they are looked at in one more place.
Alternatives that are nothing but a type are written as one list of tags, and a
schema that requires something is more than a type. So it might be that taking
a requirement away moves an alternative into the list. For schemas in general
this is true: an object that requires a name, and has no properties, is as good
as its tag once nothing is required. A survey finds no such object. The names
that it requires are those that all objects have, and these are among the names
that it describes.

So a survey without requirements finds the same alternatives, each relaxed, and
arranges them alike. As inference ends in a survey, or else in a failure that
does not depend on the options, it is no different.

## Theorems

* `Schema.isSimple_relaxed`: Relaxing reveals no bare tag, if requirements come
  with properties.
* `Schema.relaxed_arrange`: Alternatives are arranged alike.
* `Schema.survey_relaxed`: The survey without requirements is the relaxed
  survey.
* `Schema.infer_relaxed`: Inference without requirements ends as it does with
  them, the schema being relaxed.
-/

namespace SampleSchema

namespace Schema

open Sample (pool valuesAt usedNames sharedNames)

/-! ### Parts of a relaxed schema -/

theorem relaxed_ofTag (tag : Tag) : (ofTag tag).relaxed = ofTag tag := relaxed_eq (ofTag tag)

theorem relaxed_ofTags (tags : List Tag) : (ofTags tags).relaxed = ofTags tags :=
  relaxed_eq (ofTags tags)

theorem relaxed_container (tag : Tag) (items : Option Schema) :
    (container tag items).relaxed = container tag (items.map relaxed) :=
  relaxed_eq (container tag items)

theorem relaxed_object (properties : Keyed Schema) (required : Option (List String)) :
    (object properties required).relaxed =
      object (properties.map fun _ c => c.relaxed) none := by
  rw [relaxed_eq, object, object, Keyed.isEmpty_map]
  cases properties.isEmpty <;> rfl

theorem relaxed_union (alternatives : List Schema) :
    (union alternatives).relaxed = union (alternatives.map relaxed) :=
  relaxed_eq (union alternatives)

theorem tag?_relaxed (s : Schema) : s.relaxed.tag? = s.tag? := by
  rw [relaxed_eq]
  rfl

/-! ### Alternatives -/

/-- Relaxing reveals no bare tag, if requirements come with properties. -/
theorem isSimple_relaxed {s : Schema} (h : s.properties = none → s.required = none) :
    s.relaxed.isSimple = s.isSimple := by
  rw [relaxed_eq]
  simp only [isSimple, Option.isNone_map]
  cases hproperties : s.properties with
  | some _ => simp only [Option.isNone_some, Bool.and_false, Bool.false_and]
  | none => rw [h hproperties]

-- An object may require names and describe none.
example : (object .empty (some ["a"])).isSimple = false ∧
    (object .empty (some ["a"])).relaxed.isSimple = true := by
  cbv

variable {found : List Schema}

theorem filter_relaxed {p : Schema → Bool} (h : ∀ s ∈ found, p s.relaxed = p s) :
    (found.map relaxed).filter p = (found.filter p).map relaxed := by
  rw [List.filter_map]
  exact congrArg (List.map relaxed) (List.filter_congr h)

theorem bareTags_relaxed (h : ∀ s ∈ found, s.relaxed.isSimple = s.isSimple) :
    bareTags (found.map relaxed) = bareTags found := by
  rw [bareTags, bareTags, filter_relaxed h, List.filterMap_map]
  exact List.filterMap_congr fun s _ => tag?_relaxed s

/-- Alternatives are arranged alike when they are relaxed. -/
theorem relaxed_arrange (h : ∀ s ∈ found, s.relaxed.isSimple = s.isSimple) :
    (arrange found).relaxed = arrange (found.map relaxed) := by
  have hstructured : ((found.map relaxed).filter fun a => !a.isSimple) =
      (found.filter fun a => !a.isSimple).map relaxed :=
    filter_relaxed fun s hs => congrArg (!·) (h s hs)
  have hbare := bareTags_relaxed h
  -- A single alternative stands for itself, simple or not.
  rcases found with _ | ⟨a, _ | ⟨b, rest⟩⟩
  · exact relaxed_ofTags []
  · rfl
  · rw [List.map_cons, List.map_cons] at hstructured hbare ⊢
    simp only [arrange, hstructured, hbare, List.isEmpty_map]
    split
    · exact relaxed_ofTags _
    · -- The entry for the bare tags is only there if there are any.
      rw [relaxed_union, List.map_append]
      split
      · rfl
      · rw [List.map_singleton, relaxed_ofTags]

/-! ### Surveys -/

/-- An object that requires names describes them, for the names that all objects
    have are in use. -/
theorem isSimple_relaxed_surveyObjects (o : MergeOptions) (vs : List Sample) :
    (surveyObjects o vs).relaxed.isSimple = (surveyObjects o vs).isSimple := by
  refine isSimple_relaxed fun hproperties => ?_
  unfold surveyObjects object at hproperties ⊢
  by_cases hempty : (Keyed.tabulate (usedNames vs) fun name => survey o (valuesAt name vs)).isEmpty
  · -- There are no properties where no name is in use, and then none is shared.
    have hshared : sharedNames vs = [] := by
      refine List.eq_nil_iff_forall_not_mem.2 fun name hname => ?_
      have hget := Keyed.isEmpty_iff.1 hempty name
      rw [Keyed.get?_tabulate, if_pos (List.mem_filter.1 hname).1] at hget
      cases hget
    rw [hshared]
    cases o.noRequired <;> rfl
  · rw [if_neg hempty] at hproperties
    cases hproperties

theorem isSimple_relaxed_of_surveyAt {o : MergeOptions} {vs : List Sample} {tag : Tag} {s : Schema}
    (h : surveyAt o vs tag = some s) : s.relaxed.isSimple = s.isSimple := by
  rcases surveyAt_cases h with ⟨-, ⟨-, rfl⟩ | ⟨-, rfl⟩ | ⟨-, rfl⟩⟩
  · rw [relaxed_ofTag]
  · exact isSimple_relaxed fun _ => rfl
  · exact isSimple_relaxed_surveyObjects o _

/-- What is said of the samples with a tag is relaxed, if what is said of the
    samples inside them is. -/
theorem surveyAt_relaxed {vs : List Sample}
    (ih : ∀ ws, ws ≠ [] → (∀ w ∈ ws, ∃ v ∈ vs, w ∈ v.inner) →
      survey { noRequired := true } ws = (survey { noRequired := false } ws).relaxed)
    (tag : Tag) :
    surveyAt { noRequired := true } vs tag =
      (surveyAt { noRequired := false } vs tag).map relaxed := by
  by_cases hnil : Sample.tagged tag vs = []
  · rw [surveyAt_eq_none hnil, surveyAt_eq_none hnil]
    rfl
  rcases tag_cases tag with ht | ht | rfl
  · rw [surveyAt_leaf ht hnil, surveyAt_leaf ht hnil]
    split
    · rfl
    · rw [Option.map_some, relaxed_ofTag]
  · have hitems : surveyItems { noRequired := true } (pool (Sample.tagged tag vs)) =
        (surveyItems { noRequired := false } (pool (Sample.tagged tag vs))).map relaxed := by
      by_cases hpool : pool (Sample.tagged tag vs) = []
      · rw [hpool]
        rfl
      · rw [surveyItems_of_ne_nil hpool, surveyItems_of_ne_nil hpool, Option.map_some,
          ih _ hpool Sample.exists_inner_of_mem_pool]
    rw [surveyAt_container ht hnil, surveyAt_container ht hnil, hitems, Option.map_some,
      relaxed_container]
  · have hproperties : (Keyed.tabulate (usedNames (Sample.tagged .object vs)) fun name =>
          survey { noRequired := true } (valuesAt name (Sample.tagged .object vs))) =
        Keyed.tabulate (usedNames (Sample.tagged .object vs)) fun name =>
          (survey { noRequired := false } (valuesAt name (Sample.tagged .object vs))).relaxed := by
      apply Keyed.ext_get?
      intro name
      rw [Keyed.get?_tabulate, Keyed.get?_tabulate]
      -- A name in use has values, so the induction applies to them.
      by_cases hname : name ∈ usedNames (Sample.tagged .object vs)
      · rw [ih _ (Sample.mem_usedNames_iff.1 hname) Sample.exists_inner_of_mem_valuesAt]
      · rw [if_neg hname, if_neg hname]
    rw [surveyAt_object hnil, surveyAt_object hnil, Option.map_some, surveyObjects, surveyObjects,
      relaxed_object, Keyed.map_tabulate, hproperties]
    rfl

/-- The survey without requirements is the relaxed survey, by induction on what
    is inside. At each level there are the same alternatives to be arranged. -/
theorem survey_relaxed (vs : List Sample) :
    survey { noRequired := true } vs = (survey { noRequired := false } vs).relaxed := by
  induction vs using Sample.inner_induction with
  | step vs ih =>
      have hfound : Tag.all.filterMap (surveyAt { noRequired := true } vs) =
          (Tag.all.filterMap (surveyAt { noRequired := false } vs)).map relaxed := by
        rw [List.map_filterMap]
        exact List.filterMap_congr fun tag _ => surveyAt_relaxed ih tag
      rw [survey_eq, survey_eq, relaxed_arrange, hfound]
      intro s hs
      rcases List.mem_filterMap.1 hs with ⟨tag, _, hs⟩
      exact isSimple_relaxed_of_surveyAt hs

/-! ### Inference -/

/-- Leaving out requirements changes nothing else: inference fails where it would
    fail with them, and in the same way, and otherwise it finds the schema that
    it would find, relaxed. -/
theorem infer_relaxed :
    (∀ vs : List Sample, inferAll { noRequired := true } vs =
      (inferAll { noRequired := false } vs).map relaxed) ∧
    ∀ v : Sample, infer { noRequired := true } v =
      (infer { noRequired := false } v).map relaxed := by
  constructor
  · intro vs
    by_cases hvs : vs = []
    · rw [hvs]
      cbv
    · rw [inferAll_eq _ hvs, inferAll_eq _ hvs, survey_relaxed]
      split <;> rfl
  · intro v
    rw [infer_eq, infer_eq, surveyOne, surveyOne, survey_relaxed]
    split <;> rfl

end Schema

end SampleSchema
