import SampleSchema.Schema.Infer
import SampleSchema.Proofs.Blocks
import SampleSchema.Proofs.Survey

/-!
# What Inference Finds

Inference comes to what a survey says.

Inference merges at every level, a survey never. To compare them, take some
samples of which the contents have been compared already. Each of the samples
infers to the survey of that sample alone, since there is nothing to merge but
its contents. Then the surveys of single samples are merged, tag by tag.
For the arrays this merges surveys of their elements, one survey for each
array. Each of these is known to be itself a merge, and a block of schemas may
be replaced by its merge, so merging the surveys is merging the schemas of all
elements together, and that is known to be the survey of the pool. Objects go
the same way under every name.

From then on it is enough to speak of surveys. They do not see the order of
the samples, so inference does not either, and whether it fails is decided by
the numbers alone.

## Main definitions

* `Schema.surveyOne`: The survey of a single sample.
* `Schema.Agrees`: Inference and survey agree on some samples.

## Theorems

* `Schema.surveyOne_eq`: The survey of a single sample, by its kind.
* `Schema.infer_of_inside`: A sample infers to the survey of it alone.
* `Schema.reduce_surveyOne`: The surveys of single samples merge tag by tag.
* `Schema.agrees`: Inference and survey agree on finite samples.
* `Schema.inferAll_eq_ok_iff`: When inference succeeds, and with what.
* `Schema.inferAll_eq_survey`: Samples with finite numbers infer to their
  survey.
* `Schema.inferAll_set`: The order of samples and their repetition do not
  count.
* `Schema.extendAll_of_inferAll`: Samples may be added later.
* `Schema.foldlM_extend`: They may be added one at a time.
-/

namespace SampleSchema

namespace Schema

open Sample (pool valuesAt usedNames sharedNames)

variable {o : MergeOptions}

/-! ### Single samples -/

/-- The survey of a single sample. -/
def surveyOne (o : MergeOptions) (v : Sample) : Schema := survey o [v]

theorem tagged_singleton (v : Sample) : Sample.tagged v.tag [v] = [v] := by
  refine List.filter_eq_self.2 fun w hw => ?_
  rw [List.mem_singleton.1 hw, beq_self_eq_true]

theorem surveyOne_of_surveyAt {v : Sample} {s : Schema} (h : surveyAt o [v] v.tag = some s) :
    surveyOne o v = s := by
  refine survey_of_only (fun w hw => ?_) h
  rw [List.mem_singleton.1 hw]

theorem surveyOne_leaf {v : Sample} (ht : v.tag.isContainer = false) :
    surveyOne o v = ofTag v.tag := by
  have hne : Sample.tagged v.tag [v] ≠ [] := by
    rw [tagged_singleton]
    exact List.cons_ne_nil v []
  apply surveyOne_of_surveyAt
  rw [surveyAt_leaf ht hne, if_neg]
  -- A sample is no integer and a number at once.
  rintro ⟨hinteger, hnumber⟩
  rcases List.exists_mem_of_ne_nil _ hnumber with ⟨w, hw⟩
  rcases Sample.mem_tagged_iff.1 hw with ⟨hmem, htag⟩
  rw [List.mem_singleton.1 hmem, hinteger] at htag
  cases htag

theorem surveyOne_container {v : Sample} (ht : v.tag = .array ∨ v.tag = .map) :
    surveyOne o v = container v.tag (surveyItems o v.inner) := by
  have hne : Sample.tagged v.tag [v] ≠ [] := by
    rw [tagged_singleton]
    exact List.cons_ne_nil v []
  apply surveyOne_of_surveyAt
  rw [surveyAt_container ht hne, tagged_singleton, pool, List.flatMap_singleton]

theorem surveyOne_object (entries : Keyed Sample) :
    surveyOne o (.object entries) =
      object (entries.map fun _ w => surveyOne o w)
        (if o.noRequired then none else some entries.keys) := by
  -- A single object has one value under each of its names, and shares all of them.
  have hproperties : Keyed.tabulate (usedNames [.object entries])
      (fun name => survey o (valuesAt name [.object entries])) =
        entries.map fun _ w => surveyOne o w := by
    apply Keyed.ext_get?
    intro name
    simp only [Keyed.get?_tabulate, Keyed.get?_map, Sample.mem_usedNames_iff,
      Sample.valuesAt_singleton, Sample.entries]
    cases entries.get? name with
    | none => rfl
    | some w => exact if_pos (List.cons_ne_nil w [])
  have hrequired : sharedNames [.object entries] = entries.keys := by
    refine Keyed.eq_of_ascending (Sample.pairwise_sharedNames _) (Keyed.pairwise_keys _) ?_
    intro name
    rw [Sample.mem_sharedNames_iff (List.cons_ne_nil _ _)]
    simp only [List.mem_singleton, forall_eq]
    rfl
  have hne : Sample.tagged .object [.object entries] ≠ [] := List.cons_ne_nil _ _
  apply surveyOne_of_surveyAt
  change surveyAt o _ .object = _
  rw [surveyAt_object hne]
  change some (surveyObjects o [.object entries]) = _
  rw [surveyObjects, hproperties, hrequired]

/-- The survey of a single sample, by its kind. -/
theorem surveyOne_eq (v : Sample) :
    surveyOne o v =
      match v with
      | .list _ | .map _ => container v.tag (surveyItems o v.inner)
      | .object entries =>
          object (entries.map fun _ w => surveyOne o w)
            (if o.noRequired then none else some entries.keys)
      | _ => ofTag v.tag := by
  cases v with
  | list _ => exact surveyOne_container (Or.inl rfl)
  | map _ => exact surveyOne_container (Or.inr rfl)
  | object entries => exact surveyOne_object entries
  | null | bool _ | int _ | string _ => exact surveyOne_leaf rfl
  | float x =>
      apply surveyOne_leaf
      rw [Sample.tag]
      split <;> rfl

theorem isOf_surveyOne (v : Sample) : (surveyOne o v).IsOf v.tag := by
  rw [surveyOne_eq]
  cases v with
  | list _ | map _ => exact isOf_container _ _
  | object entries => exact isOf_object _ _
  | null | bool _ | int _ | float _ | string _ => exact isOf_ofTag _

theorem property?_surveyOne (v : Sample) (name : String) :
    (surveyOne o v).property? name = (v.entries.get? name).map (surveyOne o) := by
  rw [surveyOne_eq]
  cases v with
  | object entries =>
      rw [property?_object, Keyed.get?_map]
      rfl
  | _ => rfl

theorem propertyNames_surveyOne (v : Sample) :
    (surveyOne o v).propertyNames = v.entries.keys := by
  rw [surveyOne_eq]
  cases v with
  | object entries =>
      rw [propertyNames_object, Keyed.keys_map]
      rfl
  | _ => rfl

theorem requiredNames_surveyOne (ho : o.noRequired = false) (v : Sample) :
    (surveyOne o v).requiredNames = v.entries.keys := by
  rw [surveyOne_eq]
  cases v with
  | object entries =>
      rw [requiredNames_object, ho]
      rfl
  | _ => rfl

/-! ### Inferring one sample -/

/-- Inference and survey agree on some samples, one by one and together. -/
structure Agrees (o : MergeOptions) (vs : List Sample) : Prop where
  /-- Each sample infers to the survey of it alone. -/
  infer : ∀ v ∈ vs, infer o v = .ok (surveyOne o v)
  /-- These merge to the survey of all. -/
  merge : merge o (vs.map (surveyOne o)) = .ok (survey o vs)

/-- Inference and survey agree on any samples from inside some others. -/
def AgreesInside (o : MergeOptions) (vs : List Sample) : Prop :=
  ∀ ws, ws ≠ [] → (∀ w ∈ ws, ∃ v ∈ vs, w ∈ v.inner) → Agrees o ws

theorem AgreesInside.of_subset {us vs : List Sample} (h : AgreesInside o vs)
    (hsub : ∀ v ∈ us, v ∈ vs) : AgreesInside o us := by
  intro ws hws hinner
  refine h ws hws fun w hw => ?_
  rcases hinner w hw with ⟨v, hv, hmem⟩
  exact ⟨v, hsub v hv, hmem⟩

theorem AgreesInside.inner {v : Sample} (h : AgreesInside o [v]) (hne : v.inner ≠ []) :
    Agrees o v.inner :=
  h v.inner hne fun _ hw => ⟨v, List.mem_cons_self, hw⟩

theorem AgreesInside.infer_inner {v w : Sample} (h : AgreesInside o [v]) (hw : w ∈ v.inner) :
    infer o w = .ok (surveyOne o w) :=
  (h.inner (List.ne_nil_of_mem hw)).infer w hw

theorem containerOf_surveyOne (tag : Tag) {ws : List Sample} (h : ws ≠ [] → Agrees o ws) :
    containerOf o tag (ws.map (surveyOne o)) = .ok (container tag (surveyItems o ws)) := by
  by_cases hws : ws = []
  · rw [hws]
    rfl
  · rw [containerOf, List.isEmpty_map, if_neg (mt List.isEmpty_iff.1 hws),
      surveyItems_of_ne_nil hws, mergeInferred, (h hws).merge]
    rfl

/-- A sample infers to the survey of it alone, if that holds inside. -/
theorem infer_of_inside {v : Sample} (hfinite : v.isFiniteItself) (h : AgreesInside o [v]) :
    infer o v = .ok (surveyOne o v) := by
  rw [surveyOne_eq]
  cases v with
  | null | bool _ | int _ | string _ =>
      rw [infer]
      rfl
  | float x =>
      have hx : (Binary.ofFloat x).isFinite := hfinite
      rw [infer, floatTag, if_pos hx]
      rfl
  | list elements =>
      have hall : ∀ w ∈ elements, infer o w = .ok (surveyOne o w) :=
        fun w hw => h.infer_inner hw
      rw [infer, mapM_of_ok hall]
      exact containerOf_surveyOne .array h.inner
  | map entries =>
      have hall : ∀ k w, entries.get? k = some w → infer o w = .ok (surveyOne o w) :=
        fun k w hw => h.infer_inner (Keyed.mem_values_iff.2 ⟨k, hw⟩)
      rw [infer_map, Keyed.mapM_map, Keyed.mapM_of_ok hall]
      change containerOf o .map (entries.map fun _ w => surveyOne o w).values = _
      rw [Keyed.values_map]
      exact containerOf_surveyOne .map h.inner
  | object entries =>
      have hall : ∀ k w, entries.get? k = some w → infer o w = .ok (surveyOne o w) :=
        fun k w hw => h.infer_inner (Keyed.mem_values_iff.2 ⟨k, hw⟩)
      rw [infer_object, Keyed.mapM_map, Keyed.mapM_of_ok hall]
      rfl

/-! ### Merging surveys of single samples -/

theorem allFragments_surveyOne (vs : List Sample) :
    allFragments (vs.map (surveyOne o)) = vs.map (surveyOne o) := by
  refine allFragments_of_isAtomic fun s hs => ?_
  rcases List.mem_map.1 hs with ⟨v, _, rfl⟩
  exact (isOf_surveyOne v).isAtomic

theorem tagged_surveyOne (tag : Tag) (vs : List Sample) :
    tagged tag (vs.map (surveyOne o)) = (Sample.tagged tag vs).map (surveyOne o) := by
  rw [tagged, List.filter_map, Sample.tagged]
  refine congrArg (List.map (surveyOne o)) (List.filter_congr fun v _ => ?_)
  change ((surveyOne o v).tag? == some tag) = _
  rw [(isOf_surveyOne v).2]
  rfl

/-- The items of arrays, or of maps, merge to the survey of what is inside all
    of them. The items of each are the merge of what is inside it, so they are
    a block that may be put in its place. -/
theorem mergeItems_surveyOne {us : List Sample} {tag : Tag} (ht : tag = .array ∨ tag = .map)
    (hus : ∀ v ∈ us, v.tag = tag) (h : AgreesInside o us) :
    mergeItems o (itemFragments (us.map (surveyOne o))) = .ok (surveyItems o (pool us)) := by
  have hitems : ∀ v ∈ us, (surveyOne o v).items = surveyItems o v.inner := by
    intro v hv
    rw [surveyOne_container (by rw [hus v hv]; exact ht), items_container]
  rw [itemFragments, List.filterMap_map]
  change mergeItems o (allFragments (us.filterMap fun v => (surveyOne o v).items)) = _
  by_cases hpool : pool us = []
  · -- Nothing is inside any of them, so there are no items.
    have hnone : (us.filterMap fun v => (surveyOne o v).items) = [] := by
      refine List.filterMap_eq_nil_iff.2 fun v hv => ?_
      rw [hitems v hv, List.flatMap_eq_nil_iff.1 hpool v hv]
      rfl
    rw [hnone, hpool]
    rfl
  · have hblocks : merge o (us.filterMap fun v => (surveyOne o v).items) =
        merge o (us.flatMap fun v => v.inner.map (surveyOne o)) := by
      refine merge_blocks (fun v hv => ?_) []
      rw [hitems v hv]
      by_cases hv' : v.inner = []
      · rw [hv']
        exact Or.inl ⟨rfl, rfl⟩
      · rw [surveyItems_of_ne_nil hv']
        exact Or.inr ⟨_, rfl, (h v.inner hv' fun _ hw => ⟨v, hv, hw⟩).merge⟩
    have hmerge : merge o (us.filterMap fun v => (surveyOne o v).items) =
        .ok (survey o (pool us)) := by
      rw [hblocks, ← List.map_flatMap]
      exact (h (pool us) hpool fun w hw => Sample.mem_pool_iff.1 hw).merge
    -- The items are taken apart before they are merged, which makes no difference.
    rw [← merge_allFragments] at hmerge
    rw [mergeItems_of_merge hmerge, surveyItems_of_ne_nil hpool]

theorem propertyFragments_surveyOne (name : String) (us : List Sample) :
    propertyFragments name (us.map (surveyOne o)) = (valuesAt name us).map (surveyOne o) := by
  have hvalues : (us.map (surveyOne o)).filterMap (fun f => f.property? name) =
      (valuesAt name us).map (surveyOne o) := by
    rw [List.filterMap_map, valuesAt, List.map_filterMap]
    exact congrArg (fun f => us.filterMap f) (funext fun v => property?_surveyOne v name)
  rw [propertyFragments, hvalues, allFragments_surveyOne]

theorem mergeProperty_surveyOne {ws : List Sample} (h : Agrees o ws) :
    mergeProperty o (ws.map (surveyOne o)) = .ok (survey o ws) := by
  cases ws with
  | nil => exact h.merge
  | cons w ws =>
      cases ws with
      -- A single schema is kept unmerged, and it is the survey of its sample already.
      | nil => rfl
      | cons _ _ => exact h.merge

theorem mergeProperties_surveyOne {us : List Sample} (h : AgreesInside o us) :
    mergeProperties o (us.map (surveyOne o)) =
      .ok (Keyed.tabulate (usedNames us) fun name => survey o (valuesAt name us)) := by
  have hnames : (us.map (surveyOne o)).flatMap propertyNames =
      us.flatMap fun v => v.entries.keys := by
    rw [List.flatMap_map]
    exact congrArg (fun f => us.flatMap f) (funext propertyNames_surveyOne)
  have hall : ∀ name u,
      (Keyed.tabulate (us.flatMap fun v => v.entries.keys) fun _ => ()).get? name = some u →
        mergeProperty o (propertyFragments name (us.map (surveyOne o))) =
          .ok (survey o (valuesAt name us)) := by
    intro name u hu
    have hvalues := Sample.mem_usedNames_iff.1 (Keyed.mem_keys_iff.2 ⟨u, hu⟩)
    rw [propertyFragments_surveyOne]
    refine mergeProperty_surveyOne (h _ hvalues fun w hw => ?_)
    rcases Sample.mem_valuesAt_iff.1 hw with ⟨v, hv, hget⟩
    exact ⟨v, hv, Sample.mem_inner_of_get? hget⟩
  rw [mergeProperties, hnames, Keyed.mapM_of_ok hall, usedNames, Keyed.tabulate_keys]

theorem mergeRequired_surveyOne {us : List Sample} (hus : us ≠ []) :
    mergeRequired o (us.map (surveyOne o)) =
      if o.noRequired then none else some (sharedNames us) := by
  unfold mergeRequired
  by_cases ho : o.noRequired
  · rw [if_pos ho, if_pos ho]
  · have hnames : (us.map (surveyOne o)).map requiredNames = us.map fun v => v.entries.keys := by
      rw [List.map_map]
      exact congrArg (fun f => us.map f)
        (funext (requiredNames_surveyOne (eq_false_of_ne_true ho)))
    have hascending : ∀ names ∈ us.map fun v => v.entries.keys, names.Pairwise (· < ·) := by
      intro names hnames
      rcases List.mem_map.1 hnames with ⟨v, _, rfl⟩
      exact Keyed.pairwise_keys v.entries
    have hne : (us.map fun v => v.entries.keys) ≠ [] := mt List.map_eq_nil_iff.1 hus
    -- Both lists ascend, so it is enough that they have the same names.
    have hshared : commonNames (us.map fun v => v.entries.keys) = sharedNames us := by
      refine Keyed.eq_of_ascending (pairwise_commonNames hascending)
        (Sample.pairwise_sharedNames us) fun name => ?_
      rw [mem_commonNames_iff hne, Sample.mem_sharedNames_iff hus, List.forall_mem_map]
    rw [if_neg ho, if_neg ho, hnames, hshared]

/-- The surveys of single samples merge, tag by tag, to the survey of all. -/
theorem reduce_surveyOne {vs : List Sample} (h : AgreesInside o vs) (tag : Tag) :
    reduce o tag (tagged tag (absorb (vs.map (surveyOne o)))) = .ok (surveyAt o vs tag) := by
  have hinside : AgreesInside o (Sample.tagged tag vs) :=
    h.of_subset fun v hv => (Sample.mem_tagged_iff.1 hv).1
  have htagged : ∀ v ∈ Sample.tagged tag vs, v.tag = tag :=
    fun v hv => (Sample.mem_tagged_iff.1 hv).2
  by_cases hnil : Sample.tagged tag vs = []
  · rw [surveyAt_eq_none hnil, tagged_absorb, tagged_surveyOne tag, hnil, List.map_nil, ite_self,
      reduce_nil]
  · have hbucket : (Sample.tagged tag vs).map (surveyOne o) ≠ [] := mt List.map_eq_nil_iff.1 hnil
    rcases tag_cases tag with ht | ht | rfl
    · have hhead : ((Sample.tagged tag vs).map (surveyOne o)).head? = some (ofTag tag) := by
        rcases List.exists_cons_of_ne_nil hnil with ⟨v, us, hcons⟩
        have hv : v.tag = tag := htagged v (by rw [hcons]; exact List.mem_cons_self)
        rw [hcons, List.map_cons, List.head?_cons, surveyOne_leaf (by rw [hv]; exact ht), hv]
      -- Integers are absorbed on the one side exactly when they are left out on the other.
      rw [reduce_leaf ht, surveyAt_leaf ht hnil, tagged_absorb, tagged_surveyOne, tagged_surveyOne]
      simp only [ne_eq, List.map_eq_nil_iff]
      split
      · rfl
      · rw [hhead]
    · have hne : tag ≠ .integer := by
        rcases ht with rfl | rfl <;> decide
      rw [tagged_absorb_of_ne hne, tagged_surveyOne, reduce_container ht hbucket,
        mergeItems_surveyOne ht htagged hinside, surveyAt_container ht hnil]
      rfl
    · rw [tagged_absorb_of_ne (by decide), tagged_surveyOne, reduce_object hbucket,
        mergeProperties_surveyOne hinside, mergeRequired_surveyOne hnil, surveyAt_object hnil]
      rfl

theorem arrange_eq_joinFound {found : List Schema} (h : OneEach found) :
    arrange found = joinFound found := by
  cases found with
  | nil => exact h.join_eq.symm
  | cons s found =>
      cases found with
      | nil => rfl
      | cons _ _ => exact h.join_eq.symm

/-- Inference and survey agree on finite samples, by induction on what is
    inside. -/
theorem agrees (o : MergeOptions) (vs : List Sample) :
    vs ≠ [] → (∀ v ∈ vs, v.isFinite) → Agrees o vs := by
  induction vs using Sample.inner_induction with
  | step vs ih =>
      intro hne hfinite
      -- Samples from inside are smaller, and finite if these are.
      have hinside : AgreesInside o vs := by
        intro ws hws hinner
        refine ih ws hws hinner hws fun w hw => ?_
        rcases hinner w hw with ⟨v, hv, hmem⟩
        exact (Sample.isFinite_iff.1 (hfinite v hv)).2 w hmem
      refine ⟨fun v hv => ?_, merge_eq_ok_iff.2 ⟨?_, surveyAt o vs, fun tag => ?_, ?_⟩⟩
      · refine infer_of_inside (Sample.isFinite_iff.1 (hfinite v hv)).1 (hinside.of_subset ?_)
        intro w hw
        rw [List.mem_singleton.1 hw]
        exact hv
      · rw [allFragments_surveyOne, refusal?_eq_none_iff]
        refine ⟨mt List.map_eq_nil_iff.1 hne, fun s hs => ?_⟩
        rcases List.mem_map.1 hs with ⟨v, _, rfl⟩
        exact ⟨v.tag, (isOf_surveyOne v).2⟩
      · rw [allFragments_surveyOne]
        exact reduce_surveyOne hinside tag
      · rw [survey_eq, arrange_eq_joinFound (oneEach_filterMap fun _ _ hs => isOf_surveyAt hs)]

/-! ### Inferring several samples -/

/-- Where a sample has a schema, so has everything inside it. -/
theorem infer_inner_of_ok {v w : Sample} {s : Schema} (h : infer o v = .ok s) (hw : w ∈ v.inner) :
    ∃ t, infer o w = .ok t := by
  cases v with
  | list elements =>
      rw [infer] at h
      rcases bind_eq_ok_iff.1 h with ⟨schemas, hschemas, _⟩
      rcases exists_of_mapM_ok hschemas with ⟨r, hr, _⟩
      exact ⟨r w, hr w hw⟩
  | map entries =>
      rw [infer_map, Keyed.mapM_map] at h
      rcases bind_eq_ok_iff.1 h with ⟨schemas, hschemas, _⟩
      rcases Keyed.exists_of_mapM_ok hschemas with ⟨r, hr, _⟩
      rcases Keyed.mem_values_iff.1 hw with ⟨k, hk⟩
      exact ⟨r k w, hr k w hk⟩
  | object entries =>
      rw [infer_object, Keyed.mapM_map] at h
      rcases bind_eq_ok_iff.1 h with ⟨properties, hproperties, _⟩
      rcases Keyed.exists_of_mapM_ok hproperties with ⟨r, hr, _⟩
      rcases Keyed.mem_values_iff.1 hw with ⟨k, hk⟩
      exact ⟨r k w, hr k w hk⟩
  | null | bool _ | int _ | float _ | string _ => exact absurd hw List.not_mem_nil

/-- Only finite samples have a schema. -/
theorem isFinite_of_infer_ok {v : Sample} {s : Schema} (h : infer o v = .ok s) : v.isFinite := by
  have hitself : v.isFiniteItself := by
    cases v with
    | float x =>
        rw [infer, floatTag] at h
        by_cases hx : (Binary.ofFloat x).isFinite
        · exact hx
        · rw [if_neg hx] at h
          cases h
    | _ => rfl
  refine Sample.isFinite_iff.2 ⟨hitself, fun w hw => ?_⟩
  rcases infer_inner_of_ok h hw with ⟨t, ht⟩
  exact isFinite_of_infer_ok ht
termination_by v
decreasing_by exact Sample.sizeOf_lt_of_mem_inner hw

theorem inferAll_of_agrees {vs : List Sample} (h : Agrees o vs) :
    inferAll o vs = .ok (survey o vs) := by
  rw [inferAll, mapM_of_ok h.infer]
  change mergeInferred o (vs.map (surveyOne o)) = _
  rw [mergeInferred, h.merge]
  rfl

/-- Inference needs a sample, and finite ones, and then it cannot fail. -/
theorem inferAll_eq_ok_iff {vs : List Sample} {s : Schema} :
    inferAll o vs = .ok s ↔ vs ≠ [] ∧ (∀ v ∈ vs, v.isFinite) ∧ s = survey o vs := by
  constructor
  · intro h
    have hne : vs ≠ [] := by
      rintro rfl
      change (merge o []).mapError InferError.merge = _ at h
      rw [merge_nil] at h
      cases h
    rcases bind_eq_ok_iff.1 h with ⟨schemas, hschemas, _⟩
    rcases exists_of_mapM_ok hschemas with ⟨r, hr, _⟩
    have hfinite : ∀ v ∈ vs, v.isFinite := fun v hv => isFinite_of_infer_ok (hr v hv)
    refine ⟨hne, hfinite, Except.ok.inj (h.symm.trans ?_)⟩
    exact inferAll_of_agrees (agrees o vs hne hfinite)
  · rintro ⟨hne, hfinite, rfl⟩
    exact inferAll_of_agrees (agrees o vs hne hfinite)

/-- Samples with finite numbers infer to their survey. -/
theorem inferAll_eq_survey (o : MergeOptions) (vs : List Sample) (hne : vs ≠ [])
    (hfinite : ∀ v ∈ vs, v.isFinite) : inferAll o vs = .ok (survey o vs) :=
  inferAll_eq_ok_iff.2 ⟨hne, hfinite, rfl⟩

/-- Two objects and a null: one list says nothing of its items, a name that
    one object lacks is not required, and an empty map is bare. -/
theorem inferAll_eq_survey_nested :
    inferAll {} [.object (.ofList [("id", .int 1), ("tags", .list [])]), .null,
        .object (.ofList [("id", .null), ("tags", .list [.string "a"]), ("at", .map .empty)])] =
      .ok (union [ofTag .null, object (.ofList [("at", ofTag .map),
        ("id", ofTags [.null, .integer]), ("tags", container .array (some (ofTag .string)))])
          (some ["id", "tags"])]) := by
  refine (inferAll_eq_survey {} _ (List.cons_ne_nil _ _) fun v hv => ?_).trans (by cbv)
  simp only [List.mem_cons, List.not_mem_nil, or_false] at hv
  rcases hv with rfl | rfl | rfl <;> cbv

/-- Inference sees which samples there are, but neither their order nor how
    often each is there: two lists with the same samples have the same schema,
    or both have none. -/
theorem inferAll_set (o : MergeOptions) (vs ws : List Sample) (h : ∀ v, v ∈ vs ↔ v ∈ ws) :
    (∃ s, inferAll o vs = .ok s ∧ inferAll o ws = .ok s) ∨
      (∃ e, inferAll o vs = .error e) ∧ ∃ e, inferAll o ws = .error e := by
  have hsame : Sample.SameMembers vs ws := h
  -- Success is decided by what the samples are, so it is the same for both lists.
  by_cases hok : vs ≠ [] ∧ ∀ v ∈ vs, v.isFinite
  · have hws : ws ≠ [] ∧ ∀ w ∈ ws, w.isFinite :=
      ⟨mt hsame.eq_nil_iff.2 hok.1, fun w hw => hok.2 w ((h w).2 hw)⟩
    refine Or.inl ⟨survey o vs, inferAll_eq_ok_iff.2 ⟨hok.1, hok.2, rfl⟩, ?_⟩
    exact inferAll_eq_ok_iff.2 ⟨hws.1, hws.2, survey_congr o vs ws hsame⟩
  · refine Or.inr ⟨?_, ?_⟩
    · cases hvs : inferAll o vs with
      | error e => exact ⟨e, rfl⟩
      | ok s =>
          rcases inferAll_eq_ok_iff.1 hvs with ⟨hne, hfinite, _⟩
          exact absurd ⟨hne, hfinite⟩ hok
    · cases hws : inferAll o ws with
      | error e => exact ⟨e, rfl⟩
      | ok s =>
          rcases inferAll_eq_ok_iff.1 hws with ⟨hne, hfinite, _⟩
          refine absurd ⟨mt hsame.eq_nil_iff.1 hne, fun v hv => ?_⟩ hok
          exact hfinite v ((h v).1 hv)

theorem inferAll_set_repeated :
    (∃ s, inferAll {} [.null, .list [.int 1]] = .ok s ∧
        inferAll {} [.list [.int 1], .null, .list [.int 1]] = .ok s) ∨
      (∃ e, inferAll {} [.null, .list [.int 1]] = .error e) ∧
        ∃ e, inferAll {} [.list [.int 1], .null, .list [.int 1]] = .error e := by
  refine inferAll_set {} _ _ fun v => ?_
  simp only [List.mem_cons, List.not_mem_nil, or_false]
  grind

/-! ### Widening -/

/-- Widening what was inferred is inferring everything at once, errors
    included. The schemas of the first samples are a block that was merged. -/
theorem extendAll_of_inferAll {vs : List Sample} {s : Schema} (h : inferAll o vs = .ok s)
    (ws : List Sample) : extendAll o s ws = inferAll o (vs ++ ws) := by
  rcases inferAll_eq_ok_iff.1 h with ⟨hne, hfinite, rfl⟩
  have hvs := agrees o vs hne hfinite
  rw [extendAll, inferAll, List.mapM_append, mapM_of_ok hvs.infer]
  cases ws.mapM (infer o) with
  | error e => rfl
  | ok schemas =>
      have hblock := blockwise o _ [] (vs.map (surveyOne o)) schemas rfl _ hvs.merge
      rw [List.nil_append, List.singleton_append, List.nil_append] at hblock
      change mergeInferred o (survey o vs :: schemas) =
        mergeInferred o (vs.map (surveyOne o) ++ schemas)
      rw [mergeInferred, mergeInferred, hblock]

theorem extend_eq_extendAll (s : Schema) (v : Sample) : extend o s v = extendAll o s [v] := by
  rw [extend, extendAll, List.mapM_cons, List.mapM_nil]
  cases infer o v <;> rfl

/-- Adding samples one at a time is inferring everything at once. If a sample
    has no schema, the first such sample ends both in the same way. -/
theorem foldlM_extend {vs : List Sample} {s : Schema} (h : inferAll o vs = .ok s)
    (ws : List Sample) : ws.foldlM (extend o) s = inferAll o (vs ++ ws) := by
  induction ws generalizing vs s with
  | nil =>
      rw [List.append_nil, h]
      rfl
  | cons w ws ih =>
      rcases inferAll_eq_ok_iff.1 h with ⟨hne, hfinite, _⟩
      rw [List.foldlM_cons]
      by_cases hw : w.isFinite
      · have hmore : inferAll o (vs ++ [w]) = .ok (survey o (vs ++ [w])) := by
          refine inferAll_eq_ok_iff.2 ⟨List.append_ne_nil_of_left_ne_nil hne _, ?_, rfl⟩
          rw [List.forall_mem_append, List.forall_mem_singleton]
          exact ⟨hfinite, hw⟩
        have hrest := ih hmore
        rw [List.append_assoc] at hrest
        rw [extend_eq_extendAll, extendAll_of_inferAll h, hmore]
        exact hrest
      · -- The samples before this one have schemas, so both stop here.
        have hvs := (agrees o vs hne hfinite).infer
        rw [extend, inferAll, List.mapM_append, mapM_of_ok hvs, List.mapM_cons]
        cases hinfer : infer o w with
        | error e => rfl
        | ok t => exact absurd (isFinite_of_infer_ok hinfer) hw

end Schema

end SampleSchema
