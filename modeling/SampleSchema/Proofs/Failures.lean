import SampleSchema.Error
import SampleSchema.Proofs.Exemplars
import SampleSchema.Proofs.Instances
import SampleSchema.Sample.Designation

/-!
# Where Inference Fails

Inference can only fail over a number, and it fails over the first.

An inference merges wherever it comes to a container, and a merge has failures
of its own: there may be nothing to merge, or a fragment without a type. Neither
can happen here. Nothing is merged for an empty container, and whatever has
been inferred is canonical, so it offers a tag at every node. This leaves the
doubles that stand for no finite number. Elements are inferred in their order
and entries in that of their names, and a row of attempts ends with the first
that fails. So the doubles of a sample, listed in this order, tell where
inference fails, and the options have no part in it.

Where there is no failure the sample has been surveyed, and the survey accepts
it. The items of a list are a merge of what its elements infer to, and merging
loses no sample.

A JSON value is converted to a sample without touching its numbers, whichever
objects are designated as maps. JSON has no way to write a number that is not
finite, so what is read from it can be inferred.

## Main definitions

* `Sample.floats`, `Json.floats`: The doubles inside, in the order in which
  inference comes to them.
* `Sample.firstNotFinite?`: The first of them that is not finite.

## Theorems

* `Designation.floats_convert`: Conversion keeps the doubles.
* `Schema.failure?_infer`: Inference fails over the first double that is not
  finite.
* `Schema.infer_eq`, `Schema.inferAll_eq`: What inference ends in, by the
  doubles alone.
* `Schema.accepts_surveyOne`: The survey of a sample accepts it.
* `Schema.infer_total`: Where inference fails, and that it finds a schema of the
  sample where it does not.
-/

namespace SampleSchema

/-! ### The doubles in a sample -/

namespace Sample

/-- The double that the sample is. -/
def float? : Sample → Option Float
  | float x => some x
  | _ => none

/-- The doubles in the sample: elements in their order, entries in that of their
    names. -/
def floats (v : Sample) : List Float :=
  v.float?.toList ++ v.inner.attach.flatMap fun w => w.1.floats
termination_by v
decreasing_by exact sizeOf_lt_of_mem_inner w.2

theorem floats_eq (v : Sample) : v.floats = v.float?.toList ++ v.inner.flatMap floats := by
  rw [floats]
  simp only [List.flatMap_subtype, List.unattach_attach]

theorem floats_asMap (v : Sample) : v.asMap.floats = v.floats := by
  rw [floats_eq, floats_eq, inner_asMap]
  cases v <;> rfl

theorem isFiniteItself_iff {v : Sample} :
    v.isFiniteItself ↔ ∀ x ∈ v.float?.toList, (Binary.ofFloat x).isFinite := by
  cases v <;> simp [isFiniteItself, float?]

/-- A sample is finite when its doubles are. -/
theorem isFinite_iff_floats {v : Sample} :
    v.isFinite ↔ ∀ x ∈ v.floats, (Binary.ofFloat x).isFinite := by
  rw [isFinite_iff, floats_eq, List.forall_mem_append, List.forall_mem_flatMap, isFiniteItself_iff]
  exact and_congr_right fun _ => forall₂_congr fun w hw => isFinite_iff_floats
termination_by v
decreasing_by exact sizeOf_lt_of_mem_inner hw

/-- The first double in the sample that is not finite. -/
def firstNotFinite? (v : Sample) : Option Float :=
  v.floats.find? fun x => !(Binary.ofFloat x).isFinite

theorem firstNotFinite?_eq_none_iff {v : Sample} : v.firstNotFinite? = none ↔ v.isFinite := by
  rw [firstNotFinite?, List.find?_eq_none, isFinite_iff_floats]
  simp only [Bool.not_eq_true', Bool.not_eq_false]

theorem exists_firstNotFinite?_iff {v : Sample} :
    (∃ x, v.firstNotFinite? = some x) ↔ ∃ x ∈ v.floats, (Binary.ofFloat x).isFinite = false := by
  rw [← Option.isSome_iff_exists, firstNotFinite?, List.find?_isSome]
  simp only [Bool.not_eq_true']

theorem firstNotFinite?_float (x : Float) :
    (float x).firstNotFinite? = if (Binary.ofFloat x).isFinite then none else some x := by
  rw [firstNotFinite?, floats_eq]
  cases h : (Binary.ofFloat x).isFinite <;> simp [float?, inner, h]

/-- Of what is inside a sample, the first that is not finite decides. -/
theorem firstNotFinite?_of_inner {v : Sample} (h : v.float? = none) :
    v.firstNotFinite? = v.inner.findSome? firstNotFinite? := by
  rw [firstNotFinite?, floats_eq, h, Option.toList_none, List.nil_append, List.find?_flatMap]
  rfl

end Sample

/-- The doubles in a JSON value: elements in their order, members in that of
    their names. -/
def Json.floats : Json → List Float
  | .float x => [x]
  | .array elements => elements.flatMap fun j => j.floats
  | .object members => (members.mapMem fun _ j _ => j.floats).values.flatten
  | .null | .bool _ | .int _ | .string _ => []
termination_by j => j
decreasing_by
  · decreasing_tactic
  · next hm =>
      have hlt := Keyed.sizeOf_lt_of_mem hm
      simp only [Json.object.sizeOf_spec]
      omega

theorem Json.floats_object (members : Keyed Json) :
    (object members).floats = members.toList.flatMap fun e => e.2.floats := by
  rw [floats, Keyed.mapMem_eq_map members fun _ j => j.floats, Keyed.values, Keyed.toList_map,
    List.map_map, List.flatMap_def]
  rfl

namespace Designation

theorem floats_under (d : Designation) (name : String) (v : Sample) :
    (d.under name v).floats = v.floats := by
  unfold under
  split
  · exact v.floats_asMap
  · rfl

theorem floats_inner (d : Designation) (j : Json) : (d.inner j).floats = j.floats := by
  induction j using Json.written.induct with
  | case6 elements ih =>
      rw [Json.floats, inner, Sample.floats_eq]
      change (elements.map d.inner).flatMap Sample.floats = _
      rw [List.flatMap_map]
      exact List.flatMap_congr ih
  | case7 members ih =>
      rw [Json.floats_object, inner_object, Sample.floats_eq]
      change (members.map fun name j => d.under name (d.inner j)).values.flatMap Sample.floats = _
      rw [Keyed.values, Keyed.toList_map, List.map_map, List.flatMap_map]
      refine List.flatMap_congr fun e he => ?_
      exact (d.floats_under e.1 _).trans (ih e.1 e.2 he)
  | _ =>
      rw [inner, Sample.floats_eq, Json.floats]
      rfl

/-- A JSON value and the sample that it is have the same doubles in the same
    order, whichever objects are maps. -/
theorem floats_convert (d : Designation) (j : Json) : (d.convert j).floats = j.floats := by
  unfold convert
  split
  · rw [Sample.floats_asMap, floats_inner]
  · exact d.floats_inner j

end Designation

namespace Schema

variable {o : MergeOptions}

/-! ### Where inference fails -/

/-- Of elements that have schemas a container can be made. What they infer to is
    canonical, so it can be merged. -/
theorem exists_containerOf_ok (tag : Tag) {elements : List Schema}
    (h : ∀ s ∈ elements, ∃ v, infer o v = .ok s) : ∃ s, containerOf o tag elements = .ok s := by
  unfold containerOf
  by_cases hempty : elements.isEmpty
  · rw [if_pos hempty]
    exact ⟨_, rfl⟩
  · -- No fragment without a tag is found in them, which would be refused.
    have hoffers : ∀ s ∈ elements, s.Everywhere OffersTag := by
      intro s hs
      rcases h s hs with ⟨v, hv⟩
      exact (Everywhere.of_infer (keptByInference_canonicalNode o) hv).imp
        fun _ hnode => hnode.offersTag
    rcases exists_merge_ok o elements (mt List.isEmpty_iff.2 hempty) hoffers with ⟨m, hm⟩
    rw [if_neg hempty, mergeInferred, hm]
    exact ⟨_, rfl⟩

/-- Of elements that are tried in a row, the first that is not finite decides. -/
theorem failure?_inferElements {elements : List Sample}
    (h : ∀ v ∈ elements, failure? (infer o v) = v.firstNotFinite?.map .notFinite) :
    failure? (elements.mapM (infer o)) =
      (elements.findSome? Sample.firstNotFinite?).map .notFinite := by
  rw [failure?_mapM h, List.map_findSome?]
  rfl

/-- So it does of entries, in the order of their names. -/
theorem failure?_inferEntries {entries : Keyed Sample}
    (h : ∀ v ∈ entries.values, failure? (infer o v) = v.firstNotFinite?.map .notFinite) :
    failure? ((entries.map fun _ v => infer o v).mapM fun _ s => s) =
      (entries.values.findSome? Sample.firstNotFinite?).map .notFinite := by
  have hentry : ∀ k v, entries.get? k = some v →
      failure? (infer o v) = v.firstNotFinite?.map .notFinite :=
    fun k v hv => h v (Keyed.mem_values_iff.2 ⟨k, hv⟩)
  rw [Keyed.mapM_map, Keyed.failure?_mapM (g := fun e => e.2.firstNotFinite?.map .notFinite) hentry,
    Keyed.values, List.findSome?_map, List.map_findSome?]
  rfl

/-- Inference fails over the first double that is not finite, by induction on
    what is inside the sample. -/
theorem failure?_infer (o : MergeOptions) (v : Sample) :
    failure? (infer o v) = v.firstNotFinite?.map .notFinite := by
  cases v with
  | null | bool _ | int _ | string _ =>
      rw [infer, Sample.firstNotFinite?_of_inner rfl]
      rfl
  | float x =>
      rw [infer, Sample.firstNotFinite?_float, floatTag]
      cases (Binary.ofFloat x).isFinite <;> rfl
  | list elements =>
      rw [infer, failure?_bind, failure?_inferElements fun w hw => failure?_infer o w,
        Sample.firstNotFinite?_of_inner rfl]
      · rfl
      · -- Once the elements have schemas, a container is made of them.
        intro schemas hschemas
        rcases exists_of_mapM_ok hschemas with ⟨r, hr, rfl⟩
        refine failure?_eq_none_iff.2 (exists_containerOf_ok .array fun s hs => ?_)
        rcases List.mem_map.1 hs with ⟨w, hw, rfl⟩
        exact ⟨w, hr w hw⟩
  | map entries =>
      rw [infer_map, failure?_bind, failure?_inferEntries fun w hw => failure?_infer o w,
        Sample.firstNotFinite?_of_inner rfl]
      · rfl
      · intro schemas hschemas
        rw [Keyed.mapM_map] at hschemas
        rcases Keyed.exists_of_mapM_ok hschemas with ⟨r, hr, rfl⟩
        refine failure?_eq_none_iff.2 (exists_containerOf_ok .map fun s hs => ?_)
        rcases Keyed.mem_values_iff.1 hs with ⟨k, hk⟩
        rw [Keyed.get?_map, Option.map_eq_some_iff] at hk
        rcases hk with ⟨w, hw, rfl⟩
        exact ⟨w, hr k w hw⟩
  | object entries =>
      rw [infer_object, failure?_bind fun _ _ => rfl,
        failure?_inferEntries fun w hw => failure?_infer o w, Sample.firstNotFinite?_of_inner rfl]
      rfl
termination_by v
decreasing_by all_goals exact Sample.sizeOf_lt_of_mem_inner hw

/-- What inference ends in: the survey of the sample, or the first double that
    is not finite. -/
theorem infer_eq (o : MergeOptions) (v : Sample) :
    infer o v =
      match v.firstNotFinite? with
      | some x => .error (.notFinite x)
      | none => .ok (surveyOne o v) := by
  have hfailure := failure?_infer o v
  cases h : v.firstNotFinite? with
  | some x =>
      rw [h] at hfailure
      exact failure?_eq_some_iff.1 hfailure
  | none =>
      have hfinite := Sample.firstNotFinite?_eq_none_iff.1 h
      refine (agrees o [v] (List.cons_ne_nil v []) fun w hw => ?_).infer v List.mem_cons_self
      rw [List.mem_singleton.1 hw]
      exact hfinite

theorem infer_eq_error_iff {v : Sample} {e : InferError} :
    infer o v = .error e ↔ ∃ x, v.firstNotFinite? = some x ∧ .notFinite x = e := by
  rw [← failure?_eq_some_iff, failure?_infer, Option.map_eq_some_iff]

/-- The same for several samples, of which there must be one. -/
theorem inferAll_eq (o : MergeOptions) {vs : List Sample} (hvs : vs ≠ []) :
    inferAll o vs =
      match vs.findSome? Sample.firstNotFinite? with
      | some x => .error (.notFinite x)
      | none => .ok (survey o vs) := by
  cases h : vs.findSome? Sample.firstNotFinite? with
  | some x =>
      have hrow : failure? (vs.mapM (infer o)) = some (.notFinite x) := by
        rw [failure?_inferElements fun v _ => failure?_infer o v, h]
        rfl
      rw [inferAll, failure?_eq_some_iff.1 hrow]
      rfl
  | none =>
      refine inferAll_eq_ok_iff.2 ⟨hvs, fun v hv => ?_, rfl⟩
      exact Sample.firstNotFinite?_eq_none_iff.1 (List.findSome?_eq_none_iff.1 h v hv)

/-! ### What is found accepts the sample -/

/-- Samples with a schema are accepted by the survey of all of them, if each is
    by the survey of it alone. -/
theorem accepts_survey {vs : List Sample} (hfinite : ∀ v ∈ vs, v.isFinite)
    (h : ∀ v ∈ vs, (surveyOne o v).accepts v) {v : Sample} (hv : v ∈ vs) :
    (survey o vs).accepts v := by
  -- The survey of all is the merge of the surveys one by one.
  have hagree := agrees o vs (List.ne_nil_of_mem hv) hfinite
  refine keepsSamples o _ (fun s hs => ?_) _ v hagree.merge
    ⟨_, List.mem_map_of_mem hv, h v hv⟩
  rcases List.mem_map.1 hs with ⟨w, hw, rfl⟩
  have hcanonical : (surveyOne o w).IsCanonical :=
    .of_infer (keptByInference_canonicalNode o) (hagree.infer w hw)
  exact hcanonical.hasBareLists

/-- The survey of a finite sample accepts it, by induction on what is inside. -/
theorem accepts_surveyOne (o : MergeOptions) (v : Sample) (hv : v.isFinite) :
    (surveyOne o v).accepts v := by
  have hfinite := (Sample.isFinite_iff.1 hv).2
  have hinside : ∀ w ∈ v.inner, (surveyOne o w).accepts w :=
    fun w hw => accepts_surveyOne o w (hfinite w hw)
  have hitems : ∀ w ∈ v.inner, ∃ c, surveyItems o v.inner = some c ∧ c.accepts w :=
    fun w hw => ⟨_, surveyItems_of_ne_nil (List.ne_nil_of_mem hw), accepts_survey hfinite hinside hw⟩
  refine ((isOf_surveyOne v).accepts_iff v).2 ⟨Sample.tag_mem_tags v, ?_⟩
  cases v with
  | null | bool _ | int _ | float _ | string _ => trivial
  | list elements =>
      rw [surveyOne_eq]
      exact hitems
  | map entries =>
      rw [surveyOne_eq]
      exact hitems
  | object entries =>
      -- What is required are names of the object, if anything is.
      constructor
      · intro k e hk
        refine ⟨surveyOne o e, ?_, hinside e (Keyed.mem_values_iff.2 ⟨k, hk⟩)⟩
        rw [property?_surveyOne]
        exact congrArg (Option.map (surveyOne o)) hk
      · intro name hname
        by_cases ho : o.noRequired
        · rw [surveyOne_eq, requiredNames_object, if_pos ho] at hname
          cases hname
        · rw [requiredNames_surveyOne (eq_false_of_ne_true ho)] at hname
          exact Keyed.mem_keys_iff.1 hname
termination_by v
decreasing_by exact Sample.sizeOf_lt_of_mem_inner hw

/-- A finite sample has a schema that accepts it. -/
theorem exists_infer_accepts (o : MergeOptions) {v : Sample} (hv : v.isFinite) :
    ∃ s, infer o v = .ok s ∧ s.accepts v := by
  refine ⟨surveyOne o v, ?_, accepts_surveyOne o v hv⟩
  rw [infer_eq, Sample.firstNotFinite?_eq_none_iff.2 hv]

/-- Inference fails when one of the doubles in the sample is not finite, and over
    the first such double. Otherwise it finds a schema that accepts the sample.
    What is read from JSON always has one, whichever objects are maps. -/
theorem infer_total (o : MergeOptions) :
    (∀ v : Sample, (∃ e, infer o v = .error e) ↔
      ∃ x ∈ v.floats, (Binary.ofFloat x).isFinite = false) ∧
    (∀ (v : Sample) e, infer o v = .error e → ∃ x,
      v.firstNotFinite? = some x ∧ e = .notFinite x ∧
      e.error = .unsupported ("non-finite number " ++ (Binary.ofFloat x).text)) ∧
    (∀ v : Sample, (∀ x ∈ v.floats, (Binary.ofFloat x).isFinite) →
      ∃ s, infer o v = .ok s ∧ s.accepts v) ∧
    ∀ (d : Designation) (j : Json), (∀ x ∈ j.floats, (Binary.ofFloat x).isFinite) →
      ∃ s, infer o (d.convert j) = .ok s ∧ s.accepts (d.convert j) := by
  refine ⟨fun v => ?_, fun v e h => ?_, fun v hfloats => ?_, fun d j hfloats => ?_⟩
  · rw [← Sample.exists_firstNotFinite?_iff]
    simp only [infer_eq_error_iff]
    exact ⟨fun ⟨_, x, hx, _⟩ => ⟨x, hx⟩, fun ⟨x, hx⟩ => ⟨_, x, hx, rfl⟩⟩
  · rcases infer_eq_error_iff.1 h with ⟨x, hx, rfl⟩
    exact ⟨x, hx, rfl, rfl⟩
  · exact exists_infer_accepts o (Sample.isFinite_iff_floats.2 hfloats)
  · refine exists_infer_accepts o (Sample.isFinite_iff_floats.2 ?_)
    rw [d.floats_convert j]
    exact hfloats

/-- A sample with two doubles that are not finite. The one under the first name
    is met first, though it is written last. -/
def brokenSample : Sample :=
  .list [.float 1.5,
    .object (.ofList [("b", .float (0.0 / 0.0)), ("a", .float (1.0 / 0.0))])]

/-- A JSON value with an object that may be read as a map. -/
def pricesJson : Json :=
  .object (.ofList [("prices", .object (.ofList [("b", .float 1.5), ("a", .int 2)])),
    ("log", .array [.float 2.5])])

theorem floats_brokenSample : brokenSample.floats = [1.5, 1.0 / 0.0, 0.0 / 0.0] := by
  have hvalues : (Keyed.ofList [("b", Sample.float (0.0 / 0.0)),
      ("a", .float (1.0 / 0.0))]).values = [.float (1.0 / 0.0), .float (0.0 / 0.0)] := rfl
  simp [brokenSample, Sample.floats_eq, Sample.float?, Sample.inner, hvalues]

theorem floats_pricesJson : pricesJson.floats = [2.5, 1.5] := by
  have hprices : (Keyed.ofList [("b", Json.float 1.5), ("a", .int 2)]).toList =
      [("a", .int 2), ("b", .float 1.5)] := rfl
  have hmembers : ∀ prices log : Json, (Keyed.ofList [("prices", prices),
      ("log", log)]).toList = [("log", log), ("prices", prices)] := by
    intro prices log
    cbv
  simp [pricesJson, Json.floats_object, Json.floats, hprices, hmembers]

/-- The infinity is named, and the prices have a schema as a map. -/
theorem infer_total_prices :
    (∃ e, infer {} brokenSample = .error e ∧
      e.error = .unsupported "non-finite number inf") ∧
    (∃ s, infer {} (.list [.float 1.5, .null]) = .ok s ∧
      s.accepts (.list [.float 1.5, .null])) ∧
    ∃ s, infer {} (Designation.convert { names := ["prices"] } pricesJson) = .ok s ∧
      s.accepts (Designation.convert { names := ["prices"] } pricesJson) := by
  rcases infer_total {} with ⟨hfails, hfirst, haccepts, hconvert⟩
  refine ⟨?_, haccepts _ ?_, hconvert _ _ ?_⟩
  · have hfinite : (Binary.ofFloat 1.5).isFinite = true := by decide
    have hinfinite : (Binary.ofFloat (1.0 / 0.0)).isFinite = false := by decide
    have htext : (Binary.ofFloat (1.0 / 0.0)).text = "inf" := by decide
    have hfound : brokenSample.firstNotFinite? = some (1.0 / 0.0) := by
      simp [Sample.firstNotFinite?, floats_brokenSample, hfinite, hinfinite]
    have hmem : 1.0 / 0.0 ∈ brokenSample.floats := List.mem_of_find?_eq_some hfound
    rcases (hfails brokenSample).2 ⟨_, hmem, hinfinite⟩ with ⟨e, he⟩
    rcases hfirst brokenSample e he with ⟨x, hx, _, herror⟩
    rw [← Option.some.inj (hfound.symm.trans hx), htext] at herror
    exact ⟨e, he, herror⟩
  · have hfloats : (Sample.list [.float 1.5, .null]).floats = [1.5] := by
      simp [Sample.floats_eq, Sample.float?, Sample.inner]
    rw [hfloats]
    decide
  · rw [floats_pricesJson]
    decide

end Schema

end SampleSchema
