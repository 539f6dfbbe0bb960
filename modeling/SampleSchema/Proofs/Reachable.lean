import SampleSchema.Proofs.Inference
import SampleSchema.Proofs.Upkeep

/-!
# Schemas from Samples

The schemas that come from samples, by whatever way.

A schema written by hand can have any form. One that comes from samples has
been through inference, and afterwards perhaps through widening and merging,
with one choice of options or another at each step, or it has been taken from
inside such a schema. `Reachable` is this class of schemas, and what holds of
all of them is an invariant of the library.

Inference makes one kind of node that merging does not: the object of a single
sample, which requires all of its names. With that entry added, a condition
that merging keeps holds everywhere in what is inferred, and so in everything
reachable.

## Main definitions

* `Schema.Reachable`: The schema comes from samples.
* `Schema.KeptByInference`: A condition holds of the nodes that merging and
  inference build.

## Theorems

* `Schema.infer_cases`: What a sample infers to.
* `Schema.Everywhere.of_infer`: Inference keeps a condition.
* `Schema.Reachable.everywhere`: What inference and merging keep holds
  everywhere in a reachable schema.
-/

namespace SampleSchema

namespace Schema

/-- The schema comes from samples: it is inferred, widened, merged, or taken
    from inside. The options may differ from step to step. -/
inductive Reachable : Schema → Prop
  | infer (o : MergeOptions) {v : Sample} {s : Schema} (h : infer o v = .ok s) : Reachable s
  | inferAll (o : MergeOptions) {vs : List Sample} {s : Schema} (h : inferAll o vs = .ok s) :
      Reachable s
  | extend (o : MergeOptions) {s t : Schema} {v : Sample} (hs : Reachable s)
      (h : extend o s v = .ok t) : Reachable t
  | merge (o : MergeOptions) {xs : List Schema} {m : Schema} (hxs : ∀ x ∈ xs, Reachable x)
      (h : merge o xs = .ok m) : Reachable m
  | property {s c : Schema} {name : String} (hs : Reachable s) (h : s.property? name = some c) :
      Reachable c
  | items {s c : Schema} (hs : Reachable s) (h : s.items = some c) : Reachable c

variable {o : MergeOptions} {P : Schema → Prop}

/-! ### Inference -/

theorem merge_of_mergeInferred {xs : List Schema} {m : Schema}
    (h : mergeInferred o xs = .ok m) : merge o xs = .ok m := by
  unfold mergeInferred at h
  cases hm : merge o xs with
  | error e =>
      rw [hm] at h
      cases h
  | ok t =>
      rw [hm] at h
      cases h
      rfl

theorem containerOf_cases {tag : Tag} {elements : List Schema} {s : Schema}
    (h : containerOf o tag elements = .ok s) :
    ∃ items, s = container tag items ∧ ∀ c, items = some c → merge o elements = .ok c := by
  unfold containerOf at h
  split at h
  · cases h
    exact ⟨none, rfl, fun c hc => by cases hc⟩
  · rcases bind_eq_ok_iff.1 h with ⟨m, hm, h⟩
    cases h
    refine ⟨some m, rfl, fun c hc => ?_⟩
    cases hc
    exact merge_of_mergeInferred hm

/-- What a sample infers to: a bare tag, or an array or map whose items are
    merged from what its elements infer to, or an object that requires all of
    its names. -/
theorem infer_cases {v : Sample} {s : Schema} (h : infer o v = .ok s) :
    (∃ tag, s = ofTag tag) ∨
    (∃ tag items elements, (tag = .array ∨ tag = .map) ∧ s = container tag items ∧
      (∀ c, items = some c → merge o elements = .ok c) ∧
      ∀ e ∈ elements, ∃ w ∈ v.inner, infer o w = .ok e) ∨
    (∃ properties, s = object properties (if o.noRequired then none else some properties.keys) ∧
      ∀ name c, properties.get? name = some c → ∃ w ∈ v.inner, infer o w = .ok c) := by
  cases v with
  | null | bool _ | int _ | string _ =>
      rw [infer] at h
      exact Or.inl ⟨_, (Except.ok.inj h).symm⟩
  | float x =>
      rw [infer] at h
      rcases bind_eq_ok_iff.1 h with ⟨tag, _, h⟩
      exact Or.inl ⟨tag, (Except.ok.inj h).symm⟩
  | list elements =>
      rw [infer] at h
      rcases bind_eq_ok_iff.1 h with ⟨schemas, hschemas, h⟩
      rcases exists_of_mapM_ok hschemas with ⟨r, hr, rfl⟩
      rcases containerOf_cases h with ⟨items, rfl, hitems⟩
      refine Or.inr (Or.inl ⟨.array, items, _, Or.inl rfl, rfl, hitems, fun e he => ?_⟩)
      rcases List.mem_map.1 he with ⟨w, hw, rfl⟩
      exact ⟨w, hw, hr w hw⟩
  | map entries =>
      rw [infer_map, Keyed.mapM_map] at h
      rcases bind_eq_ok_iff.1 h with ⟨schemas, hschemas, h⟩
      rcases Keyed.exists_of_mapM_ok hschemas with ⟨r, hr, rfl⟩
      rcases containerOf_cases h with ⟨items, rfl, hitems⟩
      refine Or.inr (Or.inl ⟨.map, items, _, Or.inr rfl, rfl, hitems, fun e he => ?_⟩)
      rcases Keyed.mem_values_iff.1 he with ⟨k, hk⟩
      rw [Keyed.get?_map, Option.map_eq_some_iff] at hk
      rcases hk with ⟨w, hw, rfl⟩
      exact ⟨w, Keyed.mem_values_iff.2 ⟨k, hw⟩, hr k w hw⟩
  | object entries =>
      rw [infer_object, Keyed.mapM_map] at h
      rcases bind_eq_ok_iff.1 h with ⟨properties, hproperties, h⟩
      rcases Keyed.exists_of_mapM_ok hproperties with ⟨r, hr, rfl⟩
      cases h
      refine Or.inr (Or.inr ⟨_, by rw [Keyed.keys_map], fun name c hc => ?_⟩)
      rw [Keyed.get?_map, Option.map_eq_some_iff] at hc
      rcases hc with ⟨w, hw, rfl⟩
      exact ⟨w, Keyed.mem_values_iff.2 ⟨name, hw⟩, hr name w hw⟩

/-- The condition holds of every node that a merge builds, and of the object
    that a single sample infers to. -/
structure KeptByInference (o : MergeOptions) (P : Schema → Prop) : Prop
    extends KeptByMerging o P where
  /-- It holds of objects that require all of their names. -/
  record : ∀ properties : Keyed Schema,
    P (Schema.object properties (if o.noRequired then none else some properties.keys))

/-- What a sample infers to has the condition everywhere, by induction on what
    is inside. -/
theorem Everywhere.of_infer (hP : KeptByInference o P) {v : Sample} {s : Schema}
    (h : Schema.infer o v = .ok s) : s.Everywhere P := by
  rcases infer_cases h with ⟨tag, rfl⟩ | ⟨tag, items, elements, ht, rfl, hitems, hinner⟩ |
    ⟨properties, rfl, hinner⟩
  · exact everywhere_ofTag (hP.tag tag)
  · refine everywhere_container_iff.2 ⟨hP.container tag items ht, fun c hc => ?_⟩
    refine .of_merge hP.toKeptByMerging elements (fun e he => ?_) c (hitems c hc)
    rcases hinner e he with ⟨w, hw, hinfer⟩
    exact of_infer hP hinfer
  · refine everywhere_object_iff.2 ⟨hP.record properties, fun name c hc => ?_⟩
    rcases hinner name c hc with ⟨w, hw, hinfer⟩
    exact of_infer hP hinfer
termination_by v
decreasing_by all_goals exact Sample.sizeOf_lt_of_mem_inner hw

theorem Everywhere.of_inferAll (hP : KeptByInference o P) {vs : List Sample} {s : Schema}
    (h : inferAll o vs = .ok s) : s.Everywhere P := by
  rcases bind_eq_ok_iff.1 h with ⟨schemas, hschemas, h⟩
  rcases exists_of_mapM_ok hschemas with ⟨r, hr, rfl⟩
  refine .of_merge hP.toKeptByMerging _ (fun x hx => ?_) s (merge_of_mergeInferred h)
  rcases List.mem_map.1 hx with ⟨v, hv, rfl⟩
  exact .of_infer hP (hr v hv)

theorem Everywhere.of_extend (hP : KeptByInference o P) {s t : Schema} {v : Sample}
    (hs : s.Everywhere P) (h : extend o s v = .ok t) : t.Everywhere P := by
  rcases bind_eq_ok_iff.1 h with ⟨u, hu, h⟩
  refine .of_merge hP.toKeptByMerging _ (fun x hx => ?_) t (merge_of_mergeInferred h)
  rcases List.mem_cons.1 hx with rfl | hx
  · exact hs
  · rw [List.mem_singleton.1 hx]
    exact .of_infer hP hu

/-! ### Everything reachable -/

/-- What inference and merging keep under all options holds everywhere in a
    reachable schema, by induction along the way to it. -/
theorem Reachable.everywhere (hP : ∀ o, KeptByInference o P) {s : Schema} (h : Reachable s) :
    s.Everywhere P := by
  induction h with
  | infer o h => exact .of_infer (hP o) h
  | inferAll o h => exact .of_inferAll (hP o) h
  | extend o _ h ih => exact .of_extend (hP o) ih h
  | merge o _ h ih => exact .of_merge (hP o).toKeptByMerging _ ih _ h
  | property _ h ih => exact ih.inside (mem_children_of_property? h)
  | items _ h ih => exact ih.inside (mem_children_of_items h)

end Schema

end SampleSchema
