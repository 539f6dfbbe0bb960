import Mathlib
import SampleSchema.Proofs.Inference
import SampleSchema.Proofs.Sources
import SampleSchema.Sample.Designation

/-!
# How Deep Schemas Nest

The brackets of a schema's wire form, by what the schema is inferred from.

A schema nests more deeply than its samples. An array or a map adds a level of
brackets to that of its items, an object adds two to its properties, and
alternatives add two more. So a level of nesting in the samples makes at most
four levels in the schema, and three more are enough for the leaves.

The bound follows `Schema.survey`, which infers from many samples at once: what
is said of the samples with a tag is at most two levels above what is said of
the samples inside them. That a level of objects makes two levels at least is
seen from objects that hold nothing but each other.

## Main definitions

* `Sample.NestsWithin`: Containers nest no more than so many levels deep.

## Theorems

* `Schema.depth_json_le_iff`: How deep a wire form nests, by its members.
* `Schema.depth_survey_le`: Samples that nest `n` deep have a schema that nests
  at most `4 * n + 3` deep.
* `Schema.depth_object_gt`: An object nests at least two levels above each of its
  properties.
-/

namespace SampleSchema

/-! ### Samples -/

namespace Sample

/-- Containers nest no more than so many levels deep. -/
def NestsWithin : Nat → Sample → Prop
  | 0, v => v.tag.isContainer = false
  | n + 1, v => ∀ w ∈ v.inner, w.NestsWithin n

/-- What is inside a sample with a tag has a level less to nest. -/
theorem NestsWithin.inside {n : Nat} {vs : List Sample} (h : ∀ v ∈ vs, v.NestsWithin n) {tag : Tag}
    (ht : tag.isContainer) (hvs : tagged tag vs ≠ []) :
    ∃ m, n = m + 1 ∧ ∀ v ∈ vs, ∀ w ∈ v.inner, w.NestsWithin m := by
  cases n with
  | zero =>
      -- Without a level to nest there are only leaves.
      rcases List.exists_mem_of_ne_nil _ hvs with ⟨v, hv⟩
      rcases mem_tagged_iff.1 hv with ⟨hmem, rfl⟩
      have hleaf : v.tag.isContainer = false := h v hmem
      rw [hleaf] at ht
      cases ht
  | succ m => exact ⟨m, rfl, h⟩

end Sample

namespace Designation

/-- A sample nests as deeply as the value it is taken from, whichever objects
    are maps. -/
theorem nestsWithin_inner (d : Designation) {n : Nat} {j : Json} (h : j.depth ≤ n) :
    (d.inner j).NestsWithin n ∧ (d.inner j).asMap.NestsWithin n := by
  induction n generalizing j with
  | zero =>
      cases j with
      | array | object =>
          rw [Json.depth] at h
          omega
      | float x =>
          rw [Designation.inner]
          have hfloat : (Sample.float x).tag.isContainer = false := by
            rw [Sample.tag]
            split <;> rfl
          exact ⟨hfloat, hfloat⟩
      | _ =>
          rw [Designation.inner]
          exact ⟨rfl, rfl⟩
  | succ n ih =>
      have hinner : ∀ w ∈ (d.inner j).inner, w.NestsWithin n := by
        cases j with
        | array js =>
            rw [Designation.inner]
            refine List.forall_mem_map.2 fun j hj => ?_
            exact (ih (Json.depth_array_le_iff.1 h j hj)).1
        | object members =>
            rw [inner_object]
            intro w hw
            rcases Keyed.mem_values_iff.1 hw with ⟨k, hk⟩
            rw [Keyed.get?_map] at hk
            rcases Option.map_eq_some_iff.1 hk with ⟨j, hj, rfl⟩
            have hinside := ih (Json.depth_object_le_iff.1 h (k, j) (Keyed.mem_toList_iff.2 hj))
            unfold under
            split
            · exact hinside.2
            · exact hinside.1
        | _ =>
            rw [Designation.inner]
            exact List.forall_mem_nil _
      refine ⟨hinner, ?_⟩
      change ∀ w ∈ (d.inner j).asMap.inner, _
      rwa [Sample.inner_asMap]

theorem nestsWithin_convert (d : Designation) {n : Nat} {j : Json} (h : j.depth ≤ n) :
    (d.convert j).NestsWithin n := by
  unfold convert
  split
  · exact (d.nestsWithin_inner h).2
  · exact (d.nestsWithin_inner h).1

end Designation

/-! ### Schemas -/

namespace Schema

open Sample (pool valuesAt usedNames)

/-- A wire form nests one level more deeply than its members. -/
theorem depth_json_le_iff {s : Schema} {d : Nat} :
    s.json.depth ≤ d + 1 ↔ ∀ e ∈ s.members, e.2.depth ≤ d := by
  rw [json_eq, Json.depth_object_le_iff, toList_members]

theorem depth_strings_le (ss : List String) : (Json.array (ss.map .string)).depth ≤ 1 := by
  refine Json.depth_array_le_iff.2 (List.forall_mem_map.2 fun s _ => ?_)
  simp [Json.depth]

theorem depth_single (tag : Tag) : (TypeSpec.single tag).written.value.depth = 0 := by
  rw [value_type]
  simp [Json.depth]

theorem depth_type_le (t : TypeSpec) : t.written.value.depth ≤ 1 := by
  cases t with
  | single tag =>
      rw [depth_single]
      exact Nat.zero_le 1
  | several tags =>
      rw [value_type]
      exact depth_strings_le _

theorem depth_ofTag_le (tag : Tag) : (ofTag tag).json.depth ≤ 1 :=
  depth_json_le_iff.2 (List.forall_mem_singleton.2 (depth_single tag).le)

theorem depth_ofTags_le (tags : List Tag) : (ofTags tags).json.depth ≤ 2 :=
  depth_json_le_iff.2 (List.forall_mem_singleton.2 (depth_type_le (.ofTags tags)))

theorem depth_union_le {cs : List Schema} {d : Nat} (h : ∀ c ∈ cs, c.json.depth ≤ d) :
    (union cs).json.depth ≤ d + 2 := by
  refine depth_json_le_iff.2 (List.forall_mem_singleton.2 ?_)
  exact Json.depth_array_le_iff.2 (List.forall_mem_map.2 h)

theorem depth_container_le {tag : Tag} {items : Option Schema} {d : Nat}
    (h : ∀ c, items = some c → c.json.depth ≤ d) : (container tag items).json.depth ≤ d + 1 := by
  have htype : (TypeSpec.single tag).written.value.depth ≤ d := by
    rw [depth_single]
    exact Nat.zero_le d
  rw [depth_json_le_iff]
  cases items with
  | none => exact List.forall_mem_singleton.2 htype
  | some c => exact List.forall_mem_cons.2 ⟨h c rfl, List.forall_mem_singleton.2 htype⟩

theorem properties_object {p : Keyed Schema} {r : Option (List String)} {k : String} {c : Schema}
    (h : p.get? k = some c) : (object p r).properties = some p :=
  if_neg fun hempty => by
    rw [Keyed.isEmpty_iff.1 hempty k] at h
    cases h

theorem depth_object_le {p : Keyed Schema} {r : Option (List String)} {d : Nat}
    (h : ∀ k c, p.get? k = some c → c.json.depth ≤ d) : (object p r).json.depth ≤ d + 2 := by
  refine depth_json_le_iff.2 fun e he => ?_
  rcases mem_members_iff.1 he with ⟨_, h, _⟩ | ⟨_, h, _⟩ | ⟨q, hq, rfl⟩ | ⟨names, _, rfl⟩ |
    ⟨t, ht, rfl⟩
  · cases h
  · cases h
  · cases (Option.ite_none_left_eq_some.1 hq).2
    rw [Json.depth_object_le_iff, Keyed.toList_map]
    exact List.forall_mem_map.2 fun e he => h e.1 e.2 (Keyed.mem_toList_iff.1 he)
  · exact Nat.le_trans (depth_strings_le names) (Nat.le_add_left 1 d)
  · cases ht
    rw [depth_single]
    exact Nat.zero_le _

/-- An object nests at least two levels above each of its properties. -/
theorem depth_object_gt {p : Keyed Schema} {k : String} {c : Schema} (h : p.get? k = some c)
    (r : Option (List String)) : c.json.depth + 2 ≤ (object p r).json.depth := by
  have hmember : ("properties", Json.object (p.map fun _ c => c.json)) ∈
      (Keyed.ofList (object p r).members).toList := by
    rw [toList_members, mem_members_iff]
    exact Or.inr (Or.inr (Or.inl ⟨p, properties_object h, rfl⟩))
  have hproperty : (k, c.json) ∈ (p.map fun _ c => c.json).toList := by
    rw [Keyed.mem_toList_iff, Keyed.get?_map, h]
    rfl
  have houter := Json.depth_lt_of_mem_object hmember
  have hinner := Json.depth_lt_of_mem_object hproperty
  rw [← json_eq] at houter
  simp only at houter hinner
  omega

/-! ### Surveys -/

/-- Alternatives make at most two levels more, if bare tags do not count. -/
theorem depth_arrange_le {alternatives : List Schema} {d : Nat}
    (h : ∀ a ∈ alternatives, a.json.depth ≤ d)
    (hd : 2 ≤ d ∨ ∀ a ∈ alternatives, a.isSimple) : (arrange alternatives).json.depth ≤ d + 2 := by
  unfold arrange
  split
  · next s => exact Nat.le_trans (h s List.mem_cons_self) (Nat.le_add_right d 2)
  by_cases hbare : (alternatives.filter fun a => !a.isSimple).isEmpty
  · -- Bare tags alone are a list of tags, which is no deeper for being many.
    simp only [if_pos hbare]
    exact Nat.le_trans (depth_ofTags_le _) (Nat.le_add_left 2 d)
  · have hroom : 2 ≤ d := hd.resolve_right fun hsimple => hbare (by simpa using hsimple)
    simp only [if_neg hbare]
    refine depth_union_le fun c hc => ?_
    rcases List.mem_append.1 hc with hc | hc
    -- In front of the others stands the list of the bare tags, if there are any.
    · split at hc
      · cases hc
      · rw [List.mem_singleton.1 hc]
        exact Nat.le_trans (depth_ofTags_le _) hroom
    · exact h c (List.mem_filter.1 hc).1

/-- What is said of the samples with a tag is two levels above what is said of
    the samples inside, and leaves say no more than their tag. -/
theorem depth_surveyAt_le {o : MergeOptions} {n : Nat} {vs : List Sample}
    (h : ∀ v ∈ vs, v.NestsWithin n)
    (ih : ∀ m, n = m + 1 → ∀ ws, (∀ w ∈ ws, w.NestsWithin m) → (survey o ws).json.depth ≤ 4 * m + 3)
    {tag : Tag} {s : Schema} (hs : surveyAt o vs tag = some s) :
    s.json.depth ≤ 4 * n + 1 ∧ (n = 0 → s.isSimple) := by
  rcases surveyAt_cases hs with ⟨hne, ⟨ht, rfl⟩ | ⟨ht, rfl⟩ | ⟨rfl, rfl⟩⟩
  · have hleaf := depth_ofTag_le tag
    exact ⟨by omega, fun _ => rfl⟩
  · rcases Sample.NestsWithin.inside h (isContainer_of_list ht) hne with ⟨m, rfl, hinside⟩
    have hitems : ∀ c, surveyItems o (pool (Sample.tagged tag vs)) = some c →
        c.json.depth ≤ 4 * m + 3 := by
      intro c hc
      rcases Option.ite_none_left_eq_some.1 hc with ⟨-, hc⟩
      cases hc
      refine ih m rfl _ fun w hw => ?_
      rcases Sample.exists_inner_of_mem_pool w hw with ⟨v, hv, hw⟩
      exact hinside v hv w hw
    have hcontainer : (container tag _).json.depth ≤ 4 * m + 3 + 1 := depth_container_le hitems
    exact ⟨by omega, fun hzero => by cases hzero⟩
  · rcases Sample.NestsWithin.inside h rfl hne with ⟨m, rfl, hinside⟩
    have hproperties : ∀ k c, (Keyed.tabulate (usedNames (Sample.tagged .object vs)) fun name =>
        survey o (valuesAt name (Sample.tagged .object vs))).get? k = some c →
          c.json.depth ≤ 4 * m + 3 := by
      intro k c hc
      rw [Keyed.get?_tabulate] at hc
      rcases Option.ite_none_right_eq_some.1 hc with ⟨-, hc⟩
      cases hc
      refine ih m rfl _ fun w hw => ?_
      rcases Sample.exists_inner_of_mem_valuesAt w hw with ⟨v, hv, hw⟩
      exact hinside v hv w hw
    exact ⟨depth_object_le hproperties, fun hzero => by cases hzero⟩

/-- Samples that nest `n` deep have a schema that nests at most `4 * n + 3`
    deep. The induction is on the levels of nesting, and what is inside samples
    has a level less. -/
theorem depth_survey_le (o : MergeOptions) {n : Nat} {vs : List Sample}
    (h : ∀ v ∈ vs, v.NestsWithin n) : (survey o vs).json.depth ≤ 4 * n + 3 := by
  induction n using Nat.strong_induction_on generalizing vs with
  | h n ih =>
      have hat : ∀ a ∈ Tag.all.filterMap (surveyAt o vs),
          a.json.depth ≤ 4 * n + 1 ∧ (n = 0 → a.isSimple) := by
        intro a ha
        rcases List.mem_filterMap.1 ha with ⟨tag, -, ha⟩
        exact depth_surveyAt_le h (fun m hm ws hws => ih m (by omega) hws) ha
      rw [survey_eq]
      refine depth_arrange_le (fun a ha => (hat a ha).1) ?_
      by_cases hn : n = 0
      · exact Or.inr fun a ha => (hat a ha).2 hn
      · exact Or.inl (by omega)

end Schema

/-! ### Nested objects -/

/-- Objects around a string, each the only property of the one around it. -/
def nested : Nat → Json
  | 0 => .string "x"
  | n + 1 => .object (.ofList [("a", nested n)])

theorem isTextual_nested (n : Nat) : (nested n).IsTextual := by
  induction n with
  | zero => exact .string "x"
  | succ n ih => exact .object (List.forall_mem_singleton.2 ih)

theorem depth_nested_le (n : Nat) : (nested n).depth ≤ n := by
  induction n with
  | zero => simp [nested, Json.depth]
  | succ n ih => exact Json.depth_object_le_iff.2 (List.forall_mem_singleton.2 ih)

theorem ofJson_nested_succ (n : Nat) :
    Sample.ofJson (nested (n + 1)) = .object (.ofList [("a", Sample.ofJson (nested n))]) := by
  change Designation.inner {} (.object (.ofList [("a", nested n)])) = _
  rw [Designation.inner_object]
  rfl

theorem isFinite_nested (n : Nat) : (Sample.ofJson (nested n)).isFinite := by
  induction n with
  | zero => cbv
  | succ n ih =>
      rw [ofJson_nested_succ, Sample.isFinite_iff]
      exact ⟨rfl, List.forall_mem_singleton.2 ih⟩

/-- Each of the objects makes two levels, and what is said of the string makes
    one. -/
theorem Schema.depth_survey_nested (o : MergeOptions) (n : Nat) :
    2 * n + 1 ≤ (survey o [Sample.ofJson (nested n)]).json.depth := by
  induction n with
  | zero =>
      rw [json_eq, Json.depth]
      omega
  | succ n ih =>
      have hproperty : ((Keyed.ofList [("a", Sample.ofJson (nested n))]).map fun _ w =>
          surveyOne o w).get? "a" = some (survey o [Sample.ofJson (nested n)]) := rfl
      have hdepth := depth_object_gt hproperty (if o.noRequired then none else some ["a"])
      have hobject := surveyOne_object (o := o) (.ofList [("a", Sample.ofJson (nested n))])
      change _ ≤ (surveyOne o _).json.depth
      rw [ofJson_nested_succ, hobject]
      exact Nat.le_trans (by omega) hdepth

end SampleSchema
