import SampleSchema.Proofs.Fragments
import SampleSchema.Proofs.Samples

/-!
# Surveys

The schema of several samples, read off the samples themselves.

Inference works from the inside out and one sample at a time: each gets a
schema of its own, and the schemas are merged at every level. A survey looks
at all samples at once and from the outside in. It asks which tags the samples
call for, pools what is inside the samples of one tag, and surveys the pool.
No schema is ever merged with another, and the required names are simply the
names that every object has. That inference comes to the same is proved in
`Proofs.Inference`; here is only what can be said of surveys alone.

Since a survey only asks what occurs, it does not see in what order samples
come, or how often. `survey_congr` says so, by induction on what is inside:
two collections with the same samples have the same pools.

## Main definitions

* `Sample.tag`: The tag that a sample calls for.
* `Sample.tagged`: The samples with a tag.
* `Sample.pool`: What is inside some samples, taken together.
* `Sample.valuesAt`: What some objects hold under a name.
* `Sample.usedNames`, `Sample.sharedNames`: The names that occur in some, or in
  all, of some objects.
* `Schema.arrange`: Alternatives as one schema.
* `Schema.survey`: The schema of several samples.

## Theorems

* `Schema.survey_eq`, `Schema.surveyAt_cases`: A survey goes tag by tag.
* `Schema.survey_of_only`: Samples with the same tag make no union.
* `Schema.survey_congr`: Order and repetition do not count.
-/

namespace SampleSchema

namespace Sample

/-- The tag that a sample calls for. A number without fractional part is an
    integer, however it is stored. -/
def tag : Sample → Tag
  | null => .null
  | bool _ => .boolean
  | int _ => .integer
  | float x => if (Binary.ofFloat x).isWhole then .integer else .number
  | string _ => .string
  | list _ => .array
  | map _ => .map
  | object _ => .object

/-- The samples with a tag. -/
def tagged (tag : Tag) (vs : List Sample) : List Sample := vs.filter fun v => v.tag == tag

/-- What is inside some samples, taken together. -/
def pool (vs : List Sample) : List Sample := vs.flatMap inner

/-- The entries of an object. -/
def entries : Sample → Keyed Sample
  | object entries => entries
  | _ => .empty

/-- What some objects hold under a name. -/
def valuesAt (name : String) (vs : List Sample) : List Sample :=
  vs.filterMap fun v => v.entries.get? name

/-- The names that occur in some of the objects, ascending. -/
def usedNames (vs : List Sample) : List String :=
  (Keyed.tabulate (vs.flatMap fun v => v.entries.keys) fun _ => ()).keys

/-- The names that occur in all of the objects, ascending. -/
def sharedNames (vs : List Sample) : List String :=
  (usedNames vs).filter fun name => vs.all fun v => (v.entries.get? name).isSome

theorem mem_tagged_iff {tag : Tag} {vs : List Sample} {v : Sample} :
    v ∈ tagged tag vs ↔ v ∈ vs ∧ v.tag = tag := by
  rw [tagged, List.mem_filter, beq_iff_eq]

theorem mem_pool_iff {vs : List Sample} {w : Sample} :
    w ∈ pool vs ↔ ∃ v ∈ vs, w ∈ v.inner := List.mem_flatMap

theorem mem_valuesAt_iff {name : String} {vs : List Sample} {w : Sample} :
    w ∈ valuesAt name vs ↔ ∃ v ∈ vs, v.entries.get? name = some w := List.mem_filterMap

theorem valuesAt_singleton (name : String) (v : Sample) :
    valuesAt name [v] = (v.entries.get? name).toList := by
  rw [valuesAt, List.filterMap_cons]
  cases v.entries.get? name <;> rfl

theorem mem_usedNames_iff {vs : List Sample} {name : String} :
    name ∈ usedNames vs ↔ valuesAt name vs ≠ [] := by
  have hkeys : name ∈ usedNames vs ↔ name ∈ vs.flatMap fun v => v.entries.keys := by
    rw [usedNames, Keyed.mem_keys_iff]
    simp only [Keyed.get?_tabulate, Option.ite_none_right_eq_some, and_true, exists_const]
  rw [hkeys, List.mem_flatMap]
  constructor
  · rintro ⟨v, hv, hname⟩
    rcases Keyed.mem_keys_iff.1 hname with ⟨w, hw⟩
    exact List.ne_nil_of_mem (mem_valuesAt_iff.2 ⟨v, hv, hw⟩)
  · intro h
    rcases List.exists_mem_of_ne_nil _ h with ⟨w, hw⟩
    rcases mem_valuesAt_iff.1 hw with ⟨v, hv, hw⟩
    exact ⟨v, hv, Keyed.mem_keys_iff.2 ⟨w, hw⟩⟩

theorem pairwise_sharedNames (vs : List Sample) : (sharedNames vs).Pairwise (· < ·) :=
  (Keyed.pairwise_keys _).filter _

theorem mem_sharedNames_iff {vs : List Sample} (h : vs ≠ []) {name : String} :
    name ∈ sharedNames vs ↔ ∀ v ∈ vs, name ∈ v.entries.keys := by
  simp only [sharedNames, List.mem_filter, List.all_eq_true, Option.isSome_iff_exists,
    Keyed.mem_keys_iff, and_iff_right_iff_imp]
  intro hall
  rcases List.exists_mem_of_ne_nil vs h with ⟨v, hv⟩
  rcases hall v hv with ⟨w, hw⟩
  exact mem_usedNames_iff.2 (List.ne_nil_of_mem (mem_valuesAt_iff.2 ⟨v, hv, hw⟩))

/-! ### What is taken from inside -/

theorem mem_inner_of_get? {v w : Sample} {name : String} (h : v.entries.get? name = some w) :
    w ∈ v.inner := by
  cases v with
  | object entries => exact Keyed.mem_values_iff.2 ⟨name, h⟩
  | _ => cases h

theorem exists_inner_of_mem_pool {tag : Tag} {vs : List Sample} :
    ∀ w ∈ pool (tagged tag vs), ∃ v ∈ vs, w ∈ v.inner := by
  intro w hw
  rcases mem_pool_iff.1 hw with ⟨v, hv, hw⟩
  exact ⟨v, (mem_tagged_iff.1 hv).1, hw⟩

theorem exists_inner_of_mem_valuesAt {tag : Tag} {vs : List Sample} {name : String} :
    ∀ w ∈ valuesAt name (tagged tag vs), ∃ v ∈ vs, w ∈ v.inner := by
  intro w hw
  rcases mem_valuesAt_iff.1 hw with ⟨v, hv, hw⟩
  exact ⟨v, (mem_tagged_iff.1 hv).1, mem_inner_of_get? hw⟩

theorem ne_nil_of_tagged {tag : Tag} {vs : List Sample} (h : tagged tag vs ≠ []) : vs ≠ [] := by
  rintro rfl
  exact h rfl

/-! ### Order and repetition -/

/-- Two lists with the same members. -/
def SameMembers {α : Type} (l m : List α) : Prop := ∀ a, a ∈ l ↔ a ∈ m

theorem SameMembers.eq_nil_iff {α : Type} {l m : List α} (h : SameMembers l m) :
    l = [] ↔ m = [] := by
  simp only [List.eq_nil_iff_forall_not_mem, h _]

variable {vs ws : List Sample}

theorem SameMembers.tagged (h : SameMembers vs ws) (tag : Tag) :
    SameMembers (tagged tag vs) (tagged tag ws) := by
  intro v
  rw [mem_tagged_iff, mem_tagged_iff, h v]

theorem SameMembers.pool (h : SameMembers vs ws) : SameMembers (pool vs) (pool ws) := by
  intro w
  simp only [mem_pool_iff, h _]

theorem SameMembers.valuesAt (h : SameMembers vs ws) (name : String) :
    SameMembers (valuesAt name vs) (valuesAt name ws) := by
  intro w
  simp only [mem_valuesAt_iff, h _]

theorem SameMembers.usedNames_eq (h : SameMembers vs ws) : usedNames vs = usedNames ws := by
  refine congrArg Keyed.keys (Keyed.ext_get? fun name => ?_)
  simp only [Keyed.get?_tabulate, List.mem_flatMap, h _]

theorem SameMembers.sharedNames_eq (h : SameMembers vs ws) : sharedNames vs = sharedNames ws := by
  rw [sharedNames, sharedNames, h.usedNames_eq]
  refine List.filter_congr fun name _ => ?_
  rw [Bool.eq_iff_iff, List.all_eq_true, List.all_eq_true]
  simp only [h _]

end Sample

namespace Schema

open Sample (pool valuesAt usedNames sharedNames SameMembers)

/-- Alternatives as one schema: a single one is the schema itself, bare tags
    alone make a list, and otherwise the entry for the bare tags comes first. -/
def arrange : List Schema → Schema
  | [s] => s
  | alternatives =>
      let structured := alternatives.filter fun a => !a.isSimple
      if structured.isEmpty then ofTags (bareTags alternatives)
      else
        union ((if (bareTags alternatives).isEmpty then [] else [ofTags (bareTags alternatives)])
          ++ structured)

/-- The schema of several samples, read off the samples. -/
def survey (o : MergeOptions) (vs : List Sample) : Schema :=
  arrange <| Tag.all.filterMap fun tag =>
    if _h : Sample.tagged tag vs = [] then none
    else
      match tag with
      | .array | .map =>
          let inside := pool (Sample.tagged tag vs)
          some (container tag (if inside.isEmpty then none else some (survey o inside)))
      | .object =>
          let objects := Sample.tagged .object vs
          some (object
            (Keyed.tabulate (usedNames objects) fun name => survey o (valuesAt name objects))
            (if o.noRequired then none else some (sharedNames objects)))
      | .integer => if (Sample.tagged .number vs).isEmpty then some (ofTag .integer) else none
      | leaf => some (ofTag leaf)
termination_by Sample.maxSize vs
decreasing_by
  · exact Sample.maxSize_lt (Sample.ne_nil_of_tagged _h) Sample.exists_inner_of_mem_pool
  · exact Sample.maxSize_lt (Sample.ne_nil_of_tagged _h) Sample.exists_inner_of_mem_pool
  · exact Sample.maxSize_lt (Sample.ne_nil_of_tagged _h) Sample.exists_inner_of_mem_valuesAt

/-! ### Tag by tag -/

/-- What is said of the items, if there are any. -/
def surveyItems (o : MergeOptions) (ws : List Sample) : Option Schema :=
  if ws.isEmpty then none else some (survey o ws)

theorem surveyItems_of_ne_nil {o : MergeOptions} {ws : List Sample} (h : ws ≠ []) :
    surveyItems o ws = some (survey o ws) := if_neg (mt List.isEmpty_iff.1 h)

/-- What is said of some objects. -/
def surveyObjects (o : MergeOptions) (vs : List Sample) : Schema :=
  object (Keyed.tabulate (usedNames vs) fun name => survey o (valuesAt name vs))
    (if o.noRequired then none else some (sharedNames vs))

/-- What is said of the samples with a tag. -/
def surveyAt (o : MergeOptions) (vs : List Sample) (tag : Tag) : Option Schema :=
  if Sample.tagged tag vs = [] then none
  else
    match tag with
    | .array | .map => some (container tag (surveyItems o (pool (Sample.tagged tag vs))))
    | .object => some (surveyObjects o (Sample.tagged .object vs))
    | .integer => if (Sample.tagged .number vs).isEmpty then some (ofTag .integer) else none
    | leaf => some (ofTag leaf)

/-- A survey goes tag by tag. -/
theorem survey_eq (o : MergeOptions) (vs : List Sample) :
    survey o vs = arrange (Tag.all.filterMap (surveyAt o vs)) := by
  rw [survey]
  refine congrArg (fun f => arrange (Tag.all.filterMap f)) (funext fun tag => ?_)
  unfold surveyAt surveyItems surveyObjects
  by_cases h : Sample.tagged tag vs = []
  · rw [dif_pos h, if_pos h]
  · rw [dif_neg h, if_neg h]
    cases tag <;> rfl

variable {o : MergeOptions} {vs : List Sample} {tag : Tag}

theorem surveyAt_eq_none (h : Sample.tagged tag vs = []) : surveyAt o vs tag = none := if_pos h

theorem surveyAt_leaf (ht : tag.isContainer = false) (h : Sample.tagged tag vs ≠ []) :
    surveyAt o vs tag =
      if tag = .integer ∧ Sample.tagged .number vs ≠ [] then none else some (ofTag tag) := by
  unfold surveyAt
  rw [if_neg h]
  cases tag with
  | array | map | object => cases ht
  | integer =>
      change (if (Sample.tagged .number vs).isEmpty then some (ofTag .integer) else none) = _
      by_cases hnumber : Sample.tagged .number vs = []
      · rw [if_pos (List.isEmpty_iff.2 hnumber), if_neg fun hn => hn.2 hnumber]
      · rw [if_neg (mt List.isEmpty_iff.1 hnumber), if_pos ⟨rfl, hnumber⟩]
  | _ => rfl

theorem surveyAt_container (ht : tag = .array ∨ tag = .map) (h : Sample.tagged tag vs ≠ []) :
    surveyAt o vs tag = some (container tag (surveyItems o (pool (Sample.tagged tag vs)))) := by
  unfold surveyAt
  rw [if_neg h]
  rcases ht with rfl | rfl <;> rfl

theorem surveyAt_object (h : Sample.tagged .object vs ≠ []) :
    surveyAt o vs .object = some (surveyObjects o (Sample.tagged .object vs)) := by
  unfold surveyAt
  rw [if_neg h]

/-- What can be said of the samples with a tag, of which there must be some. -/
theorem surveyAt_cases {s : Schema} (h : surveyAt o vs tag = some s) :
    Sample.tagged tag vs ≠ [] ∧
      ((tag.isContainer = false ∧ s = ofTag tag) ∨
        ((tag = .array ∨ tag = .map) ∧
          s = container tag (surveyItems o (pool (Sample.tagged tag vs)))) ∨
        (tag = .object ∧ s = surveyObjects o (Sample.tagged .object vs))) := by
  have hne : Sample.tagged tag vs ≠ [] := by
    intro hnil
    rw [surveyAt_eq_none hnil] at h
    cases h
  refine ⟨hne, ?_⟩
  rcases tag_cases tag with ht | ht | rfl
  · rw [surveyAt_leaf ht hne, Option.ite_none_left_eq_some] at h
    exact Or.inl ⟨ht, (Option.some.inj h.2).symm⟩
  · rw [surveyAt_container ht hne] at h
    exact Or.inr (Or.inl ⟨ht, (Option.some.inj h).symm⟩)
  · rw [surveyAt_object hne] at h
    exact Or.inr (Or.inr ⟨rfl, (Option.some.inj h).symm⟩)

/-- What is said of the samples with a tag has that tag. -/
theorem isOf_surveyAt {s : Schema} (h : surveyAt o vs tag = some s) : s.IsOf tag := by
  rcases surveyAt_cases h with ⟨-, ⟨-, rfl⟩ | ⟨-, rfl⟩ | ⟨rfl, rfl⟩⟩
  · exact isOf_ofTag tag
  · exact isOf_container tag _
  · exact isOf_object _ _

/-- Samples with the same tag make no union. -/
theorem survey_of_only {s : Schema} (hvs : ∀ v ∈ vs, v.tag = tag)
    (h : surveyAt o vs tag = some s) : survey o vs = s := by
  -- No other tag has samples, so one alternative is found and stands alone.
  have hother : ∀ other, other ≠ tag → surveyAt o vs other = none := by
    intro other hne
    refine surveyAt_eq_none (List.filter_eq_nil_iff.2 fun v hv htag => hne ?_)
    rw [← beq_iff_eq.1 htag, hvs v hv]
  rw [survey_eq, filterMap_eq_toList Tag.nodup_all (Tag.mem_all tag) hother, h]
  rfl

/-! ### Order and repetition -/

/-- A survey does not see in what order samples come, or how often. The
    induction is on what is inside, since the pools are compared in turn. -/
theorem survey_congr (o : MergeOptions) (vs : List Sample) :
    ∀ ws, SameMembers vs ws → survey o vs = survey o ws := by
  induction vs using Sample.inner_induction with
  | step vs ih =>
      intro ws h
      rw [survey_eq, survey_eq]
      refine congrArg (fun f => arrange (Tag.all.filterMap f)) (funext fun tag => ?_)
      -- Both sides ask the same of the samples with this tag, and there are the same ones.
      have htagged := h.tagged tag
      by_cases hvs : Sample.tagged tag vs = []
      · rw [surveyAt_eq_none hvs, surveyAt_eq_none (htagged.eq_nil_iff.1 hvs)]
      have hws := mt htagged.eq_nil_iff.2 hvs
      rcases tag_cases tag with ht | ht | rfl
      · simp only [surveyAt_leaf ht hvs, surveyAt_leaf ht hws, ne_eq,
          (h.tagged .number).eq_nil_iff]
      · have hitems : surveyItems o (pool (Sample.tagged tag vs)) =
            surveyItems o (pool (Sample.tagged tag ws)) := by
          by_cases hnil : pool (Sample.tagged tag vs) = []
          · rw [hnil, htagged.pool.eq_nil_iff.1 hnil]
          · rw [surveyItems_of_ne_nil hnil,
              surveyItems_of_ne_nil (mt htagged.pool.eq_nil_iff.2 hnil),
              ih _ hnil Sample.exists_inner_of_mem_pool _ htagged.pool]
        rw [surveyAt_container ht hvs, surveyAt_container ht hws, hitems]
      · have hproperties : Keyed.tabulate (usedNames (Sample.tagged .object vs))
              (fun name => survey o (valuesAt name (Sample.tagged .object vs))) =
            Keyed.tabulate (usedNames (Sample.tagged .object ws))
              fun name => survey o (valuesAt name (Sample.tagged .object ws)) := by
          apply Keyed.ext_get?
          intro name
          rw [Keyed.get?_tabulate, Keyed.get?_tabulate, ← htagged.usedNames_eq]
          -- A name in use has values, so the induction applies to them.
          by_cases hname : name ∈ usedNames (Sample.tagged .object vs)
          · rw [ih _ (Sample.mem_usedNames_iff.1 hname) Sample.exists_inner_of_mem_valuesAt _
              (htagged.valuesAt name)]
          · rw [if_neg hname, if_neg hname]
        rw [surveyAt_object hvs, surveyAt_object hws, surveyObjects, surveyObjects, hproperties,
          htagged.sharedNames_eq]

end Schema

end SampleSchema
