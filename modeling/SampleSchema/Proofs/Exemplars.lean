import SampleSchema.Proofs.Acceptance
import SampleSchema.Proofs.Comparison
import SampleSchema.Proofs.Paths
import SampleSchema.Proofs.Rejoining

/-!
# Samples for Every Schema

A schema that comes from samples accepts one.

For canonical schemas this can only fail for want of samples with some tag:
nothing is ever of a fixed-width type. Schemas that come from samples have no
such tags. Merging invents none at any depth, and what a single sample infers
to has the tags of the sample and of those inside it. A schema is `IsSampled`
when it is canonical and has only tags of samples, wherever a path may lead.

The samples are then built from the inside out. An empty list fits every
array, an empty map every map. An object needs more, since it must not lack a
required name; but required names are names of properties, and each property
has a sample already. Which names are given to the object, and which sample
stands under a name, is left open as far as it can be. That freedom is what
tells schemas apart later.

## Main definitions

* `Schema.IsSampled`: A canonical schema with tags of samples only.

## Theorems

* `Schema.Reachable.isSampled`: Schemas from samples are of this kind.
* `Schema.IsSampled.inside`: So is what is inside them.
* `Schema.fitsInside_tabulate`: Objects that fit.
* `Schema.IsSampled.exists_accepts_of_isOf`: Each fragment accepts a sample with
  its tag.
* `Schema.IsSampled.exists_accepts`: A schema from samples accepts one.
-/

namespace SampleSchema

/-! ### Tags of samples -/

namespace Sample

theorem tag_mem_tags (v : Sample) : v.tag ∈ v.tags := by
  cases v with
  | float x =>
      rw [tag, tags]
      split
      · exact List.mem_cons_self
      · exact List.mem_singleton_self _
  | int _ => exact List.mem_cons_self
  | _ => exact List.mem_singleton_self _

/-- Only an integer can be described under another tag than its own. -/
theorem eq_tag_of_mem_tags {v : Sample} {tag : Tag} (h : tag ∈ v.tags) :
    tag = v.tag ∨ v.tag = .integer ∧ tag = .number := by
  cases v with
  | float x =>
      rw [tags] at h
      rw [Sample.tag]
      by_cases hx : (Binary.ofFloat x).isWhole
      · rw [if_pos hx] at h ⊢
        rcases List.mem_cons.1 h with rfl | h
        · exact Or.inl rfl
        · exact Or.inr ⟨rfl, List.mem_singleton.1 h⟩
      · rw [if_neg hx] at h ⊢
        exact Or.inl (List.mem_singleton.1 h)
  | int n =>
      rcases List.mem_cons.1 h with rfl | h
      · exact Or.inl rfl
      · exact Or.inr ⟨rfl, List.mem_singleton.1 h⟩
  | _ => exact Or.inl (List.mem_singleton.1 h)

/-- An array, map or object is described under one tag only. -/
theorem tags_of_mem {v : Sample} {tag : Tag} (h : tag ∈ v.tags) (ht : tag.isContainer) :
    v.tags = [tag] := by
  cases v with
  | float x =>
      -- A number is an integer at best, and neither is a container.
      rcases eq_tag_of_mem_tags h with rfl | ⟨_, rfl⟩
      · rw [Sample.tag] at ht
        split at ht <;> cases ht
      · cases ht
  | int _ =>
      rcases eq_tag_of_mem_tags h with rfl | ⟨_, rfl⟩ <;> cases ht
  | null | bool _ | string _ | list _ | map _ | object _ =>
      rw [List.mem_singleton.1 h]
      rfl

end Sample

namespace Schema

variable {o : MergeOptions}

/-! ### Schemas from samples -/

/-- The schema is canonical, and every tag in it is that of some sample. -/
structure IsSampled (s : Schema) : Prop where
  /-- It is canonical at every depth. -/
  canonical : s.IsCanonical
  /-- At every path there are samples with the tags that are found there. -/
  tags : ∀ path, ∀ tag ∈ s.tagsAt path, ∃ v : Sample, v.tag = tag

/-- What is inside the survey of a sample is a survey of samples from inside. -/
theorem exists_survey_of_mem_children {v : Sample} {c : Schema}
    (h : c ∈ (surveyOne o v).children) :
    ∃ ws, ws ≠ [] ∧ (∀ w ∈ ws, w ∈ v.inner) ∧ c = survey o ws := by
  rcases mem_children_iff.1 h with hitems | ⟨name, hproperty⟩ | ⟨alternatives, ha, _⟩
  · by_cases hcontainer : v.tag = .array ∨ v.tag = .map
    · -- The items are a survey of all that is inside, if there is anything.
      rw [surveyOne_container hcontainer, items_container] at hitems
      by_cases hinner : v.inner = []
      · rw [hinner] at hitems
        cases hitems
      · rw [surveyItems_of_ne_nil hinner] at hitems
        exact ⟨v.inner, hinner, fun _ hw => hw, (Option.some.inj hitems).symm⟩
    · rw [surveyOne_eq] at hitems
      cases v with
      | list _ => exact absurd (Or.inl rfl) hcontainer
      | map _ => exact absurd (Or.inr rfl) hcontainer
      | _ => cases hitems
  · -- A property is a survey of the one sample under its name.
    rw [property?_surveyOne, Option.map_eq_some_iff] at hproperty
    rcases hproperty with ⟨w, hw, rfl⟩
    refine ⟨[w], List.cons_ne_nil w [], fun u hu => ?_, rfl⟩
    rw [List.mem_singleton.1 hu]
    exact Sample.mem_inner_of_get? hw
  · rw [(isOf_surveyOne v).1] at ha
    cases ha

/-- A survey has tags of samples only, by induction on the path: it is merged
    from surveys of single samples, and a step from one of these leads to a
    survey again. -/
theorem exists_tag_of_survey (path : List Step) {vs : List Sample} (hne : vs ≠ [])
    (hfinite : ∀ v ∈ vs, v.isFinite) {tag : Tag} (h : tag ∈ (survey o vs).tagsAt path) :
    ∃ v : Sample, v.tag = tag := by
  induction path generalizing vs with
  | nil =>
      rcases exists_tagsAt_of_merge (agrees o vs hne hfinite).merge h with ⟨s, hs, h⟩
      rcases List.mem_map.1 hs with ⟨v, _, rfl⟩
      rcases mem_tagsAt_iff.1 h with ⟨f, hf, htag⟩
      rw [fragmentsAt, descend, (isOf_surveyOne v).isAtomic.fragments_eq,
        List.mem_singleton] at hf
      rw [hf, (isOf_surveyOne v).2] at htag
      exact ⟨v, Option.some.inj htag⟩
  | cons step path ih =>
      rcases exists_tagsAt_of_merge (agrees o vs hne hfinite).merge h with ⟨s, hs, h⟩
      rcases List.mem_map.1 hs with ⟨v, hv, rfl⟩
      rcases mem_tagsAt_iff.1 h with ⟨g, hg, htag⟩
      -- The step leads inside the survey of one sample, and the rest of the path starts there.
      rcases exists_child_of_step hg with ⟨f, hf, c, hc, hg⟩
      rw [(isOf_surveyOne v).isAtomic.fragments_eq, List.mem_singleton] at hf
      rw [hf] at hc
      rcases exists_survey_of_mem_children hc with ⟨ws, hws, hinner, rfl⟩
      refine ih hws (fun w hw => ?_) (mem_tagsAt_iff.2 ⟨g, hg, htag⟩)
      exact (Sample.isFinite_iff.1 (hfinite v hv)).2 w (hinner w hw)

theorem eq_survey_of_infer {v : Sample} {s : Schema} (h : infer o v = .ok s) :
    [v] ≠ [] ∧ (∀ w ∈ [v], w.isFinite) ∧ s = survey o [v] := by
  have hne : [v] ≠ [] := List.cons_ne_nil v []
  have hfinite : ∀ w ∈ [v], w.isFinite := by
    intro w hw
    rw [List.mem_singleton.1 hw]
    exact isFinite_of_infer_ok h
  have hagrees := (agrees o [v] hne hfinite).infer v List.mem_cons_self
  exact ⟨hne, hfinite, Except.ok.inj (h.symm.trans hagrees)⟩

theorem exists_tag_of_infer {v : Sample} {s : Schema} (h : infer o v = .ok s) {path : List Step}
    {tag : Tag} (htag : tag ∈ s.tagsAt path) : ∃ v : Sample, v.tag = tag := by
  rcases eq_survey_of_infer h with ⟨hne, hfinite, rfl⟩
  exact exists_tag_of_survey path hne hfinite htag

theorem Reachable.isCanonical {s : Schema} (h : Reachable s) : s.IsCanonical :=
  h.everywhere keptByInference_canonicalNode

/-! ### Inside -/

theorem IsCanonical.inside {s f c : Schema} (h : s.IsCanonical) (hf : f ∈ s.fragments)
    (hc : c ∈ f.children) : c.IsCanonical := Everywhere.inside (h.of_mem_fragments hf) hc

/-- What is inside a fragment of a canonical schema is where some step leads. -/
theorem IsCanonical.exists_step {s f c : Schema} (h : s.IsCanonical) (hf : f ∈ s.fragments)
    (hc : c ∈ f.children) :
    ∃ step, ∀ path tag, tag ∈ c.tagsAt path → tag ∈ s.tagsAt (step :: path) := by
  have hnode := (h.of_mem_fragments hf).here
  rcases mem_children_iff.1 hc with hitems | ⟨name, hproperty⟩ | ⟨alternatives, ha, _⟩
  · rcases hnode.items (Option.isSome_iff_exists.2 ⟨c, hitems⟩) with htag | htag
    · exact ⟨.elements, fun path tag =>
        tagsAt_of_part rfl (mem_tagged_iff.2 ⟨hf, htag⟩) hitems⟩
    · exact ⟨.values, fun path tag =>
        tagsAt_of_part rfl (mem_tagged_iff.2 ⟨hf, htag⟩) hitems⟩
  · rcases Option.bind_eq_some_iff.1 hproperty with ⟨properties, hproperties, _⟩
    have htag := (hnode.properties properties hproperties).1
    exact ⟨.property name, fun path tag =>
      tagsAt_of_part rfl (mem_tagged_iff.2 ⟨hf, htag⟩) hproperty⟩
  · rw [(isAtomic_of_mem_fragments s f hf).1] at ha
    cases ha

/-- A canonical schema with a tag is its own fragment. -/
theorem CanonicalNode.mem_fragments {s : Schema} {tag : Tag} (h : CanonicalNode s)
    (htag : s.tag? = some tag) : s ∈ s.fragments := by
  have hanyOf : s.anyOf = none := by
    have hone := h.type_or_anyOf
    rw [tag?_eq_some_iff.1 htag] at hone
    exact Option.isNone_iff_eq_none.1 hone.symm
  have hof : s.IsOf tag := ⟨hanyOf, htag⟩
  rw [hof.isAtomic.fragments_eq]
  exact List.mem_singleton_self s

namespace IsSampled

variable {s f c : Schema}

theorem of_mem_fragments (h : s.IsSampled) (hf : f ∈ s.fragments) : f.IsSampled :=
  ⟨h.canonical.of_mem_fragments hf,
    fun path tag htag => h.tags path tag (tagsAt_of_mem_fragments hf htag)⟩

/-- What is inside a sampled schema is sampled. -/
theorem inside (h : s.IsSampled) (hf : f ∈ s.fragments) (hc : c ∈ f.children) : c.IsSampled := by
  rcases h.canonical.exists_step hf hc with ⟨step, hstep⟩
  exact ⟨h.canonical.inside hf hc, fun path tag htag => h.tags _ tag (hstep path tag htag)⟩

end IsSampled

/-- Schemas that come from samples have tags of samples only, by induction
    along the way to the schema. -/
theorem Reachable.isSampled {s : Schema} (h : Reachable s) : s.IsSampled := by
  refine ⟨h.isCanonical, ?_⟩
  induction h with
  | infer o h => exact fun path tag htag => exists_tag_of_infer h htag
  | inferAll o h =>
      intro path tag htag
      rcases inferAll_eq_ok_iff.1 h with ⟨hne, hfinite, rfl⟩
      exact exists_tag_of_survey path hne hfinite htag
  | extend o _ h ih =>
      intro path tag htag
      rcases bind_eq_ok_iff.1 h with ⟨u, hu, h⟩
      -- What is widened is merged with the schema of the sample, and that has tags of samples.
      rcases exists_tagsAt_of_merge (merge_of_mergeInferred h) htag with ⟨x, hx, htag⟩
      rcases List.mem_cons.1 hx with rfl | hx
      · exact ih path tag htag
      · rw [List.mem_singleton.1 hx] at htag
        exact exists_tag_of_infer hu htag
  | merge o _ h ih =>
      intro path tag htag
      rcases exists_tagsAt_of_merge h htag with ⟨x, hx, htag⟩
      exact ih x hx path tag htag
  | @property s c name hs hproperty ih =>
      have hsampled : s.IsSampled := ⟨hs.isCanonical, ih⟩
      rcases Option.bind_eq_some_iff.1 hproperty with ⟨properties, hproperties, _⟩
      have htag := (hs.isCanonical.here.properties properties hproperties).1
      exact (hsampled.inside (hs.isCanonical.here.mem_fragments htag)
        (mem_children_of_property? hproperty)).tags
  | @items s c hs hitems ih =>
      have hsampled : s.IsSampled := ⟨hs.isCanonical, ih⟩
      have hmem : s ∈ s.fragments := by
        rcases hs.isCanonical.here.items (Option.isSome_iff_exists.2 ⟨c, hitems⟩) with htag | htag
        all_goals exact hs.isCanonical.here.mem_fragments htag
      exact (hsampled.inside hmem (mem_children_of_items hitems)).tags

/-! ### Samples that fit -/

/-- An object fits when it holds samples of some properties, those that are
    required among them. -/
theorem fitsInside_tabulate {f : Schema} {names : List String} {w : String → Sample}
    (hw : ∀ name ∈ names, ∃ c, f.property? name = some c ∧ c.accepts (w name))
    (hrequired : ∀ name ∈ f.requiredNames, name ∈ names) :
    f.fitsInside (.object (Keyed.tabulate names w)) := by
  constructor
  · intro k e hk
    rw [Keyed.get?_tabulate, Option.ite_none_right_eq_some] at hk
    rw [← Option.some.inj hk.2]
    exact hw k hk.1
  · intro name hname
    rw [Keyed.get?_tabulate, if_pos (hrequired name hname)]
    exact ⟨_, rfl⟩

/-- Where everything inside accepts a sample, there is one for each property. -/
theorem exists_samples {f : Schema} (h : ∀ c ∈ f.children, ∃ v, c.accepts v) :
    ∃ w : String → Sample, ∀ name c, f.property? name = some c → c.accepts (w name) := by
  have hname : ∀ name, ∃ v, ∀ c, f.property? name = some c → c.accepts v := by
    intro name
    cases hc : f.property? name with
    | none => exact ⟨.null, fun c hc => by cases hc⟩
    | some c =>
        rcases h c (mem_children_of_property? hc) with ⟨v, hv⟩
        refine ⟨v, fun d hd => ?_⟩
        rw [← Option.some.inj hd]
        exact hv
  choose w hw using hname
  exact ⟨w, hw⟩

theorem CanonicalNode.bareList {s : Schema} (h : CanonicalNode s) : BareList s := by
  intro tags ht
  refine h.parts_eq_none ?_
  rw [tag?, ht]

theorem IsCanonical.hasBareLists {s : Schema} (h : s.IsCanonical) : s.hasBareLists :=
  (hasBareLists_iff_everywhere s).2 (Everywhere.imp h fun _ hnode => hnode.bareList)

/-- A canonical schema accepts what one of its fragments accepts. -/
theorem IsCanonical.accepts_iff {s : Schema} (h : s.IsCanonical) (v : Sample) :
    s.accepts v ↔ ∃ f ∈ s.fragments, f.accepts v :=
  accepts_iff_fragments s h.hasBareLists v

/-- There are fragments, and all of them have a tag. -/
theorem IsCanonical.fragments_typed {s : Schema} (h : s.IsCanonical) :
    s.fragments ≠ [] ∧ ∀ f ∈ s.fragments, ∃ tag, f.IsOf tag := by
  rcases fragments_of_offersTag s (Everywhere.imp h fun _ hnode => hnode.offersTag) with
    ⟨hne, htags⟩
  refine ⟨hne, fun f hf => ?_⟩
  rcases htags f hf with ⟨tag, htag⟩
  exact ⟨tag, isOf_of_mem_fragments hf htag⟩

namespace IsSampled

variable {s f : Schema} {tag : Tag}

/-- Each fragment accepts a sample with its tag, by induction on what is
    inside. -/
theorem exists_accepts_of_mem (s : Schema) :
    s.IsSampled → ∀ f ∈ s.fragments, ∀ tag, f.IsOf tag → ∃ v, v.tag = tag ∧ f.accepts v := by
  induction s using fragment_induction with
  | step s ih =>
      intro hs f hf tag hof
      have hinside : ∀ c ∈ f.children, ∃ v, c.accepts v := by
        intro c hc
        have hsampled := hs.inside hf hc
        rcases hsampled.canonical.fragments_typed with ⟨hne, htyped⟩
        rcases List.exists_mem_of_ne_nil _ hne with ⟨g, hg⟩
        rcases htyped g hg with ⟨tag', hof'⟩
        rcases ih f hf c hc hsampled g hg tag' hof' with ⟨v, _, hv⟩
        exact ⟨v, (hsampled.canonical.accepts_iff v).2 ⟨g, hg, hv⟩⟩
      rcases tag_cases tag with ht | (rfl | rfl) | rfl
      · -- Any sample with the tag of a leaf will do.
        rcases hs.tags [] tag (mem_tagsAt_iff.2 ⟨f, hf, hof.2⟩) with ⟨v, rfl⟩
        exact ⟨v, rfl,
          (hof.accepts_iff v).2 ⟨v.tag_mem_tags, fitsInside_of_leaf v.tag_mem_tags ht f⟩⟩
      · refine ⟨.list [], rfl, (hof.accepts_iff _).2 ⟨List.mem_cons_self, fun e he => ?_⟩⟩
        cases he
      · refine ⟨.map .empty, rfl, (hof.accepts_iff _).2 ⟨List.mem_cons_self, fun e he => ?_⟩⟩
        cases he
      · -- The object has a sample under each of its names.
        rcases exists_samples hinside with ⟨w, hw⟩
        refine ⟨.object (Keyed.tabulate f.propertyNames w), rfl, (hof.accepts_iff _).2
          ⟨List.mem_cons_self, fitsInside_tabulate (fun name hname => ?_) ?_⟩⟩
        · rcases mem_propertyNames_iff.1 hname with ⟨c, hc⟩
          exact ⟨c, hc, hw name c hc⟩
        · exact (hs.canonical.of_mem_fragments hf).here.requiredNames_subset

/-- A schema from samples accepts one. -/
theorem exists_accepts (hs : s.IsSampled) : ∃ v, s.accepts v := by
  rcases hs.canonical.fragments_typed with ⟨hne, htyped⟩
  rcases List.exists_mem_of_ne_nil _ hne with ⟨f, hf⟩
  rcases htyped f hf with ⟨tag, hof⟩
  rcases exists_accepts_of_mem s hs f hf tag hof with ⟨v, _, hv⟩
  exact ⟨v, (hs.canonical.accepts_iff v).2 ⟨f, hf, hv⟩⟩

/-- A fragment from samples accepts one with its tag. -/
theorem exists_accepts_of_isOf (hf : f.IsSampled) (hof : f.IsOf tag) :
    ∃ v, v.tag = tag ∧ f.accepts v :=
  exists_accepts_of_mem f hf f (hf.canonical.here.mem_fragments hof.2) tag hof

/-- What is inside a fragment from samples is sampled. -/
theorem of_child {c : Schema} (hf : f.IsSampled) (hof : f.IsOf tag) (hc : c ∈ f.children) :
    c.IsSampled :=
  hf.inside (hf.canonical.here.mem_fragments hof.2) hc

end IsSampled

end Schema

end SampleSchema
