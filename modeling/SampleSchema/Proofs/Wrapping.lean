import SampleSchema.Proofs.Congruence
import SampleSchema.Proofs.SelfCovering
import SampleSchema.Proofs.Uniqueness

/-!
# Writing Unions

What becomes of a union when it is written in the library's form.

Of the alternatives, those that are nothing but a type collapse into one entry
in front, which names each tag once, and the others follow. `collapse` is this
rule, taken by the letter: it asks of each alternative whether it is simple.

The library asks less. It takes an alternative with a type list for simple,
whatever stands beside the list, and so the items, properties, required names
and alternatives there are lost. What it writes is what the rule makes of the
alternatives without them, and `wrap_eq_collapse` adds that this is the rule
itself only for unions in which no list has anything beside it.

In what is written, no entry but the first is simple and no list has anything
beside it, so it is written in the same way again. And the fragments of a
schema that comes from samples are the alternatives from which it was written.
Wrapping them gives it back, unless there is only one of them, in which case it
is a single fragment itself. A merge gives it back in any case, since there is
nothing left for it to do.

## Main definitions

* `Schema.entryFor`: One entry for some tags, if there are any.
* `Schema.gather`: One entry for some tags in front of other alternatives.
* `Schema.collapse`: Alternatives with one entry for the simple ones.
* `Schema.listAlone`: A type list without what stands beside it.

## Theorems

* `Schema.join_eq_collapse`: What alternatives are joined to.
* `Schema.wrap_eq_collapse`: What a union is written as, and when this is what
  the rule says.
* `Schema.collapse_entries`: Collapsing does not change what is collapsed.
* `Schema.merge_singleton_of_reachable`: A schema from samples merges to itself.
* `Schema.wrap_fragments`: Wrapping is a normal form, and undoes taking apart.
-/

namespace SampleSchema

namespace Schema

variable {s a e : Schema} {tags : List Tag} {others alternatives : List Schema}

/-! ### The rule -/

/-- One entry for some tags, if there are any. -/
def entryFor (tags : List Tag) : List Schema := if tags.isEmpty then [] else [ofTags tags]

/-- One entry for some tags in front of other alternatives. Without others the
    entry is the whole schema. -/
def gather (tags : List Tag) (others : List Schema) : Schema :=
  if others.isEmpty then ofTags tags
  else union (entryFor tags ++ others)

/-- Alternatives with one entry for the tags of those that are only a type, each
    tag at its first occurrence. The others follow as they are. -/
def collapse (alternatives : List Schema) : Schema :=
  gather ((alternatives.filter isSimple).flatMap typeTags).eraseDups
    (alternatives.filter fun a => !a.isSimple)

theorem gather_nil (tags : List Tag) : gather tags [] = ofTags tags := rfl

theorem gather_of_ne_nil (h : others ≠ []) :
    gather tags others = union (entryFor tags ++ others) :=
  if_neg (mt List.isEmpty_iff.1 h)

theorem isSimple_ofTags (tags : List Tag) : (ofTags tags).isSimple := rfl

theorem eq_ofTags_of_mem_entryFor (h : e ∈ entryFor tags) : e = ofTags tags := by
  unfold entryFor at h
  split at h
  · cases h
  · exact List.mem_singleton.1 h

/-- An entry is one of the other alternatives, or the one for the tags. -/
theorem mem_of_anyOf_gather {entries : List Schema} (h : (gather tags others).anyOf = some entries)
    (he : e ∈ entries) : e = ofTags tags ∨ e ∈ others := by
  by_cases hnil : others = []
  · rw [hnil] at h
    cases h
  · rw [gather_of_ne_nil hnil] at h
    cases h
    rcases List.mem_append.1 he with he | he
    · exact Or.inl (eq_ofTags_of_mem_entryFor he)
    · exact Or.inr he

/-- Every other alternative is an entry. -/
theorem exists_mem_anyOf_gather (h : a ∈ others) :
    ∃ entries, (gather tags others).anyOf = some entries ∧ a ∈ entries := by
  rw [gather_of_ne_nil (List.ne_nil_of_mem h)]
  exact ⟨_, rfl, List.mem_append_right _ h⟩

/-! ### Type lists -/

/-- A schema with a type list without what stands beside the list, and any other
    as it is. -/
def listAlone (s : Schema) : Schema :=
  match s.type with
  | some (.several tags) => { type := some (.several tags) }
  | _ => s

theorem listAlone_of_several (h : s.type = some (.several tags)) :
    s.listAlone = { type := some (.several tags) } := by
  rw [listAlone, h]

theorem listAlone_of_not_several (h : ∀ tags, s.type ≠ some (.several tags)) :
    s.listAlone = s := by
  unfold listAlone
  split
  · next tags ht => exact absurd ht (h tags)
  · rfl

/-- Nothing stands beside the list just when the schema is simple. -/
theorem listAlone_eq_self_iff :
    s.listAlone = s ↔ ∀ tags, s.type = some (.several tags) → s.isSimple := by
  constructor
  · intro h tags ht
    rw [← h, listAlone_of_several ht]
    rfl
  · intro h
    by_cases hlist : ∃ tags, s.type = some (.several tags)
    · rcases hlist with ⟨tags, ht⟩
      have hsimple := h tags ht
      rw [listAlone_of_several ht]
      rcases s with ⟨type, items, properties, required, anyOf⟩
      simp only at ht
      simp only [isSimple, Bool.and_eq_true, Option.isNone_iff_eq_none] at hsimple
      rcases hsimple with ⟨⟨⟨⟨_, rfl⟩, rfl⟩, rfl⟩, rfl⟩
      rw [ht]
    · exact listAlone_of_not_several fun tags ht => hlist ⟨tags, ht⟩

/-- The library's test for a simple alternative looks at the list alone. -/
theorem simpleTags?_eq (s : Schema) :
    s.simpleTags? = if s.listAlone.isSimple then some s.listAlone.typeTags else none := by
  unfold simpleTags? listAlone
  split
  · next tags ht => rw [ht]; rfl
  · next tag ht => rw [ht, typeTags, ht]; rfl
  · next ht => rw [ht, isSimple, ht]; rfl

theorem isNone_simpleTags?_iff (s : Schema) :
    s.simpleTags?.isNone = !s.listAlone.isSimple := by
  rw [simpleTags?_eq]
  cases s.listAlone.isSimple <;> rfl

/-- A schema that is not simple without what stands beside its list has no
    list. -/
theorem listAlone_eq_self_of_not_isSimple (h : ¬ s.listAlone.isSimple) : s.listAlone = s := by
  refine listAlone_of_not_several fun tags ht => h ?_
  rw [listAlone_of_several ht]
  rfl

/-! ### What unions are written as -/

theorem flatten_simpleTags?_eq (alternatives : List Schema) :
    (alternatives.filterMap simpleTags?).flatten =
      ((alternatives.map listAlone).filter isSimple).flatMap typeTags := by
  induction alternatives with
  | nil => rfl
  | cons a as ih =>
      have htags := simpleTags?_eq a
      rw [List.map_cons]
      by_cases hsimple : a.listAlone.isSimple
      · rw [if_pos hsimple] at htags
        rw [List.filterMap_cons_some htags, List.filter_cons_of_pos hsimple, List.flatten_cons,
          List.flatMap_cons, ih]
      · rw [if_neg hsimple] at htags
        rw [List.filterMap_cons_none htags, List.filter_cons_of_neg hsimple, ih]

theorem filter_not_isSimple_map_listAlone (alternatives : List Schema) :
    ((alternatives.map listAlone).filter fun a => !a.isSimple) =
      alternatives.filter fun a => a.simpleTags?.isNone := by
  induction alternatives with
  | nil => rfl
  | cons a as ih =>
      rw [List.map_cons, List.filter_cons, List.filter_cons, isNone_simpleTags?_iff, ih]
      by_cases hsimple : a.listAlone.isSimple
      · rw [hsimple]
        rfl
      · rw [listAlone_eq_self_of_not_isSimple hsimple]

/-- What stands beside type lists is dropped, and then the rule applies. -/
theorem join_eq_collapse (alternatives : List Schema) :
    join alternatives = collapse (alternatives.map listAlone) := by
  rw [collapse, ← flatten_simpleTags?_eq, filter_not_isSimple_map_listAlone]
  rfl

theorem wrap_of_anyOf (h : s.anyOf = some alternatives) (hne : alternatives ≠ []) :
    s.wrap = join alternatives := by
  cases alternatives with
  | nil => exact absurd rfl hne
  | cons a as => rw [wrap, h]

/-- A union is written as the rule says for its alternatives without what stands
    beside their type lists. It is written as the rule says for the alternatives
    themselves, so that none that is not simple is lost, just when nothing stands
    there. -/
theorem wrap_eq_collapse (s : Schema) (alternatives : List Schema)
    (h : s.anyOf = some alternatives) (hne : alternatives ≠ []) :
    s.wrap = collapse (alternatives.map listAlone) ∧
      (s.wrap = collapse alternatives ↔
        ∀ a ∈ alternatives, ∀ tags, a.type = some (.several tags) → a.isSimple) := by
  have hwrap : s.wrap = collapse (alternatives.map listAlone) :=
    (wrap_of_anyOf h hne).trans (join_eq_collapse alternatives)
  refine ⟨hwrap, fun hsame a ha tags ht => ?_, fun hall => ?_⟩
  · -- Otherwise it would be an entry by the rule, while no entry is a list and not simple.
    by_contra hsimple
    have hother : a ∈ alternatives.filter fun a => !a.isSimple := by
      rw [List.mem_filter, eq_false_of_ne_true hsimple]
      exact ⟨ha, rfl⟩
    rcases exists_mem_anyOf_gather hother with ⟨entries, hentries, hmem⟩
    change (collapse alternatives).anyOf = some entries at hentries
    rw [← hsame, hwrap] at hentries
    rcases mem_of_anyOf_gather hentries hmem with rfl | hkept
    · exact hsimple (isSimple_ofTags _)
    · rcases List.mem_filter.1 hkept with ⟨hmap, hnot⟩
      rcases List.mem_map.1 hmap with ⟨b, _, rfl⟩
      have hself : b.listAlone = b := by
        refine listAlone_eq_self_of_not_isSimple fun hsimple => ?_
        rw [hsimple] at hnot
        cases hnot
      rw [hself] at ht hsimple
      exact hsimple (listAlone_eq_self_iff.1 hself tags ht)
  · have hmap : alternatives.map listAlone = alternatives := by
      refine (List.map_congr_left fun a ha => ?_).trans (List.map_id _)
      exact listAlone_eq_self_iff.2 (hall a ha)
    rw [hwrap, hmap]

/-- An array stays as it is, behind the tags of the others. Properties beside a
    type list do not. -/
theorem wrap_eq_collapse_stray :
    (union [container .array (some (ofTag .integer)), ofTags [.string, .null],
          ofTag .string]).wrap =
        union [ofTags [.string, .null], container .array (some (ofTag .integer))] ∧
      (union [{ type := some (.several [.object, .null])
                properties := some (.ofList [("a", ofTag .string)]) }, ofTag .string]).wrap =
        ofTags [.object, .null, .string] ∧
      (union [{ type := some (.several [.object, .null])
                properties := some (.ofList [("a", ofTag .string)]) }, ofTag .string]).wrap ≠
        collapse [{ type := some (.several [.object, .null])
                    properties := some (.ofList [("a", ofTag .string)]) }, ofTag .string] := by
  refine ⟨?_, ?_, ?_⟩
  · have halone : ∀ a ∈ [container .array (some (ofTag .integer)), ofTags [.string, .null],
        ofTag .string], ∀ tags, a.type = some (.several tags) → a.isSimple := by
      simp only [List.forall_mem_cons]
      exact ⟨nofun, fun _ _ => rfl, nofun, nofun⟩
    refine ((wrap_eq_collapse _ _ rfl (List.cons_ne_nil _ _)).2.2 halone).trans ?_
    cbv
  · refine (wrap_eq_collapse _ _ rfl (List.cons_ne_nil _ _)).1.trans ?_
    cbv
  · intro hsame
    have hsimple := (wrap_eq_collapse _ _ rfl (List.cons_ne_nil _ _)).2.1 hsame _
      List.mem_cons_self _ rfl
    cases hsimple

/-! ### Writing twice -/

/-- Collapsing does not change what is collapsed. -/
theorem collapse_entries (htags : tags.Nodup) (hothers : ∀ f ∈ others, ¬ f.isSimple) :
    collapse (entryFor tags ++ others) = gather tags others := by
  have hsimple : others.filter isSimple = [] := List.filter_eq_nil_iff.2 hothers
  have hkept : (others.filter fun f => !f.isSimple) = others := by
    refine List.filter_eq_self.2 fun f hf => ?_
    rw [eq_false_of_ne_true (hothers f hf)]
    rfl
  -- The only entry that is simple is the one for the tags, which are all different already.
  unfold collapse entryFor
  rw [List.filter_append, List.filter_append, hsimple, hkept, List.append_nil]
  by_cases hempty : tags.isEmpty
  · rw [if_pos hempty, List.isEmpty_iff.1 hempty]
    rfl
  · rw [if_neg hempty]
    change gather ([ofTags tags].flatMap typeTags).eraseDups others = gather tags others
    rw [List.flatMap_singleton, typeTags_ofTags, eraseDups_of_nodup htags]

/-- What is written as a union is written in the same way again. -/
theorem wrap_gather (htags : tags.Nodup) (hothers : ∀ f ∈ others, ¬ f.listAlone.isSimple) :
    (gather tags others).wrap = gather tags others := by
  by_cases hnil : others = []
  · rw [hnil, gather_nil]
    rfl
  · have halone : ∀ f ∈ others, f.listAlone = f :=
      fun f hf => listAlone_eq_self_of_not_isSimple (hothers f hf)
    have hentry : ∀ e ∈ entryFor tags, e.listAlone = e := by
      intro e he
      rw [eq_ofTags_of_mem_entryFor he]
      exact listAlone_eq_self_iff.2 fun _ _ => isSimple_ofTags tags
    have hentries : (entryFor tags ++ others).map listAlone = entryFor tags ++ others := by
      rw [List.map_append, List.map_congr_left hentry, List.map_congr_left halone, List.map_id',
        List.map_id']
    rw [wrap_of_anyOf (congrArg anyOf (gather_of_ne_nil hnil))
      (List.append_ne_nil_of_right_ne_nil _ hnil), join_eq_collapse, hentries]
    refine collapse_entries htags fun f hf hsimple => hothers f hf ?_
    rw [halone f hf]
    exact hsimple

theorem wrap_wrap (s : Schema) : s.wrap.wrap = s.wrap := by
  by_cases hunion : ∃ alternatives, s.anyOf = some alternatives ∧ alternatives ≠ []
  · rcases hunion with ⟨alternatives, h, hne⟩
    rw [wrap_of_anyOf h hne, join_eq_collapse]
    refine wrap_gather (nodup_eraseDups _) fun f hf hsimple => ?_
    rw [filter_not_isSimple_map_listAlone, List.mem_filter, isNone_simpleTags?_iff, hsimple] at hf
    exact absurd hf.2 Bool.false_ne_true
  · -- A schema without alternatives stays as it is.
    have hself : s.wrap = s := by
      unfold wrap
      split
      · next a as h => exact absurd ⟨a :: as, h, List.cons_ne_nil a as⟩ hunion
      · rfl
    rw [hself, hself]

/-! ### Taking apart and wrapping -/

/-- A schema from samples merges to itself. -/
theorem merge_singleton_of_reachable (h : Reachable s) : merge {} [s] = .ok s := by
  -- It covers itself, and a merge that is equal to it is the same, both being canonical.
  rcases covers_eq_true_iff.1 (covers_of_isCanonical h.isCanonical) with ⟨m, hm, hequal⟩
  have hboth : ∀ x ∈ [s, s], Reachable x :=
    List.forall_mem_cons.2 ⟨h, List.forall_mem_singleton.2 h⟩
  have hreachable : Reachable m := .merge {} hboth hm
  have heq := eq_of_equal m s hreachable.isCanonical h.isCanonical hequal
  rw [heq] at hm
  exact merge_singleton_of_merge hm

/-- Wrapping is a normal form: what is wrapped stays as it is. And it undoes
    taking a schema from samples apart, if there are several fragments, while a
    merge of the fragments gives back every such schema. -/
theorem wrap_fragments :
    (∀ s : Schema, s.wrap.wrap = s.wrap) ∧
      ∀ s, Reachable s →
        (2 ≤ s.fragments.length → (union s.fragments).wrap = s) ∧
          merge {} [union s.fragments] = .ok s := by
  refine ⟨wrap_wrap, fun s hs => ⟨fun htwo => ?_, ?_⟩⟩
  · have hne : s.fragments ≠ [] := by
      rw [← List.length_pos_iff]
      omega
    rw [wrap_of_anyOf rfl hne, ← joinFound_of_two_le htwo]
    exact hs.isCanonical.joinFound_fragments
  · -- A merge sees only fragments, and those of the union are those of the schema.
    have hfragments : allFragments [union s.fragments] = allFragments [s] := by
      rw [allFragments_singleton, allFragments_singleton, fragments_union, allFragments_fragments]
    rw [merge_congr_fragments hfragments, merge_singleton_of_reachable hs]

/-- Values of four kinds, two of which have something inside, and a single
    object. -/
theorem wrap_fragments_mixed :
    (union (union [ofTags [.null, .string], container .array (some (ofTag .integer)),
          object (.ofList [("a", container .array (some (ofTags [.null, .array])))])
            (some ["a"])]).fragments).wrap =
        union [ofTags [.null, .string], container .array (some (ofTag .integer)),
          object (.ofList [("a", container .array (some (ofTags [.null, .array])))])
            (some ["a"])] ∧
      merge {} [union (object (.ofList [("b", ofTag .string)]) (some ["b"])).fragments] =
        .ok (object (.ofList [("b", ofTag .string)]) (some ["b"])) := by
  constructor
  · have hfound : inferAll {} [.null, .list [.int 1], .string "a",
        .object (.ofList [("a", .list [.null, .list []])])] =
        .ok (union [ofTags [.null, .string], container .array (some (ofTag .integer)),
          object (.ofList [("a", container .array (some (ofTags [.null, .array])))])
            (some ["a"])]) := by
      cbv
    refine (wrap_fragments.2 _ (.inferAll {} hfound)).1 ?_
    cbv
  · exact (wrap_fragments.2 _ (.infer {} (v := .object (.ofList [("b", .string "c")])) (by cbv))).2

end Schema

end SampleSchema
