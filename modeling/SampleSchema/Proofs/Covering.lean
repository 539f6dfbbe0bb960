import SampleSchema.Proofs.Comparison
import SampleSchema.Proofs.Instances
import SampleSchema.Proofs.Upkeep

/-!
# Covering Is Sound

A schema that covers another accepts whatever that one accepts.

Covering is decided without a look at samples. The one schema is merged into
the other, and the result is compared with what there was before. Merging
loses no sample, so all that is left to show is that schemas which compare as
equal accept the same.

A comparison is generous. It takes all leaves with a tag for equal, whatever
may stand beside the tag; that does no harm, because a leaf is judged by its
tag alone. It takes the first partner it finds for a fragment; any partner
will do, since it accepts what the fragment accepts. And fragments without a
tag, which have to be the same, are the same.

As for merging, type lists with something beside them are excluded. A merge of
schemas without such lists has none either, so the comparison is with a schema
of the same kind.

## Theorems

* `Schema.hasBareLists_of_merge`: Merging keeps lists bare.
* `Schema.accepts_of_equal`: Schemas that compare as equal accept the same.
* `Schema.accepts_of_covers`: A schema accepts what those it covers accept.
-/

namespace SampleSchema

namespace Schema

/-! ### Bare lists -/

theorem keptByMerging_bareList (o : MergeOptions) : KeptByMerging o BareList where
  tag tag := bareList_ofTags [tag]
  container _ _ _ := by
    intro tags h
    cases h
  object _ _ _ _ := by
    intro tags h
    cases h
  join found _ _ := by
    unfold join
    dsimp only
    split
    · exact bareList_ofTags _
    · intro tags h
      cases h
  bare found _ _ := bareList_ofTags (bareTags found)

/-- Merging keeps lists bare. -/
theorem hasBareLists_of_merge {o : MergeOptions} {xs : List Schema} {m : Schema}
    (hxs : ∀ x ∈ xs, x.hasBareLists) (h : merge o xs = .ok m) : m.hasBareLists := by
  simp only [hasBareLists_iff_everywhere] at hxs ⊢
  exact .of_merge (keptByMerging_bareList o) xs hxs m h

/-- Nor are there other lists inside the fragments of a schema without them. -/
theorem hasBareLists_of_inside {s f c : Schema} (hs : s.hasBareLists) (hf : f ∈ s.fragments)
    (hc : c ∈ f.children) : c.hasBareLists := by
  rw [hasBareLists_iff_everywhere] at hs ⊢
  exact (hs.of_mem_fragments (fun tag => bareList_ofTags [tag]) f hf).inside hc

/-! ### Equal schemas -/

variable {o : CompareOptions}

/-- What fits inside a fragment fits inside an equal one, if what is inside
    both accepts the same when it is equal. -/
theorem fitsInside_of_sameTagged (ho : ¬ o.ignoreRequired) {tag : Tag} {v : Sample}
    (htag : tag ∈ v.tags) {l r : Schema} (h : sameTagged o tag l r)
    (hinside : ∀ c ∈ l.children, ∀ d ∈ r.children, equal o c d → ∀ e, c.accepts e → d.accepts e)
    (hv : l.fitsInside v) : r.fitsInside v := by
  rcases tag_cases tag with ht | ht | rfl
  · exact fitsInside_of_leaf htag ht r
  · refine fitsInside_of_items ht htag ?_ hv
    rintro e ⟨c, hc, he⟩
    -- There are items on the left, so there are equal ones on the right.
    rcases (sameTagged_container_iff ht).1 h with ⟨hnone, _⟩ | ⟨c', d, hc', hd, hequal⟩
    · rw [hnone] at hc
      cases hc
    · rw [hc'] at hc
      cases hc
      exact ⟨d, hd, hinside c (mem_children_of_items hc') d (mem_children_of_items hd) hequal e he⟩
  · rcases sameTagged_object_iff.1 h with ⟨_, hproperties, hrequired⟩
    refine fitsInside_of_properties htag ?_ ?_ hv
    · rintro name e ⟨c, hc, he⟩
      rcases hproperties name c hc with ⟨d, hd, hequal⟩
      exact ⟨d, hd,
        hinside c (mem_children_of_property? hc) d (mem_children_of_property? hd) hequal e he⟩
    · intro name hname
      exact ((hrequired.resolve_left ho) name).2 hname

/-- Schemas that compare as equal accept the same, by induction along the
    comparison. -/
theorem accepts_of_equal (ho : ¬ o.ignoreRequired) (a : Schema) :
    ∀ b, a.hasBareLists → b.hasBareLists → equal o a b → ∀ v, a.accepts v → b.accepts v := by
  induction a using fragment_induction with
  | step a ih =>
      intro b ha hb h v hv
      rcases (accepts_iff_fragments a ha v).1 hv with ⟨f, hf, hv⟩
      rw [accepts_iff_fragments b hb]
      rcases (equal_iff.1 h).2 with ⟨_, hsame⟩ | ⟨htyped, hpairs⟩
      · exact ⟨f, hsame ▸ hf, hv⟩
      · -- The fragment that accepts has a partner with the same tag.
        rcases htyped f (List.mem_append_left _ hf) with ⟨tag, htag⟩
        rcases exists_mem_of_pairOff (hpairs tag).2 (mem_tagged_iff.2 ⟨hf, htag⟩) with
          ⟨g, hg, hsame⟩
        have hg' := mem_tagged_iff.1 hg
        have hfOf : f.IsOf tag := ⟨(isAtomic_of_mem_fragments a f hf).1, htag⟩
        have hgOf : g.IsOf tag := ⟨(isAtomic_of_mem_fragments b g hg'.1).1, hg'.2⟩
        rcases (hfOf.accepts_iff v).1 hv with ⟨hmem, hfits⟩
        refine ⟨g, hg'.1, (hgOf.accepts_iff v).2 ⟨hmem, ?_⟩⟩
        refine fitsInside_of_sameTagged ho hmem hsame (fun c hc d hd hequal e he => ?_) hfits
        exact ih f hf c hc d (hasBareLists_of_inside ha hf hc) (hasBareLists_of_inside hb hg'.1 hd)
          hequal e he

/-! ### Covering -/

/-- A schema accepts what those it covers accept. -/
theorem accepts_of_covers (main sub : Schema) (v : Sample) (hmain : main.hasBareLists)
    (hsub : sub.hasBareLists) (h : covers main sub = .ok true) (hv : sub.accepts v) :
    main.accepts v := by
  rcases bind_eq_ok_iff.1 h with ⟨merged, hmerged, h⟩
  have hboth : ∀ x ∈ [main, sub], x.hasBareLists := by
    intro x hx
    rcases List.mem_cons.1 hx with rfl | hx
    · exact hmain
    · rw [List.mem_singleton.1 hx]
      exact hsub
  -- The sample goes through the merge, and from there back to the first schema.
  have haccepts : merged.accepts v :=
    keepsSamples {} _ hboth merged v hmerged ⟨sub, List.mem_cons_of_mem _ List.mem_cons_self, hv⟩
  exact accepts_of_equal Bool.false_ne_true merged main (hasBareLists_of_merge hboth hmerged) hmain
    (Except.ok.inj h) v haccepts

/-- A union that lists its object first and spells the nullable property as
    alternatives covers an object without the other property, and accepts its
    samples. -/
theorem accepts_of_covers_nullable :
    (union [object (.ofList [("id", union [ofTag .integer, ofTag .null]),
        ("tags", container .array (some (ofTag .string)))]) (some ["id"]),
      ofTags [.string, .null]]).accepts (.object (.ofList [("id", .int 1)])) := by
  refine accepts_of_covers _ (object (.ofList [("id", ofTag .integer)]) (some ["id"])) _ ?_ ?_ ?_ ?_
  all_goals cbv

end Schema

end SampleSchema
