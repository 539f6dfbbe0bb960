import SampleSchema.Proofs.Relaxation
import SampleSchema.Proofs.SelfCovering

/-!
# Comparing without Requirements

What a comparison that leaves out requirements depends on.

Such a comparison ought to see a schema as if nothing were required in it, so
that it ends alike for schemas that are the same once they are relaxed. It does
where fragments are paired, since a pair of objects is then compared by what
they have inside. But a fragment without a tag cannot be paired. As soon as
there is one, the fragments on both sides have to be literally the same, and
then requirements count like everything else, those of objects with a tag
included.

`isTyped` says that a comparison never comes to such a fragment. A schema of
this kind compares as equal to its relaxed form, whatever it requires, and with
comparison being an equivalence it may be exchanged for any other schema with
the same relaxed form. The other schema in the comparison need not be typed. If
it is not, it is not equal to a typed schema, with or without requirements.

Where a schema is not typed there are requirements that change the answer. If
it requires something in every node, and the other schema requires nothing, the
fragments of both are never the same, and so all of them have to be paired.

## Main definitions

* `Schema.isTyped`: Every fragment that a comparison comes to has a tag.
* `Schema.requiring`: The schema with the same requirements in every node.

## Theorems

* `Schema.fragments_relaxed`: Relaxing does not change how a schema is taken
  apart.
* `Schema.equal_relaxed_self`: A typed schema is equal to its relaxed form.
* `Schema.isTyped_of_required`: Requirements in every node keep fragments
  without tags from being equal.
* `Schema.equal_of_relaxed_iff`: When requirements make no difference.
-/

namespace SampleSchema

namespace Schema

variable {o : CompareOptions} {a b s : Schema}

/-! ### Typed schemas -/

/-- Every fragment that a comparison comes to has a tag. -/
def isTyped (s : Schema) : Bool :=
  s.fragments.attach.all fun f =>
    f.1.tag?.isSome && f.1.described.attach.all fun c => c.1.isTyped
termination_by s.height
decreasing_by
  exact Nat.lt_of_lt_of_le (height_lt (mem_children_of_described c.2))
    (height_le_of_mem_fragments s f.1 f.2)

/-- The fragments have tags, and all that they describe is typed. -/
theorem isTyped_iff :
    s.isTyped ↔ ∀ f ∈ s.fragments, ∃ tag, f.tag? = some tag ∧
      ∀ name c, f.part tag name = some c → c.isTyped := by
  rw [isTyped]
  simp only [List.all_subtype, List.unattach_attach, List.all_eq_true, Bool.and_eq_true,
    Option.isSome_iff_exists]
  refine forall₂_congr fun f _ => ⟨?_, ?_⟩
  · rintro ⟨⟨tag, htag⟩, hinside⟩
    exact ⟨tag, htag, fun name c hc => hinside c ((mem_described_iff htag).2 ⟨name, hc⟩)⟩
  · rintro ⟨tag, htag, hinside⟩
    refine ⟨⟨tag, htag⟩, fun c hc => ?_⟩
    rcases (mem_described_iff htag).1 hc with ⟨name, hc⟩
    exact hinside name c hc

/-- Typed fragments are equal to others only by being paired with them. -/
theorem paired_of_equal (h : equal o a b) (ha : a.isTyped) :
    Paired (Partners o) a.fragments b.fragments := by
  rcases equal_iff_matched.1 h with hsame | hpaired
  · rw [← hsame]
    refine .of_perm (.refl _) fun f hf => ?_
    rcases isTyped_iff.1 ha f hf with ⟨tag, htag, _⟩
    exact partners_self o htag
  · exact hpaired

/-- What compares as equal to a typed schema is typed, by induction on what is
    inside its fragments. -/
theorem isTyped_of_equal (a : Schema) : ∀ b, equal o a b → a.isTyped → b.isTyped := by
  induction a using fragment_induction with
  | step a ih =>
      intro b h ha
      refine isTyped_iff.2 fun g hg => ?_
      rcases (paired_of_equal h ha).exists_left hg with ⟨f, hf, tag, hftag, hgtag, hsame⟩
      refine ⟨tag, hgtag, fun name d hd => ?_⟩
      -- The partner has something under that name, too, which is typed and equal to it.
      have hparts := (sameTagged_iff_parts.1 hsame).1 name
      rw [hd] at hparts
      cases hc : f.part tag name with
      | none =>
          rw [hc] at hparts
          cases hparts
      | some c =>
          rw [hc, Option.rel_some_some] at hparts
          rcases isTyped_iff.1 ha f hf with ⟨tag', hftag', hinside⟩
          rw [hftag] at hftag'
          cases hftag'
          exact ih f hf c (mem_children_of_part hc) d hparts (hinside name c hc)

/-! ### Relaxed schemas -/

theorem type_relaxed (s : Schema) : s.relaxed.type = s.type := by
  rw [relaxed_eq]

theorem anyOf_relaxed (s : Schema) : s.relaxed.anyOf = s.anyOf.map (List.map relaxed) := by
  rw [relaxed_eq]

/-- Relaxing a schema relaxes its fragments. -/
theorem fragments_relaxed (s : Schema) : s.relaxed.fragments = s.fragments.map relaxed := by
  induction s using fragments_cases with
  | anyOf s alternatives ha ih =>
      have hrelaxed : s.relaxed.anyOf = some (alternatives.map relaxed) := by
        rw [anyOf_relaxed, ha, Option.map_some]
      rw [fragments_of_anyOf ha, fragments_of_anyOf hrelaxed, allFragments, allFragments,
        List.flatMap_map, List.map_flatMap]
      exact List.flatMap_congr ih
  | several s tags ha ht =>
      have hrelaxed : s.relaxed.anyOf = none := by
        rw [anyOf_relaxed, ha, Option.map_none]
      rw [fragments_of_several ha ht, fragments_of_several hrelaxed ((type_relaxed s).trans ht),
        List.map_map]
      exact List.map_congr_left fun tag _ => (relaxed_ofTag tag).symm
  | atomic s hatomic =>
      have hrelaxed : s.relaxed.IsAtomic := by
        rw [IsAtomic, type_relaxed, anyOf_relaxed, hatomic.1]
        exact ⟨rfl, hatomic.2⟩
      rw [hatomic.fragments_eq, hrelaxed.fragments_eq, List.map_singleton]

theorem part_relaxed (tag : Tag) (name : String) (f : Schema) :
    f.relaxed.part tag name = (f.part tag name).map relaxed := by
  rw [relaxed_eq]
  rcases tag_cases tag with ht | ht | rfl
  · rw [part_leaf ht, part_leaf ht, Option.map_none]
  · rw [part_container ht, part_container ht]
  · unfold part property?
    cases f.properties with
    | none => rfl
    | some properties => exact Keyed.get?_map properties _ name

/-- Whether a schema is typed does not depend on what it requires, by induction
    on what is inside its fragments. -/
theorem isTyped_relaxed_iff (s : Schema) : s.relaxed.isTyped ↔ s.isTyped := by
  induction s using fragment_induction with
  | step s ih =>
      rw [isTyped_iff, isTyped_iff, fragments_relaxed, List.forall_mem_map]
      refine forall₂_congr fun f hf => exists_congr fun tag => ?_
      rw [tag?_relaxed]
      refine and_congr_right fun _ => forall_congr' fun name => ?_
      rw [part_relaxed]
      cases hc : f.part tag name with
      | none => simp only [Option.map_none, reduceCtorEq, false_imp_iff, implies_true]
      | some c =>
          simp only [Option.map_some, Option.some.injEq, forall_eq']
          exact ih f hf c (mem_children_of_part hc)

/-- A typed schema is equal to its relaxed form when requirements are left out,
    by induction on what is inside its fragments. -/
theorem equal_relaxed_self (ho : o.ignoreRequired) (s : Schema) :
    s.isTyped → equal o s s.relaxed := by
  induction s using fragment_induction with
  | step s ih =>
      intro hs
      rw [equal_iff_matched, fragments_relaxed]
      refine Or.inr (.of_forall₂ ?_)
      rw [List.forall₂_map_right_iff, List.forall₂_same]
      intro f hf
      rcases isTyped_iff.1 hs f hf with ⟨tag, htag, hinside⟩
      refine ⟨tag, htag, (tag?_relaxed f).trans htag, sameTagged_iff_parts.2 ?_⟩
      refine ⟨fun name => ?_, fun _ => Or.inl ho⟩
      rw [part_relaxed]
      cases hc : f.part tag name with
      | none => exact .none
      | some c => exact .some (ih f hf c (mem_children_of_part hc) (hinside name c hc))

/-- What compares as equal still does when it is relaxed, by induction on what
    is inside the fragments. -/
theorem equal_relaxed (a : Schema) : ∀ b, equal o a b → equal o a.relaxed b.relaxed := by
  induction a using fragment_induction with
  | step a ih =>
      intro b h
      rw [equal_iff_matched] at h ⊢
      rw [fragments_relaxed, fragments_relaxed]
      refine h.imp (fun hsame => by rw [hsame]) fun hpaired => ?_
      have hrelaxed : Paired (fun f g => Partners o f.relaxed g.relaxed)
          a.fragments b.fragments := by
        refine hpaired.imp fun f hf g _ ⟨tag, hftag, hgtag, hsame⟩ => ?_
        refine ⟨tag, (tag?_relaxed f).trans hftag, (tag?_relaxed g).trans hgtag, ?_⟩
        rw [sameTagged_iff_parts] at hsame ⊢
        refine ⟨fun name => ?_, fun _ => Or.inr fun name => ?_⟩
        · rw [part_relaxed, part_relaxed]
          refine rel_map (hsame.1 name) fun c d hc _ hcd => ?_
          exact ih f hf c (mem_children_of_part hc) d hcd
        · -- Nothing is required on either side.
          rw [relaxed_eq f, relaxed_eq g]
          exact Iff.rfl
      exact hrelaxed.map fun _ _ hfg => hfg

/-- A typed schema compares with others as its relaxed form does with theirs. -/
theorem equal_relaxed_iff (ho : o.ignoreRequired) (ha : a.isTyped) :
    equal o a b ↔ equal o a.relaxed b.relaxed := by
  refine ⟨equal_relaxed a b, fun h => ?_⟩
  -- The other schema is equal to a typed one, and so is typed as well.
  have hb := (isTyped_relaxed_iff b).1 (isTyped_of_equal _ _ h ((isTyped_relaxed_iff a).2 ha))
  have hback := equal_comm.1 (equal_relaxed_self ho b hb)
  exact equal_trans (equal_relaxed_self ho a ha) (equal_trans h hback)

/-! ### Requirements in every node -/

/-- The schema with the same requirements in every node, at any depth. -/
def requiring (names : Option (List String)) : Schema → Schema
  | ⟨type, items, properties, _, anyOf⟩ =>
    { type := type
      items :=
        match items with
        | some c => some (c.requiring names)
        | none => none
      properties :=
        match properties with
        | some r => some (r.mapMem fun _ c _ => c.requiring names)
        | none => none
      required := names
      anyOf :=
        match anyOf with
        | some cs => some (cs.map fun c => c.requiring names)
        | none => none }
termination_by s => s
decreasing_by
  · exact sizeOf_lt_of_mem_children (mem_children_of_items rfl)
  · exact sizeOf_lt_of_mem_children (mem_children_of_properties rfl ‹_›)
  · exact sizeOf_lt_of_mem_children (mem_children_of_anyOf rfl ‹_›)

theorem requiring_eq (names : Option (List String)) (s : Schema) :
    s.requiring names =
      { type := s.type
        items := s.items.map (requiring names)
        properties := s.properties.map fun r => r.map fun _ c => c.requiring names
        required := names
        anyOf := s.anyOf.map fun cs => cs.map (requiring names) } := by
  rcases s with ⟨type, items, properties, required, anyOf⟩
  cases items <;> cases properties <;> cases anyOf <;>
    simp only [requiring, Option.map_some, Option.map_none,
      Keyed.mapMem_eq_map _ fun _ c => requiring names c]

/-- Functions that agree on what is inside a node map its parts alike. -/
theorem map_parts_congr {r q : Schema → Schema} (h : ∀ c ∈ s.children, r c = q c) :
    s.items.map r = s.items.map q ∧
      (s.properties.map fun p => p.map fun _ c => r c) =
        (s.properties.map fun p => p.map fun _ c => q c) ∧
      s.anyOf.map (List.map r) = s.anyOf.map (List.map q) := by
  refine ⟨Option.map_congr fun c hc => ?_, Option.map_congr fun properties hp => ?_,
    Option.map_congr fun alternatives ha => List.map_congr_left fun c hc => ?_⟩
  · exact h c (mem_children_of_items hc)
  · apply Keyed.ext_get?
    intro name
    rw [Keyed.get?_map, Keyed.get?_map]
    refine Option.map_congr fun c hc => ?_
    exact h c (mem_children_of_properties hp (Keyed.mem_toList_iff.2 hc))
  · exact h c (mem_children_of_anyOf ha hc)

/-- Only the last requirements count. -/
theorem requiring_requiring (names others : Option (List String)) (s : Schema) :
    (s.requiring names).requiring others = s.requiring others := by
  induction s using Schema.induction with
  | step s ih =>
      rcases map_parts_congr (r := requiring others ∘ requiring names) ih with
        ⟨hitems, hproperties, hanyOf⟩
      rw [requiring_eq others (s.requiring names), requiring_eq names s, requiring_eq others s,
        ← hitems, ← hproperties, ← hanyOf]
      simp only [Option.map_map, List.map_map, Function.comp_def, Keyed.map_map]

/-- Requiring nothing in every node is what it is to be relaxed. -/
theorem relaxed_eq_requiring (s : Schema) : s.relaxed = s.requiring none := by
  induction s using Schema.induction with
  | step s ih =>
      rcases map_parts_congr ih with ⟨hitems, hproperties, hanyOf⟩
      rw [relaxed_eq, requiring_eq, hitems, hproperties, hanyOf]

/-- Relaxing takes the requirements away again. -/
theorem relaxed_requiring (names : Option (List String)) (s : Schema) :
    (s.requiring names).relaxed = s.relaxed := by
  rw [relaxed_eq_requiring, relaxed_eq_requiring, requiring_requiring]

theorem exists_of_mem_children_requiring {names : Option (List String)} {c : Schema}
    (h : c ∈ (s.requiring names).children) : ∃ d ∈ s.children, d.requiring names = c := by
  rw [mem_children_iff, requiring_eq] at h
  rcases h with hitems | ⟨name, hproperty⟩ | ⟨alternatives, hanyOf, hc⟩
  · rcases Option.map_eq_some_iff.1 hitems with ⟨d, hd, rfl⟩
    exact ⟨d, mem_children_of_items hd, rfl⟩
  · rcases Option.bind_eq_some_iff.1 hproperty with ⟨r, hr, hc⟩
    rcases Option.map_eq_some_iff.1 hr with ⟨properties, hp, rfl⟩
    rw [Keyed.get?_map] at hc
    rcases Option.map_eq_some_iff.1 hc with ⟨d, hd, rfl⟩
    exact ⟨d, mem_children_of_properties hp (Keyed.mem_toList_iff.2 hd), rfl⟩
  · rcases Option.map_eq_some_iff.1 hanyOf with ⟨cs, hcs, rfl⟩
    rcases List.mem_map.1 hc with ⟨d, hd, rfl⟩
    exact ⟨d, mem_children_of_anyOf hcs hd, rfl⟩

theorem everywhere_requiring (names : Option (List String)) (s : Schema) :
    (s.requiring names).Everywhere fun t => t.required = names := by
  induction s using Schema.induction with
  | step s ih =>
      refine everywhere_iff.2 ⟨?_, fun c hc => ?_⟩
      · rw [requiring_eq]
      · rcases exists_of_mem_children_requiring hc with ⟨d, hd, rfl⟩
        exact ih d hd

/-- Where every node requires something, and those of the other schema nothing,
    no fragment without a tag compares as equal. The induction is on what is
    inside the fragments. Bare tags from a type list are no nodes, and have one. -/
theorem isTyped_of_required (a : Schema) : ∀ b, equal o a b →
    a.Everywhere (fun t => t.required = none → ∃ tag, t = ofTag tag) →
    b.Everywhere (fun t => t.required = none) → a.isTyped := by
  induction a using fragment_induction with
  | step a ih =>
      intro b h ha hb
      refine isTyped_iff.2 fun f hf => ?_
      have hfragment := ha.of_mem_fragments (fun tag _ => ⟨tag, rfl⟩) f hf
      rcases equal_iff_matched.1 h with hsame | hpaired
      · -- The same fragment requires nothing on the right, so it is a bare tag.
        rw [hsame] at hf
        have hnone := (hb.of_mem_fragments (fun _ => rfl) f hf).here
        rcases hfragment.here hnone with ⟨tag, rfl⟩
        refine ⟨tag, rfl, fun name c hc => ?_⟩
        cases tag <;> cases hc
      · rcases hpaired.exists_right hf with ⟨g, hg, tag, htag, _, hsame⟩
        refine ⟨tag, htag, fun name c hc => ?_⟩
        rcases exists_of_rel ((sameTagged_iff_parts.1 hsame).1 name) hc with ⟨d, hd, hcd⟩
        have hinside := mem_children_of_part hc
        refine ih f hf c hinside d hcd (hfragment.inside hinside) ?_
        exact (hb.of_mem_fragments (fun _ => rfl) g hg).inside (mem_children_of_part hd)

/-- When requirements make no difference to a comparison that leaves them out:
    the first schema is typed, or the two are not equal even when relaxed. -/
theorem equal_of_relaxed_iff (a b : Schema) :
    (∀ a' b', a'.relaxed = a.relaxed → b'.relaxed = b.relaxed →
      equal { ignoreRequired := true } a' b' = equal { ignoreRequired := true } a b) ↔
    a.isTyped ∨ ¬ equal { ignoreRequired := true } a.relaxed b.relaxed := by
  have hrelaxed : ∀ s : Schema, s.relaxed.relaxed = s.relaxed := by
    intro s
    rw [relaxed_eq_requiring s, relaxed_requiring, relaxed_eq_requiring]
  constructor
  · intro h
    by_contra hnot
    rw [not_or, not_not] at hnot
    rcases hnot with ⟨huntyped, hequal⟩
    -- Relaxed they are equal, and with requirements in every node of the one they are not.
    have hsame := h (a.requiring (some [])) b.relaxed (relaxed_requiring _ a) (hrelaxed b)
    rw [← h a.relaxed b.relaxed (hrelaxed a) (hrelaxed b), hequal] at hsame
    refine huntyped ((isTyped_relaxed_iff a).1 ?_)
    rw [← relaxed_requiring (some []) a, isTyped_relaxed_iff]
    refine isTyped_of_required _ _ hsame ((everywhere_requiring _ a).imp fun t ht hnone => ?_) ?_
    · rw [ht] at hnone
      cases hnone
    · rw [relaxed_eq_requiring]
      exact everywhere_requiring none b
  · intro h a' b' ha' hb'
    rw [Bool.eq_iff_iff]
    rcases h with htyped | hnot
    · have htyped' := (isTyped_relaxed_iff a).2 htyped
      rw [← ha', isTyped_relaxed_iff] at htyped'
      rw [equal_relaxed_iff rfl htyped', equal_relaxed_iff rfl htyped, ha', hb']
    · -- What is not equal when relaxed is not equal with any requirements.
      have hnever : ∀ x y, x.relaxed = a.relaxed → y.relaxed = b.relaxed →
          ¬ equal { ignoreRequired := true } x y := by
        intro x y hx hy hxy
        have hequal := equal_relaxed x y hxy
        rw [hx, hy] at hequal
        exact hnot hequal
      exact iff_of_false (hnever a' b' ha' hb') (hnever a b rfl rfl)

-- The object has a tag, but what stands beside it has none.
example : equal { ignoreRequired := true }
    (union [{}, object (.ofList [("x", ofTag .string)]) (some ["x"])])
    (union [{}, object (.ofList [("x", ofTag .string)]) none]) = false := by
  cbv

/-- Two typed objects may require different names at each level. Beside a schema
    without a type they may not, although a comparison leaves out requirements. -/
theorem equal_of_relaxed_iff_untyped :
    equal { ignoreRequired := true }
        (object (.ofList [("x", object (.ofList [("y", ofTag .string)]) (some ["y"]))]) none)
        (object (.ofList [("x", object (.ofList [("y", ofTag .string)]) none)]) (some ["x", "z"])) =
      equal { ignoreRequired := true }
        (object (.ofList [("x", object (.ofList [("y", ofTag .string)]) none)]) none)
        (object (.ofList [("x", object (.ofList [("y", ofTag .string)]) none)]) none) ∧
      ¬ ∀ a' b',
        a'.relaxed = (union [{}, object (.ofList [("x", ofTag .string)]) none]).relaxed →
        b'.relaxed = (union [{}, object (.ofList [("x", ofTag .string)]) none]).relaxed →
        equal { ignoreRequired := true } a' b' =
          equal { ignoreRequired := true }
            (union [{}, object (.ofList [("x", ofTag .string)]) none])
            (union [{}, object (.ofList [("x", ofTag .string)]) none]) := by
  have htyped : (object (.ofList [("x", object (.ofList [("y", ofTag .string)]) none)])
      none).isTyped := by
    cbv
  have huntyped : ¬ (union [{}, object (.ofList [("x", ofTag .string)]) none]).isTyped :=
    ne_true_of_eq_false (by cbv)
  constructor
  · refine (equal_of_relaxed_iff _ _).2 (Or.inl htyped) _ _ ?_ ?_
    · cbv
    · cbv
  · rw [equal_of_relaxed_iff, not_or, not_not]
    exact ⟨huntyped, equal_self _ _⟩

end Schema

end SampleSchema
