import SampleSchema.Proofs.Reachable
import SampleSchema.Schema.Relaxed

/-!
# Merging without Requirements

What is left of requirements when they are not to be kept.

Under the option to drop requirements a merge builds no object that requires
anything. That does not yet make the merge relaxed, for not every node in it
has been built. Some fragments are taken over as they are, with whatever is
inside them, and `Kept` finds these: the leaves that stand for all of their
tag, and the only fragment that there is for a property. The latter may be a
whole object, and its requirements stay. An array with one description of its
items behaves differently, since items are merged even when there is nothing
to merge them with.

So a merge is relaxed when what it takes over is relaxed, and only then. In
particular it is when all of the merged schemas are, and those inferred under
the option are. Widening a schema that came with requirements may keep some.

## Main definitions

* `Schema.Kept`: A fragment is taken over as it is.

## Theorems

* `Schema.isRelaxed_iff_everywhere`: Relaxed schemas have no requirements
  anywhere.
* `Schema.isRelaxed_of_merge`, `Schema.isRelaxed_of_infer`: Relaxed schemas
  stay relaxed, and inferred ones are.
* `Schema.isRelaxed_merge_iff`: When merging and widening drop all
  requirements.
-/

namespace SampleSchema

namespace Schema

/-- Merging the schemas takes the fragment over as it is. -/
inductive Kept : List Schema → Schema → Prop
  /-- The first leaf with a tag stands for all of them. -/
  | leaf {xs : List Schema} {tag : Tag} {f : Schema} (ht : tag.isContainer = false)
      (h : (tagged tag (absorb (allFragments xs))).head? = some f) : Kept xs f
  /-- What is kept of the items of arrays or maps is kept. -/
  | items {xs : List Schema} {tag : Tag} {f : Schema} (ht : tag = .array ∨ tag = .map)
      (h : Kept (itemFragments (tagged tag (absorb (allFragments xs)))) f) : Kept xs f
  /-- The only fragment of a property stays. -/
  | only {xs : List Schema} {name : String} {f : Schema}
      (h : propertyFragments name (tagged .object (absorb (allFragments xs))) = [f]) : Kept xs f
  /-- What is kept of several fragments of a property is kept. -/
  | property {xs : List Schema} {name : String} {f : Schema}
      (hmany : ∀ g, propertyFragments name (tagged .object (absorb (allFragments xs))) ≠ [g])
      (h : Kept (propertyFragments name (tagged .object (absorb (allFragments xs)))) f) :
      Kept xs f

variable {o : MergeOptions}

/-- A relaxed schema is one without requirements everywhere. -/
theorem isRelaxed_iff_everywhere (s : Schema) :
    s.isRelaxed ↔ s.Everywhere fun t => t.required = none := by
  induction s using Schema.induction with
  | step s ih =>
      rw [isRelaxed_iff, everywhere_iff]
      exact and_congr_right fun _ => forall₂_congr ih

theorem required_join (found : List Schema) : (join found).required = none := by
  unfold join
  dsimp only
  split <;> rfl

/-- No node that is built has requirements. -/
theorem keptByInference_required (ho : o.noRequired) :
    KeptByInference o fun s => s.required = none where
  tag _ := rfl
  container _ _ _ := rfl
  object _ _ _ _ := by
    rw [mergeRequired, if_pos ho]
    rfl
  join found _ _ := required_join found
  bare _ _ _ := rfl
  record _ := by
    rw [if_pos ho]
    rfl

/-- Merging relaxed schemas without requirements gives a relaxed one. -/
theorem isRelaxed_of_merge (ho : o.noRequired) {xs : List Schema} {m : Schema}
    (hxs : ∀ x ∈ xs, x.isRelaxed) (h : merge o xs = .ok m) : m.isRelaxed := by
  simp only [isRelaxed_iff_everywhere] at hxs ⊢
  exact .of_merge (keptByInference_required ho).toKeptByMerging xs hxs m h

/-- Nothing is required of what is inferred without requirements. -/
theorem isRelaxed_of_infer (ho : o.noRequired) {v : Sample} {s : Schema}
    (h : infer o v = .ok s) : s.isRelaxed :=
  (isRelaxed_iff_everywhere s).2 (.of_infer (keptByInference_required ho) h)

/-! ### What is taken over -/

/-- What is taken over is taken from something. -/
theorem Kept.ne_nil {xs : List Schema} {f : Schema} (h : Kept xs f) : xs ≠ [] := by
  induction h with
  | leaf _ h =>
      rintro rfl
      cases h
  | items _ _ ih =>
      rintro rfl
      exact ih rfl
  | only h =>
      rintro rfl
      cases h
  | property _ _ ih =>
      rintro rfl
      exact ih rfl

variable {P : Schema → Prop}

/-- What the items of some fragments become is in the merge. -/
theorem exists_items_of_merge (hP : KeptByMerging o P) {xs : List Schema} {m : Schema}
    (hm : merge o xs = .ok m) (hall : m.Everywhere P) {tag : Tag} (ht : tag = .array ∨ tag = .map)
    (hfs : itemFragments (tagged tag (absorb (allFragments xs))) ≠ []) :
    ∃ c, merge o (itemFragments (tagged tag (absorb (allFragments xs)))) = .ok c ∧
      c.Everywhere P := by
  have hb : tagged tag (absorb (allFragments xs)) ≠ [] := by
    intro hnil
    rw [hnil] at hfs
    exact hfs rfl
  rcases exists_of_merge_ok hm with ⟨r, hr, -, -⟩
  have hreduce := hr tag
  rw [reduce_container ht hb, mergeItems_of_ne_nil hfs] at hreduce
  rcases bind_eq_ok_iff.1 hreduce with ⟨items, hitems, hs⟩
  rcases bind_eq_ok_iff.1 hitems with ⟨c, hc, h⟩
  cases h
  have hcontainer := (everywhere_merge_iff hP hm).1 hall tag _ ((hr tag).trans hs.symm)
  exact ⟨c, hc, (everywhere_container_iff.1 hcontainer).2 c rfl⟩

/-- What the fragments of a property become is in the merge. -/
theorem exists_property_of_merge (hP : KeptByMerging o P) {xs : List Schema} {m : Schema}
    (hm : merge o xs = .ok m) (hall : m.Everywhere P) {name : String}
    (hfs : propertyFragments name (tagged .object (absorb (allFragments xs))) ≠ []) :
    ∃ p, mergeProperty o (propertyFragments name (tagged .object (absorb (allFragments xs)))) =
      .ok p ∧ p.Everywhere P := by
  -- A name that no object uses has no fragments.
  have hname := fun hnot => hfs (propertyFragments_eq_nil hnot)
  rw [imp_false, not_not] at hname
  have hb : tagged .object (absorb (allFragments xs)) ≠ [] := by
    intro hnil
    rw [hnil] at hfs
    exact hfs rfl
  rcases exists_of_merge_ok hm with ⟨r, hr, -, -⟩
  have hreduce := hr .object
  rw [reduce_object hb] at hreduce
  rcases bind_eq_ok_iff.1 hreduce with ⟨properties, hproperties, hs⟩
  have hobject := (everywhere_merge_iff hP hm).1 hall .object _ ((hr .object).trans hs.symm)
  rcases get?_of_mergeProperties hproperties hname with ⟨p, hget, hp⟩
  exact ⟨p, hp, (everywhere_object_iff.1 hobject).2 name p hget⟩

/-- What is taken over is in the merge, by induction along the way to it. -/
theorem Kept.everywhere (hP : KeptByMerging o P) {xs : List Schema} {f : Schema}
    (h : Kept xs f) : ∀ m, merge o xs = .ok m → m.Everywhere P → f.Everywhere P := by
  induction h with
  | @leaf xs tag f ht hhead =>
      intro m hm hall
      refine (everywhere_merge_iff hP hm).1 hall tag f ?_
      rw [reduce_leaf ht, hhead]
  | items ht hkept ih =>
      intro m hm hall
      rcases exists_items_of_merge hP hm hall ht hkept.ne_nil with ⟨c, hc, hin⟩
      exact ih c hc hin
  | @only xs name f hone =>
      intro m hm hall
      rcases exists_property_of_merge hP hm hall (hone ▸ List.cons_ne_nil f []) with ⟨p, hp, hin⟩
      rw [hone] at hp
      cases hp
      exact hin
  | property hmany hkept ih =>
      intro m hm hall
      rcases exists_property_of_merge hP hm hall hkept.ne_nil with ⟨p, hp, hin⟩
      rw [mergeProperty_of_ne_singleton hmany] at hp
      exact ih p hp hin

/-- A merge without requirements is relaxed as soon as all that it takes over
    is, by induction along the calls of a merge to itself. -/
theorem isRelaxed_merge_of_kept (ho : o.noRequired) (xs : List Schema) :
    (∀ f, Kept xs f → f.isRelaxed) → ∀ m, merge o xs = .ok m → m.isRelaxed := by
  have hP := (keptByInference_required ho).toKeptByMerging
  simp only [isRelaxed_iff_everywhere]
  induction xs using merge_induction with
  | step xs ihItems ihProperties =>
      intro hkept m hm
      refine (everywhere_merge_iff hP hm).2 fun tag s hreduce => ?_
      have hb := ne_nil_of_reduce hreduce
      rcases reduce_cases hreduce with ⟨ht, hhead⟩ | ⟨ht, items, hitems, rfl⟩ |
        ⟨rfl, properties, hproperties, rfl⟩
      -- What is not taken over is built without requirements.
      · exact hkept s (.leaf ht hhead)
      · refine everywhere_container_iff.2 ⟨rfl, ?_⟩
        rintro c rfl
        exact ihItems tag hb (fun f hf => hkept f (.items ht hf)) c (merge_of_mergeItems hitems)
      · refine everywhere_object_iff.2 ⟨?_, fun name p hget => ?_⟩
        · rw [mergeRequired, if_pos ho]
          rfl
        · rcases mergeProperty_cases (mergeProperty_of_get? hproperties hget) with
            hone | ⟨hmany, hp⟩
          · exact hkept p (.only hone)
          · exact ihProperties .object name hb (fun f hf => hkept f (.property hmany hf)) p hp

/-- A merge without requirements is relaxed exactly when the fragments that it
    takes over unmerged are. A schema that is widened is merged with what the
    sample infers to, which is relaxed. -/
theorem isRelaxed_merge_iff (o : MergeOptions) (ho : o.noRequired) :
    (∀ xs m, merge o xs = .ok m → (m.isRelaxed ↔ ∀ f, Kept xs f → f.isRelaxed)) ∧
      ∀ s v m, extend o s v = .ok m →
        ∃ t, infer o v = .ok t ∧ t.isRelaxed ∧
          (m.isRelaxed ↔ ∀ f, Kept [s, t] f → f.isRelaxed) := by
  have hmerge : ∀ xs m, merge o xs = .ok m →
      (m.isRelaxed ↔ ∀ f, Kept xs f → f.isRelaxed) := by
    intro xs m hm
    constructor
    · intro hall f hf
      rw [isRelaxed_iff_everywhere] at hall ⊢
      exact hf.everywhere (keptByInference_required ho).toKeptByMerging m hm hall
    · intro hkept
      exact isRelaxed_merge_of_kept ho xs hkept m hm
  refine ⟨hmerge, fun s v m hm => ?_⟩
  rcases bind_eq_ok_iff.1 hm with ⟨t, ht, hm⟩
  exact ⟨t, ht, isRelaxed_of_infer ho ht, hmerge [s, t] m (merge_of_mergeInferred hm)⟩

/-- An object with requirements, as the only fragment of a property, is still
    there when the object around it has been merged alone, and when that has
    been widened by a sample without the property. -/
theorem isRelaxed_merge_iff_lone :
    (∃ m, merge { noRequired := true }
      [object (.ofList [("a", object (.ofList [("b", ofTag .integer)]) (some ["b"]))])
        (some ["a"])] = .ok m ∧ ¬ m.isRelaxed) ∧
    ∃ m, extend { noRequired := true }
      (object (.ofList [("a", object (.ofList [("b", ofTag .integer)]) (some ["b"]))])
        (some ["a"])) (.object (.ofList [("c", .null)])) = .ok m ∧ ¬ m.isRelaxed := by
  have hmerge : merge { noRequired := true }
      [object (.ofList [("a", object (.ofList [("b", ofTag .integer)]) (some ["b"]))])
        (some ["a"])] =
      .ok (object (.ofList [("a", object (.ofList [("b", ofTag .integer)]) (some ["b"]))])
        none) := by
    cbv
  have hextend : extend { noRequired := true }
      (object (.ofList [("a", object (.ofList [("b", ofTag .integer)]) (some ["b"]))])
        (some ["a"])) (.object (.ofList [("c", .null)])) =
      .ok (object (.ofList [("a", object (.ofList [("b", ofTag .integer)]) (some ["b"])),
        ("c", ofTag .null)]) none) := by
    cbv
  have hinner : ¬ (object (.ofList [("b", ofTag .integer)]) (some ["b"])).isRelaxed := by
    rw [isRelaxed_iff]
    exact fun h => absurd h.1 (Option.some_ne_none _)
  refine ⟨⟨_, hmerge, fun h => hinner ?_⟩, _, hextend, fun h => hinner ?_⟩
  · refine ((isRelaxed_merge_iff { noRequired := true } rfl).1 _ _ hmerge).1 h _ ?_
    exact @Kept.only _ "a" _ (by cbv)
  · rcases (isRelaxed_merge_iff { noRequired := true } rfl).2 _ _ _ hextend with ⟨t, ht, -, hiff⟩
    have hinfer : infer { noRequired := true } (.object (.ofList [("c", .null)])) =
        .ok (object (.ofList [("c", ofTag .null)]) none) := by
      cbv
    rw [hinfer] at ht
    cases ht
    exact hiff.1 h _ (@Kept.only _ "a" _ (by cbv))

end Schema

end SampleSchema
