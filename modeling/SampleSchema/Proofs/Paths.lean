import SampleSchema.Proofs.Blocks

/-!
# Merging Seen from a Path

What a merge says at any depth, compared with what was merged.

A path goes from a schema to what is inside it: to a property of its objects,
to the elements of its arrays, to the values of its maps. Fragments are what
it meets on the way. There may be several of them at every step, in several
alternatives and with several tags, so a path leads from a list of fragments
to a list of fragments, and a step takes what all fragments with its tag have
inside.

At the end of a path one may ask which tags there are, which names the objects
have, and which names all of them require. A merge answers as the merged
schemas together do, only that integers are gone where there are numbers.
Nothing of this needs a regular form, and samples do not come into it: type
lists may name containers, alternatives may be nested, and items may offer
nothing.

The reason is that a step out of a merge ends in one of two places. Either it
ends at a merge again, namely of what the same step finds in the merged
schemas, or it ends at exactly the fragments found there, since a property
that only one fragment describes is kept. In the first case the argument is
repeated, and in the second there is nothing left to compare.

## Main definitions

* `Schema.Step`: A step to what is inside.
* `Schema.inside`, `Schema.descend`: What is found after a step, or
  several.
* `Schema.fragmentsAt`, `Schema.tagsAt`, `Schema.objectsAt`: What a schema says
  at a path.
* `Schema.Condenses`: Some fragments say together what others do.

## Theorems

* `Schema.condenses_of_merge`: The fragments of a merge condense what was
  merged.
* `Schema.inside_of_merge`: Where a step out of a merge ends.
* `Schema.condenses_descend`: A merge condenses what was merged, at any depth.
* `Schema.exists_tagsAt_of_merge`: No tag is invented.
* `Schema.merge_exactAt`: The same, spelled out.
-/

namespace SampleSchema

namespace Schema

/-- A step from fragments to what is inside them. -/
inductive Step
  /-- To a property of the objects. -/
  | property (name : String)
  /-- To the elements of the arrays. -/
  | elements
  /-- To the values of the maps. -/
  | values

/-- What a step finds inside fragments. Only fragments with the tag of the step
    are asked. -/
def inside : Step → List Schema → List Schema
  | .property name, fs => propertyFragments name (tagged .object fs)
  | .elements, fs => itemFragments (tagged .array fs)
  | .values, fs => itemFragments (tagged .map fs)

/-- What is found inside fragments after several steps. -/
def descend : List Step → List Schema → List Schema
  | [], fs => fs
  | step :: path, fs => descend path (inside step fs)

/-- The fragments of a schema at a path. -/
def fragmentsAt (s : Schema) (path : List Step) : List Schema := descend path s.fragments

/-- The tags of a schema at a path. -/
def tagsAt (s : Schema) (path : List Step) : List Tag := (s.fragmentsAt path).filterMap tag?

/-- The objects of a schema at a path. -/
def objectsAt (s : Schema) (path : List Step) : List Schema := tagged .object (s.fragmentsAt path)

/-- Two ways to spell a property, and stray items beside a string. -/
example : (union [object (.ofList [("a", ofTags [.null, .int16])]) none,
    { ofTag .string with items := some (ofTag .null) }]).tagsAt [.property "a"] =
      [.null, .int16] := by cbv

variable {o : MergeOptions}

/-! ### Several schemas at once -/

theorem inside_append (step : Step) (fs gs : List Schema) :
    inside step (fs ++ gs) = inside step fs ++ inside step gs := by
  cases step with
  | property name => rw [inside, tagged_append, propertyFragments_append, inside, inside]
  | elements | values => rw [inside, tagged_append, itemFragments_append, inside, inside]

theorem inside_nil (step : Step) : inside step [] = [] := by cases step <;> rfl

theorem descend_append (path : List Step) (fs gs : List Schema) :
    descend path (fs ++ gs) = descend path fs ++ descend path gs := by
  induction path generalizing fs gs with
  | nil => rfl
  | cons step path ih => rw [descend, inside_append, ih, descend, descend]

theorem descend_nil (path : List Step) : descend path [] = [] := by
  induction path with
  | nil => rfl
  | cons step path ih => rw [descend, inside_nil, ih]

theorem descend_allFragments (path : List Step) (xs : List Schema) :
    descend path (allFragments xs) = xs.flatMap fun x => x.fragmentsAt path := by
  induction xs with
  | nil => exact descend_nil path
  | cons x xs ih => rw [allFragments_cons, descend_append, ih, List.flatMap_cons, fragmentsAt]

theorem mem_descend_allFragments {path : List Step} {xs : List Schema} {f : Schema} :
    f ∈ descend path (allFragments xs) ↔ ∃ x ∈ xs, f ∈ x.fragmentsAt path := by
  rw [descend_allFragments, List.mem_flatMap]

theorem mem_tagsAt_iff {s : Schema} {path : List Step} {tag : Tag} :
    tag ∈ s.tagsAt path ↔ ∃ f ∈ s.fragmentsAt path, f.tag? = some tag := List.mem_filterMap

theorem tagged_eq_nil_iff {tag : Tag} {fs : List Schema} :
    tagged tag fs = [] ↔ ¬ ∃ f ∈ fs, f.tag? = some tag := by
  rw [List.eq_nil_iff_forall_not_mem]
  simp only [mem_tagged_iff, not_exists]

theorem tagged_fragmentsAt_eq_nil_iff {s : Schema} {path : List Step} {tag : Tag} :
    tagged tag (s.fragmentsAt path) = [] ↔ tag ∉ s.tagsAt path := by
  rw [tagged_eq_nil_iff, mem_tagsAt_iff]

theorem tagged_descend_eq_nil_iff {path : List Step} {xs : List Schema} {tag : Tag} :
    tagged tag (descend path (allFragments xs)) = [] ↔ ¬ ∃ x ∈ xs, tag ∈ x.tagsAt path := by
  simp only [tagged_eq_nil_iff, mem_descend_allFragments, mem_tagsAt_iff]
  grind

/-- What a path finds in a fragment it finds in the schema. -/
theorem tagsAt_of_mem_fragments {s f : Schema} (hf : f ∈ s.fragments) {path : List Step} {tag : Tag}
    (h : tag ∈ f.tagsAt path) : tag ∈ s.tagsAt path := by
  rcases mem_tagsAt_iff.1 h with ⟨g, hg, htag⟩
  refine mem_tagsAt_iff.2 ⟨g, ?_, htag⟩
  rw [fragmentsAt, ← allFragments_fragments]
  exact mem_descend_allFragments.2 ⟨f, hf, hg⟩

/-- What a path finds inside the fragments for which a step asks it finds after
    that step. -/
theorem tagsAt_of_part {s f c : Schema} {step : Step} {part : Schema → Option Schema}
    {bucket : List Schema} (hstep : inside step s.fragments = allFragments (bucket.filterMap part))
    (hf : f ∈ bucket) (hc : part f = some c) {path : List Step} {tag : Tag}
    (h : tag ∈ c.tagsAt path) : tag ∈ s.tagsAt (step :: path) := by
  rcases mem_tagsAt_iff.1 h with ⟨g, hg, htag⟩
  refine mem_tagsAt_iff.2 ⟨g, ?_, htag⟩
  rw [fragmentsAt, descend, hstep]
  exact mem_descend_allFragments.2 ⟨c, List.mem_filterMap.2 ⟨f, hf, hc⟩, hg⟩

theorem exists_child_of_step {s g : Schema} {step : Step} {path : List Step}
    (h : g ∈ s.fragmentsAt (step :: path)) :
    ∃ f ∈ s.fragments, ∃ c ∈ f.children, g ∈ c.fragmentsAt path := by
  rw [fragmentsAt, descend] at h
  -- Each kind of step asks for a part, and every part of a fragment is inside it.
  cases step with
  | property name =>
      rcases mem_descend_allFragments.1 h with ⟨c, hc, hg⟩
      rcases List.mem_filterMap.1 hc with ⟨f, hf, hc⟩
      exact ⟨f, (mem_tagged_iff.1 hf).1, c, mem_children_of_property? hc, hg⟩
  | elements | values =>
      rcases mem_descend_allFragments.1 h with ⟨c, hc, hg⟩
      rcases List.mem_filterMap.1 hc with ⟨f, hf, hc⟩
      exact ⟨f, (mem_tagged_iff.1 hf).1, c, mem_children_of_items hc, hg⟩

/-! ### Condensing -/

/-- The fragments say together what the others do: they have the same tags,
    apart from integers beside numbers, and their objects have the same names
    and require the same names of all. -/
structure Condenses (o : MergeOptions) (found given : List Schema) : Prop where
  /-- The tags other than integer are the same. -/
  tags : ∀ tag, tag ≠ .integer → (tagged tag found = [] ↔ tagged tag given = [])
  /-- An integer has not been invented. -/
  integer : tagged .integer given = [] → tagged .integer found = []
  /-- Nor has one been lost, unless there is a number. -/
  covered : tagged .integer found = [] → tagged .number found = [] → tagged .integer given = []
  /-- The names of the objects are the same. -/
  names : ∀ name, name ∈ (tagged .object found).flatMap propertyNames ↔
    name ∈ (tagged .object given).flatMap propertyNames
  /-- So are the names that all objects require, if requirements are kept. -/
  required : ¬ o.noRequired → ∀ name, (∀ f ∈ tagged .object found, name ∈ f.requiredNames) ↔
    ∀ f ∈ tagged .object given, name ∈ f.requiredNames

theorem Condenses.refl (fs : List Schema) : Condenses o fs fs where
  tags _ _ := Iff.rfl
  integer h := h
  covered h _ := h
  names _ := Iff.rfl
  required _ _ := Iff.rfl

/-- What the objects among some fragments reduce to has their names, and
    requires what all of them require. -/
theorem object_of_reduce {bucket : List Schema} {r : Option Schema}
    (h : reduce o .object bucket = .ok r) :
    (∀ name, name ∈ r.toList.flatMap propertyNames ↔ name ∈ bucket.flatMap propertyNames) ∧
      (¬ o.noRequired → ∀ name, (∀ f ∈ r.toList, name ∈ f.requiredNames) ↔
        ∀ f ∈ bucket, name ∈ f.requiredNames) := by
  by_cases hb : bucket = []
  · rw [hb, reduce_nil] at h
    rw [hb, ← Except.ok.inj h]
    exact ⟨fun _ => Iff.rfl, fun _ _ => Iff.rfl⟩
  rw [reduce_object hb] at h
  rcases bind_eq_ok_iff.1 h with ⟨properties, hproperties, h⟩
  rw [← Except.ok.inj h, Option.toList_some]
  constructor
  · intro name
    rw [List.flatMap_singleton, propertyNames_object, Keyed.mem_keys_iff]
    by_cases hname : name ∈ bucket.flatMap propertyNames
    · rcases get?_of_mergeProperties hproperties hname with ⟨p, hget, _⟩
      exact ⟨fun _ => hname, fun _ => ⟨p, hget⟩⟩
    · rw [get?_of_mergeProperties_eq_none hproperties hname]
      simp only [reduceCtorEq, exists_false, hname]
  · intro ho name
    rw [List.forall_mem_singleton, requiredNames_object, mergeRequired, if_neg ho,
      Option.getD_some, mem_commonNames_iff (mt List.map_eq_nil_iff.1 hb), List.forall_mem_map]

/-- The fragments of a merge condense those of the merged schemas. -/
theorem condenses_of_merge {xs : List Schema} {m : Schema} (h : merge o xs = .ok m) :
    Condenses o m.fragments (allFragments xs) := by
  rcases exists_tagged_of_merge_ok h with ⟨r, hr, hfragments⟩
  -- A tag is there in the end if there was anything to reduce after integers were absorbed.
  have htags : ∀ tag, tagged tag m.fragments = [] ↔
      tagged tag (absorb (allFragments xs)) = [] := by
    intro tag
    rw [hfragments, Option.toList_eq_nil_iff, reduce_eq_none_iff (hr tag)]
  have hobject := hr .object
  rw [tagged_absorb_of_ne (by decide)] at hobject
  refine
    { tags := ?_, integer := ?_, covered := ?_
      names := by rw [hfragments]; exact (object_of_reduce hobject).1
      required := by rw [hfragments]; exact (object_of_reduce hobject).2 }
  · intro tag hne
    rw [htags, tagged_absorb_of_ne hne]
  · intro hnone
    rw [htags, tagged_absorb, hnone, ite_self]
  · -- Integers are only taken away where the merge has found a number.
    intro hinteger hnumber
    rw [htags, tagged_absorb_of_ne (by decide)] at hnumber
    rw [htags, tagged_absorb, if_neg fun hn => hn.2 hnumber] at hinteger
    exact hinteger

/-! ### Steps out of a merge -/

/-- A step ends at the same fragments in the merge as in the merged schemas, or
    at a merge of these. -/
def MergedInside (o : MergeOptions) (found given : List Schema) : Prop :=
  found = given ∨ ∃ m, merge o given = .ok m ∧ found = m.fragments

theorem mergedInside_items {tag : Tag} (ht : tag = .array ∨ tag = .map) {bucket : List Schema}
    {r : Option Schema} (h : reduce o tag bucket = .ok r) :
    MergedInside o (itemFragments r.toList) (itemFragments bucket) := by
  by_cases hb : bucket = []
  · rw [hb, reduce_nil] at h
    rw [hb, ← Except.ok.inj h]
    exact Or.inl rfl
  rw [reduce_container ht hb] at h
  rcases bind_eq_ok_iff.1 h with ⟨items, hitems, h⟩
  rw [← Except.ok.inj h, Option.toList_some, itemFragments_singleton, items_container]
  cases items with
  | none =>
      -- Items are left out only where nothing is offered.
      by_cases hnil : itemFragments bucket = []
      · rw [hnil]
        exact Or.inl rfl
      · rw [mergeItems_of_ne_nil hnil] at hitems
        rcases bind_eq_ok_iff.1 hitems with ⟨m, _, hm⟩
        cases hm
  | some c =>
      rw [Option.toList_some, allFragments_singleton]
      exact Or.inr ⟨c, merge_of_mergeItems hitems, rfl⟩

theorem mergedInside_property (name : String) {bucket : List Schema} {r : Option Schema}
    (h : reduce o .object bucket = .ok r) :
    MergedInside o (propertyFragments name r.toList) (propertyFragments name bucket) := by
  by_cases hb : bucket = []
  · rw [hb, reduce_nil] at h
    rw [hb, ← Except.ok.inj h]
    exact Or.inl rfl
  rw [reduce_object hb] at h
  rcases bind_eq_ok_iff.1 h with ⟨properties, hproperties, h⟩
  rw [← Except.ok.inj h, Option.toList_some, propertyFragments_singleton, property?_object]
  by_cases hname : name ∈ bucket.flatMap propertyNames
  · rcases get?_of_mergeProperties hproperties hname with ⟨p, hget, hp⟩
    rw [hget, Option.toList_some, allFragments_singleton]
    rcases mergeProperty_cases hp with hone | ⟨_, hmerge⟩
    · -- The only fragment has been kept, and it is its own fragment.
      have hmem : p ∈ propertyFragments name bucket := by
        rw [hone]
        exact List.mem_singleton_self p
      rw [(isAtomic_of_mem_allFragments hmem).fragments_eq, hone]
      exact Or.inl rfl
    · exact Or.inr ⟨p, hmerge, rfl⟩
  · -- A name that is not used leads nowhere, before the merge and after it.
    rw [get?_of_mergeProperties_eq_none hproperties hname, propertyFragments_eq_nil hname]
    exact Or.inl rfl

theorem inside_of_merge {xs : List Schema} {m : Schema} (h : merge o xs = .ok m) (step : Step) :
    MergedInside o (inside step m.fragments) (inside step (allFragments xs)) := by
  rcases exists_tagged_of_merge_ok h with ⟨r, hr, hfragments⟩
  -- No step goes through integers, so it does not matter here that they are absorbed.
  have hreduce : ∀ tag, tag ≠ .integer →
      reduce o tag (tagged tag (allFragments xs)) = .ok (r tag) := by
    intro tag hne
    rw [← tagged_absorb_of_ne hne]
    exact hr tag
  cases step with
  | property name =>
      rw [inside, inside, hfragments]
      exact mergedInside_property name (hreduce .object (by decide))
  | elements =>
      rw [inside, inside, hfragments]
      exact mergedInside_items (Or.inl rfl) (hreduce .array (by decide))
  | values =>
      rw [inside, inside, hfragments]
      exact mergedInside_items (Or.inr rfl) (hreduce .map (by decide))

theorem allFragments_inside (step : Step) (fs : List Schema) :
    allFragments (inside step fs) = inside step fs := by
  cases step with
  | property name => exact allFragments_allFragments _
  | elements | values => exact allFragments_allFragments _

/-- A merge condenses what was merged, at any depth. -/
theorem condenses_descend (path : List Step) {xs : List Schema} {m : Schema}
    (h : merge o xs = .ok m) :
    Condenses o (m.fragmentsAt path) (descend path (allFragments xs)) := by
  -- The induction is on the path: after a step there is a merge again, with one step less to go.
  induction path generalizing xs m with
  | nil => exact condenses_of_merge h
  | cons step path ih =>
      rw [fragmentsAt, descend, descend]
      rcases inside_of_merge h step with hsame | ⟨m', hm', hsame⟩
      · rw [hsame]
        exact .refl _
      · rw [hsame, ← allFragments_inside step (allFragments xs)]
        exact ih hm'

/-! ### What is said at a path -/

/-- No tag is invented, whatever the options are. -/
theorem exists_tagsAt_of_merge {xs : List Schema} {m : Schema} (h : merge o xs = .ok m)
    {path : List Step} {tag : Tag} (htag : tag ∈ m.tagsAt path) :
    ∃ x ∈ xs, tag ∈ x.tagsAt path := by
  have hcondenses := condenses_descend path h
  by_contra hnone
  rw [← tagged_descend_eq_nil_iff] at hnone
  refine tagged_fragmentsAt_eq_nil_iff.1 ?_ htag
  by_cases hinteger : tag = .integer
  · rw [hinteger] at hnone ⊢
    exact hcondenses.integer hnone
  · exact (hcondenses.tags tag hinteger).2 hnone

/-- At every path a merge has exactly the tags that some of the merged schemas
    have there, apart from integers where there are numbers, exactly their
    names, and exactly the requirements that all of them have. -/
theorem merge_exactAt (xs : List Schema) (m : Schema) (h : merge {} xs = .ok m)
    (path : List Step) :
    (∀ tag, tag ≠ .integer → (tag ∈ m.tagsAt path ↔ ∃ x ∈ xs, tag ∈ x.tagsAt path)) ∧
    (.integer ∈ m.tagsAt path → ∃ x ∈ xs, .integer ∈ x.tagsAt path) ∧
    ((∃ x ∈ xs, .integer ∈ x.tagsAt path) →
      .integer ∈ m.tagsAt path ∨ .number ∈ m.tagsAt path) ∧
    (∀ name, (∃ f ∈ m.objectsAt path, name ∈ f.propertyNames) ↔
      ∃ x ∈ xs, ∃ f ∈ x.objectsAt path, name ∈ f.propertyNames) ∧
    ∀ name, (∀ f ∈ m.objectsAt path, name ∈ f.requiredNames) ↔
      ∀ x ∈ xs, ∀ f ∈ x.objectsAt path, name ∈ f.requiredNames := by
  have hcondenses := condenses_descend path h
  have hobjects : ∀ f, f ∈ tagged .object (descend path (allFragments xs)) ↔
      ∃ x ∈ xs, f ∈ x.objectsAt path := by
    intro f
    simp only [objectsAt, mem_tagged_iff, mem_descend_allFragments]
    grind
  refine ⟨fun tag hne => ?_, exists_tagsAt_of_merge h, fun hinteger => ?_, fun name => ?_,
    fun name => ?_⟩
  · have htags := hcondenses.tags tag hne
    rw [tagged_fragmentsAt_eq_nil_iff, tagged_descend_eq_nil_iff] at htags
    exact not_iff_not.1 htags
  · -- If neither were there, no schema would have an integer.
    by_contra hnone
    rw [not_or, ← tagged_fragmentsAt_eq_nil_iff, ← tagged_fragmentsAt_eq_nil_iff] at hnone
    exact tagged_descend_eq_nil_iff.1 (hcondenses.covered hnone.1 hnone.2) hinteger
  · have hnames := hcondenses.names name
    simp only [List.mem_flatMap, hobjects] at hnames
    rw [objectsAt, hnames]
    grind
  · have hrequired := hcondenses.required Bool.false_ne_true name
    simp only [hobjects] at hrequired
    rw [objectsAt, hrequired]
    grind

/-- One schema knows of a fixed-width tag inside the rows and the other does
    not, one of them spells the rows as alternatives, and both require the
    number. -/
theorem merge_exactAt_rows :
    Tag.int16 ∈ (union [ofTag .null, object (.ofList [("rows", union [ofTag .null,
        container .array (some (object (.ofList [("id", ofTag .number), ("w", ofTag .int16)])
          (some ["id"])))])]) none]).tagsAt [.property "rows", .elements, .property "w"] ∧
      ∀ f ∈ (union [ofTag .null, object (.ofList [("rows", union [ofTag .null,
        container .array (some (object (.ofList [("id", ofTag .number), ("w", ofTag .int16)])
          (some ["id"])))])]) none]).objectsAt [.property "rows", .elements],
        "id" ∈ f.requiredNames := by
  have hmerge : merge {}
      [object (.ofList [("rows", container .array (some (object (.ofList [("id", ofTag .integer),
        ("w", ofTag .int16)]) (some ["w", "id"]))))]) (some ["rows"]),
        union [object (.ofList [("rows", union [container .array (some (object
          (.ofList [("id", ofTag .number)]) (some ["id"]))), ofTag .null])]) none, ofTag .null]] =
      .ok (union [ofTag .null, object (.ofList [("rows", union [ofTag .null,
        container .array (some (object (.ofList [("id", ofTag .number), ("w", ofTag .int16)])
          (some ["id"])))])]) none]) := by
    cbv
  constructor
  · exact ((merge_exactAt _ _ hmerge _).1 .int16 (by decide)).2
      ⟨_, List.mem_cons_self, of_decide_eq_true (by cbv)⟩
  · refine ((merge_exactAt _ _ hmerge _).2.2.2.2 "id").2 fun x hx f hf => ?_
    have hall : (x.objectsAt [.property "rows", .elements]).all
        fun f => f.requiredNames.contains "id" := by
      simp only [List.mem_cons, List.not_mem_nil, or_false] at hx
      rcases hx with rfl | rfl <;> cbv
    exact List.contains_iff_mem.1 (List.all_eq_true.1 hall f hf)

end Schema

end SampleSchema
