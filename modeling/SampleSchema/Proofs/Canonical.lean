import SampleSchema.Proofs.Reachable
import SampleSchema.Proofs.Totality
import SampleSchema.Schema.Identity

/-!
# Canonical Form

The form in which the library writes schemas.

A schema written by hand may combine the parts of a node in any way. One that
comes from samples may not. Each node has a type or alternatives, and never
both. A type list is a choice between several tags in their order. A union has
an entry for its bare tags, if there are any, and then an entry for each tag
about which more is said, again in order, so that no tag is found twice and no
union inside another. Items stand with arrays and maps, properties and
required names with objects, and whatever is there says something: it is not
empty, and the required names are names of properties, ascending.

The condition on a node is `CanonicalNode`, and a canonical schema has it at
every depth. Of the nodes that merging builds, the object is the only one that
has to look at what it was built from. What all of the merged objects require
is a part of the names each of them has, and the merge has all of these.

Canonical schemas offer a tag at every node, so they can be merged. Together
with the invariant this means that no order of inferring, widening, merging
and taking apart ever leads to a schema that the library then refuses.

## Main definitions

* `Schema.CanonicalType`, `Schema.CanonicalUnion`, `Schema.CanonicalNode`: The
  form of a type, of a union and of a node.
* `Schema.IsCanonical`: Every node has that form.

## Theorems

* `Schema.canonicalNode_object`, `Schema.canonicalNode_join`: The form of the
  nodes that are built.
* `Schema.keptByInference_canonicalNode`: Inference and merging keep it.
* `Schema.reachable_isCanonical`: Reachable schemas are canonical, and they can
  be merged.
-/

namespace SampleSchema

namespace Schema

/-- The tags that the type names. -/
def typeTags (s : Schema) : List Tag := (s.type.map TypeSpec.tags).getD []

/-- A type list is a choice between tags in their order, with no integer beside
    a number. -/
structure CanonicalList (tags : List Tag) : Prop where
  /-- There is a choice. -/
  two_le : 2 ≤ tags.length
  /-- The tags ascend. -/
  ascending : tags.Pairwise fun a b => a.index < b.index
  /-- A number leaves no integer beside it. -/
  absorbed : ¬ (Tag.integer ∈ tags ∧ Tag.number ∈ tags)

instance (tags : List Tag) : Decidable (CanonicalList tags) :=
  decidable_of_iff
    (2 ≤ tags.length ∧ tags.Pairwise (fun a b => a.index < b.index) ∧
      ¬ (Tag.integer ∈ tags ∧ Tag.number ∈ tags))
    ⟨fun ⟨h₁, h₂, h₃⟩ => ⟨h₁, h₂, h₃⟩, fun ⟨h₁, h₂, h₃⟩ => ⟨h₁, h₂, h₃⟩⟩

/-- A type is a single tag, or a list in canonical form. -/
def CanonicalType : TypeSpec → Prop
  | .single _ => True
  | .several tags => CanonicalList tags

instance : DecidablePred CanonicalType
  | .single _ => .isTrue trivial
  | .several tags => inferInstanceAs (Decidable (CanonicalList tags))

/-- A union has one entry for its bare tags at most, and then an entry for each
    tag about which more is said. -/
structure CanonicalUnion (alternatives : List Schema) : Prop where
  /-- There is a choice. -/
  two_le : 2 ≤ alternatives.length
  /-- Types come first. -/
  bare_first : alternatives =
    alternatives.filter isSimple ++ alternatives.filter fun a => !a.isSimple
  /-- There is one entry for them at most. -/
  one_bare : (alternatives.filter isSimple).length ≤ 1
  /-- The other entries have a single tag each. -/
  tagged : ∀ a ∈ alternatives.filter fun a => !a.isSimple, a.tag?.isSome
  /-- These tags ascend. -/
  ascending : ((alternatives.filter fun a => !a.isSimple).filterMap tag?).Pairwise
    fun a b => a.index < b.index
  /-- No tag occurs twice over all entries. -/
  nodup : (alternatives.flatMap typeTags).Nodup
  /-- No entry is a union again. -/
  flat : ∀ a ∈ alternatives, a.anyOf = none

instance (alternatives : List Schema) : Decidable (CanonicalUnion alternatives) :=
  decidable_of_iff
    (2 ≤ alternatives.length ∧
      alternatives =
        alternatives.filter isSimple ++ alternatives.filter (fun a => !a.isSimple) ∧
      (alternatives.filter isSimple).length ≤ 1 ∧
      (∀ a ∈ alternatives.filter (fun a => !a.isSimple), a.tag?.isSome) ∧
      ((alternatives.filter fun a => !a.isSimple).filterMap tag?).Pairwise
        (fun a b => a.index < b.index) ∧
      (alternatives.flatMap typeTags).Nodup ∧ ∀ a ∈ alternatives, a.anyOf = none)
    ⟨fun ⟨h₁, h₂, h₃, h₄, h₅, h₆, h₇⟩ => ⟨h₁, h₂, h₃, h₄, h₅, h₆, h₇⟩,
      fun ⟨h₁, h₂, h₃, h₄, h₅, h₆, h₇⟩ => ⟨h₁, h₂, h₃, h₄, h₅, h₆, h₇⟩⟩

/-- The form in which the library writes a node. -/
structure CanonicalNode (s : Schema) : Prop where
  /-- There is a type or there are alternatives, and not both. -/
  type_or_anyOf : s.type.isSome = s.anyOf.isNone
  /-- The type has canonical form. -/
  type : ∀ t, s.type = some t → CanonicalType t
  /-- So have the alternatives. -/
  union : ∀ alternatives, s.anyOf = some alternatives → CanonicalUnion alternatives
  /-- Items are those of an array or a map. -/
  items : s.items.isSome → s.tag? = some .array ∨ s.tag? = some .map
  /-- Properties are those of an object, and there are some. -/
  properties : ∀ r, s.properties = some r → s.tag? = some .object ∧ ¬ r.isEmpty
  /-- Required names are names of properties of an object, ascending, and there
      are some. -/
  required : ∀ names, s.required = some names → s.tag? = some .object ∧ names ≠ [] ∧
    names.Pairwise (· < ·) ∧ ∀ name ∈ names, name ∈ s.propertyNames

instance (s : Schema) : Decidable (CanonicalNode s) :=
  decidable_of_iff
    (s.type.isSome = s.anyOf.isNone ∧ (∀ t, s.type = some t → CanonicalType t) ∧
      (∀ alternatives, s.anyOf = some alternatives → CanonicalUnion alternatives) ∧
      (s.items.isSome → s.tag? = some .array ∨ s.tag? = some .map) ∧
      (∀ r, s.properties = some r → s.tag? = some .object ∧ ¬ r.isEmpty) ∧
      ∀ names, s.required = some names → s.tag? = some .object ∧ names ≠ [] ∧
        names.Pairwise (· < ·) ∧ ∀ name ∈ names, name ∈ s.propertyNames)
    ⟨fun ⟨h₁, h₂, h₃, h₄, h₅, h₆⟩ => ⟨h₁, h₂, h₃, h₄, h₅, h₆⟩,
      fun ⟨h₁, h₂, h₃, h₄, h₅, h₆⟩ => ⟨h₁, h₂, h₃, h₄, h₅, h₆⟩⟩

/-- Every node has the form in which the library writes it. -/
def IsCanonical (s : Schema) : Prop := s.Everywhere CanonicalNode

instance (s : Schema) : Decidable s.IsCanonical :=
  inferInstanceAs (Decidable (s.Everywhere CanonicalNode))

/-- The tags of a written schema need not be in order. -/
example : ¬ (union [ofTag .null, ofTags [.string, .boolean]]).IsCanonical :=
  of_decide_eq_false (by cbv)

variable {o : MergeOptions}

/-! ### Bare tags -/

/-- A node with a type, and without alternatives, has canonical form when the
    type has and the other parts go with it. -/
theorem canonicalNode_of_type {s : Schema} {t : TypeSpec} (htype : s.type = some t)
    (hanyOf : s.anyOf = none) (ht : CanonicalType t)
    (hitems : s.items.isSome → s.tag? = some .array ∨ s.tag? = some .map)
    (hproperties : ∀ r, s.properties = some r → s.tag? = some .object ∧ ¬ r.isEmpty)
    (hrequired : ∀ names, s.required = some names → s.tag? = some .object ∧ names ≠ [] ∧
      names.Pairwise (· < ·) ∧ ∀ name ∈ names, name ∈ s.propertyNames) :
    CanonicalNode s where
  type_or_anyOf := by
    rw [htype, hanyOf]
    rfl
  type := by
    intro u hu
    rw [htype] at hu
    cases hu
    exact ht
  union := by
    intro alternatives h
    rw [hanyOf] at h
    cases h
  items := hitems
  properties := hproperties
  required := hrequired

/-- A type with one tag, or with several in canonical form, makes a node. -/
theorem canonicalNode_ofTags {tags : List Tag} (h : tags.length = 1 ∨ CanonicalList tags) :
    CanonicalNode (ofTags tags) := by
  have htype : CanonicalType (TypeSpec.ofTags tags) := by
    -- One tag is written as that tag, and only several make a list.
    unfold TypeSpec.ofTags
    split
    · trivial
    · next hmany =>
        rcases h with hone | hlist
        · rcases List.length_eq_one_iff.1 hone with ⟨tag, rfl⟩
          exact absurd rfl (hmany tag)
        · exact hlist
  refine canonicalNode_of_type rfl rfl htype ?_ ?_ ?_
  · intro hitems
    cases hitems
  · intro r hr
    cases hr
  · intro names hnames
    cases hnames

theorem typeTags_ofTags (tags : List Tag) : (ofTags tags).typeTags = tags := by
  unfold typeTags ofTags TypeSpec.ofTags
  split <;> rfl

theorem typeTags_of_tag {s : Schema} {tag : Tag} (h : s.tag? = some tag) : s.typeTags = [tag] := by
  rw [typeTags, tag?_eq_some_iff.1 h]
  rfl

theorem InOrder.canonicalNode_bare {found : List Schema} (h : InOrder found)
    (hne : bareTags found ≠ []) : CanonicalNode (ofTags (bareTags found)) := by
  have hsub : (bareTags found).Sublist (found.filterMap tag?) :=
    List.filter_sublist.filterMap tag?
  refine canonicalNode_ofTags ?_
  by_cases hone : (bareTags found).length = 1
  · exact Or.inl hone
  · have hpos := List.length_pos_iff.2 hne
    refine Or.inr ⟨by omega, h.ascending.sublist hsub, ?_⟩
    rintro ⟨hinteger, hnumber⟩
    exact h.absorbed ⟨hsub.subset hinteger, hsub.subset hnumber⟩

/-! ### Unions -/

/-- The entry for the bare tags, if there are any. -/
def bareEntry (found : List Schema) : List Schema :=
  if (bareTags found).isEmpty then [] else [ofTags (bareTags found)]

theorem flatMap_typeTags_bareEntry (found : List Schema) :
    (bareEntry found).flatMap typeTags = bareTags found := by
  unfold bareEntry
  by_cases hempty : (bareTags found).isEmpty
  · rw [if_pos hempty, List.isEmpty_iff.1 hempty]
    rfl
  · rw [if_neg hempty, List.flatMap_singleton, typeTags_ofTags]

theorem mem_bareEntry {found : List Schema} {a : Schema} (h : a ∈ bareEntry found) :
    a = ofTags (bareTags found) := by
  unfold bareEntry at h
  split at h
  · cases h
  · exact List.mem_singleton.1 h

namespace InOrder

variable {found : List Schema}

theorem flatMap_typeTags_structured (h : InOrder found) :
    (found.filter fun a => !a.isSimple).flatMap typeTags =
      (found.filter fun a => !a.isSimple).filterMap tag? := by
  rw [List.filterMap_eq_flatMap_toList]
  refine List.flatMap_congr fun a ha => ?_
  rcases h.isOf a (List.mem_filter.1 ha).1 with ⟨tag, hof⟩
  rw [typeTags_of_tag hof.2, hof.2]
  rfl

/-- The alternatives that are joined to a union have canonical form. -/
theorem canonicalUnion (h : InOrder found) (hlength : 2 ≤ found.length)
    (hothers : (found.filter fun a => !a.isSimple) ≠ []) :
    CanonicalUnion (bareEntry found ++ found.filter fun a => !a.isSimple) := by
  have hentry : ∀ a ∈ bareEntry found, a.isSimple := by
    intro a ha
    rw [mem_bareEntry ha]
    rfl
  have hother : ∀ a ∈ found.filter fun a => !a.isSimple, ¬ a.isSimple := by
    intro a ha hsimple
    have := (List.mem_filter.1 ha).2
    rw [hsimple] at this
    cases this
  have hbare : (bareEntry found ++ found.filter fun a => !a.isSimple).filter isSimple =
      bareEntry found := by
    rw [List.filter_append, List.filter_eq_self.2 hentry, List.filter_eq_nil_iff.2 hother,
      List.append_nil]
  have hstructured : ((bareEntry found ++ found.filter fun a => !a.isSimple).filter
      fun a => !a.isSimple) = found.filter fun a => !a.isSimple := by
    have hnone : ((bareEntry found).filter fun a => !a.isSimple) = [] := by
      refine List.filter_eq_nil_iff.2 fun a ha hnot => ?_
      rw [hentry a ha] at hnot
      cases hnot
    rw [List.filter_append, hnone, List.nil_append, List.filter_filter]
    simp only [Bool.and_self]
  have hsplit := List.filter_append_perm isSimple found
  refine
    { two_le := ?_
      bare_first := by rw [hbare, hstructured]
      one_bare := ?_
      tagged := ?_
      ascending := ?_
      nodup := ?_
      flat := ?_ }
  · -- Without an entry for bare tags all of the fragments are there.
    have hpos := List.length_pos_iff.2 hothers
    unfold bareEntry
    by_cases hempty : (bareTags found).isEmpty
    · have hnil : found.filter isSimple = [] := by
        rw [← h.map_ofTag_bareTags, List.isEmpty_iff.1 hempty]
        rfl
      rw [hnil, List.nil_append] at hsplit
      rw [if_pos hempty, List.nil_append, hsplit.length_eq]
      exact hlength
    · rw [if_neg hempty, List.length_append, List.length_singleton]
      omega
  · rw [hbare]
    unfold bareEntry
    split
    · exact Nat.zero_le 1
    · exact Nat.le_refl 1
  · rw [hstructured]
    intro a ha
    rcases h.isOf a (List.mem_filter.1 ha).1 with ⟨tag, hof⟩
    rw [hof.2]
    rfl
  · rw [hstructured]
    exact h.ascending.sublist (List.filter_sublist.filterMap tag?)
  · rw [List.flatMap_append, flatMap_typeTags_bareEntry, h.flatMap_typeTags_structured, bareTags,
      ← List.filterMap_append]
    exact (hsplit.filterMap tag?).nodup_iff.2 h.nodup
  · intro a ha
    rcases List.mem_append.1 ha with ha | ha
    · rw [mem_bareEntry ha]
      rfl
    · rcases h.isOf a (List.mem_filter.1 ha).1 with ⟨tag, hof⟩
      exact hof.1

/-- What several fragments are joined to is a type list or a union in canonical
    form. -/
theorem canonicalNode_join (h : InOrder found) (hlength : 2 ≤ found.length) :
    CanonicalNode (join found) := by
  rw [h.join_eq]
  by_cases hothers : (found.filter fun a => !a.isSimple).isEmpty
  · -- Only bare tags were found. With none of them nothing would have been found.
    rw [if_pos hothers]
    refine h.canonicalNode_bare fun hnil => ?_
    have hall := List.filter_append_perm isSimple found
    rw [List.isEmpty_iff.1 hothers, ← h.map_ofTag_bareTags, hnil] at hall
    rw [← hall.length_eq] at hlength
    cases hlength
  · rw [if_neg hothers]
    exact
      { type_or_anyOf := rfl
        type := by
          intro t htype
          cases htype
        union := by
          intro alternatives halternatives
          cases halternatives
          exact h.canonicalUnion hlength (mt List.isEmpty_iff.2 hothers)
        items := by
          intro hitems
          cases hitems
        properties := by
          intro r hr
          cases hr
        required := by
          intro names hnames
          cases hnames }

end InOrder

/-! ### Containers and objects -/

theorem canonicalNode_container {tag : Tag} (ht : tag = .array ∨ tag = .map)
    (items : Option Schema) : CanonicalNode (container tag items) := by
  refine canonicalNode_of_type (t := .single tag) rfl rfl trivial ?_ ?_ ?_
  · intro _
    rcases ht with rfl | rfl
    · exact Or.inl rfl
    · exact Or.inr rfl
  · intro r hr
    cases hr
  · intro names hnames
    cases hnames

/-- An object is canonical when its required names ascend and are names of its
    properties. -/
theorem canonicalNode_object {properties : Keyed Schema} {required : Option (List String)}
    (hascending : (required.getD []).Pairwise (· < ·))
    (hnames : ∀ name ∈ required.getD [], name ∈ properties.keys) :
    CanonicalNode (object properties required) := by
  refine canonicalNode_of_type (t := .single .object) rfl rfl trivial ?_ ?_ ?_
  · intro h
    cases h
  · intro r hr
    refine ⟨rfl, ?_⟩
    simp only [object, Option.ite_none_left_eq_some, Option.some.injEq] at hr
    rw [← hr.2]
    exact hr.1
  · intro names hreq
    simp only [object, Option.filter_eq_some_iff, Bool.not_eq_true', List.isEmpty_eq_false_iff]
      at hreq
    rcases hreq with ⟨rfl, hne⟩
    refine ⟨rfl, hne, hascending, fun name hname => ?_⟩
    rw [propertyNames_object]
    exact hnames name hname

theorem CanonicalNode.pairwise_requiredNames {s : Schema} (h : CanonicalNode s) :
    s.requiredNames.Pairwise (· < ·) := by
  unfold requiredNames
  cases hr : s.required with
  | none => exact List.Pairwise.nil
  | some names => exact (h.required names hr).2.2.1

theorem CanonicalNode.requiredNames_subset {s : Schema} (h : CanonicalNode s) :
    ∀ name ∈ s.requiredNames, name ∈ s.propertyNames := by
  unfold requiredNames
  cases hr : s.required with
  | none => exact fun name hname => absurd hname List.not_mem_nil
  | some names => exact (h.required names hr).2.2.2

/-- Canonical objects merge to one: a name that all of them require is a
    property of the first, so the merge has it. -/
theorem canonicalNode_mergedObject {bucket : List Schema} {properties : Keyed Schema}
    (hbucket : ∀ f ∈ bucket, CanonicalNode f)
    (h : mergeProperties o bucket = .ok properties) :
    CanonicalNode (object properties (mergeRequired o bucket)) := by
  unfold mergeRequired
  by_cases ho : o.noRequired
  · rw [if_pos ho]
    exact canonicalNode_object List.Pairwise.nil fun name hname => absurd hname List.not_mem_nil
  · rw [if_neg ho]
    refine canonicalNode_object (pairwise_commonNames fun names hnames => ?_) fun name hname => ?_
    · rcases List.mem_map.1 hnames with ⟨f, hf, rfl⟩
      exact (hbucket f hf).pairwise_requiredNames
    · rw [Option.getD_some] at hname
      cases bucket with
      | nil => exact absurd hname List.not_mem_nil
      | cons f fs =>
          -- What is required of the merge is required of its first object, and so it is there.
          have hshared := (mem_commonNames_iff (List.cons_ne_nil _ _)).1 hname f.requiredNames
            List.mem_cons_self
          have hused := (hbucket f List.mem_cons_self).requiredNames_subset name hshared
          rcases get?_of_mergeProperties h
            (List.mem_flatMap.2 ⟨f, List.mem_cons_self, hused⟩) with ⟨p, hp, _⟩
          exact Keyed.mem_keys_iff.2 ⟨p, hp⟩

/-! ### Everything reachable -/

/-- Inference and merging build canonical nodes. -/
theorem keptByInference_canonicalNode (o : MergeOptions) : KeptByInference o CanonicalNode where
  tag tag := canonicalNode_ofTags (Or.inl (List.length_singleton (a := tag)))
  container _ items ht := canonicalNode_container ht items
  object _ _ hbucket h := canonicalNode_mergedObject (fun f hf => (hbucket f hf).2) h
  join _ hfound hlength := hfound.canonicalNode_join hlength
  bare _ hfound hne := hfound.canonicalNode_bare hne
  record properties := by
    by_cases ho : o.noRequired
    · rw [if_pos ho]
      exact canonicalNode_object List.Pairwise.nil fun name hname => absurd hname List.not_mem_nil
    · rw [if_neg ho]
      exact canonicalNode_object (Keyed.pairwise_keys properties) fun _ hname => hname

theorem CanonicalNode.offersTag {s : Schema} (h : CanonicalNode s) : OffersTag s := by
  refine ⟨fun alternatives ha hnil => ?_, fun ha => ?_⟩
  · have hlength := (h.union alternatives ha).two_le
    rw [hnil] at hlength
    cases hlength
  · have htype := h.type_or_anyOf
    rw [ha] at htype
    rcases Option.isSome_iff_exists.1 htype with ⟨t, ht⟩
    refine ⟨t, ht, fun hnil => ?_⟩
    cases t with
    | single tag => cases hnil
    | several tags =>
        have hlist : CanonicalList tags := h.type _ ht
        have hlength := hlist.two_le
        change tags = [] at hnil
        rw [hnil] at hlength
        cases hlength

/-- Whatever is obtained from samples is canonical at every depth, and such
    schemas can always be merged. -/
theorem reachable_isCanonical :
    (∀ s, Reachable s → s.IsCanonical) ∧
      ∀ o xs, xs ≠ [] → (∀ x ∈ xs, Reachable x) → ∃ m, merge o xs = .ok m := by
  have hcanonical : ∀ s, Reachable s → s.IsCanonical :=
    fun s hs => hs.everywhere keptByInference_canonicalNode
  refine ⟨hcanonical, fun o xs hne hxs => exists_merge_ok o xs hne fun x hx => ?_⟩
  exact (hcanonical x (hxs x hx)).imp fun _ h => h.offersTag

/-- The schema of an object, widened by a second one under the other option,
    and its merge with the schema of its own items. -/
theorem reachable_isCanonical_widened :
    (object (.ofList [("id", ofTags [.null, .integer]),
        ("tags", container .array (some (ofTag .string)))]) none).IsCanonical ∧
      ∃ m, merge {} [object (.ofList [("id", ofTags [.null, .integer]),
        ("tags", container .array (some (ofTag .string)))]) none, ofTag .string] = .ok m := by
  have hwidened : Reachable (object (.ofList [("id", ofTags [.null, .integer]),
      ("tags", container .array (some (ofTag .string)))]) none) := by
    have hfirst := Reachable.infer {} (v := .object (.ofList [("id", .int 1), ("tags", .list [])]))
      (s := _) (by cbv)
    refine .extend { noRequired := true } hfirst
      (v := .object (.ofList [("id", .null), ("tags", .list [.string "a"])])) ?_
    cbv
  have hstring : Reachable (ofTag .string) :=
    .items (@Reachable.property _ _ "tags" hwidened (by cbv)) (by cbv)
  refine ⟨reachable_isCanonical.1 _ hwidened,
    reachable_isCanonical.2 {} _ (List.cons_ne_nil _ _) ?_⟩
  intro x hx
  rcases List.mem_cons.1 hx with rfl | hx
  · exact hwidened
  · rw [List.mem_singleton.1 hx]
    exact hstring

end Schema

end SampleSchema
