import SampleSchema.Proofs.Exemplars
import SampleSchema.Proofs.Instances
import SampleSchema.Proofs.Requirements

/-!
# Merging Is Most Specific

A merge accepts no more than it has to.

That it accepts enough is the easy half. For the other half take any schema
that comes from samples and accepts whatever the merged schemas accept. Since
it has one fragment at most for each tag, each merged fragment must be within
the one with its own tag. This can be taken further inside, because samples
can be built to order. A list with one element tells that the items are within
the items, an object with one value exchanged that a property is within the
property, and an object with nothing but the required names that no other name
is required.

So all that a merge puts together under one tag, or under one name, lies
within the same place of the bounding schema, and then so does what it is
merged to. Only requirements can be given up without need, and they are under
the option to drop them. The merge is then most specific among the schemas
that have none.

## Main definitions

* `Schema.Within`: Every sample of one schema is one of another.
* `Schema.IsBound`: A schema that merges may be held against.

## Theorems

* `Schema.Within.exists_partner`, `Schema.Within.within_partner`: A fragment is
  within one with its tag.
* `Schema.Within.exists_items`, `Schema.Within.exists_property`,
  `Schema.Within.required_subset`: What that says of its parts.
* `Schema.staysWithin`: A merge is within every bound of what is merged.
* `Schema.merge_isLeast`: It is the most specific schema that covers them.
-/

namespace SampleSchema

namespace Schema

variable {o : MergeOptions}

/-- Every sample that the first schema accepts is accepted by the second. -/
def Within (s t : Schema) : Prop := ∀ v, s.accepts v → t.accepts v

theorem Within.trans {s t u : Schema} (h : Within s t) (h' : Within t u) : Within s u :=
  fun v hv => h' v (h v hv)

theorem IsCanonical.within_of_mem_fragments {s f : Schema} (h : s.IsCanonical)
    (hf : f ∈ s.fragments) : Within f s := fun v hv => (h.accepts_iff v).2 ⟨f, hf, hv⟩

/-- An array or map with one sample inside. -/
theorem exists_around {tag : Tag} (ht : tag = .array ∨ tag = .map) (e : Sample) :
    ∃ v : Sample, tag ∈ v.tags ∧
      ∀ s : Schema, s.fitsInside v ↔ ∃ c, s.items = some c ∧ c.accepts e := by
  rcases ht with rfl | rfl
  · refine ⟨.list [e], List.mem_singleton_self _, fun s => ?_⟩
    rw [fitsInside, List.forall_mem_singleton]
  · refine ⟨.map (Keyed.empty.insert "" e), List.mem_singleton_self _, fun s => ?_⟩
    have hvalues : (Keyed.empty.insert "" e).values = [e] := rfl
    rw [fitsInside, hvalues, List.forall_mem_singleton]

/-! ### Fragments within each other -/

namespace Within

variable {f g t : Schema} {tag : Tag}

/-- A fragment within a schema has a partner there with its tag, or one for
    numbers if it is for integers. -/
theorem exists_partner (h : Within f t) (hf : f.IsSampled) (hof : f.IsOf tag)
    (ht : t.IsCanonical) :
    ∃ g ∈ t.fragments, g.IsOf tag ∨ tag = .integer ∧ g.IsOf .number := by
  -- Whatever accepts a sample with the tag has this tag, or is for numbers.
  rcases hf.exists_accepts_of_isOf hof with ⟨v, hv, hfv⟩
  rcases (ht.accepts_iff v).1 (h v hfv) with ⟨g, hg, hgv⟩
  rcases ht.fragments_typed.2 g hg with ⟨tag', hgOf⟩
  refine ⟨g, hg, ?_⟩
  rcases Sample.eq_tag_of_mem_tags ((hgOf.accepts_iff v).1 hgv).1 with htag | ⟨hinteger, htag⟩
  · rw [htag, hv] at hgOf
    exact Or.inl hgOf
  · rw [hv] at hinteger
    rw [htag] at hgOf
    exact Or.inr ⟨hinteger, hgOf⟩

theorem exists_partner_of_isContainer (h : Within f t) (hf : f.IsSampled) (hof : f.IsOf tag)
    (ht : t.IsCanonical) (hcontainer : tag.isContainer) : ∃ g ∈ t.fragments, g.IsOf tag := by
  rcases h.exists_partner hf hof ht with ⟨g, hg, hgOf | ⟨rfl, _⟩⟩
  · exact ⟨g, hg, hgOf⟩
  · cases hcontainer

/-- A fragment within a schema is within its partner. -/
theorem within_partner (h : Within f t) (hof : f.IsOf tag) (ht : t.IsCanonical)
    (hg : g ∈ t.fragments) (hgOf : g.IsOf tag) : Within f g := by
  intro v hv
  rcases (hof.accepts_iff v).1 hv with ⟨htag, _⟩
  refine (hgOf.accepts_iff v).2 ⟨htag, ?_⟩
  by_cases hcontainer : tag.isContainer
  · -- The sample has no other tag, so no other fragment can be the one that accepts it.
    rcases (ht.accepts_iff v).1 (h v hv) with ⟨g', hg', hgv⟩
    rcases ht.fragments_typed.2 g' hg' with ⟨tag', hgOf'⟩
    rcases (hgOf'.accepts_iff v).1 hgv with ⟨htag', hfits⟩
    rw [Sample.tags_of_mem htag hcontainer, List.mem_singleton] at htag'
    rw [htag'] at hgOf'
    rw [ht.oneEach.eq_of_isOf hg hg' hgOf hgOf']
    exact hfits
  · exact fitsInside_of_leaf htag (eq_false_of_ne_true hcontainer) g

theorem fitsInside (h : Within f g) (hof : f.IsOf tag) (hgOf : g.IsOf tag) {v : Sample}
    (htag : tag ∈ v.tags) (hv : f.fitsInside v) : g.fitsInside v :=
  ((hgOf.accepts_iff v).1 (h v ((hof.accepts_iff v).2 ⟨htag, hv⟩))).2

/-- If each sample of a schema shows that there is a part to accept it, the
    schema is within that part. -/
theorem of_accepts {c : Schema} {part : Option Schema} (hne : ∃ e, c.accepts e)
    (h : ∀ e, c.accepts e → ∃ d, part = some d ∧ d.accepts e) :
    ∃ d, part = some d ∧ Within c d := by
  -- One sample is enough to know the part.
  rcases hne with ⟨e, he⟩
  rcases h e he with ⟨d, rfl, _⟩
  refine ⟨d, rfl, fun e he => ?_⟩
  rcases h e he with ⟨d', hd', he'⟩
  cases hd'
  exact he'

/-- The items are within the items: an element is tried in a list, or map, of
    its own. -/
theorem exists_items (h : Within f g) (hf : f.IsSampled) (hof : f.IsOf tag) (hgOf : g.IsOf tag)
    (ht : tag = .array ∨ tag = .map) {c : Schema} (hc : f.items = some c) :
    ∃ d, g.items = some d ∧ Within c d := by
  refine of_accepts (hf.of_child hof (mem_children_of_items hc)).exists_accepts fun e he => ?_
  rcases exists_around ht e with ⟨v, htag, hv⟩
  exact (hv g).1 (h.fitsInside hof hgOf htag ((hv f).2 ⟨c, hc, he⟩))

theorem exists_samples (hf : f.IsSampled) (hof : f.IsOf tag) :
    ∃ w : String → Sample, ∀ name c, f.property? name = some c → c.accepts (w name) :=
  Schema.exists_samples fun _ hc => (hf.of_child hof hc).exists_accepts

/-- A property is within the property: a value is tried in an object that is
    complete otherwise. -/
theorem exists_property (h : Within f g) (hf : f.IsSampled) (hof : f.IsOf .object)
    (hgOf : g.IsOf .object) {name : String} {c : Schema} (hc : f.property? name = some c) :
    ∃ d, g.property? name = some d ∧ Within c d := by
  rcases exists_samples hf hof with ⟨w, hw⟩
  refine of_accepts ⟨w name, hw name c hc⟩ fun e he => ?_
  have hobject : f.fitsInside
      (.object (Keyed.tabulate f.propertyNames (Function.update w name e))) := by
    refine fitsInside_tabulate (fun other hother => ?_) hf.canonical.here.requiredNames_subset
    by_cases hsame : other = name
    · rw [hsame, Function.update_self]
      exact ⟨c, hc, he⟩
    · rcases mem_propertyNames_iff.1 hother with ⟨d, hd⟩
      rw [Function.update_of_ne hsame]
      exact ⟨d, hd, hw other d hd⟩
  refine (h.fitsInside hof hgOf (List.mem_singleton_self _) hobject).1 name e ?_
  rw [Keyed.get?_tabulate, if_pos (mem_propertyNames_iff.2 ⟨c, hc⟩), Function.update_self]

/-- No name is required that the fragment does not require: an object is tried
    that has nothing else. -/
theorem required_subset (h : Within f g) (hf : f.IsSampled) (hof : f.IsOf .object)
    (hgOf : g.IsOf .object) : ∀ name ∈ g.requiredNames, name ∈ f.requiredNames := by
  intro name hname
  rcases exists_samples hf hof with ⟨w, hw⟩
  have hobject : f.fitsInside (.object (Keyed.tabulate f.requiredNames w)) := by
    refine fitsInside_tabulate (fun other hother => ?_) fun _ hother => hother
    rcases mem_propertyNames_iff.1
      (hf.canonical.here.requiredNames_subset other hother) with ⟨d, hd⟩
    exact ⟨d, hd, hw other d hd⟩
  rcases (h.fitsInside hof hgOf (List.mem_singleton_self _) hobject).2 name hname with ⟨e, he⟩
  rw [Keyed.get?_tabulate, Option.ite_none_right_eq_some] at he
  exact he.1

end Within

/-! ### Bounds -/

/-- A schema from samples that accepts whatever the given schemas, which are
    from samples too, accept. Where requirements are dropped it has none. -/
structure IsBound (o : MergeOptions) (xs : List Schema) (t : Schema) : Prop where
  /-- It comes from samples. -/
  sampled : t.IsSampled
  /-- It has no requirements where they are dropped. -/
  relaxed : o.noRequired → t.Everywhere fun u => u.required = none
  /-- The given schemas come from samples. -/
  members : ∀ x ∈ xs, x.IsSampled
  /-- They are within it. -/
  within : ∀ x ∈ xs, Within x t

/-- What these schemas are merged to is within every bound of theirs. -/
def StaysWithin (o : MergeOptions) (xs : List Schema) : Prop :=
  ∀ t m, IsBound o xs t → merge o xs = .ok m → Within m t

theorem ne_nil_of_merge_ok {xs : List Schema} {m : Schema} (h : merge o xs = .ok m) : xs ≠ [] := by
  rintro rfl
  exact (refusal?_eq_none_iff.1 (merge_eq_ok_iff.1 h).1).1 rfl

namespace IsBound

variable {xs bucket : List Schema} {t g : Schema} {tag : Tag}

theorem withTag (h : IsBound o xs t) (tag : Tag) :
    IsBound o (tagged tag (absorb (allFragments xs))) t := by
  have hmem : ∀ f ∈ tagged tag (absorb (allFragments xs)), ∃ x ∈ xs, f ∈ x.fragments :=
    fun f hf => List.mem_flatMap.1 (mem_of_mem_absorb (mem_tagged_iff.1 hf).1)
  refine ⟨h.sampled, h.relaxed, fun f hf => ?_, fun f hf => ?_⟩
  · rcases hmem f hf with ⟨x, hx, hf⟩
    exact (h.members x hx).of_mem_fragments hf
  · rcases hmem f hf with ⟨x, hx, hf⟩
    exact ((h.members x hx).canonical.within_of_mem_fragments hf).trans (h.within x hx)

/-- Arrays, maps or objects have a single fragment of the bound as their
    bound. -/
theorem exists_partner (h : IsBound o bucket t) (hne : bucket ≠ [])
    (hof : ∀ f ∈ bucket, f.IsOf tag) (hcontainer : tag.isContainer) :
    ∃ g ∈ t.fragments, g.IsOf tag ∧ IsBound o bucket g := by
  -- Any of them leads to the fragment, and the others are within the same one.
  rcases List.exists_mem_of_ne_nil _ hne with ⟨f, hf⟩
  rcases (h.within f hf).exists_partner_of_isContainer (h.members f hf) (hof f hf)
    h.sampled.canonical hcontainer with ⟨g, hg, hgOf⟩
  refine ⟨g, hg, hgOf, h.sampled.of_mem_fragments hg, fun ho => ?_, h.members, fun f hf => ?_⟩
  · exact (h.relaxed ho).of_mem_fragments (fun _ => rfl) g hg
  · exact (h.within f hf).within_partner (hof f hf) h.sampled.canonical hg hgOf

/-- Where the parts of some fragments are within that part of their bound, it
    is a bound of what is merged there. -/
theorem parts {part : Schema → Option Schema} (hpart : ∀ {f c}, part f = some c → c ∈ f.children)
    (h : IsBound o bucket g) (hof : ∀ f ∈ bucket, f.IsOf tag) (hgOf : g.IsOf tag)
    (hwithin : ∀ f ∈ bucket, ∀ c, part f = some c → ∃ d, part g = some d ∧ Within c d)
    (hne : allFragments (bucket.filterMap part) ≠ []) :
    ∃ d, part g = some d ∧ IsBound o (allFragments (bucket.filterMap part)) d := by
  rcases List.exists_mem_of_ne_nil _ hne with ⟨e, he⟩
  rcases mem_parts_iff.1 he with ⟨f, hf, c, hc, _⟩
  rcases hwithin f hf c hc with ⟨d, hd, _⟩
  have hsampled : ∀ f ∈ bucket, ∀ c, part f = some c → c.IsSampled :=
    fun f hf c hc => (h.members f hf).of_child (hof f hf) (hpart hc)
  refine ⟨d, hd, h.sampled.of_child hgOf (hpart hd), fun ho => ?_, fun e he => ?_, fun e he => ?_⟩
  · exact (h.relaxed ho).inside (hpart hd)
  · rcases mem_parts_iff.1 he with ⟨f, hf, c, hc, he⟩
    exact (hsampled f hf c hc).of_mem_fragments he
  · rcases mem_parts_iff.1 he with ⟨f, hf, c, hc, he⟩
    rcases hwithin f hf c hc with ⟨d', hd', hcd⟩
    rw [hd] at hd'
    cases hd'
    exact ((hsampled f hf c hc).canonical.within_of_mem_fragments he).trans hcd

/-! ### One tag -/

theorem fitsInside_items (ht : tag = .array ∨ tag = .map) (h : IsBound o bucket g)
    (hof : ∀ f ∈ bucket, f.IsOf tag) (hgOf : g.IsOf tag)
    (hinside : StaysWithin o (itemFragments bucket)) {items : Option Schema}
    (hitems : mergeItems o (itemFragments bucket) = .ok items) {v : Sample} (htag : tag ∈ v.tags)
    (hv : (container tag items).fitsInside v) : g.fitsInside v := by
  refine fitsInside_of_items ht htag ?_ hv
  rintro e ⟨c, hc, he⟩
  rw [items_container] at hc
  rw [hc] at hitems
  have hmerged := merge_of_mergeItems hitems
  have hwithin : ∀ f ∈ bucket, ∀ c, f.items = some c → ∃ d, g.items = some d ∧ Within c d :=
    fun f hf c hc => (h.within f hf).exists_items (h.members f hf) (hof f hf) hgOf ht hc
  rcases h.parts mem_children_of_items hof hgOf hwithin (ne_nil_of_merge_ok hmerged) with
    ⟨d, hd, hbound⟩
  exact ⟨d, hd, hinside d c hbound hmerged e he⟩

/-- What a property becomes is within that property of the bound. -/
theorem exists_property (h : IsBound o bucket g) (hof : ∀ f ∈ bucket, f.IsOf .object)
    (hgOf : g.IsOf .object) {name : String}
    (hinside : StaysWithin o (propertyFragments name bucket)) {p : Schema}
    (hp : mergeProperty o (propertyFragments name bucket) = .ok p) :
    ∃ d, g.property? name = some d ∧ Within p d := by
  have hwithin : ∀ f ∈ bucket, ∀ c, f.property? name = some c →
      ∃ d, g.property? name = some d ∧ Within c d :=
    fun f hf c hc => (h.within f hf).exists_property (h.members f hf) (hof f hf) hgOf hc
  have hbound := h.parts mem_children_of_property? hof hgOf hwithin
  rcases mergeProperty_cases hp with hone | ⟨_, hmerged⟩
  · -- A single fragment stays as it is, and it is within the bound.
    have hmem : p ∈ propertyFragments name bucket := by
      rw [hone]
      exact List.mem_singleton_self p
    rcases hbound (List.ne_nil_of_mem hmem) with ⟨d, hd, hbound⟩
    exact ⟨d, hd, hbound.within p hmem⟩
  · rcases hbound (ne_nil_of_merge_ok hmerged) with ⟨d, hd, hbound⟩
    exact ⟨d, hd, hinside d p hbound hmerged⟩

/-- A name that the bound requires is required of every fragment, and then of
    the merge. -/
theorem required_subset (h : IsBound o bucket g) (hne : bucket ≠ [])
    (hof : ∀ f ∈ bucket, f.IsOf .object) (hgOf : g.IsOf .object) :
    ∀ name ∈ g.requiredNames, name ∈ (mergeRequired o bucket).getD [] := by
  intro name hname
  rw [mergeRequired]
  by_cases ho : o.noRequired
  · rw [requiredNames, (h.relaxed ho).here] at hname
    cases hname
  · rw [if_neg ho, Option.getD_some, mem_commonNames_iff (mt List.map_eq_nil_iff.1 hne),
      List.forall_mem_map]
    intro f hf
    exact (h.within f hf).required_subset (h.members f hf) (hof f hf) hgOf name hname

theorem fitsInside_properties (h : IsBound o bucket g) (hne : bucket ≠ [])
    (hof : ∀ f ∈ bucket, f.IsOf .object) (hgOf : g.IsOf .object)
    (hinside : ∀ name, StaysWithin o (propertyFragments name bucket)) {properties : Keyed Schema}
    (hproperties : mergeProperties o bucket = .ok properties) {v : Sample}
    (htag : Tag.object ∈ v.tags)
    (hv : (object properties (mergeRequired o bucket)).fitsInside v) : g.fitsInside v := by
  refine fitsInside_of_properties htag ?_ ?_ hv
  · rintro name e ⟨p, hp, he⟩
    rw [property?_object] at hp
    rcases h.exists_property hof hgOf (hinside name) (mergeProperty_of_get? hproperties hp) with
      ⟨d, hd, hpd⟩
    exact ⟨d, hd, hpd e he⟩
  · intro name hname
    rw [requiredNames_object]
    exact h.required_subset hne hof hgOf name hname

/-- Fragments with one tag reduce to one that is within their bound. -/
theorem within_of_reduce (h : IsBound o bucket t) (hof : ∀ f ∈ bucket, f.IsOf tag)
    (hitems : StaysWithin o (itemFragments bucket))
    (hproperties : ∀ name, StaysWithin o (propertyFragments name bucket)) {s : Schema}
    (hs : reduce o tag bucket = .ok (some s)) : Within s t := by
  have hne := ne_nil_of_reduce hs
  have hsOf := isOf_of_reduce hof hs
  rcases reduce_cases hs with ⟨_, hs⟩ | ⟨ht, items, hmerged, rfl⟩ | ⟨rfl, properties, hmerged, rfl⟩
  · exact h.within s (List.mem_of_head? hs)
  · rcases h.exists_partner hne hof (isContainer_of_list ht) with ⟨g, hg, hgOf, hbound⟩
    refine Within.trans (fun v hv => ?_) (h.sampled.canonical.within_of_mem_fragments hg)
    rcases (hsOf.accepts_iff v).1 hv with ⟨htag, hfits⟩
    exact (hgOf.accepts_iff v).2
      ⟨htag, hbound.fitsInside_items ht hof hgOf hitems hmerged htag hfits⟩
  · rcases h.exists_partner hne hof rfl with ⟨g, hg, hgOf, hbound⟩
    refine Within.trans (fun v hv => ?_) (h.sampled.canonical.within_of_mem_fragments hg)
    rcases (hsOf.accepts_iff v).1 hv with ⟨htag, hfits⟩
    exact (hgOf.accepts_iff v).2
      ⟨htag, hbound.fitsInside_properties hne hof hgOf hproperties hmerged htag hfits⟩

end IsBound

/-! ### All tags -/

/-- A merge is within every bound of what is merged, by induction along the
    calls of a merge to itself. -/
theorem staysWithin (o : MergeOptions) (xs : List Schema) : StaysWithin o xs := by
  induction xs using merge_induction with
  | step xs ihItems ihProperties =>
      intro t m hbound hm v hv
      rcases exists_of_merge_ok hm with ⟨r, hr, hrOf, rfl⟩
      -- One of the joined fragments accepts the sample, and each is within the bound.
      rcases ((oneEach_filterMap hrOf).accepts_joinFound v).1 hv with ⟨s, hs, hv⟩
      rcases List.mem_filterMap.1 hs with ⟨tag, _, htag⟩
      have hreduce := hr tag
      rw [htag] at hreduce
      have hb := ne_nil_of_reduce hreduce
      exact (hbound.withTag tag).within_of_reduce (fun f hf => isOf_of_mem_bucket hf)
        (ihItems tag hb) (fun name => ihProperties tag name hb) hreduce v hv

/-- Schemas from samples can be merged, to one that they are within. -/
theorem exists_merge_of_isSampled (o : MergeOptions) {xs : List Schema} (hne : xs ≠ [])
    (hxs : ∀ x ∈ xs, x.IsSampled) :
    ∃ m, merge o xs = .ok m ∧ ∀ x ∈ xs, Within x m := by
  have hoffers : ∀ x ∈ xs, x.Everywhere OffersTag :=
    fun x hx => Everywhere.imp (hxs x hx).canonical fun _ hnode => hnode.offersTag
  rcases exists_merge_ok o xs hne hoffers with ⟨m, hm⟩
  refine ⟨m, hm, fun x hx v hv => ?_⟩
  exact keepsSamples o xs (fun x hx => (hxs x hx).canonical.hasBareLists) m v hm ⟨x, hx, hv⟩

/-- A merge is the most specific schema that covers what is merged. Without
    requirements it is the most specific of those that have none. -/
theorem merge_isLeast (xs : List Schema) (t : Schema) (hne : xs ≠ [])
    (hxs : ∀ x ∈ xs, Reachable x) (ht : Reachable t) (h : ∀ x ∈ xs, Within x t) :
    (∃ m, merge {} xs = .ok m ∧ (∀ x ∈ xs, Within x m) ∧ Within m t) ∧
    (t.isRelaxed →
      ∃ m, merge { noRequired := true } xs = .ok m ∧ (∀ x ∈ xs, Within x m) ∧ Within m t) := by
  have hsampled : ∀ x ∈ xs, x.IsSampled := fun x hx => (hxs x hx).isSampled
  constructor
  · rcases exists_merge_of_isSampled {} hne hsampled with ⟨m, hm, hwithin⟩
    have hbound : IsBound {} xs t :=
      ⟨ht.isSampled, fun ho => absurd ho Bool.false_ne_true, hsampled, h⟩
    exact ⟨m, hm, hwithin, staysWithin {} xs t m hbound hm⟩
  · intro hrelaxed
    rcases exists_merge_of_isSampled { noRequired := true } hne hsampled with ⟨m, hm, hwithin⟩
    have hbound : IsBound { noRequired := true } xs t :=
      ⟨ht.isSampled, fun _ => (isRelaxed_iff_everywhere t).1 hrelaxed, hsampled, h⟩
    exact ⟨m, hm, hwithin, staysWithin _ xs t m hbound hm⟩

/-- Two objects are within a schema that strings were merged into as well, and
    so are both of their merges. -/
theorem merge_isLeast_objects :
    Within (object (.ofList [("id", ofTags [.null, .integer]), ("tags", container .array none)])
        (some ["id"]))
      (union [ofTag .string, object (.ofList [("id", ofTags [.null, .integer]),
        ("tags", container .array none)]) none]) ∧
    Within (object (.ofList [("id", ofTags [.null, .integer]), ("tags", container .array none)])
        none)
      (union [ofTag .string, object (.ofList [("id", ofTags [.null, .integer]),
        ("tags", container .array none)]) none]) := by
  have hfirst : Reachable (object (.ofList [("id", ofTag .integer)]) (some ["id"])) :=
    .infer {} (v := .object (.ofList [("id", .int 1)])) (by cbv)
  have hsecond : Reachable (object (.ofList [("id", ofTag .null), ("tags", container .array none)])
      (some ["id", "tags"])) :=
    .infer {} (v := .object (.ofList [("id", .null), ("tags", .list [])])) (by cbv)
  have hstring : Reachable (ofTag .string) := .infer {} (v := .string "a") (by cbv)
  have hall : ∀ x ∈ [object (.ofList [("id", ofTag .integer)]) (some ["id"]),
      object (.ofList [("id", ofTag .null), ("tags", container .array none)])
        (some ["id", "tags"]), ofTag .string], Reachable x := by
    simp only [List.forall_mem_cons, hfirst, hsecond, hstring, true_and, List.not_mem_nil,
      false_imp_iff, implies_true]
  have hmerge : merge { noRequired := true }
      [object (.ofList [("id", ofTag .integer)]) (some ["id"]),
        object (.ofList [("id", ofTag .null), ("tags", container .array none)])
          (some ["id", "tags"]), ofTag .string] =
      .ok (union [ofTag .string, object (.ofList [("id", ofTags [.null, .integer]),
        ("tags", container .array none)]) none]) := by
    cbv
  have hboth := merge_isLeast
    [object (.ofList [("id", ofTag .integer)]) (some ["id"]),
      object (.ofList [("id", ofTag .null), ("tags", container .array none)])
        (some ["id", "tags"])]
    _ (List.cons_ne_nil _ _) (fun x hx => hall x (List.mem_append_left [ofTag .string] hx))
    (.merge _ hall hmerge) fun x hx v hv =>
      keepsSamples _ _ (fun x hx => (hall x hx).isCanonical.hasBareLists) _ v hmerge
        ⟨x, List.mem_append_left [ofTag .string] hx, hv⟩
  constructor
  · rcases hboth.1 with ⟨m, hm, _, hwithin⟩
    refine Eq.subst (motive := fun m => Within m _) (Except.ok.inj (hm.symm.trans ?_)) hwithin
    cbv
  · rcases hboth.2 (by cbv) with ⟨m, hm, _, hwithin⟩
    refine Eq.subst (motive := fun m => Within m _) (Except.ok.inj (hm.symm.trans ?_)) hwithin
    cbv

end Schema

end SampleSchema
