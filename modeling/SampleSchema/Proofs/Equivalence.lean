import SampleSchema.Proofs.Comparison
import SampleSchema.Proofs.Reduction

/-!
# Comparison Is an Equivalence

Comparing schemas behaves as equality does.

A comparison never looks at how alternatives are ordered, so what it decides is
whether the fragments of two schemas can be paired: `equal_iff_matched`. The
pairs it looks for are partners, two fragments with one tag whose parts compare
as equal in turn. It looks for them in the greedy way, and this is where the
laws depend on each other. The greedy way finds pairs only if fragments that
share a partner share all partners, which takes symmetry and transitivity for
the parts; and symmetry of the whole takes that pairs are found in the other
direction, too. So both laws are proved together, by induction on what is
inside the fragments, and `IsLawful` is what the induction carries.

A fragment without a tag has no partner. As soon as there is one, only the same
fragments in the same order compare as equal, and the laws are those of
equality. So the order of alternatives counts for nothing while every fragment
has a tag, and one fragment without a tag makes it count for all of them.

Leaving requirements out of account asks less of every pair of objects. That it
does not lose a comparison is again due to the pairs being found if there are
any.

## Main definitions

* `Schema.part`: What a fragment with a tag has inside under a name.
* `Schema.Partners`: Two fragments with one tag compare as equal.
* `Schema.IsLawful`: Comparing with a schema is symmetric and transitive.

## Theorems

* `Schema.sameTagged_iff_parts`: Fragments compare by their parts.
* `Schema.isLawful`: Every schema is lawful.
* `Schema.exchangeable`: Fragments that share a partner share all partners.
* `Schema.equal_iff_matched`: Schemas are equal when their fragments are
  matched.
* `Schema.equal_of_equal`: What is equal under more is equal under less.
* `Schema.equal_equivalence`: Comparison is an equivalence.
* `Schema.equal_perm_iff`: When the order of fragments counts.
* `Schema.equal_union_perm_iff`: When the order of alternatives does.
* `Schema.pairOff_iff_exists_bijective`: When fragments with one tag are paired
  off.
-/

namespace SampleSchema

namespace Schema

variable {o : CompareOptions} {tag : Tag} {a b f g h : Schema}

/-! ### Parts -/

/-- What a fragment with the tag has inside under a name. Arrays and maps have
    their items there, whatever the name is. -/
def part (tag : Tag) (name : String) (s : Schema) : Option Schema :=
  match tag with
  | .array | .map => s.items
  | .object => s.property? name
  | _ => none

theorem part_leaf (ht : tag.isContainer = false) (name : String) (s : Schema) :
    s.part tag name = none := by
  cases tag <;> first | rfl | cases ht

theorem part_container (ht : tag = .array ∨ tag = .map) (name : String) (s : Schema) :
    s.part tag name = s.items := by
  rcases ht with rfl | rfl <;> rfl

theorem mem_children_of_part {s c : Schema} {name : String} (hc : s.part tag name = some c) :
    c ∈ s.children := by
  rcases tag_cases tag with ht | ht | rfl
  · rw [part_leaf ht] at hc
    cases hc
  · rw [part_container ht] at hc
    exact mem_children_of_items hc
  · exact mem_children_of_property? hc

theorem pairwise_propertyNames (s : Schema) : s.propertyNames.Pairwise (· < ·) := by
  unfold propertyNames
  cases s.properties with
  | none => exact List.Pairwise.nil
  | some properties => exact properties.pairwise_keys

/-- Having the same names and equal properties under each is the same as
    agreeing under every name. -/
theorem sameProperties_iff {R : Schema → Schema → Prop} :
    (f.propertyNames = g.propertyNames ∧
        ∀ name c, f.property? name = some c → ∃ d, g.property? name = some d ∧ R c d) ↔
      ∀ name, Option.Rel R (f.property? name) (g.property? name) := by
  constructor
  · rintro ⟨hnames, hproperties⟩ name
    cases hc : f.property? name with
    | some c =>
        rcases hproperties name c hc with ⟨d, hd, hcd⟩
        rw [hd]
        exact .some hcd
    | none =>
        -- A name that is not used on the left is not used on the right.
        have hd : g.property? name = none := by
          refine Option.eq_none_iff_forall_ne_some.2 fun d hd => ?_
          have hname : name ∈ f.propertyNames := by
            rw [hnames]
            exact mem_propertyNames_iff.2 ⟨d, hd⟩
          rcases mem_propertyNames_iff.1 hname with ⟨c, hc'⟩
          rw [hc] at hc'
          cases hc'
        rw [hd]
        exact .none
  · intro h
    constructor
    · refine Keyed.eq_of_ascending (pairwise_propertyNames f) (pairwise_propertyNames g)
        fun name => ?_
      rw [mem_propertyNames_iff, mem_propertyNames_iff, ← Option.ne_none_iff_exists',
        ← Option.ne_none_iff_exists']
      exact not_congr (eq_none_iff_of_rel (h name))
    · intro name c hc
      exact exists_of_rel (h name) hc

/-- Fragments with one tag compare by what they have inside under each name,
    and objects by their requirements. -/
theorem sameTagged_iff_parts :
    sameTagged o tag f g ↔
      (∀ name, Option.Rel (fun c d => equal o c d) (f.part tag name) (g.part tag name)) ∧
      (tag = .object →
        o.ignoreRequired ∨ ∀ name, name ∈ f.requiredNames ↔ name ∈ g.requiredNames) := by
  rcases tag_cases tag with ht | ht | rfl
  · have hne : tag ≠ .object := by
      rintro rfl
      cases ht
    simp only [sameTagged_leaf ht, part_leaf ht, Option.rel_none_none, implies_true, hne,
      false_imp_iff, and_self]
  · have hne : tag ≠ .object := by
      rintro rfl
      rcases ht with ht | ht <;> cases ht
    rw [sameTagged_container_iff ht]
    simp only [part_container ht, forall_const, hne, false_imp_iff, and_true]
    cases f.items <;> cases g.items <;> simp
  · rw [sameTagged_object_iff, ← and_assoc, sameProperties_iff]
    simp only [part, forall_const]

/-! ### Partners -/

/-- Two fragments have the same tag and compare as equal. -/
def Partners (o : CompareOptions) (f g : Schema) : Prop :=
  ∃ tag, f.tag? = some tag ∧ g.tag? = some tag ∧ sameTagged o tag f g

theorem Partners.tag_eq (hfg : Partners o f g) : f.tag? = g.tag? := by
  rcases hfg with ⟨tag, hf, hg, _⟩
  rw [hf, hg]

theorem Partners.sameTagged (hfg : Partners o f g) (hf : f.tag? = some tag) :
    sameTagged o tag f g := by
  rcases hfg with ⟨tag', hf', _, hsame⟩
  rw [hf] at hf'
  cases hf'
  exact hsame

/-- Sorting fragments by their tags only changes their order. -/
theorem perm_flatMap_tagged {fs : List Schema} (h : ∀ f ∈ fs, ∃ tag, f.tag? = some tag) :
    fs.Perm (Tag.all.flatMap fun tag => tagged tag fs) := by
  induction fs with
  | nil => exact List.Perm.refl _
  | cons f fs ih =>
      rcases h f List.mem_cons_self with ⟨tag, htag⟩
      have hrest := ih fun g hg => h g (List.mem_cons_of_mem f hg)
      rcases List.append_of_mem (Tag.mem_all tag) with ⟨before, after, hall⟩
      have hnodup := Tag.nodup_all
      rw [hall, List.nodup_append, List.nodup_cons] at hnodup
      -- The fragment comes to stand under its own tag and no other.
      have hown : tagged tag (f :: fs) = f :: tagged tag fs :=
        List.filter_cons_of_pos (beq_iff_eq.2 htag)
      have hother : ∀ t, t ≠ tag → tagged t (f :: fs) = tagged t fs := by
        intro t ht
        refine List.filter_cons_of_neg fun h => ht ?_
        rw [beq_iff_eq, htag] at h
        exact (Option.some.inj h).symm
      have hbefore : (before.flatMap fun t => tagged t (f :: fs)) =
          before.flatMap fun t => tagged t fs := by
        refine List.flatMap_congr fun t ht => hother t ?_
        exact hnodup.2.2 t ht tag List.mem_cons_self
      have hafter : (after.flatMap fun t => tagged t (f :: fs)) =
          after.flatMap fun t => tagged t fs := by
        refine List.flatMap_congr fun t ht => hother t ?_
        rintro rfl
        exact hnodup.2.1.1 ht
      rw [hall, List.flatMap_append, List.flatMap_cons] at hrest ⊢
      rw [hown, hbefore, hafter]
      exact (hrest.cons f).trans List.perm_middle.symm

/-- Fragments that can be paired can be paired under each tag. -/
theorem paired_tagged {R : Schema → Schema → Prop} {fs gs : List Schema} (h : Paired R fs gs)
    (htag : ∀ f g, R f g → f.tag? = g.tag?) (tag : Tag) :
    Paired R (tagged tag fs) (tagged tag gs) := by
  refine h.filter fun f g hfg => ?_
  rw [htag f g hfg]

/-- Fragments that can be paired under each tag can be paired. -/
theorem paired_of_tagged {fs gs : List Schema} (hfs : ∀ f ∈ fs, ∃ tag, f.tag? = some tag)
    (hgs : ∀ g ∈ gs, ∃ tag, g.tag? = some tag)
    (h : ∀ tag, Paired (fun f g => sameTagged o tag f g) (tagged tag fs) (tagged tag gs)) :
    Paired (Partners o) fs gs := by
  have hsorted : Paired (Partners o) (Tag.all.flatMap fun tag => tagged tag fs)
      (Tag.all.flatMap fun tag => tagged tag gs) := by
    refine .flatMap fun tag _ => (h tag).imp fun f hf g hg hsame => ?_
    exact ⟨tag, (mem_tagged_iff.1 hf).2, (mem_tagged_iff.1 hg).2, hsame⟩
  exact (hsorted.perm_left (perm_flatMap_tagged hfs)).perm_right (perm_flatMap_tagged hgs).symm

/-- What a comparison asks for: the same fragments, or partners for all. -/
def Matched (o : CompareOptions) (fs gs : List Schema) : Prop := fs = gs ∨ Paired (Partners o) fs gs

/-- Schemas that compare as equal have their fragments matched. -/
theorem matched_of_equal (h : equal o a b) : Matched o a.fragments b.fragments := by
  rcases equal_iff.1 h with ⟨_, ⟨_, hsame⟩ | ⟨htyped, hpairs⟩⟩
  · exact Or.inl hsame
  · refine Or.inr (paired_of_tagged (fun f hf => htyped f (List.mem_append_left _ hf))
      (fun g hg => htyped g (List.mem_append_right _ hg)) fun tag => ?_)
    exact paired_of_pairOff (hpairs tag).1 (hpairs tag).2

/-- The converse, where fragments that share a partner share all partners. -/
theorem equal_of_matched
    (hex : ∀ tag, Exchangeable (sameTagged o tag) (tagged tag a.fragments) (tagged tag b.fragments))
    (h : Matched o a.fragments b.fragments) : equal o a b := by
  rcases h with hsame | hpaired
  · rw [equal_congr_fragments o hsame rfl]
    exact equal_self o b
  · refine equal_iff.2 ⟨hpaired.length_eq, Or.inr ⟨fun f hf => ?_, fun tag => ?_⟩⟩
    · -- Partners have a tag.
      rcases List.mem_append.1 hf with hf | hf
      · rcases hpaired.exists_right hf with ⟨g, _, tag, htag, _⟩
        exact ⟨tag, htag⟩
      · rcases hpaired.exists_left hf with ⟨g, _, tag, _, htag, _⟩
        exact ⟨tag, htag⟩
    · refine (pairOff_iff_paired (hex tag)).2 ?_
      refine (paired_tagged hpaired (fun _ _ => Partners.tag_eq) tag).imp fun f hf g _ hfg => ?_
      exact hfg.sameTagged (mem_tagged_iff.1 hf).2

/-! ### The laws -/

/-- Comparing with a schema is symmetric and transitive. -/
structure IsLawful (o : CompareOptions) (c : Schema) : Prop where
  /-- The order of the two does not matter. -/
  comm : ∀ d, equal o c d ↔ equal o d c
  /-- What it is equal to may take its place. -/
  trans : ∀ d e, equal o c d → equal o d e → equal o c e

section Fragments

variable (hf : ∀ c ∈ f.children, IsLawful o c)
include hf

theorem sameTagged_comm_of : sameTagged o tag f g ↔ sameTagged o tag g f := by
  rw [sameTagged_iff_parts, sameTagged_iff_parts]
  refine and_congr (forall_congr' fun name => ⟨fun h => ?_, fun h => ?_⟩) ?_
  · refine rel_symm h fun c d hc hcd => ?_
    exact ((hf c (mem_children_of_part hc)).comm d).1 hcd
  · refine rel_symm (rel_imp h (S := fun d c => equal o c d) fun d c _ hc hdc => ?_)
      fun _ _ _ hcd => hcd
    exact ((hf c (mem_children_of_part hc)).comm d).2 hdc
  · simp only [iff_comm]

theorem sameTagged_trans_of (hfg : sameTagged o tag f g) (hgh : sameTagged o tag g h) :
    sameTagged o tag f h := by
  rw [sameTagged_iff_parts] at hfg hgh ⊢
  constructor
  · intro name
    refine rel_trans (hfg.1 name) (hgh.1 name) fun c d e hc hcd hde => ?_
    exact (hf c (mem_children_of_part hc)).trans d e hcd hde
  · intro ht
    rcases hfg.2 ht with ho | hfg'
    · exact Or.inl ho
    · rcases hgh.2 ht with ho | hgh'
      · exact Or.inl ho
      · exact Or.inr fun name => (hfg' name).trans (hgh' name)

end Fragments

section Lists

variable {fs gs : List Schema} (hfs : ∀ f ∈ fs, ∀ c ∈ f.children, IsLawful o c)
include hfs

/-- Where two of the fragments share a partner they share all partners, and the
    same holds of their partners. -/
theorem exchangeable_of :
    Exchangeable (sameTagged o tag) fs gs ∧ Exchangeable (sameTagged o tag) gs fs := by
  constructor
  · intro f hf f' hf' g _ g' _ hfg hf'g hf'g'
    have hgf' : sameTagged o tag g f' := (sameTagged_comm_of (hfs f' hf')).1 hf'g
    have hff' : sameTagged o tag f f' := sameTagged_trans_of (hfs f hf) hfg hgf'
    exact sameTagged_trans_of (hfs f hf) hff' hf'g'
  · -- Going round the other way, the chain starts at a partner, and is turned for that.
    intro g _ g' _ f hf f' hf' hgf hg'f hg'f'
    have hfg : sameTagged o tag f g := (sameTagged_comm_of (hfs f hf)).2 hgf
    have hf'g' : sameTagged o tag f' g' := (sameTagged_comm_of (hfs f' hf')).2 hg'f'
    have hf'f : sameTagged o tag f' f := sameTagged_trans_of (hfs f' hf') hf'g' hg'f
    exact (sameTagged_comm_of (hfs f' hf')).1 (sameTagged_trans_of (hfs f' hf') hf'f hfg)

theorem matched_comm_of : Matched o fs gs ↔ Matched o gs fs := by
  have hcomm : ∀ f ∈ fs, ∀ g, Partners o f g ↔ Partners o g f := by
    intro f hf g
    refine exists_congr fun tag => ?_
    rw [sameTagged_comm_of (hfs f hf), and_left_comm]
  refine or_congr eq_comm ⟨fun h => ?_, fun h => ?_⟩
  · exact h.symm fun f hf g _ hfg => (hcomm f hf g).1 hfg
  · exact h.symm fun g _ f hf hgf => (hcomm f hf g).2 hgf

theorem matched_trans_of {hs : List Schema} (hfg : Matched o fs gs) (hgh : Matched o gs hs) :
    Matched o fs hs := by
  rcases hfg with rfl | hfg
  · exact hgh
  · rcases hgh with rfl | hgh
    · exact Or.inr hfg
    · refine Or.inr (hfg.trans hgh fun f hf g h => ?_)
      -- The fragment in the middle has one tag, so all three have it.
      rintro ⟨tag, hftag, hgtag, hfg⟩ ⟨tag', hgtag', hhtag, hgh⟩
      rw [hgtag] at hgtag'
      cases hgtag'
      exact ⟨tag, hftag, hhtag, sameTagged_trans_of (hfs f hf) hfg hgh⟩

end Lists

/-- Every schema is lawful, by induction on what is inside its fragments. -/
theorem isLawful (o : CompareOptions) (a : Schema) : IsLawful o a := by
  induction a using fragment_induction with
  | step a ih =>
      have hinside : ∀ tag, ∀ f ∈ tagged tag a.fragments, ∀ c ∈ f.children, IsLawful o c :=
        fun tag f hf => ih f (mem_tagged_iff.1 hf).1
      -- Each law is one of pairs. It gets there without help, and back by exchanging partners.
      refine { comm := fun b => ⟨fun h => ?_, fun h => ?_⟩, trans := fun b c hab hbc => ?_ }
      · refine equal_of_matched (fun tag => (exchangeable_of (hinside tag)).2) ?_
        exact (matched_comm_of ih).1 (matched_of_equal h)
      · refine equal_of_matched (fun tag => (exchangeable_of (hinside tag)).1) ?_
        exact (matched_comm_of ih).2 (matched_of_equal h)
      · refine equal_of_matched (fun tag => (exchangeable_of (hinside tag)).1) ?_
        exact matched_trans_of ih (matched_of_equal hab) (matched_of_equal hbc)

theorem equal_comm : equal o a b ↔ equal o b a := (isLawful o a).comm b

theorem equal_trans {c : Schema} (hab : equal o a b) (hbc : equal o b c) : equal o a c :=
  (isLawful o a).trans b c hab hbc

/-- Fragments that share a partner share all partners. -/
theorem exchangeable (o : CompareOptions) (tag : Tag) (fs gs : List Schema) :
    Exchangeable (sameTagged o tag) fs gs :=
  (exchangeable_of fun _ _ c _ => isLawful o c).1

/-- Schemas compare as equal just when their fragments are matched. -/
theorem equal_iff_matched : equal o a b ↔ Matched o a.fragments b.fragments :=
  ⟨matched_of_equal, equal_of_matched fun tag => exchangeable o tag _ _⟩

/-- Where all fragments have a tag, they are paired tag by tag. -/
theorem equal_iff_tagged (ha : ∀ f ∈ a.fragments, ∃ tag, f.tag? = some tag)
    (hb : ∀ g ∈ b.fragments, ∃ tag, g.tag? = some tag) :
    equal o a b ↔ ∀ tag,
      Paired (fun f g => sameTagged o tag f g) (tagged tag a.fragments) (tagged tag b.fragments) := by
  have hall : ∀ f ∈ a.fragments ++ b.fragments, ∃ tag, f.tag? = some tag :=
    fun f hf => (List.mem_append.1 hf).elim (ha f) (hb f)
  constructor
  · intro h tag
    rcases (equal_iff.1 h).2 with ⟨⟨f, hf, hnone⟩, _⟩ | ⟨_, hpairs⟩
    · rcases hall f hf with ⟨tag, htag⟩
      rw [hnone] at htag
      cases htag
    · exact paired_of_pairOff (hpairs tag).1 (hpairs tag).2
  · intro h
    exact equal_iff_matched.2 (Or.inr (paired_of_tagged ha hb h))

/-- What is equal under some options is equal under others that ask for less,
    by induction on what is inside the fragments. -/
theorem equal_of_equal {o' : CompareOptions} (ho : o.ignoreRequired → o'.ignoreRequired)
    (a : Schema) : ∀ b, equal o a b → equal o' a b := by
  induction a using fragment_induction with
  | step a ih =>
      intro b h
      rw [equal_iff_matched] at h ⊢
      -- The same pairs will do.
      refine h.imp_right fun hpaired => hpaired.imp fun f hf g _ hfg => ?_
      rcases hfg with ⟨tag, hftag, hgtag, hsame⟩
      refine ⟨tag, hftag, hgtag, ?_⟩
      rw [sameTagged_iff_parts] at hsame ⊢
      refine ⟨fun name => rel_imp (hsame.1 name) fun c d hc _ => ?_, fun ht => ?_⟩
      · exact ih f hf c (mem_children_of_part hc) d
      · exact (hsame.2 ht).imp_left ho

/-- Comparison is an equivalence, whether requirements count or not, and what
    is equal where they count is equal where they do not. -/
theorem equal_equivalence :
    (∀ o, Equivalence fun a b => equal o a b) ∧
      ∀ a b, equal { ignoreRequired := false } a b → equal { ignoreRequired := true } a b :=
  ⟨fun o => ⟨equal_self o, equal_comm.1, equal_trans⟩, fun a => equal_of_equal (fun _ => rfl) a⟩

/-! ### The order of alternatives -/

/-- A fragment with a tag is its own partner. -/
theorem partners_self (o : CompareOptions) (ht : f.tag? = some tag) : Partners o f f :=
  ⟨tag, ht, ht, sameTagged_self fun c _ => equal_self o c⟩

/-- The same fragments in another order compare as equal if all of them have a
    tag. If one has none, the order must be the same after all. -/
theorem equal_perm_iff (h : a.fragments.Perm b.fragments) :
    equal o a b ↔
      a.fragments = b.fragments ∨ ∀ f ∈ a.fragments, ∃ tag, f.tag? = some tag := by
  rw [equal_iff_matched]
  refine or_congr_right ⟨fun hpaired f hf => ?_, fun htyped => ?_⟩
  · rcases hpaired.exists_right hf with ⟨g, _, tag, htag, _⟩
    exact ⟨tag, htag⟩
  · refine Paired.of_perm h fun f hf => ?_
    rcases htyped f hf with ⟨tag, htag⟩
    exact partners_self o htag

/-- Alternatives in another order compare as equal exactly when every fragment
    that they offer has a tag, or when they offer the fragments in the same
    order as before. Whether requirements count makes no difference. -/
theorem equal_union_perm_iff (o : CompareOptions) (alternatives others : List Schema)
    (h : alternatives.Perm others) :
    equal o (union alternatives) (union others) ↔
      allFragments alternatives = allFragments others ∨
        ∀ a ∈ alternatives, ∀ f ∈ a.fragments, ∃ tag, f.tag? = some tag := by
  have hfragments : (union alternatives).fragments.Perm (union others).fragments := by
    rw [fragments_union, fragments_union]
    exact h.flatMap_right fragments
  rw [equal_perm_iff hfragments, fragments_union, fragments_union]
  refine or_congr_right ⟨fun htyped a ha f hf => ?_, fun htyped f hf => ?_⟩
  · exact htyped f (List.mem_flatMap.2 ⟨a, ha, hf⟩)
  · rcases List.mem_flatMap.1 hf with ⟨a, ha, hf⟩
    exact htyped a ha f hf

/-- An object and a nested union may change places. With a schema that has no
    type beside them, two bare tags may not, though that schema stays first. -/
theorem equal_union_perm_iff_untyped :
    equal {}
        (union [object (.ofList [("x", ofTag .string)]) (some ["x"]),
          union [ofTag .null, ofTags [.string, .integer]]])
        (union [union [ofTag .null, ofTags [.string, .integer]],
          object (.ofList [("x", ofTag .string)]) (some ["x"])]) ∧
      ¬ equal {} (union [{}, ofTag .null, ofTag .string])
        (union [{}, ofTag .string, ofTag .null]) := by
  have htyped : (allFragments [object (.ofList [("x", ofTag .string)]) (some ["x"]),
      union [ofTag .null, ofTags [.string, .integer]]]).all (fun f => f.tag?.isSome) := by
    cbv
  have horder : (allFragments [{}, ofTag .null, ofTag .string]).map tag? ≠
      (allFragments [{}, ofTag .string, ofTag .null]).map tag? :=
    of_decide_eq_false (by cbv)
  constructor
  · refine (equal_union_perm_iff {} _ _ (.swap _ _ [])).2 (Or.inr fun a ha f hf => ?_)
    exact Option.isSome_iff_exists.1
      (List.all_eq_true.1 htyped f (List.mem_flatMap.2 ⟨a, ha, hf⟩))
  · intro h
    rcases (equal_union_perm_iff {} _ _ (.cons _ (.swap _ _ []))).1 h with hsame | hall
    · exact horder (congrArg (List.map tag?) hsame)
    · -- The empty schema is a fragment of its own, and has no tag.
      rcases hall {} List.mem_cons_self {} (by cbv; exact .head _) with ⟨tag, htag⟩
      cases htag

/-! ### Alternatives with one tag -/

/-- As many fragments on the left as on the right are paired off exactly when
    there is a bijection between them that relates only fragments which compare
    as equal. So it does not matter in which order they come. -/
theorem pairOff_iff_exists_bijective (o : CompareOptions) (tag : Tag) (fs gs : List Schema)
    (hlength : fs.length = gs.length) :
    (pairOff (sameTagged o tag) fs gs ↔
        ∃ p : Fin fs.length → Fin gs.length, p.Bijective ∧ ∀ i, sameTagged o tag fs[i] gs[p i]) ∧
      ∀ fs' gs', fs'.Perm fs → gs'.Perm gs →
        pairOff (sameTagged o tag) fs' gs' = pairOff (sameTagged o tag) fs gs := by
  have hpaired : ∀ fs' gs' : List Schema, fs'.length = gs'.length →
      (pairOff (sameTagged o tag) fs' gs' ↔ Paired (fun f g => sameTagged o tag f g) fs' gs') := by
    intro fs' gs' hlength'
    rw [← pairOff_iff_paired (exchangeable o tag fs' gs'), and_iff_right hlength']
  constructor
  · rw [hpaired fs gs hlength, Paired.iff_exists_bijective]
  · intro fs' gs' hfs hgs
    have hlength' : fs'.length = gs'.length := by
      rw [hfs.length_eq, hgs.length_eq, hlength]
    rw [Bool.eq_iff_iff, hpaired fs' gs' hlength', hpaired fs gs hlength]
    exact ⟨fun h => (h.perm_left hfs.symm).perm_right hgs,
      fun h => (h.perm_left hfs).perm_right hgs.symm⟩

/-- An object with a property that may be null. -/
def nullableProperty : Schema :=
  object (.ofList [("x", union [ofTag .null, ofTag .string])]) none

/-- The same in another spelling. -/
def respelledProperty : Schema :=
  object (.ofList [("x", ofTags [.string, .null])]) (some [])

/-- An object with a property that it needs. -/
def neededProperty : Schema := object (.ofList [("x", ofTag .string)]) (some ["x"])

/-- Among three objects it is not the first that has the first for its partner. If
    one of them is needed twice, there are no pairs. -/
theorem pairOff_iff_exists_bijective_objects :
    (∃ p : Fin 3 → Fin 3, p.Bijective ∧ ∀ i, sameTagged {} .object
        [nullableProperty, neededProperty, nullableProperty][i]
        [neededProperty, respelledProperty, nullableProperty][p i]) ∧
      ¬ ∃ p : Fin 3 → Fin 3, p.Bijective ∧ ∀ i, sameTagged {} .object
        [nullableProperty, neededProperty, nullableProperty][i]
        [neededProperty, respelledProperty, neededProperty][p i] := by
  constructor
  · exact (pairOff_iff_exists_bijective {} .object
      [nullableProperty, neededProperty, nullableProperty]
      [neededProperty, respelledProperty, nullableProperty] rfl).1.1 (by cbv)
  · intro h
    have hpairs := (pairOff_iff_exists_bijective {} .object
      [nullableProperty, neededProperty, nullableProperty]
      [neededProperty, respelledProperty, neededProperty] rfl).1.2 h
    have hnone : pairOff (sameTagged {} .object)
        [nullableProperty, neededProperty, nullableProperty]
        [neededProperty, respelledProperty, neededProperty] = false := by cbv
    rw [hnone] at hpairs
    cases hpairs

end Schema

end SampleSchema
