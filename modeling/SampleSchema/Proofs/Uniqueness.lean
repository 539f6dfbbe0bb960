import SampleSchema.Proofs.Covering
import SampleSchema.Proofs.Least

/-!
# Canonical Forms Are Unique

Schemas from samples that accept the same are the same.

There are three ways to say that two schemas agree: they are written alike,
they compare as equal, or they accept the same samples. In general each says
less than the one before, and for schemas that come from samples all say the
same. A fragment has a partner with its own tag on the other side, because an
integer that could only find a number there would find a number beside itself
here. The parts of partners agree again, and with equal parts, and no other
fragments, there is only one way to write the schema.

This makes covering complete. If a schema accepts what another accepts, it is
a bound of both, and so the merge of both is within it. The merge accepts no
less either, so it is the schema itself, and a comparison finds no difference.

## Theorems

* `Schema.eq_of_equal`: Canonical schemas that compare as equal are equal.
* `Schema.IsSampled.eq_of_within`: So are schemas from samples when each is
  within the other.
* `Schema.tfae_eq_equal_accepts`: The three ways to agree are the same.
* `Schema.covers_iff_within`: A schema covers another just when that is within
  it.
-/

namespace SampleSchema

namespace Schema

variable {a b f g : Schema} {tag : Tag}

/-! ### Equal comparison -/

/-- Canonical fragments that compare as equal are equal, if what is inside
    them is when it compares so. -/
theorem eq_of_sameTagged (hf : f.IsCanonical) (hg : g.IsCanonical) (hfOf : f.IsOf tag)
    (hgOf : g.IsOf tag) (h : sameTagged {} tag f g)
    (hinside : ∀ c ∈ f.children, ∀ d ∈ g.children, equal {} c d → c = d) : f = g := by
  refine hf.here.eq_of_parts hg.here hfOf hgOf (fun ht => ?_) (fun ht => ?_) fun ht => ?_
  · rcases (sameTagged_container_iff ht).1 h with ⟨hc, hd⟩ | ⟨c, d, hc, hd, hequal⟩
    · rw [hc, hd]
    · rw [hc, hd, hinside c (mem_children_of_items hc) d (mem_children_of_items hd) hequal]
  · subst ht
    rcases sameTagged_object_iff.1 h with ⟨hnames, hproperties, _⟩
    intro name
    cases hc : f.property? name with
    | none =>
        -- The names are the same, so there is no property on the right.
        refine (Option.eq_none_iff_forall_ne_some.2 fun d hd => ?_).symm
        have hname := mem_propertyNames_iff.2 ⟨d, hd⟩
        rw [← hnames] at hname
        rcases mem_propertyNames_iff.1 hname with ⟨c, hc'⟩
        rw [hc] at hc'
        cases hc'
    | some c =>
        rcases hproperties name c hc with ⟨d, hd, hequal⟩
        rw [hd, hinside c (mem_children_of_property? hc) d (mem_children_of_property? hd) hequal]
  · subst ht
    rcases sameTagged_object_iff.1 h with ⟨_, _, hrequired⟩
    exact hrequired.resolve_left Bool.false_ne_true

/-- Canonical schemas that compare as equal are equal, by induction along the
    comparison. -/
theorem eq_of_equal (a : Schema) :
    ∀ b, a.IsCanonical → b.IsCanonical → equal {} a b → a = b := by
  induction a using fragment_induction with
  | step a ih =>
      intro b ha hb h
      have hpairs : ∀ tag, (tagged tag a.fragments).length = (tagged tag b.fragments).length ∧
          pairOff (sameTagged {} tag) (tagged tag a.fragments) (tagged tag b.fragments) := by
        rcases (equal_iff.1 h).2 with ⟨⟨f, hf, hnone⟩, _⟩ | ⟨_, hpairs⟩
        · -- All fragments of canonical schemas have tags.
          have htyped : ∃ tag, f.IsOf tag :=
            (List.mem_append.1 hf).elim (ha.oneEach.isOf f) (hb.oneEach.isOf f)
          rcases htyped with ⟨tag, hof⟩
          rw [hof.2] at hnone
          cases hnone
        · exact hpairs
      refine ha.eq_of_fragments_subset hb (fun f hf => ?_) fun g hg tag hgOf => ?_
      · rcases ha.oneEach.isOf f hf with ⟨tag, hfOf⟩
        rcases exists_mem_of_pairOff (hpairs tag).2 (mem_tagged_iff.2 ⟨hf, hfOf.2⟩) with
          ⟨g, hg, hsame⟩
        rcases mem_tagged_iff.1 hg with ⟨hg, htag⟩
        have hgOf := isOf_of_mem_fragments hg htag
        have heq := eq_of_sameTagged (ha.of_mem_fragments hf) (hb.of_mem_fragments hg) hfOf hgOf
          hsame fun c hc d hd => ih f hf c hc d (ha.inside hf hc) (hb.inside hg hd)
        rw [heq]
        exact hg
      · -- As many fragments on the left have the tag, so there is one.
        have hpos := List.length_pos_of_mem (mem_tagged_iff.2 ⟨hg, hgOf.2⟩)
        rw [← (hpairs tag).1] at hpos
        rcases List.exists_mem_of_length_pos hpos with ⟨f, hf⟩
        rcases mem_tagged_iff.1 hf with ⟨hf, htag⟩
        exact ⟨f, hf, isOf_of_mem_fragments hf htag⟩

/-! ### Equal samples -/

/-- Parts within each other are equal, if schemas inside are. -/
theorem part_eq_of_within (part : Schema → Option Schema)
    (hfg : ∀ c, part f = some c → ∃ d, part g = some d ∧ Within c d)
    (hgf : ∀ d, part g = some d → ∃ c, part f = some c ∧ Within d c)
    (hinside : ∀ c d, part f = some c → part g = some d → Within c d → Within d c → c = d) :
    part f = part g := by
  cases hc : part f with
  | none =>
      refine (Option.eq_none_iff_forall_ne_some.2 fun d hd => ?_).symm
      rcases hgf d hd with ⟨c, hc', _⟩
      rw [hc] at hc'
      cases hc'
  | some c =>
      rcases hfg c hc with ⟨d, hd, hcd⟩
      rcases hgf d hd with ⟨c', hc', hdc⟩
      rw [hc] at hc'
      cases hc'
      rw [hd, hinside c d hc hd hcd hdc]

namespace IsSampled

/-- Where two schemas are within each other, a fragment of the one has a
    partner with its own tag in the other. -/
theorem exists_partner (ha : a.IsSampled) (hb : b.IsSampled) (hab : Within a b) (hba : Within b a)
    (hf : f ∈ a.fragments) (hfOf : f.IsOf tag) : ∃ g ∈ b.fragments, g.IsOf tag := by
  rcases ((ha.canonical.within_of_mem_fragments hf).trans hab).exists_partner
    (ha.of_mem_fragments hf) hfOf hb.canonical with ⟨g, hg, hgOf | ⟨rfl, hgOf⟩⟩
  · exact ⟨g, hg, hgOf⟩
  · -- The partner of an integer is for numbers, and its own partner stands beside the integer.
    rcases ((hb.canonical.within_of_mem_fragments hg).trans hba).exists_partner
      (hb.of_mem_fragments hg) hgOf ha.canonical with ⟨f', hf', hfOf' | ⟨hnumber, _⟩⟩
    · exact (ha.canonical.absorbed hf hf' hfOf.2 hfOf'.2).elim
    · cases hnumber

/-- Fragments with one tag that are within each other are equal, if what is
    inside them is when it is within each other. -/
theorem fragment_eq (hf : f.IsSampled) (hg : g.IsSampled) (hfOf : f.IsOf tag) (hgOf : g.IsOf tag)
    (hfg : Within f g) (hgf : Within g f)
    (hinside : ∀ c ∈ f.children, ∀ d ∈ g.children, Within c d → Within d c → c = d) : f = g := by
  refine hf.canonical.here.eq_of_parts hg.canonical.here hfOf hgOf (fun ht => ?_)
    (fun ht name => ?_) fun ht name => ?_
  · exact part_eq_of_within items
      (fun c hc => hfg.exists_items hf hfOf hgOf ht hc)
      (fun d hd => hgf.exists_items hg hgOf hfOf ht hd)
      fun c d hc hd => hinside c (mem_children_of_items hc) d (mem_children_of_items hd)
  · subst ht
    exact part_eq_of_within (fun u => u.property? name)
      (fun c hc => hfg.exists_property hf hfOf hgOf hc)
      (fun d hd => hgf.exists_property hg hgOf hfOf hd)
      fun c d hc hd => hinside c (mem_children_of_property? hc) d (mem_children_of_property? hd)
  · subst ht
    exact ⟨hgf.required_subset hg hgOf hfOf name, hfg.required_subset hf hfOf hgOf name⟩

/-- Schemas from samples are equal when each is within the other, by induction
    on what is inside their fragments. -/
theorem eq_of_within (a : Schema) :
    ∀ b, a.IsSampled → b.IsSampled → Within a b → Within b a → a = b := by
  induction a using fragment_induction with
  | step a ih =>
      intro b ha hb hab hba
      refine ha.canonical.eq_of_fragments_subset hb.canonical (fun f hf => ?_)
        fun g hg tag hgOf => hb.exists_partner ha hba hab hg hgOf
      rcases ha.canonical.oneEach.isOf f hf with ⟨tag, hfOf⟩
      rcases ha.exists_partner hb hab hba hf hfOf with ⟨g, hg, hgOf⟩
      have hfb := (ha.canonical.within_of_mem_fragments hf).trans hab
      have hga := (hb.canonical.within_of_mem_fragments hg).trans hba
      have heq := fragment_eq (ha.of_mem_fragments hf) (hb.of_mem_fragments hg) hfOf hgOf
        (hfb.within_partner hfOf hb.canonical hg hgOf)
        (hga.within_partner hgOf ha.canonical hf hfOf)
        fun c hc d hd => ih f hf c hc d (ha.inside hf hc) (hb.inside hg hd)
      rw [heq]
      exact hg

end IsSampled

/-! ### Three ways to agree -/

/-- Schemas from samples are equal just when they compare as equal, and just
    when they accept the same. -/
theorem tfae_eq_equal_accepts (a b : Schema) (ha : Reachable a) (hb : Reachable b) :
    [a = b, equal {} a b, ∀ v, a.accepts v = b.accepts v].TFAE := by
  tfae_have 1 → 2 := by
    rintro rfl
    exact equal_self {} a
  tfae_have 2 → 1 := eq_of_equal a b ha.isCanonical hb.isCanonical
  tfae_have 1 → 3 := by
    rintro rfl v
    rfl
  tfae_have 3 → 1 := fun h =>
    IsSampled.eq_of_within a b ha.isSampled hb.isSampled (fun v hv => (h v).symm.trans hv)
      fun v hv => (h v).trans hv
  tfae_finish

/-- An object that requires its name is not the one that does not, so they
    compare as different, and some sample tells them apart. -/
theorem tfae_eq_equal_accepts_required :
    ¬ equal {} (object (.ofList [("id", ofTag .integer)]) (some ["id"]))
      (object (.ofList [("id", ofTag .integer)]) none) ∧
    ∃ v, (object (.ofList [("id", ofTag .integer)]) (some ["id"])).accepts v ≠
      (object (.ofList [("id", ofTag .integer)]) none).accepts v := by
  have hsample : infer {} (.object (.ofList [("id", .int 1)])) =
      .ok (object (.ofList [("id", ofTag .integer)]) (some ["id"])) := by
    cbv
  have hrelaxed : infer { noRequired := true } (.object (.ofList [("id", .int 1)])) =
      .ok (object (.ofList [("id", ofTag .integer)]) none) := by
    cbv
  have hne : object (.ofList [("id", ofTag .integer)]) (some ["id"]) ≠
      object (.ofList [("id", ofTag .integer)]) none := by
    intro h
    cases congrArg Schema.required h
  have hways := tfae_eq_equal_accepts _ _ (.infer {} hsample) (.infer _ hrelaxed)
  exact ⟨fun h => hne ((hways.out 0 1).2 h), not_forall.1 fun h => hne ((hways.out 0 2).2 h)⟩

/-! ### Covering -/

/-- Covering is decided, and a schema covers another just when that is within
    it. -/
theorem covers_iff_within (main sub : Schema) (hmain : Reachable main) (hsub : Reachable sub) :
    (∃ covered, covers main sub = .ok covered) ∧
      (covers main sub = .ok true ↔ Within sub main) := by
  have hboth : ∀ x ∈ [main, sub], Reachable x :=
    List.forall_mem_cons.2 ⟨hmain, List.forall_mem_singleton.2 hsub⟩
  have hsampled : ∀ x ∈ [main, sub], x.IsSampled := fun x hx => (hboth x hx).isSampled
  rcases exists_merge_of_isSampled {} (List.cons_ne_nil main [sub]) hsampled with
    ⟨merged, hmerged, hwithin⟩
  have hreachable : Reachable merged := .merge {} hboth hmerged
  have hcovers : covers main sub = .ok (equal {} merged main) := by
    rw [covers, hmerged]
    rfl
  refine ⟨⟨_, hcovers⟩, fun h => ?_, fun h => ?_⟩
  · rw [hcovers] at h
    have heq := eq_of_equal merged main hreachable.isCanonical hmain.isCanonical (Except.ok.inj h)
    rw [heq] at hwithin
    exact hwithin sub (List.mem_cons_of_mem _ List.mem_cons_self)
  · -- The schema is a bound of both, so the merge is within it, and is not less.
    have hbound : IsBound {} [main, sub] main := by
      refine ⟨hmain.isSampled, fun ho => absurd ho Bool.false_ne_true, hsampled, ?_⟩
      exact List.forall_mem_cons.2 ⟨fun v hv => hv, List.forall_mem_singleton.2 h⟩
    have heq := IsSampled.eq_of_within merged main hreachable.isSampled hmain.isSampled
      (staysWithin {} _ main merged hbound hmerged) (hwithin main List.mem_cons_self)
    rw [hcovers, heq, equal_self]

/-- A schema covers one that was merged into it, and does not have to be
    covered. -/
theorem covers_iff_within_nullable :
    covers (object (.ofList [("id", ofTags [.null, .integer])]) (some ["id"]))
        (object (.ofList [("id", ofTag .integer)]) (some ["id"])) = .ok true ∧
      ¬ Within (object (.ofList [("id", ofTags [.null, .integer])]) (some ["id"]))
        (object (.ofList [("id", ofTag .integer)]) (some ["id"])) := by
  have hinteger : Reachable (object (.ofList [("id", ofTag .integer)]) (some ["id"])) :=
    .infer {} (v := .object (.ofList [("id", .int 1)])) (by cbv)
  have hnull : Reachable (object (.ofList [("id", ofTag .null)]) (some ["id"])) :=
    .infer {} (v := .object (.ofList [("id", .null)])) (by cbv)
  have hboth := List.forall_mem_cons.2 ⟨hinteger, List.forall_mem_singleton.2 hnull⟩
  have hmerge : merge {} [object (.ofList [("id", ofTag .integer)]) (some ["id"]),
      object (.ofList [("id", ofTag .null)]) (some ["id"])] =
      .ok (object (.ofList [("id", ofTags [.null, .integer])]) (some ["id"])) := by
    cbv
  have hnullable := Reachable.merge {} hboth hmerge
  constructor
  · refine (covers_iff_within _ _ hnullable hinteger).2.2 fun v hv => ?_
    exact keepsSamples {} _ (fun x hx => (hboth x hx).isCanonical.hasBareLists) _ v hmerge
      ⟨_, List.mem_cons_self, hv⟩
  · intro h
    have hcovers : covers (object (.ofList [("id", ofTag .integer)]) (some ["id"]))
        (object (.ofList [("id", ofTags [.null, .integer])]) (some ["id"])) = .ok false := by
      cbv
    rw [(covers_iff_within _ _ hinteger hnullable).2.2 h] at hcovers
    cases hcovers

end Schema

end SampleSchema
