import Mathlib
import SampleSchema.Proofs.Blocks
import SampleSchema.Proofs.Everywhere

/-!
# Conditions that Merging Keeps

When a condition on nodes survives a merge, at every depth.

A merge makes few nodes of its own. It builds arrays and maps around merged
items, objects around merged properties, and a union or a type list around
what it found; every other node it takes over from a fragment. So a condition
holds everywhere in a merge as soon as it holds everywhere in what was merged
and of the nodes a merge builds. `KeptByMerging` lists these, and
`Everywhere.of_merge` is the induction, which no condition needs again.

Two of the entries may use more than the node itself. An object is built from
objects that have the condition, since what it requires depends on what they
require. And what is joined comes in the order of the tags, each tag once,
never an integer beside a number; `InOrder` says so.

## Main definitions

* `Schema.InOrder`: Fragments as a merge finds them.
* `Schema.KeptByMerging`: A condition holds of the nodes a merge builds.

## Theorems

* `Schema.exists_inOrder_of_merge_ok`: What a successful merge found.
* `Schema.everywhere_joinFound_iff`: Joining keeps a condition.
* `Schema.everywhere_merge_iff`: Where a condition on a merge is decided.
* `Schema.Everywhere.of_merge`: So does merging.
-/

namespace SampleSchema

namespace Schema

/-- Fragments as a merge finds them: in the order of their tags, and no integer
    beside a number. -/
structure InOrder (found : List Schema) : Prop extends OneEach found where
  /-- The tags ascend. -/
  ascending : (found.filterMap tag?).Pairwise fun a b => a.index < b.index
  /-- A number leaves no integer beside it. -/
  absorbed : ¬ (Tag.integer ∈ found.filterMap tag? ∧ Tag.number ∈ found.filterMap tag?)

variable {o : MergeOptions} {P : Schema → Prop}

/-! ### What is found -/

theorem inOrder_filterMap {fs : List Schema} {r : Tag → Option Schema}
    (hr : ∀ tag, reduce o tag (tagged tag (absorb fs)) = .ok (r tag))
    (hof : ∀ tag s, r tag = some s → s.IsOf tag) : InOrder (Tag.all.filterMap r) := by
  refine { oneEach_filterMap hof with ascending := ?_, absorbed := ?_ }
  · rw [filterMap_tag_filterMap hof]
    exact Tag.pairwise_all.filter _
  · rw [filterMap_tag_filterMap hof]
    rintro ⟨hinteger, hnumber⟩
    have hfound : ∀ tag, tag ∈ (Tag.all.filter fun tag => (r tag).isSome) →
        tagged tag (absorb fs) ≠ [] := by
      intro tag htag hnil
      rw [List.mem_filter, (reduce_eq_none_iff (hr tag)).2 hnil] at htag
      cases htag.2
    have hnumbers := hfound .number hnumber
    rw [tagged_absorb_of_ne (by decide)] at hnumbers
    refine hfound .integer hinteger ?_
    rw [tagged_absorb, if_pos ⟨rfl, hnumbers⟩]

/-- What a successful merge found: something for some of the tags, in order. -/
theorem exists_inOrder_of_merge_ok {xs : List Schema} {m : Schema} (h : merge o xs = .ok m) :
    ∃ r : Tag → Option Schema,
      (∀ tag, reduce o tag (tagged tag (absorb (allFragments xs))) = .ok (r tag)) ∧
      InOrder (Tag.all.filterMap r) ∧ Tag.all.filterMap r ≠ [] ∧
      m = joinFound (Tag.all.filterMap r) := by
  rcases exists_of_merge_ok h with ⟨r, hr, hof, rfl⟩
  refine ⟨r, hr, inOrder_filterMap hr hof, ?_, rfl⟩
  intro hnil
  have hperm := (oneEach_filterMap hof).fragments_perm
  rw [hnil] at hperm h
  exact fragments_ne_nil_of_merge h hperm.eq_nil

/-- Joining fragments keeps a condition, and asks for nothing else than that
    it holds in the fragments. -/
theorem everywhere_joinFound_iff (htag : ∀ tag, P (ofTag tag)) {found : List Schema}
    (h : OneEach found) (hne : found ≠ []) (hjoin : 2 ≤ found.length → P (join found))
    (hbare : bareTags found ≠ [] → P (ofTags (bareTags found))) :
    (joinFound found).Everywhere P ↔ ∀ s ∈ found, s.Everywhere P := by
  have hsimple : ∀ s ∈ found, s.isSimple → s.Everywhere P := by
    intro s hs hsimple
    rcases h.isOf s hs with ⟨tag, hof⟩
    rw [eq_ofTag_of_isSimple hsimple hof.2]
    exact everywhere_ofTag (htag tag)
  unfold joinFound
  split
  · simp only [List.mem_singleton, forall_eq]
  · next hmany =>
      have hlength : 2 ≤ found.length := by
        cases found with
        | nil => exact absurd rfl hne
        | cons s rest =>
            cases rest with
            | nil => exact absurd rfl (hmany s)
            | cons t rest =>
                simp only [List.length_cons]
                omega
      have hnode := hjoin hlength
      rw [h.join_eq] at hnode ⊢
      by_cases hothers : (found.filter fun a => !a.isSimple).isEmpty
      · -- Bare tags only: the condition holds on both sides.
        rw [if_pos hothers] at hnode ⊢
        have hall : ∀ s ∈ found, s.isSimple := by
          intro s hs
          have := List.filter_eq_nil_iff.1 (List.isEmpty_iff.1 hothers) s hs
          simpa only [Bool.not_eq_true', Bool.not_eq_false] using this
        exact ⟨fun _ s hs => hsimple s hs (hall s hs), fun _ => everywhere_ofTags hnode⟩
      · rw [if_neg hothers] at hnode ⊢
        rw [everywhere_union_iff, and_iff_right hnode]
        constructor
        · intro hall s hs
          by_cases hs' : s.isSimple
          · exact hsimple s hs hs'
          · refine hall s (List.mem_append_right _ (List.mem_filter.2 ⟨hs, ?_⟩))
            rw [eq_false_of_ne_true hs']
            rfl
        · intro hall a ha
          rcases List.mem_append.1 ha with ha | ha
          · by_cases hempty : (bareTags found).isEmpty
            · rw [if_pos hempty] at ha
              cases ha
            · rw [if_neg hempty, List.mem_singleton] at ha
              rw [ha]
              exact everywhere_ofTags (hbare (mt List.isEmpty_iff.2 hempty))
          · exact hall a (List.mem_filter.1 ha).1

/-! ### Merging -/

/-- The condition holds of every node that a merge builds, given that it holds
    of what the node is built from. -/
structure KeptByMerging (o : MergeOptions) (P : Schema → Prop) : Prop where
  /-- It holds of bare tags. -/
  tag : ∀ tag, P (ofTag tag)
  /-- It holds of arrays and maps, whatever their items are. -/
  container : ∀ tag items, tag = .array ∨ tag = .map → P (container tag items)
  /-- It holds of objects that are merged from objects of which it holds. -/
  object : ∀ bucket properties, (∀ f ∈ bucket, f.IsOf .object ∧ P f) →
    mergeProperties o bucket = .ok properties → P (object properties (mergeRequired o bucket))
  /-- It holds of what several fragments are joined to. -/
  join : ∀ found, InOrder found → 2 ≤ found.length → P (join found)
  /-- It holds of the entry for the bare tags among them. -/
  bare : ∀ found, InOrder found → bareTags found ≠ [] → P (ofTags (bareTags found))

/-- What holds everywhere in a merge is what holds everywhere in the fragments
    that are joined to it. -/
theorem everywhere_merge_iff (hP : KeptByMerging o P) {xs : List Schema} {m : Schema}
    (h : merge o xs = .ok m) :
    m.Everywhere P ↔
      ∀ tag s, reduce o tag (tagged tag (absorb (allFragments xs))) = .ok (some s) →
        s.Everywhere P := by
  rcases exists_inOrder_of_merge_ok h with ⟨r, hr, hfound, hne, rfl⟩
  rw [everywhere_joinFound_iff hP.tag hfound.toOneEach hne (hP.join _ hfound) (hP.bare _ hfound)]
  constructor
  · intro hall tag s hs
    refine hall s (List.mem_filterMap.2 ⟨tag, Tag.mem_all tag, ?_⟩)
    rw [hr tag] at hs
    exact Except.ok.inj hs
  · intro hall s hs
    rcases List.mem_filterMap.1 hs with ⟨tag, _, hs⟩
    refine hall tag s ?_
    rw [hr tag, hs]

/-- What holds everywhere in the schemas that are merged holds everywhere in
    the merge, by induction along the calls of a merge to itself. -/
theorem Everywhere.of_merge (hP : KeptByMerging o P) (xs : List Schema) :
    (∀ x ∈ xs, x.Everywhere P) → ∀ m, merge o xs = .ok m → m.Everywhere P := by
  induction xs using merge_induction with
  | step xs ihItems ihProperties =>
      intro hxs m hm
      refine (everywhere_merge_iff hP hm).2 fun tag s hreduce => ?_
      have hbucket : ∀ f ∈ tagged tag (absorb (allFragments xs)), f.Everywhere P := by
        intro f hf
        exact .of_mem_allFragments hP.tag hxs (mem_of_mem_absorb (mem_tagged_iff.1 hf).1)
      have hb := ne_nil_of_reduce hreduce
      rcases reduce_cases hreduce with ⟨_, hhead⟩ | ⟨ht, items, hitems, rfl⟩ |
        ⟨rfl, properties, hproperties, rfl⟩
      · exact hbucket s (List.mem_of_head? hhead)
      · refine everywhere_container_iff.2 ⟨hP.container tag items ht, ?_⟩
        rintro c rfl
        exact ihItems tag hb (.of_mem_parts hP.tag mem_children_of_items hbucket) c
          (merge_of_mergeItems hitems)
      · refine everywhere_object_iff.2 ⟨hP.object _ _ (fun f hf => ?_) hproperties, ?_⟩
        · exact ⟨isOf_of_mem_bucket hf, (hbucket f hf).here⟩
        · intro name p hget
          have hfragments : ∀ g ∈ propertyFragments name _, g.Everywhere P :=
            .of_mem_parts hP.tag mem_children_of_property? hbucket
          -- A property is merged from its fragments or is the only one of them.
          rcases mergeProperty_cases (mergeProperty_of_get? hproperties hget) with hone | ⟨_, hp⟩
          · exact hfragments p (hone ▸ List.mem_singleton_self p)
          · exact ihProperties .object name hb hfragments p hp

end Schema

end SampleSchema
