import SampleSchema.Proofs.Fragments
import SampleSchema.Proofs.Pairing

/-!
# Comparing Tag by Tag

A comparison taken apart into what is asked of two fragments with one tag.

`equal` pairs the fragments of two schemas tag by tag, and `sameTagged` is
what a pair has to satisfy: nothing for leaves, equal items for arrays and
maps, equal properties and the same requirements for objects. It is the
function the comparison calls, with the comparison itself for what is inside.
The recursion only shows there, so `equal_iff` says what a comparison asks of
the fragments, and `fragment_induction` is the induction that goes with it:
from a schema to what is inside its fragments.

## Main definitions

* `Schema.sameTagged`: Two fragments with a tag compare as equal.

## Theorems

* `Schema.equal_congr_fragments`: A comparison looks at nothing but fragments.
* `Schema.equal_iff`: When two schemas compare as equal.
* `Schema.sameTagged_leaf`, `Schema.sameTagged_container_iff`,
  `Schema.sameTagged_object_iff`: When two fragments do.
* `Schema.fragment_induction`: Induction along a comparison.
* `Schema.equal_self`: Every schema compares as equal to itself.
-/

namespace SampleSchema

namespace Schema

/-- Two fragments with a tag compare as equal. -/
def sameTagged (o : CompareOptions) (tag : Tag) (l r : Schema) : Bool :=
  sameFragment o tag l r fun c _ d => equal o c d

variable {o : CompareOptions}

/-! ### Two fragments -/

/-- Leaves with a tag are equal. -/
theorem sameTagged_leaf {tag : Tag} (ht : tag.isContainer = false) (l r : Schema) :
    sameTagged o tag l r := by
  cases tag <;> first | rfl | cases ht

/-- Arrays and maps are equal when their items are. -/
theorem sameTagged_container_iff {tag : Tag} (ht : tag = .array ∨ tag = .map) {l r : Schema} :
    sameTagged o tag l r ↔
      (l.items = none ∧ r.items = none) ∨
        ∃ c d, l.items = some c ∧ r.items = some d ∧ equal o c d := by
  have harray : sameTagged o tag l r = sameTagged o .array l r := by
    rcases ht with rfl | rfl <;> rfl
  rw [harray, sameTagged, sameFragment]
  split
  · next c d hl hr =>
      simp only [hl, hr, reduceCtorEq, false_and, Option.some.injEq, exists_and_left,
        exists_eq_left', false_or]
  · next hl hr => simp only [hl, hr, and_self, true_or]
  · next hboth hneither =>
      constructor
      · intro h
        cases h
      · rintro (⟨hl, hr⟩ | ⟨c, d, hl, hr, _⟩)
        · exact (hneither hl hr).elim
        · exact (hboth c d hl hr).elim

theorem sameNames_iff {a b : List String} : sameNames a b ↔ ∀ name, name ∈ a ↔ name ∈ b := by
  rw [sameNames]
  simp only [Bool.and_eq_true, List.all_eq_true, List.contains_iff_mem, iff_iff_implies_and_implies,
    forall_and]

/-- Objects are equal when they have the same names, equal properties under
    each, and the same requirements. -/
theorem sameTagged_object_iff {l r : Schema} :
    sameTagged o .object l r ↔
      l.propertyNames = r.propertyNames ∧
      (∀ name c, l.property? name = some c → ∃ d, r.property? name = some d ∧ equal o c d) ∧
      (o.ignoreRequired ∨ ∀ name, name ∈ l.requiredNames ↔ name ∈ r.requiredNames) := by
  rw [sameTagged, sameFragment]
  simp only [Bool.and_eq_true, decide_eq_true_eq, Bool.or_eq_true, sameNames_iff, and_assoc]
  refine and_congr_right fun _ => and_congr_left fun _ => ?_
  split
  · next hnone =>
      simp only [property?, hnone, Option.bind_none, reduceCtorEq, false_imp_iff, implies_true]
  · next properties hsome =>
      simp only [List.all_eq_true, List.mem_attach, forall_const, Subtype.forall, Prod.forall,
        Keyed.mem_toList_iff, property?, hsome, Option.bind_some]
      refine forall₂_congr fun name c => imp_congr_right fun _ => ?_
      cases r.properties.bind fun properties => properties.get? name with
      | none => simp only [Bool.false_eq_true, reduceCtorEq, false_and, exists_false]
      | some d => simp only [Option.some.injEq, exists_eq_left']

/-! ### Two schemas -/

/-- A comparison looks at the fragments, and pairs them tag by tag. -/
theorem equal_eq (o : CompareOptions) (a b : Schema) :
    equal o a b =
      if a.fragments.length ≠ b.fragments.length then false
      else if (a.fragments ++ b.fragments).any fun f => f.tag?.isNone then
        decide (a.fragments = b.fragments)
      else
        Tag.all.all fun tag =>
          decide ((tagged tag a.fragments).length = (tagged tag b.fragments).length) &&
            pairOff (sameTagged o tag) (tagged tag a.fragments) (tagged tag b.fragments) := by
  have hpair : ∀ tag,
      pairOff (fun (l : { l // l ∈ tagged tag a.fragments }) r => sameTagged o tag l.1 r)
        (tagged tag a.fragments).attach (tagged tag b.fragments) =
      pairOff (sameTagged o tag) (tagged tag a.fragments) (tagged tag b.fragments) := by
    intro tag
    rw [pairOff_map (sameTagged o tag) Subtype.val, List.attach_map_subtype_val]
  simp only [← hpair]
  rw [equal]
  rfl

/-- A comparison looks at nothing but fragments. -/
theorem equal_congr_fragments (o : CompareOptions) {a a' b b' : Schema}
    (ha : a.fragments = a'.fragments) (hb : b.fragments = b'.fragments) :
    equal o a b = equal o a' b' := by
  rw [equal_eq, equal_eq, ha, hb]

/-- Two schemas compare as equal when they have equally many fragments, and
    either these are the same, where one of them has no tag, or they can be
    paired off under each tag. -/
theorem equal_iff {a b : Schema} :
    equal o a b ↔
      a.fragments.length = b.fragments.length ∧
      ((∃ f ∈ a.fragments ++ b.fragments, f.tag? = none) ∧ a.fragments = b.fragments ∨
        (∀ f ∈ a.fragments ++ b.fragments, ∃ tag, f.tag? = some tag) ∧
          ∀ tag, (tagged tag a.fragments).length = (tagged tag b.fragments).length ∧
            pairOff (sameTagged o tag) (tagged tag a.fragments) (tagged tag b.fragments)) := by
  rw [equal_eq]
  by_cases hlength : a.fragments.length = b.fragments.length
  · rw [if_neg (not_not_intro hlength), and_iff_right hlength]
    by_cases huntyped : ∃ f ∈ a.fragments ++ b.fragments, f.tag? = none
    · -- With a fragment that has no tag only the same fragments count.
      have hany : ((a.fragments ++ b.fragments).any fun f => f.tag?.isNone) = true := by
        simpa only [List.any_eq_true, Option.isNone_iff_eq_none] using huntyped
      rw [if_pos hany, decide_eq_true_eq, and_iff_right huntyped, or_iff_left]
      rintro ⟨htyped, _⟩
      rcases huntyped with ⟨f, hf, hnone⟩
      rcases htyped f hf with ⟨tag, htag⟩
      rw [hnone] at htag
      cases htag
    · have hany : ¬ ((a.fragments ++ b.fragments).any fun f => f.tag?.isNone) = true := by
        simpa only [List.any_eq_true, Option.isNone_iff_eq_none] using huntyped
      have htyped : ∀ f ∈ a.fragments ++ b.fragments, ∃ tag, f.tag? = some tag := by
        intro f hf
        exact Option.ne_none_iff_exists'.1 fun hnone => huntyped ⟨f, hf, hnone⟩
      rw [if_neg hany, or_iff_right fun h => huntyped h.1, and_iff_right htyped]
      simp only [List.all_eq_true, Bool.and_eq_true, decide_eq_true_eq, Tag.mem_all, forall_const]
  · rw [if_pos hlength]
    simp only [Bool.false_eq_true, hlength, false_and]

/-- A comparison turns from a schema to what is inside its fragments. What
    holds of a schema whenever it holds there holds of every schema. -/
theorem fragment_induction {P : Schema → Prop}
    (step : ∀ s, (∀ f ∈ s.fragments, ∀ c ∈ f.children, P c) → P s) (s : Schema) : P s :=
  step s fun _ _ c _ => fragment_induction step c
termination_by s.height
decreasing_by exact Nat.lt_of_lt_of_le (height_lt ‹_›) (height_le_of_mem_fragments s _ ‹_›)

theorem sameTagged_self {tag : Tag} {f : Schema} (h : ∀ c ∈ f.children, equal o c c) :
    sameTagged o tag f f := by
  rcases tag_cases tag with ht | ht | rfl
  · exact sameTagged_leaf ht f f
  · rw [sameTagged_container_iff ht]
    cases hc : f.items with
    | none => exact Or.inl ⟨rfl, rfl⟩
    | some c => exact Or.inr ⟨c, c, rfl, rfl, h c (mem_children_of_items hc)⟩
  · exact sameTagged_object_iff.2 ⟨rfl,
      fun name c hc => ⟨c, hc, h c (mem_children_of_property? hc)⟩, Or.inr fun _ => Iff.rfl⟩

/-- Every schema compares as equal to itself. -/
theorem equal_self (o : CompareOptions) (s : Schema) : equal o s s := by
  induction s using fragment_induction with
  | step s ih =>
      refine equal_iff.2 ⟨rfl, ?_⟩
      by_cases huntyped : ∃ f ∈ s.fragments ++ s.fragments, f.tag? = none
      · exact Or.inl ⟨huntyped, rfl⟩
      · refine Or.inr ⟨fun f hf => ?_, fun tag => ⟨rfl, pairOff_self fun f hf => ?_⟩⟩
        · exact Option.ne_none_iff_exists'.1 fun hnone => huntyped ⟨f, hf, hnone⟩
        · exact sameTagged_self (ih f (mem_tagged_iff.1 hf).1)

end Schema

end SampleSchema
