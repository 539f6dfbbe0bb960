import SampleSchema.Proofs.Dotted

/-!
# Queries Read as Dot Notation

Which queries for one place may be written where dot notation is expected.

A query for one place starts at the root and goes on with names after dots and
positions in brackets, in any order. Dot notation knows the same steps, and the
dollar sign and the dot with which most of these queries begin. But it looks
for at most one position after each name, and for the root only in front of a
name. So a query is read as what it means exactly if each of its positions
stands right after a name. Otherwise the reader gives up at a second position;
and a query that begins with a position is taken for one that begins with a
member whose name is the dollar sign. Either way nothing is found, and that is
no failure.

To see where this happens a query is cut as the reader cuts it: into the
positions before the first name, and every name with the positions after it.

## Main definitions

* `RecordPath.Segment`: A name after a dot, or a position in brackets.
* `RecordPath.rooted`: A query in writing.
* `RecordPath.isDotted`: Every position stands right after a name.

## Theorems

* `RecordPath.splitAt_segments`: How a query is cut at its dots.
* `RecordPath.partSteps?_indices`: How a name with positions is read.
* `RecordPath.steps?_rooted`: What a query is read as, unless it begins with a
  position.
* `RecordPath.locate_rooted_of_not_isDotted`: Where nothing is found.
* `RecordPath.locate_rooted_iff`: Which queries lead where they should.
-/

namespace SampleSchema

namespace RecordPath

/-! ### Queries for one place -/

/-- A character of a name after a dot: a letter, a digit or an underscore. Beyond
    ASCII anything may be a letter. -/
def isWordChar (c : Char) : Bool := c.isAlphanum || c == '_' || decide (128 ≤ c.toNat)

/-- A name that can stand after a dot without quotes. -/
structure Word where
  text : String
  ne_nil : text.toList ≠ []
  isWordChar_of_mem : ∀ c ∈ text.toList, isWordChar c

theorem Word.not_mem (word : Word) {c : Char} (hc : isWordChar c = false) :
    c ∉ word.text.toList := by
  intro h
  have hword := word.isWordChar_of_mem c h
  rw [hc] at hword
  cases hword

/-- A step of a query that leads to one place. -/
inductive Segment
  | name (word : Word)
  | index (n : Nat)

namespace Segment

/-- How a step is written. -/
def chars : Segment → List Char
  | name word => '.' :: word.text.toList
  | index n => bracketed n

/-- The step that is meant. -/
def step : Segment → Step
  | name word => .member word.text
  | index n => .element n

end Segment

/-- A query in writing. -/
def rooted (segments : List Segment) : String :=
  String.ofList ('$' :: segments.flatMap Segment.chars)

/-- Every position stands right after a name, and is a number of 64 bits. Larger
    numbers would be positions only in lists that are longer than any that can be
    stored. Documents are not bounded here, so such lists must be left out. -/
def isDotted : List Segment → Bool
  | [] => true
  | .name _ :: .index n :: segments => decide (n < 2 ^ 63) && isDotted segments
  | .name _ :: segments => isDotted segments
  | .index _ :: _ => false

/-! ### Cutting at the dots -/

/-- The positions before the first name. -/
def leading : List Segment → List Nat
  | .index n :: segments => n :: leading segments
  | _ => []

/-- Every name, with the positions after it. -/
def named : List Segment → List (Word × List Nat)
  | [] => []
  | .name word :: segments => (word, leading segments) :: named segments
  | .index _ :: segments => named segments

/-- Positions in writing. -/
def indices (ns : List Nat) : List Char := ns.flatMap fun n : Nat => bracketed n

theorem splitAt_segments (segments : List Segment) :
    splitAt '.' (segments.flatMap Segment.chars) =
      indices (leading segments) ::
        (named segments).map fun s => s.1.text.toList ++ indices s.2 := by
  induction segments with
  | nil => rfl
  | cons segment segments ih =>
      rw [List.flatMap_cons]
      cases segment with
      | name word =>
          have hdot : '.' ∉ word.text.toList := word.not_mem (by decide)
          have hrest := splitAt_append_of_not_mem hdot ih
          have hcut := splitAt_append '.' [] (word.text.toList ++ segments.flatMap Segment.chars)
          rw [hrest] at hcut
          exact hcut
      | index n =>
          exact splitAt_append_of_not_mem (dot_not_mem_bracketed n) ih

/-! ### Reading a name with positions -/

/-- The steps of a name with positions, of which there may be one at most. -/
def sectionSteps? (name : String) : List Nat → Option (List Step)
  | [] => some [.member name]
  | [n] => (word? n).map fun i => [.member name, .element i]
  | _ => none

theorem natural?_eq_none {cs : List Char} (h : ']' ∈ cs) : natural? cs = none := by
  have hall : cs.all Char.isDigit = false := List.all_eq_false.2 ⟨']', h, by decide⟩
  rw [natural?, hall, Bool.not_false, Bool.or_true, if_pos rfl]

/-- A number has no bracket in it. -/
theorem integer?_eq_none {cs : List Char} (h : ']' ∈ cs) : integer? cs = none := by
  unfold integer?
  split
  · next ds =>
      rw [natural?_eq_none ((List.mem_cons.1 h).resolve_left (by decide)), Option.bind_none]
  · next ds =>
      rw [natural?_eq_none ((List.mem_cons.1 h).resolve_left (by decide)), Option.bind_none]
  · rw [natural?_eq_none h, Option.bind_none]

theorem exists_indices_eq_concat {ns : List Nat} (h : ns ≠ []) :
    ∃ cs, indices ns = cs ++ [']'] := by
  rcases List.eq_nil_or_concat' ns with rfl | ⟨init, n, rfl⟩
  · exact absurd rfl h
  · refine ⟨indices init ++ '[' :: (toString (n : Int)).toList, ?_⟩
    rw [indices, List.flatMap_append, List.flatMap_singleton, List.append_assoc]
    rfl

/-- The first position would end at the last bracket, so there may be no other
    one. -/
theorem partSteps?_indices {cs : List Char} (hne : cs ≠ []) (h : '[' ∉ cs) (ns : List Nat) :
    partSteps? (cs ++ indices ns) = sectionSteps? (String.ofList cs) ns := by
  have hnotEmpty : cs.isEmpty = false := List.isEmpty_eq_false_iff.2 hne
  cases ns with
  | nil => exact (congrArg partSteps? (List.append_nil cs)).trans (partSteps?_of_not_mem h)
  | cons n ns =>
      cases ns with
      | nil =>
          rw [indices, List.flatMap_cons, List.flatMap_nil, List.append_nil,
            partSteps?_bracketed h, hnotEmpty]
          rfl
      | cons m ms =>
          rcases exists_indices_eq_concat (List.cons_ne_nil m ms) with ⟨ds, hds⟩
          have htext : indices (n :: m :: ms) =
              '[' :: (((toString (n : Int)).toList ++ ']' :: ds) ++ [']']) := by
            rw [indices, List.flatMap_cons]
            change bracketed n ++ indices (m :: ms) = _
            rw [hds, bracketed]
            simp only [List.cons_append, List.append_assoc, List.nil_append]
          have hbracket : ']' ∈ (toString (n : Int)).toList ++ ']' :: ds :=
            List.mem_append_right _ List.mem_cons_self
          rw [htext, partSteps?_append h, index?_concat, integer?_eq_none hbracket]
          rfl

theorem mapM_partSteps?_named (names : List (Word × List Nat)) :
    (names.map fun s => s.1.text.toList ++ indices s.2).mapM partSteps? =
      names.mapM fun s => sectionSteps? s.1.text s.2 := by
  induction names with
  | nil => rfl
  | cons s names ih =>
      rw [List.map_cons, List.mapM_cons, List.mapM_cons, ih,
        partSteps?_indices s.1.ne_nil (s.1.not_mem (by decide)), String.ofList_toList]

/-! ### Reading a query -/

theorem word?_natCast (n : Nat) : word? n = if n < 2 ^ 63 then some (n : Int) else none := by
  rw [word?_eq]
  exact if_congr (by omega) rfl rfl

theorem isDotted_of_leading {segments : List Segment} (h : leading segments ≠ []) :
    isDotted segments = false := by
  cases segments with
  | nil => exact absurd rfl h
  | cons segment segments =>
      cases segment with
      | name word => exact absurd rfl h
      | index n => rw [isDotted]

theorem flatten_mapM_cons {α β : Type} (f : α → Option (List β)) (a : α) (as : List α) :
    ((a :: as).mapM f).map List.flatten =
      (f a).bind fun bs => ((as.mapM f).map List.flatten).map (bs ++ ·) := by
  rw [List.mapM_cons]
  cases f a with
  | none => rfl
  | some bs => cases as.mapM f <;> rfl

/-- The steps of names with positions. -/
def namedSteps? (names : List (Word × List Nat)) : Option (List Step) :=
  (names.mapM fun s => sectionSteps? s.1.text s.2).map List.flatten

/-- Names with positions are read as what they mean if there is one position
    for each at most, and not at all otherwise. -/
theorem namedSteps?_named {segments : List Segment} (h : leading segments = []) :
    namedSteps? (named segments) =
      if isDotted segments then some (segments.map Segment.step) else none := by
  induction segments using isDotted.induct with
  | case1 => rfl
  | case2 word n segments ih =>
      have hnamed : named (.name word :: .index n :: segments) =
          (word, n :: leading segments) :: named segments := rfl
      rw [hnamed, namedSteps?, flatten_mapM_cons, isDotted]
      by_cases hleading : leading segments = []
      · rw [← namedSteps?, ih hleading, hleading, sectionSteps?, word?_natCast]
        by_cases hn : n < 2 ^ 63
        · rw [if_pos hn, decide_eq_true hn, Bool.true_and]
          cases isDotted segments <;> rfl
        · rw [if_neg hn, decide_eq_false hn, Bool.false_and]
          rfl
      · -- There is a second position.
        rcases List.exists_cons_of_ne_nil hleading with ⟨m, ms, hms⟩
        rw [isDotted_of_leading hleading, Bool.and_false, hms]
        rfl
  | case3 word segments hindex ih =>
      have hleading : leading segments = [] := by
        cases segments with
        | nil => rfl
        | cons segment segments =>
            cases segment with
            | name word => rfl
            | index n => exact absurd rfl (hindex n segments)
      have hnamed : named (.name word :: segments) = (word, []) :: named segments := by
        rw [named, hleading]
      rw [hnamed, namedSteps?, flatten_mapM_cons, ← namedSteps?, ih hleading, sectionSteps?,
        isDotted]
      · cases isDotted segments <;> rfl
      · exact hindex
  | case4 n segments => cases h

theorem toList_rooted (segments : List Segment) :
    (rooted segments).toList = '$' :: segments.flatMap Segment.chars := by
  rw [rooted, String.toList_ofList]

/-- A query that does not begin with a position is read as what it means, or not
    at all. -/
theorem steps?_rooted {segments : List Segment} (h : leading segments = []) :
    steps? (rooted segments) =
      if isDotted segments then some (segments.map Segment.step) else none := by
  cases segments with
  | nil => rfl
  | cons segment segments =>
      cases segment with
      | index n => cases h
      | name word =>
          let cs := word.text.toList ++ segments.flatMap Segment.chars
          have hdrop : dropRoot (rooted (.name word :: segments)).toList = cs := by
            rw [toList_rooted]
            rfl
          have hnil : cs ≠ [] := List.append_ne_nil_of_left_ne_nil word.ne_nil _
          have hlone : cs ≠ ['$'] := by
            intro hcs
            rcases List.exists_cons_of_ne_nil word.ne_nil with ⟨c, ds, hword⟩
            have hc : c = '$' := by
              change word.text.toList ++ segments.flatMap Segment.chars = ['$'] at hcs
              rw [hword] at hcs
              exact (List.cons.inj hcs).1
            have hmem : c ∈ word.text.toList := hword ▸ List.mem_cons_self
            exact word.not_mem (by decide) (hc ▸ hmem)
          -- Without the root and the dot, the first part is a name.
          have hcut : splitAt '.' cs = (named (.name word :: segments)).map
              fun s => s.1.text.toList ++ indices s.2 := by
            have hall := splitAt_segments (.name word :: segments)
            exact (List.cons.inj ((splitAt_append '.' [] cs).symm.trans hall)).2
          rw [steps?_of_dropRoot hdrop hnil hlone, hcut, mapM_partSteps?_named]
          exact namedSteps?_named h

/-- A query that begins with a position is taken for one that begins with the
    name of the root. -/
theorem steps?_rooted_index (n : Nat) (segments : List Segment) :
    steps? (rooted (.index n :: segments)) =
      (sectionSteps? "$" (n :: leading segments)).bind fun steps =>
        (namedSteps? (named segments)).map (steps ++ ·) := by
  let cs := '$' :: (Segment.index n :: segments).flatMap Segment.chars
  have hdrop : dropRoot (rooted (.index n :: segments)).toList = cs := by
    rw [toList_rooted]
    rfl
  have hdot : '.' ∉ ['$'] := by decide
  have hbracket : '[' ∉ ['$'] := by decide
  have hcut : splitAt '.' cs = (['$'] ++ indices (n :: leading segments)) ::
      (named segments).map fun s => s.1.text.toList ++ indices s.2 :=
    splitAt_append_of_not_mem hdot (splitAt_segments (.index n :: segments))
  rw [steps?_of_dropRoot hdrop (List.cons_ne_nil _ _) (by simp [cs, Segment.chars, bracketed]),
    hcut, flatten_mapM_cons, partSteps?_indices (List.cons_ne_nil _ _) hbracket,
    mapM_partSteps?_named]
  rfl

/-! ### Where nothing is found -/

/-- A document with a place for a query. -/
def along : List Segment → Json
  | [] => .null
  | .name word :: segments => .object (.ofList [(word.text, along segments)])
  | .index n :: segments => .array (List.replicate n .null ++ [along segments])

theorem take_along (segment : Segment) (segments : List Segment) :
    segment.step.take (along (segment :: segments)) = some (along segments) := by
  cases segment with
  | name word =>
      rw [Segment.step, along, Step.take, Keyed.get?_ofList]
      simp
  | index n =>
      rw [Segment.step, along, Step.take]
      refine (elementAt_ofNat _ n).trans ?_
      simp

theorem follow_along (segments : List Segment) :
    follow (segments.map Segment.step) (along segments) = some .null := by
  induction segments with
  | nil => rfl
  | cons segment segments ih =>
      rw [List.map_cons, follow, take_along]
      exact ih

theorem exists_of_sectionSteps? {name : String} {ns : List Nat} {steps : List Step}
    (h : sectionSteps? name ns = some steps) : ∃ others, steps = .member name :: others := by
  unfold sectionSteps? at h
  split at h
  · cases h
    exact ⟨[], rfl⟩
  · next n =>
      rcases Option.map_eq_some_iff.1 h with ⟨i, _, rfl⟩
      exact ⟨_, rfl⟩
  · cases h

/-- A query with a position elsewhere than right after a name finds nothing, if
    no member has the name of the root. -/
theorem locate_rooted_of_not_isDotted {segments : List Segment} (h : isDotted segments = false)
    {j : Json} (hj : (Step.member "$").take j = none) : locate (rooted segments) j = none := by
  by_cases hleading : leading segments = []
  · rw [locate, steps?_rooted hleading, h]
    rfl
  · cases segments with
    | nil => exact absurd rfl hleading
    | cons segment segments =>
        cases segment with
        | name word => exact absurd rfl hleading
        | index n =>
            rw [locate, steps?_rooted_index]
            cases hfirst : sectionSteps? "$" (n :: leading segments) with
            | none => rfl
            | some steps =>
                rcases exists_of_sectionSteps? hfirst with ⟨others, rfl⟩
                cases namedSteps? (named segments) with
                | none => rfl
                | some more =>
                    change follow (.member "$" :: (others ++ more)) j = none
                    rw [follow, hj, Option.bind_none]

theorem take_root_along {segments : List Segment} (h : isDotted segments = false) :
    (Step.member "$").take (along segments) = none := by
  cases segments with
  | nil => cases h
  | cons segment segments =>
      cases segment with
      | name word =>
          have hne : "$" ≠ word.text := by
            intro he
            refine word.not_mem (c := '$') (by decide) ?_
            rw [← he]
            exact List.mem_singleton_self _
          rw [along, Step.take, Keyed.get?_ofList]
          simp [hne]
      | index n => rfl

/-- A query leads where its steps do just if every position in it stands right
    after a name. All others lead to nothing, in whatever has no member with the
    name of the root. Positions from 2 ^ 63 on are among the others, which makes a
    difference only in lists that are longer than any that can be stored. -/
theorem locate_rooted_iff (segments : List Segment) :
    ((∀ j r, locate (rooted segments) j = r ↔ Leads (segments.map Segment.step) j r) ↔
        isDotted segments) ∧
      (isDotted segments = false → ∀ j, (Step.member "$").take j = none →
        locate (rooted segments) j = none) := by
  refine ⟨⟨fun h => ?_, fun h j r => ?_⟩, fun h j hj => locate_rooted_of_not_isDotted h hj⟩
  · by_contra hnot
    rw [Bool.not_eq_true] at hnot
    have hfound := (h _ _).2 (follow_eq_iff.1 (follow_along segments))
    rw [locate_rooted_of_not_isDotted hnot (take_root_along hnot)] at hfound
    cases hfound
  · have hleading : leading segments = [] := by
      by_contra hne
      rw [isDotted_of_leading hne] at h
      cases h
    rw [locate, steps?_rooted hleading, if_pos h]
    exact follow_eq_iff

/-- A document with a list at the root, one with a list in a list, and a query for
    a place in each that leads to nothing. -/
theorem locate_rooted_iff_indices :
    let name : Segment := .name ⟨"rows", by decide, List.all_eq_true.1 rfl⟩
    rooted [.index 0, name] = "$[0].rows" ∧
      locate "$[0].rows" (along [.index 0, name]) = none ∧
      ¬ (∀ j r, locate "$[0].rows" j = r ↔ Leads [.element 0, .member "rows"] j r) ∧
      rooted [name, .index 2, .index 1] = "$.rows[2][1]" ∧
      locate "$.rows[2][1]" (along [name, .index 2, .index 1]) = none ∧
      ∀ j r, locate "$.rows[2]" j = r ↔ Leads [.member "rows", .element 2] j r := by
  intro name
  have hfirst : rooted [.index 0, name] = "$[0].rows" := by cbv
  have hsecond : rooted [name, .index 2, .index 1] = "$.rows[2][1]" := by cbv
  have hthird : rooted [name, .index 2] = "$.rows[2]" := by cbv
  refine ⟨hfirst, ?_, ?_, hsecond, ?_, ?_⟩
  · rw [← hfirst]
    exact (locate_rooted_iff [.index 0, name]).2 rfl _ rfl
  · intro h
    rw [← hfirst] at h
    have hdotted := (locate_rooted_iff [.index 0, name]).1.1 h
    cases hdotted
  · rw [← hsecond]
    exact (locate_rooted_iff [name, .index 2, .index 1]).2 rfl _ (by cbv)
  · rw [← hthird]
    exact (locate_rooted_iff [name, .index 2]).1.2 rfl

end RecordPath

end SampleSchema
