import Mathlib
import SampleSchema.RecordPath.Steps
import SampleSchema.Sample.Designation

/-!
# Where Maps Are

A designation changes which objects are maps, and nothing else.

Whatever is designated, the sample of a JSON value has its shape. Take every
map for an object again, at every depth, and what is left is the sample in
which nothing was a map.

The maps themselves are told by where they are. A place is given by the steps
that lead to it, and they lead to corresponding places in the value and in its
sample, since maps have members as objects do. Only the last step counts. Where
it goes to a member, the name decides. Where it goes to an element nothing was
designated, and this is also so in a list under a designated name. Where there
is no step, at the root, the flag decides.

## Main definitions

* `Sample.follow`: The sample at the end of some steps.
* `Sample.plain`: A sample with every map taken for an object.
* `Designation.seen`: What a JSON value is at a place.
* `Designation.Designates`: The steps to a place where objects are maps.

## Theorems

* `Designation.plain_convert`: Up to maps, designations make no difference.
* `Designation.follow_convert`: What is found in the sample of a JSON value.
* `Designation.convert_retags`: Where the maps of a sample are.
-/

namespace SampleSchema

namespace Sample

/-- The sample one step further. Maps and objects have members. -/
def take : RecordPath.Step → Sample → Option Sample
  | .member name, map entries | .member name, object entries => entries.get? name
  | .element position, list elements => RecordPath.elementAt elements position
  | _, _ => none

/-- The sample at the end of some steps. -/
def follow : List RecordPath.Step → Sample → Option Sample
  | [], v => some v
  | step :: steps, v => (v.take step).bind (follow steps)

theorem take_asMap (step : RecordPath.Step) (v : Sample) : v.asMap.take step = v.take step := by
  cases v <;> cases step <;> rfl

/-- A sample with every map taken for an object. -/
def plain : Sample → Sample
  | list elements => list (elements.map fun v => v.plain)
  | map entries | object entries => object (entries.mapMem fun _ v _ => v.plain)
  | v => v
termination_by v => v
decreasing_by
  · decreasing_tactic
  · next hm =>
      have hlt := Keyed.sizeOf_lt_of_mem hm
      simp only [map.sizeOf_spec]
      omega
  · next hm =>
      have hlt := Keyed.sizeOf_lt_of_mem hm
      simp only [object.sizeOf_spec]
      omega

theorem plain_object (entries : Keyed Sample) :
    (object entries).plain = object (entries.map fun _ v => v.plain) := by
  rw [plain, Keyed.mapMem_eq_map entries fun _ v => v.plain]

theorem plain_asMap (v : Sample) : v.asMap.plain = v.plain := by
  cases v with
  | object entries => rw [asMap, plain, plain]
  | _ => rfl

end Sample

namespace Designation

/-! ### The shape of a sample -/

theorem plain_under (d : Designation) (name : String) (v : Sample) :
    (d.under name v).plain = v.plain := by
  unfold under
  split
  · exact v.plain_asMap
  · rfl

theorem under_empty (name : String) (v : Sample) : under {} name v = v := if_neg List.not_mem_nil

theorem plain_inner (d : Designation) (j : Json) : (d.inner j).plain = inner {} j := by
  induction j using Json.written.induct with
  | case6 elements ih =>
      rw [inner, inner, Sample.plain, List.map_map]
      exact congrArg Sample.list (List.map_congr_left ih)
  | case7 members ih =>
      rw [inner_object, inner_object, Sample.plain_object]
      refine congrArg Sample.object (Keyed.ext_get? fun name => ?_)
      simp only [Keyed.get?_map, Option.map_map]
      refine Option.map_congr fun c hc => ?_
      have hmem : (name, c) ∈ members.toList := Keyed.mem_toList_iff.2 hc
      rw [under_empty]
      exact (d.plain_under name _).trans (ih name c hmem)
  | _ => simp only [inner, Sample.plain]

/-- Up to maps, designations make no difference. -/
theorem plain_convert (d : Designation) (j : Json) : (d.convert j).plain = Sample.ofJson j := by
  have hplain : Sample.ofJson j = inner {} j := rfl
  rw [hplain, convert]
  split
  · rw [Sample.plain_asMap, plain_inner]
  · exact d.plain_inner j

/-! ### Places of maps -/

/-- After this step, if any, objects are maps. -/
def isMapAfter (d : Designation) : Option RecordPath.Step → Bool
  | none => d.root
  | some (.member name) => decide (name ∈ d.names)
  | some (.element _) => false

/-- What a JSON value is at a place to which this was the last step. -/
def seen (d : Designation) (last : Option RecordPath.Step) (j : Json) : Sample :=
  if d.isMapAfter last then (d.inner j).asMap else d.inner j

theorem under_inner (d : Designation) (name : String) (j : Json) :
    d.under name (d.inner j) = d.seen (some (.member name)) j :=
  if_congr decide_eq_true_iff.symm rfl rfl

theorem take_inner (d : Designation) (step : RecordPath.Step) (j : Json) :
    (d.inner j).take step = (step.take j).map (d.seen (some step)) := by
  cases j with
  | array elements =>
      rw [inner]
      cases step with
      | member name => rfl
      | element position => exact RecordPath.elementAt_map d.inner elements position
  | object members =>
      rw [inner_object]
      cases step with
      | member name =>
          simp only [under_inner]
          exact Keyed.get?_map members (fun k c => d.seen (some (.member k)) c) name
      | element position => rfl
  | _ => cases step <;> simp only [inner] <;> rfl

/-- What is seen may be a map, but it has the members of the object. -/
theorem take_seen (d : Designation) (last : Option RecordPath.Step) (step : RecordPath.Step)
    (j : Json) : (d.seen last j).take step = (step.take j).map (d.seen (some step)) := by
  unfold seen
  split
  · rw [Sample.take_asMap, take_inner]
    rfl
  · exact d.take_inner step j

/-- Steps lead to corresponding places. -/
theorem follow_seen (d : Designation) (last : Option RecordPath.Step)
    (steps : List RecordPath.Step) (j : Json) :
    Sample.follow steps (d.seen last j) =
      (RecordPath.follow steps j).map (d.seen (steps.getLast?.or last)) := by
  induction steps generalizing last j with
  | nil => rfl
  | cons step steps ih =>
      -- From the next place on this step is the last one, until there are others.
      have hlast : (step :: steps).getLast?.or last = steps.getLast?.or (some step) := by
        rw [List.getLast?_cons, Option.or_some, Option.some_or]
      rw [Sample.follow, RecordPath.follow, take_seen, hlast]
      cases step.take j with
      | none => rfl
      | some c => exact ih (some step) c

/-- What is found in the sample of a JSON value. -/
theorem follow_convert (d : Designation) (steps : List RecordPath.Step) (j : Json) :
    Sample.follow steps (d.convert j) =
      (RecordPath.follow steps j).map (d.seen steps.getLast?) := by
  have hseen := d.follow_seen none steps j
  rwa [Option.or_none] at hseen

/-- An object is seen as a map where objects are maps, and nothing else is. -/
theorem exists_seen_eq_map {d : Designation} {last : Option RecordPath.Step} {j : Json} :
    (∃ entries, d.seen last j = .map entries) ↔
      (∃ members, j = .object members) ∧ d.isMapAfter last := by
  unfold seen
  cases j with
  | object members =>
      rw [inner_object]
      split
      · next h => exact iff_of_true ⟨_, rfl⟩ ⟨⟨members, rfl⟩, h⟩
      · next h => exact iff_of_false nofun fun hand => h hand.2
  | _ => simp [inner, Sample.asMap]

/-- The steps to a place where objects are maps: to the root if it is designated,
    or to a member with a designated name. -/
inductive Designates (d : Designation) : List RecordPath.Step → Prop
  | root (h : d.root) : Designates d []
  | member (outer : List RecordPath.Step) {name : String} (h : name ∈ d.names) :
      Designates d (outer ++ [.member name])

theorem designates_iff {d : Designation} {steps : List RecordPath.Step} :
    d.Designates steps ↔ d.isMapAfter steps.getLast? := by
  constructor
  · intro h
    cases h with
    | root h => exact h
    | member outer h =>
        rw [List.getLast?_concat]
        exact decide_eq_true h
  · intro h
    rcases List.eq_nil_or_concat' steps with rfl | ⟨outer, last, rfl⟩
    · exact .root h
    · rw [List.getLast?_concat] at h
      cases last with
      | member name => exact .member outer (of_decide_eq_true h)
      | element position => cases h

/-- A sample has the shape of its JSON value, and it has a map just where the value
    has an object and objects are designated as maps. -/
theorem convert_retags (d : Designation) (j : Json) :
    (d.convert j).plain = Sample.ofJson j ∧
      ∀ steps, (∃ entries, Sample.follow steps (d.convert j) = some (.map entries)) ↔
        (∃ members, RecordPath.follow steps j = some (.object members)) ∧ d.Designates steps := by
  refine ⟨d.plain_convert j, fun steps => ?_⟩
  rw [follow_convert, designates_iff]
  cases RecordPath.follow steps j with
  | none => simp
  | some c => simpa using exists_seen_eq_map

end Designation

end SampleSchema
