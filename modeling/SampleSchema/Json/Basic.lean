import SampleSchema.Keyed
import SampleSchema.Number.Binary

/-!
# JSON Values

JSON in two forms: as a value, and as it was written.

`Json` is the value. The members of an object are a `Keyed` collection, so
their order and repetitions in the source are gone, and two objects with the
same members are the same object.

`Json.Written` keeps what the value forgets: members stand in the order in
which they were written, repeated names included. A reader needs that form
where a repetition is a fault rather than a value, and a printer needs it
where the order of the members is a matter of presentation. `Written.value`
forgets the difference: of a repeated name the last member counts.

A number without point or exponent that fits 64 bits is an integer; every
other number is a double.

## Main definitions

* `Json`: A JSON value.
* `Json.Written`: A JSON text's tree.
* `Json.Written.value`: The value that a tree denotes.
* `Json.written`: A value with its members in ascending order.
* `Json.depth`: How deep the brackets of a value nest.

## Theorems

* `Json.value_written`: Writing a value down and taking its value changes
  nothing.
-/

namespace SampleSchema

/-- A JSON value. -/
inductive Json
  | null
  | bool (b : Bool)
  | int (n : Int)
  | float (x : Float)
  | string (s : String)
  | array (elements : List Json)
  | object (members : Keyed Json)
  deriving Inhabited

namespace Json

/-- A JSON text's tree: members in the order in which they were written. -/
inductive Written
  | null
  | bool (b : Bool)
  | int (n : Int)
  | float (x : Float)
  | string (s : String)
  | array (elements : List Written)
  | object (members : List (String × Written))
  deriving Inhabited

/-- The value that a tree denotes. Of a repeated name the last member counts. -/
def Written.value : Written → Json
  | .null => .null
  | .bool b => .bool b
  | .int n => .int n
  | .float x => .float x
  | .string s => .string s
  | .array elements => .array (elements.map fun w => w.value)
  | .object members => .object (Keyed.ofList (members.map fun m => (m.1, m.2.value)))
termination_by w => w
decreasing_by
  · decreasing_tactic
  · next hm =>
      have hlt := List.sizeOf_lt_of_mem hm
      have hpair : sizeOf m = 1 + sizeOf m.1 + sizeOf m.2 := by cases m; rfl
      simp only [Written.object.sizeOf_spec]
      omega

/-- A value with its members in ascending order. -/
def written : Json → Written
  | .null => .null
  | .bool b => .bool b
  | .int n => .int n
  | .float x => .float x
  | .string s => .string s
  | .array elements => .array (elements.map fun j => j.written)
  | .object members => .object (members.mapMem fun _ j _ => j.written).toList
termination_by j => j
decreasing_by
  · decreasing_tactic
  · next hm =>
      have hlt := Keyed.sizeOf_lt_of_mem hm
      simp only [Json.object.sizeOf_spec]
      omega

/-- How deep the brackets of a value nest. -/
def depth : Json → Nat
  | .array elements => (elements.map fun j => j.depth).foldr max 0 + 1
  | .object members => (members.mapMem fun _ j _ => j.depth).values.foldr max 0 + 1
  | _ => 0
termination_by j => j
decreasing_by
  · decreasing_tactic
  · next hm =>
      have hlt := Keyed.sizeOf_lt_of_mem hm
      simp only [Json.object.sizeOf_spec]
      omega

theorem written_object (members : Keyed Json) :
    (object members).written = .object (members.map fun _ j => j.written).toList := by
  rw [written, Keyed.mapMem_eq_map members fun _ j => j.written]

/-- Writing a value down and taking its value changes nothing. -/
theorem value_written (j : Json) : j.written.value = j := by
  induction j using Json.written.induct with
  | case6 elements ih =>
      rw [written, Written.value, List.map_map]
      have hmap : elements.map (Written.value ∘ written) = elements.map id :=
        List.map_congr_left ih
      rw [hmap, List.map_id]
  | case7 members ih =>
      rw [written_object, Written.value, Keyed.toList_map, List.map_map]
      have hmap : members.toList.map
          ((fun m => (m.1, m.2.value)) ∘ fun e => (e.1, e.2.written)) =
          members.toList.map id :=
        List.map_congr_left fun e he => by
          simp only [Function.comp_apply, id_eq, ih e.1 e.2 he]
      rw [hmap, List.map_id, Keyed.ofList_toList]
  | _ => simp only [written, Written.value]

end Json

end SampleSchema
