import SampleSchema.Json.Misfit
import SampleSchema.Reading.Source

/-!
# Reading from JSON Values

A JSON value as a source of records.

The value is well-formed, so only its shape can be wrong. Members are met in
ascending order of name, which decides what is reported first. A record may
also be written as a list of the values of its fields, in order; the list may
be shorter than the fields are many, but not longer.

## Main definitions

* `FromJson`: Readers of JSON values.
* `Json.found`: What a value is, for a message.
* `chosen`: The choice with a name.
-/

namespace SampleSchema

/-- Readers of JSON values. -/
abbrev FromJson := ReaderT Json (Except Json.Misfit)

namespace Json

/-- What a value is, for a message. -/
def found : Json → Found
  | .null => .null
  | .bool b => .bool b
  | .int n => .int n
  | .float x => .float x
  | .string s => .string s
  | .array _ => .sequence
  | .object _ => .map

/-- The choice with a name. -/
def chosen {α : Type} (choices : List (String × α)) (name : String) : Except Misfit α :=
  match choices.find? fun c => c.1 == name with
  | some c => .ok c.2
  | none => .error (.unknownChoice name (choices.map Prod.fst))

end Json

namespace FromJson

open Json

/-- A value of another kind than the one looked for. -/
def wrongKind {α : Type} (wanted : Wanted) (j : Json) : Except Misfit α :=
  .error (.wrongKind j.found wanted)

/-- Take in the members of an object, remembering which fields were given. -/
def takeMembers {σ : Type} (fields : List (Field FromJson σ)) :
    List (String × Json) → List String → σ → Except Misfit σ
  | [], _, state => .ok state
  | (name, j) :: rest, given, state =>
      match Field.named? fields name with
      | none => takeMembers fields rest given state
      | some f =>
          if f.name ∈ given then .error (.repeatedField f.name)
          else do
            let change ← f.update j
            takeMembers fields rest (f.name :: given) (change state)

/-- Take in the elements of a list as the fields of a record, in order. What
    is left of the list is returned as well. -/
def takeElements {σ : Type} : List (Field FromJson σ) → List Json → σ →
    Except Misfit (σ × List Json)
  | [], rest, state => .ok (state, rest)
  | _, [], state => .ok (state, [])
  | f :: fields, j :: rest, state => do
      let change ← f.update j
      takeElements fields rest (change state)

instance : Source FromJson where
  boolean := fun
    | .bool b => .ok b
    | j => wrongKind .boolean j
  string := fun
    | .string s => .ok s
    | j => wrongKind .string j
  optional value := fun
    | .null => .ok none
    | j => some <$> value j
  list item := fun
    | .array elements => elements.mapM item
    | j => wrongKind .sequence j
  keyed item := fun
    | .object members => members.mapM fun _ j => item j
    | j => wrongKind .map j
  record kind fields start := fun
    | .object members => takeMembers fields members.toList [] start
    | .array elements => do
        let (state, rest) ← takeElements fields elements start
        if rest.isEmpty then pure state else throw (.tooManyFields elements.length)
    | j => wrongKind (.record kind) j
  choice choices := fun
    | .string s => chosen choices s
    | .object members =>
        match members.toList with
        | [(name, j)] => do
            let a ← chosen choices name
            match j with
            | .null => pure a
            | j => wrongKind .unit j
        | _ => .error .notOneMember
    | j => wrongKind .choice j
  anything kind sense := fun j =>
    match sense j.written with
    | some a => .ok a
    | none => .error (.noReading kind)
  tooDeep := fun j => wrongKind .map j

end FromJson

end SampleSchema
