import SampleSchema.Json.Parser
import SampleSchema.Reading.FromJson

/-!
# Reading from JSON Texts

A JSON text as a source of records, while it is being parsed.

Shape and spelling are judged in one pass, so whatever is wrong first in the
text is what is reported. Three things can be seen here that no longer show
in a value: a field that is given twice under one name, a tag whose object
repeats its only member, and what stands under a name that means nothing,
which is only skimmed.

A reader is given the depth to which brackets may still nest.

## Main definitions

* `FromText`: Readers of JSON texts.
* `FromText.scalarOf`: A value without brackets that is of some use.
* `FromText.takeElements`: The fields of a record that is written as a list.
* `FromText.run`: A reader applied to a whole text.
-/

namespace SampleSchema

/-- Readers of JSON texts, given the depth to which brackets may still nest. -/
abbrev FromText := ReaderT Nat Json.Parser

namespace FromText

open Json

/-- Give up over a value of the wrong shape. -/
def refused {α : Type} (reason : Misfit) : Parser α := fun _ => refuse reason

/-- A value without brackets of which `use` makes something. -/
def scalarOf {α : Type} (wanted : Wanted) (use : Written → Option α) : Parser α := do
  match ← peek with
  | some '[' => refused (.wrongKind .sequence wanted)
  | some '\x7b' => refused (.wrongKind .map wanted)
  | _ =>
      let w ← Parser.of scalar
      match use w with
      | some a => pure a
      | none => refused (.wrongKind w.value.found wanted)

/-- No value without brackets is of any use. -/
def bracketsMissing {α : Type} (wanted : Wanted) : Parser α := scalarOf wanted fun _ => none

/-- A string. -/
def stringOf (wanted : Wanted) : Parser String :=
  scalarOf wanted fun
    | .string s => some s
    | _ => none

/-- The mark for nothing. -/
def nullOf (wanted : Wanted) : Parser Unit :=
  scalarOf wanted fun
    | .null => some ()
    | _ => none

/-- The named choice, as a reader. -/
def chosenIn {α : Type} (choices : List (String × α)) (name : String) : Parser α :=
  match chosen choices name with
  | .ok a => pure a
  | .error reason => refused reason

/-- The end of a list in which nothing more is looked for. -/
def listEnd (cs : List Char) : Except Trouble (Unit × List Char) :=
  match skipBlanks cs with
  | [] => stopAt .endInList []
  | c :: rest =>
      if c = ']' then .ok ((), rest)
      else if c = ',' then
        match skipBlanks rest with
        | ']' :: rest => stopAt .trailingComma (']' :: rest)
        | rest => stopAt .trailingText rest
      else stopAt .trailingText (c :: rest)

/-- The end of an object that stands for a choice. -/
def choiceEnd (cs : List Char) : Except Trouble (Unit × List Char) :=
  match skipBlanks cs with
  | [] => stopAfter .endInObject []
  | c :: rest => if c = '\x7d' then .ok ((), rest) else stopAfter .expectedValue (c :: rest)

/-- Take in one member of an object, remembering which fields were given. -/
def takeMember {σ : Type} (fields : List (Field FromText σ)) (depth : Nat)
    (state : σ × List String) (name : String) : Parser (σ × List String) :=
  match Field.named? fields name with
  | none => do
      member fun cs => do
        let rest ← skim cs
        pure ((), rest)
      pure state
  | some f =>
      if f.name ∈ state.2 then refused (.repeatedField f.name)
      else do
        let change ← member (f.update depth)
        pure (change state.1, f.name :: state.2)

/-- Take in the elements of a list as the fields of a record, in order. -/
def takeElements {σ : Type} (depth : Nat) : List (Field FromText σ) → Bool → σ → Parser σ
  | [], _, state => do
      Parser.of listEnd
      pure state
  | f :: fields, first, state => do
      if ← hasElement first then
        let change ← f.update depth
        takeElements depth fields false (change state)
      else
        skipOne
        pure state

instance : Source FromText where
  boolean := fun _ => scalarOf .boolean fun
    | .bool b => some b
    | _ => none
  string := fun _ => stringOf .string
  optional value := fun depth => do
    match ← peek with
    | some 'n' =>
        nullOf .unit
        pure none
    | _ => some <$> value depth
  list item := fun depth => do
    match ← peek with
    | some '[' => within (fun depth => listOf (item depth)) depth
    | _ => bracketsMissing .sequence
  keyed item := fun depth => do
    match ← peek with
    | some '\x7b' =>
        let entries ← within (fun depth => foldMembers (fun entries name => do
          let a ← member (item depth)
          pure ((name, a) :: entries)) []) depth
        pure (Keyed.ofList entries.reverse)
    | _ => bracketsMissing .map
  record kind fields start := fun depth => do
    match ← peek with
    | some '\x7b' =>
        let (state, _) ← within (fun depth =>
          foldMembers (takeMember fields depth) (start, [])) depth
        pure state
    | some '[' => within (fun depth => takeElements depth fields true start) depth
    | _ => bracketsMissing (.record kind)
  choice choices := fun depth => do
    match ← peek with
    | some '\x7b' =>
        within (fun _ => do
          let name ← stringOf .choiceName
          let a ← chosenIn choices name
          member (nullOf .unit)
          Parser.of choiceEnd
          pure a) depth
    | some '"' =>
        let name ← stringOf .choice
        chosenIn choices name
    | none => stop .endInValue
    | _ => stop .expectedValue
  anything kind sense := fun depth => do
    let w ← writtenWithin depth
    match sense w with
    | some a => pure a
    | none => refused (.noReading kind)
  tooDeep := fun _ => stop .tooDeep

/-- A reader applied to a whole text. -/
def run {α : Type} (reader : FromText α) (text : String) : Except Json.Error α :=
  wholeText (reader depthLimit) text.toList

end FromText

end SampleSchema
