import SampleSchema.Reading.Source
import SampleSchema.Yaml.Node

/-!
# Reading from YAML

A YAML document as a source of records.

A scalar has no kind of its own; what it is depends on what is looked for. A
text is any scalar as it stands, quoted or not. A truth value is one of six
words without quotes. Where a value may be missing, an empty scalar without
quotes, a tilde or one of three spellings of null means that it is. A list or
a record may also be left empty, and so may the whole document.

A record is a mapping; a list is never taken for one. Of a name that is
given twice in a table the last value counts, in a record it is a fault.
Collections may nest 128 deep.

## Main definitions

* `FromYaml`: Readers of YAML nodes.
* `Yaml.isNull`: A word means that there is nothing.
* `Yaml.Node.written?`: A node as JSON, if it can be seen as such.
* `FromYaml.run`: A reader applied to a text.
-/

namespace SampleSchema

/-- Readers of YAML nodes, or of a document without any, given the depth to
    which collections may still nest. -/
abbrev FromYaml := ReaderT Nat (ReaderT (Option Yaml.Node) (Except Yaml.Fault))

namespace Yaml

/-- A word means that there is nothing. -/
def isNull (s : String) : Bool := ["null", "Null", "NULL", "~"].contains s

/-- The truth value that a word stands for. -/
def truth? (s : String) : Option Bool :=
  if ["true", "True", "TRUE"].contains s then some true
  else if ["false", "False", "FALSE"].contains s then some false
  else none

/-- There is no node, or nothing is written in its place. -/
def isAbsent : Option Node → Bool
  | none => true
  | some (.scalar text plain _) => plain && text.isEmpty
  | _ => false

/-- The text of a scalar as a JSON value, given its tag. -/
def scalarWritten? (text : String) (plain : Bool) : Option String → Option Json.Written
  | none => some (if plain && (text.isEmpty || isNull text) then .null else .string text)
  | some tag =>
      if tag.startsWith "!" then none
      else if tag = "tag:yaml.org,2002:null" then if isNull text then some .null else none
      else if tag = "tag:yaml.org,2002:bool" then (truth? text).map .bool
      else some (.string text)

/-- A node as JSON, if it can be seen as such. Tags of a document's own cannot. -/
def Node.written? : Node → Option Json.Written
  | .scalar text plain tag => scalarWritten? text plain tag
  | .list items tag =>
      if (tag.getD "").startsWith "!" then none
      else do
        let elements ← items.mapM fun n => n.written?
        pure (.array elements)
  | .map entries tag =>
      if (tag.getD "").startsWith "!" then none
      else do
        let members ← entries.mapM fun e =>
          match e.1 with
          | .scalar name false _ => do
              let w ← e.2.written?
              pure (name, w)
          | .scalar name true tag =>
              match scalarWritten? name true tag with
              | some (.string name) => do
                  let w ← e.2.written?
                  pure (name, w)
              | _ => none
          | _ => none
        pure (.object members)
termination_by n => n
decreasing_by
  · decreasing_tactic
  all_goals
    next hm =>
      have hlt := List.sizeOf_lt_of_mem hm
      have hpair : sizeOf e = 1 + sizeOf e.1 + sizeOf e.2 := by cases e; rfl
      simp only [Node.map.sizeOf_spec]
      omega

end Yaml

namespace FromYaml

open Yaml

/-- A collection's inside, if collections may still nest. -/
def within {α : Type} (inside : Nat → Except Fault α) : Nat → Except Fault α
  | 0 => .error .tooDeep
  | depth + 1 => inside depth

/-- The text of a key. -/
def keyText : Node → Except Fault String
  | .scalar text _ _ => .ok text
  | _ => .error (.wrongShape "a string")

/-- Take in the entries of a mapping, remembering which fields were given. -/
def takeEntries {σ : Type} (fields : List (Field FromYaml σ)) (depth : Nat) :
    List (Node × Node) → List String → σ → Except Fault σ
  | [], _, state => .ok state
  | (k, v) :: rest, given, state => do
      let name ← keyText k
      match Field.named? fields name with
      | none => takeEntries fields depth rest given state
      | some f =>
          if f.name ∈ given then throw (.repeatedField f.name)
          else
            let change ← f.update depth (some v)
            takeEntries fields depth rest (f.name :: given) (change state)

instance : Source FromYaml where
  boolean := fun _ n =>
    match n with
    | some (.scalar text true _) =>
        match truth? text with
        | some b => .ok b
        | none => .error (.wrongShape "a boolean")
    | _ => .error (.wrongShape "a boolean")
  string := fun _ n =>
    match n with
    | some (.scalar text _ _) => .ok text
    | _ => .error (.wrongShape "a string")
  optional value := fun depth n =>
    match n with
    | some (.scalar text true none) =>
        if text.isEmpty || isNull text then .ok none else some <$> value depth n
    | some (.scalar text true (some tag)) =>
        if tag = "tag:yaml.org,2002:null" then
          if isNull text then .ok none else .error (.wrongShape "null")
        else some <$> value depth n
    | some _ => some <$> value depth n
    | none => .ok none
  list item := fun depth n =>
    match n with
    | some (.list items _) => within (fun depth => items.mapM fun i => item depth (some i)) depth
    | n => if isAbsent n then .ok [] else .error (.wrongShape "a sequence")
  keyed item := fun depth n =>
    match n with
    | some (.map entries _) =>
        within (fun depth => do
          let entries ← entries.mapM fun e => do
            let name ← keyText e.1
            let a ← item depth (some e.2)
            pure (name, a)
          pure (Keyed.ofList entries)) depth
    | n => if isAbsent n then .ok .empty else .error (.wrongShape "a map")
  record kind fields start := fun depth n =>
    match n with
    | some (.map entries _) => within (fun depth => takeEntries fields depth entries [] start) depth
    | n => if isAbsent n then .ok start else .error (.wrongShape ("struct " ++ kind))
  choice choices := fun _ n =>
    match n with
    | some (.scalar text _ tag) =>
        if (tag.getD "").startsWith "!" then .error (.wrongShape "a choice")
        else
          match choices.find? fun c => c.1 == text with
          | some c => .ok c.2
          | none => .error (.wrongShape "a choice")
    | _ => .error (.wrongShape "a choice")
  anything kind sense := fun _ n =>
    match (n.bind Node.written?).bind sense with
    | some a => .ok a
    | none => .error (.wrongShape kind)
  tooDeep := fun _ _ => .error .tooDeep

/-- Collections may nest this deep. -/
def depthLimit : Nat := 128

/-- A reader applied to a text, given how the document in it is read. -/
def run {α : Type} (document : Yaml.Reader) (reader : FromYaml α) (text : String) :
    Except Fault α := do
  let n ← document text
  reader depthLimit n

end FromYaml

end SampleSchema
