import SampleSchema.CommandLine.Usage
import SampleSchema.Input.Basic

/-!
# Arguments

Taking arguments apart into options and operands.

An option has a long name after two dashes and perhaps a letter after one.
Letters can share a dash. An option with a value takes it from the same
argument, after an equals sign or directly after its letter, or else from the
next argument, unless that is an option of its own. After two dashes alone
everything is an operand.

What has been read is settled a step late: a value or a row of operands is
looked at when the next option or the next place begins, or at the end. An
unknown argument is therefore reported before a bad value right in front of
it, and a bad value before anything further on.

## Main definitions

* `Flag`: An option.
* `Level`: What may be given at one level.
* `Given`: What has been given there.
* `Given.settle`: Look at what is still open.
* `Level.take`: Take in arguments, up to a command.
-/

namespace SampleSchema

/-- An option. -/
inductive Flag
  | help
  | version
  | config
  | noRequired
  | pretty
  | verbose
  | format
  | recordPath
  | splitArray
  | mapKey
  | mapRoot
  | ignoreRequired
  deriving DecidableEq, Repr

namespace Flag

/-- The long name of an option. -/
def name : Flag → String
  | help => "help"
  | version => "version"
  | config => "config"
  | noRequired => "no-required"
  | pretty => "pretty"
  | verbose => "verbose"
  | format => "format"
  | recordPath => "record-path"
  | splitArray => "split-array"
  | mapKey => "map-key"
  | mapRoot => "map-root"
  | ignoreRequired => "ignore-required"

/-- The letter of an option, if it has one. -/
def letter? : Flag → Option Char
  | help => some 'h'
  | version => some 'V'
  | config => some 'C'
  | pretty => some 'p'
  | verbose => some 'v'
  | format => some 'f'
  | _ => none

/-- The option has a value. -/
def hasValue : Flag → Bool
  | config | format | recordPath | mapKey => true
  | _ => false

/-- The option may be given several times. -/
def mayRepeat : Flag → Bool
  | mapKey => true
  | _ => false

/-- The option may have the value. -/
def admits : Flag → String → Bool
  | config, v => !v.isEmpty
  | format, v => (InputFormat.ofName? v).isSome
  | _, _ => true

/-- The options that can be given before and after a command. -/
def everywhere : List Flag := [config, noRequired, pretty, verbose, help]

end Flag

/-- What may be given at one level. -/
structure Level where
  flags : List Flag
  /-- How many places there are for single operands. -/
  places : Nat := 0
  /-- Any number of operands may follow those. -/
  more : Bool := false
  /-- The commands that lead to a further level. -/
  commands : List String := []

/-- What has been given at one level. -/
structure Given where
  /-- The options, with their values if they have any. -/
  flags : List (Flag × Option String) := []
  /-- An option that has not been looked at, with its value unless that is
      still to come. -/
  pending : Option (Flag × Option String) := none
  operands : List String := []

namespace Given

/-- The option has been given. -/
def has (g : Given) (f : Flag) : Bool := g.flags.any fun e => e.1 == f

/-- The values of an option. -/
def values (g : Given) (f : Flag) : List String :=
  g.flags.filterMap fun e => if e.1 = f then e.2 else none

/-- The value of an option. -/
def value? (g : Given) (f : Flag) : Option String := (g.values f).head?

/-- An option waits for its value. -/
def isWaiting (g : Given) : Bool := g.pending.any fun e => e.2.isNone

/-- Look at what is still open. All operands are names of files. -/
def settle (g : Given) : Except Usage Given :=
  if g.operands.any String.isEmpty then .error .badValue
  else
    match g.pending with
    | none => .ok g
    | some (_, none) => .error .badValue
    | some (f, some v) =>
        if g.has f && !f.mayRepeat then .error .repeated
        else if f.admits v then
          .ok { g with flags := g.flags ++ [(f, some v)], pending := none }
        else .error .badValue

/-- Take in an option without value. -/
def switch (g : Given) (f : Flag) : Except Usage Given := do
  let g ← g.settle
  match f with
  | .help => throw .help
  | .version => throw .version
  | f => if g.has f then throw .repeated else pure { g with flags := g.flags ++ [(f, none)] }

/-- Take in an option with a value, which may still be to come. -/
def withValue (g : Given) (f : Flag) (value : Option String) : Except Usage Given := do
  let g ← g.settle
  let g := { g with pending := some (f, value) }
  if value.isSome then g.settle else pure g

end Given

namespace Level

/-- Take in an option by its long name. -/
def takeNamed (l : Level) (name : String) (value : Option String) (g : Given) :
    Except Usage Given :=
  match l.flags.find? fun f => f.name == name with
  | none => .error .unknownArgument
  | some f =>
      if f.hasValue then g.withValue f value
      else if value.isSome then .error .needlessValue
      else g.switch f

/-- Take in options by their letters. -/
def takeLetters (l : Level) : List Char → Given → Except Usage Given
  | [], g => .ok g
  | c :: cs, g =>
      match l.flags.find? fun f => f.letter? == some c with
      | none => .error .unknownArgument
      | some f =>
          if f.hasValue then
            match cs with
            | [] => g.withValue f none
            | '=' :: cs => g.withValue f (some (String.ofList cs))
            | cs => g.withValue f (some (String.ofList cs))
          else do
            let g ← g.switch f
            l.takeLetters cs g

/-- Take in an operand. Those of the last place are looked at together. -/
def takeOperand (l : Level) (unexpected : Usage) (a : String) (g : Given) :
    Except Usage Given := do
  let n := g.operands.length
  if n < l.places || l.more then
    -- Another operand of the last place leaves the row open.
    let g ← if l.places < n && g.pending.isNone then pure g else g.settle
    pure { g with operands := g.operands ++ [a] }
  else throw unexpected

/-- The mistake that an operand in excess is. -/
def excess (l : Level) : Usage := if l.commands.isEmpty then .unknownArgument else .unknownCommand

/-- Take in what follows two dashes alone. No command can be given there. -/
def takeOperands (l : Level) : List String → Given → Except Usage Given
  | [], g => .ok g
  | a :: rest, g => do
      let g ← l.takeOperand (if l.commands.contains a then .unknownArgument else l.excess) a g
      l.takeOperands rest g

/-- The part of a text before the first equals sign, and the part after. -/
def splitValue (cs : List Char) : String × Option String :=
  let name := cs.takeWhile (· != '=')
  match cs.drop name.length with
  | _ :: value => (String.ofList name, some (String.ofList value))
  | [] => (String.ofList name, none)

/-- Take in arguments, up to a command. What is left starts with it. -/
def take (l : Level) : List String → Given → Except Usage (Given × List String)
  | [], g => .ok (g, [])
  | a :: rest, g =>
      -- Where a value is awaited, even the name of a command is one.
      if l.commands.contains a && !g.isWaiting then .ok (g, a :: rest)
      else
        match a.toList with
        | ['-', '-'] => do
            let g ← l.takeOperands rest g
            pure (g, [])
        | '-' :: '-' :: cs => do
            let (name, value) := splitValue cs
            let g ← l.takeNamed name value g
            l.take rest g
        | '-' :: c :: cs => do
            let g ← l.takeLetters (c :: cs) g
            l.take rest g
        | _ =>
            match g.pending with
            | some (f, none) => l.take rest { g with pending := some (f, some a) }
            | _ => do
                let g ← l.takeOperand l.excess a g
                l.take rest g

end Level

end SampleSchema
