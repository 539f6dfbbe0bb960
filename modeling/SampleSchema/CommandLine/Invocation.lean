import SampleSchema.CommandLine.Arguments

/-!
# Invocations

What the program is asked to do.

The arguments are the options of the program, the name of a command, and the
options and operands of that command. Some options belong to the program and
may stand on either side of the name; of two settings files the one after the
name counts.

The command is read as a whole before the options in front of it are looked
at for a last time.

## Main definitions

* `SampleOptions`: Where samples come from and how they are read.
* `Command`: What to do.
* `Invocation`: What to do, and under which settings.
* `Invocation.parse`: The invocation that some arguments are.
-/

namespace SampleSchema

/-- Where samples come from and how they are read. -/
structure SampleOptions where
  /-- The files with samples. Without any, they come from standard input. -/
  files : List String := []
  format : Option InputFormat := none
  recordPath : Option String := none
  splitArray : Bool := false
  mapKeys : List String := []
  mapRoot : Bool := false
  deriving DecidableEq, Repr

/-- What to do. Operands are names of files. -/
inductive Command
  /-- One schema for all samples. -/
  | infer (samples : SampleOptions)
  /-- One schema for some schemas. -/
  | merge (schemas : List String)
  /-- A schema widened by samples. -/
  | extend (schema : String) (samples : SampleOptions)
  /-- Two schemas mean the same. -/
  | compare (left right : String) (ignoreRequired : Bool)
  /-- One schema covers another. -/
  | superset (main sub : String)
  deriving DecidableEq, Repr

/-- What to do, and under which settings. -/
structure Invocation where
  command : Command
  /-- The file with settings. -/
  settings : Option String := none
  noRequired : Bool := false
  pretty : Bool := false
  verbose : Bool := false
  deriving DecidableEq, Repr

namespace SampleOptions

/-- The options that concern samples. -/
def flags : List Flag := [.format, .recordPath, .splitArray, .mapKey, .mapRoot]

/-- Options for samples from some files. -/
def ofGiven (g : Given) (files : List String) : SampleOptions where
  files := files
  format := (g.value? .format).bind InputFormat.ofName?
  recordPath := g.value? .recordPath
  splitArray := g.has .splitArray
  mapKeys := g.values .mapKey
  mapRoot := g.has .mapRoot

end SampleOptions

namespace Command

/-- The commands by name, each with what may be given for it. -/
def levels : List (String × Level) :=
  [ ("infer", { flags := Flag.everywhere ++ SampleOptions.flags, more := true }),
    ("merge", { flags := Flag.everywhere, more := true }),
    ("extend", { flags := Flag.everywhere ++ SampleOptions.flags, places := 1, more := true }),
    ("compare", { flags := Flag.everywhere ++ [.ignoreRequired], places := 2 }),
    ("superset", { flags := Flag.everywhere, places := 2 }) ]

/-- The names of commands, with the one that asks for help. -/
def names : List String := levels.map Prod.fst ++ ["help"]

/-- The command of a name, from what was given for it. -/
def ofGiven (name : String) (g : Given) : Except Usage Command :=
  match name, g.operands with
  | "infer", files => .ok (.infer (.ofGiven g files))
  | "merge", schema :: schemas => .ok (.merge (schema :: schemas))
  | "extend", schema :: files => .ok (.extend schema (.ofGiven g files))
  | "compare", [left, right] => .ok (.compare left right (g.has .ignoreRequired))
  | "superset", [main, sub] => .ok (.superset main sub)
  | _, _ => .error .missingOperand

/-- What is to be said for some arguments after `help`. -/
def help : List String → Usage
  | [] => .help
  | [name] => if names.contains name then .help else .unknownCommand
  | _ => .unknownCommand

end Command

namespace Invocation

/-- What may be given in front of a command. -/
def outermost : Level where
  flags := .version :: Flag.everywhere
  commands := Command.names

/-- The invocation that some arguments are. -/
def parse (args : List String) : Except Usage Invocation := do
  let (outer, rest) ← outermost.take args {}
  match rest with
  | [] =>
      let outer ← outer.settle
      throw (if outer.flags.isEmpty then .noArguments else .noCommand)
  | name :: rest =>
      match Command.levels.lookup name with
      | none => throw (Command.help rest)
      | some level =>
          -- What is still open in front of the command waits until it is read.
          let (inner, _) ← level.take rest {}
          let inner ← inner.settle
          let command ← Command.ofGiven name inner
          let outer ← outer.settle
          pure
            { command
              settings := (inner.value? .config).or (outer.value? .config)
              noRequired := outer.has .noRequired || inner.has .noRequired
              pretty := outer.has .pretty || inner.has .pretty
              verbose := outer.has .verbose || inner.has .verbose }

end Invocation

end SampleSchema
