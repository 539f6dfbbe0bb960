/-!
# Usage

Why some arguments lead to no run.

Help and the version are asked for, and printing them is a success. All else
is a mistake in the arguments.

## Main definitions

* `Usage`: What is to be said instead of a run.
* `Usage.exitCode`: The code with which the program ends.
* `Usage.message`: What is said about a mistake.
-/

namespace SampleSchema

/-- What is to be said instead of a run. -/
inductive Usage
  /-- Help was asked for. -/
  | help
  /-- The version was asked for. -/
  | version
  /-- There are no arguments at all. -/
  | noArguments
  /-- There are options but no command. -/
  | noCommand
  /-- A command has fewer operands than it needs. -/
  | missingOperand
  /-- An option is not known, or there are more operands than expected. -/
  | unknownArgument
  /-- A command is not known. -/
  | unknownCommand
  /-- A value is missing or not allowed. -/
  | badValue
  /-- An option that counts once is given twice. -/
  | repeated
  /-- A switch is given a value. -/
  | needlessValue
  deriving DecidableEq, Repr

namespace Usage

/-- The code with which the program ends. -/
def exitCode : Usage → UInt32
  | help | version => 0
  | _ => 2

/-- What is said about a mistake. -/
def message : Usage → String
  | help | version => ""
  | noArguments => "no arguments were given"
  | noCommand => "a command is required but one was not given"
  | missingOperand => "a required argument was not given"
  | unknownArgument => "unexpected argument"
  | unknownCommand => "unrecognized command"
  | badValue => "a value is missing or invalid"
  | repeated => "an option cannot be used multiple times"
  | needlessValue => "unexpected value for an option that takes none"

end Usage

end SampleSchema
