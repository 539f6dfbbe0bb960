import SampleSchema.CommandLine.Run

/-!
# The Program

What the program does with its arguments, as far as anyone outside can tell.

The answer goes to the output, and nothing else does, so that the output of a
run that fails is empty. An error is reported on one line of its own. Help
and the version are answers to what was asked for.

## Main definitions

* `Program.name`, `Program.version`: How the program presents itself.
* `Outcome`: What arguments lead to.
* `Outcome.ofArguments`: The outcome of a run from its arguments.
* `Outcome.exitCode`, `Outcome.output`, `Outcome.complaint`: What can be seen
  of it.
-/

namespace SampleSchema

namespace Program

/-- The name of the program. -/
def name : String := "schema-genson"

/-- The version of the program. -/
def version : String := "0.1.0"

/-- What the program is for and how it is called. -/
def help : String :=
  "\n".intercalate [
    "Infer and merge JSON schemas from sample data",
    "",
    "Usage: " ++ name ++ " [OPTIONS] <COMMAND>",
    "",
    "Commands:",
    "  infer     Infer one schema describing every sample",
    "  merge     Merge schema files into one schema",
    "  extend    Extend an existing schema with new samples",
    "  compare   Check whether two schemas describe the same shape",
    "  superset  Check whether one schema accepts everything another accepts",
    "  help      Print this message or the help of the given subcommand(s)",
    "",
    "Options:",
    "  -C, --config <CONFIG>  Configuration file (YAML or JSON)",
    "      --no-required      Do not infer `required` lists",
    "  -p, --pretty           Pretty-print the emitted JSON",
    "  -v, --verbose          Verbose output",
    "  -h, --help             Print help",
    "  -V, --version          Print version",
    ""]

end Program

/-- What arguments lead to. -/
inductive Outcome
  /-- No run, but something to be said about the arguments. -/
  | usage (reason : Usage)
  /-- A run that failed. -/
  | failure (error : Error)
  /-- A run that printed something. -/
  | success (text : String)

namespace Outcome

/-- The outcome of a run from its arguments. -/
def ofArguments (args : List String) (s : Surroundings) (r : Readers := {}) : Outcome :=
  match Invocation.parse args with
  | .error reason => usage reason
  | .ok i =>
      match i.run r s with
      | .error error => failure error
      | .ok text => success text

/-- The code with which the program ends. -/
def exitCode : Outcome → UInt32
  | usage reason => reason.exitCode
  | failure _ => 1
  | success _ => 0

/-- What is printed as the answer. -/
def output : Outcome → String
  | usage .help => Program.help
  | usage .version => Program.name ++ " " ++ Program.version ++ "\n"
  | usage _ => ""
  | failure _ => ""
  | success text => text

/-- What is printed about an error, if there is one. -/
def complaint : Outcome → Option String
  | usage .help | usage .version => none
  | usage reason => some ("error: " ++ reason.message ++ "\n\n" ++ Program.help)
  | failure error => some ("Error: " ++ error.message ++ "\n")
  | success _ => none

end Outcome

end SampleSchema
