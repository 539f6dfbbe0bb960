import SampleSchema.CommandLine.Program

/-!
# Main

The program. The files that the arguments name are read before the run and
handed to it, and what the run leads to is printed.
-/

namespace SampleSchema

/-- The files that an invocation names. -/
def Invocation.paths (i : Invocation) : List String :=
  i.settings.toList ++
    match i.command with
    | .infer o => o.files
    | .merge schemas => schemas
    | .extend schema o => schema :: o.files
    | .compare left right _ => [left, right]
    | .superset main sub => [main, sub]

/-- The invocation needs what is on standard input. -/
def Invocation.usesInput (i : Invocation) : Bool :=
  i.command.samples?.any fun o => o.files.isEmpty

/-- The text that some bytes encode. -/
def textOf (bytes : ByteArray) : Except ReadFault String :=
  match String.fromUTF8? bytes with
  | some text => .ok text
  | none => .error .notText

/-- Read a file. -/
def readFile (path : String) : IO (Except ReadFault String) := do
  try
    let bytes ← IO.FS.readBinFile path
    pure (textOf bytes)
  catch
    | .noFileOrDirectory .. => pure (.error .missing)
    | .inappropriateType .. => pure (.error .directory)
    | .resourceBusy .. => pure (.error .directory)
    | reason => pure (.error (.system (toString reason)))

/-- Read what an invocation needs. -/
def gather (i : Invocation) : IO Surroundings := do
  let files ← i.paths.mapM fun path => do
    let text ← readFile path
    pure (path, text)
  let input ← if i.usesInput then textOf <$> (← IO.getStdin).readBinToEnd else pure (.ok "")
  pure {
    file := fun path => (files.lookup path).getD (.error .missing)
    standardInput := input }

end SampleSchema

open SampleSchema

def main (args : List String) : IO UInt32 := do
  let surroundings ←
    match Invocation.parse args with
    | .ok i => gather i
    | .error _ => pure { file := fun _ => .error .missing, standardInput := .ok "" }
  let outcome := Outcome.ofArguments args surroundings
  (← IO.getStdout).putStr outcome.output
  match outcome.complaint with
  | some text => (← IO.getStderr).putStr text
  | none => pure ()
  pure outcome.exitCode
