import SampleSchema.CommandLine.Files
import SampleSchema.CommandLine.Invocation
import SampleSchema.Input.Decode
import SampleSchema.Settings

/-!
# Runs

What an invocation leads to.

Settings come first, whatever the command. Then the files are read in the
order in which they are named, schemas before samples, and the first fault
ends the run. Arguments add to the settings: a format or a record path
replaces the one there, names of maps are appended, and a switch can only be
turned on.

A run is given its surroundings and the readers of formats that are not its own.

## Main definitions

* `Settings.read`: The settings in a file.
* `Schema.read`: The schema in a file.
* `readSamples`: The samples of a command.
* `Invocation.settingsFor`: The settings in force.
* `Invocation.answer`: What a command finds out.
* `Invocation.run`: What is printed.
-/

namespace SampleSchema

/-- The settings in a file. JSON only if the extension says so. -/
def Settings.read (r : Readers) (s : Surroundings) (path : String) : Except Error Settings :=
  match s.file path with
  | .error .missing => .error (.fileNotFound path)
  | .error fault =>
      .error (.config ("Failed to read config file '" ++ path ++ "': " ++ fault.message))
  | .ok text =>
      if hasExtension path ["json"] then (parseJson text).mapError .json
      else (parseYaml text r.yaml).mapError .yaml

/-- The schema in a file. YAML only if the extension says so. -/
def Schema.read (r : Readers) (s : Surroundings) (path : String) : Except Error Schema := do
  let text ← (s.file path).mapError (ReadFault.error path)
  if hasExtension path ["yaml", "yml"] then (parseYaml text r.yaml).mapError .yaml
  else (parse text).mapError .json

/-- The samples in a file. -/
def InputSettings.read (i : InputSettings) (r : Readers) (s : Surroundings) (path : String) :
    Except Error (List Json) := do
  let text ← (s.file path).mapError (ReadFault.error path)
  (i.decode text r).mapError fun reason =>
    reason.error.inContext ("Failed to decode '" ++ path ++ "'")

/-- The samples on standard input. -/
def InputSettings.readInput (i : InputSettings) (r : Readers) (s : Surroundings) :
    Except Error (List Json) := do
  let text ← s.standardInput.mapError fun fault =>
    (Error.io fault.message).inContext "Failed to read stdin"
  (i.decode text r).mapError DecodeError.error

/-- The samples of a command. There must be some. -/
def readSamples (settings : Settings) (r : Readers) (s : Surroundings) (files : List String) :
    Except Error (List Sample) := do
  let values ←
    if files.isEmpty then settings.input.readInput r s
    else List.flatten <$> files.mapM (settings.input.read r s)
  if values.isEmpty then throw DecodeError.noSamples.error
  else pure (values.map settings.designation.convert)

/-- Settings with what a command says about samples. -/
def SampleOptions.apply (o : SampleOptions) (settings : Settings) : Settings where
  noRequired := settings.noRequired
  pretty := settings.pretty
  mapKeys := settings.mapKeys ++ o.mapKeys
  mapRoot := settings.mapRoot || o.mapRoot
  input :=
    { format := o.format.getD settings.input.format
      recordPath := o.recordPath.or settings.input.recordPath
      splitArray := settings.input.splitArray || o.splitArray }

/-- What a command says about samples, if anything. -/
def Command.samples? : Command → Option SampleOptions
  | infer samples | extend _ samples => some samples
  | merge _ | compare .. | superset .. => none

namespace Invocation

/-- The settings in force. -/
def settingsFor (i : Invocation) (r : Readers) (s : Surroundings) : Except Error Settings := do
  let settings ←
    match i.settings with
    | some path => Settings.read r s path
    | none => pure {}
  let settings :=
    { settings with
      noRequired := settings.noRequired || i.noRequired
      pretty := settings.pretty || i.pretty }
  pure (i.command.samples?.elim settings fun o => o.apply settings)

/-- What a command finds out. -/
def answer (settings : Settings) (r : Readers) (s : Surroundings) : Command → Except Error Json
  | .infer o => do
      let samples ← readSamples settings r s o.files
      let found ← (Schema.inferAll settings.options samples).mapError InferError.error
      pure found.json
  | .merge paths => do
      let schemas ← paths.mapM (Schema.read r s)
      let found ← (Schema.merge settings.options schemas).mapError MergeError.error
      pure found.json
  | .extend path o => do
      let schema ← Schema.read r s path
      let samples ← readSamples settings r s o.files
      let found ← (Schema.extendAll settings.options schema samples).mapError InferError.error
      pure found.json
  | .compare left right ignoreRequired => do
      let left ← Schema.read r s left
      let right ← Schema.read r s right
      pure (.object (.ofList [("equal", .bool (Schema.equal { ignoreRequired } left right))]))
  | .superset main sub => do
      let main ← Schema.read r s main
      let sub ← Schema.read r s sub
      let covers ← (Schema.covers main sub).mapError MergeError.error
      pure (.object (.ofList [("superset", .bool covers)]))

/-- What is printed, on a line or several. -/
def run (i : Invocation) (r : Readers) (s : Surroundings) : Except Error String := do
  let settings ← i.settingsFor r s
  let found ← answer settings r s i.command
  pure ((if settings.pretty then found.pretty else found.compact) ++ "\n")

end Invocation

end SampleSchema
