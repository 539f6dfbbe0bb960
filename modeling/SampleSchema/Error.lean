import SampleSchema.Json.Misfit
import SampleSchema.Schema.Infer
import SampleSchema.Schema.Wire
import SampleSchema.Yaml.Fault

/-!
# Errors

Everything that can go wrong, in one type, with its wording.

Each part of the library has causes of its own and reports those. Whoever
uses several parts needs one type for all of them, and this is it. The first
three are about samples and schemas as such; they are the inference errors.
The others are about what was read, where it was read from, and how it was
to be taken apart.

Context can be put in front of an error. What remains of the error then is
its text: it is no longer of any particular kind.

## Main definitions

* `Error`: What went wrong.
* `Error.message`: Its wording.
* `Error.isInference`: It concerns samples and schemas as such.
* `Error.inContext`: The error with some words in front.
* `MergeError.error`, `InferError.error`: The error that a cause is.
-/

namespace SampleSchema

/-- What went wrong. -/
inductive Error
  /-- A value of a kind that has no schema. -/
  | unsupported (what : String)
  /-- There is nothing to merge. -/
  | emptyMerge
  /-- A schema that cannot be used. -/
  | invalidSchema (what : String)
  /-- Settings that cannot be used. -/
  | config (what : String)
  /-- A YAML document that cannot be read. -/
  | yaml (fault : Yaml.Fault)
  /-- A JSON text or value that cannot be read. -/
  | json (reason : Json.Error)
  /-- A record path that cannot be read. -/
  | path (what : String)
  /-- Samples that cannot be read. -/
  | decode (what : String)
  /-- A file or stream that cannot be read. -/
  | io (what : String)
  /-- There is no such file. -/
  | fileNotFound (path : String)
  /-- An error of which only the text is left. -/
  | other (what : String)

namespace Error

/-- The wording of an error. -/
def message : Error → String
  | unsupported what => "Unsupported value type: " ++ what
  | emptyMerge => "Cannot merge an empty list of schemas"
  | invalidSchema what => "Invalid schema: " ++ what
  | config what => "Configuration error: " ++ what
  | yaml fault => "Failed to parse YAML: " ++ fault.message
  | json reason => "Failed to parse JSON: " ++ reason.message
  | path what => "JSONPath error: " ++ what
  | decode what => "Failed to decode input: " ++ what
  | io what => "IO error: " ++ what
  | fileNotFound name => "File not found: " ++ name
  | other what => what

/-- The error concerns samples and schemas as such. -/
def isInference : Error → Bool
  | unsupported _ | emptyMerge | invalidSchema _ => true
  | _ => false

/-- The error with some words in front. -/
def inContext (e : Error) (context : String) : Error := other (context ++ ": " ++ e.message)

end Error

/-- The error that a merge ends in. -/
def MergeError.error : MergeError → Error
  | nothing => .emptyMerge
  | untyped fragment =>
      .invalidSchema ("cannot merge a schema without a type: " ++ fragment.json.compact)

/-- The error that an inference ends in. -/
def InferError.error : InferError → Error
  | notFinite x => .unsupported ("non-finite number " ++ (Binary.ofFloat x).text)
  | merge reason => reason.error

/-- The error that a value of the wrong shape is. -/
def Error.ofMisfit (reason : Json.Misfit) : Error := .json (.misfit reason)

end SampleSchema
