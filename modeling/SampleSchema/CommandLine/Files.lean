import SampleSchema.Error
import SampleSchema.RecordPath.Steps

/-!
# Files

What can be seen of the files and streams around a run.

A run does not read files itself. It is given what reading them leads to, and
says what that means. A file counts as written in one format or another by
the extension of its name, in which case does not matter.

## Main definitions

* `ReadFault`: Why a file or stream cannot be read.
* `Surroundings`: What reading leads to.
* `extension?`: The extension of a file's name.
* `hasExtension`: A file's name has one of some extensions.
-/

namespace SampleSchema

/-- Why a file or stream cannot be read. -/
inductive ReadFault
  /-- There is no such file. -/
  | missing
  /-- It is a directory. -/
  | directory
  /-- Its bytes are not the encoding of a text. -/
  | notText
  /-- The system gives another reason. -/
  | system (reason : String)

namespace ReadFault

/-- The wording of a fault. -/
def message : ReadFault → String
  | missing => "No such file or directory (os error 2)"
  | directory => "Is a directory (os error 21)"
  | notText => "stream did not contain valid UTF-8"
  | system reason => reason

/-- The error that it is not to be able to read a file. -/
def error (path : String) : ReadFault → Error
  | missing => .fileNotFound path
  | fault => .io fault.message

end ReadFault

/-- What reading leads to. -/
structure Surroundings where
  file : String → Except ReadFault String
  standardInput : Except ReadFault String

/-- A name without its extension, and the extension, in reverse. -/
def splitExtension? (reversed : List Char) : Option (List Char × List Char) :=
  let extension := reversed.takeWhile (· != '.')
  match reversed.drop extension.length with
  | _ :: stem => some (stem, extension)
  | [] => none

/-- The last part of a path, in reverse. A slash at the end does not count, and
    neither does a step that leads nowhere. -/
def lastPart (path : String) : List Char :=
  let parts := (RecordPath.splitAt '/' path.toList).filter fun p => p != [] && p != ['.']
  (parts.getLast?.getD []).reverse

/-- The extension of a file's name: what follows its last dot, unless that is
    the first character. -/
def extension? (path : String) : Option String :=
  match lastPart path with
  | ['.', '.'] => none
  | part =>
      match splitExtension? part with
      | some (_ :: _, extension) => some (String.ofList extension.reverse)
      | _ => none

/-- A file's name has one of some extensions, in lower or upper case. -/
def hasExtension (path : String) (among : List String) : Bool :=
  (extension? path).any fun extension => among.contains extension.toLower

end SampleSchema
