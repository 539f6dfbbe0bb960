import SampleSchema.Json.Parser
import SampleSchema.RecordPath.Notation
import SampleSchema.Yaml.Node

/-!
# Readers

What a run makes of texts in formats that are not its own.

JSON, YAML and the notation of queries are defined elsewhere. What a run does
with a text depends only on what is read from it: a value, a node, or a way to
look into documents. So a run is given its readers, and whatever is said about
runs holds with any of them.

The readers of this library are there by default. They read all of JSON. Of
YAML they leave out references to other nodes, scalars that are laid out as
blocks of lines and declarations of tag prefixes, and of queries filters; these
they refuse. Other readers may have other reasons to refuse a text.

## Main definitions

* `Query.reader`: Queries as this library reads them.
* `Readers`: The readers that a run is given.
-/

namespace SampleSchema

/-- Queries as this library reads them. What a query finds is a list. No reason is
    given for a text that is no query. -/
def Query.reader (text : String) : Except (Option String) (Json → Json) :=
  match parse? text with
  | some chain => .ok fun whole => .array (run chain whole)
  | none => .error none

/-- The readers that a run is given. -/
structure Readers where
  /-- The value of a JSON text. -/
  json : String → Except Json.Error Json := Json.parse
  /-- The node of a YAML document, if there is one. -/
  yaml : Yaml.Reader := Yaml.Node.parse
  /-- What a query finds in a document. If the text is no query there may be a
      reason for it. -/
  query : String → Except (Option String) (Json → Json) := Query.reader

end SampleSchema
