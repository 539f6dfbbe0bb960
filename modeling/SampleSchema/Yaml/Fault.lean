/-!
# Faults in a YAML Document

What can be wrong with a YAML document, from its characters to the shape of
what it says.

## Main definitions

* `Yaml.Fault`: What is wrong.
* `Yaml.Fault.message`: Its wording.
-/

namespace SampleSchema

namespace Yaml

/-- What is wrong with a document. -/
inductive Fault
  /-- A control character outside of those that a document may hold. -/
  | badCharacter
  /-- A character starts no token. -/
  | noToken
  /-- A directive is neither a version nor a tag prefix. -/
  | badDirective
  /-- A tag is not written in any of the three ways. -/
  | badTag
  /-- A tag uses a prefix that is not declared. -/
  | unknownPrefix
  /-- References to other nodes are not read. -/
  | reference
  /-- Scalars that are laid out as blocks of lines are not read. -/
  | blockScalar
  /-- A line of its own should have been a key. -/
  | missingColon
  /-- An entry, key or value stands where none may begin. -/
  | misplacedIndicator
  /-- A quoted scalar is not closed. -/
  | unclosedQuote
  /-- A quoted scalar runs over the border of a document. -/
  | quoteOverBorder
  /-- An escape is not one of those that exist. -/
  | badEscape
  /-- A line of a plain scalar is indented by a tab. -/
  | tabIndentation
  /-- A colon in a flow collection runs into an indicator. -/
  | colonInFlow
  /-- Something else stands where a node is expected. -/
  | expectedNode
  /-- Something else stands where an entry or the end of a collection is
      expected. -/
  | expectedEnd
  /-- Something follows a document without starting a new one. -/
  | expectedStart
  /-- There is a second document. -/
  | severalDocuments
  /-- The value is not of the shape looked for. -/
  | wrongShape (wanted : String)
  /-- One field is given twice. -/
  | repeatedField (name : String)
  /-- The nesting is deeper than what is allowed. -/
  | tooDeep
  /-- A reader gives another reason. -/
  | other (reason : String)
  deriving DecidableEq, Repr

/-- The wording of a fault. -/
def Fault.message : Fault → String
  | badCharacter => "control characters are not allowed"
  | noToken => "found character that cannot start any token"
  | badDirective => "found unknown directive"
  | badTag => "did not find expected tag"
  | unknownPrefix => "found undefined tag handle"
  | reference => "references are not supported"
  | blockScalar => "block scalars are not supported"
  | missingColon => "could not find expected ':'"
  | misplacedIndicator => "an indicator is not allowed in this context"
  | unclosedQuote => "found unexpected end of stream"
  | quoteOverBorder => "found unexpected document indicator"
  | badEscape => "found unknown escape character"
  | tabIndentation => "found a tab character that violates indentation"
  | colonInFlow => "found unexpected ':'"
  | expectedNode => "did not find expected node content"
  | expectedEnd => "did not find expected end of collection"
  | expectedStart => "did not find expected document start"
  | severalDocuments => "more than one document"
  | wrongShape wanted => "invalid type, expected " ++ wanted
  | repeatedField name => "duplicate field `" ++ name ++ "`"
  | tooDeep => "recursion limit exceeded"
  | other reason => reason

end Yaml

end SampleSchema
