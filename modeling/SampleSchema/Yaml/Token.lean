import SampleSchema.Yaml.Scalar

/-!
# YAML Tokens

A document as a row of tokens, with its layout made explicit.

Indentation opens and closes collections without any character of its own,
so tokens for that are put in: `blockList` and `blockMap` where a collection
of lines begins, `blockEnd` where the indentation falls back. A key of a
block mapping cannot be told from a value until its colon is met. Whatever
might turn out to be a key is therefore remembered, together with the number
of tokens before it; when the colon comes, a `key` token goes in at that
place, and before it the beginning of the mapping if the key opens one.

A remembered key is given up at the end of its line and after 1024
characters. If it stands where the enclosing mapping can only continue with a
key, giving it up is a fault.

Settings and schemas need no more than plain and quoted scalars, so scalars
that are laid out as blocks of lines are refused, and so are references to
other nodes and declarations of tag prefixes. A run that meets these may be
given another reader.

## Main definitions

* `Token`: A token.
* `Candidate`: What might turn out to be a key.
* `Scan`: The state of the scanner.
* `Scan.next`: One token further.
* `tokens`: The tokens of a text.
-/

namespace SampleSchema

namespace Yaml

/-- A token. -/
inductive Token
  | version
  | documentStart
  | documentEnd
  | blockList
  | blockMap
  | blockEnd
  | listOpen
  | listClose
  | mapOpen
  | mapClose
  | entry
  | comma
  | key
  | value
  /-- A name that other places could refer to. -/
  | anchor
  /-- A tag, as the part up to the last exclamation mark and the part after. -/
  | tag (handle suffix : String)
  | scalar (text : String) (plain : Bool)
  deriving DecidableEq, Repr

/-- What might turn out to be a key. -/
structure Candidate where
  /-- Nothing but a key can stand here. -/
  required : Bool
  /-- How many tokens come before it. -/
  place : Nat
  line : Nat
  column : Nat
  index : Nat

/-- The state of the scanner. -/
structure Scan where
  cursor : Cursor
  tokens : Array Token := #[]
  /-- The column of the innermost block collection, minus one outside of all. -/
  indent : Int := -1
  /-- The columns of the block collections around it. -/
  outer : List Int := []
  /-- How many brackets are open. -/
  flow : Nat := 0
  /-- A key may begin here. -/
  keyAllowed : Bool := true
  /-- The candidate of the innermost bracket. -/
  candidate : Option Candidate := none
  /-- The candidates of the brackets around it. -/
  waiting : List (Option Candidate) := []

namespace Scan

/-- One more token. -/
def emit (s : Scan) (t : Token) : Scan := { s with tokens := s.tokens.push t }

/-- A token in front of others. -/
def insertAt (s : Scan) (place : Nat) (t : Token) : Scan :=
  { s with
    tokens := (s.tokens.extract 0 place).push t ++ s.tokens.extract place s.tokens.size }

/-- Some characters further. -/
def skip (s : Scan) (n : Nat) : Scan := { s with cursor := s.cursor.skip n }

/-- Open a block collection at a column, unless one at that column is open. -/
def openBlock (s : Scan) (column : Nat) (place : Nat) (t : Token) : Scan :=
  if s.flow = 0 ∧ s.indent < column then
    { s with indent := column, outer := s.indent :: s.outer }.insertAt place t
  else s

/-- Close block collections down to a column. -/
def closeBlocks (column : Int) : List Int → Scan → Scan
  | [], s => s
  | i :: outer, s =>
      if column < s.indent then
        closeBlocks column outer ({ s with indent := i, outer }.emit .blockEnd)
      else s

/-- Close block collections down to a column. Inside brackets there are none. -/
def fallBack (s : Scan) (column : Int) : Scan :=
  if s.flow = 0 then closeBlocks column s.outer s else s

/-- A candidate that can no longer be a key. -/
def isStale (s : Scan) (k : Candidate) : Bool :=
  decide (k.line < s.cursor.line ∨ k.index + 1024 < s.cursor.index)

/-- Give up candidates that can no longer be keys. -/
def dropStale (s : Scan) : Except Fault Scan :=
  let fresh (k : Option Candidate) : Option Candidate := k.filter fun k => !s.isStale k
  if (s.candidate :: s.waiting).any fun k => k.any fun k => k.required && s.isStale k then
    .error .missingColon
  else .ok { s with candidate := fresh s.candidate, waiting := s.waiting.map fresh }

/-- Give up the innermost candidate. -/
def dropCandidate (s : Scan) : Except Fault Scan :=
  if s.candidate.any fun k => k.required then .error .missingColon
  else .ok { s with candidate := none }

/-- Remember what comes next as a possible key. -/
def remember (s : Scan) : Except Fault Scan :=
  if s.keyAllowed then do
    let s ← s.dropCandidate
    pure { s with
      candidate := some
        { required := s.flow = 0 ∧ s.indent = s.cursor.column
          place := s.tokens.size
          line := s.cursor.line
          column := s.cursor.column
          index := s.cursor.index } }
  else .ok s

/-- Pass over blanks, comments and line breaks, within a bound. -/
def passBlanks : List Char → Scan → Scan
  | [], s => s
  | _ :: bound, s =>
      match s.cursor.rest with
      | [] => s
      | c :: rest =>
          if c = ' ' ∨ (c = '\t' ∧ (0 < s.flow ∨ !s.keyAllowed)) then passBlanks bound (s.skip 1)
          else if c = '#' then
            passBlanks bound (s.skip (1 + (rest.takeWhile fun d => !isBreak d).length))
          else if isBreak c then
            passBlanks bound
              { s with
                cursor := s.cursor.skipBreak
                keyAllowed := s.keyAllowed || s.flow = 0 }
          else s

/-! ### Tokens by their first character -/

/-- A border between documents. -/
def border (s : Scan) (t : Token) : Except Fault Scan := do
  let s ← (s.fallBack (-1)).dropCandidate
  pure ({ s with keyAllowed := false }.skip 3 |>.emit t)

/-- A version line. Only versions 1.1 and 1.2 are known. -/
def directive (s : Scan) : Except Fault Scan := do
  let s ← (s.fallBack (-1)).dropCandidate
  let line := s.cursor.rest.takeWhile fun c => !isBreak c
  let words := ((String.ofList line).splitOn " ").filter fun w => !w.isEmpty
  match words.takeWhile fun w => !w.startsWith "#" with
  | ["%YAML", version] =>
      if version = "1.1" ∨ version = "1.2" then
        pure ({ s with keyAllowed := false }.skip line.length |>.emit .version)
      else throw .badDirective
  | _ => throw .badDirective

/-- An opening bracket. -/
def opening (s : Scan) (t : Token) : Except Fault Scan := do
  let s ← s.remember
  pure ({ s with
    waiting := s.candidate :: s.waiting
    candidate := none
    flow := s.flow + 1
    keyAllowed := true }.skip 1 |>.emit t)

/-- A closing bracket. -/
def closing (s : Scan) (t : Token) : Except Fault Scan := do
  let s ← s.dropCandidate
  let s :=
    match s.waiting with
    | k :: waiting => { s with candidate := k, waiting, flow := s.flow - 1 }
    | [] => s
  pure ({ s with keyAllowed := false }.skip 1 |>.emit t)

/-- A comma between entries. -/
def comma (s : Scan) : Except Fault Scan := do
  let s ← s.dropCandidate
  pure ({ s with keyAllowed := true }.skip 1 |>.emit .comma)

/-- The dash of an entry. -/
def entry (s : Scan) : Except Fault Scan := do
  let s ←
    if s.flow = 0 then
      if s.keyAllowed then pure (s.openBlock s.cursor.column s.tokens.size .blockList)
      else throw .misplacedIndicator
    else pure s
  let s ← s.dropCandidate
  pure ({ s with keyAllowed := true }.skip 1 |>.emit .entry)

/-- The question mark of a key. -/
def explicitKey (s : Scan) : Except Fault Scan := do
  let s ←
    if s.flow = 0 then
      if s.keyAllowed then pure (s.openBlock s.cursor.column s.tokens.size .blockMap)
      else throw .misplacedIndicator
    else pure s
  let s ← s.dropCandidate
  pure ({ s with keyAllowed := s.flow = 0 }.skip 1 |>.emit .key)

/-- The colon of a value. If a key is remembered it is now known to be one. -/
def value (s : Scan) : Except Fault Scan := do
  match s.candidate with
  | some k =>
      -- The mapping begins in front of its first key, so both go in there.
      let s := (s.insertAt k.place .key).openBlock k.column k.place .blockMap
      pure ({ s with candidate := none, keyAllowed := false }.skip 1 |>.emit .value)
  | none =>
      let s ←
        if s.flow = 0 then
          if s.keyAllowed then pure (s.openBlock s.cursor.column s.tokens.size .blockMap)
          else throw .misplacedIndicator
        else pure s
      pure ({ s with keyAllowed := s.flow = 0 }.skip 1 |>.emit .value)

/-- A character of a name in an anchor or a tag's handle. -/
def isWordChar (c : Char) : Bool := c.isAlphanum || c == '-' || c == '_'

/-- A character of a tag. -/
def isTagChar (c : Char) : Bool :=
  isWordChar c ||
    [';', '/', '?', ':', '@', '&', '=', '+', '$', '.', '%', '!', '~', '*', '\'', '(', ')'].contains c

/-- The name of an anchor, which nothing here refers to. -/
def anchor (s : Scan) : Except Fault Scan := do
  let s ← s.remember
  let name := (s.cursor.rest.drop 1).takeWhile isWordChar
  let after := s.cursor.rest.drop (1 + name.length)
  let ended := atBlank after || (after.head?.any fun c =>
    ['?', ':', ',', ']', '\x7d', '%', '@', '\x60'].contains c)
  if name.isEmpty || !ended then throw .reference
  else pure ({ s with keyAllowed := false }.skip (1 + name.length) |>.emit .anchor)

/-- A tag: verbatim in angle brackets, or a suffix to a handle. -/
def tag (s : Scan) : Except Fault Scan := do
  let s ← s.remember
  let text := s.cursor.rest.drop 1
  let (length, t) ←
    match text with
    | '<' :: rest =>
        let uri := rest.takeWhile fun c => isTagChar c || [',', '[', ']'].contains c
        if uri.isEmpty || (rest.drop uri.length).head? != some '>' then throw .badTag
        else pure (uri.length + 3, Token.tag "" (String.ofList uri))
    | rest =>
        let word := rest.takeWhile isWordChar
        match rest.drop word.length with
        | '!' :: more =>
            let suffix := more.takeWhile isTagChar
            if suffix.isEmpty then throw .badTag
            else
              pure (word.length + suffix.length + 2,
                Token.tag ("!" ++ String.ofList word ++ "!") (String.ofList suffix))
        | _ =>
            let suffix := rest.takeWhile isTagChar
            pure (suffix.length + 1, Token.tag "!" (String.ofList suffix))
  let s := { s with keyAllowed := false }.skip length
  if atBlank s.cursor.rest || (decide (0 < s.flow) && s.cursor.rest.head? == some ',') then
    pure (s.emit t)
  else throw .badTag

/-- A quoted scalar. -/
def quoted (s : Scan) (quote : Char) : Except Fault Scan := do
  let s ← s.remember
  let (text, cursor) ← quotedScalar quote s.cursor
  pure ({ s with cursor, keyAllowed := false }.emit (.scalar text false))

/-- A plain scalar. After one that ends with its line, a key may begin. -/
def plain (s : Scan) : Except Fault Scan := do
  let s ← s.remember
  let (text, ended, cursor) ← plainScalar (decide (0 < s.flow)) (s.indent + 1) s.cursor
  pure ({ s with cursor, keyAllowed := ended }.emit (.scalar text true))

/-- A plain scalar may begin with the character, given the text after it. -/
def beginsPlain (s : Scan) (c : Char) (rest : List Char) : Bool :=
  if c = '-' then !(rest.head?.any isBlank)
  else if c = '?' ∨ c = ':' then s.flow = 0 && !atBlank rest
  else
    !isBlank c &&
    !([',', '[', ']', '\x7b', '\x7d', '#', '&', '*', '!', '|', '>', '\'', '"', '%', '@',
      '\x60'].contains c)

/-- One token further, or nothing at the end. -/
def next (s : Scan) : Except Fault (Scan × Bool) := do
  let s ← (passBlanks s.cursor.rest s).dropStale
  let s := s.fallBack s.cursor.column
  let goOn (s : Except Fault Scan) : Except Fault (Scan × Bool) := do
    let s ← s
    pure (s, true)
  match s.cursor.rest with
  | [] => do
      let s ← (s.fallBack (-1)).dropCandidate
      pure (s, false)
  | c :: rest =>
      -- Borders come first: a line of three dashes is no entry and no scalar.
      if c = '%' ∧ s.cursor.column = 0 then goOn s.directive
      else if s.cursor.atTriple '-' then goOn (s.border .documentStart)
      else if s.cursor.atTriple '.' then goOn (s.border .documentEnd)
      else if c = '[' then goOn (s.opening .listOpen)
      else if c = '\x7b' then goOn (s.opening .mapOpen)
      else if c = ']' then goOn (s.closing .listClose)
      else if c = '\x7d' then goOn (s.closing .mapClose)
      else if c = ',' then goOn s.comma
      -- Marks before a blank; inside brackets two of them need no blank.
      else if c = '-' ∧ atBlank rest then goOn s.entry
      else if c = '?' ∧ (0 < s.flow ∨ atBlank rest) then goOn s.explicitKey
      else if c = ':' ∧ (0 < s.flow ∨ atBlank rest) then goOn s.value
      else if c = '*' then throw .reference
      else if c = '&' then goOn s.anchor
      else if c = '!' then goOn s.tag
      else if (c = '|' ∨ c = '>') ∧ s.flow = 0 then throw .blockScalar
      else if c = '\'' ∨ c = '"' then goOn (s.quoted c)
      else if s.beginsPlain c rest then goOn s.plain
      else throw .noToken

/-- The tokens of the text left, at most so many. -/
def run : Nat → Scan → Except Fault (List Token)
  | 0, s => .ok s.tokens.toList
  | n + 1, s => do
      let (s, more) ← s.next
      if more then run n s else pure s.tokens.toList

end Scan

/-- A document may hold the character. -/
def isAllowed (c : Char) : Bool :=
  let n := c.toNat
  n == 0x09 || n == 0x0a || n == 0x0d || (0x20 ≤ n && n ≤ 0x7e) || n == 0x85 ||
    (0xa0 ≤ n && n ≤ 0xfffd && n != 0xfeff) || 0x10000 ≤ n

/-- The tokens of a text. A byte order mark may stand before it. -/
def tokens (text : String) : Except Fault (List Token) :=
  let cs :=
    match text.toList with
    | '\ufeff' :: cs => cs
    | cs => cs
  if cs.all isAllowed then
    -- Every token but the last takes at least one character.
    Scan.run (cs.length + 1) { cursor := { rest := cs } }
  else .error .badCharacter

end Yaml

end SampleSchema
