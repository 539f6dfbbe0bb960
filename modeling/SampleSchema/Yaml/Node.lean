import SampleSchema.Yaml.Token

/-!
# YAML Nodes

A document as a tree.

The tree says what a document contains and leaves open what it means: a
scalar is its text and whether that stood there without quotes, and the
entries of a mapping are pairs of nodes in the order in which they were
written. A missing key, value or entry is an empty plain scalar.

A text holds at most one document. It may be empty, or hold nothing but
comments, and then there is no node at all.

The grammar is read from the tokens by functions that call one another. Each
call takes a token or passes to a more special function, so a few calls for
every token are enough, and that number bounds them.

## Main definitions

* `Node`: A node of a document.
* `Grammar.node`: The node that some tokens start with.
* `Grammar.document`: The node of a document, if there is one.
* `Reader`: Readers of documents.
* `Node.parse`: Documents as this library reads them.
-/

namespace SampleSchema

namespace Yaml

/-- A node of a document. -/
inductive Node
  | scalar (text : String) (plain : Bool) (tag : Option String)
  | list (items : List Node) (tag : Option String)
  | map (entries : List (Node × Node)) (tag : Option String)
  deriving Inhabited

/-- What stands where nothing is written. -/
def Node.empty : Node := .scalar "" true none

namespace Grammar

/-- The tag that a handle and a suffix stand for. -/
def resolve (handle suffix : String) : Except Fault String :=
  if handle = "" then .ok suffix
  else if handle = "!" then .ok ("!" ++ suffix)
  else if handle = "!!" then .ok ("tag:yaml.org,2002:" ++ suffix)
  else .error .unknownPrefix

/-- The anchor and tag in front of a node, and whether there is either. -/
def properties : List Token → Except Fault ((Bool × Option String) × List Token)
  | .anchor :: .tag h s :: ts | .tag h s :: .anchor :: ts => do
      let tag ← resolve h s
      pure ((true, some tag), ts)
  | .tag h s :: ts => do
      let tag ← resolve h s
      pure ((true, some tag), ts)
  | .anchor :: ts => .ok ((true, none), ts)
  | ts => .ok ((false, none), ts)

/-- The next token is one of some. -/
def startsWith (among : List Token) (ts : List Token) : Bool :=
  ts.head?.any fun t => among.contains t

/-- The comma before all entries but the first. -/
def separator (first : Bool) : List Token → Except Fault (List Token)
  | .comma :: ts => if first then .ok (.comma :: ts) else .ok ts
  | ts => if first then .ok ts else .error .expectedEnd

mutual

/-- The node that some tokens start with. Only in blocks do lines make up
    collections, and only after a key may a list do without indentation. -/
def node : Nat → Bool → Bool → List Token → Except Fault (Node × List Token)
  | 0, _, _, _ => .error .expectedNode
  | n + 1, inBlock, afterKey, ts => do
      let ((any, tag), ts) ← properties ts
      match ts with
      | .scalar text plain :: ts => pure (.scalar text plain tag, ts)
      | .listOpen :: ts => do
          let (items, ts) ← flowItems n true ts
          pure (.list items tag, ts)
      | .mapOpen :: ts => do
          let (entries, ts) ← flowEntries n true ts
          pure (.map entries tag, ts)
      | .entry :: _ =>
          if afterKey then do
            let (items, ts) ← bareItems n ts
            pure (.list items tag, ts)
          else if any then pure (.scalar "" true tag, ts)
          else throw .expectedNode
      | .blockList :: rest =>
          if inBlock then do
            let (items, ts) ← blockItems n rest
            pure (.list items tag, ts)
          else if any then pure (.scalar "" true tag, ts)
          else throw .expectedNode
      | .blockMap :: rest =>
          if inBlock then do
            let (entries, ts) ← blockEntries n rest
            pure (.map entries tag, ts)
          else if any then pure (.scalar "" true tag, ts)
          else throw .expectedNode
      | ts => if any then pure (.scalar "" true tag, ts) else throw .expectedNode

/-- A node, unless one of the tokens comes that show that it is missing. -/
def nodeUnless : Nat → List Token → Bool → Bool → List Token → Except Fault (Node × List Token)
  | 0, _, _, _, _ => .error .expectedNode
  | n + 1, absent, inBlock, afterKey, ts =>
      if startsWith absent ts then .ok (.empty, ts) else node n inBlock afterKey ts

/-- The value of an entry, if a colon announces one. -/
def valueUnless : Nat → List Token → Bool → List Token → Except Fault (Node × List Token)
  | 0, _, _, _ => .error .expectedNode
  | n + 1, absent, inBlock, .value :: ts => nodeUnless n absent inBlock inBlock ts
  | _ + 1, _, _, ts => .ok (.empty, ts)

/-- The items of an indented list. -/
def blockItems : Nat → List Token → Except Fault (List Node × List Token)
  | 0, _ => .error .expectedNode
  | n + 1, .entry :: ts => do
      let (item, ts) ← nodeUnless n [.entry, .blockEnd] true false ts
      let (items, ts) ← blockItems n ts
      pure (item :: items, ts)
  | _ + 1, .blockEnd :: ts => .ok ([], ts)
  | _ + 1, _ => .error .expectedEnd

/-- The items of a list that is indented no further than its key. -/
def bareItems : Nat → List Token → Except Fault (List Node × List Token)
  | 0, _ => .error .expectedNode
  | n + 1, .entry :: ts => do
      let (item, ts) ← nodeUnless n [.entry, .key, .value, .blockEnd] true false ts
      let (items, ts) ← bareItems n ts
      pure (item :: items, ts)
  | _ + 1, ts => .ok ([], ts)

/-- The entries of an indented mapping. -/
def blockEntries : Nat → List Token → Except Fault (List (Node × Node) × List Token)
  | 0, _ => .error .expectedNode
  | n + 1, .key :: ts => do
      let (k, ts) ← nodeUnless n [.key, .value, .blockEnd] true true ts
      let (v, ts) ← valueUnless n [.key, .value, .blockEnd] true ts
      let (entries, ts) ← blockEntries n ts
      pure ((k, v) :: entries, ts)
  | _ + 1, .blockEnd :: ts => .ok ([], ts)
  | _ + 1, _ => .error .expectedEnd

/-- The items of a list in brackets. A key among them is a mapping of its own. -/
def flowItems : Nat → Bool → List Token → Except Fault (List Node × List Token)
  | 0, _, _ => .error .expectedNode
  | _ + 1, _, .listClose :: ts => .ok ([], ts)
  | n + 1, first, ts => do
      let ts ← separator first ts
      match ts with
      | .listClose :: ts => pure ([], ts)
      | .key :: ts => do
          let (k, ts) ← nodeUnless n [.value, .comma, .listClose] false false ts
          let (v, ts) ← valueUnless n [.comma, .listClose] false ts
          let (items, ts) ← flowItems n false ts
          pure (.map [(k, v)] none :: items, ts)
      | ts => do
          let (item, ts) ← node n false false ts
          let (items, ts) ← flowItems n false ts
          pure (item :: items, ts)

/-- The entries of a mapping in braces. A node without colon is a key. -/
def flowEntries : Nat → Bool → List Token → Except Fault (List (Node × Node) × List Token)
  | 0, _, _ => .error .expectedNode
  | _ + 1, _, .mapClose :: ts => .ok ([], ts)
  | n + 1, first, ts => do
      let ts ← separator first ts
      match ts with
      | .mapClose :: ts => pure ([], ts)
      | .key :: ts => do
          let (k, ts) ← nodeUnless n [.value, .comma, .mapClose] false false ts
          let (v, ts) ← valueUnless n [.comma, .mapClose] false ts
          let (entries, ts) ← flowEntries n false ts
          pure ((k, v) :: entries, ts)
      | ts => do
          let (k, ts) ← node n false false ts
          let (entries, ts) ← flowEntries n false ts
          pure ((k, .empty) :: entries, ts)

end

/-- The tokens after the lines that announce a document, at most one of which
    gives a version. -/
def announced : List Token → Except Fault (List Token)
  | .version :: .documentStart :: ts => .ok ts
  | .documentStart :: ts => .ok ts
  | _ => .error .expectedStart

/-- Nothing follows a document but marks of its end. -/
def nothingMore (ts : List Token) : Except Fault Unit :=
  match ts.dropWhile (· == .documentEnd) with
  | [] => .ok ()
  | .documentStart :: _ => .error .severalDocuments
  | _ => .error .expectedStart

/-- The node of a document, if there is one. -/
def document (ts : List Token) : Except Fault (Option Node) := do
  let calls := 4 * ts.length + 4
  match ts with
  | [] => pure none
  | .version :: _ | .documentStart :: _ =>
      let ts ← announced ts
      let missing := ts.isEmpty || startsWith [.version, .documentStart, .documentEnd] ts
      let (found, ts) ← if missing then pure (Node.empty, ts) else node calls true false ts
      nothingMore ts
      pure (some found)
  | ts =>
      let (found, ts) ← node calls true false ts
      nothingMore ts
      pure (some found)

end Grammar

/-- Readers of documents: the node of a text, if there is one. -/
abbrev Reader := String → Except Fault (Option Node)

/-- Documents as this library reads them. -/
def Node.parse : Reader := fun text => do
  let ts ← tokens text
  Grammar.document ts

end Yaml

end SampleSchema
