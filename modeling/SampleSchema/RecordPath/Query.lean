import SampleSchema.Json.Basic

/-!
# Paths to Many Records

Queries that select any number of places inside a document.

A query is a chain of steps, and each step turns every match so far into the
matches it has inside that value. Where a step finds nothing it leaves a gap
in the place of the match. Gaps stay gaps under every later step and are
dropped in the end, but they do count as a place while the chain runs, and
one step looks at places: the length.

`length()` at the end of a chain asks for one of two things. If the chain
spreads out and does not then pick a single element, the answer is the number
of matches. Otherwise it is the length of the first match, provided that is a
list. The number is computed and stands nowhere in the document, so no step
leads on from it.

A step back to the root begins again with the whole document, once for each
match. A step to the current value takes the rest of the chain as a chain of
its own, which is then the one that decides what a length in it means.

## Main definitions

* `Query.Step`: A step of a query.
* `Query.Match`: A match, a gap, or a computed value.
* `Query.descendants`: All values inside a value, each before those inside it.
* `Query.slice`: The elements from one position to another.
* `Query.countsMatches`: A length at the end of the chain is the number of
  matches.
* `Query.run`: What a query selects.
-/

namespace SampleSchema

namespace Query

/-- A step of a query. -/
inductive Step
  /-- Back to the whole document. -/
  | root
  /-- The current value, to which a chain of its own applies. -/
  | current (chain : List Step)
  /-- A member. -/
  | member (name : String)
  /-- A member of the value or of any value inside it. -/
  | inside (name : String)
  /-- All values inside. -/
  | descendants
  /-- All elements or members. -/
  | every
  /-- One element. -/
  | element (position : Nat)
  /-- Several elements. -/
  | elements (positions : List Nat)
  /-- Several members. -/
  | members (names : List String)
  /-- The elements between two positions, at a distance. -/
  | slice (start stop : Int) (distance : Nat)
  /-- How many matches there are, or how long the first one is. -/
  | length
  deriving Inhabited

/-- A match of a query. -/
inductive Match
  /-- A value in the document. -/
  | found (j : Json)
  /-- A value that stands nowhere in the document. -/
  | computed (j : Json)
  /-- A step found nothing here. -/
  | gap

namespace Match

/-- The value of a match. -/
def value? : Match → Option Json
  | found j => some j
  | computed j => some j
  | gap => none

/-- The matches that a step has in a value of the document. Any other match
    turns into a gap. -/
def step (f : Json → List Match) : Match → List Match
  | found j => f j
  | _ => [gap]

end Match

/-- Several matches, or a gap if there are none. -/
def orGap (js : List Json) : List Match := if js.isEmpty then [.gap] else js.map .found

/-- The elements or members of a value. -/
def inner : Json → List Json
  | .array elements => elements
  | .object members => members.values
  | _ => []

theorem sizeOf_lt_of_mem_inner {j c : Json} (h : c ∈ inner j) : sizeOf c < sizeOf j := by
  cases j with
  | array elements =>
      have hlt := List.sizeOf_lt_of_mem (show c ∈ elements from h)
      simp only [Json.array.sizeOf_spec]
      omega
  | object members =>
      rcases List.mem_map.1 (show c ∈ members.values from h) with ⟨⟨name, v⟩, he, rfl⟩
      have hlt := Keyed.sizeOf_lt_of_mem he
      simp only [Json.object.sizeOf_spec]
      omega
  | _ => exact absurd h List.not_mem_nil

/-- All values inside a value, each before those inside it. -/
def descendants (j : Json) : List Json :=
  (inner j).attach.flatMap fun c => c.1 :: descendants c.1
termination_by j
decreasing_by exact sizeOf_lt_of_mem_inner c.2

/-- The member with a name. -/
def member? (name : String) : Json → Option Json
  | .object members => members.get? name
  | _ => none

/-- The element at a position. -/
def element? (position : Nat) : Json → Option Json
  | .array elements => elements[position]?
  | _ => none

/-- A position of a slice in a list of some length. A negative one counts from
    the end; one outside of the list is no position at all. -/
def position? (length : Nat) (position : Int) : Option Nat :=
  if 0 ≤ position then if position ≤ length then some position.toNat else none
  else if -position ≤ length then some (length + position).toNat
  else none

/-- Every so many elements of a list, beginning with the first. -/
def atDistance {α : Type} (distance : Nat) : Nat → List α → List α
  | _, [] => []
  | 0, a :: as => a :: atDistance distance (distance - 1) as
  | n + 1, _ :: as => atDistance distance n as

/-- The elements from one position to another, at a distance. A slice that
    ends at the beginning goes on to the end of the list. -/
def slice (start stop : Int) (distance : Nat) : Json → List Json
  | .array elements =>
      match position? elements.length start, position? elements.length stop with
      | some a, some b =>
          let b := if b = 0 then elements.length else b
          atDistance distance 0 ((elements.take b).drop a)
      | _, _ => []
  | _ => []

/-- The member, or a gap. -/
def memberOrGap (name : String) (j : Json) : Match :=
  match member? name j with
  | some c => .found c
  | none => .gap

/-- The element, or a gap. -/
def elementOrGap (position : Nat) (j : Json) : Match :=
  match element? position j with
  | some c => .found c
  | none => .gap

/-- Whether the chain up to here has spread out and not since picked a single
    element. -/
def spreads (before : Bool) : Step → Bool
  | .elements _ | .members _ | .slice _ _ _ | .every => true
  | .element _ => false
  | _ => before

/-- A length at the end of the chain is the number of matches. -/
def countsMatches (chain : List Step) : Bool :=
  decide (2 < chain.length) &&
    (match chain.getLast? with
      | some .length => true
      | _ => false) &&
    chain.foldl spreads false

/-- The length that a chain ends with. -/
def lengthOf (counting : Bool) (ms : List Match) : List Match :=
  -- Gaps alone have no length, but no places at all can be counted.
  if !ms.isEmpty && (ms.filterMap Match.value?).isEmpty then [.gap]
  else if counting then [.computed (.int (ms.filterMap Match.value?).length)]
  else
    match ms.head?.bind Match.value? with
    | some (.array elements) => [.computed (.int elements.length)]
    | _ => [.gap]

mutual

/-- The matches that a step has in one match. -/
def Step.apply (whole : Json) : Step → Match → List Match
  | .root, _ => [.found whole]
  | .current chain, m => runChain whole (countsMatches chain) chain [m]
  | .member name, m => m.step fun j => [memberOrGap name j]
  | .inside name, m => m.step fun j =>
      orGap ((j :: descendants j).filterMap (member? name))
  | .descendants, m => m.step fun j => (descendants j).map .found
  | .every, m => m.step fun j => orGap (inner j)
  | .element position, m => m.step fun j => [elementOrGap position j]
  | .elements positions, m => positions.flatMap fun p => m.step fun j => [elementOrGap p j]
  | .members names, m => names.flatMap fun name => m.step fun j => [memberOrGap name j]
  | .slice start stop distance, m => m.step fun j => orGap (slice start stop distance j)
  | .length, m => lengthOf false [m]

/-- The matches that a chain has in some matches. -/
def runChain (whole : Json) (counting : Bool) : List Step → List Match → List Match
  | [], ms => ms
  | s :: chain, ms =>
      runChain whole counting chain
        (match s with
          | .length => lengthOf counting ms
          | s => ms.flatMap fun m => s.apply whole m)

end

/-- What a query selects. -/
def run (chain : List Step) (whole : Json) : List Json :=
  (runChain whole (countsMatches chain) chain [.found whole]).filterMap Match.value?

end Query

end SampleSchema
