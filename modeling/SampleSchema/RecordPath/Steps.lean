import SampleSchema.Json.Basic

/-!
# Paths to One Record

Dot notation for a place inside a document.

A path is a sequence of steps, each to a member by its name or to an element
by its number; a negative number counts from the end. Following a path is one
look-up after another and finds at most one value.

Written down, the parts stand between dots. A part is a name, a name with one
index in square brackets, or an index alone. Anything may be in a name but a
dot and an opening bracket. The path may begin with a dollar sign and a dot,
which are dropped; the dollar sign alone, like nothing at all, is the whole
document. A text that breaks these rules leads nowhere, which is the same as
a path whose steps are not there.

## Main definitions

* `RecordPath.Step`: A member by name or an element by number.
* `RecordPath.place`: Where a number points to in a list.
* `RecordPath.follow`: The value at the end of some steps.
* `RecordPath.splitAt`: A text in parts.
* `RecordPath.word?`: A number, if it has 64 bits.
* `RecordPath.integer?`: Such a number, as it is written in brackets.
* `RecordPath.steps?`: The steps that a text stands for.
* `RecordPath.locate`: The value at a path.

## Theorems

* `RecordPath.splitAt_append`: The parts of two texts with a separator between
  them.
* `RecordPath.length_splitAt`: How many parts there are.
-/

namespace SampleSchema

namespace RecordPath

/-- A step from a value to one inside it. -/
inductive Step
  | member (name : String)
  | element (position : Int)
  deriving DecidableEq, Repr

/-- Where a position is in a list of some length, a negative one counting from
    the end. -/
def place (length : Nat) (position : Int) : Int :=
  if position < 0 then length + position else position

/-- The element at a position. -/
def elementAt {α : Type} (elements : List α) (position : Int) : Option α :=
  let i := place elements.length position
  if 0 ≤ i then elements[i.toNat]? else none

/-- The value one step further. -/
def Step.take : Step → Json → Option Json
  | member name, .object members => members.get? name
  | element position, .array elements => elementAt elements position
  | _, _ => none

/-- The value at the end of some steps. -/
def follow : List Step → Json → Option Json
  | [], j => some j
  | s :: steps, j => (s.take j).bind (follow steps)

theorem elementAt_map {α β : Type} (f : α → β) (elements : List α) (position : Int) :
    elementAt (elements.map f) position = (elementAt elements position).map f := by
  simp only [elementAt, List.length_map, List.getElem?_map]
  split
  · rfl
  · rfl

/-! ### Notation -/

/-- A text in parts, cut at every separator. -/
def splitAt (separator : Char) : List Char → List (List Char)
  | [] => [[]]
  | c :: cs =>
      match splitAt separator cs with
      | [] => [[c]]
      | part :: parts => if c = separator then [] :: part :: parts else (c :: part) :: parts

theorem splitAt_cons {separator c : Char} {cs part : List Char} {parts : List (List Char)}
    (h : splitAt separator cs = part :: parts) :
    splitAt separator (c :: cs) =
      if c = separator then [] :: part :: parts else (c :: part) :: parts := by
  rw [splitAt, h]

/-- There is always a first part. -/
theorem exists_splitAt (separator : Char) (cs : List Char) :
    ∃ part parts, splitAt separator cs = part :: parts := by
  induction cs with
  | nil => exact ⟨[], [], rfl⟩
  | cons c cs ih =>
      rcases ih with ⟨part, parts, h⟩
      rw [splitAt_cons h]
      split
      · exact ⟨_, _, rfl⟩
      · exact ⟨_, _, rfl⟩

theorem splitAt_append (separator : Char) (cs ds : List Char) :
    splitAt separator (cs ++ separator :: ds) =
      splitAt separator cs ++ splitAt separator ds := by
  induction cs with
  | nil =>
      rcases exists_splitAt separator ds with ⟨part, parts, h⟩
      rw [List.nil_append, splitAt_cons h, if_pos rfl, h]
      rfl
  | cons c cs ih =>
      rcases exists_splitAt separator cs with ⟨part, parts, h⟩
      rw [h] at ih
      rw [List.cons_append, splitAt_cons ih, splitAt_cons h]
      split
      · rfl
      · rfl

/-- Each separator is followed by one more part. -/
theorem length_splitAt (separator : Char) (cs : List Char) :
    (splitAt separator cs).length = cs.count separator + 1 := by
  induction cs with
  | nil => rfl
  | cons c cs ih =>
      rcases exists_splitAt separator cs with ⟨part, parts, h⟩
      rw [h, List.length_cons] at ih
      rw [splitAt_cons h, List.count_cons]
      by_cases hc : c = separator
      · rw [if_pos hc, hc, beq_self_eq_true, if_pos rfl]
        simp only [List.length_cons]
        omega
      · rw [if_neg hc, if_neg (mt beq_iff_eq.1 hc)]
        simp only [List.length_cons]
        omega

/-- A natural number in decimal digits, of which there is at least one. -/
def natural? (cs : List Char) : Option Nat :=
  if cs.isEmpty || !cs.all Char.isDigit then none
  else some (cs.foldl (fun n c => 10 * n + (c.toNat - '0'.toNat)) 0)

/-- A number, if it has 64 bits. -/
def word? (n : Int) : Option Int :=
  if -Int.ofNat (Nat.pow 2 63) ≤ n ∧ n < Int.ofNat (Nat.pow 2 63) then some n else none

/-- A number of 64 bits, with or without a sign. -/
def integer? : List Char → Option Int
  | '-' :: cs => (natural? cs).bind fun n => word? (-Int.ofNat n)
  | '+' :: cs => (natural? cs).bind fun n => word? (Int.ofNat n)
  | cs => (natural? cs).bind fun n => word? (Int.ofNat n)

/-- The number between an opening bracket and one that closes the text. -/
def index? (cs : List Char) : Option Int :=
  if cs.getLast? = some ']' then integer? cs.dropLast else none

/-- The steps that one part stands for. -/
def partSteps? (part : List Char) : Option (List Step) :=
  let name := part.takeWhile (· != '[')
  match part.dropWhile (· != '[') with
  | [] => some [.member (String.ofList name)]
  | _ :: rest => do
      let i ← index? rest
      if name.isEmpty then pure [.element i]
      else pure [.member (String.ofList name), .element i]

/-- The text after a dollar sign and a dot. -/
def dropRoot : List Char → List Char
  | '$' :: '.' :: cs => cs
  | cs => cs

/-- The steps that a text stands for. -/
def steps? (text : String) : Option (List Step) :=
  let cs := dropRoot text.toList
  if cs = [] ∨ cs = ['$'] then some []
  else do
    let parts ← (splitAt '.' cs).mapM partSteps?
    pure parts.flatten

/-- The value at a path. -/
def locate (text : String) (j : Json) : Option Json := do
  let steps ← steps? text
  follow steps j

end RecordPath

end SampleSchema
