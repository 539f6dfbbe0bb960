import Mathlib
import SampleSchema.RecordPath.Steps

/-!
# Writing Dot Notation

What is written in dot notation is read as the steps that were meant.

A path is written part by part: a name, a name with an index, or an index
alone. What has to come out is where these steps lead, one look-up after the
other, and `Leads` says where that is without a word about texts or about
arithmetic. A position counts from the start of a list or, if it is negative,
from its end, and a look-up that finds nothing ends the path.

The reader works on the text. It cuts at dots, and no part has one: names may
not, and an index is digits with a sign. It looks for a bracket in each part,
and the first it finds is the one before the index, as names have none either.
What is between the brackets is the decimal form of a number of 64 bits, and
that reads back.

A position in a list is found by adding the length to a negative number. Both
are numbers of 64 bits, and of different signs, so the sum is one, too.

## Main definitions

* `RecordPath.Name`: A name that can be written in a path.
* `RecordPath.Part`: What stands between two dots.
* `RecordPath.written`: A path in dot notation.
* `RecordPath.Leads`: Where steps lead.

## Theorems

* `RecordPath.integer?_toString`: The decimal form of a number reads back, if it
  has 64 bits.
* `RecordPath.splitAt_intercalate`: Parts that were joined can be told apart.
* `RecordPath.partSteps?_chars`: A part is read as its steps.
* `RecordPath.steps?_written`: A path is read as its steps.
* `RecordPath.follow_eq_iff`: Following steps ends where they lead.
* `RecordPath.locate_written`: The same for a path in dot notation.
-/

namespace SampleSchema

namespace RecordPath

/-! ### Numbers -/

theorem isDigit_of_mem_toDigits {n : Nat} {c : Char} (hc : c ∈ Nat.toDigits 10 n) : c.isDigit :=
  Nat.isDigit_of_mem_toDigits (by decide) (by decide) hc

theorem natural?_toDigits (n : Nat) : natural? (Nat.toDigits 10 n) = some n := by
  have hall : (Nat.toDigits 10 n).all Char.isDigit :=
    List.all_eq_true.2 fun c hc => isDigit_of_mem_toDigits hc
  rw [natural?, List.isEmpty_eq_false_iff.2 Nat.toDigits_ne_nil, hall]
  exact congrArg some Nat.ofDigitChars_ten_toDigits

theorem toList_toString_nat (n : Nat) : (toString n).toList = Nat.toDigits 10 n := by
  rw [Nat.toString_eq_ofList_toDigits, String.toList_ofList]

theorem toList_toString_negSucc (n : Nat) :
    (toString (Int.negSucc n)).toList = '-' :: Nat.toDigits 10 (n + 1) := by
  change ("-" ++ toString (n + 1)).toList = _
  rw [String.toList_append, toList_toString_nat]
  rfl

theorem word?_eq (i : Int) : word? i = if -2 ^ 63 ≤ i ∧ i < 2 ^ 63 then some i else none := by
  have hbound : Int.ofNat (Nat.pow 2 63) = 2 ^ 63 := by norm_num
  rw [word?]
  exact if_congr (by rw [hbound]) rfl rfl

/-- The decimal form of a number reads back if it has 64 bits. -/
theorem integer?_toString (i : Int) : integer? (toString i).toList = word? i := by
  cases i with
  | ofNat n =>
      have htext : (toString (Int.ofNat n)).toList = Nat.toDigits 10 n := toList_toString_nat n
      -- Digits do not begin with a sign.
      have hsign : ∀ c cs, c.isDigit = false → Nat.toDigits 10 n ≠ c :: cs := by
        intro c cs hc h
        have hdigit := isDigit_of_mem_toDigits (h ▸ List.mem_cons_self : c ∈ Nat.toDigits 10 n)
        rw [hc] at hdigit
        cases hdigit
      rw [htext, integer?, natural?_toDigits, Option.bind_some]
      · exact fun cs => hsign '-' cs (by decide)
      · exact fun cs => hsign '+' cs (by decide)
  | negSucc n =>
      rw [toList_toString_negSucc, integer?, natural?_toDigits, Option.bind_some]
      rfl

/-! ### Parts -/

/-- A name that can be written in a path: it is not empty, and has neither a dot
    nor an opening bracket. -/
structure Name where
  text : String
  ne_nil : text.toList ≠ []
  dot_not_mem : '.' ∉ text.toList
  bracket_not_mem : '[' ∉ text.toList

/-- What stands between two dots. -/
inductive Part
  | member (name : Name)
  | memberElement (name : Name) (position : Int64)
  | element (position : Int64)

/-- A number in brackets. -/
def bracketed (i : Int) : List Char := '[' :: ((toString i).toList ++ [']'])

namespace Part

/-- How a part is written. -/
def chars : Part → List Char
  | member name => name.text.toList
  | memberElement name position => name.text.toList ++ bracketed position.toInt
  | element position => bracketed position.toInt

/-- The steps that are meant. -/
def steps : Part → List Step
  | member name => [.member name.text]
  | memberElement name position => [.member name.text, .element position.toInt]
  | element position => [.element position.toInt]

end Part

/-- A path in dot notation. -/
def written (parts : List Part) : String :=
  String.ofList (['.'].intercalate (parts.map Part.chars))

theorem word?_toInt (i : Int64) : word? i.toInt = some i.toInt := by
  rw [word?_eq, if_pos ⟨i.le_toInt, i.toInt_lt⟩]

theorem index?_concat (cs : List Char) : index? (cs ++ [']']) = integer? cs := by
  rw [index?, List.getLast?_concat, if_pos rfl, List.dropLast_concat]

theorem partSteps?_of_not_mem {cs : List Char} (h : '[' ∉ cs) :
    partSteps? cs = some [.member (String.ofList cs)] := by
  have hall : ∀ c ∈ cs, (c != '[') = true := fun c hc => bne_iff_ne.2 fun he => h (he ▸ hc)
  rw [partSteps?, List.takeWhile_eq_self_iff.2 hall, List.dropWhile_eq_nil_iff.2 hall]

/-- What stands before the first bracket is a name, unless nothing does. -/
theorem partSteps?_append {cs : List Char} (h : '[' ∉ cs) (ds : List Char) :
    partSteps? (cs ++ '[' :: ds) = (index? ds).map fun i =>
      if cs.isEmpty then [.element i] else [.member (String.ofList cs), .element i] := by
  have hall : ∀ c ∈ cs, (c != '[') = true := fun c hc => bne_iff_ne.2 fun he => h (he ▸ hc)
  have hname : ('[' :: ds).takeWhile (· != '[') = [] := rfl
  have hrest : ('[' :: ds).dropWhile (· != '[') = '[' :: ds := rfl
  rw [partSteps?, List.takeWhile_append_of_pos hall, List.dropWhile_append_of_pos hall, hname,
    hrest, List.append_nil]
  dsimp only
  cases index? ds with
  | none => rfl
  | some i => cases cs.isEmpty <;> rfl

theorem partSteps?_bracketed {cs : List Char} (h : '[' ∉ cs) (i : Int) :
    partSteps? (cs ++ bracketed i) = (word? i).map fun i =>
      if cs.isEmpty then [.element i] else [.member (String.ofList cs), .element i] := by
  rw [bracketed, partSteps?_append h, index?_concat, integer?_toString]

/-- A part is read as its steps. -/
theorem partSteps?_chars (part : Part) : partSteps? part.chars = some part.steps := by
  cases part with
  | member name =>
      rw [Part.chars, partSteps?_of_not_mem name.bracket_not_mem, String.ofList_toList]
      rfl
  | memberElement name position =>
      rw [Part.chars, partSteps?_bracketed name.bracket_not_mem, word?_toInt,
        List.isEmpty_eq_false_iff.2 name.ne_nil, String.ofList_toList]
      rfl
  | element position =>
      rw [Part.chars, ← List.nil_append (bracketed _), partSteps?_bracketed List.not_mem_nil,
        word?_toInt]
      rfl

/-! ### Paths -/

theorem splitAt_append_of_not_mem {separator : Char} {cs ds part : List Char}
    {parts : List (List Char)} (h : separator ∉ cs) (hds : splitAt separator ds = part :: parts) :
    splitAt separator (cs ++ ds) = (cs ++ part) :: parts := by
  induction cs with
  | nil => exact hds
  | cons c cs ih =>
      rw [List.mem_cons, not_or] at h
      rw [List.cons_append, splitAt_cons (ih h.2), if_neg (Ne.symm h.1), List.cons_append]

theorem splitAt_of_not_mem {separator : Char} {cs : List Char} (h : separator ∉ cs) :
    splitAt separator cs = [cs] := by
  have happend : splitAt separator (cs ++ []) = [cs ++ []] := splitAt_append_of_not_mem h rfl
  rwa [List.append_nil] at happend

/-- Parts that were joined can be told apart if none has the separator. -/
theorem splitAt_intercalate {separator : Char} {parts : List (List Char)} (hne : parts ≠ [])
    (h : ∀ part ∈ parts, separator ∉ part) :
    splitAt separator ([separator].intercalate parts) = parts := by
  induction parts with
  | nil => exact absurd rfl hne
  | cons part parts ih =>
      have hpart := splitAt_of_not_mem (h part List.mem_cons_self)
      cases parts with
      | nil => rwa [List.intercalate_singleton]
      | cons next parts =>
          have hrest := ih (List.cons_ne_nil next parts)
            fun p hp => h p (List.mem_cons_of_mem part hp)
          rw [List.intercalate_cons_cons, List.append_assoc, List.singleton_append, splitAt_append,
            hpart, hrest]
          rfl

theorem eq_minus_or_isDigit_of_mem {i : Int} {c : Char} (hc : c ∈ (toString i).toList) :
    c = '-' ∨ c.isDigit := by
  cases i with
  | ofNat n =>
      have htext : (toString (Int.ofNat n)).toList = Nat.toDigits 10 n := toList_toString_nat n
      exact Or.inr (isDigit_of_mem_toDigits (htext ▸ hc))
  | negSucc n =>
      rw [toList_toString_negSucc, List.mem_cons] at hc
      exact hc.imp_right isDigit_of_mem_toDigits

theorem dot_not_mem_bracketed (i : Int) : '.' ∉ bracketed i := by
  intro h
  rw [bracketed, List.mem_cons, List.mem_append, List.mem_singleton] at h
  rcases h with h | h | h
  · cases h
  · rcases eq_minus_or_isDigit_of_mem h with h | h <;> cases h
  · cases h

theorem Part.dot_not_mem (part : Part) : '.' ∉ part.chars := by
  cases part with
  | member name => exact name.dot_not_mem
  | memberElement name position =>
      rw [Part.chars, List.mem_append, not_or]
      exact ⟨name.dot_not_mem, dot_not_mem_bracketed _⟩
  | element position => exact dot_not_mem_bracketed _

theorem mapM_partSteps?_chars (parts : List Part) :
    (parts.map Part.chars).mapM partSteps? = some (parts.map Part.steps) := by
  induction parts with
  | nil => rfl
  | cons part parts ih =>
      rw [List.map_cons, List.mapM_cons, partSteps?_chars, ih]
      rfl

theorem Part.chars_ne_nil (part : Part) : part.chars ≠ [] := by
  cases part with
  | member name => exact name.ne_nil
  | memberElement name position => exact List.append_ne_nil_of_left_ne_nil name.ne_nil _
  | element position => exact List.cons_ne_nil _ _

theorem splitAt_written {parts : List Part} (hne : parts ≠ []) :
    splitAt '.' (written parts).toList = parts.map Part.chars := by
  rw [written, String.toList_ofList]
  refine splitAt_intercalate (mt List.map_eq_nil_iff.1 hne) fun cs hcs => ?_
  rcases List.mem_map.1 hcs with ⟨part, _, rfl⟩
  exact part.dot_not_mem

/-- What is cut at the dots is read part by part. -/
theorem steps?_of_dropRoot {text : String} {cs : List Char} (h : dropRoot text.toList = cs)
    (hnil : cs ≠ []) (hroot : cs ≠ ['$']) :
    steps? text = ((splitAt '.' cs).mapM partSteps?).map List.flatten := by
  rw [steps?, h, if_neg (not_or.2 ⟨hnil, hroot⟩)]
  cases (splitAt '.' cs).mapM partSteps? <;> rfl

theorem dropRoot_of_head? {cs : List Char} (h : cs.head? ≠ some '$') : dropRoot cs = cs := by
  unfold dropRoot
  split
  · exact absurd rfl h
  · rfl

/-- A path is read as its steps, with or without the root in front. -/
theorem steps?_written {parts : List Part} (hne : parts ≠ [])
    (hroot : (written parts).toList.head? ≠ some '$') :
    steps? (written parts) = some (parts.flatMap Part.steps) ∧
      steps? ("$." ++ written parts) = some (parts.flatMap Part.steps) := by
  have hnil : (written parts).toList ≠ [] := by
    intro h
    have hparts := splitAt_written hne
    rw [h] at hparts
    have hmem : [] ∈ parts.map Part.chars := hparts ▸ List.mem_singleton_self []
    rcases List.mem_map.1 hmem with ⟨part, _, hpart⟩
    exact part.chars_ne_nil hpart
  have hlone : (written parts).toList ≠ ['$'] := by
    intro h
    rw [h] at hroot
    exact hroot rfl
  have hread : ∀ text : String, dropRoot text.toList = (written parts).toList →
      steps? text = some (parts.flatMap Part.steps) := by
    intro text htext
    rw [steps?_of_dropRoot htext hnil hlone, splitAt_written hne, mapM_partSteps?_chars,
      Option.map_some, List.flatMap_def]
  constructor
  · exact hread _ (dropRoot_of_head? hroot)
  · refine hread _ ?_
    rw [String.toList_append]
    rfl

/-! ### Where steps lead -/

/-- Where steps lead from a value: to another one, or to nothing. A position is
    that of an element from the start of the list, or from its end if it is
    negative, beginning with minus one. -/
inductive Leads : List Step → Json → Option Json → Prop
  | here (j : Json) : Leads [] j (some j)
  | member {members : Keyed Json} {name : String} {c : Json} {steps : List Step} {r : Option Json}
      (h : members.get? name = some c) (rest : Leads steps c r) :
      Leads (.member name :: steps) (.object members) r
  | fromStart {elements : List Json} {n : Nat} {c : Json} {steps : List Step} {r : Option Json}
      (h : elements[n]? = some c) (rest : Leads steps c r) :
      Leads (.element (Int.ofNat n) :: steps) (.array elements) r
  | fromEnd {elements : List Json} {n : Nat} {c : Json} {steps : List Step} {r : Option Json}
      (h : elements.reverse[n]? = some c) (rest : Leads steps c r) :
      Leads (.element (Int.negSucc n) :: steps) (.array elements) r
  /-- The name is missing. -/
  | missing {members : Keyed Json} {name : String} {steps : List Step}
      (h : members.get? name = none) : Leads (.member name :: steps) (.object members) none
  /-- The position is outside of the list, on either side. -/
  | outside {elements : List Json} {position : Int} {steps : List Step}
      (h : position < -elements.length ∨ elements.length ≤ position) :
      Leads (.element position :: steps) (.array elements) none
  /-- Only objects have members. -/
  | noObject {j : Json} {name : String} {steps : List Step}
      (h : ∀ members, j ≠ .object members) : Leads (.member name :: steps) j none
  /-- Only arrays have elements. -/
  | noArray {j : Json} {position : Int} {steps : List Step}
      (h : ∀ elements, j ≠ .array elements) : Leads (.element position :: steps) j none

theorem elementAt_ofNat {α : Type} (elements : List α) (n : Nat) :
    elementAt elements (Int.ofNat n) = elements[n]? := by
  have hplace : place elements.length (Int.ofNat n) = n := if_neg (by simp)
  rw [elementAt, hplace]
  exact if_pos (Int.natCast_nonneg n)

theorem elementAt_negSucc {α : Type} (elements : List α) (n : Nat) :
    elementAt elements (Int.negSucc n) = elements.reverse[n]? := by
  have hplace : place elements.length (Int.negSucc n) = elements.length - (n + 1) := by
    rw [place, if_pos (Int.negSucc_lt_zero n)]
    omega
  rw [elementAt, hplace]
  by_cases hn : n < elements.length
  · have hindex : ((elements.length : Int) - (n + 1)).toNat = elements.length - 1 - n := by omega
    rw [if_pos (by omega), hindex, List.getElem?_reverse hn]
  · rw [if_neg (by omega), List.getElem?_eq_none]
    rw [List.length_reverse]
    omega

theorem elementAt_eq_none_iff {α : Type} {elements : List α} {position : Int} :
    elementAt elements position = none ↔
      position < -elements.length ∨ elements.length ≤ position := by
  rw [elementAt, place]
  by_cases hneg : position < 0
  · rw [if_pos hneg]
    split
    · rw [List.getElem?_eq_none_iff]
      omega
    · exact iff_of_true rfl (Or.inl (by omega))
  · rw [if_neg hneg, if_pos (by omega), List.getElem?_eq_none_iff]
    omega

theorem Leads.follow_eq {steps : List Step} {j : Json} {r : Option Json} (h : Leads steps j r) :
    follow steps j = r := by
  induction h with
  | here j => rfl
  | member h _ ih =>
      rw [follow, Step.take, h]
      exact ih
  | fromStart h _ ih =>
      rw [follow, Step.take, elementAt_ofNat, h]
      exact ih
  | fromEnd h _ ih =>
      rw [follow, Step.take, elementAt_negSucc, h]
      exact ih
  | missing h =>
      rw [follow, Step.take, h]
      rfl
  | outside h =>
      rw [follow, Step.take, elementAt_eq_none_iff.2 h]
      rfl
  | @noObject j name steps h =>
      cases j with
      | object members => exact absurd rfl (h members)
      | _ => rfl
  | @noArray j position steps h =>
      cases j with
      | array elements => exact absurd rfl (h elements)
      | _ => rfl

theorem leads_follow (steps : List Step) (j : Json) : Leads steps j (follow steps j) := by
  induction steps generalizing j with
  | nil => exact .here j
  | cons step steps ih =>
      cases step with
      | member name =>
          cases j with
          | object members =>
              rw [follow, Step.take]
              cases h : members.get? name with
              | none => exact .missing h
              | some c => exact .member h (ih c)
          | _ => exact .noObject nofun
      | element position =>
          cases j with
          | array elements =>
              rw [follow, Step.take]
              cases h : elementAt elements position with
              | none => exact .outside (elementAt_eq_none_iff.1 h)
              | some c =>
                  cases position with
                  | ofNat n => exact .fromStart (elementAt_ofNat elements n ▸ h) (ih c)
                  | negSucc n => exact .fromEnd (elementAt_negSucc elements n ▸ h) (ih c)
          | _ => exact .noArray nofun

/-- Following steps ends where they lead. -/
theorem follow_eq_iff {steps : List Step} {j : Json} {r : Option Json} :
    follow steps j = r ↔ Leads steps j r :=
  ⟨fun h => h ▸ leads_follow steps j, Leads.follow_eq⟩

/-- In a list whose length is a number of 64 bits, the place of a position of 64
    bits is one, too. -/
theorem place_bounds {length : Nat} (h : length < 2 ^ 63) (i : Int64) :
    -2 ^ 63 ≤ place length i.toInt ∧ place length i.toInt < 2 ^ 63 := by
  have hlow := i.le_toInt
  have hhigh := i.toInt_lt
  unfold place
  split
  · omega
  · omega

/-- A path in dot notation leads where its steps do, with or without the root in
    front, and finding a position in a list takes no more than 64 bits. -/
theorem locate_written (parts : List Part) (hne : parts ≠ [])
    (hroot : (written parts).toList.head? ≠ some '$') :
    (∀ j r,
        (locate (written parts) j = r ↔ Leads (parts.flatMap Part.steps) j r) ∧
        (locate ("$." ++ written parts) j = r ↔ Leads (parts.flatMap Part.steps) j r)) ∧
      ∀ (length : Nat) (i : Int64), length < 2 ^ 63 →
        -2 ^ 63 ≤ place length i.toInt ∧ place length i.toInt < 2 ^ 63 := by
  rcases steps?_written hne hroot with ⟨hplain, hdollar⟩
  refine ⟨fun j r => ⟨?_, ?_⟩, fun length i h => place_bounds h i⟩
  · rw [locate, hplain]
    exact follow_eq_iff
  · rw [locate, hdollar]
    exact follow_eq_iff

/-- A list of rows under a name with a closing bracket in it. -/
def rowsDocument : Json :=
  .object (.ofList [("a]", .object (.ofList
    [("rows", .array [.null, .array [.int 7], .null])]))])

/-- The last row but one. -/
def lastRowButOne : List Part :=
  [.member ⟨"a]", by decide, by decide, by decide⟩,
    .memberElement ⟨"rows", by decide, by decide, by decide⟩ (-2)]

/-- A row is found from the end. In it nothing is at the lowest position, and to
    find this out takes no more than 64 bits. -/
theorem locate_written_rows :
    written lastRowButOne = "a].rows[-2]" ∧
      locate (written lastRowButOne) rowsDocument = some (.array [.int 7]) ∧
      locate ("$." ++ written (lastRowButOne ++ [.element Int64.minValue])) rowsDocument = none ∧
      -2 ^ 63 ≤ place 1 Int64.minValue.toInt := by
  have hrow : ∀ {steps r}, Leads steps (.array [.int 7]) r →
      Leads (lastRowButOne.flatMap Part.steps ++ steps) rowsDocument r :=
    fun h => .member (by cbv) (.member (by cbv) (.fromEnd (n := 1) (by cbv) h))
  refine ⟨by cbv, ?_, ?_, ?_⟩
  · have h := (locate_written lastRowButOne (by decide) (by cbv; decide)).1 rowsDocument
    exact (h _).1.2 (hrow (.here _))
  · have h := (locate_written (lastRowButOne ++ [.element Int64.minValue]) (by decide)
      (by cbv; decide)).1 rowsDocument
    exact (h _).2.2 (hrow (.outside (Or.inl (by decide))))
  · have h := (locate_written lastRowButOne (by decide) (by cbv; decide)).2
    exact (h 1 Int64.minValue (by norm_num)).1

end RecordPath

end SampleSchema
