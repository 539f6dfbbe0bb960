import Mathlib
import SampleSchema.Proofs.Attempts
import SampleSchema.Schema.Wire

/-!
# Reading Back What Is Written

A schema can be read from what is written of it, whatever the source.

The reader of schemas is put together from what a `Source` offers, and it is
the same for all sources. So is the argument that it reads back what has been
written. What it needs of a source is said in `Source.Faithful`, once for each
of the few things a source offers: strings are read as they are, lists and
objects by what is inside them, and the fields of a record are taken in one by
one. A source may only allow for so much nesting. The relation that says what
is read from what carries a number for that, which a record raises by one.

Not all that is written has to be known here. A schema's wire form is textual:
there are strings, lists and objects in it and nothing else. Each of them
begins with a mark of its own, so no part is mistaken for the mark for none.

Members are met in ascending order of name, which is not the order in which the
parts are written, and each of them sets a part of a schema that had none.

## Main definitions

* `Json.IsTextual`: A value is made of strings, lists and objects only.
* `Source.TakesIn`: Members change a record step by step.
* `Source.Faithful`: What is needed of a source.
* `Schema.members`: The members of a schema's wire form, ascending.

## Theorems

* `Json.depth_array_le_iff`, `Json.depth_object_le_iff`: How deep the brackets
  nest inside.
* `Schema.json_eq`: A schema's wire form is an object with these members.
* `Schema.isTextual_json`: It is textual.
* `Schema.reads_reader`: The reader of schemas reads a schema's wire form as
  that schema.
* `FromJson.faithful`: JSON values are a faithful source.
* `Schema.ofJson_json`: A schema is read back from its value.
* `Schema.json_lossless`: No two schemas have the same value, and the parts that
  are there are its members.
-/

namespace SampleSchema

/-! ### Nesting -/

namespace Json

theorem foldr_max_le_iff {ns : List Nat} {d : Nat} :
    ns.foldr max 0 ≤ d ↔ ∀ n ∈ ns, n ≤ d := by
  induction ns with
  | nil => simp
  | cons n ns ih => simp [ih]

theorem depth_array_le_iff {js : List Json} {d : Nat} :
    (array js).depth ≤ d + 1 ↔ ∀ j ∈ js, j.depth ≤ d := by
  rw [depth, Nat.add_le_add_iff_right, foldr_max_le_iff, List.forall_mem_map]

theorem depth_object_le_iff {members : Keyed Json} {d : Nat} :
    (object members).depth ≤ d + 1 ↔ ∀ e ∈ members.toList, e.2.depth ≤ d := by
  rw [depth, Keyed.mapMem_eq_map members fun _ j => j.depth, Nat.add_le_add_iff_right,
    foldr_max_le_iff, Keyed.values, Keyed.toList_map]
  simp only [List.map_map, List.forall_mem_map, Function.comp_apply]

theorem depth_pos_array (js : List Json) : 0 < (array js).depth := by
  rw [depth]
  omega

theorem depth_pos_object (members : Keyed Json) : 0 < (object members).depth := by
  rw [depth]
  omega

theorem depth_lt_of_mem_array {js : List Json} {j : Json} (h : j ∈ js) :
    j.depth < (array js).depth := by
  have hpos := depth_pos_array js
  have hle : (array js).depth ≤ (array js).depth - 1 + 1 := by omega
  have := depth_array_le_iff.1 hle j h
  omega

theorem depth_lt_of_mem_object {members : Keyed Json} {e : String × Json} (h : e ∈ members.toList) :
    e.2.depth < (object members).depth := by
  have hpos := depth_pos_object members
  have hle : (object members).depth ≤ (object members).depth - 1 + 1 := by omega
  have := depth_object_le_iff.1 hle e h
  omega

/-- The value is made of strings, lists and objects only, each of which begins
    with a mark of its own. -/
inductive IsTextual : Json → Prop
  | string (s : String) : IsTextual (.string s)
  | array {js : List Json} (h : ∀ j ∈ js, IsTextual j) : IsTextual (.array js)
  | object {members : Keyed Json} (h : ∀ e ∈ members.toList, IsTextual e.2) :
      IsTextual (.object members)

theorem isTextual_strings (ss : List String) : (array (ss.map .string)).IsTextual :=
  .array (List.forall_mem_map.2 fun s _ => .string s)

end Json

/-! ### Sources -/

namespace Source

section Taking

variable {r : Type → Type} {σ : Type}

/-- Members change a record step by step, if each of them has a field that was
    not given before, and that field's reader reads the change from its value. -/
inductive TakesIn (fields : List (Field r σ)) (reads : r (σ → σ) → Json → (σ → σ) → Prop) :
    List (String × Json) → List String → σ → σ → Prop
  | nil {given : List String} {state : σ} : TakesIn fields reads [] given state state
  | cons {name : String} {j : Json} {es : List (String × Json)} {given : List String}
      {state last : σ} {f : Field r σ} {change : σ → σ}
      (hfield : Field.named? fields name = some f) (hnew : f.name ∉ given)
      (hread : reads f.update j change)
      (hrest : TakesIn fields reads es (f.name :: given) (change state) last) :
      TakesIn fields reads ((name, j) :: es) given state last

/-- Members with different names, each of a field that goes by that name, are
    all taken in. -/
theorem TakesIn.of_changes {fields : List (Field r σ)}
    {reads : r (σ → σ) → Json → (σ → σ) → Prop} {change : String → σ → σ}
    {es : List (String × Json)} (hnodup : (es.map Prod.fst).Nodup)
    (hread : ∀ e ∈ es, ∃ f, Field.named? fields e.1 = some f ∧ f.name = e.1 ∧
      reads f.update e.2 (change e.1)) (given : List String) (hgiven : ∀ e ∈ es, e.1 ∉ given)
    (state : σ) :
    TakesIn fields reads es given state (es.foldl (fun state e => change e.1 state) state) := by
  induction es generalizing given state with
  | nil => exact .nil
  | cons e es ih =>
      rw [List.map_cons, List.nodup_cons] at hnodup
      rcases hread e List.mem_cons_self with ⟨f, hfield, hname, hchange⟩
      refine .cons hfield (hname ▸ hgiven e List.mem_cons_self) hchange ?_
      refine ih hnodup.2 (fun e' he' => hread e' (List.mem_cons_of_mem e he')) _ ?_ _
      -- A later member is neither among the earlier ones nor this one.
      intro e' he' hmem
      rcases List.mem_cons.1 hmem with heq | hmem
      · rw [hname] at heq
        exact hnodup.1 (heq ▸ List.mem_map_of_mem he')
      · exact hgiven e' (List.mem_cons_of_mem e he') hmem

end Taking

/-- Reading from the source undoes writing. `Reads n x j a` says that `x` reads
    `a` from `j` where there is room for no more than `n` levels of records. -/
structure Faithful {r : Type → Type} [Source r]
    (Reads : {α : Type} → Nat → r α → Json → α → Prop) : Prop where
  /-- Where there is no room at all, nothing has to be read. -/
  noRoom {α : Type} (x : r α) (j : Json) (a : α) : Reads 0 x j a
  /-- What is read may be changed. -/
  map {α β : Type} {n : Nat} {x : r α} {j : Json} {a : α} (f : α → β) (h : Reads n x j a) :
    Reads n (f <$> x) j (f a)
  /-- A string is read as it is. -/
  string (n : Nat) (s : String) : Reads n Source.string (.string s) s
  /-- What begins with a mark of its own is not the mark for none. -/
  optional {α : Type} {n : Nat} {x : r α} {j : Json} {a : α} (hj : j.IsTextual)
    (h : Reads n x j a) : Reads n (Source.optional x) j (some a)
  /-- A list is read element by element. -/
  list {α : Type} {n : Nat} {x : r α} {write : α → Json} {as : List α}
    (hwrite : ∀ a ∈ as, (write a).IsTextual) (h : ∀ a ∈ as, Reads n x (write a) a) :
    Reads n (Source.list x) (.array (as.map write)) as
  /-- A collection is read value by value. -/
  keyed {α : Type} {n : Nat} {x : r α} {write : α → Json} {entries : Keyed α}
    (h : ∀ k a, entries.get? k = some a → Reads n x (write a) a) :
    Reads n (Source.keyed x) (.object (entries.map fun _ a => write a)) entries
  /-- A record is read by taking in its members. -/
  record {σ : Type} {n : Nat} {fields : List (Field r σ)} {members : Keyed Json}
    {start last : σ} (kind : String)
    (h : TakesIn fields (Reads n) members.toList [] start last) :
    Reads (n + 1) (Source.record kind fields start) (.object members) last
  /-- What makes sense of strings is given them. -/
  anything {α : Type} {j : Json} {sense : Json.Written → Option α} {a : α} (n : Nat)
    (kind : String) (hj : j.IsTextual) (h : sense j.written = some a) :
    Reads n (Source.anything kind sense) j a

end Source

/-! ### The members of a schema -/

namespace Keyed

variable {α : Type}

/-- Where names differ, every entry that is stored can be looked up. -/
theorem get?_ofList_eq_some_iff {es : List (String × α)} (hnodup : (es.map Prod.fst).Nodup)
    {k : String} {v : α} : (ofList es).get? k = some v ↔ (k, v) ∈ es := by
  rw [get?_ofList]
  constructor
  · intro h
    rcases Option.map_eq_some_iff.1 h with ⟨e, he, rfl⟩
    have hk : k = e.1 := by simpa using List.find?_some he
    have hmem := List.mem_reverse.1 (List.mem_of_find?_eq_some he)
    rw [hk]
    exact hmem
  · intro h
    cases hfound : es.reverse.find? fun e => k == e.1 with
    | none =>
        have hnot := List.find?_eq_none.1 hfound (k, v) (List.mem_reverse.2 h)
        simp at hnot
    | some e =>
        have hk : k = e.1 := by simpa using List.find?_some hfound
        have hmem := List.mem_reverse.1 (List.mem_of_find?_eq_some hfound)
        have heq : e = (k, v) := List.inj_on_of_nodup_map hnodup hmem h hk.symm
        rw [heq]
        rfl

/-- Entries with different names may be stored in any order. -/
theorem ofList_perm {es fs : List (String × α)} (h : es.Perm fs)
    (hnodup : (es.map Prod.fst).Nodup) : ofList es = ofList fs := by
  have hnodup' : (fs.map Prod.fst).Nodup := (h.map Prod.fst).nodup_iff.1 hnodup
  refine ext_get? fun k => Option.ext fun v => ?_
  rw [get?_ofList_eq_some_iff hnodup, get?_ofList_eq_some_iff hnodup', h.mem_iff]

/-- Ascending entries are listed as they were stored. -/
theorem toList_ofList {es : List (String × α)} (h : es.Pairwise fun a b => a.1 < b.1) :
    (ofList es).toList = es := by
  have hnames : (es.map Prod.fst).Nodup := nodup_of_ascending (List.pairwise_map.2 h)
  have hperm : (ofList es).toList.Perm es := by
    refine (List.perm_ext_iff_of_nodup ?_ hnames.of_map).2 fun ⟨k, v⟩ => ?_
    · exact (nodup_of_ascending (pairwise_keys _)).of_map
    · rw [mem_toList_iff, get?_ofList_eq_some_iff hnames]
  refine hperm.eq_of_pairwise ?_ (pairwise_toList _) h
  intro a b _ _ hab hba
  exact absurd (String.lt_trans hab hba) (String.lt_irrefl _)

end Keyed

namespace Schema

/-- The parts of a schema's wire form, in ascending order of name. -/
def wireParts (s : Schema) : List (String × Option Json) :=
  [("anyOf", s.anyOf.map fun cs => .array (cs.map json)),
    ("items", s.items.map json),
    ("properties", s.properties.map fun p => .object (p.map fun _ c => c.json)),
    ("required", s.required.map fun names => .array (names.map .string)),
    ("type", s.type.map fun t => t.written.value)]

/-- The members of a schema's wire form, in ascending order of name. -/
def members (s : Schema) : List (String × Json) :=
  s.wireParts.filterMap fun p => p.2.map fun j => (p.1, j)

theorem pairwise_members (s : Schema) : s.members.Pairwise fun a b => a.1 < b.1 := by
  have hparts : s.wireParts.Pairwise fun p q => p.1 < q.1 := by
    refine List.pairwise_map.1 ?_
    change ["anyOf", "items", "properties", "required", "type"].Pairwise (· < ·)
    decide
  refine hparts.filterMap _ fun p q hpq a ha b hb => ?_
  rcases Option.map_eq_some_iff.1 ha with ⟨_, -, rfl⟩
  rcases Option.map_eq_some_iff.1 hb with ⟨_, -, rfl⟩
  exact hpq

/-- The first and the last of five may change places. -/
theorem perm_swap_ends {α : Type} (a b c d e : α) : [e, b, c, d, a].Perm [a, b, c, d, e] := by
  have hlast := List.perm_append_singleton a [b, c, d]
  have hfirst := List.perm_append_singleton e [b, c, d]
  exact (hlast.cons e).trans ((List.Perm.swap a e _).trans (hfirst.symm.cons a))

/-- The parts in the order in which they are written. -/
theorem perm_wireParts (s : Schema) :
    [("type", s.type.map fun t => t.written.value),
      ("items", s.items.map json),
      ("properties", s.properties.map fun p => Json.object (p.map fun _ c => c.json)),
      ("required", s.required.map fun names => Json.array (names.map .string)),
      ("anyOf", s.anyOf.map fun cs => Json.array (cs.map json))].Perm s.wireParts :=
  perm_swap_ends _ _ _ _ _

/-- A part that is written has the value that is read. -/
theorem toList_part {α : Type} (name : String) (part : Option α) {write : α → Json.Written}
    {value : α → Json} (h : ∀ a, (write a).value = value a) :
    ((part.map value).map fun j => (name, j)).toList =
      (part.map fun a => (name, write a)).toList.map fun m => (m.1, m.2.value) := by
  cases part with
  | none => rfl
  | some a => simp only [Option.map_some, Option.toList_some, List.map_cons, List.map_nil, h]

/-- A schema's wire form is an object with these members. -/
theorem json_eq (s : Schema) : s.json = .object (Keyed.ofList s.members) := by
  have hinside : ∀ c : Schema, c.written.value = c.json := fun _ => rfl
  have hvalues : ∀ r : Keyed Schema,
      (Json.Written.object (r.map fun _ c => c.written).toList).value =
        .object (r.map fun _ c => c.json) := by
    intro r
    rw [Json.Written.value, Keyed.toList_map, List.map_map]
    refine congrArg Json.object ?_
    rw [← Keyed.ofList_toList (r.map fun _ c => c.json), Keyed.toList_map]
    rfl
  have hstrings : ∀ names : List String,
      (Json.Written.array (names.map .string)).value = .array (names.map .string) := by
    intro names
    simp only [Json.Written.value, List.map_map, Function.comp_def]
  have hlist : ∀ cs : List Schema,
      (Json.Written.array (cs.map written)).value = .array (cs.map json) := by
    intro cs
    simp only [Json.Written.value, List.map_map]
    rfl
  -- What is written begins with the type, and what is read with the alternatives.
  have hnodup : (s.members.map Prod.fst).Nodup :=
    Keyed.nodup_of_ascending (List.pairwise_map.2 s.pairwise_members)
  have hperm := (s.perm_wireParts.filterMap fun p => p.2.map fun j => (p.1, j)).symm
  have horder : Keyed.ofList s.members = _ := Keyed.ofList_perm hperm hnodup
  rw [json, written_eq, Json.Written.value, horder]
  refine congrArg (fun es => Json.object (Keyed.ofList es)) ?_
  simp only [List.filterMap_eq_flatMap_toList, List.flatMap_cons, List.flatMap_nil,
    List.append_nil, List.map_append, List.append_assoc]
  rw [toList_part "type" s.type fun _ => rfl, toList_part "items" s.items hinside,
    toList_part "properties" s.properties hvalues, toList_part "required" s.required hstrings,
    toList_part "anyOf" s.anyOf hlist]

theorem toList_members (s : Schema) : (Keyed.ofList s.members).toList = s.members :=
  Keyed.toList_ofList s.pairwise_members

/-! ### Reading a schema -/

/-- A part is set to what it is in the schema that is read. -/
def setPart (s : Schema) (name : String) (t : Schema) : Schema :=
  match name with
  | "type" => { t with type := s.type }
  | "items" => { t with items := s.items }
  | "properties" => { t with properties := s.properties }
  | "required" => { t with required := s.required }
  | "anyOf" => { t with anyOf := s.anyOf }
  | _ => t

/-- With all of its members taken in, a schema is complete. -/
theorem foldl_setPart (s : Schema) : s.members.foldl (fun t e => s.setPart e.1 t) {} = s := by
  rcases s with ⟨type, items, properties, required, anyOf⟩
  cases type <;> cases items <;> cases properties <;> cases required <;> cases anyOf <;> rfl

theorem value_type (t : TypeSpec) :
    t.written.value = match t with
      | .single tag => .string tag.name
      | .several tags => .array ((tags.map Tag.name).map .string) := by
  cases t with
  | single tag => rw [TypeSpec.written, Json.Written.value]
  | several tags =>
      simp only [TypeSpec.written, Json.Written.value, List.map_map, Function.comp_def]

theorem isTextual_type (t : TypeSpec) : t.written.value.IsTextual := by
  rw [value_type]
  cases t with
  | single tag => exact .string tag.name
  | several tags => exact Json.isTextual_strings _

/-- What is written under `type` is read as what it was. -/
theorem ofWritten?_type (t : TypeSpec) :
    TypeSpec.ofWritten? t.written.value.written = some t := by
  rw [value_type]
  cases t with
  | single tag =>
      simp only [Json.written, TypeSpec.ofWritten?, Tag.ofWritten?, Tag.ofName?_name]
  | several tags =>
      have hall : (tags.map fun tag => Json.Written.string tag.name).mapM Tag.ofWritten? =
          some tags := by
        induction tags with
        | nil => rfl
        | cons tag tags ih =>
            rw [List.map_cons, List.mapM_cons, ih, Tag.ofWritten?, Tag.ofName?_name]
            rfl
      simp only [Json.written, List.map_map, Function.comp_def, TypeSpec.ofWritten?, Tag.ofWritten?,
        hall]
      rfl

/-- The members of a schema's wire form are the parts that are there. -/
theorem mem_members_iff {s : Schema} {e : String × Json} :
    e ∈ s.members ↔
      (∃ cs, s.anyOf = some cs ∧ e = ("anyOf", .array (cs.map json))) ∨
      (∃ c, s.items = some c ∧ e = ("items", c.json)) ∨
      (∃ p, s.properties = some p ∧ e = ("properties", .object (p.map fun _ c => c.json))) ∨
      (∃ names, s.required = some names ∧ e = ("required", .array (names.map .string))) ∨
      ∃ t, s.type = some t ∧ e = ("type", t.written.value) := by
  simp only [members, wireParts, List.mem_filterMap, List.mem_cons, List.not_mem_nil, or_false,
    exists_eq_or_imp, exists_eq_left, Option.map_eq_some_iff, exists_exists_and_eq_and,
    eq_comm (a := e)]

/-- A schema's wire form is textual, if those of the schemas inside are. -/
theorem isTextual_of_mem_members {s : Schema} (h : ∀ c ∈ s.children, c.json.IsTextual)
    {e : String × Json} (he : e ∈ s.members) : e.2.IsTextual := by
  rcases mem_members_iff.1 he with ⟨cs, hs, rfl⟩ | ⟨c, hs, rfl⟩ | ⟨p, hs, rfl⟩ | ⟨names, -, rfl⟩ |
    ⟨t, -, rfl⟩
  · exact .array (List.forall_mem_map.2 fun c hc => h c (mem_children_of_anyOf hs hc))
  · exact h c (mem_children_of_items hs)
  · refine .object fun e he => ?_
    rw [Keyed.toList_map] at he
    rcases List.mem_map.1 he with ⟨⟨k, c⟩, hc, rfl⟩
    exact h c (mem_children_of_properties hs hc)
  · exact Json.isTextual_strings names
  · exact isTextual_type t

theorem isTextual_json (s : Schema) : s.json.IsTextual := by
  induction s using Schema.induction with
  | step s ih =>
      rw [json_eq]
      refine .object fun e he => ?_
      rw [toList_members] at he
      exact isTextual_of_mem_members ih he

section Reader

variable {r : Type → Type} [Source r] {Reads : {α : Type} → Nat → r α → Json → α → Prop}

/-- Each member of a schema's wire form is read as a change of that part. -/
theorem exists_field (h : Source.Faithful Reads) {n : Nat} {inside : r Schema}
    (hinside : ∀ c : Schema, Reads n inside c.json c) {s : Schema} {e : String × Json}
    (he : e ∈ s.members) :
    ∃ f, Field.named? (fields inside) e.1 = some f ∧ f.name = e.1 ∧
      Reads n f.update e.2 (s.setPart e.1) := by
  have htextual : e.2.IsTextual := isTextual_of_mem_members (fun c _ => isTextual_json c) he
  -- A part that is there is read as what it is, and set to that.
  have hpart : ∀ {α : Type} {x : r α} {part : Option α} {a : α} (set : Option α → Schema → Schema),
      part = some a → Reads n x e.2 a → Reads n (set <$> Source.optional x) e.2 (set part) :=
    fun set hsome hx => hsome ▸ h.map set (h.optional htextual hx)
  rcases mem_members_iff.1 he with ⟨cs, hs, rfl⟩ | ⟨c, hs, rfl⟩ | ⟨p, hs, rfl⟩ | ⟨names, hs, rfl⟩ |
    ⟨t, hs, rfl⟩
  · refine ⟨_, rfl, rfl, hpart (fun anyOf u => { u with anyOf := anyOf }) hs ?_⟩
    exact h.list (fun c _ => isTextual_json c) fun c _ => hinside c
  · exact ⟨_, rfl, rfl, hpart (fun items u => { u with items := items }) hs (hinside c)⟩
  · refine ⟨_, rfl, rfl, hpart (fun properties u => { u with properties := properties }) hs ?_⟩
    exact h.keyed fun _ c _ => hinside c
  · refine ⟨_, rfl, rfl, hpart (fun required u => { u with required := required }) hs ?_⟩
    exact h.list (fun name _ => .string name) fun name _ => h.string n name
  · refine ⟨_, rfl, rfl, hpart (fun type u => { u with type := type }) hs ?_⟩
    exact h.anything n "SchemaType" (isTextual_type t) (ofWritten?_type t)

/-- The reader of schemas reads a schema's wire form as that schema, whatever
    the source. -/
theorem reads_reader (h : Source.Faithful Reads) (n : Nat) (s : Schema) :
    Reads n (reader n) s.json s := by
  induction n generalizing s with
  | zero => exact h.noRoom _ _ _
  | succ n ih =>
      have htaken := Source.TakesIn.of_changes
        (Keyed.nodup_of_ascending (List.pairwise_map.2 s.pairwise_members))
        (fun e he => exists_field h ih he) [] (fun _ _ => List.not_mem_nil) {}
      rw [foldl_setPart, ← toList_members] at htaken
      rw [json_eq, reader]
      exact h.record "Schema" htaken

end Reader

end Schema

/-! ### JSON values -/

namespace FromJson

open Json

/-- A value is read that nests less deeply than there is room for. -/
def Reads {α : Type} (n : Nat) (x : FromJson α) (j : Json) (a : α) : Prop :=
  j.depth < n → x j = .ok a

/-- Members that are taken in step by step are taken in. -/
theorem takeMembers_of_takesIn {σ : Type} {fields : List (Field FromJson σ)} {n : Nat}
    {es : List (String × Json)} {given : List String} {state last : σ}
    (h : Source.TakesIn fields (Reads n) es given state last) (hdepth : ∀ e ∈ es, e.2.depth < n) :
    takeMembers fields es given state = .ok last := by
  induction h with
  | nil => rfl
  | @cons name j es given state last f change hfield hnew hread _ ih =>
      rw [takeMembers, hfield]
      simp only [if_neg hnew, hread (hdepth _ List.mem_cons_self)]
      exact ih fun e he => hdepth e (List.mem_cons_of_mem _ he)

/-- JSON values are a source from which everything is read back. -/
theorem faithful : Source.Faithful (r := FromJson) Reads where
  noRoom _ _ _ h := absurd h (Nat.not_lt_zero _)
  map {_ _ _ x j a} f h hdepth := by
    change (f <$> x j : Except Misfit _) = .ok (f a)
    rw [h hdepth]
    rfl
  string _ _ _ := rfl
  optional {_ _ x j a} hj h hdepth := by
    have hread := h hdepth
    cases j with
    | null => cases hj
    | _ =>
        change (some <$> x _ : Except Misfit _) = .ok (some a)
        rw [hread]
        rfl
  list {_ n x write as} _ h hdepth := by
    have hinside : ∀ a ∈ as, (x ∘ write) a = .ok (id a) := by
      intro a ha
      have hlt := depth_lt_of_mem_array (List.mem_map_of_mem (f := write) ha)
      exact h a ha (Nat.lt_trans hlt hdepth)
    change (as.map write).mapM x = .ok as
    rw [List.mapM_map, mapM_of_ok hinside, List.map_id]
  keyed {_ n x write entries} h hdepth := by
    have hinside : ∀ k a, entries.get? k = some a → x (write a) = .ok a := by
      intro k a ha
      have hmem : (k, write a) ∈ (entries.map fun _ a => write a).toList := by
        rw [Keyed.mem_toList_iff, Keyed.get?_map, ha]
        rfl
      exact h k a ha (Nat.lt_trans (depth_lt_of_mem_object hmem) hdepth)
    change ((entries.map fun _ a => write a).mapM fun _ j => x j) = .ok entries
    rw [Keyed.mapM_map, Keyed.mapM_of_ok (w := fun _ a => a) hinside]
    exact congrArg Except.ok (Keyed.ext_get? fun k => by simp)
  record {_ n fields members start last} kind h hdepth := by
    change takeMembers fields members.toList [] start = .ok last
    refine takeMembers_of_takesIn h fun e he => ?_
    have hlt := depth_lt_of_mem_object he
    omega
  anything {_ j sense a} n kind _ h _ := by
    simp only [Source.anything, h]

end FromJson

/-- A schema is read back from its value. -/
theorem Schema.ofJson_json (s : Schema) : ofJson s.json = .ok s :=
  reads_reader FromJson.faithful (s.json.depth + 1) s (Nat.lt_succ_self _)

/-! ### Nothing is lost -/

namespace Schema

/-- A member of the wire form is a part that is there, with what it holds. -/
theorem get?_members_iff {s : Schema} {name : String} {j : Json} :
    (Keyed.ofList s.members).get? name = some j ↔ (name, some j) ∈ s.wireParts := by
  have hnodup := Keyed.nodup_of_ascending (List.pairwise_map.2 s.pairwise_members)
  rw [Keyed.get?_ofList_eq_some_iff hnodup, members, List.mem_filterMap]
  constructor
  · rintro ⟨⟨n, part⟩, hpart, h⟩
    rcases Option.map_eq_some_iff.1 h with ⟨_, rfl, heq⟩
    cases heq
    exact hpart
  · intro hpart
    exact ⟨_, hpart, rfl⟩

/-- The wire form loses nothing. It is read back as the schema that was written,
    so different schemas have different ones. What is absent is left out, and
    what is empty, or a list of one, is written as it is. -/
theorem json_lossless :
    (∀ s : Schema, ofJson s.json = .ok s) ∧ Function.Injective json ∧
      ∀ s : Schema, ∃ members, s.json = .object members ∧
        ∀ name j, members.get? name = some j ↔ (name, some j) ∈ s.wireParts := by
  refine ⟨ofJson_json, fun s t h => ?_, fun s => ⟨_, s.json_eq, fun name j => get?_members_iff⟩⟩
  refine Except.ok.inj ((ofJson_json s).symm.trans ?_)
  rw [h, ofJson_json t]

/-- Empty parts and a list of one tag are members, and so they come back. -/
example : ofJson (.object (.ofList [("anyOf", .array []), ("items", .object .empty),
      ("required", .array []), ("type", .array [.string "null"])])) =
    .ok { type := some (.several [.null]), items := some {}, required := some [],
          anyOf := some [] } := by
  cbv

end Schema

end SampleSchema
