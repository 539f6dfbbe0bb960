/-!
# Keyed Collections

Values stored under distinct names, always in ascending order of name.

Objects, map samples and property tables are all of this kind, and the order
of their names shows in everything that is printed. A plain list of pairs
would leave both the order and the distinctness to be promised by whoever
builds one. Here they are part of the type: each entry of `Keyed.From`
carries the proof that its name comes after the one before it, so two
collections that answer every look-up alike are equal, and an operation that
would break the order does not type-check.

The tail type is indexed by the name that went before, which is why
`Keyed.From` is a family. Nothing outside this module needs the index:
collections are built by `Keyed.insert`, `Keyed.ofList` and `Keyed.tabulate`,
and seen through `Keyed.toList` and `Keyed.get?`.

Names are compared by Unicode code point, the order of `String`.

## Main definitions

* `Keyed`: Values under distinct names in ascending order.
* `Keyed.toList`: The entries, in order.
* `Keyed.get?`: The value under a name.
* `Keyed.insert`: Store a value, replacing what the name held before.
* `Keyed.ofList`: Store entries one after another, so the last one wins.
* `Keyed.map`, `Keyed.mapMem`, `Keyed.mapM`: Change the values, keep the names.
* `Keyed.tabulate`: The value of a function at each of some names.

## Theorems

* `Keyed.sizeOf_lt_of_mem`: An entry is smaller than the collection.
* `Keyed.pairwise_toList`: The names ascend.
* `Keyed.get?_insert`: What an insertion does to every look-up.
* `Keyed.get?_ofList`: The last entry of a name is the one found.
* `Keyed.get?_tabulate`: A tabulation holds the function at its names.
* `Keyed.ext_get?`: Look-ups determine the collection.
-/

namespace SampleSchema

/-- The name `k` may follow `lo`: any name may open a collection, and later
    ones must be greater than the one before. -/
def Above : Option String → String → Prop
  | none, _ => True
  | some a, k => a < k

/-- Entries in ascending order of name, all of them above `lo`. -/
inductive Keyed.From (α : Type) : Option String → Type
  | nil {lo : Option String} : Keyed.From α lo
  | cons {lo : Option String} (k : String) (h : Above lo k) (v : α)
      (rest : Keyed.From α (some k)) : Keyed.From α lo

/-- Values stored under distinct names, in ascending order of name. -/
structure Keyed (α : Type) where
  /-- The entries, the first name being free. -/
  entries : Keyed.From α none

namespace Keyed

variable {α β : Type}

/-- Of two different names one comes first. -/
theorem lt_of_not_lt_of_ne {a b : String} (h : ¬ a < b) (hne : a ≠ b) : b < a := by
  rcases Decidable.em (b < a) with hlt | hge
  · exact hlt
  · exact absurd (String.le_antisymm (String.not_lt.1 hge) (String.not_lt.1 h)) hne

/-! ### Entries above a name -/

namespace From

/-- The entries as pairs. -/
def toList {lo : Option String} : From α lo → List (String × α)
  | nil => []
  | cons k _ v rest => (k, v) :: rest.toList

/-- The value under a name. -/
def get? (name : String) {lo : Option String} : From α lo → Option α
  | nil => none
  | cons k _ v rest => if name = k then some v else rest.get? name

/-- Store a value, replacing what the name held before. -/
def insert (name : String) (value : α) {lo : Option String} (above : Above lo name) :
    From α lo → From α lo
  | nil => cons name above value nil
  | cons k h v rest =>
      if hlt : name < k then cons name above value (cons k hlt v rest)
      else if heq : name = k then cons k h value rest
      else cons k h v (rest.insert name value (lt_of_not_lt_of_ne hlt heq))

/-- Change the values, keep the names. -/
def map (f : String → α → β) {lo : Option String} : From α lo → From β lo
  | nil => nil
  | cons k h v rest => cons k h (f k v) (rest.map f)

/-- As `map`, for a function that may use that the entry is there. -/
def mapMem {lo : Option String} :
    (r : From α lo) → ((k : String) → (v : α) → (k, v) ∈ r.toList → β) → From β lo
  | nil, _ => nil
  | cons k h v rest, f =>
      cons k h (f k v List.mem_cons_self)
        (rest.mapMem fun k' v' h' => f k' v' (List.mem_cons_of_mem _ h'))

/-- As `map`, in ascending order of name and with effects. -/
def mapM {m : Type → Type} [Monad m] (f : String → α → m β) {lo : Option String} :
    From α lo → m (From β lo)
  | nil => pure nil
  | cons k h v rest => do
      let v' ← f k v
      let rest' ← rest.mapM f
      pure (cons k h v' rest')

theorem toList_mapMem {lo : Option String} (r : From α lo) (f : String → α → β) :
    (r.mapMem fun k v _ => f k v) = r.map f := by
  induction r with
  | nil => rfl
  | cons k h v rest ih => simp only [mapMem, map, ih]

theorem toList_map {lo : Option String} (r : From α lo) (f : String → α → β) :
    (r.map f).toList = r.toList.map fun e => (e.1, f e.1 e.2) := by
  induction r with
  | nil => rfl
  | cons k h v rest ih => simp only [map, toList, List.map_cons, ih]

theorem sizeOf_lt_of_mem {lo : Option String} {r : From α lo} [SizeOf α] {e : String × α}
    (h : e ∈ r.toList) : sizeOf e.2 < sizeOf r := by
  induction r with
  | nil => exact absurd h List.not_mem_nil
  | cons k hk v rest ih =>
      simp only [From.cons.sizeOf_spec]
      rcases List.mem_cons.1 h with rfl | hmem
      · simp only
        omega
      · have := ih hmem
        omega

/-- Every name among the entries is above the index. -/
theorem above_of_mem {lo : Option String} {r : From α lo} {e : String × α}
    (h : e ∈ r.toList) : Above lo e.1 := by
  induction r with
  | nil => exact absurd h List.not_mem_nil
  | @cons lo k hk v rest ih =>
      rcases List.mem_cons.1 h with rfl | hmem
      · exact hk
      · cases lo with
        | none => trivial
        | some a => exact String.lt_trans hk (ih hmem)

theorem pairwise_toList {lo : Option String} (r : From α lo) :
    r.toList.Pairwise fun a b => a.1 < b.1 := by
  induction r with
  | nil => exact List.Pairwise.nil
  | cons k hk v rest ih => exact List.Pairwise.cons (fun _ he => above_of_mem he) ih

theorem get?_eq_none_of_not_above {lo : Option String} {r : From α lo} {name : String}
    (h : ¬ Above lo name) : r.get? name = none := by
  induction r with
  | nil => rfl
  | @cons lo k hk v rest ih =>
      cases lo with
      | none => exact absurd trivial h
      | some a =>
          have hne : name ≠ k := fun he => h (he ▸ hk)
          have hnot : ¬ Above (some k) name := fun hlt => h (String.lt_trans hk hlt)
          simp only [get?, hne, if_false, ih hnot]

theorem get?_insert {lo : Option String} {r : From α lo} {name : String} {value : α}
    (above : Above lo name) (k : String) :
    (r.insert name value above).get? k = if k = name then some value else r.get? k := by
  induction r with
  | nil => rfl
  | cons k' h v rest ih =>
      simp only [insert]
      split
      · rfl
      · split
        · next heq => subst heq; simp only [get?]; split <;> rfl
        · next hne =>
            simp only [get?]
            split
            · next hk => subst hk; rw [if_neg (fun he => hne he.symm)]
            · exact ih _

theorem mem_toList_iff {lo : Option String} {r : From α lo} {k : String} {v : α} :
    (k, v) ∈ r.toList ↔ r.get? k = some v := by
  induction r with
  | nil => simp [toList, get?]
  | cons k' h v' rest ih =>
      simp only [toList, List.mem_cons, Prod.mk.injEq, get?]
      split
      · next heq =>
          subst heq
          have hno : (k, v) ∉ rest.toList := fun hm => String.lt_irrefl _ (above_of_mem hm)
          simp [hno, eq_comm]
      · next hne => simp [hne, ih]

theorem get?_map {lo : Option String} (r : From α lo) (f : String → α → β) (k : String) :
    (r.map f).get? k = (r.get? k).map (f k) := by
  induction r with
  | nil => rfl
  | cons k' h v rest ih =>
      simp only [map, get?]
      split
      · next heq => subst heq; rfl
      · exact ih

/-- Look-ups determine the entries: the first names agree, since each is
    found in the other collection and neither can be above itself. -/
theorem ext_get? {lo : Option String} {r s : From α lo} (h : ∀ k, r.get? k = s.get? k) :
    r = s := by
  induction r with
  | nil =>
      cases s with
      | nil => rfl
      | cons k hk v rest => exact absurd (h k) (by simp [get?])
  | @cons lo k hk v rest ih =>
      cases s with
      | nil => exact absurd (h k) (by simp [get?])
      | cons k' hk' v' rest' =>
          have hkk : k = k' := by
            rcases Decidable.em (k = k') with he | hne
            · exact he
            · have h1 : rest'.get? k = some v := by
                have := h k; simpa [get?, hne] using this.symm
              have h2 : rest.get? k' = some v' := by
                have := h k'; simpa [get?, Ne.symm hne] using this
              have a1 : k' < k := above_of_mem (mem_toList_iff.2 h1)
              have a2 : k < k' := above_of_mem (mem_toList_iff.2 h2)
              exact absurd (String.lt_trans a1 a2) (String.lt_irrefl _)
          subst hkk
          have hv : v = v' := by simpa [get?] using h k
          subst hv
          have hrest : rest = rest' := by
            apply ih
            intro j
            rcases Decidable.em (j = k) with he | hne
            · subst he
              rw [get?_eq_none_of_not_above (String.lt_irrefl _),
                get?_eq_none_of_not_above (String.lt_irrefl _)]
            · simpa [get?, hne] using h j
          rw [hrest]

end From

/-! ### Collections -/

/-- No entries. -/
def empty : Keyed α := ⟨.nil⟩

instance : Inhabited (Keyed α) := ⟨empty⟩

/-- The entries as pairs, in ascending order of name. -/
def toList (r : Keyed α) : List (String × α) := r.entries.toList

/-- The names, ascending. -/
def keys (r : Keyed α) : List String := r.toList.map Prod.fst

/-- The values, in ascending order of their names. -/
def values (r : Keyed α) : List α := r.toList.map Prod.snd

/-- The value under a name. -/
def get? (r : Keyed α) (name : String) : Option α := r.entries.get? name

/-- Nothing is stored. -/
def isEmpty (r : Keyed α) : Bool := r.toList.isEmpty

/-- Store a value, replacing what the name held before. -/
def insert (r : Keyed α) (name : String) (value : α) : Keyed α :=
  ⟨r.entries.insert name value trivial⟩

/-- Store entries one after another: of a repeated name, the last one stays. -/
def ofList (es : List (String × α)) : Keyed α :=
  es.foldl (fun r e => r.insert e.1 e.2) empty

/-- Change the values, keep the names. -/
def map (r : Keyed α) (f : String → α → β) : Keyed β := ⟨r.entries.map f⟩

/-- As `map`, for a function that may use that the entry is there. A recursion
    through a collection needs that to see that the entry is smaller. -/
def mapMem (r : Keyed α) (f : (k : String) → (v : α) → (k, v) ∈ r.toList → β) : Keyed β :=
  ⟨r.entries.mapMem f⟩

/-- As `map`, in ascending order of name and with effects. -/
def mapM {m : Type → Type} [Monad m] (r : Keyed α) (f : String → α → m β) : m (Keyed β) := do
  let entries ← r.entries.mapM f
  pure ⟨entries⟩

/-- The value of `f` at each of the given names, which may come in any order
    and repeatedly. -/
def tabulate (names : List String) (f : String → α) : Keyed α :=
  ofList (names.map fun name => (name, f name))

theorem mapMem_eq_map (r : Keyed α) (f : String → α → β) :
    (r.mapMem fun k v _ => f k v) = r.map f :=
  congrArg Keyed.mk (From.toList_mapMem r.entries f)

theorem toList_map (r : Keyed α) (f : String → α → β) :
    (r.map f).toList = r.toList.map fun e => (e.1, f e.1 e.2) :=
  From.toList_map r.entries f

/-- An entry is smaller than the collection, so a recursion through one ends. -/
theorem sizeOf_lt_of_mem [SizeOf α] {r : Keyed α} {k : String} {v : α}
    (h : (k, v) ∈ r.toList) : sizeOf v < sizeOf r := by
  cases r with
  | mk entries =>
      have hlt : sizeOf v < sizeOf entries := From.sizeOf_lt_of_mem h
      simp only [Keyed.mk.sizeOf_spec]
      omega

/-- The names ascend. -/
theorem pairwise_toList (r : Keyed α) : r.toList.Pairwise fun a b => a.1 < b.1 :=
  From.pairwise_toList r.entries

theorem mem_toList_iff {r : Keyed α} {k : String} {v : α} :
    (k, v) ∈ r.toList ↔ r.get? k = some v :=
  From.mem_toList_iff

@[simp] theorem get?_empty (k : String) : (empty : Keyed α).get? k = none := rfl

/-- What an insertion does to every look-up. -/
@[simp] theorem get?_insert (r : Keyed α) (name : String) (value : α) (k : String) :
    (r.insert name value).get? k = if k = name then some value else r.get? k :=
  @From.get?_insert α none r.entries name value trivial k

@[simp] theorem get?_map (r : Keyed α) (f : String → α → β) (k : String) :
    (r.map f).get? k = (r.get? k).map (f k) :=
  From.get?_map r.entries f k

/-- Look-ups determine the collection. -/
theorem ext_get? {r s : Keyed α} (h : ∀ k, r.get? k = s.get? k) : r = s := by
  cases r; cases s
  exact congrArg Keyed.mk (From.ext_get? h)

theorem get?_foldl_insert (es : List (String × α)) (r : Keyed α) (k : String) :
    (es.foldl (fun r e => r.insert e.1 e.2) r).get? k =
      ((es.reverse.find? fun e => k == e.1).map Prod.snd).or (r.get? k) := by
  induction es generalizing r with
  | nil => simp
  | cons e es ih =>
      rw [List.foldl_cons, ih, get?_insert, List.reverse_cons, List.find?_append]
      cases es.reverse.find? fun e => k == e.1 with
      | some x => rfl
      | none =>
          rcases Decidable.em (k = e.1) with h | h <;> simp [h]

/-- The last entry of a name is the one found. -/
theorem get?_ofList (es : List (String × α)) (k : String) :
    (ofList es).get? k = (es.reverse.find? fun e => k == e.1).map Prod.snd := by
  simp [ofList, get?_foldl_insert]

/-- Storing the entries of a collection again gives the collection back. -/
@[simp] theorem ofList_toList (r : Keyed α) : ofList r.toList = r := by
  apply ext_get?
  intro k
  rw [get?_ofList]
  cases h : r.toList.reverse.find? fun e => k == e.1 with
  | none =>
      rw [List.find?_eq_none] at h
      cases hg : r.get? k with
      | none => rfl
      | some v => exact absurd (h (k, v) (List.mem_reverse.2 (mem_toList_iff.2 hg))) (by simp)
  | some e =>
      have hk : k = e.1 := by simpa using List.find?_some h
      have hm := List.mem_reverse.1 (List.mem_of_find?_eq_some h)
      subst hk
      exact (mem_toList_iff.1 hm).symm

theorem get?_foldl_tabulate (names : List String) (f : String → α) (r : Keyed α) (k : String) :
    ((names.map fun name => (name, f name)).foldl (fun r e => r.insert e.1 e.2) r).get? k =
      if k ∈ names then some (f k) else r.get? k := by
  induction names generalizing r with
  | nil => simp
  | cons n ns ih =>
      rw [List.map_cons, List.foldl_cons, ih, get?_insert]
      rcases Decidable.em (k ∈ ns) with hk | hk
      · simp [hk]
      · rcases Decidable.em (k = n) with h | h <;> simp [h, hk]

/-- A tabulation holds the function at its names and nothing else. -/
theorem get?_tabulate (names : List String) (f : String → α) (k : String) :
    (tabulate names f).get? k = if k ∈ names then some (f k) else none :=
  get?_foldl_tabulate names f empty k

end Keyed

end SampleSchema
